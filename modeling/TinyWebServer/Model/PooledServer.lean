import TinyWebServer.Model.Server
import TinyWebServer.Model.ThreadPool

/-!
# The server on its thread pool

`Server` lets an idle worker take a task whenever there is one. In the program
the workers sleep on the pool's condition variable while there is none, and
`AddTask` wakes them one at a time. Here the two models are put together: the
queue of `Server` is the pool's queue, a worker of `Server` that is not idle is
running its task for the pool, and `place` is where the pool has it.

`AddTask` pushes with the lock held and notifies with the lock given up, so the
main loop is between the two while `notifying`, and does nothing else then. The
pool's flag stays up for as long as the server runs: its destructor runs in the
server's.
-/

namespace TinyWebServer

open Lib

structure PooledServer (Thread : Type) where
  server : Server Thread
  place : Thread → ThreadPool.Place Task
  notifying : Bool

inductive PooledLabel (Thread : Type) where
  | server (a : ServerLabel Thread)
  | notify
  -- A round of the worker's loop in which it finds no task.
  | round (t : Thread)

namespace PooledServer

variable {Thread : Type}

/-- The pool as the workers find it. -/
def pool (s : PooledServer Thread) : ThreadPool Task :=
  { status := true, tasks := s.server.queue }

/-- A step of a worker inside its task. -/
def InTask : ServerLabel Thread → Prop
  | .read _ _ _ | .process _ _ | .write _ _ _ | .modFd _ _ | .closeBy _ => True
  | .wait _ | .turn | .dispatch | .accept _ | .addConnection _ | .addFd _
  | .logged | .close | .take _ | .finish _ => False

/-- A step of the main loop. -/
def InLoop : ServerLabel Thread → Prop
  | .wait _ | .turn | .dispatch | .accept _ | .addConnection _ | .addFd _
  | .logged | .close => True
  | .read _ _ _ | .process _ _ | .write _ _ _ | .modFd _ _ | .closeBy _
  | .take _ | .finish _ => False

variable [DecidableEq Thread]

def setPlace (s : PooledServer Thread) (t : Thread)
    (x : ThreadPool.Place Task) : PooledServer Thread :=
  { s with place := Function.update s.place t x }

inductive Step : PooledServer Thread → PooledLabel Thread →
    PooledServer Thread → Prop where
  | loop {s a server} : s.notifying = false → InLoop a →
      Server.Step s.server a server → server.queue = s.server.queue →
      Step s (.server a) { s with server }
  | addTask {s a server task} : s.notifying = false → InLoop a →
      Server.Step s.server a server →
      server.queue = s.server.queue ++ [task] →
      Step s (.server a) { s with server, notifying := true }
  | notify {s place} : s.notifying = true →
      ThreadPool.cv.NotifyOne s.place place →
      Step s .notify { s with notifying := false, place }
  | run {s t task p server} : (s.place t).runnable = true →
      s.pool.round = .run task p → Server.Step s.server (.take t) server →
      Step s (.server (.take t)) ({ s with server }.setPlace t (.busy task))
  | wait {s t} : (s.place t).runnable = true → s.pool.round = .wait →
      Step s (.round t) (s.setPlace t .asleep)
  | inTask {s a server} : InTask a → Server.Step s.server a server →
      Step s (.server a) { s with server }
  | finish {s t server} : Server.Step s.server (.finish t) server →
      Step s (.server (.finish t)) ({ s with server }.setPlace t .ready)

/-- Every run of the server on its pool, from the moment the constructor is
done. -/
def system : TransitionSystem (PooledServer Thread) (PooledLabel Thread) where
  init s := Server.system.init s.server ∧ (∀ t, s.place t = .ready) ∧
    s.notifying = false
  step := Step

end PooledServer

end TinyWebServer
