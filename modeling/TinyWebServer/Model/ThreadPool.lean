import TinyWebServer.Lib.CondVar
import TinyWebServer.Lib.Transition

/-!
# `ThreadPool`

The workers share a queue of tasks and a flag under one mutex, and a condition
variable. A worker holds the lock all the time except while it runs a task and
while it sleeps in `cv.wait`, so a step of it is one round of its loop, from
taking the lock to giving it up. `AddTask` pushes with the lock held and
notifies with the lock given up: those are two steps, and `unnotified` counts
the calls that have done the first and not the second. The destructor does
both of its statements with the lock held.

The workers and the tasks are of any type. `added` and `taken` are not in the
program: they record the tasks pushed and popped, in the order of the lock.
-/

namespace TinyWebServer

open Lib

/-- `ThreadPool::Pool` without its mutex and condition variable. -/
structure ThreadPool (Task : Type) where
  status : Bool
  tasks : List Task

namespace ThreadPool

variable {Task : Type}

def construct : ThreadPool Task := { status := true, tasks := [] }

/-- What `AddTask` does with the lock held. -/
def addTask (p : ThreadPool Task) (task : Task) : ThreadPool Task :=
  { p with tasks := p.tasks ++ [task] }

/-- How a round of the worker's loop gives the lock up. -/
inductive Round (Task : Type) where
  | run (task : Task) (p : ThreadPool Task)
  | leave -- `break`
  | wait -- `cv.wait(lock)`

/-- A round of the worker's loop. -/
def round (p : ThreadPool Task) : Round Task :=
  match p.tasks with
  | task :: rest => .run task { p with tasks := rest }
  | [] => if p.status = false then .leave else .wait

/-- What `~ThreadPool` does to the flag. -/
def shutdown (p : ThreadPool Task) : ThreadPool Task :=
  { p with status := false }

/-- Where a worker stands: `ready` to take the lock, when it starts and when
it comes back from a task. -/
inductive Place (Task : Type) where
  | ready
  | asleep
  | notified
  | busy (task : Task)
  | exited

/-- A worker that may take the lock. A sleeper may at any time. -/
def Place.runnable : Place Task → Bool
  | .ready | .asleep | .notified => true
  | .busy _ | .exited => false

/-- `Pool::cv` -/
def cv : CondVar (Place Task) where
  wake
    | .asleep => some .notified
    | .ready | .notified | .busy _ | .exited => none
  notified
    | .notified => true
    | .ready | .asleep | .busy _ | .exited => false
  notified_of_wake := by
    rintro (_ | _ | _ | _ | _) y h <;> cases h
    rfl
  wake_of_notified := by
    rintro (_ | _ | _ | _ | _) h <;> first | rfl | cases h

end ThreadPool

structure ThreadSystem (Worker Task : Type) where
  pool : ThreadPool Task
  place : Worker → ThreadPool.Place Task
  unnotified : Nat
  added : List Task
  taken : List Task

inductive ThreadLabel (Worker Task : Type) where
  -- `AddTask` up to the end of its lock's scope, and the rest of it.
  | add (task : Task)
  | notify
  | round (w : Worker)
  -- The task returns.
  | finish (w : Worker)
  | shutdown

namespace ThreadSystem

variable {Worker Task : Type} [DecidableEq Worker]

def setPlace (s : ThreadSystem Worker Task) (w : Worker)
    (x : ThreadPool.Place Task) : ThreadSystem Worker Task :=
  { s with place := Function.update s.place w x }

inductive Step : ThreadSystem Worker Task → ThreadLabel Worker Task →
    ThreadSystem Worker Task → Prop where
  | add {s} (task : Task) : Step s (.add task) { s with
      pool := s.pool.addTask task
      unnotified := s.unnotified + 1
      added := s.added ++ [task] }
  | notify {s n place} : s.unnotified = n + 1 →
      ThreadPool.cv.NotifyOne s.place place →
      Step s .notify { s with unnotified := n, place }
  | run {s w task p} : (s.place w).runnable = true →
      s.pool.round = .run task p →
      Step s (.round w)
        ({ s with pool := p, taken := s.taken ++ [task] }.setPlace w
          (.busy task))
  | leave {s w} : (s.place w).runnable = true → s.pool.round = .leave →
      Step s (.round w) (s.setPlace w .exited)
  | wait {s w} : (s.place w).runnable = true → s.pool.round = .wait →
      Step s (.round w) (s.setPlace w .asleep)
  | finish {s w task} : s.place w = .busy task →
      Step s (.finish w) (s.setPlace w .ready)
  | shutdown {s} : Step s .shutdown { s with
      pool := s.pool.shutdown
      place := ThreadPool.cv.notifyAll s.place }

/-- Every run of a pool, from the end of its constructor. -/
def system : TransitionSystem (ThreadSystem Worker Task)
    (ThreadLabel Worker Task) where
  init s := s.pool = .construct ∧ (∀ w, s.place w = .ready) ∧
    s.unnotified = 0 ∧ s.added = [] ∧ s.taken = []
  step := Step

/-- No `AddTask` once the destructor has run. -/
def Alive (s : ThreadSystem Worker Task) : ThreadLabel Worker Task → Prop
  | .add _ => s.pool.status = true
  | .notify | .round _ | .finish _ | .shutdown => True

end ThreadSystem

end TinyWebServer
