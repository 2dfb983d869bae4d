import TinyWebServer.Model.HttpConnector
import TinyWebServer.Lib.Transition
import Mathlib.Logic.Function.Basic

/-!
# `WebServer`: the main loop, the task queue and the workers

The server is one thread in `Start`, which waits on epoll, accepts, closes and
hands out tasks, and any number of workers, which run `_FunRead` and
`_FunWrite`. No lock guards a connector. The model is a state machine over the
program counters of all of them: a program counter names the call a thread is
about to make or is in the middle of, so whatever the others do meanwhile
happens before its step.

A `HttpConnector*` is the key under which `_clients` holds the object, and the
tasks and program counters carry that key. What the system calls answer is in
the labels. Of the kernel three things are taken for granted, and each is a
premise of one step: `accept` returns no descriptor that is still open,
`epoll_wait` reports a descriptor that was registered with `EPOLLONESHOT` at
most once for each time it was armed, and closing a descriptor takes it out of
the epoll set.

A failing assertion or an exception ends the process, so there is no step
then. A worker that finds the queue empty sleeps in the pool; here it is
`idle` until there is a task to take.
-/

namespace TinyWebServer

open Lib

/-- What epoll knows about a descriptor. With `EPOLLONESHOT` it is `armed`,
for `EPOLLOUT` or for `EPOLLIN`, until an event is reported. -/
inductive Registration where
  | none
  | disarmed
  | armed (out : Bool)
  deriving DecidableEq, Repr

def Registration.isArmed : Registration → Bool
  | .none => false
  | .disarmed => false
  | .armed _ => true

/-- A reported event. -/
structure Event where
  fd : Int
  epollin : Bool
  epollout : Bool
  epollrdhup : Bool
  epollhup : Bool
  epollerr : Bool
  deriving DecidableEq, Repr

namespace Event

/-- `events & (EPOLLHUP | EPOLLRDHUP | EPOLLERR)` -/
def hangup (e : Event) : Bool := e.epollhup || e.epollrdhup || e.epollerr

/-- What epoll may report for a descriptor armed for `out`: what was asked
for, and the three it reports unasked or always asked for here. -/
def fits (e : Event) (out : Bool) : Bool :=
  (!e.epollin || !out) && (!e.epollout || out) &&
    (e.epollin || e.epollout || e.hangup)

end Event

/-- One `epoll_wait`: the events are taken one after the other, each from a
descriptor that is still armed and no longer is. The listening socket is not
`EPOLLONESHOT`. -/
def deliver (listenFd : Int) :
    (Int → Registration) → List Event → Option (Int → Registration)
  | interest, [] => some interest
  | interest, e :: rest =>
      if e.fd = listenFd then deliver listenFd interest rest
      else match interest e.fd with
        | .armed out =>
            if e.fits out then
              deliver listenFd (Function.update interest e.fd .disarmed) rest
            else none
        | _ => none

/-- Which function a task was bound to. -/
inductive TaskKind where
  | read -- `_FunRead`
  | write -- `_FunWrite`
  deriving DecidableEq, Repr

structure Task where
  kind : TaskKind
  client : Int
  deriving DecidableEq, Repr

/-- How far `_CloseConnection` has come. The last line of `Close` is a log
entry that reads the connector. -/
inductive CloseStage where
  | delFd
  | close
  | log
  deriving DecidableEq, Repr

def CloseStage.next : CloseStage → Option CloseStage
  | .delFd => some .close
  | .close => some .log
  | .log => none

/-- Where `Start` stands. `batch` are the reported events not looked at yet.
In `_HandleNewConnection`, `accepting` is before `accept` and `accepted` is
between it and the test of the user count; in `_AddConnection`, `adding` is
after `Init` and `logging` is at the last line, a log entry that reads the
connector. -/
inductive MainLoop where
  | waiting
  | dispatching (batch : List Event)
  | accepting (batch : List Event)
  | accepted (fd : Int) (batch : List Event)
  | adding (fd : Int) (batch : List Event)
  | logging (fd : Int) (batch : List Event)
  | closing (stage : CloseStage) (fd : Int) (batch : List Event)
  deriving DecidableEq, Repr

/-- Where a worker stands in a task: `rearming` is before a `modFd`, and
`finishing` after the last call of the task. -/
inductive Worker where
  | idle
  | running (kind : TaskKind) (fd : Int)
  | processing (fd : Int)
  | rearming (out : Bool) (fd : Int)
  | closing (stage : CloseStage) (fd : Int)
  | finishing
  deriving DecidableEq, Repr

/-- The server's state; `opened` are the descriptors returned by `accept` and
not closed since. -/
structure Server (Thread : Type) where
  listenFd : Int
  clients : Int → Option HttpConnector
  userCnt : Nat
  interest : Int → Registration
  opened : Int → Bool
  main : MainLoop
  queue : List Task
  workers : Thread → Worker

inductive AcceptResult where
  | connected (fd : Int)
  | wouldBlock -- `EAGAIN`, `EWOULDBLOCK`
  | failed
  deriving DecidableEq, Repr

/-- Who does what, and what the world answered. A label with a thread is a
step of that worker, every other one a step of the main loop. -/
inductive ServerLabel (Thread : Type) where
  | wait (batch : List Event)
  | turn
  | dispatch
  | accept (result : AcceptResult)
  | addConnection (fresh : HttpConnector)
  | addFd (ok : Bool)
  | logged
  | close
  | take (t : Thread)
  | read (t : Thread) (arrived : List Recv) (last : Recv)
  | process (t : Thread) (w : World)
  | write (t : Thread) (results : List Int) (wouldBlock : Bool)
  | modFd (t : Thread) (ok : Bool)
  | closeBy (t : Thread)
  | finish (t : Thread)

namespace Server

variable {Thread : Type}

/-- `MAX_CLIENTS` -/
def maxClients : Nat := 65535

/-- The size of the epoller's event array. -/
def maxEvent : Nat := 512

def setClient (s : Server Thread) (fd : Int) (c : HttpConnector) :
    Server Thread :=
  { s with clients := Function.update s.clients fd (some c) }

def setWorker [DecidableEq Thread] (s : Server Thread) (t : Thread)
    (pc : Worker) : Server Thread :=
  { s with workers := Function.update s.workers t pc }

/-- `AddTask`: the push under the pool's lock. -/
def addTask (s : Server Thread) (kind : TaskKind) (fd : Int) : Server Thread :=
  { s with queue := s.queue ++ [⟨kind, fd⟩] }

/-- The body of the loop over the reported events in `Start`. -/
def dispatch (s : Server Thread) (e : Event) (batch : List Event) :
    Except Fault (Server Thread) :=
  if e.fd = s.listenFd then
    .ok { s with main := .accepting batch }
  else if e.hangup then do
    check ((s.clients e.fd).isSome = true) .start
    pure { s with main := .closing .delFd e.fd batch }
  else if e.epollin then do
    check ((s.clients e.fd).isSome = true) .start
    pure { s.addTask .read e.fd with main := .dispatching batch }
  else if e.epollout then do
    check ((s.clients e.fd).isSome = true) .start
    pure { s.addTask .write e.fd with main := .dispatching batch }
  else
    .ok { s with main := .dispatching batch }

/-- The test of the user count, and `_AddConnection` as far as `Init`. On the
first branch nobody closes `fd`. -/
def addConnection (s : Server Thread) (fresh : HttpConnector) (fd : Int)
    (batch : List Event) : Except Fault (Server Thread) :=
  if maxClients ≤ s.userCnt then
    .ok { s with main := .dispatching batch }
  else do
    check (0 ≤ fd) .addConnection
    pure { s.setClient fd (((s.clients fd).getD fresh).init fd) with
      userCnt := (s.userCnt + 1) % 2 ^ 16
      main := .adding fd batch }

/-- `addFd` and `_SetNoBlock` of `_AddConnection`. What `addFd` answers is
not looked at. -/
def addFd (s : Server Thread) (ok : Bool) (fd : Int) (batch : List Event) :
    Except Fault (Server Thread) := do
  check (0 < fd) .setNoBlock
  pure { s with
    interest :=
      if ok then Function.update s.interest fd (.armed false) else s.interest
    main := .logging fd batch }

/-- `_CloseConnection` on the connector under `fd`, a stage at a time. The
connector's own `_fd` is what it deletes and closes. -/
def closeConnection (s : Server Thread) (fd : Int) :
    CloseStage → Option (Server Thread)
  | .delFd => (s.clients fd).map fun c =>
      { s with interest := Function.update s.interest c.fd .none }
  | .close => (s.clients fd).map fun c =>
      if c.status then
        { s.setClient fd c.close with
          userCnt := (s.userCnt + (2 ^ 16 - 1)) % 2 ^ 16
          interest := Function.update s.interest c.fd .none
          opened := Function.update s.opened c.fd false }
      else s
  | .log => some s

/-- `_FunRead` once `Read` has returned. -/
def funRead (fd : Int) (ret : Int) (status : Bool) : Worker :=
  if ret = 0 ∧ status = false then .closing .delFd fd else .processing fd

/-- `_FunWrite` once `Write` has returned and left the connector as `c`. -/
def funWrite (fd : Int) (c : HttpConnector) (ret : Int) (wouldBlock : Bool) :
    Worker :=
  if c.writeableSize = 0 then .processing fd
  else if ret < 0 then
    if wouldBlock then .rearming true fd
    -- Only a log entry, whatever it says.
    else .finishing
  else .finishing

variable [DecidableEq Thread]

inductive Step : Server Thread → ServerLabel Thread → Server Thread → Prop where
  | wait {s batch interest} : s.main = .waiting → batch.length ≤ maxEvent →
      deliver s.listenFd s.interest batch = some interest →
      Step s (.wait batch) { s with interest, main := .dispatching batch }
  | turn {s} : s.main = .dispatching [] →
      Step s .turn { s with main := .waiting }
  | dispatch {s s' e batch} : s.main = .dispatching (e :: batch) →
      s.dispatch e batch = .ok s' → Step s .dispatch s'
  | accept {s fd batch} : s.main = .accepting batch → 0 ≤ fd →
      fd ≠ s.listenFd → s.opened fd = false →
      Step s (.accept (.connected fd)) { s with
        opened := Function.update s.opened fd true
        main := .accepted fd batch }
  | acceptEnd {s batch result} : s.main = .accepting batch →
      (∀ fd, result ≠ .connected fd) →
      Step s (.accept result) { s with main := .dispatching batch }
  | addConnection {s s' fresh fd batch} : s.main = .accepted fd batch →
      fresh.Fresh → s.addConnection fresh fd batch = .ok s' →
      Step s (.addConnection fresh) s'
  | addFd {s s' ok fd batch} : s.main = .adding fd batch →
      (ok = true → s.interest fd = .none) → s.addFd ok fd batch = .ok s' →
      Step s (.addFd ok) s'
  | logged {s fd batch} : s.main = .logging fd batch →
      Step s .logged { s with main := .accepting batch }
  | close {s s' stage fd batch} : s.main = .closing stage fd batch →
      s.closeConnection fd stage = some s' →
      Step s .close { s' with
        main := match stage.next with
          | some stage => .closing stage fd batch
          | none => .dispatching batch }
  | take {s t task rest} : s.workers t = .idle → s.queue = task :: rest →
      Step s (.take t)
        ({ s with queue := rest }.setWorker t (.running task.kind task.client))
  | read {s t fd c c' arrived last ret status} :
      s.workers t = .running .read fd → s.clients fd = some c →
      c.read arrived last = .ok (c', ret, status) →
      Step s (.read t arrived last)
        ((s.setClient fd c').setWorker t (funRead fd ret status))
  | process {s t fd c c' w ready} :
      s.workers t = .processing fd → s.clients fd = some c →
      c.process w = .ok (c', ready) →
      Step s (.process t w)
        ((s.setClient fd c').setWorker t (.rearming ready fd))
  | write {s t fd c c' results wouldBlock ret status} :
      s.workers t = .running .write fd → s.clients fd = some c →
      c.write true results = .ok (some (c', ret, status)) →
      Step s (.write t results wouldBlock)
        ((s.setClient fd c').setWorker t (funWrite fd c' ret wouldBlock))
  | modFd {s t out fd c ok} :
      s.workers t = .rearming out fd → s.clients fd = some c →
      (ok = true → s.interest c.fd ≠ .none) →
      Step s (.modFd t ok)
        ({ s with interest :=
            if ok then Function.update s.interest c.fd (.armed out)
            else s.interest }.setWorker t .finishing)
  | closeBy {s s' t stage fd} : s.workers t = .closing stage fd →
      s.closeConnection fd stage = some s' →
      Step s (.closeBy t) (s'.setWorker t (match stage.next with
        | some stage => .closing stage fd
        | none => .finishing))
  | finish {s t} : s.workers t = .finishing →
      Step s (.finish t) (s.setWorker t .idle)

/-- Every run of the server, from the moment the constructor is done. -/
def system : TransitionSystem (Server Thread) (ServerLabel Thread) where
  init s := (∀ fd, s.clients fd = none) ∧ s.userCnt = 0 ∧
    (∀ fd, s.interest fd = .none) ∧ (∀ fd, s.opened fd = false) ∧
    s.main = .waiting ∧ s.queue = [] ∧ ∀ t, s.workers t = .idle
  step := Step

end Server

end TinyWebServer
