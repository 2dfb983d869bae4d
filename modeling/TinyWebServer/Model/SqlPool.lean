import TinyWebServer.Model.Basic
import TinyWebServer.Lib.Transition
import Mathlib.Data.Finset.Basic
import Mathlib.Logic.Function.Basic

/-!
# `SQLPool`

The pool of database connections: a list of free `(id, MYSQL*)` pairs, a
counter of them, and the set of ids handed out. `GetConn` and `ReleaseConn`
run under one mutex, so between the two of them the program is a state machine
over the pool and over where each thread stands: outside the pool, asleep in
`_CVpool.wait`, or notified and waiting to run again. A sleeper may also wake
on its own.

The threads are of any type, so there are as many as one likes, and a thread
may release whatever id and pointer it likes. `exit(1)` is the state where
`stopped` is set; no step leaves it.
-/

namespace TinyWebServer

open Lib

variable {Conn : Type}

structure SqlPool (Conn : Type) where
  maxConn : Int
  freeConn : Int
  connList : List (Int × Conn)
  usedId : Finset Int

namespace SqlPool

/-- A pool before `Init`: the two counters hold whatever was there. -/
def construct (maxConn freeConn : Int) : SqlPool Conn :=
  { maxConn, freeConn, connList := [], usedId := ∅ }

/-- The loop of `Init`, from round `i` on: what the `i`-th `mysql_init` and
`mysql_real_connect` answered is given by call number. -/
def initLoop (mysqlInit : Nat → Option Conn) (realConnect : Nat → Bool) :
    Nat → Nat → SqlPool Conn → Except Fault (SqlPool Conn)
  | 0, _, p => .ok p
  | n + 1, i, p =>
      match mysqlInit i with
      | none => .error (.runtimeError (lit "mysql init error"))
      | some mysql =>
          if realConnect i then
            initLoop mysqlInit realConnect n (i + 1)
              { p with connList := p.connList ++ [((i : Int), mysql)] }
          else
            .error (.runtimeError (lit "mysql connect error"))

/-- `Init`, with the answers of the MySQL library. -/
def init (libraryInit : Bool) (mysqlInit : Nat → Option Conn)
    (realConnect : Nat → Bool) (maxSize : Int) (p : SqlPool Conn) :
    Except Fault (SqlPool Conn) :=
  let p := { p with maxConn := maxSize, freeConn := maxSize }
  if libraryInit then
    initLoop mysqlInit realConnect maxSize.toNat 0 p
  else
    .error (.runtimeError (lit "mysql library init fail"))

/-- `GetConn` past its waiting loop: the front of the list, which has to be
there. -/
def takeConn (p : SqlPool Conn) : Except Fault (SqlPool Conn × Int × Conn) :=
  match p.connList with
  | [] => .error .outOfBounds
  | item :: rest =>
      .ok ({ p with
              usedId := insert item.1 p.usedId
              connList := rest
              freeConn := p.freeConn - 1 }, item.1, item.2)

/-- `ReleaseConn`; `none` is the `exit(1)` on an unknown id. The caller's
`id` becomes `-1`. -/
def releaseConn (p : SqlPool Conn) (id : Int) (mysql : Conn) :
    Option (SqlPool Conn × Int) :=
  if id ∈ p.usedId then
    some ({ p with
            connList := p.connList ++ [(id, mysql)]
            freeConn := p.freeConn + 1
            usedId := p.usedId.erase id }, -1)
  else
    none

/-- A call of `~SQLPool` on the MySQL library. -/
inductive DestroyCall (Conn : Type) where
  | libraryEnd
  | close (mysql : Conn)

/-- `~SQLPool`: the connections that are in the list at that time are closed,
after the library. -/
def destroy (p : SqlPool Conn) : List (DestroyCall Conn) :=
  .libraryEnd :: p.connList.map fun item => .close item.2

end SqlPool

/-- Where a thread stands with respect to the pool's condition variable. -/
inductive Phase where
  | outside
  | asleep
  | notified
  deriving DecidableEq, Repr

structure PoolSystem (Thread Conn : Type) where
  pool : SqlPool Conn
  phase : Thread → Phase
  stopped : Bool

inductive PoolLabel (Thread Conn : Type) where
  -- A thread enters `GetConn`.
  | call (t : Thread)
  -- A thread asleep in `GetConn` runs again, notified or not.
  | wake (t : Thread)
  | release (t : Thread) (id : Int) (mysql : Conn)

namespace PoolSystem

variable {Thread : Type} [DecidableEq Thread]

def setPhase (s : PoolSystem Thread Conn) (t : Thread) (ph : Phase) :
    PoolSystem Thread Conn :=
  { s with phase := fun t' => if t' = t then ph else s.phase t' }

/-- `_CVpool.notify_one()`: one sleeper is notified if there is one. -/
inductive NotifyOne (s : PoolSystem Thread Conn) :
    PoolSystem Thread Conn → Prop where
  | some (t : Thread) : s.phase t = .asleep →
      NotifyOne s (s.setPhase t .notified)
  | none : (∀ t, s.phase t ≠ .asleep) → NotifyOne s s

/-- A critical section of the pool. `call` and `wake` differ only in where the
thread comes from: both test `_free_conn` and either sleep or take. -/
inductive Step : PoolSystem Thread Conn → PoolLabel Thread Conn →
    PoolSystem Thread Conn → Prop where
  | callWait {s t} : s.stopped = false → s.phase t = .outside →
      s.pool.freeConn = 0 → Step s (.call t) (s.setPhase t .asleep)
  | callTake {s t p id mysql} : s.stopped = false → s.phase t = .outside →
      s.pool.freeConn ≠ 0 → s.pool.takeConn = .ok (p, id, mysql) →
      Step s (.call t) { s with pool := p }
  | wakeWait {s t} : s.stopped = false → s.phase t ≠ .outside →
      s.pool.freeConn = 0 → Step s (.wake t) (s.setPhase t .asleep)
  | wakeTake {s t p id mysql} : s.stopped = false → s.phase t ≠ .outside →
      s.pool.freeConn ≠ 0 → s.pool.takeConn = .ok (p, id, mysql) →
      Step s (.wake t) ({ s with pool := p }.setPhase t .outside)
  | release {s t id mysql p id' s'} : s.stopped = false →
      s.phase t = .outside → s.pool.releaseConn id mysql = some (p, id') →
      NotifyOne { s with pool := p } s' →
      Step s (.release t id mysql) s'
  | exit {s t id mysql} : s.stopped = false → s.phase t = .outside →
      s.pool.releaseConn id mysql = none →
      Step s (.release t id mysql) { s with stopped := true }

/-- All interleavings on a pool that `Init` set up, every thread starting
outside. -/
def system (p : SqlPool Conn) : TransitionSystem (PoolSystem Thread Conn)
    (PoolLabel Thread Conn) where
  init s := s.pool = p ∧ (∀ t, s.phase t = .outside) ∧ s.stopped = false
  step := Step

end PoolSystem

/-- The pool with its holders: `lent id` is the connection that `GetConn` last
handed out under `id`, as long as `id` was not released since. -/
structure Lending (Thread Conn : Type) where
  system : PoolSystem Thread Conn
  lent : Int → Option Conn

namespace Lending

variable {Thread : Type} [DecidableEq Thread]

/-- The steps of the pool, with what they do to the holders. -/
inductive Step : Lending Thread Conn → PoolLabel Thread Conn →
    Lending Thread Conn → Prop where
  | take {s a s' lent id mysql} : PoolSystem.Step s a s' →
      s.pool.takeConn = .ok (s'.pool, id, mysql) →
      Step ⟨s, lent⟩ a ⟨s', Function.update lent id (some mysql)⟩
  | release {s s' lent t id mysql} :
      PoolSystem.Step s (.release t id mysql) s' → id ∈ s.pool.usedId →
      Step ⟨s, lent⟩ (.release t id mysql)
        ⟨s', Function.update lent id none⟩
  | other {s a s' lent} : PoolSystem.Step s a s' → s'.pool = s.pool →
      Step ⟨s, lent⟩ a ⟨s', lent⟩

def runs (p : SqlPool Conn) : TransitionSystem (Lending Thread Conn)
    (PoolLabel Thread Conn) where
  init s := (PoolSystem.system p).init s.system ∧ ∀ id, s.lent id = none
  step := Step

end Lending

end TinyWebServer
