import TinyWebServer.Model.LoginScript
import TinyWebServer.Model.SqlPool

/-!
# `_Login`, a call at a time

Many threads in `_Login` at once, on one pool. A thread is its remaining calls
and the calls it has made. The calls on the pool are steps of `PoolSystem`; a
MySQL call may answer anything of its type. `finished` collects the calls of
every `_Login` that has returned, with its result.
-/

namespace TinyWebServer

open Lib

variable {Conn Stmt Res : Type}

/-- A call a `_Login` has made, with its answer. -/
abbrev LoginEvent (Conn Stmt Res : Type) :=
  Script.Event (LoginCall Conn Stmt Res) LoginCall.Ans

/-! What a call obtained, and what it gave back. -/

namespace LoginEvent

def obtained : LoginEvent Conn Stmt Res → Option (Int × Option Conn)
  | ⟨.getConn, pair⟩ => some pair
  | _ => none

def released : LoginEvent Conn Stmt Res → Option (Int × Option Conn)
  | ⟨.releaseConn id mysql, _⟩ => some (id, some mysql)
  | _ => none

def stmtCreated : LoginEvent Conn Stmt Res → Option Stmt
  | ⟨.stmtInit _, stmt⟩ => stmt
  | _ => none

def stmtClosed : LoginEvent Conn Stmt Res → Option Stmt
  | ⟨.stmtClose stmt, _⟩ => some stmt
  | _ => none

def resObtained : LoginEvent Conn Stmt Res → Option Res
  | ⟨.stmtResultMetadata _, res⟩ => res
  | _ => none

def resFreed : LoginEvent Conn Stmt Res → Option Res
  | ⟨.freeResult res, _⟩ => some res
  | _ => none

end LoginEvent

/-- A thread in a `_Login`, or in none. -/
inductive LoginThread (Conn Stmt Res : Type) where
  | idle
  | running (rest : LoginScript Conn Stmt Res (HttpRequest × Bool))
      (made : List (LoginEvent Conn Stmt Res))

structure LoginSystem (Thread Conn Stmt Res : Type) where
  pool : PoolSystem Thread (Option Conn)
  thread : Thread → LoginThread Conn Stmt Res
  finished : List (List (LoginEvent Conn Stmt Res) × Bool)

inductive LoginLabel (Thread : Type) where
  | start (t : Thread) (request : HttpRequest)
  | call (t : Thread)
  | ret (t : Thread)

namespace LoginSystem

variable {Thread : Type} [DecidableEq Thread]

def setThread (s : LoginSystem Thread Conn Stmt Res) (t : Thread)
    (x : LoginThread Conn Stmt Res) : LoginSystem Thread Conn Stmt Res :=
  { s with thread := Function.update s.thread t x }

/-- `t` has its call answered. -/
def answer (s : LoginSystem Thread Conn Stmt Res) (t : Thread)
    (op : LoginCall Conn Stmt Res)
    (k : op.Ans → LoginScript Conn Stmt Res (HttpRequest × Bool))
    (made : List (LoginEvent Conn Stmt Res)) (ans : op.Ans) :
    LoginSystem Thread Conn Stmt Res :=
  s.setThread t (.running (k ans) (made ++ [⟨op, ans⟩]))

/-- `waits` and `getConn` are both steps of a thread in `GetConn`: `a` is its
call, or a wake-up. -/
inductive Step : LoginSystem Thread Conn Stmt Res → LoginLabel Thread →
    LoginSystem Thread Conn Stmt Res → Prop where
  | start {s} (t : Thread) (request : HttpRequest) :
      s.pool.stopped = false → s.thread t = .idle →
      Step s (.start t request)
        (s.setThread t (.running (HttpResponse.loginScript request) []))
  | waits {s t k made a pool} : s.thread t = .running (.call .getConn k) made →
      a = .call t ∨ a = .wake t → PoolSystem.Step s.pool a pool →
      pool.pool = s.pool.pool → Step s (.call t) { s with pool }
  | getConn {s t k made a pool id mysql} :
      s.thread t = .running (.call .getConn k) made →
      a = .call t ∨ a = .wake t → PoolSystem.Step s.pool a pool →
      s.pool.pool.takeConn = .ok (pool.pool, id, mysql) →
      Step s (.call t)
        ({ s with pool }.answer t .getConn k made (id, mysql))
  | releaseConn {s t id mysql k made pool} :
      s.thread t = .running (.call (.releaseConn id mysql) k) made →
      PoolSystem.Step s.pool (.release t id (some mysql)) pool →
      pool.stopped = false →
      Step s (.call t)
        ({ s with pool }.answer t (.releaseConn id mysql) k made (-1 : Int))
  -- `exit(1)` in `ReleaseConn`
  | exit {s t id mysql k made pool} :
      s.thread t = .running (.call (.releaseConn id mysql) k) made →
      PoolSystem.Step s.pool (.release t id (some mysql)) pool →
      pool.stopped = true → Step s (.call t) { s with pool }
  | mysql {s t op k made} (ans : op.Ans) : s.pool.stopped = false →
      op.onPool = false → s.thread t = .running (.call op k) made →
      Step s (.call t) (s.answer t op k made ans)
  | ret {s t r made} : s.pool.stopped = false →
      s.thread t = .running (.ret r) made →
      Step s (.ret t)
        ({ s with finished := s.finished ++ [(made, r.2)] }.setThread t .idle)

/-- Any number of threads in any number of `_Login`s, one after the other and
side by side, on a pool that `Init` set up. -/
def system (p : SqlPool (Option Conn)) :
    TransitionSystem (LoginSystem Thread Conn Stmt Res) (LoginLabel Thread)
    where
  init s := (PoolSystem.system p).init s.pool ∧ (∀ t, s.thread t = .idle) ∧
    s.finished = []
  step := Step

end LoginSystem

end TinyWebServer
