import TinyWebServer.Lib.Script
import TinyWebServer.Model.HttpRequest

/-!
# `_Login`, as its calls

The calls of `HttpResponse::_Login`, in the order and with the arguments the
source has them, each of the early returns with its own clean-up: a tree, which
one response runs on answers given beforehand, and which many threads can run a
call at a time on one pool.

A MySQL call may answer anything of its type. A `MYSQL*` is an optional handle,
the null pointer being `none`.
-/

namespace TinyWebServer

open Lib

variable {Conn Stmt Res : Type}

/-- The calls of `_Login`. -/
inductive LoginCall (Conn Stmt Res : Type) where
  | getConn
  | releaseConn (id : Int) (mysql : Conn)
  | stmtInit (mysql : Conn)
  | stmtPrepare (stmt : Stmt) (query : Bytes)
  | stmtBindParam (stmt : Stmt) (buffer : Bytes)
  | stmtExecute (stmt : Stmt)
  | stmtResultMetadata (stmt : Stmt)
  | stmtStoreResult (stmt : Stmt)
  | stmtNumRows (stmt : Stmt)
  | fetchRow (res : Res)
  | freeResult (res : Res)
  | stmtClose (stmt : Stmt)

namespace LoginCall

/-- What a call answers. `GetConn` and `ReleaseConn` answer in `id`, too; the
integers are zero on success. -/
def Ans : LoginCall Conn Stmt Res → Type
  | .getConn => Int × Option Conn
  | .releaseConn _ _ => Int
  | .stmtInit _ => Option Stmt
  | .stmtPrepare _ _ | .stmtBindParam _ _ | .stmtExecute _
  | .stmtStoreResult _ => Int
  | .stmtResultMetadata _ => Option Res
  | .stmtNumRows _ => Nat
  | .fetchRow _ => Option (List (Option Bytes))
  | .freeResult _ | .stmtClose _ => Unit

/-- A call on the pool, not on the MySQL library. -/
def onPool : LoginCall Conn Stmt Res → Bool
  | .getConn | .releaseConn _ _ => true
  | .stmtInit _ | .stmtPrepare _ _ | .stmtBindParam _ _ | .stmtExecute _
  | .stmtResultMetadata _ | .stmtStoreResult _ | .stmtNumRows _ | .fetchRow _
  | .freeResult _ | .stmtClose _ => false

end LoginCall

abbrev LoginScript (Conn Stmt Res : Type) :=
  Script (LoginCall Conn Stmt Res) LoginCall.Ans

namespace LoginScript

def getConn : LoginScript Conn Stmt Res (Int × Option Conn) :=
  .call .getConn .ret

def releaseConn (id : Int) (mysql : Conn) : LoginScript Conn Stmt Res Int :=
  .call (.releaseConn id mysql) .ret

def stmtInit (mysql : Conn) : LoginScript Conn Stmt Res (Option Stmt) :=
  .call (.stmtInit mysql) .ret

def stmtPrepare (stmt : Stmt) (query : Bytes) :
    LoginScript Conn Stmt Res Int :=
  .call (.stmtPrepare stmt query) .ret

def stmtBindParam (stmt : Stmt) (buffer : Bytes) :
    LoginScript Conn Stmt Res Int :=
  .call (.stmtBindParam stmt buffer) .ret

def stmtExecute (stmt : Stmt) : LoginScript Conn Stmt Res Int :=
  .call (.stmtExecute stmt) .ret

def stmtResultMetadata (stmt : Stmt) :
    LoginScript Conn Stmt Res (Option Res) :=
  .call (.stmtResultMetadata stmt) .ret

def stmtStoreResult (stmt : Stmt) : LoginScript Conn Stmt Res Int :=
  .call (.stmtStoreResult stmt) .ret

def stmtNumRows (stmt : Stmt) : LoginScript Conn Stmt Res Nat :=
  .call (.stmtNumRows stmt) .ret

def fetchRow (res : Res) :
    LoginScript Conn Stmt Res (Option (List (Option Bytes))) :=
  .call (.fetchRow res) .ret

def freeResult (res : Res) : LoginScript Conn Stmt Res Unit :=
  .call (.freeResult res) .ret

def stmtClose (stmt : Stmt) : LoginScript Conn Stmt Res Unit :=
  .call (.stmtClose stmt) .ret

end LoginScript

namespace HttpResponse

open LoginScript

def loginQuery : Bytes := lit "SELECT * FROM user WHERE username = ?"

/-- `row && row[1] && password != row[1]`, negated. -/
def rowMatches (password : Bytes) : Option (List (Option Bytes)) → Bool
  | none => true
  | some row =>
      match row[1]? with
      | some (some stored) => password = cStr stored
      | _ => true

/-- `_Login`. -/
def loginScript (request : HttpRequest) :
    LoginScript Conn Stmt Res (HttpRequest × Bool) := do
  let (id, mysql) ← getConn
  match mysql with
  | none => return (request, false)
  | some mysql =>
    let (request, username) := request.selectForm (lit "username")
    let (request, password) := request.selectForm (lit "pwd")
    match ← stmtInit mysql with
    | none =>
      let _ ← releaseConn id mysql
      return (request, false)
    | some stmt =>
      if (← stmtPrepare stmt loginQuery) ≠ 0 then
        stmtClose stmt
        let _ ← releaseConn id mysql
        return (request, false)
      if (← stmtBindParam stmt username) ≠ 0 then
        stmtClose stmt
        let _ ← releaseConn id mysql
        return (request, false)
      if (← stmtExecute stmt) ≠ 0 then
        stmtClose stmt
        let _ ← releaseConn id mysql
        return (request, false)
      match ← stmtResultMetadata stmt with
      | none =>
        stmtClose stmt
        let _ ← releaseConn id mysql
        return (request, false)
      | some res =>
        if (← stmtStoreResult stmt) ≠ 0 then
          freeResult res
          stmtClose stmt
          let _ ← releaseConn id mysql
          return (request, false)
        let result ←
          if (← stmtNumRows stmt) = 0 then pure false
          else rowMatches password <$> fetchRow res
        freeResult res
        stmtClose stmt
        let _ ← releaseConn id mysql
        return (request, result)

end HttpResponse

/-! ## The answers of one world -/

namespace LoginOutcome

/-- Zero on success. -/
def status (ok : Bool) : Int := if ok then 0 else 1

/-- `db` as the answers of the calls, with `conn`, `stmt` and `res` for
whatever is had. -/
def answer (db : LoginOutcome) (conn : Conn) (stmt : Stmt) (res : Res) :
    (op : LoginCall Conn Stmt Res) → op.Ans
  | .getConn => ((0 : Int), if db.conn then some conn else none)
  | .releaseConn _ _ => (-1 : Int)
  | .stmtInit _ => if db.stmtInit then some stmt else none
  | .stmtPrepare _ _ => status db.stmtPrepare
  | .stmtBindParam _ _ => status db.stmtBindParam
  | .stmtExecute _ => status db.stmtExecute
  | .stmtResultMetadata _ => if db.resultMetadata then some res else none
  | .stmtStoreResult _ => status db.storeResult
  | .stmtNumRows _ => db.numRows
  | .fetchRow _ => db.fetchRow
  | .freeResult _ | .stmtClose _ => ()

end LoginOutcome

end TinyWebServer
