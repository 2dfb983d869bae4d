import TinyWebServer.Model.Basic

/-!
# The constants of `httpdata`, and the world a request is answered in

Everything a request reads that is not the request: the file tree, the clock,
and the answers of the MySQL client library. A path is looked up as the kernel
sees it, that is up to its first NUL byte.
-/

namespace TinyWebServer

open Lib

/-- `HTTP_CODE`. -/
inductive HttpCode where
  | noRequest
  | badRequest
  | noResource
  | forbiddenRequest
  | fileRequest
  | internalError
  | closedConnection
  deriving DecidableEq, Repr

def tasks : List Bytes := [lit "/login"]

def crlf : Bytes := lit "\r\n"

def srcDir : Bytes := lit "../wwwroot"

def homePage : Bytes := lit "index.html"

def statusDescriptions : HttpCode → Bytes
  | .noRequest => lit "400 Bad Request"
  | .badRequest => lit "400 Bad Request"
  | .noResource => lit "404 Not Found"
  | .forbiddenRequest => lit "403 Forbidden"
  | .fileRequest => lit "200 OK"
  | .internalError => lit "500 Internal Server Error"
  | .closedConnection => lit "200 OK"

def getStatusDescription (code : HttpCode) : Bytes := statusDescriptions code

/-! ## The file tree -/

inductive FileKind where
  -- A regular file, its bytes, and whether the server may open it.
  | regular (content : Bytes) (readable : Bool)
  | directory
  | other
  deriving DecidableEq, Repr

/-- What a path leads to: the kind of file and the three execute bits of its
mode. -/
structure Inode where
  kind : FileKind
  xusr : Bool
  xgrp : Bool
  xoth : Bool
  deriving DecidableEq, Repr

/-- Why `stat` answered `-1`: there is no such file, or its status cannot be
had (no permission, a name too long). -/
inductive StatError where
  | notFound
  | failed
  deriving DecidableEq, Repr

abbrev FileSystem := Bytes → Except StatError Inode

/-- The C string a byte string starts with. -/
def cStr (s : Bytes) : Bytes := s.takeWhile (· ≠ 0)

/-- `stat(path.c_str(), &fileStat)`. -/
def FileSystem.stat (fs : FileSystem) (path : Bytes) :
    Except StatError Inode := fs (cStr path)

/-! ## The MySQL client library and the rest of the world -/

/-- What the calls of one `_Login` answered, in the order they are made. -/
structure LoginOutcome where
  conn : Bool -- `GetConn` handed out a connection
  stmtInit : Bool
  stmtPrepare : Bool
  stmtBindParam : Bool
  stmtExecute : Bool
  resultMetadata : Bool
  storeResult : Bool
  numRows : Nat
  -- `mysql_fetch_row`: no row, or the columns, each possibly `NULL`
  fetchRow : Option (List (Option Bytes))
  deriving DecidableEq, Repr

/-- The order an `unordered_map` is iterated in is the implementation's
business, but it is some order of the entries. -/
structure IterationOrder where
  order : List (Bytes × Bytes) → List (Bytes × Bytes)
  perm : ∀ entries, (order entries).Perm entries

/-- What one `Process` finds outside the connector; `clock` is what
`std::put_time` makes of the current time. -/
structure World where
  fs : FileSystem
  clock : Bytes
  db : LoginOutcome
  iter : IterationOrder

end TinyWebServer
