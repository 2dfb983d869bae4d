import TinyWebServer.Model.LoginScript

/-!
# `HttpResponse`

The head of a response is assembled in two places: `Init` chooses the file,
fills the header map and writes it out as `_headers`, blank line included, and
`Head_Write_Buff` puts the status line before it and one more CRLF behind it.
-/

namespace TinyWebServer

open Lib

structure HttpResponse where
  fileStatus : Bool
  statueLine : Bytes
  path : Bytes
  headers : Bytes
  code : HttpCode
  headersMap : List (Bytes × Bytes)
  deriving DecidableEq, Repr

namespace HttpResponse

/-- A constructed response; the flag and the code hold whatever was there. -/
def construct (fileStatus : Bool) (code : HttpCode) : HttpResponse :=
  { fileStatus, code, statueLine := [], path := [], headers := []
    headersMap := [] }

/-- `_headers_map[key] = value` -/
def setHeader (entries : List (Bytes × Bytes)) (key value : Bytes) :
    List (Bytes × Bytes) :=
  entries.filter (fun e => e.1 ≠ key) ++ [(key, value)]

/-- `_Login`, on the answers `db` of the pool and of the MySQL calls; the
handles themselves do not matter here. -/
def login (db : LoginOutcome) (request : HttpRequest) :
    HttpRequest × Bool :=
  (loginScript request).run (db.answer () () ())

/-- `_Handle_Path`: a task answers with one of two pages, anything else with
the path the request settled on. -/
def handlePath (resp : HttpResponse) (db : LoginOutcome)
    (request : HttpRequest) : HttpResponse × HttpRequest :=
  if request.tasks then
    if lit "/login" ∈ tasks then
      let (request, ok) := login db request
      ({ resp with
          path := resp.path ++
            lit (if ok then "/penetration.html" else "/mysqlerror.html") },
        request)
    else (resp, request)
  else ({ resp with path := request.path }, request)

/-- `std::to_string` of a size. -/
def toString (n : Nat) : Bytes := lit (ToString.toString n)

/-- `Set_ContentLength_From_File`. -/
def setContentLengthFromFile (fs : FileSystem) (resp : HttpResponse)
    (filePath : Bytes) : Except Fault HttpResponse :=
  let absent : Fault := .runtimeError
    (lit "File does not exist or is not a regular file")
  match fs.stat filePath with
  | .error .notFound => .error absent
  | .error .failed => .error .filesystemError
  | .ok inode =>
      match inode.kind with
      | .regular content _ =>
          .ok { resp with
            headersMap := setHeader resp.headersMap (lit "Content-Length")
              (toString content.length) }
      | .directory | .other => .error absent

/-- `_Generate_HttpDate`, which writes the header's name into its value. -/
def generateHttpDate (clock : Bytes) : Bytes := lit "Date: " ++ clock

def initHeadersMap (fs : FileSystem) (clock : Bytes) (resp : HttpResponse) :
    Except Fault HttpResponse := do
  let resp :=
    match resp.code with
    | .fileRequest | .badRequest | .noResource =>
        { resp with
          headersMap := setHeader resp.headersMap (lit "Content-Type")
            (lit "text/html") }
    | _ => resp
  let resp ← setContentLengthFromFile fs resp resp.path
  pure { resp with
    headersMap := setHeader resp.headersMap (lit "Date")
      (generateHttpDate clock) }

/-- `it.first + ": " + it.second + "\r\n"` -/
def headerLine (entry : Bytes × Bytes) : Bytes :=
  entry.1 ++ lit ": " ++ entry.2 ++ crlf

/-- `Init` up to the header map: the status line and the choice of file. -/
def choose (w : World) (resp : HttpResponse) (request : HttpRequest) :
    HttpResponse × HttpRequest :=
  handlePath
    { resp with
      fileStatus := false, headers := [], path := srcDir, headersMap := []
      code := request.code
      statueLine := lit "HTTP/" ++ request.version ++ lit " " ++
        getStatusDescription request.code }
    w.db request

def init (w : World) (resp : HttpResponse) (request : HttpRequest) :
    Except Fault (HttpResponse × HttpRequest) := do
  let (resp, request) := resp.choose w request
  let resp ← initHeadersMap w.fs w.clock resp
  pure ({ resp with
    headers := resp.headers ++
      ((w.iter.order resp.headersMap).map headerLine).flatten ++ crlf },
    request)

def headWriteBuff (resp : HttpResponse) (buffer : Buffer) :
    Except Fault Buffer :=
  buffer.releaseAllBuff.addString
    (resp.statueLine ++ crlf ++ resp.headers ++ crlf)

end HttpResponse

end TinyWebServer
