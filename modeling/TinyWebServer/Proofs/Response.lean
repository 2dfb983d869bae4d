import TinyWebServer.Proofs.Connector

/-!
# What a response is made of

`HttpResponse::Init` writes every field of the response object, so nothing of
an earlier response is in the next one. `served` is the answer to a request as
a function of the world, the request and the bytes of the file that is opened,
and `answer_ok_iff` says that an answer is this one, and comes about exactly
when the file that is opened is regular and readable.
-/

namespace TinyWebServer

open Lib

namespace HttpResponse

/-- The file a request is answered with. -/
def opened (db : LoginOutcome) (request : HttpRequest) : Bytes :=
  if request.tasks then
    srcDir ++ lit
      (if (login db request).2 then "/penetration.html"
        else "/mysqlerror.html")
  else request.path

/-- The request after `_Handle_Path` of the response: a login may have stored
empty values in its form. -/
def consulted (db : LoginOutcome) (request : HttpRequest) : HttpRequest :=
  if request.tasks then (login db request).1 else request

theorem selectForm_eq (request : HttpRequest) (key : Bytes) :
    (request.selectForm key).1
      = { request with form := (request.selectForm key).1.form } := by
  rw [HttpRequest.selectForm]
  cases request.form key with
  | none => rfl
  | some value => rfl

/-- `_Login` by its returns. The form is read only once a connection was
had. -/
theorem login_eq (db : LoginOutcome) (request : HttpRequest) :
    login db request =
      if !db.conn then (request, false)
      else
        let (request, _username) := request.selectForm (lit "username")
        let (request, password) := request.selectForm (lit "pwd")
        if !db.stmtInit then (request, false)
        else if !db.stmtPrepare then (request, false)
        else if !db.stmtBindParam then (request, false)
        else if !db.stmtExecute then (request, false)
        else if !db.resultMetadata then (request, false)
        else if !db.storeResult then (request, false)
        else if db.numRows = 0 then (request, false)
        else (request, rowMatches password db.fetchRow) := by
  obtain ⟨hadConn, stmtInit, stmtPrepare, stmtBindParam, stmtExecute,
    resultMetadata, storeResult, numRows, fetchRow⟩ := db
  rw [login, loginScript]
  -- the early returns, in the order of the text
  rcases hadConn with _ | _
  · rfl
  rcases hu : request.selectForm (lit "username") with ⟨request₁, username⟩
  rcases hp : request₁.selectForm (lit "pwd") with ⟨request₂, password⟩
  dsimp only [LoginScript.getConn, bind, Script.bind, Script.run,
    LoginOutcome.answer, if_true, hu]
  simp only [hp, Bool.not_true, if_true]
  rcases stmtInit with _ | _
  · rfl
  rcases stmtPrepare with _ | _
  · rfl
  rcases stmtBindParam with _ | _
  · rfl
  rcases stmtExecute with _ | _
  · rfl
  rcases resultMetadata with _ | _
  · rfl
  rcases storeResult with _ | _
  · rfl
  rcases numRows with _ | n
  · rfl
  · rfl

/-- What a login leaves of the request does not depend on how it ends, only on
whether it got a connection. -/
theorem login_request (db : LoginOutcome) (request : HttpRequest) :
    (login db request).1 =
      if !db.conn then request
      else ((request.selectForm (lit "username")).1.selectForm
        (lit "pwd")).1 := by
  rw [login_eq]
  split
  · rfl
  · simp only []
    split_ifs
    all_goals rfl

/-- A login reads and may extend the form, and nothing else. -/
theorem consulted_eq (db : LoginOutcome) (request : HttpRequest) :
    consulted db request
      = { request with form := (consulted db request).form } := by
  rw [consulted]
  split
  · rw [login_request]
    split
    · rfl
    · rw [selectForm_eq (request.selectForm (lit "username")).1,
        selectForm_eq request]
  · rfl

/-- Without a connection it does not even read it. -/
theorem consulted_unconnected {db : LoginOutcome} (h : db.conn = false)
    (request : HttpRequest) : consulted db request = request := by
  rw [consulted, login_request, h]
  exact ite_self _

def statusLine (request : HttpRequest) : Bytes :=
  lit "HTTP/" ++ request.version ++ lit " " ++
    getStatusDescription request.code

def typeEntry : HttpCode → List (Bytes × Bytes)
  | .fileRequest | .badRequest | .noResource =>
      [(lit "Content-Type", lit "text/html")]
  | _ => []

/-- The header map of a response with a body of `n` bytes. -/
def entries (code : HttpCode) (clock : Bytes) (n : Nat) :
    List (Bytes × Bytes) :=
  typeEntry code ++ [(lit "Content-Length", toString n)] ++
    [(lit "Date", generateHttpDate clock)]

/-- The header lines of a response, in the order the map is iterated in. -/
def headerLines (w : World) (code : HttpCode) (n : Nat) : List Bytes :=
  (w.iter.order (entries code w.clock n)).map headerLine

/-- The response object for a file of `n` bytes. -/
def written (w : World) (request : HttpRequest) (n : Nat) : HttpResponse where
  fileStatus := false
  statueLine := statusLine request
  path := opened w.db request
  headers := (headerLines w request.code n).flatten ++ crlf
  code := request.code
  headersMap := entries request.code w.clock n

theorem choose_eq (w : World) (resp : HttpResponse) (request : HttpRequest) :
    resp.choose w request =
      ({ fileStatus := false, statueLine := statusLine request
         path := opened w.db request, headers := [], code := request.code
         headersMap := [] }, consulted w.db request) := by
  rw [choose, handlePath, opened, consulted]
  cases request.tasks with
  | false => rfl
  | true =>
      rw [if_pos rfl, if_pos (by decide)]
      rfl

/-- Storing under a new key appends. -/
theorem setHeader_of_not_mem {map : List (Bytes × Bytes)} {key : Bytes}
    (value : Bytes) (h : key ∉ map.map Prod.fst) :
    setHeader map key value = map ++ [(key, value)] := by
  have hall : ∀ e ∈ map, decide (e.1 ≠ key) = true := by
    intro e he
    refine decide_eq_true fun heq => h ?_
    exact heq ▸ List.mem_map_of_mem he
  rw [setHeader, List.filter_eq_self.mpr hall]

theorem typeEntry_keys {code : HttpCode} {key : Bytes}
    (h : key ∈ (typeEntry code).map Prod.fst) : key = lit "Content-Type" := by
  cases code <;> simp_all [typeEntry]

/-- The first thing a response's map gets is the content type. -/
theorem initHeadersMap_typed {resp : HttpResponse} (fs : FileSystem)
    (clock : Bytes) (hmap : resp.headersMap = []) :
    initHeadersMap fs clock resp = (do
      let resp ← setContentLengthFromFile fs
        { resp with headersMap := typeEntry resp.code } resp.path
      pure { resp with
        headersMap := setHeader resp.headersMap (lit "Date")
          (generateHttpDate clock) }) := by
  obtain ⟨fileStatus, statueLine, path, headers, code, map⟩ := resp
  cases hmap
  cases code <;> rfl

theorem entries_eq (code : HttpCode) (clock : Bytes) (n : Nat) :
    setHeader (setHeader (typeEntry code) (lit "Content-Length") (toString n))
      (lit "Date") (generateHttpDate clock) = entries code clock n := by
  have hlen : lit "Content-Length" ∉ (typeEntry code).map Prod.fst :=
    fun h => absurd (typeEntry_keys h) (by decide +kernel)
  rw [setHeader_of_not_mem _ hlen, setHeader_of_not_mem, entries]
  intro h
  rw [List.map_append, List.mem_append, List.map_singleton,
    List.mem_singleton] at h
  have hdate : lit "Date" ≠ lit "Content-Length" := by decide +kernel
  rcases h with h | h
  · exact absurd (typeEntry_keys h) (by decide +kernel)
  · exact hdate h

/-- The size `Set_ContentLength_From_File` finds, apart from storing it. -/
def fileSize (fs : FileSystem) (path : Bytes) : Except Fault Nat :=
  match fs.stat path with
  | .error .notFound => .error (.runtimeError
      (lit "File does not exist or is not a regular file"))
  | .error .failed => .error .filesystemError
  | .ok inode =>
      match inode.kind with
      | .regular content _ => .ok content.length
      | .directory | .other => .error (.runtimeError
          (lit "File does not exist or is not a regular file"))

theorem setContentLengthFromFile_eq (fs : FileSystem) (resp : HttpResponse)
    (path : Bytes) :
    setContentLengthFromFile fs resp path = (do
      let n ← fileSize fs path
      pure { resp with
        headersMap := setHeader resp.headersMap (lit "Content-Length")
          (toString n) }) := by
  rw [setContentLengthFromFile, fileSize]
  cases fs.stat path with
  | error e => cases e <;> rfl
  | ok inode =>
      simp only []
      cases inode.kind <;> rfl

/-- `Init` asks for the size of the file; all the rest is decided. -/
theorem init_eq (w : World) (resp : HttpResponse) (request : HttpRequest) :
    resp.init w request = (do
      let n ← fileSize w.fs (opened w.db request)
      pure (written w request n, consulted w.db request)) := by
  rw [init, choose_eq]
  simp only []
  rw [initHeadersMap_typed _ _ rfl, setContentLengthFromFile_eq]
  simp only [bind_assoc]
  cases fileSize w.fs (opened w.db request) with
  | error e => rfl
  | ok n =>
      simp only [ok_bind, pure_bind, entries_eq]
      rfl

end HttpResponse

namespace HttpConnector

open HttpResponse in
/-- The answer that carries `content`. -/
def served (w : World) (request : HttpRequest) (content : Bytes) : Answer where
  request := consulted w.db request
  reponse := written w request content.length
  head := statusLine request ++ crlf ++
    ((headerLines w request.code content.length).flatten ++ crlf) ++ crlf
  content := content

/-- The file at `path`, first asked for its size and then read. -/
def fetch (fs : FileSystem) (path : Bytes) : Except Fault Bytes := do
  let _ ← HttpResponse.fileSize fs path
  readFileToSharedCharArray fs path

theorem fetch_ok_iff {fs : FileSystem} {path content : Bytes} :
    fetch fs path = .ok content ↔
      ∃ inode, fs.stat path = .ok inode ∧
        inode.kind = .regular content true := by
  rw [fetch, readFileToSharedCharArray, HttpResponse.fileSize]
  constructor
  · intro h
    obtain ⟨n, -, h⟩ := bind_ok_iff.mp h
    split at h
    · next content' xusr xgrp xoth hstat =>
        cases h
        exact ⟨_, hstat, rfl⟩
    · cases h
  · rintro ⟨⟨kind, xusr, xgrp, xoth⟩, hstat, hkind⟩
    cases hkind
    rw [hstat]
    rfl

/-- The size that was asked for is the size of what is read. -/
theorem fileSize_of_fetch {fs : FileSystem} {path content : Bytes} {n : Nat}
    (hn : HttpResponse.fileSize fs path = .ok n)
    (hread : readFileToSharedCharArray fs path = .ok content) :
    content.length = n := by
  have hfetch : fetch fs path = .ok content := by rw [fetch, hn]; exact hread
  obtain ⟨inode, hstat, hkind⟩ := fetch_ok_iff.mp hfetch
  rw [HttpResponse.fileSize, hstat] at hn
  simp only [hkind] at hn
  cases hn
  rfl

/-- An answer is the file fetched and served; the response object of the last
request is not looked at. -/
theorem answer_eq (w : World) (reponse : HttpResponse)
    (request : HttpRequest) :
    answer w reponse request = (do
      let content ← fetch w.fs (HttpResponse.opened w.db request)
      pure (served w request content)) := by
  rw [answer, fetch, HttpResponse.init_eq]
  simp only [bind_assoc]
  cases hn : HttpResponse.fileSize w.fs (HttpResponse.opened w.db request) with
  | error e => rfl
  | ok n =>
      simp only [ok_bind, pure_bind]
      show (do
        let content ← readFileToSharedCharArray w.fs
          (HttpResponse.opened w.db request)
        pure _) = _
      cases hread : readFileToSharedCharArray w.fs
          (HttpResponse.opened w.db request) with
      | error e => rfl
      | ok content =>
          cases fileSize_of_fetch hn hread
          rfl

/-- There is an answer exactly when the file that is opened is regular and
readable. -/
theorem answer_ok_iff {w : World} {reponse : HttpResponse}
    {request : HttpRequest} {a : Answer} :
    answer w reponse request = .ok a ↔
      ∃ inode content, w.fs.stat (HttpResponse.opened w.db request)
          = .ok inode ∧
        inode.kind = .regular content true ∧
        a = served w request content := by
  rw [answer_eq]
  constructor
  · intro h
    obtain ⟨content, hfetch, h⟩ := bind_ok_iff.mp h
    obtain ⟨inode, hstat, hkind⟩ := fetch_ok_iff.mp hfetch
    cases h
    exact ⟨inode, content, hstat, hkind, rfl⟩
  · rintro ⟨inode, content, hstat, hkind, rfl⟩
    rw [fetch_ok_iff.mpr ⟨inode, hstat, hkind⟩]
    rfl

end HttpConnector

end TinyWebServer
