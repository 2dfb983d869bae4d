import TinyWebServer.Model.Buffer
import TinyWebServer.Model.HttpData

/-!
# `HttpRequest`

The request parser. `Read_Buff` is a loop over a state switch: it cuts the
readable bytes at the next CRLF (or takes all of them, in the body), moves the
read cursor, and hands the line to the reader of the part it is in. Each round
of that loop is `readBuffRound` here, and `readBuff` runs the rounds and then
`_Handle_Path`, which a bad request line skips.

`std::regex` matches the two line patterns in one way only, since the captures
of both are cut by bytes they exclude; `matchRequestLine` and
`matchHeaderLine` cut there.
-/

namespace TinyWebServer

open Lib

/-- `HTTP_PART`. -/
inductive HttpPart where
  | requestLine
  | headers
  | body
  | finished
  deriving DecidableEq, Repr

structure HttpRequest where
  status : HttpPart
  code : HttpCode
  method : Bytes
  path : Bytes
  version : Bytes
  body : Bytes
  headers : Dict Bytes Bytes
  form : Dict Bytes Bytes
  fileSuffix : Bytes
  cgi : Bool
  tasks : Bool

namespace HttpRequest

/-- A constructed request: the strings and maps are empty, the enumerations
and flags hold whatever was there. -/
def construct (status : HttpPart) (code : HttpCode) (cgi tasks : Bool) :
    HttpRequest :=
  { status, code, cgi, tasks, method := [], path := [], version := []
    body := [], headers := Dict.empty, form := Dict.empty, fileSuffix := [] }

def init (r : HttpRequest) : HttpRequest :=
  { r with
    status := .requestLine, tasks := false, cgi := false
    code := .fileRequest }

/-- `Select_Form`: `operator[]` stores an empty value under a key that is not
there. -/
def selectForm (r : HttpRequest) (key : Bytes) : HttpRequest × Bytes :=
  match r.form key with
  | some v => (r, v)
  | none => ({ r with form := r.form.insert key [] }, [])

/-! ## The two line patterns -/

/-- The space that separates the request line. -/
def sp : UInt8 := 32

def colon : UInt8 := 58

/-- `^([^ ]*) ([^ ]*) HTTP/([^ ]*)$` -/
def matchRequestLine (line : Bytes) : Option (Bytes × Bytes × Bytes) :=
  match line.dropWhile (· ≠ sp) with
  | [] => none
  | _ :: rest =>
      match rest.dropWhile (· ≠ sp) with
      | [] => none
      | _ :: proto =>
          if (lit "HTTP/").isPrefixOf proto ∧ sp ∉ proto then
            some (line.takeWhile (· ≠ sp), rest.takeWhile (· ≠ sp),
              proto.drop 5)
          else
            none

/-- `^([^:]*): ?(.*)$`, where `.` is any byte but the two line
terminators. -/
def matchHeaderLine (line : Bytes) : Option (Bytes × Bytes) :=
  match line.dropWhile (· ≠ colon) with
  | [] => none
  | _ :: rest =>
      let value := if rest.head? = some sp then rest.drop 1 else rest
      if 13 ∉ value ∧ 10 ∉ value then
        some (line.takeWhile (· ≠ colon), value)
      else
        none

/-! ## The form decoder -/

/-- A byte as the signed `char` the source computes with. -/
def toChar (b : UInt8) : Int := Int.bmod b.toNat 256

/-- An `int` stored into a `char`. -/
def ofInt (x : Int) : UInt8 := UInt8.ofNat (x % 256).toNat

def converHex (b : UInt8) : Int :=
  let ch := toChar b
  if 65 ≤ ch ∧ ch ≤ 70 then ch - 65 + 10
  else if 97 ≤ ch ∧ ch ≤ 102 then ch - 97 + 10
  else ch

/-- The locals of `_Handle_Form` and the two members it works on. -/
structure FormState where
  body : Bytes
  key : Bytes
  i : Nat
  j : Nat
  form : Dict Bytes Bytes

/-- `_body.substr(j, i - j)` -/
def FormState.substr (st : FormState) : Bytes :=
  (st.body.drop st.j).take (st.i - st.j)

/-- One round of the loop of `_Handle_Form`, `n` being the body's size
narrowed to `int`. An escape looks at and overwrites the two bytes behind it,
wherever the body ends. -/
def formRound (n : Int) (st : FormState) :
    Except Fault (FormState ⊕ FormState) :=
  if ¬ (st.i : Int) < n then
    .ok (.inr st)
  else
    match st.body[st.i]? with
    | none => .error .outOfBounds
    | some ch =>
        if ch = 61 then -- '='
          .ok (.inl { st with
            key := st.substr, j := st.i + 1, i := st.i + 1 })
        else if ch = 43 then -- '+'
          .ok (.inl { st with body := st.body.set st.i 32, i := st.i + 1 })
        else if ch = 37 then -- '%'
          match st.body[st.i + 1]?, st.body[st.i + 2]? with
          | some c₁, some c₂ =>
              let num := converHex c₁ * 16 + converHex c₂
              let body := st.body.set (st.i + 2) (ofInt (num.tmod 10 + 48))
              let body := body.set (st.i + 1) (ofInt (num.tdiv 10 + 48))
              .ok (.inl { st with body, i := st.i + 3 })
          | _, _ => .error .outOfBounds
        else if ch = 38 then -- '&'
          .ok (.inl { st with
            j := st.i + 1, i := st.i + 1
            form := st.form.insert st.key st.substr })
        else
          .ok (.inl { st with i := st.i + 1 })

/-- The pair left over behind the last `&`: it is stored only under a key the
form does not have yet. -/
def formTail (st : FormState) : Dict Bytes Bytes :=
  if st.form st.key = none ∧ st.j < st.i then
    st.form.insert st.key st.substr
  else
    st.form

def handleForm (r : HttpRequest) : Except Fault HttpRequest :=
  if r.body = [] then
    pure r
  else do
    let n := toInt r.body.length
    let st ← loop (formRound n) .diverged (n.toNat + 1)
      { body := r.body, key := [], i := 0, j := 0, form := r.form }
    check (st.j ≤ st.i) .handleForm
    pure { r with body := st.body, form := formTail st }

def formType : Bytes := lit "application/x-www-form-urlencoded"

def handlePostBody (r : HttpRequest) : Except Fault HttpRequest :=
  if r.method = lit "POST" ∧
      r.headers (lit "Content-Type") = some formType then
    r.handleForm
  else
    pure r

/-! ## The line readers -/

def readRequestLine (r : HttpRequest) (line : Bytes) :
    Except Fault (Bool × HttpRequest) := do
  check (r.status = .requestLine) .readRequestLine
  match matchRequestLine line with
  | some (method, path, version) =>
      pure (true, { r with method, path, version, status := .headers })
  | none => pure (false, r)

/-- `_Read_Header_Line`: a line that is not a header line ends the header
section, whatever it is. -/
def readHeaderLine (r : HttpRequest) (line : Bytes) :
    Except Fault (Bool × HttpRequest) := do
  check (r.status = .headers) .readHeaderLine
  match matchHeaderLine line with
  | some (name, value) =>
      pure (true, { r with headers := r.headers.insert name value })
  | none => pure (true, { r with status := .body })

def readBodyLine (r : HttpRequest) (line : Bytes) :
    Except Fault HttpRequest := do
  let r ← handlePostBody { r with body := line }
  pure { r with status := .finished }

/-! ## The path -/

/-- `_path.rfind('.')`, as the text behind the last dot. -/
def suffixOf (path : Bytes) : Option Bytes :=
  if 46 ∈ path then some (path.reverse.takeWhile (· ≠ 46)).reverse else none

def slash : UInt8 := 47

def handlePath (fs : FileSystem) (r : HttpRequest) : HttpRequest :=
  let r := if r.code = .badRequest then
    { r with path := srcDir ++ lit "400.html" } else r
  if r.path ∈ TinyWebServer.tasks then
    { r with tasks := true, code := .fileRequest }
  else
    let r := { r with path := srcDir ++ r.path }
    if r.path.getLast? = some slash then
      { r with path := r.path ++ homePage }
    else
      let r := { r with
        fileSuffix := (suffixOf r.path).getD (lit "html") }
      match fs.stat r.path with
      | .error _ =>
          { r with path := srcDir ++ lit "/404.html", code := .noResource }
      | .ok fileStat =>
          let r :=
            if fileStat.kind = .directory then
              { r with path := r.path ++ lit "/" ++ homePage }
            else if fileStat.xusr ∨ fileStat.xgrp ∨ fileStat.xoth then
              { r with cgi := true }
            else r
          { r with code := .fileRequest }

/-! ## `Read_Buff` -/

/-- The first half of a round: cut a line off the readable bytes, up to the
next CRLF or, in the body, to the end. With no CRLF the search answers the
end, and the cursor is asked to move two bytes past it. -/
def nextLine (part : HttpPart) (b : Buffer) : Except Fault (Bytes × Buffer) :=
  if part ≠ .body then do
    let first ← b.beginReadPtr
    let last ← b.beginWritePtr
    let line := b.slice first (first + search crlf (b.slice first last))
    let b ← b.updateReadp (line.length + 2)
    pure (line, b)
  else do
    let first ← b.beginReadPtr
    let last ← b.beginWritePtr
    pure (b.slice first last, b.releaseAllBuff)

/-- The second half of a round: hand the line to the reader of the part the
request is in. It goes round again, or leaves with `false` on the early
`return`. -/
def readLine (r : HttpRequest) (line : Bytes) (b : Buffer) :
    Except Fault ((HttpRequest × Buffer) ⊕ (Bool × HttpRequest × Buffer)) :=
  match r.status with
  | .requestLine => do
      let (ok, r) ← r.readRequestLine line
      if ok then pure (.inl (r, b))
      else pure (.inr (false, { r with code := .badRequest }, b))
  | .headers => do
      let (ok, r) ← r.readHeaderLine line
      if ok then
        if b.readableSize ≤ 2 then do
          let b ← b.updateReadp 2
          pure (.inl ({ r with status := .finished }, b))
        else pure (.inl (r, b))
      else pure (.inr (false, { r with code := .badRequest }, b))
  | .body => do
      let r ← r.readBodyLine line
      pure (.inl (r, b))
  | .finished => pure (.inl (r, b))

/-- One round of the loop. It leaves with `true` when the loop condition
fails, so that `_Handle_Path` runs. -/
def readBuffRound (st : HttpRequest × Buffer) :
    Except Fault ((HttpRequest × Buffer) ⊕ (Bool × HttpRequest × Buffer)) :=
  if 0 < st.2.readableSize ∧ st.1.status ≠ .finished then do
    let (line, b) ← nextLine st.1.status st.2
    st.1.readLine line b
  else
    .ok (.inr (true, st.1, st.2))

/-- `Read_Buff` up to `_Handle_Path`: the request as it was parsed, its path
still being the target. -/
def parseBuff (r : HttpRequest) (b : Buffer) :
    Except Fault (Bool × HttpRequest × Buffer) := do
  check (0 < b.readableSize) .readBuff
  let r := { r with status := .requestLine, code := .fileRequest }
  loop readBuffRound .diverged (b.readableSize + 1) (r, b)

def readBuff (fs : FileSystem) (r : HttpRequest) (b : Buffer) :
    Except Fault (HttpRequest × Buffer) := do
  let (fell, r, b) ← r.parseBuff b
  if fell then pure (r.handlePath fs, b) else pure (r, b)

end HttpRequest

end TinyWebServer
