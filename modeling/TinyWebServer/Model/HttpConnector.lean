import TinyWebServer.Model.HttpResponse

/-!
# `HttpConnector`

One client connection: its two buffers, the request and response objects it
keeps across requests and across clients, and the two `iovec`s a response is
sent from. `_iov[0]` points into the write buffer's vector and `_iov[1]` into
the block the file was read into, so each is an offset and a length here. The
source's `shared_ptr` frees the block when `Process` returns, and `_iov[1]` is
left dangling; `fileBlock` is what was in the block then. The cursors still
depend on how long it was, but what a later `writev` finds there nobody knows.

`Read` and `Write` are loops around a system call. They are given what the
calls answered: `Read` the results up to the first that is not positive, which
ends it, `Write` a list of results, and it answers `none` if the list ends
before the loop does.
-/

namespace TinyWebServer

open Lib

structure Iovec where
  base : Int
  len : Nat
  deriving DecidableEq, Repr

structure HttpConnector where
  fd : Int
  status : Bool
  readBuffer : Buffer
  writeBuffer : Buffer
  iov₀ : Iovec
  iov₁ : Iovec
  iovSize : Nat
  fileBlock : Bytes
  request : HttpRequest
  reponse : HttpResponse

/-- A `readv` result: the bytes it delivered, none for a negative one, and
what stood on the stack at the time. -/
structure Recv where
  spill : Buffer.Spill
  got : Option Bytes

namespace HttpConnector

def construct (request : HttpRequest) (reponse : HttpResponse) :
    HttpConnector :=
  { fd := -1, status := false
    readBuffer := .construct Buffer.defaultSize
    writeBuffer := .construct Buffer.defaultSize
    iov₀ := ⟨0, 0⟩, iov₁ := ⟨0, 0⟩, iovSize := 0, fileBlock := []
    request, reponse }

/-- A connector as `_clients[fd]` makes it when there is none, with whatever
the members hold that no constructor sets. -/
def Fresh (c : HttpConnector) : Prop :=
  ∃ status code cgi tasks fileStatus code', c = construct
    (.construct status code cgi tasks) (.construct fileStatus code')

/-- `Init`, apart from the user count, which is the server's. -/
def init (c : HttpConnector) (sockFd : Int) : HttpConnector :=
  { c with fd := sockFd, status := true }

/-- `Close`, apart from the user count and the descriptor itself. -/
def close (c : HttpConnector) : HttpConnector :=
  if c.status then
    { c with status := false, iovSize := 0, iov₀ := ⟨0, 0⟩, iov₁ := ⟨0, 0⟩ }
  else c

/-- The loop of `Read`: `arrived` are the results before the last one, and the
loop ends early if one of them is not positive. -/
def readLoop (b : Buffer) : List Recv → Recv →
    Except Fault (Buffer × Int × Bool)
  | [], last => b.readFD last.spill last.got
  | recv :: rest, last => do
      let (b, len, status) ← b.readFD recv.spill recv.got
      if len ≤ 0 then pure (b, len, status) else readLoop b rest last

def read (c : HttpConnector) (arrived : List Recv) (last : Recv) :
    Except Fault (HttpConnector × Int × Bool) := do
  let (b, len, status) ← readLoop c.readBuffer arrived last
  pure ({ c with readBuffer := b }, len, status)

/-- `Writeable_Size`: the sum of the lengths, narrowed to `int`. -/
def writeableSize (c : HttpConnector) : Int :=
  toInt ((c.iov₀.len + c.iov₁.len) % 2 ^ 64)

/-- What `Write` does with a result that is not zero while bytes remain. A
length converted to `size_t` moves the cursors; `-1` becomes `2 ^ 64 - 1`. -/
def consume (c : HttpConnector) (len : Int) : Except Fault HttpConnector :=
  if len > toSsizeT c.iov₀.len then
    let past := len - c.iov₀.len
    let c := { c with
      iov₁ := ⟨c.iov₁.base + past, toSizeT (c.iov₁.len - past)⟩ }
    if c.iov₀.len ≠ 0 then
      .ok { c with
        writeBuffer := c.writeBuffer.releaseAllBuff
        iov₀ := ⟨c.iov₀.base, 0⟩ }
    else .ok c
  else do
    let c := { c with
      iov₀ := ⟨c.iov₀.base + len, toSizeT (c.iov₀.len - len)⟩ }
    let b ← c.writeBuffer.releaseBuff (toSizeT len)
    pure { c with writeBuffer := b }

/-- `Write` on a list of `writev` results, with the status it was called
with. -/
def write (c : HttpConnector) (status : Bool) : List Int →
    Except Fault (Option (HttpConnector × Int × Bool))
  | [] => .ok none
  | len :: rest =>
      if len = 0 then .ok (some (c, len, false))
      else if c.writeableSize = 0 then .ok (some (c, len, status))
      else do
        let c ← c.consume len
        if c.writeableSize = 0 then pure (some (c, len, status))
        else c.write status rest

/-- `ReadFileToSharedCharArray`. Only a regular file gets this far, since
`Init` of the response has asked for its size. -/
def readFileToSharedCharArray (fs : FileSystem) (filePath : Bytes) :
    Except Fault Bytes :=
  match fs.stat filePath with
  | .ok ⟨.regular content true, _, _, _⟩ => .ok content
  | _ => .error (.runtimeError (lit "Failed to open file: " ++ filePath))

/-- `Process`; `true` when a response is ready to be written. The block behind
`_iov[1]` is freed on return. -/
def process (w : World) (c : HttpConnector) :
    Except Fault (HttpConnector × Bool) :=
  if c.readBuffer.readableSize = 0 then
    .ok (c, false)
  else do
    let (request, readBuffer) ← c.request.init.readBuff w.fs c.readBuffer
    let readBuffer := readBuffer.releaseAllBuff
    let (reponse, request) ← c.reponse.init w request
    let writeBuffer ← reponse.headWriteBuff c.writeBuffer
    writeBuffer.print
    let content ← readFileToSharedCharArray w.fs reponse.path
    let base ← writeBuffer.beginReadPtr
    pure ({ c with
      request, readBuffer, reponse, writeBuffer
      fileBlock := content
      iov₀ := ⟨base, writeBuffer.readableSize⟩
      iov₁ := ⟨0, content.length⟩
      iovSize := 2 }, true)

/-- The bytes `_iov[0]` describes. -/
def iovHead (c : HttpConnector) : Bytes :=
  (c.writeBuffer.buffer.drop c.iov₀.base.toNat).take c.iov₀.len

/-- The bytes `_iov[1]` described before the block was freed. -/
def iovFile (c : HttpConnector) : Bytes :=
  (c.fileBlock.drop c.iov₁.base.toNat).take c.iov₁.len

end HttpConnector

end TinyWebServer
