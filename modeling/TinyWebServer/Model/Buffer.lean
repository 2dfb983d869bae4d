import TinyWebServer.Model.Basic

/-!
# `Buffer`

The growing byte buffer both directions of a connection use: a vector and two
offsets into it, the bytes from `readp` to `writep` being the ones written and
not yet read. A `char*` into the vector is its offset.

`Add` comes in two overloads, here `addString` and `add`; so does
`Update_Readp` (`updateReadp`, `updateReadpEnd`) and `Release_All_Buff`
(`releaseAllBuff`, `releaseAllBuffStr`).
-/

namespace TinyWebServer

open Lib

structure Buffer where
  buffer : Bytes
  readp : Nat
  writep : Nat
  deriving DecidableEq, Repr

namespace Buffer

/-- `Buffer::Buffer`; a connector's two buffers take the default size. -/
def construct (buffSize : Nat) : Buffer :=
  { buffer := List.replicate buffSize 0, readp := 0, writep := 0 }

/-- The default `buff_size` of the constructor. -/
def defaultSize : Nat := 1024

/-- `_Begin_Ptr`: the vector's own start, offset zero. -/
def beginPtr (b : Buffer) : Except Fault Nat := do
  check (0 < b.buffer.length) .beginPtr
  pure 0

def writeableSize (b : Buffer) : Nat := b.buffer.length - b.writep

def readableSize (b : Buffer) : Nat := b.writep - b.readp

def preparedSize (b : Buffer) : Nat := b.readp

def updateReadp (b : Buffer) (len : Nat) : Except Fault Buffer := do
  check (len ≤ b.readableSize) .updateReadp
  pure { b with readp := b.readp + len }

def beginReadPtr (b : Buffer) : Except Fault Nat := do
  let p ← b.beginPtr
  pure (p + b.readp)

/-- `Update_Readp(const char* end)`. -/
def updateReadpEnd (b : Buffer) (strEnd : Nat) : Except Fault Buffer := do
  let p ← b.beginReadPtr
  check (p ≤ strEnd) .updateReadpEnd
  b.updateReadp (strEnd - p)

def beginWritePtr (b : Buffer) : Except Fault Nat := do
  let p ← b.beginPtr
  pure (p + b.writep)

/-- The bytes between two offsets of the vector. -/
def slice (b : Buffer) (first last : Nat) : Bytes :=
  (b.buffer.drop first).take (last - first)

/-- `Release_All_Buff()`: zero the block and forget what it held. -/
def releaseAllBuff (b : Buffer) : Buffer :=
  { buffer := List.replicate b.buffer.length 0, readp := 0, writep := 0 }

/-- `Release_All_Buff(string &str)`, which hands the readable bytes out. -/
def releaseAllBuffStr (b : Buffer) : Except Fault (Bytes × Buffer) := do
  let p ← b.beginReadPtr
  pure (b.slice p (p + b.readableSize), b.releaseAllBuff)

def releaseBuff (b : Buffer) (len : Nat) : Except Fault Buffer :=
  b.updateReadp len

/-- `std::vector::resize`, the new elements being zero. -/
def resize (mem : Bytes) (n : Nat) : Bytes :=
  mem.take n ++ List.replicate (n - mem.length) 0

/-- `_Dilatation`: slide the live bytes to the front when that frees enough
room, grow the vector otherwise. -/
def dilatation (b : Buffer) (len : Nat) : Except Fault Buffer :=
  if len ≤ b.writeableSize + b.preparedSize then do
    let readableSize := b.readableSize
    let p ← b.beginPtr
    let b' : Buffer :=
      { buffer := copyFwd b.buffer (p + b.readp) p (b.writep - b.readp)
        readp := 0
        writep := readableSize }
    check (readableSize = b'.readableSize) .dilatation
    pure b'
  else
    pure { b with buffer := resize b.buffer (b.writep + len) }

def lengthGuard (b : Buffer) (len : Nat) : Except Fault Buffer := do
  let b ← if b.writeableSize < len then b.dilatation len else pure b
  check (len ≤ b.writeableSize) .lengthGuard
  pure b

/-- `Add(const char* str, size_t len)`. `str` is the array the pointer points
at, `none` for a null pointer; taking more of it than it has is out of
bounds. -/
def add (b : Buffer) (str : Option Bytes) (len : Nat) :
    Except Fault Buffer := do
  check (str.isSome = true) .add
  let b ← b.lengthGuard len
  let src := str.getD []
  let p ← b.beginWritePtr
  if len ≤ src.length then
    pure { b with
      buffer := writeAt b.buffer p (src.take len)
      writep := b.writep + len }
  else
    .error .outOfBounds

/-- `Add(const string& str)`. -/
def addString (b : Buffer) (str : Bytes) : Except Fault Buffer :=
  b.add (some str) str.length

/-- `sizeof(buff1)` and `sizeof(buff2)` in `Read_FD`. -/
def spillSize : Nat := 65535

/-- What stood on the stack where `Read_FD` puts its two arrays: they are not
initialised. -/
structure Spill where
  buff1 : Bytes
  buff2 : Bytes
  length1 : buff1.length = spillSize
  length2 : buff2.length = spillSize

/-- `Read_FD`. `got` is what `readv` did: `none` for a negative result, else
the bytes it delivered, scattered over the writable tail and the two arrays in
that order. The answer is the buffer, the length and the status. -/
def readFD (b : Buffer) (spill : Spill) (got : Option Bytes) :
    Except Fault (Buffer × Int × Bool) := do
  let w := b.writeableSize
  let p ← b.beginPtr
  match got with
  | none => pure (b, -1, false)
  | some s =>
      let b := { b with buffer := writeAt b.buffer (p + b.writep) (s.take w) }
      let buff1 := writeAt spill.buff1 0 ((s.drop w).take spillSize)
      let buff2 := writeAt spill.buff2 0 ((s.drop w).drop spillSize)
      if s.length ≤ w then
        pure ({ b with writep := b.writep + s.length }, s.length, true)
      else do
        let b := { b with writep := b.buffer.length }
        -- Both arrays are appended with the same length, the whole overhang.
        let b ← b.add (some buff1) (s.length - w)
        let b ← b.add (some buff2) (s.length - w)
        pure (b, s.length, true)

/-- `print`: all that matters here is that it takes the read pointer. -/
def print (b : Buffer) : Except Fault Unit := do
  let _ ← b.beginReadPtr
  pure ()

/-- The bytes written and not yet read. -/
def readable (b : Buffer) : Bytes := b.slice b.readp b.writep

end Buffer

end TinyWebServer
