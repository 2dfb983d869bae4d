import TinyWebServer.Model.Buffer

/-!
# The buffer is a queue of bytes

Under the vector and the two offsets there is a first-in first-out queue: what
`Add` appends comes out in order, and what was read is gone. The layout moves
under it, since an append may write in place, slide the live bytes to the
front of the vector or grow it, and none of the three may be visible.

`Buffer.Inv` is what the offsets keep, `Buffer.readable` is the queue. Each
operation gets one lemma saying that it keeps the first and what it does to
the second; `lengthGuard_spec` is the one that covers the three layouts.
`trace_refines_queue` runs them together over any list of operations.
-/

namespace TinyWebServer

open Lib

namespace Buffer

/-- What the two offsets keep, and the vector never being empty. -/
structure Inv (b : Buffer) : Prop where
  readp_le : b.readp ≤ b.writep
  writep_le : b.writep ≤ b.buffer.length
  nonempty : 0 < b.buffer.length

theorem inv_construct {n : Nat} (hn : 0 < n) : (construct n).Inv :=
  ⟨Nat.le_refl _, Nat.zero_le _, by simpa [construct] using hn⟩

theorem writeableSize_construct (n : Nat) :
    (construct n).writeableSize = n := by
  simp [construct, writeableSize]

@[simp] theorem readable_construct (n : Nat) : (construct n).readable = [] := by
  simp [construct, readable, slice]

theorem Inv.length_readable {b : Buffer} (h : b.Inv) :
    b.readable.length = b.readableSize := by
  have h1 := h.readp_le
  have h2 := h.writep_le
  simp only [readable, slice, List.length_take, List.length_drop,
    readableSize]
  omega

/-- A full buffer of which nothing has been read. -/
def holding (s : Bytes) : Buffer := ⟨s, 0, s.length⟩

theorem inv_holding {s : Bytes} (hs : s ≠ []) : (holding s).Inv :=
  ⟨Nat.zero_le _, Nat.le_refl _, List.length_pos_iff.mpr hs⟩

@[simp] theorem readable_holding (s : Bytes) : (holding s).readable = s := by
  simp [holding, readable, slice]

theorem Inv.beginPtr {b : Buffer} (h : b.Inv) : b.beginPtr = .ok 0 := by
  simp [Buffer.beginPtr, h.nonempty]

theorem Inv.beginReadPtr {b : Buffer} (h : b.Inv) :
    b.beginReadPtr = .ok b.readp := by
  simp [Buffer.beginReadPtr, h.beginPtr]

theorem Inv.beginWritePtr {b : Buffer} (h : b.Inv) :
    b.beginWritePtr = .ok b.writep := by
  simp [Buffer.beginWritePtr, h.beginPtr]

theorem Inv.print {b : Buffer} (h : b.Inv) : b.print = .ok () := by
  simp [Buffer.print, h.beginReadPtr]

/-! ## Reading -/

theorem updateReadp_ok {b : Buffer} {len : Nat} (h : len ≤ b.readableSize) :
    b.updateReadp len = .ok { b with readp := b.readp + len } := by
  simp [updateReadp, h]

theorem updateReadp_error {b : Buffer} {len : Nat}
    (h : b.readableSize < len) :
    b.updateReadp len = .error (.assertFailed .updateReadp) := by
  simp [updateReadp, Nat.not_le.mpr h]

theorem Inv.advance {b : Buffer} (h : b.Inv) {len : Nat}
    (hlen : len ≤ b.readableSize) :
    Inv { b with readp := b.readp + len } := by
  have hr := h.readp_le
  refine ⟨?_, h.writep_le, h.nonempty⟩
  rw [readableSize] at hlen
  show b.readp + len ≤ b.writep
  omega

theorem readable_advance (b : Buffer) (len : Nat) :
    readable { b with readp := b.readp + len } = b.readable.drop len := by
  simp only [readable, slice, List.drop_take, List.drop_drop]
  rw [Nat.sub_add_eq]

/-- A read moves the cursor over bytes that are there: the queue loses them
from the front. -/
theorem Inv.updateReadp_spec {b : Buffer} (h : b.Inv) {len : Nat}
    (hlen : len ≤ b.readableSize) :
    ∃ b', b.updateReadp len = .ok b' ∧ b'.Inv ∧
      b'.readable = b.readable.drop len :=
  ⟨_, updateReadp_ok hlen, h.advance hlen, readable_advance b len⟩

theorem Inv.updateReadpEnd_spec {b : Buffer} (h : b.Inv) {strEnd : Nat}
    (hlo : b.readp ≤ strEnd) (hhi : strEnd ≤ b.writep) :
    ∃ b', b.updateReadpEnd strEnd = .ok b' ∧ b'.Inv ∧
      b'.readable = b.readable.drop (strEnd - b.readp) := by
  have hlen : strEnd - b.readp ≤ b.readableSize := by
    rw [readableSize]; omega
  obtain ⟨b', hb', hinv, hread⟩ := h.updateReadp_spec hlen
  refine ⟨b', ?_, hinv, hread⟩
  rw [← hb', updateReadpEnd, h.beginReadPtr]
  simp [hlo]

theorem Inv.releaseAllBuff {b : Buffer} (h : b.Inv) :
    b.releaseAllBuff.Inv :=
  ⟨Nat.le_refl _, Nat.zero_le _, by simpa [Buffer.releaseAllBuff] using
    h.nonempty⟩

@[simp] theorem readable_releaseAllBuff (b : Buffer) :
    b.releaseAllBuff.readable = [] := by
  simp [Buffer.releaseAllBuff, readable, slice]

theorem Inv.releaseAllBuffStr_spec {b : Buffer} (h : b.Inv) :
    b.releaseAllBuffStr = .ok (b.readable, b.releaseAllBuff) := by
  have hr := h.readp_le
  have hend : b.readp + b.readableSize = b.writep := by
    rw [readableSize]; omega
  simp [releaseAllBuffStr, h.beginReadPtr, hend, readable]

/-! ## Making room -/

/-- Sliding the live bytes to the front: the offsets start over, the queue
does not notice. -/
theorem Inv.slide {b : Buffer} (h : b.Inv) :
    Inv ⟨copyFwd b.buffer b.readp 0 b.readableSize, 0, b.readableSize⟩ ∧
      readable ⟨copyFwd b.buffer b.readp 0 b.readableSize, 0,
        b.readableSize⟩ = b.readable := by
  have hr := h.readp_le
  have hw := h.writep_le
  have hfit : b.readp + b.readableSize ≤ b.buffer.length := by
    rw [readableSize]; omega
  have hslice : ((b.buffer.drop b.readp).take b.readableSize)
      = b.readable := rfl
  have hlen := h.length_readable
  rw [copyFwd_eq (Nat.zero_le _) hfit, hslice]
  refine ⟨⟨Nat.zero_le _, ?_, ?_⟩, ?_⟩
  · simp only [length_writeAt]; omega
  · simpa using h.nonempty
  · rw [writeAt_eq (by omega)]
    show List.take (b.readableSize - 0) (List.drop 0 (_ ++ _ ++ _)) = _
    rw [List.take_zero, List.nil_append, List.drop_zero, Nat.sub_zero,
      ← hlen, List.take_left]

/-- Growing the vector leaves what was in it where it was. -/
theorem Inv.grow {b : Buffer} (h : b.Inv) {n : Nat}
    (hn : b.buffer.length ≤ n) :
    Inv { b with buffer := resize b.buffer n } ∧
      readable { b with buffer := resize b.buffer n } = b.readable := by
  have hw := h.writep_le
  have hres : resize b.buffer n
      = b.buffer ++ List.replicate (n - b.buffer.length) 0 := by
    rw [resize, List.take_of_length_le hn]
  refine ⟨⟨h.readp_le, ?_, ?_⟩, ?_⟩
  · simp only [hres, List.length_append]; omega
  · have := h.nonempty
    simp only [hres, List.length_append]; omega
  · simp only [readable, slice, hres]
    rw [List.drop_append_of_le_length (by have := h.readp_le; omega),
      List.take_append_of_le_length
        (by rw [List.length_drop]; omega)]

/-- `_Length_Guard` leaves room for what was asked, by whichever of its three
ways, and the queue as it was. -/
theorem Inv.lengthGuard_spec {b : Buffer} (h : b.Inv) (len : Nat) :
    ∃ b', b.lengthGuard len = .ok b' ∧ b'.Inv ∧ b'.readable = b.readable ∧
      len ≤ b'.writeableSize := by
  have hr := h.readp_le
  have hw := h.writep_le
  by_cases hroom : b.writeableSize < len
  · by_cases hslide : len ≤ b.writeableSize + b.preparedSize
    · obtain ⟨hinv, hread⟩ := h.slide
      have hfree : len ≤ writeableSize
          ⟨copyFwd b.buffer b.readp 0 b.readableSize, 0, b.readableSize⟩ := by
        rw [copyFwd_eq (Nat.zero_le _)
          (by rw [readableSize]; omega)]
        simp only [writeableSize, preparedSize, length_writeAt,
          readableSize] at hslide ⊢
        omega
      refine ⟨_, ?_, hinv, hread, hfree⟩
      have hself : b.readableSize = readableSize
          ⟨copyFwd b.buffer b.readp 0 b.readableSize, 0,
            b.readableSize⟩ := rfl
      have hdil : b.dilatation len
          = .ok ⟨copyFwd b.buffer b.readp 0 b.readableSize, 0,
              b.readableSize⟩ := by
        rw [dilatation, if_pos hslide, h.beginPtr]
        show (do
          check (b.readableSize = _) .dilatation
          pure _) = _
        rw [Nat.zero_add, show b.writep - b.readp = b.readableSize from rfl,
          check_pos hself]
        rfl
      rw [lengthGuard, if_pos hroom, hdil]
      simp [hfree]
    · obtain ⟨hinv, hread⟩ := h.grow (n := b.writep + len)
        (by simp only [writeableSize] at hroom; omega)
      have hfree : len ≤ writeableSize
          { b with buffer := resize b.buffer (b.writep + len) } := by
        have hle : b.buffer.length ≤ b.writep + len := by
          simp only [writeableSize] at hroom; omega
        simp only [writeableSize, resize, List.length_append,
          List.take_of_length_le hle, List.length_replicate]
        omega
      refine ⟨_, ?_, hinv, hread, hfree⟩
      rw [lengthGuard, if_pos hroom, dilatation, if_neg hslide]
      simp [hfree]
  · refine ⟨b, ?_, h, rfl, by omega⟩
    rw [lengthGuard, if_neg hroom]
    simp [Nat.not_lt.mp hroom]

/-- Writing into room that is there appends to the queue. -/
theorem Inv.append {b : Buffer} (h : b.Inv) {src : Bytes}
    (hfit : src.length ≤ b.writeableSize) :
    Inv ⟨writeAt b.buffer b.writep src, b.readp, b.writep + src.length⟩ ∧
      readable ⟨writeAt b.buffer b.writep src, b.readp,
        b.writep + src.length⟩ = b.readable ++ src := by
  have hr := h.readp_le
  have hw := h.writep_le
  have hroom : b.writep + src.length ≤ b.buffer.length := by
    rw [writeableSize] at hfit; omega
  refine ⟨⟨by simp only; omega, by simpa using hroom, by
    simpa using h.nonempty⟩, ?_⟩
  rw [writeAt_eq hroom]
  have htake : (b.buffer.take b.writep).length = b.writep := by
    rw [List.length_take]; omega
  simp only [readable, slice]
  rw [List.append_assoc, List.drop_append_of_le_length (by omega),
    List.drop_take, show b.writep + src.length - b.readp
      = ((b.buffer.drop b.readp).take (b.writep - b.readp) ++ src).length by
        simp only [List.length_append, List.length_take, List.length_drop]
        omega, ← List.append_assoc, List.take_left]

/-- `Add` appends the bytes it is given, whatever had to happen to make
room. -/
theorem Inv.add_spec {b : Buffer} (h : b.Inv) {str : Bytes} {len : Nat}
    (hlen : len ≤ str.length) :
    ∃ b', b.add (some str) len = .ok b' ∧ b'.Inv ∧
      b'.readable = b.readable ++ str.take len := by
  obtain ⟨b₁, hguard, hinv, hread, hroom⟩ := h.lengthGuard_spec len
  have hsrc : (str.take len).length = len := by
    rw [List.length_take]; omega
  have hfit : (str.take len).length ≤ b₁.writeableSize := by
    rw [hsrc]; exact hroom
  obtain ⟨hinv', hread'⟩ := hinv.append hfit
  rw [hsrc] at hinv' hread'
  refine ⟨_, ?_, hinv', by rw [hread', hread]⟩
  simp [add, hguard, hinv.beginWritePtr, hlen]

theorem Inv.addString_spec {b : Buffer} (h : b.Inv) (str : Bytes) :
    ∃ b', b.addString str = .ok b' ∧ b'.Inv ∧
      b'.readable = b.readable ++ str := by
  obtain ⟨b', hb', hinv, hread⟩ := h.add_spec (Nat.le_refl str.length)
  exact ⟨b', hb', hinv, by rw [hread, List.take_length]⟩

end Buffer

/-! ## Sequences of operations -/

/-- A call on a buffer. -/
inductive BufferOp where
  | addString (str : Bytes)
  | add (str : Option Bytes) (len : Nat)
  | updateReadp (len : Nat)
  | updateReadpEnd (strEnd : Nat)
  | releaseBuff (len : Nat)
  | releaseAllBuff
  | releaseAllBuffStr
  deriving DecidableEq, Repr

namespace BufferOp

/-- The call, and the bytes it hands out (only `Release_All_Buff(str)` hands
any out). -/
def run (b : Buffer) : BufferOp → Except Fault (Buffer × Bytes)
  | addString str => do let b ← b.addString str; pure (b, [])
  | add str len => do let b ← b.add str len; pure (b, [])
  | updateReadp len => do let b ← b.updateReadp len; pure (b, [])
  | updateReadpEnd strEnd => do
      let b ← b.updateReadpEnd strEnd; pure (b, [])
  | releaseBuff len => do let b ← b.releaseBuff len; pure (b, [])
  | releaseAllBuff => pure (b.releaseAllBuff, [])
  | releaseAllBuffStr => do
      let (out, b) ← b.releaseAllBuffStr; pure (b, out)

/-- The call's own assertion on its arguments: enough bytes to release, a
pointer into the readable range, a pointer to as many bytes as are taken. -/
def Meets (b : Buffer) : BufferOp → Prop
  | addString _ | releaseAllBuff | releaseAllBuffStr => True
  | add str len => str.isSome = true ∧ len ≤ (str.getD []).length
  | updateReadp len | releaseBuff len => len ≤ b.readableSize
  | updateReadpEnd strEnd => b.readp ≤ strEnd ∧ strEnd ≤ b.writep

instance (b : Buffer) : ∀ op : BufferOp, Decidable (op.Meets b)
  | addString _ | releaseAllBuff | releaseAllBuffStr =>
      inferInstanceAs (Decidable True)
  | add _ _ | updateReadpEnd _ => inferInstanceAs (Decidable (_ ∧ _))
  | updateReadp _ | releaseBuff _ => inferInstanceAs (Decidable (_ ≤ _))

/-- The same call on a queue of bytes, and the bytes it hands out. The buffer
is here only to say how far into the queue a pointer points. -/
def onQueue (b : Buffer) (q : Bytes) : BufferOp → Bytes × Bytes
  | addString str => (q ++ str, [])
  | add str len => (q ++ (str.getD []).take len, [])
  | updateReadp len | releaseBuff len => (q.drop len, [])
  | updateReadpEnd strEnd => (q.drop (strEnd - b.readp), [])
  | releaseAllBuff => ([], [])
  | releaseAllBuffStr => ([], q)

/-- The buffer after each call of a list, with what the call handed out. -/
def trace (b : Buffer) : List BufferOp → Except Fault (List (Buffer × Bytes))
  | [] => pure []
  | op :: ops => do
      let r ← op.run b
      let rs ← trace r.1 ops
      pure (r :: rs)

/-- Every call of the list meets its own assertion in the state it is made
in. -/
def Legal (b : Buffer) : List BufferOp → Prop
  | [] => True
  | op :: ops =>
      op.Meets b ∧
        match op.run b with
        | .ok r => Legal r.1 ops
        | .error _ => True

instance decidableLegal (b : Buffer) : ∀ ops, Decidable (Legal b ops)
  | [] => inferInstanceAs (Decidable True)
  | op :: ops =>
      match h : op.run b with
      | .ok r =>
          have := decidableLegal r.1 ops
          decidable_of_iff (op.Meets b ∧ Legal r.1 ops) (by rw [Legal, h])
      | .error _ => decidable_of_iff (op.Meets b) (by rw [Legal, h]; simp)

/-- The queue after each call of a list, alongside the buffer. -/
def queues (b : Buffer) (q : Bytes) : List BufferOp → List (Bytes × Bytes)
  | [] => []
  | op :: ops =>
      op.onQueue b q ::
        match op.run b with
        | .ok r => queues r.1 (op.onQueue b q).1 ops
        | .error _ => []

/-- One call, whichever: it fails no assertion, keeps the invariant, and does
to the readable bytes what it does to the queue. -/
theorem run_spec {b : Buffer} (h : b.Inv) {op : BufferOp}
    (hop : op.Meets b) :
    ∃ r, op.run b = .ok r ∧ r.1.Inv ∧
      (r.1.readable, r.2) = op.onQueue b b.readable := by
  cases op with
  | addString str =>
      obtain ⟨b', hb', hinv, hread⟩ := h.addString_spec str
      exact ⟨(b', []), by simp [run, hb'], hinv, by rw [hread]; rfl⟩
  | add str len =>
      obtain ⟨hsome, hlen⟩ := hop
      obtain ⟨bytes, rfl⟩ := Option.isSome_iff_exists.mp hsome
      rw [Option.getD_some] at hlen
      obtain ⟨b', hb', hinv, hread⟩ := h.add_spec hlen
      exact ⟨(b', []), by simp [run, hb'], hinv, by rw [hread]; rfl⟩
  | updateReadp len =>
      obtain ⟨b', hb', hinv, hread⟩ := h.updateReadp_spec hop
      exact ⟨(b', []), by simp [run, hb'], hinv, by rw [hread]; rfl⟩
  | updateReadpEnd strEnd =>
      obtain ⟨b', hb', hinv, hread⟩ := h.updateReadpEnd_spec hop.1 hop.2
      exact ⟨(b', []), by simp [run, hb'], hinv, by rw [hread]; rfl⟩
  | releaseBuff len =>
      obtain ⟨b', hb', hinv, hread⟩ := h.updateReadp_spec hop
      exact ⟨(b', []), by simp [run, Buffer.releaseBuff, hb'], hinv, by
        rw [hread]; rfl⟩
  | releaseAllBuff =>
      exact ⟨(b.releaseAllBuff, []), rfl, h.releaseAllBuff, by simp [onQueue]⟩
  | releaseAllBuffStr =>
      exact ⟨(b.releaseAllBuff, b.readable), by
        simp [run, h.releaseAllBuffStr_spec], h.releaseAllBuff, by
        simp [onQueue]⟩

/-- The whole list, from any buffer that keeps the invariant. -/
theorem trace_spec : ∀ (ops : List BufferOp) {b : Buffer}, b.Inv →
    Legal b ops → ∃ rs, trace b ops = .ok rs ∧
      List.Forall₂ (fun r q => r.1.Inv ∧ (r.1.readable, r.2) = q) rs
        (queues b b.readable ops) := by
  intro ops
  induction ops with
  | nil => intro b _ _; exact ⟨[], rfl, .nil⟩
  | cons op ops ih =>
      intro b h hlegal
      obtain ⟨hmeets, hnext⟩ := hlegal
      obtain ⟨r, hr, hinv, hq⟩ := run_spec h hmeets
      rw [hr] at hnext
      obtain ⟨rs, hrs, hall⟩ := ih hinv hnext
      refine ⟨r :: rs, by simp [trace, hr, hrs], ?_⟩
      rw [queues, hr]
      refine .cons ⟨hinv, hq⟩ ?_
      rw [← hq]
      exact hall

end BufferOp

/-- The buffer refines a queue of bytes: from a constructed buffer of any
positive size, over any list of calls whose own assertions hold, no assertion
fails, and after every call the offsets are in order and the readable bytes,
as well as the bytes handed out, are the queue's. -/
theorem trace_refines_queue (n : Nat) (hn : 0 < n) (ops : List BufferOp)
    (hops : BufferOp.Legal (Buffer.construct n) ops) :
    ∃ rs, BufferOp.trace (Buffer.construct n) ops = .ok rs ∧
      List.Forall₂ (fun r q => r.1.Inv ∧ (r.1.readable, r.2) = q) rs
        (BufferOp.queues (Buffer.construct n) [] ops) := by
  have h := BufferOp.trace_spec ops (Buffer.inv_construct hn) hops
  rwa [Buffer.readable_construct] at h

/-- A buffer of four bytes driven through all three layouts: the first append
grows it, the second slides, the third writes in place. -/
theorem trace_refines_queue_four :
    ∃ rs, BufferOp.trace (Buffer.construct 4)
        [.addString (lit "abcdef"), .updateReadp 4, .addString (lit "gh"),
          .updateReadpEnd 1, .add (some (lit "ijk")) 2,
          .releaseAllBuffStr] = .ok rs ∧
      List.Forall₂ (fun r q => r.1.Inv ∧ (r.1.readable, r.2) = q) rs
        (BufferOp.queues (Buffer.construct 4) []
          [.addString (lit "abcdef"), .updateReadp 4, .addString (lit "gh"),
            .updateReadpEnd 1, .add (some (lit "ijk")) 2,
            .releaseAllBuffStr]) :=
  trace_refines_queue 4 (by decide) _ (by decide)

end TinyWebServer
