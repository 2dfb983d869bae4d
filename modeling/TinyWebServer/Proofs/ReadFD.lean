import TinyWebServer.Proofs.BufferQueue

/-!
# What `Read_FD` appends

`readv` fills the writable tail first, then `buff1`, then `buff2`. What lands
in the tail alone is appended as it is. Past the tail both arrays are appended
with the length of the whole overhang: the second array should bring only what
the first could not hold, which for an overhang of up to 65535 bytes is
nothing, and a longer overhang is read past the end of the first. Either way
the readable bytes come out too long or not at all, so `Read_FD` is right
exactly as long as nothing hangs over.
-/

namespace TinyWebServer

open Lib

/-- A stack that holds zeros. -/
def HttpConnector.zeroSpill : Buffer.Spill where
  buff1 := List.replicate Buffer.spillSize 0
  buff2 := List.replicate Buffer.spillSize 0
  length1 := List.length_replicate
  length2 := List.length_replicate

namespace Buffer

/-- An `Add` that returns had the bytes it was asked to append. -/
theorem Inv.add_ok {b b' : Buffer} {str : Bytes} {len : Nat} (h : b.Inv)
    (hadd : b.add (some str) len = .ok b') :
    b'.Inv ∧ b'.readable.length = b.readable.length + len := by
  by_cases hlen : len ≤ str.length
  · obtain ⟨b'', hb'', hinv, hread⟩ := h.add_spec hlen
    rw [hb''] at hadd
    cases hadd
    refine ⟨hinv, ?_⟩
    rw [hread, List.length_append, List.length_take]
    omega
  · obtain ⟨b₁, hguard, hinv, -, -⟩ := h.lengthGuard_spec len
    simp [Buffer.add, hguard, hinv.beginWritePtr, hlen] at hadd

/-- What lands in the writable tail alone is appended. -/
theorem Inv.readFD_fits {b : Buffer} (h : b.Inv) {s : Bytes}
    (hfit : s.length ≤ b.writeableSize) (spill : Buffer.Spill) :
    ∃ b', b.readFD spill (some s) = .ok (b', s.length, true) ∧ b'.Inv ∧
      b'.readable = b.readable ++ s ∧
      b'.buffer.length = b.buffer.length ∧
      b'.writeableSize + s.length = b.writeableSize := by
  obtain ⟨hinv, hread⟩ := h.append hfit
  refine ⟨_, ?_, hinv, hread, length_writeAt _ _ _, ?_⟩
  · rw [Buffer.readFD, h.beginPtr]
    simp [hfit, List.take_of_length_le hfit]
  · simp only [Buffer.writeableSize, length_writeAt] at hfit ⊢
    omega

theorem Inv.readFD_failed {b : Buffer} (h : b.Inv) (spill : Buffer.Spill) :
    b.readFD spill none = .ok (b, -1, false) := by
  rw [Buffer.readFD, h.beginPtr]
  rfl

/-! ## The room that is left -/

/-- The two free stretches of a buffer, behind what it holds and in front of
it. -/
structure Room where
  writeable : Nat
  prepared : Nat
  deriving DecidableEq, Repr

def room (b : Buffer) : Room := ⟨b.writeableSize, b.preparedSize⟩

/-- What `_Length_Guard` makes of it. -/
def Room.guard (r : Room) (len : Nat) : Room :=
  if r.writeable < len then
    if len ≤ r.writeable + r.prepared then ⟨r.writeable + r.prepared, 0⟩
    else ⟨len, r.prepared⟩
  else r

def Room.add (r : Room) (len : Nat) : Room :=
  { r.guard len with writeable := (r.guard len).writeable - len }

/-- What `Read_FD` leaves of it when `readv` delivers `len` bytes. -/
def Room.readFD (r : Room) (len : Nat) : Room :=
  if len ≤ r.writeable then { r with writeable := r.writeable - len }
  else
    let r' := { r with writeable := 0 }
    (r'.add (len - r.writeable)).add (len - r.writeable)

theorem Inv.lengthGuard_room {b b' : Buffer} (h : b.Inv) {len : Nat}
    (hg : b.lengthGuard len = .ok b') : b'.room = b.room.guard len := by
  have hr := h.readp_le
  have hw := h.writep_le
  rw [lengthGuard] at hg
  rw [Room.guard]
  by_cases hlt : b.writeableSize < len
  · rw [if_pos hlt] at hg
    rw [if_pos (show b.room.writeable < len from hlt)]
    obtain ⟨b₁, hb₁, hg⟩ := bind_ok_iff.mp hg
    obtain ⟨u, -, hg⟩ := bind_ok_iff.mp hg
    cases hg
    rw [dilatation] at hb₁
    by_cases hslide : len ≤ b.writeableSize + b.preparedSize
    · rw [if_pos hslide, h.beginPtr, ok_bind] at hb₁
      obtain ⟨u, -, hb₁⟩ := bind_ok_iff.mp hb₁
      cases hb₁
      rw [if_pos (show len ≤ b.room.writeable + b.room.prepared from hslide)]
      simp only [room, writeableSize, preparedSize, Room.mk.injEq, and_true,
        Nat.zero_add]
      rw [copyFwd_eq (Nat.zero_le _) (by omega), length_writeAt, readableSize]
      omega
    · rw [if_neg hslide] at hb₁
      cases hb₁
      rw [if_neg
        (show ¬ len ≤ b.room.writeable + b.room.prepared from hslide)]
      simp only [room, writeableSize, preparedSize, Room.mk.injEq, and_true,
        resize, List.length_append, List.length_take, List.length_replicate]
        at hlt ⊢
      omega
  · rw [if_neg hlt] at hg
    rw [if_neg (show ¬ b.room.writeable < len from hlt)]
    obtain ⟨b₁, hb₁, hg⟩ := bind_ok_iff.mp hg
    cases hb₁
    obtain ⟨u, -, hg⟩ := bind_ok_iff.mp hg
    cases hg
    rfl

theorem Inv.add_room {b b' : Buffer} (h : b.Inv) {str : Bytes} {len : Nat}
    (hadd : b.add (some str) len = .ok b') : b'.room = b.room.add len := by
  obtain ⟨b₁, hguard, hinv, -, -⟩ := h.lengthGuard_spec len
  have hroom := h.lengthGuard_room hguard
  by_cases hlen : len ≤ str.length
  · simp only [add, hguard, hinv.beginWritePtr, Option.isSome_some, check_pos,
      ok_bind, Option.getD_some, if_pos hlen] at hadd
    cases hadd
    rw [Room.add, ← hroom]
    simp only [room, writeableSize, preparedSize, length_writeAt,
      Room.mk.injEq, and_true]
    omega
  · simp [add, hguard, hinv.beginWritePtr, hlen] at hadd

/-- What hangs over the tail is appended from either array to a buffer that is
full. -/
theorem Inv.readFD_over {b : Buffer} (h : b.Inv) (spill : Buffer.Spill)
    {s : Bytes} (hover : b.writeableSize < s.length) :
    ∃ full : Buffer, full.Inv ∧ full.room = ⟨0, b.preparedSize⟩ ∧
      full.readable.length = b.readable.length + b.writeableSize ∧
      ∃ buff1 buff2 : Bytes, buff1.length = spillSize ∧
        buff2.length = spillSize ∧
        b.readFD spill (some s) = (do
          let b₁ ← full.add (some buff1) (s.length - b.writeableSize)
          let b₂ ← b₁.add (some buff2) (s.length - b.writeableSize)
          pure (b₂, (s.length : Int), true)) := by
  -- The tail alone holds what fits it.
  have htail : (s.take b.writeableSize).length = b.writeableSize := by
    rw [List.length_take]
    omega
  obtain ⟨hfull, hread⟩ := h.append (Nat.le_of_eq htail)
  have hend : b.writep + (s.take b.writeableSize).length
      = (writeAt b.buffer b.writep (s.take b.writeableSize)).length := by
    have hwp := h.writep_le
    rw [htail, length_writeAt, writeableSize]
    omega
  rw [hend] at hfull hread
  refine ⟨_, hfull, ?_, ?_,
    writeAt spill.buff1 0 ((s.drop b.writeableSize).take spillSize),
    writeAt spill.buff2 0 ((s.drop b.writeableSize).drop spillSize),
    ?_, ?_, ?_⟩
  · simp only [room, writeableSize, preparedSize, Nat.sub_self]
  · rw [hread, List.length_append, htail]
  · rw [length_writeAt, spill.length1]
  · rw [length_writeAt, spill.length2]
  · rw [Buffer.readFD, h.beginPtr]
    simp only [ok_bind, if_neg (Nat.not_le.mpr hover), Nat.zero_add]

/-- When something hangs over the tail and `Read_FD` returns all the same, the
overhang was appended twice. -/
theorem Inv.readFD_overhang {b b' : Buffer} {spill : Buffer.Spill} {s : Bytes}
    {len : Int} {status : Bool} (h : b.Inv)
    (hover : b.writeableSize < s.length)
    (hr : b.readFD spill (some s) = .ok (b', len, status)) :
    b'.Inv ∧ b'.readable.length + b.writeableSize
      = b.readable.length + s.length + s.length := by
  obtain ⟨full, hfull, -, hread, buff1, buff2, -, -, heq⟩ :=
    h.readFD_over spill hover
  rw [heq] at hr
  obtain ⟨b₁, h₁, hr⟩ := bind_ok_iff.mp hr
  obtain ⟨b₂, h₂, hr⟩ := bind_ok_iff.mp hr
  cases hr
  obtain ⟨hinv₁, hlen₁⟩ := hfull.add_ok h₁
  obtain ⟨hinv₂, hlen₂⟩ := hinv₁.add_ok h₂
  exact ⟨hinv₂, by omega⟩

theorem Inv.readFD {b b' : Buffer} {spill : Buffer.Spill}
    {got : Option Bytes} {len : Int} {status : Bool} (h : b.Inv)
    (hr : b.readFD spill got = .ok (b', len, status)) : b'.Inv := by
  cases got with
  | none =>
      rw [h.readFD_failed spill] at hr
      cases hr
      exact h
  | some s =>
      by_cases hfit : s.length ≤ b.writeableSize
      · obtain ⟨b'', hb'', hinv, -⟩ := h.readFD_fits hfit spill
        rw [hb''] at hr
        cases hr
        exact hinv
      · exact (h.readFD_overhang (by omega) hr).1

/-- `Read_FD` returns unless more hangs over than an array holds. -/
theorem Inv.readFD_returns {b : Buffer} (h : b.Inv) (spill : Buffer.Spill)
    (s : Bytes) :
    (∃ r, b.readFD spill (some s) = .ok r) ↔
      s.length ≤ b.writeableSize + spillSize := by
  by_cases hfit : s.length ≤ b.writeableSize
  · obtain ⟨b', hb', -⟩ := h.readFD_fits hfit spill
    exact iff_of_true ⟨_, hb'⟩ (by omega)
  obtain ⟨full, hinv, -, -, buff1, buff2, h₁, h₂, heq⟩ :=
    h.readFD_over spill (Nat.not_le.mp hfit)
  rw [heq]
  constructor
  · intro hr
    obtain ⟨r, hr⟩ := hr
    obtain ⟨b₁, hb₁, -⟩ := bind_ok_iff.mp hr
    by_contra hlong
    obtain ⟨b₁', hguard, hinv₁, -, -⟩ :=
      hinv.lengthGuard_spec (s.length - b.writeableSize)
    have hshort : ¬ s.length - b.writeableSize ≤ buff1.length := by omega
    simp [add, hguard, hinv₁.beginWritePtr, hshort] at hb₁
  · intro hle
    obtain ⟨b₁, hb₁, hinv₁, -⟩ :=
      hinv.add_spec (by omega : s.length - b.writeableSize ≤ buff1.length)
    obtain ⟨b₂, hb₂, -, -⟩ :=
      hinv₁.add_spec (by omega : s.length - b.writeableSize ≤ buff2.length)
    exact ⟨_, by rw [hb₁, ok_bind, hb₂, ok_bind]; rfl⟩

/-- A `Read_FD` that returns answers what `readv` delivered, and leaves that
much less room. -/
theorem Inv.readFD_room {b b' : Buffer} {spill : Buffer.Spill} {s : Bytes}
    {len : Int} {status : Bool} (h : b.Inv)
    (hr : b.readFD spill (some s) = .ok (b', len, status)) :
    len = s.length ∧ b'.room = b.room.readFD s.length := by
  by_cases hfit : s.length ≤ b.writeableSize
  · rw [Buffer.readFD, h.beginPtr] at hr
    simp only [ok_bind, if_pos hfit] at hr
    cases hr
    rw [Room.readFD, if_pos (show s.length ≤ b.room.writeable from hfit)]
    simp only [room, writeableSize, preparedSize, length_writeAt, Room.mk.injEq,
      and_true, true_and]
    omega
  · obtain ⟨full, hinv, hroom, -, buff1, buff2, -, -, heq⟩ :=
      h.readFD_over spill (Nat.not_le.mp hfit)
    rw [heq] at hr
    obtain ⟨b₁, hb₁, hr⟩ := bind_ok_iff.mp hr
    obtain ⟨b₂, hb₂, hr⟩ := bind_ok_iff.mp hr
    cases hr
    refine ⟨rfl, ?_⟩
    rw [(hinv.add_ok hb₁).1.add_room hb₂, hinv.add_room hb₁, hroom,
      Room.readFD, if_neg (show ¬ s.length ≤ b.room.writeable from hfit)]
    rfl

/-- From any buffer in order, whatever `readv` did and whatever stood on the
stack: `Read_FD` returns with exactly the received bytes appended if and only
if they all fit the writable tail. -/
theorem readFD_appends_iff {b : Buffer} (h : b.Inv) (spill : Spill)
    (got : Option Bytes) :
    (∃ b' len status, b.readFD spill got = .ok (b', len, status) ∧
      b'.readable = b.readable ++ got.getD []) ↔
    ∀ s, got = some s → s.length ≤ b.writeableSize := by
  constructor
  · rintro ⟨b', len, status, hr, hread⟩ s rfl
    by_contra hover
    obtain ⟨-, hlen⟩ := h.readFD_overhang (by omega) hr
    rw [hread, List.length_append, Option.getD_some] at hlen
    omega
  · intro hfit
    cases got with
    | none => exact ⟨b, -1, false, h.readFD_failed spill, by simp⟩
    | some s =>
        obtain ⟨b', hr, -, hread, -⟩ := h.readFD_fits (hfit s rfl) spill
        exact ⟨b', _, _, hr, hread⟩

/-- A new buffer of 1024 bytes, and a read of three. -/
theorem readFD_appends_iff_short : ∃ b' len status,
    (construct defaultSize).readFD HttpConnector.zeroSpill (some (lit "GET"))
      = .ok (b', len, status) ∧
    b'.readable = (construct defaultSize).readable ++ lit "GET" := by
  refine (readFD_appends_iff (inv_construct (n := defaultSize) (by decide))
    HttpConnector.zeroSpill (some (lit "GET"))).mpr fun s hs => ?_
  cases hs
  rw [writeableSize_construct]
  decide +kernel

/-- One byte more than a new buffer of 1024 bytes can hold, which `buff1` takes
with room to spare: the received bytes are not what is appended. -/
theorem readFD_doubles :
    ¬ ∃ b' len status,
      (construct defaultSize).readFD HttpConnector.zeroSpill
        (some (List.replicate 1025 97)) = .ok (b', len, status) ∧
      b'.readable
        = (construct defaultSize).readable ++ List.replicate 1025 97 := by
  rintro ⟨b', len, status, hr, hread⟩
  have hinv : (construct defaultSize).Inv := inv_construct (by decide)
  have htail : (construct defaultSize).writeableSize = 1024 := by
    rw [writeableSize_construct]
    rfl
  obtain ⟨-, hlen⟩ := hinv.readFD_overhang
    (by rw [htail, List.length_replicate]; decide) hr
  rw [hread, htail, readable_construct, List.nil_append,
    List.length_replicate] at hlen
  omega

end Buffer

end TinyWebServer
