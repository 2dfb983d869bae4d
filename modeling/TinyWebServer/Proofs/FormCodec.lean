import TinyWebServer.Proofs.FormStream

/-!
# A form as its client writes it

The comment over the form decoder says how a form is written: pairs joined by
`&`, a key and its value by `=`, a space as `+`, and the four bytes that mean
something as `%` and two hexadecimal digits. `Encodes` is that, symbol by
symbol: a symbol is a byte of a key or a value, or one of the two separators.

`stream_encodes` is what the decoder makes of such a text. It comes to one
symbol after the other, cuts at the separators, and keeps every byte but the
escaped ones, for which it keeps the three bytes of `mangled`. How many symbols
it comes to is `begun`: all of them, unless the size of the body does not fit
in an `int`.
-/

namespace TinyWebServer

open Lib

namespace HttpRequest

/-! ## Writing a form -/

/-- A byte of a key or a value, or a separator. -/
inductive Sym where
  | byte (b : UInt8)
  | eq
  | amp
  deriving DecidableEq, Repr

/-- `&`, `=`, `+` and `%`. -/
def reserved : List UInt8 := [38, 61, 43, 37]

/-- The digits of a number below sixteen: a letter may be of either case. -/
def hexDigits (n : UInt8) : Bytes :=
  if n < 10 then [n + 48] else [n + 55, n + 87]

/-- The ways to write a symbol. -/
def Sym.codes : Sym → List Bytes
  | .eq => [[61]]
  | .amp => [[38]]
  | .byte b =>
      if b = 32 then [[43]]
      else if b ∈ reserved then
        (hexDigits (b / 16)).flatMap fun h =>
          (hexDigits (b % 16)).map fun l => [37, h, l]
      else [[b]]

inductive Encodes : List Sym → Bytes → Prop
  | nil : Encodes [] []
  | cons {sym : Sym} {code : Bytes} {syms : List Sym} {text : Bytes}
      (hcode : code ∈ sym.codes) (hrest : Encodes syms text) :
      Encodes (sym :: syms) (code ++ text)

def pairSyms (p : Bytes × Bytes) : List Sym :=
  p.1.map .byte ++ .eq :: p.2.map .byte

def formSyms : List (Bytes × Bytes) → List Sym
  | [] => []
  | [p] => pairSyms p
  | p :: q :: pairs => pairSyms p ++ .amp :: formSyms (q :: pairs)

/-- A body a client may send for a list of pairs. -/
def EncodesForm (pairs : List (Bytes × Bytes)) (body : Bytes) : Prop :=
  Encodes (formSyms pairs) body

/-- With capital digits. -/
def Sym.text (sym : Sym) : Bytes := sym.codes.headD []

def formText (pairs : List (Bytes × Bytes)) : Bytes :=
  (formSyms pairs).flatMap Sym.text

theorem Sym.text_mem (sym : Sym) : sym.text ∈ sym.codes := by
  have hdigits (n : UInt8) : hexDigits n ≠ [] := by
    rw [hexDigits]
    split <;> simp
  have hne : sym.codes ≠ [] := by
    cases sym with
    | eq => simp [codes]
    | amp => simp [codes]
    | byte b =>
        rw [codes]
        split
        · simp
        split
        · obtain ⟨h, hs, hh⟩ := List.exists_cons_of_ne_nil (hdigits (b / 16))
          simp [hh, hdigits]
        · simp
  obtain ⟨code, codes, hcodes⟩ := List.exists_cons_of_ne_nil hne
  simp [text, hcodes]

/-- Every form can be written. -/
theorem encodesForm_formText (pairs : List (Bytes × Bytes)) :
    EncodesForm pairs (formText pairs) := by
  rw [EncodesForm, formText]
  induction formSyms pairs with
  | nil => exact .nil
  | cons sym syms ih => exact .cons sym.text_mem ih

/-- Nothing in the text needs an escape. -/
def Unreserved (s : Bytes) : Prop := ∀ b ∈ s, b ∉ reserved

instance (s : Bytes) : Decidable (Unreserved s) :=
  inferInstanceAs (Decidable (∀ b ∈ s, b ∉ reserved))

/-! ## What the decoder keeps of a byte -/

/-- What an escape of the byte becomes. A digit counts with its character code,
only a letter with its value, and the number so read is spelled in base ten
behind the `%`. -/
def mangled (b : UInt8) : Bytes :=
  if b = 38 then [37, 133, 52]
  else if b = 61 then [37, 130, 57]
  else if b = 43 then [37, 129, 49]
  else if b = 37 then [37, 133, 51]
  else [b]

def mangledAll (s : Bytes) : Bytes := s.flatMap mangled

@[simp] theorem mangledAll_nil : mangledAll [] = [] := rfl

@[simp] theorem mangledAll_append (s t : Bytes) :
    mangledAll (s ++ t) = mangledAll s ++ mangledAll t := List.flatMap_append

theorem mangledAll_cons (b : UInt8) (s : Bytes) :
    mangledAll (b :: s) = mangled b ++ mangledAll s := List.flatMap_cons

theorem mangled_of_not_mem {b : UInt8} (h : b ∉ reserved) :
    mangled b = [b] := by
  simp only [reserved, List.mem_cons, List.not_mem_nil, not_or] at h
  simp [mangled, h]

/-- A reserved byte becomes three, the first of them a `%`. -/
theorem mangled_of_mem {b : UInt8} (h : b ∈ reserved) :
    37 ∈ mangled b ∧ (mangled b).length = 3 := by
  simp only [reserved, List.mem_cons, List.not_mem_nil, or_false] at h
  rcases h with rfl | rfl | rfl | rfl <;> decide

theorem mangledAll_eq_nil_iff {s : Bytes} : mangledAll s = [] ↔ s = [] := by
  cases s with
  | nil => simp
  | cons b s =>
      rw [mangledAll_cons]
      by_cases hb : b ∈ reserved
      · have hmem := (mangled_of_mem hb).1
        refine iff_of_false (fun h => ?_) (by simp)
        rw [(List.append_eq_nil_iff.mp h).1] at hmem
        cases hmem
      · simp [mangled_of_not_mem hb]

theorem mangledAll_of_unreserved {s : Bytes} (h : Unreserved s) :
    mangledAll s = s := by
  induction s with
  | nil => rfl
  | cons b s ih =>
      rw [mangledAll_cons, mangled_of_not_mem (h b List.mem_cons_self),
        ih fun c hc => h c (List.mem_cons_of_mem b hc)]
      rfl

theorem length_le_mangledAll (s : Bytes) :
    s.length ≤ (mangledAll s).length := by
  induction s with
  | nil => exact Nat.le_refl _
  | cons b s ih =>
      rw [mangledAll_cons, List.length_append, List.length_cons]
      by_cases hb : b ∈ reserved
      · rw [(mangled_of_mem hb).2]
        omega
      · rw [mangled_of_not_mem hb, List.length_singleton]
        omega

/-- A text with an escape in it comes out longer, and never free of them. -/
theorem mangledAll_of_reserved {s : Bytes} (h : ¬ Unreserved s) :
    s.length < (mangledAll s).length ∧ ¬ Unreserved (mangledAll s) := by
  simp only [Unreserved, not_forall, not_not] at h
  obtain ⟨b, hb, hres⟩ := h
  obtain ⟨u, v, rfl⟩ := List.append_of_mem hb
  obtain ⟨hpct, hthree⟩ := mangled_of_mem hres
  have hu := length_le_mangledAll u
  have hv := length_le_mangledAll v
  rw [mangledAll_append, mangledAll_cons]
  constructor
  · simp only [List.length_append, List.length_cons, hthree]
    omega
  · intro hplain
    exact hplain 37 (by simp [hpct]) (by decide)

theorem mangledAll_eq_self_iff {s : Bytes} :
    mangledAll s = s ↔ Unreserved s := by
  refine ⟨fun h => ?_, mangledAll_of_unreserved⟩
  by_contra hres
  have hlen := (mangledAll_of_reserved hres).1
  rw [h] at hlen
  omega

/-- Only the text itself comes out as a text without escapes. -/
theorem eq_of_mangledAll {s t : Bytes} (ht : Unreserved t)
    (h : mangledAll s = t) : s = t := by
  by_cases hs : Unreserved s
  · rw [← h, mangledAll_of_unreserved hs]
  · exact absurd (h ▸ ht) (mangledAll_of_reserved hs).2

/-! ## One symbol -/

def Cut.step (c : Cut) : Sym → Cut
  | .byte b => c.append (mangled b)
  | .eq => { c with key := c.cur, cur := [] }
  | .amp => { c with cur := [], pairs := c.pairs ++ [(c.key, c.cur)] }

/-- How many symbols start in the first `n` bytes. -/
def begun : Nat → Bytes → Nat
  | 0, _ => 0
  | _ + 1, [] => 0
  | n + 1, ch :: s =>
      if ch = 37 then
        match s with
        | _ :: _ :: s => begun (n - 2) s + 1
        | _ => 1
      else begun n s + 1

/-- The escapes of a byte, whatever the case of their digits, come out as one
and the same. -/
theorem codes_reserved {b : UInt8} {code : Bytes} (hb : b ∈ reserved)
    (h : code ∈ (Sym.byte b).codes) :
    ∃ c₁ c₂, code = [37, c₁, c₂] ∧ escape c₁ c₂ = mangled b := by
  simp only [reserved, List.mem_cons, List.not_mem_nil, or_false] at hb
  have hcodes : (Sym.byte 38).codes = [[37, 50, 54]] ∧
      (Sym.byte 61).codes = [[37, 51, 68], [37, 51, 100]] ∧
      (Sym.byte 43).codes = [[37, 50, 66], [37, 50, 98]] ∧
      (Sym.byte 37).codes = [[37, 50, 53]] := by decide
  obtain ⟨hamp, heq, hplus, hpct⟩ := hcodes
  rcases hb with rfl | rfl | rfl | rfl
  · rw [hamp, List.mem_singleton] at h
    exact ⟨_, _, h, by decide⟩
  · rw [heq, List.mem_pair] at h
    rcases h with h | h <;> exact ⟨_, _, h, by decide⟩
  · rw [hplus, List.mem_pair] at h
    rcases h with h | h <;> exact ⟨_, _, h, by decide⟩
  · rw [hpct, List.mem_singleton] at h
    exact ⟨_, _, h, by decide⟩

/-- A symbol that is not an escape is one byte, and the decoder takes it for
what it stands for. -/
theorem codes_take {sym : Sym} {code : Bytes} (h : code ∈ sym.codes) :
    (∃ ch, code = [ch] ∧ ch ≠ 37 ∧ ∀ c : Cut, c.take ch = c.step sym) ∨
      ∃ b ∈ reserved, sym = .byte b := by
  cases sym with
  | eq =>
      left
      exact ⟨61, List.mem_singleton.mp h, by decide, fun c => rfl⟩
  | amp =>
      left
      exact ⟨38, List.mem_singleton.mp h, by decide, fun c => rfl⟩
  | byte b =>
      by_cases hb : b ∈ reserved
      · right
        exact ⟨b, hb, rfl⟩
      left
      have hkeep := mangled_of_not_mem hb
      rw [Sym.codes] at h
      by_cases hsp : b = 32
      · subst hsp
        rw [if_pos rfl, List.mem_singleton] at h
        exact ⟨43, h, by decide, fun c => rfl⟩
      · rw [if_neg hsp, if_neg hb, List.mem_singleton] at h
        simp only [reserved, List.mem_cons, List.not_mem_nil, not_or] at hb
        refine ⟨b, h, hb.2.2.2.1, fun c => ?_⟩
        rw [Cut.take, if_neg hb.2.1, if_neg hb.2.2.1, if_neg hb.1, Cut.step,
          hkeep]

/-- The decoder comes to a symbol and steps over all of it, even where it was
to stop within. -/
theorem stream_symbol {sym : Sym} {code : Bytes} (h : code ∈ sym.codes)
    {n : Nat} (hn : 0 < n) (s : Bytes) (c : Cut) :
    stream n (code ++ s) c = stream (n - code.length) s (c.step sym) ∧
      begun n (code ++ s) = begun (n - code.length) s + 1 := by
  obtain ⟨n, rfl⟩ := Nat.exists_eq_add_of_lt hn
  rw [Nat.zero_add]
  rcases codes_take h with ⟨ch, rfl, hch, hstep⟩ | ⟨b, hb, rfl⟩
  · rw [List.singleton_append, stream.eq_def, begun.eq_def]
    simp only [if_neg hch, hstep]
    exact ⟨rfl, rfl⟩
  · obtain ⟨c₁, c₂, rfl, hesc⟩ := codes_reserved hb h
    rw [List.cons_append, List.cons_append, List.singleton_append,
      stream.eq_def, begun.eq_def]
    simp only [if_pos, hesc]
    exact ⟨rfl, rfl⟩

theorem codes_ne_nil {sym : Sym} {code : Bytes} (h : code ∈ sym.codes) :
    0 < code.length := by
  rcases codes_take h with ⟨ch, rfl, _, _⟩ | ⟨b, hb, rfl⟩
  · simp
  · obtain ⟨c₁, c₂, rfl, _⟩ := codes_reserved hb h
    simp

/-! ## A whole text -/

variable {syms : List Sym} {text : Bytes}

/-- Everything is read when the last byte is. -/
theorem begun_length (h : Encodes syms text) :
    begun text.length text = syms.length := by
  induction h with
  | nil => rfl
  | cons hcode hrest ih =>
      have hpos := codes_ne_nil hcode
      rw [List.length_append, (stream_symbol hcode (by omega) _ Cut.start).2,
        Nat.add_sub_cancel_left, ih, List.length_cons]

theorem stream_encodes (h : Encodes syms text) {n : Nat}
    (hn : n ≤ text.length) (c : Cut) :
    stream n text c = .ok ((syms.take (begun n text)).foldl Cut.step c) := by
  induction h generalizing n c with
  | nil =>
      obtain rfl := Nat.le_zero.mp hn
      rw [stream, begun]
      rfl
  | cons hcode hrest ih =>
      cases n with
      | zero =>
          rw [stream, begun]
          rfl
      | succ n =>
          obtain ⟨hstream, hbegun⟩ :=
            stream_symbol hcode (Nat.succ_pos n) _ c
          rw [List.length_append] at hn
          rw [hstream, hbegun, ih (by omega), List.take_succ_cons,
            List.foldl_cons]

end HttpRequest

end TinyWebServer
