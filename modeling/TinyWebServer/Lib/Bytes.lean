import Mathlib.Data.List.Basic
import Mathlib.Data.List.Infix
import Mathlib.Tactic.Common

/-!
# Byte strings, searching them, copying them

The three things a C++ program does to a block of bytes and a proof about it
has to know: it looks for a pattern from the left (`search`), it writes a
string over a block (`writeAt`), and it slides a range of a block within the
same block (`copyFwd`). Each is written here as the loop the standard library
runs, one element at a time, and each gets the one equation that replaces the
loop in a proof.

The interesting one is `copyFwd`. Source and destination overlap, and a loop
that overwrote a source byte before reading it would not be a copy at all;
`copyFwd_eq` says that sliding to the left never does that.
-/

namespace TinyWebServer.Lib

abbrev Bytes := List UInt8

/-- The bytes of a string literal. -/
def lit (s : String) : Bytes := s.toUTF8.data.toList

instance (s : Bytes) (l : List Bytes) : Decidable (s ∈ l) := inferInstance

variable {α : Type _}

/-! ## Searching -/

/-- The offset of the first occurrence of `pat`, or the length of the string
when there is none: what `std::search` answers, read as an offset. -/
def search [BEq α] (pat : List α) : List α → Nat
  | [] => 0
  | x :: xs => if pat.isPrefixOf (x :: xs) then 0 else search pat xs + 1

theorem search_le_length [BEq α] (pat s : List α) :
    search pat s ≤ s.length := by
  induction s with
  | nil => exact Nat.le_refl _
  | cons x xs ih =>
      rw [search]
      split
      · exact Nat.zero_le _
      · simp only [List.length_cons]; omega

/-- A pattern of two different elements standing behind a string it does not
occur in is found right behind that string: it cannot straddle the seam. -/
theorem search_append [BEq α] [LawfulBEq α] {a b : α} {l : List α}
    (hab : a ≠ b) (h : ¬ [a, b] <:+: l) (r : List α) :
    search [a, b] (l ++ ([a, b] ++ r)) = l.length := by
  induction l with
  | nil => simp [search]
  | cons x xs ih =>
      rw [List.infix_cons_iff, not_or] at h
      rw [List.cons_append, search, if_neg, ih h.2, List.length_cons]
      cases xs with
      | nil => simp [List.isPrefixOf, Ne.symm hab]
      | cons y ys =>
          intro hpre
          rw [List.isPrefixOf_iff_prefix] at hpre
          refine h.1 ?_
          simpa [List.cons_prefix_cons] using hpre

/-- With no occurrence the search answers the end. -/
theorem search_of_not_infix [BEq α] [LawfulBEq α] {pat s : List α}
    (h : ¬ pat <:+: s) : search pat s = s.length := by
  induction s with
  | nil => rfl
  | cons x xs ih =>
      rw [List.infix_cons_iff, not_or] at h
      rw [search, if_neg (fun hp => h.1 (List.isPrefixOf_iff_prefix.mp hp)),
        ih h.2, List.length_cons]

/-- With one, the pattern stands where the search answers. -/
theorem search_of_infix [BEq α] [LawfulBEq α] {pat s : List α}
    (h : pat <:+: s) : pat <+: s.drop (search pat s) := by
  induction s with
  | nil => simpa using h
  | cons x xs ih =>
      rw [search]
      split
      · next hp => exact List.isPrefixOf_iff_prefix.mp hp
      · next hp =>
          refine ih ((List.infix_cons_iff.mp h).resolve_left fun hpre => ?_)
          exact hp (List.isPrefixOf_iff_prefix.mpr hpre)

/-- Wherever the pattern stands, the search does not go past it. -/
theorem search_le_of_append [BEq α] [LawfulBEq α] (pat l r : List α) :
    search pat (l ++ (pat ++ r)) ≤ l.length := by
  induction l with
  | nil =>
      rw [List.nil_append]
      cases hs : pat ++ r with
      | nil => exact Nat.le_refl _
      | cons x xs =>
          rw [search, if_pos (List.isPrefixOf_iff_prefix.mpr ⟨r, hs⟩)]
          exact Nat.le_refl _
  | cons x xs ih =>
      rw [List.cons_append, search]
      split
      · exact Nat.zero_le _
      · simp only [List.length_cons]; omega

/-- And nothing before it holds the pattern. -/
theorem not_infix_take_search [BEq α] [LawfulBEq α] {pat : List α}
    (hpat : pat ≠ []) (s : List α) : ¬ pat <:+: s.take (search pat s) := by
  rintro ⟨l, r, h⟩
  have hs : s = l ++ (pat ++ (r ++ s.drop (search pat s))) := by
    rw [← List.append_assoc, ← List.append_assoc, h, List.take_append_drop]
  have hle := search_le_of_append pat l (r ++ s.drop (search pat s))
  rw [← hs] at hle
  have hlen := congrArg List.length h
  have hpos := List.length_pos_iff.mpr hpat
  simp only [List.length_append, List.length_take] at hlen
  omega

/-- Cutting at the first `a`: what stands before it, and the rest with it. -/
theorem takeWhile_ne_append [DecidableEq α] {a : α} {l : List α} (h : a ∉ l)
    (r : List α) : (l ++ a :: r).takeWhile (· ≠ a) = l := by
  have hl : ∀ x ∈ l, decide (x ≠ a) = true :=
    fun x hx => decide_eq_true fun he => h (he ▸ hx)
  rw [List.takeWhile_append_of_pos hl]
  simp

theorem dropWhile_ne_append [DecidableEq α] {a : α} {l : List α} (h : a ∉ l)
    (r : List α) : (l ++ a :: r).dropWhile (· ≠ a) = a :: r := by
  have hl : ∀ x ∈ l, decide (x ≠ a) = true :=
    fun x hx => decide_eq_true fun he => h (he ▸ hx)
  rw [List.dropWhile_append_of_pos hl]
  simp

/-! ## Writing and sliding -/

/-- Write `src` over `mem` from offset `dst` on, one element at a time. -/
def writeAt (mem : List α) (dst : Nat) : List α → List α
  | [] => mem
  | x :: src => writeAt (mem.set dst x) (dst + 1) src

@[simp] theorem length_writeAt (mem src : List α) (dst : Nat) :
    (writeAt mem dst src).length = mem.length := by
  induction src generalizing mem dst with
  | nil => rfl
  | cons x src ih => rw [writeAt, ih, List.length_set]

theorem writeAt_eq {mem src : List α} {dst : Nat}
    (h : dst + src.length ≤ mem.length) :
    writeAt mem dst src
      = mem.take dst ++ src ++ mem.drop (dst + src.length) := by
  induction src generalizing mem dst with
  | nil => simp [writeAt]
  | cons x src ih =>
      simp only [List.length_cons] at h
      have hdst : dst < mem.length := by omega
      rw [writeAt, ih (by rw [List.length_set]; omega)]
      rw [List.set_eq_take_append_cons_drop, if_pos hdst]
      have htake : (mem.take dst).length = dst := by
        rw [List.length_take]; omega
      have h1 : (mem.take dst ++ x :: mem.drop (dst + 1)).take (dst + 1)
          = mem.take dst ++ [x] := by
        rw [List.take_append, htake, List.take_of_length_le (by omega)]
        simp
      have h2 : (mem.take dst ++ x :: mem.drop (dst + 1)).drop
          (dst + 1 + src.length) = mem.drop (dst + (src.length + 1)) := by
        rw [List.drop_append, htake, List.drop_of_length_le (by omega),
          List.nil_append, show dst + 1 + src.length - dst = src.length + 1 by
            omega, List.drop_succ_cons, List.drop_drop]
        congr 1; omega
      rw [h1, h2]
      simp

/-- Slide the `n` elements from `first` on to `dst`, front to back, inside one
block: `std::copy` with both ranges in the same vector. -/
def copyFwd (mem : List α) (first dst : Nat) : Nat → List α
  | 0 => mem
  | n + 1 =>
      match mem[first]? with
      | some x => copyFwd (mem.set dst x) (first + 1) (dst + 1) n
      | none => mem

/-- Sliding to the left copies: the destination ends up holding what the
source held before the loop began, overlap or not. The write at `dst` may hit
the source range only at or behind the element just read. -/
theorem copyFwd_eq {mem : List α} {first dst n : Nat} (hle : dst ≤ first)
    (hfit : first + n ≤ mem.length) :
    copyFwd mem first dst n = writeAt mem dst ((mem.drop first).take n) := by
  induction n generalizing mem first dst with
  | zero => simp [copyFwd, writeAt]
  | succ n ih =>
      have hf : first < mem.length := by omega
      rw [copyFwd, List.getElem?_eq_getElem hf, List.drop_eq_getElem_cons hf,
        List.take_succ_cons, writeAt]
      simp only []
      rw [ih (by omega) (by rw [List.length_set]; omega),
        List.drop_set_of_lt (by omega)]

end TinyWebServer.Lib
