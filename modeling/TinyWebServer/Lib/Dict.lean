import Mathlib.Data.List.Basic
import Mathlib.Tactic.Common

/-!
# Maps read through lookup

A map that a program only ever asks "what is stored under this key" and
"store this under that key" is its lookup function: two of them are equal when
every lookup agrees, whatever order the entries went in and however the table
is laid out. `insertAll` stores a list of pairs front to back, so the last
pair of a key wins.

The lemma the two-run arguments need is `insertAll_eq_empty_iff`: replaying a
list of stores on a map that already held something gives the same map as
replaying it on an empty one exactly when the list overwrites every key that
was there.
-/

namespace TinyWebServer.Lib

abbrev Dict (κ ν : Type _) := κ → Option ν

namespace Dict

variable {κ ν : Type _} [DecidableEq κ]

def empty : Dict κ ν := fun _ => none

def insert (m : Dict κ ν) (k : κ) (v : ν) : Dict κ ν :=
  fun k' => if k' = k then some v else m k'

/-- The keys of a list of pairs. -/
def keys (l : List (κ × ν)) : List κ := l.map Prod.fst

/-- Store the pairs of a list, front to back. -/
def insertAll (m : Dict κ ν) (l : List (κ × ν)) : Dict κ ν :=
  l.foldl (fun m p => m.insert p.1 p.2) m

@[simp] theorem insert_self (m : Dict κ ν) (k : κ) (v : ν) :
    m.insert k v k = some v := if_pos rfl

theorem insert_other (m : Dict κ ν) {k k' : κ} (v : ν) (h : k' ≠ k) :
    m.insert k v k' = m k' := if_neg h

/-- Storing changes nothing exactly where the value is there already. -/
theorem insert_eq_self_iff {m : Dict κ ν} {k : κ} {v : ν} :
    m.insert k v = m ↔ m k = some v := by
  constructor
  · intro h
    rw [← h, insert_self]
  · intro h
    funext k'
    by_cases hk : k' = k
    · rw [hk, insert_self, h]
    · rw [insert_other _ _ hk]

@[simp] theorem insertAll_nil (m : Dict κ ν) : m.insertAll [] = m := rfl

@[simp] theorem insertAll_cons (m : Dict κ ν) (p : κ × ν)
    (l : List (κ × ν)) :
    m.insertAll (p :: l) = (m.insert p.1 p.2).insertAll l := rfl

theorem insertAll_append (m : Dict κ ν) (l l' : List (κ × ν)) :
    m.insertAll (l ++ l') = (m.insertAll l).insertAll l' :=
  List.foldl_append

/-- A key the list does not name keeps its value. -/
theorem insertAll_of_not_mem {m : Dict κ ν} {l : List (κ × ν)} {k : κ}
    (h : k ∉ keys l) : m.insertAll l k = m k := by
  induction l generalizing m with
  | nil => rfl
  | cons p l ih =>
      simp only [keys, List.map_cons, List.mem_cons, not_or] at h
      rw [insertAll_cons, ih h.2, insert_other _ _ h.1]

/-- A key the list names gets a value that only the list decides. -/
theorem insertAll_of_mem {m m' : Dict κ ν} {l : List (κ × ν)} {k : κ}
    (h : k ∈ keys l) : m.insertAll l k = m'.insertAll l k := by
  induction l generalizing m m' with
  | nil => exact absurd h (List.not_mem_nil)
  | cons p l ih =>
      rw [insertAll_cons, insertAll_cons]
      by_cases hl : k ∈ keys l
      · exact ih hl
      · have hk : k = p.1 := by
          simp only [keys, List.map_cons, List.mem_cons] at h
          exact h.resolve_right hl
        rw [insertAll_of_not_mem hl, insertAll_of_not_mem hl, hk,
          insert_self, insert_self]

/-- And that value is there. -/
theorem insertAll_ne_none {m : Dict κ ν} {l : List (κ × ν)} {k : κ}
    (h : k ∈ keys l) : m.insertAll l k ≠ none := by
  induction l generalizing m with
  | nil => exact absurd h (List.not_mem_nil)
  | cons p l ih =>
      rw [insertAll_cons]
      by_cases hl : k ∈ keys l
      · exact ih hl
      · have hk : k = p.1 := by
          simp only [keys, List.map_cons, List.mem_cons] at h
          exact h.resolve_right hl
        rw [insertAll_of_not_mem hl, hk, insert_self]
        simp

/-- So what is found is what the list stores there, or else what was there. -/
theorem insertAll_apply (m : Dict κ ν) (l : List (κ × ν)) (k : κ) :
    m.insertAll l k = (empty.insertAll l k).or (m k) := by
  by_cases h : k ∈ keys l
  · have hsome := insertAll_ne_none (m := empty) h
    have hsame : m.insertAll l k = empty.insertAll l k := insertAll_of_mem h
    rw [hsame]
    cases hl : empty.insertAll l k with
    | none => exact absurd hl hsome
    | some v => rfl
  · rw [insertAll_of_not_mem h, insertAll_of_not_mem h]
    rfl

/-- What a list stores, pair by pair. -/
theorem insertAll_empty_cons (p : κ × ν) (l : List (κ × ν)) (k : κ) :
    empty.insertAll (p :: l) k
      = (empty.insertAll l k).or (if k = p.1 then some p.2 else none) := by
  rw [insertAll_cons, insertAll_apply]
  rfl

/-- A map changed at the keys of a list to the values of the list, and
nowhere else. -/
def Updated (m m' : Dict κ ν) (l : List (κ × ν)) : Prop :=
  (∀ p ∈ l, m' p.1 = some p.2) ∧ ∀ k, k ∉ keys l → m' k = m k

/-- Which is what storing a list does when no key is in it twice. -/
theorem updated_insertAll {l : List (κ × ν)} (h : (keys l).Nodup)
    (m : Dict κ ν) : Updated m (m.insertAll l) l := by
  refine ⟨fun p hp => ?_, fun k hk => insertAll_of_not_mem hk⟩
  induction l generalizing m with
  | nil => cases hp
  | cons q l ih =>
      rw [keys, List.map_cons, List.nodup_cons] at h
      rw [insertAll_cons]
      rcases List.mem_cons.mp hp with rfl | hp
      · rw [insertAll_of_not_mem h.1, insert_self]
      · exact ih h.2 _ hp

/-- The last pair of a key. -/
def IsLast (l : List (κ × ν)) (k : κ) (v : ν) : Prop :=
  ∃ front back, l = front ++ (k, v) :: back ∧ k ∉ keys back

/-- What an empty map holds after the list was stored is the last pair of each
key. -/
theorem insertAll_empty_iff {l : List (κ × ν)} {k : κ} {v : ν} :
    empty.insertAll l k = some v ↔ IsLast l k v := by
  induction l with
  | nil => simp [insertAll, empty, IsLast]
  | cons p l ih =>
      rw [insertAll_cons]
      by_cases hl : k ∈ keys l
      · have hsame : (empty.insert p.1 p.2).insertAll l k
            = empty.insertAll l k := insertAll_of_mem hl
        rw [hsame, ih]
        constructor
        · intro hlast
          obtain ⟨front, back, rfl, hback⟩ := hlast
          exact ⟨p :: front, back, rfl, hback⟩
        · intro hlast
          obtain ⟨front, back, heq, hback⟩ := hlast
          cases front with
          | nil => cases heq; exact absurd hl hback
          | cons q front => cases heq; exact ⟨front, back, rfl, hback⟩
      · rw [insertAll_of_not_mem hl]
        constructor
        · intro h
          by_cases hk : k = p.1
          · subst hk
            rw [insert_self] at h
            cases h
            exact ⟨[], l, rfl, hl⟩
          · rw [insert_other _ _ hk] at h
            cases h
        · intro hlast
          obtain ⟨front, back, heq, hback⟩ := hlast
          cases front with
          | nil => cases heq; exact insert_self _ _ _
          | cons q front => cases heq; exact absurd (by simp [keys]) hl

/-- What the list does to an empty map it does to any map, one key apart from
the others, exactly when that key is absent or overwritten. -/
theorem insertAll_eq_empty_at_iff {m : Dict κ ν} {l : List (κ × ν)} {k : κ} :
    m.insertAll l k = empty.insertAll l k ↔ (m k ≠ none → k ∈ keys l) := by
  by_cases hk : k ∈ keys l
  · exact iff_of_true (insertAll_of_mem hk) fun _ => hk
  · rw [insertAll_of_not_mem hk, insertAll_of_not_mem hk]
    constructor
    · intro h hne; exact absurd h hne
    · intro h
      by_contra hne
      exact hk (h hne)

theorem insertAll_eq_empty_iff {m : Dict κ ν} {l : List (κ × ν)} :
    m.insertAll l = empty.insertAll l ↔ ∀ k, m k ≠ none → k ∈ keys l := by
  constructor
  · intro h k
    exact insertAll_eq_empty_at_iff.mp (congrFun h k)
  · intro h
    funext k
    exact insertAll_eq_empty_at_iff.mpr (h k)

end Dict

end TinyWebServer.Lib
