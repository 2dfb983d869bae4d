import Mathlib.Algebra.BigOperators.Group.Finset.Piecewise
import Mathlib.Data.Fintype.Basic

/-!
# How many threads stand at a given place

The threads of a program are a finite type and each has a program counter. A
step moves one thread, so the number of threads at places of a kind changes by
what that one thread leaves and what it comes to.
-/

namespace TinyWebServer.Lib

variable {ι α : Type _} [Fintype ι]

/-- How many threads stand where `p` holds. -/
def population (p : α → Prop) [DecidablePred p] (pc : ι → α) : Nat :=
  (Finset.univ.filter fun i => p (pc i)).card

theorem population_update [DecidableEq ι] (p : α → Prop) [DecidablePred p]
    (pc : ι → α) (i : ι) (x : α) :
    population p (Function.update pc i x) + (if p (pc i) then 1 else 0)
      = population p pc + (if p x then 1 else 0) := by
  have hrest : ∑ j ∈ Finset.univ.erase i,
        (if p (Function.update pc i x j) then 1 else 0)
      = ∑ j ∈ Finset.univ.erase i, if p (pc j) then 1 else 0 := by
    refine Finset.sum_congr rfl fun j hj => ?_
    rw [Function.update_of_ne (Finset.ne_of_mem_erase hj)]
  rw [population, population, Finset.card_filter, Finset.card_filter,
    ← Finset.add_sum_erase _ _ (Finset.mem_univ i),
    ← Finset.add_sum_erase _ (fun j => if p (pc j) then 1 else 0)
      (Finset.mem_univ i), hrest, Function.update_self]
  omega

theorem exists_of_population {p : α → Prop} [DecidablePred p] {pc : ι → α}
    (h : 0 < population p pc) : ∃ i, p (pc i) := by
  obtain ⟨i, hi⟩ := Finset.card_pos.mp h
  exact ⟨i, by simpa using hi⟩

/-- One thread moves: what all of them carry changes by what it lays down and
what it takes up. -/
theorem sum_update [DecidableEq ι] {M : Type _} [AddCommMonoid M] (f : α → M)
    (pc : ι → α) (i : ι) (x : α) :
    ∑ j, f (Function.update pc i x j) + f (pc i) = ∑ j, f (pc j) + f x := by
  have hrest : ∑ j ∈ Finset.univ.erase i, f (Function.update pc i x j)
      = ∑ j ∈ Finset.univ.erase i, f (pc j) := by
    refine Finset.sum_congr rfl fun j hj => ?_
    rw [Function.update_of_ne (Finset.ne_of_mem_erase hj)]
  rw [← Finset.add_sum_erase _ _ (Finset.mem_univ i),
    ← Finset.add_sum_erase _ (fun j => f (pc j)) (Finset.mem_univ i), hrest,
    Function.update_self]
  ac_rfl

/-- What the threads weigh together. -/
def total (weight : α → Nat) (pc : ι → α) : Nat := ∑ i, weight (pc i)

theorem total_update [DecidableEq ι] (weight : α → Nat) (pc : ι → α) (i : ι)
    (x : α) : total weight (Function.update pc i x) + weight (pc i)
      = total weight pc + weight x := sum_update weight pc i x

theorem population_eq_zero {p : α → Prop} [DecidablePred p] {pc : ι → α}
    (h : ∀ i, ¬ p (pc i)) : population p pc = 0 := by
  rw [population, Finset.card_eq_zero]
  exact Finset.filter_false_of_mem fun i _ => h i

theorem population_pos {p : α → Prop} [DecidablePred p] {pc : ι → α} {i : ι}
    (h : p (pc i)) : 0 < population p pc :=
  Finset.card_pos.mpr ⟨i, by simpa using h⟩

theorem population_le_one {p : α → Prop} [DecidablePred p] {pc : ι → α}
    (h : population p pc ≤ 1) {i j : ι} (hi : p (pc i)) (hj : p (pc j)) :
    i = j :=
  Finset.card_le_one.mp h i (by simpa using hi) j (by simpa using hj)

end TinyWebServer.Lib
