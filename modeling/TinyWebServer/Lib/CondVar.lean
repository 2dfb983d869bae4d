import TinyWebServer.Lib.Count
import Mathlib.Logic.Function.Basic

/-!
# Condition variables

A thread asleep on a condition variable is at a place of its own, and so is
one that was notified and has not had the lock since. A condition variable is
therefore the map that takes the first kind of place to the second, and
`notify_one` and `notify_all` move threads along it. That a sleeper may also
run again unasked is for the program's own steps to say.

`Covered` is what excludes a lost wake-up: as long as anybody is asleep, at
least `n` threads are notified, where `n` is the number of things there are to
wake up for. It is kept by a monitor that notifies once for each thing it
adds, and a thread that finds nothing may go back to sleep, because then
`n` is `0`. Nothing in it depends on whom a notification reaches, or on who
takes what.
-/

namespace TinyWebServer.Lib

/-- A condition variable over the places `α` of a thread: where a notification
takes a sleeper, and which places are those of a notified thread. -/
structure CondVar (α : Type _) where
  wake : α → Option α
  notified : α → Bool
  notified_of_wake : ∀ {x y}, wake x = some y → notified y = true
  wake_of_notified : ∀ {x}, notified x = true → wake x = none

namespace CondVar

variable {ι α : Type _}

/-- Asleep and not notified. -/
def Asleep (cv : CondVar α) (x : α) : Prop := (cv.wake x).isSome = true

instance (cv : CondVar α) (x : α) : Decidable (cv.Asleep x) :=
  inferInstanceAs (Decidable (_ = true))

theorem asleep_of_wake {cv : CondVar α} {x y : α} (h : cv.wake x = some y) :
    cv.Asleep x := by
  rw [Asleep, h]
  rfl

theorem not_asleep {cv : CondVar α} {x : α} :
    ¬ cv.Asleep x ↔ cv.wake x = none := by
  rw [Asleep, Bool.not_eq_true, Option.isSome_eq_false_iff,
    Option.isNone_iff_eq_none]

theorem Asleep.not_notified {cv : CondVar α} {x : α} (h : cv.Asleep x) :
    cv.notified x = false := by
  rw [← Bool.not_eq_true]
  exact fun hx => not_asleep.mpr (cv.wake_of_notified hx) h

theorem wake_wake {cv : CondVar α} {x y : α} (h : cv.wake x = some y) :
    cv.wake y = none := cv.wake_of_notified (cv.notified_of_wake h)

/-- `notify_one()`: one sleeper is notified if there is one. -/
inductive NotifyOne [DecidableEq ι] (cv : CondVar α) (pc : ι → α) :
    (ι → α) → Prop where
  | sleeper {i y} : cv.wake (pc i) = some y →
      NotifyOne cv pc (Function.update pc i y)
  | nobody : (∀ i, cv.wake (pc i) = none) → NotifyOne cv pc pc

theorem exists_notifyOne [DecidableEq ι] (cv : CondVar α) (pc : ι → α) :
    ∃ pc', cv.NotifyOne pc pc' := by
  by_cases h : ∃ i, cv.Asleep (pc i)
  · obtain ⟨i, hi⟩ := h
    obtain ⟨y, hy⟩ := Option.isSome_iff_exists.mp hi
    exact ⟨_, .sleeper hy⟩
  · exact ⟨pc, .nobody fun i => not_asleep.mp fun hi => h ⟨i, hi⟩⟩

/-- `notify_all()` -/
def notifyAll (cv : CondVar α) (pc : ι → α) : ι → α :=
  fun i => (cv.wake (pc i)).getD (pc i)

/-- All a notification can do to a thread. -/
theorem NotifyOne.place [DecidableEq ι] {cv : CondVar α} {pc pc' : ι → α}
    (h : cv.NotifyOne pc pc') (i : ι) :
    pc' i = pc i ∨ cv.wake (pc i) = some (pc' i) := by
  cases h with
  | nobody => exact .inl rfl
  | @sleeper j y hy =>
      by_cases hi : i = j
      · subst hi
        rw [Function.update_self]
        exact .inr hy
      · exact .inl (Function.update_of_ne hi _ _)

theorem notifyAll_place (cv : CondVar α) (pc : ι → α) (i : ι) :
    cv.notifyAll pc i = pc i ∨ cv.wake (pc i) = some (cv.notifyAll pc i) := by
  rw [notifyAll]
  cases cv.wake (pc i) with
  | none => exact .inl rfl
  | some y => exact .inr rfl

theorem not_asleep_notifyAll (cv : CondVar α) (pc : ι → α) (i : ι) :
    ¬ cv.Asleep (cv.notifyAll pc i) := by
  rw [not_asleep, notifyAll]
  cases hi : cv.wake (pc i) with
  | none => exact hi
  | some y => exact wake_wake hi

/-- A notification sends nobody to sleep, on whichever variable it is. -/
theorem awake_of_place {cv other : CondVar α} {x y : α}
    (hother : ∀ {x y}, other.wake x = some y → cv.wake y = none)
    (h : y = x ∨ other.wake x = some y) (hx : ¬ cv.Asleep x) :
    ¬ cv.Asleep y := by
  rcases h with h | h
  · rwa [h]
  · exact not_asleep.mpr (hother h)

/-- A thread that moves to a place where it is awake adds no sleeper. -/
theorem asleep_before [DecidableEq ι] {cv : CondVar α} {pc : ι → α} {i : ι}
    {y : α} (hy : cv.wake y = none)
    (h : ∃ j, cv.Asleep (Function.update pc i y j)) :
    ∃ j, cv.Asleep (pc j) := by
  obtain ⟨j, hj⟩ := h
  by_cases hji : j = i
  · subst hji
    rw [Function.update_self] at hj
    exact absurd hj (not_asleep.mpr hy)
  · rw [Function.update_of_ne hji] at hj
    exact ⟨j, hj⟩

theorem awake_update [DecidableEq ι] {cv : CondVar α} {pc : ι → α} {i : ι}
    {y : α} (hy : cv.wake y = none) (h : ∀ j, ¬ cv.Asleep (pc j)) (j : ι) :
    ¬ cv.Asleep (Function.update pc i y j) := fun hj => by
  obtain ⟨k, hk⟩ := asleep_before hy ⟨j, hj⟩
  exact h k hk

/-- A notification adds what one thread weighs. -/
theorem NotifyOne.total_le [Fintype ι] [DecidableEq ι] {cv : CondVar α}
    {pc pc' : ι → α} {weight : α → Nat} (h : cv.NotifyOne pc pc') (n : Nat)
    (hn : ∀ {x y}, cv.wake x = some y → weight y ≤ n) :
    total weight pc' ≤ total weight pc + n := by
  cases h with
  | nobody => exact Nat.le_add_right _ _
  | @sleeper i y hy =>
      have hsum := total_update weight pc i y
      have hle := hn hy
      omega

/-! ## Coverage -/

variable [Fintype ι]

/-- How many threads are notified and have not run since. -/
def pending (cv : CondVar α) (pc : ι → α) : Nat :=
  population (fun x => cv.notified x = true) pc

/-- As long as a thread is asleep, `n` threads are on their way. -/
def Covered (cv : CondVar α) (pc : ι → α) (n : Nat) : Prop :=
  (∃ i, cv.Asleep (pc i)) → n ≤ cv.pending pc

variable {cv : CondVar α} {pc pc' : ι → α} {n : Nat}

theorem Covered.zero : cv.Covered pc 0 := fun _ => Nat.zero_le _

theorem Covered.of_awake (h : ∀ i, ¬ cv.Asleep (pc i)) : cv.Covered pc n :=
  fun ⟨i, hi⟩ => absurd hi (h i)

theorem Covered.mono {m : Nat} (h : cv.Covered pc n) (hle : m ≤ n) :
    cv.Covered pc m := fun hi => Nat.le_trans hle (h hi)

variable [DecidableEq ι]

/-- A thread that was not notified goes somewhere it is not asleep. -/
theorem Covered.move {i : ι} {y : α} (h : cv.Covered pc n)
    (hi : cv.notified (pc i) = false) (hy : cv.wake y = none) :
    cv.Covered (Function.update pc i y) n := by
  intro hsleep
  have hn := h (asleep_before hy hsleep)
  have hcount := population_update (fun x => cv.notified x = true) pc i y
  rw [if_neg (by simp [hi])] at hcount
  rw [pending] at hn ⊢
  omega

/-- A thread takes one of the things, notified or not. -/
theorem Covered.take {i : ι} {y : α} (h : cv.Covered pc n)
    (hy : cv.wake y = none) : cv.Covered (Function.update pc i y) (n - 1) := by
  intro hsleep
  have hn := h (asleep_before hy hsleep)
  have hcount := population_update (fun x => cv.notified x = true) pc i y
  have hone : (if cv.notified (pc i) = true then 1 else 0) ≤ 1 := by
    split <;> omega
  rw [pending] at hn ⊢
  omega

/-- One thing more, and one notification. -/
theorem Covered.notifyOne (h : cv.Covered pc n) (hone : cv.NotifyOne pc pc') :
    cv.Covered pc' (n + 1) := by
  cases hone with
  | nobody hnone =>
      exact .of_awake fun i => not_asleep.mpr (hnone i)
  | @sleeper i y hy =>
      intro _
      have hsleep := asleep_of_wake hy
      have hn := h ⟨i, hsleep⟩
      have hcount := population_update (fun x => cv.notified x = true) pc i y
      rw [if_neg (by simp [hsleep.not_notified]),
        if_pos (cv.notified_of_wake hy)] at hcount
      rw [pending] at hn ⊢
      omega

/-- Two condition variables that no thread waits on at once: a notification of
`other` is none of `cv`'s business. -/
def Apart (cv other : CondVar α) : Prop :=
  ∀ {x y}, other.wake x = some y → cv.notified x = false ∧ cv.wake y = none

theorem Covered.apart {other : CondVar α} (h : cv.Covered pc n)
    (hapart : cv.Apart other) (hone : other.NotifyOne pc pc') :
    cv.Covered pc' n := by
  cases hone with
  | nobody => exact h
  | sleeper hy => exact h.move (hapart hy).1 (hapart hy).2

end CondVar

end TinyWebServer.Lib
