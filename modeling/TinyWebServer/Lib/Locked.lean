import TinyWebServer.Lib.Count
import TinyWebServer.Lib.Progress
import Mathlib.Logic.Function.Basic

/-!
# Calls made with a lock held

A thread that calls out with a lock held makes everybody who wants the lock
wait for the callee. Here the callee is any system that threads take part in:
a step of it may begin a call of some thread, and a thread that is `idle` in
it is in no call. Around it are any number of locks, and sections that take
one lock, make one call, and give the lock back.

`Lends` is what the callee owes its callers: left to itself it comes to rest,
and at rest nobody is in a call and anybody can begin one. Then nobody waits
for ever, for the callee or for a lock: left to themselves the threads finish
every section that was begun.
-/

namespace TinyWebServer.Lib

/-- Where a thread stands with respect to the locks: before one, behind it and
before the call, in the call, or after it. -/
inductive LockPlace (Mutex : Type _) where
  | outside
  | locking (m : Mutex)
  | holding (m : Mutex)
  | calling (m : Mutex)
  | leaving (m : Mutex)

namespace LockPlace

variable {Mutex : Type _}

def held : LockPlace Mutex → Option Mutex
  | .holding m | .calling m | .leaving m => some m
  | .outside | .locking _ => none

/-- The steps a section still takes, when a call is worth `k` of them. -/
def work (k : Nat) : LockPlace Mutex → Nat
  | .outside => 0
  | .leaving _ => 1
  | .calling _ => 2
  | .holding _ => k + 3
  | .locking _ => k + 4

end LockPlace

structure Locked (σ Thread Mutex : Type _) where
  inner : σ
  owner : Mutex → Option Thread
  place : Thread → LockPlace Mutex

inductive LockLabel (l Thread Mutex : Type _) where
  | enter (t : Thread) (m : Mutex)
  | lock (t : Thread)
  | call (t : Thread) (a : l)
  | returned (t : Thread)
  | unlock (t : Thread)
  -- A step of the callee by itself, or of a thread outside all sections.
  | inner (a : l)

namespace Locked

variable {σ l Thread Mutex : Type _} [DecidableEq Thread] [DecidableEq Mutex]

def setPlace (s : Locked σ Thread Mutex) (t : Thread) (x : LockPlace Mutex) :
    Locked σ Thread Mutex :=
  { s with place := Function.update s.place t x }

def setOwner (s : Locked σ Thread Mutex) (m : Mutex) (o : Option Thread) :
    Locked σ Thread Mutex :=
  { s with owner := Function.update s.owner m o }

inductive Step (S : TransitionSystem σ l) (begins : Thread → l → Prop)
    (idle : Thread → σ → Prop) : Locked σ Thread Mutex →
    LockLabel l Thread Mutex → Locked σ Thread Mutex → Prop where
  | enter {s t m} : s.place t = .outside → idle t s.inner →
      Step S begins idle s (.enter t m) (s.setPlace t (.locking m))
  | lock {s t m} : s.place t = .locking m → s.owner m = none →
      Step S begins idle s (.lock t)
        ((s.setOwner m (some t)).setPlace t (.holding m))
  | call {s t m a x} : s.place t = .holding m → begins t a →
      S.step s.inner a x → Step S begins idle s (.call t a)
        ({ s with inner := x }.setPlace t (.calling m))
  | returned {s t m} : s.place t = .calling m → idle t s.inner →
      Step S begins idle s (.returned t) (s.setPlace t (.leaving m))
  | unlock {s t m} : s.place t = .leaving m →
      Step S begins idle s (.unlock t)
        ((s.setOwner m none).setPlace t .outside)
  | inner {s a x} : (∀ t, begins t a → s.place t = .outside) →
      S.step s.inner a x →
      Step S begins idle s (.inner a) { s with inner := x }

def system (S : TransitionSystem σ l) (begins : Thread → l → Prop)
    (idle : Thread → σ → Prop) :
    TransitionSystem (Locked σ Thread Mutex) (LockLabel l Thread Mutex) where
  init s := S.init s.inner ∧ (∀ m, s.owner m = none) ∧
    ∀ t, s.place t = .outside
  step := Step S begins idle

variable {S : TransitionSystem σ l} {begins : Thread → l → Prop}
  {idle : Thread → σ → Prop} {s s' : Locked σ Thread Mutex}
  {a : LockLabel l Thread Mutex}

theorem inner_reachable (hs : (system S begins idle).Reachable s) :
    S.Reachable s.inner := by
  induction hs with
  | start h => exact .start h.1
  | next _ h ih =>
      cases h with
      | enter | lock | returned | unlock => exact ih
      | call _ _ hstep | inner _ hstep => exact ih.next hstep

/-- A lock belongs to the thread that is behind it. -/
def Owned (s : Locked σ Thread Mutex) : Prop :=
  ∀ m t, s.owner m = some t ↔ (s.place t).held = some m

omit [DecidableEq Mutex] in
/-- A step that leaves the locks alone, and moves a thread on its own side of
them. -/
theorem Owned.move (h : s.Owned) {t : Thread} {x : LockPlace Mutex}
    (howner : s'.owner = s.owner)
    (hplace : s'.place = Function.update s.place t x)
    (hheld : x.held = (s.place t).held) : s'.Owned := by
  intro m u
  rw [howner, hplace, h m u, Function.update_apply]
  split
  · next hu => rw [hheld, hu]
  · rfl

/-- A step of `t` that takes a lock or gives one back. -/
theorem Owned.change (h : s.Owned) {t : Thread} {m : Mutex}
    {x : LockPlace Mutex} {o : Option Thread}
    (howner : s'.owner = Function.update s.owner m o)
    (hplace : s'.place = Function.update s.place t x)
    (hself : ∀ m', Function.update s.owner m o m' = some t ↔ x.held = some m')
    (hothers : ∀ u, u ≠ t → o ≠ some u ∧ s.owner m ≠ some u) : s'.Owned := by
  intro m' u
  rw [howner, hplace]
  by_cases hu : u = t
  · rw [hu, Function.update_self]
    exact hself m'
  rw [Function.update_of_ne hu]
  by_cases hm : m' = m
  · obtain ⟨hnew, hold⟩ := hothers u hu
    rw [hm, Function.update_self, ← h m u]
    exact iff_of_false hnew hold
  · rw [Function.update_of_ne hm]
    exact h m' u

theorem Step.owned (h : Step S begins idle s a s') (hs : s.Owned) :
    s'.Owned := by
  cases h with
  | enter ht | call ht | returned ht =>
      exact hs.move rfl rfl (by rw [ht]; rfl)
  | @lock t m ht hfree =>
      refine hs.change rfl rfl (fun m' => ?_) fun u hu =>
        ⟨fun h => hu (Option.some.inj h).symm, by simp [hfree]⟩
      have hm := hs m' t
      rw [ht] at hm
      by_cases hm' : m' = m
      · simp [hm', LockPlace.held]
      · simpa [hm', Ne.symm hm', LockPlace.held] using hm
  | @unlock t m ht =>
      have hmine : s.owner m = some t := (hs m t).mpr (by rw [ht]; rfl)
      refine hs.change rfl rfl (fun m' => ?_) fun u hu =>
        ⟨by simp, by rw [hmine]; exact fun h => hu (Option.some.inj h).symm⟩
      have hm := hs m' t
      rw [ht] at hm
      by_cases hm' : m' = m
      · simp [hm', LockPlace.held]
      · simpa [hm', Ne.symm hm', LockPlace.held] using hm
  | inner => exact hs

theorem owned_reachable (hs : (system S begins idle).Reachable s) :
    s.Owned := by
  refine hs.invariant (I := Owned) ?_ fun _ _ _ _ ih h => Step.owned h ih
  rintro s ⟨-, howner, hplace⟩ m t
  rw [howner, hplace]
  exact ⟨fun h => absurd h (by simp), fun h => by cases h⟩

/-- What a callee owes: by itself it comes to rest, and at rest everybody is
back and can call again. `good` is what has to hold for that, and does as long
as nothing else happens. -/
structure Lends (S : TransitionSystem σ l) (begins : Thread → l → Prop)
    (idle : Thread → σ → Prop) (ok : σ → l → Prop) (good : σ → Prop)
    (m : σ → Nat) (k : Nat) : Prop where
  potential : S.Potential ok m
  cost : ∀ x t b y, begins t b → S.step x b y → m y ≤ m x + k
  stays : ∀ x b y, good x → (ok x b ∨ ∃ t, begins t b) → S.step x b y → good y
  own : ∀ x b t, ok x b → ¬ begins t b
  rest : ∀ x, S.Reachable x → good x → (S.restrict ok).Final x →
    ∀ t, idle t x ∧ ∃ b y, begins t b ∧ S.step x b y

/-- No new section, and no new call outside of sections. -/
def Own (ok : σ → l → Prop) (s : Locked σ Thread Mutex) :
    LockLabel l Thread Mutex → Prop
  | .enter _ _ => False
  | .lock _ | .call _ _ | .returned _ | .unlock _ => True
  | .inner a => ok s.inner a

variable [Fintype Thread] {ok : σ → l → Prop} {good : σ → Prop} {m : σ → Nat}
  {k : Nat}

def work (m : σ → Nat) (k : Nat) (s : Locked σ Thread Mutex) : Nat :=
  m s.inner + total (LockPlace.work k) s.place

theorem Lends.work_potential (h : Lends S begins idle ok good m k) :
    TransitionSystem.Potential (system S begins idle :
      TransitionSystem (Locked σ Thread Mutex) _) (Own ok) (work m k) := by
  intro s a s' hr hown hstep
  have hmove : ∀ t x, total (LockPlace.work k) (Function.update s.place t x)
      + (s.place t).work k = total (LockPlace.work k) s.place + x.work k :=
    total_update (LockPlace.work k) s.place
  cases hstep with
  | enter => exact hown.elim
  | @lock t m' ht _ =>
      have hless := hmove t (.holding m')
      simp only [ht, LockPlace.work] at hless
      simp only [work, setPlace, setOwner]
      omega
  | @call t m' b x ht hbegins hcall =>
      have hcost := h.cost _ _ _ _ hbegins hcall
      have hless := hmove t (.calling m')
      simp only [ht, LockPlace.work] at hless
      simp only [work, setPlace]
      omega
  | @returned t m' ht _ =>
      have hless := hmove t (.leaving m')
      simp only [ht, LockPlace.work] at hless
      simp only [work, setPlace]
      omega
  | @unlock t m' ht =>
      have hless := hmove t .outside
      simp only [ht, LockPlace.work] at hless
      simp only [work, setPlace, setOwner]
      omega
  | inner _ hcall =>
      have hless := h.potential _ _ _ (inner_reachable hr) hown hcall
      simp only [work]
      omega

omit [Fintype Thread] in
theorem Lends.stays_good (h : Lends S begins idle ok good m k)
    (hgood : good s.inner) (hown : Own ok s a)
    (hstep : Step S begins idle s a s') : good s'.inner := by
  cases hstep with
  | enter | lock | returned | unlock => exact hgood
  | @call t _ _ _ _ hbegins hcall =>
      exact h.stays _ _ _ hgood (.inr ⟨t, hbegins⟩) hcall
  | inner _ hcall => exact h.stays _ _ _ hgood (.inl hown) hcall

omit [Fintype Thread] in
/-- When nothing more happens the callee is at rest. -/
theorem Lends.inner_final (h : Lends S begins idle ok good m k)
    (hfinal : ((system S begins idle).restrict (Own ok)).Final s) :
    (S.restrict ok).Final s.inner := by
  rintro b y ⟨hok, hstep⟩
  exact hfinal (.inner b) _
    ⟨hok, .inner (fun t hb => absurd hb (h.own _ _ t hok)) hstep⟩

omit [Fintype Thread] in
/-- And every section is over. -/
theorem Lends.final_outside (h : Lends S begins idle ok good m k)
    (hr : (system S begins idle).Reachable s) (hgood : good s.inner)
    (hfinal : ((system S begins idle).restrict (Own ok)).Final s) :
    (∀ t, s.place t = .outside) ∧ ∀ m, s.owner m = none := by
  have hrest := h.rest _ (inner_reachable hr) hgood (h.inner_final hfinal)
  have howned := owned_reachable hr
  have hnone : ∀ {a s'}, Own ok s a → ¬ Step S begins idle s a s' :=
    fun hown hstep => hfinal _ _ ⟨hown, hstep⟩
  have hheld : ∀ t m, (s.place t).held ≠ some m := by
    intro t m ht
    cases hplace : s.place t with
    | outside | locking => rw [hplace] at ht; cases ht
    | holding m' =>
        obtain ⟨b, y, hbegins, hstep⟩ := (hrest t).2
        exact hnone (a := .call t b) trivial (.call hplace hbegins hstep)
    | calling m' =>
        exact hnone (a := .returned t) trivial
          (.returned hplace (hrest t).1)
    | leaving m' => exact hnone (a := .unlock t) trivial (.unlock hplace)
  have hfree : ∀ m, s.owner m = none := by
    intro m
    cases howner : s.owner m with
    | none => rfl
    | some t => exact absurd ((howned m t).mp howner) (hheld t m)
  refine ⟨fun t => ?_, hfree⟩
  cases hplace : s.place t with
  | outside => rfl
  | locking m =>
      exact absurd (.lock hplace (hfree m)) (hnone (a := .lock t) trivial)
  | holding m | calling m | leaving m =>
      exact absurd (by rw [hplace]; rfl) (hheld t m)

/-- From every state: with no new sections, so many steps and no more; and
when there are none left, nobody is in a section, no lock is taken and the
callee is at rest. -/
theorem Lends.comes_back (h : Lends S begins idle ok good m k)
    (hr : (system S begins idle).Reachable s) (hgood : good s.inner) :
    (∀ as s', ((system S begins idle).restrict (Own ok)).Run s as s' →
      as.length ≤ work m k s) ∧
    (∃ as s', ((system S begins idle).restrict (Own ok)).Run s as s' ∧
      ((system S begins idle).restrict (Own ok)).Final s') ∧
    ∀ as s', ((system S begins idle).restrict (Own ok)).Run s as s' →
      ((system S begins idle).restrict (Own ok)).Final s' →
      (∀ t, s'.place t = .outside) ∧ (∀ m, s'.owner m = none) ∧
        S.Reachable s'.inner ∧ good s'.inner ∧
        (S.restrict ok).Final s'.inner := by
  refine ⟨fun as s' hrun => ?_,
    TransitionSystem.exists_final h.work_potential hr,
    fun as s' hrun hfinal => ?_⟩
  · have hle := hrun.length_le h.work_potential hr
    omega
  · have hr' := hrun.of_restrict.reachable hr
    have hgood' : good s'.inner := by
      refine hrun.invariant (I := fun _ t => good t.inner) hgood ?_
      rintro _ _ _ _ ih ⟨hown, hstep⟩
      exact h.stays_good ih hown hstep
    obtain ⟨hplace, hfree⟩ := h.final_outside hr' hgood' hfinal
    exact ⟨hplace, hfree, inner_reachable hr', hgood', h.inner_final hfinal⟩

end Locked

end TinyWebServer.Lib
