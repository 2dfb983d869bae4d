import Mathlib.Tactic.Common

/-!
# Loops that may fail

A `while` loop whose body may stop the program is a body `step` answering
three ways: an error, a state to go round with again, or the value the loop
leaves with. `loop` runs it on fuel.

The rule that does the work elsewhere is `loop_rel`. Two loops whose bodies
keep a relation run in lockstep and end in related answers, with the same
error if either fails. A refinement is such a pair, and so is a two-run
statement about one loop started in two states.
-/

namespace TinyWebServer.Lib

variable {ε σ σ' ρ ρ' β β' : Type _}

/-! ## Computations that may fail -/

/-- Two outcomes agree: the same error, or two related values. -/
def Agree (Q : ρ → ρ' → Prop) : Except ε ρ → Except ε ρ' → Prop
  | .ok a, .ok b => Q a b
  | .error e, .error e' => e = e'
  | _, _ => False

@[simp] theorem ok_bind (a : ρ) (f : ρ → Except ε β) :
    (Except.ok a >>= f) = f a := rfl

theorem bind_ok_iff {x : Except ε ρ} {f : ρ → Except ε β} {b : β} :
    x >>= f = .ok b ↔ ∃ a, x = .ok a ∧ f a = .ok b := by
  cases x with
  | error e =>
      constructor
      · intro h; cases h
      · rintro ⟨a, h, -⟩; cases h
  | ok a =>
      constructor
      · intro h; exact ⟨a, rfl, h⟩
      · rintro ⟨a', h, hf⟩; cases h; exact hf

/-- A sequence fails where its first part does, or its second. -/
theorem bind_error_iff {x : Except ε ρ} {f : ρ → Except ε β} {e : ε} :
    x >>= f = .error e ↔ x = .error e ∨ ∃ a, x = .ok a ∧ f a = .error e := by
  cases x with
  | error e' =>
      constructor
      · intro h; cases h; exact .inl rfl
      · rintro (h | ⟨a, h, -⟩) <;> cases h; rfl
  | ok a =>
      constructor
      · intro h; exact .inr ⟨a, rfl, h⟩
      · rintro (h | ⟨a', h, hf⟩) <;> cases h; exact hf

theorem exists_of_isOk {x : Except ε ρ} (h : x.isOk = true) :
    ∃ a, x = .ok a := by
  cases x with
  | error e => cases h
  | ok a => exact ⟨a, rfl⟩

theorem Agree.bind {Q : ρ → ρ' → Prop} {P : β → β' → Prop}
    {x : Except ε ρ} {y : Except ε ρ'} {f : ρ → Except ε β}
    {g : ρ' → Except ε β'} (hxy : Agree Q x y)
    (hfg : ∀ a b, Q a b → Agree P (f a) (g b)) :
    Agree P (x >>= f) (y >>= g) := by
  cases x <;> cases y
  · exact hxy
  · exact hxy.elim
  · exact hxy.elim
  · exact hfg _ _ hxy

theorem Agree.mono {Q P : ρ → ρ' → Prop} {x : Except ε ρ}
    {y : Except ε ρ'} (hxy : Agree Q x y) (h : ∀ a b, Q a b → P a b) :
    Agree P x y := by
  cases x <;> cases y
  · exact hxy
  · exact hxy
  · exact hxy
  · exact h _ _ hxy

theorem Agree.trans {ρ'' : Type _} {Q : ρ → ρ' → Prop} {P : ρ' → ρ'' → Prop}
    {x : Except ε ρ} {y : Except ε ρ'} {z : Except ε ρ''}
    (hxy : Agree Q x y) (hyz : Agree P y z) :
    Agree (fun a c => ∃ b, Q a b ∧ P b c) x z := by
  cases x <;> cases y <;> cases z <;> first
    | exact hxy.elim
    | exact hyz.elim
    | exact Eq.trans hxy hyz
    | exact ⟨_, hxy, hyz⟩

theorem Agree.symm {Q : ρ → ρ' → Prop} {x : Except ε ρ} {y : Except ε ρ'}
    (hxy : Agree Q x y) : Agree (fun b a => Q a b) y x := by
  cases x <;> cases y
  · exact Eq.symm hxy
  · exact hxy
  · exact hxy
  · exact hxy

/-- A last step that cannot fail may be left out of the comparison. -/
theorem Agree.of_bind_pure {Q : ρ → β → Prop} {x : Except ε ρ}
    {y : Except ε ρ'} {g : ρ' → β}
    (h : Agree Q x (do let b ← y; pure (g b))) :
    Agree (fun a b => Q a (g b)) x y := by
  cases y with
  | error e => cases x <;> exact h
  | ok b => cases x <;> exact h

/-- What one side computed, the other computed too. -/
theorem Agree.ok_left {Q : ρ → ρ' → Prop} {a : ρ} {y : Except ε ρ'}
    (h : Agree Q (.ok a) y) : ∃ b, y = .ok b ∧ Q a b := by
  cases y with
  | error e => exact h.elim
  | ok b => exact ⟨b, rfl, h⟩

theorem Agree.ok_right {Q : ρ → ρ' → Prop} {x : Except ε ρ} {b : ρ'}
    (h : Agree Q x (.ok b)) : ∃ a, x = .ok a ∧ Q a b := by
  cases x with
  | error e => exact h.elim
  | ok a => exact ⟨a, rfl, h⟩

theorem Agree.error_right {Q : ρ → ρ' → Prop} {x : Except ε ρ} {e : ε}
    (h : Agree Q x (.error e)) : x = .error e := by
  cases x with
  | error e' => exact congrArg Except.error h
  | ok a => exact h.elim

/-- Two outcomes that agree look alike through functions that do. -/
theorem Agree.map_eq {f : ρ → β} {g : ρ' → β} {x : Except ε ρ}
    {y : Except ε ρ'} (h : Agree (fun a b => f a = g b) x y) :
    x.map f = y.map g := by
  cases x with
  | ok a =>
      obtain ⟨b, rfl, hb⟩ := h.ok_left
      exact congrArg Except.ok hb
  | error e =>
      cases y with
      | error e' => exact congrArg Except.error h
      | ok b => exact h.elim

/-- No failure of a given kind. -/
def Avoids (F : ε → Prop) : Except ε ρ → Prop
  | .ok _ => True
  | .error e => ¬ F e

theorem avoids_iff {F : ε → Prop} {x : Except ε ρ} :
    Avoids F x ↔ ∀ e, F e → x ≠ .error e := by
  cases x with
  | ok a => simp [Avoids]
  | error e =>
      constructor
      · intro h e' he' heq
        cases heq
        exact h he'
      · intro h he
        exact h e he rfl

/-- Avoiding every failure is answering. -/
theorem avoids_all_iff {x : Except ε ρ} :
    Avoids (fun _ => True) x ↔ ∃ a, x = .ok a := by
  cases x with
  | ok a => simp [Avoids]
  | error e => simp [Avoids]

theorem Agree.avoids_iff {Q : ρ → ρ' → Prop} {F : ε → Prop}
    {x : Except ε ρ} {y : Except ε ρ'} (h : Agree Q x y) :
    Avoids F x ↔ Avoids F y := by
  cases x with
  | ok a =>
      obtain ⟨b, rfl, -⟩ := h.ok_left
      exact Iff.rfl
  | error e =>
      cases y with
      | error e' => rw [show e = e' from h]; exact Iff.rfl
      | ok b => exact h.elim

/-- A last step that cannot fail does not matter. -/
theorem avoids_bind_pure {F : ε → Prop} {x : Except ε ρ} {g : ρ → β} :
    Avoids F (x >>= fun a => pure (g a)) ↔ Avoids F x := by
  cases x with
  | error e => exact Iff.rfl
  | ok a => exact Iff.rfl

/-! ## The loop -/

/-- Go round `step` until it leaves, for at most `n` rounds; `stuck` is the
error of a loop that is still going when the fuel is gone. -/
def loop (step : σ → Except ε (σ ⊕ ρ)) (stuck : ε) : Nat → σ → Except ε ρ
  | 0, _ => .error stuck
  | n + 1, s =>
      match step s with
      | .error e => .error e
      | .ok (.inr r) => .ok r
      | .ok (.inl s') => loop step stuck n s'

section

variable {step : σ → Except ε (σ ⊕ ρ)} {stuck : ε}

theorem loop_leave {n : Nat} {s : σ} {r : ρ} (h : step s = .ok (.inr r)) :
    loop step stuck (n + 1) s = .ok r := by rw [loop, h]

theorem loop_round {n : Nat} {s s' : σ} (h : step s = .ok (.inl s')) :
    loop step stuck (n + 1) s = loop step stuck n s' := by rw [loop, h]

end

/-- What every round keeps holds of the answer. -/
theorem loop_invariant {step : σ → Except ε (σ ⊕ ρ)} {stuck : ε}
    {I : σ → Prop} {Q : ρ → Prop}
    (hstep : ∀ s out, I s → step s = .ok out → Sum.elim I Q out) :
    ∀ (n : Nat) {s : σ} {r : ρ}, I s → loop step stuck n s = .ok r → Q r := by
  intro n
  induction n with
  | zero => intro s r _ h; cases h
  | succ n ih =>
      intro s r hs h
      rw [loop] at h
      cases hround : step s with
      | error e => rw [hround] at h; cases h
      | ok out =>
          rw [hround] at h
          cases out with
          | inl s' => exact ih (hstep s _ hs hround) h
          | inr r' =>
              cases h
              exact hstep s _ hs hround

/-- What one round of two related loops may do: fail alike, leave with related
values, or go round in related states. -/
def RoundAgree (R : σ → σ' → Prop) (Q : ρ → ρ' → Prop) :
    σ ⊕ ρ → σ' ⊕ ρ' → Prop
  | .inl s, .inl t => R s t
  | .inr a, .inr b => Q a b
  | _, _ => False

/-- Two loops in lockstep. -/
theorem loop_rel {step : σ → Except ε (σ ⊕ ρ)}
    {step' : σ' → Except ε (σ' ⊕ ρ')} {stuck : ε} {R : σ → σ' → Prop}
    {Q : ρ → ρ' → Prop}
    (hstep : ∀ s t, R s t → Agree (RoundAgree R Q) (step s) (step' t)) :
    ∀ n (s : σ) (t : σ'), R s t →
      Agree Q (loop step stuck n s) (loop step' stuck n t) := by
  intro n
  induction n with
  | zero => intro s t _; exact rfl
  | succ n ih =>
      intro s t hst
      have h := hstep s t hst
      rw [loop, loop]
      cases hs : step s with
      | error e =>
          rw [hs] at h
          cases ht : step' t with
          | error e' => rw [ht] at h; exact h
          | ok out => rw [ht] at h; exact h.elim
      | ok out =>
          rw [hs] at h
          cases ht : step' t with
          | error e' => rw [ht] at h; exact h.elim
          | ok out' =>
              rw [ht] at h
              cases out <;> cases out'
              · exact ih _ _ h
              · exact h.elim
              · exact h.elim
              · exact h

end TinyWebServer.Lib
