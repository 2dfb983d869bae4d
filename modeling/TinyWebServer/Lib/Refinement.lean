import TinyWebServer.Lib.Transition

/-!
# One system inside another

What an onlooker sees of a step is a list of events: none if the step is
internal, one or more otherwise. `observed` carries what was seen so far along
with the state. A simulation answers every step of a system with a run of a
more abstract one on the events that were seen of it; then everything that is
ever seen of the first is seen of some run of the second, and what holds of
the second's runs holds of the first's.

The abstract system may be quite another machine, with the events as its
labels, or the same machine with fewer details, each step being seen as the
steps of that machine it stands for.
-/

namespace TinyWebServer.Lib

namespace TransitionSystem

variable {σ τ l o : Type _}

/-- From one state to another by the given labels. -/
inductive Run (S : TransitionSystem σ l) : σ → List l → σ → Prop where
  | nil (s : σ) : Run S s [] s
  | snoc {s t u : σ} {as : List l} {a : l} : Run S s as t → S.step t a u →
      Run S s (as ++ [a]) u

section

variable {S : TransitionSystem σ l}

theorem Run.single {s t : σ} {a : l} (h : S.step s a t) : S.Run s [a] t :=
  .snoc (.nil s) h

theorem Run.append {s t u : σ} {as bs : List l} (h : S.Run s as t)
    (h' : S.Run t bs u) : S.Run s (as ++ bs) u := by
  induction h' with
  | nil => rwa [List.append_nil]
  | snoc _ hstep ih =>
      rw [← List.append_assoc]
      exact .snoc ih hstep

theorem Run.reachable {s t : σ} {as : List l} (hs : S.Reachable s)
    (h : S.Run s as t) : S.Reachable t := by
  induction h with
  | nil => exact hs
  | snoc _ hstep ih => exact ih.next hstep

/-- What a step keeps, and adds to a record of the labels, a run keeps. -/
theorem Run.invariant {s t : σ} {as : List l} {I : List l → σ → Prop}
    (hstart : I [] s)
    (hstep : ∀ as t a u, I as t → S.step t a u → I (as ++ [a]) u)
    (h : S.Run s as t) : I as t := by
  induction h with
  | nil => exact hstart
  | snoc _ hlast ih => exact hstep _ _ _ _ ih hlast

end

/-- The system together with what was seen of it. -/
def observed (S : TransitionSystem σ l) (see : σ → l → σ → List o) :
    TransitionSystem (σ × List o) l where
  init s := S.init s.1 ∧ s.2 = []
  step s a t := S.step s.1 a t.1 ∧ t.2 = s.2 ++ see s.1 a t.1

variable {S : TransitionSystem σ l} {A : TransitionSystem τ o}
  {see : σ → l → σ → List o} {R : σ → τ → Prop}

theorem Reachable.of_observed {s : σ × List o}
    (hs : (S.observed see).Reachable s) : S.Reachable s.1 := by
  induction hs with
  | start h => exact .start h.1
  | next _ h ih => exact ih.next h.1

/-- An onlooker gets in nobody's way. -/
theorem Reachable.observed {s : σ} (hs : S.Reachable s)
    (see : σ → l → σ → List o) :
    ∃ seen, (S.observed see).Reachable (s, seen) := by
  induction hs with
  | start h => exact ⟨[], .start ⟨h, rfl⟩⟩
  | @next s t a _ h ih =>
      obtain ⟨seen, hseen⟩ := ih
      exact ⟨seen ++ see s a t, hseen.next (a := a) ⟨h, rfl⟩⟩

/-- One more step, and what is seen of it. -/
theorem Reachable.next_observed {ok : σ → l → Prop} {s t : σ} {a : l}
    {seen : List o} (hs : ((S.restrict ok).observed see).Reachable (s, seen))
    (hstep : S.step s a t) (hok : ok s a) :
    ((S.restrict ok).observed see).Reachable (t, seen ++ see s a t) :=
  hs.next (a := a) ⟨⟨hok, hstep⟩, rfl⟩

theorem Reachable.next_unseen {ok : σ → l → Prop} {s t : σ} {a : l}
    {seen : List o} (hs : ((S.restrict ok).observed see).Reachable (s, seen))
    (hstep : S.step s a t) (hok : ok s a) (hnone : see s a t = []) :
    ((S.restrict ok).observed see).Reachable (t, seen) := by
  have hnext := hs.next_observed hstep hok
  rwa [hnone, List.append_nil] at hnext

/-- Fewer steps are asked for. -/
theorem Reachable.mono_observed {ok ok' : σ → l → Prop}
    (hok : ∀ s a, ok s a → ok' s a) {s : σ × List o}
    (hs : ((S.restrict ok).observed see).Reachable s) :
    ((S.restrict ok').observed see).Reachable s := by
  induction hs with
  | start h => exact .start h
  | next _ h ih => exact ih.next ⟨⟨hok _ _ h.1.1, h.1.2⟩, h.2⟩

/-- `R` ties the states of `S` to states of `A` that can do what is seen. -/
structure Simulates (S : TransitionSystem σ l) (see : σ → l → σ → List o)
    (A : TransitionSystem τ o) (R : σ → τ → Prop) : Prop where
  init : ∀ s, S.init s → ∃ x, A.init x ∧ R s x
  step : ∀ s a t x, S.Reachable s → R s x → S.step s a t →
    ∃ y, A.Run x (see s a t) y ∧ R t y

theorem Simulates.run (h : Simulates S see A R) {s : σ × List o}
    (hs : (S.observed see).Reachable s) :
    ∃ x y, A.init x ∧ A.Run x s.2 y ∧ R s.1 y := by
  induction hs with
  | start hinit =>
      obtain ⟨x, hx, hr⟩ := h.init _ hinit.1
      rw [hinit.2]
      exact ⟨x, x, hx, .nil x, hr⟩
  | next hprev hstep ih =>
      obtain ⟨x, y, hx, hrun, hr⟩ := ih
      obtain ⟨z, hmore, hz⟩ := h.step _ _ _ _ hprev.of_observed hr hstep.1
      rw [hstep.2]
      exact ⟨x, z, hx, hrun.append hmore, hz⟩

/-- What every state of the abstract system has, some state of it has that
the concrete one stands for. -/
theorem Simulates.reachable (h : Simulates S see A R) {s : σ}
    (hs : S.Reachable s) : ∃ x, A.Reachable x ∧ R s x := by
  obtain ⟨seen, hseen⟩ := hs.observed see
  obtain ⟨x, y, hx, hrun, hr⟩ := h.run hseen
  exact ⟨y, hrun.reachable (.start hx), hr⟩

end TransitionSystem

end TinyWebServer.Lib
