import TinyWebServer.Lib.Refinement

/-!
# Systems that come to rest

A potential is a number that every step brings down. With one, no run is
longer than the potential it starts with, so that the system cannot go on for
ever by itself, and from every state some run leads to one in which nothing
can happen any more. What such a state looks like is for the system to say.

Steps that wait for the world are left out with `restrict` first; the
potential need only come down from the states the whole system gets to.
-/

namespace TinyWebServer.Lib

namespace TransitionSystem

variable {σ l : Type _} {S : TransitionSystem σ l} {ok : σ → l → Prop}

/-- Nothing more happens. -/
def Final (S : TransitionSystem σ l) (s : σ) : Prop := ∀ a t, ¬ S.step s a t

theorem Run.of_restrict {s t : σ} {as : List l}
    (h : (S.restrict ok).Run s as t) : S.Run s as t := by
  induction h with
  | nil => exact .nil s
  | snoc _ hstep ih => exact .snoc ih hstep.2

/-- Every step of the kind `ok` brings `m` down. -/
def Potential (S : TransitionSystem σ l) (ok : σ → l → Prop) (m : σ → Nat) :
    Prop :=
  ∀ s a t, S.Reachable s → ok s a → S.step s a t → m t < m s

variable {m : σ → Nat}

theorem Run.length_le (hm : S.Potential ok m) {s t : σ} {as : List l}
    (hs : S.Reachable s) (h : (S.restrict ok).Run s as t) :
    as.length + m t ≤ m s := by
  induction h with
  | nil => simp
  | snoc hrun hstep ih =>
      have hdown := hm _ _ _ (hrun.of_restrict.reachable hs) hstep.1 hstep.2
      rw [List.length_append, List.length_singleton]
      omega

theorem exists_final (hm : S.Potential ok m) {s : σ} (hs : S.Reachable s) :
    ∃ as t, (S.restrict ok).Run s as t ∧ (S.restrict ok).Final t := by
  induction hn : m s using Nat.strongRecOn generalizing s with
  | ind n ih =>
      by_cases hfinal : (S.restrict ok).Final s
      · exact ⟨[], s, .nil s, hfinal⟩
      · obtain ⟨a, t, hstep⟩ : ∃ a t, (S.restrict ok).step s a t := by
          simpa only [Final, not_forall, not_not] using hfinal
        have hdown := hm _ _ _ hs hstep.1 hstep.2
        obtain ⟨as, u, hrun, hu⟩ := ih (m t) (by omega) (hs.next hstep.2) rfl
        exact ⟨[a] ++ as, u, (Run.single hstep).append hrun, hu⟩

end TransitionSystem

end TinyWebServer.Lib
