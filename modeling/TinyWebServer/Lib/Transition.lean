import Mathlib.Tactic.Common

/-!
# Transition systems and what holds in every reachable state

A concurrent program is a set of initial states and a labelled step relation
that interleaves its parties. `Reachable` is every state some run gets to, and
`Reachable.invariant` is the one induction over runs: what holds initially and
is kept by every step holds in all of them.

`restrict` keeps the steps that meet a condition on the state before and the
label, so that a statement about "every run whose steps all meet the
condition" is a statement about the reachable states of another system.
`startIn` makes such a system of what can happen from given states on.
-/

namespace TinyWebServer.Lib

structure TransitionSystem (σ l : Type _) where
  init : σ → Prop
  step : σ → l → σ → Prop

namespace TransitionSystem

variable {σ l : Type _} {S : TransitionSystem σ l}

inductive Reachable (S : TransitionSystem σ l) : σ → Prop where
  | start {s : σ} : S.init s → Reachable S s
  | next {s t : σ} {a : l} : Reachable S s → S.step s a t → Reachable S t

theorem Reachable.invariant {I : σ → Prop} (hinit : ∀ s, S.init s → I s)
    (hstep : ∀ s a t, S.Reachable s → I s → S.step s a t → I t) {s : σ}
    (hs : S.Reachable s) : I s := by
  induction hs with
  | start h => exact hinit _ h
  | next hr h ih => exact hstep _ _ _ hr ih h

/-- The same system with only the steps that meet `ok`. -/
def restrict (S : TransitionSystem σ l) (ok : σ → l → Prop) :
    TransitionSystem σ l where
  init := S.init
  step s a t := ok s a ∧ S.step s a t

theorem Reachable.next_restrict {ok : σ → l → Prop} {s t : σ} {a : l}
    (hs : (S.restrict ok).Reachable s) (hstep : S.step s a t)
    (hok : ok s a) : (S.restrict ok).Reachable t :=
  hs.next ⟨hok, hstep⟩

theorem Reachable.of_restrict {ok : σ → l → Prop} {s : σ}
    (hs : (S.restrict ok).Reachable s) : S.Reachable s := by
  induction hs with
  | start h => exact .start h
  | next _ h ih => exact .next ih h.2

/-- The same system, started in other states. -/
def startIn (S : TransitionSystem σ l) (start : σ → Prop) :
    TransitionSystem σ l where
  init := start
  step := S.step

theorem Reachable.of_startIn {start : σ → Prop}
    (hstart : ∀ s, start s → S.Reachable s) {s : σ}
    (hs : (S.startIn start).Reachable s) : S.Reachable s := by
  induction hs with
  | start h => exact hstart _ h
  | next _ h ih => exact ih.next h

end TransitionSystem

end TinyWebServer.Lib
