import Mathlib.Data.List.Infix
import Mathlib.Tactic.Common

/-!
# Lexical resolution of relative paths

A path is a list of components: names, steps up, and components that do
nothing (`.` and the empty one between two slashes). Resolving it lexically
keeps a stack: a name is pushed, a step up pops a name if there is one on top
and is kept otherwise. A path lies inside another when its resolution starts
with the other's.

For a base of the shape `../w` the stack is more than is needed. `Walk` keeps
only how deep the path is below the parent, and whether the name it came down
by was `w`; `inside_iff_walk` says that this decides containment. Once a path
has gone above the parent it cannot come back, because the names up there are
not in it.
-/

namespace TinyWebServer.Lib

inductive Comp (α : Type _) where
  | skip
  | up
  | name (a : α)
  deriving DecidableEq, Repr

namespace Comp

variable {α : Type _}

/-- One component taken on the stack, the last one on top; `none` is a step up
that stayed. -/
def push (stack : List (Option α)) : Comp α → List (Option α)
  | .skip => stack
  | .up =>
      match stack with
      | some _ :: rest => rest
      | _ => none :: stack
  | .name a => some a :: stack

def resolve (path : List (Comp α)) : List (Option α) := path.foldl push []

/-- The resolved path starts with the resolved base. -/
def Inside (base path : List (Comp α)) : Prop := resolve base <:+ resolve path

/-- Where a path has got to, seen from the directory above `w`. -/
inductive Walk where
  -- Above that directory.
  | lost
  | parent
  -- That many levels below a child of it, which is `w` or is not.
  | below (depth : Nat) (home : Bool)
  deriving DecidableEq, Repr

variable [DecidableEq α] (w : α)

def Walk.step : Walk → Comp α → Walk
  | st, .skip => st
  | .lost, _ => .lost
  | .parent, .up => .lost
  | .parent, .name a => .below 0 (a = w)
  | .below 0 _, .up => .parent
  | .below (depth + 1) home, .up => .below depth home
  | .below depth home, .name _ => .below (depth + 1) home

/-- The walk along a path that starts in the directory above `w`. -/
def walk (path : List (Comp α)) : Walk := path.foldl (Walk.step w) .parent

/-- At `w` or below it. -/
def Walk.AtHome : Walk → Prop
  | .below _ true => True
  | _ => False

instance : DecidablePred Walk.AtHome
  | .lost => isFalse id
  | .parent => isFalse id
  | .below _ true => isTrue trivial
  | .below _ false => isFalse id

/-! ## The walk follows the stack -/

/-- What the walk knows about the stack. -/
def Tracks (stack : List (Option α)) : Walk → Prop
  | .lost => [none, none] <:+ stack
  | .parent => stack = [none]
  | .below depth home => ∃ (names : List α) (a : α),
      stack = names.map some ++ [some a, none] ∧ names.length = depth ∧
        (home = true ↔ a = w)

theorem tracks_step {stack : List (Option α)} {st : Walk} (c : Comp α)
    (h : Tracks w stack st) : Tracks w (push stack c) (st.step w c) := by
  cases c with
  | skip => cases st <;> exact h
  | up =>
      cases st with
      | lost =>
          obtain ⟨front, rfl⟩ := h
          show [none, none] <:+ push (front ++ [none, none]) .up
          match front with
          | [] => exact ⟨[none], rfl⟩
          | some a :: front => exact ⟨front, rfl⟩
          | none :: front => exact ⟨none :: none :: front, rfl⟩
      | parent =>
          cases h
          exact ⟨[], rfl⟩
      | below depth home =>
          obtain ⟨names, a, rfl, hdepth, hhome⟩ := h
          match names with
          | [] =>
              cases hdepth
              rfl
          | b :: names =>
              cases hdepth
              exact ⟨names, a, rfl, rfl, hhome⟩
  | name b =>
      cases st with
      | lost => exact h.trans (List.suffix_cons _ _)
      | parent =>
          cases h
          exact ⟨[], b, rfl, rfl, decide_eq_true_iff⟩
      | below depth home =>
          obtain ⟨names, a, rfl, hdepth, hhome⟩ := h
          refine ⟨b :: names, a, rfl, ?_, hhome⟩
          rw [List.length_cons, hdepth]

theorem tracks_walk (path : List (Comp α)) {stack : List (Option α)}
    {st : Walk} (h : Tracks w stack st) :
    Tracks w (path.foldl push stack) (path.foldl (Walk.step w) st) := by
  induction path generalizing stack st with
  | nil => exact h
  | cons c path ih => exact ih (tracks_step w c h)

/-- A list has one suffix of each length. -/
theorem suffix_iff_eq {β : Type _} {l s : List β} (l' : List β) (h : l <:+ s)
    (hlen : l'.length = l.length) : l' <:+ s ↔ l' = l := by
  refine ⟨fun h' => ?_, fun heq => heq ▸ h⟩
  exact (List.suffix_of_suffix_length_le h' h hlen.le).eq_of_length hlen

omit [DecidableEq α] in
/-- A stack that is being tracked ends in `../w` exactly when the walk is at
home. -/
theorem Tracks.inside_iff {stack : List (Option α)} {st : Walk}
    (h : Tracks w stack st) : [some w, none] <:+ stack ↔ st.AtHome := by
  cases st with
  | lost =>
      rw [suffix_iff_eq [some w, none] h rfl]
      exact iff_of_false (by simp) id
  | parent =>
      cases h
      refine iff_of_false (fun hin => ?_) id
      exact absurd hin.length_le (by simp)
  | below depth home =>
      obtain ⟨names, a, rfl, -, hhome⟩ := h
      have hend : [some a, none] <:+ names.map some ++ [some a, none] :=
        List.suffix_append _ _
      rw [suffix_iff_eq [some w, none] hend rfl]
      cases home with
      | true => simp [Walk.AtHome, hhome.mp rfl]
      | false =>
          have hne : a ≠ w := fun heq => by simpa using hhome.mpr heq
          simpa [Walk.AtHome] using hne.symm

/-- A path that starts with a step up lies inside `../w` exactly when the walk
along the rest of it ends at home. -/
theorem inside_iff_walk (path : List (Comp α)) :
    Inside [.up, .name w] (.up :: path) ↔ (walk w path).AtHome := by
  have hstart : Tracks w [none] .parent := rfl
  exact (tracks_walk w path hstart).inside_iff

theorem walk_append_skip (path : List (Comp α)) :
    walk w (path ++ [.skip]) = walk w path := by
  rw [walk, List.foldl_append]
  cases h : path.foldl (Walk.step w) .parent <;> simp [walk, Walk.step, h]

/-- Going down one more level does not change which child the path is in. -/
theorem walk_append_name {a : α} (ha : a ≠ w) (path : List (Comp α)) :
    (walk w (path ++ [.name a])).AtHome ↔ (walk w path).AtHome := by
  rw [walk, walk, List.foldl_append]
  cases path.foldl (Walk.step w) .parent with
  | lost => exact Iff.rfl
  | parent => simp [Walk.step, Walk.AtHome, ha]
  | below depth home => cases home <;> exact Iff.rfl

end Comp

end TinyWebServer.Lib
