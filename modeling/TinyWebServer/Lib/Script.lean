/-!
# Programs as trees of calls

A function that does nothing but call out and look at the answers is a tree:
it has returned, or it makes one call and goes on as the answer says. What the
callees do is left open, so the same tree can be run against answers fixed
beforehand, or a call at a time between the steps of other threads.

`Script.Follows` is a discipline on such a function that can be checked on its
text alone, once for every answer: each call is allowed by what was called and
answered so far, and what was called and answered up to the return is as it
should be. Whoever runs the function a call at a time keeps it.
`Script.Within` bounds the calls in the same way.
-/

namespace TinyWebServer.Lib

/-- A program over the calls `Op`, where a call `op` is answered in
`Ans op`. -/
inductive Script (Op : Type) (Ans : Op → Type) (α : Type) where
  | ret (a : α)
  | call (op : Op) (k : Ans op → Script Op Ans α)

namespace Script

variable {Op : Type} {Ans : Op → Type} {α β : Type}

def bind : Script Op Ans α → (α → Script Op Ans β) → Script Op Ans β
  | .ret a, f => f a
  | .call op k, f => .call op fun ans => (k ans).bind f

instance : Monad (Script Op Ans) where
  pure := .ret
  bind := bind

/-- The answer to a script when every call has its answer beforehand. -/
def run (answer : (op : Op) → Ans op) : Script Op Ans α → α
  | .ret a => a
  | .call op k => (k (answer op)).run answer

/-- The calls made on the way. -/
def calls (answer : (op : Op) → Ans op) : Script Op Ans α → List Op
  | .ret _ => []
  | .call op k => op :: (k (answer op)).calls answer

theorem run_bind (answer : (op : Op) → Ans op) (s : Script Op Ans α)
    (f : α → Script Op Ans β) :
    (s >>= f).run answer = (f (s.run answer)).run answer := by
  induction s with
  | ret a => rfl
  | call op k ih => exact ih (answer op)

theorem calls_bind (answer : (op : Op) → Ans op) (s : Script Op Ans α)
    (f : α → Script Op Ans β) :
    (s >>= f).calls answer
      = s.calls answer ++ (f (s.run answer)).calls answer := by
  induction s with
  | ret a => rfl
  | call op k ih => exact congrArg (op :: ·) (ih (answer op))

/-- A call and its answer. -/
structure Event (Op : Type) (Ans : Op → Type) where
  op : Op
  ans : Ans op

/-- What a record of calls says is read off it by `filterMap`; one more call
adds at most one entry. -/
theorem filterMap_snoc (made : List (Event Op Ans)) (e : Event Op Ans)
    (f : Event Op Ans → Option β) :
    (made ++ [e]).filterMap f = made.filterMap f ++ (f e).toList := by
  rw [List.filterMap_append]
  cases h : f e with
  | none => rw [List.filterMap_cons_none h, List.filterMap_nil, Option.toList]
  | some b => rw [List.filterMap_cons_some h, List.filterMap_nil, Option.toList]

/-- After the calls `done`, the script makes only calls that are `allowed`,
and returns with calls that are `final`, whatever the answers, as long as each
is `possible`. -/
def Follows (allowed : List (Event Op Ans) → Op → Prop)
    (possible : Event Op Ans → Prop) (final : List (Event Op Ans) → Prop) :
    List (Event Op Ans) → Script Op Ans α → Prop
  | done, .ret _ => final done
  | done, .call op k => allowed done op ∧ ∀ ans, possible ⟨op, ans⟩ →
      Follows allowed possible final (done ++ [⟨op, ans⟩]) (k ans)

/-- One call, and then what its answer leads to. -/
theorem Follows.ask {allowed : List (Event Op Ans) → Op → Prop}
    {possible : Event Op Ans → Prop} {final : List (Event Op Ans) → Prop}
    {done : List (Event Op Ans)} {op : Op} {f : Ans op → Script Op Ans α}
    (hop : allowed done op)
    (h : ∀ ans, possible ⟨op, ans⟩ →
      Follows allowed possible final (done ++ [⟨op, ans⟩]) (f ans)) :
    Follows allowed possible final done (Script.call op .ret >>= f) :=
  ⟨hop, h⟩

/-- The script returns after at most that many calls, whatever is
answered. -/
def Within : Nat → Script Op Ans α → Prop
  | _, .ret _ => True
  | 0, .call _ _ => False
  | n + 1, .call _ k => ∀ ans, Within n (k ans)

/-- A call that is still to come is counted. -/
theorem Within.call {n : Nat} {op : Op} {k : Ans op → Script Op Ans α}
    (h : (Script.call op k).Within n) :
    0 < n ∧ ∀ ans, (k ans).Within (n - 1) := by
  cases n with
  | zero => exact h.elim
  | succ n => exact ⟨Nat.succ_pos n, h⟩

/-- One call, and then what its answer leads to. -/
theorem Within.ask {n : Nat} {op : Op} {f : Ans op → Script Op Ans α}
    (h : ∀ ans, (f ans).Within n) :
    (Script.call op .ret >>= f).Within (n + 1) := h

end Script

end TinyWebServer.Lib
