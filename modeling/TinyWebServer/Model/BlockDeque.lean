import TinyWebServer.Lib.CondVar
import TinyWebServer.Lib.Transition

/-!
# `BlockDeque`

The bounded queue of the log: one mutex, and two condition variables, on which
`pop_front` waits for an item and `push_back` for a free slot. Both notify
with the lock held, so a step of either runs from taking the lock to giving it
up, by a wait or by a return. `Close` gives the lock up before it notifies
everybody, the consumers first; it is three steps, and other threads may come
in between.

`pop_front` looks at the status only when it comes out of a wait, `push_back`
never does, and `clear` notifies nobody.

Threads and items are of any type. `pushed` and `popped` are not in the
program: they record the items in the order of the lock. The two flags record
how far some `Close` has come.
-/

namespace TinyWebServer

open Lib

inductive DqStatus where
  | dqClose
  | dqOpen
  deriving DecidableEq, Repr

structure BlockDeque (T : Type) where
  capability : Nat
  status : DqStatus
  dq : List T

namespace BlockDeque

variable {T : Type}

def construct (cap : Nat) : BlockDeque T :=
  { capability := cap, status := .dqOpen, dq := [] }

/-- `push_back` with the lock: `none` is `producer.wait(lock)`. -/
def pushBack (d : BlockDeque T) (item : T) : Option (BlockDeque T) :=
  if d.capability ≤ d.dq.length then none
  else some { d with dq := d.dq ++ [item] }

/-- How `pop_front` gives the lock up. -/
inductive Pop (T : Type) where
  | wait -- `consumer.wait(lock)`
  | closed -- `return false`
  | item (x : T) (d : BlockDeque T)

/-- `pop_front` with the lock, on its call or, `woken`, out of a wait. -/
def popFront (d : BlockDeque T) (woken : Bool) : Pop T :=
  if woken = true ∧ d.status = .dqClose then .closed
  else match d.dq with
    | [] => .wait
    | x :: rest => .item x { d with dq := rest }

def clear (d : BlockDeque T) : BlockDeque T := { d with dq := [] }

/-- What `Close` does with the lock. -/
def close (d : BlockDeque T) : BlockDeque T :=
  { d.clear with status := .dqClose }

/-- Where a thread stands. In `Close`, `closing` is before the consumers are
notified and `closingProducers` is after that and before the producers are. -/
inductive Place (T : Type) where
  | outside
  | popAsleep
  | popNotified
  | pushAsleep (item : T)
  | pushNotified (item : T)
  | closing
  | closingProducers

namespace Place

/-- In `consumer.wait`, notified or not. -/
def popping : Place T → Bool
  | .popAsleep | .popNotified => true
  | .outside | .pushAsleep _ | .pushNotified _ | .closing
  | .closingProducers => false

/-- In `producer.wait`, notified or not, with this item to push. -/
def pushing : Place T → Option T
  | .pushAsleep item | .pushNotified item => some item
  | .outside | .popAsleep | .popNotified | .closing | .closingProducers => none

end Place

def consumer : CondVar (Place T) where
  wake
    | .popAsleep => some .popNotified
    | .outside | .popNotified | .pushAsleep _ | .pushNotified _ | .closing
    | .closingProducers => none
  notified
    | .popNotified => true
    | .outside | .popAsleep | .pushAsleep _ | .pushNotified _ | .closing
    | .closingProducers => false
  notified_of_wake {x y} h := by
    cases x with
    | popAsleep => cases h; rfl
    | _ => cases h
  wake_of_notified {x} h := by
    cases x with
    | popNotified => rfl
    | _ => cases h

def producer : CondVar (Place T) where
  wake
    | .pushAsleep item => some (.pushNotified item)
    | .outside | .popAsleep | .popNotified | .pushNotified _ | .closing
    | .closingProducers => none
  notified
    | .pushNotified _ => true
    | .outside | .popAsleep | .popNotified | .pushAsleep _ | .closing
    | .closingProducers => false
  notified_of_wake {x y} h := by
    cases x with
    | pushAsleep => cases h; rfl
    | _ => cases h
  wake_of_notified {x} h := by
    cases x with
    | pushNotified => rfl
    | _ => cases h

end BlockDeque

structure DequeSystem (Thread T : Type) where
  deque : BlockDeque T
  place : Thread → BlockDeque.Place T
  pushed : List T
  popped : List T
  -- A `Close` has notified the consumers; a `Close` has finished.
  consumersTold : Bool
  closed : Bool

inductive DequeLabel (Thread T : Type) where
  | callPush (t : Thread) (item : T)
  -- A thread in `producer.wait` runs again, notified or not.
  | wakePush (t : Thread)
  | callPop (t : Thread)
  | wakePop (t : Thread)
  | clear
  -- `Close`: its critical section, and its two notifications.
  | close (t : Thread)
  | notifyConsumers (t : Thread)
  | notifyProducers (t : Thread)

/-- A step of `push_back` or `pop_front`. -/
def DequeLabel.queueing {Thread T : Type} : DequeLabel Thread T → Bool
  | .callPush _ _ | .wakePush _ | .callPop _ | .wakePop _ => true
  | .clear | .close _ | .notifyConsumers _ | .notifyProducers _ => false

namespace DequeSystem

open BlockDeque

variable {Thread T : Type} [DecidableEq Thread]

def setPlace (s : DequeSystem Thread T) (t : Thread) (x : Place T) :
    DequeSystem Thread T :=
  { s with place := Function.update s.place t x }

inductive PushBack (s : DequeSystem Thread T) (t : Thread) (item : T) :
    DequeSystem Thread T → Prop where
  | wait : s.deque.pushBack item = none →
      PushBack s t item (s.setPlace t (.pushAsleep item))
  | push {d place} : s.deque.pushBack item = some d →
      consumer.NotifyOne (s.setPlace t .outside).place place →
      PushBack s t item
        { s with deque := d, place, pushed := s.pushed ++ [item] }

inductive PopFront (s : DequeSystem Thread T) (t : Thread) (woken : Bool) :
    DequeSystem Thread T → Prop where
  | wait : s.deque.popFront woken = .wait →
      PopFront s t woken (s.setPlace t .popAsleep)
  | closed : s.deque.popFront woken = .closed →
      PopFront s t woken (s.setPlace t .outside)
  | item {x d place} : s.deque.popFront woken = .item x d →
      producer.NotifyOne (s.setPlace t .outside).place place →
      PopFront s t woken
        { s with deque := d, place, popped := s.popped ++ [x] }

inductive Step : DequeSystem Thread T → DequeLabel Thread T →
    DequeSystem Thread T → Prop where
  | callPush {s s'} (t : Thread) (item : T) : s.place t = .outside →
      PushBack s t item s' → Step s (.callPush t item) s'
  | wakePush {s s' item} (t : Thread) : (s.place t).pushing = some item →
      PushBack s t item s' → Step s (.wakePush t) s'
  | callPop {s s'} (t : Thread) : s.place t = .outside →
      PopFront s t false s' → Step s (.callPop t) s'
  | wakePop {s s'} (t : Thread) : (s.place t).popping = true →
      PopFront s t true s' → Step s (.wakePop t) s'
  | clear {s} : Step s .clear { s with deque := s.deque.clear }
  | close {s} (t : Thread) : s.place t = .outside →
      Step s (.close t) ({ s with deque := s.deque.close }.setPlace t .closing)
  | notifyConsumers {s} (t : Thread) : s.place t = .closing →
      Step s (.notifyConsumers t)
        ({ s with
            place := consumer.notifyAll s.place
            consumersTold := true }.setPlace t .closingProducers)
  | notifyProducers {s} (t : Thread) : s.place t = .closingProducers →
      Step s (.notifyProducers t)
        ({ s with
            place := producer.notifyAll s.place
            closed := true }.setPlace t .outside)

/-- Every run of a deque of capacity `cap`, from its constructor on. -/
def system (cap : Nat) : TransitionSystem (DequeSystem Thread T)
    (DequeLabel Thread T) where
  init s := s.deque = .construct cap ∧ (∀ t, s.place t = .outside) ∧
    s.pushed = [] ∧ s.popped = [] ∧ s.consumersTold = false ∧
    s.closed = false
  step := Step

/-- The runs without `clear` and `Close`. -/
def Queueing (_ : DequeSystem Thread T) (a : DequeLabel Thread T) : Prop :=
  a.queueing = true

end DequeSystem

end TinyWebServer
