import TinyWebServer.Model.BlockDeque

/-!
# While it is open, `BlockDeque` is a bounded queue that wakes its waiters

Without `clear` and `Close` the deque is only touched by `push_back` and
`pop_front`, and both are settled by what they do with the lock once. The
items popped followed by the items held are the items pushed, and there are
never more than the capacity: each test is made with the lock that the change
is made with, whoever ran in between.

The same two operations keep both condition variables covered: the items by
the notified consumers, the free slots by the notified producers. A push takes
a slot and adds an item, a pop the other way round, so each of them is one
`take` for one variable and one notification for the other; and a thread goes
to sleep only with nothing left to cover on its own side.
-/

namespace TinyWebServer

open Lib BlockDeque

namespace BlockDeque

variable {T : Type}

theorem pushBack_none {d : BlockDeque T} {item : T}
    (h : d.pushBack item = none) : d.capability ≤ d.dq.length := by
  rw [pushBack] at h
  split at h
  · next hfull => exact hfull
  · cases h

theorem pushBack_some {d d' : BlockDeque T} {item : T}
    (h : d.pushBack item = some d') :
    d.dq.length < d.capability ∧ d' = { d with dq := d.dq ++ [item] } := by
  rw [pushBack] at h
  split at h
  · cases h
  · next hfree =>
      cases h
      exact ⟨by omega, rfl⟩

theorem popFront_wait {d : BlockDeque T} {woken : Bool}
    (h : d.popFront woken = .wait) :
    d.dq = [] ∧ ¬ (woken = true ∧ d.status = .dqClose) := by
  rw [popFront] at h
  split at h
  · cases h
  · next hgo =>
      split at h
      · next hempty => exact ⟨hempty, hgo⟩
      · cases h

theorem popFront_closed {d : BlockDeque T} {woken : Bool}
    (h : d.popFront woken = .closed) : woken = true ∧ d.status = .dqClose := by
  rw [popFront] at h
  split at h
  · next hclosed => exact hclosed
  · split at h <;> cases h

theorem popFront_item {d d' : BlockDeque T} {woken : Bool} {x : T}
    (h : d.popFront woken = .item x d') :
    d.dq = x :: d'.dq ∧ d'.capability = d.capability ∧
      d'.status = d.status := by
  rw [popFront] at h
  split at h
  · cases h
  · split at h
    · cases h
    · next y rest hdq =>
        cases h
        exact ⟨hdq, rfl, rfl⟩

/-! ## The two condition variables -/

theorem consumer_apart : CondVar.Apart (consumer (T := T)) producer := by
  intro x y h
  cases x with
  | pushAsleep => cases h; exact ⟨rfl, rfl⟩
  | _ => cases h

theorem producer_apart : CondVar.Apart (producer (T := T)) consumer := by
  intro x y h
  cases x with
  | popAsleep => cases h; exact ⟨rfl, rfl⟩
  | _ => cases h

theorem asleep_consumer {x : Place T} :
    consumer.Asleep x ↔ x = .popAsleep := by
  cases x with
  | popAsleep => exact ⟨fun _ => rfl, fun _ => rfl⟩
  | _ => exact ⟨nofun, nofun⟩

theorem asleep_producer {x : Place T} :
    producer.Asleep x ↔ ∃ item, x = .pushAsleep item := by
  cases x with
  | pushAsleep item => exact ⟨fun _ => ⟨item, rfl⟩, fun _ => rfl⟩
  | _ => exact ⟨nofun, nofun⟩

theorem Place.consumer_of_pushing {x : Place T} {item : T}
    (h : x.pushing = some item) : consumer.notified x = false := by
  cases x with
  | pushAsleep | pushNotified => rfl
  | _ => cases h

theorem Place.producer_of_popping {x : Place T} (h : x.popping = true) :
    producer.notified x = false := by
  cases x with
  | popAsleep | popNotified => rfl
  | _ => cases h

end BlockDeque

namespace DequeSystem

variable {Thread T : Type} [DecidableEq Thread]

/-! ## A bounded queue -/

/-- The deque between what was pushed and what was popped. -/
structure Fifo (cap : Nat) (s : DequeSystem Thread T) : Prop where
  capability : s.deque.capability = cap
  bound : s.deque.dq.length ≤ cap
  order : s.popped ++ s.deque.dq = s.pushed

theorem PushBack.fifo {cap : Nat} {s s' : DequeSystem Thread T} {t : Thread}
    {item : T} (h : PushBack s t item s') (hs : s.Fifo cap) : s'.Fifo cap := by
  cases h with
  | wait => exact ⟨hs.capability, hs.bound, hs.order⟩
  | push hpush _ =>
      obtain ⟨hfree, rfl⟩ := pushBack_some hpush
      have hcap := hs.capability
      refine ⟨hcap, ?_, ?_⟩
      · show (s.deque.dq ++ [item]).length ≤ cap
        rw [List.length_append, List.length_singleton]
        omega
      · show s.popped ++ (s.deque.dq ++ [item]) = s.pushed ++ [item]
        rw [← List.append_assoc, hs.order]

theorem PopFront.fifo {cap : Nat} {s s' : DequeSystem Thread T} {t : Thread}
    {woken : Bool} (h : PopFront s t woken s') (hs : s.Fifo cap) :
    s'.Fifo cap := by
  cases h with
  | wait | closed => exact ⟨hs.capability, hs.bound, hs.order⟩
  | @item x d place hitem _ =>
      obtain ⟨hdq, hcap, -⟩ := popFront_item hitem
      have hbound := hs.bound
      rw [hdq, List.length_cons] at hbound
      refine ⟨hcap.trans hs.capability, ?_, ?_⟩
      · show d.dq.length ≤ cap
        omega
      · show s.popped ++ [x] ++ d.dq = s.pushed
        rw [List.append_assoc, ← hs.order, hdq]
        rfl

theorem fifo_reachable {cap : Nat} {s : DequeSystem Thread T}
    (hs : ((system cap).restrict Queueing).Reachable s) : s.Fifo cap := by
  refine hs.invariant (I := Fifo cap) ?_ ?_
  · rintro s ⟨hdeque, -, hpushed, hpopped, -, -⟩
    refine ⟨by rw [hdeque]; rfl, by rw [hdeque]; exact Nat.zero_le _, ?_⟩
    rw [hdeque, hpushed, hpopped]
    rfl
  · rintro s a s' - ih ⟨hq, hstep⟩
    cases hstep with
    | callPush _ _ _ h | wakePush _ _ h => exact h.fifo ih
    | callPop _ _ h | wakePop _ _ h => exact h.fifo ih
    | clear | close | notifyConsumers | notifyProducers => cases hq

/-- Whatever is popped was at the front. -/
theorem Step.popped {s s' : DequeSystem Thread T} {a : DequeLabel Thread T}
    (h : Step s a s') :
    s'.popped = s.popped ∨
      ∃ x rest, s.deque.dq = x :: rest ∧ s'.popped = s.popped ++ [x] := by
  cases h with
  | callPush _ _ _ h | wakePush _ _ h => cases h <;> exact .inl rfl
  | callPop _ _ h | wakePop _ _ h =>
      cases h with
      | wait | closed => exact .inl rfl
      | item hitem _ => exact .inr ⟨_, _, (popFront_item hitem).1, rfl⟩
  | clear | close | notifyConsumers | notifyProducers => exact .inl rfl

/-- For every capacity and every interleaving of `push_back` and `pop_front`:
at most `_capability` items, the items popped and the items held are the items
pushed, in the order of the lock, and nothing is popped off an empty deque. -/
theorem deque_bounded_fifo {cap : Nat} {s : DequeSystem Thread T}
    (hs : ((system cap).restrict Queueing).Reachable s) :
    s.deque.dq.length ≤ s.deque.capability ∧
    s.popped ++ s.deque.dq = s.pushed ∧
    ∀ a s', Step s a s' → s'.popped = s.popped ∨
      ∃ x rest, s.deque.dq = x :: rest ∧ s'.popped = s.popped ++ [x] := by
  have hinv := fifo_reachable hs
  refine ⟨?_, hinv.order, fun a s' hstep => hstep.popped⟩
  rw [hinv.capability]
  exact hinv.bound

/-- One slot and three threads: `0` has filled the slot, `1` sleeps for it,
and `2` has popped and notified `1`. -/
def contended : DequeSystem (Fin 3) Nat :=
  { deque := ⟨1, .dqOpen, []⟩
    place := Function.update (Function.update (Function.update
      (Function.update (fun _ => .outside) 0 .outside) 1 (.pushAsleep 8))
        2 .outside) 1 (.pushNotified 8)
    pushed := [7], popped := [7], consumersTold := false, closed := false }

theorem contended_reachable :
    ((system 1).restrict Queueing).Reachable contended := by
  have hstart : ((system 1).restrict Queueing).Reachable
      (⟨.construct 1, fun _ => .outside, [], [], false, false⟩ :
        DequeSystem (Fin 3) Nat) :=
    .start ⟨rfl, fun _ => rfl, rfl, rfl, rfl, rfl⟩
  have hfull := (hstart.next_restrict
    (.callPush 0 7 rfl (.push rfl (.nobody (by decide)))) rfl).next_restrict
      (.callPush 1 8 rfl (.wait rfl)) rfl
  exact hfull.next_restrict
    (.callPop 2 rfl (.item rfl (.sleeper (i := 1) rfl))) rfl

/-- In `contended` a second push of `0` takes the slot `1` was notified for. -/
theorem deque_bounded_fifo_one :
    let s : DequeSystem (Fin 3) Nat :=
      { contended with
        deque := ⟨1, .dqOpen, [9]⟩
        place := Function.update contended.place 0 .outside
        pushed := [7, 9] }
    s.deque.dq.length ≤ s.deque.capability ∧
    s.popped ++ s.deque.dq = s.pushed ∧
    ∀ a s', Step s a s' → s'.popped = s.popped ∨
      ∃ x rest, s.deque.dq = x :: rest ∧ s'.popped = s.popped ++ [x] := by
  intro s
  have hs : ((system 1).restrict Queueing).Reachable s :=
    contended_reachable.next_restrict
      (.callPush 0 9 rfl (.push rfl (.nobody (by decide)))) rfl
  exact deque_bounded_fifo hs

/-! ## No wake-up is lost -/

theorem PushBack.status {s s' : DequeSystem Thread T} {t : Thread} {item : T}
    (h : PushBack s t item s') : s'.deque.status = s.deque.status := by
  cases h with
  | wait => rfl
  | push hpush _ =>
      obtain ⟨-, rfl⟩ := pushBack_some hpush
      rfl

theorem PopFront.status {s s' : DequeSystem Thread T} {t : Thread}
    {woken : Bool} (h : PopFront s t woken s') :
    s'.deque.status = s.deque.status := by
  cases h with
  | wait | closed => rfl
  | item hitem _ => exact (popFront_item hitem).2.2

def freeSlots (s : DequeSystem Thread T) : Nat :=
  s.deque.capability - s.deque.dq.length

variable [Fintype Thread]

def ConsumersCovered (s : DequeSystem Thread T) : Prop :=
  consumer.Covered s.place s.deque.dq.length

def ProducersCovered (s : DequeSystem Thread T) : Prop :=
  producer.Covered s.place s.freeSlots

theorem PushBack.consumersCovered {s s' : DequeSystem Thread T} {t : Thread}
    {item : T} (h : PushBack s t item s')
    (ht : consumer.notified (s.place t) = false) (hs : s.ConsumersCovered) :
    s'.ConsumersCovered := by
  cases h with
  | wait => exact hs.move ht rfl
  | push hpush hone =>
      obtain ⟨-, rfl⟩ := pushBack_some hpush
      have hmoved := (hs.move ht (y := Place.outside) rfl).notifyOne hone
      refine hmoved.mono ?_
      show (s.deque.dq ++ [item]).length ≤ _
      rw [List.length_append, List.length_singleton]

theorem PushBack.producersCovered {s s' : DequeSystem Thread T} {t : Thread}
    {item : T} (h : PushBack s t item s') (hs : s.ProducersCovered) :
    s'.ProducersCovered := by
  cases h with
  | wait hwait =>
      -- A producer goes to sleep only when there is no slot.
      have hfull := pushBack_none hwait
      have hzero : s.freeSlots = 0 := by rw [freeSlots]; omega
      show producer.Covered _ s.freeSlots
      rw [hzero]
      exact .zero
  | push hpush hone =>
      obtain ⟨-, rfl⟩ := pushBack_some hpush
      have htaken := (hs.take (y := Place.outside) rfl).apart producer_apart
        hone
      refine htaken.mono ?_
      show s.deque.capability - (s.deque.dq ++ [item]).length
        ≤ s.deque.capability - s.deque.dq.length - 1
      rw [List.length_append, List.length_singleton]
      omega

theorem PopFront.consumersCovered {s s' : DequeSystem Thread T} {t : Thread}
    {woken : Bool} (h : PopFront s t woken s')
    (hopen : s.deque.status = .dqOpen) (hs : s.ConsumersCovered) :
    s'.ConsumersCovered := by
  cases h with
  | wait hwait =>
      show consumer.Covered _ s.deque.dq.length
      rw [(popFront_wait hwait).1]
      exact .zero
  | closed hclosed =>
      have hstatus := (popFront_closed hclosed).2
      rw [hopen] at hstatus
      cases hstatus
  | @item x d place hitem hone =>
      have htaken := (hs.take (y := Place.outside) rfl).apart consumer_apart
        hone
      refine htaken.mono ?_
      show d.dq.length ≤ _
      rw [(popFront_item hitem).1, List.length_cons]
      omega

theorem PopFront.producersCovered {s s' : DequeSystem Thread T} {t : Thread}
    {woken : Bool} (h : PopFront s t woken s')
    (ht : producer.notified (s.place t) = false) (hs : s.ProducersCovered) :
    s'.ProducersCovered := by
  cases h with
  | wait | closed => exact hs.move ht rfl
  | @item x d place hitem hone =>
      obtain ⟨hdq, hcap, -⟩ := popFront_item hitem
      have hmoved := (hs.move ht (y := Place.outside) rfl).notifyOne hone
      refine hmoved.mono ?_
      show d.capability - d.dq.length
        ≤ s.deque.capability - s.deque.dq.length + 1
      rw [hdq, List.length_cons, hcap]
      omega

/-- Open, and covered on both sides. -/
structure Wakeful (s : DequeSystem Thread T) : Prop where
  opened : s.deque.status = .dqOpen
  consumers : s.ConsumersCovered
  producers : s.ProducersCovered

theorem PushBack.wakeful {s s' : DequeSystem Thread T} {t : Thread} {item : T}
    (h : PushBack s t item s') (ht : consumer.notified (s.place t) = false)
    (hs : s.Wakeful) : s'.Wakeful :=
  ⟨h.status.trans hs.opened, h.consumersCovered ht hs.consumers,
    h.producersCovered hs.producers⟩

theorem PopFront.wakeful {s s' : DequeSystem Thread T} {t : Thread}
    {woken : Bool} (h : PopFront s t woken s')
    (ht : producer.notified (s.place t) = false) (hs : s.Wakeful) :
    s'.Wakeful :=
  ⟨h.status.trans hs.opened, h.consumersCovered hs.opened hs.consumers,
    h.producersCovered ht hs.producers⟩

theorem wakeful_reachable {cap : Nat} {s : DequeSystem Thread T}
    (hs : ((system cap).restrict Queueing).Reachable s) : s.Wakeful := by
  refine hs.invariant (I := Wakeful) ?_ ?_
  · rintro s ⟨hdeque, hout, -, -, -, -⟩
    refine ⟨by rw [hdeque]; rfl, .of_awake fun t => ?_, .of_awake fun t => ?_⟩
    · rw [hout t]
      exact nofun
    · rw [hout t]
      exact nofun
  · rintro s a s' - ih ⟨hq, hstep⟩
    cases hstep with
    | callPush t item ht h => exact h.wakeful (by rw [ht]; rfl) ih
    | wakePush t ht h => exact h.wakeful (Place.consumer_of_pushing ht) ih
    | callPop t ht h => exact h.wakeful (by rw [ht]; rfl) ih
    | wakePop t ht h => exact h.wakeful (Place.producer_of_popping ht) ih
    | clear | close | notifyConsumers | notifyProducers => cases hq

/-- For every capacity of at least one and every interleaving of `push_back`
and `pop_front`: while a consumer sleeps there are no more items than notified
consumers, and while a producer sleeps no more free slots than notified
producers. So producers and consumers never all sleep. -/
theorem deque_no_lost_wakeup {cap : Nat} (hcap : 1 ≤ cap)
    {s : DequeSystem Thread T}
    (hs : ((system cap).restrict Queueing).Reachable s) :
    ((∃ t, s.place t = .popAsleep) →
      s.deque.dq.length ≤ consumer.pending s.place) ∧
    ((∃ t item, s.place t = .pushAsleep item) →
      s.deque.capability - s.deque.dq.length ≤ producer.pending s.place) ∧
    ¬ ((∃ t, s.place t = .popAsleep) ∧
      (∃ t item, s.place t = .pushAsleep item) ∧
      ∀ t, consumer.notified (s.place t) = false ∧
        producer.notified (s.place t) = false) := by
  have hinv := wakeful_reachable hs
  have hcons : (∃ t, s.place t = .popAsleep) →
      s.deque.dq.length ≤ consumer.pending s.place := by
    rintro ⟨t, ht⟩
    exact hinv.consumers ⟨t, asleep_consumer.mpr ht⟩
  have hprod : (∃ t item, s.place t = .pushAsleep item) →
      s.deque.capability - s.deque.dq.length ≤ producer.pending s.place := by
    rintro ⟨t, ht⟩
    exact hinv.producers ⟨t, asleep_producer.mpr ht⟩
  refine ⟨hcons, hprod, ?_⟩
  rintro ⟨hpop, hpush, hnone⟩
  have hitems := hcons hpop
  have hslots := hprod hpush
  rw [CondVar.pending, population_eq_zero fun t => by simp [(hnone t).1]]
    at hitems
  rw [CondVar.pending, population_eq_zero fun t => by simp [(hnone t).2]]
    at hslots
  have hcapability := (fifo_reachable hs).capability
  omega

/-- In `contended`, with one free slot and one notified producer, `0` goes to
sleep as a consumer. -/
theorem deque_no_lost_wakeup_one :
    let s : DequeSystem (Fin 3) Nat := contended.setPlace 0 .popAsleep
    ((∃ t, s.place t = .popAsleep) →
      s.deque.dq.length ≤ consumer.pending s.place) ∧
    ((∃ t item, s.place t = .pushAsleep item) →
      s.deque.capability - s.deque.dq.length ≤ producer.pending s.place) ∧
    ¬ ((∃ t, s.place t = .popAsleep) ∧
      (∃ t item, s.place t = .pushAsleep item) ∧
      ∀ t, consumer.notified (s.place t) = false ∧
        producer.notified (s.place t) = false) := by
  intro s
  have hs : ((system 1).restrict Queueing).Reachable s :=
    contended_reachable.next_restrict (.callPop 0 rfl (.wait rfl)) rfl
  exact deque_no_lost_wakeup (Nat.le_refl 1) hs

end DequeSystem

end TinyWebServer
