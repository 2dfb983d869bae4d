import TinyWebServer.Proofs.BlockDeque

/-!
# Whom `Close` and `clear` leave asleep

`Close` wakes everybody who sleeps when it notifies, and nobody who goes to
sleep after that. A `pop_front` called on the closed and empty deque does not
look at the status before its wait, and a `push_back` that finds the closed
deque full never looks at it: both sleep for good. `clear` makes free slots
and notifies no producer, so producers may sleep beside an empty deque.

These three are all there is. `Careful` excludes them, step by step, and in
every run of careful steps a finished `Close` leaves no sleeper and the free
slots stay covered while the deque is open.
-/

namespace TinyWebServer

open Lib BlockDeque

namespace BlockDeque

variable {T : Type}

/-- In `Close`, and whether the consumers have been told. -/
def Place.told : Place T → Option Bool
  | .closing => some false
  | .closingProducers => some true
  | .outside | .popAsleep | .popNotified | .pushAsleep _
  | .pushNotified _ => none

theorem told_consumer {x y : Place T} (h : y = x ∨ consumer.wake x = some y) :
    y.told = x.told := by
  rcases h with h | h
  · rw [h]
  · cases x with
    | popAsleep => cases h; rfl
    | _ => cases h

theorem told_producer {x y : Place T} (h : y = x ∨ producer.wake x = some y) :
    y.told = x.told := by
  rcases h with h | h
  · rw [h]
  · cases x with
    | pushAsleep => cases h; rfl
    | _ => cases h

theorem Place.told_of_pushing {x : Place T} {item : T}
    (h : x.pushing = some item) : x.told = none := by
  cases x with
  | pushAsleep | pushNotified => rfl
  | _ => cases h

theorem Place.told_of_popping {x : Place T} (h : x.popping = true) :
    x.told = none := by
  cases x with
  | popAsleep | popNotified => rfl
  | _ => cases h

/-- A closed deque lets no woken consumer wait again. -/
theorem popFront_woken {d : BlockDeque T} (h : d.status = .dqClose) :
    d.popFront true = .closed := if_pos ⟨rfl, h⟩

end BlockDeque

namespace DequeSystem

variable {Thread T : Type}

/-! ## How far `Close` has come -/

/-- The status, the flags and the threads in `Close` agree. -/
structure Progress (s : DequeSystem Thread T) : Prop where
  begun : ∀ t, (s.place t).told ≠ none → s.deque.status = .dqClose
  told : s.consumersTold = true → s.deque.status = .dqClose
  stage : ∀ t, (s.place t).told = some true → s.consumersTold = true
  finished : s.closed = true → s.consumersTold = true
  underway : s.deque.status = .dqClose →
    s.closed = true ∨ ∃ t, (s.place t).told ≠ none

/-- A step that leaves all of this alone. -/
structure Unconcerned (s s' : DequeSystem Thread T) : Prop where
  status : s'.deque.status = s.deque.status
  place : ∀ u, (s'.place u).told = (s.place u).told
  consumersTold : s'.consumersTold = s.consumersTold
  closed : s'.closed = s.closed

theorem Unconcerned.progress {s s' : DequeSystem Thread T}
    (h : Unconcerned s s') (hs : s.Progress) : s'.Progress := by
  obtain ⟨hstatus, hplace, htold, hclosed⟩ := h
  refine ⟨fun t => ?_, ?_, fun t => ?_, ?_, ?_⟩
  · rw [hplace, hstatus]
    exact hs.begun t
  · rw [htold, hstatus]
    exact hs.told
  · rw [hplace, htold]
    exact hs.stage t
  · rw [hclosed, htold]
    exact hs.finished
  · rw [hstatus, hclosed]
    simp only [hplace]
    exact hs.underway

variable [DecidableEq Thread]

theorem told_setPlace (s : DequeSystem Thread T) (t : Thread) (x : Place T)
    (u : Thread) : ((s.setPlace t x).place u).told
      = Function.update (fun v => (s.place v).told) t x.told u :=
  Function.apply_update (fun _ => Place.told) s.place t x u

theorem told_moved {s : DequeSystem Thread T} {t : Thread} {x : Place T}
    (ht : (s.place t).told = none) (hx : x.told = none) (u : Thread) :
    ((s.setPlace t x).place u).told = (s.place u).told := by
  rw [told_setPlace, hx, ← ht, Function.update_eq_self]

theorem PushBack.unconcerned {s s' : DequeSystem Thread T} {t : Thread}
    {item : T} (h : PushBack s t item s') (ht : (s.place t).told = none) :
    Unconcerned s s' := by
  have hstatus := h.status
  cases h with
  | wait => exact ⟨hstatus, told_moved ht rfl, rfl, rfl⟩
  | push _ hone =>
      exact ⟨hstatus, fun u => (told_consumer (hone.place u)).trans
        (told_moved ht rfl u), rfl, rfl⟩

theorem PopFront.unconcerned {s s' : DequeSystem Thread T} {t : Thread}
    {woken : Bool} (h : PopFront s t woken s')
    (ht : (s.place t).told = none) : Unconcerned s s' := by
  have hstatus := h.status
  cases h with
  | wait => exact ⟨hstatus, told_moved ht rfl, rfl, rfl⟩
  | closed => exact ⟨hstatus, told_moved ht rfl, rfl, rfl⟩
  | item _ hone =>
      exact ⟨hstatus, fun u => (told_producer (hone.place u)).trans
        (told_moved ht rfl u), rfl, rfl⟩

theorem Step.progress {s s' : DequeSystem Thread T} {a : DequeLabel Thread T}
    (h : Step s a s') (hs : s.Progress) : s'.Progress := by
  cases h with
  | callPush t item ht h =>
      exact (h.unconcerned (by rw [ht]; rfl)).progress hs
  | wakePush t ht h =>
      exact (h.unconcerned (Place.told_of_pushing ht)).progress hs
  | callPop t ht h => exact (h.unconcerned (by rw [ht]; rfl)).progress hs
  | wakePop t ht h =>
      exact (h.unconcerned (Place.told_of_popping ht)).progress hs
  | clear => exact ⟨hs.begun, hs.told, hs.stage, hs.finished, hs.underway⟩
  | close t =>
      refine ⟨fun _ _ => rfl, fun _ => rfl, fun u hu => ?_, hs.finished,
        fun _ => .inr ⟨t, ?_⟩⟩
      · rw [told_setPlace] at hu
        by_cases hut : u = t
        · rw [hut, Function.update_self] at hu
          cases hu
        · rw [Function.update_of_ne hut] at hu
          exact hs.stage u hu
      · rw [told_setPlace, Function.update_self]
        exact nofun
  | notifyConsumers t ht =>
      have hclose := hs.begun t (by rw [ht]; exact nofun)
      refine ⟨fun _ _ => hclose, fun _ => hclose, fun _ _ => rfl, fun _ => rfl,
        fun _ => .inr ⟨t, ?_⟩⟩
      rw [told_setPlace, Function.update_self]
      exact nofun
  | notifyProducers t ht =>
      have hclose := hs.begun t (by rw [ht]; exact nofun)
      have htold := hs.stage t (by rw [ht]; rfl)
      exact ⟨fun _ _ => hclose, hs.told, fun _ _ => htold, fun _ => htold,
        fun _ => .inl rfl⟩

/-! ## Careful runs -/

variable [Fintype Thread]

/-- What a step has to heed for nobody to be stranded: a `pop_front` is not
called on an empty deque once some `Close` has notified the consumers; no
`push_back`, called or woken, finds the deque full once some `Close` has
finished; and `clear` on an open deque leaves no more slots than there are
notified producers, unless no producer sleeps. -/
def Careful (s : DequeSystem Thread T) : DequeLabel Thread T → Prop
  | .callPush _ _ | .wakePush _ =>
      s.closed = true → s.deque.dq.length < s.deque.capability
  | .callPop _ => s.consumersTold = true → s.deque.dq ≠ []
  | .clear => s.deque.status = .dqOpen →
      (∃ t, producer.Asleep (s.place t)) →
        s.deque.capability ≤ producer.pending s.place
  | .wakePop _ | .close _ | .notifyConsumers _ | .notifyProducers _ => True

/-- Nobody is stranded. -/
structure Spared (s : DequeSystem Thread T) : Prop where
  covered : s.deque.status = .dqOpen → s.ProducersCovered
  consumers : s.consumersTold = true → ∀ t, ¬ consumer.Asleep (s.place t)
  producers : s.closed = true → ∀ t, ¬ producer.Asleep (s.place t)

theorem PushBack.spared {s s' : DequeSystem Thread T} {t : Thread} {item : T}
    (h : PushBack s t item s')
    (hfree : s.closed = true → s.deque.dq.length < s.deque.capability)
    (hs : s.Spared) : s'.Spared := by
  have hcovered : s'.deque.status = .dqOpen → s'.ProducersCovered :=
    fun hopen => h.producersCovered (hs.covered (h.status ▸ hopen))
  cases h with
  | wait hwait =>
      refine ⟨hcovered, fun htold => ?_, fun hclosed => ?_⟩
      · exact CondVar.awake_update rfl (hs.consumers htold)
      · have hfull := pushBack_none hwait
        have := hfree hclosed
        omega
  | push hpush hone =>
      refine ⟨hcovered, fun htold u => ?_, fun hclosed u => ?_⟩
      · exact CondVar.awake_of_place CondVar.wake_wake (hone.place u)
          (CondVar.awake_update rfl (hs.consumers htold) u)
      · exact CondVar.awake_of_place (fun hw => (producer_apart hw).2)
          (hone.place u) (CondVar.awake_update rfl (hs.producers hclosed) u)

theorem PopFront.spared {s s' : DequeSystem Thread T} {t : Thread}
    {woken : Bool} (h : PopFront s t woken s')
    (ht : producer.notified (s.place t) = false)
    (hgo : s.consumersTold = true → s.deque.popFront woken ≠ .wait)
    (hs : s.Spared) : s'.Spared := by
  have hcovered : s'.deque.status = .dqOpen → s'.ProducersCovered :=
    fun hopen => h.producersCovered ht (hs.covered (h.status ▸ hopen))
  cases h with
  | wait hwait =>
      refine ⟨hcovered, fun htold => absurd hwait (hgo htold), ?_⟩
      exact fun hclosed => CondVar.awake_update rfl (hs.producers hclosed)
  | closed =>
      exact ⟨hcovered,
        fun htold => CondVar.awake_update rfl (hs.consumers htold),
        fun hclosed => CondVar.awake_update rfl (hs.producers hclosed)⟩
  | item _ hone =>
      refine ⟨hcovered, fun htold u => ?_, fun hclosed u => ?_⟩
      · exact CondVar.awake_of_place (fun hw => (consumer_apart hw).2)
          (hone.place u) (CondVar.awake_update rfl (hs.consumers htold) u)
      · exact CondVar.awake_of_place CondVar.wake_wake (hone.place u)
          (CondVar.awake_update rfl (hs.producers hclosed) u)

theorem Step.spared {s s' : DequeSystem Thread T} {a : DequeLabel Thread T}
    (h : Step s a s') (hcare : s.Careful a) (hp : s.Progress)
    (hs : s.Spared) : s'.Spared := by
  cases h with
  | callPush t item _ h => exact h.spared hcare hs
  | wakePush t _ h => exact h.spared hcare hs
  | callPop t ht h =>
      refine h.spared (by rw [ht]; rfl) (fun htold hwait => ?_) hs
      exact hcare htold (popFront_wait hwait).1
  | wakePop t ht h =>
      refine h.spared (Place.producer_of_popping ht) (fun htold hwait => ?_) hs
      rw [popFront_woken (hp.told htold)] at hwait
      cases hwait
  | clear =>
      exact ⟨fun hopen => hcare hopen, hs.consumers, hs.producers⟩
  | close t =>
      exact ⟨nofun, fun htold => CondVar.awake_update rfl (hs.consumers htold),
        fun hclosed => CondVar.awake_update rfl (hs.producers hclosed)⟩
  | notifyConsumers t ht =>
      have hclose := hp.begun t (by rw [ht]; exact nofun)
      refine ⟨fun hopen => ?_, fun _ => ?_, fun hclosed => ?_⟩
      · rw [show s.deque.status = .dqOpen from hopen] at hclose
        cases hclose
      · exact CondVar.awake_update rfl (CondVar.not_asleep_notifyAll _ _)
      · refine CondVar.awake_update rfl fun u => ?_
        exact CondVar.awake_of_place (fun hw => (producer_apart hw).2)
          (CondVar.notifyAll_place _ _ u) (hs.producers hclosed u)
  | notifyProducers t ht =>
      have hclose := hp.begun t (by rw [ht]; exact nofun)
      refine ⟨fun hopen => ?_, fun htold => ?_, fun _ => ?_⟩
      · rw [show s.deque.status = .dqOpen from hopen] at hclose
        cases hclose
      · refine CondVar.awake_update rfl fun u => ?_
        exact CondVar.awake_of_place (fun hw => (consumer_apart hw).2)
          (CondVar.notifyAll_place _ _ u) (hs.consumers htold u)
      · exact CondVar.awake_update rfl (CondVar.not_asleep_notifyAll _ _)

theorem spared_reachable {cap : Nat} {s : DequeSystem Thread T}
    (hs : ((system cap).restrict Careful).Reachable s) :
    s.Progress ∧ s.Spared := by
  refine hs.invariant (I := fun s => s.Progress ∧ s.Spared) ?_ ?_
  · rintro s ⟨hdeque, hout, -, -, htold, hclosed⟩
    refine ⟨⟨fun t ht => ?_, fun h => ?_, fun t ht => ?_, fun h => ?_,
      fun h => ?_⟩, fun _ => .of_awake fun t => ?_, fun h => ?_, fun h => ?_⟩
    · rw [hout t] at ht
      exact absurd rfl ht
    · rw [htold] at h
      cases h
    · rw [hout t] at ht
      cases ht
    · rw [hclosed] at h
      cases h
    · rw [hdeque] at h
      cases h
    · rw [hout t]
      exact nofun
    · rw [htold] at h
      cases h
    · rw [hclosed] at h
      cases h
  · rintro s a s' - ⟨hp, ih⟩ ⟨hcare, hstep⟩
    exact ⟨hstep.progress hp, hstep.spared hcare hp ih⟩

/-- In every careful run of `push_back`, `pop_front`, `clear` and `Close`:
once a `Close` has finished nobody sleeps, a `pop_front` that comes out of its
wait answers false and one that is called returns; and as long as the deque is
open, also after a `clear`, the free slots are covered by notified producers.
A deque that is closed without a finished `Close` has a thread in `Close`,
whose notifications are still to come. -/
theorem close_strands_nobody {cap : Nat} {s : DequeSystem Thread T}
    (hs : ((system cap).restrict Careful).Reachable s) :
    (s.closed = true →
      (∀ t, s.place t ≠ .popAsleep ∧ ∀ item, s.place t ≠ .pushAsleep item) ∧
      s.deque.popFront true = .closed ∧
      ∀ t s', s.Careful (.callPop t) → Step s (.callPop t) s' →
        s'.place t ≠ .popAsleep) ∧
    (s.deque.status = .dqOpen →
      (∃ t item, s.place t = .pushAsleep item) →
        s.deque.capability - s.deque.dq.length
          ≤ producer.pending s.place) ∧
    (s.deque.status = .dqClose → s.closed = false →
      ∃ t, s.place t = .closing ∨ s.place t = .closingProducers) := by
  obtain ⟨hp, hspared⟩ := spared_reachable hs
  refine ⟨fun hclosed => ⟨fun t => ⟨fun ht => ?_, fun item ht => ?_⟩, ?_, ?_⟩,
    fun hopen hsleep => ?_, fun hclose hunfinished => ?_⟩
  · exact hspared.consumers (hp.finished hclosed) t (asleep_consumer.mpr ht)
  · exact hspared.producers hclosed t (asleep_producer.mpr ⟨item, ht⟩)
  · exact popFront_woken (hp.told (hp.finished hclosed))
  · intro t s' hcare hstep ht
    have hs' := hstep.spared hcare hp hspared
    have htold' : s'.consumersTold = true := by
      cases hstep with
      | callPop _ hout h =>
          rw [(h.unconcerned (by rw [hout]; rfl)).consumersTold]
          exact hp.finished hclosed
    exact hs'.consumers htold' t (asleep_consumer.mpr ht)
  · obtain ⟨t, ht⟩ := hsleep
    exact hspared.covered hopen ⟨t, asleep_producer.mpr ht⟩
  · rcases hp.underway hclose with h | ⟨t, ht⟩
    · rw [h] at hunfinished
      cases hunfinished
    · refine ⟨t, ?_⟩
      cases hplace : s.place t with
      | closing => exact .inl rfl
      | closingProducers => exact .inr rfl
      | _ =>
          rw [hplace] at ht
          exact absurd rfl ht

/-- A deque of one slot that `1` has closed while `0` slept in `pop_front`. -/
def shutDown : DequeSystem (Fin 2) Nat :=
  { deque := ⟨1, .dqClose, []⟩
    place := Function.update (producer.notifyAll (Function.update
      (consumer.notifyAll (Function.update (Function.update
        (fun _ => .outside) 0 .popAsleep) 1 .closing))
          1 .closingProducers)) 1 .outside
    pushed := [], popped := [], consumersTold := true, closed := true }

theorem shutDown_reachable :
    ((system 1).restrict Careful).Reachable shutDown := by
  have hstart : ((system 1).restrict Careful).Reachable
      (⟨.construct 1, fun _ => .outside, [], [], false, false⟩ :
        DequeSystem (Fin 2) Nat) :=
    .start ⟨rfl, fun _ => rfl, rfl, rfl, rfl, rfl⟩
  have hclosing := (hstart.next_restrict (.callPop 0 rfl (.wait rfl))
    nofun).next_restrict (.close 1 rfl) trivial
  exact (hclosing.next_restrict (.notifyConsumers 1 rfl) trivial).next_restrict
    (.notifyProducers 1 rfl) trivial

/-- After the `Close` of `shutDown` there is room for one more item. -/
theorem close_strands_nobody_shutDown :
    let s : DequeSystem (Fin 2) Nat :=
      { shutDown with
        deque := ⟨1, .dqClose, [7]⟩
        place := Function.update shutDown.place 1 .outside
        pushed := [7] }
    (s.closed = true →
      (∀ t, s.place t ≠ .popAsleep ∧ ∀ item, s.place t ≠ .pushAsleep item) ∧
      s.deque.popFront true = .closed ∧
      ∀ t s', s.Careful (.callPop t) → Step s (.callPop t) s' →
        s'.place t ≠ .popAsleep) ∧
    (s.deque.status = .dqOpen →
      (∃ t item, s.place t = .pushAsleep item) →
        s.deque.capability - s.deque.dq.length
          ≤ producer.pending s.place) ∧
    (s.deque.status = .dqClose → s.closed = false →
      ∃ t, s.place t = .closing ∨ s.place t = .closingProducers) := by
  intro s
  have hs : ((system 1).restrict Careful).Reachable s :=
    shutDown_reachable.next_restrict
      (.callPush 1 7 rfl (.push rfl (.nobody (by decide))))
      (fun _ => Nat.zero_lt_one)
  exact close_strands_nobody hs

/-- A `pop_front` called after `Close` has finished sleeps on the empty deque,
and after a `clear` a producer sleeps beside a free slot with nobody
notified. -/
theorem close_strands :
    (∃ s : DequeSystem (Fin 2) Nat, (system 1).Reachable s ∧
      s.closed = true ∧ ∃ t, s.place t = .popAsleep) ∧
    ∃ s s' : DequeSystem (Fin 2) Nat, (system 1).Reachable s ∧
      Step s .clear s' ∧ (∃ t item, s'.place t = .pushAsleep item) ∧
      ¬ s'.deque.capability - s'.deque.dq.length
        ≤ producer.pending s'.place := by
  have hstart : (system 1).Reachable
      (⟨.construct 1, fun _ => .outside, [], [], false, false⟩ :
        DequeSystem (Fin 2) Nat) :=
    .start ⟨rfl, fun _ => rfl, rfl, rfl, rfl, rfl⟩
  have hclosed := ((hstart.next (.close 1 rfl)).next
    (.notifyConsumers 1 rfl)).next (.notifyProducers 1 rfl)
  have hfull := (hstart.next
    (.callPush 0 7 rfl (.push rfl (.nobody (by decide))))).next
      (.callPush 1 8 rfl (.wait rfl))
  exact ⟨⟨_, hclosed.next (.callPop 0 rfl (.wait rfl)), rfl, 0, rfl⟩,
    _, _, hfull, .clear, ⟨1, 8, rfl⟩, by decide⟩

end DequeSystem

end TinyWebServer
