import TinyWebServer.Lib.Progress
import TinyWebServer.Model.Log
import TinyWebServer.Proofs.DequeClose
import Mathlib.Algebra.BigOperators.Group.Finset.Basic
import Mathlib.Data.Fintype.Option
import Mathlib.Data.Multiset.AddSub

/-!
# What is logged is printed

As long as the log is open, nobody waits in it for ever: the log thread sleeps
only on an empty deque, a thread that logs only on a full one, and the deque's
condition variables are covered. Left to themselves the threads come to a
state in which every line that was begun is on the console, in the order in
which they were pushed.

`~Log` is where lines are lost. `Close` throws away what is in the deque, and
the log thread prints one line more at most.
-/

namespace TinyWebServer

open Lib BlockDeque

/-! ## What a call did -/

namespace BlockDeque

variable {T : Type}

/-- What a place is a place of. -/
def Place.kind (x : Place T) : Bool × Option T × Option Bool :=
  (x.popping, x.pushing, x.told)

theorem kind_consumer {x y : Place T} (h : y = x ∨ consumer.wake x = some y) :
    y.kind = x.kind := by
  rcases h with h | h
  · rw [h]
  · cases x with
    | popAsleep => cases h; rfl
    | _ => cases h

theorem kind_producer {x y : Place T} (h : y = x ∨ producer.wake x = some y) :
    y.kind = x.kind := by
  rcases h with h | h
  · rw [h]
  · cases x with
    | pushAsleep => cases h; rfl
    | _ => cases h

theorem Place.popping_of_notified {x : Place T}
    (h : consumer.notified x = true) : x.popping = true := by
  cases x with
  | popNotified => rfl
  | _ => cases h

theorem Place.pushing_of_notified {x : Place T}
    (h : producer.notified x = true) : ∃ item, x.pushing = some item := by
  cases x with
  | pushNotified item => exact ⟨item, rfl⟩
  | _ => cases h

theorem Place.outside_of_kind {x : Place T}
    (h : x.kind = (Place.outside : Place T).kind) : x = .outside := by
  cases x with
  | outside => rfl
  | _ => cases h

end BlockDeque

namespace DequeSystem

variable {Thread T : Type} [DecidableEq Thread] {s s' : DequeSystem Thread T}
  {a : DequeLabel Thread T} {t : Thread}

/-- `push_back` has gone to sleep, or has returned. -/
theorem Step.push_cases {item : T} (h : Step s a s')
    (ha : a = .callPush t item ∨ a = .wakePush t)
    (ht : s.place t = .outside ∨ (s.place t).pushing = some item) :
    s' = s.setPlace t (.pushAsleep item) ∨
      ∃ place, consumer.NotifyOne (s.setPlace t .outside).place place ∧
        s' = { s with
          deque := { s.deque with dq := s.deque.dq ++ [item] }, place
          pushed := s.pushed ++ [item] } := by
  obtain ⟨item', h, hitem⟩ : ∃ item', PushBack s t item' s' ∧ item' = item := by
    cases h with
    | callPush t' item' _ h =>
        rcases ha with ha | ha <;> cases ha
        exact ⟨item, h, rfl⟩
    | @wakePush _ item' t' hpushing h =>
        rcases ha with ha | ha <;> cases ha
        refine ⟨item', h, ?_⟩
        rcases ht with ht | ht
        · rw [ht] at hpushing
          cases hpushing
        · exact Option.some.inj (hpushing.symm.trans ht)
    | _ => rcases ha with ha | ha <;> cases ha
  subst hitem
  cases h with
  | wait => exact .inl rfl
  | push hpush hone =>
      obtain ⟨-, rfl⟩ := pushBack_some hpush
      exact .inr ⟨_, hone, rfl⟩

/-- `pop_front` has gone to sleep, has answered false, or has an item. -/
theorem Step.pop_cases (h : Step s a s')
    (ha : a = .callPop t ∨ a = .wakePop t) :
    (s' = s.setPlace t .popAsleep ∧ s.deque.dq = []) ∨
    (s' = s.setPlace t .outside ∧ s.deque.status = .dqClose) ∨
    ∃ x d place, producer.NotifyOne (s.setPlace t .outside).place place ∧
      s.deque.dq = x :: d.dq ∧ d.capability = s.deque.capability ∧
      d.status = s.deque.status ∧
      s' = { s with deque := d, place, popped := s.popped ++ [x] } := by
  obtain ⟨woken, h⟩ : ∃ woken, PopFront s t woken s' := by
    cases h with
    | callPop | wakePop =>
        rcases ha with ha | ha <;> cases ha
        exact ⟨_, by assumption⟩
    | _ => rcases ha with ha | ha <;> cases ha
  cases h with
  | wait hwait => exact .inl ⟨rfl, (popFront_wait hwait).1⟩
  | closed hclosed => exact .inr (.inl ⟨rfl, (popFront_closed hclosed).2⟩)
  | item hitem hone =>
      obtain ⟨hdq, hcap, hstatus⟩ := popFront_item hitem
      exact .inr (.inr ⟨_, _, _, hone, hdq, hcap, hstatus, rfl⟩)

/-- Whose step it is. -/
def actor : DequeLabel Thread T → Option Thread
  | .callPush t _ | .wakePush t | .callPop t | .wakePop t | .close t
  | .notifyConsumers t | .notifyProducers t => some t
  | .clear => none

omit [DecidableEq Thread] in
theorem actor_push {item : T} (ha : a = .callPush t item ∨ a = .wakePush t) :
    actor a = some t := by
  rcases ha with rfl | rfl <;> rfl

omit [DecidableEq Thread] in
theorem actor_pop (ha : a = .callPop t ∨ a = .wakePop t) :
    actor a = some t := by
  rcases ha with rfl | rfl <;> rfl

theorem kind_setPlace {x : Place T} {u : Thread} (hu : u ≠ t) :
    ((s.setPlace t x).place u).kind = (s.place u).kind := by
  simp only [setPlace, Function.update_of_ne hu]

/-- A place changes kind only under the thread that takes the step. -/
theorem Step.kind_of_ne {u : Thread} (h : Step s a s')
    (hu : actor a ≠ some u) : (s'.place u).kind = (s.place u).kind := by
  have hne : ∀ {t}, actor a = some t → u ≠ t := by
    rintro t ht rfl
    exact hu ht
  cases h with
  | callPush t _ _ h | wakePush t _ h =>
      cases h with
      | wait => exact kind_setPlace (hne rfl)
      | push _ hone =>
          exact (kind_consumer (hone.place u)).trans (kind_setPlace (hne rfl))
  | callPop t _ h | wakePop t _ h =>
      cases h with
      | wait | closed => exact kind_setPlace (hne rfl)
      | item _ hone =>
          exact (kind_producer (hone.place u)).trans (kind_setPlace (hne rfl))
  | clear => rfl
  | close t => exact kind_setPlace (hne rfl)
  | notifyConsumers t =>
      exact (kind_setPlace (hne rfl)).trans
        (kind_consumer (CondVar.notifyAll_place _ _ u))
  | notifyProducers t =>
      exact (kind_setPlace (hne rfl)).trans
        (kind_producer (CondVar.notifyAll_place _ _ u))

/-- Nothing is made up, and nothing changes places. -/
theorem Step.sublist (h : Step s a s')
    (hs : (s.popped ++ s.deque.dq).Sublist s.pushed) :
    (s'.popped ++ s'.deque.dq).Sublist s'.pushed := by
  have hpopped : s.popped.Sublist s.pushed :=
    (List.sublist_append_left _ _).trans hs
  have hempty : (s.popped ++ []).Sublist s.pushed := by
    rwa [List.append_nil]
  cases h with
  | callPush _ _ _ h | wakePush _ _ h =>
      cases h with
      | wait => exact hs
      | push hpush _ =>
          obtain ⟨-, rfl⟩ := pushBack_some hpush
          show List.Sublist (_ ++ (_ ++ _)) _
          rw [← List.append_assoc]
          exact hs.append (List.Sublist.refl _)
  | callPop _ _ h | wakePop _ _ h =>
      cases h with
      | wait | closed => exact hs
      | item hitem _ =>
          rw [(popFront_item hitem).1, List.append_cons] at hs
          exact hs
  | clear | close => exact hempty
  | notifyConsumers | notifyProducers => exact hs

end DequeSystem

/-! ## Who is where in the deque -/

/-- What a thread is doing in the deque. -/
inductive InDeque where
  | nothing
  | popping
  | pushing (msg : Bytes)
  | closing

namespace InDeque

/-- A thread doing `d` may stand at `x`. -/
def Agrees (d : InDeque) (x : Place Bytes) : Prop :=
  x = .outside ∨ match d with
    | .nothing => False
    | .popping => x.popping = true
    | .pushing msg => x.pushing = some msg
    | .closing => x.told ≠ none

theorem Agrees.kind {d : InDeque} {x y : Place Bytes} (h : d.Agrees x)
    (hkind : y.kind = x.kind) : d.Agrees y := by
  rcases h with rfl | h
  · exact .inl (Place.outside_of_kind hkind)
  · simp only [Place.kind, Prod.mk.injEq] at hkind
    obtain ⟨hpop, hpush, htold⟩ := hkind
    right
    cases d with
    | nothing => exact h
    | popping => exact hpop.trans h
    | pushing msg => exact hpush.trans h
    | closing => exact fun hnone => h (htold ▸ hnone)

theorem Agrees.of_popping {d : InDeque} {x : Place Bytes} (h : d.Agrees x)
    (hx : x.popping = true) : d = .popping := by
  cases x with
  | popAsleep | popNotified =>
      rcases h with h | h
      · cases h
      · cases d with
        | popping => rfl
        | nothing => exact h.elim
        | pushing => cases h
        | closing => exact absurd rfl h
  | _ => cases hx

theorem Agrees.of_pushing {d : InDeque} {x : Place Bytes} {msg : Bytes}
    (h : d.Agrees x) (hx : x.pushing = some msg) : d = .pushing msg := by
  cases x with
  | pushAsleep | pushNotified =>
      rcases h with h | h
      · cases h
      · cases d with
        | pushing => exact congrArg _ (Option.some.inj (h.symm.trans hx))
        | nothing => exact h.elim
        | popping => cases h
        | closing => exact absurd rfl h
  | _ => cases hx

end InDeque

def LogReader.inDeque : LogReader → InDeque
  | .popping => .popping
  | .testing | .printing _ | .returned => .nothing

def LogWriter.inDeque : LogWriter → InDeque
  | .writing msg => .pushing msg
  | .closing => .closing
  | .outside | .flushing => .nothing

/-- The line the log thread has popped and not printed. -/
def LogReader.inHand : LogReader → List Bytes
  | .printing str => [str]
  | .testing | .popping | .returned => []

namespace LogSystem

variable {Thread : Type} [DecidableEq Thread] {s s' : LogSystem Thread}
  {cap : Nat}

def inDeque (s : LogSystem Thread) : Option Thread → InDeque
  | none => s.logThread.inDeque
  | some t => (s.writers t).inDeque

def Placed (s : LogSystem Thread) : Prop :=
  ∀ i, (s.inDeque i).Agrees (s.bq.place i)

theorem inDeque_setWriter {t : Thread} {x : LogWriter} {i : Option Thread}
    (hi : i ≠ some t) : (s.setWriter t x).inDeque i = s.inDeque i := by
  cases i with
  | none => rfl
  | some u =>
      have hu : u ≠ t := fun h => hi (congrArg some h)
      show ((Function.update s.writers t x) u).inDeque = _
      rw [Function.update_of_ne hu]
      rfl

/-- What `j` does is `j`'s affair. -/
theorem Placed.act (hs : s.Placed) (i : Option Thread)
    (hdo : ∀ j, j ≠ i → s'.inDeque j = s.inDeque j)
    (hkind : ∀ j, j ≠ i → (s'.bq.place j).kind = (s.bq.place j).kind)
    (hi : (s'.inDeque i).Agrees (s'.bq.place i)) : s'.Placed := by
  intro j
  by_cases hji : j = i
  · rw [hji]
    exact hi
  · rw [hdo j hji]
    exact (hs j).kind (hkind j hji)

/-- A step of a thread in the deque keeps the others where they are. -/
theorem Placed.enter (hs : s.Placed) {i : Option Thread}
    {a : DequeLabel (Option Thread) Bytes}
    {bq : DequeSystem (Option Thread) Bytes}
    (hstep : DequeSystem.Step s.bq a bq)
    (ha : DequeSystem.actor a = some i) (hbq : s'.bq = bq)
    (hdo : ∀ j, j ≠ i → s'.inDeque j = s.inDeque j)
    (hi : (s'.inDeque i).Agrees (bq.place i)) : s'.Placed := by
  subst hbq
  refine hs.act i hdo (fun j hj => hstep.kind_of_ne fun h => ?_) hi
  exact hj (Option.some.inj (h.symm.trans ha))

/-- What `Write` has done when it gives the lock up. -/
theorem Placed.write (hs : s.Placed) {t : Thread} {msg : Bytes}
    {a : DequeLabel (Option Thread) Bytes}
    {bq : DequeSystem (Option Thread) Bytes}
    (ht : s.writers t = .writing msg)
    (ha : a = .callPush (some t) msg ∨ a = .wakePush (some t))
    (h : DequeSystem.Step s.bq a bq) :
    bq = s.bq.setPlace (some t) (.pushAsleep msg) ∨
      ∃ place, consumer.NotifyOne (s.bq.setPlace (some t) .outside).place
          place ∧
        bq = { s.bq with
          deque := { s.bq.deque with dq := s.bq.deque.dq ++ [msg] }, place
          pushed := s.bq.pushed ++ [msg] } := by
  refine h.push_cases ha ?_
  have hplace := hs (some t)
  rw [show s.inDeque (some t) = .pushing msg by
    rw [inDeque, ht, LogWriter.inDeque]] at hplace
  exact hplace

/-- Somebody notified is where he was before, or asleep before. -/
theorem outside_of_notified {T : Type} {cv : CondVar (Place T)}
    {place place' : Option Thread → Place T} {i : Option Thread}
    (h : cv.NotifyOne (Function.update place i .outside) place')
    (hcv : cv.wake .outside = none) : place' i = .outside := by
  rcases h.place i with h | h
  · rw [h, Function.update_self]
  · rw [Function.update_self, hcv] at h
    cases h

theorem Step.placed {a : LogLabel Thread} (h : Step s a s') (hs : s.Placed) :
    s'.Placed := by
  have hrest : ∀ {t : Thread} {x : LogWriter} (j : Option Thread),
      j ≠ some t → (s.setWriter t x).inDeque j = s.inDeque j :=
    fun j hj => inDeque_setWriter hj
  have hout : ∀ {i : Option Thread}, s.inDeque i = .nothing →
      s.bq.place i = .outside := by
    intro i hi
    have hplace := hs i
    rw [hi] at hplace
    exact hplace.elim id False.elim
  cases h with
  | log t call _ ht =>
      refine hs.act (some t) hrest (fun _ _ => rfl) (.inl (hout ?_))
      rw [inDeque, ht, LogWriter.inDeque]
  | @writeWait t msg a bq ht ha hstep hpushed =>
      refine hs.enter hstep (DequeSystem.actor_push ha) rfl (fun _ _ => rfl)
        (.inr ?_)
      rcases hs.write ht ha hstep with rfl | ⟨place, -, rfl⟩
      · rw [show inDeque _ (some t) = .pushing msg by
          simp only [inDeque, ht, LogWriter.inDeque]]
        show Place.pushing _ = _
        simp only [DequeSystem.setPlace, Function.update_self, Place.pushing]
      · simp at hpushed
  | @write t msg a bq ht ha hstep hpushed =>
      refine hs.enter hstep (DequeSystem.actor_push ha) rfl hrest (.inl ?_)
      rcases hs.write ht ha hstep with rfl | ⟨place, hone, rfl⟩
      · simp [DequeSystem.setPlace] at hpushed
      · exact outside_of_notified hone rfl
  | @flush t ht =>
      refine hs.act (some t) hrest (fun _ _ => rfl) (.inl (hout ?_))
      rw [inDeque, ht, LogWriter.inDeque]
  | testClose ht | testOpen ht | print ht =>
      refine hs.act none ?_ (fun _ _ => rfl) (.inl (hout ?_))
      · rintro (_ | j) hj
        · exact absurd rfl hj
        · rfl
      · rw [inDeque, ht, LogReader.inDeque]
  | popWait ht ha hstep hplace =>
      refine hs.enter hstep (DequeSystem.actor_pop ha) rfl (fun _ _ => rfl)
        (.inr ?_)
      rw [show inDeque _ none = .popping by
        simp only [inDeque, ht, LogReader.inDeque], hplace]
      rfl
  | popClosed ht ha hstep hplace | pop ht ha hstep hplace =>
      refine hs.enter hstep (DequeSystem.actor_pop ha) rfl ?_ (.inl hplace)
      rintro (_ | j) hj
      · exact absurd rfl hj
      · rfl
  | @destroy t _ ht =>
      refine hs.act (some t) hrest (fun _ _ => rfl) (.inl (hout ?_))
      rw [inDeque, ht, LogWriter.inDeque]
  | @closing t a bq ht ha hstep =>
      have hactor : DequeSystem.actor a = some (some t) := by
        rcases ha with rfl | rfl <;> rfl
      refine hs.enter hstep hactor rfl (fun _ _ => rfl) (.inr ?_)
      rw [show inDeque _ (some t) = .closing by
        simp only [inDeque, ht, LogWriter.inDeque]]
      rcases ha with rfl | rfl <;> cases hstep
      · rw [DequeSystem.told_setPlace, Function.update_self]
        simp [Place.told]
      · rw [DequeSystem.told_setPlace, Function.update_self]
        simp [Place.told]
  | @closed t bq ht hstep =>
      refine hs.enter hstep rfl rfl hrest (.inl ?_)
      cases hstep
      exact Function.update_self _ _ _

/-! ## What is on the console -/

structure Sound (cap : Nat) (s : LogSystem Thread) : Prop where
  placed : s.Placed
  opened : s.statue = .logOpen → ((DequeSystem.system cap).restrict
    DequeSystem.Queueing).Reachable s.bq
  closing : ∀ t, s.writers t = .closing → s.statue = .logClose
  returned : s.logThread = .returned → s.statue = .logClose
  console : s.console ++ s.logThread.inHand = s.bq.popped
  -- nothing is made up, and nothing changes places
  pushed : (s.bq.popped ++ s.bq.deque.dq).Sublist s.bq.pushed

/-- A step that leaves the deque to itself. -/
theorem Sound.within (hs : s.Sound cap) (hplaced : s'.Placed)
    (hstatue : s'.statue = s.statue) (hbq : s'.bq = s.bq)
    (hclosing : ∀ t, s'.writers t = .closing → s.writers t = .closing)
    (hreturned : s'.logThread = .returned → s'.statue = .logClose)
    (hconsole : s'.console ++ s'.logThread.inHand
      = s.console ++ s.logThread.inHand) : s'.Sound cap where
  placed := hplaced
  opened := by rw [hstatue, hbq]; exact hs.opened
  closing t ht := hstatue.trans (hs.closing t (hclosing t ht))
  returned := hreturned
  console := by rw [hconsole, hbq]; exact hs.console
  pushed := by rw [hbq]; exact hs.pushed

/-- A step in the deque. -/
theorem Sound.enter (hs : s.Sound cap) {a : DequeLabel (Option Thread) Bytes}
    (hstep : DequeSystem.Step s.bq a s'.bq) (hplaced : s'.Placed)
    (hstatue : s'.statue = s.statue)
    (hqueueing : s.statue = .logOpen → a.queueing = true)
    (hclosing : ∀ t, s'.writers t = .closing → s.writers t = .closing)
    (hreturned : s'.logThread = .returned → s'.statue = .logClose)
    (hconsole : s'.console ++ s'.logThread.inHand = s'.bq.popped) :
    s'.Sound cap where
  placed := hplaced
  opened hopen := by
    rw [hstatue] at hopen
    exact (hs.opened hopen).next_restrict hstep (hqueueing hopen)
  closing t ht := hstatue.trans (hs.closing t (hclosing t ht))
  returned := hreturned
  console := hconsole
  pushed := hstep.sublist hs.pushed

theorem closing_setWriter {t u : Thread} {x : LogWriter} (hx : x ≠ .closing)
    (h : (s.setWriter t x).writers u = .closing) : s.writers u = .closing := by
  simp only [setWriter] at h
  by_cases hu : u = t
  · rw [hu, Function.update_self] at h
    exact absurd h hx
  · rwa [Function.update_of_ne hu] at h

theorem Step.sound {a : LogLabel Thread} (h : Step s a s')
    (hs : s.Sound cap) : s'.Sound cap := by
  have hplaced := h.placed hs.placed
  cases h with
  | log t call hopen _ =>
      exact hs.within hplaced rfl rfl (fun u => closing_setWriter (by simp))
        hs.returned rfl
  | @writeWait t msg a bq ht ha hstep _ =>
      refine hs.enter (a := a) hstep hplaced rfl (fun _ => ?_) (fun _ h => h)
        hs.returned ?_
      · rcases ha with rfl | rfl <;> rfl
      · rcases hs.placed.write ht ha hstep with rfl | ⟨place, -, rfl⟩
        · exact hs.console
        · exact hs.console
  | @write t msg a bq ht ha hstep _ =>
      refine hs.enter (a := a) hstep hplaced rfl (fun _ => ?_)
        (fun u => closing_setWriter (by simp)) hs.returned ?_
      · rcases ha with rfl | rfl <;> rfl
      · rcases hs.placed.write ht ha hstep with rfl | ⟨place, -, rfl⟩
        · exact hs.console
        · exact hs.console
  | flush =>
      exact hs.within hplaced rfl rfl (fun u => closing_setWriter (by simp))
        hs.returned rfl
  | testClose ht hclose =>
      refine hs.within hplaced rfl rfl (fun _ h => h) (fun _ => hclose) ?_
      rw [ht]
      rfl
  | testOpen ht _ =>
      refine hs.within hplaced rfl rfl (fun _ h => h) (by simp) ?_
      rw [ht]
      rfl
  | @popWait a bq ht ha hstep hplace =>
      refine hs.enter (a := a) hstep hplaced rfl (fun _ => ?_) (fun _ h => h)
        hs.returned ?_
      · rcases ha with rfl | rfl <;> rfl
      · rcases hstep.pop_cases ha with ⟨rfl, -⟩ | ⟨rfl, -⟩ |
          ⟨x, d, place, hone, -, -, -, rfl⟩
        · exact hs.console
        · exact hs.console
        · have hout := outside_of_notified hone rfl
          rw [show place none = .popAsleep from hplace] at hout
          cases hout
  | @popClosed a bq ht ha hstep _ hpopped =>
      refine hs.enter (a := a) hstep hplaced rfl (fun _ => ?_) (fun _ h => h)
        (by simp) ?_
      · rcases ha with rfl | rfl <;> rfl
      · have hconsole := hs.console
        rw [ht] at hconsole
        exact hconsole.trans hpopped.symm
  | @pop a bq str ht ha hstep _ hpopped =>
      refine hs.enter (a := a) hstep hplaced rfl (fun _ => ?_) (fun _ h => h)
        (by simp) ?_
      · rcases ha with rfl | rfl <;> rfl
      · have hconsole := hs.console
        rw [ht, LogReader.inHand, List.append_nil] at hconsole
        rw [hpopped, ← hconsole]
        rfl
  | @print str ht =>
      refine hs.within hplaced rfl rfl (fun _ h => h) (by simp) ?_
      rw [ht, LogReader.inHand, LogReader.inHand, List.append_nil]
  | destroy t hopen ht =>
      exact ⟨hplaced, fun h => absurd h (by simp [setWriter]), fun _ _ => rfl,
        fun _ => rfl, hs.console, hs.pushed⟩
  | @closing t a bq ht ha hstep =>
      refine hs.enter (a := a) hstep hplaced rfl (fun hopen => ?_)
        (fun _ h => h) hs.returned ?_
      · rw [hs.closing t ht] at hopen
        cases hopen
      · rcases ha with rfl | rfl <;> cases hstep <;> exact hs.console
  | @closed t bq ht hstep =>
      refine hs.enter (a := .notifyProducers (some t)) hstep hplaced rfl
        (fun hopen => ?_) (fun u => closing_setWriter (by simp)) hs.returned ?_
      · rw [hs.closing t ht] at hopen
        cases hopen
      · cases hstep
        exact hs.console

theorem sound_reachable (hs : (system cap).Reachable s) : s.Sound cap := by
  refine hs.invariant (I := Sound cap) ?_ ?_
  · rintro s ⟨hopen, hbq, htest, hout, hconsole⟩
    obtain ⟨hdeque, hplace, hpushed, hpopped, -, -⟩ := id hbq
    refine ⟨fun i => .inl (hplace i), fun _ => .start hbq, fun t ht => ?_,
      fun h => ?_, ?_, ?_⟩
    · rw [hout t] at ht
      cases ht
    · rw [htest] at h
      cases h
    · rw [hconsole, htest, hpopped]
      rfl
    · rw [hpopped, hpushed, hdeque]
      exact List.Sublist.refl _
  · exact fun s a s' _ ih h => Step.sound h ih

end LogSystem

/-! ## What is left to do while the log is open -/

/-- A thread out of a wait may go into it once. -/
def BlockDeque.Place.work {T : Type} : Place T → Nat
  | .popAsleep | .pushAsleep _ => 0
  | .outside | .popNotified | .pushNotified _ | .closing
  | .closingProducers => 1

def LogReader.work : LogReader → Nat
  | .printing _ => 2
  | .testing => 1
  | .popping | .returned => 0

/-- A line that is pushed wakes the log thread up, and is four steps in the
deque. -/
def LogWriter.work : LogWriter → Nat
  | .writing _ => 7
  | .flushing => 1
  | .outside | .closing => 0

/-- The lines the log thread prints before it looks at `_statue` again. -/
def LogReader.coming : LogReader → Nat
  | .popping | .printing _ => 1
  | .testing | .returned => 0

/-- The line a thread is in `Write` with. -/
def LogWriter.pending : LogWriter → Multiset Bytes
  | .writing msg => {msg}
  | .outside | .flushing | .closing => 0

/-- A thread in `Write` or in `pop_front` that is not asleep there is not
asleep. -/
theorem InDeque.Agrees.awake {d : InDeque} {x : Place Bytes}
    (h : d.Agrees x)
    (hpop : d = .popping → ¬ consumer.Asleep x)
    (hpush : ∀ msg, d = .pushing msg → ¬ producer.Asleep x) : x.work = 1 := by
  cases x with
  | popAsleep => exact absurd rfl (hpop (h.of_popping rfl))
  | pushAsleep msg => exact absurd rfl (hpush msg (h.of_pushing rfl))
  | _ => rfl

namespace LogSystem

variable {Thread : Type} [DecidableEq Thread] {s s' : LogSystem Thread}
  {cap : Nat}

/-- What happens with nothing more logged, the log open, and nobody woken up
unasked. -/
def Own (s : LogSystem Thread) (a : LogLabel Thread) : Prop :=
  s.statue = .logOpen ∧ match a with
    | .log _ _ | .destroy _ | .close _ => False
    | .write t => ¬ producer.Asleep (s.bq.place (some t))
    | .pop => ¬ consumer.Asleep (s.bq.place none)
    | .flush _ | .test | .print => True

variable [Fintype Thread]

/-- How many steps the threads can take by themselves, at most. -/
def work (s : LogSystem Thread) : Nat :=
  total Place.work s.bq.place + total LogWriter.work s.writers +
    s.logThread.work + 4 * s.bq.deque.dq.length

/-- The lines that are not in the deque yet. -/
def pending (s : LogSystem Thread) : Multiset Bytes :=
  ∑ t, (s.writers t).pending

/-- The thread at `i` is awake before the step, and wakes one up at most. -/
theorem place_work {i : Option Thread} {cv : CondVar (Place Bytes)}
    {place : Option Thread → Place Bytes}
    (hi : (s.bq.place i).work = 1)
    (hone : cv.NotifyOne (s.bq.setPlace i .outside).place place)
    (hcv : ∀ {x y}, cv.wake x = some y → y.work ≤ 1) :
    total Place.work place ≤ total Place.work s.bq.place + 1 := by
  have hle : total Place.work place
      ≤ total Place.work (Function.update s.bq.place i .outside) + 1 :=
    hone.total_le 1 hcv
  have hsum := total_update Place.work s.bq.place i .outside
  rw [hi] at hsum
  simp only [Place.work] at hsum
  omega

theorem work_potential : TransitionSystem.Potential
    (system cap : TransitionSystem (LogSystem Thread) _) Own work := by
  intro s a s' hr hown h
  have hs := sound_reachable hr
  obtain ⟨hopen, hown⟩ := hown
  have hone : ∀ {x : Place Bytes}, x.work ≤ 1 := by
    intro x
    cases x <;> simp [Place.work]
  cases h with
  | log | destroy | closing | closed => exact hown.elim
  | @writeWait t msg a bq ht ha hstep hpushed =>
      have hawake : (s.bq.place (some t)).work = 1 :=
        (hs.placed (some t)).awake (by simp [inDeque, ht, LogWriter.inDeque])
          (fun _ _ => hown)
      rcases hs.placed.write ht ha hstep with rfl | ⟨place, -, rfl⟩
      · have hsum := total_update Place.work s.bq.place (some t)
          (.pushAsleep msg)
        rw [hawake] at hsum
        simp only [work, DequeSystem.setPlace]
        simp only [Place.work] at hsum
        omega
      · simp at hpushed
  | @write t msg a bq ht ha hstep hpushed =>
      have hawake : (s.bq.place (some t)).work = 1 :=
        (hs.placed (some t)).awake (by simp [inDeque, ht, LogWriter.inDeque])
          (fun _ _ => hown)
      rcases hs.placed.write ht ha hstep with rfl | ⟨place, hnotify, rfl⟩
      · simp [DequeSystem.setPlace] at hpushed
      · have hle := place_work hawake hnotify fun _ => hone
        have hsum := total_update LogWriter.work s.writers t .flushing
        rw [ht] at hsum
        simp only [work, setWriter, List.length_append, List.length_singleton]
        simp only [LogWriter.work] at hsum
        omega
  | @flush t ht =>
      have hsum := total_update LogWriter.work s.writers t .outside
      rw [ht] at hsum
      simp only [work, setWriter]
      simp only [LogWriter.work] at hsum
      omega
  | testClose _ hclose =>
      rw [hopen] at hclose
      cases hclose
  | testOpen ht _ =>
      simp only [work, ht, LogReader.work]
      omega
  | @popWait a bq ht ha hstep hplace =>
      have hawake : (s.bq.place none).work = 1 :=
        (hs.placed none).awake (fun _ => hown)
          (by simp [inDeque, ht, LogReader.inDeque])
      have hasleep : bq = s.bq.setPlace none .popAsleep := by
        rcases hstep.pop_cases ha with ⟨rfl, -⟩ | ⟨rfl, -⟩ |
          ⟨x, d, place, hnotify, -, -, -, rfl⟩
        · rfl
        · simp [DequeSystem.setPlace] at hplace
        · have hout := outside_of_notified hnotify rfl
          rw [show place none = .popAsleep from hplace] at hout
          cases hout
      have hsum := total_update Place.work s.bq.place none .popAsleep
      rw [hawake] at hsum
      simp only [work, hasleep, DequeSystem.setPlace]
      simp only [Place.work] at hsum
      omega
  | @popClosed a bq ht ha hstep hout hpopped =>
      have hstatus := (DequeSystem.wakeful_reachable (hs.opened hopen)).opened
      exfalso
      rcases hstep.pop_cases ha with ⟨rfl, -⟩ | ⟨rfl, hclose⟩ |
        ⟨x, d, place, -, -, -, -, rfl⟩
      · simp [DequeSystem.setPlace] at hout
      · rw [hstatus] at hclose
        cases hclose
      · simp at hpopped
  | @pop a bq str ht ha hstep _ hpopped =>
      have hawake : (s.bq.place none).work = 1 :=
        (hs.placed none).awake (fun _ => hown)
          (by simp [inDeque, ht, LogReader.inDeque])
      rcases hstep.pop_cases ha with ⟨rfl, -⟩ | ⟨rfl, -⟩ |
        ⟨x, d, place, hnotify, hdq, -, -, rfl⟩
      · simp [DequeSystem.setPlace] at hpopped
      · simp [DequeSystem.setPlace] at hpopped
      · have hle := place_work hawake hnotify fun _ => hone
        simp only [work, ht, hdq, LogReader.work, List.length_cons]
        omega
  | print ht =>
      simp only [work, ht, LogReader.work]
      omega

/-! ## Every line that was begun -/

/-- What was pushed since `s`: with what is pending it is what was pending in
`s`. -/
def Since (s s' : LogSystem Thread) : Prop :=
  ∃ lines : List Bytes, s'.bq.pushed = s.bq.pushed ++ lines ∧
    (lines : Multiset Bytes) + s'.pending = s.pending

omit [DecidableEq Thread] in
theorem Since.refl (s : LogSystem Thread) : s.Since s := by
  refine ⟨[], (List.append_nil _).symm, ?_⟩
  rw [Multiset.coe_nil, Multiset.zero_add]

theorem Step.since {s₀ : LogSystem Thread} {a : LogLabel Thread}
    (h : Step s a s') (hown : s.Own a) (hsince : s₀.Since s) :
    s₀.Since s' := by
  obtain ⟨lines, hpushed, hpending⟩ := hsince
  have hstay : ∀ {t x}, LogWriter.pending x = 0 →
      (s.writers t).pending = 0 → (s.setWriter t x).pending = s.pending := by
    intro t x hx ht
    have hsum := sum_update LogWriter.pending s.writers t x
    rw [hx, ht, add_zero, add_zero] at hsum
    exact hsum
  cases h with
  | log | destroy | closing | closed => exact hown.2.elim
  | @writeWait t msg a bq _ _ _ hsame =>
      exact ⟨lines, hsame.trans hpushed, hpending⟩
  | @write t msg a bq ht _ _ hmore =>
      have hsum := sum_update LogWriter.pending s.writers t .flushing
      rw [ht, LogWriter.pending, LogWriter.pending, add_zero] at hsum
      refine ⟨lines ++ [msg], ?_, ?_⟩
      · rw [← List.append_assoc, ← hpushed]
        exact hmore
      · rw [← hpending, ← Multiset.coe_add, Multiset.coe_singleton, add_assoc]
        exact congrArg _ ((add_comm _ _).trans hsum)
  | @flush t ht =>
      refine ⟨lines, hpushed, ?_⟩
      rw [hstay rfl (by rw [ht]; rfl)]
      exact hpending
  | testClose | testOpen | print => exact ⟨lines, hpushed, hpending⟩
  | popWait _ ha hstep | popClosed _ ha hstep | pop _ ha hstep =>
      refine ⟨lines, ?_, hpending⟩
      rcases hstep.pop_cases ha with ⟨rfl, -⟩ | ⟨rfl, -⟩ |
        ⟨x, d, place, -, -, -, -, rfl⟩ <;> exact hpushed

/-! ## Nobody is left waiting -/

omit [Fintype Thread] [DecidableEq Thread] in
theorem Placed.popper (hs : s.Placed) {i : Option Thread}
    (h : (s.bq.place i).popping = true) : i = none := by
  have hdo := (hs i).of_popping h
  cases i with
  | none => rfl
  | some t =>
      rw [inDeque] at hdo
      cases ht : s.writers t <;> rw [ht] at hdo <;> cases hdo

omit [Fintype Thread] [DecidableEq Thread] in
theorem Placed.pusher (hs : s.Placed) {i : Option Thread} {msg : Bytes}
    (h : (s.bq.place i).pushing = some msg) :
    ∃ t, i = some t ∧ s.writers t = .writing msg := by
  have hdo := (hs i).of_pushing h
  cases i with
  | none =>
      rw [inDeque] at hdo
      cases ht : s.logThread <;> rw [ht] at hdo <;> cases hdo
  | some t =>
      refine ⟨t, rfl, ?_⟩
      rw [inDeque] at hdo
      cases ht : s.writers t <;> rw [ht] at hdo <;> cases hdo
      rfl

omit [Fintype Thread] in
/-- Whoever may run in `Write` pushes his line or goes to sleep. -/
theorem write_progress {t : Thread} {msg : Bytes} (hs : s.Placed)
    (ht : s.writers t = .writing msg) : ∃ s', Step s (.write t) s' := by
  obtain ⟨a, ha, hcall⟩ : ∃ a, (a = .callPush (some t) msg ∨
      a = .wakePush (some t)) ∧
      ∀ bq, DequeSystem.PushBack s.bq (some t) msg bq →
        DequeSystem.Step s.bq a bq := by
    have hplace := hs (some t)
    rw [show s.inDeque (some t) = .pushing msg by
      rw [inDeque, ht, LogWriter.inDeque]] at hplace
    rcases hplace with hout | hpushing
    · exact ⟨_, .inl rfl, fun _ h => .callPush _ _ hout h⟩
    · exact ⟨_, .inr rfl, fun _ h => .wakePush _ hpushing h⟩
  cases hpush : s.bq.deque.pushBack msg with
  | none => exact ⟨_, .writeWait ht ha (hcall _ (.wait hpush)) rfl⟩
  | some d =>
      obtain ⟨place, hone⟩ := consumer.exists_notifyOne
        (s.bq.setPlace (some t) .outside).place
      exact ⟨_, .write ht ha (hcall _ (.push hpush hone)) rfl⟩

omit [Fintype Thread] in
/-- So does the log thread in `pop_front`, with what there is to pop. -/
theorem pop_progress (hs : s.Placed) (ht : s.logThread = .popping) :
    ∃ s', Step s .pop s' := by
  obtain ⟨a, woken, ha, hcall⟩ : ∃ a woken, (a = .callPop none ∨
      a = .wakePop none) ∧
      ∀ bq, DequeSystem.PopFront s.bq none woken bq →
        DequeSystem.Step s.bq a bq := by
    have hplace := hs none
    rw [show s.inDeque none = .popping by
      rw [inDeque, ht, LogReader.inDeque]] at hplace
    rcases hplace with hout | hpopping
    · exact ⟨_, _, .inl rfl, fun _ h => .callPop _ hout h⟩
    · exact ⟨_, _, .inr rfl, fun _ h => .wakePop _ hpopping h⟩
  cases hpop : s.bq.deque.popFront woken with
  | wait =>
      exact ⟨_, .popWait ht ha (hcall _ (.wait hpop))
        (by simp only [DequeSystem.setPlace, Function.update_self])⟩
  | closed =>
      exact ⟨_, .popClosed ht ha (hcall _ (.closed hpop))
        (by simp only [DequeSystem.setPlace, Function.update_self]) rfl⟩
  | item x d =>
      obtain ⟨place, hone⟩ := producer.exists_notifyOne
        (s.bq.setPlace none .outside).place
      exact ⟨_, .pop ht ha (hcall _ (.item hpop hone))
        (outside_of_notified hone rfl) rfl⟩

/-- The log thread waits for lines, there are none, and nobody is on the way
with one. -/
structure AtRest (s : LogSystem Thread) : Prop where
  logThread : s.logThread = .popping ∧ s.bq.place none = .popAsleep
  empty : s.bq.deque.dq = []
  writers : ∀ t, s.writers t = .outside

theorem final_at_rest (hcap : 1 ≤ cap) (hr : (system cap).Reachable s)
    (hopen : s.statue = .logOpen)
    (hfinal : ((system cap).restrict Own).Final s) : s.AtRest := by
  have hs := sound_reachable hr
  have hwake := DequeSystem.wakeful_reachable (hs.opened hopen)
  have hfifo := DequeSystem.fifo_reachable (hs.opened hopen)
  have hnone : ∀ {a s'}, s.Own a → ¬ Step s a s' := fun hown h =>
    hfinal _ _ ⟨hown, h⟩
  have hpopping : s.logThread = .popping := by
    cases ht : s.logThread with
    | popping => rfl
    | testing =>
        exact absurd (.testOpen ht hopen) (hnone (a := .test) ⟨hopen, trivial⟩)
    | printing str =>
        exact absurd (.print ht) (hnone (a := .print) ⟨hopen, trivial⟩)
    | returned =>
        have hclose := hs.returned ht
        rw [hopen] at hclose
        cases hclose
  have hasleep : s.bq.place none = .popAsleep := by
    by_contra hawake
    obtain ⟨s', h⟩ := pop_progress hs.placed hpopping
    refine hnone (a := .pop) ⟨hopen, ?_⟩ h
    rwa [asleep_consumer]
  have hempty : s.bq.deque.dq = [] := by
    by_contra hitems
    have hpos := List.length_pos_iff.mpr hitems
    have hcover := hwake.consumers ⟨none, asleep_consumer.mpr hasleep⟩
    have hpending : 0 < consumer.pending s.bq.place :=
      Nat.lt_of_lt_of_le hpos hcover
    obtain ⟨i, hi⟩ := exists_of_population hpending
    -- Nobody else pops, and the log thread is not notified.
    rw [hs.placed.popper (Place.popping_of_notified hi), hasleep] at hi
    cases hi
  refine ⟨⟨hpopping, hasleep⟩, hempty, fun t => ?_⟩
  have hwriting : ∀ {t msg}, s.writers t = .writing msg →
      producer.Asleep (s.bq.place (some t)) := by
    intro t msg ht
    by_contra hawake
    obtain ⟨s', h⟩ := write_progress hs.placed ht
    exact hnone (a := .write t) ⟨hopen, hawake⟩ h
  cases ht : s.writers t with
  | outside => rfl
  | flushing =>
      exact absurd (.flush ht) (hnone (a := .flush t) ⟨hopen, trivial⟩)
  | closing =>
      have hclose := hs.closing t ht
      rw [hopen] at hclose
      cases hclose
  | writing msg =>
      exfalso
      have hcover := hwake.producers ⟨some t, hwriting ht⟩
      have hslots : 0 < s.bq.freeSlots := by
        rw [DequeSystem.freeSlots, hempty, List.length_nil, hfifo.capability]
        omega
      have hpending : 0 < producer.pending s.bq.place :=
        Nat.lt_of_lt_of_le hslots hcover
      obtain ⟨i, hi⟩ := exists_of_population hpending
      obtain ⟨msg', hmsg⟩ := Place.pushing_of_notified hi
      obtain ⟨t', rfl, ht'⟩ := hs.placed.pusher hmsg
      exact absurd hi (by rw [(hwriting ht').not_notified]; simp)

omit [Fintype Thread] in
theorem AtRest.console (h : s.AtRest) (hs : s.Sound cap)
    (hopen : s.statue = .logOpen) : s.console = s.bq.pushed := by
  have hfifo := DequeSystem.fifo_reachable (hs.opened hopen)
  have hconsole := hs.console
  rw [h.logThread.1, LogReader.inHand, List.append_nil] at hconsole
  rw [hconsole, ← hfifo.order, h.empty, List.append_nil]

omit [Fintype Thread] in
theorem Step.stays_open {a : LogLabel Thread} (h : Step s a s')
    (hown : s.Own a) : s'.statue = .logOpen := by
  have hopen := hown.1
  cases h with
  | destroy => exact hown.2.elim
  | _ => exact hopen

/-- With the log open, from every state it gets to: what is printed, popped
and in the deque is what was pushed, in that order. With nothing more logged,
the threads take at most `work` steps, and when they can take no more the log
thread sleeps, nobody is in a `LOG`, and the console has what was pushed before
and then every line that was still to be pushed. -/
theorem logged_is_printed (hcap : 1 ≤ cap) (hr : (system cap).Reachable s)
    (hopen : s.statue = .logOpen) :
    s.console ++ s.logThread.inHand ++ s.bq.deque.dq = s.bq.pushed ∧
    (∀ as s', ((system cap).restrict Own).Run s as s' →
      as.length ≤ s.work) ∧
    (∃ as s', ((system cap).restrict Own).Run s as s' ∧
      ((system cap).restrict Own).Final s') ∧
    ∀ as s', ((system cap).restrict Own).Run s as s' →
      ((system cap).restrict Own).Final s' →
      s'.AtRest ∧ ∃ lines : List Bytes,
        s'.console = s.bq.pushed ++ lines ∧ (lines : Multiset Bytes) = s.pending
    := by
  have hs := sound_reachable hr
  refine ⟨?_, fun as s' hrun => ?_,
    TransitionSystem.exists_final work_potential hr,
    fun as s' hrun hfinal => ?_⟩
  · rw [hs.console]
    exact (DequeSystem.fifo_reachable (hs.opened hopen)).order
  · have hle := hrun.length_le work_potential hr
    omega
  · have hr' := hrun.of_restrict.reachable hr
    obtain ⟨hopen', lines, hpushed, hpending⟩ :
        s'.statue = .logOpen ∧ s.Since s' := by
      refine hrun.invariant (I := fun _ t => t.statue = .logOpen ∧ s.Since t)
        ⟨hopen, .refl s⟩ ?_
      rintro _ _ _ _ ⟨-, ih⟩ ⟨hown, h⟩
      exact ⟨Step.stays_open h hown, Step.since h hown ih⟩
    have hrest := final_at_rest hcap hr' hopen' hfinal
    refine ⟨hrest, lines, ?_, ?_⟩
    · rw [hrest.console (sound_reachable hr') hopen', hpushed]
    · have hzero : s'.pending = 0 :=
        Finset.sum_eq_zero fun t _ => by rw [hrest.writers t, LogWriter.pending]
      rw [← hpending, hzero, add_zero]

/-- The first line of a run. -/
def initSuccess : LogCall :=
  { level := .info, formatted := lit "Log Init Success."
    filename := lit "src/webserver.cpp", line := 30
    timeStr := lit "Thu Jan  1 00:00:00 1970\n", thread := lit "1" }

/-- `true` has filled the one slot of the deque, `false` waits with the next
line, and the log thread has not started. -/
def backedUp : LogSystem Bool :=
  let call := initSuccess
  { statue := .logOpen
    bq := {
      deque := ⟨1, .dqOpen, [call.msg]⟩
      place := Function.update (Function.update (fun _ => .outside)
        (some true) .outside) (some false) (.pushAsleep call.msg)
      pushed := [call.msg], popped := [], consumersTold := false
      closed := false }
    logThread := .testing
    writers := Function.update (Function.update (Function.update (fun _ =>
      .outside) true (.writing call.msg)) false (.writing call.msg))
        true .flushing
    console := [] }

omit [Fintype Thread] [DecidableEq Thread] in
theorem backedUp_reachable : (system 1).Reachable backedUp := by
  have h₀ : (system 1).Reachable (⟨.logOpen, ⟨.construct 1, fun _ => .outside,
      [], [], false, false⟩, .testing, fun _ => .outside, []⟩ :
        LogSystem Bool) :=
    .start ⟨rfl, ⟨rfl, fun _ => rfl, rfl, rfl, rfl, rfl⟩, rfl, fun _ => rfl,
      rfl⟩
  have h₁ := h₀.next (.log true initSuccess rfl rfl)
  have h₂ := h₁.next (.log false initSuccess rfl rfl)
  have h₃ := h₂.next (.write (t := true) rfl (.inl rfl)
    (.callPush (some true) initSuccess.msg rfl (.push rfl (.nobody
      (Option.forall.mpr ⟨rfl, Bool.forall_bool.mpr ⟨rfl, rfl⟩⟩)))) rfl)
  exact h₃.next (.writeWait (t := false) rfl (.inl rfl)
    (.callPush (some false) initSuccess.msg rfl (.wait rfl)) rfl)

theorem logged_is_printed_backedUp :
    backedUp.console ++ backedUp.logThread.inHand ++ backedUp.bq.deque.dq
      = backedUp.bq.pushed ∧
    (∀ as s', ((system 1).restrict Own).Run backedUp as s' →
      as.length ≤ backedUp.work) ∧
    (∃ as s', ((system 1).restrict Own).Run backedUp as s' ∧
      ((system 1).restrict Own).Final s') ∧
    ∀ as s', ((system 1).restrict Own).Run backedUp as s' →
      ((system 1).restrict Own).Final s' →
      s'.AtRest ∧ ∃ lines : List Bytes,
        s'.console = backedUp.bq.pushed ++ lines ∧
        (lines : Multiset Bytes) = backedUp.pending :=
  logged_is_printed (Nat.le_refl 1) backedUp_reachable rfl

/-! ## `~Log` -/

omit [Fintype Thread]

/-- On a closed log the log thread prints what it holds, or what it pops,
and then finds `_statue` changed. -/
theorem Step.last_line {a : LogLabel Thread} (h : Step s a s')
    (hclose : s.statue = .logClose) :
    s'.statue = .logClose ∧
    s'.console.length + s'.logThread.coming
      ≤ s.console.length + s.logThread.coming := by
  cases h with
  | log _ _ hopen | testOpen _ hopen | destroy _ hopen =>
      rw [hclose] at hopen
      cases hopen
  | popClosed ht | pop ht | testClose ht =>
      refine ⟨hclose, ?_⟩
      simp only [ht, LogReader.coming]
      omega
  | print ht =>
      refine ⟨hclose, ?_⟩
      simp only [ht, LogReader.coming, List.length_append,
        List.length_singleton]
      omega
  | _ => exact ⟨hclose, Nat.le_refl _⟩

/-- In every state: the lines on the console are lines that were pushed, in
that order, and none is missing in between while the log is open. From the
moment `~Log` has changed `_statue`, whatever anybody does, there is one more
line at most. -/
theorem destroyed_prints_one (hr : (system cap).Reachable s) :
    s.console.Sublist s.bq.pushed ∧
    (s.statue = .logOpen → s.console <+: s.bq.pushed) ∧
    (s.statue = .logClose → ∀ as s', (system cap).Run s as s' →
      s'.console.length ≤ s.console.length + 1) := by
  have hs := sound_reachable hr
  have hpopped : s.console <+: s.bq.popped := ⟨_, hs.console⟩
  refine ⟨?_, fun hopen => ?_, fun hclose as s' hrun => ?_⟩
  · exact hpopped.sublist.trans
      ((List.sublist_append_left _ _).trans hs.pushed)
  · have hfifo := DequeSystem.fifo_reachable (hs.opened hopen)
    exact hpopped.trans ⟨_, hfifo.order⟩
  · have hle : s'.console.length + s'.logThread.coming
        ≤ s.console.length + s.logThread.coming := by
      refine (hrun.invariant (I := fun _ t => t.statue = .logClose ∧
        t.console.length + t.logThread.coming
          ≤ s.console.length + s.logThread.coming)
        ⟨hclose, Nat.le_refl _⟩ ?_).2
      rintro _ _ _ _ ⟨hclose, ih⟩ h
      obtain ⟨hclose', hless⟩ := Step.last_line h hclose
      exact ⟨hclose', hless.trans ih⟩
    have hone : s.logThread.coming ≤ 1 := by
      cases s.logThread <;> simp [LogReader.coming]
    omega

/-- `true` is in `~Log` with a line in the deque and the log thread in
`pop_front`. -/
theorem destroyed_prints_one_backedUp :
    ∃ s : LogSystem Bool, s.statue = .logClose ∧ s.logThread = .popping ∧
      s.console.Sublist s.bq.pushed ∧
      (s.statue = .logOpen → s.console <+: s.bq.pushed) ∧
      (s.statue = .logClose → ∀ as s', (system 1).Run s as s' →
        s'.console.length ≤ s.console.length + 1) := by
  have h₁ := backedUp_reachable.next (.testOpen rfl rfl)
  have h₂ := h₁.next (.flush (t := true) rfl)
  have h₃ := h₂.next (.destroy true rfl rfl)
  exact ⟨_, rfl, rfl, destroyed_prints_one h₃⟩

end LogSystem

end TinyWebServer
