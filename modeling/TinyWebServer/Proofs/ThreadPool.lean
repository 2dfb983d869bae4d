import TinyWebServer.Model.ThreadPool

/-!
# The thread pool runs every task once and loses no wake-up

Two invariants, each read off the steps. The first is about the queue: what
was taken and what is queued is what was added, and a worker that has left its
loop left it with an empty queue and the flag down, after which nothing is
added. The second is about the condition variable. `AddTask` notifies after it
gave the lock up, so the notified workers alone do not cover the queued tasks:
the calls that have pushed and not yet notified cover the rest. Once the flag
is down nobody sleeps at all, and the order of the two tests in the loop, the
queue before the flag, is what the first invariant needs.
-/

namespace TinyWebServer

open Lib

namespace ThreadPool

variable {Task : Type}

theorem round_run {p p' : ThreadPool Task} {task : Task}
    (h : p.round = .run task p') :
    p.tasks = task :: p'.tasks ∧ p'.status = p.status := by
  rw [round] at h
  split at h
  · next t rest ht =>
      cases h
      exact ⟨ht, rfl⟩
  · split at h <;> cases h

theorem round_leave {p : ThreadPool Task} (h : p.round = .leave) :
    p.tasks = [] ∧ p.status = false := by
  rw [round] at h
  split at h
  · cases h
  · next ht =>
      split at h
      · next hs => exact ⟨ht, hs⟩
      · cases h

theorem round_wait {p : ThreadPool Task} (h : p.round = .wait) :
    p.tasks = [] ∧ p.status = true := by
  rw [round] at h
  split at h
  · cases h
  · next ht =>
      split at h
      · cases h
      · next hs => exact ⟨ht, by simpa using hs⟩

theorem asleep_cv {x : Place Task} : cv.Asleep x ↔ x = .asleep := by
  cases x with
  | asleep => exact ⟨fun _ => rfl, fun _ => rfl⟩
  | ready | notified | busy | exited => exact ⟨nofun, nofun⟩

/-- A notification leads nowhere but to `notified`. -/
theorem wake_eq {x y z : Place Task} (h : y = x ∨ cv.wake x = some y)
    (hz : z ≠ .notified) (hy : y = z) : x = z := by
  rcases h with h | h
  · rw [← h, hy]
  · cases x with
    | asleep =>
        cases h
        exact absurd hy.symm hz
    | ready | notified | busy | exited => cases h

end ThreadPool

namespace ThreadSystem

variable {Worker Task : Type} [DecidableEq Worker]

/-- A place the step does not lead to is one the worker was in before. -/
theorem setPlace_eq {s : ThreadSystem Worker Task} {w v : Worker}
    {x z : ThreadPool.Place Task} (hx : x ≠ z)
    (h : (s.setPlace w x).place v = z) : s.place v = z := by
  change Function.update s.place w x v = z at h
  by_cases hv : v = w
  · subst hv
    rw [Function.update_self] at h
    exact absurd h hx
  · rwa [Function.update_of_ne hv] at h

/-! ## Every task once -/

/-- The queue is what was added and not taken, and who left its loop left it
for good. -/
structure InOrder (s : ThreadSystem Worker Task) : Prop where
  order : s.taken ++ s.pool.tasks = s.added
  exited : ∀ w, s.place w = .exited →
    s.pool.tasks = [] ∧ s.pool.status = false

theorem Step.inOrder {s s' : ThreadSystem Worker Task}
    {a : ThreadLabel Worker Task} (h : Step s a s') (halive : s.Alive a)
    (hs : s.InOrder) : s'.InOrder := by
  cases h with
  | add task =>
      refine ⟨?_, fun w hw => ?_⟩
      · show s.taken ++ (s.pool.tasks ++ [task]) = s.added ++ [task]
        rw [← List.append_assoc, hs.order]
      · have hdown := (hs.exited w hw).2
        rw [show s.pool.status = true from halive] at hdown
        cases hdown
  | notify _ hone =>
      refine ⟨hs.order, fun w hw => hs.exited w ?_⟩
      exact ThreadPool.wake_eq (hone.place w) (by nofun) hw
  | @run w task p _ hround =>
      obtain ⟨htasks, hstatus⟩ := ThreadPool.round_run hround
      refine ⟨?_, fun v hv => ?_⟩
      · show s.taken ++ [task] ++ p.tasks = s.added
        rw [← hs.order, htasks, List.append_assoc]
        rfl
      · have hempty := (hs.exited v (setPlace_eq (by nofun) hv)).1
        rw [htasks] at hempty
        cases hempty
  | leave _ hround => exact ⟨hs.order, fun _ _ => ThreadPool.round_leave hround⟩
  | wait | finish =>
      exact ⟨hs.order, fun v hv => hs.exited v (setPlace_eq (by nofun) hv)⟩
  | shutdown =>
      refine ⟨hs.order, fun w hw => ⟨?_, rfl⟩⟩
      exact (hs.exited w (ThreadPool.wake_eq (CondVar.notifyAll_place _ _ w)
        (by nofun) hw)).1

theorem inOrder_reachable {s : ThreadSystem Worker Task}
    (hs : (system.restrict Alive).Reachable s) : s.InOrder := by
  refine hs.invariant (I := InOrder) ?_ ?_
  · rintro s ⟨hpool, hready, -, hadded, htaken⟩
    refine ⟨by rw [hpool, hadded, htaken]; rfl, fun w hw => ?_⟩
    rw [hready w] at hw
    cases hw
  · exact fun s a s' _ ih hstep => hstep.2.inOrder hstep.1 ih

theorem Step.exit {s s' : ThreadSystem Worker Task}
    {a : ThreadLabel Worker Task} (h : Step s a s') {v : Worker}
    (hv : s.place v ≠ .exited) (hv' : s'.place v = .exited) :
    s.pool.tasks = [] ∧ s.pool.status = false := by
  cases h with
  | add => exact absurd hv' hv
  | notify _ hone =>
      exact absurd (ThreadPool.wake_eq (hone.place v) (by nofun) hv') hv
  | run | wait | finish => exact absurd (setPlace_eq (by nofun) hv') hv
  | leave _ hround => exact ThreadPool.round_leave hround
  | shutdown =>
      exact absurd (ThreadPool.wake_eq (CondVar.notifyAll_place _ _ v)
        (by nofun) hv') hv

/-- Any number of workers, at least one, and no `AddTask` after the
destructor: in every state reached the tasks taken and the tasks queued are
the tasks added, in the order of the lock, and a worker leaves its loop only
with the queue empty and the flag down. When all have left, every task was
taken once. -/
theorem tasks_run_once [Nonempty Worker] {s : ThreadSystem Worker Task}
    (hs : (system.restrict Alive).Reachable s) :
    s.taken ++ s.pool.tasks = s.added ∧
    (∀ a s' w, Step s a s' → s.place w ≠ .exited → s'.place w = .exited →
      s.pool.tasks = [] ∧ s.pool.status = false) ∧
    ((∀ w, s.place w = .exited) → s.taken = s.added) := by
  have hinv := inOrder_reachable hs
  refine ⟨hinv.order, fun a s' w hstep hw hw' => hstep.exit hw hw', ?_⟩
  intro hall
  obtain ⟨w⟩ := ‹Nonempty Worker›
  have horder := hinv.order
  rw [(hinv.exited w (hall w)).1, List.append_nil] at horder
  exact horder

/-- Two workers: a task is added and taken, the destructor runs, and both
leave, one of them straight from its first round. -/
theorem tasks_run_once_two :
    let s : ThreadSystem Bool Nat :=
      { pool := ⟨false, []⟩
        place := Function.update (Function.update (Function.update
          (ThreadPool.cv.notifyAll
            (Function.update (fun _ => .ready) true (.busy 7)))
          false .exited) true .ready) true .exited
        unnotified := 1, added := [7], taken := [7] }
    s.taken ++ s.pool.tasks = s.added ∧
    (∀ a s' w, Step s a s' → s.place w ≠ .exited → s'.place w = .exited →
      s.pool.tasks = [] ∧ s.pool.status = false) ∧
    ((∀ w, s.place w = .exited) → s.taken = s.added) := by
  intro s
  have hstart : (system.restrict Alive).Reachable
      (⟨.construct, fun _ => .ready, 0, [], []⟩ : ThreadSystem Bool Nat) :=
    .start ⟨rfl, fun _ => rfl, rfl, rfl, rfl⟩
  have hbusy := (hstart.next_restrict (.add 7) rfl).next_restrict
    (.run (w := true) rfl rfl) trivial
  have hs : (system.restrict Alive).Reachable s :=
    (((hbusy.next_restrict .shutdown trivial).next_restrict
      (.leave (w := false) rfl rfl) trivial).next_restrict
        (.finish (w := true) rfl) trivial).next_restrict
          (.leave (w := true) rfl rfl) trivial
  exact tasks_run_once hs

/-! ## No wake-up is lost -/

/-- The queued tasks are covered by the notified workers and the calls that
still have to notify; with the flag down nobody sleeps. -/
structure Wakeful [Fintype Worker] (s : ThreadSystem Worker Task) : Prop where
  covered : s.pool.status = true →
    ThreadPool.cv.Covered s.place (s.pool.tasks.length - s.unnotified)
  awake : s.pool.status = false → ∀ w, s.place w ≠ .asleep

theorem Step.wakeful [Fintype Worker] {s s' : ThreadSystem Worker Task}
    {a : ThreadLabel Worker Task} (h : Step s a s') (hs : s.Wakeful) :
    s'.Wakeful := by
  cases h with
  | add task =>
      refine ⟨fun hup => (hs.covered hup).mono ?_, hs.awake⟩
      show (s.pool.tasks ++ [task]).length - (s.unnotified + 1) ≤ _
      rw [List.length_append, List.length_singleton]
      omega
  | @notify n place hn hone =>
      refine ⟨fun hup => ((hs.covered hup).notifyOne hone).mono ?_, ?_⟩
      · show s.pool.tasks.length - n ≤ _
        omega
      · exact fun hdown w hw => hs.awake hdown w
          (ThreadPool.wake_eq (hone.place w) (by nofun) hw)
  | @run w task p _ hround =>
      obtain ⟨htasks, hstatus⟩ := ThreadPool.round_run hround
      refine ⟨fun hup => ?_, fun hdown v hv => ?_⟩
      · -- Whoever the task was notified for, one task less is to be covered.
        refine ((hs.covered (hstatus ▸ hup)).take rfl).mono ?_
        show p.tasks.length - s.unnotified ≤ _
        rw [htasks, List.length_cons]
        omega
      · exact hs.awake (hstatus ▸ hdown) v (setPlace_eq (by nofun) hv)
  | leave _ hround =>
      have hdown := (ThreadPool.round_leave hround).2
      refine ⟨fun hup => ?_, fun _ v hv => ?_⟩
      · rw [show s.pool.status = true from hup] at hdown
        cases hdown
      · exact hs.awake hdown v (setPlace_eq (by nofun) hv)
  | wait _ hround =>
      obtain ⟨htasks, hup⟩ := ThreadPool.round_wait hround
      refine ⟨fun _ => ?_, fun hdown => ?_⟩
      · show ThreadPool.cv.Covered _ (s.pool.tasks.length - s.unnotified)
        rw [htasks, List.length_nil, Nat.zero_sub]
        exact .zero
      · rw [show s.pool.status = false from hdown] at hup
        cases hup
  | finish hbusy =>
      refine ⟨fun hup => ?_, fun hdown v hv => ?_⟩
      · exact (hs.covered hup).move (by rw [hbusy]; rfl) rfl
      · exact hs.awake hdown v (setPlace_eq (by nofun) hv)
  | shutdown =>
      refine ⟨nofun, fun _ w hw => ?_⟩
      exact CondVar.not_asleep_notifyAll _ s.place w
        (ThreadPool.asleep_cv.mpr hw)

theorem wakeful_reachable [Fintype Worker] {s : ThreadSystem Worker Task}
    (hs : system.Reachable s) : s.Wakeful := by
  refine hs.invariant (I := Wakeful) ?_ ?_
  · rintro s ⟨hpool, hready, -, -, -⟩
    refine ⟨fun _ => ?_, fun _ w hw => ?_⟩
    · rw [hpool]
      show ThreadPool.cv.Covered _ (0 - s.unnotified)
      rw [Nat.zero_sub]
      exact .zero
    · rw [hready w] at hw
      cases hw
  · exact fun s a s' _ ih hstep => hstep.wakeful ih

/-- The flag never comes up again. -/
theorem Step.down {s s' : ThreadSystem Worker Task}
    {a : ThreadLabel Worker Task} (h : Step s a s')
    (hdown : s.pool.status = false) : s'.pool.status = false := by
  cases h with
  | add | notify | leave | wait | finish => exact hdown
  | run _ hround => exact (ThreadPool.round_run hround).2.trans hdown
  | shutdown => rfl

/-- Over every interleaving: while the pool is up and a worker sleeps, the
queued tasks are no more than the notified workers and the `AddTask` calls
still to notify; once the destructor has run no worker sleeps, and none will. -/
theorem threads_no_lost_wakeup [Fintype Worker]
    {s : ThreadSystem Worker Task} (hs : system.Reachable s) :
    (s.pool.status = true → (∃ w, s.place w = .asleep) →
      s.pool.tasks.length
        ≤ ThreadPool.cv.pending s.place + s.unnotified) ∧
    (s.pool.status = false → (∀ w, s.place w ≠ .asleep) ∧
      ∀ a s', Step s a s' →
        s'.pool.status = false ∧ ∀ w, s'.place w ≠ .asleep) := by
  have hinv := wakeful_reachable hs
  refine ⟨fun hup hsleep => ?_, fun hdown => ⟨hinv.awake hdown, ?_⟩⟩
  · obtain ⟨w, hw⟩ := hsleep
    have hle := hinv.covered hup ⟨w, ThreadPool.asleep_cv.mpr hw⟩
    omega
  · intro a s' hstep
    have hdown' := hstep.down hdown
    exact ⟨hdown', (hstep.wakeful hinv).awake hdown'⟩

/-- Two sleeping workers and two tasks pushed; one call has notified, the
other has not, and the worker still asleep is covered. -/
theorem threads_no_lost_wakeup_two :
    let s : ThreadSystem Bool Nat :=
      { pool := ⟨true, [7, 8]⟩
        place := Function.update (Function.update (Function.update
          (fun _ => .ready) true .asleep) false .asleep) true .notified
        unnotified := 1, added := [7, 8], taken := [] }
    (s.pool.status = true → (∃ w, s.place w = .asleep) →
      s.pool.tasks.length
        ≤ ThreadPool.cv.pending s.place + s.unnotified) ∧
    (s.pool.status = false → (∀ w, s.place w ≠ .asleep) ∧
      ∀ a s', Step s a s' →
        s'.pool.status = false ∧ ∀ w, s'.place w ≠ .asleep) := by
  intro s
  have hstart : system.Reachable
      (⟨.construct, fun _ => .ready, 0, [], []⟩ : ThreadSystem Bool Nat) :=
    .start ⟨rfl, fun _ => rfl, rfl, rfl, rfl⟩
  have hasleep := (hstart.next (.wait (w := true) rfl rfl)).next
    (.wait (w := false) rfl rfl)
  have hs : system.Reachable s :=
    ((hasleep.next (.add 7)).next (.add 8)).next
      (.notify rfl (.sleeper (i := true) rfl))
  exact threads_no_lost_wakeup hs

end ThreadSystem

end TinyWebServer
