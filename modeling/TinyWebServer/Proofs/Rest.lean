import TinyWebServer.Lib.Progress
import TinyWebServer.Proofs.Faults
import TinyWebServer.Proofs.Pooled

/-!
# The server comes to rest

What the server does by itself is all but the events that `epoll_wait` reports,
the clients that `accept` hands over and the wake-ups nobody asked for. Left
to itself it stops after as many steps as `work` says, with the main loop in
`epoll_wait`, the queue empty and every worker asleep, or else the process has
stopped. So there is no deadlock between the main loop and the workers, no
task that is left behind by workers asleep, and no loop that goes on without
the world.
-/

namespace TinyWebServer

open Lib

namespace Server

variable {Thread : Type} [DecidableEq Thread] [Fintype Thread]

open PooledServer (InLoop InTask)

/-- Away from `epoll_wait`, the main loop goes on or stops the process. -/
theorem loop_progress {s : Server Thread} (hs : system.Reachable s)
    (hm : s.main ≠ .waiting) :
    (∃ a s', InLoop a ∧ (∀ batch, a ≠ .wait batch) ∧
      (∀ fd, a ≠ .accept (.connected fd)) ∧ Step s a s') ∨
    ∃ a f, s.Stops a f := by
  have hi := inv_reachable hs
  cases hmain : s.main with
  | waiting => exact absurd hmain hm
  | dispatching batch =>
      left
      cases batch with
      | nil => exact ⟨.turn, _, trivial, by simp, by simp, .turn hmain⟩
      | cons e batch =>
          obtain ⟨s', hd⟩ := dispatch_returns batch (hi.dispatch_found hmain)
          exact ⟨.dispatch, s', trivial, by simp, by simp, .dispatch hmain hd⟩
  | accepting batch =>
      exact .inl ⟨.accept .wouldBlock, _, trivial, by simp, by simp,
        .acceptEnd hmain (by simp)⟩
  | accepted fd batch =>
      have hfresh : blankConnector.Fresh := ⟨_, _, _, _, _, _, rfl⟩
      cases ha : s.addConnection blankConnector fd batch with
      | ok s' =>
          exact .inl ⟨.addConnection blankConnector, s', trivial, by simp,
            by simp, .addConnection hmain hfresh ha⟩
      | error f => exact .inr ⟨_, f, .addConnection hmain hfresh ha⟩
  | adding fd batch =>
      cases ha : s.addFd false fd batch with
      | ok s' =>
          exact .inl ⟨.addFd false, s', trivial, by simp, by simp,
            .addFd hmain (by simp) ha⟩
      | error f => exact .inr ⟨_, f, .addFd hmain ha⟩
  | logging fd batch =>
      exact .inl ⟨.logged, _, trivial, by simp, by simp, .logged hmain⟩
  | closing stage fd batch =>
      left
      have hclose : ∃ s', s.closeConnection fd stage = some s' := by
        cases stage with
        | log => exact ⟨s, rfl⟩
        | delFd | close =>
            obtain ⟨c, hc, -⟩ := hi.connected fd
              (by rw [situations, handling, hmain, MainLoop.current,
                inHand_some, if_pos rfl]; omega)
              (by rw [hmain]; simp)
            exact ⟨_, by rw [closeConnection, hc]; rfl⟩
      obtain ⟨s', hcl⟩ := hclose
      exact ⟨.close, _, trivial, by simp, by simp, .close hmain hcl⟩

/-- A worker in a task goes on or stops the process. -/
theorem task_progress {s : Server Thread} (hs : system.Reachable s)
    {t : Thread} (ht : s.workers t ≠ .idle) :
    (∃ a s', (InTask a ∨ a = .finish t) ∧ Step s a s') ∨
    ∃ a f, s.Stops a f := by
  have hi := inv_reachable hs
  have hfound : ∀ {fd}, (s.workers t).client = some fd →
      ∃ c, s.clients fd = some c := by
    intro fd hclient
    have hrun : 0 < s.running fd :=
      population_pos (p := fun pc : Worker => pc.client = some fd) hclient
    have hone := (hi.single fd).trans (Bool.toNat_le _)
    obtain ⟨c, hc, -⟩ := hi.connected fd (by rw [situations]; omega) (by
      intro batch hm
      rw [situations, handling, hm, MainLoop.current, inHand_some,
        if_pos rfl] at hone
      omega)
    exact ⟨c, hc⟩
  cases hpc : s.workers t with
  | idle => exact absurd hpc ht
  | running kind fd =>
      obtain ⟨c, hc⟩ := hfound (by rw [hpc]; rfl)
      cases kind with
      | read =>
          cases hr : c.read [] ⟨HttpConnector.zeroSpill, none⟩ with
          | ok out =>
              obtain ⟨c', ret, status⟩ := out
              exact .inl ⟨.read t [] _, _, .inl trivial, .read hpc hc hr⟩
          | error f => exact .inr ⟨_, f, .read hpc hc hr⟩
      | write =>
          exact .inl ⟨.write t [0] true, _, .inl trivial,
            .write hpc hc (by rw [HttpConnector.write, if_pos rfl])⟩
  | processing fd =>
      obtain ⟨c, hc⟩ := hfound (by rw [hpc]; rfl)
      cases hp : c.process flatWorld with
      | ok out =>
          obtain ⟨c', ready⟩ := out
          exact .inl ⟨.process t flatWorld, _, .inl trivial,
            .process hpc hc hp⟩
      | error f => exact .inr ⟨_, f, .process hpc hc hp⟩
  | rearming out fd =>
      obtain ⟨c, hc⟩ := hfound (by rw [hpc]; rfl)
      exact .inl ⟨.modFd t false, _, .inl trivial,
        .modFd hpc hc (by simp)⟩
  | closing stage fd => exact absurd hpc (hi.noCloser t stage fd)
  | finishing => exact .inl ⟨_, _, .inr rfl, .finish hpc⟩

end Server

/-- A worker outside its task has at most the lock to take. -/
def ThreadPool.Place.work {Task : Type} : ThreadPool.Place Task → Nat
  | .ready | .notified => 1
  | .asleep | .busy _ | .exited => 0

namespace PooledServer

variable {Thread : Type} [DecidableEq Thread] [Fintype Thread]

/-! ## No task is slept over -/

/-- While a task is queued and a worker sleeps, a notification is under way or
has reached somebody. -/
theorem attended {s : PooledServer Thread} (hs : system.Reachable s)
    (hq : s.server.queue ≠ []) (hsleep : ∃ t, s.place t = .asleep) :
    s.notifying = true ∨ ∃ t, s.place t = .notified := by
  obtain ⟨p, hp, hview⟩ := threads_simulate.reachable hs
  obtain ⟨t, ht⟩ := hsleep
  have hle := (ThreadSystem.wakeful_reachable hp).covered
    (by rw [hview.pool]; rfl)
    ⟨t, by rw [hview.place]; exact ThreadPool.asleep_cv.mpr ht⟩
  rw [hview.pool, hview.unnotified, hview.place] at hle
  cases hnot : s.notifying with
  | true => exact .inl rfl
  | false =>
      right
      have hpos : 0 < s.server.queue.length := List.length_pos_iff.mpr hq
      rw [hnot, Bool.toNat_false] at hle
      simp only [pool] at hle
      have hpending : 0 < ThreadPool.cv.pending s.place := by omega
      obtain ⟨t', ht'⟩ := exists_of_population hpending
      refine ⟨t', ?_⟩
      cases hplace : s.place t' with
      | notified => rfl
      | ready | asleep | busy _ | exited =>
          rw [hplace] at ht'
          cases ht'

/-! ## Left to itself -/

/-- What happens without the world: `epoll_wait` does not return, `accept`
hands over nobody, and who is asleep stays asleep until it is notified. -/
def Own (s : PooledServer Thread) : PooledLabel Thread → Prop
  | .server (.wait _) | .server (.accept (.connected _)) => False
  | .server (.take t) | .round t => s.place t ≠ .asleep
  | _ => True

/-- How many steps the server can take by itself, at most. -/
def work (s : PooledServer Thread) : Nat :=
  s.server.main.work + 7 * s.server.queue.length + 2 * s.notifying.toNat +
    total Worker.work s.server.workers + total ThreadPool.Place.work s.place

/-- Everybody waits for the world. -/
structure AtRest (s : PooledServer Thread) : Prop where
  main : s.server.main = .waiting
  queue : s.server.queue = []
  notifying : s.notifying = false
  workers : ∀ t, s.server.workers t = .idle ∧ s.place t = .asleep

theorem work_potential : TransitionSystem.Potential
    (system : TransitionSystem (PooledServer Thread) _) Own work := by
  intro s a s' hs hown h
  cases h with
  | @loop a server hnot ha h hqueue =>
      have hdown := loop_work ha (by rintro batch rfl; exact hown)
        (by rintro fd rfl; exact hown) h
      rw [hqueue] at hdown
      simp only [work, (loop_frame ha h).1, hqueue]
      omega
  | @addTask a server task hnot ha h hqueue =>
      have hdown := loop_work ha (by rintro batch rfl; exact hown)
        (by rintro fd rfl; exact hown) h
      rw [hqueue, List.length_append, List.length_singleton] at hdown
      simp only [work, (loop_frame ha h).1, hqueue, hnot, Bool.toNat_true,
        Bool.toNat_false, List.length_append, List.length_singleton]
      omega
  | @notify place hnot hone =>
      have hone' : total ThreadPool.Place.work place
          ≤ total ThreadPool.Place.work s.place + 1 :=
        hone.total_le 1 fun {_ y} _ => by
          cases y <;> simp [ThreadPool.Place.work]
      simp only [work, hnot, Bool.toNat_true, Bool.toNat_false]
      omega
  | @run t task q server hrun hround h =>
      cases h with
      | @take _ task' rest ht hq =>
          have hplace := total_update ThreadPool.Place.work s.place t
            (.busy task)
          have hwork := total_update Worker.work s.server.workers t
            (.running task'.kind task'.client)
          have hone : (s.place t).work = 1 := by
            cases hpc : s.place t with
            | ready | notified => rfl
            | asleep => exact absurd hpc hown
            | busy _ | exited => rw [hpc] at hrun; cases hrun
          simp only [work, setPlace, Server.setWorker, hq, List.length_cons]
          rw [hone] at hplace
          rw [ht] at hwork
          simp only [Worker.work, ThreadPool.Place.work] at hwork hplace
          omega
  | @wait t hrun hround =>
      have hplace := total_update ThreadPool.Place.work s.place t .asleep
      have hone : (s.place t).work = 1 := by
        cases hpc : s.place t with
        | ready | notified => rfl
        | asleep => exact absurd hpc hown
        | busy _ | exited => rw [hpc] at hrun; cases hrun
      simp only [work, setPlace]
      rw [hone] at hplace
      simp only [ThreadPool.Place.work] at hplace
      omega
  | @inTask a server ha h =>
      obtain ⟨hmain, hqueue, t, pc, hworkers, -, hless⟩ := task_work ha h
      have hwork := total_update Worker.work s.server.workers t pc
      simp only [work, hmain, hqueue, hworkers]
      omega
  | @finish t server h =>
      obtain ⟨task, hbusy⟩ := ((placed_reachable hs).busy t).mpr (by
        cases h with
        | finish ht => rw [ht]; simp)
      cases h with
      | finish ht =>
          have hplace := total_update ThreadPool.Place.work s.place t .ready
          have hwork := total_update Worker.work s.server.workers t .idle
          rw [hbusy] at hplace
          rw [ht] at hwork
          simp only [work, setPlace, Server.setWorker]
          simp only [Worker.work, ThreadPool.Place.work] at hwork hplace
          omega

/-- When nothing more happens without the world, everybody waits for it, or
the process has stopped. -/
theorem final_at_rest [Nonempty Thread] {s : PooledServer Thread}
    (hs : system.Reachable s) (hfinal : (system.restrict Own).Final s) :
    s.AtRest ∨ ∃ a f, s.server.Stops a f := by
  have hserver := server_reachable hs
  have hplaced := placed_reachable hs
  have hnone : ∀ {a s'}, s.Own a → ¬ Step s a s' := fun hown h =>
    hfinal _ _ ⟨hown, h⟩
  by_contra hgoing
  rw [not_or] at hgoing
  obtain ⟨hrest, hstops⟩ := hgoing
  have hnotifying : s.notifying = false := by
    by_contra hnot
    rw [Bool.not_eq_false] at hnot
    by_cases hsleep : ∃ t, s.place t = .asleep
    · obtain ⟨t, ht⟩ := hsleep
      exact hnone (a := .notify) trivial
        (.notify hnot (.sleeper (i := t) (by rw [ht]; rfl)))
    · refine hnone (a := .notify) trivial (.notify hnot (.nobody fun t => ?_))
      exact CondVar.not_asleep.mp fun h =>
        hsleep ⟨t, ThreadPool.asleep_cv.mp h⟩
  have hmain : s.server.main = .waiting := by
    by_contra hmain
    rcases Server.loop_progress hserver hmain with
      ⟨a, server, ha, hwait, haccept, h⟩ | hstop
    · have hown : s.Own (.server a) := by
        cases a with
        | wait batch => exact hwait batch rfl
        | accept result =>
            cases result with
            | connected fd => exact haccept fd rfl
            | wouldBlock | failed => trivial
        | take | finish | read | process | write | modFd | closeBy =>
            cases ha
        | turn | dispatch | addConnection | addFd | logged | close => trivial
      rcases (loop_frame ha h).2 with hqueue | ⟨task, hqueue⟩
      · exact hnone hown (.loop hnotifying ha h hqueue)
      · exact hnone hown (.addTask hnotifying ha h hqueue)
    · exact hstops hstop
  have hidle : ∀ t, s.server.workers t = .idle := by
    intro t
    by_contra hbusy
    rcases Server.task_progress hserver hbusy with
      ⟨a, server, ha | rfl, h⟩ | hstop
    · have hown : s.Own (.server a) := by
        cases a with
        | wait | turn | dispatch | accept | addConnection | addFd | logged
        | close | take | finish => cases ha
        | read | process | write | modFd | closeBy => trivial
      exact hnone hown (.inTask ha h)
    · exact hnone (a := .server (.finish t)) trivial (.finish h)
    · exact hstops hstop
  have hasleep : ∀ t, s.place t = .asleep := by
    intro t
    by_contra hawake
    have hrun : (s.place t).runnable = true := by
      cases hpc : s.place t with
      | ready | notified | asleep => rfl
      | busy task => exact absurd (hidle t) ((hplaced.busy t).mp ⟨task, hpc⟩)
      | exited => exact absurd hpc (hplaced.present t)
    cases hq : s.server.queue with
    | nil =>
        exact hnone (a := .round t) hawake
          (.wait hrun (by rw [ThreadPool.round, pool, hq]; rfl))
    | cons task rest =>
        exact hnone (a := .server (.take t)) hawake
          (.run (p := ⟨true, rest⟩) hrun
            (by rw [ThreadPool.round, pool, hq]) (.take (hidle t) hq))
  refine hrest ⟨hmain, ?_, hnotifying, fun t => ⟨hidle t, hasleep t⟩⟩
  -- A task left behind would have somebody on the way to it.
  by_contra hq
  obtain ⟨t⟩ := ‹Nonempty Thread›
  rcases attended hs hq ⟨t, hasleep t⟩ with hnot | ⟨t', ht'⟩
  · rw [hnotifying] at hnot
    cases hnot
  · rw [hasleep t'] at ht'
    cases ht'

/-- From every state it gets to, the server left to itself takes at most
`work` steps, and when it can take no more it is at rest or has stopped. -/
theorem comes_to_rest [Nonempty Thread] {s : PooledServer Thread}
    (hs : system.Reachable s) :
    (∀ as s', (system.restrict Own).Run s as s' → as.length ≤ s.work) ∧
    (∃ as s', (system.restrict Own).Run s as s' ∧
      (system.restrict Own).Final s') ∧
    ∀ as s', (system.restrict Own).Run s as s' →
      (system.restrict Own).Final s' →
      s'.AtRest ∨ ∃ a f, s'.server.Stops a f := by
  refine ⟨fun as s' hrun => ?_, TransitionSystem.exists_final work_potential hs,
    fun as s' hrun hfinal => ?_⟩
  · have hle := hrun.length_le work_potential hs
    omega
  · exact final_at_rest (hrun.of_restrict.reachable hs) hfinal

theorem comes_to_rest_drowsy :
    (∀ as s', (system.restrict Own).Run drowsy as s' →
      as.length ≤ drowsy.work) ∧
    (∃ as s', (system.restrict Own).Run drowsy as s' ∧
      (system.restrict Own).Final s') ∧
    ∀ as s', (system.restrict Own).Run drowsy as s' →
      (system.restrict Own).Final s' →
      s'.AtRest ∨ ∃ a f, s'.server.Stops a f :=
  comes_to_rest drowsy_reachable

end PooledServer

end TinyWebServer
