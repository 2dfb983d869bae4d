import TinyWebServer.Model.PooledServer
import TinyWebServer.Proofs.Service
import TinyWebServer.Proofs.ThreadPool

/-!
# The server on its thread pool is the server, and the pool

`PooledServer` is a machine between two others. Without the places its workers
sleep in it is `Server`: every step is a step of that or none, so that all that
holds in every run of `Server` holds here. And without the connections it is
`ThreadSystem`, seen through `poolSteps`: it pushes, notifies and runs tasks as
the pool does, so that no task is slept over.
-/

namespace TinyWebServer

open Lib

/-! ## How much there is left to do -/

/-- How many steps the main loop is from `epoll_wait`, at most; a task that it
hands out is counted with the worker's part and the notification. -/
def MainLoop.work : MainLoop → Nat
  | .waiting => 0
  | .dispatching batch => 11 * batch.length + 1
  | .accepting batch => 11 * batch.length + 2
  | .logging _ batch => 11 * batch.length + 3
  | .adding _ batch => 11 * batch.length + 4
  | .accepted _ batch => 11 * batch.length + 5
  | .closing .log _ batch => 11 * batch.length + 2
  | .closing .close _ batch => 11 * batch.length + 3
  | .closing .delFd _ batch => 11 * batch.length + 4

/-- How many steps a worker is from the end of its task, at most. -/
def Worker.work : Worker → Nat
  | .idle => 0
  | .finishing => 2
  | .rearming _ _ => 3
  | .processing _ => 4
  | .closing .log _ => 4
  | .closing .close _ => 5
  | .closing .delFd _ => 6
  | .running _ _ => 7

namespace PooledServer

variable {Thread : Type} [DecidableEq Thread]

theorem loop_frame {s s' : Server Thread} {a : ServerLabel Thread}
    (ha : InLoop a) (h : Server.Step s a s') :
    s'.workers = s.workers ∧
      (s'.queue = s.queue ∨ ∃ task, s'.queue = s.queue ++ [task]) := by
  cases h with
  | wait | turn | accept | acceptEnd | logged => exact ⟨rfl, .inl rfl⟩
  | dispatch _ hd =>
      obtain ⟨-, rfl⟩ | ⟨-, rfl | ⟨kind, rfl⟩ | ⟨-, rfl⟩⟩ :=
        Server.dispatch_cases hd
      · exact ⟨rfl, .inl rfl⟩
      · exact ⟨rfl, .inl rfl⟩
      · exact ⟨rfl, .inr ⟨_, rfl⟩⟩
      · exact ⟨rfl, .inl rfl⟩
  | addConnection _ _ ha =>
      obtain ⟨-, rfl⟩ | ⟨-, rfl⟩ := Server.addConnection_cases ha
      · exact ⟨rfl, .inl rfl⟩
      · exact ⟨rfl, .inl rfl⟩
  | addFd _ _ ha =>
      obtain ⟨u, -, ha⟩ := bind_ok_iff.mp ha
      cases ha
      exact ⟨rfl, .inl rfl⟩
  | close _ hcl =>
      obtain ⟨hworkers, hqueue, -⟩ := Server.closeConnection_rest hcl
      exact ⟨hworkers, .inl hqueue⟩
  | take | read | process | write | modFd | closeBy | finish => cases ha

/-- Nothing but what the world has in store makes more work for the main
loop. -/
theorem loop_work {s s' : Server Thread} {a : ServerLabel Thread}
    (ha : InLoop a) (hwait : ∀ batch, a ≠ .wait batch)
    (haccept : ∀ fd, a ≠ .accept (.connected fd)) (h : Server.Step s a s') :
    s'.main.work + 9 * s'.queue.length
      < s.main.work + 9 * s.queue.length := by
  cases h with
  | wait => exact absurd rfl (hwait _)
  | accept => exact absurd rfl (haccept _)
  | turn hm | acceptEnd hm _ | logged hm =>
      rw [hm]
      simp only [MainLoop.work]
      omega
  | dispatch hm hd =>
      rw [hm]
      obtain ⟨-, rfl⟩ | ⟨-, rfl | ⟨kind, rfl⟩ | ⟨-, rfl⟩⟩ :=
        Server.dispatch_cases hd
      · simp only [MainLoop.work, List.length_cons]
        omega
      · simp only [MainLoop.work, List.length_cons]
        omega
      · simp only [MainLoop.work, List.length_cons, Server.addTask,
          List.length_append, List.length_nil]
        omega
      · simp only [MainLoop.work, List.length_cons]
        omega
  | addConnection hm _ ha =>
      rw [hm]
      obtain ⟨-, rfl⟩ | ⟨-, rfl⟩ := Server.addConnection_cases ha
      · simp only [MainLoop.work]
        omega
      · simp only [MainLoop.work, Server.setClient]
        omega
  | addFd hm _ ha =>
      rw [hm]
      obtain ⟨u, -, ha⟩ := bind_ok_iff.mp ha
      cases ha
      simp only [MainLoop.work]
      omega
  | @close s' stage _ _ hm hcl =>
      rw [hm, (Server.closeConnection_rest hcl).2.1]
      cases stage with
      | delFd | close | log =>
          simp only [CloseStage.next, MainLoop.work]
          omega
  | take | read | process | write | modFd | closeBy | finish => cases ha

/-- A step inside a task brings the task nearer to its end. -/
theorem task_work {s s' : Server Thread} {a : ServerLabel Thread}
    (ha : InTask a) (h : Server.Step s a s') :
    s'.main = s.main ∧ s'.queue = s.queue ∧
      ∃ t pc, s'.workers = Function.update s.workers t pc ∧ pc ≠ .idle ∧
        pc.work < (s.workers t).work := by
  cases h with
  | wait | turn | dispatch | accept | acceptEnd | addConnection | addFd
  | logged | close | take | finish => cases ha
  | @read t fd c c' arrived last ret status ht _ hr =>
      refine ⟨rfl, rfl, t, _, rfl, ?_, ?_⟩
      · rw [Server.funRead]
        split
        · simp
        · simp
      · rw [ht, Server.funRead]
        split
        · simp [Worker.work]
        · simp [Worker.work]
  | @process t fd c c' w ready ht _ _ =>
      refine ⟨rfl, rfl, t, _, rfl, by simp, ?_⟩
      rw [ht]
      simp [Worker.work]
  | @write t fd c c' results wouldBlock ret status ht _ _ =>
      refine ⟨rfl, rfl, t, _, rfl, ?_, ?_⟩
      · rw [Server.funWrite]
        split_ifs
        · simp
        · simp
        · simp
        · simp
      · rw [ht, Server.funWrite]
        split_ifs
        · simp [Worker.work]
        · simp [Worker.work]
        · simp [Worker.work]
        · simp [Worker.work]
  | @modFd t out fd c ok ht _ _ =>
      refine ⟨rfl, rfl, t, _, rfl, by simp, ?_⟩
      rw [ht]
      simp [Worker.work]
  | @closeBy s' t stage fd ht hcl =>
      obtain ⟨hworkers, hqueue, -⟩ := Server.closeConnection_rest hcl
      refine ⟨(Server.closeConnection_loop hcl).1, hqueue, t, _,
        congrArg (fun w => Function.update w t _) hworkers, ?_, ?_⟩
      · cases stage with
        | delFd | close | log => simp [CloseStage.next]
      · rw [ht]
        cases stage with
        | delFd | close | log => simp [CloseStage.next, Worker.work]

/-! ## Without the places -/

/-- What a step is in the server. -/
def serverSteps (_ : PooledServer Thread) (a : PooledLabel Thread)
    (_ : PooledServer Thread) : List (ServerLabel Thread) :=
  match a with
  | .server a => [a]
  | .notify | .round _ => []

theorem server_simulates : TransitionSystem.Simulates
    (system : TransitionSystem (PooledServer Thread) _) serverSteps
      Server.system
      fun s server => s.server = server where
  init s h := ⟨s.server, h.1, rfl⟩
  step s a s' server _ hserver h := by
    subst hserver
    cases h with
    | loop _ _ h _ | addTask _ _ h _ | run _ _ h | inTask _ h | finish h =>
        exact ⟨_, .single h, rfl⟩
    | notify | wait => exact ⟨_, .nil _, rfl⟩

theorem server_reachable {s : PooledServer Thread} (hs : system.Reachable s) :
    Server.system.Reachable s.server := by
  obtain ⟨server, hserver, rfl⟩ := server_simulates.reachable hs
  exact hserver

/-! ## Who is busy -/

/-- A worker is in a task for the server when it is for the pool, and none has
left. -/
structure Placed (s : PooledServer Thread) : Prop where
  busy : ∀ t, (∃ task, s.place t = .busy task) ↔ s.server.workers t ≠ .idle
  present : ∀ t, s.place t ≠ .exited

/-- A step of the main loop, or inside a task, sets no worker free and busies
none. -/
theorem idle_same {s s' : Server Thread} {a : ServerLabel Thread}
    (ha : InLoop a ∨ InTask a) (h : Server.Step s a s') (t : Thread) :
    s'.workers t = .idle ↔ s.workers t = .idle := by
  rcases ha with ha | ha
  · rw [(loop_frame ha h).1]
  · obtain ⟨-, -, t₀, pc, hworkers, hpc, hwork⟩ := task_work ha h
    rw [hworkers, Function.update_apply]
    split
    · next hsame =>
        subst hsame
        refine iff_of_false hpc fun hidle => ?_
        rw [hidle] at hwork
        exact absurd hwork (Nat.not_lt_zero _)
    · exact Iff.rfl

theorem Placed.of_server {s : PooledServer Thread} (hs : s.Placed)
    {server : Server Thread} {a : ServerLabel Thread}
    (ha : InLoop a ∨ InTask a) (h : Server.Step s.server a server)
    (notifying : Bool) : Placed { s with server, notifying } where
  busy t := (hs.busy t).trans (not_congr (idle_same ha h t).symm)
  present := hs.present

/-- One worker goes somewhere, in the server and in the pool. -/
theorem Placed.move {s s' : PooledServer Thread} (hs : s.Placed) {t : Thread}
    {x : ThreadPool.Place Task} {pc : Worker}
    (hplace : s'.place = Function.update s.place t x)
    (hworkers : s'.server.workers = Function.update s.server.workers t pc)
    (hbusy : (∃ task, x = .busy task) ↔ pc ≠ .idle) (hx : x ≠ .exited) :
    s'.Placed := by
  refine ⟨fun t' => ?_, fun t' => ?_⟩
  · rw [hplace, hworkers, Function.update_apply, Function.update_apply]
    split
    · exact hbusy
    · exact hs.busy t'
  · rw [hplace, Function.update_apply]
    split
    · exact hx
    · exact hs.present t'

theorem Step.placed {s s' : PooledServer Thread} {a : PooledLabel Thread}
    (h : Step s a s') (hs : s.Placed) : s'.Placed := by
  cases h with
  | loop _ ha h _ => exact hs.of_server (.inl ha) h s.notifying
  | addTask _ ha h _ => exact hs.of_server (.inl ha) h true
  | inTask ha h => exact hs.of_server (.inr ha) h s.notifying
  | notify _ hone =>
      cases hone with
      | nobody => exact ⟨hs.busy, hs.present⟩
      | @sleeper t y hy =>
          -- Only a sleeper moves, and it is in no task.
          cases hplace : s.place t with
          | asleep =>
              rw [hplace] at hy
              cases hy
              refine hs.move rfl (Function.update_eq_self t _).symm
                (iff_of_false (by simp) fun hwork => ?_) (by simp)
              obtain ⟨task, hbusy⟩ := (hs.busy t).mpr hwork
              rw [hplace] at hbusy
              cases hbusy
          | ready | notified | busy _ | exited =>
              rw [hplace] at hy
              cases hy
  | run _ _ h =>
      cases h with
      | take _ _ => exact hs.move rfl rfl (by simp) (by simp)
  | @wait t hrun _ =>
      refine hs.move rfl (Function.update_eq_self t _).symm
        (iff_of_false (by simp) fun hwork => ?_) (by simp)
      obtain ⟨task, hbusy⟩ := (hs.busy t).mpr hwork
      rw [hbusy] at hrun
      cases hrun
  | finish h =>
      cases h with
      | finish _ => exact hs.move rfl rfl (by simp) (by simp)

theorem placed_reachable {s : PooledServer Thread} (hs : system.Reachable s) :
    s.Placed := by
  refine hs.invariant (I := Placed) ?_ fun _ _ _ _ ih h =>
    Step.placed h ih
  rintro s ⟨hserver, hready, -⟩
  refine ⟨fun t => ?_, fun t => by rw [hready t]; simp⟩
  rw [hready t, hserver.2.2.2.2.2.2 t]
  simp

/-! ## Without the connections -/

/-- What a step is in the pool. -/
def poolSteps (s : PooledServer Thread) (a : PooledLabel Thread)
    (s' : PooledServer Thread) : List (ThreadLabel Thread Task) :=
  match a with
  | .server (.take t) => [.round t]
  | .server (.finish t) => [.finish t]
  | .server _ =>
      (s'.server.queue.drop s.server.queue.length).map ThreadLabel.add
  | .notify => [.notify]
  | .round t => [.round t]

/-- The pool has the queue, the places and the notification under way. -/
structure Views (s : PooledServer Thread) (p : ThreadSystem Thread Task) :
    Prop where
  pool : p.pool = s.pool
  place : p.place = s.place
  unnotified : p.unnotified = s.notifying.toNat

omit [DecidableEq Thread] in
theorem poolSteps_server {s s' : PooledServer Thread} {a : ServerLabel Thread}
    (ha : InLoop a ∨ InTask a) : poolSteps s (.server a) s'
      = (s'.server.queue.drop s.server.queue.length).map .add := by
  cases a with
  | take | finish => simp [InLoop, InTask] at ha
  | wait | turn | dispatch | accept | addConnection | addFd | logged | close
  | read | process | write | modFd | closeBy => rfl

/-- A step that leaves the queue as it is. -/
theorem Views.unseen {s s' : PooledServer Thread}
    {p : ThreadSystem Thread Task} (hp : Views s p)
    {a : ServerLabel Thread} (ha : InLoop a ∨ InTask a)
    (hqueue : s'.server.queue = s.server.queue) (hplace : s'.place = s.place)
    (hnotifying : s'.notifying = s.notifying) :
    ∃ q, ThreadSystem.system.Run p (poolSteps s (.server a) s') q ∧
      Views s' q := by
  refine ⟨p, ?_, ⟨?_, hp.place.trans hplace.symm, ?_⟩⟩
  · rw [poolSteps_server ha, hqueue, List.drop_length]
    exact .nil p
  · rw [hp.pool, PooledServer.pool, PooledServer.pool, hqueue]
  · rw [hp.unnotified, hnotifying]

theorem threads_simulate : TransitionSystem.Simulates
    (system : TransitionSystem (PooledServer Thread) _) poolSteps
      ThreadSystem.system Views where
  init s h := by
    obtain ⟨hserver, hready, hnotifying⟩ := h
    refine ⟨⟨.construct, s.place, 0, [], []⟩,
      ⟨rfl, hready, rfl, rfl, rfl⟩, ?_, rfl, ?_⟩
    · rw [pool, hserver.2.2.2.2.2.1]
      rfl
    · rw [hnotifying]
      rfl
  step s a s' p hs hp h := by
    cases h with
    | loop _ ha _ hqueue => exact hp.unseen (.inl ha) hqueue rfl rfl
    | inTask ha h =>
        exact hp.unseen (.inr ha) (task_work ha h).2.1 rfl rfl
    | @addTask a server task hnot ha _ hqueue =>
        have hsteps : poolSteps s (.server a)
            { s with server, notifying := true } = [.add task] := by
          rw [poolSteps_server (.inl ha), hqueue, List.drop_left]
          rfl
        rw [hsteps]
        refine ⟨_, .single (.add task), ⟨?_, hp.place, ?_⟩⟩
        · show p.pool.addTask task = _
          rw [hp.pool, pool, pool, hqueue]
          rfl
        · show p.unnotified + 1 = _
          rw [hp.unnotified, hnot]
          rfl
    | @notify place hnot hone =>
        have hn : p.unnotified = 0 + 1 := by
          rw [hp.unnotified, hnot]
          rfl
        exact ⟨_, .single (.notify hn (hp.place ▸ hone)),
          ⟨hp.pool, rfl, rfl⟩⟩
    | @run t task q server hrun hround h =>
        have hround' : p.pool.round = .run task q := by rw [hp.pool, hround]
        have hrun' : (p.place t).runnable = true := by rw [hp.place, hrun]
        have hplace : Function.update p.place t (.busy task)
            = Function.update s.place t (.busy task) := by rw [hp.place]
        refine ⟨_, .single (.run hrun' hround'), ⟨?_, hplace, hp.unnotified⟩⟩
        cases h with
        | @take _ task' rest ht hq =>
            show q = ⟨true, rest⟩
            rw [ThreadPool.round, pool, hq] at hround
            cases hround
            rfl
    | @wait t hrun hround =>
        have hround' : p.pool.round = .wait := by rw [hp.pool, hround]
        have hrun' : (p.place t).runnable = true := by rw [hp.place, hrun]
        have hplace : Function.update p.place t .asleep
            = Function.update s.place t .asleep := by rw [hp.place]
        exact ⟨_, .single (.wait hrun' hround'),
          ⟨hp.pool, hplace, hp.unnotified⟩⟩
    | @finish t server h =>
        cases h with
        | finish ht =>
            obtain ⟨task, hbusy⟩ := ((placed_reachable hs).busy t).mpr
              (by rw [ht]; simp)
            have hplace : Function.update p.place t .ready
                = Function.update s.place t .ready := by rw [hp.place]
            have hbusy' : p.place t = .busy task := by rw [hp.place, hbusy]
            exact ⟨_, .single (.finish hbusy'),
              ⟨hp.pool, hplace, hp.unnotified⟩⟩

/-- In every run the server on its pool is in a state of the server alone, in
one of the pool alone, and the two agree on the queue and on who is busy. -/
theorem refines_both {s : PooledServer Thread} (hs : system.Reachable s) :
    Server.system.Reachable s.server ∧
    (∃ p, ThreadSystem.system.Reachable p ∧ p.pool.tasks = s.server.queue ∧
      p.place = s.place) ∧
    ∀ t, (∃ task, s.place t = .busy task) ↔ s.server.workers t ≠ .idle := by
  obtain ⟨p, hp, hview⟩ := threads_simulate.reachable hs
  exact ⟨server_reachable hs, ⟨p, hp, congrArg ThreadPool.tasks hview.pool,
    hview.place⟩, (placed_reachable hs).busy⟩

/-- Two workers asleep, and a client at the door. -/
def drowsy : PooledServer Bool where
  server :=
    { listenFd := 3, clients := fun _ => none, userCnt := 0
      interest := fun _ => .none, opened := fun _ => false
      main := .dispatching [⟨3, true, false, false, false, false⟩]
      queue := [], workers := fun _ => .idle }
  place := Function.update (Function.update (fun _ => .ready) true .asleep)
    false .asleep
  notifying := false

theorem drowsy_reachable : system.Reachable drowsy := by
  let start : PooledServer Bool := { drowsy with
    server := { drowsy.server with main := .waiting }
    place := fun _ => .ready }
  let nodding : PooledServer Bool := start.setPlace true .asleep
  have hstart : system.Reachable start :=
    .start ⟨⟨fun _ => rfl, rfl, fun _ => rfl, fun _ => rfl, rfl, rfl,
      fun _ => rfl⟩, fun _ => rfl, rfl⟩
  have hfirst : Step start (.round true) nodding := .wait rfl rfl
  have hsecond : Step nodding (.round false) (nodding.setPlace false .asleep) :=
    .wait rfl rfl
  have hwait : Server.Step start.server
      (.wait [⟨3, true, false, false, false, false⟩]) drowsy.server :=
    .wait rfl (by decide) rfl
  have hpolled : Step (nodding.setPlace false .asleep)
      (.server (.wait [⟨3, true, false, false, false, false⟩])) drowsy :=
    .loop rfl trivial hwait rfl
  exact ((hstart.next hfirst).next hsecond).next hpolled

theorem refines_both_drowsy :
    Server.system.Reachable drowsy.server ∧
    (∃ p, ThreadSystem.system.Reachable p ∧
      p.pool.tasks = drowsy.server.queue ∧ p.place = drowsy.place) ∧
    ∀ t, (∃ task, drowsy.place t = .busy task) ↔
      drowsy.server.workers t ≠ .idle :=
  refines_both drowsy_reachable

end PooledServer

end TinyWebServer
