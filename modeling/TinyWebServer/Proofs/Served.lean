import TinyWebServer.Proofs.Conversation
import TinyWebServer.Proofs.Rest
import TinyWebServer.Proofs.Stranded

/-!
# At rest everybody is served

`Rest` says that the server comes to rest, and `Conversation` what a client has
been sent when the server listens to it again. That it does listen, to
everyone, is the third thing needed: in a run in which no descriptor is
stranded, every connection is armed when nothing else has it, and it is armed
for writing only with something left to write.

That there are such runs is the other direction: with workers that never sleep
the pool does whatever the server does, `watched_of_server`.
-/

namespace TinyWebServer

open Lib

namespace Server

open HttpConnector

variable {Thread : Type}

/-- `EPOLLOUT` is, or is about to be, asked for under `fd`. -/
def WritePending (s : Server Thread) (fd : Int) : Prop :=
  s.interest fd = .armed true ∨ ∃ t, s.workers t = .rearming true fd

/-- Whoever waits for room in its socket has something to fill it with. -/
def Unsent (s : Server Thread) : Prop :=
  ∀ fd, s.WritePending fd →
    ∃ c, s.clients fd = some c ∧ c.remaining ≠ 0

/-- A step that leaves the connector alone, and asks for no more. -/
theorem Unsent.keep {s s' : Server Thread} (h : s.Unsent) {fd : Int}
    (hclients : s'.clients fd = s.clients fd)
    (hless : s'.WritePending fd → s.WritePending fd)
    (hpending : s'.WritePending fd) :
    ∃ c, s'.clients fd = some c ∧ c.remaining ≠ 0 := by
  obtain ⟨c, hc, hsome⟩ := h fd (hless hpending)
  exact ⟨c, hclients.trans hc, hsome⟩

variable [DecidableEq Thread]

/-- A worker that gets to another place asks for no more than that place
does. -/
theorem WritePending.setWorker {s : Server Thread} {t : Thread} {pc : Worker}
    {fd : Int} (h : (s.setWorker t pc).WritePending fd) :
    s.WritePending fd ∨ pc = .rearming true fd := by
  rcases h with harmed | ⟨t', ht'⟩
  · exact .inl (.inl harmed)
  · rw [Server.setWorker] at ht'
    simp only [Function.update_apply] at ht'
    split at ht'
    · exact .inr ht'
    · exact .inl (.inr ⟨t', ht'⟩)

variable [Fintype Thread]

omit [DecidableEq Thread] in
/-- What the main loop has in hand waits for nothing. -/
theorem Inv.handled_not_pending {s : Server Thread} (hi : s.Inv) {fd : Int}
    (hhand : 0 < s.handling fd) : ¬ s.WritePending fd := by
  intro h
  rcases h with harmed | ⟨t, ht⟩
  · have hfree : (s.interest fd).isArmed = false := hi.not_armed (by omega)
    rw [harmed] at hfree
    cases hfree
  · have hclient : (s.workers t).client = some fd := by rw [ht]; rfl
    have hrun : 0 < s.running fd :=
      population_pos (p := fun pc : Worker => pc.client = some fd) hclient
    have hone := (hi.single fd).trans (Bool.toNat_le _)
    rw [situations] at hone
    omega

omit [DecidableEq Thread] in
/-- What a worker has in hand waits for nothing but that worker. -/
theorem Inv.worker_pending {s : Server Thread} (hi : s.Inv) {t : Thread}
    {fd : Int} (ht : (s.workers t).touched = some fd)
    (hclient : (s.workers t).client = some fd) (h : s.WritePending fd) :
    s.workers t = .rearming true fd := by
  rcases h with harmed | ⟨t', ht'⟩
  · have hrun : 0 < s.running fd :=
      population_pos (p := fun pc : Worker => pc.client = some fd) hclient
    have hfree : (s.interest fd).isArmed = false := hi.not_armed (by omega)
    rw [harmed] at hfree
    cases hfree
  · have hsame : t = t' := hi.one_worker ht (by rw [ht']; rfl)
    rw [hsame, ht']

/-- The connector under `fd₀` is replaced, and a worker that had it in hand
goes on. -/
theorem Unsent.worker {s : Server Thread} (hu : s.Unsent) (hi : s.Inv)
    {t : Thread} {fd₀ : Int} {c' : HttpConnector} {pc : Worker}
    (htouched : (s.workers t).touched = some fd₀)
    (hclient : (s.workers t).client = some fd₀)
    (hnot : s.workers t ≠ .rearming true fd₀)
    (hnew : ∀ fd, pc = .rearming true fd → fd = fd₀ ∧ c'.remaining ≠ 0) :
    ((s.setClient fd₀ c').setWorker t pc).Unsent := by
  intro fd hpending
  by_cases hfd : fd = fd₀
  · subst hfd
    rcases hpending.setWorker with hold | hpc
    · exact absurd (hi.worker_pending htouched hclient hold) hnot
    · exact ⟨c', Function.update_self .., (hnew fd hpc).2⟩
  · refine hu.keep (Function.update_of_ne hfd ..) (fun h => ?_) hpending
    rcases h.setWorker with hold | hpc
    · exact hold
    · exact absurd (hnew fd hpc).1 hfd

theorem Step.unsent {s s' : Server Thread} {a : ServerLabel Thread}
    (hs : system.Reachable s) (hu : s.Unsent) (h : Step s a s') :
    s'.Unsent := by
  have hi := inv_reachable hs
  cases h with
  | turn | acceptEnd | accept | logged => exact hu
  | wait _ _ hd =>
      refine fun fd => hu.keep rfl fun h => ?_
      rcases h with harmed | hworker
      · exact .inl ((deliver_reported hd).2 fd true harmed)
      · exact .inr hworker
  | dispatch _ hd =>
      obtain ⟨-, rfl⟩ | ⟨-, rfl | ⟨kind, rfl⟩ | ⟨-, rfl⟩⟩ := dispatch_cases hd
      · exact hu
      · exact hu
      · exact hu
      · exact hu
  | @addConnection s' fresh fd₀ batch hm _ ha =>
      obtain ⟨-, rfl⟩ | ⟨-, rfl⟩ := addConnection_cases ha
      · exact hu
      · intro fd hpending
        by_cases hfd : fd = fd₀
        · have hhand : 0 < s.handling fd := by
            rw [handling, hm, MainLoop.current, inHand_some, if_pos hfd.symm]
            omega
          exact absurd hpending (hi.handled_not_pending hhand)
        · exact hu.keep (Function.update_of_ne hfd ..) id hpending
  | @addFd s' ok fd₀ batch hm _ ha =>
      obtain ⟨u, -, ha⟩ := bind_ok_iff.mp ha
      cases ha
      refine fun fd => hu.keep rfl fun h => ?_
      rcases h with harmed | hworker
      · simp only [] at harmed
        split at harmed
        · rw [Function.update_apply] at harmed
          split at harmed
          · cases harmed
          · exact .inl harmed
        · exact .inl harmed
      · exact .inr hworker
  | @close s' stage fd₀ batch hm hcl =>
      have hless : ∀ c : HttpConnector, ∀ fd,
          Function.update s.interest c.fd .none fd = .armed true →
          s.interest fd = .armed true := by
        intro c fd harmed
        rw [Function.update_apply] at harmed
        split at harmed
        · cases harmed
        · exact harmed
      cases stage with
      | delFd =>
          obtain ⟨c, -, rfl⟩ := Option.map_eq_some_iff.mp hcl
          exact fun fd => hu.keep rfl fun h => h.imp (hless c fd) id
      | close =>
          obtain ⟨c, -, rfl⟩ := Option.map_eq_some_iff.mp hcl
          split
          · intro fd hpending
            have hold : s.WritePending fd := hpending.imp (hless c fd) id
            have hfd : fd ≠ fd₀ := by
              intro hfd
              have hhand : 0 < s.handling fd := by
                rw [handling, hm, MainLoop.current, inHand_some,
                  if_pos hfd.symm]
                omega
              exact hi.handled_not_pending hhand hold
            exact hu.keep (Function.update_of_ne hfd ..) (fun _ => hold)
              hpending
          · exact hu
      | log => cases hcl; exact hu
  | @take t task rest ht hq =>
      refine fun fd => hu.keep rfl fun h => ?_
      rcases h.setWorker with hold | hpc
      · exact hold
      · cases hpc
  | @read t fd₀ c c' arrived last ret status ht hc hr =>
      refine hu.worker hi (by rw [ht]; rfl) (by rw [ht]; rfl)
        (by rw [ht]; simp) fun fd hpc => ?_
      rw [funRead] at hpc
      split at hpc
      · cases hpc
      · cases hpc
  | @process t fd₀ c c' w ready ht hc hp =>
      refine hu.worker hi (by rw [ht]; rfl) (by rw [ht]; rfl)
        (by rw [ht]; simp) fun fd hpc => ?_
      cases hpc
      have hprimed := process_primed
        (inv_history (clients_reachable hs fd₀ c hc)) hp
      have hhead := hprimed.head
      have hsome := hprimed.some
      refine ⟨rfl, ?_⟩
      rw [remaining, hhead]
      simp only []
      omega
  | @write t fd₀ c c' results wouldBlock ret status ht hc hw =>
      refine hu.worker hi (by rw [ht]; rfl) (by rw [ht]; rfl)
        (by rw [ht]; simp) fun fd hpc => ?_
      rw [funWrite] at hpc
      split at hpc
      · cases hpc
      next hsize =>
      split at hpc
      · split at hpc
        · cases hpc
          exact ⟨rfl, fun hnone => hsize (writeableSize_eq_zero hnone)⟩
        · cases hpc
      · cases hpc
  | @modFd t out fd₀ c ok ht hc hreg =>
      have hfd := (hi.held (by rw [ht]; rfl) hc).2.1
      refine fun fd => hu.keep rfl fun h => ?_
      rcases h.setWorker with harmed | hpc
      · rcases harmed with harmed | hworker
        · simp only [] at harmed
          split at harmed
          · rw [Function.update_apply] at harmed
            split at harmed
            · next hsame =>
                cases harmed
                rw [hsame, hfd]
                exact .inr ⟨t, ht⟩
            · exact .inl harmed
          · exact .inl harmed
        · exact .inr hworker
      · cases hpc
  | closeBy ht _ => exact absurd ht (hi.noCloser _ _ _)
  | finish ht =>
      refine fun fd => hu.keep rfl fun h => ?_
      rcases h.setWorker with hold | hpc
      · exact hold
      · cases hpc

theorem unsent_reachable {s : Server Thread} (hs : system.Reachable s) :
    s.Unsent := by
  refine hs.invariant (I := Unsent) ?_
    fun s a s' hs hu h => Step.unsent hs hu h
  intro s hinit fd hpending
  rcases hpending with harmed | ⟨t, ht⟩
  · rw [hinit.2.2.1 fd] at harmed
    cases harmed
  · rw [hinit.2.2.2.2.2.2 t] at ht
    cases ht

/-- Where the server has nothing to do, and no descriptor was stranded, an open
connection is armed. -/
theorem armed_of_open {s : Server Thread}
    (hs : (system.restrict Sound).Reachable s) (hm : s.main = .waiting)
    (hq : s.queue = []) (hw : ∀ t, s.workers t = .idle) {fd : Int}
    (hopen : s.opened fd = true) :
    s.interest fd = .armed false ∨ s.interest fd = .armed true := by
  have heq := situations_eq hs fd
  have hhandling : s.handling fd = 0 := by
    rw [handling, hm]
    rfl
  have hqueued : s.queued fd = 0 := by
    rw [queued, hq]
    rfl
  have hrunning : s.running fd = 0 := by
    rw [running, inFlight]
    refine population_eq_zero fun t => ?_
    rw [hw t, Worker.client]
    simp
  rw [situations, hhandling, hqueued, hrunning, hopen, armed] at heq
  cases hreg : s.interest fd with
  | none | disarmed => rw [hreg] at heq; cases heq
  | armed out =>
      cases out with
      | false => exact .inl rfl
      | true => exact .inr rfl

/-- The books of such a connection: all that was received is answered, and
what is not sent yet is what the server waits to send. -/
theorem books_of_open {s : Server Thread} {fd : Int}
    {seen : List Sight}
    (hs : ((system.restrict Regular).observed (see fd)).Reachable (s, seen))
    (hw : ∀ t, s.workers t = .idle) {out : Bool}
    (harmed : s.interest fd = .armed out) :
    List.Forall₂ Answers (Exchange.ledger seen).requests
        (Exchange.ledger seen).replies ∧
      ∃ rest, (Exchange.ledger seen).sent ++ rest
          = (Exchange.ledger seen).replies.flatten ∧
        (out = true ↔ rest ≠ []) := by
  have hreach : system.Reachable s := hs.of_observed.of_restrict
  obtain ⟨-, c, hc, -, hstatus⟩ := armed_connected hreach harmed
  rw [← regularIn_true] at hs
  obtain ⟨x, hrun, hx⟩ := conducts_reachable hs
  obtain ⟨e, rfl, hin, hout, howed⟩ := hx.open hc hstatus
  obtain ⟨e', he', hsent, done, hdone, hreplied⟩ :=
    Exchange.books_ledger rfl hrun
  rcases he' with he' | he'
  · cases he'
  cases he'
  have hread : c.readBuffer.readable = [] := by
    by_contra hne
    obtain ⟨t, ht⟩ := (tidy_reachable hreach).drained fd c hc hne
    rw [hw t] at ht
    cases ht
  rw [← hin, hread, Exchange.turn, List.append_nil] at hdone
  rw [hdone, ← answersIn_true]
  refine ⟨hreplied, e.outbox, hsent, ?_⟩
  cases out with
  | false =>
      rw [howed (.armed harmed)]
      simp
  | true =>
      obtain ⟨c', hc', hsome⟩ := unsent_reachable hreach fd (.inl harmed)
      cases hc.symm.trans hc'
      rw [hout.remaining] at hsome
      simp only [true_iff]
      exact fun hnone => hsome (congrArg List.length hnone)

end Server

namespace PooledServer

variable {Thread : Type} [DecidableEq Thread] [Fintype Thread]

/-- The regular steps of a run in which no descriptor is stranded: `epoll_ctl`
does not fail, nobody is turned away, and `writev` does not answer zero. -/
def Undisturbed (s : PooledServer Thread) : PooledLabel Thread → Prop
  | .server a => s.server.Sound a ∧ s.server.Regular a
  | .notify | .round _ => True

/-- What the client behind `fd` sees of a step. -/
def see (fd : Int) (s : PooledServer Thread) (a : PooledLabel Thread)
    (s' : PooledServer Thread) : List Sight :=
  match a with
  | .server a => Server.see fd s.server a s'.server
  | .notify | .round _ => []

/-- The runs of the server on its pool in which that is so, with what the client
behind `fd` sees of them. -/
abbrev watched (fd : Int) : TransitionSystem
    (PooledServer Thread × List Sight)
    (PooledLabel Thread) :=
  (system.restrict Undisturbed).observed (see fd)

omit [Fintype Thread] in
/-- A step is one of the server, or nothing the server notices. -/
theorem Step.server {s s' : PooledServer Thread} {a : PooledLabel Thread}
    (h : Step s a s') :
    (∃ a', a = .server a' ∧ Server.Step s.server a' s'.server) ∨
      (∀ a', a ≠ .server a') ∧ s'.server = s.server := by
  cases h with
  | loop _ _ h _ | addTask _ _ h _ | run _ _ h | inTask _ h | finish h =>
      exact .inl ⟨_, rfl, h⟩
  | notify | wait => exact .inr ⟨by simp, rfl⟩

omit [Fintype Thread] in
/-- The client cannot tell that there is a pool. -/
theorem watched_server {s : PooledServer Thread} {fd : Int}
    {seen : List Sight}
    (hs : (watched fd).Reachable (s, seen)) :
    ((Server.system.restrict Server.Regular).observed
        (Server.see fd)).Reachable (s.server, seen) ∧
      (Server.system.restrict Server.Sound).Reachable s.server := by
  refine hs.invariant (I := fun p : PooledServer Thread × _ =>
    ((Server.system.restrict Server.Regular).observed
        (Server.see fd)).Reachable (p.1.server, p.2) ∧
      (Server.system.restrict Server.Sound).Reachable p.1.server) ?_ ?_
  · intro p hinit
    obtain ⟨⟨hserver, -⟩, hnone⟩ := hinit
    exact ⟨.start ⟨hserver, hnone⟩, .start hserver⟩
  · intro p a p' _ ih h
    obtain ⟨⟨hok, hstep⟩, hseen⟩ := h
    rw [hseen]
    rcases hstep.server with ⟨a', rfl, hserver⟩ | ⟨hnot, hsame⟩
    · exact ⟨ih.1.next (a := a') ⟨⟨hok.2, hserver⟩, rfl⟩,
        ih.2.next ⟨hok.1, hserver⟩⟩
    · rw [hsame]
      cases a with
      | server a' => exact absurd rfl (hnot a')
      | notify | round t =>
          rw [see, List.append_nil]
          exact ih

/-- In every regular run of the server on its pool in which no descriptor is
stranded: when the server can go no further by itself, the process has stopped,
or else every open connection has been answered all it sent, the server is
armed for it, and what it has not been sent is what the server waits for its
socket to take. -/
theorem rest_means_served [Nonempty Thread] {s : PooledServer Thread}
    {fd : Int} {seen : List Sight}
    (hs : ((system.restrict Undisturbed).observed (see fd)).Reachable
      (s, seen))
    (hfinal : (system.restrict Own).Final s)
    (hopen : s.server.opened fd = true) :
    (∃ a f, s.server.Stops a f) ∨
      List.Forall₂ HttpConnector.Answers (Exchange.ledger seen).requests
        (Exchange.ledger seen).replies ∧
      ∃ rest, (Exchange.ledger seen).sent ++ rest
          = (Exchange.ledger seen).replies.flatten ∧
        (s.server.interest fd = .armed false ∧ rest = [] ∨
          s.server.interest fd = .armed true ∧ rest ≠ []) := by
  have hreach : system.Reachable s := hs.of_observed.of_restrict
  rcases final_at_rest hreach hfinal with hrest | hstop
  · right
    obtain ⟨hseen, hsound⟩ := watched_server hs
    have hidle : ∀ t, s.server.workers t = .idle := fun t =>
      (hrest.workers t).1
    rcases Server.armed_of_open hsound hrest.main hrest.queue hidle hopen with
      harmed | harmed
    · obtain ⟨hanswers, rest, hsent, hmore⟩ :=
        Server.books_of_open hseen hidle harmed
      refine ⟨hanswers, rest, hsent, .inl ⟨harmed, ?_⟩⟩
      by_contra hne
      cases hmore.mpr hne
    · obtain ⟨hanswers, rest, hsent, hmore⟩ :=
        Server.books_of_open hseen hidle harmed
      exact ⟨hanswers, rest, hsent, .inr ⟨harmed, hmore.mp rfl⟩⟩
  · exact .inl hstop

/-! ## A client that has been served -/

omit [Fintype Thread] in
/-- Nothing happens at rest. -/
theorem AtRest.final {s : PooledServer Thread} (h : s.AtRest) :
    (system.restrict Own).Final s := by
  intro a s' hstep
  obtain ⟨hown, hstep⟩ := hstep
  cases hstep with
  | loop _ ha hserver _ | addTask _ ha hserver _ =>
      have hmain := h.main
      cases hserver with
      | wait => exact hown
      | turn hm | dispatch hm | accept hm | acceptEnd hm | addConnection hm
      | addFd hm | logged hm | close hm =>
          rw [hmain] at hm
          cases hm
      | take | read | process | write | modFd | closeBy | finish => cases ha
  | notify hnot =>
      rw [h.notifying] at hnot
      cases hnot
  | @run t _ _ _ _ _ _ => exact hown (h.workers t).2
  | @wait t _ _ => exact hown (h.workers t).2
  | inTask ha hserver =>
      cases hserver with
      | @read t _ _ _ _ _ _ _ ht | @process t _ _ _ _ _ ht
      | @write t _ _ _ _ _ _ _ ht | @modFd t _ _ _ _ ht | @closeBy _ t _ _ ht =>
          rw [(h.workers t).1] at ht
          cases ht
      | wait | turn | dispatch | accept | acceptEnd | addConnection | addFd
      | logged | close | take | finish => cases ha
  | @finish t _ hserver =>
      cases hserver with
      | finish ht =>
          rw [(h.workers t).1] at ht
          cases ht

/-- Nobody sleeps, and whoever is idle may take the lock. -/
structure Awake (server : Server Thread)
    (place : Thread → ThreadPool.Place Task) : Prop where
  awake : ∀ t, ThreadPool.cv.wake (place t) = none
  ready : ∀ t, server.workers t = .idle → place t = .ready

omit [Fintype Thread] in
/-- One worker gets to another place. -/
theorem Awake.update {server server' : Server Thread}
    {place : Thread → ThreadPool.Place Task} (h : Awake server place)
    {t : Thread} {x : ThreadPool.Place Task} {pc : Worker}
    (hworkers : server'.workers = Function.update server.workers t pc)
    (hx : ThreadPool.cv.wake x = none) (hready : pc = .idle → x = .ready) :
    Awake server' (Function.update place t x) where
  awake t' := by
    rw [Function.update_apply]
    split
    · exact hx
    · exact h.awake t'
  ready t' hidle := by
    rw [hworkers, Function.update_apply] at hidle
    rw [Function.update_apply]
    split at hidle
    · next hsame => rw [if_pos hsame, hready hidle]
    · next hne => rw [if_neg hne, h.ready t' hidle]

omit [Fintype Thread] in
/-- What the server does the pool can do as well, with workers that are always
there. -/
theorem Awake.step {server server' : Server Thread}
    {place : Thread → ThreadPool.Place Task} {a : ServerLabel Thread}
    {fd : Int} {seen : List Sight} (h : Awake server place)
    (hs : (watched fd).Reachable (⟨server, place, false⟩, seen))
    (hok : server.Sound a ∧ server.Regular a)
    (hstep : Server.Step server a server') :
    ∃ place', (watched fd).Reachable (⟨server', place', false⟩,
      seen ++ Server.see fd server a server') ∧ Awake server' place' := by
  have hsame : ∀ {pc : Worker} {t : Thread}, pc ≠ .idle →
      server'.workers = Function.update server.workers t pc →
      Awake server' place := by
    intro pc t hbusy hworkers
    refine ⟨h.awake, fun t' hidle => ?_⟩
    rw [hworkers, Function.update_apply] at hidle
    split at hidle
    · exact absurd hidle hbusy
    · exact h.ready t' hidle
  cases ha : a with
  | wait | turn | dispatch | accept | addConnection | addFd | logged | close =>
      have hin : InLoop a := by rw [ha]; trivial
      obtain ⟨hworkers, hqueue⟩ := loop_frame hin hstep
      subst ha
      refine ⟨place, ?_, h.awake, fun t hidle => h.ready t (hworkers ▸ hidle)⟩
      rcases hqueue with hqueue | ⟨task, hqueue⟩
      · have hpooled : Step ⟨server, place, false⟩ (.server _)
            ⟨server', place, false⟩ := .loop rfl hin hstep hqueue
        exact hs.next_observed hpooled hok
      · have hpooled : Step ⟨server, place, false⟩ (.server _)
            ⟨server', place, true⟩ := .addTask rfl hin hstep hqueue
        have hnotify : Step ⟨server', place, true⟩ .notify
            ⟨server', place, false⟩ := .notify rfl (.nobody h.awake)
        exact (hs.next_observed hpooled hok).next_unseen hnotify trivial rfl
  | read | process | write | modFd | closeBy =>
      have hin : InTask a := by rw [ha]; trivial
      obtain ⟨-, -, t, pc, hworkers, hbusy, -⟩ := task_work hin hstep
      subst ha
      have hpooled : Step ⟨server, place, false⟩ (.server _)
          ⟨server', place, false⟩ := .inTask hin hstep
      exact ⟨place, hs.next_observed hpooled hok, hsame hbusy hworkers⟩
  | take t =>
      subst ha
      have htake := hstep
      cases hstep with
      | @take _ task rest ht hq =>
          have hrun : (place t).runnable = true := by rw [h.ready t ht]; rfl
          have hround : (pool ⟨server, place, false⟩).round
              = .run task ⟨true, rest⟩ := by
            rw [pool, ThreadPool.round]
            simp only [hq]
          have hpooled : Step ⟨server, place, false⟩ (.server (.take t)) _ :=
            .run hrun hround htake
          exact ⟨_, hs.next_observed hpooled hok,
            h.update rfl rfl fun hidle => by cases hidle⟩
  | finish t =>
      subst ha
      have hpooled : Step ⟨server, place, false⟩ (.server (.finish t)) _ :=
        .finish hstep
      cases hstep with
      | finish ht =>
          exact ⟨_, hs.next_observed hpooled hok, h.update rfl rfl fun _ => rfl⟩

omit [Fintype Thread] in
/-- Every run of the server is one of the server on its pool. -/
theorem watched_of_server {server : Server Thread} {fd : Int}
    {seen : List Sight}
    (hs : ((Server.system.restrict fun s a => s.Sound a ∧ s.Regular a).observed
      (Server.see fd)).Reachable (server, seen)) :
    ∃ place, (watched fd).Reachable (⟨server, place, false⟩, seen) ∧
      Awake server place := by
  refine hs.invariant (I := fun p : Server Thread × _ =>
    ∃ place, (watched fd).Reachable (⟨p.1, place, false⟩, p.2) ∧
      Awake p.1 place) ?_ ?_
  · intro p hinit
    exact ⟨fun _ => .ready, .start ⟨⟨hinit.1, fun _ => rfl, rfl⟩, hinit.2⟩,
      fun _ => rfl, fun _ _ => rfl⟩
  · intro p a p' _ ih h
    obtain ⟨place, hprev, hawake⟩ := ih
    obtain ⟨⟨hok, hstep⟩, hseen⟩ := h
    rw [hseen]
    exact hawake.step hprev hok hstep

/-- A client that has asked for a page and got it, and two workers that have
gone to sleep. -/
theorem served_watched : ∃ (s : PooledServer Bool) (wire : List Octet),
    (watched 4).Reachable
      (s, [.connect, .receive plainGet, .answer wire, .send wire]) ∧
    s.AtRest ∧ s.server.opened 4 = true := by
  obtain ⟨c, wire, hserved⟩ :=
    Server.greeted_answered (fun _ => True) trivial
  obtain ⟨place, hs, hawake⟩ := watched_of_server
    (hserved.mono_observed fun s a h => ⟨h.2.2.2, h.1⟩)
  let up : PooledServer Bool := ⟨Server.greeted.setClient 4 c, place, false⟩
  have hready : ∀ t, (up.place t).runnable = true := fun t =>
    congrArg ThreadPool.Place.runnable (hawake.ready t rfl)
  have hfirst : Step up (.round true) (up.setPlace true .asleep) :=
    .wait (hready true) rfl
  have hsecond : Step (up.setPlace true .asleep) (.round false)
      ((up.setPlace true .asleep).setPlace false .asleep) :=
    .wait (hready false) rfl
  have hslept := (hs.next_unseen hfirst trivial rfl).next_unseen hsecond
    trivial rfl
  refine ⟨_, _, hslept, ⟨rfl, rfl, rfl, fun t => ⟨rfl, ?_⟩⟩, rfl⟩
  cases t with
  | false => rfl
  | true => rfl

theorem rest_means_served_page : ∃ (s : PooledServer Bool)
    (seen : List Sight) (wire : List Octet),
    seen = [.connect, .receive plainGet, .answer wire, .send wire] ∧
    ((∃ a f, s.server.Stops a f) ∨
      List.Forall₂ HttpConnector.Answers (Exchange.ledger seen).requests
        (Exchange.ledger seen).replies ∧
      ∃ rest, (Exchange.ledger seen).sent ++ rest
          = (Exchange.ledger seen).replies.flatten ∧
        (s.server.interest 4 = .armed false ∧ rest = [] ∨
          s.server.interest 4 = .armed true ∧ rest ≠ [])) := by
  obtain ⟨s, wire, hs, hrest, hopen⟩ := served_watched
  exact ⟨s, _, wire, rfl, rest_means_served hs hrest.final hopen⟩

end PooledServer

end TinyWebServer
