import TinyWebServer.Proofs.Service

/-!
# Every connection is an exchange

The server is a main loop, a queue and workers, and none of them has a
connection for longer than a call. Seen from a client none of that shows: what
goes over its connection is what goes over any connection on which the two
ends take turns, `Exchange`. `see` is what a client sees of a step, and
`conducts_simulates` is the simulation, one descriptor at a time. Of what a
client is sent the heads are seen as they are, the files by their lengths.

What ties the two together is who may be looking at the connection. A
connection that can still lead to a `Read` is `Receptive`, and nothing is owed
on it; bytes that were read are processed before anything else happens; and
what `Process` makes is owed until `Write` has paid it. The steps of all the
other threads leave the connector as it is, and make no connection receptive
that was not.
-/

namespace TinyWebServer

open Lib

/-- The connection a worker may come to read from, or to process, before
anything is sent on it. -/
def Worker.receptive : Worker → Option Int
  | .running .read fd | .processing fd | .rearming false fd => some fd
  | .idle | .running .write _ | .rearming true _ | .closing _ _
  | .finishing => none

namespace Server

open HttpConnector

variable {Thread : Type}

/-! ## Who may receive -/

/-- Some thread may come to read from `fd`, or to process what was read,
without anything being sent on it before. -/
inductive Receptive (s : Server Thread) (fd : Int) : Prop where
  | adding (batch : List Event) : s.main = .adding fd batch → Receptive s fd
  | armed : s.interest fd = .armed false → Receptive s fd
  | reported (e : Event) : e ∈ s.main.batch → e.fd = fd →
      e.fd ≠ s.listenFd → e.epollin = true → Receptive s fd
  | queued : ⟨.read, fd⟩ ∈ s.queue → Receptive s fd
  | worker (t : Thread) : (s.workers t).receptive = some fd → Receptive s fd

/-- What is reported was armed for it. -/
theorem deliver_reported {listenFd : Int} : ∀ {batch : List Event}
    {interest interest' : Int → Registration},
    deliver listenFd interest batch = some interest' →
    (∀ e ∈ batch, e.fd ≠ listenFd → e.epollin = true →
      interest e.fd = .armed false) ∧
    ∀ fd out, interest' fd = .armed out → interest fd = .armed out := by
  intro batch
  induction batch with
  | nil =>
      intro interest interest' h
      cases h
      exact ⟨by simp, fun _ _ h => h⟩
  | cons e rest ih =>
      intro interest interest' h
      rw [deliver] at h
      split at h
      · next hl =>
          obtain ⟨hin, harmed⟩ := ih h
          refine ⟨fun e' he' hne => ?_, harmed⟩
          rcases List.mem_cons.mp he' with rfl | he'
          · exact absurd hl hne
          · exact hin e' he' hne
      · split at h
        · next out hout =>
            split at h
            · next hfits =>
                obtain ⟨hin, harmed⟩ := ih h
                -- The descriptor is disarmed for what is reported later.
                have hkeep : ∀ fd out', Function.update interest e.fd
                    .disarmed fd = .armed out' → interest fd = .armed out' := by
                  intro fd out' hfd
                  rw [Function.update_apply] at hfd
                  split at hfd
                  · cases hfd
                  · exact hfd
                refine ⟨fun e' he' hne hepollin => ?_,
                  fun fd out' h => hkeep fd out' (harmed fd out' h)⟩
                rcases List.mem_cons.mp he' with rfl | he'
                · rw [Event.fits, hepollin] at hfits
                  cases out with
                  | false => exact hout
                  | true => simp at hfits
                · exact hkeep _ _ (hin e' he' hne hepollin)
            · cases h
        · cases h

/-- Only `EPOLLIN` leads to a `_FunRead`. -/
theorem dispatch_queue {s s' : Server Thread} {e : Event}
    {batch : List Event} (h : s.dispatch e batch = .ok s') {fd : Int}
    (hq : ⟨.read, fd⟩ ∈ s'.queue) :
    ⟨.read, fd⟩ ∈ s.queue ∨
      e.fd = fd ∧ e.fd ≠ s.listenFd ∧ e.epollin = true := by
  rw [dispatch] at h
  split at h
  · cases h; exact .inl hq
  next hl =>
  split at h
  · obtain ⟨u, -, h⟩ := bind_ok_iff.mp h
    cases h
    exact .inl hq
  split at h
  · next hin =>
      obtain ⟨u, -, h⟩ := bind_ok_iff.mp h
      cases h
      rcases List.mem_append.mp hq with hq | hq
      · exact .inl hq
      · cases List.mem_singleton.mp hq
        exact .inr ⟨rfl, hl, hin⟩
  split at h
  · obtain ⟨u, -, h⟩ := bind_ok_iff.mp h
    cases h
    rcases List.mem_append.mp hq with hq | hq
    · exact .inl hq
    · cases List.mem_singleton.mp hq
  · cases h; exact .inl hq

section

variable {s s' : Server Thread} {fd : Int}

/-- A step of the main loop. -/
theorem Receptive.loop (h : s'.Receptive fd)
    (hworkers : s'.workers = s.workers) (hlisten : s'.listenFd = s.listenFd)
    (hadding : ∀ batch, s'.main = .adding fd batch → s.Receptive fd)
    (harmed : s'.interest fd = .armed false → s.Receptive fd)
    (hbatch : ∀ e ∈ s'.main.batch, e.fd = fd → e.fd ≠ s.listenFd →
      e.epollin = true → s.Receptive fd)
    (hqueue : ⟨.read, fd⟩ ∈ s'.queue → s.Receptive fd) : s.Receptive fd := by
  cases h with
  | adding batch hm => exact hadding batch hm
  | armed hi => exact harmed hi
  | reported e he hfd hl hin => exact hbatch e he hfd (hlisten ▸ hl) hin
  | queued hq => exact hqueue hq
  | worker t ht => exact .worker t (hworkers ▸ ht)

/-- A step of the main loop that arms nothing, reports nothing and queues
nothing. -/
theorem Receptive.quiet (h : s'.Receptive fd)
    (hworkers : s'.workers = s.workers) (hlisten : s'.listenFd = s.listenFd)
    (hadding : ∀ batch, s'.main ≠ .adding fd batch)
    (harmed : s'.interest fd = .armed false → s.interest fd = .armed false)
    (hbatch : ∀ e ∈ s'.main.batch, e ∈ s.main.batch)
    (hqueue : s'.queue = s.queue) : s.Receptive fd :=
  h.loop hworkers hlisten (fun batch hm => absurd hm (hadding batch))
    (fun hi => .armed (harmed hi))
    (fun e he hfd hl hin => .reported e (hbatch e he) hfd hl hin)
    (fun hq => .queued (hqueue ▸ hq))

/-- A step of a worker. -/
theorem Receptive.work [DecidableEq Thread] {t : Thread} {pc : Worker}
    (h : s'.Receptive fd) (hmain : s'.main = s.main)
    (hlisten : s'.listenFd = s.listenFd)
    (hworkers : s'.workers = Function.update s.workers t pc)
    (harmed : s'.interest fd = .armed false → s.Receptive fd)
    (hqueue : ∀ task ∈ s'.queue, task ∈ s.queue)
    (hpc : pc.receptive = some fd → s.Receptive fd) : s.Receptive fd := by
  cases h with
  | adding batch hm => exact .adding batch (hmain ▸ hm)
  | armed hi => exact harmed hi
  | reported e he hfd hl hin =>
      exact .reported e (hmain ▸ he) hfd (hlisten ▸ hl) hin
  | queued hq => exact .queued (hqueue _ hq)
  | worker t' ht' =>
      rw [hworkers, Function.update_apply] at ht'
      split at ht'
      · exact hpc ht'
      · exact .worker t' ht'

end

variable [DecidableEq Thread]

/-- A connection becomes receptive when it is set up, or when everything was
sent on it; no other step makes it so. -/
theorem Step.receptive [Fintype Thread] {s s' : Server Thread}
    {a : ServerLabel Thread} {fd : Int} (hi : s.Inv) (h : Step s a s')
    (hr : s'.Receptive fd) :
    s.Receptive fd ∨
      (∃ fresh batch, a = .addConnection fresh ∧
        s'.main = .adding fd batch) ∨
      ∃ t results wouldBlock c, a = .write t results wouldBlock ∧
        s.workers t = .running .write fd ∧
        s'.clients fd = some c ∧ c.writeableSize = 0 := by
  have harmed : s.interest fd = .armed false → s.Receptive fd := .armed
  have hqueued : ⟨.read, fd⟩ ∈ s.queue → s.Receptive fd := .queued
  cases h with
  | wait hm _ hd =>
      obtain ⟨hin, hsame⟩ := deliver_reported hd
      refine .inl (hr.loop rfl rfl (by simp) (fun h => harmed (hsame _ _ h)) ?_
        fun hq => .queued hq)
      intro e he hfd hl hepollin
      exact .armed (hfd ▸ hin e he hl hepollin)
  | turn hm =>
      exact .inl (hr.quiet rfl rfl (by simp) id (by simp [MainLoop.batch]) rfl)
  | acceptEnd hm _ | accept hm _ _ _ | logged hm =>
      exact .inl (hr.quiet rfl rfl (by simp) id
        (by simp [MainLoop.batch, hm]) rfl)
  | @dispatch s' e batch hm hd =>
      have hqueue : ⟨.read, fd⟩ ∈ s'.queue → _ := dispatch_queue hd
      have hrest : ∀ e' ∈ batch, e' ∈ s.main.batch := by
        rw [hm]
        exact fun e' he' => List.mem_cons_of_mem e he'
      have hfirst : e ∈ s.main.batch := by simp [hm, MainLoop.batch]
      obtain ⟨-, rfl⟩ | ⟨-, rfl | ⟨kind, rfl⟩ | ⟨-, rfl⟩⟩ := dispatch_cases hd
      · exact .inl (hr.quiet rfl rfl (by simp) id hrest rfl)
      · exact .inl (hr.quiet rfl rfl (by simp) id hrest rfl)
      · refine .inl (hr.loop rfl rfl (by simp) harmed ?_ ?_)
        · exact fun e' he' hfd hl hin => .reported e' (hrest e' he') hfd hl hin
        · intro hq
          rcases hqueue hq with hold | ⟨hfd, hl, hin⟩
          · exact .queued hold
          · exact .reported e hfirst hfd hl hin
      · exact .inl (hr.quiet rfl rfl (by simp) id hrest rfl)
  | @addConnection s' fresh fd₀ batch hm _ ha =>
      obtain ⟨-, rfl⟩ | ⟨-, rfl⟩ := addConnection_cases ha
      · exact .inl (hr.quiet rfl rfl (by simp) id (by simp [MainLoop.batch, hm])
          rfl)
      · by_cases hfd : fd₀ = fd
        · subst hfd
          exact .inr (.inl ⟨fresh, batch, rfl, rfl⟩)
        · refine .inl (hr.quiet rfl rfl ?_ id (by simp [MainLoop.batch, hm])
            rfl)
          intro batch' hadding
          cases hadding
          exact hfd rfl
  | @addFd s' ok fd₀ batch hm hnew ha =>
      obtain ⟨u, -, ha⟩ := bind_ok_iff.mp ha
      cases ha
      refine .inl (hr.loop rfl rfl (by simp) ?_ ?_ hqueued)
      · intro hout
        simp only [] at hout
        split at hout
        · rw [Function.update_apply] at hout
          split at hout
          · next hfd => exact .adding batch (hfd ▸ hm)
          · exact harmed hout
        · exact harmed hout
      · intro e he hfd hl hin
        exact .reported e (by simpa [MainLoop.batch, hm] using he) hfd hl hin
  | @close s' stage fd₀ batch hm hcl =>
      obtain ⟨-, hlisten⟩ := closeConnection_loop hcl
      obtain ⟨hworkers, hqueue, hsame⟩ := closeConnection_rest hcl
      refine .inl (hr.quiet hworkers hlisten ?_ (hsame fd) ?_ hqueue)
      · intro batch' hadding
        cases stage <;> cases hadding
      · rw [hm]
        cases stage <;> exact fun e he => he
  | @take t task rest ht hq =>
      refine .inl (hr.work rfl rfl rfl harmed ?_ ?_)
      · rw [hq]
        exact fun task' h => List.mem_cons_of_mem task h
      · intro hpc
        refine .queued ?_
        obtain ⟨kind, client⟩ := task
        rw [hq]
        cases kind with
        | read => cases hpc; exact List.mem_cons_self
        | write => cases hpc
  | @read t fd₀ c c' arrived last ret status ht hc hread =>
      refine .inl (hr.work rfl rfl rfl harmed (fun _ h => h) ?_)
      rw [funRead_eq hread fd₀]
      exact fun hpc => .worker t (by rw [ht]; exact hpc)
  | @process t fd₀ c c' w ready ht hc hp =>
      refine .inl (hr.work rfl rfl rfl harmed (fun _ h => h) ?_)
      intro hpc
      cases ready with
      | false => exact .worker t (by rw [ht]; exact hpc)
      | true => cases hpc
  | @write t fd₀ c c' results wouldBlock ret status ht hc hw =>
      by_cases hdone : fd₀ = fd ∧ c'.writeableSize = 0
      · obtain ⟨rfl, hzero⟩ := hdone
        exact .inr (.inr ⟨t, results, wouldBlock, c', rfl, ht,
          Function.update_self .., hzero⟩)
      · refine .inl (hr.work rfl rfl rfl harmed (fun _ h => h) ?_)
        intro hpc
        rw [funWrite] at hpc
        split at hpc
        · next hzero =>
            cases hpc
            exact absurd ⟨rfl, hzero⟩ hdone
        split at hpc
        · split at hpc
          · cases hpc
          · cases hpc
        · cases hpc
  | @modFd t out fd₀ c ok ht hc hreg =>
      have hfd := (hi.held (by rw [ht]; rfl) hc).2.1
      refine .inl (hr.work rfl rfl rfl ?_ (fun _ h => h)
        (by simp [Worker.receptive]))
      intro hout
      simp only [setWorker] at hout
      split at hout
      · rw [Function.update_apply] at hout
        split at hout
        · next hsame =>
            cases hout
            exact .worker t (by rw [ht, hsame, hfd]; rfl)
        · exact harmed hout
      · exact harmed hout
  | closeBy ht _ => exact absurd ht (hi.noCloser _ _ _)
  | finish ht =>
      exact .inl (hr.work rfl rfl rfl harmed (fun _ h => h)
        (by simp [Worker.receptive]))

/-- What the connection under `fd` is in the middle of. -/
def Conducts (s : Server Thread) (fd : Int) :
    Option (Exchange UInt8 Octet) → Prop
  | none => ∀ c, s.clients fd = some c → c.status = false
  | some e => ∃ c, s.clients fd = some c ∧ c.status = true ∧
      c.readBuffer.readable = e.inbox ∧ c.Owes e.outbox ∧
      (s.Receptive fd → e.outbox = [])

omit [DecidableEq Thread] in
/-- A step that is not on this connection. -/
theorem Conducts.keep {s s' : Server Thread} {fd : Int}
    {x : Option (Exchange UInt8 Octet)} (h : s.Conducts fd x)
    (hclients : s'.clients fd = s.clients fd)
    (hrec : s'.Receptive fd → s.Receptive fd) : s'.Conducts fd x := by
  cases x with
  | none =>
      intro c hc
      exact h c (hclients ▸ hc)
  | some e =>
      obtain ⟨c, hc, hstatus, hin, hout, howed⟩ := h
      exact ⟨c, hclients.trans hc, hstatus, hin, hout,
        fun hr => howed (hrec hr)⟩

/-! ## The simulation -/

section

variable [Fintype Thread]

omit [DecidableEq Thread] in
/-- A connection whose worker is past `Process` is not receptive. -/
theorem Inv.not_receptive {s : Server Thread} (hi : s.Inv) {t : Thread}
    {fd : Int} (ht : (s.workers t).client = some fd)
    (hpc : (s.workers t).receptive ≠ some fd) : ¬ s.Receptive fd := by
  have hrun : 0 < s.running fd :=
    population_pos (p := fun pc : Worker => pc.client = some fd) ht
  have hone := (hi.single fd).trans (Bool.toNat_le _)
  rw [situations] at hone
  intro h
  cases h with
  | adding batch hm =>
      rw [handling, hm, MainLoop.current, inHand_some, if_pos rfl] at hone
      omega
  | armed harmed =>
      rw [armed, harmed] at hone
      simp only [Registration.isArmed, Bool.toNat_true] at hone
      omega
  | reported e he hfd hl _ =>
      have hmem : fd ∈ clientFds s.listenFd s.main.batch := by
        rw [clientFds, List.mem_filter]
        exact ⟨List.mem_map.mpr ⟨e, he, hfd⟩, by simpa [hfd] using hl⟩
      have hcount := List.count_pos_iff.mpr hmem
      rw [handling] at hone
      omega
  | queued hq =>
      have hcount : 0 < s.queued fd :=
        List.count_pos_iff.mpr (List.mem_map.mpr ⟨_, hq, rfl⟩)
      omega
  | worker t' ht' =>
      have hclient : (s.workers t').client = some fd := by
        cases hw : s.workers t' with
        | running kind fd' =>
            rw [hw] at ht'
            cases kind with
            | read => exact ht'
            | write => cases ht'
        | processing fd' => rw [hw] at ht'; exact ht'
        | rearming out fd' =>
            rw [hw] at ht'
            cases out with
            | false => exact ht'
            | true => cases ht'
        | idle | closing _ _ | finishing => rw [hw] at ht'; cases ht'
      have hsame : t = t' :=
        population_le_one (p := fun pc : Worker => pc.client = some fd)
          (show s.running fd ≤ 1 by omega) ht hclient
      subst hsame
      exact hpc ht'

/-- The exchanges a client may see. -/
abbrev exchange : TransitionSystem (Option (Exchange UInt8 Octet))
    Sight :=
  Exchange.system Answers

/-- The exchanges a client may see while the world is `ok`. -/
abbrev exchangeIn (ok : World → Prop) :
    TransitionSystem (Option (Exchange UInt8 Octet)) Sight :=
  Exchange.system (AnswersIn ok)

section

variable {s s' : Server Thread} {fd : Int}
  {x : Option (Exchange UInt8 Octet)} {ok : World → Prop}

omit [DecidableEq Thread] [Fintype Thread] in
/-- A running connector is in an exchange. -/
theorem Conducts.open (h : s.Conducts fd x) {c : HttpConnector}
    (hc : s.clients fd = some c) (hstatus : c.status = true) :
    ∃ e, x = some e ∧ c.readBuffer.readable = e.inbox ∧ c.Owes e.outbox ∧
      (s.Receptive fd → e.outbox = []) := by
  cases x with
  | none =>
      rw [h c hc] at hstatus
      cases hstatus
  | some e =>
      obtain ⟨c', hc', -, hin, hout, howed⟩ := h
      rw [hc'] at hc
      cases hc
      exact ⟨e, rfl, hin, hout, howed⟩

omit [DecidableEq Thread] [Fintype Thread] in
/-- A step of which nothing is seen. -/
theorem Conducts.unseen (h : s.Conducts fd x)
    (hrec : s'.Receptive fd → s.Receptive fd)
    (hclients : s'.clients fd = s.clients fd)
    {events : List Sight} (hnone : events = []) :
    ∃ y, (exchangeIn ok).Run x events y ∧ s'.Conducts fd y := by
  subst hnone
  exact ⟨x, .nil x, h.keep hclients hrec⟩

theorem conducts_addConnection (hs : system.Reachable s)
    {fresh : HttpConnector} {fd₀ : Int} {batch : List Event}
    (hm : s.main = .accepted fd₀ batch) (hfresh : fresh.Fresh)
    (ha : s.addConnection fresh fd₀ batch = .ok s')
    (hrec : s'.Receptive fd →
      s.Receptive fd ∨ ∃ batch', s'.main = .adding fd batch')
    (hx : s.Conducts fd x) :
    ∃ y, (exchangeIn ok).Run x (see fd s (.addConnection fresh) s') y ∧
      s'.Conducts fd y := by
  obtain ⟨-, rfl⟩ | ⟨-, rfl⟩ := addConnection_cases ha
  · refine hx.unseen (fun hr => (hrec hr).resolve_right ?_) rfl rfl
    simp
  · by_cases hfd : fd₀ = fd
    · subst hfd
      obtain ⟨hread, hnothing⟩ := arrival_blank hs hm hfresh
      have hnone : x = none := by
        -- A descriptor just accepted has no running connector.
        cases x with
        | none => rfl
        | some e =>
            obtain ⟨c, hc, hstatus, -⟩ := hx
            have hidle := (counted_reachable
              (closing_of_reachable hs)).arriving fd₀ batch hm
            refine absurd ?_ (hidle.2 c.fd)
            rw [sockets, hc, Option.map_some, hstatus]
      subst hnone
      refine ⟨some ⟨[], []⟩, ?_, _, Function.update_self .., rfl, hread,
        .inl ⟨hnothing.remaining, rfl⟩, fun _ => rfl⟩
      rw [see]
      simp only [if_true]
      exact .single .connect
    · refine hx.unseen (fun hr => (hrec hr).resolve_right ?_)
        (Function.update_of_ne (Ne.symm hfd) ..) (if_neg hfd)
      simp [hfd]

/-- Before a `Read` there is nothing in hand. -/
theorem Conducts.resting (hs : system.Reachable s) (hx : s.Conducts fd x)
    {t : Thread} {kind : TaskKind} {c : HttpConnector}
    (ht : s.workers t = .running kind fd) (hc : s.clients fd = some c) :
    c.status = true ∧ ∃ e, x = some e ∧ e.inbox = [] ∧
      c.readBuffer.readable = [] ∧ c.Owes e.outbox ∧
      (s.Receptive fd → e.outbox = []) := by
  have hi := inv_reachable hs
  have hstatus := (hi.held (by rw [ht]; rfl) hc).2.2
  obtain ⟨e, rfl, hin, hout, howed⟩ := hx.open hc hstatus
  have hread : c.readBuffer.readable = [] := by
    by_contra hne
    obtain ⟨t', ht'⟩ := (tidy_reachable hs).drained fd c hc hne
    have hsame : t = t' :=
      hi.one_worker (show (s.workers t).touched = some fd by rw [ht]; rfl)
        (by rw [ht']; rfl)
    subst hsame
    rw [ht] at ht'
    cases ht'
  exact ⟨hstatus, e, rfl, hin ▸ hread, hread, hout, howed⟩

theorem conducts_read (hs : system.Reachable s) {t : Thread}
    {arrived : List Recv} {last : Recv}
    (hreg : s.Regular (.read t arrived last))
    {c c' : HttpConnector} {ret : Int} {status : Bool}
    (ht : s.workers t = .running .read fd) (hc : s.clients fd = some c)
    (hr : c.read arrived last = .ok (c', ret, status))
    (hx : s.Conducts fd x) :
    ∃ y, (exchangeIn ok).Run x [.receive (received arrived last)] y ∧
      ((s.setClient fd c').setWorker t (funRead fd ret status)).Conducts fd
        y := by
  obtain ⟨hstatus, ⟨inbox, outbox⟩, rfl, hin, hread, hout, howed⟩ :=
    hx.resting hs ht hc
  cases hin
  cases howed (.worker t (by rw [ht]; rfl))
  obtain ⟨hmore, hleft, -⟩ := read_received
    (inv_history (clients_reachable hs fd c hc)) (hreg fd c ht hc) hr
  rw [hread, List.nil_append] at hmore
  refine ⟨some ⟨received arrived last, []⟩, .single (.receive _), c',
    Function.update_self .., (read_sameSocket hr).status.trans hstatus, hmore,
    .inl ⟨?_, rfl⟩, fun _ => rfl⟩
  rw [hleft, hout.remaining]
  rfl

theorem conducts_process (hs : system.Reachable s) {t : Thread} {w : World}
    (hreg : s.Regular (.process t w)) (hok : ok w) {c c' : HttpConnector}
    {ready : Bool}
    (ht : s.workers t = .processing fd) (hc : s.clients fd = some c)
    (hp : c.process w = .ok (c', ready))
    (hi' : ((s.setClient fd c').setWorker t (.rearming ready fd)).Inv)
    (hx : s.Conducts fd x) :
    ∃ y, (exchangeIn ok).Run x (see fd s (.process t w)
        ((s.setClient fd c').setWorker t (.rearming ready fd))) y ∧
      ((s.setClient fd c').setWorker t (.rearming ready fd)).Conducts fd
        y := by
  have hinv := inv_history (clients_reachable hs fd c hc)
  have hstatus := ((inv_reachable hs).held (by rw [ht]; rfl) hc).2.2
  obtain ⟨⟨inbox, outbox⟩, rfl, hin, hout, howed⟩ := hx.open hc hstatus
  have hrec : s.Receptive fd := .worker t (by rw [ht]; rfl)
  cases howed hrec
  have hsize := hinv.read.length_readable
  have hpc : ((s.setClient fd c').setWorker t
      (.rearming ready fd)).workers t = .rearming ready fd :=
    Function.update_self ..
  have hstatus' := (process_sameSocket hp).status.trans hstatus
  cases ready with
  | false =>
      -- There was nothing to process.
      have hsame : c' = c := by
        by_cases hne : c.readBuffer.readable = []
        · rw [hne] at hsize
          rw [process_idle w hsize.symm] at hp
          cases hp
          rfl
        · have hspec := process_spec hinv w hne
          rw [hp] at hspec
          obtain ⟨a, -, hready, -⟩ := hspec.ok_left
          cases hready
      subst hsame
      refine ⟨some ⟨inbox, []⟩, ?_, c', Function.update_self .., hstatus', hin,
        hout, fun _ => rfl⟩
      rw [see, hpc, if_neg (by simp)]
      exact .nil _
  | true =>
      have hne : inbox ≠ [] := by
        intro hnone
        rw [hin, hnone] at hsize
        rw [process_idle w hsize.symm] at hp
        cases hp
      have hwire : ((s.setClient fd c').setWorker t
          (.rearming true fd)).wire fd = c'.wire := by
        rw [wire, show ((s.setClient fd c').setWorker t
          (.rearming true fd)).clients fd = some c' from
            Function.update_self ..]
      refine ⟨some ⟨[], c'.wire⟩, ?_, c',
        Function.update_self .., hstatus', process_drained hinv hp,
        Owes.ready hinv hp (hreg fd c c' ht hc hp), ?_⟩
      · rw [see, hpc, if_pos rfl, hwire]
        exact .single (.answer hne
          ⟨c, w, c', hok, clients_reachable hs fd c hc, hin, hp, rfl⟩)
      · exact fun hr => absurd hr (hi'.not_receptive (t := t)
          (by rw [hpc]; rfl) (by rw [hpc]; simp [Worker.receptive]))

theorem conducts_write (hs : system.Reachable s) {t : Thread}
    {results : List Int} {wouldBlock : Bool}
    (hreg : s.Regular (.write t results wouldBlock)) {c c' : HttpConnector}
    {ret : Int} {status : Bool}
    (ht : s.workers t = .running .write fd) (hc : s.clients fd = some c)
    (hw : c.write true results = .ok (some (c', ret, status)))
    (hrec : ((s.setClient fd c').setWorker t
        (funWrite fd c' ret wouldBlock)).Receptive fd →
      s.Receptive fd ∨ c'.writeableSize = 0)
    (hx : s.Conducts fd x) :
    ∃ y, (exchangeIn ok).Run x [.send (s.sentBy fd results)] y ∧
      ((s.setClient fd c').setWorker t (funWrite fd c' ret wouldBlock)).Conducts
        fd y := by
  obtain ⟨hstatus, ⟨inbox, outbox⟩, rfl, hin, hread, hout, howed⟩ :=
    hx.resting hs ht hc
  cases hin
  obtain ⟨sent, rest, hsent, hsplit, hleft⟩ :=
    hout.write (hreg fd c ht hc) hw
  have hby : s.sentBy fd results = legible c.iov₀.len sent := by
    rw [sentBy, hc]
    simp only [hsent, Except.toOption, Option.getD_some]
  cases hsplit
  refine ⟨some ⟨[], rest⟩, ?_, c', Function.update_self ..,
    (write_returns hw).1.status.trans hstatus,
    (congrArg Buffer.readable (write_sameRest hw).readBuffer).trans hread,
    hleft, ?_⟩
  · rw [hby]
    exact .single (.send _ rest)
  · intro hr
    rcases hrec hr with hr | hzero
    · exact (List.append_eq_nil_iff.mp (howed hr)).2
    · exact hleft.done_iff.mp hzero

theorem conducts_close (hs : system.Reachable s) {stage : CloseStage}
    {fd₀ : Int} {batch : List Event}
    (hm : s.main = .closing stage fd₀ batch)
    (hcl : s.closeConnection fd₀ stage = some s') {s'' : Server Thread}
    (hclients : s''.clients = s'.clients)
    (hrec : s''.Receptive fd → s.Receptive fd) (hx : s.Conducts fd x) :
    ∃ y, (exchangeIn ok).Run x (see fd s .close s'') y ∧ s''.Conducts fd y := by
  cases stage with
  | delFd =>
      obtain ⟨c, -, rfl⟩ := Option.map_eq_some_iff.mp hcl
      exact hx.unseen hrec (congrFun hclients fd) (by rw [see, hm])
  | log =>
      cases hcl
      exact hx.unseen hrec (congrFun hclients fd) (by rw [see, hm])
  | close =>
      obtain ⟨-, -, hconn⟩ := (inv_reachable hs).closing hm (by rw [hm]; rfl)
      obtain ⟨c, hc, rfl⟩ := Option.map_eq_some_iff.mp hcl
      rw [if_pos (hconn c hc).2] at hclients
      have hseen : see fd s .close s''
          = if fd₀ = fd then [.disconnect] else [] := by
        rw [see, hm]
      by_cases hfd : fd₀ = fd
      · subst hfd
        obtain ⟨e, rfl, -⟩ := hx.open hc (hconn c hc).2
        refine ⟨none, ?_, fun c' hc' => ?_⟩
        · rw [hseen, if_pos rfl]
          exact .single (.disconnect e)
        · have hclosed : s''.clients fd₀ = some c.close :=
            (congrFun hclients fd₀).trans (Function.update_self ..)
          rw [hclosed] at hc'
          cases hc'
          rw [HttpConnector.close, if_pos (hconn c hc).2]
      · refine hx.unseen hrec ?_ (hseen.trans (if_neg hfd))
        exact (congrFun hclients fd).trans
          (Function.update_of_ne (Ne.symm hfd) ..)

end

/-- A step of the server is seen, from any one connection, as steps of an
exchange, or as none. -/
theorem Step.conducts {s s' : Server Thread} {a : ServerLabel Thread}
    {fd : Int} {x : Option (Exchange UInt8 Octet)} {ok : World → Prop}
    (hs : system.Reachable s) (hkept : RegularIn ok s a) (h : Step s a s')
    (hx : s.Conducts fd x) :
    ∃ y, (exchangeIn ok).Run x (see fd s a s') y ∧ s'.Conducts fd y := by
  obtain ⟨hreg, hok⟩ := hkept
  have hi := inv_reachable hs
  have hrec : (∀ fresh, a ≠ .addConnection fresh) →
      (∀ t results wouldBlock, a = .write t results wouldBlock →
        s.workers t ≠ .running .write fd) →
      s'.Receptive fd → s.Receptive fd := by
    intro hadd hwrite hr
    rcases h.receptive hi hr with hr | ⟨fresh, batch, ha, -⟩ |
      ⟨t, results, wouldBlock, c, ha, ht, -⟩
    · exact hr
    · exact absurd ha (hadd fresh)
    · exact absurd ht (hwrite t results wouldBlock ha)
  have hi' := Step.inv hi h
  have hreceptive : s'.Receptive fd → _ := h.receptive hi
  cases h with
  | wait | turn | accept | acceptEnd | logged | take | modFd | finish =>
      exact hx.unseen (hrec (by simp) (by simp)) rfl rfl
  | dispatch _ hd =>
      have hrec := hrec (by simp) (by simp)
      obtain ⟨-, rfl⟩ | ⟨-, rfl | ⟨kind, rfl⟩ | ⟨-, rfl⟩⟩ := dispatch_cases hd
      · exact hx.unseen hrec rfl rfl
      · exact hx.unseen hrec rfl rfl
      · exact hx.unseen hrec rfl rfl
      · exact hx.unseen hrec rfl rfl
  | addFd _ _ ha =>
      have hrec := hrec (by simp) (by simp)
      obtain ⟨u, -, ha⟩ := bind_ok_iff.mp ha
      cases ha
      exact hx.unseen hrec rfl rfl
  | @addConnection s' fresh fd₀ batch hm hfresh ha =>
      refine conducts_addConnection hs hm hfresh ha (fun hr => ?_) hx
      rcases hreceptive hr with hr | ⟨_, batch', _, hadding⟩ |
        ⟨_, _, _, _, hlabel, _⟩
      · exact .inl hr
      · exact .inr ⟨batch', hadding⟩
      · cases hlabel
  | close hm hcl =>
      exact conducts_close hs hm hcl rfl (hrec (by simp) (by simp)) hx
  | @read t fd₀ c c' arrived last ret status ht hc hr =>
      by_cases hfd : fd₀ = fd
      · subst hfd
        rw [see, if_pos ht]
        exact conducts_read hs hreg ht hc hr hx
      · refine hx.unseen (hrec (by simp) (by simp))
          (Function.update_of_ne (Ne.symm hfd) ..) ?_
        rw [see, ht, if_neg (by simp [hfd])]
  | @process t fd₀ c c' w ready ht hc hp =>
      by_cases hfd : fd₀ = fd
      · subst hfd
        exact conducts_process hs hreg hok ht hc hp hi' hx
      · refine hx.unseen (hrec (by simp) (by simp))
          (Function.update_of_ne (Ne.symm hfd) ..) ?_
        rw [see, if_neg]
        intro hready
        have hpc : Worker.rearming ready fd₀ = .rearming true fd :=
          (Function.update_self ..).symm.trans hready
        cases hpc
        exact hfd rfl
  | @write t fd₀ c c' results wouldBlock ret status ht hc hw =>
      by_cases hfd : fd₀ = fd
      · subst hfd
        rw [see, if_pos ht]
        refine conducts_write hs hreg ht hc hw (fun hr => ?_) hx
        rcases hreceptive hr with hr | ⟨_, _, hlabel, _⟩ |
          ⟨_, _, _, c₁, _, _, hc₁, hzero⟩
        · exact .inl hr
        · cases hlabel
        · rw [show ((s.setClient fd₀ c').setWorker t
            (funWrite fd₀ c' ret wouldBlock)).clients fd₀ = some c' from
              Function.update_self ..] at hc₁
          cases hc₁
          exact .inr hzero
      · refine hx.unseen (hrec (by simp) ?_)
          (Function.update_of_ne (Ne.symm hfd) ..) ?_
        · intro t' results' wouldBlock' ha ht'
          cases ha
          rw [ht] at ht'
          cases ht'
          exact hfd rfl
        · rw [see, ht, if_neg (by simp [hfd])]
  | closeBy ht _ => exact absurd ht (hi.noCloser _ _ _)

theorem conducts_simulates (ok : World → Prop) (fd : Int) :
    TransitionSystem.Simulates
      (system.restrict (RegularIn ok : Server Thread → _ → Prop)) (see fd)
      (exchangeIn ok) fun s x => s.Conducts fd x where
  init s h := by
    refine ⟨none, rfl, fun c hc => ?_⟩
    rw [h.1 fd] at hc
    cases hc
  step s a s' x hs hx h :=
    Step.conducts hs.of_restrict h.1 h.2 hx

/-- What the client behind a descriptor has seen, and what the connection is
in the middle of. -/
theorem conducts_reachable {ok : World → Prop} {s : Server Thread} {fd : Int}
    {seen : List Sight}
    (hs : ((system.restrict (RegularIn ok)).observed (see fd)).Reachable
      (s, seen)) :
    ∃ x, (exchangeIn ok).Run none seen x ∧ s.Conducts fd x := by
  obtain ⟨x₀, x, rfl, hrun, hx⟩ := (conducts_simulates ok fd).run hs
  exact ⟨x, hrun, hx⟩

/-- The server listens to a connection again with nothing in hand. -/
theorem Conducts.listening {s : Server Thread} {fd : Int}
    {x : Option (Exchange UInt8 Octet)} (hs : system.Reachable s)
    (hx : s.Conducts fd x) (harmed : s.interest fd = .armed false) :
    x = some ⟨[], []⟩ := by
  obtain ⟨-, c, hc, -, hstatus⟩ := armed_connected hs harmed
  obtain ⟨⟨inbox, outbox⟩, rfl, hin, -, howed⟩ := hx.open hc hstatus
  cases howed (.armed harmed)
  have hread : c.readBuffer.readable = [] := by
    by_contra hne
    obtain ⟨t, ht⟩ := (tidy_reachable hs).drained fd c hc hne
    have hidle := ((inv_reachable hs).held (by rw [ht]; rfl) hc).1
    rw [harmed] at hidle
    cases hidle
  rw [hread] at hin
  cases hin
  rfl

/-- The books of a connection: what was sent is the answers as far as it goes,
and all of them once the server listens again. -/
theorem connection_books {ok : World → Prop} {s : Server Thread} {fd : Int}
    {seen : List Sight}
    (hs : ((system.restrict (RegularIn ok)).observed (see fd)).Reachable
      (s, seen)) :
    ((Exchange.ledger seen).sent <+: (Exchange.ledger seen).replies.flatten ∧
      ∃ done, done <+: (Exchange.ledger seen).requests ∧
        (Exchange.ledger seen).requests.length ≤ done.length + 1 ∧
        List.Forall₂ (AnswersIn ok) done (Exchange.ledger seen).replies) ∧
    (s.interest fd = .armed false →
      (Exchange.ledger seen).sent = (Exchange.ledger seen).replies.flatten ∧
      List.Forall₂ (AnswersIn ok) (Exchange.ledger seen).requests
        (Exchange.ledger seen).replies) := by
  obtain ⟨x, hrun, hx⟩ := conducts_reachable hs
  have hbooks := Exchange.books_ledger rfl hrun
  refine ⟨hbooks.answered, fun harmed => ?_⟩
  cases hx.listening hs.of_observed.of_restrict harmed
  exact hbooks.complete

/-- In every regular run, what the client behind a descriptor has seen is an
exchange, and the connector holds what the exchange has in hand: a running
connector holds what was received and not answered, and owes what was not
sent. -/
theorem connection_is_exchange {s : Server Thread} {fd : Int}
    {seen : List Sight}
    (hs : ((system.restrict Regular).observed (see fd)).Reachable (s, seen)) :
    ∃ x, exchange.Run none seen x ∧
      (∀ c, s.clients fd = some c → c.status = true →
        ∃ e, x = some e ∧ c.readBuffer.readable = e.inbox ∧
          c.remaining = e.outbox.length) ∧
      ∀ e, x = some e → ∃ c, s.clients fd = some c ∧ c.status = true := by
  rw [← regularIn_true] at hs
  obtain ⟨x, hrun, hx⟩ := conducts_reachable hs
  rw [exchangeIn, answersIn_true] at hrun
  refine ⟨x, hrun, fun c hc hstatus => ?_, ?_⟩
  · obtain ⟨e, rfl, hin, hout, -⟩ := hx.open hc hstatus
    exact ⟨e, rfl, hin, hout.remaining⟩
  · rintro e rfl
    obtain ⟨c, hc, hstatus, -⟩ := hx
    exact ⟨c, hc, hstatus⟩

theorem connection_is_exchange_greeted : ∃ (s : Server Bool)
    (wire : List Octet), ∃ x, exchange.Run none
        [.connect, .receive plainGet, .answer wire, .send wire] x ∧
      (∀ c, s.clients 4 = some c → c.status = true →
        ∃ e, x = some e ∧ c.readBuffer.readable = e.inbox ∧
          c.remaining = e.outbox.length) ∧
      ∀ e, x = some e → ∃ c, s.clients 4 = some c ∧ c.status = true := by
  obtain ⟨s, wire, hs, -⟩ := greeted_served (fun _ => True) trivial
  rw [regularIn_true] at hs
  exact ⟨s, wire, connection_is_exchange hs⟩

/-- In every regular run, what was sent to a client since it connected is the
answers to what it sent, in order, as far as it goes; and when the server
listens to it again everything it sent is answered and every answer is sent:
its head, and as many bytes as the file behind it has. -/
theorem replies_in_order {s : Server Thread} {fd : Int}
    {seen : List Sight}
    (hs : ((system.restrict Regular).observed (see fd)).Reachable (s, seen)) :
    ((Exchange.ledger seen).sent <+: (Exchange.ledger seen).replies.flatten ∧
      ∃ done, done <+: (Exchange.ledger seen).requests ∧
        (Exchange.ledger seen).requests.length ≤ done.length + 1 ∧
        List.Forall₂ Answers done (Exchange.ledger seen).replies) ∧
    (s.interest fd = .armed false →
      (Exchange.ledger seen).sent = (Exchange.ledger seen).replies.flatten ∧
      List.Forall₂ Answers (Exchange.ledger seen).requests
        (Exchange.ledger seen).replies) := by
  rw [← regularIn_true] at hs
  rw [← answersIn_true]
  exact connection_books hs

theorem replies_in_order_greeted : ∃ (s : Server Bool) (wire : List Octet),
    ∃ seen, seen = [.connect, .receive plainGet, .answer wire, .send wire] ∧
    s.interest 4 = .armed false ∧
    ((Exchange.ledger seen).sent <+: (Exchange.ledger seen).replies.flatten ∧
      ∃ done, done <+: (Exchange.ledger seen).requests ∧
        (Exchange.ledger seen).requests.length ≤ done.length + 1 ∧
        List.Forall₂ Answers done (Exchange.ledger seen).replies) ∧
    (s.interest 4 = .armed false →
      (Exchange.ledger seen).sent = (Exchange.ledger seen).replies.flatten ∧
      List.Forall₂ Answers (Exchange.ledger seen).requests
        (Exchange.ledger seen).replies) := by
  obtain ⟨s, wire, hs, harmed⟩ := greeted_served (fun _ => True) trivial
  rw [regularIn_true] at hs
  exact ⟨s, wire, _, rfl, harmed, replies_in_order hs⟩

end

end Server

end TinyWebServer
