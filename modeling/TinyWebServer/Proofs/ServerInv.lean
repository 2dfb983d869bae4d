import TinyWebServer.Proofs.Custody

/-!
# The server's invariant

What `Server.Inv` says holds in every reachable state. A worker's step leaves
the main loop where it is and a step of the main loop leaves the workers where
they are, so the invariant is put together in two ways, `Inv.worker` and
`Inv.loop`; the count of places is `Step.balance` in both.

The last result ties the server to the rest of the development: whatever
stands in `_clients` has been driven by the calls of `HttpConnector.history`,
so what holds of every such connector holds of those the server uses.
-/

namespace TinyWebServer

open Lib

namespace Server

variable {Thread : Type}

theorem keep_setClient {s : Server Thread} {fd₀ : Int}
    {c₀ c₁ : HttpConnector} (hc₀ : s.clients fd₀ = some c₀)
    (hsame : c₀.SameSocket c₁) (fd : Int) (c : HttpConnector)
    (hc : s.clients fd = some c) :
    ∃ c', Function.update s.clients fd₀ (some c₁) fd = some c' ∧
      c.SameSocket c' := by
  by_cases hfd : fd = fd₀
  · subst hfd
    rw [hc] at hc₀
    cases hc₀
    exact ⟨c₁, Function.update_self .., hsame⟩
  · exact ⟨c, by rw [Function.update_of_ne hfd, hc], rfl, rfl⟩

/-! ## The connectors of a server -/

/-- `c'` was under `fd` already, or one call has made it of what was. -/
def Driven (s : Server Thread) (fd : Int) (c' : HttpConnector) : Prop :=
  s.clients fd = some c' ∨ ∃ c call, HttpConnector.Call c call c' ∧
    (s.clients fd = some c ∨ c.Fresh)

theorem driven_update {s : Server Thread} {fd fd₀ : Int}
    {c₀ c₁ c' : HttpConnector} {call : ConnectorCall}
    (hcall : HttpConnector.Call c₀ call c₁)
    (hfrom : s.clients fd₀ = some c₀ ∨ c₀.Fresh)
    (h : Function.update s.clients fd₀ (some c₁) fd = some c') :
    s.Driven fd c' := by
  by_cases hfd : fd = fd₀
  · subst hfd
    rw [Function.update_self] at h
    cases h
    exact .inr ⟨c₀, call, hcall, hfrom⟩
  · rw [Function.update_of_ne hfd] at h
    exact .inl h

theorem driven_closeConnection {s s' : Server Thread} {fd fd₀ : Int}
    {stage : CloseStage} {c' : HttpConnector}
    (h : s.closeConnection fd₀ stage = some s')
    (hc' : s'.clients fd = some c') : s.Driven fd c' := by
  cases stage with
  | delFd =>
      obtain ⟨c₀, hc₀, rfl⟩ := Option.map_eq_some_iff.mp h
      exact .inl hc'
  | close =>
      obtain ⟨c₀, hc₀, rfl⟩ := Option.map_eq_some_iff.mp h
      split at hc'
      · exact driven_update .close (.inl hc₀) hc'
      · exact .inl hc'
  | log => cases h; exact .inl hc'

/-- A step of the server is at most one call on one connector. -/
theorem Step.driven [DecidableEq Thread] {s s' : Server Thread}
    {a : ServerLabel Thread} (h : Step s a s') {fd : Int}
    {c' : HttpConnector} (hc' : s'.clients fd = some c') :
    s.Driven fd c' := by
  cases h with
  | wait | turn | accept | acceptEnd | logged | take | modFd | finish =>
      exact .inl hc'
  | dispatch _ hd =>
      obtain ⟨-, rfl⟩ | ⟨-, rfl | ⟨kind, rfl⟩ | ⟨-, rfl⟩⟩ := dispatch_cases hd
      · exact .inl hc'
      · exact .inl hc'
      · exact .inl hc'
      · exact .inl hc'
  | @addConnection s' fresh fd₀ batch _ hfresh ha =>
      obtain ⟨-, rfl⟩ | ⟨-, rfl⟩ := addConnection_cases ha
      · exact .inl hc'
      · refine driven_update .init ?_ hc'
        cases hold : s.clients fd₀ with
        | none => exact .inr hfresh
        | some c => exact .inl rfl
  | addFd _ _ ha =>
      obtain ⟨u, -, ha⟩ := bind_ok_iff.mp ha
      cases ha
      exact .inl hc'
  | close _ hcl => exact driven_closeConnection hcl hc'
  | read _ hc hr => exact driven_update (.read hr) (.inl hc) hc'
  | process _ hc hp => exact driven_update (.process hp) (.inl hc) hc'
  | write _ hc hw => exact driven_update (.write hw) (.inl hc) hc'
  | closeBy _ hcl => exact driven_closeConnection hcl hc'

/-- Whatever stands in `_clients` has a history. -/
theorem clients_reachable [DecidableEq Thread] {s : Server Thread}
    (hs : system.Reachable s) :
    ∀ fd c, s.clients fd = some c → HttpConnector.history.Reachable c := by
  refine hs.invariant (I := fun s => ∀ fd c, s.clients fd = some c →
    HttpConnector.history.Reachable c) ?_ ?_
  · intro s h fd c hc
    rw [h.1 fd] at hc
    cases hc
  · intro s a s' _ ih h fd c' hc'
    rcases h.driven hc' with hold | ⟨c, call, hcall, hold | hfresh⟩
    · exact ih fd c' hold
    · exact (ih fd c hold).next hcall
    · exact (TransitionSystem.Reachable.start hfresh).next hcall

/-! ## Putting the invariant together -/

variable [Fintype Thread]

theorem Balance.single {sound : Prop} {s s' : Server Thread} (hi : s.Inv)
    (hbal : Balance sound s s') (fd : Int) :
    s'.situations fd ≤ (s'.opened fd).toNat := by
  have hone := hi.single fd
  have hle := hbal.le fd
  omega

/-- A connection that keeps its place keeps its connector. -/
theorem Balance.connected {sound : Prop} {s s' : Server Thread} (hi : s.Inv)
    (hbal : Balance sound s s') {fd : Int} (hpos : 0 < s'.situations fd)
    (hopen : s'.opened fd = s.opened fd)
    (hmain : ∀ batch, s.main ≠ .accepted fd batch)
    (hkeep : ∀ c, s.clients fd = some c →
      ∃ c', s'.clients fd = some c' ∧ c.SameSocket c') : s'.Connected fd := by
  have hle := hbal.le fd
  rw [hopen] at hle
  obtain ⟨c, hc, hfd, hstatus⟩ := hi.connected fd (by omega) hmain
  obtain ⟨c', hc', hsame⟩ := hkeep c hc
  exact ⟨c', hc', hsame.fd.trans hfd, hsame.status.trans hstatus⟩

theorem Balance.connected_same {sound : Prop} {s s' : Server Thread}
    (hi : s.Inv) (hbal : Balance sound s s') {fd : Int}
    (hpos : 0 < s'.situations fd) (hopen : s'.opened fd = s.opened fd)
    (hmain : ∀ batch, s.main ≠ .accepted fd batch)
    (hclients : s'.clients fd = s.clients fd) : s'.Connected fd :=
  hbal.connected hi hpos hopen hmain
    fun c hc => ⟨c, hclients.trans hc, rfl, rfl⟩

/-- A worker's step leaves the main loop where it is, and makes no new
task. -/
theorem Inv.worker {sound : Prop} {s s' : Server Thread} (hi : s.Inv)
    (hbal : Balance sound s s') (hmain : s'.main = s.main)
    (hlisten : s'.listenFd = s.listenFd) (hopen : s'.opened = s.opened)
    (hkeep : ∀ fd c, s.clients fd = some c →
      ∃ c', s'.clients fd = some c' ∧ c.SameSocket c')
    (hclose : ∀ t stage fd, s'.workers t ≠ .closing stage fd)
    (htasks : ∀ fd, s'.queued fd + s'.running fd
      ≤ s.queued fd + s.running fd) : s'.Inv where
  single := hbal.single hi
  flagged := by rw [hmain, hlisten]; exact hi.flagged
  connected fd hpos hacc :=
    hbal.connected hi hpos (by rw [hopen]) (hmain ▸ hacc) (hkeep fd)
  noCloser := hclose
  logging fd batch hm :=
    Nat.le_zero.mp (hi.logging fd batch (hmain ▸ hm) ▸ htasks fd)
  departed fd batch hm := by rw [hopen]; exact hi.departed fd batch (hmain ▸ hm)

/-- A step of the main loop leaves the workers where they are. -/
theorem Inv.loop {sound : Prop} {s s' : Server Thread} (hi : s.Inv)
    (hbal : Balance sound s s') (hworkers : s'.workers = s.workers)
    (hflag : ∀ e ∈ s'.main.batch, e.fd ≠ s'.listenFd →
      (e.epollin || e.epollout || e.hangup) = true)
    (hconn : ∀ fd, 0 < s'.situations fd →
      (∀ batch, s'.main ≠ .accepted fd batch) → s'.Connected fd)
    (hlog : ∀ fd batch, s'.main = .logging fd batch →
      s'.queued fd + s'.running fd = 0)
    (hdep : ∀ fd batch, s'.main = .closing .log fd batch →
      s'.opened fd = false) : s'.Inv where
  single := hbal.single hi
  flagged := hflag
  connected := hconn
  noCloser := by rw [hworkers]; exact hi.noCloser
  logging := hlog
  departed := hdep

/-- The same away from the two log entries, where nothing more is to be
shown. -/
theorem Inv.quiet {sound : Prop} {s s' : Server Thread} (hi : s.Inv)
    (hbal : Balance sound s s') (hworkers : s'.workers = s.workers)
    (hlog : ∀ fd batch, s'.main ≠ .logging fd batch)
    (hdep : ∀ fd batch, s'.main ≠ .closing .log fd batch)
    (hflag : ∀ e ∈ s'.main.batch, e.fd ≠ s'.listenFd →
      (e.epollin || e.epollout || e.hangup) = true)
    (hconn : ∀ fd, 0 < s'.situations fd →
      (∀ batch, s'.main ≠ .accepted fd batch) → s'.Connected fd) : s'.Inv :=
  hi.loop hbal hworkers hflag hconn (fun fd b h => absurd h (hlog fd b))
    fun fd b h => absurd h (hdep fd b)

/-! ## The main loop -/

theorem Inv.rest_flagged {s : Server Thread} (hi : s.Inv)
    {batch : List Event} (hbatch : ∀ e ∈ batch, e ∈ s.main.batch) :
    ∀ e ∈ batch, e.fd ≠ s.listenFd →
      (e.epollin || e.epollout || e.hangup) = true :=
  fun e he => hi.flagged e (hbatch e he)

/-- The steps that neither open nor close, and use no connector. -/
theorem inv_move {s s' : Server Thread} (hi : s.Inv) {sound : Prop}
    (hbal : Balance sound s s') (hworkers : s'.workers = s.workers)
    (hclients : s'.clients = s.clients) (hopen : s'.opened = s.opened)
    (hacc : ∀ fd batch, s.main ≠ .accepted fd batch)
    (hlog : ∀ fd batch, s'.main ≠ .logging fd batch)
    (hdep : ∀ fd batch, s'.main ≠ .closing .log fd batch)
    (hflag : ∀ e ∈ s'.main.batch, e.fd ≠ s'.listenFd →
      (e.epollin || e.epollout || e.hangup) = true) : s'.Inv := by
  refine hi.quiet hbal hworkers hlog hdep hflag ?_
  intro fd hpos _
  exact hbal.connected_same hi hpos (congrFun hopen fd) (hacc fd)
    (congrFun hclients fd)

theorem inv_wait {s : Server Thread} (hi : s.Inv) {batch : List Event}
    {interest : Int → Registration} (hm : s.main = .waiting)
    (hd : deliver s.listenFd s.interest batch = some interest) :
    ({ s with interest, main := .dispatching batch } : Server Thread).Inv := by
  have hbal : Balance True s _ := balance_wait hm hd
  exact inv_move hi hbal rfl rfl rfl (by simp [hm]) (by simp) (by simp)
    (deliver_flagged hd)

theorem inv_dispatch {s s' : Server Thread} (hi : s.Inv) {e : Event}
    {batch : List Event} (hm : s.main = .dispatching (e :: batch))
    (h : s.dispatch e batch = .ok s') : s'.Inv := by
  have hbal : Balance True s s' := balance_dispatch hi hm h
  have hflag : ∀ e' ∈ batch, _ := hi.rest_flagged fun e' he' => by
    rw [hm]
    exact List.mem_cons_of_mem _ he'
  obtain ⟨-, rfl⟩ | ⟨-, rfl | ⟨kind, rfl⟩ | ⟨-, rfl⟩⟩ := dispatch_cases h
  · exact inv_move hi hbal rfl rfl rfl (by simp [hm]) (by simp) (by simp) hflag
  · exact inv_move hi hbal rfl rfl rfl (by simp [hm]) (by simp) (by simp) hflag
  · exact inv_move hi hbal rfl rfl rfl (by simp [hm]) (by simp) (by simp) hflag
  · exact inv_move hi hbal rfl rfl rfl (by simp [hm]) (by simp) (by simp) hflag

theorem inv_accept {s : Server Thread} (hi : s.Inv) {fd₀ : Int}
    {batch : List Event} (hm : s.main = .accepting batch)
    (hopen : s.opened fd₀ = false) :
    ({ s with
      opened := Function.update s.opened fd₀ true
      main := .accepted fd₀ batch } : Server Thread).Inv := by
  have hbal : Balance True s _ := balance_accept hm hopen
  refine hi.quiet hbal rfl (by simp) (by simp)
    (hi.rest_flagged fun e he => by rw [hm]; exact he) ?_
  intro fd hpos hacc
  have hfd : fd ≠ fd₀ := by
    rintro rfl
    exact hacc batch rfl
  exact hbal.connected_same hi hpos (Function.update_of_ne hfd ..)
    (by simp [hm]) rfl

theorem inv_addConnection {s s' : Server Thread} (hi : s.Inv)
    {fresh : HttpConnector} {fd₀ : Int} {batch : List Event}
    (hm : s.main = .accepted fd₀ batch)
    (h : s.addConnection fresh fd₀ batch = .ok s') : s'.Inv := by
  have hbal := balance_addConnection hm h
  have hflag : ∀ e ∈ batch, _ :=
    hi.rest_flagged fun e he => by rw [hm]; exact he
  have hacc : ∀ fd, fd ≠ fd₀ → ∀ b, s.main ≠ .accepted fd b := by
    intro fd hfd b hb
    rw [hm] at hb
    cases hb
    exact hfd rfl
  obtain ⟨-, rfl⟩ | ⟨-, rfl⟩ := addConnection_cases h
  · -- The clients are full: the descriptor is in no place any more.
    refine hi.quiet hbal rfl (by simp) (by simp) hflag ?_
    intro fd hpos _
    have hfd : fd ≠ fd₀ := by
      rintro rfl
      have hone := (hi.single fd).trans (Bool.toNat_le _)
      simp only [situations, armed, handling, queued, running, hm,
        MainLoop.batch, MainLoop.current, inHand_none, inHand_some,
        if_true] at hone hpos
      omega
    exact hbal.connected_same hi hpos rfl (hacc fd hfd) rfl
  · refine hi.quiet hbal rfl (by simp) (by simp) hflag ?_
    intro fd hpos _
    by_cases hfd : fd = fd₀
    · subst hfd
      exact ⟨_, Function.update_self .., rfl, rfl⟩
    · exact hbal.connected_same hi hpos rfl (hacc fd hfd)
        (Function.update_of_ne hfd ..)

theorem inv_addFd {s s' : Server Thread} (hi : s.Inv) {ok : Bool} {fd₀ : Int}
    {batch : List Event} (hm : s.main = .adding fd₀ batch)
    (hnew : ok = true → s.interest fd₀ = .none)
    (h : s.addFd ok fd₀ batch = .ok s') : s'.Inv := by
  have hbal := balance_addFd hm hnew h
  obtain ⟨u, -, h⟩ := bind_ok_iff.mp h
  cases h
  refine hi.loop hbal rfl
    (hi.rest_flagged fun e he => by rw [hm]; exact he) ?_ ?_ ?_
  · intro fd hpos _
    exact hbal.connected_same hi hpos rfl (by simp [hm]) rfl
  · intro fd b hlog
    cases hlog
    have hone := (hi.single fd₀).trans (Bool.toNat_le _)
    simp only [situations, handling, hm, MainLoop.current, inHand_some,
      if_true] at hone
    show s.queued fd₀ + s.running fd₀ = 0
    omega
  · intro fd b h
    cases h

theorem inv_close {s s' : Server Thread} (hi : s.Inv) {stage : CloseStage}
    {fd₀ : Int} {batch : List Event}
    (hm : s.main = .closing stage fd₀ batch)
    (h : s.closeConnection fd₀ stage = some s') :
    ({ s' with
      main := match stage.next with
        | some stage => .closing stage fd₀ batch
        | none => .dispatching batch } : Server Thread).Inv := by
  have hbal : Balance True s _ := balance_close hi hm h
  have hflag : ∀ e ∈ batch, _ :=
    hi.rest_flagged fun e he => by rw [hm]; exact he
  cases stage with
  | delFd =>
      obtain ⟨c₀, hc₀, rfl⟩ := Option.map_eq_some_iff.mp h
      exact inv_move hi hbal rfl rfl rfl (by simp [hm])
        (by simp [CloseStage.next]) (by simp [CloseStage.next]) hflag
  | close =>
      obtain ⟨-, hopen, hconn⟩ := hi.closing hm (by rw [hm]; rfl)
      obtain ⟨c₀, hc₀, rfl⟩ := Option.map_eq_some_iff.mp h
      rw [if_pos (hconn c₀ hc₀).2] at hbal ⊢
      have hshut : Function.update s.opened c₀.fd false fd₀ = false := by
        rw [(hconn c₀ hc₀).1, Function.update_self]
      refine hi.loop hbal rfl hflag ?_ ?_ ?_
      · intro fd hpos _
        by_cases hfd : fd = fd₀
        · subst hfd
          have hnone := (hbal.single hi fd).trans
            (Nat.le_of_eq (congrArg Bool.toNat hshut))
          exact absurd hpos (Nat.not_lt.mpr hnone)
        · exact hbal.connected_same hi hpos
            (Function.update_of_ne ((hconn c₀ hc₀).1 ▸ hfd) ..)
            (by simp [hm]) (Function.update_of_ne hfd ..)
      · intro fd b h
        cases h
      · intro fd b h
        cases h
        exact hshut
  | log =>
      cases h
      exact inv_move hi hbal rfl rfl rfl (by simp [hm])
        (by simp [CloseStage.next]) (by simp [CloseStage.next]) hflag

/-! ## The workers -/

variable [DecidableEq Thread]

/-- A worker that moves on without leaving its task for `_CloseConnection`,
and without making a second one. -/
theorem Inv.setWorker {sound : Prop} {s : Server Thread} (hi : s.Inv)
    {clients : Int → Option HttpConnector} {interest : Int → Registration}
    {t : Thread} {pc : Worker}
    (hbal : Balance sound s ({ s with clients, interest }.setWorker t pc))
    (hkeep : ∀ fd c, s.clients fd = some c →
      ∃ c', clients fd = some c' ∧ c.SameSocket c')
    (hpc : ∀ stage fd, pc ≠ .closing stage fd)
    (hclient : pc.client = none ∨ pc.client = (s.workers t).client) :
    ({ s with clients, interest }.setWorker t pc).Inv := by
  refine hi.worker hbal rfl rfl rfl hkeep ?_ ?_
  · intro t' stage fd
    show Function.update s.workers t pc t' ≠ _
    rw [Function.update_apply]
    split
    · exact hpc stage fd
    · exact hi.noCloser t' stage fd
  · intro fd
    have hrun := inFlight_update s.workers t pc fd
    have hle : inHand pc.client fd ≤ inHand (s.workers t).client fd := by
      rcases hclient with h | h
      · rw [h]; exact Nat.zero_le _
      · rw [h]
    simp only [queued, running, Server.setWorker]
    omega

/-- The branch of `_FunRead` that closes the connection is never taken. -/
theorem funRead_eq {c c' : HttpConnector} {arrived : List Recv}
    {last : Recv} {len : Int} {status : Bool}
    (h : c.read arrived last = .ok (c', len, status)) (fd : Int) :
    funRead fd len status = .processing fd := by
  have hstatus := HttpConnector.read_status h
  rw [funRead, if_neg]
  rintro ⟨rfl, rfl⟩
  simp at hstatus

theorem funRead_ne_closing {c c' : HttpConnector} {arrived : List Recv}
    {last : Recv} {len : Int} {status : Bool} {fd : Int}
    (h : c.read arrived last = .ok (c', len, status)) (stage : CloseStage)
    (fd' : Int) : funRead fd len status ≠ .closing stage fd' := by
  rw [funRead_eq h fd]
  intro h
  cases h

theorem Step.inv {s s' : Server Thread} {a : ServerLabel Thread}
    (hi : s.Inv) (h : Step s a s') : s'.Inv := by
  have hbal := h.balance hi
  cases h with
  | wait hm _ hd => exact inv_wait hi hm hd
  | turn hm =>
      exact inv_move hi hbal rfl rfl rfl (by simp [hm]) (by simp) (by simp)
        (by simp [MainLoop.batch])
  | acceptEnd hm _ | logged hm =>
      exact inv_move hi hbal rfl rfl rfl (by simp [hm]) (by simp) (by simp)
        (hi.rest_flagged fun e he => by rw [hm]; exact he)
  | dispatch hm hd => exact inv_dispatch hi hm hd
  | accept hm _ _ hopen => exact inv_accept hi hm hopen
  | addConnection hm _ ha => exact inv_addConnection hi hm ha
  | addFd hm hnew ha => exact inv_addFd hi hm hnew ha
  | close hm hc => exact inv_close hi hm hc
  | @take t task rest ht hq =>
      refine hi.worker hbal rfl rfl rfl (fun fd c hc => ⟨c, hc, rfl, rfl⟩)
        ?_ ?_
      · intro t' stage fd
        show Function.update s.workers t _ t' ≠ _
        rw [Function.update_apply]
        split
        · intro h
          cases h
        · exact hi.noCloser t' stage fd
      · intro fd
        have hrun := inFlight_update s.workers t
          (.running task.kind task.client) fd
        simp [queued, running, Server.setWorker, hq, ht, Worker.client,
          List.count_cons] at hrun ⊢
        omega
  | read ht hc hr =>
      refine hi.setWorker hbal
        (keep_setClient hc (HttpConnector.read_sameSocket hr))
        (funRead_ne_closing hr) (.inr ?_)
      rw [ht, funRead]
      split
      · rfl
      · rfl
  | process ht hc hp =>
      exact hi.setWorker hbal
        (keep_setClient hc (HttpConnector.process_sameSocket hp))
        (by simp) (.inr (by rw [ht]; rfl))
  | write ht hc hw =>
      refine hi.setWorker hbal
        (keep_setClient hc (HttpConnector.write_returns hw).1) ?_ ?_
      · intro stage fd
        rw [funWrite]
        split
        · simp
        · split
          · split
            · simp
            · simp
          · simp
      · rw [ht, funWrite]
        split
        · exact .inr rfl
        · split
          · split
            · exact .inr rfl
            · exact .inl rfl
          · exact .inl rfl
  | modFd ht hc _ =>
      exact hi.setWorker hbal (fun fd c hc => ⟨c, hc, rfl, rfl⟩) (by simp)
        (.inl rfl)
  | closeBy ht _ => exact absurd ht (hi.noCloser _ _ _)
  | finish ht =>
      exact hi.setWorker hbal (fun fd c hc => ⟨c, hc, rfl, rfl⟩) (by simp)
        (.inl rfl)

theorem inv_init {s : Server Thread} (h : system.init s) : s.Inv := by
  obtain ⟨-, -, hinterest, -, hmain, hqueue, hworkers⟩ := h
  have hnone : ∀ fd, s.situations fd = 0 := by
    intro fd
    have hrun : s.running fd = 0 := by
      rw [running, inFlight]
      refine population_eq_zero fun t => ?_
      rw [hworkers t, Worker.client]
      simp
    simp [situations, armed, handling, queued, hinterest, hmain, hqueue, hrun,
      MainLoop.batch, MainLoop.current, clientFds]
  refine ⟨?_, ?_, ?_, ?_, ?_, ?_⟩
  · intro fd
    rw [hnone fd]
    exact Nat.zero_le _
  · rw [hmain]
    intro e he
    cases he
  · intro fd hpos
    rw [hnone fd] at hpos
    cases hpos
  · intro t stage fd
    rw [hworkers t]
    simp
  · rw [hmain]
    intro fd batch h
    cases h
  · rw [hmain]
    intro fd batch h
    cases h

theorem inv_reachable {s : Server Thread} (hs : system.Reachable s) :
    s.Inv :=
  hs.invariant (I := Inv) (fun _ h => inv_init h)
    fun _ _ _ _ ih h => Step.inv ih h

/-! ## A server with clients -/

omit [Fintype Thread] in
/-- One more client, in a run that loses nobody. -/
theorem accept_client {s : Server Thread}
    (hs : (system.restrict Sound).Reachable s) {fd : Int}
    {batch : List Event} {c : HttpConnector} (hc : c.Fresh)
    (hm : s.main = .accepting batch) (hpos : 0 < fd) (hne : fd ≠ s.listenFd)
    (hnone : s.clients fd = none) (hopen : s.opened fd = false)
    (hreg : s.interest fd = .none) (hroom : s.userCnt < maxClients) :
    (system.restrict Sound).Reachable { s with
      clients := Function.update s.clients fd (some (c.init fd))
      userCnt := (s.userCnt + 1) % 2 ^ 16
      interest := Function.update s.interest fd (.armed false)
      opened := Function.update s.opened fd true
      main := .accepting batch } := by
  let accepted : Server Thread := { s with
    opened := Function.update s.opened fd true
    main := .accepted fd batch }
  let added : Server Thread := { accepted with
    clients := Function.update s.clients fd (some (c.init fd))
    userCnt := (s.userCnt + 1) % 2 ^ 16
    main := .adding fd batch }
  let armed : Server Thread := { added with
    interest := Function.update s.interest fd (.armed false)
    main := .logging fd batch }
  have haccept : Step s (.accept (.connected fd)) accepted :=
    .accept hm (Int.le_of_lt hpos) hne hopen
  have hadd : Step accepted (.addConnection c) added := by
    refine .addConnection rfl hc ?_
    rw [addConnection, if_neg (Nat.not_le.mpr hroom),
      check_pos (Int.le_of_lt hpos), ok_bind,
      show accepted.clients fd = none from hnone]
    rfl
  have harm : Step added (.addFd true) armed := by
    refine .addFd rfl (fun _ => hreg) ?_
    rw [addFd, check_pos hpos, ok_bind]
    rfl
  have hlogged : Step armed .logged { armed with main := .accepting batch } :=
    .logged rfl
  have h₁ := hs.next_restrict haccept trivial
  have h₂ := h₁.next_restrict hadd hroom
  have h₃ := h₂.next_restrict harm rfl
  exact h₃.next_restrict hlogged trivial

/-- `x` on the first `n` descriptors a server gets from `accept`, `d`
elsewhere. -/
def among {α : Type} (n : Nat) (x : Int → α) (d : α) (fd : Int) : α :=
  if 4 ≤ fd ∧ fd < 4 + n then x fd else d

theorem update_among {α : Type} (n : Nat) (x : Int → α) (d : α) :
    Function.update (among n x d) (4 + n) (x (4 + n))
      = among (n + 1) x d := by
  funext fd
  rw [Function.update_apply]
  split
  · next h => rw [among, if_pos (by omega), h]
  · simp only [among]
    congr 1
    rw [eq_iff_iff]
    omega

/-- Two workers with nothing to do, and `n` clients that have not sent
anything yet. -/
def crowd (n : Nat) : Server Bool where
  listenFd := 3
  clients := among n (fun fd => some (blankConnector.init fd)) none
  userCnt := n
  interest := among n (fun _ => .armed false) .none
  opened := among n (fun _ => true) false
  main := .accepting []
  queue := []
  workers _ := .idle

theorem crowd_init :
    system.init ({ crowd 0 with main := .waiting } : Server Bool) := by
  have hnone : ∀ {α : Type} (x : Int → α) (d : α) fd,
      among 0 x d fd = d := by
    intro α x d fd
    rw [among, if_neg (by omega)]
  exact ⟨hnone _ _, rfl, hnone _ _, hnone _ _, rfl, rfl, fun _ => rfl⟩

theorem crowd_start : (system.restrict Sound).Reachable (crowd 0) := by
  let e : Event := ⟨3, true, false, false, false, false⟩
  let waiting : Server Bool := { crowd 0 with main := .waiting }
  let woken : Server Bool := { crowd 0 with main := .dispatching [e] }
  have hinit : (system.restrict Sound).Reachable waiting := .start crowd_init
  have hwait : Step waiting (.wait [e]) woken := .wait rfl (by decide) rfl
  have hdispatch : Step woken .dispatch (crowd 0) := .dispatch rfl rfl
  have h₁ := hinit.next_restrict hwait trivial
  exact h₁.next_restrict hdispatch trivial

/-- The server fills up without losing anybody. -/
theorem crowd_reachable : ∀ {n : Nat}, n ≤ maxClients →
    (system.restrict Sound).Reachable (crowd n) := by
  intro n
  induction n with
  | zero => intro _; exact crowd_start
  | succ n ih =>
      intro hn
      have hnext := accept_client (ih (Nat.le_of_succ_le hn))
        (⟨_, _, _, _, _, _, rfl⟩ : blankConnector.Fresh) rfl
        (by omega : (0 : Int) < 4 + n) (show (4 + n : Int) ≠ 3 by omega)
        (by simp [crowd, among]) (by simp [crowd, among])
        (by simp [crowd, among]) hn
      have hcnt : (n + 1) % 2 ^ 16 = n + 1 := by
        rw [maxClients] at hn
        omega
      have hsame : crowd (n + 1) = { crowd n with
          clients := Function.update (crowd n).clients (4 + n)
            (some (blankConnector.init (4 + n)))
          userCnt := (n + 1) % 2 ^ 16
          interest := Function.update (crowd n).interest (4 + n)
            (.armed false)
          opened := Function.update (crowd n).opened (4 + n) true
          main := .accepting [] } := by
        simp only [crowd, ← update_among, hcnt]
      rw [hsame]
      exact hnext

end Server

end TinyWebServer
