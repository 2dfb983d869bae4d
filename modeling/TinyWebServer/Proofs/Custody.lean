import TinyWebServer.Model.Server
import TinyWebServer.Lib.Count
import TinyWebServer.Proofs.Connector

/-!
# Who has a connection

Nothing in the server says which thread may use a connector; that is decided
by where its descriptor is. `Server.situations` counts the places: armed in
epoll, among the events the main loop is working through, in a queued task, in
the hands of a worker that has not called `modFd` yet. An accepted descriptor
is worth one, and `Step.balance` is the law the whole server obeys: a step may
move a descriptor from one place to another, and it may lose one, but it makes
no second. Exclusion is one side of that law, and that nothing is left behind
is the other.
-/

namespace TinyWebServer

open Lib

/-- The connections among the reported descriptors. -/
def clientFds (listenFd : Int) (batch : List Event) : List Int :=
  (batch.map Event.fd).filter fun fd => fd ≠ listenFd

def MainLoop.batch : MainLoop → List Event
  | .waiting => []
  | .dispatching batch | .accepting batch | .accepted _ batch
  | .adding _ batch | .logging _ batch | .closing _ _ batch => batch

/-- The connection the main loop has in hand. -/
def MainLoop.current : MainLoop → Option Int
  | .accepted fd _ | .adding fd _ => some fd
  | .closing .delFd fd _ | .closing .close fd _ => some fd
  | .waiting | .dispatching _ | .accepting _ | .logging _ _
  | .closing .log _ _ => none

/-- The connection a worker has in hand. -/
def Worker.client : Worker → Option Int
  | .running _ fd | .processing fd | .rearming _ fd => some fd
  | .closing .delFd fd | .closing .close fd => some fd
  | .idle | .closing .log _ | .finishing => none

@[simp] theorem Registration.isArmed_none :
    Registration.none.isArmed = false := rfl

@[simp] theorem Registration.isArmed_armed (out : Bool) :
    (Registration.armed out).isArmed = true := rfl

/-- One if `fd` is what is in hand. -/
def inHand (hand : Option Int) (fd : Int) : Nat :=
  if hand = some fd then 1 else 0

@[simp] theorem inHand_none (fd : Int) : inHand none fd = 0 := rfl

@[simp] theorem inHand_some (fd fd' : Int) :
    inHand (some fd') fd = if fd' = fd then 1 else 0 := by
  simp [inHand]

namespace Server

variable {Thread : Type}

/-! ## The events and what they lead to -/

theorem clientFds_cons_listen {listenFd : Int} {e : Event}
    {batch : List Event} (h : e.fd = listenFd) :
    clientFds listenFd (e :: batch) = clientFds listenFd batch := by
  simp [clientFds, h]

theorem clientFds_cons {listenFd : Int} {e : Event} {batch : List Event}
    (h : e.fd ≠ listenFd) :
    clientFds listenFd (e :: batch) = e.fd :: clientFds listenFd batch := by
  simp [clientFds, h]

/-- An `epoll_wait` moves what it reports from armed to reported. -/
theorem deliver_count {listenFd : Int} : ∀ {batch : List Event}
    {interest interest' : Int → Registration},
    deliver listenFd interest batch = some interest' → ∀ fd,
    (interest' fd).isArmed.toNat + (clientFds listenFd batch).count fd
      = (interest fd).isArmed.toNat := by
  intro batch
  induction batch with
  | nil => intro interest interest' h fd; cases h; rfl
  | cons e rest ih =>
      intro interest interest' h fd
      rw [deliver] at h
      split at h
      · next hl => rw [clientFds_cons_listen hl]; exact ih h fd
      · next hl =>
          split at h
          · next out harmed =>
              split at h
              · have hrest := ih h fd
                rw [clientFds_cons hl, List.count_cons]
                by_cases he : e.fd = fd
                · subst he
                  rw [Function.update_self] at hrest
                  simp only [Registration.isArmed, Bool.toNat_false,
                    harmed, Bool.toNat_true, BEq.rfl, if_true] at hrest ⊢
                  omega
                · rw [Function.update_of_ne (Ne.symm he)] at hrest
                  simpa [he] using hrest
              · cases h
          · cases h

theorem deliver_flagged {listenFd : Int} : ∀ {batch : List Event}
    {interest interest' : Int → Registration},
    deliver listenFd interest batch = some interest' →
    ∀ e ∈ batch, e.fd ≠ listenFd →
    (e.epollin || e.epollout || e.hangup) = true := by
  intro batch
  induction batch with
  | nil => intro _ _ _ e he; cases he
  | cons e rest ih =>
      intro interest interest' h e' he' hne
      rw [deliver] at h
      split at h
      · next hl =>
          rcases List.mem_cons.mp he' with rfl | he'
          · exact absurd hl hne
          · exact ih h e' he' hne
      · split at h
        · split at h
          · next hfits =>
              rcases List.mem_cons.mp he' with rfl | he'
              · rw [Event.fits, Bool.and_eq_true] at hfits
                exact hfits.2
              · exact ih h e' he' hne
          · cases h
        · cases h

/-- All a reported event can lead to. -/
theorem dispatch_cases {s s' : Server Thread} {e : Event}
    {batch : List Event} (h : s.dispatch e batch = .ok s') :
    (e.fd = s.listenFd ∧ s' = { s with main := .accepting batch }) ∨
    (e.fd ≠ s.listenFd ∧
      (s' = { s with main := .closing .delFd e.fd batch } ∨
        (∃ kind, s' = { s.addTask kind e.fd with
          main := .dispatching batch }) ∨
        ((e.epollin || e.epollout || e.hangup) = false ∧
          s' = { s with main := .dispatching batch }))) := by
  rw [dispatch] at h
  split at h
  · next hl => cases h; exact .inl ⟨hl, rfl⟩
  next hl =>
  refine .inr ⟨hl, ?_⟩
  split at h
  · obtain ⟨u, -, h⟩ := bind_ok_iff.mp h
    cases h
    exact .inl rfl
  split at h
  · obtain ⟨u, -, h⟩ := bind_ok_iff.mp h
    cases h
    exact .inr (.inl ⟨_, rfl⟩)
  split at h
  · obtain ⟨u, -, h⟩ := bind_ok_iff.mp h
    cases h
    exact .inr (.inl ⟨_, rfl⟩)
  · cases h
    exact .inr (.inr ⟨by simp_all, rfl⟩)

theorem addConnection_cases {s s' : Server Thread} {fresh : HttpConnector}
    {fd : Int} {batch : List Event}
    (h : s.addConnection fresh fd batch = .ok s') :
    (maxClients ≤ s.userCnt ∧ s' = { s with main := .dispatching batch }) ∨
    (s.userCnt < maxClients ∧ s' =
      { s.setClient fd (((s.clients fd).getD fresh).init fd) with
        userCnt := (s.userCnt + 1) % 2 ^ 16
        main := .adding fd batch }) := by
  rw [addConnection] at h
  split at h
  · next hfull => cases h; exact .inl ⟨hfull, rfl⟩
  · next hroom =>
      obtain ⟨u, -, h⟩ := bind_ok_iff.mp h
      cases h
      exact .inr ⟨Nat.not_le.mp hroom, rfl⟩

/-! ## The places -/

def armed (s : Server Thread) (fd : Int) : Nat :=
  (s.interest fd).isArmed.toNat

def handling (s : Server Thread) (fd : Int) : Nat :=
  (clientFds s.listenFd s.main.batch).count fd + inHand s.main.current fd

def queued (s : Server Thread) (fd : Int) : Nat :=
  (s.queue.map Task.client).count fd

variable [Fintype Thread]

/-- How many workers have a connection in hand. -/
def inFlight (workers : Thread → Worker) (fd : Int) : Nat :=
  population (fun pc => pc.client = some fd) workers

def running (s : Server Thread) (fd : Int) : Nat := inFlight s.workers fd

/-- In how many situations a connection is. -/
def situations (s : Server Thread) (fd : Int) : Nat :=
  s.armed fd + s.handling fd + s.queued fd + s.running fd

/-- The steps that lose no descriptor: the user count is below its limit when
a connection has been accepted, the two `epoll_ctl` calls succeed, and no
`writev` answers zero while there is something to send. -/
def Sound (s : Server Thread) : ServerLabel Thread → Prop
  | .addConnection _ => s.userCnt < maxClients
  | .addFd ok | .modFd _ ok => ok = true
  | .write t results _ => ∀ fd c, s.workers t = .running .write fd →
      s.clients fd = some c → c.writeableSize = 0 ∨ 0 ∉ results
  | _ => True

/-- The connector under `fd` is the one `Init` set up for it. -/
def Connected (s : Server Thread) (fd : Int) : Prop :=
  ∃ c, s.clients fd = some c ∧ c.fd = fd ∧ c.status = true

/-- Among others: an open descriptor is in one place at most, any other in
none. -/
structure Inv (s : Server Thread) : Prop where
  single : ∀ fd, s.situations fd ≤ (s.opened fd).toNat
  flagged : ∀ e ∈ s.main.batch, e.fd ≠ s.listenFd →
    (e.epollin || e.epollout || e.hangup) = true
  connected : ∀ fd, 0 < s.situations fd →
    (∀ batch, s.main ≠ .accepted fd batch) → s.Connected fd
  noCloser : ∀ t stage fd, s.workers t ≠ .closing stage fd
  logging : ∀ fd batch, s.main = .logging fd batch →
    s.queued fd + s.running fd = 0
  departed : ∀ fd batch, s.main = .closing .log fd batch →
    s.opened fd = false

/-- What a step does to the places of the descriptors, against what it does to
the open ones: it never adds a place, and takes none away if it is `sound`. -/
structure Balance (sound : Prop) (s s' : Server Thread) : Prop where
  le : ∀ fd, s'.situations fd + (s.opened fd).toNat
    ≤ s.situations fd + (s'.opened fd).toNat
  eq : sound → ∀ fd, s'.situations fd + (s.opened fd).toNat
    = s.situations fd + (s'.opened fd).toNat

theorem Balance.of_eq {sound : Prop} {s s' : Server Thread}
    (h : ∀ fd, s'.situations fd + (s.opened fd).toNat
      = s.situations fd + (s'.opened fd).toNat) : Balance sound s s' :=
  ⟨fun fd => Nat.le_of_eq (h fd), fun _ => h⟩

/-- What a thread has in hand is not armed as well. -/
theorem Inv.not_armed {s : Server Thread} (hi : s.Inv) {fd : Int}
    (h : 0 < s.handling fd + s.queued fd + s.running fd) :
    (s.interest fd).isArmed = false := by
  have hone := (hi.single fd).trans (Bool.toNat_le _)
  rw [situations, armed] at hone
  exact Bool.toNat_eq_zero.mp (by omega)

theorem Inv.connector {s : Server Thread} (hi : s.Inv) {fd : Int}
    {c : HttpConnector} (hc : s.clients fd = some c)
    (hpos : 0 < s.situations fd)
    (hmain : ∀ batch, s.main ≠ .accepted fd batch) :
    c.fd = fd ∧ c.status = true := by
  obtain ⟨c', hc', hfd⟩ := hi.connected fd hpos hmain
  rw [hc] at hc'
  cases hc'
  exact hfd

/-! ## The balance of a step -/

theorem balance_wait {s : Server Thread} {batch : List Event}
    {interest : Int → Registration} {sound : Prop} (hm : s.main = .waiting)
    (hd : deliver s.listenFd s.interest batch = some interest) :
    Balance sound s { s with interest, main := .dispatching batch } := by
  refine .of_eq fun fd => ?_
  have hcount := deliver_count hd fd
  simp only [situations, armed, handling, queued, running, hm, MainLoop.batch,
    MainLoop.current, inHand_none, clientFds, List.map_nil, List.filter_nil,
    List.count_nil] at hcount ⊢
  omega

theorem balance_dispatch {s s' : Server Thread} {e : Event}
    {batch : List Event} {sound : Prop} (hi : s.Inv)
    (hm : s.main = .dispatching (e :: batch))
    (h : s.dispatch e batch = .ok s') : Balance sound s s' := by
  have hflag := hi.flagged e (by simp [hm, MainLoop.batch])
  refine .of_eq fun fd => ?_
  obtain ⟨hl, rfl⟩ | ⟨hl, rfl | ⟨kind, rfl⟩ | ⟨hnone, rfl⟩⟩ := dispatch_cases h
  · simp [situations, armed, handling, queued, running, hm, MainLoop.batch,
      MainLoop.current, clientFds_cons_listen hl]
  · simp [situations, armed, handling, queued, running, hm, MainLoop.batch,
      MainLoop.current, clientFds_cons hl, List.count_cons]
  · simp [situations, armed, handling, queued, running, hm, MainLoop.batch,
      MainLoop.current, clientFds_cons hl, List.count_cons, addTask]
    omega
  · rw [hflag hl] at hnone
    cases hnone

theorem balance_accept {s : Server Thread} {fd₀ : Int} {batch : List Event}
    {sound : Prop} (hm : s.main = .accepting batch)
    (hopen : s.opened fd₀ = false) :
    Balance sound s { s with
      opened := Function.update s.opened fd₀ true
      main := .accepted fd₀ batch } := by
  refine .of_eq fun fd => ?_
  by_cases hfd : fd₀ = fd
  · subst hfd
    simp [situations, armed, handling, queued, running, hm, hopen,
      MainLoop.batch, MainLoop.current]
    omega
  · simp [situations, armed, handling, queued, running, hm, hfd,
      Ne.symm hfd, MainLoop.batch, MainLoop.current]

theorem balance_addConnection {s s' : Server Thread} {fresh : HttpConnector}
    {fd₀ : Int} {batch : List Event} (hm : s.main = .accepted fd₀ batch)
    (h : s.addConnection fresh fd₀ batch = .ok s') :
    Balance (s.userCnt < maxClients) s s' := by
  obtain ⟨hfull, rfl⟩ | ⟨-, rfl⟩ := addConnection_cases h
  · refine ⟨fun fd => ?_, fun hs => absurd hfull (Nat.not_le.mpr hs)⟩
    simp [situations, armed, handling, queued, running, hm, MainLoop.batch,
      MainLoop.current]
  · refine .of_eq fun fd => ?_
    simp [situations, armed, handling, queued, running, hm, MainLoop.batch,
      MainLoop.current, setClient]

theorem balance_addFd {s s' : Server Thread} {ok : Bool} {fd₀ : Int}
    {batch : List Event} (hm : s.main = .adding fd₀ batch)
    (hnew : ok = true → s.interest fd₀ = .none)
    (h : s.addFd ok fd₀ batch = .ok s') : Balance (ok = true) s s' := by
  obtain ⟨u, -, h⟩ := bind_ok_iff.mp h
  cases h
  cases ok with
  | false =>
      refine ⟨fun fd => ?_, fun hs => by cases hs⟩
      simp [situations, armed, handling, queued, running, hm, MainLoop.batch,
        MainLoop.current]
  | true =>
      refine .of_eq fun fd => ?_
      by_cases hfd : fd₀ = fd
      · subst hfd
        simp [situations, armed, handling, queued, running, hm, hnew,
          MainLoop.batch, MainLoop.current]
        omega
      · simp [situations, armed, handling, queued, running, hm, hfd,
          Ne.symm hfd, MainLoop.batch, MainLoop.current]

/-- The descriptor the main loop is about to close is in no other place. -/
theorem Inv.closing {s : Server Thread} (hi : s.Inv) {stage : CloseStage}
    {fd : Int} {batch : List Event} (hm : s.main = .closing stage fd batch)
    (hcur : s.main.current = some fd) :
    (s.interest fd).isArmed = false ∧ s.opened fd = true ∧
      ∀ c, s.clients fd = some c → c.fd = fd ∧ c.status = true := by
  have hhand : 0 < s.handling fd := by simp [handling, hcur]
  have hpos : 0 < s.situations fd := by rw [situations]; omega
  refine ⟨hi.not_armed (by omega), ?_, ?_⟩
  · have hone := hi.single fd
    cases hopen : s.opened fd with
    | true => rfl
    | false => rw [hopen, Bool.toNat_false] at hone; omega
  · intro c hc
    exact hi.connector hc hpos fun b hb => by rw [hm] at hb; cases hb

theorem balance_close {s s' : Server Thread} {stage : CloseStage} {fd₀ : Int}
    {batch : List Event} {sound : Prop} (hi : s.Inv)
    (hm : s.main = .closing stage fd₀ batch)
    (h : s.closeConnection fd₀ stage = some s') :
    Balance sound s { s' with
        main := match stage.next with
          | some stage => .closing stage fd₀ batch
          | none => .dispatching batch } := by
  refine .of_eq fun fd => ?_
  cases stage with
  | delFd =>
      obtain ⟨harmed, -, hconn⟩ := hi.closing hm (by rw [hm]; rfl)
      obtain ⟨c, hc, rfl⟩ := Option.map_eq_some_iff.mp h
      by_cases hfd : fd₀ = fd
      · subst hfd
        simp [situations, armed, handling, queued, running, hm,
          (hconn c hc).1, harmed, MainLoop.batch, MainLoop.current,
          CloseStage.next]
      · simp [situations, armed, handling, queued, running, hm,
          (hconn c hc).1, Ne.symm hfd, MainLoop.batch, MainLoop.current,
          CloseStage.next]
  | close =>
      obtain ⟨harmed, hopen, hconn⟩ := hi.closing hm (by rw [hm]; rfl)
      obtain ⟨c, hc, rfl⟩ := Option.map_eq_some_iff.mp h
      rw [if_pos (hconn c hc).2]
      by_cases hfd : fd₀ = fd
      · subst hfd
        simp [situations, armed, handling, queued, running, setClient, hm,
          (hconn c hc).1, harmed, hopen, MainLoop.batch, MainLoop.current,
          CloseStage.next]
        omega
      · simp [situations, armed, handling, queued, running, setClient, hm,
          (hconn c hc).1, hfd, Ne.symm hfd, MainLoop.batch, MainLoop.current,
          CloseStage.next]
  | log =>
      cases h
      simp [situations, armed, handling, queued, running, hm,
        MainLoop.batch, MainLoop.current, CloseStage.next]

/-- What a worker has in hand is connected, and is not armed. -/
theorem Inv.held {s : Server Thread} (hi : s.Inv) {t : Thread} {fd : Int}
    {c : HttpConnector} (ht : (s.workers t).client = some fd)
    (hc : s.clients fd = some c) :
    (s.interest fd).isArmed = false ∧ c.fd = fd ∧ c.status = true := by
  have hrun : 0 < s.running fd :=
    population_pos (p := fun pc : Worker => pc.client = some fd) ht
  have hone := (hi.single fd).trans (Bool.toNat_le _)
  refine ⟨hi.not_armed (by omega), hi.connector hc ?_ ?_⟩
  · rw [situations]; omega
  · intro batch hm
    rw [situations, handling, hm, MainLoop.current, inHand_some,
      if_pos rfl] at hone
    omega

variable [DecidableEq Thread]

theorem inFlight_update (workers : Thread → Worker) (t : Thread) (pc : Worker)
    (fd : Int) :
    inFlight (Function.update workers t pc) fd +
        inHand (workers t).client fd
      = inFlight workers fd + inHand pc.client fd :=
  population_update _ workers t pc

theorem balance_take {s : Server Thread} {t : Thread} {task : Task}
    {rest : List Task} {sound : Prop} (ht : s.workers t = .idle)
    (hq : s.queue = task :: rest) :
    Balance sound s ({ s with queue := rest }.setWorker t
      (.running task.kind task.client)) := by
  refine .of_eq fun fd => ?_
  have hrun := inFlight_update s.workers t
    (.running task.kind task.client) fd
  simp [situations, armed, handling, queued, running, setWorker, hq, ht,
    Worker.client, List.count_cons] at hrun ⊢
  omega

/-- A worker goes on with the connection it has. -/
theorem balance_proceed {s : Server Thread} {t : Thread}
    {clients : Int → Option HttpConnector} {pc : Worker} {sound : Prop}
    (hpc : pc.client = (s.workers t).client) :
    Balance sound s ({ s with clients }.setWorker t pc) := by
  refine .of_eq fun fd => ?_
  have hrun := inFlight_update s.workers t pc fd
  rw [hpc] at hrun
  have hsame : inFlight (Function.update s.workers t pc) fd
      = inFlight s.workers fd := Nat.add_right_cancel hrun
  simp only [situations, armed, handling, queued, running, setWorker, hsame]

/-- A worker is done with its connection, which is armed now if the step is
sound. -/
theorem balance_release {s : Server Thread} {t : Thread} {fd₀ : Int}
    {sound : Prop} (clients : Int → Option HttpConnector)
    (interest : Int → Registration) (pc : Worker)
    (hpc : (s.workers t).client = some fd₀) (hnone : pc.client = none)
    (hother : ∀ fd, fd ≠ fd₀ → interest fd = s.interest fd)
    (hbefore : (s.interest fd₀).isArmed = false)
    (hafter : sound → (interest fd₀).isArmed = true) :
    Balance sound s ({ s with clients, interest }.setWorker t pc) := by
  have hrun : ∀ fd, inFlight (Function.update s.workers t pc) fd
      + inHand (some fd₀) fd = inFlight s.workers fd := by
    intro fd
    have h := inFlight_update s.workers t pc fd
    rwa [hpc, hnone, inHand_none, Nat.add_zero] at h
  have hrest : ∀ fd, fd ≠ fd₀ →
      ({ s with clients, interest }.setWorker t pc).situations fd
        = s.situations fd := by
    intro fd hfd
    have h := hrun fd
    rw [inHand_some, if_neg (Ne.symm hfd), Nat.add_zero] at h
    simp only [situations, armed, handling, queued, running, setWorker, h,
      hother fd hfd]
  have hself := hrun fd₀
  rw [inHand_some, if_pos rfl] at hself
  have hle := Bool.toNat_le (interest fd₀).isArmed
  refine ⟨fun fd => ?_, fun hs fd => ?_⟩
  · by_cases hfd : fd = fd₀
    · subst hfd
      simp only [situations, armed, handling, queued, running, setWorker]
      omega
    · rw [hrest fd hfd]
      exact Nat.le_refl _
  · by_cases hfd : fd = fd₀
    · subst hfd
      simp only [situations, armed, handling, queued, running, setWorker,
        hbefore, hafter hs, Bool.toNat_false, Bool.toNat_true]
      omega
    · rw [hrest fd hfd]
      rfl

/-- The law of the server: a step makes no second place for a descriptor, and
a sound one loses none. -/
theorem Step.balance {s s' : Server Thread} {a : ServerLabel Thread}
    (hi : s.Inv) (h : Step s a s') : Balance (s.Sound a) s s' := by
  cases h with
  | wait hm _ hd => exact balance_wait hm hd
  | turn hm | acceptEnd hm _ | logged hm =>
      refine .of_eq fun fd => ?_
      simp only [situations, armed, handling, queued, running, hm,
        MainLoop.batch, MainLoop.current, inHand_none]
  | dispatch hm hd => exact balance_dispatch hi hm hd
  | accept hm _ _ hopen => exact balance_accept hm hopen
  | addConnection hm _ ha => exact balance_addConnection hm ha
  | addFd hm hnew ha => exact balance_addFd hm hnew ha
  | close hm hc => exact balance_close hi hm hc
  | take ht hq => exact balance_take ht hq
  | read ht _ _ =>
      refine balance_proceed ?_
      rw [ht, funRead]
      split
      · rfl
      · rfl
  | process ht _ _ => exact balance_proceed (by rw [ht]; rfl)
  | @write t fd c c' results wouldBlock ret status ht hc hw =>
      obtain ⟨hsame, hret⟩ := HttpConnector.write_returns hw
      have hclient : (s.workers t).client = some fd := by rw [ht]; rfl
      rw [funWrite]
      split
      · exact balance_proceed (by rw [hclient]; rfl)
      next hleft =>
      have hunsound : ¬ s.Sound (.write t results wouldBlock) := by
        intro hs
        rcases hs fd c ht hc with hdone | hnz
        · exact hleft (HttpConnector.write_idle hdone hw ▸ hdone)
        · exact hret.elim hnz hleft
      have hgone : Balance (s.Sound (.write t results wouldBlock)) s
          ((s.setClient fd c').setWorker t .finishing) :=
        balance_release _ s.interest .finishing hclient rfl (fun _ _ => rfl)
          (hi.held hclient hc).1 fun hs => absurd hs hunsound
      split
      · split
        · exact balance_proceed (by rw [hclient]; rfl)
        · exact hgone
      · exact hgone
  | @modFd t out fd c ok ht hc hreg =>
      have hclient : (s.workers t).client = some fd := by rw [ht]; rfl
      obtain ⟨harmed, hfd, -⟩ := hi.held hclient hc
      refine balance_release s.clients _ .finishing hclient rfl ?_ harmed ?_
      · intro fd' hne
        split
        · rw [hfd, Function.update_of_ne hne]
        · rfl
      · intro hok
        rw [if_pos (show ok = true from hok), hfd, Function.update_self]
        rfl
  | closeBy ht _ => exact absurd ht (hi.noCloser _ _ _)
  | finish ht => exact balance_proceed (by rw [ht]; rfl)

end Server

end TinyWebServer
