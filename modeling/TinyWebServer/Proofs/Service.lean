import TinyWebServer.Lib.Exchange
import TinyWebServer.Proofs.Leftovers
import TinyWebServer.Proofs.Turns

/-!
# A client that can be answered is answered

`Conversation` says what the server never does on a connection. This is what
it can do, from any state it gets to in which it waits and has a worker to
spare: for a request that the connector has room and an answer for, there is a
run in which the client sends the request and is sent the answer, and after
which the server is as it was, listening to the client again.

Sending means reading a block that was freed. Whether that can be done depends
on the allocator, and `limit` is what it is taken to do: a freed block of up to
`limit` bytes is still mapped. Nothing is sent out of a longer one.

The run goes twice through the same places, `fetched` on the way to a worker
and `handedBack` on the way from it, once for `EPOLLIN` and once for
`EPOLLOUT`.
-/

namespace TinyWebServer

open Lib

/-- What a client can see. -/
abbrev Sight := Exchange.Event UInt8 Octet

namespace Server

open HttpConnector

variable {Thread : Type}

/-! ## What a client sees -/

/-- The response that is ready under `fd`. -/
def wire (s : Server Thread) (fd : Int) : List Octet :=
  match s.clients fd with
  | some c => c.wire
  | none => []

/-- What a `Write` under `fd` hands to `writev`. -/
def sentBy (s : Server Thread) (fd : Int) (results : List Int) : List Octet :=
  match s.clients fd with
  | some c => legible c.iov₀.len ((c.writeSent results).toOption.getD [])
  | none => []

/-- What the client behind `fd` sees of a step. -/
def see (fd : Int) (s : Server Thread) (a : ServerLabel Thread)
    (s' : Server Thread) : List Sight :=
  match a with
  | .addConnection _ => match s'.main with
      | .adding fd' _ => if fd' = fd then [.connect] else []
      | _ => []
  | .read t arrived last =>
      if s.workers t = .running .read fd then
        [.receive (received arrived last)]
      else []
  | .process t _ =>
      if s'.workers t = .rearming true fd then [.answer (s'.wire fd)] else []
  | .write t results _ =>
      if s.workers t = .running .write fd then [.send (s.sentBy fd results)]
      else []
  | .close => match s.main with
      | .closing .close fd' _ => if fd' = fd then [.disconnect] else []
      | _ => []
  | .closeBy t =>
      if s.workers t = .closing .close fd then [.disconnect] else []
  | _ => []

/-- The steps in which the read buffer has room for what arrives, a response
has fewer than `2 ^ 32` bytes, and `writev` sends no more than it is given. -/
def Regular (s : Server Thread) : ServerLabel Thread → Prop
  | .read t arrived last => ∀ fd c, s.workers t = .running .read fd →
      s.clients fd = some c →
      (received arrived last).length ≤ c.readBuffer.writeableSize
  | .process t w => ∀ fd c c', s.workers t = .processing fd →
      s.clients fd = some c → c.process w = .ok (c', true) →
      c'.remaining < 2 ^ 32
  | .write t results _ => ∀ fd c, s.workers t = .running .write fd →
      s.clients fd = some c → c.Within results
  | _ => True

/-- A step in a world that is `ok`. -/
def InWorld (ok : World → Prop) : ServerLabel Thread → Prop
  | .process _ w => ok w
  | _ => True

/-- The regular steps in such a world. -/
def RegularIn (ok : World → Prop) (s : Server Thread)
    (a : ServerLabel Thread) : Prop :=
  s.Regular a ∧ InWorld ok a

theorem regularIn_true :
    RegularIn (fun _ => True) = (Regular : Server Thread → _ → Prop) := by
  funext s a
  cases a <;> simp [RegularIn, InWorld]

/-- The steps in which nothing is sent out of a freed block of more than `limit`
bytes. -/
def Mapped (s : Server Thread) (limit : Nat) : ServerLabel Thread → Prop
  | .write t results _ => ∀ fd c sent, s.workers t = .running .write fd →
      s.clients fd = some c → c.writeSent results = .ok sent →
      limit < c.fileBlock.length → sent.length ≤ c.iov₀.len
  | _ => True

/-- The regular steps in a world that is `ok` and with freed blocks of up to
`limit` bytes still mapped, in which no descriptor is lost either. -/
def Serving (ok : World → Prop) (limit : Nat) (s : Server Thread)
    (a : ServerLabel Thread) : Prop :=
  s.Regular a ∧ InWorld ok a ∧ s.Mapped limit a ∧ s.Sound a

/-! ## What is open, armed and registered -/

theorem closeConnection_rest {s s' : Server Thread} {fd₀ : Int}
    {stage : CloseStage} (h : s.closeConnection fd₀ stage = some s') :
    s'.workers = s.workers ∧ s'.queue = s.queue ∧
      ∀ fd, s'.interest fd = .armed false → s.interest fd = .armed false := by
  have hnone : ∀ c : HttpConnector, ∀ fd,
      Function.update s.interest c.fd .none fd = .armed false →
      s.interest fd = .armed false := by
    intro c fd harmed
    rw [Function.update_apply] at harmed
    split at harmed
    · cases harmed
    · exact harmed
  cases stage with
  | delFd =>
      obtain ⟨c, -, rfl⟩ := Option.map_eq_some_iff.mp h
      exact ⟨rfl, rfl, hnone c⟩
  | close =>
      obtain ⟨c, -, rfl⟩ := Option.map_eq_some_iff.mp h
      split
      · exact ⟨rfl, rfl, hnone c⟩
      · exact ⟨rfl, rfl, fun _ h => h⟩
  | log => cases h; exact ⟨rfl, rfl, fun _ h => h⟩

theorem closeConnection_opened {s s' : Server Thread} {fd₀ fd : Int}
    {stage : CloseStage} (h : s.closeConnection fd₀ stage = some s')
    (hfd : s.opened fd = false) : s'.opened fd = false := by
  cases stage with
  | delFd =>
      obtain ⟨c, -, rfl⟩ := Option.map_eq_some_iff.mp h
      exact hfd
  | close =>
      obtain ⟨c, -, rfl⟩ := Option.map_eq_some_iff.mp h
      split
      · show Function.update s.opened c.fd false fd = false
        rw [Function.update_apply, hfd, ite_self]
      · exact hfd
  | log => cases h; exact hfd

variable [DecidableEq Thread]

/-- The listening socket is never handed out by `accept`. -/
theorem listening_not_open {s : Server Thread} (hs : system.Reachable s) :
    s.opened s.listenFd = false := by
  refine hs.invariant (I := fun s : Server Thread =>
    s.opened s.listenFd = false) ?_ ?_
  · rintro s ⟨-, -, -, hopened, -⟩
    exact hopened _
  intro s a s' _ ih h
  cases h with
  | wait | turn | acceptEnd | logged | take | read | process | write | modFd
  | finish => exact ih
  | dispatch _ hd =>
      obtain ⟨-, rfl⟩ | ⟨-, rfl | ⟨kind, rfl⟩ | ⟨-, rfl⟩⟩ := dispatch_cases hd
      · exact ih
      · exact ih
      · exact ih
      · exact ih
  | accept _ _ hne _ =>
      exact (Function.update_of_ne (Ne.symm hne) ..).trans ih
  | addConnection _ _ ha =>
      obtain ⟨-, rfl⟩ | ⟨-, rfl⟩ := addConnection_cases ha
      · exact ih
      · exact ih
  | addFd _ _ ha =>
      obtain ⟨u, -, ha⟩ := bind_ok_iff.mp ha
      cases ha
      exact ih
  | close _ hcl | closeBy _ hcl =>
      have hopened := closeConnection_opened hcl ih
      rwa [← (closeConnection_loop hcl).2] at hopened

variable [Fintype Thread]

omit [DecidableEq Thread] in
theorem Inv.one_worker {s : Server Thread} (hi : s.Inv) {t t' : Thread}
    {fd : Int} (h : (s.workers t).touched = some fd)
    (h' : (s.workers t').touched = some fd) : t = t' := by
  have hsame : Actor.worker t = Actor.worker t' :=
    hi.one_user (show s.Touches (.worker t) fd from h) h'
  cases hsame
  rfl

/-- A descriptor that is armed is a connection. -/
theorem armed_connected {s : Server Thread} (hs : system.Reachable s)
    {fd : Int} {out : Bool} (harmed : s.interest fd = .armed out) :
    fd ≠ s.listenFd ∧ s.Connected fd := by
  have hi := inv_reachable hs
  have hpos : s.armed fd = 1 := by rw [armed, harmed]; rfl
  have hone := hi.single fd
  rw [situations, hpos] at hone
  refine ⟨?_, hi.connected fd (by rw [situations]; omega) ?_⟩
  · rintro rfl
    rw [listening_not_open hs, Bool.toNat_false] at hone
    omega
  · intro batch hm
    have hle := Bool.toNat_le (s.opened fd)
    rw [handling, hm, MainLoop.current, inHand_some, if_pos rfl] at hone
    omega

omit [DecidableEq Thread] in
theorem Inv.opened_of_situations {s : Server Thread} (hi : s.Inv) {fd : Int}
    (h : 0 < s.situations fd) : s.opened fd = true := by
  have hle := hi.single fd
  cases hopen : s.opened fd with
  | true => rfl
  | false => rw [hopen, Bool.toNat_false] at hle; omega

omit [DecidableEq Thread] [Fintype Thread] in
theorem deliver_none {listenFd fd : Int} : ∀ {batch : List Event}
    {interest interest' : Int → Registration},
    deliver listenFd interest batch = some interest' →
    interest fd = .none → interest' fd = .none := by
  intro batch
  induction batch with
  | nil => intro interest interest' h hnone; cases h; exact hnone
  | cons e rest ih =>
      intro interest interest' h hnone
      rw [deliver] at h
      split at h
      · exact ih h hnone
      · split at h
        · next out hout =>
            have hne : fd ≠ e.fd := by
              rintro rfl
              rw [hnone] at hout
              cases hout
            split at h
            · refine ih h ?_
              rwa [Function.update_of_ne hne]
            · cases h
        · cases h

omit [DecidableEq Thread] [Fintype Thread] in
theorem closeConnection_unregistered {s s' : Server Thread} {fd₀ : Int}
    {stage : CloseStage} (h : s.closeConnection fd₀ stage = some s')
    (hs : ∀ fd, s.opened fd = false → s.interest fd = .none) :
    ∀ fd, s'.opened fd = false → s'.interest fd = .none := by
  cases stage with
  | delFd =>
      obtain ⟨c, -, rfl⟩ := Option.map_eq_some_iff.mp h
      intro fd hfd
      simp only [Function.update_apply]
      split
      · rfl
      · exact hs fd hfd
  | close =>
      obtain ⟨c, -, rfl⟩ := Option.map_eq_some_iff.mp h
      split
      · intro fd hfd
        simp only [Function.update_apply] at hfd ⊢
        split
        · rfl
        · next hne =>
            rw [if_neg hne] at hfd
            exact hs fd hfd
      · exact hs
  | log => cases h; exact hs

/-- Epoll knows no descriptor that is not open. -/
theorem closed_unregistered {s : Server Thread} (hs : system.Reachable s) :
    ∀ fd, s.opened fd = false → s.interest fd = .none := by
  refine hs.invariant (I := fun s : Server Thread =>
    ∀ fd, s.opened fd = false → s.interest fd = .none) ?_ ?_
  · intro s hinit fd _
    exact hinit.2.2.1 fd
  intro s a s' hs ih h
  have hi := inv_reachable hs
  cases h with
  | turn | acceptEnd | logged | take | read | process | write | finish =>
      exact ih
  | wait _ _ hd => exact fun fd hfd => deliver_none hd (ih fd hfd)
  | dispatch _ hd =>
      obtain ⟨-, rfl⟩ | ⟨-, rfl | ⟨kind, rfl⟩ | ⟨-, rfl⟩⟩ := dispatch_cases hd
      · exact ih
      · exact ih
      · exact ih
      · exact ih
  | @accept fd₀ batch _ _ _ _ =>
      intro fd hfd
      simp only [Function.update_apply] at hfd
      split at hfd
      · cases hfd
      · exact ih fd hfd
  | addConnection _ _ ha =>
      obtain ⟨-, rfl⟩ | ⟨-, rfl⟩ := addConnection_cases ha
      · exact ih
      · exact ih
  | @addFd s' ok fd₀ batch hm _ ha =>
      obtain ⟨u, -, ha⟩ := bind_ok_iff.mp ha
      cases ha
      intro fd hfd
      have hopen : s.opened fd₀ = true := hi.opened_of_situations (by
        rw [situations, handling, hm, MainLoop.current, inHand_some,
          if_pos rfl]
        omega)
      simp only [] at hfd ⊢
      split
      · rw [Function.update_of_ne, ih fd hfd]
        rintro rfl
        rw [hfd] at hopen
        cases hopen
      · exact ih fd hfd
  | close _ hcl | closeBy _ hcl =>
      have hkept := closeConnection_unregistered hcl ih
      exact hkept
  | @modFd t out fd₀ c ok ht hc hreg =>
      intro fd hfd
      simp only [setWorker] at hfd ⊢
      split
      · next hok =>
          rw [Function.update_of_ne, ih fd hfd]
          rintro rfl
          exact hreg hok (ih _ hfd)
      · exact ih fd hfd

/-! ## From the socket to a worker and back -/

/-- The task an event leads to. -/
def taskKind (out : Bool) : TaskKind := if out then .write else .read

/-- The event that reports a connection ready for `out`. -/
def readiness (fd : Int) (out : Bool) : Event :=
  ⟨fd, !out, out, false, false, false⟩

theorem deliver_readiness {listenFd : Int} {interest : Int → Registration}
    {fd : Int} {out : Bool} (hlisten : fd ≠ listenFd)
    (harmed : interest fd = .armed out) :
    deliver listenFd interest [readiness fd out]
      = some (Function.update interest fd .disarmed) := by
  have hfits : (readiness fd out).fits out = true := by cases out <;> rfl
  rw [deliver, show (readiness fd out).fd = fd from rfl, if_neg hlisten,
    harmed]
  simp only [hfits, if_true]
  rfl

omit [DecidableEq Thread] [Fintype Thread] in
theorem dispatch_readiness {s : Server Thread} {fd : Int} {out : Bool}
    (hlisten : fd ≠ s.listenFd) (hsome : (s.clients fd).isSome = true) :
    s.dispatch (readiness fd out) []
      = .ok { s.addTask (taskKind out) fd with main := .dispatching [] } := by
  rw [dispatch, if_neg (show (readiness fd out).fd ≠ s.listenFd from hlisten),
    if_neg (by simp [Event.hangup, readiness])]
  cases out with
  | false =>
      rw [if_pos (by rfl), check_pos (by exact hsome)]
      rfl
  | true =>
      rw [if_neg (by simp [readiness]), if_pos (by rfl),
        check_pos (by exact hsome)]
      rfl

omit [DecidableEq Thread] [Fintype Thread] in
/-- A head ends in a CRLF, so it is never empty. -/
theorem answer_head {w : World} {reponse : HttpResponse}
    {request : HttpRequest} {a : Answer}
    (h : answer w reponse request = .ok a) : a.head ≠ [] := by
  obtain ⟨⟨reponse', request'⟩, -, h⟩ := bind_ok_iff.mp h
  obtain ⟨content, -, h⟩ := bind_ok_iff.mp h
  cases h
  intro hnone
  cases (List.append_eq_nil_iff.mp hnone).2

omit [DecidableEq Thread] [Fintype Thread] in
/-- What one call delivers, with nothing after it. -/
theorem received_once {request : Bytes} (hsome : request ≠ []) :
    received [⟨zeroSpill, some request⟩] ⟨zeroSpill, none⟩ = request := by
  have hbytes : Recv.bytes ⟨zeroSpill, some request⟩ = request := rfl
  rw [received, hbytes, if_neg hsome]
  exact List.append_nil _

/-- The runs of that kind from some states on, seen by the client behind
`fd`. -/
abbrev seenBy (start : Server Thread → Prop) (ok : World → Prop) (limit : Nat)
    (fd : Int) :
    TransitionSystem (Server Thread × List Sight) (ServerLabel Thread) :=
  ((system.startIn start).restrict (Serving ok limit)).observed (see fd)

variable {start : Server Thread → Prop} {ok : World → Prop} {limit : Nat}

omit [Fintype Thread] in
/-- From `epoll_wait` to a client that was waiting to be accepted. -/
theorem accepted {s : Server Thread} {fd : Int} {seen : List Sight}
    (hs : (seenBy start ok limit fd).Reachable (s, seen))
    (hm : s.main = .waiting) (hpos : 0 < fd) (hne : fd ≠ s.listenFd)
    (hopen : s.opened fd = false) :
    (seenBy start ok limit fd).Reachable ({ s with
      opened := Function.update s.opened fd true
      main := .accepted fd [] }, seen) := by
  let knock : Event := ⟨s.listenFd, true, false, false, false, false⟩
  have hwait : Step s (.wait [knock])
      { s with main := .dispatching [knock] } :=
    .wait hm (by simp [maxEvent]) (if_pos rfl)
  have hdispatch : Step { s with main := .dispatching [knock] } .dispatch
      { s with main := .accepting [] } := .dispatch rfl (if_pos rfl)
  have haccept : Step { s with main := .accepting [] }
      (.accept (.connected fd)) { s with
        opened := Function.update s.opened fd true
        main := .accepted fd [] } :=
    .accept rfl (Int.le_of_lt hpos) hne hopen
  have hfree : True ∧ True ∧ True ∧ True :=
    ⟨trivial, trivial, trivial, trivial⟩
  exact ((hs.next_unseen hwait hfree rfl).next_unseen hdispatch
    hfree rfl).next_unseen haccept hfree rfl

section

variable (hstart : ∀ s, start s → system.Reachable s)

include hstart

omit [Fintype Thread] in
theorem reachable_of_seenBy {fd : Int} {s : Server Thread} {seen : List Sight}
    (hs : (seenBy start ok limit fd).Reachable (s, seen)) :
    system.Reachable s :=
  hs.of_observed.of_restrict.of_startIn hstart

/-- From `epoll_wait` to a worker with nothing to do. -/
theorem fetched (out : Bool) {s : Server Thread} {fd : Int}
    {seen : List Sight}
    (hs : (seenBy start ok limit fd).Reachable (s, seen))
    (hm : s.main = .waiting)
    (hq : s.queue = []) {t : Thread} (ht : s.workers t = .idle)
    (harmed : s.interest fd = .armed out) :
    (seenBy start ok limit fd).Reachable
      ({ s with interest := Function.update s.interest fd .disarmed }.setWorker
        t (.running (taskKind out) fd), seen) := by
  obtain ⟨hlisten, c, hc, -⟩ :=
    armed_connected (reachable_of_seenBy hstart hs) harmed
  let woken : Server Thread := { s with
    interest := Function.update s.interest fd .disarmed
    main := .dispatching [readiness fd out] }
  let queued : Server Thread := { woken.addTask (taskKind out) fd with
    main := .dispatching [] }
  let waiting : Server Thread := { queued with main := .waiting }
  have hwait : Step s (.wait [readiness fd out]) woken :=
    .wait hm (by simp [maxEvent]) (deliver_readiness hlisten harmed)
  have hdispatch : Step woken .dispatch queued :=
    .dispatch rfl (dispatch_readiness hlisten
      (by show (s.clients fd).isSome = true; rw [hc]; rfl))
  have hturn : Step queued .turn waiting := .turn rfl
  have hqueue : waiting.queue = ⟨taskKind out, fd⟩ :: [] := by
    show s.queue ++ [_] = _
    rw [hq, List.nil_append]
  have htake := Step.take (s := waiting) (t := t) ht hqueue
  -- Nothing is asked of any of these steps.
  have hfree : True ∧ True ∧ True ∧ True :=
    ⟨trivial, trivial, trivial, trivial⟩
  have hrun := (((hs.next_unseen hwait hfree rfl).next_unseen hdispatch hfree
    rfl).next_unseen hturn hfree rfl).next_unseen htake hfree rfl
  have hsame : { s with interest := Function.update s.interest fd .disarmed }
      = ({ waiting with queue := [] } : Server Thread) := by
    simp only [waiting, queued, woken, addTask, ← hm, ← hq]
  rw [hsame]
  exact hrun

/-- From a worker that has made up its mind back to the socket. -/
theorem handedBack (out : Bool) {s : Server Thread} {fd : Int}
    {seen : List Sight}
    (hs : (seenBy start ok limit fd).Reachable (s, seen)) {t : Thread}
    (ht : s.workers t = .rearming out fd) (hreg : s.interest fd = .disarmed) :
    (seenBy start ok limit fd).Reachable ({ s with
      interest := Function.update s.interest fd (.armed out)
      workers := Function.update s.workers t .idle }, seen) := by
  have hreach : system.Reachable s := reachable_of_seenBy hstart hs
  have hi := inv_reachable hreach
  have hclient : (s.workers t).client = some fd := by rw [ht]; rfl
  have hrun : 0 < s.running fd :=
    population_pos (p := fun pc : Worker => pc.client = some fd) hclient
  obtain ⟨c, hc, hfd, -⟩ : s.Connected fd := by
    refine hi.connected fd (by rw [situations]; omega) fun batch hm => ?_
    have hnone : s.queued fd + s.running fd = 0 :=
      hi.main_alone (by rw [hm]; rfl)
    omega
  have hmod : Step s (.modFd t true) _ := .modFd ht hc
    (fun _ => by rw [hfd, hreg]; exact Registration.noConfusion)
  have hnext := hs.next_unseen hmod ⟨trivial, trivial, trivial, rfl⟩ rfl
  have hfinish := Step.finish (t := t)
    (s := { s with interest := if true then
        Function.update s.interest c.fd (.armed out) else s.interest
      }.setWorker t .finishing) (Function.update_self ..)
  have hlast := hnext.next_unseen hfinish
    ⟨trivial, trivial, trivial, trivial⟩ rfl
  simp only [setWorker, Function.update_idem, if_true, hfd] at hlast
  exact hlast

/-! ## A new client -/

/-- From `epoll_wait` back to it, with one more client. -/
theorem welcomed {s : Server Thread} {fd : Int}
    {seen : List Sight}
    (hs : (seenBy start ok limit fd).Reachable (s, seen))
    (hm : s.main = .waiting)
    (hroom : s.userCnt < maxClients) (hpos : 0 < fd) (hne : fd ≠ s.listenFd)
    (hopen : s.opened fd = false) {fresh : HttpConnector}
    (hfresh : fresh.Fresh) :
    (seenBy start ok limit fd).Reachable ({ s with
      clients := Function.update s.clients fd
        (some (((s.clients fd).getD fresh).init fd))
      userCnt := (s.userCnt + 1) % 2 ^ 16
      interest := Function.update s.interest fd (.armed false)
      opened := Function.update s.opened fd true }, seen ++ [.connect]) := by
  have hreg := closed_unregistered (reachable_of_seenBy hstart hs) fd hopen
  let taken : Server Thread := { s with
    opened := Function.update s.opened fd true
    main := .accepted fd [] }
  let added : Server Thread := { taken with
    clients := Function.update s.clients fd
      (some (((s.clients fd).getD fresh).init fd))
    userCnt := (s.userCnt + 1) % 2 ^ 16
    main := .adding fd [] }
  let armed : Server Thread := { added with
    interest := Function.update s.interest fd (.armed false)
    main := .logging fd [] }
  let done : Server Thread := { armed with main := .dispatching [] }
  have hadd : Step taken (.addConnection fresh) added := by
    refine .addConnection rfl hfresh ?_
    rw [addConnection, if_neg (Nat.not_le.mpr hroom),
      check_pos (Int.le_of_lt hpos), ok_bind]
    rfl
  have harm : Step added (.addFd true) armed := by
    refine .addFd rfl (fun _ => hreg) ?_
    rw [addFd, check_pos hpos, ok_bind]
    rfl
  have hlogged : Step armed .logged { armed with main := .accepting [] } :=
    .logged rfl
  have hend : Step { armed with main := .accepting [] } (.accept .wouldBlock)
      done := .acceptEnd rfl (by simp)
  have hturn : Step done .turn { done with main := .waiting } := .turn rfl
  have hfree : True ∧ True ∧ True ∧ True :=
    ⟨trivial, trivial, trivial, trivial⟩
  have hseen := (accepted hs hm hpos hne hopen).next_observed hadd
    ⟨trivial, trivial, trivial, hroom⟩
  have hin := hseen.next_unseen harm ⟨trivial, trivial, trivial, rfl⟩ rfl
  have hback := ((hin.next_unseen hlogged hfree rfl).next_unseen hend hfree
    rfl).next_unseen hturn hfree rfl
  rw [see] at hback
  simp only [added, if_true] at hback
  have hsame : ({ armed with main := .waiting } : Server Thread)
      = { armed with main := s.main } := by rw [hm]
  exact hsame ▸ hback

/-! ## One request and its answer -/

/-- `_FunRead` on a request that can be answered. -/
theorem request_answered {s : Server Thread} {fd : Int}
    {seen : List Sight}
    (hs : (seenBy start ok limit fd).Reachable (s, seen)) {t : Thread}
    (ht : s.workers t = .running .read fd) {c : HttpConnector}
    (hc : s.clients fd = some c) {request : Bytes} (hsome : request ≠ [])
    (hfit : request.length ≤ c.readBuffer.writeableSize) {w : World}
    (hok : ok w) {a : Answer}
    (ha : respond w c.request c.reponse request = .ok a)
    (hsmall : a.wire.length < 2 ^ 32) :
    ∃ c', Carries c' a ∧ c'.Owes a.wire ∧
      c'.readBuffer.writeableSize = c.readBuffer.buffer.length ∧
      (seenBy start ok limit fd).Reachable
        ((s.setClient fd c').setWorker t (.rearming true fd),
          seen ++ [.receive request, .answer a.wire]) := by
  have hreach : system.Reachable s := reachable_of_seenBy hstart hs
  have hinv := inv_history (clients_reachable hreach fd c hc)
  have hempty : c.readBuffer.readable = [] := by
    by_contra hne
    obtain ⟨t', ht'⟩ := (tidy_reachable hreach).drained fd c hc hne
    have hsame : t = t' := (inv_reachable hreach).one_worker
      (show (s.workers t).touched = some fd by rw [ht]; rfl)
      (by rw [ht']; rfl)
    rw [← hsame, ht] at ht'
    cases ht'
  obtain ⟨b, hread, hb, hbytes, hsize⟩ := read_pieces hinv zeroSpill
    [(zeroSpill, request)] (by simpa using hsome) (by simpa using hfit)
  rw [hempty] at hbytes
  have hgot : b.readable = request := by simpa using hbytes
  let c₁ : HttpConnector := { c with readBuffer := b }
  let s₁ := (s.setClient fd c₁).setWorker t (.processing fd)
  have hstep₁ : Step s (.read t [⟨zeroSpill, some request⟩]
      ⟨zeroSpill, none⟩) s₁ := .read ht hc hread
  have hok₁ : Regular s (.read t [⟨zeroSpill, some request⟩]
      ⟨zeroSpill, none⟩) := by
    intro fd' c' ht' hc'
    rw [ht] at ht'
    cases ht'
    rw [hc] at hc'
    cases hc'
    rwa [received_once hsome]
  have hseen₁ := hs.next_observed hstep₁ ⟨hok₁, trivial, trivial, trivial⟩
  rw [see, if_pos ht, received_once hsome] at hseen₁
  have ht₁ : s₁.workers t = .processing fd := Function.update_self ..
  have hc₁ : s₁.clients fd = some c₁ := Function.update_self ..
  obtain ⟨c', hp, hcarries, hroom⟩ := process_ok (c := c₁) ⟨hb, hinv.write⟩
    (by rw [hgot]; exact hsome) (by rw [hgot]; exact ha)
  have hremaining : c'.remaining = a.wire.length := by
    rw [remaining, hcarries.headLen, hcarries.fileLen, length_wire]
  have hstep₂ := Step.process ht₁ hc₁ hp
  have hok₂ : Regular s₁ (.process t w) := by
    intro fd' c'' c''' ht' hc'' hp'
    rw [ht₁] at ht'
    cases ht'
    rw [hc₁] at hc''
    cases hc''
    rw [hp] at hp'
    cases hp'
    omega
  have hseen₂ := hseen₁.next_observed hstep₂ ⟨hok₂, hok, trivial, trivial⟩
  have hready : ((s₁.setClient fd c').setWorker t (.rearming true fd)).workers
      t = .rearming true fd := Function.update_self ..
  have hclient : ((s₁.setClient fd c').setWorker t
      (.rearming true fd)).clients fd = some c' := Function.update_self ..
  rw [see, if_pos hready, wire, hclient] at hseen₂
  refine ⟨c', hcarries, ?_, hroom.trans hsize, ?_⟩
  · rw [← hcarries.wire]
    exact Owes.ready (c := c₁) ⟨hb, hinv.write⟩ hp (by omega)
  · simp only [s₁, setClient, setWorker, Function.update_idem, hcarries.wire,
      List.append_assoc, List.singleton_append] at hseen₂
    exact hseen₂

omit [Fintype Thread] in
/-- `_FunWrite` when the socket takes everything at once. -/
theorem reply_sent {s : Server Thread} {fd : Int}
    {seen : List Sight}
    (hs : (seenBy start ok limit fd).Reachable (s, seen)) {t : Thread}
    (ht : s.workers t = .running .write fd) {c : HttpConnector}
    (hc : s.clients fd = some c) (hempty : c.readBuffer.readable = [])
    {out : List Octet} (hsome : out ≠ []) (howes : c.Owes out)
    (hblock : c.fileBlock.length ≤ limit) {w : World} (hok : ok w) :
    ∃ c', SameRest c c' ∧ (seenBy start ok limit fd).Reachable
      ((s.setClient fd c').setWorker t (.rearming false fd),
        seen ++ [.send out]) := by
  have hreach : system.Reachable s := reachable_of_seenBy hstart hs
  have hinv := inv_history (clients_reachable hreach fd c hc)
  have hlen := howes.remaining
  have hpos : 0 < out.length := List.length_pos_iff.mpr hsome
  obtain ⟨c', left, hconsume, hleft, hpassed, -, hout⟩ := howes.consume hsome
    (by omega : out.length ≤ c.remaining)
  have hnone : left = [] := by
    have hsplit := congrArg List.length hout
    rw [List.length_append, length_legible, hpassed] at hsplit
    exact List.length_eq_zero_iff.mp (by omega)
  have hzero : c'.writeableSize = 0 := hleft.done_iff.mpr hnone
  have hwrite : c.write true [(out.length : Int)]
      = .ok (some (c', out.length, true)) := by
    rw [write, if_neg (by omega), if_neg (fun h => hsome (howes.done_iff.mp h)),
      hconsume, ok_bind, if_pos hzero]
    rfl
  let s₁ := (s.setClient fd c').setWorker t (.processing fd)
  have hnext : funWrite fd c' out.length false = .processing fd := if_pos hzero
  have hstep₁ : Step s (.write t [(out.length : Int)] false) s₁ := by
    have h : Step s (.write t [(out.length : Int)] false) _ :=
      .write ht hc hwrite
    rwa [hnext] at h
  have hok₁ : Regular s (.write t [(out.length : Int)] false) := by
    intro fd' c'' ht' hc''
    rw [ht] at ht'
    cases ht'
    rw [hc] at hc''
    cases hc''
    exact ⟨by omega, by omega, fun _ _ => trivial⟩
  have hmapped : s.Mapped limit (.write t [(out.length : Int)] false) := by
    intro fd' c'' sent ht' hc'' _ hlong
    rw [ht] at ht'
    cases ht'
    rw [hc] at hc''
    cases hc''
    omega
  have hsound : s.Sound (.write t [(out.length : Int)] false) := by
    intro fd' c'' _ _
    refine .inr fun hzero => ?_
    have hlen := List.mem_singleton.mp hzero
    omega
  obtain ⟨sent, left', hsent, hsplit, hleft'⟩ := howes.write
    (hok₁ fd c ht hc) hwrite
  have hall : legible c.iov₀.len sent = out := by
    rw [hsplit, hleft'.done_iff.mp hzero, List.append_nil]
  have hseen₁ := hs.next_observed hstep₁ ⟨hok₁, trivial, hmapped, hsound⟩
  rw [see, if_pos ht, sentBy, hc] at hseen₁
  simp only [hsent, hall, Except.toOption, Option.getD_some] at hseen₁
  have ht₁ : s₁.workers t = .processing fd := Function.update_self ..
  have hc₁ : s₁.clients fd = some c' := Function.update_self ..
  have hrest := write_sameRest hwrite
  have hidle : c'.readBuffer.readableSize = 0 := by
    rw [hrest.readBuffer, ← hinv.read.length_readable, hempty]
    rfl
  have hstep₂ := Step.process ht₁ hc₁ (process_idle w hidle)
  have hok₂ : Regular s₁ (.process t w) := by
    intro fd' c'' c''' ht' hc'' hp'
    rw [ht₁] at ht'
    cases ht'
    rw [hc₁] at hc''
    cases hc''
    rw [process_idle w hidle] at hp'
    cases hp'
  have hpc : ((s₁.setClient fd c').setWorker t (.rearming false fd)).workers
      t = .rearming false fd := Function.update_self ..
  have hseen₂ := hseen₁.next_unseen hstep₂ ⟨hok₂, hok, trivial, trivial⟩
    (by rw [see, hpc, if_neg (by simp)])
  simp only [s₁, setClient, setWorker, Function.update_idem] at hseen₂
  exact ⟨c', hrest, hseen₂⟩

/-- From `epoll_wait` back to it, with one request answered and the answer not
sent. -/
theorem asked {s : Server Thread} {fd : Int} {seen : List Sight}
    (hs : (seenBy start ok limit fd).Reachable (s, seen))
    (hm : s.main = .waiting) (hq : s.queue = []) {t : Thread}
    (ht : s.workers t = .idle) (harmed : s.interest fd = .armed false)
    {c : HttpConnector} (hc : s.clients fd = some c) {request : Bytes}
    (hsome : request ≠ []) (hfit : request.length ≤ c.readBuffer.writeableSize)
    {w : World} (hok : ok w) {a : Answer}
    (ha : respond w c.request c.reponse request = .ok a)
    (hsmall : a.wire.length < 2 ^ 32) :
    ∃ c', Carries c' a ∧ c'.Owes a.wire ∧ a.wire ≠ [] ∧
      c'.readBuffer.writeableSize = c.readBuffer.buffer.length ∧
      (seenBy start ok limit fd).Reachable
        ({ s.setClient fd c' with
          interest := Function.update s.interest fd (.armed true) },
        seen ++ [.receive request, .answer a.wire]) := by
  have hfetched := fetched hstart false hs hm hq ht harmed
  let s₁ : Server Thread := { s with
    interest := Function.update s.interest fd .disarmed
    }.setWorker t (.running .read fd)
  have ht₁ : s₁.workers t = .running .read fd := Function.update_self ..
  obtain ⟨c₁, hcarries, howes, hroom, hanswered⟩ :=
    request_answered hstart (s := s₁) hfetched ht₁ hc hsome hfit hok ha hsmall
  obtain ⟨r, -, hr⟩ := bind_ok_iff.mp ha
  have hne : a.wire ≠ [] := fun hnone =>
    answer_head hr (List.append_eq_nil_iff.mp (legible_eq_nil_iff.mp hnone)).1
  have hhanded := handedBack hstart true hanswered
    (Function.update_self ..) (Function.update_self ..)
  refine ⟨c₁, hcarries, howes, hne, hroom, ?_⟩
  have hworkers : Function.update s.workers t .idle = s.workers := by
    rw [← ht, Function.update_eq_self]
  simp only [s₁, setClient, setWorker, Function.update_idem, hworkers]
    at hhanded
  exact hhanded

/-- From `epoll_wait` back to it, with one request served. -/
theorem served {s : Server Thread} {fd : Int} {seen : List Sight}
    (hs : (seenBy start ok limit fd).Reachable (s, seen))
    (hm : s.main = .waiting) (hq : s.queue = []) {t : Thread}
    (ht : s.workers t = .idle) (harmed : s.interest fd = .armed false)
    {c : HttpConnector} (hc : s.clients fd = some c) {request : Bytes}
    (hsome : request ≠ []) (hfit : request.length ≤ c.readBuffer.writeableSize)
    {w : World} (hok : ok w) {a : Answer}
    (ha : respond w c.request c.reponse request = .ok a)
    (hsmall : a.wire.length < 2 ^ 32) (hmapped : a.content.length ≤ limit) :
    ∃ c', c'.readBuffer.writeableSize = c.readBuffer.buffer.length ∧
      c'.request = a.request ∧ c'.reponse = a.reponse ∧
      (seenBy start ok limit fd).Reachable (s.setClient fd c', seen ++
        [.receive request, .answer a.wire, .send a.wire]) := by
  obtain ⟨c₁, hcarries, howes, hne, hroom, hasked⟩ :=
    asked hstart hs hm hq ht harmed hc hsome hfit hok ha hsmall
  have hfetched := fetched hstart true hasked hm hq ht
    (Function.update_self ..)
  obtain ⟨c₂, hrest, hsent⟩ := reply_sent hstart hfetched
    (Function.update_self ..) (Function.update_self ..) hcarries.drained hne
    howes (by rwa [hcarries.block]) hok
  have hback := handedBack hstart false hsent
    (Function.update_self ..) (Function.update_self ..)
  refine ⟨c₂, ?_, hrest.request.trans hcarries.request,
    hrest.reponse.trans hcarries.reponse, ?_⟩
  · rw [hrest.readBuffer]
    exact hroom
  have hsame : s.setClient fd c₂ = ({ s with
      clients := Function.update s.clients fd (some c₂)
      interest := Function.update s.interest fd (.armed false)
      workers := Function.update s.workers t .idle } : Server Thread) := by
    rw [← harmed, ← ht, Function.update_eq_self, Function.update_eq_self]
    rfl
  simp only [setClient, setWorker, Function.update_idem, List.append_assoc,
    List.cons_append, List.nil_append] at hback
  rw [hsame]
  exact hback

end

/-! ## A whole session -/

/-- `replies` are the answers to `requests`, one after the other, of a
connector that starts with these two objects; the world may be another one
each time, and no file in it is longer than `limit`. -/
inductive Answerable (limit : Nat) : HttpRequest → HttpResponse →
    List Bytes → List (List Octet) → Prop where
  | nil {q : HttpRequest} {p : HttpResponse} : Answerable limit q p [] []
  | cons {q : HttpRequest} {p : HttpResponse} {request : Bytes} {w : World}
      {a : Answer} {requests : List Bytes} {replies : List (List Octet)} :
      request ≠ [] → respond w q p request = .ok a →
      a.wire.length < 2 ^ 32 → a.content.length ≤ limit →
      Answerable limit a.request a.reponse requests replies →
      Answerable limit q p (request :: requests) (a.wire :: replies)

/-- What a client sees when it waits for each reply. -/
def session (requests : List Bytes) (replies : List (List Octet)) :
    List Sight :=
  (requests.zip replies).flatMap fun p =>
    [.receive p.1, .answer p.2, .send p.2]

/-- One client, connected and silent, and two workers with nothing to do. -/
def greeted : Server Bool where
  listenFd := 3
  clients := Function.update (fun _ => none) 4 (some (blankConnector.init 4))
  userCnt := (0 + 1) % 2 ^ 16
  interest := Function.update (fun _ => .none) 4 (.armed false)
  opened := Function.update (fun _ => false) 4 true
  main := .waiting
  queue := []
  workers _ := .idle

theorem greeted_seen (ok : World → Prop) (limit : Nat) :
    (seenBy system.init ok limit 4).Reachable (greeted, [.connect]) := by
  let empty : Server Bool := ⟨3, fun _ => none, 0, fun _ => .none,
    fun _ => false, .waiting, [], fun _ => .idle⟩
  have hempty : (seenBy system.init ok limit 4).Reachable (empty, []) :=
    .start ⟨⟨fun _ => rfl, rfl, fun _ => rfl, fun _ => rfl, rfl, rfl,
      fun _ => rfl⟩, rfl⟩
  exact welcomed (fun _ h => .start h) hempty rfl (by decide : 0 < maxClients)
    (by decide : (0 : Int) < 4) (by decide : (4 : Int) ≠ 3) rfl
    (⟨_, _, _, _, _, _, rfl⟩ : blankConnector.Fresh)

/-- A file tree in which every path is a readable file of three bytes. -/
def noteTree : FileSystem := fun _ =>
  .ok ⟨.regular (lit "abc") true, false, false, false⟩

def noteWorld : World :=
  { flatWorld with fs := noteTree }

theorem greeted_responds : ∃ a, respond noteWorld
    (blankConnector.init 4).request (blankConnector.init 4).reponse plainGet
      = .ok a ∧ a.wire.length < 2 ^ 32 ∧ a.content.length ≤ 3 := by
  have hshort : (respond noteWorld (blankConnector.init 4).request
      (blankConnector.init 4).reponse plainGet).toOption.any
        (fun a => a.wire.length < 2 ^ 32 ∧ a.content.length ≤ 3) = true := by
    decide +kernel
  cases h : respond noteWorld (blankConnector.init 4).request
      (blankConnector.init 4).reponse plainGet with
  | error e => rw [h] at hshort; cases hshort
  | ok a =>
      rw [h] at hshort
      exact ⟨a, rfl, of_decide_eq_true hshort⟩

theorem greeted_fits : plainGet.length
    ≤ (blankConnector.init 4).readBuffer.writeableSize := by
  decide +kernel

theorem plainGet_ne : plainGet ≠ [] := by decide +kernel

/-- It asks for a page and is sent it. -/
theorem greeted_answered (ok : World → Prop) (hok : ok noteWorld) :
    ∃ c wire, (seenBy system.init ok 3 4).Reachable (greeted.setClient 4 c,
      [.connect, .receive plainGet, .answer wire, .send wire]) := by
  obtain ⟨a, ha, hsmall, hmapped⟩ := greeted_responds
  obtain ⟨c, -, -, -, hserved⟩ := served (fun _ h => .start h)
    (greeted_seen ok 3) rfl rfl (t := true) rfl rfl rfl plainGet_ne
    greeted_fits hok ha hsmall hmapped
  exact ⟨c, _, hserved⟩

/-- And the server listens to it again. -/
theorem greeted_served (ok : World → Prop) (hok : ok noteWorld) :
    ∃ (s : Server Bool) (wire : List Octet),
      ((system.restrict (RegularIn ok)).observed (see 4)).Reachable
        (s, [.connect, .receive plainGet, .answer wire, .send wire]) ∧
      s.interest 4 = .armed false := by
  obtain ⟨c, wire, hserved⟩ := greeted_answered ok hok
  exact ⟨_, wire, hserved.mono_observed fun s a h => ⟨h.1, h.2.1⟩, rfl⟩

end Server

end TinyWebServer
