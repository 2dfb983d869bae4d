import TinyWebServer.Proofs.Capacity
import TinyWebServer.Proofs.Pages

/-!
# Clients come and go

A visit is a connection from `accept` to `Close`: a client connects, is sent the
pages it asks for and hangs up. Whatever its descriptor was used for before,
there is always room for it below the limit of clients, and when it has left
the server is exactly as it was before it came, but for the connector that
`_clients` keeps. So one visit can follow another for ever. And whatever the
last visitor left behind, the next one finds nothing to read and nothing to
send in its connector.
-/

namespace TinyWebServer

open Lib

namespace HttpConnector

/-- The read buffer is never shorter than it was constructed. -/
theorem room_history {c : HttpConnector} (hc : history.Reachable c) :
    Buffer.defaultSize ≤ c.readBuffer.buffer.length := by
  refine hc.invariant
    (I := fun c => Buffer.defaultSize ≤ c.readBuffer.buffer.length) ?_ ?_
  · intro c hfresh
    obtain ⟨status, code, cgi, tasks, fileStatus, code', rfl⟩ := hfresh
    exact Nat.le_of_eq List.length_replicate.symm
  · intro c call c' hprev ih h
    have hcosts := h.costs (inv_history hprev) (front_history hprev)
    rw [hcosts.read]
    exact ih.trans (Nat.le_max_left ..)

/-- All of it is free when there is nothing to read. -/
theorem writeable_of_drained {c : HttpConnector} (hc : history.Reachable c)
    (hnone : c.readBuffer.readable = []) :
    Buffer.defaultSize ≤ c.readBuffer.writeableSize := by
  have hinv := (inv_history hc).read
  have hlen := hinv.length_eq
  have hsize := hinv.length_readable
  rw [hnone, List.length_nil] at hsize
  have hfront : c.readBuffer.preparedSize = 0 := front_history hc
  have hroom := room_history hc
  omega

end HttpConnector

namespace Server

open HttpConnector

variable {Thread : Type} [DecidableEq Thread] [Fintype Thread]
  {start : Server Thread → Prop} {limit : Nat}

/-- What a client that the server listens to sends next has the default size
to go to at least. -/
theorem armed_room {s : Server Thread} (hs : system.Reachable s) {fd : Int}
    (harmed : s.interest fd = .armed false) {c : HttpConnector}
    (hc : s.clients fd = some c) :
    Buffer.defaultSize ≤ c.readBuffer.writeableSize := by
  refine writeable_of_drained (clients_reachable hs fd c hc) ?_
  by_contra hne
  obtain ⟨t, ht⟩ := (tidy_reachable hs).drained fd c hc hne
  have hclient : (s.workers t).client = some fd := by rw [ht]; rfl
  have hrun : 0 < s.running fd :=
    population_pos (p := fun pc : Worker => pc.client = some fd) hclient
  have hfree : (s.interest fd).isArmed = false :=
    (inv_reachable hs).not_armed (by omega)
  rw [harmed] at hfree
  cases hfree

/-- What the descriptor of a visit sees of it. -/
def visit (w : World) (qs : List (RequestText × Bytes)) :
    List Sight :=
  [.connect] ++ session (qs.map fun q => q.1.serialize)
    (qs.map fun q => page w q.1 q.2) ++ [.disconnect]

/-- A state in which a client that `accept` hands out under `fd` gets in and
is served. -/
structure Open (s : Server Thread) (fd : Int) : Prop where
  main : s.main = .waiting
  queue : s.queue = []
  idle : ∃ t, s.workers t = .idle
  room : s.userCnt < maxClients
  positive : 0 < fd
  listenFd : fd ≠ s.listenFd
  opened : s.opened fd = false

section

variable (hstart : ∀ s, start s → system.Reachable s)

include hstart

/-- From `epoll_wait` back to it, with one client less. -/
theorem departed {ok : World → Prop} {s : Server Thread} {fd : Int}
    {seen : List Sight} (hs : (seenBy start ok limit fd).Reachable (s, seen))
    (hm : s.main = .waiting) {out : Bool}
    (harmed : s.interest fd = .armed out) {c : HttpConnector}
    (hc : s.clients fd = some c) :
    (seenBy start ok limit fd).Reachable ({ s with
      clients := Function.update s.clients fd (some c.close)
      userCnt := (s.userCnt + (2 ^ 16 - 1)) % 2 ^ 16
      interest := Function.update s.interest fd .none
      opened := Function.update s.opened fd false },
      seen ++ [.disconnect]) := by
  obtain ⟨hlisten, c', hc', hfd, hstatus⟩ :=
    armed_connected (reachable_of_seenBy hstart hs) harmed
  cases hc.symm.trans hc'
  let hup : Event := ⟨fd, false, false, true, false, false⟩
  let woken : Server Thread := { s with
    interest := Function.update s.interest fd .disarmed
    main := .dispatching [hup] }
  let leaving : Server Thread := { woken with main := .closing .delFd fd [] }
  let deleted : Server Thread := { woken with
    interest := Function.update s.interest fd .none
    main := .closing .close fd [] }
  let closed : Server Thread := { deleted with
    clients := Function.update s.clients fd (some c.close)
    userCnt := (s.userCnt + (2 ^ 16 - 1)) % 2 ^ 16
    opened := Function.update s.opened fd false
    main := .closing .log fd [] }
  let done : Server Thread := { closed with main := .dispatching [] }
  have hwait : Step s (.wait [hup]) woken := by
    refine .wait hm (by simp [maxEvent]) ?_
    have hfits : hup.fits out = true := by cases out <;> rfl
    rw [deliver, if_neg hlisten, harmed]
    simp only [hfits, if_true]
    rfl
  have hdispatch : Step woken .dispatch leaving := by
    refine .dispatch rfl ?_
    rw [dispatch, if_neg (show hup.fd ≠ s.listenFd from hlisten),
      if_pos (show hup.hangup = true from rfl),
      check_pos (show (s.clients fd).isSome = true by rw [hc]; rfl)]
    rfl
  have hdelFd : leaving.closeConnection fd .delFd
      = some { deleted with main := leaving.main } := by
    rw [closeConnection, show leaving.clients fd = some c from hc]
    simp only [Option.map_some, hfd, leaving, woken, deleted,
      Function.update_idem]
  have hclose : deleted.closeConnection fd .close
      = some { closed with main := deleted.main } := by
    rw [closeConnection, show deleted.clients fd = some c from hc]
    simp only [Option.map_some, hfd, hstatus, if_true, setClient, woken,
      deleted, closed, Function.update_idem]
  have hlog : closed.closeConnection fd .log = some closed := rfl
  have hdelete : Step leaving .close deleted := .close rfl hdelFd
  have hshut : Step deleted .close closed := .close rfl hclose
  have hlogged : Step closed .close done := .close rfl hlog
  have hturn : Step done .turn { done with main := .waiting } := .turn rfl
  have hfree : True ∧ True ∧ True ∧ True :=
    ⟨trivial, trivial, trivial, trivial⟩
  have hdeleted := ((hs.next_unseen hwait hfree rfl).next_unseen hdispatch
    hfree rfl).next_unseen hdelete hfree rfl
  have hseen := hdeleted.next_observed hshut hfree
  have hback := (hseen.next_unseen hlogged hfree rfl).next_unseen hturn hfree
    rfl
  rw [see] at hback
  simp only [deleted, if_true] at hback
  have hsame : ({ done with main := .waiting } : Server Thread)
      = { done with main := s.main } := by rw [hm]
  exact hsame ▸ hback

theorem visited {w : World} {s : Server Thread} {fd : Int}
    {seen : List Sight}
    (hs : (seenBy start (fun w' => w'.fs = w.fs) limit fd).Reachable (s, seen))
    (h : s.Open fd) {qs : List (RequestText × Bytes)}
    (hqs : ∀ q ∈ qs, Ready limit w q ∧
      q.1.serialize.length ≤ Buffer.defaultSize) :
    ∃ c, (seenBy start (fun w' => w'.fs = w.fs) limit fd).Reachable
      (s.setClient fd c, seen ++ visit w qs) := by
  obtain ⟨t, ht⟩ := h.idle
  have hreg := closed_unregistered (reachable_of_seenBy hstart hs) fd h.opened
  have hin := welcomed hstart hs h.main h.room h.positive h.listenFd h.opened
    (⟨_, _, _, _, _, _, rfl⟩ : blankConnector.Fresh)
  have hroom := armed_room (reachable_of_seenBy hstart hin)
    (Function.update_self ..) (Function.update_self ..)
  obtain ⟨c, hserved⟩ := pages_delivered hstart hin h.main h.queue ht
    (Function.update_self ..) (Function.update_self ..)
    (fun q hq => (hqs q hq).2.trans hroom) fun q hq => (hqs q hq).1
  have hout := departed hstart hserved h.main (Function.update_self ..)
    (Function.update_self ..)
  refine ⟨c.close, ?_⟩
  have hcount : ((s.userCnt + 1) % 2 ^ 16 + (2 ^ 16 - 1)) % 2 ^ 16
      = s.userCnt := by
    have hlt : s.userCnt < 65535 := h.room
    omega
  have hsame : s.setClient fd c.close = ({ s with
      clients := Function.update s.clients fd (some c.close)
      userCnt := ((s.userCnt + 1) % 2 ^ 16 + (2 ^ 16 - 1)) % 2 ^ 16
      interest := Function.update s.interest fd .none
      opened := Function.update s.opened fd false } : Server Thread) := by
    rw [hcount, ← hreg, ← h.opened, Function.update_eq_self,
      Function.update_eq_self]
    rfl
  simp only [setClient, Function.update_idem, List.append_assoc] at hout
  rw [hsame, visit, List.append_assoc]
  exact hout

end

/-- In every run: a connector that nobody is processing has no unread byte,
and a client's connector starts with an empty read buffer and nothing to send,
whoever had it before. -/
theorem client_inherits_no_bytes {s : Server Thread}
    (hs : system.Reachable s) :
    (∀ fd c, s.clients fd = some c → (∀ t, s.workers t ≠ .processing fd) →
      c.readBuffer.readable = []) ∧
    ∀ fresh s' fd batch, Step s (.addConnection fresh) s' →
      s'.main = .adding fd batch →
      ∃ c, s'.clients fd = some c ∧ c.fd = fd ∧ c.status = true ∧
        c.readBuffer.readable = [] ∧ c.NothingToSend := by
  refine ⟨fun fd c hc hidle => ?_, fun fresh s' fd batch h hm => ?_⟩
  · by_contra hne
    obtain ⟨t, ht⟩ := (tidy_reachable hs).drained fd c hc hne
    exact hidle t ht
  · cases h with
    | addConnection hmain hfresh ha =>
        obtain ⟨-, rfl⟩ | ⟨-, rfl⟩ := addConnection_cases ha
        · cases hm
        · cases hm
          exact ⟨_, Function.update_self .., rfl, rfl,
            arrival_blank hs hmain hfresh⟩

/-- A client asks for a page and hangs up before it is sent, and the next one
gets its descriptor. -/
theorem abandoned_reachable : ∃ (s : Server Bool) (c : HttpConnector),
    system.Reachable s ∧ s.main = .accepted 4 [] ∧
    s.clients 4 = some c.close ∧ c.remaining ≠ 0 := by
  have hstart : ∀ s : Server Bool, system.init s → system.Reachable s :=
    fun _ h => .start h
  obtain ⟨a, ha, hsmall, -⟩ := greeted_responds
  obtain ⟨c, -, howes, hne, -, hasked⟩ := asked hstart
    (greeted_seen (fun _ => True) 3) rfl rfl (t := true) rfl rfl rfl plainGet_ne
    greeted_fits trivial ha hsmall
  let owing : Server Bool := { greeted.setClient 4 c with
    interest := Function.update greeted.interest 4 (.armed true) }
  have harmed : owing.interest 4 = .armed true := rfl
  have hclient : owing.clients 4 = some c := rfl
  have hleft := departed hstart hasked rfl harmed hclient
  have haccepted := accepted hleft rfl (by decide : (0 : Int) < 4)
    (show (4 : Int) ≠ 3 by decide) rfl
  refine ⟨_, c, reachable_of_seenBy hstart haccepted, rfl, rfl, ?_⟩
  rw [howes.remaining]
  exact fun hnone => hne (List.length_eq_zero_iff.mp hnone)

theorem client_inherits_no_bytes_abandoned : ∃ (s : Server Bool)
    (c : HttpConnector), (s.main = .accepted 4 [] ∧
      s.clients 4 = some c.close ∧ c.remaining ≠ 0) ∧
    (∀ fd c, s.clients fd = some c → (∀ t, s.workers t ≠ .processing fd) →
      c.readBuffer.readable = []) ∧
    ∀ fresh s' fd batch, Step s (.addConnection fresh) s' →
      s'.main = .adding fd batch →
      ∃ c, s'.clients fd = some c ∧ c.fd = fd ∧ c.status = true ∧
        c.readBuffer.readable = [] ∧ c.NothingToSend := by
  obtain ⟨s, c, hs, hmain, hclient, hleft⟩ := abandoned_reachable
  exact ⟨s, c, ⟨hmain, hclient, hleft⟩, client_inherits_no_bytes hs⟩

end Server

end TinyWebServer
