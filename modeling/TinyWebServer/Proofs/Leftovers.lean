import TinyWebServer.Proofs.Ownership
import TinyWebServer.Proofs.UserCount

/-!
# What a client finds in its connector

A connector is found again by every client that gets its descriptor, and
neither `Init` nor `Close` empties its buffers. They are empty all the same.
Bytes stand in the read buffer only between `_FunRead`'s `Read` and its
`Process`, and a worker that is between the two has the connection in hand, so
that nobody closes it then. `Close` forgets what was left to send by setting
the two `iovec`s to nothing, and it runs before the descriptor can be handed
out again.

So no byte that one client sent is ever parsed for another, and no byte of one
client's response is ever sent to another. What does go over from one client
to the next is in the members of the request object: header lines, form and
body.
-/

namespace TinyWebServer

open Lib

namespace HttpConnector

variable {c c' : HttpConnector}

theorem consume_sameRest {len : Int} (h : c.consume len = .ok c') :
    SameRest c c' := by
  rw [consume] at h
  split at h
  · simp only [] at h
    split at h
    · cases h; exact ⟨rfl, rfl, rfl⟩
    · cases h; exact ⟨rfl, rfl, rfl⟩
  · obtain ⟨b, -, h⟩ := bind_ok_iff.mp h
    cases h
    exact ⟨rfl, rfl, rfl⟩

theorem write_sameRest : ∀ {results : List Int} {c c' : HttpConnector}
    {status status' : Bool} {len : Int},
    c.write status results = .ok (some (c', len, status')) →
    SameRest c c' := by
  intro results
  induction results with
  | nil => intro c c' status status' len h; cases h
  | cons first rest ih =>
      intro c c' status status' len h
      rw [write] at h
      split at h
      · cases h; exact ⟨rfl, rfl, rfl⟩
      split at h
      · cases h; exact ⟨rfl, rfl, rfl⟩
      obtain ⟨c₁, h₁, h⟩ := bind_ok_iff.mp h
      have hfirst := consume_sameRest h₁
      split at h
      · cases h; exact hfirst
      · have hlater := ih h
        exact ⟨hlater.readBuffer.trans hfirst.readBuffer,
          hlater.request.trans hfirst.request,
          hlater.reponse.trans hfirst.reponse⟩

theorem process_drained (hc : c.Inv) {w : World} {ready : Bool}
    (h : c.process w = .ok (c', ready)) : c'.readBuffer.readable = [] := by
  by_cases hne : c.readBuffer.readable = []
  · have hsize := hc.read.length_readable
    rw [hne] at hsize
    rw [process_idle w hsize.symm] at h
    cases h
    exact hne
  · have hspec := process_spec hc w hne
    rw [h] at hspec
    obtain ⟨a, -, -, ha, -⟩ := hspec.ok_left
    exact ha.drained

/-- Both cursors describe nothing. -/
structure NothingToSend (c : HttpConnector) : Prop where
  iov₀ : c.iov₀ = ⟨0, 0⟩
  iov₁ : c.iov₁ = ⟨0, 0⟩
  iovSize : c.iovSize = 0

theorem Fresh.blank (h : c.Fresh) :
    c.readBuffer.readable = [] ∧ c.NothingToSend := by
  obtain ⟨status, code, cgi, tasks, fileStatus, code', rfl⟩ := h
  exact ⟨rfl, rfl, rfl, rfl⟩

theorem close_nothingToSend (h : c.status = true) :
    c.close.NothingToSend := by
  rw [close, if_pos h]
  exact ⟨rfl, rfl, rfl⟩

theorem NothingToSend.remaining (h : c.NothingToSend) : c.remaining = 0 := by
  simp only [HttpConnector.remaining, h.iov₀, h.iov₁]

end HttpConnector

namespace Server

open HttpConnector

variable {Thread : Type}

/-- Unread bytes are in the hands of a worker that is about to process them,
and a connector that is not running has nothing to send. -/
structure Tidy (s : Server Thread) : Prop where
  drained : ∀ fd c, s.clients fd = some c → c.readBuffer.readable ≠ [] →
    ∃ t, s.workers t = .processing fd
  closed : ∀ fd c, s.clients fd = some c → c.status = false → c.NothingToSend

/-- One connector is replaced; the others keep their workers. -/
theorem Tidy.update {s : Server Thread} (h : s.Tidy) {s' : Server Thread}
    {fd₀ : Int} {c₀ : HttpConnector}
    (hclients : s'.clients = Function.update s.clients fd₀ (some c₀))
    (hworkers : ∀ fd, fd ≠ fd₀ → ∀ t, s.workers t = .processing fd →
      s'.workers t = .processing fd)
    (hdrained : c₀.readBuffer.readable ≠ [] →
      ∃ t, s'.workers t = .processing fd₀)
    (hclosed : c₀.status = false → c₀.NothingToSend) : s'.Tidy := by
  refine ⟨fun fd c hc hne => ?_, fun fd c hc hstatus => ?_⟩
  · rw [hclients] at hc
    by_cases hfd : fd = fd₀
    · subst hfd
      rw [Function.update_self] at hc
      cases hc
      exact hdrained hne
    · rw [Function.update_of_ne hfd] at hc
      obtain ⟨t, ht⟩ := h.drained fd c hc hne
      exact ⟨t, hworkers fd hfd t ht⟩
  · rw [hclients] at hc
    by_cases hfd : fd = fd₀
    · subst hfd
      rw [Function.update_self] at hc
      cases hc
      exact hclosed hstatus
    · rw [Function.update_of_ne hfd] at hc
      exact h.closed fd c hc hstatus

/-- No connector is used. -/
theorem Tidy.same {s s' : Server Thread} (h : s.Tidy)
    (hclients : s'.clients = s.clients)
    (hworkers : ∀ fd t, s.workers t = .processing fd →
      s'.workers t = .processing fd) : s'.Tidy := by
  refine ⟨fun fd c hc hne => ?_, fun fd c hc => ?_⟩
  · rw [hclients] at hc
    obtain ⟨t, ht⟩ := h.drained fd c hc hne
    exact ⟨t, hworkers fd t ht⟩
  · rw [hclients] at hc
    exact h.closed fd c hc

/-- A worker that is not processing moves on; those that are stay. -/
theorem processing_setWorker [DecidableEq Thread] {s : Server Thread}
    {t : Thread} {pc : Worker}
    (ht : ∀ fd, s.workers t ≠ .processing fd) (fd : Int) (t' : Thread)
    (h : s.workers t' = .processing fd) :
    (s.setWorker t pc).workers t' = .processing fd := by
  have hne : t' ≠ t := by
    rintro rfl
    exact ht fd h
  exact (Function.update_of_ne hne ..).trans h

theorem Tidy.closeConnection {s s' : Server Thread} (h : s.Tidy) {fd₀ : Int}
    {stage : CloseStage} (hc : s.closeConnection fd₀ stage = some s') :
    s'.Tidy := by
  cases stage with
  | delFd =>
      obtain ⟨c, -, rfl⟩ := Option.map_eq_some_iff.mp hc
      exact h.same rfl fun _ _ ht => ht
  | close =>
      obtain ⟨c, hclient, rfl⟩ := Option.map_eq_some_iff.mp hc
      split
      · next hstatus =>
          refine h.update rfl (fun _ _ _ ht => ht) ?_
            fun _ => close_nothingToSend hstatus
          rw [close_readBuffer]
          exact h.drained fd₀ c hclient
      · exact h
  | log => cases hc; exact h

/-- While the main loop has a connection in hand no worker processes it. -/
theorem Inv.unread [Fintype Thread] {s : Server Thread} (hi : s.Inv)
    (ht : s.Tidy) {fd : Int} {c : HttpConnector}
    (hm : s.main.touched = some fd) (hc : s.clients fd = some c) :
    c.readBuffer.readable = [] := by
  by_contra hne
  obtain ⟨t, hworker⟩ := ht.drained fd c hc hne
  have hpos : 0 < s.running fd :=
    population_pos (p := fun pc : Worker => pc.client = some fd)
      (i := t) (by rw [hworker]; rfl)
  have hnone := hi.main_alone hm
  omega

variable [DecidableEq Thread] [Fintype Thread]

theorem Step.tidy {s s' : Server Thread} {a : ServerLabel Thread}
    (hs : system.Reachable s) (h : Step s a s') (ht : s.Tidy) : s'.Tidy := by
  have hi := inv_reachable hs
  have hhistory := clients_reachable hs
  cases h with
  | wait | turn | accept | acceptEnd | logged =>
      exact ht.same rfl fun _ _ h => h
  | dispatch _ hd =>
      obtain ⟨-, rfl⟩ | ⟨-, rfl | ⟨kind, rfl⟩ | ⟨-, rfl⟩⟩ := dispatch_cases hd
      · exact ht.same rfl fun _ _ h => h
      · exact ht.same rfl fun _ _ h => h
      · exact ht.same rfl fun _ _ h => h
      · exact ht.same rfl fun _ _ h => h
  | @addConnection s' fresh fd batch _ hfresh ha =>
      obtain ⟨-, rfl⟩ | ⟨-, rfl⟩ := addConnection_cases ha
      · exact ht.same rfl fun _ _ h => h
      · refine ht.update rfl (fun _ _ _ h => h) ?_
          (by simp [HttpConnector.init])
        cases hold : s.clients fd with
        | none => exact fun hne => absurd hfresh.blank.1 hne
        | some c => exact ht.drained fd c hold
  | addFd _ _ ha =>
      obtain ⟨u, -, ha⟩ := bind_ok_iff.mp ha
      cases ha
      exact ht.same rfl fun _ _ h => h
  | close _ hcl => exact (ht.closeConnection hcl).same rfl fun _ _ h => h
  | @take t task rest hw _ | @finish t hw =>
      exact ht.same rfl (processing_setWorker (by simp [hw]))
  | @modFd t out fd c ok hw _ _ =>
      exact ht.same rfl (processing_setWorker (by simp [hw]))
  | @read t fd c c' arrived last ret status hw hc hr =>
      have hstatus := (HttpConnector.read_sameSocket hr).status
      have hrun := (hi.held (by rw [hw]; rfl) hc).2.2
      refine ht.update rfl
        (fun fd _ => processing_setWorker (by simp [hw]) fd) ?_ ?_
      · rw [funRead_eq hr fd]
        exact fun _ => ⟨t, Function.update_self ..⟩
      · rw [hstatus, hrun]
        simp
  | @process t fd c c' w ready hw hc hp =>
      have hstatus := (HttpConnector.process_sameSocket hp).status
      have hrun := (hi.held (by rw [hw]; rfl) hc).2.2
      refine ht.update rfl ?_ ?_ ?_
      · intro fd' hne t' ht'
        have hother : t' ≠ t := by
          rintro rfl
          rw [hw] at ht'
          cases ht'
          exact hne rfl
        exact (Function.update_of_ne hother ..).trans ht'
      · intro hne
        exact absurd (process_drained (inv_history (hhistory fd c hc)) hp) hne
      · rw [hstatus, hrun]
        simp
  | @write t fd c c' results wouldBlock ret status hw hc hwrite =>
      have hstatus := (HttpConnector.write_returns hwrite).1.status
      have hrun := (hi.held (by rw [hw]; rfl) hc).2.2
      refine ht.update rfl
        (fun fd _ => processing_setWorker (by simp [hw]) fd) ?_ ?_
      · rw [(write_sameRest hwrite).readBuffer]
        intro hne
        obtain ⟨t', ht'⟩ := ht.drained fd c hc hne
        exact ⟨t', processing_setWorker (s := s.setClient fd c')
          (by simp [setClient, hw]) fd t' ht'⟩
      · rw [hstatus, hrun]
        simp
  | @closeBy s' t stage fd hw _ => exact absurd hw (hi.noCloser _ _ _)

theorem tidy_reachable {s : Server Thread} (hs : system.Reachable s) :
    s.Tidy := by
  refine hs.invariant (I := Tidy) ?_ fun _ _ _ hr ih h => Step.tidy hr h ih
  intro s h
  refine ⟨fun fd c hc => ?_, fun fd c hc => ?_⟩
  · rw [h.1 fd] at hc
    cases hc
  · rw [h.1 fd] at hc
    cases hc

/-- The connector `_AddConnection` finds or makes is as good as new. -/
theorem arrival_blank {s : Server Thread} (hs : system.Reachable s) {fd : Int}
    {batch : List Event} (hm : s.main = .accepted fd batch)
    {fresh : HttpConnector} (hfresh : fresh.Fresh) :
    (((s.clients fd).getD fresh).init fd).readBuffer.readable = [] ∧
      (((s.clients fd).getD fresh).init fd).NothingToSend := by
  have htidy := tidy_reachable hs
  have hcounted := counted_reachable (closing_of_reachable hs)
  cases hold : s.clients fd with
  | none =>
      obtain ⟨hread, h₀, h₁, hsize⟩ := hfresh.blank
      exact ⟨hread, h₀, h₁, hsize⟩
  | some c =>
      have hread : c.readBuffer.readable = [] :=
        (inv_reachable hs).unread htidy (by rw [hm]; rfl) hold
      have hstatus : c.status = false := by
        have hidle := (hcounted.arriving fd batch hm).2 c.fd
        rw [sockets, hold, Option.map_some] at hidle
        simpa using hidle
      obtain ⟨h₀, h₁, hsize⟩ := htidy.closed fd c hold hstatus
      exact ⟨hread, h₀, h₁, hsize⟩

end Server

end TinyWebServer
