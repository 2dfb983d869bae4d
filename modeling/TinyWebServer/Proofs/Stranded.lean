import TinyWebServer.Proofs.ServerInv

/-!
# No connection is left behind, unless the server is full

An accepted descriptor that is in no place will never be looked at again: no
event can be reported for it, nobody has it in hand, and its client waits for
good. `Step.balance` says where that can come from. The exit of
`_HandleNewConnection` that finds the clients full drops the descriptor it has
just been given without closing it, `_FunWrite` has no branch for a `writev`
that answers zero, and neither `addFd` nor `modFd` has its answer looked at.
In a run where none of that happens every open descriptor has its place.
-/

namespace TinyWebServer

open Lib

namespace Server

variable {Thread : Type} [Fintype Thread] [DecidableEq Thread]

/-- The books are even: as many places as open descriptors. -/
theorem situations_eq {s : Server Thread}
    (hs : (system.restrict Sound).Reachable s) :
    ∀ fd, s.situations fd = (s.opened fd).toNat := by
  refine hs.invariant
    (I := fun s => ∀ fd, s.situations fd = (s.opened fd).toNat) ?_ ?_
  · intro s h fd
    have hle := (inv_init h).single fd
    rw [h.2.2.2.1 fd] at hle ⊢
    exact Nat.le_zero.mp hle
  · intro s a s' hr ih h fd
    have hi := inv_reachable hr.of_restrict
    have heq := (Step.balance hi h.2).eq h.1 fd
    have hold := ih fd
    omega

/-- What an `accept` on a full server leaves behind. -/
def overflow : Server Bool :=
  { crowd maxClients with
    opened := Function.update (crowd maxClients).opened (4 + maxClients) true
    main := .dispatching [] }

theorem overflow_reachable : system.Reachable overflow := by
  let accepted : Server Bool := { overflow with
    main := .accepted (4 + maxClients) [] }
  have haccept : Step (crowd maxClients)
      (.accept (.connected (4 + maxClients))) accepted :=
    .accept rfl (by decide) (by decide) (by simp [crowd, among])
  have hfull : Step accepted (.addConnection blankConnector) overflow := by
    refine .addConnection rfl ⟨_, _, _, _, _, _, rfl⟩ ?_
    rw [addConnection,
      if_pos (show maxClients ≤ accepted.userCnt from Nat.le_refl _)]
    rfl
  have hcrowd := crowd_reachable (Nat.le_refl maxClients)
  exact (hcrowd.of_restrict.next haccept).next hfull

/-- The client that came last is nowhere. -/
theorem overflow_nowhere : overflow.situations (4 + maxClients) = 0 := by
  have harmed : overflow.armed (4 + maxClients) = 0 := by
    simp [armed, overflow, crowd, among]
  have hhandling : overflow.handling (4 + maxClients) = 0 := rfl
  have hqueued : overflow.queued (4 + maxClients) = 0 := rfl
  have hrunning : overflow.running (4 + maxClients) = 0 := by
    rw [running, inFlight]
    refine population_eq_zero fun t => ?_
    rw [show overflow.workers t = .idle from rfl, Worker.client]
    simp
  rw [situations, harmed, hhandling, hqueued, hrunning]

end Server

/-- Where every step is sound no descriptor is left behind: in every state
such a run reaches, an open one is armed, with the main loop, or in a task. -/
theorem no_stranded {Thread : Type} [DecidableEq Thread] [Fintype Thread]
    {s : Server Thread}
    (hs : (Server.system.restrict Server.Sound).Reachable s) {fd : Int}
    (hopen : s.opened fd = true) :
    0 < s.armed fd + s.handling fd + s.queued fd + s.running fd := by
  have heq := Server.situations_eq hs fd
  rw [hopen, Bool.toNat_true, Server.situations] at heq
  omega

theorem no_stranded_crowd :
    0 < (Server.crowd 3).armed 4 + (Server.crowd 3).handling 4
      + (Server.crowd 3).queued 4 + (Server.crowd 3).running 4 :=
  no_stranded (Server.crowd_reachable (by decide)) (by decide)

/-- On a full server the next client is stranded. -/
theorem full_server_strands : ¬ ∀ (s : Server Bool),
    Server.system.Reachable s → ∀ fd, s.opened fd = true →
    0 < s.armed fd + s.handling fd + s.queued fd + s.running fd := by
  intro h
  have hpos := h Server.overflow Server.overflow_reachable
    (4 + Server.maxClients) (Function.update_self ..)
  exact absurd hpos (Nat.not_lt.mpr (Nat.le_of_eq Server.overflow_nowhere))

end TinyWebServer
