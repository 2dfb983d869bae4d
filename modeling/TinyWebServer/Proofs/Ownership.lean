import TinyWebServer.Proofs.ServerInv

/-!
# A connector has one user at a time

`Server.Touches` says which connectors a thread may be reading or writing at
its program counter. That this is what it says is `Step.frame`: a step does
the same whatever stands in a connector its thread does not touch, and leaves
it there. With the count of places from `Server.Inv` no two threads ever touch
one connector, although no lock is held.

The main loop touches a connector twice while the descriptor is in no place of
its own: the log entries at the end of `_AddConnection` and of `Close`. In the
first the descriptor is armed already, but the only thread that could be told
of an event is busy logging; in the second it is closed, and the only thread
that could get the number again is busy as well.
-/

namespace TinyWebServer

open Lib

/-- The connector the main loop may be working on. -/
def MainLoop.touched : MainLoop → Option Int
  | .accepted fd _ | .adding fd _ | .logging fd _ | .closing _ fd _ => some fd
  | .waiting | .dispatching _ | .accepting _ => none

/-- The connector a worker may be working on. -/
def Worker.touched : Worker → Option Int
  | .running _ fd | .processing fd | .rearming _ fd | .closing _ fd => some fd
  | .idle | .finishing => none

inductive Actor (Thread : Type) where
  | main
  | worker (t : Thread)
  deriving DecidableEq, Repr

def ServerLabel.actor {Thread : Type} : ServerLabel Thread → Actor Thread
  | .wait _ | .turn | .dispatch | .accept _ | .addConnection _ | .addFd _
  | .logged | .close => .main
  | .take t | .read t _ _ | .process t _ | .write t _ _ | .modFd t _
  | .closeBy t | .finish t => .worker t

namespace Server

variable {Thread : Type}

def Touches (s : Server Thread) : Actor Thread → Int → Prop
  | .main, fd => s.main.touched = some fd
  | .worker t, fd => (s.workers t).touched = some fd

/-! ## What a thread does not touch it does not use -/

theorem setClient_comm {s : Server Thread} {fd fd₀ : Int}
    (h : fd ≠ fd₀) (v c : HttpConnector) :
    (s.setClient fd v).setClient fd₀ c
      = (s.setClient fd₀ c).setClient fd v := by
  simp only [setClient]
  rw [Function.update_comm h]

theorem clients_setClient {s : Server Thread} {fd fd₀ : Int}
    (h : fd ≠ fd₀) (v : HttpConnector) :
    (s.setClient fd v).clients fd₀ = s.clients fd₀ :=
  Function.update_of_ne (Ne.symm h) ..

/-- The loop over the events asks `_clients` only which keys it has. -/
theorem dispatch_setClient {s s' : Server Thread} {e : Event}
    {batch : List Event} {fd : Int} (hfd : (s.clients fd).isSome = true)
    (v : HttpConnector) (h : s.dispatch e batch = .ok s') :
    (s.setClient fd v).dispatch e batch = .ok (s'.setClient fd v) := by
  have hkeys : ((s.setClient fd v).clients e.fd).isSome
      = (s.clients e.fd).isSome := by
    by_cases he : fd = e.fd
    · rw [← he, hfd]
      simp [setClient]
    · rw [clients_setClient he]
  rw [dispatch] at h ⊢
  rw [hkeys, show (s.setClient fd v).listenFd = s.listenFd from rfl]
  split at h
  · next hl => rw [if_pos hl]; cases h; rfl
  next hl =>
  rw [if_neg hl]
  split at h
  · next hhup =>
      rw [if_pos hhup]
      obtain ⟨u, hu, h⟩ := bind_ok_iff.mp h
      rw [hu]; cases h; rfl
  next hhup =>
  rw [if_neg hhup]
  split at h
  · next hin =>
      rw [if_pos hin]
      obtain ⟨u, hu, h⟩ := bind_ok_iff.mp h
      rw [hu]; cases h; rfl
  next hin =>
  rw [if_neg hin]
  split at h
  · next hout =>
      rw [if_pos hout]
      obtain ⟨u, hu, h⟩ := bind_ok_iff.mp h
      rw [hu]; cases h; rfl
  · next hout => rw [if_neg hout]; cases h; rfl

theorem addConnection_setClient {s s' : Server Thread}
    {fresh : HttpConnector} {fd fd₀ : Int} {batch : List Event}
    (hfd : fd ≠ fd₀) (v : HttpConnector)
    (h : s.addConnection fresh fd₀ batch = .ok s') :
    (s.setClient fd v).addConnection fresh fd₀ batch
      = .ok (s'.setClient fd v) := by
  rw [addConnection] at h ⊢
  split at h
  · next hfull =>
      rw [if_pos (show maxClients ≤ (s.setClient fd v).userCnt from hfull)]
      cases h
      rfl
  · next hroom =>
      rw [if_neg (show ¬ maxClients ≤ (s.setClient fd v).userCnt from hroom)]
      obtain ⟨u, hu, h⟩ := bind_ok_iff.mp h
      rw [hu, clients_setClient hfd, setClient_comm hfd]
      cases h
      rfl

theorem closeConnection_setClient {s s' : Server Thread} {stage : CloseStage}
    {fd fd₀ : Int} (hfd : fd ≠ fd₀) (v : HttpConnector)
    (h : s.closeConnection fd₀ stage = some s') :
    (s.setClient fd v).closeConnection fd₀ stage
      = some (s'.setClient fd v) := by
  cases stage with
  | delFd =>
      obtain ⟨c, hc, rfl⟩ := Option.map_eq_some_iff.mp h
      rw [closeConnection, clients_setClient hfd, hc]
      rfl
  | close =>
      obtain ⟨c, hc, rfl⟩ := Option.map_eq_some_iff.mp h
      rw [closeConnection, clients_setClient hfd, hc, Option.map_some,
        setClient_comm hfd]
      split
      · rfl
      · rfl
  | log => cases h; rfl

variable [DecidableEq Thread]

/-- A step neither reads nor writes a connector its thread does not touch:
with another one in its place it is the same step, and the other one is still
there afterwards. -/
theorem Step.frame {s s' : Server Thread} {a : ServerLabel Thread}
    (h : Step s a s') {fd : Int} (hfd : (s.clients fd).isSome = true)
    (hfree : ¬ s.Touches a.actor fd) (v : HttpConnector) :
    Step (s.setClient fd v) a (s'.setClient fd v) := by
  -- The key of the connector a thread works on is another one.
  have hmain : ∀ {fd₀ : Int}, a.actor = .main → s.main.touched = some fd₀ →
      fd ≠ fd₀ := by
    rintro fd₀ ha ht rfl
    rw [ha] at hfree
    exact hfree ht
  have hworker : ∀ {t : Thread} {fd₀ : Int}, a.actor = .worker t →
      (s.workers t).touched = some fd₀ → fd ≠ fd₀ := by
    rintro t fd₀ ha ht rfl
    rw [ha] at hfree
    exact hfree ht
  cases h with
  | wait hm hlen hd => exact .wait hm hlen hd
  | turn hm => exact .turn hm
  | dispatch hm hd => exact .dispatch hm (dispatch_setClient hfd v hd)
  | accept hm hpos hne hopen => exact .accept hm hpos hne hopen
  | acceptEnd hm hr => exact .acceptEnd hm hr
  | addConnection hm hfresh ha =>
      refine .addConnection hm hfresh (addConnection_setClient ?_ v ha)
      exact hmain rfl (by rw [hm]; rfl)
  | addFd hm hnew ha =>
      refine .addFd hm hnew ?_
      obtain ⟨u, hu, ha⟩ := bind_ok_iff.mp ha
      cases ha
      rw [Server.addFd, hu]
      rfl
  | logged hm => exact .logged hm
  | close hm hc =>
      have hne := hmain rfl (by rw [hm]; rfl)
      exact Step.close (s := s.setClient fd v) hm
        (closeConnection_setClient hne v hc)
  | take ht hq => exact .take ht hq
  | @read t fd₀ c c' arrived last ret status ht hc hr =>
      have hne : fd ≠ fd₀ := hworker rfl (by rw [ht]; rfl)
      have hstep : Step (s.setClient fd v) (.read t arrived last) _ :=
        .read ht ((clients_setClient hne v).trans hc) hr
      rwa [setClient_comm hne] at hstep
  | @process t fd₀ c c' w ready ht hc hp =>
      have hne : fd ≠ fd₀ := hworker rfl (by rw [ht]; rfl)
      have hstep : Step (s.setClient fd v) (.process t w) _ :=
        .process ht ((clients_setClient hne v).trans hc) hp
      rwa [setClient_comm hne] at hstep
  | @write t fd₀ c c' results wouldBlock ret status ht hc hw =>
      have hne : fd ≠ fd₀ := hworker rfl (by rw [ht]; rfl)
      have hstep : Step (s.setClient fd v) (.write t results wouldBlock) _ :=
        .write ht ((clients_setClient hne v).trans hc) hw
      rwa [setClient_comm hne] at hstep
  | @modFd t out fd₀ c ok ht hc hreg =>
      have hne : fd ≠ fd₀ := hworker rfl (by rw [ht]; rfl)
      exact .modFd ht ((clients_setClient hne v).trans hc) hreg
  | @closeBy s' t stage fd₀ ht hc =>
      have hne : fd ≠ fd₀ := hworker rfl (by rw [ht]; rfl)
      exact Step.closeBy (s := s.setClient fd v) ht
        (closeConnection_setClient hne v hc)
  | finish ht => exact .finish ht

/-! ## One user at a time -/

variable [Fintype Thread]

omit [DecidableEq Thread] in
/-- Nobody has a task for the connection the main loop is at. -/
theorem Inv.main_alone {s : Server Thread} (hi : s.Inv) {fd : Int}
    (h : s.main.touched = some fd) : s.queued fd + s.running fd = 0 := by
  have hone := (hi.single fd).trans (Bool.toNat_le _)
  have hcur : s.main.current = some fd → s.queued fd + s.running fd = 0 := by
    intro hcur
    rw [situations, handling, hcur, inHand_some, if_pos rfl] at hone
    omega
  cases hm : s.main with
  | waiting | dispatching _ | accepting _ => rw [hm] at h; cases h
  | accepted fd' batch | adding fd' batch =>
      rw [hm] at h hcur
      exact hcur h
  | logging fd' batch =>
      rw [hm] at h
      cases h
      exact hi.logging fd batch hm
  | closing stage fd' batch =>
      rw [hm] at h
      cases h
      cases stage with
      | delFd | close => rw [hm] at hcur; exact hcur rfl
      | log =>
          have hnone := hi.single fd
          rw [hi.departed fd batch hm, Bool.toNat_false, situations] at hnone
          omega

omit [DecidableEq Thread] in
theorem Inv.worker_touched {s : Server Thread} (hi : s.Inv) {t : Thread}
    {fd : Int} (h : (s.workers t).touched = some fd) :
    (s.workers t).client = some fd := by
  cases ht : s.workers t with
  | idle | finishing => rw [ht] at h; cases h
  | running _ _ | processing _ | rearming _ _ => rw [ht] at h; exact h
  | closing stage fd' => exact absurd ht (hi.noCloser t stage fd')

omit [DecidableEq Thread] in
theorem Inv.one_user {s : Server Thread} (hi : s.Inv) {a b : Actor Thread}
    {fd : Int} (ha : s.Touches a fd) (hb : s.Touches b fd) : a = b := by
  -- The main loop and a worker.
  have hmixed : ∀ {t}, s.main.touched = some fd →
      ¬ (s.workers t).touched = some fd := by
    intro t hm ht
    have hpos : 0 < s.running fd :=
      population_pos (p := fun pc : Worker => pc.client = some fd)
        (hi.worker_touched ht)
    have hnone := hi.main_alone hm
    omega
  cases a with
  | main =>
      cases b with
      | main => rfl
      | worker t => exact absurd hb (hmixed ha)
  | worker t =>
      cases b with
      | main => exact absurd ha (hmixed hb)
      | worker t' =>
          have hone := (hi.single fd).trans (Bool.toNat_le _)
          have hrun : s.running fd ≤ 1 := by
            rw [situations] at hone
            omega
          rw [population_le_one (p := fun pc : Worker => pc.client = some fd)
            hrun (hi.worker_touched ha) (hi.worker_touched hb)]

/-- Exclusive use of the connectors in a state of the server: a connection is
in one situation at most (`single`), a task has no connector any more after
its `modFd` (`released`, `finished`), what a thread does not touch it neither
reads nor writes (`framed`), no two threads touch one connector (`oneUser`),
and `_CloseConnection` from the main loop meets no task in flight
(`closing`). -/
structure Exclusive (s : Server Thread) : Prop where
  single : ∀ fd, s.armed fd + s.handling fd + s.queued fd + s.running fd ≤ 1
  released : ∀ t ok s', Step s (.modFd t ok) s' → s'.workers t = .finishing
  finished : ∀ t fd, s.workers t = .finishing → ¬ s.Touches (.worker t) fd
  framed : ∀ a s' fd v, Step s a s' → (s.clients fd).isSome = true →
    ¬ s.Touches a.actor fd → Step (s.setClient fd v) a (s'.setClient fd v)
  oneUser : ∀ a b fd, s.Touches a fd → s.Touches b fd → a = b
  closing : ∀ stage fd batch, s.main = .closing stage fd batch →
    s.queued fd = 0 ∧ s.running fd = 0

end Server

/-- In every reachable state, whatever the interleaving: a connection is in at
most one situation, a task is done with its connector once it has called
`modFd`, no two threads work on one connector, and the main loop closes none
that has a task. -/
theorem exclusive_ownership {Thread : Type} [DecidableEq Thread]
    [Fintype Thread] {s : Server Thread}
    (hs : Server.system.Reachable s) : s.Exclusive := by
  have hi := Server.inv_reachable hs
  refine ⟨?_, ?_, ?_, ?_, ?_, ?_⟩
  · intro fd
    exact (hi.single fd).trans (Bool.toNat_le _)
  · intro t ok s' h
    cases h with
    | modFd => exact Function.update_self ..
  · intro t fd ht htouch
    rw [Server.Touches, ht] at htouch
    cases htouch
  · intro a s' fd v h hfd hfree
    exact h.frame hfd hfree v
  · intro a b fd ha hb
    exact hi.one_user ha hb
  · intro stage fd batch hm
    have hnone : s.queued fd + s.running fd = 0 :=
      hi.main_alone (by rw [hm]; rfl)
    omega

/-- Three clients on a server with two workers. -/
theorem exclusive_ownership_crowd : (Server.crowd 3).Exclusive :=
  exclusive_ownership (Server.crowd_reachable (by decide)).of_restrict

end TinyWebServer
