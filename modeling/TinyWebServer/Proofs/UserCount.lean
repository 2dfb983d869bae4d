import TinyWebServer.Proofs.ServerInv
import Mathlib.Data.Set.Card

/-!
# The user count is exact

`Init` increments the count whatever the connector was before, and `Close`
decrements it only on a connector that is running. The two balance because a
connector is never initialised while it runs: a running connector holds the
descriptor it is stored under, that descriptor is open, and `accept` answers
one that is not.

Whether somebody else closes the connector first, or closes it again, does not
matter to this, so the runs here are more than the server's own: any connector
may also be closed at any time. A step is then one of four changes to the
count's books, `Change`, and the invariant is checked on those.
-/

namespace TinyWebServer

open Lib

namespace Server

variable {Thread : Type}

/-- The connectors that are running. -/
def alive (s : Server Thread) : Set Int :=
  { fd | ∃ c, s.clients fd = some c ∧ c.status = true }

/-- Of every connector, its descriptor and whether it is running. -/
def sockets (s : Server Thread) (fd : Int) : Option (Int × Bool) :=
  (s.clients fd).map fun c => (c.fd, c.status)

theorem mem_alive {s : Server Thread} {fd : Int} :
    fd ∈ s.alive ↔ ∃ n, s.sockets fd = some (n, true) := by
  constructor
  · rintro ⟨c, hc, hstatus⟩
    exact ⟨c.fd, by rw [sockets, hc, Option.map_some, hstatus]⟩
  · rintro ⟨n, hn⟩
    obtain ⟨c, hc, hpair⟩ := Option.map_eq_some_iff.mp hn
    exact ⟨c, hc, congrArg Prod.snd hpair⟩

/-! ## What a step does to the books -/

/-- All a step can do: nothing; a descriptor is accepted; a connector is
initialised for it; a running connector is closed. Only the second leads to
`accepted`. -/
inductive Change (s s' : Server Thread) : Prop where
  | quiet : s'.sockets = s.sockets → s'.opened = s.opened →
      s'.userCnt = s.userCnt →
      (∀ fd batch, s'.main = .accepted fd batch →
        s.main = .accepted fd batch) → Change s s'
  | accept (fd : Int) (batch : List Event) : s.opened fd = false →
      s'.sockets = s.sockets → s'.opened = Function.update s.opened fd true →
      s'.userCnt = s.userCnt → s'.main = .accepted fd batch → Change s s'
  | init (fd : Int) (batch : List Event) : s.main = .accepted fd batch →
      s.userCnt < maxClients →
      s'.sockets = Function.update s.sockets fd (some (fd, true)) →
      s'.opened = s.opened → s'.userCnt = (s.userCnt + 1) % 2 ^ 16 →
      (∀ fd batch, s'.main ≠ .accepted fd batch) → Change s s'
  | close (fd n : Int) : s.sockets fd = some (n, true) →
      s'.sockets = Function.update s.sockets fd (some (n, false)) →
      s'.opened = Function.update s.opened n false →
      s'.userCnt = (s.userCnt + (2 ^ 16 - 1)) % 2 ^ 16 →
      (∀ fd batch, s'.main = .accepted fd batch →
        s.main = .accepted fd batch) → Change s s'

theorem sockets_congr {s s' : Server Thread} (h : s'.clients = s.clients) :
    s'.sockets = s.sockets := by
  funext fd
  rw [sockets, sockets, h]

theorem sockets_setClient (s : Server Thread) (fd : Int) (c : HttpConnector) :
    (s.setClient fd c).sockets
      = Function.update s.sockets fd (some (c.fd, c.status)) := by
  funext fd'
  exact Function.apply_update (fun _ => Option.map fun c : HttpConnector =>
    (c.fd, c.status)) s.clients fd (some c) fd'

theorem sockets_sameSocket {s : Server Thread} {fd : Int}
    {c c' : HttpConnector} (hc : s.clients fd = some c)
    (hsame : c.SameSocket c') : (s.setClient fd c').sockets = s.sockets := by
  rw [sockets_setClient, hsame.fd, hsame.status]
  have hold : some (c.fd, c.status) = s.sockets fd := by
    rw [sockets, hc, Option.map_some]
  rw [hold, Function.update_eq_self]

theorem closeConnection_loop {s s' : Server Thread} {fd : Int}
    {stage : CloseStage} (h : s.closeConnection fd stage = some s') :
    s'.main = s.main ∧ s'.listenFd = s.listenFd := by
  cases stage with
  | delFd =>
      obtain ⟨c, -, rfl⟩ := Option.map_eq_some_iff.mp h
      exact ⟨rfl, rfl⟩
  | log =>
      cases h
      exact ⟨rfl, rfl⟩
  | close =>
      obtain ⟨c, -, rfl⟩ := Option.map_eq_some_iff.mp h
      split
      · exact ⟨rfl, rfl⟩
      · exact ⟨rfl, rfl⟩

theorem closeConnection_main {s s' : Server Thread} {fd : Int}
    {stage : CloseStage} (h : s.closeConnection fd stage = some s') :
    s'.main = s.main := (closeConnection_loop h).1

/-- A stage of `_CloseConnection`, and wherever the closing thread goes on
to. -/
theorem closeConnection_change {s s' : Server Thread} {fd : Int}
    {stage : CloseStage} (h : s.closeConnection fd stage = some s')
    {s'' : Server Thread} (hsockets : s''.sockets = s'.sockets)
    (hopened : s''.opened = s'.opened) (hcnt : s''.userCnt = s'.userCnt)
    (hmain : ∀ fd batch, s''.main = .accepted fd batch →
      s.main = .accepted fd batch) : Change s s'' := by
  cases stage with
  | delFd =>
      obtain ⟨c, hc, rfl⟩ := Option.map_eq_some_iff.mp h
      exact .quiet hsockets hopened hcnt hmain
  | log => cases h; exact .quiet hsockets hopened hcnt hmain
  | close =>
      obtain ⟨c, hc, hs'⟩ := Option.map_eq_some_iff.mp h
      split at hs'
      · next hrunning =>
          subst hs'
          refine .close fd c.fd ?_ ?_ hopened hcnt hmain
          · rw [sockets, hc, Option.map_some, hrunning]
          · have hclosed : c.close.fd = c.fd ∧ c.close.status = false := by
              rw [HttpConnector.close, if_pos hrunning]
              exact ⟨rfl, rfl⟩
            rw [hsockets, ← hclosed.1, ← hclosed.2, ← sockets_setClient]
            exact sockets_congr rfl
      · subst hs'
        exact .quiet hsockets hopened hcnt hmain

theorem Step.change [DecidableEq Thread] {s s' : Server Thread}
    {a : ServerLabel Thread} (h : Step s a s') : Change s s' := by
  cases h with
  | wait | turn | acceptEnd | logged =>
      exact .quiet (sockets_congr rfl) rfl rfl nofun
  | take | modFd | finish =>
      exact .quiet (sockets_congr rfl) rfl rfl fun _ _ h => h
  | dispatch _ hd =>
      obtain ⟨-, rfl⟩ | ⟨-, rfl | ⟨kind, rfl⟩ | ⟨-, rfl⟩⟩ := dispatch_cases hd
      · exact .quiet (sockets_congr rfl) rfl rfl nofun
      · exact .quiet (sockets_congr rfl) rfl rfl nofun
      · exact .quiet (sockets_congr rfl) rfl rfl nofun
      · exact .quiet (sockets_congr rfl) rfl rfl nofun
  | @accept fd batch _ _ _ hfree =>
      exact .accept fd batch hfree (sockets_congr rfl) rfl rfl rfl
  | @addConnection s' fresh fd batch hmain _ ha =>
      obtain ⟨-, rfl⟩ | ⟨hroom, rfl⟩ := addConnection_cases ha
      · exact .quiet (sockets_congr rfl) rfl rfl nofun
      · refine .init fd batch hmain hroom ?_ rfl rfl nofun
        have hset := sockets_setClient s fd
          (((s.clients fd).getD fresh).init fd)
        exact (sockets_congr rfl).trans hset
  | addFd _ _ ha =>
      obtain ⟨u, -, ha⟩ := bind_ok_iff.mp ha
      cases ha
      exact .quiet (sockets_congr rfl) rfl rfl nofun
  | @close s' stage fd batch hmain hcl =>
      refine closeConnection_change hcl (sockets_congr rfl) rfl rfl ?_
      intro fd' batch' h
      cases stage <;> cases h
  | read _ hc hr =>
      exact .quiet (sockets_sameSocket hc (HttpConnector.read_sameSocket hr))
        rfl rfl fun _ _ h => h
  | process _ hc hp =>
      exact .quiet
        (sockets_sameSocket hc (HttpConnector.process_sameSocket hp))
        rfl rfl fun _ _ h => h
  | write _ hc hw =>
      exact .quiet (sockets_sameSocket hc (HttpConnector.write_returns hw).1)
        rfl rfl fun _ _ h => h
  | @closeBy s' t stage fd _ hcl =>
      have hmain : s'.main = s.main := closeConnection_main hcl
      refine closeConnection_change hcl (sockets_congr rfl) rfl rfl ?_
      exact fun fd batch h => hmain ▸ h

/-! ## The invariant -/

/-- A running connector holds the descriptor it is stored under, which is
open; a descriptor just accepted has no running connector yet; and the count
is the number of running connectors. -/
structure Counted (s : Server Thread) : Prop where
  socket : ∀ fd n, s.sockets fd = some (n, true) →
    n = fd ∧ s.opened fd = true
  arriving : ∀ fd batch, s.main = .accepted fd batch →
    s.opened fd = true ∧ ∀ n, s.sockets fd ≠ some (n, true)
  count : s.alive.encard = s.userCnt
  bounded : s.userCnt ≤ maxClients

theorem alive_update_true {s s' : Server Thread} {fd n : Int}
    (h : s'.sockets = Function.update s.sockets fd (some (n, true))) :
    s'.alive = insert fd s.alive := by
  ext fd'
  rw [Set.mem_insert_iff, mem_alive, mem_alive, h]
  by_cases hfd : fd' = fd
  · subst hfd
    simp
  · simp [hfd]

theorem alive_update_false {s s' : Server Thread} {fd n : Int}
    (h : s'.sockets = Function.update s.sockets fd (some (n, false))) :
    s'.alive = s.alive \ {fd} := by
  ext fd'
  rw [Set.mem_sdiff, Set.mem_singleton_iff, mem_alive, mem_alive, h]
  by_cases hfd : fd' = fd
  · subst hfd
    simp
  · simp [hfd]

theorem alive_congr {s s' : Server Thread} (h : s'.sockets = s.sockets) :
    s'.alive = s.alive := by
  ext fd
  rw [mem_alive, mem_alive, h]

/-- How a step changes the count: there is room for one more when it goes up,
and somebody to leave when it goes down. -/
theorem Change.userCnt {s s' : Server Thread} (h : Change s s')
    (hs : s.Counted) :
    s'.userCnt = s.userCnt ∧ s'.alive = s.alive ∨
    (∃ fd, fd ∉ s.alive ∧ s'.alive = insert fd s.alive ∧
      s.userCnt < maxClients ∧ s'.userCnt = s.userCnt + 1) ∨
    ∃ fd ∈ s.alive, s'.alive = s.alive \ {fd} ∧
      s'.userCnt + 1 = s.userCnt := by
  have hmax : s.userCnt ≤ 65535 := hs.bounded
  cases h with
  | quiet hsockets _ hcnt _ => exact .inl ⟨hcnt, alive_congr hsockets⟩
  | accept _ _ _ hsockets _ hcnt => exact .inl ⟨hcnt, alive_congr hsockets⟩
  | init fd batch hmain hroom hsockets _ hcnt _ =>
      have hnew : fd ∉ s.alive := fun hmem => by
        obtain ⟨n, hn⟩ := mem_alive.mp hmem
        exact (hs.arriving fd batch hmain).2 n hn
      have hlt : s.userCnt < 65535 := hroom
      exact .inr (.inl ⟨fd, hnew, alive_update_true hsockets, hroom, by omega⟩)
  | close fd n hrunning hsockets _ hcnt _ =>
      have hmem : fd ∈ s.alive := mem_alive.mpr ⟨n, hrunning⟩
      have hone : 1 ≤ s.alive.encard :=
        Set.one_le_encard_iff_nonempty.mpr ⟨fd, hmem⟩
      rw [hs.count] at hone
      have hpos : 1 ≤ s.userCnt := by exact_mod_cast hone
      exact .inr (.inr ⟨fd, hmem, alive_update_false hsockets, by omega⟩)

theorem Change.count {s s' : Server Thread} (h : Change s s')
    (hs : s.Counted) :
    s'.alive.encard = s'.userCnt ∧ s'.userCnt ≤ maxClients := by
  have hmax := hs.bounded
  rcases h.userCnt hs with ⟨hcnt, halive⟩ | ⟨fd, hnew, halive, hroom, hcnt⟩ |
    ⟨fd, hmem, halive, hcnt⟩
  · rw [halive, hcnt]
    exact ⟨hs.count, hmax⟩
  · rw [halive, hcnt, Set.encard_insert_of_notMem hnew, hs.count]
    exact ⟨rfl, hroom⟩
  · rw [halive, Set.encard_sdiff_singleton_of_mem hmem, hs.count, ← hcnt]
    refine ⟨?_, by omega⟩
    rw [Nat.cast_add, Nat.cast_one]
    exact (ENat.addLECancellable_of_ne_top
      ENat.one_ne_top).add_tsub_cancel_right

/-- A running connector still holds its own open descriptor. -/
theorem Change.socket {s s' : Server Thread} (h : Change s s')
    (hs : s.Counted) : ∀ fd n, s'.sockets fd = some (n, true) →
      n = fd ∧ s'.opened fd = true := by
  cases h with
  | quiet hsockets hopened _ _ =>
      rw [hsockets, hopened]
      exact hs.socket
  | accept fd batch hfree hsockets hopened _ _ =>
      intro fd' n hn
      rw [hsockets] at hn
      obtain ⟨hfd, hopen⟩ := hs.socket fd' n hn
      refine ⟨hfd, ?_⟩
      rw [hopened, Function.update_apply, hopen, ite_self]
  | init fd batch hmain _ hsockets hopened _ _ =>
      intro fd' n hn
      rw [hsockets] at hn
      rw [hopened]
      by_cases hfd : fd' = fd
      · subst hfd
        rw [Function.update_self] at hn
        cases hn
        exact ⟨rfl, (hs.arriving fd' batch hmain).1⟩
      · rw [Function.update_of_ne hfd] at hn
        exact hs.socket fd' n hn
  | close fd n hrunning hsockets hopened _ _ =>
      intro fd' n' hn
      rw [hsockets] at hn
      obtain ⟨rfl, -⟩ := hs.socket fd n hrunning
      by_cases hfd : fd' = n
      · subst hfd
        rw [Function.update_self] at hn
        cases hn
      · rw [Function.update_of_ne hfd] at hn
        rw [hopened, Function.update_of_ne hfd]
        exact hs.socket fd' n' hn

/-- A descriptor just accepted is open and nobody's yet. -/
theorem Change.arriving {s s' : Server Thread} (h : Change s s')
    (hs : s.Counted) : ∀ fd batch, s'.main = .accepted fd batch →
      s'.opened fd = true ∧ ∀ n, s'.sockets fd ≠ some (n, true) := by
  cases h with
  | quiet hsockets hopened _ hmain =>
      intro fd batch hm
      rw [hsockets, hopened]
      exact hs.arriving fd batch (hmain fd batch hm)
  | accept fd batch hfree hsockets hopened _ hmain =>
      intro fd' batch' hm
      rw [hmain] at hm
      cases hm
      refine ⟨by rw [hopened, Function.update_self], fun n hn => ?_⟩
      -- A running connector's descriptor is open, this one was not.
      rw [hsockets] at hn
      rw [(hs.socket fd n hn).2] at hfree
      cases hfree
  | init _ _ _ _ _ _ _ hmain => exact fun fd batch hm => absurd hm (hmain _ _)
  | close fd n hrunning hsockets hopened _ hmain =>
      intro fd' batch hm
      obtain ⟨hopen, hidle⟩ := hs.arriving fd' batch (hmain fd' batch hm)
      obtain ⟨rfl, -⟩ := hs.socket fd n hrunning
      have hne : fd' ≠ n := fun he => hidle n (by rw [he]; exact hrunning)
      rw [hsockets, hopened, Function.update_of_ne hne,
        Function.update_of_ne hne]
      exact ⟨hopen, hidle⟩

theorem Change.counted {s s' : Server Thread} (h : Change s s')
    (hs : s.Counted) : s'.Counted := by
  obtain ⟨hcount, hbounded⟩ := h.count hs
  exact ⟨h.socket hs, h.arriving hs, hcount, hbounded⟩

/-! ## Every run -/

variable [DecidableEq Thread]

/-- The server's runs, with any connector being closed at any time besides:
`.inr fd` is a `Close` of the connector under `fd`, by whomever. -/
def closingSystem : TransitionSystem (Server Thread)
    (ServerLabel Thread ⊕ Int) where
  init := system.init
  step s a s' := match a with
    | .inl a => Step s a s'
    | .inr fd => s.closeConnection fd .close = some s'

theorem closing_change {s s' : Server Thread} {a : ServerLabel Thread ⊕ Int}
    (h : closingSystem.step s a s') : Change s s' := by
  cases a with
  | inl a => exact Step.change h
  | inr fd =>
      have hmain := closeConnection_main h
      exact closeConnection_change h rfl rfl rfl fun _ _ hm => hmain ▸ hm

theorem closing_of_reachable {s : Server Thread} (hs : system.Reachable s) :
    closingSystem.Reachable s := by
  induction hs with
  | start h => exact .start h
  | @next _ _ a _ h ih => exact ih.next (a := .inl a) h

theorem counted_reachable {s : Server Thread}
    (hs : closingSystem.Reachable s) : s.Counted := by
  refine hs.invariant (I := Counted) ?_ ?_
  · rintro s ⟨hclients, hcnt, -, -, hmain, -, -⟩
    have hnone : ∀ fd, s.sockets fd = none := fun fd => by
      rw [sockets, hclients fd, Option.map_none]
    refine ⟨fun fd n hn => ?_, fun fd batch hm => ?_, ?_, ?_⟩
    · rw [hnone fd] at hn
      cases hn
    · rw [hmain] at hm
      cases hm
    · have hempty : s.alive = ∅ := by
        ext fd
        rw [mem_alive, hnone fd]
        simp
      rw [hempty, Set.encard_empty, hcnt]
      rfl
    · rw [hcnt]
      exact Nat.zero_le _
  · exact fun s a s' _ ih hstep => (closing_change hstep).counted ih

end Server

/-- In every run of the server, with any connector closed by anybody at any
time: the count is the number of running connectors, it is at most
`MAX_CLIENTS`, and every step leaves it alone or takes it up or down by one,
so that it never wraps. -/
theorem userCnt_exact {Thread : Type} [DecidableEq Thread]
    {s : Server Thread} (hs : Server.closingSystem.Reachable s) :
    { fd | ∃ c, s.clients fd = some c ∧ c.status = true }.Finite ∧
    { fd | ∃ c, s.clients fd = some c ∧ c.status = true }.ncard
      = s.userCnt ∧
    s.userCnt ≤ Server.maxClients ∧
    ∀ a s', Server.closingSystem.step s a s' →
      s'.userCnt = s.userCnt ∨ s'.userCnt = s.userCnt + 1 ∨
        s'.userCnt + 1 = s.userCnt := by
  have hinv := Server.counted_reachable hs
  have hcount := hinv.count
  refine ⟨Set.finite_of_encard_eq_coe hcount, ?_, hinv.bounded, ?_⟩
  · show s.alive.ncard = s.userCnt
    rw [Set.ncard, hcount, ENat.toNat_natCast]
  · intro a s' hstep
    rcases (Server.closing_change hstep).userCnt hinv with ⟨hcnt, -⟩ |
      ⟨fd, -, -, -, hcnt⟩ | ⟨fd, -, -, hcnt⟩
    · exact .inl hcnt
    · exact .inr (.inl hcnt)
    · exact .inr (.inr hcnt)

/-- Two clients, and the first of them closed twice. -/
theorem userCnt_exact_twice :
    let s : Server Bool := ((Server.crowd 2).closeConnection 4 .close).getD
      (Server.crowd 2)
    { fd | ∃ c, s.clients fd = some c ∧ c.status = true }.Finite ∧
    { fd | ∃ c, s.clients fd = some c ∧ c.status = true }.ncard
      = s.userCnt ∧
    s.userCnt ≤ Server.maxClients ∧
    ∀ a s', Server.closingSystem.step s a s' →
      s'.userCnt = s.userCnt ∨ s'.userCnt = s.userCnt + 1 ∨
        s'.userCnt + 1 = s.userCnt := by
  intro s
  have hcrowd : Server.closingSystem.Reachable (Server.crowd 2) :=
    Server.closing_of_reachable
      (Server.crowd_reachable (by decide)).of_restrict
  have hclosed : Server.closingSystem.Reachable s :=
    hcrowd.next (a := .inr 4) rfl
  have hs : Server.closingSystem.Reachable s :=
    hclosed.next (a := .inr 4) rfl
  exact userCnt_exact hs

end TinyWebServer
