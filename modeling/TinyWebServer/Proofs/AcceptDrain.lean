import TinyWebServer.Model.Backlog
import TinyWebServer.Proofs.UserCount

/-!
# Who is left on the backlog

The listening socket is edge-triggered, so `_HandleNewConnection` has to go on
accepting until there is nobody left: it will be called again only when
somebody else connects. It has three ways out, and one of them is the right
one. An `accept` that fails with anything but `EAGAIN`, and a user count at its
limit, leave whoever stands behind waiting for a stranger.

`accept_drains` says that these two ways out are all that goes wrong. In a run
without them, whoever waits is in for an event, or for the main loop.
-/

namespace TinyWebServer

open Lib

/-- `_HandleNewConnection` is running. -/
def MainLoop.InHandler : MainLoop → Prop
  | .accepting _ | .accepted _ _ | .adding _ _ | .logging _ _ => True
  | .waiting | .dispatching _ | .closing _ _ _ => False

namespace Server

variable {Thread : Type}

/-- The steps on which `_HandleNewConnection` returns. -/
def Exit (s : Server Thread) : ServerLabel Thread → Prop
  | .accept .wouldBlock | .accept .failed => True
  | .addConnection _ => maxClients ≤ s.userCnt
  | _ => False

/-- No `accept` fails but for want of a connection, and there is room for one
more client whenever that is asked. -/
def Unbroken (s : Server Thread) : ServerLabel Thread → Prop
  | .accept .failed => False
  | .addConnection _ => s.userCnt < maxClients
  | _ => True

theorem unbroken_exit {s : Server Thread} {a : ServerLabel Thread}
    (hexit : s.Exit a) : s.Unbroken a ↔ a = .accept .wouldBlock := by
  cases a with
  | accept result =>
      cases result with
      | connected fd => exact hexit.elim
      | wouldBlock => simp [Unbroken]
      | failed => simp [Unbroken]
  | addConnection fresh =>
      simp only [Exit] at hexit
      simp only [Unbroken, reduceCtorEq, iff_false]
      omega
  | _ => exact hexit.elim

theorem unbroken_of_not_exit {s : Server Thread} {a : ServerLabel Thread}
    (hexit : ¬ s.Exit a) : s.Unbroken a := by
  cases a with
  | accept result =>
      cases result with
      | failed => exact hexit trivial
      | _ => exact trivial
  | addConnection fresh => exact Nat.not_le.mp hexit
  | _ => exact trivial

/-- The main loop is going to look at the listening socket, or is at it. -/
def Looking (s : Server Thread) : Prop :=
  s.main.InHandler ∨ ∃ e ∈ s.main.batch, e.fd = s.listenFd

variable [DecidableEq Thread] {s s' : Server Thread} {a : ServerLabel Thread}

/-- The handler is left on an exit and on no other step. -/
theorem Step.handler (h : Step s a s') (hin : s.main.InHandler) :
    (s.Exit a ∧ ¬ s'.main.InHandler) ∨ (¬ s.Exit a ∧ s'.main.InHandler) := by
  cases h with
  | wait hm _ _ | turn hm | dispatch hm _ | close hm _ =>
      rw [hm] at hin
      exact hin.elim
  | accept hm _ _ _ => exact .inr ⟨id, trivial⟩
  | @acceptEnd batch result hm hnone =>
      cases result with
      | connected fd => exact absurd rfl (hnone fd)
      | _ => exact .inl ⟨trivial, id⟩
  | addConnection hm _ ha =>
      obtain ⟨hfull, rfl⟩ | ⟨hroom, rfl⟩ := addConnection_cases ha
      · exact .inl ⟨hfull, id⟩
      · exact .inr ⟨Nat.not_le.mpr hroom, trivial⟩
  | addFd hm _ ha =>
      obtain ⟨u, -, ha⟩ := bind_ok_iff.mp ha
      cases ha
      exact .inr ⟨id, trivial⟩
  | logged hm => exact .inr ⟨id, trivial⟩
  | closeBy _ hc =>
      have hmain : _ = s.main := closeConnection_main hc
      refine .inr ⟨id, ?_⟩
      rw [setWorker, hmain]
      exact hin
  | _ => exact .inr ⟨id, hin⟩

/-- What is going to be looked at stays so until the handler returns. -/
theorem Step.looking (h : Step s a s') (hl : s.Looking) (hexit : ¬ s.Exit a) :
    s'.Looking := by
  by_cases hin : s.main.InHandler
  · obtain ⟨hexit', -⟩ | ⟨-, hin'⟩ := h.handler hin
    · exact absurd hexit' hexit
    · exact .inl hin'
  obtain ⟨e, he, hfd⟩ := hl.resolve_left hin
  cases h with
  | wait hm _ _ | turn hm =>
      rw [hm] at he
      cases he
  | dispatch hm hd =>
      rw [hm] at he
      obtain ⟨hlisten, rfl⟩ | ⟨hother, hd⟩ := dispatch_cases hd
      · exact .inl trivial
      · have he' := (List.mem_cons.mp he).resolve_left
          fun hsame => hother (hsame ▸ hfd)
        obtain rfl | ⟨kind, rfl⟩ | ⟨-, rfl⟩ := hd
        · exact .inr ⟨e, he', hfd⟩
        · exact .inr ⟨e, he', hfd⟩
        · exact .inr ⟨e, he', hfd⟩
  | accept hm _ _ _ | acceptEnd hm _ | addConnection hm _ _ | addFd hm _ _
  | logged hm =>
      rw [hm] at hin
      exact absurd trivial hin
  | @close s₁ stage fd batch hm hc =>
      rw [hm] at he
      refine .inr ⟨e, ?_, hfd.trans (closeConnection_loop hc).2.symm⟩
      cases stage with
      | log => exact he
      | _ => exact he
  | closeBy _ hc =>
      obtain ⟨hmain, hlisten⟩ := closeConnection_loop hc
      refine .inr ⟨e, ?_, hfd.trans hlisten.symm⟩
      rw [setWorker, hmain]
      exact he
  | _ => exact .inr ⟨e, he, hfd⟩

end Server

namespace Listening

variable {Thread Conn : Type}

/-- What `Unbroken` says of the server's steps; who connects meanwhile does not
matter. -/
def Unbroken (l : Listening Thread Conn) : ListeningLabel Thread Conn → Prop
  | .arrive _ => True
  | .serve a => l.server.Unbroken a

/-- Whoever waits on the backlog is in for an event, or for the main loop. -/
def Awaited (l : Listening Thread Conn) : Prop :=
  l.socket.backlog ≠ [] → l.socket.edge = true ∨ l.server.Looking

variable [DecidableEq Thread]

/-- A run, step by step, for as long as `_HandleNewConnection` goes on: the
main loop's steps, the workers' and the arrivals meanwhile, each with the state
it was taken in. -/
inductive Handling (l : Listening Thread Conn) :
    List (Listening Thread Conn × ListeningLabel Thread Conn) →
    Listening Thread Conn → Prop where
  | enter : Handling l [] l
  | next {trace m a m'} : Handling l trace m → m.server.main.InHandler →
      Step m a m' → Handling l (trace ++ [(m, a)]) m'

/-- It returned on an `accept` that had nobody left. -/
def Drained (trace : List (Listening Thread Conn × ListeningLabel Thread Conn))
    (l : Listening Thread Conn) : Prop :=
  (∃ m, trace.getLast? = some (m, .serve (.accept .wouldBlock))) ∧
    l.socket.backlog = []

variable {l m m' : Listening Thread Conn}
  {trace : List (Listening Thread Conn × ListeningLabel Thread Conn)}
  {a : ListeningLabel Thread Conn}

/-- Seen without its socket, the server runs as it does alone. -/
theorem server_reachable (h : system.Reachable l) :
    Server.system.Reachable l.server := by
  induction h with
  | start hinit => exact .start hinit.1
  | next _ hstep ih =>
      cases hstep with
      | arrive => exact ih
      | serve hs _ => exact ih.next hs

/-- A step that stays in the handler breaks nothing. -/
theorem Step.unbroken (h : Step m a m') (hin : m.server.main.InHandler)
    (hin' : m'.server.main.InHandler) : m.Unbroken a := by
  cases h with
  | arrive => trivial
  | serve hs _ =>
      obtain ⟨-, hout⟩ | ⟨hexit, -⟩ := hs.handler hin
      · exact absurd hin' hout
      · exact Server.unbroken_of_not_exit hexit

theorem Handling.unbroken (h : Handling l trace m)
    (hin : m.server.main.InHandler) : ∀ p ∈ trace, p.1.Unbroken p.2 := by
  induction h with
  | enter =>
      intro p hp
      cases hp
  | next _ hbefore hstep ih =>
      intro p hp
      rcases List.mem_append.mp hp with hp | hp
      · exact ih hbefore p hp
      · rw [List.mem_singleton.mp hp]
        exact hstep.unbroken hbefore hin

/-- The step on which the handler returns leaves nobody if it breaks nothing. -/
theorem Step.drained_iff (h : Step m a m') (hin : m.server.main.InHandler)
    (hout : ¬ m'.server.main.InHandler) :
    a = .serve (.accept .wouldBlock) ∧ m'.socket.backlog = [] ↔
      m.Unbroken a := by
  cases h with
  | arrive => exact absurd hin hout
  | @serve a s' k' hs hk =>
      obtain ⟨hexit, -⟩ | ⟨-, hin'⟩ := hs.handler hin
      · rw [Unbroken, Server.unbroken_exit hexit]
        constructor
        · intro hdrained
          cases hdrained.1
          rfl
        · intro ha
          subst ha
          refine ⟨rfl, ?_⟩
          cases hk with
          | wouldBlock hnone => exact hnone
          | other _ hno => exact absurd rfl (hno _)
      · exact absurd hin' hout

theorem Handling.drained_iff (h : Handling l trace m)
    (hin : l.server.main.InHandler) (hout : ¬ m.server.main.InHandler) :
    Drained trace m ↔ ∀ p ∈ trace, p.1.Unbroken p.2 := by
  cases h with
  | enter => exact absurd hin hout
  | @next trace m₀ a _ hbefore hin₀ hstep =>
      have hlast := hstep.drained_iff hin₀ hout
      rw [Drained, List.getLast?_concat]
      constructor
      · intro hdrained p hp
        obtain ⟨⟨m₁, hsame⟩, hnone⟩ := hdrained
        cases hsame
        rcases List.mem_append.mp hp with hp | hp
        · exact hbefore.unbroken hin₀ p hp
        · rw [List.mem_singleton.mp hp]
          exact hlast.mp ⟨rfl, hnone⟩
      · intro hall
        obtain ⟨rfl, hnone⟩ :=
          hlast.mpr (hall (m₀, a) (List.mem_append_right _ List.mem_cons_self))
        exact ⟨⟨m₀, rfl⟩, hnone⟩

/-- One step that breaks nothing. -/
theorem Step.awaited (h : Step m a m') (hfine : m.Unbroken a)
    (hw : m.Awaited) : m'.Awaited := by
  cases h with
  | arrive => exact fun _ => .inl rfl
  | @serve a s' k' hs hk =>
      have hkeep : m.server.Looking → a ≠ .accept .wouldBlock → s'.Looking :=
        fun hl hne => hs.looking hl
          fun hexit => hne ((Server.unbroken_exit hexit).mp hfine)
      intro hsome
      cases hk with
      | reported hlisten _ =>
          cases hs with
          | wait hm _ _ => exact .inr (.inr hlisten)
      | quiet _ => exact (hw hsome).imp_right fun hl => hkeep hl nofun
      | connected hconn =>
          have hbefore : m.socket.backlog ≠ [] := by simp [hconn]
          exact (hw hbefore).imp_right fun hl => hkeep hl nofun
      | wouldBlock hnone => exact absurd hnone hsome
      | failed => exact hfine.elim
      | aborted _ => exact hfine.elim
      | other _ hno =>
          exact (hw hsome).imp_right fun hl => hkeep hl (hno _)

/-- In a run that breaks nothing nobody is left on the backlog. -/
theorem awaited_reachable (h : (system.restrict Unbroken).Reachable l) :
    l.Awaited := by
  refine h.invariant (I := Awaited) ?_ ?_
  · intro l hinit hsome
    exact .inl (hinit.2 hsome)
  · intro l a l' _ hw hstep
    exact hstep.2.awaited hstep.1 hw

/-- `_HandleNewConnection` drains the backlog on exactly the runs that break
nothing, and where no step of the server does, whoever waits is awaited. -/
theorem accept_drains :
    (∀ (l m : Listening Thread Conn) trace, l.server.main.InHandler →
      Handling l trace m → ¬ m.server.main.InHandler →
      (Drained trace m ↔ ∀ p ∈ trace, p.1.Unbroken p.2)) ∧
    ∀ l : Listening Thread Conn, (system.restrict Unbroken).Reachable l →
      l.Awaited :=
  ⟨fun _ _ _ hin h hout => h.drained_iff hin hout,
    fun _ h => awaited_reachable h⟩

/-! ## A burst of two -/

/-- An empty server in `_HandleNewConnection`, and two who have connected. -/
def burst : Listening Bool Nat := ⟨Server.crowd 0, ⟨[0, 1], false⟩⟩

theorem burst_reachable : (system.restrict Unbroken).Reachable burst := by
  let e : Event := ⟨3, true, false, false, false, false⟩
  let waiting : Server Bool := { Server.crowd 0 with main := .waiting }
  let woken : Server Bool := { Server.crowd 0 with main := .dispatching [e] }
  have hinit : (system.restrict Unbroken).Reachable
      (⟨waiting, ⟨[], false⟩⟩ : Listening Bool Nat) :=
    .start ⟨Server.crowd_init, fun h => absurd rfl h⟩
  have hfirst : Step (⟨waiting, ⟨[], false⟩⟩ : Listening Bool Nat)
      (.arrive 0) ⟨waiting, ⟨[0], true⟩⟩ := .arrive
  have hsecond : Step (⟨waiting, ⟨[0], true⟩⟩ : Listening Bool Nat)
      (.arrive 1) ⟨waiting, ⟨[0, 1], true⟩⟩ := .arrive
  have hwait : Step (⟨waiting, ⟨[0, 1], true⟩⟩ : Listening Bool Nat)
      (.serve (.wait [e])) ⟨woken, ⟨[0, 1], false⟩⟩ :=
    .serve (.wait rfl (by decide) rfl)
      (.reported ⟨e, List.mem_cons_self, rfl⟩ rfl)
  have hdispatch : Step (⟨woken, ⟨[0, 1], false⟩⟩ : Listening Bool Nat)
      (.serve .dispatch) burst :=
    .serve (.dispatch rfl rfl) (.other nofun nofun)
  have h₁ := hinit.next_restrict hfirst trivial
  have h₂ := h₁.next_restrict hsecond trivial
  exact (h₂.next_restrict hwait trivial).next_restrict hdispatch trivial

/-- What an `accept` leaves of it that fails with `ECONNABORTED`. -/
def abandoned : Listening Bool Nat :=
  ⟨{ Server.crowd 0 with main := .dispatching [] }, ⟨[1], false⟩⟩

theorem burst_aborted : Step burst (.serve (.accept .failed)) abandoned :=
  .serve (.acceptEnd rfl nofun) (.aborted rfl)

/-- That run breaks something, and the first half of it does not. -/
theorem accept_drains_burst :
    (Drained [(burst, .serve (.accept .failed))] abandoned ↔
      ∀ p ∈ [(burst, .serve (.accept .failed))], p.1.Unbroken p.2) ∧
    burst.Awaited :=
  ⟨accept_drains.1 burst abandoned _ trivial
      (Handling.next .enter trivial burst_aborted) id,
    accept_drains.2 burst burst_reachable⟩

/-- The second client is left on the backlog, with nobody to look there. -/
theorem second_abandoned :
    (¬ ∀ (l m : Listening Bool Nat) trace, system.Reachable l →
      l.server.main.InHandler → Handling l trace m →
      ¬ m.server.main.InHandler → Drained trace m) ∧
    ¬ ∀ l : Listening Bool Nat, system.Reachable l → l.Awaited := by
  have hburst := burst_reachable.of_restrict
  constructor
  · intro hall
    obtain ⟨-, hnone⟩ := hall burst abandoned _ hburst trivial
      (Handling.next .enter trivial burst_aborted) id
    cases hnone
  · intro hall
    have hsome : abandoned.socket.backlog ≠ [] := by simp [abandoned]
    rcases hall abandoned (hburst.next burst_aborted) hsome with hedge | hlook
    · cases hedge
    · obtain hin | ⟨e, he, -⟩ := hlook
      · exact hin
      · cases he

end Listening

end TinyWebServer
