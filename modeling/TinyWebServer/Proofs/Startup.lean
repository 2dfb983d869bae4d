import TinyWebServer.Model.Startup
import TinyWebServer.Proofs.Service

/-!
# A server that starts, and one that starts deaf

`_InitListenSocket` looks at what six of its calls answered, each time through
`LISTEN_CLOSE`. Two of the six tests cannot fail: the first is on a variable
that `socket` is not assigned to, and `addFd` answers one or zero. The first
does no harm, since the process does not get past `_SetNoBlock` without a
socket. After the second the server may run on a socket that epoll does not
know, and then no client is ever heard.
-/

namespace TinyWebServer

open Lib

namespace SetupScript

variable {answer : SetupCall → Int}

/-- Everything that is looked at went well. -/
structure SetUp (port : Int) (answer : SetupCall → Int) : Prop where
  low : 1024 ≤ port
  high : port ≤ 65535
  linger : 0 ≤ answer (.setLinger (answer .socket))
  reuse : 0 ≤ answer (.setReuse (answer .socket))
  bind : 0 ≤ answer (.bind (answer .socket) port)
  listen : 0 ≤ answer (.listen (answer .socket) 5)

/-- The descriptors that are closed on the way. -/
def closed (calls : List SetupCall) : List Int :=
  calls.filterMap fun
    | .close fd => some fd
    | _ => none

/-- A script that closes `fd` if it gives up, and nothing otherwise. -/
def Tidy (answer : SetupCall → Int) (fd : Int)
    (script : SetupScript (Except Fault (Int × Bool))) : Prop :=
  closed (script.calls answer)
    = if script.run answer = .ok (fd, false) then [fd] else []

theorem run_ask (op : SetupCall) : (ask op).run answer = answer op := rfl

theorem run_listenClose (ret fd : Int)
    (rest : SetupScript (Except Fault (Int × Bool))) :
    (listenClose ret fd rest).run answer
      = if ret < 0 then .ok (fd, false) else rest.run answer := by
  rw [listenClose]
  split
  · rw [Script.run_bind]
    rfl
  · rfl

theorem tidy_listenClose {ret fd : Int}
    {rest : SetupScript (Except Fault (Int × Bool))}
    (h : Tidy answer fd rest) : Tidy answer fd (listenClose ret fd rest) := by
  rw [Tidy, run_listenClose, listenClose]
  split
  · rw [if_pos rfl]
    rfl
  · exact h

/-- A call that closes nothing. -/
theorem tidy_ask {fd : Int} {op : SetupCall}
    {f : Int → SetupScript (Except Fault (Int × Bool))}
    (hop : ∀ fd', op ≠ .close fd') (h : Tidy answer fd (f (answer op))) :
    Tidy answer fd (ask op >>= f) := by
  rw [Tidy, Script.run_bind, Script.calls_bind, run_ask]
  have hnone : closed ((ask op).calls answer) = [] := by
    cases op with
    | close fd' => exact absurd rfl (hop fd')
    | _ => rfl
  rw [closed, List.filterMap_append, ← closed, ← closed, hnone]
  exact h

theorem run_setNoBlock (fd : Int) :
    (setNoBlock fd).run answer
      = if 0 < fd then .ok (answer (.setNonblock fd (answer (.getFlags fd))))
        else .error (.assertFailed .setNoBlock) := by
  rw [setNoBlock]
  by_cases hpos : 0 < fd
  · rw [check_pos hpos, if_pos hpos]
    rfl
  · rw [check_neg hpos, if_neg hpos]
    rfl

/-- The end of `_InitListenSocket`. -/
theorem tidy_setNoBlock (fd : Int) : Tidy answer fd (do
    let done ← setNoBlock fd
    pure (done.map fun _ => (fd, true))) := by
  rw [Tidy, Script.run_bind, run_setNoBlock, Script.calls_bind, setNoBlock]
  by_cases hpos : 0 < fd
  · rw [check_pos hpos, if_pos hpos]
    refine (if_neg fun h => ?_).symm
    cases h
  · rw [check_neg hpos, if_neg hpos]
    refine (if_neg fun h => ?_).symm
    cases h

/-- With a port to listen on, whatever the kernel answers: `_InitListenSocket`
closes its socket when it gives up, and no descriptor otherwise. -/
theorem tidy_initListenSocket (answer : SetupCall → Int) {port : Int}
    (garbage : Int) (hlow : 1024 ≤ port) (hhigh : port ≤ 65535) :
    Tidy answer (answer .socket) (initListenSocket port garbage) := by
  rw [initListenSocket, if_neg (by omega)]
  refine tidy_ask (by simp) (tidy_listenClose ?_)
  refine tidy_ask (by simp) (tidy_listenClose ?_)
  refine tidy_ask (by simp) (tidy_listenClose ?_)
  refine tidy_ask (by simp) (tidy_listenClose ?_)
  refine tidy_ask (by simp) (tidy_listenClose ?_)
  show Tidy answer _ (ask (.epollAdd (answer .socket)) >>= fun ret =>
    listenClose (if ret = 0 then 1 else 0) (answer .socket) _)
  exact tidy_ask (by simp) (tidy_listenClose (tidy_setNoBlock _))

theorem listenClose_ok {ret fd fd' : Int}
    {rest : SetupScript (Except Fault (Int × Bool))} :
    (listenClose ret fd' rest).run answer = .ok (fd, true) ↔
      0 ≤ ret ∧ rest.run answer = .ok (fd, true) := by
  rw [run_listenClose]
  split
  · simp only [Except.ok.injEq, Prod.mk.injEq, Bool.false_eq_true, and_false,
      false_iff, not_and]
    omega
  · next hret => exact ⟨fun h => ⟨Int.not_lt.mp hret, h⟩, And.right⟩

/-- It answers true when everything that is looked at went well, and the
descriptor is not zero, which is where `_SetNoBlock` stops the process. -/
theorem initListenSocket_ok {port garbage fd : Int} :
    (initListenSocket port garbage).run answer = .ok (fd, true) ↔
      SetUp port answer ∧ fd = answer .socket ∧ 0 < fd := by
  rw [initListenSocket]
  by_cases hport : 65535 < port ∨ port < 1024
  · rw [if_pos hport]
    constructor
    · intro h
      cases h
    · intro h
      have hsetup := h.1
      have hlow := hsetup.low
      have hhigh := hsetup.high
      omega
  rw [if_neg hport]
  simp only [Script.run_bind, run_ask, listenClose_ok, addFd, run_setNoBlock]
  have hadded : 0 ≤ (if answer (.epollAdd (answer .socket)) = 0 then 1
      else 0 : Int) := by
    split <;> omega
  constructor
  · intro h
    obtain ⟨-, hlinger, hreuse, hbind, hlisten, -, hlast⟩ := h
    by_cases hpos : 0 < answer .socket
    · rw [if_pos hpos] at hlast
      cases hlast
      exact ⟨⟨by omega, by omega, hlinger, hreuse, hbind, hlisten⟩, rfl, hpos⟩
    · rw [if_neg hpos] at hlast
      cases hlast
  · intro h
    obtain ⟨hsetup, rfl, hpos⟩ := h
    refine ⟨le_refl 0, hsetup.linger, hsetup.reuse, hsetup.bind,
      hsetup.listen, hadded, ?_⟩
    rw [if_pos hpos]
    rfl

end SetupScript

namespace Server

variable {Thread : Type} [DecidableEq Thread]

theorem Step.listenFd {s s' : Server Thread} {a : ServerLabel Thread}
    (h : Step s a s') : s'.listenFd = s.listenFd := by
  cases h with
  | wait | turn | accept | acceptEnd | logged | take | read | process | write
  | modFd | finish => rfl
  | dispatch _ hd =>
      obtain ⟨-, rfl⟩ | ⟨-, rfl | ⟨kind, rfl⟩ | ⟨-, rfl⟩⟩ := dispatch_cases hd
      · rfl
      · rfl
      · rfl
      · rfl
  | addConnection _ _ ha =>
      obtain ⟨-, rfl⟩ | ⟨-, rfl⟩ := addConnection_cases ha
      · rfl
      · rfl
  | addFd _ _ ha =>
      obtain ⟨u, -, ha⟩ := bind_ok_iff.mp ha
      cases ha
      rfl
  | close _ hcl | closeBy _ hcl =>
      have hlisten := (closeConnection_loop hcl).2
      exact hlisten

/-- A server that has heard of nobody, and is not about to. -/
structure Deaf (s : Server Thread) : Prop where
  clients : ∀ fd, s.clients fd = none
  opened : ∀ fd, s.opened fd = false
  interest : ∀ fd, s.interest fd = .none
  main : s.main = .waiting ∨ s.main = .dispatching []
  queue : s.queue = []
  workers : ∀ t, s.workers t = .idle

theorem deaf_init {s : Server Thread} (h : system.init s) : s.Deaf := by
  obtain ⟨hclients, -, hinterest, hopened, hmain, hqueue, hworkers⟩ := h
  exact ⟨hclients, hopened, hinterest, .inl hmain, hqueue, hworkers⟩

/-- Epoll has nothing to report but the listening socket. -/
theorem deliver_nothing {listenFd : Int} {interest interest' :
    Int → Registration} {batch : List Event}
    (h : deliver listenFd interest batch = some interest')
    (hnone : ∀ fd, interest fd = .none)
    (hknock : ∀ e ∈ batch, e.fd ≠ listenFd) :
    batch = [] ∧ interest' = interest := by
  cases batch with
  | nil => cases h; exact ⟨rfl, rfl⟩
  | cons e rest =>
      rw [deliver, if_neg (hknock e List.mem_cons_self), hnone] at h
      cases h

theorem Step.deaf {s s' : Server Thread} {a : ServerLabel Thread}
    (h : Step s a s') (hs : s.Deaf)
    (hknock : ∀ batch, a = .wait batch → ∀ e ∈ batch, e.fd ≠ s.listenFd) :
    s'.Deaf := by
  have hmain : ∀ {x}, s.main = x → x = .waiting ∨ x = .dispatching [] :=
    fun hx => hx ▸ hs.main
  have hworker : ∀ {t x}, s.workers t = x → x = .idle :=
    fun hx => hx.symm.trans (hs.workers _)
  cases h with
  | wait _ _ hd =>
      obtain ⟨rfl, rfl⟩ := deliver_nothing hd hs.interest (hknock _ rfl)
      exact { hs with main := .inr rfl }
  | turn => exact { hs with main := .inl rfl }
  | dispatch hm | accept hm | acceptEnd hm | addConnection hm | addFd hm
  | logged hm | close hm => simpa using hmain hm
  | take _ hq =>
      rw [hs.queue] at hq
      cases hq
  | read ht | process ht | write ht | modFd ht | closeBy ht | finish ht =>
      cases hworker ht

/-- In every run of the whole program: the server is in its loop only if the
port is one to listen on and the socket was made, set up, bound and put to
listen on; it is the socket in `_listen_fd`, and nothing was closed on the
way. And if epoll did not take that socket, then whatever happens, nobody is
ever accepted, and the main loop and the workers have nothing to do. -/
theorem heard_only_if_started {port garbage : Int} {answer : SetupCall → Int}
    {s : Server Thread} (hs : (program port garbage answer).Reachable s) :
    SetupScript.SetUp port answer ∧ s.listenFd = answer .socket ∧
      0 < s.listenFd ∧
      SetupScript.closed ((SetupScript.initListenSocket port garbage).calls
        answer) = [] ∧
      (answer (.epollAdd s.listenFd) ≠ 0 → s.Deaf) := by
  have hinv : (SetupScript.initListenSocket port garbage).run answer
        = .ok (s.listenFd, true) ∧
      (answer (.epollAdd s.listenFd) ≠ 0 → s.Deaf) := by
    refine hs.invariant (I := fun s : Server Thread =>
      (SetupScript.initListenSocket port garbage).run answer
          = .ok (s.listenFd, true) ∧
        (answer (.epollAdd s.listenFd) ≠ 0 → s.Deaf)) ?_ ?_
    · intro s hinit
      obtain ⟨hrun, hinit⟩ := hinit
      exact ⟨hrun, fun _ => deaf_init hinit⟩
    · rintro s a s' _ ⟨hrun, ih⟩ ⟨h, hreported⟩
      rw [h.listenFd]
      refine ⟨hrun, fun hout => h.deaf (ih hout) ?_⟩
      intro batch ha e he hfd
      exact hout (hreported batch ha ⟨e, he, hfd⟩)
  obtain ⟨hrun, hdeaf⟩ := hinv
  obtain ⟨hsetup, hfd, hpos⟩ := SetupScript.initListenSocket_ok.mp hrun
  refine ⟨hsetup, hfd, hpos, ?_, hdeaf⟩
  have htidy := SetupScript.tidy_initListenSocket answer garbage hsetup.low
    hsetup.high
  rw [SetupScript.Tidy, hrun] at htidy
  rw [htidy, if_neg (by simp)]

/-- What the kernel answers when there is nothing the matter, but for
`epoll_ctl`. -/
def fullEpoll : SetupCall → Int
  | .socket => 3
  | .epollAdd _ => -1
  | _ => 0

theorem heard_only_if_started_deaf :
    ∃ s : Server Bool, (program 9096 0 fullEpoll).Reachable s ∧
      SetupScript.SetUp 9096 fullEpoll ∧
      s.listenFd = fullEpoll .socket ∧ 0 < s.listenFd ∧
      SetupScript.closed ((SetupScript.initListenSocket 9096 0).calls
        fullEpoll) = [] ∧
      (fullEpoll (.epollAdd s.listenFd) ≠ 0 → s.Deaf) := by
  have hrun : (SetupScript.initListenSocket 9096 0).run fullEpoll
      = .ok (3, true) :=
    SetupScript.initListenSocket_ok.mpr
      ⟨⟨by omega, by omega, le_refl 0, le_refl 0, le_refl 0, le_refl 0⟩, rfl,
        by omega⟩
  have hs : (program 9096 0 fullEpoll).Reachable (⟨3, fun _ => none, 0,
      fun _ => .none, fun _ => false, .waiting, [], fun _ => .idle⟩ :
        Server Bool) :=
    .start ⟨hrun, fun _ => rfl, rfl, fun _ => rfl, fun _ => rfl, rfl, rfl,
      fun _ => rfl⟩
  exact ⟨_, hs, heard_only_if_started hs⟩

end Server

end TinyWebServer
