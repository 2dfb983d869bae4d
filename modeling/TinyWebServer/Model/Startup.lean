import TinyWebServer.Lib.Script
import TinyWebServer.Model.Server

/-!
# The start of the server

`_InitListenSocket` as a script over the system calls it makes, and the runs
of the server that come after it. Each call is made once at most, so one
answer to each is all there is to say about what the kernel did.

`listen_addr` and `Linger` are the same whatever the port is, and are left
out of the calls that take them. What `epoll_ctl` answered has a say in the
runs: a socket that is not in the set is not reported.
-/

namespace TinyWebServer

open Lib

inductive SetupCall where
  | socket
  | setLinger (fd : Int)
  | setReuse (fd : Int)
  | bind (fd : Int) (port : Int)
  | listen (fd : Int) (backlog : Nat)
  | epollAdd (fd : Int)
  | getFlags (fd : Int)
  | setNonblock (fd : Int) (flags : Int)
  | close (fd : Int)
  deriving DecidableEq, Repr

abbrev SetupScript := Script SetupCall fun _ => Int

namespace SetupScript

def ask (op : SetupCall) : SetupScript Int := .call op .ret

/-- `LISTEN_CLOSE`, with what follows it. -/
def listenClose (ret listenFd : Int)
    (rest : SetupScript (Except Fault (Int × Bool))) :
    SetupScript (Except Fault (Int × Bool)) :=
  if ret < 0 then do
    let _ ← ask (.close listenFd)
    pure (.ok (listenFd, false))
  else rest

/-- `Epoller::addFd`. -/
def addFd (fd : Int) : SetupScript Int := do
  let ret ← ask (.epollAdd fd)
  pure (if ret = 0 then 1 else 0)

/-- `_SetNoBlock`. -/
def setNoBlock (fd : Int) : SetupScript (Except Fault Int) :=
  match check (0 < fd) .setNoBlock with
  | .error fault => pure (.error fault)
  | .ok _ => do
      let flags ← ask (.getFlags fd)
      let ret ← ask (.setNonblock fd flags)
      pure (.ok ret)

/-- `_InitListenSocket`: what becomes of `_listen_fd`, and the answer. The
first `LISTEN_CLOSE` tests a `ret` that nothing was assigned to. -/
def initListenSocket (port listenFd : Int) :
    SetupScript (Except Fault (Int × Bool)) :=
  if 65535 < port ∨ port < 1024 then
    pure (.ok (listenFd, false))
  else do
    let listenFd ← ask .socket
    listenClose 0 listenFd do
      let ret ← ask (.setLinger listenFd)
      listenClose ret listenFd do
        let ret ← ask (.setReuse listenFd)
        listenClose ret listenFd do
          let ret ← ask (.bind listenFd port)
          listenClose ret listenFd do
            let ret ← ask (.listen listenFd 5)
            listenClose ret listenFd do
              let ret ← addFd listenFd
              listenClose ret listenFd do
                let done ← setNoBlock listenFd
                pure (done.map fun _ => (listenFd, true))

end SetupScript

namespace Server

variable {Thread : Type} [DecidableEq Thread]

/-- `main`: the constructor with these answers, and then `Start`, which does
nothing when `_statue` is false. `garbage` is what `_listen_fd` holds before.
-/
def program (port garbage : Int) (answer : SetupCall → Int) :
    TransitionSystem (Server Thread) (ServerLabel Thread) where
  init s :=
    (SetupScript.initListenSocket port garbage).run answer
      = .ok (s.listenFd, true) ∧ system.init s
  step s a s' := Step s a s' ∧ ∀ batch, a = .wait batch →
    (∃ e ∈ batch, e.fd = s.listenFd) → answer (.epollAdd s.listenFd) = 0

end Server

end TinyWebServer
