import TinyWebServer.Model.Server

/-!
# The listening socket

What the kernel keeps of it: the connections that wait for `accept`, and
whether an event is due. The socket is registered with `EPOLLET`, so an event
becomes due when a connection arrives and at no other time, and once
`epoll_wait` has reported it there is none until the next one arrives.

An `accept` hands out the first connection that waits, and answers `EAGAIN`
when there is none. It may fail otherwise (`ECONNABORTED`, `EINTR`, `EMFILE`),
whatever waits, and may then have taken the first connection off all the same.
-/

namespace TinyWebServer

open Lib

structure ListenSocket (Conn : Type) where
  backlog : List Conn
  edge : Bool

variable {Thread Conn : Type}

namespace ListenSocket

/-- A client connects. -/
def arrive (k : ListenSocket Conn) (conn : Conn) : ListenSocket Conn :=
  { backlog := k.backlog ++ [conn], edge := true }

/-- What a step of the server is to the socket under `listenFd`. -/
inductive Step (listenFd : Int) :
    ListenSocket Conn → ServerLabel Thread → ListenSocket Conn → Prop where
  | reported {k batch} : (∃ e ∈ batch, e.fd = listenFd) → k.edge = true →
      Step listenFd k (.wait batch) { k with edge := false }
  | quiet {k batch} : (∀ e ∈ batch, e.fd ≠ listenFd) →
      Step listenFd k (.wait batch) k
  | connected {k conn rest fd} : k.backlog = conn :: rest →
      Step listenFd k (.accept (.connected fd)) { k with backlog := rest }
  | wouldBlock {k} : k.backlog = [] →
      Step listenFd k (.accept .wouldBlock) k
  | failed {k} : Step listenFd k (.accept .failed) k
  | aborted {k conn rest} : k.backlog = conn :: rest →
      Step listenFd k (.accept .failed) { k with backlog := rest }
  | other {k a} : (∀ batch, a ≠ .wait batch) → (∀ result, a ≠ .accept result) →
      Step listenFd k a k

end ListenSocket

/-- The server and the socket it listens on. -/
structure Listening (Thread Conn : Type) where
  server : Server Thread
  socket : ListenSocket Conn

inductive ListeningLabel (Thread Conn : Type) where
  | arrive (conn : Conn)
  | serve (a : ServerLabel Thread)

namespace Listening

variable [DecidableEq Thread]

inductive Step : Listening Thread Conn → ListeningLabel Thread Conn →
    Listening Thread Conn → Prop where
  | arrive {l conn} :
      Step l (.arrive conn) { l with socket := l.socket.arrive conn }
  | serve {l a s' k'} : l.server.Step a s' →
      l.socket.Step l.server.listenFd a k' → Step l (.serve a) ⟨s', k'⟩

/-- Every run of the two; who connected before the socket was registered is
reported like anyone else. -/
def system : TransitionSystem (Listening Thread Conn)
    (ListeningLabel Thread Conn) where
  init l := Server.system.init l.server ∧
    (l.socket.backlog ≠ [] → l.socket.edge = true)
  step := Step

end Listening

end TinyWebServer
