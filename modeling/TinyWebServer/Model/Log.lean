import TinyWebServer.Lib.Locked
import TinyWebServer.Model.Basic
import TinyWebServer.Model.BlockDeque

/-!
# `Log`

A thread that logs puts the line together by itself and pushes it into the
deque; the log thread pops the lines and prints them. The threads of the
server are `some t` in the deque, and `none` is the log thread.

The model begins where `Init` has ended: the constructor of the server calls
it before there is a second thread. `~Log` runs once, on any thread. The log
thread is detached and nobody waits for it; what becomes of it once `~Log` has
ended, and the deque is gone, is not in the model.
-/

namespace TinyWebServer

open Lib

inductive LogLevel where
  | info
  | warning
  | fatal
  | error
  deriving DecidableEq, Repr

/-- `#level` -/
def LogLevel.text : LogLevel → Bytes
  | .info => lit "INFO"
  | .warning => lit "WARNING"
  | .fatal => lit "FATAL"
  | .error => lit "ERROR"

/-- `LogStr`, with what `ctime` and `get_id` answered. -/
def logStr (level message filename : Bytes) (line : Nat)
    (timeStr thread : Bytes) : Bytes :=
  let timeStr :=
    if timeStr.getLast? = some 10 then timeStr.dropLast else timeStr
  lit "[" ++ level ++ lit "][" ++ timeStr ++ lit "][" ++ lit "thread:" ++
    thread ++ lit "](" ++ filename ++ lit ":" ++ lit (toString line) ++
    lit ") " ++ message

/-- A use of one of the `LOG` macros: `formatted` is the text before `snprintf`
cuts it off. -/
structure LogCall where
  level : LogLevel
  formatted : Bytes
  filename : Bytes
  line : Nat
  timeStr : Bytes
  thread : Bytes

namespace LogCall

/-- `char buffer[1024]`, as a string. -/
def buffer (c : LogCall) : Bytes :=
  (c.formatted.take 1023).takeWhile (· ≠ 0)

/-- What `LOG_BASE` hands to `Write`. -/
def msg (c : LogCall) : Bytes :=
  logStr c.level.text c.buffer c.filename c.line c.timeStr c.thread

end LogCall

inductive LogStatue where
  | logOpen
  | logClose
  deriving DecidableEq, Repr

/-- Where the log thread stands in its loop: at the test of `_statue`, in
`pop_front`, at the console, or out of the loop. -/
inductive LogReader where
  | testing
  | popping
  | printing (str : Bytes)
  | returned

/-- Where another thread stands: past `OpenCheck` and in `Write`, in `Flush`,
or in `~Log` and past the change of `_statue`. -/
inductive LogWriter where
  | outside
  | writing (msg : Bytes)
  | flushing
  | closing

structure LogSystem (Thread : Type) where
  statue : LogStatue
  bq : DequeSystem (Option Thread) Bytes
  logThread : LogReader
  writers : Thread → LogWriter
  console : List Bytes

inductive LogLabel (Thread : Type) where
  | log (t : Thread) (call : LogCall)
  | write (t : Thread)
  | flush (t : Thread)
  | test
  | pop
  | print
  -- `~Log`: `_statue`, and then `Close`
  | destroy (t : Thread)
  | close (t : Thread)

namespace LogSystem

variable {Thread : Type} [DecidableEq Thread]

def setWriter (s : LogSystem Thread) (t : Thread) (x : LogWriter) :
    LogSystem Thread :=
  { s with writers := Function.update s.writers t x }

/-- A step of `push_back` or `pop_front` is the call or a wake-up; it waits, or
it has returned. A `LOG` on a closed log does nothing and is no step. -/
inductive Step : LogSystem Thread → LogLabel Thread → LogSystem Thread → Prop
    where
  | log {s} (t : Thread) (call : LogCall) : s.statue = .logOpen →
      s.writers t = .outside →
      Step s (.log t call) (s.setWriter t (.writing call.msg))
  | writeWait {s t msg a bq} : s.writers t = .writing msg →
      a = .callPush (some t) msg ∨ a = .wakePush (some t) →
      DequeSystem.Step s.bq a bq → bq.pushed = s.bq.pushed →
      Step s (.write t) { s with bq }
  | write {s t msg a bq} : s.writers t = .writing msg →
      a = .callPush (some t) msg ∨ a = .wakePush (some t) →
      DequeSystem.Step s.bq a bq → bq.pushed = s.bq.pushed ++ [msg] →
      Step s (.write t) ({ s with bq }.setWriter t .flushing)
  | flush {s t} : s.writers t = .flushing →
      Step s (.flush t) (s.setWriter t .outside)
  | testClose {s} : s.logThread = .testing → s.statue = .logClose →
      Step s .test { s with logThread := .returned }
  | testOpen {s} : s.logThread = .testing → s.statue = .logOpen →
      Step s .test { s with logThread := .popping }
  | popWait {s a bq} : s.logThread = .popping →
      a = .callPop none ∨ a = .wakePop none → DequeSystem.Step s.bq a bq →
      bq.place none = .popAsleep → Step s .pop { s with bq }
  -- `pop_front` answers false.
  | popClosed {s a bq} : s.logThread = .popping →
      a = .callPop none ∨ a = .wakePop none → DequeSystem.Step s.bq a bq →
      bq.place none = .outside → bq.popped = s.bq.popped →
      Step s .pop { s with bq, logThread := .testing }
  | pop {s a bq str} : s.logThread = .popping →
      a = .callPop none ∨ a = .wakePop none → DequeSystem.Step s.bq a bq →
      bq.place none = .outside → bq.popped = s.bq.popped ++ [str] →
      Step s .pop { s with bq, logThread := .printing str }
  | print {s str} : s.logThread = .printing str →
      Step s .print
        { s with logThread := .testing, console := s.console ++ [str] }
  | destroy {s} (t : Thread) : s.statue = .logOpen →
      s.writers t = .outside →
      Step s (.destroy t)
        ({ s with statue := .logClose }.setWriter t .closing)
  | closing {s t a bq} : s.writers t = .closing →
      a = .close (some t) ∨ a = .notifyConsumers (some t) →
      DequeSystem.Step s.bq a bq → Step s (.close t) { s with bq }
  | closed {s t bq} : s.writers t = .closing →
      DequeSystem.Step s.bq (.notifyProducers (some t)) bq →
      Step s (.close t) ({ s with bq }.setWriter t .outside)

/-- Every run of the log, from the end of `Init` on. -/
def system (cap : Nat) : TransitionSystem (LogSystem Thread) (LogLabel Thread)
    where
  init s := s.statue = .logOpen ∧ (DequeSystem.system cap).init s.bq ∧
    s.logThread = .testing ∧ (∀ t, s.writers t = .outside) ∧ s.console = []
  step := Step

/-- The runs up to `~Log`. -/
def alive (cap : Nat) : TransitionSystem (LogSystem Thread) (LogLabel Thread) :=
  (system cap).restrict fun _ a => ∀ t, a ≠ .destroy t

/-- `t` comes to a `LOG`. -/
def Begins (t : Thread) (a : LogLabel Thread) : Prop :=
  ∃ call, a = .log t call

/-- `t` is in no `LOG`. -/
def Idle (t : Thread) (s : LogSystem Thread) : Prop := s.writers t = .outside

end LogSystem

/-- The locks that are held across a `LOG`: that of the tasks in `AddTask`,
and that of the connections in `GetConn` and `ReleaseConn`. What comes before
the `LOG` and after it is done by the thread alone; a thread that waits in
`GetConn` has given the lock up, and takes it again before it goes on. -/
inductive OuterMutex where
  | tasks
  | conns
  deriving DecidableEq, Repr

namespace LogSystem

variable {Thread : Type} [DecidableEq Thread]

/-- The log, and around it the sections that log with their lock held. -/
def guarded (cap : Nat) :
    TransitionSystem (Locked (LogSystem Thread) Thread OuterMutex)
      (LockLabel (LogLabel Thread) Thread OuterMutex) :=
  Locked.system (alive cap) Begins Idle

end LogSystem

end TinyWebServer
