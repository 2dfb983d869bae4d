import TinyWebServer.Lib.Refinement
import Mathlib.Data.List.Forall2

/-!
# Taking turns on a connection

The answering side of a connection on which the two ends take turns: it
receives, makes one answer to all it has received, and sends the answer in as
many pieces as it takes before it receives again. That is what a connection
is for, whoever does the work and however many threads share it; what counts
as an answer is a parameter, and so is what is received and what is sent.

The books of a connection are what was received, what was answered and what
was sent since it was opened. `Step.settled` keeps them in order: what was
sent and what is still to be sent make up the answers, and the answers answer
what was received, one to one.
-/

namespace TinyWebServer.Lib

variable {α β : Type _}

/-- What was received and not answered, and what of the answer was not
sent. -/
structure Exchange (α β : Type _) where
  inbox : List α
  outbox : List β

namespace Exchange

/-- What an onlooker sees. -/
inductive Event (α β : Type _) where
  | connect
  | receive (s : List α)
  | answer (wire : List β)
  | send (s : List β)
  | disconnect

/-- An open connection, or none. -/
inductive Step (answers : List α → List β → Prop) :
    Option (Exchange α β) → Event α β → Option (Exchange α β) → Prop where
  | connect : Step answers none .connect (some ⟨[], []⟩)
  | receive (s : List α) :
      Step answers (some ⟨[], []⟩) (.receive s) (some ⟨s, []⟩)
  | answer {inbox : List α} {wire : List β} : inbox ≠ [] → answers inbox wire →
      Step answers (some ⟨inbox, []⟩) (.answer wire) (some ⟨[], wire⟩)
  | send (s rest : List β) :
      Step answers (some ⟨[], s ++ rest⟩) (.send s) (some ⟨[], rest⟩)
  | disconnect (e : Exchange α β) : Step answers (some e) .disconnect none

def system (answers : List α → List β → Prop) :
    TransitionSystem (Option (Exchange α β)) (Event α β) where
  init e := e = none
  step := Step answers

/-! ## The books -/

/-- What was received in one turn; a turn in which nothing came is none. -/
def turn : List α → List (List α)
  | [] => []
  | x :: s => [x :: s]

/-- What went over the connection that is open, or was last. -/
structure Ledger (α β : Type _) where
  requests : List (List α)
  replies : List (List β)
  sent : List β

def Ledger.next (l : Ledger α β) : Event α β → Ledger α β
  | .connect => ⟨[], [], []⟩
  | .receive s => { l with requests := l.requests ++ turn s }
  | .answer wire => { l with replies := l.replies ++ [wire] }
  | .send s => { l with sent := l.sent ++ s }
  | .disconnect => l

def ledger (events : List (Event α β)) : Ledger α β :=
  events.foldl Ledger.next ⟨[], [], []⟩

theorem ledger_snoc (events : List (Event α β)) (e : Event α β) :
    ledger (events ++ [e]) = (ledger events).next e := by
  rw [ledger, List.foldl_append]
  rfl

/-- The books against what is in hand: only the last turn may be without an
answer, and only the last answer not sent to its end. -/
structure Settled (answers : List α → List β → Prop) (e : Exchange α β)
    (l : Ledger α β) : Prop where
  sent : l.sent ++ e.outbox = l.replies.flatten
  replied : ∃ done, l.requests = done ++ turn e.inbox ∧
    List.Forall₂ answers done l.replies

/-- Of a connection that is closed nothing is known but that its books were in
order when it was. -/
def Books (answers : List α → List β → Prop) (x : Option (Exchange α β))
    (l : Ledger α β) : Prop :=
  ∃ e, (x = none ∨ x = some e) ∧ Settled answers e l

variable {answers : List α → List β → Prop}

theorem settled_idle : Settled answers ⟨[], []⟩ (⟨[], [], []⟩ : Ledger α β) :=
  ⟨rfl, [], rfl, .nil⟩

theorem Step.books {x y : Option (Exchange α β)} {event : Event α β}
    {l : Ledger α β} (h : Step answers x event y) (hl : Books answers x l) :
    Books answers y (l.next event) := by
  obtain ⟨e, he, hsent, done, hdone, hreplied⟩ := hl
  cases h with
  | connect => exact ⟨⟨[], []⟩, .inr rfl, settled_idle⟩
  | receive s =>
      rcases he with he | he
      · cases he
      · cases he
        refine ⟨⟨s, []⟩, .inr rfl, hsent, done, ?_, hreplied⟩
        rw [Ledger.next, hdone, turn, List.append_nil]
  | @answer inbox wire hne hanswer =>
      rcases he with he | he
      · cases he
      · cases he
        refine ⟨⟨[], wire⟩, .inr rfl, ?_, done ++ [inbox], ?_, ?_⟩
        · rw [List.append_nil] at hsent
          rw [Ledger.next, hsent, List.flatten_append, List.flatten_singleton]
        · cases inbox with
          | nil => exact absurd rfl hne
          | cons b inbox => rw [Ledger.next, hdone, turn, turn, List.append_nil]
        · exact List.rel_append hreplied (.cons hanswer .nil)
  | send s rest =>
      rcases he with he | he
      · cases he
      · cases he
        refine ⟨⟨[], rest⟩, .inr rfl, ?_, done, hdone, hreplied⟩
        rw [Ledger.next, List.append_assoc, hsent]
  | disconnect e₀ =>
      exact ⟨e, .inl rfl, hsent, done, hdone, hreplied⟩

theorem books_ledger {x y : Option (Exchange α β)}
    {events : List (Event α β)}
    (hx : x = none) (h : (system answers).Run x events y) :
    Books answers y (ledger events) := by
  refine h.invariant (I := fun events y => Books answers y (ledger events))
    ⟨⟨[], []⟩, .inl hx, settled_idle⟩ ?_
  intro events y event z hbooks hstep
  rw [ledger_snoc]
  exact hstep.books hbooks

/-- Whatever the state of the connection, what was sent is the answers as far
as it goes, and each answer is the answer to its own turn. -/
theorem Books.answered {x : Option (Exchange α β)} {l : Ledger α β}
    (h : Books answers x l) :
    l.sent <+: l.replies.flatten ∧
    ∃ done, done <+: l.requests ∧ l.requests.length ≤ done.length + 1 ∧
      List.Forall₂ answers done l.replies := by
  obtain ⟨e, -, hsent, done, hdone, hreplied⟩ := h
  refine ⟨⟨e.outbox, hsent⟩, done, ⟨turn e.inbox, hdone.symm⟩, ?_, hreplied⟩
  rw [hdone, List.length_append]
  cases e.inbox with
  | nil => exact Nat.le_succ _
  | cons b inbox => exact Nat.le_refl _

/-- With nothing in hand, everything that was received was answered and every
answer was sent to its end. -/
theorem Books.complete {l : Ledger α β}
    (h : Books answers (some ⟨[], []⟩) l) :
    l.sent = l.replies.flatten ∧ List.Forall₂ answers l.requests l.replies := by
  obtain ⟨e, he | he, hsent, done, hdone, hreplied⟩ := h
  · cases he
  · cases he
    rw [List.append_nil] at hsent
    rw [turn, List.append_nil] at hdone
    exact ⟨hsent, hdone ▸ hreplied⟩

end Exchange

end TinyWebServer.Lib
