import TinyWebServer.Proofs.PoolPartition
import TinyWebServer.Lib.CondVar

/-!
# No wake-up is lost in `SQLPool`

`ReleaseConn` notifies one thread for each connection it puts back, and that
thread may find the connection gone: a thread that never slept can be faster.
It then goes back to sleep, with nothing left to wake up for. Counted over all
threads this never runs dry: while anybody is asleep, there are at least as
many notified threads as there are free connections.
-/

namespace TinyWebServer

open Lib

namespace PoolSystem

variable {Thread Conn : Type}

/-- `_CVpool`, over the phases of the threads. -/
def cvPool : CondVar Phase where
  wake
    | .asleep => some .notified
    | .outside => none
    | .notified => none
  notified ph := ph = .notified
  notified_of_wake := by
    rintro (_ | _ | _) y h <;> cases h
    rfl
  wake_of_notified := by
    rintro (_ | _ | _) h <;> first | rfl | cases h

theorem asleep_cvPool {ph : Phase} : cvPool.Asleep ph ↔ ph = .asleep := by
  cases ph <;> decide

theorem pending_cvPool [Fintype Thread] (phase : Thread → Phase) :
    cvPool.pending phase = population (· = .notified) phase := by
  simp [CondVar.pending, population, cvPool]

/-- Every sleeper is covered by a notified thread or finds nothing free. -/
def Wakeful [Fintype Thread] (s : PoolSystem Thread Conn) : Prop :=
  cvPool.Covered s.phase s.pool.connList.length

variable [DecidableEq Thread]

theorem setPhase_phase (s : PoolSystem Thread Conn) (t : Thread) (ph : Phase) :
    (s.setPhase t ph).phase = Function.update s.phase t ph := by
  funext t'
  rw [setPhase, Function.update_apply]

theorem NotifyOne.cvPool {s s' : PoolSystem Thread Conn} (h : NotifyOne s s') :
    cvPool.NotifyOne s.phase s'.phase := by
  cases h with
  | some t ht =>
      rw [setPhase_phase]
      exact .sleeper (by rw [ht]; rfl)
  | none hnone =>
      refine .nobody fun t => CondVar.not_asleep.mp ?_
      rw [asleep_cvPool]
      exact hnone t

variable [Fintype Thread]

theorem Step.wakeful {n : Int} {s s' : PoolSystem Thread Conn}
    {a : PoolLabel Thread Conn} (h : Step s a s') (hpart : s.pool.Partition n)
    (hs : Wakeful s) : Wakeful s' := by
  have hcount := hpart.count
  cases h with
  | callWait _ _ hfree =>
      -- A thread goes to sleep only when nothing is free.
      have hzero : s.pool.connList.length = 0 := by omega
      show cvPool.Covered _ s.pool.connList.length
      rw [hzero]
      exact .zero
  | wakeWait _ _ hfree =>
      have hzero : s.pool.connList.length = 0 := by omega
      show cvPool.Covered _ s.pool.connList.length
      rw [hzero]
      exact .zero
  | @callTake t p id mysql _ _ _ ht =>
      -- A barging thread takes what a notified one was woken for.
      have hlen := (SqlPool.takeConn_count ht).1
      exact CondVar.Covered.mono hs (by show p.connList.length ≤ _; omega)
  | @wakeTake t p id mysql _ _ _ ht =>
      have hlen := (SqlPool.takeConn_count ht).1
      rw [Wakeful, setPhase_phase]
      exact (CondVar.Covered.take hs rfl).mono
        (by show p.connList.length ≤ _; omega)
  | @release t id mysql p id' _ _ _ hr hn =>
      rw [Wakeful, hn.pool, (SqlPool.releaseConn_count hr).1]
      exact CondVar.Covered.notifyOne hs hn.cvPool
  | exit => exact hs

theorem wakeful_reachable {n : Int} {p : SqlPool Conn} (hp : p.Partition n)
    {s : PoolSystem Thread Conn} (hs : (system p).Reachable s) :
    Wakeful s := by
  refine hs.invariant (I := Wakeful) ?_ ?_
  · rintro s ⟨-, hout, -⟩
    refine .of_awake fun t => ?_
    rw [asleep_cvPool, hout t]
    exact Phase.noConfusion
  · exact fun s a s' hr ih hstep =>
      hstep.wakeful (partition_reachable hp hr) ih

end PoolSystem

/-- After a successful `Init`, over every interleaving: while a thread is
asleep in `GetConn` there are at most as many free connections as notified
threads, so a free connection never has only sleepers waiting for it. -/
theorem pool_no_lost_wakeup {Thread Conn : Type} [Fintype Thread]
    [DecidableEq Thread] {libraryInit : Bool} {mysqlInit : Nat → Option Conn}
    {realConnect : Nat → Bool} {maxSize maxConn freeConn : Int}
    (hmax : 1 ≤ maxSize) {p : SqlPool Conn}
    (hinit : SqlPool.init libraryInit mysqlInit realConnect maxSize
      (.construct maxConn freeConn) = .ok p)
    {s : PoolSystem Thread Conn}
    (hs : (PoolSystem.system p).Reachable s) :
    ((∃ t, s.phase t = .asleep) →
      s.pool.freeConn ≤ (population (· = .notified) s.phase : Nat)) ∧
    (0 < s.pool.freeConn → (∃ t, s.phase t = .asleep) →
      ∃ t, s.phase t = .notified) := by
  have hpart := SqlPool.init_partition (by omega : (0 : Int) ≤ maxSize) hinit
  have hcount := (PoolSystem.partition_reachable hpart hs).count
  have hwake := PoolSystem.wakeful_reachable hpart hs
  have hcov : (∃ t, s.phase t = .asleep) →
      s.pool.freeConn ≤ (population (· = .notified) s.phase : Nat) := by
    rintro ⟨t, ht⟩
    have hle := hwake ⟨t, PoolSystem.asleep_cvPool.mpr ht⟩
    rw [PoolSystem.pending_cvPool] at hle
    omega
  refine ⟨hcov, fun hfree hsleep => ?_⟩
  by_contra hnone
  have hle := hcov hsleep
  rw [population_eq_zero fun t ht => hnone ⟨t, ht⟩] at hle
  omega

/-- One connection and three threads: `0` had it, `1` and `2` sleep for it,
and its release notifies `1`. -/
theorem pool_no_lost_wakeup_three :
    let s : PoolSystem (Fin 3) Nat :=
      (⟨⟨1, 1, [(0, 7)], ∅⟩, fun _ => .outside, false⟩ :
        PoolSystem (Fin 3) Nat).setPhase 1 .asleep |>.setPhase 2 .asleep
          |>.setPhase 1 .notified
    ((∃ t, s.phase t = .asleep) →
      s.pool.freeConn ≤ (population (· = .notified) s.phase : Nat)) ∧
    (0 < s.pool.freeConn → (∃ t, s.phase t = .asleep) →
      ∃ t, s.phase t = .notified) := by
  intro s
  have hinit : SqlPool.init true (fun _ => some 7) (fun _ => true) 1
      (.construct 0 0) = .ok ⟨1, 1, [(0, 7)], ∅⟩ := rfl
  have hstart : (PoolSystem.system ⟨1, 1, [(0, 7)], ∅⟩).Reachable
      (⟨⟨1, 1, [(0, 7)], ∅⟩, fun _ => .outside, false⟩ :
        PoolSystem (Fin 3) Nat) := .start ⟨rfl, fun _ => rfl, rfl⟩
  have hsleep := ((hstart.next (.callTake (t := 0) rfl rfl (by decide)
    rfl)).next (.callWait (t := 1) rfl rfl rfl)).next
      (.callWait (t := 2) rfl rfl rfl)
  have hs : (PoolSystem.system ⟨1, 1, [(0, 7)], ∅⟩).Reachable s :=
    hsleep.next (a := .release 0 0 7) (.release rfl rfl rfl (.some 1 rfl))
  exact pool_no_lost_wakeup (by decide) hinit hs

end TinyWebServer
