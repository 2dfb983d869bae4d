import TinyWebServer.Lib.Progress
import TinyWebServer.Proofs.LoginPool
import TinyWebServer.Proofs.PoolWakeups

/-!
# Every `_Login` returns

A thread that waits in `GetConn` waits for another to call `ReleaseConn`, and
nothing in `_Login` waits for anything else. So the threads in a `_Login` need
nobody to start one and no wake-up that was not sent: left to themselves they
take at most `work` steps, and when there is nothing left to do each of them
has returned. For a pool with no connection at all that is not so.
-/

namespace TinyWebServer

open Lib

variable {Thread Conn Stmt Res : Type}

namespace LoginScript

/-- The longest way through `_Login`. -/
def maxCalls : Nat := 12

theorem loginScript_within (request : HttpRequest) :
    (HttpResponse.loginScript request :
      LoginScript Conn Stmt Res (HttpRequest × Bool)).Within maxCalls := by
  refine .ask fun pair => ?_
  obtain ⟨id, mysql⟩ := pair
  cases mysql with
  | none => trivial
  | some mysql =>
      dsimp only
      rcases request.selectForm (lit "username") with ⟨request₁, username⟩
      rcases request₁.selectForm (lit "pwd") with ⟨request₂, password⟩
      refine .ask fun stmt => ?_
      cases stmt with
      | none => exact fun _ => trivial
      | some stmt =>
          refine .ask fun prepared => ?_
          split
          · exact fun _ _ => trivial
          refine .ask fun bound => ?_
          split
          · exact fun _ _ => trivial
          refine .ask fun executed => ?_
          split
          · exact fun _ _ => trivial
          refine .ask fun res => ?_
          cases res with
          | none => exact fun _ _ => trivial
          | some res =>
              refine .ask fun stored => ?_
              split
              · exact fun _ _ _ => trivial
              refine .ask fun rows => ?_
              split
              · exact fun _ _ _ => trivial
              · exact fun _ _ _ _ => trivial

end LoginScript

theorem SqlPool.init_not_null {libraryInit : Bool}
    {mysqlInit : Nat → Option Conn} {realConnect : Nat → Bool}
    {maxSize maxConn freeConn : Int} {p : SqlPool (Option Conn)}
    (h : init libraryInit (fun i => (mysqlInit i).map some) realConnect maxSize
      (.construct maxConn freeConn) = .ok p) :
    ∀ pair ∈ p.connList, pair.2 ≠ none := by
  intro pair hpair hnone
  obtain ⟨j, -, -, hconn⟩ := init_created h pair hpair
  rw [hnone] at hconn
  obtain ⟨mysql, -, hsome⟩ := Option.map_eq_some_iff.mp hconn
  cases hsome

/-! ## Where a thread sleeps -/

namespace PoolSystem

variable [DecidableEq Thread] {s s' : PoolSystem Thread Conn}

theorem NotifyOne.outside (h : NotifyOne s s') (t : Thread) :
    s'.phase t = .outside ↔ s.phase t = .outside := by
  cases h with
  | none => rfl
  | some t' ht' =>
      rw [setPhase_phase]
      by_cases htt : t = t'
      · subst htt
        rw [Function.update_self, ht']
        simp
      · rw [Function.update_of_ne htt]

/-- The phase of a thread is its own affair. -/
theorem Step.phase_of_ne {a : PoolLabel Thread Conn} {t t' : Thread}
    (h : Step s a s') (ha : a = .call t ∨ a = .wake t) (htt : t' ≠ t) :
    s'.phase t' = s.phase t' := by
  cases h with
  | callWait | wakeWait | wakeTake =>
      rcases ha with ha | ha <;> cases ha
      rw [setPhase_phase, Function.update_of_ne htt]
  | callTake => rfl
  | release | exit => rcases ha with ha | ha <;> cases ha

/-- A step of `GetConn` goes to sleep, or takes a connection and is out. -/
theorem Step.getConn_cases {a : PoolLabel Thread Conn} {t : Thread}
    (h : Step s a s') (ha : a = .call t ∨ a = .wake t) :
    (s'.pool = s.pool ∧ s'.phase = Function.update s.phase t .asleep) ∨
      (s'.pool.connList.length < s.pool.connList.length ∧
        s'.phase = Function.update s.phase t .outside) := by
  cases h with
  | callWait | wakeWait =>
      rcases ha with ha | ha <;> cases ha
      exact .inl ⟨rfl, setPhase_phase _ _ _⟩
  | callTake _ hout _ ht =>
      rcases ha with ha | ha <;> cases ha
      have hlen := (SqlPool.takeConn_count ht).1
      refine .inr ⟨Nat.lt_of_succ_le hlen.ge, ?_⟩
      rw [← hout, Function.update_eq_self]
  | wakeTake _ _ _ ht =>
      rcases ha with ha | ha <;> cases ha
      have hlen := (SqlPool.takeConn_count ht).1
      exact .inr ⟨Nat.lt_of_succ_le hlen.ge, setPhase_phase _ _ _⟩
  | release | exit => rcases ha with ha | ha <;> cases ha

end PoolSystem

/-! ## What a thread has left to do -/

/-- A thread out of the wait may go into it once. -/
def Phase.work : Phase → Nat
  | .outside | .notified => 1
  | .asleep => 0

theorem PoolSystem.NotifyOne.work [DecidableEq Thread] [Fintype Thread]
    {s s' : PoolSystem Thread Conn} (h : NotifyOne s s') :
    total Phase.work s'.phase ≤ total Phase.work s.phase + 1 :=
  h.cvPool.total_le 1 fun {_ ph} _ => by cases ph <;> simp [Phase.work]

/-- Two for each call to come, as a release also wakes somebody up. -/
def LoginThread.work : LoginThread Conn Stmt Res → Nat
  | .idle => 0
  | .running _ made => 1 + 2 * (LoginScript.maxCalls - made.length)

/-- In a `_Login`. -/
def LoginThread.begun : LoginThread Conn Stmt Res → Nat
  | .idle => 0
  | .running _ _ => 1

namespace LoginSystem

variable [DecidableEq Thread] {s s' : LoginSystem Thread Conn Stmt Res}
  {p : SqlPool (Option Conn)}

theorem pool_reachable (hs : (system p).Reachable s) :
    (PoolSystem.system p).Reachable s.pool := by
  refine hs.invariant (I := fun s => (PoolSystem.system p).Reachable s.pool)
    ?_ ?_
  · rintro s ⟨hpool, -, -⟩
    exact .start hpool
  intro s a s' _ ih h
  cases h with
  | start | mysql | ret => exact ih
  | waits _ _ hstep | getConn _ _ hstep | releaseConn _ hstep
  | exit _ hstep => exact ih.next hstep

/-- Only threads in `GetConn` are away from `outside`, and nobody has more
calls to come than `_Login` has. -/
structure Bounded (s : LoginSystem Thread Conn Stmt Res) : Prop where
  waiting : ∀ t, s.pool.phase t ≠ .outside →
    ∃ k made, s.thread t = .running (.call .getConn k) made
  within : ∀ t rest made, s.thread t = .running rest made →
    rest.Within (LoginScript.maxCalls - made.length)

/-- `t` goes on as `x`, out of the pool. -/
theorem Bounded.goesOn (h : s.Bounded) {t : Thread}
    {x : LoginThread Conn Stmt Res} {pool : PoolSystem Thread (Option Conn)}
    {finished : List (List (LoginEvent Conn Stmt Res) × Bool)}
    (hphase : ∀ t', pool.phase t' ≠ .outside →
      t' ≠ t ∧ s.pool.phase t' ≠ .outside)
    (hx : ∀ rest made, x = .running rest made →
      rest.Within (LoginScript.maxCalls - made.length)) :
    Bounded ({ s with pool, finished }.setThread t x) := by
  refine ⟨fun t' ht' => ?_, fun t' rest made hrun => ?_⟩
  · obtain ⟨htt, hold⟩ := hphase t' ht'
    rw [thread_setThread, Function.update_of_ne htt]
    exact h.waiting t' hold
  · rw [thread_setThread] at hrun
    by_cases htt : t' = t
    · subst htt
      rw [Function.update_self] at hrun
      exact hx rest made hrun
    · rw [Function.update_of_ne htt] at hrun
      exact h.within t' rest made hrun

omit [DecidableEq Thread] in
theorem Bounded.outside (h : s.Bounded) {t : Thread}
    (ht : ∀ k made, s.thread t ≠ .running (.call .getConn k) made) :
    s.pool.phase t = .outside := by
  by_contra hphase
  obtain ⟨k, made, hrun⟩ := h.waiting t hphase
  exact ht k made hrun

theorem Bounded.answered (h : s.Bounded) {t : Thread}
    {op : LoginCall Conn Stmt Res}
    {k : op.Ans → LoginScript Conn Stmt Res (HttpRequest × Bool)}
    {made : List (LoginEvent Conn Stmt Res)}
    (ht : s.thread t = .running (.call op k) made) {ans : op.Ans}
    {pool : PoolSystem Thread (Option Conn)}
    (hphase : ∀ t', pool.phase t' ≠ .outside →
      t' ≠ t ∧ s.pool.phase t' ≠ .outside) :
    Bounded ({ s with pool }.answer t op k made ans) := by
  refine h.goesOn hphase fun rest made' hx => ?_
  cases hx
  have hrest := (h.within t _ _ ht).call.2 ans
  rw [List.length_append, List.length_singleton, ← Nat.sub_sub]
  exact hrest

omit [DecidableEq Thread] in
/-- A thread that is not in `GetConn` stays out of it. -/
theorem Bounded.elsewhere (h : s.Bounded) {t : Thread}
    (ht : ∀ k made, s.thread t ≠ .running (.call .getConn k) made)
    {pool : PoolSystem Thread (Option Conn)}
    (hphase : ∀ t', pool.phase t' = .outside ↔ s.pool.phase t' = .outside)
    (t' : Thread) (ht' : pool.phase t' ≠ .outside) :
    t' ≠ t ∧ s.pool.phase t' ≠ .outside := by
  rw [Ne, hphase] at ht'
  refine ⟨?_, ht'⟩
  rintro rfl
  exact ht' (h.outside ht)

theorem Step.bounded {a : LoginLabel Thread} (h : Step s a s')
    (hs : s.Bounded) : s'.Bounded := by
  cases h with
  | start t request _ ht =>
      refine hs.goesOn (hs.elsewhere (by simp [ht]) fun _ => Iff.rfl)
        fun rest made hx => ?_
      cases hx
      exact LoginScript.loginScript_within request
  | @waits t k made b pool ht hb hstep _ =>
      refine ⟨fun t' ht' => ?_, hs.within⟩
      by_cases htt : t' = t
      · subst htt
        exact ⟨k, made, ht⟩
      · rw [hstep.phase_of_ne hb htt] at ht'
        exact hs.waiting t' ht'
  | @getConn t _ _ _ pool _ _ ht hb hstep htake =>
      refine hs.answered ht fun t' ht' => ?_
      rcases hstep.getConn_cases hb with ⟨hpool, -⟩ | ⟨-, hphase⟩
      · have hlen := (SqlPool.takeConn_count htake).1
        rw [hpool] at hlen
        omega
      · by_cases htt : t' = t
        · subst htt
          rw [hphase, Function.update_self] at ht'
          exact absurd rfl ht'
        · rw [hphase, Function.update_of_ne htt] at ht'
          exact ⟨htt, ht'⟩
  | releaseConn ht hstep halive =>
      refine hs.answered ht (hs.elsewhere (by simp [ht]) ?_)
      cases hstep with
      | release _ _ _ hn => exact hn.outside
      | exit => cases halive
  | exit ht hstep hstopped =>
      cases hstep with
      | release hrun _ _ hn =>
          rw [hn.stopped] at hstopped
          exact absurd (hstopped.symm.trans hrun) (by simp)
      | exit => exact ⟨hs.waiting, hs.within⟩
  | @mysql t op _ _ ans _ hop ht =>
      refine hs.answered ht (hs.elsewhere ?_ fun _ => Iff.rfl)
      intro k made hget
      rw [ht] at hget
      cases hget
      cases hop
  | ret _ ht =>
      refine hs.goesOn (hs.elsewhere (by simp [ht]) fun _ => Iff.rfl) ?_
      simp

theorem bounded_reachable (hs : (system p).Reachable s) : s.Bounded := by
  refine hs.invariant (I := Bounded) ?_ ?_
  · rintro s ⟨⟨-, hout, -⟩, hidle, -⟩
    refine ⟨fun t ht => absurd (hout t) ht, fun t rest made hrun => ?_⟩
    rw [hidle t] at hrun
    cases hrun
  · exact fun s a s' _ ih h => Step.bounded h ih

/-! ## Left to themselves -/

/-- What happens with no `_Login` begun and nobody woken up unasked. -/
def Own (s : LoginSystem Thread Conn Stmt Res) : LoginLabel Thread → Prop
  | .start _ _ => False
  | .call t => s.pool.phase t ≠ .asleep
  | .ret _ => True

variable [Fintype Thread]

/-- How many steps the threads can take by themselves, at most. -/
def work (s : LoginSystem Thread Conn Stmt Res) : Nat :=
  total Phase.work s.pool.phase + total LoginThread.work s.thread

theorem work_answer {t : Thread} {op : LoginCall Conn Stmt Res}
    {k : op.Ans → LoginScript Conn Stmt Res (HttpRequest × Bool)}
    {made : List (LoginEvent Conn Stmt Res)} (hs : s.Bounded)
    (ht : s.thread t = .running (.call op k) made) (ans : op.Ans)
    (pool : PoolSystem Thread (Option Conn)) :
    ({ s with pool }.answer t op k made ans).work + 2
      = total Phase.work pool.phase + total LoginThread.work s.thread := by
  have hpos := (hs.within t _ _ ht).call.1
  have hsum := total_update LoginThread.work s.thread t
    (.running (k ans) (made ++ [⟨op, ans⟩]))
  rw [ht] at hsum
  simp only [LoginThread.work, List.length_append,
    List.length_singleton] at hsum
  simp only [work, answer, setThread]
  omega

theorem work_potential (hp : p.Split (· ∈ p.freeIds)) (hused : p.usedId = ∅)
    (hfree : p.freeConn = p.maxConn)
    (hnull : ∀ pair ∈ p.connList, pair.2 ≠ none) :
    TransitionSystem.Potential (system p) Own
      (work : LoginSystem Thread Conn Stmt Res → Nat) := by
  intro s a s' hr hown h
  have hs := bounded_reachable hr
  have hcons := conserved_reachable hp hused hfree hnull hr
  cases h with
  | start => exact hown.elim
  | @waits t _ _ b pool ht hb hstep hpool =>
      rcases hstep.getConn_cases hb with ⟨-, hphase⟩ | ⟨hlt, -⟩
      · have hsum := total_update Phase.work s.pool.phase t .asleep
        have hone : (s.pool.phase t).work = 1 := by
          cases hpc : s.pool.phase t with
          | outside | notified => rfl
          | asleep => exact absurd hpc hown
        rw [hone] at hsum
        simp only [work, hphase]
        simp only [Phase.work] at hsum
        omega
      · rw [hpool] at hlt
        omega
  | @getConn t k made b pool id mysql ht hb hstep htake =>
      have hless := work_answer hs ht (id, mysql) pool
      rcases hstep.getConn_cases hb with ⟨hpool, -⟩ | ⟨-, hphase⟩
      · have hlen := (SqlPool.takeConn_count htake).1
        rw [hpool] at hlen
        omega
      · have hsum := total_update Phase.work s.pool.phase t .outside
        rw [hphase] at hless
        have hle : total Phase.work (Function.update s.pool.phase t .outside)
            ≤ total Phase.work s.pool.phase + 1 := by
          simp only [Phase.work] at hsum
          omega
        show LoginSystem.work _ < total _ _ + total _ _
        omega
  | @releaseConn t id mysql k made pool ht hstep halive =>
      have hless := work_answer hs ht (-1 : Int) pool
      cases hstep with
      | release _ _ _ hn =>
          have hle : total Phase.work pool.phase
              ≤ total Phase.work s.pool.phase + 1 := hn.work
          show LoginSystem.work _ < total _ _ + total _ _
          omega
      | exit => cases halive
  | @exit t id mysql _ _ _ ht hstep hstopped =>
      have hheld : s.held t = some (id, some mysql) :=
        (held_running ht).trans (hcons.follows t _ _ ht).1
      obtain ⟨halive, -⟩ :=
        hstep.release_used (hcons.holders.inUse t _ hheld)
      rw [halive] at hstopped
      cases hstopped
  | @mysql t op k made ans _ _ ht =>
      have hless : (s.answer t op k made ans).work + 2 = s.work :=
        work_answer hs ht ans s.pool
      omega
  | @ret t r made _ ht =>
      have hsum := total_update LoginThread.work s.thread t .idle
      rw [ht] at hsum
      simp only [work, setThread]
      simp only [LoginThread.work] at hsum
      omega

/-- Who is in a `_Login` stays in it until it has returned. -/
theorem Step.begun {a : LoginLabel Thread} (h : Step s a s')
    (hown : s.Own a) :
    s'.finished.length + total LoginThread.begun s'.thread
      = s.finished.length + total LoginThread.begun s.thread := by
  have hupdate : ∀ {t op k made ans}, s.thread t = .running (.call op k) made →
      total LoginThread.begun (s.answer t op k made ans).thread
        = total LoginThread.begun s.thread := by
    intro t op k made ans ht
    have hsum := total_update LoginThread.begun s.thread t
      (.running (k ans) (made ++ [⟨op, ans⟩]))
    rw [ht] at hsum
    simp only [LoginThread.begun] at hsum
    simp only [answer, setThread]
    omega
  cases h with
  | start => exact hown.elim
  | waits | exit => rfl
  | getConn ht | releaseConn ht | mysql _ _ _ ht =>
      exact congrArg (s.finished.length + ·) (hupdate ht)
  | @ret t r made _ ht =>
      have hsum := total_update LoginThread.begun s.thread t .idle
      rw [ht] at hsum
      simp only [LoginThread.begun] at hsum
      simp only [setThread, List.length_append, List.length_singleton]
      omega

/-! ## Nobody is left waiting -/

omit [DecidableEq Thread] [Fintype Thread] in
theorem exists_answer (op : LoginCall Conn Stmt Res)
    (hop : op.onPool = false) : Nonempty op.Ans := by
  cases op with
  | getConn | releaseConn => cases hop
  | stmtInit | stmtResultMetadata | fetchRow => exact ⟨none⟩
  | stmtPrepare | stmtBindParam | stmtExecute | stmtStoreResult =>
      exact ⟨(0 : Int)⟩
  | stmtNumRows => exact ⟨(0 : Nat)⟩
  | freeResult | stmtClose => exact ⟨()⟩

omit [Fintype Thread] in
theorem exists_notifyOne (q : PoolSystem Thread Conn) :
    ∃ q', PoolSystem.NotifyOne q q' := by
  by_cases hsleep : ∃ t, q.phase t = .asleep
  · obtain ⟨t, ht⟩ := hsleep
    exact ⟨_, .some t ht⟩
  · exact ⟨q, .none fun t ht => hsleep ⟨t, ht⟩⟩

omit [Fintype Thread] in
/-- In `GetConn` and not asleep, a thread takes a connection or goes to
sleep. -/
theorem getConn_progress {n : Int} (hpart : s.pool.pool.Partition n)
    (halive : s.pool.stopped = false) {t : Thread} {k}
    {made : List (LoginEvent Conn Stmt Res)}
    (ht : s.thread t = .running (.call .getConn k) made) :
    ∃ s', Step s (.call t) s' := by
  by_cases hfree : s.pool.pool.freeConn = 0
  · by_cases hout : s.pool.phase t = .outside
    · exact ⟨_, .waits ht (.inl rfl) (.callWait halive hout hfree) rfl⟩
    · exact ⟨_, .waits ht (.inr rfl) (.wakeWait halive hout hfree) rfl⟩
  · obtain ⟨q, id, mysql, htake, -⟩ := hpart.takeConn_spec hfree
    by_cases hout : s.pool.phase t = .outside
    · exact ⟨_, .getConn ht (.inl rfl) (.callTake halive hout hfree htake)
        htake⟩
    · exact ⟨_, .getConn ht (.inr rfl) (.wakeTake halive hout hfree htake)
        htake⟩

omit [Fintype Thread] in
theorem releaseConn_progress (hcons : s.Conserved p) (hs : s.Bounded)
    {t : Thread} {id : Int} {mysql : Conn} {k}
    {made : List (LoginEvent Conn Stmt Res)}
    (ht : s.thread t = .running (.call (.releaseConn id mysql) k) made) :
    ∃ s', Step s (.call t) s' := by
  have hheld : s.held t = some (id, some mysql) :=
    (held_running ht).trans (hcons.follows t _ _ ht).1
  have hid := hcons.holders.inUse t _ hheld
  have hout := hs.outside (t := t) (by simp [ht])
  have hr : s.pool.pool.releaseConn id (some mysql) = some _ := if_pos hid
  obtain ⟨pool, hn⟩ := exists_notifyOne { s.pool with
    pool := { s.pool.pool with
      connList := s.pool.pool.connList ++ [(id, some mysql)]
      freeConn := s.pool.pool.freeConn + 1
      usedId := s.pool.pool.usedId.erase id } }
  exact ⟨_, .releaseConn ht (.release hcons.alive hout hr hn)
    (hn.stopped.trans hcons.alive)⟩

/-- With nothing left to do, everybody has returned: threads asleep alone
would have a free connection, and one of them would be notified. -/
theorem final_idle {n : Int} (hn : 1 ≤ n) (hpart : p.Partition n)
    (hmax : p.maxConn = n) (hp : p.Split (· ∈ p.freeIds))
    (hcons : s.Conserved p) (hr : (system p).Reachable s)
    (hfinal : ((system p).restrict Own).Final s) :
    ∀ t, s.thread t = .idle := by
  have hs := bounded_reachable hr
  have hpool := pool_reachable hr
  have hpart' := PoolSystem.partition_reachable hpart hpool
  have hnone : ∀ {a s'}, s.Own a → ¬ Step s a s' := fun hown h =>
    hfinal _ _ ⟨hown, h⟩
  have hget : ∀ t, s.thread t ≠ .idle → s.pool.phase t = .asleep ∧
      ∃ k made, s.thread t = .running (.call .getConn k) made := by
    intro t hidle
    by_cases hphase : s.pool.phase t = .asleep
    · exact ⟨hphase, hs.waiting t (by rw [hphase]; simp)⟩
    exfalso
    cases ht : s.thread t with
    | idle => exact hidle ht
    | running rest made =>
        cases rest with
        | ret r => exact hnone (a := .ret t) trivial (.ret hcons.alive ht)
        | call op k =>
            by_cases hop : op.onPool = false
            · obtain ⟨ans⟩ := exists_answer op hop
              exact hnone (a := .call t) hphase
                (.mysql ans hcons.alive hop ht)
            · obtain ⟨s', h⟩ : ∃ s', Step s (.call t) s' := by
                cases op with
                | getConn => exact getConn_progress hpart' hcons.alive ht
                | releaseConn => exact releaseConn_progress hcons hs ht
                | _ => exact absurd rfl hop
              exact hnone (a := .call t) hphase h
  by_contra hbusy
  obtain ⟨t, ht⟩ := not_forall.mp hbusy
  have hheld : ∀ t, s.held t = none := by
    intro t
    by_cases hidle : s.thread t = .idle
    · exact held_idle hidle
    · obtain ⟨-, k, made, hrun⟩ := hget t hidle
      exact (held_running hrun).trans (hcons.follows t _ _ hrun).1
  obtain ⟨-, hfree, -⟩ := hcons.holders.quiescent hp hheld
  have hcover := PoolSystem.wakeful_reachable hpart hpool
    ⟨t, PoolSystem.asleep_cvPool.mpr (hget t ht).1⟩
  rw [PoolSystem.pending_cvPool] at hcover
  have hcount := hpart'.count
  have hmax' := hcons.holders.maxConn
  have hpending : 0 < population (· = .notified) s.pool.phase := by omega
  obtain ⟨t', ht'⟩ := exists_of_population hpending
  obtain ⟨k, made, hrun⟩ := hs.waiting t' (by rw [ht']; simp)
  obtain ⟨s', h⟩ := getConn_progress hpart' hcons.alive hrun
  exact hnone (a := .call t') (by rw [Own, ht']; simp) h

/-- On a pool that `Init` set up with a connection at least, from every state
it gets to: with no new `_Login` and no wake-up that was not sent, the threads
take at most `work` steps, and when they can take no more every `_Login` that
was begun has returned, and the destructor would close what `Init` opened. -/
theorem logins_return {libraryInit : Bool} {mysqlInit : Nat → Option Conn}
    {realConnect : Nat → Bool} {maxSize maxConn freeConn : Int}
    (hmax : 1 ≤ maxSize)
    (hinit : SqlPool.init libraryInit (fun i => (mysqlInit i).map some)
      realConnect maxSize (.construct maxConn freeConn) = .ok p)
    (hs : (system p).Reachable s) :
    (∀ as s', ((system p).restrict Own).Run s as s' → as.length ≤ s.work) ∧
    (∃ as s', ((system p).restrict Own).Run s as s' ∧
      ((system p).restrict Own).Final s') ∧
    ∀ as s', ((system p).restrict Own).Run s as s' →
      ((system p).restrict Own).Final s' →
      (∀ t, s'.thread t = .idle) ∧
      s'.finished.length
        = s.finished.length + total LoginThread.begun s.thread ∧
      s'.pool.pool.destroy.Perm p.destroy := by
  obtain ⟨-, hfree, hmaxConn, hused⟩ := SqlPool.init_spec hinit
  have hsplit := SqlPool.init_split hinit
  have hpart := SqlPool.init_partition (by omega : (0 : Int) ≤ maxSize) hinit
  have hnull := SqlPool.init_not_null hinit
  have hpotential : TransitionSystem.Potential (system p) Own
      (work : LoginSystem Thread Conn Stmt Res → Nat) :=
    work_potential hsplit hused (hfree.trans hmaxConn.symm) hnull
  refine ⟨fun as s' hrun => ?_, TransitionSystem.exists_final hpotential hs,
    fun as s' hrun hfinal => ?_⟩
  · have hle := hrun.length_le hpotential hs
    omega
  · have hs' := hrun.of_restrict.reachable hs
    have hcons := conserved_reachable hsplit hused
      (hfree.trans hmaxConn.symm) hnull hs'
    have hidle := final_idle hmax hpart hmaxConn hsplit hcons hs' hfinal
    refine ⟨hidle, ?_, ?_⟩
    · have hkeep : s'.finished.length + total LoginThread.begun s'.thread
          = s.finished.length + total LoginThread.begun s.thread := by
        refine hrun.invariant (I := fun _ t => t.finished.length
          + total LoginThread.begun t.thread = _) rfl ?_
        rintro _ _ _ _ ih ⟨hown, h⟩
        exact (Step.begun h hown).trans ih
      have hzero : total LoginThread.begun s'.thread = 0 :=
        Finset.sum_eq_zero fun t _ => by rw [hidle t, LoginThread.begun]
      omega
    · obtain ⟨-, -, hperm⟩ := hcons.holders.quiescent hsplit fun t =>
        held_idle (hidle t)
      exact (hperm.map _).cons _

/-- One connection, and two threads that want it. -/
theorem logins_return_two :
    ∃ s : LoginSystem Bool Nat Nat Nat, (∀ t, s.thread t ≠ .idle) ∧
      (∀ as s', ((system ⟨1, 1, [(0, some 10)], ∅⟩).restrict Own).Run s as s' →
        as.length ≤ s.work) ∧
      (∃ as s', ((system ⟨1, 1, [(0, some 10)], ∅⟩).restrict Own).Run s as s' ∧
        ((system ⟨1, 1, [(0, some 10)], ∅⟩).restrict Own).Final s') ∧
      ∀ as s', ((system ⟨1, 1, [(0, some 10)], ∅⟩).restrict Own).Run s as s' →
        ((system ⟨1, 1, [(0, some 10)], ∅⟩).restrict Own).Final s' →
        (∀ t, s'.thread t = .idle) ∧
        s'.finished.length
          = s.finished.length + total LoginThread.begun s.thread ∧
        s'.pool.pool.destroy.Perm
          (SqlPool.destroy ⟨1, 1, [(0, some 10)], ∅⟩) := by
  have hinit : SqlPool.init true (fun i => (some (10 + i)).map some)
      (fun _ => true) 1 (.construct 0 0)
        = .ok (⟨1, 1, [(0, some 10)], ∅⟩ : SqlPool (Option Nat)) := rfl
  let request := HttpRequest.construct .requestLine .fileRequest false false
  let s₀ : LoginSystem Bool Nat Nat Nat :=
    ⟨⟨⟨1, 1, [(0, some 10)], ∅⟩, fun _ => .outside, false⟩, fun _ => .idle, []⟩
  have h₀ : (system ⟨1, 1, [(0, some 10)], ∅⟩).Reachable s₀ :=
    .start ⟨⟨rfl, fun _ => rfl, rfl⟩, fun _ => rfl, rfl⟩
  have h₁ := h₀.next (.start true request rfl rfl)
  have h₂ := h₁.next (.start false request rfl rfl)
  have h₃ := h₂.next (.getConn (t := true) rfl (.inl rfl)
    (.callTake rfl rfl (by decide) rfl) rfl)
  have h₄ := h₃.next (.waits (t := false) rfl (.inl rfl)
    (.callWait rfl rfl rfl) rfl)
  refine ⟨_, ?_, logins_return (by decide) hinit h₄⟩
  have hbusy : ∀ {rest made}, (LoginThread.running rest made :
      LoginThread Nat Nat Nat) ≠ .idle := by simp
  exact Bool.forall_bool.mpr ⟨hbusy, hbusy⟩

end LoginSystem

end TinyWebServer
