import TinyWebServer.Model.Login
import TinyWebServer.Proofs.PoolForeign
import Mathlib.Data.Finset.Card

/-!
# The pool gets back what `_Login` took

`_Login` has eight ways to return and cleans up by hand on each. What is owed
is a matter of its text alone: `loginScript_follows` walks every path once,
whatever the MySQL calls answer, and finds that a connection is released with
the id it came with, that nothing is released that was not obtained, and that
the calls made up to any return balance.

The rest is about threads. Each holds at most one pair, the ids in use are
exactly those of the pairs held, and no two threads hold the same; so a
release always finds its id in use, and when nobody is in a `_Login` the list
is what `Init` made, up to order.
-/

namespace TinyWebServer

open Lib

variable {Conn Stmt Res : Type}

/-! ## What one `_Login` owes -/

/-- The pair a `_Login` holds, after one more call. -/
def LoginEvent.holding (held : Option (Int × Option Conn)) :
    LoginEvent Conn Stmt Res → Option (Int × Option Conn)
  | ⟨.getConn, pair⟩ => some pair
  | ⟨.releaseConn _ _, _⟩ => none
  | _ => held

namespace LoginScript

/-- The pair held after the calls `made`. -/
def held (made : List (LoginEvent Conn Stmt Res)) :
    Option (Int × Option Conn) :=
  made.foldl LoginEvent.holding none

theorem held_append (made : List (LoginEvent Conn Stmt Res))
    (e : LoginEvent Conn Stmt Res) :
    held (made ++ [e]) = e.holding (held made) := by
  rw [held, List.foldl_append]
  rfl

/-- A connection is got with none held, and released as it was got. -/
def Allowed (made : List (LoginEvent Conn Stmt Res)) :
    LoginCall Conn Stmt Res → Prop
  | .getConn => held made = none
  | .releaseConn id mysql => held made = some (id, some mysql)
  | _ => True

/-- `GetConn` answers no null pointer. -/
def Possible : LoginEvent Conn Stmt Res → Prop
  | ⟨.getConn, pair⟩ => pair.2 ≠ none
  | _ => True

/-- The calls of a whole `_Login`: one pair obtained and that pair released
once, a statement closed once if one was created, a result freed once if one
was obtained, and nothing else closed or freed. -/
structure Balanced (made : List (LoginEvent Conn Stmt Res)) : Prop where
  conn : ∃ pair, made.filterMap LoginEvent.obtained = [pair] ∧
    made.filterMap LoginEvent.released = [pair]
  stmt : made.filterMap LoginEvent.stmtClosed
    = made.filterMap LoginEvent.stmtCreated
  stmtOnce : (made.filterMap LoginEvent.stmtCreated).length ≤ 1
  res : made.filterMap LoginEvent.resFreed
    = made.filterMap LoginEvent.resObtained
  resOnce : (made.filterMap LoginEvent.resObtained).length ≤ 1

def Settled (made : List (LoginEvent Conn Stmt Res)) : Prop :=
  held made = none ∧ Balanced made

/-- What the calls made so far obtained, and what they gave back. -/
structure Ledger (Conn Stmt Res : Type) where
  obtained : List (Int × Option Conn)
  released : List (Int × Option Conn)
  created : List Stmt
  closed : List Stmt
  fetched : List Res
  freed : List Res

def Ledger.add (l : Ledger Conn Stmt Res) (e : LoginEvent Conn Stmt Res) :
    Ledger Conn Stmt Res :=
  { obtained := l.obtained ++ (LoginEvent.obtained e).toList
    released := l.released ++ (LoginEvent.released e).toList
    created := l.created ++ (LoginEvent.stmtCreated e).toList
    closed := l.closed ++ (LoginEvent.stmtClosed e).toList
    fetched := l.fetched ++ (LoginEvent.resObtained e).toList
    freed := l.freed ++ (LoginEvent.resFreed e).toList }

def ledger (made : List (LoginEvent Conn Stmt Res)) : Ledger Conn Stmt Res :=
  { obtained := made.filterMap LoginEvent.obtained
    released := made.filterMap LoginEvent.released
    created := made.filterMap LoginEvent.stmtCreated
    closed := made.filterMap LoginEvent.stmtClosed
    fetched := made.filterMap LoginEvent.resObtained
    freed := made.filterMap LoginEvent.resFreed }

theorem ledger_append (made : List (LoginEvent Conn Stmt Res))
    (e : LoginEvent Conn Stmt Res) :
    ledger (made ++ [e]) = (ledger made).add e := by
  simp only [ledger, Ledger.add, Script.filterMap_snoc]

theorem holding_mysql {op : LoginCall Conn Stmt Res} {ans : op.Ans}
    (hop : op.onPool = false) (held : Option (Int × Option Conn)) :
    LoginEvent.holding held ⟨op, ans⟩ = held := by
  cases op with
  | getConn | releaseConn => cases hop
  | _ => rfl

/-- In the middle: the pair is held, and the calls made add up to `l`. -/
structure Owing (made : List (LoginEvent Conn Stmt Res)) (id : Int)
    (mysql : Conn) (l : Ledger Conn Stmt Res) : Prop where
  held : held made = some (id, some mysql)
  ledger : ledger made = l

section

variable {made : List (LoginEvent Conn Stmt Res)} {id : Int} {mysql : Conn}

theorem Owing.add {l : Ledger Conn Stmt Res} (h : Owing made id mysql l)
    (op : LoginCall Conn Stmt Res) (hop : op.onPool = false) (ans : op.Ans) :
    Owing (made ++ [⟨op, ans⟩]) id mysql (l.add ⟨op, ans⟩) := by
  refine ⟨?_, ?_⟩
  · rw [held_append, holding_mysql hop, h.held]
  · rw [ledger_append, h.ledger]

theorem balanced_of_ledger (pair : Int × Option Conn) (stmt : Option Stmt)
    (res : Option Res) (h : ledger made
      = ⟨[pair], [pair], stmt.toList, stmt.toList, res.toList, res.toList⟩) :
    Balanced made := by
  have hcreated : made.filterMap LoginEvent.stmtCreated = stmt.toList :=
    congrArg Ledger.created h
  have hfetched : made.filterMap LoginEvent.resObtained = res.toList :=
    congrArg Ledger.fetched h
  refine ⟨⟨pair, congrArg Ledger.obtained h, congrArg Ledger.released h⟩,
    ?_, ?_, ?_, ?_⟩
  · rw [hcreated]
    exact congrArg Ledger.closed h
  · rw [hcreated]
    exact Option.length_toList_le
  · rw [hfetched]
    exact congrArg Ledger.freed h
  · rw [hfetched]
    exact Option.length_toList_le

/-- With everything closed and freed, the connection is released. -/
theorem Owing.release (stmt : Option Stmt) (res : Option Res)
    (h : Owing made id mysql ⟨[(id, some mysql)], [], stmt.toList, stmt.toList,
      res.toList, res.toList⟩) (r : HttpRequest × Bool) :
    Script.Follows Allowed Possible Settled made
      (do let _ ← releaseConn id mysql; return r) := by
  refine ⟨h.held, fun ans _ => ?_⟩
  have hledger := ledger_append made ⟨.releaseConn id mysql, ans⟩
  rw [h.ledger] at hledger
  refine ⟨?_, balanced_of_ledger (id, some mysql) stmt res
    (hledger.trans ?_)⟩
  · rw [held_append]
    rfl
  · cases stmt <;> cases res <;> rfl

/-- Closing the statement leaves the connection to be released. -/
theorem Owing.close {stmt : Stmt} (res : Option Res)
    (h : Owing made id mysql ⟨[(id, some mysql)], [], [stmt], [], res.toList,
      res.toList⟩) (r : HttpRequest × Bool) :
    Script.Follows Allowed Possible Settled made
      (do stmtClose stmt; let _ ← releaseConn id mysql; return r) := by
  refine ⟨trivial, fun ans _ => Owing.release (some stmt) res ?_ r⟩
  have hclosed := h.add (.stmtClose stmt) rfl ans
  cases res <;> exact hclosed

/-- Freeing the result leaves the statement to be closed. -/
theorem Owing.free {stmt : Stmt} {res : Res}
    (h : Owing made id mysql ⟨[(id, some mysql)], [], [stmt], [], [res], []⟩)
    (r : HttpRequest × Bool) :
    Script.Follows Allowed Possible Settled made
      (do freeResult res; stmtClose stmt; let _ ← releaseConn id mysql;
          return r) := by
  refine ⟨trivial, fun ans _ => Owing.close (some res) ?_ r⟩
  exact h.add (.freeResult res) rfl ans

/-- Every path through `_Login`, whatever is answered: six early returns that
clean up, and the one at the end. The seventh, on a null pointer, has nothing
to give back, but the pool hands out none. -/
theorem loginScript_follows (request : HttpRequest) :
    Script.Follows Allowed Possible Settled []
      (HttpResponse.loginScript request :
        LoginScript Conn Stmt Res (HttpRequest × Bool)) := by
  refine .ask rfl fun pair hpair => ?_
  obtain ⟨id, mysql⟩ := pair
  cases mysql with
  | none => exact absurd rfl hpair
  | some mysql =>
      dsimp only
      rcases request.selectForm (lit "username") with ⟨request₁, username⟩
      rcases request₁.selectForm (lit "pwd") with ⟨request₂, password⟩
      have hgot : Owing ([] ++ [⟨.getConn, (id, some mysql)⟩]) id mysql
          (⟨[(id, some mysql)], [], [], [], [], []⟩ : Ledger Conn Stmt Res) :=
        ⟨rfl, rfl⟩
      refine .ask trivial fun stmt _ => ?_
      have hinit := hgot.add (.stmtInit mysql) rfl stmt
      cases stmt with
      | none => exact hinit.release none none _
      | some stmt =>
          refine .ask trivial fun prepared _ => ?_
          have hprepared := hinit.add (.stmtPrepare stmt _) rfl prepared
          split
          · exact hprepared.close none _
          refine .ask trivial fun bound _ => ?_
          have hbound := hprepared.add (.stmtBindParam stmt _) rfl bound
          split
          · exact hbound.close none _
          refine .ask trivial fun executed _ => ?_
          have hexecuted := hbound.add (.stmtExecute stmt) rfl executed
          split
          · exact hexecuted.close none _
          refine .ask trivial fun res _ => ?_
          have hfetched := hexecuted.add (.stmtResultMetadata stmt) rfl res
          cases res with
          | none => exact hfetched.close none _
          | some res =>
              refine .ask trivial fun stored _ => ?_
              have hstored := hfetched.add (.stmtStoreResult stmt) rfl stored
              split
              · exact hstored.free _
              refine .ask trivial fun rows _ => ?_
              have hrows := hstored.add (.stmtNumRows stmt) rfl rows
              split
              · exact hrows.free _
              · refine ⟨trivial, fun row _ => ?_⟩
                exact (hrows.add (.fetchRow res) rfl row).free _

end

end LoginScript

/-! ## The pool and who holds what -/

/-- The pool `q`, made of what `Init` left in `p`, and the pairs that are out:
all pairs are `Init`'s, the ids in use are those of the pairs held, and nobody
shares an id. -/
structure Holders {Thread : Type} (p q : SqlPool Conn)
    (held : Thread → Option (Int × Conn)) : Prop where
  split : q.Split (· ∈ p.freeIds)
  maxConn : q.maxConn = p.maxConn
  count : q.freeConn + q.usedId.card = p.maxConn
  free : ∀ pair ∈ q.connList, pair ∈ p.connList
  own : ∀ t pair, held t = some pair → pair ∈ p.connList
  inUse : ∀ t pair, held t = some pair → pair.1 ∈ q.usedId
  holder : ∀ id ∈ q.usedId, ∃ t mysql, held t = some (id, mysql)
  apart : ∀ t t' pair pair', held t = some pair → held t' = some pair' →
    pair.1 = pair'.1 → t = t'

namespace Holders

variable {Thread : Type} [DecidableEq Thread] {p q q' : SqlPool Conn}
  {held : Thread → Option (Int × Conn)} {t : Thread} {id : Int} {mysql : Conn}

omit [DecidableEq Thread] in
theorem start (hp : p.Split (· ∈ p.freeIds)) (hused : p.usedId = ∅)
    (hfree : p.freeConn = p.maxConn) :
    Holders p p (fun _ : Thread => none) := by
  refine ⟨hp, rfl, ?_, fun _ h => h, nofun, nofun, ?_, nofun⟩
  · rw [hused, Finset.card_empty]
    omega
  · rw [hused]
    intro id hid
    cases hid

theorem takeConn (h : Holders p q held) (hnone : held t = none)
    (ht : q.takeConn = .ok (q', id, mysql)) :
    Holders p q' (Function.update held t (some (id, mysql))) := by
  obtain ⟨hsplit, hmax, hcount, hfree, hown, hinUse, hholder, hapart⟩ := h
  obtain ⟨hunused, hsplit'⟩ := hsplit.takeConn ht
  obtain ⟨hmem, hrest⟩ := SqlPool.takeConn_mem ht
  obtain ⟨-, hfreeConn⟩ := SqlPool.takeConn_count ht
  obtain ⟨hused, hmax'⟩ := SqlPool.takeConn_used ht
  refine ⟨hsplit', hmax'.trans hmax, ?_, fun pair hp => hfree pair
    (hrest pair hp), ?_, ?_, ?_, ?_⟩
  · rw [hused, Finset.card_insert_of_notMem hunused]
    omega
  · intro t' pair h
    rcases update_eq_some h with ⟨-, hnew⟩ | ⟨-, h⟩
    · cases hnew
      exact hfree _ hmem
    · exact hown t' pair h
  · intro t' pair h
    rw [hused]
    rcases update_eq_some h with ⟨-, hnew⟩ | ⟨-, h⟩
    · cases hnew
      exact Finset.mem_insert_self _ _
    · exact Finset.mem_insert_of_mem (hinUse t' pair h)
  · intro id' hid'
    rw [hused] at hid'
    rcases Finset.mem_insert.mp hid' with rfl | hid'
    · exact ⟨t, mysql, Function.update_self t _ held⟩
    · obtain ⟨t', mysql', h⟩ := hholder id' hid'
      have htt : t' ≠ t := fun he => by rw [he, hnone] at h; cases h
      exact ⟨t', mysql', (Function.update_of_ne htt _ held).trans h⟩
  · intro t₁ t₂ pair₁ pair₂ h₁ h₂ hid
    rcases update_eq_some h₁ with ⟨ht₁, hnew₁⟩ | ⟨-, hold₁⟩ <;>
      rcases update_eq_some h₂ with ⟨ht₂, hnew₂⟩ | ⟨-, hold₂⟩
    · rw [ht₁, ht₂]
    · cases hnew₁
      have hin := hinUse t₂ pair₂ hold₂
      rw [← hid] at hin
      exact absurd hin hunused
    · cases hnew₂
      have hin := hinUse t₁ pair₁ hold₁
      rw [hid] at hin
      exact absurd hin hunused
    · exact hapart t₁ t₂ pair₁ pair₂ hold₁ hold₂ hid

theorem releaseConn {id' : Int} (h : Holders p q held)
    (hheld : held t = some (id, mysql))
    (hr : q.releaseConn id mysql = some (q', id')) :
    Holders p q' (Function.update held t none) := by
  obtain ⟨hsplit, hmax, hcount, hfree, hown, hinUse, hholder, hapart⟩ := h
  have hid : id ∈ q.usedId := hinUse t _ hheld
  obtain ⟨-, hfreeConn⟩ := SqlPool.releaseConn_count hr
  obtain ⟨hused, hmax'⟩ := SqlPool.releaseConn_used hr
  have hcases : ∀ t' pair, Function.update held t none t' = some pair →
      t' ≠ t ∧ held t' = some pair := by
    intro t' pair h
    rcases update_eq_some h with ⟨-, hnone⟩ | hold
    · cases hnone
    · exact hold
  refine ⟨hsplit.releaseConn hr, hmax'.trans hmax, ?_, ?_, ?_, ?_, ?_, ?_⟩
  · have hcard := Finset.card_erase_add_one hid
    rw [hused]
    omega
  · intro pair hp
    rw [SqlPool.releaseConn_connList hr] at hp
    rcases List.mem_append.mp hp with hp | hp
    · exact hfree pair hp
    · rw [List.mem_singleton.mp hp]
      exact hown t _ hheld
  · intro t' pair h
    exact hown t' pair (hcases t' pair h).2
  · intro t' pair h
    obtain ⟨htt, h⟩ := hcases t' pair h
    rw [hused]
    refine Finset.mem_erase_of_ne_of_mem (fun he => ?_) (hinUse t' pair h)
    exact htt (hapart t' t pair _ h hheld he)
  · intro id₁ hid₁
    rw [hused, Finset.mem_erase] at hid₁
    obtain ⟨t', mysql', h⟩ := hholder id₁ hid₁.2
    refine ⟨t', mysql', (Function.update_of_ne (fun he => ?_) _ _).trans h⟩
    rw [he, hheld] at h
    cases h
    exact hid₁.1 rfl
  · intro t₁ t₂ pair₁ pair₂ h₁ h₂
    exact hapart t₁ t₂ pair₁ pair₂ (hcases t₁ pair₁ h₁).2
      (hcases t₂ pair₂ h₂).2

omit [DecidableEq Thread] in
/-- With nothing out, the list is what `Init` made. -/
theorem quiescent (h : Holders p q held) (hp : p.Split (· ∈ p.freeIds))
    (hnone : ∀ t, held t = none) :
    q.usedId = ∅ ∧ q.freeConn = q.maxConn ∧ q.connList.Perm p.connList := by
  have hused : q.usedId = ∅ := by
    refine Finset.eq_empty_of_forall_notMem fun id hid => ?_
    obtain ⟨t, mysql, ht⟩ := h.holder id hid
    rw [hnone t] at ht
    cases ht
  refine ⟨hused, ?_, ?_⟩
  · have hcount := h.count
    rw [hused, Finset.card_empty] at hcount
    have hmax := h.maxConn
    omega
  · refine (List.perm_ext_iff_of_nodup h.split.nodup.of_map
      hp.nodup.of_map).mpr fun pair => ⟨h.free pair, fun hpair => ?_⟩
    have hid : pair.1 ∈ p.freeIds := List.mem_map_of_mem hpair
    rcases (h.split.cover pair.1).mpr hid with hfree | hin
    · obtain ⟨pair', hpair', heq⟩ := List.mem_map.mp hfree
      rw [← List.inj_on_of_nodup_map hp.nodup (h.free pair' hpair') hpair heq]
      exact hpair'
    · rw [hused] at hin
      cases hin

end Holders

/-! ## Every interleaving -/

/-- A step of `GetConn` does not end the process. -/
theorem PoolSystem.Step.alive {Thread : Type} [DecidableEq Thread]
    {s s' : PoolSystem Thread Conn} {a : PoolLabel Thread Conn} {t : Thread}
    (h : Step s a s') (ha : a = .call t ∨ a = .wake t) :
    s'.stopped = false := by
  cases h with
  | callWait hrun | callTake hrun | wakeWait hrun | wakeTake hrun => exact hrun
  | release | exit => rcases ha with ha | ha <;> cases ha

/-- The pair a thread holds. -/
def LoginThread.held :
    LoginThread Conn Stmt Res → Option (Int × Option Conn)
  | .idle => none
  | .running _ made => LoginScript.held made

namespace LoginSystem

variable {Thread : Type} [DecidableEq Thread]
  {s s' : LoginSystem Thread Conn Stmt Res} {p : SqlPool (Option Conn)}

/-- The pair each thread holds. -/
def held (s : LoginSystem Thread Conn Stmt Res) (t : Thread) :
    Option (Int × Option Conn) := (s.thread t).held

omit [DecidableEq Thread] in
theorem held_running {t : Thread} {made : List (LoginEvent Conn Stmt Res)}
    {rest : LoginScript Conn Stmt Res (HttpRequest × Bool)}
    (h : s.thread t = .running rest made) :
    s.held t = LoginScript.held made := by
  rw [held, h, LoginThread.held]

omit [DecidableEq Thread] in
theorem held_idle {t : Thread} (h : s.thread t = .idle) :
    s.held t = none := by
  rw [held, h, LoginThread.held]

theorem thread_setThread (t : Thread) (x : LoginThread Conn Stmt Res) :
    (s.setThread t x).thread = Function.update s.thread t x := rfl

theorem held_setThread (t : Thread) (x : LoginThread Conn Stmt Res) :
    (s.setThread t x).held = Function.update s.held t x.held := by
  funext t'
  rw [held, thread_setThread]
  by_cases htt : t' = t
  · subst htt
    rw [Function.update_self, Function.update_self]
  · rw [Function.update_of_ne htt, Function.update_of_ne htt, held]

structure Conserved (p : SqlPool (Option Conn))
    (s : LoginSystem Thread Conn Stmt Res) : Prop where
  alive : s.pool.stopped = false
  follows : ∀ t rest made, s.thread t = .running rest made →
    Script.Follows LoginScript.Allowed LoginScript.Possible
      LoginScript.Settled made rest
  holders : Holders p s.pool.pool s.held
  finished : ∀ login ∈ s.finished, LoginScript.Balanced login.1

/-- `t` may go on as `x`, which keeps to the text. -/
theorem Conserved.goesOn (h : Conserved p s) {t : Thread}
    {x : LoginThread Conn Stmt Res}
    (hx : ∀ rest made, x = .running rest made →
      Script.Follows LoginScript.Allowed LoginScript.Possible
        LoginScript.Settled made rest)
    {pool : PoolSystem Thread (Option Conn)}
    {finished : List (List (LoginEvent Conn Stmt Res) × Bool)}
    (halive : pool.stopped = false)
    (hheld : Holders p pool.pool (Function.update s.held t x.held))
    (hfinished : ∀ login ∈ finished, LoginScript.Balanced login.1) :
    Conserved p ({ s with pool, finished }.setThread t x) := by
  refine ⟨halive, fun t' rest made hrun => ?_, ?_, hfinished⟩
  · rw [thread_setThread] at hrun
    by_cases htt : t' = t
    · subst htt
      rw [Function.update_self] at hrun
      exact hx rest made hrun
    · rw [Function.update_of_ne htt] at hrun
      exact h.follows t' rest made hrun
  · rw [held_setThread]
    exact hheld

/-- One call answered: the text goes on from whatever it may answer. -/
theorem Conserved.answered (h : Conserved p s) {t : Thread}
    {op : LoginCall Conn Stmt Res}
    {k : op.Ans → LoginScript Conn Stmt Res (HttpRequest × Bool)}
    {made : List (LoginEvent Conn Stmt Res)}
    (ht : s.thread t = .running (.call op k) made) {ans : op.Ans}
    (hans : LoginScript.Possible ⟨op, ans⟩)
    {pool : PoolSystem Thread (Option Conn)} (halive : pool.stopped = false)
    (hheld : Holders p pool.pool (Function.update s.held t
      (LoginEvent.holding (LoginScript.held made) ⟨op, ans⟩))) :
    Conserved p ({ s with pool }.answer t op k made ans) := by
  obtain ⟨-, hnext⟩ := h.follows t _ _ ht
  refine h.goesOn (fun rest made' hx => ?_) halive ?_ h.finished
  · cases hx
    exact hnext ans hans
  · rw [LoginThread.held, LoginScript.held_append]
    exact hheld

theorem possible_mysql {op : LoginCall Conn Stmt Res} {ans : op.Ans}
    (hop : op.onPool = false) : LoginScript.Possible ⟨op, ans⟩ := by
  cases op with
  | getConn | releaseConn => cases hop
  | _ => trivial

theorem Step.conserved {a : LoginLabel Thread} (h : Step s a s')
    (hnull : ∀ pair ∈ p.connList, pair.2 ≠ none) (hs : s.Conserved p) :
    s'.Conserved p := by
  cases h with
  | start t request hrun ht =>
      refine hs.goesOn (fun rest made hx => ?_) hrun ?_ hs.finished
      · cases hx
        exact LoginScript.loginScript_follows request
      · rw [Function.update_eq_self_iff.mpr (held_idle ht).symm]
        exact hs.holders
  | waits ht ha hstep hpool =>
      refine ⟨hstep.alive ha, hs.follows, ?_, hs.finished⟩
      have hheld := hs.holders
      rw [← hpool] at hheld
      exact hheld
  | @getConn t _ _ _ _ id mysql ht ha hstep htake =>
      have hnone : s.held t = none :=
        (held_running ht).trans (hs.follows t _ _ ht).1
      have hmem := hs.holders.free _ (SqlPool.takeConn_mem htake).1
      exact hs.answered ht (hnull (id, mysql) hmem) (hstep.alive ha)
        (hs.holders.takeConn hnone htake)
  | @releaseConn t id mysql _ _ _ ht hstep halive =>
      have hheld : s.held t = some (id, some mysql) :=
        (held_running ht).trans (hs.follows t _ _ ht).1
      obtain ⟨-, id', hr⟩ := hstep.release_used (hs.holders.inUse t _ hheld)
      exact hs.answered ht trivial halive (hs.holders.releaseConn hheld hr)
  | @exit t id mysql _ _ _ ht hstep hstopped =>
      have hheld : s.held t = some (id, some mysql) :=
        (held_running ht).trans (hs.follows t _ _ ht).1
      obtain ⟨halive, -⟩ := hstep.release_used (hs.holders.inUse t _ hheld)
      rw [halive] at hstopped
      cases hstopped
  | @mysql t _ _ made ans hrun hop ht =>
      refine hs.answered ht (possible_mysql hop) hrun ?_
      rw [LoginScript.holding_mysql hop, ← held_running ht,
        Function.update_eq_self]
      exact hs.holders
  | @ret t _ made hrun ht =>
      obtain ⟨hnone, hbalanced⟩ := hs.follows t _ _ ht
      have hidle : s.held t = none := (held_running ht).trans hnone
      refine hs.goesOn (by nofun) hrun ?_ fun login hlogin => ?_
      · rw [LoginThread.held, Function.update_eq_self_iff.mpr hidle.symm]
        exact hs.holders
      · rcases List.mem_append.mp hlogin with hold | hnew
        · exact hs.finished login hold
        · rw [List.mem_singleton.mp hnew]
          exact hbalanced

theorem conserved_reachable (hp : p.Split (· ∈ p.freeIds))
    (hused : p.usedId = ∅) (hfree : p.freeConn = p.maxConn)
    (hnull : ∀ pair ∈ p.connList, pair.2 ≠ none)
    (hs : (system p).Reachable s) : s.Conserved p := by
  refine hs.invariant (I := Conserved p) ?_ ?_
  · rintro s ⟨⟨hpool, -, halive⟩, hidle, hfinished⟩
    have hnone : s.held = fun _ => none := funext fun t => held_idle (hidle t)
    refine ⟨halive, fun t rest made hrun => ?_, ?_, ?_⟩
    · rw [hidle t] at hrun
      cases hrun
    · rw [hpool, hnone]
      exact .start hp hused hfree
    · rw [hfinished]
      intro login hlogin
      cases hlogin
  · exact fun s a s' _ ih hstep => hstep.conserved hnull ih

end LoginSystem

/-- On a pool that `Init` set up, with any number of threads in `_Login`s side
by side and every answer of every MySQL call: no release ends the process,
every `_Login` that returned gave back what it took, once, and whenever
nobody is in a `_Login` the pool is what `Init` made, up to order. -/
theorem login_conserves_pool {Thread Conn Stmt Res : Type}
    [DecidableEq Thread] {libraryInit : Bool} {mysqlInit : Nat → Option Conn}
    {realConnect : Nat → Bool} {maxSize maxConn freeConn : Int}
    {p : SqlPool (Option Conn)}
    (hinit : SqlPool.init libraryInit (fun i => (mysqlInit i).map some)
      realConnect maxSize (.construct maxConn freeConn) = .ok p)
    {s : LoginSystem Thread Conn Stmt Res}
    (hs : (LoginSystem.system p).Reachable s) :
    s.pool.stopped = false ∧
    (∀ login ∈ s.finished, LoginScript.Balanced login.1) ∧
    ((∀ t, s.thread t = .idle) →
      s.pool.pool.usedId = ∅ ∧ s.pool.pool.freeConn = s.pool.pool.maxConn ∧
        s.pool.pool.connList.Perm p.connList) := by
  obtain ⟨-, hfree, hmax, hused⟩ := SqlPool.init_spec hinit
  have hsplit := SqlPool.init_split hinit
  have hnull : ∀ pair ∈ p.connList, pair.2 ≠ none := by
    intro pair hpair hnone
    obtain ⟨j, -, -, hconn⟩ := SqlPool.init_created hinit pair hpair
    rw [hnone] at hconn
    obtain ⟨mysql, -, hsome⟩ := Option.map_eq_some_iff.mp hconn
    cases hsome
  have hcons := LoginSystem.conserved_reachable hsplit hused
    (hfree.trans hmax.symm) hnull hs
  refine ⟨hcons.alive, hcons.finished, fun hidle => ?_⟩
  exact hcons.holders.quiescent hsplit fun t =>
    LoginSystem.held_idle (hidle t)

/-- One connection and one `_Login` whose statement cannot be prepared: it is
closed, the connection released, and the pool is as before. -/
theorem login_conserves_pool_unprepared :
    ∃ s : LoginSystem Bool Nat Nat Nat,
      s.finished.length = 1 ∧ (∀ t, s.thread t = .idle) ∧
      s.pool.stopped = false ∧
      (∀ login ∈ s.finished, LoginScript.Balanced login.1) ∧
      s.pool.pool.usedId = ∅ ∧
      s.pool.pool.freeConn = s.pool.pool.maxConn ∧
      s.pool.pool.connList.Perm [(0, some 10)] := by
  let p : SqlPool (Option Nat) := ⟨1, 1, [(0, some 10)], ∅⟩
  have hinit : SqlPool.init true (fun i => (some (10 + i)).map some)
      (fun _ => true) 1 (.construct 0 0) = .ok p := rfl
  let s₀ : LoginSystem Bool Nat Nat Nat :=
    ⟨⟨p, fun _ => .outside, false⟩, fun _ => .idle, []⟩
  have h₀ : (LoginSystem.system p).Reachable s₀ :=
    .start ⟨⟨rfl, fun _ => rfl, rfl⟩, fun _ => rfl, rfl⟩
  have h₁ := h₀.next (.start true
    (.construct .requestLine .fileRequest false false) rfl rfl)
  have h₂ := h₁.next (.getConn (t := true) rfl (.inl rfl)
    (.callTake rfl rfl (by decide) rfl) rfl)
  -- the answers to `mysql_stmt_init`, `mysql_stmt_prepare` and
  -- `mysql_stmt_close`
  let created : (LoginCall.stmtInit 10 : LoginCall Nat Nat Nat).Ans := some 5
  let failed : (LoginCall.stmtPrepare 5 HttpResponse.loginQuery :
    LoginCall Nat Nat Nat).Ans := (1 : Int)
  let closed : (LoginCall.stmtClose 5 : LoginCall Nat Nat Nat).Ans := ()
  have h₃ := h₂.next (.mysql (t := true) created rfl rfl rfl)
  have h₄ := h₃.next (.mysql (t := true) failed rfl rfl rfl)
  have h₅ := h₄.next (.mysql (t := true) closed rfl rfl rfl)
  have h₆ := h₅.next (.releaseConn (t := true) rfl
    (.release rfl rfl rfl (.none fun _ => Phase.noConfusion)) rfl)
  have h₇ := h₆.next (.ret (t := true) rfl rfl)
  obtain ⟨halive, hbalanced, hpool⟩ := login_conserves_pool hinit h₇
  refine ⟨_, rfl, ?_, halive, hbalanced, hpool ?_⟩
  · exact Bool.forall_bool.mpr ⟨rfl, rfl⟩
  · exact Bool.forall_bool.mpr ⟨rfl, rfl⟩

end TinyWebServer
