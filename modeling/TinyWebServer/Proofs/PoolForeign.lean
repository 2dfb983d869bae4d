import TinyWebServer.Proofs.PoolPartition

/-!
# Which connections get into the pool

`used_id` is there, by its comment, to keep foreign connections out of the
pool, but `ReleaseConn` looks up the id only and takes the pointer on trust.
An id in use with somebody else's pointer goes through, and the next `GetConn`
hands that pointer out a second time.

The pool is as honest as its callers: when every release of an id in use
brings the pointer `Init` created under that id, all pairs in the list are
`Init`'s, and so are all pairs handed out. `mysql_init` answers a new object
each time, so two ids then never share a connection.
-/

namespace TinyWebServer

open Lib

variable {Conn : Type}

namespace SqlPool

/-- What the loop of `Init` appends, and where it comes from. -/
theorem initLoop_created {mysqlInit : Nat → Option Conn}
    {realConnect : Nat → Bool} : ∀ {todo i : Nat} {p p' : SqlPool Conn},
    initLoop mysqlInit realConnect todo i p = .ok p' →
    ∀ pair ∈ p'.connList, pair ∈ p.connList ∨
      ∃ j, i ≤ j ∧ j < i + todo ∧ pair.1 = j ∧ mysqlInit j = some pair.2 := by
  intro todo
  induction todo with
  | zero =>
      intro i p p' h pair hpair
      rw [initLoop] at h
      cases h
      exact .inl hpair
  | succ n ih =>
      intro i p p' h pair hpair
      rw [initLoop] at h
      split at h
      · cases h
      · next mysql hm =>
          split at h
          · rcases ih h pair hpair with hold | ⟨j, hij, hj, hid, hconn⟩
            · rcases List.mem_append.mp hold with hold | hnew
              · exact .inl hold
              · rw [List.mem_singleton] at hnew
                subst hnew
                exact .inr ⟨i, Nat.le_refl i, by omega, rfl, hm⟩
            · exact .inr ⟨j, by omega, by omega, hid, hconn⟩
          · cases h

theorem init_created {libraryInit : Bool} {mysqlInit : Nat → Option Conn}
    {realConnect : Nat → Bool} {maxSize maxConn freeConn : Int}
    {p : SqlPool Conn}
    (h : init libraryInit mysqlInit realConnect maxSize
      (construct maxConn freeConn) = .ok p) :
    ∀ pair ∈ p.connList, ∃ j : Nat, j < maxSize ∧ pair.1 = j ∧
      mysqlInit j = some pair.2 := by
  intro pair hpair
  rw [init] at h
  split at h
  · rcases initLoop_created h pair hpair with hold | ⟨j, _, hj, hid, hconn⟩
    · cases hold
    · exact ⟨j, by omega, hid, hconn⟩
  · cases h

theorem takeConn_mem {p p' : SqlPool Conn} {id : Int} {mysql : Conn}
    (h : p.takeConn = .ok (p', id, mysql)) :
    (id, mysql) ∈ p.connList ∧ ∀ pair ∈ p'.connList, pair ∈ p.connList := by
  rw [takeConn] at h
  split at h
  · cases h
  · next item rest hl =>
      cases h
      rw [hl]
      exact ⟨List.mem_cons_self, fun pair hpair =>
        List.mem_cons_of_mem _ hpair⟩

theorem takeConn_used {p p' : SqlPool Conn} {id : Int} {mysql : Conn}
    (h : p.takeConn = .ok (p', id, mysql)) :
    p'.usedId = insert id p.usedId ∧ p'.maxConn = p.maxConn := by
  rw [takeConn] at h
  split at h
  · cases h
  · cases h
    exact ⟨rfl, rfl⟩

theorem releaseConn_used {p p' : SqlPool Conn} {id id' : Int} {mysql : Conn}
    (h : p.releaseConn id mysql = some (p', id')) :
    p'.usedId = p.usedId.erase id ∧ p'.maxConn = p.maxConn := by
  rw [releaseConn] at h
  split at h
  · cases h
    exact ⟨rfl, rfl⟩
  · cases h

/-- A release that goes through puts the caller's pointer into the list,
whatever it is. -/
theorem releaseConn_connList {p p' : SqlPool Conn} {id id' : Int}
    {mysql : Conn} (h : p.releaseConn id mysql = some (p', id')) :
    p'.connList = p.connList ++ [(id, mysql)] := by
  rw [releaseConn] at h
  split at h
  · cases h
    rfl
  · cases h

end SqlPool

/-- A release of an id in use goes through. -/
theorem PoolSystem.Step.release_used {Thread : Type} [DecidableEq Thread]
    {s s' : PoolSystem Thread Conn} {t : Thread} {id : Int} {mysql : Conn}
    (h : Step s (.release t id mysql) s') (hid : id ∈ s.pool.usedId) :
    s'.stopped = false ∧
      ∃ id', s.pool.releaseConn id mysql = some (s'.pool, id') := by
  cases h with
  | release hrun _ hr hn =>
      refine ⟨?_, _, by rw [hn.pool]; exact hr⟩
      rw [hn.stopped]
      exact hrun
  | exit _ _ hr =>
      rw [SqlPool.releaseConn, if_pos hid] at hr
      cases hr

/-- What an updated table has was put there, or was there before. -/
theorem update_eq_some {ι α : Type} [DecidableEq ι] {f : ι → Option α}
    {i j : ι} {x : Option α} {a : α} (h : Function.update f i x j = some a) :
    j = i ∧ x = some a ∨ j ≠ i ∧ f j = some a := by
  by_cases hji : j = i
  · subst hji
    rw [Function.update_self] at h
    exact .inl ⟨rfl, h⟩
  · rw [Function.update_of_ne hji] at h
    exact .inr ⟨hji, h⟩

namespace Lending

variable {Thread : Type} [DecidableEq Thread]

/-- A release of an id in use brings back a pair of `Init`'s; `created` is the
list `Init` made. -/
def BringsOwn (created : List (Int × Conn)) (s : Lending Thread Conn) :
    PoolLabel Thread Conn → Prop
  | .release _ id mysql => id ∈ s.system.pool.usedId → (id, mysql) ∈ created
  | .call _ | .wake _ => True

/-- Every pair in the list and every pair handed out is one of `created`. -/
structure Own (created : List (Int × Conn)) (s : Lending Thread Conn) :
    Prop where
  free : ∀ pair ∈ s.system.pool.connList, pair ∈ created
  lent : ∀ id mysql, s.lent id = some mysql → (id, mysql) ∈ created

theorem lent_update {created : List (Int × Conn)} {lent : Int → Option Conn}
    {id : Int} {conn : Option Conn}
    (h : ∀ id mysql, lent id = some mysql → (id, mysql) ∈ created)
    (hconn : ∀ mysql, conn = some mysql → (id, mysql) ∈ created) :
    ∀ id' mysql, Function.update lent id conn id' = some mysql →
      (id', mysql) ∈ created := by
  intro id' mysql h'
  rcases update_eq_some h' with ⟨hid, hnew⟩ | ⟨-, hold⟩
  · rw [hid]
    exact hconn mysql hnew
  · exact h id' mysql hold

theorem Step.own {created : List (Int × Conn)} {s s' : Lending Thread Conn}
    {a : PoolLabel Thread Conn} (h : Step s a s')
    (hbring : s.BringsOwn created a) (hs : s.Own created) :
    s'.Own created := by
  cases h with
  | take _ ht =>
      obtain ⟨htaken, hrest⟩ := SqlPool.takeConn_mem ht
      refine ⟨fun pair hpair => hs.free pair (hrest pair hpair),
        lent_update hs.lent fun mysql hm => ?_⟩
      cases hm
      exact hs.free _ htaken
  | @release s s' lent t id mysql hstep hused =>
      refine ⟨fun pair hpair => ?_, lent_update hs.lent nofun⟩
      obtain ⟨-, id', hr⟩ := hstep.release_used hused
      rw [SqlPool.releaseConn_connList hr] at hpair
      rcases List.mem_append.mp hpair with hold | hnew
      · exact hs.free pair hold
      · rw [List.mem_singleton] at hnew
        rw [hnew]
        exact hbring hused
  | other _ hpool => exact ⟨by rw [hpool]; exact hs.free, hs.lent⟩

theorem own_reachable {p : SqlPool Conn} {s : Lending Thread Conn}
    (hs : ((runs p).restrict (BringsOwn p.connList)).Reachable s) :
    s.Own p.connList := by
  refine hs.invariant (I := Own p.connList) ?_ ?_
  · rintro s ⟨⟨hpool, -, -⟩, hlent⟩
    refine ⟨by rw [hpool]; exact fun _ h => h, fun id mysql h => ?_⟩
    rw [hlent id] at h
    cases h
  · exact fun s a s' _ ih hstep => hstep.2.own hstep.1 ih

end Lending

/-- After a successful `Init`, in every run in which every release of an id in
use brings the pair `Init` created under that id: every pair in the list is
one of `Init`'s, and, as `mysql_init` answers a different object each time, no
two ids are lent with the same connection. -/
theorem pool_keeps_own {Thread Conn : Type} [DecidableEq Thread]
    {libraryInit : Bool} {mysqlInit : Nat → Option Conn}
    {realConnect : Nat → Bool} {maxSize maxConn freeConn : Int}
    {p : SqlPool Conn}
    (hinit : SqlPool.init libraryInit mysqlInit realConnect maxSize
      (.construct maxConn freeConn) = .ok p)
    (hnew : ∀ i j : Nat, i < maxSize → j < maxSize →
      mysqlInit i = mysqlInit j → i = j)
    {s : Lending Thread Conn}
    (hs : ((Lending.runs p).restrict
      (Lending.BringsOwn p.connList)).Reachable s) :
    (∀ pair ∈ s.system.pool.connList, pair ∈ p.connList) ∧
    ∀ id id' mysql, s.lent id = some mysql → s.lent id' = some mysql →
      id = id' := by
  have hown := Lending.own_reachable hs
  refine ⟨hown.free, fun id id' mysql h h' => ?_⟩
  obtain ⟨i, hi, hid, hconn⟩ := SqlPool.init_created hinit _
    (hown.lent id mysql h)
  obtain ⟨j, hj, hid', hconn'⟩ := SqlPool.init_created hinit _
    (hown.lent id' mysql h')
  have hij := hnew i j hi hj (hconn.trans hconn'.symm)
  rw [show id = (i : Int) from hid, show id' = (j : Int) from hid', hij]

namespace Lending

/-- What `Init` makes of two connections, `10` and `11`. -/
def pairPool : SqlPool Nat := ⟨2, 2, [(0, 10), (1, 11)], ∅⟩

theorem init_pairPool :
    SqlPool.init true (fun i => some (10 + i)) (fun _ => true) 2
      (.construct 0 0) = .ok pairPool := rfl

/-- Both connections of `pairPool` are out, one to each of two threads. -/
def bothLent : Lending Bool Nat :=
  { system := ⟨⟨2, 0, [], {1, 0}⟩, fun _ => .outside, false⟩
    lent := Function.update (Function.update (fun _ => none) 0 (some 10)) 1
      (some 11) }

theorem bothLent_reachable :
    ((runs pairPool).restrict (BringsOwn pairPool.connList)).Reachable
      bothLent := by
  have hstart : ((runs pairPool).restrict
      (BringsOwn pairPool.connList)).Reachable
      (⟨⟨pairPool, fun _ => .outside, false⟩, fun _ => none⟩ :
        Lending Bool Nat) :=
    .start ⟨⟨rfl, fun _ => rfl, rfl⟩, fun _ => rfl⟩
  have hone := hstart.next_restrict
    (.take (.callTake (t := false) rfl rfl (by decide) rfl) rfl) trivial
  exact hone.next_restrict
    (.take (.callTake (t := true) rfl rfl (by decide) rfl) rfl) trivial

end Lending

/-- From both connections lent, one is released as it was got. -/
theorem pool_keeps_own_pair :
    let s : Lending Bool Nat :=
      { system := ⟨⟨2, 1, [(1, 11)], {0}⟩, fun _ => .outside, false⟩
        lent := Function.update Lending.bothLent.lent 1 none }
    (∀ pair ∈ s.system.pool.connList, pair ∈ Lending.pairPool.connList) ∧
    ∀ id id' mysql, s.lent id = some mysql → s.lent id' = some mysql →
      id = id' := by
  intro s
  have hrelease : PoolSystem.Step Lending.bothLent.system
      (.release true 1 11) s.system :=
    .release rfl rfl rfl (.none fun _ => Phase.noConfusion)
  have hs : ((Lending.runs Lending.pairPool).restrict
      (Lending.BringsOwn Lending.pairPool.connList)).Reachable s :=
    Lending.bothLent_reachable.next_restrict
      (.release hrelease (by decide)) (fun _ => by decide)
  exact pool_keeps_own Lending.init_pairPool (by intro i j _ _ h; simpa using h)
    hs

/-- The holder of `1` releases it with the other holder's pointer: the pair is
not one of `Init`'s, and the next `GetConn` hands that pointer out under `1`
while it is still out under `0`. -/
theorem pool_takes_foreign :
    SqlPool.init true (fun i => some (10 + i)) (fun _ => true) 2
      (.construct 0 0) = .ok Lending.pairPool ∧
    ∃ s s' : Lending Bool Nat,
      (Lending.runs Lending.pairPool).Reachable s ∧
      s.system.stopped = false ∧
      (1, 10) ∈ s.system.pool.connList ∧
      (1, 10) ∉ Lending.pairPool.connList ∧
      (Lending.runs Lending.pairPool).Reachable s' ∧
      s'.system.stopped = false ∧
      s'.lent 0 = some 10 ∧ s'.lent 1 = some 10 := by
  have hrelease : PoolSystem.Step Lending.bothLent.system (.release true 1 10)
      ⟨⟨2, 1, [(1, 10)], {0}⟩, fun _ => .outside, false⟩ :=
    .release rfl rfl rfl (.none fun _ => Phase.noConfusion)
  have hforeign := Lending.bothLent_reachable.of_restrict.next
    (.release hrelease (by decide))
  have hagain := hforeign.next
    (.take (.callTake (t := true) rfl rfl (by decide) rfl) rfl)
  exact ⟨Lending.init_pairPool, _, _, hforeign, rfl, List.mem_cons_self,
    by decide, hagain, rfl, rfl, rfl⟩

end TinyWebServer
