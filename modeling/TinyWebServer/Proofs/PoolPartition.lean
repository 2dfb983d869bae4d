import TinyWebServer.Model.SqlPool

/-!
# The pool's ids are always split into free and in use

The pool keeps three views of one thing: the list of free pairs, the counter
of them, and the set of ids handed out, each updated by its own statement.
`SqlPool.Partition` says that they never disagree: the counter is the length
of the list, the ids in the list are distinct and not in use, and the two
together are exactly the ids `Init` created.

Threads come in only through `Step.pool_cases`: whoever takes a step, asleep
or barging, the pool is left alone, one pair is taken from its front, or one
id in use is put back. What a step can do to the pool is therefore three
cases, and the invariant is checked on those.
-/

namespace TinyWebServer

open Lib

variable {Conn : Type}

namespace SqlPool

/-- The ids of the free pairs. -/
def freeIds (p : SqlPool Conn) : List Int := p.connList.map Prod.fst

/-- The three views agree, over the ids `0 .. n - 1`. -/
structure Partition (n : Int) (p : SqlPool Conn) : Prop where
  count : p.freeConn = p.connList.length
  nodup : p.freeIds.Nodup
  disjoint : ∀ id ∈ p.freeIds, id ∉ p.usedId
  cover : ∀ id, id ∈ p.freeIds ∨ id ∈ p.usedId ↔ 0 ≤ id ∧ id < n

/-- The ids alone: the free ones are distinct and not in use, and the two
together are those for which `ids` holds. -/
structure Split (ids : Int → Prop) (p : SqlPool Conn) : Prop where
  nodup : p.freeIds.Nodup
  disjoint : ∀ id ∈ p.freeIds, id ∉ p.usedId
  cover : ∀ id, id ∈ p.freeIds ∨ id ∈ p.usedId ↔ ids id

theorem Partition.split {n : Int} {p : SqlPool Conn} (h : Partition n p) :
    Split (fun id => 0 ≤ id ∧ id < n) p := ⟨h.nodup, h.disjoint, h.cover⟩

theorem Partition.of_split {n : Int} {p : SqlPool Conn}
    (hcount : p.freeConn = p.connList.length)
    (h : Split (fun id => 0 ≤ id ∧ id < n) p) : Partition n p :=
  ⟨hcount, h.nodup, h.disjoint, h.cover⟩

/-! ## `Init` -/

/-- The loop of `Init` appends one pair a round, numbered on. -/
theorem initLoop_ok {mysqlInit : Nat → Option Conn}
    {realConnect : Nat → Bool} : ∀ {todo i : Nat} {p p' : SqlPool Conn},
    initLoop mysqlInit realConnect todo i p = .ok p' →
    p.freeIds = (List.range i).map Int.ofNat →
    p'.freeIds = (List.range (i + todo)).map Int.ofNat ∧
      p'.freeConn = p.freeConn ∧ p'.maxConn = p.maxConn ∧
      p'.usedId = p.usedId := by
  intro todo
  induction todo with
  | zero =>
      intro i p p' h hids
      rw [initLoop] at h
      cases h
      exact ⟨hids, rfl, rfl, rfl⟩
  | succ n ih =>
      intro i p p' h hids
      rw [initLoop] at h
      split at h
      · cases h
      · next mysql hm =>
          split at h
          · obtain ⟨h1, hrest⟩ := ih h (by
              simp only [freeIds, List.map_append, List.map_cons,
                List.map_nil] at hids ⊢
              rw [hids, List.range_succ, List.map_append]
              rfl)
            exact ⟨by rw [h1, show i + 1 + n = i + (n + 1) by omega], hrest⟩
          · cases h

/-- What `Init` leaves, for any size it was given. -/
theorem init_spec {libraryInit : Bool} {mysqlInit : Nat → Option Conn}
    {realConnect : Nat → Bool} {maxSize maxConn freeConn : Int}
    {p : SqlPool Conn}
    (h : init libraryInit mysqlInit realConnect maxSize
      (construct maxConn freeConn) = .ok p) :
    p.freeIds = (List.range maxSize.toNat).map Int.ofNat ∧
      p.freeConn = maxSize ∧ p.maxConn = maxSize ∧ p.usedId = ∅ := by
  rw [init] at h
  split at h
  · obtain ⟨hids, hrest⟩ := initLoop_ok h (by simp [construct, freeIds])
    rw [Nat.zero_add] at hids
    exact ⟨hids, hrest⟩
  · cases h

theorem init_split {libraryInit : Bool} {mysqlInit : Nat → Option Conn}
    {realConnect : Nat → Bool} {maxSize maxConn freeConn : Int}
    {p : SqlPool Conn}
    (h : init libraryInit mysqlInit realConnect maxSize
      (construct maxConn freeConn) = .ok p) :
    Split (· ∈ p.freeIds) p := by
  obtain ⟨hids, -, -, hused⟩ := init_spec h
  refine ⟨?_, ?_, ?_⟩
  · rw [hids]
    exact List.nodup_range.map fun _ _ h => Int.ofNat.inj h
  · intro id _
    rw [hused]
    exact Finset.notMem_empty id
  · intro id
    rw [hused]
    simp

theorem init_partition {libraryInit : Bool} {mysqlInit : Nat → Option Conn}
    {realConnect : Nat → Bool} {maxSize maxConn freeConn : Int}
    (hmax : 0 ≤ maxSize) {p : SqlPool Conn}
    (h : init libraryInit mysqlInit realConnect maxSize
      (construct maxConn freeConn) = .ok p) : Partition maxSize p := by
  obtain ⟨hids, hfree, -, -⟩ := init_spec h
  obtain ⟨hnodup, hdisj, hcover⟩ := init_split h
  have hlen : p.connList.length = maxSize.toNat := by
    have := congrArg List.length hids
    simpa [freeIds] using this
  refine ⟨by omega, hnodup, hdisj, fun id => ?_⟩
  rw [hcover id, hids]
  simp only [List.mem_map, List.mem_range]
  refine ⟨?_, fun hid => ⟨id.toNat, by omega, ?_⟩⟩
  · rintro ⟨k, hk, rfl⟩
    simp only [Int.ofNat_eq_natCast]
    omega
  · simp only [Int.ofNat_eq_natCast]
    omega

/-! ## `GetConn` and `ReleaseConn` -/

/-- Past the waiting loop there is a pair to take, and its id is not in
use. -/
theorem Partition.takeConn_spec {n : Int} {p : SqlPool Conn}
    (h : Partition n p) (hfree : p.freeConn ≠ 0) :
    ∃ p' id mysql, p.takeConn = .ok (p', id, mysql) ∧ id ∉ p.usedId := by
  have hcount := h.count
  have hdisj := h.disjoint
  cases hl : p.connList with
  | nil => rw [hl] at hcount; exact absurd hcount hfree
  | cons item rest =>
      refine ⟨_, item.1, item.2, by rw [takeConn, hl], ?_⟩
      exact hdisj item.1 (by simp [freeIds, hl])

theorem Split.takeConn {ids : Int → Prop} {p p' : SqlPool Conn} {id : Int}
    {mysql : Conn} (h : Split ids p)
    (ht : p.takeConn = .ok (p', id, mysql)) : id ∉ p.usedId ∧ Split ids p' := by
  obtain ⟨hnodup, hdisj, hcover⟩ := h
  rw [SqlPool.takeConn] at ht
  split at ht
  · cases ht
  · next item rest hl =>
      cases ht
      simp only [freeIds, hl, List.map_cons,
        List.nodup_cons] at hnodup hdisj hcover
      refine ⟨hdisj item.1 List.mem_cons_self, hnodup.2, ?_, ?_⟩
      · intro k hk
        have hne : k ≠ item.1 := fun he => hnodup.1 (he ▸ hk)
        have := hdisj k (List.mem_cons_of_mem _ hk)
        simp [Finset.mem_insert, hne, this]
      · intro k
        rw [← hcover k]
        simp only [freeIds, List.mem_cons, Finset.mem_insert]
        tauto

/-- A release goes through exactly for an id in use, and moves it back. -/
theorem Split.releaseConn {ids : Int → Prop} {p p' : SqlPool Conn}
    {id id' : Int} {mysql : Conn} (h : Split ids p)
    (hr : p.releaseConn id mysql = some (p', id')) : Split ids p' := by
  obtain ⟨hnodup, hdisj, hcover⟩ := h
  rw [SqlPool.releaseConn] at hr
  split at hr
  · next hused =>
      cases hr
      have hnot : id ∉ p.freeIds := fun hm => hdisj id hm hused
      simp only [freeIds] at hnodup hdisj hcover hnot
      refine ⟨?_, ?_, ?_⟩
      · simp only [freeIds, List.map_append, List.map_cons, List.map_nil]
        exact List.nodup_append.mpr ⟨hnodup, List.nodup_singleton _, by
          rintro a ha b hb rfl
          rw [List.mem_singleton] at hb
          exact hnot (hb ▸ ha)⟩
      · intro k hk
        simp only [freeIds, List.map_append, List.map_cons, List.map_nil,
          List.mem_append, List.mem_singleton] at hk
        rw [Finset.mem_erase]
        rintro ⟨hne, hin⟩
        exact hk.elim (fun hk => hdisj k hk hin) (fun hk => hne hk)
      · intro k
        rw [← hcover k]
        simp only [freeIds, List.map_append, List.map_cons, List.map_nil,
          List.mem_append, List.mem_singleton, Finset.mem_erase]
        by_cases hk : k = id
        · subst hk; simp [hused]
        · simp [hk]
  · cases hr

/-- The counter goes with the length of the list, whatever it was before. -/
theorem takeConn_count {p p' : SqlPool Conn} {id : Int} {mysql : Conn}
    (h : p.takeConn = .ok (p', id, mysql)) :
    p.connList.length = p'.connList.length + 1 ∧
      p'.freeConn = p.freeConn - 1 := by
  rw [takeConn] at h
  split at h
  · cases h
  · next item rest hl =>
      cases h
      rw [hl, List.length_cons]
      exact ⟨rfl, rfl⟩

theorem releaseConn_count {p p' : SqlPool Conn} {id id' : Int} {mysql : Conn}
    (h : p.releaseConn id mysql = some (p', id')) :
    p'.connList.length = p.connList.length + 1 ∧
      p'.freeConn = p.freeConn + 1 := by
  rw [releaseConn] at h
  split at h
  · cases h
    rw [List.length_append, List.length_singleton]
    exact ⟨rfl, rfl⟩
  · cases h

theorem Partition.takeConn {n : Int} {p p' : SqlPool Conn} {id : Int}
    {mysql : Conn} (h : Partition n p)
    (ht : p.takeConn = .ok (p', id, mysql)) : Partition n p' := by
  have hold := h.count
  obtain ⟨hlen, hfree⟩ := takeConn_count ht
  exact .of_split (by omega) (h.split.takeConn ht).2

theorem Partition.releaseConn {n : Int} {p p' : SqlPool Conn} {id id' : Int}
    {mysql : Conn} (h : Partition n p)
    (hr : p.releaseConn id mysql = some (p', id')) : Partition n p' := by
  have hold := h.count
  obtain ⟨hlen, hfree⟩ := releaseConn_count hr
  exact .of_split (by omega) (h.split.releaseConn hr)

theorem releaseConn_unknown {p : SqlPool Conn} {id : Int} (mysql : Conn)
    (h : id ∉ p.usedId) : p.releaseConn id mysql = none := if_neg h

end SqlPool

/-! ## Every interleaving -/

namespace PoolSystem

variable {Thread : Type} [DecidableEq Thread]

theorem NotifyOne.pool {s s' : PoolSystem Thread Conn} (h : NotifyOne s s') :
    s'.pool = s.pool := by
  cases h with
  | some | none => rfl

theorem NotifyOne.stopped {s s' : PoolSystem Thread Conn}
    (h : NotifyOne s s') : s'.stopped = s.stopped := by
  cases h with
  | some | none => rfl

/-- All a step can do to the pool, whichever thread takes it. -/
theorem Step.pool_cases {s s' : PoolSystem Thread Conn}
    {a : PoolLabel Thread Conn} (h : Step s a s') :
    s'.pool = s.pool ∨
      (∃ id mysql, s.pool.takeConn = .ok (s'.pool, id, mysql)) ∨
      (∃ id mysql id', s.pool.releaseConn id mysql = some (s'.pool, id')) := by
  cases h with
  | callWait | wakeWait | exit => exact .inl rfl
  | callTake _ _ _ ht | wakeTake _ _ _ ht => exact .inr (.inl ⟨_, _, ht⟩)
  | release _ _ hr hn =>
      rw [hn.pool]
      exact .inr (.inr ⟨_, _, _, hr⟩)

theorem partition_reachable {n : Int} {p : SqlPool Conn}
    (hp : p.Partition n) {s : PoolSystem Thread Conn}
    (hs : (system p).Reachable s) : s.pool.Partition n := by
  refine hs.invariant (I := fun s => s.pool.Partition n) ?_ ?_
  · rintro s ⟨hpool, -, -⟩
    rw [hpool]
    exact hp
  · intro s a s' _ ih hstep
    obtain hsame | ⟨id, mysql, ht⟩ | ⟨id, mysql, id', hr⟩ := hstep.pool_cases
    · rw [hsame]; exact ih
    · exact ih.takeConn ht
    · exact ih.releaseConn hr

/-- A release of an id that is not in use is the `exit(1)` branch: the pool
and every thread stay as they are, and the process is over. -/
theorem Step.release_unknown {s s' : PoolSystem Thread Conn} {t : Thread}
    {id : Int} {mysql : Conn} (h : Step s (.release t id mysql) s')
    (hid : id ∉ s.pool.usedId) : s' = { s with stopped := true } := by
  cases h with
  | release _ _ hr _ =>
      rw [SqlPool.releaseConn_unknown mysql hid] at hr
      cases hr
  | exit => rfl

end PoolSystem

/-- After a successful `Init`, over every interleaving: the three views of the
pool agree on the ids `0 .. maxSize - 1`, a thread that passed the waiting
loop finds a pair whose id is not in use, and releasing an id that is not in
use only ends the process. -/
theorem pool_partition {Thread Conn : Type} [DecidableEq Thread]
    {libraryInit : Bool} {mysqlInit : Nat → Option Conn}
    {realConnect : Nat → Bool} {maxSize maxConn freeConn : Int}
    (hmax : 0 ≤ maxSize) {p : SqlPool Conn}
    (hinit : SqlPool.init libraryInit mysqlInit realConnect maxSize
      (.construct maxConn freeConn) = .ok p)
    {s : PoolSystem Thread Conn}
    (hs : (PoolSystem.system p).Reachable s) :
    s.pool.Partition maxSize ∧
      (s.pool.freeConn ≠ 0 → ∃ p' id mysql,
        s.pool.takeConn = .ok (p', id, mysql) ∧ id ∉ s.pool.usedId) ∧
      (∀ t id mysql s', id ∉ s.pool.usedId →
        PoolSystem.Step s (.release t id mysql) s' →
        s' = { s with stopped := true }) := by
  have hpart := PoolSystem.partition_reachable
    (SqlPool.init_partition hmax hinit) hs
  exact ⟨hpart, hpart.takeConn_spec,
    fun _ _ _ _ hid hstep => hstep.release_unknown hid⟩

/-- Two connections, one of them taken by a thread: the other is still free,
and nobody may release it. -/
theorem pool_partition_two :
    let s : PoolSystem Nat Nat := ⟨⟨2, 1, [(1, 1)], {0}⟩, fun _ => .outside,
      false⟩
    s.pool.Partition 2 ∧
      (s.pool.freeConn ≠ 0 → ∃ p' id mysql,
        s.pool.takeConn = .ok (p', id, mysql) ∧ id ∉ s.pool.usedId) ∧
      (∀ t id mysql s', id ∉ s.pool.usedId →
        PoolSystem.Step s (.release t id mysql) s' →
        s' = { s with stopped := true }) := by
  intro s
  have hstart : (PoolSystem.system ⟨2, 2, [(0, 0), (1, 1)], ∅⟩).Reachable
      (⟨⟨2, 2, [(0, 0), (1, 1)], ∅⟩, fun _ => .outside, false⟩ :
        PoolSystem Nat Nat) := .start ⟨rfl, fun _ => rfl, rfl⟩
  have hs : (PoolSystem.system ⟨2, 2, [(0, 0), (1, 1)], ∅⟩).Reachable s :=
    hstart.next (.callTake (t := 7) rfl rfl (by decide) rfl)
  have hinit : SqlPool.init true some (fun _ => true) 2 (.construct 0 0)
      = .ok ⟨2, 2, [(0, 0), (1, 1)], ∅⟩ := rfl
  exact pool_partition (by decide) hinit hs

end TinyWebServer
