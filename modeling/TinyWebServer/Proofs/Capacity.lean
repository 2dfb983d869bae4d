import TinyWebServer.Proofs.Service

/-!
# The memory of a connection

A vector that `_Dilatation` has grown never gets smaller again, and a
connector stays in `_clients` after its client has left. So what a descriptor
costs is what the worst of its clients cost. How much that is can be said
exactly, because a buffer is only ever added to with nothing before what it
holds: `_Dilatation` then grows the vector to what it will hold, and not a
byte further.
-/

namespace TinyWebServer

open Lib

namespace Buffer

/-- `b'` is `b` after more was added, with nothing before what it holds: the
vector is as long as it was, or as what it holds now. -/
structure Swelled (b b' : Buffer) : Prop where
  inv : b'.Inv
  front : b'.readp = 0
  held : b.readableSize ≤ b'.readableSize
  size : b'.buffer.length = max b.buffer.length b'.readableSize

theorem Inv.length_eq {b : Buffer} (h : b.Inv) :
    b.buffer.length = b.preparedSize + b.readableSize + b.writeableSize := by
  have hr := h.readp_le
  have hw := h.writep_le
  rw [preparedSize, readableSize, writeableSize]
  omega

theorem Inv.held_le {b : Buffer} (h : b.Inv) :
    b.readableSize ≤ b.buffer.length := by
  have hlen := h.length_eq
  omega

theorem Inv.swelled {b : Buffer} (h : b.Inv) (hfront : b.readp = 0) :
    Swelled b b :=
  ⟨h, hfront, Nat.le_refl _, (max_eq_left h.held_le).symm⟩

theorem Swelled.trans {b₁ b₂ b₃ : Buffer} (h₁ : Swelled b₁ b₂)
    (h₂ : Swelled b₂ b₃) : Swelled b₁ b₃ := by
  have hheld := h₂.held
  refine ⟨h₂.inv, h₂.front, h₁.held.trans hheld, ?_⟩
  rw [h₂.size, h₁.size, max_assoc, max_eq_right hheld]

theorem Inv.add_swelled {b b' : Buffer} (h : b.Inv) (hfront : b.readp = 0)
    {str : Bytes} {len : Nat} (hadd : b.add (some str) len = .ok b') :
    Swelled b b' := by
  have hroom := h.add_room hadd
  obtain ⟨hinv, hheld⟩ := h.add_ok hadd
  rw [hinv.length_readable, h.length_readable] at hheld
  have hwriteable : b'.writeableSize = (b.room.add len).writeable :=
    congrArg Room.writeable hroom
  have hprepared : b'.preparedSize = (b.room.add len).prepared :=
    congrArg Room.prepared hroom
  have hnone : b.room.prepared = 0 := hfront
  have hfree : b.room.writeable = b.writeableSize := rfl
  have hlen := h.length_eq
  have hlen' := hinv.length_eq
  rw [Room.add, Room.guard] at hwriteable hprepared
  have hempty : b'.preparedSize = 0 := by
    rw [hprepared]
    split
    · split
      · rfl
      · exact hnone
    · exact hnone
  refine ⟨hinv, hempty, by omega, ?_⟩
  split at hwriteable
  · rw [if_neg (by omega)] at hwriteable
    simp only [] at hwriteable
    rw [show b.preparedSize = 0 from hfront] at hlen
    omega
  · simp only [] at hwriteable
    rw [show b.preparedSize = 0 from hfront] at hlen
    omega

theorem Inv.readFD_swelled {b b' : Buffer} (h : b.Inv) (hfront : b.readp = 0)
    {spill : Spill} {got : Option Bytes} {len : Int} {status : Bool}
    (hr : b.readFD spill got = .ok (b', len, status)) : Swelled b b' := by
  cases got with
  | none =>
      rw [h.readFD_failed spill] at hr
      cases hr
      exact h.swelled hfront
  | some s =>
      have hlen := h.length_eq
      by_cases hfit : s.length ≤ b.writeableSize
      · have hprepared : b'.preparedSize = b.preparedSize := by
          have hroom := (h.readFD_room hr).2
          rw [Room.readFD, if_pos (show s.length ≤ b.room.writeable from hfit)]
            at hroom
          exact congrArg Room.prepared hroom
        obtain ⟨b'', hb'', hinv, hread, hsize, -⟩ := h.readFD_fits hfit spill
        rw [hb''] at hr
        cases hr
        have hheld := congrArg List.length hread
        rw [List.length_append, hinv.length_readable, h.length_readable]
          at hheld
        refine ⟨hinv, hprepared.trans hfront, by omega, ?_⟩
        rw [hsize, max_eq_left (hsize ▸ hinv.held_le)]
      · obtain ⟨full, hfull, hroom, hread, buff1, buff2, -, -, heq⟩ :=
          h.readFD_over spill (Nat.not_le.mp hfit)
        rw [heq] at hr
        obtain ⟨b₁, h₁, hr⟩ := bind_ok_iff.mp hr
        obtain ⟨b₂, h₂, hr⟩ := bind_ok_iff.mp hr
        cases hr
        have hprepared : full.preparedSize = b.preparedSize :=
          congrArg Room.prepared hroom
        have hnone : full.writeableSize = 0 := congrArg Room.writeable hroom
        rw [hfull.length_readable, h.length_readable] at hread
        have hlen' := hfull.length_eq
        have hsame : full.buffer.length = b.buffer.length := by omega
        have htail : Swelled b full :=
          ⟨hfull, hprepared.trans hfront, by omega, by
            rw [hsame, max_eq_left (hsame ▸ hfull.held_le)]⟩
        have hfirst := hfull.add_swelled htail.front h₁
        exact (htail.trans hfirst).trans
          (hfirst.inv.add_swelled hfirst.front h₂)

end Buffer

namespace HttpConnector

theorem readLoop_swelled : ∀ {arrived : List Recv} {last : Recv}
    {b b' : Buffer} {len : Int} {status : Bool}, b.Inv → b.readp = 0 →
    readLoop b arrived last = .ok (b', len, status) → b.Swelled b' := by
  intro arrived
  induction arrived with
  | nil =>
      intro last b b' len status h hfront hr
      exact h.readFD_swelled hfront hr
  | cons recv rest ih =>
      intro last b b' len status h hfront hr
      rw [readLoop] at hr
      obtain ⟨⟨b₁, len₁, status₁⟩, h₁, hr⟩ := bind_ok_iff.mp hr
      have hfirst := h.readFD_swelled hfront h₁
      simp only [] at hr
      split at hr
      · cases hr
        exact hfirst
      · exact hfirst.trans (ih hfirst.inv hfirst.front hr)

theorem consume_length {c c' : HttpConnector} {len : Int}
    (hc : c.consume len = .ok c') :
    c'.readBuffer = c.readBuffer ∧
      c'.writeBuffer.buffer.length = c.writeBuffer.buffer.length := by
  rw [consume] at hc
  split at hc
  · simp only [] at hc
    split at hc
    · cases hc
      exact ⟨rfl, List.length_replicate⟩
    · cases hc
      exact ⟨rfl, rfl⟩
  · obtain ⟨b, hb, hc⟩ := bind_ok_iff.mp hc
    cases hc
    obtain ⟨u, -, hb⟩ := bind_ok_iff.mp hb
    cases hb
    exact ⟨rfl, rfl⟩

theorem write_length : ∀ {results : List Int} {c c' : HttpConnector}
    {status status' : Bool} {len : Int},
    c.write status results = .ok (some (c', len, status')) →
    c'.readBuffer = c.readBuffer ∧
      c'.writeBuffer.buffer.length = c.writeBuffer.buffer.length := by
  intro results
  induction results with
  | nil => intro c c' status status' len hw; cases hw
  | cons first rest ih =>
      intro c c' status status' len hw
      rw [write] at hw
      split at hw
      · cases hw; exact ⟨rfl, rfl⟩
      split at hw
      · cases hw; exact ⟨rfl, rfl⟩
      obtain ⟨c₁, h₁, hw⟩ := bind_ok_iff.mp hw
      have hfirst := consume_length h₁
      split at hw
      · cases hw; exact hfirst
      · obtain ⟨hread, hsize⟩ := ih hw
        exact ⟨hread.trans hfirst.1, hsize.trans hfirst.2⟩

theorem close_buffers (c : HttpConnector) :
    c.close.readBuffer = c.readBuffer ∧
      c.close.writeBuffer = c.writeBuffer := by
  rw [close]
  split
  · exact ⟨rfl, rfl⟩
  · exact ⟨rfl, rfl⟩

/-- What `Process` makes of the two buffers: one is emptied where it stands,
and the other emptied and added to. -/
theorem process_swelled {c c' : HttpConnector} {w : World} (h : c.Inv)
    (hp : c.process w = .ok (c', true)) :
    c'.readBuffer.readp = 0 ∧ c'.readBuffer.readableSize = 0 ∧
      c'.readBuffer.buffer.length = c.readBuffer.buffer.length ∧
      c.writeBuffer.releaseAllBuff.Swelled c'.writeBuffer := by
  rw [process] at hp
  split at hp
  · cases hp
  obtain ⟨⟨request, rb⟩, hparse, hp⟩ := bind_ok_iff.mp hp
  obtain ⟨⟨reponse, request'⟩, -, hp⟩ := bind_ok_iff.mp hp
  obtain ⟨wb, hhead, hp⟩ := bind_ok_iff.mp hp
  obtain ⟨u, -, hp⟩ := bind_ok_iff.mp hp
  obtain ⟨content, -, hp⟩ := bind_ok_iff.mp hp
  obtain ⟨base, -, hp⟩ := bind_ok_iff.mp hp
  cases hp
  have hscan := HttpRequest.readBuff_eq_scan h.read w.fs c.request.init
  rw [hparse] at hscan
  obtain ⟨r, -, -, -, hsize⟩ := hscan.ok_left
  exact ⟨rfl, rfl, List.length_replicate.trans hsize,
    h.write.releaseAllBuff.add_swelled rfl hhead⟩

theorem process_false {c c' : HttpConnector} {w : World}
    (hp : c.process w = .ok (c', false)) : c' = c := by
  rw [process] at hp
  split at hp
  · cases hp
    rfl
  · obtain ⟨⟨request, rb⟩, -, hp⟩ := bind_ok_iff.mp hp
    obtain ⟨⟨reponse, request'⟩, -, hp⟩ := bind_ok_iff.mp hp
    obtain ⟨wb, -, hp⟩ := bind_ok_iff.mp hp
    obtain ⟨u, -, hp⟩ := bind_ok_iff.mp hp
    obtain ⟨content, -, hp⟩ := bind_ok_iff.mp hp
    obtain ⟨base, -, hp⟩ := bind_ok_iff.mp hp
    cases hp

/-- A call, as far as memory goes: a vector gets no longer than it was, or
than what it holds afterwards. -/
structure Costs (c c' : HttpConnector) : Prop where
  front : c'.readBuffer.readp = 0
  read : c'.readBuffer.buffer.length
    = max c.readBuffer.buffer.length c'.readBuffer.readableSize
  write : c'.writeBuffer.buffer.length
    = max c.writeBuffer.buffer.length c'.writeBuffer.readableSize

theorem Costs.kept {c c' : HttpConnector} (h : c'.Inv)
    (hfront : c'.readBuffer.readp = 0)
    (hread : c'.readBuffer.buffer.length = c.readBuffer.buffer.length)
    (hwrite : c'.writeBuffer.buffer.length = c.writeBuffer.buffer.length) :
    Costs c c' where
  front := hfront
  read := by rw [← hread, max_eq_left h.read.held_le]
  write := by rw [← hwrite, max_eq_left h.write.held_le]

theorem Call.costs {c c' : HttpConnector} {call : ConnectorCall} (h : c.Inv)
    (hfront : c.readBuffer.readp = 0) (hc : Call c call c') :
    Costs c c' := by
  have h' := inv_call h hc
  cases hc with
  | init => exact .kept h' hfront rfl rfl
  | read hr =>
      obtain ⟨⟨b, len, status⟩, hb, hr⟩ := bind_ok_iff.mp hr
      cases hr
      have hb := readLoop_swelled h.read hfront hb
      exact ⟨hb.front, hb.size, (max_eq_left h.write.held_le).symm⟩
  | @process c' w ready hp =>
      cases ready with
      | false =>
          have hsame := process_false hp
          subst hsame
          exact .kept h' hfront rfl rfl
      | true =>
          obtain ⟨hfront', hnone, hsize, hwb⟩ := process_swelled h hp
          refine ⟨hfront', by rw [hsize, hnone, Nat.max_zero], ?_⟩
          rw [hwb.size]
          exact congrArg (max · _) List.length_replicate
  | write hw =>
      obtain ⟨hread, hsize⟩ := write_length hw
      exact .kept h' (by rw [hread, hfront]) (by rw [hread]) hsize
  | close =>
      obtain ⟨hread, hwrite⟩ := close_buffers c
      exact .kept h' (by rw [hread, hfront]) (by rw [hread]) (by rw [hwrite])

/-- `Read` never finds anything before what the buffer holds. -/
theorem front_history {c : HttpConnector} (hc : history.Reachable c) :
    c.readBuffer.readp = 0 := by
  refine hc.invariant (I := fun c => c.readBuffer.readp = 0) ?_ ?_
  · intro c hfresh
    obtain ⟨status, code, cgi, tasks, fileStatus, code', rfl⟩ := hfresh
    rfl
  · exact fun c call c' hprev ih h => (h.costs (inv_history hprev) ih).front

end HttpConnector

namespace Server

open HttpConnector

variable {Thread : Type}

/-- Under `fd` is still `c`, or what one call has made of it; a `Process` is
the step of a worker that was about to make it. -/
def Lasts (s : Server Thread) (a : ServerLabel Thread) (fd : Int)
    (c c' : HttpConnector) : Prop :=
  c' = c ∨ ∃ call, Call c call c' ∧ ∀ w, call = .process w →
    ∃ t, a = .process t w ∧ s.workers t = .processing fd

theorem lasts_update {s : Server Thread} {a : ServerLabel Thread}
    {fd fd₀ : Int} {c c₀ c₁ : HttpConnector} {call : ConnectorCall}
    (hcall : Call c₀ call c₁) (hc₀ : s.clients fd₀ = some c₀)
    (hc : s.clients fd = some c)
    (hlabel : ∀ w, call = .process w →
      ∃ t, a = .process t w ∧ s.workers t = .processing fd₀) :
    ∃ c', Function.update s.clients fd₀ (some c₁) fd = some c' ∧
      s.Lasts a fd c c' := by
  by_cases hfd : fd = fd₀
  · subst hfd
    rw [hc] at hc₀
    cases hc₀
    exact ⟨c₁, Function.update_self .., .inr ⟨call, hcall, hlabel⟩⟩
  · exact ⟨c, by rw [Function.update_of_ne hfd, hc], .inl rfl⟩

theorem lasts_closeConnection {s s' : Server Thread} {a : ServerLabel Thread}
    {fd fd₀ : Int} {stage : CloseStage} {c : HttpConnector}
    (h : s.closeConnection fd₀ stage = some s')
    (hc : s.clients fd = some c) :
    ∃ c', s'.clients fd = some c' ∧ s.Lasts a fd c c' := by
  cases stage with
  | delFd =>
      obtain ⟨c₀, hc₀, rfl⟩ := Option.map_eq_some_iff.mp h
      exact ⟨c, hc, .inl rfl⟩
  | close =>
      obtain ⟨c₀, hc₀, rfl⟩ := Option.map_eq_some_iff.mp h
      split
      · exact lasts_update .close hc₀ hc (by simp)
      · exact ⟨c, hc, .inl rfl⟩
  | log => cases h; exact ⟨c, hc, .inl rfl⟩

/-- No step takes a connector out of `_clients`. -/
theorem Step.lasts [DecidableEq Thread] {s s' : Server Thread}
    {a : ServerLabel Thread} (h : Step s a s') {fd : Int} {c : HttpConnector}
    (hc : s.clients fd = some c) :
    ∃ c', s'.clients fd = some c' ∧ s.Lasts a fd c c' := by
  cases h with
  | wait | turn | accept | acceptEnd | logged | take | modFd | finish =>
      exact ⟨c, hc, .inl rfl⟩
  | dispatch _ hd =>
      obtain ⟨-, rfl⟩ | ⟨-, rfl | ⟨kind, rfl⟩ | ⟨-, rfl⟩⟩ := dispatch_cases hd
      · exact ⟨c, hc, .inl rfl⟩
      · exact ⟨c, hc, .inl rfl⟩
      · exact ⟨c, hc, .inl rfl⟩
      · exact ⟨c, hc, .inl rfl⟩
  | @addConnection s' fresh fd₀ batch _ hfresh ha =>
      obtain ⟨-, rfl⟩ | ⟨-, rfl⟩ := addConnection_cases ha
      · exact ⟨c, hc, .inl rfl⟩
      · by_cases hfd : fd = fd₀
        · subst hfd
          rw [hc]
          exact ⟨_, Function.update_self .., .inr ⟨_, .init, by simp⟩⟩
        · exact ⟨c, (Function.update_of_ne hfd ..).trans hc, .inl rfl⟩
  | addFd _ _ ha =>
      obtain ⟨u, -, ha⟩ := bind_ok_iff.mp ha
      cases ha
      exact ⟨c, hc, .inl rfl⟩
  | close _ hcl =>
      have hlast := lasts_closeConnection (a := .close) hcl hc
      exact hlast
  | read _ hc₀ hr => exact lasts_update (.read hr) hc₀ hc (by simp)
  | @process t fd₀ c₀ c₁ w ready ht hc₀ hp =>
      refine lasts_update (.process hp) hc₀ hc fun w' hw => ?_
      cases hw
      exact ⟨t, rfl, ht⟩
  | write _ hc₀ hw => exact lasts_update (.write hw) hc₀ hc (by simp)
  | @closeBy _ t _ _ _ hcl =>
      have hlast := lasts_closeConnection (a := .closeBy t) hcl hc
      exact hlast

/-- What the two buffers under `fd` hold after a step. -/
def held (fd : Int) (_ : Server Thread) (_ : ServerLabel Thread)
    (s' : Server Thread) : List (Nat × Nat) :=
  match s'.clients fd with
  | some c => [(c.readBuffer.readableSize, c.writeBuffer.readableSize)]
  | none => []

/-- The most there ever was, or the size a buffer starts with. -/
def highWater (amounts : List Nat) : Nat :=
  amounts.foldl max Buffer.defaultSize

theorem highWater_snoc (amounts : List Nat) (n : Nat) :
    highWater (amounts ++ [n]) = max (highWater amounts) n := by
  rw [highWater, List.foldl_append, highWater]
  rfl

/-- What a descriptor has cost so far. -/
structure Cost (c : HttpConnector) (record : List (Nat × Nat)) : Prop where
  read : c.readBuffer.buffer.length = highWater (record.map Prod.fst)
  write : c.writeBuffer.buffer.length = highWater (record.map Prod.snd)

theorem Cost.next {c c' : HttpConnector} {record : List (Nat × Nat)}
    (h : Cost c record) (hc : Costs c c') :
    Cost c' (record ++
      [(c'.readBuffer.readableSize, c'.writeBuffer.readableSize)]) where
  read := by
    rw [List.map_append, List.map_singleton, highWater_snoc, ← h.read]
    exact hc.read
  write := by
    rw [List.map_append, List.map_singleton, highWater_snoc, ← h.write]
    exact hc.write

theorem cost_fresh {c : HttpConnector} (h : c.Fresh) : Cost c [] := by
  obtain ⟨status, code, cgi, tasks, fileStatus, code', rfl⟩ := h
  exact ⟨List.length_replicate, List.length_replicate⟩

/-- In every run, whoever the clients were and whatever they sent: the two
vectors of a descriptor are as long as the most that each of them ever held,
and at least as they were constructed. -/
theorem memory_is_high_water [DecidableEq Thread] {s : Server Thread}
    {fd : Int} {record : List (Nat × Nat)}
    (hs : (system.observed (held fd)).Reachable (s, record))
    {c : HttpConnector} (hc : s.clients fd = some c) :
    c.readBuffer.buffer.length = highWater (record.map Prod.fst) ∧
      c.writeBuffer.buffer.length = highWater (record.map Prod.snd) := by
  have hcost : match s.clients fd with
      | some c => Cost c record
      | none => record = [] := by
    refine hs.invariant (I := fun p : Server Thread × List (Nat × Nat) =>
      match p.1.clients fd with
      | some c => Cost c p.2
      | none => p.2 = []) ?_ ?_
    · rintro ⟨s, record⟩ ⟨hinit, hnone⟩
      rw [show s.clients fd = none from hinit.1 fd]
      exact hnone
    rintro ⟨s, record⟩ a ⟨s', record'⟩ hprev ih ⟨hstep, hrecord⟩
    have hreach : system.Reachable s := hprev.of_observed
    simp only [] at ih hstep hrecord ⊢
    rw [hrecord, held]
    cases hold : s.clients fd with
    | some c =>
        rw [hold] at ih
        obtain ⟨c', hc', hcall⟩ := hstep.lasts hold
        have hhist := clients_reachable hreach fd c hold
        rw [hc']
        refine ih.next ?_
        obtain rfl | ⟨call, hcall, -⟩ := hcall
        · exact .kept (inv_history hhist) (front_history hhist) rfl rfl
        · exact hcall.costs (inv_history hhist) (front_history hhist)
    | none =>
        rw [hold] at ih
        rw [ih]
        cases hnew : s'.clients fd with
        | none => rfl
        | some c' =>
            obtain hsame | ⟨c, call, hcall, hsame | hfresh⟩ :=
              hstep.driven hnew
            · cases hold.symm.trans hsame
            · cases hold.symm.trans hsame
            · have hhist : history.Reachable c := .start hfresh
              exact (cost_fresh hfresh).next
                (hcall.costs (inv_history hhist) (front_history hhist))
  rw [hc] at hcost
  exact ⟨hcost.read, hcost.write⟩

theorem held_next [DecidableEq Thread] {s s' : Server Thread} {fd : Int}
    {record more : List (Nat × Nat)} {a : ServerLabel Thread}
    (hs : (system.observed (held fd)).Reachable (s, record))
    (h : Step s a s') (hmore : held fd s a s' = more) :
    (system.observed (held fd)).Reachable (s', record ++ more) := by
  subst hmore
  exact hs.next (a := a) ⟨h, rfl⟩

/-- The client of `greeted`, and what its buffers held on the way. -/
theorem greeted_held : (system.observed (held 4)).Reachable
    (greeted, List.replicate 5 (0, 0)) := by
  let knock : Event := ⟨3, true, false, false, false, false⟩
  let empty : Server Bool := ⟨3, fun _ => none, 0, fun _ => .none,
    fun _ => false, .waiting, [], fun _ => .idle⟩
  let accepted : Server Bool := { empty with
    opened := Function.update empty.opened 4 true
    main := .accepted 4 [] }
  have hstart : (system.observed (held 4)).Reachable (empty, []) :=
    .start ⟨⟨fun _ => rfl, rfl, fun _ => rfl, fun _ => rfl, rfl, rfl,
      fun _ => rfl⟩, rfl⟩
  have hwait : Step empty (.wait [knock])
      { empty with main := .dispatching [knock] } :=
    .wait rfl (by decide) rfl
  have hdispatch : Step { empty with main := .dispatching [knock] }
      .dispatch { empty with main := .accepting [] } := .dispatch rfl rfl
  have haccept : Step { empty with main := .accepting [] }
      (.accept (.connected 4)) accepted :=
    .accept rfl (by decide) (by decide) rfl
  have hadd : Step accepted (.addConnection blankConnector)
      { greeted with interest := empty.interest, main := .adding 4 [] } :=
    .addConnection rfl ⟨_, _, _, _, _, _, rfl⟩ rfl
  have harm : Step { greeted with
      interest := empty.interest, main := .adding 4 [] } (.addFd true)
      { greeted with main := .logging 4 [] } :=
    .addFd rfl (fun _ => rfl) rfl
  have hlogged : Step { greeted with main := .logging 4 [] } .logged
      { greeted with main := .accepting [] } := .logged rfl
  have hend : Step { greeted with main := .accepting [] }
      (.accept .wouldBlock) { greeted with main := .dispatching [] } :=
    .acceptEnd rfl (by simp)
  have hturn : Step { greeted with main := .dispatching [] } .turn greeted :=
    .turn rfl
  have hopen := held_next (held_next (held_next hstart hwait rfl) hdispatch
    rfl) haccept rfl
  have hlater := held_next (held_next (held_next hopen hadd rfl) harm rfl)
    hlogged rfl
  exact held_next (held_next hlater hend rfl) hturn rfl

def flood : Bytes := List.replicate 2000 97

/-- Two thousand bytes arrive at once: there is room for 1024 of them, and the
rest is added twice. -/
theorem read_flood : ∃ b len status,
    (blankConnector.init 4).read [] ⟨zeroSpill, some flood⟩
      = .ok ({ blankConnector.init 4 with readBuffer := b }, len, status) ∧
    b.readableSize = 2976 := by
  have hreached :=
    blankConnector_reachable.next (.init : Call _ (.init 4) _)
  have hinv := (inv_history hreached).read
  have hroom : (blankConnector.init 4).readBuffer.writeableSize = 1024 := by
    decide +kernel
  have hnone : (blankConnector.init 4).readBuffer.readable = [] := by
    decide +kernel
  have hflood : flood.length = 2000 := List.length_replicate
  obtain ⟨⟨b, len, status⟩, hread⟩ :=
    (hinv.readFD_returns zeroSpill flood).mpr (by
      rw [hroom, hflood]
      exact (by decide : 2000 ≤ 1024 + 65535))
  obtain ⟨hb, htwice⟩ :=
    hinv.readFD_overhang (by rw [hroom, hflood]; decide) hread
  rw [hnone, hroom, hflood, hb.length_readable, List.length_nil] at htwice
  refine ⟨b, len, status, ?_, by omega⟩
  rw [HttpConnector.read, readLoop, hread]
  rfl

theorem memory_is_high_water_flooded : ∃ (s : Server Bool) (c : HttpConnector)
    (record : List (Nat × Nat)),
    record = List.replicate 8 (0, 0) ++ [(2976, 0)] ∧
    (system.observed (held 4)).Reachable (s, record) ∧
    s.clients 4 = some c ∧
    c.readBuffer.buffer.length = highWater (record.map Prod.fst) ∧
      c.writeBuffer.buffer.length = highWater (record.map Prod.snd) := by
  let woken : Server Bool := { greeted with
    interest := Function.update greeted.interest 4 .disarmed
    main := .dispatching [readiness 4 false] }
  let queued : Server Bool := { woken.addTask .read 4 with
    main := .dispatching [] }
  let reading : Server Bool :=
    { queued with queue := [] }.setWorker true (.running .read 4)
  have hwait : Step greeted (.wait [readiness 4 false]) woken :=
    .wait rfl (by decide) rfl
  have hdispatch : Step woken .dispatch queued := .dispatch rfl rfl
  have hqueue : queued.queue = ⟨.read, 4⟩ :: [] := rfl
  have htake : Step queued (.take true) reading :=
    Step.take (t := true) rfl hqueue
  have hidle := held_next (held_next (held_next greeted_held hwait rfl)
    hdispatch rfl) htake rfl
  obtain ⟨b, len, status, hread, hsize⟩ := read_flood
  let c : HttpConnector := { blankConnector.init 4 with readBuffer := b }
  let swollen : Server Bool :=
    (reading.setClient 4 c).setWorker true (funRead 4 len status)
  have hworker : reading.workers true = .running .read 4 := rfl
  have hold : reading.clients 4 = some (blankConnector.init 4) := rfl
  have hstep : Step reading (.read true [] ⟨zeroSpill, some flood⟩) swollen :=
    .read hworker hold hread
  have hclient : swollen.clients 4 = some c := rfl
  have hmore : held 4 reading (.read true [] ⟨zeroSpill, some flood⟩) swollen
      = [(2976, 0)] := by
    rw [held, hclient]
    simp only [c, hsize]
    rfl
  have hlast := held_next hidle hstep hmore
  exact ⟨swollen, c, _, rfl, hlast, hclient, memory_is_high_water hlast hclient⟩

end Server

end TinyWebServer
