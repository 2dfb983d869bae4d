import TinyWebServer.Proofs.ServerInv

/-!
# What `_FunRead` makes of the end of the data

`Read_FD` answers a length and a status, `Read` hands on what its last call
answered, and `_FunRead` closes the connection on a length of zero with a
status of `false`. But the status is `false` on a negative length only, so the
branch is never taken: a peer that is gone, or a descriptor that fails, has its
connector processed and armed again like any other.

`funRead_iff` says on which runs of `readv` results the decision is the right
one all the same, and on which of these `Process` finds what was received.
-/

namespace TinyWebServer

open Lib

/-- The bytes a `readv` delivered. -/
def Recv.bytes (recv : Recv) : Bytes := recv.got.getD []

theorem Recv.got_of_pos {recv : Recv} (h : recv.bytes ≠ []) :
    recv.got = some recv.bytes := by
  rw [bytes] at h ⊢
  cases hgot : recv.got with
  | none => exact absurd (by rw [hgot]; rfl) h
  | some s => rfl

/-- The results of the `readv` calls of one `_FunRead`, up to the first that is
not positive, and whether `errno` is then `EAGAIN`. -/
structure ReadRun where
  arrived : List Recv
  last : Recv
  wouldBlock : Bool
  positive : ∀ recv ∈ arrived, recv.bytes ≠ []
  ends : last.bytes = []

namespace ReadRun

def bytes (q : ReadRun) : Bytes := (q.arrived.map Recv.bytes).flatten

def lengths (q : ReadRun) : List Nat :=
  q.arrived.map fun recv => recv.bytes.length

/-- The connection is to be closed: end of stream, or an error with nothing
received. -/
def Due (q : ReadRun) : Prop :=
  q.last.got = some [] ∨
    q.last.got = none ∧ q.wouldBlock = false ∧ q.bytes = []

/-- The socket has no more for now, or failed behind something to process. -/
def Pausing (q : ReadRun) : Prop :=
  q.last.got = none ∧ (q.wouldBlock = true ∨ q.bytes ≠ [])

theorem not_due_iff (q : ReadRun) : ¬ q.Due ↔ q.Pausing := by
  have hends := q.ends
  rw [Recv.bytes] at hends
  rw [Due, Pausing]
  cases hgot : q.last.got with
  | none => by_cases hbytes : q.bytes = [] <;> simp [hbytes]
  | some s =>
      rw [hgot, Option.getD_some] at hends
      simp [hends]

end ReadRun

/-- `readv` delivers these lengths one after the other, and never more than an
array holds hangs over. -/
def Buffer.Room.Takes (r : Buffer.Room) : List Nat → Prop
  | [] => True
  | n :: rest =>
      n ≤ r.writeable + Buffer.spillSize ∧ (r.readFD n).Takes rest

namespace HttpConnector

variable {b : Buffer} {last : Recv}

/-! ## The loop of `Read` -/

/-- A call that delivers something is not the last. -/
theorem readLoop_cons (h : b.Inv) {recv : Recv} (hpos : recv.bytes ≠ [])
    {b₁ : Buffer} {len : Int} {status : Bool}
    (hr : b.readFD recv.spill (some recv.bytes) = .ok (b₁, len, status))
    (rest : List Recv) :
    readLoop b (recv :: rest) last = readLoop b₁ rest last := by
  obtain ⟨hlen, -⟩ := h.readFD_room hr
  have hlt := List.length_pos_iff.mpr hpos
  rw [readLoop, Recv.got_of_pos hpos, hr, ok_bind]
  simp only []
  rw [if_neg (by omega)]

/-- And where the loop goes on, the call returned. -/
theorem readFD_of_readLoop {recv : Recv} (hpos : recv.bytes ≠ [])
    {rest : List Recv} {r : Buffer × Int × Bool}
    (hr : readLoop b (recv :: rest) last = .ok r) :
    ∃ b₁ len status,
      b.readFD recv.spill (some recv.bytes) = .ok (b₁, len, status) := by
  rw [readLoop, Recv.got_of_pos hpos] at hr
  obtain ⟨⟨b₁, len, status⟩, h₁, -⟩ := bind_ok_iff.mp hr
  exact ⟨b₁, len, status, h₁⟩

theorem readFD_last (h : b.Inv) (hends : last.bytes = []) :
    ∃ b' len status, b.readFD last.spill last.got = .ok (b', len, status) ∧
      b'.readable = b.readable := by
  rw [Recv.bytes] at hends
  cases hgot : last.got with
  | none => exact ⟨b, _, _, h.readFD_failed last.spill, rfl⟩
  | some s =>
      rw [hgot, Option.getD_some] at hends
      subst hends
      obtain ⟨b', hr, -, hread, -⟩ :=
        h.readFD_fits (s := []) (Nat.zero_le _) last.spill
      exact ⟨b', _, _, hr, by rw [hread, List.append_nil]⟩

/-- `Read` returns unless an overhang is too long for an array. -/
theorem readLoop_returns (hends : last.bytes = []) :
    ∀ (arrived : List Recv) {b : Buffer}, b.Inv →
    (∀ recv ∈ arrived, recv.bytes ≠ []) →
    ((∃ r, readLoop b arrived last = .ok r) ↔
      b.room.Takes (arrived.map fun recv => recv.bytes.length)) := by
  intro arrived
  induction arrived with
  | nil =>
      intro b h _
      obtain ⟨b', len, status, hr, -⟩ := readFD_last h hends
      exact iff_of_true ⟨_, hr⟩ trivial
  | cons recv rest ih =>
      intro b h hpos
      have hpos₁ := hpos recv List.mem_cons_self
      have hrest : ∀ recv ∈ rest, recv.bytes ≠ [] :=
        fun recv hmem => hpos recv (List.mem_cons_of_mem _ hmem)
      have hreturns := h.readFD_returns recv.spill recv.bytes
      rw [List.map_cons, Buffer.Room.Takes]
      constructor
      · intro hr
        obtain ⟨r, hr⟩ := hr
        obtain ⟨b₁, len, status, h₁⟩ := readFD_of_readLoop hpos₁ hr
        rw [readLoop_cons h hpos₁ h₁] at hr
        have htakes := (ih (h.readFD h₁) hrest).mp ⟨r, hr⟩
        rw [(h.readFD_room h₁).2] at htakes
        exact ⟨hreturns.mp ⟨_, h₁⟩, htakes⟩
      · intro htakes
        obtain ⟨⟨b₁, len, status⟩, h₁⟩ := hreturns.mpr htakes.1
        rw [readLoop_cons h hpos₁ h₁, ih (h.readFD h₁) hrest,
          (h.readFD_room h₁).2]
        exact htakes.2

/-- What is readable grows by what arrived at least, and by more if it does not
fit the writable tail. -/
theorem readLoop_grows (hends : last.bytes = []) :
    ∀ (arrived : List Recv) {b b' : Buffer} {len : Int} {status : Bool},
    b.Inv → (∀ recv ∈ arrived, recv.bytes ≠ []) →
    readLoop b arrived last = .ok (b', len, status) →
    b.readable.length + (arrived.map Recv.bytes).flatten.length
        ≤ b'.readable.length ∧
      (b.writeableSize < (arrived.map Recv.bytes).flatten.length →
        b.readable.length + (arrived.map Recv.bytes).flatten.length
          < b'.readable.length) := by
  intro arrived
  induction arrived with
  | nil =>
      intro b b' len status h _ hr
      obtain ⟨b₁, len₁, status₁, h₁, hread⟩ := readFD_last h hends
      rw [readLoop, h₁] at hr
      cases hr
      rw [hread]
      simp
  | cons recv rest ih =>
      intro b b' len status h hpos hr
      have hpos₁ := hpos recv List.mem_cons_self
      obtain ⟨b₁, len₁, status₁, h₁⟩ := readFD_of_readLoop hpos₁ hr
      rw [readLoop_cons h hpos₁ h₁] at hr
      obtain ⟨hle, hlt⟩ := ih (h.readFD h₁)
        (fun recv hmem => hpos recv (List.mem_cons_of_mem _ hmem)) hr
      rw [List.map_cons, List.flatten_cons, List.length_append]
      by_cases hfit : recv.bytes.length ≤ b.writeableSize
      · obtain ⟨b₂, h₂, -, hread, -, hroom⟩ := h.readFD_fits hfit recv.spill
        rw [h₂] at h₁
        cases h₁
        rw [hread, List.length_append] at hle hlt
        omega
      · obtain ⟨-, hover⟩ := h.readFD_overhang (Nat.not_le.mp hfit) h₁
        omega

/-- What arrived is what is appended as long as the writable tail holds it. -/
theorem readLoop_exact (hends : last.bytes = []) {arrived : List Recv}
    (h : b.Inv) (hpos : ∀ recv ∈ arrived, recv.bytes ≠ []) :
    (∃ b' len status, readLoop b arrived last = .ok (b', len, status) ∧
      b'.readable = b.readable ++ (arrived.map Recv.bytes).flatten) ↔
    (arrived.map Recv.bytes).flatten.length ≤ b.writeableSize := by
  constructor
  · intro hr
    obtain ⟨b', len, status, hr, hread⟩ := hr
    obtain ⟨-, hlt⟩ := readLoop_grows hends arrived h hpos hr
    rw [hread, List.length_append] at hlt
    omega
  · induction arrived generalizing b with
    | nil =>
        intro _
        obtain ⟨b', len, status, hr, hread⟩ := readFD_last h hends
        exact ⟨b', len, status, hr, by rw [hread]; simp⟩
    | cons recv rest ih =>
        intro hfit
        have hpos₁ := hpos recv List.mem_cons_self
        rw [List.map_cons, List.flatten_cons, List.length_append] at hfit
        obtain ⟨b₁, h₁, hinv, hread, -, hroom⟩ := h.readFD_fits
          (by omega : recv.bytes.length ≤ b.writeableSize) recv.spill
        obtain ⟨b', len, status, hr, hread'⟩ := ih hinv
          (fun recv hmem => hpos recv (List.mem_cons_of_mem _ hmem)) (by omega)
        refine ⟨b', len, status, ?_, ?_⟩
        · rw [readLoop_cons h hpos₁ h₁]
          exact hr
        · rw [hread', hread, List.append_assoc, List.map_cons,
            List.flatten_cons]

end HttpConnector

/-! ## The decision -/

namespace Server

variable {Thread : Type} [DecidableEq Thread]

/-- `_FunRead` returns from `Read` and closes the connection if it is to be
closed, or else goes on to `Process`. -/
def ReadDecides (s : Server Thread) (t : Thread) (fd : Int) (q : ReadRun) :
    Prop :=
  ∃ s', Step s (.read t q.arrived q.last) s' ∧
    (q.Due → s'.workers t = .closing .delFd fd) ∧
    (¬ q.Due → s'.workers t = .processing fd)

/-- And `Process` finds what was received behind what was there. -/
def ReadAnswers (s : Server Thread) (t : Thread) (fd : Int)
    (c : HttpConnector) (q : ReadRun) : Prop :=
  ∃ s', Step s (.read t q.arrived q.last) s' ∧
    (q.Due → s'.workers t = .closing .delFd fd) ∧
    (¬ q.Due → s'.workers t = .processing fd ∧
      ∃ c', s'.clients fd = some c' ∧
        c'.readBuffer.readable = c.readBuffer.readable ++ q.bytes)

variable {s : Server Thread} {t : Thread} {fd : Int} {c : HttpConnector}

/-- What one `_FunRead` step is: whatever arrived, it goes on to `Process`. -/
theorem step_read_iff (ht : s.workers t = .running .read fd)
    (hc : s.clients fd = some c) {arrived : List Recv} {last : Recv}
    {s' : Server Thread} :
    Step s (.read t arrived last) s' ↔
      ∃ b len status,
        HttpConnector.readLoop c.readBuffer arrived last
          = .ok (b, len, status) ∧
        s' = (s.setClient fd { c with readBuffer := b }).setWorker t
          (.processing fd) := by
  constructor
  · intro h
    cases h with
    | read ht₀ hc₀ hr =>
        rw [ht] at ht₀
        cases ht₀
        rw [hc] at hc₀
        cases hc₀
        rw [funRead_eq hr fd]
        obtain ⟨⟨b, len', status'⟩, hloop, hr⟩ := bind_ok_iff.mp hr
        cases hr
        exact ⟨b, _, _, hloop, rfl⟩
  · intro h
    obtain ⟨b, len, status, hloop, rfl⟩ := h
    have hr : c.read arrived last
        = .ok ({ c with readBuffer := b }, len, status) := by
      rw [HttpConnector.read, hloop]
      rfl
    rw [← funRead_eq hr fd]
    exact .read ht hc hr

theorem step_read_goes (ht : s.workers t = .running .read fd)
    (hc : s.clients fd = some c) {q : ReadRun} {s' : Server Thread}
    (h : Step s (.read t q.arrived q.last) s') :
    s'.workers t = .processing fd := by
  obtain ⟨b, len, status, -, rfl⟩ := (step_read_iff ht hc).mp h
  exact Function.update_self ..

/-- No step closes the connection, so what is due to be closed is got wrong. -/
theorem pausing_of_step (ht : s.workers t = .running .read fd)
    (hc : s.clients fd = some c) {q : ReadRun} {s' : Server Thread}
    (h : Step s (.read t q.arrived q.last) s')
    (hdue : q.Due → s'.workers t = .closing .delFd fd) : q.Pausing := by
  rw [← q.not_due_iff]
  intro hq
  have hclosing := hdue hq
  rw [step_read_goes ht hc h] at hclosing
  cases hclosing

theorem readDecides_iff (ht : s.workers t = .running .read fd)
    (hc : s.clients fd = some c) (hinv : c.Inv) (q : ReadRun) :
    s.ReadDecides t fd q ↔
      q.Pausing ∧ c.readBuffer.room.Takes q.lengths := by
  rw [ReadRun.lengths,
    ← HttpConnector.readLoop_returns q.ends q.arrived hinv.read q.positive]
  constructor
  · intro h
    obtain ⟨s', h, hdue, -⟩ := h
    obtain ⟨b, len, status, hloop, -⟩ := (step_read_iff ht hc).mp h
    exact ⟨pausing_of_step ht hc h hdue, _, hloop⟩
  · intro h
    obtain ⟨hq, ⟨b, len, status⟩, hloop⟩ := h
    have hstep := (step_read_iff ht hc).mpr ⟨b, len, status, hloop, rfl⟩
    exact ⟨_, hstep, fun hdue => absurd hdue (q.not_due_iff.mpr hq),
      fun _ => step_read_goes ht hc hstep⟩

theorem readAnswers_iff (ht : s.workers t = .running .read fd)
    (hc : s.clients fd = some c) (hinv : c.Inv) (q : ReadRun) :
    s.ReadAnswers t fd c q ↔
      q.Pausing ∧ q.bytes.length ≤ c.readBuffer.writeableSize := by
  rw [ReadRun.bytes,
    ← HttpConnector.readLoop_exact q.ends hinv.read q.positive]
  constructor
  · intro h
    obtain ⟨s', h, hdue, hgoing⟩ := h
    have hq := pausing_of_step ht hc h hdue
    obtain ⟨-, c', hc', hread⟩ := hgoing (q.not_due_iff.mpr hq)
    obtain ⟨b, len, status, hloop, rfl⟩ := (step_read_iff ht hc).mp h
    have hsame : (some { c with readBuffer := b } : Option HttpConnector)
        = some c' := by
      rw [← hc']
      exact (Function.update_self fd _ s.clients).symm
    cases hsame
    exact ⟨hq, b, len, status, hloop, hread⟩
  · intro h
    obtain ⟨hq, b, len, status, hloop, hread⟩ := h
    have hstep := (step_read_iff ht hc).mpr ⟨b, len, status, hloop, rfl⟩
    refine ⟨_, hstep, fun hdue => absurd hdue (q.not_due_iff.mpr hq),
      fun _ => ⟨step_read_goes ht hc hstep, { c with readBuffer := b }, ?_,
        hread⟩⟩
    exact Function.update_self fd _ s.clients

/-- The decision is right when it is not to close, and `Read` returns; what
`Process` finds is right when, besides, all that arrived fits the writable tail
of the read buffer. -/
theorem funRead_iff (ht : s.workers t = .running .read fd)
    (hc : s.clients fd = some c) (hinv : c.Inv) (q : ReadRun) :
    (s.ReadDecides t fd q ↔
      q.Pausing ∧ c.readBuffer.room.Takes q.lengths) ∧
    (s.ReadAnswers t fd c q ↔
      q.Pausing ∧ q.bytes.length ≤ c.readBuffer.writeableSize) :=
  ⟨readDecides_iff ht hc hinv q, readAnswers_iff ht hc hinv q⟩

/-- A server with one client, whose first event a worker is looking at. -/
def reading : Server Bool :=
  { crowd 1 with
    interest := Function.update (crowd 1).interest 4 .disarmed
    main := .dispatching []
    workers := Function.update (fun _ => .idle) true (.running .read 4) }

theorem reading_reachable : system.Reachable reading := by
  let e : Event := ⟨4, true, false, false, false, false⟩
  let task : Task := ⟨.read, 4⟩
  let turned : Server Bool := { crowd 1 with main := .dispatching [] }
  let waiting : Server Bool := { crowd 1 with main := .waiting }
  let woken : Server Bool := { crowd 1 with
    interest := reading.interest, main := .dispatching [e] }
  let queued : Server Bool := { crowd 1 with
    interest := reading.interest, main := .dispatching []
    queue := [task] }
  have haccept : Step (crowd 1) (.accept .wouldBlock) turned :=
    .acceptEnd rfl (by simp)
  have hturn : Step turned .turn waiting := .turn rfl
  have hwait : Step waiting (.wait [e]) woken := .wait rfl (by decide) rfl
  have hdispatch : Step woken .dispatch queued := .dispatch rfl rfl
  have htake : Step queued (.take true)
      ({ queued with queue := [] }.setWorker true
        (.running task.kind task.client)) := .take rfl rfl
  have hcrowd := (crowd_reachable (by decide : 1 ≤ maxClients)).of_restrict
  exact ((((hcrowd.next haccept).next hturn).next hwait).next hdispatch).next
    htake

theorem reading_client :
    reading.clients 4 = some (blankConnector.init 4) := rfl

theorem inv_first : (blankConnector.init 4).Inv :=
  ⟨Buffer.inv_construct (by decide), Buffer.inv_construct (by decide)⟩

theorem threeBytes_positive :
    ∀ recv ∈ [(⟨HttpConnector.zeroSpill, some [71, 69, 84]⟩ : Recv)],
      recv.bytes ≠ [] := by
  intro recv hmem
  rw [List.mem_singleton.mp hmem, Recv.bytes, Option.getD_some]
  simp

/-- Three bytes, and the socket has no more. -/
def threeBytes : ReadRun where
  arrived := [⟨HttpConnector.zeroSpill, some [71, 69, 84]⟩]
  last := ⟨HttpConnector.zeroSpill, none⟩
  wouldBlock := true
  positive := threeBytes_positive
  ends := rfl

theorem funRead_iff_reading :
    reading.ReadDecides true 4 threeBytes ∧
    reading.ReadAnswers true 4 (blankConnector.init 4) threeBytes := by
  obtain ⟨hdecides, hanswers⟩ := funRead_iff
    (show reading.workers true = .running .read 4 from rfl) reading_client
    inv_first threeBytes
  have hpausing : threeBytes.Pausing := ⟨rfl, .inl rfl⟩
  refine ⟨hdecides.mpr ⟨hpausing, ?_, trivial⟩,
    hanswers.mpr ⟨hpausing, by decide +kernel⟩⟩
  show 3 ≤ (blankConnector.init 4).readBuffer.room.writeable + Buffer.spillSize
  decide +kernel

/-- The peer has closed its end. -/
def endOfStream : ReadRun where
  arrived := []
  last := ⟨HttpConnector.zeroSpill, some []⟩
  wouldBlock := false
  positive := by simp
  ends := rfl

/-- And its connector is processed. -/
theorem endOfStream_processed :
    ¬ ∀ s : Server Bool, system.Reachable s → ∀ t fd q,
      s.workers t = .running .read fd → s.ReadDecides t fd q := by
  intro hall
  obtain ⟨s', h, hdue, -⟩ :=
    hall reading reading_reachable true 4 endOfStream rfl
  obtain ⟨b, len, status, -, rfl⟩ := (step_read_iff rfl reading_client).mp h
  cases hdue (.inl rfl)

end Server

end TinyWebServer
