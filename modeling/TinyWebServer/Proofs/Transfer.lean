import TinyWebServer.Proofs.Connector
import TinyWebServer.Model.Server

/-!
# Sending a response in pieces

`Write` hands two blocks to `writev` and moves two cursors by what it answers.
The answer may stop anywhere: inside the head, at its end, inside the file.
`Pending` is what holds between two calls, namely that the blocks the cursors
describe are what is left of the head and of the file; what went out followed
by what is pending is then always the response.

A negative answer is not told from a byte count. It is converted to a `size_t`
on its way to `Release_Buff`, whose assertion it fails.
-/

namespace TinyWebServer

open Lib

namespace HttpConnector

/-- The bytes one `writev` puts on the socket. -/
def passed (c : HttpConnector) (len : Int) : Bytes :=
  ([c.iovHead, c.iovFile].take c.iovSize).flatten.take len.toNat

/-- What the calls of one `Write` put on the socket, in order. -/
def writeSent (c : HttpConnector) : List Int → Except Fault Bytes
  | [] => .ok []
  | len :: rest =>
      if len = 0 then .ok []
      else if c.writeableSize = 0 then .ok (c.passed len)
      else do
        let c' ← c.consume len
        if c'.writeableSize = 0 then pure (c.passed len)
        else do
          let more ← c'.writeSent rest
          pure (c.passed len ++ more)

/-- The first `n` of a sequence of `writev` results. -/
def taken (results : Nat → Nat) (n : Nat) : List Int :=
  (List.range n).map fun k => (results k : Int)

/-- Every result is between one and the bytes that are left at that call. -/
def Fits (results : Nat → Nat) (total : Nat) : Prop :=
  ∀ k, ((List.range k).map results).sum < total →
    1 ≤ results k ∧ ((List.range k).map results).sum + results k ≤ total

theorem taken_succ (results : Nat → Nat) (n : Nat) :
    taken results (n + 1)
      = (results 0 : Int) :: taken (fun k => results (k + 1)) n := by
  simp [taken, List.range_succ_eq_map, Function.comp_def]

theorem sum_range_succ (results : Nat → Nat) (k : Nat) :
    ((List.range (k + 1)).map results).sum
      = results 0 + ((List.range k).map fun k => results (k + 1)).sum := by
  simp [List.range_succ_eq_map, Function.comp_def]

theorem Fits.first {results : Nat → Nat} {total : Nat}
    (h : Fits results total) (hpos : 0 < total) :
    1 ≤ results 0 ∧ results 0 ≤ total := by
  have h₀ := h 0 (by simpa using hpos)
  simpa using h₀

theorem Fits.later {results : Nat → Nat} {total : Nat}
    (h : Fits results total) :
    Fits (fun k => results (k + 1)) (total - results 0) := by
  intro k hk
  have hnext := h (k + 1)
  rw [sum_range_succ] at hnext
  have hfit := hnext (by omega)
  refine ⟨hfit.1, ?_⟩
  show _ + results (k + 1) ≤ _
  omega

/-! ## What holds between two calls -/

/-- The two blocks are what is left of the head and of the file, and the write
buffer still holds the first. -/
structure Pending (c : HttpConnector) (head file : Bytes) : Prop where
  sending : c.Sending
  iovSize : c.iovSize = 2
  readable : c.writeBuffer.readableSize = c.iov₀.len
  headBase : 0 ≤ c.iov₀.base
  headBytes : c.iovHead = head
  headLen : head.length = c.iov₀.len
  fileBase : 0 ≤ c.iov₁.base
  fileBytes : c.iovFile = file
  fileLen : file.length = c.iov₁.len

theorem Pending.remaining_eq {c : HttpConnector} {head file : Bytes}
    (h : Pending c head file) : c.remaining = head.length + file.length := by
  rw [remaining, h.headLen, h.fileLen]

/-- A cursor moved over a block describes the rest of the block. -/
theorem block_advance (mem : Bytes) {base : Int} (hbase : 0 ≤ base)
    (len n : Nat) :
    (mem.drop (base + n).toNat).take (len - n)
      = ((mem.drop base.toNat).take len).drop n := by
  rw [List.drop_take, List.drop_drop]
  congr 2
  omega

theorem Pending.consume {c : HttpConnector} {head file : Bytes}
    (h : Pending c head file) {len : Nat}
    (hle : len ≤ head.length + file.length) :
    ∃ c', c.consume len = .ok c' ∧
      Pending c' (head.drop len) (file.drop (len - head.length)) := by
  have hremaining := h.remaining_eq
  have hheadLen := h.headLen
  have hfileLen := h.fileLen
  have hreadable := h.readable
  obtain ⟨c', hc', hsending, -, -⟩ :=
    h.sending.consume (by omega : len ≤ c.remaining)
  refine ⟨c', hc', ?_⟩
  by_cases hpast : c.iov₀.len < len
  · rw [consume_past h.sending hpast (by omega)] at hc'
    cases hc'
    refine ⟨hsending, h.iovSize, ?_, h.headBase, ?_, ?_, ?_, ?_, ?_⟩
    · simp only []
      split
      · omega
      · rfl
    · rw [List.drop_of_length_le (by omega)]
      exact List.take_zero
    · simp only [List.length_drop]
      omega
    · have hbase := h.fileBase
      simp only []
      omega
    · have hpast' : ((len : Int) - c.iov₀.len)
          = ((len - c.iov₀.len : Nat) : Int) := by omega
      rw [hheadLen, ← h.fileBytes]
      simp only [iovFile, hpast']
      exact block_advance c.fileBlock h.fileBase c.iov₁.len _
    · simp only [List.length_drop]
      omega
  · rw [consume_head h.sending.head h.sending.short (by omega)] at hc'
    cases hc'
    have hzero : len - head.length = 0 := by omega
    rw [hzero, List.drop_zero]
    refine ⟨hsending, h.iovSize, ?_, ?_, ?_, ?_, h.fileBase, h.fileBytes,
      h.fileLen⟩
    · simp only [Buffer.readableSize] at hreadable ⊢
      omega
    · have hbase := h.headBase
      simp only []
      omega
    · rw [← h.headBytes]
      exact block_advance c.writeBuffer.buffer h.headBase c.iov₀.len len
    · simp only [List.length_drop]
      omega

/-- With both blocks in it, a call sends what is pending from the front. -/
theorem Pending.passed_eq {c : HttpConnector} {head file : Bytes}
    (h : Pending c head file) (len : Nat) :
    c.passed len = (head ++ file).take len := by
  rw [passed, h.iovSize, h.headBytes, h.fileBytes]
  simp

theorem writeableSize_eq_zero_iff {c : HttpConnector} (h : c.Sending) :
    c.writeableSize = 0 ↔ c.remaining % 2 ^ 32 = 0 := by
  have hsmall := h.small
  rw [writeableSize, toInt_eq_zero_iff]
  simp only [remaining] at hsmall ⊢
  omega

/-! ## A whole `Write` -/

/-- `Write` on a sequence of results: it returns, what it put on the socket is
`wire`, nothing is left, and up to then the write buffer and `_iov[0]` were in
step before every call. -/
def SendsOnce (status : Bool) (c : HttpConnector) (results : Nat → Nat)
    (wire : Bytes) : Prop :=
  ∃ n c' len, c.write status (taken results n) = .ok (some (c', len, status)) ∧
    c.writeSent (taken results n) = .ok wire ∧
    c'.iov₀.len = 0 ∧ c'.iov₁.len = 0 ∧ c'.writeBuffer.readable = [] ∧
    ∀ k ≤ n, ∃ cₖ, (taken results k).foldlM consume c = .ok cₖ ∧
      cₖ.writeBuffer.readableSize = cₖ.iov₀.len

section

variable {c c₁ : HttpConnector} {head file : Bytes} {results : Nat → Nat}

theorem foldlM_consume_cons {len : Int} (hc : c.consume len = .ok c₁)
    (rest : List Int) :
    (len :: rest).foldlM consume c = rest.foldlM consume c₁ := by
  rw [List.foldlM_cons, hc]
  rfl

/-- The call that sends the last byte. -/
theorem sendsOnce_last (status : Bool) (h : Pending c head file)
    (hpos : 0 < results 0) (hgoing : ¬ c.writeableSize = 0)
    (hc : c.consume (results 0) = .ok c₁) {head₁ file₁ : Bytes}
    (h₁ : Pending c₁ head₁ file₁) (hnone : c₁.remaining = 0)
    (hall : results 0 = (head ++ file).length) :
    SendsOnce status c results (head ++ file) := by
  have hnonzero : ¬ ((results 0 : Nat) : Int) = 0 := by omega
  have hdone := writeableSize_eq_zero hnone
  simp only [remaining] at hnone
  refine ⟨1, c₁, results 0, ?_, ?_, by omega, by omega, ?_, ?_⟩
  · rw [taken_succ, write, if_neg hnonzero, if_neg hgoing, hc, ok_bind,
      if_pos hdone]
    rfl
  · rw [taken_succ, writeSent, if_neg hnonzero, if_neg hgoing, hc, ok_bind,
      if_pos hdone, h.passed_eq, hall, List.take_length]
    rfl
  · rw [← List.length_eq_zero_iff, h₁.sending.inv.write.length_readable,
      h₁.readable]
    omega
  · intro k hk
    rcases Nat.le_one_iff_eq_zero_or_eq_one.mp hk with rfl | rfl
    · exact ⟨c, rfl, h.readable⟩
    · refine ⟨c₁, ?_, h₁.readable⟩
      rw [taken_succ, foldlM_consume_cons hc]
      rfl

/-- A call that leaves something, and the calls behind it. -/
theorem SendsOnce.cons {status : Bool} (h : Pending c head file)
    (hpos : 0 < results 0) (hgoing : ¬ c.writeableSize = 0)
    (hc : c.consume (results 0) = .ok c₁) (hmore : ¬ c₁.writeableSize = 0)
    (hrest : SendsOnce status c₁ (fun k => results (k + 1))
      ((head ++ file).drop (results 0))) :
    SendsOnce status c results (head ++ file) := by
  have hnonzero : ¬ ((results 0 : Nat) : Int) = 0 := by omega
  obtain ⟨n, c', len, hw, hs, h₀, hf, hr, hk⟩ := hrest
  refine ⟨n + 1, c', len, ?_, ?_, h₀, hf, hr, ?_⟩
  · rw [taken_succ, write, if_neg hnonzero, if_neg hgoing, hc, ok_bind,
      if_neg hmore]
    exact hw
  · rw [taken_succ, writeSent, if_neg hnonzero, if_neg hgoing, hc, ok_bind,
      if_neg hmore, hs, ok_bind, h.passed_eq]
    exact congrArg Except.ok (List.take_append_drop _ _)
  · intro k hkn
    cases k with
    | zero => exact ⟨c, rfl, h.readable⟩
    | succ k =>
        obtain ⟨cₖ, hcₖ, hstep⟩ := hk k (by omega)
        refine ⟨cₖ, ?_, hstep⟩
        rw [taken_succ, foldlM_consume_cons hc]
        exact hcₖ

end

/-- By induction on what is left. -/
theorem sendsOnce_of_pending (status : Bool) : ∀ (m : Nat)
    {c : HttpConnector} {head file : Bytes} {results : Nat → Nat},
    Pending c head file → head.length + file.length ≤ m →
    0 < head.length + file.length → head.length + file.length < 2 ^ 32 →
    Fits results (head.length + file.length) →
    SendsOnce status c results (head ++ file) := by
  intro m
  induction m with
  | zero => intro c head file results _ hm hpos; omega
  | succ m ih =>
      intro c head file results h hm hpos hsmall hfits
      obtain ⟨hone, hle⟩ := hfits.first hpos
      obtain ⟨c₁, hc₁, h₁⟩ := h.consume hle
      have hlen₁ := h₁.remaining_eq
      have hdrop : head.drop (results 0)
          ++ file.drop (results 0 - head.length)
          = (head ++ file).drop (results 0) := (List.drop_append).symm
      have htotal : (head.drop (results 0)).length
            + (file.drop (results 0 - head.length)).length
          = head.length + file.length - results 0 := by
        simp only [List.length_drop]
        omega
      have hgoing : ¬ c.writeableSize = 0 := by
        rw [writeableSize_eq_zero_iff h.sending, h.remaining_eq]
        omega
      have hdone := writeableSize_eq_zero_iff h₁.sending
      by_cases hnone : c₁.remaining = 0
      · refine sendsOnce_last status h hone hgoing hc₁ h₁ hnone ?_
        rw [List.length_append]
        omega
      · -- what is left fits in 32 bits, so it is not taken for nothing
        refine SendsOnce.cons h hone hgoing hc₁ (by omega) ?_
        rw [← hdrop]
        refine ih h₁ (by omega) (by omega) (by omega) ?_
        rw [htotal]
        exact hfits.later

/-- A connector as `Process` leaves it: `_iov[0]` describes the readable part
of the write buffer, which is not empty, and `_iov[1]` a block of memory. -/
structure Primed (c : HttpConnector) : Prop where
  inv : c.Inv
  iovSize : c.iovSize = 2
  head : c.iov₀ = ⟨c.writeBuffer.readp, c.writeBuffer.readableSize⟩
  some : 0 < c.writeBuffer.readableSize
  base : 0 ≤ c.iov₁.base
  block : c.iov₁.base.toNat + c.iov₁.len ≤ c.fileBlock.length

theorem Primed.pending {c : HttpConnector} (h : c.Primed)
    (hsmall : c.remaining < 2 ^ 63) :
    Pending c c.writeBuffer.readable c.iovFile := by
  have hhead := h.head
  have hblock := h.block
  have hlen : c.iov₀.len = c.writeBuffer.readableSize := by rw [hhead]
  refine ⟨⟨h.inv, hlen.le, hsmall⟩, h.iovSize, hlen.symm, ?_, ?_, ?_, h.base,
    rfl, ?_⟩
  · rw [hhead]
    exact Int.natCast_nonneg _
  · rw [iovHead, hhead]
    rfl
  · rw [h.inv.write.length_readable, hlen]
  · rw [iovFile, List.length_take, List.length_drop]
    omega

/-- `Write` sends a response exactly once, however it is cut up. -/
theorem write_sends_once {c : HttpConnector} (h : c.Primed)
    (hsmall : c.remaining < 2 ^ 32) {results : Nat → Nat}
    (hfits : Fits results c.remaining) (status : Bool) :
    SendsOnce status c results (c.writeBuffer.readable ++ c.iovFile) := by
  have hpending := h.pending (by omega)
  have htotal := hpending.remaining_eq
  have hsome := h.some
  rw [htotal] at hfits hsmall
  refine sendsOnce_of_pending status _ hpending (Nat.le_refl _) ?_ hsmall
    hfits
  rw [h.inv.write.length_readable]
  omega

/-- A head of two bytes and a file of one. -/
def loaded : HttpConnector :=
  { blankConnector with
    writeBuffer := Buffer.holding (lit "ab"), fileBlock := lit "c"
    iov₀ := ⟨0, 2⟩, iov₁ := ⟨0, 1⟩, iovSize := 2 }

theorem primed_loaded : Primed loaded where
  inv := ⟨Buffer.inv_construct (by decide),
    Buffer.inv_holding (by decide +kernel)⟩
  iovSize := rfl
  head := by decide +kernel
  some := by decide +kernel
  base := by decide
  block := by decide +kernel

/-- A transfer of a byte at a time. -/
theorem fits_bytes (total : Nat) : Fits (fun _ => 1) total := by
  intro k hk
  have hsum : ((List.range k).map fun _ => 1).sum = k := by simp
  rw [hsum] at hk ⊢
  exact ⟨Nat.le_refl _, hk⟩

theorem write_sends_once_bytes :
    SendsOnce true loaded (fun _ => 1) (lit "ab" ++ lit "c") := by
  have hwire : loaded.writeBuffer.readable ++ loaded.iovFile
      = lit "ab" ++ lit "c" := by decide +kernel
  rw [← hwire]
  exact write_sends_once primed_loaded (by decide) (fits_bytes _) true

/-! ## A call that fails -/

/-- `-1` is not a length the write buffer can release. -/
theorem consume_negative {c : HttpConnector} {head file : Bytes}
    (h : Pending c head file) :
    c.consume (-1) = .error (.assertFailed .updateReadp) := by
  have hsmall := h.sending.small
  have hreadable := h.readable
  simp only [remaining] at hsmall
  have hlen : toSizeT (-1) = 2 ^ 64 - 1 := by decide
  have hrelease : c.writeBuffer.releaseBuff (toSizeT (-1))
      = .error (.assertFailed .updateReadp) :=
    Buffer.updateReadp_error (by rw [hlen]; omega)
  rw [consume, toSsizeT_of_lt (by omega), if_neg (by omega)]
  simp only [hrelease]
  rfl

/-- What a `Write` does that meets a failing call after any number of partial
ones: the assertion fails, or the loop was left before the call or at it, and
then because the size that is left, narrowed to an `int`, is zero. -/
theorem write_failing (status : Bool) : ∀ (sent : List Nat)
    {c : HttpConnector} {head file : Bytes}, Pending c head file →
    (∀ n ∈ sent, 0 < n) → sent.sum < head.length + file.length →
    c.write status (sent.map Int.ofNat ++ [-1])
        = .error (.assertFailed .updateReadp) ∨
    ∃ c' len, c.write status (sent.map Int.ofNat ++ [-1])
        = .ok (some (c', len, status)) ∧ c'.writeableSize = 0 := by
  intro sent
  induction sent with
  | nil =>
      intro c head file h _ _
      rw [List.map_nil, List.nil_append, write, if_neg (by decide)]
      by_cases hzero : c.writeableSize = 0
      · rw [if_pos hzero]
        exact .inr ⟨c, -1, rfl, hzero⟩
      · rw [if_neg hzero, consume_negative h]
        exact .inl rfl
  | cons n sent ih =>
      intro c head file h hpos hsum
      have hn : 0 < n := hpos n (by simp)
      rw [List.sum_cons] at hsum
      obtain ⟨c₁, hc₁, h₁⟩ :=
        h.consume (by omega : n ≤ head.length + file.length)
      rw [List.map_cons, List.cons_append, write,
        if_neg (by simp only [Int.ofNat_eq_natCast]; omega)]
      by_cases hzero : c.writeableSize = 0
      · rw [if_pos hzero]
        exact .inr ⟨c, _, rfl, hzero⟩
      rw [if_neg hzero, show Int.ofNat n = (n : Int) from rfl, hc₁, ok_bind]
      by_cases hdone : c₁.writeableSize = 0
      · rw [if_pos hdone]
        exact .inr ⟨c₁, _, rfl, hdone⟩
      · rw [if_neg hdone]
        refine ih h₁ (fun m hm => hpos m (by simp [hm])) ?_
        simp only [List.length_drop]
        omega

/-- What is meant to happen: `Write` returns a negative value with the transfer
as it was before the failing call, and `_FunWrite` waits for the socket to take
more, or closes the connection on another error. -/
def SurvivesFailure (fd : Int) (status wouldBlock : Bool) (c : HttpConnector)
    (sent : List Nat) : Prop :=
  ∃ before c' len,
    (sent.map Int.ofNat).foldlM consume c = .ok before ∧
    c.write status (sent.map Int.ofNat ++ [-1])
      = .ok (some (c', len, status)) ∧
    len < 0 ∧ c'.iov₀ = before.iov₀ ∧ c'.iov₁ = before.iov₁ ∧
    c'.writeBuffer = before.writeBuffer ∧
    Server.funWrite fd c' len wouldBlock
      = if wouldBlock then .rearming true fd else .closing .delFd fd

/-- `_FunWrite` takes a size narrowed to zero for a finished transfer. -/
theorem funWrite_of_zero {c : HttpConnector} (h : c.writeableSize = 0)
    (fd len : Int) (wouldBlock : Bool) :
    Server.funWrite fd c len wouldBlock = .processing fd := if_pos h

/-- It never happens. -/
theorem write_failure_fatal {c : HttpConnector} (h : c.Primed)
    (hsmall : c.remaining < 2 ^ 63) {sent : List Nat}
    (hpos : ∀ n ∈ sent, 0 < n) (hsum : sent.sum < c.remaining) (fd : Int)
    (status wouldBlock : Bool) :
    ¬ SurvivesFailure fd status wouldBlock c sent := by
  intro hsurvives
  obtain ⟨before, c', len, -, hw, -, -, -, -, hnext⟩ := hsurvives
  have hpending := h.pending hsmall
  rw [hpending.remaining_eq] at hsum
  rcases write_failing status sent hpending hpos hsum with hfail | hleft
  · rw [hfail] at hw
    cases hw
  · obtain ⟨c₁, len₁, hw₁, hzero⟩ := hleft
    rw [hw₁] at hw
    cases hw
    rw [funWrite_of_zero hzero] at hnext
    cases wouldBlock
    · cases hnext
    · cases hnext

/-- One byte of three goes out, and the socket is full. -/
theorem write_failure_fatal_loaded :
    ¬ SurvivesFailure 5 true true loaded [1] :=
  write_failure_fatal primed_loaded (by decide) (by decide) (by decide) 5 true
    true

/-- The first call finds the socket full: the process stops. -/
theorem write_aborts :
    ¬ ∀ (c : HttpConnector) (sent : List Nat) (fd : Int)
        (status wouldBlock : Bool), c.Primed → (∀ n ∈ sent, 0 < n) →
      sent.sum < c.remaining →
      SurvivesFailure fd status wouldBlock c sent := by
  intro hall
  obtain ⟨before, c', len, -, hw, -⟩ :=
    hall loaded [] 5 true true primed_loaded (by simp) (by decide)
  have hgoing : ¬ loaded.writeableSize = 0 := by decide
  rw [List.map_nil, List.nil_append, write, if_neg (by decide),
    if_neg hgoing, consume_negative (primed_loaded.pending (by decide))] at hw
  cases hw

end HttpConnector

end TinyWebServer
