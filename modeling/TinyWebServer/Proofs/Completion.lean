import TinyWebServer.Proofs.Transfer

/-!
# When a transfer counts as finished

Both `Write` and `_FunWrite` ask `Writeable_Size` whether anything is left, and
it narrows the sum of the two lengths to an `int`. `Exact` is what the two take
for granted: that the answer is zero when nothing is left and at no other
point of the transfer.

Sizes here are any that a `size_t` holds. What the cursors lose in a call is
what the call wrote even where the head is longer than a `ssize_t` can say, so
the count stays right up to the narrowing, and `exact_iff` says which transfers
come to a point at which the narrowing hides what is left: none of less than
`2 ^ 32` bytes, and some of every other size.
-/

namespace TinyWebServer

open Lib

namespace HttpConnector

/-- A connector whose two lengths add up to a `size_t`; what `_iov[0]`
describes is still in the write buffer. -/
structure Sized (c : HttpConnector) : Prop where
  inv : c.Inv
  head : c.iov₀.len ≤ c.writeBuffer.readableSize
  small : c.remaining < 2 ^ 64

theorem Primed.sized {c : HttpConnector} (h : c.Primed)
    (hsmall : c.remaining < 2 ^ 64) : c.Sized := by
  have hhead := h.head
  exact ⟨h.inv, by rw [hhead], hsmall⟩

/-- How much the first `n` calls wrote. -/
def sent (results : Nat → Nat) (n : Nat) : Nat :=
  ((List.range n).map results).sum

/-- Whether anything is left is asked and answered right at every point of the
transfer: `Write` goes on as long as something is left, returns on the call
that sends the last byte, and `_FunWrite` goes on to the next request then and
not when a call wrote nothing. -/
structure Exact (c : HttpConnector) (results : Nat → Nat) : Prop where
  test : ∀ n, (∀ k < n, sent results k < c.remaining) →
    ∃ cₙ, (taken results n).foldlM consume c = .ok cₙ ∧
      cₙ.remaining + sent results n = c.remaining ∧
      (cₙ.writeableSize = 0 ↔ cₙ.remaining = 0)
  going : ∀ n status, sent results n < c.remaining →
    c.write status (taken results n) = .ok none
  done : ∀ n status, sent results n < c.remaining →
    sent results (n + 1) = c.remaining →
    ∃ c', c.write status (taken results (n + 1))
        = .ok (some (c', results n, status)) ∧ c'.remaining = 0 ∧
      ∀ fd wouldBlock,
        Server.funWrite fd c' (results n) wouldBlock = .processing fd
  stalled : ∀ n status, sent results n < c.remaining →
    ∃ c', c.write status (taken results n ++ [0])
        = .ok (some (c', 0, false)) ∧
      c'.remaining + sent results n = c.remaining ∧
      ∀ fd wouldBlock, Server.funWrite fd c' 0 wouldBlock = .finishing

/-- No call leaves a multiple of `2 ^ 32` bytes that is not zero. -/
def Unhidden (results : Nat → Nat) (total : Nat) : Prop :=
  ∀ n, sent results n < total → ¬ 2 ^ 32 ∣ total - sent results n

/-! ## The count -/

variable {c : HttpConnector} {results : Nat → Nat}

theorem Sized.writeableSize_eq_zero_iff (h : c.Sized) :
    c.writeableSize = 0 ↔ 2 ^ 32 ∣ c.remaining := by
  have hsmall := h.small
  rw [writeableSize, toInt_eq_zero_iff, Nat.dvd_iff_mod_eq_zero]
  simp only [remaining] at hsmall ⊢
  omega

/-- The call got into the file, or the head is so long that its length is taken
for a negative one. -/
theorem Sized.consume_over (h : c.Sized) {len : Nat}
    (hle : len ≤ c.remaining) (hover : (len : Int) > toSsizeT c.iov₀.len) :
    ∃ c', c.consume len = .ok c' ∧ c'.Sized ∧
      c'.remaining = c.remaining - len := by
  have hsmall := h.small
  have hhead := h.head
  simp only [remaining] at hle hsmall
  have hfile : toSizeT (c.iov₁.len - ((len : Int) - c.iov₀.len))
      = c.iov₁.len + c.iov₀.len - len := by
    rw [toSizeT]
    omega
  rw [consume, if_pos hover]
  simp only [hfile]
  by_cases hzero : c.iov₀.len = 0
  · rw [if_neg (not_not.mpr hzero)]
    refine ⟨_, rfl, ⟨⟨h.inv.read, h.inv.write⟩, hhead, ?_⟩, ?_⟩
    · simp only [remaining]
      omega
    · simp only [remaining]
      omega
  · rw [if_pos hzero]
    refine ⟨_, rfl, ⟨⟨h.inv.read, h.inv.write.releaseAllBuff⟩,
      Nat.zero_le _, ?_⟩, ?_⟩
    · simp only [remaining]
      omega
    · simp only [remaining]
      omega

theorem Sized.consume_inside (h : c.Sized) {len : Nat} (hpos : 0 < len)
    (hover : ¬ (len : Int) > toSsizeT c.iov₀.len) :
    ∃ c', c.consume len = .ok c' ∧ c'.Sized ∧
      c'.remaining = c.remaining - len := by
  have hsmall := h.small
  have hhead := h.head
  simp only [remaining] at hsmall
  have hshort : c.iov₀.len < 2 ^ 63 := by
    by_contra hlong
    have hneg := toSsizeT_neg (Nat.not_lt.mp hlong) (by omega)
    omega
  have hle : len ≤ c.iov₀.len := by
    rw [toSsizeT_of_lt hshort] at hover
    omega
  have hlen : len ≤ c.writeBuffer.readableSize := by omega
  rw [consume_head hhead hshort hle]
  refine ⟨_, rfl, ⟨⟨h.inv.read, h.inv.write.advance hlen⟩, ?_, ?_⟩, ?_⟩
  · simp only [Buffer.readableSize] at hhead ⊢
    omega
  · simp only [remaining]
    omega
  · simp only [remaining]
    omega

/-- A call takes away what it wrote. -/
theorem Sized.consume (h : c.Sized) {len : Nat} (hpos : 0 < len)
    (hle : len ≤ c.remaining) :
    ∃ c', c.consume len = .ok c' ∧ c'.Sized ∧
      c'.remaining = c.remaining - len := by
  by_cases hover : (len : Int) > toSsizeT c.iov₀.len
  · exact h.consume_over hle hover
  · exact h.consume_inside hpos hover

/-! ## Along a transfer -/

theorem taken_add_one (results : Nat → Nat) (n : Nat) :
    taken results (n + 1) = taken results n ++ [(results n : Int)] := by
  rw [taken, List.range_succ, List.map_append]
  rfl

theorem sent_add_one (results : Nat → Nat) (n : Nat) :
    sent results (n + 1) = sent results n + results n := by
  simp [sent, List.range_succ]

theorem sent_mono (results : Nat → Nat) {k n : Nat} (h : k ≤ n) :
    sent results k ≤ sent results n := by
  induction n with
  | zero => rw [Nat.le_zero.mp h]
  | succ n ih =>
      rcases Nat.lt_or_eq_of_le h with hlt | rfl
      · have hle := ih (by omega)
        have hadd := sent_add_one results n
        omega
      · exact Nat.le_refl _

/-- A point of the transfer, and what is left there. -/
theorem sized_reached (h : c.Sized) (hfits : Fits results c.remaining) :
    ∀ n, (∀ k < n, sent results k < c.remaining) →
      ∃ cₙ, (taken results n).foldlM HttpConnector.consume c = .ok cₙ ∧
        cₙ.Sized ∧ cₙ.remaining + sent results n = c.remaining := by
  intro n
  induction n with
  | zero => exact fun _ => ⟨c, rfl, h, rfl⟩
  | succ n ih =>
      intro hgoing
      obtain ⟨cₙ, hcₙ, hsized, hleft⟩ := ih fun k hk => hgoing k (by omega)
      obtain ⟨hone, hfit⟩ : 1 ≤ results n ∧
          sent results n + results n ≤ c.remaining :=
        hfits n (hgoing n (Nat.lt_succ_self n))
      obtain ⟨c', hc', hsized', hleft'⟩ :=
        hsized.consume hone (by omega : results n ≤ cₙ.remaining)
      refine ⟨c', ?_, hsized', ?_⟩
      · rw [taken_add_one, List.foldlM_append, hcₙ, ok_bind, List.foldlM_cons,
          hc', ok_bind]
        rfl
      · rw [sent_add_one]
        omega

/-- One call of `Write` that leaves something to send. -/
theorem Sized.write_cons (h : c.Sized) {len : Nat} (hpos : 0 < len)
    (hlt : len < c.remaining) (hnow : ¬ 2 ^ 32 ∣ c.remaining)
    (hnext : ¬ 2 ^ 32 ∣ c.remaining - len) :
    ∃ c' : HttpConnector, c'.Sized ∧ c'.remaining = c.remaining - len ∧
      ∀ status rest,
        c.write status ((len : Int) :: rest) = c'.write status rest := by
  obtain ⟨c', hc', hsized, hleft⟩ := h.consume hpos (Nat.le_of_lt hlt)
  refine ⟨c', hsized, hleft, fun status rest => ?_⟩
  have hnonzero : ¬ (len : Int) = 0 := by omega
  have hgoing : ¬ c.writeableSize = 0 :=
    fun hzero => hnow (h.writeableSize_eq_zero_iff.mp hzero)
  have hmore : ¬ c'.writeableSize = 0 := by
    rw [hsized.writeableSize_eq_zero_iff, hleft]
    exact hnext
  rw [write, if_neg hnonzero, if_neg hgoing, hc', ok_bind, if_neg hmore]

/-- `Write` is past its first `n` calls when nothing was hidden from it. -/
theorem write_taken (h : c.Sized) (hfits : Fits results c.remaining)
    (hopen : Unhidden results c.remaining) :
    ∀ n, sent results n < c.remaining →
      ∃ cₙ : HttpConnector, cₙ.Sized ∧
        cₙ.remaining + sent results n = c.remaining ∧
        ∀ status rest,
          c.write status (taken results n ++ rest) = cₙ.write status rest := by
  intro n
  induction n with
  | zero => exact fun _ => ⟨c, h, rfl, fun status rest => rfl⟩
  | succ n ih =>
      intro hlt
      have hadd := sent_add_one results n
      have hlt' : sent results n < c.remaining := by omega
      obtain ⟨cₙ, hsized, hleft, hwrite⟩ := ih hlt'
      obtain ⟨hone, hfit⟩ : 1 ≤ results n ∧
          sent results n + results n ≤ c.remaining := hfits n hlt'
      have hnow := hopen n hlt'
      have hnext := hopen (n + 1) hlt
      rw [show c.remaining - sent results n = cₙ.remaining by omega] at hnow
      rw [show c.remaining - sent results (n + 1)
        = cₙ.remaining - results n by omega] at hnext
      obtain ⟨c', hsized', hleft', hcons⟩ :=
        hsized.write_cons hone (by omega) hnow hnext
      refine ⟨c', hsized', by omega, fun status rest => ?_⟩
      rw [taken_add_one, List.append_assoc, hwrite]
      exact hcons status rest

/-! ## Exactness -/

theorem unhidden_of_exact (h : c.Sized) (hfits : Fits results c.remaining)
    (hexact : Exact c results) : Unhidden results c.remaining := by
  intro n hlt hdvd
  have hgoing : ∀ k < n, sent results k < c.remaining := by
    intro k hk
    have hmono := sent_mono results (Nat.le_of_lt hk)
    omega
  obtain ⟨cₙ, hcₙ, hsized, hleft⟩ := sized_reached h hfits n hgoing
  obtain ⟨cₙ', hcₙ', -, htest⟩ := hexact.test n hgoing
  rw [hcₙ] at hcₙ'
  cases hcₙ'
  rw [show c.remaining - sent results n = cₙ.remaining by omega] at hdvd
  have hnone := htest.mp (hsized.writeableSize_eq_zero_iff.mpr hdvd)
  omega

theorem exact_of_unhidden (h : c.Sized) (hfits : Fits results c.remaining)
    (hopen : Unhidden results c.remaining) : Exact c results where
  test n hgoing := by
    obtain ⟨cₙ, hcₙ, hsized, hleft⟩ := sized_reached h hfits n hgoing
    refine ⟨cₙ, hcₙ, hleft, ?_, writeableSize_eq_zero⟩
    intro hzero
    by_contra hsome
    refine hopen n (by omega) ?_
    rw [show c.remaining - sent results n = cₙ.remaining by omega]
    exact hsized.writeableSize_eq_zero_iff.mp hzero
  going n status hlt := by
    obtain ⟨cₙ, -, -, hwrite⟩ := write_taken h hfits hopen n hlt
    have hall := hwrite status []
    rw [List.append_nil] at hall
    rw [hall, write]
  done n status hlt hall := by
    obtain ⟨cₙ, hsized, hleft, hwrite⟩ := write_taken h hfits hopen n hlt
    rw [sent_add_one] at hall
    obtain ⟨hone, -⟩ := hfits n hlt
    obtain ⟨c', hc', -, hleft'⟩ :=
      hsized.consume hone (by omega : results n ≤ cₙ.remaining)
    have hnone : c'.remaining = 0 := by omega
    have hnow := hopen n hlt
    rw [show c.remaining - sent results n = cₙ.remaining by omega] at hnow
    have hgoing : ¬ cₙ.writeableSize = 0 :=
      fun hzero => hnow (hsized.writeableSize_eq_zero_iff.mp hzero)
    have hzero := writeableSize_eq_zero hnone
    refine ⟨c', ?_, hnone, fun fd wouldBlock => funWrite_of_zero hzero fd _ _⟩
    rw [taken_add_one, hwrite, write, if_neg (by omega), if_neg hgoing, hc',
      ok_bind, if_pos hzero]
    rfl
  stalled n status hlt := by
    obtain ⟨cₙ, hsized, hleft, hwrite⟩ := write_taken h hfits hopen n hlt
    have hnow := hopen n hlt
    rw [show c.remaining - sent results n = cₙ.remaining by omega] at hnow
    refine ⟨cₙ, ?_, hleft, fun fd wouldBlock => ?_⟩
    · rw [hwrite, write, if_pos rfl]
    · rw [Server.funWrite, if_neg, if_neg (by omega)]
      exact fun hzero => hnow (hsized.writeableSize_eq_zero_iff.mp hzero)

/-- Every size from `2 ^ 32` on has a transfer that comes to `2 ^ 32` bytes
left: a byte at a time. -/
theorem unhidden_iff (total : Nat) :
    (∀ results, Fits results total → Unhidden results total)
      ↔ total < 2 ^ 32 := by
  constructor
  · intro hall
    by_contra hbig
    have hsum : sent (fun _ => 1) (total - 2 ^ 32) = total - 2 ^ 32 := by
      simp [sent]
    refine hall _ (fits_bytes total) (total - 2 ^ 32) (by omega) ?_
    rw [hsum, Nat.sub_sub_self (by omega)]
  · intro hsmall results _ n hlt hdvd
    have hle := Nat.le_of_dvd (by omega) hdvd
    omega

/-- The completion test is exact on the transfers in which nothing is hidden,
and on all of a size exactly below `2 ^ 32`. -/
theorem exact_iff (h : c.Sized) :
    (∀ results, Fits results c.remaining →
      (Exact c results ↔ Unhidden results c.remaining)) ∧
    ((∀ results, Fits results c.remaining → Exact c results)
      ↔ c.remaining < 2 ^ 32) := by
  refine ⟨fun results hfits =>
    ⟨unhidden_of_exact h hfits, exact_of_unhidden h hfits⟩, ?_⟩
  rw [← unhidden_iff]
  exact forall₂_congr fun results hfits =>
    ⟨unhidden_of_exact h hfits, exact_of_unhidden h hfits⟩

theorem exact_iff_loaded : Exact loaded fun _ => 1 := by
  have hsized := primed_loaded.sized (by decide)
  exact (exact_iff hsized).2.mpr (by decide) _ (fits_bytes loaded.remaining)

/-- A head of two bytes and a file of `2 ^ 32`. -/
def heavy : HttpConnector :=
  { loaded with
    fileBlock := List.replicate (2 ^ 32) 0, iov₁ := ⟨0, 2 ^ 32⟩ }

theorem primed_heavy : Primed heavy where
  inv := ⟨primed_loaded.inv.read, primed_loaded.inv.write⟩
  iovSize := rfl
  head := primed_loaded.head
  some := primed_loaded.some
  base := Int.le_refl 0
  block := by
    show (0 : Int).toNat + 2 ^ 32 ≤ (List.replicate (2 ^ 32) 0).length
    rw [List.length_replicate]
    exact Nat.le_of_eq (Nat.zero_add _)

/-- Two bytes out, and the file counts as sent. -/
theorem heavy_hidden :
    ¬ ∀ (c : HttpConnector) (results : Nat → Nat), c.Primed →
      c.remaining < 2 ^ 64 → Fits results c.remaining → Exact c results := by
  intro hall
  have hremaining : heavy.remaining = 2 + 2 ^ 32 := rfl
  have hsmall : heavy.remaining < 2 ^ 64 := by omega
  have hfits := fits_bytes heavy.remaining
  have hopen := unhidden_of_exact (primed_heavy.sized hsmall) hfits
    (hall heavy _ primed_heavy hsmall hfits)
  have htwo : sent (fun _ => 1) 2 = 2 := rfl
  refine hopen 2 (by omega) ?_
  rw [htwo, hremaining, Nat.add_sub_cancel_left]

end HttpConnector

end TinyWebServer
