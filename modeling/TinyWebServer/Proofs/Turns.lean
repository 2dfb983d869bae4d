import TinyWebServer.Proofs.ReadClose
import TinyWebServer.Proofs.Transfer

/-!
# One turn of a connector

Reading, answering and sending, each seen from the connection: what a `Read`
took in, what a `Process` owes the client, and what a `Write` still owes it.
`Owes` is the debt as the two cursors and the blocks behind them hold it. A
`Process` makes it, a `Write` pays of it what it hands to `writev`, and
`_FunWrite` takes it for paid exactly when it is.

The block behind `_iov[1]` is freed when `Process` returns, before the first
byte is sent. How many bytes are sent out of it is the source's doing, which
they are is not: they are `none` here.

What is asked of the calls is that nothing arrives that the read buffer has no
room for, that a response has fewer than `2 ^ 32` bytes, and that `writev`
answers no more than it was given.
-/

namespace TinyWebServer

open Lib

/-- What one `Read` takes in: a call that delivers nothing ends it. -/
def received : List Recv → Recv → Bytes
  | [], last => last.bytes
  | recv :: rest, last =>
      if recv.bytes = [] then [] else recv.bytes ++ received rest last

/-- A byte that is sent; `none` is one out of a block that was freed. -/
abbrev Octet := Option UInt8

/-- What is known of `s` when only the first `head` bytes are still where they
were. -/
def legible (head : Nat) (s : Bytes) : List Octet :=
  (s.take head).map some ++ List.replicate (s.length - head) none

theorem length_legible (head : Nat) (s : Bytes) :
    (legible head s).length = s.length := by
  rw [legible, List.length_append, List.length_map, List.length_take,
    List.length_replicate]
  omega

theorem legible_nil (head : Nat) : legible head [] = [] :=
  List.length_eq_zero_iff.mp (length_legible head [])

theorem legible_eq_nil_iff {head : Nat} {s : Bytes} :
    legible head s = [] ↔ s = [] := by
  rw [← List.length_eq_zero_iff, length_legible, List.length_eq_zero_iff]

theorem legible_append (head : Nat) (s t : Bytes) :
    legible head (s ++ t) = legible head s ++ legible (head - s.length) t := by
  rw [legible, List.take_append, List.map_append, List.length_append]
  rcases Nat.le_total s.length head with hle | hle
  · rw [legible, legible, show s.length - head = 0 by omega,
      show s.length + t.length - head = t.length - (head - s.length) by omega,
      List.replicate_zero, List.append_nil, List.append_assoc]
  · rw [legible, legible, show head - s.length = 0 by omega, List.take_zero,
      List.map_nil, List.append_nil, List.nil_append, List.append_assoc,
      show s.length + t.length - head = s.length - head + (t.length - 0) by
        omega, List.replicate_add]

/-- A head that is there, and what comes after it. -/
theorem legible_head (head file : Bytes) :
    legible head.length (head ++ file)
      = head.map some ++ List.replicate file.length none := by
  rw [legible, List.take_left, List.length_append, Nat.add_sub_cancel_left]

theorem legible_take_drop (head n : Nat) (s : Bytes) (hle : n ≤ s.length) :
    legible head (s.take n) ++ legible (head - n) (s.drop n)
      = legible head s := by
  have hsplit := legible_append head (s.take n) (s.drop n)
  rw [List.take_append_drop, List.length_take, Nat.min_eq_left hle] at hsplit
  exact hsplit.symm

namespace HttpConnector

variable {c c' : HttpConnector}

/-- What the client can be sent of the two blocks. -/
def wire (c : HttpConnector) : List Octet :=
  legible c.iov₀.len (c.iovHead ++ c.iovFile)

/-! ## Reading -/

theorem readFD_received {b b' : Buffer} (h : b.Inv) {recv : Recv} {len : Int}
    {status : Bool} (hfit : recv.bytes.length ≤ b.writeableSize)
    (hr : b.readFD recv.spill recv.got = .ok (b', len, status)) :
    b'.readable = b.readable ++ recv.bytes ∧
      b'.writeableSize + recv.bytes.length = b.writeableSize ∧
      (0 < len ↔ recv.bytes ≠ []) := by
  rw [Recv.bytes] at hfit ⊢
  cases hgot : recv.got with
  | none =>
      rw [hgot, h.readFD_failed] at hr
      cases hr
      simp
  | some s =>
      rw [hgot, Option.getD_some] at hfit
      rw [hgot] at hr
      obtain ⟨b₁, hb₁, -, hread, hsize, hroom⟩ := h.readFD_fits hfit recv.spill
      rw [hb₁] at hr
      cases hr
      have hpos : 0 < s.length ↔ s ≠ [] := List.length_pos_iff
      rw [Option.getD_some]
      refine ⟨hread, by omega, ?_⟩
      rw [← hpos]
      omega

theorem readLoop_received : ∀ {arrived : List Recv} {last : Recv}
    {b b' : Buffer} {len : Int} {status : Bool}, b.Inv →
    (received arrived last).length ≤ b.writeableSize →
    readLoop b arrived last = .ok (b', len, status) →
    b'.readable = b.readable ++ received arrived last := by
  intro arrived
  induction arrived with
  | nil =>
      intro last b b' len status h hfit hr
      exact (readFD_received h hfit hr).1
  | cons recv rest ih =>
      intro last b b' len status h hfit hr
      rw [readLoop] at hr
      obtain ⟨⟨b₁, len₁, status₁⟩, h₁, hr⟩ := bind_ok_iff.mp hr
      rw [received] at hfit ⊢
      have hfirst : recv.bytes.length ≤ b.writeableSize := by
        split at hfit
        · next hnone => rw [hnone]; exact Nat.zero_le _
        · rw [List.length_append] at hfit; omega
      obtain ⟨hread, hroom, hpos⟩ := readFD_received h hfirst h₁
      simp only [] at hr
      split at hr
      · next hle =>
          have hnone : recv.bytes = [] := by
            by_contra hne
            have hlen := hpos.mpr hne
            omega
          cases hr
          rw [if_pos hnone, hread, hnone]
      · next hgo =>
          have hne : recv.bytes ≠ [] := hpos.mp (by omega)
          rw [if_neg hne, List.length_append] at hfit
          rw [if_neg hne, ih (h.readFD h₁) (by omega) hr, hread,
            List.append_assoc]

/-- What fits is read, whole. -/
theorem read_received {arrived : List Recv} {last : Recv} {len : Int}
    {status : Bool} (h : c.Inv)
    (hfit : (received arrived last).length ≤ c.readBuffer.writeableSize)
    (hr : c.read arrived last = .ok (c', len, status)) :
    c'.readBuffer.readable = c.readBuffer.readable ++ received arrived last ∧
      c'.remaining = c.remaining ∧
      c' = { c with readBuffer := c'.readBuffer } := by
  obtain ⟨⟨b, len', status'⟩, hb, hr⟩ := bind_ok_iff.mp hr
  cases hr
  exact ⟨readLoop_received h.read hfit hb, rfl, rfl⟩

/-! ## Answering -/

/-- What the client can be sent of an answer. -/
def Answer.wire (a : Answer) : List Octet :=
  legible a.head.length (a.head ++ a.content)

theorem length_wire (a : Answer) :
    a.wire.length = a.head.length + a.content.length := by
  rw [Answer.wire, length_legible, List.length_append]

theorem Carries.wire {a : Answer} (h : Carries c a) : c.wire = a.wire := by
  rw [HttpConnector.wire, Answer.wire, h.headLen, h.head, h.file]

/-- What `Process` answers to `received` with these two objects. -/
def respond (w : World) (request : HttpRequest) (reponse : HttpResponse)
    (received : Bytes) : Except Fault Answer := do
  let request ← request.init.readContent w.fs received
  answer w reponse request

/-- `wire` is what a connector that has received `inbox`, and no more, answers
to it in some world, after some history of its own. -/
def Answers (inbox : Bytes) (wire : List Octet) : Prop :=
  ∃ c w c', history.Reachable c ∧ c.readBuffer.readable = inbox ∧
    c.process w = .ok (c', true) ∧ wire = c'.wire

/-- The same, in a world that is `ok`. -/
def AnswersIn (ok : World → Prop) (inbox : Bytes) (wire : List Octet) :
    Prop :=
  ∃ c w c', ok w ∧ history.Reachable c ∧ c.readBuffer.readable = inbox ∧
    c.process w = .ok (c', true) ∧ wire = c'.wire

theorem answersIn_true : AnswersIn (fun _ => True) = Answers := by
  funext inbox wire
  simp only [AnswersIn, Answers, true_and]

theorem process_primed {w : World} (h : c.Inv)
    (hp : c.process w = .ok (c', true)) : c'.Primed := by
  have hinv : c'.Inv := inv_process h hp
  rw [process] at hp
  split at hp
  · cases hp
  · obtain ⟨⟨request, rb⟩, -, hp⟩ := bind_ok_iff.mp hp
    obtain ⟨⟨reponse, request'⟩, -, hp⟩ := bind_ok_iff.mp hp
    obtain ⟨wb, hwb, hp⟩ := bind_ok_iff.mp hp
    obtain ⟨u, -, hp⟩ := bind_ok_iff.mp hp
    obtain ⟨content, -, hp⟩ := bind_ok_iff.mp hp
    obtain ⟨base, hbase, hp⟩ := bind_ok_iff.mp hp
    obtain ⟨wb', hwb', hwinv, hread⟩ := headWriteBuff_spec h.write reponse
    rw [hwb'] at hwb
    cases hwb
    rw [hwinv.beginReadPtr] at hbase
    cases hbase
    cases hp
    refine ⟨hinv, rfl, rfl, ?_, Int.le_refl 0, ?_⟩
    · -- The head ends in a CRLF at least.
      show 0 < wb.readableSize
      rw [← hwinv.length_readable, hread, List.length_append]
      exact Nat.add_pos_right _ (by decide)
    · show (0 : Int).toNat + content.length ≤ content.length
      rw [Int.toNat_zero, Nat.zero_add]

/-! ## Sending -/

/-- What is left to send to the client. -/
def Owes (c : HttpConnector) (out : List Octet) : Prop :=
  c.remaining = 0 ∧ out = [] ∨
    ∃ head file, Pending c head file ∧
      out = legible head.length (head ++ file) ∧ out.length < 2 ^ 32

/-- A call answers `-1`, or no more than it was given. -/
def Within (c : HttpConnector) : List Int → Prop
  | [] => True
  | len :: rest => -1 ≤ len ∧ len ≤ c.remaining ∧
      ∀ c', c.consume len = .ok c' → c'.Within rest

theorem Owes.ready {w : World} (h : c.Inv)
    (hp : c.process w = .ok (c', true)) (hsmall : c'.remaining < 2 ^ 32) :
    Owes c' c'.wire := by
  have hprimed := process_primed h hp
  have hpending := hprimed.pending (by omega)
  have htotal := hpending.remaining_eq
  have hhead : c'.iovHead = c'.writeBuffer.readable := hpending.headBytes
  refine .inr ⟨_, _, hpending, by rw [wire, hhead, hpending.headLen], ?_⟩
  rw [wire, length_legible, hhead, List.length_append]
  omega

theorem Owes.remaining {out : List Octet} (h : Owes c out) :
    c.remaining = out.length := by
  rcases h with ⟨hnone, rfl⟩ | ⟨head, file, hpending, rfl, -⟩
  · exact hnone
  · rw [hpending.remaining_eq, length_legible, List.length_append]

/-- The narrowed size is zero exactly when nothing is owed. -/
theorem Owes.done_iff {out : List Octet} (h : Owes c out) :
    c.writeableSize = 0 ↔ out = [] := by
  have hlen := h.remaining
  rw [← List.length_eq_zero_iff, ← hlen]
  rcases h with ⟨hnone, -⟩ | ⟨head, file, hpending, rfl, hsmall⟩
  · exact iff_of_true (writeableSize_eq_zero hnone) hnone
  · rw [writeableSize_eq_zero_iff hpending.sending]
    omega

/-- Two empty blocks are not much to send. -/
theorem passed_empty (h : c.remaining = 0) (len : Int) : c.passed len = [] := by
  rw [HttpConnector.remaining] at h
  have h₀ : c.iovHead = [] := by
    rw [iovHead, show c.iov₀.len = 0 by omega, List.take_zero]
  have h₁ : c.iovFile = [] := by
    rw [iovFile, show c.iov₁.len = 0 by omega, List.take_zero]
  have hflat : (List.take c.iovSize [([] : Bytes), []]).flatten = [] := by
    rw [List.flatten_eq_nil_iff]
    intro l hl
    simpa using List.mem_of_mem_take hl
  rw [passed, h₀, h₁, hflat, List.take_nil]

theorem Owes.passed_nil (h : Owes c []) (len : Int) : c.passed len = [] :=
  passed_empty (by simpa using h.remaining) len

/-- A call that sends `len` bytes of what is owed, and what is then owed. -/
theorem Owes.consume {out : List Octet} (h : Owes c out) {len : Nat}
    (hsome : out ≠ []) (hle : len ≤ c.remaining) :
    ∃ c' left, c.consume len = .ok c' ∧ Owes c' left ∧
      (c.passed len).length = len ∧ c'.iov₀.len = c.iov₀.len - len ∧
      out = legible c.iov₀.len (c.passed len) ++ left := by
  rcases h with ⟨-, rfl⟩ | ⟨head, file, hpending, rfl, hsmall⟩
  · exact absurd rfl hsome
  · have htotal : c.remaining = (head ++ file).length := by
      rw [hpending.remaining_eq, List.length_append]
    rw [length_legible] at hsmall
    rw [htotal] at hle
    have hfits : len ≤ head.length + file.length :=
      hle.trans_eq List.length_append
    obtain ⟨c', hc', h'⟩ := hpending.consume hfits
    have hlen : c'.iov₀.len = c.iov₀.len - len := by
      rw [← h'.headLen, ← hpending.headLen, List.length_drop]
    refine ⟨c', legible (head.length - len) ((head ++ file).drop len), hc',
      .inr ⟨_, _, h', ?_, ?_⟩, ?_, hlen, ?_⟩
    · rw [List.drop_append, List.length_drop]
    · rw [length_legible, List.length_drop]
      omega
    · rw [hpending.passed_eq, List.length_take, Nat.min_eq_left hle]
    · rw [hpending.passed_eq, ← hpending.headLen,
        legible_take_drop _ _ _ hle]

/-- A call that fails while something is owed is not survived. -/
theorem Owes.consume_negative {out : List Octet} (h : Owes c out)
    (hsome : out ≠ []) :
    c.consume (-1) = .error (.assertFailed .updateReadp) := by
  rcases h with ⟨-, rfl⟩ | ⟨head, file, hpending, -, -⟩
  · exact absurd rfl hsome
  · exact HttpConnector.consume_negative hpending

/-- A `Write` pays what it hands to `writev`, and the rest stays owed. -/
theorem Owes.write : ∀ {results : List Int} {c c' : HttpConnector}
    {out : List Octet} {status status' : Bool} {len : Int}, Owes c out →
    c.Within results → c.write status results = .ok (some (c', len, status')) →
    ∃ sent rest, c.writeSent results = .ok sent ∧
      out = legible c.iov₀.len sent ++ rest ∧ Owes c' rest := by
  intro results
  induction results with
  | nil => intro c c' out status status' len _ _ hw; cases hw
  | cons first rest ih =>
      intro c c' out status status' len h hwithin hw
      obtain ⟨hlow, hhigh, hlater⟩ := hwithin
      rw [HttpConnector.write] at hw
      rw [writeSent]
      split at hw
      · next hzero =>
          cases hw
          rw [if_pos hzero]
          exact ⟨[], out, rfl, by rw [legible_nil, List.nil_append], h⟩
      next hnonzero =>
      rw [if_neg hnonzero]
      split at hw
      · next hdone =>
          cases hw
          have hnone : out = [] := h.done_iff.mp hdone
          subst hnone
          rw [if_pos hdone]
          exact ⟨[], [], congrArg Except.ok (h.passed_nil first),
            by rw [legible_nil, List.nil_append], h⟩
      next hgoing =>
      have hsome : out ≠ [] := fun hnone => hgoing (h.done_iff.mpr hnone)
      obtain ⟨c₁, hc₁, hw⟩ := bind_ok_iff.mp hw
      have hpos : 0 < first := by
        rcases Int.lt_or_le 0 first with hpos | hle
        · exact hpos
        · -- What is left is `-1`, and the assertion would have failed.
          have hfailed : first = -1 := by omega
          rw [hfailed, h.consume_negative hsome] at hc₁
          cases hc₁
      obtain ⟨n, rfl⟩ := Int.eq_ofNat_of_zero_le (Int.le_of_lt hpos)
      obtain ⟨c₂, left, hc₂, h₂, hpassed, hlen, hout⟩ :=
        h.consume hsome (by omega : n ≤ c.remaining)
      rw [hc₂] at hc₁
      cases hc₁
      rw [if_neg hgoing, hc₂, ok_bind]
      split at hw
      · next hdone =>
          cases hw
          rw [if_pos hdone]
          exact ⟨c.passed n, left, rfl, hout, h₂⟩
      · next hmore =>
          obtain ⟨sent, left', hsent, hleft, howes⟩ := ih h₂ (hlater _ hc₂) hw
          rw [if_neg hmore, hsent, ok_bind]
          refine ⟨c.passed n ++ sent, left', rfl, ?_, howes⟩
          rw [hout, hleft, legible_append, hpassed, hlen, List.append_assoc]

end HttpConnector

end TinyWebServer
