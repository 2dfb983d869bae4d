import TinyWebServer.Model.HttpConnector
import TinyWebServer.Lib.Transition
import TinyWebServer.Proofs.Message
import TinyWebServer.Proofs.ReadFD

/-!
# A connector through its whole life

A connector object outlives its clients: it is found again under its
descriptor's number, `Init` marks it as running, and everything else is what
the last client left. `HttpConnector.history` is every way it may be driven,
call after call, and `Inv` is the little that holds throughout: both buffers
are in order.

That little is enough to take the buffers out of `Process`. `process_spec`
says that `Process` is the scan of the readable bytes taken into the request,
then `answer`, which knows no buffer; the response ends up in the two
`iovec`s, byte for byte.
-/

namespace TinyWebServer

open Lib

/-- A call on a connector, with what the world answered. -/
inductive ConnectorCall where
  | init (sockFd : Int)
  | read (arrived : List Recv) (last : Recv)
  | process (w : World)
  | write (status : Bool) (results : List Int)
  | close

namespace HttpConnector

inductive Call : HttpConnector → ConnectorCall → HttpConnector → Prop where
  | init {c : HttpConnector} {sockFd : Int} :
      Call c (.init sockFd) (c.init sockFd)
  | read {c c' : HttpConnector} {arrived : List Recv} {last : Recv} {len : Int}
      {status : Bool} : c.read arrived last = .ok (c', len, status) →
      Call c (.read arrived last) c'
  | process {c c' : HttpConnector} {w : World} {ready : Bool} :
      c.process w = .ok (c', ready) → Call c (.process w) c'
  | write {c c' : HttpConnector} {status status' : Bool} {results : List Int}
      {len : Int} : c.write status results = .ok (some (c', len, status')) →
      Call c (.write status results) c'
  | close {c : HttpConnector} : Call c .close c.close

/-- Every history of a connector, from its construction on. -/
def history : TransitionSystem HttpConnector ConnectorCall where
  init := Fresh
  step := Call

/-- Both buffers are in order. -/
structure Inv (c : HttpConnector) : Prop where
  read : c.readBuffer.Inv
  write : c.writeBuffer.Inv

theorem inv_construct (request : HttpRequest) (reponse : HttpResponse) :
    (construct request reponse).Inv :=
  ⟨Buffer.inv_construct (by decide), Buffer.inv_construct (by decide)⟩

/-! ## Reading -/

theorem inv_readLoop : ∀ {arrived : List Recv} {last : Recv} {b b' : Buffer}
    {len : Int} {status : Bool}, b.Inv →
    readLoop b arrived last = .ok (b', len, status) → b'.Inv := by
  intro arrived
  induction arrived with
  | nil => intro last b b' len status h hr; exact h.readFD hr
  | cons recv rest ih =>
      intro last b b' len status h hr
      rw [readLoop] at hr
      obtain ⟨⟨b₁, len₁, status₁⟩, h₁, hr⟩ := bind_ok_iff.mp hr
      have hinv := h.readFD h₁
      simp only [] at hr
      split at hr
      · cases hr; exact hinv
      · exact ih hinv hr

/-- Chunks that fit the writable tail, and then nothing more for now. -/
theorem readLoop_pieces {last : Buffer.Spill} :
    ∀ (pieces : List (Buffer.Spill × Bytes)) {b : Buffer}, b.Inv →
    (∀ p ∈ pieces, p.2 ≠ []) →
    (pieces.map Prod.snd).flatten.length ≤ b.writeableSize →
    ∃ b', readLoop b (pieces.map fun p => ⟨p.1, some p.2⟩) ⟨last, none⟩
        = .ok (b', -1, false) ∧ b'.Inv ∧
      b'.readable = b.readable ++ (pieces.map Prod.snd).flatten ∧
      b'.buffer.length = b.buffer.length := by
  intro pieces
  induction pieces with
  | nil =>
      intro b h _ _
      refine ⟨b, ?_, h, by simp, rfl⟩
      rw [List.map_nil, readLoop, Buffer.readFD, h.beginPtr]
      rfl
  | cons piece pieces ih =>
      intro b h hne hfit
      rw [List.map_cons, List.flatten_cons, List.length_append] at hfit
      obtain ⟨b₁, hb₁, hinv, hread, hsize, hroom⟩ :=
        h.readFD_fits (by omega : piece.2.length ≤ b.writeableSize) piece.1
      obtain ⟨b', hb', hinv', hread', hsize'⟩ := ih hinv
        (fun p hp => hne p (by simp [hp])) (by omega)
      have hpos : 0 < piece.2.length :=
        List.length_pos_iff.mpr (hne piece (by simp))
      refine ⟨b', ?_, hinv', ?_, hsize'.trans hsize⟩
      · rw [List.map_cons, readLoop, hb₁, ok_bind]
        simp only []
        rw [if_neg (by omega), hb']
      · rw [hread', hread, List.map_cons, List.flatten_cons,
          List.append_assoc]

theorem read_pieces {c : HttpConnector} (h : c.Inv) (last : Buffer.Spill)
    (pieces : List (Buffer.Spill × Bytes)) (hne : ∀ p ∈ pieces, p.2 ≠ [])
    (hfit : (pieces.map Prod.snd).flatten.length
      ≤ c.readBuffer.writeableSize) :
    ∃ b, c.read (pieces.map fun p => ⟨p.1, some p.2⟩) ⟨last, none⟩
        = .ok ({ c with readBuffer := b }, -1, false) ∧ b.Inv ∧
      b.readable = c.readBuffer.readable ++ (pieces.map Prod.snd).flatten ∧
      b.buffer.length = c.readBuffer.buffer.length := by
  obtain ⟨b, hb, hinv, hread, hsize⟩ := readLoop_pieces pieces h.read hne hfit
  exact ⟨b, by rw [read, hb]; rfl, hinv, hread, hsize⟩

/-! ## Writing -/

theorem inv_consume {c c' : HttpConnector} {len : Int} (h : c.Inv)
    (hc : c.consume len = .ok c') : c'.Inv := by
  rw [consume] at hc
  split at hc
  · simp only [] at hc
    split at hc
    · cases hc; exact ⟨h.read, h.write.releaseAllBuff⟩
    · cases hc; exact ⟨h.read, h.write⟩
  · obtain ⟨b, hb, hc⟩ := bind_ok_iff.mp hc
    cases hc
    refine ⟨h.read, ?_⟩
    obtain ⟨u, hu, hb⟩ := bind_ok_iff.mp hb
    cases hb
    exact h.write.advance (check_ok_iff.mp hu)

theorem inv_write : ∀ {results : List Int} {c c' : HttpConnector}
    {status status' : Bool} {len : Int}, c.Inv →
    c.write status results = .ok (some (c', len, status')) → c'.Inv := by
  intro results
  induction results with
  | nil => intro c c' status status' len _ hw; cases hw
  | cons first rest ih =>
      intro c c' status status' len h hw
      rw [write] at hw
      split at hw
      · cases hw; exact h
      split at hw
      · cases hw; exact h
      obtain ⟨c₁, h₁, hw⟩ := bind_ok_iff.mp hw
      have hinv := inv_consume h h₁
      split at hw
      · cases hw; exact hinv
      · exact ih hinv hw

/-- How many bytes are left to send. -/
def remaining (c : HttpConnector) : Nat := c.iov₀.len + c.iov₁.len

/-- A connector with something to send: what `_iov[0]` describes is still in
the write buffer, and the sizes are sizes of memory. -/
structure Sending (c : HttpConnector) : Prop where
  inv : c.Inv
  head : c.iov₀.len ≤ c.writeBuffer.readableSize
  small : c.remaining < 2 ^ 63

/-- The rest of the connector is not touched by sending. -/
structure SameRest (c c' : HttpConnector) : Prop where
  readBuffer : c'.readBuffer = c.readBuffer
  request : c'.request = c.request
  reponse : c'.reponse = c.reponse

theorem Sending.short {c : HttpConnector} (h : c.Sending) :
    c.iov₀.len < 2 ^ 63 := by
  have hsmall := h.small
  simp only [remaining] at hsmall
  omega

/-- A write that stops inside the head. -/
theorem consume_head {c : HttpConnector}
    (hhead : c.iov₀.len ≤ c.writeBuffer.readableSize)
    (hshort : c.iov₀.len < 2 ^ 63) {len : Nat} (hle : len ≤ c.iov₀.len) :
    c.consume len = .ok { c with
      iov₀ := ⟨c.iov₀.base + len, c.iov₀.len - len⟩
      writeBuffer :=
        { c.writeBuffer with readp := c.writeBuffer.readp + len } } := by
  have hrest : toSizeT (c.iov₀.len - (len : Int)) = c.iov₀.len - len := by
    rw [toSizeT]; omega
  rw [consume, toSsizeT_of_lt hshort, if_neg (by omega),
    toSizeT_of_lt (by omega)]
  simp only [hrest, Buffer.releaseBuff,
    Buffer.updateReadp_ok (by omega : len ≤ c.writeBuffer.readableSize),
    ok_bind]
  rfl

/-- A write that gets into the file: the head, if any was left, is dropped. -/
theorem consume_past {c : HttpConnector} (h : c.Sending) {len : Nat}
    (hpast : c.iov₀.len < len) (hle : len ≤ c.remaining) :
    c.consume len = .ok { c with
      iov₀ := ⟨c.iov₀.base, 0⟩
      iov₁ := ⟨c.iov₁.base + (len - c.iov₀.len : Int),
        c.iov₁.len - (len - c.iov₀.len)⟩
      writeBuffer := if c.iov₀.len = 0 then c.writeBuffer
        else c.writeBuffer.releaseAllBuff } := by
  have hsmall := h.small
  simp only [remaining] at hle hsmall
  have hfile : toSizeT (c.iov₁.len - ((len : Int) - c.iov₀.len))
      = c.iov₁.len - (len - c.iov₀.len) := by
    rw [toSizeT]; omega
  rw [consume, toSsizeT_of_lt (by omega), if_pos (by omega)]
  simp only [hfile]
  by_cases hzero : c.iov₀.len = 0
  · rw [if_neg (not_not.mpr hzero), if_pos hzero, ← hzero]
  · rw [if_pos hzero, if_neg hzero]

/-- A partial write moves the cursors by what was written. -/
theorem Sending.consume {c : HttpConnector} (h : c.Sending) {len : Nat}
    (hle : len ≤ c.remaining) :
    ∃ c', c.consume len = .ok c' ∧ c'.Sending ∧
      c'.remaining + len = c.remaining ∧ SameRest c c' := by
  have hhead := h.head
  have hsmall := h.small
  by_cases hpast : c.iov₀.len < len
  · rw [consume_past h hpast hle]
    simp only [remaining] at hle hsmall
    refine ⟨_, rfl, ⟨⟨h.inv.read, ?_⟩, Nat.zero_le _, ?_⟩, ?_, rfl, rfl, rfl⟩
    · simp only []
      split
      · exact h.inv.write
      · exact h.inv.write.releaseAllBuff
    · simp only [remaining]; omega
    · simp only [remaining]; omega
  · have hlen : len ≤ c.writeBuffer.readableSize := by omega
    rw [consume_head h.head h.short (by omega)]
    simp only [remaining] at hle hsmall
    refine ⟨_, rfl, ⟨⟨h.inv.read, h.inv.write.advance hlen⟩, ?_, ?_⟩, ?_,
      rfl, rfl, rfl⟩
    · simp only [Buffer.readableSize] at hhead ⊢; omega
    · simp only [remaining]; omega
    · simp only [remaining]; omega

theorem writeableSize_eq_zero {c : HttpConnector} (h : c.remaining = 0) :
    c.writeableSize = 0 := by
  rw [writeableSize, show c.iov₀.len + c.iov₁.len = 0 from h, Nat.zero_mod,
    toInt_of_lt (Nat.two_pow_pos 31)]
  rfl

/-- A complete `Write`, in however many pieces: it does not stop on an
assertion, and it returns. -/
theorem write_all (status : Bool) : ∀ (sent : List Nat) {c : HttpConnector},
    c.Sending → (∀ n ∈ sent, 0 < n) → sent ≠ [] → sent.sum = c.remaining →
    ∃ c' len, c.write status (sent.map Int.ofNat)
        = .ok (some (c', len, status)) ∧ c'.Inv ∧ SameRest c c' := by
  intro sent
  induction sent with
  | nil => intro c _ _ hne _; exact absurd rfl hne
  | cons n sent ih =>
      intro c h hpos _ hsum
      have hn : 0 < n := hpos n (by simp)
      rw [List.sum_cons] at hsum
      obtain ⟨c₁, hc₁, hsending, hrest, hsame⟩ :=
        h.consume (by omega : n ≤ c.remaining)
      have hn' : ¬ Int.ofNat n = 0 := by simp; omega
      rw [List.map_cons, write, if_neg hn']
      by_cases hdone : c.writeableSize = 0
      · rw [if_pos hdone]
        exact ⟨c, _, rfl, h.inv, rfl, rfl, rfl⟩
      rw [if_neg hdone]
      rw [show Int.ofNat n = (n : Int) from rfl, hc₁, ok_bind]
      by_cases hdone₁ : c₁.writeableSize = 0
      · rw [if_pos hdone₁]
        exact ⟨c₁, _, rfl, hsending.inv, hsame⟩
      · rw [if_neg hdone₁]
        have hmore : sent ≠ [] := by
          rintro rfl
          refine hdone₁ (writeableSize_eq_zero ?_)
          rw [List.sum_nil] at hsum
          omega
        obtain ⟨c', len, hw, hinv, hrest'⟩ := ih hsending
          (fun m hm => hpos m (by simp [hm])) hmore (by omega)
        exact ⟨c', len, hw, hinv, hrest'.readBuffer.trans hsame.readBuffer,
          hrest'.request.trans hsame.request,
          hrest'.reponse.trans hsame.reponse⟩

/-! ## `Process` -/

/-- What `Process` makes of a parsed request: the two objects, the head that
is written and the file behind it. -/
structure Answer where
  request : HttpRequest
  reponse : HttpResponse
  head : Bytes
  content : Bytes

def answer (w : World) (reponse : HttpResponse) (request : HttpRequest) :
    Except Fault Answer := do
  let (reponse, request) ← reponse.init w request
  let content ← readFileToSharedCharArray w.fs reponse.path
  pure
    { request, reponse, content
      head := reponse.statueLine ++ crlf ++ reponse.headers ++ crlf }

/-- A connector that has an answer ready to be sent. -/
structure Carries (c : HttpConnector) (a : Answer) : Prop where
  inv : c.Inv
  drained : c.readBuffer.readable = []
  request : c.request = a.request
  reponse : c.reponse = a.reponse
  head : c.iovHead = a.head
  headLen : c.iov₀.len = a.head.length
  headSize : c.iov₀.len = c.writeBuffer.readableSize
  file : c.iovFile = a.content
  fileLen : c.iov₁.len = a.content.length
  block : c.fileBlock = a.content

theorem headWriteBuff_spec {b : Buffer} (h : b.Inv) (reponse : HttpResponse) :
    ∃ b', reponse.headWriteBuff b = .ok b' ∧ b'.Inv ∧ b'.readable =
      reponse.statueLine ++ crlf ++ reponse.headers ++ crlf := by
  obtain ⟨b', hb', hinv, hread⟩ := h.releaseAllBuff.addString_spec
    (reponse.statueLine ++ crlf ++ reponse.headers ++ crlf)
  exact ⟨b', hb', hinv, by
    rw [hread, Buffer.readable_releaseAllBuff, List.nil_append]⟩

theorem process_idle {c : HttpConnector} (w : World)
    (h : c.readBuffer.readableSize = 0) : c.process w = .ok (c, false) :=
  if_pos h

/-- `Process` on a connector with something to read, without its buffers. -/
theorem process_spec {c : HttpConnector} (h : c.Inv) (w : World)
    (hne : c.readBuffer.readable ≠ []) :
    Agree (fun out a => out.2 = true ∧ Carries out.1 a ∧
        out.1.readBuffer.writeableSize = c.readBuffer.buffer.length)
      (c.process w)
      (do
        let r ← c.request.init.readContent w.fs c.readBuffer.readable
        answer w c.reponse r) := by
  have hsize := h.read.length_readable
  have hpos : 0 < c.readBuffer.readable.length :=
    List.length_pos_iff.mpr hne
  rw [process, if_neg (by omega)]
  refine (HttpRequest.readBuff_eq_scan h.read w.fs c.request.init).bind
    fun p r hp => ?_
  obtain ⟨r', rb⟩ := p
  obtain ⟨hr, hrb, hsize'⟩ := hp
  cases hr
  rw [answer]
  simp only []
  cases hi : c.reponse.init w r' with
  | error e => rfl
  | ok out =>
      obtain ⟨reponse, request⟩ := out
      obtain ⟨wb, hwb, hinv, hread⟩ := headWriteBuff_spec h.write reponse
      simp only [ok_bind, hwb, hinv.print, hinv.beginReadPtr]
      cases hf : readFileToSharedCharArray w.fs reponse.path with
      | error e => rfl
      | ok content =>
          have hlen := hinv.length_readable
          refine ⟨rfl, ⟨⟨hrb.releaseAllBuff, hinv⟩,
            Buffer.readable_releaseAllBuff _, rfl, rfl, ?_, ?_, rfl, ?_, rfl,
            rfl⟩, ?_⟩
          · rw [← hread]; rfl
          · rw [← hread]; exact hlen.symm
          · show (content.drop 0).take content.length = content
            rw [List.drop_zero, List.take_length]
          · rw [← hsize']
            exact List.length_replicate

/-- What can be answered is answered. -/
theorem process_ok {c : HttpConnector} (h : c.Inv) {w : World} {a : Answer}
    (hne : c.readBuffer.readable ≠ [])
    (ha : (do
      let r ← c.request.init.readContent w.fs c.readBuffer.readable
      answer w c.reponse r) = .ok a) :
    ∃ c', c.process w = .ok (c', true) ∧ Carries c' a ∧
      c'.readBuffer.writeableSize = c.readBuffer.buffer.length := by
  have hspec := process_spec h w hne
  rw [ha] at hspec
  obtain ⟨⟨c', ready⟩, hp, hready, hcarries, hsize⟩ := hspec.ok_right
  cases hready
  exact ⟨c', hp, hcarries, hsize⟩

theorem inv_process {c c' : HttpConnector} {w : World} {ready : Bool}
    (h : c.Inv) (hp : c.process w = .ok (c', ready)) : c'.Inv := by
  by_cases hne : c.readBuffer.readable = []
  · have hsize := h.read.length_readable
    rw [hne] at hsize
    rw [process_idle w hsize.symm] at hp
    cases hp
    exact h
  · have hspec := process_spec h w hne
    rw [hp] at hspec
    obtain ⟨a, -, -, ha, -⟩ := hspec.ok_left
    exact ha.inv

/-! ## The whole life -/

theorem inv_call {c c' : HttpConnector} {call : ConnectorCall} (h : c.Inv)
    (hc : Call c call c') : c'.Inv := by
  cases hc with
  | init => exact ⟨h.read, h.write⟩
  | read hr =>
      obtain ⟨⟨b, len, status⟩, hb, hr⟩ := bind_ok_iff.mp hr
      cases hr
      exact ⟨inv_readLoop h.read hb, h.write⟩
  | process hp => exact inv_process h hp
  | write hw => exact inv_write h hw
  | close =>
      rw [close]
      split
      · exact ⟨h.read, h.write⟩
      · exact h

theorem inv_history {c : HttpConnector} (hc : history.Reachable c) :
    c.Inv := by
  refine hc.invariant (I := Inv) ?_ fun _ _ _ _ ih h => inv_call ih h
  rintro c ⟨status, code, cgi, tasks, fileStatus, code', rfl⟩
  exact inv_construct _ _

/-! ## What the server relies on -/

/-- The members that tie a connector to its descriptor. -/
structure SameSocket (c c' : HttpConnector) : Prop where
  fd : c'.fd = c.fd
  status : c'.status = c.status

theorem read_sameSocket {c c' : HttpConnector} {arrived : List Recv}
    {last : Recv} {len : Int} {status : Bool}
    (h : c.read arrived last = .ok (c', len, status)) : SameSocket c c' := by
  obtain ⟨⟨b, len', status'⟩, -, h⟩ := bind_ok_iff.mp h
  cases h
  exact ⟨rfl, rfl⟩

theorem readFD_status {b b' : Buffer} {spill : Buffer.Spill}
    {got : Option Bytes} {len : Int} {status : Bool}
    (h : b.readFD spill got = .ok (b', len, status)) :
    status = true ∨ len = -1 := by
  obtain ⟨p, -, h⟩ := bind_ok_iff.mp h
  cases got with
  | none => cases h; exact .inr rfl
  | some s =>
      simp only [] at h
      split at h
      · cases h; exact .inl rfl
      · obtain ⟨b₁, -, h⟩ := bind_ok_iff.mp h
        obtain ⟨b₂, -, h⟩ := bind_ok_iff.mp h
        cases h
        exact .inl rfl

theorem readLoop_status : ∀ {arrived : List Recv} {last : Recv}
    {b b' : Buffer} {len : Int} {status : Bool},
    readLoop b arrived last = .ok (b', len, status) →
    status = true ∨ len = -1 := by
  intro arrived
  induction arrived with
  | nil => intro last b b' len status h; exact readFD_status h
  | cons recv rest ih =>
      intro last b b' len status h
      rw [readLoop] at h
      obtain ⟨⟨b₁, len₁, status₁⟩, h₁, h⟩ := bind_ok_iff.mp h
      simp only [] at h
      split at h
      · cases h; exact readFD_status h₁
      · exact ih h

/-- End of stream is reported with a status of `true`, so that `_FunRead`
never takes it for an error. -/
theorem read_status {c c' : HttpConnector} {arrived : List Recv} {last : Recv}
    {len : Int} {status : Bool}
    (h : c.read arrived last = .ok (c', len, status)) :
    status = true ∨ len = -1 := by
  obtain ⟨⟨b, len', status'⟩, hb, h⟩ := bind_ok_iff.mp h
  cases h
  exact readLoop_status hb

theorem process_sameSocket {c c' : HttpConnector} {w : World} {ready : Bool}
    (h : c.process w = .ok (c', ready)) : SameSocket c c' := by
  rw [process] at h
  split at h
  · cases h; exact ⟨rfl, rfl⟩
  · obtain ⟨⟨request, rb⟩, -, h⟩ := bind_ok_iff.mp h
    obtain ⟨⟨reponse, request'⟩, -, h⟩ := bind_ok_iff.mp h
    obtain ⟨wb, -, h⟩ := bind_ok_iff.mp h
    obtain ⟨u, -, h⟩ := bind_ok_iff.mp h
    obtain ⟨content, -, h⟩ := bind_ok_iff.mp h
    obtain ⟨base, -, h⟩ := bind_ok_iff.mp h
    cases h
    exact ⟨rfl, rfl⟩

theorem consume_sameSocket {c c' : HttpConnector} {len : Int}
    (h : c.consume len = .ok c') : SameSocket c c' := by
  rw [consume] at h
  split at h
  · simp only [] at h
    split at h
    · cases h; exact ⟨rfl, rfl⟩
    · cases h; exact ⟨rfl, rfl⟩
  · obtain ⟨b, -, h⟩ := bind_ok_iff.mp h
    cases h
    exact ⟨rfl, rfl⟩

/-- `Write` returns on a zero, or because nothing is left to send. -/
theorem write_returns : ∀ {results : List Int} {c c' : HttpConnector}
    {status status' : Bool} {len : Int},
    c.write status results = .ok (some (c', len, status')) →
    SameSocket c c' ∧ (0 ∈ results ∨ c'.writeableSize = 0) := by
  intro results
  induction results with
  | nil => intro c c' status status' len h; cases h
  | cons first rest ih =>
      intro c c' status status' len h
      rw [write] at h
      split at h
      · next hzero => cases h; exact ⟨⟨rfl, rfl⟩, .inl (by simp [hzero])⟩
      split at h
      · next hdone => cases h; exact ⟨⟨rfl, rfl⟩, .inr hdone⟩
      obtain ⟨c₁, h₁, h⟩ := bind_ok_iff.mp h
      have hsame := consume_sameSocket h₁
      split at h
      · next hdone => cases h; exact ⟨hsame, .inr hdone⟩
      · obtain ⟨hrest, hret⟩ := ih h
        refine ⟨⟨hrest.fd.trans hsame.fd, hrest.status.trans hsame.status⟩, ?_⟩
        exact hret.imp_left fun hm => List.mem_cons_of_mem _ hm

/-- With nothing to send, `Write` asks `writev` once and returns. -/
theorem write_idle {c c' : HttpConnector} {status status' : Bool}
    {results : List Int} {len : Int} (hdone : c.writeableSize = 0)
    (h : c.write status results = .ok (some (c', len, status'))) : c' = c := by
  cases results with
  | nil => cases h
  | cons first rest =>
      rw [write] at h
      split at h
      · cases h; rfl
      · cases h; rfl

/-! ## Driving a connector by hand -/

@[simp] theorem close_request (c : HttpConnector) :
    c.close.request = c.request := by
  rw [close]
  split
  · rfl
  · rfl

@[simp] theorem close_readBuffer (c : HttpConnector) :
    c.close.readBuffer = c.readBuffer := by
  rw [close]
  split
  · rfl
  · rfl

theorem history_receive {c : HttpConnector} (hc : history.Reachable c)
    {s : Bytes} (hs : s ≠ [])
    (hfit : s.length ≤ c.readBuffer.writeableSize) :
    ∃ b, history.Reachable { c with readBuffer := b } ∧
      b.readable = c.readBuffer.readable ++ s ∧
      b.buffer.length = c.readBuffer.buffer.length := by
  obtain ⟨b, hread, -, hb, hsize⟩ := read_pieces (inv_history hc) zeroSpill
    [(zeroSpill, s)] (by simpa using hs) (by simpa using hfit)
  exact ⟨b, hc.next (.read hread), by simpa using hb, hsize⟩

end HttpConnector

/-! ## A world to run in -/

/-- A file tree in which every path is a readable empty file. -/
def flatTree : FileSystem := fun _ =>
  .ok ⟨.regular [] true, false, false, false⟩

/-- That tree, a stopped clock, a data base that is never reached, and headers
in the order they were stored. -/
def flatWorld : World where
  fs := flatTree
  clock := lit "Thu, 01 Jan 1970 00:00:00 GMT"
  db := ⟨false, false, false, false, false, false, false, 0, none⟩
  iter := ⟨id, fun _ => .refl _⟩

def blankConnector : HttpConnector :=
  .construct (.construct .requestLine .noRequest false false)
    (.construct false .noRequest)

theorem blankConnector_reachable :
    HttpConnector.history.Reachable blankConnector :=
  .start ⟨_, _, _, _, _, _, rfl⟩

/-- A connector that has just been constructed and has received `s`. -/
theorem blank_receives {s : Bytes} (hs : s ≠ [])
    (hfit : s.length ≤ Buffer.defaultSize) :
    ∃ b, HttpConnector.history.Reachable
        { blankConnector with readBuffer := b } ∧ b.readable = s := by
  have hroom : blankConnector.readBuffer.writeableSize
      = Buffer.defaultSize := Buffer.writeableSize_construct _
  obtain ⟨b, hc, hb, -⟩ := HttpConnector.history_receive
    blankConnector_reachable hs (by rw [hroom]; exact hfit)
  exact ⟨b, hc, hb⟩

def plainGet : Bytes := lit "GET /a.html HTTP/1.1\r\nHost: b\r\n\r\n"

/-- What `plainGet` says. -/
def plainMessage : Message :=
  ⟨lit "GET", lit "/a.html", lit "1.1", [(lit "Host", lit "b")], none,
    .finished⟩

theorem scan_plainGet : scan plainGet = .ok (some plainMessage) := by
  decide +kernel

/-- A page asked for on a connector that has just been constructed. -/
theorem blank_answers : ∃ c c', HttpConnector.history.Reachable c ∧
    c.readBuffer.readable = plainGet ∧
    c.process flatWorld = .ok (c', true) := by
  obtain ⟨b, hc, hread⟩ := blank_receives (s := plainGet)
    (by decide +kernel) (by decide +kernel)
  obtain ⟨a, ha⟩ := exists_of_isOk (x := do
      let r ← blankConnector.request.init.readContent flatTree plainGet
      HttpConnector.answer flatWorld blankConnector.reponse r)
    (by decide +kernel)
  obtain ⟨c', hp, -, -⟩ := HttpConnector.process_ok
    (HttpConnector.inv_history hc) (w := flatWorld) (a := a)
    (by rw [hread]; decide +kernel) (by rw [hread]; exact ha)
  exact ⟨_, c', hc, hread, hp⟩

end TinyWebServer
