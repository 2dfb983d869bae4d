import TinyWebServer.Proofs.Abort
import TinyWebServer.Proofs.Capacity
import TinyWebServer.Proofs.FileAgreement

/-!
# What stops the server

A failing assertion, an exception or an access past the end of an array ends
the process, whichever thread it happens in. `Stops` is that outcome of a step,
and `stops_only_by` goes through all the steps from every state the server gets
to: one descriptor number stops the main loop, and a worker is stopped by a
`readv` that delivers more than an array holds, by a text the parser does not
get through, by a file that is not there, and by a `writev` that fails with
bytes left to send. None of the other assertions ever fails.

That is about the source's own code. What the library it calls does when it
runs out of something is not part of the model: memory, or the stack of
`std::regex` on a line of some ten thousand bytes.
-/

namespace TinyWebServer

open Lib

/-! ## The parser -/

theorem advance_error {s : Bytes} {len : Nat} {f : Fault}
    (h : advance s len = .error f) : f = .assertFailed .updateReadp := by
  rcases bind_error_iff.mp h with hcheck | ⟨u, -, hpure⟩
  · exact (check_error_iff.mp hcheck).2
  · cases hpure

namespace HttpRequest

theorem scanFields_error : ∀ (n : Nat) {s : Bytes} {f : Fault},
    s.length < n → scanFields n s = .error f →
    f = .assertFailed .updateReadp := by
  intro n
  induction n with
  | zero => intro s f hn; omega
  | succ n ih =>
      intro s f hn h
      rw [scanFields] at h
      split at h
      · cases h
      rcases bind_error_iff.mp h with hcut | ⟨⟨line, rest⟩, hcut, h⟩
      · exact cutLine_error hcut
      have hlen := cutLine_length hcut
      simp only [] at h
      split at h
      · rcases bind_error_iff.mp h with hskip | ⟨u, -, hpure⟩
        · exact advance_error hskip
        · cases hpure
      · split at h
        · rcases bind_error_iff.mp h with hmore | ⟨out, -, hpure⟩
          · exact ih (by omega) hmore
          · cases hpure
        · cases h

theorem handlePostBody_error {r : HttpRequest} {f : Fault}
    (h : r.handlePostBody = .error f) : f = .outOfBounds := by
  have havoids := (handlePostBody_avoids (F := (· ≠ .outOfBounds)) r).mpr
    fun _ _ hne => absurd rfl hne
  rw [h] at havoids
  exact not_not.mp havoids

/-- The parser is stopped by a cursor moved past the end, or by a form. -/
theorem digest_error {r : HttpRequest} {s : Bytes} {f : Fault} (hs : s ≠ [])
    (h : r.digest s = .error f) :
    f = .assertFailed .updateReadp ∨ f = .outOfBounds := by
  rcases bind_error_iff.mp h with hscan | ⟨m, -, h⟩
  · left
    rw [scan, check_pos hs, ok_bind] at hscan
    rcases bind_error_iff.mp hscan with hcut | ⟨⟨line, rest⟩, hcut, hscan⟩
    · exact cutLine_error hcut
    have hlen := cutLine_length hcut
    simp only [] at hscan
    split at hscan
    · cases hscan
    · rcases bind_error_iff.mp hscan with hfields | ⟨out, -, hpure⟩
      · exact scanFields_error _ (by omega) hfields
      · cases hpure
  · right
    cases m with
    | none => cases h
    | some m =>
        rcases bind_error_iff.mp h with habsorb | ⟨r', -, hpure⟩
        · rw [absorb] at habsorb
          cases hbody : m.body with
          | none => rw [hbody, absorbFields.eq_def] at habsorb; cases habsorb
          | some bytes =>
              rw [hbody, absorbFields.eq_def] at habsorb
              exact handlePostBody_error habsorb
        · cases hpure

/-- It gets through the texts that are complete, and no others. -/
theorem digest_ok_iff {r : HttpRequest} {s : Bytes} (hs : s ≠ []) :
    (∃ out, r.digest s = .ok out) ↔ Complete FormReadable r.headers s := by
  rw [← avoids_all_iff, digest_avoids trivial hs]
  refine complete_congr fun method headers bytes => ?_
  exact ⟨fun h hm hc => h hm hc trivial, fun h hm hc _ => h hm hc⟩

end HttpRequest

namespace HttpConnector

/-! ## The connector -/

theorem fetch_error {fs : FileSystem} {path : Bytes} {f : Fault}
    (h : fetch fs path = .error f) :
    f = .filesystemError ∨ ∃ what, f = .runtimeError what := by
  rcases bind_error_iff.mp h with hsize | ⟨n, -, hread⟩
  · rw [HttpResponse.fileSize] at hsize
    split at hsize
    · cases hsize; exact .inr ⟨_, rfl⟩
    · cases hsize; exact .inl rfl
    · split at hsize
      · cases hsize
      · cases hsize; exact .inr ⟨_, rfl⟩
      · cases hsize; exact .inr ⟨_, rfl⟩
  · rw [readFileToSharedCharArray] at hread
    split at hread
    · cases hread
    · cases hread; exact .inr ⟨_, rfl⟩

/-- There is a file that is answered to `s`, and it cannot be read. -/
def NoFile (w : World) (q : HttpRequest) (s : Bytes) : Prop :=
  ∃ r, q.init.readContent w.fs s = .ok r ∧
    ¬ ReadableFile w.fs (HttpResponse.opened w.db r)

/-- A text the parser gets through is only stopped by a file. -/
theorem respond_error {w : World} {q : HttpRequest} {p : HttpResponse}
    {s : Bytes} {f : Fault} (hs : s ≠ [])
    (h : respond w q p s = .error f) :
    ((f = .assertFailed .updateReadp ∨ f = .outOfBounds) ∧
      ¬ HttpRequest.Complete HttpRequest.FormReadable q.headers s) ∨
    ((f = .filesystemError ∨ ∃ what, f = .runtimeError what) ∧
      NoFile w q s) := by
  have hcomplete := HttpRequest.digest_ok_iff (r := q.init) hs
  rcases bind_error_iff.mp h with hread | ⟨r, hread, h⟩
  · left
    rcases bind_error_iff.mp hread with hdigest | ⟨⟨fell, r⟩, -, hpath⟩
    · refine ⟨HttpRequest.digest_error hs hdigest, fun hc => ?_⟩
      obtain ⟨out, hok⟩ := hcomplete.mpr hc
      rw [hdigest] at hok
      cases hok
    · cases fell
      · cases hpath
      · cases hpath
  · right
    have hnone : ¬ ReadableFile w.fs (HttpResponse.opened w.db r) := by
      intro hfile
      obtain ⟨inode, content, hstat, hkind⟩ := hfile
      have hanswer : answer w p r = .ok _ :=
        answer_ok_iff.mpr ⟨inode, content, hstat, hkind, rfl⟩
      rw [hanswer] at h
      cases h
    refine ⟨?_, r, hread, hnone⟩
    rw [answer_eq] at h
    rcases bind_error_iff.mp h with hfetch | ⟨content, -, hpure⟩
    · exact fetch_error hfetch
    · cases hpure

theorem process_error {c : HttpConnector} (h : c.Inv) {w : World} {f : Fault}
    (hp : c.process w = .error f) : c.readBuffer.readable ≠ [] ∧
      respond w c.request c.reponse c.readBuffer.readable = .error f := by
  have hne : c.readBuffer.readable ≠ [] := by
    intro hnone
    have hsize := h.read.length_readable
    rw [hnone] at hsize
    rw [process_idle w hsize.symm] at hp
    cases hp
  refine ⟨hne, ?_⟩
  have hspec := process_spec h w hne
  rw [hp] at hspec
  cases hr : respond w c.request c.reponse c.readBuffer.readable with
  | ok a => rw [respond] at hr; rw [hr] at hspec; exact hspec.elim
  | error e =>
      rw [respond] at hr
      rw [hr] at hspec
      exact congrArg Except.error (Eq.symm hspec)

theorem add_error {b : Buffer} (h : b.Inv) {str : Bytes} {len : Nat}
    {f : Fault} (hadd : b.add (some str) len = .error f) :
    f = .outOfBounds := by
  obtain ⟨b₁, hguard, hinv, -, -⟩ := h.lengthGuard_spec len
  simp only [Buffer.add, hguard, hinv.beginWritePtr, Option.isSome_some,
    check_pos, ok_bind, Option.getD_some] at hadd
  split at hadd
  · cases hadd
  · cases hadd
    rfl

theorem readFD_error {b : Buffer} (h : b.Inv) {recv : Recv} {f : Fault}
    (hr : b.readFD recv.spill recv.got = .error f) :
    f = .outOfBounds ∧ Buffer.spillSize < recv.bytes.length := by
  cases hgot : recv.got with
  | none =>
      rw [hgot, h.readFD_failed] at hr
      cases hr
  | some s =>
      rw [hgot] at hr
      have hlong : b.writeableSize + Buffer.spillSize < s.length := by
        by_contra hle
        obtain ⟨out, hout⟩ :=
          (h.readFD_returns recv.spill s).mpr (Nat.not_lt.mp hle)
        rw [hout] at hr
        cases hr
      obtain ⟨full, hfull, -, -, buff1, buff2, -, -, heq⟩ :=
        h.readFD_over recv.spill (by omega : b.writeableSize < s.length)
      rw [heq] at hr
      refine ⟨?_, ?_⟩
      · rcases bind_error_iff.mp hr with hadd | ⟨b₁, hb₁, hr⟩
        · exact add_error hfull hadd
        rcases bind_error_iff.mp hr with hadd | ⟨b₂, -, hpure⟩
        · exact add_error (hfull.add_ok hb₁).1 hadd
        · cases hpure
      · rw [Recv.bytes, hgot, Option.getD_some]
        omega

/-- A `Read` is stopped by a call that delivers more than an array holds. -/
theorem readLoop_error : ∀ {arrived : List Recv} {last : Recv} {b : Buffer}
    {f : Fault}, b.Inv → readLoop b arrived last = .error f →
    f = .outOfBounds ∧
      ∃ recv ∈ arrived ++ [last], Buffer.spillSize < recv.bytes.length := by
  intro arrived
  induction arrived with
  | nil =>
      intro last b f h hr
      obtain ⟨hf, hlong⟩ := readFD_error h hr
      exact ⟨hf, last, List.mem_singleton_self last, hlong⟩
  | cons recv rest ih =>
      intro last b f h hr
      rw [readLoop] at hr
      rcases bind_error_iff.mp hr with hfirst | ⟨⟨b₁, len, status⟩, h₁, hr⟩
      · obtain ⟨hf, hlong⟩ := readFD_error h hfirst
        exact ⟨hf, recv, List.mem_cons_self, hlong⟩
      · simp only [] at hr
        split at hr
        · cases hr
        · obtain ⟨hf, r, hmem, hlong⟩ := ih (h.readFD h₁) hr
          exact ⟨hf, r, List.mem_cons_of_mem _ hmem, hlong⟩

theorem read_error {c : HttpConnector} (h : c.Inv) {arrived : List Recv}
    {last : Recv} {f : Fault} (hr : c.read arrived last = .error f) :
    f = .outOfBounds ∧
      ∃ recv ∈ arrived ++ [last], Buffer.spillSize < recv.bytes.length := by
  rcases bind_error_iff.mp hr with hloop | ⟨out, -, hpure⟩
  · exact readLoop_error h.read hloop
  · cases hpure

/-! ## What is left to send is there -/

/-- The first cursor describes what the write buffer holds, if anything is left
to send. -/
def HeadHeld (c : HttpConnector) : Prop :=
  c.remaining = 0 ∨ c.iov₀.len = c.writeBuffer.readableSize

theorem headHeld_consume {c c' : HttpConnector} {len : Int} (h : c.Inv)
    (hvector : c.writeBuffer.buffer.length < 2 ^ 63)
    (hheld : c.iov₀.len = c.writeBuffer.readableSize)
    (hc : c.consume len = .ok c') :
    c'.iov₀.len = c'.writeBuffer.readableSize := by
  have hle := h.write.held_le
  rw [consume, toSsizeT_of_lt (by omega)] at hc
  split at hc
  · simp only [] at hc
    split at hc
    · cases hc
      rfl
    · cases hc
      exact hheld
  · obtain ⟨b, hb, hc⟩ := bind_ok_iff.mp hc
    cases hc
    obtain ⟨u, hu, hb⟩ := bind_ok_iff.mp hb
    cases hb
    have hroom : toSizeT len ≤ c.writeBuffer.readableSize :=
      check_ok_iff.mp hu
    have hrest : toSizeT (c.iov₀.len - len) = c.iov₀.len - toSizeT len := by
      rw [← hheld] at hroom hle
      rw [toSizeT] at hroom
      rw [toSizeT, toSizeT]
      omega
    show toSizeT (c.iov₀.len - len)
      = c.writeBuffer.writep - (c.writeBuffer.readp + toSizeT len)
    rw [hrest, hheld, Buffer.readableSize, Nat.sub_sub]

/-- Only a negative result is too much for what the write buffer holds. -/
theorem consume_error {c : HttpConnector} {len : Int} {f : Fault} (h : c.Inv)
    (hvector : c.writeBuffer.buffer.length < 2 ^ 63)
    (hheld : c.iov₀.len = c.writeBuffer.readableSize)
    (hc : c.consume len = .error f) :
    f = .assertFailed .updateReadp ∧ len < 0 := by
  have hle := h.write.held_le
  rw [consume, toSsizeT_of_lt (by omega)] at hc
  split at hc
  · simp only [] at hc
    split at hc
    · cases hc
    · cases hc
  next hhead =>
  rcases bind_error_iff.mp hc with hrelease | ⟨b, -, hpure⟩
  · rcases bind_error_iff.mp hrelease with hcheck | ⟨u, -, hpure⟩
    · obtain ⟨hover, hf⟩ := check_error_iff.mp hcheck
      replace hover : c.writeBuffer.readableSize < toSizeT len :=
        Nat.not_le.mp hover
      refine ⟨hf, ?_⟩
      rw [toSizeT] at hover
      omega
    · cases hpure
  · cases hpure

/-- With bytes left to send there is a head in step with the write buffer. -/
theorem HeadHeld.inStep {c : HttpConnector} (h : c.HeadHeld)
    (hgoing : c.writeableSize ≠ 0) :
    c.remaining ≠ 0 ∧ c.iov₀.len = c.writeBuffer.readableSize := by
  have hsome : c.remaining ≠ 0 := fun hnone =>
    hgoing (writeableSize_eq_zero hnone)
  exact ⟨hsome, h.resolve_left hsome⟩

theorem headHeld_write : ∀ {results : List Int} {c c' : HttpConnector}
    {status status' : Bool} {len : Int}, c.Inv →
    c.writeBuffer.buffer.length < 2 ^ 63 → c.HeadHeld →
    c.write status results = .ok (some (c', len, status')) → c'.HeadHeld := by
  intro results
  induction results with
  | nil => intro c c' status status' len _ _ _ hw; cases hw
  | cons first rest ih =>
      intro c c' status status' len h hvector hheld hw
      rw [write] at hw
      split at hw
      · cases hw; exact hheld
      split at hw
      · cases hw; exact hheld
      next hgoing =>
      obtain ⟨c₁, h₁, hw⟩ := bind_ok_iff.mp hw
      have hheld₁ : c₁.HeadHeld :=
        .inr (headHeld_consume h hvector (hheld.inStep hgoing).2 h₁)
      split at hw
      · cases hw; exact hheld₁
      · exact ih (inv_consume h h₁) ((consume_length h₁).2 ▸ hvector) hheld₁ hw

/-- A vector never gets shorter, so it was never too long before. -/
theorem headHeld_history {c : HttpConnector} (hc : history.Reachable c)
    (hvector : c.writeBuffer.buffer.length < 2 ^ 63) : c.HeadHeld := by
  refine hc.invariant (I := fun c =>
    c.writeBuffer.buffer.length < 2 ^ 63 → c.HeadHeld) ?_ ?_ hvector
  · intro c hfresh _
    obtain ⟨status, code, cgi, tasks, fileStatus, code', rfl⟩ := hfresh
    exact .inl rfl
  intro c call c' hprev ih h hvector
  have hinv := inv_history hprev
  have hcosts := h.costs hinv (front_history hprev)
  have hbefore : c.writeBuffer.buffer.length < 2 ^ 63 := by
    have hgrown := hcosts.write
    omega
  cases h with
  | init => exact ih hbefore
  | read hr =>
      obtain ⟨p, -, hr⟩ := bind_ok_iff.mp hr
      cases hr
      exact ih hbefore
  | @process c' w ready hp =>
      cases ready with
      | false => exact process_false hp ▸ ih hbefore
      | true => exact .inr (congrArg Iovec.len (process_primed hinv hp).head)
  | write hw => exact headHeld_write hinv hbefore (ih hbefore) hw
  | close =>
      rw [close]
      split
      · exact .inl rfl
      · exact ih hbefore

/-- One of the calls answers below zero, with bytes left to send. -/
def FailsAmid (c : HttpConnector) (results : List Int) : Prop :=
  ∃ sent len rest c₀, results = sent ++ len :: rest ∧
    sent.foldlM consume c = .ok c₀ ∧ c₀.remaining ≠ 0 ∧ len < 0

/-- A `Write` is stopped by such a call. -/
theorem write_error : ∀ {results : List Int} {c : HttpConnector}
    {status : Bool} {f : Fault}, c.Inv →
    c.writeBuffer.buffer.length < 2 ^ 63 → c.HeadHeld →
    c.write status results = .error f →
    f = .assertFailed .updateReadp ∧ c.FailsAmid results := by
  intro results
  induction results with
  | nil => intro c status f _ _ _ h; cases h
  | cons first rest ih =>
      intro c status f h hvector hheld hw
      rw [write] at hw
      split at hw
      · cases hw
      split at hw
      · cases hw
      next hgoing =>
      obtain ⟨hsome, hstep⟩ := hheld.inStep hgoing
      rcases bind_error_iff.mp hw with hconsume | ⟨c₁, h₁, hw⟩
      · obtain ⟨hf, hneg⟩ := consume_error h hvector hstep hconsume
        exact ⟨hf, [], first, rest, c, rfl, rfl, hsome, hneg⟩
      · split at hw
        · cases hw
        obtain ⟨hf, sent, len, more, c₀, rfl, hfold, hleft⟩ :=
          ih (inv_consume h h₁) ((consume_length h₁).2 ▸ hvector)
            (.inr (headHeld_consume h hvector hstep h₁)) hw
        refine ⟨hf, first :: sent, len, more, c₀, rfl, ?_, hleft⟩
        rw [foldlM_consume_cons h₁, hfold]

end HttpConnector

namespace Server

open HttpConnector

variable {Thread : Type}

/-! ## The server -/

/-- The step fails instead of ending: a call of the main loop or of a worker
does not return. -/
inductive Stops (s : Server Thread) : ServerLabel Thread → Fault → Prop where
  | dispatch {e : Event} {batch : List Event} {f : Fault} :
      s.main = .dispatching (e :: batch) → s.dispatch e batch = .error f →
      Stops s .dispatch f
  | addConnection {fresh : HttpConnector} {fd : Int} {batch : List Event}
      {f : Fault} : s.main = .accepted fd batch → fresh.Fresh →
      s.addConnection fresh fd batch = .error f →
      Stops s (.addConnection fresh) f
  | addFd {ok : Bool} {fd : Int} {batch : List Event} {f : Fault} :
      s.main = .adding fd batch → s.addFd ok fd batch = .error f →
      Stops s (.addFd ok) f
  | read {t : Thread} {fd : Int} {c : HttpConnector} {arrived : List Recv}
      {last : Recv} {f : Fault} : s.workers t = .running .read fd →
      s.clients fd = some c → c.read arrived last = .error f →
      Stops s (.read t arrived last) f
  | process {t : Thread} {fd : Int} {c : HttpConnector} {w : World}
      {f : Fault} : s.workers t = .processing fd → s.clients fd = some c →
      c.process w = .error f → Stops s (.process t w) f
  | write {t : Thread} {fd : Int} {c : HttpConnector} {results : List Int}
      {wouldBlock : Bool} {f : Fault} : s.workers t = .running .write fd →
      s.clients fd = some c → c.write true results = .error f →
      Stops s (.write t results wouldBlock) f

/-- What stops the server, thread by thread. -/
inductive Cause (s : Server Thread) : ServerLabel Thread → Fault → Prop where
  /-- The new client's descriptor is `0`. -/
  | descriptor {ok : Bool} {batch : List Event} : s.main = .adding 0 batch →
      Cause s (.addFd ok) (.assertFailed .setNoBlock)
  /-- A `readv` delivered more than an array holds. -/
  | overhang {t : Thread} {fd : Int} {arrived : List Recv} {last recv : Recv} :
      s.workers t = .running .read fd → recv ∈ arrived ++ [last] →
      Buffer.spillSize < recv.bytes.length →
      Cause s (.read t arrived last) .outOfBounds
  /-- The parser does not get through what was received. -/
  | text {t : Thread} {fd : Int} {c : HttpConnector} {w : World} {f : Fault} :
      s.workers t = .processing fd → s.clients fd = some c →
      ¬ HttpRequest.Complete HttpRequest.FormReadable c.request.headers
        c.readBuffer.readable →
      f = .assertFailed .updateReadp ∨ f = .outOfBounds →
      Cause s (.process t w) f
  /-- It does, and the file to answer with cannot be read. -/
  | file {t : Thread} {fd : Int} {c : HttpConnector} {w : World} {f : Fault} :
      s.workers t = .processing fd → s.clients fd = some c →
      NoFile w c.request c.readBuffer.readable →
      f = .filesystemError ∨ (∃ what, f = .runtimeError what) →
      Cause s (.process t w) f
  /-- A `writev` failed with bytes left to send. -/
  | failure {t : Thread} {fd : Int} {c : HttpConnector} {results : List Int}
      {wouldBlock : Bool} : s.workers t = .running .write fd →
      s.clients fd = some c → c.FailsAmid results →
      Cause s (.write t results wouldBlock) (.assertFailed .updateReadp)

/-- No write buffer is longer than a `std::vector` can be. -/
def Allocated (s : Server Thread) : Prop :=
  ∀ fd c, s.clients fd = some c → c.writeBuffer.buffer.length < 2 ^ 63

variable [DecidableEq Thread]

/-- `accept` answers no negative number but `-1`. -/
theorem numbered {s : Server Thread} (hs : system.Reachable s) :
    ∀ fd batch, s.main = .accepted fd batch ∨ s.main = .adding fd batch →
      0 ≤ fd := by
  refine hs.invariant (I := fun s : Server Thread => ∀ fd batch,
    s.main = .accepted fd batch ∨ s.main = .adding fd batch → 0 ≤ fd) ?_ ?_
  · intro s hinit fd batch h
    rw [hinit.2.2.2.2.1] at h
    simp at h
  intro s a s' _ ih h
  cases h with
  | read | process | write | modFd | take | finish => exact ih
  | wait | turn | acceptEnd | logged => simp
  | dispatch _ hd =>
      obtain ⟨-, rfl⟩ | ⟨-, rfl | ⟨kind, rfl⟩ | ⟨-, rfl⟩⟩ := dispatch_cases hd
      · simp
      · simp
      · simp
      · simp
  | accept _ hpos _ _ =>
      intro fd batch h
      simp only [reduceCtorEq, or_false, MainLoop.accepted.injEq] at h
      exact h.1 ▸ hpos
  | @addConnection _ _ fd₀ batch₀ hm _ ha =>
      obtain ⟨-, rfl⟩ | ⟨-, rfl⟩ := addConnection_cases ha
      · simp
      · intro fd batch h
        simp only [reduceCtorEq, false_or, MainLoop.adding.injEq] at h
        exact ih fd batch₀ (.inl (h.1 ▸ hm))
  | addFd _ _ ha =>
      obtain ⟨u, -, ha⟩ := bind_ok_iff.mp ha
      cases ha
      simp
  | @close _ stage _ _ _ _ =>
      cases stage <;> simp [CloseStage.next]
  | closeBy _ hcl =>
      intro fd batch h
      rw [show (setWorker _ _ _).main = s.main from
        (closeConnection_loop hcl).1] at h
      exact ih fd batch h

omit [DecidableEq Thread] in
/-- The loop over the events goes on if the connectors are there. -/
theorem dispatch_returns {s : Server Thread} {e : Event} (batch : List Event)
    (hfound : e.fd ≠ s.listenFd → (s.clients e.fd).isSome = true) :
    ∃ s', s.dispatch e batch = .ok s' := by
  rw [dispatch]
  split
  · exact ⟨_, rfl⟩
  next hl =>
  rw [check_pos (hfound hl)]
  split
  · exact ⟨_, rfl⟩
  split
  · exact ⟨_, rfl⟩
  split
  · exact ⟨_, rfl⟩
  · exact ⟨_, rfl⟩

variable [Fintype Thread]

omit [DecidableEq Thread] in
/-- The connector a reported event is about is there. -/
theorem Inv.dispatch_found {s : Server Thread} (hi : s.Inv) {e : Event}
    {batch : List Event} (hm : s.main = .dispatching (e :: batch))
    (hl : e.fd ≠ s.listenFd) : (s.clients e.fd).isSome = true := by
  have hmem : e.fd ∈ clientFds s.listenFd s.main.batch := by
    rw [hm, MainLoop.batch, clientFds_cons hl]
    exact List.mem_cons_self
  have hcount := List.count_pos_iff.mpr hmem
  obtain ⟨c, hc, -⟩ := hi.connected e.fd
    (by rw [situations, handling]; omega) (by simp [hm])
  rw [hc]
  rfl

/-- In every run, these are the only ways in which the server stops. -/
theorem stops_only_by {s : Server Thread} (hs : system.Reachable s)
    (hvectors : s.Allocated) {a : ServerLabel Thread} {f : Fault}
    (h : s.Stops a f) : s.Cause a f := by
  have hi := inv_reachable hs
  have hinv : ∀ {fd c}, s.clients fd = some c → c.Inv := fun hc =>
    inv_history (clients_reachable hs _ _ hc)
  cases h with
  | dispatch hm hd =>
      obtain ⟨s', hok⟩ := dispatch_returns _ (hi.dispatch_found hm)
      rw [hok] at hd
      cases hd
  | addConnection hm _ ha =>
      exfalso
      rw [addConnection] at ha
      split at ha
      · cases ha
      · rw [check_pos (numbered hs _ _ (.inl hm)), ok_bind] at ha
        cases ha
  | @addFd ok fd batch f hm ha =>
      rcases bind_error_iff.mp ha with hcheck | ⟨u, -, hpure⟩
      · obtain ⟨hle, rfl⟩ := check_error_iff.mp hcheck
        have hpos := numbered hs _ _ (.inr hm)
        have hzero : fd = 0 := by omega
        exact .descriptor (hzero ▸ hm)
      · cases hpure
  | read ht hc hr =>
      obtain ⟨rfl, recv, hmem, hlong⟩ := read_error (hinv hc) hr
      exact .overhang ht hmem hlong
  | process ht hc hp =>
      obtain ⟨hne, hr⟩ := process_error (hinv hc) hp
      rcases respond_error hne hr with ⟨hf, hno⟩ | ⟨hf, hyes⟩
      · exact .text ht hc hno hf
      · exact .file ht hc hyes hf
  | write ht hc hw =>
      have hvector := hvectors _ _ hc
      have hheld := headHeld_history (clients_reachable hs _ _ hc) hvector
      obtain ⟨rfl, hfails⟩ := write_error (hinv hc) hvector hheld hw
      exact .failure ht hc hfails

/-- `accept` may answer `0` when the process was started with its standard
input closed. -/
theorem stops_only_by_zero : ∃ s : Server Bool,
    s.Stops (.addFd true) (.assertFailed .setNoBlock) ∧
      s.Cause (.addFd true) (.assertFailed .setNoBlock) := by
  let accepted : Server Bool := { crowd 0 with
    opened := Function.update (crowd 0).opened 0 true
    main := .accepted 0 [] }
  let added : Server Bool := { accepted.setClient 0 (blankConnector.init 0) with
    userCnt := (0 + 1) % 2 ^ 16
    main := .adding 0 [] }
  have haccept : Step (crowd 0) (.accept (.connected 0)) accepted :=
    .accept rfl (Int.le_refl 0) (by decide) rfl
  have hadd : Step accepted (.addConnection blankConnector) added :=
    .addConnection rfl ⟨_, _, _, _, _, _, rfl⟩ rfl
  have hstop : added.Stops (.addFd true) (.assertFailed .setNoBlock) :=
    .addFd rfl rfl
  have hvectors : added.Allocated := by
    intro fd c hc
    replace hc : Function.update (crowd 0).clients 0
        (some (blankConnector.init 0)) fd = some c := hc
    rw [Function.update_apply] at hc
    split at hc
    · cases hc
      decide +kernel
    · cases (crowd_init.1 fd).symm.trans hc
  exact ⟨added, hstop, stops_only_by
    ((crowd_start.of_restrict.next haccept).next hadd) hvectors hstop⟩

end Server

end TinyWebServer
