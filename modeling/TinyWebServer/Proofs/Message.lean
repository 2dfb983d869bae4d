import TinyWebServer.Model.HttpRequest
import TinyWebServer.Proofs.BufferQueue

/-!
# What the parser reads is a message, and what it does with it

`Read_Buff` walks a buffer and writes into a request that may hold anything
from before. The two halves come apart. `scan` looks at the readable bytes
alone and answers what they say: nothing (a bad request line), or a `Message`
of a request line, header fields in order and perhaps a body. `absorb` takes a
message into a request, and is the only place the request's past comes in.

`parseBuff_eq_scan` is the connection: the loop over the buffer is `scan` of
its readable bytes followed by `absorb`, failure for failure. It goes in two
steps. The loop on the buffer and the same loop on its readable bytes run in
lockstep, the offsets being bookkeeping; and the loop on bytes unrolls into
the scan, by induction on its fuel.
-/

namespace TinyWebServer

open Lib

/-- What the bytes of a request say. `part` is the part the parser was in when
it stopped. -/
structure Message where
  method : Bytes
  target : Bytes
  version : Bytes
  fields : List (Bytes × Bytes)
  body : Option Bytes
  part : HttpPart
  deriving DecidableEq, Repr

/-- `Update_Readp` on the readable bytes. -/
def advance (s : Bytes) (len : Nat) : Except Fault Bytes := do
  check (len ≤ s.length) .updateReadp
  pure (s.drop len)

/-- The first line and what follows its CRLF. -/
def cutLine (s : Bytes) : Except Fault (Bytes × Bytes) := do
  let line := s.take (search crlf s)
  let rest ← advance s (line.length + 2)
  pure (line, rest)

/-- The header section from some line on, and the body. The empty-body
shortcut is the case of two bytes or fewer behind a line: two are skipped, and
fewer fail the assertion of the skip. -/
def scanFields : Nat → Bytes →
    Except Fault (List (Bytes × Bytes) × Option Bytes × HttpPart)
  | 0, _ => .error .diverged
  | n + 1, s =>
      if s = [] then
        .ok ([], none, .headers)
      else do
        let (line, rest) ← cutLine s
        let fields := (HttpRequest.matchHeaderLine line).toList
        if rest.length ≤ 2 then do
          let _ ← advance rest 2
          pure (fields, none, .finished)
        else
          match HttpRequest.matchHeaderLine line with
          | some _ => do
              let (more, body, part) ← scanFields n rest
              pure (fields ++ more, body, part)
          | none => pure (fields, some rest, .finished)

/-- What a buffer's readable bytes say; `none` is a bad request line. -/
def scan (s : Bytes) : Except Fault (Option Message) := do
  check (s ≠ []) .readBuff
  let (line, rest) ← cutLine s
  match HttpRequest.matchRequestLine line with
  | none => pure none
  | some (method, target, version) => do
      let (fields, body, part) ← scanFields s.length rest
      pure (some { method, target, version, fields, body, part })

namespace HttpRequest

/-- The header fields and the body of a message, taken into a request. -/
def absorbFields (r : HttpRequest) (fields : List (Bytes × Bytes))
    (body : Option Bytes) (part : HttpPart) : Except Fault HttpRequest :=
  let r := { r with headers := r.headers.insertAll fields, status := part }
  match body with
  | none => .ok r
  | some bytes => handlePostBody { r with body := bytes }

/-- A message taken into a request. -/
def absorb (r : HttpRequest) (m : Message) : Except Fault HttpRequest :=
  absorbFields
    { r with
      code := .fileRequest, method := m.method, path := m.target
      version := m.version }
    m.fields m.body m.part

/-- A bad request line taken into a request: nothing of it is kept. -/
def reject (r : HttpRequest) : HttpRequest :=
  { r with status := .requestLine, code := .badRequest }

/-- `nextLine` on the readable bytes. -/
def contentLine (part : HttpPart) (s : Bytes) :
    Except Fault (Bytes × Bytes) :=
  if part ≠ .body then cutLine s else pure (s, [])

/-- `readLine` on the readable bytes. -/
def contentRead (r : HttpRequest) (line s : Bytes) :
    Except Fault ((HttpRequest × Bytes) ⊕ (Bool × HttpRequest)) :=
  match r.status with
  | .requestLine => do
      let (ok, r) ← r.readRequestLine line
      if ok then pure (.inl (r, s))
      else pure (.inr (false, { r with code := .badRequest }))
  | .headers => do
      let (ok, r) ← r.readHeaderLine line
      if ok then
        if s.length ≤ 2 then do
          let s ← advance s 2
          pure (.inl ({ r with status := .finished }, s))
        else pure (.inl (r, s))
      else pure (.inr (false, { r with code := .badRequest }))
  | .body => do
      let r ← r.readBodyLine line
      pure (.inl (r, s))
  | .finished => pure (.inl (r, s))

/-- `readBuffRound` on the readable bytes. -/
def contentRound (st : HttpRequest × Bytes) :
    Except Fault ((HttpRequest × Bytes) ⊕ (Bool × HttpRequest)) :=
  if 0 < st.2.length ∧ st.1.status ≠ .finished then do
    let (line, s) ← contentLine st.1.status st.2
    contentRead st.1 line s
  else
    .ok (.inr (true, st.1))

/-! ## The buffer's offsets are bookkeeping -/

/-- A buffer of some size in order, seen as its readable bytes. -/
structure Shows (size : Nat) (b : Buffer) (s : Bytes) : Prop where
  inv : b.Inv
  size : b.buffer.length = size
  readable : b.readable = s

variable {size : Nat}

theorem updateReadp_agree {b : Buffer} {s : Bytes} (h : Shows size b s)
    (len : Nat) :
    Agree (Shows size) (b.updateReadp len) (advance s len) := by
  obtain ⟨hinv, rfl, rfl⟩ := h
  have hsize := hinv.length_readable
  by_cases hlen : len ≤ b.readableSize
  · rw [Buffer.updateReadp_ok hlen, advance, check_pos (by omega)]
    exact ⟨hinv.advance hlen, rfl, b.readable_advance len⟩
  · rw [Buffer.updateReadp_error (by omega), advance,
      check_neg (by omega)]
    rfl

theorem nextLine_agree {b : Buffer} {s : Bytes} (h : Shows size b s)
    (part : HttpPart) :
    Agree (fun p q => p.1 = q.1 ∧ Shows size p.2 q.2) (nextLine part b)
      (contentLine part s) := by
  obtain ⟨hinv, rfl, rfl⟩ := h
  rw [nextLine, contentLine, hinv.beginReadPtr, hinv.beginWritePtr]
  split
  · have hline : b.slice b.readp
        (b.readp + search crlf (b.slice b.readp b.writep))
        = b.readable.take (search crlf b.readable) := by
      have hle := search_le_length crlf b.readable
      rw [hinv.length_readable] at hle
      show (b.buffer.drop b.readp).take
          (b.readp + search crlf b.readable - b.readp)
        = ((b.buffer.drop b.readp).take b.readableSize).take _
      rw [Nat.add_sub_cancel_left, List.take_take, Nat.min_eq_left hle]
    simp only [ok_bind, hline]
    exact (updateReadp_agree ⟨hinv, rfl, rfl⟩ _).bind
      fun b' s' hb' => ⟨rfl, hb'⟩
  · exact ⟨rfl, hinv.releaseAllBuff, List.length_replicate,
      b.readable_releaseAllBuff⟩

/-- What the loop has when it leaves: the same on both sides, and a buffer
still in order. -/
def Left (size : Nat) (p : Bool × HttpRequest × Buffer)
    (q : Bool × HttpRequest) : Prop :=
  (p.1, p.2.1) = q ∧ p.2.2.Inv ∧ p.2.2.buffer.length = size

theorem readLine_agree {b : Buffer} {s : Bytes} (h : Shows size b s)
    (r : HttpRequest) (line : Bytes) :
    Agree (RoundAgree (fun p q => p.1 = q.1 ∧ Shows size p.2 q.2) (Left size))
      (r.readLine line b) (r.contentRead line s) := by
  have hsize := h.inv.length_readable
  rw [h.readable] at hsize
  rw [readLine, contentRead]
  cases r.status with
  | requestLine =>
      simp only []
      cases r.readRequestLine line with
      | error e => rfl
      | ok out =>
          obtain ⟨ok, r'⟩ := out
          cases ok
          · exact ⟨rfl, h.inv, h.size⟩
          · exact ⟨rfl, h⟩
  | headers =>
      simp only []
      cases r.readHeaderLine line with
      | error e => rfl
      | ok out =>
          obtain ⟨ok, r'⟩ := out
          cases ok
          · exact ⟨rfl, h.inv, h.size⟩
          · simp only [ok_bind, if_true, hsize]
            split
            · exact (updateReadp_agree h 2).bind
                fun b' s' hb' => ⟨rfl, hb'⟩
            · exact ⟨rfl, h⟩
  | body =>
      simp only []
      cases r.readBodyLine line with
      | error e => rfl
      | ok r' => exact ⟨rfl, h⟩
  | finished => exact ⟨rfl, h⟩

/-- A round of the loop around two readers that agree. -/
theorem round_agree
    {read : HttpRequest → Bytes → Buffer →
      Except Fault ((HttpRequest × Buffer) ⊕ (Bool × HttpRequest × Buffer))}
    {read' : HttpRequest → Bytes → Bytes →
      Except Fault ((HttpRequest × Bytes) ⊕ (Bool × HttpRequest))}
    (hread : ∀ {b : Buffer} {s : Bytes}, Shows size b s → ∀ r line,
      Agree (RoundAgree (fun p q => p.1 = q.1 ∧ Shows size p.2 q.2)
        (Left size)) (read r line b) (read' r line s))
    (p : HttpRequest × Buffer) (q : HttpRequest × Bytes)
    (h : p.1 = q.1 ∧ Shows size p.2 q.2) :
    Agree (RoundAgree (fun p q => p.1 = q.1 ∧ Shows size p.2 q.2) (Left size))
      (if 0 < p.2.readableSize ∧ p.1.status ≠ .finished then do
        let (line, b) ← nextLine p.1.status p.2
        read p.1 line b
      else .ok (.inr (true, p.1, p.2)))
      (if 0 < q.2.length ∧ q.1.status ≠ .finished then do
        let (line, s) ← contentLine q.1.status q.2
        read' q.1 line s
      else .ok (.inr (true, q.1))) := by
  obtain ⟨r, b⟩ := p
  obtain ⟨r', s⟩ := q
  obtain ⟨hr, hb⟩ := h
  cases hr
  have hsize := hb.inv.length_readable
  rw [hb.readable] at hsize
  simp only [hsize]
  split
  · refine (nextLine_agree hb r.status).bind fun x y hxy => ?_
    obtain ⟨line, b'⟩ := x
    obtain ⟨line', s'⟩ := y
    obtain ⟨hline, hb'⟩ := hxy
    cases hline
    exact hread hb' r line
  · exact ⟨rfl, hb.inv, hb.size⟩

theorem readBuffRound_agree (p : HttpRequest × Buffer)
    (q : HttpRequest × Bytes) (h : p.1 = q.1 ∧ Shows size p.2 q.2) :
    Agree (RoundAgree (fun p q => p.1 = q.1 ∧ Shows size p.2 q.2) (Left size))
      (readBuffRound p) (contentRound q) :=
  round_agree readLine_agree p q h

/-! ## The loop on bytes is the scan -/

theorem advance_ok_iff {s t : Bytes} {len : Nat} :
    advance s len = .ok t ↔ len ≤ s.length ∧ t = s.drop len := by
  rw [advance, bind_ok_iff]
  constructor
  · rintro ⟨u, hc, ht⟩
    cases ht
    exact ⟨check_ok_iff.mp hc, rfl⟩
  · rintro ⟨hlen, rfl⟩
    exact ⟨(), check_pos hlen, rfl⟩

/-- Cutting a line splits the text at its first CRLF. -/
theorem cutLine_ok_iff {s line rest : Bytes} :
    cutLine s = .ok (line, rest) ↔
      s = line ++ (crlf ++ rest) ∧ ¬ crlf <:+: line := by
  have hcrlf : crlf = [13, 10] := rfl
  constructor
  · intro h
    obtain ⟨t, ht, hp⟩ := bind_ok_iff.mp h
    cases hp
    obtain ⟨hlen, rfl⟩ := advance_ok_iff.mp ht
    have hle := search_le_length crlf s
    rw [List.length_take, Nat.min_eq_left hle] at hlen ⊢
    have hin : crlf <:+: s := by
      by_contra hno
      have := search_of_not_infix hno
      omega
    obtain ⟨r, hr⟩ := search_of_infix hin
    have hdrop : s.drop (search crlf s + 2) = r := by
      rw [← List.drop_drop, ← hr]
      rfl
    refine ⟨?_, not_infix_take_search (by decide) s⟩
    rw [hdrop, hr, List.take_append_drop]
  · rintro ⟨rfl, hno⟩
    have hsearch : search crlf (line ++ (crlf ++ rest)) = line.length := by
      rw [hcrlf] at hno ⊢
      exact search_append (by decide) hno rest
    rw [cutLine, hsearch, List.take_left, advance, hcrlf,
      check_pos (by simp)]
    show Except.ok (line, (line ++ ([13, 10] ++ rest)).drop (line.length + 2))
      = _
    rw [List.drop_append]
    simp

/-- Without a CRLF the cursor is moved past the end, and that is the only
failure. -/
theorem cutLine_error {s : Bytes} {e : Fault} (h : cutLine s = .error e) :
    e = .assertFailed .updateReadp := by
  rw [cutLine, advance] at h
  by_cases hlen : (s.take (search crlf s)).length + 2 ≤ s.length
  · rw [check_pos hlen] at h
    cases h
  · rw [check_neg hlen] at h
    cases h
    rfl

theorem cutLine_length {s line rest : Bytes}
    (h : cutLine s = .ok (line, rest)) : rest.length + 2 ≤ s.length := by
  rw [(cutLine_ok_iff.mp h).1, List.length_append, List.length_append,
    show crlf.length = 2 from rfl]
  omega

variable {stuck : Fault}

theorem loop_finished {n : Nat} {r : HttpRequest} {s : Bytes}
    (h : r.status = .finished ∨ s = []) :
    loop contentRound stuck (n + 1) (r, s) = .ok (true, r) := by
  refine loop_leave ?_
  rw [contentRound, if_neg]
  rintro ⟨hpos, hne⟩
  rcases h with h | h
  · exact hne h
  · rw [h] at hpos; exact absurd hpos (Nat.lt_irrefl _)

/-- The body round, and the round after it that leaves. -/
theorem loop_body {n : Nat} {r : HttpRequest} {s : Bytes}
    (hr : r.status = .body) (hs : 0 < s.length) :
    loop contentRound stuck (n + 2) (r, s)
      = (do let r ← r.readBodyLine s; pure (true, r)) := by
  have hround : contentRound (r, s)
      = (do let r ← r.readBodyLine s; pure (.inl (r, []))) := by
    rw [contentRound, if_pos ⟨hs, by rw [hr]; decide⟩]
    simp only [contentLine, hr, ne_eq, not_true, if_false, contentRead]
    rfl
  rw [loop, hround]
  cases hb : r.readBodyLine s with
  | error e => rfl
  | ok r' => exact loop_finished (.inr rfl)

/-- Marking the request finished before or after its body is handled is the
same. -/
theorem readBodyLine_eq (r : HttpRequest) (bytes : Bytes) :
    r.readBodyLine bytes
      = handlePostBody { r with body := bytes, status := .finished } := by
  rw [readBodyLine, handlePostBody, handlePostBody]
  split
  · rw [handleForm, handleForm]
    split
    · rfl
    · simp only [bind_assoc]
      rfl
  · rfl

/-- A header round of the loop: cut a line, take it in, and either finish on
the shortcut or go on. -/
theorem contentRound_headers {r : HttpRequest} {s : Bytes}
    (hr : r.status = .headers) (hs : s ≠ []) :
    contentRound (r, s) = (do
      let (line, rest) ← cutLine s
      let r := match matchHeaderLine line with
        | some (name, value) =>
            { r with headers := r.headers.insert name value }
        | none => { r with status := .body }
      if rest.length ≤ 2 then do
        let s ← advance rest 2
        pure (.inl ({ r with status := .finished }, s))
      else pure (.inl (r, rest))) := by
  have hpos : 0 < s.length := List.length_pos_iff.mpr hs
  rw [contentRound, if_pos ⟨hpos, by rw [hr]; decide⟩]
  have hline : contentLine r.status s = cutLine s := by
    rw [contentLine, if_pos (by rw [hr]; decide)]
  simp only [hline]
  congr 1
  funext out
  obtain ⟨line, rest⟩ := out
  simp only [contentRead, hr, readHeaderLine, check_pos, ok_bind]
  cases matchHeaderLine line with
  | none => rfl
  | some field => rfl

theorem loop_headers : ∀ (n : Nat) {r : HttpRequest} {s : Bytes},
    r.status = .headers → s.length < n →
    loop contentRound .diverged n (r, s)
      = (do
          let (fields, body, part) ← scanFields n s
          let r ← r.absorbFields fields body part
          pure (true, r)) := by
  intro n
  induction n with
  | zero => intro r s _ hn; exact absurd hn (Nat.not_lt_zero _)
  | succ n ih =>
      intro r s hr hn
      rw [scanFields]
      by_cases hs : s = []
      · rw [if_pos hs, loop_finished (.inr hs)]
        simp only [ok_bind, absorbFields, Dict.insertAll_nil, ← hr]
        rfl
      rw [if_neg hs, loop, contentRound_headers hr hs]
      cases hcut : cutLine s with
      | error e => rfl
      | ok out =>
          obtain ⟨line, rest⟩ := out
          have hlen := cutLine_length hcut
          obtain ⟨k, rfl⟩ : ∃ k, n = k + 1 := ⟨n - 1, by omega⟩
          simp only [ok_bind]
          by_cases hshort : rest.length ≤ 2
          · rw [if_pos hshort, if_pos hshort]
            cases ha : advance rest 2 with
            | error e => rfl
            | ok s' =>
                cases hm : matchHeaderLine line with
                | none => exact loop_finished (.inl rfl)
                | some field => exact loop_finished (.inl rfl)
          · rw [if_neg hshort, if_neg hshort]
            cases hm : matchHeaderLine line with
            | some field =>
                have hnext := ih (s := rest) (r :=
                  { r with headers := r.headers.insert field.1 field.2 })
                  hr (by omega)
                show loop contentRound .diverged (k + 1) _ = _
                refine hnext.trans ?_
                cases scanFields (k + 1) rest with
                | error e => rfl
                | ok out => rfl
            | none =>
                -- The rest is the body: one round for it, one to leave.
                obtain ⟨j, rfl⟩ : ∃ j, k = j + 1 := ⟨k - 1, by omega⟩
                show loop contentRound .diverged (j + 2) _ = _
                rw [loop_body rfl (by omega), readBodyLine_eq]
                rfl

/-- Everything `Read_Buff` does before `_Handle_Path`, on the readable
bytes. -/
def digest (r : HttpRequest) (s : Bytes) : Except Fault (Bool × HttpRequest) :=
  do
    match ← scan s with
    | none => pure (false, r.reject)
    | some m => do
        let r ← r.absorb m
        pure (true, r)

theorem loop_start {r : HttpRequest} {s : Bytes} (hs : s ≠ []) :
    loop contentRound .diverged (s.length + 1)
        ({ r with status := .requestLine, code := .fileRequest }, s)
      = r.digest s := by
  have hpos : 0 < s.length := List.length_pos_iff.mpr hs
  have hline : contentLine .requestLine s = cutLine s := if_pos (by decide)
  rw [digest, scan, check_pos hs, loop, contentRound,
    if_pos ⟨hpos, HttpPart.noConfusion⟩]
  simp only [hline]
  cases hcut : cutLine s with
  | error e => rfl
  | ok out =>
      obtain ⟨line, rest⟩ := out
      have hlen := cutLine_length hcut
      simp only [ok_bind, contentRead, readRequestLine, check_pos]
      cases hm : matchRequestLine line with
      | none => rfl
      | some triple =>
          show loop contentRound .diverged s.length _ = _
          rw [loop_headers s.length rfl (by omega)]
          simp only [bind_assoc]
          cases scanFields s.length rest with
          | error e => rfl
          | ok out => rfl

/-- The parser on a buffer is the scan of what the buffer shows, taken into
the request. -/
theorem parseBuff_eq_scan {b : Buffer} (h : b.Inv) (r : HttpRequest) :
    Agree (Left b.buffer.length) (r.parseBuff b) (r.digest b.readable) := by
  have hsize := h.length_readable
  rw [parseBuff]
  by_cases hpos : 0 < b.readableSize
  · have hs : b.readable ≠ [] := List.length_pos_iff.mp (by omega)
    rw [check_pos hpos, ← loop_start hs, hsize]
    exact loop_rel readBuffRound_agree _ _ _ ⟨rfl, h, rfl, rfl⟩
  · have hs : b.readable = [] := List.length_eq_zero_iff.mp (by omega)
    rw [check_neg hpos, digest, scan, check_neg (by simpa using hs)]
    rfl

/-- `Read_Buff` on the readable bytes. -/
def readContent (fs : FileSystem) (r : HttpRequest) (s : Bytes) :
    Except Fault HttpRequest := do
  let (fell, r) ← r.digest s
  if fell then pure (r.handlePath fs) else pure r

theorem readBuff_eq_scan {b : Buffer} (h : b.Inv) (fs : FileSystem)
    (r : HttpRequest) :
    Agree (fun p q => p.1 = q ∧ p.2.Inv ∧
        p.2.buffer.length = b.buffer.length)
      (r.readBuff fs b) (r.readContent fs b.readable) := by
  rw [readBuff, readContent]
  refine (parseBuff_eq_scan h r).bind fun p q hpq => ?_
  obtain ⟨fell, r', b'⟩ := p
  obtain ⟨hq, hinv⟩ := hpq
  cases hq
  cases fell
  · exact ⟨rfl, hinv⟩
  · exact ⟨rfl, hinv⟩

end HttpRequest

end TinyWebServer
