import TinyWebServer.Proofs.Segmentation

/-!
# What is written is what is read

A request serialised and parsed into a fresh object comes back: method,
version, target and body as they were, and the header map holding the last
value of every name. Two bodies are left out. A body of one or two bytes does
not survive the shortcut, and the body of a form is rewritten by the decoder.

Nothing is left in the buffer either. That is an invariant of the loop, and
holds on every input: a request that is marked finished has nothing behind it
(`parseBuff_drains`).
-/

namespace TinyWebServer

open Lib

namespace HttpRequest

open HttpConnector (pageText serialize_pageText)

/-! ## Nothing is left behind a finished request -/

/-- Once the request is finished the buffer is empty. -/
def Drained (st : HttpRequest × Buffer) : Prop :=
  st.1.status = .finished → st.2.readableSize = 0

/-- The skip behind a line takes all there is. -/
theorem updateReadp_drains {b b' : Buffer} {n : Nat}
    (h : b.updateReadp n = .ok b') (hshort : b.readableSize ≤ n) :
    b'.readableSize = 0 := by
  rw [Buffer.updateReadp] at h
  obtain ⟨u, hlen, hb'⟩ := bind_ok_iff.mp h
  have hle := check_ok_iff.mp hlen
  cases hb'
  simp only [Buffer.readableSize] at hle hshort ⊢
  omega

theorem readLine_drained {r : HttpRequest} {line : Bytes} {b : Buffer}
    {out : (HttpRequest × Buffer) ⊕ (Bool × HttpRequest × Buffer)}
    (hbody : r.status = .body → b.readableSize = 0)
    (hfin : r.status ≠ .finished) (h : r.readLine line b = .ok out) :
    Sum.elim Drained (fun p => p.1 = true → p.2.2.readableSize = 0) out := by
  rw [readLine] at h
  cases hst : r.status with
  | requestLine =>
      simp only [hst] at h
      obtain ⟨⟨ok, r'⟩, hread, h⟩ := bind_ok_iff.mp h
      rw [readRequestLine, check_pos hst, ok_bind] at hread
      cases hm : matchRequestLine line with
      | none =>
          rw [hm] at hread
          cases hread
          cases h
          exact fun hf => by cases hf
      | some triple =>
          rw [hm] at hread
          cases hread
          cases h
          exact fun hf => by cases hf
  | headers =>
      simp only [hst] at h
      obtain ⟨⟨ok, r'⟩, hread, h⟩ := bind_ok_iff.mp h
      rw [readHeaderLine, check_pos hst, ok_bind] at hread
      have hok : ok = true ∧ r'.status ≠ .finished := by
        cases hm : matchHeaderLine line with
        | none => rw [hm] at hread; cases hread; simp
        | some field => rw [hm] at hread; cases hread; simp [hst]
      rw [hok.1, if_pos rfl] at h
      split at h
      · next hshort =>
          obtain ⟨b', hb', h⟩ := bind_ok_iff.mp h
          cases h
          exact fun _ => updateReadp_drains hb' hshort
      · cases h
        exact fun hf => absurd hf hok.2
  | body =>
      simp only [hst] at h
      obtain ⟨r', -, h⟩ := bind_ok_iff.mp h
      cases h
      exact fun _ => hbody hst
  | finished => exact absurd hst hfin

theorem readBuffRound_drained (st : HttpRequest × Buffer)
    (out : (HttpRequest × Buffer) ⊕ (Bool × HttpRequest × Buffer))
    (hst : Drained st) (h : readBuffRound st = .ok out) :
    Sum.elim Drained (fun p => p.1 = true → p.2.2.readableSize = 0) out := by
  rw [readBuffRound] at h
  split at h
  · next hgo =>
      obtain ⟨⟨line, b⟩, hline, h⟩ := bind_ok_iff.mp h
      refine readLine_drained (fun hbody => ?_) hgo.2 h
      rw [nextLine, if_neg (not_not.mpr hbody)] at hline
      obtain ⟨first, -, hline⟩ := bind_ok_iff.mp hline
      obtain ⟨last, -, hline⟩ := bind_ok_iff.mp hline
      cases hline
      rfl
  · next hstop =>
      cases h
      intro _
      by_cases hfin : st.1.status = .finished
      · exact hst hfin
      · exact Nat.eq_zero_of_not_pos fun hpos => hstop ⟨hpos, hfin⟩

/-- A parse that runs to the end has read everything. -/
theorem parseBuff_drains {r r' : HttpRequest} {b b' : Buffer}
    (h : r.parseBuff b = .ok (true, r', b')) : b'.readableSize = 0 := by
  obtain ⟨_, -, h⟩ := bind_ok_iff.mp h
  exact loop_invariant readBuffRound_drained _ (fun hf => by cases hf) h rfl

theorem readBuff_of_parse {r parsed : HttpRequest} {b b' : Buffer}
    (fs : FileSystem) (h : r.parseBuff b = .ok (true, parsed, b')) :
    r.readBuff fs b = .ok (parsed.handlePath fs, b') := by
  rw [readBuff, h]
  rfl

theorem readable_eq_nil {b : Buffer} (h : b.readableSize = 0) :
    b.readable = [] := by
  rw [Buffer.readable, Buffer.slice, show b.writep - b.readp = 0 from h,
    List.take_zero]

/-! ## The round trip -/

/-- A body that is none or not short, and not a form, is taken as it is. -/
theorem absorb_text {q : RequestText} {r : HttpRequest}
    (hheaders : r.headers = Dict.empty) (hempty : r.body = [])
    (hbody : q.body = [] ∨ 3 ≤ q.body.length)
    (hform : ¬ (q.method = lit "POST" ∧
      Dict.IsLast q.fields (lit "Content-Type") formType)) :
    r.absorb q.message
      = .ok { r.takeHead q.message with body := q.body } := by
  have hno : ¬ r.FormIn q.message := by
    intro h
    obtain ⟨hm, hct⟩ := h
    rw [hheaders] at hct
    exact hform ⟨hm, Dict.insertAll_empty_iff.mp hct⟩
  rw [absorb_eq]
  rcases hbody with hnil | hlong
  · have htaken : q.message.body = none := by
      simp [RequestText.message, RequestText.takenBody, hnil]
    simp only [htaken, hnil]
    rw [← hempty]
    rfl
  · have htaken : q.message.body = some q.body := by
      rw [RequestText.message, RequestText.takenBody]
      exact if_pos (by omega)
    simp only [htaken, if_neg hno]

/-- `Read_Buff` undoes serialisation. -/
theorem readBuff_serialize (q : RequestText)
    (hbody : q.body = [] ∨ 3 ≤ q.body.length)
    (hform : ¬ (q.method = lit "POST" ∧
      Dict.IsLast q.fields (lit "Content-Type") formType))
    {b : Buffer} (hb : b.Inv) (hs : b.readable = q.serialize)
    (fs : FileSystem) (status : HttpPart) (code : HttpCode)
    (cgi tasks : Bool) :
    ∃ parsed out b',
      (construct status code cgi tasks).parseBuff b
        = .ok (true, parsed, b') ∧
      parsed.path = q.target ∧
      (construct status code cgi tasks).readBuff fs b = .ok (out, b') ∧
      out = parsed.handlePath fs ∧
      out.status = .finished ∧
      b'.readable = [] ∧
      out.code ≠ .badRequest ∧
      out.method = q.method ∧
      out.version = q.version ∧
      (∀ name value, out.headers name = some value ↔
        Dict.IsLast q.fields name value) ∧
      out.body = q.body := by
  have hscan : scan b.readable = .ok (some q.message) := by
    rw [hs]
    refine RequestText.scan_serialize fun hone => ?_
    rcases hbody with hnil | hlong
    · rw [hnil] at hone; cases hone
    · omega
  have habs := absorb_text (r := construct status code cgi tasks) rfl rfl
    hbody hform
  have hparse := parseBuff_eq_scan hb (construct status code cgi tasks)
  rw [digest, hscan, ok_bind] at hparse
  simp only [habs, ok_bind] at hparse
  obtain ⟨⟨fell, parsed, b'⟩, hp, heq, -, -⟩ := hparse.ok_right
  obtain ⟨hfell, hparsed⟩ := Prod.mk.inj heq
  simp only [] at hfell hparsed
  rw [hfell] at hp
  refine ⟨parsed, _, b', hp, ?_, readBuff_of_parse fs hp, rfl, ?_, ?_, ?_, ?_,
    ?_, ?_, ?_⟩
  · rw [hparsed]; rfl
  · rw [handlePath_frame, hparsed]; rfl
  · exact readable_eq_nil (parseBuff_drains hp)
  · exact handlePath_code (by rw [hparsed]; rfl)
  · rw [handlePath_frame, hparsed]; rfl
  · rw [handlePath_frame, hparsed]; rfl
  · intro name value
    rw [handlePath_frame, hparsed]
    exact Dict.insertAll_empty_iff
  · rw [handlePath_frame, hparsed]

/-- A page request. -/
theorem readBuff_serialize_page :
    ∃ out b', (construct .requestLine .fileRequest false false).readBuff
        flatTree (Buffer.holding pageText.serialize) = .ok (out, b') ∧
      out.headers (lit "Host") = some (lit "b") := by
  obtain ⟨parsed, out, b', -, -, hread, -, -, -, -, -, -, hheaders, -⟩ :=
    readBuff_serialize pageText (.inl rfl)
      (fun h => absurd h.1 (by decide +kernel))
      (Buffer.inv_holding (by rw [serialize_pageText]; decide +kernel))
      (Buffer.readable_holding _) flatTree .requestLine .fileRequest false
      false
  exact ⟨out, b', hread, (hheaders _ _).mpr ⟨[], [], rfl, by simp [Dict.keys]⟩⟩

end HttpRequest

end TinyWebServer
