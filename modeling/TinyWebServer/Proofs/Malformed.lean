import TinyWebServer.Proofs.Shortcut

/-!
# A header line that is none

`_Read_Header_Line` answers `true` on every line, so the branch of `Read_Buff`
that sets `BAD_REQUEST` for a bad header line is never taken. What a line that
is no field does instead is end the header section: everything behind it, the
later header lines and the blank line included, becomes the body.

A request is therefore treated as the branch means it to exactly when there is
nothing to reject.
-/

namespace TinyWebServer

open Lib HttpRequest

/-- A request whose lines stand before its first blank line. -/
structure HeaderText extends LinedRequest where
  filled : ∀ line ∈ lines, line ≠ []

namespace LinedRequest

/-- The body and the form are what they were, or what the bytes right behind
the blank line make of them. -/
def BodyBehindBlank (q : LinedRequest) (r out : HttpRequest) : Prop :=
  (out.body = r.body ∧ out.form = r.form) ∨
    ∃ a, (q.headed r).readBodyLine q.body = .ok a ∧
      out.body = a.body ∧ out.form = a.form

/-- A valid request line is never followed by a `BAD_REQUEST`. -/
theorem readContent_code {q : LinedRequest} {fs : FileSystem}
    {r out : HttpRequest} (h : r.readContent fs q.text = .ok out) :
    out.code ≠ .badRequest := by
  rw [readContent, digest_text] at h
  obtain ⟨⟨fell, a⟩, hd, h⟩ := bind_ok_iff.mp h
  obtain ⟨⟨fields, body, part⟩, -, hd⟩ := bind_ok_iff.mp hd
  obtain ⟨a', ha, hd⟩ := bind_ok_iff.mp hd
  cases hd
  cases h
  refine handlePath_code ?_
  have hhead := absorb_head (r := r) (m :=
    ⟨q.parts.1, q.parts.2.1, q.parts.2.2, fields, body, part⟩) ha
  rw [hhead]
  rfl

/-- The first line that is no field ends the header section. -/
theorem scanFields_malformed {q : LinedRequest} {good more : List Bytes}
    {bad : Bytes} (hlines : q.lines = good ++ bad :: more)
    (hgood : ∀ line ∈ good, (matchHeaderLine line).isSome)
    (hbad : matchHeaderLine bad = none) :
    scanFields q.text.length q.rest = .ok (fieldsOf good,
      if more = [] ∧ q.body = [] then none
      else some (linesText more (crlf ++ q.body)), .finished) := by
  have hlen := q.length_text
  rw [hlines, List.length_append, List.length_cons] at hlen
  have hwhole : ∀ line ∈ good ++ bad :: more, ¬ crlf <:+: line :=
    hlines ▸ q.wholeLines
  have hfields : ∀ line ∈ good, FieldLine line := fun line hline =>
    ⟨hwhole line (by simp [hline]), hgood line hline⟩
  obtain ⟨n, hn⟩ : ∃ n, q.text.length = n + 1 + good.length :=
    ⟨q.text.length - good.length - 1, by omega⟩
  have hback := length_linesText more (crlf ++ q.body)
  simp only [List.length_append, show crlf.length = 2 from rfl] at hback
  have htail : 2 < (linesText (bad :: more) (crlf ++ q.body)).length := by
    simp only [linesText, List.length_append, show crlf.length = 2 from rfl]
    omega
  rw [hn, rest, hlines, linesText_append,
    scanFields_lines htail (n + 1) hfields, linesText,
    scanFields_cut (hwhole bad (by simp)), hbad]
  by_cases hend : more = [] ∧ q.body = []
  · rw [if_pos hend, hend.1, hend.2, linesText, if_pos (by decide), advance,
      check_pos (by decide)]
    simp [pure, Except.pure]
  · have hlong : ¬ (linesText more (crlf ++ q.body)).length ≤ 2 := by
      intro hle
      refine hend ⟨List.length_eq_zero_iff.mp (by omega),
        List.length_eq_zero_iff.mp (by omega)⟩
    rw [if_neg hend, if_neg hlong]
    simp [pure, Except.pure]

/-- And what follows it is read as the body. -/
theorem readContent_malformed {q : LinedRequest} {good more : List Bytes}
    {bad : Bytes} (hlines : q.lines = good ++ bad :: more)
    (hgood : ∀ line ∈ good, (matchHeaderLine line).isSome)
    (hbad : matchHeaderLine bad = none) (hrest : ¬ (more = [] ∧ q.body = []))
    (fs : FileSystem) (r : HttpRequest) :
    r.readContent fs q.text = (do
      let a ← readBodyLine
        { q.start r with
          headers := r.headers.insertAll (fieldsOf good), status := .body }
        (linesText more (crlf ++ q.body))
      pure (a.handlePath fs)) := by
  rw [readContent, digest_text, scanFields_malformed hlines hgood hbad,
    if_neg hrest, readBodyLine_eq]
  simp only [ok_bind, bind_assoc]
  rfl

/-- Without a bad line the body starts behind the blank line. -/
theorem bodyBehindBlank {q : LinedRequest} (h : q.WellFormed)
    {fs : FileSystem} {r out : HttpRequest}
    (hout : r.readContent fs q.text = .ok out) : q.BodyBehindBlank r out := by
  rcases Nat.lt_or_ge 2 q.body.length with hlong | hshort
  · rw [readContent_long h hlong] at hout
    obtain ⟨a, ha, hout⟩ := bind_ok_iff.mp hout
    cases hout
    refine .inr ⟨a, ha, ?_, ?_⟩
    · rw [handlePath_frame]
    · rw [handlePath_frame]
  by_cases hbad : (q.body = [] ∧ q.lines = []) ∨ q.body.length = 1
  · rw [readContent_aborts h hbad] at hout
    cases hout
  · rw [readContent_skipped h (skipped_of_short hshort hbad)] at hout
    cases hout
    refine .inl ⟨?_, ?_⟩
    · rw [handlePath_frame]; rfl
    · rw [handlePath_frame]; rfl

end LinedRequest

namespace HeaderText

open LinedRequest

/-- What is meant to happen: a line that is no field makes the request a bad
one, and in any case the body is what follows the first blank line. -/
structure Rejects (fs : FileSystem) (q : HeaderText) (r : HttpRequest)
    (b : Buffer) : Prop where
  code : (∃ line ∈ q.lines, matchHeaderLine line = none) →
    ∃ out b', r.readBuff fs b = .ok (out, b') ∧ out.code = .badRequest
  body : ∀ out b', r.readBuff fs b = .ok (out, b') →
    q.toLinedRequest.BodyBehindBlank r out

/-- It happens exactly when every line before the blank one is a header
field. -/
theorem rejects_iff (q : HeaderText) {b : Buffer} (hb : b.Inv)
    (hs : b.readable = q.text) (fs : FileSystem) (r : HttpRequest) :
    Rejects fs q r b ↔ ∀ line ∈ q.lines, (matchHeaderLine line).isSome := by
  have hread := readBuff_eq_scan hb fs r
  rw [hs] at hread
  constructor
  · intro h line hline
    by_contra hnone
    obtain ⟨out, b', hout, hcode⟩ :=
      h.code ⟨line, hline, Option.not_isSome_iff_eq_none.mp hnone⟩
    rw [hout] at hread
    obtain ⟨out', hout', heq, -, -⟩ := hread.ok_left
    cases heq
    exact readContent_code hout' hcode
  · intro h
    refine ⟨fun hbad => ?_, fun out b' hout => ?_⟩
    · obtain ⟨line, hline, hnone⟩ := hbad
      have hsome := h line hline
      rw [hnone] at hsome
      cases hsome
    · rw [hout] at hread
      obtain ⟨out', hout', heq, -, -⟩ := hread.ok_left
      cases heq
      exact bodyBehindBlank h hout'

/-- `page` has one line before its blank line. -/
def page : HeaderText where
  toLinedRequest := LinedRequest.page
  filled := by
    intro line hline
    rw [List.mem_singleton.mp hline]
    decide +kernel

theorem rejects_iff_page :
    Rejects flatTree page blankConnector.request
      (Buffer.holding page.text) := by
  refine (rejects_iff page (Buffer.inv_holding page.text_ne_nil)
    (Buffer.readable_holding _) flatTree blankConnector.request).mpr ?_
  intro line hline
  rw [List.mem_singleton.mp hline]
  decide +kernel

theorem torn_lines : ∀ line ∈ [lit "bad", lit "Host: b"],
    ¬ crlf <:+: line ∧ line ≠ [] := by
  intro line hline
  rcases List.mem_pair.mp hline with rfl | rfl
  · decide +kernel
  · decide +kernel

/-- A line that is no field, and a field behind it. -/
def torn : HeaderText where
  requestLine := lit "GET /a.html HTTP/1.1"
  lines := [lit "bad", lit "Host: b"]
  body := []
  whole := LinedRequest.page.whole
  wholeLines line hline := (torn_lines line hline).1
  valid := LinedRequest.page.valid
  filled line hline := (torn_lines line hline).2

/-- It is answered like a good request, with the field for its body. -/
theorem malformed_accepted :
    ¬ ∀ (fs : FileSystem) (q : HeaderText) (r : HttpRequest) (b : Buffer),
      b.Inv → b.readable = q.text → Rejects fs q r b := by
  intro hall
  have hb := Buffer.inv_holding torn.text_ne_nil
  obtain ⟨out, b', hout, hcode⟩ := (hall flatTree torn blankConnector.request
    (Buffer.holding torn.text) hb (Buffer.readable_holding _)).code
    ⟨lit "bad", by decide +kernel, by decide +kernel⟩
  have hread := readBuff_eq_scan hb flatTree blankConnector.request
  rw [hout, Buffer.readable_holding] at hread
  obtain ⟨out', hout', heq, -, -⟩ := hread.ok_left
  cases heq
  exact readContent_code hout' hcode

end HeaderText

end TinyWebServer
