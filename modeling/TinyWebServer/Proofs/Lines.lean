import TinyWebServer.Proofs.Message

/-!
# Requests line by line

A request as its lines: a request line, lines up to a blank one, and whatever
follows. The lines may be header fields or not; all that is asked of a line is
that no CRLF stands inside it.

`scanFields_lines` reads any number of header fields at once, as long as more
than two bytes follow them, so that the shortcut for an empty body stays out
of the way.
-/

namespace TinyWebServer

open Lib

namespace HttpRequest

/-- The lines of a list, each with its CRLF, and what follows them. -/
def linesText : List Bytes → Bytes → Bytes
  | [], tail => tail
  | line :: lines, tail => line ++ (crlf ++ linesText lines tail)

theorem linesText_append (lines more : List Bytes) (tail : Bytes) :
    linesText (lines ++ more) tail = linesText lines (linesText more tail) := by
  induction lines with
  | nil => rfl
  | cons line lines ih => rw [List.cons_append, linesText, linesText, ih]

theorem length_linesText (lines : List Bytes) (tail : Bytes) :
    2 * lines.length + tail.length ≤ (linesText lines tail).length := by
  have hcrlf : crlf.length = 2 := rfl
  induction lines with
  | nil => simp [linesText]
  | cons line lines ih =>
      simp only [linesText, List.length_append, List.length_cons, hcrlf]
      omega

/-- The header fields among the lines. -/
def fieldsOf (lines : List Bytes) : List (Bytes × Bytes) :=
  lines.filterMap matchHeaderLine

/-- A line of a header section: it has no CRLF inside and is a field. -/
structure FieldLine (line : Bytes) : Prop where
  whole : ¬ crlf <:+: line
  isField : (matchHeaderLine line).isSome

/-- One line of the header section. -/
theorem scanFields_cut {n : Nat} {line rest : Bytes}
    (hline : ¬ crlf <:+: line) :
    scanFields (n + 1) (line ++ (crlf ++ rest)) =
      if rest.length ≤ 2 then do
        let _ ← advance rest 2
        pure ((matchHeaderLine line).toList, none, .finished)
      else
        match matchHeaderLine line with
        | some _ => do
            let (more, body, part) ← scanFields n rest
            pure ((matchHeaderLine line).toList ++ more, body, part)
        | none =>
            pure ((matchHeaderLine line).toList, some rest, .finished) := by
  have hne : line ++ (crlf ++ rest) ≠ [] := by
    intro h
    cases (List.append_eq_nil_iff.mp (List.append_eq_nil_iff.mp h).2).1
  rw [scanFields, if_neg hne, cutLine_ok_iff.mpr ⟨rfl, hline⟩]
  rfl

/-- Any number of header fields with more than two bytes behind them. -/
theorem scanFields_lines {tail : Bytes} (htail : 2 < tail.length) :
    ∀ {lines : List Bytes} (n : Nat), (∀ line ∈ lines, FieldLine line) →
      scanFields (n + lines.length) (linesText lines tail) = (do
        let (more, body, part) ← scanFields n tail
        pure (fieldsOf lines ++ more, body, part)) := by
  intro lines
  induction lines with
  | nil =>
      intro n _
      rw [linesText]
      show scanFields n tail = _
      cases scanFields n tail with
      | error e => rfl
      | ok out => rfl
  | cons line lines ih =>
      intro n hlines
      have hline := hlines line (by simp)
      obtain ⟨field, hfield⟩ := Option.isSome_iff_exists.mp hline.isField
      have hlong := length_linesText lines tail
      rw [linesText, show n + (line :: lines).length = n + lines.length + 1
        from rfl, scanFields_cut hline.whole, if_neg (by omega), hfield]
      simp only []
      rw [ih n fun l hl => hlines l (by simp [hl])]
      simp only [fieldsOf, List.filterMap_cons, hfield]
      cases scanFields n tail with
      | error e => rfl
      | ok out => rfl

end HttpRequest

/-- A request as its lines. -/
structure LinedRequest where
  requestLine : Bytes
  lines : List Bytes
  body : Bytes
  whole : ¬ crlf <:+: requestLine
  wholeLines : ∀ line ∈ lines, ¬ crlf <:+: line
  valid : (HttpRequest.matchRequestLine requestLine).isSome

namespace LinedRequest

open HttpRequest

/-- The lines, the blank line and what follows it. -/
def rest (q : LinedRequest) : Bytes := linesText q.lines (crlf ++ q.body)

def text (q : LinedRequest) : Bytes := q.requestLine ++ (crlf ++ q.rest)

/-- The request line's method, target and version. -/
def parts (q : LinedRequest) : Bytes × Bytes × Bytes :=
  (matchRequestLine q.requestLine).get q.valid

/-- The request line taken into a request. -/
def start (q : LinedRequest) (r : HttpRequest) : HttpRequest :=
  { r with
    code := .fileRequest, method := q.parts.1, path := q.parts.2.1
    version := q.parts.2.2, status := .headers }

/-- The request line and the header fields taken into a request, which now
waits for its body. -/
def headed (q : LinedRequest) (r : HttpRequest) : HttpRequest :=
  { q.start r with
    headers := r.headers.insertAll (fieldsOf q.lines), status := .body }

theorem text_ne_nil (q : LinedRequest) : q.text ≠ [] := by
  intro h
  cases (List.append_eq_nil_iff.mp (List.append_eq_nil_iff.mp h).2).1

theorem length_text (q : LinedRequest) :
    2 * q.lines.length + q.body.length + 4 ≤ q.text.length := by
  have hcrlf : crlf.length = 2 := rfl
  have hrest := length_linesText q.lines (crlf ++ q.body)
  simp only [List.length_append, hcrlf] at hrest
  simp only [text, rest, List.length_append, hcrlf]
  omega

theorem scan_text (q : LinedRequest) :
    scan q.text = (do
      let (fields, body, part) ← scanFields q.text.length q.rest
      pure (some
        { method := q.parts.1, target := q.parts.2.1
          version := q.parts.2.2, fields, body, part })) := by
  have hcut : cutLine q.text = .ok (q.requestLine, q.rest) :=
    cutLine_ok_iff.mpr ⟨rfl, q.whole⟩
  have hmatch : matchRequestLine q.requestLine = some q.parts :=
    (Option.some_get q.valid).symm
  rw [scan, check_pos q.text_ne_nil, hcut]
  simp only [ok_bind, hmatch]

/-- The request line is read; the rest is the header section's. -/
theorem digest_text (q : LinedRequest) (r : HttpRequest) :
    r.digest q.text = (do
      let (fields, body, part) ← scanFields q.text.length q.rest
      let a ← (q.start r).absorbFields fields body part
      pure (true, a)) := by
  rw [digest, scan_text]
  cases scanFields q.text.length q.rest with
  | error e => rfl
  | ok out => rfl

/-! ## Requests whose lines are header fields -/

/-- Every line before the blank one is a header field. -/
def WellFormed (q : LinedRequest) : Prop :=
  ∀ line ∈ q.lines, (matchHeaderLine line).isSome

theorem WellFormed.fieldLine {q : LinedRequest} (h : q.WellFormed) :
    ∀ line ∈ q.lines, FieldLine line :=
  fun line hline => ⟨q.wholeLines line hline, h line hline⟩

theorem not_infix_blank : ¬ crlf <:+: ([] : Bytes) := by decide

/-- The blank line, read as a line. -/
theorem scanFields_blank (n : Nat) (body : Bytes) :
    scanFields (n + 1) (crlf ++ body) =
      if body.length ≤ 2 then do
        let _ ← advance body 2
        pure ([], none, .finished)
      else pure ([], some body, .finished) :=
  scanFields_cut not_infix_blank

/-- With a body the fields are read first, and then the blank line. -/
theorem scanFields_rest {q : LinedRequest} (h : q.WellFormed)
    (hbody : q.body ≠ []) :
    scanFields q.text.length q.rest =
      if q.body.length ≤ 2 then do
        let _ ← advance q.body 2
        pure (fieldsOf q.lines, none, .finished)
      else pure (fieldsOf q.lines, some q.body, .finished) := by
  have hlen := q.length_text
  have hpos := List.length_pos_iff.mpr hbody
  obtain ⟨n, hn⟩ : ∃ n, q.text.length = n + 1 + q.lines.length :=
    ⟨q.text.length - q.lines.length - 1, by omega⟩
  have htail : 2 < (crlf ++ q.body).length := by
    rw [List.length_append, show crlf.length = 2 from rfl]
    omega
  rw [hn, rest, scanFields_lines htail (n + 1) h.fieldLine, scanFields_blank]
  by_cases hshort : q.body.length ≤ 2
  · rw [if_pos hshort, if_pos hshort]
    cases advance q.body 2 with
    | error e => rfl
    | ok s => simp [ok_bind, pure, Except.pure]
  · rw [if_neg hshort, if_neg hshort]
    simp [ok_bind, pure, Except.pure]

/-- With a field and no body the shortcut fires behind the last field. -/
theorem scanFields_bodyless {q : LinedRequest} (h : q.WellFormed)
    (hbody : q.body = []) (hlines : q.lines ≠ []) :
    scanFields q.text.length q.rest
      = .ok (fieldsOf q.lines, none, .finished) := by
  have hlen := q.length_text
  obtain ⟨lines, last, hlast⟩ :=
    (List.eq_nil_or_concat q.lines).resolve_left hlines
  rw [List.concat_eq_append] at hlast
  have hfields := h.fieldLine
  rw [hlast] at hfields
  have hwhole := (hfields last (by simp)).whole
  rw [hlast, List.length_append] at hlen
  obtain ⟨n, hn⟩ : ∃ n, q.text.length = n + 1 + lines.length :=
    ⟨q.text.length - lines.length - 1, by omega⟩
  have htail : 2 < (linesText [last] (crlf ++ [])).length := by
    simp only [linesText, List.length_append, show crlf.length = 2 from rfl]
    omega
  rw [hn, rest, hlast, hbody, linesText_append,
    scanFields_lines htail (n + 1) fun l hl => hfields l (by simp [hl])]
  simp only [linesText, List.append_nil]
  rw [scanFields_cut hwhole, if_pos (by decide)]
  simp [advance, fieldsOf, show crlf.length = 2 from rfl, pure, Except.pure,
    List.filterMap_cons]
  cases matchHeaderLine last with
  | none => rfl
  | some field => rfl

/-- With neither, the shortcut skips two bytes that are not there. -/
theorem scanFields_bare {q : LinedRequest} (hbody : q.body = [])
    (hlines : q.lines = []) :
    scanFields q.text.length q.rest
      = .error (.assertFailed .updateReadp) := by
  have hlen := q.length_text
  obtain ⟨n, hn⟩ : ∃ n, q.text.length = n + 1 :=
    ⟨q.text.length - 1, by omega⟩
  rw [hn, rest, hlines, hbody, linesText, scanFields_blank]
  rfl

end LinedRequest

end TinyWebServer
