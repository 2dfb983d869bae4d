import TinyWebServer.Proofs.Lines

/-!
# Requests as clients write them

A well-formed request and its bytes, and what the parser reads in them when
they are all it has. The header lines come back as they were written. The body
does too if it has at least three bytes; the shortcut for an empty body, which
fires when at most two bytes are left, swallows a body of two and stops the
process on a body of one.
-/

namespace TinyWebServer

open Lib

/-- A part of a request line: no space and no line end. -/
structure Plain (s : Bytes) : Prop where
  space : HttpRequest.sp ∉ s
  cr : 13 ∉ s
  lf : 10 ∉ s

/-- A header field: the name has no colon, and neither part a line end. -/
structure PlainField (f : Bytes × Bytes) : Prop where
  colon : HttpRequest.colon ∉ f.1
  nameCr : 13 ∉ f.1
  nameLf : 10 ∉ f.1
  valueCr : 13 ∉ f.2
  valueLf : 10 ∉ f.2

structure RequestText where
  method : Bytes
  target : Bytes
  version : Bytes
  fields : List (Bytes × Bytes)
  body : Bytes
  plainMethod : Plain method
  plainTarget : Plain target
  plainVersion : Plain version
  plainFields : ∀ f ∈ fields, PlainField f
  someField : fields ≠ []

namespace RequestText

def requestLine (q : RequestText) : Bytes :=
  q.method ++ HttpRequest.sp ::
    (q.target ++ HttpRequest.sp :: (lit "HTTP/" ++ q.version))

def fieldLine (f : Bytes × Bytes) : Bytes := f.1 ++ (lit ": " ++ f.2)

/-- The header lines, the blank line and the body. -/
def tailText (fields : List (Bytes × Bytes)) (body : Bytes) : Bytes :=
  match fields with
  | [] => crlf ++ body
  | f :: rest => fieldLine f ++ (crlf ++ tailText rest body)

def serialize (q : RequestText) : Bytes :=
  q.requestLine ++ (crlf ++ tailText q.fields q.body)

/-- What the parser takes for the body. -/
def takenBody (body : Bytes) : Option Bytes :=
  if 2 < body.length then some body else none

def message (q : RequestText) : Message :=
  { method := q.method, target := q.target, version := q.version
    fields := q.fields, body := takenBody q.body, part := .finished }

/-! ## The lines -/

theorem matchRequestLine_text (q : RequestText) :
    HttpRequest.matchRequestLine q.requestLine
      = some (q.method, q.target, q.version) := by
  have hproto : HttpRequest.sp ∉ lit "HTTP/" ++ q.version := by
    rw [List.mem_append]
    rintro (h | h)
    · exact absurd h (by decide +kernel)
    · exact q.plainVersion.space h
  have hlen : (lit "HTTP/").length = 5 := by decide +kernel
  have hdrop : (lit "HTTP/" ++ q.version).drop 5 = q.version := by
    rw [← hlen, List.drop_left]
  have hpre : (lit "HTTP/").isPrefixOf (lit "HTTP/" ++ q.version) = true :=
    List.isPrefixOf_iff_prefix.mpr (List.prefix_append _ _)
  rw [HttpRequest.matchRequestLine, requestLine,
    dropWhile_ne_append q.plainMethod.space]
  simp only []
  rw [dropWhile_ne_append q.plainTarget.space,
    takeWhile_ne_append q.plainMethod.space,
    takeWhile_ne_append q.plainTarget.space]
  simp only []
  rw [if_pos ⟨hpre, hproto⟩, hdrop]

theorem matchHeaderLine_text {f : Bytes × Bytes} (h : PlainField f) :
    HttpRequest.matchHeaderLine (fieldLine f) = some f := by
  have hsep : lit ": " ++ f.2 = HttpRequest.colon :: HttpRequest.sp :: f.2 := by
    exact congrArg (· ++ f.2)
      (show lit ": " = [HttpRequest.colon, HttpRequest.sp] by decide +kernel)
  rw [HttpRequest.matchHeaderLine, fieldLine, hsep,
    dropWhile_ne_append h.colon, takeWhile_ne_append h.colon]
  simp [h.valueCr, h.valueLf]

theorem fieldLine_cr {f : Bytes × Bytes} (h : PlainField f) :
    13 ∉ fieldLine f := by
  have hsep : 13 ∉ lit ": " := by decide +kernel
  simp only [fieldLine, List.mem_append, not_or]
  exact ⟨h.nameCr, hsep, h.valueCr⟩

theorem requestLine_cr (q : RequestText) : 13 ∉ q.requestLine := by
  have hsp : (13 : UInt8) ≠ HttpRequest.sp := by decide
  have hproto : 13 ∉ lit "HTTP/" := by decide +kernel
  simp only [requestLine, List.mem_append, List.mem_cons, not_or]
  exact ⟨q.plainMethod.cr, hsp, q.plainTarget.cr, hsp, hproto,
    q.plainVersion.cr⟩

/-! ## The header section -/

theorem tailText_length (fields : List (Bytes × Bytes)) (body : Bytes) :
    fields.length + 2 + body.length ≤ (tailText fields body).length := by
  have hcrlf : crlf.length = 2 := by decide
  induction fields with
  | nil => simp only [tailText, List.length_append, hcrlf]; simp
  | cons f fields ih =>
      simp only [tailText, List.length_append, List.length_cons, hcrlf]
      omega

/-! ## Read as lines -/

/-- The request as its lines. -/
def lined (q : RequestText) : LinedRequest where
  requestLine := q.requestLine
  lines := q.fields.map fieldLine
  body := q.body
  whole h := q.requestLine_cr (h.subset (by decide))
  wholeLines := by
    intro line hline h
    obtain ⟨f, hf, rfl⟩ := List.mem_map.mp hline
    exact fieldLine_cr (q.plainFields f hf) (h.subset (by decide))
  valid := by rw [matchRequestLine_text]; rfl

theorem linesText_fields (fields : List (Bytes × Bytes)) (body : Bytes) :
    HttpRequest.linesText (fields.map fieldLine) (crlf ++ body) =
      tailText fields body := by
  induction fields with
  | nil => rfl
  | cons f fields ih => rw [List.map_cons, HttpRequest.linesText, ih, tailText]

theorem text_lined (q : RequestText) : q.lined.text = q.serialize :=
  congrArg (fun s => q.requestLine ++ (crlf ++ s))
    (linesText_fields q.fields q.body)

theorem parts_lined (q : RequestText) :
    q.lined.parts = (q.method, q.target, q.version) := by
  have h := matchRequestLine_text q
  exact Option.get_of_eq_some _ h

theorem wellFormed_lined (q : RequestText) : q.lined.WellFormed := by
  intro line hline
  obtain ⟨f, hf, rfl⟩ := List.mem_map.mp hline
  rw [matchHeaderLine_text (q.plainFields f hf)]
  rfl

theorem fieldsOf_fields {fields : List (Bytes × Bytes)}
    (h : ∀ f ∈ fields, PlainField f) :
    HttpRequest.fieldsOf (fields.map fieldLine) = fields := by
  induction fields with
  | nil => rfl
  | cons f fields ih =>
      rw [List.map_cons, HttpRequest.fieldsOf, List.filterMap_cons,
        matchHeaderLine_text (h f (by simp))]
      exact congrArg (f :: ·) (ih fun g hg => h g (by simp [hg]))

theorem scanFields_lined {q : RequestText} (hbody : q.body.length ≠ 1) :
    scanFields q.lined.text.length q.lined.rest =
      .ok (q.fields, takenBody q.body, .finished) := by
  have hfields : HttpRequest.fieldsOf q.lined.lines = q.fields :=
    fieldsOf_fields q.plainFields
  by_cases hempty : q.body = []
  · have hlines : q.lined.lines ≠ [] :=
      fun h => q.someField (List.map_eq_nil_iff.mp h)
    rw [LinedRequest.scanFields_bodyless q.wellFormed_lined hempty hlines,
      hfields, hempty]
    rfl
  · have hpos := List.length_pos_iff.mpr hempty
    rw [LinedRequest.scanFields_rest q.wellFormed_lined hempty, hfields,
      takenBody]
    show (if q.body.length ≤ 2 then _ else _) = _
    by_cases hshort : q.body.length ≤ 2
    · rw [if_pos hshort, if_neg (by omega)]
      show (do let _ ← advance q.body 2; _) = _
      rw [advance, check_pos (by omega)]
      rfl
    · rw [if_neg hshort, if_pos (by omega)]
      rfl

theorem scan_serialize {q : RequestText} (hbody : q.body.length ≠ 1) :
    scan q.serialize = .ok (some q.message) := by
  rw [← text_lined, LinedRequest.scan_text, scanFields_lined hbody,
    parts_lined]
  rfl

end RequestText

end TinyWebServer
