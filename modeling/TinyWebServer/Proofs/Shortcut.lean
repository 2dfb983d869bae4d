import TinyWebServer.Proofs.Connector
import TinyWebServer.Proofs.FormStream
import TinyWebServer.Proofs.Lines
import TinyWebServer.Proofs.Target

/-!
# The shortcut for an empty body

After every line of the header section `Read_Buff` looks at how many bytes are
left and, if there are at most two, skips two and is finished. The comment
beside it says what it means to save: the blank line, when nothing follows it.
But the test is made on a count, and after the blank line too.

`readBuffPlain` is the same loop without it, reading the blank line as a line.
The two agree on a request with a body of three bytes or more, or with a header
field and no body. The shortcut stops the process on a body of one byte, or
where neither field nor body is there; a body of two bytes it drops.
-/

namespace TinyWebServer

open Lib

namespace HttpRequest

/-! ## The loop without the shortcut -/

/-- `readLine` without the shortcut. -/
def readLinePlain (r : HttpRequest) (line : Bytes) (b : Buffer) :
    Except Fault ((HttpRequest × Buffer) ⊕ (Bool × HttpRequest × Buffer)) :=
  if r.status = .headers then do
    let (ok, r) ← r.readHeaderLine line
    if ok then pure (.inl (r, b))
    else pure (.inr (false, { r with code := .badRequest }, b))
  else
    r.readLine line b

def readBuffRoundPlain (st : HttpRequest × Buffer) :
    Except Fault ((HttpRequest × Buffer) ⊕ (Bool × HttpRequest × Buffer)) :=
  if 0 < st.2.readableSize ∧ st.1.status ≠ .finished then do
    let (line, b) ← nextLine st.1.status st.2
    st.1.readLinePlain line b
  else
    .ok (.inr (true, st.1, st.2))

def readBuffPlain (fs : FileSystem) (r : HttpRequest) (b : Buffer) :
    Except Fault (HttpRequest × Buffer) := do
  check (0 < b.readableSize) .readBuff
  let r := { r with status := .requestLine, code := .fileRequest }
  let (fell, r, b) ← loop readBuffRoundPlain .diverged (b.readableSize + 1)
    (r, b)
  if fell then pure (r.handlePath fs, b) else pure (r, b)

/-- `readLinePlain` on the readable bytes. -/
def contentReadPlain (r : HttpRequest) (line s : Bytes) :
    Except Fault ((HttpRequest × Bytes) ⊕ (Bool × HttpRequest)) :=
  if r.status = .headers then do
    let (ok, r) ← r.readHeaderLine line
    if ok then pure (.inl (r, s))
    else pure (.inr (false, { r with code := .badRequest }))
  else
    r.contentRead line s

def contentRoundPlain (st : HttpRequest × Bytes) :
    Except Fault ((HttpRequest × Bytes) ⊕ (Bool × HttpRequest)) :=
  if 0 < st.2.length ∧ st.1.status ≠ .finished then do
    let (line, s) ← contentLine st.1.status st.2
    contentReadPlain st.1 line s
  else
    .ok (.inr (true, st.1))

variable {size : Nat}

theorem readLinePlain_agree {b : Buffer} {s : Bytes} (h : Shows size b s)
    (r : HttpRequest) (line : Bytes) :
    Agree (RoundAgree (fun p q => p.1 = q.1 ∧ Shows size p.2 q.2) (Left size))
      (r.readLinePlain line b) (r.contentReadPlain line s) := by
  rw [readLinePlain, contentReadPlain]
  split
  · cases r.readHeaderLine line with
    | error e => rfl
    | ok out =>
        obtain ⟨ok, r'⟩ := out
        cases ok
        · exact ⟨rfl, h.inv, h.size⟩
        · exact ⟨rfl, h⟩
  · exact readLine_agree h r line

/-- `readBuffPlain` on the readable bytes. -/
def readContentPlain (fs : FileSystem) (r : HttpRequest) (s : Bytes) :
    Except Fault HttpRequest := do
  check (s ≠ []) .readBuff
  let r := { r with status := .requestLine, code := .fileRequest }
  let (fell, r) ← loop contentRoundPlain .diverged (s.length + 1) (r, s)
  if fell then pure (r.handlePath fs) else pure r

theorem readBuffPlain_agree {b : Buffer} (h : b.Inv) (fs : FileSystem)
    (r : HttpRequest) :
    Agree (fun p q => p.1 = q) (r.readBuffPlain fs b)
      (r.readContentPlain fs b.readable) := by
  have hsize := h.length_readable
  rw [readBuffPlain, readContentPlain]
  by_cases hpos : 0 < b.readableSize
  · have hs : b.readable ≠ [] := List.length_pos_iff.mp (by omega)
    rw [check_pos hpos, check_pos hs, hsize]
    simp only [ok_bind]
    refine (loop_rel (round_agree readLinePlain_agree) _ _ _
      ⟨rfl, h, rfl, rfl⟩).bind fun p q hpq => ?_
    obtain ⟨fell, r', b'⟩ := p
    obtain ⟨hq, -⟩ := hpq
    cases hq
    cases fell
    · exact rfl
    · exact rfl
  · have hs : b.readable = [] := List.length_eq_zero_iff.mp (by omega)
    rw [check_neg hpos, check_neg (by simpa using hs)]
    rfl

/-! ## What the plain loop makes of a request -/

variable {stuck : Fault}

theorem loopPlain_finished {n : Nat} {r : HttpRequest} {s : Bytes}
    (h : r.status = .finished ∨ s = []) :
    loop contentRoundPlain stuck (n + 1) (r, s) = .ok (true, r) := by
  refine loop_leave ?_
  rw [contentRoundPlain, if_neg]
  intro hgo
  rcases h with h | h
  · exact hgo.2 h
  · rw [h] at hgo; exact absurd hgo.1 (Nat.lt_irrefl _)

/-- A line of the header section, the blank one included. -/
theorem loopPlain_line {n : Nat} {r : HttpRequest} {line rest : Bytes}
    (hr : r.status = .headers) (hline : ¬ crlf <:+: line) :
    loop contentRoundPlain stuck (n + 1) (r, line ++ (crlf ++ rest))
      = loop contentRoundPlain stuck n
          (match matchHeaderLine line with
            | some (name, value) =>
                { r with headers := r.headers.insert name value }
            | none => { r with status := .body }, rest) := by
  have hpos : 0 < (line ++ (crlf ++ rest)).length := by
    simp only [List.length_append, show crlf.length = 2 from rfl]
    omega
  refine loop_round ?_
  rw [contentRoundPlain, if_pos ⟨hpos, by rw [hr]; exact HttpPart.noConfusion⟩]
  simp only [contentLine, hr, ne_eq, reduceCtorEq, not_false_eq_true, if_true,
    cutLine_ok_iff.mpr ⟨rfl, hline⟩, ok_bind, contentReadPlain,
    readHeaderLine, check_pos]
  cases matchHeaderLine line with
  | none => rfl
  | some field => rfl

theorem loopPlain_lines {lines : List Bytes} {tail : Bytes} (n : Nat) :
    ∀ {r : HttpRequest}, r.status = .headers →
      (∀ line ∈ lines, FieldLine line) →
      loop contentRoundPlain stuck (n + lines.length) (r, linesText lines tail)
        = loop contentRoundPlain stuck n
            ({ r with headers := r.headers.insertAll (fieldsOf lines) },
              tail) := by
  induction lines with
  | nil => intro r _ _; rfl
  | cons line lines ih =>
      intro r hr hlines
      have hline := hlines line (by simp)
      obtain ⟨field, hfield⟩ := Option.isSome_iff_exists.mp hline.isField
      show loop contentRoundPlain stuck (n + lines.length + 1)
        (r, line ++ (crlf ++ linesText lines tail)) = _
      have hnext := ih (r :=
        { r with headers := r.headers.insert field.1 field.2 }) hr
        fun l hl => hlines l (by simp [hl])
      rw [loopPlain_line hr hline.whole, hfield]
      refine hnext.trans ?_
      simp only [fieldsOf, List.filterMap_cons, hfield]
      rfl

theorem loopPlain_body {n : Nat} {r : HttpRequest} {s : Bytes}
    (hr : r.status = .body) (hs : s ≠ []) :
    loop contentRoundPlain stuck (n + 2) (r, s)
      = (do let r ← r.readBodyLine s; pure (true, r)) := by
  have hpos : 0 < s.length := List.length_pos_iff.mpr hs
  have hround : contentRoundPlain (r, s)
      = (do let r ← r.readBodyLine s; pure (.inl (r, []))) := by
    rw [contentRoundPlain,
      if_pos ⟨hpos, by rw [hr]; exact HttpPart.noConfusion⟩]
    simp only [contentLine, hr, ne_eq, not_true, if_false, contentReadPlain,
      contentRead, reduceCtorEq]
    rfl
  rw [loop, hround]
  cases hb : r.readBodyLine s with
  | error e => rfl
  | ok r' => exact loopPlain_finished (.inr rfl)

/-- Reading a body writes the body, the form and the parser's state. -/
theorem readBodyLine_frame {r a : HttpRequest} {s : Bytes}
    (h : r.readBodyLine s = .ok a) :
    a = { r with body := a.body, form := a.form, status := .finished } := by
  rw [readBodyLine_eq, handlePostBody] at h
  split at h
  · rw [handleForm_eq] at h
    obtain ⟨d, -, h⟩ := bind_ok_iff.mp h
    cases h
    rfl
  · cases h
    rfl

/-! ## Two bytes as a form -/

/-- What a byte that opens no escape is rewritten in. -/
def spaced (ch : UInt8) : UInt8 := if ch = 43 then 32 else ch

/-- One round of the form decoder on such a byte. -/
theorem pairRound_plain {n : Int} {st : PairState} {b : UInt8}
    (hget : st.body[st.i]? = some b) (hi : (st.i : Int) < n)
    (hb : b ≠ 37) :
    pairRound n st = .ok (.inl
      { body := st.body.set st.i (spaced b), i := st.i + 1
        key := if b = 61 then st.substr else st.key
        j := if b = 61 ∨ b = 38 then st.i + 1 else st.j
        pairs := if b = 38 then st.pairs ++ [(st.key, st.substr)]
          else st.pairs }) := by
  have hsame := set_same hget
  rw [pairRound, if_neg (not_not.mpr hi), hget, spaced]
  by_cases heq : b = 61
  · simp only [heq] at hsame
    simp [heq, hsame]
  by_cases hplus : b = 43
  · simp [hplus]
  by_cases hamp : b = 38
  · simp only [hamp] at hsame
    simp [hamp, hsame]
  · simp [heq, hplus, hb, hamp, hsame]

/-- What the first byte leaves in hand for the second. -/
def inHand (x : UInt8) : Bytes := if x = 61 ∨ x = 38 then [] else [spaced x]

/-- Nothing is ever stored but under the empty key. -/
theorem decodeForm_two {x y : UInt8} (hx : x ≠ 37) (hy : y ≠ 37) :
    decodeForm [x, y] = .ok
      { body := [spaced x, spaced y]
        pairs := (if x = 38 then [([], [])] else []) ++
          if y = 38 then [([], inHand x)] else []
        last := if y = 61 ∨ y = 38 then none
          else some ([], inHand x ++ [spaced y]) } := by
  have hn : toInt [x, y].length = 2 := by
    rw [show [x, y].length = 2 from rfl]
    decide
  rw [decodeForm, if_neg (List.cons_ne_nil _ _), hn]
  show (do
    let st ← loop (pairRound 2) .diverged 3 ⟨[x, y], [], 0, 0, []⟩
    _) = _
  rw [loop_round (pairRound_plain (b := x) rfl
      (by show (0 : Int) < 2; decide) hx),
    loop_round (pairRound_plain (b := y) rfl
      (by show (1 : Int) < 2; decide) hy),
    loop_leave (pairRound_leave (by show ¬ (2 : Int) < 2; decide))]
  simp only [ok_bind]
  by_cases h₁ : x = 61
  all_goals by_cases h₂ : x = 38
  all_goals by_cases h₃ : y = 61
  all_goals by_cases h₄ : y = 38
  all_goals simp_all [PairState.substr, inHand]

/-- An escape leaves the two bytes. -/
theorem decodeForm_two_escape {x y : UInt8} (h : x = 37 ∨ y = 37)
    (d : FormBody) : decodeForm [x, y] ≠ .ok d := by
  intro hd
  have hn : (toInt [x, y].length).toNat = 2 := by
    rw [show [x, y].length = 2 from rfl]
    decide
  have hescaped := decodeForm_ok_iff.mp ⟨d, hd⟩
  rw [hn] at hescaped
  by_cases hx : x = 37
  · simp [EscapedTo, hx] at hescaped
  · simp [EscapedTo, hx, h.resolve_left hx] at hescaped

/-- A form in which `x` and `y` change nothing: what an `&` stores is there
already, and what is left over finds its key taken. -/
def Unchanged (form : Dict Bytes Bytes) (x y : UInt8) : Prop :=
  if x = 38 then form [] = some []
  else if y = 38 then form [] = some (inHand x)
  else y = 61 ∨ form [] ≠ none

theorem storeForm_two_iff {form : Dict Bytes Bytes} {x y : UInt8} :
    storeForm form
      { body := [spaced x, spaced y]
        pairs := (if x = 38 then [([], [])] else []) ++
          if y = 38 then [([], inHand x)] else []
        last := if y = 61 ∨ y = 38 then none
          else some ([], inHand x ++ [spaced y]) } = form ↔
    Unchanged form x y := by
  rw [storeForm, Unchanged]
  by_cases hx : x = 38
  · by_cases hy : y = 61
    · simp [hx, hy, Dict.insert_eq_self_iff]
    by_cases hamp : y = 38
    · have htwice : (form.insert [] []).insert [] [] = form.insert [] [] :=
        Dict.insert_eq_self_iff.mpr (Dict.insert_self ..)
      simp [hx, hamp, inHand, htwice, Dict.insert_eq_self_iff]
    · simp [hx, hy, hamp, Dict.insert_eq_self_iff]
  · by_cases hy : y = 61
    · simp [hx, hy]
    by_cases hamp : y = 38
    · simp [hx, hamp, Dict.insert_eq_self_iff]
    by_cases hnone : form [] = none
    · simp [hx, hy, hamp, hnone, Dict.insert_eq_self_iff]
    · simp [hx, hy, hamp, hnone]

/-! ## The two loops on one request -/

/-- What is compared: everything but the parser's own state and the three
fields that only `_Handle_Path` writes. -/
structure Outcome where
  method : Bytes
  version : Bytes
  headers : Dict Bytes Bytes
  form : Dict Bytes Bytes
  body : Bytes
  code : HttpCode
  path : Bytes

def outcome (r : HttpRequest) : Outcome :=
  ⟨r.method, r.version, r.headers, r.form, r.body, r.code, r.path⟩

end HttpRequest

namespace LinedRequest

open HttpRequest

theorem readContentPlain_text {q : LinedRequest} (h : q.WellFormed)
    (fs : FileSystem) (r : HttpRequest) :
    r.readContentPlain fs q.text =
      if q.body = [] then .ok ((q.headed r).handlePath fs)
      else (do
        let a ← (q.headed r).readBodyLine q.body
        pure (a.handlePath fs)) := by
  have hlen := q.length_text
  obtain ⟨n, hn⟩ : ∃ n, q.text.length = n + 2 + 1 + q.lines.length :=
    ⟨q.text.length - q.lines.length - 3, by omega⟩
  have hfirst : contentRoundPlain
      ({ r with status := .requestLine, code := .fileRequest }, q.text)
      = .ok (.inl (q.start r, q.rest)) := by
    have hpos := List.length_pos_iff.mpr q.text_ne_nil
    have hmatch : matchRequestLine q.requestLine = some q.parts :=
      (Option.some_get q.valid).symm
    rw [contentRoundPlain, if_pos ⟨hpos, HttpPart.noConfusion⟩]
    simp only [contentLine, ne_eq, reduceCtorEq, not_false_eq_true, if_true,
      text, cutLine_ok_iff.mpr ⟨rfl, q.whole⟩, ok_bind, contentReadPlain,
      if_false, contentRead, readRequestLine, check_pos, hmatch]
    rfl
  have hblank : loop contentRoundPlain .diverged (n + 2 + 1)
      ({ q.start r with headers := r.headers.insertAll (fieldsOf q.lines) },
        crlf ++ q.body)
      = loop contentRoundPlain .diverged (n + 2) (q.headed r, q.body) :=
    loopPlain_line rfl not_infix_blank
  have hstart : (q.start r).headers = r.headers := rfl
  rw [readContentPlain, check_pos q.text_ne_nil]
  simp only [ok_bind]
  rw [loop_round hfirst, hn, rest, loopPlain_lines (n + 2 + 1) rfl h.fieldLine,
    hstart, hblank]
  by_cases hbody : q.body = []
  · rw [if_pos hbody, hbody, loopPlain_finished (.inr rfl)]
    rfl
  · rw [if_neg hbody, loopPlain_body rfl hbody]
    cases (q.headed r).readBodyLine q.body with
    | error e => rfl
    | ok a => rfl

/-- The body is read as it is. -/
theorem readContent_long {q : LinedRequest} (h : q.WellFormed)
    (hbody : 2 < q.body.length) (fs : FileSystem) (r : HttpRequest) :
    r.readContent fs q.text = (do
      let a ← (q.headed r).readBodyLine q.body
      pure (a.handlePath fs)) := by
  have hne : q.body ≠ [] := List.length_pos_iff.mp (by omega)
  rw [readContent, digest_text, scanFields_rest h hne, if_neg (by omega)]
  have habs : (q.start r).absorbFields (fieldsOf q.lines) (some q.body)
      .finished = (q.headed r).readBodyLine q.body := by
    rw [readBodyLine_eq]
    rfl
  simp only [pure, Except.pure, ok_bind, habs]
  cases (q.headed r).readBodyLine q.body with
  | error e => rfl
  | ok a => rfl

/-- The body is skipped, if there was one. -/
theorem readContent_skipped {q : LinedRequest} (h : q.WellFormed)
    (hbody : (q.body = [] ∧ q.lines ≠ []) ∨ q.body.length = 2)
    (fs : FileSystem) (r : HttpRequest) :
    r.readContent fs q.text
      = .ok (handlePath fs { q.headed r with status := .finished }) := by
  have hscan : scanFields q.text.length q.rest
      = .ok (fieldsOf q.lines, none, .finished) := by
    rcases hbody with ⟨hnil, hlines⟩ | htwo
    · exact scanFields_bodyless h hnil hlines
    · have hne : q.body ≠ [] := List.length_pos_iff.mp (by omega)
      rw [scanFields_rest h hne, if_pos (by omega), advance,
        check_pos (by omega)]
      rfl
  rw [readContent, digest_text, hscan]
  rfl

/-- Two bytes are skipped that are not there. -/
theorem readContent_aborts {q : LinedRequest} (h : q.WellFormed)
    (hbody : (q.body = [] ∧ q.lines = []) ∨ q.body.length = 1)
    (fs : FileSystem) (r : HttpRequest) :
    r.readContent fs q.text = .error (.assertFailed .updateReadp) := by
  have hscan : scanFields q.text.length q.rest
      = .error (.assertFailed .updateReadp) := by
    rcases hbody with ⟨hnil, hlines⟩ | hone
    · exact scanFields_bare hnil hlines
    · have hne : q.body ≠ [] := List.length_pos_iff.mp (by omega)
      rw [scanFields_rest h hne, if_pos (by omega), advance,
        check_neg (by omega)]
      rfl
  rw [readContent, digest_text, hscan]
  rfl

/-- The short bodies that do not stop the process. -/
theorem skipped_of_short {q : LinedRequest} (hshort : q.body.length ≤ 2)
    (hbad : ¬ ((q.body = [] ∧ q.lines = []) ∨ q.body.length = 1)) :
    (q.body = [] ∧ q.lines ≠ []) ∨ q.body.length = 2 := by
  by_cases hnil : q.body = []
  · exact .inl ⟨hnil, fun hlines => hbad (.inl ⟨hnil, hlines⟩)⟩
  · have hpos := List.length_pos_iff.mpr hnil
    have hone : q.body.length ≠ 1 := fun hone => hbad (.inr hone)
    exact .inr (by omega)

/-- A body would be decoded as a form, by the request's own fields or by
earlier ones. -/
def AsForm (q : LinedRequest) (r : HttpRequest) : Prop :=
  q.parts.1 = lit "POST" ∧
    r.headers.insertAll (fieldsOf q.lines) (lit "Content-Type")
      = some formType

instance (q : LinedRequest) (r : HttpRequest) : Decidable (q.AsForm r) :=
  inferInstanceAs (Decidable (_ ∧ _))

/-- Two bytes that the request holds already: as its body, and as a form in
its form. -/
def Held (q : LinedRequest) (r : HttpRequest) (x y : UInt8) : Prop :=
  if q.AsForm r then
    x ≠ 37 ∧ y ≠ 37 ∧ r.body = [spaced x, spaced y] ∧ Unchanged r.form x y
  else
    r.body = [x, y]

/-- Where the shortcut does no harm: there is a body it cannot see, or no body
and a field to fire behind; or the two bytes it drops are held already. -/
def ShortcutHarmless (q : LinedRequest) (r : HttpRequest) : Prop :=
  3 ≤ q.body.length ∨ (q.body = [] ∧ q.lines ≠ []) ∨
    ∃ x y, q.body = [x, y] ∧ q.Held r x y

theorem readBodyLine_headed (q : LinedRequest) (r : HttpRequest)
    (s : Bytes) :
    (q.headed r).readBodyLine s =
      if q.AsForm r then
        handleForm { q.headed r with body := s, status := .finished }
      else .ok { q.headed r with body := s, status := .finished } := by
  rw [readBodyLine_eq]
  rfl

theorem readBodyLine_two_iff {q : LinedRequest} (r : HttpRequest)
    {x y : UInt8} :
    (∃ a, (q.headed r).readBodyLine [x, y] = .ok a ∧ a.body = r.body ∧
      a.form = r.form) ↔ q.Held r x y := by
  rw [readBodyLine_headed, Held]
  by_cases hform : q.AsForm r
  · rw [if_pos hform, if_pos hform, handleForm_eq]
    by_cases hescape : x = 37 ∨ y = 37
    · refine iff_of_false (fun hread => ?_) (fun h => ?_)
      · obtain ⟨a, ha, -⟩ := hread
        obtain ⟨d, hd, -⟩ := bind_ok_iff.mp ha
        exact decodeForm_two_escape hescape d hd
      · exact hescape.elim h.1 h.2.1
    · rw [not_or] at hescape
      rw [decodeForm_two hescape.1 hescape.2]
      simp only [ok_bind, pure, Except.pure, Except.ok.injEq,
        exists_eq_left', and_iff_right hescape.1, and_iff_right hescape.2]
      exact and_congr eq_comm storeForm_two_iff
  · rw [if_neg hform, if_neg hform]
    constructor
    · intro hread
      obtain ⟨a, ha, hbody, -⟩ := hread
      cases ha
      exact hbody.symm
    · intro hbody
      exact ⟨_, rfl, hbody.symm, rfl⟩

theorem handlePath_skipped (q : LinedRequest) (fs : FileSystem)
    (r : HttpRequest) :
    handlePath fs { q.headed r with status := .finished }
      = { (q.headed r).handlePath fs with
          status := .finished, body := r.body, form := r.form } :=
  handlePath_with fs (q.headed r) .finished r.body r.form

/-- A body read over a request and one not read differ in body and form. -/
theorem outcome_skipped_iff {q : LinedRequest} (fs : FileSystem)
    (r : HttpRequest) :
    Except.map outcome
        (.ok (handlePath fs { q.headed r with status := .finished }))
      = Except.map outcome (do
          let a ← (q.headed r).readBodyLine q.body
          pure (a.handlePath fs)) ↔
    ∃ a, (q.headed r).readBodyLine q.body = .ok a ∧
      a.body = r.body ∧ a.form = r.form := by
  rw [handlePath_skipped]
  cases hread : (q.headed r).readBodyLine q.body with
  | error e =>
      constructor
      · intro h; cases h
      · intro h
        obtain ⟨a, ha, -⟩ := h
        cases ha
  | ok a =>
      have ha := readBodyLine_frame hread
      have htake : a.handlePath fs
          = { (q.headed r).handlePath fs with
              status := .finished, body := a.body, form := a.form } := by
        rw [ha]
        exact handlePath_with fs (q.headed r) .finished a.body a.form
      simp only [ok_bind, htake, pure, Except.pure, Except.map, outcome,
        Except.ok.injEq, Outcome.mk.injEq, true_and, and_true]
      constructor
      · intro h
        exact ⟨a, rfl, h.2.symm, h.1.symm⟩
      · intro h
        obtain ⟨a', ha', hbody, hform⟩ := h
        cases ha'
        exact ⟨hform.symm, hbody.symm⟩

/-- The two readers on the bytes of a well-formed request. -/
theorem readContent_agrees_iff {q : LinedRequest} (h : q.WellFormed)
    (fs : FileSystem) (r : HttpRequest) :
    ((r.readContent fs q.text).map outcome
        = (r.readContentPlain fs q.text).map outcome ∧
      ∀ a, r.readContent fs q.text ≠ .error (.assertFailed a)) ↔
    q.ShortcutHarmless r := by
  rw [readContentPlain_text h, ShortcutHarmless]
  rcases Nat.lt_or_ge 2 q.body.length with hlong | hshort
  · have hne : q.body ≠ [] := List.length_pos_iff.mp (by omega)
    rw [readContent_long h hlong, if_neg hne]
    have hread : Avoids (fun e => ∃ a, e = .assertFailed a) (do
        let a ← (q.headed r).readBodyLine q.body
        pure (a.handlePath fs)) :=
      avoids_bind_pure.mpr (readBodyLine_asserts _ _)
    exact iff_of_true ⟨rfl, fun a => avoids_iff.mp hread _ ⟨a, rfl⟩⟩
      (.inl hlong)
  by_cases hbad : (q.body = [] ∧ q.lines = []) ∨ q.body.length = 1
  · rw [readContent_aborts h hbad]
    refine iff_of_false (fun hsame => hsame.2 _ rfl) ?_
    rcases hbad with ⟨hnil, hlines⟩ | hone
    · simp [hnil, hlines]
    · intro hor
      rcases hor with hlong | ⟨hnil, -⟩ | ⟨x, y, htwo, -⟩
      · omega
      · rw [hnil] at hone; cases hone
      · rw [htwo] at hone; cases hone
  have hskip := skipped_of_short hshort hbad
  rw [readContent_skipped h hskip, and_iff_left (fun a ha => by cases ha)]
  by_cases hnil : q.body = []
  · rw [if_pos hnil]
    have hlines := (hskip.resolve_right (by simp [hnil])).2
    refine iff_of_true (congrArg Except.ok ?_) (.inr (.inl ⟨hnil, hlines⟩))
    rw [handlePath_skipped, handlePath_frame fs (q.headed r)]
    rfl
  · have hlen := hskip.resolve_left fun hor => hnil hor.1
    obtain ⟨x, y, htwo⟩ := List.length_eq_two.mp hlen
    rw [if_neg hnil, outcome_skipped_iff, htwo, readBodyLine_two_iff]
    constructor
    · intro hheld
      exact .inr (.inr ⟨x, y, rfl, hheld⟩)
    · intro hor
      rcases hor with hlong | ⟨hempty, -⟩ | ⟨x', y', heq, hheld⟩
      · simp at hlong
      · cases hempty
      · cases heq
        exact hheld

/-- On a well-formed request the loop with the shortcut does what the loop
without it does exactly when the shortcut is harmless there. -/
theorem shortcut_agrees_iff {q : LinedRequest} (h : q.WellFormed)
    {b : Buffer} (hb : b.Inv) (hs : b.readable = q.text) (fs : FileSystem)
    (r : HttpRequest) :
    ((r.readBuff fs b).map (fun p => p.1.outcome)
        = (r.readBuffPlain fs b).map (fun p => p.1.outcome) ∧
      ∀ a, r.readBuff fs b ≠ .error (.assertFailed a)) ↔
    q.ShortcutHarmless r := by
  have hreal := readBuff_eq_scan hb fs r
  have hplain := readBuffPlain_agree hb fs r
  rw [hs] at hreal hplain
  have hassert : (∀ a, r.readBuff fs b ≠ .error (.assertFailed a)) ↔
      ∀ a, r.readContent fs q.text ≠ .error (.assertFailed a) := by
    have := hreal.avoids_iff (F := fun e => ∃ a, e = .assertFailed a)
    rw [avoids_iff, avoids_iff] at this
    simpa using this
  rw [(hreal.mono fun _ _ hpq => congrArg outcome hpq.1).map_eq,
    (hplain.mono fun _ _ hpq => congrArg outcome hpq).map_eq, hassert]
  exact readContent_agrees_iff h fs r

/-- `plainGet` as its lines. -/
def page : LinedRequest where
  requestLine := lit "GET /a.html HTTP/1.1"
  lines := [lit "Host: b"]
  body := []
  whole := by decide +kernel
  wholeLines := by
    intro line hline
    rw [List.mem_singleton] at hline
    subst hline
    decide +kernel
  valid := by decide +kernel

/-- A field and no body. -/
theorem shortcut_agrees_iff_page :
    (blankConnector.request.readBuff flatTree (Buffer.holding page.text)).map
        (fun p => p.1.outcome)
      = (blankConnector.request.readBuffPlain flatTree
          (Buffer.holding page.text)).map (fun p => p.1.outcome) ∧
    ∀ a, blankConnector.request.readBuff flatTree (Buffer.holding page.text)
      ≠ .error (.assertFailed a) := by
  have hfields : page.WellFormed := by
    intro line hline
    rw [List.mem_singleton.mp hline]
    decide +kernel
  exact (shortcut_agrees_iff hfields (Buffer.inv_holding page.text_ne_nil)
    (Buffer.readable_holding _) flatTree blankConnector.request).mpr
    (.inr (.inl ⟨rfl, List.cons_ne_nil _ _⟩))

/-- A request line, the blank line and nothing else. -/
def bare : LinedRequest where
  requestLine := lit "GET /a.html HTTP/1.1"
  lines := []
  body := []
  whole := by decide +kernel
  wholeLines := by intro line hline; cases hline
  valid := by decide +kernel

/-- The plain loop reads it; the shortcut stops the process. -/
theorem shortcut_disagrees :
    ¬ ∀ (q : LinedRequest) (b : Buffer) (fs : FileSystem) (r : HttpRequest),
      q.WellFormed → b.Inv → b.readable = q.text →
        (r.readBuff fs b).map (fun p => p.1.outcome)
            = (r.readBuffPlain fs b).map (fun p => p.1.outcome) ∧
          ∀ a, r.readBuff fs b ≠ .error (.assertFailed a) := by
  intro hall
  have hfields : bare.WellFormed := by intro line hline; cases hline
  have hb := Buffer.inv_holding bare.text_ne_nil
  have hread := readBuff_eq_scan hb flatTree blankConnector.request
  rw [Buffer.readable_holding,
    readContent_aborts hfields (.inl ⟨rfl, rfl⟩)] at hread
  exact (hall bare (Buffer.holding bare.text) flatTree blankConnector.request
    hfields hb (Buffer.readable_holding _)).2 _ hread.error_right

end LinedRequest

end TinyWebServer
