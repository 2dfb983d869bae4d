import TinyWebServer.Proofs.Connector
import TinyWebServer.Proofs.FormStream

/-!
# The bytes that stop the parser

Two places move the read cursor by a length nobody has checked. A line without
a CRLF is taken to the end of the data and the cursor is asked to go two bytes
further; and behind a line of the header section the shortcut for an empty
body skips two bytes whenever at most two are left, also when there is one, or
none. Both fail the assertion of `Update_Readp`.

`Complete` says which bytes keep clear of both, line by line, and
`readBuff_survives_iff` that no others do. A form body has a third way to go
wrong that no assertion guards: a `%` with fewer than two bytes behind it is
read, and written, past the end.
-/

namespace TinyWebServer

open Lib

namespace HttpRequest

/-- The header section from some line on. Every line has its CRLF. Behind the
last one that is read there are exactly two bytes, which the shortcut skips,
or at least three, which are the body if the line was no header field; `B`
is what is asked of a body under the header map it is read with. -/
inductive Sections (B : Dict Bytes Bytes → Bytes → Prop) :
    Dict Bytes Bytes → Bytes → Prop
  | done (headers) : Sections B headers []
  | stop (headers) {line rest} : ¬ crlf <:+: line → rest.length = 2 →
      Sections B headers (line ++ (crlf ++ rest))
  | field (headers) {line rest name value} : ¬ crlf <:+: line →
      matchHeaderLine line = some (name, value) → 2 < rest.length →
      Sections B (headers.insert name value) rest →
      Sections B headers (line ++ (crlf ++ rest))
  | body (headers) {line rest} : ¬ crlf <:+: line →
      matchHeaderLine line = none → 2 < rest.length → B headers rest →
      Sections B headers (line ++ (crlf ++ rest))

/-- A text the parser gets through: its first line has a CRLF, and if it is a
request line the header section is in order. -/
def Complete (B : Bytes → Dict Bytes Bytes → Bytes → Prop)
    (headers : Dict Bytes Bytes) (s : Bytes) : Prop :=
  ∃ line rest, s = line ++ (crlf ++ rest) ∧ ¬ crlf <:+: line ∧
    ∀ method target version,
      matchRequestLine line = some (method, target, version) →
        Sections (B method) headers rest

/-- A body that the form decoder, if it is given it, stays inside of. -/
def FormReadable (method : Bytes) (headers : Dict Bytes Bytes)
    (bytes : Bytes) : Prop :=
  method = lit "POST" → headers (lit "Content-Type") = some formType →
    EscapedTo (toInt bytes.length).toNat bytes

theorem Sections.mono {B B' : Dict Bytes Bytes → Bytes → Prop}
    (hB : ∀ headers bytes, B headers bytes → B' headers bytes)
    {headers : Dict Bytes Bytes} {s : Bytes} (h : Sections B headers s) :
    Sections B' headers s := by
  induction h with
  | done headers => exact .done headers
  | stop headers hline hrest => exact .stop headers hline hrest
  | field headers hline hm hrest _ ih =>
      exact .field headers hline hm hrest ih
  | body headers hline hm hrest hb =>
      exact .body headers hline hm hrest (hB _ _ hb)

theorem complete_congr {B B' : Bytes → Dict Bytes Bytes → Bytes → Prop}
    (hB : ∀ method headers bytes,
      B method headers bytes ↔ B' method headers bytes)
    {headers : Dict Bytes Bytes} {s : Bytes} :
    Complete B headers s ↔ Complete B' headers s := by
  constructor
  · intro hcomplete
    obtain ⟨line, rest, hs, hline, h⟩ := hcomplete
    refine ⟨line, rest, hs, hline, fun method target version hm => ?_⟩
    exact (h method target version hm).mono fun _ _ => (hB _ _ _).mp
  · intro hcomplete
    obtain ⟨line, rest, hs, hline, h⟩ := hcomplete
    refine ⟨line, rest, hs, hline, fun method target version hm => ?_⟩
    exact (h method target version hm).mono fun _ _ => (hB _ _ _).mpr

/-! ## One line -/

variable {B : Dict Bytes Bytes → Bytes → Prop} {headers : Dict Bytes Bytes}
variable {s line rest : Bytes}

/-- A text in order begins with a line. -/
theorem Sections.cut (h : Sections B headers s) (hs : s ≠ []) :
    ∃ line rest, cutLine s = .ok (line, rest) := by
  cases h with
  | done => exact absurd rfl hs
  | stop _ hline _ => exact ⟨_, _, cutLine_ok_iff.mpr ⟨rfl, hline⟩⟩
  | field _ hline _ _ _ => exact ⟨_, _, cutLine_ok_iff.mpr ⟨rfl, hline⟩⟩
  | body _ hline _ _ _ => exact ⟨_, _, cutLine_ok_iff.mpr ⟨rfl, hline⟩⟩

/-- What is asked of a text, by its first line and what stands behind it. -/
theorem sections_iff (hcut : cutLine s = .ok (line, rest)) :
    Sections B headers s ↔ rest.length = 2 ∨ 2 < rest.length ∧
      match matchHeaderLine line with
      | some (name, value) => Sections B (headers.insert name value) rest
      | none => B headers rest := by
  obtain ⟨hs, hline⟩ := cutLine_ok_iff.mp hcut
  constructor
  · intro h
    cases h with
    | done => cases (List.append_eq_nil_iff.mp hs.symm).2
    | stop _ hline' hrest =>
        rw [cutLine_ok_iff.mpr ⟨rfl, hline'⟩] at hcut
        cases hcut
        exact .inl hrest
    | field _ hline' hm hrest hmore =>
        rw [cutLine_ok_iff.mpr ⟨rfl, hline'⟩] at hcut
        cases hcut
        rw [hm]
        exact .inr ⟨hrest, hmore⟩
    | body _ hline' hm hrest hb =>
        rw [cutLine_ok_iff.mpr ⟨rfl, hline'⟩] at hcut
        cases hcut
        rw [hm]
        exact .inr ⟨hrest, hb⟩
  · intro h
    rw [hs]
    rcases h with htwo | ⟨hlong, h⟩
    · exact .stop headers hline htwo
    · cases hm : matchHeaderLine line with
      | some field =>
          rw [hm] at h
          exact .field headers hline hm hlong h
      | none =>
          rw [hm] at h
          exact .body headers hline hm hlong h

/-! ## The whole text -/

variable {F : Fault → Prop}

/-- `FormReadable` if leaving a string is among the failures that count. -/
def FormSafe (F : Fault → Prop) (method : Bytes) (headers : Dict Bytes Bytes)
    (bytes : Bytes) : Prop :=
  method = lit "POST" → headers (lit "Content-Type") = some formType →
    F .outOfBounds → EscapedTo (toInt bytes.length).toNat bytes

theorem scanFields_avoids (hF : F (.assertFailed .updateReadp)) :
    ∀ (n : Nat) {r : HttpRequest} {s : Bytes}, s.length < n →
      (Avoids F (do
          let (fields, body, part) ← scanFields n s
          r.absorbFields fields body part) ↔
        Sections (FormSafe F r.method) r.headers s) := by
  intro n
  induction n with
  | zero => intro r s hn; omega
  | succ n ih =>
      intro r s hn
      rw [scanFields]
      by_cases hs : s = []
      · subst hs
        rw [if_pos rfl]
        exact iff_of_true trivial (.done _)
      rw [if_neg hs]
      cases hcut : cutLine s with
      | error e =>
          have he := cutLine_error hcut
          subst he
          refine iff_of_false (fun h => h hF) fun h => ?_
          obtain ⟨line, rest, hok⟩ := h.cut hs
          rw [hok] at hcut
          cases hcut
      | ok out =>
          obtain ⟨line, rest⟩ := out
          have hlen := cutLine_length hcut
          simp only [ok_bind]
          rw [sections_iff hcut]
          by_cases hshort : rest.length ≤ 2
          · rw [if_pos hshort, or_iff_left (by omega), advance]
            by_cases htwo : rest.length = 2
            · rw [check_pos (by omega)]
              exact iff_of_true trivial htwo
            · rw [check_neg (by omega)]
              exact iff_of_false (fun h => h hF) htwo
          rw [if_neg hshort, or_iff_right (by omega),
            and_iff_right (by omega)]
          cases hm : matchHeaderLine line with
          | some field =>
              have hnext := ih (s := rest) (r :=
                { r with headers := r.headers.insert field.1 field.2 })
                (by omega)
              simp only []
              rw [← hnext]
              cases scanFields n rest with
              | error e => exact Iff.rfl
              | ok out => exact Iff.rfl
          | none =>
              exact handlePostBody_avoids
                { r with body := rest, status := .finished }

theorem digest_avoids (hF : F (.assertFailed .updateReadp)) {r : HttpRequest}
    {s : Bytes} (hs : s ≠ []) :
    Avoids F (r.digest s) ↔ Complete (FormSafe F) r.headers s := by
  rw [digest, scan, check_pos hs]
  cases hcut : cutLine s with
  | error e =>
      have he := cutLine_error hcut
      subst he
      refine iff_of_false (fun h => h hF) fun hcomplete => ?_
      obtain ⟨line, rest, rfl, hline, -⟩ := hcomplete
      rw [cutLine_ok_iff.mpr ⟨rfl, hline⟩] at hcut
      cases hcut
  | ok out =>
      obtain ⟨line, rest⟩ := out
      have hlen := cutLine_length hcut
      have hcomplete : Complete (FormSafe F) r.headers s ↔
          ∀ method target version,
            matchRequestLine line = some (method, target, version) →
              Sections (FormSafe F method) r.headers rest := by
        constructor
        · intro hcomplete
          obtain ⟨line', rest', rfl, hline, h⟩ := hcomplete
          rw [cutLine_ok_iff.mpr ⟨rfl, hline⟩] at hcut
          cases hcut
          exact h
        · intro h
          obtain ⟨rfl, hline⟩ := cutLine_ok_iff.mp hcut
          exact ⟨line, rest, rfl, hline, h⟩
      rw [hcomplete]
      simp only [ok_bind]
      cases hm : matchRequestLine line with
      | none => exact iff_of_true trivial fun _ _ _ h => by cases h
      | some triple =>
          obtain ⟨method, target, version⟩ := triple
          have hfields := scanFields_avoids hF s.length (s := rest) (r :=
            { r with
              code := .fileRequest, method, path := target, version })
            (by omega)
          refine Iff.trans ?_ (hfields.trans ?_)
          · cases scanFields s.length rest with
            | error e => exact Iff.rfl
            | ok out => exact avoids_bind_pure
          · constructor
            · intro h _ _ _ heq
              cases heq
              exact h
            · intro h
              exact h method target version rfl

theorem readBuff_avoids (hF : F (.assertFailed .updateReadp)) {b : Buffer}
    (hb : b.Inv) (hs : b.readable ≠ []) (fs : FileSystem) (r : HttpRequest) :
    Avoids F (r.readBuff fs b) ↔
      Complete (FormSafe F) r.headers b.readable := by
  rw [(readBuff_eq_scan hb fs r).avoids_iff, ← digest_avoids hF hs,
    readContent]
  cases r.digest b.readable with
  | error e => exact Iff.rfl
  | ok out =>
      obtain ⟨fell, r'⟩ := out
      cases fell
      · exact Iff.rfl
      · exact Iff.rfl

/-- `Read_Buff` ends, and ends without a failing assertion, exactly on the
texts that are complete; it also stays inside its strings exactly when a form
in them is escaped. -/
theorem readBuff_survives_iff {b : Buffer} (hb : b.Inv)
    (hs : b.readable ≠ []) (fs : FileSystem) (r : HttpRequest) :
    (((∀ a, r.readBuff fs b ≠ .error (.assertFailed a)) ∧
        r.readBuff fs b ≠ .error .diverged) ↔
      Complete (fun _ _ _ => True) r.headers b.readable) ∧
    ((∃ out, r.readBuff fs b = .ok out) ↔
      Complete FormReadable r.headers b.readable) := by
  constructor
  · have h := readBuff_avoids
      (F := fun e => (∃ a, e = .assertFailed a) ∨ e = .diverged)
      (.inl ⟨_, rfl⟩) hb hs fs r
    rw [avoids_iff] at h
    refine Iff.trans ?_ (h.trans (complete_congr fun method headers bytes =>
      iff_of_true ?_ trivial))
    · constructor
      · intro hboth e he
        obtain ⟨hassert, hdiv⟩ := hboth
        rcases he with ⟨a, rfl⟩ | rfl
        · exact hassert a
        · exact hdiv
      · intro h
        exact ⟨fun a => h _ (.inl ⟨a, rfl⟩), h _ (.inr rfl)⟩
    · intro _ _ hout
      rcases hout with ⟨a, ha⟩ | ha
      · cases ha
      · cases ha
  · rw [← avoids_all_iff, readBuff_avoids trivial hb hs fs r]
    refine complete_congr fun method headers bytes => ?_
    exact ⟨fun h hm hc => h hm hc trivial, fun h hm hc _ => h hm hc⟩

/-- A request with one header field and no body. -/
theorem readBuff_survives_iff_page :
    ∃ out, blankConnector.request.readBuff flatTree
      (Buffer.holding plainGet) = .ok out := by
  refine (readBuff_survives_iff (Buffer.inv_holding (by decide +kernel))
    (by rw [Buffer.readable_holding]; decide +kernel) flatTree
    blankConnector.request).2.mpr ?_
  rw [Buffer.readable_holding]
  refine ⟨lit "GET /a.html HTTP/1.1", lit "Host: b\r\n\r\n",
    by decide +kernel, by decide +kernel, fun _ _ _ _ => ?_⟩
  have hstop : lit "Host: b\r\n\r\n" = lit "Host: b" ++ (crlf ++ crlf) := by
    decide +kernel
  rw [hstop]
  exact .stop _ (by decide +kernel) rfl

/-- A byte and no line end. -/
theorem readBuff_aborts :
    ¬ ∀ (b : Buffer) (fs : FileSystem) (r : HttpRequest),
      b.Inv → b.readable ≠ [] →
        (∀ a, r.readBuff fs b ≠ .error (.assertFailed a)) ∧
          r.readBuff fs b ≠ .error .diverged := by
  intro hall
  have hfail : blankConnector.request.readBuff flatTree
      (Buffer.holding [97]) = .error (.assertFailed .updateReadp) := by rfl
  exact (hall (Buffer.holding [97]) flatTree blankConnector.request
    (Buffer.inv_holding (by simp)) (by simp)).1 _ hfail

end HttpRequest

end TinyWebServer
