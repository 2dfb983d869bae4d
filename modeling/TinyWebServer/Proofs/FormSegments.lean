import TinyWebServer.Proofs.FormRoundTrip

/-!
# The segments of a form body

Between two `&` stands a segment, and what a segment means should be its own
business. Two things in the decoder are against it. A segment without `=` is
stored under the key of the last segment that had one, and the last segment of
a body is stored only under a key the form does not have yet, while the others
are stored whatever it has.

So a body in two pieces is not the two pieces one after the other: at the
`Seam` the last segment of the first piece stops being the last one of a body,
and the segments without `=` at the front of the second get a key they had not.
`independent_iff` says when none of this shows.
-/

namespace TinyWebServer

open Lib

namespace HttpRequest

/-! ## What a segment says -/

def plus (s : Bytes) : Bytes := s.map fun ch => if ch = 43 then 32 else ch

/-- What stands behind the last `=`. -/
def behind (s : Bytes) : Bytes := (s.reverse.takeWhile (· ≠ 61)).reverse

/-- What stands in front of it. -/
def before (s : Bytes) : Bytes :=
  ((s.reverse.dropWhile (· ≠ 61)).drop 1).reverse

def segmentValue (s : Bytes) : Bytes := plus (behind s)

/-- The key of a segment, if it has one: what stands between its last two
`=`, or in front of its only one. -/
def segmentKey (s : Bytes) : Option Bytes :=
  if 61 ∈ s then some (plus (behind (before s))) else none

theorem segmentKey_concat_eq (s : Bytes) :
    segmentKey (s ++ [61]) = some (segmentValue s) := by
  simp [segmentKey, segmentValue, before]

theorem segmentValue_concat_eq (s : Bytes) : segmentValue (s ++ [61]) = [] := by
  simp [segmentValue, behind, plus]

variable {s : Bytes} {ch : UInt8}

theorem segmentKey_concat (hch : ch ≠ 61) :
    segmentKey (s ++ [ch]) = segmentKey s := by
  simp [segmentKey, before, hch, Ne.symm hch]

theorem segmentValue_concat (hch : ch ≠ 61) :
    segmentValue (s ++ [ch]) = segmentValue s ++ plus [ch] := by
  simp [segmentValue, behind, hch, plus]

theorem take_plain (c : Cut) (heq : ch ≠ 61) (hamp : ch ≠ 38) :
    c.take ch = c.append (plus [ch]) := by
  rw [Cut.take, if_neg heq, plus, List.map_singleton]
  by_cases hplus : ch = 43
  · rw [if_pos hplus, if_pos hplus]
  · rw [if_neg hplus, if_neg hamp, if_neg hplus]

/-- The decoder on one segment. -/
theorem foldl_segment (k : Bytes) (pairs : List (Bytes × Bytes)) :
    ∀ s : Bytes, 38 ∉ s → s.foldl Cut.take ⟨k, [], pairs⟩ =
      ⟨(segmentKey s).getD k, segmentValue s, pairs⟩ := by
  intro s
  induction s using List.reverseRecOn with
  | nil => exact fun _ => rfl
  | append_singleton s ch ih =>
      intro hamp
      rw [List.mem_append, not_or, List.mem_singleton] at hamp
      rw [List.foldl_append, ih hamp.1, List.foldl_cons, List.foldl_nil]
      by_cases heq : ch = 61
      · subst heq
        rw [segmentKey_concat_eq, segmentValue_concat_eq]
        rfl
      · rw [segmentKey_concat heq, segmentValue_concat heq,
          take_plain _ heq (Ne.symm hamp.2)]
        rfl

/-! ## What a body says -/

/-- What the segments of a body store, in order; `none` stands for the key that
was pending when the body began. -/
def named (pending : Option Bytes) :
    List Bytes → List (Option Bytes × Bytes)
  | [] => []
  | s :: rest =>
      let key := (segmentKey s).or pending
      (key, segmentValue s) :: named key rest

/-- The same when that key is `k`. -/
def under (k : Bytes) (l : List (Option Bytes × Bytes)) :
    List (Bytes × Bytes) :=
  l.map fun p => (p.1.getD k, p.2)

/-- The decoder on a body without escapes, by induction on its size. -/
theorem foldl_body : ∀ (n : Nat) {b : Bytes} (pending : Option Bytes),
    b.length ≤ n →
    ∃ front last, named pending (b.splitOn 38) = front ++ [last] ∧
      ∀ k pairs, b.foldl Cut.take ⟨pending.getD k, [], pairs⟩ =
        ⟨last.1.getD k, last.2, pairs ++ under k front⟩ := by
  intro n
  induction n with
  | zero =>
      intro b pending hn
      obtain rfl := List.length_eq_zero_iff.mp (Nat.le_zero.mp hn)
      exact ⟨[], (pending, []), rfl, fun k pairs => by simp [under]⟩
  | succ n ih =>
      intro b pending hn
      have hkey : ∀ s k, (segmentKey s).getD (pending.getD k)
          = ((segmentKey s).or pending).getD k := by
        intro s k
        cases segmentKey s with
        | none => rfl
        | some key => rfl
      by_cases hamp : 38 ∈ b
      · obtain ⟨s, rest, rfl, hs⟩ := List.eq_append_cons_of_mem hamp
        have hlen : rest.length ≤ n := by
          simp only [List.length_append, List.length_cons] at hn
          omega
        obtain ⟨front, last, hnamed, hfold⟩ :=
          ih ((segmentKey s).or pending) hlen
        refine ⟨((segmentKey s).or pending, segmentValue s) :: front, last,
          ?_, fun k pairs => ?_⟩
        · rw [List.splitOn_append_cons_self_of_not_mem hs, named]
          simp only [hnamed, List.cons_append]
        · rw [List.foldl_append, foldl_segment _ _ s hs, List.foldl_cons, hkey]
          refine (hfold k _).trans ?_
          simp [under]
      · refine ⟨[], ((segmentKey b).or pending, segmentValue b), ?_,
          fun k pairs => ?_⟩
        · rw [List.splitOn_eq_singleton hamp]
          rfl
        · rw [foldl_segment _ _ b hamp, hkey]
          simp [under]

/-! ## What it stores -/

/-- The last pair of a body, stored where it may be. -/
def storeLast (form : Dict Bytes Bytes) (p : Bytes × Bytes) :
    Dict Bytes Bytes :=
  if form p.1 = none ∧ p.2 ≠ [] then form.insert p.1 p.2 else form

theorem storeLast_getD (form : Dict Bytes Bytes) (p : Bytes × Bytes)
    (key d : Bytes) : (storeLast form p key).getD d =
      (form key).getD (if p.1 = key ∧ p.2 ≠ [] then p.2 else d) := by
  rw [storeLast]
  by_cases hkey : p.1 = key
  · subst hkey
    by_cases hnew : form p.1 = none ∧ p.2 ≠ []
    · rw [if_pos hnew, Dict.insert_self, hnew.1, if_pos ⟨rfl, hnew.2⟩]
      rfl
    · rw [if_neg hnew]
      cases hform : form p.1 with
      | none =>
          rw [if_neg fun h => hnew ⟨hform, h.2⟩]
      | some value => rfl
  · have hne : ¬ (p.1 = key ∧ p.2 ≠ []) := fun h => hkey h.1
    rw [if_neg hne]
    split
    · rw [Dict.insert_other _ _ (Ne.symm hkey)]
    · rfl

theorem storeForm_cut {form : Dict Bytes Bytes} {d : FormBody} {c : Cut}
    (h : d.pairs = c.pairs ∧ d.last = c.last) :
    storeForm form d
      = storeLast (form.insertAll c.pairs) (c.key, c.cur) := by
  rw [storeForm, storeLast, h.1, h.2, Cut.last]
  by_cases hcur : c.cur = []
  · rw [if_pos hcur, if_neg fun h => h.2 hcur]
  · rw [if_neg hcur]
    simp only [ne_eq, hcur, not_false_eq_true, and_true]

theorem stream_plain (b : Bytes) (hpct : 37 ∉ b) (c : Cut) :
    stream b.length b c = .ok (b.foldl Cut.take c) := by
  induction b generalizing c with
  | nil => rw [List.length_nil, stream, List.foldl_nil]
  | cons ch s ih =>
      rw [List.mem_cons, not_or] at hpct
      rw [List.length_cons, stream.eq_def]
      simp only [if_neg (Ne.symm hpct.1)]
      exact ih hpct.2 _

/-- `_Handle_Form` on a body without escapes. -/
theorem handleForm_plain (r : HttpRequest) (hpct : 37 ∉ r.body)
    (hsmall : r.body.length < 2 ^ 31) {c : Cut}
    (hc : r.body.foldl Cut.take Cut.start = c) :
    ∃ r', r.handleForm = .ok r' ∧
      r'.form = storeLast (r.form.insertAll c.pairs) (c.key, c.cur) := by
  have hagree := decodeForm_stream r.body
  rw [toInt_of_lt hsmall, Int.toNat_natCast, stream_plain _ hpct, hc] at hagree
  obtain ⟨d, hd, hsame⟩ := hagree.ok_right
  refine ⟨{ r with body := d.body, form := storeForm r.form d }, ?_,
    storeForm_cut hsame⟩
  rw [handleForm_eq, hd]
  rfl

/-! ## Under one key or another -/

/-- Once a segment has had a key, so has every later one. -/
def PendingFirst (l : List (Option Bytes × Bytes)) : Prop :=
  l.Pairwise fun p q => p.1 ≠ none → q.1 ≠ none

theorem named_some (key : Bytes) (segs : List Bytes) :
    ∀ p ∈ named (some key) segs, p.1 ≠ none := by
  induction segs generalizing key with
  | nil =>
      intro p hp
      cases hp
  | cons s rest ih =>
      have hsome : ∃ key', (segmentKey s).or (some key) = some key' := by
        cases segmentKey s with
        | none => exact ⟨key, rfl⟩
        | some key' => exact ⟨key', rfl⟩
      obtain ⟨key', hkey'⟩ := hsome
      simp only [named, hkey']
      intro p hp
      rcases List.mem_cons.mp hp with rfl | hp
      · simp
      · exact ih key' p hp

theorem pendingFirst_named (pending : Option Bytes) (segs : List Bytes) :
    PendingFirst (named pending segs) := by
  induction segs generalizing pending with
  | nil => exact List.Pairwise.nil
  | cons s rest ih =>
      refine List.Pairwise.cons ?_ (ih _)
      intro p hp hsome
      cases hkey : (segmentKey s).or pending with
      | none => exact absurd hkey hsome
      | some key =>
          rw [hkey] at hp
          exact named_some key rest p hp

/-- What is stored under a key when the pending one is `k`: what is stored
under it by name, or else, if it is the pending one, without a name. -/
theorem insertAll_under (k : Bytes) {l : List (Option Bytes × Bytes)}
    (h : PendingFirst l) (key : Bytes) :
    Dict.empty.insertAll (under k l) key =
      (Dict.empty.insertAll l (some key)).or
        (if key = k then Dict.empty.insertAll l none else none) := by
  induction l with
  | nil =>
      show none = Option.or none _
      split <;> rfl
  | cons p l ih =>
      obtain ⟨hp, hl⟩ := List.pairwise_cons.mp h
      have hunder : under k (p :: l) = (p.1.getD k, p.2) :: under k l := rfl
      rw [hunder, Dict.insertAll_empty_cons, ih hl, Dict.insertAll_empty_cons,
        Dict.insertAll_empty_cons]
      cases hpk : p.1 with
      | none =>
          by_cases hkey : key = k
          · simp [hkey]
          · simp [hkey]
      | some name =>
          have hnone : Dict.empty.insertAll l none = none := by
            refine Dict.insertAll_of_not_mem fun hmem => ?_
            obtain ⟨q, hq, hqn⟩ := List.mem_map.mp hmem
            exact hp q hq (by simp [hpk]) hqn
          by_cases hkey : key = name
          · simp [hnone, hkey]
          · simp [hnone, hkey]

/-- What a body makes of a form, when `k` is pending in front of it. -/
theorem storeLast_under (form : Dict Bytes Bytes) (k : Bytes)
    {ended : List (Option Bytes × Bytes)} (h : PendingFirst ended)
    (name value key : Bytes) :
    (storeLast (form.insertAll (under k ended)) (name, value) key).getD [] =
      ((Dict.empty.insertAll ended (some key)).or
        (if key = k then Dict.empty.insertAll ended none else none)).getD
          ((form key).getD (if name = key then value else [])) := by
  have hvalue : (if name = key ∧ value ≠ [] then value else [])
      = if name = key then value else [] := by
    by_cases hnil : value = []
    · simp [hnil]
    · simp [hnil]
  rw [storeLast_getD, hvalue, Dict.insertAll_apply, insertAll_under k h,
    Option.getD_or]

/-! ## The seam -/

/-- What meets where one body ends and the next begins: the form when the last
segment of the first is reached, the key and value it has then, and of the
second what an `&` ends and what its end does, `none` being the pending key. -/
structure Seam where
  held : Dict Bytes Bytes
  key : Bytes
  value : Bytes
  stored : Dict (Option Bytes) Bytes
  lastKey : Option Bytes
  lastValue : Bytes

def seam (form : Dict Bytes Bytes) (b₁ b₂ : Bytes) : Seam :=
  let first := named none (b₁.splitOn 38)
  let second := named none (b₂.splitOn 38)
  { held := form.insertAll (under [] first.dropLast)
    key := (first.getLastD (none, [])).1.getD []
    value := (first.getLastD (none, [])).2
    stored := Dict.empty.insertAll second.dropLast
    lastKey := (second.getLastD (none, [])).1
    lastValue := (second.getLastD (none, [])).2 }

namespace Seam

/-- What the second body's last segment has for a key the form does not have,
where `pending` is the key pending in front of it. -/
def late (j : Seam) (pending key : Bytes) : Bytes :=
  if j.lastKey.getD pending = key then j.lastValue else []

/-- Nothing shows at the seam. In one piece, the second body's segments without
a key go under `j.key`, and `j.value` if there are none; in two pieces they go
under the empty key, and `j.value` is stored if nothing was. So the two are to
agree on both keys, unless the second body stores them again. -/
structure Smooth (j : Seam) : Prop where
  key : j.stored (some j.key) = none →
    (j.key = [] → j.stored none = none) →
    (j.stored none).getD j.value =
      (j.held j.key).getD (if j.value = [] then j.late [] j.key else j.value)
  empty : j.key ≠ [] → j.stored (some []) = none →
    (j.held []).getD (j.late j.key []) =
      (j.stored none).getD ((j.held []).getD (j.late [] []))

/-- What a key holds after the two bodies in one piece. -/
def whole (j : Seam) (key : Bytes) : Bytes :=
  ((j.stored (some key)).or
    (if key = j.key then j.stored none else none)).getD
      (if key = j.key then j.value
        else (j.held key).getD (j.late j.key key))

/-- And after one and the other. -/
def pieces (j : Seam) (key : Bytes) : Bytes :=
  ((j.stored (some key)).or
    (if key = [] then j.stored none else none)).getD
      ((j.held key).getD
        (if j.key = key ∧ j.value ≠ [] then j.value else j.late [] key))

theorem whole_key (j : Seam) : j.whole j.key =
    ((j.stored (some j.key)).or (j.stored none)).getD j.value := by
  rw [whole, if_pos rfl, if_pos rfl]

theorem pieces_key (j : Seam) : j.pieces j.key =
    ((j.stored (some j.key)).or
      (if j.key = [] then j.stored none else none)).getD
        ((j.held j.key).getD
          (if j.value = [] then j.late [] j.key else j.value)) := by
  rw [pieces]
  congr 2
  by_cases hvalue : j.value = []
  · rw [if_pos hvalue, if_neg fun h => h.2 hvalue]
  · rw [if_neg hvalue, if_pos ⟨rfl, hvalue⟩]

theorem agree_key_iff (j : Seam) : j.whole j.key = j.pieces j.key ↔
    (j.stored (some j.key) = none → (j.key = [] → j.stored none = none) →
      (j.stored none).getD j.value = (j.held j.key).getD
        (if j.value = [] then j.late [] j.key else j.value)) := by
  rw [whole_key, pieces_key]
  cases hown : j.stored (some j.key) with
  | some v => simp
  | none =>
      by_cases hnil : j.key = []
      · cases hpending : j.stored none with
        | some v => simp [hnil]
        | none => simp
      · simp [hnil]

theorem agree_empty_iff (j : Seam) (hkey : j.key ≠ []) :
    j.whole [] = j.pieces [] ↔ (j.stored (some []) = none →
      (j.held []).getD (j.late j.key []) =
        (j.stored none).getD ((j.held []).getD (j.late [] []))) := by
  rw [whole, pieces, if_neg (Ne.symm hkey), if_neg (Ne.symm hkey), if_pos rfl,
    if_neg fun h => hkey h.1]
  cases hown : j.stored (some []) with
  | some v => simp
  | none => simp

theorem agree_other (j : Seam) {key : Bytes} (hkey : key ≠ j.key)
    (hnil : key ≠ []) : j.whole key = j.pieces key := by
  have hlate : j.late j.key key = j.late [] key := by
    rw [late, late]
    cases j.lastKey with
    | none =>
        rw [Option.getD_none, Option.getD_none, if_neg (Ne.symm hkey),
          if_neg (Ne.symm hnil)]
    | some name => rfl
  rw [whole, pieces, if_neg hkey, if_neg hkey, if_neg hnil,
    if_neg fun h => hkey h.1.symm, hlate]

/-- Only the two keys can differ. -/
theorem smooth_iff (j : Seam) :
    j.Smooth ↔ ∀ key, j.whole key = j.pieces key := by
  constructor
  · intro h key
    by_cases hkey : key = j.key
    · rw [hkey]
      exact j.agree_key_iff.mpr h.key
    by_cases hnil : key = []
    · subst hnil
      exact (j.agree_empty_iff (Ne.symm hkey)).mpr (h.empty (Ne.symm hkey))
    · exact j.agree_other hkey hnil
  · intro h
    exact ⟨j.agree_key_iff.mp (h j.key),
      fun hkey => (j.agree_empty_iff hkey).mp (h [])⟩

end Seam

/-- `Select_Form` answers the same on every key, whether the decoder gets the
two bodies in one piece or one after the other. -/
def Independent (r : HttpRequest) (b₁ b₂ : Bytes) : Prop :=
  ∃ whole first second,
    { r with body := b₁ ++ 38 :: b₂ }.handleForm = .ok whole ∧
    { r with body := b₁ }.handleForm = .ok first ∧
    { first with body := b₂ }.handleForm = .ok second ∧
    ∀ key, (whole.selectForm key).2 = (second.selectForm key).2

variable {r : HttpRequest} {b₁ b₂ : Bytes}

theorem seam_eq (form : Dict Bytes Bytes)
    {front₁ front₂ : List (Option Bytes × Bytes)} {name₁ name₂ : Option Bytes}
    {v₁ v₂ : Bytes} (h₁ : named none (b₁.splitOn 38) = front₁ ++ [(name₁, v₁)])
    (h₂ : named none (b₂.splitOn 38) = front₂ ++ [(name₂, v₂)]) :
    seam form b₁ b₂ =
      ⟨form.insertAll (under [] front₁), name₁.getD [], v₁,
        Dict.empty.insertAll front₂, name₂, v₂⟩ := by
  simp [seam, h₁, h₂]

/-- The two ways of decoding, and what a key holds after each. -/
theorem decode_seam (h₁ : 37 ∉ b₁) (h₂ : 37 ∉ b₂)
    (hsmall : (b₁ ++ 38 :: b₂).length < 2 ^ 31) :
    ∃ whole first second,
      { r with body := b₁ ++ 38 :: b₂ }.handleForm = .ok whole ∧
      { r with body := b₁ }.handleForm = .ok first ∧
      { first with body := b₂ }.handleForm = .ok second ∧
      (∀ key, (whole.form key).getD [] = (seam r.form b₁ b₂).whole key) ∧
      ∀ key, (second.form key).getD [] = (seam r.form b₁ b₂).pieces key := by
  obtain ⟨front₁, ⟨name₁, v₁⟩, hnamed₁, hfold₁⟩ :=
    foldl_body b₁.length none (Nat.le_refl b₁.length)
  obtain ⟨front₂, ⟨name₂, v₂⟩, hnamed₂, hfold₂⟩ :=
    foldl_body b₂.length none (Nat.le_refl b₂.length)
  have hpending : PendingFirst front₂ := by
    have hall := pendingFirst_named none (b₂.splitOn 38)
    rw [hnamed₂] at hall
    exact (List.pairwise_append.mp hall).1
  -- In one piece, the second body begins with the first one's key pending.
  have hfold : (b₁ ++ 38 :: b₂).foldl Cut.take Cut.start =
      ⟨name₂.getD (name₁.getD []), v₂, under [] front₁ ++
        [(name₁.getD [], v₁)] ++ under (name₁.getD []) front₂⟩ := by
    rw [List.foldl_append, List.foldl_cons]
    rw [show b₁.foldl Cut.take Cut.start = _ from hfold₁ [] []]
    exact hfold₂ _ _
  have hlen : b₁.length < 2 ^ 31 ∧ b₂.length < 2 ^ 31 := by
    rw [List.length_append, List.length_cons] at hsmall
    omega
  obtain ⟨whole, hw, hwhole⟩ := handleForm_plain
    { r with body := b₁ ++ 38 :: b₂ } (by simp [h₁, h₂]) hsmall hfold
  obtain ⟨first, hf, hfirst⟩ :=
    handleForm_plain { r with body := b₁ } h₁ hlen.1 (hfold₁ [] [])
  obtain ⟨second, hs, hsecond⟩ :=
    handleForm_plain { first with body := b₂ } h₂ hlen.2 (hfold₂ [] [])
  rw [seam_eq r.form hnamed₁ hnamed₂]
  refine ⟨whole, first, second, hw, hf, hs, fun key => ?_, fun key => ?_⟩
  · rw [hwhole, Dict.insertAll_append, storeLast_under _ _ hpending, Seam.whole]
    simp only [Dict.insertAll_append, Dict.insertAll_cons, Dict.insertAll_nil,
      Seam.late]
    congr 1
    by_cases hkey : key = name₁.getD []
    · rw [if_pos hkey, hkey, Dict.insert_self, Option.getD_some]
    · rw [if_neg hkey, Dict.insert_other _ _ hkey]
  · rw [hsecond, List.nil_append, storeLast_under _ _ hpending, hfirst,
      storeLast_getD, Seam.pieces]
    rfl

theorem independent_of_smooth (h₁ : 37 ∉ b₁) (h₂ : 37 ∉ b₂)
    (hsmall : (b₁ ++ 38 :: b₂).length < 2 ^ 31)
    (hsmooth : (seam r.form b₁ b₂).Smooth) : Independent r b₁ b₂ := by
  obtain ⟨whole, first, second, hw, hf, hs, hwhole, hpieces⟩ :=
    decode_seam (r := r) h₁ h₂ hsmall
  refine ⟨whole, first, second, hw, hf, hs, fun key => ?_⟩
  rw [selectForm_value, selectForm_value, hwhole, hpieces]
  exact (Seam.smooth_iff _).mp hsmooth key

theorem smooth_of_independent (h₁ : 37 ∉ b₁) (h₂ : 37 ∉ b₂)
    (hsmall : (b₁ ++ 38 :: b₂).length < 2 ^ 31)
    (h : Independent r b₁ b₂) : (seam r.form b₁ b₂).Smooth := by
  obtain ⟨whole, first, second, hw, hf, hs, hwhole, hpieces⟩ :=
    decode_seam (r := r) h₁ h₂ hsmall
  obtain ⟨whole', first', second', hw', hf', hs', hsame⟩ := h
  rw [hw] at hw'
  cases hw'
  rw [hf] at hf'
  cases hf'
  rw [hs] at hs'
  cases hs'
  refine (Seam.smooth_iff _).mpr fun key => ?_
  rw [← hwhole, ← hpieces, ← selectForm_value, ← selectForm_value]
  exact hsame key

/-- On bodies without escapes that fit an `int` together, what the decoder makes
of them in one piece is what it makes of one and then the other exactly when
the seam does not show. -/
theorem independent_iff (h₁ : 37 ∉ b₁) (h₂ : 37 ∉ b₂) :
    ((b₁ ++ 38 :: b₂).length < 2 ^ 31 ∧ (seam r.form b₁ b₂).Smooth →
      Independent r b₁ b₂) ∧
    (Independent r b₁ b₂ → (b₁ ++ 38 :: b₂).length < 2 ^ 31 →
      (seam r.form b₁ b₂).Smooth) :=
  ⟨fun h => independent_of_smooth h₁ h₂ h.1 h.2,
    fun h hsmall => smooth_of_independent h₁ h₂ hsmall h⟩

/-! ## Two segments -/

/-- A request with a form. -/
def formWith (form : Dict Bytes Bytes) : HttpRequest :=
  { construct .body .fileRequest false false with form }

theorem independent_iff_fresh :
    Independent (formWith Dict.empty) (lit "a=1") (lit "b=2") := by
  have hlen : (lit "a=1" ++ 38 :: lit "b=2").length = 7 := by decide +kernel
  refine (independent_iff (by decide +kernel) (by decide +kernel)).1
    ⟨by omega, ?_, ?_⟩
  · intro _ _
    decide +kernel
  · intro _ _
    decide +kernel

/-- On a form that holds `a=0`, `a=1&b=2` changes it and `a=1` does not. -/
theorem first_segment_kept :
    ¬ ∀ (r : HttpRequest) (b₁ b₂ : Bytes), 37 ∉ b₁ → 37 ∉ b₂ →
      b₁ ≠ [] → b₂ ≠ [] → (∀ s ∈ b₁.splitOn 38, s ≠ []) →
      (∀ s ∈ b₂.splitOn 38, s ≠ []) → Independent r b₁ b₂ := by
  intro hall
  have h₁ : 37 ∉ lit "a=1" := by decide +kernel
  have h₂ : 37 ∉ lit "b=2" := by decide +kernel
  have hindependent :=
    hall (formWith (Dict.empty.insert (lit "a") (lit "0"))) (lit "a=1")
      (lit "b=2") h₁ h₂ (by decide +kernel) (by decide +kernel)
      (by decide +kernel) (by decide +kernel)
  have hlen : (lit "a=1" ++ 38 :: lit "b=2").length = 7 := by decide +kernel
  have hsmooth := smooth_of_independent h₁ h₂ (by omega) hindependent
  have hkey := hsmooth.key (by decide +kernel) (by decide +kernel)
  exact absurd hkey (by decide +kernel)

end HttpRequest

end TinyWebServer
