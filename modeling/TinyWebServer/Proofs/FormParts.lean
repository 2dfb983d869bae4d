import TinyWebServer.Proofs.FormCodec
import Mathlib.Data.List.Nodup

/-!
# What a form holds of each pair

The decoder reads a body up to some symbol. Of the pairs it came past it holds
key and value, of the one it stopped in a part of the value, of the others
nothing. `parts` says how much of each value that is, and `Collects` how the cut
in hand at the end answers for it.

One stop is not like the others. Where not even the first `=` is read there is
no key yet, and what is in hand, a part of the first key, is stored under the
empty one.
-/

namespace TinyWebServer

open Lib

namespace HttpRequest

/-- A pair, and how much of its value is read. -/
structure Part where
  key : Bytes
  value : Bytes
  read : Bytes
  deriving DecidableEq, Repr

/-- What the decoder stores of it. -/
def Part.kept (q : Part) : Bytes × Bytes :=
  (mangledAll q.key, mangledAll q.read)

/-- The pairs of a form of which `k` symbols are read. -/
def parts : Nat → List (Bytes × Bytes) → List Part
  | _, [] => []
  | k, p :: pairs =>
      ⟨p.1, p.2, p.2.take (k - (p.1.length + 1))⟩ ::
        parts (k - (p.1.length + 1 + p.2.length + 1)) pairs

theorem parts_pairs (k : Nat) (pairs : List (Bytes × Bytes)) :
    (parts k pairs).map (fun q => (q.key, q.value)) = pairs := by
  induction pairs generalizing k with
  | nil => rfl
  | cons p pairs ih => rw [parts, List.map_cons, ih]

theorem parts_keys (k : Nat) (pairs : List (Bytes × Bytes)) :
    (parts k pairs).map Part.key = Dict.keys pairs := by
  induction pairs generalizing k with
  | nil => rfl
  | cons p pairs ih => rw [parts, List.map_cons, ih]; rfl

theorem forall_parts {P : Bytes → Bytes → Prop} (k : Nat)
    (pairs : List (Bytes × Bytes)) :
    (∀ q ∈ parts k pairs, P q.key q.value) ↔ ∀ p ∈ pairs, P p.1 p.2 := by
  conv_rhs => rw [← parts_pairs k pairs]
  simp

theorem prefix_of_mem_parts {k : Nat} {pairs : List (Bytes × Bytes)} {q : Part}
    (h : q ∈ parts k pairs) : q.read <+: q.value := by
  induction pairs generalizing k with
  | nil => cases h
  | cons p pairs ih =>
      rcases List.mem_cons.mp h with rfl | h
      · exact List.take_prefix _ _
      · exact ih h

theorem parts_zero {pairs : List (Bytes × Bytes)} {q : Part}
    (h : q ∈ parts 0 pairs) : q.read = [] := by
  induction pairs with
  | nil => cases h
  | cons p pairs ih =>
      rw [parts] at h
      simp only [Nat.zero_sub, List.take_zero] at h
      rcases List.mem_cons.mp h with rfl | h
      · rfl
      · exact ih h

/-- Short of the first `=`. -/
theorem parts_of_le {k : Nat} {p : Bytes × Bytes}
    {pairs : List (Bytes × Bytes)} (hk : k ≤ p.1.length) {q : Part}
    (h : q ∈ parts k (p :: pairs)) : q.read = [] := by
  have hvalue : k - (p.1.length + 1) = 0 := by omega
  have hrest : k - (p.1.length + 1 + p.2.length + 1) = 0 := by omega
  rw [parts, hvalue, hrest] at h
  rcases List.mem_cons.mp h with rfl | h
  · rfl
  · exact parts_zero h

/-! ## Reading one pair -/

theorem foldl_bytes (s : Bytes) (c : Cut) :
    (s.map Sym.byte).foldl Cut.step c = c.append (mangledAll s) := by
  induction s generalizing c with
  | nil => simp [Cut.append]
  | cons b s ih =>
      rw [List.map_cons, List.foldl_cons, ih, mangledAll_cons]
      simp [Cut.step, Cut.append]

/-- What follows a pair. -/
def ampSyms (pairs : List (Bytes × Bytes)) : List Sym :=
  if pairs = [] then [] else .amp :: formSyms pairs

theorem formSyms_cons (p : Bytes × Bytes) (pairs : List (Bytes × Bytes)) :
    formSyms (p :: pairs) = pairSyms p ++ ampSyms pairs := by
  cases pairs with
  | nil => simp [formSyms, ampSyms]
  | cons q pairs => simp [formSyms, ampSyms]

theorem length_formSyms_cons (p : Bytes × Bytes)
    (pairs : List (Bytes × Bytes)) : (formSyms (p :: pairs)).length =
      p.1.length + 1 + p.2.length + (ampSyms pairs).length := by
  rw [formSyms_cons, pairSyms]
  simp only [List.length_append, List.length_cons, List.length_map]
  omega

variable {p : Bytes × Bytes} {c : Cut} {k : Nat}

theorem foldl_key (hk : k ≤ p.1.length) (rest : List Sym) :
    ((pairSyms p ++ rest).take k).foldl Cut.step c =
      c.append (mangledAll (p.1.take k)) := by
  have hlen : k ≤ (p.1.map Sym.byte).length := by simpa using hk
  rw [pairSyms, List.append_assoc, List.take_append_of_le_length hlen,
    ← List.map_take, foldl_bytes]

theorem foldl_value (hcur : c.cur = []) {j : Nat} (hj : j ≤ p.2.length)
    (rest : List Sym) :
    ((pairSyms p ++ rest).take (p.1.length + 1 + j)).foldl Cut.step c =
      ⟨mangledAll p.1, mangledAll (p.2.take j), c.pairs⟩ := by
  have hkey : (p.1.map Sym.byte).length = p.1.length := List.length_map ..
  have hlen : j ≤ (p.2.map Sym.byte).length := by simpa using hj
  rw [pairSyms, List.append_assoc, Nat.add_assoc, ← hkey,
    List.take_length_add_append, List.foldl_append, foldl_bytes, Nat.add_comm 1,
    List.cons_append, List.take_succ_cons, List.foldl_cons,
    List.take_append_of_le_length hlen, ← List.map_take, foldl_bytes]
  simp [Cut.step, Cut.append, hcur]

theorem foldl_pairSyms (hcur : c.cur = []) :
    (pairSyms p).foldl Cut.step c =
      ⟨mangledAll p.1, mangledAll p.2, c.pairs⟩ := by
  rw [pairSyms, List.foldl_append, foldl_bytes, List.foldl_cons, foldl_bytes]
  simp [Cut.step, Cut.append, hcur]

theorem foldl_pair (hcur : c.cur = []) (j : Nat) (rest : List Sym) :
    ((pairSyms p ++ rest).take (p.1.length + 1 + p.2.length + j)).foldl
        Cut.step c =
      (rest.take j).foldl Cut.step
        ⟨mangledAll p.1, mangledAll p.2, c.pairs⟩ := by
  have hlen : (pairSyms p).length = p.1.length + 1 + p.2.length := by
    simp only [pairSyms, List.length_append, List.length_cons, List.length_map]
    omega
  rw [← hlen, List.take_length_add_append, List.foldl_append,
    foldl_pairSyms hcur]

/-! ## Reading a form -/

/-- The decoder, which held `old` when it came to the pairs, ends with `c`. -/
structure Collects (c : Cut) (old : List (Bytes × Bytes)) (qs : List Part) :
    Prop where
  keeps : ∀ e ∈ old, e ∈ c.pairs
  pairs : ∀ e ∈ c.pairs, e ∈ old ∨ ∃ q ∈ qs, e = q.kept
  last : ∀ e, c.last = some e →
    e.1 ∈ Dict.keys c.pairs ∨ ∃ q ∈ qs, e = q.kept
  kept : ∀ q ∈ qs, q.read ≠ [] → q.kept ∈ c.pairs ∨ c.last = some q.kept

theorem Cut.last_eq_some {c : Cut} {e : Bytes × Bytes} (h : c.last = some e) :
    e = (c.key, c.cur) := by
  rw [Cut.last] at h
  split at h
  · cases h
  · cases h; rfl

/-- Nothing of the pairs is read but, perhaps, a part of the first key. -/
theorem collects_key {old : List (Bytes × Bytes)} {qs : List Part}
    (hc : c.pairs = old) (hkey : c.key ∈ Dict.keys old)
    (hqs : ∀ q ∈ qs, q.read = []) : Collects c old qs := by
  subst hc
  refine ⟨fun e he => he, fun e he => .inl he, fun e he => ?_, ?_⟩
  · rw [Cut.last_eq_some he]
    exact .inl hkey
  · intro q hq hread
    exact absurd (hqs q hq) hread

/-- The pair whose value is the last thing read. -/
theorem collects_value {q : Part} {qs : List Part}
    (hc : c = ⟨mangledAll q.key, mangledAll q.read, c.pairs⟩)
    (hqs : ∀ q ∈ qs, q.read = []) : Collects c c.pairs (q :: qs) := by
  have hkept : (c.key, c.cur) = q.kept := by rw [hc]; rfl
  refine ⟨fun e he => he, fun e he => .inl he, fun e he => ?_, ?_⟩
  · rw [Cut.last_eq_some he]
    exact .inr ⟨q, List.mem_cons_self, hkept⟩
  · intro q' hq' hread
    rcases List.mem_cons.mp hq' with rfl | hq'
    · right
      have hcur : c.cur ≠ [] := by
        rw [hc]
        exact fun h => hread (mangledAll_eq_nil_iff.mp h)
      rw [Cut.last, if_neg hcur, hkept]
    · exact absurd (hqs q' hq') hread

/-- A pair that an `&` ended, in front of what is read behind it. -/
theorem Collects.cons {old : List (Bytes × Bytes)} {q : Part} {qs : List Part}
    (h : Collects c (old ++ [q.kept]) qs) : Collects c old (q :: qs) := by
  have hkept := h.keeps q.kept (by simp)
  refine ⟨fun e he => h.keeps e (by simp [he]), fun e he => ?_,
    fun e he => ?_, fun q' hq' hread => ?_⟩
  · rcases h.pairs e he with hold | ⟨q', hq', rfl⟩
    · rcases List.mem_append.mp hold with hold | hq
      · exact .inl hold
      · exact .inr ⟨q, List.mem_cons_self, List.mem_singleton.mp hq⟩
    · exact .inr ⟨q', List.mem_cons_of_mem q hq', rfl⟩
  · rcases h.last e he with hkey | ⟨q', hq', rfl⟩
    · exact .inl hkey
    · exact .inr ⟨q', List.mem_cons_of_mem q hq', rfl⟩
  · rcases List.mem_cons.mp hq' with rfl | hq'
    · exact .inl hkept
    · exact h.kept q' hq' hread

/-- Reading the pairs of a form, from a state that holds a key already or far
enough to hold one. -/
theorem collects_form (pairs : List (Bytes × Bytes)) : ∀ (k : Nat) (c : Cut),
    c.cur = [] →
    (c.key ∈ Dict.keys c.pairs ∨ ∀ p ∈ pairs.head?, p.1.length < k) →
    Collects (((formSyms pairs).take k).foldl Cut.step c) c.pairs
      (parts k pairs) := by
  induction pairs with
  | nil =>
      intro k c hcur _
      refine ⟨fun e he => ?_, fun e he => ?_, fun e he => ?_,
        fun q hq => by cases hq⟩
      · simpa [formSyms] using he
      · simp only [formSyms, List.take_nil, List.foldl_nil] at he
        exact .inl he
      · simp [formSyms, Cut.last, hcur] at he
  | cons p pairs ih =>
      intro k c hcur hkey
      rw [formSyms_cons]
      by_cases hk : k ≤ p.1.length
      · -- not even the `=` of this pair is read
        rw [foldl_key hk]
        have hkey : c.key ∈ Dict.keys c.pairs :=
          hkey.resolve_right fun h => Nat.not_lt.mpr hk (h p rfl)
        exact collects_key rfl hkey fun q hq => parts_of_le hk hq
      obtain ⟨j, rfl⟩ : ∃ j, k = p.1.length + 1 + j :=
        ⟨k - (p.1.length + 1), by omega⟩
      rw [parts, Nat.add_sub_cancel_left]
      by_cases hj : j ≤ p.2.length
      · -- the value is where it stops
        have hrest : p.1.length + 1 + j - (p.1.length + 1 + p.2.length + 1)
            = 0 := by omega
        rw [foldl_value hcur hj, hrest]
        exact collects_value rfl fun q hq => parts_zero hq
      obtain ⟨i, rfl⟩ : ∃ i, j = p.2.length + (i + 1) :=
        ⟨j - (p.2.length + 1), by omega⟩
      have hrest : p.1.length + 1 + (p.2.length + (i + 1)) -
          (p.1.length + 1 + p.2.length + 1) = i := by omega
      rw [← Nat.add_assoc _ p.2.length, foldl_pair hcur, ampSyms,
        List.take_of_length_le (Nat.le_add_right p.2.length _)]
      rw [← Nat.add_assoc _ p.2.length] at hrest
      rw [hrest]
      by_cases hpairs : pairs = []
      · -- there is nothing behind it
        subst hpairs
        exact collects_value rfl fun q hq => by cases hq
      · rw [if_neg hpairs, List.take_succ_cons, List.foldl_cons]
        refine Collects.cons (ih i _ rfl (.inl ?_))
        simp [Cut.step, Dict.keys]

/-- All of a form is read: the last pair is in hand. -/
theorem foldl_form (init : List (Bytes × Bytes)) (last : Bytes × Bytes) :
    ∀ c : Cut, c.cur = [] →
    (formSyms (init ++ [last])).foldl Cut.step c =
      ⟨mangledAll last.1, mangledAll last.2,
        c.pairs ++ init.map fun p => (mangledAll p.1, mangledAll p.2)⟩ := by
  induction init with
  | nil =>
      intro c hcur
      rw [List.nil_append, formSyms, foldl_pairSyms hcur]
      simp
  | cons p init ih =>
      intro c hcur
      rw [List.cons_append, formSyms_cons, ampSyms, if_neg (by simp),
        List.foldl_append, foldl_pairSyms hcur, List.foldl_cons, ih _ rfl]
      simp [Cut.step]

/-- And nothing is missing of any value. -/
theorem parts_length (pairs : List (Bytes × Bytes)) :
    parts (formSyms pairs).length pairs =
      pairs.map fun p => ⟨p.1, p.2, p.2⟩ := by
  induction pairs with
  | nil => rfl
  | cons p pairs ih =>
      have hamp : (ampSyms pairs).length - 1 = (formSyms pairs).length := by
        rw [ampSyms]
        split
        · next hnil => rw [hnil]; rfl
        · simp
      rw [parts, length_formSyms_cons, List.take_of_length_le (by omega),
        List.map_cons, ← ih, ← hamp]
      congr 2
      omega

/-- The decoder on a body that some list of pairs was written as. -/
theorem handleForm_encodes {pairs : List (Bytes × Bytes)} {body : Bytes}
    (h : EncodesForm pairs body) (r : HttpRequest) (hbody : r.body = body) :
    ∃ d, r.handleForm =
        .ok { r with body := d.body, form := storeForm r.form d } ∧
      let c := ((formSyms pairs).take
        (begun (toInt body.length).toNat body)).foldl Cut.step Cut.start
      d.pairs = c.pairs ∧ d.last = c.last := by
  have hdecode := decodeForm_stream body
  rw [stream_encodes h (toInt_toNat_le _)] at hdecode
  obtain ⟨d, hd, hcut⟩ := hdecode.ok_right
  refine ⟨d, ?_, hcut⟩
  rw [handleForm_eq, hbody, hd]
  rfl

/-! ## Looking a key up -/

variable {d : FormBody} {qs : List Part}

/-- Whatever a form has gained comes from one of the pairs. -/
theorem kept_of_storeForm {form : Dict Bytes Bytes} {key value : Bytes}
    (hd : d.pairs = c.pairs ∧ d.last = c.last) (hc : Collects c [] qs)
    (hnew : form key = none) (h : storeForm form d key = some value) :
    ∃ q ∈ qs, q.kept = (key, value) := by
  cases hall : form.insertAll d.pairs key with
  | some v =>
      have hv : v = value :=
        Option.some.inj ((storeForm_of_some hall).symm.trans h)
      subst hv
      have hkey : key ∈ Dict.keys d.pairs := by
        by_contra hkey
        rw [Dict.insertAll_of_not_mem hkey, hnew] at hall
        cases hall
      have hempty : Dict.empty.insertAll d.pairs key = some v :=
        (Dict.insertAll_of_mem hkey).trans hall
      obtain ⟨front, back, heq, _⟩ := Dict.insertAll_empty_iff.mp hempty
      have hmem : (key, v) ∈ c.pairs := by rw [← hd.1, heq]; simp
      rcases hc.pairs _ hmem with hold | ⟨q, hq, heq⟩
      · cases hold
      · exact ⟨q, hq, heq.symm⟩
  | none =>
      have hlast := (storeForm_of_none hall value).mp h
      rw [hd.2] at hlast
      rcases hc.last _ hlast with hkey | ⟨q, hq, heq⟩
      · rw [← hd.1] at hkey
        exact absurd hall (Dict.insertAll_ne_none hkey)
      · exact ⟨q, hq, heq.symm⟩

/-- What was read of a value is in the form, if it is anything. -/
theorem read_of_storeForm_none {form : Dict Bytes Bytes} {q : Part}
    (hd : d.pairs = c.pairs ∧ d.last = c.last) (hc : Collects c [] qs)
    (hq : q ∈ qs) (h : storeForm form d (mangledAll q.key) = none) :
    q.read = [] := by
  by_contra hread
  have hall : form.insertAll d.pairs (mangledAll q.key) = none := by
    cases hall : form.insertAll d.pairs (mangledAll q.key) with
    | none => rfl
    | some v => rw [storeForm_of_some hall] at h; cases h
  rcases hc.kept q hq hread with hmem | hlast
  · rw [← hd.1] at hmem
    exact Dict.insertAll_ne_none (List.mem_map_of_mem hmem) hall
  · rw [← hd.2] at hlast
    rw [(storeForm_of_none hall _).mpr hlast] at h
    cases h

/-- Under a key without escapes an empty form ends up with what was read of the
value that was sent under it. -/
theorem storeForm_of_unreserved (hkeys : (qs.map Part.key).Nodup)
    (hd : d.pairs = c.pairs ∧ d.last = c.last) (hc : Collects c [] qs)
    {q : Part} (hq : q ∈ qs) (hplain : Unreserved q.key) :
    (storeForm Dict.empty d q.key).getD [] = mangledAll q.read := by
  cases h : storeForm Dict.empty d q.key with
  | some value =>
      obtain ⟨q', hq', hkept⟩ := kept_of_storeForm hd hc rfl h
      have hkey : mangledAll q'.key = q.key := congrArg Prod.fst hkept
      have hsame := List.inj_on_of_nodup_map hkeys hq' hq
        (eq_of_mangledAll hplain hkey)
      rw [← hsame]
      exact (congrArg Prod.snd hkept).symm
  | none =>
      rw [← mangledAll_of_unreserved hplain] at h
      rw [read_of_storeForm_none hd hc hq h]
      rfl

end HttpRequest

end TinyWebServer
