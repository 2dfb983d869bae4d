import TinyWebServer.Proofs.FormParts

/-!
# Encoding a form and decoding it

A client writes pairs into a body and the decoder puts them into an empty form;
is the value of every key what was sent? Not where an escape was needed. The
decoder spells an escape anew, in base ten, and leaves it in the text, so a
value with one of the four bytes comes out changed, and a key with one of them
is not found again. A key that is not found reads as the empty value, which is
why a pair with a changed key and an empty value does come back.

`handleForm_restores_iff` says that this is all that goes wrong in a body whose
size fits in an `int`, and what is left of the pairs in a larger one.
-/

namespace TinyWebServer

open Lib

namespace HttpRequest

theorem selectForm_value (r : HttpRequest) (key : Bytes) :
    (r.selectForm key).2 = (r.form key).getD [] := by
  rw [selectForm]
  cases r.form key with
  | none => rfl
  | some value => rfl

/-- The pairs that come back from a form of which `k` symbols are read. Up to
the first `=` they are the empty values, and what is read of the first key under
the empty one. -/
def Survive (k : Nat) : List (Bytes × Bytes) → Prop
  | [] => True
  | p :: pairs =>
      if k ≤ p.1.length then
        ∀ q ∈ p :: pairs,
          q.2 = if q.1 = [] then mangledAll (p.1.take k) else []
      else
        ∀ q ∈ parts k (p :: pairs),
          q.value = [] ∨ Unreserved q.key ∧ mangledAll q.read = q.value

variable {c : Cut} {d : FormBody} {qs : List Part}

/-! ## Past the first `=` -/

/-- What is found under a key that needs an escape was sent under a shorter
one. -/
theorem kept_of_reserved (hd : d.pairs = c.pairs ∧ d.last = c.last)
    (hc : Collects c [] qs) {key value : Bytes} (hres : ¬ Unreserved key)
    (h : storeForm Dict.empty d key = some value) :
    ∃ q ∈ qs, ¬ Unreserved q.key ∧ q.key.length < key.length ∧
      mangledAll q.read = value := by
  obtain ⟨q, hq, hkept⟩ := kept_of_storeForm hd hc rfl h
  have hkey : mangledAll q.key = key := congrArg Prod.fst hkept
  have hread : mangledAll q.read = value := congrArg Prod.snd hkept
  have hres' : ¬ Unreserved q.key := by
    intro hplain
    rw [mangledAll_of_unreserved hplain] at hkey
    exact hres (hkey ▸ hplain)
  have hshort := (mangledAll_of_reserved hres').1
  rw [hkey] at hshort
  exact ⟨q, hq, hres', hshort, hread⟩

theorem mangled_read_eq_nil {q : Part} (h : q.read <+: q.value)
    (hnil : q.value = []) : mangledAll q.read = [] := by
  rw [hnil, List.prefix_nil] at h
  rw [h, mangledAll_nil]

/-- No pair whose key needs an escape comes back with a value: it would be the
value of a shorter such key. -/
theorem value_eq_nil_of_reserved (hd : d.pairs = c.pairs ∧ d.last = c.last)
    (hc : Collects c [] qs) (hpart : ∀ q ∈ qs, q.read <+: q.value)
    (hback : ∀ q ∈ qs, (storeForm Dict.empty d q.key).getD [] = q.value) :
    ∀ n, ∀ q ∈ qs, q.key.length < n → ¬ Unreserved q.key →
      q.value = [] := by
  intro n
  induction n with
  | zero => intro q _ hn; omega
  | succ n ih =>
      intro q hq hn hres
      have hget := hback q hq
      cases h : storeForm Dict.empty d q.key with
      | none =>
          rw [h] at hget
          exact hget.symm
      | some v =>
          obtain ⟨q', hq', hres', hshort, hread⟩ :=
            kept_of_reserved hd hc hres h
          have hnil := ih q' hq' (by omega) hres'
          rw [h, Option.getD_some, ← hread,
            mangled_read_eq_nil (hpart q' hq') hnil] at hget
          exact hget.symm

theorem storeForm_back_iff (hkeys : (qs.map Part.key).Nodup)
    (hd : d.pairs = c.pairs ∧ d.last = c.last) (hc : Collects c [] qs)
    (hpart : ∀ q ∈ qs, q.read <+: q.value) :
    (∀ q ∈ qs, (storeForm Dict.empty d q.key).getD [] = q.value) ↔
      ∀ q ∈ qs,
        q.value = [] ∨ Unreserved q.key ∧ mangledAll q.read = q.value := by
  constructor
  · intro hback q hq
    by_cases hplain : Unreserved q.key
    · right
      rw [← storeForm_of_unreserved hkeys hd hc hq hplain]
      exact ⟨hplain, hback q hq⟩
    · left
      exact value_eq_nil_of_reserved hd hc hpart hback _ q hq
        (Nat.lt_succ_self _) hplain
  · intro hall q hq
    by_cases hplain : Unreserved q.key
    · rw [storeForm_of_unreserved hkeys hd hc hq hplain]
      rcases hall q hq with hnil | ⟨_, hread⟩
      · rw [hnil, mangled_read_eq_nil (hpart q hq) hnil]
      · exact hread
    · -- the value is empty, and so is whatever is stored under the key
      have hnil : q.value = [] :=
        (hall q hq).resolve_right fun h => hplain h.1
      rw [hnil]
      cases h : storeForm Dict.empty d q.key with
      | none => rfl
      | some v =>
          obtain ⟨q', hq', hres', _, hread⟩ := kept_of_reserved hd hc hplain h
          have hnil' : q'.value = [] :=
            (hall q' hq').resolve_right fun h => hres' h.1
          rw [Option.getD_some, ← hread,
            mangled_read_eq_nil (hpart q' hq') hnil']

/-! ## Up to the first `=` -/

/-- There is no key yet, so what is in hand goes under the empty one. -/
theorem storeForm_start (hd : d.pairs = c.pairs ∧ d.last = c.last)
    {u : Bytes} (hc : c = Cut.start.append u) (form : Dict Bytes Bytes) :
    storeForm form d =
      if u = [] ∨ form [] ≠ none then form else form.insert [] u := by
  have hpairs : d.pairs = [] := by rw [hd.1, hc]; rfl
  have hlast : d.last = if u = [] then none else some ([], u) := by
    rw [hd.2, hc]; rfl
  rw [storeForm, hpairs, hlast]
  by_cases hu : u = []
  · simp [hu]
  · by_cases hform : form [] = none
    · simp [hu, hform]
    · simp [hu, hform]

theorem storeForm_start_value (hd : d.pairs = c.pairs ∧ d.last = c.last)
    {u : Bytes} (hc : c = Cut.start.append u) (key : Bytes) :
    (storeForm Dict.empty d key).getD [] = if key = [] then u else [] := by
  rw [storeForm_start hd hc]
  by_cases hu : u = []
  · simp [hu, Dict.empty]
  · by_cases hkey : key = []
    · simp [hu, hkey, Dict.empty]
    · simp [hu, hkey, Dict.empty, Dict.insert_other]

/-! ## The whole body -/

variable {pairs : List (Bytes × Bytes)} {body : Bytes}

/-- In a form read to its end. -/
theorem survive_length (hpairs : pairs ≠ []) :
    Survive (formSyms pairs).length pairs ↔
      ∀ p ∈ pairs, p.2 = [] ∨ Unreserved p.1 ∧ Unreserved p.2 := by
  cases pairs with
  | nil => exact absurd rfl hpairs
  | cons p pairs =>
      have hlong : ¬ (formSyms (p :: pairs)).length ≤ p.1.length := by
        rw [length_formSyms_cons]
        omega
      rw [Survive, if_neg hlong, parts_length]
      simp only [List.forall_mem_map, mangledAll_eq_self_iff]

theorem handleForm_survive_iff (hform : EncodesForm pairs body)
    (hkeys : (Dict.keys pairs).Nodup) (r : HttpRequest)
    (hbody : r.body = body) (hempty : r.form = Dict.empty) :
    (∃ r', r.handleForm = .ok r' ∧
      ∀ p ∈ pairs, (r'.selectForm p.1).2 = p.2) ↔
      Survive (begun (toInt body.length).toNat body) pairs := by
  obtain ⟨d, hhandle, hd⟩ := handleForm_encodes hform r hbody
  generalize begun (toInt body.length).toNat body = k at hd ⊢
  rw [hhandle, hempty]
  simp only [Except.ok.injEq, exists_eq_left', selectForm_value]
  cases pairs with
  | nil => simp [Survive]
  | cons p pairs =>
      rw [Survive]
      by_cases hk : k ≤ p.1.length
      · rw [if_pos hk]
        simp only [formSyms_cons, foldl_key hk] at hd
        simp only [storeForm_start_value hd rfl, eq_comm]
      · rw [if_neg hk]
        refine (forall_parts (P := fun key value =>
          (storeForm Dict.empty d key).getD [] = value) k _).symm.trans ?_
        have hc := collects_form (p :: pairs) k Cut.start rfl
          (.inr fun q hq => by cases hq; omega)
        refine storeForm_back_iff ?_ hd hc fun q hq => prefix_of_mem_parts hq
        rw [parts_keys]
        exact hkeys

/-- The decoder gives every value back exactly when no pair that has a value
needs an escape, if the size of the body fits in an `int`; else when what is
read of the body says so. -/
theorem handleForm_restores_iff (hform : EncodesForm pairs body)
    (hpairs : pairs ≠ []) (hkeys : (Dict.keys pairs).Nodup) (r : HttpRequest)
    (hbody : r.body = body) (hempty : r.form = Dict.empty) :
    (∃ r', r.handleForm = .ok r' ∧
      ∀ p ∈ pairs, (r'.selectForm p.1).2 = p.2) ↔
      if body.length < 2 ^ 31 then
        ∀ p ∈ pairs, p.2 = [] ∨ Unreserved p.1 ∧ Unreserved p.2
      else
        Survive (begun (toInt body.length).toNat body) pairs := by
  rw [handleForm_survive_iff hform hkeys r hbody hempty]
  split
  · next hlen =>
      rw [toInt_of_lt hlen, ← survive_length hpairs, ← begun_length hform]
      rfl
  · exact Iff.rfl

/-- A request with a body, and nothing in its form. -/
def posted (body : Bytes) : HttpRequest :=
  { construct .body .fileRequest false false with body }

/-- A key with a space in it, and an empty value. -/
theorem handleForm_restores_iff_space :
    ∃ r', (posted (lit "a+b=c&d=")).handleForm = .ok r' ∧
      ∀ p ∈ [(lit "a b", lit "c"), (lit "d", [])],
        (r'.selectForm p.1).2 = p.2 := by
  have hform := encodesForm_formText [(lit "a b", lit "c"), (lit "d", [])]
  refine (handleForm_restores_iff hform (by simp) (by decide) _
    (by decide) rfl).mpr ?_
  rw [if_pos (by decide)]
  decide +kernel

/-- `a=%26` for an `&` under `a`. -/
theorem escape_not_restored :
    ¬ ∀ (pairs : List (Bytes × Bytes)) (body : Bytes) (r : HttpRequest),
      EncodesForm pairs body → pairs ≠ [] → (Dict.keys pairs).Nodup →
      r.body = body → r.form = Dict.empty →
      ∃ r', r.handleForm = .ok r' ∧
        ∀ p ∈ pairs, (r'.selectForm p.1).2 = p.2 := by
  intro hall
  have hform := encodesForm_formText [(lit "a", lit "&")]
  obtain ⟨r', hr', hback⟩ := hall _ _ (posted (lit "a=%26")) hform (by simp)
    (by decide) (by decide) rfl
  have hsent := hback _ (List.mem_singleton_self _)
  have hvalue : (posted (lit "a=%26")).handleForm.map
      (fun r => (r.selectForm (lit "a")).2) = .ok [37, 133, 52] := by
    decide +kernel
  rw [hr'] at hvalue
  exact absurd (hsent.symm.trans (Except.ok.inj hvalue)) (by decide)

end HttpRequest

end TinyWebServer
