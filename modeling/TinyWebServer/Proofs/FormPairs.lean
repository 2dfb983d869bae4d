import TinyWebServer.Proofs.FormRoundTrip

/-!
# Storing a form on top of another

Pairs that need no escape, on top of whatever the form held. Each pair that an
`&` ends is stored as it is met; the last one is stored behind the loop, under
a key that is not there yet. When the whole body is read this updates the form
with the pairs and leaves the rest of it alone.

The whole body is not read when its size does not fit in an `int`, and then the
last value is missing or short. There is one exception, which takes a form that
holds the other pairs already: a part of the first key, stored under the empty
key for want of another, can be the value that was sent under the empty key.
-/

namespace TinyWebServer

open Lib

namespace HttpRequest

/-! ## Bodies without escapes -/

theorem mem_formSyms {pairs : List (Bytes × Bytes)} {b : UInt8}
    (h : .byte b ∈ formSyms pairs) : ∃ p ∈ pairs, b ∈ p.1 ∨ b ∈ p.2 := by
  induction pairs with
  | nil => cases h
  | cons p pairs ih =>
      rw [formSyms_cons, List.mem_append] at h
      rcases h with h | h
      · exact ⟨p, List.mem_cons_self, by simpa [pairSyms] using h⟩
      · rw [ampSyms] at h
        split at h
        · cases h
        · obtain ⟨q, hq, hb⟩ := ih (by simpa using h)
          exact ⟨q, List.mem_cons_of_mem p hq, hb⟩

/-- Every symbol is one byte. -/
theorem begun_of_plain {syms : List Sym} {text : Bytes}
    (h : Encodes syms text) (hplain : ∀ b ∈ reserved, .byte b ∉ syms) {n : Nat}
    (hn : n ≤ text.length) : begun n text = n := by
  induction h generalizing n with
  | nil =>
      obtain rfl := Nat.le_zero.mp hn
      rw [begun]
  | cons hcode hrest ih =>
      cases n with
      | zero => rw [begun]
      | succ n =>
          rcases codes_take hcode with ⟨ch, rfl, _, _⟩ | ⟨b, hb, rfl⟩
          · rw [(stream_symbol hcode (Nat.succ_pos n) _ Cut.start).2]
            rw [List.length_append, List.length_singleton] at hn
            rw [List.length_singleton, Nat.succ_sub_one,
              ih (fun b hb hmem => hplain b hb (List.mem_cons_of_mem _ hmem))
                (by omega)]
          · exact absurd List.mem_cons_self (hplain b hb)

/-- The pairs of a form whose keys and values need no escape. -/
def PlainPairs (pairs : List (Bytes × Bytes)) : Prop :=
  ∀ p ∈ pairs, Unreserved p.1 ∧ Unreserved p.2

variable {pairs : List (Bytes × Bytes)} {body : Bytes}

theorem begun_form (h : EncodesForm pairs body) (hplain : PlainPairs pairs)
    {n : Nat} (hn : n ≤ body.length) : begun n body = n := by
  refine begun_of_plain h (fun b hb hmem => ?_) hn
  obtain ⟨p, hp, hmem⟩ := mem_formSyms hmem
  rcases hmem with hmem | hmem
  · exact (hplain p hp).1 b hmem hb
  · exact (hplain p hp).2 b hmem hb

theorem length_of_plain (h : EncodesForm pairs body)
    (hplain : PlainPairs pairs) : body.length = (formSyms pairs).length :=
  (begun_form h hplain (Nat.le_refl _)).symm.trans (begun_length h)

/-! ## A body that is read to its end -/

variable {init : List (Bytes × Bytes)} {last : Bytes × Bytes}

theorem map_mangled_of_plain (h : PlainPairs pairs) :
    pairs.map (fun p => (mangledAll p.1, mangledAll p.2)) = pairs := by
  refine (List.map_congr_left fun p hp => ?_).trans (List.map_id pairs)
  rw [mangledAll_of_unreserved (h p hp).1, mangledAll_of_unreserved (h p hp).2]
  rfl

theorem ne_last_key (hkeys : (Dict.keys (init ++ [last])).Nodup) :
    ∀ p ∈ init, p.1 ≠ last.1 := by
  rw [Dict.keys, List.map_append, List.nodup_append] at hkeys
  intro p hp
  exact hkeys.2.2 _ (List.mem_map_of_mem hp) _ (by simp)

/-- The last pair, behind all the others, under a key that is in none of
them. -/
theorem storeForm_last {d : FormBody} {form : Dict Bytes Bytes}
    (hkeys : (Dict.keys (init ++ [last])).Nodup)
    (hd : d.pairs = init ∧ d.last = some last) (hnew : form last.1 = none) :
    storeForm form d = form.insertAll (init ++ [last]) := by
  have hlast : last.1 ∉ Dict.keys init := by
    intro hmem
    obtain ⟨p, hp, heq⟩ := List.mem_map.mp hmem
    exact ne_last_key hkeys p hp heq
  have hfree : form.insertAll init last.1 = none := by
    rw [Dict.insertAll_of_not_mem hlast, hnew]
  simp only [storeForm, hd.1, hd.2]
  rw [if_pos hfree, Dict.insertAll_append]
  rfl

theorem handleForm_short (hform : EncodesForm (init ++ [last]) body)
    (hplain : PlainPairs (init ++ [last]))
    (hkeys : (Dict.keys (init ++ [last])).Nodup) (hvalue : last.2 ≠ [])
    (r : HttpRequest) (hbody : r.body = body) (hnew : r.form last.1 = none)
    (hlen : body.length < 2 ^ 31) :
    ∃ r', r.handleForm = .ok r' ∧
      Dict.Updated r.form r'.form (init ++ [last]) := by
  obtain ⟨d, hhandle, hd⟩ := handleForm_encodes hform r hbody
  refine ⟨_, hhandle, ?_⟩
  have hlast := hplain last (by simp)
  have hinit : PlainPairs init := fun p hp => hplain p (by simp [hp])
  have hcut : ((formSyms (init ++ [last])).take
      (begun (toInt body.length).toNat body)).foldl Cut.step Cut.start =
        ⟨last.1, last.2, init⟩ := by
    rw [toInt_of_lt hlen]
    show ((formSyms (init ++ [last])).take
      (begun body.length body)).foldl Cut.step Cut.start = _
    rw [begun_length hform, List.take_length, foldl_form init last _ rfl,
      map_mangled_of_plain hinit, mangledAll_of_unreserved hlast.1,
      mangledAll_of_unreserved hlast.2]
    rfl
  rw [hcut] at hd
  simp only [Cut.last, if_neg hvalue] at hd
  rw [storeForm_last hkeys hd hnew]
  exact Dict.updated_insertAll hkeys r.form

/-! ## A body that is not -/

/-- Something of the last value is missing. -/
theorem parts_last (init : List (Bytes × Bytes)) (hvalue : last.2 ≠ [])
    {k : Nat} (hk : k < (formSyms (init ++ [last])).length) :
    ∃ u, ⟨last.1, last.2, u⟩ ∈ parts k (init ++ [last]) ∧
      u.length < last.2.length := by
  have hpos := List.length_pos_iff.mpr hvalue
  induction init generalizing k with
  | nil =>
      simp only [List.nil_append, formSyms, pairSyms, List.length_append,
        List.length_cons, List.length_map] at hk
      refine ⟨_, List.mem_cons_self, ?_⟩
      rw [List.length_take]
      omega
  | cons p init ih =>
      have hne : init ++ [last] ≠ [] := by simp
      rw [List.cons_append, length_formSyms_cons, ampSyms, if_neg hne,
        List.length_cons] at hk
      have hsome : 0 < (formSyms (init ++ [last])).length := by
        obtain ⟨q, pairs, hq⟩ := List.exists_cons_of_ne_nil hne
        rw [hq, length_formSyms_cons]
        omega
      obtain ⟨u, hu, hshort⟩ :=
        ih (k := k - (p.1.length + 1 + p.2.length + 1)) (by omega)
      exact ⟨u, List.mem_cons_of_mem _ hu, hshort⟩

/-- Past the first `=` the last value is not stored. -/
theorem not_updated_of_short {d : FormBody} {form : Dict Bytes Bytes} {c : Cut}
    {k : Nat} (hplain : PlainPairs (init ++ [last]))
    (hkeys : (Dict.keys (init ++ [last])).Nodup) (hvalue : last.2 ≠ [])
    (hd : d.pairs = c.pairs ∧ d.last = c.last)
    (hc : Collects c [] (parts k (init ++ [last])))
    (hnew : form last.1 = none)
    (hk : k < (formSyms (init ++ [last])).length) :
    ¬ Dict.Updated form (storeForm form d) (init ++ [last]) := by
  intro hupd
  obtain ⟨q, hq, hkept⟩ :=
    kept_of_storeForm hd hc hnew (hupd.1 last (by simp))
  have hkey : q.key = last.1 :=
    eq_of_mangledAll (hplain last (by simp)).1 (congrArg Prod.fst hkept)
  have hread : q.read = last.2 :=
    eq_of_mangledAll (hplain last (by simp)).2 (congrArg Prod.snd hkept)
  obtain ⟨u, hu, hshort⟩ := parts_last init hvalue hk
  have hsame := List.inj_on_of_nodup_map
    ((parts_keys k (init ++ [last])).symm ▸ hkeys) hq hu hkey
  rw [hsame] at hread
  simp only [] at hread
  rw [hread] at hshort
  omega

/-- Short of it. -/
theorem updated_start_iff {d : FormBody} {form : Dict Bytes Bytes} {c : Cut}
    {u : Bytes} (hkeys : (Dict.keys (init ++ [last])).Nodup)
    (hvalue : last.2 ≠ []) (hd : d.pairs = c.pairs ∧ d.last = c.last)
    (hc : c = Cut.start.append u) (hnew : form last.1 = none) :
    Dict.Updated form (storeForm form d) (init ++ [last]) ↔
      last.1 = [] ∧ u = last.2 ∧ ∀ p ∈ init, form p.1 = some p.2 := by
  have hother := ne_last_key hkeys
  rw [storeForm_start hd hc]
  constructor
  · intro hupd
    have hlast := hupd.1 last (by simp)
    split at hlast
    · -- nothing was stored
      rw [hnew] at hlast
      cases hlast
    · next hstored =>
        have hkey : last.1 = [] := by
          by_contra hkey
          rw [Dict.insert_other _ _ hkey, hnew] at hlast
          cases hlast
        rw [hkey, Dict.insert_self, Option.some.injEq] at hlast
        refine ⟨hkey, hlast, fun p hp => ?_⟩
        have hp' := hupd.1 p (by simp [hp])
        rw [if_neg hstored, Dict.insert_other _ _ (hkey ▸ hother p hp)] at hp'
        exact hp'
  · intro h
    obtain ⟨hkey, hu, hinit⟩ := h
    subst hu
    rw [hkey] at hnew hother
    rw [if_neg (by simp [hvalue, hnew])]
    constructor
    · intro p hp
      rcases List.mem_append.mp hp with hp | hp
      · rw [Dict.insert_other _ _ (hother p hp), hinit p hp]
      · rw [List.mem_singleton.mp hp, hkey, Dict.insert_self]
    · intro key hmem
      refine Dict.insert_other _ _ ?_
      intro hnil
      exact hmem (by simp [Dict.keys, hnil, hkey])

/-- The first key is where the decoder stops, behind `n` bytes, and what is
read of it happens to be the last value, sent under the empty key; the other
pairs are there already. -/
def Chance (form : Dict Bytes Bytes) (n : Nat) (init : List (Bytes × Bytes))
    (last : Bytes × Bytes) : Prop :=
  (∃ p ∈ (init ++ [last]).head?, n ≤ p.1.length ∧ p.1.take n = last.2) ∧
    last.1 = [] ∧ ∀ p ∈ init, form p.1 = some p.2

theorem handleForm_long_iff (hform : EncodesForm (init ++ [last]) body)
    (hplain : PlainPairs (init ++ [last]))
    (hkeys : (Dict.keys (init ++ [last])).Nodup) (hvalue : last.2 ≠ [])
    (r : HttpRequest) (hbody : r.body = body) (hnew : r.form last.1 = none)
    (hlen : 2 ^ 31 ≤ body.length) :
    (∃ r', r.handleForm = .ok r' ∧
      Dict.Updated r.form r'.form (init ++ [last])) ↔
      Chance r.form (toInt body.length).toNat init last := by
  obtain ⟨d, hhandle, hd⟩ := handleForm_encodes hform r hbody
  have hless := toInt_toNat_lt hlen
  rw [begun_form hform hplain (Nat.le_of_lt hless)] at hd
  rw [length_of_plain hform hplain] at hless
  rw [length_of_plain hform hplain] at hd ⊢
  generalize (toInt (formSyms (init ++ [last])).length).toNat = n at hd hless ⊢
  rw [hhandle, Chance]
  simp only [Except.ok.injEq, exists_eq_left']
  obtain ⟨p, rest, hp⟩ := List.exists_cons_of_ne_nil
    (show init ++ [last] ≠ [] by simp)
  have hhead : (init ++ [last]).head? = some p := by rw [hp]; rfl
  rw [hhead]
  simp only [Option.mem_some_iff, exists_eq_left']
  by_cases hn : n ≤ p.1.length
  · have hkey : Unreserved (p.1.take n) := fun b hb =>
      (hplain p (by simp [hp])).1 b (List.mem_of_mem_take hb)
    rw [hp, formSyms_cons, foldl_key hn, mangledAll_of_unreserved hkey] at hd
    rw [updated_start_iff hkeys hvalue hd rfl hnew]
    constructor
    · intro h
      obtain ⟨hnil, hval, hinit⟩ := h
      exact ⟨⟨hn, hval⟩, hnil, hinit⟩
    · intro h
      obtain ⟨⟨_, hval⟩, hnil, hinit⟩ := h
      exact ⟨hnil, hval, hinit⟩
  · have hc := collects_form (init ++ [last]) n Cut.start rfl
      (.inr fun q hq => by rw [hhead] at hq; cases hq; omega)
    exact iff_of_false
      (not_updated_of_short hplain hkeys hvalue hd hc hnew hless)
      fun h => hn h.1.1

/-- The pairs are stored, and nothing else is changed, exactly when the size of
the body fits in an `int`, chance apart. -/
theorem handleForm_stores_iff (hform : EncodesForm (init ++ [last]) body)
    (hplain : PlainPairs (init ++ [last]))
    (hkeys : (Dict.keys (init ++ [last])).Nodup) (hvalue : last.2 ≠ [])
    (r : HttpRequest) (hbody : r.body = body)
    (hnew : r.form last.1 = none) :
    (∃ r', r.handleForm = .ok r' ∧
      Dict.Updated r.form r'.form (init ++ [last])) ↔
      body.length < 2 ^ 31 ∨
        Chance r.form (toInt body.length).toNat init last := by
  by_cases hlen : body.length < 2 ^ 31
  · exact iff_of_true
      (handleForm_short hform hplain hkeys hvalue r hbody hnew hlen)
      (.inl hlen)
  · rw [handleForm_long_iff hform hplain hkeys hvalue r hbody hnew
      (Nat.not_lt.mp hlen)]
    exact (or_iff_right hlen).symm

/-- A form that held one of the keys already, and another one. -/
def visited : HttpRequest :=
  { posted (lit "a=1&b+c=2") with
    form := Dict.empty.insertAll [(lit "a", lit "0"), (lit "d", lit "4")] }

theorem handleForm_stores_iff_visited :
    ∃ r', visited.handleForm = .ok r' ∧
      Dict.Updated visited.form r'.form
        ([(lit "a", lit "1")] ++ [(lit "b c", lit "2")]) := by
  have hform := encodesForm_formText
    ([(lit "a", lit "1")] ++ [(lit "b c", lit "2")])
  refine (handleForm_stores_iff hform ?_ (by decide) (by decide) visited
    (by decide) (by decide)).mpr (.inl (by decide))
  unfold PlainPairs
  decide +kernel

/-- One pair, without a key, whose value has `2 ^ 31` bytes: none of them is
read. -/
theorem long_form_dropped :
    ¬ ∀ (init : List (Bytes × Bytes)) (last : Bytes × Bytes) (body : Bytes)
      (r : HttpRequest), EncodesForm (init ++ [last]) body →
      PlainPairs (init ++ [last]) → (Dict.keys (init ++ [last])).Nodup →
      last.2 ≠ [] → r.body = body → r.form last.1 = none →
      ∃ r', r.handleForm = .ok r' ∧
        Dict.Updated r.form r'.form (init ++ [last]) := by
  intro hall
  obtain ⟨value, hplain, hlen⟩ :
      ∃ s : Bytes, Unreserved s ∧ s.length = 2 ^ 31 := by
    refine ⟨List.replicate (2 ^ 31) 97, fun b hb => ?_, List.length_replicate⟩
    rw [List.eq_of_mem_replicate hb]
    decide
  have hvalue : value ≠ [] := by
    intro hnil
    rw [hnil] at hlen
    cases hlen
  have hform : EncodesForm ([] ++ [([], value)]) (formText [([], value)]) :=
    encodesForm_formText _
  have hplain : PlainPairs ([] ++ [([], value)]) := by
    intro p hp
    rw [List.mem_singleton.mp hp]
    exact ⟨by simp [Unreserved], hplain⟩
  have hlong : 2 ^ 31 ≤ (formText [([], value)]).length := by
    rw [length_of_plain hform hplain, List.nil_append, length_formSyms_cons]
    simp only [List.length_nil]
    omega
  have hkeys : (Dict.keys ([] ++ [(([] : Bytes), value)])).Nodup := by
    simp [Dict.keys]
  have hchance := (handleForm_long_iff hform hplain hkeys hvalue
    (posted (formText [([], value)])) rfl rfl hlong).mp
    (hall [] _ _ _ hform hplain hkeys hvalue rfl rfl)
  obtain ⟨⟨p, hp, _, htake⟩, _⟩ := hchance
  cases hp
  exact hvalue (by simpa using htake.symm)

end HttpRequest

end TinyWebServer
