import TinyWebServer.Lib.Transition
import TinyWebServer.Proofs.FormStream

/-!
# Which bytes of a body the form decoder touches

The loop of the form decoder tests its index against the size of the body, but
an escape looks at and overwrites the two bytes behind the index without
another test. `formLoop` is the loop a round at a time, `touched` are the
indexes a round reads or writes, as the `int`s the code computes, and `starts`
the offsets it hands to `substr`; a round that would leave the body has no
next state.

`formStaysInside_iff` says that an escape near the end of the body is the only
way out of it, whatever the size of the body.
-/

namespace TinyWebServer

open Lib

namespace HttpRequest

/-- Where the loop of `_Handle_Form` starts on a request. -/
def formStart (r : HttpRequest) : FormState :=
  { body := r.body, key := [], i := 0, j := 0, form := r.form }

/-- The loop of `_Handle_Form`, a round at a time. -/
def formLoop (r : HttpRequest) : TransitionSystem FormState Unit where
  init st := st = r.formStart
  step st _ st' := formRound (toInt r.body.length) st = .ok (.inl st')

/-- The indexes a round reads or writes. -/
def touched (n : Int) (st : FormState) : List Int :=
  if toInt st.i < n then
    if st.body[st.i]? = some 37 then
      [toInt st.i, toInt (st.i + 1), toInt (st.i + 2)]
    else [toInt st.i]
  else []

/-- The offsets handed to `substr`, in the loop and behind it. -/
def starts (n : Int) (st : FormState) : List Nat :=
  if toInt st.i < n then
    if st.body[st.i]? = some 61 ∨ st.body[st.i]? = some 38 then [st.j] else []
  else if st.form st.key = none ∧ st.j < st.i then [st.j]
  else []

/-- The decoder never leaves the body, and its assertion holds. -/
structure StaysInside (r : HttpRequest) : Prop where
  touches : ∀ st, (formLoop r).Reachable st →
    ∀ k ∈ touched (toInt r.body.length) st, 0 ≤ k ∧ k < r.body.length
  substr : ∀ st, (formLoop r).Reachable st →
    ∀ j ∈ starts (toInt r.body.length) st, j ≤ r.body.length
  asserts : ∀ st, (formLoop r).Reachable st →
    ¬ toInt st.i < toInt r.body.length → st.j ≤ st.i

/-- Where the decoder comes to a `%` in the first `n` bytes of a text that
stands at `i`: behind each it skips two bytes. -/
def escapes : Nat → Nat → Bytes → List Nat
  | _, 0, _ => []
  | _, _ + 1, [] => []
  | i, n + 1, ch :: s =>
      if ch = 37 then
        match s with
        | _ :: _ :: s => i :: escapes (i + 3) (n - 2) s
        | _ => [i]
      else
        escapes (i + 1) n s

/-! ## One round -/

variable {n : Int} {st st' : FormState}

/-- What a round does to the index, to the start of the stretch in hand, and to
the bytes before it. -/
theorem formRound_inl (h : formRound n st = .ok (.inl st')) :
    (st.i : Int) < n ∧ st'.body.length = st.body.length ∧
      (st'.j = st.j ∨ st'.j = st.i + 1) ∧
      st'.body.drop st'.i = st.body.drop st'.i ∧
      ((st.body[st.i]? = some 37 ∧ st.i + 2 < st.body.length ∧
          st'.i = st.i + 3) ∨
        ∃ ch, ch ≠ 37 ∧ st.body[st.i]? = some ch ∧ st'.i = st.i + 1) := by
  rw [formRound] at h
  by_cases hi : (st.i : Int) < n
  · rw [if_neg (not_not.mpr hi)] at h
    refine ⟨hi, ?_⟩
    cases hget : st.body[st.i]? with
    | none => rw [hget] at h; cases h
    | some ch =>
        rw [hget] at h
        simp only [] at h
        by_cases heq : ch = 61
        · rw [if_pos heq] at h
          cases h
          exact ⟨rfl, .inr rfl, rfl, .inr ⟨ch, by simp [heq], rfl, rfl⟩⟩
        rw [if_neg heq] at h
        by_cases hplus : ch = 43
        · rw [if_pos hplus] at h
          cases h
          refine ⟨List.length_set, .inl rfl, ?_,
            .inr ⟨ch, by simp [hplus], rfl, rfl⟩⟩
          exact List.drop_set_of_lt (Nat.lt_succ_self _)
        rw [if_neg hplus] at h
        by_cases hpct : ch = 37
        · rw [if_pos hpct] at h
          cases h₁ : st.body[st.i + 1]? with
          | none => rw [h₁] at h; cases h
          | some c₁ =>
              cases h₂ : st.body[st.i + 2]? with
              | none => rw [h₁, h₂] at h; cases h
              | some c₂ =>
                  rw [h₁, h₂] at h
                  cases h
                  obtain ⟨hlt, -⟩ := List.getElem?_eq_some_iff.mp h₂
                  refine ⟨by simp, .inl rfl, ?_,
                    .inl ⟨by rw [hpct], hlt, rfl⟩⟩
                  show List.drop (st.i + 3) (List.set (List.set _ _ _) _ _) = _
                  rw [List.drop_set_of_lt (by omega),
                    List.drop_set_of_lt (by omega)]
        rw [if_neg hpct] at h
        by_cases hamp : ch = 38
        · rw [if_pos hamp] at h
          cases h
          exact ⟨rfl, .inr rfl, rfl, .inr ⟨ch, hpct, rfl, rfl⟩⟩
        · rw [if_neg hamp] at h
          cases h
          exact ⟨rfl, .inl rfl, rfl, .inr ⟨ch, hpct, rfl, rfl⟩⟩
  · rw [if_pos hi] at h
    cases h

/-- A round whose bytes are there has a next state. -/
theorem formRound_next (hi : (st.i : Int) < n) (hlt : st.i < st.body.length)
    (hpct : st.body[st.i]? = some 37 → st.i + 2 < st.body.length) :
    ∃ st', formRound n st = .ok (.inl st') := by
  rw [formRound, if_neg (not_not.mpr hi)]
  rw [List.getElem?_eq_getElem hlt] at hpct ⊢
  simp only []
  split
  · exact ⟨_, rfl⟩
  split
  · exact ⟨_, rfl⟩
  split
  · next hch =>
      have htwo := hpct (by rw [hch])
      rw [List.getElem?_eq_getElem (by omega : st.i + 1 < st.body.length),
        List.getElem?_eq_getElem htwo]
      exact ⟨_, rfl⟩
  split
  · exact ⟨_, rfl⟩
  · exact ⟨_, rfl⟩

/-! ## The escapes ahead -/

variable {body : Bytes} {i m : Nat}

theorem escapes_other {ch : UInt8} (h : body[i]? = some ch) (hch : ch ≠ 37) :
    escapes i (m + 1) (body.drop i)
      = escapes (i + 1) m (body.drop (i + 1)) := by
  obtain ⟨hlt, rfl⟩ := List.getElem?_eq_some_iff.mp h
  rw [List.drop_eq_getElem_cons hlt, escapes.eq_def]
  simp only [if_neg hch]

theorem escapes_escape (h : body[i]? = some 37) (htwo : i + 2 < body.length) :
    escapes i (m + 1) (body.drop i) =
      i :: escapes (i + 3) (m - 2) (body.drop (i + 3)) := by
  obtain ⟨hlt, hpct⟩ := List.getElem?_eq_some_iff.mp h
  rw [List.drop_eq_getElem_cons hlt,
    List.drop_eq_getElem_cons (by omega : i + 1 < body.length),
    List.drop_eq_getElem_cons (by omega : i + 1 + 1 < body.length), hpct,
    escapes.eq_def]
  simp only [if_pos]

theorem escapes_short (h : body[i]? = some 37) (htwo : ¬ i + 2 < body.length) :
    escapes i (m + 1) (body.drop i) = [i] := by
  obtain ⟨hlt, hpct⟩ := List.getElem?_eq_some_iff.mp h
  have hrest : (body.drop (i + 1)).length < 2 := by
    rw [List.length_drop]
    omega
  rw [List.drop_eq_getElem_cons hlt, hpct, escapes.eq_def]
  simp only [if_pos]
  cases hs : body.drop (i + 1) with
  | nil => rfl
  | cons c₁ s =>
      cases s with
      | nil => rfl
      | cons c₂ s =>
          rw [hs] at hrest
          simp only [List.length_cons] at hrest
          omega

/-- An escape with its two bytes behind it, at an index from which an `int` can
step over it. -/
def Held (size k : Nat) : Prop := k + 2 < size ∧ k + 3 < 2 ^ 31

/-! ## Staying inside -/

variable {r : HttpRequest}

/-- The decoder on its way, when the escapes ahead are held. -/
structure Inside (r : HttpRequest) (st : FormState) : Prop where
  length : st.body.length = r.body.length
  order : st.j ≤ st.i
  start : st.j ≤ r.body.length
  index : st.i < 2 ^ 31
  ahead : ∀ k ∈ escapes st.i (toInt r.body.length - st.i).toNat
    (st.body.drop st.i), Held r.body.length k

/-- One round of those that are left at an index. -/
theorem steps_left {i : Nat} (hi : (i : Int) < n) :
    (n - i).toNat = (n - (i + 1 : Nat)).toNat + 1 := by omega

theorem steps_sub {i : Nat} :
    (n - (i + 3 : Nat)).toNat = (n - (i + 1 : Nat)).toNat - 2 := by omega

theorem Inside.round (h : Inside r st)
    (hround : formRound (toInt r.body.length) st = .ok (.inl st')) :
    Inside r st' := by
  obtain ⟨hi, hlen, hj, hdrop, hcase⟩ := formRound_inl hround
  have hlength := h.length
  have horder := h.order
  have hahead := h.ahead
  have hn := toInt_lt r.body.length
  have hle := toInt_toNat_le r.body.length
  have hsize : st.i < r.body.length := by omega
  rw [steps_left hi] at hahead
  rcases hcase with ⟨hpct, htwo, hi'⟩ | ⟨ch, hch, hget, hi'⟩
  · rw [escapes_escape hpct htwo] at hahead
    obtain ⟨-, hindex⟩ := hahead st.i List.mem_cons_self
    refine ⟨hlen.trans hlength, by omega, by omega, by omega, ?_⟩
    rw [hdrop, hi', steps_sub]
    exact fun k hk => hahead k (List.mem_cons_of_mem _ hk)
  · rw [escapes_other hget hch] at hahead
    refine ⟨hlen.trans hlength, by omega, by omega, by omega, ?_⟩
    rw [hdrop, hi']
    exact hahead

theorem inside_reachable
    (hesc : ∀ k ∈ escapes 0 (toInt r.body.length).toNat r.body,
      Held r.body.length k) (h : (formLoop r).Reachable st) : Inside r st := by
  refine h.invariant (I := Inside r) ?_
    fun st _ st' _ hinside hround => hinside.round hround
  intro st hst
  obtain rfl : st = r.formStart := hst
  have hindex : r.formStart.i < 2 ^ 31 := by
    show (0 : Nat) < 2 ^ 31
    omega
  refine ⟨rfl, Nat.le_refl _, Nat.zero_le _, hindex, ?_⟩
  rw [formStart]
  simp only [Nat.cast_zero, Int.sub_zero, List.drop_zero]
  exact hesc

theorem Inside.touches (h : Inside r st) :
    ∀ k ∈ touched (toInt r.body.length) st, 0 ≤ k ∧ k < r.body.length := by
  have hlength := h.length
  have hahead := h.ahead
  have hle := toInt_toNat_le r.body.length
  have hindex := toInt_of_lt h.index
  rw [touched]
  by_cases hi : toInt st.i < toInt r.body.length
  · rw [if_pos hi]
    rw [hindex] at hi ⊢
    rw [steps_left hi] at hahead
    by_cases hpct : st.body[st.i]? = some 37
    · have hheld : Held r.body.length st.i := by
        by_cases htwo : st.i + 2 < st.body.length
        · rw [escapes_escape hpct htwo] at hahead
          exact hahead st.i List.mem_cons_self
        · rw [escapes_short hpct htwo] at hahead
          exact hahead st.i List.mem_cons_self
      obtain ⟨htwo, hthree⟩ := hheld
      rw [if_pos hpct, toInt_of_lt (by omega : st.i + 1 < 2 ^ 31),
        toInt_of_lt (by omega : st.i + 2 < 2 ^ 31)]
      intro k hk
      simp only [List.mem_cons, List.not_mem_nil, or_false] at hk
      omega
    · rw [if_neg hpct]
      intro k hk
      rw [List.mem_singleton] at hk
      omega
  · rw [if_neg hi]
    intro k hk
    cases hk

theorem Inside.substr (h : Inside r st) :
    ∀ j ∈ starts (toInt r.body.length) st, j ≤ r.body.length := by
  have hj : ∀ j ∈ starts (toInt r.body.length) st, j = st.j := by
    intro j
    rw [starts]
    split
    · split <;> simp
    split <;> simp
  intro j hmem
  rw [hj j hmem]
  exact h.start

/-! ## And only then -/

theorem length_reachable (h : (formLoop r).Reachable st) :
    st.body.length = r.body.length := by
  refine h.invariant (I := fun st => st.body.length = r.body.length) ?_ ?_
  · intro st hst
    cases hst
    rfl
  · intro st _ st' _ hlen hround
    exact (formRound_inl hround).2.1.trans hlen

/-- The index stays an `int`, or the next thing it touches is out of the
body. -/
theorem index_reachable (h : StaysInside r)
    (hst : (formLoop r).Reachable st) : st.i < 2 ^ 31 := by
  cases hst with
  | start hst =>
      obtain rfl : st = r.formStart := hst
      show (0 : Nat) < 2 ^ 31
      omega
  | @next st₀ _ _ hst₀ hround =>
      obtain ⟨hi, -, -, -, hcase⟩ := formRound_inl hround
      have hn := toInt_lt r.body.length
      by_contra hover
      have hneg : toInt st.i < 0 := toInt_neg (by omega) (by omega)
      have hin : toInt st.i ∈ touched (toInt r.body.length) st := by
        rw [touched, if_pos (by omega)]
        split <;> simp
      have hpos := (h.touches st (hst₀.next hround) _ hin).1
      omega

/-- The bytes of a round are there, and so is the round. -/
theorem next_of_staysInside (h : StaysInside r)
    (hst : (formLoop r).Reachable st)
    (hi : (st.i : Int) < toInt r.body.length) :
    (st.body[st.i]? = some 37 → st.i + 2 < st.body.length) ∧
      ∃ st', (formLoop r).Reachable st' ∧
        formRound (toInt r.body.length) st = .ok (.inl st') := by
  have hlength := length_reachable hst
  have hindex := index_reachable h hst
  have hsame := toInt_of_lt hindex
  have htouch := h.touches st hst
  rw [touched, if_pos (by omega)] at htouch
  have hlt := (htouch (toInt st.i) (by split <;> simp)).2
  have hpct : st.body[st.i]? = some 37 → st.i + 2 < st.body.length := by
    intro hpct
    rw [if_pos hpct] at htouch
    have htwo := htouch (toInt (st.i + 2)) (by simp)
    rw [toInt_of_lt (of_toInt_nonneg (by omega) htwo.1)] at htwo
    omega
  obtain ⟨st', hround⟩ := formRound_next hi (by omega) hpct
  exact ⟨hpct, st', hst.next (a := ()) hround, hround⟩

/-- By induction on how far it is to the end of the loop. -/
theorem held_of_staysInside (h : StaysInside r) : ∀ (m : Nat) {st : FormState},
    (formLoop r).Reachable st → (toInt r.body.length - st.i).toNat = m →
    ∀ k ∈ escapes st.i m (st.body.drop st.i), Held r.body.length k := by
  intro m
  induction m using Nat.strongRecOn with
  | ind m ih =>
      intro st hst hm
      by_cases hi : (st.i : Int) < toInt r.body.length
      · obtain ⟨htwo, st', hst', hround⟩ := next_of_staysInside h hst hi
        have hlength := length_reachable hst
        have hindex' := index_reachable h hst'
        obtain ⟨-, -, -, hdrop, hcase⟩ := formRound_inl hround
        rw [steps_left hi] at hm
        generalize hleft : (toInt r.body.length - (st.i + 1 : Nat)).toNat = k
          at hm
        subst hm
        rcases hcase with ⟨hpct, hheld, hnext⟩ | ⟨ch, hch, hget, hnext⟩
        · rw [escapes_escape hpct hheld]
          have hrest := ih (k - 2) (by omega) hst'
            (by rw [hnext, steps_sub, hleft])
          rw [hdrop, hnext] at hrest
          intro k hk
          rcases List.mem_cons.mp hk with rfl | hk
          · exact ⟨by omega, by omega⟩
          · exact hrest k hk
        · rw [escapes_other hget hch]
          have hrest := ih k (Nat.lt_succ_self k) hst' (by rw [hnext, hleft])
          rw [hdrop, hnext] at hrest
          exact hrest
      · obtain rfl : m = 0 := by omega
        intro k hk
        rw [escapes] at hk
        cases hk

theorem held_of_staysInside_start (h : StaysInside r) :
    ∀ k ∈ escapes 0 (toInt r.body.length).toNat r.body,
      Held r.body.length k := by
  have hstart : (formLoop r).Reachable r.formStart := .start rfl
  have hheld := held_of_staysInside h _ hstart rfl
  rw [formStart] at hheld
  simp only [Nat.cast_zero, Int.sub_zero, List.drop_zero] at hheld
  exact hheld

/-- The decoder stays inside the body exactly when every escape it comes to
does. -/
theorem formStaysInside_iff (r : HttpRequest) :
    StaysInside r ↔ ∀ k ∈ escapes 0 (toInt r.body.length).toNat r.body,
      Held r.body.length k := by
  constructor
  · exact held_of_staysInside_start
  · intro hesc
    exact ⟨fun st hst => (inside_reachable hesc hst).touches,
      fun st hst => (inside_reachable hesc hst).substr,
      fun st hst _ => (inside_reachable hesc hst).order⟩

/-- A posted form of one `%`. -/
def bareEscape : HttpRequest :=
  { construct .body .fileRequest false false with
    method := lit "POST", body := [37]
    headers := Dict.empty.insert (lit "Content-Type") formType }

/-- The two bytes that are not there are looked at and written to. -/
theorem bareEscape_leaves : ¬ ∀ r, StaysInside r := by
  intro h
  have hstart : (formLoop bareEscape).Reachable bareEscape.formStart :=
    .start rfl
  have htouch := (h bareEscape).touches _ hstart
  have hsize : bareEscape.body.length = 1 := rfl
  have hget : bareEscape.formStart.body[bareEscape.formStart.i]? = some 37 :=
    rfl
  have hi : bareEscape.formStart.i = 0 := rfl
  rw [touched, hget, hi, hsize, toInt_of_lt (by omega : 0 < 2 ^ 31),
    toInt_of_lt (by omega : 1 < 2 ^ 31),
    toInt_of_lt (by omega : 0 + 2 < 2 ^ 31), if_pos (by omega), if_pos rfl]
    at htouch
  have hout := (htouch (0 + 2 : Nat) (by simp)).2
  omega

/-! ## The outcome -/

theorem escapedTo_of_held : ∀ (n i : Nat) (s : Bytes), n ≤ s.length →
    (∀ k ∈ escapes i n s, k + 2 < i + s.length) → EscapedTo n s := by
  intro n i s
  fun_induction escapes i n s with
  | case1 i s =>
      intro _ _
      rw [EscapedTo]
      trivial
  | case2 i n =>
      intro hn _
      simp at hn
  | case3 i n c₁ c₂ s ih =>
      intro hn hheld
      simp only [List.length_cons] at hn hheld
      rw [EscapedTo, if_pos rfl]
      refine ih (by omega) fun k hk => ?_
      have hk := hheld k (List.mem_cons_of_mem i hk)
      omega
  | case4 i n s hs =>
      intro hn hheld
      have hend := hheld i List.mem_cons_self
      cases s with
      | nil => simp at hend
      | cons c₁ s =>
          cases s with
          | nil => simp at hend
          | cons c₂ s => exact absurd rfl (hs c₁ c₂ s)
  | case5 i n ch s hch ih =>
      intro hn hheld
      simp only [List.length_cons] at hn hheld
      rw [EscapedTo.eq_def]
      simp only [if_neg hch]
      refine ih (by omega) fun k hk => ?_
      have hk := hheld k hk
      omega

/-- A decoder that stays inside the body comes to its end. -/
theorem StaysInside.handleForm (h : StaysInside r) :
    ∃ r', r.handleForm = .ok r' := by
  have hesc : EscapedTo (toInt r.body.length).toNat r.body := by
    refine escapedTo_of_held _ 0 _ (toInt_toNat_le _) fun k hk => ?_
    rw [Nat.zero_add]
    exact (held_of_staysInside_start h k hk).1
  rw [← avoids_all_iff, handleForm_eq]
  refine avoids_bind_pure.mpr ?_
  refine (decodeForm_stream r.body).avoids_iff.mpr ?_
  rw [stream_avoids]
  exact fun _ => hesc

end HttpRequest

end TinyWebServer
