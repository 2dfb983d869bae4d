import TinyWebServer.Proofs.Message

/-!
# What a form body says, and what it does to a form

The form decoder rewrites the body, cuts keys and values out of it and stores
them as it goes, but it never looks at the form while it loops. So what the
body says can be read off the body alone: `decodeForm` is the same loop with a
list of pairs in place of the map. Storing comes after, and only the last pair
asks what is there already (`storeForm`).

`storeForm_eq_empty_iff` answers when a form that held something before ends
up as if it had been empty.
-/

namespace TinyWebServer

open Lib

/-- What a form body decodes to: the body as rewritten, the pairs that an `&`
ended, in order, and the pair behind the last one. -/
structure FormBody where
  body : Bytes
  pairs : List (Bytes × Bytes)
  last : Option (Bytes × Bytes)
  deriving DecidableEq, Repr

namespace HttpRequest

/-- `FormState` with the pairs stored so far in place of the form. -/
structure PairState where
  body : Bytes
  key : Bytes
  i : Nat
  j : Nat
  pairs : List (Bytes × Bytes)
  deriving DecidableEq, Repr

def PairState.substr (st : PairState) : Bytes :=
  (st.body.drop st.j).take (st.i - st.j)

/-- `formRound`, recording instead of storing. -/
def pairRound (n : Int) (st : PairState) :
    Except Fault (PairState ⊕ PairState) :=
  if ¬ (st.i : Int) < n then
    .ok (.inr st)
  else
    match st.body[st.i]? with
    | none => .error .outOfBounds
    | some ch =>
        if ch = 61 then
          .ok (.inl { st with
            key := st.substr, j := st.i + 1, i := st.i + 1 })
        else if ch = 43 then
          .ok (.inl { st with body := st.body.set st.i 32, i := st.i + 1 })
        else if ch = 37 then
          match st.body[st.i + 1]?, st.body[st.i + 2]? with
          | some c₁, some c₂ =>
              let num := converHex c₁ * 16 + converHex c₂
              let body := st.body.set (st.i + 2) (ofInt (num.tmod 10 + 48))
              let body := body.set (st.i + 1) (ofInt (num.tdiv 10 + 48))
              .ok (.inl { st with body, i := st.i + 3 })
          | _, _ => .error .outOfBounds
        else if ch = 38 then
          .ok (.inl { st with
            j := st.i + 1, i := st.i + 1
            pairs := st.pairs ++ [(st.key, st.substr)] })
        else
          .ok (.inl { st with i := st.i + 1 })

def decodeForm (body : Bytes) : Except Fault FormBody :=
  if body = [] then
    pure ⟨[], [], none⟩
  else do
    let n := toInt body.length
    let st ← loop (pairRound n) .diverged (n.toNat + 1)
      { body, key := [], i := 0, j := 0, pairs := [] }
    check (st.j ≤ st.i) .handleForm
    pure ⟨st.body, st.pairs,
      if st.j < st.i then some (st.key, st.substr) else none⟩

/-- Store a decoded body: every pair, then the last one if its key is new. -/
def storeForm (form : Dict Bytes Bytes) (d : FormBody) : Dict Bytes Bytes :=
  let form := form.insertAll d.pairs
  match d.last with
  | some (key, value) =>
      if form key = none then form.insert key value else form
  | none => form

/-- The two loops see the same body, and the form is the recorded pairs on top
of where it started. -/
def Records (form : Dict Bytes Bytes) (st : FormState) (ps : PairState) :
    Prop :=
  st = ⟨ps.body, ps.key, ps.i, ps.j, form.insertAll ps.pairs⟩

theorem formRound_agree (form : Dict Bytes Bytes) (n : Int)
    (st : FormState) (ps : PairState) (h : Records form st ps) :
    Agree (RoundAgree (Records form) (Records form)) (formRound n st)
      (pairRound n ps) := by
  obtain ⟨body, key, i, j, pairs⟩ := ps
  cases h
  simp only [formRound, pairRound]
  split
  · exact rfl
  · cases body[i]? with
    | none => exact rfl
    | some ch =>
        simp only []
        split
        · exact rfl
        split
        · exact rfl
        split
        · cases body[i + 1]? with
          | none => exact rfl
          | some c₁ =>
              cases body[i + 2]? with
              | none => exact rfl
              | some c₂ => exact rfl
        split
        · show Records form _ _
          rw [Records, Dict.insertAll_append]
          rfl
        · exact rfl

/-- The decoder is decoding, then storing. -/
theorem handleForm_eq (r : HttpRequest) :
    r.handleForm = (do
      let d ← decodeForm r.body
      pure { r with body := d.body, form := storeForm r.form d }) := by
  rw [handleForm, decodeForm]
  by_cases hb : r.body = []
  · rw [if_pos hb, if_pos hb]
    show Except.ok r = Except.ok { r with body := [], form := r.form }
    rw [← hb]
  · rw [if_neg hb, if_neg hb]
    simp only []
    generalize toInt r.body.length = n
    generalize n.toNat + 1 = fuel
    have hloop : Agree (Records r.form)
        (loop (formRound n) Fault.diverged fuel ⟨r.body, [], 0, 0, r.form⟩)
        (loop (pairRound n) Fault.diverged fuel ⟨r.body, [], 0, 0, []⟩) :=
      loop_rel (formRound_agree r.form n) fuel _ _ rfl
    cases hst : loop (formRound n) Fault.diverged fuel
        ⟨r.body, [], 0, 0, r.form⟩ with
    | error e =>
        rw [hst] at hloop
        cases hps : loop (pairRound n) Fault.diverged fuel
            ⟨r.body, [], 0, 0, []⟩ with
        | error e' =>
            rw [hps] at hloop
            cases hloop
            rfl
        | ok ps => rw [hps] at hloop; exact hloop.elim
    | ok st =>
        rw [hst] at hloop
        obtain ⟨ps, hps, hrec⟩ := hloop.ok_left
        cases hrec
        rw [hps]
        simp only [ok_bind]
        by_cases hji : ps.j ≤ ps.i
        · simp only [check_pos hji, ok_bind, storeForm]
          congr 1
          by_cases hlt : ps.j < ps.i
          · simp only [formTail, hlt, and_true, if_true]
            rfl
          · simp only [formTail, hlt, and_false, if_false]
        · simp only [check_neg hji]
          rfl

/-! ## A message with a form in it -/

/-- A message's request line and header fields, taken into a request. -/
def takeHead (r : HttpRequest) (m : Message) : HttpRequest :=
  { r with
    code := .fileRequest, method := m.method, path := m.target
    version := m.version, status := m.part
    headers := r.headers.insertAll m.fields }

/-- The body is handled as a form when the header map says so, and the map may
say so because of an earlier request. -/
def FormIn (r : HttpRequest) (m : Message) : Prop :=
  m.method = lit "POST" ∧
    r.headers.insertAll m.fields (lit "Content-Type") = some formType

instance (r : HttpRequest) (m : Message) : Decidable (r.FormIn m) :=
  inferInstanceAs (Decidable (_ ∧ _))

theorem absorb_eq (r : HttpRequest) (m : Message) :
    r.absorb m =
      match m.body with
      | none => .ok (r.takeHead m)
      | some bytes =>
          if r.FormIn m then do
            let d ← decodeForm bytes
            pure { r.takeHead m with
              body := d.body, form := storeForm r.form d }
          else .ok { r.takeHead m with body := bytes } := by
  rw [absorb, absorbFields.eq_def]
  cases m.body with
  | none => rfl
  | some bytes =>
      simp only []
      by_cases hf : r.FormIn m
      · rw [if_pos hf, handlePostBody]
        exact (if_pos hf).trans (handleForm_eq _)
      · rw [if_neg hf, handlePostBody]
        exact if_neg hf

theorem absorb_bodyless {m : Message} (r : HttpRequest) (h : m.body = none) :
    r.absorb m = .ok (r.takeHead m) := by rw [absorb_eq, h]

/-! ## When the form's past does not show -/

/-- A key that had a value when the pairs were stored keeps it. -/
theorem storeForm_of_some {form : Dict Bytes Bytes} {d : FormBody}
    {k v : Bytes} (h : form.insertAll d.pairs k = some v) :
    storeForm form d k = some v := by
  cases hd : d.last with
  | none => simp only [storeForm, hd, h]
  | some last =>
      simp only [storeForm, hd]
      split
      · next hnew =>
          have hk : k ≠ last.1 := by
            rintro rfl
            rw [hnew] at h
            cases h
          rw [Dict.insert_other _ _ hk, h]
      · exact h

/-- A key that had none gets the value of the last pair, if it is its. -/
theorem storeForm_of_none {form : Dict Bytes Bytes} {d : FormBody}
    {k : Bytes} (h : form.insertAll d.pairs k = none) (v : Bytes) :
    storeForm form d k = some v ↔ d.last = some (k, v) := by
  cases hd : d.last with
  | none => simp only [storeForm, hd, h, reduceCtorEq]
  | some last =>
      obtain ⟨key, value⟩ := last
      simp only [storeForm, hd, Option.some.injEq, Prod.mk.injEq]
      by_cases hk : k = key
      · subst hk
        rw [if_pos h, Dict.insert_self]
        simp
      · have hnone : (if form.insertAll d.pairs key = none then
            (form.insertAll d.pairs).insert key value
            else form.insertAll d.pairs) k = none := by
          split
          · rw [Dict.insert_other _ _ hk, h]
          · exact h
        rw [hnone]
        exact iff_of_false (by simp) fun heq => hk heq.1.symm

/-- One key at a time: the form's past shows in a value that is neither
stored again nor the last pair's. -/
theorem storeForm_eq_empty_at_iff {form : Dict Bytes Bytes} {d : FormBody}
    {k : Bytes} : storeForm form d k = storeForm Dict.empty d k ↔
      ∀ v, form k = some v →
        k ∈ Dict.keys d.pairs ∨ d.last = some (k, v) := by
  by_cases hk : k ∈ Dict.keys d.pairs
  · obtain ⟨v, hv⟩ := Option.ne_none_iff_exists'.mp
      (Dict.insertAll_ne_none (m := form) hk)
    have hv' : (Dict.empty : Dict Bytes Bytes).insertAll d.pairs k = some v :=
      (Dict.insertAll_of_mem hk).trans hv
    rw [storeForm_of_some hv, storeForm_of_some hv']
    exact iff_of_true rfl fun _ _ => .inl hk
  · have hpast : form.insertAll d.pairs k = form k :=
      Dict.insertAll_of_not_mem hk
    have hempty : (Dict.empty : Dict Bytes Bytes).insertAll d.pairs k = none :=
      Dict.insertAll_of_not_mem hk
    cases hf : form k with
    | none =>
        refine iff_of_true (Option.ext fun v => ?_) fun v hv => by cases hv
        rw [storeForm_of_none (hpast.trans hf) v, storeForm_of_none hempty v]
    | some v =>
        rw [storeForm_of_some (hpast.trans hf), eq_comm,
          storeForm_of_none hempty v]
        constructor
        · intro h v' hv'
          cases hv'
          exact .inr h
        · intro h
          exact (h v rfl).resolve_left hk

/-- A stored body leaves a form as it would leave an empty one exactly when
everything the form held is stored again by a pair, or is the last pair. -/
theorem storeForm_eq_empty_iff {form : Dict Bytes Bytes} {d : FormBody} :
    storeForm form d = storeForm Dict.empty d ↔
      ∀ key value, form key = some value →
        key ∈ Dict.keys d.pairs ∨ d.last = some (key, value) := by
  rw [funext_iff]
  exact forall_congr' fun k => storeForm_eq_empty_at_iff

end HttpRequest

end TinyWebServer
