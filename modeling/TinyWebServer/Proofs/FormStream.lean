import TinyWebServer.Proofs.Form

/-!
# The form decoder as a stream

The decoder works on indices into a body it rewrites as it goes, but what it
overwrites it never looks at again, and what it cuts out is always the stretch
between the last separator and where it stands. So it is a pass over the bytes
with three things in hand (`Cut`): the key of the last `=`, the stretch being
read, and the pairs stored so far.

`stream` is that pass, over the first `n` bytes of a text, and
`decodeForm_stream` says that the loop on indices computes it. `n` is the size
of the body narrowed to an `int`, so on a body of `2 ^ 31` bytes or more it is
not the size.
-/

namespace TinyWebServer

open Lib

namespace HttpRequest

/-- What the decoder has in hand. -/
structure Cut where
  key : Bytes
  cur : Bytes
  pairs : List (Bytes × Bytes)
  deriving DecidableEq, Repr

/-- What it starts with. -/
def Cut.start : Cut := ⟨[], [], []⟩

/-- What stands where an escape stood: the three bytes stay three, the two
digits now spelling the number in base ten. -/
def escape (c₁ c₂ : UInt8) : Bytes :=
  let num := converHex c₁ * 16 + converHex c₂
  [37, ofInt (num.tdiv 10 + 48), ofInt (num.tmod 10 + 48)]

def Cut.append (c : Cut) (s : Bytes) : Cut := { c with cur := c.cur ++ s }

/-- A byte that opens no escape. -/
def Cut.take (c : Cut) (ch : UInt8) : Cut :=
  if ch = 61 then
    { c with key := c.cur, cur := [] }
  else if ch = 43 then
    c.append [32]
  else if ch = 38 then
    { c with cur := [], pairs := c.pairs ++ [(c.key, c.cur)] }
  else
    c.append [ch]

/-- The pair behind the last `&`, if anything stands there. -/
def Cut.last (c : Cut) : Option (Bytes × Bytes) :=
  if c.cur = [] then none else some (c.key, c.cur)

def stream : Nat → Bytes → Cut → Except Fault Cut
  | 0, _, c => .ok c
  | _ + 1, [], _ => .error .outOfBounds
  | n + 1, ch :: s, c =>
      if ch = 37 then
        match s with
        | c₁ :: c₂ :: s => stream (n - 2) s (c.append (escape c₁ c₂))
        | _ => .error .outOfBounds
      else
        stream n s (c.take ch)

/-- The decoder on indices has read everything but `s`, and holds `c`. -/
def Sees (st : PairState) (s : Bytes) (c : Cut) : Prop :=
  ∃ front, st = ⟨front ++ (c.cur ++ s), c.key, front.length + c.cur.length,
    front.length, c.pairs⟩

theorem substr_of_sees {st : PairState} {s : Bytes} {c : Cut}
    (h : Sees st s c) : st.substr = c.cur := by
  obtain ⟨front, rfl⟩ := h
  simp [PairState.substr]

theorem getElem?_of_sees {st : PairState} {s : Bytes} {c : Cut}
    (h : Sees st s c) (k : Nat) : st.body[st.i + k]? = s[k]? := by
  obtain ⟨front, rfl⟩ := h
  simp only []
  rw [← List.append_assoc, List.getElem?_append_right (by simp)]
  congr 1
  simp only [List.length_append]
  omega

theorem set_same {body : Bytes} {i : Nat} {ch : UInt8}
    (h : body[i]? = some ch) : body.set i ch = body := by
  obtain ⟨hi, rfl⟩ := List.getElem?_eq_some_iff.mp h
  exact List.set_getElem_self hi

/-- A separator: what was in hand is cut off, and nothing is. -/
theorem sees_cut {st : PairState} {s : Bytes} {c : Cut} {ch : UInt8}
    (h : Sees st (ch :: s) c) (key : Bytes) (pairs : List (Bytes × Bytes)) :
    Sees ⟨st.body, key, st.i + 1, st.i + 1, pairs⟩ s ⟨key, [], pairs⟩ := by
  obtain ⟨front, rfl⟩ := h
  refine ⟨front ++ c.cur ++ [ch], ?_⟩
  simp [Nat.add_assoc]

/-- Bytes read, perhaps overwritten, and kept in hand. -/
theorem sees_append {st : PairState} {s : Bytes} {c : Cut} (old new : Bytes)
    (h : Sees st (old ++ s) c) (hlen : new.length = old.length) :
    Sees ⟨writeAt st.body st.i new, st.key, st.i + old.length, st.j,
      st.pairs⟩ s (c.append new) := by
  obtain ⟨front, rfl⟩ := h
  refine ⟨front, ?_⟩
  simp only [Cut.append, PairState.mk.injEq, and_true, true_and,
    List.length_append]
  refine ⟨?_, by omega⟩
  rw [writeAt_eq (by simp only [List.length_append]; omega), hlen]
  simp only [← List.append_assoc]
  rw [← List.length_append, List.append_assoc (front ++ c.cur) old s,
    List.take_left, ← List.append_assoc, ← List.length_append, List.drop_left]

/-! ## One round -/

variable {st : PairState} {s : Bytes} {c : Cut} {n : Int}

theorem pairRound_leave (hi : ¬ (st.i : Int) < n) :
    pairRound n st = .ok (.inr st) := by rw [pairRound, if_pos hi]

theorem pairRound_take {ch : UInt8} (h : Sees st (ch :: s) c)
    (hi : (st.i : Int) < n) (hch : ch ≠ 37) :
    ∃ st', pairRound n st = .ok (.inl st') ∧ st'.i = st.i + 1 ∧
      Sees st' s (c.take ch) := by
  have hget : st.body[st.i]? = some ch := getElem?_of_sees h 0
  have hsub := substr_of_sees h
  have hkey : st.key = c.key := by obtain ⟨front, rfl⟩ := h; rfl
  have hpairs : st.pairs = c.pairs := by obtain ⟨front, rfl⟩ := h; rfl
  rw [pairRound, if_neg (not_not.mpr hi), hget, Cut.take]
  simp only [hsub]
  by_cases heq : ch = 61
  · rw [if_pos heq, if_pos heq, hpairs]
    exact ⟨_, rfl, rfl, sees_cut h _ _⟩
  rw [if_neg heq, if_neg heq]
  by_cases hplus : ch = 43
  · rw [if_pos hplus, if_pos hplus]
    exact ⟨_, rfl, rfl, sees_append [ch] [32] h rfl⟩
  rw [if_neg hplus, if_neg hplus, if_neg hch]
  by_cases hamp : ch = 38
  · rw [if_pos hamp, if_pos hamp, hpairs, hkey]
    exact ⟨_, rfl, rfl, sees_cut h _ _⟩
  · rw [if_neg hamp, if_neg hamp]
    refine ⟨_, rfl, rfl, ?_⟩
    have hstay := sees_append [ch] [ch] h rfl
    rwa [show writeAt st.body st.i [ch] = st.body from set_same hget]
      at hstay

theorem pairRound_escape {c₁ c₂ : UInt8} (h : Sees st (37 :: c₁ :: c₂ :: s) c)
    (hi : (st.i : Int) < n) :
    ∃ st', pairRound n st = .ok (.inl st') ∧ st'.i = st.i + 3 ∧
      Sees st' s (c.append (escape c₁ c₂)) := by
  have hget : st.body[st.i]? = some 37 := getElem?_of_sees h 0
  have h₁ : st.body[st.i + 1]? = some c₁ := getElem?_of_sees h 1
  have h₂ : st.body[st.i + 2]? = some c₂ := getElem?_of_sees h 2
  have hnew := sees_append [37, c₁, c₂] (escape c₁ c₂) h (by simp [escape])
  rw [pairRound, if_neg (not_not.mpr hi), hget]
  simp only [h₁, h₂]
  refine ⟨_, rfl, rfl, ?_⟩
  simp only [escape, writeAt, set_same hget] at hnew
  rw [List.set_comm _ _ (by omega)]
  exact hnew

theorem pairRound_short (h : Sees st (37 :: s) c) (hi : (st.i : Int) < n)
    (hs : s.length < 2) : pairRound n st = .error .outOfBounds := by
  have hget : st.body[st.i]? = some 37 := getElem?_of_sees h 0
  have h₂ : st.body[st.i + 2]? = none := by
    rw [getElem?_of_sees h 2, List.getElem?_eq_none]
    simp only [List.length_cons]
    omega
  rw [pairRound, if_neg (not_not.mpr hi), hget]
  simp only [h₂]
  cases st.body[st.i + 1]? with
  | none => rfl
  | some c₁ => rfl

/-! ## The whole loop -/

/-- The loop on indices and the pass over the bytes: `n` is where the loop
stops, `k` how far that is. -/
theorem pairLoop_stream : ∀ (fuel k : Nat) {st : PairState} {s : Bytes}
    {c : Cut}, Sees st s c → k = (n - st.i).toNat → k < fuel →
    Agree (fun st c => ∃ s, Sees st s c)
      (loop (pairRound n) Fault.diverged fuel st) (stream k s c) := by
  intro fuel
  induction fuel with
  | zero => intro k st s c _ _ hfuel; omega
  | succ fuel ih =>
      intro k st s c h hk hfuel
      cases k with
      | zero =>
          rw [loop_leave (pairRound_leave (by omega)), stream]
          exact ⟨s, h⟩
      | succ k =>
          have hi : (st.i : Int) < n := by omega
          cases s with
          | nil =>
              have hget : st.body[st.i]? = none := getElem?_of_sees h 0
              rw [loop, pairRound, if_neg (not_not.mpr hi), hget, stream]
              rfl
          | cons ch s =>
              rw [stream.eq_def]
              simp only []
              by_cases hch : ch = 37
              · subst hch
                rw [if_pos rfl]
                cases s with
                | nil => rw [loop, pairRound_short h hi (by simp)]; rfl
                | cons c₁ s =>
                    cases s with
                    | nil => rw [loop, pairRound_short h hi (by simp)]; rfl
                    | cons c₂ s =>
                        obtain ⟨st', hround, hst', hsees⟩ :=
                          pairRound_escape h hi
                        rw [loop_round hround]
                        exact ih (k - 2) hsees (by omega) (by omega)
              · rw [if_neg hch]
                obtain ⟨st', hround, hst', hsees⟩ := pairRound_take h hi hch
                rw [loop_round hround]
                exact ih k hsees (by omega) (by omega)

theorem decodeForm_stream (body : Bytes) :
    Agree (fun d c => d.pairs = c.pairs ∧ d.last = c.last) (decodeForm body)
      (stream (toInt body.length).toNat body Cut.start) := by
  rw [decodeForm]
  by_cases hb : body = []
  · rw [if_pos hb, hb]
    exact ⟨rfl, rfl⟩
  rw [if_neg hb]
  simp only []
  generalize hn : toInt body.length = n
  have hstart : Sees ⟨body, [], 0, 0, []⟩ body Cut.start := ⟨[], rfl⟩
  have hloop := pairLoop_stream (n := n) (n.toNat + 1) n.toNat hstart
    (by simp) (by omega)
  cases hs : stream n.toNat body Cut.start with
  | error e =>
      rw [hs] at hloop
      cases hl : loop (pairRound n) Fault.diverged (n.toNat + 1)
          ⟨body, [], 0, 0, []⟩ with
      | error e' => rw [hl] at hloop; exact hloop
      | ok st => rw [hl] at hloop; exact hloop.elim
  | ok c =>
      rw [hs] at hloop
      obtain ⟨st, hl, s, hsees⟩ := hloop.ok_right
      have hsub := substr_of_sees hsees
      obtain ⟨front, rfl⟩ := hsees
      rw [hl]
      simp only [ok_bind]
      rw [check_pos (Nat.le_add_right _ _)]
      refine ⟨rfl, ?_⟩
      show (if front.length < front.length + c.cur.length then _ else none)
        = c.last
      rw [hsub, Cut.last]
      by_cases hcur : c.cur = []
      · rw [if_pos hcur, if_neg (by simp [hcur])]
      · have hpos := List.length_pos_iff.mpr hcur
        rw [if_neg hcur, if_pos (by omega)]

/-! ## Bodies the decoder stays inside of -/

/-- Every `%` the decoder comes to within the first `n` bytes has two bytes
behind it. -/
@[irreducible] def EscapedTo : Nat → Bytes → Prop
  | 0, _ => True
  | _ + 1, [] => False
  | n + 1, ch :: s =>
      if ch = 37 then
        match s with
        | _ :: _ :: s => EscapedTo (n - 2) s
        | _ => False
      else
        EscapedTo n s

/-- Nothing but a short escape stops the pass. -/
theorem stream_avoids {F : Fault → Prop} (n : Nat) (s : Bytes) (c : Cut) :
    Avoids F (stream n s c) ↔ (F .outOfBounds → EscapedTo n s) := by
  have hfail : Avoids F (.error .outOfBounds : Except Fault Cut) ↔
      (F .outOfBounds → False) := Iff.rfl
  fun_induction stream n s c with
  | case1 s c => simp [Avoids, EscapedTo]
  | case2 n c => rw [hfail, EscapedTo]
  | case3 n c c₁ c₂ s ih =>
      rw [EscapedTo, if_pos rfl]
      exact ih
  | case4 n c s hs =>
      rw [hfail, EscapedTo.eq_def]
      simp only [if_pos]
  | case5 n ch s c hch ih =>
      rw [EscapedTo.eq_def]
      simp only [if_neg hch]
      exact ih

theorem decodeForm_avoids {F : Fault → Prop} (body : Bytes) :
    Avoids F (decodeForm body) ↔
      (F .outOfBounds → EscapedTo (toInt body.length).toNat body) :=
  (decodeForm_stream body).avoids_iff.trans (stream_avoids _ _ _)

/-- So a body is decoded exactly when its escapes are whole. -/
theorem decodeForm_ok_iff {body : Bytes} :
    (∃ d, decodeForm body = .ok d) ↔
      EscapedTo (toInt body.length).toNat body := by
  have havoids := decodeForm_avoids (F := fun _ => True) body
  rw [forall_const] at havoids
  rw [← havoids]
  cases decodeForm body with
  | error e => simp [Avoids]
  | ok d => simp [Avoids]

/-- A body the decoder is given stops it only so. -/
theorem handlePostBody_avoids {F : Fault → Prop} (r : HttpRequest) :
    Avoids F r.handlePostBody ↔
      (r.method = lit "POST" →
        r.headers (lit "Content-Type") = some formType → F .outOfBounds →
          EscapedTo (toInt r.body.length).toNat r.body) := by
  rw [handlePostBody]
  by_cases h : r.method = lit "POST" ∧
      r.headers (lit "Content-Type") = some formType
  · rw [if_pos h, handleForm_eq]
    refine avoids_bind_pure.trans ?_
    refine (decodeForm_avoids r.body).trans ?_
    exact ⟨fun hesc _ _ => hesc, fun hesc => hesc h.1 h.2⟩
  · rw [if_neg h]
    exact iff_of_true trivial fun hm hc => absurd ⟨hm, hc⟩ h

/-- No assertion fails on a body, whatever it is. -/
theorem readBodyLine_asserts (r : HttpRequest) (s : Bytes) :
    Avoids (fun e => ∃ a, e = .assertFailed a) (r.readBodyLine s) := by
  rw [readBodyLine_eq, handlePostBody_avoids]
  intro _ _ hout
  obtain ⟨a, ha⟩ := hout
  cases ha

end HttpRequest

end TinyWebServer
