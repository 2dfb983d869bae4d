import TinyWebServer.Proofs.Log

/-!
# Logging with a lock held

`AddTask`, `GetConn` and `ReleaseConn` log before they give their lock up. On
a full deque `LOG` waits, and with the lock held everybody waits who has a
task to add or wants a connection. It is the log thread that they all wait
for, and the log thread takes neither lock: it pops, and they go on.
-/

namespace TinyWebServer

open Lib

namespace LogSystem

variable {Thread : Type} [DecidableEq Thread] [Fintype Thread] {cap : Nat}

omit [Fintype Thread] in
theorem alive_open {s : LogSystem Thread} (hs : (alive cap).Reachable s) :
    s.statue = .logOpen := by
  refine hs.invariant (I := fun s => s.statue = .logOpen) ?_ ?_
  · intro s hinit
    exact hinit.1
  rintro s a s' _ ih ⟨halive, h⟩
  cases h with
  | destroy t => exact absurd rfl (halive t)
  | _ => exact ih

omit [DecidableEq Thread] [Fintype Thread] in
theorem own_alive {s : LogSystem Thread} {a : LogLabel Thread}
    (h : s.Own a) (t : Thread) : a ≠ .destroy t := by
  intro ha
  subst ha
  exact h.2

/-- What the log owes to those who log. -/
theorem lends (hcap : 1 ≤ cap) :
    Locked.Lends (alive cap : TransitionSystem (LogSystem Thread) _) Begins
      Idle Own (fun s => s.statue = .logOpen) work 7 where
  potential s a s' hr hown h := work_potential s a s' hr.of_restrict hown h.2
  cost := by
    intro s t a s' hbegins hstep
    obtain ⟨call, rfl⟩ := hbegins
    cases hstep.2 with
    | log _ _ _ ht =>
        have hsum := total_update LogWriter.work s.writers t
          (.writing call.msg)
        simp only [ht, LogWriter.work] at hsum
        simp only [work, setWriter]
        omega
  stays := by
    rintro s a s' hopen - ⟨halive, h⟩
    cases h with
    | destroy t => exact absurd rfl (halive t)
    | _ => exact hopen
  own := by
    intro s a t hown hbegins
    obtain ⟨call, rfl⟩ := hbegins
    exact hown.2
  rest s hr hopen hfinal t := by
    have hrest := final_at_rest hcap hr.of_restrict hopen fun a s' h =>
      hfinal a s' ⟨h.1, own_alive h.1, h.2⟩
    have hidle := hrest.writers t
    exact ⟨hidle, .log t initSuccess, _, ⟨_, rfl⟩, by simp,
      .log t initSuccess hopen hidle⟩

/-- In every state that any interleaving of the log with the sections around it
gets to, as long as the log is open: no two threads hold the same lock; with
no new sections and nothing more logged, the threads take so many steps at
most; and when they can take no more every section is over, the locks are
free, nobody is in a `LOG`, and all that was pushed is on the console. -/
theorem sections_end (hcap : 1 ≤ cap)
    {s : Locked (LogSystem Thread) Thread OuterMutex}
    (hr : (guarded cap).Reachable s) :
    (∀ m t t', (s.place t).held = some m → (s.place t').held = some m →
      t = t') ∧
    (∀ as s', ((guarded cap).restrict (Locked.Own Own)).Run s as s' →
      as.length ≤ Locked.work work 7 s) ∧
    (∃ as s', ((guarded cap).restrict (Locked.Own Own)).Run s as s' ∧
      ((guarded cap).restrict (Locked.Own Own)).Final s') ∧
    ∀ as s', ((guarded cap).restrict (Locked.Own Own)).Run s as s' →
      ((guarded cap).restrict (Locked.Own Own)).Final s' →
      (∀ t, s'.place t = .outside) ∧ (∀ m, s'.owner m = none) ∧
        s'.inner.AtRest ∧ s'.inner.console = s'.inner.bq.pushed := by
  obtain ⟨hbound, hexists, hfinal⟩ := (lends hcap).comes_back hr
    (alive_open (Locked.inner_reachable hr))
  refine ⟨fun m t t' ht ht' => ?_, hbound, hexists,
    fun as s' hrun hlast => ?_⟩
  · have howned := Locked.owned_reachable hr
    have hmine := (howned m t).mpr ht
    have hyours := (howned m t').mpr ht'
    exact Option.some.inj (hmine.symm.trans hyours)
  · obtain ⟨hplace, hfree, hr', hopen, hrest⟩ := hfinal as s' hrun hlast
    have hatRest := final_at_rest hcap hr'.of_restrict hopen fun a t h =>
      hrest a t ⟨h.1, own_alive h.1, h.2⟩
    exact ⟨hplace, hfree, hatRest,
      hatRest.console (sound_reachable hr'.of_restrict) hopen⟩

/-- `true` is in `AddTask`, in the `LOG`, and `false` before the same lock. -/
theorem sections_end_addTask :
    ∃ s : Locked (LogSystem Bool) Bool OuterMutex,
      s.place true = .calling .tasks ∧ s.place false = .locking .tasks ∧
      (∀ m t t', (s.place t).held = some m → (s.place t').held = some m →
        t = t') ∧
      (∀ as s', ((guarded 1).restrict (Locked.Own Own)).Run s as s' →
        as.length ≤ Locked.work work 7 s) ∧
      (∃ as s', ((guarded 1).restrict (Locked.Own Own)).Run s as s' ∧
        ((guarded 1).restrict (Locked.Own Own)).Final s') ∧
      ∀ as s', ((guarded 1).restrict (Locked.Own Own)).Run s as s' →
        ((guarded 1).restrict (Locked.Own Own)).Final s' →
        (∀ t, s'.place t = .outside) ∧ (∀ m, s'.owner m = none) ∧
          s'.inner.AtRest ∧ s'.inner.console = s'.inner.bq.pushed := by
  let log : LogSystem Bool := ⟨.logOpen, ⟨.construct 1, fun _ => .outside, [],
    [], false, false⟩, .testing, fun _ => .outside, []⟩
  have hlog : (system 1).init log :=
    ⟨rfl, ⟨rfl, fun _ => rfl, rfl, rfl, rfl, rfl⟩, rfl, fun _ => rfl, rfl⟩
  have h₀ : (guarded 1).Reachable (⟨log, fun _ => none, fun _ => .outside⟩ :
      Locked (LogSystem Bool) Bool OuterMutex) :=
    .start ⟨hlog, fun _ => rfl, fun _ => rfl⟩
  have h₁ := h₀.next (.enter (t := true) (m := .tasks) rfl rfl)
  have h₂ := h₁.next (.lock (t := true) (m := .tasks) rfl rfl)
  have h₃ := h₂.next (.call (t := true) (m := .tasks) rfl ⟨initSuccess, rfl⟩
    ⟨by simp, .log true initSuccess rfl rfl⟩)
  have h₄ := h₃.next (.enter (t := false) (m := .tasks) rfl rfl)
  exact ⟨_, rfl, rfl, sections_end (Nat.le_refl 1) h₄⟩

end LogSystem

end TinyWebServer
