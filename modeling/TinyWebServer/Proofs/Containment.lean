import TinyWebServer.Lib.Path
import TinyWebServer.Proofs.Response
import TinyWebServer.Proofs.Isolation

/-!
# Which paths stay under the web root

`_Handle_Path` puts `SRC_DIR` in front of the target and looks no further, so
where the path ends up is the client's choice: `..` steps out of the root, and
a target without a leading slash turns `wwwroot` into another name.

`Contained` says for which targets the path stays inside: the ones that
fall back to the 404 page, and the ones along whose components the walk from
the root's parent ends in the root (`Comp.walk`). The home page that two of
the branches append changes nothing about that.

`stat`, `exists` and `ifstream` are handed the path as a C string, and a target
may hold a NUL byte: what stands behind the first one is in `_path`, but not in
the path that is opened. Both are judged as the kernel sees them.
-/

namespace TinyWebServer

open Lib

/-- A component of a path as lexical resolution reads it. -/
def component (s : Bytes) : Comp Bytes :=
  if s = [] ∨ s = lit "." then .skip
  else if s = lit ".." then .up
  else .name s

def components (path : Bytes) : List (Comp Bytes) :=
  (path.splitOn HttpRequest.slash).map component

/-- The path, up to its first NUL, lies in the directory, or is the
directory. -/
def InDirectory (dir path : Bytes) : Prop :=
  Comp.Inside (components dir) (components (cStr path))

/-- The last component of `SRC_DIR`. -/
def rootName : Bytes := lit "wwwroot"

/-- Where the target leads from the root's parent. What stands before its
first slash is glued to the root's name, and what stands behind its first NUL
is not looked at. -/
def targetWalk (target : Bytes) : Comp.Walk :=
  Comp.walk rootName (components (rootName ++ cStr target))

theorem cStr_append {s : Bytes} (h : 0 ∉ s) (t : Bytes) :
    cStr (s ++ t) = s ++ cStr t := by
  refine List.takeWhile_append_of_pos fun x hx => ?_
  have hne : x ≠ 0 := fun hzero => h (hzero ▸ hx)
  exact decide_eq_true hne

theorem cStr_eq {s : Bytes} (h : 0 ∉ s) : cStr s = s := by
  have happend := cStr_append h []
  rwa [List.append_nil, show cStr [] = [] from rfl, List.append_nil]
    at happend

/-- Behind a NUL anything may stand. -/
theorem cStr_append_of_mem : ∀ {s : Bytes}, 0 ∈ s → ∀ t : Bytes,
    cStr (s ++ t) = cStr s := by
  intro s
  induction s with
  | nil => intro h; cases h
  | cons x s ih =>
      intro h t
      by_cases hx : x = 0
      · simp [cStr, hx]
      · have hmem : 0 ∈ s := (List.mem_cons.mp h).resolve_left (Ne.symm hx)
        simpa [cStr, hx] using ih hmem t

theorem components_append_slash (path rest : Bytes) :
    components (path ++ HttpRequest.slash :: rest)
      = components path ++ components rest := by
  rw [components, List.splitOn_append_cons_self, List.map_append]
  rfl

theorem components_srcDir (target : Bytes) :
    components (srcDir ++ target) = .up :: components (rootName ++ target) := by
  have hsrc : srcDir = lit ".." ++ HttpRequest.slash :: rootName := by
    decide +kernel
  have hup : components (lit "..") = [.up] := by decide +kernel
  rw [hsrc, List.append_assoc, List.cons_append, components_append_slash, hup]
  rfl

theorem inDirectory_iff_walk (target : Bytes) :
    InDirectory srcDir (srcDir ++ target) ↔ (targetWalk target).AtHome := by
  have hroot : components srcDir = [.up, .name rootName] := by decide +kernel
  have hsrc : 0 ∉ srcDir := by decide +kernel
  rw [InDirectory, hroot, cStr_append hsrc, components_srcDir]
  exact Comp.inside_iff_walk rootName _

/-- A home page appended as a component of its own. -/
theorem targetWalk_home (target : Bytes) :
    (targetWalk (target ++ HttpRequest.slash :: homePage)).AtHome ↔
      (targetWalk target).AtHome := by
  have hhome : components homePage = [.name homePage] := by decide +kernel
  have hpage : cStr (HttpRequest.slash :: homePage)
      = HttpRequest.slash :: homePage := by decide +kernel
  by_cases hnul : 0 ∈ target
  · rw [targetWalk, cStr_append_of_mem hnul]
    exact Iff.rfl
  · rw [targetWalk, targetWalk, cStr_append hnul, hpage, cStr_eq hnul,
      ← List.append_assoc, components_append_slash, hhome]
    exact Comp.walk_append_name rootName (by decide +kernel) _

/-- A trailing slash adds a component that does nothing. -/
theorem targetWalk_slash (target : Bytes) :
    targetWalk (target ++ [HttpRequest.slash]) = targetWalk target := by
  have hnil : components [] = [.skip] := by decide +kernel
  have hslash : cStr [HttpRequest.slash] = [HttpRequest.slash] := by
    decide +kernel
  by_cases hnul : 0 ∈ target
  · rw [targetWalk, cStr_append_of_mem hnul]
    rfl
  · rw [targetWalk, targetWalk, cStr_append hnul, hslash, cStr_eq hnul,
      ← List.append_assoc, components_append_slash, hnil]
    exact Comp.walk_append_skip rootName _

/-- A way back into the root does not count behind a NUL. -/
example : ¬ (targetWalk
    (lit "/../secret" ++ 0 :: lit "/../wwwroot/x")).AtHome := by
  decide +kernel

/-- The targets whose path stays under the root. -/
def Contained (fs : FileSystem) (target : Bytes) : Prop :=
  (target.getLast? ≠ some HttpRequest.slash ∧
    ∃ e, fs.stat (srcDir ++ target) = .error e) ∨
  (targetWalk target).AtHome

theorem settle_inside_iff {fs : FileSystem} {target : Bytes}
    (htask : target ∉ tasks) :
    InDirectory srcDir (settle fs target).path ↔ Contained fs target := by
  rcases settle_cases fs htask with ⟨hslash, hs⟩ | ⟨hslash, ⟨e, hstat, hs⟩ |
    ⟨inode, hstat, hs⟩⟩
  · obtain ⟨front, rfl⟩ := List.getLast?_eq_some_iff.mp hslash
    rw [hs, Contained, List.append_assoc, List.append_assoc,
      inDirectory_iff_walk, List.singleton_append, targetWalk_home,
      targetWalk_slash]
    exact ⟨.inr, fun h => h.resolve_left fun h => h.1 hslash⟩
  · rw [hs]
    refine iff_of_true ?_ (.inl ⟨hslash, e, hstat⟩)
    exact (inDirectory_iff_walk (lit "/404.html")).mpr (by decide +kernel)
  · have hfound : ¬ (target.getLast? ≠ some HttpRequest.slash ∧
        ∃ e, fs.stat (srcDir ++ target) = .error e) := by
      rintro ⟨-, e, he⟩
      cases hstat.symm.trans he
    rw [Contained, or_iff_right hfound]
    rcases hs with ⟨-, hs⟩ | ⟨-, hs⟩
    · rw [hs, List.append_assoc, List.append_assoc, inDirectory_iff_walk]
      exact targetWalk_home target
    · rw [hs]
      exact inDirectory_iff_walk target

namespace HttpConnector

open HttpRequest (SettledAs)

/-- The path of a parsed request, and the path its response opens, lie under
the web root. -/
structure StaysInside (w : World) (c : HttpConnector) (r : HttpRequest) :
    Prop where
  settled : InDirectory srcDir r.path
  opened : InDirectory srcDir (c.reponse.choose w r).1.path

/-- Without a task the response opens the path the request settled on. -/
theorem staysInside_iff {fs : FileSystem} {m : Message} {r : HttpRequest}
    (hset : SettledAs fs m r) (htask : r.tasks = false) (w : World)
    (c : HttpConnector) : StaysInside w c r ↔ Contained fs m.target := by
  have hfree : m.target ∉ tasks := by
    intro hmem
    rw [hset.tasks, settle_task hmem] at htask
    cases htask
  have hopened : (c.reponse.choose w r).1.path = r.path := by
    rw [HttpResponse.choose_eq, HttpResponse.opened, htask]
    rfl
  rw [← settle_inside_iff hfree, ← hset.path]
  exact ⟨fun h => h.settled, fun h => ⟨h, by rw [hopened]; exact h⟩⟩

/-- A request's path stays under the web root exactly when its target is
contained. -/
theorem readBuff_contained_iff {c : HttpConnector}
    (hc : history.Reachable c) {w : World} {r : HttpRequest} {b : Buffer}
    (hr : c.request.init.readBuff w.fs c.readBuffer = .ok (r, b))
    (hvalid : r.code ≠ .badRequest) (htask : r.tasks = false) :
    StaysInside w c r ↔
      ∀ m, scan c.readBuffer.readable = .ok (some m) →
        Contained w.fs m.target := by
  obtain ⟨m, a, hs, ha, rfl⟩ :=
    HttpRequest.readBuff_message (inv_history hc).read hr hvalid
  have hset : SettledAs w.fs m _ := HttpRequest.settledAs_absorbed rfl ha
  rw [staysInside_iff hset htask w c]
  refine ⟨fun h m' hm' => ?_, fun h => h m hs⟩
  cases hs.symm.trans hm'
  exact h

/-- A page under the root. -/
theorem readBuff_contained_iff_page : ∃ c r b, history.Reachable c ∧
    c.readBuffer.readable = plainGet ∧
    c.request.init.readBuff flatWorld.fs c.readBuffer = .ok (r, b) ∧
    r.code ≠ .badRequest ∧ r.tasks = false ∧ StaysInside flatWorld c r := by
  obtain ⟨b, hc, hread⟩ := blank_receives (s := plainGet)
    (by decide +kernel) (by decide +kernel)
  obtain ⟨r, b', hr, hcode, -, htask⟩ := HttpRequest.readBuff_plainGet
    (inv_history hc).read blankConnector.request hread
  refine ⟨_, r, b', hc, hread, hr, hcode, htask,
    (readBuff_contained_iff (w := flatWorld) hc hr hcode htask).mpr
      fun m hm => ?_⟩
  cases (hread ▸ scan_plainGet).symm.trans hm
  exact .inr (by decide +kernel)

/-! ## A step out of the root -/

def dotGet : Bytes := lit "GET /../secret HTTP/1.1\r\nHost: b\r\n\r\n"

def dotMessage : Message :=
  ⟨lit "GET", lit "/../secret", lit "1.1", [(lit "Host", lit "b")], none,
    .finished⟩

/-- A file next to the web root is served. -/
theorem readBuff_escapes :
    ¬ ∀ (c : HttpConnector) (w : World) (r : HttpRequest) (b : Buffer),
      history.Reachable c →
      c.request.init.readBuff w.fs c.readBuffer = .ok (r, b) →
      r.code ≠ .badRequest → r.tasks = false → StaysInside w c r := by
  intro hall
  obtain ⟨b, hc, hread⟩ := blank_receives (s := dotGet)
    (by decide +kernel) (by decide +kernel)
  have hs : scan b.readable = .ok (some dotMessage) := by
    rw [hread]; decide +kernel
  have ha := HttpRequest.absorb_bodyless (m := dotMessage)
    blankConnector.request.init rfl
  have hset : SettledAs flatTree dotMessage _ :=
    HttpRequest.settledAs_absorbed rfl ha
  have htask := hset.tasks.trans
    (show (settle flatTree dotMessage.target).task = false by decide +kernel)
  obtain ⟨b', hr⟩ :=
    HttpRequest.readBuff_ok flatTree (inv_history hc).read hs ha
  have hstays := hall _ flatWorld _ b' hc hr
    (by rw [hset.code]; decide +kernel) htask
  rcases (staysInside_iff hset htask flatWorld _).mp hstays with
    ⟨-, e, hstat⟩ | hhome
  · cases hstat
  · exact absurd hhome (by decide +kernel)

end HttpConnector

end TinyWebServer
