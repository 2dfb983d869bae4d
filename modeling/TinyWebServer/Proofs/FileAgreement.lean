import TinyWebServer.Proofs.Isolation
import TinyWebServer.Proofs.Response

/-!
# Code, path and file

Two functions decide which file a request is answered with, and two others
throw if it is not a regular file that can be opened; nothing catches what a
worker throws. `settle` promises such a file on one branch only, the failing
`stat`, which falls back to the 404 page. The other branches set
`FILE_REQUEST` and trust: a trailing slash is given the home page unseen, a
directory is given its own, and a socket, a device or an unreadable file is
taken as it is.

`Servable` says for which targets the trust is justified, and
`process_agrees_iff` that these are exactly the requests on which code, path
and file agree and `Process` comes back.
-/

namespace TinyWebServer

open Lib

/-- A regular file the server may open. -/
def ReadableFile (fs : FileSystem) (path : Bytes) : Prop :=
  ∃ inode content, fs.stat path = .ok inode ∧
    inode.kind = .regular content true

def RegularFile (fs : FileSystem) (path : Bytes) : Prop :=
  ∃ inode content readable, fs.stat path = .ok inode ∧
    inode.kind = .regular content readable

theorem ReadableFile.regular {fs : FileSystem} {path : Bytes}
    (h : ReadableFile fs path) : RegularFile fs path := by
  obtain ⟨inode, content, hstat, hkind⟩ := h
  exact ⟨inode, content, true, hstat, hkind⟩

def notFoundPage : Bytes := srcDir ++ lit "/404.html"

/-- The pages the server answers with on its own account. -/
structure FixedPages (fs : FileSystem) : Prop where
  notFound : ReadableFile fs notFoundPage
  penetration : ReadableFile fs (srcDir ++ lit "/penetration.html")
  mysqlerror : ReadableFile fs (srcDir ++ lit "/mysqlerror.html")

/-- The targets that lead to a file the server can send. -/
inductive Servable (fs : FileSystem) (target : Bytes) : Prop where
  | task : target ∈ tasks → Servable fs target
  | home : target.getLast? = some HttpRequest.slash →
      ReadableFile fs (srcDir ++ target ++ homePage) → Servable fs target
  | missing {e : StatError} : target.getLast? ≠ some HttpRequest.slash →
      fs.stat (srcDir ++ target) = .error e → Servable fs target
  | directory {inode : Inode} : target.getLast? ≠ some HttpRequest.slash →
      fs.stat (srcDir ++ target) = .ok inode → inode.kind = .directory →
      ReadableFile fs (srcDir ++ target ++ lit "/" ++ homePage) →
      Servable fs target
  | file : target.getLast? ≠ some HttpRequest.slash →
      ReadableFile fs (srcDir ++ target) → Servable fs target

/-- Where a target leads that is no task. -/
theorem settle_readable_iff {fs : FileSystem} {target : Bytes}
    (hpage : ReadableFile fs notFoundPage) (htask : target ∉ tasks) :
    ReadableFile fs (settle fs target).path ↔ Servable fs target := by
  rcases settle_cases fs htask with ⟨hslash, hs⟩ | ⟨hslash, ⟨e, hstat, hs⟩ |
    ⟨inode, hstat, ⟨hdir, hs⟩ | ⟨hdir, hs⟩⟩⟩
  · rw [hs]
    refine ⟨fun h => .home hslash h, fun h => ?_⟩
    cases h with
    | task h => exact absurd h htask
    | home _ h => exact h
    | missing h _ => exact absurd hslash h
    | directory h _ _ _ => exact absurd hslash h
    | file h _ => exact absurd hslash h
  · rw [hs]
    exact ⟨fun _ => .missing hslash hstat, fun _ => hpage⟩
  · rw [hs]
    refine ⟨fun h => .directory hslash hstat hdir h, fun h => ?_⟩
    cases h with
    | task h => exact absurd h htask
    | home h _ => exact absurd h hslash
    | missing _ h => cases hstat.symm.trans h
    | directory _ _ _ h => exact h
    | file _ h =>
        -- One inode is not a directory and a regular file.
        obtain ⟨inode', content, hstat', hkind⟩ := h
        cases hstat.symm.trans hstat'
        cases hdir.symm.trans hkind
  · rw [hs]
    refine ⟨fun h => .file hslash h, fun h => ?_⟩
    cases h with
    | task h => exact absurd h htask
    | home h _ => exact absurd h hslash
    | missing _ h => cases hstat.symm.trans h
    | directory _ h hdir' _ =>
        cases hstat.symm.trans h
        exact absurd hdir' hdir
    | file _ h => exact h

/-- The code says what the path is: a file, or the 404 page. -/
theorem settle_code {fs : FileSystem} {target : Bytes}
    (h : (settle fs target).code ≠ .fileRequest) :
    settle fs target = ⟨notFoundPage, .noResource, false⟩ := by
  by_cases htask : target ∈ tasks
  · rw [settle_task htask] at h
    exact absurd rfl h
  rcases settle_cases fs htask with ⟨-, hs⟩ | ⟨-, ⟨e, -, hs⟩ |
    ⟨inode, -, ⟨-, hs⟩ | ⟨-, hs⟩⟩⟩
  · rw [hs] at h; exact absurd rfl h
  · exact hs
  · rw [hs] at h; exact absurd rfl h
  · rw [hs] at h; exact absurd rfl h

namespace HttpConnector

open HttpRequest (SettledAs)

/-- The file that is opened can be read exactly when the target is servable. -/
theorem opened_readable_iff {fs : FileSystem} {m : Message} {r : HttpRequest}
    (hpages : FixedPages fs) (h : SettledAs fs m r) (db : LoginOutcome) :
    ReadableFile fs (HttpResponse.opened db r) ↔ Servable fs m.target := by
  by_cases htask : m.target ∈ tasks
  · refine ⟨fun _ => .task htask, fun _ => ?_⟩
    rw [HttpResponse.opened, h.tasks, settle_task htask, if_pos rfl]
    split
    · exact hpages.penetration
    · exact hpages.mysqlerror
  · rw [HttpResponse.opened, h.tasks, settle_task_eq_false htask, h.path]
    exact settle_readable_iff hpages.notFound htask

/-- `Process` comes back from a request that parsed exactly when the file it
opens can be read. -/
theorem process_ok_iff {c : HttpConnector} (h : c.Inv) {w : World}
    {r : HttpRequest}
    (hr : c.request.init.readContent w.fs c.readBuffer.readable = .ok r) :
    (∃ c', c.process w = .ok (c', true)) ↔
      ReadableFile w.fs (HttpResponse.opened w.db r) := by
  have hne : c.readBuffer.readable ≠ [] := by
    intro hnil
    rw [hnil] at hr
    cases hr
  constructor
  · rintro ⟨c', hp⟩
    have hspec := process_spec h w hne
    rw [hp, hr, ok_bind] at hspec
    obtain ⟨a, ha, -⟩ := hspec.ok_left
    obtain ⟨inode, content, hstat, hkind, -⟩ := answer_ok_iff.mp ha
    exact ⟨inode, content, hstat, hkind⟩
  · rintro ⟨inode, content, hstat, hkind⟩
    obtain ⟨c', hp, -⟩ := process_ok h (w := w)
      (a := served w r content) hne (by
        rw [hr, ok_bind]
        exact answer_ok_iff.mpr ⟨inode, content, hstat, hkind, rfl⟩)
    exact ⟨c', hp⟩

/-- The code of a parsed request and the path its response chooses agree with
the file tree, and nothing is thrown on the way to the answer. -/
structure FileAgrees (w : World) (c : HttpConnector) (r : HttpRequest) :
    Prop where
  found : r.code = .fileRequest →
    RegularFile w.fs (c.reponse.choose w r).1.path
  lost : r.code ≠ .fileRequest →
    r.code = .noResource ∧ (c.reponse.choose w r).1.path = notFoundPage
  returns : ∃ c', c.process w = .ok (c', true)

/-- For a parsed request, code, path and file agree and `Process` comes back
exactly when the target is servable. -/
theorem process_agrees_iff {c : HttpConnector} (hc : history.Reachable c)
    {w : World} (hpages : FixedPages w.fs) {r : HttpRequest} {b : Buffer}
    (hr : c.request.init.readBuff w.fs c.readBuffer = .ok (r, b))
    (hvalid : r.code ≠ .badRequest) :
    FileAgrees w c r ↔
      ∀ m, scan c.readBuffer.readable = .ok (some m) →
        Servable w.fs m.target := by
  obtain ⟨m, a, hs, ha, rfl⟩ :=
    HttpRequest.readBuff_message (inv_history hc).read hr hvalid
  have hset : SettledAs w.fs m _ := HttpRequest.settledAs_absorbed rfl ha
  have hreads := opened_readable_iff hpages hset w.db
  have hreturns := process_ok_iff (inv_history hc) (w := w)
    (HttpRequest.readContent_ok hs ha)
  constructor
  · intro h m' hm'
    cases hs.symm.trans hm'
    exact hreads.mp (hreturns.mp h.returns)
  · intro h
    have hfile := hreads.mpr (h m hs)
    refine ⟨fun _ => ?_, fun hcode => ?_, hreturns.mpr hfile⟩
    · rw [HttpResponse.choose_eq]
      exact hfile.regular
    · rw [hset.code] at hcode
      have hlost := settle_code hcode
      rw [HttpResponse.choose_eq, HttpResponse.opened, hset.tasks, hset.code,
        hset.path, hlost]
      exact ⟨rfl, rfl⟩

theorem flatTree_readable (path : Bytes) : ReadableFile flatTree path :=
  ⟨_, [], rfl, rfl⟩

theorem flatTree_pages : FixedPages flatTree :=
  ⟨flatTree_readable _, flatTree_readable _, flatTree_readable _⟩

/-- A page that is there. -/
theorem process_agrees_iff_page : ∃ c r b, history.Reachable c ∧
    c.readBuffer.readable = plainGet ∧ FixedPages flatWorld.fs ∧
    c.request.init.readBuff flatWorld.fs c.readBuffer = .ok (r, b) ∧
    r.code ≠ .badRequest ∧ FileAgrees flatWorld c r := by
  obtain ⟨b, hc, hread⟩ := blank_receives (s := plainGet)
    (by decide +kernel) (by decide +kernel)
  obtain ⟨r, b', hr, hcode, -⟩ := HttpRequest.readBuff_plainGet
    (inv_history hc).read blankConnector.request hread
  refine ⟨_, r, b', hc, hread, flatTree_pages, hr, hcode,
    (process_agrees_iff (w := flatWorld) hc flatTree_pages hr hcode).mpr
      fun m hm => ?_⟩
  cases (hread ▸ scan_plainGet).symm.trans hm
  exact .file (by decide +kernel) (flatTree_readable _)

/-! ## A directory without a home page -/

/-- The three fixed pages, and nothing else. -/
def barePages : FileSystem := fun path =>
  if path ∈ [notFoundPage, srcDir ++ lit "/penetration.html",
      srcDir ++ lit "/mysqlerror.html"] then
    .ok ⟨.regular [] true, false, false, false⟩
  else .error .notFound

def slashGet : Bytes := lit "GET /docs/ HTTP/1.1\r\nHost: b\r\n\r\n"

def slashMessage : Message :=
  ⟨lit "GET", lit "/docs/", lit "1.1", [(lit "Host", lit "b")], none,
    .finished⟩

theorem not_servable_slash : ¬ Servable barePages slashMessage.target := by
  intro h
  cases h with
  | task h => exact absurd h (by decide +kernel)
  | home _ h =>
      obtain ⟨inode, content, hstat, -⟩ := h
      have hnone : barePages.stat
          (srcDir ++ slashMessage.target ++ homePage)
          = .error .notFound := by decide +kernel
      cases hnone.symm.trans hstat
  | missing h _ => exact h (by decide +kernel)
  | directory h _ _ _ => exact h (by decide +kernel)
  | file h _ => exact h (by decide +kernel)

/-- With the fixed pages in place, a target with a trailing slash still ends
the process when there is no home page behind it. -/
theorem process_disagrees :
    ¬ ∀ (c : HttpConnector) (w : World) (r : HttpRequest) (b : Buffer),
      history.Reachable c → FixedPages w.fs →
      c.request.init.readBuff w.fs c.readBuffer = .ok (r, b) →
      r.code ≠ .badRequest → FileAgrees w c r := by
  intro hall
  obtain ⟨b, hc, hread⟩ := blank_receives (s := slashGet)
    (by decide +kernel) (by decide +kernel)
  have hs : scan b.readable = .ok (some slashMessage) := by
    rw [hread]; decide +kernel
  have ha := HttpRequest.absorb_bodyless (m := slashMessage)
    blankConnector.request.init rfl
  have hset : SettledAs barePages slashMessage _ :=
    HttpRequest.settledAs_absorbed rfl ha
  have hpage : ∀ path, barePages.stat path
      = .ok ⟨.regular [] true, false, false, false⟩ →
      ReadableFile barePages path := fun _ h => ⟨_, [], h, rfl⟩
  have hpages : FixedPages barePages := ⟨hpage _ (by decide +kernel),
    hpage _ (by decide +kernel), hpage _ (by decide +kernel)⟩
  obtain ⟨b', hr⟩ :=
    HttpRequest.readBuff_ok barePages (inv_history hc).read hs ha
  have hagrees := hall _ { flatWorld with fs := barePages } _ b' hc hpages hr
    (by rw [hset.code]; decide +kernel)
  have hreturns := (process_ok_iff (inv_history hc)
    (HttpRequest.readContent_ok hs ha)).mp hagrees.returns
  exact not_servable_slash ((opened_readable_iff hpages hset _).mp hreturns)

end HttpConnector

end TinyWebServer
