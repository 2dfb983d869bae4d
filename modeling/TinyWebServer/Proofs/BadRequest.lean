import TinyWebServer.Proofs.Response
import TinyWebServer.Proofs.Target

/-!
# A bad request line

`Read_Buff` returns early on a line that is no request line, before
`_Handle_Path` can put the error page in the request's path. The response is
then made from the path and the version an earlier request left there. On a
connector without an earlier request both are empty, and asking for the size of
a file without a name throws.

`process_rejected` says what comes out, and `badLine_remembers` that the answer
never is the error page independently of the past: the status line alone gives
the version of the earlier request away.
-/

namespace TinyWebServer

open Lib

/-- The page for a bad request. -/
def badRequestPage : Bytes := srcDir ++ lit "/400.html"

namespace HttpConnector

/-- The first line ends with a CRLF and is no request line. -/
def BadLine (s : Bytes) : Prop :=
  ∃ line rest, s = line ++ (crlf ++ rest) ∧ ¬ crlf <:+: line ∧
    HttpRequest.matchRequestLine line = none

theorem BadLine.ne_nil {s : Bytes} (h : BadLine s) : s ≠ [] := by
  obtain ⟨line, rest, rfl, -, -⟩ := h
  intro hnil
  cases (List.append_eq_nil_iff.mp (List.append_eq_nil_iff.mp hnil).2).1

theorem BadLine.scan {s : Bytes} (h : BadLine s) : scan s = .ok none := by
  have hne := h.ne_nil
  obtain ⟨line, rest, rfl, hline, hmatch⟩ := h
  rw [TinyWebServer.scan, check_pos hne,
    HttpRequest.cutLine_ok_iff.mpr ⟨rfl, hline⟩]
  simp only [ok_bind, hmatch]
  rfl

/-- A bad line is answered with `400` and whatever path and version the
request object holds. -/
theorem process_rejected {c : HttpConnector} (h : c.Inv) (w : World)
    (hbad : BadLine c.readBuffer.readable) :
    Agree (fun out content => out.2 = true ∧
        Carries out.1 (served w c.request.init.reject content))
      (c.process w) (fetch w.fs c.request.path) := by
  have hread : c.request.init.readContent w.fs c.readBuffer.readable
      = .ok c.request.init.reject := by
    rw [HttpRequest.readContent, HttpRequest.digest, hbad.scan]
    rfl
  have hspec := process_spec h w hbad.ne_nil
  rw [hread, ok_bind, answer_eq] at hspec
  refine hspec.of_bind_pure.mono fun out content hout => ?_
  exact ⟨hout.1, hout.2.1⟩

/-- A request object as some earlier request may have left it. -/
def Earlier (r : HttpRequest) : Prop :=
  ∃ fs r₀ b b', b.Inv ∧ HttpRequest.readBuff fs r₀ b = .ok (r, b') ∧
    r.code ≠ .badRequest

/-- The answer a bad line is meant to get: `400` with the page for it, the same
whatever the earlier request was. -/
def AnswersBadRequest (w : World) (c : HttpConnector) : Prop :=
  ∃ reponse : HttpResponse,
    reponse.code = .badRequest ∧ reponse.path = badRequestPage ∧
    (∃ c', c.process w = .ok (c', true) ∧ c'.reponse = reponse) ∧
    ∀ earlier, Earlier earlier →
      ∃ c', process w { c with request := earlier } = .ok (c', true) ∧
        c'.reponse = reponse

/-- A request without a body, parsed from its text. -/
theorem earlier_of_scan {s : Bytes} {m : Message} (hne : s ≠ [])
    (hs : scan s = .ok (some m)) (hbody : m.body = none) :
    ∃ r, Earlier r ∧ r.version = m.version := by
  have habs := HttpRequest.absorb_bodyless blankConnector.request.init hbody
  obtain ⟨b', hr⟩ := HttpRequest.readBuff_ok flatTree
    (Buffer.inv_holding hne) ((Buffer.readable_holding s).symm ▸ hs) habs
  refine ⟨_, ⟨flatTree, _, _, b', Buffer.inv_holding hne, hr, ?_⟩, ?_⟩
  · exact HttpRequest.handlePath_code rfl
  · exact (HttpRequest.settledAs_absorbed rfl habs).version

/-- `plainGet` in an older version of the protocol. -/
def oldGet : Bytes := lit "GET /a.html HTTP/1.0\r\nHost: b\r\n\r\n"

theorem scan_oldGet :
    scan oldGet = .ok (some { plainMessage with version := lit "1.0" }) := by
  decide +kernel

/-- The status line of a rejected request. -/
theorem process_rejected_line {c c' : HttpConnector} (h : c.Inv) {w : World}
    (hbad : BadLine c.readBuffer.readable)
    (hp : c.process w = .ok (c', true)) :
    c'.reponse.statueLine
        = lit "HTTP/" ++ c.request.version ++ lit " 400 Bad Request" ∧
      c'.reponse.code = .badRequest ∧ c'.reponse.path = c.request.path := by
  have hspec := process_rejected h w hbad
  rw [hp] at hspec
  obtain ⟨content, -, -, hcarries⟩ := hspec.ok_left
  rw [hcarries.reponse]
  refine ⟨?_, rfl, rfl⟩
  have hdesc : lit " 400 Bad Request"
      = lit " " ++ getStatusDescription .badRequest := by decide +kernel
  rw [hdesc, ← List.append_assoc]
  rfl

/-- The page for a bad request is the answer exactly when an earlier request
left its path behind, and then too the answer shows the past. -/
theorem badLine_remembers {c : HttpConnector} (h : c.Inv) {w : World}
    (hbad : BadLine c.readBuffer.readable)
    (hpage : ∃ content, fetch w.fs badRequestPage = .ok content) :
    ¬ AnswersBadRequest w c ∧
    ((∃ c', c.process w = .ok (c', true) ∧ c'.reponse.code = .badRequest ∧
        c'.reponse.path = badRequestPage) ↔
      c.request.path = badRequestPage) := by
  constructor
  · intro hans
    obtain ⟨reponse, -, -, -, hall⟩ := hans
    obtain ⟨r₁, hr₁, hv₁⟩ := earlier_of_scan (by decide +kernel) scan_plainGet
      rfl
    obtain ⟨r₀, hr₀, hv₀⟩ := earlier_of_scan (by decide +kernel) scan_oldGet
      rfl
    obtain ⟨c₁, hp₁, h₁⟩ := hall r₁ hr₁
    obtain ⟨c₀, hp₀, h₀⟩ := hall r₀ hr₀
    have hinv : ∀ r, Inv { c with request := r } :=
      fun _ => ⟨h.read, h.write⟩
    have hline₁ := (process_rejected_line (hinv r₁) hbad hp₁).1
    have hline₀ := (process_rejected_line (hinv r₀) hbad hp₀).1
    simp only [hv₁] at hline₁
    simp only [hv₀] at hline₀
    rw [h₁] at hline₁
    rw [h₀] at hline₀
    exact absurd (hline₁.symm.trans hline₀) (by decide +kernel)
  · constructor
    · intro hans
      obtain ⟨c', hp, -, hpath⟩ := hans
      exact (process_rejected_line h hbad hp).2.2.symm.trans hpath
    · intro hpath
      obtain ⟨content, hcontent⟩ := hpage
      have hspec := process_rejected h w hbad
      rw [hpath, hcontent] at hspec
      obtain ⟨⟨c', ready⟩, hp, hready, -⟩ := hspec.ok_right
      cases hready
      have hline := process_rejected_line h hbad hp
      exact ⟨c', hp, hline.2.1, hline.2.2.trans hpath⟩

def badText : Bytes := lit "bad\r\n"

theorem badLine_badText : BadLine badText :=
  ⟨lit "bad", [], by decide +kernel, by decide +kernel, by decide +kernel⟩

/-- A connector that has answered nothing yet. -/
theorem badLine_remembers_blank :
    ∃ c : HttpConnector, history.Reachable c ∧
      c.readBuffer.readable = badText ∧ ¬ AnswersBadRequest flatWorld c := by
  obtain ⟨b, hc, hread⟩ := blank_receives (s := badText)
    (by decide +kernel) (by decide +kernel)
  have hpage : fetch flatWorld.fs badRequestPage = .ok [] :=
    fetch_ok_iff.mpr ⟨_, rfl, rfl⟩
  exact ⟨_, hc, hread, (badLine_remembers (inv_history hc)
    (hread.symm ▸ badLine_badText) ⟨[], hpage⟩).1⟩

/-- A tree with the page for a bad request in it, and nothing else. -/
def errorTree : FileSystem := fun path =>
  if path = badRequestPage then .ok ⟨.regular [] true, false, false, false⟩
  else .error .notFound

/-- On a connector that has answered nothing, a bad line throws. -/
theorem badLine_throws :
    ¬ ∀ (c : HttpConnector) (w : World), history.Reachable c →
      BadLine c.readBuffer.readable →
      (∃ content, fetch w.fs badRequestPage = .ok content) →
      AnswersBadRequest w c := by
  intro hall
  obtain ⟨b, hc, hread⟩ := blank_receives (s := badText)
    (by decide +kernel) (by decide +kernel)
  have hbad : BadLine b.readable := hread.symm ▸ badLine_badText
  have hpage : fetch errorTree badRequestPage = .ok [] := by decide +kernel
  obtain ⟨reponse, -, -, ⟨c', hp, -⟩, -⟩ :=
    hall _ { flatWorld with fs := errorTree } hc hbad ⟨[], hpage⟩
  have hspec := process_rejected (inv_history hc)
    { flatWorld with fs := errorTree } hbad
  have hnone : fetch errorTree [] = .error (.runtimeError
      (lit "File does not exist or is not a regular file")) := by
    decide +kernel
  rw [show blankConnector.request.path = [] from rfl, hnone] at hspec
  rw [hspec.error_right] at hp
  cases hp

end HttpConnector

end TinyWebServer
