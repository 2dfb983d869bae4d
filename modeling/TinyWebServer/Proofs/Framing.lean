import TinyWebServer.Proofs.Response

/-!
# Where a response's body begins

A client finds the body of a response behind the first blank line, and as long
as `Content-Length` says. `Framed` is that reading. The response of this
server never meets it: `Init` ends the header block with the blank line, and
`Head_Write_Buff` adds one more CRLF, which the client takes for the first two
bytes of the body. Everything behind it is shifted by two, whatever the
request, the file tree and the file.
-/

namespace TinyWebServer

open Lib

/-- The end of a header line and an empty line. -/
def blankLine : Bytes := crlf ++ crlf

/-- `wire` is one response carrying the file at `path`: a status line and
header lines up to the first blank line, one of them the length of the file,
and behind the blank line the file and nothing else. -/
structure Framed (fs : FileSystem) (path wire : Bytes) : Prop where
  ended : search blankLine wire < wire.length
  framed : ∃ (statusLine : Bytes) (fields : List (Bytes × Bytes))
    (inode : Inode) (content : Bytes) (readable : Bool),
    wire.take (search blankLine wire + 2)
      = statusLine ++ crlf ++ (fields.map HttpResponse.headerLine).flatten ∧
    fs.stat path = .ok inode ∧ inode.kind = .regular content readable ∧
    (lit "Content-Length", HttpResponse.toString content.length) ∈ fields ∧
    wire.drop (search blankLine wire + 4) = content

namespace HttpConnector

/-- Header lines leave a head that ended in CRLF ending in CRLF. -/
theorem head_ends_crlf (front : Bytes) (entries : List (Bytes × Bytes)) :
    ∃ front', front ++ crlf ++ (entries.map HttpResponse.headerLine).flatten
      = front' ++ crlf := by
  induction entries generalizing front with
  | nil => exact ⟨front, by simp⟩
  | cons entry entries ih =>
      obtain ⟨front', h⟩ := ih
        (front ++ crlf ++ (entry.1 ++ lit ": " ++ entry.2))
      refine ⟨front', ?_⟩
      rw [← h]
      simp [HttpResponse.headerLine]

/-- The head of an answer ends in a blank line and another CRLF. -/
theorem served_head (w : World) (request : HttpRequest) (content : Bytes) :
    ∃ front, (served w request content).head
      = front ++ (blankLine ++ crlf) := by
  obtain ⟨front, h⟩ := head_ends_crlf (HttpResponse.statusLine request)
    (w.iter.order (HttpResponse.entries request.code w.clock content.length))
  refine ⟨front, ?_⟩
  calc (served w request content).head
      = HttpResponse.statusLine request ++ crlf ++
          (HttpResponse.headerLines w request.code content.length).flatten ++
          (crlf ++ crlf) := by simp [served]
    _ = front ++ crlf ++ (crlf ++ crlf) := by
        rw [← h, HttpResponse.headerLines]
    _ = front ++ (blankLine ++ crlf) := by simp [blankLine]

/-- What a client takes for the body is longer than the file. -/
theorem served_overhang (w : World) (request : HttpRequest)
    (content : Bytes) :
    content.length + 2 ≤
      (((served w request content).head ++ content).drop
        (search blankLine ((served w request content).head ++ content)
          + 4)).length := by
  obtain ⟨front, h⟩ := served_head w request content
  have hpos := search_le_of_append blankLine front (crlf ++ content)
  have hwire : (served w request content).head ++ content
      = front ++ (blankLine ++ (crlf ++ content)) := by
    rw [h]; simp
  have hblank : blankLine.length = 4 := by decide
  have hcrlf : crlf.length = 2 := by decide
  rw [hwire, List.length_drop, List.length_append, List.length_append,
    List.length_append, hblank, hcrlf]
  omega

/-- What `Process` answers with, in the two `iovec`s. -/
theorem process_served {c c' : HttpConnector} (h : c.Inv) {w : World}
    (hp : c.process w = .ok (c', true)) :
    ∃ request inode content,
      w.fs.stat (HttpResponse.opened w.db request) = .ok inode ∧
      inode.kind = .regular content true ∧
      Carries c' (served w request content) := by
  have hne : c.readBuffer.readable ≠ [] := by
    intro hnil
    have hsize := h.read.length_readable
    rw [hnil] at hsize
    rw [process_idle w hsize.symm] at hp
    cases hp
  have hspec := process_spec h w hne
  rw [hp] at hspec
  obtain ⟨a, ha, -, hcarries, -⟩ := hspec.ok_left
  obtain ⟨request, -, ha⟩ := bind_ok_iff.mp ha
  obtain ⟨inode, content, hstat, hkind, rfl⟩ := answer_ok_iff.mp ha
  exact ⟨request, inode, content, hstat, hkind, hcarries⟩

/-- No answer of `Process` is a framed response. -/
theorem not_framed {c c' : HttpConnector} (h : c.Inv) {w : World}
    (hp : c.process w = .ok (c', true)) :
    ¬ Framed w.fs c'.reponse.path (c'.iovHead ++ c'.iovFile) := by
  obtain ⟨request, inode, content, hstat, hkind, hcarries⟩ :=
    process_served h hp
  intro hframed
  obtain ⟨statusLine, fields, inode', content', readable, -, hstat', hkind',
    -, hbody⟩ := hframed.framed
  rw [hcarries.reponse] at hstat'
  cases hstat.symm.trans hstat'
  cases hkind.symm.trans hkind'
  have hlong := served_overhang w request content
  rw [hcarries.head, hcarries.file] at hbody
  rw [show (served w request content).content = content from rfl] at hbody
  rw [hbody] at hlong
  omega

/-- Whatever a connector has been through, what it answers is not framed. -/
theorem process_misframes {c c' : HttpConnector}
    (hc : history.Reachable c) {w : World}
    (hp : c.process w = .ok (c', true)) :
    ¬ Framed w.fs c'.reponse.path (c'.iovHead ++ c'.iovFile) :=
  not_framed (inv_history hc) hp

theorem process_misframes_page : ∃ c c', history.Reachable c ∧
    c.readBuffer.readable = plainGet ∧
    c.process flatWorld = .ok (c', true) ∧
    ¬ Framed flatTree c'.reponse.path (c'.iovHead ++ c'.iovFile) := by
  obtain ⟨c, c', hc, hread, hp⟩ := blank_answers
  exact ⟨c, c', hc, hread, hp, process_misframes hc hp⟩

theorem process_not_framed :
    ¬ ∀ (c c' : HttpConnector) (w : World), history.Reachable c →
      c.process w = .ok (c', true) →
      Framed w.fs c'.reponse.path (c'.iovHead ++ c'.iovFile) := by
  intro hall
  obtain ⟨c, c', hc, -, hp⟩ := blank_answers
  exact not_framed (inv_history hc) hp (hall c c' flatWorld hc hp)

end HttpConnector

end TinyWebServer
