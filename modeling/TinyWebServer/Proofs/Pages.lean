import TinyWebServer.Proofs.Conversation
import TinyWebServer.Proofs.Segmentation
import TinyWebServer.Proofs.StaticResponse

/-!
# Pages, from the client's bytes to the server's

`Conversation` says that a client is sent the answers to what it sent, in
order. Here it is said what they are, for a client that asks for pages: what
it sends are request texts, and what it is sent are the files that their
targets lead to, each under its head. Who else talks to the server, which
worker serves which request and what the connector was used for before do not
come into it.
-/

namespace TinyWebServer

open Lib

/-- A request for a file, whose body the parser gets through. -/
structure RequestText.Static (q : RequestText) : Prop where
  method : q.method ≠ lit "POST"
  target : q.target ∉ tasks
  body : q.body.length ≠ 1

/-- The head of a file with `content` as an answer to `q`, with the header
lines in the order of the map. It ends in a blank line, and the line end of
`Head_Write_Buff`. -/
def pageHead (w : World) (q : RequestText) (content : Bytes) : Bytes :=
  HttpConnector.staticLine q.version (settle w.fs q.target).code ++ crlf ++
    (HttpResponse.headerLines w (settle w.fs q.target).code
      content.length).flatten ++ crlf ++ crlf

/-- The head, and as many bytes as the file has. -/
def page (w : World) (q : RequestText) (content : Bytes) : List Octet :=
  (pageHead w q content).map some ++ List.replicate content.length none

/-- What the target of `q` leads to is a file that can be read, with this in
it. -/
def Leads (fs : FileSystem) (q : RequestText) (content : Bytes) : Prop :=
  ∃ inode, fs.stat (settle fs q.target).path = .ok inode ∧
    inode.kind = .regular content true

/-- The page of the file that the target of `q` leads to, in some world with
these files. -/
def IsPage (fs : FileSystem) (q : RequestText) (wire : List Octet) : Prop :=
  ∃ w content, w.fs = fs ∧ Leads fs q content ∧ wire = page w q content

namespace HttpConnector

/-- What the parser makes of such a request, whatever its object was used for
before. -/
theorem readContent_page {q : RequestText} (hq : q.Static) (w : World)
    (request : HttpRequest) :
    ∃ r, request.init.readContent w.fs q.serialize = .ok r ∧
      HttpRequest.SettledAs w.fs q.message r ∧
      HttpResponse.opened w.db r = (settle w.fs q.target).path := by
  obtain ⟨r, hr, hset⟩ := HttpRequest.readContent_static w.fs
    (RequestText.scan_serialize hq.body) hq.method
    (show request.init.tasks = false from rfl)
  refine ⟨r, hr, hset, ?_⟩
  have htask : (settle w.fs q.message.target).task = false :=
    settle_task_eq_false hq.target
  rw [HttpResponse.opened, hset.tasks, htask, hset.path]
  rfl

theorem page_served {w : World} {q : RequestText} {r : HttpRequest}
    (hset : HttpRequest.SettledAs w.fs q.message r) (content : Bytes) :
    (served w r content).wire = page w q content := by
  have hhead : (served w r content).head = pageHead w q content := by
    rw [served, HttpResponse.statusLine, hset.version, hset.code]
    simp only [pageHead, staticLine, List.append_assoc]
    rfl
  rw [Answer.wire, hhead, page]
  exact legible_head ..

/-- An answer to such a request is its page. -/
theorem page_of_answers {fs : FileSystem} {q : RequestText}
    {wire : List Octet} (hq : q.Static)
    (h : AnswersIn (fun w => w.fs = fs) q.serialize wire) :
    IsPage fs q wire := by
  obtain ⟨c, w, c', rfl, hc, hread, hp, rfl⟩ := h
  have hscan := RequestText.scan_serialize hq.body
  have hne : c.readBuffer.readable ≠ [] := by
    intro hnil
    rw [← hread, hnil] at hscan
    cases hscan
  obtain ⟨r, hr, hset, hopened⟩ := readContent_page hq w c.request
  have hspec := process_spec (inv_history hc) w hne
  rw [hp, hread, hr, ok_bind] at hspec
  obtain ⟨a, ha, -, hcarries, -⟩ := hspec.ok_left
  obtain ⟨inode, content, hstat, hkind, rfl⟩ := answer_ok_iff.mp ha
  rw [hopened] at hstat
  rw [hcarries.wire, page_served hset]
  exact ⟨w, content, rfl, ⟨inode, hstat, hkind⟩, rfl⟩

/-- If the file is there, there is an answer. -/
theorem respond_page {w : World} {q : RequestText} (hq : q.Static)
    {content : Bytes} (hleads : Leads w.fs q content) (request : HttpRequest)
    (reponse : HttpResponse) :
    ∃ a, respond w request reponse q.serialize = .ok a ∧
      a.wire = page w q content ∧ a.content = content := by
  obtain ⟨inode, hstat, hkind⟩ := hleads
  obtain ⟨r, hr, hset, hopened⟩ := readContent_page hq w request
  refine ⟨served w r content, ?_, page_served hset content, rfl⟩
  rw [respond, hr, ok_bind]
  exact answer_ok_iff.mpr ⟨inode, content, by rw [hopened, hstat], hkind, rfl⟩

end HttpConnector

namespace Server

open HttpConnector

variable {Thread : Type} [DecidableEq Thread] [Fintype Thread]

omit [DecidableEq Thread] [Fintype Thread] in
theorem pages_of_answers {fs : FileSystem} : ∀ {qs : List RequestText}
    {replies : List (List Octet)}, (∀ q ∈ qs, q.Static) →
    List.Forall₂ (AnswersIn fun w => w.fs = fs)
      (qs.map RequestText.serialize) replies →
    List.Forall₂ (IsPage fs) qs replies := by
  intro qs
  induction qs with
  | nil =>
      intro replies _ h
      cases h
      exact .nil
  | cons q qs ih =>
      intro replies hstatic h
      rw [List.map_cons] at h
      cases h with
      | cons hq hrest =>
          exact .cons (page_of_answers (hstatic q List.mem_cons_self) hq)
            (ih (fun q' hq' => hstatic q' (List.mem_cons_of_mem q hq')) hrest)

/-- In every regular run in which the files do not change: a client whose turns
are requests for files has been sent their pages, in order, as far as it goes
and but for the last at most; and once the server listens to it again it has
been sent all of them to the last byte. -/
theorem serves_pages {fs : FileSystem} {s : Server Thread} {fd : Int}
    {seen : List Sight}
    (hs : ((system.restrict (RegularIn fun w => w.fs = fs)).observed
      (see fd)).Reachable (s, seen))
    {qs : List RequestText}
    (hqs : (Exchange.ledger seen).requests = qs.map RequestText.serialize)
    (hstatic : ∀ q ∈ qs, q.Static) :
    ∃ asked pages, asked <+: qs ∧ qs.length ≤ asked.length + 1 ∧
      List.Forall₂ (IsPage fs) asked pages ∧
      (Exchange.ledger seen).sent <+: pages.flatten ∧
      (s.interest fd = .armed false →
        asked = qs ∧ (Exchange.ledger seen).sent = pages.flatten) := by
  obtain ⟨⟨hsent, done, hdone, hlen, hreplied⟩, hlisten⟩ := connection_books hs
  rw [hqs] at hdone hlen hlisten
  have htake : done = (qs.take done.length).map RequestText.serialize := by
    rw [List.map_take]
    exact List.prefix_iff_eq_take.mp hdone
  have hshort : done.length ≤ qs.length := by
    have hle := hdone.length_le
    rwa [List.length_map] at hle
  rw [htake] at hreplied
  have hpages := pages_of_answers
    (fun q hq => hstatic q (List.mem_of_mem_take hq)) hreplied
  refine ⟨_, _, List.take_prefix _ _, ?_, hpages, hsent, fun harmed => ?_⟩
  · rw [List.length_take, Nat.min_eq_left hshort]
    rwa [List.length_map] at hlen
  · obtain ⟨hall, hmatched⟩ := hlisten harmed
    refine ⟨?_, hall⟩
    have hsame := hmatched.length_eq.trans hreplied.length_eq.symm
    rw [List.length_map, List.length_map, List.length_take] at hsame
    exact List.take_of_length_le (by omega)

/-- A request for a file that is there, with the file, whose page is short
enough for `Writeable_Size` and whose block stays where it is. -/
structure Ready (limit : Nat) (w : World) (q : RequestText × Bytes) :
    Prop where
  static : q.1.Static
  leads : Leads w.fs q.1 q.2
  small : (page w q.1 q.2).length < 2 ^ 32
  mapped : q.2.length ≤ limit

section

variable {start : Server Thread → Prop} {limit : Nat}
  (hstart : ∀ s, start s → system.Reachable s)

include hstart

/-- From `epoll_wait` back to it, with one page served. -/
theorem page_delivered {w : World} {s : Server Thread} {fd : Int}
    {seen : List Sight}
    (hs : (seenBy start (fun w' => w'.fs = w.fs) limit fd).Reachable (s, seen))
    (hm : s.main = .waiting) (hq : s.queue = []) {t : Thread}
    (ht : s.workers t = .idle) (harmed : s.interest fd = .armed false)
    {c : HttpConnector} (hc : s.clients fd = some c)
    {q : RequestText × Bytes} (hready : Ready limit w q)
    (hfit : q.1.serialize.length ≤ c.readBuffer.writeableSize) :
    ∃ c', c'.readBuffer.writeableSize = c.readBuffer.buffer.length ∧
      (seenBy start (fun w' => w'.fs = w.fs) limit fd).Reachable
        (s.setClient fd c', seen ++ session [q.1.serialize]
          [page w q.1 q.2]) := by
  obtain ⟨a, ha, hwire, hcontent⟩ :=
    respond_page hready.static hready.leads c.request c.reponse
  have hne : q.1.serialize ≠ [] := by
    intro hnil
    have hscan := RequestText.scan_serialize hready.static.body
    rw [hnil] at hscan
    cases hscan
  obtain ⟨c', hroom, -, -, hserved⟩ := Server.served hstart hs hm hq ht harmed
    hc hne hfit (show w.fs = w.fs from rfl) ha
    (by rw [hwire]; exact hready.small) (by rw [hcontent]; exact hready.mapped)
  rw [hwire] at hserved
  exact ⟨c', hroom, hserved⟩

/-- And so on with more pages. -/
theorem pages_delivered {w : World} {s : Server Thread} {fd : Int}
    {seen : List Sight}
    (hs : (seenBy start (fun w' => w'.fs = w.fs) limit fd).Reachable (s, seen))
    (hm : s.main = .waiting) (hq : s.queue = []) {t : Thread}
    (ht : s.workers t = .idle) (harmed : s.interest fd = .armed false)
    {c : HttpConnector} (hc : s.clients fd = some c)
    {qs : List (RequestText × Bytes)}
    (hfit : ∀ q ∈ qs, q.1.serialize.length ≤ c.readBuffer.writeableSize)
    (hqs : ∀ q ∈ qs, Ready limit w q) :
    ∃ c', (seenBy start (fun w' => w'.fs = w.fs) limit fd).Reachable
      (s.setClient fd c', seen ++ session (qs.map fun q => q.1.serialize)
        (qs.map fun q => page w q.1 q.2)) := by
  induction qs generalizing s seen c with
  | nil =>
      refine ⟨c, ?_⟩
      rw [setClient, ← hc, Function.update_eq_self]
      exact (List.append_nil seen).symm ▸ hs
  | cons q qs ih =>
      obtain ⟨c', hroom, hserved⟩ := page_delivered hstart hs hm hq ht harmed
        hc (hqs q List.mem_cons_self) (hfit q List.mem_cons_self)
      have hgrown : c.readBuffer.writeableSize
          ≤ c'.readBuffer.writeableSize := by
        rw [hroom]
        exact Nat.sub_le ..
      obtain ⟨c'', hlater⟩ := ih hserved hm hq ht harmed
        (Function.update_self ..)
        (fun q' hq' => (hfit q' (List.mem_cons_of_mem _ hq')).trans hgrown)
        (fun q' hq' => hqs q' (List.mem_cons_of_mem _ hq'))
      refine ⟨c'', ?_⟩
      simp only [setClient, Function.update_idem, List.append_assoc] at hlater
      exact hlater

end

theorem static_pageText : pageText.Static := by
  constructor <;> decide +kernel

theorem serves_pages_greeted : ∃ (s : Server Bool) (wire : List Octet),
    s.interest 4 = .armed false ∧
    ∃ asked pages, asked <+: [pageText] ∧
      [pageText].length ≤ asked.length + 1 ∧
      List.Forall₂ (IsPage noteTree) asked pages ∧
      wire <+: pages.flatten ∧
      (s.interest 4 = .armed false →
        asked = [pageText] ∧ wire = pages.flatten) := by
  obtain ⟨s, wire, hs, harmed⟩ :=
    greeted_served (fun w => w.fs = noteTree) rfl
  refine ⟨s, wire, harmed, serves_pages hs ?_ ?_⟩
  · rw [List.map_singleton, serialize_pageText]
    rfl
  · intro q hq
    rw [List.mem_singleton.mp hq]
    exact static_pageText

end Server

end TinyWebServer
