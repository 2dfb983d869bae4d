import TinyWebServer.Proofs.Response
import TinyWebServer.Proofs.Isolation

/-!
# Static responses do not depend on the past

Much survives in a connector: headers, form, body, suffix, buffers, cursors.
None of it shows in the answer to a request that is neither a `POST` nor a
task. Of the parsed request the response reads the version, the code and the
path, and these come from the message and from where its target leads;
everything else it writes anew.

So `Process` on such a request is compared with `fetch`, a function of the
file tree and the path (`process_static_spec`), and any two connectors with
the same readable bytes are compared through it.
-/

namespace TinyWebServer

open Lib

namespace HttpRequest

/-- A message that is not a `POST` is always taken in, and what the response
will read of it is the message's. -/
theorem readContent_static {r : HttpRequest} {s : Bytes} {m : Message}
    (fs : FileSystem) (hs : scan s = .ok (some m))
    (hmethod : m.method ≠ lit "POST") (htasks : r.tasks = false) :
    ∃ out, r.readContent fs s = .ok out ∧ SettledAs fs m out := by
  obtain ⟨a, ha⟩ : ∃ a, r.absorb m = .ok a := by
    rw [absorb_eq]
    cases m.body with
    | none => exact ⟨_, rfl⟩
    | some bytes => exact ⟨_, if_neg fun h => hmethod h.1⟩
  exact ⟨_, readContent_ok hs ha, settledAs_absorbed htasks ha⟩

end HttpRequest

namespace HttpConnector

/-- A connector ready to send the file at `path`, `n` bytes long, under the
given status line and header entries. -/
structure Ready (w : World) (line : Bytes) (es : List (Bytes × Bytes))
    (path : Bytes) (n : Nat) (c : HttpConnector) : Prop where
  statusLine : c.reponse.statueLine = line
  headers : c.reponse.headers
    = ((w.iter.order es).map HttpResponse.headerLine).flatten ++ crlf
  path : c.reponse.path = path
  headLen : c.iov₀.len
    = line.length + ((es.map HttpResponse.headerLine).flatten).length + 6
  fileLen : c.iov₁.len = n

/-- However a map is iterated, its lines take the same room. -/
theorem length_headerLines (w : World) (es : List (Bytes × Bytes)) :
    ((w.iter.order es).map HttpResponse.headerLine).flatten.length
      = (es.map HttpResponse.headerLine).flatten.length :=
  ((w.iter.perm es).map _).flatten.length_eq

theorem Carries.ready {c : HttpConnector} {w : World} {request : HttpRequest}
    {content : Bytes} (h : Carries c (served w request content)) :
    Ready w (HttpResponse.statusLine request)
      (HttpResponse.entries request.code w.clock content.length)
      (HttpResponse.opened w.db request) content.length c := by
  refine ⟨by rw [h.reponse]; rfl, by rw [h.reponse]; rfl,
    by rw [h.reponse]; rfl, ?_, h.fileLen⟩
  have hcrlf : crlf.length = 2 := by decide
  rw [h.headLen, served, ← length_headerLines w]
  simp only [HttpResponse.headerLines, List.length_append, hcrlf]
  omega

def staticLine (version : Bytes) (code : HttpCode) : Bytes :=
  lit "HTTP/" ++ version ++ lit " " ++ getStatusDescription code

/-- `Process` on a static request, next to fetching the file it leads to. -/
theorem process_static_spec {c : HttpConnector} (h : c.Inv) (w : World)
    {m : Message} (hs : scan c.readBuffer.readable = .ok (some m))
    (hmethod : m.method ≠ lit "POST")
    (htask : (settle w.fs m.target).task = false) :
    Agree (fun out content => out.2 = true ∧
        Ready w (staticLine m.version (settle w.fs m.target).code)
          (HttpResponse.entries (settle w.fs m.target).code w.clock
            content.length)
          (settle w.fs m.target).path content.length out.1)
      (c.process w) (fetch w.fs (settle w.fs m.target).path) := by
  have hne : c.readBuffer.readable ≠ [] := by
    intro hnil
    rw [hnil] at hs
    cases hs
  have hinit : c.request.init.tasks = false := rfl
  obtain ⟨r, hr, hset⟩ :=
    HttpRequest.readContent_static w.fs hs hmethod hinit
  have hopened : HttpResponse.opened w.db r = (settle w.fs m.target).path := by
    rw [HttpResponse.opened, hset.tasks, htask, hset.path]
    rfl
  have hspec := process_spec h w hne
  rw [hr, ok_bind, answer_eq, hopened] at hspec
  refine hspec.of_bind_pure.mono fun out content hout => ⟨hout.1, ?_⟩
  have hready := hout.2.1.ready
  rw [hopened, HttpResponse.statusLine, hset.version, hset.code] at hready
  exact hready

/-- What two static answers have in common. -/
structure SameStatic (c₁ c₂ : HttpConnector) : Prop where
  statusLine : c₁.reponse.statueLine = c₂.reponse.statueLine
  -- The same header lines, each in an order of its own.
  headers : ∃ es₁ es₂ : List (Bytes × Bytes), es₁.Perm es₂ ∧
    c₁.reponse.headers = (es₁.map HttpResponse.headerLine).flatten ++ crlf ∧
    c₂.reponse.headers = (es₂.map HttpResponse.headerLine).flatten ++ crlf
  path : c₁.reponse.path = c₂.reponse.path
  headLen : c₁.iov₀.len = c₂.iov₀.len
  fileLen : c₁.iov₁.len = c₂.iov₁.len

theorem Ready.same {w₁ w₂ : World} {line : Bytes} {es : List (Bytes × Bytes)}
    {path : Bytes} {n : Nat} {c₁ c₂ : HttpConnector}
    (h₁ : Ready w₁ line es path n c₁) (h₂ : Ready w₂ line es path n c₂) :
    SameStatic c₁ c₂ where
  statusLine := h₁.statusLine.trans h₂.statusLine.symm
  headers := ⟨_, _, (w₁.iter.perm es).trans (w₂.iter.perm es).symm,
    h₁.headers, h₂.headers⟩
  path := h₁.path.trans h₂.path.symm
  headLen := h₁.headLen.trans h₂.headLen.symm
  fileLen := h₁.fileLen.trans h₂.fileLen.symm

/-- Two connectors with any histories behind them, the same readable bytes
before them and the same tree and clock around them answer a static request
alike; the data base and the order of the maps do not matter. -/
theorem process_static {c₁ c₂ : HttpConnector} (h₁ : history.Reachable c₁)
    (h₂ : history.Reachable c₂) {w₁ w₂ : World} (hfs : w₁.fs = w₂.fs)
    (hclock : w₁.clock = w₂.clock)
    (hsame : c₁.readBuffer.readable = c₂.readBuffer.readable)
    {r : HttpRequest} {b : Buffer}
    (hr : c₁.request.init.readBuff w₁.fs c₁.readBuffer = .ok (r, b))
    (hvalid : r.code ≠ .badRequest) (hmethod : r.method ≠ lit "POST")
    (htask : r.tasks = false) :
    Agree (fun p q => p.2 = true ∧ q.2 = true ∧ SameStatic p.1 q.1)
      (c₁.process w₁) (c₂.process w₂) := by
  obtain ⟨m, a, hs, ha, rfl⟩ :=
    HttpRequest.readBuff_message (inv_history h₁).read hr hvalid
  have hset : HttpRequest.SettledAs w₁.fs m _ :=
    HttpRequest.settledAs_absorbed rfl ha
  rw [hset.method] at hmethod
  rw [hset.tasks] at htask
  have hs₂ : scan c₂.readBuffer.readable = .ok (some m) := by
    rw [← hsame]; exact hs
  have hspec₁ := process_static_spec (inv_history h₁) w₁ hs hmethod htask
  have hspec₂ := process_static_spec (inv_history h₂) w₂ hs₂ hmethod
    (by rw [← hfs]; exact htask)
  rw [← hfs, ← hclock] at hspec₂
  refine (hspec₁.trans hspec₂.symm).mono fun p q hpq => ?_
  obtain ⟨content, ⟨hp, hready₁⟩, ⟨hq, hready₂⟩⟩ := hpq
  exact ⟨hp, hq, hready₁.same hready₂⟩

/-- A page asked for on a new connector, and on one that still holds the login
of an earlier client. -/
theorem process_static_login : ∃ c₁ c₂ p q, history.Reachable c₁ ∧
    history.Reachable c₂ ∧ c₁.readBuffer.readable = plainGet ∧
    c₂.readBuffer.readable = plainGet ∧
    c₂.request.form (lit "username") = some (lit "a") ∧
    c₁.process flatWorld = .ok p ∧ c₂.process flatWorld = .ok q ∧
    SameStatic p.1 q.1 := by
  obtain ⟨c₁, c₁', h₁, hread₁, hp⟩ := blank_answers
  obtain ⟨c₂, h₂, hread₂, hleft⟩ := HttpRequest.stale_login (s := plainGet)
    (by decide +kernel) (by decide +kernel)
  have hstale : c₂.request.form (lit "username") = some (lit "a") := by
    rw [hleft.form]
    decide +kernel
  obtain ⟨r, b, hr, hcode, hmethod, htask⟩ := HttpRequest.readBuff_plainGet
    (inv_history h₁).read c₁.request hread₁
  have hagree : Agree _ (c₁.process flatWorld) (c₂.process flatWorld) :=
    process_static h₁ h₂ rfl rfl (hread₁.trans hread₂.symm) hr hcode hmethod
      htask
  rw [hp] at hagree
  obtain ⟨q, hq, -, -, hsame⟩ := hagree.ok_left
  exact ⟨c₁, c₂, _, q, h₁, h₂, hread₁, hread₂, hstale, hp, hq, hsame⟩

end HttpConnector

end TinyWebServer
