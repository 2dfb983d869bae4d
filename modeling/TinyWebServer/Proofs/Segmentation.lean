import TinyWebServer.Proofs.FileAgreement
import TinyWebServer.Proofs.FormStream
import TinyWebServer.Proofs.Serialize

/-!
# Requests and the chunks they arrive in

A read event takes what has arrived, parses it, answers, and throws away what
it did not understand: `Read_Buff` starts over at the request line every time,
and `Process` empties the read buffer. A stream is therefore read right only
when the events happen to cut it between requests. A request cut anywhere else
stops the process at an assertion or is parsed from a fragment, and of two
requests in one chunk the second becomes the body of the first.

`run_whole` is what remains true: events that deliver one whole request each
see exactly these requests, in order, however the bytes of each trickle in and
however its response is cut up on the way out. That is what a new connection
sees of each of them alone, as long as nothing of an earlier request shows:
the header map is never emptied, and an empty body leaves the last one where
it is (`Covers`).
-/

namespace TinyWebServer

open Lib

/-- What the parser made of a request: the fields of the object when the loop
of `Read_Buff` is left, the path still being the target. -/
structure Seen where
  method : Bytes
  target : Bytes
  version : Bytes
  headers : Dict Bytes Bytes
  body : Bytes

/-- How a complete `Write` of `n` bytes is cut into `writev` results. -/
structure Cutting where
  parts : Nat → List Nat
  positive : ∀ n, ∀ k ∈ parts n, 0 < k
  complete : ∀ n, (parts n).sum = n

/-- A read event: what each `readv` delivers until the socket is drained, and
what the world answers until the response is out. -/
structure ReadEvent where
  pieces : List (Buffer.Spill × Bytes)
  last : Buffer.Spill
  world : World
  cutting : Cutting

def ReadEvent.chunk (e : ReadEvent) : Bytes := (e.pieces.map Prod.snd).flatten

/-- The body is as long as a `Content-Length` field says, or there is none. -/
def RequestText.Sized (q : RequestText) : Prop :=
  q.body = [] ∨
    (lit "Content-Length", HttpResponse.toString q.body.length) ∈ q.fields

namespace HttpConnector

def seenIn (r : HttpRequest) : Seen :=
  { method := r.method, target := r.path, version := r.version
    headers := r.headers, body := r.body }

/-- The request `Process` is about to parse, if it parses one. -/
def look (c : HttpConnector) : Except Fault (Option Seen) :=
  if c.readBuffer.readableSize = 0 then
    .ok none
  else do
    let (fell, r, _) ← c.request.init.parseBuff c.readBuffer
    pure (if fell then some (seenIn r) else none)

/-- One event: `Read`, `Process`, and a complete `Write` of the response. -/
def handleEvent (c : HttpConnector) (e : ReadEvent) :
    Except Fault (HttpConnector × Option Seen) := do
  let (c, _, _) ← c.read (e.pieces.map fun p => ⟨p.1, some p.2⟩)
    ⟨e.last, none⟩
  let seen ← c.look
  let (c, ready) ← c.process e.world
  if ready then do
    let sent := (e.cutting.parts c.remaining).map Int.ofNat
    match ← c.write true sent with
    | some (c, _, _) => pure (c, seen)
    | none => pure (c, seen)
  else pure (c, seen)

/-- Event after event, with the requests that were parsed. -/
def run (c : HttpConnector) :
    List ReadEvent → Except Fault (HttpConnector × List Seen)
  | [] => .ok (c, [])
  | e :: es => do
      let (c, seen) ← c.handleEvent e
      let (c, more) ← c.run es
      pure (c, seen.toList ++ more)

/-! ## One whole request -/

instance (m : Message) : Decidable m.IsForm :=
  inferInstanceAs (Decidable (_ ∧ _))

/-- The request as it was written. The body of a form is the one the decoder
makes of it. -/
def told (q : RequestText) : Seen where
  method := q.method
  target := q.target
  version := q.version
  headers := Dict.empty.insertAll q.fields
  body :=
    if q.message.IsForm then
      match HttpRequest.decodeForm q.body with
      | .ok d => d.body
      | .error _ => q.body
    else q.body

/-- Every file that may be opened for the request can be read: the one its
target leads to, or the page a login ends with on these answers, whatever is
in its form. -/
def Answerable (w : World) (q : RequestText) : Prop :=
  ∀ r, HttpRequest.SettledAs w.fs q.message r →
    ReadableFile w.fs (HttpResponse.opened w.db r)

/-- An event that delivers one whole request which can be answered, to a
buffer with this much room. -/
structure Delivers (room : Nat) (e : ReadEvent) (q : RequestText) :
    Prop where
  whole : e.chunk = q.serialize
  pieces : ∀ p ∈ e.pieces, p.2 ≠ []
  fits : q.serialize.length ≤ room
  -- The shortcut for an empty body stops at one byte and drops two.
  body : q.body = [] ∨ 2 < q.body.length
  escapes : q.message.IsForm →
    HttpRequest.EscapedTo (toInt q.body.length).toNat q.body
  answerable : Answerable e.world q
  -- The response is a block of memory.
  memory : ∀ r a (reponse : HttpResponse),
    HttpRequest.SettledAs e.world.fs q.message r →
    answer e.world reponse r = .ok a →
    a.head.length + a.content.length < 2 ^ 63

/-- The request stores over all that these headers and this body hold. -/
structure Covers (headers : Dict Bytes Bytes) (body : Bytes)
    (q : RequestText) : Prop where
  headers : ∀ name, headers name ≠ none → name ∈ Dict.keys q.fields
  body : q.body = [] → body = []

/-- A connector between two requests. -/
structure Between (room : Nat) (headers : Dict Bytes Bytes) (body : Bytes)
    (c : HttpConnector) : Prop where
  inv : c.Inv
  drained : c.readBuffer.readable = []
  room : room ≤ c.readBuffer.writeableSize
  headers : c.request.headers = headers
  body : c.request.body = body

/-- A whole request is taken in as it was written. -/
theorem absorb_whole {r : HttpRequest} {room : Nat} {e : ReadEvent}
    {q : RequestText} (h : Delivers room e q)
    (hcovers : Covers r.headers r.body q) :
    ∃ a, r.absorb q.message = .ok a ∧ seenIn a = told q := by
  have hheaders : r.headers.insertAll q.fields
      = Dict.empty.insertAll q.fields :=
    Dict.insertAll_eq_empty_iff.mpr hcovers.headers
  have hform : r.FormIn q.message ↔ q.message.IsForm := by
    rw [HttpRequest.FormIn, Message.IsForm,
      show q.message.fields = q.fields from rfl, hheaders]
  rw [HttpRequest.absorb_eq, told,
    show q.message.body = RequestText.takenBody q.body from rfl,
    RequestText.takenBody]
  rcases h.body with hnil | hlong
  · -- There is no body, and there was none before.
    rw [if_neg (by rw [hnil]; decide)]
    refine ⟨_, rfl, ?_⟩
    have hbody : (if q.message.IsForm then
        match HttpRequest.decodeForm q.body with
        | .ok d => d.body
        | .error _ => q.body
      else q.body) = [] := by
      rw [hnil]
      split <;> rfl
    rw [hbody, ← hheaders, ← hcovers.body hnil]
    rfl
  · rw [if_pos hlong]
    simp only []
    by_cases hown : q.message.IsForm
    · obtain ⟨d, hd⟩ := HttpRequest.decodeForm_ok_iff.mpr (h.escapes hown)
      rw [if_pos (hform.mpr hown), if_pos hown, hd, ← hheaders]
      exact ⟨_, rfl, rfl⟩
    · rw [if_neg (mt hform.mp hown), if_neg hown, ← hheaders]
      exact ⟨_, rfl, rfl⟩

theorem look_message {c : HttpConnector} (h : c.Inv) {m : Message}
    {a : HttpRequest} (hs : scan c.readBuffer.readable = .ok (some m))
    (ha : c.request.init.absorb m = .ok a) :
    c.look = .ok (some (seenIn a)) := by
  have hpos : c.readBuffer.readableSize ≠ 0 := by
    intro hzero
    have hnil : c.readBuffer.readable = [] := by
      rw [← List.length_eq_zero_iff, h.read.length_readable, hzero]
    rw [hnil] at hs
    cases hs
  have hspec := HttpRequest.parseBuff_eq_scan h.read c.request.init
  rw [HttpRequest.digest, hs] at hspec
  simp only [ok_bind, ha] at hspec
  obtain ⟨⟨fell, r, b⟩, hparse, heq, -⟩ := hspec.ok_right
  cases heq
  rw [look, if_neg hpos, hparse]
  rfl

/-- A response of any head can be sent in any pieces. -/
theorem write_carries {c : HttpConnector} {a : Answer} (h : Carries c a)
    (hhead : a.head ≠ [])
    (hsmall : a.head.length + a.content.length < 2 ^ 63) (cut : Cutting) :
    ∃ c' len, c.write true ((cut.parts c.remaining).map Int.ofNat)
        = .ok (some (c', len, true)) ∧ c'.Inv ∧ SameRest c c' := by
  have hremaining : c.remaining = a.head.length + a.content.length := by
    rw [remaining, h.headLen, h.fileLen]
  have hsome : cut.parts c.remaining ≠ [] := by
    intro hnil
    have hsum := cut.complete c.remaining
    have hpos := List.length_pos_iff.mpr hhead
    rw [hnil, hremaining, List.sum_nil] at hsum
    omega
  exact write_all true (cut.parts c.remaining)
    ⟨h.inv, h.headSize.le, by rw [hremaining]; exact hsmall⟩
    (cut.positive _) hsome (cut.complete _)

/-- `Process` on a whole request: it is answered, and what the next request
will find is what this one says. -/
theorem process_whole {c : HttpConnector} {room : Nat} {e : ReadEvent}
    {q : RequestText} (hinv : c.Inv) (h : Delivers room e q)
    (hcovers : Covers c.request.headers c.request.body q)
    (hs : scan c.readBuffer.readable = .ok (some q.message)) :
    ∃ r a c', c.request.init.absorb q.message = .ok r ∧ seenIn r = told q ∧
      c.process e.world = .ok (c', true) ∧ Carries c' a ∧
      c'.readBuffer.writeableSize = c.readBuffer.buffer.length ∧
      a.head ≠ [] ∧ a.head.length + a.content.length < 2 ^ 63 ∧
      a.request.headers = (told q).headers ∧
      a.request.body = (told q).body := by
  obtain ⟨r, hr, hseen⟩ := absorb_whole (r := c.request.init) h hcovers
  have hset : HttpRequest.SettledAs e.world.fs q.message _ :=
    HttpRequest.settledAs_absorbed rfl hr
  obtain ⟨inode, content, hstat, hkind⟩ := h.answerable _ hset
  have hanswer : answer e.world c.reponse (r.handlePath e.world.fs)
      = .ok (served e.world (r.handlePath e.world.fs) content) :=
    answer_ok_iff.mpr ⟨inode, content, hstat, hkind, rfl⟩
  obtain ⟨c', hp, hcarries, hspace⟩ := process_ok hinv (w := e.world)
    (by intro hnil; rw [hnil] at hs; cases hs)
    (by rw [HttpRequest.readContent_ok hs hr, ok_bind]; exact hanswer)
  have hrequest : (served e.world (r.handlePath e.world.fs) content).request
      = HttpResponse.consulted e.world.db (r.handlePath e.world.fs) := rfl
  refine ⟨r, _, c', hr, hseen, hp, hcarries, hspace, ?_,
    h.memory _ _ c.reponse hset hanswer, ?_, ?_⟩
  · intro hnil
    have hcrlf : crlf ≠ [] := by decide
    simp only [served, List.append_eq_nil_iff] at hnil
    exact hcrlf hnil.2
  · rw [hrequest, HttpResponse.consulted_eq,
      HttpRequest.handlePath_absorbed rfl hr]
    exact congrArg Seen.headers hseen
  · rw [hrequest, HttpResponse.consulted_eq,
      HttpRequest.handlePath_absorbed rfl hr]
    exact congrArg Seen.body hseen

/-- The event of a whole request. -/
theorem handleEvent_whole {c : HttpConnector} {room : Nat}
    {headers : Dict Bytes Bytes} {body : Bytes} {e : ReadEvent}
    {q : RequestText} (hc : Between room headers body c)
    (h : Delivers room e q) (hcovers : Covers headers body q) :
    ∃ c', c.handleEvent e = .ok (c', some (told q)) ∧
      Between room (told q).headers (told q).body c' := by
  have hchunk : (e.pieces.map Prod.snd).flatten = q.serialize := h.whole
  have hroom := hc.room
  have hfits := h.fits
  obtain ⟨b, hread, hb, hreadable, hsize⟩ := read_pieces hc.inv e.last
    e.pieces h.pieces (by rw [hchunk]; omega)
  rw [hc.drained, List.nil_append, hchunk] at hreadable
  have hinv : Inv { c with readBuffer := b } := ⟨hb, hc.inv.write⟩
  have hone : q.body.length ≠ 1 := by
    have hbody := h.body
    rw [← List.length_eq_zero_iff] at hbody
    omega
  have hs : scan b.readable = .ok (some q.message) := by
    rw [hreadable]; exact RequestText.scan_serialize hone
  rw [← hc.headers, ← hc.body] at hcovers
  obtain ⟨r, a, c₁, hr, hseen, hp, hcarries, hspace, hhead, hsmall, hheaders,
    hbody⟩ := process_whole hinv h hcovers hs
  obtain ⟨c₂, len, hw, hinv₂, hsame⟩ :=
    write_carries hcarries hhead hsmall e.cutting
  refine ⟨c₂, ?_, hinv₂, ?_, ?_, ?_, ?_⟩
  · rw [handleEvent, hread]
    simp only [ok_bind]
    rw [look_message hinv hs hr]
    simp only [ok_bind, hp, if_true]
    rw [hw, hseen]
    rfl
  · rw [hsame.readBuffer]; exact hcarries.drained
  · rw [hsame.readBuffer, hspace]
    have hle : c.readBuffer.writeableSize ≤ c.readBuffer.buffer.length :=
      Nat.sub_le _ _
    show room ≤ b.buffer.length
    omega
  · rw [hsame.request, hcarries.request, hheaders]
  · rw [hsame.request, hcarries.request, hbody]

/-! ## A run of whole requests -/

/-- Events that deliver one whole request each, each of them storing over what
is there when it comes. -/
def DeliverEach (room : Nat) (headers : Dict Bytes Bytes) (body : Bytes) :
    List (ReadEvent × RequestText) → Prop
  | [] => True
  | (e, q) :: rest =>
      Delivers room e q ∧ Covers headers body q ∧
        DeliverEach room (told q).headers (told q).body rest

theorem run_between {room : Nat} :
    ∀ (steps : List (ReadEvent × RequestText)) {c : HttpConnector}
      {headers : Dict Bytes Bytes} {body : Bytes},
    Between room headers body c → DeliverEach room headers body steps →
    ∃ c', c.run (steps.map Prod.fst)
      = .ok (c', steps.map fun step => told step.2) := by
  intro steps
  induction steps with
  | nil => intro c headers body _ _; exact ⟨c, rfl⟩
  | cons step steps ih =>
      intro c headers body hc h
      obtain ⟨e, q⟩ := step
      obtain ⟨hdelivers, hcovers, hrest⟩ := h
      obtain ⟨c₁, h₁, hbetween⟩ := handleEvent_whole hc hdelivers hcovers
      obtain ⟨c', hrun⟩ := ih hbetween hrest
      refine ⟨c', ?_⟩
      rw [List.map_cons, run, h₁, ok_bind]
      simp only [hrun, ok_bind]
      rfl

theorem DeliverEach.delivers {room : Nat} :
    ∀ {steps : List (ReadEvent × RequestText)} {headers : Dict Bytes Bytes}
      {body : Bytes}, DeliverEach room headers body steps →
    ∀ step ∈ steps, Delivers room step.1 step.2 := by
  intro steps
  induction steps with
  | nil => intro headers body _ step hmem; cases hmem
  | cons step steps ih =>
      intro headers body h
      obtain ⟨hdelivers, -, hrest⟩ := h
      exact List.forall_mem_cons.mpr ⟨hdelivers, ih hrest⟩

/-! ## A request on its own -/

/-- A new connection, or one as good as new. -/
structure Untouched (c : HttpConnector) : Prop where
  reached : history.Reachable c
  drained : c.readBuffer.readable = []
  headers : c.request.headers = Dict.empty
  body : c.request.body = []

theorem untouched_init (fd : Int) : Untouched (blankConnector.init fd) where
  reached := blankConnector_reachable.next (.init : Call _ (.init fd) _)
  drained := Buffer.readable_construct _
  headers := rfl
  body := rfl

/-- What is seen of `q` when it arrives alone, in one chunk and in the world
of `e`, at an untouched connector that has room for it. -/
def SeenAlone (e : ReadEvent) (q : RequestText) (seen : Seen) : Prop :=
  ∀ c, Untouched c → q.serialize.length ≤ c.readBuffer.writeableSize →
    ∃ c', c.run [{ e with pieces := [(e.last, q.serialize)] }]
      = .ok (c', [seen])

theorem seenAlone_told {room : Nat} {e : ReadEvent} {q : RequestText}
    (h : Delivers room e q) : SeenAlone e q (told q) := by
  intro c hc hfits
  have hne : q.serialize ≠ [] := by
    rw [RequestText.serialize]
    intro hnil
    have htail := RequestText.tailText_length q.fields q.body
    rw [List.append_eq_nil_iff, List.append_eq_nil_iff] at hnil
    rw [hnil.2.2, List.length_nil] at htail
    omega
  refine run_between [(_, q)]
    ⟨inv_history hc.reached, hc.drained, le_rfl, hc.headers, hc.body⟩
    ⟨⟨?_, ?_, hfits, h.body, h.escapes, h.answerable, h.memory⟩,
      ⟨fun name hname => absurd rfl hname, fun _ => rfl⟩, trivial⟩
  · exact List.append_nil _
  · intro p hp
    rw [List.mem_singleton] at hp
    subst hp
    exact hne

/-! ## A page, in one piece -/

/-- A `Write` that is done in one piece. -/
def onePiece : Cutting where
  parts n := if n = 0 then [] else [n]
  positive n k hk := by
    split at hk
    · cases hk
    · rw [List.mem_singleton] at hk; omega
  complete n := by split <;> simp_all

/-- The event of a chunk that arrives in one piece. -/
def chunkEvent (s : Bytes) : ReadEvent :=
  ⟨[(zeroSpill, s)], zeroSpill, flatWorld, onePiece⟩

theorem chunk_chunkEvent (s : Bytes) : (chunkEvent s).chunk = s := by
  simp [chunkEvent, ReadEvent.chunk]

/-- The request of `plainGet`. -/
def pageText : RequestText where
  method := lit "GET"
  target := lit "/a.html"
  version := lit "1.1"
  fields := [(lit "Host", lit "b")]
  body := []
  plainMethod := by constructor <;> decide +kernel
  plainTarget := by constructor <;> decide +kernel
  plainVersion := by constructor <;> decide +kernel
  plainFields := by
    intro f hf
    rw [List.mem_singleton] at hf
    subst hf
    constructor <;> decide +kernel
  someField := List.cons_ne_nil _ _

theorem serialize_pageText : pageText.serialize = plainGet := by
  decide +kernel

/-- Where no login is asked for, the target alone says which file is
opened. -/
theorem answerable_iff {w : World} {q : RequestText}
    (htask : q.target ∉ tasks) :
    Answerable w q ↔ ReadableFile w.fs (settle w.fs q.target).path := by
  have hopened : ∀ r, HttpRequest.SettledAs w.fs q.message r →
      HttpResponse.opened w.db r = (settle w.fs q.target).path := by
    intro r hset
    rw [HttpResponse.opened, hset.tasks, hset.path,
      settle_task_eq_false (show q.message.target ∉ tasks from htask)]
    rfl
  constructor
  · intro h
    have hset : HttpRequest.SettledAs w.fs q.message
        { blankConnector.request with
          method := q.method, version := q.version
          path := (settle w.fs q.target).path
          code := (settle w.fs q.target).code
          tasks := (settle w.fs q.target).task } := ⟨rfl, rfl, rfl, rfl, rfl⟩
    exact hopened _ hset ▸ h _ hset
  · intro h r hset
    rw [hopened r hset]
    exact h

theorem delivers_page {room : Nat} (hroom : plainGet.length ≤ room) :
    Delivers room (chunkEvent plainGet) pageText where
  whole := by rw [chunk_chunkEvent, serialize_pageText]
  pieces p hp := by
    rw [chunkEvent, List.mem_singleton] at hp
    subst hp
    decide +kernel
  fits := by rw [serialize_pageText]; exact hroom
  body := .inl rfl
  escapes h := absurd h.1 (by decide +kernel)
  answerable := (answerable_iff (by decide +kernel)).mpr (flatTree_readable _)
  memory r a reponse hset ha := by
    obtain ⟨inode, content, hstat, hkind, rfl⟩ := answer_ok_iff.mp ha
    cases hstat
    cases hkind
    have hline : HttpResponse.statusLine r = lit "HTTP/1.1 200 OK" := by
      rw [HttpResponse.statusLine, hset.version, hset.code]
      decide +kernel
    have hcode : r.code = .fileRequest := hset.code.trans (by decide +kernel)
    rw [served, hline, hcode]
    dsimp only
    decide +kernel

theorem covers_page : Covers (told pageText).headers (told pageText).body
    pageText where
  headers name hname := by
    by_contra hmem
    exact hname (Dict.insertAll_of_not_mem hmem)
  body _ := by decide +kernel

/-! ## The condition under which requests are seen -/

/-- From every reachable connector with nothing unread: a run whose every
event delivers one whole request does not stop and sees exactly these
requests, in order. Each of them is what is seen of it alone. -/
theorem run_whole {c : HttpConnector} (hc : history.Reachable c)
    (hdrained : c.readBuffer.readable = [])
    (steps : List (ReadEvent × RequestText))
    (h : DeliverEach c.readBuffer.writeableSize c.request.headers
      c.request.body steps) :
    (∃ c', c.run (steps.map Prod.fst)
      = .ok (c', steps.map fun step => told step.2)) ∧
    ∀ step ∈ steps, SeenAlone step.1 step.2 (told step.2) :=
  ⟨run_between steps ⟨inv_history hc, hdrained, le_rfl, rfl, rfl⟩ h,
    fun step hmem => seenAlone_told (h.delivers step hmem)⟩

/-- Two pages asked for on one connection. -/
theorem run_whole_pages :
    (∃ c', (blankConnector.init 5).run
      [chunkEvent plainGet, chunkEvent plainGet]
        = .ok (c', [told pageText, told pageText])) ∧
    ∃ c', (blankConnector.init 7).run [chunkEvent plainGet]
      = .ok (c', [told pageText]) := by
  have hnew := untouched_init 5
  have hroom : plainGet.length
      ≤ (blankConnector.init 5).readBuffer.writeableSize := by decide +kernel
  obtain ⟨hrun, halone⟩ := run_whole hnew.reached hnew.drained
    [(chunkEvent plainGet, pageText), (chunkEvent plainGet, pageText)]
    ⟨delivers_page hroom, ⟨fun name hname => absurd rfl hname, fun _ => rfl⟩,
      delivers_page hroom, covers_page, trivial⟩
  refine ⟨hrun, ?_⟩
  obtain ⟨c', hc'⟩ := halone _ List.mem_cons_self _ (untouched_init 7)
    (by rw [serialize_pageText]; decide +kernel)
  rw [serialize_pageText] at hc'
  exact ⟨c', hc'⟩

/-! ## A cut inside the request line -/

def firstCut : Bytes := plainGet.take 14

def secondCut : Bytes := plainGet.drop 14

/-- A chunk without a line end stops the process. -/
theorem handleEvent_firstCut {c : HttpConnector} (h : c.Inv)
    (hdrained : c.readBuffer.readable = [])
    (hroom : Buffer.defaultSize ≤ c.readBuffer.writeableSize) :
    c.handleEvent (chunkEvent firstCut)
      = .error (.assertFailed .updateReadp) := by
  have hfit : firstCut.length ≤ Buffer.defaultSize := by decide +kernel
  obtain ⟨b, hread, hb, hreadable, -⟩ := read_pieces h zeroSpill
    (chunkEvent firstCut).pieces (by
      intro p hp
      rw [chunkEvent, List.mem_singleton] at hp
      subst hp
      decide +kernel)
    (by rw [← ReadEvent.chunk, chunk_chunkEvent]; omega)
  rw [← ReadEvent.chunk, chunk_chunkEvent, hdrained,
    List.nil_append] at hreadable
  have hpos : b.readableSize ≠ 0 := by
    rw [← hb.length_readable, hreadable]
    decide +kernel
  have hspec := HttpRequest.parseBuff_eq_scan hb c.request.init
  have hscan : scan firstCut = .error (.assertFailed .updateReadp) := by
    decide +kernel
  rw [HttpRequest.digest, hreadable, hscan] at hspec
  have hread' : c.read ((chunkEvent firstCut).pieces.map fun p =>
      ⟨p.1, some p.2⟩) ⟨(chunkEvent firstCut).last, none⟩
      = .ok ({ c with readBuffer := b }, -1, false) := hread
  rw [handleEvent, hread', ok_bind]
  simp only [look, if_neg hpos]
  cases hp : c.request.init.parseBuff b with
  | error e =>
      rw [hp] at hspec
      cases hspec
      rfl
  | ok out => rw [hp] at hspec; exact hspec.elim

/-- Cutting a request in two does change what is parsed: the process is gone
before the second half arrives. -/
theorem run_depends_on_cuts :
    ¬ ∀ (c : HttpConnector) (qs : List RequestText)
        (es alone : List ReadEvent) (c₁ : HttpConnector) (seen : List Seen),
      history.Reachable c → c.readBuffer.readable = [] →
      (∀ q ∈ qs, q.Sized) →
      (∀ e ∈ es, e.chunk ≠ [] ∧ ∀ p ∈ e.pieces, p.2 ≠ []) →
      (es.map ReadEvent.chunk).flatten
        = (qs.map RequestText.serialize).flatten →
      alone.map ReadEvent.chunk = qs.map RequestText.serialize →
      c.run alone = .ok (c₁, seen) →
      ∃ c', c.run es = .ok (c', seen) := by
  intro hall
  have hc := blankConnector_reachable.next (.init : Call _ (.init 5) _)
  have hdrained : (blankConnector.init 5).readBuffer.readable = [] :=
    Buffer.readable_construct _
  have hroom : Buffer.defaultSize
      ≤ (blankConnector.init 5).readBuffer.writeableSize :=
    (Buffer.writeableSize_construct _).ge
  obtain ⟨c₁, halone⟩ := run_between [(chunkEvent plainGet, pageText)]
    ⟨inv_history hc, hdrained, hroom, rfl, rfl⟩
    ⟨delivers_page (by decide +kernel),
      ⟨fun name hname => absurd rfl hname, fun _ => rfl⟩, trivial⟩
  obtain ⟨c', hcut⟩ := hall _ [pageText]
    [chunkEvent firstCut, chunkEvent secondCut] [chunkEvent plainGet] c₁ _
    hc hdrained
    (fun q hq => by rw [List.mem_singleton] at hq; exact .inl (hq ▸ rfl))
    (fun e he => by
      have hne : firstCut ≠ [] ∧ secondCut ≠ [] := by decide +kernel
      simp only [List.mem_cons, List.not_mem_nil, or_false] at he
      rcases he with rfl | rfl
      · exact ⟨by rw [chunk_chunkEvent]; exact hne.1,
          by simpa [chunkEvent] using hne.1⟩
      · exact ⟨by rw [chunk_chunkEvent]; exact hne.2,
          by simpa [chunkEvent] using hne.2⟩)
    (by simp [chunk_chunkEvent, serialize_pageText, firstCut, secondCut])
    (by simp [chunk_chunkEvent, serialize_pageText]) halone
  rw [run, handleEvent_firstCut (inv_history hc) hdrained hroom] at hcut
  cases hcut

end HttpConnector

end TinyWebServer
