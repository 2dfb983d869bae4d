import TinyWebServer.Proofs.Response
import TinyWebServer.Proofs.Target

/-!
# What a request finds in the object it is parsed into

`HttpRequest::Init` resets the flags and leaves the header map, the form and
the body as the last request left them, and `Close` does not touch the request
at all. Parsing only ever adds to the two maps, so an entry of an earlier
request, or of an earlier client on the same descriptor, is still there unless
the message at hand stores something under its name.

`readBuff_isolated_iff` says so exactly: the parsed maps and body are those of
a fresh object if and only if the message overwrites all that was left
(`Overwritten`).
-/

namespace TinyWebServer

open Lib

/-- The message is a form by its own method and header fields. -/
def Message.IsForm (m : Message) : Prop :=
  m.method = lit "POST" ∧
    (Dict.empty : Dict Bytes Bytes).insertAll m.fields (lit "Content-Type")
      = some HttpRequest.formType

namespace HttpRequest

/-- The fields of a parsed request that `_Login` and the rest of the program
read as the client's own words. -/
@[mk_iff]
structure SameContent (r r' : HttpRequest) : Prop where
  headers : r.headers = r'.headers
  form : r.form = r'.form
  body : r.body = r'.body

/-- Whatever earlier requests left in `r`, the message `m` stores over it. -/
structure Overwritten (r : HttpRequest) (m : Message) : Prop where
  headers : ∀ name, r.headers name ≠ none → name ∈ Dict.keys m.fields
  body : m.body = none → r.body = []
  form : ∀ key value, r.form key = some value →
    ∃ bytes d, m.body = some bytes ∧ m.IsForm ∧ decodeForm bytes = .ok d ∧
      (key ∈ Dict.keys d.pairs ∨ d.last = some (key, value))

/-! ## Two requests that absorb the same message -/

/-- A fresh object takes in whatever an object with a past takes in: a form
that its own fields make a form is one in both. -/
theorem formIn_of_isForm {r : HttpRequest} {m : Message} (h : m.IsForm) :
    r.FormIn m := by
  refine ⟨h.1, ?_⟩
  have hmem : lit "Content-Type" ∈ Dict.keys m.fields := by
    by_contra hno
    have hval := h.2
    rw [Dict.insertAll_of_not_mem hno] at hval
    cases hval
  rw [Dict.insertAll_of_mem hmem]
  exact h.2

theorem absorb_fresh {r r' fresh : HttpRequest} {m : Message}
    (hempty : fresh.headers = Dict.empty) (hr : r.absorb m = .ok r') :
    ∃ f', fresh.absorb m = .ok f' := by
  rw [absorb_eq] at hr ⊢
  cases hb : m.body with
  | none => exact ⟨_, rfl⟩
  | some bytes =>
      rw [hb] at hr
      simp only [] at hr ⊢
      by_cases hf : fresh.FormIn m
      · have hform : m.IsForm := ⟨hf.1, by rw [← hempty]; exact hf.2⟩
        rw [if_pos (formIn_of_isForm hform)] at hr
        rw [if_pos hf]
        obtain ⟨d, hd, -⟩ := bind_ok_iff.mp hr
        exact ⟨_, by rw [hd]; rfl⟩
      · exact ⟨_, by rw [if_neg hf]⟩

/-- Nothing is left in a form that no entry of may be left in. -/
theorem form_eq_empty_iff {form : Dict Bytes Bytes} :
    form = Dict.empty ↔ ∀ key value, form key = some value → False := by
  constructor
  · intro h key value hv
    rw [h] at hv
    cases hv
  · intro h
    funext key
    cases hk : form key with
    | none => rfl
    | some value => exact (h key value hk).elim

/-- What being overwritten comes to, by what the message carries. -/
theorem overwritten_bodyless {r : HttpRequest} {m : Message}
    (hb : m.body = none) :
    r.Overwritten m ↔ r.headers.insertAll m.fields
        = (Dict.empty : Dict Bytes Bytes).insertAll m.fields ∧
      r.form = Dict.empty ∧ r.body = [] := by
  rw [Dict.insertAll_eq_empty_iff, form_eq_empty_iff]
  constructor
  · intro h
    refine ⟨h.headers, fun key value hv => ?_, h.body hb⟩
    obtain ⟨bytes, d, hsome, -⟩ := h.form key value hv
    rw [hb] at hsome
    cases hsome
  · intro h
    exact ⟨h.1, fun _ => h.2.2, fun key value hv =>
      (h.2.1 key value hv).elim⟩

theorem overwritten_plain {r : HttpRequest} {m : Message} {bytes : Bytes}
    (hb : m.body = some bytes) (hm : ¬ m.IsForm) :
    r.Overwritten m ↔ r.headers.insertAll m.fields
        = (Dict.empty : Dict Bytes Bytes).insertAll m.fields ∧
      r.form = Dict.empty := by
  rw [Dict.insertAll_eq_empty_iff, form_eq_empty_iff]
  constructor
  · intro h
    refine ⟨h.headers, fun key value hv => ?_⟩
    obtain ⟨bytes', d, -, hform, -⟩ := h.form key value hv
    exact hm hform
  · intro h
    refine ⟨h.1, fun hnone => ?_, fun key value hv =>
      (h.2 key value hv).elim⟩
    rw [hb] at hnone
    cases hnone

theorem overwritten_form {r : HttpRequest} {m : Message} {bytes : Bytes}
    {d : FormBody} (hb : m.body = some bytes) (hm : m.IsForm)
    (hd : decodeForm bytes = .ok d) :
    r.Overwritten m ↔ r.headers.insertAll m.fields
        = (Dict.empty : Dict Bytes Bytes).insertAll m.fields ∧
      storeForm r.form d = storeForm Dict.empty d := by
  rw [Dict.insertAll_eq_empty_iff, storeForm_eq_empty_iff]
  constructor
  · intro h
    refine ⟨h.headers, fun key value hv => ?_⟩
    obtain ⟨bytes', d', hb', -, hd', hstored⟩ := h.form key value hv
    cases hb.symm.trans hb'
    cases hd.symm.trans hd'
    exact hstored
  · intro h
    refine ⟨h.1, fun hnone => ?_, fun key value hv =>
      ⟨bytes, d, hb, hm, hd, h.2 key value hv⟩⟩
    rw [hb] at hnone
    cases hnone

/-- The past does not show exactly when it is overwritten. -/
theorem absorb_same_iff {r r' fresh f' : HttpRequest} {m : Message}
    (hheaders : fresh.headers = Dict.empty) (hform : fresh.form = Dict.empty)
    (hbody : fresh.body = []) (hr : r.absorb m = .ok r')
    (hf : fresh.absorb m = .ok f') :
    SameContent r' f' ↔ r.Overwritten m := by
  rw [absorb_eq] at hr hf
  have hown : fresh.FormIn m ↔ m.IsForm := by
    rw [FormIn, Message.IsForm, hheaders]
  cases hb : m.body with
  | none =>
      rw [hb] at hr hf
      cases hr
      cases hf
      rw [overwritten_bodyless hb, sameContent_iff]
      simp only [takeHead, hheaders, hform, hbody]
  | some bytes =>
      rw [hb] at hr hf
      simp only [] at hr hf
      by_cases hm : m.IsForm
      · rw [if_pos (formIn_of_isForm hm)] at hr hf
        obtain ⟨d, hd, hr⟩ := bind_ok_iff.mp hr
        rw [hd] at hf
        cases hr
        cases hf
        rw [overwritten_form hb hm hd, sameContent_iff]
        simp only [takeHead, hheaders, hform, and_true]
      · rw [if_neg (fun h => hm (hown.mp h))] at hf
        cases hf
        rw [overwritten_plain hb hm, sameContent_iff]
        simp only [takeHead, hheaders, hform]
        -- With other headers the past may even make a form of the body; with
        -- the same ones it cannot.
        have hplain : r.headers.insertAll m.fields
            = Dict.empty.insertAll m.fields → ¬ r.FormIn m := by
          intro heads hin
          exact hm ⟨hin.1, heads ▸ hin.2⟩
        have hheads : r'.headers = r.headers.insertAll m.fields := by
          split at hr
          · obtain ⟨d, -, hr⟩ := bind_ok_iff.mp hr
            cases hr
            rfl
          · cases hr
            rfl
        rw [hheads]
        refine and_congr_right fun heads => ?_
        rw [if_neg (hplain heads)] at hr
        cases hr
        exact and_iff_left rfl

/-! ## A request parsed into an object with a past -/

theorem handlePath_content (fs : FileSystem) {r a : HttpRequest} {m : Message}
    (htasks : r.tasks = false) (h : r.absorb m = .ok a) :
    SameContent (a.handlePath fs) a := by
  rw [handlePath_absorbed htasks h]
  exact ⟨rfl, rfl, rfl⟩

/-- One object with a past and one without, on the same readable bytes. -/
theorem readBuff_fresh (r fresh : HttpRequest) {out : HttpRequest}
    {b b' b₀ : Buffer} {fs : FileSystem} (hb : b.Inv)
    (htasks : r.tasks = false) (hr : r.readBuff fs b = .ok (out, b'))
    (hvalid : out.code ≠ .badRequest) (hheaders : fresh.headers = Dict.empty)
    (hform : fresh.form = Dict.empty) (hbody : fresh.body = [])
    (hfree : fresh.tasks = false) (hb₀ : b₀.Inv)
    (hsame : b₀.readable = b.readable) :
    ∃ out₀ b₀' m, fresh.readBuff fs b₀ = .ok (out₀, b₀') ∧
      scan b.readable = .ok (some m) ∧
      (SameContent out out₀ ↔ r.Overwritten m) := by
  obtain ⟨m, a, hs, ha, rfl⟩ := readBuff_message hb hr hvalid
  obtain ⟨f, hf⟩ := absorb_fresh hheaders ha
  have hspec₀ := readBuff_eq_scan hb₀ fs fresh
  rw [hsame, readContent_ok hs hf] at hspec₀
  obtain ⟨⟨out₀, b₀'⟩, hout₀, rfl, -, -⟩ := hspec₀.ok_right
  refine ⟨_, b₀', m, hout₀, hs, ?_⟩
  have hout := handlePath_content fs htasks ha
  have hfresh := handlePath_content fs hfree hf
  rw [← absorb_same_iff hheaders hform hbody ha hf, sameContent_iff,
    sameContent_iff, hout.headers, hout.form, hout.body, hfresh.headers,
    hfresh.form, hfresh.body]

theorem selectForm_congr {r r' : HttpRequest} (h : SameContent r r')
    (key : Bytes) : (r.selectForm key).2 = (r'.selectForm key).2 := by
  rw [selectForm, selectForm, h.form]
  cases r'.form key with
  | none => rfl
  | some value => rfl

/-- `r` is what a fresh connector would have parsed from the bytes of `b`:
wherever these bytes stand in its buffer, it completes, with the same maps and
body, and the same answers to every `Select_Form`. -/
def Isolated (fs : FileSystem) (b : Buffer) (r : HttpRequest) : Prop :=
  ∀ fresh b₀, HttpConnector.history.init fresh → b₀.Inv →
    b₀.readable = b.readable →
    ∃ r₀ b₀', fresh.request.init.readBuff fs b₀ = .ok (r₀, b₀') ∧
      SameContent r r₀ ∧
      ∀ key, (r.selectForm key).2 = (r₀.selectForm key).2

theorem readBuff_plainGet {b : Buffer} (h : b.Inv) (r : HttpRequest)
    (hread : b.readable = plainGet) :
    ∃ out b', r.init.readBuff flatTree b = .ok (out, b') ∧
      out.code ≠ .badRequest ∧ out.method ≠ lit "POST" ∧
      out.tasks = false := by
  have habsorb := absorb_bodyless (m := plainMessage) r.init rfl
  obtain ⟨b', hr⟩ := readBuff_ok flatTree h
    (by rw [hread]; exact scan_plainGet) habsorb
  refine ⟨_, b', hr, ?_⟩
  rw [handlePath_absorbed rfl habsorb]
  show (settle flatTree plainMessage.target).code ≠ .badRequest ∧
    plainMessage.method ≠ lit "POST" ∧
    (settle flatTree plainMessage.target).task = false
  decide +kernel

/-! ## The exact condition -/

/-- On a connector with any history, a request is parsed as on a fresh one
exactly when it overwrites everything the history left. -/
theorem readBuff_isolated_iff {c : HttpConnector}
    (hc : HttpConnector.history.Reachable c) {fs : FileSystem}
    {r : HttpRequest} {b : Buffer}
    (hr : c.request.init.readBuff fs c.readBuffer = .ok (r, b))
    (hvalid : r.code ≠ .badRequest) :
    Isolated fs c.readBuffer r ↔
      ∀ m, scan c.readBuffer.readable = .ok (some m) →
        c.request.Overwritten m := by
  have hinv := (HttpConnector.inv_history hc).read
  constructor
  · intro h m hm
    obtain ⟨r₀, b₀', hr₀, hsame, -⟩ := h
      (.construct (.construct .requestLine .noRequest false false)
        (.construct false .noRequest)) c.readBuffer
      ⟨_, _, _, _, _, _, rfl⟩ hinv rfl
    obtain ⟨r₁, b₁', m', hr₁, hm', hiff⟩ := readBuff_fresh c.request.init
      (construct .requestLine .noRequest false false).init hinv rfl hr
      hvalid rfl rfl rfl rfl hinv rfl
    cases hm.symm.trans hm'
    cases hr₀.symm.trans hr₁
    have hover := hiff.mp hsame
    exact ⟨hover.headers, hover.body, hover.form⟩
  · intro h fresh b₀ hfresh hb₀ hsame
    obtain ⟨status, code, cgi, tasks, fileStatus, code', rfl⟩ := hfresh
    obtain ⟨r₀, b₀', m, hr₀, hm, hiff⟩ := readBuff_fresh c.request.init
      (construct status code cgi tasks).init hinv rfl hr hvalid rfl rfl rfl
      rfl hb₀ hsame
    have hover := h m hm
    have hsame := hiff.mpr ⟨hover.headers, hover.body, hover.form⟩
    exact ⟨r₀, b₀', hr₀, hsame, selectForm_congr hsame⟩

/-! ## Two clients on one descriptor -/

def loginPost : Bytes := lit <|
  "POST /login HTTP/1.1\r\n" ++
  "Content-Type: application/x-www-form-urlencoded\r\n" ++
  "\r\n" ++
  "username=a&pwd=b"

/-- The message of a login with this body. -/
def loginMessage (body : Bytes) : Message :=
  ⟨lit "POST", lit "/login", lit "1.1", [(lit "Content-Type", formType)],
    some body, .finished⟩

theorem isForm_loginMessage (body : Bytes) : (loginMessage body).IsForm :=
  ⟨rfl, Dict.insertAll_empty_iff.mpr ⟨[], [], rfl, List.not_mem_nil⟩⟩

/-- A login is taken in as a form, whatever the object holds. -/
theorem absorb_login (r : HttpRequest) {body : Bytes} {d : FormBody}
    (hd : decodeForm body = .ok d) :
    ∃ a, r.absorb (loginMessage body) = .ok a ∧ a.code = .fileRequest ∧
      a.headers = r.headers.insertAll [(lit "Content-Type", formType)] ∧
      a.form = storeForm r.form d := by
  have hform : r.FormIn (loginMessage body) :=
    formIn_of_isForm (isForm_loginMessage body)
  rw [absorb_eq, show (loginMessage body).body = some body from rfl]
  simp only []
  rw [if_pos hform, hd]
  exact ⟨_, rfl, rfl, rfl, rfl⟩

/-- What the login of the first client leaves. -/
structure LoggedIn (r : HttpRequest) : Prop where
  headers : r.headers
    = (Dict.empty : Dict Bytes Bytes).insertAll
      [(lit "Content-Type", formType)]
  form : r.form = (Dict.empty : Dict Bytes Bytes).insertAll
    [(lit "username", lit "a"), (lit "pwd", lit "b")]

/-- A client logs in and hangs up; the next one on the descriptor sends `s`,
and the login is still there. -/
theorem stale_login {s : Bytes} (hne : s ≠ [])
    (hfit : s.length ≤ Buffer.defaultSize) :
    ∃ c, HttpConnector.history.Reachable c ∧ c.readBuffer.readable = s ∧
      LoggedIn c.request := by
  have hc₀ := blankConnector_reachable.next
    (.init : HttpConnector.Call _ (.init 5) _)
  obtain ⟨b, hc₁, hb, hsize⟩ := HttpConnector.history_receive hc₀
    (s := loginPost) (by decide +kernel) (by decide +kernel)
  have hread : b.readable = loginPost := hb
  have hscan : scan loginPost
      = .ok (some (loginMessage (lit "username=a&pwd=b"))) := by
    decide +kernel
  have hd : decodeForm (lit "username=a&pwd=b")
      = .ok ⟨lit "username=a&pwd=b", [(lit "username", lit "a")],
        some (lit "pwd", lit "b")⟩ := by decide +kernel
  obtain ⟨a, ha, -, hheaders, hform⟩ :=
    absorb_login blankConnector.request.init hd
  have hanswer : (do
      let r ← blankConnector.request.init.readContent flatTree loginPost
      HttpConnector.answer flatWorld blankConnector.reponse r)
        = .ok (HttpConnector.served flatWorld (a.handlePath flatTree) []) := by
    rw [readContent_ok hscan ha, ok_bind]
    exact HttpConnector.answer_ok_iff.mpr ⟨_, [], rfl, rfl, rfl⟩
  obtain ⟨c, hp, hcarries, hroom⟩ := HttpConnector.process_ok
    (HttpConnector.inv_history hc₁) (w := flatWorld)
    (by rw [hread]; decide +kernel) (by rw [hread]; exact hanswer)
  have hrequest := hcarries.request
  rw [HttpConnector.served, HttpResponse.consulted_unconnected rfl]
    at hrequest
  have hsame := handlePath_content flatTree rfl ha
  have hc₃ := ((hc₁.next (.process hp)).next .close).next
    (.init : HttpConnector.Call _ (.init 5) _)
  obtain ⟨b', hc₄, hb', -⟩ := HttpConnector.history_receive hc₃ hne (by
    show s.length ≤ c.close.readBuffer.writeableSize
    rw [HttpConnector.close_readBuffer, hroom, hsize]
    show s.length ≤ (List.replicate Buffer.defaultSize 0).length
    rw [List.length_replicate]
    exact hfit)
  refine ⟨_, hc₄, ?_, ?_, ?_⟩
  · show b'.readable = s
    rw [hb']
    show c.close.readBuffer.readable ++ s = s
    rw [HttpConnector.close_readBuffer, hcarries.drained, List.nil_append]
  · show c.close.request.headers = _
    rw [HttpConnector.close_request, hrequest, hsame.headers, hheaders]
    rfl
  · show c.close.request.form = _
    rw [HttpConnector.close_request, hrequest, hsame.form, hform]
    rw [storeForm]
    exact if_pos (by decide +kernel)

/-- The login of a second client, with a field of its own behind it: the last
pair of a form is only stored where there is none. -/
def loginAgain : Bytes := lit <|
  "POST /login HTTP/1.1\r\n" ++
  "Content-Type: application/x-www-form-urlencoded\r\n" ++
  "\r\n" ++
  "username=c&pwd=d&x=y"

/-- It stores over all that the first one left. -/
theorem readBuff_isolated_iff_login : ∃ c r b,
    HttpConnector.history.Reachable c ∧ LoggedIn c.request ∧
    c.readBuffer.readable = loginAgain ∧
    c.request.init.readBuff flatTree c.readBuffer = .ok (r, b) ∧
    r.code ≠ .badRequest ∧ Isolated flatTree c.readBuffer r := by
  obtain ⟨c, hc, hread, hleft⟩ := stale_login (s := loginAgain)
    (by decide +kernel) (by decide +kernel)
  let message := loginMessage (lit "username=c&pwd=d&x=y")
  have hscan : scan c.readBuffer.readable = .ok (some message) := by
    rw [hread]
    decide +kernel
  have hd : decodeForm (lit "username=c&pwd=d&x=y")
      = .ok ⟨lit "username=c&pwd=d&x=y",
        [(lit "username", lit "c"), (lit "pwd", lit "d")],
        some (lit "x", lit "y")⟩ := by decide +kernel
  obtain ⟨a, ha, hgood, -⟩ := absorb_login c.request.init hd
  obtain ⟨b, hr⟩ :=
    readBuff_ok flatTree (HttpConnector.inv_history hc).read hscan ha
  refine ⟨c, _, b, hc, hleft, hread, hr, handlePath_code hgood,
    (readBuff_isolated_iff hc hr (handlePath_code hgood)).mpr
      fun m hm => ?_⟩
  cases hscan.symm.trans hm
  refine ⟨fun name hname => ?_, fun hnone => ?_, fun key value hvalue => ?_⟩
  · by_contra hmem
    rw [hleft.headers] at hname
    exact hname (Dict.insertAll_of_not_mem hmem)
  · cases hnone
  · refine ⟨_, _, rfl, isForm_loginMessage _, hd, .inl ?_⟩
    by_contra hmem
    have hnone : (Dict.empty : Dict Bytes Bytes).insertAll
        [(lit "username", lit "a"), (lit "pwd", lit "b")] key = none :=
      Dict.insertAll_of_not_mem hmem
    rw [hleft.form, hnone] at hvalue
    cases hvalue

/-- The header map, the form and the body of a request do depend on what the
connector handled before. -/
theorem readBuff_not_isolated :
    ¬ ∀ c : HttpConnector, HttpConnector.history.Reachable c →
      ∀ fs r b, c.request.init.readBuff fs c.readBuffer = .ok (r, b) →
        r.code ≠ .badRequest → Isolated fs c.readBuffer r := by
  intro hall
  obtain ⟨c, hc, hread, hleft⟩ := stale_login (s := plainGet)
    (by decide +kernel) (by decide +kernel)
  have hstale : c.request.form (lit "username") = some (lit "a") := by
    rw [hleft.form]
    decide +kernel
  have hinv := (HttpConnector.inv_history hc).read
  obtain ⟨r, b, hr, hcode, -⟩ := readBuff_plainGet hinv c.request hread
  obtain ⟨r₀, b₀, hr₀, hsame, -⟩ := hall c hc flatTree r b hr hcode
    blankConnector c.readBuffer ⟨_, _, _, _, _, _, rfl⟩ hinv rfl
  obtain ⟨r₁, b₁, m, hr₁, hm, hiff⟩ := readBuff_fresh c.request.init
    blankConnector.request.init hinv rfl hr hcode rfl rfl rfl rfl hinv rfl
  cases hr₀.symm.trans hr₁
  rw [hread, scan_plainGet] at hm
  cases hm
  obtain ⟨bytes, d, hbody, -⟩ := (hiff.mp hsame).form _ _ hstale
  cases hbody

end HttpRequest

end TinyWebServer
