import TinyWebServer.Proofs.Capacity
import TinyWebServer.Proofs.Credentials
import TinyWebServer.Proofs.Isolation
import TinyWebServer.Proofs.Response
import TinyWebServer.Proofs.Service

/-!
# The first password stays

Nothing takes a pair out of a form, not even the next client, and the last
pair of a body is stored only under a key that the form does not have. A login
body ends in its password, with no `&` behind it. So once a password is in the
form of a connector, the logins that follow are checked against it, whatever
password they come with and whoever sends them, until a body names the key in
a pair before its last.
-/

namespace TinyWebServer

open Lib

/-- A pair of the body, other than the last, stores something under `key` if
the body is a form. -/
def Message.Renews (m : Message) (key : Bytes) : Prop :=
  ∃ bytes d, m.body = some bytes ∧ HttpRequest.decodeForm bytes = .ok d ∧
    key ∈ Dict.keys d.pairs

/-- A text whose body, if it has one, stores nothing under `key` that is there
already. -/
def Spares (key text : Bytes) : Prop :=
  ∀ m, scan text = .ok (some m) → ¬ m.Renews key

namespace HttpRequest

variable {key v : Bytes}

theorem absorb_keeps {r a : HttpRequest} {m : Message}
    (hv : r.form key = some v) (hm : ¬ m.Renews key)
    (h : r.absorb m = .ok a) : a.form key = some v := by
  rw [absorb_eq] at h
  cases hbody : m.body with
  | none =>
      rw [hbody] at h
      cases h
      exact hv
  | some bytes =>
      rw [hbody] at h
      simp only [] at h
      split at h
      · obtain ⟨d, hd, h⟩ := bind_ok_iff.mp h
        cases h
        have hnone : key ∉ Dict.keys d.pairs :=
          fun hmem => hm ⟨bytes, d, hbody, hd, hmem⟩
        exact storeForm_of_some ((Dict.insertAll_of_not_mem hnone).trans hv)
      · cases h
        exact hv

theorem readContent_keeps {r out : HttpRequest} {fs : FileSystem}
    {text : Bytes} (hv : r.form key = some v) (htext : Spares key text)
    (h : r.readContent fs text = .ok out) : out.form key = some v := by
  rcases readContent_cases h with ⟨-, rfl⟩ | ⟨m, a, hm, ha, rfl⟩
  · exact hv
  · have hform := absorb_keeps hv (htext m hm) ha
    rw [handlePath_frame]
    exact hform

theorem selectForm_keeps {r : HttpRequest} (hv : r.form key = some v)
    (key' : Bytes) : (r.selectForm key').1.form key = some v := by
  rw [selectForm]
  cases hnew : r.form key' with
  | some v' => exact hv
  | none =>
      have hne : key ≠ key' := by
        intro heq
        rw [heq, hnew] at hv
        cases hv
      exact (Dict.insert_other _ _ hne).trans hv

end HttpRequest

namespace HttpResponse

open HttpRequest

/-- The calls of `_Login` up to the row all succeeded, and there are rows. -/
def completed (db : LoginOutcome) : Bool :=
  db.conn && db.stmtInit && db.stmtPrepare && db.stmtBindParam &&
    db.stmtExecute && db.resultMetadata && db.storeResult &&
    decide (db.numRows ≠ 0)

/-- Whether the answers of the database let a password pass. -/
def accepts (db : LoginOutcome) (password : Bytes) : Bool :=
  completed db && rowMatches password db.fetchRow

theorem login_incomplete {db : LoginOutcome} {request : HttpRequest}
    (h : ¬ completed db = true) : (login db request).2 = false := by
  rw [login_eq]
  split_ifs with hconn hinit hprepare hbind hexecute hmetadata hstore hrows
  · rfl
  · rfl
  · rfl
  · rfl
  · rfl
  · rfl
  · rfl
  · rfl
  · refine absurd ?_ h
    simp only [completed, Bool.and_eq_true, decide_eq_true_eq]
    simp only [Bool.not_eq_true', Bool.not_eq_false] at *
    exact ⟨⟨⟨⟨⟨⟨⟨hconn, hinit⟩, hprepare⟩, hbind⟩, hexecute⟩, hmetadata⟩,
      hstore⟩, hrows⟩

theorem login_completed {db : LoginOutcome} {request : HttpRequest}
    (h : completed db = true) :
    (login db request).2 = rowMatches (passwordOf request) db.fetchRow := by
  simp only [completed, Bool.and_eq_true, decide_eq_true_eq] at h
  obtain ⟨⟨⟨⟨⟨⟨⟨hconn, hinit⟩, hprepare⟩, hbind⟩, hexecute⟩, hmetadata⟩,
    hstore⟩, hrows⟩ := h
  rw [← passwordOf_eq, login_eq]
  simp only [hconn, hinit, hprepare, hbind, hexecute, hmetadata, hstore,
    hrows, Bool.not_true, Bool.false_eq_true, if_false]

theorem login_accepts (db : LoginOutcome) (request : HttpRequest) :
    (login db request).2 = accepts db (passwordOf request) := by
  rw [accepts]
  by_cases h : completed db = true
  · rw [login_completed h, h, Bool.true_and]
  · rw [login_incomplete h, eq_false_of_ne_true h, Bool.false_and]

theorem consulted_keeps {key v : Bytes} {request : HttpRequest}
    (hv : request.form key = some v) (db : LoginOutcome) :
    (consulted db request).form key = some v := by
  rw [consulted]
  split
  · rw [login_request]
    split
    · exact hv
    · exact selectForm_keeps (selectForm_keeps hv _) _
  · exact hv

/-- The page of a login, by the password in the form. -/
theorem opened_login {db : LoginOutcome} {request : HttpRequest} {v : Bytes}
    (htask : request.tasks = true)
    (hv : request.form (lit "pwd") = some v) :
    opened db request = srcDir ++ lit
      (if accepts db v then "/penetration.html" else "/mysqlerror.html") := by
  have hpwd : passwordOf request = v := by
    rw [passwordOf, HttpRequest.selectForm, hv]
  rw [opened, if_pos htask, login_accepts, hpwd]

end HttpResponse

namespace HttpConnector

variable {key v : Bytes} {c c' : HttpConnector} {w : World}

theorem process_keeps {ready : Bool} (h : c.Inv)
    (hv : c.request.form key = some v)
    (htext : Spares key c.readBuffer.readable)
    (hp : c.process w = .ok (c', ready)) :
    c'.request.form key = some v := by
  by_cases hne : c.readBuffer.readable = []
  · have hsize := h.read.length_readable
    rw [hne] at hsize
    rw [process_idle w hsize.symm] at hp
    cases hp
    exact hv
  · have hspec := process_spec h w hne
    rw [hp] at hspec
    obtain ⟨a, ha, -, hcarries, -⟩ := hspec.ok_left
    obtain ⟨r, hr, ha⟩ := bind_ok_iff.mp ha
    obtain ⟨inode, content, -, -, rfl⟩ := answer_ok_iff.mp ha
    rw [hcarries.request]
    exact HttpResponse.consulted_keeps
      (HttpRequest.readContent_keeps (r := c.request.init) hv htext hr) w.db

/-- A login, on a form that had a password in it before. -/
theorem process_login {m : Message} (h : c.Inv)
    (hv : c.request.form (lit "pwd") = some v)
    (hm : scan c.readBuffer.readable = .ok (some m))
    (htask : m.target ∈ tasks) (hspares : ¬ m.Renews (lit "pwd"))
    (hp : c.process w = .ok (c', true)) :
    c'.reponse.path = srcDir ++ lit (if HttpResponse.accepts w.db v
      then "/penetration.html" else "/mysqlerror.html") := by
  have hne : c.readBuffer.readable ≠ [] := by
    intro hnone
    rw [hnone] at hm
    cases hm
  have hspec := process_spec h w hne
  rw [hp] at hspec
  obtain ⟨a, ha, -, hcarries, -⟩ := hspec.ok_left
  obtain ⟨r, hr, ha⟩ := bind_ok_iff.mp ha
  obtain ⟨inode, content, -, -, rfl⟩ := answer_ok_iff.mp ha
  rw [hcarries.reponse]
  have htext : Spares (lit "pwd") c.readBuffer.readable := by
    intro m' hm'
    cases hm.symm.trans hm'
    exact hspares
  refine HttpResponse.opened_login ?_
    (HttpRequest.readContent_keeps (r := c.request.init) hv htext hr)
  obtain ⟨hnone, -⟩ | ⟨m', a', hm', ha', rfl⟩ :=
    HttpRequest.readContent_cases hr
  · cases hm.symm.trans hnone
  · cases hm.symm.trans hm'
    have hset : HttpRequest.SettledAs w.fs m (a'.handlePath w.fs) :=
      HttpRequest.settledAs_absorbed rfl ha'
    rw [hset.tasks, settle_task htask]

/-- The other calls do not touch the request. -/
theorem Call.keeps {call : ConnectorCall} (h : c.Inv)
    (hv : c.request.form key = some v) (hc : Call c call c')
    (htext : ∀ w, call = .process w → Spares key c.readBuffer.readable) :
    c'.request.form key = some v := by
  cases hc with
  | init => exact hv
  | read hr =>
      obtain ⟨⟨b, len, status⟩, -, hr⟩ := bind_ok_iff.mp hr
      cases hr
      exact hv
  | process hp => exact process_keeps h hv (htext _ rfl) hp
  | write hw => rw [(write_sameRest hw).request]; exact hv
  | close => rw [close_request]; exact hv

end HttpConnector

namespace Server

open HttpConnector

variable {Thread : Type} [DecidableEq Thread]

/-- Nothing that is processed under `fd` stores something under `key` that is
there already. -/
def SparesUnder (key : Bytes) (fd : Int) (s : Server Thread) :
    ServerLabel Thread → Prop
  | .process t _ => s.workers t = .processing fd →
      ∀ c, s.clients fd = some c → Spares key c.readBuffer.readable
  | _ => True

theorem form_keeps {key v : Bytes} {fd : Int} {s s' : Server Thread}
    (hs : system.Reachable s) {as : List (ServerLabel Thread)}
    (hrun : (system.restrict (SparesUnder key fd)).Run s as s')
    {c : HttpConnector} (hc : s.clients fd = some c)
    (hv : c.request.form key = some v) :
    system.Reachable s' ∧ ∃ c', s'.clients fd = some c' ∧
      c'.request.form key = some v := by
  refine hrun.invariant (I := fun _ s' => system.Reachable s' ∧
    ∃ c', s'.clients fd = some c' ∧ c'.request.form key = some v)
    ⟨hs, c, hc, hv⟩ ?_
  intro as s₁ a s₂ hbefore h
  obtain ⟨hs₁, c₁, hc₁, hv₁⟩ := hbefore
  obtain ⟨hok, hstep⟩ := h
  refine ⟨hs₁.next hstep, ?_⟩
  obtain ⟨c₂, hc₂, rfl | ⟨call, hcall, hlabel⟩⟩ := hstep.lasts hc₁
  · exact ⟨c₂, hc₂, hv₁⟩
  · refine ⟨c₂, hc₂, hcall.keeps
      (inv_history (clients_reachable hs₁ fd c₁ hc₁)) hv₁ fun w hw => ?_⟩
    obtain ⟨t, rfl, ht⟩ := hlabel w hw
    exact hok ht c₁ hc₁

/-- In every run in which no body names `pwd` in a pair before its last: the
logins under a descriptor that had a password in its form at the start are
checked against that one, whatever they say, whoever is connected. -/
theorem password_sticks {v : Bytes} {fd : Int} {s s' : Server Thread}
    (hs : system.Reachable s) {as : List (ServerLabel Thread)}
    (hrun : (system.restrict (SparesUnder (lit "pwd") fd)).Run s as s')
    {c : HttpConnector} (hc : s.clients fd = some c)
    (hv : c.request.form (lit "pwd") = some v) :
    ∃ c', s'.clients fd = some c' ∧ c'.request.form (lit "pwd") = some v ∧
      ∀ m w c'', scan c'.readBuffer.readable = .ok (some m) →
        m.target ∈ tasks → ¬ m.Renews (lit "pwd") →
        c'.process w = .ok (c'', true) →
        c''.reponse.path = srcDir ++ lit (if HttpResponse.accepts w.db v
          then "/penetration.html" else "/mysqlerror.html") := by
  obtain ⟨hs', c', hc', hv'⟩ := form_keeps hs hrun hc hv
  refine ⟨c', hc', hv', fun m w c'' hm htask hspares hp => ?_⟩
  exact process_login (inv_history (clients_reachable hs' fd c' hc')) hv' hm
    htask hspares hp

/-- What the first client of `greeted` gets for `loginPost`. -/
def loginReply : Except Fault Answer :=
  respond flatWorld (blankConnector.init 4).request
    (blankConnector.init 4).reponse HttpRequest.loginPost

theorem loginReply_ok : ∃ a, loginReply = .ok a ∧
    a.wire.length < 2 ^ 32 ∧
    a.request.form (lit "pwd") = some (lit "b") := by
  have hshort : loginReply.toOption.any (fun a =>
      a.wire.length < 2 ^ 32 &&
        a.request.form (lit "pwd") == some (lit "b")) = true := by
    decide +kernel
  cases h : loginReply with
  | error e => rw [h] at hshort; cases hshort
  | ok a =>
      rw [h] at hshort
      obtain ⟨hlen, hform⟩ := Bool.and_eq_true_iff.mp hshort
      exact ⟨a, rfl, of_decide_eq_true hlen, eq_of_beq hform⟩

theorem password_sticks_greeted : ∃ (s' : Server Bool) (c' : HttpConnector),
    s'.clients 4 = some c' ∧
      c'.request.form (lit "pwd") = some (lit "b") ∧
      ∀ m w c'', scan c'.readBuffer.readable = .ok (some m) →
        m.target ∈ tasks → ¬ m.Renews (lit "pwd") →
        c'.process w = .ok (c'', true) →
        c''.reponse.path = srcDir ++
          lit (if HttpResponse.accepts w.db (lit "b")
            then "/penetration.html" else "/mysqlerror.html") := by
  obtain ⟨a, ha, hsmall, hform⟩ := loginReply_ok
  have hfit : HttpRequest.loginPost.length
      ≤ (blankConnector.init 4).readBuffer.writeableSize := by decide +kernel
  have hsome : HttpRequest.loginPost ≠ [] := by decide +kernel
  obtain ⟨c, -, hrequest, -, hserved⟩ := served (fun _ h => .start h)
    (greeted_seen (fun _ => True) a.content.length) rfl rfl (t := true) rfl
    rfl rfl hsome hfit (w := flatWorld) trivial ha hsmall (Nat.le_refl _)
  let later : Server Bool := greeted.setClient 4 c
  have hlater : system.Reachable later :=
    reachable_of_seenBy (fun _ h => .start h) hserved
  have hstep : Step later (.wait []) { later with main := .dispatching [] } :=
    .wait rfl (Nat.zero_le _) rfl
  have hrun : (system.restrict (SparesUnder (lit "pwd") 4)).Run later
      [.wait []] { later with main := .dispatching [] } :=
    .single ⟨trivial, hstep⟩
  have hclient : later.clients 4 = some c := rfl
  exact ⟨_, password_sticks hlater hrun hclient (by rw [hrequest]; exact hform)⟩

end Server

end TinyWebServer
