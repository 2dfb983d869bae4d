import TinyWebServer.Model.LoginScript

/-!
# Who gets in

`_Login` starts from `true` and lowers it where something is found wrong. The
early returns lower it for every call that fails, and so does an empty result;
but of the row only a password that is there and differs counts as wrong. No
row, or a row without a password in it, leaves the `true` standing.

`queried_of_true` and `run_of_queried` say what `true` means, and
`login_checks_iff` under which answers it means what it should.
-/

namespace TinyWebServer

open Lib

variable {Conn Stmt Res : Type}

namespace HttpResponse

/-- The request's user name, as `_Login` binds it. -/
def usernameOf (request : HttpRequest) : Bytes :=
  (request.selectForm (lit "username")).2

/-- The request's password. -/
def passwordOf (request : HttpRequest) : Bytes :=
  (request.selectForm (lit "pwd")).2

/-- The query for the user went through, and there are rows. -/
structure Queried (answer : (op : LoginCall Conn Stmt Res) → op.Ans)
    (username : Bytes) (id : Int) (mysql : Conn) (stmt : Stmt) (res : Res) :
    Prop where
  conn : answer .getConn = (id, some mysql)
  stmtInit : answer (.stmtInit mysql) = some stmt
  stmtPrepare : answer (.stmtPrepare stmt loginQuery) = (0 : Int)
  stmtBindParam : answer (.stmtBindParam stmt username) = (0 : Int)
  stmtExecute : answer (.stmtExecute stmt) = (0 : Int)
  resultMetadata : answer (.stmtResultMetadata stmt) = some res
  storeResult : answer (.stmtStoreResult stmt) = (0 : Int)
  numRows : answer (.stmtNumRows stmt) ≠ (0 : Nat)

/-- The calls up to the row. -/
def rowCalls (username : Bytes) (mysql : Conn) (stmt : Stmt) (res : Res) :
    List (LoginCall Conn Stmt Res) :=
  [.getConn, .stmtInit mysql, .stmtPrepare stmt loginQuery,
    .stmtBindParam stmt username, .stmtExecute stmt,
    .stmtResultMetadata stmt, .stmtStoreResult stmt, .stmtNumRows stmt,
    .fetchRow res]

variable {answer : (op : LoginCall Conn Stmt Res) → op.Ans}

/-- Asking for the user name first does not change what the password is. -/
theorem passwordOf_eq (request : HttpRequest) :
    ((request.selectForm (lit "username")).1.selectForm (lit "pwd")).2
      = passwordOf request := by
  have hkey : lit "pwd" ≠ lit "username" := by decide +kernel
  rw [passwordOf]
  cases hu : request.form (lit "username") with
  | some name => simp only [HttpRequest.selectForm, hu]
  | none =>
      simp only [HttpRequest.selectForm, hu, Dict.insert_other _ _ hkey]
      cases request.form (lit "pwd") with
      | some value => rfl
      | none => rfl

open LoginScript in
/-- Once there are rows, the row decides. -/
theorem run_of_queried {request : HttpRequest} {id : Int} {mysql : Conn}
    {stmt : Stmt} {res : Res}
    (h : Queried answer (usernameOf request) id mysql stmt res) :
    ((loginScript request).run answer).2
        = rowMatches (passwordOf request) (answer (.fetchRow res)) ∧
      rowCalls (usernameOf request) mysql stmt res
        <+: (loginScript request).calls answer := by
  have hconn : Script.run answer getConn = (id, some mysql) := h.conn
  have hinit : Script.run answer (stmtInit mysql) = some stmt := h.stmtInit
  have hprepare : Script.run answer (stmtPrepare stmt loginQuery) = 0 :=
    h.stmtPrepare
  have hbind : Script.run answer (stmtBindParam stmt
      (request.selectForm (lit "username")).2) = 0 := h.stmtBindParam
  have hexecute : Script.run answer (stmtExecute stmt) = 0 := h.stmtExecute
  have hmetadata : Script.run answer (stmtResultMetadata stmt) = some res :=
    h.resultMetadata
  have hstore : Script.run answer (stmtStoreResult stmt) = 0 := h.storeResult
  have hrows : Script.run answer (stmtNumRows stmt) ≠ 0 := h.numRows
  rw [loginScript]
  simp only [Script.run_bind, Script.calls_bind, hconn, hinit, hprepare,
    hbind, hexecute, hmetadata, hstore, if_neg hrows, ne_eq, not_true,
    if_false]
  constructor
  · rw [← passwordOf_eq]
    rfl
  · exact ⟨_, rfl⟩

open LoginScript in
/-- A way to `true` leads past all the calls. -/
theorem queried_of_true {request : HttpRequest}
    (h : ((loginScript request).run answer).2 = true) :
    ∃ id mysql stmt res,
      Queried answer (usernameOf request) id mysql stmt res := by
  rw [loginScript] at h
  simp only [Script.run_bind] at h
  rcases hconn : Script.run answer getConn with ⟨id, _ | mysql⟩
  · rw [hconn] at h; cases h
  simp only [hconn, Script.run_bind] at h
  cases hinit : Script.run answer (stmtInit mysql) with
  | none => rw [hinit] at h; cases h
  | some stmt =>
  simp only [hinit, Script.run_bind] at h
  by_cases hprepare : Script.run answer (stmtPrepare stmt loginQuery) = 0
  swap
  · rw [if_pos hprepare] at h; cases h
  rw [if_neg (not_not.mpr hprepare), Script.run_bind] at h
  by_cases hbind : Script.run answer (stmtBindParam stmt
      (request.selectForm (lit "username")).2) = 0
  swap
  · rw [if_pos hbind] at h; cases h
  rw [if_neg (not_not.mpr hbind), Script.run_bind] at h
  by_cases hexecute : Script.run answer (stmtExecute stmt) = 0
  swap
  · rw [if_pos hexecute] at h; cases h
  rw [if_neg (not_not.mpr hexecute), Script.run_bind] at h
  cases hmetadata : Script.run answer (stmtResultMetadata stmt) with
  | none => rw [hmetadata] at h; cases h
  | some res =>
  simp only [hmetadata, Script.run_bind] at h
  by_cases hstore : Script.run answer (stmtStoreResult stmt) = 0
  swap
  · rw [if_pos hstore] at h; cases h
  rw [if_neg (not_not.mpr hstore), Script.run_bind] at h
  by_cases hrows : Script.run answer (stmtNumRows stmt) = 0
  · rw [if_pos hrows] at h; cases h
  · exact ⟨id, mysql, stmt, res, hconn, hinit, hprepare, hbind, hexecute,
      hmetadata, hstore, hrows⟩

/-- The answers say which row was asked for. -/
theorem Queried.unique {username : Bytes} {id id' : Int}
    {mysql mysql' : Conn} {stmt stmt' : Stmt} {res res' : Res}
    (h : Queried answer username id mysql stmt res)
    (h' : Queried answer username id' mysql' stmt' res') : res = res' := by
  obtain ⟨-, hmysql⟩ := Prod.mk.inj (h.conn.symm.trans h'.conn)
  cases hmysql
  cases h.stmtInit.symm.trans h'.stmtInit
  cases h.resultMetadata.symm.trans h'.resultMetadata
  rfl

/-- What a `true` should mean: the calls up to the row were made for the
request's user name, and the row's password is there and is the request's. -/
def Checks (answer : (op : LoginCall Conn Stmt Res) → op.Ans)
    (request : HttpRequest) : Prop :=
  ((loginScript request).run answer).2 = true →
    ∃ id mysql stmt res row stored,
      Queried answer (usernameOf request) id mysql stmt res ∧
      rowCalls (usernameOf request) mysql stmt res
        <+: (loginScript request).calls answer ∧
      answer (.fetchRow res) = some row ∧ row[1]? = some (some stored) ∧
      stored = passwordOf request

/-- When there are rows, one is had, and its second column is a password; and
the password does not go on behind a NUL byte where the request's ends. -/
def RowTells (answer : (op : LoginCall Conn Stmt Res) → op.Ans)
    (request : HttpRequest) : Prop :=
  ∀ id mysql stmt res,
    Queried answer (usernameOf request) id mysql stmt res →
    ∃ row stored, answer (.fetchRow res) = some row ∧
      row[1]? = some (some stored) ∧
      (passwordOf request = cStr stored → cStr stored = stored)

/-- A row that does not speak against the request. -/
theorem rowMatches_some {password stored : Bytes}
    {row : List (Option Bytes)} (h : row[1]? = some (some stored)) :
    rowMatches password (some row) = true ↔ password = cStr stored := by
  simp only [rowMatches, h, decide_eq_true_eq]

theorem rowMatches_silent {password : Bytes}
    {fetched : Option (List (Option Bytes))}
    (h : ∀ row stored, fetched = some row → row[1]? ≠ some (some stored)) :
    rowMatches password fetched = true := by
  cases fetched with
  | none => rfl
  | some row =>
      rw [rowMatches]
      split
      · next stored hrow => exact absurd hrow (h row stored rfl)
      · rfl

theorem login_checks_iff
    (answer : (op : LoginCall Conn Stmt Res) → op.Ans)
    (request : HttpRequest) :
    Checks answer request ↔ RowTells answer request := by
  constructor
  · intro h id mysql stmt res hq
    have hrun := (run_of_queried hq).1
    have htrue : rowMatches (passwordOf request) (answer (.fetchRow res))
        = true → ∃ row stored, answer (.fetchRow res) = some row ∧
          row[1]? = some (some stored) ∧ stored = passwordOf request := by
      intro hrow
      obtain ⟨id', mysql', stmt', res', row, stored, hq', -, hfetch, hcol,
        hpwd⟩ := h (hrun.trans hrow)
      cases hq.unique hq'
      exact ⟨row, stored, hfetch, hcol, hpwd⟩
    by_cases htold : ∃ row stored, answer (.fetchRow res) = some row ∧
        row[1]? = some (some stored)
    · obtain ⟨row, stored, hfetch, hcol⟩ := htold
      refine ⟨row, stored, hfetch, hcol, fun hpwd => ?_⟩
      have hrow : rowMatches (passwordOf request) (answer (.fetchRow res))
          = true := by
        rw [hfetch]
        exact (rowMatches_some hcol).mpr hpwd
      obtain ⟨row', stored', hfetch', hcol', hpwd'⟩ := htrue hrow
      cases hfetch.symm.trans hfetch'
      cases hcol.symm.trans hcol'
      rw [← hpwd, hpwd']
    · obtain ⟨row, stored, hfetch, hcol, -⟩ := htrue
        (rowMatches_silent fun row stored hfetch hcol =>
          htold ⟨row, stored, hfetch, hcol⟩)
      exact absurd ⟨row, stored, hfetch, hcol⟩ htold
  · intro h htrue
    obtain ⟨id, mysql, stmt, res, hq⟩ := queried_of_true htrue
    obtain ⟨hrun, hcalls⟩ := run_of_queried hq
    obtain ⟨row, stored, hfetch, hcol, hend⟩ := h id mysql stmt res hq
    rw [hrun, hfetch] at htrue
    have hpwd := (rowMatches_some hcol).mp htrue
    exact ⟨id, mysql, stmt, res, row, stored, hq, hcalls, hfetch, hcol,
      (hend hpwd).symm.trans hpwd.symm⟩

/-- Every call succeeds and there is a row, which is not handed out. -/
def rowWithheld : (op : LoginCall Unit Unit Unit) → op.Ans
  | .getConn => ((0 : Int), some ())
  | .releaseConn _ _ => (-1 : Int)
  | .stmtInit _ => some ()
  | .stmtPrepare _ _ | .stmtBindParam _ _ | .stmtExecute _
  | .stmtStoreResult _ => (0 : Int)
  | .stmtResultMetadata _ => some ()
  | .stmtNumRows _ => (1 : Nat)
  | .fetchRow _ => none
  | .freeResult _ | .stmtClose _ => ()

/-- The user gets in without a password being looked at. -/
theorem login_unchecked :
    ¬ ∀ (answer : (op : LoginCall Unit Unit Unit) → op.Ans)
        (request : HttpRequest), Checks answer request := by
  intro hall
  have hq : Queried rowWithheld
      (usernameOf (.construct .requestLine .noRequest false false)) 0 () ()
      () := ⟨rfl, rfl, rfl, rfl, rfl, rfl, rfl, Nat.one_ne_zero⟩
  obtain ⟨id, mysql, stmt, res, row, stored, -, -, hfetch, -⟩ :=
    hall rowWithheld _ (run_of_queried hq).1
  cases hfetch

end HttpResponse

end TinyWebServer
