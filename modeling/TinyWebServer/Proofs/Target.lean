import TinyWebServer.Proofs.Form

/-!
# Where a target leads

`_Handle_Path` turns the target of the request line into a path and a code in
four branches: a task, a trailing slash, a failing `stat`, and what `stat`
found. `settle` is that decision as a function of the file tree and the target
alone, and `handlePath_eq` says that the rest of the request is left as it
was, but for the two fields nothing reads afterwards (`_file_suffix`, `_cgi`).

With it a whole `Read_Buff` comes apart into three: the message the bytes
spell, the message taken into the request, and the target settled.
-/

namespace TinyWebServer

open Lib

/-- What `_Handle_Path` decides. -/
structure Settled where
  path : Bytes
  code : HttpCode
  task : Bool
  deriving DecidableEq, Repr

def settle (fs : FileSystem) (target : Bytes) : Settled :=
  if target ∈ tasks then
    ⟨target, .fileRequest, true⟩
  else if (srcDir ++ target).getLast? = some HttpRequest.slash then
    ⟨srcDir ++ target ++ homePage, .fileRequest, false⟩
  else
    match fs.stat (srcDir ++ target) with
    | .error _ => ⟨srcDir ++ lit "/404.html", .noResource, false⟩
    | .ok fileStat =>
        if fileStat.kind = .directory then
          ⟨srcDir ++ target ++ lit "/" ++ homePage, .fileRequest, false⟩
        else
          ⟨srcDir ++ target, .fileRequest, false⟩

/-- The prefix does not end in a slash, so a path does if its target does. -/
theorem getLast?_srcDir (target : Bytes) :
    (srcDir ++ target).getLast? = some HttpRequest.slash ↔
      target.getLast? = some HttpRequest.slash := by
  rw [List.getLast?_append]
  cases target.getLast? with
  | none => decide
  | some x => simp

/-- The branches of `settle` for a target that is no task. -/
theorem settle_cases (fs : FileSystem) {target : Bytes}
    (htask : target ∉ tasks) :
    (target.getLast? = some HttpRequest.slash ∧
      settle fs target
        = ⟨srcDir ++ target ++ homePage, .fileRequest, false⟩) ∨
    target.getLast? ≠ some HttpRequest.slash ∧
      ((∃ e, fs.stat (srcDir ++ target) = .error e ∧
          settle fs target
            = ⟨srcDir ++ lit "/404.html", .noResource, false⟩) ∨
        ∃ inode, fs.stat (srcDir ++ target) = .ok inode ∧
          ((inode.kind = .directory ∧ settle fs target
              = ⟨srcDir ++ target ++ lit "/" ++ homePage, .fileRequest,
                false⟩) ∨
            (inode.kind ≠ .directory ∧ settle fs target
              = ⟨srcDir ++ target, .fileRequest, false⟩))) := by
  rw [settle, if_neg htask]
  by_cases hslash : target.getLast? = some HttpRequest.slash
  · exact .inl ⟨hslash, if_pos ((getLast?_srcDir target).mpr hslash)⟩
  rw [if_neg (fun h => hslash ((getLast?_srcDir target).mp h))]
  refine .inr ⟨hslash, ?_⟩
  cases hstat : fs.stat (srcDir ++ target) with
  | error e => exact .inl ⟨e, rfl, rfl⟩
  | ok inode =>
      refine .inr ⟨inode, rfl, ?_⟩
      by_cases hdir : inode.kind = .directory
      · exact .inl ⟨hdir, if_pos hdir⟩
      · exact .inr ⟨hdir, if_neg hdir⟩

theorem settle_task {fs : FileSystem} {target : Bytes}
    (htask : target ∈ tasks) :
    settle fs target = ⟨target, .fileRequest, true⟩ := if_pos htask

theorem settle_task_eq_false {fs : FileSystem} {target : Bytes}
    (h : target ∉ tasks) : (settle fs target).task = false := by
  rcases settle_cases fs h with ⟨-, hs⟩ | ⟨-, ⟨e, -, hs⟩ |
    ⟨inode, -, ⟨-, hs⟩ | ⟨-, hs⟩⟩⟩ <;> rw [hs]

namespace HttpRequest

theorem handlePath_eq {fs : FileSystem} {r : HttpRequest}
    (hcode : r.code = .fileRequest) (htasks : r.tasks = false) :
    r.handlePath fs =
      { r with
        path := (settle fs r.path).path, code := (settle fs r.path).code
        tasks := (settle fs r.path).task
        fileSuffix := (r.handlePath fs).fileSuffix
        cgi := (r.handlePath fs).cgi } := by
  have hgood : ¬ r.code = .badRequest := by
    rw [hcode]; exact HttpCode.noConfusion
  rw [handlePath, if_neg hgood, settle]
  by_cases htask : r.path ∈ TinyWebServer.tasks
  · simp only [if_pos htask]
  simp only [if_neg htask]
  by_cases hslash : (srcDir ++ r.path).getLast? = some slash
  · simp only [if_pos hslash, hcode, htasks]
  simp only [if_neg hslash]
  cases fs.stat (srcDir ++ r.path) with
  | error e => simp only [htasks]
  | ok fileStat =>
      simp only []
      by_cases hdir : fileStat.kind = .directory
      · simp only [if_pos hdir, htasks]
      · simp only [if_neg hdir]
        split
        · simp only [htasks]
        · simp only [htasks]

/-- Whatever it decides, the rest of the request is left alone. -/
theorem handlePath_frame (fs : FileSystem) (r : HttpRequest) :
    r.handlePath fs =
      { r with
        path := (r.handlePath fs).path, code := (r.handlePath fs).code
        tasks := (r.handlePath fs).tasks
        fileSuffix := (r.handlePath fs).fileSuffix
        cgi := (r.handlePath fs).cgi } := by
  rw [handlePath]
  by_cases hbad : r.code = .badRequest
  · simp only [if_pos hbad]
    repeat' split
    all_goals rfl
  · simp only [if_neg hbad]
    repeat' split
    all_goals rfl

/-- Nor does it look at the rest. -/
theorem handlePath_with (fs : FileSystem) (r : HttpRequest)
    (status : HttpPart) (body : Bytes) (form : Dict Bytes Bytes) :
    handlePath fs { r with status, body, form }
      = { r.handlePath fs with status, body, form } := by
  rw [handlePath, handlePath]
  by_cases hbad : r.code = .badRequest
  · simp only [if_pos hbad]
    repeat' split
    all_goals rfl
  · simp only [if_neg hbad]
    repeat' split
    all_goals rfl

theorem handlePath_code {fs : FileSystem} {r : HttpRequest}
    (hcode : r.code = .fileRequest) :
    (r.handlePath fs).code ≠ .badRequest := by
  have hgood : ¬ r.code = .badRequest := by
    rw [hcode]; exact HttpCode.noConfusion
  rw [handlePath, if_neg hgood]
  simp only []
  repeat' split
  all_goals simp [hcode]

/-- A message taken in sets everything of the request line. -/
theorem absorb_head {r a : HttpRequest} {m : Message}
    (h : r.absorb m = .ok a) :
    a = { r.takeHead m with body := a.body, form := a.form } := by
  rw [absorb_eq] at h
  cases hb : m.body with
  | none => rw [hb] at h; cases h; rfl
  | some bytes =>
      rw [hb] at h
      simp only [] at h
      split at h
      · obtain ⟨d, -, h⟩ := bind_ok_iff.mp h
        cases h
        rfl
      · cases h
        rfl

/-- The target of a message taken in is settled. -/
theorem handlePath_absorbed {fs : FileSystem} {r a : HttpRequest} {m : Message}
    (htasks : r.tasks = false) (h : r.absorb m = .ok a) :
    a.handlePath fs =
      { a with
        path := (settle fs m.target).path, code := (settle fs m.target).code
        tasks := (settle fs m.target).task
        fileSuffix := (a.handlePath fs).fileSuffix
        cgi := (a.handlePath fs).cgi } := by
  have hhead := absorb_head h
  have hpath : a.path = m.target := by rw [hhead]; rfl
  have hcode : a.code = .fileRequest := by rw [hhead]; rfl
  have hfree : a.tasks = false := by rw [hhead]; exact htasks
  rw [← hpath]
  exact handlePath_eq hcode hfree

/-- A parsed request as the response will read it. -/
structure SettledAs (fs : FileSystem) (m : Message) (r : HttpRequest) :
    Prop where
  method : r.method = m.method
  version : r.version = m.version
  path : r.path = (settle fs m.target).path
  code : r.code = (settle fs m.target).code
  tasks : r.tasks = (settle fs m.target).task

theorem settledAs_absorbed {fs : FileSystem} {r a : HttpRequest} {m : Message}
    (htasks : r.tasks = false) (h : r.absorb m = .ok a) :
    SettledAs fs m (a.handlePath fs) := by
  have hmethod : a.method = m.method := by rw [absorb_head h]; rfl
  have hversion : a.version = m.version := by rw [absorb_head h]; rfl
  rw [handlePath_absorbed htasks h]
  exact ⟨hmethod, hversion, rfl, rfl, rfl⟩

/-- The two ways `Read_Buff` completes. -/
theorem readContent_cases {fs : FileSystem} {r out : HttpRequest} {s : Bytes}
    (h : r.readContent fs s = .ok out) :
    (scan s = .ok none ∧ out = r.reject) ∨
    ∃ m a, scan s = .ok (some m) ∧ r.absorb m = .ok a ∧
      out = a.handlePath fs := by
  rw [readContent, digest] at h
  obtain ⟨⟨fell, a⟩, hd, h⟩ := bind_ok_iff.mp h
  obtain ⟨said, hs, hd⟩ := bind_ok_iff.mp hd
  cases said with
  | none =>
      cases hd
      cases h
      exact .inl ⟨hs, rfl⟩
  | some m =>
      obtain ⟨a', ha, hd⟩ := bind_ok_iff.mp hd
      cases hd
      cases h
      exact .inr ⟨m, a, hs, ha, rfl⟩

/-- And back: a message that can be taken in makes `Read_Buff` complete. -/
theorem readContent_ok {fs : FileSystem} {r a : HttpRequest} {s : Bytes}
    {m : Message} (hs : scan s = .ok (some m)) (ha : r.absorb m = .ok a) :
    r.readContent fs s = .ok (a.handlePath fs) := by
  rw [readContent, digest]
  simp only [hs, ha, ok_bind]
  rfl

theorem readBuff_ok {r a : HttpRequest} {b : Buffer} {m : Message}
    (fs : FileSystem) (hb : b.Inv) (hs : scan b.readable = .ok (some m))
    (ha : r.absorb m = .ok a) :
    ∃ b', r.readBuff fs b = .ok (a.handlePath fs, b') := by
  have hspec := readBuff_eq_scan hb fs r
  rw [readContent_ok hs ha] at hspec
  obtain ⟨⟨out, b'⟩, hr, rfl, -, -⟩ := hspec.ok_right
  exact ⟨b', hr⟩

/-- A request parsed without a complaint is a message that was taken in. -/
theorem readBuff_message {r out : HttpRequest} {b b' : Buffer}
    {fs : FileSystem} (hb : b.Inv) (hr : r.readBuff fs b = .ok (out, b'))
    (hvalid : out.code ≠ .badRequest) :
    ∃ m a, scan b.readable = .ok (some m) ∧ r.absorb m = .ok a ∧
      out = a.handlePath fs := by
  have hspec := readBuff_eq_scan hb fs r
  rw [hr] at hspec
  obtain ⟨out', hout, heq, -, -⟩ := hspec.ok_left
  cases heq
  rcases readContent_cases hout with ⟨-, rfl⟩ | h
  · exact absurd rfl hvalid
  · exact h

end HttpRequest

end TinyWebServer
