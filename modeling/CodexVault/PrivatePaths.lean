import CodexVault.SystemCalls

/-!
# Private directories and files

The checks of `config.rs`: a private directory or file is a real one, belongs to
the effective user and is closed to everybody else.  The runtime root is the
explicit one, or the first candidate that can be made private.
-/

namespace CodexVault

open ByteStrings Programs

/-- A program of the store. -/
abbrev Io := ExceptT VaultError (Prog Op Op.Reply)

/-- One call. -/
def request (op : Op) : Prog Op Op.Reply op.Reply := Prog.perform op

/-- One call that reports no error. -/
def ask (op : Op) : Io op.Reply := ExceptT.lift (request op)

/-- One call, its error reported as `VaultError::Io`. -/
def sys {α : Type} (call : Prog Op Op.Reply (Except IoError α)) : Io α :=
  Prog.mapError .io (Prog.fallible call)

/-- A result that is already known. -/
def ofExcept {α : Type} : Except VaultError α → Io α
  | .ok a => pure a
  | .error e => throw e

/-- A call whose result is dropped. -/
def ignore {α : Type} (call : Prog Op Op.Reply α) : Prog Op Op.Reply Unit := do
  let _ ← call
  pure ()

/-! ## Runs of single calls -/

section

variable {σ : Type} {C : Contract Op Op.Reply σ} {w w' : σ}

@[simp] theorem runs_request {op : Op} {r : op.Reply} :
    C.Runs (request op) w r w' ↔ C.may op w r w' :=
  Contract.runs_perform

theorem runs_ask {op : Op} {r : Except VaultError op.Reply} :
    C.Runs (ask op).run w r w' ↔ ∃ a, r = .ok a ∧ C.may op w a w' := by
  rw [ask, Contract.runs_lift]
  simp only [runs_request]

theorem runs_sys_ok {α : Type} {p : Prog Op Op.Reply (Except IoError α)} {a : α} :
    C.Runs (sys p).run w (.ok a) w' ↔ C.Runs p w (.ok a) w' :=
  Contract.runs_mapError_ok

theorem runs_sys_error {α : Type} {p : Prog Op Op.Reply (Except IoError α)} {e : VaultError} :
    C.Runs (sys p).run w (.error e) w' ↔
      ∃ error, VaultError.io error = e ∧ C.Runs p w (.error error) w' :=
  Contract.runs_mapError_error

/-- A call is made, whatever becomes of it. -/
theorem runs_of_sys {α : Type} {p : Prog Op Op.Reply (Except IoError α)}
    {r : Except VaultError α} (h : C.Runs (sys p).run w r w') : ∃ reply, C.Runs p w reply w' := by
  cases r with
  | ok a => exact ⟨_, runs_sys_ok.mp h⟩
  | error e =>
      obtain ⟨error, _, hfail⟩ := runs_sys_error.mp h
      exact ⟨_, hfail⟩

@[simp] theorem runs_ofExcept {α : Type} {x r : Except VaultError α} :
    C.Runs (ofExcept x).run w r w' ↔ r = x ∧ w' = w := by
  cases x <;> exact Iff.rfl

theorem runs_ask_bind {α : Type} {op : Op} {f : op.Reply → Io α} {r : Except VaultError α} :
    C.Runs (ask op >>= f).run w r w' ↔
      ∃ a t, C.may op w a t ∧ C.Runs (f a).run t r w' := by
  rw [Contract.runs_run_bind]
  constructor
  · rintro (⟨e, _, hp⟩ | ⟨a, t, hp, hf⟩)
    · obtain ⟨_, heq, _⟩ := runs_ask.mp hp
      cases heq
    · obtain ⟨_, heq, hp⟩ := runs_ask.mp hp
      cases heq
      exact ⟨a, t, hp, hf⟩
  · rintro ⟨a, t, hp, hf⟩
    exact .inr ⟨a, t, runs_ask.mpr ⟨a, rfl, hp⟩, hf⟩

theorem runs_ofExcept_bind {α β : Type} {x : Except VaultError α} {f : α → Io β}
    {r : Except VaultError β} :
    C.Runs (ofExcept x >>= f).run w r w' ↔
      (∃ e, x = .error e ∧ r = .error e ∧ w' = w) ∨
      ∃ a, x = .ok a ∧ C.Runs (f a).run w r w' := by
  cases x with
  | ok a =>
      constructor
      · intro h
        exact .inr ⟨a, rfl, h⟩
      · rintro (⟨_, heq, _⟩ | ⟨_, heq, h⟩)
        · cases heq
        · cases heq
          exact h
  | error e =>
      constructor
      · intro h
        exact .inl ⟨e, rfl, h⟩
      · rintro (⟨_, heq, h⟩ | ⟨_, heq, _⟩)
        · cases heq
          exact h
        · cases heq

theorem runs_ignore {α : Type} {p : Prog Op Op.Reply α} :
    C.Runs (ignore p) w () w' ↔ ∃ a, C.Runs p w a w' := by
  rw [ignore, Contract.runs_bind]
  constructor
  · rintro ⟨a, t, hp, _, rfl⟩
    exact ⟨a, hp⟩
  · rintro ⟨a, hp⟩
    exact ⟨a, w', hp, rfl, rfl⟩

variable {P : Op → Prop}

theorem uses_request {op : Op} (h : P op) : Contract.Uses P (request op) :=
  Contract.uses_perform h

theorem uses_ask {op : Op} (h : P op) : Contract.Uses P (ask op).run :=
  Contract.uses_lift (uses_request h)

theorem uses_sys {α : Type} {p : Prog Op Op.Reply (Except IoError α)} (h : Contract.Uses P p) :
    Contract.Uses P (sys p).run :=
  Contract.uses_mapError h

theorem uses_ofExcept {α : Type} {x : Except VaultError α} :
    Contract.Uses P (ofExcept x).run := by
  cases x <;> exact trivial

theorem uses_ignore {α : Type} {p : Prog Op Op.Reply α} (h : Contract.Uses P p) :
    Contract.Uses P (ignore p) :=
  Contract.uses_bind h fun _ => trivial

variable {E : VaultError → Prop}

theorem reports_sys {α : Type} {p : Prog Op Op.Reply (Except IoError α)}
    (h : ∀ error, E (.io error)) : C.Reports E (sys p) :=
  Contract.reports_mapError h

theorem reports_ofExcept {α : Type} {x : Except VaultError α} (h : ∀ e, x = .error e → E e) :
    C.Reports E (ofExcept x) := by
  intro s s' e hrun
  exact h e (runs_ofExcept.mp hrun).1.symm

end

/-! ## `config.rs` -/

/-- `Path::display`. -/
def display (path : FsPath) : String := path.foldl (fun text name => text ++ "/" ++ name) ""

/-- `APP_NAME`. -/
def appName : String := "codex-vault"

/-- The checks of `validate_private_directory` on what `symlink_metadata` reports. -/
def checkPrivateDirectory (env : Env) (path : FsPath) (status : FileStatus) :
    Except VaultError Unit :=
  if status.isDir = false then
    .error (.invalidConfiguration ("private path is not a real directory: " ++ display path))
  else if status.uid ≠ env.uid ∨ status.mode &&& 0o077 ≠ 0 then
    .error (.invalidConfiguration
      ("private directory has unsafe ownership or permissions: " ++ display path))
  else .ok ()

theorem checkPrivateDirectory_ok {env : Env} {path : FsPath} {status : FileStatus}
    (h : checkPrivateDirectory env path status = .ok ()) :
    status.isDir = true ∧ status.uid = env.uid ∧ status.mode &&& 0o077 = 0 := by
  unfold checkPrivateDirectory at h
  split at h
  · cases h
  · next hdir =>
      split at h
      · cases h
      · next hprivate =>
          obtain ⟨howner, hmode⟩ := not_or.mp hprivate
          exact ⟨Bool.of_not_eq_false hdir, not_not.mp howner, not_not.mp hmode⟩

/-- `validate_private_directory`. -/
def validatePrivateDirectory (env : Env) (path : FsPath) : Io Unit := do
  let status ← sys (request (.lstat path))
  ofExcept (checkPrivateDirectory env path status)

/-- The checks of `validate_private_file`. -/
def checkPrivateFile (env : Env) (path : FsPath) (status : FileStatus) :
    Except VaultError Unit :=
  if status.isFile = false then
    .error (.invalidConfiguration ("private path is not a real file: " ++ display path))
  else if status.uid ≠ env.uid ∨ status.mode &&& 0o077 ≠ 0 then
    .error (.invalidConfiguration
      ("private file has unsafe ownership or permissions: " ++ display path))
  else .ok ()

/-- `validate_private_file`. -/
def validatePrivateFile (env : Env) (path : FsPath) : Io FileStatus := do
  let status ← sys (request (.lstat path))
  ofExcept (checkPrivateFile env path status)
  return status

/-- `ensure_private_directory`. -/
def ensurePrivateDirectory (env : Env) (path : FsPath) : Io Unit := do
  match ← Prog.attempt (sys (request (.lstat path))) with
  | .ok _ => validatePrivateDirectory env path
  | .error (.io error) =>
      if error.kind = .notFound then do
        sys (request (.createDirectories path))
        validatePrivateDirectory env path
      else throw (.io error)
  | .error error => throw error

/-- A directory that is ensured passes the checks in the end. -/
theorem runs_validate_of_ensure {σ : Type} {C : Contract Op Op.Reply σ} {w w' : σ} {env : Env}
    {path : FsPath} (h : C.Runs (ensurePrivateDirectory env path).run w (.ok ()) w') :
    ∃ w1, C.Runs (validatePrivateDirectory env path).run w1 (.ok ()) w' := by
  obtain ⟨found, w1, _, hrest⟩ := Contract.runs_attempt_bind.mp h
  split at hrest
  · exact ⟨w1, hrest⟩
  · split at hrest
    · obtain ⟨_, w2, _, hrun⟩ := Contract.runs_ok_bind.mp hrest
      exact ⟨w2, hrun⟩
    · cases (Contract.runs_run_throw.mp hrest).1
  · cases (Contract.runs_run_throw.mp hrest).1

/-- `prepare_runtime_root`. -/
def prepareRuntimeRoot (env : Env) (root : RootPath) : Io FsPath := do
  if root.absolute = false then
    throw (.invalidConfiguration
      "runtime root must be an absolute path; refusing implicit relocation")
  else do
    ensurePrivateDirectory env root.path
    sys (request (.canonicalize root.path))

/-- The loop of `select_runtime_root_from`. -/
def firstPrepared (env : Env) : List RootPath → Io FsPath
  | [] => throw (.invalidConfiguration "no private writable runtime directory is available")
  | candidate :: rest => do
      match ← Prog.attempt (prepareRuntimeRoot env candidate) with
      | .ok path => pure path
      | .error _ => firstPrepared env rest

/-- `select_runtime_root_from`. -/
def selectRuntimeRootFrom (env : Env) (explicit : Option RootPath)
    (candidates : List RootPath) : Io FsPath :=
  match explicit with
  | some path => prepareRuntimeRoot env path
  | none => firstPrepared env candidates

/-- The candidates of `select_runtime_root`, on Linux. -/
def runtimeCandidates (env : Env) : List RootPath :=
  let named := appName ++ "-" ++ toString env.uid
  (match env.xdgRuntimeDir with
    | some root => [{ root with path := root.path ++ [appName] }]
    | none => []) ++
  [{ absolute := true, path := ["dev", "shm", named] },
   { absolute := true, path := env.tempDir ++ [named] }]

/-- `select_runtime_root`. -/
def selectRuntimeRoot (env : Env) : Io FsPath :=
  selectRuntimeRootFrom env env.runtimeOverride (runtimeCandidates env)

end CodexVault
