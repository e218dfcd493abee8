import CodexVault.VaultStore

/-!
# Which calls the store makes

For each function one lemma: every call it makes is in `P`, as soon as `P` holds
of the calls named in the hypotheses.  A frame property of a function is such a
lemma at the `P` of the calls that keep it.
-/

namespace CodexVault

open ByteStrings Programs Contract

variable {P : Op → Prop} {lib : Libraries} {env : Env}

theorem uses_validatePrivateDirectory {path : FsPath} (h : P (.lstat path)) :
    Uses P (validatePrivateDirectory env path).run :=
  uses_run_bind (uses_sys (uses_request h)) fun _ => uses_ofExcept

theorem uses_validatePrivateFile {path : FsPath} (h : P (.lstat path)) :
    Uses P (validatePrivateFile env path).run :=
  uses_run_bind (uses_sys (uses_request h)) fun _ =>
    uses_run_bind uses_ofExcept fun _ => uses_run_pure

theorem uses_ensurePrivateDirectory {path : FsPath} (h : P (.lstat path))
    (hmake : P (.createDirectories path)) : Uses P (ensurePrivateDirectory env path).run := by
  apply uses_run_bind (uses_attempt (uses_sys (uses_request h)))
  intro result
  split
  · exact uses_validatePrivateDirectory h
  · split
    · apply uses_run_bind (uses_sys (uses_request hmake))
      intro _
      exact uses_validatePrivateDirectory h
    · exact uses_run_throw
  · exact uses_run_throw

theorem uses_prepareRuntimeRoot {root : RootPath} (h : P (.lstat root.path))
    (hmake : P (.createDirectories root.path)) (hcanon : P (.canonicalize root.path)) :
    Uses P (prepareRuntimeRoot env root).run := by
  unfold prepareRuntimeRoot
  split
  · exact uses_run_throw
  · apply uses_run_bind (uses_ensurePrivateDirectory h hmake)
    intro _
    exact uses_sys (uses_request hcanon)

theorem uses_firstPrepared {roots : List RootPath}
    (h : ∀ root ∈ roots, P (.lstat root.path) ∧ P (.createDirectories root.path) ∧
      P (.canonicalize root.path)) : Uses P (firstPrepared env roots).run := by
  induction roots with
  | nil => exact uses_run_throw
  | cons root rest ih =>
      obtain ⟨hstat, hmake, hcanon⟩ := h root List.mem_cons_self
      apply uses_run_bind (uses_attempt (uses_prepareRuntimeRoot hstat hmake hcanon))
      intro result
      split
      · exact uses_run_pure
      · exact ih fun root hroot => h root (List.mem_cons_of_mem _ hroot)

/-- The runtime roots a store may come to use. -/
def VaultStore.runtimeRoots (env : Env) (store : VaultStore) : List RootPath :=
  match store.runtimeRoot, env.runtimeOverride with
  | some root, _ => [root]
  | none, some root => [root]
  | none, none => runtimeCandidates env

theorem uses_chooseRuntimeRoot {store : VaultStore}
    (h : ∀ root ∈ store.runtimeRoots env, P (.lstat root.path) ∧
      P (.createDirectories root.path) ∧ P (.canonicalize root.path)) :
    Uses P (store.chooseRuntimeRoot env).run := by
  unfold VaultStore.chooseRuntimeRoot
  unfold VaultStore.runtimeRoots at h
  split
  · next root hroot =>
      rw [hroot] at h
      obtain ⟨hstat, hmake, hcanon⟩ := h root List.mem_cons_self
      exact uses_prepareRuntimeRoot hstat hmake hcanon
  · next hroot =>
      rw [hroot] at h
      unfold selectRuntimeRoot selectRuntimeRootFrom
      split
      · next root hover =>
          rw [hover] at h
          obtain ⟨hstat, hmake, hcanon⟩ := h root List.mem_cons_self
          exact uses_prepareRuntimeRoot hstat hmake hcanon
      · next hover =>
          rw [hover] at h
          exact uses_firstPrepared h

theorem uses_readManifest {userRoot : FsPath} (h : P (.lstat (userRoot ++ ["manifest.json"])))
    (hread : P (.openRead (userRoot ++ ["manifest.json"]))) :
    Uses P (readManifest lib env userRoot).run := by
  apply uses_run_bind (uses_validatePrivateFile h)
  intro _
  split
  · exact uses_run_throw
  · apply uses_run_bind (uses_sys (uses_request hread))
    intro _
    apply uses_run_bind uses_ofExcept
    intro _
    exact uses_ofExcept

theorem uses_takeLock {path : FsPath} {lock : Handle} (hmode : P (.setPermissions path 0o600))
    (htry : P (.tryLock path lock)) (hlen : P (.setLength path)) (hseek : P (.seek path))
    (hpid : P .processId) (hwrite : ∀ text, P (.writeText path text)) :
    Uses P (takeLock path lock).run := by
  apply uses_run_bind (uses_sys (uses_request hmode))
  intro _
  apply uses_run_bind (uses_attempt (uses_sys (uses_request htry)))
  intro result
  split
  · split <;> exact uses_run_throw
  · exact uses_run_throw
  · apply uses_run_bind (uses_sys (uses_request hlen))
    intro _
    apply uses_run_bind (uses_sys (uses_request hseek))
    intro _
    apply uses_run_bind (uses_ask hpid)
    intro _
    exact uses_sys (uses_request (hwrite _))

theorem uses_acquireLock {path : FsPath} (hopen : P (.openLock path))
    (hmode : P (.setPermissions path 0o600)) (htry : ∀ lock, P (.tryLock path lock))
    (hlen : P (.setLength path)) (hseek : P (.seek path)) (hpid : P .processId)
    (hwrite : ∀ text, P (.writeText path text)) (hclose : ∀ lock, P (.closeFile path lock)) :
    Uses P (acquireLock path).run := by
  apply uses_run_bind (uses_sys (uses_request hopen))
  intro lock
  apply uses_run_bind
    (uses_onError (uses_takeLock hmode (htry lock) hlen hseek hpid hwrite)
      (uses_request (hclose lock)))
  intro _
  exact uses_run_pure

theorem uses_writePrivateJson {path : FsPath} {value : UserManifest} (hmake : P (.createFile path))
    (hstore : ∀ contents, P (.store path contents)) (hsync : P (.sync path)) :
    Uses P (writePrivateJson lib path value).run := by
  apply uses_run_bind (uses_sys (uses_request hmake))
  intro _
  apply uses_run_bind (uses_ask (hstore _))
  intro _
  split
  · exact uses_run_throw
  · exact uses_sys (uses_request hsync)

theorem uses_defaultKdfParameters (h : P (.random 16)) : Uses P (defaultKdfParameters lib).run := by
  apply uses_run_bind (uses_ask h)
  intro salt
  split
  · exact uses_run_throw
  · exact uses_run_pure

theorem uses_newHeader {username : String} {kdf : KdfParameters} (hnow : P .now)
    (hid : P .newUuid) : Uses P (UserManifest.newHeader lib username kdf).run := by
  apply uses_run_bind (uses_ask hnow)
  intro reading
  split
  · exact uses_run_throw
  · apply uses_run_bind (uses_ask hid)
    intro _
    exact uses_run_pure

theorem uses_wrapDataKey {dataKey wrappingKey : Key} {aad : Bytes} (h : P (.random 12)) :
    Uses P (wrapDataKey lib dataKey wrappingKey aad).run := by
  apply uses_run_bind (uses_ask h)
  intro nonce
  split
  · exact uses_run_throw
  · exact uses_ofExcept

theorem uses_lockProfile {userRoot : FsPath} (hstat : P (.lstat userRoot))
    (hopen : P (.openLock (userRoot ++ ["active.lock"])))
    (hmode : P (.setPermissions (userRoot ++ ["active.lock"]) 0o600))
    (htry : ∀ lock, P (.tryLock (userRoot ++ ["active.lock"]) lock))
    (hlen : P (.setLength (userRoot ++ ["active.lock"])))
    (hseek : P (.seek (userRoot ++ ["active.lock"]))) (hpid : P .processId)
    (hwrite : ∀ text, P (.writeText (userRoot ++ ["active.lock"]) text))
    (hclose : ∀ lock, P (.closeFile (userRoot ++ ["active.lock"]) lock)) :
    Uses P (VaultStore.lockProfile env userRoot).run := by
  apply uses_run_bind (uses_mapError (uses_validatePrivateDirectory hstat))
  intro _
  exact uses_acquireLock hopen hmode htry hlen hseek hpid hwrite hclose

theorem uses_rewrappedManifest {userRoot : FsPath} {username : String} {current new : Bytes}
    (hstat : P (.lstat (userRoot ++ ["manifest.json"])))
    (hread : P (.openRead (userRoot ++ ["manifest.json"]))) (hrandom : ∀ n, P (.random n)) :
    Uses P (VaultStore.rewrappedManifest lib env userRoot username current new).run := by
  apply uses_run_bind (uses_readManifest hstat hread)
  intro _
  apply uses_run_bind uses_ofExcept
  intro _
  apply uses_run_bind (uses_defaultKdfParameters (hrandom _))
  intro _
  apply uses_run_bind uses_ofExcept
  intro _
  apply uses_run_bind uses_ofExcept
  intro _
  apply uses_run_bind (uses_wrapDataKey (hrandom _))
  intro _
  exact uses_run_pure

/-- The calls of `seal_directory` on a directory, a temporary file and a
destination. -/
structure SealCalls (P : Op → Prop) (directory temporary destination : FsPath) : Prop where
  create : P (.createFile temporary)
  random : P (.random 12)
  walk : P (.readTree directory)
  store : ∀ contents, P (.store temporary contents)
  sync : P (.sync temporary)
  rename : P (.rename temporary destination)
  remove : P (.removeFile temporary)

/-- The temporary file of `seal_directory`. -/
def sealTemporary (lib : Libraries) (destination : FsPath) (id : Uuid) : FsPath :=
  withExtension destination ("tmp-" ++ lib.uuidText id)

theorem uses_sealDirectory {directory destination : FsPath} {dataKey : Key} (hid : P .newUuid)
    (h : ∀ id, SealCalls P directory (sealTemporary lib destination id) destination) :
    Uses P (sealDirectory lib directory destination dataKey).run := by
  apply uses_run_bind (uses_ask hid)
  intro id
  obtain ⟨hcreate, hrandom, hwalk, hstore, hsync, hrename, hremove⟩ := h id
  apply uses_onError
  · apply uses_run_bind (uses_sys (uses_request hcreate))
    intro fault
    apply uses_run_bind (uses_ask hrandom)
    intro random
    apply uses_run_bind (uses_ask hwalk)
    intro tree
    apply uses_run_bind (uses_ask (hstore _))
    intro _
    apply uses_run_bind uses_ofExcept
    intro _
    apply uses_run_bind (uses_sys (uses_request hsync))
    intro _
    exact uses_sys (uses_request hrename)
  · exact uses_ignore (uses_request hremove)

theorem uses_unpackEntry {destination : FsPath} {entry : ReadEntry}
    (h : ∀ name rest unpacking, P (.unpack destination (name :: rest) unpacking)) :
    Uses P (unpackEntry destination entry).run := by
  unfold unpackEntry
  dsimp only
  split
  · exact uses_run_pure
  · split
    · exact uses_run_pure
    · split
      · exact uses_run_throw
      · exact uses_run_pure
      · exact uses_mapError (uses_request (h _ _ _))

theorem uses_unpackEntries {destination : FsPath} {entries : List ReadEntry}
    (h : ∀ name rest unpacking, P (.unpack destination (name :: rest) unpacking)) :
    Uses P (unpackEntries destination entries).run := by
  induction entries with
  | nil => exact uses_run_pure
  | cons entry rest ih =>
      apply uses_run_bind (uses_unpackEntry h)
      intro _
      exact ih

theorem uses_unsealFrom {R : Type} [Source R] {inner : R} {destination : FsPath} {dataKey : Key}
    (h : ∀ name rest unpacking, P (.unpack destination (name :: rest) unpacking)) :
    Uses P (unsealFrom lib inner destination dataKey).run := by
  unfold unsealFrom
  split
  · exact uses_run_throw
  · apply uses_run_bind (uses_unpackEntries h)
    intro _
    split
    · exact uses_run_throw
    · exact uses_ofExcept

theorem uses_unsealDirectory {source destination : FsPath} {dataKey : Key}
    (hstat : P (.lstat source)) (hread : P (.openRead source))
    (h : ∀ name rest unpacking, P (.unpack destination (name :: rest) unpacking)) :
    Uses P (unsealDirectory lib env source destination dataKey).run := by
  apply uses_run_bind (uses_mapError (uses_validatePrivateFile hstat))
  intro _
  apply uses_run_bind (uses_sys (uses_request hread))
  intro opened
  split
  · exact uses_unsealFrom h
  · exact uses_unsealFrom h

theorem uses_fillRuntime {userRoot runtime : FsPath} {dataKey : Key}
    (hhome : P (.lstat (runtime ++ ["codex-home"])))
    (hmake : P (.createDirectories (runtime ++ ["codex-home"])))
    (hstat : P (.lstat (userRoot ++ ["state.cvlt"])))
    (hread : P (.openRead (userRoot ++ ["state.cvlt"])))
    (h : ∀ path unpacking, P (.unpack (runtime ++ ["codex-home"]) path unpacking)) :
    Uses P (VaultStore.fillRuntime lib env userRoot runtime dataKey).run := by
  apply uses_run_bind (uses_ensurePrivateDirectory hhome hmake)
  intro _
  exact uses_unsealDirectory hstat hread fun name rest => h (name :: rest)

/-- The calls of `replace_private_json` with a temporary file. -/
structure ReplaceCalls (P : Op → Prop) (parent : FsPath) (temporary name : String) : Prop where
  create : P (.createFile (parent ++ [temporary]))
  store : ∀ contents, P (.store (parent ++ [temporary]) contents)
  sync : P (.sync (parent ++ [temporary]))
  rename : P (.rename (parent ++ [temporary]) (parent ++ [name]))
  openParent : P (.openDirectory parent)
  syncParent : P (.sync parent)
  remove : P (.removeFile (parent ++ [temporary]))

theorem uses_replacePrivateJson {parent : FsPath} {name : String} {value : UserManifest}
    (hid : P .newUuid)
    (h : ∀ id, ReplaceCalls P parent (".manifest-" ++ lib.uuidText id ++ ".tmp") name) :
    Uses P (replacePrivateJson lib parent name value).run := by
  apply uses_run_bind (uses_ask hid)
  intro id
  obtain ⟨hcreate, hstore, hsync, hrename, hopen, hsyncParent, hremove⟩ := h id
  apply uses_onError
  · apply uses_run_bind (uses_writePrivateJson hcreate hstore hsync)
    intro _
    apply uses_run_bind (uses_sys (uses_request hrename))
    intro _
    apply uses_run_bind (uses_sys (uses_request hopen))
    intro _
    exact uses_sys (uses_request hsyncParent)
  · exact uses_ignore (uses_request hremove)

/-- The calls on a lock file. -/
structure LockCalls (P : Op → Prop) (path : FsPath) : Prop where
  openLock : P (.openLock path)
  setPermissions : P (.setPermissions path 0o600)
  tryLock : ∀ lock, P (.tryLock path lock)
  setLength : P (.setLength path)
  seek : P (.seek path)
  processId : P .processId
  writeText : ∀ text, P (.writeText path text)
  unlockFile : ∀ lock, P (.unlockFile path lock)
  closeFile : ∀ lock, P (.closeFile path lock)

theorem LockCalls.lockProfile {userRoot : FsPath} (h : LockCalls P (userRoot ++ ["active.lock"]))
    (hstat : P (.lstat userRoot)) : Uses P (VaultStore.lockProfile env userRoot).run :=
  uses_lockProfile hstat h.openLock h.setPermissions h.tryLock h.setLength h.seek h.processId
    h.writeText h.closeFile

theorem uses_rotatePassword {store : VaultStore} {username : String} {current new : Bytes}
    (hlock : LockCalls P (store.userRoot username ++ ["active.lock"]))
    (hstat : P (.lstat (store.userRoot username)))
    (hmanifest : P (.lstat (store.userRoot username ++ ["manifest.json"])))
    (hread : P (.openRead (store.userRoot username ++ ["manifest.json"])))
    (hrandom : ∀ n, P (.random n)) (hid : P .newUuid)
    (hreplace : ∀ id, ReplaceCalls P (store.userRoot username)
      (".manifest-" ++ lib.uuidText id ++ ".tmp") "manifest.json") :
    Uses P (store.rotatePassword lib env username current new).run := by
  apply uses_run_bind uses_ofExcept
  intro _
  apply uses_run_bind uses_ofExcept
  intro _
  apply uses_run_bind (hlock.lockProfile hstat)
  intro lock
  apply uses_run_bind (uses_attempt (uses_run_bind (uses_rewrappedManifest hmanifest hread hrandom)
    fun _ => uses_replacePrivateJson hid hreplace))
  intro _
  apply uses_run_bind (uses_attempt (uses_sys (uses_request (hlock.unlockFile lock))))
  intro _
  apply uses_run_bind (uses_ask (hlock.closeFile lock))
  intro _
  apply uses_run_bind uses_ofExcept
  intro _
  exact uses_ofExcept

theorem uses_close {vault : UnlockedVault} (hid : P .newUuid)
    (hseal : ∀ id, SealCalls P vault.codexHome (sealTemporary lib vault.statePath id)
      vault.statePath)
    (hremove : P (.removeTree vault.runtime)) (hunlock : P (.unlockFile vault.lockPath vault.lock))
    (hclose : P (.closeFile vault.lockPath vault.lock)) : Uses P (vault.close lib).run := by
  apply uses_run_bind (uses_attempt (uses_sealDirectory hid hseal))
  intro _
  apply uses_run_bind (uses_attempt (uses_sys (uses_request hremove)))
  intro _
  apply uses_run_bind (uses_attempt (uses_sys (uses_request hunlock)))
  intro _
  apply uses_run_bind (uses_ask hclose)
  intro _
  apply uses_run_bind uses_ofExcept
  intro _
  apply uses_run_bind uses_ofExcept
  intro _
  exact uses_ofExcept

end CodexVault
