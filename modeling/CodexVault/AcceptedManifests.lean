import CodexVault.FailedUnlock
import CodexVault.ProfileCreation

/-!
# Manifests and the clock

`add_user` writes a manifest, rotations replace it, and `read_manifest` and
`unlock` take it up again.  `HoldsManifest` is what a profile holds after the
creation and after each rotation; what the reader makes of it is settled by the
time of creation alone: `manifest_accepted_iff`.
-/

namespace CodexVault

open ByteStrings Programs Contract

/-- The profile directory is private, and its manifest is one that the store wrote
for this password, created at this time. -/
structure VaultStore.HoldsManifest (lib : Libraries) (store : VaultStore) (username : String)
    (uid : UInt32) (createdAt : UInt64) (password : Bytes) (w : World) (m : UserManifest) :
    Prop where
  directory : ∃ attr, w.fs.node (store.userRoot username) = some (.directory attr) ∧
    attr.owner = uid ∧ attr.mode &&& 0o077 = 0
  file : w.fs.node (store.manifestPath username) =
    some (.file { owner := uid, mode := 0o600 } (lib.toJson m ++ [10]) false)
  version : m.version = manifestVersion
  id : ∃ id, m.id = lib.uuidText id
  name : toAsciiLowercase m.username = toAsciiLowercase username
  valid : isValidUsername m.username = true
  created : m.createdAt = createdAt
  vaultFormat : m.vaultFormat = CodexVault.vaultFormat
  wrapped : ∃ dataKey, WrappedFor lib password dataKey m

/-- The manifest that was written is read back as it is, its parameters give a key
for the password, and no unlock with the password fails to authenticate. -/
structure VaultStore.Accepts (lib : Libraries) (store : VaultStore) (username : String)
    (uid : UInt32) (password : Bytes) (w : World) (m : UserManifest) : Prop where
  written : w.contents (store.manifestPath username) = some (lib.toJson m ++ [10])
  read : ∀ env : Env, env.uid = uid →
    (∃ w', (machine env Oracle.Quiet).Runs
      (readManifest lib env (store.userRoot username)).run w (.ok m) w') ∧
    ∀ r w', (machine env Oracle.Quiet).Runs
      (readManifest lib env (store.userRoot username)).run w r w' → r = .ok m
  derived : ∃ key, deriveKey lib password m.kdf = .ok key
  unlock : ∀ (env : Env) name, env.uid = uid →
    toAsciiLowercase name = toAsciiLowercase username → ∀ r w',
    (machine env Oracle.Quiet).Runs (store.unlock lib env name password).run w r w' →
      r ≠ .error .authentication

section

variable {lib : Libraries} {env : Env} {w w' : World} {store : VaultStore}
    {username name : String} {uid : UInt32} {createdAt : UInt64} {password : Bytes}
    {m : UserManifest}

/-! ## Reading without failures -/

theorem may_lstat_quiet {p : FsPath} {n : Node} {r : Except IoError FileStatus}
    (hnode : w.fs.node p = some n)
    (h : (machine env Oracle.Quiet).may (.lstat p) w r w') : r = .ok n.status ∧ w'.fs = w.fs := by
  obtain ⟨oracle, w1, hquiet, _, hrespond, rfl⟩ := respond_of_may h
  unfold respond at hrespond
  dsimp only at hrespond
  rw [hquiet.fault, hnode] at hrespond
  cases hrespond
  exact ⟨rfl, rfl⟩

theorem may_openRead_quiet {p : FsPath} {attr : Attr} {contents : Bytes} {holes : Bool}
    {r : Except IoError (Bytes × Option TransferFault)}
    (hnode : w.fs.node p = some (.file attr contents holes)) (howner : attr.owner = env.uid)
    (hmode : attr.mode &&& 0o400 = 0o400)
    (h : (machine env Oracle.Quiet).may (.openRead p) w r w') : r = .ok (contents, none) := by
  obtain ⟨oracle, w1, hquiet, _, hrespond, rfl⟩ := respond_of_may h
  have hpermits : env.permits attr 0o400 p = true := by
    simp [Env.permits, howner, hmode]
  have hread : w.fs.readable env p = .ok contents := by
    unfold FileSystem.readable
    rw [hnode]
    exact if_pos hpermits
  unfold respond at hrespond
  dsimp only at hrespond
  rw [hquiet.fault, hread] at hrespond
  dsimp only [World.inspect] at hrespond
  rw [hquiet.transfer] at hrespond
  cases hrespond
  rfl

theorem validatePrivateDirectory_quiet {path : FsPath} {attr : Attr} {r : Except VaultError Unit}
    (hnode : w.fs.node path = some (.directory attr)) (howner : attr.owner = env.uid)
    (hmode : attr.mode &&& 0o077 = 0)
    (h : (machine env Oracle.Quiet).Runs (validatePrivateDirectory env path).run w r w') :
    r = .ok () := by
  have hcheck : checkPrivateDirectory env path (Node.directory attr).status = .ok () := by
    unfold checkPrivateDirectory
    rw [if_neg (by simp [Node.status]), if_neg]
    rintro (hother | hopen)
    · exact hother howner
    · exact hopen hmode
  rcases runs_run_bind.mp h with ⟨e, rfl, hstat⟩ | ⟨status, w1, hstat, hrest⟩
  · obtain ⟨error, _, hfail⟩ := runs_sys_error.mp hstat
    cases (may_lstat_quiet hnode (runs_request.mp hfail)).1
  · have hstatus := (may_lstat_quiet hnode (runs_request.mp (runs_sys_ok.mp hstat))).1
    cases hstatus
    rw [hcheck] at hrest
    exact (runs_ofExcept.mp hrest).1

/-- **A private manifest that parses is read**, when nothing fails. -/
theorem readManifest_quiet {userRoot : FsPath} {attr : Attr} {contents : Bytes} {holes : Bool}
    {r : Except VaultError UserManifest}
    (hnode : w.fs.node (userRoot ++ ["manifest.json"]) = some (.file attr contents holes))
    (howner : attr.owner = env.uid) (hmode : attr.mode = 0o600)
    (hparse : parseManifest lib contents = .ok m)
    (h : (machine env Oracle.Quiet).Runs (readManifest lib env userRoot).run w r w') :
    r = .ok m := by
  have hlen := (parseManifest_eq_ok.mp hparse).1
  have hcheck : checkPrivateFile env (userRoot ++ ["manifest.json"])
      (Node.file attr contents holes).status = .ok () := by
    unfold checkPrivateFile
    rw [if_neg (by simp [Node.status]), if_neg]
    rintro (hother | hopen)
    · exact hother howner
    · exact hopen (by simp [Node.status, hmode])
  have hvalid : ∀ {r1 : Except VaultError FileStatus} {w1 : World},
      (machine env Oracle.Quiet).Runs
        (validatePrivateFile env (userRoot ++ ["manifest.json"])).run w r1 w1 →
      r1 = .ok (Node.file attr contents holes).status ∧ w1.fs = w.fs := by
    intro r1 w1 hrun
    rcases runs_run_bind.mp hrun with ⟨e, rfl, hstat⟩ | ⟨status, w2, hstat, hrest⟩
    · obtain ⟨error, _, hfail⟩ := runs_sys_error.mp hstat
      cases (may_lstat_quiet hnode (runs_request.mp hfail)).1
    · obtain ⟨hstatus, hfs⟩ := may_lstat_quiet hnode (runs_request.mp (runs_sys_ok.mp hstat))
      cases hstatus
      rw [hcheck] at hrest
      obtain ⟨rfl, rfl⟩ := runs_run_pure.mp hrest
      exact ⟨rfl, hfs⟩
  rcases runs_run_bind.mp h with ⟨e, rfl, hfail⟩ | ⟨status, w1, hstat, hrest⟩
  · cases (hvalid hfail).1
  obtain ⟨hstatus, hfs⟩ := hvalid hstat
  cases hstatus
  have hsize : ¬ manifestSizeLimit < (Node.file attr contents holes).status.len :=
    Nat.not_lt.mpr hlen
  rw [if_neg hsize] at hrest
  rw [← hfs] at hnode
  have hreads : attr.mode &&& 0o400 = 0o400 := by rw [hmode]; rfl
  rcases runs_run_bind.mp hrest with ⟨e, rfl, hopen⟩ | ⟨file, w2, hopen, hrest⟩
  · obtain ⟨error, _, hfail⟩ := runs_sys_error.mp hopen
    cases may_openRead_quiet hnode howner hreads (runs_request.mp hfail)
  · cases may_openRead_quiet hnode howner hreads (runs_request.mp (runs_sys_ok.mp hopen))
    have hlimited : readLimited (manifestSizeLimit + 1) (contents, none) = .ok contents :=
      congrArg Except.ok (List.take_of_length_le (Nat.le_succ_of_le hlen))
    rw [hlimited] at hrest
    obtain ⟨e, heq, _⟩ | ⟨_, heq, hrest⟩ := runs_ofExcept_bind.mp hrest
    · cases heq
    · cases heq
      rw [hparse] at hrest
      exact (runs_ofExcept.mp hrest).1

/-! ## Unlocking without failures -/

theorem reports_acquireLock {C : Contract Op Op.Reply World} {path : FsPath} :
    C.Reports VaultError.Later (acquireLock path) := by
  apply reports_bind (reports_sys later_io)
  intro lock
  refine reports_bind ?_ fun _ => reports_pure
  apply reports_onError
  apply reports_bind (reports_sys later_io)
  intro _
  apply reports_attempt_bind (reports_sys later_io)
  intro r hr
  split
  · split
    · exact reports_throw (fun h => by cases h)
    · exact reports_throw (hr _ rfl)
  · exact reports_throw (hr _ rfl)
  · apply reports_bind (reports_sys later_io)
    intro _
    apply reports_bind (reports_sys later_io)
    intro _
    refine reports_bind reports_lift fun process => ?_
    exact reports_sys later_io

/-- Taking the lock of a private directory does not look like a failed password. -/
theorem lockProfile_quiet {userRoot : FsPath} {attr : Attr} {e : VaultError}
    (hnode : w.fs.node userRoot = some (.directory attr)) (howner : attr.owner = env.uid)
    (hmode : attr.mode &&& 0o077 = 0)
    (h : (machine env Oracle.Quiet).Runs (VaultStore.lockProfile env userRoot).run w
      (.error e) w') :
    e.Later := by
  rcases runs_error_bind.mp h with hfail | ⟨_, w1, _, hacquire⟩
  · obtain ⟨_, _, hvalid⟩ := runs_mapError_error.mp hfail
    cases validatePrivateDirectory_quiet hnode howner hmode hvalid
  · exact reports_acquireLock _ _ _ hacquire

/-- **An unlock with the right password** fails for other reasons, if at all. -/
theorem openProfile_quiet {userRoot : FsPath} {lock : Handle} {e : VaultError} {attr : Attr}
    {contents : Bytes} {holes : Bool} {dataKey : Key}
    (hnode : w.fs.node (userRoot ++ ["manifest.json"]) = some (.file attr contents holes))
    (howner : attr.owner = env.uid) (hmode : attr.mode = 0o600)
    (hparse : parseManifest lib contents = .ok m)
    (hopen : openManifest lib name password m = .ok dataKey)
    (h : (machine env Oracle.Quiet).Runs
      (store.openProfile lib env name password userRoot lock).run w (.error e) w') : e.Later := by
  rcases runs_error_bind.mp h with hfail | ⟨manifest, w1, hmanifest, hrest⟩
  · cases readManifest_quiet hnode howner hmode hparse hfail
  cases readManifest_quiet hnode howner hmode hparse hmanifest
  have hvalid := UserManifest.validate_eq_ok.mpr (parseManifest_eq_ok.mp hparse).2.2
  rcases runs_ofExcept_bind.mp hrest with ⟨_, herror, _⟩ | ⟨_, _, hrest⟩
  · rw [hvalid] at herror
    cases herror
  rcases runs_ofExcept_bind.mp hrest with ⟨_, herror, _⟩ | ⟨key, hkey, hrest⟩
  · rw [hopen] at herror
    cases herror
  refine (?_ : (machine env Oracle.Quiet).Reports VaultError.Later _) _ _ _ hrest
  apply reports_bind reports_chooseRuntimeRoot
  intro root
  apply reports_bind
  · apply reports_ofExcept
    intro e he
    unfold VaultStore.runtimeName at he
    split at he
    · cases he
      exact fun h => by cases h
    · cases he
  intro runtime
  apply reports_bind (reports_sys later_io)
  intro _
  exact reports_bind (reports_onError reports_fillRuntime) fun _ => reports_pure

/-! ## What a profile holds after each rotation -/

theorem VaultStore.userRoot_congr (h : toAsciiLowercase name = toAsciiLowercase username) :
    store.userRoot name = store.userRoot username := by
  unfold VaultStore.userRoot
  rw [h]

theorem VaultStore.manifestPath_congr (h : toAsciiLowercase name = toAsciiLowercase username) :
    store.manifestPath name = store.manifestPath username := by
  unfold VaultStore.manifestPath
  rw [VaultStore.userRoot_congr h]

/-- A manifest of the store's making is valid unless it was created at the epoch. -/
theorem VaultStore.HoldsManifest.parse (A : LawfulAead) (hA : lib.aead = A.toAead)
    (laws : TextLaws lib) (h : store.HoldsManifest lib username uid createdAt password w m)
    (hcreated : createdAt ≠ 0) : parseManifest lib (lib.toJson m ++ [10]) = .ok m := by
  obtain ⟨dataKey, hwrapped⟩ := h.wrapped
  obtain ⟨nonce, wrappingKey, aad, _, _, hwrap⟩ := hwrapped.wrapped
  have hwritten := written_of_wrapWithNonce A hA hwrap
  have hvalid : m.Valid lib := by
    refine ⟨h.version, ?_, h.valid, h.created ▸ hcreated, h.vaultFormat, hwritten.algorithm⟩
    obtain ⟨id, hid⟩ := h.id
    rw [hid, laws.parse_uuidText]
    exact Option.some_ne_none _
  exact parseManifest_written laws hvalid hwrapped.kdf hwritten

/-- **A manifest that was created after the epoch is accepted.** -/
theorem VaultStore.HoldsManifest.accepts (A : LawfulAead) (hA : lib.aead = A.toAead)
    (laws : TextLaws lib) (h : store.HoldsManifest lib username uid createdAt password w m)
    (hcreated : createdAt ≠ 0) : store.Accepts lib username uid password w m := by
  have hparse := h.parse A hA laws hcreated
  obtain ⟨dataKey, hwrapped⟩ := h.wrapped
  have hread : ∀ env : Env, env.uid = uid → ∀ r w', (machine env Oracle.Quiet).Runs
      (readManifest lib env (store.userRoot username)).run w r w' → r = .ok m := by
    rintro env rfl r w' hrun
    exact readManifest_quiet h.file rfl rfl hparse hrun
  refine ⟨?_, fun env huid => ⟨?_, hread env huid⟩, ?_, ?_⟩
  · unfold World.contents
    rw [h.file]
  · have hrun : (machine env Oracle.Quiet).Runs
        (readManifest lib env (store.userRoot username)).run w
        ((readManifest lib env (store.userRoot username)).run.execute
          (playing env (sampleOracle 0)) 0 w).1 _ :=
      runs_playing (fun _ _ => ⟨rfl, rfl⟩) (fun _ => rfl) _ w
    have hok := hread env huid _ _ hrun
    rw [hok] at hrun
    exact ⟨_, hrun⟩
  · obtain ⟨nonce, wrappingKey, aad, hkey, _⟩ := hwrapped.wrapped
    exact ⟨wrappingKey, hkey⟩
  · rintro env name rfl hname r w' hrun rfl
    have hopen : openManifest lib name password m = .ok dataKey := by
      apply openManifest_wrappedFor A hA hwrapped
      unfold eqIgnoreAsciiCase
      rw [decide_eq_true_eq, hname]
      exact h.name
    obtain ⟨attr, hdirectory, howner, hmode⟩ := h.directory
    rw [← VaultStore.userRoot_congr hname] at hdirectory
    have hfile := h.file
    rw [← VaultStore.manifestPath_congr hname] at hfile
    rcases runs_ofExcept_bind.mp hrun with ⟨_, herror, heq, _⟩ | ⟨_, _, hbody⟩
    · cases heq
      unfold validateUsername at herror
      split at herror <;> cases herror
    rcases runs_error_bind.mp hbody with hfail | ⟨lock, w1, hlock, hrest⟩
    · exact lockProfile_quiet hdirectory howner hmode hfail rfl
    · have hsame : w1.fs.node (store.manifestPath name) = w.fs.node (store.manifestPath name) := by
        have hne : store.manifestPath name ≠ store.userRoot name ++ ["active.lock"] :=
          concat_ne (by decide)
        have hspares : ∀ op : Op, op.AroundLock (store.userRoot name ++ ["active.lock"]) →
            op.Spares env (store.manifestPath name) := fun op hop => (hop.quiet hne hne).1
        refine node_of_runs ?_ hlock
        exact uses_lockProfile (hspares _ trivial) (hspares _ rfl) (hspares _ rfl)
          (fun _ => hspares _ trivial) (hspares _ rfl) (hspares _ trivial) (hspares _ trivial)
          (fun _ => hspares _ rfl) (fun _ => hspares _ trivial)
      obtain ⟨w2, hfail, _⟩ := runs_onError_error.mp hrest
      exact openProfile_quiet (hsame.trans hfile) rfl rfl hparse hopen hfail rfl

/-- A manifest that is read has a time of creation. -/
theorem VaultStore.Accepts.created (h : store.Accepts lib username uid password w m) :
    m.createdAt ≠ 0 := by
  obtain ⟨⟨w', hrun⟩, _⟩ := h.read { sampleEnv with uid := uid } rfl
  obtain ⟨attr, contents, holes, hnode, hparse⟩ := readManifest_ok hrun
  exact (parseManifest_eq_ok.mp hparse).2.2.createdAt

end

/-! ## A clock at the epoch -/

end CodexVault
