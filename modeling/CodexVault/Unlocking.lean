import CodexVault.Accounts

/-!
# What an unlock hands out

An unlock that succeeds has been given the password of the account.  The vault carries
the data key and the username of the account, and the session that was sealed last lies
in a directory that was not there before.
-/

namespace CodexVault

open ByteStrings Programs Contract

/-- Archives of the session are read back entry by entry. -/
def Tar.ReadsBack (tar : Tar) (session : Session) : Prop :=
  ∀ (fs : FileSystem) (directory : FsPath) (listing : List FsPath),
    (∀ path, fs.node (directory ++ path) = session path) → fs.Enumerates directory listing →
    tar.RoundTrips (archiveEntries (fs.nodesAt directory listing)).1

/-- The directory holds what comes back of the session, and nothing else. -/
def World.Resumes (env : Env) (w : World) (session : Session) (directory : FsPath) : Prop :=
  ∀ path, path ≠ [] → w.fs.node (directory ++ path) = (session path).bind (Node.restored env)

/-- The vault is one of the account. -/
structure UnlockedVault.Serves (store : VaultStore) (account : Account) (dataKey : Key)
    (vault : UnlockedVault) : Prop where
  username : vault.username = account.username
  statePath : vault.statePath = store.statePath account.username
  dataKey : vault.dataKey = dataKey

section

variable {lib : Libraries} {store : VaultStore} {uid : UInt32} {env : Env}
    {allowed : Oracle → Prop} {account : Account} {dataKey : Key} {session : Session}
    {w w' : World} {α : Type} {q : FsPath} {n : Node} {username : String} {password : Bytes}
    {userRoot runtime : FsPath} {vault : UnlockedVault}

theorem node_of_run {p : Prog Op Op.Reply α} {a : α} (hp : Uses (Op.Leaves env q) p)
    (hw : w.fs.node q = some n) (h : (machine env allowed).Runs p w a w') :
    w'.fs.node q = some n := node_of_cuts hp hw (cuts_of_runs h)

/-- The directory for a session is made where nothing lies. -/
theorem ensurePrivateDirectory_empty {path : FsPath} (hnone : w.fs.node path = none)
    (h : (machine env allowed).Runs (ensurePrivateDirectory env path).run w (.ok ()) w') :
    w'.fs.node path ≠ none ∧ ∀ rest, rest ≠ [] → w'.fs.node (path ++ rest) = none := by
  obtain ⟨attr, hattr, _⟩ := ensurePrivateDirectory_ok h
  refine ⟨by rw [hattr]; exact Option.some_ne_none _, fun rest hrest => ?_⟩
  have hnotAbove : ¬ path ++ rest <+: path := fun hpre =>
    hrest (List.self_eq_append_right.mp (hpre.eq_of_length_le (by simp)).symm)
  have hmakes : (Op.createDirectories path).Spares env (path ++ rest) := fun _ hchange =>
    hnotAbove hchange.1
  rw [node_of_runs (uses_ensurePrivateDirectory (fun _ h => h) hmakes) h]
  exact FileSystem.node_eq_none_below (List.prefix_append _ _) hnone

/-- **A session that is unsealed** comes back, and nothing else changes. -/
theorem SealedSession.resumes {contents : Bytes} {attr : Attr} {holes : Bool}
    {path destination : FsPath} (A : LawfulAead) (hA : lib.aead = A.toAead)
    (hsealed : SealedSession lib dataKey session contents) (htar : lib.tar.ReadsBack session)
    (hstate : w.fs.node path = some (.file attr contents holes))
    (hroot : w.fs.node destination ≠ none)
    (hempty : ∀ rest, rest ≠ [] → w.fs.node (destination ++ rest) = none)
    (h : (machine env allowed).Runs (unsealDirectory lib env path destination dataKey).run w
      (.ok ()) w') :
    w'.Resumes env session destination ∧
      ∀ q, (∀ rest, rest ≠ [] → q ≠ destination ++ rest) → w'.fs.node q = w.fs.node q := by
  obtain ⟨source, d, listing, seed, hsource, hlisting, htree⟩ := hsealed.sealed
  obtain ⟨hrestored, houtside⟩ := unsealDirectory_restores A hA hlisting htree
    (htar source d listing hsource hlisting) hstate hroot hempty h
  refine ⟨fun path hpath => ?_, houtside⟩
  rw [hrestored path hpath, hsource]

/-- **A runtime that is filled** holds the session of the state file. -/
theorem fillRuntime_resumes {contents : Bytes} {attr : Attr} {holes : Bool} (A : LawfulAead)
    (hA : lib.aead = A.toAead) (htar : lib.tar.ReadsBack session)
    (hsealed : SealedSession lib dataKey session contents)
    (hstate : w.fs.node (userRoot ++ ["state.cvlt"]) = some (.file attr contents holes))
    (hnone : w.fs.node (runtime ++ ["codex-home"]) = none)
    (h : (machine env allowed).Runs
      (VaultStore.fillRuntime lib env userRoot runtime dataKey).run w (.ok ()) w') :
    w'.Resumes env session (runtime ++ ["codex-home"]) := by
  obtain ⟨_, w1, hhome, hunseal⟩ := runs_ok_bind.mp h
  obtain ⟨hroot, hempty⟩ := ensurePrivateDirectory_empty hnone hhome
  have hleaves : Uses (Op.Leaves env (userRoot ++ ["state.cvlt"]))
      (ensurePrivateDirectory env (runtime ++ ["codex-home"])).run :=
    uses_ensurePrivateDirectory (leaves_of_readOnly _ fun _ _ h => h)
      (leaves_of_makes _ fun _ h => h.2)
  exact (hsealed.resumes A hA htar (node_of_run hleaves hstate hhome) hroot hempty hunseal).1

/-- The directory and the lock of a profile leave the files of profiles alone. -/
theorem lockProfile_leaves (hq : store.ProfileFile q) :
    Uses (Op.Leaves env q) (VaultStore.lockProfile env (store.userRoot username)).run :=
  (lockCalls_leave hq).lockProfile (leaves_of_readOnly _ fun _ _ h => h)

/-- **What the closure of an unlock hands out**, in a place where the account is stored. -/
theorem openProfile_serves {lock : Handle} (A : LawfulAead) (hA : lib.aead = A.toAead)
    (laws : TextLaws lib) (h : store.Stores lib uid account dataKey w.fs)
    (hname : toAsciiLowercase username = toAsciiLowercase account.username)
    (hother : password ≠ account.password → Unrelated lib account.password password)
    (hrun : (machine env allowed).Runs
      (store.openProfile lib env username password (store.userRoot username) lock).run w
      (.ok vault) w') :
    password = account.password ∧ vault.Serves store account dataKey ∧
      (lib.tar.ReadsBack account.session → w'.Resumes env account.session vault.codexHome) := by
  obtain ⟨manifest, w1, hread, hrest⟩ := runs_ok_bind.mp hrun
  obtain ⟨_, w2, hvalidated, hrest⟩ := runs_ok_bind.mp hrest
  obtain ⟨key, w3, hopened, hrest⟩ := runs_ok_bind.mp hrest
  obtain ⟨root, w4, hroot, hrest⟩ := runs_ok_bind.mp hrest
  obtain ⟨name, w5, hnamed, hrest⟩ := runs_ok_bind.mp hrest
  obtain ⟨_, w6, hmake, hrest⟩ := runs_ok_bind.mp hrest
  obtain ⟨_, w7, hfill, hpure⟩ := runs_ok_bind.mp hrest
  obtain ⟨heq, rfl⟩ := runs_run_pure.mp hpure
  cases heq
  obtain ⟨_, rfl⟩ := runs_ofExcept.mp hvalidated
  obtain ⟨hopen, rfl⟩ := runs_ofExcept.mp hopened
  obtain ⟨_, rfl⟩ := runs_ofExcept.mp hnamed
  have hpath : store.statePath username = store.statePath account.username :=
    VaultStore.statePath_congr hname
  -- the manifest in place
  obtain ⟨attr, contents, holes, hnode, hparse⟩ := readManifest_ok hread
  obtain ⟨hpassword, rfl, husername⟩ := h.opens A hA laws hother hnode hname hparse hopen.symm
  refine ⟨hpassword, ⟨husername, hpath, rfl⟩, fun htar => ?_⟩
  -- the state in place is that of the account until it is read
  obtain ⟨state, hstate, hsealed⟩ := h.state
  rw [← hpath] at hstate
  have hstate1 := (node_of_readOnly uses_readManifest_readOnly hread _).trans hstate
  have hstate4 := node_of_run leaves_chooseRuntimeRoot hstate1 hroot
  have hmakes : (Op.createDirectory (root ++ [name])).Leaves env (store.statePath username) :=
    leaves_of_makes _ fun _ h => h.2
  have hstate6 := node_of_run (uses_sys (uses_request hmakes)) hstate4 hmake
  -- the runtime is made where nothing was
  obtain ⟨hmissing, hmade⟩ := may_createDirectory_ok (runs_request.mp (runs_sys_ok.mp hmake))
  have hnone : w6.fs.node (root ++ [name] ++ ["codex-home"]) = none := by
    rw [hmade, if_neg fun heq => List.cons_ne_nil _ _ (List.self_eq_append_right.mp heq.symm)]
    exact FileSystem.node_eq_none_below (List.prefix_append _ _) hmissing
  exact fillRuntime_resumes A hA htar hsealed hstate6 hnone (runs_onError_ok.mp hfill)

/-- **What an unlock hands out** where the account is stored. -/
theorem unlock_serves (A : LawfulAead) (hA : lib.aead = A.toAead) (laws : TextLaws lib)
    (h : store.Stores lib uid account dataKey w.fs)
    (hname : toAsciiLowercase username = toAsciiLowercase account.username)
    (hother : password ≠ account.password → Unrelated lib account.password password)
    (hrun : (machine env allowed).Runs (store.unlock lib env username password).run w
      (.ok vault) w') :
    password = account.password ∧ vault.Serves store account dataKey ∧
      (lib.tar.ReadsBack account.session → w'.Resumes env account.session vault.codexHome) := by
  obtain ⟨_, w1, hvalidated, hrest⟩ := runs_ok_bind.mp hrun
  obtain ⟨lock, w2, hlock, hrest⟩ := runs_ok_bind.mp hrest
  obtain ⟨_, rfl⟩ := runs_ofExcept.mp hvalidated
  refine openProfile_serves A hA laws (h.congr fun q n hq hn => ?_) hname hother
    (runs_onError_ok.mp hrest)
  exact node_of_run (lockProfile_leaves (h.profileFile hq)) hn hlock

/-- The manifest that an unlock opens was in place when it began. -/
theorem unlock_manifest (hrun : (machine env allowed).Runs
      (store.unlock lib env username password).run w (.ok vault) w') :
    isValidUsername username = true ∧
      Node.IsFile (w.fs.node (store.manifestPath username)) := by
  obtain ⟨_, w1, hvalidated, hrest⟩ := runs_ok_bind.mp hrun
  obtain ⟨lock, w2, hlock, hrest⟩ := runs_ok_bind.mp hrest
  obtain ⟨manifest, w3, hread, _⟩ := runs_ok_bind.mp (runs_onError_ok.mp hrest)
  obtain ⟨hvalid, rfl⟩ := runs_ofExcept.mp hvalidated
  obtain ⟨attr, contents, holes, hnode, _⟩ := readManifest_ok hread
  have hspares : ∀ op : Op, op.AroundLock (store.userRoot username ++ ["active.lock"]) →
      op.Spares env (store.manifestPath username) := fun _ hop =>
    (hop.quiet (concat_ne (by decide)) (concat_ne (by decide)) :
      Op.Quiet env (store.manifestPath username) (store.statePath username) _).1
  have hkept := node_of_runs (uses_lockProfile (hspares _ trivial) (hspares _ rfl) (hspares _ rfl)
    (fun _ => hspares _ trivial) (hspares _ rfl) (hspares _ trivial) (hspares _ trivial)
    (fun _ => hspares _ rfl) (fun _ => hspares _ trivial)) hlock
  exact ⟨validateUsername_ok hvalid.symm, attr, contents, holes, hkept.symm.trans hnode⟩

end

end CodexVault
