import CodexVault.Acknowledgements

/-!
# What the store assures its users

The results about chronicles, for every sequence of calls, crashes and edits.  The store
holds the accounts on the books and nothing else, an unlock gives back the session that
was sealed last, and what is acknowledged is on the books.
-/

namespace CodexVault

open ByteStrings Programs Contract

section

variable {lib : Libraries} {store : VaultStore} {uid : UInt32} {known : Bytes → Prop}
    {env env' : Env} {allowed allowed' : Oracle → Prop} {accounts : List Account}
    {vaults : List UnlockedVault} {vault : UnlockedVault} {w w' w1 w2 : World}
    {directory root destination : FsPath} {username : String} {password : Bytes} {dataKey : Key}

/-! ## Calls that are acknowledged -/

theorem Account.revise_single {account : Account} {name : String} {change : Account → Account}
    (h : toAsciiLowercase account.username = toAsciiLowercase name) :
    Account.revise [account] name change = [change account] :=
  congrArg (· :: []) (if_pos h)

namespace Chronicle

/-- A creation goes on with a chronicle. -/
theorem creates (h : Chronicle lib allowed store uid known accounts vaults w) (huid : env.uid = uid)
    (hknown : known password)
    (hrun : (machine env allowed).Runs (store.addUser lib env username password).run w.begin
      (.ok ()) w') :
    Chronicle lib allowed store uid known (accounts ++ [⟨username, password, env.newSession⟩])
      vaults w' := by
  have hcall : (machine env allowed).Runs
      ((StoreCall.addUser username password).program lib env store) w.begin [] w' :=
    runs_bind.mpr ⟨_, w', hrun, rfl, rfl⟩
  have hknown' : ∀ p ∈ (StoreCall.addUser username password).passwords, known p := fun p hp =>
    List.mem_singleton.mp hp ▸ hknown
  have hnext := h.call huid hknown' (.nothing rfl) (fun _ h => nomatch h) hcall
  have hbooked : (StoreCall.addUser username password).booked env store accounts w w' =
      accounts ++ [⟨username, password, env.newSession⟩] := if_pos (tookEffect_of_addUser hrun)
  rwa [hbooked] at hnext

/-- An unlock. -/
theorem unlocks (h : Chronicle lib allowed store uid known accounts vaults w) (huid : env.uid = uid)
    (hknown : known password)
    (hrun : (machine env allowed).Runs (store.unlock lib env username password).run w.begin
      (.ok vault) w') :
    Chronicle lib allowed store uid known accounts (vault :: vaults) w' := by
  have hcall : (machine env allowed).Runs
      ((StoreCall.unlock username password).program lib env store) w.begin [vault] w' :=
    runs_bind.mpr ⟨_, w', hrun, rfl, rfl⟩
  have hknown' : ∀ p ∈ (StoreCall.unlock username password).passwords, known p := fun p hp =>
    List.mem_singleton.mp hp ▸ hknown
  exact h.call huid hknown' (.nothing rfl) (fun _ h => nomatch h) hcall

/-- A close. -/
theorem closes (h : Chronicle lib allowed store uid known accounts (vault :: vaults) w)
    (huid : env.uid = uid) (howner : vault.lock.process = env.process)
    (hrun : (machine env allowed).Runs (vault.close lib).run w.begin (.ok ()) w') :
    Chronicle lib allowed store uid known
      (Account.revise accounts vault.username
        fun account => { account with session := w.session vault.codexHome }) vaults w' := by
  have hcall : (machine env allowed).Runs ((StoreCall.close vault).program lib env store) w.begin
      [] w' := runs_bind.mpr ⟨_, w', hrun, rfl, rfl⟩
  have howner' : ∀ v, (StoreCall.close vault).vault? = some v →
      v.lock.process = env.process := fun v hv => Option.some.inj hv ▸ howner
  have hnone : ∀ p ∈ (StoreCall.close vault).passwords, known p := fun _ hp =>
    absurd hp List.not_mem_nil
  have hnext := h.call huid hnone (@StoreCall.Takes.vault _ vault [] vaults rfl)
    howner' hcall
  have hbooked : (StoreCall.close vault).booked env store accounts w w' =
      Account.revise accounts vault.username
        (fun account => { account with session := w.session vault.codexHome }) :=
    if_pos (tookEffect_of_close hrun)
  rwa [hbooked] at hnext

/-- A rotation. -/
theorem rotates {current new : Bytes}
    (h : Chronicle lib allowed store uid known accounts vaults w) (huid : env.uid = uid)
    (hcurrent : known current) (hnew : known new)
    (hrun : (machine env allowed).Runs (store.rotatePassword lib env username current new).run
      w.begin (.ok ()) w') :
    Chronicle lib allowed store uid known
      (Account.revise accounts username fun account => { account with password := new }) vaults
      w' := by
  have hcall : (machine env allowed).Runs
      ((StoreCall.rotatePassword username current new).program lib env store) w.begin [] w' :=
    runs_bind.mpr ⟨_, w', hrun, rfl, rfl⟩
  have hknown : ∀ p ∈ (StoreCall.rotatePassword username current new).passwords, known p := by
    intro p hp
    rcases List.mem_cons.mp hp with rfl | hp
    · exact hcurrent
    · exact List.mem_singleton.mp hp ▸ hnew
  have hnext := h.call huid hknown (.nothing rfl) (fun _ h => nomatch h) hcall
  have hbooked : (StoreCall.rotatePassword username current new).booked env store accounts w w' =
      Account.revise accounts username (fun account => { account with password := new }) :=
    if_pos (rotatePassword_ok hrun).1
  rwa [hbooked] at hnext

end Chronicle

/-! ## Sessions -/

/-- **A session that was sealed comes back**: whoever unseals it later, anywhere, with the
same key, finds each of its directories and files without holes, and nothing else. -/
theorem sealed_session_returns (A : LawfulAead) (hA : lib.aead = A.toAead)
    (hapart : ∀ id, ¬ directory <+: root ++ [stateTemporary lib id])
    (hseal : (machine env allowed).Runs
      (sealDirectory lib directory (root ++ ["state.cvlt"]) dataKey).run w (.ok ()) w1)
    (hkept : w2.fs.node (root ++ ["state.cvlt"]) = w1.fs.node (root ++ ["state.cvlt"]))
    (htar : lib.tar.ReadsBack (w.session directory)) (hroot : w2.fs.node destination ≠ none)
    (hempty : ∀ rest, rest ≠ [] → w2.fs.node (destination ++ rest) = none)
    (hunseal : (machine env' allowed').Runs
      (unsealDirectory lib env' (root ++ ["state.cvlt"]) destination dataKey).run w2 (.ok ()) w') :
    w'.Resumes env' (w.session directory) destination ∧
      ∀ q, (∀ rest, rest ≠ [] → q ≠ destination ++ rest) → w'.fs.node q = w2.fs.node q := by
  obtain ⟨id, contents, hsealed, hnodes⟩ := sealDirectory_session hapart hseal
  have hfile : w2.fs.node (root ++ ["state.cvlt"]) =
      some (.file (env.attr 0o600) contents false) := by
    rw [hkept, hnodes, if_pos rfl]
  exact hsealed.resumes A hA htar hfile hroot hempty hunseal

/-- A directory with two files, a place for its state and an empty directory. -/
def workingWorld : World where
  fs := FileSystem.holding ⟨1000, 0o755⟩
    [(["work"], .directory ⟨1000, 0o700⟩),
     (["work", "auth.json"], .file ⟨1000, 0o644⟩ [1, 2, 3] false),
     (["work", "log"], .directory ⟨1000, 0o750⟩),
     (["work", "log", "1"], .file ⟨1000, 0o600⟩ [4] false),
     (["vault"], .directory ⟨1000, 0o700⟩), (["back"], .directory ⟨1000, 0o700⟩)]
  locked _ := none
  nextSerial := 0
  history := []

/-- The seal of the directory. -/
def workingSeal (w : World) : Except VaultError Unit × World :=
  quietRun (sealDirectory (sampleLibraries listTar) ["work"] ["vault", "state.cvlt"]
    (FixedBytes.replicate 32 5)).run w

/-- The unseal of its state into the empty directory. -/
def workingUnseal (w : World) : Bool × World :=
  quietUnseal ["vault", "state.cvlt"] ["back"]
    (w.fs.nodesAt ["work"] (w.fs.listingOf ["work"])) (workingSeal w).2

theorem runs_workingSeal {w : World} (h : (workingSeal w).1.toOption.isSome = true) :
    (machine sampleEnv (ReadsClock 1)).Runs
      (sealDirectory (sampleLibraries listTar) ["work"] (["vault"] ++ ["state.cvlt"])
        (FixedBytes.replicate 32 5)).run w (.ok ()) (workingSeal w).2 :=
  runs_quietRun_unit h

theorem work_apart (id : Uuid) :
    ¬ ["work"] <+: ["vault"] ++ [stateTemporary (sampleLibraries listTar) id] :=
  fun hpre => absurd (List.cons_prefix_cons.mp hpre).1 (by decide)

theorem back_empty {w : World} (h : ∀ p ∈ w.fs.paths, ["back"] <+: p → p = ["back"])
    (rest : FsPath) (hrest : rest ≠ []) : w.fs.node (["back"] ++ rest) = none := by
  by_contra hnode
  have heq := h _ (w.fs.mem_paths hnode) (List.prefix_append _ _)
  exact hrest (List.self_eq_append_right.mp heq.symm)

/-- Sealing and unsealing return `Ok`, and what is unsealed goes into an empty directory. -/
def Returnable (w : World) : Prop :=
  (workingSeal w).1.toOption.isSome = true ∧ (workingSeal w).2.fs.node ["back"] ≠ none ∧
    (∀ p ∈ (workingSeal w).2.fs.paths, ["back"] <+: p → p = ["back"]) ∧
      (workingUnseal w).1 = true

instance (w : World) : Decidable (Returnable w) := inferInstanceAs (Decidable (_ ∧ _))

theorem returnable_workingWorld : Returnable workingWorld := by decide +kernel

/-- The theorem at a directory with a file, and a file below it. -/
theorem sealed_session_returns_file :
    (workingUnseal workingWorld).2.fs.node ["back", "auth.json"] =
        some (.file ⟨1000, 0o644⟩ [1, 2, 3] false) ∧
      (workingUnseal workingWorld).2.fs.node ["back", "log", "1"] =
        some (.file ⟨1000, 0o600⟩ [4] false) := by
  obtain ⟨hsealed, hthere, halone, hunsealed⟩ := returnable_workingWorld
  have hreturns := sealed_session_returns taggingAead rfl work_apart (runs_workingSeal hsealed) rfl
    (fun _ _ _ _ _ => roundTrips_listTar _) hthere (back_empty halone)
    (runs_quietUnseal hunsealed)
  exact ⟨hreturns.1 ["auth.json"] (List.cons_ne_nil _ _),
    hreturns.1 ["log", "1"] (List.cons_ne_nil _ _)⟩

/-! ## Files with holes -/

/-- The permission bits of a file or a directory, and what is in the file. -/
def Node.substance : Node → Option (Nat × Option Bytes)
  | .file attr contents _ => some (attr.mode &&& 0o777, some contents)
  | .directory attr => some (attr.mode &&& 0o777, none)
  | .symlink | .special _ _ => none

/-- The directory holds the files and the directories of the session, with the same contents
and the same permission bits, and nothing else. -/
def World.Returns (w : World) (session : Session) (directory : FsPath) : Prop :=
  ∀ path, path ≠ [] → (w.fs.node (directory ++ path)).map Node.substance =
    ((session path).bind Node.substance).map some

/-- No file of the session has holes. -/
def Session.Solid (session : Session) : Prop :=
  ∀ path, path ≠ [] → ∀ attr contents, session path ≠ some (.file attr contents true)

theorem returns_iff_solid {session : Session} (h : w'.Resumes env session destination) :
    w'.Returns session destination ↔ Session.Solid session := by
  constructor
  · intro hreturns path hpath attr contents hholes
    have hsubstance := hreturns path hpath
    rw [h path hpath, hholes] at hsubstance
    cases hsubstance
  · intro hsolid path hpath
    rw [h path hpath]
    cases hnode : session path with
    | none => rfl
    | some n =>
        cases n with
        | file attr contents holes =>
            cases holes with
            | true => exact absurd hnode (hsolid path hpath attr contents)
            | false => simp [Node.restored, Node.substance, Env.attr, Nat.and_assoc]
        | directory attr => simp [Node.restored, Node.substance, Env.attr, Nat.and_assoc]
        | symlink => rfl
        | special kind attr => rfl

/-- **A tree survives sealing** exactly when none of its files has holes: those are archived
as sparse files, and the extraction passes over them without an error. -/
theorem sealed_tree_returns_iff (A : LawfulAead) (hA : lib.aead = A.toAead)
    (hapart : ∀ id, ¬ directory <+: root ++ [stateTemporary lib id])
    (hseal : (machine env allowed).Runs
      (sealDirectory lib directory (root ++ ["state.cvlt"]) dataKey).run w (.ok ()) w1)
    (hkept : w2.fs.node (root ++ ["state.cvlt"]) = w1.fs.node (root ++ ["state.cvlt"]))
    (htar : lib.tar.ReadsBack (w.session directory)) (hroot : w2.fs.node destination ≠ none)
    (hempty : ∀ rest, rest ≠ [] → w2.fs.node (destination ++ rest) = none)
    (hunseal : (machine env' allowed').Runs
      (unsealDirectory lib env' (root ++ ["state.cvlt"]) destination dataKey).run w2 (.ok ()) w') :
    w'.Returns (w.session directory) destination ↔ Session.Solid (w.session directory) := by
  obtain ⟨id, contents, hsealed, hnodes⟩ := sealDirectory_session hapart hseal
  have hfile : w2.fs.node (root ++ ["state.cvlt"]) =
      some (.file (env.attr 0o600) contents false) := by
    rw [hkept, hnodes, if_pos rfl]
  exact returns_iff_solid (hsealed.resumes A hA htar hfile hroot hempty hunseal).1

/-- The same directory, with a file that has holes and a link. -/
def sparseWorld : World :=
  { workingWorld with
    fs := (workingWorld.fs.place ["work", "log", "cache"]
      (.file ⟨1000, 0o600⟩ [0, 0, 7] true)).place ["work", "link"] .symlink }

theorem returnable_sparseWorld : Returnable sparseWorld ∧
    (workingUnseal sparseWorld).2.fs.node (["back"] ++ ["log", "cache"]) = none := by
  decide +kernel

theorem node_sparseWorld : sparseWorld.fs.node ["work", "log", "cache"] =
    some (.file ⟨1000, 0o600⟩ [0, 0, 7] true) := rfl

theorem solid_workingWorld : Session.Solid (workingWorld.session ["work"]) := by
  intro path _ attr contents hnode
  have hrestored : ∀ p ∈ workingWorld.fs.paths, ∀ n ∈ workingWorld.fs.node p,
      n.restored sampleEnv ≠ none := by decide
  have hthere := workingWorld.fs.mem_paths (Option.ne_none_iff_exists'.mpr ⟨_, hnode⟩)
  exact hrestored _ hthere _ hnode rfl

/-- The theorem at a directory with two files, and at one with a file that has holes. -/
theorem sealed_tree_returns_iff_sample :
    (workingUnseal workingWorld).2.Returns (workingWorld.session ["work"]) ["back"] ∧
      ¬ (workingUnseal sparseWorld).2.Returns (sparseWorld.session ["work"])
        ["back"] := by
  constructor
  · obtain ⟨hsealed, hthere, halone, hunsealed⟩ := returnable_workingWorld
    have hplain := sealed_tree_returns_iff taggingAead rfl work_apart (runs_workingSeal hsealed)
      rfl (fun _ _ _ _ _ => roundTrips_listTar _) hthere (back_empty halone)
      (runs_quietUnseal hunsealed)
    exact hplain.mpr solid_workingWorld
  · obtain ⟨⟨hsealed, hthere, halone, hunsealed⟩, _⟩ := returnable_sparseWorld
    have hsparse := sealed_tree_returns_iff taggingAead rfl work_apart (runs_workingSeal hsealed)
      rfl (fun _ _ _ _ _ => roundTrips_listTar _) hthere (back_empty halone)
      (runs_quietUnseal hunsealed)
    exact fun hreturns => hsparse.mp hreturns _ (List.cons_ne_nil _ _) _ _ node_sparseWorld

/-- A file with holes is lost, although sealing and unsealing both return `Ok`. -/
theorem sparse_file_lost :
    (machine sampleEnv (ReadsClock 1)).Runs
        (sealDirectory (sampleLibraries listTar) ["work"] ["vault", "state.cvlt"]
          (FixedBytes.replicate 32 5)).run sparseWorld (.ok ()) (workingSeal sparseWorld).2 ∧
      (machine sampleEnv (ReadsClock 1)).Runs
        (unsealDirectory (sampleLibraries listTar) sampleEnv ["vault", "state.cvlt"] ["back"]
          (FixedBytes.replicate 32 5)).run (workingSeal sparseWorld).2 (.ok ())
        (workingUnseal sparseWorld).2 ∧
      sparseWorld.fs.node ["work", "log", "cache"] =
        some (.file ⟨1000, 0o600⟩ [0, 0, 7] true) ∧
      (workingUnseal sparseWorld).2.fs.node ["back", "log", "cache"] = none ∧
      ¬ (workingUnseal sparseWorld).2.Returns (sparseWorld.session ["work"])
        ["back"] := by
  obtain ⟨⟨hsealed, _, _, hunsealed⟩, hgone⟩ := returnable_sparseWorld
  refine ⟨runs_workingSeal hsealed, runs_quietUnseal hunsealed, node_sparseWorld, hgone,
    fun hreturns => ?_⟩
  have hsubstance := hreturns ["log", "cache"] (List.cons_ne_nil _ _)
  rw [hgone, show sparseWorld.session ["work"] ["log", "cache"] = _ from node_sparseWorld]
    at hsubstance
  cases hsubstance

/-! ## Chronicles -/

/-- The passwords of the sample chronicle. -/
def SamplePassword (password : Bytes) : Prop :=
  password = samplePassword ∨ password = sampleNewPassword

theorem unrelated_samplePasswords (p q : Bytes) (hp : SamplePassword p) (hq : SamplePassword q)
    (hne : p ≠ q) : Unrelated (sampleLibraries listTar) p q := by
  rcases hp with rfl | rfl
  · rcases hq with rfl | rfl
    · exact absurd rfl hne
    · exact unrelated_sample (by decide)
  · rcases hq with rfl | rfl
    · exact unrelated_sample (by decide)
    · exact absurd rfl hne

theorem sane_readsClock : Sane (ReadsClock 1) :=
  ⟨fun _ h => h.2, fun oracle h hzero => by rw [h.1] at hzero; cases hzero⟩

/-- A file is written in the session. -/
def firstWork : World :=
  { firstUnlock.2.2 with
    fs := firstUnlock.2.2.fs.place (firstUnlock.2.1.codexHome ++ ["auth.json"])
      (.file ⟨1000, 0o644⟩ [1, 2, 3] false) }

/-- The session is closed. -/
def firstClose : Except VaultError Unit × World :=
  quietRun (firstUnlock.2.1.close (sampleLibraries listTar)).run firstWork.begin

/-- The password of the user is changed, under another spelling. -/
def firstRotation : Except VaultError Unit × World :=
  quietRun (sampleStore.rotatePassword (sampleLibraries listTar) sampleEnv "BOB" samplePassword
    sampleNewPassword).run firstClose.2.begin

/-- The account of the user. -/
def bob (password : Bytes) (session : Session) : Account := ⟨"Bob", password, session⟩

/-- The session the user has worked in. -/
def firstSession : Session := firstWork.session firstUnlock.2.1.codexHome

theorem bob_session {password : Bytes} {session session' : Session} :
    { bob password session with session := session' } = bob password session' := rfl

theorem bob_password {password password' : Bytes} {session : Session} :
    { bob password session with password := password' } = bob password' session := rfl

theorem bob_username {password : Bytes} {session : Session} :
    (bob password session).username = "Bob" := rfl

/-- Files that are put into the session. -/
theorem edited_place {w : World} {directory rest : FsPath} {n : Node}
    (hdirectory : (w.fs.place (directory ++ rest) n).isDirectory directory = true) :
    w.Edited directory { w with fs := w.fs.place (directory ++ rest) n } := by
  refine ⟨fun q hq => FileSystem.node_place_of_ne ?_, hdirectory, rfl⟩
  rintro rfl
  exact hq (List.prefix_append _ _)

theorem runs_firstClose : (machine sampleEnv (ReadsClock 1)).Runs
    (firstUnlock.2.1.close (sampleLibraries listTar)).run firstWork.begin (.ok ()) firstClose.2 :=
  runs_quietRun_unit (by decide +kernel)

theorem runs_firstRotation : (machine sampleEnv (ReadsClock 1)).Runs
    (sampleStore.rotatePassword (sampleLibraries listTar) sampleEnv "BOB" samplePassword
      sampleNewPassword).run firstClose.2.begin (.ok ()) firstRotation.2 :=
  runs_quietRun_unit (by decide +kernel)

/-- The user is on the books. -/
theorem chronicle_firstAccount :
    Chronicle (sampleLibraries listTar) (ReadsClock 1) sampleStore 1000 SamplePassword
      [bob samplePassword sampleEnv.newSession] [] firstAccount.2 := by
  have hempty : ∀ rest, rest ≠ [] → freshWorld.fs.node (sampleStore.root ++ rest) = none := by
    intro rest hrest
    have hpaths : ∀ p ∈ freshWorld.fs.paths, ["vault"] <+: p → p = ["vault"] := by decide
    by_contra hnode
    have heq := hpaths _ (freshWorld.fs.mem_paths hnode) (List.prefix_append _ _)
    exact hrest (List.self_eq_append_right.mp heq.symm)
  exact Chronicle.creates (.start hempty) rfl (.inl rfl) runs_firstAccount

theorem firstUnlock_vault :
    (firstUnlock.2.2.fs.place (firstUnlock.2.1.codexHome ++ ["auth.json"])
        (.file ⟨1000, 0o644⟩ [1, 2, 3] false)).isDirectory firstUnlock.2.1.codexHome = true ∧
      firstUnlock.2.1.username = "Bob" ∧ firstUnlock.2.1.lock.process = sampleEnv.process := by
  decide +kernel

/-- The session is open, and somebody has worked in it. -/
theorem chronicle_firstWork :
    Chronicle (sampleLibraries listTar) (ReadsClock 1) sampleStore 1000 SamplePassword
      [bob samplePassword sampleEnv.newSession] [firstUnlock.2.1] firstWork := by
  have hopened := chronicle_firstAccount.unlocks rfl (.inl rfl) runs_firstUnlock
  exact .edit hopened List.mem_cons_self (edited_place firstUnlock_vault.1)

/-- The session is on the books. -/
theorem chronicle_firstClose :
    Chronicle (sampleLibraries listTar) (ReadsClock 1) sampleStore 1000 SamplePassword
      [bob samplePassword firstSession] [] firstClose.2 := by
  have hname : toAsciiLowercase (bob samplePassword sampleEnv.newSession).username =
      toAsciiLowercase firstUnlock.2.1.username := by
    rw [bob_username, firstUnlock_vault.2.1]
  have hclosed := chronicle_firstWork.closes rfl firstUnlock_vault.2.2 runs_firstClose
  rwa [Account.revise_single hname, bob_session] at hclosed

/-- The new password is on the books. -/
theorem chronicle_firstRotation :
    Chronicle (sampleLibraries listTar) (ReadsClock 1) sampleStore 1000 SamplePassword
      [bob sampleNewPassword firstSession] [] firstRotation.2 := by
  have hname : toAsciiLowercase (bob samplePassword firstSession).username =
      toAsciiLowercase "BOB" := by
    rw [bob_username]
    decide
  have hrotated := chronicle_firstClose.rotates rfl (.inl rfl) (.inr rfl) runs_firstRotation
  rwa [Account.revise_single hname, bob_password] at hrotated

/-- **The store holds what is on the books.**  Its profiles are those of the accounts, one
for each name.  An account is opened by its password and by no other that is known, under
every spelling of its name; and the key in its manifest opens its state, which is the
session on the books. -/
theorem chronicle_represented (A : LawfulAead) (hA : lib.aead = A.toAead) (laws : TextLaws lib)
    (names : UuidNames lib) (sane : Sane allowed)
    (hunrelated : ∀ p q, known p → known q → p ≠ q → Unrelated lib p q)
    (h : Chronicle lib allowed store uid known accounts vaults w) :
    (∀ name, ¬ Dotted name →
      (Node.IsFile (w.fs.node (store.usersRoot ++ [name, "manifest.json"])) ↔
        ∃ account ∈ accounts, toAsciiLowercase account.username = name)) ∧
    (accounts.map fun account => toAsciiLowercase account.username).Nodup ∧
    ∀ account ∈ accounts,
      (∀ username password, toAsciiLowercase username = toAsciiLowercase account.username →
        known password →
          (w.Authenticates lib store username password ↔ password = account.password)) ∧
      ∃ manifest m state dataKey,
        w.contents (store.manifestPath account.username) = some manifest ∧
        parseManifest lib manifest = .ok m ∧ m.username = account.username ∧
        openManifest lib account.username account.password m = .ok dataKey ∧
        w.contents (store.statePath account.username) = some state ∧
        SealedSession lib dataKey account.session state := by
  obtain ⟨hkept, hbooks⟩ := h.kept A hA laws names sane hunrelated
  refine ⟨fun name hname => ⟨fun hfile => ?_, ?_⟩, distinct_of_kept hkept, fun account hmem => ?_⟩
  · obtain ⟨u, hu, rfl⟩ := hkept.catalogued.mem_of_isFile hname hfile
    obtain ⟨account, hmem, rfl⟩ := List.mem_map.mp hu
    exact ⟨account, hmem, rfl⟩
  · rintro ⟨account, hmem, rfl⟩
    obtain ⟨_, _, hstores, _⟩ := hbooks.stored account hmem
    obtain ⟨m, hnode, _⟩ := hstores.manifest
    rw [VaultStore.manifestPath_eq] at hnode
    exact ⟨_, _, _, hnode⟩
  · obtain ⟨hknown, dataKey, hstores, _⟩ := hbooks.stored account hmem
    obtain ⟨m, hnode, hparse, husername, hwrapped⟩ := hstores.parse A hA laws
    obtain ⟨state, hstate, hsealed⟩ := hstores.state
    refine ⟨fun username password hname hpassword => ⟨fun hauth => ?_, ?_⟩, ?_⟩
    · obtain ⟨contents, m', key, hcontents, hparse', hopen⟩ := hauth
      unfold World.contents at hcontents
      split at hcontents
      · next attr bytes holes hfile =>
          cases hcontents
          exact (hstores.opens A hA laws (fun hne => hunrelated _ _ hknown hpassword hne.symm) hfile
            hname hparse' hopen).1
      · cases hcontents
    · rintro rfl
      exact hstores.authenticates A hA laws hname
    · refine ⟨_, m, state, dataKey, ?_, hparse, husername, ?_, ?_, hsealed⟩
      · unfold World.contents
        rw [hnode]
      · refine openManifest_wrappedFor A hA hwrapped ?_
        exact eqIgnoreAsciiCase_iff.mpr (congrArg toAsciiLowercase husername)
      · unfold World.contents
        rw [hstate]

/-- The theorem at a store with one user, under another spelling: the new password opens
the profile, and the old one does not. -/
theorem chronicle_represented_bob :
    firstRotation.2.Authenticates (sampleLibraries listTar) sampleStore "BOB" sampleNewPassword ∧
      ¬ firstRotation.2.Authenticates (sampleLibraries listTar) sampleStore "BOB"
        samplePassword := by
  obtain ⟨_, _, haccounts⟩ := chronicle_represented taggingAead rfl (textLaws_sample listTar)
    (uuidNames_sample listTar) sane_readsClock unrelated_samplePasswords chronicle_firstRotation
  have hopens := (haccounts _ List.mem_cons_self).1
  have hname : toAsciiLowercase "BOB" =
      toAsciiLowercase (bob sampleNewPassword firstSession).username := by
    rw [bob_username]
    decide
  refine ⟨(hopens "BOB" sampleNewPassword hname (.inr rfl)).mpr rfl, fun hold => ?_⟩
  exact absurd ((hopens "BOB" samplePassword hname (.inl rfl)).mp hold) (by decide)

/-- **An unlock that succeeds** after any chronicle was given the password of an account,
and hands out its session as it was sealed last. -/
theorem chronicle_unlocks (A : LawfulAead) (hA : lib.aead = A.toAead) (laws : TextLaws lib)
    (names : UuidNames lib) (sane : Sane allowed)
    (hunrelated : ∀ p q, known p → known q → p ≠ q → Unrelated lib p q)
    (h : Chronicle lib allowed store uid known accounts vaults w) (hknown : known password)
    (hrun : (machine env allowed).Runs (store.unlock lib env username password).run w.begin
      (.ok vault) w') :
    ∃ account ∈ accounts, toAsciiLowercase username = toAsciiLowercase account.username ∧
      password = account.password ∧ vault.username = account.username ∧
      (lib.tar.ReadsBack account.session → w'.Resumes env account.session vault.codexHome) := by
  obtain ⟨hkept, hbooks⟩ := h.kept A hA laws names sane hunrelated
  obtain ⟨account, hmem, hname, hpassword, husername, _, hresumes, _⟩ :=
    VaultStore.Books.unlocks (w := w.begin) A hA laws hknown hunrelated hbooks hkept.catalogued hrun
  exact ⟨account, hmem, hname, hpassword, husername, hresumes⟩

/-- The next unlock of the user. -/
def nextUnlock : Bool × UnlockedVault × World :=
  quietUnlock "bob" sampleNewPassword
    [⟨[], .directory ⟨1000, 0o700⟩⟩, ⟨["auth.json"], .file ⟨1000, 0o644⟩ [1, 2, 3] false⟩]
    firstRotation.2.begin

/-- The theorem at the next unlock of the user, who finds the file again. -/
theorem chronicle_unlocks_bob :
    (machine sampleEnv (ReadsClock 1)).Runs
        (sampleStore.unlock (sampleLibraries listTar) sampleEnv "bob" sampleNewPassword).run
        firstRotation.2.begin (.ok nextUnlock.2.1) nextUnlock.2.2 ∧
      nextUnlock.2.1.username = "Bob" ∧
      nextUnlock.2.2.fs.node (nextUnlock.2.1.codexHome ++ ["auth.json"]) =
        some (.file ⟨1000, 0o644⟩ [1, 2, 3] false) := by
  have hrun : (machine sampleEnv (ReadsClock 1)).Runs
      (sampleStore.unlock (sampleLibraries listTar) sampleEnv "bob" sampleNewPassword).run
      firstRotation.2.begin (.ok nextUnlock.2.1) nextUnlock.2.2 :=
    runs_quietUnlock (by decide +kernel : nextUnlock.1 = true)
  obtain ⟨account, hmem, _, _, husername, hresumes⟩ :=
    chronicle_unlocks taggingAead rfl (textLaws_sample listTar) (uuidNames_sample listTar)
      sane_readsClock unrelated_samplePasswords chronicle_firstRotation (.inr rfl) hrun
  rw [List.mem_singleton.mp hmem] at husername hresumes
  refine ⟨hrun, husername, ?_⟩
  have hsession : (bob sampleNewPassword firstSession).session ["auth.json"] =
      some (.file ⟨1000, 0o644⟩ [1, 2, 3] false) := by decide +kernel
  rw [hresumes (fun _ _ _ _ _ => roundTrips_listTar _) ["auth.json"] (List.cons_ne_nil _ _),
    hsession]
  rfl

/-- **What is acknowledged is on the books.**  After any chronicle, a creation that returns
`Ok` adds an account that was not there, with an empty session; a rotation that returns
`Ok` was given the password of an account and changes it; and a close that returns `Ok`
gives an account the session that lies in the runtime. -/
theorem acknowledged_booked (A : LawfulAead) (hA : lib.aead = A.toAead) (laws : TextLaws lib)
    (names : UuidNames lib) (sane : Sane allowed)
    (hunrelated : ∀ p q, known p → known q → p ≠ q → Unrelated lib p q)
    (h : Chronicle lib allowed store uid known accounts vaults w) (huid : env.uid = uid) :
    (∀ username password w', known password →
      (machine env allowed).Runs (store.addUser lib env username password).run w.begin (.ok ())
        w' →
      (StoreCall.addUser username password).booked env store accounts w w' =
          accounts ++ [⟨username, password, env.newSession⟩] ∧
        ∀ account ∈ accounts, toAsciiLowercase account.username ≠ toAsciiLowercase username) ∧
    (∀ username current new w', known current →
      (machine env allowed).Runs (store.rotatePassword lib env username current new).run w.begin
        (.ok ()) w' →
      (StoreCall.rotatePassword username current new).booked env store accounts w w' =
          Account.revise accounts username (fun account => { account with password := new }) ∧
        ∃ account ∈ accounts, toAsciiLowercase account.username = toAsciiLowercase username ∧
          account.password = current) ∧
    ∀ vault ∈ vaults, ∀ w', (machine env allowed).Runs (vault.close lib).run w.begin (.ok ()) w' →
      (StoreCall.close vault).booked env store accounts w w' =
          Account.revise accounts vault.username
            (fun account => { account with session := w.session vault.codexHome }) ∧
        ∃ account ∈ accounts, account.username = vault.username := by
  obtain ⟨hkept, hbooks⟩ := h.kept A hA laws names sane hunrelated
  refine ⟨fun username password w' hknown hrun => ?_,
    fun username current new w' hknown hrun => ?_, fun vault hmem w' hrun => ?_⟩
  · have hbooked : (StoreCall.addUser username password).booked env store accounts w w' =
        accounts ++ [⟨username, password, env.newSession⟩] :=
      if_pos (tookEffect_of_addUser hrun)
    have hnext := (h.creates huid hknown hrun).kept A hA laws names sane hunrelated
    have hdistinct := distinct_of_kept hnext.1
    rw [List.map_append, List.nodup_append] at hdistinct
    exact ⟨hbooked, fun account hmem => hdistinct.2.2 _ (List.mem_map_of_mem hmem) _
      (List.mem_singleton_self _)⟩
  · obtain ⟨heffect, hvalid, attr, contents, holes, m, key, hnode, hparse, hopen⟩ :=
      rotatePassword_ok hrun
    refine ⟨if_pos heffect, ?_⟩
    have hfile : Node.IsFile (w.fs.node
        (store.usersRoot ++ [toAsciiLowercase username, "manifest.json"])) := by
      rw [← VaultStore.manifestPath_eq]
      exact ⟨attr, contents, holes, hnode⟩
    obtain ⟨name, hname, hsame⟩ :=
      hkept.catalogued.mem_of_isFile (not_dotted_of_isValidUsername hvalid) hfile
    obtain ⟨account, hmem, rfl⟩ := List.mem_map.mp hname
    obtain ⟨hpassword, dataKey, hstores, _⟩ := hbooks.stored account hmem
    have hopens := hstores.opens A hA laws
      (fun hne => hunrelated _ _ hpassword hknown hne.symm) hnode hsame.symm hparse hopen
    exact ⟨account, hmem, hsame, hopens.1.symm⟩
  · obtain ⟨account, haccount, husername, _⟩ := hbooks.opened vault hmem
    exact ⟨if_pos (tookEffect_of_close hrun), account, haccount, husername.symm⟩

/-- The creation of a second user, while the session of the first is open. -/
def secondAccount : Except VaultError Unit × World :=
  quietRun (sampleStore.addUser (sampleLibraries listTar) sampleEnv "Al" sampleNewPassword).run
    firstWork.begin

/-- The theorem at a creation and a close beside an open session, and at a rotation. -/
theorem acknowledged_booked_bob :
    (StoreCall.addUser "Al" sampleNewPassword).booked sampleEnv sampleStore
        [bob samplePassword sampleEnv.newSession] firstWork secondAccount.2 =
          [bob samplePassword sampleEnv.newSession,
            ⟨"Al", sampleNewPassword, sampleEnv.newSession⟩] ∧
      (StoreCall.close firstUnlock.2.1).booked sampleEnv sampleStore
        [bob samplePassword sampleEnv.newSession] firstWork firstClose.2 =
          Account.revise [bob samplePassword sampleEnv.newSession] firstUnlock.2.1.username
            (fun account => { account with session := firstSession }) ∧
      (StoreCall.rotatePassword "BOB" samplePassword sampleNewPassword).booked sampleEnv
        sampleStore [bob samplePassword firstSession] firstClose.2 firstRotation.2 =
          Account.revise [bob samplePassword firstSession] "BOB"
            (fun account => { account with password := sampleNewPassword }) := by
  have huid : sampleEnv.uid = 1000 := rfl
  obtain ⟨hcreation, _, hclose⟩ := acknowledged_booked taggingAead rfl (textLaws_sample listTar)
    (uuidNames_sample listTar) sane_readsClock unrelated_samplePasswords chronicle_firstWork huid
  obtain ⟨_, hrotation, _⟩ := acknowledged_booked taggingAead rfl (textLaws_sample listTar)
    (uuidNames_sample listTar) sane_readsClock unrelated_samplePasswords chronicle_firstClose huid
  have hcreated : secondAccount.1.toOption.isSome = true := by decide +kernel
  refine ⟨?_, ?_, ?_⟩
  · exact (hcreation "Al" sampleNewPassword _ (.inr rfl) (runs_quietRun_unit hcreated)).1
  · exact (hclose _ List.mem_cons_self _ runs_firstClose).1
  · exact (hrotation "BOB" samplePassword sampleNewPassword _ (.inl rfl) runs_firstRotation).1

end

end CodexVault
