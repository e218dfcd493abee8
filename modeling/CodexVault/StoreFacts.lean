import CodexVault.ManifestFacts
import CodexVault.SealedArchive
import CodexVault.StoreCalls
import CodexVault.SystemCallFacts

/-!
# What the functions of the store do

One lemma for each function that later results use: what holds when it succeeds,
and which paths it leaves alone.  The names of temporary directories begin with a dot,
and those of profiles do not.
-/

namespace CodexVault

open ByteStrings Programs Contract

variable {lib : Libraries} {env : Env} {allowed : Oracle → Prop} {w w' : World}

/-! ## Names with a dot in front -/

/-- The name begins with a dot, as those `tempfile` chooses do. -/
def Dotted (name : String) : Prop := name.toList.head? = some '.'

instance (name : String) : Decidable (Dotted name) := by
  unfold Dotted
  infer_instance

theorem toLower_eq_dot {c : Char} (h : c.toLower = '.') : c = '.' := by
  unfold Char.toLower at h
  split at h
  · next hupper =>
      have hval := congrArg (fun c : Char => c.val.toNat) h
      obtain ⟨hlow, hhigh⟩ := hupper
      have hlow' := UInt32.le_iff_toNat_le.mp hlow
      have hhigh' := UInt32.le_iff_toNat_le.mp hhigh
      simp [UInt32.toNat_add] at hval hlow' hhigh'
      omega
  · exact h

/-- A username is not mistaken for a temporary name. -/
theorem not_dotted_of_isValidUsername {username : String}
    (h : isValidUsername username = true) : ¬ Dotted (toAsciiLowercase username) := by
  intro hdot
  unfold Dotted toAsciiLowercase at hdot
  rw [String.toList_ofList] at hdot
  cases hchars : username.toList with
  | nil =>
      rw [hchars] at hdot
      cases hdot
  | cons c rest =>
      rw [hchars] at hdot
      have hc : c = '.' := toLower_eq_dot (Option.some.inj hdot)
      have htext : textBytes username = 46 :: rest.flatMap String.utf8EncodeChar := by
        rw [← String.ofList_toList (s := username), hchars, textBytes_ofList, hc]
        rfl
      unfold isValidUsername at h
      rw [htext] at h
      simp [isAsciiAlphanumeric] at h

/-- The temporary directories the machine makes have dotted names. -/
def Oracle.Dotted (oracle : Oracle) : Prop := CodexVault.Dotted oracle.name

/-- A path that ends in a dotted name is above no path it does not end. -/
theorem not_prefix_of_dotted {parent q : FsPath} {hidden name : String} (hhidden : Dotted hidden)
    (hname : ¬ Dotted name) (hq : ¬ parent ++ [hidden] <+: q) :
    ¬ parent ++ [hidden] <+: q ++ [name] := by
  intro hpre
  rcases List.prefix_concat_iff.mp hpre with heq | habove
  · obtain ⟨_, hlast⟩ := List.append_inj' heq rfl
    exact hname (List.singleton_inj.mp hlast ▸ hhidden)
  · exact hq habove

/-! ## The functions -/

/-- A call that never changes a file. -/
def Op.ReadOnly (env : Env) (op : Op) : Prop := ∀ q fs, ¬ op.MayChange env fs q

/-- A program of such calls changes nothing. -/
theorem node_of_readOnly {α : Type} {p : Prog Op Op.Reply α} {a : α}
    (hp : Uses (Op.ReadOnly env) p) (hrun : (machine env allowed).Runs p w a w') (q : FsPath) :
    w'.fs.node q = w.fs.node q :=
  node_of_runs (hp.mono fun _ hop => hop q) hrun

/-- What a private file is. -/
theorem validatePrivateFile_ok {path : FsPath} {status : FileStatus}
    (h : (machine env allowed).Runs (validatePrivateFile env path).run w (.ok status) w') :
    w'.fs = w.fs ∧ ∃ attr contents holes, w.fs.node path = some (.file attr contents holes) ∧
      attr.owner = env.uid ∧ attr.mode &&& 0o077 = 0 ∧ status.len = contents.length := by
  obtain ⟨status', w1, hstat, hrest⟩ := runs_ok_bind.mp h
  obtain ⟨hfs, n, hnode, rfl⟩ := may_lstat_ok (runs_request.mp (runs_sys_ok.mp hstat))
  obtain ⟨_, w2, hone, hpure⟩ := runs_ok_bind.mp hrest
  obtain ⟨hcheck, rfl⟩ := runs_ofExcept.mp hone
  obtain ⟨heq, rfl⟩ := runs_run_pure.mp hpure
  cases heq
  refine ⟨hfs, ?_⟩
  unfold checkPrivateFile at hcheck
  split at hcheck
  · cases hcheck
  · next hfile =>
      split at hcheck
      · cases hcheck
      · next hprivate =>
          cases n with
          | file attr contents holes =>
              obtain ⟨howner, hmode⟩ := not_or.mp hprivate
              exact ⟨attr, contents, holes, hnode, not_not.mp howner, not_not.mp hmode, rfl⟩
          | directory attr => exact absurd rfl hfile
          | symlink => exact absurd rfl hfile
          | special kind => exact absurd rfl hfile

/-- What a private directory is. -/
theorem validatePrivateDirectory_ok {path : FsPath}
    (h : (machine env allowed).Runs (validatePrivateDirectory env path).run w (.ok ()) w') :
    w'.fs = w.fs ∧ ∃ attr, w.fs.node path = some (.directory attr) ∧
      attr.owner = env.uid ∧ attr.mode &&& 0o077 = 0 := by
  obtain ⟨status, w1, hstat, hone⟩ := runs_ok_bind.mp h
  obtain ⟨hfs, n, hnode, rfl⟩ := may_lstat_ok (runs_request.mp (runs_sys_ok.mp hstat))
  obtain ⟨hcheck, rfl⟩ := runs_ofExcept.mp hone
  obtain ⟨hdir, howner, hmode⟩ := checkPrivateDirectory_ok hcheck.symm
  refine ⟨hfs, ?_⟩
  cases n with
  | directory attr => exact ⟨attr, hnode, howner, hmode⟩
  | file attr contents holes => cases hdir
  | symlink => cases hdir
  | special kind => cases hdir

/-- A manifest that is accepted was read whole. -/
theorem parseManifest_of_readLimited {file : Bytes × Option TransferFault}
    {contents read : Bytes} {manifest : UserManifest}
    (hfile : file = (contents, none) ∨ ∃ fault, fault.kind ≠ .interrupted ∧
      file = (contents.take fault.after, some fault))
    (hread : readLimited (manifestSizeLimit + 1) file = .ok read)
    (hparse : parseManifest lib read = .ok manifest) :
    parseManifest lib contents = .ok manifest := by
  have hshort : read.length ≤ manifestSizeLimit := by
    unfold parseManifest at hparse
    split at hparse
    · cases hparse
    · omega
  rcases hfile with rfl | ⟨fault, _, rfl⟩
  · have htake : contents.take (manifestSizeLimit + 1) = read := Except.ok.inj hread
    rw [← htake, List.length_take] at hshort
    rw [List.take_of_length_le (by omega)] at htake
    rwa [htake]
  · unfold readLimited at hread
    dsimp only at hread
    split at hread
    · cases hread
    · next hlong =>
        have htake := Except.ok.inj hread
        have hlen := congrArg List.length htake
        rw [List.length_take] at hlen
        omega

theorem uses_readManifest_readOnly {userRoot : FsPath} :
    Uses (Op.ReadOnly env) (readManifest lib env userRoot).run :=
  uses_readManifest (fun _ _ h => h) (fun _ _ h => h)

/-- What `read_manifest` returns is what the file holds. -/
theorem readManifest_ok {userRoot : FsPath} {manifest : UserManifest}
    (h : (machine env allowed).Runs (readManifest lib env userRoot).run w (.ok manifest) w') :
    ∃ attr contents holes,
      w.fs.node (userRoot ++ ["manifest.json"]) = some (.file attr contents holes) ∧
      parseManifest lib contents = .ok manifest := by
  obtain ⟨metadata, w1, hvalid, hrest⟩ := runs_ok_bind.mp h
  obtain ⟨hfs, _⟩ := validatePrivateFile_ok hvalid
  split at hrest
  · cases (runs_run_throw.mp hrest).1
  · obtain ⟨file, w2, hopen, hrest⟩ := runs_ok_bind.mp hrest
    obtain ⟨_, attr, contents, holes, hnode, hfile⟩ :=
      may_openRead_ok (runs_request.mp (runs_sys_ok.mp hopen))
    obtain ⟨read, w3, hone, htwo⟩ := runs_ok_bind.mp hrest
    obtain ⟨hread, rfl⟩ := runs_ofExcept.mp hone
    obtain ⟨hparse, _⟩ := runs_ofExcept.mp htwo
    rw [hfs] at hnode
    exact ⟨attr, contents, holes, hnode,
      parseManifest_of_readLimited hfile hread.symm hparse.symm⟩

/-- A file whose writing succeeds holds everything. -/
theorem writeFile_ok {fault : Option TransferFault} {contents : Bytes}
    (h : (writeFile fault contents).1 = .ok ()) : (writeFile fault contents).2 = contents := by
  unfold writeFile at h ⊢
  cases fault with
  | none => rfl
  | some fault =>
      dsimp only at h ⊢
      rw [Sink.accepted_of_ok (Prod.ext h rfl)]
      rfl

/-- **A manifest file that is written** is new, private and complete. -/
theorem writePrivateJson_ok {parent : FsPath} {name : String} {value : UserManifest}
    (h : (machine env allowed).Runs (writePrivateJson lib (parent ++ [name]) value).run w
      (.ok ()) w') :
    w.fs.node (parent ++ [name]) = none ∧ ∀ q, w'.fs.node q =
      if q = parent ++ [name] then
        some (.file (env.attr 0o600) (lib.toJson value ++ [10]) false)
      else w.fs.node q := by
  obtain ⟨fault, w1, hcreate, hrest⟩ := runs_ok_bind.mp h
  obtain ⟨hnone, hcreated⟩ := may_createFile_ok (runs_request.mp (runs_sys_ok.mp hcreate))
  obtain ⟨_, w2, hone, hrest⟩ := runs_ok_bind.mp hrest
  obtain ⟨_, _, hstore⟩ := runs_ask.mp hone
  have hstored := may_store hstore ((hcreated _).trans (if_pos rfl))
  split at hrest
  · cases (runs_run_throw.mp hrest).1
  · next hwritten =>
      have hcontents := writeFile_ok hwritten
      refine ⟨hnone, fun q => ?_⟩
      have hsync : w'.fs.node q = w2.fs.node q :=
        node_of_may (runs_request.mp (runs_sys_ok.mp hrest)) (fun h => h)
      rw [hsync, hstored q, hcontents, hcreated q]
      split <;> rfl

theorem defaultKdfParameters_ok {kdf : KdfParameters}
    (h : (machine env allowed).Runs (defaultKdfParameters lib).run w (.ok kdf) w') :
    ∃ oracle, allowed oracle ∧ kdf = kdfParametersFor lib (oracle.draw 16) := by
  obtain ⟨drawn, w1, hask, hrest⟩ := runs_ok_bind.mp h
  obtain ⟨_, heq, hmay⟩ := runs_ask.mp hask
  cases heq
  split at hrest
  · cases (runs_run_throw.mp hrest).1
  · next salt =>
      obtain ⟨heq, _⟩ := runs_run_pure.mp hrest
      cases heq
      obtain ⟨oracle, hallowed, rfl⟩ := may_random_some hmay
      exact ⟨oracle, hallowed, rfl⟩

theorem wrapDataKey_ok {dataKey wrappingKey : Key} {aad : Bytes} {wrapped : WrappedKey}
    (h : (machine env allowed).Runs (wrapDataKey lib dataKey wrappingKey aad).run w
      (.ok wrapped) w') :
    ∃ nonce, wrapWithNonce lib nonce dataKey wrappingKey aad = .ok wrapped := by
  obtain ⟨drawn, w1, hask, hrest⟩ := runs_ok_bind.mp h
  split at hrest
  · cases (runs_run_throw.mp hrest).1
  · next nonce =>
      obtain ⟨hwrap, _⟩ := runs_ofExcept.mp hrest
      exact ⟨nonce, hwrap.symm⟩

/-- **The manifest a rotation makes** carries the key of the one in place. -/
theorem rewrappedManifest_ok {userRoot : FsPath} {username : String} {current new : Bytes}
    {m' : UserManifest}
    (h : (machine env allowed).Runs
      (VaultStore.rewrappedManifest lib env userRoot username current new).run w (.ok m') w') :
    ∃ attr contents holes m oracle dataKey,
      w.fs.node (userRoot ++ ["manifest.json"]) = some (.file attr contents holes) ∧
      parseManifest lib contents = .ok m ∧ allowed oracle ∧
      Rewraps lib username current new (oracle.draw 16) m m' dataKey := by
  obtain ⟨m, w1, hread, hrest⟩ := runs_ok_bind.mp h
  obtain ⟨attr, contents, holes, hnode, hparse⟩ := readManifest_ok hread
  obtain ⟨dataKey, w2, hone, hrest⟩ := runs_ok_bind.mp hrest
  obtain ⟨hopen, _⟩ := runs_ofExcept.mp hone
  obtain ⟨kdf, w3, hkdf, hrest⟩ := runs_ok_bind.mp hrest
  obtain ⟨oracle, hallowed, rfl⟩ := defaultKdfParameters_ok hkdf
  obtain ⟨wrappingKey, w4, htwo, hrest⟩ := runs_ok_bind.mp hrest
  obtain ⟨hkey, _⟩ := runs_ofExcept.mp htwo
  obtain ⟨aad, w5, hthree, hrest⟩ := runs_ok_bind.mp hrest
  obtain ⟨haad, _⟩ := runs_ofExcept.mp hthree
  obtain ⟨wrapped, w6, hfour, hpure⟩ := runs_ok_bind.mp hrest
  obtain ⟨nonce, hwrap⟩ := wrapDataKey_ok hfour
  obtain ⟨heq, _⟩ := runs_run_pure.mp hpure
  cases heq
  exact ⟨attr, contents, holes, m, oracle, dataKey, hnode, hparse, hallowed, hopen.symm, rfl,
    ⟨_, rfl⟩, nonce, wrappingKey, aad, hkey.symm, haad.symm, hwrap⟩

/-! ## Sealing -/

theorem withExtension_concat {parent : FsPath} {name extension : String} :
    withExtension (parent ++ [name]) extension =
      parent ++ [String.ofList (fileStem name.toList) ++ "." ++ extension] := by
  simp [withExtension]

/-- The name of the temporary file beside a state file. -/
def stateTemporary (lib : Libraries) (id : Uuid) : String :=
  "state" ++ "." ++ ("tmp-" ++ lib.uuidText id)

theorem sealTemporary_state {root : FsPath} {id : Uuid} :
    sealTemporary lib (root ++ ["state.cvlt"]) id = root ++ [stateTemporary lib id] := by
  rw [sealTemporary, withExtension_concat]
  rfl

/-- The name of a temporary state file is the name of no other file of a profile. -/
theorem stateTemporary_ne {id : Uuid} :
    stateTemporary lib id ≠ "state.cvlt" ∧ stateTemporary lib id ≠ "manifest.json" ∧
      stateTemporary lib id ≠ "active.lock" := by
  refine ⟨?_, ?_, ?_⟩ <;>
  · intro h
    have hchars := congrArg String.toList h
    simp [stateTemporary] at hchars

/-- What was sealed: the walk of a directory, as far as the builder took it, under a
key and a seed. -/
structure SealedTree (lib : Libraries) (dataKey : Key) (seed : FixedBytes 12)
    (tree : List TreeEntry × Option IoError) (contents : Bytes) : Prop where
  complete : (builderInputs lib.tar tree).2 = none
  sealed : SealedAs lib.aead dataKey seed
    ((builderInputs lib.tar tree).1.flatten ++ Tar.trailer) contents

/-- **A seal that succeeds** puts a complete state file in place. -/
theorem sealInto_ok {directory parent : FsPath} {temporary name : String} {dataKey : Key}
    (h : (machine env allowed).Runs
      (sealInto lib directory (parent ++ [temporary]) (parent ++ [name]) dataKey).run w
        (.ok ()) w') :
    ∃ oracle tree contents, allowed oracle ∧
      SealedTree lib dataKey (oracle.draw 12) tree contents ∧
      ∀ q, w'.fs.node q =
        if q = parent ++ [name] then some (.file (env.attr 0o600) contents false)
        else if q = parent ++ [temporary] ∨ parent ++ [name] <+: q then none
        else w.fs.node q := by
  obtain ⟨fault, w1, hcreate, hrest⟩ := runs_ok_bind.mp h
  obtain ⟨_, hcreated⟩ := may_createFile_ok (runs_request.mp (runs_sys_ok.mp hcreate))
  obtain ⟨random, w2, hrandom, hrest⟩ := runs_ask_bind.mp hrest
  obtain ⟨tree, w3, htree, hrest⟩ := runs_ask_bind.mp hrest
  obtain ⟨_, w4, hstore, hrest⟩ := runs_ask_bind.mp hrest
  obtain ⟨_, w5, hdone, hafter⟩ := runs_ok_bind.mp hrest
  obtain ⟨hok, rfl⟩ := runs_ofExcept.mp hdone
  obtain ⟨_, w6, hsync, hrename⟩ := runs_ok_bind.mp hafter
  have hrename := runs_request.mp (runs_sys_ok.mp hrename)
  have hsync := runs_request.mp (runs_sys_ok.mp hsync)
  obtain ⟨hstop, seed, hseed, hsealed⟩ := sealFile_eq_ok hok.symm
  subst hseed
  obtain ⟨oracle, hallowed, rfl⟩ := may_random_some hrandom
  have hquiet : ∀ q, w3.fs.node q = w1.fs.node q := fun q =>
    (node_of_may htree fun h => h).trans (node_of_may hrandom fun h => h)
  have hthere : w3.fs.node (parent ++ [temporary]) =
      some (.file (env.attr 0o600) [] false) := by
    rw [hquiet, hcreated, if_pos rfl]
  have hstored := may_store hstore hthere
  have hsynced : ∀ q, w6.fs.node q = w5.fs.node q := fun q => node_of_may hsync fun h => h
  obtain ⟨hgraft, hfs, _, _⟩ := may_rename_ok hrename
  have hat : w6.fs.node (parent ++ [temporary]) = some (.file (env.attr 0o600)
      (sealFile lib.aead fault (some (oracle.draw 12)) dataKey (builderInputs lib.tar tree).1
        (builderInputs lib.tar tree).2).2 false) := by
    rw [hsynced, hstored, if_pos rfl]
  refine ⟨oracle, tree, _, hallowed, ⟨hstop, hsealed⟩, fun q => ?_⟩
  rw [hfs, FileSystem.node_graft_file hgraft hat rfl]
  by_cases hq : q = parent ++ [name]
  · rw [if_pos hq, if_pos hq]
  · rw [if_neg hq, if_neg hq]
    by_cases ht : q = parent ++ [temporary]
    · rw [if_pos ht, if_pos (.inl ht)]
    · rw [if_neg ht]
      by_cases hpre : parent ++ [name] <+: q
      · rw [if_pos hpre, if_pos (.inr hpre)]
      · rw [if_neg hpre, if_neg (not_or.mpr ⟨ht, hpre⟩), hsynced, hstored, if_neg ht, hquiet,
          hcreated, if_neg ht]

/-- The same for the sealing of a profile's state. -/
theorem sealDirectory_ok {directory root : FsPath} {dataKey : Key}
    (h : (machine env allowed).Runs
      (sealDirectory lib directory (root ++ ["state.cvlt"]) dataKey).run w (.ok ()) w') :
    ∃ id oracle tree contents, allowed oracle ∧
      SealedTree lib dataKey (oracle.draw 12) tree contents ∧
      ∀ q, w'.fs.node q =
        if q = root ++ ["state.cvlt"] then some (.file (env.attr 0o600) contents false)
        else if q = root ++ [stateTemporary lib id] ∨ root ++ ["state.cvlt"] <+: q then none
        else w.fs.node q := by
  obtain ⟨id, w1, hid, hbody⟩ := runs_ask_bind.mp h
  have hinto := runs_onError_ok.mp hbody
  have htemporary := (sealTemporary_state : sealTemporary lib (root ++ ["state.cvlt"]) id = _)
  unfold sealTemporary at htemporary
  rw [htemporary] at hinto
  obtain ⟨oracle, tree, contents, hallowed, hsealed, hnodes⟩ :=
    sealInto_ok hinto
  refine ⟨id, oracle, tree, contents, hallowed, hsealed, fun q => ?_⟩
  have hsame : w1.fs.node q = w.fs.node q := node_of_may hid fun h => h
  rw [hnodes, hsame]

/-- **The parts of an unlock.** -/
theorem runs_unlock {store : VaultStore} {username : String} {password : Bytes} {dataKey : Key}
    {manifest : UserManifest} {lock : Handle} {root : FsPath} {name : String} {w1 w2 w3 w4 : World}
    (hvalid : validateUsername username = .ok ())
    (hlock : (machine env allowed).Runs
      (VaultStore.lockProfile env (store.userRoot username)).run w (.ok lock) w1)
    (hread : (machine env allowed).Runs
      (readManifest lib env (store.userRoot username)).run w1 (.ok manifest) w2)
    (hmanifest : manifest.validate lib = .ok ())
    (hopen : openManifest lib username password manifest = .ok dataKey)
    (hroot : (machine env allowed).Runs (store.chooseRuntimeRoot env).run w2 (.ok root) w3)
    (hname : VaultStore.runtimeName lib manifest = .ok name)
    (hmake : (machine env allowed).Runs
      (sys (request (.createDirectory (root ++ [name])))).run w3 (.ok ()) w4)
    (hfill : (machine env allowed).Runs (VaultStore.fillRuntime lib env (store.userRoot username)
      (root ++ [name]) dataKey).run w4 (.ok ()) w') :
    (machine env allowed).Runs (store.unlock lib env username password).run w
      (.ok {
        username := manifest.username
        codexHome := root ++ [name] ++ ["codex-home"]
        runtime := root ++ [name]
        statePath := store.userRoot username ++ ["state.cvlt"]
        dataKey := dataKey
        lock := lock
        lockPath := store.userRoot username ++ ["active.lock"] }) w' := by
  refine runs_ok_bind.mpr ⟨(), w, runs_ofExcept.mpr ⟨hvalid.symm, rfl⟩, ?_⟩
  refine runs_ok_bind.mpr ⟨lock, w1, hlock, runs_onError_ok.mpr ?_⟩
  refine runs_ok_bind.mpr ⟨manifest, w2, hread, ?_⟩
  refine runs_ok_bind.mpr ⟨(), w2, runs_ofExcept.mpr ⟨hmanifest.symm, rfl⟩, ?_⟩
  refine runs_ok_bind.mpr ⟨dataKey, w2, runs_ofExcept.mpr ⟨hopen.symm, rfl⟩, ?_⟩
  refine runs_ok_bind.mpr ⟨root, w3, hroot, ?_⟩
  refine runs_ok_bind.mpr ⟨name, w3, runs_ofExcept.mpr ⟨hname.symm, rfl⟩, ?_⟩
  refine runs_ok_bind.mpr ⟨(), w4, hmake, ?_⟩
  exact runs_ok_bind.mpr ⟨(), w', runs_onError_ok.mpr hfill, runs_run_pure.mpr ⟨rfl, rfl⟩⟩

end CodexVault
