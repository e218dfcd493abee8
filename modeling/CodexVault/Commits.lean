import CodexVault.CataloguedCreations
import CodexVault.PasswordRotation
import CodexVault.RestoredTrees

/-!
# Commits

A manifest, a state file and a new profile each get their place by one rename.
`World.At` says what a path holds and whether a rename onto it has taken effect; calls
that avoid the path keep both.  Wherever a rotation or a seal is cut off, either
nothing was renamed and the path holds what it held, or it holds all of the new file.
-/

namespace CodexVault

open ByteStrings Programs Contract

/-- What the path holds, and whether a rename onto it has taken effect. -/
structure World.At (target : FsPath) (done : Bool) (n : Option Node) (w : World) : Prop where
  effect : w.tookEffect target = done
  node : w.fs.node target = n

/-- The call keeps the property. -/
def Op.Maintains (env : Env) (allowed : Oracle → Prop) (I : World → Prop) (op : Op) : Prop :=
  ∀ s r t, I s → (machine env allowed).may op s r t → I t

/-- The call leaves the path alone and renames nothing onto it. -/
def Op.Avoids (env : Env) (target : FsPath) (op : Op) : Prop :=
  op.Spares env target ∧ ∀ source, op ≠ .rename source target

section

variable {lib : Libraries} {env : Env} {allowed : Oracle → Prop} {w w' : World} {α : Type}
    {target directory parent : FsPath} {done : Bool} {n : Option Node} {I : World → Prop}
    {temporary name : String} {dataKey : Key}

/-! ## Calls that keep a property -/

theorem cuts_maintained {p : Prog Op Op.Reply α} (hp : Uses (Op.Maintains env allowed I) p)
    (hw : I w) (h : (machine env allowed).Cuts p w w') : I w' :=
  cuts_of_uses (fun _ _ _ _ hop hs hmay => hop _ _ _ hs hmay) hp hw h

/-- **A call that avoids a path** changes neither what it holds nor the record. -/
theorem Op.Avoids.maintains {op : Op} (hop : op.Avoids env target) :
    op.Maintains env allowed (World.At target done n) :=
  fun s _ _ hs hmay => ⟨(tookEffect_of_may hop.2 hmay).trans hs.effect,
    (node_of_may hmay (hop.1 s.fs)).trans hs.node⟩

theorem World.At.cuts {p : Prog Op Op.Reply α} (hw : w.At target done n)
    (hp : Uses (Op.Avoids env target) p) (h : (machine env allowed).Cuts p w w') :
    w'.At target done n :=
  cuts_maintained (hp.mono fun _ hop => hop.maintains) hw h

theorem World.At.runs {p : Prog Op Op.Reply α} {a : α} (hw : w.At target done n)
    (hp : Uses (Op.Avoids env target) p) (h : (machine env allowed).Runs p w a w') :
    w'.At target done n := hw.cuts hp (cuts_of_runs h)

/-- **The commit.**  A rename of a file onto the path puts the file there, or fails and
changes nothing. -/
theorem World.At.renamed {source : FsPath} {f : Node} {r : Except IoError Unit}
    (hw : w.At target false n) (hsource : w.fs.node source = some f)
    (hfile : f.isDirectory = false) (h : (machine env allowed).may (.rename source target) w r w') :
    w'.At target false n ∨ w'.At target true (some f) := by
  have heffect := tookEffect_of_rename h
  rw [hw.effect] at heffect
  cases r with
  | error e => exact .inl ⟨heffect, by rw [may_rename_error h, hw.node]⟩
  | ok u =>
      obtain ⟨hgraft, hfs, _⟩ := may_rename_ok h
      refine .inr ⟨heffect, ?_⟩
      rw [hfs, FileSystem.node_graft_file hgraft hsource hfile, if_pos rfl]

/-! ## Replacing a file -/

theorem avoids_other (op : Op) (hname : temporary ≠ name)
    (hop : ∀ fs q, op.MayChange env fs q → q = parent ++ [temporary])
    (hrename : ∀ source, op ≠ .rename source (parent ++ [name])) :
    op.Avoids env (parent ++ [name]) :=
  ⟨fun fs hchange => concat_ne hname (hop fs _ hchange).symm, hrename⟩

theorem avoids_readOnly (op : Op) (hop : op.ReadOnly env)
    (hrename : ∀ source, op ≠ .rename source target) : op.Avoids env target :=
  ⟨fun fs => hop target fs, hrename⟩

/-- **A file that is replaced**, wherever the replacement is cut off. -/
theorem replaceThrough_commits {value : UserManifest} (hne : temporary ≠ name)
    (hw : w.At (parent ++ [name]) false n)
    (hcut : (machine env allowed).Cuts (replaceThrough lib parent temporary name value).run w w') :
    w'.At (parent ++ [name]) false n ∨ w'.At (parent ++ [name]) true
      (some (.file (env.attr 0o600) (lib.toJson value ++ [10]) false)) := by
  have hwrite : Uses (Op.Avoids env (parent ++ [name]))
      (writePrivateJson lib (parent ++ [temporary]) value).run :=
    uses_writePrivateJson (avoids_other _ hne (fun _ _ hq => hq.1) nofun)
      (fun _ => avoids_other _ hne (fun _ _ hq => hq) nofun)
      (avoids_readOnly _ (fun _ _ h => h) nofun)
  rcases cuts_run_bind hcut with hcut | ⟨_, w1, hfile, hcut⟩
  · exact .inl (hw.cuts hwrite hcut)
  have h1 := hw.runs hwrite hfile
  have hat := ((writePrivateJson_ok hfile).2 (parent ++ [temporary])).trans (if_pos rfl)
  rcases cuts_run_bind hcut with hcut | ⟨_, w2, hrename, hcut⟩
  · rcases cuts_perform (cuts_mapError hcut) with rfl | ⟨r, hmay⟩
    · exact .inl h1
    · exact h1.renamed hat rfl hmay
  have h2 := h1.renamed hat rfl (runs_request.mp (runs_sys_ok.mp hrename))
  have hsync : Uses (Op.Avoids env (parent ++ [name])) (do
      sys (request (.openDirectory parent))
      sys (request (.sync parent)) : Io Unit).run :=
    uses_run_bind (uses_sys (uses_request (avoids_readOnly _ (fun _ _ h => h) nofun))) fun _ =>
      uses_sys (uses_request (avoids_readOnly _ (fun _ _ h => h) nofun))
  exact h2.imp (·.cuts hsync hcut) (·.cuts hsync hcut)

theorem replacePrivateJson_commits {value : UserManifest}
    (hne : ∀ id, ".manifest-" ++ id ++ ".tmp" ≠ name) (hw : w.At (parent ++ [name]) false n)
    (hcut : (machine env allowed).Cuts (replacePrivateJson lib parent name value).run w w') :
    w'.At (parent ++ [name]) false n ∨ w'.At (parent ++ [name]) true
      (some (.file (env.attr 0o600) (lib.toJson value ++ [10]) false)) := by
  have hid : Uses (Op.Avoids env (parent ++ [name])) (ask .newUuid).run :=
    uses_ask (avoids_readOnly _ (fun _ _ h => h) nofun)
  rcases cuts_run_bind hcut with hcut | ⟨id, w1, hdrawn, hcut⟩
  · exact .inl (hw.cuts hid hcut)
  have h1 := hw.runs hid hdrawn
  have hremove : Uses (Op.Avoids env (parent ++ [name]))
      (ignore (request (.removeFile (parent ++ [".manifest-" ++ lib.uuidText id ++ ".tmp"])))) :=
    uses_ignore (uses_request (avoids_other _ (hne _) (fun _ _ hq => hq) nofun))
  rcases cuts_onError hcut with hcut | ⟨_, w2, hfail, hcut⟩
  · exact replaceThrough_commits (hne _) h1 hcut
  · exact (replaceThrough_commits (hne _) h1 (cuts_of_runs hfail)).imp (·.cuts hremove hcut)
      (·.cuts hremove hcut)

/-! ## Rotating a password -/

/-- The lock and everything else but the commit avoid the manifest. -/
theorem avoids_aroundLock {op : Op} {root : FsPath} (h : op.AroundLock (root ++ ["active.lock"])) :
    op.Avoids env (root ++ ["manifest.json"]) := by
  have hne : root ++ ["manifest.json"] ≠ root ++ ["active.lock"] := concat_ne (by decide)
  refine ⟨fun fs hchange => (h.quiet hne hne).1 fs hchange, fun source heq => ?_⟩
  subst heq
  exact h

/-- The manifest of a node, with its data key wrapped anew. -/
structure RewrappedNode (lib : Libraries) (username : String) (current new : Bytes)
    (n : Option Node) (m' : UserManifest) : Prop where
  rewraps : ∃ attr contents holes m salt dataKey, n = some (.file attr contents holes) ∧
    parseManifest lib contents = .ok m ∧ Rewraps lib username current new salt m m' dataKey

theorem rewrapManifest_commits {root : FsPath} {username : String} {current new : Bytes}
    (hw : w.At (root ++ ["manifest.json"]) false n)
    (hcut : (machine env allowed).Cuts
      (VaultStore.rewrapManifest lib env root username current new).run w w') :
    w'.At (root ++ ["manifest.json"]) false n ∨ ∃ m', RewrappedNode lib username current new n m' ∧
      w'.At (root ++ ["manifest.json"]) true
        (some (.file (env.attr 0o600) (lib.toJson m' ++ [10]) false)) := by
  have hread : Uses (Op.Avoids env (root ++ ["manifest.json"]))
      (VaultStore.rewrappedManifest lib env root username current new).run :=
    uses_rewrappedManifest (avoids_aroundLock trivial) (avoids_aroundLock trivial)
      fun _ => avoids_aroundLock trivial
  rcases cuts_run_bind hcut with hcut | ⟨m', w1, hmade, hcut⟩
  · exact .inl (hw.cuts hread hcut)
  obtain ⟨attr, contents, holes, m, oracle, dataKey, hnode, hparse, _, hrewraps⟩ :=
    rewrappedManifest_ok hmade
  rw [hw.node] at hnode
  refine (replacePrivateJson_commits (fun id => (temporaryManifest_ne id).1)
    (hw.runs hread hmade) hcut).imp_right fun h => ⟨m', ⟨?_⟩, h⟩
  exact ⟨attr, contents, holes, m, _, dataKey, hnode, hparse, hrewraps⟩

/-- **A rotation**, wherever it is cut off: the old manifest is in place, or all of the new
one is. -/
theorem rotatePassword_commits {store : VaultStore} {username : String} {current new : Bytes}
    (hw : w.At (store.manifestPath username) false n)
    (hcut : (machine env allowed).Cuts
      (store.rotatePassword lib env username current new).run w w') :
    w'.At (store.manifestPath username) false n ∨
      ∃ m', RewrappedNode lib username current new n m' ∧
        w'.At (store.manifestPath username) true
          (some (.file (env.attr 0o600) (lib.toJson m' ++ [10]) false)) := by
  have havoids : ∀ op : Op, op.AroundLock (store.userRoot username ++ ["active.lock"]) →
      op.Avoids env (store.manifestPath username) := fun _ hop => avoids_aroundLock hop
  have hlock : Uses (Op.Avoids env (store.manifestPath username))
      (VaultStore.lockProfile env (store.userRoot username)).run :=
    uses_lockProfile (havoids _ trivial) (havoids _ rfl) (havoids _ rfl)
      (fun _ => havoids _ trivial) (havoids _ rfl) (havoids _ trivial) (havoids _ trivial)
      (fun _ => havoids _ rfl) fun _ => havoids _ trivial
  rcases cuts_run_bind hcut with hcut | ⟨_, w1, hvalid, hcut⟩
  · exact .inl (hw.cuts uses_ofExcept hcut)
  rw [(runs_ofExcept.mp hvalid).2] at hcut
  rcases cuts_run_bind hcut with hcut | ⟨_, w2, hpassword, hcut⟩
  · exact .inl (hw.cuts uses_ofExcept hcut)
  rw [(runs_ofExcept.mp hpassword).2] at hcut
  rcases cuts_run_bind hcut with hcut | ⟨lock, w3, hlocked, hcut⟩
  · exact .inl (hw.cuts hlock hcut)
  have h3 := hw.runs hlock hlocked
  have hend : ∀ result : Except VaultError Unit, Uses (Op.Avoids env (store.manifestPath username))
      (do
        let unlockResult ← Prog.attempt
          (sys (request (.unlockFile (store.userRoot username ++ ["active.lock"]) lock)))
        ask (.closeFile (store.userRoot username ++ ["active.lock"]) lock)
        ofExcept result
        ofExcept unlockResult : Io Unit).run := fun _ =>
    uses_run_bind (uses_attempt (uses_sys (uses_request (havoids (.unlockFile _ _) trivial))))
      fun _ => uses_run_bind (uses_ask (havoids (.closeFile _ _) trivial)) fun _ =>
        uses_run_bind uses_ofExcept fun _ => uses_ofExcept
  rcases cuts_attempt_bind hcut with hcut | ⟨result, w4, hrewrap, hcut⟩
  · exact rewrapManifest_commits h3 hcut
  · exact (rewrapManifest_commits h3 (cuts_of_runs hrewrap)).imp (·.cuts (hend result) hcut)
      fun ⟨m', hm', h⟩ => ⟨m', hm', h.cuts (hend result) hcut⟩

/-! ## Sealing a session -/

/-- The nodes at and below a directory, by their paths from it. -/
abbrev Session := FsPath → Option Node

/-- What lies at and below a directory. -/
def World.session (w : World) (directory : FsPath) : Session :=
  fun path => w.fs.node (directory ++ path)

/-- The file holds the session, sealed under the key. -/
structure SealedSession (lib : Libraries) (dataKey : Key) (session : Session) (contents : Bytes) :
    Prop where
  sealed : ∃ (source : FileSystem) (directory : FsPath) (listing : List FsPath)
    (seed : FixedBytes 12), (∀ path, source.node (directory ++ path) = session path) ∧
      source.Enumerates directory listing ∧
      SealedTree lib dataKey seed (source.nodesAt directory listing, none) contents

/-- All of a seal but its commit. -/
def writeSealed (lib : Libraries) (directory temporary : FsPath) (dataKey : Key) : Io Unit := do
  let fault ← sys (request (.createFile temporary))
  let random ← ask (.random 12)
  let tree ← ask (.readTree directory)
  let inputs := builderInputs lib.tar tree
  let out := sealFile lib.aead fault random dataKey inputs.1 inputs.2
  ask (.store temporary out.2)
  ofExcept out.1
  sys (request (.sync temporary))

theorem sealInto_eq {temporary destination : FsPath} :
    sealInto lib directory temporary destination dataKey = (do
      writeSealed lib directory temporary dataKey
      sys (request (.rename temporary destination))) := by
  simp only [sealInto, writeSealed, bind_assoc]

theorem uses_writeSealed {P : Op → Prop} {temporary : FsPath} (hcreate : P (.createFile temporary))
    (hrandom : P (.random 12)) (hwalk : P (.readTree directory))
    (hstore : ∀ contents, P (.store temporary contents)) (hsync : P (.sync temporary)) :
    Uses P (writeSealed lib directory temporary dataKey).run :=
  uses_run_bind (uses_sys (uses_request hcreate)) fun _ =>
    uses_run_bind (uses_ask hrandom) fun _ => uses_run_bind (uses_ask hwalk) fun _ =>
      uses_run_bind (uses_ask (hstore _)) fun _ => uses_run_bind uses_ofExcept fun _ =>
        uses_sys (uses_request hsync)

/-- A builder that was not stopped has walked the whole directory. -/
theorem complete_of_builderInputs {tar : Tar} {tree : List TreeEntry × Option IoError}
    (h : (builderInputs tar tree).2 = none) : tree.2 = none := by
  have hboth : ((archiveEntries tree.1).2 <|> tree.2) = none := h
  cases hone : (archiveEntries tree.1).2 with
  | some e =>
      rw [hone] at hboth
      cases hboth
  | none =>
      rw [hone] at hboth
      exact hboth

/-- **A session that is written** to a temporary file is sealed there, and nothing else
has changed. -/
theorem writeSealed_ok (hapart : ¬ directory <+: parent ++ [temporary])
    (h : (machine env allowed).Runs
      (writeSealed lib directory (parent ++ [temporary]) dataKey).run w (.ok ()) w') :
    ∃ contents, SealedSession lib dataKey (w.session directory) contents ∧
      ∀ q, w'.fs.node q = if q = parent ++ [temporary] then
        some (.file (env.attr 0o600) contents false) else w.fs.node q := by
  obtain ⟨fault, w1, hcreate, hrest⟩ := runs_ok_bind.mp h
  obtain ⟨_, hcreated⟩ := may_createFile_ok (runs_request.mp (runs_sys_ok.mp hcreate))
  obtain ⟨random, w2, hrandom, hrest⟩ := runs_ask_bind.mp hrest
  obtain ⟨tree, w3, htree, hrest⟩ := runs_ask_bind.mp hrest
  obtain ⟨_, w4, hstore, hrest⟩ := runs_ask_bind.mp hrest
  obtain ⟨_, w5, hdone, hsync⟩ := runs_ok_bind.mp hrest
  obtain ⟨hok, rfl⟩ := runs_ofExcept.mp hdone
  have hsync := runs_request.mp (runs_sys_ok.mp hsync)
  obtain ⟨hstop, seed, _, hsealed⟩ := sealFile_eq_ok hok.symm
  have hdrawn : ∀ q, w2.fs.node q = w1.fs.node q := fun q => node_of_may hrandom fun h => h
  have hwalked : ∀ q, w3.fs.node q = w2.fs.node q := fun q => node_of_may htree fun h => h
  have hsynced : ∀ q, w'.fs.node q = w5.fs.node q := fun q => node_of_may hsync fun h => h
  have hthere : w3.fs.node (parent ++ [temporary]) = some (.file (env.attr 0o600) [] false) := by
    rw [hwalked, hdrawn, hcreated, if_pos rfl]
  have hstored := may_store hstore hthere
  obtain ⟨listing, hlisting, _, htreeEq⟩ :=
    may_readTree_complete htree (complete_of_builderInputs hstop)
  refine ⟨(sealFile lib.aead fault random dataKey (builderInputs lib.tar tree).1
      (builderInputs lib.tar tree).2).2,
    ⟨w2.fs, directory, listing, seed, fun path => ?_, hlisting, ?_⟩, fun q => ?_⟩
  · -- the temporary file lies outside the session
    rw [hdrawn, hcreated, if_neg]
    · rfl
    · exact fun heq => hapart (heq ▸ List.prefix_append _ _)
  · rw [← htreeEq]
    exact ⟨hstop, hsealed⟩
  · rw [hsynced, hstored]
    split
    · rfl
    · next hne => rw [hwalked, hdrawn, hcreated, if_neg hne]

/-- **A seal**, wherever it is cut off: the old state is in place, or all of the new one
is. -/
theorem sealInto_commits (hne : temporary ≠ name) (hw : w.At (parent ++ [name]) false n)
    (hapart : ¬ directory <+: parent ++ [temporary])
    (hcut : (machine env allowed).Cuts
      (sealInto lib directory (parent ++ [temporary]) (parent ++ [name]) dataKey).run w w') :
    w'.At (parent ++ [name]) false n ∨
      ∃ contents, SealedSession lib dataKey (w.session directory) contents ∧
        w'.At (parent ++ [name]) true (some (.file (env.attr 0o600) contents false)) := by
  have hwrite : Uses (Op.Avoids env (parent ++ [name]))
      (writeSealed lib directory (parent ++ [temporary]) dataKey).run :=
    uses_writeSealed (avoids_other _ hne (fun _ _ hq => hq.1) nofun)
      (avoids_readOnly _ (fun _ _ h => h) nofun) (avoids_readOnly _ (fun _ _ h => h) nofun)
      (fun _ => avoids_other _ hne (fun _ _ hq => hq) nofun)
      (avoids_readOnly _ (fun _ _ h => h) nofun)
  rw [sealInto_eq] at hcut
  rcases cuts_run_bind hcut with hcut | ⟨_, w1, hwritten, hcut⟩
  · exact .inl (hw.cuts hwrite hcut)
  have h1 := hw.runs hwrite hwritten
  obtain ⟨contents, hsealed, hnodes⟩ := writeSealed_ok hapart hwritten
  rcases cuts_perform (cuts_mapError hcut) with rfl | ⟨r, hmay⟩
  · exact .inl h1
  · exact (h1.renamed ((hnodes _).trans (if_pos rfl)) rfl hmay).imp_right fun h =>
      ⟨contents, hsealed, h⟩

/-- The same for `seal_directory`, with its cleanup. -/
theorem sealDirectory_commits {root : FsPath} (hw : w.At (root ++ ["state.cvlt"]) false n)
    (hapart : ∀ id, ¬ directory <+: root ++ [stateTemporary lib id])
    (hcut : (machine env allowed).Cuts
      (sealDirectory lib directory (root ++ ["state.cvlt"]) dataKey).run w w') :
    w'.At (root ++ ["state.cvlt"]) false n ∨
      ∃ contents, SealedSession lib dataKey (w.session directory) contents ∧
        w'.At (root ++ ["state.cvlt"]) true (some (.file (env.attr 0o600) contents false)) := by
  have hdraws : Op.newUuid.ReadOnly env := fun _ _ h => h
  have hidAvoids : Op.newUuid.Avoids env (root ++ ["state.cvlt"]) := avoids_readOnly _ hdraws nofun
  rcases cuts_run_bind hcut with hcut | ⟨id, w1, hid, hcut⟩
  · exact .inl (hw.cuts (uses_ask hidAvoids) hcut)
  have h1 := hw.runs (uses_ask hidAvoids) hid
  have hsame : w1.session directory = w.session directory :=
    funext fun path => node_of_readOnly (uses_ask hdraws) hid _
  have htemporary := (sealTemporary_state : sealTemporary lib (root ++ ["state.cvlt"]) id = _)
  unfold sealTemporary at htemporary
  rw [htemporary] at hcut
  rw [← hsame]
  have hremove : Uses (Op.Avoids env (root ++ ["state.cvlt"]))
      (ignore (request (.removeFile (root ++ [stateTemporary lib id])))) :=
    uses_ignore (uses_request (avoids_other _ stateTemporary_ne.1 (fun _ _ hq => hq) nofun))
  rcases cuts_onError hcut with hcut | ⟨_, w2, hfail, hcut⟩
  · exact sealInto_commits stateTemporary_ne.1 h1 (hapart id) hcut
  · exact (sealInto_commits stateTemporary_ne.1 h1 (hapart id) (cuts_of_runs hfail)).imp
      (·.cuts hremove hcut) fun ⟨contents, hsealed, h⟩ => ⟨contents, hsealed, h.cuts hremove hcut⟩

/-- **A seal that succeeds** puts the session in place. -/
theorem sealDirectory_session {root : FsPath}
    (hapart : ∀ id, ¬ directory <+: root ++ [stateTemporary lib id])
    (h : (machine env allowed).Runs
      (sealDirectory lib directory (root ++ ["state.cvlt"]) dataKey).run w (.ok ()) w') :
    ∃ id contents, SealedSession lib dataKey (w.session directory) contents ∧
      ∀ q, w'.fs.node q =
        if q = root ++ ["state.cvlt"] then some (.file (env.attr 0o600) contents false)
        else if q = root ++ [stateTemporary lib id] ∨ root ++ ["state.cvlt"] <+: q then none
        else w.fs.node q := by
  obtain ⟨id, w1, hid, hbody⟩ := runs_ask_bind.mp h
  have hsame : w1.session directory = w.session directory :=
    funext fun path => node_of_may hid fun h => h
  have hinto := runs_onError_ok.mp hbody
  have htemporary := (sealTemporary_state : sealTemporary lib (root ++ ["state.cvlt"]) id = _)
  unfold sealTemporary at htemporary
  rw [htemporary, sealInto_eq] at hinto
  obtain ⟨_, w2, hwritten, hrename⟩ := runs_ok_bind.mp hinto
  obtain ⟨contents, hsealed, hnodes⟩ := writeSealed_ok (hapart id) hwritten
  obtain ⟨hgraft, hfs, _⟩ := may_rename_ok (runs_request.mp (runs_sys_ok.mp hrename))
  refine ⟨id, contents, hsame ▸ hsealed, fun q => ?_⟩
  have hat := (hnodes (root ++ [stateTemporary lib id])).trans (if_pos rfl)
  have hkept : w1.fs.node q = w.fs.node q := node_of_may hid fun h => h
  rw [hfs, FileSystem.node_graft_file hgraft hat rfl, hnodes, hkept]
  by_cases hq : q = root ++ [stateTemporary lib id]
  · simp only [hq, true_or, if_true]
  · simp only [hq, false_or, if_false]

/-- **A close**, wherever it is cut off: the old state is in place, or all of the session
is sealed in its place. -/
theorem close_commits {vault : UnlockedVault} {root : FsPath}
    (hpath : vault.statePath = root ++ ["state.cvlt"]) (hw : w.At vault.statePath false n)
    (hapart : ∀ id, ¬ vault.codexHome <+: root ++ [stateTemporary lib id])
    (hruntime : ¬ vault.runtime <+: vault.statePath)
    (hcut : (machine env allowed).Cuts (vault.close lib).run w w') :
    w'.At vault.statePath false n ∨
      ∃ contents, SealedSession lib vault.dataKey (w.session vault.codexHome) contents ∧
        w'.At vault.statePath true (some (.file (env.attr 0o600) contents false)) := by
  have hreadOnly : ∀ op : Op, op.ReadOnly env → (∀ source, op ≠ .rename source vault.statePath) →
      op.Avoids env vault.statePath := avoids_readOnly
  have hremove : (Op.removeTree vault.runtime).Avoids env vault.statePath :=
    ⟨fun _ => hruntime, nofun⟩
  have hend : ∀ result : Except VaultError Unit, Uses (Op.Avoids env vault.statePath) (do
      let cleanupResult ← Prog.attempt (sys (request (.removeTree vault.runtime)))
      let unlockResult ← Prog.attempt (sys (request (.unlockFile vault.lockPath vault.lock)))
      ask (.closeFile vault.lockPath vault.lock)
      ofExcept result
      ofExcept cleanupResult
      ofExcept unlockResult : Io Unit).run := fun _ =>
    uses_run_bind (uses_attempt (uses_sys (uses_request hremove))) fun _ =>
      uses_run_bind (uses_attempt (uses_sys (uses_request
        (hreadOnly (.unlockFile _ _) (fun _ _ h => h) nofun)))) fun _ =>
        uses_run_bind (uses_ask (hreadOnly (.closeFile _ _) (fun _ _ h => h) nofun)) fun _ =>
          uses_run_bind uses_ofExcept fun _ => uses_run_bind uses_ofExcept fun _ => uses_ofExcept
  rw [hpath] at hw hend ⊢
  unfold UnlockedVault.close at hcut
  rw [hpath] at hcut
  rcases cuts_attempt_bind hcut with hcut | ⟨result, w1, hseal, hcut⟩
  · exact sealDirectory_commits hw hapart hcut
  · exact (sealDirectory_commits hw hapart (cuts_of_runs hseal)).imp (·.cuts (hend result) hcut)
      fun ⟨contents, hsealed, h⟩ => ⟨contents, hsealed, h.cuts (hend result) hcut⟩

end

end CodexVault
