import CodexVault.SharedStore
import CodexVault.Interruptions

/-!
# What a creation does to the catalogue

`add_user` works in a directory with a dot in front, which the catalogue ignores, and
commits with one rename.  Wherever it is cut off, the catalogue is the old one if the
rename has not taken effect, and has the new profile if it has.
-/

namespace CodexVault

open ByteStrings Programs Contract

/-- A rename onto the path has taken effect. -/
def World.tookEffect (w : World) (target : FsPath) : Bool :=
  w.history.any fun event =>
    match event with
    | ⟨.rename _ path, none⟩ => decide (path = target)
    | _ => false

namespace VaultStore

/-- The call leaves the catalogue alone. -/
def Keeping (lib : Libraries) (store : VaultStore) (uid : UInt32) (added : List String)
    (occupied : String → Prop) (env : Env) (allowed : Oracle → Prop) (op : Op) : Prop :=
  ∀ w r w', store.Catalogued lib uid added occupied w.fs → (machine env allowed).may op w r w' →
    store.Keeps uid added occupied w.fs w'.fs

/-- The call leaves the catalogue alone, and is no rename onto the path. -/
def Preparatory (lib : Libraries) (store : VaultStore) (uid : UInt32) (added : List String)
    (occupied : String → Prop) (env : Env) (allowed : Oracle → Prop) (target : FsPath)
    (op : Op) : Prop :=
  store.Keeping lib uid added occupied env allowed op ∧ ∀ source, op ≠ .rename source target

/-- The profiles, and whether a rename onto the path has taken effect. -/
structure Stage (lib : Libraries) (store : VaultStore) (uid : UInt32) (added : List String)
    (occupied : String → Prop) (target : FsPath) (done : Bool) (w : World) : Prop where
  catalogued : store.Catalogued lib uid added occupied w.fs
  effect : w.tookEffect target = done

/-- The store's directories are there, and nothing has been renamed onto the path. -/
structure Ready (lib : Libraries) (store : VaultStore) (uid : UInt32) (added : List String)
    (occupied : String → Prop) (target : FsPath) (w : World) : Prop where
  stage : store.Stage lib uid added occupied target false w
  root : ∃ attr, w.fs.node store.root = some (.directory attr) ∧ attr.owner = uid ∧
    attr.mode &&& 0o077 = 0
  users : w.fs.node store.usersRoot ≠ none

end VaultStore

section

variable {lib : Libraries} {store : VaultStore} {uid : UInt32} {added : List String}
    {occupied : String → Prop} {env : Env} {allowed : Oracle → Prop} {w w' : World} {α : Type}
    {username : String} {target : FsPath} {done : Bool}

/-! ## The record of a rename -/

theorem tookEffect_of_may {op : Op} {r : op.Reply} (hop : ∀ source, op ≠ .rename source target)
    (h : (machine env allowed).may op w r w') : w'.tookEffect target = w.tookEffect target := by
  unfold World.tookEffect
  rw [history_of_may h, List.any_cons]
  cases op with
  | rename source path =>
      have hne : path ≠ target := fun heq => hop source (heq ▸ rfl)
      cases r with
      | error e => rfl
      | ok u => simp [Op.failure, hne]
  | _ => rfl

theorem tookEffect_of_rename {source : FsPath} {r : Except IoError Unit}
    (h : (machine env allowed).may (.rename source target) w r w') :
    w'.tookEffect target = (decide (r = .ok ()) || w.tookEffect target) := by
  unfold World.tookEffect
  rw [history_of_may h, List.any_cons]
  cases r with
  | error e => rfl
  | ok u => simp [Op.failure]

/-! ## Calls that prepare -/

theorem VaultStore.Gentle.keeping {op : Op} {process : Nat}
    (h : store.Gentle lib uid added occupied env allowed process op) :
    store.Keeping lib uid added occupied env allowed op :=
  fun w r w' hw hmay => (h w r w' hw hmay).1

theorem preparatory_of_readOnly (op : Op) (hop : op.ReadOnly env) (hlocks : ¬ op.TouchesLocks)
    (hrename : ∀ source, op ≠ .rename source target) :
    store.Preparatory lib uid added occupied env allowed target op := by
  have hgentle : store.Gentle lib uid added occupied env allowed 0 op :=
    gentle_of_readOnly hop hlocks
  exact ⟨hgentle.keeping, hrename⟩

theorem preparatory_createDirectories {p : FsPath} (huid : env.uid = uid) :
    store.Preparatory lib uid added occupied env allowed target (.createDirectories p) := by
  have hgentle : store.Gentle lib uid added occupied env allowed 0 (.createDirectories p) :=
    gentle_createDirectories huid
  exact ⟨hgentle.keeping, nofun⟩

/-- **A call that prepares** changes neither the profiles nor the record. -/
theorem VaultStore.Stage.step {op : Op} {r : op.Reply}
    (hs : store.Stage lib uid added occupied target done w)
    (hop : store.Preparatory lib uid added occupied env allowed target op)
    (hmay : (machine env allowed).may op w r w') :
    store.Stage lib uid added occupied target done w' :=
  ⟨hs.catalogued.keeps (hop.1 w r w' hs.catalogued hmay),
    (tookEffect_of_may hop.2 hmay).trans hs.effect⟩

theorem VaultStore.Stage.cuts {p : Prog Op Op.Reply α}
    (hs : store.Stage lib uid added occupied target done w)
    (hp : Uses (store.Preparatory lib uid added occupied env allowed target) p)
    (h : (machine env allowed).Cuts p w w') :
    store.Stage lib uid added occupied target done w' :=
  cuts_of_uses (fun _ _ _ _ hop hs hmay => VaultStore.Stage.step hs hop hmay) hp hs h

theorem VaultStore.Stage.runs {p : Prog Op Op.Reply α} {a : α}
    (hs : store.Stage lib uid added occupied target done w)
    (hp : Uses (store.Preparatory lib uid added occupied env allowed target) p)
    (h : (machine env allowed).Runs p w a w') :
    store.Stage lib uid added occupied target done w' :=
  hs.cuts hp (cuts_of_runs h)

/-- Preparations leave what the catalogue is made of. -/
theorem VaultStore.Stage.node {p : Prog Op Op.Reply α} {a : α} {q : FsPath} {n : Node}
    (hs : store.Stage lib uid added occupied target done w)
    (hp : Uses (store.Preparatory lib uid added occupied env allowed target) p)
    (h : (machine env allowed).Runs p w a w') (hq : store.Guarded added occupied q)
    (hnode : w.fs.node q = some n) : w'.fs.node q = some n := by
  have hboth : store.Stage lib uid added occupied target done w' ∧ w'.fs.node q = some n := by
    refine cuts_of_uses (I := fun t : World => store.Stage lib uid added occupied target done t ∧
      t.fs.node q = some n) ?_ hp ⟨hs, hnode⟩ (cuts_of_runs h)
    rintro op s r t hop ⟨hs, hnode⟩ hmay
    refine ⟨hs.step hop hmay, ?_⟩
    have hkeeps := hop.1 s r t hs.catalogued hmay
    rw [hkeeps.nodes q hq (by rw [hnode]; exact Option.some_ne_none _), hnode]
  exact hboth.2

/-! ## The staging directory -/

theorem not_sensitive_of_dotted {hidden : String} (hhidden : Dotted hidden) {q : FsPath}
    (hq : store.Sensitive q) : ¬ store.usersRoot ++ [hidden] <+: q := by
  intro hpre
  rcases hq with hshort | ⟨parent, name, hparent, rfl, _⟩
  · have hlen := (hpre.trans hshort).length_le
    simp only [List.length_append, List.length_singleton] at hlen
    omega
  · have hsplit : store.usersRoot ++ [parent, name] = store.usersRoot ++ [parent] ++ [name] := by
      simp
    rw [hsplit] at hpre
    rcases List.prefix_concat_iff.mp hpre with heq | hpre
    · have hlen := congrArg List.length heq
      simp at hlen
    · have heq := hpre.eq_of_length (by simp)
      obtain ⟨_, hlast⟩ := List.append_inj' heq rfl
      exact hparent (List.singleton_inj.mp hlast ▸ hhidden)

/-- **Calls in the staging directory** are preparations. -/
theorem preparatory_below (op : Op) {hidden : String} (hhidden : Dotted hidden)
    (hop : ∀ fs q, op.MayChange env fs q → store.usersRoot ++ [hidden] <+: q)
    (hlocks : ¬ op.TouchesLocks) (hrename : ∀ source, op ≠ .rename source target) :
    store.Preparatory lib uid added occupied env allowed target op := by
  have hgentle : store.Gentle lib uid added occupied env allowed 0 op :=
    gentle_of_spares (fun q hq fs hchange => not_sensitive_of_dotted hhidden hq (hop fs q hchange))
      hlocks
  exact ⟨hgentle.keeping, hrename⟩

/-- A dotted directory beside or away from the users directory is above no profile. -/
theorem VaultStore.Catalogued.not_above_of_dotted {fs : FileSystem} {parent : FsPath}
    {hidden : String} (hfs : store.Catalogued lib uid added occupied fs) (hhidden : Dotted hidden)
    (hbelow : ¬ parent ++ [hidden] <+: store.usersRoot) {q : FsPath}
    (hq : store.Guarded added occupied q) : ¬ parent ++ [hidden] <+: q := by
  have hfile : ∀ name last, ¬ Dotted name → ¬ Dotted last →
      ¬ parent ++ [hidden] <+: store.usersRoot ++ [name] ++ [last] := fun name last hname hlast =>
    not_prefix_of_dotted hhidden hlast (not_prefix_of_dotted hhidden hname hbelow)
  rcases hq with hpre | ⟨u, hu, rfl⟩ | ⟨name, hname, rfl⟩
  · exact fun hq => hbelow (hq.trans hpre)
  · exact hfile _ "manifest.json" (hfs.profiles u hu).undotted (by decide)
  · have hsplit : store.usersRoot ++ [name, "codex-home"] =
        store.usersRoot ++ [name] ++ ["codex-home"] := by simp
    rw [hsplit]
    exact hfile name "codex-home" (hfs.undotted name hname) (by decide)

theorem preparatory_removeTree {parent : FsPath} {hidden : String} (hhidden : Dotted hidden)
    (hbelow : ¬ parent ++ [hidden] <+: store.usersRoot) :
    store.Preparatory lib uid added occupied env allowed target
      (.removeTree (parent ++ [hidden])) :=
  ⟨fun _ _ _ hw hmay => keeps_of_removeTree (fun _ hq => hw.not_above_of_dotted hhidden hbelow hq)
    hmay, nofun⟩

theorem not_prefix_usersRoot {hidden : String} :
    ¬ store.usersRoot ++ [hidden] <+: store.usersRoot := by
  intro hpre
  have hlen := hpre.length_le
  simp only [List.length_append, List.length_singleton] at hlen
  omega

theorem added_of_createTemporaryDirectory {r : Except IoError FsPath}
    (h : (machine env allowed).may .createTemporaryDirectory w r w') :
    w.fs.DirectoriesAdded env env.directoryMode
      (fun q => ∃ oracle, allowed oracle ∧ q = env.tempDir ++ [oracle.name]) w'.fs := by
  cases r with
  | ok p =>
      obtain ⟨hnone, hmade⟩ := may_createTemporaryDirectory_ok h
      intro q
      by_cases hq : q = p
      · rw [hmade q, if_pos hq, hq]
        exact .inr ⟨hnone, may_createTemporaryDirectory_path h, rfl⟩
      · exact .inl ((hmade q).trans (if_neg hq))
  | error e =>
      obtain ⟨oracle, w1, _, _, hrespond, rfl⟩ := respond_of_may h
      cases hchange : w.change oracle.fault w.fs
          (w.fs.makeDirectory env env.directoryMode (env.tempDir ++ [oracle.name])) with
      | mk result w2 =>
          unfold respond at hrespond
          dsimp only at hrespond
          rw [hchange] at hrespond
          cases result with
          | error e =>
              cases hrespond
              rw [World.change_eq_error hchange]
              exact .refl w.fs
          | ok u => cases congrArg Prod.fst hrespond

theorem usersRoot_ne_of_dotted {parent : FsPath} {hidden : String} (hhidden : Dotted hidden) :
    store.usersRoot ≠ parent ++ [hidden] := by
  intro heq
  obtain ⟨_, hlast⟩ := List.append_inj' heq rfl
  rw [← List.singleton_inj.mp hlast] at hhidden
  revert hhidden
  decide

theorem preparatory_createTemporaryDirectory (huid : env.uid = uid)
    (hdotted : ∀ oracle, allowed oracle → oracle.Dotted) :
    store.Preparatory lib uid added occupied env allowed target .createTemporaryDirectory := by
  refine ⟨fun _ _ _ _ hmay => ?_, nofun⟩
  refine keeps_of_added huid (added_of_createTemporaryDirectory hmay) ?_
  rintro ⟨oracle, hallowed, hpath⟩
  exact absurd hpath (usersRoot_ne_of_dotted (hdotted oracle hallowed))

/-! ## The commit -/

theorem not_prefix_entry {parent other last : String} (h : other ≠ parent) :
    ¬ store.usersRoot ++ [other] <+: store.usersRoot ++ [parent] ++ [last] := by
  intro hpre
  rcases List.prefix_concat_iff.mp hpre with heq | hpre
  · have hlen := congrArg List.length heq
    simp at hlen
  · obtain ⟨_, hlast⟩ := List.append_inj' (hpre.eq_of_length (by simp)) rfl
    exact h (List.singleton_inj.mp hlast)

/-- **The commit of a creation**: a directory with a complete manifest takes its place
among the profiles. -/
theorem VaultStore.Catalogued.created {hidden : String} {contents : Bytes} {holes : Bool}
    {m : UserManifest} (hw : store.Catalogued lib uid added occupied w.fs)
    (hhidden : Dotted hidden) (hvalid : isValidUsername username = true)
    (hroot : ∃ attr, w.fs.node store.root = some (.directory attr) ∧ attr.owner = uid ∧
      attr.mode &&& 0o077 = 0)
    (hfile : w.fs.node (store.usersRoot ++ [hidden] ++ ["manifest.json"]) =
      some (.file { owner := uid, mode := 0o600 } contents holes))
    (hparse : parseManifest lib contents = .ok m) (hm : m.username = username)
    (hmay : (machine env allowed).may
      (.rename (store.usersRoot ++ [hidden]) (store.userRoot username)) w (.ok ()) w') :
    store.Catalogued lib uid (added ++ [username]) occupied w'.fs := by
  obtain ⟨hgraft, hfs, hchildren, _⟩ := may_rename_ok hmay
  have hundotted := not_dotted_of_isValidUsername hvalid
  have hfree : ∀ parent last, w.fs.node (store.usersRoot ++ [parent] ++ [last]) ≠ none →
      parent ≠ toAsciiLowercase username := by
    rintro parent last hnode rfl
    refine hnode (FileSystem.hasChildren_eq_false hchildren (List.prefix_append _ _) ?_)
    intro heq
    have hlen := congrArg List.length heq
    simp [VaultStore.userRoot] at hlen
  have hsame : ∀ parent last, ¬ Dotted parent → parent ≠ toAsciiLowercase username →
      w'.fs.node (store.usersRoot ++ [parent] ++ [last]) =
        w.fs.node (store.usersRoot ++ [parent] ++ [last]) := by
    intro parent last hparent hne
    rw [hfs]
    exact FileSystem.node_graft_elsewhere
      (not_prefix_entry fun heq : hidden = parent => hparent (heq ▸ hhidden))
      (not_prefix_entry hne.symm)
  have hshort : ∀ q, q <+: store.usersRoot → w'.fs.node q = w.fs.node q := by
    intro q hq
    rw [hfs]
    exact FileSystem.node_graft_elsewhere (fun hpre => not_prefix_usersRoot (hpre.trans hq))
      fun hpre => not_prefix_usersRoot (hpre.trans hq)
  have hsplit : ∀ parent last, store.usersRoot ++ [parent, last] =
      store.usersRoot ++ [parent] ++ [last] := fun parent last => by simp
  have hold : ∀ u ∈ added, toAsciiLowercase u ≠ toAsciiLowercase username := by
    intro u hu
    apply hfree _ "manifest.json"
    exact (hw.profiles u hu).node_ne_none
  have hlower : (added ++ [username]).map toAsciiLowercase =
      added.map toAsciiLowercase ++ [toAsciiLowercase username] := by simp
  refine ⟨fun u hu => ?_, ?_, fun name hname hnot hisFile => ?_, fun _ => ?_, ?_,
    fun name hname => ?_, hw.undotted, fun name hname hmem => ?_⟩
  · rcases List.mem_append.mp hu with hu | hu
    · obtain ⟨hvalid, contents, holes, m, hnode, hparse⟩ := hw.profiles u hu
      refine ⟨hvalid, contents, holes, m, ?_, hparse⟩
      exact (hsame _ "manifest.json" (hw.profiles u hu).undotted (hold u hu)).trans hnode
    · rw [List.mem_singleton.mp hu]
      refine ⟨hvalid, contents, holes, m, ?_, hparse, hm⟩
      rw [hfs]
      exact (FileSystem.node_graft_below hgraft).trans hfile
  · rw [hlower, List.nodup_append]
    refine ⟨hw.distinct, List.nodup_singleton _, fun a ha b hb heq => ?_⟩
    obtain ⟨u, hu, rfl⟩ := List.mem_map.mp ha
    exact hold u hu (heq.trans (List.mem_singleton.mp hb))
  · rw [hlower] at hnot
    have hne : name ≠ toAsciiLowercase username := fun heq =>
      hnot (List.mem_append_right _ (List.mem_singleton.mpr heq))
    rw [hsplit, hsame name _ hname hne, ← hsplit] at hisFile
    exact hw.others name hname (fun hmem => hnot (List.mem_append_left _ hmem)) hisFile
  · rw [hshort store.root (List.prefix_append _ _)]
    exact hroot
  · rw [hshort store.usersRoot List.prefix_rfl]
    exact hw.users
  · have hhome := hw.homes name hname
    rw [hsplit] at hhome ⊢
    rw [hsame name _ (hw.undotted name hname) (hfree name _ hhome)]
    exact hhome
  · rw [hlower] at hmem
    rcases List.mem_append.mp hmem with hmem | hmem
    · exact hw.apart name hname hmem
    · have hhome := hw.homes name hname
      rw [hsplit] at hhome
      exact hfree name _ hhome (List.mem_singleton.mp hmem)

theorem VaultStore.Ready.runs {p : Prog Op Op.Reply α} {a : α}
    (h : store.Ready lib uid added occupied target w)
    (hp : Uses (store.Preparatory lib uid added occupied env allowed target) p)
    (hrun : (machine env allowed).Runs p w a w') :
    store.Ready lib uid added occupied target w' := by
  obtain ⟨attr, hroot, hprivate⟩ := h.root
  obtain ⟨n, husers⟩ := Option.ne_none_iff_exists'.mp h.users
  refine ⟨h.stage.runs hp hrun, ⟨attr, ?_, hprivate⟩, ?_⟩
  · exact h.stage.node hp hrun (.inl (List.prefix_append _ _)) hroot
  · rw [h.stage.node hp hrun (.inl List.prefix_rfl) husers]
    exact Option.some_ne_none _

/-- The calls that seal a session into the staging directory. -/
theorem sealCalls_preparatory {directory : FsPath} {hidden : String} {id : Uuid}
    (hhidden : Dotted hidden) :
    SealCalls (store.Preparatory lib uid added occupied env allowed (store.userRoot username))
      directory (sealTemporary lib (store.usersRoot ++ [hidden] ++ ["state.cvlt"]) id)
      (store.usersRoot ++ [hidden] ++ ["state.cvlt"]) := by
  rw [sealTemporary_state]
  have hbelow : ∀ name : String, ∀ q, q = store.usersRoot ++ [hidden] ++ [name] →
      store.usersRoot ++ [hidden] <+: q := by
    rintro name q rfl
    exact List.prefix_append _ _
  refine ⟨preparatory_below (.createFile _) hhidden (fun _ q hq => hbelow _ q hq.1) (fun h => h)
      nofun,
    preparatory_of_readOnly (.random 12) (fun _ _ h => h) (fun h => h) nofun,
    preparatory_of_readOnly (.readTree _) (fun _ _ h => h) (fun h => h) nofun,
    fun contents => preparatory_below (.store _ contents) hhidden (fun _ q hq => hbelow _ q hq)
      (fun h => h) nofun,
    preparatory_of_readOnly (.sync _) (fun _ _ h => h) (fun h => h) nofun, ?_,
    preparatory_below (.removeFile _) hhidden (fun _ q hq => hbelow _ q hq) (fun h => h)
      nofun⟩
  refine preparatory_below (.rename _ _) hhidden (fun _ q hq => ?_) (fun h => h) fun _ h => ?_
  · rcases hq with hpre | hpre
    · exact (List.prefix_append _ _).trans hpre
    · exact (List.prefix_append _ _).trans hpre
  · -- the state file lies one level deeper than a profile
    have hlen := congrArg List.length (Op.rename.inj h).2
    simp [VaultStore.userRoot] at hlen

/-- **The commit of a creation**, wherever it is cut off. -/
theorem commitProfile_stage {directory : FsPath} {dataKey : Key} {hidden : String}
    {contents : Bytes} {m : UserManifest} (huid : env.uid = uid) (hhidden : Dotted hidden)
    (hvalid : isValidUsername username = true)
    (hw : store.Ready lib uid added occupied (store.userRoot username) w)
    (hfile : w.fs.node (store.usersRoot ++ [hidden] ++ ["manifest.json"]) =
      some (.file (env.attr 0o600) contents false))
    (hparse : parseManifest lib contents = .ok m) (hm : m.username = username)
    (hcut : (machine env allowed).Cuts (do
        sealDirectory lib directory (store.usersRoot ++ [hidden] ++ ["state.cvlt"]) dataKey
        sys (request (.rename (store.usersRoot ++ [hidden]) (store.userRoot username))) :
          Io Unit).run w w') :
    store.Stage lib uid added occupied (store.userRoot username) false w' ∨
      store.Stage lib uid (added ++ [username]) occupied (store.userRoot username) true w' := by
  have hcalls : Uses
      (store.Preparatory lib uid added occupied env allowed (store.userRoot username))
      (sealDirectory lib directory (store.usersRoot ++ [hidden] ++ ["state.cvlt"]) dataKey).run :=
    uses_sealDirectory
      (preparatory_of_readOnly .newUuid (fun _ _ h => h) (fun h => h) nofun)
      fun _ => sealCalls_preparatory hhidden
  rcases cuts_run_bind hcut with hcut | ⟨_, w1, hseal, hcut⟩
  · exact .inl (hw.stage.cuts hcalls hcut)
  have h1 := hw.runs hcalls hseal
  obtain ⟨_, _, _, _, _, _, hsealed⟩ := sealDirectory_ok hseal
  have hmanifest : w1.fs.node (store.usersRoot ++ [hidden] ++ ["manifest.json"]) =
      some (.file (env.attr 0o600) contents false) := by
    rw [hsealed, if_neg (concat_ne (by decide)), if_neg, hfile]
    rintro (heq | hpre)
    · exact concat_ne stateTemporary_ne.2.1.symm heq
    · exact not_prefix_concat (by decide) hpre
  rcases cuts_perform (cuts_mapError hcut) with rfl | ⟨r, hmay⟩
  · exact .inl h1.stage
  have heffect := tookEffect_of_rename hmay
  rw [h1.stage.effect] at heffect
  cases r with
  | error e =>
      have hkeeps : store.Keeps uid added occupied w1.fs w'.fs :=
        keeps_of_same (may_rename_error hmay)
      exact .inl ⟨h1.stage.catalogued.keeps hkeeps, heffect⟩
  | ok u =>
      refine .inr ⟨?_, heffect⟩
      rw [show env.attr 0o600 = { owner := uid, mode := 0o600 } by rw [← huid]; rfl] at hmanifest
      exact h1.stage.catalogued.created hhidden hvalid h1.root hmanifest hparse hm hmay

/-! ## A creation -/

/-- What the creation of a profile needs of the machine: temporary names begin with a
dot, and the clock does not read the epoch. -/
structure Sane (allowed : Oracle → Prop) : Prop where
  dotted : ∀ oracle, allowed oracle → oracle.Dotted
  clock : ∀ oracle, allowed oracle → oracle.clock ≠ some 0

/-- The manifest a creation writes can be read. -/
theorem parse_of_created (A : LawfulAead) (hA : lib.aead = A.toAead) (laws : TextLaws lib)
    (sane : Sane allowed) {salt : FixedBytes 16} {header : UserManifest} {wrapped : WrappedKey}
    {nonce : FixedBytes 12} {dataKey wrappingKey : Key} {aad : Bytes} {w1 w2 : World}
    (hvalid : isValidUsername username = true)
    (hheader : (machine env allowed).Runs
      (UserManifest.newHeader lib username (kdfParametersFor lib salt)).run w1 (.ok header) w2)
    (hwrap : wrapWithNonce lib nonce dataKey wrappingKey aad = .ok wrapped) :
    parseManifest lib (lib.toJson { header with wrappedDataKey := wrapped } ++ [10]) =
      .ok { header with wrappedDataKey := wrapped } ∧ header.username = username := by
  obtain ⟨hversion, ⟨id, hid⟩, hname, hkdf, hformat, oracle, hallowed, hclock⟩ :=
    newHeader_ok hheader
  have hwritten := written_of_wrapWithNonce A hA hwrap
  refine ⟨parseManifest_written laws ⟨hversion, ?_, ?_, ?_, hformat, hwritten.algorithm⟩
    ⟨salt, hkdf⟩ hwritten, hname⟩
  · rw [hid, laws.parse_uuidText]
    exact Option.some_ne_none _
  · rw [hname]
    exact hvalid
  · intro hzero
    exact sane.clock oracle hallowed (hzero ▸ hclock)

/-- **The making of a profile**, wherever it is cut off. -/
theorem createProfile_stage {password : Bytes} {hidden : String} (A : LawfulAead)
    (hA : lib.aead = A.toAead) (laws : TextLaws lib) (sane : Sane allowed) (huid : env.uid = uid)
    (hhidden : Dotted hidden) (hvalid : isValidUsername username = true)
    (hw : store.Ready lib uid added occupied (store.userRoot username) w)
    (hcut : (machine env allowed).Cuts (VaultStore.createProfile lib username password
      (store.usersRoot ++ [hidden]) (store.userRoot username)).run w w') :
    store.Stage lib uid added occupied (store.userRoot username) false w' ∨
      store.Stage lib uid (added ++ [username]) occupied (store.userRoot username) true w' := by
  have hreadOnly : ∀ op : Op, op.ReadOnly env → ¬ op.TouchesLocks →
      (∀ source, op ≠ .rename source (store.userRoot username)) →
      store.Preparatory lib uid added occupied env allowed (store.userRoot username) op :=
    preparatory_of_readOnly
  have hrandom : ∀ n, store.Preparatory lib uid added occupied env allowed
      (store.userRoot username) (.random n) := fun n =>
    hreadOnly _ (fun _ _ h => h) (fun h => h) nofun
  -- the manifest is made
  rcases cuts_run_bind hcut with hcut | ⟨kdf, w1, hkdf, hcut⟩
  · exact .inl (hw.stage.cuts (uses_defaultKdfParameters (hrandom _)) hcut)
  have h1 := hw.runs (uses_defaultKdfParameters (hrandom _)) hkdf
  obtain ⟨saltOracle, _, rfl⟩ := defaultKdfParameters_ok hkdf
  rcases cuts_run_bind hcut with hcut | ⟨wrappingKey, w2, hderive, hcut⟩
  · exact .inl (h1.stage.cuts uses_ofExcept hcut)
  have h2 := h1.runs uses_ofExcept hderive
  rcases cuts_run_bind hcut with hcut | ⟨drawn, w3, hdraw, hcut⟩
  · exact .inl (h2.stage.cuts (uses_ask (hrandom _)) hcut)
  have h3 := h2.runs (uses_ask (hrandom _)) hdraw
  cases drawn with
  | none => exact .inl (h3.stage.cuts uses_run_throw hcut)
  | some dataKey =>
  have hnow := hreadOnly .now (fun _ _ h => h) (fun h => h) nofun
  have hnewUuid := hreadOnly .newUuid (fun _ _ h => h) (fun h => h) nofun
  rcases cuts_run_bind hcut with hcut | ⟨header, w4, hheader, hcut⟩
  · exact .inl (h3.stage.cuts (uses_newHeader hnow hnewUuid) hcut)
  have h4 := h3.runs (uses_newHeader hnow hnewUuid) hheader
  rcases cuts_run_bind hcut with hcut | ⟨aad, w5, haad, hcut⟩
  · exact .inl (h4.stage.cuts uses_ofExcept hcut)
  have h5 := h4.runs uses_ofExcept haad
  rcases cuts_run_bind hcut with hcut | ⟨wrapped, w6, hwrap, hcut⟩
  · exact .inl (h5.stage.cuts (uses_wrapDataKey (hrandom _)) hcut)
  have h6 := h5.runs (uses_wrapDataKey (hrandom _)) hwrap
  obtain ⟨nonce, hwrapped⟩ := wrapDataKey_ok hwrap
  obtain ⟨hparse, hname⟩ := parse_of_created A hA laws sane hvalid hheader hwrapped
  -- it is written to the staging directory
  have hfile : ∀ q, q = store.usersRoot ++ [hidden] ++ ["manifest.json"] →
      store.usersRoot ++ [hidden] <+: q := fun q hq => hq ▸ List.prefix_append _ _
  have hwrite : Uses (store.Preparatory lib uid added occupied env allowed
      (store.userRoot username)) (writePrivateJson lib
        (store.usersRoot ++ [hidden] ++ ["manifest.json"])
        { header with wrappedDataKey := wrapped }).run :=
    uses_writePrivateJson
      (preparatory_below _ hhidden (fun _ q hq => hfile q hq.1) (fun h => h) nofun)
      (fun _ => preparatory_below _ hhidden (fun _ q hq => hfile q hq) (fun h => h) nofun)
      (hreadOnly _ (fun _ _ h => h) (fun h => h) nofun)
  rcases cuts_run_bind hcut with hcut | ⟨_, w7, hwritten, hcut⟩
  · exact .inl (h6.stage.cuts hwrite hcut)
  have h7 := h6.runs hwrite hwritten
  have hmanifest := ((writePrivateJson_ok hwritten).2
    (store.usersRoot ++ [hidden] ++ ["manifest.json"])).trans (if_pos rfl)
  -- an empty directory is made elsewhere
  have hmake : store.Preparatory lib uid added occupied env allowed (store.userRoot username)
      .createTemporaryDirectory := preparatory_createTemporaryDirectory huid sane.dotted
  rcases cuts_run_bind hcut with hcut | ⟨empty, w8, hempty, hcut⟩
  · exact .inl (h7.stage.cuts (uses_sys (uses_request hmake)) hcut)
  have h8 := h7.runs (uses_sys (uses_request hmake)) hempty
  have hempty := runs_request.mp (runs_sys_ok.mp hempty)
  obtain ⟨hmissing, hmade⟩ := may_createTemporaryDirectory_ok hempty
  obtain ⟨nameOracle, hallowed, rfl⟩ := may_createTemporaryDirectory_path hempty
  have hdotted := sane.dotted nameOracle hallowed
  have hbelow : ¬ env.tempDir ++ [nameOracle.name] <+: store.usersRoot := fun hpre =>
    h7.users (FileSystem.node_eq_none_below hpre hmissing)
  have hkept : w8.fs.node (store.usersRoot ++ [hidden] ++ ["manifest.json"]) =
      some (.file (env.attr 0o600) (lib.toJson { header with wrappedDataKey := wrapped } ++ [10])
        false) := by
    rw [hmade, if_neg, hmanifest]
    intro heq
    rw [heq, hmissing] at hmanifest
    cases hmanifest
  -- the commit, and what follows it
  rcases cuts_attempt_bind hcut with hcut | ⟨result, w9, hruns, hcut⟩
  · exact commitProfile_stage huid hhidden hvalid h8 hkept hparse hname hcut
  have hrest : ∀ added' done,
      store.Stage lib uid added' occupied (store.userRoot username) done w9 →
      store.Stage lib uid added' occupied (store.userRoot username) done w' := by
    intro added' done h9
    refine h9.cuts (uses_run_bind (uses_lift (uses_ignore (uses_request
      (preparatory_removeTree hdotted hbelow)))) fun _ => uses_ofExcept) hcut
  have hcut9 := cuts_of_runs hruns
  rcases commitProfile_stage huid hhidden hvalid h8 hkept hparse hname hcut9 with h9 | h9
  · exact .inl (hrest added false h9)
  · exact .inr (hrest (added ++ [username]) true h9)

/-- **A creation**, wherever it is cut off. -/
theorem addUser_stage {password : Bytes} (A : LawfulAead) (hA : lib.aead = A.toAead)
    (laws : TextLaws lib) (sane : Sane allowed) (huid : env.uid = uid)
    (hw : store.Stage lib uid added occupied (store.userRoot username) false w)
    (hcut : (machine env allowed).Cuts (store.addUser lib env username password).run w w') :
    store.Stage lib uid added occupied (store.userRoot username) false w' ∨
      store.Stage lib uid (added ++ [username]) occupied (store.userRoot username) true w' := by
  have hlstat : ∀ p, store.Preparatory lib uid added occupied env allowed
      (store.userRoot username) (.lstat p) := fun _ =>
    preparatory_of_readOnly _ (fun _ _ h => h) (fun h => h) nofun
  have hensure : ∀ p, Uses (store.Preparatory lib uid added occupied env allowed
      (store.userRoot username)) (ensurePrivateDirectory env p).run := fun p =>
    uses_ensurePrivateDirectory (hlstat p) (preparatory_createDirectories huid)
  rcases cuts_run_bind hcut with hcut | ⟨_, w1, hchecked, hcut⟩
  · exact .inl (hw.cuts uses_ofExcept hcut)
  have hvalid := validateUsername_ok (runs_ofExcept.mp hchecked).1.symm
  rw [(runs_ofExcept.mp hchecked).2] at hcut
  rcases cuts_run_bind hcut with hcut | ⟨_, w2, hpassword, hcut⟩
  · exact .inl (hw.cuts uses_ofExcept hcut)
  rw [(runs_ofExcept.mp hpassword).2] at hcut
  -- the directories of the store are made
  have hinitialize : Uses (store.Preparatory lib uid added occupied env allowed
      (store.userRoot username)) (store.initializeStore env).run :=
    uses_run_bind (hensure _) fun _ => hensure _
  rcases cuts_run_bind hcut with hcut | ⟨_, w3, hinit, hcut⟩
  · exact .inl (hw.cuts hinitialize hcut)
  have h3 : store.Ready lib uid added occupied (store.userRoot username) w3 := by
    obtain ⟨_, t, hroot, husers⟩ := runs_ok_bind.mp hinit
    obtain ⟨attr, hattr, howner, hmode⟩ := ensurePrivateDirectory_ok hroot
    obtain ⟨attr', hattr', _⟩ := ensurePrivateDirectory_ok husers
    have ht := hw.runs (hensure _) hroot
    refine ⟨hw.runs hinitialize hinit, ⟨attr, ?_, howner.trans huid, hmode⟩, ?_⟩
    · exact ht.node (hensure _) husers (.inl (List.prefix_append _ _)) hattr
    · rw [hattr']
      exact Option.some_ne_none _
  rcases cuts_attempt_bind hcut with hcut | ⟨found, w4, hfound, hcut⟩
  · exact .inl (h3.stage.cuts (uses_sys (uses_request (hlstat _))) hcut)
  have h4 := h3.runs (uses_sys (uses_request (hlstat _))) hfound
  cases found with
  | ok status => exact .inl (h4.stage.cuts uses_run_throw hcut)
  | error e =>
      have hnewUuid : store.Preparatory lib uid added occupied env allowed
          (store.userRoot username) .newUuid :=
        preparatory_of_readOnly _ (fun _ _ h => h) (fun h => h) nofun
      rcases cuts_run_bind hcut with hcut | ⟨id, w5, hid, hcut⟩
      · exact .inl (h4.stage.cuts (uses_ask hnewUuid) hcut)
      have h5 := h4.runs (uses_ask hnewUuid) hid
      rcases cuts_run_bind hcut with hcut | ⟨_, w6, hstaging, hcut⟩
      · exact .inl (h5.stage.cuts (hensure _) hcut)
      have h6 := h5.runs (hensure _) hstaging
      have hhidden : Dotted (".creating-" ++ lib.uuidText id) := by
        simp [Dotted]
      rcases cuts_onError hcut with hcut | ⟨_, w7, hfail, hcut⟩
      · exact createProfile_stage A hA laws sane huid hhidden hvalid h6 hcut
      have hclean : ∀ added' done,
          store.Stage lib uid added' occupied (store.userRoot username) done w7 →
          store.Stage lib uid added' occupied (store.userRoot username) done w' := by
        intro added' done h7
        exact h7.cuts (uses_ignore (uses_request
          (preparatory_removeTree hhidden not_prefix_usersRoot))) hcut
      have hcut7 := cuts_of_runs hfail
      rcases createProfile_stage A hA laws sane huid hhidden hvalid h6 hcut7 with h7 | h7
      · exact .inl (hclean added false h7)
      · exact .inr (hclean (added ++ [username]) true h7)

end

end CodexVault
