import CodexVault.AcceptedManifests
import CodexVault.Pools

/-!
# The profiles of a store

`Catalogued` says which profiles a store holds: each of them complete, and nothing
else in the users directory that could be taken for one.  Runtime directories may lie
there too; the names of those in use are `occupied`.

`Keeps` is what all calls but two do to it, the replacement of a manifest and the
commit of a new profile.  `Spared` is what the holder of a profile lock relies on
when others make calls.  `Gentle` calls do both.
-/

namespace CodexVault

open ByteStrings Programs Contract

/-- The name of a temporary manifest. -/
def temporaryManifest (id : String) : String := ".manifest-" ++ id ++ ".tmp"

theorem dotted_temporaryManifest (id : String) : Dotted (temporaryManifest id) := by
  simp [Dotted, temporaryManifest]

namespace VaultStore

/-- A profile whose manifest can be read. -/
structure Complete (lib : Libraries) (store : VaultStore) (uid : UInt32) (username : String)
    (fs : FileSystem) : Prop where
  valid : isValidUsername username = true
  manifest : ∃ contents holes m,
    fs.node (store.manifestPath username) =
      some (.file { owner := uid, mode := 0o600 } contents holes) ∧
    parseManifest lib contents = .ok m ∧ m.username = username

/-- The store holds these profiles, and nothing that looks like another. -/
structure Catalogued (lib : Libraries) (store : VaultStore) (uid : UInt32) (added : List String)
    (occupied : String → Prop) (fs : FileSystem) : Prop where
  profiles : ∀ username ∈ added, store.Complete lib uid username fs
  distinct : (added.map toAsciiLowercase).Nodup
  others : ∀ name, ¬ Dotted name → name ∉ added.map toAsciiLowercase →
    ¬ Node.IsFile (fs.node (store.usersRoot ++ [name, "manifest.json"]))
  root : added ≠ [] → ∃ attr, fs.node store.root = some (.directory attr) ∧ attr.owner = uid ∧
    attr.mode &&& 0o077 = 0
  users : fs.node store.usersRoot = none ∨
    fs.node store.usersRoot = some (.directory { owner := uid, mode := 0o700 })
  homes : ∀ name, occupied name → fs.node (store.usersRoot ++ [name, "codex-home"]) ≠ none
  undotted : ∀ name, occupied name → ¬ Dotted name
  apart : ∀ name, occupied name → name ∉ added.map toAsciiLowercase

/-- The paths that make up the catalogue. -/
def Guarded (store : VaultStore) (added : List String) (occupied : String → Prop)
    (q : FsPath) : Prop :=
  q <+: store.usersRoot ∨ (∃ username ∈ added, q = store.manifestPath username) ∨
    ∃ name, occupied name ∧ q = store.usersRoot ++ [name, "codex-home"]

/-- What most calls do to the catalogue: nothing. -/
structure Keeps (store : VaultStore) (uid : UInt32) (added : List String)
    (occupied : String → Prop) (fs fs' : FileSystem) : Prop where
  nodes : ∀ q, store.Guarded added occupied q → fs.node q ≠ none → fs'.node q = fs.node q
  users : fs.node store.usersRoot = none → fs'.node store.usersRoot = none ∨
    fs'.node store.usersRoot = some (.directory { owner := uid, mode := 0o700 })
  manifests : ∀ name, ¬ Dotted name →
    Node.IsFile (fs'.node (store.usersRoot ++ [name, "manifest.json"])) →
    Node.IsFile (fs.node (store.usersRoot ++ [name, "manifest.json"]))

/-- What a process relies on while it holds the lock of a profile. -/
structure Spared (store : VaultStore) (added : List String) (process : Nat) (w w' : World) :
    Prop where
  locks : ∀ path lock, lock.process = process → w.locked path = some lock →
    w'.locked path = some lock
  temporaries : ∀ username ∈ added, ∀ lock, lock.process = process →
    w.locked (store.lockPath username) = some lock → ∀ id n,
      w.fs.node (store.userRoot username ++ [temporaryManifest id]) = some n →
      w'.fs.node (store.userRoot username ++ [temporaryManifest id]) = some n

end VaultStore

section

variable {lib : Libraries} {store : VaultStore} {uid : UInt32} {added : List String}
    {occupied : String → Prop} {fs fs' fs'' : FileSystem} {w w' w'' : World} {process : Nat}
    {username : String}

/-! ## Paths in a store -/

theorem VaultStore.manifestPath_eq :
    store.manifestPath username =
      store.usersRoot ++ [toAsciiLowercase username, "manifest.json"] := by
  simp [VaultStore.manifestPath, VaultStore.userRoot]

/-- The name a profile has in the users directory is not mistaken for a temporary one. -/
theorem VaultStore.Complete.undotted (h : store.Complete lib uid username fs) :
    ¬ Dotted (toAsciiLowercase username) := not_dotted_of_isValidUsername h.valid

theorem VaultStore.Complete.node_ne_none (h : store.Complete lib uid username fs) :
    fs.node (store.manifestPath username) ≠ none := by
  obtain ⟨contents, holes, _, hnode, _⟩ := h.manifest
  rw [hnode]
  exact Option.some_ne_none _

/-- The directories of a profile that is there. -/
theorem VaultStore.Complete.isDirectory (h : store.Complete lib uid username fs) :
    fs.isDirectory (store.userRoot username) = true :=
  FileSystem.isDirectory_parent h.node_ne_none

theorem VaultStore.Complete.users (h : store.Complete lib uid username fs) :
    fs.isDirectory store.usersRoot = true := by
  refine FileSystem.isDirectory_above ((List.prefix_append _ _).trans (List.prefix_append _ _))
    ?_ h.node_ne_none
  intro heq
  have hlen := congrArg List.length heq
  simp at hlen

/-- A file that is taken for a manifest is that of a profile. -/
theorem VaultStore.Catalogued.mem_of_isFile {name : String}
    (h : store.Catalogued lib uid added occupied fs) (hname : ¬ Dotted name)
    (hfile : Node.IsFile (fs.node (store.usersRoot ++ [name, "manifest.json"]))) :
    ∃ username ∈ added, toAsciiLowercase username = name := by
  by_contra hnot
  exact h.others name hname (fun hmem => hnot (List.mem_map.mp hmem)) hfile

/-- One profile for each name. -/
theorem VaultStore.Catalogued.unique (h : store.Catalogued lib uid added occupied fs)
    {a b : String} (ha : a ∈ added) (hb : b ∈ added)
    (hab : toAsciiLowercase a = toAsciiLowercase b) : a = b :=
  List.inj_on_of_nodup_map h.distinct ha hb hab

/-! ## What keeps the catalogue -/

theorem VaultStore.Catalogued.keeps (h : store.Catalogued lib uid added occupied fs)
    (hkeeps : store.Keeps uid added occupied fs fs') :
    store.Catalogued lib uid added occupied fs' := by
  have hmanifest : ∀ u ∈ added,
      fs'.node (store.manifestPath u) = fs.node (store.manifestPath u) := fun u hu =>
    hkeeps.nodes _ (.inr (.inl ⟨u, hu, rfl⟩)) (h.profiles u hu).node_ne_none
  refine ⟨fun u hu => ?_, h.distinct, fun name hname hnot hfile => ?_, fun hadded => ?_, ?_,
    fun name hname => ?_, h.undotted, h.apart⟩
  · obtain ⟨hvalid, contents, holes, m, hnode, hparse⟩ := h.profiles u hu
    exact ⟨hvalid, contents, holes, m, (hmanifest u hu).trans hnode, hparse⟩
  · exact h.others name hname hnot (hkeeps.manifests name hname hfile)
  · obtain ⟨attr, hnode, hprivate⟩ := h.root hadded
    refine ⟨attr, ?_, hprivate⟩
    rw [hkeeps.nodes store.root (.inl (List.prefix_append _ _)), hnode]
    rw [hnode]
    exact Option.some_ne_none _
  · rcases h.users with hnone | hnode
    · exact hkeeps.users hnone
    · right
      rw [hkeeps.nodes store.usersRoot (.inl List.prefix_rfl), hnode]
      rw [hnode]
      exact Option.some_ne_none _
  · rw [hkeeps.nodes _ (.inr (.inr ⟨name, hname, rfl⟩)) (h.homes name hname)]
    exact h.homes name hname

/-- Fewer names may be in use. -/
theorem VaultStore.Catalogued.vacate {occupied' : String → Prop}
    (h : store.Catalogued lib uid added occupied fs)
    (himp : ∀ name, occupied' name → occupied name) :
    store.Catalogued lib uid added occupied' fs :=
  ⟨h.profiles, h.distinct, h.others, h.root, h.users,
    fun name hname => h.homes name (himp name hname),
    fun name hname => h.undotted name (himp name hname),
    fun name hname => h.apart name (himp name hname)⟩

theorem VaultStore.Spared.refl : store.Spared added process w w :=
  ⟨fun _ _ _ h => h, fun _ _ _ _ _ _ _ h => h⟩

theorem VaultStore.Spared.trans (h : store.Spared added process w w')
    (h' : store.Spared added process w' w'') : store.Spared added process w w'' := by
  refine ⟨fun path lock hlock hheld => h'.locks path lock hlock (h.locks path lock hlock hheld), ?_⟩
  intro u hu lock hlock hheld id n hnode
  exact h'.temporaries u hu lock hlock (h.locks _ lock hlock hheld) id n
    (h.temporaries u hu lock hlock hheld id n hnode)

/-! ## Calls that make directories -/

variable {env : Env} {allowed : Oracle → Prop}

theorem keeps_of_added {mode : Nat} {root : FsPath → Prop} (huid : env.uid = uid)
    (h : fs.DirectoriesAdded env mode root fs') (hmode : root store.usersRoot → mode = 0o700) :
    store.Keeps uid added occupied fs fs' := by
  refine ⟨fun q _ hne => ?_, fun hnone => ?_, fun name _ hfile => ?_⟩
  · rcases h q with hsame | ⟨hnone, _⟩
    · exact hsame
    · exact absurd hnone hne
  · rcases h store.usersRoot with hsame | ⟨_, hroot, hdir⟩
    · exact .inl (hsame.trans hnone)
    · exact .inr (hdir.trans (by rw [← huid, hmode hroot]; rfl))
  · rcases h (store.usersRoot ++ [name, "manifest.json"]) with hsame | ⟨_, _, hdir⟩
    · exact hsame ▸ hfile
    · obtain ⟨attr, contents, holes, hnode⟩ := hfile
      rw [hdir] at hnode
      cases hnode

theorem spared_of_added {mode : Nat} {root : FsPath → Prop}
    (h : w.fs.DirectoriesAdded env mode root w'.fs) (hlocked : w'.locked = w.locked) :
    store.Spared added process w w' := by
  refine ⟨fun path lock _ hheld => by rw [hlocked, hheld], fun u _ lock _ _ id n hnode => ?_⟩
  rcases h (store.userRoot u ++ [temporaryManifest id]) with hsame | ⟨hnone, _⟩
  · exact hsame.trans hnode
  · rw [hnode] at hnone
    cases hnone

/-- The call leaves the catalogue alone, and what other processes rely on. -/
def VaultStore.Gentle (lib : Libraries) (store : VaultStore) (uid : UInt32) (added : List String)
    (occupied : String → Prop) (env : Env) (allowed : Oracle → Prop) (process : Nat) (op : Op) :
    Prop :=
  ∀ w r w', store.Catalogued lib uid added occupied w.fs → (machine env allowed).may op w r w' →
    store.Keeps uid added occupied w.fs w'.fs ∧ ∀ i, i ≠ process → store.Spared added i w w'

theorem gentle_createDirectories {p : FsPath} (huid : env.uid = uid) :
    store.Gentle lib uid added occupied env allowed process (.createDirectories p) := by
  intro w r w' _ hmay
  have hadded := may_createDirectories hmay
  exact ⟨keeps_of_added huid hadded fun _ => rfl,
    fun i _ => spared_of_added hadded (locked_of_may id hmay)⟩

theorem added_of_makeDirectory {mode : Nat} {p : FsPath}
    (h : fs.makeDirectory env mode p = .ok fs') : fs.DirectoriesAdded env mode (· = p) fs' := by
  obtain ⟨hnone, hnode⟩ := FileSystem.makeDirectory_eq_ok h
  intro q
  by_cases hq : q = p
  · rw [hnode q, if_pos hq, hq]
    exact .inr ⟨hnone, rfl, rfl⟩
  · exact .inl ((hnode q).trans (if_neg hq))

theorem added_of_createDirectory {p : FsPath} {r : Except IoError Unit}
    (h : (machine env allowed).may (.createDirectory p) w r w') :
    w.fs.DirectoriesAdded env env.directoryMode (· = p) w'.fs := by
  obtain ⟨oracle, w1, _, _, hrespond, rfl⟩ := respond_of_may h
  cases r with
  | error e =>
      rw [World.change_eq_error hrespond]
      exact .refl w.fs
  | ok u =>
      obtain ⟨_, fs, hfs, rfl⟩ := World.change_eq_ok hrespond
      exact added_of_makeDirectory hfs

theorem gentle_createDirectory {p : FsPath} (huid : env.uid = uid) (hp : p ≠ store.usersRoot) :
    store.Gentle lib uid added occupied env allowed process (.createDirectory p) := by
  intro w r w' _ hmay
  have hadded := added_of_createDirectory hmay
  exact ⟨keeps_of_added huid hadded fun h => absurd h.symm hp,
    fun i _ => spared_of_added hadded (locked_of_may id hmay)⟩

/-! ## Calls that leave the profiles alone -/

/-- The paths of the users directory that matter. -/
def VaultStore.Sensitive (store : VaultStore) (q : FsPath) : Prop :=
  q <+: store.usersRoot ∨ ∃ parent name, ¬ Dotted parent ∧ q = store.usersRoot ++ [parent, name] ∧
    (name = "manifest.json" ∨ name = "codex-home" ∨ ∃ id, name = temporaryManifest id)

theorem VaultStore.Catalogued.sensitive (h : store.Catalogued lib uid added occupied fs)
    {q : FsPath} (hq : store.Guarded added occupied q) : store.Sensitive q := by
  rcases hq with hpre | ⟨u, hu, rfl⟩ | ⟨name, hname, rfl⟩
  · exact .inl hpre
  · exact .inr ⟨_, _, (h.profiles u hu).undotted, VaultStore.manifestPath_eq, .inl rfl⟩
  · exact .inr ⟨_, _, h.undotted name hname, rfl, .inr (.inl rfl)⟩

theorem sensitive_temporary {id : String} (h : ¬ Dotted (toAsciiLowercase username)) :
    store.Sensitive (store.userRoot username ++ [temporaryManifest id]) :=
  .inr ⟨_, _, h, by simp [VaultStore.userRoot], .inr (.inr ⟨id, rfl⟩)⟩

/-- **Calls elsewhere** are gentle. -/
theorem gentle_of_spares {op : Op} (hop : ∀ q, store.Sensitive q → op.Spares env q)
    (hlocks : ¬ op.TouchesLocks) :
    store.Gentle lib uid added occupied env allowed process op := by
  intro w r w' hw hmay
  have hsame : ∀ q, store.Sensitive q → w'.fs.node q = w.fs.node q := fun q hq =>
    node_of_may hmay (hop q hq w.fs)
  refine ⟨⟨fun q hq _ => hsame q (hw.sensitive hq), fun hnone => .inl ?_,
      fun name hname hfile => ?_⟩,
    fun i _ => ⟨fun path lock _ hheld => ?_, fun u hu lock _ _ id n hnode => ?_⟩⟩
  · rw [hsame _ (.inl List.prefix_rfl), hnone]
  · rwa [hsame _ (.inr ⟨name, "manifest.json", hname, rfl, .inl rfl⟩)] at hfile
  · rw [locked_of_may hlocks hmay, hheld]
  · rw [hsame _ (sensitive_temporary (hw.profiles u hu).undotted), hnode]

/-- A call that changes no file. -/
theorem gentle_of_readOnly {op : Op} (hop : op.ReadOnly env) (hlocks : ¬ op.TouchesLocks) :
    store.Gentle lib uid added occupied env allowed process op :=
  gentle_of_spares (fun q _ => hop q) hlocks

/-! ## Giving up a lock -/

theorem spared_of_released (path : FsPath) {lock : Handle} (hfs : w'.fs = w.fs)
    (hlocked : w'.locked = w.locked ∨ w'.locked = (w.release path lock).locked)
    (i : Nat) (hi : i ≠ lock.process) : store.Spared added i w w' := by
  refine ⟨fun q held hheld hq => ?_, fun u _ _ _ _ id n hnode => by rwa [hfs]⟩
  rcases hlocked with hsame | hreleased
  · rw [hsame, hq]
  · rw [hreleased, World.release_locked]
    split
    · next hown =>
        dsimp only
        rw [if_neg, hq]
        rintro rfl
        rw [hown] at hq
        cases hq
        exact hi hheld.symm
    · exact hq

theorem keeps_of_same (h : fs' = fs) : store.Keeps uid added occupied fs fs' := by
  rw [h]
  exact ⟨fun _ _ _ => rfl, .inl, fun _ _ hfile => hfile⟩

theorem gentle_unlockFile {path : FsPath} {lock : Handle} (hlock : lock.process = process) :
    store.Gentle lib uid added occupied env allowed process (.unlockFile path lock) := by
  intro w r w' _ hmay
  obtain ⟨hfs, hlocked⟩ := may_unlockFile hmay
  exact ⟨keeps_of_same hfs, fun i hi => spared_of_released path hfs hlocked i (hlock ▸ hi)⟩

theorem gentle_closeFile {path : FsPath} {lock : Handle} (hlock : lock.process = process) :
    store.Gentle lib uid added occupied env allowed process (.closeFile path lock) := by
  intro w r w' _ hmay
  obtain ⟨hfs, hlocked⟩ := may_closeFile hmay
  exact ⟨keeps_of_same hfs, fun i hi => spared_of_released path hfs (.inr hlocked) i (hlock ▸ hi)⟩

/-- A lock that is taken was in nobody else's hands. -/
theorem gentle_tryLock {path : FsPath} {lock : Handle} (hlock : lock.process = process) :
    store.Gentle lib uid added occupied env allowed process (.tryLock path lock) := by
  intro w r w' _ hmay
  cases r with
  | error e =>
      obtain ⟨hfs, hlocked⟩ := may_tryLock_error hmay
      exact ⟨keeps_of_same hfs,
        fun i hi => spared_of_released path hfs (.inl hlocked) i (hlock ▸ hi)⟩
  | ok u =>
      obtain ⟨hfs, hfree, hlocked⟩ := may_tryLock_ok hmay
      refine ⟨keeps_of_same hfs,
        fun i hi => ⟨fun q held hheld hq => ?_, fun u _ _ _ _ id n hnode => ?_⟩⟩
      · rw [hlocked, World.lock]
        split
        · next heq =>
            rw [heq] at hq
            rcases hfree with hnone | hown
            · rw [hnone] at hq
              cases hq
            · rw [hown] at hq
              exact hq
        · exact hq
      · rwa [hfs]

/-! ## Runtime directories -/

/-- The path is above nothing that matters to the store. -/
def VaultStore.Clear (store : VaultStore) (added : List String) (occupied : String → Prop)
    (p : FsPath) : Prop :=
  (∀ q, store.Guarded added occupied q → ¬ p <+: q) ∧
    ∀ username ∈ added, ∀ id, ¬ p <+: store.userRoot username ++ [temporaryManifest id]

/-- A removal leaves each path or takes it away. -/
theorem may_removeTree {p : FsPath} {r : Except IoError Unit}
    (h : (machine env allowed).may (.removeTree p) w r w') (q : FsPath) :
    w'.fs.node q = w.fs.node q ∨ w'.fs.node q = none := by
  obtain ⟨oracle, w1, _, _, hrespond, rfl⟩ := respond_of_may h
  cases r with
  | error e =>
      rw [World.change_eq_error hrespond]
      dsimp only [FileSystem.partlyRemoved]
      rw [FileSystem.node_prune]
      split
      · exact .inr rfl
      · exact .inl rfl
  | ok u =>
      obtain ⟨_, fs, hfs, rfl⟩ := World.change_eq_ok hrespond
      rw [FileSystem.treeRemoved_eq_ok hfs]
      split
      · exact .inr rfl
      · exact .inl rfl

theorem keeps_of_removeTree {p : FsPath} {r : Except IoError Unit}
    (hclear : ∀ q, store.Guarded added occupied q → ¬ p <+: q)
    (h : (machine env allowed).may (.removeTree p) w r w') :
    store.Keeps uid added occupied w.fs w'.fs := by
  refine ⟨fun q hq _ => node_of_may h (hclear q hq), fun hnone => .inl ?_, fun name _ hfile => ?_⟩
  · rcases may_removeTree h store.usersRoot with hsame | hgone
    · rw [hsame, hnone]
    · exact hgone
  · rcases may_removeTree h (store.usersRoot ++ [name, "manifest.json"]) with hsame | hgone
    · rwa [hsame] at hfile
    · obtain ⟨attr, contents, holes, hnode⟩ := hfile
      rw [hgone] at hnode
      cases hnode

theorem gentle_removeTree {p : FsPath} (hclear : store.Clear added occupied p) :
    store.Gentle lib uid added occupied env allowed process (.removeTree p) := by
  intro w r w' _ hmay
  refine ⟨keeps_of_removeTree hclear.1 hmay, fun i _ => ⟨fun path lock _ hheld => ?_, ?_⟩⟩
  · rw [locked_of_may id hmay, hheld]
  · intro u hu lock _ _ id n hnode
    rw [node_of_may hmay (hclear.2 u hu id), hnode]

/-- What is in a runtime directory is no manifest. -/
theorem not_prefix_manifest {p : FsPath} {name : String} (hp : ¬ p <+: store.usersRoot) :
    ¬ p ++ ["codex-home"] <+: store.usersRoot ++ [name, "manifest.json"] := by
  have hsplit : store.usersRoot ++ [name, "manifest.json"] =
      (store.usersRoot ++ [name]) ++ ["manifest.json"] := by simp
  rw [hsplit]
  intro hpre
  rcases List.prefix_concat_iff.mp hpre with heq | hpre
  · obtain ⟨_, hlast⟩ := List.append_inj' heq rfl
    exact absurd hlast (by decide)
  · rcases List.prefix_concat_iff.mp hpre with heq | hpre
    · obtain ⟨heq, _⟩ := List.append_inj' heq rfl
      exact hp (heq ▸ List.prefix_rfl)
    · exact hp ((List.prefix_append _ _).trans hpre)

theorem gentle_unpack {p path : FsPath} {entry : Unpacking}
    (hclear : store.Clear added occupied p) :
    store.Gentle lib uid added occupied env allowed process
      (.unpack (p ++ ["codex-home"]) path entry) := by
  intro w r w' _ hmay
  have hbelow : ∀ q, ¬ p <+: q → w'.fs.node q = w.fs.node q := fun q hq =>
    node_of_may hmay fun hpre => hq ((List.prefix_append _ _).trans hpre)
  have husers := hclear.1 store.usersRoot (.inl List.prefix_rfl)
  refine ⟨⟨fun q hq _ => hbelow q (hclear.1 q hq), fun hnone => .inl ?_, fun name _ hfile => ?_⟩,
    fun i _ => ⟨fun path lock _ hheld => ?_, fun u hu lock _ _ id n hnode => ?_⟩⟩
  · rw [hbelow _ husers, hnone]
  · rwa [node_of_may hmay (not_prefix_manifest husers)] at hfile
  · rw [locked_of_may id hmay, hheld]
  · rw [hbelow _ (hclear.2 u hu id), hnode]

/-! ## Replacing a manifest -/

theorem guarded_ne_temporary {q : FsPath} {id : String} (hq : store.Guarded added occupied q) :
    q ≠ store.userRoot username ++ [temporaryManifest id] := by
  have hlast : ∀ other, ¬ Dotted other → ∀ parent, parent ++ [other] ≠
      store.userRoot username ++ [temporaryManifest id] := by
    intro other hother parent heq
    obtain ⟨_, heq⟩ := List.append_inj' heq rfl
    exact hother (List.singleton_inj.mp heq ▸ dotted_temporaryManifest id)
  rcases hq with hpre | ⟨u, _, rfl⟩ | ⟨name, _, rfl⟩
  · rintro rfl
    have hlen := hpre.length_le
    simp only [VaultStore.userRoot, List.length_append, List.length_cons, List.length_nil] at hlen
    omega
  · exact hlast "manifest.json" (by decide) (store.userRoot u)
  · have hsplit : store.usersRoot ++ [name, "codex-home"] =
        (store.usersRoot ++ [name]) ++ ["codex-home"] := by simp
    rw [hsplit]
    exact hlast "codex-home" (by decide) _

theorem manifest_ne_temporary {name id : String} :
    store.usersRoot ++ [name, "manifest.json"] ≠
      store.userRoot username ++ [temporaryManifest id] := by
  have hsplit : store.usersRoot ++ [name, "manifest.json"] =
      (store.usersRoot ++ [name]) ++ ["manifest.json"] := by simp
  rw [hsplit]
  intro heq
  obtain ⟨_, hlast⟩ := List.append_inj' heq rfl
  exact absurd (List.singleton_inj.mp hlast ▸ dotted_temporaryManifest id) (by decide)

/-- The holder of a lock may change the temporary files of its profile. -/
theorem spared_of_own {id : String} {lock : Handle}
    (hheld : w.locked (store.lockPath username) = some lock) (hlocked : w'.locked = w.locked)
    (hsame : ∀ u ∈ added, ∀ other, store.userRoot u ++ [temporaryManifest other] ≠
      store.userRoot username ++ [temporaryManifest id] →
      w'.fs.node (store.userRoot u ++ [temporaryManifest other]) =
        w.fs.node (store.userRoot u ++ [temporaryManifest other]))
    (i : Nat) (hi : i ≠ lock.process) : store.Spared added i w w' := by
  refine ⟨fun path held _ hpath => by rw [hlocked, hpath], ?_⟩
  intro u hu held hprocess hat other n hnode
  rw [hsame u hu other, hnode]
  intro heq
  obtain ⟨hroot, _⟩ := List.append_inj' heq rfl
  unfold VaultStore.lockPath at hheld hat
  rw [hroot, hheld] at hat
  cases hat
  exact hi hprocess.symm

/-- A call on a temporary manifest, by the holder of the lock. -/
theorem keeps_of_own {op : Op} {r : op.Reply} {id : String} {lock : Handle}
    (hop : ∀ fs q, op.MayChange env fs q → q = store.userRoot username ++ [temporaryManifest id])
    (hlocks : ¬ op.TouchesLocks) (hheld : w.locked (store.lockPath username) = some lock)
    (hmay : (machine env allowed).may op w r w') :
    store.Keeps uid added occupied w.fs w'.fs ∧
      ∀ i, i ≠ lock.process → store.Spared added i w w' := by
  have hsame : ∀ q, q ≠ store.userRoot username ++ [temporaryManifest id] →
      w'.fs.node q = w.fs.node q := fun q hq => node_of_may hmay fun hchange => hq (hop _ q hchange)
  refine ⟨⟨fun q hq _ => hsame q (guarded_ne_temporary hq), fun hnone => .inl ?_,
    fun name _ hfile => ?_⟩, spared_of_own hheld (locked_of_may hlocks hmay)
      fun u _ other hne => hsame _ hne⟩
  · have hguarded : store.Guarded added occupied store.usersRoot := .inl List.prefix_rfl
    rw [hsame _ (guarded_ne_temporary hguarded), hnone]
  · rwa [hsame _ manifest_ne_temporary] at hfile

/-- One manifest is replaced, and nothing else changes. -/
theorem VaultStore.Catalogued.replaced (h : store.Catalogued lib uid added occupied fs)
    (hadded : username ∈ added) (hnew : store.Complete lib uid username fs')
    (hguarded : ∀ q, store.Guarded added occupied q → q ≠ store.manifestPath username →
      fs'.node q = fs.node q)
    (hothers : ∀ name, name ≠ toAsciiLowercase username →
      fs'.node (store.usersRoot ++ [name, "manifest.json"]) =
        fs.node (store.usersRoot ++ [name, "manifest.json"])) :
    store.Catalogued lib uid added occupied fs' := by
  have hshort : ∀ q, q <+: store.usersRoot → fs'.node q = fs.node q := by
    intro q hq
    apply hguarded q (.inl hq)
    rintro rfl
    have hlen := hq.length_le
    simp only [VaultStore.manifestPath, VaultStore.userRoot, List.length_append, List.length_cons,
      List.length_nil] at hlen
    omega
  have hname : toAsciiLowercase username ∈ added.map toAsciiLowercase :=
    List.mem_map.mpr ⟨username, hadded, rfl⟩
  refine ⟨fun u hu => ?_, h.distinct, fun name hdot hnot => ?_, fun hne => ?_, ?_,
    fun name hocc => ?_, h.undotted, h.apart⟩
  · by_cases heq : u = username
    · rwa [heq]
    · obtain ⟨hvalid, contents, holes, m, hnode, hparse⟩ := h.profiles u hu
      refine ⟨hvalid, contents, holes, m, ?_, hparse⟩
      rw [hguarded _ (.inr (.inl ⟨u, hu, rfl⟩)), hnode]
      intro hpath
      rw [VaultStore.manifestPath_eq, VaultStore.manifestPath_eq] at hpath
      have hlower := List.append_cancel_left hpath
      exact heq (h.unique hu hadded (List.cons.inj hlower).1)
  · rw [hothers name fun heq => hnot (heq ▸ hname)]
    exact h.others name hdot hnot
  · rw [hshort store.root (List.prefix_append _ _)]
    exact h.root hne
  · rw [hshort store.usersRoot List.prefix_rfl]
    exact h.users
  · rw [hguarded _ (.inr (.inr ⟨name, hocc, rfl⟩))]
    · exact h.homes name hocc
    · rw [VaultStore.manifestPath_eq]
      intro hpath
      have hlower := List.append_cancel_left hpath
      exact absurd (List.cons.inj hlower).2 (by decide)

/-- **The commit of a rotation**: a complete manifest takes the place of the old one. -/
theorem catalogued_of_commit {id : String} {lock : Handle} {contents : Bytes} {holes : Bool}
    {m : UserManifest} (hw : store.Catalogued lib uid added occupied w.fs)
    (hadded : username ∈ added)
    (hat : w.fs.node (store.userRoot username ++ [temporaryManifest id]) =
      some (.file { owner := uid, mode := 0o600 } contents holes))
    (hparse : parseManifest lib contents = .ok m) (hm : m.username = username)
    (hheld : w.locked (store.lockPath username) = some lock)
    (hmay : (machine env allowed).may (.rename
      (store.userRoot username ++ [temporaryManifest id]) (store.manifestPath username)) w (.ok ())
        w') :
    store.Catalogued lib uid added occupied w'.fs ∧
      ∀ i, i ≠ lock.process → store.Spared added i w w' := by
  obtain ⟨hgraft, hfs, _⟩ := may_rename_ok hmay
  have hnode := FileSystem.node_graft_file hgraft hat rfl
  rw [← hfs] at hnode
  have hsame : ∀ q, q ≠ store.userRoot username ++ [temporaryManifest id] →
      ¬ store.manifestPath username <+: q → w'.fs.node q = w.fs.node q := by
    intro q hq hpre
    have hne : q ≠ store.manifestPath username := fun heq => hpre (heq ▸ List.prefix_rfl)
    rw [hnode, if_neg hne, if_neg hq, if_neg hpre]
  have hlength : (store.manifestPath username).length = store.usersRoot.length + 2 := by
    rw [VaultStore.manifestPath_eq]
    simp
  constructor
  · apply hw.replaced hadded
    · refine ⟨(hw.profiles username hadded).valid, contents, holes, m, ?_, hparse, hm⟩
      rw [hnode, if_pos rfl]
    · intro q hq hne
      apply hsame q (guarded_ne_temporary hq)
      intro hpre
      refine hne (hpre.eq_of_length (le_antisymm hpre.length_le ?_)).symm
      rw [hlength]
      rcases hq with hq | ⟨u, _, rfl⟩ | ⟨name, _, rfl⟩
      · have hlen := hq.length_le
        omega
      · rw [VaultStore.manifestPath_eq]
        simp
      · simp
    · intro name hname
      apply hsame _ manifest_ne_temporary
      intro hpre
      have heq := hpre.eq_of_length (by rw [hlength]; simp)
      rw [VaultStore.manifestPath_eq] at heq
      exact hname (List.cons.inj (List.append_cancel_left heq)).1.symm
  · have hlocked : w'.locked = w.locked :=
      locked_of_may (show ¬ (Op.rename _ _).TouchesLocks from fun h => h) hmay
    apply spared_of_own hheld hlocked
    intro u hu other hne
    apply hsame _ hne
    intro hpre
    have hlen : (store.userRoot u ++ [temporaryManifest other]).length =
        (store.manifestPath username).length := by
      rw [hlength]
      simp [VaultStore.userRoot]
    have heq := hpre.eq_of_length hlen.symm
    rw [VaultStore.manifestPath_eq] at heq
    exact manifest_ne_temporary heq

end

end CodexVault
