import CodexVault.Commits

/-!
# What the calls of a store leave in place

A profile is two files, its manifest and its state.  A rotation replaces one of them and
a close the other; everything else that a call of the store does leaves the files of all
profiles in place, whether the call ends or is cut off.

An unlock knows that nothing lies in its runtime, since it has made it where nothing was.
-/

namespace CodexVault

open ByteStrings Programs Contract

/-- Whatever the path holds, the call leaves it there. -/
def Op.Leaves (env : Env) (q : FsPath) (op : Op) : Prop :=
  ∀ fs : FileSystem, fs.node q ≠ none → ¬ op.MayChange env fs q

/-- The manifest or the state of a profile. -/
def VaultStore.ProfileFile (store : VaultStore) (q : FsPath) : Prop :=
  ∃ name file, ¬ Dotted name ∧ (file = "manifest.json" ∨ file = "state.cvlt") ∧
    q = store.usersRoot ++ [name] ++ [file]

section

variable {lib : Libraries} {store : VaultStore} {env : Env} {allowed : Oracle → Prop}
    {w w' : World} {α : Type} {q : FsPath} {n : Node} {username : String}

/-! ## Calls that leave a path alone -/

theorem leaves_of_readOnly (op : Op) (hop : op.ReadOnly env) : op.Leaves env q :=
  fun fs _ => hop q fs

/-- A call that only makes what is missing. -/
theorem leaves_of_makes (op : Op)
    (hop : ∀ fs : FileSystem, op.MayChange env fs q → fs.node q = none) : op.Leaves env q :=
  fun fs hnode hchange => hnode (hop fs hchange)

/-- A call on another path. -/
theorem leaves_other (op : Op) {path : FsPath} (hne : q ≠ path)
    (hop : ∀ fs, op.MayChange env fs q → q = path) : op.Leaves env q :=
  fun fs _ hchange => hne (hop fs hchange)

theorem node_of_leaves {op : Op} {r : op.Reply} (hop : op.Leaves env q)
    (hw : w.fs.node q = some n) (h : (machine env allowed).may op w r w') :
    w'.fs.node q = some n := by
  rw [node_of_may h (hop w.fs (by rw [hw]; exact Option.some_ne_none _)), hw]

/-- **What a path holds** stays there through calls that leave it alone. -/
theorem node_of_cuts {p : Prog Op Op.Reply α} (hp : Uses (Op.Leaves env q) p)
    (hw : w.fs.node q = some n) (h : (machine env allowed).Cuts p w w') :
    w'.fs.node q = some n :=
  cuts_of_uses (I := fun t : World => t.fs.node q = some n)
    (fun _ _ _ _ hop hs hmay => node_of_leaves hop hs hmay) hp hw h

/-! ## Files of a profile -/

theorem entry_of_prefix {root : FsPath} {a b x y : String}
    (h : root ++ [a] ++ [x] <+: root ++ [b] ++ [y]) : a = b ∧ x = y := by
  have heq := h.eq_of_length (by simp)
  obtain ⟨hfirst, hlast⟩ := List.append_inj' heq rfl
  obtain ⟨_, hname⟩ := List.append_inj' hfirst rfl
  exact ⟨List.singleton_inj.mp hname, List.singleton_inj.mp hlast⟩

/-- Another file of a profile is neither its manifest nor its state. -/
theorem VaultStore.ProfileFile.not_prefix {name file : String} (hq : store.ProfileFile q)
    (hmanifest : file ≠ "manifest.json") (hstate : file ≠ "state.cvlt") :
    ¬ store.usersRoot ++ [name] ++ [file] <+: q := by
  obtain ⟨_, _, _, hfile, rfl⟩ := hq
  intro hpre
  obtain ⟨_, rfl⟩ := entry_of_prefix hpre
  exact hfile.elim hmanifest hstate

theorem VaultStore.ProfileFile.ne {name file : String} (hq : store.ProfileFile q)
    (hmanifest : file ≠ "manifest.json") (hstate : file ≠ "state.cvlt") :
    q ≠ store.usersRoot ++ [name] ++ [file] := by
  rintro rfl
  exact hq.not_prefix hmanifest hstate List.prefix_rfl

/-- The one file of a profile is not above another. -/
theorem VaultStore.ProfileFile.not_above {name file : String} (hq : store.ProfileFile q)
    (hne : q ≠ store.usersRoot ++ [name] ++ [file]) :
    ¬ store.usersRoot ++ [name] ++ [file] <+: q := by
  obtain ⟨name', file', _, _, rfl⟩ := hq
  intro hpre
  obtain ⟨rfl, rfl⟩ := entry_of_prefix hpre
  exact hne rfl

/-- The calls on the lock file. -/
theorem lockCalls_leave (hq : store.ProfileFile q) :
    LockCalls (Op.Leaves env q) (store.userRoot username ++ ["active.lock"]) := by
  have hne : q ≠ store.userRoot username ++ ["active.lock"] := hq.ne (by decide) (by decide)
  exact ⟨leaves_other (.openLock _) hne fun _ h => h,
    leaves_other (.setPermissions _ _) hne fun _ h => h,
    fun _ => leaves_of_readOnly (.tryLock _ _) fun _ _ h => h,
    leaves_other (.setLength _) hne fun _ h => h,
    leaves_of_readOnly (.seek _) fun _ _ h => h, leaves_of_readOnly .processId fun _ _ h => h,
    fun _ => leaves_other (.writeText _ _) hne fun _ h => h,
    fun _ => leaves_of_readOnly (.unlockFile _ _) fun _ _ h => h,
    fun _ => leaves_of_readOnly (.closeFile _ _) fun _ _ h => h⟩

/-! ## Rotations -/

theorem replaceCalls_leave {id : String} (hq : store.ProfileFile q)
    (hne : q ≠ store.manifestPath username) :
    ReplaceCalls (Op.Leaves env q) (store.userRoot username) (".manifest-" ++ id ++ ".tmp")
      "manifest.json" := by
  have htemporary : q ≠ store.userRoot username ++ [".manifest-" ++ id ++ ".tmp"] :=
    hq.ne (temporaryManifest_ne id).1 (temporaryManifest_ne id).2.1
  refine ⟨leaves_other (.createFile _) htemporary fun _ h => h.1,
    fun _ => leaves_other (.store _ _) htemporary fun _ h => h,
    leaves_of_readOnly (.sync _) fun _ _ h => h, ?_,
    leaves_of_readOnly (.openDirectory _) fun _ _ h => h,
    leaves_of_readOnly (.sync _) fun _ _ h => h,
    leaves_other (.removeFile _) htemporary fun _ h => h⟩
  rintro fs _ (hpre | hpre)
  · exact hq.not_prefix (temporaryManifest_ne id).1 (temporaryManifest_ne id).2.1 hpre
  · exact hq.not_above hne hpre

/-- **A rotation** leaves all files of profiles but the one manifest. -/
theorem rotatePassword_leaves {current new : Bytes} (hq : store.ProfileFile q)
    (hne : q ≠ store.manifestPath username) :
    Uses (Op.Leaves env q) (store.rotatePassword lib env username current new).run :=
  uses_rotatePassword (lockCalls_leave hq) (leaves_of_readOnly _ fun _ _ h => h)
    (leaves_of_readOnly _ fun _ _ h => h) (leaves_of_readOnly _ fun _ _ h => h)
    (fun _ => leaves_of_readOnly _ fun _ _ h => h) (leaves_of_readOnly _ fun _ _ h => h)
    fun _ => replaceCalls_leave hq hne

/-! ## Closing and dropping -/

theorem sealCalls_leave {directory : FsPath} {name : String} {id : Uuid} (hq : store.ProfileFile q)
    (hne : q ≠ store.usersRoot ++ [name] ++ ["state.cvlt"]) :
    SealCalls (Op.Leaves env q) directory
      (sealTemporary lib (store.usersRoot ++ [name] ++ ["state.cvlt"]) id)
      (store.usersRoot ++ [name] ++ ["state.cvlt"]) := by
  rw [sealTemporary_state]
  have htemporary : q ≠ store.usersRoot ++ [name] ++ [stateTemporary lib id] :=
    hq.ne stateTemporary_ne.2.1 stateTemporary_ne.1
  refine ⟨leaves_other (.createFile _) htemporary fun _ h => h.1,
    leaves_of_readOnly (.random _) fun _ _ h => h, leaves_of_readOnly (.readTree _) fun _ _ h => h,
    fun _ => leaves_other (.store _ _) htemporary fun _ h => h,
    leaves_of_readOnly (.sync _) fun _ _ h => h, ?_,
    leaves_other (.removeFile _) htemporary fun _ h => h⟩
  rintro fs _ (hpre | hpre)
  · exact hq.not_prefix stateTemporary_ne.2.1 stateTemporary_ne.1 hpre
  · exact hq.not_above hne hpre

/-- **A close** leaves all files of profiles but the one state. -/
theorem close_leaves {vault : UnlockedVault} {name : String} (hq : store.ProfileFile q)
    (hpath : vault.statePath = store.usersRoot ++ [name] ++ ["state.cvlt"])
    (hne : q ≠ vault.statePath) (hruntime : ¬ vault.runtime <+: q) :
    Uses (Op.Leaves env q) (vault.close lib).run := by
  rw [hpath] at hne
  refine uses_close (leaves_of_readOnly _ fun _ _ h => h) (fun _ => ?_) (fun _ _ => hruntime)
    (leaves_of_readOnly _ fun _ _ h => h) (leaves_of_readOnly _ fun _ _ h => h)
  rw [hpath]
  exact sealCalls_leave hq hne

/-- **A drop** leaves what is not in the runtime. -/
theorem drop_leaves {vault : UnlockedVault} (hruntime : ¬ vault.runtime <+: q) :
    Uses (Op.Leaves env q) vault.drop :=
  uses_bind (uses_ignore (uses_request fun _ _ => hruntime)) fun _ =>
    uses_request (leaves_of_readOnly (.closeFile _ _) fun _ _ h => h)

/-! ## Unlocking -/

/-- The path holds the node, whatever happens. -/
def World.Fixed (q : FsPath) (n : Node) (w w' : World) : Prop :=
  w.fs.node q = some n → w'.fs.node q = some n

theorem fixed_of_leaves {op : Op} {r : op.Reply} (hop : op.Leaves env q)
    (hw : w.fs.node q = some n) (h : (machine env allowed).may op w r w') :
    World.Fixed q n w w' ∧ w'.fs.node q = some n :=
  ⟨fun hs => node_of_leaves hop hs h, node_of_leaves hop hw h⟩

theorem leaves_holds {p : Prog Op Op.Reply α} (hp : Uses (Op.Leaves env q) p)
    (hw : w.fs.node q = some n) :
    (machine env allowed).Holds Eq (World.Fixed q n) p (fun _ t => t.fs.node q = some n) w :=
  holds_of_uses (I := fun t : World => t.fs.node q = some n)
    (fun s t hs (heq : s = t) => heq ▸ hs)
    (fun _ _ _ _ hop hs hmay => fixed_of_leaves hop hs hmay) hp hw

theorem leaves_alone {p : Io α} (hp : Uses (Op.Leaves env q) p.run)
    (hw : w.fs.node q = some n) :
    (machine env allowed).HoldsE Eq (World.Fixed q n) p
      (fun a t => t.fs.node q = some n ∧ (machine env allowed).Runs p.run w (.ok a) t)
      (fun _ t => t.fs.node q = some n) w :=
  holdsE_alone (I := fun t : World => t.fs.node q = some n)
    (fun _ _ _ _ hop hs hmay => fixed_of_leaves hop hs hmay) hp hw

theorem leaves_chooseRuntimeRoot :
    Uses (Op.Leaves env q) (store.chooseRuntimeRoot env).run :=
  uses_chooseRuntimeRoot fun _ _ => ⟨leaves_of_readOnly _ fun _ _ h => h,
    leaves_of_makes _ fun _ h => h.2, leaves_of_readOnly _ fun _ _ h => h⟩

theorem leaves_fillRuntime {userRoot runtime : FsPath} {dataKey : Key}
    (hruntime : ¬ runtime <+: q) :
    Uses (Op.Leaves env q) (VaultStore.fillRuntime lib env userRoot runtime dataKey).run :=
  uses_fillRuntime (leaves_of_readOnly _ fun _ _ h => h) (leaves_of_makes _ fun _ h => h.2)
    (leaves_of_readOnly _ fun _ _ h => h) (leaves_of_readOnly _ fun _ _ h => h)
    fun _ _ _ _ hpre => hruntime ((List.prefix_append _ _).trans hpre)

theorem openProfile_leaves {password : Bytes} {userRoot : FsPath} {lock : Handle}
    (hw : w.fs.node q = some n) :
    (machine env allowed).HoldsE Eq (World.Fixed q n)
      (store.openProfile lib env username password userRoot lock)
      (fun _ t => t.fs.node q = some n) (fun _ t => t.fs.node q = some n) w := by
  apply holdsE_bind
  apply holdsE_mono (leaves_alone (uses_readManifest (leaves_of_readOnly _ fun _ _ h => h)
    (leaves_of_readOnly _ fun _ _ h => h)) hw) _ fun _ _ ht => ht
  rintro m t ⟨ht, _⟩
  apply holdsE_bind
  refine holdsE_ofExcept (fun _ _ => ?_) fun _ _ => ht
  apply holdsE_bind
  refine holdsE_ofExcept (fun dataKey _ => ?_) fun _ _ => ht
  apply holdsE_bind
  apply holdsE_mono (leaves_alone leaves_chooseRuntimeRoot ht) _ fun _ _ hu => hu
  rintro root u ⟨hu, _⟩
  apply holdsE_bind
  refine holdsE_ofExcept (fun name _ => ?_) fun _ _ => hu
  have hmakes : (Op.createDirectory (root ++ [name])).Leaves env q :=
    leaves_of_makes _ fun _ h => h.2
  apply holdsE_bind
  apply holdsE_mono (leaves_alone (uses_sys (uses_request hmakes)) hu) _ fun _ _ hv => hv
  rintro _ v ⟨hv, hmade⟩
  -- nothing was there, and so nothing below it
  have hapart : ¬ root ++ [name] <+: q := by
    intro hpre
    have hmissing := (may_createDirectory_ok (runs_request.mp (runs_sys_ok.mp hmade))).1
    rw [FileSystem.node_eq_none_below hpre hmissing] at hu
    cases hu
  apply holdsE_bind
  apply holdsE_onError
  apply holdsE_mono (leaves_alone (leaves_fillRuntime hapart) hv)
  · rintro _ x ⟨hx, _⟩
    exact hx
  · intro _ x hx
    have hremoves : (Op.removeTree (root ++ [name])).Leaves env q := fun _ _ => hapart
    exact leaves_holds (uses_ignore (uses_request hremoves)) hx

/-- **An unlock** leaves the files of all profiles. -/
theorem unlock_leaves {password : Bytes} (hq : store.ProfileFile q) (hw : w.fs.node q = some n)
    (hcut : (machine env allowed).Cuts (store.unlock lib env username password).run w w') :
    w'.fs.node q = some n := by
  have hholds : (machine env allowed).HoldsE Eq (World.Fixed q n)
      (store.unlock lib env username password) (fun _ t => t.fs.node q = some n)
      (fun _ t => t.fs.node q = some n) w := by
    apply holdsE_bind
    refine holdsE_ofExcept (fun _ _ => ?_) fun _ _ => hw
    apply holdsE_bind
    apply holdsE_mono (leaves_alone ((lockCalls_leave hq).lockProfile
      (leaves_of_readOnly _ fun _ _ h => h)) hw) _ fun _ _ ht => ht
    rintro lock t ⟨ht, _⟩
    apply holdsE_onError
    apply holdsE_mono (openProfile_leaves ht) (fun _ _ hu => hu)
    intro _ u hu
    exact leaves_holds (uses_bind
      (uses_ignore (uses_request ((lockCalls_leave hq).unlockFile lock))) fun _ =>
        uses_request ((lockCalls_leave hq).closeFile lock)) hu
  exact cuts_of_holds (I := fun t : World => t.fs.node q = some n) (fun _ => rfl)
    (fun _ _ hs hfixed => hfixed hs) hholds hw hcut

end

end CodexVault
