import CodexVault.Disk
import CodexVault.PasswordRotation
import CodexVault.SealedArchive

/-!
# Which changes survive a crash

A mutating operation that has returned `Ok` shows its effect after every later
crash, or there is a crash that loses it.  `rotatePassword` syncs the directory
it has renamed in; `addUser` and `close` end with a rename, and lose it when the
machine stops at once.
-/

namespace CodexVault

open ByteStrings Programs Contract

/-- The operations that change a profile. -/
inductive Mutation where
  | addUser (username : String) (password : Bytes)
  | rotatePassword (username : String) (current new : Bytes)
  | close (vault : UnlockedVault)

namespace Mutation

/-- The operation as the store runs it. -/
def program (lib : Libraries) (env : Env) (store : VaultStore) : Mutation → Io Unit
  | addUser username password => store.addUser lib env username password
  | rotatePassword username current new => store.rotatePassword lib env username current new
  | close vault => vault.close lib

/-- The directory of the profile it changes. -/
def directory (store : VaultStore) : Mutation → FsPath
  | addUser username _ => store.userRoot username
  | rotatePassword username _ _ => store.userRoot username
  | close vault => vault.statePath.dropLast

/-- The effect of the operation is there: the profile of a user that was added, the
new password, the session as it was sealed. -/
def Shown (lib : Libraries) (store : VaultStore) (returned recovered : World) : Mutation → Prop
  | addUser username password =>
      recovered.Authenticates lib store username password ∧
        recovered.contents (store.statePath username) =
          returned.contents (store.statePath username)
  | rotatePassword username current new =>
      recovered.Authenticates lib store username new ∧
        (current ≠ new → ¬ recovered.Authenticates lib store username current)
  | close vault => recovered.contents vault.statePath = returned.contents vault.statePath

/-- What the operation is run on: a vault names the state file of its profile, and
its runtime is elsewhere. -/
def WellFormed : Mutation → Prop
  | close vault => (∃ root : FsPath, vault.statePath = root ++ ["state.cvlt"]) ∧
      ¬ vault.runtime <+: vault.statePath
  | _ => True

/-- What is drawn is new: a nonce seed is not the one of the sealed state. -/
def Fresh (w : World) (oracle : Oracle) : Mutation → Prop
  | close vault => ∀ contents, w.contents vault.statePath = some contents →
      ¬ fileHeader (oracle.draw 12) <+: contents
  | _ => True

/-- The present and the new password of a rotation have nothing to do with each
other. -/
def Separate (lib : Libraries) : Mutation → Prop
  | rotatePassword _ current new => current ≠ new → Unrelated lib new current
  | _ => True

/-- The operation is a rotation, of a profile whose directory is durable. -/
def Durable (store : VaultStore) (d : Disk) : Mutation → Prop
  | rotatePassword username _ _ => d.DirectoryDurable (store.userRoot username)
  | _ => False

end Mutation

/-- The call is not part of a mutating operation on the profile: it leaves its files
and the directories above them alone. -/
def Op.SparesProfile (env : Env) (fs : FileSystem) (directory : FsPath) (op : Op) : Prop :=
  ∀ q, q <+: directory ∨ q = directory ++ ["manifest.json"] ∨ q = directory ++ ["state.cvlt"] →
    ¬ op.MayChange env fs q

/-- A call of any process that spares the profile. -/
def Disk.Passes (directory : FsPath) (d d' : Disk) : Prop :=
  ∃ env allowed op, ∃ r : op.Reply, (diskMachine env allowed).may op d r d' ∧
    op.SparesProfile env d.world.fs directory

/-- Any later time before another mutating operation on the profile. -/
def Disk.Later (directory : FsPath) : Disk → Disk → Prop :=
  Relation.ReflTransGen (Disk.Passes directory)

section

variable {lib : Libraries} {env : Env} {allowed : Oracle → Prop} {d d' d'' : Disk}
    {directory : FsPath}

theorem node_of_passes {q : FsPath}
    (hq : q <+: directory ∨ q = directory ++ ["manifest.json"] ∨ q = directory ++ ["state.cvlt"])
    (h : d.Passes directory d') : d'.world.fs.node q = d.world.fs.node q := by
  obtain ⟨env, allowed, op, r, ⟨w', hmay, rfl⟩, hspares⟩ := h
  exact node_of_may hmay (hspares q hq)

/-- **What is settled in a durable directory stays so.** -/
theorem settled_of_later (hlater : d.Later directory d')
    (hdurable : d.DirectoryDurable directory)
    (hsettled : d.Settled (directory ++ ["manifest.json"])) :
    d'.DirectoryDurable directory ∧ d'.Settled (directory ++ ["manifest.json"]) ∧
      d'.world.fs.node (directory ++ ["manifest.json"]) =
        d.world.fs.node (directory ++ ["manifest.json"]) := by
  induction hlater with
  | refl => exact ⟨hdurable, hsettled, rfl⟩
  | tail _ hstep ih =>
      obtain ⟨hdir, hset, hnode⟩ := ih
      have hsame := node_of_passes (.inr (.inl rfl)) hstep
      obtain ⟨env, allowed, op, r, hmay, hspares⟩ := hstep
      exact ⟨directoryDurable_of_spares hmay (fun q hq => hspares q (.inl hq)) hdir,
        settled_of_spares hmay (hspares _ (.inr (.inl rfl))) hset, hsame.trans hnode⟩

/-! ## Rotations -/

/-- The call changes nothing at or above the directory. -/
def Op.SparesAbove (env : Env) (directory : FsPath) (op : Op) : Prop :=
  ∀ q, q <+: directory → op.Spares env q

theorem ne_concat_of_above {q : FsPath} {name : String} (h : q <+: directory) :
    q ≠ directory ++ [name] := by
  rintro rfl
  have hlen := h.length_le
  rw [List.length_append, List.length_singleton] at hlen
  omega

theorem not_concat_above {q : FsPath} {name : String} (h : q <+: directory) :
    ¬ directory ++ [name] <+: q := by
  intro hpre
  have hlen := (hpre.trans h).length_le
  rw [List.length_append, List.length_singleton] at hlen
  omega

theorem lockCalls_sparesAbove : LockCalls (Op.SparesAbove env directory)
    (directory ++ ["active.lock"]) where
  openLock _ hq _ h := ne_concat_of_above hq h
  setPermissions _ hq _ h := ne_concat_of_above hq h
  tryLock _ _ _ _ h := h
  setLength _ hq _ h := ne_concat_of_above hq h
  seek _ _ _ h := h
  processId _ _ _ h := h
  writeText _ _ hq _ h := ne_concat_of_above hq h
  unlockFile _ _ _ _ h := h
  closeFile _ _ _ _ h := h

theorem replaceCalls_sparesAbove {temporary name : String} :
    ReplaceCalls (Op.SparesAbove env directory) directory temporary name where
  create _ hq _ h := ne_concat_of_above hq h.1
  store _ _ hq _ h := ne_concat_of_above hq h
  sync _ _ _ h := h
  rename _ hq _ h := h.elim (not_concat_above hq) (not_concat_above hq)
  openParent _ _ _ h := h
  syncParent _ _ _ h := h
  remove _ hq _ h := ne_concat_of_above hq h

theorem rotate_sparesAbove {store : VaultStore} {username : String} {current new : Bytes} :
    Uses (Op.SparesAbove env (store.userRoot username))
      (store.rotatePassword lib env username current new).run :=
  uses_rotatePassword lockCalls_sparesAbove (fun _ _ _ h => h) (fun _ _ _ h => h)
    (fun _ _ _ h => h) (fun _ _ _ _ h => h) (fun _ _ _ h => h) fun _ => replaceCalls_sparesAbove

theorem directoryDurable_of_rotate {store : VaultStore} {username : String} {current new : Bytes}
    {r : Except VaultError Unit}
    (hrun : (diskMachine env allowed).Runs
      (store.rotatePassword lib env username current new).run d r d')
    (hdurable : d.DirectoryDurable (store.userRoot username)) :
    d'.DirectoryDurable (store.userRoot username) := by
  refine runs_of_uses (R := fun d d' : Disk => d.DirectoryDurable (store.userRoot username) →
    d'.DirectoryDurable (store.userRoot username)) (fun _ h => h) (fun h h' hd => h' (h hd)) ?_
    rotate_sparesAbove hrun hdurable
  intro op s r t hop hmay hs
  exact directoryDurable_of_spares hmay (fun q hq => hop q hq s.world.fs) hs

/-- A manifest file that is written has been synced. -/
theorem loose_writePrivateJson {path : FsPath} {value : UserManifest}
    (h : (diskMachine env allowed).Runs (writePrivateJson lib path value).run d (.ok ()) d') :
    ¬ d'.loose path := by
  obtain ⟨fault, d1, _, hrest⟩ := runs_ok_bind.mp h
  obtain ⟨_, d2, _, hrest⟩ := runs_ok_bind.mp hrest
  split at hrest
  · cases (runs_run_throw.mp hrest).1
  · exact loose_sync (runs_request.mp (runs_sys_ok.mp hrest))

theorem may_openDirectory_ok {w w' : World} {p : FsPath}
    (h : (machine env allowed).may (.openDirectory p) w (.ok ()) w') :
    w.fs.isDirectory p = true ∧ w'.fs = w.fs := by
  obtain ⟨oracle, w1, _, _, hrespond, rfl⟩ := respond_of_may h
  obtain ⟨_, fs, hfs, rfl⟩ := World.change_eq_ok hrespond
  unfold FileSystem.directoryReadable at hfs
  split at hfs
  · cases hfs
  · next attr hnode =>
      split at hfs
      · cases hfs
        exact ⟨FileSystem.isDirectory_iff.mpr ⟨attr, hnode⟩, rfl⟩
      · cases hfs
  · cases hfs

/-- **A replaced manifest is settled**: its data was synced before the rename, and
the directory after it. -/
theorem settled_replacePrivateJson {parent : FsPath} {name : String} {value : UserManifest}
    (h : (diskMachine env allowed).Runs (replacePrivateJson lib parent name value).run d
      (.ok ()) d') : d'.Settled (parent ++ [name]) := by
  obtain ⟨id, d1, _, hreplace⟩ := runs_ask_bind.mp h
  have hbody := runs_onError_ok.mp hreplace
  obtain ⟨_, d2, hfile, hrest⟩ := runs_ok_bind.mp hbody
  obtain ⟨_, d3, hrename, hrest⟩ := runs_ok_bind.mp hrest
  obtain ⟨_, d4, hopen, hsync⟩ := runs_ok_bind.mp hrest
  have hloose := loose_rename (runs_request.mp (runs_sys_ok.mp hrename))
    (loose_writePrivateJson hfile)
  have hopen := runs_request.mp (runs_sys_ok.mp hopen)
  have hstill : ¬ d4.loose (parent ++ [name]) := by
    obtain ⟨w', hmay, rfl⟩ := hopen
    exact fun h => hloose (loose_of_spares hmay (fun h => h) h)
  refine settled_sync (runs_request.mp (runs_sys_ok.mp hsync)) ?_ hstill
  obtain ⟨w', hmay, rfl⟩ := hopen
  obtain ⟨hdir, hfs⟩ := may_openDirectory_ok hmay
  have hworld : w'.fs.isDirectory parent = true := by rwa [hfs]
  exact hworld

/-- **A rotation that succeeds leaves a settled manifest.** -/
theorem settled_rotatePassword {store : VaultStore} {username : String} {current new : Bytes}
    (hrun : (diskMachine env allowed).Runs
      (store.rotatePassword lib env username current new).run d (.ok ()) d') :
    d'.Settled (store.manifestPath username) := by
  obtain ⟨_, _, _, hrest⟩ := runs_ok_bind.mp hrun
  obtain ⟨_, _, _, hrest⟩ := runs_ok_bind.mp hrest
  obtain ⟨lock, d1, _, hlocked⟩ := runs_ok_bind.mp hrest
  obtain ⟨result, d2, hrewrap, hrest⟩ := runs_attempt_bind.mp hlocked
  obtain ⟨unlockResult, d3, hunlock, hrest⟩ := runs_attempt_bind.mp hrest
  obtain ⟨_, d4, hclose, hend⟩ := runs_ask_bind.mp hrest
  obtain ⟨_, d5, hone, htwo⟩ := runs_ok_bind.mp hend
  obtain ⟨hresult, rfl⟩ := runs_ofExcept.mp hone
  obtain ⟨_, rfl⟩ := runs_ofExcept.mp htwo
  cases hresult
  obtain ⟨m', d6, _, hreplace⟩ := runs_ok_bind.mp hrewrap
  have hsettled : d2.Settled (store.manifestPath username) := settled_replacePrivateJson hreplace
  obtain ⟨reply, hunlock⟩ := runs_of_sys hunlock
  exact settled_of_spares hclose (fun h => h)
    (settled_of_spares (runs_request.mp hunlock) (fun h => h) hsettled)

/-- The new password after a rotation, as far as the manifest file is there. -/
theorem authenticates_of_rotate {store : VaultStore} {username : String} {current new : Bytes}
    (A : LawfulAead) (hA : lib.aead = A.toAead) (laws : TextLaws lib) {w w' recovered : World}
    (hother : current ≠ new → Unrelated lib new current)
    (hrun : (machine env allowed).Runs
      (store.rotatePassword lib env username current new).run w (.ok ()) w')
    (hsame : recovered.contents (store.manifestPath username) =
      w'.contents (store.manifestPath username)) :
    recovered.Authenticates lib store username new ∧
      (current ≠ new → ¬ recovered.Authenticates lib store username current) := by
  cases rotatePassword_outcome hrun with
  | rewrapped _ _ contents m m' oracle dataKey _ _ hparse hrewraps h =>
      cases h with
      | replaced _ _ since htarget _ _ _ =>
          have hnew : recovered.contents (store.manifestPath username) =
              some (lib.toJson m' ++ [10]) := by
            rw [hsame]
            unfold World.contents
            rw [htarget]
          obtain ⟨_, hopens, hrejects⟩ :=
            hrewraps.authenticates A hA laws (parseManifest_eq_ok.mp hparse).2.2 hnew
          exact ⟨hopens, fun hne => hrejects (hother hne)⟩

/-- A manifest that is not there authenticates nobody. -/
theorem not_authenticates_of_none {store : VaultStore} {username : String} {w : World}
    {password : Bytes} (h : w.fs.node (store.manifestPath username) = none) :
    ¬ w.Authenticates lib store username password := by
  rintro ⟨contents, m, key, hcontents, _, _⟩
  unfold World.contents at hcontents
  rw [h] at hcontents
  cases hcontents

/-- **A rotation in a durable directory is durable.** -/
theorem rotate_shown {store : VaultStore} {username : String} {current new : Bytes}
    (A : LawfulAead) (hA : lib.aead = A.toAead) (laws : TextLaws lib)
    (hother : current ≠ new → Unrelated lib new current)
    (hrun : (diskMachine env allowed).Runs
      (store.rotatePassword lib env username current new).run d (.ok ()) d')
    (hdurable : d.DirectoryDurable (store.userRoot username))
    (hlater : d'.Later (store.userRoot username) d'') {w : World} (hcrash : d''.Recovers w) :
    (Mutation.rotatePassword username current new).Shown lib store d'.world w := by
  obtain ⟨hdir, hsettled, hnode⟩ := settled_of_later hlater
    (directoryDurable_of_rotate hrun hdurable) (settled_rotatePassword hrun)
  have hsurvives : w.fs.node (store.manifestPath username) =
      d''.world.fs.node (store.manifestPath username) := node_of_survives hdir hsettled hcrash.1
  exact authenticates_of_rotate A hA laws hother (runs_world hrun)
    (World.contents_congr (hsurvives.trans hnode))

/-- An entry above the profile that may come back after a crash still may after a
rotation. -/
theorem stale_of_rotate {store : VaultStore} {username : String} {current new : Bytes}
    {r : Except VaultError Unit} {q : FsPath} {n : Option Node}
    (hq : q <+: store.userRoot username) (hne : q ≠ [])
    (hrun : (diskMachine env allowed).Runs
      (store.rotatePassword lib env username current new).run d r d') (h : d.stale q n) :
    d'.stale q n := by
  have hlen : q.dropLast.length < (store.userRoot username).length := by
    have hle := hq.length_le
    have hpos := List.length_pos_iff.mpr hne
    rw [List.length_dropLast]
    omega
  have hsync : ∀ p : FsPath, (store.userRoot username).length ≤ p.length →
      Op.sync p ≠ .sync q.dropLast := by
    intro p hp heq
    cases heq
    omega
  have hlock : LockCalls (· ≠ Op.sync q.dropLast)
      (store.userRoot username ++ ["active.lock"]) := by
    constructor <;> intros <;> exact fun h => by cases h
  have hreplace : ∀ temporary, ReplaceCalls (· ≠ Op.sync q.dropLast)
      (store.userRoot username) temporary "manifest.json" := fun _ => {
    create := (fun h => by cases h)
    store := (fun _ h => by cases h)
    sync := hsync _ (by simp)
    rename := (fun h => by cases h)
    openParent := (fun h => by cases h)
    syncParent := hsync _ le_rfl
    remove := (fun h => by cases h) }
  have huses : Uses (· ≠ Op.sync q.dropLast)
      (store.rotatePassword lib env username current new).run := by
    refine uses_rotatePassword hlock ?_ ?_ ?_ ?_ ?_ fun _ => hreplace _
    all_goals intros; exact fun h => by cases h
  refine runs_of_uses (R := fun d d' : Disk => d.stale q n → d'.stale q n) (fun _ h => h)
    (fun h h' hs => h' (h hs)) ?_ huses hrun h
  intro op s r t hop hmay hs
  exact stale_forward hmay hop hs

/-- **A rotation in a directory that is not durable can be lost**, with the whole
profile. -/
theorem rotate_lost {store : VaultStore} {username : String} {current new : Bytes}
    (hrun : (diskMachine env allowed).Runs
      (store.rotatePassword lib env username current new).run d (.ok ()) d')
    (hdurable : ¬ d.DirectoryDurable (store.userRoot username)) :
    ∃ w, d'.Recovers w ∧
      ¬ (Mutation.rotatePassword username current new).Shown lib store d'.world w := by
  have hdir : d.world.fs.isDirectory (store.userRoot username) = true := by
    obtain ⟨_, _, hname, hrest⟩ := runs_ok_bind.mp (runs_world hrun)
    obtain ⟨_, rfl⟩ := runs_ofExcept.mp hname
    obtain ⟨_, _, hword, hrest⟩ := runs_ok_bind.mp hrest
    obtain ⟨_, rfl⟩ := runs_ofExcept.mp hword
    obtain ⟨lock, w1, hlock, _⟩ := runs_ok_bind.mp hrest
    obtain ⟨_, w2, hvalid, _⟩ := runs_ok_bind.mp hlock
    obtain ⟨_, attr, hattr, _⟩ := validatePrivateDirectory_ok (runs_mapError_ok.mp hvalid)
    exact FileSystem.isDirectory_iff.mpr ⟨attr, hattr⟩
  have habove : ∀ q, q <+: store.userRoot username → d.world.fs.isDirectory q = true := by
    intro q hq
    by_cases heq : q = store.userRoot username
    · rwa [heq]
    · refine FileSystem.isDirectory_above hq heq ?_
      obtain ⟨attr, hattr⟩ := FileSystem.isDirectory_iff.mp hdir
      rw [hattr]
      exact Option.some_ne_none _
  have hbad : ∃ q n, q <+: store.userRoot username ∧ q ≠ [] ∧ d.MayHold q n ∧
      n.any Node.isDirectory ≠ true := by
    by_contra hall
    refine hdurable ⟨hdir, fun q hpre hne n hhold => ?_⟩
    by_contra hn
    exact hall ⟨q, n, hpre, hne, hhold, hn⟩
  obtain ⟨q, n, hpre, hne, hhold, hn⟩ := hbad
  have hstale : d.stale q n := by
    obtain ⟨attr, hattr⟩ := FileSystem.isDirectory_iff.mp (habove q hpre)
    rcases hhold with rfl | hstale | ⟨_, ⟨_, _, _, hfile⟩, _⟩
    · exact absurd (habove q hpre) hn
    · exact hstale
    · rw [hattr] at hfile
      cases hfile
  have hparent : d'.world.fs.isDirectory q.dropLast = true := by
    have hpre' : q.dropLast <+: store.userRoot username := (List.dropLast_prefix q).trans hpre
    have hnode := node_of_runs (rotate_sparesAbove.mono fun op hop => hop _ hpre')
      (runs_world hrun)
    have hthere := habove _ hpre'
    unfold FileSystem.isDirectory at hthere ⊢
    rwa [hnode]
  refine ⟨_, recovers_restart (survives_exchange hne hparent
    (.inr (.inl (stale_of_rotate hpre hne hrun hstale))) fun h => absurd h hn), fun hshown => ?_⟩
  refine not_authenticates_of_none ?_ hshown.1
  have hbelow : q <+: store.manifestPath username := hpre.trans (List.prefix_append _ _)
  exact (if_neg (ne_concat_of_above hpre).symm).trans (if_pos hbelow)

/-! ## Sessions that are closed -/

/-- What may come back at a state file still may when the vault has been closed. -/
theorem mayHold_of_close {vault : UnlockedVault} {root : FsPath} {n : Option Node}
    {r : Except VaultError Unit} (hstate : vault.statePath = root ++ ["state.cvlt"])
    (hrun : (diskMachine env allowed).Runs (vault.close lib).run d r d')
    (h : d.MayHold vault.statePath n) : d'.MayHold vault.statePath n := by
  have hsync : ∀ id, Op.sync (sealTemporary lib vault.statePath id) ≠
        .sync vault.statePath.dropLast ∧
      Op.sync (sealTemporary lib vault.statePath id) ≠ .sync vault.statePath := by
    intro id
    rw [hstate, sealTemporary_state, List.dropLast_concat]
    constructor
    · intro heq
      have hlen := congrArg List.length (Op.sync.inj heq)
      simp at hlen
    · intro heq
      exact concat_ne stateTemporary_ne.1 (Op.sync.inj heq)
  have huses : Uses (fun op => op ≠ .sync vault.statePath.dropLast ∧ op ≠ .sync vault.statePath)
      (vault.close lib).run := by
    have hother : ∀ op : Op, (∀ p, op ≠ .sync p) →
        op ≠ .sync vault.statePath.dropLast ∧ op ≠ .sync vault.statePath :=
      fun op h => ⟨h _, h _⟩
    refine uses_close (hother _ ?_) (fun id => ⟨hother _ ?_, hother _ ?_, hother _ ?_,
      fun _ => hother _ ?_, hsync id, hother _ ?_, hother _ ?_⟩) (hother _ ?_) (hother _ ?_)
      (hother _ ?_)
    all_goals exact fun p h => by cases h
  refine runs_of_uses (R := fun d d' : Disk => d.MayHold vault.statePath n →
    d'.MayHold vault.statePath n) (fun _ h => h) (fun h h' hs => h' (h hs)) ?_ huses hrun h
  intro op s r t hop hmay hs
  exact mayHold_forward hmay hop.1 hop.2 hs

/-- A vault that is closed has its session in place, under a seed that was drawn. -/
theorem close_ok {vault : UnlockedVault} {root : FsPath} {w w' : World}
    (hstate : vault.statePath = root ++ ["state.cvlt"])
    (hruntime : ¬ vault.runtime <+: vault.statePath)
    (hrun : (machine env allowed).Runs (vault.close lib).run w (.ok ()) w') :
    ∃ oracle tree contents, allowed oracle ∧
      SealedTree lib vault.dataKey (oracle.draw 12) tree contents ∧
      w'.fs.node vault.statePath = some (.file (env.attr 0o600) contents false) := by
  obtain ⟨sealResult, w1, hseal, hrest⟩ := runs_attempt_bind.mp hrun
  obtain ⟨cleanupResult, w2, hremove, hrest⟩ := runs_attempt_bind.mp hrest
  obtain ⟨unlockResult, w3, hunlock, hrest⟩ := runs_attempt_bind.mp hrest
  obtain ⟨_, w4, hclose, hend⟩ := runs_ask_bind.mp hrest
  obtain ⟨_, w5, hone, hresults⟩ := runs_ok_bind.mp hend
  obtain ⟨hsealed, rfl⟩ := runs_ofExcept.mp hone
  obtain ⟨_, w6, htwo, hthree⟩ := runs_ok_bind.mp hresults
  obtain ⟨_, rfl⟩ := runs_ofExcept.mp htwo
  obtain ⟨_, rfl⟩ := runs_ofExcept.mp hthree
  subst hsealed
  rw [hstate] at hseal
  obtain ⟨id, oracle, tree, contents, hallowed, htree, hnodes⟩ := sealDirectory_ok hseal
  obtain ⟨_, hremove⟩ := runs_of_sys hremove
  obtain ⟨_, hunlock⟩ := runs_of_sys hunlock
  refine ⟨oracle, tree, contents, hallowed, htree, ?_⟩
  rw [node_of_may hclose fun h => h, node_of_may (runs_request.mp hunlock) fun h => h,
    node_of_may (runs_request.mp hremove) hruntime, hstate, hnodes, if_pos rfl]

/-- **A session that was closed can be lost**: its rename was not made durable. -/
theorem close_lost {vault : UnlockedVault} (store : VaultStore) (A : SealingAead)
    (hA : lib.aead = A.toAead) (hwf : (Mutation.close vault).WellFormed)
    (hrun : (diskMachine env fun oracle => (Mutation.close vault).Fresh d.world oracle).Runs
      (vault.close lib).run d (.ok ()) d') :
    ∃ w, d'.Recovers w ∧ ¬ (Mutation.close vault).Shown lib store d'.world w := by
  obtain ⟨⟨root, hstate⟩, hruntime⟩ := hwf
  obtain ⟨oracle, tree, contents, hfresh, htree, hnode⟩ :=
    close_ok hstate hruntime (runs_world hrun)
  have hparent : d'.world.fs.isDirectory vault.statePath.dropLast = true := by
    rw [hstate] at hnode ⊢
    rw [List.dropLast_concat]
    have hchild : d'.world.fs.node (root ++ ["state.cvlt"]) ≠ none := by
      rw [hnode]
      exact Option.some_ne_none _
    exact FileSystem.isDirectory_parent hchild
  have hne : vault.statePath ≠ [] := by
    rw [hstate]
    exact List.append_ne_nil_of_right_ne_nil root (List.cons_ne_nil _ _)
  have hbelow : ∀ name, d'.MayHold (vault.statePath ++ [name]) none := by
    intro name
    refine .inl (FileSystem.node_append_eq_none ?_ (List.cons_ne_nil _ _)).symm
    simp [FileSystem.isDirectory, hnode, Node.isDirectory]
  refine ⟨_, recovers_restart (survives_exchange hne hparent
    (mayHold_of_close hstate hrun (.inl rfl)) fun _ => hbelow), fun hshown => ?_⟩
  have hnew : d'.world.contents vault.statePath = some contents := by
    unfold World.contents
    rw [hnode]
  have hold : ∀ fs, fs.node vault.statePath = d.world.fs.node vault.statePath →
      (d'.world.restart fs).contents vault.statePath = d.world.contents vault.statePath := by
    intro fs hfs
    have hsame : (d'.world.restart fs).fs.node vault.statePath =
      d.world.fs.node vault.statePath := hfs
    exact World.contents_congr hsame
  have hsame := (hold _ (if_pos rfl)).symm.trans (hshown.trans hnew)
  refine hfresh contents hsame ?_
  have hsealed := htree.sealed
  rw [hA] at hsealed
  exact hsealed.header

/-! ## New profiles -/

/-- A temporary directory is made where nothing was. -/
theorem may_createTemporaryDirectory_ok {w w' : World} {p : FsPath}
    (h : (machine env allowed).may .createTemporaryDirectory w (.ok p) w') :
    w.fs.node p = none ∧ ∀ q, w'.fs.node q =
      if q = p then some (.directory (env.attr env.directoryMode)) else w.fs.node q := by
  obtain ⟨oracle, w1, _, _, hrespond, rfl⟩ := respond_of_may h
  cases hchange : w.change oracle.fault w.fs
      (w.fs.makeDirectory env env.directoryMode (env.tempDir ++ [oracle.name])) with
  | mk result w2 =>
      unfold respond at hrespond
      dsimp only at hrespond
      rw [hchange] at hrespond
      cases result with
      | error e => cases congrArg Prod.fst hrespond
      | ok u =>
          obtain ⟨_, fs, hfs, rfl⟩ := World.change_eq_ok hchange
          cases hrespond
          exact FileSystem.makeDirectory_eq_ok hfs

/-- **The commit of a new profile** is the rename of the staging directory; only the
empty directory, which lies elsewhere, is removed after it. -/
theorem createProfile_commits {username : String} {password : Bytes} {staging userRoot : FsPath}
    (hrun : (diskMachine env allowed).Runs
      (VaultStore.createProfile lib username password staging userRoot).run d (.ok ()) d') :
    ∃ d1 d2 empty, ∃ reply : Except IoError Unit, ¬ empty <+: staging ∧
      (diskMachine env allowed).may (.rename staging userRoot) d1 (.ok ()) d2 ∧
      (diskMachine env allowed).may (.removeTree empty) d2 reply d' := by
  obtain ⟨kdf, d1, _, hrest⟩ := runs_ok_bind.mp hrun
  obtain ⟨wrappingKey, d2, _, hrest⟩ := runs_ok_bind.mp hrest
  obtain ⟨drawn, d3, _, hrest⟩ := runs_ask_bind.mp hrest
  cases drawn with
  | none => cases (runs_run_throw.mp hrest).1
  | some dataKey =>
      obtain ⟨manifest, d4, _, hrest⟩ := runs_ok_bind.mp hrest
      obtain ⟨aad, d5, _, hrest⟩ := runs_ok_bind.mp hrest
      obtain ⟨wrapped, d6, _, hrest⟩ := runs_ok_bind.mp hrest
      obtain ⟨_, d7, hfile, hrest⟩ := runs_ok_bind.mp hrest
      obtain ⟨empty, d8, hempty, hrest⟩ := runs_ok_bind.mp hrest
      obtain ⟨result, d9, hcommit, hrest⟩ := runs_attempt_bind.mp hrest
      obtain ⟨_, d10, hremove, hresult⟩ := runs_ok_bind.mp hrest
      obtain ⟨hok, rfl⟩ := runs_ofExcept.mp hresult
      subst hok
      obtain ⟨_, d11, _, hrename⟩ := runs_ok_bind.mp hcommit
      obtain ⟨_, _, hignored⟩ := runs_lift.mp hremove
      obtain ⟨reply, hremoved⟩ := runs_ignore.mp hignored
      refine ⟨d11, d9, empty, reply, fun hpre => ?_,
        runs_request.mp (runs_sys_ok.mp hrename), runs_request.mp hremoved⟩
      -- the manifest was there when the empty directory was made
      obtain ⟨hnone, _⟩ :=
        may_createTemporaryDirectory_ok (runs_request.mp (runs_sys_ok.mp (runs_world hempty)))
      have hthere := (writePrivateJson_ok (runs_world hfile)).2 (staging ++ ["manifest.json"])
      rw [if_pos rfl, FileSystem.node_eq_none_below (hpre.trans (List.prefix_append _ _)) hnone]
        at hthere
      cases hthere

/-- **A profile that was created can be lost**: its rename was not made durable. -/
theorem addUser_lost {store : VaultStore} {username : String} {password : Bytes}
    (hrun : (diskMachine env allowed).Runs (store.addUser lib env username password).run d
      (.ok ()) d') :
    ∃ w, d'.Recovers w ∧ ¬ (Mutation.addUser username password).Shown lib store d'.world w := by
  obtain ⟨_, _, _, hrest⟩ := runs_ok_bind.mp hrun
  obtain ⟨_, _, _, hrest⟩ := runs_ok_bind.mp hrest
  obtain ⟨_, d1, _, hrest⟩ := runs_ok_bind.mp hrest
  obtain ⟨found, d2, _, hrest⟩ := runs_attempt_bind.mp hrest
  cases found with
  | ok status => cases (runs_run_throw.mp hrest).1
  | error e =>
      obtain ⟨id, d3, _, hrest⟩ := runs_ask_bind.mp hrest
      obtain ⟨_, d4, _, hrest⟩ := runs_ok_bind.mp hrest
      obtain ⟨d5, d6, empty, reply, hempty, hrename, hremove⟩ :=
        createProfile_commits (runs_onError_ok.mp hrest)
      have hstale : ∀ q n, store.userRoot username <+: q → d5.MayHold q n → d'.stale q n :=
        fun q n hq h => stale_forward hremove (fun h => by cases h)
          (stale_rename hrename (.inr hq) h)
      obtain ⟨w6, hrenameWorld, hafter⟩ := hrename
      obtain ⟨hgraft, hfs, hchildren, n, hnode, _⟩ := may_rename_ok hrenameWorld
      have hworld : d6.world = w6 := congrArg Disk.world hafter
      have hlast : (store.userRoot username).dropLast = store.usersRoot := List.dropLast_concat
      have hparent : d'.world.fs.isDirectory (store.userRoot username).dropLast = true := by
        have hmoved : d6.world.fs.node (store.userRoot username) ≠ none := by
          rw [hworld, hfs, FileSystem.node_graft hgraft, if_pos List.prefix_rfl,
            FileSystem.rebase, List.drop_length, List.append_nil, hnode]
          exact Option.some_ne_none _
        have hdir : d6.world.fs.isDirectory store.usersRoot = true :=
          FileSystem.isDirectory_parent hmoved
        obtain ⟨w', hremoveWorld, hafter'⟩ := hremove
        have hsame : w'.fs.node store.usersRoot = d6.world.fs.node store.usersRoot :=
          node_of_may hremoveWorld fun hpre => hempty (hpre.trans (List.prefix_append _ _))
        rw [hlast, hafter']
        unfold FileSystem.isDirectory at hdir ⊢
        exact (congrArg (fun n => n.any Node.isDirectory) hsame).trans hdir
      have hbelow : ∀ name, d'.MayHold (store.userRoot username ++ [name]) none := by
        intro name
        refine .inr (.inl (hstale _ _ (List.prefix_append _ _) (.inl ?_)))
        exact (FileSystem.hasChildren_eq_false hchildren (List.prefix_append _ _)
          (ne_concat_of_above List.prefix_rfl).symm).symm
      refine ⟨_, recovers_restart (survives_exchange hgraft.2.1 hparent
        (.inr (.inl (hstale _ _ List.prefix_rfl (.inl rfl)))) fun _ => hbelow), fun hshown => ?_⟩
      refine not_authenticates_of_none ?_ hshown.1
      exact (if_neg (ne_concat_of_above List.prefix_rfl).symm).trans
        (if_pos (List.prefix_append _ _))

end

/-! ## What is durable -/

/-- **An acknowledged change is durable** exactly when it is a rotation in a durable
directory. -/
theorem acknowledged_durable_iff {lib : Libraries} {env : Env} {store : VaultStore}
    (A : LawfulAead) (hA : lib.aead = A.toAead) (laws : TextLaws lib) {m : Mutation} {d d' : Disk}
    (hwf : m.WellFormed) (hseparate : m.Separate lib)
    (hrun : (diskMachine env fun oracle => m.Fresh d.world oracle).Runs
      (m.program lib env store).run d (.ok ()) d') :
    (∀ d'' w, d'.Later (m.directory store) d'' → d''.Recovers w →
      m.Shown lib store d'.world w) ↔ m.Durable store d := by
  constructor
  · intro hshown
    have hnow : ∀ w, d'.Recovers w → m.Shown lib store d'.world w :=
      fun w hcrash => hshown d' w .refl hcrash
    cases m with
    | addUser username password =>
        obtain ⟨w, hcrash, hnot⟩ := addUser_lost hrun
        exact absurd (hnow w hcrash) hnot
    | rotatePassword username current new =>
        by_contra hdurable
        obtain ⟨w, hcrash, hnot⟩ := rotate_lost hrun hdurable
        exact hnot (hnow w hcrash)
    | close vault =>
        obtain ⟨w, hcrash, hnot⟩ := close_lost store A.toSealingAead hA hwf hrun
        exact absurd (hnow w hcrash) hnot
  · intro hdurable d'' w hlater hcrash
    cases m with
    | addUser username password => exact absurd hdurable id
    | rotatePassword username current new =>
        exact rotate_shown A hA laws hseparate hrun hdurable hlater hcrash
    | close vault => exact absurd hdurable id

/-! ## A user that is lost -/

/-- The creation of a second user in the sample store. -/
def sampleAddUser : Except VaultError Unit × World :=
  (sampleStore.addUser (sampleLibraries emptyTar) sampleEnv "bob" samplePassword).run.execute
    (playing sampleEnv (failingOracle 99 .other)) 0 (sampleWorld [])

/-- The theorem at the rotation of the sample profile. -/
theorem acknowledged_durable_iff_sample :
    ∃ d', (diskMachine sampleEnv fun _ => True).Runs
      (sampleStore.rotatePassword (sampleLibraries emptyTar) sampleEnv "alice" samplePassword
        sampleNewPassword).run (sampleWorld []).begin.durable (.ok ()) d' ∧
      ((∀ d'' w, d'.Later (sampleStore.userRoot "alice") d'' → d''.Recovers w →
        (Mutation.rotatePassword "alice" samplePassword sampleNewPassword).Shown
          (sampleLibraries emptyTar) sampleStore d'.world w) ↔
        (sampleWorld []).begin.durable.DirectoryDurable (sampleStore.userRoot "alice")) := by
  have hok : (sampleRotation 99).1 = .ok () := by decide +kernel
  have hrun : (machine sampleEnv fun _ => True).Runs
      (sampleStore.rotatePassword (sampleLibraries emptyTar) sampleEnv "alice" samplePassword
        sampleNewPassword).run (sampleWorld []).begin (sampleRotation 99).1
        (sampleRotation 99).2 :=
    runs_playing (fun _ _ => trivial) (fun _ => rfl) _ _
  rw [hok] at hrun
  obtain ⟨d', hdisk, _⟩ := runs_disk (d := (sampleWorld []).begin.durable) hrun
  exact ⟨d', hdisk, acknowledged_durable_iff
    (m := .rotatePassword "alice" samplePassword sampleNewPassword) taggingAead rfl
    (textLaws_sample emptyTar) trivial (fun _ => unrelated_sample (by decide)) hdisk⟩

/-- The user is created, and a crash loses the profile. -/
theorem addUser_not_durable :
    ∃ d', (diskMachine sampleEnv fun _ => True).Runs
      (sampleStore.addUser (sampleLibraries emptyTar) sampleEnv "bob" samplePassword).run
        (sampleWorld []).durable (.ok ()) d' ∧
      ∃ w, d'.Recovers w ∧
        ¬ (Mutation.addUser "bob" samplePassword).Shown (sampleLibraries emptyTar) sampleStore
          d'.world w := by
  have hok : sampleAddUser.1 = .ok () := by decide +kernel
  have hrun : (machine sampleEnv fun _ => True).Runs
      (sampleStore.addUser (sampleLibraries emptyTar) sampleEnv "bob" samplePassword).run
        (sampleWorld []) sampleAddUser.1 sampleAddUser.2 :=
    runs_playing (fun _ _ => trivial) (fun _ => rfl) _ _
  rw [hok] at hrun
  obtain ⟨d', hdisk, _⟩ := runs_disk (d := (sampleWorld []).durable) hrun
  exact ⟨d', hdisk, addUser_lost hdisk⟩

end CodexVault
