import CodexVault.SystemCallFacts

/-!
# Locks and new directories

Which calls touch the locks of the machine, and what they do to them.  A lock that
is taken is new: `LocksIssued` says that every lock in use has been handed out.
Also here is what a recursive `mkdir` makes.
-/

namespace CodexVault

open ByteStrings Programs

/-- The call may change who holds a lock. -/
def Op.TouchesLocks : Op → Prop
  | .tryLock _ _ | .unlockFile _ _ | .closeFile _ _ => True
  | _ => False

/-- The machine with a lock taken. -/
def World.lock (w : World) (p : FsPath) (lock : Handle) : FsPath → Option Handle :=
  fun q => if q = p then some lock else w.locked q

theorem World.inspect_locked {α : Type} {w : World} {fault : Option ErrorKind}
    {result : Except ErrorKind α} : (w.inspect fault result).2.locked = w.locked :=
  congrArg World.locked World.inspect_snd

open FileSystem in
theorem respond_locked {env : Env} {oracle : Oracle} {w : World} {op : Op}
    (h : ¬ op.TouchesLocks) : (respond env oracle w op).2.locked = w.locked := by
  cases op with
  | lstat p => exact World.inspect_locked
  | createDirectories p => exact World.change_locked
  | createDirectory p => exact World.change_locked
  | createTemporaryDirectory =>
      have hchange : (w.change oracle.fault w.fs
          (w.fs.makeDirectory env env.directoryMode (env.tempDir ++ [oracle.name]))).2.locked =
          w.locked := World.change_locked
      unfold respond
      dsimp only
      split
      · next heq => rwa [heq] at hchange
      · next heq => rwa [heq] at hchange
  | createFile p =>
      have hchange : (w.change oracle.fault w.fs
          (w.fs.createNew env p (.file (env.attr 0o600) [] false))).2.locked = w.locked :=
        World.change_locked
      unfold respond
      dsimp only
      split
      · next heq => rwa [heq] at hchange
      · next heq => rwa [heq] at hchange
  | store p contents => rfl
  | sync p => exact World.inspect_locked
  | rename source target => exact World.change_locked
  | removeFile p => exact World.change_locked
  | removeTree p => exact World.change_locked
  | openRead p =>
      have hinspect : (w.inspect oracle.fault (w.fs.readable env p)).2.locked = w.locked :=
        World.inspect_locked
      unfold respond
      dsimp only
      split
      · next heq => rwa [heq] at hinspect
      · next heq =>
          rw [heq] at hinspect
          split
          · exact hinspect
          · exact hinspect
  | openDirectory p => exact World.change_locked
  | canonicalize p => exact World.inspect_locked
  | openLock p =>
      have hchange : (w.change oracle.fault w.fs (w.fs.lockOpened env p)).2.locked = w.locked :=
        World.change_locked
      unfold respond
      dsimp only
      split
      · next heq => rwa [heq] at hchange
      · next heq => rwa [heq] at hchange
  | setPermissions p mode => exact World.change_locked
  | tryLock p lock => exact absurd trivial h
  | setLength p => exact World.change_locked
  | seek p => exact World.inspect_locked
  | writeText p text => exact World.change_locked
  | unlockFile p lock => exact absurd trivial h
  | closeFile p lock => exact absurd trivial h
  | unpack destination path entry =>
      unfold respond
      dsimp only
      split
      · split
        · exact World.change_locked
        · rfl
      · exact World.change_locked
  | readTree p =>
      unfold respond
      dsimp only
      split
      · rfl
      · split <;> rfl
  | random size =>
      unfold respond
      dsimp only
      split <;> rfl
  | newUuid => rfl
  | now => rfl
  | processId => rfl

section

variable {env : Env} {allowed : Oracle → Prop} {w w' : World}

theorem locked_of_may {op : Op} {r : op.Reply} (hop : ¬ op.TouchesLocks)
    (h : (machine env allowed).may op w r w') : w'.locked = w.locked := by
  obtain ⟨oracle, w1, _, _, hrespond, rfl⟩ := respond_of_may h
  have hlocked : (respond env oracle w op).2.locked = w.locked := respond_locked hop
  rw [hrespond] at hlocked
  exact hlocked

/-- Opening a lock file hands out a new handle. -/
theorem may_openLock_ok {p : FsPath} {lock : Handle}
    (h : (machine env allowed).may (.openLock p) w (.ok lock) w') :
    lock = { process := env.process, serial := w.nextSerial } ∧
      w'.nextSerial = w.nextSerial + 1 ∧ w'.locked = w.locked := by
  have hlocked : w'.locked = w.locked :=
    locked_of_may (show ¬ (Op.openLock p).TouchesLocks from id) h
  obtain ⟨oracle, w1, _, _, hrespond, rfl⟩ := respond_of_may h
  cases hchange : w.change oracle.fault w.fs (w.fs.lockOpened env p) with
  | mk result w2 =>
      have hserial : (w.change oracle.fault w.fs (w.fs.lockOpened env p)).2.nextSerial =
          w.nextSerial := World.change_serial
      rw [hchange] at hserial
      unfold respond at hrespond
      dsimp only at hrespond
      rw [hchange] at hrespond
      cases result with
      | error e => cases congrArg Prod.fst hrespond
      | ok u =>
          cases hrespond
          exact ⟨by rw [hserial], congrArg (· + 1) hserial, hlocked⟩

/-- A lock that is granted was free, unless the handle had it already. -/
theorem may_tryLock_ok {p : FsPath} {lock : Handle}
    (h : (machine env allowed).may (.tryLock p lock) w (.ok ()) w') :
    w'.fs = w.fs ∧ (w.locked p = none ∨ w.locked p = some lock) ∧ w'.locked = w.lock p lock := by
  obtain ⟨oracle, w1, _, _, hrespond, rfl⟩ := respond_of_may h
  unfold respond at hrespond
  dsimp only at hrespond
  split at hrespond
  · cases congrArg Prod.fst hrespond
  · split at hrespond
    · next hfree =>
        cases hrespond
        exact ⟨rfl, hfree, rfl⟩
    · cases congrArg Prod.fst hrespond

theorem may_tryLock_error {p : FsPath} {lock : Handle} {e : IoError}
    (h : (machine env allowed).may (.tryLock p lock) w (.error e) w') :
    w'.fs = w.fs ∧ w'.locked = w.locked := by
  obtain ⟨oracle, w1, _, _, hrespond, rfl⟩ := respond_of_may h
  unfold respond at hrespond
  dsimp only at hrespond
  split at hrespond
  · cases hrespond
    exact ⟨rfl, rfl⟩
  · split at hrespond
    · cases congrArg Prod.fst hrespond
    · cases hrespond
      exact ⟨rfl, rfl⟩

theorem World.release_locked {p : FsPath} {lock : Handle} :
    (w.release p lock).locked =
      if w.locked p = some lock then fun q => if q = p then none else w.locked q
      else w.locked := by
  unfold World.release
  split <;> rfl

theorem may_closeFile {p : FsPath} {lock : Handle} {r : Unit}
    (h : (machine env allowed).may (.closeFile p lock) w r w') :
    w'.fs = w.fs ∧ w'.locked = (w.release p lock).locked := by
  obtain ⟨oracle, w1, _, _, hrespond, rfl⟩ := respond_of_may h
  cases hrespond
  exact ⟨World.release_fs p lock, rfl⟩

/-- Unlocking releases the lock or does nothing. -/
theorem may_unlockFile {p : FsPath} {lock : Handle} {r : Except IoError Unit}
    (h : (machine env allowed).may (.unlockFile p lock) w r w') :
    w'.fs = w.fs ∧ (w'.locked = w.locked ∨ w'.locked = (w.release p lock).locked) := by
  obtain ⟨oracle, w1, _, _, hrespond, rfl⟩ := respond_of_may h
  unfold respond at hrespond
  dsimp only at hrespond
  split at hrespond
  · cases hrespond
    exact ⟨rfl, .inl rfl⟩
  · cases hrespond
    exact ⟨World.release_fs p lock, .inr rfl⟩

/-- What a handle has done to the locks so far: nothing, or it has taken one that was
free. -/
def World.HeldBy (path : FsPath) (lock : Handle) (w w' : World) : Prop :=
  w'.locked = w.locked ∨ (w.locked path = none ∧ w'.locked = w.lock path lock)

/-- **Giving up a new handle** restores the locks. -/
theorem World.HeldBy.release {path : FsPath} {lock : Handle}
    (h : World.HeldBy path lock w w') (hfresh : w.locked path ≠ some lock) :
    (w'.release path lock).locked = w.locked := by
  rw [World.release_locked]
  rcases h with hsame | ⟨hfree, htaken⟩
  · rw [hsame, if_neg hfresh]
  · rw [htaken]
    simp only [World.lock, if_true]
    funext q
    split
    · next hq => rw [hq, hfree]
    · rfl

/-! ## What is in a lock file -/

/-- What `acquire_lock` writes. -/
def lockText (process : Nat) : Bytes :=
  textBytes ("\x7b\"pid\":" ++ toString process ++ "\x7d\n")

/-- Every file at the path has contents in `P`, or the contents it had. -/
def FileSystem.KeptOr (P : Bytes → Prop) (path : FsPath) (fs fs' : FileSystem) : Prop :=
  ∀ attr contents holes, fs'.node path = some (.file attr contents holes) →
    P contents ∨ ∃ attr holes, fs.node path = some (.file attr contents holes)

namespace FileSystem

variable {fs fs' fs'' : FileSystem} {path : FsPath} {P : Bytes → Prop}

theorem KeptOr.of_same (h : fs'.node path = fs.node path) : KeptOr P path fs fs' := by
  intro attr contents holes hnode
  exact .inr ⟨attr, holes, h ▸ hnode⟩

theorem KeptOr.trans (h : KeptOr P path fs fs') (h' : KeptOr P path fs' fs'') :
    KeptOr P path fs fs'' := by
  intro attr contents holes hnode
  rcases h' attr contents holes hnode with hnew | ⟨attr', holes', hold⟩
  · exact .inl hnew
  · exact h attr' contents holes' hold

theorem KeptOr.mono {Q : Bytes → Prop} (h : KeptOr P path fs fs')
    (himp : ∀ contents, P contents → Q contents) : KeptOr Q path fs fs' := by
  intro attr contents holes hnode
  exact (h attr contents holes hnode).imp (himp contents) id

/-- A file that is rewritten has contents made of the old ones. -/
theorem rewrite_eq_file {parent : FsPath} {name : String} {f : Attr → Bytes → Attr × Bytes}
    {attr : Attr} {contents : Bytes} {holes : Bool}
    (h : (fs.rewrite (parent ++ [name]) f).node (parent ++ [name]) =
      some (.file attr contents holes)) :
    ∃ attr' old, fs.node (parent ++ [name]) = some (.file attr' old holes) ∧
      contents = (f attr' old).2 := by
  cases hnode : fs.node (parent ++ [name]) with
  | none =>
      unfold rewrite at h
      simp [hnode] at h
  | some n =>
      cases n with
      | file attr' old holes' =>
          rw [node_rewrite hnode] at h
          cases h
          exact ⟨attr', old, rfl, rfl⟩
      | directory attr' =>
          unfold rewrite at h
          simp [hnode] at h
      | symlink =>
          unfold rewrite at h
          simp [hnode] at h
      | special kind =>
          unfold rewrite at h
          simp [hnode] at h

theorem KeptOr.lockOpened (h : fs.lockOpened env path = .ok fs') : KeptOr (· = []) path fs fs' := by
  by_cases hnode : fs.node path = none
  · unfold FileSystem.lockOpened at h
    rw [hnode] at h
    dsimp only at h
    split at h
    · cases h
    · next hentry =>
        cases h
        intro attr contents holes hnew
        rw [node_place (canPlace_of_missing hnode hentry), if_pos rfl] at hnew
        cases hnew
        exact .inl rfl
  · rw [(lockOpened_eq_ok h).2 hnode]
    exact .of_same rfl

theorem KeptOr.permissionsSet {parent : FsPath} {name : String} {mode : Nat}
    (h : fs.permissionsSet env (parent ++ [name]) mode = .ok fs') :
    KeptOr P (parent ++ [name]) fs fs' := by
  unfold FileSystem.permissionsSet at h
  split at h
  · split at h
    · cases h
      intro attr contents holes hnode
      obtain ⟨attr', old, hold, rfl⟩ := rewrite_eq_file hnode
      exact .inr ⟨attr', holes, hold⟩
    · cases h
  · cases h
    exact .of_same rfl

end FileSystem

section

variable {parent : FsPath} {name : String}

end

/-! ## New directories -/

/-- Below `root`, the second file system has directories of this mode where the first
has nothing, and nothing else changes. -/
def FileSystem.DirectoriesAdded (env : Env) (mode : Nat) (root : FsPath → Prop)
    (fs fs' : FileSystem) : Prop :=
  ∀ q, fs'.node q = fs.node q ∨
    (fs.node q = none ∧ root q ∧ fs'.node q = some (.directory (env.attr mode)))

theorem FileSystem.DirectoriesAdded.refl {mode : Nat} {root : FsPath → Prop} (fs : FileSystem) :
    FileSystem.DirectoriesAdded env mode root fs fs := fun _ => .inl rfl

theorem FileSystem.DirectoriesAdded.trans {mode : Nat} {root : FsPath → Prop}
    {fs fs1 fs2 : FileSystem} (h : fs.DirectoriesAdded env mode root fs1)
    (h' : fs1.DirectoriesAdded env mode root fs2) : fs.DirectoriesAdded env mode root fs2 := by
  intro q
  rcases h' q with hsame | ⟨hnone, hroot, hdir⟩
  · rcases h q with hsame' | ⟨hnone, hroot, hdir⟩
    · exact .inl (hsame.trans hsame')
    · exact .inr ⟨hnone, hroot, hsame.trans hdir⟩
  · rcases h q with hsame' | ⟨_, _, hdir'⟩
    · exact .inr ⟨hsame'.symm.trans hnone, hroot, hdir⟩
    · rw [hdir'] at hnone
      cases hnone

theorem FileSystem.DirectoriesAdded.mono {mode : Nat} {root root' : FsPath → Prop}
    {fs fs' : FileSystem} (h : fs.DirectoriesAdded env mode root fs')
    (himp : ∀ q, root q → root' q) : fs.DirectoriesAdded env mode root' fs' :=
  fun q => (h q).imp id fun ⟨hnone, hroot, hdir⟩ => ⟨hnone, himp q hroot, hdir⟩

theorem FileSystem.added_of_makeDirectories {mode : Nat} {fs fs' : FileSystem}
    {ps : List FsPath} (h : makeDirectories env mode fs ps = .ok fs') :
    fs.DirectoriesAdded env mode (· ∈ ps) fs' := by
  induction ps generalizing fs with
  | nil =>
      cases h
      exact .refl _
  | cons p rest ih =>
      rw [makeDirectories] at h
      split at h
      · exact (ih h).mono fun q hq => List.mem_cons_of_mem _ hq
      · split at h
        · cases h
        · next fs1 hone =>
            obtain ⟨hnone, hnode⟩ := makeDirectory_eq_ok hone
            have hfirst : fs.DirectoriesAdded env mode (· ∈ p :: rest) fs1 := by
              intro q
              by_cases hq : q = p
              · rw [hq, hnode p, if_pos rfl]
                exact .inr ⟨hnone, List.mem_cons_self, rfl⟩
              · exact .inl ((hnode q).trans (if_neg hq))
            exact hfirst.trans ((ih h).mono fun q hq => List.mem_cons_of_mem _ hq)

theorem FileSystem.mem_ancestry {p q : FsPath} (h : q ∈ ancestry p) : q <+: p :=
  (List.mem_inits q p).mp (List.mem_of_mem_tail h)

/-- **A recursive `mkdir`** adds directories at or above its path, whether it
succeeds or not. -/
theorem may_createDirectories {p : FsPath} {r : Except IoError Unit}
    (h : (machine env allowed).may (.createDirectories p) w r w') :
    w.fs.DirectoriesAdded env 0o700 (· <+: p) w'.fs := by
  have hsteps : ∀ ps fs, (∀ q ∈ ps, q <+: p) →
      FileSystem.makeDirectories env 0o700 w.fs ps = .ok fs →
        w.fs.DirectoriesAdded env 0o700 (· <+: p) fs :=
    fun ps fs hps hfs => (FileSystem.added_of_makeDirectories hfs).mono hps
  obtain ⟨oracle, w1, _, _, hrespond, rfl⟩ := respond_of_may h
  cases r with
  | ok u =>
      obtain ⟨_, fs, hfs, rfl⟩ := World.change_eq_ok hrespond
      exact hsteps _ fs (fun q hq => FileSystem.mem_ancestry hq) hfs
  | error e =>
      rw [World.change_eq_error hrespond]
      dsimp only
      split
      · exact .refl w.fs
      · unfold FileSystem.partlyMade
        split
        · next fs hfs =>
            exact hsteps _ fs (fun q hq => FileSystem.mem_ancestry (List.mem_of_mem_take hq)) hfs
        · exact .refl w.fs

end

end CodexVault
