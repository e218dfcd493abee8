import CodexVault.LockFiles
import CodexVault.Samples
import CodexVault.StoreFacts

/-!
# Password rotation and failures

The commit point of a rotation is the rename of the new manifest onto the old
one.  `sinceRename` is what the history holds after it.  `replacePrivateJson` has
two outcomes, `ReplaceOutcome`: the manifest is what it was, or it is replaced
and the function succeeds exactly when nothing failed after the rename.

`rotation_atomic_iff` follows: a rotation that fails leaves the manifest alone,
except when the failure comes after the commit point, or when the lock file is a second
name of the manifest.
-/

namespace CodexVault

open ByteStrings Programs Contract

/-- The call was a rename onto the path, and it succeeded. -/
def Event.renamesOnto (target : FsPath) (event : Event) : Bool :=
  match event.op, event.error with
  | .rename _ path, none => decide (path = target)
  | _, _ => false

/-- The calls made after the last successful rename onto the path, newest first. -/
def sinceRename (target : FsPath) : List Event → Option (List Event)
  | [] => none
  | event :: older =>
      if event.renamesOnto target then some [] else (sinceRename target older).map (event :: ·)

theorem sinceRename_append {target : FsPath} {newer older : List Event}
    (h : ∀ event ∈ newer, event.renamesOnto target = false) :
    sinceRename target (newer ++ older) = (sinceRename target older).map (newer ++ ·) := by
  induction newer with
  | nil => simp
  | cons event rest ih =>
      rw [List.cons_append, sinceRename, h event List.mem_cons_self,
        ih fun e he => h e (List.mem_cons_of_mem _ he)]
      simp [Function.comp_def]

/-- The call renames nothing. -/
def Op.isRename : Op → Bool
  | .rename _ _ => true
  | _ => false

theorem renamesOnto_of_isRename {target : FsPath} {event : Event}
    (h : event.op.isRename = false) : event.renamesOnto target = false := by
  unfold Event.renamesOnto
  split
  · next source path hop _ =>
      rw [hop] at h
      cases h
  · rfl

theorem isRename_of_locksAt {path : FsPath} {op : Op} (h : op.LocksAt path) :
    op.isRename = false := by
  cases op with
  | rename => exact absurd h id
  | _ => rfl

/-- Two paths are spared, and nothing is renamed. -/
def Op.Quiet (env : Env) (target other : FsPath) (op : Op) : Prop :=
  op.Spares env target ∧ op.Spares env other ∧ op.isRename = false

section

variable {lib : Libraries} {env : Env} {allowed : Oracle → Prop} {w w' w'' : World}
    {target other : FsPath}

/-- Two paths hold what they held, and nothing was renamed onto the first. -/
structure Untouched (target other : FsPath) (w w' : World) : Prop where
  sameTarget : w'.fs.node target = w.fs.node target
  sameOther : w'.fs.node other = w.fs.node other
  newer : ∃ newer, w'.history = newer ++ w.history ∧
    ∀ event ∈ newer, event.renamesOnto target = false

theorem Untouched.refl : Untouched target other w w :=
  ⟨rfl, rfl, [], rfl, fun _ h => by cases h⟩

theorem Untouched.trans (h : Untouched target other w w') (h' : Untouched target other w' w'') :
    Untouched target other w w'' := by
  obtain ⟨first, hfirst, hall⟩ := h.newer
  obtain ⟨second, hsecond, hall'⟩ := h'.newer
  refine ⟨h'.sameTarget.trans h.sameTarget, h'.sameOther.trans h.sameOther, second ++ first, ?_, ?_⟩
  · rw [hsecond, hfirst, List.append_assoc]
  · intro event hevent
    rcases List.mem_append.mp hevent with he | he
    · exact hall' event he
    · exact hall event he

/-- A program of quiet calls leaves both paths and the commit point alone. -/
theorem untouched_of_runs {α : Type} {p : Prog Op Op.Reply α} {a : α}
    (hp : Uses (Op.Quiet env target other) p) (hrun : (machine env allowed).Runs p w a w') :
    Untouched target other w w' := by
  obtain ⟨newer, hnewer, hall⟩ := history_of_runs (hp.mono fun _ h => h.2.2) hrun
  exact ⟨node_of_runs (hp.mono fun _ h => h.1) hrun, node_of_runs (hp.mono fun _ h => h.2.1) hrun,
    newer, hnewer, fun event he => renamesOnto_of_isRename (hall event he)⟩

theorem untouched_of_may {op : Op} {r : op.Reply} (hop : op.Quiet env target other)
    (h : (machine env allowed).may op w r w') : Untouched target other w w' :=
  untouched_of_runs (uses_perform hop) (runs_perform.mpr h)

/-- A rename that fails changes nothing. -/
theorem untouched_of_failed_rename {source path : FsPath} {e : IoError}
    (h : (machine env allowed).may (.rename source path) w (.error e) w') :
    Untouched target other w w' := by
  have hfs := may_rename_error h
  refine ⟨by rw [hfs], by rw [hfs], [_], history_of_may h, ?_⟩
  intro event hevent
  rw [List.mem_singleton.mp hevent]
  rfl

theorem Untouched.sinceRename_eq (h : Untouched target other w w') {since : Option (List Event)}
    (hsince : sinceRename target w.history = since) :
    ∃ newer, w'.history = newer ++ w.history ∧
      sinceRename target w'.history = since.map (newer ++ ·) := by
  obtain ⟨newer, hnewer, hall⟩ := h.newer
  exact ⟨newer, hnewer, by rw [hnewer, sinceRename_append hall, hsince]⟩

/-- What a replacement of the file at `target` may come to.  After the commit point
it succeeds exactly when nothing has failed since. -/
inductive ReplaceOutcome (env : Env) (target other : FsPath) (contents : Bytes) (w : World) :
    Except VaultError Unit → World → Prop
  | kept (e : VaultError) (w' : World) (h : Untouched target other w w') :
      ReplaceOutcome env target other contents w (.error e) w'
  | replaced (r : Except VaultError Unit) (w' : World) (since : List Event)
      (htarget : w'.fs.node target = some (.file (env.attr 0o600) contents false))
      (hother : w'.fs.node other = w.fs.node other)
      (hsince : sinceRename target w'.history = some since)
      (hclean : r = .ok () ↔ ∀ event ∈ since, event.error = none) :
      ReplaceOutcome env target other contents w r w'

/-- Quiet calls before the replacement. -/
theorem ReplaceOutcome.before {contents : Bytes} {r : Except VaultError Unit}
    (h : Untouched target other w w') (h' : ReplaceOutcome env target other contents w' r w'') :
    ReplaceOutcome env target other contents w r w'' := by
  cases h' with
  | kept e _ hkept => exact .kept e _ (h.trans hkept)
  | replaced _ _ since htarget hother hsince hclean =>
      exact .replaced _ _ since htarget (hother.trans h.sameOther) hsince hclean

/-- Quiet calls after a replacement that failed do not mend it. -/
theorem ReplaceOutcome.after {contents : Bytes} {e : VaultError}
    (h : ReplaceOutcome env target other contents w (.error e) w')
    (h' : Untouched target other w' w'') :
    ReplaceOutcome env target other contents w (.error e) w'' := by
  cases h with
  | kept _ _ hkept => exact .kept e _ (hkept.trans h')
  | replaced _ _ since htarget hother hsince hclean =>
      obtain ⟨newer, _, hsince'⟩ := h'.sinceRename_eq hsince
      refine .replaced _ _ _ (h'.sameTarget.trans htarget) (h'.sameOther.trans hother) hsince' ?_
      constructor
      · intro hok
        cases hok
      · intro hall
        exact hclean.mpr fun event he => hall event (List.mem_append_right _ he)

end

/-- The name of a temporary manifest is the name of no other file of a profile. -/
theorem temporaryManifest_ne (id : String) :
    ".manifest-" ++ id ++ ".tmp" ≠ "manifest.json" ∧
      ".manifest-" ++ id ++ ".tmp" ≠ "state.cvlt" ∧
      ".manifest-" ++ id ++ ".tmp" ≠ "active.lock" := by
  refine ⟨?_, ?_, ?_⟩ <;>
  · intro h
    have hchars := congrArg String.toList h
    simp at hchars

/-- Two names in one directory. -/
theorem concat_ne {parent : FsPath} {a b : String} (h : a ≠ b) :
    parent ++ [a] ≠ parent ++ [b] := by
  simpa using h

theorem not_prefix_concat {parent : FsPath} {a b : String} (h : a ≠ b) :
    ¬ parent ++ [a] <+: parent ++ [b] := by
  intro hpre
  exact concat_ne h (hpre.eq_of_length (by simp))

/-- The calls of a replacement besides the rename. -/
def Op.OnTemporary (temporary : FsPath) : Op → Prop
  | .createFile p | .store p _ | .removeFile p => p = temporary
  | .sync _ | .openDirectory _ | .newUuid => True
  | _ => False

theorem Op.OnTemporary.quiet {env : Env} {temporary target other : FsPath} {op : Op}
    (h : op.OnTemporary temporary) (ht : temporary ≠ target) (ho : temporary ≠ other) :
    op.Quiet env target other := by
  cases op <;> simp only [OnTemporary] at h <;>
    refine ⟨fun fs hfs => ?_, fun fs hfs => ?_, rfl⟩ <;> simp only [MayChange] at hfs <;> grind

section

variable {lib : Libraries} {env : Env} {allowed : Oracle → Prop} {w w' : World}
    {parent : FsPath} {temporary name otherName : String} {value : UserManifest}

theorem untouched_writePrivateJson {target other : FsPath} {r : Except VaultError Unit}
    {path : FsPath} (ht : path ≠ target) (ho : path ≠ other)
    (h : (machine env allowed).Runs (writePrivateJson lib path value).run w r w') :
    Untouched target other w w' := by
  have hquiet : ∀ op : Op, op.OnTemporary path → op.Quiet env target other :=
    fun op hop => hop.quiet ht ho
  apply untouched_of_runs _ h
  apply uses_writePrivateJson (hquiet _ rfl) (fun _ => hquiet _ rfl) (hquiet _ trivial)

/-- **The commit point.**  A manifest that was written and renamed is in place. -/
theorem committed {w1 w2 : World} (ht : temporary ≠ name) (ho : temporary ≠ otherName)
    (hnames : name ≠ otherName)
    (hfile : (machine env allowed).Runs
      (writePrivateJson lib (parent ++ [temporary]) value).run w (.ok ()) w1)
    (hrename : (machine env allowed).may
      (.rename (parent ++ [temporary]) (parent ++ [name])) w1 (.ok ()) w2) :
    w2.fs.node (parent ++ [name]) =
        some (.file (env.attr 0o600) (lib.toJson value ++ [10]) false) ∧
      w2.fs.node (parent ++ [otherName]) = w.fs.node (parent ++ [otherName]) ∧
      sinceRename (parent ++ [name]) w2.history = some [] := by
  obtain ⟨_, hnodes⟩ := writePrivateJson_ok hfile
  obtain ⟨hgraft, hfs, _, _⟩ := may_rename_ok hrename
  have hat : w1.fs.node (parent ++ [temporary]) =
      some (.file (env.attr 0o600) (lib.toJson value ++ [10]) false) :=
    (hnodes _).trans (if_pos rfl)
  have hmoved := FileSystem.node_graft_file hgraft hat rfl
  have hsame := (untouched_writePrivateJson (concat_ne ht) (concat_ne ho) hfile).sameOther
  rw [hfs, history_of_may hrename]
  refine ⟨(hmoved _).trans (if_pos rfl), ?_, ?_⟩
  · rw [hmoved, if_neg (concat_ne hnames.symm), if_neg (concat_ne ho.symm),
      if_neg (not_prefix_concat hnames), hsame]
  · simp [sinceRename, Event.renamesOnto, Op.failure]

/-- A call after the commit point. -/
theorem afterCommit {op : Op} {reply : op.Reply} {since : List Event} {target other : FsPath}
    (hop : op.Quiet env target other) (hmay : (machine env allowed).may op w reply w')
    (hsince : sinceRename target w.history = some since) :
    w'.fs.node target = w.fs.node target ∧ w'.fs.node other = w.fs.node other ∧
      sinceRename target w'.history = some (⟨op, op.failure reply⟩ :: since) := by
  have hu := untouched_of_may hop hmay
  refine ⟨hu.sameTarget, hu.sameOther, ?_⟩
  rw [history_of_may hmay, sinceRename, renamesOnto_of_isRename hop.2.2, hsince]
  rfl

/-- The closure of a replacement, before any cleanup. -/
theorem replaceThrough_outcome {r : Except VaultError Unit} (ht : temporary ≠ name)
    (ho : temporary ≠ otherName) (hnames : name ≠ otherName)
    (h : (machine env allowed).Runs (replaceThrough lib parent temporary name value).run w r w') :
    ReplaceOutcome env (parent ++ [name]) (parent ++ [otherName])
      (lib.toJson value ++ [10]) w r w' := by
  have hquiet : ∀ op : Op, op.OnTemporary (parent ++ [temporary]) →
      op.Quiet env (parent ++ [name]) (parent ++ [otherName]) :=
    fun op hop => hop.quiet (concat_ne ht) (concat_ne ho)
  have hopenQuiet := hquiet (.openDirectory parent) trivial
  have hsyncQuiet := hquiet (.sync parent) trivial
  cases r with
  | ok u =>
      obtain ⟨_, w1, hfile, hrest⟩ := runs_ok_bind.mp h
      obtain ⟨_, w2, hrename, hrest⟩ := runs_ok_bind.mp hrest
      obtain ⟨_, w3, hopen, hsync⟩ := runs_ok_bind.mp hrest
      obtain ⟨htarget, hother, hsince⟩ :=
        committed ht ho hnames hfile (runs_request.mp (runs_sys_ok.mp hrename))
      obtain ⟨ht1, ho1, hs1⟩ :=
        afterCommit hopenQuiet (runs_request.mp (runs_sys_ok.mp hopen)) hsince
      obtain ⟨ht2, ho2, hs2⟩ :=
        afterCommit hsyncQuiet (runs_request.mp (runs_sys_ok.mp hsync)) hs1
      refine .replaced _ _ _ (ht2.trans (ht1.trans htarget)) (ho2.trans (ho1.trans hother)) hs2 ?_
      simp [Op.failure]
  | error e =>
      rcases runs_error_bind.mp h with hfile | ⟨_, w1, hfile, hrest⟩
      · exact .kept _ _ (untouched_writePrivateJson (concat_ne ht) (concat_ne ho) hfile)
      rcases runs_error_bind.mp hrest with hrename | ⟨_, w2, hrename, hrest⟩
      · obtain ⟨error, _, hrename⟩ := runs_sys_error.mp hrename
        have hkept := untouched_writePrivateJson (concat_ne ht) (concat_ne ho) hfile
        exact .kept _ _ (hkept.trans (untouched_of_failed_rename (runs_request.mp hrename)))
      obtain ⟨htarget, hother, hsince⟩ :=
        committed ht ho hnames hfile (runs_request.mp (runs_sys_ok.mp hrename))
      rcases runs_error_bind.mp hrest with hopen | ⟨_, w3, hopen, hsync⟩
      · obtain ⟨error, _, hopen⟩ := runs_sys_error.mp hopen
        obtain ⟨ht1, ho1, hs1⟩ := afterCommit hopenQuiet (runs_request.mp hopen) hsince
        refine .replaced _ _ _ (ht1.trans htarget) (ho1.trans hother) hs1 ?_
        simp [Op.failure]
      · obtain ⟨error, _, hsync⟩ := runs_sys_error.mp hsync
        obtain ⟨ht1, ho1, hs1⟩ :=
          afterCommit hopenQuiet (runs_request.mp (runs_sys_ok.mp hopen)) hsince
        obtain ⟨ht2, ho2, hs2⟩ := afterCommit hsyncQuiet (runs_request.mp hsync) hs1
        refine .replaced _ _ _ (ht2.trans (ht1.trans htarget)) (ho2.trans (ho1.trans hother)) hs2 ?_
        simp [Op.failure]

/-- **Replacing a file in place.**  What fails before the commit point leaves the
file alone; what fails after it is reported all the same. -/
theorem replacePrivateJson_outcome {r : Except VaultError Unit}
    (ht : ∀ id, ".manifest-" ++ id ++ ".tmp" ≠ name)
    (ho : ∀ id, ".manifest-" ++ id ++ ".tmp" ≠ otherName) (hnames : name ≠ otherName)
    (h : (machine env allowed).Runs (replacePrivateJson lib parent name value).run w r w') :
    ReplaceOutcome env (parent ++ [name]) (parent ++ [otherName])
      (lib.toJson value ++ [10]) w r w' := by
  have huuid : Op.newUuid.Quiet env (parent ++ [name]) (parent ++ [otherName]) :=
    ⟨fun _ h => h, fun _ h => h, rfl⟩
  cases r with
  | ok u =>
      obtain ⟨id, w0, hask, hbody⟩ := runs_ok_bind.mp h
      obtain ⟨_, _, hid⟩ := runs_ask.mp hask
      exact (replaceThrough_outcome (ht _) (ho _) hnames (runs_onError_ok.mp hbody)).before
        (untouched_of_may huuid hid)
  | error e =>
      rcases runs_error_bind.mp h with hask | ⟨id, w0, hask, hbody⟩
      · obtain ⟨_, heq, _⟩ := runs_ask.mp hask
        cases heq
      · obtain ⟨_, _, hid⟩ := runs_ask.mp hask
        obtain ⟨w1, hfail, hclean⟩ := runs_onError_error.mp hbody
        obtain ⟨reply, hremove⟩ := runs_ignore.mp hclean
        have htemporary : (Op.removeFile
            (parent ++ [".manifest-" ++ lib.uuidText id ++ ".tmp"])).Quiet
              env (parent ++ [name]) (parent ++ [otherName]) :=
          Op.OnTemporary.quiet rfl (concat_ne (ht _)) (concat_ne (ho _))
        have hremoved := untouched_of_may htemporary (runs_request.mp hremove)
        exact ((replaceThrough_outcome (ht _) (ho _) hnames hfail).after hremoved).before
          (untouched_of_may huuid hid)

end

/-! ## The whole rotation -/

namespace VaultStore

/-- The manifest of a profile. -/
def manifestPath (store : VaultStore) (username : String) : FsPath :=
  store.userRoot username ++ ["manifest.json"]

/-- The sealed state of a profile. -/
def statePath (store : VaultStore) (username : String) : FsPath :=
  store.userRoot username ++ ["state.cvlt"]

/-- The lock file of a profile. -/
def lockPath (store : VaultStore) (username : String) : FsPath :=
  store.userRoot username ++ ["active.lock"]

end VaultStore

/-- The calls around a lock file, and those that change nothing. -/
def Op.AroundLock (path : FsPath) : Op → Prop
  | .openLock p | .setPermissions p _ | .setLength p | .writeText p _ => p = path
  | .tryLock _ _ | .seek _ | .unlockFile _ _ | .closeFile _ _ | .processId => True
  | .lstat _ | .openRead _ | .random _ => True
  | _ => False

theorem Op.AroundLock.quiet {env : Env} {path target other : FsPath} {op : Op}
    (h : op.AroundLock path) (ht : target ≠ path) (ho : other ≠ path) :
    op.Quiet env target other := by
  cases op <;> simp only [AroundLock] at h <;>
    refine ⟨fun fs hfs => ?_, fun fs hfs => ?_, rfl⟩ <;> simp only [MayChange] at hfs <;> grind

section

variable {lib : Libraries} {env : Env} {allowed : Oracle → Prop} {w w1 w2 w3 w' : World}
    {target other path : FsPath}

/-- Giving up the lock after a replacement: a failure to unlock is reported. -/
theorem ReplaceOutcome.unlocked {contents : Bytes} {r unlockResult r' : Except VaultError Unit}
    {lock : Handle} (ht : target ≠ path) (ho : other ≠ path)
    (h : ReplaceOutcome env target other contents w r w1)
    (hunlock : (machine env allowed).Runs (sys (request (.unlockFile path lock))).run w1
      unlockResult w2)
    (hclose : (machine env allowed).may (.closeFile path lock) w2 () w3)
    (hresult : (machine env allowed).Runs
      (do ofExcept r; ofExcept unlockResult : Io Unit).run w3 r' w') :
    ReplaceOutcome env target other contents w r' w' := by
  have hunlockQuiet : (Op.unlockFile path lock).Quiet env target other :=
    Op.AroundLock.quiet trivial ht ho
  have hcloseQuiet : (Op.closeFile path lock).Quiet env target other :=
    Op.AroundLock.quiet trivial ht ho
  have hquiet : Untouched target other w1 w3 :=
    (untouched_of_runs (uses_sys (uses_request hunlockQuiet)) hunlock).trans
      (untouched_of_may hcloseQuiet hclose)
  cases r with
  | error e =>
      obtain ⟨rfl, rfl⟩ : r' = .error e ∧ w' = w3 := by
        rcases runs_run_bind.mp hresult with ⟨e', rfl, hone⟩ | ⟨_, _, hone, _⟩
        · exact runs_ofExcept.mp hone
        · cases (runs_ofExcept.mp hone).1
      exact h.after hquiet
  | ok u =>
      obtain ⟨rfl, rfl⟩ : r' = unlockResult ∧ w' = w3 := by
        rcases runs_run_bind.mp hresult with ⟨e', rfl, hone⟩ | ⟨_, w4, hone, htwo⟩
        · cases (runs_ofExcept.mp hone).1
        · obtain ⟨_, rfl⟩ := runs_ofExcept.mp hone
          exact runs_ofExcept.mp htwo
      cases h with
      | replaced _ _ since htarget hother hsince hclean =>
          have hall := hclean.mp rfl
          cases r' with
          | ok u =>
              obtain ⟨ht1, ho1, hs1⟩ :=
                afterCommit hunlockQuiet (runs_request.mp (runs_sys_ok.mp hunlock)) hsince
              obtain ⟨ht2, ho2, hs2⟩ := afterCommit hcloseQuiet hclose hs1
              refine .replaced _ _ _ (ht2.trans (ht1.trans htarget)) (ho2.trans (ho1.trans hother))
                hs2 ?_
              simpa [Op.failure] using hall
          | error e =>
              obtain ⟨error, _, hfail⟩ := runs_sys_error.mp hunlock
              obtain ⟨ht1, ho1, hs1⟩ := afterCommit hunlockQuiet (runs_request.mp hfail) hsince
              obtain ⟨ht2, ho2, hs2⟩ := afterCommit hcloseQuiet hclose hs1
              refine .replaced _ _ _ (ht2.trans (ht1.trans htarget)) (ho2.trans (ho1.trans hother))
                hs2 ?_
              simp [Op.failure]

/-- What a rotation may come to: the manifest is untouched and an error is
reported, or the manifest in place was opened, and replaced or kept as
`ReplaceOutcome` says. -/
inductive RotationOutcome (lib : Libraries) (env : Env) (allowed : Oracle → Prop)
    (store : VaultStore) (username : String) (current new : Bytes) (w : World) :
    Except VaultError Unit → World → Prop
  | refused (e : VaultError) (w' : World)
      (h : Untouched (store.manifestPath username) (store.statePath username) w w') :
      RotationOutcome lib env allowed store username current new w (.error e) w'
  | rewrapped (r : Except VaultError Unit) (w' : World) (contents : Bytes)
      (m m' : UserManifest) (oracle : Oracle) (dataKey : Key) (hallowed : allowed oracle)
      (hcontents : w.contents (store.manifestPath username) = some contents)
      (hparse : parseManifest lib contents = .ok m)
      (hrewraps : Rewraps lib username current new (oracle.draw 16) m m' dataKey)
      (h : ReplaceOutcome env (store.manifestPath username) (store.statePath username)
        (lib.toJson m' ++ [10]) w r w') :
      RotationOutcome lib env allowed store username current new w r w'

/-- The closure of a rotation and the end of its lock. -/
theorem rotateHeld_outcome {store : VaultStore} {username : String} {current new : Bytes}
    {lock : Handle} {r : Except VaultError Unit}
    (h : (machine env allowed).Runs (do
      let result ← Prog.attempt
        (VaultStore.rewrapManifest lib env (store.userRoot username) username current new)
      let unlockResult ←
        Prog.attempt (sys (request (.unlockFile (store.lockPath username) lock)))
      ask (.closeFile (store.lockPath username) lock)
      ofExcept result
      ofExcept unlockResult : Io Unit).run w r w') :
    RotationOutcome lib env allowed store username current new w r w' := by
  have hlockNames : store.manifestPath username ≠ store.lockPath username ∧
      store.statePath username ≠ store.lockPath username :=
    ⟨concat_ne (by decide), concat_ne (by decide)⟩
  have hquiet : ∀ op : Op, op.AroundLock (store.lockPath username) →
      op.Quiet env (store.manifestPath username) (store.statePath username) :=
    fun op hop => hop.quiet hlockNames.1 hlockNames.2
  have hreadUses : Uses (Op.Quiet env (store.manifestPath username) (store.statePath username))
      (VaultStore.rewrappedManifest lib env (store.userRoot username) username current new).run :=
    uses_rewrappedManifest (hquiet _ trivial) (hquiet _ trivial) (fun _ => hquiet _ trivial)
  obtain ⟨result, w2, hrewrap, hrest⟩ := runs_attempt_bind.mp h
  obtain ⟨unlockResult, w3, hunlock, hclose⟩ := runs_attempt_bind.mp hrest
  obtain ⟨_, w4, hclosed, hend⟩ := runs_ask_bind.mp hclose
  rcases runs_run_bind.mp hrewrap with ⟨e, rfl, hread⟩ | ⟨m', w5, hread, hreplace⟩
  · have hunlockQuiet := hquiet (.unlockFile (store.lockPath username) lock) trivial
    have hcloseQuiet := hquiet (.closeFile (store.lockPath username) lock) trivial
    have hquietEnd := (untouched_of_runs hreadUses hread).trans
      ((untouched_of_runs (uses_sys (uses_request hunlockQuiet)) hunlock).trans
        (untouched_of_may hcloseQuiet hclosed))
    obtain ⟨rfl, rfl⟩ := hend
    exact .refused e _ hquietEnd
  · obtain ⟨attr, contents, holes, m, oracle, dataKey, hnode, hparse, hallowed, hrewraps⟩ :=
      rewrappedManifest_ok hread
    have hreplaced := replacePrivateJson_outcome (fun id => (temporaryManifest_ne id).1)
      (fun id => (temporaryManifest_ne id).2.1) (by decide) hreplace
    have hcontents : w.contents (store.manifestPath username) = some contents := by
      unfold World.contents VaultStore.manifestPath
      rw [hnode]
    refine .rewrapped r w' contents m m' oracle dataKey hallowed hcontents hparse hrewraps ?_
    exact (hreplaced.before (untouched_of_runs hreadUses hread)).unlocked
      hlockNames.1 hlockNames.2 hunlock hclosed hend

/-- Quiet calls before a rotation. -/
theorem RotationOutcome.before {store : VaultStore} {username : String} {current new : Bytes}
    {r : Except VaultError Unit}
    (h : Untouched (store.manifestPath username) (store.statePath username) w w1)
    (h' : RotationOutcome lib env allowed store username current new w1 r w') :
    RotationOutcome lib env allowed store username current new w r w' := by
  cases h' with
  | refused e _ hkept => exact .refused e _ (h.trans hkept)
  | rewrapped _ _ contents m m' oracle dataKey hallowed hcontents hparse hrewraps houtcome =>
      refine .rewrapped r w' contents m m' oracle dataKey hallowed ?_ hparse hrewraps
        (houtcome.before h)
      unfold World.contents at hcontents ⊢
      rwa [h.sameTarget] at hcontents

theorem rotatePassword_outcome {store : VaultStore} {username : String} {current new : Bytes}
    {r : Except VaultError Unit}
    (h : (machine env allowed).Runs
      (store.rotatePassword lib env username current new).run w r w') :
    RotationOutcome lib env allowed store username current new w r w' := by
  have hquiet : ∀ op : Op, op.AroundLock (store.lockPath username) →
      op.Quiet env (store.manifestPath username) (store.statePath username) :=
    fun op hop => hop.quiet (concat_ne (by decide)) (concat_ne (by decide))
  have hlockUses : Uses (Op.Quiet env (store.manifestPath username) (store.statePath username))
      (VaultStore.lockProfile env (store.userRoot username)).run :=
    uses_lockProfile (hquiet _ trivial) (hquiet _ rfl) (hquiet _ rfl) (fun _ => hquiet _ trivial)
      (hquiet _ rfl) (hquiet _ trivial) (hquiet _ trivial) (fun _ => hquiet _ rfl)
      (fun _ => hquiet _ trivial)
  rcases runs_ofExcept_bind.mp h with ⟨e, _, rfl, rfl⟩ | ⟨_, _, hword⟩
  · exact .refused e _ .refl
  rcases runs_ofExcept_bind.mp hword with ⟨e, _, rfl, rfl⟩ | ⟨_, _, hbody⟩
  · exact .refused e _ .refl
  rcases runs_run_bind.mp hbody with ⟨e, rfl, hlock⟩ | ⟨lock, w1, hlock, hlocked⟩
  · exact .refused e _ (untouched_of_runs hlockUses hlock)
  exact (rotateHeld_outcome hlocked).before (untouched_of_runs hlockUses hlock)

end

/-! ## What a rotation promises -/

/-- The password opens the manifest in place. -/
def World.Authenticates (lib : Libraries) (store : VaultStore) (username : String) (w : World)
    (password : Bytes) : Prop :=
  ∃ contents m key, w.contents (store.manifestPath username) = some contents ∧
    parseManifest lib contents = .ok m ∧ openManifest lib username password m = .ok key

/-- A rotation that fails changes nothing, and one that succeeds changes the
password. -/
structure RotationKept (lib : Libraries) (store : VaultStore) (username : String)
    (current new : Bytes) (w : World) (r : Except VaultError Unit) (w' : World) : Prop where
  onError : ∀ e, r = .error e →
    w'.contents (store.manifestPath username) = w.contents (store.manifestPath username) ∧
    ∀ password, w'.Authenticates lib store username password ↔
      w.Authenticates lib store username password
  onOk : r = .ok () → w'.Authenticates lib store username new ∧
    ¬ w'.Authenticates lib store username current
  state : w'.contents (store.statePath username) = w.contents (store.statePath username)

/-- Nothing fails behind the commit point, where the passwords differ, and taking the
lock cuts neither the manifest nor the state. -/
structure RotationSpared (store : VaultStore) (username : String) (current new : Bytes)
    (n n' : NamedWorld) : Prop where
  commit : ∀ since, sinceRename (store.manifestPath username) n'.world.history = some since →
    (∀ event ∈ since, event.error = none) ∧ current ≠ new
  manifest : n.SparesContents (store.lockPath username) (store.manifestPath username) n'
  state : n.SparesContents (store.lockPath username) (store.statePath username) n'

/-- A salt that is drawn is not the one in the manifest in place. -/
def FreshSalt (lib : Libraries) (store : VaultStore) (username : String) (w : World)
    (oracle : Oracle) : Prop :=
  ∀ contents m, w.contents (store.manifestPath username) = some contents →
    parseManifest lib contents = .ok m → m.kdf ≠ kdfParametersFor lib (oracle.draw 16)

theorem World.contents_congr {w w' : World} {p : FsPath} (h : w'.fs.node p = w.fs.node p) :
    w'.contents p = w.contents p := by
  unfold contents
  rw [h]

section

variable {lib : Libraries} {env : Env} {allowed : Oracle → Prop} {w w' : World}
    {store : VaultStore} {username : String} {current new : Bytes}

/-- The manifest a rotation leaves opens under the new password, and not under the
one it was opened with. -/
theorem Rewraps.authenticates {salt : FixedBytes 16} {m m' : UserManifest} {dataKey : Key}
    (A : LawfulAead) (hA : lib.aead = A.toAead) (laws : TextLaws lib)
    (h : Rewraps lib username current new salt m m' dataKey) (hvalid : m.Valid lib)
    (hcontents : w'.contents (store.manifestPath username) = some (lib.toJson m' ++ [10])) :
    parseManifest lib (lib.toJson m' ++ [10]) = .ok m' ∧
      w'.Authenticates lib store username new ∧
      (Unrelated lib new current → ¬ w'.Authenticates lib store username current) := by
  obtain ⟨hvalid', hwritten⟩ := h.valid A hA hvalid
  have hparse := parseManifest_written laws hvalid' h.written.kdf hwritten
  have hname : eqIgnoreAsciiCase m'.username username = true := by
    rw [h.header]
    exact (openManifest_eq_ok.mp h.opened).1
  refine ⟨hparse, ?_, ?_⟩
  · exact ⟨_, m', dataKey, hcontents, hparse, openManifest_wrappedFor A hA h.written hname⟩
  · rintro hother ⟨contents, m'', key, hat, hparse', hopen⟩
    rw [hcontents] at hat
    cases hat
    rw [hparse] at hparse'
    cases hparse'
    exact openManifest_of_unrelated hother h.written hopen

/-- A rotation that is refused has changed what taking the lock has changed. -/
theorem rotationKept_refused_iff {n n' : NamedWorld} {w1 : World} {e : VaultError}
    (htaken : n.LockTaken (store.lockPath username) w1 n')
    (hnone : sinceRename (store.manifestPath username) w1.history = none)
    (h : Untouched (store.manifestPath username) (store.statePath username) w1 n'.world) :
    RotationKept lib store username current new n.world (.error e) n'.world ↔
      RotationSpared store username current new n n' := by
  have hmanifest : n'.world.contents (store.manifestPath username) =
      n.world.contents (store.manifestPath username) ↔
        n.SparesContents (store.lockPath username) (store.manifestPath username) n' := by
    rw [World.contents_congr h.sameTarget]
    exact htaken.contents_iff (concat_ne (by decide))
  have hstate : n'.world.contents (store.statePath username) =
      n.world.contents (store.statePath username) ↔
        n.SparesContents (store.lockPath username) (store.statePath username) n' := by
    rw [World.contents_congr h.sameOther]
    exact htaken.contents_iff (concat_ne (by decide))
  constructor
  · intro hkept
    refine ⟨fun since hsince => ?_, hmanifest.mp (hkept.onError e rfl).1, hstate.mp hkept.state⟩
    obtain ⟨_, _, hnothing⟩ := h.sinceRename_eq hnone
    rw [hnothing] at hsince
    cases hsince
  · intro hspared
    have hsame := hmanifest.mpr hspared.manifest
    refine ⟨fun _ _ => ⟨hsame, fun password => ?_⟩, fun h => ?_, hstate.mpr hspared.state⟩
    · unfold World.Authenticates
      rw [hsame]
    · cases h

/-- What a rotation that holds the lock promises. -/
theorem rotationKept_iff {n n' : NamedWorld} {w1 : World} (A : LawfulAead)
    (hA : lib.aead = A.toAead) (laws : TextLaws lib)
    (hother : current ≠ new → Unrelated lib new current)
    (hlock : ∀ m, lib.fromJson (lockText env.process) ≠ .ok m) {r : Except VaultError Unit}
    (htaken : n.LockTaken (store.lockPath username) w1 n')
    (hwritten : n'.written = lockText env.process)
    (hnone : sinceRename (store.manifestPath username) w1.history = none)
    (h : RotationOutcome lib env (FreshSalt lib store username n.world) store username current new
      w1 r n'.world) :
    RotationKept lib store username current new n.world r n'.world ↔
      RotationSpared store username current new n n' := by
  cases h with
  | refused e _ h => exact rotationKept_refused_iff htaken hnone h
  | rewrapped _ _ contents m m' oracle dataKey hfresh hcontents hparse hrewraps h =>
      -- what was opened is no text of a lock file
      have hspared : n.SparesContents (store.lockPath username) (store.manifestPath username)
          n' := by
        intro hsame hcut
        obtain ⟨hregular, hat⟩ := n.agree hsame
        obtain ⟨attr, old, holes, hnode⟩ := FileSystem.isRegular_iff.mp hregular
        rw [← hat] at hnode
        have hbeside := htaken.beside _ attr old holes hsame hnode
        unfold World.contents at hcontents
        rw [hbeside, if_pos hcut, hwritten] at hcontents
        cases hcontents
        exact absurd (parseManifest_eq_ok.mp hparse).2.1 (hlock m)
      cases h with
      | kept e _ h => exact rotationKept_refused_iff htaken hnone h
      | replaced _ _ since htarget hother' hsince hclean =>
          have hnew : n'.world.contents (store.manifestPath username) =
              some (lib.toJson m' ++ [10]) := by
            unfold World.contents
            rw [htarget]
          obtain ⟨hparse', hopens, hrejects⟩ :=
            hrewraps.authenticates A hA laws (parseManifest_eq_ok.mp hparse).2.2 hnew
          have hchanged : n'.world.contents (store.manifestPath username) ≠
              n.world.contents (store.manifestPath username) := by
            intro hsame
            rw [hnew] at hsame
            have hsalt := hfresh _ m' hsame.symm hparse'
            rw [hrewraps.header] at hsalt
            exact hsalt rfl
          have hstate : n'.world.contents (store.statePath username) =
              n.world.contents (store.statePath username) ↔
                n.SparesContents (store.lockPath username) (store.statePath username) n' := by
            rw [World.contents_congr hother']
            exact htaken.contents_iff (concat_ne (by decide))
          constructor
          · intro hkept
            refine ⟨fun since' hsince' => ?_, hspared, hstate.mp hkept.state⟩
            rw [hsince] at hsince'
            cases hsince'
            cases r with
            | error e => exact absurd (hkept.onError e rfl).1 hchanged
            | ok u =>
                obtain ⟨hyes, hno⟩ := hkept.onOk rfl
                refine ⟨hclean.mp rfl, ?_⟩
                rintro rfl
                exact hno hyes
          · intro hcond
            obtain ⟨hall, hne⟩ := hcond.commit since hsince
            have hok := hclean.mpr hall
            refine ⟨fun e he => ?_, fun _ => ⟨hopens, hrejects (hother hne)⟩,
              hstate.mpr hcond.state⟩
            rw [hok] at he
            cases he

/-- The calls of a rotation after its lock edit no file. -/
theorem rotateHeld_edits {lock : Handle} :
    Uses (fun op => op.edited = none) (do
      let result ← Prog.attempt
        (VaultStore.rewrapManifest lib env (store.userRoot username) username current new)
      let unlockResult ←
        Prog.attempt (sys (request (.unlockFile (store.lockPath username) lock)))
      ask (.closeFile (store.lockPath username) lock)
      ofExcept result
      ofExcept unlockResult : Io Unit).run := by
  have hrewrap : Uses (fun op : Op => op.edited = none)
      (VaultStore.rewrapManifest lib env (store.userRoot username) username current new).run :=
    uses_run_bind (uses_rewrappedManifest rfl rfl fun _ => rfl)
      fun _ => uses_replacePrivateJson rfl fun _ => ⟨rfl, fun _ => rfl, rfl, rfl, rfl, rfl, rfl⟩
  apply uses_run_bind (uses_attempt hrewrap)
  intro _
  have hunlock : Uses (fun op : Op => op.edited = none)
      (sys (request (.unlockFile (store.lockPath username) lock))).run :=
    uses_sys (uses_request rfl)
  apply uses_run_bind (uses_attempt hunlock)
  intro _
  apply uses_run_bind (uses_ask (P := fun op : Op => op.edited = none) rfl)
  intro _
  apply uses_run_bind uses_ofExcept
  intro _
  exact uses_ofExcept

/-- **Rotation is atomic up to its commit point**, as long as the lock file is neither
the manifest nor the state.  Exactly when nothing fails after the new manifest is in place,
and taking the lock has cut neither file, does the result say what happened. -/
theorem rotation_atomic_iff (A : LawfulAead) (hA : lib.aead = A.toAead) (laws : TextLaws lib)
    (hother : current ≠ new → Unrelated lib new current)
    (hlock : ∀ m, lib.fromJson (lockText env.process) ≠ .ok m) {n n' : NamedWorld}
    {r : Except VaultError Unit}
    (hrun : (namedMachine env (FreshSalt lib store username n.world)).Runs
      (store.rotatePassword lib env username current new).run n.begin r n') :
    RotationKept lib store username current new n.world r n'.world ↔
      RotationSpared store username current new n n' := by
  have hlockUses : Uses (Op.LocksAt (store.lockPath username))
      (VaultStore.lockProfile env (store.userRoot username)).run :=
    lockCalls_locksAt.lockProfile (List.prefix_append _ _)
  have hnone : ∀ {r : Except VaultError Handle} {n1 : NamedWorld},
      (namedMachine env (FreshSalt lib store username n.world)).Runs
        (VaultStore.lockProfile env (store.userRoot username)).run n.begin r n1 →
      sinceRename (store.manifestPath username) n1.world.history = none := by
    intro r n1 h
    obtain ⟨newer, hnewer, hall⟩ := history_of_namedRuns hlockUses h
    rw [hnewer, sinceRename_append fun event hevent =>
      renamesOnto_of_isRename (isRename_of_locksAt (hall event hevent))]
    rfl
  rcases runs_ofExcept_bind.mp hrun with ⟨e, _, rfl, rfl⟩ | ⟨_, _, hword⟩
  · exact rotationKept_refused_iff lockTaken_begin rfl .refl
  rcases runs_ofExcept_bind.mp hword with ⟨e, _, rfl, rfl⟩ | ⟨_, _, hbody⟩
  · exact rotationKept_refused_iff lockTaken_begin rfl .refl
  rcases runs_run_bind.mp hbody with ⟨e, rfl, hfail⟩ | ⟨lock, n1, htake, hheld⟩
  · exact rotationKept_refused_iff (lockTaken_of_lockProfile hfail) (hnone hfail) .refl
  · have htaken := (lockTaken_of_lockProfile htake).then rotateHeld_edits hheld
    obtain ⟨_, hfull⟩ := lockProfile_written rfl htake
    obtain ⟨hsame, _⟩ := written_of_runs (store.lockPath username)
      (rotateHeld_edits.mono fun _ => keepsWritten_of_not_edited) hheld
    exact rotationKept_iff A hA laws hother hlock htaken (hsame.trans (hfull lock rfl).2)
      (hnone htake) (rotateHeld_outcome (world_of_runs rotateHeld_edits hheld))

end

/-! ## A failure behind the commit point -/

/-- The password the sample is rotated to: sixteen letters `b`. -/
def sampleNewPassword : Bytes := List.replicate 16 98

/-- The rotation of the sample profile, with a failure of one call. -/
def sampleRotation (call : Nat) : Except VaultError Unit × World :=
  (sampleStore.rotatePassword (sampleLibraries emptyTar) sampleEnv "alice" samplePassword
    sampleNewPassword).run.execute (playing sampleEnv (failingOracle call .other)) 0
      (sampleWorld []).begin

theorem freshSalt_sample {w : World} (hmanifest : w.contents (sampleStore.manifestPath "alice") =
      some ((sampleLibraries emptyTar).toJson
        (sampleManifest emptyTar samplePassword (FixedBytes.replicate 16 0)) ++ [10]))
    (call n : Nat) (listing : List FsPath) :
    FreshSalt (sampleLibraries emptyTar) sampleStore "alice" w
      { failingOracle call .other n with listing := listing } := by
  intro contents m hcontents hparse
  rw [hmanifest] at hcontents
  cases hcontents
  have hjson := (parseManifest_eq_ok.mp hparse).2.1
  rw [(textLaws_sample emptyTar).fromJson_toJson] at hjson
  cases hjson
  intro hkdf
  have hsalt : Base64.standard.encode (FixedBytes.replicate 16 0).toBytes =
      Base64.standard.encode (List.replicate 16 1) := congrArg KdfParameters.salt hkdf
  have hbytes := Base64.standard.encode_injective hsalt
  cases hbytes

theorem runs_sampleRotation (call : Nat) :
    (machine sampleEnv (FreshSalt (sampleLibraries emptyTar) sampleStore "alice"
      (sampleWorld []))).Runs
      (sampleStore.rotatePassword (sampleLibraries emptyTar) sampleEnv "alice" samplePassword
        sampleNewPassword).run (sampleWorld []).begin (sampleRotation call).1
        (sampleRotation call).2 :=
  runs_playing (freshSalt_sample rfl call) (fun _ => rfl) _ _

/-- The sample profile, with its lock file a second name of its manifest. -/
def doublyNamedManifest : NamedWorld :=
  (sampleWorld []).linked (sampleStore.manifestPath "alice") (sampleStore.lockPath "alice")

/-- The rotation of that profile. -/
def linkedRotation : Except VaultError Unit × NamedWorld :=
  (sampleStore.rotatePassword (sampleLibraries emptyTar) sampleEnv "alice" samplePassword
    sampleNewPassword).run.execute (namedPlaying sampleEnv (failingOracle 99 .other)) 0
      doublyNamedManifest.begin

theorem runs_linkedRotation :
    (namedMachine sampleEnv (FreshSalt (sampleLibraries emptyTar) sampleStore "alice"
      doublyNamedManifest.world)).Runs
      (sampleStore.rotatePassword (sampleLibraries emptyTar) sampleEnv "alice" samplePassword
        sampleNewPassword).run doublyNamedManifest.begin linkedRotation.1 linkedRotation.2 :=
  runs_namedPlaying (freshSalt_sample (by decide +kernel) 99) (fun _ => rfl) _ _

theorem fromJson_lockText_sample (m : UserManifest) :
    (sampleLibraries emptyTar).fromJson (lockText sampleEnv.process) ≠ .ok m := by
  have hrefused : ((sampleLibraries emptyTar).fromJson
      (lockText sampleEnv.process)).toOption.isNone = true := by
    decide +kernel
  intro hok
  rw [hok] at hrefused
  cases hrefused

/-- The theorem at a rotation without a failure, and at one that cuts the manifest. -/
theorem rotation_atomic_iff_sample :
    RotationKept (sampleLibraries emptyTar) sampleStore "alice" samplePassword sampleNewPassword
        (sampleWorld []) (sampleRotation 99).1 (sampleRotation 99).2 ∧
      ¬ RotationKept (sampleLibraries emptyTar) sampleStore "alice" samplePassword
        sampleNewPassword doublyNamedManifest.world linkedRotation.1 linkedRotation.2.world := by
  constructor
  · obtain ⟨written, hrun⟩ := runs_alone [] (runs_sampleRotation 99)
    have hiff := rotation_atomic_iff (n := .alone (sampleWorld []) []) taggingAead rfl
      (textLaws_sample emptyTar) (fun _ => unrelated_sample (by decide)) fromJson_lockText_sample
      hrun
    rw [NamedWorld.world_alone, NamedWorld.world_alone] at hiff
    refine hiff.mpr ⟨?_, ?_, ?_⟩
    · have hclean : ((sinceRename (sampleStore.manifestPath "alice")
          (sampleRotation 99).2.history).all fun since =>
            since.all fun event => decide (event.error = none)) = true := by decide +kernel
      intro since hsince
      rw [NamedWorld.world_alone] at hsince
      rw [hsince] at hclean
      refine ⟨fun event hevent => ?_, by decide⟩
      exact of_decide_eq_true (List.all_eq_true.mp hclean event hevent)
    · intro hsame
      cases hsame
    · intro hsame
      cases hsame
  · rw [rotation_atomic_iff taggingAead rfl (textLaws_sample emptyTar)
      (fun _ => unrelated_sample (by decide)) fromJson_lockText_sample runs_linkedRotation]
    intro hspared
    have hsame : doublyNamedManifest.sameFile (sampleStore.lockPath "alice")
        (sampleStore.manifestPath "alice") = true := by decide +kernel
    have hcut : linkedRotation.2.world.Cut (sampleStore.lockPath "alice") := by decide +kernel
    have hlost : doublyNamedManifest.world.contents (sampleStore.manifestPath "alice") ≠
        some linkedRotation.2.written := by decide +kernel
    exact hlost (hspared.manifest hsame hcut)

/-- The directory cannot be opened once the new manifest is in place: the rotation
fails, and the manifest has changed. -/
theorem rotation_fails_after_replacement :
    ∃ e, (sampleRotation 17).1 = .error e ∧
      (sampleRotation 17).2.contents (sampleStore.manifestPath "alice") ≠
        (sampleWorld []).contents (sampleStore.manifestPath "alice") := by
  have hfails : (sampleRotation 17).1.toOption = none := by decide +kernel
  have hchanged : (sampleRotation 17).2.contents (sampleStore.manifestPath "alice") ≠
      (sampleWorld []).contents (sampleStore.manifestPath "alice") := by decide +kernel
  cases hresult : (sampleRotation 17).1 with
  | ok u =>
      rw [hresult] at hfails
      cases hfails
  | error e => exact ⟨e, rfl, hchanged⟩

/-- A rotation that fails need not leave the password as it was: not where the directory
cannot be opened behind the commit point, nor where the lock file is the manifest. -/
theorem rotation_not_atomic :
    (∃ n', (namedMachine sampleEnv (FreshSalt (sampleLibraries emptyTar) sampleStore "alice"
        (sampleWorld []))).Runs
        (sampleStore.rotatePassword (sampleLibraries emptyTar) sampleEnv "alice" samplePassword
          sampleNewPassword).run (NamedWorld.alone (sampleWorld []) []).begin (sampleRotation 17).1
          n' ∧
        ¬ RotationKept (sampleLibraries emptyTar) sampleStore "alice" samplePassword
          sampleNewPassword (sampleWorld []) (sampleRotation 17).1 n'.world) ∧
      (namedMachine sampleEnv (FreshSalt (sampleLibraries emptyTar) sampleStore "alice"
        doublyNamedManifest.world)).Runs
        (sampleStore.rotatePassword (sampleLibraries emptyTar) sampleEnv "alice" samplePassword
          sampleNewPassword).run doublyNamedManifest.begin linkedRotation.1 linkedRotation.2 ∧
      ¬ RotationKept (sampleLibraries emptyTar) sampleStore "alice" samplePassword
        sampleNewPassword doublyNamedManifest.world linkedRotation.1 linkedRotation.2.world := by
  refine ⟨?_, runs_linkedRotation, ?_⟩
  · obtain ⟨written, hrun⟩ := runs_alone [] (runs_sampleRotation 17)
    obtain ⟨e, herror, hchanged⟩ := rotation_fails_after_replacement
    refine ⟨_, hrun, fun h => ?_⟩
    rw [NamedWorld.world_alone] at h
    exact hchanged (h.onError e herror).1
  · have hfails : linkedRotation.1.toOption = none := by decide +kernel
    have hchanged : linkedRotation.2.world.contents (sampleStore.manifestPath "alice") ≠
        doublyNamedManifest.world.contents (sampleStore.manifestPath "alice") := by decide +kernel
    intro h
    cases hresult : linkedRotation.1 with
    | ok u =>
        rw [hresult] at hfails
        cases hfails
    | error e => exact hchanged (h.onError e hresult).1

end CodexVault
