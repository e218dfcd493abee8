import CodexVault.SystemCalls

/-!
# What system calls change

Each function of the file system has one lemma that says what the paths hold
afterwards.  From them `node_of_serve` says for every call, whatever fails, which
paths it leaves alone.
-/

namespace CodexVault

open ByteStrings Programs

namespace FileSystem

variable {env : Env} {fs fs' : FileSystem} {p q : FsPath}

theorem isDirectory_of_entryFault (h : fs.entryFault env p = none) :
    fs.isDirectory p.dropLast = true := by
  unfold entryFault at h
  split at h
  · cases h
  · next attr hnode => exact isDirectory_iff.mpr ⟨attr, hnode⟩
  · cases h

/-- A missing path whose parent can be entered takes any node. -/
theorem canPlace_of_missing {n : Node} (hnone : fs.node p = none)
    (hentry : fs.entryFault env p = none) : fs.CanPlace p n := by
  have hparent := isDirectory_of_entryFault hentry
  have hdir : fs.isDirectory p = false := by simp [isDirectory, hnone]
  refine ⟨?_, hparent, .inr hdir⟩
  rintro rfl
  rw [List.dropLast_nil, hdir] at hparent
  cases hparent

/-- What is in a directory can be replaced by something of the same kind. -/
theorem canPlace_of_same {name : String} {n n' : Node} (hnode : fs.node (p ++ [name]) = some n')
    (hsame : n.isDirectory = n'.isDirectory) : fs.CanPlace (p ++ [name]) n := by
  have hparent : fs.isDirectory p = true :=
    isDirectory_parent (by rw [hnode]; exact Option.some_ne_none _)
  refine ⟨by simp, by rwa [List.dropLast_concat], ?_⟩
  have hdir : fs.isDirectory (p ++ [name]) = n'.isDirectory := by simp [isDirectory, hnode]
  rw [hdir, hsame]
  cases n'.isDirectory <;> simp

theorem createNew_eq_ok {n : Node} (h : fs.createNew env p n = .ok fs') :
    fs.node p = none ∧ ∀ q, fs'.node q = if q = p then some n else fs.node q := by
  unfold createNew at h
  split at h
  · cases h
  · next hnone =>
      split at h
      · cases h
      · next hentry =>
          cases h
          have hnone := not_not.mp hnone
          exact ⟨hnone, node_place (canPlace_of_missing hnone hentry)⟩

theorem makeDirectory_eq_ok {mode : Nat} (h : fs.makeDirectory env mode p = .ok fs') :
    fs.node p = none ∧
      ∀ q, fs'.node q = if q = p then some (.directory (env.attr mode)) else fs.node q :=
  createNew_eq_ok h

theorem makeDirectories_eq_ok {mode : Nat} {ps : List FsPath}
    (h : makeDirectories env mode fs ps = .ok fs') :
    (∀ q, fs.node q ≠ none ∨ q ∉ ps → fs'.node q = fs.node q) ∧
      ∀ p ∈ ps, fs'.isDirectory p = true := by
  induction ps generalizing fs with
  | nil =>
      cases h
      exact ⟨fun _ _ => rfl, fun p hp => by cases hp⟩
  | cons p rest ih =>
      rw [makeDirectories] at h
      split at h
      · next hdir =>
          obtain ⟨hkeep, hmade⟩ := ih h
          refine ⟨fun q hq => ?_, fun r hr => ?_⟩
          · apply hkeep
            exact hq.imp id fun hmem hmem' => hmem (List.mem_cons_of_mem _ hmem')
          · rcases List.mem_cons.mp hr with rfl | hr
            · obtain ⟨attr, hattr⟩ := isDirectory_iff.mp hdir
              have hsame := hkeep r (.inl (by rw [hattr]; exact Option.some_ne_none _))
              exact isDirectory_iff.mpr ⟨attr, hsame.trans hattr⟩
            · exact hmade r hr
      · split at h
        · cases h
        · next fs1 hone =>
            obtain ⟨hnone, hnode⟩ := makeDirectory_eq_ok hone
            obtain ⟨hkeep, hmade⟩ := ih h
            refine ⟨fun q hq => ?_, fun r hr => ?_⟩
            · have hne : q ≠ p := by
                rintro rfl
                rcases hq with hq | hq
                · exact hq hnone
                · exact hq List.mem_cons_self
              have hsame : fs1.node q = fs.node q := by rw [hnode q, if_neg hne]
              rw [← hsame]
              apply hkeep
              rw [hsame]
              exact hq.imp id fun hmem hmem' => hmem (List.mem_cons_of_mem _ hmem')
            · rcases List.mem_cons.mp hr with rfl | hr
              · have hat : fs1.node r = some (.directory (env.attr mode)) := by
                  rw [hnode r, if_pos rfl]
                have hsame := hkeep r (.inl (by rw [hat]; exact Option.some_ne_none _))
                exact isDirectory_iff.mpr ⟨_, hsame.trans hat⟩
              · exact hmade r hr

theorem hasChildren_eq_false (h : fs.hasChildren p = false) (hpq : p <+: q) (hne : q ≠ p) :
    fs.node q = none := by
  by_contra hq
  unfold hasChildren at h
  have hany := List.any_eq_false.mp h q (fs.mem_paths hq)
  cases hnode : fs.node q with
  | none => exact hq hnode
  | some n => simp [hpq, hne, hnode] at hany

/-- A rename that succeeds moves the tree to where nothing else is left. -/
theorem renamed_eq_ok {source target : FsPath} (h : fs.renamed env source target = .ok fs') :
    fs.CanGraft source target ∧ fs' = fs.graft source target ∧ fs.hasChildren target = false ∧
      ∃ n, fs.node source = some n ∧
        (n.isDirectory = false → fs.isDirectory target = false) := by
  unfold renamed at h
  split at h
  · cases h
  · next n hnode =>
      split at h
      · cases h
      · cases h
      · split at h
        · cases h
        · split at h
          · cases h
          · next hkind =>
              split at h
              · cases h
              · next hchildren =>
                  split at h
                  · next hgraft =>
                      cases h
                      refine ⟨hgraft, rfl, by simpa using hchildren, n, hnode, ?_⟩
                      intro hfile
                      by_contra hdir
                      exact hkind ⟨hfile, by simpa using hdir⟩
                  · cases h

theorem unlinked_eq_ok (h : fs.unlinked env p = .ok fs') :
    fs.isDirectory p = false ∧ ∀ q, fs'.node q = if q = p then none else fs.node q := by
  unfold unlinked at h
  split at h
  · cases h
  · next n hnode =>
      split at h
      · cases h
      · next hdir =>
          split at h
          · cases h
          · cases h
            have hfile : fs.isDirectory p = false := by simpa [isDirectory, hnode] using hdir
            refine ⟨hfile, fun q => ?_⟩
            rw [node_prune_eq]
            by_cases hq : q = p
            · rw [hq, if_pos List.prefix_rfl, if_pos rfl]
            · rw [if_neg hq]
              split
              · next hpq =>
                  obtain ⟨rest, rfl⟩ := hpq
                  symm
                  apply node_append_eq_none hfile
                  rintro rfl
                  exact hq (List.append_nil p)
              · rfl

theorem treeRemoved_eq_ok (h : fs.treeRemoved env p = .ok fs') :
    ∀ q, fs'.node q = if p <+: q then none else fs.node q := by
  unfold treeRemoved at h
  split at h
  · cases h
  · cases h
  · cases h
  · split at h
    · cases h
      exact node_prune_eq p
    · cases h

/-- A removal that fails touches only what lies below the path. -/
theorem node_partlyRemoved {removed : FsPath → Bool} (h : ¬ p <+: q ∨ q = p) :
    (fs.partlyRemoved p removed).node q = fs.node q := by
  unfold partlyRemoved
  rw [node_prune, if_neg]
  intro hany
  obtain ⟨r, hr, hgone⟩ := List.any_eq_true.mp hany
  simp only [Bool.and_eq_true, decide_eq_true_eq] at hgone
  have hrq := (List.mem_inits r q).mp hr
  rcases h with h | rfl
  · exact h (hgone.1.2.trans hrq)
  · exact hgone.2 (hrq.eq_of_length (le_antisymm hrq.length_le hgone.1.2.length_le))

theorem node_rewrite_of_ne {f : Attr → Bytes → Attr × Bytes} (h : q ≠ p) :
    (fs.rewrite p f).node q = fs.node q := by
  unfold rewrite
  split
  · exact node_place_of_ne h
  · rfl

theorem node_rewrite {f : Attr → Bytes → Attr × Bytes} {name : String} {attr : Attr}
    {contents : Bytes} {holes : Bool}
    (h : fs.node (p ++ [name]) = some (.file attr contents holes)) :
    (fs.rewrite (p ++ [name]) f).node (p ++ [name]) =
      some (.file (f attr contents).1 (f attr contents).2 holes) := by
  have hplace : fs.CanPlace (p ++ [name])
      (.file (f attr contents).1 (f attr contents).2 holes) := canPlace_of_same h rfl
  unfold rewrite
  rw [h]
  dsimp only
  rw [node_place hplace, if_pos rfl]

theorem lockOpened_eq_ok (h : fs.lockOpened env p = .ok fs') :
    (∀ q, q ≠ p → fs'.node q = fs.node q) ∧ (fs.node p ≠ none → fs' = fs) := by
  unfold lockOpened at h
  split at h
  · next hnone =>
      split at h
      · cases h
      · cases h
        exact ⟨fun q hq => node_place_of_ne hq, fun hne => absurd hnone hne⟩
  · split at h
    · cases h
      exact ⟨fun _ _ => rfl, fun _ => rfl⟩
    · cases h
  · cases h
  · cases h
  · cases h

theorem permissionsSet_eq_ok {mode : Nat} (h : fs.permissionsSet env p mode = .ok fs') :
    ∀ q, q ≠ p → fs'.node q = fs.node q := by
  unfold permissionsSet at h
  intro q hq
  split at h
  · split at h
    · cases h
      exact node_rewrite_of_ne hq
    · cases h
  · cases h
    rfl

theorem unpackedDirectory_eq_ok {mode : Nat} (h : fs.unpackedDirectory env p mode = .ok fs') :
    ∀ q, q ≠ p → fs'.node q = fs.node q := by
  unfold unpackedDirectory at h
  intro q hq
  split at h
  · split at h
    · cases h
    · next fs1 hone =>
        cases h
        rw [(makeDirectory_eq_ok hone).2 q, if_neg hq]
  · split at h
    · cases h
      exact node_place_of_ne hq
    · cases h
  · cases h

theorem cleared_eq_ok (h : fs.cleared env p = .ok fs') :
    ∀ q, fs'.node q = if q = p then none else fs.node q := by
  unfold cleared at h
  split at h
  · next hnone =>
      cases h
      intro q
      split
      · next hq => rw [hq, hnone]
      · rfl
  · exact (unlinked_eq_ok h).2

theorem unpackedFile_eq_ok {mode : Nat} {body : Bytes}
    (h : fs.unpackedFile env p mode body = .ok fs') :
    ∀ q, fs'.node q =
      if q = p then some (.file (env.attr (mode &&& 0o777)) body false) else fs.node q := by
  unfold unpackedFile at h
  split at h
  · cases h
  · next fs1 hclear =>
      have hnode := (createNew_eq_ok h).2
      intro q
      rw [hnode q, cleared_eq_ok hclear q]
      split <;> rfl

/-- Unpacking touches only what lies below the destination. -/
theorem unpacked_eq_ok {destination path : FsPath} {entry : Unpacking}
    (h : fs.unpacked env destination path entry = .ok fs') (hq : ¬ destination <+: q) :
    fs'.node q = fs.node q := by
  have hbelow : ∀ rest, q ≠ destination ++ rest := by
    rintro rest rfl
    exact hq (List.prefix_append _ _)
  unfold unpacked at h
  split at h
  · cases h
  · next fs1 hdirs =>
      have hmade : fs1.node q = fs.node q := by
        apply (makeDirectories_eq_ok hdirs).1
        right
        intro hmem
        obtain ⟨rest, _, rfl⟩ := List.mem_map.mp hmem
        exact hbelow rest rfl
      rw [← hmade]
      split at h
      · exact unpackedDirectory_eq_ok h q (hbelow _)
      · rw [unpackedFile_eq_ok h q, if_neg (hbelow _)]

end FileSystem

/-! ## Calls -/

namespace World

variable {w w' : World} {fault : Option ErrorKind} {partly : FileSystem}
    {result : Except ErrorKind FileSystem}

theorem change_eq_ok (h : w.change fault partly result = (.ok (), w')) :
    fault = none ∧ ∃ fs, result = .ok fs ∧ w' = { w with fs := fs } := by
  unfold change at h
  split at h
  · cases h
  · cases h
  · cases h
    exact ⟨rfl, _, rfl, rfl⟩

theorem change_eq_error {e : IoError} (h : w.change fault partly result = (.error e, w')) :
    w' = { w with fs := partly } := by
  unfold change at h
  split at h
  · cases h
    rfl
  · cases h
    rfl
  · cases h

theorem change_locked : (w.change fault partly result).2.locked = w.locked := by
  unfold change
  split <;> rfl

theorem change_serial : (w.change fault partly result).2.nextSerial = w.nextSerial := by
  unfold change
  split <;> rfl

theorem change_history : (w.change fault partly result).2.history = w.history := by
  unfold change
  split <;> rfl

/-- A call that keeps a path when it succeeds and when it fails keeps it. -/
theorem node_change {q : FsPath} (hpartly : partly.node q = w.fs.node q)
    (hresult : ∀ fs, result = .ok fs → fs.node q = w.fs.node q) :
    (w.change fault partly result).2.fs.node q = w.fs.node q := by
  unfold change
  split
  · exact hpartly
  · exact hpartly
  · exact hresult _ rfl

theorem inspect_snd {α : Type} {result : Except ErrorKind α} :
    (w.inspect fault result).2 = w := by
  unfold inspect
  split <;> rfl

theorem inspect_eq_ok {α : Type} {a : α} {result : Except ErrorKind α}
    (h : w.inspect fault result = (.ok a, w')) : fault = none ∧ result = .ok a ∧ w' = w := by
  unfold inspect at h
  split at h
  · cases h
  · cases h
  · cases h
    exact ⟨rfl, rfl, rfl⟩

theorem release_fs (p : FsPath) (lock : Handle) : (w.release p lock).fs = w.fs := by
  unfold release
  split <;> rfl

end World

/-- The paths a call may change, given what they hold before. -/
def Op.MayChange (env : Env) (fs : FileSystem) (q : FsPath) : Op → Prop
  | .createDirectories p => q <+: p ∧ fs.node q = none
  | .createDirectory p => q = p ∧ fs.node q = none
  | .createTemporaryDirectory => q.dropLast = env.tempDir ∧ fs.node q = none
  | .createFile p => q = p ∧ fs.node q = none
  | .store p _ | .setPermissions p _ | .setLength p | .writeText p _ | .openLock p => q = p
  | .removeFile p => q = p
  | .rename source target => source <+: q ∨ target <+: q
  | .removeTree p => p <+: q
  | .unpack destination _ _ => destination <+: q
  | _ => False

open FileSystem in
/-- **Frame.**  Whatever fails, a call leaves all other paths alone. -/
theorem node_of_serve {env : Env} {oracle : Oracle} {w : World} {op : Op} {q : FsPath}
    (h : ¬ op.MayChange env w.fs q) :
    (serve env oracle w op).2.fs.node q = w.fs.node q := by
  change (respond env oracle w op).2.fs.node q = w.fs.node q
  cases op with
  | lstat p => exact congrArg (fun w => w.fs.node q) World.inspect_snd
  | createDirectories p =>
      have hkeep : ∀ ps fs, (∀ r ∈ ps, r <+: p) →
          makeDirectories env 0o700 w.fs ps = .ok fs → fs.node q = w.fs.node q := by
        intro ps fs hps hfs
        apply (makeDirectories_eq_ok hfs).1
        by_cases hnode : w.fs.node q = none
        · exact .inr fun hmem => h ⟨hps q hmem, hnode⟩
        · exact .inl hnode
      have hancestry : ∀ r ∈ ancestry p, r <+: p := fun r hr =>
        (List.mem_inits r p).mp (List.mem_of_mem_tail hr)
      apply World.node_change
      · split
        · rfl
        · unfold partlyMade
          split
          · next fs hfs =>
              exact hkeep _ fs (fun r hr => hancestry r (List.mem_of_mem_take hr)) hfs
          · rfl
      · intro fs hfs
        exact hkeep _ fs hancestry hfs
  | createDirectory p =>
      apply World.node_change rfl
      intro fs hfs
      obtain ⟨hnone, hnode⟩ := makeDirectory_eq_ok hfs
      rw [hnode q, if_neg]
      rintro rfl
      exact h ⟨rfl, hnone⟩
  | createTemporaryDirectory =>
      have hkeep : (w.change oracle.fault w.fs
          (w.fs.makeDirectory env env.directoryMode (env.tempDir ++ [oracle.name]))).2.fs.node q =
            w.fs.node q := by
        apply World.node_change rfl
        intro fs hfs
        obtain ⟨hnone, hnode⟩ := makeDirectory_eq_ok hfs
        rw [hnode q, if_neg]
        rintro rfl
        exact h ⟨List.dropLast_concat, hnone⟩
      unfold respond
      dsimp only
      split <;> next heq => simpa [heq] using hkeep
  | createFile p =>
      have hkeep : (w.change oracle.fault w.fs
          (w.fs.createNew env p (.file (env.attr 0o600) [] false))).2.fs.node q =
            w.fs.node q := by
        apply World.node_change rfl
        intro fs hfs
        obtain ⟨hnone, hnode⟩ := createNew_eq_ok hfs
        rw [hnode q, if_neg]
        rintro rfl
        exact h ⟨rfl, hnone⟩
      unfold respond
      dsimp only
      split <;> next heq => simpa [heq] using hkeep
  | store p contents => exact node_rewrite_of_ne h
  | sync p => exact congrArg (fun w => w.fs.node q) World.inspect_snd
  | rename source target =>
      apply World.node_change rfl
      intro fs hfs
      obtain ⟨_, rfl, _⟩ := renamed_eq_ok hfs
      exact node_graft_elsewhere (fun hs => h (.inl hs)) (fun ht => h (.inr ht))
  | removeFile p =>
      apply World.node_change rfl
      intro fs hfs
      exact ((unlinked_eq_ok hfs).2 q).trans (if_neg h)
  | removeTree p =>
      apply World.node_change
      · exact node_partlyRemoved (.inl h)
      · intro fs hfs
        exact (treeRemoved_eq_ok hfs q).trans (if_neg h)
  | openRead p =>
      have hsame := congrArg (fun w => w.fs.node q)
        (World.inspect_snd : (w.inspect oracle.fault (w.fs.readable env p)).2 = w)
      unfold respond
      dsimp only
      split
      · next heq => simpa [heq] using hsame
      · next heq => split <;> simpa [heq] using hsame
  | openDirectory p =>
      apply World.node_change rfl
      intro fs hfs
      unfold directoryReadable at hfs
      split at hfs
      · cases hfs
      · split at hfs
        · cases hfs
          rfl
        · cases hfs
      · cases hfs
  | canonicalize p => exact congrArg (fun w => w.fs.node q) World.inspect_snd
  | openLock p =>
      have hkeep : (w.change oracle.fault w.fs (w.fs.lockOpened env p)).2.fs.node q =
          w.fs.node q := by
        apply World.node_change rfl
        intro fs hfs
        exact (lockOpened_eq_ok hfs).1 q h
      unfold respond
      dsimp only
      split <;> next heq => simpa [heq] using hkeep
  | setPermissions p mode =>
      apply World.node_change rfl
      intro fs hfs
      exact permissionsSet_eq_ok hfs q h
  | tryLock p lock =>
      unfold respond
      dsimp only
      split
      · rfl
      · split <;> rfl
  | setLength p =>
      apply World.node_change rfl
      intro fs hfs
      cases hfs
      exact node_rewrite_of_ne h
  | seek p => exact congrArg (fun w => w.fs.node q) World.inspect_snd
  | writeText p text =>
      apply World.node_change
      · exact node_rewrite_of_ne h
      · intro fs hfs
        cases hfs
        exact node_rewrite_of_ne h
  | unlockFile p lock =>
      unfold respond
      dsimp only
      split
      · rfl
      · exact congrArg (fun fs => fs.node q) (World.release_fs p lock)
  | closeFile p lock => exact congrArg (fun fs => fs.node q) (World.release_fs p lock)
  | unpack destination path entry =>
      have hkeep : ∀ e fs, w.fs.unpacked env destination path e = .ok fs →
          fs.node q = w.fs.node q := fun e fs hfs => unpacked_eq_ok hfs h
      unfold respond
      dsimp only
      have hsame : (w.fs.partlyUnpacked env destination path entry oracle.progress).node q =
          w.fs.node q := by
        unfold partlyUnpacked
        split
        · next fs hfs => exact hkeep _ fs hfs
        · rfl
      split
      · split
        · exact World.node_change hsame (fun fs hfs => hkeep _ fs hfs)
        · exact hsame
      · exact World.node_change hsame (fun fs hfs => hkeep _ fs hfs)
  | readTree p =>
      unfold respond
      dsimp only
      split
      · rfl
      · split <;> rfl
  | random size =>
      unfold respond
      dsimp only
      split <;> rfl
  | newUuid => rfl
  | now => rfl
  | processId => rfl

/-- The machine itself does not touch the history. -/
theorem respond_history {env : Env} {oracle : Oracle} {w : World} {op : Op} :
    (respond env oracle w op).2.history = w.history := by
  have hchange : ∀ (w : World) fault partly result,
      (w.change fault partly result).2.history = w.history := fun w _ _ _ => World.change_history
  have hinspect : ∀ {α : Type} (w : World) fault (result : Except ErrorKind α),
      (w.inspect fault result).2.history = w.history := fun w _ _ =>
    congrArg World.history World.inspect_snd
  have hrelease : ∀ (w : World) p lock, (w.release p lock).history = w.history := by
    intro w p lock
    unfold World.release
    split <;> rfl
  cases op <;> unfold respond <;> dsimp only <;>
    first
      | apply hchange
      | apply hinspect
      | rfl
      | apply hrelease
      | skip
  case createTemporaryDirectory =>
    have h := hchange w oracle.fault w.fs
      (w.fs.makeDirectory env env.directoryMode (env.tempDir ++ [oracle.name]))
    split <;> next heq => simpa [heq] using h
  case createFile p =>
    have h := hchange w oracle.fault w.fs (w.fs.createNew env p (.file (env.attr 0o600) [] false))
    split <;> next heq => simpa [heq] using h
  case openRead p =>
    have h := hinspect w oracle.fault (w.fs.readable env p)
    split
    · next heq => simpa [heq] using h
    · next heq => split <;> simpa [heq] using h
  case openLock p =>
    have h := hchange w oracle.fault w.fs (w.fs.lockOpened env p)
    split <;> next heq => simpa [heq] using h
  case tryLock p lock =>
    split
    · rfl
    · split <;> rfl
  case unlockFile p lock =>
    split
    · rfl
    · exact hrelease w p lock
  case unpack destination path entry =>
    split
    · split
      · apply hchange
      · rfl
    · apply hchange
  case readTree p =>
    split
    · rfl
    · split <;> rfl
  case random size => split <;> rfl

/-! ## The machine as a contract -/

section Machine

variable {env : Env} {allowed : Oracle → Prop} {w w' : World}

/-- What a call may do is what the machine responds for some oracle. -/
theorem respond_of_may {op : Op} {r : op.Reply} (h : (machine env allowed).may op w r w') :
    ∃ oracle w1, allowed oracle ∧ oracle.Admissible w op ∧
      respond env oracle w op = (r, w1) ∧
      w' = { w1 with history := ⟨op, op.failure r⟩ :: w1.history } := by
  obtain ⟨oracle, hallowed, hadm, hserve⟩ := h
  unfold serve at hserve
  cases hserve
  exact ⟨oracle, _, hallowed, hadm, rfl, rfl⟩

theorem history_of_may {op : Op} {r : op.Reply} (h : (machine env allowed).may op w r w') :
    w'.history = ⟨op, op.failure r⟩ :: w.history := by
  obtain ⟨oracle, _, _, hserve⟩ := h
  unfold serve at hserve
  cases hserve
  exact congrArg (_ :: ·) respond_history

theorem node_of_may {op : Op} {r : op.Reply} {q : FsPath}
    (h : (machine env allowed).may op w r w') (hq : ¬ op.MayChange env w.fs q) :
    w'.fs.node q = w.fs.node q := by
  obtain ⟨oracle, _, _, hserve⟩ := h
  have hnode : (serve env oracle w op).2.fs.node q = w.fs.node q := node_of_serve hq
  rw [hserve] at hnode
  exact hnode

/-- The call leaves the path alone, whatever it holds. -/
def Op.Spares (env : Env) (q : FsPath) (op : Op) : Prop := ∀ fs, ¬ op.MayChange env fs q

/-- A program whose calls spare a path keeps it. -/
theorem node_of_runs {α : Type} {p : Prog Op Op.Reply α} {a : α} {q : FsPath}
    (hp : Contract.Uses (Op.Spares env q) p) (hrun : (machine env allowed).Runs p w a w') :
    w'.fs.node q = w.fs.node q := by
  refine Contract.runs_of_uses (R := fun w w' : World => w'.fs.node q = w.fs.node q)
    (fun _ => rfl) ?_ ?_ hp hrun
  · intro s t u h h'
    exact h'.trans h
  · intro op s r t hop hmay
    exact node_of_may hmay (hop s.fs)

/-- The calls of a run are added to the history. -/
theorem history_of_runs {α : Type} {P : Op → Prop} {p : Prog Op Op.Reply α} {a : α}
    (hp : Contract.Uses P p) (hrun : (machine env allowed).Runs p w a w') :
    ∃ newer, w'.history = newer ++ w.history ∧ ∀ event ∈ newer, P event.op := by
  refine Contract.runs_of_uses
    (R := fun w w' : World =>
      ∃ newer, w'.history = newer ++ w.history ∧ ∀ event ∈ newer, P event.op)
    (fun _ => ⟨[], rfl, fun _ h => by cases h⟩) ?_ ?_ hp hrun
  · rintro s t u ⟨first, hfirst, hall⟩ ⟨second, hsecond, hall'⟩
    refine ⟨second ++ first, by rw [hsecond, hfirst, List.append_assoc], ?_⟩
    intro event hevent
    rcases List.mem_append.mp hevent with h | h
    · exact hall' event h
    · exact hall event h
  · intro op s r t hop hmay
    refine ⟨[⟨op, op.failure r⟩], history_of_may hmay, ?_⟩
    intro event hevent
    rw [List.mem_singleton.mp hevent]
    exact hop

theorem may_createFile_ok {p : FsPath} {fault : Option TransferFault}
    (h : (machine env allowed).may (.createFile p) w (.ok fault) w') :
    w.fs.node p = none ∧ ∀ q, w'.fs.node q =
      if q = p then some (.file (env.attr 0o600) [] false) else w.fs.node q := by
  obtain ⟨oracle, w1, _, _, hrespond, rfl⟩ := respond_of_may h
  cases hchange : w.change oracle.fault w.fs
      (w.fs.createNew env p (.file (env.attr 0o600) [] false)) with
  | mk result w2 =>
      unfold respond at hrespond
      dsimp only at hrespond
      rw [hchange] at hrespond
      cases result with
      | error e => cases congrArg Prod.fst hrespond
      | ok u =>
          obtain ⟨_, fs, hfs, rfl⟩ := World.change_eq_ok hchange
          cases hrespond
          exact FileSystem.createNew_eq_ok hfs

theorem may_store {p : FsPath} {name : String} {contents old : Bytes} {attr : Attr} {holes : Bool}
    {r : Unit} (h : (machine env allowed).may (.store (p ++ [name]) contents) w r w')
    (hnode : w.fs.node (p ++ [name]) = some (.file attr old holes)) :
    ∀ q, w'.fs.node q =
      if q = p ++ [name] then some (.file attr contents holes) else w.fs.node q := by
  obtain ⟨oracle, w1, _, _, hrespond, rfl⟩ := respond_of_may h
  cases hrespond
  intro q
  split
  · next hq => exact hq ▸ FileSystem.node_rewrite hnode
  · next hq => exact FileSystem.node_rewrite_of_ne hq

theorem may_rename_ok {source target : FsPath}
    (h : (machine env allowed).may (.rename source target) w (.ok ()) w') :
    w.fs.CanGraft source target ∧ w'.fs = w.fs.graft source target ∧
      w.fs.hasChildren target = false ∧
      ∃ n, w.fs.node source = some n ∧
        (n.isDirectory = false → w.fs.isDirectory target = false) := by
  obtain ⟨oracle, w1, _, _, hrespond, rfl⟩ := respond_of_may h
  obtain ⟨_, fs, hfs, rfl⟩ := World.change_eq_ok hrespond
  exact FileSystem.renamed_eq_ok hfs

theorem may_rename_error {source target : FsPath} {e : IoError}
    (h : (machine env allowed).may (.rename source target) w (.error e) w') :
    w'.fs = w.fs := by
  obtain ⟨oracle, w1, _, _, hrespond, rfl⟩ := respond_of_may h
  rw [World.change_eq_error hrespond]

theorem may_lstat_ok {p : FsPath} {status : FileStatus}
    (h : (machine env allowed).may (.lstat p) w (.ok status) w') :
    w'.fs = w.fs ∧ ∃ n, w.fs.node p = some n ∧ n.status = status := by
  obtain ⟨oracle, w1, _, _, hrespond, rfl⟩ := respond_of_may h
  obtain ⟨_, hresult, rfl⟩ := World.inspect_eq_ok hrespond
  refine ⟨rfl, ?_⟩
  cases hnode : w1.fs.node p with
  | none =>
      rw [hnode] at hresult
      cases hresult
  | some n =>
      rw [hnode] at hresult
      exact ⟨n, rfl, Except.ok.inj hresult⟩

/-- An opened file is read whole, or up to where the transfer fails. -/
theorem may_openRead_ok {p : FsPath} {opened : Bytes × Option TransferFault}
    (h : (machine env allowed).may (.openRead p) w (.ok opened) w') :
    w'.fs = w.fs ∧ ∃ attr contents holes, w.fs.node p = some (.file attr contents holes) ∧
      (opened = (contents, none) ∨
        ∃ fault, fault.kind ≠ .interrupted ∧ opened = (contents.take fault.after, some fault)) := by
  obtain ⟨oracle, w1, _, hadm, hrespond, rfl⟩ := respond_of_may h
  cases hopen : w.inspect oracle.fault (w.fs.readable env p) with
  | mk result w2 =>
      unfold respond at hrespond
      dsimp only at hrespond
      rw [hopen] at hrespond
      cases result with
      | error e => cases congrArg Prod.fst hrespond
      | ok contents =>
          obtain ⟨_, hread, rfl⟩ := World.inspect_eq_ok hopen
          have hfile : ∃ attr holes, w2.fs.node p = some (.file attr contents holes) := by
            unfold FileSystem.readable at hread
            split at hread
            · cases hread
            · next attr contents' holes hnode =>
                split at hread
                · cases hread
                  exact ⟨attr, holes, hnode⟩
                · cases hread
            · cases hread
            · cases hread
            · cases hread
          obtain ⟨attr, holes, hnode⟩ := hfile
          dsimp only at hrespond
          split at hrespond
          · cases hrespond
            exact ⟨rfl, attr, contents, holes, hnode, .inl rfl⟩
          · next fault hfault =>
              cases hrespond
              exact ⟨rfl, attr, contents, holes, hnode,
                .inr ⟨fault, hadm.interrupted fault hfault, rfl⟩⟩

theorem may_random_some {size : Nat} {bytes : FixedBytes size}
    (h : (machine env allowed).may (.random size) w (some bytes) w') :
    ∃ oracle, allowed oracle ∧ bytes = oracle.draw size := by
  obtain ⟨oracle, w1, hallowed, _, hrespond, rfl⟩ := respond_of_may h
  unfold respond at hrespond
  dsimp only at hrespond
  split at hrespond
  · cases congrArg Prod.fst hrespond
  · cases hrespond
    exact ⟨oracle, hallowed, rfl⟩

end Machine

/-- A file that is renamed over another takes its place. -/
theorem FileSystem.node_graft_file {fs : FileSystem} {source target : FsPath} {n : Node}
    (hgraft : fs.CanGraft source target) (hnode : fs.node source = some n)
    (hfile : n.isDirectory = false) (q : FsPath) :
    (fs.graft source target).node q =
      if q = target then some n else if q = source then none
      else if target <+: q then none else fs.node q := by
  have hsource : fs.isDirectory source = false := by simp [isDirectory, hnode, hfile]
  rw [node_graft hgraft]
  by_cases ht : q = target
  · subst ht
    simp [rebase, hnode]
  · rw [if_neg ht]
    by_cases hpre : target <+: q
    · rw [if_pos hpre, if_pos hpre]
      obtain ⟨rest, rfl⟩ := hpre
      have hrest : rest ≠ [] := by
        rintro rfl
        exact ht (List.append_nil target)
      have hmoved : fs.node (rebase target source (target ++ rest)) = none := by
        rw [rebase, List.drop_left]
        exact node_append_eq_none hsource hrest
      rw [hmoved]
      split <;> rfl
    · rw [if_neg hpre, if_neg hpre]
      by_cases hs : q = source
      · rw [if_pos hs, hs, if_pos List.prefix_rfl]
      · rw [if_neg hs]
        split
        · next hpre' =>
            obtain ⟨rest, rfl⟩ := hpre'
            symm
            apply node_append_eq_none hsource
            rintro rfl
            exact hs (List.append_nil source)
        · rfl

end CodexVault
