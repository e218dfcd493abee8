import CodexVault.StoreFacts

/-!
# What unsealing makes of a sealed directory

`Node.restored` is what a node comes back as.  `Restoring` is the invariant of the loop
that unpacks an archive: the paths met so far are restored and nothing else is there.
Directories come before what is in them, so no parent is ever made up on the way.

`unsealDirectory_restores` is the round trip: an archive of a directory that is unsealed
to its end gives the directory back, without its links and its files with holes.
-/

namespace CodexVault

open ByteStrings Programs Contract

/-! ## A file that cannot be read to its end -/

namespace VaultReader

/-- A source that fails has no end, so no stream from it is ever finished. -/
theorem frameRule_failing (A : Aead) :
    FrameRule A (fun r : VaultReader FailingSource => r.finalized = false)
      fun r => r.finalized = false := by
  refine ⟨fun r r' hfin _ hrun => ?_, fun r e r' hfin _ hrun => ?_, fun r k h => h⟩
  · rcases readNextFrame_cases A r with ⟨e, inner, _, heq⟩ | ⟨_, _, e, _, _, heq⟩ |
      ⟨p, inner, inner', _, hend, _⟩ | ⟨t, p, inner, _, _, heq⟩
    · rw [hrun] at heq
      cases congrArg Prod.fst heq
    · rw [hrun] at heq
      cases congrArg Prod.fst heq
    · -- the end of the source is never met
      have hread : (if inner.rest = [] then (.error inner.error, inner)
          else (.ok (inner.rest.take 1), { inner with rest := inner.rest.drop 1 }) :
          Except IoError Bytes × FailingSource) = (.ok [], inner') := hend
      split at hread
      · cases congrArg Prod.fst hread
      · next hne =>
          have htake := Except.ok.inj (congrArg Prod.fst hread)
          rcases List.take_eq_nil_iff.mp htake with hone | hnil
          · cases hone
          · exact absurd hnil hne
    · rw [hrun] at heq
      exact (congrArg (·.2.finalized) heq).trans hfin
  · rcases readNextFrame_cases A r with ⟨e, inner, _, heq⟩ | ⟨_, _, e, _, _, heq⟩ |
      ⟨p, inner, inner', _, _, heq⟩ | ⟨t, p, inner, _, _, heq⟩
    · rw [hrun] at heq
      exact (congrArg (·.2.finalized) heq).trans hfin
    · rw [hrun] at heq
      exact (congrArg (·.2.finalized) heq).trans hfin
    · rw [hrun] at heq
      cases congrArg Prod.fst heq
    · rw [hrun] at heq
      cases congrArg Prod.fst heq

theorem copy_failing {A : Aead} {r : VaultReader FailingSource} (h : r.finalized = false) :
    (copy A r).2.finalized = false := by
  have hrule := frameRule_failing A
  have hread : ∀ s : VaultReader FailingSource, s.finalized = false →
      (VaultReader.read A s copyBuffer).2.finalized = false := by
    intro s hs
    cases hresult : (VaultReader.read A s copyBuffer).1 with
    | ok b => exact (hrule.read hs copyBuffer).1 b hresult
    | error e => exact (hrule.read hs copyBuffer).2 e hresult
  fun_induction VaultReader.copy A r with
  | case1 r e r' hrun _ ih =>
      have hr' := hread r h
      rw [hrun] at hr'
      exact ih hr'
  | case2 r e r' hrun _ =>
      have hr' := hread r h
      rwa [hrun] at hr'
  | case3 r r' hrun =>
      have hr' := hread r h
      rwa [hrun] at hr'
  | case4 r b r' hrun _ ih =>
      have hr' := hread r h
      rw [hrun] at hr'
      exact ih hr'

theorem reads_failing {A : Aead} {r : VaultReader FailingSource} (h : r.finalized = false)
    (sizes : List Nat) : (reads A r sizes).2.finalized = false := by
  have hall := (frameRule_failing A).reads (frameRule_failing A) h sizes
  by_cases hok : ∀ result ∈ (reads A r sizes).1, ∃ b, result = .ok b
  · exact hall.1 hok
  · exact hall.2 hok

end VaultReader

section

variable {lib : Libraries} {env : Env} {allowed : Oracle → Prop} {w w' : World}
    {destination d : FsPath} {dataKey : Key}

/-- **A state file that cannot be read to its end** is never unsealed. -/
theorem not_unsealFrom_failing {inner : FailingSource} :
    ¬ (machine env allowed).Runs (unsealFrom lib inner destination dataKey).run w (.ok ()) w' := by
  intro hrun
  unfold unsealFrom at hrun
  split at hrun
  · cases (runs_run_throw.mp hrun).1
  · next reader hnew =>
      have hfresh : reader.finalized = false := by
        unfold VaultReader.new at hnew
        split at hnew
        · cases hnew
        · split at hnew
          · cases hnew
          · cases hnew
            rfl
      obtain ⟨_, t, _, hrest⟩ := runs_ok_bind.mp hrun
      split at hrest
      · cases (runs_run_throw.mp hrest).1
      · obtain ⟨hverified, _⟩ := runs_ofExcept.mp hrest
        have hend := (VaultReader.copy_of_verifyFinished hverified.symm).2
        rw [VaultReader.copy_failing (VaultReader.reads_failing hfresh _)] at hend
        cases hend

/-! ## What an archive holds -/

/-- What a node comes back as: a file or a directory of the user who unseals, with the
permission bits it had.  Links, special files and files with holes do not come back. -/
def Node.restored (env : Env) : Node → Option Node
  | .file attr contents false => some (.file (env.attr (attr.mode &&& 0o777)) contents false)
  | .directory attr => some (.directory (env.attr (attr.mode &&& 0o777)))
  | .file _ _ true | .symlink | .special _ _ => none

/-- What an entry is unpacked to where nothing was. -/
def Unpacking.made (env : Env) (entry : Unpacking) : Node :=
  if entry.isDir then .directory (env.attr (entry.mode &&& 0o777))
  else .file (env.attr (entry.mode &&& 0o777)) entry.body false

/-- The nodes at these paths below a directory. -/
def FileSystem.nodesAt (fs : FileSystem) (directory : FsPath) (paths : List FsPath) :
    List TreeEntry :=
  paths.filterMap fun path => (fs.node (directory ++ path)).map (TreeEntry.mk path)

/-- A walk that is not stopped meets every node. -/
theorem FileSystem.walk_complete {fs : FileSystem} {listing : List FsPath}
    (h : (fs.walk env d listing).2 = none) :
    (fs.walk env d listing).1 = fs.nodesAt d listing := by
  unfold FileSystem.nodesAt
  induction listing with
  | nil => rfl
  | cons path rest ih =>
      unfold FileSystem.walk at h ⊢
      cases hnode : fs.node (d ++ path) with
      | none =>
          rw [hnode] at h
          rw [List.filterMap_cons, hnode]
          exact ih h
      | some n =>
          rw [hnode] at h
          dsimp only at h ⊢
          rw [List.filterMap_cons, hnode]
          split at h
          · cases h
          · exact congrArg (TreeEntry.mk path n :: ·) (ih h)

/-- What the machine reports of a walk that is not stopped. -/
theorem may_readTree_complete {tree : List TreeEntry × Option IoError}
    (h : (machine env allowed).may (.readTree d) w tree w') (hcomplete : tree.2 = none) :
    ∃ listing, w.fs.Enumerates d listing ∧ w.fs.node d ≠ none ∧
      tree = (w.fs.nodesAt d listing, none) := by
  obtain ⟨oracle, w1, _, hadm, hrespond, rfl⟩ := respond_of_may h
  unfold respond at hrespond
  dsimp only at hrespond
  split at hrespond
  · cases hrespond
    cases hcomplete
  · next n hnode =>
      split at hrespond
      · cases hrespond
        refine ⟨oracle.listing, hadm.listing d rfl, ?_, ?_⟩
        · rw [hnode]
          exact Option.some_ne_none _
        · exact Prod.ext (FileSystem.walk_complete hcomplete) hcomplete
      · cases hrespond
        cases hcomplete

/-- An entry that is neither a file nor a directory is passed over. -/
theorem unpackEntry_passed {read : ReadEntry} (hfile : read.entry.entryType.isFile = false)
    (hdir : read.entry.entryType.isDir = false) : unpackEntry destination read = pure () := by
  unfold unpackEntry
  simp [hfile, hdir]

/-- A file or a directory is unpacked at its path, if that is not the destination. -/
theorem unpackEntry_kept {read : ReadEntry} {path : FsPath}
    (hkind : read.entry.entryType = .regular ∨ read.entry.entryType = .directory)
    (htarget : unpackTarget read.entry.path = some path) :
    unpackEntry destination read =
      if path = [] then pure ()
      else Prog.mapError mapReadError
        (Prog.fallible (request (.unpack destination path read.unpacking))) := by
  have hpasses : ∀ entryType : EntryType, entryType = .regular ∨ entryType = .directory →
      (entryType.isSymlink || entryType.isHardLink) = false ∧
        (!(entryType.isFile || entryType.isDir)) = false := by
    rintro entryType (rfl | rfl) <;> exact ⟨rfl, rfl⟩
  obtain ⟨hlink, hkeep⟩ := hpasses _ hkind
  unfold unpackEntry
  simp only [hlink, hkeep, htarget]
  cases path <;> rfl

/-- **The entry of a node**, read back: it is passed over, or unpacked to what the node
comes back as. -/
theorem unpackEntry_archived {entry : TreeEntry} {archived : TarEntry} {read : ReadEntry}
    (h : archiveEntry entry = .ok archived) (hread : read.Restores archived) :
    (entry.node.restored env = none ∧ unpackEntry destination read = pure ()) ∨
    (entry.node.restored env = some (read.unpacking.made env) ∧
      unpackEntry destination read =
        if entry.path = [] then pure ()
        else Prog.mapError mapReadError
          (Prog.fallible (request (.unpack destination entry.path read.unpacking)))) := by
  obtain ⟨path, n⟩ := entry
  obtain ⟨htarget, hkind, hmode, hbody, hplain, _⟩ := hread
  have hpassed : archived.entryType.isFile = false → archived.entryType.isDir = false →
      unpackEntry destination read = pure () := fun hfile hdir =>
    unpackEntry_passed (hkind ▸ hfile) (hkind ▸ hdir)
  have htarget' : archived.path = archivePath path → unpackTarget read.entry.path = some path :=
    fun hpath => htarget.trans (hpath ▸ unpackTarget_archivePath path)
  unfold archiveEntry at h
  cases n with
  | file attr contents holes =>
      cases h
      cases holes with
      | true => exact .inl ⟨rfl, hpassed rfl rfl⟩
      | false =>
          refine .inr ⟨?_, unpackEntry_kept (.inl hkind) (htarget' rfl)⟩
          have hfile : read.makesDirectory = false := by
            rw [ReadEntry.makesDirectory, hkind, hplain rfl]
            rfl
          simp [Node.restored, Unpacking.made, ReadEntry.unpacking, hfile, hmode, hbody]
  | directory attr =>
      cases h
      refine .inr ⟨?_, unpackEntry_kept (.inr hkind) (htarget' rfl)⟩
      have hdir : read.makesDirectory = true := by
        rw [ReadEntry.makesDirectory, hkind]
        rfl
      simp [Node.restored, Unpacking.made, ReadEntry.unpacking, hdir, hmode]
  | symlink =>
      cases h
      exact .inl ⟨rfl, hpassed rfl rfl⟩
  | special kind attr =>
      cases kind with
      | fifo | charDevice | blockDevice =>
          cases h
          exact .inl ⟨rfl, hpassed rfl rfl⟩
      | socket => cases h

/-! ## One entry -/

namespace FileSystem

variable {fs fs' : FileSystem} {path : FsPath} {entry : Unpacking}

/-- The directories above an entry do not count the entry itself. -/
theorem ne_of_mem_ancestry {q : FsPath} (h : q ∈ (ancestry path).dropLast) :
    q <+: path ∧ q ≠ path := by
  refine ⟨(List.mem_inits q path).mp (List.mem_of_mem_tail (List.mem_of_mem_dropLast h)), ?_⟩
  rintro rfl
  obtain ⟨i, hi, heq⟩ := List.mem_iff_getElem.mp h
  have hlen : (ancestry q).length = q.length := by simp [ancestry]
  rw [List.length_dropLast, hlen] at hi
  rw [List.getElem_dropLast] at heq
  have hbound : i < (ancestry q).length := by omega
  have htake : (ancestry q)[i] = q.take (i + 1) := by
    simp [ancestry, List.getElem_tail, List.getElem_inits]
  rw [htake] at heq
  have hshort := congrArg List.length heq
  rw [List.length_take] at hshort
  omega

/-- **One entry**, in a place that is free and whose parents are there. -/
theorem unpacked_made (hparents : ∀ q, q <+: path → q ≠ path → fs.node (destination ++ q) ≠ none)
    (hnone : fs.node (destination ++ path) = none)
    (h : fs.unpacked env destination path entry = .ok fs') (q : FsPath) :
    fs'.node q = if q = destination ++ path then some (entry.made env) else fs.node q := by
  unfold unpacked at h
  split at h
  · cases h
  · next fs1 hdirs =>
      have hsame : ∀ r, fs1.node r = fs.node r := by
        intro r
        apply (makeDirectories_eq_ok hdirs).1 r
        by_cases hmem : r ∈ ((ancestry path).dropLast).map (destination ++ ·)
        · obtain ⟨above, habove, rfl⟩ := List.mem_map.mp hmem
          obtain ⟨hpre, hne⟩ := ne_of_mem_ancestry habove
          exact .inl (hparents above hpre hne)
        · exact .inr hmem
      unfold Unpacking.made
      split at h
      · next hdir =>
          rw [if_pos hdir]
          unfold unpackedDirectory at h
          rw [hsame, hnone] at h
          dsimp only at h
          split at h
          · cases h
          · next fs2 hmade =>
              cases h
              rw [(makeDirectory_eq_ok hmade).2 q, hsame]
      · next hfile =>
          rw [if_neg hfile, unpackedFile_eq_ok h q, hsame]

end FileSystem

/-- The same for the call. -/
theorem may_unpack_made {path : FsPath} {entry : Unpacking}
    (hparents : ∀ q, q <+: path → q ≠ path → w.fs.node (destination ++ q) ≠ none)
    (hnone : w.fs.node (destination ++ path) = none)
    (h : (machine env allowed).may (.unpack destination path entry) w (.ok ()) w') (q : FsPath) :
    w'.fs.node q = if q = destination ++ path then some (entry.made env) else w.fs.node q := by
  obtain ⟨oracle, w1, _, _, hrespond, rfl⟩ := respond_of_may h
  have hunpacked : ∃ fs, w.fs.unpacked env destination path entry = .ok fs ∧ w1.fs = fs := by
    unfold respond at hrespond
    dsimp only at hrespond
    split at hrespond
    · split at hrespond
      · obtain ⟨_, fs, hfs, rfl⟩ := World.change_eq_ok hrespond
        exact ⟨fs, hfs, rfl⟩
      · cases congrArg Prod.fst hrespond
    · obtain ⟨_, fs, hfs, rfl⟩ := World.change_eq_ok hrespond
      exact ⟨fs, hfs, rfl⟩
  obtain ⟨fs, hfs, heq⟩ := hunpacked
  change w1.fs.node q = _
  rw [heq]
  exact FileSystem.unpacked_made hparents hnone hfs q

/-- What one entry does to the tree. -/
theorem unpackEntry_restores {entry : TreeEntry} {archived : TarEntry} {read : ReadEntry}
    (h : archiveEntry entry = .ok archived) (hread : read.Restores archived)
    (hparents : ∀ q, q <+: entry.path → q ≠ entry.path → w.fs.node (destination ++ q) ≠ none)
    (hnone : entry.path ≠ [] → w.fs.node (destination ++ entry.path) = none)
    (hrun : (machine env allowed).Runs (unpackEntry destination read).run w (.ok ()) w')
    (q : FsPath) :
    w'.fs.node q = if q = destination ++ entry.path ∧ entry.path ≠ [] then entry.node.restored env
      else w.fs.node q := by
  rcases unpackEntry_archived h hread with ⟨hnothing, hskip⟩ | ⟨hmade, hunpack⟩
  · rw [hskip] at hrun
    rw [(runs_run_pure.mp hrun).2, hnothing]
    split
    · next hq => rw [hq.1, hnone hq.2]
    · rfl
  · rw [hunpack] at hrun
    split at hrun
    · next hroot => rw [if_neg fun hq => hq.2 hroot, (runs_run_pure.mp hrun).2]
    · next hpath =>
        have hmay := runs_request.mp (runs_fallible.mp (runs_mapError_ok.mp hrun))
        rw [may_unpack_made hparents (hnone hpath) hmay q, hmade]
        by_cases hq : q = destination ++ entry.path
        · rw [if_pos hq, if_pos ⟨hq, hpath⟩]
        · rw [if_neg hq, if_neg fun hboth => hq hboth.1]

/-! ## The loop -/

/-- The paths in `done` are restored below the destination, and nothing else is there. -/
structure Restoring (env : Env) (source : FileSystem) (d destination : FsPath)
    (done : List FsPath) (before after : FileSystem) : Prop where
  below : ∀ path, path ≠ [] → after.node (destination ++ path) =
    if path ∈ done then (source.node (d ++ path)).bind (Node.restored env) else none
  outside : ∀ q, (∀ path, path ≠ [] → q ≠ destination ++ path) → after.node q = before.node q

variable {source before : FileSystem} {done todo : List FsPath}

/-- The directory that an archive is unpacked to is empty at first. -/
theorem Restoring.start (hempty : ∀ path, path ≠ [] → before.node (destination ++ path) = none) :
    Restoring env source d destination [] before before :=
  ⟨fun path hpath => (hempty path hpath).trans (if_neg List.not_mem_nil).symm, fun _ _ => rfl⟩

/-- Above a node there are directories, and they have been restored. -/
theorem Restoring.parents {path q : FsPath} {fs : FileSystem}
    (h : Restoring env source d destination done before fs) (hroot : before.node destination ≠ none)
    (hnode : source.node (d ++ path) ≠ none) (hq : q <+: path) (hne : q ≠ path)
    (hdone : q ∈ done) : fs.node (destination ++ q) ≠ none := by
  by_cases hnil : q = []
  · rw [hnil, List.append_nil, h.outside destination]
    · exact hroot
    · exact fun rest hrest heq => hrest (List.self_eq_append_right.mp heq)
  · have hdir : source.isDirectory (d ++ q) = true := by
      refine FileSystem.isDirectory_above ?_ (fun heq => hne (List.append_cancel_left heq)) hnode
      exact (List.prefix_append_right_inj d).mpr hq
    obtain ⟨attr, hattr⟩ := FileSystem.isDirectory_iff.mp hdir
    rw [h.below q hnil, if_pos hdone, hattr]
    exact Option.some_ne_none _

/-- One pass of the loop. -/
theorem Restoring.step {path : FsPath} {n : Node} {archived : TarEntry} {read : ReadEntry}
    (hlisting : source.Enumerates d (done ++ path :: todo)) (hroot : before.node destination ≠ none)
    (hnode : source.node (d ++ path) = some n)
    (harchived : archiveEntry ⟨path, n⟩ = .ok archived) (hread : read.Restores archived)
    (h : Restoring env source d destination done before w.fs)
    (hrun : (machine env allowed).Runs (unpackEntry destination read).run w (.ok ()) w') :
    Restoring env source d destination (done ++ [path]) before w'.fs := by
  have hthere : source.node (d ++ path) ≠ none := by
    rw [hnode]
    exact Option.some_ne_none _
  obtain ⟨_, hlater, hearlier⟩ := List.pairwise_append.mp hlisting.parentFirst
  have hnew : path ∉ done := fun hmem => hearlier path hmem path List.mem_cons_self List.prefix_rfl
  have hfree : path ≠ [] → w.fs.node (destination ++ path) = none := fun hpath =>
    (h.below path hpath).trans (if_neg hnew)
  have hparents : ∀ q, q <+: path → q ≠ path → w.fs.node (destination ++ q) ≠ none := by
    intro q hq hne
    refine h.parents hroot hthere hq hne ?_
    have hdir : source.isDirectory (d ++ q) = true :=
      FileSystem.isDirectory_above ((List.prefix_append_right_inj d).mpr hq)
        (fun heq => hne (List.append_cancel_left heq)) hthere
    obtain ⟨attr, hattr⟩ := FileSystem.isDirectory_iff.mp hdir
    have hmem := (hlisting.mem_iff q).mpr (by rw [hattr]; exact Option.some_ne_none _)
    rcases List.mem_append.mp hmem with hmem | hmem
    · exact hmem
    · rcases List.mem_cons.mp hmem with heq | hmem
      · exact absurd heq hne
      · exact absurd hq ((List.pairwise_cons.mp hlater).1 q hmem)
  have hstep := unpackEntry_restores harchived hread hparents hfree hrun
  constructor
  · intro other hother
    rw [hstep]
    by_cases heq : other = path
    · rw [heq, if_pos ⟨rfl, heq ▸ hother⟩, if_pos (List.mem_append_right _ List.mem_cons_self),
        hnode]
      rfl
    · rw [if_neg fun hboth => heq (List.append_cancel_left hboth.1), h.below other hother]
      have hiff : other ∈ done ++ [path] ↔ other ∈ done := by simp [heq]
      simp only [hiff]
  · intro q hq
    rw [hstep, if_neg fun hboth => hq path hboth.2 hboth.1]
    exact h.outside q hq

/-- **The loop** restores what the archive holds. -/
theorem unpackEntries_restores (hlisting : source.Enumerates d (done ++ todo))
    (hroot : before.node destination ≠ none)
    (hcomplete : (archiveEntries (source.nodesAt d todo)).2 = none)
    {found : List ReadEntry}
    (hfound : List.Forall₂ ReadEntry.Restores found (archiveEntries (source.nodesAt d todo)).1)
    (h : Restoring env source d destination done before w.fs)
    (hrun : (machine env allowed).Runs (unpackEntries destination found).run w (.ok ()) w') :
    Restoring env source d destination (done ++ todo) before w'.fs := by
  induction todo generalizing done w found with
  | nil =>
      cases hfound
      rw [(runs_run_pure.mp hrun).2, List.append_nil]
      exact h
  | cons path rest ih =>
      have hthere : source.node (d ++ path) ≠ none :=
        (hlisting.mem_iff path).mp (List.mem_append_right _ List.mem_cons_self)
      obtain ⟨n, hnode⟩ := Option.ne_none_iff_exists'.mp hthere
      have hnodes : source.nodesAt d (path :: rest) = ⟨path, n⟩ :: source.nodesAt d rest := by
        unfold FileSystem.nodesAt
        rw [List.filterMap_cons, hnode]
        rfl
      rw [hnodes] at hcomplete hfound
      unfold archiveEntries at hcomplete hfound
      cases harchived : archiveEntry ⟨path, n⟩ with
      | error e =>
          rw [harchived] at hcomplete
          cases hcomplete
      | ok archived =>
          rw [harchived] at hcomplete hfound
          dsimp only at hfound
          obtain _ | ⟨hread, hmore⟩ := hfound
          obtain ⟨_, t, hfirst, hrest⟩ := runs_ok_bind.mp hrun
          have hstep := h.step hlisting hroot hnode harchived hread hfirst
          have hsplit : done ++ path :: rest = done ++ [path] ++ rest := by simp
          rw [hsplit] at hlisting ⊢
          exact ih hlisting hcomplete hmore hstep hrest

/-! ## Unsealing -/

/-- What a sealed tree was. -/
theorem SealedTree.archive {seed : FixedBytes 12} {tree : List TreeEntry × Option IoError}
    {contents : Bytes} (h : SealedTree lib dataKey seed tree contents) :
    (archiveEntries tree.1).2 = none ∧ tree.2 = none ∧
      SealedAs lib.aead dataKey seed (lib.tar.archive (archiveEntries tree.1).1) contents := by
  obtain ⟨hcomplete, hsealed⟩ := h
  have hboth : ((archiveEntries tree.1).2 <|> tree.2) = none := hcomplete
  have hnone : (archiveEntries tree.1).2 = none ∧ tree.2 = none := by
    cases hstop : (archiveEntries tree.1).2 with
    | some e =>
        rw [hstop] at hboth
        cases hboth
    | none =>
        rw [hstop] at hboth
        exact ⟨rfl, hboth⟩
  refine ⟨hnone.1, hnone.2, ?_⟩
  have harchive : lib.tar.archive (archiveEntries tree.1).1 =
      (lib.tar.writes (archiveEntries tree.1).1).flatten ++ Tar.trailer := by
    unfold Tar.archive
    rw [List.flatten_append, List.flatten_singleton]
  rw [harchive]
  exact hsealed

/-- The directory `d` of `source`, below another directory: what is archived of it, as it
comes back. -/
def RestoredAt (env : Env) (source : FileSystem) (d : FsPath) (fs : FileSystem)
    (destination : FsPath) : Prop :=
  ∀ path, path ≠ [] →
    fs.node (destination ++ path) = (source.node (d ++ path)).bind (Node.restored env)

/-- **Unsealing gives the directory back**: every directory and every file without holes
comes back with its contents and its permission bits, and nothing else is there. -/
theorem unsealDirectory_restores {path : FsPath} {seed : FixedBytes 12} {contents : Bytes}
    {listing : List FsPath} {attr : Attr} {holes : Bool} (A : LawfulAead)
    (hA : lib.aead = A.toAead) (hlisting : source.Enumerates d listing)
    (hsealed : SealedTree lib dataKey seed (source.nodesAt d listing, none) contents)
    (htar : lib.tar.RoundTrips (archiveEntries (source.nodesAt d listing)).1)
    (hfile : w.fs.node path = some (.file attr contents holes))
    (hroot : w.fs.node destination ≠ none)
    (hempty : ∀ rest, rest ≠ [] → w.fs.node (destination ++ rest) = none)
    (hrun : (machine env allowed).Runs (unsealDirectory lib env path destination dataKey).run w
      (.ok ()) w') :
    RestoredAt env source d w'.fs destination ∧
      ∀ q, (∀ rest, rest ≠ [] → q ≠ destination ++ rest) → w'.fs.node q = w.fs.node q := by
  obtain ⟨status, w1, hvalid, hrest⟩ := runs_ok_bind.mp hrun
  obtain ⟨hfs1, _⟩ := validatePrivateFile_ok (runs_mapError_ok.mp hvalid)
  obtain ⟨⟨delivered, transfer⟩, w2, hopen, hrest⟩ := runs_ok_bind.mp hrest
  obtain ⟨hfs2, _, contents', _, hnode, hdelivered⟩ :=
    may_openRead_ok (runs_request.mp (runs_sys_ok.mp hopen))
  have hfs : w2.fs = w.fs := hfs2.trans hfs1
  rw [hfs1, hfile] at hnode
  cases hnode
  rcases hdelivered with heq | ⟨fault, _, heq⟩
  · cases heq
    dsimp only at hrest
    obtain ⟨hcomplete, _, hstream⟩ := hsealed.archive
    rw [hA] at hstream
    obtain ⟨reader, hnew, hremaining⟩ := hstream.opens
    unfold unsealFrom at hrest
    rw [hnew] at hrest
    dsimp only at hrest
    rw [hA, hremaining] at hrest
    obtain ⟨_, t, hentries, hend⟩ := runs_ok_bind.mp hrest
    obtain ⟨found, hfound, hrestores⟩ := htar
    rw [hfound] at hentries hend
    have hstart : Restoring env source d destination [] w.fs w2.fs := by
      rw [hfs]
      exact .start hempty
    have hdone : Restoring env source d destination ([] ++ listing) w.fs t.fs :=
      unpackEntries_restores hlisting hroot hcomplete hrestores hstart hentries
    rw [(runs_ofExcept.mp hend).2]
    refine ⟨fun rest hrest => ?_, fun q hq => hdone.outside q hq⟩
    rw [hdone.below rest hrest]
    split
    · rfl
    · next hnot =>
        have hmissing : source.node (d ++ rest) = none := by
          by_contra hne
          exact hnot ((hlisting.mem_iff rest).mpr hne)
        rw [hmissing]
        rfl
  · cases heq
    exact absurd hrest not_unsealFrom_failing

/-- A sealed file is read to its end, and found finished. -/
theorem unsealFrom_sealed {seed : FixedBytes 12} {plaintext contents : Bytes}
    {found : List ReadEntry} (A : LawfulAead) (hA : lib.aead = A.toAead)
    (hsealed : SealedAs lib.aead dataKey seed plaintext contents)
    (hentries : lib.tar.entries (plaintext, none) = (found, none))
    (hsizes : ∀ size ∈ lib.tar.readSizes (plaintext, none), size ≠ 0) :
    unsealFrom lib contents destination dataKey = (do
      unpackEntries destination found
      ofExcept (.ok ())) := by
  rw [hA] at hsealed
  obtain ⟨reader, hnew, hremaining⟩ := hsealed.opens
  have hgood : (VaultReader.remaining lib.aead reader).2 = none := by rw [hA, hremaining]
  obtain ⟨_, _, _, _, _, hend, _⟩ := VaultReader.reads_of_good hgood hsizes
  unfold unsealFrom
  rw [hnew]
  dsimp only
  rw [← hA] at hremaining
  rw [hremaining, hentries]
  dsimp only
  rw [VaultReader.verifyFinished_of_good hend]

/-- **Unsealing a sealed file** comes to unpacking what was archived. -/
theorem runs_unsealDirectory {path : FsPath} {status : FileStatus} {seed : FixedBytes 12}
    {plaintext contents : Bytes} {found : List ReadEntry} {w1 w2 : World} (A : LawfulAead)
    (hA : lib.aead = A.toAead)
    (hvalid : (machine env allowed).Runs (validatePrivateFile env path).run w (.ok status) w1)
    (hopen : (machine env allowed).Runs (sys (request (.openRead path))).run w1
      (.ok (contents, none)) w2)
    (hsealed : SealedAs lib.aead dataKey seed plaintext contents)
    (hentries : lib.tar.entries (plaintext, none) = (found, none))
    (hsizes : ∀ size ∈ lib.tar.readSizes (plaintext, none), size ≠ 0)
    (hunpack : (machine env allowed).Runs (unpackEntries destination found).run w2 (.ok ()) w') :
    (machine env allowed).Runs (unsealDirectory lib env path destination dataKey).run w (.ok ())
      w' := by
  refine runs_ok_bind.mpr ⟨status, w1, runs_mapError_ok.mpr hvalid, ?_⟩
  refine runs_ok_bind.mpr ⟨(contents, none), w2, hopen, ?_⟩
  dsimp only
  rw [unsealFrom_sealed A hA hsealed hentries hsizes]
  exact runs_ok_bind.mpr ⟨(), w', hunpack, runs_ofExcept.mpr ⟨rfl, rfl⟩⟩

end

end CodexVault
