import CodexVault.ReaderGrammar
import CodexVault.RuntimeRoots

/-!
# Extraction stays inside the runtime

`unseal_directory` on a machine with links.  `Contained` is the invariant of the tree
that is being unpacked: there is no link at or below the destination, so a path below
it by name is below it in fact, and every file there has an inode of its own.
`extraction_contained` follows by one case for each step of unpacking.
-/

namespace CodexVault

open ByteStrings Programs

/-- The location is below the directory. -/
def Below (d loc : FsPath) : Prop := ∃ rest, rest ≠ [] ∧ loc = d ++ rest

theorem below_append {d rest : FsPath} (h : rest ≠ []) : Below d (d ++ rest) := ⟨rest, h, rfl⟩

/-- The inode belongs to something. -/
def LinkedFiles.InUse (fs : LinkedFiles) (n : Nat) : Prop :=
  fs.inode n ≠ none ∨ ∃ loc, fs.entry loc = some (.file n)

/-- What is below the destination while an archive is unpacked: directories, and files
whose inodes are new and have no other name. -/
def Unpacks (before fs : LinkedFiles) (loc : FsPath) (e : Entry) : Prop :=
  (∃ attr, e = .directory attr) ∨
    ∃ n, e = .file n ∧ ¬ before.InUse n ∧ ∀ other, fs.entry other = some (.file n) → other = loc

/-- Everything but what is below the destination is as it was. -/
structure Contained (d : FsPath) (before fs : LinkedFiles) : Prop where
  outside : ∀ loc, ¬ Below d loc → fs.entry loc = before.entry loc
  inode : ∀ n, before.InUse n → fs.inode n = before.inode n
  inside : ∀ loc e, Below d loc → fs.entry loc = some e → Unpacks before fs loc e

/-- The path leads to an empty directory. -/
structure EmptyAt (fs : LinkedFiles) (destination d : FsPath) : Prop where
  resolves : fs.Resolves [] (components destination) d
  isDirectory : fs.IsDirectory d
  empty : ∀ loc, Below d loc → fs.entry loc = none

namespace Contained

variable {destination d path : FsPath} {before fs fs' : LinkedFiles}

theorem start (h : EmptyAt before destination d) : Contained d before before := by
  refine ⟨fun _ _ => rfl, fun _ _ => rfl, fun loc e hloc he => ?_⟩
  rw [h.empty loc hloc] at he
  cases he

theorem within (h : Contained d before fs) (hempty : EmptyAt before destination d) :
    LinkedFiles.Within before fs := by
  intro loc e he
  by_cases hloc : Below d loc
  · rw [hempty.empty loc hloc] at he
    cases he
  · rw [h.outside loc hloc, he]

theorem inUse (h : Contained d before fs) (hempty : EmptyAt before destination d) {n : Nat}
    (hn : before.InUse n) : fs.InUse n := by
  rcases hn with hsome | ⟨loc, hloc⟩
  · exact .inl (by rwa [h.inode n (.inl hsome)])
  · exact .inr ⟨loc, h.within hempty loc _ hloc⟩

theorem linkFree (h : Contained d before fs) (hempty : EmptyAt before destination d) :
    fs.LinkFree d := by
  intro rest attr target he
  by_cases hrest : rest = []
  · rw [hrest, List.append_nil] at he
    obtain ⟨attr', hattr⟩ := (h.within hempty).isDirectory hempty.isDirectory
    rw [hattr] at he
    cases he
  · rcases h.inside _ _ (below_append hrest) he with ⟨_, heq⟩ | ⟨_, heq, _⟩
    · cases heq
    · cases heq

/-- A directory is put below the destination, or its attributes are set. -/
theorem directory (h : Contained d before fs) {loc : FsPath} (hloc : Below d loc) {attr : Attr}
    (hentry : ∀ q, fs'.entry q = if q = loc then some (.directory attr) else fs.entry q)
    (hinode : fs'.inode = fs.inode) : Contained d before fs' := by
  refine ⟨fun q hq => ?_, fun n hn => by rw [hinode, h.inode n hn], fun q e hq he => ?_⟩
  · have hne : q ≠ loc := fun heq => hq (heq ▸ hloc)
    rw [hentry, if_neg hne, h.outside q hq]
  · rw [hentry] at he
    split at he
    · cases he
      exact .inl ⟨attr, rfl⟩
    · rcases h.inside q e hq he with hdir | ⟨n, hfile, hnew, honly⟩
      · exact .inl hdir
      · refine .inr ⟨n, hfile, hnew, fun other hother => ?_⟩
        rw [hentry] at hother
        split at hother
        · cases hother
        · exact honly other hother

/-- A file is removed below the destination. -/
theorem removed (h : Contained d before fs) {loc : FsPath} (hloc : Below d loc)
    (hnot : ¬ fs.IsDirectory loc) : Contained d before (fs.remove loc hnot) := by
  refine ⟨fun q hq => ?_, h.inode, fun q e hq he => ?_⟩
  · have hne : q ≠ loc := fun heq => hq (heq ▸ hloc)
    exact (if_neg hne).trans (h.outside q hq)
  have hold : ∀ {other e}, (fs.remove loc hnot).entry other = some e → fs.entry other = some e := by
    intro other e hother
    change (if other = loc then none else fs.entry other) = some e at hother
    split at hother
    · cases hother
    · exact hother
  rcases h.inside q e hq (hold he) with hdir | ⟨n, hfile, hnew, honly⟩
  · exact .inl hdir
  · exact .inr ⟨n, hfile, hnew, fun other hother => honly other (hold hother)⟩

/-- A new file is put below the destination. -/
theorem file (h : Contained d before fs) (hempty : EmptyAt before destination d) {n : Nat}
    (hfresh : fs.inode n = none) (hunused : ∀ loc, fs.entry loc ≠ some (.file n)) {loc : FsPath}
    (hloc : Below d loc) {attr : Attr} {contents : Bytes}
    (hentry : ∀ q, fs'.entry q = if q = loc then some (.file n) else fs.entry q)
    (hinode : ∀ m, fs'.inode m = if m = n then some (attr, contents) else fs.inode m) :
    Contained d before fs' := by
  have hnew : ¬ before.InUse n := by
    intro hn
    rcases h.inUse hempty hn with hsome | ⟨q, hq⟩
    · exact hsome hfresh
    · exact hunused q hq
  refine ⟨fun q hq => ?_, fun m hm => ?_, fun q e hq he => ?_⟩
  · have hne : q ≠ loc := fun heq => hq (heq ▸ hloc)
    rw [hentry, if_neg hne, h.outside q hq]
  · have hne : m ≠ n := fun heq => hnew (heq ▸ hm)
    rw [hinode, if_neg hne, h.inode m hm]
  · rw [hentry] at he
    split at he
    · next heq =>
        cases he
        refine .inr ⟨n, rfl, hnew, fun other hother => ?_⟩
        rw [hentry] at hother
        split at hother
        · next hsame => rw [hsame, heq]
        · exact absurd hother (hunused other)
    · rcases h.inside q e hq he with hdir | ⟨m, hfile, hm, honly⟩
      · exact .inl hdir
      · refine .inr ⟨m, hfile, hm, fun other hother => ?_⟩
        rw [hentry] at hother
        split at hother
        · cases hother
          rw [hfile] at he
          exact absurd he (hunused q)
        · exact honly other hother

/-- **One step of unpacking.** -/
theorem step {env : Env} {entry : Unpacking} (h : Contained d before fs)
    (hempty : EmptyAt before destination d) (hne : path ≠ [])
    (hstep : LinkedFiles.UnpackStep env destination path entry fs fs') :
    Contained d before fs' := by
  have hfree := h.linkFree hempty
  have hresolves := hempty.resolves.mono (h.within hempty)
  cases hstep with
  | parent hinit hsome _ hlands hnew _ hput =>
      have hloc := hfree.lands hresolves hsome hlands
      exact h.directory (hloc ▸ below_append hsome) (fun q => rfl) rfl
  | mode _ hloc hattr =>
      have hloc := hfree.below hresolves hloc
      exact h.directory (hloc ▸ below_append hne) (fun q => rfl) rfl
  | clear _ hlands hnot =>
      have hloc := hfree.lands hresolves hne hlands
      exact h.removed (hloc ▸ below_append hne) hnot
  | file _ hlands _ hfresh hunused _ _ hput =>
      have hloc := hfree.lands hresolves hne hlands
      exact h.file hempty hfresh hunused (hloc ▸ below_append hne) (fun q => rfl) (fun m => rfl)

end Contained

/-! ## Runs -/

section

variable {R : Type} [Source R] (lib : Libraries) (dataKey : Key)

/-- The entries that reading an archive hands out, up to the first error. -/
def entriesFrom (inner : R) : List ReadEntry :=
  match VaultReader.new inner dataKey with
  | .error _ => []
  | .ok reader => (lib.tar.entries (VaultReader.remaining lib.aead reader)).1

/-- The entries that the file as it was opened hands out. -/
def entriesIn : Bytes × Option TransferFault → List ReadEntry
  | (contents, none) => entriesFrom lib dataKey contents
  | (contents, some fault) =>
      entriesFrom lib dataKey ({ rest := contents, error := .os fault.kind } : FailingSource)

end

/-- The entry is a file or a directory. -/
def ReadEntry.Kept (read : ReadEntry) : Prop :=
  read.entry.entryType.isFile = true ∨ read.entry.entryType.isDir = true

/-- The call unpacks this entry. -/
def ReadEntry.UnpackedBy (read : ReadEntry) (destination : FsPath) (op : Op) : Prop :=
  read.Kept ∧ ∃ name rest, unpackTarget read.entry.path = some (name :: rest) ∧
    op = .unpack destination (name :: rest) read.unpacking

/-- The calls of `unseal_directory`. -/
def UnsealCall (lib : Libraries) (dataKey : Key) (source destination : FsPath) (op : Op) : Prop :=
  op = .lstat source ∨ op = .openRead source ∨
    ∃ file, ∃ read ∈ entriesIn lib dataKey file, read.UnpackedBy destination op

theorem unpackTarget_eq_none_iff {path : List PathComponent} :
    unpackTarget path = none ↔ .parentDir ∈ path := by
  induction path with
  | nil => simp [unpackTarget]
  | cons component rest ih => cases component <;> simp [unpackTarget, ih]

section

variable {lib : Libraries} {env : Env} {source destination : FsPath} {dataKey : Key}

/-- Of all entries only files and directories are unpacked. -/
theorem uses_unpackEntry_kept (read : ReadEntry) :
    Contract.Uses (read.UnpackedBy destination) (unpackEntry destination read).run := by
  unfold unpackEntry
  dsimp only
  split
  · exact Contract.uses_run_pure
  · split
    · exact Contract.uses_run_pure
    · next hkept =>
        have hkept : read.Kept := by
          rw [Bool.not_eq_true', Bool.not_eq_false, Bool.or_eq_true] at hkept
          exact hkept
        split
        · exact Contract.uses_run_throw
        · exact Contract.uses_run_pure
        · next name rest htarget =>
            exact Contract.uses_mapError (uses_request ⟨hkept, name, rest, htarget, rfl⟩)

theorem uses_unpackEntries_kept (entries : List ReadEntry) :
    Contract.Uses (fun op => ∃ read ∈ entries, read.UnpackedBy destination op)
      (unpackEntries destination entries).run := by
  induction entries with
  | nil => exact Contract.uses_run_pure
  | cons read rest ih =>
      refine Contract.uses_run_bind ?_ fun _ => ?_
      · exact (uses_unpackEntry_kept read).mono fun op hop => ⟨read, List.mem_cons_self, hop⟩
      · refine ih.mono fun op hop => ?_
        obtain ⟨other, hother, hby⟩ := hop
        exact ⟨other, List.mem_cons_of_mem _ hother, hby⟩

theorem uses_unsealFrom_kept {R : Type} [Source R] (inner : R) :
    Contract.Uses (fun op => ∃ read ∈ entriesFrom lib dataKey inner, read.UnpackedBy destination op)
      (unsealFrom lib inner destination dataKey).run := by
  unfold unsealFrom entriesFrom
  cases VaultReader.new inner dataKey with
  | error e => exact Contract.uses_run_throw
  | ok reader =>
      refine Contract.uses_run_bind (uses_unpackEntries_kept _) fun _ => ?_
      cases (lib.tar.entries (VaultReader.remaining lib.aead reader)).2 with
      | some e => exact Contract.uses_run_throw
      | none => exact uses_ofExcept

theorem uses_unsealDirectory_kept :
    Contract.Uses (UnsealCall lib dataKey source destination)
      (unsealDirectory lib env source destination dataKey).run := by
  refine Contract.uses_run_bind (Contract.uses_mapError (uses_validatePrivateFile (.inl rfl)))
    fun _ => Contract.uses_run_bind (uses_sys (uses_request (.inr (.inl rfl)))) fun opened => ?_
  obtain ⟨contents, transfer⟩ := opened
  cases transfer with
  | none =>
      exact (uses_unsealFrom_kept contents).mono fun op hop => .inr (.inr ⟨(contents, none), hop⟩)
  | some fault =>
      exact (uses_unsealFrom_kept _).mono fun op hop => .inr (.inr ⟨(contents, some fault), hop⟩)

variable {σ : Type} {C : Contract Op Op.Reply σ} {w w' : σ}

theorem unpackEntry_eq_throw {read : ReadEntry} (hkept : read.Kept)
    (hparent : .parentDir ∈ read.entry.path) :
    unpackEntry destination read =
      throw (.integrity "archive entry escaped the runtime directory") := by
  have htarget := unpackTarget_eq_none_iff.mpr hparent
  unfold unpackEntry
  dsimp only
  rw [htarget]
  unfold ReadEntry.Kept at hkept
  cases htype : read.entry.entryType <;> simp_all [EntryType.isFile, EntryType.isDir,
    EntryType.isSymlink, EntryType.isHardLink]

/-- An archive with a parent component in a file or directory entry is not unpacked. -/
theorem unpackEntries_ok {entries : List ReadEntry}
    (hrun : C.Runs (unpackEntries destination entries).run w (.ok ()) w') :
    ∀ read ∈ entries, read.Kept → .parentDir ∉ read.entry.path := by
  induction entries generalizing w with
  | nil => exact fun _ h => absurd h List.not_mem_nil
  | cons first rest ih =>
      obtain ⟨_, t, hfirst, hrest⟩ := Contract.runs_ok_bind.mp hrun
      intro read hread hkept
      rcases List.mem_cons.mp hread with rfl | hread
      · intro hparent
        rw [unpackEntry_eq_throw hkept hparent] at hfirst
        cases (Contract.runs_run_throw.mp hfirst).1
      · exact ih hrest read hread hkept

/-- An archive that is unpacked to its end has no parent component in a file or
directory entry. -/
theorem unsealFrom_ok {R : Type} [Source R] {inner : R}
    (hrun : C.Runs (unsealFrom lib inner destination dataKey).run w (.ok ()) w') :
    ∀ read ∈ entriesFrom lib dataKey inner, read.Kept → .parentDir ∉ read.entry.path := by
  unfold unsealFrom at hrun
  unfold entriesFrom
  cases hnew : VaultReader.new inner dataKey with
  | error e => exact fun _ h => absurd h List.not_mem_nil
  | ok reader =>
      rw [hnew] at hrun
      obtain ⟨_, t, hentries, _⟩ := Contract.runs_ok_bind.mp hrun
      exact unpackEntries_ok hentries

end

section

variable {lib : Libraries} {env : Env} {transfer : FsPath → Option TransferFault}
  {source destination d : FsPath} {dataKey : Key} {w w' : LinkedWorld}

/-- What is read of the source, when the archive is unpacked to its end. -/
theorem unsealDirectory_ok
    (hrun : (linkedMachine env transfer).Runs
      (unsealDirectory lib env source destination dataKey).run w (.ok ()) w') :
    ∃ contents, w.files.Opened source (transfer source) contents ∧
      ∀ read ∈ entriesIn lib dataKey (contents, transfer source), read.Kept →
        .parentDir ∉ read.entry.path := by
  obtain ⟨status, w1, hvalid, hrest⟩ := Contract.runs_ok_bind.mp hrun
  obtain ⟨found, w2, hstat, hcheck⟩ :=
    Contract.runs_ok_bind.mp (Contract.runs_mapError_ok.mp hvalid)
  obtain ⟨⟨hfiles, _⟩, _⟩ := runs_request.mp (runs_sys_ok.mp hstat)
  obtain ⟨_, w3, hone, hpure⟩ := Contract.runs_ok_bind.mp hcheck
  obtain ⟨_, rfl⟩ := runs_ofExcept.mp hone
  obtain ⟨_, rfl⟩ := Contract.runs_run_pure.mp hpure
  obtain ⟨⟨contents, fault⟩, w4, hopen, hunseal⟩ := Contract.runs_ok_bind.mp hrest
  obtain ⟨⟨_, hdelivered⟩, _⟩ := runs_request.mp (runs_sys_ok.mp hopen)
  obtain ⟨rfl, hopened⟩ := hdelivered contents fault rfl
  rw [hfiles] at hopened
  refine ⟨contents, hopened, ?_⟩
  cases htransfer : transfer source with
  | none =>
      rw [htransfer] at hunseal
      exact unsealFrom_ok hunseal
  | some fault =>
      rw [htransfer] at hunseal
      exact unsealFrom_ok hunseal

/-- One call of `unseal_directory` keeps the invariant. -/
theorem contained_of_call {before : LinkedFiles} (hempty : EmptyAt before destination d) {op : Op}
    {reply : op.Reply} (hop : UnsealCall lib dataKey source destination op)
    (hmay : (linkedMachine env transfer).may op w reply w') (h : Contained d before w.files) :
    Contained d before w'.files := by
  obtain ⟨hmay, _⟩ := hmay
  rcases hop with rfl | rfl | ⟨file, read, _, _, name, rest, _, rfl⟩
  · rwa [hmay.1]
  · rwa [hmay.1]
  · obtain ⟨hsteps, _⟩ := hmay
    generalize w'.files = after at hsteps ⊢
    induction hsteps with
    | refl => exact h
    | tail _ hstep ih => exact ih.step hempty (List.cons_ne_nil _ _) hstep

/-- **Extraction stays inside.**  Whatever the archive holds and however the run ends,
everything that is not below the destination stays as it was, and below it there are
only directories and files of their own, no links; nothing but files and directories of
an archive is unpacked; and one such entry with a parent component makes the run fail. -/
theorem extraction_contained (hempty : EmptyAt w.files destination d)
    {r : Except VaultError Unit}
    (hrun : (linkedMachine env transfer).Runs
      (unsealDirectory lib env source destination dataKey).run w r w') :
    Contained d w.files w'.files ∧
    (∃ made, w'.history = made ++ w.history ∧
      ∀ op ∈ made, UnsealCall lib dataKey source destination op) ∧
    ∀ contents, w.files.Opened source (transfer source) contents →
      ∀ read ∈ entriesIn lib dataKey (contents, transfer source), read.Kept →
        .parentDir ∈ read.entry.path → ∃ e, r = .error e := by
  have hkept : (Contained d w.files w.files → Contained d w.files w'.files) ∧
      ∃ made, w'.history = made ++ w.history ∧
        ∀ op ∈ made, UnsealCall lib dataKey source destination op := by
    refine Contract.runs_of_uses (R := fun s t : LinkedWorld =>
      (Contained d w.files s.files → Contained d w.files t.files) ∧
        ∃ made, t.history = made ++ s.history ∧
          ∀ op ∈ made, UnsealCall lib dataKey source destination op)
      (fun s => ⟨id, [], rfl, fun _ h => absurd h List.not_mem_nil⟩) ?_ ?_
      uses_unsealDirectory_kept hrun
    · rintro s t u ⟨hst, made, hmade, hcalls⟩ ⟨htu, made', hmade', hcalls'⟩
      refine ⟨fun h => htu (hst h), made' ++ made, ?_, fun op hop => ?_⟩
      · rw [hmade', hmade, List.append_assoc]
      · rcases List.mem_append.mp hop with hop | hop
        · exact hcalls' op hop
        · exact hcalls op hop
    · intro op s reply t hop hmay
      refine ⟨fun h => contained_of_call hempty hop hmay h, [op], hmay.2, fun other hother => ?_⟩
      rw [List.mem_singleton.mp hother]
      exact hop
  refine ⟨hkept.1 (.start hempty), hkept.2, fun contents hopened read hread hfile hparent => ?_⟩
  cases r with
  | error e => exact ⟨e, rfl⟩
  | ok u =>
      obtain ⟨contents', hopened', hnone⟩ := unsealDirectory_ok hrun
      obtain rfl := hopened.unique hopened'
      exact absurd hparent (hnone read hread hfile)

end

/-! ## A file under the name of a link -/

/-- An archive with a block for each entry. -/
def blocks (entries : List TarEntry) : Bytes :=
  ((entries.map fun _ => [List.replicate 512 1]).flatten ++ [Tar.trailer]).flatten

/-- A tar library that has a block for each entry and reads these entries back. -/
def listedTar (entries : List TarEntry) : Tar where
  entryWrites _ := [List.replicate 512 1]
  entries delivered :=
    if delivered = (blocks entries, none) then (entries.map TarEntry.unchanged, none)
    else ([], some (.other "failed to read entire block"))
  readSizes _ := []

theorem entries_listed (entries : List TarEntry) :
    (listedTar entries).entries ((listedTar entries).archive entries, none) =
      (entries.map TarEntry.unchanged, none) := if_pos rfl

/-- A link, and a file where the link would be a directory. -/
def linkedEntries : List TarEntry :=
  [{ path := [.normal "out"], entryType := .symlink, mode := 0o777, body := [] },
    { path := [.normal "out", .normal "x"], entryType := .regular, mode := 0o600, body := [7] }]

def linkedLibraries : Libraries := sampleLibraries (listedTar linkedEntries)

/-- The sealed archive. -/
def linkedState : Bytes :=
  (sealStream taggingAead.toAead (some (FixedBytes.replicate 12 0)) ([] : Bytes) sampleKey
    ((listedTar linkedEntries).writes linkedEntries) none).2

/-- A home with the sealed archive. -/
def stateHome : LinkedFiles :=
  (homeFiles.write 0 ⟨1000, 0o600⟩ linkedState).put ["home"] "state.cvlt" (.file 0)
    ⟨⟨_, rfl⟩, by decide, fun ⟨_, h⟩ => nomatch h⟩

/-- The same with an empty runtime. -/
def sealedHome : LinkedFiles :=
  stateHome.put ["home"] "run" (.directory ⟨1000, 0o700⟩)
    ⟨⟨_, rfl⟩, by decide, fun _ => ⟨_, rfl⟩⟩

theorem canPut_out : sealedHome.CanPut ["home", "run"] "out" (.directory ⟨1000, 0o755⟩) :=
  ⟨⟨_, rfl⟩, by decide, fun _ => ⟨_, rfl⟩⟩

/-- The directory above the file is made. -/
def outHome : LinkedFiles :=
  sealedHome.put ["home", "run"] "out" (.directory ⟨1000, 0o755⟩) canPut_out

theorem canPut_x :
    (outHome.write 1 ⟨1000, 0o600⟩ [7]).CanPut ["home", "run", "out"] "x" (.file 1) :=
  ⟨⟨_, rfl⟩, by decide, fun ⟨_, h⟩ => nomatch h⟩

/-- The file is made. -/
def unpackedHome : LinkedFiles :=
  (outHome.write 1 ⟨1000, 0o600⟩ [7]).put ["home", "run", "out"] "x" (.file 1) canPut_x

theorem emptyAt_sealedHome : EmptyAt sealedHome ["home", "run"] ["home", "run"] := by
  refine ⟨LinkedFiles.resolves_location rfl fun _ _ => Entry.noConfusion, ⟨_, rfl⟩, ?_⟩
  rintro _ ⟨rest, hrest, rfl⟩
  simp [sealedHome, stateHome, homeFiles, rootFiles, LinkedFiles.put, LinkedFiles.write, hrest]

/-- The reader that is opened on the archive. -/
def linkedReading : VaultReader Bytes where
  inner := linkedState.drop 20
  cipher := sampleKey
  nonceSeed := FixedBytes.replicate 12 0
  plaintext := []
  plaintextOffset := 0
  sequence := 0
  finalized := false

theorem new_linkedState : VaultReader.new linkedState sampleKey = .ok linkedReading := by
  have hbytes : linkedState = fileHeader (FixedBytes.replicate 12 0) ++ linkedState.drop 20 := by
    decide +kernel
  rw [hbytes]
  exact VaultReader.new_fileHeader _ _ _

theorem remaining_linkedReading :
    VaultReader.remaining taggingAead.toAead linkedReading =
      ((listedTar linkedEntries).archive linkedEntries, none) := by
  decide +kernel

/-- The file goes where its path says, and the link is passed over. -/
theorem unpack_linked (history : List Op) :
    (linkedMachine sampleEnv fun _ => none).Runs
      (unpackEntries ["home", "run"] (linkedEntries.map TarEntry.unchanged)).run
      ⟨sealedHome, history⟩ (.ok ()) ⟨unpackedHome, .unpack ["home", "run"] ["out", "x"]
        { isDir := false, mode := 0o600, body := [7], fault := none } :: history⟩ := by
  have hrun : sealedHome.Resolves [] (components ["home", "run"]) ["home", "run"] :=
    LinkedFiles.resolves_location rfl fun _ _ => Entry.noConfusion
  have hout : sealedHome.Lands (components ["home", "run"] ++ ["out"].map .normal)
      ["home", "run", "out"] := .last hrun ⟨_, rfl⟩
  have hunused : ∀ loc, outHome.entry loc ≠ some (.file 1) := by
    intro loc
    simp only [outHome, sealedHome, stateHome, homeFiles, rootFiles, LinkedFiles.put,
      LinkedFiles.write]
    repeat' split
    all_goals simp
  have hlands : ∀ fs : LinkedFiles,
      fs.entry ["home", "run", "out"] = some (.directory ⟨1000, 0o755⟩) →
      fs.Lands (components ["home", "run"] ++ ["out", "x"].map .normal)
        ["home", "run", "out", "x"] := by
    intro fs hdir
    have hparent : fs.Resolves [] (components ["home", "run", "out"]) ["home", "run", "out"] :=
      LinkedFiles.resolves_location hdir fun _ _ => Entry.noConfusion
    exact .last hparent ⟨_, hdir⟩
  refine Contract.runs_ok_bind.mpr ⟨(), ⟨sealedHome, history⟩, ⟨rfl, rfl⟩, ?_⟩
  refine Contract.runs_ok_bind.mpr ⟨(), _, Contract.runs_mapError_ok.mpr ?_, ⟨rfl, rfl⟩⟩
  refine runs_request.mpr ⟨⟨?_, fun _ => ⟨.inl rfl, ["home", "run", "out", "x"], hlands _ rfl, ?_⟩⟩,
    rfl⟩
  · refine (Relation.ReflTransGen.single ?_).tail ?_ (b := outHome)
    · exact .parent (by decide) (by decide) (.inr (by decide)) hout rfl rfl canPut_out
    · exact .file rfl (hlands _ rfl) rfl rfl hunused rfl List.prefix_rfl canPut_x
  · exact ⟨1, _, rfl, rfl⟩

/-- The archive is unpacked to its end. -/
theorem unseal_linked : ∃ history,
    (linkedMachine sampleEnv fun _ => none).Runs
      (unsealDirectory linkedLibraries sampleEnv ["home", "state.cvlt"] ["home", "run"]
        sampleKey).run ⟨sealedHome, []⟩ (.ok ()) ⟨unpackedHome, history⟩ := by
  have hlands : sealedHome.Lands (components ["home", "state.cvlt"]) ["home", "state.cvlt"] :=
    lands_home rfl (by decide)
  have hentry : sealedHome.entry ["home", "state.cvlt"] = some (.file 0) := rfl
  have hopened : sealedHome.Opened ["home", "state.cvlt"] none linkedState :=
    ⟨_, 0, ⟨1000, 0o600⟩, _, hlands, hentry, rfl, rfl⟩
  have hverify : VaultReader.verifyFinished taggingAead.toAead linkedReading = .ok () := by
    refine VaultReader.verifyFinished_of_good ?_
    rw [remaining_linkedReading]
  have hfrom : ∀ history, ∃ history', (linkedMachine sampleEnv fun _ => none).Runs
      (unsealFrom linkedLibraries linkedState ["home", "run"] sampleKey).run
      ⟨sealedHome, history⟩ (.ok ()) ⟨unpackedHome, history'⟩ := by
    intro history
    have hentries : linkedLibraries.tar.entries
        (VaultReader.remaining linkedLibraries.aead linkedReading) =
        (linkedEntries.map TarEntry.unchanged, none) := by
      rw [show VaultReader.remaining linkedLibraries.aead linkedReading = _ from
        remaining_linkedReading]
      exact entries_listed linkedEntries
    unfold unsealFrom
    rw [new_linkedState]
    dsimp only
    rw [hentries]
    exact ⟨_, Contract.runs_ok_bind.mpr ⟨(), _, unpack_linked history,
      runs_ofExcept.mpr ⟨hverify.symm, rfl⟩⟩⟩
  obtain ⟨history, hrest⟩ := hfrom [.openRead ["home", "state.cvlt"], .lstat ["home", "state.cvlt"]]
  refine ⟨history, Contract.runs_ok_bind.mpr ⟨sealedHome.status (.file 0),
    ⟨sealedHome, [.lstat ["home", "state.cvlt"]]⟩, ?_,
    Contract.runs_ok_bind.mpr ⟨(linkedState, none),
      ⟨sealedHome, [.openRead ["home", "state.cvlt"], .lstat ["home", "state.cvlt"]]⟩,
      runs_sys_ok.mpr (runs_request.mpr ⟨⟨rfl, fun contents fault hok => ?_⟩, rfl⟩), hrest⟩⟩⟩
  · refine Contract.runs_mapError_ok.mpr (Contract.runs_ok_bind.mpr ⟨_, _,
      runs_lstat hlands hentry, Contract.runs_ok_bind.mpr ⟨(), _, runs_ofExcept.mpr ⟨?_, rfl⟩,
        ⟨rfl, rfl⟩⟩⟩)
    rfl
  · cases hok
    exact ⟨rfl, hopened⟩

/-- The link is left out and the file stays inside. -/
theorem extraction_contained_sample : Contained ["home", "run"] sealedHome unpackedHome := by
  obtain ⟨history, hrun⟩ := unseal_linked
  exact (extraction_contained emptyAt_sealedHome hrun).1

end CodexVault
