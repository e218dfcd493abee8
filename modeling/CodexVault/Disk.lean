import CodexVault.SystemCallFacts

/-!
# Crashes

What a crash may do to the files.  The data of a file is durable once the file has
been synced, and the creation, renaming or removal of an entry once its directory
has been.  A `Disk` is a machine together with what is not durable yet:

* `stale p` holds the nodes that may come back at the path;
* `loose p` says that the data of the file at the path was not synced.

`Survives` describes the file systems found after a crash.  Entries are lost or
kept independently of each other, which allows more than one file system may do.
-/

namespace CodexVault

open ByteStrings Programs

/-- A machine, and what of its files is not durable. -/
structure Disk where
  world : World
  stale : FsPath → Option Node → Prop
  loose : FsPath → Prop

/-- A machine whose files are all durable. -/
def World.durable (w : World) : Disk where
  world := w
  stale _ _ := False
  loose _ := False

/-- The node is a file. -/
def Node.IsFile (n : Option Node) : Prop :=
  ∃ attr contents holes, n = some (.file attr contents holes)

namespace Disk

variable (d : Disk)

/-- What an entry may turn out to be after a crash, if its directory is there. -/
def MayHold (q : FsPath) (n : Option Node) : Prop :=
  n = d.world.fs.node q ∨ d.stale q n ∨
    (d.loose q ∧ Node.IsFile (d.world.fs.node q) ∧ Node.IsFile n)

/-- The file system may be found after a crash. -/
def Survives (fs : FileSystem) : Prop :=
  fs.node [] = d.world.fs.node [] ∧
    ∀ q, q ≠ [] → d.MayHold q (fs.node q) ∨ fs.isDirectory q.dropLast = false

/-- The machine may be found after a crash: no process is left. -/
def Recovers (w : World) : Prop := d.Survives w.fs ∧ ∀ q, w.locked q = none

/-- What holds no surprise: after a crash the entry is what it is now. -/
def Settled (q : FsPath) : Prop := ∀ n, d.MayHold q n → n = d.world.fs.node q

/-- The path is a directory whatever a crash does, and so are those above it. -/
def DirectoryDurable (p : FsPath) : Prop :=
  d.world.fs.isDirectory p = true ∧
    ∀ q, q <+: p → q ≠ [] → ∀ n, d.MayHold q n → n.any Node.isDirectory = true

/-- The entries that may come back after a call. -/
def staleAfter (op : Op) (error : Option ErrorKind) (w' : World) (q : FsPath)
    (n : Option Node) : Prop :=
  match op with
  | .sync p =>
      d.stale q n ∧ ¬ (error = none ∧ d.world.fs.isDirectory p = true ∧ q.dropLast = p)
  | .store _ _ | .setPermissions _ _ | .setLength _ | .writeText _ _ => d.stale q n
  | .rename source target =>
      d.stale q n ∨ (error = none ∧ ((source <+: q ∨ target <+: q) ∧ d.MayHold q n ∨
        target <+: q ∧ q ≠ target ∧ d.MayHold (FileSystem.rebase target source q) n))
  | .unpack destination _ _ => d.stale q n ∨ destination <+: q
  | _ => d.stale q n ∨ (w'.fs.node q ≠ d.world.fs.node q ∧ d.MayHold q n)

/-- The files whose data is not durable after a call. -/
def looseAfter (op : Op) (error : Option ErrorKind) (q : FsPath) : Prop :=
  match op with
  | .sync p => d.loose q ∧ ¬ (error = none ∧ q = p)
  | .store p _ | .setPermissions p _ | .setLength p | .writeText p _ => d.loose q ∨ q = p
  | .createFile p | .openLock p => d.loose q ∨ (error = none ∧ q = p)
  | .rename source target =>
      if error = none ∧ target <+: q then d.loose (FileSystem.rebase target source q)
      else d.loose q
  | .unpack destination _ _ => d.loose q ∨ destination <+: q
  | _ => d.loose q

/-- The disk after a call. -/
def after (op : Op) (error : Option ErrorKind) (w' : World) : Disk where
  world := w'
  stale := d.staleAfter op error w'
  loose := d.looseAfter op error

end Disk

/-- The machine with its disk, as a contract on one process. -/
def diskMachine (env : Env) (allowed : Oracle → Prop) : Contract Op Op.Reply Disk where
  may op d r d' := ∃ w', (machine env allowed).may op d.world r w' ∧
    d' = d.after op (op.failure r) w'

section

variable {env : Env} {allowed : Oracle → Prop} {d d' : Disk} {q : FsPath}

/-- A run on the disk is a run of the machine. -/
theorem runs_world {α : Type} {p : Prog Op Op.Reply α} {a : α}
    (hrun : (diskMachine env allowed).Runs p d a d') :
    (machine env allowed).Runs p d.world a d'.world := by
  refine Contract.runs_map Disk.world ?_ hrun
  rintro op d r _ ⟨w', hmay, rfl⟩
  exact hmay

/-- Every run of the machine is one on the disk. -/
theorem runs_disk {α : Type} {p : Prog Op Op.Reply α} {a : α} {w' : World}
    (hrun : (machine env allowed).Runs p d.world a w') :
    ∃ d', (diskMachine env allowed).Runs p d a d' ∧ d'.world = w' := by
  refine Contract.runs_follow Disk.world ?_ hrun
  intro op d r w' hmay
  exact ⟨_, ⟨w', hmay, rfl⟩, rfl⟩

/-! ## What one call does to an entry -/

/-- An entry that may come back still may, unless its directory is synced. -/
theorem stale_forward {op : Op} {r : op.Reply} {n : Option Node}
    (hmay : (diskMachine env allowed).may op d r d') (hsync : op ≠ .sync q.dropLast)
    (h : d.stale q n) : d'.stale q n := by
  obtain ⟨w', _, rfl⟩ := hmay
  cases op with
  | sync p =>
      refine ⟨h, fun ⟨_, _, hp⟩ => ?_⟩
      exact hsync (hp ▸ rfl)
  | store p contents => exact h
  | setPermissions p mode => exact h
  | setLength p => exact h
  | writeText p text => exact h
  | _ => exact .inl h

/-- Writing data changes no entry but that of a file, which stays one. -/
theorem isFile_rewrite {fs : FileSystem} {p : FsPath} {f : Attr → Bytes → Attr × Bytes}
    (h : (fs.rewrite p f).node q ≠ fs.node q) :
    Node.IsFile (fs.node q) ∧ Node.IsFile ((fs.rewrite p f).node q) := by
  by_cases hq : q = p
  · subst hq
    unfold FileSystem.rewrite at h ⊢
    split at h
    · next attr contents holes hnode =>
        unfold FileSystem.place at h ⊢
        split at h
        · next hplace =>
            rw [dif_pos hplace]
            exact ⟨⟨_, _, _, hnode⟩, _, _, _, if_pos rfl⟩
        · exact absurd rfl h
    · exact absurd rfl h
  · exact absurd (FileSystem.node_rewrite_of_ne hq) h

/-- The call writes data to the file at the path. -/
def Op.WritesData (p : FsPath) : Op → Prop
  | .store q _ | .setPermissions q _ | .setLength q | .writeText q _ => q = p
  | _ => False

theorem rewritten_of_may {op : Op} {r : op.Reply} {w w' : World} {p : FsPath}
    (hop : op.WritesData p) (hmay : (machine env allowed).may op w r w') :
    w'.fs = w.fs ∨ ∃ f, w'.fs = w.fs.rewrite p f := by
  obtain ⟨oracle, w1, _, _, hrespond, rfl⟩ := respond_of_may hmay
  cases op with
  | store q contents =>
      cases hop
      cases hrespond
      exact .inr ⟨_, rfl⟩
  | setPermissions q mode =>
      cases hop
      cases r with
      | error e =>
          rw [World.change_eq_error hrespond]
          exact .inl rfl
      | ok u =>
          obtain ⟨_, fs, hfs, rfl⟩ := World.change_eq_ok hrespond
          unfold FileSystem.permissionsSet at hfs
          split at hfs
          · split at hfs
            · cases hfs
              exact .inr ⟨_, rfl⟩
            · cases hfs
          · cases hfs
            exact .inl rfl
  | setLength q =>
      cases hop
      cases r with
      | error e =>
          rw [World.change_eq_error hrespond]
          exact .inl rfl
      | ok u =>
          obtain ⟨_, fs, hfs, rfl⟩ := World.change_eq_ok hrespond
          cases hfs
          exact .inr ⟨_, rfl⟩
  | writeText q text =>
      cases hop
      cases r with
      | error e =>
          rw [World.change_eq_error hrespond]
          exact .inr ⟨_, rfl⟩
      | ok u =>
          obtain ⟨_, fs, hfs, rfl⟩ := World.change_eq_ok hrespond
          cases hfs
          exact .inr ⟨_, rfl⟩
  | _ => exact absurd hop id

/-- **What may come back still may**, until its directory or its data is synced. -/
theorem mayHold_forward {op : Op} {r : op.Reply} {n : Option Node}
    (hmay : (diskMachine env allowed).may op d r d') (hsync : op ≠ .sync q.dropLast)
    (hself : op ≠ .sync q) (h : d.MayHold q n) : d'.MayHold q n := by
  have hforward := fun h => stale_forward (n := n) hmay hsync h
  obtain ⟨w', hmay, rfl⟩ := hmay
  by_cases hnode : w'.fs.node q = d.world.fs.node q
  · rcases h with rfl | hstale | ⟨hloose, hfile, hn⟩
    · exact .inl hnode.symm
    · exact .inr (.inl (hforward hstale))
    · -- the data stays unsynced, or the file has been replaced
      have hkept : d.looseAfter op (op.failure r) q ∨ d.staleAfter op (op.failure r) w' q n := by
        cases op with
        | sync p => exact .inl ⟨hloose, fun ⟨_, hq⟩ => hself (hq ▸ rfl)⟩
        | store p contents => exact .inl (.inl hloose)
        | setPermissions p mode => exact .inl (.inl hloose)
        | setLength p => exact .inl (.inl hloose)
        | writeText p text => exact .inl (.inl hloose)
        | createFile p => exact .inl (.inl hloose)
        | openLock p => exact .inl (.inl hloose)
        | unpack destination path entry => exact .inl (.inl hloose)
        | rename source target =>
            by_cases hmoved : (Op.rename source target).failure r = none ∧ target <+: q
            · exact .inr (.inr ⟨hmoved.1, .inl ⟨.inr hmoved.2, .inr (.inr ⟨hloose, hfile, hn⟩)⟩⟩)
            · refine .inl ?_
              unfold Disk.looseAfter
              dsimp only
              rwa [if_neg hmoved]
        | _ => exact .inl hloose
      have hfile' : Node.IsFile (w'.fs.node q) := hnode ▸ hfile
      rcases hkept with hloose' | hstale
      · exact .inr (.inr ⟨hloose', hfile', hn⟩)
      · exact .inr (.inl hstale)
  · have hchange : op.MayChange env d.world.fs q := by
      by_contra hnot
      exact hnode (node_of_may hmay hnot)
    -- a call that writes data leaves the file unsynced, another one leaves its entry behind
    have hwrites : op.WritesData q → (d.after op (op.failure r) w').MayHold q n := by
      intro hop
      have hfiles : Node.IsFile (d.world.fs.node q) ∧ Node.IsFile (w'.fs.node q) := by
        rcases rewritten_of_may hop hmay with hsame | ⟨f, hsame⟩
        · exact absurd (by rw [hsame]) hnode
        · rw [hsame] at hnode ⊢
          exact isFile_rewrite hnode
      have hn : Node.IsFile n ∨ d.stale q n := by
        rcases h with rfl | hstale | ⟨_, _, hn⟩
        · exact .inl hfiles.1
        · exact .inr hstale
        · exact .inl hn
      have hloose : d.looseAfter op (op.failure r) q := by
        cases op with
        | store p contents => exact .inr hop.symm
        | setPermissions p mode => exact .inr hop.symm
        | setLength p => exact .inr hop.symm
        | writeText p text => exact .inr hop.symm
        | _ => exact absurd hop id
      rcases hn with hn | hstale
      · exact .inr (.inr ⟨hloose, hfiles.2, hn⟩)
      · exact .inr (.inl (hforward hstale))
    cases op with
    | store p contents => exact hwrites hchange.symm
    | setPermissions p mode => exact hwrites hchange.symm
    | setLength p => exact hwrites hchange.symm
    | writeText p text => exact hwrites hchange.symm
    | sync p => exact absurd hchange id
    | unpack destination path entry => exact .inr (.inl (.inr hchange))
    | rename source target =>
        cases r with
        | error e =>
            rw [may_rename_error hmay] at hnode
            exact absurd rfl hnode
        | ok u => exact .inr (.inl (.inr ⟨rfl, .inl ⟨hchange, h⟩⟩))
    | _ => exact .inr (.inl (.inr ⟨hnode, h⟩))

theorem stale_of_spares {op : Op} {error : Option ErrorKind} {w' : World} {n : Option Node}
    (hq : ¬ op.MayChange env d.world.fs q) (hnode : w'.fs.node q = d.world.fs.node q)
    (h : d.staleAfter op error w' q n) : d.stale q n := by
  cases op with
  | sync p => exact h.1
  | store p contents => exact h
  | setPermissions p mode => exact h
  | setLength p => exact h
  | writeText p text => exact h
  | rename source target =>
      rcases h with hstale | ⟨_, ⟨hpath, _⟩ | ⟨hpath, _⟩⟩
      · exact hstale
      · exact absurd hpath hq
      · exact absurd (.inr hpath) hq
  | unpack destination path entry =>
      rcases h with hstale | hpath
      · exact hstale
      · exact absurd hpath hq
  | _ =>
      rcases h with hstale | ⟨hchanged, _⟩
      · exact hstale
      · exact absurd hnode hchanged

theorem loose_of_spares {op : Op} {r : op.Reply} {w' : World}
    (hmay : (machine env allowed).may op d.world r w') (hq : ¬ op.MayChange env d.world.fs q)
    (h : d.looseAfter op (op.failure r) q) : d.loose q := by
  cases op with
  | sync p => exact h.1
  | store p contents => exact h.resolve_right hq
  | setPermissions p mode => exact h.resolve_right hq
  | setLength p => exact h.resolve_right hq
  | writeText p text => exact h.resolve_right hq
  | createFile p =>
      rcases h with hloose | ⟨herror, hpath⟩
      · exact hloose
      · cases r with
        | error e => cases herror
        | ok fault =>
            obtain ⟨hnone, _⟩ := may_createFile_ok hmay
            exact absurd ⟨hpath, hpath ▸ hnone⟩ hq
  | openLock p => exact h.resolve_right fun hpath => hq hpath.2
  | rename source target =>
      unfold Disk.looseAfter at h
      dsimp only at h
      rwa [if_neg fun hpath => hq (.inr hpath.2)] at h
  | unpack destination path entry => exact h.resolve_right hq
  | _ => exact h

/-- **Frame.**  A call leaves alone what may be found at all other paths. -/
theorem mayHold_of_spares {op : Op} {r : op.Reply} {n : Option Node}
    (hmay : (diskMachine env allowed).may op d r d') (hq : ¬ op.MayChange env d.world.fs q)
    (h : d'.MayHold q n) : d.MayHold q n := by
  obtain ⟨w', hmay, rfl⟩ := hmay
  have hnode : w'.fs.node q = d.world.fs.node q := node_of_may hmay hq
  rcases h with rfl | hstale | ⟨hloose, hfile, hn⟩
  · exact .inl hnode
  · exact .inr (.inl (stale_of_spares hq hnode hstale))
  · exact .inr (.inr ⟨loose_of_spares hmay hq hloose, hnode ▸ hfile, hn⟩)

theorem settled_of_spares {op : Op} {r : op.Reply}
    (hmay : (diskMachine env allowed).may op d r d') (hq : ¬ op.MayChange env d.world.fs q)
    (h : d.Settled q) : d'.Settled q := by
  intro n hn
  obtain ⟨w', hworld, rfl⟩ := hmay
  have hnode : w'.fs.node q = d.world.fs.node q := node_of_may hworld hq
  exact (h n (mayHold_of_spares ⟨w', hworld, rfl⟩ hq hn)).trans hnode.symm

theorem directoryDurable_of_spares {op : Op} {r : op.Reply} {p : FsPath}
    (hmay : (diskMachine env allowed).may op d r d')
    (hq : ∀ q, q <+: p → ¬ op.MayChange env d.world.fs q) (h : d.DirectoryDurable p) :
    d'.DirectoryDurable p := by
  obtain ⟨hdir, hall⟩ := h
  refine ⟨?_, fun q hpre hne n hn => hall q hpre hne n (mayHold_of_spares hmay (hq q hpre) hn)⟩
  obtain ⟨w', hworld, rfl⟩ := hmay
  obtain ⟨attr, hattr⟩ := FileSystem.isDirectory_iff.mp hdir
  have hnode : w'.fs.node p = d.world.fs.node p := node_of_may hworld (hq p List.prefix_rfl)
  exact FileSystem.isDirectory_iff.mpr ⟨attr, hnode.trans hattr⟩

/-! ## What one call makes durable -/

/-- A rename leaves what was at its two ends behind as what may come back. -/
theorem stale_rename {source target : FsPath} {n : Option Node}
    (hmay : (diskMachine env allowed).may (.rename source target) d (.ok ()) d')
    (hq : source <+: q ∨ target <+: q) (h : d.MayHold q n) : d'.stale q n := by
  obtain ⟨w', _, rfl⟩ := hmay
  exact .inr ⟨rfl, .inl ⟨hq, h⟩⟩

/-- A file that was synced is moved with its data. -/
theorem loose_rename {source target : FsPath}
    (hmay : (diskMachine env allowed).may (.rename source target) d (.ok ()) d')
    (h : ¬ d.loose source) : ¬ d'.loose target := by
  obtain ⟨w', _, rfl⟩ := hmay
  intro hloose
  have hloose : if (none : Option ErrorKind) = none ∧ target <+: target then
      d.loose (FileSystem.rebase target source target) else d.loose target := hloose
  rw [if_pos ⟨rfl, List.prefix_rfl⟩, FileSystem.rebase, List.drop_length,
    List.append_nil] at hloose
  exact h hloose

theorem loose_sync {p : FsPath} (hmay : (diskMachine env allowed).may (.sync p) d (.ok ()) d') :
    ¬ d'.loose p := by
  obtain ⟨w', _, rfl⟩ := hmay
  rintro ⟨_, hnot⟩
  exact hnot ⟨rfl, rfl⟩

/-- **Syncing a directory** settles what is in it, as far as its data was synced. -/
theorem settled_sync {parent : FsPath} {name : String}
    (hmay : (diskMachine env allowed).may (.sync parent) d (.ok ()) d')
    (hdir : d.world.fs.isDirectory parent = true) (hloose : ¬ d.loose (parent ++ [name])) :
    d'.Settled (parent ++ [name]) := by
  obtain ⟨w', _, rfl⟩ := hmay
  intro n hn
  rcases hn with heq | ⟨_, hnot⟩ | ⟨⟨hstill, _⟩, _, _⟩
  · exact heq
  · exact absurd ⟨rfl, hdir, List.dropLast_concat⟩ hnot
  · exact absurd hstill hloose

/-! ## What a crash leaves -/

/-- A durable directory is there after a crash. -/
theorem isDirectory_of_survives {fs : FileSystem} {p : FsPath} (hdurable : d.DirectoryDurable p)
    (h : d.Survives fs) : fs.isDirectory p = true := by
  obtain ⟨hdir, hall⟩ := hdurable
  have hprefix : ∀ q, q <+: p → fs.isDirectory q = true := by
    intro q
    induction q using List.reverseRecOn with
    | nil =>
        intro _
        have hroot : d.world.fs.isDirectory [] = true := by
          by_cases hp : p = []
          · rwa [← hp]
          · refine FileSystem.isDirectory_above List.nil_prefix (Ne.symm hp) ?_
            obtain ⟨attr, hattr⟩ := FileSystem.isDirectory_iff.mp hdir
            rw [hattr]
            exact Option.some_ne_none _
        obtain ⟨attr, hattr⟩ := FileSystem.isDirectory_iff.mp hroot
        exact FileSystem.isDirectory_iff.mpr ⟨attr, h.1.trans hattr⟩
    | append_singleton q name ih =>
        intro hpre
        have hparent := ih ((List.prefix_append q [name]).trans hpre)
        rcases h.2 (q ++ [name]) (by simp) with hhold | hnot
        · exact hall _ hpre (by simp) _ hhold
        · rw [List.dropLast_concat, hparent] at hnot
          cases hnot
  exact hprefix p List.prefix_rfl

/-- **What is settled in a durable directory survives a crash.** -/
theorem node_of_survives {fs : FileSystem} {p : FsPath} {name : String}
    (hdurable : d.DirectoryDurable p) (hsettled : d.Settled (p ++ [name])) (h : d.Survives fs) :
    fs.node (p ++ [name]) = d.world.fs.node (p ++ [name]) := by
  rcases h.2 (p ++ [name]) (by simp) with hhold | hnot
  · exact hsettled _ hhold
  · rw [List.dropLast_concat, isDirectory_of_survives hdurable h] at hnot
    cases hnot

/-- The file system with an entry exchanged and nothing below it. -/
def FileSystem.exchange (fs : FileSystem) (p : FsPath) (n : Option Node)
    (hparent : fs.isDirectory p.dropLast = true) : FileSystem where
  node q := if q = p then n else if p <+: q then none else fs.node q
  paths := p :: fs.paths
  mem_paths := by
    intro q hq
    split at hq
    · next heq => exact heq ▸ List.mem_cons_self
    · split at hq
      · exact absurd rfl hq
      · exact List.mem_cons_of_mem _ (fs.mem_paths hq)
  parent_of := by
    intro q name hq
    have habove : fs.isDirectory q = true → ¬ p <+: q →
        ∃ attr, (if q = p then n else if p <+: q then none else fs.node q) =
          some (.directory attr) := by
      intro hdir hnot
      have hne : q ≠ p := fun heq => hnot (heq ▸ List.prefix_rfl)
      rw [if_neg hne, if_neg hnot]
      exact isDirectory_iff.mp hdir
    split at hq
    · next heq =>
        apply habove
        · rwa [← heq, List.dropLast_concat] at hparent
        · intro hpre
          have hlen := hpre.length_le
          rw [← heq, List.length_append, List.length_singleton] at hlen
          omega
    · split at hq
      · exact absurd rfl hq
      · next hnot =>
          exact habove (isDirectory_parent hq)
            fun hpre => hnot (hpre.trans (List.prefix_append q [name]))

theorem FileSystem.node_exchange {fs : FileSystem} {p : FsPath} {n : Option Node}
    {hparent : fs.isDirectory p.dropLast = true} (q : FsPath) :
    (fs.exchange p n hparent).node q =
      if q = p then n else if p <+: q then none else fs.node q := rfl

/-- The machine restarted with these files. -/
def World.restart (w : World) (fs : FileSystem) : World :=
  { w with fs := fs, locked := fun _ => none }

theorem recovers_restart {fs : FileSystem} (h : d.Survives fs) :
    d.Recovers (d.world.restart fs) := ⟨h, fun _ => rfl⟩

/-- **An entry that may come back does so in some crash**, alone. -/
theorem survives_exchange {p : FsPath} {n : Option Node} (hne : p ≠ [])
    (hparent : d.world.fs.isDirectory p.dropLast = true) (hhold : d.MayHold p n)
    (hbelow : n.any Node.isDirectory = true → ∀ name, d.MayHold (p ++ [name]) none) :
    d.Survives (d.world.fs.exchange p n hparent) := by
  constructor
  · rw [FileSystem.node_exchange, if_neg (Ne.symm hne), if_neg]
    intro hpre
    exact hne (List.prefix_nil.mp hpre)
  · intro q hq
    by_cases heq : q = p
    · left
      rw [FileSystem.node_exchange, if_pos heq, heq]
      exact hhold
    · by_cases hpre : p <+: q
      · obtain ⟨rest, rfl⟩ := hpre
        induction rest using List.reverseRecOn with
        | nil => exact absurd (List.append_nil p) heq
        | append_singleton rest name _ =>
            by_cases hrest : rest = []
            · subst hrest
              by_cases hdir : n.any Node.isDirectory = true
              · left
                rw [FileSystem.node_exchange, if_neg heq, if_pos (List.prefix_append _ _)]
                exact hbelow hdir name
              · right
                have hlast : (p ++ ([] ++ [name])).dropLast = p := by simp
                rw [hlast, FileSystem.isDirectory, FileSystem.node_exchange, if_pos rfl]
                simpa using hdir
            · right
              rw [← List.append_assoc, List.dropLast_concat, FileSystem.isDirectory,
                FileSystem.node_exchange, if_neg, if_pos (List.prefix_append _ _)]
              · rfl
              · intro h
                exact hrest (List.append_cancel_left (h.trans (List.append_nil p).symm))
      · left
        rw [FileSystem.node_exchange, if_neg heq, if_neg hpre]
        exact .inl rfl

end

end CodexVault
