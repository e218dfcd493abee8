import CodexVault.ByteStrings
import CodexVault.VaultErrors

/-!
# The file system

A `FileSystem` maps paths to nodes, lists the paths in use, and carries the fact
that whatever exists lies in a directory.  Paths are absolute and free of
symbolic links in their parents.

Three operations change it, `place`, `prune` and `graft`; each system call is one
of them, or several in a row.
-/

namespace CodexVault

open ByteStrings

/-- An absolute path, by its components from the root. -/
abbrev FsPath := List String

/-- The owner and the permission bits of a file. -/
structure Attr where
  owner : UInt32
  mode : Nat
  deriving DecidableEq

inductive SpecialKind where
  | fifo
  | socket
  | charDevice
  | blockDevice
  deriving DecidableEq

/-- What a path may name.  `holes` says that a regular file is stored with holes;
reading it gives `contents` either way. -/
inductive Node where
  | file (attr : Attr) (contents : Bytes) (holes : Bool)
  | directory (attr : Attr)
  | symlink
  | special (kind : SpecialKind) (attr : Attr)
  deriving DecidableEq

/-- The node is a directory. -/
def Node.isDirectory : Node → Bool
  | .directory _ => true
  | _ => false

/-- The node is a file, of whatever kind, that nothing can lie below. -/
def Node.isOpaque : Node → Bool
  | .file _ _ _ | .special _ _ => true
  | .directory _ | .symlink => false

/-- The files of a machine. -/
structure FileSystem where
  node : FsPath → Option Node
  /-- Every path in use, and possibly others. -/
  paths : List FsPath
  mem_paths : ∀ {p}, node p ≠ none → p ∈ paths
  parent_of : ∀ {p name}, node (p ++ [name]) ≠ none → ∃ attr, node p = some (.directory attr)

namespace FileSystem

variable (fs : FileSystem)

/-- The path names a directory. -/
def isDirectory (p : FsPath) : Bool := (fs.node p).any Node.isDirectory

variable {fs}

theorem isDirectory_iff {p : FsPath} :
    fs.isDirectory p = true ↔ ∃ attr, fs.node p = some (.directory attr) := by
  unfold isDirectory
  cases hnode : fs.node p with
  | none => simp
  | some n => cases n <;> simp [Node.isDirectory]

theorem isDirectory_parent {p : FsPath} {name : String} (h : fs.node (p ++ [name]) ≠ none) :
    fs.isDirectory p = true :=
  isDirectory_iff.mpr (fs.parent_of h)

/-- Every path above one that exists is a directory. -/
theorem isDirectory_above {p q : FsPath} (hpq : p <+: q) (hne : p ≠ q)
    (hq : fs.node q ≠ none) : fs.isDirectory p = true := by
  obtain ⟨rest, rfl⟩ := hpq
  induction rest using List.reverseRecOn with
  | nil => simp at hne
  | append_singleton rest name ih =>
      rw [← List.append_assoc] at hq
      have hdir := isDirectory_parent hq
      by_cases hrest : rest = []
      · rwa [hrest, List.append_nil] at hdir
      · apply ih
        · intro h
          exact hrest (List.append_cancel_left (h.symm.trans (List.append_nil p).symm))
        · obtain ⟨attr, hattr⟩ := isDirectory_iff.mp hdir
          rw [hattr]
          exact Option.some_ne_none _

/-- Nothing lies below a path that does not exist. -/
theorem node_eq_none_below {p q : FsPath} (hpq : p <+: q) (hp : fs.node p = none) :
    fs.node q = none := by
  by_contra hq
  by_cases hne : p = q
  · exact hq (hne ▸ hp)
  · obtain ⟨attr, hattr⟩ := isDirectory_iff.mp (isDirectory_above hpq hne hq)
    rw [hp] at hattr
    cases hattr

/-- Nothing lies below a path that is not a directory. -/
theorem node_append_eq_none {p rest : FsPath} (hp : fs.isDirectory p = false)
    (hrest : rest ≠ []) : fs.node (p ++ rest) = none := by
  by_contra hq
  have hdir := isDirectory_above (List.prefix_append p rest)
    (fun h => hrest (List.self_eq_append_right.mp h)) hq
  rw [hp] at hdir
  cases hdir

/-- What a call finds wrong with a path that names nothing: a file stands where a
directory should be, or nothing is there. -/
def absence (fs : FileSystem) (p : FsPath) : ErrorKind :=
  if p.inits.any fun q => (fs.node q).any Node.isOpaque then .notADirectory else .notFound

/-! ## A node at a path -/

variable (fs)

/-- A node can be put at the path: its parent is a directory, and a directory is
not replaced by something else. -/
def CanPlace (p : FsPath) (n : Node) : Prop :=
  p ≠ [] ∧ fs.isDirectory p.dropLast = true ∧
    (n.isDirectory = true ∨ fs.isDirectory p = false)

instance (p : FsPath) (n : Node) : Decidable (fs.CanPlace p n) := by
  unfold CanPlace
  infer_instance

/-- The file system with a node at a path, where that is possible. -/
def place (p : FsPath) (n : Node) : FileSystem :=
  if h : fs.CanPlace p n then
    { node := fun q => if q = p then some n else fs.node q
      paths := p :: fs.paths
      mem_paths := by
        intro q hq
        split at hq
        · next heq => rw [heq]; exact List.mem_cons_self
        · exact List.mem_cons_of_mem _ (fs.mem_paths hq)
      parent_of := by
        intro q name hq
        obtain ⟨_, hparent, hkeep⟩ := h
        have hdir : fs.isDirectory q = true := by
          split at hq
          · next heq => rwa [← heq, List.dropLast_concat] at hparent
          · exact isDirectory_parent hq
        split
        · next heq =>
            subst heq
            rcases hkeep with hn | hn
            · cases n <;> simp_all [Node.isDirectory]
            · rw [hdir] at hn
              cases hn
        · exact isDirectory_iff.mp hdir }
  else fs

variable {fs}

theorem node_place {p : FsPath} {n : Node} (h : fs.CanPlace p n) (q : FsPath) :
    (fs.place p n).node q = if q = p then some n else fs.node q := by
  unfold place
  rw [dif_pos h]

theorem node_place_of_ne {p q : FsPath} {n : Node} (h : q ≠ p) :
    (fs.place p n).node q = fs.node q := by
  unfold place
  split
  · exact if_neg h
  · rfl

/-! ## Removal -/

variable (fs)

/-- The file system without the paths in `gone` and what lies below them. -/
def prune (gone : FsPath → Bool) : FileSystem where
  node q := if q.inits.any gone then none else fs.node q
  paths := fs.paths
  mem_paths := by
    intro q hq
    split at hq
    · exact absurd rfl hq
    · exact fs.mem_paths hq
  parent_of := by
    intro q name hq
    split at hq
    · exact absurd rfl hq
    · next hany =>
        rw [if_neg]
        · exact fs.parent_of hq
        · intro hgone
          apply hany
          obtain ⟨x, hx, hgx⟩ := List.any_eq_true.mp hgone
          have hx' := List.mem_inits x q |>.mp hx
          exact List.any_eq_true.mpr
            ⟨x, List.mem_inits _ _ |>.mpr (hx'.trans (List.prefix_append q [name])), hgx⟩

variable {fs}

theorem node_prune (gone : FsPath → Bool) (q : FsPath) :
    (fs.prune gone).node q = if q.inits.any gone then none else fs.node q := rfl

theorem inits_any_eq (p q : FsPath) : (q.inits.any fun r => decide (r = p)) = decide (p <+: q) := by
  rw [Bool.eq_iff_iff, List.any_eq_true]
  simp

/-- Removal of one path and what lies below it. -/
theorem node_prune_eq (p q : FsPath) :
    (fs.prune fun r => decide (r = p)).node q = if p <+: q then none else fs.node q := by
  rw [node_prune, inits_any_eq]
  simp

/-! ## Moving -/

variable (fs)

/-- The path of `q` in the tree moved from `a` to `b`. -/
def rebase (a b q : FsPath) : FsPath := b ++ q.drop a.length

/-- The tree at `a` can take the place of what is at `b`. -/
def CanGraft (a b : FsPath) : Prop :=
  fs.isDirectory b.dropLast = true ∧ b ≠ [] ∧ ¬ a <+: b ∧ ¬ b <+: a

instance (a b : FsPath) : Decidable (fs.CanGraft a b) := by
  unfold CanGraft
  infer_instance

/-- The file system with the tree at `a` moved to `b`. -/
def graft (a b : FsPath) : FileSystem :=
  if h : fs.CanGraft a b then
    { node := fun q =>
        if b <+: q then fs.node (rebase b a q)
        else if a <+: q then none else fs.node q
      paths := fs.paths ++ fs.paths.map (rebase a b)
      mem_paths := by
        intro q hq
        split at hq
        · next hb =>
            obtain ⟨rest, rfl⟩ := hb
            have hmem := fs.mem_paths hq
            apply List.mem_append_right
            refine List.mem_map.mpr ⟨_, hmem, ?_⟩
            simp [rebase]
        · split at hq
          · exact absurd rfl hq
          · exact List.mem_append_left _ (fs.mem_paths hq)
      parent_of := by
        intro q name hq
        obtain ⟨hparent, hb0, hab, hba⟩ := h
        by_cases hbq : b <+: q
        · rw [if_pos (hbq.trans (List.prefix_append q [name]))] at hq
          rw [if_pos hbq]
          obtain ⟨rest, rfl⟩ := hbq
          simp only [rebase, List.append_assoc, List.drop_left] at hq ⊢
          rw [← List.append_assoc] at hq
          exact fs.parent_of hq
        · rw [if_neg hbq]
          by_cases hbn : b <+: q ++ [name]
          · -- `q` is the parent of `b`
            rcases List.prefix_concat_iff.mp hbn with heq | hpre
            · have hq' : q = b.dropLast := by rw [heq, List.dropLast_concat]
              rw [if_neg]
              · rw [hq']
                exact isDirectory_iff.mp hparent
              · intro haq
                exact hab (heq ▸ haq.trans (List.prefix_append q [name]))
            · exact absurd hpre hbq
          · rw [if_neg hbn] at hq
            split at hq
            · exact absurd rfl hq
            · next han =>
                rw [if_neg fun haq => han (haq.trans (List.prefix_append q [name]))]
                exact fs.parent_of hq }
  else fs

variable {fs}

theorem node_graft {a b : FsPath} (h : fs.CanGraft a b) (q : FsPath) :
    (fs.graft a b).node q =
      if b <+: q then fs.node (rebase b a q) else if a <+: q then none else fs.node q := by
  unfold graft
  rw [dif_pos h]

theorem node_graft_elsewhere {a b q : FsPath} (ha : ¬ a <+: q) (hb : ¬ b <+: q) :
    (fs.graft a b).node q = fs.node q := by
  unfold graft
  split
  · exact (if_neg hb).trans (if_neg ha)
  · rfl

end FileSystem

end CodexVault
