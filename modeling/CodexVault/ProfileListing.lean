import CodexVault.Pools
import CodexVault.ProfileCreation

/-!
# Listing the users

`list_users` enumerates the users directory without a lock and reads the manifest of
each entry that may be a profile.

A directory is enumerated by two calls, one that opens it and one that reads its
entries.  Between them it may change: an entry that is there at both is met once, any
other may be met or not.
-/

namespace CodexVault

open ByteStrings Programs Contract

/-- What an enumeration meets. -/
structure DirEntry where
  name : String
  isDir : Bool
  deriving DecidableEq

/-- The calls of a listing. -/
inductive ListingOp where
  | store (op : Op)
  /-- `fs::read_dir`.  The reply is what is in the directory at this time, which the
  program only passes on. -/
  | openEntries (path : FsPath)
  /-- The entries of a directory with this in it when it was opened, and the error
  that stops the enumeration. -/
  | readEntries (path : FsPath) (opened : List String)

/-- The replies. -/
abbrev ListingOp.Reply : ListingOp → Type
  | store op => op.Reply
  | openEntries _ => Except IoError (List String)
  | readEntries _ _ => List DirEntry × Option IoError

/-- What an enumeration may meet: every entry once, and those that were there from the
opening on. -/
structure FileSystem.Meets (fs : FileSystem) (path : FsPath) (opened : List String)
    (entries : List DirEntry) : Prop where
  nodup : (entries.map DirEntry.name).Nodup
  known : ∀ entry ∈ entries, entry.name ∈ opened ∨ fs.node (path ++ [entry.name]) ≠ none
  current : ∀ entry ∈ entries, ∀ node, fs.node (path ++ [entry.name]) = some node →
    entry.isDir = node.isDirectory
  complete : ∀ name ∈ opened, fs.node (path ++ [name]) ≠ none → name ∈ entries.map DirEntry.name

/-- The machine of a listing. -/
def listing (env : Env) (allowed : Oracle → Prop) :
    Contract ListingOp ListingOp.Reply World where
  may
    | .store op, w, r, w' => (machine env allowed).may op w r w'
    | .openEntries path, w, r, w' => w' = w ∧ ∃ oracle : Oracle, allowed oracle ∧
        match oracle.fault, w.fs.directoryReadable env path with
        | some kind, _ => r = .error (.os kind)
        | none, .error kind => r = .error (.os kind)
        | none, .ok _ => ∃ opened, r = .ok opened ∧
            ∀ name, w.fs.node (path ++ [name]) ≠ none → name ∈ opened
    | .readEntries path opened, w, r, w' => w' = w ∧ ∃ oracle : Oracle, allowed oracle ∧
        ∃ entries, w.fs.Meets path opened entries ∧
          match oracle.fault with
          | some kind => r = (entries.take oracle.progress, some (.os kind))
          | none => r = (entries, none)

/-- A program of a listing. -/
abbrev Listing := ExceptT VaultError (Prog ListingOp ListingOp.Reply)

/-- A program of the store in a listing. -/
def listingOf {α : Type} : Prog Op Op.Reply α → Prog ListingOp ListingOp.Reply α
  | .ret a => .ret a
  | .call op next => .call (.store op) fun r => listingOf (next r)

/-- A program of the store that can fail. -/
def listingCall {α : Type} (p : Io α) : Listing α := Prog.fallible (listingOf p.run)

/-- One call. -/
def listingRequest (op : ListingOp) : Prog ListingOp ListingOp.Reply op.Reply := Prog.perform op

/-- `sort_unstable`, by the bytes of the names. -/
def sortUnstable (users : List String) : List String :=
  users.mergeSort fun a b => decide (textBytes a ≤ textBytes b)

namespace VaultStore

/-- The loop of `list_users`: directories without a dot in front, and their manifests
as far as they can be read. -/
def collectUsers (lib : Libraries) (env : Env) (store : VaultStore) :
    List DirEntry → Listing (List String)
  | [] => pure []
  | entry :: rest =>
      if entry.isDir = false ∨ Dotted entry.name then collectUsers lib env store rest
      else do
        match ← Prog.attempt
            (listingCall (readManifest lib env (store.usersRoot ++ [entry.name]))) with
        | .ok manifest => do
            let users ← collectUsers lib env store rest
            return manifest.username :: users
        | .error _ => collectUsers lib env store rest

/-- `list_users`.  The entries are read in one go; an error among them is reported
once the manifests before it have been read. -/
def listUsers (lib : Libraries) (env : Env) (store : VaultStore) : Listing (List String) := do
  listingCall (store.initializeStore env)
  let opened ←
    Prog.mapError .io (Prog.fallible (listingRequest (.openEntries store.usersRoot)))
  let (entries, stop) ← ExceptT.lift (listingRequest (.readEntries store.usersRoot opened))
  let users ← store.collectUsers lib env entries
  match stop with
  | some e => throw (.io e)
  | none => return sortUnstable users

end VaultStore

section

variable {env : Env} {allowed : Oracle → Prop} {α : Type} {w : World}

theorem holds_listingOf {p : Prog Op Op.Reply α} {rely guar : World → World → Prop}
    {Q : α → World → Prop} (h : (machine env allowed).Holds rely guar p Q w) :
    (listing env allowed).Holds rely guar (listingOf p) Q w := by
  induction p generalizing w with
  | ret a => exact h
  | call op next ih =>
      intro t ht r u hmay
      obtain ⟨hguar, hrest⟩ := h t ht r u hmay
      exact ⟨hguar, ih r hrest⟩

/-! ## Sorting -/

theorem sortUnstable_perm (users : List String) : (sortUnstable users).Perm users :=
  List.mergeSort_perm _ _

/-- Names that are all different are sorted strictly. -/
theorem sortUnstable_ascending {users : List String} (h : users.Nodup) :
    (sortUnstable users).Pairwise fun a b => textBytes a < textBytes b := by
  have hle : (sortUnstable users).Pairwise fun a b => textBytes a ≤ textBytes b := by
    have htrans : ∀ a b c : String, decide (textBytes a ≤ textBytes b) = true →
        decide (textBytes b ≤ textBytes c) = true → decide (textBytes a ≤ textBytes c) = true := by
      intro a b c hab hbc
      simp only [decide_eq_true_eq] at hab hbc ⊢
      exact List.le_trans hab hbc
    have htotal : ∀ a b : String, (decide (textBytes a ≤ textBytes b) ||
        decide (textBytes b ≤ textBytes a)) = true := by
      intro a b
      simp only [Bool.or_eq_true, decide_eq_true_eq]
      exact List.le_total _ _
    have hsorted := List.pairwise_mergeSort htrans htotal users
    exact hsorted.imp fun hab => of_decide_eq_true hab
  have hne : (sortUnstable users).Pairwise (· ≠ ·) :=
    List.nodup_iff_pairwise_ne.mp ((sortUnstable_perm users).nodup_iff.mpr h)
  refine (hle.and hne).imp fun {a b} hab => ?_
  exact Std.lt_of_le_of_ne hab.1 fun heq => hab.2 (UserManifest.textBytes_injective heq)

end

end CodexVault
