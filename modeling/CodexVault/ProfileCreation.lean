import CodexVault.DurableChanges

/-!
# Profiles that are created

What `add_user` leaves behind when it succeeds: a private directory that holds a
complete manifest and a complete state, both of its own making.

The temporary directory of a creation has a dotted name, so the cleanup at its end does
not reach into the profile.
-/

namespace CodexVault

open ByteStrings Programs Contract

/-! ## The new profile -/

section

variable {lib : Libraries} {env : Env} {allowed : Oracle → Prop} {w w' : World}
    {username : String} {password : Bytes}

theorem may_now {r : Option UInt64} (h : (machine env allowed).may .now w r w') :
    ∃ oracle, allowed oracle ∧ r = oracle.clock := by
  obtain ⟨oracle, _, hallowed, _, hrespond, _⟩ := respond_of_may h
  exact ⟨oracle, hallowed, (congrArg Prod.fst hrespond).symm⟩

theorem newHeader_ok {kdf : KdfParameters} {m : UserManifest}
    (h : (machine env allowed).Runs (UserManifest.newHeader lib username kdf).run w (.ok m) w') :
    m.version = manifestVersion ∧ (∃ id, m.id = lib.uuidText id) ∧ m.username = username ∧
      m.kdf = kdf ∧ m.vaultFormat = CodexVault.vaultFormat ∧
      ∃ oracle, allowed oracle ∧ oracle.clock = some m.createdAt := by
  obtain ⟨reading, w1, hnow, hrest⟩ := runs_ask_bind.mp h
  obtain ⟨oracle, hallowed, hclock⟩ := may_now hnow
  cases reading with
  | none => cases (runs_run_throw.mp hrest).1
  | some createdAt =>
      obtain ⟨id, w2, _, hpure⟩ := runs_ask_bind.mp hrest
      obtain ⟨heq, _⟩ := runs_run_pure.mp hpure
      cases heq
      exact ⟨rfl, ⟨id, rfl⟩, rfl, rfl, rfl, oracle, hallowed, hclock.symm⟩

/-- A directory that is ensured is there, and private. -/
theorem ensurePrivateDirectory_ok {path : FsPath}
    (h : (machine env allowed).Runs (ensurePrivateDirectory env path).run w (.ok ()) w') :
    ∃ attr, w'.fs.node path = some (.directory attr) ∧ attr.owner = env.uid ∧
      attr.mode &&& 0o077 = 0 := by
  obtain ⟨w1, hvalid⟩ := runs_validate_of_ensure h
  obtain ⟨hfs, hdirectory⟩ := validatePrivateDirectory_ok hvalid
  rwa [hfs]

/-- Renaming a directory takes its entries along. -/
theorem FileSystem.node_graft_below {fs : FileSystem} {source target rest : FsPath}
    (hgraft : fs.CanGraft source target) :
    (fs.graft source target).node (target ++ rest) = fs.node (source ++ rest) := by
  rw [FileSystem.node_graft hgraft, if_pos (List.prefix_append _ _), FileSystem.rebase,
    List.drop_left]

theorem may_createTemporaryDirectory_path {p : FsPath}
    (h : (machine env allowed).may .createTemporaryDirectory w (.ok p) w') :
    ∃ oracle, allowed oracle ∧ p = env.tempDir ++ [oracle.name] := by
  obtain ⟨oracle, w1, hallowed, _, hrespond, _⟩ := respond_of_may h
  refine ⟨oracle, hallowed, ?_⟩
  unfold respond at hrespond
  dsimp only at hrespond
  split at hrespond
  · cases congrArg Prod.fst hrespond
  · exact (Except.ok.inj (congrArg Prod.fst hrespond)).symm

end

end CodexVault
