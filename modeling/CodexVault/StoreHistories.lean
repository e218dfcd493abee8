import CodexVault.CataloguedCreations

/-!
# Histories of a store

A `History` is a sequence of calls on a store that was empty at first.  Each call ends,
well or badly, or its process dies on the way.  `History.kept` is the invariant: what
lies in the store is exactly the profiles whose creation took effect.
-/

namespace CodexVault

open ByteStrings Programs Contract

/-- A process dies: its locks are free again, its files stay. -/
def World.abandon (w : World) (process : Nat) : World :=
  { w with
    locked := fun path => (w.locked path).filter fun lock => decide (lock.process ≠ process) }

/-- The calls on a store. -/
inductive StoreCall where
  | addUser (username : String) (password : Bytes)
  | rotatePassword (username : String) (currentPassword newPassword : Bytes)
  | unlock (username : String) (password : Bytes)
  | close (vault : UnlockedVault)
  /-- A vault that is dropped without being closed. -/
  | drop (vault : UnlockedVault)

namespace StoreCall

/-- The call, and the vaults it leaves open. -/
def program (lib : Libraries) (env : Env) (store : VaultStore) :
    StoreCall → Prog Op Op.Reply (List UnlockedVault)
  | addUser username password => do
      let _ ← (store.addUser lib env username password).run
      return []
  | rotatePassword username currentPassword newPassword => do
      let _ ← (store.rotatePassword lib env username currentPassword newPassword).run
      return []
  | unlock username password => do
      match ← (store.unlock lib env username password).run with
      | .ok vault => return [vault]
      | .error _ => return []
  | close vault => do
      let _ ← (vault.close lib).run
      return []
  | drop vault => do
      let _ ← vault.drop
      return []

/-- The vault a call ends. -/
def vault? : StoreCall → Option UnlockedVault
  | close vault | drop vault => some vault
  | _ => none

/-- The vaults that are open besides the one the call ends. -/
inductive Takes (call : StoreCall) : List UnlockedVault → List UnlockedVault → Prop
  | nothing {vaults : List UnlockedVault} (hnone : call.vault? = none) : Takes call vaults vaults
  | vault {vault : UnlockedVault} {before after : List UnlockedVault}
      (hsome : call.vault? = some vault) : Takes call (before ++ vault :: after) (before ++ after)

/-- The usernames added so far, given the calls made by the present one: an `add_user`
counts once its rename onto the directory of the profile has taken effect. -/
def added (store : VaultStore) (call : StoreCall) (usernames : List String) (w : World) :
    List String :=
  match call with
  | addUser username _ =>
      if w.tookEffect (store.userRoot username) then usernames ++ [username] else usernames
  | _ => usernames

end StoreCall

/-- Sequences of calls on a store that was empty at first, by processes of one user:
the usernames whose creation took effect, the vaults that are open, and the machine. -/
inductive History (lib : Libraries) (allowed : Oracle → Prop) (store : VaultStore) (uid : UInt32) :
    List String → List UnlockedVault → World → Prop
  | start {w : World} (hempty : ∀ rest, rest ≠ [] → w.fs.node (store.root ++ rest) = none) :
      History lib allowed store uid [] [] w
  /-- A call that ends. -/
  | call {added : List String} {vaults rest opened : List UnlockedVault} {w w' : World}
      {env : Env} {call : StoreCall} (before : History lib allowed store uid added vaults w)
      (huid : env.uid = uid) (htakes : call.Takes vaults rest)
      (howner : ∀ vault, call.vault? = some vault → vault.lock.process = env.process)
      (hrun : (machine env allowed).Runs (call.program lib env store) w.begin opened w') :
      History lib allowed store uid (call.added store added w') (opened ++ rest) w'
  /-- A call in which the process dies, and with it all that it had open. -/
  | crash {added : List String} {vaults rest : List UnlockedVault} {w w' : World}
      {env : Env} {call : StoreCall} (before : History lib allowed store uid added vaults w)
      (huid : env.uid = uid) (htakes : call.Takes vaults rest)
      (howner : ∀ vault, call.vault? = some vault → vault.lock.process = env.process)
      (hcut : (machine env allowed).Cuts (call.program lib env store) w.begin w') :
      History lib allowed store uid (call.added store added w')
        (rest.filter fun vault => decide (vault.lock.process ≠ env.process))
        (w'.abandon env.process)

/-- The names in the users directory that are those of runtimes. -/
def VaultStore.occupiedBy (store : VaultStore) (vaults : List UnlockedVault) (name : String) :
    Prop :=
  ∃ vault ∈ vaults, vault.runtime = store.usersRoot ++ [name]

/-- **What a history keeps.** -/
structure VaultStore.Kept (lib : Libraries) (store : VaultStore) (uid : UInt32)
    (added : List String) (vaults : List UnlockedVault) (w : World) : Prop where
  catalogued : store.Catalogued lib uid added (store.occupiedBy vaults) w.fs
  opened : ∀ vault ∈ vaults, store.Opened lib added (fun _ => False) vault
  apart : vaults.Pairwise fun a b => ∀ name, a.runtime = store.usersRoot ++ [name] →
    b.runtime ≠ store.usersRoot ++ [name]

/-! ## Where a vault keeps its session -/

section

variable {lib : Libraries} {env : Env} {allowed : Oracle → Prop} {store : VaultStore}
    {w w' : World} {username : String} {password : Bytes}

/-- Unpacking leaves the destination itself. -/
theorem FileSystem.unpacked_destination {fs fs' : FileSystem} {destination rest : FsPath}
    {name : String} {entry : Unpacking} (hnode : fs.node destination ≠ none)
    (h : fs.unpacked env destination (name :: rest) entry = .ok fs') :
    fs'.node destination = fs.node destination := by
  have hne : destination ≠ destination ++ name :: rest := by
    intro heq
    have hlen := congrArg List.length heq
    simp at hlen
  unfold FileSystem.unpacked at h
  split at h
  · cases h
  · next fs1 hdirs =>
      have hmade := (FileSystem.makeDirectories_eq_ok hdirs).1 destination (.inl hnode)
      split at h
      · rw [FileSystem.unpackedDirectory_eq_ok h destination hne, hmade]
      · rw [FileSystem.unpackedFile_eq_ok h destination, if_neg hne, hmade]

theorem node_of_unpack {destination rest : FsPath} {name : String} {entry : Unpacking}
    {r : Except IoError Unit} (hnode : w.fs.node destination ≠ none)
    (h : (machine env allowed).may (.unpack destination (name :: rest) entry) w r w') :
    w'.fs.node destination = w.fs.node destination := by
  obtain ⟨oracle, w1, _, _, hrespond, rfl⟩ := respond_of_may h
  have hsame : (w.fs.partlyUnpacked env destination (name :: rest) entry oracle.progress).node
      destination = w.fs.node destination := by
    unfold FileSystem.partlyUnpacked
    split
    · next fs hfs => exact FileSystem.unpacked_destination hnode hfs
    · rfl
  have hkept : (respond env oracle w (.unpack destination (name :: rest) entry)).2.fs.node
      destination = w.fs.node destination := by
    unfold respond
    dsimp only
    split
    · split
      · exact World.node_change hsame fun fs hfs => FileSystem.unpacked_destination hnode hfs
      · exact hsame
    · exact World.node_change hsame fun fs hfs => FileSystem.unpacked_destination hnode hfs
  rw [hrespond] at hkept
  exact hkept

/-- A runtime that is filled has a directory for the session. -/
theorem fillRuntime_ok {userRoot runtime : FsPath} {dataKey : Key}
    (h : (machine env allowed).Runs
      (VaultStore.fillRuntime lib env userRoot runtime dataKey).run w (.ok ()) w') :
    w'.fs.node (runtime ++ ["codex-home"]) ≠ none := by
  obtain ⟨_, w1, hhome, hunseal⟩ := runs_ok_bind.mp h
  obtain ⟨attr, hattr, _⟩ := ensurePrivateDirectory_ok hhome
  have hnode : w1.fs.node (runtime ++ ["codex-home"]) ≠ none := by
    rw [hattr]
    exact Option.some_ne_none _
  have hcalls : Uses (fun op => op.ReadOnly env ∨ ∃ name rest entry,
      op = .unpack (runtime ++ ["codex-home"]) (name :: rest) entry)
      (unsealDirectory lib env (userRoot ++ ["state.cvlt"]) (runtime ++ ["codex-home"])
        dataKey).run :=
    uses_unsealDirectory (.inl fun _ _ h => h) (.inl fun _ _ h => h)
      fun name rest entry => .inr ⟨name, rest, entry, rfl⟩
  refine cuts_of_uses (I := fun t : World => t.fs.node (runtime ++ ["codex-home"]) ≠ none) ?_
    hcalls hnode (cuts_of_runs hunseal)
  rintro op s r t (hreadOnly | ⟨name, rest, entry, rfl⟩) hs hmay
  · rwa [node_of_may hmay (hreadOnly _ _)]
  · rwa [node_of_unpack hs hmay]

/-- **A vault that is unlocked** has a directory for its session. -/
theorem unlock_home {vault : UnlockedVault}
    (h : (machine env allowed).Runs (store.unlock lib env username password).run w (.ok vault) w') :
    w'.fs.node vault.codexHome ≠ none := by
  obtain ⟨_, w1, _, hrest⟩ := runs_ok_bind.mp h
  obtain ⟨lock, w2, _, hrest⟩ := runs_ok_bind.mp hrest
  have hopen := runs_onError_ok.mp hrest
  obtain ⟨manifest, w3, _, hrest⟩ := runs_ok_bind.mp hopen
  obtain ⟨_, w4, _, hrest⟩ := runs_ok_bind.mp hrest
  obtain ⟨dataKey, w5, _, hrest⟩ := runs_ok_bind.mp hrest
  obtain ⟨root, w6, _, hrest⟩ := runs_ok_bind.mp hrest
  obtain ⟨name, w7, _, hrest⟩ := runs_ok_bind.mp hrest
  obtain ⟨_, w8, _, hrest⟩ := runs_ok_bind.mp hrest
  obtain ⟨_, w9, hfill, hpure⟩ := runs_ok_bind.mp hrest
  obtain ⟨heq, rfl⟩ := runs_run_pure.mp hpure
  cases heq
  exact fillRuntime_ok (runs_onError_ok.mp hfill)

end

/-! ## What one call does -/

section

variable {lib : Libraries} {env : Env} {allowed : Oracle → Prop} {store : VaultStore}
    {uid : UInt32} {added added' : List String} {occupied : String → Prop}
    {vaults rest : List UnlockedVault} {vault : UnlockedVault} {call : StoreCall} {w w' : World}

/-- What holds of each step of a program of the store, wherever it is cut off. -/
theorem catalogued_of_holds {α : Type} {p : Prog Op Op.Reply α} {Q : α → World → Prop}
    {process : Nat}
    (hp : (machine env allowed).Holds (store.relies lib uid added occupied process)
      (store.grants lib uid added occupied process) p Q w)
    (hw : store.Catalogued lib uid added occupied w.fs) (hcut : (machine env allowed).Cuts p w w') :
    store.Catalogued lib uid added occupied w'.fs :=
  cuts_of_holds (I := fun t : World => store.Catalogued lib uid added occupied t.fs)
    (fun _ hs => ⟨hs, .refl⟩) (fun _ _ hs hguar => (hguar hs).1) hp hw hcut

/-- The second part of a call only passes on its result. -/
theorem cuts_of_bind_pure {α β : Type} {p : Prog Op Op.Reply α} {f : α → β}
    (hcut : (machine env allowed).Cuts (p >>= fun a => pure (f a)) w w') :
    (machine env allowed).Cuts p w w' := by
  rcases cuts_bind hcut with hcut | ⟨a, t, hruns, hcut⟩
  · exact hcut
  · have hcut : w' = t := hcut
    exact hcut ▸ cuts_of_runs hruns

/-- **A call keeps the catalogue**, wherever it is cut off. -/
theorem StoreCall.catalogued (A : LawfulAead) (hA : lib.aead = A.toAead) (laws : TextLaws lib)
    (names : UuidNames lib) (sane : Sane allowed) (huid : env.uid = uid)
    (hw : store.Catalogued lib uid added occupied w.fs) (hbegin : w.history = [])
    (hvault : ∀ vault, call.vault? = some vault →
      store.Opened lib added occupied vault ∧ vault.lock.process = env.process)
    (hcut : (machine env allowed).Cuts (call.program lib env store) w w') :
    store.Catalogued lib uid (call.added store added w') occupied w'.fs := by
  cases call with
  | addUser username password =>
      have hstart : store.Stage lib uid added occupied (store.userRoot username) false w := by
        refine ⟨hw, ?_⟩
        unfold World.tookEffect
        rw [hbegin]
        rfl
      rcases addUser_stage A hA laws sane huid hstart (cuts_of_bind_pure hcut) with hend | hend
      · simp only [StoreCall.added, hend.effect, Bool.false_eq_true, if_false]
        exact hend.catalogued
      · simp only [StoreCall.added, hend.effect, if_true]
        exact hend.catalogued
  | rotatePassword username current new =>
      exact catalogued_of_holds (rotatePassword_keeps A hA laws huid hw) hw (cuts_of_bind_pure hcut)
  | unlock username password =>
      rcases cuts_bind hcut with hcut | ⟨r, t, hruns, hcut⟩
      · exact catalogued_of_holds (unlock_keeps names huid hw) hw hcut
      · have ht := catalogued_of_holds (unlock_keeps names huid hw) hw (cuts_of_runs hruns)
        cases r with
        | ok vault =>
            have hcut : w' = t := hcut
            exact hcut ▸ ht
        | error e =>
            have hcut : w' = t := hcut
            exact hcut ▸ ht
  | close vault =>
      obtain ⟨hopened, hlock⟩ := hvault vault rfl
      exact catalogued_of_holds (close_keeps names hopened hlock hw) hw (cuts_of_bind_pure hcut)
  | drop vault =>
      obtain ⟨hopened, hlock⟩ := hvault vault rfl
      exact catalogued_of_holds (drop_keeps names hopened hlock hw) hw (cuts_of_bind_pure hcut)

/-- The vaults a call leaves open: none, or one with a runtime of its own. -/
theorem StoreCall.opened (names : UuidNames lib) (huid : env.uid = uid)
    (hw : store.Catalogued lib uid added occupied w.fs) {opened : List UnlockedVault}
    (hrun : (machine env allowed).Runs (call.program lib env store) w opened w') :
    opened = [] ∨ ∃ vault, opened = [vault] ∧ store.Opened lib added occupied vault ∧
      w'.fs.node vault.codexHome ≠ none ∧ call.added store added w' = added := by
  cases call with
  | unlock username password =>
      obtain ⟨r, t, hunlock, hpure⟩ := runs_bind.mp hrun
      have hpost := runs_of_holds (fun _ hs => ⟨hs, .refl⟩)
        (unlock_keeps names huid hw) hunlock
      cases r with
      | error e =>
          obtain ⟨rfl, _⟩ := hpure
          exact .inl rfl
      | ok vault =>
          obtain ⟨rfl, rfl⟩ := hpure
          exact .inr ⟨vault, rfl, hpost.2.1, unlock_home hunlock, rfl⟩
  | addUser username password =>
      obtain ⟨_, _, _, rfl, _⟩ := runs_bind.mp hrun
      exact .inl rfl
  | rotatePassword username current new =>
      obtain ⟨_, _, _, rfl, _⟩ := runs_bind.mp hrun
      exact .inl rfl
  | close vault =>
      obtain ⟨_, _, _, rfl, _⟩ := runs_bind.mp hrun
      exact .inl rfl
  | drop vault =>
      obtain ⟨_, _, _, rfl, _⟩ := runs_bind.mp hrun
      exact .inl rfl

/-! ## What a history keeps -/

theorem VaultStore.Kept.start
    (hempty : ∀ rest, rest ≠ [] → w.fs.node (store.root ++ rest) = none) :
    store.Kept lib uid [] [] w := by
  have hbelow : ∀ rest, w.fs.node (store.usersRoot ++ rest) = none := by
    intro rest
    unfold VaultStore.usersRoot
    rw [List.append_assoc]
    exact hempty _ (List.append_ne_nil_of_left_ne_nil (List.cons_ne_nil _ _) _)
  have hnobody : ∀ name, ¬ store.occupiedBy [] name := by
    rintro name ⟨vault, hvault, _⟩
    cases hvault
  refine ⟨⟨fun _ h => absurd h List.not_mem_nil, List.nodup_nil, fun name _ _ hfile => ?_,
    fun h => absurd rfl h, .inl ?_, fun name hname => absurd hname (hnobody name),
    fun name hname => absurd hname (hnobody name), fun name hname => absurd hname (hnobody name)⟩,
    fun _ h => absurd h List.not_mem_nil, List.Pairwise.nil⟩
  · obtain ⟨_, _, _, hnode⟩ := hfile
    rw [hbelow] at hnode
    cases hnode
  · have husers := hbelow []
    rwa [List.append_nil] at husers

theorem VaultStore.Kept.begin (h : store.Kept lib uid added vaults w) :
    store.Kept lib uid added vaults w.begin := ⟨h.catalogued, h.opened, h.apart⟩

/-- Fewer vaults. -/
theorem VaultStore.Kept.sublist (h : store.Kept lib uid added vaults w)
    (hsub : rest.Sublist vaults) : store.Kept lib uid added rest w :=
  ⟨h.catalogued.vacate fun _ ⟨vault, hvault, hruntime⟩ => ⟨vault, hsub.subset hvault, hruntime⟩,
    fun vault hvault => h.opened vault (hsub.subset hvault), h.apart.sublist hsub⟩

/-- The vault that a call ends is open, and its runtime is none of the others'. -/
theorem VaultStore.Kept.takes (h : store.Kept lib uid added vaults w)
    (htakes : call.Takes vaults rest) :
    store.Kept lib uid added rest w ∧ ∀ vault, call.vault? = some vault →
      store.Opened lib added (store.occupiedBy rest) vault := by
  cases htakes with
  | nothing hnone =>
      refine ⟨h, fun vault hvault => ?_⟩
      rw [hnone] at hvault
      cases hvault
  | @vault vault before after hsome =>
      have hsub : (before ++ after).Sublist (before ++ vault :: after) :=
        (List.sublist_cons_self vault after).append_left before
      refine ⟨h.sublist hsub, fun other hother => ?_⟩
      rw [hsome] at hother
      cases hother
      obtain ⟨hprofile, hhome, hruntime, hbelow, hprofiles, _⟩ :=
        h.opened vault (List.mem_append_right _ List.mem_cons_self)
      refine ⟨hprofile, hhome, hruntime, hbelow, hprofiles, ?_⟩
      rintro name ⟨other, hother, hname⟩ hsame
      have hapart := (List.pairwise_middle fun h name hy hx => h name hx hy).mp h.apart
      exact List.rel_of_pairwise_cons hapart hother name hsame hname

/-- The profiles of the catalogue are not where the open vaults have their runtimes. -/
theorem opened_of_catalogued
    (hw : store.Catalogued lib uid added' (store.occupiedBy vaults) w.fs) (hmem : vault ∈ vaults)
    (h : store.Opened lib added occupied vault) :
    store.Opened lib added' (fun _ => False) vault := by
  refine ⟨h.profile, h.home, h.runtime, h.below, fun u hu heq => ?_, fun _ hfalse => hfalse.elim⟩
  exact hw.apart _ ⟨vault, hmem, heq⟩ (List.mem_map.mpr ⟨u, hu, rfl⟩)

/-- **After a call that has ended.** -/
theorem VaultStore.Kept.ended {opened : List UnlockedVault} (A : LawfulAead)
    (hA : lib.aead = A.toAead) (laws : TextLaws lib) (names : UuidNames lib) (sane : Sane allowed)
    (huid : env.uid = uid) (h : store.Kept lib uid added rest w) (hbegin : w.history = [])
    (hvault : ∀ vault, call.vault? = some vault →
      store.Opened lib added (store.occupiedBy rest) vault ∧ vault.lock.process = env.process)
    (hrun : (machine env allowed).Runs (call.program lib env store) w opened w') :
    store.Kept lib uid (call.added store added w') (opened ++ rest) w' := by
  have hw' := StoreCall.catalogued A hA laws names sane huid h.catalogued hbegin hvault
    (cuts_of_runs hrun)
  rcases StoreCall.opened names huid h.catalogued hrun with
    rfl | ⟨vault, rfl, hopened, hhome, hsame⟩
  · exact ⟨hw', fun vault hmem => opened_of_catalogued hw' hmem (h.opened vault hmem), h.apart⟩
  · rw [hsame] at hw' ⊢
    have hnew : ∀ name, vault.runtime = store.usersRoot ++ [name] →
        ¬ store.occupiedBy rest name := fun name heq hocc => hopened.others name hocc heq
    refine ⟨?_, ?_, ?_⟩
    · refine ⟨hw'.profiles, hw'.distinct, hw'.others, hw'.root, hw'.users, ?_, ?_, ?_⟩
      · rintro name ⟨other, hmem, hruntime⟩
        rcases List.mem_cons.mp hmem with rfl | hmem
        · rw [hopened.home, hruntime, List.append_assoc] at hhome
          exact hhome
        · exact hw'.homes name ⟨other, hmem, hruntime⟩
      · rintro name ⟨other, hmem, hruntime⟩
        rcases List.mem_cons.mp hmem with rfl | hmem
        · obtain ⟨root, id, hid⟩ := hopened.runtime
          rw [hid] at hruntime
          obtain ⟨_, hlast⟩ := List.append_inj' hruntime rfl
          exact List.singleton_inj.mp hlast ▸ names.undotted
        · exact hw'.undotted name ⟨other, hmem, hruntime⟩
      · rintro name ⟨other, hmem, hruntime⟩ hadded
        rcases List.mem_cons.mp hmem with rfl | hmem
        · obtain ⟨u, hu, rfl⟩ := List.mem_map.mp hadded
          exact hopened.profiles u hu hruntime
        · exact hw'.apart name ⟨other, hmem, hruntime⟩ hadded
    · intro other hmem
      rcases List.mem_cons.mp hmem with rfl | hmem
      · exact ⟨hopened.profile, hopened.home, hopened.runtime, hopened.below, hopened.profiles,
          fun _ hfalse => hfalse.elim⟩
      · exact h.opened other hmem
    · refine List.pairwise_cons.mpr ⟨fun other hmem name hname hother => ?_, h.apart⟩
      exact hnew name hname ⟨other, hmem, hother⟩

/-- **After a crash.** -/
theorem VaultStore.Kept.cutOff (A : LawfulAead) (hA : lib.aead = A.toAead) (laws : TextLaws lib)
    (names : UuidNames lib) (sane : Sane allowed) (huid : env.uid = uid)
    (h : store.Kept lib uid added rest w) (hbegin : w.history = [])
    (hvault : ∀ vault, call.vault? = some vault →
      store.Opened lib added (store.occupiedBy rest) vault ∧ vault.lock.process = env.process)
    (hcut : (machine env allowed).Cuts (call.program lib env store) w w') :
    store.Kept lib uid (call.added store added w')
      (rest.filter fun vault => decide (vault.lock.process ≠ env.process))
      (w'.abandon env.process) := by
  have hw' := StoreCall.catalogued A hA laws names sane huid h.catalogued hbegin hvault hcut
  have hkept : store.Kept lib uid (call.added store added w') rest w' :=
    ⟨hw', fun vault hmem => opened_of_catalogued hw' hmem (h.opened vault hmem), h.apart⟩
  obtain ⟨hcatalogued, hopened, hapart⟩ := hkept.sublist List.filter_sublist
  exact ⟨hcatalogued, hopened, hapart⟩

/-- **Every history** keeps the catalogue of the profiles that were created in it. -/
theorem History.kept (A : LawfulAead) (hA : lib.aead = A.toAead) (laws : TextLaws lib)
    (names : UuidNames lib) (sane : Sane allowed)
    (h : History lib allowed store uid added vaults w) : store.Kept lib uid added vaults w := by
  induction h with
  | start hempty => exact .start hempty
  | call before huid htakes howner hrun ih =>
      obtain ⟨hrest, hvault⟩ := ih.takes htakes
      exact hrest.begin.ended A hA laws names sane huid rfl
        (fun vault hsome => ⟨hvault vault hsome, howner vault hsome⟩) hrun
  | crash before huid htakes howner hcut ih =>
      obtain ⟨hrest, hvault⟩ := ih.takes htakes
      exact hrest.begin.cutOff A hA laws names sane huid rfl
        (fun vault hsome => ⟨hvault vault hsome, howner vault hsome⟩) hcut

end

end CodexVault
