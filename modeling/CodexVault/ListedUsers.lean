import CodexVault.StoreHistories

/-!
# The list of the users

`list_users` runs among rotations, unlocks and closes of any number of processes, on a
store that any history has left.  `list_users_exact` says what it returns: only
usernames whose creation took effect, in ascending order and each once, and all of
them unless one of its own calls fails.
-/

namespace CodexVault

open ByteStrings Programs Contract

/-- In ascending order of their bytes, each once. -/
def Ascending (users : List String) : Prop :=
  users.Pairwise fun a b => textBytes a < textBytes b

section

variable {lib : Libraries} {store : VaultStore} {uid : UInt32} {added : List String}
    {occupied : String → Prop} {env : Env} {allowed : Oracle → Prop} {w : World} {α : Type}
    {rely guar : World → World → Prop} {path : FsPath}

/-! ## Looking at the store's directories -/

/-- The directory is there and private as soon as there is a profile. -/
def VaultStore.PrivateInUse (lib : Libraries) (store : VaultStore) (uid : UInt32)
    (added : List String) (occupied : String → Prop) (path : FsPath) : Prop :=
  ∀ fs, store.Catalogued lib uid added occupied fs → added ≠ [] →
    ∃ attr, fs.node path = some (.directory attr) ∧ attr.owner = uid ∧ attr.mode &&& 0o077 = 0

theorem VaultStore.Catalogued.usersRoot_node {fs : FileSystem}
    (h : store.Catalogued lib uid added occupied fs) (hadded : added ≠ []) :
    fs.node store.usersRoot = some (.directory { owner := uid, mode := 0o700 }) := by
  obtain ⟨u, hu⟩ := List.exists_mem_of_ne_nil added hadded
  obtain ⟨attr, hattr⟩ := FileSystem.isDirectory_iff.mp (h.profiles u hu).users
  rcases h.users with hnone | hnode
  · rw [hnone] at hattr
    cases hattr
  · exact hnode

theorem privateInUse_root : store.PrivateInUse lib uid added occupied store.root :=
  fun _ h hadded => h.root hadded

theorem privateInUse_usersRoot : store.PrivateInUse lib uid added occupied store.usersRoot :=
  fun _ h hadded => ⟨_, h.usersRoot_node hadded, rfl, show (0o700 : Nat) &&& 0o077 = 0 by decide⟩

/-- Calls that suit everybody. -/
theorem VaultStore.ReadsAmong.uses {p : Io α}
    (h : store.ReadsAmong lib uid added occupied env allowed rely guar)
    (hp : Uses (fun op => ∀ process, store.Gentle lib uid added occupied env allowed process op)
      p.run)
    (hw : store.Catalogued lib uid added occupied w.fs) :
    (machine env allowed).HoldsE rely guar p
      (fun _ t => store.Catalogued lib uid added occupied t.fs)
      (fun _ t => store.Catalogued lib uid added occupied t.fs) w :=
  holdsE_of_uses (I := fun t : World => store.Catalogued lib uid added occupied t.fs)
    (fun _ _ hs hrely => h.relied hs hrely) (fun _ _ _ _ hop hs hmay => h.step hs hop hmay) hp hw

/-- A directory in use is seen, when nothing fails. -/
theorem lstat_holds (h : store.ReadsAmong lib uid added occupied env allowed rely guar)
    (hpath : store.PrivateInUse lib uid added occupied path)
    (hw : store.Catalogued lib uid added occupied w.fs) :
    (machine env allowed).HoldsE rely guar (sys (request (.lstat path)))
      (fun status t => store.Catalogued lib uid added occupied t.fs ∧
        ((∀ oracle, allowed oracle → oracle.Quiet) → added ≠ [] →
          status.isDir = true ∧ status.uid = uid ∧ status.mode &&& 0o077 = 0))
      (fun _ t => store.Catalogued lib uid added occupied t.fs ∧
        ((∀ oracle, allowed oracle → oracle.Quiet) → added = [])) w := by
  apply holdsE_mapError
  intro s hs r t hmay
  have hs := h.relied hw hs
  obtain ⟨hguar, ht⟩ := h.step hs (fun _ => gentle_lstat) hmay
  refine ⟨hguar, ?_⟩
  have hseen : (∀ oracle, allowed oracle → oracle.Quiet) → added ≠ [] → ∃ attr,
      r = .ok (Node.directory attr).status ∧ attr.owner = uid ∧ attr.mode &&& 0o077 = 0 := by
    intro hall hadded
    obtain ⟨attr, hnode, hprivate⟩ := hpath s.fs hs hadded
    exact ⟨attr, (may_lstat_quiet hnode (may_of_quiet hall hmay)).1, hprivate⟩
  cases r with
  | error e =>
      refine ⟨ht, fun hall => ?_⟩
      by_contra hadded
      obtain ⟨_, heq, _⟩ := hseen hall hadded
      cases heq
  | ok status =>
      refine ⟨ht, fun hall hadded => ?_⟩
      obtain ⟨attr, heq, howner, hmode⟩ := hseen hall hadded
      cases heq
      exact ⟨rfl, howner, hmode⟩

theorem validatePrivateDirectory_holds
    (h : store.ReadsAmong lib uid added occupied env allowed rely guar) (huid : env.uid = uid)
    (hpath : store.PrivateInUse lib uid added occupied path)
    (hw : store.Catalogued lib uid added occupied w.fs) :
    (machine env allowed).HoldsE rely guar (validatePrivateDirectory env path)
      (fun _ t => store.Catalogued lib uid added occupied t.fs)
      (fun _ t => store.Catalogued lib uid added occupied t.fs ∧
        ((∀ oracle, allowed oracle → oracle.Quiet) → added = [])) w := by
  apply holdsE_bind
  apply holdsE_mono (lstat_holds h hpath hw) _ fun _ _ ht => ht
  rintro status t ⟨ht, hseen⟩
  refine holdsE_ofExcept (fun _ _ => ht) fun e he => ⟨ht, fun hall => ?_⟩
  by_contra hadded
  obtain ⟨hdir, howner, hmode⟩ := hseen hall hadded
  unfold checkPrivateDirectory at he
  rw [if_neg (by simp [hdir]), if_neg] at he
  · cases he
  · rintro (hother | hopen)
    · exact hother (howner.trans huid.symm)
    · exact hopen hmode

/-- **A directory in use is accepted**, when nothing fails. -/
theorem ensurePrivateDirectory_holds
    (h : store.ReadsAmong lib uid added occupied env allowed rely guar) (huid : env.uid = uid)
    (hpath : store.PrivateInUse lib uid added occupied path)
    (hw : store.Catalogued lib uid added occupied w.fs) :
    (machine env allowed).HoldsE rely guar (ensurePrivateDirectory env path)
      (fun _ t => store.Catalogued lib uid added occupied t.fs)
      (fun _ t => store.Catalogued lib uid added occupied t.fs ∧
        ((∀ oracle, allowed oracle → oracle.Quiet) → added = [])) w := by
  apply holdsE_bind
  apply holdsE_attempt
  apply holdsE_mono (lstat_holds h hpath hw)
  · rintro status t ⟨ht, _⟩
    exact validatePrivateDirectory_holds h huid hpath ht
  · rintro e t ⟨ht, hunused⟩
    cases e with
    | io error =>
        change (machine env allowed).HoldsE _ _ (if error.kind = .notFound then do
          sys (request (.createDirectories path))
          validatePrivateDirectory env path
          else throw (.io error)) _ _ t
        split
        · have hmake : Uses (fun op => ∀ process,
              store.Gentle lib uid added occupied env allowed process op)
              (do sys (request (.createDirectories path))
                  validatePrivateDirectory env path : Io Unit).run :=
            uses_run_bind (uses_sys (uses_request fun _ => gentle_createDirectories huid)) fun _ =>
              uses_validatePrivateDirectory fun _ => gentle_lstat
          exact holdsE_mono (h.uses hmake ht) (fun _ _ hu => hu) fun _ _ hu => ⟨hu, hunused⟩
        · exact ⟨ht, hunused⟩
    | _ => exact ⟨ht, hunused⟩

theorem initializeStore_holds
    (h : store.ReadsAmong lib uid added occupied env allowed rely guar) (huid : env.uid = uid)
    (hw : store.Catalogued lib uid added occupied w.fs) :
    (machine env allowed).HoldsE rely guar (store.initializeStore env)
      (fun _ t => store.Catalogued lib uid added occupied t.fs)
      (fun _ t => store.Catalogued lib uid added occupied t.fs ∧
        ((∀ oracle, allowed oracle → oracle.Quiet) → added = [])) w := by
  apply holdsE_bind
  apply holdsE_mono (ensurePrivateDirectory_holds h huid privateInUse_root hw) _ fun _ _ ht => ht
  intro _ t ht
  exact ensurePrivateDirectory_holds h huid privateInUse_usersRoot ht

/-! ## Reading the manifests -/

theorem listingCall_holds {p : Io α} {Q : α → World → Prop} {E : VaultError → World → Prop}
    (hp : (machine env allowed).HoldsE rely guar p Q E w) :
    (listing env allowed).HoldsE rely guar (listingCall p) Q E w :=
  holds_listingOf hp

/-- What the manifests of some entries give. -/
structure Collected (allowed : Oracle → Prop) (added : List String) (entries : List DirEntry)
    (users : List String) : Prop where
  names : (users.map toAsciiLowercase).Sublist (entries.map DirEntry.name)
  known : ∀ user ∈ users, user ∈ added
  complete : (∀ oracle, allowed oracle → oracle.Quiet) → ∀ entry ∈ entries, entry.isDir = true →
    entry.name ∈ added.map toAsciiLowercase → entry.name ∈ users.map toAsciiLowercase

/-- An entry is passed over that is no profile, or when nothing else fails. -/
theorem Collected.skip {entry : DirEntry} {entries : List DirEntry} {users : List String}
    (h : Collected allowed added entries users)
    (hskip : (∀ oracle, allowed oracle → oracle.Quiet) → entry.isDir = true →
      entry.name ∉ added.map toAsciiLowercase) :
    Collected allowed added (entry :: entries) users := by
  refine ⟨h.names.cons _, h.known, fun hall other hother hdir hmem => ?_⟩
  rcases List.mem_cons.mp hother with rfl | hother
  · exact absurd hmem (hskip hall hdir)
  · exact h.complete hall other hother hdir hmem

theorem Collected.keep {entry : DirEntry} {entries : List DirEntry} {users : List String}
    {user : String} (h : Collected allowed added entries users) (huser : user ∈ added)
    (hname : toAsciiLowercase user = entry.name) :
    Collected allowed added (entry :: entries) (user :: users) := by
  refine ⟨?_, fun other hother => ?_, fun hall other hother hdir hmem => ?_⟩
  · rw [List.map_cons, List.map_cons, hname]
    exact h.names.cons_cons _
  · rcases List.mem_cons.mp hother with rfl | hother
    · exact huser
    · exact h.known other hother
  · rw [List.map_cons, hname]
    rcases List.mem_cons.mp hother with rfl | hother
    · exact List.mem_cons_self
    · exact List.mem_cons_of_mem _ (h.complete hall other hother hdir hmem)

/-- **The loop of a listing**, over the entries it was given. -/
theorem collectUsers_holds (h : store.ReadsAmong lib uid added occupied env allowed rely guar)
    (huid : env.uid = uid) (entries : List DirEntry)
    (hw : store.Catalogued lib uid added occupied w.fs) :
    (listing env allowed).HoldsE rely guar (store.collectUsers lib env entries)
      (fun users _ => Collected allowed added entries users) (fun _ _ => False) w := by
  induction entries generalizing w with
  | nil =>
      exact ⟨List.Sublist.slnil, fun _ h => absurd h List.not_mem_nil,
        fun _ _ h => absurd h List.not_mem_nil⟩
  | cons entry rest ih =>
      unfold VaultStore.collectUsers
      split
      · next hskip =>
          apply holdsE_mono (ih hw) _ fun _ _ ht => ht
          refine fun users _ husers => husers.skip fun _ hdir hmem => ?_
          obtain ⟨u, hu, hlower⟩ := List.mem_map.mp hmem
          rcases hskip with hfile | hdot
          · rw [hdir] at hfile
            cases hfile
          · exact (hw.profiles u hu).undotted (hlower ▸ hdot)
      · next hkeep =>
          obtain ⟨_, hname⟩ := not_or.mp hkeep
          apply holdsE_bind
          apply holdsE_attempt
          apply holdsE_mono (listingCall_holds (readManifest_holds h huid hname hw))
          · rintro m t ⟨ht, hmem, hlower, _⟩
            apply holdsE_bind
            apply holdsE_mono (ih ht) _ fun _ _ hu => hu
            exact fun users _ husers => husers.keep hmem hlower
          · rintro e t ⟨ht, hmissed⟩
            apply holdsE_mono (ih ht) _ fun _ _ hu => hu
            exact fun users _ husers => husers.skip fun hall _ => hmissed hall

/-! ## The listing -/

/-- What a listing may return. -/
def ListedOf (allowed : Oracle → Prop) (added : List String) :
    Except VaultError (List String) → Prop
  | .ok users => Ascending users ∧ (∀ user ∈ users, user ∈ added) ∧
      ((∀ oracle, allowed oracle → oracle.Quiet) → users.Perm added)
  | .error _ => (∀ oracle, allowed oracle → oracle.Quiet) → added = []

/-- The users of the entries, when the entries are those of all profiles. -/
theorem Collected.listed {entries : List DirEntry} {users : List String}
    (h : Collected allowed added entries users) (hdistinct : (added.map toAsciiLowercase).Nodup)
    (hnodup : (entries.map DirEntry.name).Nodup)
    (hmet : (∀ oracle, allowed oracle → oracle.Quiet) → ∀ user ∈ added,
      ∃ entry ∈ entries, entry.name = toAsciiLowercase user ∧ entry.isDir = true) :
    ListedOf allowed added (.ok (sortUnstable users)) := by
  have husers : users.Nodup := (h.names.nodup hnodup).of_map _
  refine ⟨sortUnstable_ascending husers, fun user huser => ?_, fun hall => ?_⟩
  · exact h.known user ((sortUnstable_perm users).mem_iff.mp huser)
  · refine (sortUnstable_perm users).trans ?_
    refine (List.perm_ext_iff_of_nodup husers (hdistinct.of_map _)).mpr fun user => ?_
    refine ⟨h.known user, fun huser => ?_⟩
    obtain ⟨entry, hentry, hname, hdir⟩ := hmet hall user huser
    have hmem := h.complete hall entry hentry hdir
      (hname ▸ List.mem_map.mpr ⟨user, huser, rfl⟩)
    rw [hname] at hmem
    obtain ⟨other, hother, hlower⟩ := List.mem_map.mp hmem
    have hsame := List.inj_on_of_nodup_map hdistinct (h.known other hother) huser hlower
    exact hsame ▸ hother

/-- The directories of the profiles are there. -/
theorem VaultStore.Catalogued.entry {fs : FileSystem} {user : String}
    (h : store.Catalogued lib uid added occupied fs) (huser : user ∈ added) :
    ∃ attr, fs.node (store.usersRoot ++ [toAsciiLowercase user]) = some (.directory attr) :=
  FileSystem.isDirectory_iff.mp (h.profiles user huser).isDirectory

/-- The users directory can be opened, when nothing fails. -/
theorem openEntries_holds (h : store.ReadsAmong lib uid added occupied env allowed rely guar)
    (hself : ∀ s, store.Catalogued lib uid added occupied s.fs → guar s s) (huid : env.uid = uid)
    (hw : store.Catalogued lib uid added occupied w.fs) :
    (listing env allowed).HoldsE rely guar
      (Prog.mapError VaultError.io (Prog.fallible (listingRequest (.openEntries store.usersRoot))))
      (fun opened t => store.Catalogued lib uid added occupied t.fs ∧
        ∀ user ∈ added, toAsciiLowercase user ∈ opened)
      (fun _ _ => (∀ oracle, allowed oracle → oracle.Quiet) → added = []) w := by
  apply holdsE_mapError
  intro s hs r t hmay
  have hs := h.relied hw hs
  obtain ⟨hsame, oracle, hallowed, hreply⟩ := hmay
  rw [hsame]
  refine ⟨hself s hs, ?_⟩
  have hreadable : added ≠ [] → ∃ fs, s.fs.directoryReadable env store.usersRoot = .ok fs := by
    intro hadded
    have hpermits : env.permits { owner := uid, mode := 0o700 } 0o400 store.usersRoot = true := by
      simp [Env.permits, huid]
    refine ⟨s.fs, ?_⟩
    unfold FileSystem.directoryReadable
    rw [hs.usersRoot_node hadded]
    exact if_pos hpermits
  cases hfault : oracle.fault with
  | some kind =>
      rw [hfault] at hreply
      have hreply : r = .error (.os kind) := hreply
      rw [hreply]
      intro hall
      have hquiet := (hall oracle hallowed).fault
      rw [hfault] at hquiet
      cases hquiet
  | none =>
      rw [hfault] at hreply
      cases hopen : s.fs.directoryReadable env store.usersRoot with
      | error kind =>
          rw [hopen] at hreply
          have hreply : r = .error (.os kind) := hreply
          rw [hreply]
          intro _
          by_contra hadded
          obtain ⟨fs, hfs⟩ := hreadable hadded
          rw [hopen] at hfs
          cases hfs
      | ok fs =>
          rw [hopen] at hreply
          obtain ⟨opened, hreply, hnames⟩ := hreply
          rw [hreply]
          refine ⟨hs, fun user huser => hnames _ ?_⟩
          obtain ⟨attr, hattr⟩ := hs.entry huser
          rw [hattr]
          exact Option.some_ne_none _

/-- **A listing** of the profiles that are there all along. -/
theorem listUsers_holds (h : store.ReadsAmong lib uid added occupied env allowed rely guar)
    (hself : ∀ s, store.Catalogued lib uid added occupied s.fs → guar s s) (huid : env.uid = uid)
    (hw : store.Catalogued lib uid added occupied w.fs) :
    (listing env allowed).Holds rely guar (store.listUsers lib env).run
      (fun r _ => ListedOf allowed added r) w := by
  suffices hE : (listing env allowed).HoldsE rely guar (store.listUsers lib env)
      (fun users _ => ListedOf allowed added (.ok users))
      (fun _ _ => (∀ oracle, allowed oracle → oracle.Quiet) → added = []) w by
    refine holds_mono hE fun r _ hr => ?_
    cases r with
    | error e => exact hr
    | ok users => exact hr
  apply holdsE_bind
  apply holdsE_mono (listingCall_holds (initializeStore_holds h huid hw)) _ fun _ _ ht => ht.2
  intro _ t ht
  apply holdsE_bind
  apply holdsE_mono (openEntries_holds h hself huid ht) _ fun _ _ hu => hu
  rintro opened u ⟨hu, hopened⟩
  apply holdsE_bind
  apply holdsE_lift
  intro s hs r v hmay
  have hs := h.relied hu hs
  obtain ⟨hsame, oracle, hallowed, entries, hmeets, hreply⟩ := hmay
  rw [hsame]
  refine ⟨hself s hs, ?_⟩
  have hmet : ∀ user ∈ added,
      ∃ entry ∈ entries, entry.name = toAsciiLowercase user ∧ entry.isDir = true := by
    intro user huser
    obtain ⟨attr, hattr⟩ := hs.entry huser
    have hthere : s.fs.node (store.usersRoot ++ [toAsciiLowercase user]) ≠ none := by
      rw [hattr]
      exact Option.some_ne_none _
    have hmem := hmeets.complete _ (hopened user huser) hthere
    obtain ⟨entry, hentry, hname⟩ := List.mem_map.mp hmem
    refine ⟨entry, hentry, hname, ?_⟩
    rw [← hname] at hattr
    rw [hmeets.current entry hentry _ hattr]
    rfl
  cases hfault : oracle.fault with
  | some kind =>
      rw [hfault] at hreply
      have hreply : r = (entries.take oracle.progress, some (.os kind)) := hreply
      rw [hreply]
      apply holdsE_bind
      apply holdsE_mono (collectUsers_holds h huid _ hs) _ fun _ _ hfalse => hfalse.elim
      intro users _ _ hall
      have hquiet := (hall oracle hallowed).fault
      rw [hfault] at hquiet
      cases hquiet
  | none =>
      rw [hfault] at hreply
      have hreply : r = (entries, none) := hreply
      rw [hreply]
      apply holdsE_bind
      apply holdsE_mono (collectUsers_holds h huid _ hs) _ fun _ _ hfalse => hfalse.elim
      exact fun users _ husers => husers.listed hs.distinct hmeets.nodup fun _ => hmet

end

/-! ## The other processes -/

/-- A call on the profiles that are there. -/
def StoreCall.Shared : StoreCall → Prop
  | addUser _ _ => False
  | _ => True

/-- The processes beside a listing: each makes one call after the other, or dies. -/
def processes (lib : Libraries) (allowed : Oracle → Prop) (store : VaultStore) (envs : Nat → Env) :
    Members Nat Op Op.Reply World (List UnlockedVault) where
  contract i := machine (envs i) allowed
  again i vaults p := ∃ (call : StoreCall) (rest : List UnlockedVault),
    call.Shared ∧ call.Takes vaults rest ∧ p = (do
      let opened ← call.program lib (envs i) store
      return opened ++ rest)
  crash i w w' := w' = w.abandon i
  lost := []

/-- The processes with the vaults they have open, each about to make its next call. -/
def processesAt (w : World) (vaults : List UnlockedVault) :
    Pool Nat Op Op.Reply World (List UnlockedVault) where
  state := w
  program i := .ret (vaults.filter fun vault => decide (vault.lock.process = i))

section

variable {lib : Libraries} {store : VaultStore} {uid : UInt32} {added : List String}
    {occupied : String → Prop} {env : Env} {envs : Nat → Env} {allowed listed : Oracle → Prop}
    {vaults rest : List UnlockedVault} {call : StoreCall} {w : World}

/-- A vault of the process, with a runtime of its own. -/
abbrev VaultStore.OpenedBy (lib : Libraries) (store : VaultStore) (added : List String)
    (occupied : String → Prop) (process : Nat) (vault : UnlockedVault) : Prop :=
  store.Opened lib added occupied vault ∧ vault.lock.process = process

/-- A result that is dropped. -/
theorem dropped_holds {α : Type} {p : Prog Op Op.Reply α}
    {rely guar : World → World → Prop} {Q : α → World → Prop} {process : Nat}
    (hp : (machine env allowed).Holds rely guar p Q w) :
    (machine env allowed).Holds rely guar (do
      let _ ← p
      return ([] : List UnlockedVault))
      (fun opened _ => ∀ vault ∈ opened, store.OpenedBy lib added occupied process vault) w :=
  holds_bind (holds_mono hp fun _ _ _ _ h => absurd h List.not_mem_nil)

/-- **A call among others** keeps the catalogue; what it leaves open has a runtime of
its own. -/
theorem StoreCall.holds (A : LawfulAead) (hA : lib.aead = A.toAead) (laws : TextLaws lib)
    (names : UuidNames lib) (huid : env.uid = uid) (hshared : call.Shared)
    (hw : store.Catalogued lib uid added occupied w.fs)
    (hvault : ∀ vault, call.vault? = some vault →
      store.OpenedBy lib added occupied env.process vault) :
    (machine env allowed).Holds (store.relies lib uid added occupied env.process)
      (store.grants lib uid added occupied env.process) (call.program lib env store)
      (fun opened _ => ∀ vault ∈ opened,
        store.OpenedBy lib added occupied env.process vault) w := by
  cases call with
  | addUser username password => exact hshared.elim
  | rotatePassword username current new =>
      exact dropped_holds (rotatePassword_keeps A hA laws huid hw)
  | unlock username password =>
      apply holds_bind
      apply holds_mono (unlock_keeps names huid hw)
      intro r t hr
      cases r with
      | error e => exact fun _ h => absurd h List.not_mem_nil
      | ok vault =>
          rintro other hother
          rw [List.mem_singleton.mp hother]
          exact hr.2
  | close vault =>
      obtain ⟨hopened, hlock⟩ := hvault vault rfl
      exact dropped_holds (close_keeps names hopened hlock hw)
  | drop vault =>
      obtain ⟨hopened, hlock⟩ := hvault vault rfl
      exact dropped_holds (drop_keeps names hopened hlock hw)

theorem StoreCall.Takes.subset (h : call.Takes vaults rest) : rest ⊆ vaults := by
  cases h with
  | nothing _ => exact List.Subset.refl _
  | @vault vault before after _ =>
      exact ((List.sublist_cons_self vault after).append_left before).subset

theorem StoreCall.Takes.mem {vault : UnlockedVault} (h : call.Takes vaults rest)
    (hvault : call.vault? = some vault) : vault ∈ vaults := by
  cases h with
  | nothing hnone =>
      rw [hvault] at hnone
      cases hnone
  | vault hsome =>
      rw [hvault] at hsome
      cases hsome
      exact List.mem_append_right _ List.mem_cons_self

/-- When a process dies, the others keep their locks. -/
theorem spared_of_abandon {i j : Nat} (hj : j ≠ i) : store.Spared added j w (w.abandon i) := by
  refine ⟨fun path lock hlock hheld => ?_, fun _ _ _ _ _ _ _ hnode => hnode⟩
  have hkept : decide (lock.process ≠ i) = true := by
    rw [decide_eq_true_eq, hlock]
    exact hj
  change (w.locked path).filter _ = some lock
  rw [hheld]
  exact Option.filter_some_pos hkept

/-- **What the processes agree on**: the catalogue, and that nobody touches another's
locks or temporary manifests. -/
def agreement (allowed : Oracle → Prop) (store : VaultStore) (added : List String)
    (A : LawfulAead) (hA : lib.aead = A.toAead) (laws : TextLaws lib) (names : UuidNames lib)
    (huids : ∀ i, (envs i).uid = uid) (hprocesses : ∀ i, (envs i).process = i) :
    Agreement (processes lib allowed store envs) where
  inv w := store.Catalogued lib uid added (fun _ => False) w.fs
  relied i := store.Spared added i
  known i vaults _ := ∀ vault ∈ vaults, store.OpenedBy lib added (fun _ => False) i vault
  refl _ _ := .refl
  trans h h' := h.trans h'
  stable h _ := h
  again := by
    rintro i vaults w p hw hknown ⟨call, rest, hshared, htakes, rfl⟩
    have hvault : ∀ vault, call.vault? = some vault →
        store.OpenedBy lib added (fun _ => False) (envs i).process vault := by
      intro vault hsome
      rw [hprocesses i]
      exact hknown vault (htakes.mem hsome)
    have hcall : (machine (envs i) allowed).Holds
        (store.relies lib uid added (fun _ => False) (envs i).process)
        (store.grants lib uid added (fun _ => False) (envs i).process)
        (call.program lib (envs i) store) (fun opened _ => ∀ vault ∈ opened,
          store.OpenedBy lib added (fun _ => False) (envs i).process vault) w :=
      StoreCall.holds A hA laws names (huids i) hshared hw hvault
    rw [hprocesses i] at hcall
    apply holds_bind
    apply holds_mono hcall
    intro opened t hopened vault hmem
    rcases List.mem_append.mp hmem with hmem | hmem
    · exact hopened vault hmem
    · exact hknown vault (htakes.subset hmem)
  crash := by
    rintro i w w' hw rfl
    exact ⟨hw, fun _ h => absurd h List.not_mem_nil, fun j hj => spared_of_abandon hj⟩

/-- **`list_users` is exact.**  On a store that any history has left, among any rotations,
unlocks, closes, drops and crashes of other processes. -/
theorem list_users_exact (A : LawfulAead) (hA : lib.aead = A.toAead) (laws : TextLaws lib)
    (names : UuidNames lib) (sane : Sane allowed) (huids : ∀ i, (envs i).uid = uid)
    (hprocesses : ∀ i, (envs i).process = i) (huid : env.uid = uid)
    (hhistory : History lib allowed store uid added vaults w)
    {r : Except VaultError (List String)} {P : Pool Nat Op Op.Reply World (List UnlockedVault)}
    (hrun : (onlooker (listing env listed)).RunsAmong
      (Relation.ReflTransGen (Pool.Step (processes lib allowed store envs)))
      (store.listUsers lib env).run (processesAt w vaults) r P) :
    ListedOf listed added r := by
  obtain ⟨hcatalogued, hopened, _⟩ := hhistory.kept A hA laws names sane
  have hw : store.Catalogued lib uid added (fun _ => False) w.fs :=
    hcatalogued.vacate fun _ hfalse => hfalse.elim
  have hsound : (agreement allowed store added A hA laws names huids hprocesses).Sound
      (processesAt w vaults) := by
    refine ⟨hw, fun i vault hmem => ?_⟩
    obtain ⟨hmem, hprocess⟩ := List.mem_filter.mp hmem
    exact ⟨hopened vault hmem, of_decide_eq_true hprocess⟩
  refine hsound.among (Q := fun r => ListedOf listed added r) ?_ hrun
  exact listUsers_holds readsAmong_leaves (fun _ hs _ => ⟨hs, fun _ => .refl⟩) huid hw

end

/-! ## A store with two users -/

namespace FileSystem

/-- The entries of a directory with these names. -/
def entriesNamed (fs : FileSystem) (path : FsPath) : List String → List DirEntry
  | [] => []
  | name :: rest =>
      match fs.node (path ++ [name]) with
      | none => entriesNamed fs path rest
      | some n => ⟨name, n.isDirectory⟩ :: entriesNamed fs path rest

/-- The names in a directory, and possibly others. -/
def namesIn (fs : FileSystem) (path : FsPath) : List String :=
  (fs.paths.filterMap fun q => if q.dropLast = path then q.getLast? else none).dedup

theorem mem_namesIn {fs : FileSystem} {path : FsPath} {name : String}
    (h : fs.node (path ++ [name]) ≠ none) : name ∈ fs.namesIn path := by
  unfold namesIn
  rw [List.mem_dedup, List.mem_filterMap]
  refine ⟨path ++ [name], fs.mem_paths h, ?_⟩
  rw [List.dropLast_concat, if_pos rfl, List.getLast?_concat]

theorem mem_entriesNamed {fs : FileSystem} {path : FsPath} {names : List String}
    {entry : DirEntry} :
    entry ∈ fs.entriesNamed path names ↔ entry.name ∈ names ∧
      ∃ n, fs.node (path ++ [entry.name]) = some n ∧ n.isDirectory = entry.isDir := by
  induction names with
  | nil => simp [entriesNamed]
  | cons name rest ih =>
      unfold entriesNamed
      cases hnode : fs.node (path ++ [name]) with
      | none =>
          rw [ih, List.mem_cons]
          constructor
          · rintro ⟨hmem, hn⟩
            exact ⟨.inr hmem, hn⟩
          · rintro ⟨rfl | hmem, n, hn, hdir⟩
            · rw [hnode] at hn
              cases hn
            · exact ⟨hmem, n, hn, hdir⟩
      | some n =>
          rw [List.mem_cons, ih, List.mem_cons]
          constructor
          · rintro (rfl | ⟨hmem, hn⟩)
            · exact ⟨.inl rfl, n, hnode, rfl⟩
            · exact ⟨.inr hmem, hn⟩
          · rintro ⟨heq | hmem, n', hn, hdir⟩
            · left
              obtain ⟨name', isDir⟩ := entry
              subst heq
              rw [hnode] at hn
              cases hn
              exact congrArg _ hdir.symm
            · exact .inr ⟨hmem, n', hn, hdir⟩

theorem names_entriesNamed {fs : FileSystem} {path : FsPath} (names : List String) :
    ((fs.entriesNamed path names).map DirEntry.name).Sublist names := by
  induction names with
  | nil => exact List.Sublist.slnil
  | cons name rest ih =>
      unfold entriesNamed
      split
      · exact ih.cons _
      · exact ih.cons_cons _

/-- What is in a directory is what an enumeration may meet. -/
theorem meets_entriesNamed {fs : FileSystem} {path : FsPath} {opened : List String} :
    fs.Meets path opened (fs.entriesNamed path (fs.namesIn path)) := by
  refine ⟨(names_entriesNamed _).nodup (List.nodup_dedup _), fun entry hentry => .inr ?_,
    fun entry hentry n hn => ?_, fun name _ hnode => ?_⟩
  · obtain ⟨_, n, hn, _⟩ := mem_entriesNamed.mp hentry
    rw [hn]
    exact Option.some_ne_none _
  · obtain ⟨_, n', hn', hdir⟩ := mem_entriesNamed.mp hentry
    rw [hn] at hn'
    cases hn'
    exact hdir.symm
  · obtain ⟨n, hn⟩ := Option.ne_none_iff_exists'.mp hnode
    exact List.mem_map.mpr ⟨⟨name, n.isDirectory⟩,
      mem_entriesNamed.mpr ⟨mem_namesIn hnode, n, hn, rfl⟩, rfl⟩

end FileSystem

/-- A listing on a machine that nobody else uses. -/
def listingPlaying (env : Env) (oracles : Nat → Oracle) (n : Nat) :
    (op : ListingOp) → World → op.Reply × World
  | .store op, w => playing env oracles n op w
  | .openEntries path, w =>
      match (oracles n).fault, w.fs.directoryReadable env path with
      | some kind, _ => (.error (.os kind), w)
      | none, .error kind => (.error (.os kind), w)
      | none, .ok _ => (.ok (w.fs.namesIn path), w)
  | .readEntries path _, w =>
      let entries := w.fs.entriesNamed path (w.fs.namesIn path)
      match (oracles n).fault with
      | some kind => ((entries.take (oracles n).progress, some (.os kind)), w)
      | none => ((entries, none), w)

theorem may_listingPlaying {env : Env} {allowed : Oracle → Prop} {oracles : Nat → Oracle}
    (hallowed : ∀ n listing, allowed { oracles n with listing := listing })
    (htransfer : ∀ n, (oracles n).transfer = none) (n : Nat) (op : ListingOp) (w : World) :
    (listing env allowed).may op w (listingPlaying env oracles n op w).1
      (listingPlaying env oracles n op w).2 := by
  cases op with
  | store op => exact may_playing hallowed htransfer n op w
  | openEntries path =>
      unfold listingPlaying
      dsimp only
      cases hfault : (oracles n).fault with
      | some kind =>
          refine ⟨rfl, oracles n, hallowed n _, ?_⟩
          rw [hfault]
      | none =>
          cases hopen : w.fs.directoryReadable env path with
          | error kind =>
              dsimp only
              refine ⟨rfl, oracles n, hallowed n _, ?_⟩
              rw [hfault, hopen]
          | ok fs =>
              dsimp only
              refine ⟨rfl, oracles n, hallowed n _, ?_⟩
              rw [hfault, hopen]
              exact ⟨_, rfl, fun name hname => FileSystem.mem_namesIn hname⟩
  | readEntries path opened =>
      unfold listingPlaying
      cases hfault : (oracles n).fault with
      | some kind =>
          refine ⟨rfl, oracles n, hallowed n _, _, FileSystem.meets_entriesNamed, ?_⟩
          rw [hfault]
      | none =>
          refine ⟨rfl, oracles n, hallowed n _, _, FileSystem.meets_entriesNamed, ?_⟩
          rw [hfault]

/-- The creation of a user in an empty store. -/
def firstCreation : Except VaultError Unit × World :=
  (sampleStore.addUser (sampleLibraries emptyTar) sampleEnv "Bob" samplePassword).run.execute
    (playing sampleEnv fun n => { sampleOracle 5 n with clock := some 1, name := ".tmp" }) 0
    freshWorld

theorem hexDigit_letter : ∀ n < 16,
    (hexDigit n).isDigit = true ∨ ('a' ≤ hexDigit n ∧ hexDigit n ≤ 'f') := by
  decide

theorem uuidNames_sample (tar : Tar) : UuidNames (sampleLibraries tar) := by
  refine ⟨fun id c hc => ?_⟩
  have hc : c ∈ hyphenated (hexDigits id.toBytes) := by
    change c ∈ (String.ofList _).toList at hc
    rwa [String.toList_ofList] at hc
  rcases mem_hyphenated hc with rfl | hdigit
  · exact .inr (.inr rfl)
  · obtain ⟨x, _, hx⟩ := List.mem_flatMap.mp hdigit
    have hlt := x.toNat_lt
    rw [List.mem_cons, List.mem_singleton] at hx
    have hletter : c.isDigit = true ∨ ('a' ≤ c ∧ c ≤ 'f') := by
      rcases hx with rfl | rfl
      · exact hexDigit_letter _ (by omega)
      · exact hexDigit_letter _ (by omega)
    exact hletter.imp_right .inl

theorem history_firstCreation :
    History (sampleLibraries emptyTar) (ReadsClock 1) sampleStore 1000 ["Bob"] []
      firstCreation.2 := by
  have hempty : ∀ rest, rest ≠ [] → freshWorld.fs.node (sampleStore.root ++ rest) = none := by
    intro rest hrest
    by_contra hnode
    have hmem := freshWorld.fs.mem_paths hnode
    have hpaths : freshWorld.fs.paths = [["vault"], ["run"], ["tmp"], []] := by decide +kernel
    rw [hpaths] at hmem
    simp [sampleStore, hrest] at hmem
  have hrun : (machine sampleEnv (ReadsClock 1)).Runs
      ((StoreCall.addUser "Bob" samplePassword).program (sampleLibraries emptyTar) sampleEnv
        sampleStore) freshWorld [] firstCreation.2 := by
    refine runs_bind.mpr ⟨firstCreation.1, firstCreation.2, ?_, rfl, rfl⟩
    exact runs_playing (fun _ _ => ⟨rfl, show Dotted ".tmp" by decide⟩) (fun _ => rfl) _ _
  have heffect : firstCreation.2.tookEffect (sampleStore.userRoot "Bob") = true := by
    decide +kernel
  have hadded : (StoreCall.addUser "Bob" samplePassword).added sampleStore [] firstCreation.2 =
      ["Bob"] := if_pos heffect
  have hcall := History.call (.start hempty) rfl (.nothing rfl) (fun _ h => by cases h) hrun
  rw [hadded] at hcall
  exact hcall

/-- A listing of it. -/
def firstListing (oracles : Nat → Oracle) : Except VaultError (List String) × World :=
  (sampleStore.listUsers (sampleLibraries emptyTar) sampleEnv).run.execute
    (listingPlaying sampleEnv oracles) 0 firstCreation.2

/-- The processes of the sample. -/
def sampleEnvs (i : Nat) : Env := { sampleEnv with process := i }

/-- The processes beside the listings of the sample. -/
abbrev sampleProcesses : Members Nat Op Op.Reply World (List UnlockedVault) :=
  processes (sampleLibraries emptyTar) (ReadsClock 1) sampleStore sampleEnvs

/-- A call of the sample. -/
def creationPlaying (name : String) : Nat → (op : Op) → World → op.Reply × World :=
  playing sampleEnv fun n => { sampleOracle 5 n with clock := some 1, name := name }

theorem may_creationPlaying {name : String} (hname : Dotted name) (n : Nat) (op : Op)
    (w : World) : (machine sampleEnv (ReadsClock 1)).may op w (creationPlaying name n op w).1
      (creationPlaying name n op w).2 :=
  may_playing (fun _ _ => ⟨rfl, hname⟩) (fun _ => rfl) n op w

/-- The creation of another user, cut off when only its last rename is missing. -/
def cutCreation : World :=
  (((StoreCall.addUser "Carol" samplePassword).program (sampleLibraries emptyTar) sampleEnv
    sampleStore).advance (creationPlaying ".cut") 25 0 firstCreation.2.begin).2

/-- The creation of a third user after that. -/
def laterCreation : Except VaultError Unit × World :=
  (sampleStore.addUser (sampleLibraries emptyTar) sampleEnv "Al" samplePassword).run.execute
    (creationPlaying ".later") 100 (cutCreation.abandon sampleEnv.process).begin

/-- Two users have been created, and a third creation has left a directory behind. -/
theorem history_laterCreation :
    History (sampleLibraries emptyTar) (ReadsClock 1) sampleStore 1000 ["Bob", "Al"] []
      laterCreation.2 := by
  have hleft : cutCreation.tookEffect (sampleStore.userRoot "Carol") = false := by
    decide +kernel
  have hcut : (machine sampleEnv (ReadsClock 1)).Cuts
      ((StoreCall.addUser "Carol" samplePassword).program (sampleLibraries emptyTar) sampleEnv
        sampleStore) firstCreation.2.begin cutCreation :=
    cuts_advance (may_creationPlaying (by decide)) 25 0 _ _
  have hnothing : (StoreCall.addUser "Carol" samplePassword).added sampleStore ["Bob"]
      cutCreation = ["Bob"] := if_neg (by rw [hleft]; exact Bool.false_ne_true)
  have hcrashed := History.crash history_firstCreation rfl (.nothing rfl)
    (fun _ h => by cases h) hcut
  rw [hnothing] at hcrashed
  have hrun : (machine sampleEnv (ReadsClock 1)).Runs
      ((StoreCall.addUser "Al" samplePassword).program (sampleLibraries emptyTar) sampleEnv
        sampleStore) (cutCreation.abandon sampleEnv.process).begin [] laterCreation.2 := by
    refine runs_bind.mpr ⟨laterCreation.1, laterCreation.2, ?_, rfl, rfl⟩
    exact runs_execute (may_creationPlaying (by decide)) 100 _ _
  have heffect : laterCreation.2.tookEffect (sampleStore.userRoot "Al") = true := by
    decide +kernel
  have hadded : (StoreCall.addUser "Al" samplePassword).added sampleStore ["Bob"]
      laterCreation.2 = ["Bob", "Al"] := if_pos heffect
  have hcall := History.call hcrashed rfl (.nothing rfl) (fun _ h => by cases h) hrun
  rw [hadded] at hcall
  exact hcall

/-- A listing on a machine on which nothing fails. -/
def quietListing : Nat → (op : ListingOp) → World → op.Reply × World :=
  listingPlaying sampleEnv (sampleOracle 5)

theorem may_quietListing (n : Nat) (op : ListingOp) (w : World) :
    (listing sampleEnv Oracle.Quiet).may op w (quietListing n op w).1 (quietListing n op w).2 :=
  may_listingPlaying (fun _ _ => ⟨rfl, rfl⟩) (fun _ => rfl) n op w

/-- A listing beside which another process begins with `q` and dies: the calls of the one
before that, those of the other, and those of the one until the other dies. -/
def interruptedListing (q : Prog Op Op.Reply (List UnlockedVault)) (before meanwhile after : Nat)
    (w : World) : Except VaultError (List String) × World :=
  let opened := (sampleStore.listUsers (sampleLibraries emptyTar) sampleEnv).run.advance
    quietListing before 0 w
  let begun := q.advance (playing (sampleEnvs 1) quietOracle) meanwhile 0 opened.2
  let reading := opened.1.advance quietListing after before begun.2
  reading.1.execute quietListing (before + after) (reading.2.abandon 1)

theorem runs_interruptedListing {q : Prog Op Op.Reply (List UnlockedVault)}
    (hq : sampleProcesses.again 1 [] q) (before meanwhile after : Nat) (w : World) :
    ∃ P, (onlooker (listing sampleEnv Oracle.Quiet)).RunsAmong
      (Relation.ReflTransGen (Pool.Step sampleProcesses))
      (sampleStore.listUsers (sampleLibraries emptyTar) sampleEnv).run (processesAt w [])
      (interruptedListing q before meanwhile after w).1 P := by
  have htrans : ∀ P P' P'' : Pool Nat Op Op.Reply World (List UnlockedVault),
      Relation.ReflTransGen (Pool.Step sampleProcesses) P P' →
      Relation.ReflTransGen (Pool.Step sampleProcesses) P' P'' →
      Relation.ReflTransGen (Pool.Step sampleProcesses) P P'' := fun _ _ _ h h' => h.trans h'
  have hmay : ∀ n op w, (sampleProcesses.contract 1).may op w
      (playing (sampleEnvs 1) quietOracle n op w).1
      (playing (sampleEnvs 1) quietOracle n op w).2 :=
    may_playing (fun _ _ => ⟨rfl, show Dotted ".tmp" by decide⟩) fun _ => rfl
  have hbegins : ∀ w : World, Relation.ReflTransGen (Pool.Step sampleProcesses) (processesAt w [])
      ⟨(q.advance (playing (sampleEnvs 1) quietOracle) meanwhile 0 w).2,
        Function.update (processesAt w []).program 1
          (q.advance (playing (sampleEnvs 1) quietOracle) meanwhile 0 w).1⟩ :=
    fun w => .head (.again rfl hq) (Pool.steps_advance hmay meanwhile 0 q w _)
  have hdies : ∀ (w : World) (program : Nat → Prog Op Op.Reply (List UnlockedVault)),
      Relation.ReflTransGen (Pool.Step sampleProcesses) ⟨w, program⟩
        ⟨w.abandon 1, Function.update program 1 (.ret [])⟩ :=
    fun _ _ => .single (.crash rfl)
  have hends := fun (p : Prog ListingOp ListingOp.Reply (Except VaultError (List String)))
      (P : Pool Nat Op Op.Reply World (List UnlockedVault)) =>
    runsAmong_alone (P := P) (fun _ => Relation.ReflTransGen.refl (r := Pool.Step sampleProcesses))
      (runs_execute may_quietListing (before + after) p P.state)
  exact ⟨_, runsAmong_advance (P := processesAt w []) (fun _ => .refl) may_quietListing before 0
    (runsAmong_after htrans (hbegins _)
      (runsAmong_advance (fun _ => .refl) may_quietListing after before
        (runsAmong_after htrans (hdies _ _) (hends _ _))))⟩

/-- A process that rotates a password. -/
def rotatingProcess : Prog Op Op.Reply (List UnlockedVault) := do
  let opened ← (StoreCall.rotatePassword "BOB" samplePassword sampleNewPassword).program
    (sampleLibraries emptyTar) (sampleEnvs 1) sampleStore
  return opened ++ []

theorem again_rotatingProcess : sampleProcesses.again 1 [] rotatingProcess :=
  ⟨.rotatePassword "BOB" samplePassword sampleNewPassword, [], trivial, .nothing rfl, rfl⟩

/-- A listing that has opened the directory of the users when the rotation begins, and
reads a manifest when it ends. -/
def lastListing : Except VaultError (List String) × World :=
  interruptedListing rotatingProcess 5 19 4 laterCreation.2

/-- The theorem at a store that two creations and a third that was cut off have left.
While the listing goes on, another process begins to rotate a password, and dies. -/
theorem list_users_exact_bob :
    ListedOf Oracle.Quiet ["Bob", "Al"] lastListing.1 ∧ lastListing.1 = .ok ["Al", "Bob"] := by
  have hsane : Sane (ReadsClock 1) :=
    ⟨fun _ h => h.2, fun oracle h hzero => by rw [h.1] at hzero; cases hzero⟩
  have huids : ∀ i, (sampleEnvs i).uid = 1000 := fun _ => rfl
  have hprocesses : ∀ i, (sampleEnvs i).process = i := fun _ => rfl
  have huid : sampleEnv.uid = 1000 := rfl
  obtain ⟨P, hruns⟩ := runs_interruptedListing again_rotatingProcess 5 19 4 laterCreation.2
  rw [← lastListing] at hruns
  have hlisted : ListedOf Oracle.Quiet ["Bob", "Al"] lastListing.1 := by
    -- forget how the samples compute, or unification runs them
    have hhistory := history_laterCreation
    generalize laterCreation.2 = w at hhistory hruns
    generalize lastListing = listed at hruns ⊢
    exact list_users_exact taggingAead rfl (textLaws_sample emptyTar) (uuidNames_sample emptyTar)
      hsane huids hprocesses huid hhistory hruns
  refine ⟨hlisted, ?_⟩
  have hok : lastListing.1.toOption.isSome = true := by decide +kernel
  cases hresult : lastListing.1 with
  | error e =>
      rw [hresult] at hok
      cases hok
  | ok users =>
      rw [hresult] at hlisted
      obtain ⟨hascending, _, hperm⟩ := hlisted
      have hsorted : Ascending ["Al", "Bob"] := by unfold Ascending; decide +kernel
      have hperm := (hperm fun _ h => h).trans (.swap "Al" "Bob" [])
      have hantisymm : ∀ a b : String, a ∈ users → b ∈ ["Al", "Bob"] →
          textBytes a < textBytes b → textBytes b < textBytes a → a = b :=
        fun a b _ _ hab hba => absurd (List.lt_trans hab hba) (List.lt_irrefl _)
      rw [hperm.eq_of_pairwise hantisymm hascending hsorted]

theorem runs_firstListing (listed : Oracle → Prop) (oracles : Nat → Oracle)
    (hallowed : ∀ n listing, listed { oracles n with listing := listing })
    (htransfer : ∀ n, (oracles n).transfer = none) :
    (onlooker (listing sampleEnv listed)).RunsAmong
      (Relation.ReflTransGen
        (Pool.Step sampleProcesses))
      (sampleStore.listUsers (sampleLibraries emptyTar) sampleEnv).run
      (processesAt firstCreation.2 []) (firstListing oracles).1
      { processesAt firstCreation.2 [] with state := (firstListing oracles).2 } :=
  runsAmong_alone (fun _ => .refl)
    (runs_execute (may_listingPlaying hallowed htransfer) 0 _ firstCreation.2)

/-- A listing that cannot look at a manifest returns without the user. -/
theorem list_users_omits_unread :
    History (sampleLibraries emptyTar) (ReadsClock 1) sampleStore 1000 ["Bob"] []
      firstCreation.2 ∧
    ∃ P, (onlooker (listing sampleEnv fun _ => True)).RunsAmong
      (Relation.ReflTransGen
        (Pool.Step (processes (sampleLibraries emptyTar) (ReadsClock 1) sampleStore sampleEnvs)))
      (sampleStore.listUsers (sampleLibraries emptyTar) sampleEnv).run
      (processesAt firstCreation.2 []) (.ok []) P := by
  have hresult : (firstListing (failingOracle 6 .other)).1 = .ok [] := by decide +kernel
  have hrun := runs_firstListing (fun _ => True) (failingOracle 6 .other) (fun _ _ => trivial)
    fun _ => rfl
  rw [hresult] at hrun
  exact ⟨history_firstCreation, _, hrun⟩

end CodexVault
