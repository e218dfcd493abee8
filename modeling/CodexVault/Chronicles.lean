import CodexVault.Creations
import CodexVault.StoreHistories

/-!
# Chronicles

A `Chronicle` is a history of a store with the accounts that are on its books.  Calls end
or are cut off, and in between the files of open sessions are edited.  A call is booked
once its commit has taken effect: a creation adds an account with an empty session, a
rotation changes the password of one, a close replaces the session of one by what lies in
the runtime.  Nothing else is ever booked.

`VaultStore.Books` says that the store holds what is on the books.
-/

namespace CodexVault

open ByteStrings Programs Contract

/-- The accounts, those of a name changed. -/
def Account.revise (accounts : List Account) (name : String) (change : Account → Account) :
    List Account :=
  accounts.map fun account =>
    if toAsciiLowercase account.username = toAsciiLowercase name then change account else account

namespace StoreCall

/-- The passwords of a call. -/
def passwords : StoreCall → List Bytes
  | addUser _ password | unlock _ password => [password]
  | rotatePassword _ currentPassword newPassword => [currentPassword, newPassword]
  | close _ | drop _ => []

/-- What is on the books after a call, whether it has ended or was cut off. -/
def booked (env : Env) (store : VaultStore) (call : StoreCall) (accounts : List Account)
    (before after : World) : List Account :=
  match call with
  | addUser username password =>
      if after.tookEffect (store.userRoot username) then
        accounts ++ [⟨username, password, env.newSession⟩]
      else accounts
  | rotatePassword username _ newPassword =>
      if after.tookEffect (store.manifestPath username) then
        Account.revise accounts username fun account => { account with password := newPassword }
      else accounts
  | close vault =>
      if after.tookEffect vault.statePath then
        Account.revise accounts vault.username fun account =>
          { account with session := before.session vault.codexHome }
      else accounts
  | unlock _ _ | drop _ => accounts

end StoreCall

/-- Somebody has worked in a session: what is not in its directory is as it was. -/
structure World.Edited (directory : FsPath) (w w' : World) : Prop where
  outside : ∀ q, ¬ directory <+: q → w'.fs.node q = w.fs.node q
  directory : w'.fs.isDirectory directory = true
  locked : w'.locked = w.locked

/-- Sequences of calls on a store that was empty at first, with passwords in `known`: the
accounts on the books, the vaults that are open, and the machine. -/
inductive Chronicle (lib : Libraries) (allowed : Oracle → Prop) (store : VaultStore) (uid : UInt32)
    (known : Bytes → Prop) : List Account → List UnlockedVault → World → Prop
  | start {w : World} (hempty : ∀ rest, rest ≠ [] → w.fs.node (store.root ++ rest) = none) :
      Chronicle lib allowed store uid known [] [] w
  /-- A call that ends. -/
  | call {accounts : List Account} {vaults rest opened : List UnlockedVault} {w w' : World}
      {env : Env} {call : StoreCall}
      (before : Chronicle lib allowed store uid known accounts vaults w) (huid : env.uid = uid)
      (hknown : ∀ password ∈ call.passwords, known password) (htakes : call.Takes vaults rest)
      (howner : ∀ vault, call.vault? = some vault → vault.lock.process = env.process)
      (hrun : (machine env allowed).Runs (call.program lib env store) w.begin opened w') :
      Chronicle lib allowed store uid known (call.booked env store accounts w w')
        (opened ++ rest) w'
  /-- A call in which the process dies, and with it all that it had open. -/
  | crash {accounts : List Account} {vaults rest : List UnlockedVault} {w w' : World}
      {env : Env} {call : StoreCall}
      (before : Chronicle lib allowed store uid known accounts vaults w) (huid : env.uid = uid)
      (hknown : ∀ password ∈ call.passwords, known password) (htakes : call.Takes vaults rest)
      (howner : ∀ vault, call.vault? = some vault → vault.lock.process = env.process)
      (hcut : (machine env allowed).Cuts (call.program lib env store) w.begin w') :
      Chronicle lib allowed store uid known (call.booked env store accounts w w')
        (rest.filter fun vault => decide (vault.lock.process ≠ env.process))
        (w'.abandon env.process)
  /-- Work in an open session. -/
  | edit {accounts : List Account} {vaults : List UnlockedVault} {vault : UnlockedVault}
      {w w' : World} (before : Chronicle lib allowed store uid known accounts vaults w)
      (hmem : vault ∈ vaults) (hedited : w.Edited vault.codexHome w') :
      Chronicle lib allowed store uid known accounts vaults w'

/-- **The store holds what is on the books.**  Each account has a data key of its own, which
the vaults that are open for it know. -/
structure VaultStore.Books (lib : Libraries) (store : VaultStore) (uid : UInt32)
    (known : Bytes → Prop) (accounts : List Account) (vaults : List UnlockedVault)
    (fs : FileSystem) : Prop where
  stored : ∀ account ∈ accounts, known account.password ∧
    ∃ dataKey, store.Stores lib uid account dataKey fs ∧
      ∀ vault ∈ vaults, vault.statePath = store.statePath account.username → vault.dataKey = dataKey
  opened : ∀ vault ∈ vaults, ∃ account ∈ accounts, vault.username = account.username ∧
    vault.statePath = store.statePath account.username

section

variable {lib : Libraries} {store : VaultStore} {uid : UInt32} {known : Bytes → Prop}
    {env : Env} {allowed : Oracle → Prop} {accounts : List Account}
    {vaults rest : List UnlockedVault} {vault : UnlockedVault} {call : StoreCall}
    {fs fs' : FileSystem} {w w' : World} {username name : String} {added : List String}
    {occupied : String → Prop} {change : Account → Account} {account : Account}

/-! ## Revising accounts -/

theorem Account.mem_revise (h : account ∈ Account.revise accounts name change) :
    ∃ old ∈ accounts,
      (toAsciiLowercase old.username = toAsciiLowercase name ∧ account = change old) ∨
      (toAsciiLowercase old.username ≠ toAsciiLowercase name ∧ account = old) := by
  obtain ⟨old, hold, rfl⟩ := List.mem_map.mp h
  refine ⟨old, hold, ?_⟩
  split
  · next heq => exact .inl ⟨heq, rfl⟩
  · next hne => exact .inr ⟨hne, rfl⟩

/-- A change that keeps the usernames keeps them all. -/
theorem Account.usernames_revise
    (hchange : ∀ account, (change account).username = account.username) :
    (Account.revise accounts name change).map Account.username = accounts.map Account.username := by
  unfold Account.revise
  rw [List.map_map]
  refine List.map_congr_left fun account _ => ?_
  dsimp only [Function.comp_apply]
  split
  · exact hchange account
  · rfl

/-- The usernames on the books are those that were added. -/
theorem StoreCall.usernames_booked :
    (call.booked env store accounts w w').map Account.username =
      call.added store (accounts.map Account.username) w' := by
  cases call with
  | addUser username password =>
      simp only [StoreCall.booked, StoreCall.added]
      split
      · exact List.map_append
      · rfl
  | rotatePassword username current new =>
      simp only [StoreCall.booked, StoreCall.added]
      split
      · exact Account.usernames_revise fun _ => rfl
      · rfl
  | close vault =>
      simp only [StoreCall.booked, StoreCall.added]
      split
      · exact Account.usernames_revise fun _ => rfl
      · rfl
  | unlock username password => rfl
  | drop vault => rfl

/-! ## What does not change the books -/

/-- The files of all accounts are all that matters. -/
theorem VaultStore.Books.congr (h : store.Books lib uid known accounts vaults fs)
    (hfiles : ∀ account ∈ accounts, ∀ q n, account.FileOf store q → store.ProfileFile q →
      fs.node q = some n → fs'.node q = some n) :
    store.Books lib uid known accounts vaults fs' := by
  refine ⟨fun account hmem => ?_, h.opened⟩
  obtain ⟨hknown, dataKey, hstores, hvaults⟩ := h.stored account hmem
  exact ⟨hknown, dataKey,
    hstores.congr fun q n hq hn => hfiles account hmem q n hq (hstores.profileFile hq) hn, hvaults⟩

/-- Fewer vaults. -/
theorem VaultStore.Books.sublist (h : store.Books lib uid known accounts vaults fs)
    (hsub : rest.Sublist vaults) : store.Books lib uid known accounts rest fs := by
  refine ⟨fun account hmem => ?_, fun vault hvault => h.opened vault (hsub.subset hvault)⟩
  obtain ⟨hknown, dataKey, hstores, hvaults⟩ := h.stored account hmem
  exact ⟨hknown, dataKey, hstores, fun vault hvault => hvaults vault (hsub.subset hvault)⟩

/-- The runtime of a vault is above no file of a profile that is named otherwise. -/
theorem VaultStore.Opened.not_above_file {file : String}
    (h : store.Opened lib added occupied vault) (hmem : username ∈ added)
    (hfile : ∀ id, lib.uuidText id ≠ file) :
    ¬ vault.runtime <+: store.userRoot username ++ [file] := by
  obtain ⟨root, id, hruntime⟩ := h.runtime
  intro hpre
  rw [hruntime] at hpre
  rcases prefix_cases_of_ne (hfile id) hpre with hbelow | heq
  · exact h.below (hruntime ▸ hbelow)
  · exact h.profiles username hmem (hruntime.trans heq)

/-- No runtime is named like the files of a profile. -/
theorem UuidNames.ne_file (names : UuidNames lib) (id : Uuid) :
    lib.uuidText id ≠ "manifest.json" ∧ lib.uuidText id ≠ "state.cvlt" :=
  ⟨names.ne_of_letter (show 'm' ∈ "manifest.json".toList by decide) (by decide),
    names.ne_of_letter (show 's' ∈ "state.cvlt".toList by decide) (by decide)⟩

/-- **The runtime of a vault** is above no file of an account. -/
theorem VaultStore.Opened.not_above (names : UuidNames lib)
    (h : store.Opened lib (accounts.map Account.username) occupied vault)
    (hmem : account ∈ accounts) {q : FsPath} (hq : account.FileOf store q) :
    ¬ vault.runtime <+: q := by
  have hname := List.mem_map_of_mem (f := Account.username) hmem
  rcases hq with rfl | rfl
  · exact h.not_above_file hname fun id => (names.ne_file id).1
  · exact h.not_above_file hname fun id => (names.ne_file id).2

/-! ## What one call does to the books -/

/-- A creation. -/
theorem addUser_books {password : Bytes} (A : LawfulAead) (hA : lib.aead = A.toAead)
    (laws : TextLaws lib) (sane : Sane allowed) (huid : env.uid = uid) (hknown : known password)
    (h : store.Books lib uid known accounts vaults w.fs)
    (hdistinct : (((StoreCall.addUser username password).booked env store accounts w w').map
      fun account => toAsciiLowercase account.username).Nodup)
    (hbegin : w.history = [])
    (hcut : (machine env allowed).Cuts (store.addUser lib env username password).run w w') :
    store.Books lib uid known ((StoreCall.addUser username password).booked env store accounts w w')
      vaults w'.fs := by
  have heffect : w.tookEffect (store.userRoot username) = false := by
    unfold World.tookEffect
    rw [hbegin]
    rfl
  unfold StoreCall.booked at hdistinct ⊢
  dsimp only at hdistinct ⊢
  rcases addUser_creates A hA laws sane huid heffect hcut with hend | ⟨hend, dataKey, hstores⟩
  · rw [if_neg (by rw [hend.effect]; exact Bool.false_ne_true)]
    exact h.congr fun _ _ q n _ hq hn => hend.kept q n hq hn
  · rw [if_pos hend.effect] at hdistinct ⊢
    have hold := h.congr fun _ _ q n _ hq hn => hend.kept q n hq hn
    refine ⟨fun account hmem => ?_, fun vault hvault => ?_⟩
    · rcases List.mem_append.mp hmem with hmem | hmem
      · exact hold.stored account hmem
      · rw [List.mem_singleton.mp hmem]
        refine ⟨hknown, dataKey, hstores, fun vault hvault hpath => ?_⟩
        -- nobody has a vault of a profile that was not there
        obtain ⟨old, holdMem, _, holdPath⟩ := h.opened vault hvault
        have hsame := VaultStore.lowercase_of_statePath (holdPath.symm.trans hpath)
        rw [List.map_append, List.nodup_append] at hdistinct
        exact absurd hsame
          (hdistinct.2.2 _ (List.mem_map_of_mem holdMem) _ (List.mem_singleton_self _))
    · obtain ⟨account, hmem, hfacts⟩ := h.opened vault hvault
      exact ⟨account, List.mem_append_left _ hmem, hfacts⟩

/-- The books with the accounts of one name revised. -/
theorem VaultStore.Books.revised (h : store.Books lib uid known accounts vaults fs)
    (hsame : ∀ account, (change account).username = account.username)
    (hchanged : ∀ account ∈ accounts, toAsciiLowercase account.username = toAsciiLowercase name →
      ∀ dataKey, store.Stores lib uid account dataKey fs →
        (∀ vault ∈ vaults, vault.statePath = store.statePath account.username →
          vault.dataKey = dataKey) →
        known (change account).password ∧ store.Stores lib uid (change account) dataKey fs')
    (hothers : ∀ account ∈ accounts, toAsciiLowercase account.username ≠ toAsciiLowercase name →
      ∀ q n, account.FileOf store q → store.ProfileFile q → fs.node q = some n →
        fs'.node q = some n) :
    store.Books lib uid known (Account.revise accounts name change) vaults fs' := by
  refine ⟨fun account hmem => ?_, fun vault hvault => ?_⟩
  · obtain ⟨old, hold, ⟨hname, rfl⟩ | ⟨hname, rfl⟩⟩ := Account.mem_revise hmem
    · obtain ⟨_, dataKey, hstores, hvaults⟩ := h.stored old hold
      obtain ⟨hknown, hstores'⟩ := hchanged old hold hname dataKey hstores hvaults
      exact ⟨hknown, dataKey, hstores', by rwa [hsame]⟩
    · obtain ⟨hknown, dataKey, hstores, hvaults⟩ := h.stored account hold
      exact ⟨hknown, dataKey, hstores.congr fun q n hq hn =>
        hothers account hold hname q n hq (hstores.profileFile hq) hn, hvaults⟩
  · obtain ⟨account, hmem, hname, hpath⟩ := h.opened vault hvault
    by_cases heq : toAsciiLowercase account.username = toAsciiLowercase name
    · refine ⟨change account, List.mem_map.mpr ⟨account, hmem, if_pos heq⟩, ?_⟩
      rw [hsame]
      exact ⟨hname, hpath⟩
    · exact ⟨account, List.mem_map.mpr ⟨account, hmem, if_neg heq⟩, hname, hpath⟩

/-- No rename has taken effect before the first call. -/
theorem tookEffect_begin {target : FsPath} (hbegin : w.history = []) :
    w.tookEffect target = false := by
  unfold World.tookEffect
  rw [hbegin]
  rfl

/-- A rotation. -/
theorem rotatePassword_books {current new : Bytes} (A : LawfulAead) (hA : lib.aead = A.toAead)
    (laws : TextLaws lib) (huid : env.uid = uid) (hcurrent : known current) (hnew : known new)
    (hunrelated : ∀ p q, known p → known q → p ≠ q → Unrelated lib p q)
    (h : store.Books lib uid known accounts vaults w.fs) (hbegin : w.history = [])
    (hcut : (machine env allowed).Cuts
      (store.rotatePassword lib env username current new).run w w') :
    store.Books lib uid known
      ((StoreCall.rotatePassword username current new).booked env store accounts w w') vaults
      w'.fs := by
  have hat : w.At (store.manifestPath username) false (w.fs.node (store.manifestPath username)) :=
    ⟨tookEffect_begin hbegin, rfl⟩
  have hothers : ∀ q n, store.ProfileFile q → q ≠ store.manifestPath username →
      w.fs.node q = some n → w'.fs.node q = some n := fun q n hq hne hn =>
    node_of_cuts (rotatePassword_leaves hq hne) hn hcut
  unfold StoreCall.booked
  dsimp only
  rcases rotatePassword_commits hat hcut with hend | ⟨m', hm', hend⟩
  · rw [if_neg (by rw [hend.effect]; exact Bool.false_ne_true)]
    refine h.congr fun _ _ q n _ hq hn => ?_
    by_cases hne : q = store.manifestPath username
    · rw [hne, hend.node, ← hne, hn]
    · exact hothers q n hq hne hn
  · rw [if_pos hend.effect]
    obtain ⟨attr, contents, holes, m, salt, key, hnode, hparse, hrewraps⟩ := hm'.rewraps
    refine h.revised (fun _ => rfl) (fun account hmem hname dataKey hstores _ => ⟨hnew, ?_, ?_⟩) ?_
    · -- the manifest in place was opened with the password of the account
      have hother : current ≠ account.password → Unrelated lib account.password current :=
        fun hne => hunrelated _ _ (h.stored account hmem).1 hcurrent hne.symm
      obtain ⟨_, rfl, husername⟩ :=
        hstores.opens A hA laws hother hnode hname.symm hparse hrewraps.opened
      obtain ⟨hvalid, _⟩ := hrewraps.valid A hA (parseManifest_eq_ok.mp hparse).2.2
      refine ⟨m', ?_, hvalid, ?_, hrewraps.written⟩
      · rw [VaultStore.manifestPath_congr hname, hend.node, ← huid]
        rfl
      · rw [hrewraps.header]
        exact husername
    · obtain ⟨state, hstate, hsealed⟩ := hstores.state
      exact ⟨state, hothers _ _ (hstores.profileFile (.inr rfl))
        (fun heq => VaultStore.manifestPath_ne_statePath heq.symm) hstate, hsealed⟩
    · intro account _ hname q n hq hfile hn
      refine hothers q n hfile ?_ hn
      rcases hq with rfl | rfl
      · intro heq
        obtain ⟨hroot, _⟩ := List.append_inj' heq rfl
        obtain ⟨_, hlast⟩ := List.append_inj' hroot rfl
        exact hname (List.singleton_inj.mp hlast)
      · exact fun heq => VaultStore.manifestPath_ne_statePath heq.symm

/-- The session of a vault is above no entry of the users directory. -/
theorem VaultStore.Opened.home_not_above (h : store.Opened lib added occupied vault) :
    ¬ vault.codexHome <+: store.usersRoot ++ [name] := by
  rw [h.home]
  intro hpre
  rcases List.prefix_concat_iff.mp hpre with heq | hpre
  · obtain ⟨hroot, _⟩ := List.append_inj' heq rfl
    exact h.below (hroot ▸ List.prefix_rfl)
  · exact h.below ((List.prefix_append _ _).trans hpre)

/-- The session of a vault lies outside the directories of profiles. -/
theorem VaultStore.Opened.home_apart {file : String}
    (h : store.Opened lib added occupied vault) (hfile : file ≠ "codex-home") :
    ¬ vault.codexHome <+: store.usersRoot ++ [name] ++ [file] := by
  intro hpre
  rcases List.prefix_concat_iff.mp hpre with heq | hpre
  · rw [h.home] at heq
    obtain ⟨_, hlast⟩ := List.append_inj' heq rfl
    exact hfile (List.singleton_inj.mp hlast).symm
  · exact h.home_not_above hpre

/-- A close. -/
theorem close_books (names : UuidNames lib) (huid : env.uid = uid)
    (h : store.Books lib uid known accounts vaults w.fs) (hmem : vault ∈ vaults)
    (hopened : store.Opened lib (accounts.map Account.username) occupied vault)
    (hbegin : w.history = []) (hcut : (machine env allowed).Cuts (vault.close lib).run w w') :
    store.Books lib uid known ((StoreCall.close vault).booked env store accounts w w') vaults
      w'.fs := by
  obtain ⟨owner, howner, husername, hpath⟩ := h.opened vault hmem
  have hat : w.At vault.statePath false (w.fs.node vault.statePath) :=
    ⟨tookEffect_begin hbegin, rfl⟩
  have hapart : ∀ id, ¬ vault.codexHome <+:
      store.userRoot owner.username ++ [stateTemporary lib id] := fun id => by
    have hfile : OtherFile (stateTemporary lib id) := otherFile_stateTemporary
    exact hopened.home_apart hfile.2.1
  have hruntime : ¬ vault.runtime <+: vault.statePath :=
    hpath ▸ hopened.not_above names howner (.inr rfl)
  have hothers : ∀ account ∈ accounts, ∀ q n, account.FileOf store q → store.ProfileFile q →
      q ≠ vault.statePath → w.fs.node q = some n → w'.fs.node q = some n :=
    fun account haccount q n hq hfile hne hn => node_of_cuts (close_leaves hfile hpath hne
      (hopened.not_above names haccount hq)) hn hcut
  unfold StoreCall.booked
  dsimp only
  rcases close_commits hpath hat hapart hruntime hcut with hend | ⟨contents, hsealed, hend⟩
  · rw [if_neg (by rw [hend.effect]; exact Bool.false_ne_true)]
    refine h.congr fun account haccount q n hq hfile hn => ?_
    by_cases hne : q = vault.statePath
    · rw [hne, hend.node, ← hne, hn]
    · exact hothers account haccount q n hq hfile hne hn
  · rw [if_pos hend.effect]
    refine h.revised (fun _ => rfl) (fun account haccount hname dataKey hstores hvaults => ?_) ?_
    · have hsame : vault.statePath = store.statePath account.username := by
        rw [hpath]
        exact VaultStore.statePath_congr (husername ▸ hname.symm)
      refine ⟨(h.stored account haccount).1, ?_, contents, ?_, hvaults vault hmem hsame ▸ hsealed⟩
      · obtain ⟨m, hmanifest, hrest⟩ := hstores.manifest
        exact ⟨m, hothers account haccount _ _ (.inl rfl) (hstores.profileFile (.inl rfl))
          (hsame ▸ VaultStore.manifestPath_ne_statePath) hmanifest, hrest⟩
      · change w'.fs.node (store.statePath account.username) = _
        rw [← hsame, hend.node, ← huid]
        rfl
    · intro account haccount hname q n hq hfile hn
      refine hothers account haccount q n hq hfile ?_ hn
      rw [hpath]
      rcases hq with rfl | rfl
      · exact VaultStore.manifestPath_ne_statePath
      · exact fun heq => hname (husername ▸ VaultStore.lowercase_of_statePath heq)

/-- **A call keeps the books**, wherever it is cut off. -/
theorem StoreCall.books (A : LawfulAead) (hA : lib.aead = A.toAead) (laws : TextLaws lib)
    (names : UuidNames lib) (sane : Sane allowed) (huid : env.uid = uid)
    (hunrelated : ∀ p q, known p → known q → p ≠ q → Unrelated lib p q)
    (hknown : ∀ password ∈ call.passwords, known password)
    (h : store.Books lib uid known accounts vaults w.fs)
    (hdistinct : ((call.booked env store accounts w w').map
      fun account => toAsciiLowercase account.username).Nodup)
    (hvault : ∀ vault, call.vault? = some vault → vault ∈ vaults ∧
      store.Opened lib (accounts.map Account.username) occupied vault)
    (hbegin : w.history = [])
    (hcut : (machine env allowed).Cuts (call.program lib env store) w w') :
    store.Books lib uid known (call.booked env store accounts w w') vaults w'.fs := by
  cases call with
  | addUser username password =>
      exact addUser_books A hA laws sane huid (hknown _ List.mem_cons_self) h hdistinct hbegin
        (cuts_of_bind_pure hcut)
  | rotatePassword username current new =>
      exact rotatePassword_books A hA laws huid (hknown _ List.mem_cons_self)
        (hknown _ (List.mem_cons_of_mem _ List.mem_cons_self)) hunrelated h hbegin
        (cuts_of_bind_pure hcut)
  | unlock username password =>
      refine h.congr fun _ _ q n _ hq hn => ?_
      rcases cuts_bind hcut with hcut | ⟨r, t, hruns, hcut⟩
      · exact unlock_leaves hq hn hcut
      · have ht := unlock_leaves hq hn (cuts_of_runs hruns)
        cases r with
        | ok vault =>
            have hcut : w' = t := hcut
            exact hcut ▸ ht
        | error e =>
            have hcut : w' = t := hcut
            exact hcut ▸ ht
  | close vault =>
      obtain ⟨hmem, hopened⟩ := hvault vault rfl
      exact close_books names huid h hmem hopened hbegin (cuts_of_bind_pure hcut)
  | drop vault =>
      obtain ⟨_, hopened⟩ := hvault vault rfl
      refine h.congr fun account haccount q n hq _ hn => ?_
      exact node_of_cuts (drop_leaves (hopened.not_above names haccount hq)) hn
        (cuts_of_bind_pure hcut)

end

end CodexVault
