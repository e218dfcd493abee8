import CodexVault.Chronicles
import CodexVault.ListedUsers
import CodexVault.Unlocking

/-!
# What every chronicle keeps

`Chronicle.kept` is the invariant: the profiles in the store are those of the accounts,
and each of them holds what is on the books.  It is assembled from what one call does to
the catalogue and to the books, what an edit does, and what an unlock hands out.
-/

namespace CodexVault

open ByteStrings Programs Contract

section

variable {lib : Libraries} {store : VaultStore} {uid : UInt32} {known : Bytes → Prop}
    {env : Env} {allowed : Oracle → Prop} {accounts : List Account} {added : List String}
    {vaults rest opened : List UnlockedVault} {vault : UnlockedVault} {call : StoreCall}
    {w w' : World} {q : FsPath}

/-! ## Work in a session -/

/-- What lies outside the session is untouched. -/
theorem World.Edited.node (h : w.Edited vault.codexHome w') (hq : ¬ vault.codexHome <+: q) :
    w'.fs.node q = w.fs.node q := h.outside q hq

/-- **Work in a session** keeps the catalogue. -/
theorem VaultStore.Kept.edited (h : store.Kept lib uid added vaults w) (hmem : vault ∈ vaults)
    (hedited : w.Edited vault.codexHome w') : store.Kept lib uid added vaults w' := by
  have hopened := h.opened vault hmem
  have hfile : ∀ name file, file ≠ "codex-home" →
      w'.fs.node (store.usersRoot ++ [name] ++ [file]) =
        w.fs.node (store.usersRoot ++ [name] ++ [file]) := fun _ _ hne =>
    hedited.node (hopened.home_apart hne)
  have habove : ∀ q, q <+: store.usersRoot → w'.fs.node q = w.fs.node q := fun q hq =>
    hedited.node fun hpre =>
      hopened.home_not_above ((hpre.trans hq).trans (List.prefix_append _ ["users"]))
  have hroot : w'.fs.node store.root = w.fs.node store.root :=
    habove _ (List.prefix_append _ _)
  have husers : w'.fs.node store.usersRoot = w.fs.node store.usersRoot := habove _ List.prefix_rfl
  refine ⟨⟨fun u hu => ?_, h.catalogued.distinct, fun name hname hnot hmanifest => ?_, ?_, ?_,
    fun name hocc => ?_, h.catalogued.undotted, h.catalogued.apart⟩, h.opened, h.apart⟩
  · obtain ⟨hvalid, contents, holes, m, hnode, hparse⟩ := h.catalogued.profiles u hu
    exact ⟨hvalid, contents, holes, m, (hfile _ _ (by decide)).trans hnode, hparse⟩
  · refine h.catalogued.others name hname hnot ?_
    have hsame := hfile name "manifest.json" (by decide)
    rw [List.append_assoc] at hsame
    exact hsame ▸ hmanifest
  · rw [hroot]
    exact h.catalogued.root
  · rw [husers]
    exact h.catalogued.users
  · by_cases hpre : vault.codexHome <+: store.usersRoot ++ [name, "codex-home"]
    · have hsplit : store.usersRoot ++ [name, "codex-home"] =
          store.usersRoot ++ [name] ++ ["codex-home"] := by
        rw [List.append_assoc]
        rfl
      rw [hsplit] at hpre ⊢
      rcases List.prefix_concat_iff.mp hpre with heq | hpre
      · obtain ⟨attr, hattr⟩ := FileSystem.isDirectory_iff.mp hedited.directory
        rw [← heq, hattr]
        exact Option.some_ne_none _
      · exact absurd hpre hopened.home_not_above
    · rw [hedited.node hpre]
      exact h.catalogued.homes name hocc

/-- **Work in a session** keeps the books. -/
theorem VaultStore.Books.edited (h : store.Books lib uid known accounts vaults w.fs)
    (hopened : store.Opened lib added (fun _ => False) vault)
    (hedited : w.Edited vault.codexHome w') : store.Books lib uid known accounts vaults w'.fs := by
  refine h.congr fun account _ q n hq _ hn => ?_
  rw [hedited.node, hn]
  rcases hq with rfl | rfl
  · exact hopened.home_apart (by decide)
  · exact hopened.home_apart (by decide)

/-! ## What an unlock adds -/

/-- A profile that can be unlocked is that of an account. -/
theorem owner_of_unlock {username : String} {password : Bytes} {occupied : String → Prop}
    (hw : store.Catalogued lib uid (accounts.map Account.username) occupied w.fs)
    (hrun : (machine env allowed).Runs (store.unlock lib env username password).run w
      (.ok vault) w') :
    ∃ account ∈ accounts, toAsciiLowercase username = toAsciiLowercase account.username := by
  obtain ⟨hvalid, hfile⟩ := unlock_manifest hrun
  rw [VaultStore.manifestPath_eq] at hfile
  obtain ⟨name, hname, hsame⟩ := hw.mem_of_isFile (not_dotted_of_isValidUsername hvalid) hfile
  obtain ⟨account, hmem, rfl⟩ := List.mem_map.mp hname
  exact ⟨account, hmem, hsame.symm⟩

/-- What an unlock hands out is on the books. -/
theorem VaultStore.Books.unlocks {username : String} {password : Bytes} {occupied : String → Prop}
    (A : LawfulAead) (hA : lib.aead = A.toAead) (laws : TextLaws lib) (hknown : known password)
    (hunrelated : ∀ p q, known p → known q → p ≠ q → Unrelated lib p q)
    (h : store.Books lib uid known accounts vaults w.fs)
    (hw : store.Catalogued lib uid (accounts.map Account.username) occupied w.fs)
    (hrun : (machine env allowed).Runs (store.unlock lib env username password).run w
      (.ok vault) w') :
    ∃ account ∈ accounts, toAsciiLowercase username = toAsciiLowercase account.username ∧
      password = account.password ∧ vault.username = account.username ∧
      vault.statePath = store.statePath account.username ∧
      (lib.tar.ReadsBack account.session → w'.Resumes env account.session vault.codexHome) ∧
      store.Books lib uid known accounts (vault :: vaults) w'.fs := by
  have hserves : ∀ account ∈ accounts, toAsciiLowercase username =
      toAsciiLowercase account.username → ∀ dataKey, store.Stores lib uid account dataKey w.fs →
      password = account.password ∧ vault.Serves store account dataKey ∧
        (lib.tar.ReadsBack account.session → w'.Resumes env account.session vault.codexHome) :=
    fun account hmem hname dataKey hstores => unlock_serves A hA laws hstores hname
      (fun hne => hunrelated _ _ (h.stored account hmem).1 hknown hne.symm) hrun
  obtain ⟨owner, howner, hname⟩ := owner_of_unlock hw hrun
  obtain ⟨_, dataKey, hstores, _⟩ := h.stored owner howner
  obtain ⟨hpassword, hvault, hresumes⟩ := hserves owner howner hname dataKey hstores
  refine ⟨owner, howner, hname, hpassword, hvault.username, hvault.statePath, hresumes, ?_, ?_⟩
  · intro account hmem
    obtain ⟨hp, key, hstores, hvaults⟩ := h.stored account hmem
    refine ⟨hp, key, hstores.congr fun q n hq hn =>
      unlock_leaves (hstores.profileFile hq) hn (cuts_of_runs hrun), fun other hother hpath => ?_⟩
    rcases List.mem_cons.mp hother with rfl | hother
    · have hsame := VaultStore.lowercase_of_statePath (hvault.statePath.symm.trans hpath)
      exact (hserves account hmem (hname.trans hsame) key hstores).2.1.dataKey
    · exact hvaults other hother hpath
  · intro other hother
    rcases List.mem_cons.mp hother with rfl | hother
    · exact ⟨owner, howner, hvault.username, hvault.statePath⟩
    · exact h.opened other hother

/-! ## The run -/

/-- The vaults that a call leaves alone were open. -/
theorem StoreCall.Takes.sublist (h : call.Takes vaults rest) : rest.Sublist vaults := by
  cases h with
  | nothing _ => exact List.Sublist.refl _
  | vault _ => exact (List.sublist_cons_self _ _).append_left _

/-- Distinct names on the books. -/
theorem distinct_of_kept (h : store.Kept lib uid (accounts.map Account.username) vaults w) :
    (accounts.map fun account => toAsciiLowercase account.username).Nodup := by
  have hdistinct := h.catalogued.distinct
  rwa [List.map_map] at hdistinct

/-- **After a call that has ended.** -/
theorem VaultStore.Books.ended (A : LawfulAead) (hA : lib.aead = A.toAead) (laws : TextLaws lib)
    (hunrelated : ∀ p q, known p → known q → p ≠ q → Unrelated lib p q)
    (hknown : ∀ password ∈ call.passwords, known password) {occupied : String → Prop}
    (h : store.Books lib uid known accounts rest w.fs)
    (hw : store.Catalogued lib uid (accounts.map Account.username) occupied w.fs)
    (hbooked : store.Books lib uid known (call.booked env store accounts w w') rest w'.fs)
    (hrun : (machine env allowed).Runs (call.program lib env store) w opened w') :
    store.Books lib uid known (call.booked env store accounts w w') (opened ++ rest) w'.fs := by
  cases call with
  | unlock username password =>
      obtain ⟨r, t, hunlock, hpure⟩ := runs_bind.mp hrun
      cases r with
      | error e =>
          obtain ⟨rfl, rfl⟩ := hpure
          exact hbooked
      | ok vault =>
          obtain ⟨rfl, rfl⟩ := hpure
          obtain ⟨_, _, _, _, _, _, _, hbooks⟩ :=
            h.unlocks A hA laws (hknown _ List.mem_cons_self) hunrelated hw hunlock
          exact hbooks
  | addUser username password =>
      obtain ⟨_, _, _, rfl, _⟩ := runs_bind.mp hrun
      exact hbooked
  | rotatePassword username current new =>
      obtain ⟨_, _, _, rfl, _⟩ := runs_bind.mp hrun
      exact hbooked
  | close vault =>
      obtain ⟨_, _, _, rfl, _⟩ := runs_bind.mp hrun
      exact hbooked
  | drop vault =>
      obtain ⟨_, _, _, rfl, _⟩ := runs_bind.mp hrun
      exact hbooked

/-- **Every chronicle** keeps the catalogue of its accounts, and its books. -/
theorem Chronicle.kept (A : LawfulAead) (hA : lib.aead = A.toAead) (laws : TextLaws lib)
    (names : UuidNames lib) (sane : Sane allowed)
    (hunrelated : ∀ p q, known p → known q → p ≠ q → Unrelated lib p q)
    (h : Chronicle lib allowed store uid known accounts vaults w) :
    store.Kept lib uid (accounts.map Account.username) vaults w ∧
      store.Books lib uid known accounts vaults w.fs := by
  induction h with
  | start hempty =>
      exact ⟨.start hempty, fun _ h => absurd h List.not_mem_nil,
        fun _ h => absurd h List.not_mem_nil⟩
  | @call accounts vaults rest opened w w' env call before huid hknown htakes howner hrun ih =>
      obtain ⟨hkept, hbooks⟩ := ih
      obtain ⟨hrest, hvault⟩ := hkept.takes htakes
      have hend := hrest.begin.ended A hA laws names sane huid rfl
        (fun vault hsome => ⟨hvault vault hsome, howner vault hsome⟩) hrun
      have hnames : (call.booked env store accounts w w').map Account.username =
          call.added store (accounts.map Account.username) w' := StoreCall.usernames_booked
      rw [← hnames] at hend
      have hbooked := StoreCall.books A hA laws names sane huid hunrelated hknown hbooks
        (w := w.begin) (distinct_of_kept hend)
        (fun vault hsome => ⟨htakes.mem hsome, hvault vault hsome⟩) rfl (cuts_of_runs hrun)
      exact ⟨hend, VaultStore.Books.ended A hA laws hunrelated hknown
        (w := w.begin) (hbooks.sublist htakes.sublist) hrest.catalogued
        (hbooked.sublist htakes.sublist) hrun⟩
  | @crash accounts vaults rest w w' env call before huid hknown htakes howner hcut ih =>
      obtain ⟨hkept, hbooks⟩ := ih
      obtain ⟨hrest, hvault⟩ := hkept.takes htakes
      have hend := hrest.begin.cutOff A hA laws names sane huid rfl
        (fun vault hsome => ⟨hvault vault hsome, howner vault hsome⟩) hcut
      have hnames : (call.booked env store accounts w w').map Account.username =
          call.added store (accounts.map Account.username) w' := StoreCall.usernames_booked
      rw [← hnames] at hend
      have hbooked := StoreCall.books A hA laws names sane huid hunrelated hknown hbooks
        (w := w.begin) (distinct_of_kept hend)
        (fun vault hsome => ⟨htakes.mem hsome, hvault vault hsome⟩) rfl hcut
      exact ⟨hend, hbooked.sublist (List.filter_sublist.trans htakes.sublist)⟩
  | edit before hmem hedited ih =>
      obtain ⟨hkept, hbooks⟩ := ih
      exact ⟨hkept.edited hmem hedited, hbooks.edited (hkept.opened _ hmem) hedited⟩

end

end CodexVault
