import CodexVault.CataloguedCalls

/-!
# Functions of the store among others

A rotation, an unlock, a close and a drop, run by one process while others do the
same: each keeps the catalogue and what the others rely on.

`Vault` says what is known of a vault that is unlocked.
-/

namespace CodexVault

open ByteStrings Programs Contract

/-- What a UUID is written with: digits, letters up to `f` and hyphens. -/
structure UuidNames (lib : Libraries) : Prop where
  letters : ∀ id, ∀ c ∈ (lib.uuidText id).toList, c.isDigit = true ∨ ('a' ≤ c ∧ c ≤ 'f') ∨ c = '-'

/-- A vault with a runtime of its own, away from the profiles and from the runtimes in
use. -/
structure VaultStore.Opened (lib : Libraries) (store : VaultStore) (added : List String)
    (occupied : String → Prop) (vault : UnlockedVault) : Prop where
  profile : ∃ name, vault.statePath = store.usersRoot ++ [name] ++ ["state.cvlt"]
  home : vault.codexHome = vault.runtime ++ ["codex-home"]
  runtime : ∃ root id, vault.runtime = root ++ [lib.uuidText id]
  below : ¬ vault.runtime <+: store.usersRoot
  profiles : ∀ username ∈ added, vault.runtime ≠ store.userRoot username
  others : ∀ name, occupied name → vault.runtime ≠ store.usersRoot ++ [name]

section

variable {lib : Libraries} {store : VaultStore} {uid : UInt32} {added : List String}
    {occupied : String → Prop} {env : Env} {allowed : Oracle → Prop} {w : World} {α : Type}
    {username : String} {lock : Handle}

theorem readsAmong_relies :
    store.ReadsAmong lib uid added occupied env allowed
      (store.relies lib uid added occupied env.process)
      (store.grants lib uid added occupied env.process) := by
  refine ⟨fun hs hrely => (hrely hs).1, fun hop hs hmay _ => ?_⟩
  obtain ⟨hkeeps, hspared⟩ := hop env.process _ _ _ hs hmay
  exact ⟨hs.keeps hkeeps, hspared⟩

/-- Somebody who only looks is no process of the store. -/
theorem readsAmong_leaves :
    store.ReadsAmong lib uid added occupied env allowed
      (Relies (fun w => store.Catalogued lib uid added occupied w.fs) fun _ _ => True)
      (Leaves (fun w => store.Catalogued lib uid added occupied w.fs) (store.Spared added)) := by
  refine ⟨fun hs hrely => (hrely hs).1, fun {op s r t} hop hs hmay _ => ⟨?_, fun i => ?_⟩⟩
  · exact hs.keeps (hop 0 _ _ _ hs hmay).1
  · exact (hop (i + 1) _ _ _ hs hmay).2 i (Nat.ne_of_lt (Nat.lt_succ_self i))

theorem holdsE_ofExcept {C : Contract Op Op.Reply World} {rely guar : World → World → Prop}
    {x : Except VaultError α} {Q : α → World → Prop} {E : VaultError → World → Prop}
    (hok : ∀ a, x = .ok a → Q a w) (herror : ∀ e, x = .error e → E e w) :
    C.HoldsE rely guar (ofExcept x) Q E w := by
  cases x with
  | ok a => exact hok a rfl
  | error e => exact herror e rfl

/-! ## A new manifest -/

theorem gentle_draw {n : Nat} {process : Nat} :
    store.Gentle lib uid added occupied env allowed process (.random n) ∧
      ¬ (Op.random n).TouchesLocks :=
  ⟨gentle_of_readOnly (fun _ _ h => h) (fun h => h), fun h => h⟩

theorem defaultKdfParameters_holds (hlock : lock.process = env.process)
    (hw : store.Locked lib uid added occupied username lock w) :
    (machine env allowed).HoldsE (store.relies lib uid added occupied env.process)
      (store.grants lib uid added occupied env.process) (defaultKdfParameters lib)
      (fun kdf t => (∃ salt, kdf = kdfParametersFor lib salt) ∧
        store.Locked lib uid added occupied username lock t)
      (fun _ t => store.Locked lib uid added occupied username lock t) w := by
  apply holdsE_bind
  apply holdsE_mono (gentle_holds_locked (uses_ask gentle_draw) hlock hw) _ fun _ _ ht => ht
  intro drawn t ht
  cases drawn with
  | none => exact ht
  | some salt => exact ⟨⟨salt, rfl⟩, ht⟩

theorem wrapDataKey_holds {dataKey wrappingKey : Key} {aad : Bytes}
    (hlock : lock.process = env.process)
    (hw : store.Locked lib uid added occupied username lock w) :
    (machine env allowed).HoldsE (store.relies lib uid added occupied env.process)
      (store.grants lib uid added occupied env.process) (wrapDataKey lib dataKey wrappingKey aad)
      (fun wrapped t => (∃ nonce, wrapWithNonce lib nonce dataKey wrappingKey aad = .ok wrapped) ∧
        store.Locked lib uid added occupied username lock t)
      (fun _ t => store.Locked lib uid added occupied username lock t) w := by
  apply holdsE_bind
  apply holdsE_mono (gentle_holds_locked (uses_ask gentle_draw) hlock hw) _ fun _ _ ht => ht
  intro drawn t ht
  cases drawn with
  | none => exact ht
  | some nonce => exact holdsE_ofExcept (fun _ h => ⟨⟨nonce, h⟩, ht⟩) fun _ _ => ht

/-- The manifest that is to replace the one of a profile. -/
structure Replacement (lib : Libraries) (added : List String) (name : String) (m : UserManifest) :
    Prop where
  parse : parseManifest lib (lib.toJson m ++ [10]) = .ok m
  mem : m.username ∈ added
  name : toAsciiLowercase m.username = name

/-- **What a rotation is about to write** is a manifest of the same profile. -/
theorem rewrappedManifest_holds {current new : Bytes} (A : LawfulAead)
    (hA : lib.aead = A.toAead) (laws : TextLaws lib) (huid : env.uid = uid)
    (hname : ¬ Dotted (toAsciiLowercase username)) (hlock : lock.process = env.process)
    (hw : store.Locked lib uid added occupied username lock w) :
    (machine env allowed).HoldsE (store.relies lib uid added occupied env.process)
      (store.grants lib uid added occupied env.process)
      (VaultStore.rewrappedManifest lib env (store.userRoot username) username current new)
      (fun m t => Replacement lib added (toAsciiLowercase username) m ∧
        store.Locked lib uid added occupied username lock t)
      (fun _ t => store.Locked lib uid added occupied username lock t) w := by
  have hreads : Uses (fun op => store.Gentle lib uid added occupied env allowed env.process op ∧
      ¬ op.TouchesLocks) (readManifest lib env (store.userRoot username)).run :=
    uses_readManifest ⟨gentle_lstat, fun h => h⟩ ⟨gentle_openRead, fun h => h⟩
  apply holdsE_bind
  apply holdsE_mono (holdsE_and (gentle_holds_locked hreads hlock hw)
    (readManifest_holds readsAmong_relies huid hname hw.catalogued)) _ fun _ _ ht => ht.1
  rintro m t ⟨ht, _, hmem, hlower, hvalid⟩
  apply holdsE_bind
  refine holdsE_ofExcept (fun dataKey hopen => ?_) fun _ _ => ht
  apply holdsE_bind
  apply holdsE_mono (defaultKdfParameters_holds hlock ht) _ fun _ _ hu => hu
  rintro kdf u ⟨hkdf, hu⟩
  apply holdsE_bind
  refine holdsE_ofExcept (fun wrappingKey hkey => ?_) fun _ _ => hu
  apply holdsE_bind
  refine holdsE_ofExcept (fun aad haad => ?_) fun _ _ => hu
  apply holdsE_bind
  apply holdsE_mono (wrapDataKey_holds hlock hu) _ fun _ _ hv => hv
  rintro wrapped v ⟨⟨nonce, hwrap⟩, hv⟩
  obtain ⟨salt, rfl⟩ := hkdf
  have hrewraps : Rewraps lib username current new salt m
      { m with kdf := kdfParametersFor lib salt, wrappedDataKey := wrapped } dataKey :=
    ⟨hopen, rfl, ⟨salt, rfl⟩, nonce, wrappingKey, aad, hkey, haad, hwrap⟩
  obtain ⟨hvalid', hwritten⟩ := hrewraps.valid A hA hvalid
  exact ⟨⟨parseManifest_written laws hvalid' ⟨salt, rfl⟩ hwritten, hmem, hlower⟩, hv⟩

/-! ## Replacing the old one -/

/-- A call on a temporary manifest, by the process that holds the lock. -/
theorem VaultStore.Locked.own {op : Op} {r : op.Reply} {id : String} {s t : World}
    (hs : store.Locked lib uid added occupied username lock s) (hlock : lock.process = env.process)
    (hmay : (machine env allowed).may op s r t)
    (hop : ∀ fs q, op.MayChange env fs q →
      q = store.userRoot username ++ [temporaryManifest id]) (hlocks : ¬ op.TouchesLocks) :
    store.grants lib uid added occupied env.process s t ∧
      store.Locked lib uid added occupied username lock t := by
  have hown : store.Keeps uid added occupied s.fs t.fs ∧
      ∀ i, i ≠ lock.process → store.Spared added i s t := keeps_of_own hop hlocks hs.held hmay
  obtain ⟨hkeeps, hspared⟩ := hown
  have ht := hs.catalogued.keeps hkeeps
  refine ⟨fun _ => ⟨ht, fun i hi => hspared i (hlock ▸ hi)⟩, ht, ?_⟩
  rw [locked_of_may hlocks hmay, hs.held]

/-- A call on a temporary manifest that may fail. -/
theorem own_holds (op : Op) {id : String} (hlock : lock.process = env.process)
    (hop : ∀ fs q, op.MayChange env fs q →
      q = store.userRoot username ++ [temporaryManifest id])
    (hlocks : ¬ op.TouchesLocks) (hw : store.Locked lib uid added occupied username lock w) :
    (machine env allowed).Holds (store.relies lib uid added occupied env.process)
      (store.grants lib uid added occupied env.process) (request op)
      (fun _ t => store.Locked lib uid added occupied username lock t) w := by
  intro s hs r t hmay
  exact (hw.relied hlock hs).own hlock hmay hop hlocks

/-- The process holds the lock, and its temporary manifest is there. -/
structure Staged (lib : Libraries) (store : VaultStore) (uid : UInt32) (added : List String)
    (occupied : String → Prop) (username id : String) (lock : Handle) (contents : Bytes)
    (w : World) : Prop where
  locked : store.Locked lib uid added occupied username lock w
  staged : w.fs.node (store.userRoot username ++ [temporaryManifest id]) =
    some (.file { owner := uid, mode := 0o600 } contents false)

theorem Staged.relied {id : String} {contents : Bytes} {s t : World}
    (h : Staged lib store uid added occupied username id lock contents s)
    (hlock : lock.process = env.process) (hmem : username ∈ added)
    (hrely : store.relies lib uid added occupied env.process s t) :
    Staged lib store uid added occupied username id lock contents t := by
  obtain ⟨_, hspared⟩ := hrely h.locked.catalogued
  exact ⟨h.locked.relied hlock hrely,
    hspared.temporaries username hmem lock hlock h.locked.held id _ h.staged⟩

theorem Staged.kept {op : Op} {r : op.Reply} {id : String} {contents : Bytes} {s t : World}
    (h : Staged lib store uid added occupied username id lock contents s)
    (hlock : lock.process = env.process) (hmay : (machine env allowed).may op s r t)
    (hop : op.ReadOnly env) (hlocks : ¬ op.TouchesLocks) :
    store.grants lib uid added occupied env.process s t ∧
      Staged lib store uid added occupied username id lock contents t := by
  have hown : ∀ fs q, op.MayChange env fs q →
      q = store.userRoot username ++ [temporaryManifest id] := fun fs q hq => absurd hq (hop q fs)
  obtain ⟨hgrants, ht⟩ := h.locked.own hlock hmay hown hlocks
  refine ⟨hgrants, ht, ?_⟩
  rw [node_of_may hmay (hop _ s.fs), h.staged]

theorem onTemporary_request (op : Op) {id : String}
    (hop : ∀ fs q, op.MayChange env fs q → q = store.userRoot username ++ [temporaryManifest id])
    (hlocks : ¬ op.TouchesLocks) (hlock : lock.process = env.process)
    (hw : store.Locked lib uid added occupied username lock w) :
    (machine env allowed).Holds (store.relies lib uid added occupied env.process)
      (store.grants lib uid added occupied env.process) (ignore (request op))
      (fun _ t => store.Locked lib uid added occupied username lock t) w :=
  holds_bind (holds_mono (own_holds op hlock hop hlocks hw) fun _ _ ht => ht)

/-- **The temporary manifest**, once it is written. -/
theorem writePrivateJson_holds {id : String} {m : UserManifest} (huid : env.uid = uid)
    (hmem : username ∈ added) (hlock : lock.process = env.process)
    (hw : store.Locked lib uid added occupied username lock w) :
    (machine env allowed).HoldsE (store.relies lib uid added occupied env.process)
      (store.grants lib uid added occupied env.process)
      (writePrivateJson lib (store.userRoot username ++ [temporaryManifest id]) m)
      (fun _ t => Staged lib store uid added occupied username id lock (lib.toJson m ++ [10]) t)
      (fun _ t => store.Locked lib uid added occupied username lock t) w := by
  apply holdsE_bind
  apply holdsE_mapError
  intro s hs r t hmay
  obtain ⟨hgrants, ht⟩ := (hw.relied hlock hs).own hlock hmay (fun _ _ hq => hq.1) fun h => h
  refine ⟨hgrants, ?_⟩
  cases r with
  | error e => exact ht
  | ok fault =>
      obtain ⟨_, hcreated⟩ := may_createFile_ok hmay
      have hstaged : Staged lib store uid added occupied username id lock [] t := by
        refine ⟨ht, ?_⟩
        rw [hcreated, if_pos rfl, ← huid]
        rfl
      apply holdsE_bind
      apply holdsE_lift
      intro s hs r u hmay
      have hs := hstaged.relied hlock hmem hs
      obtain ⟨hgrants, hu⟩ := hs.locked.own hlock hmay (fun _ _ hq => hq) fun h => h
      have hstored := may_store hmay hs.staged
      refine ⟨hgrants, ?_⟩
      split
      · exact hu
      · next hwritten =>
          have hfile : Staged lib store uid added occupied username id lock
              (lib.toJson m ++ [10]) u := by
            refine ⟨hu, ?_⟩
            rw [hstored, if_pos rfl, writeFile_ok hwritten]
          apply holdsE_mapError
          intro s hs r v hmay
          obtain ⟨hgrants, hv⟩ := (hfile.relied hlock hmem hs).kept hlock hmay
            (fun _ _ h => h) fun h => h
          refine ⟨hgrants, ?_⟩
          cases r with
          | error e => exact hv.locked
          | ok _ => exact hv

/-- **The new manifest takes the place of the old one.** -/
theorem commit_holds {id : String} {m : UserManifest} (hmem : username ∈ added)
    (hm : m.username = username) (hparse : parseManifest lib (lib.toJson m ++ [10]) = .ok m)
    (hlock : lock.process = env.process)
    (hw : Staged lib store uid added occupied username id lock (lib.toJson m ++ [10]) w) :
    (machine env allowed).HoldsE (store.relies lib uid added occupied env.process)
      (store.grants lib uid added occupied env.process)
      (sys (request (.rename (store.userRoot username ++ [temporaryManifest id])
        (store.manifestPath username))))
      (fun _ t => store.Locked lib uid added occupied username lock t)
      (fun _ t => store.Locked lib uid added occupied username lock t) w := by
  apply holdsE_mapError
  intro s hs r t hmay
  have hs := hw.relied hlock hmem hs
  have hrename : ∀ source target, ¬ (Op.rename source target).TouchesLocks := fun _ _ h => h
  have hlocked : t.locked = s.locked := locked_of_may (hrename _ _) hmay
  cases r with
  | error e =>
      have hfs := may_rename_error hmay
      have hkeeps : store.Keeps uid added occupied s.fs t.fs := keeps_of_same hfs
      have ht := hs.locked.catalogued.keeps hkeeps
      refine ⟨fun _ => ⟨ht, fun i _ => ⟨fun _ _ _ hheld => by rw [hlocked, hheld], ?_⟩⟩, ht, ?_⟩
      · intro _ _ _ _ _ _ _ hnode
        rwa [hfs]
      · rw [hlocked, hs.locked.held]
  | ok u =>
      obtain ⟨ht, hspared⟩ := catalogued_of_commit hs.locked.catalogued hmem hs.staged hparse hm
        hs.locked.held hmay
      refine ⟨fun _ => ⟨ht, fun i hi => hspared i (hlock ▸ hi)⟩, ht, ?_⟩
      rw [hlocked, hs.locked.held]

theorem replacePrivateJson_holds {m : UserManifest} (huid : env.uid = uid)
    (hmem : username ∈ added) (hm : m.username = username)
    (hparse : parseManifest lib (lib.toJson m ++ [10]) = .ok m)
    (hlock : lock.process = env.process)
    (hw : store.Locked lib uid added occupied username lock w) :
    (machine env allowed).HoldsE (store.relies lib uid added occupied env.process)
      (store.grants lib uid added occupied env.process)
      (replacePrivateJson lib (store.userRoot username) "manifest.json" m)
      (fun _ t => store.Locked lib uid added occupied username lock t)
      (fun _ t => store.Locked lib uid added occupied username lock t) w := by
  have hgentle : ∀ op : Op, op.ReadOnly env → ¬ op.TouchesLocks →
      store.Gentle lib uid added occupied env allowed env.process op ∧ ¬ op.TouchesLocks :=
    fun _ hop hlocks => ⟨gentle_of_readOnly hop hlocks, hlocks⟩
  apply holdsE_bind
  apply holdsE_mono (gentle_holds_locked
    (uses_ask (hgentle .newUuid (fun _ _ h => h) fun h => h)) hlock hw) _ fun _ _ ht => ht
  intro id t ht
  apply holdsE_onError
  apply holdsE_mono (_ : (machine env allowed).HoldsE _ _ _ _
    (fun _ t => store.Locked lib uid added occupied username lock t) t) (fun _ _ hu => hu) _
  · apply holdsE_bind
    apply holdsE_mono (writePrivateJson_holds huid hmem hlock ht) _
      fun _ _ hu => hu
    intro _ u hu
    apply holdsE_bind
    apply holdsE_mono (commit_holds hmem hm hparse hlock hu) _ fun _ _ hv => hv
    intro _ v hv
    apply gentle_holds_locked _ hlock hv
    apply uses_run_bind
      (uses_sys (uses_request (hgentle (.openDirectory _) (fun _ _ h => h) fun h => h)))
    intro _
    exact uses_sys (uses_request (hgentle (.sync _) (fun _ _ h => h) fun h => h))
  · intro _ u hu
    exact onTemporary_request (.removeFile _) (fun _ _ hq => hq) (fun h => h) hlock hu

/-! ## Rotations -/

theorem validateUsername_ok {u : Unit} (h : validateUsername username = .ok u) :
    isValidUsername username = true := by
  unfold validateUsername at h
  split at h
  · cases h
  · next hvalid => exact Bool.of_not_eq_false hvalid

/-- The lock belongs to every spelling of the name. -/
theorem VaultStore.Locked.congr {other : String}
    (hw : store.Locked lib uid added occupied username lock w)
    (h : toAsciiLowercase other = toAsciiLowercase username) :
    store.Locked lib uid added occupied other lock w := by
  refine ⟨hw.catalogued, ?_⟩
  have hheld := hw.held
  unfold VaultStore.lockPath at hheld ⊢
  rwa [VaultStore.userRoot_congr h]

theorem rewrapManifest_holds {current new : Bytes} (A : LawfulAead) (hA : lib.aead = A.toAead)
    (laws : TextLaws lib) (huid : env.uid = uid) (hname : ¬ Dotted (toAsciiLowercase username))
    (hlock : lock.process = env.process)
    (hw : store.Locked lib uid added occupied username lock w) :
    (machine env allowed).HoldsE (store.relies lib uid added occupied env.process)
      (store.grants lib uid added occupied env.process)
      (VaultStore.rewrapManifest lib env (store.userRoot username) username current new)
      (fun _ t => store.Locked lib uid added occupied username lock t)
      (fun _ t => store.Locked lib uid added occupied username lock t) w := by
  apply holdsE_bind
  apply holdsE_mono (rewrappedManifest_holds A hA laws huid hname hlock hw) _ fun _ _ ht => ht
  rintro m t ⟨hm, ht⟩
  have hreplace : (machine env allowed).HoldsE (store.relies lib uid added occupied env.process)
      (store.grants lib uid added occupied env.process)
      (replacePrivateJson lib (store.userRoot m.username) "manifest.json" m)
      (fun _ u => store.Locked lib uid added occupied m.username lock u)
      (fun _ u => store.Locked lib uid added occupied m.username lock u) t :=
    replacePrivateJson_holds huid hm.mem rfl hm.parse hlock (ht.congr hm.name)
  rw [VaultStore.userRoot_congr hm.name] at hreplace
  exact holdsE_mono hreplace (fun _ _ hu => hu.congr hm.name.symm) fun _ _ hu =>
    hu.congr hm.name.symm

/-- Giving up a lock is gentle. -/
theorem uses_giveUp {path : FsPath} {x : Except VaultError Unit}
    (hlock : lock.process = env.process) :
    Uses (store.Gentle lib uid added occupied env allowed env.process) (do
      let unlockResult ← Prog.attempt (sys (request (.unlockFile path lock)))
      ask (.closeFile path lock)
      ofExcept x
      ofExcept unlockResult : Io Unit).run := by
  apply uses_run_bind (uses_attempt (uses_sys (uses_request (gentle_unlockFile hlock))))
  intro _
  apply uses_run_bind (uses_ask (gentle_closeFile hlock))
  intro _
  exact uses_run_bind uses_ofExcept fun _ => uses_ofExcept

/-- **A rotation** keeps the catalogue, whatever becomes of it. -/
theorem rotatePassword_keeps {current new : Bytes} (A : LawfulAead) (hA : lib.aead = A.toAead)
    (laws : TextLaws lib) (huid : env.uid = uid)
    (hw : store.Catalogued lib uid added occupied w.fs) :
    (machine env allowed).HoldsE (store.relies lib uid added occupied env.process)
      (store.grants lib uid added occupied env.process)
      (store.rotatePassword lib env username current new)
      (fun _ t => store.Catalogued lib uid added occupied t.fs)
      (fun _ t => store.Catalogued lib uid added occupied t.fs) w := by
  apply holdsE_bind
  refine holdsE_ofExcept (fun _ hvalid => ?_) fun _ _ => hw
  have hname := not_dotted_of_isValidUsername (validateUsername_ok hvalid)
  apply holdsE_bind
  refine holdsE_ofExcept (fun _ _ => ?_) fun _ _ => hw
  apply holdsE_bind
  apply holdsE_mono (lockProfile_holds hw) _ fun _ _ ht => ht
  rintro lock t ⟨hlock, ht⟩
  apply holdsE_bind
  apply holdsE_attempt
  apply holdsE_mono (rewrapManifest_holds A hA laws huid hname hlock ht)
  · intro _ u hu
    exact gentle_holds (uses_giveUp hlock) hu.catalogued
  · intro _ u hu
    exact gentle_holds (uses_giveUp hlock) hu.catalogued

/-! ## Runtime directories -/

theorem UuidNames.ne_of_letter (names : UuidNames lib) {id : Uuid} {name : String} {c : Char}
    (hc : c ∈ name.toList) (hletter : ¬ (c.isDigit = true ∨ ('a' ≤ c ∧ c ≤ 'f') ∨ c = '-')) :
    lib.uuidText id ≠ name := by
  rintro rfl
  exact hletter (names.letters id c hc)

/-- No runtime is made where the profiles are kept. -/
theorem UuidNames.ne_usersRoot (names : UuidNames lib) {root : FsPath} {id : Uuid} :
    root ++ [lib.uuidText id] ≠ store.usersRoot := by
  have hmem : 'u' ∈ "users".toList := by decide
  intro heq
  obtain ⟨_, hlast⟩ := List.append_inj' heq rfl
  exact names.ne_of_letter hmem (by decide) (List.singleton_inj.mp hlast)

theorem UuidNames.undotted (names : UuidNames lib) {id : Uuid} : ¬ Dotted (lib.uuidText id) := by
  intro hdot
  have hmem : '.' ∈ (lib.uuidText id).toList := List.mem_of_head? hdot
  exact names.ne_of_letter hmem (by decide) rfl

/-- A path that ends in a UUID is above a file of a profile only if it is above the
directory of the profile. -/
theorem prefix_cases_of_ne {root : FsPath} {id : Uuid}
    {parent name : String} (hname : lib.uuidText id ≠ name)
    (h : root ++ [lib.uuidText id] <+: store.usersRoot ++ [parent] ++ [name]) :
    root ++ [lib.uuidText id] <+: store.usersRoot ∨
      root ++ [lib.uuidText id] = store.usersRoot ++ [parent] := by
  rcases List.prefix_concat_iff.mp h with heq | hpre
  · obtain ⟨_, hlast⟩ := List.append_inj' heq rfl
    exact absurd (List.singleton_inj.mp hlast) hname
  · rcases List.prefix_concat_iff.mp hpre with heq | hpre
    · exact .inr heq
    · exact .inl hpre

/-- **The runtime of a vault is clear of the store.** -/
theorem VaultStore.Opened.clear {vault : UnlockedVault} (names : UuidNames lib)
    (h : store.Opened lib added occupied vault) : store.Clear added occupied vault.runtime := by
  obtain ⟨root, id, hruntime⟩ := h.runtime
  have hcases : ∀ parent name, lib.uuidText id ≠ name →
      (∀ hpath : vault.runtime = store.usersRoot ++ [parent], False) →
      ¬ vault.runtime <+: store.usersRoot ++ [parent] ++ [name] := by
    intro parent name hname hapart hpre
    rw [hruntime] at hpre
    rcases prefix_cases_of_ne hname hpre with hbelow | heq
    · exact h.below (hruntime ▸ hbelow)
    · exact hapart (hruntime.trans heq)
  constructor
  · rintro q (hpre | ⟨u, hu, rfl⟩ | ⟨name, hname, rfl⟩)
    · exact fun hq => h.below (hq.trans hpre)
    · have hm : 'm' ∈ "manifest.json".toList := by decide
      exact hcases _ "manifest.json" (names.ne_of_letter hm (by decide)) (h.profiles u hu)
    · have ho : 'o' ∈ "codex-home".toList := by decide
      have hsplit : store.usersRoot ++ [name, "codex-home"] =
          store.usersRoot ++ [name] ++ ["codex-home"] := by simp
      rw [hsplit]
      exact hcases _ "codex-home" (names.ne_of_letter ho (by decide)) (h.others name hname)
  · intro u hu other
    apply hcases _ (temporaryManifest other) _ (h.profiles u hu)
    intro heq
    exact names.undotted (heq ▸ dotted_temporaryManifest other)

/-- A path where nothing was, as a runtime. -/
theorem VaultStore.Catalogued.opened_of_missing {fs : FileSystem} {vault : UnlockedVault}
    (hfs : store.Catalogued lib uid added occupied fs) (hadded : added ≠ [])
    (hnone : fs.node vault.runtime = none)
    (hprofile : ∃ name, vault.statePath = store.usersRoot ++ [name] ++ ["state.cvlt"])
    (hhome : vault.codexHome = vault.runtime ++ ["codex-home"])
    (hruntime : ∃ root id, vault.runtime = root ++ [lib.uuidText id]) :
    store.Opened lib added occupied vault := by
  obtain ⟨u, hu⟩ := List.exists_mem_of_ne_nil added hadded
  refine ⟨hprofile, hhome, hruntime, fun hpre => ?_, fun u hu heq => ?_, fun name hname heq => ?_⟩
  · obtain ⟨attr, hattr⟩ := FileSystem.isDirectory_iff.mp (hfs.profiles u hu).users
    rw [FileSystem.node_eq_none_below hpre hnone] at hattr
    cases hattr
  · obtain ⟨attr, hattr⟩ := FileSystem.isDirectory_iff.mp (hfs.profiles u hu).isDirectory
    rw [← heq, hnone] at hattr
    cases hattr
  · refine hfs.homes name hname (FileSystem.node_eq_none_below ?_ hnone)
    rw [heq]
    exact ⟨["codex-home"], by simp⟩

/-! ## Unlocking -/

/-- The calls that fill a runtime. -/
theorem uses_fillRuntime_gentle {runtime : FsPath} {dataKey : Key} (huid : env.uid = uid)
    (hclear : store.Clear added occupied runtime) :
    Uses (store.Gentle lib uid added occupied env allowed env.process)
      (VaultStore.fillRuntime lib env (store.userRoot username) runtime dataKey).run :=
  uses_fillRuntime gentle_lstat (gentle_createDirectories huid) gentle_lstat gentle_openRead
    fun _ _ => gentle_unpack hclear

theorem uses_chooseRuntimeRoot_gentle (huid : env.uid = uid) :
    Uses (store.Gentle lib uid added occupied env allowed env.process)
      (store.chooseRuntimeRoot env).run :=
  uses_chooseRuntimeRoot fun _ _ => ⟨gentle_lstat, gentle_createDirectories huid,
    gentle_of_readOnly (fun _ _ h => h) (fun h => h)⟩

/-- **What an unlock opens** has a runtime of its own. -/
theorem openProfile_keeps {password : Bytes} (names : UuidNames lib) (huid : env.uid = uid)
    (hname : ¬ Dotted (toAsciiLowercase username)) (hlock : lock.process = env.process)
    (hw : store.Catalogued lib uid added occupied w.fs) :
    (machine env allowed).HoldsE (store.relies lib uid added occupied env.process)
      (store.grants lib uid added occupied env.process)
      (store.openProfile lib env username password (store.userRoot username) lock)
      (fun vault t => store.Catalogued lib uid added occupied t.fs ∧
        store.Opened lib added occupied vault ∧ vault.lock.process = env.process)
      (fun _ t => store.Catalogued lib uid added occupied t.fs) w := by
  apply holdsE_bind
  apply holdsE_mono (readManifest_holds readsAmong_relies huid hname hw) _ fun _ _ ht => ht.1
  rintro m t ⟨ht, hmem, _⟩
  apply holdsE_bind
  refine holdsE_ofExcept (fun _ _ => ?_) fun _ _ => ht
  apply holdsE_bind
  refine holdsE_ofExcept (fun dataKey _ => ?_) fun _ _ => ht
  apply holdsE_bind
  apply holdsE_mono (gentle_holds (uses_chooseRuntimeRoot_gentle huid) ht) _ fun _ _ hu => hu
  intro root u hu
  apply holdsE_bind
  refine holdsE_ofExcept (fun name hruntimeName => ?_) fun _ _ => hu
  have hid : ∃ id, name = lib.uuidText id := by
    unfold VaultStore.runtimeName at hruntimeName
    split at hruntimeName
    · cases hruntimeName
    · next id _ => exact ⟨id, (Except.ok.inj hruntimeName).symm⟩
  obtain ⟨id, rfl⟩ := hid
  apply holdsE_bind
  apply holdsE_mapError
  intro s hs r v hmay
  have hs := (hs hu).1
  have hmake : store.Gentle lib uid added occupied env allowed env.process
      (.createDirectory (root ++ [lib.uuidText id])) :=
    gentle_createDirectory huid names.ne_usersRoot
  obtain ⟨hkeeps, hspared⟩ := hmake s r v hs hmay
  have hv := hs.keeps hkeeps
  refine ⟨fun _ => ⟨hv, hspared⟩, ?_⟩
  cases r with
  | error e => exact hv
  | ok _ =>
      have hopened : store.Opened lib added occupied {
          username := m.username
          codexHome := root ++ [lib.uuidText id] ++ ["codex-home"]
          runtime := root ++ [lib.uuidText id]
          statePath := store.userRoot username ++ ["state.cvlt"]
          dataKey := dataKey
          lock := lock
          lockPath := store.userRoot username ++ ["active.lock"] } :=
        hs.opened_of_missing (List.ne_nil_of_mem hmem) (may_createDirectory_ok hmay).1
          ⟨_, rfl⟩ rfl ⟨root, id, rfl⟩
      have hclear := hopened.clear names
      apply holdsE_bind
      apply holdsE_onError
      apply holdsE_mono (gentle_holds (uses_fillRuntime_gentle huid hclear) hv)
      · intro _ x hx
        exact ⟨hx, hopened, hlock⟩
      · intro _ x hx
        exact holds_bind (holds_mono (gentle_request (gentle_removeTree hclear) hx)
          fun _ _ hy => hy)

/-- **An unlock** keeps the catalogue, whatever becomes of it. -/
theorem unlock_keeps {password : Bytes} (names : UuidNames lib) (huid : env.uid = uid)
    (hw : store.Catalogued lib uid added occupied w.fs) :
    (machine env allowed).HoldsE (store.relies lib uid added occupied env.process)
      (store.grants lib uid added occupied env.process)
      (store.unlock lib env username password)
      (fun vault t => store.Catalogued lib uid added occupied t.fs ∧
        store.Opened lib added occupied vault ∧ vault.lock.process = env.process)
      (fun _ t => store.Catalogued lib uid added occupied t.fs) w := by
  apply holdsE_bind
  refine holdsE_ofExcept (fun _ hvalid => ?_) fun _ _ => hw
  have hname := not_dotted_of_isValidUsername (validateUsername_ok hvalid)
  apply holdsE_bind
  apply holdsE_mono (lockProfile_holds hw) _ fun _ _ ht => ht
  rintro lock t ⟨hlock, ht⟩
  apply holdsE_onError
  apply holdsE_mono (openProfile_keeps names huid hname hlock ht.catalogued) (fun _ _ hu => hu)
  intro _ u hu
  apply holds_bind
  apply holds_bind
  apply holds_mono (gentle_request (gentle_unlockFile hlock) hu)
  intro _ v hv
  exact gentle_request (gentle_closeFile hlock) hv

/-! ## Closing -/

/-- The calls that seal a runtime. -/
theorem sealCalls_gentle {vault : UnlockedVault} {name : String} {id : Uuid} {process : Nat}
    (hpath : vault.statePath = store.usersRoot ++ [name] ++ ["state.cvlt"]) :
    SealCalls (store.Gentle lib uid added occupied env allowed process) vault.codexHome
      (sealTemporary lib vault.statePath id) vault.statePath := by
  rw [hpath, sealTemporary_state]
  have hone : OtherFile (stateTemporary lib id) := otherFile_stateTemporary
  refine ⟨gentle_onFile hone (fun _ _ hq => hq.1) fun h => h,
    gentle_of_readOnly (fun _ _ h => h) fun h => h,
    gentle_of_readOnly (fun _ _ h => h) fun h => h,
    fun _ => gentle_onFile hone (fun _ _ hq => hq) fun h => h,
    gentle_of_readOnly (fun _ _ h => h) fun h => h, ?_,
    gentle_onFile hone (fun _ _ hq => hq) fun h => h⟩
  refine gentle_of_spares (fun q hq fs hchange => ?_) fun h => h
  rcases hchange with hpre | hpre
  · exact hone.not_sensitive hq hpre
  · exact otherFile_state.not_sensitive hq hpre

/-- **A close** keeps the catalogue, whatever becomes of it. -/
theorem close_keeps {vault : UnlockedVault} (names : UuidNames lib)
    (hopened : store.Opened lib added occupied vault) (hlock : vault.lock.process = env.process)
    (hw : store.Catalogued lib uid added occupied w.fs) :
    (machine env allowed).HoldsE (store.relies lib uid added occupied env.process)
      (store.grants lib uid added occupied env.process) (vault.close lib)
      (fun _ t => store.Catalogued lib uid added occupied t.fs)
      (fun _ t => store.Catalogued lib uid added occupied t.fs) w := by
  obtain ⟨name, hpath⟩ := hopened.profile
  apply gentle_holds _ hw
  exact uses_close (gentle_of_readOnly (fun _ _ h => h) fun h => h)
    (fun _ => sealCalls_gentle hpath) (gentle_removeTree (hopened.clear names))
    (gentle_unlockFile hlock) (gentle_closeFile hlock)

/-- **A drop** keeps the catalogue. -/
theorem drop_keeps {vault : UnlockedVault} (names : UuidNames lib)
    (hopened : store.Opened lib added occupied vault) (hlock : vault.lock.process = env.process)
    (hw : store.Catalogued lib uid added occupied w.fs) :
    (machine env allowed).Holds (store.relies lib uid added occupied env.process)
      (store.grants lib uid added occupied env.process) vault.drop
      (fun _ t => store.Catalogued lib uid added occupied t.fs) w := by
  apply holds_bind
  apply holds_bind
  apply holds_mono (gentle_request (gentle_removeTree (hopened.clear names)) hw)
  intro _ t ht
  exact gentle_request (gentle_closeFile hlock) ht

end

end CodexVault
