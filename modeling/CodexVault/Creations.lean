import CodexVault.Accounts

/-!
# The creation of an account

`add_user` prepares a profile in a directory of its own and gives it its place by one
rename.  Wherever it is cut off, no file of another profile has changed; and if the rename
has taken effect, the new profile is that of an account with the given password and an
empty session.
-/

namespace CodexVault

open ByteStrings Programs Contract

namespace VaultStore

/-- The files of the profiles are in place, and whether the new one is among them. -/
structure Creating (store : VaultStore) (username : String) (before : FileSystem) (done : Bool)
    (w : World) : Prop where
  effect : w.tookEffect (store.userRoot username) = done
  kept : ∀ q n, store.ProfileFile q → before.node q = some n → w.fs.node q = some n

/-- How far a creation has come: before its commit, or with the new account in place. -/
def Creation (lib : Libraries) (store : VaultStore) (uid : UInt32) (account : Account)
    (before : FileSystem) (w : World) : Prop :=
  store.Creating account.username before false w ∨
    (store.Creating account.username before true w ∧
      ∃ dataKey, store.Stores lib uid account dataKey w.fs)

/-- The calls of a creation besides its commit. -/
structure Prepares (store : VaultStore) (username : String) (env : Env) (op : Op) : Prop where
  leaves : ∀ q, store.ProfileFile q → op.Leaves env q
  elsewhere : ∀ source, op ≠ .rename source (store.userRoot username)

end VaultStore

section

variable {lib : Libraries} {store : VaultStore} {uid : UInt32} {env : Env}
    {allowed : Oracle → Prop} {before : FileSystem} {w w' : World} {account : Account}
    {username hidden : String} {done : Bool} {α : Type}

/-! ## Calls that prepare -/

theorem VaultStore.Creating.step {op : Op} {r : op.Reply}
    (h : store.Creating username before done w) (hop : store.Prepares username env op)
    (hmay : (machine env allowed).may op w r w') : store.Creating username before done w' :=
  ⟨(tookEffect_of_may hop.elsewhere hmay).trans h.effect,
    fun q n hq hn => node_of_leaves (hop.leaves q hq) (h.kept q n hq hn) hmay⟩

/-- **A call that prepares** does not undo the commit. -/
theorem VaultStore.Creation.step {op : Op} {r : op.Reply}
    (h : store.Creation lib uid account before w) (hop : store.Prepares account.username env op)
    (hmay : (machine env allowed).may op w r w') : store.Creation lib uid account before w' := by
  rcases h with h | ⟨h, dataKey, hstores⟩
  · exact .inl (h.step hop hmay)
  · exact .inr ⟨h.step hop hmay, dataKey,
      hstores.congr fun q n hq hn =>
        node_of_leaves (hop.leaves q (hstores.profileFile hq)) hn hmay⟩

theorem prepares_alone {p : Io α} (hp : Uses (store.Prepares account.username env) p.run)
    (hw : store.Creating account.username before false w) :
    (machine env allowed).HoldsE Eq
      (fun s t => store.Creation lib uid account before s → store.Creation lib uid account before t)
      p (fun a t => store.Creating account.username before false t ∧
        (machine env allowed).Runs p.run w (.ok a) t)
      (fun _ t => store.Creation lib uid account before t) w := by
  apply holdsE_mono (holdsE_alone
    (I := fun t => store.Creating account.username before false t) _ hp hw) (fun _ _ ht => ht)
    fun _ _ ht => .inl ht
  intro op s r t hop hs hmay
  exact ⟨fun h => h.step hop hmay, hs.step hop hmay⟩

/-- The rest of a creation, wherever it has come to. -/
theorem prepares_holds {p : Io α} (hp : Uses (store.Prepares account.username env) p.run)
    (hw : store.Creation lib uid account before w) :
    (machine env allowed).HoldsE Eq
      (fun s t => store.Creation lib uid account before s → store.Creation lib uid account before t)
      p (fun _ t => store.Creation lib uid account before t)
      (fun _ t => store.Creation lib uid account before t) w :=
  holdsE_of_uses (I := fun t => store.Creation lib uid account before t)
    (fun s t hs (heq : s = t) => heq ▸ hs)
    (fun _ _ _ _ hop hs hmay => ⟨fun h => h.step hop hmay, hs.step hop hmay⟩) hp hw

theorem ne_rename {op : Op} {target : FsPath} (h : op.isRename = false) (source : FsPath) :
    op ≠ .rename source target := by
  rintro rfl
  cases h

theorem prepares_readOnly (op : Op) (hop : op.ReadOnly env)
    (helse : ∀ source, op ≠ .rename source (store.userRoot username)) :
    store.Prepares username env op := ⟨fun _ _ => leaves_of_readOnly op hop, helse⟩

theorem prepares_makes (op : Op)
    (hop : ∀ (fs : FileSystem) q, op.MayChange env fs q → fs.node q = none)
    (helse : ∀ source, op ≠ .rename source (store.userRoot username)) :
    store.Prepares username env op := ⟨fun q _ => leaves_of_makes op fun fs => hop fs q, helse⟩

/-- What lies in a dotted directory is no file of a profile. -/
theorem VaultStore.ProfileFile.not_below {q : FsPath} (hq : store.ProfileFile q)
    (hhidden : Dotted hidden) : ¬ store.usersRoot ++ [hidden] <+: q := by
  obtain ⟨name, file, hname, hfile, rfl⟩ := hq
  have hfileName : ¬ Dotted file := by
    rcases hfile with rfl | rfl
    · decide
    · decide
  exact not_prefix_of_dotted hhidden hfileName
    (not_prefix_of_dotted hhidden hname not_prefix_usersRoot)

/-- Calls in the staging directory. -/
theorem prepares_below (op : Op) (hhidden : Dotted hidden)
    (hop : ∀ fs q, op.MayChange env fs q → store.usersRoot ++ [hidden] <+: q)
    (helse : ∀ source, op ≠ .rename source (store.userRoot username)) :
    store.Prepares username env op :=
  ⟨fun q hq fs _ hchange => hq.not_below hhidden (hop fs q hchange), helse⟩

/-- The calls that seal a session into the staging directory. -/
theorem sealCalls_prepare {directory : FsPath} {id : Uuid} (hhidden : Dotted hidden) :
    SealCalls (store.Prepares username env) directory
      (sealTemporary lib (store.usersRoot ++ [hidden] ++ ["state.cvlt"]) id)
      (store.usersRoot ++ [hidden] ++ ["state.cvlt"]) := by
  rw [sealTemporary_state]
  have hbelow : ∀ name : String, ∀ q, q = store.usersRoot ++ [hidden] ++ [name] →
      store.usersRoot ++ [hidden] <+: q := by
    rintro name q rfl
    exact List.prefix_append _ _
  refine ⟨prepares_below (.createFile _) hhidden (fun _ q hq => hbelow _ q hq.1) (ne_rename rfl),
    prepares_readOnly (.random 12) (fun _ _ h => h) (ne_rename rfl),
    prepares_readOnly (.readTree _) (fun _ _ h => h) (ne_rename rfl),
    fun contents => prepares_below (.store _ contents) hhidden (fun _ q hq => hbelow _ q hq)
      (ne_rename rfl),
    prepares_readOnly (.sync _) (fun _ _ h => h) (ne_rename rfl), ?_,
    prepares_below (.removeFile _) hhidden (fun _ q hq => hbelow _ q hq) (ne_rename rfl)⟩
  refine prepares_below (.rename _ _) hhidden (fun _ q hq => ?_) fun _ h => ?_
  · rcases hq with hpre | hpre
    · exact (List.prefix_append _ _).trans hpre
    · exact (List.prefix_append _ _).trans hpre
  · -- the state file lies one level deeper than a profile
    have hlen := congrArg List.length (Op.rename.inj h).2
    simp [VaultStore.userRoot] at hlen

/-! ## The commit -/

/-- **The commit of a creation.**  The staging directory holds the files of the account. -/
theorem VaultStore.Creating.commit {m : UserManifest} {contents : Bytes} {dataKey : Key}
    {r : Except IoError Unit} (huid : env.uid = uid) (hhidden : Dotted hidden)
    (h : store.Creating account.username before false w)
    (hmanifest : w.fs.node (store.usersRoot ++ [hidden] ++ ["manifest.json"]) =
      some (.file (env.attr 0o600) (lib.toJson m ++ [10]) false))
    (hstate : w.fs.node (store.usersRoot ++ [hidden] ++ ["state.cvlt"]) =
      some (.file (env.attr 0o600) contents false))
    (hvalid : m.Valid lib) (hname : m.username = account.username)
    (hwrapped : WrappedFor lib account.password dataKey m)
    (hsealed : SealedSession lib dataKey account.session contents)
    (hmay : (machine env allowed).may
      (.rename (store.usersRoot ++ [hidden]) (store.userRoot account.username)) w r w') :
    store.Creation lib uid account before w' := by
  have heffect := tookEffect_of_rename hmay
  rw [h.effect] at heffect
  cases r with
  | error e =>
      refine .inl ⟨heffect, fun q n hq hn => ?_⟩
      rw [may_rename_error hmay]
      exact h.kept q n hq hn
  | ok u =>
      obtain ⟨hgraft, hfs, hchildren, _⟩ := may_rename_ok hmay
      have hattr : env.attr 0o600 = { owner := uid, mode := 0o600 } := by
        rw [← huid]
        rfl
      refine .inr ⟨⟨heffect, fun q n hq hn => ?_⟩, dataKey, ⟨m, ?_, hvalid, hname, hwrapped⟩,
        ⟨contents, ?_, hsealed⟩⟩
      · have hat := h.kept q n hq hn
        rw [hfs, FileSystem.node_graft_elsewhere (hq.not_below hhidden), hat]
        intro hpre
        -- the profile was empty, if it was there at all
        have hne : q ≠ store.userRoot account.username := by
          obtain ⟨_, _, _, _, rfl⟩ := hq
          intro heq
          have hlen := congrArg List.length heq
          simp [VaultStore.userRoot] at hlen
        rw [FileSystem.hasChildren_eq_false hchildren hpre hne] at hat
        cases hat
      · rw [hfs, ← hattr, ← hmanifest]
        exact FileSystem.node_graft_below hgraft
      · rw [hfs, ← hattr, ← hstate]
        exact FileSystem.node_graft_below hgraft

/-! ## A creation -/

/-- An empty directory that has just been made is the session of a new user. -/
theorem session_of_created {p : FsPath} (hmissing : w.fs.node p = none)
    (hmade : ∀ q, w'.fs.node q =
      if q = p then some (.directory (env.attr env.directoryMode)) else w.fs.node q) :
    w'.session p = env.newSession := by
  funext path
  unfold World.session Env.newSession
  rw [hmade]
  by_cases hpath : path = []
  · rw [if_pos (by rw [hpath, List.append_nil]), if_pos hpath]
  · rw [if_neg fun heq => hpath (List.append_right_eq_self.mp heq), if_neg hpath]
    exact FileSystem.node_eq_none_below (List.prefix_append _ _) hmissing

/-- **The making of a profile** comes to an account with the given password. -/
theorem createProfile_creates {password : Bytes} (A : LawfulAead) (hA : lib.aead = A.toAead)
    (laws : TextLaws lib) (sane : Sane allowed) (huid : env.uid = uid) (hhidden : Dotted hidden)
    (hvalid : isValidUsername username = true)
    (hw : store.Creating username before false w) :
    (machine env allowed).HoldsE Eq
      (fun s t => store.Creation lib uid ⟨username, password, env.newSession⟩ before s →
        store.Creation lib uid ⟨username, password, env.newSession⟩ before t)
      (VaultStore.createProfile lib username password (store.usersRoot ++ [hidden])
        (store.userRoot username))
      (fun _ t => store.Creation lib uid ⟨username, password, env.newSession⟩ before t)
      (fun _ t => store.Creation lib uid ⟨username, password, env.newSession⟩ before t) w := by
  have halone : ∀ {β : Type} {p : Io β} {s : World}, Uses (store.Prepares username env) p.run →
      store.Creating username before false s → (machine env allowed).HoldsE Eq
        (fun s t => store.Creation lib uid ⟨username, password, env.newSession⟩ before s →
          store.Creation lib uid ⟨username, password, env.newSession⟩ before t) p
        (fun a t => store.Creating username before false t ∧
          (machine env allowed).Runs p.run s (.ok a) t)
        (fun _ t => store.Creation lib uid ⟨username, password, env.newSession⟩ before t) s :=
    fun hp hs => prepares_alone hp hs
  have hreadOnly : ∀ op : Op, op.ReadOnly env →
      (∀ source, op ≠ .rename source (store.userRoot username)) →
      store.Prepares username env op := prepares_readOnly
  have hrandom : ∀ n, store.Prepares username env (.random n) := fun n =>
    hreadOnly _ (fun _ _ h => h) (ne_rename rfl)
  -- the manifest is made
  apply holdsE_bind
  apply holdsE_mono (halone (uses_defaultKdfParameters (hrandom _)) hw) _ fun _ _ ht => ht
  rintro kdf w1 ⟨h1, hkdf⟩
  obtain ⟨salt, _, rfl⟩ := defaultKdfParameters_ok hkdf
  apply holdsE_bind
  refine holdsE_ofExcept (fun wrappingKey hkey => ?_) fun _ _ => .inl h1
  apply holdsE_bind
  apply holdsE_mono (halone (uses_ask (hrandom _)) h1) _ fun _ _ ht => ht
  rintro drawn w2 ⟨h2, _⟩
  cases drawn with
  | none => exact .inl h2
  | some dataKey =>
  apply holdsE_bind
  apply holdsE_mono (halone (uses_newHeader (hreadOnly _ (fun _ _ h => h) (ne_rename rfl))
    (hreadOnly _ (fun _ _ h => h) (ne_rename rfl))) h2) _ fun _ _ ht => ht
  rintro header w3 ⟨h3, hheader⟩
  apply holdsE_bind
  refine holdsE_ofExcept (fun aad haad => ?_) fun _ _ => .inl h3
  apply holdsE_bind
  apply holdsE_mono (halone (uses_wrapDataKey (hrandom _)) h3) _ fun _ _ ht => ht
  rintro wrapped w4 ⟨h4, hwrap⟩
  obtain ⟨nonce, hwrapped⟩ := wrapDataKey_ok hwrap
  obtain ⟨hparse, hname⟩ := parse_of_created A hA laws sane hvalid hheader hwrapped
  obtain ⟨_, _, _, hkdf', _⟩ := newHeader_ok hheader
  have hfor : WrappedFor lib password dataKey { header with wrappedDataKey := wrapped } := by
    refine ⟨⟨_, hkdf'⟩, nonce, wrappingKey, aad, ?_, haad, hwrapped⟩
    rw [← hkey, ← hkdf']
  -- it is written to the staging directory
  have hfile : ∀ q, q = store.usersRoot ++ [hidden] ++ ["manifest.json"] →
      store.usersRoot ++ [hidden] <+: q := fun q hq => hq ▸ List.prefix_append _ _
  have hwrite : Uses (store.Prepares username env) (writePrivateJson lib
      (store.usersRoot ++ [hidden] ++ ["manifest.json"])
      { header with wrappedDataKey := wrapped }).run :=
    uses_writePrivateJson (prepares_below _ hhidden (fun _ q hq => hfile q hq.1) (ne_rename rfl))
      (fun _ => prepares_below _ hhidden (fun _ q hq => hfile q hq) (ne_rename rfl))
      (hreadOnly _ (fun _ _ h => h) (ne_rename rfl))
  apply holdsE_bind
  apply holdsE_mono (halone hwrite h4) _ fun _ _ ht => ht
  rintro _ w5 ⟨h5, hwritten⟩
  have hmanifest := ((writePrivateJson_ok hwritten).2
    (store.usersRoot ++ [hidden] ++ ["manifest.json"])).trans (if_pos rfl)
  -- an empty directory is made elsewhere
  apply holdsE_bind
  apply holdsE_mono (halone (uses_sys (uses_request (prepares_makes .createTemporaryDirectory
    (fun _ _ h => h.2) (ne_rename rfl)))) h5) _ fun _ _ ht => ht
  rintro empty w6 ⟨h6, hempty⟩
  have hempty := runs_request.mp (runs_sys_ok.mp hempty)
  obtain ⟨hmissing, hmade⟩ := may_createTemporaryDirectory_ok hempty
  obtain ⟨nameOracle, hallowed, rfl⟩ := may_createTemporaryDirectory_path hempty
  have hdotted := sane.dotted nameOracle hallowed
  have hthere : ∀ q, q <+: store.usersRoot ++ [hidden] ++ ["manifest.json"] →
      ¬ env.tempDir ++ [nameOracle.name] <+: q := by
    intro q hq hpre
    rw [FileSystem.node_eq_none_below (hpre.trans hq) hmissing] at hmanifest
    cases hmanifest
  have hstaging := hthere (store.usersRoot ++ [hidden]) (List.prefix_append _ _)
  have husers := hthere store.usersRoot ((List.prefix_append _ _).trans (List.prefix_append _ _))
  have hkept : w6.fs.node (store.usersRoot ++ [hidden] ++ ["manifest.json"]) =
      some (.file (env.attr 0o600) (lib.toJson { header with wrappedDataKey := wrapped } ++ [10])
        false) := by
    rw [hmade, if_neg, hmanifest]
    intro heq
    exact hthere _ List.prefix_rfl (heq ▸ List.prefix_rfl)
  -- the session is sealed, and the commit follows
  have hcleans : store.Prepares username env (.removeTree (env.tempDir ++ [nameOracle.name])) := by
    refine ⟨fun q hq fs _ hpre => ?_, ne_rename rfl⟩
    obtain ⟨name, file, hprofile, hfile, rfl⟩ := hq
    have hfileName : ¬ Dotted file := by
      rcases hfile with rfl | rfl
      · decide
      · decide
    exact not_prefix_of_dotted hdotted hfileName (not_prefix_of_dotted hdotted hprofile husers) hpre
  apply holdsE_bind
  apply holdsE_attempt
  apply holdsE_mono (_ : (machine env allowed).HoldsE _ _ _
    (fun _ t => store.Creation lib uid ⟨username, password, env.newSession⟩ before t)
    (fun _ t => store.Creation lib uid ⟨username, password, env.newSession⟩ before t) w6)
  · intro _ t ht
    exact prepares_holds (uses_run_bind (uses_lift (uses_ignore (uses_request hcleans)))
      fun _ => uses_ofExcept) ht
  · intro _ t ht
    exact prepares_holds (uses_run_bind (uses_lift (uses_ignore (uses_request hcleans)))
      fun _ => uses_ofExcept) ht
  · apply holdsE_bind
    apply holdsE_mono (halone (uses_sealDirectory (hreadOnly _ (fun _ _ h => h) (ne_rename rfl))
      fun _ => sealCalls_prepare hhidden) h6) _ fun _ _ ht => ht
    rintro _ w7 ⟨h7, hseal⟩
    have hapart : ∀ id, ¬ env.tempDir ++ [nameOracle.name] <+:
        store.usersRoot ++ [hidden] ++ [stateTemporary lib id] := fun id =>
      not_prefix_of_dotted hdotted (by simp [Dotted, stateTemporary]) hstaging
    obtain ⟨id, contents, hsealed, hnodes⟩ := sealDirectory_session hapart hseal
    rw [session_of_created hmissing hmade] at hsealed
    have hplaced : w7.fs.node (store.usersRoot ++ [hidden] ++ ["manifest.json"]) =
        some (.file (env.attr 0o600) (lib.toJson { header with wrappedDataKey := wrapped } ++ [10])
          false) := by
      rw [hnodes, if_neg (concat_ne (by decide)), if_neg, hkept]
      rintro (heq | hpre)
      · exact concat_ne stateTemporary_ne.2.1.symm heq
      · exact not_prefix_concat (by decide) hpre
    apply holdsE_mapError
    intro s hs r t hmay
    subst hs
    have ht : store.Creation lib uid ⟨username, password, env.newSession⟩ before t :=
      VaultStore.Creating.commit huid hhidden h7 hplaced ((hnodes _).trans (if_pos rfl))
        (parseManifest_eq_ok.mp hparse).2.2 hname hfor hsealed hmay
    refine ⟨fun _ => ht, ?_⟩
    cases r with
    | error e => exact ht
    | ok u => exact ht

/-- **A creation**, wherever it is cut off. -/
theorem addUser_creates {password : Bytes} (A : LawfulAead) (hA : lib.aead = A.toAead)
    (laws : TextLaws lib) (sane : Sane allowed) (huid : env.uid = uid)
    (hw : w.tookEffect (store.userRoot username) = false)
    (hcut : (machine env allowed).Cuts (store.addUser lib env username password).run w w') :
    store.Creation lib uid ⟨username, password, env.newSession⟩ w.fs w' := by
  have hstart : store.Creating username w.fs false w := ⟨hw, fun _ _ _ h => h⟩
  have hensure : ∀ p, Uses (store.Prepares username env) (ensurePrivateDirectory env p).run :=
    fun p => uses_ensurePrivateDirectory (prepares_readOnly _ (fun _ _ h => h) (ne_rename rfl))
      (prepares_makes _ (fun _ _ h => h.2) (ne_rename rfl))
  have halone : ∀ {β : Type} {p : Io β} {s : World}, Uses (store.Prepares username env) p.run →
      store.Creating username w.fs false s → (machine env allowed).HoldsE Eq
        (fun s t => store.Creation lib uid ⟨username, password, env.newSession⟩ w.fs s →
          store.Creation lib uid ⟨username, password, env.newSession⟩ w.fs t) p
        (fun a t => store.Creating username w.fs false t ∧
          (machine env allowed).Runs p.run s (.ok a) t)
        (fun _ t => store.Creation lib uid ⟨username, password, env.newSession⟩ w.fs t) s :=
    fun hp hs => prepares_alone hp hs
  have hholds : (machine env allowed).HoldsE Eq
      (fun s t => store.Creation lib uid ⟨username, password, env.newSession⟩ w.fs s →
        store.Creation lib uid ⟨username, password, env.newSession⟩ w.fs t)
      (store.addUser lib env username password)
      (fun _ t => store.Creation lib uid ⟨username, password, env.newSession⟩ w.fs t)
      (fun _ t => store.Creation lib uid ⟨username, password, env.newSession⟩ w.fs t) w := by
    apply holdsE_bind
    refine holdsE_ofExcept (fun _ hvalid => ?_) fun _ _ => .inl hstart
    have hvalid := validateUsername_ok hvalid
    apply holdsE_bind
    refine holdsE_ofExcept (fun _ _ => ?_) fun _ _ => .inl hstart
    apply holdsE_bind
    apply holdsE_mono (halone (uses_run_bind (hensure _) fun _ => hensure _) hstart) _
      fun _ _ ht => ht
    rintro _ w1 ⟨h1, _⟩
    have hexists : store.Prepares username env (.lstat (store.userRoot username)) :=
      prepares_readOnly _ (fun _ _ h => h) (ne_rename rfl)
    apply holdsE_bind
    apply holdsE_mono (halone (uses_attempt (uses_sys (uses_request hexists))) h1) _
      fun _ _ ht => ht
    rintro found w2 ⟨h2, _⟩
    cases found with
    | ok status => exact .inl h2
    | error e =>
        apply holdsE_bind
        have hdraws : store.Prepares username env .newUuid :=
          prepares_readOnly _ (fun _ _ h => h) (ne_rename rfl)
        apply holdsE_mono (halone (uses_ask hdraws) h2) _ fun _ _ ht => ht
        rintro id w3 ⟨h3, _⟩
        apply holdsE_bind
        apply holdsE_mono (halone (hensure _) h3) _ fun _ _ ht => ht
        rintro _ w4 ⟨h4, _⟩
        have hhidden : Dotted (".creating-" ++ lib.uuidText id) := by
          simp [Dotted]
        apply holdsE_onError
        apply holdsE_mono (createProfile_creates A hA laws sane huid hhidden hvalid h4)
          fun _ _ ht => ht
        intro _ t ht
        have hclean : store.Prepares username env
            (.removeTree (store.usersRoot ++ [".creating-" ++ lib.uuidText id])) :=
          prepares_below _ hhidden (fun _ _ hq => hq) (ne_rename rfl)
        exact holds_of_uses (I := fun t =>
            store.Creation lib uid ⟨username, password, env.newSession⟩ w.fs t)
          (fun s t hs (heq : s = t) => heq ▸ hs)
          (fun _ _ _ _ hop hs hmay => ⟨fun h => h.step hop hmay, hs.step hop hmay⟩)
          (uses_ignore (uses_request hclean)) ht
  exact cuts_of_holds (I := fun t =>
      store.Creation lib uid ⟨username, password, env.newSession⟩ w.fs t) (fun _ => rfl)
    (fun _ _ hs hguar => hguar hs) hholds (.inl hstart) hcut

end

end CodexVault
