import CodexVault.Preservation

/-!
# Accounts

What the store is for: a user has a password and a session.  `VaultStore.Stores` says
that the two files of a profile are those of an account, and under which data key.

The password of an account opens its manifest, and the state that is sealed beside it is
its session.
-/

namespace CodexVault

open ByteStrings Programs Contract

/-- A user of the store, the password of the profile and the session sealed in it. -/
structure Account where
  username : String
  password : Bytes
  session : Session

/-- The manifest and the state of an account. -/
def Account.FileOf (store : VaultStore) (account : Account) (q : FsPath) : Prop :=
  q = store.manifestPath account.username ∨ q = store.statePath account.username

/-- The session of a new user: an empty temporary directory. -/
def Env.newSession (env : Env) : Session :=
  fun path => if path = [] then some (.directory (env.attr env.directoryMode)) else none

/-- The files of the profile are those of the account, under a data key. -/
structure VaultStore.Stores (lib : Libraries) (store : VaultStore) (uid : UInt32)
    (account : Account) (dataKey : Key) (fs : FileSystem) : Prop where
  manifest : ∃ m, fs.node (store.manifestPath account.username) =
      some (.file { owner := uid, mode := 0o600 } (lib.toJson m ++ [10]) false) ∧
    m.Valid lib ∧ m.username = account.username ∧ WrappedFor lib account.password dataKey m
  state : ∃ contents, fs.node (store.statePath account.username) =
      some (.file { owner := uid, mode := 0o600 } contents false) ∧
    SealedSession lib dataKey account.session contents

section

variable {lib : Libraries} {store : VaultStore} {uid : UInt32} {account : Account} {dataKey : Key}
    {fs fs' : FileSystem} {w : World} {username : String} {password : Bytes}

theorem eqIgnoreAsciiCase_iff {a b : String} :
    eqIgnoreAsciiCase a b = true ↔ toAsciiLowercase a = toAsciiLowercase b := by
  unfold eqIgnoreAsciiCase
  rw [decide_eq_true_eq]

namespace VaultStore

theorem statePath_congr {name : String} (h : toAsciiLowercase name = toAsciiLowercase username) :
    store.statePath name = store.statePath username := by
  unfold VaultStore.statePath
  rw [VaultStore.userRoot_congr h]

/-- One directory for each name. -/
theorem lowercase_of_statePath {name : String}
    (h : store.statePath name = store.statePath username) :
    toAsciiLowercase name = toAsciiLowercase username := by
  obtain ⟨hroot, _⟩ := List.append_inj' h rfl
  obtain ⟨_, hname⟩ := List.append_inj' hroot rfl
  exact List.singleton_inj.mp hname

theorem profileFile_manifest (h : ¬ Dotted (toAsciiLowercase username)) :
    store.ProfileFile (store.manifestPath username) := ⟨_, _, h, .inl rfl, rfl⟩

theorem profileFile_state (h : ¬ Dotted (toAsciiLowercase username)) :
    store.ProfileFile (store.statePath username) := ⟨_, _, h, .inr rfl, rfl⟩

theorem manifestPath_ne_statePath {name : String} :
    store.manifestPath name ≠ store.statePath username := by
  intro h
  obtain ⟨_, hlast⟩ := List.append_inj' h rfl
  exact absurd (List.singleton_inj.mp hlast) (by decide)

namespace Stores

theorem valid (h : store.Stores lib uid account dataKey fs) :
    isValidUsername account.username = true := by
  obtain ⟨m, _, hvalid, hname, _⟩ := h.manifest
  exact hname ▸ hvalid.username

theorem undotted (h : store.Stores lib uid account dataKey fs) :
    ¬ Dotted (toAsciiLowercase account.username) := not_dotted_of_isValidUsername h.valid

theorem profileFile {q : FsPath} (h : store.Stores lib uid account dataKey fs)
    (hq : account.FileOf store q) : store.ProfileFile q := by
  rcases hq with rfl | rfl
  · exact profileFile_manifest h.undotted
  · exact profileFile_state h.undotted

/-- The two files are all that matters. -/
theorem congr (h : store.Stores lib uid account dataKey fs)
    (hfiles : ∀ q n, account.FileOf store q → fs.node q = some n → fs'.node q = some n) :
    store.Stores lib uid account dataKey fs' := by
  obtain ⟨m, hmanifest, hrest⟩ := h.manifest
  obtain ⟨contents, hstate, hsealed⟩ := h.state
  exact ⟨⟨m, hfiles _ _ (.inl rfl) hmanifest, hrest⟩,
    ⟨contents, hfiles _ _ (.inr rfl) hstate, hsealed⟩⟩

/-- The manifest of an account can be read. -/
theorem parse (A : LawfulAead) (hA : lib.aead = A.toAead) (laws : TextLaws lib)
    (h : store.Stores lib uid account dataKey fs) :
    ∃ m, fs.node (store.manifestPath account.username) =
        some (.file { owner := uid, mode := 0o600 } (lib.toJson m ++ [10]) false) ∧
      parseManifest lib (lib.toJson m ++ [10]) = .ok m ∧ m.username = account.username ∧
      WrappedFor lib account.password dataKey m := by
  obtain ⟨m, hnode, hvalid, hname, hwrapped⟩ := h.manifest
  obtain ⟨nonce, wrappingKey, aad, _, _, hwrap⟩ := hwrapped.wrapped
  exact ⟨m, hnode, parseManifest_written laws hvalid hwrapped.kdf
    (written_of_wrapWithNonce A hA hwrap), hname, hwrapped⟩

/-- **The password of an account opens it**, under every spelling of the username. -/
theorem authenticates (A : LawfulAead) (hA : lib.aead = A.toAead) (laws : TextLaws lib)
    (h : store.Stores lib uid account dataKey w.fs)
    (hname : toAsciiLowercase username = toAsciiLowercase account.username) :
    w.Authenticates lib store username account.password := by
  obtain ⟨m, hnode, hparse, husername, hwrapped⟩ := h.parse A hA laws
  refine ⟨_, m, dataKey, ?_, hparse, openManifest_wrappedFor A hA hwrapped ?_⟩
  · unfold World.contents
    rw [VaultStore.manifestPath_congr hname, hnode]
  · exact eqIgnoreAsciiCase_iff.mpr ((congrArg toAsciiLowercase husername).trans hname.symm)

/-- **What opens the manifest of an account** is its password, unless the password that was
given is related to it; and it opens to the data key. -/
theorem opens {m : UserManifest} {key : Key} {attr : Attr} {contents : Bytes} {holes : Bool}
    (A : LawfulAead) (hA : lib.aead = A.toAead) (laws : TextLaws lib)
    (h : store.Stores lib uid account dataKey fs)
    (hother : password ≠ account.password → Unrelated lib account.password password)
    (hnode : fs.node (store.manifestPath username) = some (.file attr contents holes))
    (hname : toAsciiLowercase username = toAsciiLowercase account.username)
    (hparse : parseManifest lib contents = .ok m)
    (hopen : openManifest lib username password m = .ok key) :
    password = account.password ∧ key = dataKey ∧ m.username = account.username := by
  obtain ⟨m', hnode', hparse', husername, hwrapped⟩ := h.parse A hA laws
  rw [VaultStore.manifestPath_congr hname, hnode'] at hnode
  cases hnode
  rw [hparse'] at hparse
  cases hparse
  have hpassword : password = account.password := by
    by_contra hne
    exact openManifest_of_unrelated (hother hne) hwrapped hopen
  subst hpassword
  rw [openManifest_wrappedFor A hA hwrapped (openManifest_eq_ok.mp hopen).1] at hopen
  exact ⟨rfl, (Except.ok.inj hopen).symm, husername⟩

end Stores

end VaultStore

end

end CodexVault
