import CodexVault.Archive
import CodexVault.KeyWrap

/-!
# The vault store

`VaultStore` and `UnlockedVault` as programs over the calls of the machine.  What
the source drops at the end of a scope is written out: a temporary directory is
removed, a lock file is closed.
-/

namespace CodexVault

open ByteStrings Programs

/-- `MANIFEST_SIZE_LIMIT`. -/
def manifestSizeLimit : Nat := 64 * 1024

/-- `VaultStore`. -/
structure VaultStore where
  root : FsPath
  runtimeRoot : Option RootPath

/-- `UnlockedVault`.  The lock is the open file `active.lock`; `lockPath` is where
it was opened. -/
structure UnlockedVault where
  username : String
  codexHome : FsPath
  runtime : FsPath
  statePath : FsPath
  dataKey : Key
  lock : Handle
  lockPath : FsPath

/-- `validate_username`. -/
def validateUsername (username : String) : Except VaultError Unit :=
  if isValidUsername username = false then
    .error (.invalidConfiguration
      "username must be 1-64 ASCII letters, numbers, dot, underscore, or hyphen")
  else .ok ()

/-- `validate_password`. -/
def validatePassword (password : Bytes) : Except VaultError Unit :=
  if password.length < 12 then
    .error (.invalidConfiguration "password must contain at least 12 bytes")
  else .ok ()

/-- What is written to a file in one go, and how that ends. -/
def writeFile (fault : Option TransferFault) (contents : Bytes) : Except IoError Unit × Bytes :=
  match fault with
  | none => (.ok (), contents)
  | some fault =>
      let out := Sink.writeAll
        ({ accepted := [], left := fault.after, error := .os fault.kind } : FailingSink) contents
      (out.1, Sink.accepted out.2)

/-- What a failed write of a manifest is reported as: a failure within the JSON
text comes from the serializer, one at the line end from the file. -/
def manifestWriteError (json : Bytes) (written : Bytes) (error : IoError) : VaultError :=
  if written.length < json.length then .serialization error.text else .io error

/-- `write_private_json`. -/
def writePrivateJson (lib : Libraries) (path : FsPath) (value : UserManifest) : Io Unit := do
  let fault ← sys (request (.createFile path))
  let json := lib.toJson value
  let out := writeFile fault (json ++ [10])
  ask (.store path out.2)
  match out.1 with
  | .error e => throw (manifestWriteError json out.2 e)
  | .ok () => sys (request (.sync path))

/-- The closure of `replace_private_json`. -/
def replaceThrough (lib : Libraries) (parent : FsPath) (temporary name : String)
    (value : UserManifest) : Io Unit := do
  writePrivateJson lib (parent ++ [temporary]) value
  sys (request (.rename (parent ++ [temporary]) (parent ++ [name])))
  sys (request (.openDirectory parent))
  sys (request (.sync parent))

/-- `replace_private_json`. -/
def replacePrivateJson (lib : Libraries) (parent : FsPath) (name : String)
    (value : UserManifest) : Io Unit := do
  let id ← ask .newUuid
  let temporary := ".manifest-" ++ lib.uuidText id ++ ".tmp"
  Prog.onError (replaceThrough lib parent temporary name value)
    (ignore (request (.removeFile (parent ++ [temporary]))))

/-- `read_to_end` on a file limited to `limit` bytes. -/
def readLimited (limit : Nat) (file : Bytes × Option TransferFault) : Except VaultError Bytes :=
  match file.2 with
  | some fault =>
      if file.1.length < limit then .error (.io (.os fault.kind)) else .ok (file.1.take limit)
  | none => .ok (file.1.take limit)

/-- `serde_json::from_slice` and `validate`. -/
def parseManifest (lib : Libraries) (contents : Bytes) : Except VaultError UserManifest :=
  if manifestSizeLimit < contents.length then
    .error (.invalidConfiguration "user manifest exceeds size limit")
  else match lib.fromJson contents with
    | .error message => .error (.serialization message)
    | .ok manifest =>
        match manifest.validate lib with
        | .error e => .error e
        | .ok () => .ok manifest

/-- `read_manifest`.  The conversion of the size to `usize` cannot fail on a
64-bit machine. -/
def readManifest (lib : Libraries) (env : Env) (userRoot : FsPath) : Io UserManifest := do
  let path := userRoot ++ ["manifest.json"]
  let metadata ← validatePrivateFile env path
  if manifestSizeLimit < metadata.len then
    throw (.invalidConfiguration "invalid user manifest file")
  else do
    let file ← sys (request (.openRead path))
    let contents ← ofExcept (readLimited (manifestSizeLimit + 1) file)
    ofExcept (parseManifest lib contents)

/-- `acquire_lock` from the opened file on. -/
def takeLock (path : FsPath) (lock : Handle) : Io Unit := do
  sys (request (.setPermissions path 0o600))
  match ← Prog.attempt (sys (request (.tryLock path lock))) with
  | .error (.io error) =>
      if error.kind = .wouldBlock then throw .locked else throw (.io error)
  | .error error => throw error
  | .ok () => do
      sys (request (.setLength path))
      sys (request (.seek path))
      let process ← ask .processId
      sys (request (.writeText path ("\x7b\"pid\":" ++ toString process ++ "\x7d\n")))

/-- `acquire_lock`.  The file is closed when a later call fails. -/
def acquireLock (path : FsPath) : Io Handle := do
  let lock ← sys (request (.openLock path))
  Prog.onError (takeLock path lock) (request (.closeFile path lock))
  return lock

/-- The key derivation and the unwrapping that `unlock` and `rotate_password` do
with a manifest. -/
def openManifest (lib : Libraries) (username : String) (password : Bytes)
    (manifest : UserManifest) : Except VaultError Key :=
  if eqIgnoreAsciiCase manifest.username username = false then .error .authentication
  else match deriveKey lib password manifest.kdf with
    | .error _ => .error .authentication
    | .ok wrappingKey =>
        match manifest.associatedData with
        | .error e => .error e
        | .ok associatedData =>
            unwrapDataKey lib manifest.wrappedDataKey wrappingKey associatedData

namespace VaultStore

/-- `users_root`. -/
def usersRoot (store : VaultStore) : FsPath := store.root ++ ["users"]

/-- `user_root`. -/
def userRoot (store : VaultStore) (username : String) : FsPath :=
  store.usersRoot ++ [toAsciiLowercase username]

/-- `initialize`. -/
def initializeStore (store : VaultStore) (env : Env) : Io Unit := do
  ensurePrivateDirectory env store.root
  ensurePrivateDirectory env store.usersRoot

/-- The closure of `add_user`.  The empty directory is removed when it goes out of
scope. -/
def createProfile (lib : Libraries) (username : String) (password : Bytes)
    (staging userRoot : FsPath) : Io Unit := do
  let kdf ← defaultKdfParameters lib
  let wrappingKey ← ofExcept (deriveKey lib password kdf)
  match ← ask (.random 32) with
  | none => throw (.cryptography "operating-system random source failed")
  | some dataKey => do
      let manifest ← UserManifest.newHeader lib username kdf
      let associatedData ← ofExcept manifest.associatedData
      let wrapped ← wrapDataKey lib dataKey wrappingKey associatedData
      writePrivateJson lib (staging ++ ["manifest.json"])
        { manifest with wrappedDataKey := wrapped }
      let empty ← sys (request .createTemporaryDirectory)
      let result ← Prog.attempt (do
        sealDirectory lib empty (staging ++ ["state.cvlt"]) dataKey
        sys (request (.rename staging userRoot)))
      ExceptT.lift (ignore (request (.removeTree empty)))
      ofExcept result

/-- `add_user`. -/
def addUser (lib : Libraries) (env : Env) (store : VaultStore) (username : String)
    (password : Bytes) : Io Unit := do
  ofExcept (validateUsername username)
  ofExcept (validatePassword password)
  store.initializeStore env
  let userRoot := store.userRoot username
  match ← Prog.attempt (sys (request (.lstat userRoot))) with
  | .ok _ => throw (.userExists username)
  | .error _ => do
      let id ← ask .newUuid
      let staging := store.usersRoot ++ [".creating-" ++ lib.uuidText id]
      ensurePrivateDirectory env staging
      Prog.onError (createProfile lib username password staging userRoot)
        (ignore (request (.removeTree staging)))

/-- The directory check and the lock with which `unlock` and `rotate_password`
begin. -/
def lockProfile (env : Env) (userRoot : FsPath) : Io Handle := do
  Prog.mapError (fun _ => .authentication) (validatePrivateDirectory env userRoot)
  acquireLock (userRoot ++ ["active.lock"])

/-- The manifest that `rotate_password` puts in the place of the present one. -/
def rewrappedManifest (lib : Libraries) (env : Env) (userRoot : FsPath) (username : String)
    (currentPassword newPassword : Bytes) : Io UserManifest := do
  let manifest ← readManifest lib env userRoot
  let dataKey ← ofExcept (openManifest lib username currentPassword manifest)
  let kdf ← defaultKdfParameters lib
  let wrappingKey ← ofExcept (deriveKey lib newPassword kdf)
  let associatedData ← ofExcept ({ manifest with kdf := kdf } : UserManifest).associatedData
  let wrapped ← wrapDataKey lib dataKey wrappingKey associatedData
  return { manifest with kdf := kdf, wrappedDataKey := wrapped }

/-- The closure of `rotate_password`. -/
def rewrapManifest (lib : Libraries) (env : Env) (userRoot : FsPath) (username : String)
    (currentPassword newPassword : Bytes) : Io Unit := do
  let manifest ←
    rewrappedManifest lib env userRoot username currentPassword newPassword
  replacePrivateJson lib userRoot "manifest.json" manifest

/-- `rotate_password`. -/
def rotatePassword (lib : Libraries) (env : Env) (store : VaultStore) (username : String)
    (currentPassword newPassword : Bytes) : Io Unit := do
  ofExcept (validateUsername username)
  ofExcept (validatePassword newPassword)
  let userRoot := store.userRoot username
  let lockPath := userRoot ++ ["active.lock"]
  let lock ← lockProfile env userRoot
  let result ← Prog.attempt
    (rewrapManifest lib env userRoot username currentPassword newPassword)
  let unlockResult ← Prog.attempt (sys (request (.unlockFile lockPath lock)))
  ask (.closeFile lockPath lock)
  ofExcept result
  ofExcept unlockResult

/-- The runtime root of a store. -/
def chooseRuntimeRoot (env : Env) (store : VaultStore) : Io FsPath :=
  match store.runtimeRoot with
  | some path => prepareRuntimeRoot env path
  | none => selectRuntimeRoot env

/-- The directory name `unlock` gives the runtime of a profile. -/
def runtimeName (lib : Libraries) (manifest : UserManifest) : Except VaultError String :=
  match lib.parseUuid manifest.id with
  | none => .error (.invalidConfiguration "invalid profile UUID")
  | some id => .ok (lib.uuidText id)

/-- The part of `unlock` that fills the runtime it has created. -/
def fillRuntime (lib : Libraries) (env : Env) (userRoot runtime : FsPath) (dataKey : Key) :
    Io Unit := do
  let codexHome := runtime ++ ["codex-home"]
  ensurePrivateDirectory env codexHome
  unsealDirectory lib env (userRoot ++ ["state.cvlt"]) codexHome dataKey

/-- The closure of `unlock`.  The runtime is removed when a later step fails. -/
def openProfile (lib : Libraries) (env : Env) (store : VaultStore) (username : String)
    (password : Bytes) (userRoot : FsPath) (lock : Handle) : Io UnlockedVault := do
  let manifest ← readManifest lib env userRoot
  ofExcept (manifest.validate lib)
  let dataKey ← ofExcept (openManifest lib username password manifest)
  let runtimeRoot ← store.chooseRuntimeRoot env
  let name ← ofExcept (runtimeName lib manifest)
  let runtime := runtimeRoot ++ [name]
  sys (request (.createDirectory runtime))
  Prog.onError (fillRuntime lib env userRoot runtime dataKey)
    (ignore (request (.removeTree runtime)))
  return {
    username := manifest.username
    codexHome := runtime ++ ["codex-home"]
    runtime := runtime
    statePath := userRoot ++ ["state.cvlt"]
    dataKey := dataKey
    lock := lock
    lockPath := userRoot ++ ["active.lock"] }

/-- `unlock`. -/
def unlock (lib : Libraries) (env : Env) (store : VaultStore) (username : String)
    (password : Bytes) : Io UnlockedVault := do
  ofExcept (validateUsername username)
  let userRoot := store.userRoot username
  let lockPath := userRoot ++ ["active.lock"]
  let lock ← lockProfile env userRoot
  Prog.onError (openProfile lib env store username password userRoot lock)
    (do
      ignore (request (.unlockFile lockPath lock))
      request (.closeFile lockPath lock))

end VaultStore

namespace UnlockedVault

/-- `UnlockedVault::close`. -/
def close (lib : Libraries) (vault : UnlockedVault) : Io Unit := do
  let sealResult ← Prog.attempt
    (sealDirectory lib vault.codexHome vault.statePath vault.dataKey)
  let cleanupResult ← Prog.attempt (sys (request (.removeTree vault.runtime)))
  let unlockResult ← Prog.attempt (sys (request (.unlockFile vault.lockPath vault.lock)))
  ask (.closeFile vault.lockPath vault.lock)
  ofExcept sealResult
  ofExcept cleanupResult
  ofExcept unlockResult

/-- Dropping a vault that was not closed: its fields in order, the runtime before
the lock. -/
def drop (vault : UnlockedVault) : Prog Op Op.Reply Unit := do
  ignore (request (.removeTree vault.runtime))
  request (.closeFile vault.lockPath vault.lock)

end UnlockedVault

end CodexVault
