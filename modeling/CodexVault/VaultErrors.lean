/-!
# Errors

`VaultError` and the part of `std::io::Error` the program looks at: the kind,
the text, and whether the payload is the stream's own `IntegrityIoError`.  A
library that wraps an error of a reader keeps its kind and hides its payload,
which is why `mapReadError` looks at both.
-/

namespace CodexVault

/-- The kinds of `std::io::ErrorKind` the program inspects or produces. -/
inductive ErrorKind where
  | notFound
  | permissionDenied
  | connectionRefused
  | addrInUse
  | alreadyExists
  | wouldBlock
  | directoryNotEmpty
  | filesystemLoop
  | notADirectory
  | isADirectory
  | invalidData
  | interrupted
  | unexpectedEof
  | other
  deriving DecidableEq, Repr

/-- `std::io::Error`.  `integrity` is the payload when it is an
`IntegrityIoError`; every other payload is only seen through `text`. -/
structure IoError where
  kind : ErrorKind
  text : String
  integrity : Option String := none
  deriving DecidableEq, Repr

/-- `io::Error::other`. -/
def IoError.other (text : String) : IoError := { kind := .other, text := text }

/-- An error of the operating system. -/
def IoError.os (kind : ErrorKind) : IoError := { kind := kind, text := "os error" }

/-- `io_integrity`. -/
def ioIntegrity (message : String) : IoError :=
  { kind := .invalidData, text := message, integrity := some message }

/-- `VaultError`. -/
inductive VaultError where
  | io (error : IoError)
  | authentication
  | integrity (message : String)
  | invalidConfiguration (message : String)
  | userExists (username : String)
  | locked
  | launch (message : String)
  | protocol (message : String)
  | peerRejected (uid : UInt32)
  | daemonAlreadyRunning
  | unsupportedPlatform (message : String)
  | serialization (message : String)
  | cryptography (message : String)
  deriving DecidableEq, Repr

/-- The `Display` text of a `VaultError`. -/
def VaultError.text : VaultError → String
  | .io error => "I/O error: " ++ error.text
  | .authentication => "invalid username or password"
  | .integrity message => "vault integrity verification failed: " ++ message
  | .invalidConfiguration message => "invalid configuration: " ++ message
  | .userExists username => "user already exists: " ++ username
  | .locked => "this user vault is already unlocked"
  | .launch message => "failed to launch Codex: " ++ message
  | .protocol message => "daemon protocol error: " ++ message
  | .peerRejected uid => "daemon rejected peer UID " ++ toString uid
  | .daemonAlreadyRunning => "Codex Vault daemon is already running"
  | .unsupportedPlatform message => "unsupported platform: " ++ message
  | .serialization message => "serialization error: " ++ message
  | .cryptography message => "cryptographic operation failed: " ++ message

/-- `map_read_error`. -/
def mapReadError (error : IoError) : VaultError :=
  match error.integrity with
  | some message => .integrity message
  | none =>
      if error.kind = .invalidData then
        .integrity "encrypted vault or archive data is invalid"
      else .io error

/-- An error reports a broken vault, whatever its message. -/
def VaultError.IsIntegrity (error : VaultError) : Prop :=
  ∃ message, error = .integrity message

end CodexVault
