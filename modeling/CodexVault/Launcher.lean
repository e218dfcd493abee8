import CodexVault.Interference
import CodexVault.VaultStore

/-!
# Running a program on an unlocked profile

`runProgram` unlocks a profile, runs a child on it and seals it again.  Its calls
are those of the store and those that deal with the child and with signals.

`Step` adds what happens between two calls: the child edits its `CODEX_HOME`, and
signals arrive.  A signal for which a handler has been installed is forwarded to
the child, or dropped once forwarding has stopped; the handler itself stays.  Any
other ends the process where it is, without its destructors.
-/

namespace CodexVault

open ByteStrings Programs

/-- The signals that are forwarded. -/
inductive Signal where
  | sigint
  | sigterm
  | sighup
  deriving DecidableEq

/-- `ExitStatus`. -/
inductive ExitStatus where
  | exited (code : Int)
  | signaled (signal : Nat)

/-- What the child is started with. -/
structure Command where
  executable : String
  arguments : List String
  codexHome : FsPath
  activeUser : String

/-- The calls of a run. -/
inductive RunOp where
  | store (op : Op)
  | spawn (command : Command)
  /-- The pipe `Signals::new` begins with. -/
  | openSignals
  /-- The handler `Signals::new` installs for one signal. -/
  | register (signal : Signal)
  /-- The thread that forwards signals; `false` when it cannot be started. -/
  | startForwarding
  | kill
  | wait
  /-- `Handle::close`: signals are no longer delivered to the thread. -/
  | closeSignals
  | joinForwarding

/-- The replies. -/
abbrev RunOp.Reply : RunOp → Type
  | store op => op.Reply
  | spawn _ | openSignals | register _ | kill => Except IoError Unit
  | startForwarding => Bool
  | wait => Except IoError ExitStatus
  | closeSignals | joinForwarding => Unit

/-- How a run that does not return a code ends. -/
inductive Abort where
  | error (error : VaultError)
  /-- A thread could not be started. -/
  | panicked

/-- A program that runs a child. -/
abbrev Launch := ExceptT Abort (Prog RunOp RunOp.Reply)

/-- A program of the store. -/
def ofStore {α : Type} : Prog Op Op.Reply α → Prog RunOp RunOp.Reply α
  | .ret a => .ret a
  | .call op next => .call (.store op) fun r => ofStore (next r)

/-- A program of the store that can fail. -/
def storeCall {α : Type} (p : Io α) : Launch α :=
  Prog.mapError .error (Prog.fallible (ofStore p.run))

/-- One call. -/
def runCall (op : RunOp) : Prog RunOp RunOp.Reply op.Reply := Prog.perform op

/-- One call, its error reported as `VaultError::Io`. -/
def runSys {α : Type} (call : Prog RunOp RunOp.Reply (Except IoError α)) : Launch α :=
  Prog.mapError (fun e => .error (.io e)) (Prog.fallible call)

/-- A result that is already known. -/
def ofResult {α : Type} : Except Abort α → Launch α
  | .ok a => pure a
  | .error e => throw e

/-- The handlers of `Signals::new`. -/
def registerAll : List Signal → Launch Unit
  | [] => pure ()
  | signal :: rest => do
      runSys (runCall (.register signal))
      registerAll rest

/-- `Signals::new` in `SignalForwarder::start`. -/
def openForwarder : Launch Unit := do
  runSys (runCall .openSignals)
  registerAll [.sigint, .sigterm, .sighup]

/-- `run_program` from the spawned child on, without a forwarder. -/
def abandonChild (lib : Libraries) (vault : UnlockedVault) (error : Abort) : Launch Int := do
  let _ ← ExceptT.lift (runCall .kill)
  let _ ← ExceptT.lift (runCall .wait)
  storeCall (vault.close lib)
  throw error

/-- `run_program` from the started forwarder on. -/
def awaitChild (lib : Libraries) (vault : UnlockedVault) : Launch Int := do
  let statusResult ← Prog.attempt (runSys (runCall .wait))
  ExceptT.lift (runCall .closeSignals)
  ExceptT.lift (runCall .joinForwarding)
  let closeResult ← Prog.attempt (storeCall (vault.close lib))
  let status ← ofResult statusResult
  ofResult closeResult
  match status with
  | .exited code => pure code
  | .signaled signal => pure (128 + signal)

/-- `run_program` from the unlocked vault on. -/
def runUnlocked (lib : Libraries) (vault : UnlockedVault) (executable : String)
    (arguments : List String) : Launch Int := do
  match ← ExceptT.lift (runCall (.spawn
      ⟨executable, arguments, vault.codexHome, vault.username⟩)) with
  | .error e => do
      storeCall (vault.close lib)
      throw (.error (.launch e.text))
  | .ok () => do
      match ← Prog.attempt openForwarder with
      | .error e => abandonChild lib vault e
      | .ok () => do
          let started ← ExceptT.lift (runCall .startForwarding)
          if started then awaitChild lib vault
          else do
            -- the panic drops the vault on its way out
            ExceptT.lift (ofStore vault.drop)
            throw .panicked

/-- `run_program`. -/
def runProgram (lib : Libraries) (env : Env) (store : VaultStore) (username : String)
    (password : Bytes) (executable : String) (arguments : List String) : Launch Int := do
  let vault ← storeCall (store.unlock lib env username password)
  runUnlocked lib vault executable arguments

/-- `run_codex`, given `CODEX_VAULT_REAL_CODEX`. -/
def runCodex (lib : Libraries) (env : Env) (realCodex : Option String) (store : VaultStore)
    (username : String) (password : Bytes) (arguments : List String) : Launch Int :=
  runProgram lib env store username password (realCodex.getD "codex") arguments

/-! ## What happens between two calls -/

/-- The state of a launcher: the machine, the signals for which a handler has
ever been installed, and the `CODEX_HOME` of the child while it runs. -/
structure Launcher where
  world : World
  handled : Signal → Bool
  child : Option FsPath

/-- The launcher before its first call. -/
def Launcher.start (w : World) : Launcher :=
  { world := w.begin, handled := fun _ => false, child := none }

/-- What the calls of a run do. -/
def Launcher.Answers (env : Env) (allowed : Oracle → Prop) (s : Launcher) :
    (op : RunOp) → op.Reply → Launcher → Prop
  | .store op, r, t => ∃ w, (machine env allowed).may op s.world r w ∧ t = { s with world := w }
  | .spawn command, .ok (), t => t = { s with child := some command.codexHome }
  | .register signal, .ok (), t =>
      t = { s with handled := fun other => if other = signal then true else s.handled other }
  | .wait, .ok _, t => t = { s with child := none }
  | _, _, t => t = s

/-- The machine of a run as a contract. -/
def launching (env : Env) (allowed : Oracle → Prop) : Contract RunOp RunOp.Reply Launcher where
  may op s r t := s.Answers env allowed op r t

/-- The child may change what is at and below its `CODEX_HOME`. -/
structure Launcher.Edited (s t : Launcher) : Prop where
  handled : t.handled = s.handled
  child : t.child = s.child
  history : t.world.history = s.world.history
  outside : ∀ q, (∀ home, s.child = some home → ¬ home <+: q) →
    t.world.fs.node q = s.world.fs.node q

/-- A launcher is running, with this much of the program left, or a signal has
ended it. -/
inductive Status (α : Type) where
  | running (p : Prog RunOp RunOp.Reply α) (s : Launcher)
  | ended (signal : Signal) (s : Launcher)

/-- What happens next. -/
inductive Happening where
  | call
  | edit
  | signal (signal : Signal)

/-- One step.  A program that has returned can still be hit by a signal. -/
inductive Step {α : Type} (env : Env) (allowed : Oracle → Prop) :
    Status α → Happening → Status α → Prop
  | call {op : RunOp} {next : op.Reply → Prog RunOp RunOp.Reply α} {r : op.Reply}
      {s t : Launcher} (hmay : (launching env allowed).may op s r t) :
      Step env allowed (.running (.call op next) s) .call (.running (next r) t)
  | edit {p : Prog RunOp RunOp.Reply α} {s t : Launcher} (hedit : s.Edited t) :
      Step env allowed (.running p s) .edit (.running p t)
  | forwarded {p : Prog RunOp RunOp.Reply α} {s : Launcher} {signal : Signal}
      (hhandled : s.handled signal = true) :
      Step env allowed (.running p s) (.signal signal) (.running p s)
  | ended {p : Prog RunOp RunOp.Reply α} {s : Launcher} {signal : Signal}
      (hhandled : s.handled signal = false) :
      Step env allowed (.running p s) (.signal signal) (.ended signal s)

end CodexVault
