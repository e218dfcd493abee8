import CodexVault.VaultErrors
import Mathlib.Logic.Function.Basic

/-!
# Daemon instances on one socket path

`bindListener`, `removeStaleSocket` and the drop of `SocketGuard` make one
system call at a time.  A `Phase` is a point between two calls: `Phase.call` is
the call that comes next and `Phase.resume` what the code does with its reply.
The kernel's side is `answer`: one file name, the sockets that are open, and for
each call a reply and a new state.

`Step` interleaves any number of instances.  A bound socket pins its inode, so a
new file never has the identity of a socket that is still open; calls may also
fail for unrelated reasons, and an instance may be killed at any point.
-/

namespace CodexVault

/-- Device and inode of a file. -/
structure FileId where
  device : Nat
  inode : Nat
  deriving DecidableEq

/-- What `symlink_metadata` reports; `exposed` is `mode & 0o077 != 0`. -/
structure Metadata where
  id : FileId
  isSocket : Bool
  owned : Bool
  exposed : Bool
  deriving DecidableEq

/-- A socket that is bound, and whether `listen` was called on it. -/
structure OpenSocket where
  id : FileId
  listening : Bool
  deriving DecidableEq

/-- The system calls on the socket path. -/
inductive Call where
  | lstat
  | connect
  | unlink
  | bind
  | listen
  | chmod
  | close
  deriving DecidableEq

inductive Reply where
  | metadata (file : Metadata)
  | done
  | failed (kind : ErrorKind)
  deriving DecidableEq

/-- The points of a daemon's life between two system calls. -/
inductive Phase where
  | idle
  /-- `remove_stale_socket`, before `symlink_metadata`. -/
  | probing
  /-- `remove_stale_socket`, before `UnixStream::connect`. -/
  | connecting
  /-- `remove_stale_socket`, before `fs::remove_file`. -/
  | removing
  /-- `UnixListener::bind`, before `bind`. -/
  | binding
  /-- `UnixListener::bind`, before `listen`. -/
  | bound
  /-- `bind_listener`, before the first `symlink_metadata`. -/
  | inspecting
  /-- `bind_listener`, before the `remove_file` of a failed inspection. -/
  | discarding (error : VaultError)
  /-- `bind_listener`, before `set_permissions`. -/
  | securing (guard : FileId)
  /-- `bind_listener`, before the second `symlink_metadata`. -/
  | verifying (guard : FileId)
  /-- `bind_listener` returned `Ok` and the guard is alive. -/
  | running (guard : FileId)
  /-- `SocketGuard::drop`, before `symlink_metadata`. -/
  | releasing (guard : FileId) (error : Option VaultError)
  /-- `SocketGuard::drop`, before `remove_file`. -/
  | unlinking (guard : FileId) (error : Option VaultError)
  /-- Before the listener is closed. -/
  | closing (error : Option VaultError)
  | stopped (error : Option VaultError)
  deriving DecidableEq

namespace Phase

/-- The next system call. -/
def call : Phase → Option Call
  | idle | running _ | stopped _ => none
  | probing | inspecting | verifying _ | releasing _ _ => some .lstat
  | connecting => some .connect
  | removing | discarding _ | unlinking _ _ => some .unlink
  | binding => some .bind
  | bound => some .listen
  | securing _ => some .chmod
  | closing _ => some .close

def osError (kind : ErrorKind) : VaultError := .io (.os kind)

/-- What the code does with the reply.  An error after the guard exists drops the
guard first and the listener second, as the end of a running daemon does. -/
def resume : Phase → Reply → Phase
  | probing, .metadata file =>
      if file.isSocket = false ∨ file.owned = false then
        stopped (some (.invalidConfiguration
          "daemon socket path exists and is not a socket owned by the current UID"))
      else connecting
  | probing, .failed kind => if kind = .notFound then binding else stopped (some (osError kind))
  | connecting, .done => stopped (some .daemonAlreadyRunning)
  | connecting, .failed kind =>
      if kind = .connectionRefused ∨ kind = .notFound then removing
      else stopped (some (osError kind))
  | removing, .done => binding
  | removing, .failed kind => stopped (some (osError kind))
  | binding, .done => bound
  | binding, .failed kind => stopped (some (osError kind))
  | bound, .done => inspecting
  | bound, .failed kind => closing (some (osError kind))
  | inspecting, .metadata file => securing file.id
  | inspecting, .failed kind => discarding (osError kind)
  | discarding error, _ => closing (some error)
  | securing guard, .done => verifying guard
  | securing guard, .failed kind => releasing guard (some (osError kind))
  | verifying guard, .metadata file =>
      if file.isSocket = false ∨ file.owned = false ∨ file.exposed = true then
        releasing guard (some (.invalidConfiguration
          "daemon socket has unsafe ownership or permissions"))
      else running guard
  | verifying guard, .failed kind => releasing guard (some (osError kind))
  | releasing guard error, .metadata file =>
      if file.isSocket = true ∧ file.id = guard then unlinking guard error else closing error
  | releasing _ error, .failed _ => closing error
  | unlinking _ error, _ => closing error
  | closing error, _ => stopped error
  | phase, _ => phase

end Phase

/-- What the kernel is free to choose in one call. -/
structure Choice where
  /-- A failure that has nothing to do with the path. -/
  fault : Option ErrorKind
  /-- The identity of a file created by `bind`. -/
  freshId : FileId
  /-- Whether the umask leaves the new file accessible to others. -/
  exposed : Bool

/-- What a call does when nothing unrelated fails, for an instance with socket
`own`; `accepts` says whether an open socket listens on the file at the path.
The result is the reply, the file at the path and the instance's socket. -/
def perform (path : Option Metadata) (own : Option OpenSocket) (accepts : Bool)
    (choice : Choice) : Call → Reply × Option Metadata × Option OpenSocket
  | .lstat =>
      match path with
      | some file => (.metadata file, path, own)
      | none => (.failed .notFound, path, own)
  | .connect =>
      match path with
      | some _ => if accepts then (.done, path, own) else (.failed .connectionRefused, path, own)
      | none => (.failed .notFound, path, own)
  | .unlink =>
      match path with
      | some _ => (.done, none, own)
      | none => (.failed .notFound, path, own)
  | .bind =>
      match path with
      | some _ => (.failed .addrInUse, path, own)
      | none =>
          (.done,
            some { id := choice.freshId, isSocket := true, owned := true,
                   exposed := choice.exposed },
            some { id := choice.freshId, listening := false })
  | .listen => (.done, path, own.map fun socket => { socket with listening := true })
  | .chmod =>
      match path with
      | some file => (.done, some { file with exposed := false }, own)
      | none => (.failed .notFound, path, own)
  | .close => (.done, path, none)

/-- The kernel's answer to one call.  Closing a descriptor always releases it;
every other call may fail and then changes nothing. -/
def answer (path : Option Metadata) (own : Option OpenSocket) (accepts : Bool)
    (choice : Choice) (call : Call) : Reply × Option Metadata × Option OpenSocket :=
  match choice.fault with
  | some kind => if call = .close then (.done, path, none) else (.failed kind, path, own)
  | none => perform path own accepts choice call

/-- The file at the path, the open sockets, and the point each instance is at. -/
structure DaemonState (ι : Type) where
  path : Option Metadata
  socket : ι → Option OpenSocket
  phase : ι → Phase

/-- What happens in one step, and to which instance. -/
inductive DaemonEvent (ι : Type) where
  | start (i : ι)
  | stop (i : ι)
  | kill (i : ι)
  | call (i : ι) (call : Call)

namespace DaemonState

variable {ι : Type} [DecidableEq ι]

/-- Some open socket listens on the file at the path. -/
def Accepts (s : DaemonState ι) : Prop :=
  ∃ file, s.path = some file ∧ ∃ i socket,
    s.socket i = some socket ∧ socket.id = file.id ∧ socket.listening = true

/-- A new file does not have the identity of a file that an open socket pins,
and an unrelated failure does not claim that the path is free or refuses. -/
structure Admits (s : DaemonState ι) (choice : Choice) : Prop where
  fresh : ∀ i socket, s.socket i = some socket → socket.id ≠ choice.freshId
  fault : ∀ kind, choice.fault = some kind → kind ≠ .notFound ∧ kind ≠ .connectionRefused

/-- One instance moves to a phase. -/
def setPhase (s : DaemonState ι) (i : ι) (phase : Phase) : DaemonState ι :=
  { s with phase := Function.update s.phase i phase }

/-- The state after a call of instance `i` was answered. -/
def afterCall (s : DaemonState ι) (i : ι) (out : Reply × Option Metadata × Option OpenSocket) :
    DaemonState ι where
  path := out.2.1
  socket := Function.update s.socket i out.2.2
  phase := Function.update s.phase i ((s.phase i).resume out.1)

/-- The state after an instance was killed: the kernel closes its socket and the
file stays. -/
def killed (s : DaemonState ι) (i : ι) : DaemonState ι :=
  { s with
    socket := Function.update s.socket i none
    phase := Function.update s.phase i (.stopped none) }

/-- One atomic step of some instance. -/
inductive Step (s : DaemonState ι) : DaemonEvent ι → DaemonState ι → Prop
  | start (i : ι) (h : s.phase i = .idle) : Step s (.start i) (s.setPhase i .probing)
  | stop (i : ι) (guard : FileId) (h : s.phase i = .running guard) :
      Step s (.stop i) (s.setPhase i (.releasing guard none))
  | kill (i : ι) : Step s (.kill i) (s.killed i)
  | call (i : ι) (call : Call) (accepts : Bool) (choice : Choice)
      (hcall : (s.phase i).call = some call) (haccepts : accepts = true ↔ s.Accepts)
      (hadmits : s.Admits choice) :
      Step s (.call i call) (s.afterCall i (answer s.path (s.socket i) accepts choice call))

/-- Before any instance starts: no socket is open, and the path is empty or
holds a file nobody listens on. -/
structure Initial (s : DaemonState ι) : Prop where
  idle : ∀ i, s.phase i = .idle
  closed : ∀ i, s.socket i = none

/-- A run whose steps all satisfy `allowed`. -/
inductive Run (allowed : DaemonState ι → DaemonEvent ι → Prop) (s : DaemonState ι) :
    DaemonState ι → Prop
  | refl : Run allowed s s
  | step {s' s'' : DaemonState ι} {event : DaemonEvent ι} (run : Run allowed s s')
      (hallowed : allowed s' event) (hstep : Step s' event s'') : Run allowed s s''

/-- The step unlinks a file that another instance bound and still has open. -/
def UnlinksForeign (s : DaemonState ι) (event : DaemonEvent ι) (s' : DaemonState ι) : Prop :=
  ∃ i file, event = .call i .unlink ∧ s.path = some file ∧ s'.path = none ∧
    ∃ j socket, j ≠ i ∧ s.socket j = some socket ∧ socket.id = file.id

/-- Two different instances are running. -/
def TwoRunning (s : DaemonState ι) : Prop :=
  ∃ i j guard guard', i ≠ j ∧ s.phase i = .running guard ∧ s.phase j = .running guard'

end DaemonState

end CodexVault
