import CodexVault.Catalogue
import CodexVault.ProfileListing

/-!
# What the store's functions do to the catalogue

Each function of the store, run among others that keep the catalogue, keeps it too,
and respects the locks and temporary files of other processes.  A rotation holds the
lock of its profile from the time it reads the manifest until it has replaced it.

`ReadsAmong` collects what a process needs that only looks.
-/

namespace CodexVault

open ByteStrings Programs Contract

/-- What a process of the store relies on. -/
abbrev VaultStore.relies (lib : Libraries) (store : VaultStore) (uid : UInt32)
    (added : List String) (occupied : String → Prop) (process : Nat) : World → World → Prop :=
  Relies (fun w => store.Catalogued lib uid added occupied w.fs) (store.Spared added process)

/-- What a process of the store grants. -/
abbrev VaultStore.grants (lib : Libraries) (store : VaultStore) (uid : UInt32)
    (added : List String) (occupied : String → Prop) (process : Nat) : World → World → Prop :=
  Grants (fun w => store.Catalogued lib uid added occupied w.fs) (store.Spared added) process

/-- Calls that suit everybody can be made, and the catalogue stays what it is. -/
structure VaultStore.ReadsAmong (lib : Libraries) (store : VaultStore) (uid : UInt32)
    (added : List String) (occupied : String → Prop) (env : Env) (allowed : Oracle → Prop)
    (rely guar : World → World → Prop) : Prop where
  relied : ∀ {s t}, store.Catalogued lib uid added occupied s.fs → rely s t →
    store.Catalogued lib uid added occupied t.fs
  granted : ∀ {op s r t},
    (∀ process, store.Gentle lib uid added occupied env allowed process op) →
    store.Catalogued lib uid added occupied s.fs → (machine env allowed).may op s r t → guar s t

/-- The process holds the lock of the profile. -/
structure VaultStore.Locked (lib : Libraries) (store : VaultStore) (uid : UInt32)
    (added : List String) (occupied : String → Prop) (username : String) (lock : Handle)
    (w : World) : Prop where
  catalogued : store.Catalogued lib uid added occupied w.fs
  held : w.locked (store.lockPath username) = some lock

section

variable {lib : Libraries} {store : VaultStore} {uid : UInt32} {added : List String}
    {occupied : String → Prop} {env : Env} {allowed : Oracle → Prop} {w : World} {ε α : Type}
    {username : String} {lock : Handle} {rely guar : World → World → Prop}

/-! ## Gentle calls -/

theorem gentle_holds {p : ExceptT ε (Prog Op Op.Reply) α}
    (hp : Uses (store.Gentle lib uid added occupied env allowed env.process) p.run)
    (hw : store.Catalogued lib uid added occupied w.fs) :
    (machine env allowed).HoldsE (store.relies lib uid added occupied env.process)
      (store.grants lib uid added occupied env.process) p
      (fun _ t => store.Catalogued lib uid added occupied t.fs)
      (fun _ t => store.Catalogued lib uid added occupied t.fs) w := by
  apply holdsE_of_uses (I := fun t : World => store.Catalogued lib uid added occupied t.fs)
    (fun s t hs hrely => (hrely hs).1) _ hp hw
  intro op s r t hop hs hmay
  obtain ⟨hkeeps, hspared⟩ := hop s r t hs hmay
  exact ⟨fun _ => ⟨hs.keeps hkeeps, hspared⟩, hs.keeps hkeeps⟩

/-- A single gentle call. -/
theorem gentle_request {op : Op}
    (hop : store.Gentle lib uid added occupied env allowed env.process op)
    (hw : store.Catalogued lib uid added occupied w.fs) :
    (machine env allowed).Holds (store.relies lib uid added occupied env.process)
      (store.grants lib uid added occupied env.process) (request op)
      (fun _ t => store.Catalogued lib uid added occupied t.fs) w := by
  intro s hs r t hmay
  have hs := (hs hw).1
  obtain ⟨hkeeps, hspared⟩ := hop s r t hs hmay
  exact ⟨fun _ => ⟨hs.keeps hkeeps, hspared⟩, hs.keeps hkeeps⟩

theorem VaultStore.Locked.relied {s t : World} {process : Nat}
    (h : store.Locked lib uid added occupied username lock s) (hlock : lock.process = process)
    (hrely : store.relies lib uid added occupied process s t) :
    store.Locked lib uid added occupied username lock t := by
  obtain ⟨ht, hspared⟩ := hrely h.catalogued
  exact ⟨ht, hspared.locks _ lock hlock h.held⟩

/-- Gentle calls of a process that holds a lock. -/
theorem gentle_holds_locked {p : ExceptT ε (Prog Op Op.Reply) α}
    (hp : Uses (fun op => store.Gentle lib uid added occupied env allowed env.process op ∧
      ¬ op.TouchesLocks) p.run)
    (hlock : lock.process = env.process)
    (hw : store.Locked lib uid added occupied username lock w) :
    (machine env allowed).HoldsE (store.relies lib uid added occupied env.process)
      (store.grants lib uid added occupied env.process) p
      (fun _ t => store.Locked lib uid added occupied username lock t)
      (fun _ t => store.Locked lib uid added occupied username lock t) w := by
  apply holdsE_of_uses (I := fun t : World => store.Locked lib uid added occupied username lock t)
    (fun s t hs hrely => hs.relied hlock hrely) _ hp hw
  intro op s r t hop hs hmay
  obtain ⟨hkeeps, hspared⟩ := hop.1 s r t hs.catalogued hmay
  refine ⟨fun _ => ⟨hs.catalogued.keeps hkeeps, hspared⟩, hs.catalogued.keeps hkeeps, ?_⟩
  rw [locked_of_may hop.2 hmay, hs.held]

/-! ## Files of a profile -/

/-- A file of a profile that is no manifest. -/
def OtherFile (name : String) : Prop :=
  name ≠ "manifest.json" ∧ name ≠ "codex-home" ∧ ∀ id, name ≠ temporaryManifest id

theorem OtherFile.not_sensitive {parent name : String} (h : OtherFile name) {q : FsPath}
    (hq : store.Sensitive q) : ¬ store.usersRoot ++ [parent] ++ [name] <+: q := by
  intro hpre
  rcases hq with hshort | ⟨parent', name', _, rfl, hname⟩
  · have hlen := (hpre.trans hshort).length_le
    simp only [List.length_append, List.length_singleton] at hlen
    omega
  · have heq := hpre.eq_of_length (by simp)
    have hsplit : store.usersRoot ++ [parent', name'] =
        (store.usersRoot ++ [parent']) ++ [name'] := by simp
    rw [hsplit] at heq
    obtain ⟨_, hlast⟩ := List.append_inj' heq rfl
    have hlast := List.singleton_inj.mp hlast
    rcases hname with hname | hname | ⟨id, hname⟩
    · exact h.1 (hlast.trans hname)
    · exact h.2.1 (hlast.trans hname)
    · exact h.2.2 id (hlast.trans hname)

theorem OtherFile.ne_sensitive {parent name : String} (h : OtherFile name) {q : FsPath}
    (hq : store.Sensitive q) : q ≠ store.usersRoot ++ [parent] ++ [name] := by
  rintro rfl
  exact h.not_sensitive hq List.prefix_rfl

theorem otherFile_lock : OtherFile "active.lock" := by
  refine ⟨by decide, by decide, fun id h => ?_⟩
  exact absurd (h ▸ dotted_temporaryManifest id) (by decide)

theorem otherFile_state : OtherFile "state.cvlt" := by
  refine ⟨by decide, by decide, fun id h => ?_⟩
  exact absurd (h ▸ dotted_temporaryManifest id) (by decide)

theorem otherFile_stateTemporary {id : Uuid} : OtherFile (stateTemporary lib id) := by
  refine ⟨stateTemporary_ne.2.1, fun h => ?_, fun other h => ?_⟩
  · have hchars := congrArg String.toList h
    simp [stateTemporary] at hchars
  · have hchars := congrArg String.toList h
    simp [stateTemporary, temporaryManifest] at hchars

/-- Calls on one file of a profile. -/
theorem gentle_onFile {op : Op} {parent name : String} {process : Nat} (h : OtherFile name)
    (hop : ∀ fs q, op.MayChange env fs q → q = store.usersRoot ++ [parent] ++ [name])
    (hlocks : ¬ op.TouchesLocks) :
    store.Gentle lib uid added occupied env allowed process op :=
  gentle_of_spares (fun _ hq _ hchange => h.ne_sensitive hq (hop _ _ hchange)) hlocks

/-! ## Taking a lock -/

/-- The calls on a lock file besides those that take it or give it up. -/
theorem gentle_onLock {op : Op} {process : Nat}
    (hop : ∀ fs q, op.MayChange env fs q → q = store.lockPath username)
    (hlocks : ¬ op.TouchesLocks) :
    store.Gentle lib uid added occupied env allowed process op :=
  gentle_onFile otherFile_lock hop hlocks

theorem gentle_lstat {p : FsPath} {process : Nat} :
    store.Gentle lib uid added occupied env allowed process (.lstat p) :=
  gentle_of_readOnly (fun _ _ h => h) (fun h => h)

/-- What a process does to the lock file once it holds it. -/
theorem ownLock_holds (hlock : lock.process = env.process)
    (hw : store.Locked lib uid added occupied username lock w) :
    (machine env allowed).HoldsE (store.relies lib uid added occupied env.process)
      (store.grants lib uid added occupied env.process) (do
        sys (request (.setLength (store.lockPath username)))
        sys (request (.seek (store.lockPath username)))
        let process ← ask .processId
        sys (request (.writeText (store.lockPath username)
          ("\x7b\"pid\":" ++ toString process ++ "\x7d\n"))) : Io Unit)
      (fun _ t => store.Locked lib uid added occupied username lock t)
      (fun _ t => store.Catalogued lib uid added occupied t.fs) w := by
  refine holdsE_mono (gentle_holds_locked ?_ hlock hw) (fun _ _ ht => ht)
    fun _ _ ht => ht.catalogued
  apply uses_run_bind (uses_sys (uses_request
    ⟨gentle_onLock (fun _ _ hq => hq) (fun h => h), fun h => h⟩))
  intro _
  apply uses_run_bind (uses_sys (uses_request
    ⟨gentle_of_readOnly (fun _ _ hq => hq) (fun h => h), fun h => h⟩))
  intro _
  apply uses_run_bind (uses_ask
    ⟨gentle_of_readOnly (fun _ _ hq => hq) (fun h => h), fun h => h⟩)
  intro process
  exact uses_sys (uses_request ⟨gentle_onLock (fun _ _ hq => hq) (fun h => h), fun h => h⟩)

theorem takeLock_holds (hlock : lock.process = env.process)
    (hw : store.Catalogued lib uid added occupied w.fs) :
    (machine env allowed).HoldsE (store.relies lib uid added occupied env.process)
      (store.grants lib uid added occupied env.process)
      (takeLock (store.lockPath username) lock)
      (fun _ t => store.Locked lib uid added occupied username lock t)
      (fun _ t => store.Catalogued lib uid added occupied t.fs) w := by
  have hmode : store.Gentle lib uid added occupied env allowed env.process
      (.setPermissions (store.lockPath username) 0o600) :=
    gentle_onLock (fun _ _ hq => hq) (fun h => h)
  apply holdsE_bind
  apply holdsE_mono (gentle_holds (uses_sys (uses_request hmode)) hw) _ fun _ _ ht => ht
  intro _ t ht
  apply holdsE_bind
  apply holdsE_attempt
  apply holdsE_mapError
  intro s hs r u hmay
  have hs := (hs ht).1
  have htry : store.Gentle lib uid added occupied env allowed env.process
      (.tryLock (store.lockPath username) lock) := gentle_tryLock hlock
  obtain ⟨hkeeps, hspared⟩ := htry s r u hs hmay
  have hu := hs.keeps hkeeps
  refine ⟨fun _ => ⟨hu, hspared⟩, ?_⟩
  cases r with
  | error e =>
      change (machine env allowed).HoldsE _ _
        (if e.kind = .wouldBlock then throw .locked else throw (.io e) : Io Unit) _ _ u
      split
      · exact hu
      · exact hu
  | ok granted =>
      obtain ⟨_, _, hlocked⟩ := may_tryLock_ok hmay
      have hheld : store.Locked lib uid added occupied username lock u := by
        refine ⟨hu, ?_⟩
        rw [hlocked, World.lock, if_pos rfl]
      exact ownLock_holds hlock hheld

/-- **The lock of a profile**, once it is taken. -/
theorem lockProfile_holds (hw : store.Catalogued lib uid added occupied w.fs) :
    (machine env allowed).HoldsE (store.relies lib uid added occupied env.process)
      (store.grants lib uid added occupied env.process)
      (VaultStore.lockProfile env (store.userRoot username))
      (fun lock t => lock.process = env.process ∧
        store.Locked lib uid added occupied username lock t)
      (fun _ t => store.Catalogued lib uid added occupied t.fs) w := by
  apply holdsE_bind
  apply holdsE_mapError
  apply holdsE_mono (gentle_holds (uses_validatePrivateDirectory gentle_lstat) hw) _
    fun _ _ ht => ht
  intro _ t ht
  apply holdsE_bind
  apply holdsE_mapError
  intro s hs r u hmay
  have hs := (hs ht).1
  have hopen : store.Gentle lib uid added occupied env allowed env.process
      (.openLock (store.lockPath username)) := gentle_onLock (fun _ _ hq => hq) (fun h => h)
  obtain ⟨hkeeps, hspared⟩ := hopen s r u hs hmay
  have hu := hs.keeps hkeeps
  refine ⟨fun _ => ⟨hu, hspared⟩, ?_⟩
  cases r with
  | error e => exact hu
  | ok lock =>
      have hlock : lock.process = env.process := by
        rw [(may_openLock_ok hmay).1]
      apply holdsE_bind
      apply holdsE_onError
      apply holdsE_mono (takeLock_holds hlock hu)
      · intro _ v hv
        exact ⟨hlock, hv⟩
      · intro _ v hv
        exact gentle_request (gentle_closeFile hlock) hv

/-! ## Reading a manifest -/

theorem VaultStore.ReadsAmong.step {op : Op} {r : op.Reply} {s t : World}
    (h : store.ReadsAmong lib uid added occupied env allowed rely guar)
    (hs : store.Catalogued lib uid added occupied s.fs)
    (hop : ∀ process, store.Gentle lib uid added occupied env allowed process op)
    (hmay : (machine env allowed).may op s r t) :
    guar s t ∧ store.Catalogued lib uid added occupied t.fs :=
  ⟨h.granted hop hs hmay, hs.keeps (hop env.process s r t hs hmay).1⟩

theorem may_of_quiet {op : Op} {r : op.Reply} {s t : World}
    (hall : ∀ oracle, allowed oracle → oracle.Quiet) (h : (machine env allowed).may op s r t) :
    (machine env Oracle.Quiet).may op s r t := by
  obtain ⟨oracle, hallowed, hrest⟩ := h
  exact ⟨oracle, hall oracle hallowed, hrest⟩

theorem VaultStore.Catalogued.manifest_at {name : String} {fs : FileSystem}
    (h : store.Catalogued lib uid added occupied fs) (hname : name ∈ added.map toAsciiLowercase) :
    ∃ contents holes m, fs.node (store.usersRoot ++ [name] ++ ["manifest.json"]) =
      some (.file { owner := uid, mode := 0o600 } contents holes) ∧
    parseManifest lib contents = .ok m := by
  obtain ⟨u, hu, rfl⟩ := List.mem_map.mp hname
  obtain ⟨contents, holes, m, hnode, hparse, _⟩ := (h.profiles u hu).manifest
  exact ⟨contents, holes, m, hnode, hparse⟩

/-- The manifest of a profile is a private file of the right size, when nothing fails. -/
theorem manifestStatus_holds {name : String}
    (h : store.ReadsAmong lib uid added occupied env allowed rely guar) (huid : env.uid = uid)
    (hw : store.Catalogued lib uid added occupied w.fs) :
    (machine env allowed).HoldsE rely guar
      (validatePrivateFile env (store.usersRoot ++ [name] ++ ["manifest.json"]))
      (fun status t => store.Catalogued lib uid added occupied t.fs ∧
        ((∀ oracle, allowed oracle → oracle.Quiet) → name ∈ added.map toAsciiLowercase →
          status.len ≤ manifestSizeLimit))
      (fun _ t => store.Catalogued lib uid added occupied t.fs ∧
        ((∀ oracle, allowed oracle → oracle.Quiet) → name ∉ added.map toAsciiLowercase)) w := by
  apply holdsE_bind
  apply holdsE_mapError
  intro s hs r t hmay
  have hs := h.relied hw hs
  obtain ⟨hguar, ht⟩ := h.step hs (fun _ => gentle_lstat) hmay
  refine ⟨hguar, ?_⟩
  have hseen : (∀ oracle, allowed oracle → oracle.Quiet) → name ∈ added.map toAsciiLowercase →
      ∃ contents holes, contents.length ≤ manifestSizeLimit ∧
        r = .ok (Node.file { owner := uid, mode := 0o600 } contents holes).status := by
    intro hall hmem
    obtain ⟨contents, holes, m, hnode, hparse⟩ := hs.manifest_at hmem
    exact ⟨contents, holes, (parseManifest_eq_ok.mp hparse).1,
      (may_lstat_quiet hnode (may_of_quiet hall hmay)).1⟩
  cases r with
  | error e =>
      refine ⟨ht, fun hall hmem => ?_⟩
      obtain ⟨_, _, _, heq⟩ := hseen hall hmem
      cases heq
  | ok status =>
      apply holdsE_bind
      cases hcheck : checkPrivateFile env (store.usersRoot ++ [name] ++ ["manifest.json"])
          status with
      | error e =>
          refine ⟨ht, fun hall hmem => ?_⟩
          obtain ⟨contents, holes, _, heq⟩ := hseen hall hmem
          cases heq
          unfold checkPrivateFile at hcheck
          rw [if_neg (by simp [Node.status]), if_neg] at hcheck
          · cases hcheck
          · rintro (hother | hopen)
            · exact hother huid.symm
            · exact hopen (by simp [Node.status])
      | ok u =>
          refine ⟨ht, fun hall hmem => ?_⟩
          obtain ⟨contents, holes, hlen, heq⟩ := hseen hall hmem
          cases heq
          exact hlen

theorem gentle_openRead {p : FsPath} {process : Nat} :
    store.Gentle lib uid added occupied env allowed process (.openRead p) :=
  gentle_of_readOnly (fun _ _ h => h) (fun h => h)

/-- A manifest that is read is that of a profile. -/
theorem VaultStore.Catalogued.parsed {name : String} {fs : FileSystem} {attr : Attr}
    {contents : Bytes} {holes : Bool} {m : UserManifest}
    (h : store.Catalogued lib uid added occupied fs) (hname : ¬ Dotted name)
    (hnode : fs.node (store.usersRoot ++ [name] ++ ["manifest.json"]) =
      some (.file attr contents holes))
    (hparse : parseManifest lib contents = .ok m) :
    m.username ∈ added ∧ toAsciiLowercase m.username = name ∧ m.Valid lib := by
  have hsplit : store.usersRoot ++ [name] ++ ["manifest.json"] =
      store.usersRoot ++ [name, "manifest.json"] := by simp
  rw [hsplit] at hnode
  obtain ⟨u, hu, hlower⟩ := h.mem_of_isFile hname ⟨attr, contents, holes, hnode⟩
  obtain ⟨_, _, m', hnode', hparse', huser⟩ := (h.profiles u hu).manifest
  rw [VaultStore.manifestPath_eq, hlower, hnode] at hnode'
  cases hnode'
  rw [hparse] at hparse'
  cases hparse'
  rw [huser]
  exact ⟨hu, hlower, (parseManifest_eq_ok.mp hparse).2.2⟩

/-- **What is read from the users directory**: the manifests of the profiles, all of
them when nothing fails. -/
theorem readManifest_holds {name : String}
    (h : store.ReadsAmong lib uid added occupied env allowed rely guar) (huid : env.uid = uid)
    (hname : ¬ Dotted name) (hw : store.Catalogued lib uid added occupied w.fs) :
    (machine env allowed).HoldsE rely guar (readManifest lib env (store.usersRoot ++ [name]))
      (fun m t => store.Catalogued lib uid added occupied t.fs ∧ m.username ∈ added ∧
        toAsciiLowercase m.username = name ∧ m.Valid lib)
      (fun _ t => store.Catalogued lib uid added occupied t.fs ∧
        ((∀ oracle, allowed oracle → oracle.Quiet) → name ∉ added.map toAsciiLowercase)) w := by
  apply holdsE_bind
  apply holdsE_mono (manifestStatus_holds h huid hw) _ fun _ _ ht => ht
  rintro status t ⟨ht, hlen⟩
  split
  · next hlong =>
      refine ⟨ht, fun hall hmem => ?_⟩
      have hshort := hlen hall hmem
      omega
  apply holdsE_bind
  apply holdsE_mapError
  intro s hs r u hmay
  have hs := h.relied ht hs
  obtain ⟨hguar, hu⟩ := h.step hs (fun _ => gentle_openRead) hmay
  refine ⟨hguar, ?_⟩
  have hread : (∀ oracle, allowed oracle → oracle.Quiet) → name ∈ added.map toAsciiLowercase →
      ∃ contents m, r = .ok (contents, none) ∧ parseManifest lib contents = .ok m := by
    intro hall hmem
    obtain ⟨contents, holes, m, hnode, hparse⟩ := hs.manifest_at hmem
    exact ⟨contents, m, may_openRead_quiet hnode huid.symm
      (show (0o600 : Nat) &&& 0o400 = 0o400 by decide) (may_of_quiet hall hmay),
      hparse⟩
  cases r with
  | error e =>
      refine ⟨hu, fun hall hmem => ?_⟩
      obtain ⟨_, _, heq, _⟩ := hread hall hmem
      cases heq
  | ok opened =>
      obtain ⟨_, attr, contents, holes, hnode, hfile⟩ := may_openRead_ok hmay
      apply holdsE_bind
      cases hlimited : readLimited (manifestSizeLimit + 1) opened with
      | error e =>
          refine ⟨hu, fun hall hmem => ?_⟩
          obtain ⟨_, _, heq, _⟩ := hread hall hmem
          cases heq
          cases hlimited
      | ok read =>
          change (machine env allowed).HoldsE _ _ (ofExcept (parseManifest lib read)) _ _ u
          cases hparse : parseManifest lib read with
          | error e =>
              refine ⟨hu, fun hall hmem => ?_⟩
              obtain ⟨contents, m, heq, hgood⟩ := hread hall hmem
              cases heq
              have htake : contents.take (manifestSizeLimit + 1) = read := Except.ok.inj hlimited
              have hlen := (parseManifest_eq_ok.mp hgood).1
              rw [← htake, List.take_of_length_le (by omega), hgood] at hparse
              cases hparse
          | ok m =>
              exact ⟨hu, hs.parsed hname hnode (parseManifest_of_readLimited hfile hlimited hparse)⟩

end

end CodexVault
