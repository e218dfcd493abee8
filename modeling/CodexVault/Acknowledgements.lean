import CodexVault.ChronicleRuns

/-!
# What is acknowledged is on the books

A call that returns `Ok` has made its rename, and a rename that was made stays in the
record of the call.  So an acknowledged creation, rotation or close is booked.

A call can be booked without being acknowledged: it may fail after its rename, or its
process may die.
-/

namespace CodexVault

open ByteStrings Programs Contract

section

variable {lib : Libraries} {store : VaultStore} {uid : UInt32} {known : Bytes → Prop}
    {env : Env} {allowed : Oracle → Prop} {accounts : List Account} {occupied : String → Prop}
    {vaults : List UnlockedVault} {vault : UnlockedVault} {w w' : World} {α : Type}
    {target source directory parent root : FsPath} {name username : String} {dataKey : Key}

/-! ## The record of a call -/

/-- The record only grows. -/
theorem tookEffect_of_runs {p : Prog Op Op.Reply α} {a : α} (h : w.tookEffect target = true)
    (hrun : (machine env allowed).Runs p w a w') : w'.tookEffect target = true := by
  obtain ⟨newer, hnewer, _⟩ := history_of_runs uses_any hrun
  unfold World.tookEffect at h ⊢
  rw [hnewer, List.any_append, h, Bool.or_true]

/-- A rename that succeeds is on the record. -/
theorem tookEffect_of_renamed
    (h : (machine env allowed).Runs (sys (request (.rename source target))).run w (.ok ()) w') :
    w'.tookEffect target = true := by
  rw [tookEffect_of_rename (runs_request.mp (runs_sys_ok.mp h))]
  exact Bool.true_or _

/-- The record of a rename, from the calls since then. -/
theorem tookEffect_of_sinceRename {since : List Event}
    (h : sinceRename target w.history = some since) : w.tookEffect target = true := by
  have hany : ∀ history since, sinceRename target history = some since →
      ∃ event ∈ history, event.renamesOnto target = true := by
    intro history
    induction history with
    | nil => exact fun _ h => nomatch h
    | cons event older ih =>
        intro since h
        unfold sinceRename at h
        split at h
        · next honto => exact ⟨event, List.mem_cons_self, honto⟩
        · obtain ⟨older', hsince, _⟩ := Option.map_eq_some_iff.mp h
          obtain ⟨e, he, honto⟩ := ih older' hsince
          exact ⟨e, List.mem_cons_of_mem _ he, honto⟩
  obtain ⟨⟨op, error⟩, hmem, honto⟩ := hany _ _ h
  refine List.any_eq_true.mpr ⟨_, hmem, ?_⟩
  unfold Event.renamesOnto at honto
  split at honto
  · next hop herror =>
      dsimp only at hop herror
      subst hop herror
      exact honto
  · cases honto

/-! ## Calls that return `Ok` -/

/-- A seal. -/
theorem tookEffect_of_sealDirectory
    (h : (machine env allowed).Runs (sealDirectory lib directory target dataKey).run w
      (.ok ()) w') :
    w'.tookEffect target = true := by
  obtain ⟨id, w1, _, hbody⟩ := runs_ask_bind.mp h
  have hinto := runs_onError_ok.mp hbody
  rw [sealInto_eq] at hinto
  obtain ⟨_, w2, _, hrename⟩ := runs_ok_bind.mp hinto
  exact tookEffect_of_renamed hrename

/-- A close. -/
theorem tookEffect_of_close
    (h : (machine env allowed).Runs (vault.close lib).run w (.ok ()) w') :
    w'.tookEffect vault.statePath = true := by
  obtain ⟨result, w1, hseal, hend⟩ := runs_attempt_bind.mp h
  obtain ⟨_, w2, _, hrest⟩ := runs_attempt_bind.mp hend
  obtain ⟨_, w3, _, hrest⟩ := runs_attempt_bind.mp hrest
  obtain ⟨_, w4, _, hrest⟩ := runs_ask_bind.mp hrest
  obtain ⟨_, w5, hresult, _⟩ := runs_ok_bind.mp hrest
  obtain ⟨hok, _⟩ := runs_ofExcept.mp hresult
  exact tookEffect_of_runs (tookEffect_of_sealDirectory (hok ▸ hseal)) hend

/-- The closure of a creation. -/
theorem tookEffect_of_createProfile {password : Bytes} {staging : FsPath}
    (h : (machine env allowed).Runs
      (VaultStore.createProfile lib username password staging target).run w (.ok ()) w') :
    w'.tookEffect target = true := by
  obtain ⟨kdf, w1, _, hrest⟩ := runs_ok_bind.mp h
  obtain ⟨wrappingKey, w2, _, hrest⟩ := runs_ok_bind.mp hrest
  obtain ⟨random, w3, _, hrest⟩ := runs_ask_bind.mp hrest
  cases random with
  | none => cases (runs_run_throw.mp hrest).1
  | some key =>
      obtain ⟨manifest, w4, _, hrest⟩ := runs_ok_bind.mp hrest
      obtain ⟨aad, w5, _, hrest⟩ := runs_ok_bind.mp hrest
      obtain ⟨wrapped, w6, _, hrest⟩ := runs_ok_bind.mp hrest
      obtain ⟨_, w7, _, hrest⟩ := runs_ok_bind.mp hrest
      obtain ⟨empty, w8, _, hrest⟩ := runs_ok_bind.mp hrest
      obtain ⟨result, w9, hcommit, hend⟩ := runs_attempt_bind.mp hrest
      obtain ⟨_, w10, _, hresult⟩ := runs_ok_bind.mp hend
      obtain ⟨hok, _⟩ := runs_ofExcept.mp hresult
      obtain ⟨_, w11, _, hrename⟩ := runs_ok_bind.mp (hok ▸ hcommit)
      exact tookEffect_of_runs (tookEffect_of_renamed hrename) hend

/-- A creation. -/
theorem tookEffect_of_addUser {password : Bytes}
    (h : (machine env allowed).Runs (store.addUser lib env username password).run w (.ok ()) w') :
    w'.tookEffect (store.userRoot username) = true := by
  obtain ⟨_, w1, _, hrest⟩ := runs_ok_bind.mp h
  obtain ⟨_, w2, _, hrest⟩ := runs_ok_bind.mp hrest
  obtain ⟨_, w3, _, hrest⟩ := runs_ok_bind.mp hrest
  obtain ⟨found, w4, _, hrest⟩ := runs_attempt_bind.mp hrest
  cases found with
  | ok status => cases (runs_run_throw.mp hrest).1
  | error e =>
      obtain ⟨id, w5, _, hrest⟩ := runs_ask_bind.mp hrest
      obtain ⟨_, w6, _, hrest⟩ := runs_ok_bind.mp hrest
      exact tookEffect_of_createProfile (runs_onError_ok.mp hrest)

/-- **A rotation** that is acknowledged was given the password of the manifest in place. -/
theorem rotatePassword_ok {current new : Bytes}
    (h : (machine env allowed).Runs (store.rotatePassword lib env username current new).run w
      (.ok ()) w') :
    w'.tookEffect (store.manifestPath username) = true ∧ isValidUsername username = true ∧
      ∃ attr contents holes m dataKey, w.fs.node (store.manifestPath username) =
        some (.file attr contents holes) ∧ parseManifest lib contents = .ok m ∧
        openManifest lib username current m = .ok dataKey := by
  obtain ⟨_, w1, hvalid, _⟩ := runs_ok_bind.mp h
  have hvalid := validateUsername_ok (runs_ofExcept.mp hvalid).1.symm
  cases rotatePassword_outcome h with
  | rewrapped r w'' contents m m' oracle dataKey _ hcontents hparse hrewraps houtcome =>
      cases houtcome with
      | replaced _ _ since _ _ hsince _ =>
          refine ⟨tookEffect_of_sinceRename hsince, hvalid, ?_⟩
          unfold World.contents at hcontents
          split at hcontents
          · next attr contents' holes hnode =>
              cases hcontents
              exact ⟨attr, _, holes, m, dataKey, hnode, hparse, hrewraps.opened⟩
          · cases hcontents

end

end CodexVault
