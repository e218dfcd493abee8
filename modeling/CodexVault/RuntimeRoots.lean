import CodexVault.LinkedCalls
import CodexVault.Samples
import CodexVault.StoreCalls

/-!
# The choice of the runtime root

On a machine with links, whatever is at and above the roots that are tried:
`runtime_root_chosen` says which roots a run of `select_runtime_root_from` tries, that
it touches no others, that all it does to the files is to make directories where
nothing was, and that a root it returns is a private directory and no link.
-/

namespace CodexVault

open Programs

/-- The path leads to itself, a directory of the user that is closed to others. -/
structure PrivateRoot (env : Env) (fs : LinkedFiles) (path : FsPath) : Prop where
  resolves : fs.Resolves [] (components path) path
  isPrivate : ∃ attr, fs.entry path = some (.directory attr) ∧ attr.owner = env.uid ∧
    attr.mode &&& 0o077 = 0

/-- The call looks at the path or makes directories on it. -/
def Op.Looks (path : FsPath) : Op → Prop
  | .lstat p | .createDirectories p | .canonicalize p => p = path
  | _ => False

/-- Nothing that was there is altered, and what is new are directories where initial
segments of the paths land. -/
structure GrownBy (paths : List FsPath) (fs fs' : LinkedFiles) : Prop where
  within : LinkedFiles.Within fs fs'
  inode : fs'.inode = fs.inode
  added : ∀ loc e, fs.entry loc = none → fs'.entry loc = some e →
    (∃ attr, e = .directory attr) ∧
      ∃ path ∈ paths, ∃ init, init <+: components path ∧ fs'.Lands init loc

namespace GrownBy

variable {paths paths' : List FsPath} {fs fs' fs'' : LinkedFiles}

theorem refl (paths : List FsPath) (fs : LinkedFiles) : GrownBy paths fs fs := by
  refine ⟨fun _ _ he => he, rfl, fun loc e hnone hsome => ?_⟩
  rw [hnone] at hsome
  cases hsome

theorem trans (h : GrownBy paths fs fs') (h' : GrownBy paths fs' fs'') :
    GrownBy paths fs fs'' := by
  refine ⟨fun loc e he => h'.within loc e (h.within loc e he), h'.inode.trans h.inode,
    fun loc e hnone hsome => ?_⟩
  cases hmid : fs'.entry loc with
  | none => exact h'.added loc e hmid hsome
  | some mid =>
      rw [h'.within loc mid hmid] at hsome
      cases hsome
      obtain ⟨hdir, path, hpath, init, hinit, hlands⟩ := h.added loc e hnone hmid
      exact ⟨hdir, path, hpath, init, hinit, hlands.mono h'.within⟩

theorem mono (h : GrownBy paths fs fs') (hsub : ∀ p ∈ paths, p ∈ paths') :
    GrownBy paths' fs fs' := by
  refine ⟨h.within, h.inode, fun loc e hnone hsome => ?_⟩
  obtain ⟨hdir, path, hpath, hrest⟩ := h.added loc e hnone hsome
  exact ⟨hdir, path, hsub path hpath, hrest⟩

/-- What a recursive `DirBuilder` does. -/
theorem of_made {env : Env} {path : FsPath}
    (h : LinkedFiles.MadeDirectories env (components path) fs fs') : GrownBy [path] fs fs' := by
  induction h with
  | nothing => exact refl _ _
  | @one mid init parent name attr _ hinit hlands hnew _ _ hput ih =>
      have hwithin := LinkedFiles.within_put hput hnew
      refine ih.trans ⟨hwithin, rfl, fun loc e hnone hsome => ?_⟩
      by_cases hloc : loc = parent ++ [name]
      · have hentry := (if_pos hloc).symm.trans hsome
        cases hentry
        exact ⟨⟨_, rfl⟩, path, List.mem_cons_self, init, hinit, hloc ▸ hlands.mono hwithin⟩
      · have hentry := (if_neg hloc).symm.trans hsome
        rw [hnone] at hentry
        cases hentry

end GrownBy

/-- What calls on some paths may do. -/
structure Looked (paths : List FsPath) (w w' : LinkedWorld) : Prop where
  grown : GrownBy paths w.files w'.files
  calls : ∃ made, w'.history = made ++ w.history ∧ ∀ op ∈ made, ∃ path ∈ paths, op.Looks path

namespace Looked

variable {paths paths' : List FsPath} {w w' w'' : LinkedWorld}

theorem refl (paths : List FsPath) (w : LinkedWorld) : Looked paths w w :=
  ⟨.refl _ _, [], rfl, fun _ h => absurd h List.not_mem_nil⟩

theorem trans (h : Looked paths w w') (h' : Looked paths w' w'') : Looked paths w w'' := by
  obtain ⟨made, hmade, hlooks⟩ := h.calls
  obtain ⟨made', hmade', hlooks'⟩ := h'.calls
  refine ⟨h.grown.trans h'.grown, made' ++ made, ?_, fun op hop => ?_⟩
  · rw [hmade', hmade, List.append_assoc]
  · rcases List.mem_append.mp hop with hop | hop
    · exact hlooks' op hop
    · exact hlooks op hop

theorem mono (h : Looked paths w w') (hsub : ∀ p ∈ paths, p ∈ paths') : Looked paths' w w' := by
  obtain ⟨made, hmade, hlooks⟩ := h.calls
  refine ⟨h.grown.mono hsub, made, hmade, fun op hop => ?_⟩
  obtain ⟨path, hpath, hlook⟩ := hlooks op hop
  exact ⟨path, hsub path hpath, hlook⟩

end Looked

variable {env : Env} {transfer : FsPath → Option TransferFault} {w w' : LinkedWorld}

/-- One call. -/
theorem looked_of_call {op : Op} {path : FsPath} (hop : op.Looks path) {reply : op.Reply}
    (h : (linkedMachine env transfer).may op w reply w') : Looked [path] w w' := by
  obtain ⟨hmay, hhistory⟩ := h
  have hcalls : ∃ made, w'.history = made ++ w.history ∧ ∀ op ∈ made, ∃ p ∈ [path], op.Looks p := by
    refine ⟨[op], hhistory, fun other hother => ?_⟩
    rw [List.mem_singleton.mp hother]
    exact ⟨path, List.mem_cons_self, hop⟩
  refine ⟨?_, hcalls⟩
  cases op with
  | lstat p =>
      rw [hmay.1]
      exact .refl _ _
  | canonicalize p =>
      rw [hmay.1]
      exact .refl _ _
  | createDirectories p =>
      obtain rfl : p = path := hop
      exact .of_made hmay.1
  | _ => exact hop.elim

/-! ## One root -/

theorem looked_of_prepareRuntimeRoot {root : RootPath} {r : Except VaultError FsPath}
    (hrun : (linkedMachine env transfer).Runs (prepareRuntimeRoot env root).run w r w') :
    Looked [root.path] w w' :=
  Contract.runs_of_uses (Looked.refl _) Looked.trans
    (fun _ _ _ _ hop hmay => looked_of_call hop hmay)
    (uses_prepareRuntimeRoot (P := Op.Looks root.path) rfl rfl rfl) hrun

/-- Where the checks pass there is a directory, and no link before it. -/
theorem lands_of_validatePrivateDirectory {path : FsPath}
    (hrun : (linkedMachine env transfer).Runs
      (validatePrivateDirectory env path).run w (.ok ()) w') :
    ∃ loc attr, w'.files.Lands (components path) loc ∧
      w'.files.entry loc = some (.directory attr) ∧ attr.owner = env.uid ∧
      attr.mode &&& 0o077 = 0 := by
  obtain ⟨status, t, hstatus, hcheck⟩ := Contract.runs_ok_bind.mp hrun
  obtain ⟨⟨hfiles, loc, e, hlands, he, rfl⟩, _⟩ := runs_request.mp (runs_sys_ok.mp hstatus)
  obtain ⟨hok, rfl⟩ := runs_ofExcept.mp hcheck
  obtain ⟨hdir, howner, hmode⟩ := checkPrivateDirectory_ok hok.symm
  rw [hfiles]
  cases e with
  | directory attr => exact ⟨loc, attr, hlands, he, howner, hmode⟩
  | file n => cases hdir
  | symlink attr target => cases hdir
  | special kind attr => cases hdir

/-- **One root.**  What is prepared is private. -/
theorem privateRoot_of_prepareRuntimeRoot {root : RootPath} {path : FsPath}
    (hrun : (linkedMachine env transfer).Runs (prepareRuntimeRoot env root).run w (.ok path) w') :
    PrivateRoot env w'.files path := by
  unfold prepareRuntimeRoot at hrun
  split at hrun
  · cases (Contract.runs_run_throw.mp hrun).1
  · obtain ⟨_, w1, hensure, hcanon⟩ := Contract.runs_ok_bind.mp hrun
    obtain ⟨_, hvalid⟩ := runs_validate_of_ensure hensure
    obtain ⟨loc, attr, hlands, hattr, howner, hmode⟩ := lands_of_validatePrivateDirectory hvalid
    obtain ⟨⟨hfiles, hpath⟩, _⟩ := runs_request.mp (runs_sys_ok.mp hcanon)
    obtain ⟨hresolves, _⟩ := hpath path rfl
    obtain rfl : path = loc := hresolves.unique (hlands.resolves ⟨attr, hattr⟩)
    rw [hfiles]
    exact ⟨LinkedFiles.resolves_location hattr fun _ _ => Entry.noConfusion,
      attr, hattr, howner, hmode⟩

/-! ## The choice -/

/-- Each of the roots fails to be prepared, one after the other. -/
inductive Refused (env : Env) (transfer : FsPath → Option TransferFault) :
    List RootPath → LinkedWorld → LinkedWorld → Prop
  | nothing (w : LinkedWorld) : Refused env transfer [] w w
  | one {root : RootPath} {rest : List RootPath} {w t w' : LinkedWorld} {e : VaultError}
      (h : (linkedMachine env transfer).Runs (prepareRuntimeRoot env root).run w (.error e) t)
      (hrest : Refused env transfer rest t w') : Refused env transfer (root :: rest) w w'

theorem Refused.looked {roots : List RootPath} (h : Refused env transfer roots w w') :
    Looked (roots.map RootPath.path) w w' := by
  induction h with
  | nothing => exact .refl _ _
  | one h _ ih =>
      refine ((looked_of_prepareRuntimeRoot h).mono fun p hp => ?_).trans
        (ih.mono fun p hp => List.mem_cons_of_mem _ hp)
      rw [List.mem_singleton.mp hp]
      exact List.mem_cons_self

/-- The roots that a run of `select_runtime_root_from` tries, and their outcome. -/
inductive Tried (env : Env) (transfer : FsPath → Option TransferFault)
    (explicit : Option RootPath) (candidates : List RootPath) (w : LinkedWorld)
    (r : Except VaultError FsPath) (w' : LinkedWorld) : List RootPath → Prop
  /-- An explicit root is the only one, and its result is the result. -/
  | explicit {root : RootPath} (hexplicit : explicit = some root)
      (h : (linkedMachine env transfer).Runs (prepareRuntimeRoot env root).run w r w') :
      Tried env transfer explicit candidates w r w' [root]
  /-- The candidates before the chosen one are refused, those after it not tried. -/
  | chosen {before after : List RootPath} {root : RootPath} {path : FsPath} {t : LinkedWorld}
      (hnone : explicit = none) (hsplit : candidates = before ++ root :: after)
      (hbefore : Refused env transfer before w t)
      (h : (linkedMachine env transfer).Runs (prepareRuntimeRoot env root).run t r w')
      (hok : r = .ok path) :
      Tried env transfer explicit candidates w r w' (before ++ [root])
  /-- All candidates are refused. -/
  | refused {e : VaultError} (hnone : explicit = none) (h : Refused env transfer candidates w w')
      (herror : r = .error e) : Tried env transfer explicit candidates w r w' candidates

theorem Tried.looked {explicit : Option RootPath} {candidates roots : List RootPath}
    {r : Except VaultError FsPath} (h : Tried env transfer explicit candidates w r w' roots) :
    Looked (roots.map RootPath.path) w w' := by
  cases h with
  | explicit _ h => exact looked_of_prepareRuntimeRoot h
  | chosen _ _ hbefore h _ =>
      refine (hbefore.looked.mono fun p hp => ?_).trans
        ((looked_of_prepareRuntimeRoot h).mono fun p hp => ?_)
      · rw [List.map_append]
        exact List.mem_append_left _ hp
      · rw [List.map_append]
        exact List.mem_append_right _ hp
  | refused _ h _ => exact h.looked

/-- The loop over the candidates. -/
theorem tried_of_firstPrepared {candidates : List RootPath} {r : Except VaultError FsPath}
    (hrun : (linkedMachine env transfer).Runs (firstPrepared env candidates).run w r w') :
    ∃ roots, Tried env transfer none candidates w r w' roots := by
  induction candidates generalizing w with
  | nil =>
      obtain ⟨herror, rfl⟩ := Contract.runs_run_throw.mp hrun
      exact ⟨[], .refused rfl (.nothing _) herror⟩
  | cons root rest ih =>
      obtain ⟨result, t, hfirst, hnext⟩ := Contract.runs_attempt_bind.mp hrun
      cases result with
      | ok path =>
          obtain ⟨rfl, rfl⟩ := Contract.runs_run_pure.mp hnext
          exact ⟨_, .chosen rfl (List.nil_append _).symm (.nothing _) hfirst rfl⟩
      | error e =>
          obtain ⟨roots, htried⟩ := ih hnext
          cases htried with
          | explicit hexplicit _ => cases hexplicit
          | chosen _ hsplit hbefore h hok =>
              exact ⟨_, .chosen rfl (congrArg (root :: ·) hsplit) (.one hfirst hbefore) h hok⟩
          | refused _ h herror => exact ⟨_, .refused rfl (.one hfirst h) herror⟩

/-- **The choice fails closed and alters nothing.**  A run tries the explicit root alone,
or the candidates up to the first that can be prepared; it looks at no other, keeps
every entry and every inode as it was, and adds only directories on the paths it tries;
what it returns is a private directory. -/
theorem runtime_root_chosen {env : Env} {transfer : FsPath → Option TransferFault}
    {explicit : Option RootPath} {candidates : List RootPath} {w w' : LinkedWorld}
    {r : Except VaultError FsPath}
    (hrun : (linkedMachine env transfer).Runs
      (selectRuntimeRootFrom env explicit candidates).run w r w') :
    (∃ roots, Tried env transfer explicit candidates w r w' roots ∧
      Looked (roots.map RootPath.path) w w') ∧
    ∀ path, r = .ok path → PrivateRoot env w'.files path := by
  have htried : ∃ roots, Tried env transfer explicit candidates w r w' roots := by
    cases explicit with
    | some root => exact ⟨[root], .explicit rfl hrun⟩
    | none => exact tried_of_firstPrepared hrun
  obtain ⟨roots, htried⟩ := htried
  refine ⟨⟨roots, htried, htried.looked⟩, fun path hok => ?_⟩
  subst hok
  cases htried with
  | explicit _ h => exact privateRoot_of_prepareRuntimeRoot h
  | chosen _ _ _ h _ => exact privateRoot_of_prepareRuntimeRoot h
  | refused _ _ herror => cases herror

/-! ## A link that is refused -/

/-- A root directory alone. -/
def rootFiles : LinkedFiles where
  entry p := if p = [] then some (.directory ⟨0, 0o755⟩) else none
  inode _ := none
  parent_of := by
    intro p name h
    rw [if_neg (List.concat_ne_nil name p)] at h
    exact absurd rfl h
  name_of := by
    intro p name h
    rw [if_neg (List.concat_ne_nil name p)] at h
    exact absurd rfl h

/-- The directory of a user and one of everybody. -/
def homeFiles : LinkedFiles :=
  (rootFiles.put [] "home" (.directory ⟨1000, 0o700⟩)
    ⟨⟨_, rfl⟩, by decide, fun ⟨_, h⟩ => nomatch h⟩).put [] "shared" (.directory ⟨0, 0o755⟩)
    ⟨⟨_, rfl⟩, by decide, fun ⟨_, h⟩ => nomatch h⟩

/-- The user's directory holds a link to that of everybody. -/
def linkedHome : LinkedFiles :=
  homeFiles.put ["home"] "link" (.symlink ⟨1000, 0o777⟩ [.rootDir, .normal "shared"])
    ⟨⟨_, rfl⟩, by decide, fun ⟨_, h⟩ => nomatch h⟩

theorem canPut_run : linkedHome.CanPut ["home"] "run" (.directory ⟨1000, 0o700⟩) :=
  ⟨⟨_, rfl⟩, by decide, fun _ => ⟨_, rfl⟩⟩

/-- The directory that is made. -/
def preparedHome : LinkedFiles :=
  linkedHome.put ["home"] "run" (.directory ⟨1000, 0o700⟩) canPut_run

theorem lands_home {fs : LinkedFiles} (hdir : fs.entry ["home"] = some (.directory ⟨1000, 0o700⟩))
    {name : String} (hname : name ≠ "." ∧ name ≠ "..") :
    fs.Lands (components ["home", name]) ["home", name] := by
  have hcomponents : components ["home", name] = [.normal "home"] ++ [.normal name] := by
    simp [components, hname]
  rw [hcomponents]
  exact .last (.step hdir (fun _ _ => Entry.noConfusion) (.here _)) ⟨_, hdir⟩

/-- A successful look at a path. -/
theorem runs_lstat {env : Env} {files : LinkedFiles} {history : List Op} {path loc : FsPath}
    {e : Entry} (hlands : files.Lands (components path) loc) (he : files.entry loc = some e) :
    (linkedMachine env transfer).Runs (sys (request (.lstat path))).run ⟨files, history⟩
      (.ok (files.status e)) ⟨files, .lstat path :: history⟩ :=
  runs_sys_ok.mpr (runs_request.mpr ⟨⟨rfl, loc, e, hlands, he, rfl⟩, rfl⟩)

/-- The link is refused. -/
theorem runs_link (history : List Op) :
    (linkedMachine sampleEnv transfer).Runs
      (prepareRuntimeRoot sampleEnv ⟨true, ["home", "link"]⟩).run
      ⟨linkedHome, history⟩
      (.error (.invalidConfiguration "private path is not a real directory: /home/link"))
      ⟨linkedHome, .lstat ["home", "link"] :: .lstat ["home", "link"] :: history⟩ := by
  have hlands : linkedHome.Lands (components ["home", "link"]) ["home", "link"] :=
    lands_home rfl (by decide)
  have hentry : linkedHome.entry ["home", "link"] =
      some (.symlink ⟨1000, 0o777⟩ [.rootDir, .normal "shared"]) := rfl
  refine Contract.runs_error_bind.mpr (.inl ?_)
  refine Contract.runs_attempt_bind.mpr ⟨_, _, runs_lstat hlands hentry, ?_⟩
  exact Contract.runs_error_bind.mpr (.inr ⟨_, _, runs_lstat hlands hentry,
    runs_ofExcept.mpr ⟨by decide, rfl⟩⟩)

/-- The directory is made and returned. -/
theorem runs_made (history : List Op) :
    (linkedMachine sampleEnv transfer).Runs
      (prepareRuntimeRoot sampleEnv ⟨true, ["home", "run"]⟩).run
      ⟨linkedHome, history⟩ (.ok ["home", "run"])
      ⟨preparedHome, .canonicalize ["home", "run"] :: .lstat ["home", "run"] ::
        .createDirectories ["home", "run"] :: .lstat ["home", "run"] :: history⟩ := by
  have hlands : linkedHome.Lands (components ["home", "run"]) ["home", "run"] :=
    lands_home rfl (by decide)
  have hmade : preparedHome.Lands (components ["home", "run"]) ["home", "run"] :=
    lands_home rfl (by decide)
  have hnew : linkedHome.entry ["home", "run"] = none := rfl
  have hentry : preparedHome.entry ["home", "run"] = some (.directory ⟨1000, 0o700⟩) := rfl
  have hresolves := hmade.resolves ⟨_, hentry⟩
  have hensure : (linkedMachine sampleEnv transfer).Runs
      (ensurePrivateDirectory sampleEnv ["home", "run"]).run
      ⟨linkedHome, history⟩ (.ok ())
      ⟨preparedHome, .lstat ["home", "run"] :: .createDirectories ["home", "run"] ::
        .lstat ["home", "run"] :: history⟩ := by
    refine Contract.runs_attempt_bind.mpr ⟨.error (.io (.os .notFound)),
      ⟨linkedHome, .lstat ["home", "run"] :: history⟩,
      runs_sys_error.mpr ⟨_, rfl, runs_request.mpr ⟨⟨rfl, fun _ loc hloc => ?_⟩, rfl⟩⟩, ?_⟩
    · rw [hloc.unique hlands]
      exact hnew
    · refine Contract.runs_ok_bind.mpr ⟨(), ⟨preparedHome, _⟩,
        runs_sys_ok.mpr (runs_request.mpr ⟨⟨?_, fun _ => ⟨_, hresolves, _, hentry⟩⟩, rfl⟩), ?_⟩
      · exact .one (.nothing _) List.prefix_rfl hlands hnew rfl rfl canPut_run
      · exact Contract.runs_ok_bind.mpr ⟨_, _, runs_lstat hmade hentry,
          runs_ofExcept.mpr ⟨by decide, rfl⟩⟩
  exact Contract.runs_ok_bind.mpr ⟨_, _, hensure, runs_sys_ok.mpr (runs_request.mpr
    ⟨⟨rfl, fun loc hloc => by cases hloc; exact ⟨hresolves, fun h => nomatch h⟩⟩, rfl⟩)⟩

/-- The link is passed over, and the candidate after it is made. -/
theorem runtime_root_chosen_sample : PrivateRoot sampleEnv preparedHome ["home", "run"] := by
  have hrun : (linkedMachine sampleEnv fun _ => none).Runs (selectRuntimeRootFrom sampleEnv none
      [⟨true, ["home", "link"]⟩, ⟨true, ["home", "run"]⟩]).run ⟨linkedHome, []⟩
      (.ok ["home", "run"]) ⟨preparedHome, _⟩ :=
    Contract.runs_attempt_bind.mpr ⟨_, _, runs_link [],
      Contract.runs_attempt_bind.mpr ⟨_, _, runs_made _, rfl, rfl⟩⟩
  exact (runtime_root_chosen hrun).2 _ rfl

end CodexVault
