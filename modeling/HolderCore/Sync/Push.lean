import HolderCore.Card.World

/-! # Pushing

The push phase of `run_project_sync` (`sync/ProjectSyncOperation.cpp`) and `holder_git_push`
(`capi/holder.cpp`). Both send `HEAD` as it is committed. The first checks the project's files
before it pushes an encrypted project, the second does not. Records of the outcome are left out. -/

namespace HolderCore

inductive PushStatus where
  | pushed | upToDate | authFailed | notFound | networkError | nonFastForward | remoteUnset
  | unknownError
deriving DecidableEq, Repr

structure PushResult where
  status : PushStatus := .unknownError
  localHeadCommit : Option Nat := none
  errorMessage : String := ""
deriving DecidableEq, Repr

inductive PullPhaseStatus where
  | notAttempted | succeeded | remoteUnset | failed
deriving DecidableEq, Repr

structure PullPhaseResult where
  attempted : Bool := false
  status : PullPhaseStatus := .notAttempted
  conflictsResolved : Nat := 0
  hiddenCardsRepaired : Nat := 0
  errorMessage : Option String := none
deriving DecidableEq, Repr

structure PushPhaseResult where
  attempted : Bool := false
  status : PushStatus := .unknownError
  localHeadCommit : Option Nat := none
  errorMessage : Option String := none
deriving DecidableEq, Repr

structure ProjectSyncRequest where
  pull : Bool := true
  push : Bool := false
  pushAfterFailedPull : Bool := false
  branch : String := ""
deriving DecidableEq, Repr

structure ProjectSyncResult where
  projectId : String
  remoteUrl : Option String
  pull : PullPhaseResult := {}
  push : PushPhaseResult := {}
deriving DecidableEq, Repr

structure SyncedProject extends Project where
  gitRemoteUrl : Option String

/-- What a push and a pull ask of Git and of the remote. -/
structure Remote where
  /-- `open_or_init` and `set_remote`, which leave `HEAD`, the index and the files as they are. -/
  prepare : Except Exn Unit
  /-- The pull phase: the conflicts it resolved and the cards it repaired, or what it threw, and the
  repository it left. -/
  pull : Repo → Except Exn (Nat × Nat) × Repo
  /-- The branch to push to; empty when none is configured. -/
  resolveBranchName : Repo → String → String
  /-- The answer to a push of a commit. -/
  push : (branch : String) → (oid : Nat) → PushStatus × String

/-- `git_remote_push` of `HEAD`, as it is committed. -/
def pushBranch (remote : Remote) (repo : Repo) (branch : String) : PushResult :=
  let resolved := remote.resolveBranchName repo branch
  if resolved.isEmpty then
    { localHeadCommit := repo.tip,
      errorMessage :=
        "No branch configured. Set GIT_DEFAULT_BRANCH or git config init.defaultBranch." }
  else match repo.tip with
    | none => { status := .upToDate }
    | some oid =>
      let (status, errorMessage) := remote.push resolved oid
      { status, localHeadCommit := some oid, errorMessage }

/-! ## The safety check -/

/-- The first line of a file is the header of an envelope. -/
def hasEnvelopeHeader (bytes : Bytes) : Bool :=
  bytes.takeWhile (· != '\n') == "HolderPriv1".toList

/-- The files below the protected directories that are no envelopes. -/
def plaintextPaths (files : Tree) : List String :=
  files.keys.filter fun path =>
    protectedPath path && files[path]?.any fun bytes => !hasEnvelopeHeader bytes

def assertEncryptionPushSafe (work : Tree) : Except Exn Unit :=
  if (plaintextPaths work).isEmpty then .ok ()
  else .error (.runtimeError ("Privacy safety check failed: found plaintext project blobs." ++
    " Unsafe paths:" ++ String.join ((plaintextPaths work).map (" " ++ ·))))

/-! ## The entry points -/

section
variable (remote : Remote) (project : SyncedProject)

def remoteUrl : Option String := project.gitRemoteUrl.filter (!·.isEmpty)

def nonempty (value : String) : Option String := if value.isEmpty then none else some value

def pullPhase (repo : Repo) : PullPhaseResult × Repo :=
  match remote.prepare with
  | .error e => ({ attempted := true, status := .failed, errorMessage := some e.what }, repo)
  | .ok () =>
    match remote.pull repo with
    | (.ok (conflictsResolved, hiddenCardsRepaired), repo) =>
      ({ attempted := true, status := .succeeded, conflictsResolved, hiddenCardsRepaired }, repo)
    | (.error e, repo) =>
      ({ attempted := true, status := .failed, errorMessage := some e.what }, repo)

/-- The check that an encrypted project meets before it is pushed. -/
def pushGuard (work : Tree) : Except Exn Unit :=
  if project.privacyMode = .encryptedGit then assertEncryptionPushSafe work else .ok ()

def pushPhase (branch : String) (repo : Repo) : PushPhaseResult × Repo :=
  match remote.prepare with
  | .error e => ({ attempted := true, errorMessage := some e.what }, repo)
  | .ok () =>
    match pushGuard project repo.work with
    | .error e => ({ attempted := true, errorMessage := some e.what }, repo)
    | .ok () =>
      let push := pushBranch remote repo branch
      ({ attempted := true, status := push.status, localHeadCommit := push.localHeadCommit,
         errorMessage := nonempty push.errorMessage }, repo)

/-- The pull phase, if it is requested, and the repository it leaves. -/
def afterPull (request : ProjectSyncRequest) (repo : Repo) : PullPhaseResult × Repo :=
  if request.pull then pullPhase remote repo else ({}, repo)

/-- The push phase is skipped behind a pull that failed, unless the request says otherwise. -/
def pushes (request : ProjectSyncRequest) (pull : PullPhaseResult) : Bool :=
  request.push && (!request.pull || pull.status == .succeeded || request.pushAfterFailedPull)

def remoteUnsetError : Option String := some "Remote URL is not configured."

def runProjectSync (request : ProjectSyncRequest) (repo : Repo) :
    Except Exn (ProjectSyncResult × Repo) :=
  let result : ProjectSyncResult :=
    { projectId := project.projectId, remoteUrl := project.gitRemoteUrl }
  if project.projectId.isEmpty then
    .error (.invalidArgument "project_id must not be empty")
  else if !request.pull && !request.push then
    .error (.invalidArgument "project sync must request pull, push, or both")
  else if (remoteUrl project).isNone then
    if request.pull then
      .ok ({ result with
        pull := { attempted := true, status := .remoteUnset, errorMessage := remoteUnsetError } }, repo)
    else .ok ({ result with
        push := { attempted := true, status := .remoteUnset, errorMessage := remoteUnsetError } }, repo)
  else
    let pulled := afterPull remote request repo
    let result := { result with pull := pulled.1 }
    if pushes request pulled.1 then
      let pushed := pushPhase remote project request.branch pulled.2
      .ok ({ result with push := pushed.1 }, pushed.2)
    else .ok (result, pulled.2)

/-- The status `holder_git_push` reports. -/
def holderGitPush (branch : String) (repo : Repo) : Except Exn (PushResult × Repo) :=
  if (remoteUrl project).isNone then
    .ok ({ status := .remoteUnset, errorMessage := "Remote URL is not configured." }, repo)
  else do
    remote.prepare
    return (pushBranch remote repo branch, repo)

end

/-! ## What is sent -/

/-- A call of one of the two entry points. -/
inductive PushCall where
  | sync (request : ProjectSyncRequest)
  | gitPush (branch : String)

/-- The reported status of the push, and the repository it was made from. -/
def PushCall.run (remote : Remote) (project : SyncedProject) (repo : Repo) :
    PushCall → Except Exn (PushStatus × Repo)
  | .sync request => do
    let (result, repo) ← runProjectSync remote project request repo
    return (result.push.status, repo)
  | .gitPush branch => do
    let (push, repo) ← holderGitPush remote project branch repo
    return (push.status, repo)

/-- The repository a push phase finds: the one the pull left, if one is requested. -/
def ProjectSyncRequest.found (request : ProjectSyncRequest) (pulled repo : Repo) : Repo :=
  if request.pull then pulled else repo

section
variable {remote : Remote} {project : SyncedProject} {repo repo' : Repo}

theorem assertEncryptionPushSafe_ok_iff {work : Tree} :
    assertEncryptionPushSafe work = .ok () ↔ plaintextPaths work = [] := by
  unfold assertEncryptionPushSafe
  split
  · next h => simp [List.isEmpty_iff.mp h]
  · next h => simpa [List.isEmpty_iff] using h

end

end HolderCore
