import HolderCore.Resource.Repair
import HolderCore.Sync.Conflicts
import HolderCore.Sync.Push

/-! # Two ways to pull

The pull phase of `run_project_sync` (`sync/ProjectSyncOperation.cpp`) and the pull of
`holder_recovery_token_import_global` (`capi/holder.cpp`), down to the row of `project_sync_state`
that records its outcome. -/

namespace HolderCore
open CardStore

/-! ## Bookkeeping -/

/-- The row of `project_sync_state` of a project. Counts and times do not overflow here;
`retryCount_le` bounds the counts of the retries. -/
structure ProjectSyncState where
  lastCommitAt : Option Int := none
  lastPushAt : Option Int := none
  lastPullAt : Option Int := none
  uncommittedChangesCount : Nat := 0
  unpushedCommitsCount : Nat := 0
  lastPushStatus : Option String := none
  lastPullStatus : Option String := none
  lastSyncError : Option String := none
  lastSyncErrorAt : Option Int := none
  retryCount : Nat := 0
  nextRetryAt : Option Int := none
  pullRetryCount : Nat := 0
  nextPullRetryAt : Option Int := none
  updatedAt : Int := 0
deriving DecidableEq, Repr

def backoffSecondsForRetry (retryCount : Nat) : Int :=
  if retryCount = 0 then 0 else [60, 300, 900].getD (retryCount - 1) 1800

/-- `record_pull_result`. -/
def ProjectSyncState.pulled (status : String) (success : Bool) (errorMessage : Option String)
    (now : Int) (state : ProjectSyncState) : ProjectSyncState :=
  let state := { state with lastPullStatus := some status, updatedAt := now }
  if success then
    { state with
      lastPullAt := some now
      lastSyncError := none
      lastSyncErrorAt := none
      pullRetryCount := 0
      nextPullRetryAt := none }
  else
    { state with
      lastSyncError := some ((errorMessage.filter (!·.isEmpty)).getD "pull failed")
      lastSyncErrorAt := some now
      pullRetryCount := state.pullRetryCount + 1
      nextPullRetryAt := some (now + backoffSecondsForRetry (state.pullRetryCount + 1)) }

/-- The recorded result of the last pull. -/
structure PullRecord where
  status : Option String
  error : Option String
  retryCount : Nat
deriving DecidableEq, Repr

def ProjectSyncState.pullRecord (state : ProjectSyncState) : PullRecord :=
  ⟨state.lastPullStatus, state.lastSyncError, state.pullRetryCount⟩

/-- A project with its rows, the remote `origin` of its repository and its row of
`project_sync_state`. -/
structure PullState (K : Type) where
  search : SearchState K
  origin : Option String
  sync : Option ProjectSyncState

abbrev PullM (K : Type) := EStateM Exn (PullState K)

def PullState.repo (s : PullState K) : Repo := s.search.services.world.repo

def recordPullResult (status : String) (success : Bool) (errorMessage : Option String) (now : Int) :
    PullM K Unit :=
  modify fun s => { s with sync := some ((s.sync.getD {}).pulled status success errorMessage now) }

/-! ## Steps on the shared state -/

def onSearch (m : SearchM K α) : PullM K α := fun s =>
  match m s.search with
  | .ok a search => .ok a { s with search }
  | .error e search => .error e { s with search }

def onStore (m : StoreM K α) : SearchM K α := fun s =>
  match onWorld m s.services with
  | .ok a services => .ok a { s with services }
  | .error e services => .error e { s with services }

/-- What a pull asks of Git and of the remote. -/
structure PullEnv (K : Type) extends RebuildEnv K where
  gitRemoteUrl : Option String
  lib : Libgit2
  openOrInit : Repo → Except Exn Repo
  setRemote : Repo → (url : String) → Except Exn Unit
  /-- The repository with the commits of the remote, its branch and the tip of that branch. -/
  fetchRemote : (origin : Option String) → Repo → Except Exn (Repo × String × Nat)
  /-- `git_graph_descendant_of`. -/
  descendantOf : List Commit → (commit ancestor : Nat) → Bool
  /-- The changes that are not committed and the commits that are not pushed. -/
  inspectRepoSyncMetrics : Repo → Except Exn (Nat × Nat)
  generateId : Nat → String

section
variable [SortKey K] (env : PullEnv K)

def PullEnv.synced : SyncedProject := { env.project with gitRemoteUrl := env.gitRemoteUrl }

def gitOpenOrInit : PullM K Unit := onSearch <| onStore <| onGit do
  set (← fromExcept (env.openOrInit (← get)))

def gitSetRemote (url : String) : PullM K Unit := do
  fromExcept (env.setRemote (← get).repo url)
  modify fun s => { s with origin := some url }

/-- `GitRepo::pull_remote_ff_only`. A `NonFastForwardPullError` is returned, since no other code
throws one and both callers catch it. -/
def Repo.pullRemoteFfOnly (origin : Option String) : GitM (Option NonFastForwardPullError) := do
  let (repo, remoteBranch, remoteOid) ← fromExcept (env.fetchRemote origin (← get))
  set repo
  match repo.tip with
  | none =>
    let localRef := "refs/heads/" ++ remoteBranch
    set { repo with refs := repo.refs.insert localRef remoteOid, head := localRef }
    checkoutCommitOid env.lib remoteOid
    return none
  | some localOid =>
    if localOid = remoteOid then return none
    else if env.descendantOf repo.commits remoteOid localOid then
      checkoutCommitOid env.lib remoteOid
      modify fun r => { r with refs := r.refs.insert r.head remoteOid }
      return none
    else if env.descendantOf repo.commits localOid remoteOid then return none
    else return some ⟨localOid, remoteOid⟩

def gitPull : PullM K (Option NonFastForwardPullError) := do
  let origin := (← get).origin
  onSearch <| onStore <| onGit <| Repo.pullRemoteFfOnly env origin

/-- `update_activity_counts` with what Git counts; an exception is swallowed. -/
def PullState.refreshed (now : Int) (s : PullState K) : PullState K :=
  match env.inspectRepoSyncMetrics s.repo with
  | .error _ => s
  | .ok (uncommitted, unpushed) => { s with sync := some { s.sync.getD {} with
      uncommittedChangesCount := uncommitted
      unpushedCommitsCount := unpushed
      updatedAt := now } }

def refreshActivity (now : Int) : PullM K Unit := modify (·.refreshed env now)

/-- The two steps of a pull that are shared code. -/
structure PullSteps (K : Type) where
  resolvePullConflicts : NonFastForwardPullError → SearchM K Nat
  reconcileIndexAfterPull : SearchM K Unit

/-- The steps as they are, when no service fails under them. -/
def PullEnv.steps (now : Int) : PullSteps K where
  resolvePullConflicts diverged :=
    onStore (resolvePullConflicts env.toEnv env.lib diverged now env.generateId)
  reconcileIndexAfterPull := SearchState.rebuild env.toRebuildEnv

/-- `repair_hierarchy_after_pull`: how many cards moved; an exception is swallowed. -/
def repairHierarchyAfterPull (now : Int) : SearchM K Nat :=
  tryCatch (onStore do
    match ← repairHierarchyLocked env.toEnv env.project.projectId now with
    | .repaired plan => return plan.movedCardIds.length
    | _ => return 0) fun _ => return 0

end

/-! ## The two callers -/

def pullPhaseStatusName : PullPhaseStatus → String
  | .notAttempted => "not_attempted"
  | .succeeded => "succeeded"
  | .remoteUnset => "remote_unset"
  | .failed => "failed"

section
variable [SortKey K] (env : PullEnv K) (steps : PullSteps K)

/-- The pull, the copies of what diverged and the rebuild. -/
def mergeAndReconcile : PullM K Nat := do
  let conflictsResolved ← match ← gitPull env with
    | none => pure 0
    | some diverged => onSearch (steps.resolvePullConflicts diverged)
  onSearch steps.reconcileIndexAfterPull
  return conflictsResolved

/-- What `run_project_sync` tries. -/
def syncMerge (url : String) (now : Int) : PullM K PullPhaseResult := do
  gitOpenOrInit env
  gitSetRemote env url
  let conflictsResolved ← mergeAndReconcile env steps
  let hiddenCardsRepaired ← onSearch (repairHierarchyAfterPull env now)
  recordPullResult (pullPhaseStatusName .succeeded) true none now
  return { attempted := true, status := .succeeded, conflictsResolved, hiddenCardsRepaired }

/-- The pull phase of `run_project_sync`. -/
def syncPull (now : Int) : PullM K PullPhaseResult :=
  match remoteUrl env.synced with
  | none => do
    recordPullResult (pullPhaseStatusName .remoteUnset) false remoteUnsetError now
    return { attempted := true, status := .remoteUnset, errorMessage := remoteUnsetError }
  | some url => do
    let result ← tryCatch (syncMerge env steps url now) fun e => do
      recordPullResult (pullPhaseStatusName .failed) false (some e.what) now
      return { attempted := true, status := .failed, errorMessage := some e.what }
    refreshActivity env now
    return result

/-- What the import reports of its pull. -/
structure ImportPullResult where
  remoteConfigured : Bool := false
  remoteError : String := ""
  pullStatus : String := "not_attempted"
  pullError : String := ""
deriving DecidableEq, Repr

/-- The pull behind a remote that is set. What the handler of a diverged pull throws is caught by no
handler beside it. -/
def importMerge (now : Int) : PullM K ImportPullResult := do
  let (result, diverged) ← tryCatch (do
      match ← gitPull env with
      | some diverged => return ({ remoteConfigured := true }, some diverged)
      | none =>
        onSearch steps.reconcileIndexAfterPull
        recordPullResult "succeeded" true none now
        return ({ remoteConfigured := true, pullStatus := "succeeded" }, none))
    fun e => do
      recordPullResult "failed" false (some e.what) now
      return ({ remoteConfigured := true, pullStatus := "failed", pullError := e.what }, none)
  match diverged with
  | none => return result
  | some diverged =>
    let _ ← onSearch (steps.resolvePullConflicts diverged)
    onSearch steps.reconcileIndexAfterPull
    recordPullResult "succeeded" true none now
    return { result with pullStatus := "succeeded" }

/-- The pull of `holder_recovery_token_import_global` from the remote that the token names, once the
project is registered and the key is imported. -/
def importPull (gitRemoteUrl : String) (now : Int) : PullM K ImportPullResult := do
  gitOpenOrInit env
  let remoteError ← tryCatch (do gitSetRemote env gitRemoteUrl; return none) fun e =>
    return some e.what
  let result ← match remoteError with
    | none => importMerge env steps now
    | some remoteError => pure { remoteError }
  refreshActivity env now
  return result

end

/-! ## How the two end -/

/-- The state that a run ends in. -/
def finalState : EStateM.Result Exn (PullState K) α → PullState K
  | .ok _ s => s
  | .error _ s => s

def PullState.withRepo (s : PullState K) (repo : Repo) : PullState K :=
  { s with search.services.world.repo := repo }

/-- A pull that succeeded. -/
def PullState.succeeded (now : Int) (s : PullState K) : PullState K :=
  { s with sync := some ((s.sync.getD {}).pulled "succeeded" true none now) }

/-- A pull that failed. -/
def PullState.failed (now : Int) (e : Exn) (s : PullState K) : PullState K :=
  { s with sync := some ((s.sync.getD {}).pulled "failed" false (some e.what) now) }

section
variable [SortKey K] (env : PullEnv K) (steps : PullSteps K) (now : Int) {s : PullState K} {url : String}

omit [SortKey K] in
theorem gitOpenOrInit_run : gitOpenOrInit env s = match env.openOrInit s.repo with
    | .ok repo => .ok () (s.withRepo repo)
    | .error e => .error e s := by
  unfold gitOpenOrInit onSearch onStore onGit onWorld PullState.repo
  simp only [bind, EStateM.bind, get, getThe, MonadStateOf.get, EStateM.get]
  cases env.openOrInit s.search.services.world.repo <;> rfl

omit [SortKey K] in
theorem gitSetRemote_run : gitSetRemote env url s = match env.setRemote s.repo url with
    | .ok () => .ok () { s with origin := some url }
    | .error e => .error e s := by
  unfold gitSetRemote
  simp only [bind, EStateM.bind, get, getThe, MonadStateOf.get, EStateM.get]
  cases env.setRemote s.repo url <;> rfl

theorem repairHierarchyAfterPull_run (search : SearchState K) :
    ∃ moved search', repairHierarchyAfterPull env now search = .ok moved search' ∧
      search'.services.rows = search.services.rows ∧ search'.aiFts = search.aiFts := by
  unfold repairHierarchyAfterPull
  simp only [tryCatch, tryCatchThe, MonadExceptOf.tryCatch, EStateM.tryCatch, onStore, onWorld]
  generalize (do
    match ← repairHierarchyLocked env.toEnv env.project.projectId now with
    | .repaired plan => return plan.movedCardIds.length
    | _ => return 0 : StoreM K Nat) search.services.world = result
  cases result with
  | ok moved world => exact ⟨_, _, rfl, rfl, rfl⟩
  | error e world => exact ⟨_, _, rfl, rfl, rfl⟩

omit [SortKey K] in
theorem importMerge_run : importMerge env steps now s = match gitPull env s with
    | .error e t => .ok { remoteConfigured := true, pullStatus := "failed", pullError := e.what }
        (t.failed now e)
    | .ok none t => match onSearch steps.reconcileIndexAfterPull t with
      | .ok () t => .ok { remoteConfigured := true, pullStatus := "succeeded" } (t.succeeded now)
      | .error e t => .ok { remoteConfigured := true, pullStatus := "failed", pullError := e.what }
          (t.failed now e)
    | .ok (some diverged) t => match onSearch (steps.resolvePullConflicts diverged) t with
      | .error e t => .error e t
      | .ok _ t => match onSearch steps.reconcileIndexAfterPull t with
        | .ok () t => .ok { remoteConfigured := true, pullStatus := "succeeded" } (t.succeeded now)
        | .error e t => .error e t := by
  unfold importMerge
  simp only [bind, EStateM.bind, tryCatch, tryCatchThe, MonadExceptOf.tryCatch, EStateM.tryCatch]
  cases gitPull env s with
  | error e t => rfl
  | ok diverged t =>
    cases diverged with
    | none =>
      simp only [EStateM.bind]
      cases onSearch steps.reconcileIndexAfterPull t <;> rfl
    | some diverged =>
      simp only [pure, EStateM.pure, EStateM.bind]
      cases onSearch (steps.resolvePullConflicts diverged) t with
      | error e t => rfl
      | ok n t =>
        dsimp only
        cases onSearch steps.reconcileIndexAfterPull t <;> rfl

omit [SortKey K] in
theorem mergeAndReconcile_run : mergeAndReconcile env steps s = match gitPull env s with
    | .error e t => .error e t
    | .ok none t => match onSearch steps.reconcileIndexAfterPull t with
      | .ok () t => .ok 0 t
      | .error e t => .error e t
    | .ok (some diverged) t => match onSearch (steps.resolvePullConflicts diverged) t with
      | .error e t => .error e t
      | .ok n t => match onSearch steps.reconcileIndexAfterPull t with
        | .ok () t => .ok n t
        | .error e t => .error e t := by
  unfold mergeAndReconcile
  simp only [bind, EStateM.bind]
  cases gitPull env s with
  | error e t => rfl
  | ok diverged t =>
    cases diverged with
    | none =>
      simp only [pure, EStateM.pure, EStateM.bind]
      cases onSearch steps.reconcileIndexAfterPull t <;> rfl
    | some diverged =>
      simp only [EStateM.bind]
      cases onSearch (steps.resolvePullConflicts diverged) t with
      | error e t => rfl
      | ok n t =>
        dsimp only
        cases onSearch steps.reconcileIndexAfterPull t <;> rfl

omit [SortKey K] in
/-- The two merges after the same pull: alike unless the copies or the rebuild behind a diverged pull
throw. -/
theorem importMerge_eq : importMerge env steps now s = match mergeAndReconcile env steps s with
    | .ok _ t => .ok { remoteConfigured := true, pullStatus := "succeeded" } (t.succeeded now)
    | .error e t => match gitPull env s with
      | .ok (some _) _ => .error e t
      | _ => .ok { remoteConfigured := true, pullStatus := "failed", pullError := e.what }
          (t.failed now e) := by
  rw [importMerge_run, mergeAndReconcile_run]
  cases gitPull env s with
  | error e t => rfl
  | ok diverged t =>
    cases diverged with
    | none =>
      dsimp only
      cases onSearch steps.reconcileIndexAfterPull t <;> rfl
    | some diverged =>
      dsimp only
      cases onSearch (steps.resolvePullConflicts diverged) t with
      | error e t => rfl
      | ok n t =>
        dsimp only
        cases onSearch steps.reconcileIndexAfterPull t <;> rfl

omit [SortKey K] in
theorem importPull_final : finalState (importPull env steps url now s) =
    match env.openOrInit s.repo with
    | .error _ => s
    | .ok repo => match env.setRemote repo url with
      | .error _ => (s.withRepo repo).refreshed env now
      | .ok () => match importMerge env steps now { s.withRepo repo with origin := some url } with
        | .error _ t => t
        | .ok _ t => t.refreshed env now := by
  unfold importPull
  simp only [bind, EStateM.bind, gitOpenOrInit_run]
  cases env.openOrInit s.repo with
  | error e => rfl
  | ok repo =>
    simp only [tryCatch, tryCatchThe, MonadExceptOf.tryCatch, EStateM.tryCatch, EStateM.bind,
      gitSetRemote_run]
    change finalState _ = match env.setRemote repo url with | .error _ => _ | .ok () => _
    have hrepo : (s.withRepo repo).repo = repo := rfl
    rw [hrepo]
    cases env.setRemote repo url with
    | error e => rfl
    | ok _ =>
      simp only [pure, EStateM.pure, EStateM.bind]
      cases importMerge env steps now { s.withRepo repo with origin := some url } <;> rfl

theorem syncPull_final (hurl : remoteUrl env.synced = some url) :
    finalState (syncPull env steps now s) = match syncMerge env steps url now s with
      | .ok _ t => t.refreshed env now
      | .error e t => (t.failed now e).refreshed env now := by
  unfold syncPull
  simp only [hurl, bind, EStateM.bind, tryCatch, tryCatchThe, MonadExceptOf.tryCatch, EStateM.tryCatch]
  cases syncMerge env steps url now s <;> rfl

/-- What `run_project_sync` tries, on an open repository with a remote. -/
theorem syncMerge_run : ∃ result, syncMerge env steps url now s = match env.openOrInit s.repo with
    | .error e => .error e s
    | .ok repo => match env.setRemote repo url with
      | .error e => .error e (s.withRepo repo)
      | .ok () => match mergeAndReconcile env steps { s.withRepo repo with origin := some url } with
        | .error e t => .error e t
        | .ok _ t => match repairHierarchyAfterPull env now t.search with
          | .error e search => .error e { t with search }
          | .ok _ search => .ok result (PullState.succeeded now { t with search }) := by
  unfold syncMerge
  simp only [bind, EStateM.bind, gitOpenOrInit_run]
  cases env.openOrInit s.repo with
  | error e => exact ⟨{}, rfl⟩
  | ok repo =>
    simp only [gitSetRemote_run]
    have hrepo : (s.withRepo repo).repo = repo := rfl
    rw [hrepo]
    cases env.setRemote repo url with
    | error e => exact ⟨{}, rfl⟩
    | ok _ =>
      dsimp only
      cases mergeAndReconcile env steps { s.withRepo repo with origin := some url } with
      | error e t => exact ⟨{}, rfl⟩
      | ok n t =>
        dsimp only [onSearch]
        cases repairHierarchyAfterPull env now t.search with
        | error e search => exact ⟨{}, rfl⟩
        | ok moved search => exact ⟨_, rfl⟩

end

/-! ## When the two agree -/

def PullState.pullRecord (s : PullState K) : PullRecord := (s.sync.getD {}).pullRecord

/-- The same card files, rows and recorded result. -/
structure PulledAlike (s s' : PullState K) : Prop where
  cards : ∀ isTrash path, CardFile isTrash path → s.repo.work[path]? = s'.repo.work[path]?
  db : s.search.services.world.db = s'.search.services.world.db
  rows : s.search.services.rows = s'.search.services.rows
  aiFts : s.search.aiFts = s'.search.aiFts
  recorded : s.pullRecord = s'.pullRecord

section
variable [SortKey K] (env : PullEnv K) (steps : PullSteps K) (gitRemoteUrl : String) (now : Int)

/-- The pull of the import ends as the pull phase of a sync does. -/
def PullsAgree (s : PullState K) : Prop :=
  PulledAlike (finalState (importPull env steps gitRemoteUrl now s))
    (finalState (syncPull env steps now s))

/-- The repository opens and takes the remote. -/
def Prepared (s s1 : PullState K) : Prop :=
  ∃ repo, env.openOrInit s.repo = .ok repo ∧ env.setRemote repo gitRemoteUrl = .ok () ∧
    s1 = { s.withRepo repo with origin := some gitRemoteUrl }

/-- The repair of hidden cards leaves the card files and rows as they are. -/
def RepairIdle (search : SearchState K) : Prop :=
  ∀ moved search', repairHierarchyAfterPull env now search = .ok moved search' →
    search'.services.world.db = search.services.world.db ∧ ∀ isTrash path, CardFile isTrash path →
      search'.services.world.repo.work[path]? = search.services.world.repo.work[path]?

/-- The remote is the project's and can be set, the copies and the rebuild behind a diverged pull
succeed, and the repair finds nothing to do in the rebuilt project. -/
structure PullsMeet (s : PullState K) : Prop where
  remote : remoteUrl env.synced = some gitRemoteUrl
  prepared : ∃ s1, Prepared env gitRemoteUrl s s1
  resolved : ∀ s1 diverged s2, Prepared env gitRemoteUrl s s1 →
    gitPull env s1 = .ok (some diverged) s2 → ∃ n s3, mergeAndReconcile env steps s1 = .ok n s3
  repaired : ∀ s1 n s2, Prepared env gitRemoteUrl s s1 →
    mergeAndReconcile env steps s1 = .ok n s2 → RepairIdle env now s2.search

end

section
variable [SortKey K] (env : PullEnv K) (steps : PullSteps K) (gitRemoteUrl : String) (now : Int)
  {s : PullState K}

omit [SortKey K] in
@[simp] theorem refreshed_search : (s.refreshed env now).search = s.search := by
  unfold PullState.refreshed
  split <;> rfl

omit [SortKey K] in
@[simp] theorem refreshed_pullRecord : (s.refreshed env now).pullRecord = s.pullRecord := by
  unfold PullState.refreshed
  split <;> rfl

omit [SortKey K] in
theorem PulledAlike.refl (s : PullState K) : PulledAlike s s := ⟨fun _ _ _ => rfl, rfl, rfl, rfl, rfl⟩

omit [SortKey K] in
/-- A failure is recorded with one more retry, so no record stays the same. -/
theorem failed_pullRecord_ne (e : Exn) : s.pullRecord ≠ (s.failed now e).pullRecord := by
  intro h
  have : s.pullRecord.retryCount = s.pullRecord.retryCount + 1 := congrArg PullRecord.retryCount h
  omega

omit [SortKey K] in
theorem onSearch_sync (m : SearchM K α) :
    Ends (onSearch m) s (fun _ t => t.sync = s.sync) fun _ t => t.sync = s.sync := by
  unfold Ends onSearch
  cases m s.search <;> rfl

omit [SortKey K] in
/-- Nothing that runs before the bookkeeping touches it. -/
theorem mergeAndReconcile_sync :
    Ends (mergeAndReconcile env steps) s (fun _ t => t.sync = s.sync) fun _ t => t.sync = s.sync := by
  have hsearch : ∀ {α : Type} (m : SearchM K α), Keeps (fun t : PullState K => t.sync = s.sync)
      (onSearch m) := fun m t ht => by
    rw [← ht]
    exact onSearch_sync m
  have hpull : Keeps (fun t : PullState K => t.sync = s.sync) (gitPull env) :=
    .bind .get fun _ => hsearch _
  unfold mergeAndReconcile
  refine (hpull s rfl).bind (fun diverged t ht => ?_) fun _ _ h => h
  cases diverged with
  | none => exact (Keeps.bind (hsearch _) fun _ => .pure _) t ht
  | some diverged => exact (Keeps.bind (hsearch _) fun _ => .bind (hsearch _) fun _ => .pure _) t ht

omit [SortKey K] in
theorem importMerge_record : Ends (importMerge env steps now) s
    (fun _ t => t.pullRecord.status = some "succeeded" ∨ t.pullRecord.status = some "failed")
    fun _ t => t.pullRecord = s.pullRecord := by
  have hsync : Ends (mergeAndReconcile env steps) s _ _ := mergeAndReconcile_sync env steps
  unfold Ends at hsync ⊢
  rw [importMerge_eq]
  cases hmerge : mergeAndReconcile env steps s with
  | ok n t => exact .inl rfl
  | error e t =>
    rw [hmerge] at hsync
    dsimp only
    split
    · next result t' hmatch =>
      split at hmatch
      · cases hmatch
      · cases hmatch
        exact .inr rfl
    · next e' t' hmatch =>
      split at hmatch
      · cases hmatch
        unfold PullState.pullRecord
        rw [hsync]
      · cases hmatch

omit [SortKey K] in
/-- The import never records what a sync without a remote does. -/
theorem importPull_record : (finalState (importPull env steps gitRemoteUrl now s)).pullRecord =
      s.pullRecord ∨
    (finalState (importPull env steps gitRemoteUrl now s)).pullRecord.status = some "succeeded" ∨
    (finalState (importPull env steps gitRemoteUrl now s)).pullRecord.status = some "failed" := by
  rw [importPull_final]
  cases env.openOrInit s.repo with
  | error e => exact .inl rfl
  | ok repo =>
    dsimp only
    cases env.setRemote repo gitRemoteUrl with
    | error e => exact .inl (refreshed_pullRecord env now)
    | ok _ =>
      dsimp only
      have hrecord : Ends _ { s.withRepo repo with origin := some gitRemoteUrl } _ _ :=
        importMerge_record env steps now
      unfold Ends at hrecord
      split
      · next e t hrun =>
        rw [hrun] at hrecord
        exact .inl hrecord
      · next result t hrun =>
        rw [hrun] at hrecord
        rw [refreshed_pullRecord]
        exact .inr hrecord

/-- Without a remote the sync records so, which the import never does. -/
theorem unset_disagree (hurl : remoteUrl env.synced = none) :
    ¬ PullsAgree env steps gitRemoteUrl now s := by
  intro h
  have hsync : finalState (syncPull env steps now s) =
      { s with sync := some ((s.sync.getD {}).pulled "remote_unset" false remoteUnsetError now) } := by
    unfold syncPull
    rw [hurl]
    rfl
  have hrecorded := h.recorded
  rw [hsync] at hrecorded
  have hretry := congrArg PullRecord.retryCount hrecorded
  have hstatus := congrArg PullRecord.status hrecorded
  rcases importPull_record env steps gitRemoteUrl now with hold | hnew | hnew
  · rw [hold] at hretry
    exact absurd hretry (Nat.succ_ne_self _).symm
  · rw [hnew] at hstatus
    change some "succeeded" = some "remote_unset" at hstatus
    exact absurd hstatus (by decide)
  · rw [hnew] at hstatus
    change some "failed" = some "remote_unset" at hstatus
    exact absurd hstatus (by decide)

section
variable {url : String} {repo : Repo}

omit [SortKey K] in
theorem prepared_iff (hopen : env.openOrInit s.repo = .ok repo)
    (hset : env.setRemote repo url = .ok ()) {s1 : PullState K} :
    Prepared env url s s1 ↔ s1 = { s.withRepo repo with origin := some url } := by
  constructor
  · rintro ⟨repo', hrepo, -, rfl⟩
    rw [hopen] at hrepo
    cases hrepo
    rfl
  · rintro rfl
    exact ⟨repo, hopen, hset, rfl⟩

variable (hurl : remoteUrl env.synced = some url) (hopen : env.openOrInit s.repo = .ok repo)
  (hset : env.setRemote repo url = .ok ())
include hurl hopen hset

/-- What is thrown behind a diverged pull only the sync records; any other failure both record. -/
theorem failedMerge_agree_iff {e : Exn} {t : PullState K}
    (hmerge : mergeAndReconcile env steps { s.withRepo repo with origin := some url } = .error e t) :
    PullsAgree env steps url now s ↔ PullsMeet env steps url now s := by
  obtain ⟨result, hsync⟩ : ∃ result, syncMerge env steps url now s = _ := syncMerge_run env steps now
  set s1 : PullState K := { s.withRepo repo with origin := some url } with hs1
  have hprepared : ∀ {s'}, Prepared env url s s' ↔ s' = s1 := prepared_iff env hopen hset
  have hrepaired : ∀ s' n s2, Prepared env url s s' → mergeAndReconcile env steps s' = .ok n s2 →
      RepairIdle env now s2.search := by
    intro s' n s2 hs' hrun
    rw [hprepared.mp hs', hmerge] at hrun
    cases hrun
  unfold PullsAgree
  rw [importPull_final, syncPull_final env steps now hurl, hsync, hopen]
  dsimp only
  rw [hset]
  dsimp only
  rw [importMerge_eq, ← hs1, hmerge]
  dsimp only
  split
  · next hmatch =>
    split at hmatch
    · next diverged t' hgit =>
      cases hmatch
      refine iff_of_false (fun h => ?_) fun ⟨_, _, hresolved, _⟩ => ?_
      · have := h.recorded
        rw [refreshed_pullRecord] at this
        exact failed_pullRecord_ne now e this
      · obtain ⟨n, s3, hrun⟩ := hresolved s1 diverged t' (hprepared.mpr rfl) hgit
        rw [hmerge] at hrun
        cases hrun
    · cases hmatch
  · next hmatch =>
    split at hmatch
    · cases hmatch
    · next hnone =>
      cases hmatch
      refine iff_of_true (.refl _)
        ⟨hurl, ⟨s1, hprepared.mpr rfl⟩, fun s' diverged s2 hs' hgit => ?_, hrepaired⟩
      rw [hprepared.mp hs'] at hgit
      exact absurd hgit (hnone diverged s2)

/-- Once merged and rebuilt, the sync differs by its repair. -/
theorem merged_agree_iff {n : Nat} {t : PullState K}
    (hmerge : mergeAndReconcile env steps { s.withRepo repo with origin := some url } = .ok n t) :
    PullsAgree env steps url now s ↔ PullsMeet env steps url now s := by
  obtain ⟨result, hsync⟩ : ∃ result, syncMerge env steps url now s = _ := syncMerge_run env steps now
  set s1 : PullState K := { s.withRepo repo with origin := some url } with hs1
  have hprepared : ∀ {s'}, Prepared env url s s' ↔ s' = s1 := prepared_iff env hopen hset
  obtain ⟨moved, search', hrepair, hrows, haiFts⟩ := repairHierarchyAfterPull_run env now t.search
  unfold PullsAgree
  rw [importPull_final, syncPull_final env steps now hurl, hsync, hopen]
  dsimp only
  rw [hset]
  dsimp only
  rw [importMerge_eq, ← hs1, hmerge]
  simp only [hrepair]
  refine ⟨fun h => ⟨hurl, ⟨s1, hprepared.mpr rfl⟩, fun s' d s2 hs' _ => ?_, fun s' n' s2 hs' hrun => ?_⟩,
    fun ⟨_, _, _, hrepaired⟩ => ?_⟩
  · rw [hprepared.mp hs']
    exact ⟨n, t, hmerge⟩
  · rw [hprepared.mp hs', hmerge] at hrun
    cases hrun
    intro moved' search'' hrun
    rw [hrepair] at hrun
    cases hrun
    have hdb := h.db
    have hcards := h.cards
    simp only [refreshed_search, PullState.repo] at hdb hcards
    exact ⟨hdb.symm, fun isTrash path hpath => (hcards isTrash path hpath).symm⟩
  · obtain ⟨hdb, hcards⟩ := hrepaired s1 n t (hprepared.mpr rfl) hmerge moved search' hrepair
    refine ⟨fun isTrash path hpath => ?_, ?_, ?_, ?_, ?_⟩
    · simp only [refreshed_search, PullState.repo]
      exact (hcards isTrash path hpath).symm
    · simp only [refreshed_search]
      exact hdb.symm
    · simp only [refreshed_search]
      exact hrows.symm
    · simp only [refreshed_search]
      exact haiFts.symm
    · rw [refreshed_pullRecord, refreshed_pullRecord]
      rfl

end

/-- For every state, remote and failure of the shared steps, the import leaves the card files, the
rows and the recorded result of a sync exactly under the conditions of `PullsMeet`. -/
theorem pulls_agree_iff (hremote : ∀ url, remoteUrl env.synced = some url → url = gitRemoteUrl) :
    PullsAgree env steps gitRemoteUrl now s ↔ PullsMeet env steps gitRemoteUrl now s := by
  cases hurl : remoteUrl env.synced with
  | none =>
    exact iff_of_false (unset_disagree env steps gitRemoteUrl now hurl) fun ⟨h, _, _, _⟩ => by
      simp [hurl] at h
  | some url =>
  obtain rfl := hremote url hurl
  obtain ⟨result, hsync⟩ : ∃ result, syncMerge env steps url now s = _ := syncMerge_run env steps now
  cases hopen : env.openOrInit s.repo with
  | error e =>
    refine iff_of_false (fun h => ?_) fun ⟨_, ⟨s1, repo, hrepo, _⟩, _, _⟩ => ?_
    · have := h.recorded
      rw [importPull_final, syncPull_final env steps now hurl, hsync, hopen] at this
      dsimp only at this
      rw [refreshed_pullRecord] at this
      exact failed_pullRecord_ne now e this
    · rw [hopen] at hrepo
      cases hrepo
  | ok repo =>
  cases hset : env.setRemote repo url with
  | error e =>
    refine iff_of_false (fun h => ?_) fun ⟨_, ⟨s1, repo', hrepo, hset', _⟩, _, _⟩ => ?_
    · have := h.recorded
      rw [importPull_final, syncPull_final env steps now hurl, hsync, hopen] at this
      dsimp only at this
      rw [hset] at this
      dsimp only at this
      rw [refreshed_pullRecord, refreshed_pullRecord] at this
      exact failed_pullRecord_ne now e this
    · rw [hopen] at hrepo
      cases hrepo
      rw [hset] at hset'
      cases hset'
  | ok _ =>
  cases hmerge : mergeAndReconcile env steps { s.withRepo repo with origin := some url } with
  | error e t => exact failedMerge_agree_iff env steps now hurl hopen hset hmerge
  | ok n t => exact merged_agree_iff env steps now hurl hopen hset hmerge

end

/-! ## No hidden card -/

section
variable [SortKey K] {env : PullEnv K} {now : Int}

variable (env now) in
theorem repairHierarchyLocked_rooted {w : World K} (hj : w.journal = none) (hk : w.db.Keyed)
    (hlive : AllRooted (liveUp w.db env.project.projectId)) :
    Ends (repairHierarchyLocked env.toEnv env.project.projectId now) w (fun _ w' => w' = w)
      fun _ w' => w' = w := by
  unfold repairHierarchyLocked
  refine (requireProject_ends hj _).bind ?_ fun _ _ h => h
  rintro - w1 ⟨rfl, -⟩
  have hplan : planHierarchyRepair w1.db env.project.projectId now = .ok ⟨[], [], []⟩ :=
    planHierarchyRepair_of_rooted hk hlive _
  simp [hplan]

omit [SortKey K] in
/-- A project of roots alone has no hidden card. -/
theorem allRooted_of_roots {db : Db K} {projectId : String}
    (h : ∀ (id : String) (card : Card K), db.cards[id]? = some card → card.parentCardId = none) :
    AllRooted (liveUp db projectId) := by
  intro id parent hup
  have hup' := hup
  rw [liveUp, Option.map_eq_some_iff] at hup'
  obtain ⟨card, hcard, rfl⟩ := hup'
  have hrow := (Option.filter_eq_some_iff.mp (Option.filter_eq_some_iff.mp hcard).1).1
  rw [h id card hrow] at hup
  exact .root hup

/-- Where every live card of the rebuilt project has a live way to the roots, the repair that only
one of the callers makes does nothing. -/
theorem repairIdle_of_rooted {search : SearchState K} (hj : search.services.world.journal = none)
    (hk : search.services.world.db.Keyed)
    (hlive : AllRooted (liveUp search.services.world.db env.project.projectId)) :
    RepairIdle env now search := by
  intro moved search' hrun
  have hends : Ends _ search.services.world _ _ :=
    repairHierarchyLocked_rooted env now hj hk hlive
  have hworld : search'.services.world = search.services.world := by
    have hrepair : Ends (repairHierarchyAfterPull env now) search
        (fun _ t => t.services.world = search.services.world)
        fun _ t => t.services.world = search.services.world := by
      unfold repairHierarchyAfterPull
      rw [Ends.tryCatch_iff]
      have hlift : ∀ m : StoreM K Nat, Ends m search.services.world
          (fun _ w => w = search.services.world) (fun _ w => w = search.services.world) →
          Ends (onStore m) search (fun _ t => t.services.world = search.services.world)
            fun _ t => t.services.world = search.services.world := by
        intro m hm
        unfold Ends at hm ⊢
        unfold onStore onWorld
        cases hrun : m search.services.world <;> simpa [hrun] using hm
      refine (hlift _ (hends.bind (fun result w hw => ?_) fun _ _ h => h)).mono (fun _ _ h => h)
        fun _ _ h => h
      cases result <;> exact hw
    exact hrepair.ok hrun
  rw [hworld]
  exact ⟨rfl, fun _ _ _ => rfl⟩

end

/-! ## A remote without a common ancestor -/

/-- A plain project and a remote whose only commit descends from nothing the project has. -/
def strangerEnv : PullEnv ℚ where
  toRebuildEnv := noteEnv
  gitRemoteUrl := some "remote"
  lib := plainGit
  openOrInit := .ok
  setRemote _ _ := .ok ()
  fetchRemote _ repo :=
    .ok ({ repo with commits := repo.commits ++ [(⟨∅, [], ""⟩ : Commit)] }, "master", repo.commits.length)
  descendantOf commits commit ancestor := (ancestorOids commits commits.length commit).contains ancestor
  inspectRepoSyncMetrics _ := .ok (0, 0)
  generateId _ := "beef"

/-- The project with one commit of its own. -/
def oneCommit : PullState ℚ where
  search := ⟨⟨⟨Db.empty, Repo.init.commit "Add card", none, 0⟩, ⟨∅, ∅, ∅, ∅⟩, 0⟩, ∅⟩
  origin := none
  sync := none

/-- The merge behind the diverged pull throws. A sync records it, the import does not. -/
theorem oneCommit_disagrees :
    ¬ PullsAgree strangerEnv (strangerEnv.steps 7) "remote" 7 oneCommit := by
  intro h
  have hrecord : (finalState (importPull strangerEnv (strangerEnv.steps 7) "remote" 7 oneCommit)).pullRecord ≠
      (finalState (syncPull strangerEnv (strangerEnv.steps 7) 7 oneCommit)).pullRecord := by
    decide +kernel
  exact hrecord h.recorded

/-- The same project, when the remote cannot be reached. -/
def offlineEnv : PullEnv ℚ :=
  { strangerEnv with fetchRemote := fun _ _ => .error (.runtimeError "git_remote_fetch failed") }

/-- A remote whose own commit brings a card and is made on the project's first one. -/
def siblingEnv : PullEnv ℚ :=
  { strangerEnv with fetchRemote := fun _ repo => .ok ({ repo with commits := repo.commits ++
      [(⟨(oneFile completeText).repo.work, [0], ""⟩ : Commit)] }, "master", repo.commits.length) }

/-- The project with two commits. -/
def twoCommits : PullState ℚ :=
  oneCommit.withRepo ((Repo.init.commit "Add card").commit "Update card")

/-- The project with the remote it is pulled from. -/
def twoCommitsSet : PullState ℚ :=
  { twoCommits.withRepo twoCommits.repo with origin := some "remote" }

theorem twoCommitsSet_prepared : Prepared siblingEnv "remote" twoCommits twoCommitsSet :=
  ⟨twoCommits.repo, rfl, rfl, rfl⟩

theorem twoCommits_diverged : Ends (gitPull siblingEnv) twoCommitsSet
    (fun diverged _ => diverged.isSome = true) fun _ _ => False := by decide +kernel

/-- The merge returns, with the card of the remote as a root. -/
theorem twoCommits_merged : Ends (mergeAndReconcile siblingEnv (siblingEnv.steps 7)) twoCommitsSet
    (fun _ s => s.search.services.world.journal.isNone = true ∧
      s.search.services.world.db.cards.toList.length = 1 ∧
      (s.search.services.world.db.cards.toList.all fun kv =>
        kv.2.cardId == kv.1 && kv.2.parentCardId.isNone) = true) fun _ _ => False := by decide +kernel

/-- Both record the failed fetch, and both the merge of what diverged. -/
theorem offline_and_diverged_agree :
    PullsAgree offlineEnv (offlineEnv.steps 7) "remote" 7 oneCommit ∧
      (∃ diverged s', gitPull siblingEnv twoCommitsSet = .ok (some diverged) s') ∧
      PullsAgree siblingEnv (siblingEnv.steps 7) "remote" 7 twoCommits := by
  have hremote : ∀ url, some "remote" = some url → url = "remote" := fun url h => (Option.some.inj h).symm
  refine ⟨?_, ?_, ?_⟩
  · have hfetch : ∀ s1, Prepared offlineEnv "remote" oneCommit s1 →
        gitPull offlineEnv s1 = .error (.runtimeError "git_remote_fetch failed") s1 := by
      rintro s1 ⟨repo, hrepo, -, rfl⟩
      cases hrepo
      rfl
    refine (pulls_agree_iff offlineEnv _ _ _ hremote).mpr
      ⟨by decide, ⟨_, _, rfl, rfl, rfl⟩, fun s1 diverged s2 hs1 hgit => ?_, fun s1 n s2 hs1 hmerge => ?_⟩
    · rw [hfetch s1 hs1] at hgit
      cases hgit
    · rw [mergeAndReconcile_run, hfetch s1 hs1] at hmerge
      cases hmerge
  · obtain ⟨diverged, s', hpull, hsome⟩ := twoCommits_diverged.returns
    obtain ⟨d, rfl⟩ := Option.isSome_iff_exists.mp hsome
    exact ⟨d, s', hpull⟩
  · have honly : ∀ s1, Prepared siblingEnv "remote" twoCommits s1 → s1 = twoCommitsSet := by
      rintro s1 ⟨repo, hrepo, -, rfl⟩
      have hopen : repo = twoCommits.repo := (Except.ok.inj hrepo).symm
      rw [hopen, twoCommitsSet]
    refine (pulls_agree_iff siblingEnv _ _ _ hremote).mpr
      ⟨by decide, ⟨_, twoCommitsSet_prepared⟩, fun s1 diverged s2 hs1 _ => ?_, fun s1 n s2 hs1 hmerge => ?_⟩
    · obtain ⟨n, s3, hok, -⟩ := twoCommits_merged.returns
      obtain rfl := honly s1 hs1
      exact ⟨n, s3, hok⟩
    · obtain rfl := honly s1 hs1
      obtain ⟨hj, -, hroots⟩ := twoCommits_merged.ok hmerge
      have hrow : ∀ (id : String) (card : Card ℚ), s2.search.services.world.db.cards[id]? = some card →
          card.cardId = id ∧ card.parentCardId = none := by
        intro id card hcard
        simpa using List.all_eq_true.mp hroots (id, card)
          (Std.ExtTreeMap.mem_toList_iff_getElem?_eq_some.mpr hcard)
      exact repairIdle_of_rooted (Option.isNone_iff_eq_none.mp hj)
        (fun id card hcard => (hrow id card hcard).1)
        (allRooted_of_roots fun id card hcard => (hrow id card hcard).2)

end HolderCore
