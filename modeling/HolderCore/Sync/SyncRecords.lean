import HolderCore.Sync.PullPaths

/-! # Records of pushes and pulls

`project/ProjectSyncRepo.cpp`: every call reads the row of a project, changes some of its columns and
writes all of them back. What a row says after any calls is told by the results that were recorded
for its project, pushes and pulls apart. -/

namespace HolderCore

/-- A result as it is recorded. -/
structure Attempt where
  status : String
  success : Bool
  errorMessage : Option String
  now : Int
deriving DecidableEq, Repr

structure ProjectSyncActivityUpdate where
  uncommittedChangesCount : Nat := 0
  unpushedCommitsCount : Nat := 0
  updatedAt : Int := 0
deriving DecidableEq, Repr

/-- `record_push_result`. -/
def ProjectSyncState.pushed (attempt : Attempt) (state : ProjectSyncState) : ProjectSyncState :=
  let state := { state with lastPushStatus := some attempt.status, updatedAt := attempt.now }
  if attempt.success then
    { state with
      lastPushAt := some attempt.now
      lastSyncError := none
      lastSyncErrorAt := none
      retryCount := 0
      nextRetryAt := none }
  else
    { state with
      lastSyncError := some ((attempt.errorMessage.filter (!·.isEmpty)).getD "push failed")
      lastSyncErrorAt := some attempt.now
      retryCount := state.retryCount + 1
      nextRetryAt := some (attempt.now + backoffSecondsForRetry (state.retryCount + 1)) }

/-- `update_activity_counts`. -/
def ProjectSyncState.counted (update : ProjectSyncActivityUpdate) (state : ProjectSyncState) :
    ProjectSyncState :=
  { state with
    uncommittedChangesCount := update.uncommittedChangesCount
    unpushedCommitsCount := update.unpushedCommitsCount
    updatedAt := update.updatedAt }

/-- The ids of the projects, and the rows of `project_sync_state`. -/
structure SyncTables where
  projects : List String
  states : Map String ProjectSyncState

abbrev SyncRecordM := EStateM Exn SyncTables

namespace ProjectSyncRepo

def get? (tables : SyncTables) (projectId : String) : Option ProjectSyncState :=
  tables.states[projectId]?

/-- The row as a call starts from it. -/
def row (tables : SyncTables) (projectId : String) : ProjectSyncState :=
  (get? tables projectId).getD {}

/-- A row refers to its project. -/
def upsert (projectId : String) (state : ProjectSyncState) : SyncRecordM Unit := do
  let tables ← get
  if !tables.projects.contains projectId then
    throw (.runtimeError "upsert project sync state failed: FOREIGN KEY constraint failed")
  set { tables with states := tables.states.insert projectId state }

def change (projectId : String) (f : ProjectSyncState → ProjectSyncState) : SyncRecordM Unit := do
  upsert projectId (f (row (← get) projectId))

def updateActivityCounts (projectId : String) (update : ProjectSyncActivityUpdate) :
    SyncRecordM Unit := change projectId (·.counted update)

def recordPushResult (projectId : String) (attempt : Attempt) : SyncRecordM Unit :=
  change projectId (·.pushed attempt)

def recordPullResult (projectId : String) (attempt : Attempt) : SyncRecordM Unit :=
  change projectId (·.pulled attempt.status attempt.success attempt.errorMessage attempt.now)

end ProjectSyncRepo

inductive SyncCall where
  | push (projectId : String) (attempt : Attempt)
  | pull (projectId : String) (attempt : Attempt)
  | activity (projectId : String) (update : ProjectSyncActivityUpdate)
deriving DecidableEq, Repr

namespace SyncCall

def run : SyncCall → SyncRecordM Unit
  | push projectId attempt => ProjectSyncRepo.recordPushResult projectId attempt
  | pull projectId attempt => ProjectSyncRepo.recordPullResult projectId attempt
  | activity projectId update => ProjectSyncRepo.updateActivityCounts projectId update

def projectId : SyncCall → String
  | push projectId _ | pull projectId _ | activity projectId _ => projectId

/-- What a call makes of the row of its project. -/
def edit : SyncCall → ProjectSyncState → ProjectSyncState
  | push _ attempt => (·.pushed attempt)
  | pull _ attempt => (·.pulled attempt.status attempt.success attempt.errorMessage attempt.now)
  | activity _ update => (·.counted update)

/-- The tables after a call, whether it throws or not. -/
def after (tables : SyncTables) (call : SyncCall) : SyncTables :=
  match call.run tables with
  | .ok _ tables => tables
  | .error _ tables => tables

end SyncCall

def runSyncCalls (calls : List SyncCall) (tables : SyncTables) : SyncTables :=
  calls.foldl SyncCall.after tables

/-! ## Rows -/

section
variable {tables : SyncTables} {projectId : String}

open ProjectSyncRepo

theorem SyncCall.run_eq (call : SyncCall) :
    call.run tables = ProjectSyncRepo.change call.projectId call.edit tables := by
  cases call <;> rfl

theorem SyncCall.after_eq (call : SyncCall) : SyncCall.after tables call =
    if tables.projects.contains call.projectId then
      { tables with
        states := tables.states.insert call.projectId (call.edit (row tables call.projectId)) }
    else tables := by
  rw [SyncCall.after, SyncCall.run_eq, ProjectSyncRepo.change]
  cases h : tables.projects.contains call.projectId <;>
    simp only [upsert, bind, EStateM.bind, get, getThe, MonadStateOf.get, EStateM.get, set,
      EStateM.set, throw, throwThe, MonadExceptOf.throw, EStateM.throw, h,
      Bool.not_true, Bool.not_false, Bool.false_eq_true, if_true, if_false]

theorem SyncCall.after_projects (call : SyncCall) :
    (SyncCall.after tables call).projects = tables.projects := by
  rw [SyncCall.after_eq]
  split <;> rfl

/-- A call changes the row of its project, and no other row. -/
theorem SyncCall.row_after (hproject : projectId ∈ tables.projects) (call : SyncCall) :
    row (SyncCall.after tables call) projectId =
      if call.projectId = projectId then call.edit (row tables projectId) else row tables projectId := by
  rw [SyncCall.after_eq]
  by_cases h : call.projectId = projectId
  · rw [h, if_pos (by simpa using hproject), if_pos rfl, row, get?, Map.get_insert, if_pos rfl]
    rfl
  · rw [if_neg h]
    split
    · rw [row, get?, Map.get_insert_ne h]
      rfl
    · rfl

theorem runSyncCalls_concat (calls : List SyncCall) (call : SyncCall) :
    runSyncCalls (calls ++ [call]) tables = SyncCall.after (runSyncCalls calls tables) call := by
  rw [runSyncCalls, List.foldl_append]
  rfl

theorem runSyncCalls_projects (calls : List SyncCall) :
    (runSyncCalls calls tables).projects = tables.projects := by
  induction calls using List.reverseRecOn with
  | nil => rfl
  | append_singleton calls call ih => rw [runSyncCalls_concat, SyncCall.after_projects, ih]

end

/-! ## What was recorded -/

def SyncCall.pushOf (projectId : String) : SyncCall → Option Attempt
  | push id attempt => if id = projectId then some attempt else none
  | _ => none

def SyncCall.pullOf (projectId : String) : SyncCall → Option Attempt
  | pull id attempt => if id = projectId then some attempt else none
  | _ => none

/-- The results of the pushes of a project, the latest first. -/
def pushAttempts (projectId : String) (calls : List SyncCall) : List Attempt :=
  calls.reverse.filterMap (·.pushOf projectId)

def pullAttempts (projectId : String) (calls : List SyncCall) : List Attempt :=
  calls.reverse.filterMap (·.pullOf projectId)

/-- How many failures there were since the latest success. -/
def failuresSince (attempts : List Attempt) : Nat := (attempts.takeWhile fun a => !a.success).length

def latestFailure (attempts : List Attempt) : Option Attempt := attempts.find? fun a => !a.success

def latestSuccess (attempts : List Attempt) : Option Attempt := attempts.find? fun a => a.success

/-- The counter and the times of one family of results. -/
structure RetryFields where
  retryCount : Nat
  nextRetryAt : Option Int
  lastAt : Option Int
deriving DecidableEq, Repr

def ProjectSyncState.pushFields (state : ProjectSyncState) : RetryFields :=
  ⟨state.retryCount, state.nextRetryAt, state.lastPushAt⟩

def ProjectSyncState.pullFields (state : ProjectSyncState) : RetryFields :=
  ⟨state.pullRetryCount, state.nextPullRetryAt, state.lastPullAt⟩

/-- What the counter and the times say of results, the latest first. -/
structure RetryFields.Tells (fields : RetryFields) (attempts : List Attempt) : Prop where
  count : fields.retryCount = failuresSince attempts
  set : fields.nextRetryAt.isSome ↔ 0 < fields.retryCount
  next : 0 < fields.retryCount → ∃ failure, latestFailure attempts = some failure ∧
    fields.nextRetryAt = some (failure.now + backoffSecondsForRetry fields.retryCount)
  last : fields.lastAt = (latestSuccess attempts).map (·.now)

/-- What a result makes of the counter and the times. -/
def RetryFields.record (fields : RetryFields) (attempt : Attempt) : RetryFields :=
  if attempt.success then ⟨0, none, some attempt.now⟩
  else ⟨fields.retryCount + 1,
    some (attempt.now + backoffSecondsForRetry (fields.retryCount + 1)), fields.lastAt⟩

theorem RetryFields.Tells.record {fields : RetryFields} {attempts : List Attempt}
    (h : fields.Tells attempts) (attempt : Attempt) :
    (fields.record attempt).Tells (attempt :: attempts) := by
  cases hsuccess : attempt.success with
  | true =>
    rw [RetryFields.record, if_pos hsuccess]
    exact {
      count := by simp [failuresSince, hsuccess]
      set := by simp
      next := fun hpos => absurd hpos (lt_irrefl 0)
      last := by simp [latestSuccess, hsuccess] }
  | false =>
    rw [RetryFields.record, if_neg (by simp [hsuccess])]
    exact {
      count := by simp [failuresSince, hsuccess, h.count]
      set := by simp
      next := fun _ => ⟨attempt, by simp [latestFailure, hsuccess], rfl⟩
      last := by simp [latestSuccess, hsuccess, h.last] }

theorem RetryFields.Tells.start : (ProjectSyncState.pushFields {}).Tells [] ∧
    (ProjectSyncState.pullFields {}).Tells [] :=
  ⟨⟨rfl, by decide, fun h => absurd h (lt_irrefl 0), rfl⟩,
    ⟨rfl, by decide, fun h => absurd h (lt_irrefl 0), rfl⟩⟩

/-! ## The two families -/

section
variable {projectId : String}

theorem pushAttempts_concat (calls : List SyncCall) (call : SyncCall) :
    pushAttempts projectId (calls ++ [call]) =
      (call.pushOf projectId).toList ++ pushAttempts projectId calls := by
  rw [pushAttempts, List.reverse_append, List.reverse_singleton, List.singleton_append,
    List.filterMap_cons]
  cases call.pushOf projectId <;> rfl

theorem pullAttempts_concat (calls : List SyncCall) (call : SyncCall) :
    pullAttempts projectId (calls ++ [call]) =
      (call.pullOf projectId).toList ++ pullAttempts projectId calls := by
  rw [pullAttempts, List.reverse_append, List.reverse_singleton, List.singleton_append,
    List.filterMap_cons]
  cases call.pullOf projectId <;> rfl

theorem pushFields_pushed (attempt : Attempt) (state : ProjectSyncState) :
    (state.pushed attempt).pushFields = state.pushFields.record attempt ∧
      (state.pushed attempt).pullFields = state.pullFields := by
  rw [ProjectSyncState.pushed, RetryFields.record]
  cases attempt.success <;> exact ⟨rfl, rfl⟩

theorem pullFields_pulled (attempt : Attempt) (state : ProjectSyncState) :
    (state.pulled attempt.status attempt.success attempt.errorMessage attempt.now).pullFields =
        state.pullFields.record attempt ∧
      (state.pulled attempt.status attempt.success attempt.errorMessage attempt.now).pushFields =
        state.pushFields := by
  rw [ProjectSyncState.pulled, RetryFields.record]
  cases attempt.success <;> exact ⟨rfl, rfl⟩

open ProjectSyncRepo

theorem SyncCall.elsewhere {call : SyncCall} (h : call.projectId ≠ projectId) :
    call.pushOf projectId = none ∧ call.pullOf projectId = none := by
  cases call with
  | push id attempt => exact ⟨if_neg h, rfl⟩
  | pull id attempt => exact ⟨rfl, if_neg h⟩
  | activity id update => exact ⟨rfl, rfl⟩

/-- A push is recorded among the pushes of its project, and nothing else is. -/
theorem pushFields_after {tables : SyncTables} (hproject : projectId ∈ tables.projects)
    (call : SyncCall) : (row (SyncCall.after tables call) projectId).pushFields =
      (call.pushOf projectId).elim (row tables projectId).pushFields
        (row tables projectId).pushFields.record := by
  rw [SyncCall.row_after hproject]
  by_cases h : call.projectId = projectId
  · rw [if_pos h]
    cases call with
    | push id attempt =>
      have hof : SyncCall.pushOf projectId (.push id attempt) = some attempt := if_pos h
      rw [hof]
      exact (pushFields_pushed attempt _).1
    | pull id attempt => exact (pullFields_pulled attempt _).2
    | activity id update => rfl
  · rw [if_neg h, (SyncCall.elsewhere h).1]
    rfl

theorem pullFields_after {tables : SyncTables} (hproject : projectId ∈ tables.projects)
    (call : SyncCall) : (row (SyncCall.after tables call) projectId).pullFields =
      (call.pullOf projectId).elim (row tables projectId).pullFields
        (row tables projectId).pullFields.record := by
  rw [SyncCall.row_after hproject]
  by_cases h : call.projectId = projectId
  · rw [if_pos h]
    cases call with
    | push id attempt => exact (pushFields_pushed attempt _).2
    | pull id attempt =>
      have hof : SyncCall.pullOf projectId (.pull id attempt) = some attempt := if_pos h
      rw [hof]
      exact (pullFields_pulled attempt _).1
    | activity id update => rfl
  · rw [if_neg h, (SyncCall.elsewhere h).2]
    rfl

theorem RetryFields.Tells.after {fields : RetryFields} {attempts : List Attempt}
    (h : fields.Tells attempts) (attempt : Option Attempt) :
    (attempt.elim fields fields.record).Tells (attempt.toList ++ attempts) := by
  cases attempt with
  | none => exact h
  | some attempt => exact h.record attempt

/-- After any calls, on any projects, the fields of either family tell what was recorded in it. -/
theorem runSyncCalls_tells {tables : SyncTables} (hproject : projectId ∈ tables.projects)
    (hstart : get? tables projectId = none) (calls : List SyncCall) :
    (row (runSyncCalls calls tables) projectId).pushFields.Tells (pushAttempts projectId calls) ∧
      (row (runSyncCalls calls tables) projectId).pullFields.Tells (pullAttempts projectId calls) := by
  induction calls using List.reverseRecOn with
  | nil =>
    have hrow : row tables projectId = {} := by
      rw [row, hstart]
      rfl
    change (row tables projectId).pushFields.Tells [] ∧ (row tables projectId).pullFields.Tells []
    rw [hrow]
    exact RetryFields.Tells.start
  | append_singleton calls call ih =>
    have hthere : projectId ∈ (runSyncCalls calls tables).projects := by
      rwa [runSyncCalls_projects]
    rw [runSyncCalls_concat, pushFields_after hthere, pullFields_after hthere, pushAttempts_concat,
      pullAttempts_concat]
    exact ⟨ih.1.after _, ih.2.after _⟩

/-- The retry bookkeeping of a project, and the independence of the two families: no push changes a
field of the pulls, no pull one of the pushes, and the activity counts none of either. -/
theorem retryBookkeeping {tables : SyncTables} (hproject : projectId ∈ tables.projects)
    (hstart : get? tables projectId = none) (calls : List SyncCall) :
    (row (runSyncCalls calls tables) projectId).pushFields.Tells (pushAttempts projectId calls) ∧
      (row (runSyncCalls calls tables) projectId).pullFields.Tells (pullAttempts projectId calls) ∧
      ∀ before id, projectId ∈ before.projects →
        (∀ attempt, (row (SyncCall.after before (.push id attempt)) projectId).pullFields =
          (row before projectId).pullFields) ∧
        (∀ attempt, (row (SyncCall.after before (.pull id attempt)) projectId).pushFields =
          (row before projectId).pushFields) ∧
        ∀ update, (row (SyncCall.after before (.activity id update)) projectId).pushFields =
            (row before projectId).pushFields ∧
          (row (SyncCall.after before (.activity id update)) projectId).pullFields =
            (row before projectId).pullFields := by
  obtain ⟨hpush, hpull⟩ := runSyncCalls_tells hproject hstart calls
  refine ⟨hpush, hpull, fun before id hbefore => ⟨fun attempt => ?_, fun attempt => ?_, fun update => ?_⟩⟩
  · exact pullFields_after hbefore (.push id attempt)
  · exact pushFields_after hbefore (.pull id attempt)
  · exact ⟨pushFields_after hbefore (.activity id update), pullFields_after hbefore (.activity id update)⟩

/-- The counters stay below the number of calls, so an `int` holds them. -/
theorem retryCount_le {tables : SyncTables} (hproject : projectId ∈ tables.projects)
    (hstart : get? tables projectId = none) (calls : List SyncCall) :
    (row (runSyncCalls calls tables) projectId).retryCount ≤ calls.length ∧
      (row (runSyncCalls calls tables) projectId).pullRetryCount ≤ calls.length := by
  have hle : ∀ attempts : List Attempt, failuresSince attempts ≤ attempts.length :=
    fun attempts => (List.takeWhile_prefix _).length_le
  have hlength : ∀ f : SyncCall → Option Attempt, (calls.reverse.filterMap f).length ≤ calls.length := by
    intro f
    have := List.length_filterMap_le f calls.reverse
    rwa [List.length_reverse] at this
  obtain ⟨hpush, hpull⟩ := runSyncCalls_tells hproject hstart calls
  exact ⟨hpush.count.trans_le ((hle _).trans (hlength _)),
    hpull.count.trans_le ((hle _).trans (hlength _))⟩

/-! ## The error -/

/-- A result of the project with the text that its failure has by default. -/
def SyncCall.syncOf (projectId : String) (call : SyncCall) : Option (Attempt × String) :=
  ((call.pushOf projectId).map (·, "push failed")).or ((call.pullOf projectId).map (·, "pull failed"))

/-- The results of a project, the latest first. -/
def syncAttempts (projectId : String) (calls : List SyncCall) : List (Attempt × String) :=
  calls.reverse.filterMap (·.syncOf projectId)

/-- The error of a result, if it failed. -/
def Attempt.error (attempt : Attempt) (fallback : String) : Option String :=
  if attempt.success then none else some ((attempt.errorMessage.filter (!·.isEmpty)).getD fallback)

/-- The latest of some results failed. -/
def Failing (attempts : List Attempt) : Prop := ∃ attempt ∈ attempts.head?, attempt.success = false

theorem failing_iff (attempts : List Attempt) : Failing attempts ↔ 0 < failuresSince attempts := by
  cases attempts with
  | nil => simp [Failing, failuresSince]
  | cons attempt attempts => cases h : attempt.success <;> simp [Failing, failuresSince, h]

theorem lastSyncError_after {tables : SyncTables} (hproject : projectId ∈ tables.projects)
    (call : SyncCall) : (row (SyncCall.after tables call) projectId).lastSyncError =
      (call.syncOf projectId).elim (row tables projectId).lastSyncError
        fun attempt => attempt.1.error attempt.2 := by
  rw [SyncCall.row_after hproject, SyncCall.syncOf]
  by_cases h : call.projectId = projectId
  · rw [if_pos h]
    cases call with
    | push id attempt =>
      have hof : SyncCall.pushOf projectId (.push id attempt) = some attempt := if_pos h
      rw [hof]
      cases hsuccess : attempt.success <;>
        simp [SyncCall.edit, ProjectSyncState.pushed, Attempt.error, hsuccess]
    | pull id attempt =>
      have hof : SyncCall.pullOf projectId (.pull id attempt) = some attempt := if_pos h
      rw [hof]
      cases hsuccess : attempt.success <;>
        simp [SyncCall.edit, SyncCall.pushOf, ProjectSyncState.pulled, Attempt.error, hsuccess]
    | activity id update => rfl
  · rw [if_neg h, (SyncCall.elsewhere h).1, (SyncCall.elsewhere h).2]
    rfl

/-- The error is that of the latest result, a push or a pull. -/
theorem lastSyncError_eq {tables : SyncTables} (hproject : projectId ∈ tables.projects)
    (hstart : get? tables projectId = none) (calls : List SyncCall) :
    (row (runSyncCalls calls tables) projectId).lastSyncError =
      (syncAttempts projectId calls).head?.bind fun attempt => attempt.1.error attempt.2 := by
  induction calls using List.reverseRecOn with
  | nil =>
    change (row tables projectId).lastSyncError = none
    rw [row, hstart]
    rfl
  | append_singleton calls call ih =>
    have hthere : projectId ∈ (runSyncCalls calls tables).projects := by
      rwa [runSyncCalls_projects]
    rw [runSyncCalls_concat, lastSyncError_after hthere, ih, syncAttempts, syncAttempts,
      List.reverse_append, List.reverse_singleton, List.singleton_append, List.filterMap_cons]
    cases call.syncOf projectId <;> rfl

/-- The latest result is the latest push or the latest pull. -/
theorem syncAttempts_head {calls : List SyncCall} {attempt : Attempt × String}
    (h : (syncAttempts projectId calls).head? = some attempt) :
    (pushAttempts projectId calls).head? = some attempt.1 ∨
      (pullAttempts projectId calls).head? = some attempt.1 := by
  rw [syncAttempts] at h
  rw [pushAttempts, pullAttempts]
  generalize calls.reverse = calls at h ⊢
  induction calls with
  | nil => cases h
  | cons call calls ih =>
    rw [List.filterMap_cons] at h ⊢
    rw [List.filterMap_cons]
    cases hpush : call.pushOf projectId with
    | some pushed =>
      simp only [SyncCall.syncOf, hpush, Option.map_some, Option.some_or, List.head?_cons,
        Option.some.injEq] at h
      exact .inl (by rw [← h]; rfl)
    | none =>
      cases hpull : call.pullOf projectId with
      | some pulled =>
        simp only [SyncCall.syncOf, hpush, hpull, Option.map_none, Option.map_some, Option.none_or,
          List.head?_cons, Option.some.injEq] at h
        exact .inr (by rw [← h]; rfl)
      | none =>
        simp only [SyncCall.syncOf, hpush, hpull, Option.map_none, Option.none_or] at h
        exact ih h

/-- The error is that of the latest result, so there is none where neither family is failing. A
family that is failing is told by its own counter, whatever the other one does. -/
theorem lastSyncError_latest {tables : SyncTables} (hproject : projectId ∈ tables.projects)
    (hstart : get? tables projectId = none) (calls : List SyncCall) :
    (row (runSyncCalls calls tables) projectId).lastSyncError =
        ((syncAttempts projectId calls).head?.bind fun attempt => attempt.1.error attempt.2) ∧
      (¬ Failing (pushAttempts projectId calls) → ¬ Failing (pullAttempts projectId calls) →
        (row (runSyncCalls calls tables) projectId).lastSyncError = none) ∧
      (Failing (pushAttempts projectId calls) ↔
        0 < (row (runSyncCalls calls tables) projectId).retryCount) ∧
      (Failing (pullAttempts projectId calls) ↔
        0 < (row (runSyncCalls calls tables) projectId).pullRetryCount) := by
  obtain ⟨hpush, hpull⟩ := runSyncCalls_tells hproject hstart calls
  have hlatest := lastSyncError_eq hproject hstart calls
  refine ⟨hlatest, fun hnopush hnopull => ?_, ?_, ?_⟩
  · rw [hlatest]
    cases hhead : (syncAttempts projectId calls).head? with
    | none => rfl
    | some attempt =>
      rw [Option.bind_some, Attempt.error]
      cases hsuccess : attempt.1.success with
      | true => rfl
      | false =>
        obtain h | h := syncAttempts_head hhead
        · exact absurd ⟨attempt.1, h, hsuccess⟩ hnopush
        · exact absurd ⟨attempt.1, h, hsuccess⟩ hnopull
  · rw [failing_iff, ← hpush.count]
    rfl
  · rw [failing_iff, ← hpull.count]
    rfl

end

/-! ## Runs -/

/-- A project without a row. -/
def freshTables : SyncTables := ⟨["home"], ∅⟩

def failedAt (now : Int) : Attempt := ⟨"failed", false, some "offline", now⟩

def succeededAt (now : Int) : Attempt := ⟨"succeeded", true, none, now⟩

theorem freshTables_start : "home" ∈ freshTables.projects ∧
    ProjectSyncRepo.get? freshTables "home" = none := by decide +kernel

/-- Two pushes that fail around a pull that succeeds. -/
def interleaved : List SyncCall :=
  [.push "home" (failedAt 10), .pull "home" (succeededAt 20), .activity "home" ⟨1, 2, 21⟩,
    .push "home" (failedAt 30)]

theorem interleaved_bookkeeping :
    (ProjectSyncRepo.row (runSyncCalls interleaved freshTables) "home").pushFields =
      ⟨2, some 330, none⟩ ∧
    (ProjectSyncRepo.row (runSyncCalls interleaved freshTables) "home").pushFields.Tells
      (pushAttempts "home" interleaved) :=
  ⟨by decide +kernel, (retryBookkeeping freshTables_start.1 freshTables_start.2 interleaved).1⟩

theorem interleaved_error :
    (ProjectSyncRepo.row (runSyncCalls interleaved freshTables) "home").lastSyncError = some "offline" ∧
    (Failing (pullAttempts "home" interleaved) ↔
      0 < (ProjectSyncRepo.row (runSyncCalls interleaved freshTables) "home").pullRetryCount) :=
  ⟨by decide +kernel,
    (lastSyncError_latest freshTables_start.1 freshTables_start.2 interleaved).2.2.2⟩

/-- A pull that succeeds hides a push that still fails, and a push that succeeds a pull. -/
theorem success_hides_failure :
    (Failing (pushAttempts "home" [.push "home" (failedAt 10), .pull "home" (succeededAt 20)]) ∧
      (ProjectSyncRepo.row (runSyncCalls [.push "home" (failedAt 10), .pull "home" (succeededAt 20)]
        freshTables) "home").lastSyncError = none) ∧
    (Failing (pullAttempts "home" [.pull "home" (failedAt 10), .push "home" (succeededAt 20)]) ∧
      (ProjectSyncRepo.row (runSyncCalls [.pull "home" (failedAt 10), .push "home" (succeededAt 20)]
        freshTables) "home").lastSyncError = none) :=
  ⟨⟨⟨failedAt 10, rfl, rfl⟩, by decide +kernel⟩, ⟨⟨failedAt 10, rfl, rfl⟩, by decide +kernel⟩⟩

end HolderCore
