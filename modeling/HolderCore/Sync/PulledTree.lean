import HolderCore.Project.Deletion
import HolderCore.Project.ProjectionRuns
import HolderCore.Project.Written
import HolderCore.Resource.Rebuildable
import HolderCore.Sync.PullPaths

/-! # The end of a pull

What `run_project_sync` does with the tree that a pull left (`sync/ProjectSyncOperation.cpp`): the
rebuild of `reconcile_index_after_pull`, then `repair_hierarchy_after_pull`. On a tree of card files that
stores wrote, the rebuild succeeds exactly when the records go together, whatever the rows of the
project were before, and the repair leaves no hidden card. -/

namespace HolderCore

section
variable [SortKey K] (env : PullEnv K) (now : Int)

/-- `repair_hierarchy_after_pull` on the cards: how many moved; an exception is swallowed. -/
def CardStore.repairHierarchyAfterPull (env : Env K) : StoreM K Nat :=
  tryCatch (do
    match ← repairHierarchyLocked env env.project.projectId now with
    | .repaired plan => return plan.movedCardIds.length
    | _ => return 0) fun _ => return 0

/-- The end of the pull phase, behind the merge. -/
def reconcileAndRepair : SearchM K Nat := do
  (env.steps now).reconcileIndexAfterPull
  HolderCore.repairHierarchyAfterPull env now

/-- The repair of the pull phase is the one on the cards. -/
theorem repairHierarchyAfterPull_eq :
    repairHierarchyAfterPull env now = onStore (CardStore.repairHierarchyAfterPull now env.toEnv) := by
  funext s
  unfold repairHierarchyAfterPull CardStore.repairHierarchyAfterPull
  simp only [tryCatch, tryCatchThe, MonadExceptOf.tryCatch, EStateM.tryCatch, onStore, onWorld]
  generalize (do
    match ← CardStore.repairHierarchyLocked env.toEnv env.project.projectId now with
    | .repaired plan => return plan.movedCardIds.length
    | _ => return 0 : StoreM K Nat) s.services.world = result
  cases result <;> rfl

omit [SortKey K] in
theorem onSearch_bind {α β : Type} (m : SearchM K α) (f : α → SearchM K β) :
    onSearch (m >>= f) = onSearch m >>= fun a => onSearch (f a) := by
  funext s
  simp only [onSearch, bind, EStateM.bind]
  cases m s.search <;> rfl

/-- The pull phase ends so. -/
theorem mergeAndRepair_eq : (do
      let conflictsResolved ← mergeAndReconcile env (env.steps now)
      return (conflictsResolved, ← onSearch (repairHierarchyAfterPull env now))) = (do
      let conflictsResolved ← match ← gitPull env with
        | none => pure 0
        | some diverged => onSearch ((env.steps now).resolvePullConflicts diverged)
      return (conflictsResolved, ← onSearch (reconcileAndRepair env now))) := by
  simp only [mergeAndReconcile, reconcileAndRepair, onSearch_bind, bind_assoc, pure_bind]
  refine congrArg _ (funext fun diverged => ?_)
  cases diverged <;> simp only [bind_assoc, pure_bind]

end

/-! ## Trees of cards -/

/-- A tree without files of locations, resources, threads and messages. -/
def CardsOnly (work : Tree) : Prop :=
  ∀ base ∈ ["locations", "resources", "ai_threads", "ai_messages", "trash/ai_messages"],
    AgreeBelow base ∅ work

instance (work : Tree) : Decidable (CardsOnly work) :=
  decidable_of_iff (∀ base ∈ ["locations", "resources", "ai_threads", "ai_messages", "trash/ai_messages"],
    ∀ path ∈ work.keys, startsWith (base ++ "/") path.toList = false) <| by
      refine forall₂_congr fun base _ => forall_congr' fun path => ?_
      rw [Std.ExtTreeMap.mem_keys, Map.mem_iff]
      cases hpath : work[path]? <;> cases hbase : startsWith (base ++ "/") path.toList <;> simp

/-- The rows beside the cards after a rebuild of such a tree: those of other projects. -/
def rowsBeside (env : RebuildEnv K) (others : ServiceRows) : ServiceRows :=
  { others with
    threads := others.threads.filter fun _ projectId => projectId != env.project.projectId
    messages := ∅ }

section
variable {env : RebuildEnv K} {rows others : ServiceRows} {work : Tree}

theorem CardsOnly.collected (h : CardsOnly work) (hdir : ∀ paths, (env.directoryOrder paths).Perm paths)
    {base : String} (hbase : base ∈ ["locations", "resources", "ai_threads", "ai_messages",
      "trash/ai_messages"]) :
    collectManifests env.toEnv work base = [] ∧ collectFiles env.toEnv work base = [] := by
  rw [(h base hbase).collectManifests, (h base hbase).collectFiles]
  exact ⟨(hdir []).eq_nil, (hdir []).eq_nil⟩

theorem CardsOnly.rebuildTables [NatCast K] (h : CardsOnly work)
    (hdir : ∀ paths, (env.directoryOrder paths).Perm paths)
    (hothers : deleteResources env rows = .ok others) : rebuildTables env rows work =
      (projection env.toEnv work).map fun db => (rowsBeside env others, db) := by
  have hlocations : collectManifests env.toEnv work "locations" = [] := (h.collected hdir (by simp)).1
  have hbundles : collectManifests env.toEnv work "resources" = [] := (h.collected hdir (by simp)).1
  have hthreads : collectManifests env.toEnv work "ai_threads" = [] := (h.collected hdir (by simp)).1
  have hlive : collectFiles env.toEnv work "ai_messages" = [] := (h.collected hdir (by simp)).2
  have htrash : collectFiles env.toEnv work "trash/ai_messages" = [] := (h.collected hdir (by simp)).2
  have hresources : rebuildResources env rows work = .ok others := by
    simp [rebuildResources, hothers, rebuildLocations, hlocations, hbundles, rebuildBundles, bind,
      Except.bind, pure, Except.pure]
  have hmanifests : threadManifests env work = .ok [] := by
    rw [threadManifests, hthreads]
    rfl
  have hfiles : rebuildMessageFiles env.toEnv work = .ok [] := by
    simp [rebuildMessageFiles, hlive, htrash, bind, Except.bind, pure, Except.pure]
  unfold HolderCore.rebuildTables rebuildCardsAndMessages rebuildMessages
  rw [hresources, hmanifests, hfiles]
  cases projection env.toEnv work with
  | error e => rfl
  | ok db => rfl

/-- What a rebuild leaves beside the cards, it leaves again. -/
theorem deleteResources_rowsBeside (hothers : deleteResources env rows = .ok others) :
    deleteResources env (rowsBeside env others) = .ok (rowsBeside env others) ∧
      rowsBeside env (rowsBeside env others) = rowsBeside env others := by
  have hagain : ∀ {α : Type} (p : α → Bool) (m : Map String α),
      (m.filter fun _ a => p a).filter (fun _ a => p a) = m.filter fun _ a => p a := by
    intro α p m
    refine Map.ext fun id => Option.ext fun a => ?_
    simp only [Map.get_filter, Option.filter_eq_some_iff]
    tauto
  have hother : ∀ m : Map String Location, (m.filter fun _ l => l.projectId != env.project.projectId).filter
      (fun _ l => l.projectId == env.project.projectId) = ∅ := by
    intro m
    refine Map.ext fun id => Option.ext fun l => ?_
    simp only [Map.get_filter, Option.filter_eq_some_iff]
    simp
  unfold deleteResources at hothers
  dsimp only at hothers
  split at hothers
  · cases hothers
  · cases hothers
    simp only [deleteResources, rowsBeside, hother, hagain]
    simp

theorem CardsOnly.congr {work' : Tree} (h : CardsOnly work) (hbeside : ∀ path : String,
    (∀ isTrash id, path ≠ cardPathOf isTrash id) → work'[path]? = work[path]?) : CardsOnly work' := by
  intro base hbase path hpath
  rw [hbeside path, h base hbase path hpath]
  rintro isTrash id rfl
  revert hpath
  simp only [List.mem_cons, List.not_mem_nil, or_false] at hbase
  obtain rfl | rfl | rfl | rfl | rfl := hbase <;> cases isTrash <;>
    simp [cardPathOf, livePath, trashPath, startsWith]

end

section
open CardStore
variable [SortKey K] {env : Env K} {w : World K}

omit [SortKey K] in
/-- A change of cards leaves what is at no card's path. -/
theorem Committed.beside {w' : World K} {changes : List (CardChange K)}
    (h : Committed env w changes w') {path : String} (hpath : ∀ isTrash id, path ≠ cardPathOf isTrash id) :
    w'.repo.work[path]? = w.repo.work[path]? := by
  obtain ⟨m, happlied, hintends, -⟩ := h.intends
  rw [happlied.landed.work, hintends.other path fun change _ => ⟨?_, ?_⟩]
  · rfl
  · exact cardPathOf_filePath change.target.card ▸ hpath _ _
  · exact cardPathOf_filePath change.current ▸ hpath _ _

theorem CardStore.repairHierarchyLocked_beside (hw : Tidy env w) (projectId : String) (updatedAt : Int) :
    Ends (repairHierarchyLocked env projectId updatedAt) w (fun _ w' => ∀ path : String,
      (∀ isTrash id, path ≠ cardPathOf isTrash id) → w'.repo.work[path]? = w.repo.work[path]?)
      fun _ _ => True := by
  unfold repairHierarchyLocked
  refine (requireProject_ends hw.journal _).bind ?_ fun _ _ _ => trivial
  rintro - w1 ⟨rfl, -⟩
  simp only [Ends.bind_iff, Ends.get_iff, Ends.fromExcept_iff, Ends.ite_iff, Ends.pure_iff]
  refine ⟨fun plan hplan => ⟨fun _ _ _ => trivial, fun _ => ?_⟩, fun _ _ => trivial⟩
  obtain ⟨hnodup, -⟩ := planHierarchyRepair_all (P := fun _ => True) (fun _ _ _ _ h => h)
    (fun _ _ => trivial) hplan
  refine (mapM_placementChange_ends _ w1).mono ?_ fun _ _ _ => trivial
  rintro changes w2 ⟨rfl, hchanges⟩
  have hids : CardChanges changes := by
    intro change hc
    obtain ⟨placed, -, hp⟩ := hchanges.exists_left hc
    rw [hp.card, hp.current]
  refine (applyCardChanges_ends hids hw.valid).mono ?_ fun _ _ _ => trivial
  rintro - w3 ⟨m, hplanned, happlied, hj⟩ path hpath
  have hcommitted : Committed env w2 changes w3 :=
    ⟨hids, by rw [PlacementOf.ids hchanges]; exact hnodup, ⟨_, m, hplanned, happlied⟩, hj⟩
  exact hcommitted.beside hpath

omit [SortKey K] in
/-- A change that was taken back leaves a steady project steady. -/
theorem Restored.steady {w' : World K} (h : Restored w w') (hw : Steady env w) : Steady env w' := by
  have hcards : w'.db.cards = w.db.cards := by rw [h.db]
  refine ⟨hw.tidy.of_atCards ⟨hcards, h.journal.trans hw.tidy.journal, h.valid hw.tidy.valid⟩, ?_,
    hw.mirrored.congr h.work h.db⟩
  rw [h.db]
  exact hw.noCycle

/-- The repair moved what it planned and no live card is hidden, or it threw and everything is as it
was. -/
def RepairEnds (env : Env K) (now : Int) (w w' : World K) : Prop :=
  (∃ result, repairHierarchyLocked env env.project.projectId now w = .ok result w' ∧
    AllRooted (liveUp w'.db env.project.projectId)) ∨
  ∃ e, repairHierarchyLocked env env.project.projectId now w = .error e w' ∧ Restored w w'

/-- The repair behind a pull never throws. -/
theorem CardStore.repairHierarchyAfterPull_ends (henv : env.Lawful) (hw : Steady env w) (now : Int) :
    Ends (repairHierarchyAfterPull now env) w (fun _ w' => Steady env w' ∧ RepairEnds env now w w' ∧
      ∀ path : String, (∀ isTrash id, path ≠ cardPathOf isTrash id) →
        w'.repo.work[path]? = w.repo.work[path]?) fun _ _ => False := by
  have hmir := repairHierarchyLocked_mirrored henv hw.tidy hw.mirrored env.project.projectId now
  have hrooted := CardStore.repairHierarchyLocked_rooted hw.tidy hw.noCycle now
  have hbeside := CardStore.repairHierarchyLocked_beside hw.tidy env.project.projectId now
  unfold CardStore.repairHierarchyAfterPull
  simp only [Ends.tryCatch_iff, Ends.bind_iff, Ends.pure_iff]
  refine .intro (fun result w' hrun => ?_) fun e w' hrun => ?_
  · obtain ⟨htidy, hcycle, hlive⟩ := hrooted.ok hrun
    have hsteady : Steady env w' := ⟨htidy, hcycle, hmir.ok hrun⟩
    cases result <;> exact ⟨hsteady, .inl ⟨_, hrun, hlive⟩, hbeside.ok hrun⟩
  · have hback := hmir.error hrun
    exact ⟨hback.steady hw, .inr ⟨e, hrun, hback⟩, fun path _ => by rw [hback.work]⟩

end

section
open CardStore
variable [SortKey K] {env : PullEnv K} {s : SearchState K} {others : ServiceRows}
  {rec : String → Option (CardRecord K)}

/-- The repair of the pull phase changes cards and their files only. -/
theorem repairHierarchyAfterPull_ends (henv : env.toEnv.Lawful) (hw : Steady env.toEnv s.services.world)
    (now : Int) : ∃ moved w', HolderCore.repairHierarchyAfterPull env now s = .ok moved (s.withWorld w') ∧
      Steady env.toEnv w' ∧ RepairEnds env.toEnv now s.services.world w' ∧
      ∀ path : String, (∀ isTrash id, path ≠ cardPathOf isTrash id) →
        w'.repo.work[path]? = s.services.world.repo.work[path]? := by
  obtain ⟨moved, w', hrun, hends⟩ := (CardStore.repairHierarchyAfterPull_ends henv hw now).returns
  refine ⟨moved, w', ?_, hends⟩
  rw [repairHierarchyAfterPull_eq]
  unfold onStore onWorld
  rw [hrun]
  rfl

/-- The repair that only one of two callers makes does nothing exactly where every live card has a live
way to the roots, or where it throws. -/
theorem repairIdle_iff (henv : env.toEnv.Lawful) (hw : Steady env.toEnv s.services.world) (now : Int) :
    RepairIdle env now s ↔ AllRooted (liveUp s.services.world.db env.project.projectId) ∨
      ∃ e w', repairHierarchyLocked env.toEnv env.project.projectId now s.services.world = .error e w' := by
  obtain ⟨moved, w', hrun, -, hend, -⟩ := HolderCore.repairHierarchyAfterPull_ends henv hw now
  constructor
  · intro hidle
    obtain ⟨hdb, -⟩ := hidle moved _ hrun
    obtain ⟨result, -, hrooted⟩ | ⟨e, hthrows, -⟩ := hend
    · left
      rwa [show w'.db = s.services.world.db from hdb] at hrooted
    · exact .inr ⟨e, w', hthrows⟩
  · rintro (hrooted | ⟨e, w1, hthrows⟩)
    · exact repairIdle_of_rooted hw.tidy.journal hw.tidy.keyed hrooted
    · obtain ⟨result, hreturns, -⟩ | ⟨e, -, hback⟩ := hend
      · rw [hreturns] at hthrows
        cases hthrows
      · intro moved' s' hrun'
        rw [hrun] at hrun'
        cases hrun'
        exact ⟨hback.db, fun _ _ _ => by rw [← hback.work]; rfl⟩

/-- A rebuild of card files alone. -/
theorem CardsOnly.rebuild_ends (h : CardsOnly s.services.world.repo.work) (henv : env.toEnv.Lawful)
    (hj : s.services.world.journal = none) (hothers : deleteResources env.toRebuildEnv s.services.rows = .ok others) :
    Ends (SearchState.rebuild env.toRebuildEnv) s
      (fun _ s' => ∃ db, projection env.toEnv s.services.world.repo.work = .ok db ∧
        s'.services.world = { s.services.world with db } ∧
        s'.services.rows = rowsBeside env.toRebuildEnv others)
      fun e s' => projection env.toEnv s.services.world.repo.work = .error e ∧ s' = s := by
  have hsteps : runSteps env.toEnv (recoverySteps s.services.world) s.services.world =
      .ok s.services.world := by simp [recoverySteps, hj, runSteps]
  unfold Ends SearchState.rebuild
  rw [hsteps]
  dsimp only
  rw [h.rebuildTables henv.directory hothers]
  cases projection env.toEnv s.services.world.repo.work with
  | error e => exact ⟨rfl, rfl⟩
  | ok db =>
    refine ⟨db, rfl, ?_, rfl⟩
    dsimp only
    rw [← hj]

/-- On files that stores wrote. -/
theorem Written.rebuild_ends (h : Written env.toEnv s.services.world.repo.work rec)
    (hcards : CardsOnly s.services.world.repo.work) (henv : env.toEnv.Lawful)
    (hj : s.services.world.journal = none) (hv : s.services.world.repo.Valid)
    (hothers : deleteResources env.toRebuildEnv s.services.rows = .ok others) :
    Ends (SearchState.rebuild env.toRebuildEnv) s
      (fun _ s' => Joinable rec ∧ Steady env.toEnv s'.services.world ∧
        s'.services.world.repo = s.services.world.repo ∧
        s'.services.rows = rowsBeside env.toRebuildEnv others)
      fun _ s' => ¬ Joinable rec ∧ s' = s := by
  obtain ⟨time, hiff, hrows⟩ := h.projection_iff henv
  refine (hcards.rebuild_ends henv hj hothers).mono ?_ ?_
  · rintro - s' ⟨db, hproj, hworld, hrest⟩
    have hjoin := hiff.mp ⟨db, hproj⟩
    rw [hworld]
    have hmir : Mirrored env.toEnv { s.services.world with db } :=
      h.mirrored (w := { s.services.world with db }) (hrows db hproj)
    refine ⟨hjoin, ⟨⟨hj, hv, hmir.keyed, fun id c hc => ?_⟩, ?_, hmir⟩, rfl, hrest⟩
    · obtain ⟨-, links, milestones, body, hr⟩ := hmir.at hc
      exact hr.kept.project
    · change AllRooted db.forest.up
      rw [(hrows db hproj).up]
      exact hjoin.rooted
  · rintro e s' ⟨hproj, rfl⟩
    refine ⟨?_, rfl⟩
    rw [← hiff]
    rintro ⟨db, hdb⟩
    rw [hproj] at hdb
    cases hdb

/-- A steady project of cards alone is what a rebuild makes of it. -/
theorem Steady.rebuildKeeps (hw : Steady env.toEnv s.services.world) (henv : env.toEnv.Lawful)
    (hcards : CardsOnly s.services.world.repo.work)
    (hothers : deleteResources env.toRebuildEnv s.services.rows = .ok others)
    (hrows : rowsBeside env.toRebuildEnv others = s.services.rows) : RebuildKeeps env.toRebuildEnv s := by
  obtain ⟨db, hproj, hsame⟩ := hw.mirrored.inSync henv hw.noCycle
  refine (rebuildKeeps_iff hw.tidy.journal).mpr ⟨db, ?_, hsame⟩
  rw [hcards.rebuildTables henv.directory hothers, hproj, hrows]
  rfl

/-- The end of a pull that left cards alone, in files which stores wrote. It succeeds exactly when every
parent is there, up to a root, and no two live cards state one milestone, whatever the rows of the
project were; then a rebuild makes the rows that are there, and no live card is hidden unless the repair
threw and changed nothing. Where it throws, nothing changed. -/
theorem reconcileAndRepair_ends (henv : env.toEnv.Lawful) (hj : s.services.world.journal = none)
    (hv : s.services.world.repo.Valid) (h : Written env.toEnv s.services.world.repo.work rec)
    (hcards : CardsOnly s.services.world.repo.work)
    (hothers : deleteResources env.toRebuildEnv s.services.rows = .ok others) (now : Int) :
    Ends (reconcileAndRepair env now) s
      (fun _ s' => Joinable rec ∧ Steady env.toEnv s'.services.world ∧
        s'.services.rows = rowsBeside env.toRebuildEnv others ∧ RebuildKeeps env.toRebuildEnv s' ∧
        ∃ s1, SearchState.rebuild env.toRebuildEnv s = .ok () s1 ∧
          RepairEnds env.toEnv now s1.services.world s'.services.world)
      fun _ s' => ¬ Joinable rec ∧ s' = s := by
  obtain ⟨hagain, hbeside⟩ := deleteResources_rowsBeside hothers
  unfold reconcileAndRepair
  rw [Ends.bind_iff]
  have hrebuild := h.rebuild_ends hcards henv hj hv hothers
  refine .intro (fun _ s1 hrun => ?_) fun _ s1 hrun => hrebuild.error hrun
  obtain ⟨hjoin, hsteady, hrepo, hrows⟩ := hrebuild.ok hrun
  obtain ⟨moved, w', hstep, hsteady', hend, hleft⟩ :=
    HolderCore.repairHierarchyAfterPull_ends henv hsteady now
  unfold Ends
  rw [hstep]
  rw [← hrows] at hagain hbeside
  rw [← hrepo] at hcards
  exact ⟨hjoin, hsteady', hrows, hsteady'.rebuildKeeps henv (hcards.congr hleft) hagain hbeside, s1,
    hrun, hend⟩

end

/-! ## Devices that pull -/

/-- What happens to a project on a device: an edit of its client, or a pull that brings in a
repository. -/
inductive DeviceStep (K : Type) where
  | edit (e : Edit K)
  | pull (repo : Repo) (now : Int)

section
variable [SortKey K] (env : PullEnv K)

/-- The state a step leaves when it returns. -/
def DeviceStep.run (s : SearchState K) : DeviceStep K → Option (SearchState K)
  | edit e =>
    match e.run env.toEnv s.services.world with
    | .ok _ world => some (s.withWorld world)
    | .error _ _ => none
  | pull repo now =>
    match reconcileAndRepair env now (s.withWorld { s.services.world with repo }) with
    | .ok _ s' => some s'
    | .error _ _ => none

/-- The edit is clean, or what is pulled is files of cards that stores wrote. -/
def DeviceStep.Clean (s : SearchState K) : DeviceStep K → Prop
  | edit e => e.Clean env.toEnv s.services.world
  | pull repo _ => repo.Valid ∧ CardsOnly repo.work ∧ ∃ rec, Written env.toEnv repo.work rec

/-- The state after steps that all return. -/
def runDevice (s : SearchState K) (steps : List (DeviceStep K)) : Option (SearchState K) :=
  steps.foldlM (DeviceStep.run env) s

/-- Every step of a run is clean in the state it is made in. -/
def EachStep : SearchState K → List (DeviceStep K) → Prop
  | _, [] => True
  | s, step :: steps => step.Clean env s ∧ ∀ s', step.run env s = some s' → EachStep s' steps

/-- The cards are at rest and mirrored, and the rows beside them are those of other projects. -/
structure Pulled (s : SearchState K) : Prop where
  steady : Steady env.toEnv s.services.world
  rows : ∃ others, deleteResources env.toRebuildEnv s.services.rows = .ok others ∧
    rowsBeside env.toRebuildEnv others = s.services.rows

end

section
variable [SortKey K] {env : PullEnv K} {s s' : SearchState K}

/-- A pull that returns leaves a steady project, whatever its rows were. -/
theorem pull_pulled (henv : env.toEnv.Lawful) (hj : s.services.world.journal = none)
    (hothers : ∃ others, deleteResources env.toRebuildEnv s.services.rows = .ok others)
    {repo : Repo} {now : Int} (hclean : (DeviceStep.pull repo now).Clean env s)
    (hrun : (DeviceStep.pull repo now).run env s = some s') : Pulled env s' := by
  obtain ⟨hv, hcards, rec, hwritten⟩ := hclean
  obtain ⟨others, hothers⟩ := hothers
  have hends := reconcileAndRepair_ends henv (s := s.withWorld { s.services.world with repo }) hj hv
    hwritten hcards hothers now
  unfold DeviceStep.run at hrun
  dsimp only at hrun
  split at hrun
  · next hok =>
    cases hrun
    obtain ⟨-, hsteady, hrows, -⟩ := hends.ok hok
    obtain ⟨hagain, hbeside⟩ := deleteResources_rowsBeside hothers
    exact ⟨hsteady, _, hrows ▸ hagain, hrows ▸ hbeside⟩
  · cases hrun

theorem DeviceStep.run_pulled (henv : env.toEnv.Lawful) (h : Pulled env s) {step : DeviceStep K}
    (hclean : step.Clean env s) (hrun : step.run env s = some s') : Pulled env s' := by
  cases step with
  | pull repo now =>
    obtain ⟨others, hothers, -⟩ := h.rows
    exact pull_pulled henv h.steady.tidy.journal ⟨others, hothers⟩ hclean hrun
  | edit e =>
    unfold DeviceStep.run at hrun
    dsimp only at hrun
    split at hrun
    · next hok =>
      cases hrun
      exact ⟨(Edit.run_steady henv h.steady hclean).ok hok, h.rows⟩
    · cases hrun

theorem runDevice_pulled (henv : env.toEnv.Lawful) {steps : List (DeviceStep K)} (h : Pulled env s)
    (hclean : EachStep env s steps) (hrun : runDevice env s steps = some s') : Pulled env s' := by
  induction steps generalizing s with
  | nil =>
    cases hrun
    exact h
  | cons step steps ih =>
    unfold runDevice at hrun
    rw [List.foldlM_cons, Option.bind_eq_bind, Option.bind_eq_some_iff] at hrun
    obtain ⟨s1, hone, hrest⟩ := hrun
    exact ih (step.run_pulled henv h hclean.1 hone) (hclean.2 s1 hone) hrest

/-- From a pull on, whatever rows of the project the device had before it: after any edits and pulls that
return, a rebuild of the tree, where it still holds cards alone, makes the rows that are there. -/
theorem pulledDevice_inSync (henv : env.toEnv.Lawful) (hj : s.services.world.journal = none)
    (hothers : ∃ others, deleteResources env.toRebuildEnv s.services.rows = .ok others)
    {repo : Repo} {now : Int} {steps : List (DeviceStep K)}
    (hclean : EachStep env s (.pull repo now :: steps))
    (hrun : runDevice env s (.pull repo now :: steps) = some s')
    (hcards : CardsOnly s'.services.world.repo.work) : RebuildKeeps env.toRebuildEnv s' := by
  unfold runDevice at hrun
  rw [List.foldlM_cons, Option.bind_eq_bind, Option.bind_eq_some_iff] at hrun
  obtain ⟨s1, hpull, hrest⟩ := hrun
  have h := runDevice_pulled henv (pull_pulled henv hj hothers hclean.1 hpull) (hclean.2 s1 hpull) hrest
  obtain ⟨others, hdelete, hrows⟩ := h.rows
  exact h.steady.rebuildKeeps henv hcards hdelete hrows

end

/-- A remote behind a project of plain files. -/
def plainPullEnv : PullEnv ℚ := { strangerEnv with toRebuildEnv := plainRebuildEnv }

/-- A card and one under it. -/
def sharedEdits : List (Edit ℚ) :=
  [.call (.create (plainCard idA "a" none 1) "x" none),
    .call (.create (plainCard idB "b" (some idA) 2) "" none)]

/-- A clone of a project, before its rows were built. -/
def freshClone : World ℚ :=
  { (World.empty : World ℚ) with
    repo := ((runEdits (plainEnv fun _ => []) World.empty sharedEdits).getD World.empty).repo }

/-- The clone has the repository of a project that its store wrote. -/
theorem freshClone_eq : ∃ w, Steady (plainEnv fun _ => []) w ∧
    freshClone = { (World.empty : World ℚ) with repo := w.repo } := by
  have hclean : EachEdit (plainEnv fun _ => []) World.empty sharedEdits :=
    ⟨⟨⟨by decide, by decide, by decide, rfl⟩, trivial⟩, fun _ _ =>
      ⟨⟨⟨by decide, by decide, by decide, rfl⟩, trivial⟩, fun _ _ => trivial⟩⟩
  obtain ⟨w, hrun⟩ := Option.isSome_iff_exists.mp (by decide +kernel :
    (runEdits (plainEnv fun _ => []) World.empty sharedEdits).isSome = true)
  refine ⟨w, runEdits_steady (plainEnv_lawful _) (.empty _) hclean hrun, ?_⟩
  rw [freshClone, hrun, Option.getD_some]

theorem freshClone_returns : CardsOnly freshClone.repo.work ∧ ∃ moved s',
    reconcileAndRepair plainPullEnv 9 (onlyCards freshClone) = .ok moved s' :=
  ⟨by decide +kernel, Ends.exists_ok (by decide +kernel)⟩

/-- The pull that made the clone ends with the rows of its files. -/
theorem freshClone_reconciled : ∃ moved s',
    reconcileAndRepair plainPullEnv 9 (onlyCards freshClone) = .ok moved s' ∧
      RebuildKeeps plainRebuildEnv s' := by
  obtain ⟨honly, moved, s', hok⟩ := freshClone_returns
  obtain ⟨w, hw, hclone⟩ := freshClone_eq
  obtain ⟨rec, hwritten, -⟩ := hw.mirrored.written
  have henv : plainPullEnv.toEnv.Lawful := plainEnv_lawful _
  rw [hclone] at hok honly ⊢
  obtain ⟨-, -, -, hkeeps, -⟩ := (reconcileAndRepair_ends henv
    (s := onlyCards { (World.empty : World ℚ) with repo := w.repo }) rfl hw.tidy.valid hwritten honly
    rfl 9).ok hok
  exact ⟨moved, s', hok, hkeeps⟩

/-- The same clone with a row that no file stands for. -/
def staleClone : SearchState ℚ := onlyCards { freshClone with db := { (Db.empty : Db ℚ) with
  cards := (∅ : Map String (Card ℚ)).insert idB (plainCard idB "stale" none 1) } }

/-- A device with stale rows pulls the project, edits it and pulls again. -/
theorem staleClone_inSync : ∃ s', runDevice plainPullEnv staleClone
      [.pull freshClone.repo 9, .edit (.call (.trash idB 10 .promote)), .pull freshClone.repo 11] =
        some s' ∧ RebuildKeeps plainRebuildEnv s' := by
  have hany : CardsOnly freshClone.repo.work ∧ (runDevice plainPullEnv staleClone [.pull freshClone.repo 9,
      .edit (.call (.trash idB 10 .promote)), .pull freshClone.repo 11]).any
        (fun s' => CardsOnly s'.services.world.repo.work) = true := by decide +kernel
  obtain ⟨honly, hreturns⟩ := hany
  obtain ⟨s', hrun, hcards⟩ := (Option.any_eq_true _ _).mp hreturns
  obtain ⟨w, hw, hclone⟩ := freshClone_eq
  obtain ⟨rec, hwritten, -⟩ := hw.mirrored.written
  have hj : staleClone.services.world.journal = none := rfl
  have hothers : ∃ others, deleteResources plainPullEnv.toRebuildEnv staleClone.services.rows = .ok others :=
    ⟨_, rfl⟩
  rw [hclone] at hrun honly ⊢
  have hpull := And.intro hw.tidy.valid (And.intro honly (Exists.intro rec hwritten))
  refine ⟨s', hrun, pulledDevice_inSync (plainEnv_lawful _) hj hothers ⟨hpull, fun _ _ => ?_⟩ hrun
    (of_decide_eq_true hcards)⟩
  exact ⟨⟨trivial, trivial⟩, fun _ _ => ⟨hpull, fun _ _ => trivial⟩⟩

end HolderCore
