import HolderCore.Platform.AllOrNothing
import HolderCore.Platform.LostFiles

/-! # Quarantined cards

A managed data directory whose database is the projection of its files, of which some card files are
then gone. The database is rebuilt, with the other cards in it, exactly when no card that is left has
lost its parent and no card that is gone has links or a thread whose manifest names it. -/

namespace HolderCore

section
variable {K O : Type} [NatCast K]

/-- The files of a root. -/
def workAt (roots : Map String ProjectRoot) (rootPath : String) : Tree :=
  (roots[rootPath]?.map (·.repo.work)).getD ∅

/-- Some card files of the roots are gone; no card change is left to settle. -/
structure LostRoots (roots roots' : Map String ProjectRoot) : Prop where
  root : ∀ (rootPath : String) (root : ProjectRoot), roots[rootPath]? = some root →
    root.journal = none ∧ ∃ root', roots'[rootPath]? = some root' ∧ root'.journal = none ∧
      LostFiles root.repo.work root'.repo.work
  none : ∀ rootPath : String, roots[rootPath]? = none → roots'[rootPath]? = none

/-- What the other parts of the rebuild read is not a card file, and nothing fails. -/
structure CardBlind (sys : RebuildSystem K O) : Prop where
  manifest : ∀ work work', LostFiles work work' →
    sys.readProjectManifest work' = sys.readProjectManifest work
  auditOther : ∀ rows other roots roots', LostRoots roots roots' →
    sys.auditOther rows other roots' = sys.auditOther rows other roots
  threadCards : ∀ project work work', LostFiles work work' →
    sys.threadCards project work' = sys.threadCards project work
  rebuildOther : ∀ project work work' other, LostFiles work work' →
    sys.rebuildOther project work' other = sys.rebuildOther project work other
  validate : ∀ db version, sys.validateDatabase db version = .ok ()
  steady : ∀ point, sys.fails point = false
  directory : ∀ paths, (sys.env.directoryOrder paths).Perm paths

omit [NatCast K] in
theorem CardBlind.order {sys : RebuildSystem K O} (h : CardBlind sys) (project : Project)
    (paths : List String) : (({ sys.env with project } : Env K).directoryOrder paths).Perm paths :=
  h.directory paths

/-- A request without callbacks. -/
def noHooks : DatabaseRebuildHooks K O := ⟨fun _ => .ok (), .ok, .ok, fun _ => .ok ()⟩

/-- A disk whose database is the projection of its files and that can be rebuilt. -/
structure UpToDate (sys : RebuildSystem K O) (request : DatabaseRebuildRequest K O) (disk : Disk K O)
    (db : Database K O) : Prop where
  database : disk.database = .healthy db
  stale : disk.stale = false
  check : checkRequest sys request disk = .ok ()
  metaFiles : requireMetadata db disk.roots = .ok ()
  other : sys.auditOther (db.projects.map fun _ p => p.1) db.other disk.roots = .ok ()
  projection : ∃ counts, buildRebuilt sys request none disk.roots = .ok (db, counts) disk.roots
  journals : ∀ (rootPath : String) (root : ProjectRoot), disk.roots[rootPath]? = some root →
    root.journal = none

/-- The database of the cards that are left. -/
def keepDatabase (roots : Map String ProjectRoot) (db : Database K O) : Database K O :=
  { db with projects := db.projects.map fun _ p =>
      (p.1, keepRows (hasFile (workAt roots p.1.rootPath)) p.2) }

variable {sys : RebuildSystem K O} {request : DatabaseRebuildRequest K O} {disk : Disk K O}
  {roots roots' : Map String ProjectRoot} {db db' : Database K O} {rootPath : String}
  {root : ProjectRoot}

/-! ## One root without a journal -/

/-- What `recover_project_roots` does with the files of a root. -/
def recoverFiles (sys : RebuildSystem K O) (db : Database K O) (rootPath : String) (work : Tree) :
    Except Exn (Database K O) := do
  let project ← sys.readProjectManifest work
  if let some (row, _) := db.projects[project.projectId]? then
    if row.rootPath != rootPath then
      throw (.runtimeError
        ("duplicate project_id discovered at different roots: " ++ project.projectId))
    return db
  let rows ← projection { sys.env with project } work
  if !idsFree db.projects rows then
    throw (.runtimeError "insert card failed: UNIQUE constraint failed: cards.card_id")
  let projects := db.projects.insert project.projectId (⟨project, rootPath⟩, rows)
  if !(sys.threadCards project work).all (hasCard projects) then
    throw (.runtimeError "insert ai thread failed: FOREIGN KEY constraint failed")
  let other ← sys.rebuildOther project work db.other
  return { projects, other }

theorem recoverProjectRoot_settled (hroot : roots[rootPath]? = some root)
    (hjournal : root.journal = none) : recoverProjectRoot sys db rootPath roots =
      fromExcept (recoverFiles sys db rootPath root.repo.work) roots := by
  obtain ⟨repo, journal⟩ := root
  cases hjournal
  have hsame : roots.insert rootPath ⟨repo, none⟩ = roots := Map.insert_of_get hroot
  have hrec : recoverySteps (⟨Db.empty, repo, none, 0⟩ : World K) = [] := rfl
  unfold recoverProjectRoot recoverFiles
  cases hm : sys.readProjectManifest repo.work with
  | error e =>
    simp [bind, EStateM.bind, Except.bind, get, getThe, MonadStateOf.get, EStateM.get, hroot,
      fromExcept, hm, throw, throwThe, MonadExceptOf.throw, EStateM.throw]
  | ok project =>
    simp only [bind, EStateM.bind, Except.bind, get, getThe, MonadStateOf.get, EStateM.get, hroot,
      fromExcept, hm, pure, EStateM.pure]
    cases hp : db.projects[project.projectId]? with
    | some p =>
      obtain ⟨row, rows⟩ := p
      by_cases hr : row.rootPath = rootPath <;>
        simp [hr, EStateM.bind, EStateM.pure, Except.pure, throw, throwThe,
          MonadExceptOf.throw, EStateM.throw]
    | none =>
      simp only [hrec, runSteps, modify, modifyGet, MonadStateOf.modifyGet, throw, throwThe,
        MonadExceptOf.throw]
      cases hrows : projection { sys.env with project } repo.work with
      | error e => simp [EStateM.bind, EStateM.modifyGet, EStateM.throw, hsame]
      | ok rows =>
        cases hfree : idsFree db.projects rows with
        | false => simp [EStateM.bind, EStateM.modifyGet, EStateM.throw, EStateM.pure, hfree, hsame]
        | true =>
          cases hthreads : (sys.threadCards project repo.work).all
              (hasCard (db.projects.insert project.projectId (⟨project, rootPath⟩, rows))) with
          | false =>
            simp only [EStateM.bind, EStateM.modifyGet, EStateM.throw, EStateM.pure, hfree, hsame,
              hthreads, Bool.not_true, Bool.not_false, Bool.false_eq_true, if_false, if_true]
          | true =>
            simp only [EStateM.bind, EStateM.modifyGet, EStateM.pure, hfree, hsame, hthreads,
              Bool.not_true, Bool.false_eq_true, if_false]
            cases hother : sys.rebuildOther project repo.work db.other with
            | error e => simp [EStateM.throw]
            | ok other => simp only [Except.pure, EStateM.pure, hsame]

/-- The rows that a root adds, unless its project is there already. -/
theorem recoverFiles_iff {work : Tree} : recoverFiles sys db rootPath work = .ok db' ↔
    ∃ project, sys.readProjectManifest work = .ok project ∧
      ((∃ p, db.projects[project.projectId]? = some p ∧ p.1.rootPath = rootPath ∧ db' = db) ∨
        (db.projects[project.projectId]? = none ∧ ∃ rows other,
          projection { sys.env with project } work = .ok rows ∧ idsFree db.projects rows = true ∧
          ((sys.threadCards project work).all (hasCard
            (db.projects.insert project.projectId (⟨project, rootPath⟩, rows)))) = true ∧
          sys.rebuildOther project work db.other = .ok other ∧ db' =
            { projects := db.projects.insert project.projectId (⟨project, rootPath⟩, rows), other })) := by
  unfold recoverFiles
  cases hm : sys.readProjectManifest work with
  | error e => simp [bind, Except.bind]
  | ok project =>
    simp only [bind, Except.bind, Except.ok.injEq, exists_eq_left']
    cases hp : db.projects[project.projectId]? with
    | some p =>
      obtain ⟨row, rows⟩ := p
      by_cases hr : row.rootPath = rootPath
      · simp [hr, pure, Except.pure, @eq_comm _ db']
      · simp [hr, throw, throwThe, MonadExceptOf.throw]
    | none =>
      cases hrows : projection { sys.env with project } work with
      | error e => simp
      | ok rows =>
        cases hfree : idsFree db.projects rows with
        | false => simp [hfree, throw, throwThe, MonadExceptOf.throw]
        | true =>
          simp only [Except.ok.injEq, exists_and_left, exists_eq_left', hfree, true_and, reduceCtorEq,
            false_and, exists_false, false_or]
          cases hthreads : (sys.threadCards project work).all
              (hasCard (db.projects.insert project.projectId (⟨project, rootPath⟩, rows))) with
          | false =>
            simp only [Bool.not_true, Bool.not_false, Bool.false_eq_true, if_false, if_true, false_and]
            simp [throw, throwThe, MonadExceptOf.throw]
          | true =>
            simp only [Bool.not_true, Bool.false_eq_true, if_false, true_and]
            cases hother : sys.rebuildOther project work db.other with
            | error e => simp
            | ok other => simp [pure, Except.pure, @eq_comm _ db']

/-! ## The cards that are left -/

omit [NatCast K] in
theorem keepDatabase_get (roots : Map String ProjectRoot) (db : Database K O) (projectId : String) :
    (keepDatabase roots db).projects[projectId]? = (db.projects[projectId]?).map fun p =>
      (p.1, keepRows (hasFile (workAt roots p.1.rootPath)) p.2) := by
  simp [keepDatabase]

omit [NatCast K] in
theorem keepDatabase_insert (roots : Map String ProjectRoot) (db : Database K O) (projectId : String)
    (row : ProjectRow) (rows : Db K) (other : O) :
    keepDatabase roots { projects := db.projects.insert projectId (row, rows), other } =
      { projects := (keepDatabase roots db).projects.insert projectId
          (row, keepRows (hasFile (workAt roots row.rootPath)) rows), other } := by
  have hprojects : (keepDatabase roots
      { projects := db.projects.insert projectId (row, rows), other }).projects =
        (keepDatabase roots db).projects.insert projectId
          (row, keepRows (hasFile (workAt roots row.rootPath)) rows) := by
    refine Map.ext fun id => ?_
    rw [keepDatabase_get, Map.get_insert, Map.get_insert, keepDatabase_get]
    split <;> rfl
  exact congrArg (fun projects => ({ projects, other } : Database K O)) hprojects

omit [NatCast K] in
theorem idsFree_iff {projects : Map String (ProjectRow × Db K)} {rows : Db K} :
    idsFree projects rows = true ↔ ∀ (projectId : String) (p : ProjectRow × Db K),
      projects[projectId]? = some p →
        (∀ id : String, id ∈ p.2.cards → id ∉ rows.cards) ∧
          ∀ id : String, id ∈ p.2.milestones → id ∉ rows.milestones := by
  simp only [idsFree, List.all_eq_true, Map.mem_rows, forall_exists_index, Bool.and_eq_true,
    Std.ExtTreeMap.mem_keys, Bool.not_eq_true', ← Bool.not_eq_true, Std.ExtTreeMap.contains_iff_mem]
  constructor
  · exact fun h projectId p hp => h p projectId hp
  · exact fun h p projectId hp => h projectId p hp

omit [NatCast K] in
theorem idsFree_keep {projects : Map String (ProjectRow × Db K)} {rows : Db K}
    (h : idsFree projects rows = true) (keep : String → Bool) (db : Database K O)
    (hdb : db.projects = projects) : idsFree (keepDatabase roots db).projects (keepRows keep rows) = true := by
  subst hdb
  rw [idsFree_iff] at h ⊢
  intro projectId p hp
  rw [keepDatabase_get, Option.map_eq_some_iff] at hp
  obtain ⟨q, hq, rfl⟩ := hp
  have hfree := h projectId q hq
  refine ⟨fun id hid hid' => hfree.1 id ?_ ?_, fun id hid hid' => hfree.2 id ?_ ?_⟩
  all_goals
    simp only [keepRows, Map.mem_iff, Map.get_filter, Option.filter_eq_some_iff] at hid hid' ⊢
  · exact hid.imp fun _ h => h.1
  · exact hid'.imp fun _ h => h.1
  · exact hid.imp fun _ h => h.1
  · exact hid'.imp fun _ h => h.1

/-- No card that is left has lost its parent, in any project. -/
def AllParentsLeft (roots : Map String ProjectRoot) (db : Database K O) : Prop :=
  ∀ (projectId : String) (p : ProjectRow × Db K), db.projects[projectId]? = some p →
    ParentsLeft (workAt roots p.1.rootPath) p.2

/-- A database with more projects. -/
def Grows (db db' : Database K O) : Prop :=
  ∀ (projectId : String) (p : ProjectRow × Db K), db.projects[projectId]? = some p →
    db'.projects[projectId]? = some p

omit [NatCast K] in
theorem AllParentsLeft.of_grows (h : AllParentsLeft roots db') (hgrows : Grows db db') :
    AllParentsLeft roots db := fun projectId p hp => h projectId p (hgrows projectId p hp)

theorem recoverFiles_grows {work : Tree} (h : recoverFiles sys db rootPath work = .ok db') :
    Grows db db' := by
  obtain ⟨project, -, ⟨p, -, -, rfl⟩ | ⟨hnone, rows, other, -, -, -, -, rfl⟩⟩ := recoverFiles_iff.mp h
  · exact fun _ _ hp => hp
  · intro projectId p hp
    rw [Map.get_insert_ne]
    · exact hp
    · rintro rfl
      rw [hnone] at hp
      cases hp

omit [NatCast K] in
theorem hasCard_iff {projects : Map String (ProjectRow × Db K)} {cardId : String} :
    hasCard projects cardId = true ↔ ∃ (projectId : String) (p : ProjectRow × Db K),
      projects[projectId]? = some p ∧ cardId ∈ p.2.cards := by
  simp only [hasCard, List.any_eq_true, Map.mem_rows, Std.ExtTreeMap.contains_iff_mem]
  constructor
  · rintro ⟨p, ⟨projectId, hp⟩, hc⟩
    exact ⟨projectId, p, hp, hc⟩
  · rintro ⟨projectId, p, hp, hc⟩
    exact ⟨p, ⟨projectId, hp⟩, hc⟩

omit [NatCast K] in
theorem Grows.hasCard (h : Grows db db') {cardId : String}
    (hcard : HolderCore.hasCard db.projects cardId = true) :
    HolderCore.hasCard db'.projects cardId = true := by
  obtain ⟨projectId, p, hp, hc⟩ := hasCard_iff.mp hcard
  exact hasCard_iff.mpr ⟨projectId, p, h projectId p hp, hc⟩

/-- The root of a project that was recovered. -/
theorem recoverProjectRoot_ok (hjournals : ∀ (rootPath : String) (root : ProjectRoot),
    roots[rootPath]? = some root → root.journal = none) {roots₁ : Map String ProjectRoot}
    (h : recoverProjectRoot sys db rootPath roots = .ok db' roots₁) :
    ∃ root, roots[rootPath]? = some root ∧ roots₁ = roots ∧
      recoverFiles sys db rootPath root.repo.work = .ok db' := by
  cases hroot : roots[rootPath]? with
  | none =>
    unfold recoverProjectRoot at h
    simp only [bind, EStateM.bind, get, getThe, MonadStateOf.get, EStateM.get, hroot] at h
    cases h
  | some root =>
    rw [recoverProjectRoot_settled hroot (hjournals _ _ hroot)] at h
    cases hf : recoverFiles sys db rootPath root.repo.work with
    | error e => rw [hf] at h; cases h
    | ok db₁ =>
      rw [hf] at h
      cases h
      exact ⟨root, rfl, rfl, hf⟩

omit [NatCast K] in
theorem workAt_eq (hroot : roots[rootPath]? = some root) : workAt roots rootPath = root.repo.work := by
  simp [workAt, hroot]

/-- What the projects of a rebuilt database are: each the rows of its files, none with a card of
another, and the cards of their threads are there. -/
structure ProjectsOf (sys : RebuildSystem K O) (roots : Map String ProjectRoot) (db : Database K O) :
    Prop where
  projection : ∀ (projectId : String) (p : ProjectRow × Db K), db.projects[projectId]? = some p →
    projection { sys.env with project := p.1.project } (workAt roots p.1.rootPath) = .ok p.2 ∧
      p.1.project.projectId = projectId ∧ ∃ root, roots[p.1.rootPath]? = some root
  apart : ∀ (projectId projectId' : String) (p p' : ProjectRow × Db K) (id : String),
    db.projects[projectId]? = some p → db.projects[projectId']? = some p' → id ∈ p.2.cards →
      id ∈ p'.2.cards → projectId = projectId'
  threads : ∀ (projectId : String) (p : ProjectRow × Db K), db.projects[projectId]? = some p →
    ∀ id ∈ sys.threadCards p.1.project (workAt roots p.1.rootPath), hasCard db.projects id = true

theorem ProjectsOf.recover (h : ProjectsOf sys roots db) (hroot : roots[rootPath]? = some root)
    (hfiles : recoverFiles sys db rootPath root.repo.work = .ok db') : ProjectsOf sys roots db' := by
  have hgrows := recoverFiles_grows hfiles
  obtain ⟨project, -, ⟨p, -, -, rfl⟩ | ⟨hnone, rows, other, hrows, hfree, hthreads, -, rfl⟩⟩ :=
    recoverFiles_iff.mp hfiles
  · exact h
  · have hfree := idsFree_iff.mp hfree
    refine ⟨fun projectId p hp => ?_, fun projectId projectId' p p' id hp hp' hid hid' => ?_,
      fun projectId p hp id hid => ?_⟩
    · rw [Map.get_insert] at hp
      split at hp
      · next he =>
        cases hp
        exact ⟨by rw [workAt_eq hroot]; exact hrows, he, root, hroot⟩
      · exact h.projection projectId p hp
    · rw [Map.get_insert] at hp hp'
      split at hp <;> split at hp'
      · next he he' => exact he.symm.trans he'
      · cases hp
        exact absurd hid ((hfree _ _ hp').1 id hid')
      · cases hp'
        exact absurd hid' ((hfree _ _ hp).1 id hid)
      · exact h.apart projectId projectId' p p' id hp hp' hid hid'
    · rw [Map.get_insert] at hp
      split at hp
      · cases hp
        rw [workAt_eq hroot] at hid
        exact List.all_eq_true.mp hthreads id hid
      · exact hgrows.hasCard (h.threads projectId p hp id hid)

theorem ProjectsOf.run (h : ProjectsOf sys roots db) (hjournals : ∀ (rootPath : String)
    (root : ProjectRoot), roots[rootPath]? = some root → root.journal = none) {rootPaths : List String}
    (hrun : recoverProjectRoots sys db rootPaths roots = .ok db' roots) : ProjectsOf sys roots db' := by
  induction rootPaths generalizing db with
  | nil =>
    cases hrun
    exact h
  | cons rootPath rootPaths ih =>
    rw [recoverProjectRoots] at hrun
    simp only [bind, EStateM.bind] at hrun
    split at hrun
    · next db₂ roots₂ hstep =>
      obtain ⟨root, hroot, rfl, hfiles⟩ := recoverProjectRoot_ok hjournals hstep
      exact ih (h.recover hroot hfiles) hrun
    · cases hrun

/-- The cards that the threads name are left, in any project. -/
def AllThreadsLeft (sys : RebuildSystem K O) (roots : Map String ProjectRoot) (db : Database K O) :
    Prop :=
  ∀ (projectId : String) (p : ProjectRow × Db K), db.projects[projectId]? = some p →
    ∀ id ∈ sys.threadCards p.1.project (workAt roots p.1.rootPath),
      hasCard (keepDatabase roots db).projects id = true

omit [NatCast K] in
theorem Grows.keep (h : Grows db db') : Grows (keepDatabase roots db) (keepDatabase roots db') := by
  intro projectId p hp
  rw [keepDatabase_get, Option.map_eq_some_iff] at hp ⊢
  obtain ⟨q, hq, rfl⟩ := hp
  exact ⟨q, h projectId q hq, rfl⟩

/-- The cards of the threads of fewer projects are left, too: no other project has them. -/
theorem AllThreadsLeft.of_grows (h : AllThreadsLeft sys roots' db') (hgrows : Grows db db')
    (hblind : CardBlind sys) (hlost : LostRoots roots roots') (hproj : ProjectsOf sys roots db)
    (hproj' : ProjectsOf sys roots db') : AllThreadsLeft sys roots' db := by
  intro projectId p hp id hid
  obtain ⟨-, -, root, hroot⟩ := hproj.projection projectId p hp
  obtain ⟨-, root', hroot', -, hfiles⟩ := hlost.root _ _ hroot
  have hbefore : id ∈ sys.threadCards p.1.project (workAt roots p.1.rootPath) := by
    rw [workAt_eq hroot, ← hblind.threadCards _ _ _ hfiles, ← workAt_eq hroot']
    exact hid
  obtain ⟨holder, q, hq, hcard⟩ := hasCard_iff.mp (hproj.threads projectId p hp id hbefore)
  obtain ⟨holder', q', hq', hleft⟩ := hasCard_iff.mp (h projectId p (hgrows _ _ hp) id hid)
  rw [keepDatabase_get, Option.map_eq_some_iff] at hq'
  obtain ⟨q', hq', rfl⟩ := hq'
  have hcard' : id ∈ q'.2.cards := (Std.ExtTreeMap.mem_filter.mp hleft).elim fun hmem _ => hmem
  obtain rfl := hproj'.apart _ _ _ _ id (hgrows _ _ hq) hq' hcard hcard'
  obtain rfl : q = q' := Option.some.inj ((hgrows _ _ hq).symm.trans hq')
  exact hasCard_iff.mpr ⟨holder, _, by rw [keepDatabase_get, hq]; rfl, hleft⟩

/-- No card that is left, and no thread, has lost the card that it refers to. -/
def AllLeft (sys : RebuildSystem K O) (roots : Map String ProjectRoot) (db : Database K O) : Prop :=
  AllParentsLeft roots db ∧ AllThreadsLeft sys roots db

theorem AllLeft.of_grows (h : AllLeft sys roots' db') (hgrows : Grows db db')
    (hblind : CardBlind sys) (hlost : LostRoots roots roots') (hproj : ProjectsOf sys roots db)
    (hproj' : ProjectsOf sys roots db') : AllLeft sys roots' db :=
  ⟨h.1.of_grows hgrows, h.2.of_grows hgrows hblind hlost hproj hproj'⟩

/-- One root after some of its card files are gone. -/
theorem recoverFiles_lost (hblind : CardBlind sys) {work : Tree} (hlost : LostFiles work (workAt roots' rootPath))
    (h : recoverFiles sys db rootPath work = .ok db') :
    (AllLeft sys roots' db' → recoverFiles sys (keepDatabase roots' db) rootPath
        (workAt roots' rootPath) = .ok (keepDatabase roots' db')) ∧
      (AllLeft sys roots' db → ∀ db₁, recoverFiles sys (keepDatabase roots' db) rootPath
        (workAt roots' rootPath) = .ok db₁ → AllLeft sys roots' db') := by
  have hgrows := recoverFiles_grows h
  obtain ⟨project, hm, ⟨p, hp, hroot, rfl⟩ | ⟨hnone, rows, other, hrows, hfree, -, hother, rfl⟩⟩ :=
    recoverFiles_iff.mp h
  · refine ⟨fun _ => recoverFiles_iff.mpr ⟨project, ?_, .inl
      ⟨(p.1, keepRows (hasFile (workAt roots' p.1.rootPath)) p.2), ?_, hroot, rfl⟩⟩,
      fun hup _ _ => hup⟩
    · rw [hblind.manifest _ _ hlost, hm]
    · rw [keepDatabase_get, hp]
      rfl
  · obtain ⟨hkept, honly⟩ := projection_lost (hblind.order project) hrows hlost
    have hnone' : (keepDatabase roots' db).projects[project.projectId]? = none := by
      rw [keepDatabase_get, hnone]
      rfl
    refine ⟨fun hup => recoverFiles_iff.mpr ⟨project, ?_, .inr
      ⟨hnone', _, other, hkept ?_, ?_, ?_, ?_, ?_⟩⟩, fun hup db₁ h₁ => ?_⟩
    · rw [hblind.manifest _ _ hlost, hm]
    · exact hup.1 project.projectId (⟨project, rootPath⟩, rows) (by simp)
    · exact idsFree_keep hfree _ db rfl
    · have hthreads := hup.2 project.projectId (⟨project, rootPath⟩, rows) (by simp)
      rw [keepDatabase_insert] at hthreads
      exact List.all_eq_true.mpr hthreads
    · exact (hblind.rebuildOther _ _ _ _ hlost).trans hother
    · exact keepDatabase_insert _ _ _ _ _ _
    · obtain ⟨project', hm', ⟨p, hp, -, -⟩ | ⟨-, rows', other', hrows', -, hthreads', -⟩⟩ :=
        recoverFiles_iff.mp h₁
      · rw [hblind.manifest _ _ hlost, hm] at hm'
        cases hm'
        rw [hnone'] at hp
        cases hp
      · rw [hblind.manifest _ _ hlost, hm] at hm'
        cases hm'
        have hleft := honly rows' hrows'
        rw [hkept hleft] at hrows'
        cases hrows'
        constructor
        · intro projectId q hq
          rw [Map.get_insert] at hq
          split at hq
          · cases hq
            exact hleft
          · exact hup.1 projectId q hq
        · intro projectId q hq id hid
          rw [Map.get_insert] at hq
          split at hq
          · cases hq
            rw [keepDatabase_insert]
            exact List.all_eq_true.mp hthreads' id hid
          · exact hgrows.keep.hasCard (hup.2 projectId q hq id hid)

/-- The roots after some card files are gone, one by one. -/
theorem recoverProjectRoots_lost (hblind : CardBlind sys) (hlost : LostRoots roots roots')
    (hproj : ProjectsOf sys roots db) {rootPaths : List String}
    (h : recoverProjectRoots sys db rootPaths roots = .ok db' roots) :
    Grows db db' ∧
      (AllLeft sys roots' db' → recoverProjectRoots sys (keepDatabase roots' db) rootPaths roots' =
        .ok (keepDatabase roots' db') roots') ∧
      (AllLeft sys roots' db → ∀ db₁ roots₁, recoverProjectRoots sys (keepDatabase roots' db)
        rootPaths roots' = .ok db₁ roots₁ → AllLeft sys roots' db') := by
  have hjournals : ∀ (rootPath : String) (root : ProjectRoot), roots[rootPath]? = some root →
      root.journal = none := fun rootPath root hroot => (hlost.root rootPath root hroot).1
  induction rootPaths generalizing db with
  | nil =>
    cases h
    exact ⟨fun _ _ hp => hp, fun _ => rfl, fun hup _ _ _ => hup⟩
  | cons rootPath rootPaths ih =>
    have hproj' := hproj.run hjournals h
    rw [recoverProjectRoots] at h
    simp only [bind, EStateM.bind] at h
    split at h
    · next db₂ roots₂ hstep =>
      obtain ⟨root, hroot, rfl, hfiles⟩ := recoverProjectRoot_ok hjournals hstep
      have hproj₂ := hproj.recover hroot hfiles
      obtain ⟨hgrows, hkept, honly⟩ := ih hproj₂ h
      obtain ⟨-, root', hroot', hjournal', hlostFiles⟩ := hlost.root _ _ hroot
      rw [← workAt_eq hroot'] at hlostFiles
      obtain ⟨hkept₂, honly₂⟩ := recoverFiles_lost hblind hlostFiles hfiles
      have hgrows₂ := recoverFiles_grows hfiles
      have hrun : ∀ db : Database K O, recoverProjectRoot sys db rootPath roots' =
          fromExcept (recoverFiles sys db rootPath (workAt roots' rootPath)) roots' := by
        intro db
        rw [recoverProjectRoot_settled hroot' hjournal', workAt_eq hroot']
      refine ⟨fun id p hp => hgrows id p (hgrows₂ id p hp), fun hup => ?_, fun hup db₁ roots₁ h₁ => ?_⟩
      · have hstep' : recoverProjectRoot sys (keepDatabase roots' db) rootPath roots' =
            .ok (keepDatabase roots' db₂) roots' := by
          rw [hrun, hkept₂ (hup.of_grows hgrows hblind hlost hproj₂ hproj')]
          rfl
        rw [recoverProjectRoots, bind_eq_of_ok hstep']
        exact hkept hup
      · rw [recoverProjectRoots] at h₁
        simp only [bind, EStateM.bind] at h₁
        split at h₁
        · next db₃ roots₃ hstep₃ =>
          rw [hrun] at hstep₃
          cases hf₃ : recoverFiles sys (keepDatabase roots' db) rootPath (workAt roots' rootPath) with
          | error e => rw [hf₃] at hstep₃; cases hstep₃
          | ok db₄ =>
            have hup₂ := honly₂ hup db₄ hf₃
            rw [hkept₂ hup₂] at hstep₃
            cases hstep₃
            exact honly hup₂ db₁ roots₁ h₁
        · cases h₁
    · cases h

/-! ## The rows of a project and its files -/

omit [NatCast K] in
theorem isRegularFile_eq (roots : Map String ProjectRoot) (rootPath rel : String) :
    isRegularFile roots rootPath rel = (workAt roots rootPath).contains rel := by
  unfold isRegularFile workAt
  cases roots[rootPath]? with
  | none => simp
  | some root => rfl

/-- A project's rows belong to cards with an id of their own and one file. -/
theorem ProjectsOf.row (h : ProjectsOf sys roots db) (hblind : CardBlind sys)
    (hlost : LostRoots roots roots') {projectId id : String} {p : ProjectRow × Db K} {c : Card K}
    (hp : db.projects[projectId]? = some p) (hc : p.2.cards[id]? = some c) :
    4 ≤ id.length ∧ isRegularFile roots' p.1.rootPath (cardPathOf c.deletedAt.isSome id) =
      hasFile (workAt roots' p.1.rootPath) id := by
  obtain ⟨hproj, -, root, hroot⟩ := h.projection projectId p hp
  obtain ⟨-, root', hroot', -, hfiles⟩ := hlost.root _ _ hroot
  rw [← workAt_eq hroot, ← workAt_eq hroot'] at hfiles
  obtain ⟨records, hprojected⟩ := projection_ok (hblind.order p.1.project) hproj
  obtain ⟨r, hr, rfl, rfl⟩ := (hprojected.rows.cards _ _).mp hc
  have hlen := (hprojected.files.loaded r hr).length
  refine ⟨hlen, ?_⟩
  rw [isRegularFile_eq, Bool.eq_iff_iff, Std.ExtTreeMap.contains_iff_mem, Map.mem_iff]
  constructor
  · rintro ⟨raw, hraw⟩
    exact hasFile_iff.mpr ⟨_, raw, hraw⟩
  · intro hleft
    obtain ⟨path, isTrash, raw, -, hraw, hload⟩ := (hfiles.record_iff hprojected).mpr ⟨hr, hleft⟩
    obtain ⟨-, -, hpath, hdel⟩ := loadCardFile_ok hload
    rw [hdel, ← hpath]
    exact ⟨raw, hraw⟩

/-- Milestones and links belong to cards that have a row. -/
theorem ProjectsOf.owner (h : ProjectsOf sys roots db) (hblind : CardBlind sys) {projectId : String}
    {p : ProjectRow × Db K} (hp : db.projects[projectId]? = some p) :
    (∀ (id : String) (m : Milestone), p.2.milestones[id]? = some m → m.cardId ∈ p.2.cards) ∧
      ∀ (key : List String) (l : CardLink), p.2.cardLinks[key]? = some l → l.fromCardId ∈ p.2.cards := by
  obtain ⟨hproj, -, -⟩ := h.projection projectId p hp
  obtain ⟨records, hprojected⟩ := projection_ok (hblind.order p.1.project) hproj
  have hrow : ∀ r ∈ records, r.card.cardId ∈ p.2.cards := fun r hr =>
    Map.mem_iff.mpr ⟨_, (hprojected.rows.cards _ _).mpr ⟨r, hr, rfl, rfl⟩⟩
  constructor
  · intro id m hm
    obtain ⟨hm, -⟩ := (hprojected.rows.milestones _ _).mp hm
    obtain ⟨r, hr, -, hm⟩ := mem_liveMilestones.mp hm
    rw [((hprojected.files.loaded r hr).milestones m hm).2]
    exact hrow r hr
  · intro key l hl
    obtain ⟨r, hr, hl⟩ := (hprojected.links _ _).mp hl
    rw [((hprojected.files.loaded r hr).linkRows hl).2.1]
    exact hrow r hr

/-! ## The deletions -/

/-- Some cards deleted from a project's rows. -/
def deleteRows (ids : List String) (rows : Db K) : Db K :=
  ids.foldl (fun rows id => deleteCardRows id rows) rows

def deleteAll (ids : List String) (db : Database K O) : Database K O :=
  ids.foldl (fun db id => db.deleteCard id) db

omit [NatCast K] in
theorem deleteAll_projects (ids : List String) (db : Database K O) :
    (deleteAll ids db).projects = db.projects.map (fun _ p => (p.1, deleteRows ids p.2)) ∧
      (deleteAll ids db).other = db.other := by
  induction ids generalizing db with
  | nil => exact ⟨by simp [deleteAll, deleteRows], rfl⟩
  | cons id ids ih =>
    obtain ⟨hprojects, hother⟩ := ih (db.deleteCard id)
    refine ⟨?_, hother⟩
    rw [deleteAll, List.foldl_cons, ← deleteAll, hprojects, Database.deleteCard,
      Std.ExtTreeMap.map_map]
    rfl

omit [NatCast K] in
/-- What is left of a project's rows. -/
theorem deleteRows_spec (ids : List String) (rows : Db K) :
    (deleteRows ids rows).cardLinks = rows.cardLinks ∧
      (∀ id : String, id ∈ (deleteRows ids rows).cards ↔ id ∈ rows.cards ∧ id ∉ ids) ∧
      (deleteRows ids rows).milestones =
        rows.milestones.filter fun _ m => !ids.contains m.cardId := by
  induction ids generalizing rows with
  | nil =>
    refine ⟨rfl, by simp [deleteRows], Map.ext fun k => ?_⟩
    cases h : rows.milestones[k]? <;> simp [deleteRows, h, Option.filter]
  | cons id ids ih =>
    obtain ⟨hlinks, hcards, hmilestones⟩ := ih (deleteCardRows id rows)
    refine ⟨hlinks, fun k => ?_, ?_⟩
    · rw [deleteRows, List.foldl_cons, ← deleteRows, hcards, List.mem_cons, not_or]
      simp only [deleteCardRows, Map.mem_iff, Map.get_map, Map.get_erase]
      by_cases he : id = k
      · simp [he]
      · simp [he, Ne.symm he]
    · rw [deleteRows, List.foldl_cons, ← deleteRows, hmilestones]
      refine Map.ext fun k => Option.ext fun m => ?_
      simp only [deleteCardRows, Map.get_filter, Option.filter_eq_some_iff, List.contains_cons,
        Bool.not_or, Bool.and_eq_true, bne_iff_ne, Bool.not_eq_true', beq_eq_false_iff_ne]
      tauto

/-! ## The counts -/

omit [NatCast K] in
/-- Tables with the same keys have as many rows. -/
theorem size_eq_of_keys {κ α β : Type} [Ord κ] [Std.TransOrd κ] [Std.LawfulEqOrd κ] {m : Map κ α}
    {m' : Map κ β} (h : ∀ k : κ, k ∈ m ↔ k ∈ m') : m.size = m'.size := by
  rw [← Std.ExtTreeMap.length_keys, ← Std.ExtTreeMap.length_keys]
  refine List.Perm.length_eq ((List.perm_ext_iff_of_nodup Std.ExtTreeMap.nodup_keys
    Std.ExtTreeMap.nodup_keys).mpr fun k => ?_)
  simp only [Std.ExtTreeMap.mem_keys, h]

omit [NatCast K] in
/-- The counts of a database whose projects' rows are `f` of others. -/
theorem durableCounts_map (otherCounts : O → List Nat) (db db' : Database K O)
    (f : ProjectRow × Db K → Db K) (h : db'.projects = db.projects.map fun _ p => (p.1, f p)) :
    durableCounts otherCounts db' =
      { projects := db.projects.size
        cards := (db.projects.toList.map fun e => (f e.2).cards.size).sum
        cardLinks := (db.projects.toList.map fun e => (f e.2).cardLinks.size).sum
        milestones := (db.projects.toList.map fun e => (f e.2).milestones.size).sum
        other := otherCounts db'.other } := by
  simp only [durableCounts, Map.rows, h, Std.ExtTreeMap.toList_map, Std.ExtTreeMap.size_map,
    List.map_map, Function.comp_def]

/-- No card that is gone has links. -/
def AllLinksLeft (roots : Map String ProjectRoot) (db : Database K O) : Prop :=
  ∀ (projectId : String) (p : ProjectRow × Db K) (key : List String) (l : CardLink),
    db.projects[projectId]? = some p → p.2.cardLinks[key]? = some l →
      hasFile (workAt roots p.1.rootPath) l.fromCardId = true

/-- The missing cards, by what is left of the files. -/
structure MissingIds (roots' : Map String ProjectRoot) (db : Database K O) (ids : List String) : Prop where
  iff : ∀ (projectId id : String) (p : ProjectRow × Db K), db.projects[projectId]? = some p →
    id ∈ p.2.cards → (id ∈ ids ↔ hasFile (workAt roots' p.1.rootPath) id = false)

/-- Without the missing cards, the old database counts as many objects as the cards that are left,
and all the links. -/
theorem durableCounts_eq_iff (h : ProjectsOf sys roots db) (hblind : CardBlind sys) {ids : List String}
    (hids : MissingIds roots' db ids) :
    durableCounts sys.otherCounts (deleteAll ids db) =
      durableCounts sys.otherCounts (keepDatabase roots' db) ↔ AllLinksLeft roots' db := by
  obtain ⟨hprojects, hother⟩ := deleteAll_projects ids db
  rw [durableCounts_map _ db _ (fun p => deleteRows ids p.2) hprojects,
    durableCounts_map _ db _ (fun p => keepRows (hasFile (workAt roots' p.1.rootPath)) p.2) rfl]
  have hmem : ∀ e ∈ db.projects.toList, db.projects[e.1]? = some e.2 := fun e he =>
    Std.ExtTreeMap.mem_toList_iff_getElem?_eq_some.mp he
  have hcards : ∀ e ∈ db.projects.toList, (deleteRows ids e.2.2).cards.size =
      (keepRows (hasFile (workAt roots' e.2.1.rootPath)) e.2.2).cards.size := by
    intro e he
    refine size_eq_of_keys fun id => ?_
    rw [(deleteRows_spec ids e.2.2).2.1]
    simp only [keepRows, Map.mem_iff, Map.get_filter, Option.filter_eq_some_iff]
    constructor
    · rintro ⟨⟨c, hc⟩, hid⟩
      refine ⟨c, hc, ?_⟩
      rw [hids.iff _ _ _ (hmem e he) (Map.mem_iff.mpr ⟨c, hc⟩)] at hid
      simpa using hid
    · rintro ⟨c, hc, hleft⟩
      refine ⟨⟨c, hc⟩, fun hid => ?_⟩
      rw [hids.iff _ _ _ (hmem e he) (Map.mem_iff.mpr ⟨c, hc⟩), hleft] at hid
      cases hid
  have hmilestones : ∀ e ∈ db.projects.toList, (deleteRows ids e.2.2).milestones =
      (keepRows (hasFile (workAt roots' e.2.1.rootPath)) e.2.2).milestones := by
    intro e he
    rw [(deleteRows_spec ids e.2.2).2.2]
    refine Map.ext fun id => Option.ext fun m => ?_
    simp only [keepRows, Map.get_filter, Option.filter_eq_some_iff]
    refine and_congr_right fun hm => ?_
    have hid := hids.iff _ _ _ (hmem e he) ((h.owner hblind (hmem e he)).1 id m hm)
    cases hleft : hasFile (workAt roots' e.2.1.rootPath) m.cardId <;> simp_all
  have hlinks : ∀ e ∈ db.projects.toList, (keepRows (hasFile (workAt roots' e.2.1.rootPath)) e.2.2).cardLinks.size ≤
      (deleteRows ids e.2.2).cardLinks.size := by
    intro e he
    rw [(deleteRows_spec ids e.2.2).1]
    exact Std.ExtTreeMap.size_filter_le_size
  have hmsizes : ∀ e ∈ db.projects.toList, (deleteRows ids e.2.2).milestones.size =
      (keepRows (hasFile (workAt roots' e.2.1.rootPath)) e.2.2).milestones.size :=
    fun e he => congrArg _ (hmilestones e he)
  rw [List.map_congr_left hcards, List.map_congr_left hmsizes, hother]
  simp only [Counts.mk.injEq, true_and, and_true, keepDatabase]
  constructor
  · -- A table that counted more links would make the sum of the old ones larger.
    intro hsum projectId p key l hp hl
    by_contra hleft
    have hmem' : (projectId, p) ∈ db.projects.toList :=
      Std.ExtTreeMap.mem_toList_iff_getElem?_eq_some.mpr hp
    refine absurd hsum (ne_of_gt (List.sum_lt_sum _ _ hlinks ⟨_, hmem', ?_⟩))
    refine lt_of_le_of_ne (hlinks _ hmem') fun he => hleft ?_
    rw [(deleteRows_spec ids p.2).1] at he
    have hall := Std.ExtTreeMap.size_filter_eq_size_iff.mp he
    obtain ⟨hk, hkey⟩ := Std.ExtTreeMap.getElem?_eq_some_iff.mp hl
    exact hkey ▸ hall key hk
  · intro hall
    refine congrArg _ (List.map_congr_left fun e he => ?_)
    rw [(deleteRows_spec ids e.2.2).1]
    refine (Std.ExtTreeMap.size_filter_eq_size_iff.mpr fun k hk => ?_).symm
    exact hall e.1 e.2 k _ (hmem e he) (Std.ExtTreeMap.getElem?_eq_some_iff.mpr ⟨hk, rfl⟩)

/-! ## The audit -/

/-- A check that passes on each element of a list. -/
private theorem mapM_ok {ε α β : Type} {f : α → Except ε β} {as : List α}
    (h : ∀ a ∈ as, ∃ b, f a = .ok b) : ∃ bs, as.mapM f = .ok bs := by
  induction as with
  | nil => exact ⟨[], rfl⟩
  | cons a as ih =>
    obtain ⟨b, hb⟩ := h a List.mem_cons_self
    obtain ⟨bs, hbs⟩ := ih fun a ha => h a (List.mem_cons_of_mem _ ha)
    exact ⟨b :: bs, by rw [List.mapM_cons, hb]; simp [bind, Except.bind, hbs, pure, Except.pure]⟩

/-- The entry of a card that is gone. -/
def GoneEntry (roots' : Map String ProjectRoot) (db : Database K O) (entry : QuarantineEntry) : Prop :=
  ∃ p c, db.projects[entry.projectId]? = some p ∧ p.2.cards[entry.cardId]? = some c ∧
    hasFile (workAt roots' p.1.rootPath) entry.cardId = false ∧
    entry.title = c.title ∧ entry.wasTrashed = c.deletedAt.isSome

/-- The audit names the cards that are gone. -/
theorem missingCards_ok (h : ProjectsOf sys roots db) (hblind : CardBlind sys)
    (hlost : LostRoots roots roots') : ∃ missing, missingCards db roots' = .ok missing ∧
      (∀ entry, entry ∈ missing ↔ GoneEntry roots' db entry) ∧
      MissingIds roots' db (missing.map (·.cardId)) := by
  obtain ⟨entries, hentries⟩ : ∃ entries, (cardRows db).mapM (missingCard roots') = .ok entries := by
    refine mapM_ok fun row hrow => ?_
    obtain ⟨p, hp, -, hc⟩ := mem_cardRows.mp hrow
    exact ⟨_, missingCard_iff.mpr ⟨(h.row hblind hlost hp hc).1, rfl⟩⟩
  have hmissing : missingCards db roots' = .ok (entries.filterMap id) := by
    simp [missingCards, hentries, bind, Except.bind, pure, Except.pure]
  have hiff : ∀ entry, entry ∈ entries.filterMap id ↔ GoneEntry roots' db entry := by
    intro entry
    rw [mem_missingCards hmissing]
    constructor
    · rintro ⟨row, hrow, hfile, rfl⟩
      obtain ⟨p, hp, hroot, hc⟩ := mem_cardRows.mp hrow
      rw [← hroot, (h.row hblind hlost hp hc).2] at hfile
      exact ⟨p, _, hp, hc, hfile, rfl, rfl⟩
    · rintro ⟨p, c, hp, hc, hgone, htitle, htrash⟩
      obtain ⟨cardId, projectId, title, wasTrashed⟩ := entry
      dsimp only at hp hc hgone htitle htrash
      subst htitle htrash
      refine ⟨(p.1.rootPath, projectId, cardId, c), mem_cardRows.mpr ⟨p, hp, rfl, hc⟩, ?_, rfl⟩
      rw [(h.row hblind hlost hp hc).2, hgone]
  refine ⟨_, hmissing, hiff, ⟨fun projectId id p hp hid => ?_⟩⟩
  obtain ⟨c, hc⟩ := Map.mem_iff.mp hid
  constructor
  · intro hmem
    obtain ⟨entry, he, rfl⟩ := List.mem_map.mp hmem
    obtain ⟨p', c', hp', hc', hgone, -, -⟩ := (hiff entry).mp he
    have hsame := h.apart _ _ _ _ _ hp hp' hid (Map.mem_iff.mpr ⟨c', hc'⟩)
    subst hsame
    rw [hp, Option.some.injEq] at hp'
    exact hp' ▸ hgone
  · intro hgone
    refine List.mem_map.mpr ⟨⟨id, projectId, c.title, c.deletedAt.isSome⟩, (hiff _).mpr ?_, rfl⟩
    exact ⟨p, c, hp, hc, hgone, rfl, rfl⟩

omit [NatCast K] in
/-- A path that is no card file is there as before. -/
theorem LostRoots.isRegularFile (hlost : LostRoots roots roots') {rel : String}
    (hrel : ∀ isTrash, ¬ CardFile isTrash rel) (rootPath : String) :
    HolderCore.isRegularFile roots' rootPath rel = HolderCore.isRegularFile roots rootPath rel := by
  unfold HolderCore.isRegularFile
  cases hroot : roots[rootPath]? with
  | none => rw [hlost.none _ hroot]
  | some root =>
    obtain ⟨-, root', hroot', -, hfiles⟩ := hlost.root _ _ hroot
    rw [hroot', Option.any_some, Option.any_some, Bool.eq_iff_iff, Std.ExtTreeMap.contains_iff_mem,
      Std.ExtTreeMap.contains_iff_mem, Map.mem_iff, Map.mem_iff, hfiles.other rel hrel]

omit [NatCast K] in
theorem requireMetadata_lost (hlost : LostRoots roots roots') :
    requireMetadata db roots' = requireMetadata db roots := by
  have hprivacy : ∀ isTrash, ¬ CardFile isTrash ".holder/privacy.json" := by
    unfold CardFile
    decide
  have hproject : ∀ isTrash, ¬ CardFile isTrash ".holder/project.json" := by
    unfold CardFile
    decide
  unfold requireMetadata
  simp only [hlost.isRegularFile hprivacy, hlost.isRegularFile hproject]

omit [NatCast K] in
theorem checkRoots_lost (hblind : CardBlind sys) (hlost : LostRoots roots roots')
    (projectIds rootPaths : List String) :
    checkRoots sys roots' projectIds rootPaths = checkRoots sys roots projectIds rootPaths := by
  induction rootPaths generalizing projectIds with
  | nil => rfl
  | cons rootPath rootPaths ih =>
    rw [checkRoots, checkRoots]
    cases hroot : roots[rootPath]? with
    | none => rw [hlost.none _ hroot]
    | some root =>
      obtain ⟨-, root', hroot', -, hfiles⟩ := hlost.root _ _ hroot
      simp only [hroot', hblind.manifest _ _ hfiles, ih]

omit [NatCast K] in
theorem deleteCards_steady (hblind : CardBlind sys) (missing : List QuarantineEntry)
    (hdb : disk.database = .healthy db) : deleteCards sys db missing disk =
      .ok (deleteAll (missing.map (·.cardId)) db)
        { disk with database := .healthy (deleteAll (missing.map (·.cardId)) db) } := by
  induction missing generalizing db disk with
  | nil =>
    obtain ⟨database, stale, roots, backups, log⟩ := disk
    cases hdb
    rfl
  | cons entry missing ih =>
    rw [deleteCards, hblind.steady]
    simp only [Bool.false_eq_true, if_false, bind, EStateM.bind, modify, modifyGet,
      MonadStateOf.modifyGet, EStateM.modifyGet]
    rw [ih rfl]
    rfl

/-- The log after some cards were quarantined. -/
def quarantineLog (log : Option (Option (List QuarantineEntry))) (missing : List QuarantineEntry) :
    Option (Option (List QuarantineEntry)) :=
  if missing = [] then log else some (some (log.join.getD [] ++ missing))

/-- The audit of a disk some of whose card files are gone. -/
theorem auditOld_lost (h : ProjectsOf sys disk.roots db) (hblind : CardBlind sys)
    (hset : UpToDate sys request disk db) (hhooks : request.hooks = noHooks)
    (hlost : LostRoots disk.roots roots') : ∃ missing,
      (∀ entry, entry ∈ missing ↔ GoneEntry roots' db entry) ∧
      MissingIds roots' db (missing.map (·.cardId)) ∧
      auditOld sys request { disk with roots := roots' } = .ok
        (missing.length, some (durableCounts sys.otherCounts (deleteAll (missing.map (·.cardId)) db)))
        { disk with
          roots := roots'
          database := .healthy (deleteAll (missing.map (·.cardId)) db)
          log := quarantineLog disk.log missing } := by
  obtain ⟨missing, hmissing, hentries, hids⟩ := missingCards_ok h hblind hlost
  refine ⟨missing, hentries, hids, ?_⟩
  obtain ⟨hprojects, hother⟩ := deleteAll_projects (missing.map (·.cardId)) db
  have hrows : ((deleteAll (missing.map (·.cardId)) db).projects.map fun _ p => p.1) =
      db.projects.map fun _ p => p.1 := by
    rw [hprojects, Std.ExtTreeMap.map_map]
  have haudit : sys.auditOther ((deleteAll (missing.map (·.cardId)) db).projects.map fun _ p => p.1)
      (deleteAll (missing.map (·.cardId)) db).other roots' = .ok () := by
    rw [hrows, hother, hblind.auditOther _ _ _ _ hlost, hset.other]
  have hmeta : requireMetadata db roots' = .ok () := (requireMetadata_lost hlost).trans hset.metaFiles
  have hdelete : deleteCards sys db missing { disk with roots := roots' } = _ :=
    deleteCards_steady hblind missing hset.database
  have hends : Ends (auditOld sys request) { disk with roots := roots' }
      (fun r disk' => r = (missing.length, some (durableCounts sys.otherCounts
        (deleteAll (missing.map (·.cardId)) db))) ∧ disk' =
          { disk with
            roots := roots'
            database := .healthy (deleteAll (missing.map (·.cardId)) db)
            log := quarantineLog disk.log missing }) (fun _ _ => False) := by
    have hdb : ({ disk with roots := roots' } : Disk K O).database = .healthy db := hset.database
    refine (auditOld_healthy hdb).mpr ?_
    simp only [auditCoreDurableOwnership, quarantineCardsWithMissingFiles, Ends.bind_iff, Ends.get_iff,
      hmeta, hmissing, fromExcept, Ends.pure_iff]
    rw [Ends, hdelete]
    simp only [Ends.ite_iff, Ends.bind_iff, Ends.pure_iff, appendQuarantineLog,
      hblind.steady, Ends.modify_iff, haudit, hhooks, noHooks, quarantineLog, List.isEmpty_iff]
    constructor
    · intro hnil
      simp [hnil]
    · intro hne
      simp [hne]
  cases hrun : auditOld sys request { disk with roots := roots' } with
  | ok r disk' =>
    obtain ⟨rfl, rfl⟩ := hends.ok hrun
    rfl
  | error e disk' => exact (hends.error hrun).elim

/-- The rows of the cards that are left are in the new database. -/
def HoldsLeft (roots' : Map String ProjectRoot) (db db' : Database K O) : Prop :=
  ∀ (projectId : String) (p : ProjectRow × Db K), db.projects[projectId]? = some p →
    ∃ rows : Db K, db'.projects[projectId]? = some (p.1, rows) ∧
      ∀ id : String, hasFile (workAt roots' p.1.rootPath) id = true →
        rows.cards[id]? = p.2.cards[id]? ∧ rows.cardsFts[id]? = p.2.cardsFts[id]? ∧
          ∀ (key : List String) (l : CardLink), l.fromCardId = id →
            (rows.cardLinks[key]? = some l ↔ p.2.cardLinks[key]? = some l)

/-- The rebuild returns, with the cards that are left in the database and those that are gone in the
log. -/
def Reopens (sys : RebuildSystem K O) (request : DatabaseRebuildRequest K O) (disk : Disk K O)
    (db : Database K O) (roots' : Map String ProjectRoot) : Prop :=
  Ends (rebuildDatabaseProjection sys request) { disk with roots := roots' }
    (fun _ disk' => (∃ db', disk'.database = .healthy db' ∧ HoldsLeft roots' db db') ∧
      ∃ missing, (∀ entry, entry ∈ missing ↔ GoneEntry roots' db entry) ∧
        disk'.log = quarantineLog disk.log missing)
    (fun _ _ => False)

omit [NatCast K] in
theorem keepDatabase_holdsLeft : HoldsLeft roots' db (keepDatabase roots' db) := by
  intro projectId p hp
  refine ⟨keepRows (hasFile (workAt roots' p.1.rootPath)) p.2, by rw [keepDatabase_get, hp]; rfl,
    fun id hleft => ⟨?_, ?_, ?_⟩⟩
  · refine Option.ext fun c => ?_
    simp [keepRows, Option.filter_eq_some_iff, hleft]
  · refine Option.ext fun row => ?_
    simp [keepRows, Option.filter_eq_some_iff, hleft]
  · rintro key l rfl
    simp [keepRows, Option.filter_eq_some_iff, hleft]

/-- The projects of a new database were recovered from the roots. -/
theorem buildRebuilt_recovers (hhooks : request.hooks = noHooks) {oldCounts : Option Counts}
    {counts : Counts} {roots₁ : Map String ProjectRoot}
    (h : buildRebuilt sys request oldCounts roots = .ok (db, counts) roots₁) :
    ∃ other, sys.applySchema request.schemaSql = .ok other ∧
      recoverProjectRoots sys { projects := ∅, other } (normalizedRoots request.projectRoots) roots =
        .ok db roots₁ := by
  have hends : Ends (buildRebuilt sys request oldCounts) roots (fun r roots₁ => ∃ other,
      sys.applySchema request.schemaSql = .ok other ∧
      recoverProjectRoots sys { projects := ∅, other } (normalizedRoots request.projectRoots) roots =
        .ok r.1 roots₁) (fun _ _ => True) := by
    simp only [buildRebuilt, Ends.bind_iff, Ends.fromExcept_iff, implies_true, and_true, hhooks,
      noHooks, Except.ok.injEq, forall_eq', Ends.ite_iff, Ends.throw_iff, Ends.pure_iff, true_and]
    intro other hother
    refine .intro (fun db roots hrec => ?_) fun _ _ _ => trivial
    intros
    exact ⟨other, hother, hrec⟩
  exact hends.ok h

/-- The new database of a disk some of whose card files are gone. -/
theorem buildRebuilt_lost (hblind : CardBlind sys) (hhooks : request.hooks = noHooks)
    {counts oldCounts : Counts}
    (hbuilt : buildRebuilt sys request none roots = .ok (db, counts) roots)
    (hlost : LostRoots roots roots') :
    Ends (buildRebuilt sys request (some oldCounts)) roots'
      (fun r _ => r.1 = keepDatabase roots' db ∧ AllLeft sys roots' db ∧
        oldCounts = durableCounts sys.otherCounts (keepDatabase roots' db))
      (fun _ _ => ¬ (AllLeft sys roots' db ∧
        oldCounts = durableCounts sys.otherCounts (keepDatabase roots' db))) := by
  obtain ⟨other, hother, hrec⟩ := buildRebuilt_recovers hhooks hbuilt
  obtain ⟨-, hkept, honly⟩ := recoverProjectRoots_lost hblind hlost ⟨by simp, by simp, by simp⟩ hrec
  have hstart : keepDatabase roots' { projects := ∅, other } =
      ({ projects := ∅, other } : Database K O) := by
    refine congrArg (fun projects => ({ projects, other } : Database K O)) (Map.ext fun id => ?_)
    simp
  have hnone : AllLeft sys roots' ({ projects := ∅, other } : Database K O) := by
    constructor <;> intro id p hp <;> simp at hp
  rw [hstart] at hkept honly
  simp only [buildRebuilt, Ends.bind_iff, hother, fromExcept, Ends.pure_iff, hhooks, noHooks]
  refine .intro (fun db₁ roots₁ hrun => ?_) fun e roots₁ hrun => ?_
  · have hup := honly hnone db₁ roots₁ hrun
    rw [hkept hup] at hrun
    cases hrun
    simp only [hblind.validate, Ends.pure_iff, Ends.bind_iff, Ends.ite_iff, Ends.throw_iff,
      Option.any_some, bne_iff_ne]
    exact ⟨fun hne h => hne h.2, fun heq => ⟨trivial, hup, not_not.mp heq⟩⟩
  · rintro ⟨hup, -⟩
    rw [hkept hup] at hrun
    cases hrun

/-- One lost card blocks the rest exactly when it is the parent of a card that is left, has links or is
the card of a thread. -/
theorem reopens_iff (hblind : CardBlind sys) (hset : UpToDate sys request disk db)
    (hhooks : request.hooks = noHooks) (hdry : request.dryRun = false)
    (hlost : LostRoots disk.roots roots') :
    Reopens sys request disk db roots' ↔
      AllParentsLeft roots' db ∧ AllLinksLeft roots' db ∧ AllThreadsLeft sys roots' db := by
  obtain ⟨counts, hbuilt⟩ := hset.projection
  obtain ⟨other, -, hrec⟩ := buildRebuilt_recovers hhooks hbuilt
  have hproj : ProjectsOf sys disk.roots db :=
    ProjectsOf.run ⟨by simp, by simp, by simp⟩ hset.journals hrec
  obtain ⟨missing, hentries, hids, haudit⟩ := auditOld_lost hproj hblind hset hhooks hlost
  have hbuild : Ends (buildRebuilt sys request
      (some (durableCounts sys.otherCounts (deleteAll (missing.map (·.cardId)) db)))) roots' _ _ :=
    buildRebuilt_lost hblind hhooks hbuilt hlost
  rw [durableCounts_eq_iff hproj hblind hids] at hbuild
  have hcheck : checkRequest sys request { disk with roots := roots' } = .ok () := by
    rw [← hset.check]
    simp only [checkRequest, checkRoots_lost hblind hlost]
  unfold Reopens
  rw [rebuildDatabaseProjection_ends, hcheck]
  simp only [reduceCtorEq, false_implies, implies_true, true_and, true_implies]
  rw [Ends, haudit]
  simp only [afterAudit, hset.stale, Bool.false_eq_true, if_false, Ends.bind_iff, hdry]
  generalize durableCounts sys.otherCounts (deleteAll (missing.map (·.cardId)) db) = oldCounts at *
  cases hrun : buildRebuilt sys request (some oldCounts) roots' with
  | error e roots₁ =>
    rw [onRoots_error hrun]
    exact ⟨False.elim, fun ⟨hup, hlinks, hthreads⟩ => hbuild.error hrun ⟨⟨hup, hthreads⟩, hlinks⟩⟩
  | ok r roots₁ =>
    obtain ⟨hdb, ⟨hup, hthreads⟩, hlinks⟩ := hbuild.ok hrun
    rw [onRoots_ok hrun]
    refine ⟨fun _ => ⟨hup, hlinks, hthreads⟩, fun _ => ?_⟩
    simp only [replaceDatabase, hblind.steady, Bool.false_eq_true, if_false, if_true, Ends.bind_iff,
      Ends.get_iff, Ends.modify_iff, Ends.pure_iff]
    exact ⟨⟨_, rfl, hdb ▸ keepDatabase_holdsLeft⟩, missing, hentries, rfl⟩

theorem recoverProjectRoots_roots (hjournals : ∀ (rootPath : String) (root : ProjectRoot),
    roots[rootPath]? = some root → root.journal = none) {rootPaths : List String}
    {roots₁ : Map String ProjectRoot}
    (h : recoverProjectRoots sys db rootPaths roots = .ok db' roots₁) : roots₁ = roots := by
  induction rootPaths generalizing db with
  | nil =>
    cases h
    rfl
  | cons rootPath rootPaths ih =>
    rw [recoverProjectRoots] at h
    simp only [bind, EStateM.bind] at h
    split at h
    · next db₂ roots₂ hstep =>
      obtain ⟨root, -, rfl, -⟩ := recoverProjectRoot_ok hjournals hstep
      exact ih h
    · cases h

omit [NatCast K] in
theorem LostFiles.erase {work : Tree} {isTrash : Bool} {path : String} (h : CardFile isTrash path) :
    LostFiles work (work.erase path) where
  left rel raw hraw := by
    rw [Map.get_erase] at hraw
    split at hraw
    · cases hraw
    · exact hraw
  other rel hrel := Map.get_erase_ne fun he => hrel isTrash (he ▸ h)

end

/-- The roots of a directory with one project. -/
def homeRoots (work : Tree) : Map String ProjectRoot :=
  (∅ : Map String _).insert "home" ⟨{ Repo.init with work }, none⟩

theorem homeRoots_lost {work work' : Tree} (h : LostFiles work work') :
    LostRoots (homeRoots work) (homeRoots work') where
  root rootPath root hroot := by
    rw [homeRoots, Map.get_insert] at hroot
    split at hroot
    · next he =>
      cases hroot
      subst he
      exact ⟨rfl, ⟨{ Repo.init with work := work' }, none⟩, by simp [homeRoots], rfl, h⟩
    · simp at hroot
  none rootPath hroot := by
    rw [homeRoots, Map.get_insert] at hroot ⊢
    split at hroot
    · cases hroot
    · next he => simp [he]

theorem plainSystem_cardBlind : CardBlind plainSystem where
  manifest _ _ _ := rfl
  auditOther _ _ _ _ _ := rfl
  threadCards _ _ _ _ := rfl
  rebuildOther _ _ _ _ _ := rfl
  validate _ _ := rfl
  steady _ := rfl
  directory _ := .refl _

/-- The disk of one project, with the database that is rebuilt from its files. -/
def rebuiltDisk (work : Tree) : Disk ℚ Unit where
  database := match buildRebuilt plainSystem (plainRequest false) none (homeRoots work) with
    | .ok (db, _) _ => .healthy db
    | .error _ _ => .missing
  stale := false
  roots := homeRoots work
  backups := []
  log := none

/-- Whether the files are those of a project that can be rebuilt. -/
def canRebuild (work : Tree) : Bool :=
  match buildRebuilt plainSystem (plainRequest false) none (homeRoots work) with
  | .ok (db, _) _ => (checkRequest plainSystem (plainRequest false) (rebuiltDisk work)).isOk &&
      (requireMetadata db (homeRoots work)).isOk
  | .error _ _ => false

theorem rebuiltDisk_settled {work : Tree} (h : canRebuild work = true) :
    ∃ db, UpToDate plainSystem (plainRequest false) (rebuiltDisk work) db := by
  have hjournals : ∀ (rootPath : String) (root : ProjectRoot),
      (homeRoots work)[rootPath]? = some root → root.journal = none :=
    fun _ _ hr => ((homeRoots_lost ⟨fun _ _ h => h, fun _ _ => rfl⟩).root _ _ hr).1
  unfold canRebuild at h
  split at h
  · next db counts roots hbuilt =>
    simp only [Bool.and_eq_true] at h
    obtain ⟨other, -, hrec⟩ := buildRebuilt_recovers rfl hbuilt
    obtain rfl := recoverProjectRoots_roots hjournals hrec
    refine ⟨db, ⟨by simp [rebuiltDisk, hbuilt], rfl, ?_, ?_, rfl, ⟨counts, hbuilt⟩, hjournals⟩⟩
    · cases hc : checkRequest plainSystem (plainRequest false) (rebuiltDisk work) with
      | error e => rw [hc] at h; cases h.1
      | ok u => rfl
    · change requireMetadata db (homeRoots work) = .ok ()
      cases hc : requireMetadata db (homeRoots work) with
      | error e => rw [hc] at h; cases h.2
      | ok u => rfl
  · cases h

/-- The files of a card and its child. -/
def familyFiles : Tree :=
  ((runCalls (plainEnv fun _ => []) World.empty [.create (plainCard idA "a" none 1) "" none,
    .create (plainCard idB "b" (some idA) 2) "" none]).repo.work.insert
      ".holder/privacy.json" []).insert ".holder/project.json" []

/-- When the child's file is gone, the parent is rebuilt. -/
theorem lostChild_reopens : ∃ db,
    (Reopens plainSystem (plainRequest false) (rebuiltDisk familyFiles) db
      (homeRoots (familyFiles.erase (livePath idB))) ↔
        AllParentsLeft (homeRoots (familyFiles.erase (livePath idB))) db ∧
          AllLinksLeft (homeRoots (familyFiles.erase (livePath idB))) db ∧
          AllThreadsLeft plainSystem (homeRoots (familyFiles.erase (livePath idB))) db) := by
  have hrebuild : canRebuild familyFiles = true := by decide +kernel
  have hfile : CardFile false (livePath idB) := by
    unfold CardFile
    decide +kernel
  obtain ⟨db, hset⟩ := rebuiltDisk_settled hrebuild
  exact ⟨db, reopens_iff plainSystem_cardBlind hset rfl rfl (homeRoots_lost (.erase hfile))⟩

/-- Whether a rebuild from a disk throws. -/
def rebuildThrows (disk : Disk ℚ Unit) : Bool :=
  match rebuildDatabaseProjection plainSystem (plainRequest false) disk with
  | .ok _ _ => false
  | .error _ _ => true

theorem not_reopens {disk : Disk ℚ Unit} {db : Database ℚ Unit} {roots' : Map String ProjectRoot}
    (h : rebuildThrows { disk with roots := roots' } = true) :
    ¬ Reopens plainSystem (plainRequest false) disk db roots' := by
  intro hreopens
  unfold rebuildThrows at h
  split at h
  · cases h
  · next e disk' hrun => exact hreopens.error hrun

/-- When the parent's file is gone, nothing is rebuilt. -/
theorem lostParent_blocks : ∃ db,
    UpToDate plainSystem (plainRequest false) (rebuiltDisk familyFiles) db ∧
      CardBlind plainSystem ∧
      LostRoots (homeRoots familyFiles) (homeRoots (familyFiles.erase (livePath idA))) ∧
      ¬ Reopens plainSystem (plainRequest false) (rebuiltDisk familyFiles) db
        (homeRoots (familyFiles.erase (livePath idA))) := by
  have hruns : canRebuild familyFiles = true ∧ rebuildThrows { rebuiltDisk familyFiles with
      roots := homeRoots (familyFiles.erase (livePath idA)) } = true := by decide +kernel
  have hfile : CardFile false (livePath idA) := by
    unfold CardFile
    decide +kernel
  obtain ⟨db, hset⟩ := rebuiltDisk_settled hruns.1
  exact ⟨db, hset, plainSystem_cardBlind, homeRoots_lost (.erase hfile), not_reopens hruns.2⟩

end HolderCore
