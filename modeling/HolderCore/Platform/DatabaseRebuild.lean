import HolderCore.Project.Rebuild

/-! # Rebuilding the database

`platform/DatabaseRebuild.cpp`: the audit of the old database, which takes out the cards whose files
are gone, the new database that `recover_project_roots` builds from the files, and the exchange of
the two. Paths have fixed roles and are not spelled out; the tables other than those of the projects
and their cards, JSON and SQLite's own checks are parameters, and so is which of the operations that
can fail do. A table of cards is kept project by project, and an id that two projects share breaks its
primary key. The links of messages are among the other tables. -/

namespace HolderCore

/-- A row of `projects`. -/
structure ProjectRow where
  project : Project
  rootPath : String

/-- A database: the rows of each project and the other tables. -/
structure Database (K O : Type) where
  projects : Map String (ProjectRow × Db K)
  other : O

/-- A database file, by its health. -/
inductive DatabaseFile (K O : Type) where
  | missing
  | healthy (db : Database K O)
  | corrupt (bytes : Bytes)
  | ioError (detail : String)

/-- One project directory. -/
structure ProjectRoot where
  repo : Repo
  journal : Option Journal

/-- One entry of `quarantined-cards.json`, without its time. -/
structure QuarantineEntry where
  cardId : String
  projectId : String
  title : String
  wasTrashed : Bool
deriving DecidableEq, Repr

structure Disk (K O : Type) where
  database : DatabaseFile K O
  /-- Whether an artifact of an earlier rebuild was left behind. -/
  stale : Bool
  roots : Map String ProjectRoot
  /-- The backup directories' databases, the last one first. -/
  backups : List (DatabaseFile K O)
  /-- The quarantine log, or that the file there is not a JSON array. -/
  log : Option (Option (List QuarantineEntry))

/-- The operations that can fail for a reason outside the program. -/
inductive Point where
  | deleteCard (cardId : String)
  | writeLog
  | createBackup
  | moveSidecars
  | replace
  | moveBack
  | moveSidecarsBack
deriving DecidableEq, Repr

/-- The number of rows of each durable table. -/
structure Counts where
  projects : Nat
  cards : Nat
  cardLinks : Nat
  milestones : Nat
  other : List Nat
deriving DecidableEq, Repr

/-- The parameters of a rebuild of the database. -/
structure RebuildSystem (K O : Type) where
  /-- The parameters of the projects, each with its own `project`. -/
  env : Env K
  /-- `read_project_manifest`, over the files of a root. -/
  readProjectManifest : Tree → Except Exn Project
  /-- The tables that the schema creates. -/
  applySchema : (schemaSql : String) → Except Exn O
  /-- The audits of the other tables' files. -/
  auditOther : Map String ProjectRow → O → Map String ProjectRoot → Except Exn Unit
  /-- The cards that the manifests of the threads name. -/
  threadCards : Project → Tree → List String
  /-- The other tables' part of `rebuild_project`, once the cards of the threads are there. -/
  rebuildOther : Project → Tree → O → Except Exn O
  otherCounts : O → List Nat
  /-- `validate_database`. -/
  validateDatabase : Database K O → (expectedSchemaVersion : Nat) → Except Exn Unit
  /-- The file of a database without its write-ahead log. -/
  withoutSidecars : Database K O → DatabaseFile K O
  /-- Which of the operations that can fail do. -/
  fails : Point → Bool

/-- The callbacks of a request. The two audits read. -/
structure DatabaseRebuildHooks (K O : Type) where
  auditExisting : Database K O → Except Exn Unit
  restoreBeforeProjects : Database K O → Except Exn (Database K O)
  restoreAfterProjects : Database K O → Except Exn (Database K O)
  validateRebuilt : Database K O → Except Exn Unit

structure DatabaseRebuildRequest (K O : Type) where
  databasePath : String
  schemaSql : String
  expectedSchemaVersion : Nat
  projectRoots : List String
  /-- A label and whether its file is there. -/
  requiredAuthorities : List (String × Bool)
  durableOwnershipReady : Bool
  dryRun : Bool
  hooks : DatabaseRebuildHooks K O

structure DatabaseRebuildReport where
  dryRun : Bool
  previousHealth : String
  counts : Counts
  quarantinedCards : Nat
  /-- Whether the previous database is in a new backup directory. -/
  backedUp : Bool
deriving DecidableEq, Repr

def healthName : DatabaseFile K O → String
  | .missing => "missing"
  | .healthy _ => "healthy"
  | .corrupt _ => "corrupt"
  | .ioError _ => "io_error"

/-- `std::filesystem::is_regular_file(root / rel)`. -/
def isRegularFile (roots : Map String ProjectRoot) (rootPath rel : String) : Bool :=
  roots[rootPath]?.any fun root => root.repo.work.contains rel

def durableCounts (otherCounts : O → List Nat) (db : Database K O) : Counts :=
  let rows := db.projects.rows.map (·.2)
  { projects := db.projects.size
    cards := (rows.map fun r => r.cards.size).sum
    cardLinks := (rows.map fun r => r.cardLinks.size).sum
    milestones := (rows.map fun r => r.milestones.size).sum
    other := otherCounts db.other }

/-- `normalized_roots`, of paths that are canonical. -/
def normalizedRoots (roots : List String) : List String := (roots.insertionSort (· ≤ ·)).dedup

/-! ## The audit of the old database -/

/-- `FROM cards c JOIN projects p USING(project_id)`: the root of the project, its id, and the card. -/
def cardRows (db : Database K O) : List (String × String × String × Card K) :=
  db.projects.toList.flatMap fun (projectId, row, rows) =>
    rows.cards.toList.map fun (cardId, card) => (row.rootPath, projectId, cardId, card)

/-- The entry of a card whose file is missing. -/
def missingCard (roots : Map String ProjectRoot) (row : String × String × String × Card K) :
    Except Exn (Option QuarantineEntry) := do
  let (rootPath, projectId, cardId, card) := row
  let deleted := card.deletedAt.isSome
  let rel ← if deleted then cardTrashRelPath cardId else cardRelPath cardId
  return if isRegularFile roots rootPath rel then none
    else some { cardId, projectId, title := card.title, wasTrashed := deleted }

def missingCards (db : Database K O) (roots : Map String ProjectRoot) :
    Except Exn (List QuarantineEntry) := do
  return (← (cardRows db).mapM (missingCard roots)).filterMap id

/-- `DELETE FROM cards WHERE card_id = ?` on the rows of a project. -/
def deleteCardRows (cardId : String) (rows : Db K) : Db K :=
  { rows with
    cards := (rows.cards.erase cardId).map fun _ (c : Card K) =>
      if c.parentCardId == some cardId then { c with parentCardId := none } else c
    cardTags := rows.cardTags.filter fun _ t => t.cardId != cardId
    milestones := rows.milestones.filter fun _ m => m.cardId != cardId }

def Database.deleteCard (db : Database K O) (cardId : String) : Database K O :=
  { db with projects := db.projects.map fun _ p => (p.1, deleteCardRows cardId p.2) }

abbrev RebuildM (K O : Type) := EStateM Exn (Disk K O)

/-- `append_quarantine_log`: a log that cannot be read is begun anew. -/
def appendQuarantineLog (sys : RebuildSystem K O) (entries : List QuarantineEntry) :
    RebuildM K O Unit := do
  if entries.isEmpty then return
  if sys.fails .writeLog then throw (.runtimeError "failed to write quarantine log")
  modify fun d => { d with log := some (some ((d.log.join.getD []) ++ entries)) }

/-- The deletions, one statement each; the database file is the old one. -/
def deleteCards (sys : RebuildSystem K O) : Database K O → List QuarantineEntry →
    RebuildM K O (Database K O)
  | db, [] => return db
  | db, entry :: entries => do
    if sys.fails (.deleteCard entry.cardId) then throw (.runtimeError "card quarantine delete failed")
    modify fun d => { d with database := .healthy (db.deleteCard entry.cardId) }
    deleteCards sys (db.deleteCard entry.cardId) entries

def quarantineCardsWithMissingFiles (sys : RebuildSystem K O) (db : Database K O) :
    RebuildM K O (Database K O × Nat) := do
  let missing ← fromExcept (missingCards db (← get).roots)
  let db ← deleteCards sys db missing
  appendQuarantineLog sys missing
  return (db, missing.length)

/-- Both metadata files of every project. -/
def requireMetadata (db : Database K O) (roots : Map String ProjectRoot) : Except Exn Unit :=
  if db.projects.rows.all fun p => isRegularFile roots p.1.rootPath ".holder/privacy.json" &&
      isRegularFile roots p.1.rootPath ".holder/project.json" then .ok ()
  else .error (.runtimeError
    "project metadata exists only in SQLite or has a missing durable file")

def auditCoreDurableOwnership (sys : RebuildSystem K O) (db : Database K O) :
    RebuildM K O (Database K O × Nat) := do
  fromExcept (requireMetadata db (← get).roots)
  let (db, quarantined) ← quarantineCardsWithMissingFiles sys db
  fromExcept (sys.auditOther (db.projects.map fun _ p => p.1) db.other (← get).roots)
  return (db, quarantined)

/-! ## The new database -/

abbrev RootsM := EStateM Exn (Map String ProjectRoot)

/-- No two projects share a card or a milestone. -/
def idsFree (projects : Map String (ProjectRow × Db K)) (rows : Db K) : Bool :=
  projects.rows.all fun p =>
    p.2.cards.keys.all (fun id => !rows.cards.contains id) &&
      p.2.milestones.keys.all fun id => !rows.milestones.contains id

/-- `ai_threads.card_id` refers to a card of any project. -/
def hasCard (projects : Map String (ProjectRow × Db K)) (cardId : String) : Bool :=
  projects.rows.any fun p => p.2.cards.contains cardId

/-- One root of `recover_project_roots`, when a manifest is required: an interrupted card change is
settled, the project's rows are inserted, and the journal is removed. -/
def recoverProjectRoot [NatCast K] (sys : RebuildSystem K O) (db : Database K O) (rootPath : String) :
    RootsM (Database K O) := do
  match (← get)[rootPath]? with
  | none => throw (.runtimeError ("project has no durable manifest: " ++ rootPath))
  | some root =>
    let project ← fromExcept (sys.readProjectManifest root.repo.work)
    if let some (row, _) := db.projects[project.projectId]? then
      if row.rootPath != rootPath then
        throw (.runtimeError
          ("duplicate project_id discovered at different roots: " ++ project.projectId))
      return db
    let env := { sys.env with project }
    let w : World K := ⟨Db.empty, root.repo, root.journal, 0⟩
    match runSteps env (recoverySteps w) w with
    | .error (e, w) =>
      modify fun roots => roots.insert rootPath ⟨w.repo, w.journal⟩
      throw e
    | .ok w =>
      modify fun roots => roots.insert rootPath ⟨w.repo, w.journal⟩
      let rows ← fromExcept (projection env w.repo.work)
      if !idsFree db.projects rows then
        throw (.runtimeError "insert card failed: UNIQUE constraint failed: cards.card_id")
      let projects := db.projects.insert project.projectId (⟨project, rootPath⟩, rows)
      if !(sys.threadCards project w.repo.work).all (hasCard projects) then
        throw (.runtimeError "insert ai thread failed: FOREIGN KEY constraint failed")
      let other ← fromExcept (sys.rebuildOther project w.repo.work db.other)
      modify fun roots => roots.insert rootPath ⟨w.repo, none⟩
      return { projects, other }

def recoverProjectRoots [NatCast K] (sys : RebuildSystem K O) : Database K O → List String →
    RootsM (Database K O)
  | db, [] => return db
  | db, rootPath :: rootPaths => do
    let db ← recoverProjectRoot sys db rootPath
    recoverProjectRoots sys db rootPaths

/-- The temporary database, with its counts; `oldCounts` are those of a healthy old one. -/
def buildRebuilt [NatCast K] (sys : RebuildSystem K O) (request : DatabaseRebuildRequest K O)
    (oldCounts : Option Counts) : RootsM (Database K O × Counts) := do
  let other ← fromExcept (sys.applySchema request.schemaSql)
  let db ← fromExcept (request.hooks.restoreBeforeProjects { projects := ∅, other })
  let db ← recoverProjectRoots sys db (normalizedRoots request.projectRoots)
  let db ← fromExcept (request.hooks.restoreAfterProjects db)
  fromExcept (sys.validateDatabase db request.expectedSchemaVersion)
  fromExcept (request.hooks.validateRebuilt db)
  let newCounts := durableCounts sys.otherCounts db
  if oldCounts.any (· != newCounts) then
    throw (.runtimeError "rebuilt database durable object counts do not match source database")
  return (db, newCounts)

/-! ## The rebuild -/

/-- The roots' manifests can be read and name different projects. -/
def checkRoots (sys : RebuildSystem K O) (roots : Map String ProjectRoot) :
    (projectIds : List String) → List String → Except Exn Unit
  | _, [] => .ok ()
  | projectIds, rootPath :: rootPaths => do
    match roots[rootPath]? with
    | none => throw (.runtimeError ("registered project root is unavailable: " ++ rootPath))
    | some root =>
      let project ← sys.readProjectManifest root.repo.work
      if projectIds.contains project.projectId then
        throw (.runtimeError ("duplicate project_id in discovered roots: " ++ project.projectId))
      checkRoots sys roots (project.projectId :: projectIds) rootPaths

/-- Whether the rebuild has no old database to go by. -/
def recovers (request : DatabaseRebuildRequest K O) : DatabaseFile K O → Bool
  | .corrupt _ => true
  | .missing => !request.projectRoots.isEmpty
  | _ => false

/-- The checks before the old database is opened. -/
def checkRequest (sys : RebuildSystem K O) (request : DatabaseRebuildRequest K O) (disk : Disk K O) :
    Except Exn Unit := do
  if request.databasePath.isEmpty || request.schemaSql.isEmpty then
    throw (.invalidArgument "database path and schema SQL are required")
  if let .ioError detail := disk.database then
    throw (.runtimeError ("database I/O failure is not safe to rebuild: " ++ detail))
  if recovers request disk.database && !request.durableOwnershipReady then
    throw (.runtimeError "database was preserved because durable ownership is not ready")
  if recovers request disk.database then
    if let some (label, _) := request.requiredAuthorities.find? (!·.2) then
      throw (.runtimeError ("database recovery authority is missing its " ++ label))
  checkRoots sys disk.roots [] (normalizedRoots request.projectRoots)

/-- The new database takes the old one's place, which moves to a backup directory. -/
def replaceDatabase (sys : RebuildSystem K O) (rebuilt : Database K O) : RebuildM K O Bool := do
  let old := (← get).database
  let backedUp := match old with
    | .missing => false
    | _ => true
  if backedUp then
    if sys.fails .createBackup then throw (.runtimeError "failed to create backup directory")
    modify fun d => { d with database := .missing, backups := old :: d.backups }
    if sys.fails .moveSidecars then throw (.runtimeError "failed to move database sidecars")
  if sys.fails .replace then
    -- A healthy database is moved back; a corrupt one stays in the backup directory.
    match old with
    | .healthy db =>
      if sys.fails .moveBack then throw (.runtimeError "failed to move database back")
      modify fun d => { d with database := sys.withoutSidecars db, backups := d.backups.tail }
      if sys.fails .moveSidecarsBack then
        throw (.runtimeError "failed to move database sidecars back")
      modify fun d => { d with database := old }
    | _ => modify fun d => { d with database := .missing }
    throw (.runtimeError "failed to replace database")
  modify fun d => { d with database := .healthy rebuilt }
  return backedUp

/-- Run a program of the project directories on the disk. -/
def onRoots (m : RootsM α) : RebuildM K O α := fun d =>
  match m d.roots with
  | .ok a roots => .ok a { d with roots }
  | .error e roots => .error e { d with roots }

def auditOld (sys : RebuildSystem K O) (request : DatabaseRebuildRequest K O) :
    RebuildM K O (Nat × Option Counts) := do
  match (← get).database with
  | .healthy db =>
    let (db, quarantined) ← auditCoreDurableOwnership sys db
    fromExcept (request.hooks.auditExisting db)
    return (quarantined, some (durableCounts sys.otherCounts db))
  | _ => return (0, none)

def rebuildDatabaseProjection [NatCast K] (sys : RebuildSystem K O)
    (request : DatabaseRebuildRequest K O) : RebuildM K O DatabaseRebuildReport := do
  let disk ← get
  fromExcept (checkRequest sys request disk)
  let previousHealth := healthName disk.database
  let (quarantinedCards, oldCounts) ← auditOld sys request
  if disk.stale then throw (.runtimeError "stale rebuild temporary database exists")
  let (rebuilt, counts) ← onRoots (buildRebuilt sys request oldCounts)
  if request.dryRun then
    return { dryRun := true, previousHealth, counts, quarantinedCards, backedUp := false }
  let backedUp ← replaceDatabase sys rebuilt
  return { dryRun := false, previousHealth, counts, quarantinedCards, backedUp }

end HolderCore
