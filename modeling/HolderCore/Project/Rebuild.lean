import HolderCore.Card.Mutation

/-! # Rebuilding a project

`project/Rebuilder.cpp`: the card rows that a working tree stands for, and the rebuild that settles
an interrupted card change first. Resources, locations and AI messages are read from directories of
their own and are not part of the model. -/

namespace HolderCore

/-! ## Reading the card files -/

/-- The last component of a path. -/
def fileName (path : String) : List Char := (splitSlash path.toList).getLastD []

/-- `path.extension() == ".md"`: a name that is only `.md` has no extension. -/
def isMarkdown (path : String) : Bool :=
  ".md".toList.isSuffixOf (fileName path) && decide (3 < (fileName path).length)

/-- `path.stem()` of a markdown file. -/
def fileStem (path : String) : String :=
  String.ofList ((fileName path).take ((fileName path).length - 3))

def collectFiles (env : Env K) (work : Tree) (base : String) : List String :=
  env.directoryOrder (work.keys.filter fun path => startsWith (base ++ "/") path.toList && isMarkdown path)

/-- A UUID of version 4 or 7. -/
def isValidUuid (value : String) : Bool :=
  let cs := value.toList
  cs.length == 36 &&
    (cs.mapIdx fun i c =>
      if i == 8 || i == 13 || i == 18 || i == 23 then c == '-' else isHexDigit c).all id &&
    cs[14]?.any (fun c => c == '4' || c == '7') &&
    cs[19]?.any (fun c => c == '8' || c == '9' || c == 'a' || c == 'A' || c == 'b' || c == 'B')

/-- The first line of a body as a heading, else the fallback. -/
def deriveTitle (body fallback : String) : String :=
  let line := body.toList.takeWhile (· != '\n')
  match line.dropWhile fun c => c == ' ' || c == '\t' || c == '\r' with
  | '#' :: rest =>
    match rest.dropWhile fun c => c == '#' || c == ' ' || c == '\t' with
    | [] => fallback
    | title => String.ofList title
  | _ => fallback

structure CardRecord (K : Type) where
  card : Card K
  body : String
  links : List CardLink
  milestones : List Milestone

section
variable [NatCast K] (env : Env K)

/-- A link of a loaded file under its card's id, with its defaults. -/
def recordLink (card : Card K) (link : CardLink) : CardLink :=
  { link with
    projectId := card.projectId
    fromCardId := card.cardId
    toType := if link.toType.isEmpty then "card" else link.toType
    kind := if link.kind.isEmpty then "ref" else link.kind
    createdAt := if link.createdAt ≤ 0 then card.createdAt else link.createdAt }

def recordMilestone (card : Card K) (milestone : Milestone) : Milestone :=
  let createdAt := if milestone.createdAt ≤ 0 then card.createdAt else milestone.createdAt
  { milestone with
    projectId := card.projectId
    cardId := card.cardId
    createdAt
    updatedAt := if milestone.updatedAt ≤ 0 then createdAt else milestone.updatedAt }

/-- The columns that `load_card_file` sets or defaults, once the id is known. -/
def recordCard (card : Card K) (body : String) (mtime : Int) (isTrash : Bool) : Card K :=
  let createdAt := if card.createdAt ≤ 0 then mtime else card.createdAt
  { card with
    projectId := env.project.projectId
    relPath := livePath card.cardId
    title := if card.title.isEmpty then deriveTitle body card.cardId else card.title
    createdAt
    updatedAt := if card.updatedAt ≤ 0 then createdAt else card.updatedAt
    deletedAt := if isTrash then some (card.deletedAt.getD mtime) else none }

def loadCardFile (path : String) (raw : Bytes) (isTrash : Bool) : Except Exn (CardRecord K) := do
  let parsed := parseCardFile env.yaml (← decodeBlobForProject env raw)
  if startsWith "---\n" raw && !parsed.hasFrontMatter then
    throw (.runtimeError "invalid card front matter")
  if parsed.hasFrontMatter && parsed.card.cardId.isEmpty then
    throw (.runtimeError "card_id missing in front matter")
  let card := if parsed.card.cardId.isEmpty then { parsed.card with cardId := fileStem path }
    else parsed.card
  if !isValidUuid card.cardId then
    throw (.runtimeError "invalid card_id in file: expected UUIDv4 or UUIDv7")
  let expected ← if isTrash then cardTrashRelPath card.cardId else cardRelPath card.cardId
  if path ≠ expected then throw (.runtimeError "card path does not match card_id")
  let card := recordCard env card parsed.body (env.lastWriteTime path) isTrash
  return {
    card
    body := parsed.body
    links := parsed.links.map (recordLink card)
    milestones := parsed.milestones.map (recordMilestone card) }

/-- The records of the live files, then of the trashed ones. -/
def loadCardFiles (work : Tree) : Except Exn (List (CardRecord K)) := do
  let live ← (collectFiles env work "cards").mapM fun path =>
    loadCardFile env path (work[path]?.getD []) false
  let trash ← (collectFiles env work "trash/cards").mapM fun path =>
    loadCardFile env path (work[path]?.getD []) true
  return live ++ trash

end

/-! ## Inserting the records -/

section
variable (env : Env K)

def insertRecord (record : CardRecord K) : DbM K Unit := do
  let card := record.card
  CardRepo.create card
  if card.deletedAt.isNone then
    (if env.fts then FtsIndexer.upsertCard card.cardId card.projectId card.title record.body
      else pure ())
    TagRepo.setTagsForCard card.projectId card.cardId (env.extractTags record.body) card.createdAt
    if !record.milestones.isEmpty then
      MilestoneRepo.replaceForCard card.projectId card.cardId record.milestones

/-- One pass over the records left: insert those whose parent was inserted, keep the others. -/
def insertPass : (inserted : List String) → List (CardRecord K) →
    DbM K (List String × List (CardRecord K))
  | inserted, [] => return (inserted, [])
  | inserted, record :: records => do
    if record.card.parentCardId.all inserted.contains then
      insertRecord env record
      insertPass (record.card.cardId :: inserted) records
    else
      let (inserted, left) ← insertPass inserted records
      return (inserted, record :: left)

/-- Passes until no record is left. A pass that inserts nothing throws, so there are at most as
many passes as records. -/
def insertPasses : (fuel : Nat) → (inserted : List String) → List (CardRecord K) → DbM K Unit
  | _, _, [] => return
  | 0, _, _ => throw (.runtimeError "unresolved parent_card_id during rebuild")
  | fuel + 1, inserted, records => do
    let (inserted, left) ← insertPass env inserted records
    if left.length = records.length then
      throw (.runtimeError "unresolved parent_card_id during rebuild")
    insertPasses fuel inserted left

def insertLinks : List (CardRecord K) → DbM K Unit
  | [] => return
  | record :: records => do
    LinkRepo.upsertLinks record.card.projectId record.card.cardId record.links
    insertLinks records

def insertRecords (records : List (CardRecord K)) : DbM K Unit := do
  insertPasses env records.length [] records
  insertLinks records

end

/-- The rows a working tree stands for. -/
def projection [NatCast K] (env : Env K) (work : Tree) : Except Exn (Db K) := do
  let records ← loadCardFiles env work
  match insertRecords env records Db.empty with
  | .ok _ db => return db
  | .error e _ => throw e

/-! ## Rebuilding -/

/-- The rebuild of the tables in one transaction; the journal is removed once it committed. -/
def rebuildSteps [NatCast K] (env : Env K) (w : World K) : List (Step K) :=
  match projection env w.repo.work with
  | .ok db => [.commitTx db, .removeJournal]
  | .error e => [.raise e]

/-- The steps of `Rebuilder::rebuild_project`. -/
def settleSteps [NatCast K] (env : Env K) (w : World K) : List (Step K) :=
  expand env [recoverySteps, rebuildSteps env] w

def rebuildProject [NatCast K] (env : Env K) : StoreM K Unit := fun w =>
  match runSteps env (settleSteps env w) w with
  | .ok w' => .ok () w'
  | .error (e, w') => .error e w'

end HolderCore
