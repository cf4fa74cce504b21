import HolderCore.Card.Placement
import HolderCore.Card.Tags
import HolderCore.Project.Rebuild

/-! # The card store

The write operations of `card/CardStore.cpp`. A call reads rows before it takes the project lock,
may return on them, and does the rest under the lock: `Entry` is a call up to that point. -/

namespace HolderCore

inductive AddTagResult where
  | added | alreadyPresent | invalidTag
deriving DecidableEq, Repr

inductive RemoveTagResult where
  | removed | notPresent | presentOutsideEditableTagLine | invalidTag
deriving DecidableEq, Repr

inductive TrashChildren where
  | promote | trashSubtree
deriving DecidableEq, Repr

structure MilestoneUpdate where
  startAt : Option Int := none
  hasEndAt : Bool := false
  endAt : Option Int := none
  allDay : Option Bool := none
  hasKind : Bool := false
  kind : Option String := none
  hasDescription : Bool := false
  description : Option String := none
deriving DecidableEq, Repr

structure BatchCardInput where
  cardId : String
  title : String
  content : String
  createdAt : Int
  updatedAt : Int
  links : List CardLink
  milestones : List Milestone

/-- What a call returns. -/
inductive Result (K : Type) where
  | done
  | moved (card : Option (Card K)) (movedIntoTitle : Option String)
  | milestone (updated : Option Milestone)
  | addTag (outcome : AddTagResult)
  | removeTag (outcome : RemoveTagResult)
  | repaired (plan : HierarchyRepairPlan K)
deriving DecidableEq, Repr

/-- A call up to the project lock. -/
inductive Entry (K : Type) where
  | returned (result : Except Exn (Result K))
  | locked (rest : StoreM K (Result K))

def cardNotFound (cardId : String) : Exn := .runtimeError ("card not found: " ++ cardId)

namespace CardStore

section
variable [SortKey K] (env : Env K)

/-- The project, once an interrupted change is settled. -/
def requireProject (projectId : String) : StoreM K Unit := do
  if projectId ≠ env.project.projectId then
    throw (.runtimeError ("project not found: " ++ projectId))
  if (← get).journal.isSome then rebuildProject env

/-! ## Files -/

def assertStaged (paths : List String) : StoreM K Unit := do
  fromExcept (assertProjectStagedBlobsSafe env (← get).repo.staged paths)

def commit (message : String) : StoreM K Unit :=
  onRepo fun r => .ok (r.commit message)

def writeCardFile (card : Card K) (links : List CardLink) (milestones : List Milestone)
    (content : String) : StoreM K Unit := do
  let bytes ← encodeCardBlob env (renderCardFrontMatter env.yaml card links milestones ++ content.toList)
  onRepo fun r => .ok (r.writeFile card.relPath bytes)

/-- Stage a file that was written. -/
def stageCardFile (path : String) : StoreM K Unit := do
  onRepo (·.stagePath path)
  assertStaged env [path]

def checkRelPath (card : Card K) : Except Exn Unit := do
  if card.relPath ≠ (← cardRelPath card.cardId) then throw relPathMismatch

/-- The bytes of a card's file and what they parse to. -/
def readCardFile (path : String) : StoreM K (Bytes × ParsedCardFile K) := do
  match (← get).repo.work[path]? with
  | none => throw contentMissing
  | some raw => return (raw, parseCardFile env.yaml (← fromExcept (decodeCardBlob env raw)))

/-- Replace a card's file and stage it, unless that changes no byte. -/
def replaceCardFile (card : Card K) (links : List CardLink) (milestones : List Milestone)
    (body : String) (raw : Bytes) : StoreM K Bool := do
  let bytes ← encodeCardBlob env
    (renderCardFrontMatter env.yaml card links milestones ++ body.toList)
  if bytes = raw then return false
  onRepo fun r => .ok (r.writeFile card.relPath bytes)
  stageCardFile env card.relPath
  return true

/-! ## Creating -/

/-- The row of a new card: its sort key and its path. -/
def newCard (db : Db K) (card : Card K) (explicitSortKey : Option K) : Card K :=
  { card with
    sortKey := explicitSortKey.getD (CardRepo.nextSortKey db card.projectId card.parentCardId)
    relPath := livePath card.cardId }

def createLocked (card : Card K) (content : String) (explicitSortKey : Option K) :
    StoreM K Unit := do
  requireProject env card.projectId
  let w ← get
  fromExcept (validateCardParent w.db card)
  let expected ← fromExcept (cardRelPath card.cardId)
  if !card.relPath.isEmpty ∧ card.relPath ≠ expected then throw relPathMismatch
  let card := newCard w.db card explicitSortKey
  if w.db.cards.contains card.cardId then
    throw (.runtimeError "conflict: card_id already exists")
  if w.repo.work.contains card.relPath then
    throw (.runtimeError "conflict: card file already exists")
  writeCardFile env card (LinkRepo.listOutgoing w.db card.projectId card.cardId) [] content
  stageCardFile env card.relPath
  tryCatch (onDb (CardRepo.create card)) fun e => do
    onRepo fun r => .ok { r with work := r.work.erase card.relPath }
    throw e
  ftsUpsertCard env card.cardId card.projectId card.title content
  onDb (TagRepo.setTagsForCard card.projectId card.cardId (env.extractTags content) card.createdAt)
  commit ("Add card " ++ card.title)

/-- Run statements and file writes inside a transaction: a throw takes the statements back. -/
def inTx (m : StoreM K α) : StoreM K α := fun w =>
  match m w with
  | .ok a w' => .ok a w'
  | .error e w' => .error e { w' with db := w.db }

/-- The ids the batch's cards are written under. -/
def idRemap (generateId : Nat → String) (items : List BatchCardInput) : Map String String :=
  items.zipIdx.foldl (fun m (item, i) => m.insert item.cardId (generateId i)) ∅

def batchCard (projectId cardId : String) (sortKey : K) (item : BatchCardInput) : Card K where
  cardId
  projectId
  title := item.title
  relPath := livePath cardId
  parentCardId := none
  sortKey
  createdAt := item.createdAt
  updatedAt := item.updatedAt
  deletedAt := none

/-- The links between the batch's own cards. -/
def batchLinks (remap : Map String String) (card : Card K) (item : BatchCardInput) :
    List CardLink :=
  item.links.filterMap fun link =>
    if link.toType ≠ "card" then none
    else remap[link.toCardId]?.map fun toCardId => { link with
      toCardId
      projectId := card.projectId
      fromCardId := card.cardId
      createdAt := if link.createdAt ≤ 0 then card.updatedAt else link.createdAt }

def batchMilestones (uuidV4 : Nat → String) (drawn : Nat) (card : Card K) (item : BatchCardInput) :
    List Milestone :=
  item.milestones.mapIdx fun i milestone => { milestone with
    milestoneId := uuidV4 (drawn + i)
    projectId := card.projectId
    cardId := card.cardId
    createdAt := if milestone.createdAt ≤ 0 then card.updatedAt else milestone.createdAt
    updatedAt := if milestone.updatedAt ≤ 0 then card.updatedAt else milestone.updatedAt }

def createBatchItem (projectId : String) (remap : Map String String) (uuidV4 : Nat → String)
    (drawn : Nat) (item : BatchCardInput) : StoreM K String := do
  let cardId := remap[item.cardId]?.getD ""
  let relPath ← fromExcept (cardRelPath cardId)
  let card := batchCard projectId cardId (CardRepo.nextSortKey (← get).db projectId none) item
  let links := batchLinks remap card item
  let milestones := batchMilestones uuidV4 drawn card item
  writeCardFile env card links milestones item.content
  onDb (CardRepo.create card)
  ftsUpsertCard env card.cardId card.projectId card.title item.content
  onDb (TagRepo.setTagsForCard projectId cardId (env.extractTags item.content) card.updatedAt)
  onDb (LinkRepo.upsertLinks projectId cardId links)
  (if milestones.isEmpty then pure ()
    else onDb (MilestoneRepo.replaceForCard projectId cardId milestones))
  return relPath

def createBatchItems (projectId : String) (remap : Map String String) (uuidV4 : Nat → String) :
    (drawn : Nat) → List BatchCardInput → StoreM K (List String)
  | _, [] => return []
  | drawn, item :: items => do
    let path ← createBatchItem env projectId remap uuidV4 drawn item
    return path :: (← createBatchItems projectId remap uuidV4 (drawn + item.milestones.length) items)

def createBatchLocked (projectId : String) (items : List BatchCardInput)
    (generateId uuidV4 : Nat → String) (commitMessage : String) : StoreM K Unit := do
  requireProject env projectId
  let staged ← inTx (createBatchItems env projectId (idRemap generateId items) uuidV4 0 items)
  onRepo (·.stagePaths staged)
  assertStaged env staged
  if !items.isEmpty then commit commitMessage

/-! ## Editing -/

/-- The file of a card as it stands, if there is one. -/
def existingCardFile (path : String) : StoreM K (Option (ParsedCardFile K)) := do
  match (← get).repo.work[path]? with
  | none => return none
  | some raw => return some (parseCardFile env.yaml (← fromExcept (decodeCardBlob env raw)))

/-- Whether new content or a new title changes the file. -/
def fileChanged (card : Card K) (content : String) (title : Option String)
    (existing : Option (ParsedCardFile K)) : Bool :=
  !existing.any (·.body == content) || title.any (· != card.title)

/-- The file of `update_content`: the row read before the lock, the links of the database and the
milestones of the file. -/
def writeContent (card : Card K) (content : String) (title : Option String) (updatedAt : Int)
    (existing : Option (ParsedCardFile K)) : StoreM K Unit := do
  let links := LinkRepo.listOutgoing (← get).db card.projectId card.cardId
  writeCardFile env { card with title := title.getD card.title, updatedAt } links
    (existing.elim [] (·.milestones)) content
  stageCardFile env card.relPath

def storeTitle (cardId : String) (title : Option String) (updatedAt : Int) : DbM K Unit :=
  match title with
  | some title => CardRepo.updateTitle cardId title updatedAt
  | none => CardRepo.touchUpdated cardId updatedAt

/-- `update_content` under the lock, on the row read before it. -/
def updateContentLocked (card : Card K) (content : String) (title : Option String)
    (updatedAt : Int) : StoreM K Unit := do
  requireProject env card.projectId
  fromExcept (checkRelPath card)
  let existing ← existingCardFile env card.relPath
  let changed := fileChanged card content title existing
  (if changed then writeContent env card content title updatedAt existing else pure ())
  onDb (storeTitle card.cardId title updatedAt)
  ftsUpsertCard env card.cardId card.projectId (title.getD card.title) content
  onDb (TagRepo.setTagsForCard card.projectId card.cardId (env.extractTags content) updatedAt)
  if changed then commit ("Update card " ++ title.getD card.title)

/-- A nested call under the lock. -/
def updateContent (cardId content : String) (title : Option String) (updatedAt : Int) :
    StoreM K Unit := do
  match CardRepo.get? (← get).db cardId with
  | none => throw (cardNotFound cardId)
  | some card => updateContentLocked env card content title updatedAt

/-- `update_links` under the lock: the links of the database, the milestones of the file. -/
def updateLinksLocked (card : Card K) (updatedAt : Int) : StoreM K Unit := do
  requireProject env card.projectId
  fromExcept (checkRelPath card)
  let (raw, parsed) ← readCardFile env card.relPath
  let links := LinkRepo.listOutgoing (← get).db card.projectId card.cardId
  if ← replaceCardFile env { card with updatedAt } links parsed.milestones parsed.body raw then
    onDb (CardRepo.touchUpdated card.cardId updatedAt)
    commit ("Update links for " ++ card.title)

/-- `update_milestones` under the lock: the milestones of the database, the links of the file. -/
def updateMilestonesLocked (card : Card K) (updatedAt : Int) : StoreM K Unit := do
  requireProject env card.projectId
  fromExcept (checkRelPath card)
  let (raw, parsed) ← readCardFile env card.relPath
  let milestones := MilestoneRepo.listForCard (← get).db card.projectId card.cardId
  if ← replaceCardFile env { card with updatedAt } parsed.links milestones parsed.body raw then
    onDb (CardRepo.touchUpdated card.cardId updatedAt)
    commit ("Update milestones for " ++ card.title)

/-- The row of a card that must exist, read before the lock. -/
def withCard (db : Db K) (cardId : String) (rest : Card K → StoreM K Unit) : Entry K :=
  match CardRepo.get? db cardId with
  | none => .returned (.error (cardNotFound cardId))
  | some card => .locked do
    rest card
    return .done

def milestoneUpdated (update : MilestoneUpdate) (milestone : Milestone) : Milestone :=
  { milestone with
    startAt := update.startAt.getD milestone.startAt
    endAt := if update.hasEndAt then update.endAt else milestone.endAt
    allDay := update.allDay.getD milestone.allDay
    kind := if update.hasKind then update.kind else milestone.kind
    description := if update.hasDescription then update.description else milestone.description }

/-- `update_milestone` under the lock, on the row and the milestones read before it. -/
def updateMilestoneLocked (card : Card K) (milestones : List Milestone) (updatedAt : Int) :
    StoreM K Unit := do
  requireProject env card.projectId
  fromExcept (checkRelPath card)
  let (_, parsed) ← readCardFile env card.relPath
  writeCardFile env { card with updatedAt } parsed.links milestones parsed.body
  stageCardFile env card.relPath
  onDb (MilestoneRepo.replaceForCard card.projectId card.cardId milestones)
  onDb (CardRepo.touchUpdated card.cardId updatedAt)
  commit ("Update milestone for " ++ card.title)

/-- What `update_milestone` reads and decides before the lock: a result, or the card's row, its
milestones with the change and the changed milestone. -/
def updateMilestoneRead (db : Db K) (projectId cardId milestoneId : String)
    (update : MilestoneUpdate) (updatedAt : Int) :
    Except (Except Exn (Option Milestone)) (Card K × List Milestone × Milestone) := do
  let some card := (CardRepo.get? db cardId).filter fun c => c.projectId == projectId && c.live
    | throw (.ok none)
  let milestones := MilestoneRepo.listForCard db projectId cardId
  let some old := milestones.find? (·.milestoneId == milestoneId) | throw (.ok none)
  let updated := milestoneUpdated update old
  if updated.endAt.any (· < updated.startAt) then
    throw (.error (.invalidArgument "milestone end_at must not be before start_at"))
  if updated = old then throw (.ok (some old))
  let updated := { updated with updatedAt }
  return (card, milestones.map (fun m => if m.milestoneId == milestoneId then updated else m),
    updated)

def updateMilestoneEntry (db : Db K) (projectId cardId milestoneId : String)
    (update : MilestoneUpdate) (updatedAt : Int) : Entry K :=
  match updateMilestoneRead db projectId cardId milestoneId update updatedAt with
  | .error result => .returned (result.map .milestone)
  | .ok (card, milestones, updated) => .locked do
    updateMilestoneLocked env card milestones updatedAt
    return .milestone (some updated)

/-! ## Moving -/

/-- A row that was read before the lock, read again under it. -/
def rereadCard (cardId : String) : StoreM K (Card K) := do
  match CardRepo.get? (← get).db cardId with
  | some card => return card
  | none => throw (cardNotFound cardId)

def moveLocked (projectId cardId : String) (hasParentCardId : Bool) (parentCardId : Option String)
    (sortKey : Option K) (updatedAt : Int) : StoreM K Unit := do
  requireProject env projectId
  let card ← rereadCard cardId
  if card.deletedAt.isSome then throw (.runtimeError "card already deleted")
  fromExcept (checkRelPath card)
  let nextParent := if hasParentCardId then parentCardId else card.parentCardId
  let w ← get
  fromExcept (validateCardParent w.db { card with parentCardId := nextParent })
  let nextSort := sortKey.getD (if hasParentCardId ∧ nextParent ≠ card.parentCardId
    then CardRepo.nextSortKey w.db card.projectId nextParent else card.sortKey)
  if nextParent ≠ card.parentCardId ∨ nextSort ≠ card.sortKey then
    let (raw, parsed) ← readCardFile env card.relPath
    let links := LinkRepo.listOutgoing w.db card.projectId card.cardId
    let moved := { card with parentCardId := nextParent, sortKey := nextSort, updatedAt }
    if ← replaceCardFile env moved links parsed.milestones parsed.body raw then
      onDb (CardRepo.move cardId nextParent nextSort updatedAt)
      ftsUpsertCard env card.cardId card.projectId card.title parsed.body
      commit ("Move card " ++ card.title)

/-- A card's file under new placement columns, with the links of the database. -/
def placementChange (placed : Card K) : StoreM K (CardChange K) := do
  fromExcept (checkRelPath placed)
  let (_, parsed) ← readCardFile env placed.relPath
  let links := LinkRepo.listOutgoing (← get).db placed.projectId placed.cardId
  return { current := placed, target := { parsed with card := placed, links } }

/-- One card's change together with the placements it needs. -/
def applyWithPlacements (current : Card K) (target : ParsedCardFile K) (placements : List (Card K))
    (message : String) : StoreM K Unit := do
  let changes ← placements.mapM (placementChange env)
  applyCardChanges env (⟨current, target⟩ :: changes) message

def moveToLocked (projectId cardId : String) (request : CardPlacementRequest) (updatedAt : Int) :
    StoreM K (Result K) := do
  requireProject env projectId
  let w ← get
  let placement ← fromExcept
    (CardPlacementResolver.resolve w.db projectId cardId request updatedAt)
  let some card := CardRepo.get? w.db cardId | throw (.runtimeError "card_not_found")
  let moved := placement.parentCardId ≠ card.parentCardId ∨ placement.sortKey ≠ card.sortKey
  if ¬moved ∧ placement.siblingChanges.isEmpty then
    return .moved (some card) placement.movedIntoTitle
  fromExcept (checkRelPath card)
  let placed := { card with parentCardId := placement.parentCardId }
  fromExcept (validateCardParent w.db placed)
  let (_, parsed) ← readCardFile env card.relPath
  let target := { parsed with
    card := { placed with sortKey := placement.sortKey, updatedAt }
    links := LinkRepo.listOutgoing w.db card.projectId cardId }
  applyWithPlacements env card target placement.siblingChanges ("Move card " ++ card.title)
  return .moved (CardRepo.get? (← get).db cardId) placement.movedIntoTitle

def moveToEntry (db : Db K) (projectId cardId : String) (request : CardPlacementRequest)
    (updatedAt : Int) : Entry K :=
  match (CardRepo.get? db cardId).filter (·.live) with
  | none => .returned (.error (.runtimeError "card_not_found"))
  | some card =>
    if card.projectId ≠ projectId then
      .returned (.error (.runtimeError "cross_project_move_forbidden"))
    else .locked (moveToLocked env projectId cardId request updatedAt)

/-! ## Trash, restore, repair and delete -/

/-- The change that trashes a live card. -/
def trashedChange (deletedAt : Int) (live : Card K) : StoreM K (CardChange K) := do
  let change ← placementChange env live
  return { change with target.card :=
    { change.target.card with deletedAt := some deletedAt, updatedAt := deletedAt } }

/-- The cards the walk of a subtree has seen, those whose children it has yet to visit, and the
live ones it found. -/
structure SubtreeWalk (K : Type) where
  visited : List String
  pending : List String
  live : List (Card K)

def SubtreeWalk.see (walk : SubtreeWalk K) (child : Card K) : SubtreeWalk K :=
  if walk.visited.contains child.cardId then walk
  else {
    visited := child.cardId :: walk.visited
    pending := child.cardId :: walk.pending
    live := if child.live then walk.live ++ [child] else walk.live }

/-- Walk a whole subtree, through trashed cards. Each turn visits the children of another card. -/
def walkSubtree (children : String → List (Card K)) : (fuel : Nat) → SubtreeWalk K → SubtreeWalk K
  | 0, walk => walk
  | fuel + 1, walk =>
    match walk.pending with
    | [] => walk
    | parent :: pending =>
      walkSubtree children fuel ((children parent).foldl .see { walk with pending })

def liveDescendants (db : Db K) (projectId cardId : String) : List (Card K) :=
  (walkSubtree (CardRepo.listChildren db projectId) (db.cards.size + 1)
    ⟨[cardId], [cardId], []⟩).live

def trashMessage (title : String) (descendants : Nat) : String :=
  if descendants = 0 then "Delete card " ++ title
  else "Delete card " ++ title ++ " and " ++ toString descendants ++
    (if descendants = 1 then " descendant" else " descendants")

def trashLocked (projectId cardId : String) (deletedAt : Int) (children : TrashChildren) :
    StoreM K Unit := do
  requireProject env projectId
  let card ← rereadCard cardId
  if card.deletedAt.isSome then throw (.runtimeError "card already deleted")
  fromExcept (checkRelPath card)
  let change ← trashedChange env deletedAt card
  let w ← get
  match children with
  | .promote =>
    let placements ← fromExcept (promotedCardChildren w.db card deletedAt)
    applyWithPlacements env card change.target placements ("Delete card " ++ card.title)
  | .trashSubtree =>
    let descendants := liveDescendants w.db env.project.projectId cardId
    let changes ← descendants.mapM (trashedChange env deletedAt)
    applyCardChanges env (change :: changes) (trashMessage card.title descendants.length)

def repairMessage (moved : Nat) : String :=
  "Repair card hierarchy: " ++ toString moved ++
    (if moved = 1 then " hidden card made reachable" else " hidden cards made reachable")

def repairHierarchyLocked (projectId : String) (updatedAt : Int) : StoreM K (Result K) := do
  requireProject env projectId
  let plan ← fromExcept (planHierarchyRepair (← get).db projectId updatedAt)
  if plan.placements.isEmpty then return .repaired plan
  let changes ← plan.placements.mapM (placementChange env)
  applyCardChanges env changes (repairMessage plan.movedCardIds.length)
  return .repaired plan

def restoreLocked (projectId cardId : String) (updatedAt : Int) : StoreM K Unit := do
  requireProject env projectId
  let card ← rereadCard cardId
  if card.deletedAt.isNone then throw (.runtimeError "card is not deleted")
  let live ← fromExcept (cardRelPath cardId)
  let trash ← fromExcept (cardTrashRelPath cardId)
  if card.relPath ≠ live ∧ card.relPath ≠ trash then throw relPathMismatch
  let (_, parsed) ← readCardFile env trash
  let w ← get
  let (restored, placements) ← fromExcept
    (restoredCardPlacement w.db { card with deletedAt := none, updatedAt } updatedAt)
  let target := { parsed with
    card := restored, links := LinkRepo.listOutgoing w.db card.projectId cardId }
  applyWithPlacements env card target placements ("Restore card " ++ card.title)

/-- The card's file at a commit, and whether it was in the trash there. -/
def historicalBlob (r : Repo) (oid : Nat) (cardId : String) : Except Exn (Bytes × Bool) := do
  match ← r.readBlobAt oid (livePath cardId) with
  | some raw => return (raw, false)
  | none =>
    match ← r.readBlobAt oid (trashPath cardId) with
    | some raw => return (raw, true)
    | none => throw (.runtimeError "historical card content is missing")

/-- What the historical file is restored to. -/
def historicalRecord (current : Card K) (parsed : ParsedCardFile K) (isTrash : Bool)
    (updatedAt : Int) : ParsedCardFile K :=
  { parsed with
    card := { parsed.card with
      cardId := current.cardId
      projectId := current.projectId
      relPath := livePath current.cardId
      createdAt := current.createdAt
      updatedAt
      deletedAt := if isTrash then some updatedAt else none }
    links := parsed.links.map fun link =>
      { link with projectId := current.projectId, fromCardId := current.cardId }
    milestones := parsed.milestones.map fun milestone =>
      { milestone with projectId := current.projectId, cardId := current.cardId, updatedAt } }

/-- The placement of a historical record: a trashed one keeps its recorded parent and promotes the
card's children, a live one goes under a reachable parent. -/
def historicalPlacement (db : Db K) (current restored : Card K) (isTrash : Bool)
    (updatedAt : Int) : Except Exn (Card K × List (Card K)) :=
  if isTrash then (promotedCardChildren db current updatedAt).map (restored, ·)
  else restoredCardPlacement db restored updatedAt

def restoreVersionLocked (projectId cardId : String) (oid : Nat) (updatedAt : Int) :
    StoreM K Unit := do
  requireProject env projectId
  let current ← rereadCard cardId
  let expected ← fromExcept (cardRelPath cardId)
  let trash ← fromExcept (cardTrashRelPath cardId)
  if current.relPath ≠ expected ∧ ¬(current.deletedAt.isSome ∧ current.relPath = trash) then
    throw relPathMismatch
  let w ← get
  let (raw, isTrash) ← fromExcept (historicalBlob w.repo oid cardId)
  let plain ← fromExcept (decodeCardBlob env raw)
  if plain.contains '\x00' then throw (.runtimeError "historical card content is binary")
  let parsed := parseCardFile env.yaml plain
  if !parsed.hasFrontMatter ∨ parsed.card.cardId ≠ cardId ∨
      parsed.card.projectId ≠ current.projectId then
    throw (.runtimeError "historical card content is malformed")
  let record := historicalRecord current parsed isTrash updatedAt
  let (restored, placements) ← fromExcept
    (historicalPlacement w.db current record.card isTrash updatedAt)
  applyWithPlacements env current { record with card := restored } placements
    ("Restore card " ++ restored.title)

/-- `hard_delete` under the lock, on the row read before it. -/
def hardDeleteLocked (card : Card K) : StoreM K Unit := do
  requireProject env card.projectId
  let trash ← fromExcept (cardTrashRelPath card.cardId)
  let present := (← get).repo.work.contains trash
  (if present then onRepo fun r => .ok ({ r with work := r.work.erase trash }.removePath trash)
    else pure ())
  onDb (LinkRepo.deleteLinksFrom card.projectId card.cardId)
  onDb (LinkRepo.deleteLinksToTyped card.projectId card.cardId "card")
  onDb (TagRepo.deleteTagsForCard card.projectId card.cardId)
  onDb (MilestoneRepo.deleteForCard card.projectId card.cardId)
  onDb (CardRepo.remove card.cardId)
  commit ("Permanently delete card " ++ card.title)

def hardDeleteEntry (db : Db K) (cardId : String) : Entry K :=
  match CardRepo.get? db cardId with
  | none => .returned (.error (cardNotFound cardId))
  | some card =>
    if card.deletedAt.isNone then .returned (.error (.runtimeError "card is not deleted"))
    else .locked do
      hardDeleteLocked env card
      return .done

/-! ## Tags -/

/-- `get_content` on a row read earlier. -/
def getContent (card : Card K) : StoreM K (Option String) := do
  requireProject env card.projectId
  fromExcept (checkRelPath card)
  match (← get).repo.work[card.relPath]? with
  | none => return none
  | some raw =>
    return some (parseCardFile env.yaml (← fromExcept (decodeCardBlob env raw))).body

def addTagLocked (card : Card K) (normalized : String) (updatedAt : Int) :
    StoreM K AddTagResult := do
  requireProject env card.projectId
  let content := (← getContent env card).getD ""
  if (env.extractTags content).contains normalized then return .alreadyPresent
  updateContent env card.cardId (upsertTrailingTagLine content normalized) none updatedAt
  return .added

def addTagEntry (db : Db K) (cardId tag : String) (updatedAt : Int) : Entry K :=
  if !isValidTag tag then .returned (.ok (.addTag .invalidTag)) else
  match CardRepo.get? db cardId with
  | none => .returned (.error (cardNotFound cardId))
  | some card => .locked do return .addTag (← addTagLocked env card (normalizeTag tag) updatedAt)

def removeTagLocked (card : Card K) (normalized : String) (updatedAt : Int) :
    StoreM K RemoveTagResult := do
  requireProject env card.projectId
  let content := (← getContent env card).getD ""
  match removeFromTrailingTagLine content normalized with
  | none =>
    return if (env.extractTags content).contains normalized
      then .presentOutsideEditableTagLine else .notPresent
  | some newBody =>
    updateContent env card.cardId newBody none updatedAt
    return .removed

def removeTagEntry (db : Db K) (cardId tag : String) (updatedAt : Int) : Entry K :=
  if !isValidTag tag then .returned (.ok (.removeTag .invalidTag)) else
  match CardRepo.get? db cardId with
  | none => .returned (.error (cardNotFound cardId))
  | some card =>
    .locked do return .removeTag (← removeTagLocked env card (normalizeTag tag) updatedAt)

end

end CardStore

/-! ## Calls -/

/-- The write operations of `CardStore` with their arguments. -/
inductive Call (K : Type) where
  | create (card : Card K) (content : String) (explicitSortKey : Option K)
  | createBatch (projectId : String) (items : List BatchCardInput)
      (generateId uuidV4 : Nat → String) (commitMessage : String)
  | updateContent (cardId content : String) (title : Option String) (updatedAt : Int)
  | move (cardId : String) (hasParentCardId : Bool) (parentCardId : Option String)
      (sortKey : Option K) (updatedAt : Int)
  | moveTo (projectId cardId : String) (request : CardPlacementRequest) (updatedAt : Int)
  | updateLinks (cardId : String) (updatedAt : Int)
  | updateMilestones (cardId : String) (updatedAt : Int)
  | updateMilestone (projectId cardId milestoneId : String) (update : MilestoneUpdate)
      (updatedAt : Int)
  | trash (cardId : String) (deletedAt : Int) (children : TrashChildren)
  | restore (cardId : String) (updatedAt : Int)
  /-- A missing id stands for the empty string. -/
  | restoreVersion (cardId : String) (historicalOid : Option Nat) (updatedAt : Int)
  | repairHierarchy (projectId : String) (updatedAt : Int)
  | hardDelete (cardId : String)
  | addTag (cardId tag : String) (updatedAt : Int)
  | removeTag (cardId tag : String) (updatedAt : Int)

namespace Call
open CardStore
variable [SortKey K] (env : Env K)

/-- What a call does before the project lock, on the rows it reads there. -/
def enter (db : Db K) : Call K → Entry K
  | create card content explicitSortKey => .locked do
    createLocked env card content explicitSortKey
    return .done
  | createBatch projectId items generateId uuidV4 commitMessage => .locked do
    createBatchLocked env projectId items generateId uuidV4 commitMessage
    return .done
  | updateContent cardId content title updatedAt =>
    withCard db cardId fun card => updateContentLocked env card content title updatedAt
  | move cardId hasParentCardId parentCardId sortKey updatedAt =>
    withCard db cardId fun card =>
      moveLocked env card.projectId cardId hasParentCardId parentCardId sortKey updatedAt
  | moveTo projectId cardId request updatedAt =>
    moveToEntry env db projectId cardId request updatedAt
  | updateLinks cardId updatedAt =>
    withCard db cardId fun card => updateLinksLocked env card updatedAt
  | updateMilestones cardId updatedAt =>
    withCard db cardId fun card => updateMilestonesLocked env card updatedAt
  | updateMilestone projectId cardId milestoneId update updatedAt =>
    updateMilestoneEntry env db projectId cardId milestoneId update updatedAt
  | trash cardId deletedAt children =>
    withCard db cardId fun card => trashLocked env card.projectId cardId deletedAt children
  | restore cardId updatedAt =>
    withCard db cardId fun card => restoreLocked env card.projectId cardId updatedAt
  | restoreVersion cardId historicalOid updatedAt =>
    match historicalOid with
    | none => .returned (.error (.invalidArgument "historical_oid is required"))
    | some oid =>
      withCard db cardId fun card => restoreVersionLocked env card.projectId cardId oid updatedAt
  | repairHierarchy projectId updatedAt => .locked (repairHierarchyLocked env projectId updatedAt)
  | hardDelete cardId => hardDeleteEntry env db cardId
  | addTag cardId tag updatedAt => addTagEntry env db cardId tag updatedAt
  | removeTag cardId tag updatedAt => removeTagEntry env db cardId tag updatedAt

end Call

/-- The rest of a call, once it has the lock. -/
def Entry.run : Entry K → StoreM K (Result K)
  | .returned result => fromExcept result
  | .locked rest => rest

/-- A call that no other client interrupts. -/
def Call.run [SortKey K] (env : Env K) (call : Call K) : StoreM K (Result K) := do
  (call.enter env (← get).db).run

end HolderCore
