import HolderCore.Library.Outcome
import HolderCore.Card.Types

/-! # The card tables

The tables of `schema/schema.sql` that hold a project's cards, and the statements of `CardRepo`,
`LinkRepo`, `MilestoneRepo`, `TagRepo` and `FtsIndexer` on them. A table is a map from its primary
key to its rows, and a statement that breaks a constraint throws and changes nothing. The database
of the model holds the rows of one project. A query whose `ORDER BY` leaves ties returns them in
the order of the primary key. -/

namespace HolderCore

/-- A row of `card_tags`. -/
structure CardTag where
  projectId : String
  cardId : String
  tag : String
  createdAt : Int
deriving DecidableEq, Repr

/-- A row of `cards_fts`. -/
structure CardFts where
  projectId : String
  title : String
  body : String
deriving DecidableEq, Repr

/-- `PRIMARY KEY(project_id, from_card_id, to_card_id, to_type, kind)`. -/
def CardLink.key (link : CardLink) : List String :=
  [link.projectId, link.fromCardId, link.toCardId, link.toType, link.kind]

/-- `PRIMARY KEY(project_id, card_id, tag)`. -/
def CardTag.key (tag : CardTag) : List String := [tag.projectId, tag.cardId, tag.tag]

structure Db (K : Type) where
  cards : Map String (Card K)
  cardLinks : Map (List String) CardLink
  cardTags : Map (List String) CardTag
  milestones : Map String Milestone
  cardsFts : Map String CardFts

/-- The database of a project without cards. -/
def Db.empty : Db K := ⟨∅, ∅, ∅, ∅, ∅⟩

/-- Statements, each kept on its own unless a transaction is open. -/
abbrev DbM (K : Type) := EStateM Exn (Db K)

/-- `INSERT`/`UPDATE` of `cards`: the parent exists or is the row itself. -/
def parentExists (db : Db K) (card : Card K) : Bool :=
  match card.parentCardId with
  | some parent => db.cards.contains parent || parent == card.cardId
  | none => true

/-- `uq_cards_project_relpath`: no other row of the project has the card's path. -/
def relPathFree (db : Db K) (card : Card K) : Bool :=
  db.cards.rows.all fun other =>
    other.cardId == card.cardId || !(other.projectId == card.projectId &&
      other.relPath == card.relPath)

/-! ## CardRepo -/

namespace CardRepo

def create (card : Card K) : DbM K Unit := do
  let db ← get
  if db.cards.contains card.cardId then
    throw (.runtimeError "insert card failed: UNIQUE constraint failed: cards.card_id")
  if !relPathFree db card then
    throw (.runtimeError
      "insert card failed: UNIQUE constraint failed: cards.project_id, cards.rel_path")
  if !parentExists db card then
    throw (.runtimeError "insert card failed: FOREIGN KEY constraint failed")
  set { db with cards := db.cards.insert card.cardId card }

def get? (db : Db K) (cardId : String) : Option (Card K) := db.cards[cardId]?

/-- `ORDER BY sort_key ASC, updated_at DESC`. -/
def listOrder [LinearOrder K] (a b : Card K) : Prop :=
  a.sortKey < b.sortKey ∨ a.sortKey = b.sortKey ∧ b.updatedAt ≤ a.updatedAt

instance [LinearOrder K] : DecidableRel (listOrder (K := K)) := by
  unfold listOrder
  infer_instance

def listWhere [LinearOrder K] (db : Db K) (p : Card K → Bool) : List (Card K) :=
  (db.cards.rows.filter p).insertionSort listOrder

def listRoots [LinearOrder K] (db : Db K) (projectId : String) : List (Card K) :=
  listWhere db fun c => c.projectId == projectId && c.parentCardId == none

def listChildren [LinearOrder K] (db : Db K) (projectId parentCardId : String) : List (Card K) :=
  listWhere db fun c => c.projectId == projectId && c.parentCardId == some parentCardId

def listAll [LinearOrder K] (db : Db K) (projectId : String) : List (Card K) :=
  listWhere db fun c => c.projectId == projectId

/-- `SELECT COALESCE(MAX(sort_key), -1.0) + 1.0`, over the live cards under a parent. -/
def nextSortKey [SortKey K] (db : Db K) (projectId : String) (parentCardId : Option String) : K :=
  let keys := (db.cards.rows.filter fun c =>
    c.projectId == projectId && c.parentCardId == parentCardId && c.live).map (·.sortKey)
  match keys with
  | [] => (0 : Nat) - (1 : Nat) + (1 : Nat)
  | key :: keys => keys.foldl max key + (1 : Nat)

/-- `UPDATE cards SET … WHERE card_id = ?`, with the constraints on the new row. -/
def update (what cardId : String) (f : Card K → Card K) : DbM K Unit := do
  let db ← get
  match db.cards[cardId]? with
  | none => return
  | some card =>
    if !relPathFree db (f card) then
      throw (.runtimeError
        (what ++ " failed: UNIQUE constraint failed: cards.project_id, cards.rel_path"))
    if !parentExists db (f card) then
      throw (.runtimeError (what ++ " failed: FOREIGN KEY constraint failed"))
    set { db with cards := db.cards.insert cardId (f card) }

def updateTitle (cardId title : String) (updatedAt : Int) : DbM K Unit :=
  update "update card title" cardId fun c => { c with title, updatedAt }

def touchUpdated (cardId : String) (updatedAt : Int) : DbM K Unit :=
  update "touch card" cardId fun c => { c with updatedAt }

def restoreSnapshot (card : Card K) : DbM K Unit :=
  update "restore card snapshot" card.cardId fun c => { c with
    title := card.title
    parentCardId := card.parentCardId
    sortKey := card.sortKey
    updatedAt := card.updatedAt
    deletedAt := card.deletedAt
    relPath := card.relPath }

def move (cardId : String) (parentCardId : Option String) (sortKey : K) (updatedAt : Int) :
    DbM K Unit :=
  update "move card" cardId fun c => { c with parentCardId, sortKey, updatedAt }

/-- `DELETE FROM cards WHERE card_id = ?`: the children's parent is set to null, the card's tags
and milestones go with it. -/
def remove (cardId : String) : DbM K Unit := do
  let db ← get
  if db.cards.contains cardId then
    set { db with
      cards := (db.cards.erase cardId).map fun _ (c : Card K) =>
        if c.parentCardId == some cardId then { c with parentCardId := none } else c
      cardTags := db.cardTags.filter fun _ t => t.cardId != cardId
      milestones := db.milestones.filter fun _ m => m.cardId != cardId }

end CardRepo

/-! ## LinkRepo -/

namespace LinkRepo

/-- One row of `upsert_links`, with an empty target type stored as `card`. -/
def storedLink (link : CardLink) : CardLink :=
  { link with toType := if link.toType.isEmpty then "card" else link.toType }

def upsertLinks (projectId fromCardId : String) : List CardLink → DbM K Unit
  | [] => return
  | link :: links => do
    if link.projectId != projectId || link.fromCardId != fromCardId then
      throw (.runtimeError "link project_id/from_card_id mismatch")
    modify fun db =>
      { db with cardLinks := db.cardLinks.insert (storedLink link).key (storedLink link) }
    upsertLinks projectId fromCardId links

/-- `ORDER BY created_at DESC`. -/
def listOutgoing (db : Db K) (projectId fromCardId : String) : List CardLink :=
  (db.cardLinks.rows.filter fun l => l.projectId == projectId && l.fromCardId == fromCardId)
    |>.insertionSort fun a b => b.createdAt ≤ a.createdAt

def deleteLink (projectId fromCardId toCardId : String) (toType kind : Option String) :
    DbM K Unit :=
  modify fun db => { db with cardLinks := db.cardLinks.filter fun _ l =>
    !(l.projectId == projectId && l.fromCardId == fromCardId && l.toCardId == toCardId &&
      toType.all (· == l.toType) && kind.all (· == l.kind)) }

def deleteLinksToTyped (projectId toCardId toType : String) : DbM K Unit :=
  modify fun db => { db with cardLinks := db.cardLinks.filter fun _ l =>
    !(l.projectId == projectId && l.toCardId == toCardId && l.toType == toType) }

def deleteLinksFrom (projectId fromCardId : String) : DbM K Unit :=
  modify fun db => { db with cardLinks := db.cardLinks.filter fun _ l =>
    !(l.projectId == projectId && l.fromCardId == fromCardId) }

end LinkRepo

/-! ## MilestoneRepo -/

namespace MilestoneRepo

def deleteForCard (projectId cardId : String) : DbM K Unit :=
  modify fun db => { db with milestones := db.milestones.filter fun _ m =>
    !(m.projectId == projectId && m.cardId == cardId) }

def insertAll (projectId cardId : String) : List Milestone → DbM K Unit
  | [] => return
  | milestone :: milestones => do
    if milestone.projectId != projectId || milestone.cardId != cardId then
      throw (.runtimeError "milestone project_id/card_id mismatch")
    let db ← get
    if db.milestones.contains milestone.milestoneId then
      throw (.runtimeError
        "insert milestone failed: UNIQUE constraint failed: milestones.milestone_id")
    if !db.cards.contains cardId then
      throw (.runtimeError "insert milestone failed: FOREIGN KEY constraint failed")
    set { db with milestones := db.milestones.insert milestone.milestoneId milestone }
    insertAll projectId cardId milestones

def replaceForCard (projectId cardId : String) (milestones : List Milestone) : DbM K Unit := do
  deleteForCard projectId cardId
  insertAll projectId cardId milestones

/-- `ORDER BY start_at ASC`. -/
def listForCard (db : Db K) (projectId cardId : String) : List Milestone :=
  (db.milestones.rows.filter fun m => m.projectId == projectId && m.cardId == cardId)
    |>.insertionSort fun a b => a.startAt ≤ b.startAt

end MilestoneRepo

/-! ## TagRepo -/

namespace TagRepo

def deleteTagsForCard (projectId cardId : String) : DbM K Unit :=
  modify fun db => { db with cardTags := db.cardTags.filter fun _ t =>
    !(t.projectId == projectId && t.cardId == cardId) }

def insertTags (projectId cardId : String) (now : Int) : List String → DbM K Unit
  | [] => return
  | tag :: tags => do
    let row : CardTag := { projectId, cardId, tag, createdAt := now }
    let db ← get
    if db.cardTags.contains row.key then
      throw (.runtimeError ("insert tag failed: UNIQUE constraint failed: " ++
        "card_tags.project_id, card_tags.card_id, card_tags.tag"))
    if !db.cards.contains cardId then
      throw (.runtimeError "insert tag failed: FOREIGN KEY constraint failed")
    set { db with cardTags := db.cardTags.insert row.key row }
    insertTags projectId cardId now tags

def setTagsForCard (projectId cardId : String) (tags : List String) (now : Int) : DbM K Unit := do
  deleteTagsForCard projectId cardId
  insertTags projectId cardId now tags

end TagRepo

/-! ## FtsIndexer -/

namespace FtsIndexer

def upsertCard (cardId projectId title body : String) : DbM K Unit :=
  modify fun db => { db with cardsFts := db.cardsFts.insert cardId { projectId, title, body } }

def deleteCard (cardId : String) : DbM K Unit :=
  modify fun db => { db with cardsFts := db.cardsFts.erase cardId }

end FtsIndexer

end HolderCore
