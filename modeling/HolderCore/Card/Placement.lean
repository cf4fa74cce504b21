import HolderCore.Card.Hierarchy

/-! # Relative placement

`card/CardPlacementResolver.cpp`: where a card lands for one of eight placement intents, given the
project's live cards. -/

namespace HolderCore

inductive CardPlacementIntent where
  | into | before | after | toStart | toEnd | left | right | upLevel
deriving DecidableEq, Repr

structure CardPlacementRequest where
  intent : CardPlacementIntent
  targetCardId : Option String := none
  hasParentCardId : Bool := false
  parentCardId : Option String := none
deriving DecidableEq, Repr

structure CardPlacementResult (K : Type) where
  parentCardId : Option String
  sortKey : K
  movedIntoTitle : Option String
  siblingChanges : List (Card K)

/-- `" \t\r\n"`. -/
def isBlank (c : Char) : Bool := c == ' ' || c == '\t' || c == '\r' || c == '\n'

/-- A parent id without the blanks around it; nothing but blanks is no parent. -/
def normalizeParentId : Option String → Option String
  | none => none
  | some raw =>
    let trimmed := ((raw.toList.dropWhile isBlank).reverse.dropWhile isBlank).reverse
    if trimmed.isEmpty then none else some (String.ofList trimmed)

/-- Walk at most `guard` parents up, looking for the card. -/
def isDescendantOf (find : String → Option (Card K)) (cardId : String) :
    (guard : Nat) → (candidate : Option String) → Bool
  | 0, _ | _, none => false
  | guard + 1, some candidate =>
    if candidate == cardId then true
    else match find candidate with
      | none => false
      | some card => isDescendantOf find cardId guard (normalizeParentId card.parentCardId)

namespace CardPlacementResolver
variable [SortKey K]

/-- The live cards under a parent in tree order, without one card. -/
def siblingsForParent (db : Db K) (projectId : String) (parent : Option String)
    (excludeCardId : String) : List (Card K) :=
  treeSort ((CardRepo.listAll db projectId).filter fun c =>
    c.live && c.cardId != excludeCardId &&
      normalizeParentId c.parentCardId == normalizeParentId parent)

/-- Where a card goes: the new parent, its live cards without the moved one, and the index among
them, if anything moves. -/
structure Landing (K : Type) where
  parent : Option String
  destination : List (Card K)
  index : Option Nat
  movedIntoTitle : Option String

/-- `Into`, `Before` and `After`. -/
def landAtTarget (db : Db K) (source : Card K) (request : CardPlacementRequest) :
    Except Exn (Landing K) := do
  let find := findCard db source.projectId
  let some targetCardId := request.targetCardId
    | throw (.runtimeError "missing_target_card_id")
  let some target := (find targetCardId).filter (·.live)
    | throw (.runtimeError "target_not_found")
  if request.intent = .into then
    if isDescendantOf find source.cardId 1024 (some target.cardId) then
      throw (.runtimeError "move_would_create_cycle")
    let destination := siblingsForParent db source.projectId (some target.cardId) source.cardId
    return ⟨some target.cardId, destination, some destination.length, some target.title⟩
  else
    let parent := normalizeParentId target.parentCardId
    let destination := siblingsForParent db source.projectId parent source.cardId
    let some index := destination.findIdx? (·.cardId == target.cardId)
      | throw (.runtimeError "invalid_target")
    return ⟨parent, destination, some (if request.intent = .after then index + 1 else index), none⟩

/-- `ToStart`, `ToEnd`, `Left` and `Right`. -/
def landUnderParent (db : Db K) (source : Card K) (request : CardPlacementRequest) :
    Except Exn (Landing K) := do
  let originalParent := normalizeParentId source.parentCardId
  let parent := if request.hasParentCardId || request.parentCardId.isSome
    then normalizeParentId request.parentCardId else originalParent
  if let some parent := parent then
    if !(findCard db source.projectId parent).any (·.live) then
      throw (.runtimeError "target_not_found")
  let destination := siblingsForParent db source.projectId parent source.cardId
  let withSource := siblingsForParent db source.projectId parent ""
  let index := match request.intent with
    | .toStart => if destination.isEmpty && parent == originalParent then none else some 0
    | .toEnd =>
      if destination.isEmpty && parent == originalParent then none else some destination.length
    | intent => do
      let index ← withSource.findIdx? (·.cardId == source.cardId)
      if intent = .left then
        if 0 < index then some (index - 1) else none
      else if index + 1 < withSource.length then some (index + 1) else none
  return ⟨parent, destination, index, none⟩

/-- `UpLevel`. -/
def landUpLevel (db : Db K) (source : Card K) : Except Exn (Landing K) := do
  let find := findCard db source.projectId
  let some currentParent := normalizeParentId source.parentCardId
    | throw (.runtimeError "already_at_project_root")
  let parent := ((find currentParent).filter (·.live)).bind fun p =>
    normalizeParentId p.parentCardId
  let title := ((parent.bind find).filter (·.live)).map (·.title)
  let destination := siblingsForParent db source.projectId parent source.cardId
  return ⟨parent, destination, some destination.length, title⟩

def land (db : Db K) (source : Card K) (request : CardPlacementRequest) :
    Except Exn (Landing K) :=
  match request.intent with
  | .into | .before | .after => landAtTarget db source request
  | .toStart | .toEnd | .left | .right => landUnderParent db source request
  | .upLevel => landUpLevel db source

def resolve (db : Db K) (projectId cardId : String) (request : CardPlacementRequest)
    (updatedAt : Int) : Except Exn (CardPlacementResult K) := do
  let some source := (CardRepo.get? db cardId).filter (·.live)
    | throw (.runtimeError "card_not_found")
  if source.projectId != projectId then
    throw (.runtimeError "cross_project_move_forbidden")
  let landing ← land db source request
  match landing.index with
  | none =>
    return {
      parentCardId := normalizeParentId source.parentCardId
      sortKey := source.sortKey
      movedIntoTitle := landing.movedIntoTitle
      siblingChanges := [] }
  | some index =>
    let changes ← placedCardChanges landing.destination index source landing.parent updatedAt
    return {
      parentCardId := landing.parent
      sortKey := (changes.filter (·.cardId == source.cardId)).getLast?.elim ((0 : Nat) : K)
        (·.sortKey)
      movedIntoTitle := landing.movedIntoTitle
      siblingChanges := changes.filter (·.cardId != source.cardId) }

end CardPlacementResolver

end HolderCore
