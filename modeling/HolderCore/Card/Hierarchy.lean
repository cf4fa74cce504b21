import HolderCore.Library.Rooted
import HolderCore.Card.Repos

/-! # The card hierarchy

`card/CardHierarchy.cpp`: the order of a card's live siblings, the walk up the parent pointers, and
the placements that promote, place, restore and repair cards. The loops of the source run on fuel
that their bounds cover. -/

namespace HolderCore

/-! ## Tree order -/

section TreeOrder
variable [LinearOrder K]

/-- Sort key, newest update, title without case, then id. -/
def cardTreeLess (a b : Card K) : Bool :=
  if a.sortKey < b.sortKey then true
  else if b.sortKey < a.sortKey then false
  else if a.updatedAt ≠ b.updatedAt then decide (b.updatedAt < a.updatedAt)
  else if a.title.toLower ≠ b.title.toLower then decide (a.title.toLower < b.title.toLower)
  else decide (a.cardId < b.cardId)

/-- `std::sort` by `card_tree_less`. -/
def treeSort (cards : List (Card K)) : List (Card K) :=
  cards.insertionSort fun a b => cardTreeLess b a = false

/-- `std::lower_bound` by `card_tree_less`: how many cards of a sorted list come before the card. -/
def treeLowerBound (cards : List (Card K)) (card : Card K) : Nat :=
  (cards.takeWhile fun c => cardTreeLess c card).length

@[simp] theorem mem_treeSort {cards : List (Card K)} {c : Card K} :
    c ∈ treeSort cards ↔ c ∈ cards := List.mem_insertionSort _

theorem perm_treeSort (cards : List (Card K)) : (treeSort cards).Perm cards :=
  List.perm_insertionSort _ _

/-- The live cards beside a card, under its parent or among the roots. -/
def siblings (db : Db K) (card : Card K) : List (Card K) :=
  let result := match card.parentCardId with
    | some parent => CardRepo.listChildren db card.projectId parent
    | none => CardRepo.listRoots db card.projectId
  treeSort (result.filter (·.live))

end TreeOrder

/-! ## Sort keys for an inserted block -/

section Placement
variable [SortKey K]

/-- The next of `count` keys between `low` and `high`, after the keys so far and the last of
them. -/
def spacedKeysStep (low high : K) (count : Nat) (state : Option (List K × K)) (i : Nat) :
    Option (List K × K) := do
  let (keys, previous) ← state
  let one : K := (1 : Nat)
  let fraction := ((i + 1 : Nat) : K) / ((count : Nat) + one)
  let key := low * (one - fraction) + high * fraction
  if !SortKey.isFinite key || key ≤ previous || high ≤ key then none
  else some (keys ++ [key], key)

/-- Evenly spaced keys strictly between two neighbours. An open end steps by one from the other
bound; with both ends open the keys start from one. -/
def spacedKeys (left right : Option K) (count : Nat) : Option (List K) :=
  let n : K := (count : Nat)
  let one : K := (1 : Nat)
  let left := if left.isNone && right.isNone then some ((0 : Nat) : K) else left
  let low := left.getD (right.getD (0 : Nat) - n - one)
  let high := right.getD (left.getD (0 : Nat) + n + one)
  ((List.range count).foldl (spacedKeysStep low high count) (some ([], low))).map (·.1)

/-- A card of the list a block was inserted into, and whether it belongs to the block. -/
structure Slot (K : Type) where
  card : Card K
  placed : Bool

/-- The slot's card under its new key, and whether that changes it. -/
def Slot.respace (updatedAt : Int) (slot : Slot K) (key : K) : Card K × Bool :=
  if slot.placed || slot.card.sortKey != key then
    ({ slot.card with sortKey := key, updatedAt }, true)
  else (slot.card, false)

def noSortKeys : Exn := .runtimeError "no sort keys available for card placement"

/-- Re-space `slots[low, high)`, which always contains the block, widening the window until its
keys fit. -/
def respaceFrom (slots : List (Slot K)) (index blockEnd : Nat) (updatedAt : Int) :
    (fuel radius : Nat) → Except Exn (List (Card K) × List (Card K))
  | 0, _ => .error noSortKeys
  | fuel + 1, radius =>
    let low := index - radius
    let high := min slots.length (blockEnd + radius)
    let left := if low = 0 then none else slots[low - 1]?.map (·.card.sortKey)
    let right := slots[high]?.map (·.card.sortKey)
    match spacedKeys left right (high - low) with
    | some keys =>
      let cells := ((slots.drop low).take (high - low)).zipWith (·.respace updatedAt) keys
      .ok ((slots.take low).map (·.card) ++ cells.map (·.1) ++ (slots.drop high).map (·.card),
        (cells.filter (·.2)).map (·.1))
    | none =>
      if low = 0 ∧ high = slots.length then .error noSortKeys
      else respaceFrom slots index blockEnd updatedAt fuel (if radius = 0 then 1 else radius * 2)

/-- Insert a block at an index of its new siblings. Returns the siblings with the block and every
card whose placement changes. The radius doubles, so the fuel outlasts the widest window. -/
def insertBlockInto (destination : List (Card K)) (index : Nat) (block : List (Card K))
    (parent : Option String) (updatedAt : Int) : Except Exn (List (Card K) × List (Card K)) :=
  if block.isEmpty then .ok (destination, []) else
  let slots := (destination.take index).map (⟨·, false⟩) ++
    block.map (fun card => ⟨{ card with parentCardId := parent }, true⟩) ++
    (destination.drop index).map (⟨·, false⟩)
  respaceFrom slots index (index + block.length) updatedAt (slots.length + 2) 0

def insertBlock (destination : List (Card K)) (index : Nat) (block : List (Card K))
    (parent : Option String) (updatedAt : Int) : Except Exn (List (Card K)) :=
  (insertBlockInto destination index block parent updatedAt).map (·.2)

end Placement

/-! ## The walk to the roots -/

/-- Walk up the parent pointers. `candidate` is the nearest live ancestor with no trashed one above
it so far; a missing ancestor ends the walk without one. Each turn visits another card, so
`fuel` never runs out before the walk ends. -/
def walkAncestors (find : String → Option (Card K)) :
    (fuel : Nat) → (visited : List String) → (next candidate : Option String) →
      Except Exn (Option String)
  | _, _, none, candidate => .ok candidate
  | 0, _, some _, _ => .error (.runtimeError "move_would_create_cycle")
  | fuel + 1, visited, some next, candidate =>
    if visited.contains next then .error (.runtimeError "move_would_create_cycle") else
    match find next with
    | none => .ok none
    | some ancestor =>
      walkAncestors find fuel (next :: visited) ancestor.parentCardId
        (if ancestor.deletedAt.isSome then none else candidate.or (some ancestor.cardId))

/-- A card of the project. -/
def findCard (db : Db K) (projectId : String) (cardId : String) : Option (Card K) :=
  db.cards[cardId]?.filter fun c => c.projectId == projectId

def walkFuel (db : Db K) : Nat := db.cards.size + 1

def reachableCardParent (db : Db K) (card : Card K) : Except Exn (Option String) :=
  walkAncestors (findCard db card.projectId) (walkFuel db) [card.cardId] card.parentCardId none

def validateCardParent (db : Db K) (card : Card K) : Except Exn Unit := do
  let reachable ← reachableCardParent db card
  if reachable ≠ card.parentCardId then throw (.runtimeError "target_not_found")

/-! ## Placements -/

section Placements
variable [SortKey K]

def promotedCardChildren (db : Db K) (parent : Card K) (updatedAt : Int) :
    Except Exn (List (Card K)) := do
  let destinationParent ← reachableCardParent db parent
  let children := siblings db { parent with parentCardId := some parent.cardId }
  if children.isEmpty then return []
  let anchor := { parent with parentCardId := destinationParent }
  let destination := (siblings db anchor).filter (·.cardId != parent.cardId)
  insertBlock destination (treeLowerBound destination anchor) children destinationParent updatedAt

def placedCardChanges (destination : List (Card K)) (index : Nat) (card : Card K)
    (parent : Option String) (updatedAt : Int) : Except Exn (List (Card K)) :=
  insertBlock destination index [card] parent updatedAt

/-- The restored card under its reachable parent, and the siblings that make room for it. -/
def restoredCardPlacement (db : Db K) (restored : Card K) (updatedAt : Int) :
    Except Exn (Card K × List (Card K)) := do
  let restored := { restored with parentCardId := ← reachableCardParent db restored }
  let destination := (siblings db restored).filter (·.cardId != restored.cardId)
  let collision := !SortKey.isFinite restored.sortKey ||
    destination.any (·.sortKey == restored.sortKey)
  if !collision then return (restored, [])
  let changes ← insertBlock destination (treeLowerBound destination restored) [restored]
    restored.parentCardId updatedAt
  let key := (changes.filter (·.cardId == restored.cardId)).getLast?.elim restored.sortKey
    (·.sortKey)
  return ({ restored with sortKey := key }, changes.filter (·.cardId != restored.cardId))

/-! ## Repair -/

structure HierarchyRepairPlan (K : Type) where
  placements : List (Card K)
  movedCardIds : List String
  cycleCardIds : List String
deriving DecidableEq, Repr

/-- A live card whose parent is missing or trashed, where it goes, and the hidden ancestor whose
place it takes there. -/
structure RepairHead (K : Type) where
  card : Card K
  destination : Option String
  anchor : Option (Card K)

/-- The first card from `a` up the parent pointers that sits under the destination. -/
def repairAnchor (find : String → Option (Card K)) (destination : Option String) :
    (fuel : Nat) → Option (Card K) → Option (Card K)
  | 0, _ | _, none => none
  | fuel + 1, some a =>
    if a.parentCardId == destination then some a
    else repairAnchor find destination fuel (a.parentCardId.bind find)

/-- What the repair finds at one card: a cycle, a head of a hidden branch or nothing. -/
def repairFinding (db : Db K) (projectId : String) (card : Card K) :
    Option (String ⊕ RepairHead K) :=
  if card.deletedAt.isSome || card.parentCardId.isNone then none else
  match reachableCardParent db card with
  | .error _ => some (.inl card.cardId)
  | .ok destination =>
    let find := findCard db projectId
    let parent := card.parentCardId.bind find
    if parent.any (·.live) then none
    else some (.inr ⟨card, destination, repairAnchor find destination (walkFuel db) parent⟩)

/-- Insert one block and record the cards it changes. -/
def repairPlace (destination : Option String) (updatedAt : Int)
    (state : List (Card K) × Map String (Card K)) (block : List (Card K)) (index : Nat) :
    Except Exn (List (Card K) × Map String (Card K)) := do
  let (placed, changed) ← insertBlockInto state.1 index (treeSort block) destination updatedAt
  return (placed, changed.foldl (fun m c => m.insert c.cardId c) state.2)

/-- The heads that go under one destination: the anchored ones in the place of their anchor, in
the order of the anchors' ids, then the others at the end. -/
def repairGroup (db : Db K) (projectId : String) (destination : Option String) (updatedAt : Int)
    (heads : List (RepairHead K)) (changed : Map String (Card K)) :
    Except Exn (Map String (Card K)) := do
  let present := treeSort (db.cards.rows.filter fun c =>
    c.projectId == projectId && c.live && c.parentCardId == destination)
  let anchors := heads.foldl (fun (m : Map String (Card K)) head =>
    head.anchor.elim m fun a => m.insertIfNew a.cardId a) ∅
  let placeAnchored (state : List (Card K) × Map String (Card K)) (anchor : Card K) :=
    let block := (heads.filter fun head => head.anchor.any (·.cardId == anchor.cardId)).map (·.card)
    repairPlace destination updatedAt state block (treeLowerBound state.1 anchor)
  let state ← anchors.rows.foldlM placeAnchored (present, changed)
  let unanchored := (heads.filter fun head => head.anchor.isNone).map (·.card)
  if unanchored.isEmpty then return state.2
  return (← repairPlace destination updatedAt state unanchored state.1.length).2

def planHierarchyRepair (db : Db K) (projectId : String) (updatedAt : Int) :
    Except Exn (HierarchyRepairPlan K) := do
  let findings := (db.cards.rows.filter (·.projectId == projectId)).filterMap
    (repairFinding db projectId)
  let heads := findings.filterMap (Sum.elim (fun _ => none) some)
  let byDestination := heads.foldl (fun (m : Map (Option String) (List (RepairHead K))) head =>
    m.insert head.destination ((m[head.destination]?).getD [] ++ [head])) ∅
  let changed ← byDestination.toList.foldlM
    (fun changed (destination, group) =>
      repairGroup db projectId destination updatedAt group changed) ∅
  return {
    placements := changed.rows
    movedCardIds := (heads.map (·.card.cardId)).insertionSort (· ≤ ·)
    cycleCardIds := findings.filterMap (Sum.elim some fun _ => none) }

end Placements

end HolderCore
