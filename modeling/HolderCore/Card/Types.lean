import HolderCore.Library.Map

/-! # Data model

The records of `src/model` (cards, links, milestones, the project), the sort keys, and the paths a
card's file takes in the project (`card/CardPaths.cpp`). A `std::string` is a `String`, one
character for each byte. -/

namespace HolderCore

/-- A thrown `std::exception` with its text. -/
inductive Exn where
  | runtimeError (what : String)
  | invalidArgument (what : String)
deriving DecidableEq, Repr

def Exn.what : Exn → String
  | .runtimeError what => what
  | .invalidArgument what => what

/-- What the code uses of the type `double` of sort keys: the order of its values (with the two
zeros identified and every NaN the same value), the arithmetic, of which nothing is assumed here,
and `std::isfinite`. -/
class SortKey (K : Type) extends LinearOrder K, Add K, Sub K, Mul K, Div K, NatCast K where
  isFinite : K → Bool

/-- Exact sort keys. -/
instance : SortKey ℚ where
  isFinite _ := true

structure Card (K : Type) where
  cardId : String
  projectId : String
  title : String
  relPath : String
  parentCardId : Option String
  sortKey : K
  createdAt : Int
  updatedAt : Int
  deletedAt : Option Int
deriving DecidableEq, Repr

structure CardLink where
  projectId : String
  fromCardId : String
  toCardId : String
  toType : String
  kind : String
  label : Option String
  createdAt : Int
deriving DecidableEq, Repr

structure Milestone where
  milestoneId : String
  projectId : String
  cardId : String
  startAt : Int
  endAt : Option Int
  allDay : Bool
  kind : Option String
  description : Option String
  createdAt : Int
  updatedAt : Int
deriving DecidableEq, Repr

inductive PrivacyMode where
  | plain
  | encryptedGit
deriving DecidableEq, Repr

structure Project where
  projectId : String
  privacyMode : PrivacyMode
  projectKeyId : Option String
deriving DecidableEq, Repr

/-- A card is live until it is trashed. -/
def Card.live (card : Card K) : Bool := card.deletedAt.isNone

@[simp] theorem Card.live_iff {card : Card K} : card.live = true ↔ card.deletedAt = none := by
  simp [Card.live]

/-- The bytes of a file. -/
abbrev Bytes := List Char

/-- `text.rfind(start, 0) == 0`. -/
def startsWith (start : String) (text : Bytes) : Bool := start.toList.isPrefixOf text

def isHexDigit (c : Char) : Bool :=
  ('0' ≤ c && c ≤ '9') || ('a' ≤ c && c ≤ 'f') || ('A' ≤ c && c ≤ 'F')

/-! ## Card paths -/

/-- The path of a live card's file, for an id of at least four characters. -/
def livePath (cardId : String) : String :=
  "cards/" ++ String.ofList (cardId.toList.take 2) ++ "/" ++
    String.ofList ((cardId.toList.drop 2).take 2) ++ "/" ++ cardId ++ ".md"

/-- The path of a trashed card's file. -/
def trashPath (cardId : String) : String := "trash/" ++ livePath cardId

def cardRelPath (cardId : String) : Except Exn String :=
  if cardId.length < 4 then .error (.runtimeError "card_id too short for path sharding")
  else .ok (livePath cardId)

def cardTrashRelPath (cardId : String) : Except Exn String := do
  return "trash/" ++ (← cardRelPath cardId)

/-- Where a card's file is kept: in the trash once the card is deleted. -/
def Card.filePath (card : Card K) : String :=
  if card.deletedAt.isSome then trashPath card.cardId else livePath card.cardId

@[simp] theorem cardRelPath_ok_iff {id p : String} :
    cardRelPath id = .ok p ↔ 4 ≤ id.length ∧ p = livePath id := by
  unfold cardRelPath
  split <;> simp_all [eq_comm]

@[simp] theorem cardTrashRelPath_ok_iff {id p : String} :
    cardTrashRelPath id = .ok p ↔ 4 ≤ id.length ∧ p = trashPath id := by
  unfold cardTrashRelPath cardRelPath
  split <;> simp_all [eq_comm, bind, Except.bind, pure, Except.pure, trashPath]

/-- The shards of an id of at least four characters have two characters each, so the id can be
read back from its place in the path. -/
theorem livePath_inj (ha : 4 ≤ a.length) (hb : 4 ≤ b.length) (h : livePath a = livePath b) :
    a = b := by
  have hs : ∀ id : String, 4 ≤ id.length → ((livePath id).toList.drop 12).reverse.drop 3 =
      id.toList.reverse := by
    intro id hid
    rw [← String.length_toList] at hid
    have hfirst : (id.toList.take 2).length = 2 := by simp; omega
    have hsecond : ((id.toList.drop 2).take 2).length = 2 := by simp; omega
    obtain ⟨c, d, hcd⟩ := List.length_eq_two.mp hfirst
    obtain ⟨e, f, hef⟩ := List.length_eq_two.mp hsecond
    simp [livePath, hcd, hef]
  have hrev : a.toList.reverse = b.toList.reverse := by rw [← hs a ha, ← hs b hb, h]
  exact String.toList_inj.mp (List.reverse_injective hrev)

theorem trashPath_inj (ha : 4 ≤ a.length) (hb : 4 ≤ b.length) (h : trashPath a = trashPath b) :
    a = b := by
  refine livePath_inj ha hb (String.toList_inj.mp ?_)
  have := congrArg String.toList h
  simpa [trashPath] using this

theorem livePath_ne_trashPath (a b : String) : livePath a ≠ trashPath b := by
  intro h
  have := congrArg (fun s => s.toList.head?) h
  simp [livePath, trashPath] at this

/-- A path that the file of a card may have. -/
def CardPath (id path : String) : Prop := path = livePath id ∨ path = trashPath id

theorem CardPath.inj (ha : 4 ≤ a.length) (hb : 4 ≤ b.length) (h : CardPath a path)
    (h' : CardPath b path) : a = b := by
  rcases h with rfl | rfl <;> rcases h' with h' | h'
  · exact livePath_inj ha hb h'
  · exact absurd h' (livePath_ne_trashPath a b)
  · exact absurd h'.symm (livePath_ne_trashPath b a)
  · exact trashPath_inj ha hb h'

theorem Card.cardPath (card : Card K) : CardPath card.cardId card.filePath := by
  unfold Card.filePath
  split
  · exact .inr rfl
  · exact .inl rfl

theorem Card.filePath_live {card : Card K} (h : card.deletedAt = none) :
    card.filePath = livePath card.cardId := by
  simp [Card.filePath, h]

end HolderCore
