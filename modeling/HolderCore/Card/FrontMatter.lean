import HolderCore.Card.Types

/-! # Card files

The text of a card file (`card/CardFrontMatter.cpp`): a YAML map between two delimiter lines and
the body after it. The YAML library is a parameter: its emitter and loader on the nodes the code
builds and reads, and its scalar conversions. `Yaml.Lawful` is what the code relies on. -/

namespace HolderCore

/-- A YAML node, as `YAML::Node` shows it: every scalar is a text. -/
inductive YamlNode where
  | null
  | scalar (text : String)
  | seq (items : List YamlNode)
  | map (entries : List (String × YamlNode))

namespace YamlNode

/-- `node[key]`; nothing when the key is not defined. -/
def get? (key : String) : YamlNode → Option YamlNode
  | .map entries => (entries.find? (·.1 == key)).map (·.2)
  | _ => none

def isNull : YamlNode → Bool
  | .null => true
  | _ => false

/-- `as<std::string>()`, which reads a null node as the text `null`. -/
def asString : YamlNode → Option String
  | .null => some "null"
  | .scalar text => some text
  | _ => none

end YamlNode

/-- The YAML library: how it writes and reads scalars, emits a map and loads a text. Loading and
the conversions give nothing where the library throws. -/
structure Yaml (K : Type) where
  formatInt : Int → String
  formatReal : K → String
  formatBool : Bool → String
  parseInt : String → Option Int
  parseReal : String → Option K
  parseBool : String → Option Bool
  emit : YamlNode → Bytes
  load : Bytes → Option YamlNode

/-- A line of `text` consists of `---`. -/
def DelimiterLine (text : Bytes) : Prop :=
  ∃ before after, text = before ++ ['-', '-', '-'] ++ after ∧
    (before = [] ∨ before.getLast? = some '\n') ∧ (after = [] ∨ after.head? = some '\n')

/-- The library reads back the scalars and the maps it emitted, and no line of an emitted map is
`---`. -/
structure Yaml.Lawful (y : Yaml K) : Prop where
  parseInt_formatInt : ∀ i, y.parseInt (y.formatInt i) = some i
  parseReal_formatReal : ∀ k, y.parseReal (y.formatReal k) = some k
  parseBool_formatBool : ∀ b, y.parseBool (y.formatBool b) = some b
  load_emit : ∀ entries, y.load (y.emit (.map entries)) = some (.map entries)
  emit_lines : ∀ entries, ¬ DelimiterLine (y.emit (.map entries))

def YamlNode.asInt (y : Yaml K) : YamlNode → Option Int
  | .scalar text => y.parseInt text
  | _ => none

def YamlNode.asReal (y : Yaml K) : YamlNode → Option K
  | .scalar text => y.parseReal text
  | _ => none

def YamlNode.asBool (y : Yaml K) : YamlNode → Option Bool
  | .scalar text => y.parseBool text
  | _ => none

/-! ## Rendering -/

section
variable (y : Yaml K)

private def intNode (i : Int) : YamlNode := .scalar (y.formatInt i)

private def optional (f : α → YamlNode) : Option α → YamlNode
  | some a => f a
  | none => .null

def linkNode (link : CardLink) : YamlNode := .map [
  ("to", .scalar link.toCardId),
  ("to_type", .scalar (if link.toType.isEmpty then "card" else link.toType)),
  ("kind", .scalar link.kind),
  ("created_at", intNode y link.createdAt),
  ("label", optional .scalar link.label)]

def milestoneNode (milestone : Milestone) : YamlNode := .map [
  ("milestone_id", .scalar milestone.milestoneId),
  ("start_at", intNode y milestone.startAt),
  ("end_at", optional (intNode y) milestone.endAt),
  ("all_day", .scalar (y.formatBool milestone.allDay)),
  ("kind", optional .scalar milestone.kind),
  ("description", optional .scalar milestone.description),
  ("created_at", intNode y milestone.createdAt),
  ("updated_at", intNode y milestone.updatedAt)]

def cardNode (card : Card K) (links : List CardLink) (milestones : List Milestone) : YamlNode :=
  .map [
    ("card_id", .scalar card.cardId),
    ("project_id", .scalar card.projectId),
    ("title", .scalar card.title),
    ("created_at", intNode y card.createdAt),
    ("updated_at", intNode y card.updatedAt),
    ("parent_card_id", optional .scalar card.parentCardId),
    ("sort_key", .scalar (y.formatReal card.sortKey)),
    ("rel_path", .scalar card.relPath),
    ("deleted_at", optional (intNode y) card.deletedAt),
    ("links", .seq (links.map (linkNode y))),
    ("milestones", .seq (milestones.map (milestoneNode y)))]

def renderCardFrontMatter (card : Card K) (links : List CardLink) (milestones : List Milestone) :
    Bytes :=
  "---\n".toList ++ y.emit (cardNode y card links milestones) ++ "\n---\n".toList

end

/-! ## Parsing -/

open YamlNode

structure ParsedCardFile (K : Type) where
  card : Card K
  links : List CardLink
  milestones : List Milestone
  body : String
  hasFrontMatter : Bool

/-- The text before the first occurrence of `d` and the text after it. -/
def splitFirst (d : Bytes) : Bytes → Option (Bytes × Bytes)
  | [] => if d.isEmpty then some ([], []) else none
  | c :: cs =>
    if d.isPrefixOf (c :: cs) then some ([], (c :: cs).drop d.length)
    else (splitFirst d cs).map fun (before, after) => (c :: before, after)

section
variable [NatCast K] (y : Yaml K)

/-- A default-initialised `Card`. -/
def Card.empty : Card K where
  cardId := ""
  projectId := ""
  title := ""
  relPath := ""
  parentCardId := none
  sortKey := (0 : Nat)
  createdAt := 0
  updatedAt := 0
  deletedAt := none

/-- `if (node[key]) target = node[key].as<T>();`, over the target's current value. -/
def readField (node : YamlNode) (key : String) (as : YamlNode → Option α) (current : α) :
    Option α :=
  match node.get? key with
  | some value => as value
  | none => some current

/-- `if (node[key] && !node[key].IsNull()) target = node[key].as<T>();` -/
def readNullable (node : YamlNode) (key : String) (as : YamlNode → Option α) :
    Option (Option α) :=
  match node.get? key with
  | some value => if value.isNull then some none else (as value).map some
  | none => some none

/-- One entry of `links`: nothing when a conversion throws, `some none` when it is skipped. -/
def parseLink (card : Card K) (item : YamlNode) : Option (Option CardLink) :=
  match item with
  | .map _ => do
    let toCardId ← readField item "to" asString ""
    let toType ← readField item "to_type" asString ""
    let kind ← readField item "kind" asString ""
    let label ← readNullable item "label" asString
    let createdAt ← readField item "created_at" (asInt y) 0
    return if toCardId.isEmpty then none else some {
      projectId := card.projectId
      fromCardId := card.cardId
      toCardId
      toType := if toType.isEmpty then "card" else toType
      kind := if kind.isEmpty then "ref" else kind
      label, createdAt }
  | _ => some none

/-- One entry of `milestones`, likewise. -/
def parseMilestone (card : Card K) (item : YamlNode) : Option (Option Milestone) :=
  match item with
  | .map _ => do
    let milestoneId ← readField item "milestone_id" asString ""
    let startAt ← readField item "start_at" (asInt y) 0
    let endAt ← readNullable item "end_at" (asInt y)
    let allDay ← readField item "all_day" (asBool y) false
    let kind ← readNullable item "kind" asString
    let description ← readNullable item "description" asString
    let createdAt ← readField item "created_at" (asInt y) 0
    let updatedAt ← readField item "updated_at" (asInt y) 0
    return if milestoneId.isEmpty then none else some {
      projectId := card.projectId
      cardId := card.cardId
      milestoneId, startAt, endAt, allDay, kind, description, createdAt, updatedAt }
  | _ => some none

/-- The entries of a sequence in turn, up to the first that throws. -/
def parseItems (parse : YamlNode → Option (Option α)) : List YamlNode → List α × Bool
  | [] => ([], true)
  | item :: items =>
    match parse item with
    | none => ([], false)
    | some none => parseItems parse items
    | some (some a) => ((a :: (parseItems parse items).1), (parseItems parse items).2)

def parseSeq (node : YamlNode) (key : String) (parse : YamlNode → Option (Option α)) :
    List α × Bool :=
  match node.get? key with
  | some (.seq items) => parseItems parse items
  | _ => ([], true)

/-- The scalar fields of the card, each assigned in turn until one throws. -/
def cardFields : List (YamlNode → Card K → Option (Card K)) := [
  fun node card => do return { card with cardId := ← readField node "card_id" asString card.cardId },
  fun node card => do
    return { card with projectId := ← readField node "project_id" asString card.projectId },
  fun node card => do return { card with title := ← readField node "title" asString card.title },
  fun node card => do
    return { card with relPath := ← readField node "rel_path" asString card.relPath },
  fun node card => do
    return { card with createdAt := ← readField node "created_at" (asInt y) card.createdAt },
  fun node card => do
    return { card with updatedAt := ← readField node "updated_at" (asInt y) card.updatedAt },
  fun node card => do
    return { card with sortKey := ← readField node "sort_key" (asReal y) card.sortKey },
  fun node card => do
    return { card with parentCardId := ← readNullable node "parent_card_id" asString },
  fun node card => do
    return { card with deletedAt := ← readNullable node "deleted_at" (asInt y) }]

def readCardFields (node : YamlNode) : List (YamlNode → Card K → Option (Card K)) → Card K →
    Card K × Bool
  | [], card => (card, true)
  | field :: fields, card =>
    match field node card with
    | some card => readCardFields node fields card
    | none => (card, false)

/-- The part of `parse_card_file` after the YAML map was loaded. The body is assigned last, so an
exception on the way leaves it the whole text. -/
def parseNode (node : YamlNode) (raw body : Bytes) : ParsedCardFile K :=
  let (card, ok) := readCardFields node (cardFields y) .empty
  if !ok then { card, links := [], milestones := [], body := String.ofList raw, hasFrontMatter := true }
  else
    let (links, ok) := parseSeq node "links" (parseLink y card)
    if !ok then { card, links, milestones := [], body := String.ofList raw, hasFrontMatter := true }
    else
      let (milestones, ok) := parseSeq node "milestones" (parseMilestone y card)
      { card, links, milestones, body := String.ofList (if ok then body else raw),
        hasFrontMatter := true }

def noFrontMatter (raw : Bytes) : ParsedCardFile K :=
  { card := .empty, links := [], milestones := [], body := String.ofList raw, hasFrontMatter := false }

def parseDelimited (raw : Bytes) (opening closing : String) : ParsedCardFile K :=
  match splitFirst closing.toList (raw.drop opening.length) with
  | none => noFrontMatter raw
  | some (yamlText, body) =>
    match y.load yamlText with
    | some (.map entries) => parseNode y (.map entries) raw body
    | _ => noFrontMatter raw

def parseCardFile (raw : Bytes) : ParsedCardFile K :=
  if startsWith "---\r\n" raw then parseDelimited y raw "---\r\n" "\r\n---\r\n"
  else if startsWith "---\n" raw then parseDelimited y raw "---\n" "\n---\n"
  else noFrontMatter raw

end

/-! ## Round trip -/

/-- A link as it is read back from the file of `card`. -/
def readBackLink (card : Card K) (link : CardLink) : Option CardLink :=
  if link.toCardId.isEmpty then none else some { link with
    projectId := card.projectId
    fromCardId := card.cardId
    toType := if link.toType.isEmpty then "card" else link.toType
    kind := if link.kind.isEmpty then "ref" else link.kind }

/-- A milestone as it is read back from the file of `card`. -/
def readBackMilestone (card : Card K) (milestone : Milestone) : Option Milestone :=
  if milestone.milestoneId.isEmpty then none else some { milestone with
    projectId := card.projectId
    cardId := card.cardId }

theorem splitFirst_delimiter {text : Bytes} (h : ¬ DelimiterLine text) (body : Bytes) :
    splitFirst "\n---\n".toList (text ++ "\n---\n".toList ++ body) = some (text, body) := by
  -- Only a line `---` after a newline can end the search early.
  have hline : ∀ before after, text = before ++ '\n' :: '-' :: '-' :: '-' :: after →
      after ≠ [] ∧ after.head? ≠ some '\n' := by
    intro before after he
    refine ⟨fun ha => h ⟨before ++ ['\n'], after, ?_, .inr (by simp), .inl ha⟩,
      fun ha => h ⟨before ++ ['\n'], after, ?_, .inr (by simp), .inr ha⟩⟩ <;> simp [he]
  clear h
  induction text with
  | nil => simp [splitFirst]
  | cons c cs ih =>
    have hnot : "\n---\n".toList.isPrefixOf (c :: cs ++ "\n---\n".toList ++ body) = false := by
      by_contra hp
      simp only [Bool.not_eq_false] at hp
      match cs, hline with
      | [], _ => simp at hp
      | [_], _ => simp at hp
      | [_, _], _ => simp at hp
      | [x, y, z], hline =>
        simp at hp
        obtain ⟨rfl, rfl, rfl, rfl⟩ := hp
        exact (hline [] [] rfl).1 rfl
      | x :: y :: z :: w :: rest, hline =>
        simp at hp
        obtain ⟨rfl, rfl, rfl, rfl, rfl⟩ := hp
        exact (hline [] ('\n' :: rest) rfl).2 rfl
    have hrest := ih fun before after he => hline (c :: before) after (by rw [he]; rfl)
    simp only [List.cons_append] at hnot ⊢
    rw [splitFirst, hnot, hrest]
    rfl

section
variable [NatCast K] {y : Yaml K}

theorem readCardFields_cardNode (hy : y.Lawful) (card : Card K) (links : List CardLink)
    (milestones : List Milestone) :
    readCardFields (cardNode y card links milestones) (cardFields y) .empty = (card, true) := by
  have hparent : readNullable (cardNode y card links milestones) "parent_card_id" asString =
      some card.parentCardId := by
    cases h : card.parentCardId <;>
      simp [readNullable, cardNode, get?, optional, isNull, asString, h]
  have hdeleted : readNullable (cardNode y card links milestones) "deleted_at" (asInt y) =
      some card.deletedAt := by
    cases h : card.deletedAt <;>
      simp [readNullable, cardNode, get?, optional, isNull, asInt, intNode, h,
        hy.parseInt_formatInt]
  simp only [cardFields, readCardFields, hparent, hdeleted]
  simp [readField, cardNode, get?, asString, asInt, asReal, intNode, hy.parseInt_formatInt,
    hy.parseReal_formatReal]

omit [NatCast K] in
theorem parseLink_linkNode (hy : y.Lawful) (card : Card K) (link : CardLink) :
    parseLink y card (linkNode y link) = some (readBackLink card link) := by
  have hlabel : readNullable (linkNode y link) "label" asString = some link.label := by
    cases h : link.label <;> simp [readNullable, linkNode, get?, optional, isNull, asString, h]
  have hcreated : readField (linkNode y link) "created_at" (asInt y) 0 = some link.createdAt := by
    simp [readField, linkNode, get?, asInt, intNode, hy.parseInt_formatInt]
  unfold linkNode at *
  simp only [parseLink, hlabel, hcreated, readBackLink]
  by_cases ht : link.toType = "" <;>
    simp [readField, get?, asString, ht, String.isEmpty_iff]

omit [NatCast K] in
theorem parseMilestone_milestoneNode (hy : y.Lawful) (card : Card K) (milestone : Milestone) :
    parseMilestone y card (milestoneNode y milestone) =
      some (readBackMilestone card milestone) := by
  have hend : readNullable (milestoneNode y milestone) "end_at" (asInt y) =
      some milestone.endAt := by
    cases h : milestone.endAt <;>
      simp [readNullable, milestoneNode, get?, optional, isNull, asInt, intNode, h,
        hy.parseInt_formatInt]
  have hkind : readNullable (milestoneNode y milestone) "kind" asString =
      some milestone.kind := by
    cases h : milestone.kind <;>
      simp [readNullable, milestoneNode, get?, optional, isNull, asString, h]
  have hdescription : readNullable (milestoneNode y milestone) "description" asString =
      some milestone.description := by
    cases h : milestone.description <;>
      simp [readNullable, milestoneNode, get?, optional, isNull, asString, h]
  unfold milestoneNode at *
  simp only [parseMilestone, hend, hkind, hdescription, readBackMilestone]
  simp [readField, get?, asString, asInt, asBool, intNode, hy.parseInt_formatInt,
    hy.parseBool_formatBool]

theorem parseItems_map {parse : YamlNode → Option (Option α)} {node : β → YamlNode}
    {readBack : β → Option α} (h : ∀ b, parse (node b) = some (readBack b)) (bs : List β) :
    parseItems parse (bs.map node) = (bs.filterMap readBack, true) := by
  induction bs with
  | nil => rfl
  | cons b bs ih =>
    cases hb : readBack b with
    | none => simp [parseItems, h, hb, ih]
    | some a => simp [parseItems, h, hb, ih]

/-- What the code writes to a card file it reads back: the card, its body, and the links and
milestones in their order. -/
theorem parseCardFile_render (hy : y.Lawful) (card : Card K) (links : List CardLink)
    (milestones : List Milestone) (body : String) :
    parseCardFile y (renderCardFrontMatter y card links milestones ++ body.toList) =
      { card
        links := links.filterMap (readBackLink card)
        milestones := milestones.filterMap (readBackMilestone card)
        body
        hasFrontMatter := true } := by
  have hraw : renderCardFrontMatter y card links milestones ++ body.toList =
      '-' :: '-' :: '-' :: '\n' :: (y.emit (cardNode y card links milestones) ++
        "\n---\n".toList ++ body.toList) := by
    simp [renderCardFrontMatter]
  have hload : y.load (y.emit (cardNode y card links milestones)) =
      some (cardNode y card links milestones) := hy.load_emit _
  have hlines : ¬ DelimiterLine (y.emit (cardNode y card links milestones)) := hy.emit_lines _
  have hsplit := splitFirst_delimiter hlines body.toList
  have hlinks : parseSeq (cardNode y card links milestones) "links" (parseLink y card) =
      (links.filterMap (readBackLink card), true) :=
    parseItems_map (parseLink_linkNode hy card) links
  have hmilestones : parseSeq (cardNode y card links milestones) "milestones"
      (parseMilestone y card) = (milestones.filterMap (readBackMilestone card), true) :=
    parseItems_map (parseMilestone_milestoneNode hy card) milestones
  have hcrlf : startsWith "---\r\n"
      (renderCardFrontMatter y card links milestones ++ body.toList) = false := by
    rw [hraw]; simp [startsWith, List.isPrefixOf]
  have hlf : startsWith "---\n"
      (renderCardFrontMatter y card links milestones ++ body.toList) = true := by
    rw [hraw]; simp [startsWith]
  have hdrop : (renderCardFrontMatter y card links milestones ++ body.toList).drop "---\n".length =
      y.emit (cardNode y card links milestones) ++ "\n---\n".toList ++ body.toList := by
    rw [hraw]; rfl
  rw [parseCardFile, hcrlf, hlf]
  simp only [Bool.false_eq_true, ↓reduceIte, parseDelimited, hdrop, hsplit, hload]
  change parseNode y (cardNode y card links milestones) _ body.toList = _
  simp only [parseNode, readCardFields_cardNode hy, hlinks, hmilestones, Bool.not_true,
    Bool.false_eq_true, ↓reduceIte, String.ofList_toList]

end

end HolderCore
