import HolderCore.Ai.Messages
import HolderCore.Project.Malformed

/-! # Half-parsed files

`parse_card_file` and `parse_ai_message_file` set `has_front_matter` before they convert the fields and
take the body last, so a value that does not convert leaves the fields before it together with the
whole text. -/

namespace HolderCore

open YamlNode

/-! ## What converts -/

/-- The value of a key converts, if there is one. -/
def converts (node : YamlNode) (key : String) (as : YamlNode → Option α) : Bool :=
  (node.get? key).all fun value => (as value).isSome

/-- The value of a key converts, if there is one that is not null. -/
def convertsOrNull (node : YamlNode) (key : String) (as : YamlNode → Option α) : Bool :=
  (node.get? key).all fun value => value.isNull || (as value).isSome

/-- The items of a sequence. -/
def listed (node : YamlNode) (key : String) : List YamlNode :=
  match node.get? key with
  | some (.seq items) => items
  | _ => []

structure LinkConverts (y : Yaml K) (item : YamlNode) : Prop where
  target : converts item "to" asString
  toType : converts item "to_type" asString
  kind : converts item "kind" asString
  label : convertsOrNull item "label" asString
  createdAt : converts item "created_at" (asInt y)

structure MilestoneConverts (y : Yaml K) (item : YamlNode) : Prop where
  milestoneId : converts item "milestone_id" asString
  startAt : converts item "start_at" (asInt y)
  endAt : convertsOrNull item "end_at" (asInt y)
  allDay : converts item "all_day" (asBool y)
  kind : convertsOrNull item "kind" asString
  description : convertsOrNull item "description" asString
  createdAt : converts item "created_at" (asInt y)
  updatedAt : converts item "updated_at" (asInt y)

/-- Every value of the map that the parser of card files converts. -/
structure CardConverts (y : Yaml K) (node : YamlNode) : Prop where
  texts : ∀ key ∈ ["card_id", "project_id", "title", "rel_path"], converts node key asString
  times : ∀ key ∈ ["created_at", "updated_at"], converts node key (asInt y)
  sortKey : converts node "sort_key" (asReal y)
  parent : convertsOrNull node "parent_card_id" asString
  deleted : convertsOrNull node "deleted_at" (asInt y)
  links : ∀ entries, .map entries ∈ listed node "links" → LinkConverts y (.map entries)
  milestones : ∀ entries, .map entries ∈ listed node "milestones" →
    MilestoneConverts y (.map entries)

/-- Every value of the map that the parser of message files converts. -/
structure MessageConverts (y : Yaml K) (node : YamlNode) : Prop where
  texts : ∀ key ∈ ["message_id", "thread_id", "project_id", "role", "source"],
    converts node key asString
  createdAt : converts node "created_at" (asInt y)
  nullable : ∀ key ∈ ["provider", "model", "prompt_hash", "meta_json"],
    convertsOrNull node key asString
  links : ∀ entries, .map entries ∈ listed node "links" → LinkConverts y (.map entries)

theorem isSome_readField {node : YamlNode} {key : String} {as : YamlNode → Option α} {current : α} :
    (readField node key as current).isSome = converts node key as := by
  unfold readField converts
  cases node.get? key <;> rfl

theorem isSome_readNullable {node : YamlNode} {key : String} {as : YamlNode → Option α} :
    (readNullable node key as).isSome = convertsOrNull node key as := by
  unfold readNullable convertsOrNull
  cases node.get? key with
  | none => rfl
  | some value => cases h : value.isNull <;> simp [h]

/-- One conversion after the other. -/
theorem isSome_map_do {x : Option α} {f : α → β} :
    (do return f (← x) : Option β).isSome = x.isSome := by
  cases x <;> rfl

theorem of_map_do {x : Option α} {f : α → β} {b : β} (h : (do return f (← x) : Option β) = some b) :
    ∃ a, x = some a ∧ f a = b := by
  cases x with
  | none => cases h
  | some a => exact ⟨a, rfl, Option.some.inj h⟩

theorem isSome_bind_do {x : Option α} {f : α → Option β} {b : Bool}
    (h : ∀ a, x = some a → (f a).isSome = b) : (x >>= f).isSome = (x.isSome && b) := by
  cases x with
  | none => rfl
  | some a => simpa using h a rfl

section
variable [NatCast K] {y : Yaml K}

omit [NatCast K] in
theorem readCardFields_ok {node : YamlNode} {fields : List (YamlNode → Card K → Option (Card K))}
    (h : ∀ field ∈ fields, ∀ card card', (field node card).isSome = (field node card').isSome)
    (card : Card K) : (readCardFields node fields card).2 = true ↔
      ∀ field ∈ fields, (field node card).isSome = true := by
  induction fields generalizing card with
  | nil => simp [readCardFields]
  | cons field fields ih =>
    rw [List.forall_mem_cons, readCardFields]
    cases hfield : field node card with
    | none => simp
    | some card' =>
      rw [ih (fun f hf => h f (List.mem_cons_of_mem _ hf)) card', Option.isSome_some,
        eq_self_iff_true, true_and]
      exact forall₂_congr fun f hf => by rw [h f (List.mem_cons_of_mem _ hf) card' card]

theorem cardFields_ok {node : YamlNode} :
    (readCardFields node (cardFields y) .empty).2 = true ↔
      (∀ key ∈ ["card_id", "project_id", "title", "rel_path"], converts node key asString) ∧
      (∀ key ∈ ["created_at", "updated_at"], converts node key (asInt y)) ∧
      converts node "sort_key" (asReal y) ∧ convertsOrNull node "parent_card_id" asString ∧
      convertsOrNull node "deleted_at" (asInt y) := by
  rw [readCardFields_ok]
  · simp only [cardFields, List.forall_mem_cons, isSome_map_do, isSome_readField, isSome_readNullable,
      List.not_mem_nil, false_imp_iff, implies_true, and_true, and_assoc]
  · simp only [cardFields, List.forall_mem_cons, isSome_map_do, isSome_readField,
      isSome_readNullable, List.not_mem_nil, false_imp_iff, implies_true, and_true]

theorem readMessageFields_ok {node : YamlNode}
    {fields : List (YamlNode → ParsedAiMessageFile → Option ParsedAiMessageFile)}
    (h : ∀ field ∈ fields, ∀ p p', (field node p).isSome = (field node p').isSome)
    (parsed : ParsedAiMessageFile) : (readMessageFields node fields parsed).2 = true ↔
      ∀ field ∈ fields, (field node parsed).isSome = true := by
  induction fields generalizing parsed with
  | nil => simp [readMessageFields]
  | cons field fields ih =>
    rw [List.forall_mem_cons, readMessageFields]
    cases hfield : field node parsed with
    | none => simp
    | some parsed' =>
      rw [ih (fun f hf => h f (List.mem_cons_of_mem _ hf)) parsed', Option.isSome_some,
        eq_self_iff_true, true_and]
      exact forall₂_congr fun f hf => by rw [h f (List.mem_cons_of_mem _ hf) parsed' parsed]

omit [NatCast K] in
theorem messageFields_ok {node : YamlNode} {parsed : ParsedAiMessageFile} :
    (readMessageFields node (messageFields y) parsed).2 = true ↔
      (∀ key ∈ ["message_id", "thread_id", "project_id", "role", "source"],
        converts node key asString) ∧ converts node "created_at" (asInt y) ∧
      ∀ key ∈ ["provider", "model", "prompt_hash", "meta_json"],
        convertsOrNull node key asString := by
  rw [readMessageFields_ok]
  · simp only [messageFields, List.forall_mem_cons, isSome_map_do, isSome_readField,
      isSome_readNullable, List.not_mem_nil, false_imp_iff, implies_true, and_true, and_assoc]
  · simp only [messageFields, List.forall_mem_cons, isSome_map_do, isSome_readField,
      isSome_readNullable, List.not_mem_nil, false_imp_iff, implies_true, and_true]

omit [NatCast K] in
theorem isSome_parseLink {card : Card K} {item : YamlNode} :
    (parseLink y card item).isSome = true ↔ ∀ entries, item = .map entries → LinkConverts y item := by
  cases item with
  | map entries =>
    have hread : (parseLink y card (.map entries)).isSome =
        (converts (.map entries) "to" asString && (converts (.map entries) "to_type" asString &&
          (converts (.map entries) "kind" asString &&
            (convertsOrNull (.map entries) "label" asString &&
              converts (.map entries) "created_at" (asInt y))))) := by
      unfold parseLink
      simp only [← @isSome_readField _ (.map entries) _ asString "",
        ← @isSome_readField _ (.map entries) _ (asInt y) 0, ← isSome_readNullable]
      refine isSome_bind_do fun _ _ => isSome_bind_do fun _ _ => isSome_bind_do fun _ _ =>
        isSome_bind_do fun _ _ => isSome_map_do
    rw [hread]
    simp only [Bool.and_eq_true]
    exact ⟨fun ⟨h1, h2, h3, h4, h5⟩ _ _ => ⟨h1, h2, h3, h4, h5⟩,
      fun h => have h := h entries rfl; ⟨h.target, h.toType, h.kind, h.label, h.createdAt⟩⟩
  | _ => simp [parseLink]

omit [NatCast K] in
theorem isSome_parseMilestone {card : Card K} {item : YamlNode} :
    (parseMilestone y card item).isSome = true ↔
      ∀ entries, item = .map entries → MilestoneConverts y item := by
  cases item with
  | map entries =>
    have hread : (parseMilestone y card (.map entries)).isSome =
        (converts (.map entries) "milestone_id" asString &&
          (converts (.map entries) "start_at" (asInt y) &&
            (convertsOrNull (.map entries) "end_at" (asInt y) &&
              (converts (.map entries) "all_day" (asBool y) &&
                (convertsOrNull (.map entries) "kind" asString &&
                  (convertsOrNull (.map entries) "description" asString &&
                    (converts (.map entries) "created_at" (asInt y) &&
                      converts (.map entries) "updated_at" (asInt y)))))))) := by
      unfold parseMilestone
      simp only [← @isSome_readField _ (.map entries) _ asString "",
        ← @isSome_readField _ (.map entries) _ (asInt y) 0,
        ← @isSome_readField _ (.map entries) _ (asBool y) false, ← isSome_readNullable]
      refine isSome_bind_do fun _ _ => isSome_bind_do fun _ _ => isSome_bind_do fun _ _ =>
        isSome_bind_do fun _ _ => isSome_bind_do fun _ _ => isSome_bind_do fun _ _ =>
          isSome_bind_do fun _ _ => isSome_map_do
    rw [hread]
    simp only [Bool.and_eq_true]
    exact ⟨fun ⟨h1, h2, h3, h4, h5, h6, h7, h8⟩ _ _ => ⟨h1, h2, h3, h4, h5, h6, h7, h8⟩,
      fun h => have h := h entries rfl
        ⟨h.milestoneId, h.startAt, h.endAt, h.allDay, h.kind, h.description, h.createdAt,
          h.updatedAt⟩⟩
  | _ => simp [parseMilestone]

theorem parseItems_ok {parse : YamlNode → Option (Option α)} {items : List YamlNode} :
    (parseItems parse items).2 = true ↔ ∀ item ∈ items, (parse item).isSome = true := by
  induction items with
  | nil => simp [parseItems]
  | cons item items ih =>
    rw [List.forall_mem_cons, parseItems]
    cases parse item with
    | none => simp
    | some read => cases read <;> simp [ih]

theorem parseItems_listed (parse : YamlNode → Option (Option α)) (items : List YamlNode)
    (h : (parseItems parse items).2 = true) :
    (parseItems parse items).1 = items.filterMap fun item => (parse item).join := by
  induction items with
  | nil => rfl
  | cons item items ih =>
    rw [parseItems] at h ⊢
    rw [List.filterMap_cons]
    cases hitem : parse item with
    | none =>
      rw [hitem] at h
      cases h
    | some read =>
      rw [hitem] at h
      cases read with
      | none => simpa using ih h
      | some a => simpa using ih h

theorem parseSeq_eq {node : YamlNode} {key : String} {parse : YamlNode → Option (Option α)} :
    parseSeq node key parse = parseItems parse (listed node key) := by
  unfold parseSeq listed
  cases node.get? key with
  | none => rfl
  | some value => cases value <;> rfl

/-- The items of a sequence that convert, in order. -/
def convertible (node : YamlNode) (key : String) (parse : YamlNode → Option (Option α)) : List α :=
  (listed node key).filterMap fun item => (parse item).join

/-! ## The two parsers -/

/-- What is behind the first closing delimiter is shorter than the text. -/
theorem splitFirst_length {d text before after : Bytes} (h : splitFirst d text = some (before, after)) :
    after.length ≤ text.length := by
  induction text generalizing before with
  | nil =>
    unfold splitFirst at h
    split at h
    · cases h
      exact le_rfl
    · cases h
  | cons c cs ih =>
    unfold splitFirst at h
    split at h
    · cases h
      rw [List.length_drop]
      omega
    · obtain ⟨⟨before', after'⟩, hrest, he⟩ := Option.map_eq_some_iff.mp h
      cases he
      exact (ih hrest).trans (Nat.le_succ _)

theorem frontMatter_ne {raw yamlText rest : Bytes} (h : frontMatter raw = some (yamlText, rest)) :
    String.ofList raw ≠ String.ofList rest := by
  intro he
  obtain rfl := String.ofList_inj.mp he
  unfold frontMatter at h
  split at h
  · next hcrlf =>
    have hle := splitFirst_length h
    have hstart : "---\r\n".toList <+: raw := List.isPrefixOf_iff_prefix.mp hcrlf
    have hpos := hstart.length_le
    rw [List.length_drop] at hle
    have hlen : "---\r\n".length = 5 := rfl
    have hlen' : "---\r\n".toList.length = 5 := rfl
    omega
  · split at h
    · next hlf =>
      have hle := splitFirst_length h
      have hstart : "---\n".toList <+: raw := List.isPrefixOf_iff_prefix.mp hlf
      have hpos := hstart.length_le
      rw [List.length_drop] at hle
      have hlen : "---\n".length = 4 := rfl
      have hlen' : "---\n".toList.length = 4 := rfl
      omega
    · cases h

/-- The map of the front matter and the text behind the first closing delimiter. -/
def loadedMap (y : Yaml K) (raw : Bytes) : Option (YamlNode × Bytes) :=
  match frontMatter raw with
  | none => none
  | some (yamlText, body) =>
    match y.load yamlText with
    | some (.map entries) => some (.map entries, body)
    | _ => none

omit [NatCast K] in
theorem loadedMap_ne {raw body : Bytes} {node : YamlNode} (h : loadedMap y raw = some (node, body)) :
    String.ofList raw ≠ String.ofList body := by
  unfold loadedMap at h
  split at h
  · cases h
  · next hfront =>
    split at h
    · cases h
      exact frontMatter_ne hfront
    · cases h

theorem parseCardFile_eq {raw : Bytes} : parseCardFile y raw =
    match loadedMap y raw with
    | some (node, body) => parseNode y node raw body
    | none => noFrontMatter raw := by
  have hparse : parseCardFile y raw =
      match frontMatter raw with
      | none => noFrontMatter raw
      | some (yamlText, body) =>
        match y.load yamlText with
        | some (.map entries) => parseNode y (.map entries) raw body
        | _ => noFrontMatter raw := by
    unfold parseCardFile frontMatter parseDelimited
    split
    · rfl
    · split <;> rfl
  rw [hparse]
  unfold loadedMap
  split
  · rfl
  · split <;> rfl

theorem parseAiMessageFile_eq {raw : Bytes} : parseAiMessageFile y raw =
    match loadedMap y raw with
    | some (node, body) => parseMessageNode y node raw body
    | none => noMessageFrontMatter raw := by
  have hparse : parseAiMessageFile y raw =
      match frontMatter raw with
      | none => noMessageFrontMatter raw
      | some (yamlText, body) =>
        match y.load yamlText with
        | some (.map entries) => parseMessageNode y (.map entries) raw body
        | _ => noMessageFrontMatter raw := by
    unfold parseAiMessageFile frontMatter parseMessageDelimited
    split
    · rfl
    · split <;> rfl
  rw [hparse]
  unfold loadedMap
  split
  · rfl
  · split <;> rfl

/-- A card file is parsed as a whole: front matter with the text behind it and everything listed that
converts, or no front matter and the text as it is. -/
def CardParsedWhole (y : Yaml K) (raw : Bytes) : Prop :=
  if (parseCardFile y raw).hasFrontMatter then
    ∃ node rest, loadedMap y raw = some (node, rest) ∧
      (parseCardFile y raw).body = String.ofList rest ∧
      (parseCardFile y raw).links =
        convertible node "links" (parseLink y (parseCardFile y raw).card) ∧
      (parseCardFile y raw).milestones =
        convertible node "milestones" (parseMilestone y (parseCardFile y raw).card)
  else (parseCardFile y raw).body = String.ofList raw

/-- A message file is parsed as a whole. -/
def MessageParsedWhole (y : Yaml K) (raw : Bytes) : Prop :=
  if (parseAiMessageFile y raw).hasFrontMatter then
    ∃ node rest, loadedMap y raw = some (node, rest) ∧
      (parseAiMessageFile y raw).body = String.ofList rest ∧
      (parseAiMessageFile y raw).links = convertible node "links" (parseLink y
        (messageOwner (parseAiMessageFile y raw).projectId (parseAiMessageFile y raw).message : Card K))
  else (parseAiMessageFile y raw).body = String.ofList raw

theorem cardConverts_iff {node : YamlNode} (card : Card K) : CardConverts y node ↔
    (readCardFields node (cardFields y) .empty).2 = true ∧
      (parseSeq node "links" (parseLink y card)).2 = true ∧
      (parseSeq node "milestones" (parseMilestone y card)).2 = true := by
  rw [cardFields_ok, parseSeq_eq, parseItems_ok, parseSeq_eq, parseItems_ok]
  constructor
  · intro h
    refine ⟨⟨h.texts, h.times, h.sortKey, h.parent, h.deleted⟩, fun item hitem => ?_,
      fun item hitem => ?_⟩
    · exact isSome_parseLink.mpr fun entries he => he ▸ h.links entries (he ▸ hitem)
    · exact isSome_parseMilestone.mpr fun entries he => he ▸ h.milestones entries (he ▸ hitem)
  · rintro ⟨⟨htexts, htimes, hkey, hparent, hdeleted⟩, hlinks, hmilestones⟩
    exact ⟨htexts, htimes, hkey, hparent, hdeleted,
      fun entries he => isSome_parseLink.mp (hlinks _ he) entries rfl,
      fun entries he => isSome_parseMilestone.mp (hmilestones _ he) entries rfl⟩

omit [NatCast K] in
theorem messageConverts_iff {node : YamlNode} (parsed : ParsedAiMessageFile) (card : Card K) :
    MessageConverts y node ↔ (readMessageFields node (messageFields y) parsed).2 = true ∧
      (parseSeq node "links" (parseLink y card)).2 = true := by
  rw [messageFields_ok, parseSeq_eq, parseItems_ok]
  constructor
  · intro h
    exact ⟨⟨h.texts, h.createdAt, h.nullable⟩, fun item hitem =>
      isSome_parseLink.mpr fun entries he => he ▸ h.links entries (he ▸ hitem)⟩
  · rintro ⟨⟨htexts, hcreated, hnullable⟩, hlinks⟩
    exact ⟨htexts, hcreated, hnullable, fun entries he =>
      isSome_parseLink.mp (hlinks _ he) entries rfl⟩

/-- The body is taken, and everything listed with it, when every value converts. -/
theorem parseNode_whole (node : YamlNode) {raw body : Bytes}
    (hne : String.ofList raw ≠ String.ofList body) :
    ((parseNode y node raw body).body = String.ofList body ∧
      (parseNode y node raw body).links =
        convertible node "links" (parseLink y (parseNode y node raw body).card) ∧
      (parseNode y node raw body).milestones =
        convertible node "milestones" (parseMilestone y (parseNode y node raw body).card)) ↔
      CardConverts y node := by
  rcases hfields : readCardFields node (cardFields y) .empty with ⟨card, fieldsOk⟩
  rcases hlinks : parseSeq node "links" (parseLink y card) with ⟨links, linksOk⟩
  rcases hmilestones : parseSeq node "milestones" (parseMilestone y card) with ⟨milestones, ok⟩
  rw [cardConverts_iff card, hfields, hlinks, hmilestones]
  unfold parseNode
  simp only [hfields, hlinks, hmilestones]
  cases fieldsOk with
  | false => simp [hne]
  | true =>
    cases linksOk with
    | false => simp [hne]
    | true =>
      cases ok with
      | false => simp [hne]
      | true =>
        have hall := parseItems_listed (parseLink y card) (listed node "links")
          (by rw [← parseSeq_eq, hlinks])
        have hall' := parseItems_listed (parseMilestone y card)
          (listed node "milestones") (by rw [← parseSeq_eq, hmilestones])
        rw [← parseSeq_eq, hlinks] at hall
        rw [← parseSeq_eq, hmilestones] at hall'
        simp only [Bool.not_true, Bool.false_eq_true, if_false, if_true, true_and, and_self, iff_true]
        exact ⟨hall, hall'⟩

omit [NatCast K] in
/-- The scalar fields leave the body and the flag as they are. -/
theorem readMessageFields_keeps {node : YamlNode}
    {fields : List (YamlNode → ParsedAiMessageFile → Option ParsedAiMessageFile)}
    (h : ∀ field ∈ fields, ∀ p p', field node p = some p' →
      p'.body = p.body ∧ p'.hasFrontMatter = p.hasFrontMatter) (parsed : ParsedAiMessageFile) :
    (readMessageFields node fields parsed).1.body = parsed.body ∧
      (readMessageFields node fields parsed).1.hasFrontMatter = parsed.hasFrontMatter := by
  induction fields generalizing parsed with
  | nil => exact ⟨rfl, rfl⟩
  | cons field fields ih =>
    rw [readMessageFields]
    cases hfield : field node parsed with
    | none => exact ⟨rfl, rfl⟩
    | some parsed' =>
      obtain ⟨hbody, hflag⟩ := h field List.mem_cons_self parsed parsed' hfield
      have hrest := ih (fun f hf => h f (List.mem_cons_of_mem _ hf)) parsed'
      exact ⟨hrest.1.trans hbody, hrest.2.trans hflag⟩

omit [NatCast K] in
theorem messageFields_keeps (node : YamlNode) (parsed : ParsedAiMessageFile) :
    (readMessageFields node (messageFields y) parsed).1.body = parsed.body ∧
      (readMessageFields node (messageFields y) parsed).1.hasFrontMatter =
        parsed.hasFrontMatter := by
  refine readMessageFields_keeps ?_ parsed
  simp only [messageFields, List.forall_mem_cons, List.not_mem_nil, false_imp_iff, implies_true,
    and_true]
  refine ⟨?_, ?_, ?_, ?_, ?_, ?_, ?_, ?_, ?_, ?_⟩ <;>
  · intro p p' h
    obtain ⟨_, -, rfl⟩ := of_map_do h
    exact ⟨rfl, rfl⟩

theorem parseMessageNode_whole (node : YamlNode) {raw body : Bytes}
    (hne : String.ofList raw ≠ String.ofList body) :
    ((parseMessageNode y node raw body).body = String.ofList body ∧
      (parseMessageNode y node raw body).links = convertible node "links" (parseLink y
        (messageOwner (parseMessageNode y node raw body).projectId
          (parseMessageNode y node raw body).message : Card K))) ↔ MessageConverts y node := by
  have hbody := (messageFields_keeps (y := y) node
    { noMessageFrontMatter raw with hasFrontMatter := true }).1
  rcases hfields : readMessageFields node (messageFields y)
    { noMessageFrontMatter raw with hasFrontMatter := true } with ⟨parsed, fieldsOk⟩
  rcases hlinks : parseSeq node "links"
    (parseLink y (messageOwner parsed.projectId parsed.message : Card K)) with ⟨links, linksOk⟩
  rw [messageConverts_iff { noMessageFrontMatter raw with hasFrontMatter := true }
    (messageOwner parsed.projectId parsed.message : Card K), hfields, hlinks]
  rw [hfields] at hbody
  unfold parseMessageNode
  simp only [hfields, hlinks]
  cases fieldsOk with
  | false =>
    have hraw : parsed.body ≠ String.ofList body := fun he => hne (hbody.symm.trans he)
    simp [hraw]
  | true =>
    cases linksOk with
    | false => simp [hne]
    | true =>
      have hall := parseItems_listed
        (parseLink y (messageOwner parsed.projectId parsed.message : Card K)) (listed node "links")
        (by rw [← parseSeq_eq, hlinks])
      rw [← parseSeq_eq, hlinks] at hall
      simp only [Bool.not_true, Bool.false_eq_true, if_false, if_true, true_and, and_self, iff_true]
      exact hall

theorem parseNode_hasFrontMatter {node : YamlNode} {raw body : Bytes} :
    (parseNode y node raw body).hasFrontMatter = true := by
  unfold parseNode
  split
  split
  · rfl
  · split
    split <;> rfl

theorem parseMessageNode_hasFrontMatter {node : YamlNode} {raw body : Bytes} :
    (parseMessageNode y node raw body).hasFrontMatter = true := by
  have hflag := (messageFields_keeps (y := y) node
    { noMessageFrontMatter raw with hasFrontMatter := true }).2
  unfold parseMessageNode
  rcases hfields : readMessageFields node (messageFields y)
    { noMessageFrontMatter raw with hasFrontMatter := true } with ⟨parsed, fieldsOk⟩
  rw [hfields] at hflag
  cases fieldsOk <;> exact hflag

/-- A card file is parsed as a whole when every value of its front matter converts. -/
theorem cardParsedWhole_iff {raw : Bytes} : CardParsedWhole y raw ↔
    ∀ node rest, loadedMap y raw = some (node, rest) → CardConverts y node := by
  unfold CardParsedWhole
  rw [parseCardFile_eq]
  cases hload : loadedMap y raw with
  | none => simp [noFrontMatter]
  | some loaded =>
    obtain ⟨node, rest⟩ := loaded
    simp only [parseNode_hasFrontMatter, if_true, Option.some.injEq, Prod.mk.injEq]
    have hwhole := parseNode_whole (y := y) node (loadedMap_ne hload)
    constructor
    · rintro ⟨node', rest', ⟨rfl, rfl⟩, hbody⟩ _ _ ⟨rfl, rfl⟩
      exact hwhole.mp hbody
    · intro h
      exact ⟨node, rest, ⟨rfl, rfl⟩, hwhole.mpr (h node rest ⟨rfl, rfl⟩)⟩

/-- A message file likewise. -/
theorem messageParsedWhole_iff {raw : Bytes} : MessageParsedWhole y raw ↔
    ∀ node rest, loadedMap y raw = some (node, rest) → MessageConverts y node := by
  unfold MessageParsedWhole
  rw [parseAiMessageFile_eq]
  cases hload : loadedMap y raw with
  | none => simp [noMessageFrontMatter]
  | some loaded =>
    obtain ⟨node, rest⟩ := loaded
    simp only [parseMessageNode_hasFrontMatter, if_true, Option.some.injEq, Prod.mk.injEq]
    have hwhole := parseMessageNode_whole (y := y) node (loadedMap_ne hload)
    constructor
    · rintro ⟨node', rest', ⟨rfl, rfl⟩, hbody⟩ _ _ ⟨rfl, rfl⟩
      exact hwhole.mp hbody
    · intro h
      exact ⟨node, rest, ⟨rfl, rfl⟩, hwhole.mpr (h node rest ⟨rfl, rfl⟩)⟩

end

/-- Both parsers parse a file as a whole exactly when every value of its front matter converts. -/
theorem parsedWhole_iff [NatCast K] (y : Yaml K) (raw : Bytes) :
    (CardParsedWhole y raw ↔ ∀ node rest, loadedMap y raw = some (node, rest) → CardConverts y node) ∧
    (MessageParsedWhole y raw ↔
      ∀ node rest, loadedMap y raw = some (node, rest) → MessageConverts y node) :=
  ⟨cardParsedWhole_iff, messageParsedWhole_iff⟩

theorem loadedMap_delimited (entries : List (String × YamlNode)) (body : String) :
    loadedMap flowYaml (delimited (.map entries) body) = some (.map entries, body.toList) := by
  have hsplit := splitFirst_delimiter (flowYaml_lawful.emit_lines entries) body.toList
  have hraw : delimited (.map entries) body = '-' :: '-' :: '-' :: '\n' ::
      (flowYaml.emit (.map entries) ++ "\n---\n".toList ++ body.toList) := by
    simp [delimited]
  have hcrlf : startsWith "---\r\n" (delimited (.map entries) body) = false := by
    rw [hraw]; simp [startsWith, List.isPrefixOf]
  have hlf : startsWith "---\n" (delimited (.map entries) body) = true := by
    rw [hraw]; simp [startsWith]
  have hdrop : (delimited (.map entries) body).drop "---\n".length =
      flowYaml.emit (.map entries) ++ "\n---\n".toList ++ body.toList := by
    rw [hraw]; rfl
  have hfront : frontMatter (delimited (.map entries) body) =
      some (flowYaml.emit (.map entries), body.toList) := by
    rw [frontMatter, hcrlf, hlf]
    simp only [Bool.false_eq_true, if_false, if_true, hdrop, hsplit]
  unfold loadedMap
  simp only [hfront, flowYaml_lawful.load_emit]

/-- A card whose time of creation is a list. -/
def untimedCard : List (String × YamlNode) :=
  [("card_id", .scalar idA), ("title", .scalar "a"), ("created_at", .seq [])]

/-- The title is read from the front matter, and the body is the whole file. -/
theorem untimedCard_halfParsed :
    (parseCardFile flowYaml (delimited (.map untimedCard) "b")).hasFrontMatter = true ∧
    (parseCardFile flowYaml (delimited (.map untimedCard) "b")).card.title = "a" ∧
    (parseCardFile flowYaml (delimited (.map untimedCard) "b")).body =
      String.ofList (delimited (.map untimedCard) "b") ∧
    ¬ CardParsedWhole flowYaml (delimited (.map untimedCard) "b") ∧
    ¬ MessageParsedWhole flowYaml (delimited (.map untimedCard) "b") := by
  have hload := loadedMap_delimited untimedCard "b"
  generalize delimited (.map untimedCard) "b" = raw at hload ⊢
  have htimes : converts (.map untimedCard) "created_at" (asInt flowYaml) = false := by
    simp [converts, untimedCard, get?, asInt]
  have hfields : (readCardFields (.map untimedCard) (cardFields flowYaml) .empty).2 = false ∧
      (readCardFields (.map untimedCard) (cardFields flowYaml) .empty).1.title = "a" := by
    simp [cardFields, readCardFields, readField, untimedCard, get?, asString, asInt]
  have hcard : parseCardFile flowYaml raw = parseNode flowYaml (.map untimedCard) raw "b".toList := by
    rw [parseCardFile_eq, hload]
  rcases hread : readCardFields (.map untimedCard) (cardFields flowYaml) .empty with ⟨card, ok⟩
  rw [hread] at hfields
  obtain ⟨rfl, htitle⟩ := hfields
  rw [hcard]
  refine ⟨parseNode_hasFrontMatter, ?_, ?_, fun hwhole => ?_, fun hwhole => ?_⟩
  · simp only [parseNode, hread, Bool.not_false, if_true]
    exact htitle
  · simp only [parseNode, hread, Bool.not_false, if_true]
  · have hconverts := cardParsedWhole_iff.mp hwhole _ _ hload
    have hcreated := hconverts.times "created_at" List.mem_cons_self
    rw [htimes] at hcreated
    cases hcreated
  · have hconverts := messageParsedWhole_iff.mp hwhole _ _ hload
    have hcreated := hconverts.createdAt
    rw [htimes] at hcreated
    cases hcreated

end HolderCore
