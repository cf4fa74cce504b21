import HolderCore.Card.World

/-! # A YAML library

A lawful library for exact sort keys, to run the model on: it writes flow style on one line, with
every scalar in double quotes, and reads that back. -/

namespace HolderCore.FlowYaml

/-! ## Nodes -/

def escape : Char → List Char
  | '"' => ['\\', '"']
  | '\\' => ['\\', '\\']
  | '\n' => ['\\', 'n']
  | c => [c]

/-- A text in double quotes, without the opening one. -/
def quoted (text : List Char) : List Char := text.flatMap escape ++ ['"']

/-- The text up to the closing quote, and what comes after it. -/
def unquote : List Char → Option (List Char × List Char)
  | [] => none
  | '"' :: rest => some ([], rest)
  | '\\' :: 'n' :: rest => (unquote rest).map fun (text, rest) => ('\n' :: text, rest)
  | '\\' :: c :: rest => (unquote rest).map fun (text, rest) => (c :: text, rest)
  | c :: rest => (unquote rest).map fun (text, rest) => (c :: text, rest)

mutual

def emitNode : YamlNode → List Char
  | .null => ['~']
  | .scalar text => '"' :: quoted text.toList
  | .seq items => '[' :: emitItems items
  | .map entries => '{' :: emitEntries entries

def emitItems : List YamlNode → List Char
  | [] => [']']
  | item :: items => emitNode item ++ ',' :: emitItems items

def emitEntries : List (String × YamlNode) → List Char
  | [] => ['}']
  | (key, node) :: entries =>
    '"' :: quoted key.toList ++ ':' :: ' ' :: emitNode node ++ ',' :: emitEntries entries

end

mutual

def loadNode : (fuel : Nat) → List Char → Option (YamlNode × List Char)
  | 0, _ => none
  | _ + 1, '~' :: rest => some (.null, rest)
  | _ + 1, '"' :: rest => do
    let (text, rest) ← unquote rest
    return (.scalar (String.ofList text), rest)
  | fuel + 1, '[' :: rest => do
    let (items, rest) ← loadItems fuel rest
    return (.seq items, rest)
  | fuel + 1, '{' :: rest => do
    let (entries, rest) ← loadEntries fuel rest
    return (.map entries, rest)
  | _ + 1, _ => none

def loadItems : (fuel : Nat) → List Char → Option (List YamlNode × List Char)
  | 0, _ => none
  | _ + 1, ']' :: rest => some ([], rest)
  | fuel + 1, text =>
    match loadNode fuel text with
    | some (item, ',' :: rest) => do
      let (items, rest) ← loadItems fuel rest
      return (item :: items, rest)
    | _ => none

def loadEntries : (fuel : Nat) → List Char → Option (List (String × YamlNode) × List Char)
  | 0, _ => none
  | _ + 1, '}' :: rest => some ([], rest)
  | fuel + 1, '"' :: rest =>
    match unquote rest with
    | some (key, ':' :: ' ' :: rest) =>
      match loadNode fuel rest with
      | some (node, ',' :: rest) => do
        let (entries, rest) ← loadEntries fuel rest
        return ((String.ofList key, node) :: entries, rest)
      | _ => none
    | _ => none
  | _ + 1, _ => none

end

theorem unquote_quoted (text rest : List Char) : unquote (quoted text ++ rest) = some (text, rest) := by
  induction text with
  | nil => rfl
  | cons c text ih =>
    have hq : quoted (c :: text) ++ rest = escape c ++ (quoted text ++ rest) := by
      simp [quoted]
    rw [hq]
    unfold escape
    split
    · simp [unquote, ih]
    · simp [unquote, ih]
    · simp [unquote, ih]
    · next h1 h2 h3 =>
      rw [List.singleton_append, unquote.eq_def]
      split
      · cases ‹c :: _ = []›
      · next h => exact absurd (List.cons.inj h).1 h1
      · next h => exact absurd (List.cons.inj h).1 h2
      · next h => exact absurd (List.cons.inj h).1 h2
      · next c' rest' _ _ _ h =>
        obtain ⟨rfl, rfl⟩ := List.cons.inj h
        rw [ih]
        rfl

theorem emitNode_head (node : YamlNode) :
    ∃ c cs, emitNode node = c :: cs ∧ c ≠ ']' ∧ c ≠ '-' := by
  cases node with
  | null => exact ⟨_, _, by rw [emitNode], by decide⟩
  | scalar text => exact ⟨_, _, by rw [emitNode], by decide⟩
  | seq items => exact ⟨_, _, by rw [emitNode], by decide⟩
  | map entries => exact ⟨_, _, by rw [emitNode], by decide⟩

mutual

theorem loadNode_emitNode (node : YamlNode) (rest : List Char) (fuel : Nat)
    (h : (emitNode node).length ≤ fuel) : loadNode fuel (emitNode node ++ rest) = some (node, rest) := by
  match fuel, node with
  | 0, node =>
    obtain ⟨c, cs, he, -⟩ := emitNode_head node
    rw [he] at h
    cases h
  | fuel + 1, .null => rfl
  | fuel + 1, .scalar text =>
    rw [emitNode, List.cons_append, loadNode, unquote_quoted]
    simp
  | fuel + 1, .seq items =>
    rw [emitNode] at h ⊢
    rw [List.cons_append, loadNode, loadItems_emitItems items rest fuel (by simpa using h)]
    rfl
  | fuel + 1, .map entries =>
    rw [emitNode] at h ⊢
    rw [List.cons_append, loadNode, loadEntries_emitEntries entries rest fuel (by simpa using h)]
    rfl

theorem loadItems_emitItems (items : List YamlNode) (rest : List Char) (fuel : Nat)
    (h : (emitItems items).length ≤ fuel) :
    loadItems fuel (emitItems items ++ rest) = some (items, rest) := by
  match fuel, items with
  | 0, [] => simp [emitItems] at h
  | 0, item :: items => simp [emitItems] at h
  | fuel + 1, [] => rfl
  | fuel + 1, item :: items =>
    obtain ⟨c, cs, he, hne⟩ := emitNode_head item
    rw [emitItems, List.length_append, List.length_cons] at h
    have hitem := loadNode_emitNode item (',' :: emitItems items ++ rest) fuel (by omega)
    have hitems := loadItems_emitItems items rest fuel (by rw [he] at h; simp at h; omega)
    have hnext : ∀ r, emitNode item ++ (',' :: emitItems items ++ rest) ≠ ']' :: r := by
      intro r heq
      rw [he, List.cons_append] at heq
      exact hne.1 (List.cons.inj heq).1
    rw [emitItems, List.append_assoc, loadItems.eq_3 _ _ hnext, hitem]
    simp only [List.cons_append, hitems]
    rfl

theorem loadEntries_emitEntries (entries : List (String × YamlNode)) (rest : List Char) (fuel : Nat)
    (h : (emitEntries entries).length ≤ fuel) :
    loadEntries fuel (emitEntries entries ++ rest) = some (entries, rest) := by
  match fuel, entries with
  | 0, [] => simp [emitEntries] at h
  | 0, (key, node) :: entries => simp [emitEntries] at h
  | fuel + 1, [] => rfl
  | fuel + 1, (key, node) :: entries =>
    simp only [emitEntries, List.cons_append, List.append_assoc, List.length_cons,
      List.length_append] at h ⊢
    have hnode := loadNode_emitNode node (',' :: (emitEntries entries ++ rest)) fuel (by omega)
    have hentries := loadEntries_emitEntries entries rest fuel (by omega)
    rw [loadEntries, unquote_quoted]
    simp only [hnode, hentries]
    simp

end

theorem newline_not_mem_quoted (text : List Char) : '\n' ∉ quoted text := by
  simp only [quoted, List.mem_append, List.mem_flatMap, List.mem_singleton]
  rintro (⟨c, -, hc⟩ | hc)
  · unfold escape at hc
    split at hc
    · simp at hc
    · simp at hc
    · simp at hc
    · next h => exact h (List.mem_singleton.mp hc).symm
  · cases hc

mutual

theorem newline_not_mem_emitNode (node : YamlNode) : '\n' ∉ emitNode node := by
  match node with
  | .null => simp [emitNode]
  | .scalar text => simpa [emitNode] using newline_not_mem_quoted text.toList
  | .seq items => simpa [emitNode] using newline_not_mem_emitItems items
  | .map entries => simpa [emitNode] using newline_not_mem_emitEntries entries

theorem newline_not_mem_emitItems (items : List YamlNode) : '\n' ∉ emitItems items := by
  match items with
  | [] => simp [emitItems]
  | item :: items =>
    simpa [emitItems] using ⟨newline_not_mem_emitNode item, newline_not_mem_emitItems items⟩

theorem newline_not_mem_emitEntries (entries : List (String × YamlNode)) :
    '\n' ∉ emitEntries entries := by
  match entries with
  | [] => simp [emitEntries]
  | (key, node) :: entries =>
    simpa [emitEntries] using ⟨newline_not_mem_quoted key.toList, newline_not_mem_emitNode node,
      newline_not_mem_emitEntries entries⟩

end

theorem emitNode_no_delimiter (node : YamlNode) : ¬ DelimiterLine (emitNode node) := by
  rintro ⟨before, after, he, hbefore, -⟩
  rcases hbefore with rfl | hlast
  · obtain ⟨c, cs, hc, -, hne⟩ := emitNode_head node
    rw [hc] at he
    exact hne (List.cons.inj he).1
  · refine newline_not_mem_emitNode node ?_
    rw [he]
    simp [List.mem_of_getLast? hlast]

/-! ## Scalars -/

def formatInt : Int → List Char
  | .ofNat n => Nat.toDigits 10 n
  | .negSucc n => '-' :: Nat.toDigits 10 (n + 1)

def parseInt : List Char → Int
  | '-' :: digits => -(Nat.ofDigitChars 10 digits 0 : Nat)
  | digits => (Nat.ofDigitChars 10 digits 0 : Nat)

theorem parseInt_formatInt (i : Int) : parseInt (formatInt i) = i := by
  cases i with
  | ofNat n =>
    have hdigit := fun (c : Char) => Nat.isDigit_of_mem_toDigits (b := 10) (n := n) (c := c)
      (by decide) (by decide)
    rw [formatInt, parseInt.eq_def]
    split
    · next heq =>
      have := hdigit '-' (by simp [heq])
      cases this
    · simp
  | negSucc n =>
    simp only [formatInt, parseInt, Nat.ofDigitChars_ten_toDigits]
    omega

/-- A whole number, or a fraction. -/
def formatReal (q : ℚ) : List Char :=
  formatInt q.num ++ if q.den = 1 then [] else '/' :: Nat.toDigits 10 q.den

def parseReal (text : List Char) : ℚ :=
  mkRat (parseInt (text.takeWhile (· != '/')))
    (match text.dropWhile (· != '/') with
    | _ :: digits => Nat.ofDigitChars 10 digits 0
    | [] => 1)

theorem formatInt_ne_slash (i : Int) : ∀ c ∈ formatInt i, (c != '/') = true := by
  have hdigit : ∀ (n : Nat), ∀ c ∈ Nat.toDigits 10 n, (c != '/') = true := by
    intro n c hc
    have := Nat.isDigit_of_mem_toDigits (b := 10) (by decide) (by decide) hc
    rw [bne_iff_ne]
    rintro rfl
    cases this
  cases i with
  | ofNat n => exact hdigit n
  | negSucc n =>
    intro c hc
    rcases List.mem_cons.mp hc with rfl | hc
    · rfl
    · exact hdigit _ c hc

theorem parseReal_formatReal (q : ℚ) : parseReal (formatReal q) = q := by
  have hint := formatInt_ne_slash q.num
  unfold parseReal formatReal
  rw [List.takeWhile_append_of_pos hint, List.dropWhile_append_of_pos hint]
  split
  · next hden =>
    simp only [List.takeWhile_nil, List.append_nil, List.dropWhile_nil, parseInt_formatInt]
    exact hden ▸ Rat.mkRat_self q
  · simp [parseInt_formatInt, Rat.mkRat_self]

end FlowYaml

open FlowYaml

def flowYaml : Yaml ℚ where
  formatInt i := String.ofList (FlowYaml.formatInt i)
  formatReal q := String.ofList (FlowYaml.formatReal q)
  formatBool b := if b then "true" else "false"
  parseInt text := some (FlowYaml.parseInt text.toList)
  parseReal text := some (FlowYaml.parseReal text.toList)
  parseBool text := if text = "true" then some true else if text = "false" then some false else none
  emit := emitNode
  load text :=
    match loadNode text.length text with
    | some (node, []) => some node
    | _ => none

/-- A key store without keys, and a cipher that writes the plaintext into its envelopes. -/
def plainPrivacy : Privacy where
  loadKeyMaterial _ _ := .error (.runtimeError "project key not found")
  encipher _ _ _ plaintext := plaintext
  decryptEnvelope _ _ envelope := .ok (envelope.drop envelopeMagic.toList.length)

/-- An unencrypted project on a file system that lists directories in order. -/
def plainEnv (extractTags : String → List String) : Env ℚ where
  project := ⟨"home", .plain, none⟩
  fts := true
  yaml := flowYaml
  privacy := plainPrivacy
  extractTags
  lastWriteTime _ := 1
  directoryOrder paths := paths

/-- A root card of that project, as a client hands it to `create`. -/
def plainCard (cardId title : String) (parentCardId : Option String) (now : Int) : Card ℚ where
  cardId
  projectId := "home"
  title
  relPath := ""
  parentCardId
  sortKey := 0
  createdAt := now
  updatedAt := now
  deletedAt := none

theorem flowYaml_lawful : flowYaml.Lawful where
  parseInt_formatInt i := by simp [flowYaml, FlowYaml.parseInt_formatInt]
  parseReal_formatReal q := by simp [flowYaml, FlowYaml.parseReal_formatReal]
  parseBool_formatBool b := by cases b <;> decide
  load_emit entries := by
    have := loadNode_emitNode (.map entries) [] _ (le_refl _)
    rw [List.append_nil] at this
    simp [flowYaml, this]
  emit_lines entries := by
    exact emitNode_no_delimiter (.map entries)

theorem plainPrivacy_lawful : plainPrivacy.Lawful where
  decrypt_encrypt key keyId iv plaintext := by
    simp [plainPrivacy]

theorem plainEnv_lawful (extractTags : String → List String) : (plainEnv extractTags).Lawful where
  yaml := flowYaml_lawful
  privacy := plainPrivacy_lawful
  directory _ := .refl _

/-! ## Files read back -/

/-- The defaults of a link's type and kind. -/
def CardLink.withDefaults (link : CardLink) : CardLink :=
  { link with
    toType := if link.toType = "" then "card" else link.toType
    kind := if link.kind = "" then "ref" else link.kind }

/-- A card file returns the body to the byte, every field of the card, and the links and milestones
with a target or an id, in their order, under the card's own project and id. -/
theorem cardFile_roundTrip [NatCast K] {y : Yaml K} (hy : y.Lawful) (card : Card K)
    (links : List CardLink) (milestones : List Milestone) (body : String) :
    (parseCardFile y (renderCardFrontMatter y card links milestones ++ body.toList)).hasFrontMatter ∧
    (parseCardFile y (renderCardFrontMatter y card links milestones ++ body.toList)).body = body ∧
    (parseCardFile y (renderCardFrontMatter y card links milestones ++ body.toList)).card = card ∧
    (parseCardFile y (renderCardFrontMatter y card links milestones ++ body.toList)).links =
      (links.filter (·.toCardId ≠ "")).map (fun link =>
        { link.withDefaults with projectId := card.projectId, fromCardId := card.cardId }) ∧
    (parseCardFile y (renderCardFrontMatter y card links milestones ++ body.toList)).milestones =
      (milestones.filter (·.milestoneId ≠ "")).map fun milestone =>
        { milestone with projectId := card.projectId, cardId := card.cardId } := by
  rw [parseCardFile_render hy]
  refine ⟨rfl, rfl, rfl, ?_, ?_⟩
  · induction links with
    | nil => rfl
    | cons link links ih =>
      by_cases hto : link.toCardId = ""
      · simpa [readBackLink, hto] using ih
      · simpa [readBackLink, CardLink.withDefaults, hto, String.isEmpty_iff] using ih
  · induction milestones with
    | nil => rfl
    | cons milestone milestones ih =>
      by_cases hid : milestone.milestoneId = ""
      · simpa [readBackMilestone, hid] using ih
      · simpa [readBackMilestone, hid, String.isEmpty_iff] using ih

/-- A link that another card owns. -/
def strayLink : CardLink where
  projectId := "home"
  fromCardId := "bbbb"
  toCardId := "cccc"
  toType := ""
  kind := ""
  label := none
  createdAt := 1

theorem strayLink_roundTrip :
    (parseCardFile flowYaml (renderCardFrontMatter flowYaml (plainCard "aaaa" "a" none 1) [strayLink]
      [] ++ "---\nbody\n---\n".toList)).body = "---\nbody\n---\n" ∧
    (parseCardFile flowYaml (renderCardFrontMatter flowYaml (plainCard "aaaa" "a" none 1) [strayLink]
      [] ++ "---\nbody\n---\n".toList)).links =
        [{ strayLink.withDefaults with projectId := "home", fromCardId := "aaaa" }] := by
  obtain ⟨-, hbody, -, hlinks, -⟩ := cardFile_roundTrip flowYaml_lawful
    (plainCard "aaaa" "a" none 1) [strayLink] [] "---\nbody\n---\n"
  exact ⟨hbody, hlinks⟩

/-- The file does not name the card a link is from, so such a link comes back as the card's own. -/
theorem strayLink_changed :
    (parseCardFile flowYaml (renderCardFrontMatter flowYaml (plainCard "aaaa" "a" none 1)
      [strayLink] [] ++ "body".toList)).links ≠
        ([strayLink].filter (·.toCardId ≠ "")).map CardLink.withDefaults := by
  rw [parseCardFile_render flowYaml_lawful]
  decide

end HolderCore
