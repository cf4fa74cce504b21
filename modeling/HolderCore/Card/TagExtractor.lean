import HolderCore.Card.TagLines

/-! # Extracting tags

`card/TagExtractor.cpp`: the tags of a Markdown text are the words behind a `#` in its runs of text
outside code. The callbacks that md4c makes on a text are a parameter. -/

namespace HolderCore

/-- A callback of `md_parse`. Of the type of a block or a span only whether it is code is read. -/
inductive MdEvent where
  | enterBlock (code : Bool)
  | leaveBlock (code : Bool)
  | enterSpan (code : Bool)
  | leaveSpan (code : Bool)
  | text (chars : List Char)
deriving DecidableEq, Repr

/-- What may stand before a tag, besides the beginning of a run. -/
def isTagLead (c : Char) : Bool :=
  [' ', '\t', '\n', '\x0b', '\x0c', '\r', '(', '[', '\x7b', '>', ',', '.', ';', ':', '!', '?'].contains c

def tagWord : List Char → Option (List Char)
  | '#' :: first :: rest => if first.isAlpha then some (first :: rest.takeWhile isTagChar) else none
  | _ => none

def leadWords : List Char → List (List Char)
  | [] => []
  | c :: rest => (if isTagLead c then (tagWord rest).toList else []) ++ leadWords rest

/-- The words of the matches of `tag_pattern`; no match begins inside another one. -/
def tagMatches (text : List Char) : List (List Char) := (tagWord text).toList ++ leadWords text

/-- `seen` holds the tags that are in the list. -/
structure ExtractorState where
  inCode : Bool
  tags : List String

def collectTag (state : ExtractorState) (candidate : List Char) : ExtractorState :=
  if looksLikeHexColor (String.ofList candidate) then state
  else if state.tags.contains (normalizeTag (String.ofList candidate)) then state
  else { state with tags := state.tags ++ [normalizeTag (String.ofList candidate)] }

def collectTags (text : List Char) (state : ExtractorState) : ExtractorState :=
  (tagMatches text).foldl collectTag state

/-- The callbacks of `parse_tags`. -/
def onEvent (state : ExtractorState) : MdEvent → ExtractorState
  | .enterBlock true | .enterSpan true => { state with inCode := true }
  | .leaveBlock true | .leaveSpan true => { state with inCode := false }
  | .text chars => if state.inCode then state else collectTags chars state
  | _ => state

def extractTags (mdParse : List Char → List MdEvent) (body : String) : List String :=
  ((mdParse body.toList).foldl onEvent ⟨false, []⟩).tags

/-! ## Runs of text -/

def codeAfter (inCode : Bool) : MdEvent → Bool
  | .enterBlock true | .enterSpan true => true
  | .leaveBlock true | .leaveSpan true => false
  | _ => inCode

/-- The runs of text outside code. -/
def textRuns : (inCode : Bool) → List MdEvent → List (List Char)
  | _, [] => []
  | false, .text chars :: events => chars :: textRuns false events
  | inCode, event :: events => textRuns (codeAfter inCode event) events

/-- What the extractor makes of a word. -/
def IsTagOf (tag : String) (word : List Char) : Prop :=
  looksLikeHexColor (String.ofList word) = false ∧ normalizeTag (String.ofList word) = tag

theorem mem_collectTag {state : ExtractorState} {candidate : List Char} {tag : String} :
    tag ∈ (collectTag state candidate).tags ↔ tag ∈ state.tags ∨ IsTagOf tag candidate := by
  unfold collectTag IsTagOf
  cases hhex : looksLikeHexColor (String.ofList candidate) with
  | true => simp
  | false =>
    by_cases hseen : normalizeTag (String.ofList candidate) ∈ state.tags
    · have hcontains := List.contains_iff_mem.mpr hseen
      simp only [Bool.false_eq_true, if_false, hcontains, if_true, true_and]
      exact ⟨.inl, fun h => h.elim id fun he => he ▸ hseen⟩
    · have hcontains : state.tags.contains (normalizeTag (String.ofList candidate)) = false := by
        simpa using hseen
      simp only [Bool.false_eq_true, if_false, hcontains, List.mem_append, List.mem_singleton, true_and]
      exact or_congr_right eq_comm

theorem mem_collectTags {state : ExtractorState} {text : List Char} {tag : String} :
    tag ∈ (collectTags text state).tags ↔
      tag ∈ state.tags ∨ ∃ word ∈ tagMatches text, IsTagOf tag word := by
  unfold collectTags
  generalize tagMatches text = words
  induction words generalizing state with
  | nil => simp
  | cons word words ih =>
    rw [List.foldl_cons, ih, mem_collectTag, or_assoc]
    simp only [List.exists_mem_cons_iff]

theorem inCode_collectTags (text : List Char) (state : ExtractorState) :
    (collectTags text state).inCode = state.inCode := by
  unfold collectTags
  generalize tagMatches text = words
  induction words generalizing state with
  | nil => rfl
  | cons word words ih =>
    rw [List.foldl_cons, ih]
    unfold collectTag
    split
    · rfl
    · split <;> rfl

theorem mem_foldl_onEvent {state : ExtractorState} {events : List MdEvent} {tag : String} :
    tag ∈ (events.foldl onEvent state).tags ↔ tag ∈ state.tags ∨
      ∃ run ∈ textRuns state.inCode events, ∃ word ∈ tagMatches run, IsTagOf tag word := by
  induction events generalizing state with
  | nil => simp [textRuns]
  | cons event events ih =>
    rw [List.foldl_cons, ih]
    obtain ⟨inCode, tags⟩ := state
    cases event with
    | text chars =>
      cases inCode with
      | true => rfl
      | false =>
        simp only [onEvent, Bool.false_eq_true, if_false, mem_collectTags, inCode_collectTags,
          textRuns, List.exists_mem_cons_iff, or_assoc]
    | enterBlock code => cases code <;> cases inCode <;> rfl
    | leaveBlock code => cases code <;> cases inCode <;> rfl
    | enterSpan code => cases code <;> cases inCode <;> rfl
    | leaveSpan code => cases code <;> cases inCode <;> rfl

/-- The tags of a text are those of the words in its runs. -/
theorem mem_extractTags {mdParse : List Char → List MdEvent} {body tag : String} :
    tag ∈ extractTags mdParse body ↔
      ∃ run ∈ textRuns false (mdParse body.toList), ∃ word ∈ tagMatches run, IsTagOf tag word := by
  unfold extractTags
  rw [mem_foldl_onEvent]
  simp

/-- Runs that are the same have the same tags. -/
theorem mem_extractTags_congr {mdParse : List Char → List MdEvent} {body body' tag : String}
    (h : textRuns false (mdParse body.toList) = textRuns false (mdParse body'.toList)) :
    tag ∈ extractTags mdParse body ↔ tag ∈ extractTags mdParse body' := by
  rw [mem_extractTags, mem_extractTags, h]

/-! ## Words that match -/

theorem tagWord_append {first : Char} {word rest : List Char} (hfirst : first.isAlpha = true)
    (hword : ∀ c ∈ word, isTagChar c = true) (hrest : ∀ c ∈ rest.head?, isTagChar c = false) :
    tagWord ('#' :: first :: (word ++ rest)) = some (first :: word) := by
  have htake : (word ++ rest).takeWhile isTagChar = word := by
    rw [List.takeWhile_append_of_pos hword]
    cases rest with
    | nil => simp
    | cons c cs => rw [List.takeWhile_cons_of_neg (by simp [hrest c rfl]), List.append_nil]
  rw [tagWord, if_pos hfirst, htake]

theorem mem_leadWords {before after word : List Char} {lead : Char} (hlead : isTagLead lead = true)
    (h : tagWord after = some word) : word ∈ leadWords (before ++ lead :: after) := by
  induction before with
  | nil =>
    rw [List.nil_append, leadWords, if_pos hlead, h]
    exact List.mem_append_left _ (List.mem_singleton.mpr rfl)
  | cons c before ih =>
    rw [List.cons_append, leadWords]
    exact List.mem_append_right _ ih

/-- A word at the beginning of a run or behind a lead is found. -/
theorem mem_tagMatches {before after word : List Char} (h : tagWord after = some word)
    (hbefore : ∀ c ∈ before.getLast?, isTagLead c = true) : word ∈ tagMatches (before ++ after) := by
  rcases List.eq_nil_or_concat before with rfl | ⟨before, lead, rfl⟩
  · rw [List.nil_append, tagMatches, h]
    exact List.mem_append_left _ (List.mem_singleton.mpr rfl)
  · rw [List.concat_eq_append, List.append_assoc]
    refine List.mem_append_right _ (mem_leadWords (hbefore lead ?_) h)
    rw [List.concat_eq_append, List.getLast?_append]
    rfl

end HolderCore
