import HolderCore.Card.TagExtractor
import HolderCore.Library.Regex

/-! # The tag pattern

The regular expression of `card/TagExtractor.cpp` against the words that the extractor is modelled by,
and both against the tag lines of `card/TagLineEditor.cpp`. -/

namespace HolderCore

/-- `#([A-Za-z][A-Za-z0-9_/\-]*)`. -/
def wordPattern : Regex Char :=
  .seq (.set (· == '#')) (.group 2 (.seq (.set Char.isAlpha) (.many isTagChar)))

/-- `(^|[\s([{>,.;:!?])#([A-Za-z][A-Za-z0-9_/\-]*)`. -/
def tagPattern : Regex Char := .seq (.group 1 (.alt .start (.set isTagLead))) wordPattern

/-- `collect_tags`, over the matches of `tag_pattern`. -/
def collectPatternTags (text : List Char) (state : ExtractorState) : ExtractorState :=
  ((tagPattern.allMatches text).map (·.group 2)).foldl collectTag state

section
variable {text word rest : List Char} {atStart : Bool} {found : Regex.Found Char}

/-! ## The matches of the pattern -/

theorem tagWord_some : tagWord text = some word ↔ ∃ first chars, text = '#' :: first :: chars ∧
    first.isAlpha = true ∧ word = first :: chars.takeWhile isTagChar := by
  refine ⟨fun h => ?_, fun ⟨first, chars, htext, hfirst, hword⟩ => ?_⟩
  · unfold tagWord at h
    split at h
    · split at h
      · exact ⟨_, _, rfl, ‹_›, (Option.some.inj h).symm⟩
      · cases h
    · cases h
  · rw [htext, hword, tagWord, if_pos hfirst]

/-- The pattern of a word matches where there is one, and takes all of it. -/
theorem wordPattern_some (atStart : Bool) (h : tagWord text = some word) :
    ∃ rest, text = '#' :: word ++ rest ∧
      (wordPattern.results atStart text).head? = some ⟨'#' :: word, [(2, word)], rest⟩ := by
  obtain ⟨first, chars, rfl, hfirst, rfl⟩ := tagWord_some.mp h
  refine ⟨chars.dropWhile isTagChar, by simp [List.takeWhile_append_dropWhile], ?_⟩
  simp [wordPattern, Regex.results, hfirst, Regex.head?_manyResults, Regex.Found.after]

theorem wordPattern_none (h : tagWord text = none) : wordPattern.results atStart text = [] := by
  match text, h with
  | [], _ => rfl
  | [c], _ => by_cases hc : c = '#' <;> simp [wordPattern, Regex.results, hc]
  | c :: first :: chars, h =>
    by_cases hc : c = '#'
    · have hfirst : first.isAlpha = false := by
        rw [hc, tagWord] at h
        simpa using h
      simp [wordPattern, Regex.results, hc, hfirst]
    · simp [wordPattern, Regex.results, hc]

theorem tagPattern_results : tagPattern.results atStart text =
    (if atStart then (wordPattern.results true text).map (·.after ⟨[], [(1, [])], text⟩) else []) ++
      match text with
      | [] => []
      | c :: rest => if isTagLead c then
          (wordPattern.results false rest).map (·.after ⟨[c], [(1, [c])], rest⟩) else [] := by
  unfold tagPattern
  cases text with
  | nil => cases atStart <;> simp [Regex.results]
  | cons c rest =>
    cases atStart <;> cases hc : isTagLead c <;> simp [Regex.results, hc]

/-- A match gives the word, and what follows the match follows the word. -/
structure FoundWord (atStart : Bool) (text word after : List Char) (found : Regex.Found Char) :
    Prop where
  first : (tagPattern.results atStart text).head? = some found
  group : found.group 2 = word
  after : after = '#' :: word ++ found.rest

theorem foundWord_start (h : tagWord text = some word) :
    ∃ found, FoundWord true text word text found := by
  obtain ⟨rest, hrest, hhead⟩ := wordPattern_some true h
  refine ⟨.after ⟨'#' :: word, [(2, word)], rest⟩ ⟨[], [(1, [])], text⟩, ?_, rfl, hrest⟩
  rw [tagPattern_results, if_pos rfl, List.head?_append, List.head?_map, hhead]
  rfl

theorem foundWord_lead (atStart : Bool) {c : Char} (hc : isTagLead c = true)
    (h : tagWord text = some word) :
    ∃ found, FoundWord atStart (c :: text) word text found := by
  have hnone : tagWord (c :: text) = none := by
    apply Option.eq_none_iff_forall_ne_some.mpr
    intro word' hword
    obtain ⟨_, _, htext, -⟩ := tagWord_some.mp hword
    cases htext
    cases hc
  obtain ⟨rest, hrest, hhead⟩ := wordPattern_some false h
  refine ⟨.after ⟨'#' :: word, [(2, word)], rest⟩ ⟨[c], [(1, [c])], text⟩, ?_, rfl, hrest⟩
  rw [tagPattern_results, wordPattern_none hnone, List.map_nil, ite_self, List.nil_append]
  simp only [if_pos hc, List.head?_map, hhead]
  rfl

theorem tagPattern_none (hstart : atStart = true → tagWord text = none)
    (hlead : ∀ c rest, text = c :: rest → isTagLead c = true → tagWord rest = none) :
    tagPattern.results atStart text = [] := by
  rw [tagPattern_results]
  apply List.append_eq_nil_iff.mpr
  constructor
  · cases atStart with
    | false => rfl
    | true => rw [if_pos rfl, wordPattern_none (hstart rfl), List.map_nil]
  · cases text with
    | nil => rfl
    | cons c rest =>
      by_cases hc : isTagLead c = true
      · simp only [if_pos hc, wordPattern_none (hlead c rest rfl hc), List.map_nil]
      · simp only [if_neg hc]

/-! ## The words of a text -/

theorem isTagLead_of_isTagChar {c : Char} (h : isTagChar c = true) : isTagLead c = false :=
  isTagChar_forall (P := fun c => isTagLead c = false) (by decide +kernel) h

theorem tagWord_chars (h : tagWord text = some word) : ∀ c ∈ word, isTagChar c = true := by
  obtain ⟨first, chars, -, hfirst, rfl⟩ := tagWord_some.mp h
  intro c hc
  obtain rfl | hc := List.mem_cons.mp hc
  · simp [isTagChar, Char.isAlphanum, hfirst]
  · exact List.mem_takeWhile_imp hc

theorem leadWords_append (h : ∀ c ∈ word, isTagLead c = false) :
    leadWords (word ++ rest) = leadWords rest := by
  induction word with
  | nil => rfl
  | cons c word ih =>
    rw [List.cons_append, leadWords, if_neg (by simp [h c List.mem_cons_self]), List.nil_append]
    exact ih fun d hd => h d (List.mem_cons_of_mem _ hd)

/-- No word begins inside another one. -/
theorem leadWords_word (hword : ∀ c ∈ word, isTagChar c = true) (rest : List Char) :
    leadWords ('#' :: word ++ rest) = leadWords rest := by
  apply leadWords_append
  intro c hc
  obtain rfl | hc := List.mem_cons.mp hc
  · rfl
  · exact isTagLead_of_isTagChar (hword c hc)

/-- A search for the next match goes on behind the last one, and misses no word there: the text that
a match took holds no character that may stand before a word. -/
theorem matchesFrom_words {fuel : Nat} (hfuel : text.length < fuel) :
    (tagPattern.matchesFrom fuel atStart text).map (·.group 2) =
      (if atStart then (tagWord text).toList else []) ++ leadWords text := by
  induction hlength : text.length using Nat.strong_induction_on generalizing text fuel atStart with
  | _ n ih =>
  obtain ⟨fuel, rfl⟩ : ∃ k, fuel = k + 1 := ⟨fuel - 1, by omega⟩
  -- What follows a match that was found.
  have hfound : ∀ {word after found}, FoundWord atStart text word after found →
      tagWord after = some word → after.length ≤ text.length →
      (tagPattern.matchesFrom (fuel + 1) atStart text).map (·.group 2) = word :: leadWords after := by
    intro word after found hmatch hword hafter
    have hrest := congrArg List.length hmatch.after
    rw [List.length_append, List.length_cons] at hrest
    rw [Regex.matchesFrom_of_head? hmatch.first, List.map_cons, hmatch.group,
      ih found.rest.length (by omega) (by omega) rfl, if_neg Bool.false_ne_true, List.nil_append,
      hmatch.after, leadWords_word (tagWord_chars hword)]
  by_cases hstart : atStart = true ∧ ∃ word, tagWord text = some word
  · obtain ⟨rfl, word, hword⟩ := hstart
    obtain ⟨found, hmatch⟩ := foundWord_start hword
    rw [hfound hmatch hword le_rfl, if_pos rfl, hword]
    rfl
  · have hnone : atStart = true → tagWord text = none := fun hat =>
      Option.eq_none_iff_forall_ne_some.mpr fun word hword => hstart ⟨hat, word, hword⟩
    have hempty : (if atStart = true then (tagWord text).toList else []) = [] := by
      split
      · next hat => rw [hnone hat]; rfl
      · rfl
    rw [hempty, List.nil_append]
    cases text with
    | nil => rw [Regex.matchesFrom_nil (tagPattern_none hnone nofun)]; rfl
    | cons c text =>
      rw [leadWords]
      by_cases hlead : isTagLead c = true ∧ ∃ word, tagWord text = some word
      · obtain ⟨hc, word, hword⟩ := hlead
        obtain ⟨found, hmatch⟩ := foundWord_lead atStart hc hword
        rw [hfound hmatch hword (Nat.le_succ _), if_pos hc, hword]
        rfl
      · have hrest : isTagLead c = true → tagWord text = none := fun hc =>
          Option.eq_none_iff_forall_ne_some.mpr fun word hword => hlead ⟨hc, word, hword⟩
        have hpass : tagPattern.results atStart (c :: text) = [] := by
          apply tagPattern_none hnone
          rintro _ _ ⟨⟩ hc
          exact hrest hc
        rw [List.length_cons] at hlength hfuel
        rw [Regex.matchesFrom_cons hpass, ih text.length (by omega) (by omega) rfl]
        by_cases hc : isTagLead c = true
        · rw [if_pos hc, hrest hc]; rfl
        · rw [if_neg hc]; rfl

/-- The expression and the scanner find the same words. -/
theorem allMatches_words (text : List Char) :
    (tagPattern.allMatches text).map (·.group 2) = tagMatches text := by
  rw [Regex.allMatches, matchesFrom_words (Nat.lt_succ_self _), if_pos rfl, tagMatches]

theorem collectPatternTags_eq (text : List Char) (state : ExtractorState) :
    collectPatternTags text state = collectTags text state := by
  rw [collectPatternTags, allMatches_words, collectTags]

/-! ## Collecting words -/

theorem collectTag_tags {state : ExtractorState} (h : looksLikeHexColor (String.ofList word) = false) :
    (collectTag state word).tags = if normalizeTag (String.ofList word) ∈ state.tags then state.tags
      else state.tags ++ [normalizeTag (String.ofList word)] := by
  rw [collectTag, if_neg (by simp [h])]
  by_cases hseen : normalizeTag (String.ofList word) ∈ state.tags
  · rw [if_pos (List.contains_iff_mem.mpr hseen), if_pos hseen]
  · rw [if_neg (by simpa using hseen), if_neg hseen]

theorem eraseDups_concat (tags : List String) (tag : String) : (tags ++ [tag]).eraseDups =
    if tag ∈ tags then tags.eraseDups else tags.eraseDups ++ [tag] := by
  rw [List.eraseDups_append, List.removeAll]
  by_cases h : tag ∈ tags <;> simp [h, List.eraseDups_cons]

/-- Tags behind others: each is added the first time it is met. -/
theorem foldl_collectTag {state : ExtractorState} (before : List String) {tags : List String}
    (hstate : state.tags = before.eraseDups) (htags : ∀ tag ∈ tags, Normal tag) :
    ((tags.map String.toList).foldl collectTag state).tags = (before ++ tags).eraseDups := by
  induction tags generalizing state before with
  | nil => rw [List.append_nil]; exact hstate
  | cons tag tags ih =>
    have htag := htags tag List.mem_cons_self
    have hhex : looksLikeHexColor (String.ofList tag.toList) = false := by
      rw [String.ofList_toList]
      exact (isValidTag_iff.mp htag.valid).2.2
    rw [List.map_cons, List.foldl_cons, List.append_cons]
    apply ih _ _ fun t ht => htags t (List.mem_cons_of_mem _ ht)
    rw [collectTag_tags hhex, String.ofList_toList, htag.normal, hstate, eraseDups_concat]
    simp only [List.mem_eraseDups]

/-- A valid tag behind a `#` is read up to where it ends. -/
theorem tagWord_tag {tag : String} (h : isValidTag tag = true)
    (hrest : ∀ c ∈ rest.head?, isTagChar c = false) :
    tagWord ('#' :: tag.toList ++ rest) = some tag.toList := by
  obtain ⟨⟨first, hfirst, halpha⟩, hchars, -⟩ := isValidTag_iff.mp h
  cases htag : tag.toList with
  | nil => rw [htag] at hfirst; cases hfirst
  | cons c word =>
    rw [htag] at hfirst hchars
    obtain rfl := Option.some.inj hfirst
    exact tagWord_append halpha (fun d hd => hchars d (List.mem_cons_of_mem _ hd)) hrest

/-- The space between two tags stands before the second one; the first one has left it there. -/
theorem tagMatches_join {tags : List String} (htags : ∀ tag ∈ tags, Normal tag) :
    tagMatches (joinTagLine tags) = tags.map String.toList := by
  induction tags with
  | nil => rfl
  | cons tag tags ih =>
    have htag := htags tag List.mem_cons_self
    have ih := ih fun t ht => htags t (List.mem_cons_of_mem _ ht)
    rw [joinTagLine_cons, tagMatches, tagWord_tag htag.valid, leadWords_word htag.tagChars,
      List.map_cons, Option.toList_some, List.singleton_append]
    · split
      · next hnil => rw [hnil]; rfl
      · rw [leadWords, if_pos (by decide)]
        exact congrArg (tag.toList :: ·) ih
    · split <;> simp [isTagChar, Char.isAlphanum, Char.isAlpha, Char.isUpper, Char.isLower,
        Char.isDigit]

theorem mem_leadWords_chars (h : word ∈ leadWords text) : ∀ c ∈ word, isTagChar c = true := by
  induction text with
  | nil => cases h
  | cons c text ih =>
    rw [leadWords] at h
    obtain h | h := List.mem_append.mp h
    · split at h
      · exact tagWord_chars (Option.mem_toList.mp h)
      · cases h
    · exact ih h

theorem mem_tagMatches_chars (h : word ∈ tagMatches text) : ∀ c ∈ word, isTagChar c = true := by
  obtain h | h := List.mem_append.mp h
  · exact tagWord_chars (Option.mem_toList.mp h)
  · exact mem_leadWords_chars h

theorem isTagChar_of_toLower {c : Char} (h : isTagChar c.toLower = true) : isTagChar c = true := by
  by_cases hupper : c.isUpper = true
  · simp [isTagChar, Char.isAlphanum, Char.isAlpha, hupper]
  · have hsame : c.toLower = c := by
      rw [Char.isUpper, decide_eq_true_eq] at hupper
      exact dif_neg hupper
    rwa [hsame] at h

/-- Behind a `#` stands exactly the one tag that a text is, if it is one. -/
theorem collectTags_hash (s : String) :
    (collectTags ('#' :: s.toList) ⟨false, []⟩).tags = [normalizeTag s] ↔ isValidTag s = true := by
  refine ⟨fun h => ?_, fun h => ?_⟩
  · have hmem : normalizeTag s ∈ (collectTags ('#' :: s.toList) ⟨false, []⟩).tags := by
      rw [h]
      exact List.mem_singleton_self _
    obtain hnil | ⟨word, hword, hhex, htag⟩ := mem_collectTags.mp hmem
    · cases hnil
    have hlower := congrArg String.toList htag
    rw [toList_normalizeTag, toList_normalizeTag, String.toList_ofList] at hlower
    -- In lower case the text is a word, so it has no character at which another word could begin.
    have hchars : ∀ c ∈ s.toList, isTagChar c = true := by
      intro c hc
      have hmap : c.toLower ∈ word.map Char.toLower := hlower ▸ List.mem_map_of_mem hc
      obtain ⟨d, hd, heq⟩ := List.mem_map.mp hmap
      apply isTagChar_of_toLower
      rw [← heq]
      exact (isTagChar_toLower (mem_tagMatches_chars hword d hd)).1
    have hlead : leadWords ('#' :: s.toList) = [] := by
      have hword := leadWords_word hchars []
      rwa [List.append_nil] at hword
    rw [tagMatches, hlead, List.append_nil, Option.mem_toList] at hword
    obtain ⟨first, chars, htext, hfirst, rfl⟩ := tagWord_some.mp hword
    obtain ⟨-, hs⟩ := List.cons.inj htext
    have htake : chars.takeWhile isTagChar = chars :=
      List.takeWhile_eq_self_iff.mpr fun c hc => hchars c (hs ▸ List.mem_cons_of_mem _ hc)
    rw [htake, ← hs, String.ofList_toList] at hhex
    refine isValidTag_iff.mpr ⟨⟨first, ?_, hfirst⟩, hchars, hhex⟩
    rw [hs]
    rfl
  · have hword : tagWord ('#' :: s.toList ++ []) = some s.toList := tagWord_tag h (by simp)
    have hlead := leadWords_word (isValidTag_iff.mp h).2.1 []
    rw [List.append_nil] at hword hlead
    have hhex : looksLikeHexColor (String.ofList s.toList) = false := by
      rw [String.ofList_toList]
      exact (isValidTag_iff.mp h).2.2
    rw [collectTags, tagMatches, hword, hlead, leadWords, List.append_nil, Option.toList_some,
      List.foldl_cons, List.foldl_nil, collectTag_tags hhex, String.ofList_toList]
    rfl

end

/-- The editor and the extractor speak one language: a line joined from normalized tags is read back
as these tags by the editor and holds each of them once for the extractor, and what the extractor
takes for the one tag behind a `#` is what is a valid tag. -/
theorem tagLanguages_agree :
    (∀ tags : List String, tags ≠ [] → (∀ tag ∈ tags, isValidTag tag = true ∧ normalizeTag tag = tag) →
      parsePureTagLine (joinTagLine tags) = some tags ∧
        (collectPatternTags (joinTagLine tags) ⟨false, []⟩).tags = tags.eraseDups) ∧
    ∀ s : String, (collectPatternTags ('#' :: s.toList) ⟨false, []⟩).tags = [normalizeTag s] ↔
      isValidTag s = true := by
  refine ⟨fun tags hne htags => ?_, fun s => ?_⟩
  · have hnormal : ∀ tag ∈ tags, Normal tag := fun tag hmem => ⟨(htags tag hmem).1, (htags tag hmem).2⟩
    refine ⟨parsePureTagLine_join hne hnormal, ?_⟩
    rw [collectPatternTags_eq, collectTags, tagMatches_join hnormal,
      foldl_collectTag [] rfl hnormal, List.nil_append]
  · rw [collectPatternTags_eq]
    exact collectTags_hash s

theorem repeatedTags_agree :
    parsePureTagLine "#b/c #a #b/c".toList = some ["b/c", "a", "b/c"] ∧
      (collectPatternTags "#b/c #a #b/c".toList ⟨false, []⟩).tags = ["b/c", "a"] := by
  have hb : isValidTag "b/c" = true ∧ normalizeTag "b/c" = "b/c" :=
    ⟨by decide, String.toList_inj.mp (by rw [toList_normalizeTag]; decide)⟩
  have ha : isValidTag "a" = true ∧ normalizeTag "a" = "a" :=
    ⟨by decide, String.toList_inj.mp (by rw [toList_normalizeTag]; decide)⟩
  exact tagLanguages_agree.1 ["b/c", "a", "b/c"] (List.cons_ne_nil _ _) (by simp [ha, hb])

end HolderCore
