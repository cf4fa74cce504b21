import HolderCore.Card.FlowYaml
import HolderCore.Card.IndexedCalls
import HolderCore.Card.TagLines

/-! # Removing a tag

`remove_from_trailing_tag_line` takes one occurrence off the line, so a tag that stands there twice
stays. What the extraction reads is taken to be the words behind the `#`s of the text, cut off at most
at an underscore that may be emphasis. -/

namespace HolderCore

/-! ## Words of a text -/

/-- A word of tag characters behind a `#`, as long as it goes. -/
structure WordAt (text before word rest : List Char) : Prop where
  text : text = before ++ '#' :: (word ++ rest)
  word : ∀ c ∈ word, isTagChar c = true
  ends : ∀ c ∈ rest.head?, isTagChar c = false

/-- An underscore between letters or digits is no emphasis. -/
def inWord (before rest : List Char) : Bool :=
  (before.reverse.dropWhile (· == '_')).head?.any (·.isAlphanum) &&
    (rest.dropWhile (· == '_')).head?.any (·.isAlphanum)

/-- The tag that a word may be read as: the word in lower case, or the part of it before an underscore
that may be emphasis. -/
def MayRead (word : List Char) (tag : String) : Prop :=
  word.map Char.toLower = tag.toList ∨
    ∃ rest, word.map Char.toLower = tag.toList ++ '_' :: rest ∧ inWord tag.toList rest = false

/-- What the code relies on of `extract_tags`: a tag that it finds is a word of the text. -/
def ReadsWords (extractTags : String → List String) : Prop :=
  ∀ (text tag : String), tag ∈ extractTags text →
    ∃ before word rest, WordAt text.toList before word rest ∧ MayRead word tag

/-- Outside the trailing tag line no word may be read as the tag, and on the line only the tag
itself. -/
def OnLineOnly (body tag : String) : Prop :=
  ∀ {before line trailing a word rest : List Char}, LastLine body.toList before line trailing →
    WordAt body.toList a word rest → MayRead word tag →
      before.length ≤ a.length ∧ word.map Char.toLower = tag.toList

section
variable {x y a word rest : List Char}

/-- A word of the second part of a text. -/
theorem WordAt.prepend (h : WordAt y a word rest) (x : List Char) :
    WordAt (x ++ y) (x ++ a) word rest where
  text := by rw [h.text, List.append_assoc]
  word := h.word
  ends := h.ends

/-- A word of the first part of a text, when the second does not go on with it. -/
theorem WordAt.append (h : WordAt x a word rest) (hy : rest = [] → ∀ c ∈ y.head?, isTagChar c = false) :
    WordAt (x ++ y) a word (rest ++ y) where
  text := by rw [h.text, List.append_assoc, List.cons_append, List.append_assoc]
  word := h.word
  ends := by
    cases rest with
    | nil => exact hy rfl
    | cons d ds => exact h.ends

/-- A word stands in the first or in the second part of a text when a blank parts them. -/
theorem WordAt.split (h : WordAt (x ++ y) a word rest)
    (hblank : (∀ c ∈ x.getLast?, isBlankChar c = true) ∨ ∀ c ∈ y.head?, isBlankChar c = true) :
    (∃ rest', WordAt x a word rest' ∧ rest = rest' ++ y) ∨ ∃ a', WordAt y a' word rest := by
  rcases List.append_eq_append_iff.mp h.text with ⟨a', rfl, hy⟩ | ⟨x', rfl, hword⟩
  · exact .inr ⟨a', hy, h.word, h.ends⟩
  cases x' with
  | nil => exact .inr ⟨[], hword.symm, h.word, h.ends⟩
  | cons d x' =>
    obtain ⟨rfl, htail⟩ := List.cons.inj (hword.trans (List.cons_append ..))
    rcases List.append_eq_append_iff.mp htail with ⟨r, rfl, hrest⟩ | ⟨w, hw, rfl⟩
    · refine .inl ⟨r, ⟨by simp, h.word, fun c hc => h.ends c ?_⟩, hrest⟩
      cases r with
      | nil => cases hc
      | cons e es => rw [hrest]; exact hc
    · -- The word would go on into the second part.
      cases w with
      | nil =>
        rw [List.append_nil] at hw
        refine .inl ⟨[], ⟨by simp [hw], h.word, nofun⟩, rfl⟩
      | cons e es =>
        exfalso
        rcases hblank with hlast | hhead
        · cases hx : x'.getLast? with
          | none =>
            have hb := hlast '#' (by rw [List.getLast?_eq_none_iff.mp hx]; simp)
            cases hb
          | some c =>
            have hb := hlast c (by
              rw [List.getLast?_append, List.getLast?_cons, hx]
              rfl)
            have ht := isBlankChar_of_isTagChar (h.word c (by
              rw [hw]
              exact List.mem_append_left _ (List.mem_of_getLast? hx)))
            rw [hb] at ht
            cases ht
        · have hb := hhead e rfl
          have ht := isBlankChar_of_isTagChar (h.word e (by rw [hw]; simp))
          rw [hb] at ht
          cases ht

/-- A word at the end of a text ends it with a character of a tag. -/
theorem WordAt.rest_ne (h : WordAt x a word rest) (hx : ∀ c ∈ x.getLast?, isBlankChar c = true) :
    rest ≠ [] := by
  rintro rfl
  have htext := h.text
  rw [List.append_nil] at htext
  cases hword : word.getLast? with
  | none =>
    have hhash := hx '#' (by rw [htext, List.getLast?_eq_none_iff.mp hword]; simp)
    cases hhash
  | some c =>
    have hc := hx c (by
      rw [htext, List.getLast?_append, List.getLast?_cons, hword]
      rfl)
    rw [isBlankChar_of_isTagChar (h.word c (List.mem_of_getLast? hword))] at hc
    cases hc

/-- Blanks have no word. -/
theorem WordAt.not_blank (h : WordAt x a word rest) : ¬ ∀ c ∈ x, isBlankChar c = true := by
  intro hx
  have hhash := hx '#' (by rw [h.text]; simp)
  cases hhash

theorem isTagChar_of_isBlankChar {c : Char} (h : isBlankChar c = true) : isTagChar c = false := by
  cases htag : isTagChar c with
  | false => rfl
  | true =>
    rw [isBlankChar_of_isTagChar htag] at h
    cases h

end

/-- Every tag of a tag line is a word of it. -/
theorem parseTagTokens_words {fuel : Nat} {line : List Char} {tags : List String}
    (h : parseTagTokens fuel line = some tags) {tag : String} (htag : tag ∈ tags) :
    ∃ a word rest, WordAt line a word rest ∧ word.map Char.toLower = tag.toList := by
  fun_induction parseTagTokens fuel line generalizing tags with
  | case1 => cases h; cases htag
  | case2 => cases h; cases htag
  | case3 fuel line rest hrest candidate hvalid =>
    rename_i ih
    obtain ⟨tags, htags, rfl⟩ := Option.map_eq_some_iff.mp h
    have hline : line = line.takeWhile isLineWhitespace ++ '#' :: rest := by
      rw [← hrest, List.takeWhile_append_dropWhile]
    have hword : rest = candidate.toList ++ rest.dropWhile (fun c => !isLineWhitespace c) := by
      rw [String.toList_ofList, List.takeWhile_append_dropWhile]
    rcases List.mem_cons.mp htag with rfl | htag
    · refine ⟨line.takeWhile isLineWhitespace, candidate.toList,
        rest.dropWhile (fun c => !isLineWhitespace c), ⟨?_, ?_, fun c hc => ?_⟩, ?_⟩
      · rw [← hword]
        exact hline
      · exact (isValidTag_iff.mp hvalid).2.1
      · have hstop := List.head?_dropWhile_not (fun c => !isLineWhitespace c) rest
        rw [Option.mem_def.mp hc] at hstop
        cases htag : isTagChar c with
        | false => rfl
        | true =>
          have hspace : (!isLineWhitespace c) = false := hstop
          rw [isLineWhitespace_of_isTagChar htag] at hspace
          cases hspace
      · exact (toList_normalizeTag candidate).symm
    · obtain ⟨a, word, rest', hat, hlower⟩ := ih htags htag
      have hat' := hat.prepend (line.takeWhile isLineWhitespace ++ '#' :: candidate.toList)
      rw [List.append_assoc, List.cons_append, ← hword, ← hline] at hat'
      exact ⟨_, word, rest', hat', hlower⟩
  | case4 => cases h
  | case5 => cases h

/-- The words of a joined line are its tags. -/
theorem joinTagLine_words {tags : List String} (h : ∀ tag ∈ tags, Normal tag)
    {a word rest : List Char} (hat : WordAt (joinTagLine tags) a word rest) :
    ∃ tag ∈ tags, word = tag.toList := by
  induction tags generalizing a with
  | nil =>
    have htext := hat.text
    simp [joinTagLine] at htext
  | cons tag tags ih =>
    have htag := h tag List.mem_cons_self
    have hchars := htag.tagChars
    rw [joinTagLine_cons] at hat
    rcases hat.split (.inr (by split <;> simp [isBlankChar, isLineWhitespace])) with
      ⟨rest', hat', -⟩ | ⟨a', hat'⟩
    · have htext := hat'.text
      cases a with
      | nil =>
        obtain ⟨-, hword⟩ := List.cons.inj (htext.trans (List.nil_append _))
        refine ⟨tag, List.mem_cons_self, ?_⟩
        cases rest' with
        | nil => rw [hword, List.append_nil]
        | cons c cs =>
          have hc := hchars c (by rw [hword]; simp)
          rw [hat'.ends c rfl] at hc
          cases hc
      | cons d a =>
        obtain ⟨-, hword⟩ := List.cons.inj (htext.trans (List.cons_append ..))
        have hhash := hchars '#' (by rw [hword]; simp)
        cases hhash
    · have htext := hat'.text
      split at hat'
      · next hnil =>
        rw [if_pos hnil] at htext
        simp at htext
      · next hne =>
        rw [if_neg hne] at htext
        cases a' with
        | nil =>
          obtain ⟨hhash, -⟩ := List.cons.inj (htext.trans (List.nil_append _))
          cases hhash
        | cons d a' =>
          obtain ⟨-, hrest⟩ := List.cons.inj (htext.trans (List.cons_append ..))
          obtain ⟨t, ht, hword⟩ := ih (fun t ht => h t (List.mem_cons_of_mem _ ht))
            ⟨hrest, hat'.word, hat'.ends⟩
          exact ⟨t, List.mem_cons_of_mem _ ht, hword⟩

section
variable {body tag edited : String}

/-- A body of white space has no tag line. -/
theorem blank_body (tag : String) (hall : ∀ c ∈ body.toList, isBlankChar c = true) :
    tagsOnTrailingLine body = [] ∧ removeFromTrailingTagLine body tag = none := by
  have hsplit : splitTrailingWhitespace ([] ++ body.toList) = ([], body.toList) :=
    splitTrailingWhitespace_append nofun hall
  rw [List.nil_append] at hsplit
  unfold tagsOnTrailingLine removeFromTrailingTagLine
  simp only [hsplit, List.isEmpty_nil, if_true, and_self]

theorem exists_lastLine_of_remove (h : removeFromTrailingTagLine body tag = some edited) :
    ∃ before line trailing, LastLine body.toList before line trailing := by
  rcases blank_or_lastLine body.toList with hall | hlast
  · rw [(blank_body tag hall).2] at h
    cases h
  · exact hlast

theorem exists_removed (h : tag ∈ tagsOnTrailingLine body) :
    ∃ edited, removeFromTrailingTagLine body tag = some edited := by
  rcases blank_or_lastLine body.toList with hall | ⟨before, line, trailing, hlast⟩
  · rw [(blank_body tag hall).1] at h
    cases h
  rw [hlast.tagsOn] at h
  rw [hlast.remove]
  cases hline : parsePureTagLine line with
  | none =>
    rw [hline] at h
    cases h
  | some existing =>
    rw [hline, Option.getD_some] at h
    simp only [List.contains_iff_mem.mpr h, Bool.not_true, Bool.false_eq_true, if_false]
    split <;> exact ⟨_, rfl⟩

/-- The line that keeps its other tags, and the line that goes. -/
theorem LastLine.removed {before line trailing : List Char} (h : LastLine body.toList before line trailing)
    (hremove : removeFromTrailingTagLine body tag = some edited) :
    ∃ existing, parsePureTagLine line = some existing ∧ tag ∈ existing ∧
      (existing = [tag] ∧ edited =
          String.ofList ((before.reverse.dropWhile (· == '\n')).reverse ++ trailing) ∨
        existing.erase tag ≠ [] ∧ edited =
          String.ofList (before ++ joinTagLine (existing.erase tag) ++ trailing)) := by
  rw [h.remove] at hremove
  cases hline : parsePureTagLine line with
  | none =>
    rw [hline] at hremove
    cases hremove
  | some existing =>
    rw [hline] at hremove
    by_cases hmem : tag ∈ existing
    · refine ⟨existing, rfl, hmem, ?_⟩
      have hperm := List.perm_cons_erase hmem
      by_cases hnil : existing.erase tag = []
      · simp [hmem, hnil] at hremove
        rw [hnil] at hperm
        exact .inl ⟨List.perm_singleton.mp hperm, by rw [← hremove]; simp⟩
      · simp [hmem, hnil] at hremove
        exact .inr ⟨hnil, by rw [← hremove]; simp⟩
    · simp [hmem] at hremove

/-- What is on the line after the removal: the first occurrence is gone. -/
theorem tagsOnTrailingLine_remove (hremove : removeFromTrailingTagLine body tag = some edited)
    (hkept : tagsOnTrailingLine body ≠ [tag]) :
    tagsOnTrailingLine edited = (tagsOnTrailingLine body).erase tag := by
  obtain ⟨before, line, trailing, h⟩ := exists_lastLine_of_remove hremove
  obtain ⟨existing, hline, hmem, hcase⟩ := h.removed hremove
  have htags : tagsOnTrailingLine body = existing := by rw [h.tagsOn, hline, Option.getD_some]
  rw [htags] at hkept ⊢
  rcases hcase with ⟨honly, -⟩ | ⟨hne, rfl⟩
  · exact absurd honly hkept
  · have hnormal : ∀ t ∈ existing.erase tag, Normal t := fun t ht =>
      (parsePureTagLine_some hline).2 t (List.mem_of_mem_erase ht)
    rw [(h.joined hne hnormal).tagsOn, parsePureTagLine_join hne hnormal, Option.getD_some]

/-- With one occurrence on the line and none elsewhere, no word of the new body may be read as the
tag. -/
theorem not_mayRead_of_removed (honly : OnLineOnly body tag)
    (hcount : (tagsOnTrailingLine body).count tag ≤ 1)
    (hremove : removeFromTrailingTagLine body tag = some edited) {a word rest : List Char}
    (hat : WordAt edited.toList a word rest) : ¬ MayRead word tag := by
  intro hread
  obtain ⟨before, line, trailing, h⟩ := exists_lastLine_of_remove hremove
  obtain ⟨existing, hline, hmem, hcase⟩ := h.removed hremove
  rw [h.tagsOn, hline, Option.getD_some] at hcount
  have hstarts : ∀ c ∈ before.getLast?, isBlankChar c = true := fun c hc => by
    rcases h.starts with rfl | hn
    · cases hc
    · rw [hn] at hc
      rw [← Option.some.inj hc]
      rfl
  have hblank : ∀ c ∈ trailing.head?, isBlankChar c = true := fun c hc =>
    h.blank c (List.mem_of_mem_head? hc)
  -- A word that was there before the line is no reading of the tag.
  have hbefore : ∀ {rest' y}, WordAt (before ++ y) a word rest' → body.toList = before ++ y →
      before.length ≤ a.length := fun hin htext => (honly h (htext ▸ hin) hread).1
  rcases hcase with ⟨-, rfl⟩ | ⟨hne, rfl⟩
  · rw [String.toList_ofList] at hat
    rcases hat.split (.inr hblank) with ⟨rest', hin, -⟩ | ⟨a', hin⟩
    · have hsplit : before = (before.reverse.dropWhile (· == '\n')).reverse ++
          (before.reverse.takeWhile (· == '\n')).reverse := by
        rw [← List.reverse_append, List.takeWhile_append_dropWhile, List.reverse_reverse]
      have hfeeds : ∀ c ∈ (before.reverse.takeWhile (· == '\n')).reverse, c = '\n' := fun c hc => by
        simpa using List.mem_takeWhile_imp (List.mem_reverse.mp hc)
      generalize (before.reverse.dropWhile (· == '\n')).reverse = kept at hin hsplit
      generalize (before.reverse.takeWhile (· == '\n')).reverse = feeds at hsplit hfeeds
      have hkept := hin.append (y := feeds ++ (line ++ trailing)) fun hnil c hc => by
        cases feeds with
        | nil =>
          rw [List.append_nil] at hsplit
          exact absurd hnil (hin.rest_ne (hsplit ▸ hstarts))
        | cons d ds =>
          rw [← Option.some.inj hc, hfeeds d List.mem_cons_self]
          rfl
      rw [← List.append_assoc, ← hsplit] at hkept
      have hle := hbefore hkept (by rw [h.text, List.append_assoc])
      have hlength := congrArg List.length hin.text
      rw [hsplit] at hle
      simp only [List.length_append, List.length_cons] at hle hlength
      omega
    · exact hin.not_blank h.blank
  · have hnormal : ∀ t ∈ existing.erase tag, Normal t := fun t ht =>
      (parsePureTagLine_some hline).2 t (List.mem_of_mem_erase ht)
    rw [String.toList_ofList, List.append_assoc] at hat
    rcases hat.split (.inl hstarts) with ⟨rest', hin, -⟩ | ⟨a', hin⟩
    · have hle := hbefore (hin.append (y := line ++ trailing) fun hnil =>
        absurd hnil (hin.rest_ne hstarts)) (by rw [h.text, List.append_assoc])
      have hlength := congrArg List.length hin.text
      simp only [List.length_append, List.length_cons] at hlength
      omega
    rcases hin.split (.inr hblank) with ⟨rest', hin', -⟩ | ⟨a'', hin'⟩
    · obtain ⟨t, ht, rfl⟩ := joinTagLine_words hnormal hin'
      obtain ⟨htags, -⟩ := Option.filter_eq_some_iff.mp hline
      obtain ⟨b, word, rest'', hword, hlower⟩ := parseTagTokens_words htags (List.mem_of_mem_erase ht)
      have hsame : t.toList.map Char.toLower = word.map Char.toLower := by
        rw [← toList_normalizeTag, (hnormal t ht).normal, hlower]
      have hold := (hword.append (y := trailing) fun _ c hc =>
        isTagChar_of_isBlankChar (hblank c hc)).prepend before
      rw [← List.append_assoc, ← h.text] at hold
      have htag := (honly h hold (by unfold MayRead at hread ⊢; rwa [hsame] at hread)).2
      obtain rfl : t = tag := String.toList_inj.mp (hlower.symm.trans htag)
      have hpos := List.count_pos_iff.mpr ht
      rw [List.count_erase_self] at hpos
      omega
    · exact hin'.not_blank h.blank

end

/-! ## The card of the store -/

open CardStore

section
variable {K : Type} [SortKey K] {env : Env K} {w : World K} {card : Card K}

/-- The body of the file at a path. -/
def FileBody (env : Env K) (w : World K) (path body : String) : Prop :=
  ∃ raw plain, w.repo.work[path]? = some raw ∧ decodeBlobForProject env raw = .ok plain ∧
    (parseCardFile env.yaml plain).body = body

/-- The card has the tags of one body, in its rows and in its file. -/
structure TaggedBy (env : Env K) (w : World K) (card : Card K) (body : String) : Prop where
  file : FileBody env w card.relPath body
  rows : ∀ (key : List String) (row : CardTag), w.db.cardTags[key]? = some row →
    row.projectId = card.projectId → row.cardId = card.cardId → row.tag ∈ env.extractTags body
  stored : ∀ tag ∈ env.extractTags body, ∃ row : CardTag,
    w.db.cardTags[[card.projectId, card.cardId, tag]]? = some row

/-- The card has not the tag. -/
structure Untagged (env : Env K) (w : World K) (card : Card K) (tag : String) : Prop where
  file : ∃ body, FileBody env w card.relPath body ∧ tag ∉ env.extractTags body
  rows : ∀ (key : List String) (row : CardTag), w.db.cardTags[key]? = some row →
    row.projectId = card.projectId → row.cardId = card.cardId → row.tag ≠ tag

/-- An edit that returns leaves the card with the tags of its new body. -/
theorem updateContentLocked_tagged (henv : env.Lawful) (content : String) (title : Option String)
    (updatedAt : Int) (hw : Tidy env w) :
    Ends (updateContentLocked env card content title updatedAt) w
      (fun _ w' => TaggedBy env w' card content) fun _ _ => True := by
  unfold updateContentLocked
  refine (requireProject_ends hw.journal _).bind ?_ fun _ _ _ => trivial
  rintro - w1 ⟨rfl, -⟩
  have hexisting : Ends (existingCardFile env card.relPath) w1 (fun existing w' => w' = w1 ∧
      ∀ parsed, existing = some parsed → FileBody env w1 card.relPath parsed.body)
      fun _ _ => True := by
    unfold existingCardFile
    simp only [Ends.bind_iff, Ends.get_iff]
    cases hraw : w1.repo.work[card.relPath]? with
    | none => exact ⟨rfl, by simp⟩
    | some raw =>
      simp only [Ends.bind_iff, Ends.fromExcept_iff, Ends.pure_iff, implies_true, and_true]
      intro plain hplain
      refine ⟨trivial, fun parsed hp => ?_⟩
      cases hp
      exact ⟨raw, plain, hraw, decodeBlobForProject_of_card hplain, rfl⟩
  simp only [Ends.bind_iff, Ends.fromExcept_iff, implies_true, and_true]
  intro _ _
  refine hexisting.mono ?_ fun _ _ _ => trivial
  rintro existing w2 ⟨rfl, hbody⟩
  have hwrite : Ends (if fileChanged card content title existing then
      writeContent env card content title updatedAt existing else pure ()) w2
      (fun _ w3 => FileBody env w3 card.relPath content) fun _ _ => True := by
    rw [Ends.ite_iff]
    refine ⟨fun _ => ?_, fun hsame => ?_⟩
    · unfold writeContent
      simp only [Ends.bind_iff, Ends.get_iff]
      rw [← Ends.bind_iff]
      refine (writeStaged_ends _ _ _ _).mono ?_ fun _ _ _ => trivial
      rintro - w3 ⟨-, bytes, ivs, henc, rfl⟩
      obtain ⟨plain, hplain, hparsed⟩ := henc.body henv
      exact ⟨bytes, plain, (Map.get_insert ..).trans (if_pos rfl), hplain, hparsed⟩
    · rw [Ends.pure_iff]
      cases existing with
      | none => simp [fileChanged] at hsame
      | some parsed =>
        have he : parsed.body = content := by
          simp only [fileChanged, Option.any_some, Bool.or_eq_true, Bool.not_eq_true', not_or,
            Bool.not_eq_false, beq_iff_eq] at hsame
          exact hsame.1
        exact he ▸ hbody parsed rfl
  refine hwrite.mono ?_ fun _ _ _ => trivial
  rintro - w3 hfile
  have hdb : ∀ {m : DbM K Unit} {w3 : World K}, FileBody env w3 card.relPath content →
      Ends (onDb m) w3 (fun _ w4 => FileBody env w4 card.relPath content) fun _ _ => True := by
    intro m w3 hfile
    rw [Ends.onDb_iff]
    exact .intro (fun _ _ _ => hfile) fun _ _ _ => trivial
  refine (hdb hfile).mono ?_ fun _ _ _ => trivial
  rintro - w4 hfile
  have hfts : Ends (ftsUpsertCard env card.cardId card.projectId (title.getD card.title) content) w4
      (fun _ w5 => FileBody env w5 card.relPath content) fun _ _ => True := by
    unfold ftsUpsertCard
    rw [Ends.ite_iff]
    exact ⟨fun _ => hdb hfile, fun _ => hfile⟩
  refine hfts.mono ?_ fun _ _ _ => trivial
  rintro - w5 hfile
  unfold TagRepo.setTagsForCard TagRepo.deleteTagsForCard
  simp only [Ends.onDb_iff, Ends.bind_iff, Ends.modify_iff]
  refine (TagRepo.insertTags_ends _ _ _ _ _).mono ?_ fun _ _ _ => trivial
  rintro - db ⟨rfl, -, hnodup, -⟩
  have hkeys : ((env.extractTags content).map fun tag =>
      [card.projectId, card.cardId, tag]).Nodup := hnodup.map fun a b he => by simpa using he
  have hrows : ∀ (key : List String) (row : CardTag), ((env.extractTags content).foldl (fun t tag =>
      t.insert [card.projectId, card.cardId, tag] ⟨card.projectId, card.cardId, tag, updatedAt⟩)
      (w5.db.cardTags.filter fun _ t =>
        !(t.projectId == card.projectId && t.cardId == card.cardId)))[key]? = some row →
      row.projectId = card.projectId → row.cardId = card.cardId →
      row.tag ∈ env.extractTags content := by
    intro key row hrow hproject hcard
    rw [Map.get_foldl_insert_nodup hkeys] at hrow
    rcases hrow with ⟨tag, htag, -, rfl⟩ | ⟨-, hrow⟩
    · exact htag
    · rw [Map.get_filter, Option.filter_eq_some_iff] at hrow
      simp [hproject, hcard] at hrow
  have hstored : ∀ tag ∈ env.extractTags content, ∃ row : CardTag,
      ((env.extractTags content).foldl (fun t tag => t.insert [card.projectId, card.cardId, tag]
        ⟨card.projectId, card.cardId, tag, updatedAt⟩) (w5.db.cardTags.filter fun _ t =>
          !(t.projectId == card.projectId && t.cardId == card.cardId)))[[card.projectId,
            card.cardId, tag]]? = some row :=
    fun tag htag => ⟨_, (Map.get_foldl_insert_nodup hkeys).mpr (.inl ⟨tag, htag, rfl, rfl⟩)⟩
  split
  · simp only [commit, Ends.onRepo_iff, Except.ok.injEq, forall_eq', reduceCtorEq, implies_true,
      and_true]
    exact ⟨hfile, hrows, hstored⟩
  · exact ⟨hfile, hrows, hstored⟩

/-- A removal that is reported leaves the card without the tag. -/
theorem removeTagLocked_untagged (henv : env.Lawful) (hextract : ReadsWords env.extractTags)
    {tag : String} {content : Option String} (updatedAt : Int) (hw : Tidy env w)
    (hcard : w.db.cards[card.cardId]? = some card) (hcontent : getContent env card w = .ok content w)
    (honly : OnLineOnly (content.getD "") tag)
    (hcount : (tagsOnTrailingLine (content.getD "")).count tag ≤ 1) :
    Ends (removeTagLocked env card tag updatedAt) w
      (fun result w' => result = .removed → Untagged env w' card tag) fun _ _ => True := by
  unfold removeTagLocked
  refine (requireProject_ends hw.journal _).bind ?_ fun _ _ _ => trivial
  rintro - w1 ⟨rfl, -⟩
  rw [Ends.bind_iff]
  refine .intro (fun read w2 hread => ?_) fun _ _ _ => trivial
  rw [hcontent] at hread
  cases hread
  dsimp only
  cases hremove : removeFromTrailingTagLine (content.getD "") tag with
  | none =>
    simp only [Ends.pure_iff]
    split <;> simp
  | some newBody =>
    have hgone : tag ∉ env.extractTags newBody := fun hmem => by
      obtain ⟨before, word, rest, hat, hread⟩ := hextract newBody tag hmem
      exact not_mayRead_of_removed honly hcount hremove hat hread
    have hupdate : Ends (updateContent env card.cardId newBody none updatedAt) w1
        (fun _ w' => TaggedBy env w' card newBody) fun _ _ => True := by
      unfold updateContent
      simp only [Ends.bind_iff, Ends.get_iff, CardRepo.get?, hcard]
      exact updateContentLocked_tagged henv newBody none updatedAt hw
    simp only [Ends.bind_iff, Ends.pure_iff]
    refine hupdate.mono (fun _ w3 h3 _ => ⟨⟨newBody, h3.file, hgone⟩, ?_⟩) fun _ _ _ => trivial
    intro key row hrow hproject hcard htag
    exact hgone (htag ▸ h3.rows key row hrow hproject hcard)

/-- A call that reports a removal made it behind the project lock. -/
theorem removeTag_locked {given : String} {updatedAt : Int} {w' : World K}
    (hcard : w.db.cards[card.cardId]? = some card)
    (h : (Call.removeTag card.cardId given updatedAt).run env w = .ok (.removeTag .removed) w') :
    removeTagLocked env card (normalizeTag given) updatedAt w = .ok .removed w' := by
  have hrun : (removeTagEntry env w.db card.cardId given updatedAt).run w =
      .ok (.removeTag .removed) w' := h
  unfold removeTagEntry at hrun
  split at hrun
  · cases hrun
  · simp only [CardRepo.get?, hcard, Entry.run, bind, EStateM.bind, pure, EStateM.pure] at hrun
    cases hlocked : removeTagLocked env card (normalizeTag given) updatedAt w with
    | error e w1 =>
      rw [hlocked] at hrun
      cases hrun
    | ok result w1 =>
      rw [hlocked] at hrun
      cases hrun
      rfl

/-- What `Removed` says about the line: the tag is gone, and the others stay in order. -/
def RemovedFromLine (body tag : String) : Prop :=
  ∀ edited, removeFromTrailingTagLine body tag = some edited → tagsOnTrailingLine body ≠ [tag] →
    tag ∉ tagsOnTrailingLine edited ∧
      tagsOnTrailingLine edited = (tagsOnTrailingLine body).filter (· != tag)

/-- What `Removed` says about a card whose body is this one, in whatever case the tag was given. -/
def RemovedFromCard (env : Env K) (body tag : String) : Prop :=
  OnLineOnly body tag → ∀ (w w' : World K) (card : Card K) (content : Option String) (given : String)
    (updatedAt : Int), normalizeTag given = tag → Tidy env w → w.db.cards[card.cardId]? = some card →
      getContent env card w = .ok content w → content.getD "" = body →
        (Call.removeTag card.cardId given updatedAt).run env w = .ok (.removeTag .removed) w' →
          Untagged env w' card tag

/-- Taking out the first occurrence takes out all when there is one. -/
theorem erase_eq_filter_of_count_le {tags : List String} {tag : String} (h : tags.count tag ≤ 1) :
    tags.erase tag = tags.filter (· != tag) := by
  induction tags with
  | nil => rfl
  | cons t tags ih =>
    by_cases ht : t = tag
    · subst ht
      rw [List.count_cons_self] at h
      have hnot : t ∉ tags := List.count_eq_zero.mp (by omega)
      rw [List.erase_cons_head, List.filter_cons_of_neg (by simp), List.filter_eq_self.mpr]
      exact fun s hs => bne_iff_ne.mpr fun he => hnot (he ▸ hs)
    · rw [List.count_cons_of_ne ht] at h
      rw [List.erase_cons_tail (by simpa using ht), List.filter_cons_of_pos (by simpa using ht), ih h]

/-- A tag is removed when it stands on the line once. -/
theorem removed_iff (henv : env.Lawful) (hextract : ReadsWords env.extractTags) (body tag : String) :
    RemovedFromLine body tag ∧ RemovedFromCard env body tag ↔
      (tagsOnTrailingLine body).count tag ≤ 1 := by
  constructor
  · rintro ⟨hline, -⟩
    by_contra hcount
    have hmem : tag ∈ tagsOnTrailingLine body := List.count_pos_iff.mp (by omega)
    have hkept : tagsOnTrailingLine body ≠ [tag] := fun hone => by
      rw [hone, List.count_singleton_self] at hcount
      exact hcount le_rfl
    obtain ⟨edited, hremove⟩ := exists_removed hmem
    obtain ⟨hgone, -⟩ := hline edited hremove hkept
    rw [tagsOnTrailingLine_remove hremove hkept, ← List.count_eq_zero, List.count_erase_self] at hgone
    omega
  · intro hcount
    refine ⟨fun edited hremove hkept => ?_, ?_⟩
    · rw [tagsOnTrailingLine_remove hremove hkept, erase_eq_filter_of_count_le hcount]
      exact ⟨fun hmem => by simpa using (List.mem_filter.mp hmem).2, rfl⟩
    · rintro honly w w' card content given updatedAt rfl hw hcard hcontent rfl hremove
      exact (removeTagLocked_untagged henv hextract updatedAt hw hcard hcontent honly hcount).ok
        (removeTag_locked hcard hremove) rfl

end

/-- A body that is a tag line. -/
theorem lastLine_joined {tags : List String} (hne : tags ≠ []) (h : ∀ tag ∈ tags, Normal tag) :
    LastLine (joinTagLine tags) [] (joinTagLine tags) [] where
  text := (List.append_nil _).symm
  starts := .inl rfl
  one := fun hmem => by
    rcases joinTagLine_chars h _ hmem with hc | hc | hc
    · cases hc
    · cases hc
    · cases isBlankChar_of_isTagChar hc
  ends := joinTagLine_last hne h
  blank := nofun

theorem tagsOnTrailingLine_joined {body : String} {tags : List String} (hne : tags ≠ [])
    (h : ∀ tag ∈ tags, Normal tag) (hbody : body.toList = joinTagLine tags) :
    tagsOnTrailingLine body = tags := by
  have hlast := lastLine_joined hne h
  rw [← hbody] at hlast
  rw [hlast.tagsOn, hbody, parsePureTagLine_join hne h, Option.getD_some]

/-- An extraction that reads tag lines only. -/
theorem tagsOnTrailingLine_readsWords : ReadsWords tagsOnTrailingLine := by
  intro text tag htag
  rcases blank_or_lastLine text.toList with hall | ⟨before, line, trailing, h⟩
  · rw [(blank_body tag hall).1] at htag
    cases htag
  rw [h.tagsOn] at htag
  cases hline : parsePureTagLine line with
  | none =>
    rw [hline] at htag
    cases htag
  | some existing =>
    rw [hline, Option.getD_some] at htag
    obtain ⟨htags, -⟩ := Option.filter_eq_some_iff.mp hline
    obtain ⟨a, word, rest, hat, hlower⟩ := parseTagTokens_words htags htag
    have hin := (hat.append (y := trailing) fun _ c hc =>
      isTagChar_of_isBlankChar (h.blank c (List.mem_of_mem_head? hc))).prepend before
    rw [← List.append_assoc, ← h.text] at hin
    exact ⟨_, word, _, hin, .inl hlower⟩

theorem normal_a : Normal "a" :=
  ⟨by decide, String.toList_inj.mp (by rw [toList_normalizeTag]; decide)⟩

theorem normal_b : Normal "b" :=
  ⟨by decide, String.toList_inj.mp (by rw [toList_normalizeTag]; decide)⟩

theorem twoTags_removed : RemovedFromLine "#a #b" "a" ∧
    RemovedFromCard (plainEnv tagsOnTrailingLine) "#a #b" "a" := by
  have htags : tagsOnTrailingLine "#a #b" = ["a", "b"] :=
    tagsOnTrailingLine_joined (List.cons_ne_nil _ _) (by simpa using ⟨normal_a, normal_b⟩)
      (by simp [joinTagLine])
  exact (removed_iff (plainEnv_lawful _) tagsOnTrailingLine_readsWords "#a #b" "a").mpr
    (by rw [htags]; decide)

theorem repeatedTag_kept : Normal "a" ∧ ∃ edited, removeFromTrailingTagLine "#a #a" "a" = some edited ∧
    tagsOnTrailingLine "#a #a" ≠ ["a"] ∧ "a" ∈ tagsOnTrailingLine edited := by
  have hnormal : ∀ tag ∈ ["a", "a"], Normal tag := by simpa using normal_a
  have hbody : "#a #a".toList = joinTagLine ["a", "a"] := by simp [joinTagLine]
  have htags : tagsOnTrailingLine "#a #a" = ["a", "a"] :=
    tagsOnTrailingLine_joined (List.cons_ne_nil _ _) hnormal hbody
  obtain ⟨edited, hremove⟩ : ∃ edited, removeFromTrailingTagLine "#a #a" "a" = some edited :=
    exists_removed (by rw [htags]; exact List.mem_cons_self)
  have hkept : tagsOnTrailingLine "#a #a" ≠ ["a"] := by rw [htags]; decide
  refine ⟨normal_a, edited, hremove, hkept, ?_⟩
  rw [tagsOnTrailingLine_remove hremove hkept, htags]
  decide

end HolderCore
