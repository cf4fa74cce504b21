import HolderCore.Card.TagExtractor
import HolderCore.Card.TagRemoval

/-! # Adding a tag

`add_tag` writes a tag line and reads tags from Markdown. What is relied on of md4c: behind an open
fence everything is code, and a tag line elsewhere is text that is split at emphasis markers only. -/

namespace HolderCore

/-! ## Where the tag line goes -/

/-- What stands before the tag line that is written. -/
def beforeTagLine (body : List Char) : List Char :=
  let (content, _) := splitTrailingWhitespace body
  if content.isEmpty then [] else
  let (before, lastLine) := splitLastLine content
  match parsePureTagLine lastLine with
  | some _ => before
  | none => content ++ ['\n', '\n']

/-- A line of tags that begins a paragraph, or that goes on with one and has several tags. -/
structure TagLine (before : List Char) (tags : List String) : Prop where
  ne : tags ≠ []
  normal : ∀ tag ∈ tags, Normal tag
  place : before = [] ∨ ['\n', '\n'] <:+ before ∨ ['\n'] <:+ before ∧ 2 ≤ tags.length

def isFenceChar (c : Char) : Bool := c == '\x60' || c == '~'

theorem isFenceChar_of_isTagChar {c : Char} (h : isTagChar c = true) : isFenceChar c = false :=
  isTagChar_forall (P := fun c => isFenceChar c = false) (by decide +kernel) h

theorem isFenceChar_of_isBlankChar {c : Char} (h : isBlankChar c = true) : isFenceChar c = false := by
  simp only [isBlankChar, isLineWhitespace, Bool.or_eq_true, beq_iff_eq] at h
  rcases h with rfl | (rfl | rfl) | rfl <;> rfl

/-- The characters of a line of tags. -/
theorem parseTagTokens_chars {fuel : Nat} {line : List Char} {tags : List String}
    (hfuel : line.length < fuel) (h : parseTagTokens fuel line = some tags) :
    ∀ c ∈ line, isFenceChar c = false := by
  have hspace : ∀ {c : Char}, isLineWhitespace c = true → isFenceChar c = false := fun hc =>
    isFenceChar_of_isBlankChar (Bool.or_eq_true_iff.mpr (.inr hc))
  fun_induction parseTagTokens fuel line generalizing tags with
  | case1 => omega
  | case2 fuel line hnil =>
    intro c hc
    rw [← List.takeWhile_append_dropWhile (p := isLineWhitespace) (l := line), hnil,
      List.append_nil] at hc
    exact hspace (List.mem_takeWhile_imp hc)
  | case3 fuel line rest hrest candidate hvalid =>
    rename_i ih
    obtain ⟨tags, htags, rfl⟩ := Option.map_eq_some_iff.mp h
    have hline : line = line.takeWhile isLineWhitespace ++ '#' :: rest := by
      rw [← hrest, List.takeWhile_append_dropWhile]
    have hword : rest = candidate.toList ++ rest.dropWhile (fun c => !isLineWhitespace c) := by
      rw [String.toList_ofList, List.takeWhile_append_dropWhile]
    have hshort := List.length_dropWhile_le (fun c => !isLineWhitespace c) rest
    have hlength := congrArg List.length hline
    simp only [List.length_append, List.length_cons] at hlength
    have hall := ih (by omega) htags
    intro c hc
    rw [hline] at hc
    rcases List.mem_append.mp hc with hc | hc
    · exact hspace (List.mem_takeWhile_imp hc)
    rcases List.mem_cons.mp hc with rfl | hc
    · rfl
    rw [hword] at hc
    rcases List.mem_append.mp hc with hc | hc
    · exact isFenceChar_of_isTagChar ((isValidTag_iff.mp hvalid).2.1 c hc)
    · exact hall c hc
  | case4 => cases h
  | case5 => cases h

theorem joinTagLine_concat (tags : List String) (tag : String) :
    ∃ a, joinTagLine (tags ++ [tag]) = a ++ '#' :: tag.toList ∧ ∀ c ∈ a.getLast?, c = ' ' := by
  induction tags with
  | nil => exact ⟨[], by rw [List.nil_append, joinTagLine_cons, if_pos rfl, List.append_nil]; rfl, nofun⟩
  | cons first tags ih =>
    obtain ⟨a, ha, hlast⟩ := ih
    refine ⟨'#' :: first.toList ++ ' ' :: a, ?_, fun c hc => ?_⟩
    · rw [List.cons_append, joinTagLine_cons, if_neg (List.append_ne_nil_of_right_ne_nil _
        (List.cons_ne_nil _ _)), ha]
      simp only [List.append_assoc, List.cons_append]
    · rw [List.getLast?_append, List.getLast?_cons] at hc
      cases hl : a.getLast? with
      | none =>
        rw [hl] at hc
        exact (Option.some.inj hc).symm
      | some d =>
        rw [hl] at hc
        exact hlast c (hl.trans hc)

section
variable {body tag : String}

theorem beforeTagLine_blank {body : List Char} (hall : ∀ c ∈ body, isBlankChar c = true) :
    beforeTagLine body = [] := by
  have hsplit : splitTrailingWhitespace ([] ++ body) = ([], body) :=
    splitTrailingWhitespace_append nofun hall
  rw [List.nil_append] at hsplit
  unfold beforeTagLine
  simp only [hsplit, List.isEmpty_nil, if_true]

theorem LastLine.beforeTagLine_eq {body before line trailing : List Char}
    (h : LastLine body before line trailing) : beforeTagLine body =
      match parsePureTagLine line with
      | some _ => before
      | none => before ++ line ++ ['\n', '\n'] := by
  unfold beforeTagLine
  simp only [h.split, h.content_ne, splitLastLine_append h.starts h.one]
  rfl

/-- The body and what stands before its new tag line begin alike, and go on without a fence. -/
theorem beforeTagLine_alike (body : List Char) : ∃ text rest blanks, body = text ++ rest ∧
    beforeTagLine body = text ++ blanks ∧ (∀ c ∈ blanks, isBlankChar c = true) ∧
    ∀ c ∈ rest, isFenceChar c = false := by
  rcases blank_or_lastLine body with hall | ⟨before, line, trailing, h⟩
  · exact ⟨[], body, [], rfl, beforeTagLine_blank hall, nofun,
      fun c hc => isFenceChar_of_isBlankChar (hall c hc)⟩
  have htrailing : ∀ c ∈ trailing, isFenceChar c = false := fun c hc =>
    isFenceChar_of_isBlankChar (h.blank c hc)
  cases hline : parsePureTagLine line with
  | some existing =>
    obtain ⟨htags, -⟩ := Option.filter_eq_some_iff.mp hline
    have hchars := parseTagTokens_chars (Nat.lt_succ_self _) htags
    refine ⟨before, line ++ trailing, [], by rw [h.text, List.append_assoc], ?_, nofun, fun c hc => ?_⟩
    · rw [h.beforeTagLine_eq, hline, List.append_nil]
    · exact (List.mem_append.mp hc).elim (hchars c) (htrailing c)
  | none =>
    refine ⟨before ++ line, trailing, ['\n', '\n'], h.text, ?_, by simp [isBlankChar], htrailing⟩
    rw [h.beforeTagLine_eq, hline]

/-- A tag that is not on the line is put at its end. -/
theorem upsert_tagLine (htag : Normal tag) (hnew : tag ∉ tagsOnTrailingLine body) :
    TagLine (beforeTagLine body.toList) (tagsOnTrailingLine body ++ [tag]) ∧
      ∃ trailing, (∀ c ∈ trailing, isBlankChar c = true) ∧ upsertTrailingTagLine body tag =
        String.ofList (beforeTagLine body.toList ++ joinTagLine (tagsOnTrailingLine body ++ [tag]) ++
          trailing) := by
  have hone : ∀ t ∈ [tag], Normal t := fun t ht => List.mem_singleton.mp ht ▸ htag
  have hjoin : joinTagLine [tag] = '#' :: tag.toList := by
    rw [joinTagLine_cons, if_pos rfl, List.append_nil]
  rcases blank_or_lastLine body.toList with hall | ⟨before, line, trailing, h⟩
  · have hsplit : splitTrailingWhitespace ([] ++ body.toList) = ([], body.toList) :=
      splitTrailingWhitespace_append nofun hall
    rw [List.nil_append] at hsplit
    rw [(blank_body tag hall).1, beforeTagLine_blank hall, List.nil_append]
    refine ⟨⟨List.cons_ne_nil _ _, hone, .inl rfl⟩, [], nofun, ?_⟩
    unfold upsertTrailingTagLine
    simp only [hsplit, List.isEmpty_nil, if_true, List.append_nil, List.nil_append, hjoin]
    apply String.toList_inj.mp
    rw [String.toList_append, String.toList_ofList, String.toList_ofList]
    rfl
  have hbefore := h.beforeTagLine_eq
  cases hline : parsePureTagLine line with
  | some existing =>
    have htags : tagsOnTrailingLine body = existing := by rw [h.tagsOn, hline, Option.getD_some]
    obtain ⟨hne, hnormal⟩ := parsePureTagLine_some hline
    rw [hline] at hbefore
    rw [htags] at hnew ⊢
    rw [hbefore]
    refine ⟨⟨List.append_ne_nil_of_right_ne_nil _ (List.cons_ne_nil _ _), fun t ht => ?_, ?_⟩,
      trailing, h.blank, ?_⟩
    · exact (List.mem_append.mp ht).elim (hnormal t) (hone t)
    · rcases h.starts with hnil | hlast
      · exact .inl hnil
      · refine .inr (.inr ⟨?_, ?_⟩)
        · obtain ⟨text, htext⟩ := List.getLast?_eq_some_iff.mp hlast
          exact ⟨text, htext.symm⟩
        · rw [List.length_append, List.length_singleton]
          exact Nat.succ_le_succ (List.length_pos_iff.mpr hne)
    · rw [h.upsert, hline]
      simp [hnew]
  | none =>
    have htags : tagsOnTrailingLine body = [] := by rw [h.tagsOn, hline]; rfl
    rw [hline] at hbefore
    rw [htags, hbefore, List.nil_append]
    refine ⟨⟨List.cons_ne_nil _ _, hone, .inr (.inl (List.suffix_append _ _))⟩, trailing, h.blank, ?_⟩
    rw [h.upsert, hline, hjoin]
    simp

/-- A tag that is on the line changes nothing. -/
theorem upsert_present (hmem : tag ∈ tagsOnTrailingLine body) : upsertTrailingTagLine body tag = body := by
  rcases blank_or_lastLine body.toList with hall | ⟨before, line, trailing, h⟩
  · rw [(blank_body tag hall).1] at hmem
    cases hmem
  rw [h.tagsOn] at hmem
  rw [h.upsert]
  cases hline : parsePureTagLine line with
  | none =>
    rw [hline] at hmem
    cases hmem
  | some existing =>
    rw [hline, Option.getD_some] at hmem
    simp [hmem]

end

/-! ## Reading the new body -/

/-- md4c: its callbacks on a text, whether a fence is open where a text ends (outside lists and
quotes), and the emphasis markers of the last line of a text. -/
structure Markdown where
  mdParse : List Char → List MdEvent
  fenceOpen : List Char → Bool
  isMarker : (before line : List Char) → (index : Nat) → Bool

/-- What CommonMark says of an open fence and of a tag line. -/
structure Markdown.CommonMark (md : Markdown) : Prop where
  /-- White space opens and closes no fence. -/
  fence_blank : ∀ text blanks, (∀ c ∈ blanks, isBlankChar c = true) →
    md.fenceOpen (text ++ blanks) = md.fenceOpen text
  /-- An open fence goes on to the end of the text when nothing closes it, and all in it is code. -/
  fence_code : ∀ text rest, md.fenceOpen text = true → (∀ c ∈ rest, isFenceChar c = false) →
    textRuns false (md.mdParse (text ++ rest)) = textRuns false (md.mdParse text)
  /-- Elsewhere a tag line is text, and what has no marker is not split. -/
  line_text : ∀ before tags trailing start part rest, md.fenceOpen before = false →
    TagLine before tags → (∀ c ∈ trailing, isBlankChar c = true) →
    joinTagLine tags = start ++ part ++ rest →
    (∀ i < part.length, md.isMarker before (joinTagLine tags) (start.length + i) = false) →
    ∃ l r, l <:+ start ∧ r <+: rest ++ trailing ∧
      l ++ part ++ r ∈ textRuns false (md.mdParse (before ++ joinTagLine tags ++ trailing))
  /-- No other character of a tag line can be a marker. -/
  marker_underscore : ∀ before tags i, (∀ tag ∈ tags, Normal tag) →
    md.isMarker before (joinTagLine tags) i = true → (joinTagLine tags)[i]? = some '_'

/-- What a run of text is of a body: a word that matches in it is a word of the body, cut off at most at
an underscore that may be emphasis. -/
def ReadsRuns (mdParse : List Char → List MdEvent) : Prop :=
  ∀ body, ∀ run ∈ textRuns false (mdParse body), ∀ word ∈ tagMatches run,
    ∃ before whole rest, WordAt body before whole rest ∧
      (whole = word ∨ ∃ more, whole = word ++ '_' :: more ∧ inWord word more = false)

theorem inWord_toLower {word more : List Char} (hword : ∀ c ∈ word, isTagChar c = true)
    (hmore : ∀ c ∈ more, isTagChar c = true) :
    inWord (word.map Char.toLower) (more.map Char.toLower) = inWord word more := by
  have hchar : ∀ c, isTagChar c = true →
      (c.toLower == '_') = (c == '_') ∧ c.toLower.isAlphanum = c.isAlphanum := fun c =>
    isTagChar_forall (P := fun c => (c.toLower == '_') = (c == '_') ∧
      c.toLower.isAlphanum = c.isAlphanum) (by decide +kernel)
  have hpart : ∀ chars : List Char, (∀ c ∈ chars, isTagChar c = true) →
      ((chars.map Char.toLower).dropWhile (· == '_')).head?.any (·.isAlphanum) =
        (chars.dropWhile (· == '_')).head?.any (·.isAlphanum) := by
    intro chars
    induction chars with
    | nil => exact fun _ => rfl
    | cons c chars ih =>
      intro h
      obtain ⟨hunder, halnum⟩ := hchar c (h c List.mem_cons_self)
      rw [List.map_cons, List.dropWhile_cons, List.dropWhile_cons, hunder]
      split
      · exact ih fun d hd => h d (List.mem_cons_of_mem _ hd)
      · exact halnum
  rw [inWord, inWord, ← List.map_reverse, hpart _ fun c hc => hword c (List.mem_reverse.mp hc), hpart _ hmore]

/-- The extractor reads words of the text, where md4c's runs are parts of it. -/
theorem extractTags_readsWords {mdParse : List Char → List MdEvent} (h : ReadsRuns mdParse) :
    ReadsWords (extractTags mdParse) := by
  intro text tag htag
  obtain ⟨run, hrun, word, hword, -, rfl⟩ := mem_extractTags.mp htag
  obtain ⟨before, whole, rest, hat, hwhole⟩ := h _ run hrun word hword
  refine ⟨before, whole, rest, hat, ?_⟩
  rw [MayRead, toList_normalizeTag, String.toList_ofList]
  obtain rfl | ⟨more, rfl, hcut⟩ := hwhole
  · exact .inl rfl
  · refine .inr ⟨more.map Char.toLower, by rw [List.map_append, List.map_cons]; rfl, ?_⟩
    rw [inWord_toLower (fun c hc => hat.word c (List.mem_append_left _ hc)) fun c hc =>
      hat.word c (List.mem_append_right _ (List.mem_cons_of_mem _ hc))]
    exact hcut

/-- The body after `add_tag`. -/
def addedBody (extract : String → List String) (body tag : String) : String :=
  if (extract body).contains tag then body else upsertTrailingTagLine body tag

/-- The tag line that is written for a tag. -/
def newTagLine (body tag : String) : List Char := joinTagLine (tagsOnTrailingLine body ++ [tag])

/-- The tag is read already, or it is not on the trailing line and no fence is open there. -/
def Addable (md : Markdown) (body tag : String) : Prop :=
  tag ∈ extractTags md.mdParse body ∨
    tag ∉ tagsOnTrailingLine body ∧ md.fenceOpen (beforeTagLine body.toList) = false

/-- The tag is read already, or no character of it is an emphasis marker where it is put. -/
def Unmarked (md : Markdown) (body tag : String) : Prop :=
  tag ∈ extractTags md.mdParse body ∨
    ∀ i, (newTagLine body tag).length ≤ i + tag.length + 1 → i < (newTagLine body tag).length →
      md.isMarker (beforeTagLine body.toList) (newTagLine body tag) i = false

section
variable {md : Markdown} {body tag : String}

theorem tagsOnTrailingLine_normal (body : String) : ∀ t ∈ tagsOnTrailingLine body, Normal t := by
  unfold tagsOnTrailingLine
  dsimp only
  split
  · exact nofun
  · cases hline : parsePureTagLine (splitLastLine (splitTrailingWhitespace body.toList).1).2 with
    | none => exact nofun
    | some existing => exact (parsePureTagLine_some hline).2

/-- A tag without an underscore is not split. -/
theorem unmarked_of_no_underscore (hmd : md.CommonMark) (htag : Normal tag) (h : '_' ∉ tag.toList) :
    Unmarked md body tag := by
  refine .inr fun i hlow hhigh => ?_
  obtain ⟨start, hjoin, -⟩ := joinTagLine_concat (tagsOnTrailingLine body) tag
  have hline : newTagLine body tag = start ++ '#' :: tag.toList := hjoin
  have hlength := congrArg List.length hline
  simp only [List.length_append, List.length_cons, String.length_toList] at hlength
  have hnormal : ∀ t ∈ tagsOnTrailingLine body ++ [tag], Normal t := fun t ht =>
    (List.mem_append.mp ht).elim (tagsOnTrailingLine_normal body t) fun hone =>
      List.mem_singleton.mp hone ▸ htag
  cases hmark : md.isMarker (beforeTagLine body.toList) (newTagLine body tag) i with
  | false => rfl
  | true =>
    have hunder := hmd.marker_underscore _ _ i hnormal hmark
    rw [← newTagLine, hline, List.getElem?_append_right (by omega)] at hunder
    rcases List.mem_cons.mp (List.mem_of_getElem? hunder) with heq | hmem
    · cases heq
    · exact absurd hmem h

/-- A tag whose word is whole in a run is read. -/
theorem isTagOf_run (htag : Normal tag) {l r : List Char} {runs : List (List Char)}
    (hrun : l ++ '#' :: tag.toList ++ r ∈ runs) (hl : ∀ c ∈ l.getLast?, isTagLead c = true)
    (hr : ∀ c ∈ r.head?, isTagChar c = false) :
    ∃ run ∈ runs, ∃ word ∈ tagMatches run, IsTagOf tag word := by
  obtain ⟨⟨first, hfirst, halpha⟩, hchars, hhex⟩ := isValidTag_iff.mp htag.valid
  cases hlist : tag.toList with
  | nil =>
    rw [hlist] at hfirst
    cases hfirst
  | cons c word =>
    rw [hlist] at hfirst hchars hrun
    cases hfirst
    have hword := tagWord_append halpha (fun d hd => hchars d (List.mem_cons_of_mem _ hd)) hr
    refine ⟨_, hrun, first :: word, ?_, ?_, ?_⟩
    · rw [List.append_assoc]
      exact mem_tagMatches hword hl
    · rw [← hlist, String.ofList_toList]
      exact hhex
    · rw [← hlist, String.ofList_toList]
      exact htag.normal

/-- A tag that is put where no fence is open, and not split, is read. -/
theorem added_of_addable (hmd : md.CommonMark) (htag : Normal tag) (haddable : Addable md body tag)
    (hmark : Unmarked md body tag) :
    tag ∈ extractTags md.mdParse (addedBody (extractTags md.mdParse) body tag) := by
  unfold addedBody
  by_cases hread : tag ∈ extractTags md.mdParse body
  · rw [if_pos (List.contains_iff_mem.mpr hread)]
    exact hread
  rw [if_neg (by simpa using hread)]
  obtain ⟨hnew, hfence⟩ := haddable.resolve_left hread
  have hfree := hmark.resolve_left hread
  obtain ⟨hline, trailing, htrailing, hupsert⟩ := upsert_tagLine htag hnew
  obtain ⟨start, hjoin, hstart⟩ := joinTagLine_concat (tagsOnTrailingLine body) tag
  obtain ⟨l, r, hl, hr, hrun⟩ := hmd.line_text _ _ _ start ('#' :: tag.toList) [] hfence hline htrailing
    (hjoin.trans (List.append_nil _).symm) fun i hi => by
      have hlength := congrArg List.length hjoin
      simp only [List.length_append, List.length_cons, String.length_toList] at hlength hi
      exact hfree _ (by unfold newTagLine; omega) (by unfold newTagLine; omega)
  rw [hupsert, mem_extractTags, String.toList_ofList]
  refine isTagOf_run htag hrun (fun c hc => ?_) fun c hc => ?_
  · obtain ⟨k, rfl⟩ := hl
    have hlast : (k ++ l).getLast? = some c := by
      rw [List.getLast?_append, Option.mem_def.mp hc]
      rfl
    rw [hstart c hlast]
    rfl
  · exact isTagChar_of_isBlankChar (htrailing c (hr.subset (List.mem_of_mem_head? hc)))

/-- A tag that is read from the new body was read already or went to a place without a fence. -/
theorem addable_of_added (hmd : md.CommonMark) (htag : Normal tag)
    (h : tag ∈ extractTags md.mdParse (addedBody (extractTags md.mdParse) body tag)) :
    Addable md body tag := by
  by_cases hread : tag ∈ extractTags md.mdParse body
  · exact .inl hread
  rw [addedBody, if_neg (by simpa using hread)] at h
  refine .inr ⟨fun hmem => ?_, ?_⟩
  · rw [upsert_present hmem] at h
    exact hread h
  · by_contra hfence
    rw [Bool.not_eq_false] at hfence
    have hnew : tag ∉ tagsOnTrailingLine body := fun hmem => by
      rw [upsert_present hmem] at h
      exact hread h
    obtain ⟨hline, trailing, htrailing, hupsert⟩ := upsert_tagLine htag hnew
    obtain ⟨text, rest, blanks, hbody, hbefore, hblanks, hrest⟩ := beforeTagLine_alike body.toList
    have hopen : md.fenceOpen text = true := by
      rw [← hmd.fence_blank text blanks hblanks, ← hbefore]
      exact hfence
    -- The old body and the new one have the runs of the text before the line.
    have hadded : ∀ c ∈ newTagLine body tag ++ trailing, isFenceChar c = false := by
      intro c hc
      rcases List.mem_append.mp hc with hc | hc
      · rcases joinTagLine_chars hline.normal c hc with rfl | rfl | hchar
        · rfl
        · rfl
        · exact isFenceChar_of_isTagChar hchar
      · exact isFenceChar_of_isBlankChar (htrailing c hc)
    have hsame : textRuns false (md.mdParse (upsertTrailingTagLine body tag).toList) =
        textRuns false (md.mdParse body.toList) := by
      rw [hupsert, String.toList_ofList, hbefore, List.append_assoc, List.append_assoc, ← newTagLine,
        hmd.fence_code text _ hopen, hbody, hmd.fence_code text rest hopen hrest]
      intro c hc
      rcases List.mem_append.mp hc with hc | hc
      · exact isFenceChar_of_isBlankChar (hblanks c hc)
      · exact hadded c hc
    exact hread ((mem_extractTags_congr hsame).mp h)

end

/-! ## The card of the store -/

open CardStore

section
variable {K : Type} [SortKey K] {env : Env K} {w : World K} {card : Card K} {body tag : String}

/-- The card has the tag in its file and in its rows. -/
structure HasTag (env : Env K) (w : World K) (card : Card K) (tag : String) : Prop where
  file : ∃ body, FileBody env w card.relPath body ∧ tag ∈ env.extractTags body
  row : ∃ row : CardTag, w.db.cardTags[[card.projectId, card.cardId, tag]]? = some row

/-- The rows of the card hold the tags of its file. -/
def TagsStored (env : Env K) (w : World K) (card : Card K) : Prop :=
  ∀ body tag, FileBody env w card.relPath body → tag ∈ env.extractTags body →
    ∃ row : CardTag, w.db.cardTags[[card.projectId, card.cardId, tag]]? = some row

theorem fileBody_of_getContent {w' : World K} (hw : Tidy env w)
    (h : getContent env card w = .ok (some body) w') : FileBody env w card.relPath body := by
  have hends : Ends (getContent env card) w (fun content _ => ∀ body, content = some body →
      FileBody env w card.relPath body) fun _ _ => True := by
    unfold getContent
    refine (requireProject_ends hw.journal _).bind ?_ fun _ _ _ => trivial
    rintro - w1 ⟨rfl, -⟩
    simp only [Ends.bind_iff, Ends.fromExcept_iff, Ends.get_iff, implies_true, and_true]
    intro _ _
    cases hraw : w1.repo.work[card.relPath]? with
    | none => simp
    | some raw =>
      simp only [Ends.bind_iff, Ends.fromExcept_iff, Ends.pure_iff, implies_true, and_true]
      intro plain hplain body hbody
      cases hbody
      exact ⟨raw, plain, hraw, decodeBlobForProject_of_card hplain, rfl⟩
  exact hends.ok h body rfl

/-- An addition that returns leaves the card with the tags of the body after it. -/
theorem addTag_hasTag (henv : env.Lawful) (htag : isValidTag tag = true) (updatedAt : Int)
    (hw : Tidy env w) (hcard : w.db.cards[card.cardId]? = some card)
    (hcontent : getContent env card w = .ok (some body) w) (hstored : TagsStored env w card)
    (hadded : normalizeTag tag ∈
      env.extractTags (addedBody env.extractTags body (normalizeTag tag))) :
    Ends ((Call.addTag card.cardId tag updatedAt).run env) w
      (fun _ w' => HasTag env w' card (normalizeTag tag)) fun _ _ => True := by
  have hfile := fileBody_of_getContent hw hcontent
  simp only [Call.run, Ends.bind_iff, Ends.get_iff, Call.enter, addTagEntry, htag, Bool.not_true,
    Bool.false_eq_true, if_false, CardRepo.get?, hcard, Entry.run]
  unfold addTagLocked
  refine (requireProject_ends hw.journal _).bind ?_ fun _ _ _ => trivial
  rintro - w1 ⟨rfl, -⟩
  rw [Ends.bind_iff]
  refine .intro (fun read w2 hread => ?_) fun _ _ _ => trivial
  rw [hcontent] at hread
  cases hread
  dsimp only [Option.getD_some]
  unfold addedBody at hadded
  split
  · next hpresent =>
    rw [if_pos hpresent] at hadded
    simp only [Ends.pure_iff]
    exact ⟨⟨body, hfile, hadded⟩, hstored body _ hfile hadded⟩
  · next hnew =>
    rw [if_neg hnew] at hadded
    have hupdate : Ends (updateContent env card.cardId
        (upsertTrailingTagLine body (normalizeTag tag)) none updatedAt) w1
        (fun _ w' => TaggedBy env w' card (upsertTrailingTagLine body (normalizeTag tag)))
        fun _ _ => True := by
      unfold updateContent
      simp only [Ends.bind_iff, Ends.get_iff, CardRepo.get?, hcard]
      exact updateContentLocked_tagged henv _ none updatedAt hw
    simp only [Ends.bind_iff, Ends.pure_iff]
    exact hupdate.mono (fun _ w3 h3 => ⟨⟨_, h3.file, hadded⟩, h3.stored _ hadded⟩)
      fun _ _ _ => trivial

/-- What `Added` and `AlreadyPresent` say about a card whose body is this one. -/
def AddedToCard (env : Env K) (body tag : String) : Prop :=
  ∀ (w w' : World K) (card : Card K) (updatedAt : Int) (result : AddTagResult), Tidy env w →
    w.db.cards[card.cardId]? = some card → getContent env card w = .ok (some body) w →
      TagsStored env w card →
        (Call.addTag card.cardId tag updatedAt).run env w = .ok (.addTag result) w' →
          HasTag env w' card (normalizeTag tag)

/-- A tag is read where it can be added and is not split, and it is read only where it can be
added; what splits a tag is an underscore. -/
theorem addTag_reads (henv : env.Lawful) {md : Markdown} (hmd : md.CommonMark)
    (hextract : env.extractTags = extractTags md.mdParse) (htag : isValidTag tag = true)
    (body : String) :
    (Addable md body (normalizeTag tag) ∧ Unmarked md body (normalizeTag tag) →
      normalizeTag tag ∈ env.extractTags (addedBody env.extractTags body (normalizeTag tag)) ∧
        AddedToCard env body tag) ∧
    (normalizeTag tag ∈ env.extractTags (addedBody env.extractTags body (normalizeTag tag)) →
      Addable md body (normalizeTag tag)) ∧
    ('_' ∉ (normalizeTag tag).toList → Unmarked md body (normalizeTag tag)) := by
  have hnormal := normal_of_isValidTag htag
  refine ⟨fun ⟨haddable, hmark⟩ => ?_, fun h => ?_, unmarked_of_no_underscore hmd hnormal⟩
  · have hadded := added_of_addable hmd hnormal haddable hmark
    rw [← hextract] at hadded
    refine ⟨hadded, fun w w' card updatedAt result hw hcard hcontent hstored hrun => ?_⟩
    exact (addTag_hasTag henv htag updatedAt hw hcard hcontent hstored hadded).ok hrun
  · rw [hextract] at h
    exact addable_of_added hmd hnormal h

end

/-! ## A fence and a note -/

/-- Markdown whose first fence is never closed and that has no emphasis. -/
def fencedMarkdown : Markdown where
  mdParse text := (((text.takeWhile (! isFenceChar ·)).splitOn '\n').map .text) ++
    match text.dropWhile (! isFenceChar ·) with
    | [] => []
    | fenced => [.enterBlock true, .text fenced, .leaveBlock true]
  fenceOpen text := text.any isFenceChar
  isMarker _ _ _ := false

theorem textRuns_fencedMarkdown (text : List Char) : textRuns false (fencedMarkdown.mdParse text) =
    (text.takeWhile (! isFenceChar ·)).splitOn '\n' := by
  simp only [fencedMarkdown]
  generalize (text.takeWhile (! isFenceChar ·)).splitOn '\n' = lines
  induction lines with
  | nil =>
    cases text.dropWhile (! isFenceChar ·) with
    | nil => rfl
    | cons c cs => rfl
  | cons line lines ih =>
    rw [List.map_cons, List.cons_append, textRuns, ih]

/-- A part of a line is in the line. -/
theorem mem_splitOn {before line : List Char} (trailing : List Char) (hline : '\n' ∉ line)
    (hbefore : before = [] ∨ ['\n'] <:+ before) :
    ∃ r, r <+: trailing ∧ line ++ r ∈ (before ++ line ++ trailing).splitOn '\n' := by
  have hlast : ∃ r, r <+: trailing ∧ line ++ r ∈ (line ++ trailing).splitOn '\n' := by
    obtain ⟨r, rest, hr, hfree, hrest⟩ : ∃ r rest, trailing = r ++ rest ∧ '\n' ∉ r ∧
        (rest = [] ∨ ∃ more, rest = '\n' :: more) := by
      refine ⟨trailing.takeWhile (· != '\n'), trailing.dropWhile (· != '\n'),
        List.takeWhile_append_dropWhile.symm, fun hmem => ?_, ?_⟩
      · simpa using List.mem_takeWhile_imp hmem
      · cases hdrop : trailing.dropWhile (· != '\n') with
        | nil => exact .inl rfl
        | cons c more =>
          have hstop := List.head?_dropWhile_not (· != '\n') trailing
          rw [hdrop] at hstop
          exact .inr ⟨more, by simpa using hstop⟩
    have hword : '\n' ∉ line ++ r := fun hmem => (List.mem_append.mp hmem).elim hline hfree
    refine ⟨r, ⟨rest, hr.symm⟩, ?_⟩
    rw [hr, ← List.append_assoc]
    rcases hrest with rfl | ⟨more, rfl⟩
    · rw [List.append_nil, List.splitOn_eq_singleton hword]
      exact List.mem_singleton.mpr rfl
    · rw [List.splitOn_append_cons_self_of_not_mem hword]
      exact List.mem_cons_self
  rcases hbefore with rfl | ⟨p, rfl⟩
  · exact hlast
  · obtain ⟨r, hr, hmem⟩ := hlast
    refine ⟨r, hr, ?_⟩
    rw [List.append_assoc, List.append_assoc, List.singleton_append, List.splitOn_append_cons_self]
    exact List.mem_append_right _ hmem

theorem fencedMarkdown_commonMark : fencedMarkdown.CommonMark where
  fence_blank text blanks h := by
    have hnone : blanks.any isFenceChar = false := by
      rw [List.any_eq_false]
      exact fun c hc => by simp [isFenceChar_of_isBlankChar (h c hc)]
    change (text ++ blanks).any isFenceChar = text.any isFenceChar
    rw [List.any_append, hnone, Bool.or_false]
  fence_code text rest hopen _ := by
    rw [textRuns_fencedMarkdown, textRuns_fencedMarkdown]
    obtain ⟨c, hc, hfence⟩ := List.any_eq_true.mp hopen
    congr 1
    rw [List.takeWhile_append, if_neg]
    intro hlength
    have hall := List.takeWhile_eq_self_iff.mp (List.Sublist.eq_of_length
      (List.takeWhile_sublist _) hlength) c hc
    rw [hfence] at hall
    cases hall
  line_text before tags trailing start part rest hclosed hline htrailing hjoin _ := by
    have hclosed' : ∀ c ∈ before, isFenceChar c = false := by
      simpa using List.any_eq_false.mp hclosed
    have hone : '\n' ∉ joinTagLine tags := fun hmem => by
      rcases joinTagLine_chars hline.normal _ hmem with hc | hc | hc
      · cases hc
      · cases hc
      · cases isBlankChar_of_isTagChar hc
    have hall : ∀ c ∈ before ++ joinTagLine tags ++ trailing, (! isFenceChar c) = true := by
      intro c hc
      rw [Bool.not_eq_true']
      rcases List.mem_append.mp hc with hc | hc
      · rcases List.mem_append.mp hc with hc | hc
        · exact hclosed' c hc
        · rcases joinTagLine_chars hline.normal c hc with rfl | rfl | hchar
          · rfl
          · rfl
          · exact isFenceChar_of_isTagChar hchar
      · exact isFenceChar_of_isBlankChar (htrailing c hc)
    have hbefore : before = [] ∨ ['\n'] <:+ before := by
      rcases hline.place with hnil | htwo | ⟨hone, -⟩
      · exact .inl hnil
      · exact .inr (.trans ⟨['\n'], rfl⟩ htwo)
      · exact .inr hone
    obtain ⟨r, hr, hmem⟩ := mem_splitOn trailing hone hbefore
    refine ⟨start, rest ++ r, List.suffix_rfl, (List.prefix_append_right_inj _).mpr hr, ?_⟩
    rw [textRuns_fencedMarkdown, List.takeWhile_eq_self_iff.mpr hall, ← List.append_assoc, ← hjoin]
    exact hmem
  marker_underscore _ _ _ _ h := by cases h

theorem milkNote_tagged :
    normalizeTag "milk" ∈ extractTags fencedMarkdown.mdParse
      (addedBody (extractTags fencedMarkdown.mdParse) "Buy milk" (normalizeTag "milk")) ∧
    AddedToCard (plainEnv (extractTags fencedMarkdown.mdParse)) "Buy milk" "milk" := by
  have hline : tagsOnTrailingLine "Buy milk" = [] := by decide +kernel
  have hfence : fencedMarkdown.fenceOpen (beforeTagLine "Buy milk".toList) = false := by decide +kernel
  refine (addTag_reads (plainEnv_lawful _) fencedMarkdown_commonMark rfl (by decide) "Buy milk").1
    ⟨.inr ⟨?_, hfence⟩, .inr fun _ _ _ => rfl⟩
  rw [hline]
  exact List.not_mem_nil

/-- A card whose body opens a fence. -/
def fencedCard : World ℚ :=
  runCalls (plainEnv (extractTags fencedMarkdown.mdParse)) World.empty
    [.create (plainCard "aaaa" "a" none 1) "```\ncode" none]

theorem fencedCard_run : (match fencedCard.db.cards["aaaa"]? with
    | some card => match addTagLocked (plainEnv (extractTags fencedMarkdown.mdParse)) card "todo" 2
        fencedCard with
      | .ok .added w' => (w'.db.cardTags[["home", "aaaa", "todo"]]?).isNone
      | _ => false
    | none => false) = true := by decide +kernel

theorem openFence_untagged : isValidTag "todo" = true ∧ normalizeTag "todo" = "todo" ∧
    "todo" ∉ extractTags fencedMarkdown.mdParse
      (addedBody (extractTags fencedMarkdown.mdParse) "```\ncode" "todo") ∧
    ∃ w', (Call.addTag "aaaa" "todo" 2).run (plainEnv (extractTags fencedMarkdown.mdParse)) fencedCard =
        .ok (.addTag .added) w' ∧ w'.db.cardTags[["home", "aaaa", "todo"]]? = none := by
  have hvalid : isValidTag "todo" = true := by decide
  have hnorm : normalizeTag "todo" = "todo" :=
    String.toList_inj.mp (by rw [toList_normalizeTag]; decide)
  refine ⟨hvalid, hnorm, by decide +kernel, ?_⟩
  have heval := fencedCard_run
  generalize plainEnv (extractTags fencedMarkdown.mdParse) = env at heval ⊢
  generalize fencedCard = w at heval ⊢
  cases hcard : w.db.cards["aaaa"]? with
  | none =>
    rw [hcard] at heval
    cases heval
  | some card =>
    simp only [hcard] at heval
    have hends : Ends ((Call.addTag "aaaa" "todo" 2).run env) w
        (fun result w' => result = .addTag .added ∧ w'.db.cardTags[["home", "aaaa", "todo"]]? = none)
        fun _ _ => False := by
      simp only [Call.run, Ends.bind_iff, Ends.get_iff, Call.enter, addTagEntry, hvalid, Bool.not_true,
        Bool.false_eq_true, if_false, CardRepo.get?, hcard, Entry.run, hnorm, Ends.pure_iff]
      split at heval
      · next w' hrun =>
        rw [Ends, hrun]
        exact ⟨rfl, Option.isNone_iff_eq_none.mp heval⟩
      · cases heval
    unfold Ends at hends
    split at hends
    · next result w' hrun =>
      obtain ⟨rfl, hnone⟩ := hends
      exact ⟨w', hrun, hnone⟩
    · exact hends.elim

end HolderCore
