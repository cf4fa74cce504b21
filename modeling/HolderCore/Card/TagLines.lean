import HolderCore.Card.Tags

/-! # The trailing tag line

What the edits of `card/TagLineEditor.cpp` do to a body: a body is the text before its last line that
is not blank, that line and the white space behind it. -/

namespace HolderCore

/-- `tags_on_trailing_line`. -/
def tagsOnTrailingLine (body : String) : List String :=
  let (content, _) := splitTrailingWhitespace body.toList
  if content.isEmpty then [] else
  let (_, lastLine) := splitLastLine content
  (parsePureTagLine lastLine).getD []

/-! ## Characters of a tag -/

def isTagChar (c : Char) : Bool := c.isAlphanum || c == '_' || c == '/' || c == '-'

/-- White space and line ends, as the editor sees them. -/
def isBlankChar (c : Char) : Bool := c == '\n' || isLineWhitespace c

theorem isTagChar_lt {c : Char} (h : isTagChar c = true) : c.toNat < 128 := by
  have hle : ∀ d : Char, d.toNat < 128 → c ≤ d → c.toNat < 128 := fun d hd hcd =>
    lt_of_le_of_lt (UInt32.le_iff_toNat_le.mp hcd) hd
  simp only [isTagChar, Char.isAlphanum, Char.isAlpha, Char.isUpper, Char.isLower, Char.isDigit,
    Bool.or_eq_true, Bool.and_eq_true, decide_eq_true_eq, beq_iff_eq] at h
  rcases h with ((((⟨-, hZ⟩ | ⟨-, hz⟩) | ⟨-, h9⟩) | rfl) | rfl) | rfl
  · exact hle 'Z' (by decide) hZ
  · exact hle 'z' (by decide) hz
  · exact hle '9' (by decide) h9
  all_goals decide

/-- A property of the characters of a tag, checked for all characters of 7 bits. -/
theorem isTagChar_forall {P : Char → Prop} (h : ∀ n, n < 128 → isTagChar (Char.ofNat n) = true →
    P (Char.ofNat n)) {c : Char} (hc : isTagChar c = true) : P c := by
  have hn := h c.toNat (isTagChar_lt hc)
  rw [Char.ofNat_toNat] at hn
  exact hn hc

theorem isBlankChar_of_isTagChar {c : Char} (h : isTagChar c = true) : isBlankChar c = false :=
  isTagChar_forall (P := fun c => isBlankChar c = false) (by decide +kernel) h

theorem isLineWhitespace_of_isTagChar {c : Char} (h : isTagChar c = true) :
    isLineWhitespace c = false := (Bool.or_eq_false_iff.mp (isBlankChar_of_isTagChar h)).2

theorem isTagChar_toLower {c : Char} (h : isTagChar c = true) : isTagChar c.toLower = true ∧
    c.toLower.isAlpha = c.isAlpha ∧ isHexDigit c.toLower = isHexDigit c ∧
    c.toLower.toLower = c.toLower :=
  isTagChar_forall (P := fun c => isTagChar c.toLower = true ∧ c.toLower.isAlpha = c.isAlpha ∧
    isHexDigit c.toLower = isHexDigit c ∧ c.toLower.toLower = c.toLower) (by decide +kernel) h

theorem isValidTag_iff {tag : String} : isValidTag tag = true ↔
    (∃ c ∈ tag.toList.head?, c.isAlpha = true) ∧ (∀ c ∈ tag.toList, isTagChar c = true) ∧
      looksLikeHexColor tag = false := by
  unfold isValidTag
  cases h : tag.toList with
  | nil => simp
  | cons c cs =>
    simp only [Bool.and_eq_true, List.all_eq_true, Bool.not_eq_true', List.head?_cons,
      Option.mem_def, Option.some.injEq, exists_eq_left', and_assoc]
    rfl

theorem toList_normalizeTag (tag : String) :
    (normalizeTag tag).toList = tag.toList.map Char.toLower := String.toList_map

/-- A tag as it is stored. -/
structure Normal (tag : String) : Prop where
  valid : isValidTag tag = true
  normal : normalizeTag tag = tag

theorem Normal.tagChars {tag : String} (h : Normal tag) : ∀ c ∈ tag.toList, isTagChar c = true :=
  (isValidTag_iff.mp h.valid).2.1

/-- A valid tag is valid in lower case. -/
theorem normal_of_isValidTag {tag : String} (h : isValidTag tag = true) : Normal (normalizeTag tag) := by
  obtain ⟨⟨first, hfirst, halpha⟩, hchars, hhex⟩ := isValidTag_iff.mp h
  have hlower : (tag.toList.map Char.toLower).map Char.toLower = tag.toList.map Char.toLower := by
    rw [List.map_map]
    exact List.map_congr_left fun c hc => (isTagChar_toLower (hchars c hc)).2.2.2
  have hdigits : ((tag.toList.map Char.toLower).all isHexDigit) = tag.toList.all isHexDigit := by
    rw [Bool.eq_iff_iff, List.all_eq_true, List.all_eq_true, List.forall_mem_map]
    exact forall₂_congr fun c hc => by rw [(isTagChar_toLower (hchars c hc)).2.2.1]
  refine ⟨isValidTag_iff.mpr ⟨?_, ?_, ?_⟩, ?_⟩
  · refine ⟨first.toLower, by rw [toList_normalizeTag, List.head?_map, Option.mem_def.mp hfirst]; rfl, ?_⟩
    rw [(isTagChar_toLower (hchars first (List.mem_of_mem_head? hfirst))).2.1]
    exact halpha
  · intro c hc
    rw [toList_normalizeTag] at hc
    obtain ⟨d, hd, rfl⟩ := List.mem_map.mp hc
    exact (isTagChar_toLower (hchars d hd)).1
  · rw [looksLikeHexColor, ← String.length_toList, toList_normalizeTag, List.length_map, hdigits,
      String.length_toList]
    exact hhex
  · apply String.toList_inj.mp
    rw [toList_normalizeTag, toList_normalizeTag, hlower]

/-! ## The parts of a body -/

/-- The text before the last line that is not blank, that line and the white space behind it. -/
structure LastLine (body before line trailing : List Char) : Prop where
  text : body = before ++ line ++ trailing
  starts : before = [] ∨ before.getLast? = some '\n'
  one : '\n' ∉ line
  ends : ∃ c ∈ line.getLast?, isBlankChar c = false
  blank : ∀ c ∈ trailing, isBlankChar c = true

/-- Taking off the end what satisfies a predicate. -/
theorem rdrop_append {α : Type} {p : α → Bool} {l r : List α} (hl : ∀ c ∈ l.getLast?, p c = false)
    (hr : ∀ c ∈ r, p c = true) : (l ++ r).reverse.takeWhile p = r.reverse := by
  rw [List.reverse_append, List.takeWhile_append_of_pos fun c hc => hr c (List.mem_reverse.mp hc)]
  have hstop : l.reverse.takeWhile p = [] := by
    cases hrev : l.reverse with
    | nil => rfl
    | cons c cs =>
      have hlast : l.getLast? = some c := by rw [← List.head?_reverse, hrev]; rfl
      rw [List.takeWhile_cons_of_neg (by simp [hl c hlast])]
  rw [hstop, List.append_nil]

theorem rdrop_split {α : Type} (p : α → Bool) (l : List α) : ∃ a b, l = a ++ b ∧
    (∀ c ∈ a.getLast?, p c = false) ∧ ∀ c ∈ b, p c = true := by
  refine ⟨(l.reverse.dropWhile p).reverse, (l.reverse.takeWhile p).reverse, ?_, fun c hc => ?_,
    fun c hc => List.mem_takeWhile_imp (List.mem_reverse.mp hc)⟩
  · rw [← List.reverse_append, List.takeWhile_append_dropWhile, List.reverse_reverse]
  · rw [List.getLast?_reverse] at hc
    cases hrest : l.reverse.dropWhile p with
    | nil => rw [hrest] at hc; cases hc
    | cons d ds =>
      have hne : l.reverse.dropWhile p ≠ [] := by rw [hrest]; exact List.cons_ne_nil _ _
      have hd := List.head_dropWhile_not p hne
      rw [hrest, List.head?_cons] at hc
      simp only [hrest, List.head_cons] at hd
      rw [← Option.some.inj hc]
      exact hd

theorem splitTrailingWhitespace_append {content trailing : List Char}
    (hcontent : ∀ c ∈ content.getLast?, isBlankChar c = false) (htrailing : ∀ c ∈ trailing, isBlankChar c = true) :
    splitTrailingWhitespace (content ++ trailing) = (content, trailing) := by
  have htake : (content ++ trailing).reverse.takeWhile isBlankChar = trailing.reverse :=
    rdrop_append hcontent htrailing
  change ((content ++ trailing).take ((content ++ trailing).length -
    ((content ++ trailing).reverse.takeWhile isBlankChar).length),
    ((content ++ trailing).reverse.takeWhile isBlankChar).reverse) = _
  rw [htake, List.length_reverse, List.length_append, Nat.add_sub_cancel, List.take_left,
    List.reverse_reverse]

theorem splitLastLine_append {before line : List Char}
    (hbefore : before = [] ∨ before.getLast? = some '\n') (hline : '\n' ∉ line) :
    splitLastLine (before ++ line) = (before, line) := by
  have htake : (before ++ line).reverse.takeWhile (· != '\n') = line.reverse := by
    refine rdrop_append (fun c hc => ?_) fun c hc => ?_
    · rcases hbefore with rfl | hbefore
      · cases hc
      · rw [hbefore] at hc
        rw [← Option.some.inj hc]
        rfl
    · simp only [bne_iff_ne, ne_eq]
      rintro rfl
      exact hline hc
  unfold splitLastLine
  simp only [htake, List.length_reverse, List.length_append, Nat.add_sub_cancel, List.take_left,
    List.reverse_reverse]

section
variable {body before line trailing : List Char}

theorem LastLine.content_last (h : LastLine body before line trailing) :
    ∀ c ∈ (before ++ line).getLast?, isBlankChar c = false := by
  obtain ⟨d, hd, hblank⟩ := h.ends
  intro c hc
  rw [List.getLast?_append, Option.mem_def.mp hd] at hc
  rw [← Option.some.inj hc]
  exact hblank

theorem LastLine.split (h : LastLine body before line trailing) :
    splitTrailingWhitespace body = (before ++ line, trailing) := by
  rw [h.text]
  exact splitTrailingWhitespace_append h.content_last h.blank

theorem LastLine.content_ne (h : LastLine body before line trailing) :
    (before ++ line).isEmpty = false := by
  obtain ⟨d, hd, -⟩ := h.ends
  cases line with
  | nil => cases hd
  | cons c cs => cases before <;> rfl

/-- A body that is more than white space has a last line. -/
theorem exists_lastLine (h : ∃ c ∈ body, isBlankChar c = false) :
    ∃ before line trailing, LastLine body before line trailing := by
  obtain ⟨content, trailing, rfl, hcontent, htrailing⟩ := rdrop_split isBlankChar body
  obtain ⟨before, line, rfl, hbefore, hline⟩ := rdrop_split (· != '\n') content
  have hstarts : before = [] ∨ before.getLast? = some '\n' := by
    cases hlast : before.getLast? with
    | none => exact .inl (List.getLast?_eq_none_iff.mp hlast)
    | some c => exact .inr (by simpa using hbefore c hlast)
  have hone : '\n' ∉ line := fun hmem => by simpa using hline _ hmem
  refine ⟨before, line, trailing, rfl, hstarts, hone, ?_, htrailing⟩
  cases hlast : line.getLast? with
  | some c =>
    refine ⟨c, rfl, hcontent c ?_⟩
    rw [List.getLast?_append, hlast]
    rfl
  | none =>
    -- Then the content ends in a line end, which it does not, or there is none.
    obtain rfl := List.getLast?_eq_none_iff.mp hlast
    rw [List.append_nil] at hcontent
    rcases hstarts with rfl | hn
    · obtain ⟨c, hc, hblank⟩ := h
      rw [List.append_nil, List.nil_append] at hc
      rw [htrailing c hc] at hblank
      cases hblank
    · exact absurd (hcontent _ hn) (by decide)

/-- A body is white space, or it has a last line. -/
theorem blank_or_lastLine (body : List Char) : (∀ c ∈ body, isBlankChar c = true) ∨
    ∃ before line trailing, LastLine body before line trailing := by
  by_cases hall : ∀ c ∈ body, isBlankChar c = true
  · exact .inl hall
  · push Not at hall
    exact .inr (exists_lastLine (by simpa using hall))

end

/-! ## Tag lines -/

theorem parseTagTokens_normal {fuel : Nat} {line : List Char} {tags : List String}
    (h : parseTagTokens fuel line = some tags) : ∀ tag ∈ tags, Normal tag := by
  fun_induction parseTagTokens fuel line generalizing tags with
  | case1 => simp [← Option.some.inj h]
  | case2 => simp [← Option.some.inj h]
  | case3 fuel line rest hrest candidate hvalid =>
    rename_i ih
    obtain ⟨tags, htags, rfl⟩ := Option.map_eq_some_iff.mp h
    intro tag hmem
    rcases List.mem_cons.mp hmem with rfl | hmem
    · exact normal_of_isValidTag hvalid
    · exact ih htags tag hmem
  | case4 => cases h
  | case5 => cases h

theorem parsePureTagLine_some {line : List Char} {tags : List String}
    (h : parsePureTagLine line = some tags) : tags ≠ [] ∧ ∀ tag ∈ tags, Normal tag := by
  obtain ⟨htags, hne⟩ := Option.filter_eq_some_iff.mp h
  exact ⟨by simpa using hne, parseTagTokens_normal htags⟩

theorem joinTagLine_cons (tag : String) (tags : List String) : joinTagLine (tag :: tags) =
    '#' :: tag.toList ++ if tags = [] then [] else ' ' :: joinTagLine tags := by
  cases tags with
  | nil => simp [joinTagLine]
  | cons next tags => simp [joinTagLine, String.intercalate_cons_cons]

/-- Reading one tag of a line. -/
theorem parseTagTokens_tag {fuel : Nat} {tag : String} (htag : Normal tag) {rest : List Char}
    (hrest : ∀ c ∈ rest.head?, isLineWhitespace c = true) :
    parseTagTokens (fuel + 1) ('#' :: tag.toList ++ rest) =
      (parseTagTokens fuel rest).map (tag :: ·) := by
  have hchars : ∀ c ∈ tag.toList, (!isLineWhitespace c) = true := fun c hc => by
    rw [isLineWhitespace_of_isTagChar (htag.tagChars c hc), Bool.not_false]
  have htake : (tag.toList ++ rest).takeWhile (fun c => !isLineWhitespace c) = tag.toList := by
    rw [List.takeWhile_append_of_pos hchars]
    cases rest with
    | nil => simp
    | cons c cs => rw [List.takeWhile_cons_of_neg (by simp [hrest c rfl]), List.append_nil]
  have hdrop : (tag.toList ++ rest).dropWhile (fun c => !isLineWhitespace c) = rest := by
    rw [List.dropWhile_append_of_pos hchars]
    cases rest with
    | nil => rfl
    | cons c cs => rw [List.dropWhile_cons_of_neg (by simp [hrest c rfl])]
  have hhash : ('#' :: (tag.toList ++ rest)).dropWhile isLineWhitespace = '#' :: (tag.toList ++ rest) :=
    List.dropWhile_cons_of_neg (by decide)
  rw [List.cons_append, parseTagTokens, hhash]
  simp only [htake, hdrop, String.ofList_toList, htag.valid, if_true, htag.normal]

theorem parseTagTokens_space {fuel : Nat} {line : List Char} :
    parseTagTokens (fuel + 1) (' ' :: line) = parseTagTokens (fuel + 1) line := by
  have hspace : (' ' :: line).dropWhile isLineWhitespace = line.dropWhile isLineWhitespace :=
    List.dropWhile_cons_of_pos (by decide)
  rw [parseTagTokens, parseTagTokens, hspace]

theorem parseTagTokens_join {tags : List String} (h : ∀ tag ∈ tags, Normal tag) {fuel : Nat}
    (hfuel : tags.length < fuel) : parseTagTokens fuel (joinTagLine tags) = some tags := by
  induction tags generalizing fuel with
  | nil =>
    cases fuel with
    | zero => rfl
    | succ fuel => simp [joinTagLine, parseTagTokens]
  | cons tag tags ih =>
    obtain ⟨fuel, rfl⟩ : ∃ n, fuel = n + 1 := ⟨fuel - 1, by omega⟩
    rw [List.length_cons, Nat.succ_lt_succ_iff] at hfuel
    have hrest := ih (fun t ht => h t (List.mem_cons_of_mem _ ht)) hfuel
    rw [joinTagLine_cons, parseTagTokens_tag (h tag List.mem_cons_self)]
    · split
      · next hnil =>
        subst hnil
        cases fuel <;> rfl
      · obtain ⟨fuel, rfl⟩ : ∃ n, fuel = n + 1 := ⟨fuel - 1, by omega⟩
        rw [parseTagTokens_space, hrest, Option.map_some]
    · split <;> simp [isLineWhitespace]

/-- A line that was joined is read back. -/
theorem parsePureTagLine_join {tags : List String} (hne : tags ≠ []) (h : ∀ tag ∈ tags, Normal tag) :
    parsePureTagLine (joinTagLine tags) = some tags := by
  have hlength : tags.length ≤ (joinTagLine tags).length := by
    clear hne h
    induction tags with
    | nil => exact Nat.zero_le _
    | cons tag tags ih =>
      rw [joinTagLine_cons]
      split
      · next hnil => simp [hnil]
      · simp only [List.length_cons, List.length_append]
        omega
  rw [parsePureTagLine, parseTagTokens_join h (Nat.lt_succ_of_le hlength)]
  simpa using hne

/-- A joined line ends in a character of a tag and has no line end. -/
theorem joinTagLine_chars {tags : List String} (h : ∀ tag ∈ tags, Normal tag) :
    ∀ c ∈ joinTagLine tags, c = '#' ∨ c = ' ' ∨ isTagChar c = true := by
  induction tags with
  | nil => simp [joinTagLine]
  | cons tag tags ih =>
    intro c hc
    rw [joinTagLine_cons] at hc
    rcases List.mem_append.mp hc with hc | hc
    · rcases List.mem_cons.mp hc with rfl | hc
      · exact .inl rfl
      · exact .inr (.inr ((h tag List.mem_cons_self).tagChars c hc))
    · split at hc
      · cases hc
      · rcases List.mem_cons.mp hc with rfl | hc
        · exact .inr (.inl rfl)
        · exact ih (fun t ht => h t (List.mem_cons_of_mem _ ht)) c hc

theorem joinTagLine_last {tags : List String} (hne : tags ≠ []) (h : ∀ tag ∈ tags, Normal tag) :
    ∃ c ∈ (joinTagLine tags).getLast?, isBlankChar c = false := by
  induction tags with
  | nil => exact absurd rfl hne
  | cons tag tags ih =>
    have htag := h tag List.mem_cons_self
    rw [joinTagLine_cons]
    split
    · rw [List.append_nil]
      obtain ⟨⟨first, hfirst, -⟩, -⟩ := isValidTag_iff.mp htag.valid
      cases hlast : tag.toList.getLast? with
      | none =>
        rw [List.getLast?_eq_none_iff.mp hlast] at hfirst
        cases hfirst
      | some c =>
        refine ⟨c, ?_, isBlankChar_of_isTagChar (htag.tagChars c (List.mem_of_getLast? hlast))⟩
        rw [List.getLast?_cons, hlast]
        rfl
    · next hne' =>
      obtain ⟨c, hc, hblank⟩ := ih hne' fun t ht => h t (List.mem_cons_of_mem _ ht)
      refine ⟨c, ?_, hblank⟩
      rw [List.getLast?_append, List.getLast?_cons, Option.mem_def.mp hc]
      rfl

/-! ## The edits of a body -/

section
variable {body tag : String} {before line trailing : List Char}

theorem LastLine.tagsOn (h : LastLine body.toList before line trailing) :
    tagsOnTrailingLine body = (parsePureTagLine line).getD [] := by
  unfold tagsOnTrailingLine
  simp only [h.split, h.content_ne, splitLastLine_append h.starts h.one]
  rfl

theorem LastLine.upsert (h : LastLine body.toList before line trailing) :
    upsertTrailingTagLine body tag =
      match parsePureTagLine line with
      | some existing =>
        if existing.contains tag then body
        else String.ofList (before ++ joinTagLine (existing ++ [tag]) ++ trailing)
      | none => String.ofList (before ++ line ++ "\n\n#".toList ++ tag.toList ++ trailing) := by
  unfold upsertTrailingTagLine
  simp only [h.split, h.content_ne, splitLastLine_append h.starts h.one]
  rfl

theorem LastLine.remove (h : LastLine body.toList before line trailing) :
    removeFromTrailingTagLine body tag =
      match parsePureTagLine line with
      | some existing =>
        if !existing.contains tag then none
        else if (existing.erase tag).isEmpty then
          some (String.ofList ((before.reverse.dropWhile (· == '\n')).reverse ++ trailing))
        else some (String.ofList (before ++ joinTagLine (existing.erase tag) ++ trailing))
      | none => none := by
  unfold removeFromTrailingTagLine
  simp only [h.split, h.content_ne, splitLastLine_append h.starts h.one]
  rfl

/-- The last line put in place of another one. -/
theorem LastLine.joined (h : LastLine body.toList before line trailing) {tags : List String}
    (hne : tags ≠ []) (htags : ∀ tag ∈ tags, Normal tag) :
    LastLine (String.ofList (before ++ joinTagLine tags ++ trailing)).toList before
      (joinTagLine tags) trailing where
  text := String.toList_ofList
  starts := h.starts
  one := fun hmem => by
    rcases joinTagLine_chars htags _ hmem with hc | hc | hc
    · cases hc
    · cases hc
    · cases isBlankChar_of_isTagChar hc
  ends := joinTagLine_last hne htags
  blank := h.blank

/-- A tag line put behind the last line. -/
theorem LastLine.appended (h : LastLine body.toList before line trailing) (htag : Normal tag) :
    LastLine (String.ofList (before ++ line ++ "\n\n#".toList ++ tag.toList ++ trailing)).toList
      (before ++ line ++ ['\n', '\n']) (joinTagLine [tag]) trailing := by
  have htags : ∀ t ∈ [tag], Normal t := fun t ht => List.mem_singleton.mp ht ▸ htag
  refine ⟨?_, .inr ?_, fun hmem => ?_, joinTagLine_last (List.cons_ne_nil _ _) htags, h.blank⟩
  · rw [String.toList_ofList, joinTagLine_cons, if_pos rfl]
    simp
  · rw [List.getLast?_append]
    rfl
  · rcases joinTagLine_chars htags _ hmem with hc | hc | hc
    · cases hc
    · cases hc
    · cases isBlankChar_of_isTagChar hc

end

/-- Adding a tag: nothing changes before the tag line or behind the content, the tag is on the line
once, adding it again does nothing, and taking it off a new line gives the body back. -/
theorem upsertTrailingTagLine_edits {body tag : String}
    (hbody : ∃ c ∈ body.toList, isBlankChar c = false) (htag : Normal tag) :
    ∃ before line trailing, LastLine body.toList before line trailing ∧
      (∃ before' line', LastLine (upsertTrailingTagLine body tag).toList before' line' trailing ∧
        ((parsePureTagLine line).isSome = true → before' = before) ∧
        (parsePureTagLine line = none → ∃ added, before' ++ line' = before ++ line ++ added)) ∧
      tagsOnTrailingLine (upsertTrailingTagLine body tag) =
        (if tag ∈ tagsOnTrailingLine body then tagsOnTrailingLine body
          else tagsOnTrailingLine body ++ [tag]) ∧
      upsertTrailingTagLine (upsertTrailingTagLine body tag) tag = upsertTrailingTagLine body tag ∧
      (parsePureTagLine line = none →
        removeFromTrailingTagLine (upsertTrailingTagLine body tag) tag = some body) := by
  obtain ⟨before, line, trailing, h⟩ := exists_lastLine hbody
  refine ⟨before, line, trailing, h, ?_⟩
  cases hline : parsePureTagLine line with
  | some existing =>
    have hnormal := (parsePureTagLine_some hline).2
    have htags : tagsOnTrailingLine body = existing := by rw [h.tagsOn, hline, Option.getD_some]
    by_cases hmem : tag ∈ existing
    · have hupsert : upsertTrailingTagLine body tag = body := by
        rw [h.upsert, hline]
        simp [hmem]
      rw [hupsert, hupsert, htags, if_pos hmem]
      exact ⟨⟨before, line, h, fun _ => rfl, fun hnone => by cases hnone⟩, rfl, rfl,
        fun hnone => by cases hnone⟩
    · have hupsert : upsertTrailingTagLine body tag =
          String.ofList (before ++ joinTagLine (existing ++ [tag]) ++ trailing) := by
        rw [h.upsert, hline]
        simp [hmem]
      have hall : ∀ t ∈ existing ++ [tag], Normal t := fun t ht => by
        rcases List.mem_append.mp ht with ht | ht
        · exact hnormal t ht
        · exact List.mem_singleton.mp ht ▸ htag
      have hne : existing ++ [tag] ≠ [] := List.append_ne_nil_of_right_ne_nil _ (List.cons_ne_nil _ _)
      have hnew := h.joined hne hall
      have hparse := parsePureTagLine_join hne hall
      rw [hupsert, htags, if_neg hmem]
      refine ⟨⟨before, _, hnew, fun _ => rfl, fun hnone => by cases hnone⟩, ?_, ?_,
        fun hnone => by cases hnone⟩
      · rw [hnew.tagsOn, hparse, Option.getD_some]
      · rw [hnew.upsert, hparse]
        simp
  | none =>
    have htags : tagsOnTrailingLine body = [] := by rw [h.tagsOn, hline]; rfl
    have hupsert : upsertTrailingTagLine body tag =
        String.ofList (before ++ line ++ "\n\n#".toList ++ tag.toList ++ trailing) := by
      rw [h.upsert, hline]
    have hnew := h.appended htag
    have hparse : parsePureTagLine (joinTagLine [tag]) = some [tag] :=
      parsePureTagLine_join (List.cons_ne_nil _ _) fun t ht => List.mem_singleton.mp ht ▸ htag
    rw [hupsert, htags]
    refine ⟨⟨_, _, hnew, fun hsome => (nomatch hsome), fun _ => ⟨['\n', '\n'] ++ joinTagLine [tag], ?_⟩⟩,
      ?_, ?_, fun _ => ?_⟩
    · simp only [List.append_assoc]
    · rw [hnew.tagsOn, hparse]
      simp
    · rw [hnew.upsert, hparse]
      simp
    · have hdrop : ((before ++ line ++ ['\n', '\n']).reverse.dropWhile (· == '\n')).reverse =
          before ++ line := by
        have hfeeds : ∀ c ∈ ['\n', '\n'].reverse, (c == '\n') = true := by simp
        rw [List.reverse_append, List.dropWhile_append_of_pos hfeeds]
        cases hrev : (before ++ line).reverse with
        | nil => rw [List.dropWhile_nil, ← hrev, List.reverse_reverse]
        | cons c cs =>
          have hlast : (before ++ line).getLast? = some c := by
            rw [← List.head?_reverse, hrev, List.head?_cons]
          have hc : c ≠ '\n' := fun heq => by
            have hblank := h.content_last c hlast
            rw [heq] at hblank
            cases hblank
          rw [List.dropWhile_cons_of_neg (by simpa using hc), ← hrev, List.reverse_reverse]
      rw [hnew.remove, hparse]
      simp only [List.contains_cons, beq_self_eq_true, Bool.true_or, Bool.not_true, Bool.false_eq_true,
        if_false, List.erase_cons_head, List.isEmpty_nil, if_true, hdrop]
      rw [← h.text, String.ofList_toList]

theorem milkNote_edits : Normal "milk" ∧
    upsertTrailingTagLine (upsertTrailingTagLine "Buy milk\n" "milk") "milk" =
      upsertTrailingTagLine "Buy milk\n" "milk" := by
  have htag : Normal "milk" :=
    ⟨by decide, String.toList_inj.mp (by rw [toList_normalizeTag]; decide)⟩
  have hbody : ∃ c ∈ "Buy milk\n".toList, isBlankChar c = false := ⟨'B', by decide, by decide⟩
  obtain ⟨_, _, _, _, _, _, htwice, _⟩ := upsertTrailingTagLine_edits hbody htag
  exact ⟨htag, htwice⟩

end HolderCore
