import HolderCore.History.LineDiff
import HolderCore.History.ProjectHistory
import HolderCore.Library.Utf8

/-! # History texts are UTF-8

A summary and an excerpt are cut at a fixed byte; a line of a diff is cut before a character. The
cards and messages that they come from are taken to be valid UTF-8. -/

namespace HolderCore

open CardHistory

/-! ## Lines of a valid text -/

theorem not_continuation_of_ascii {c : Char} (h : c.toNat < 128) : ¬ ContinuationByte c.toNat := by
  rw [continuationByte_iff (by omega)]
  omega

theorem ascii_of_isSpace {c : Char} (h : isSpace c = true) : c.toNat < 128 := by
  simp only [isSpace, List.contains_cons, List.contains_nil, Bool.or_false, Bool.or_eq_true,
    beq_iff_eq] at h
  rcases h with rfl | rfl | rfl | rfl | rfl | rfl <;> decide

/-- ASCII text can be taken off the end. -/
theorem validUtf8_append_ascii {text suffix : List Char} (h : ∀ c ∈ suffix, c.toNat < 128) :
    ValidUtf8 (text ++ suffix) ↔ ValidUtf8 text := by
  refine ⟨fun hvalid => (validUtf8_cut hvalid).mpr fun c hc => ?_,
    fun hvalid => hvalid.append (validUtf8_of_ascii h)⟩
  exact not_continuation_of_ascii (h c (List.mem_of_mem_head? hc))

theorem validUtf8_ascii_append {text start : List Char} (h : ∀ c ∈ start, c.toNat < 128) :
    ValidUtf8 (start ++ text) ↔ ValidUtf8 text :=
  ⟨fun hvalid => hvalid.rest (validUtf8_of_ascii h), (validUtf8_of_ascii h).append⟩

/-- A text between others is valid if they and the whole are. -/
theorem ValidUtf8.lines {lines : List (List Char)} (h : ValidUtf8 (['\n'].intercalate lines)) :
    ∀ line ∈ lines, ValidUtf8 line := by
  induction lines with
  | nil => simp
  | cons line lines ih =>
    cases lines with
    | nil => simpa [List.intercalate] using h
    | cons next lines =>
      have hsplit : ['\n'].intercalate (line :: next :: lines) =
          line ++ ('\n' :: ['\n'].intercalate (next :: lines)) := by
        simp [List.intercalate]
      rw [hsplit] at h
      have hnewline : ∀ c ∈ ['\n'], c.toNat < 128 := by simp
      have hline : ValidUtf8 line := (validUtf8_cut h).mpr fun c hc => by
        rw [List.head?_cons, Option.mem_some_iff] at hc
        exact hc ▸ not_continuation_of_ascii (by decide)
      have hrest := (validUtf8_ascii_append hnewline).mp (h.rest hline)
      intro l hl
      rcases List.mem_cons.mp hl with rfl | hl
      · exact hline
      · exact ih hrest l hl

def trimSpace (line : List Char) : List Char :=
  ((line.dropWhile isSpace).reverse.dropWhile isSpace).reverse

theorem trimSpace_eq : trimSpace = fun line =>
    ((line.dropWhile isSpace).reverse.dropWhile isSpace).reverse := rfl

theorem ValidUtf8.trimSpace {line : List Char} (h : ValidUtf8 line) : ValidUtf8 (trimSpace line) := by
  have hstart : ValidUtf8 (line.dropWhile isSpace) := by
    rw [← List.takeWhile_append_dropWhile (p := isSpace) (l := line)] at h
    exact (validUtf8_ascii_append fun c hc => ascii_of_isSpace (List.mem_takeWhile_imp hc)).mp h
  have hend : line.dropWhile isSpace = HolderCore.trimSpace line ++
      ((line.dropWhile isSpace).reverse.takeWhile isSpace).reverse := by
    rw [HolderCore.trimSpace, ← List.reverse_append, List.takeWhile_append_dropWhile,
      List.reverse_reverse]
  rw [hend] at hstart
  refine (validUtf8_append_ascii fun c hc => ascii_of_isSpace ?_).mp hstart
  exact List.mem_takeWhile_imp (List.mem_reverse.mp hc)

/-- The first line that is more than white space, without the white space around it. -/
def meaningfulLine (text : List Char) : List Char :=
  (((text.splitOn '\n').map trimSpace).find? (!·.isEmpty)).getD []

theorem validUtf8_meaningfulLine {text : List Char} (h : ValidUtf8 text) :
    ValidUtf8 (meaningfulLine text) := by
  unfold meaningfulLine
  cases hfind : ((text.splitOn '\n').map trimSpace).find? (!·.isEmpty) with
  | none => exact .nil
  | some line =>
    obtain ⟨whole, hwhole, rfl⟩ := List.mem_map.mp (List.mem_of_find?_eq_some hfind)
    have hjoin : ['\n'].intercalate (text.splitOn '\n') = text := List.intercalate_splitOn '\n'
    exact (ValidUtf8.lines (hjoin.symm ▸ h) whole hwhole).trimSpace

/-! ## What is cut -/

/-- A line is no longer than `limit` bytes or its byte `kept` starts a character. -/
def CutsWhole (limit kept : Nat) (text : List Char) : Prop :=
  limit < (meaningfulLine text).length →
    ∀ c ∈ (meaningfulLine text)[kept]?, ¬ ContinuationByte c.toNat

/-- The first bytes of the line with three dots behind them, where it is long. -/
theorem validUtf8_shortened {limit kept : Nat} {text : List Char} (h : ValidUtf8 text) :
    ValidUtf8 (if limit < (meaningfulLine text).length then
      (meaningfulLine text).take kept ++ ['.', '.', '.'] else meaningfulLine text) ↔
    CutsWhole limit kept text := by
  have hline := validUtf8_meaningfulLine h
  unfold CutsWhole
  by_cases hlong : limit < (meaningfulLine text).length
  · rw [← List.take_append_drop kept (meaningfulLine text)] at hline
    rw [if_pos hlong, validUtf8_append_ascii (by simp), validUtf8_cut hline, List.head?_drop]
    simp only [hlong, true_implies]
  · rw [if_neg hlong]
    exact iff_of_true hline fun hlong' => absurd hlong' hlong

theorem toList_firstMeaningfulLine (text : String) : (CardHistory.firstMeaningfulLine text).toList =
    if 72 < (meaningfulLine text.toList).length then
      (meaningfulLine text.toList).take 69 ++ ['.', '.', '.'] else meaningfulLine text.toList := by
  unfold CardHistory.firstMeaningfulLine meaningfulLine
  dsimp only
  rw [← trimSpace_eq]
  cases ((text.toList.splitOn '\n').map trimSpace).find? (!·.isEmpty) with
  | none => rfl
  | some line =>
    simp only [Option.getD_some]
    split <;> simp

theorem toList_projectFirstMeaningfulLine (text : String) :
    (ProjectHistory.firstMeaningfulLine text).toList =
      if 80 < (meaningfulLine text.toList).length then
        (meaningfulLine text.toList).take 77 ++ ['.', '.', '.'] else meaningfulLine text.toList := by
  unfold ProjectHistory.firstMeaningfulLine meaningfulLine
  dsimp only
  rw [← trimSpace_eq]
  cases ((text.toList.splitOn '\n').map trimSpace).find? (!·.isEmpty) with
  | none => rfl
  | some line =>
    simp only [Option.getD_some]
    split <;> simp

theorem wholeCharacters_valid {text : Bytes} (h : ValidUtf8 text) (limit : Nat) :
    ValidUtf8 (text.take (wholeCharacters text limit)) := by
  induction limit with
  | zero => exact .nil
  | succ limit ih =>
    rw [wholeCharacters]
    split
    · exact ih
    · next hwhole =>
      rw [← List.take_append_drop (limit + 1) text] at h
      refine (validUtf8_cut h).mpr fun c hc => ?_
      rw [List.head?_drop, Option.mem_def] at hc
      rw [hc] at hwhole
      simpa [isContinuation, ContinuationByte] using hwhole

theorem validUtf8_shortenedLineSuffix : ValidUtf8 shortenedLineSuffix :=
  validUtf8_of_ascii (by
    have hall : shortenedLineSuffix.all (fun c => decide (c.toNat < 128)) = true := by decide
    simpa using hall)

/-- A line that is shortened is cut before a character. -/
theorem validUtf8_boundedDiffText {text : Bytes} (h : ValidUtf8 text) :
    ValidUtf8 (boundedDiffText text).1 := by
  rw [boundedDiffText, apply_ite Prod.fst]
  split
  · exact h
  · exact (wholeCharacters_valid h _).append validUtf8_shortenedLineSuffix

/-! ## Summaries -/

/-- The summary of a change names the body of the card. -/
def DescribesBody (before after : Snapshot K) (kind : String) : Prop :=
  kind ∉ ["created", "deleted", "permanently_deleted", "restored", "moved", "milestones", "links",
    "merged"] ∧
  ∃ b a, before.card = some b ∧ after.card = some a ∧ b.card.title = a.card.title ∧
    b.links.length = a.links.length ∧ b.milestones.length = a.milestones.length

theorem validUtf8_quoted (start : String) {text : String} (hstart : ∀ c ∈ start.toList, c.toNat < 128) :
    ValidUtf8 (start ++ "\xe2\x80\x9c" ++ text ++ "\xe2\x80\x9d").toList ↔
      ValidUtf8 text.toList := by
  have hopen : ValidUtf8 "\xe2\x80\x9c".toList := ⟨['\u201c'], by decide⟩
  have hclose : ValidUtf8 "\xe2\x80\x9d".toList := ⟨['\u201d'], by decide⟩
  simp only [String.toList_append, List.append_assoc]
  rw [validUtf8_ascii_append hstart]
  constructor
  · intro h
    refine (validUtf8_cut (h.rest hopen)).mpr fun c hc => ?_
    obtain rfl : c = '\xe2' := (Option.some.inj hc).symm
    decide
  · exact fun h => hopen.append (h.append hclose)

/-- A summary that does not name the body is valid. -/
theorem validUtf8_describeChange_of_not {before after : Snapshot K} {kind : String}
    (htitle : ∀ card ∈ after.card, ValidUtf8 card.card.title.toList)
    (h : ¬ DescribesBody before after kind) : ValidUtf8 (describeChange before after kind).toList := by
  have hascii : ∀ text : String, (text.toList.all fun c => decide (c.toNat < 128)) = true →
      ValidUtf8 text.toList := fun text ht => validUtf8_of_ascii (by simpa using ht)
  fun_cases describeChange before after kind with
  | case1 => exact hascii _ (by simp)
  | case2 => exact hascii _ (by simp)
  | case3 => exact hascii _ (by simp)
  | case4 => exact hascii _ (by simp)
  | case5 => exact hascii _ (by simp)
  | case6 => exact hascii _ (by simp)
  | case7 => exact hascii _ (by simp)
  | case8 => exact hascii _ (by simp)
  | case9 _ _ _ _ _ _ _ _ b a ha =>
    exact (validUtf8_quoted "Changed title to " (by simp)).mpr (htitle a ha)
  | case10 => exact hascii _ (by simp)
  | case11 => exact hascii _ (by simp)
  | case12 => exact hascii _ (by simp)
  | case13 hcreated hdeleted hgone hrestored hmoved hmilestones hlinks hmerged b a ha hb h9 h10 h11 =>
    refine absurd ⟨?_, b, a, hb, ha, not_not.mp h9, not_not.mp h10, not_not.mp h11⟩ h
    simp_all
  | case14 => exact hascii _ (by simp)

theorem describeChange_body {before after : Snapshot K} {kind : String}
    (h : DescribesBody before after kind) : ∃ card ∈ after.card, describeChange before after kind =
      if (CardHistory.firstMeaningfulLine card.body).isEmpty then "Edited card"
      else "Edited \xe2\x80\x9c" ++ CardHistory.firstMeaningfulLine card.body ++ "\xe2\x80\x9d" := by
  obtain ⟨hkind, b, a, hb, ha, htitle, hlinks, hmilestones⟩ := h
  simp only [List.mem_cons, List.not_mem_nil, or_false, not_or] at hkind
  refine ⟨a, ha, ?_⟩
  simp [describeChange, hkind, hb, ha, htitle, hlinks, hmilestones]

/-- History texts of valid cards and messages are valid UTF-8 exactly where the summary's and the
excerpt's line are not cut inside a character. -/
theorem historyTexts_valid_iff {before after : Snapshot K} {kind body : String} {text : Bytes}
    (hafter : ∀ card ∈ after.card, ValidUtf8 card.card.title.toList ∧ ValidUtf8 card.body.toList)
    (hbody : ValidUtf8 body.toList) (htext : ValidUtf8 text) :
    (ValidUtf8 (describeChange before after kind).toList ∧
      ValidUtf8 (ProjectHistory.firstMeaningfulLine body).toList ∧
      ValidUtf8 (boundedDiffText text).1) ↔
    (DescribesBody before after kind → ∀ card ∈ after.card, CutsWhole 72 69 card.body.toList) ∧
      CutsWhole 80 77 body.toList := by
  have hexcerpt : ValidUtf8 (ProjectHistory.firstMeaningfulLine body).toList ↔
      CutsWhole 80 77 body.toList := by
    rw [toList_projectFirstMeaningfulLine, validUtf8_shortened hbody]
  have hsummary : ValidUtf8 (describeChange before after kind).toList ↔
      (DescribesBody before after kind → ∀ card ∈ after.card, CutsWhole 72 69 card.body.toList) := by
    by_cases h : DescribesBody before after kind
    · obtain ⟨card, hcard, he⟩ := describeChange_body h
      have hline : ValidUtf8 (CardHistory.firstMeaningfulLine card.body).toList ↔
          CutsWhole 72 69 card.body.toList := by
        rw [toList_firstMeaningfulLine, validUtf8_shortened (hafter card hcard).2]
      have hall : (∀ card ∈ after.card, CutsWhole 72 69 card.body.toList) ↔
          CutsWhole 72 69 card.body.toList := by
        rw [Option.mem_def.mp hcard]
        simp
      rw [he, hall, ← hline]
      simp only [h, true_implies]
      split
      · next hempty =>
        rw [String.isEmpty_iff.mp hempty]
        exact iff_of_true (validUtf8_of_ascii (by simp)) .nil
      · exact validUtf8_quoted "Edited " (by simp)
    · exact iff_of_true (validUtf8_describeChange_of_not (fun card hc => (hafter card hc).1) h)
        fun h' => absurd h' h
  rw [hsummary, hexcerpt]
  exact and_congr_right fun _ => and_iff_left (validUtf8_boundedDiffText htext)

/-! ## A character on the cut -/

def editedCard (body : String) : Snapshot ℚ :=
  ⟨some ⟨plainCard "cafe" "a" none 1, [], [], body, true⟩⟩

theorem editedCard_describes (body body' : String) :
    DescribesBody (editedCard body) (editedCard body') "updated" :=
  ⟨by decide, _, _, rfl, rfl, rfl, rfl, rfl⟩

theorem shortLine_valid :
    ValidUtf8 (describeChange (editedCard "a") (editedCard "b") "updated").toList ∧
      ValidUtf8 (ProjectHistory.firstMeaningfulLine "b").toList ∧
      ValidUtf8 (boundedDiffText ['b']).1 := by
  have hb : ValidUtf8 ['b'] := validUtf8_of_ascii (by simp)
  have hshort : meaningfulLine ['b'] = ['b'] := by decide
  have hcuts : ∀ limit kept, 1 ≤ limit → CutsWhole limit kept ['b'] := by
    intro limit kept hlimit hlong
    rw [hshort] at hlong
    exact absurd hlong (Nat.not_lt.mpr hlimit)
  have hbody : ValidUtf8 "b".toList := hb
  refine (historyTexts_valid_iff (fun card hcard => ?_) hbody hb).mpr
    ⟨fun _ card hcard => ?_, hcuts 80 77 (by decide)⟩
  · rw [← Option.some.inj hcard]
    exact ⟨validUtf8_of_ascii (by simp [plainCard]), hb⟩
  · rw [← Option.some.inj hcard]
    exact hcuts 72 69 (by decide)

/-- 68 letters and then three characters of two bytes. -/
def accentedLine : Bytes :=
  List.replicate 68 'a' ++ ['\xc3', '\xa9', '\xc3', '\xa9', '\xc3', '\xa9']

/-- The summary of a valid body ends in half a character. -/
theorem accentedLine_cut : ValidUtf8 accentedLine ∧
    ¬ ValidUtf8 (describeChange (editedCard "a") (editedCard (String.ofList accentedLine))
      "updated").toList := by
  have hvalid : ValidUtf8 accentedLine := by
    refine (validUtf8_of_ascii fun c hc => ?_).append ⟨['\u00e9', '\u00e9', '\u00e9'], by decide⟩
    rw [List.eq_of_mem_replicate hc]
    decide
  refine ⟨hvalid, fun h => ?_⟩
  obtain ⟨card, hcard, he⟩ := describeChange_body (editedCard_describes "a" (String.ofList accentedLine))
  obtain rfl := Option.some.inj hcard
  have hline : meaningfulLine accentedLine = accentedLine := by decide +kernel
  have hcut : ¬ CutsWhole 72 69 accentedLine := fun hcuts => by
    unfold CutsWhole at hcuts
    rw [hline] at hcuts
    exact hcuts (by decide) '\xa9' (by decide) (by decide)
  have htext : (CardHistory.firstMeaningfulLine (String.ofList accentedLine)).toList =
      if 72 < (meaningfulLine accentedLine).length then
        (meaningfulLine accentedLine).take 69 ++ ['.', '.', '.'] else meaningfulLine accentedLine := by
    rw [toList_firstMeaningfulLine, String.toList_ofList]
  have hinvalid : ¬ ValidUtf8 (CardHistory.firstMeaningfulLine (String.ofList accentedLine)).toList := by
    rw [htext, validUtf8_shortened hvalid]
    exact hcut
  rw [he] at h
  split at h
  · next hempty => exact hinvalid (String.isEmpty_iff.mp hempty ▸ .nil)
  · exact hinvalid ((validUtf8_quoted "Edited " (by simp)).mp h)

end HolderCore
