import HolderCore.Card.Types
import HolderCore.Library.Subsequence

/-! # Comparing two texts by lines

`line_diff` of `history/CardHistory.cpp`: the table of common subsequences is filled backwards and
read forwards. A diff that is cut short, and a line that is, say so in one flag. -/

namespace HolderCore

namespace CardHistory

inductive LineOrigin where
  | kept | removed | added
deriving DecidableEq, Repr

structure CardDiffLine where
  origin : LineOrigin
  text : Bytes
  oldLine : Int
  newLine : Int
deriving DecidableEq, Repr

def maxDiffLines : Nat := 5000
def maxDiffLineBytes : Nat := 16 * 1024
def shortenedLineSuffix : Bytes := "... [line shortened]".toList

/-- The lines between the newlines of a text; the empty text has none. -/
def linesOf (text : Bytes) : List Bytes := if text.isEmpty then [] else text.splitOn '\n'

/-- A byte that goes on with the character before it. -/
def isContinuation (byte : Char) : Bool := byte.toNat &&& 0xc0 == 0x80

/-- The last place up to a limit where no character is cut. -/
def wholeCharacters (text : Bytes) : (limit : Nat) → Nat
  | 0 => 0
  | limit + 1 => if text[limit + 1]?.any isContinuation then wholeCharacters text limit else limit + 1

/-- The text of a line, and whether it was shortened. -/
def boundedDiffText (text : Bytes) : Bytes × Bool :=
  if text.length ≤ maxDiffLineBytes then (text, false)
  else (text.take (wholeCharacters text (maxDiffLineBytes - shortenedLineSuffix.length)) ++
    shortenedLineSuffix, true)

/-- The lines of a diff and its flag, from one line on. -/
def appendDiffLine (origin : LineOrigin) (text : Bytes) (oldLine newLine : Int)
    (rest : List CardDiffLine × Bool) : List CardDiffLine × Bool :=
  let (text, cut) := boundedDiffText text
  (⟨origin, text, oldLine, newLine⟩ :: rest.1, cut || rest.2)

/-- Every old line goes and every new line comes, while there is room. -/
def replaceAll : (room : Nat) → (oldLines newLines : List Bytes) → (i j : Nat) →
    List CardDiffLine × Bool
  | _, [], [], _, _ => ([], false)
  | 0, _, _, _, _ => ([], true)
  | room + 1, line :: oldLines, newLines, i, j =>
    appendDiffLine .removed line (i + 1) (-1) (replaceAll room oldLines newLines (i + 1) j)
  | room + 1, [], line :: newLines, i, j =>
    appendDiffLine .added line (-1) (j + 1) (replaceAll room [] newLines i (j + 1))

/-! ## The table -/

/-- The row of an old line, from the row below it. -/
def lcsRow (line : Bytes) : (newLines : List Bytes) → (below : List Nat) → List Nat
  | [], _ => [0]
  | newLine :: newLines, below =>
    let row := lcsRow line newLines below.tail
    (if line = newLine then below.tail.headD 0 + 1 else max (below.headD 0) (row.headD 0)) :: row

def lcsTable : (oldLines newLines : List Bytes) → List (List Nat)
  | [], newLines => [List.replicate (newLines.length + 1) 0]
  | line :: oldLines, newLines =>
    let below := lcsTable oldLines newLines
    lcsRow line newLines (below.headD []) :: below

/-- `lcs[i][j]`. -/
def lcsCell (table : List (List Nat)) (i j : Nat) : Nat := (table.getD i []).getD j 0

/-- The walk through the table from the old line `i` and the new line `j` on, while there is room. -/
def walkTable (table : List (List Nat)) : (room : Nat) → (oldLines newLines : List Bytes) →
    (i j : Nat) → List CardDiffLine × Bool
  | _, [], [], _, _ => ([], false)
  | 0, _, _, _, _ => ([], true)
  | room + 1, [], newLine :: newLines, i, j =>
    appendDiffLine .added newLine (-1) (j + 1) (walkTable table room [] newLines i (j + 1))
  | room + 1, line :: oldLines, [], i, j =>
    appendDiffLine .removed line (i + 1) (-1) (walkTable table room oldLines [] (i + 1) j)
  | room + 1, line :: oldLines, newLine :: newLines, i, j =>
    if line = newLine then
      appendDiffLine .kept line (i + 1) (j + 1) (walkTable table room oldLines newLines (i + 1) (j + 1))
    else if lcsCell table (i + 1) j ≤ lcsCell table i (j + 1) then
      appendDiffLine .added newLine (-1) (j + 1)
        (walkTable table room (line :: oldLines) newLines i (j + 1))
    else
      appendDiffLine .removed line (i + 1) (-1)
        (walkTable table room oldLines (newLine :: newLines) (i + 1) j)

/-- The lines of the diff and `truncated`. -/
def lineDiff (oldText newText : Bytes) : List CardDiffLine × Bool :=
  let oldLines := linesOf oldText
  let newLines := linesOf newText
  if !oldLines.isEmpty && 1000000 / oldLines.length < newLines.length then
    replaceAll maxDiffLines oldLines newLines 0 0
  else walkTable (lcsTable oldLines newLines) maxDiffLines oldLines newLines 0 0

/-! ## Edit scripts -/

/-- A way from lines to other lines, whose numbers start after `i` and `j`. -/
inductive EditScript : (i : Nat) → List Bytes → (j : Nat) → List Bytes → List CardDiffLine → Prop
  | nil (i j : Nat) : EditScript i [] j [] []
  | keep {i j : Nat} {oldLines newLines : List Bytes} {lines : List CardDiffLine} (line : Bytes) :
    EditScript (i + 1) oldLines (j + 1) newLines lines →
    EditScript i (line :: oldLines) j (line :: newLines) (⟨.kept, line, i + 1, j + 1⟩ :: lines)
  | add {i j : Nat} {oldLines newLines : List Bytes} {lines : List CardDiffLine} (line : Bytes) :
    EditScript i oldLines (j + 1) newLines lines →
    EditScript i oldLines j (line :: newLines) (⟨.added, line, -1, j + 1⟩ :: lines)
  | remove {i j : Nat} {oldLines newLines : List Bytes} {lines : List CardDiffLine} (line : Bytes) :
    EditScript (i + 1) oldLines j newLines lines →
    EditScript i (line :: oldLines) j newLines (⟨.removed, line, i + 1, -1⟩ :: lines)

/-- The lines of the old text that a diff names, and those of the new text. -/
def oldSide (lines : List CardDiffLine) : List CardDiffLine := lines.filter (·.origin != .added)

def newSide (lines : List CardDiffLine) : List CardDiffLine := lines.filter (·.origin != .removed)

def keptLines (lines : List CardDiffLine) : List CardDiffLine := lines.filter (·.origin == .kept)

namespace EditScript
variable {i j : Nat} {oldLines newLines : List Bytes} {lines : List CardDiffLine}

theorem old_text (h : EditScript i oldLines j newLines lines) :
    (oldSide lines).map (·.text) = oldLines := by
  induction h with
  | nil => rfl
  | keep line _ ih => simpa [oldSide] using ih
  | add line _ ih => simpa [oldSide] using ih
  | remove line _ ih => simpa [oldSide] using ih

theorem new_text (h : EditScript i oldLines j newLines lines) :
    (newSide lines).map (·.text) = newLines := by
  induction h with
  | nil => rfl
  | keep line _ ih => simpa [newSide] using ih
  | add line _ ih => simpa [newSide] using ih
  | remove line _ ih => simpa [newSide] using ih

/-- The old lines are numbered in turn. -/
theorem old_numbers (h : EditScript i oldLines j newLines lines) :
    (oldSide lines).map (·.oldLine) = (List.range' (i + 1) oldLines.length).map (fun n : Nat => (n : Int)) := by
  induction h with
  | nil => rfl
  | keep line _ ih => simpa [oldSide, List.range'_succ] using ih
  | add line _ ih => simpa [oldSide] using ih
  | remove line _ ih => simpa [oldSide, List.range'_succ] using ih

theorem new_numbers (h : EditScript i oldLines j newLines lines) :
    (newSide lines).map (·.newLine) = (List.range' (j + 1) newLines.length).map (fun n : Nat => (n : Int)) := by
  induction h with
  | nil => rfl
  | keep line _ ih => simpa [newSide, List.range'_succ] using ih
  | add line _ ih => simpa [newSide, List.range'_succ] using ih
  | remove line _ ih => simpa [newSide] using ih

/-- The kept lines are common to the two texts. -/
theorem kept_sublist (h : EditScript i oldLines j newLines lines) :
    ((keptLines lines).map (·.text)).Sublist oldLines ∧
      ((keptLines lines).map (·.text)).Sublist newLines := by
  induction h with
  | nil => exact ⟨.slnil, .slnil⟩
  | keep line _ ih => simpa [keptLines] using ih
  | add line _ ih => exact ⟨by simpa [keptLines] using ih.1, by simpa [keptLines] using ih.2.cons line⟩
  | remove line _ ih => exact ⟨by simpa [keptLines] using ih.1.cons line, by simpa [keptLines] using ih.2⟩

end EditScript

/-! ## Bounds -/

theorem wholeCharacters_le (text : Bytes) (limit : Nat) : wholeCharacters text limit ≤ limit := by
  induction limit with
  | zero => exact Nat.le_refl _
  | succ limit ih =>
    rw [wholeCharacters]
    split
    · exact ih.trans (Nat.le_succ _)
    · exact Nat.le_refl _

theorem length_boundedDiffText (text : Bytes) :
    (boundedDiffText text).1.length ≤ maxDiffLineBytes := by
  unfold boundedDiffText
  split
  · assumption
  · have hcut := wholeCharacters_le text (maxDiffLineBytes - shortenedLineSuffix.length)
    have hsuffix : shortenedLineSuffix.length ≤ maxDiffLineBytes := by decide
    simp only [List.length_append, List.length_take]
    omega

/-- A text that is not shortened stays as it is. -/
theorem boundedDiffText_whole {text : Bytes} (h : (boundedDiffText text).2 = false) :
    boundedDiffText text = (text, false) := by
  unfold boundedDiffText at h ⊢
  split
  · rfl
  · next hlong => simp [hlong] at h

/-- At most `room` lines, none of them longer than the bound. -/
structure Bounded (room : Nat) (lines : List CardDiffLine) : Prop where
  count : lines.length ≤ room
  bytes : ∀ line ∈ lines, line.text.length ≤ maxDiffLineBytes

theorem Bounded.nil (room : Nat) : Bounded room [] := ⟨Nat.zero_le _, by simp⟩

section
variable {room i j : Nat} {origin : LineOrigin} {text : Bytes} {oldLine newLine : Int}
  {rest : List CardDiffLine × Bool} {oldLines newLines : List Bytes}

theorem Bounded.append (h : Bounded room rest.1) :
    Bounded (room + 1) (appendDiffLine origin text oldLine newLine rest).1 where
  count := Nat.succ_le_succ h.count
  bytes line hline := by
    rcases List.mem_cons.mp hline with rfl | hline
    · exact length_boundedDiffText text
    · exact h.bytes line hline

theorem appendDiffLine_whole (h : (appendDiffLine origin text oldLine newLine rest).2 = false) :
    rest.2 = false ∧ (appendDiffLine origin text oldLine newLine rest).1 =
      ⟨origin, text, oldLine, newLine⟩ :: rest.1 := by
  obtain ⟨hcut, hrest⟩ := Bool.or_eq_false_iff.mp h
  refine ⟨hrest, ?_⟩
  rw [appendDiffLine, boundedDiffText_whole hcut]

/-! ## Runs of the two paths -/

theorem replaceAll_bounded : Bounded room (replaceAll room oldLines newLines i j).1 := by
  fun_induction replaceAll room oldLines newLines i j with
  | case1 => exact .nil _
  | case2 => exact .nil _
  | case3 => exact Bounded.append ‹_›
  | case4 => exact Bounded.append ‹_›

theorem replaceAll_script (h : (replaceAll room oldLines newLines i j).2 = false) :
    EditScript i oldLines j newLines (replaceAll room oldLines newLines i j).1 := by
  fun_induction replaceAll room oldLines newLines i j with
  | case1 => exact .nil _ _
  | case2 => cases h
  | case3 room line oldLines newLines i j ih =>
    obtain ⟨hrest, hlines⟩ := appendDiffLine_whole h
    rw [hlines]
    exact .remove line (ih hrest)
  | case4 room line newLines i j ih =>
    obtain ⟨hrest, hlines⟩ := appendDiffLine_whole h
    rw [hlines]
    exact .add line (ih hrest)

variable {table : List (List Nat)}

theorem walkTable_bounded : Bounded room (walkTable table room oldLines newLines i j).1 := by
  fun_induction walkTable table room oldLines newLines i j with
  | case1 => exact .nil _
  | case2 => exact .nil _
  | case3 => exact Bounded.append ‹_›
  | case4 => exact Bounded.append ‹_›
  | case5 => exact Bounded.append ‹_›
  | case6 => exact Bounded.append ‹_›
  | case7 => exact Bounded.append ‹_›

/-- Whatever the table says, the walk is an edit script. -/
theorem walkTable_script (h : (walkTable table room oldLines newLines i j).2 = false) :
    EditScript i oldLines j newLines (walkTable table room oldLines newLines i j).1 := by
  fun_induction walkTable table room oldLines newLines i j with
  | case1 => exact .nil _ _
  | case2 => cases h
  | case3 room line newLines i j ih =>
    obtain ⟨hrest, hlines⟩ := appendDiffLine_whole h
    rw [hlines]
    exact .add line (ih hrest)
  | case4 room line oldLines i j ih =>
    obtain ⟨hrest, hlines⟩ := appendDiffLine_whole h
    rw [hlines]
    exact .remove line (ih hrest)
  | case5 =>
    next ih =>
    obtain ⟨hrest, hlines⟩ := appendDiffLine_whole h
    rw [hlines]
    exact .keep _ (ih hrest)
  | case6 room line oldLines newLine newLines i j hne hle ih =>
    obtain ⟨hrest, hlines⟩ := appendDiffLine_whole h
    rw [hlines]
    exact .add newLine (ih hrest)
  | case7 room line oldLines newLine newLines i j hne hle ih =>
    obtain ⟨hrest, hlines⟩ := appendDiffLine_whole h
    rw [hlines]
    exact .remove line (ih hrest)

end

/-! ## The table holds the lengths -/

theorem lcsRow_lengths (line : Bytes) (oldLines newLines : List Bytes) :
    lcsRow line newLines (newLines.tails.map (lcsLength oldLines)) =
      newLines.tails.map (lcsLength (line :: oldLines)) := by
  induction newLines with
  | nil => simp [lcsRow]
  | cons newLine newLines ih =>
    have hhead : (newLines.tails.map (lcsLength oldLines)).headD 0 = lcsLength oldLines newLines := by
      cases newLines <;> simp
    have hrow : (newLines.tails.map (lcsLength (line :: oldLines))).headD 0 =
        lcsLength (line :: oldLines) newLines := by
      cases newLines <;> simp
    rw [List.tails_cons, List.map_cons, List.map_cons, lcsRow]
    simp only [List.tail_cons, List.headD_cons, ih, hhead, hrow, lcsLength_cons_cons]

theorem lcsTable_lengths (oldLines newLines : List Bytes) : lcsTable oldLines newLines =
    oldLines.tails.map fun old => newLines.tails.map (lcsLength old) := by
  induction oldLines with
  | nil =>
    have hzero : newLines.tails.map (lcsLength []) = List.replicate (newLines.length + 1) 0 :=
      List.eq_replicate_iff.mpr ⟨by simp, by simp⟩
    simp only [lcsTable, List.tails, List.map_cons, List.map_nil, hzero]
  | cons line oldLines ih =>
    have hhead : (oldLines.tails.map fun old => newLines.tails.map (lcsLength old)).headD [] =
        newLines.tails.map (lcsLength oldLines) := by
      cases oldLines <;> simp
    rw [lcsTable, ih, hhead, lcsRow_lengths, List.tails_cons, List.map_cons]

theorem lcsCell_lengths {oldLines newLines : List Bytes} {i j : Nat} (hi : i ≤ oldLines.length)
    (hj : j ≤ newLines.length) : lcsCell (lcsTable oldLines newLines) i j =
      lcsLength (oldLines.drop i) (newLines.drop j) := by
  rw [lcsCell, lcsTable_lengths]
  have hrow : i < oldLines.tails.length := by
    rw [List.length_tails]
    omega
  have hcell : j < newLines.tails.length := by
    rw [List.length_tails]
    omega
  rw [List.getD_eq_getElem?_getD, List.getD_eq_getElem?_getD, List.getElem?_map,
    List.getElem?_eq_getElem hrow, List.getElem_tails, Option.map_some, Option.getD_some,
    List.getElem?_map, List.getElem?_eq_getElem hcell, List.getElem_tails, Option.map_some,
    Option.getD_some]

/-- Where the table holds the lengths the walk keeps as many lines as it can. -/
theorem walkTable_kept {allOld allNew : List Bytes} {room i j : Nat} {oldLines newLines : List Bytes}
    (hold : oldLines = allOld.drop i) (hnew : newLines = allNew.drop j)
    (h : (walkTable (lcsTable allOld allNew) room oldLines newLines i j).2 = false) :
    (keptLines (walkTable (lcsTable allOld allNew) room oldLines newLines i j).1).length =
      lcsLength oldLines newLines := by
  have htail : ∀ {line : Bytes} {lines all : List Bytes} {n : Nat}, line :: lines = all.drop n →
      n + 1 ≤ all.length ∧ lines = all.drop (n + 1) := by
    intro line lines all n he
    have hlen := congrArg List.length he
    rw [List.length_cons, List.length_drop] at hlen
    refine ⟨by omega, ?_⟩
    rw [← List.tail_drop, ← he, List.tail_cons]
  fun_induction walkTable (lcsTable allOld allNew) room oldLines newLines i j with
  | case1 => simp [keptLines]
  | case2 => cases h
  | case3 room line newLines i j ih =>
    obtain ⟨hrest, hlines⟩ := appendDiffLine_whole h
    rw [hlines]
    simpa [keptLines] using ih hold (htail hnew).2 hrest
  | case4 room line oldLines i j ih =>
    obtain ⟨hrest, hlines⟩ := appendDiffLine_whole h
    rw [hlines]
    simpa [keptLines] using ih (htail hold).2 hnew hrest
  | case5 =>
    next ih =>
    obtain ⟨hrest, hlines⟩ := appendDiffLine_whole h
    rw [hlines, lcsLength_cons_cons, if_pos rfl, ← ih (htail hold).2 (htail hnew).2 hrest]
    simp [keptLines]
  | case6 room line oldLines newLine newLines i j hne hle ih =>
    obtain ⟨hrest, hlines⟩ := appendDiffLine_whole h
    obtain ⟨hi, hold'⟩ := htail hold
    obtain ⟨hj, hnew'⟩ := htail hnew
    rw [lcsCell_lengths hi (by omega), lcsCell_lengths (by omega) hj, ← hold, ← hold', ← hnew,
      ← hnew'] at hle
    rw [hlines, lcsLength_cons_cons, if_neg hne, max_eq_right hle, ← ih hold hnew' hrest]
    simp [keptLines]
  | case7 room line oldLines newLine newLines i j hne hle ih =>
    obtain ⟨hrest, hlines⟩ := appendDiffLine_whole h
    obtain ⟨hi, hold'⟩ := htail hold
    obtain ⟨hj, hnew'⟩ := htail hnew
    rw [lcsCell_lengths hi (by omega), lcsCell_lengths (by omega) hj, ← hold, ← hold', ← hnew,
      ← hnew'] at hle
    rw [hlines, lcsLength_cons_cons, if_neg hne, max_eq_left (Nat.le_of_not_le hle),
      ← ih hold' hnew hrest]
    simp [keptLines]

/-! ## The diff -/

theorem intercalate_linesOf (text : Bytes) : ['\n'].intercalate (linesOf text) = text := by
  unfold linesOf
  split
  · next h => rw [List.isEmpty_iff.mp h]; rfl
  · exact List.intercalate_splitOn '\n'

/-- The two paths part where the product of the numbers of lines passes the bound. -/
theorem lineDiff_path (oldText newText : Bytes) : lineDiff oldText newText =
    if (linesOf oldText).length * (linesOf newText).length ≤ 1000000 then
      walkTable (lcsTable (linesOf oldText) (linesOf newText)) maxDiffLines (linesOf oldText)
        (linesOf newText) 0 0
    else replaceAll maxDiffLines (linesOf oldText) (linesOf newText) 0 0 := by
  unfold lineDiff
  cases hold : linesOf oldText with
  | nil => simp
  | cons line oldLines =>
    have hdiv : 1000000 / (line :: oldLines).length < (linesOf newText).length ↔
        ¬ (line :: oldLines).length * (linesOf newText).length ≤ 1000000 := by
      have hpos : 0 < (line :: oldLines).length := Nat.succ_pos _
      rw [Nat.div_lt_iff_lt_mul hpos, Nat.not_le, Nat.mul_comm]
    simp only [List.isEmpty_cons, Bool.not_false, Bool.true_and, decide_eq_true_eq, hdiv]
    split <;> simp_all

/-- The lines of a diff that is whole name the old and the new text with their numbers; within the
bound they keep as many lines as they can. Any diff is bounded. -/
theorem lineDiff_minimal (oldText newText : Bytes) :
    (lineDiff oldText newText).1.length ≤ 5000 ∧
    (∀ line ∈ (lineDiff oldText newText).1, line.text.length ≤ 16 * 1024) ∧
    ((lineDiff oldText newText).2 = false →
      ['\n'].intercalate ((oldSide (lineDiff oldText newText).1).map (·.text)) = oldText ∧
      ['\n'].intercalate ((newSide (lineDiff oldText newText).1).map (·.text)) = newText ∧
      (oldSide (lineDiff oldText newText).1).map (·.oldLine) =
        (List.range' 1 (linesOf oldText).length).map (fun n : Nat => (n : Int)) ∧
      (newSide (lineDiff oldText newText).1).map (·.newLine) =
        (List.range' 1 (linesOf newText).length).map (fun n : Nat => (n : Int)) ∧
      ((linesOf oldText).length * (linesOf newText).length ≤ 1000000 →
        ((keptLines (lineDiff oldText newText).1).map (·.text)).Sublist (linesOf oldText) ∧
        ((keptLines (lineDiff oldText newText).1).map (·.text)).Sublist (linesOf newText) ∧
        ∀ common : List Bytes, common.Sublist (linesOf oldText) → common.Sublist (linesOf newText) →
          common.length ≤ (keptLines (lineDiff oldText newText).1).length)) := by
  have hbounded : Bounded maxDiffLines (lineDiff oldText newText).1 := by
    rw [lineDiff_path]
    split
    · exact walkTable_bounded
    · exact replaceAll_bounded
  refine ⟨hbounded.count, hbounded.bytes, fun hwhole => ?_⟩
  have hscript : EditScript 0 (linesOf oldText) 0 (linesOf newText) (lineDiff oldText newText).1 := by
    rw [lineDiff_path] at hwhole ⊢
    split at hwhole
    · next hsmall =>
      rw [if_pos hsmall]
      exact walkTable_script hwhole
    · next hlarge =>
      rw [if_neg hlarge]
      exact replaceAll_script hwhole
  refine ⟨?_, ?_, hscript.old_numbers, hscript.new_numbers, fun hsmall => ?_⟩
  · rw [hscript.old_text, intercalate_linesOf]
  · rw [hscript.new_text, intercalate_linesOf]
  refine ⟨hscript.kept_sublist.1, hscript.kept_sublist.2, fun common hold hnew => ?_⟩
  have hkept : (keptLines (lineDiff oldText newText).1).length =
      lcsLength (linesOf oldText) (linesOf newText) := by
    rw [lineDiff_path, if_pos hsmall] at hwhole ⊢
    exact walkTable_kept rfl rfl hwhole
  rw [hkept]
  exact length_le_lcsLength hold hnew

example : lineDiff "a\nb\n".toList "b\nc".toList =
    ([⟨.removed, ['a'], 1, -1⟩, ⟨.kept, ['b'], 2, 1⟩, ⟨.added, ['c'], -1, 2⟩, ⟨.removed, [], 3, -1⟩],
      false) := by decide +kernel

end CardHistory

end HolderCore
