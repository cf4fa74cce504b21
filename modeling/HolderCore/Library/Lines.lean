import Mathlib.Data.List.Basic

/-! # Lines and line ends

Reading a text line by line, and texts in which some line feeds have become CRLF. -/

namespace HolderCore

/-- `std::getline`: the text up to the next line feed and what is behind it; nothing at the end of the
text. -/
def getline : List Char → Option (List Char × List Char)
  | [] => none
  | c :: cs =>
    let text := c :: cs
    some (text.takeWhile (· != '\n'), (text.dropWhile (· != '\n')).drop 1)

/-- The line without a carriage return at its end. -/
def stripTrailingCarriageReturn (line : List Char) : List Char :=
  if line.getLast? = some '\r' then line.dropLast else line

theorem getline_append {line : List Char} (h : '\n' ∉ line) (rest : List Char) :
    getline (line ++ '\n' :: rest) = some (line, rest) := by
  have hpos : ∀ c ∈ line, (c != '\n') = true := fun c hc => bne_iff_ne.mpr fun he => h (he ▸ hc)
  have hread : ∀ text, text = line ++ '\n' :: rest → getline text = some (line, rest) := by
    intro text htext
    cases text with
    | nil => simp at htext
    | cons c cs =>
      rw [getline, htext, List.takeWhile_append_of_pos hpos, List.dropWhile_append_of_pos hpos]
      simp
  exact hread _ rfl

/-- Some line feeds of the first text are CRLF in the second. -/
inductive SomeCrlf : List Char → List Char → Prop where
  | nil : SomeCrlf [] []
  | keep {text converted : List Char} (c : Char) :
    SomeCrlf text converted → SomeCrlf (c :: text) (c :: converted)
  | convert {text converted : List Char} :
    SomeCrlf text converted → SomeCrlf ('\n' :: text) ('\r' :: '\n' :: converted)

theorem SomeCrlf.refl (text : List Char) : SomeCrlf text text := by
  induction text with
  | nil => exact .nil
  | cons c text ih => exact .keep c ih

/-- A line of a converted text is the line with or without a carriage return. -/
theorem SomeCrlf.line {line rest converted : List Char} (hline : '\n' ∉ line)
    (h : SomeCrlf (line ++ '\n' :: rest) converted) :
    ∃ ending rest', (ending = [] ∨ ending = ['\r']) ∧ converted = (line ++ ending) ++ '\n' :: rest' ∧
      SomeCrlf rest rest' := by
  induction line generalizing converted with
  | nil =>
    cases h with
    | keep c h => exact ⟨[], _, .inl rfl, rfl, h⟩
    | convert h => exact ⟨['\r'], _, .inr rfl, rfl, h⟩
  | cons c line ih =>
    rw [List.mem_cons, not_or] at hline
    cases h with
    | keep c h =>
      obtain ⟨ending, rest', hending, rfl, hrest⟩ := ih hline.2 h
      exact ⟨ending, rest', hending, rfl, hrest⟩
    | convert h => exact absurd rfl hline.1

theorem stripTrailingCarriageReturn_line {line ending : List Char} (hline : '\r' ∉ line)
    (hending : ending = [] ∨ ending = ['\r']) :
    stripTrailingCarriageReturn (line ++ ending) = line := by
  unfold stripTrailingCarriageReturn
  rcases hending with rfl | rfl
  · rw [List.append_nil, if_neg fun hlast => hline (List.mem_of_getLast? hlast)]
  · rw [if_pos (by simp), List.dropLast_concat]

/-- What a stripped line was. -/
theorem stripTrailingCarriageReturn_eq {line stripped : List Char}
    (h : stripTrailingCarriageReturn line = stripped) :
    line = stripped ∨ line = stripped ++ ['\r'] := by
  unfold stripTrailingCarriageReturn at h
  split at h
  · next hlast =>
    right
    rw [← h, List.dropLast_append_getLast? _ hlast]
  · exact .inl h

/-- The line of a converted text, read and stripped. -/
theorem SomeCrlf.getline {line rest converted : List Char} (hfeed : '\n' ∉ line) (hreturn : '\r' ∉ line)
    (h : SomeCrlf (line ++ '\n' :: rest) converted) :
    ∃ read rest', HolderCore.getline converted = some (read, rest') ∧
      stripTrailingCarriageReturn read = line ∧ SomeCrlf rest rest' := by
  obtain ⟨ending, rest', hending, rfl, hrest⟩ := h.line hfeed
  refine ⟨line ++ ending, rest', getline_append ?_ rest',
    stripTrailingCarriageReturn_line hreturn hending, hrest⟩
  rcases hending with rfl | rfl <;> simp [hfeed]

end HolderCore
