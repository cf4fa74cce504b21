import Mathlib.Data.List.Basic

/-! # Regular expressions by backtracking

The matches of a pattern at a place of a text, in the order in which a backtracking matcher tries
them, so that the first one is the match. The texts of groups are kept, and `^` is the beginning of
the whole text. Repetition is that of a set of characters.

A search takes the leftmost place with a match, and the matches of a text are found one after
another, each search starting where the match before it ended. -/

variable {α : Type}

inductive Regex (α : Type) where
  | start
  | set (p : α → Bool)
  | many (p : α → Bool)
  | seq (r s : Regex α)
  | alt (r s : Regex α)
  | group (n : Nat) (r : Regex α)

namespace Regex

/-- A match: its text, the groups in it with the last one first, and what follows it. -/
structure Found (α : Type) where
  matched : List α
  groups : List (Nat × List α)
  rest : List α
deriving DecidableEq, Repr

/-- The text of a group, empty for a group that is not in the match. -/
def Found.group (found : Found α) (n : Nat) : List α := (found.groups.lookup n).getD []

/-- A match behind another one. -/
def Found.after (next found : Found α) : Found α :=
  ⟨found.matched ++ next.matched, next.groups ++ found.groups, next.rest⟩

/-- The longest run of a set first, then one character less each time. -/
def manyResults (p : α → Bool) : List α → List (Found α)
  | [] => [⟨[], [], []⟩]
  | c :: text =>
    (if p c then (manyResults p text).map (·.after ⟨[c], [], text⟩) else []) ++
      [⟨[], [], c :: text⟩]

def results : Regex α → (atStart : Bool) → List α → List (Found α)
  | start, atStart, text => if atStart then [⟨[], [], text⟩] else []
  | set _, _, [] => []
  | set p, _, c :: text => if p c then [⟨[c], [], text⟩] else []
  | many p, _, text => manyResults p text
  | seq r s, atStart, text =>
    (results r atStart text).flatMap fun found =>
      (results s (atStart && found.matched.isEmpty) found.rest).map (·.after found)
  | alt r s, atStart, text => results r atStart text ++ results s atStart text
  | group n r, atStart, text =>
    (results r atStart text).map fun found =>
      { found with groups := (n, found.matched) :: found.groups }

/-- The match at the leftmost place that has one. -/
def search (r : Regex α) : (atStart : Bool) → List α → Option (Found α)
  | atStart, [] => (r.results atStart []).head?
  | atStart, c :: text => (r.results atStart (c :: text)).head?.or (search r false text)

/-- The matches of a text, of a pattern without empty matches. -/
def matchesFrom (r : Regex α) : (fuel : Nat) → (atStart : Bool) → List α → List (Found α)
  | 0, _, _ => []
  | fuel + 1, atStart, text =>
    match r.search atStart text with
    | none => []
    | some found => found :: matchesFrom r fuel false found.rest

def allMatches (r : Regex α) (text : List α) : List (Found α) :=
  r.matchesFrom (text.length + 1) true text

section
variable {p : α → Bool} {r : Regex α} {atStart : Bool} {c : α} {text : List α} {found : Found α}
  {fuel : Nat}

/-- Repetition is greedy. -/
theorem head?_manyResults :
    (manyResults p text).head? = some ⟨text.takeWhile p, [], text.dropWhile p⟩ := by
  induction text with
  | nil => rfl
  | cons c text ih =>
    rw [manyResults, List.head?_append]
    by_cases hc : p c = true
    · rw [if_pos hc, List.head?_map, ih, List.takeWhile_cons_of_pos hc, List.dropWhile_cons_of_pos hc]
      rfl
    · rw [if_neg hc, List.takeWhile_cons_of_neg hc, List.dropWhile_cons_of_neg hc]
      rfl

theorem search_of_head? (h : (r.results atStart text).head? = some found) :
    r.search atStart text = some found := by
  cases text with
  | nil => exact h
  | cons c text => rw [search, h, Option.some_or]

/-- A match here is the first one, and the others follow it. -/
theorem matchesFrom_of_head? (h : (r.results atStart text).head? = some found) :
    r.matchesFrom (fuel + 1) atStart text = found :: r.matchesFrom fuel false found.rest := by
  rw [matchesFrom, search_of_head? h]

theorem matchesFrom_nil (h : r.results atStart [] = []) : r.matchesFrom fuel atStart [] = [] := by
  cases fuel with
  | zero => rfl
  | succ fuel => rw [matchesFrom, search, h]; rfl

/-- A place without a match is passed. -/
theorem matchesFrom_cons (h : r.results atStart (c :: text) = []) :
    r.matchesFrom fuel atStart (c :: text) = r.matchesFrom fuel false text := by
  cases fuel with
  | zero => rfl
  | succ fuel => rw [matchesFrom, matchesFrom, search, h, List.head?_nil, Option.none_or]

end

end Regex
