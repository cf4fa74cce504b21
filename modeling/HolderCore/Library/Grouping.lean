import Mathlib

/-! # Greedy grouping

A sequence is cut into groups from the left: an element joins the last group if that group takes
it, and opens a new one otherwise. A group that is closed to the next element is never touched
again, so the sequence can be grouped in pieces that end at such a place (`group_append`). -/

variable {α γ : Type}

/-- How groups are made: a group of one element, a group with one more, and when it takes it. -/
structure Grouping (α γ : Type) where
  first : α → γ
  extend : γ → α → γ
  joins : γ → α → Bool

namespace Grouping

variable (G : Grouping α γ)

/-- Add an element to the last group or after it. -/
def add (groups : List γ) (a : α) : List γ :=
  match groups.getLast? with
  | some g => if G.joins g a then groups.dropLast ++ [G.extend g a] else groups ++ [G.first a]
  | none => [G.first a]

/-- Add elements in turn. -/
def addAll (groups : List γ) (as : List α) : List γ := as.foldl G.add groups

/-- The groups of a sequence. -/
def group (as : List α) : List γ := G.addAll [] as

/-- The last group, if there is one, does not take the element. -/
def Closed (groups : List γ) (a : α) : Prop := ∀ g ∈ groups.getLast?, G.joins g a = false

variable {G} {groups : List γ} {a : α}

theorem add_joins {g : γ} (h : groups.getLast? = some g) (hj : G.joins g a = true) :
    G.add groups a = groups.dropLast ++ [G.extend g a] := by
  rw [add, h]
  exact if_pos hj

theorem add_closed (h : G.Closed groups a) : G.add groups a = groups ++ [G.first a] := by
  unfold add
  split
  · next g hg => exact if_neg (by rw [h g hg]; exact Bool.false_ne_true)
  · next hg => rw [List.getLast?_eq_none_iff.mp hg, List.nil_append]

/-- Groups before the last one play no part. -/
theorem add_append (hne : groups ≠ []) (done : List γ) :
    G.add (done ++ groups) a = done ++ G.add groups a := by
  have hg := List.getLast?_eq_some_getLast hne
  have hlast : (done ++ groups).getLast? = some (groups.getLast hne) := by rw [List.getLast?_append, hg, Option.some_or]
  unfold add
  rw [hg, hlast]
  dsimp only
  split
  · rw [List.dropLast_append_of_ne_nil hne, List.append_assoc]
  · rw [List.append_assoc]

theorem add_ne_nil : G.add groups a ≠ [] := by
  unfold add
  split
  · split <;> simp
  · simp

theorem addAll_append (hne : groups ≠ []) (done : List γ) (as : List α) :
    G.addAll (done ++ groups) as = done ++ G.addAll groups as := by
  induction as generalizing groups with
  | nil => rfl
  | cons a as ih =>
    change G.addAll (G.add (done ++ groups) a) as = done ++ G.addAll (G.add groups a) as
    rw [add_append hne, ih add_ne_nil]

/-- Grouping starts afresh behind groups that are closed to the next element. -/
theorem addAll_closed (h : G.Closed groups a) (as : List α) :
    G.addAll groups (a :: as) = groups ++ G.group (a :: as) := by
  change G.addAll (G.add groups a) as = groups ++ G.addAll [G.first a] as
  rw [add_closed h, addAll_append (List.cons_ne_nil _ _)]

theorem group_append (as bs : List α) : G.group (as ++ bs) = G.addAll (G.group as) bs :=
  List.foldl_append

/-- What holds of the groups of one element and of groups with one more holds of all groups. -/
theorem forall_addAll {P : γ → Prop} {as : List α} (hfirst : ∀ a ∈ as, P (G.first a))
    (hextend : ∀ g, ∀ a ∈ as, P g → P (G.extend g a)) (hgroups : ∀ g ∈ groups, P g) :
    ∀ g ∈ G.addAll groups as, P g := by
  induction as generalizing groups with
  | nil => exact hgroups
  | cons a as ih =>
    refine ih (fun b hb => hfirst b (List.mem_cons_of_mem _ hb))
      (fun g b hb => hextend g b (List.mem_cons_of_mem _ hb)) ?_
    intro g hg
    unfold add at hg
    split at hg
    · next last hlast =>
      split at hg
      · rcases List.mem_append.mp hg with hg | hg
        · exact hgroups g (List.mem_of_mem_dropLast hg)
        · rw [List.mem_singleton.mp hg]
          exact hextend last a List.mem_cons_self (hgroups last (List.mem_of_getLast? hlast))
      · rcases List.mem_append.mp hg with hg | hg
        · exact hgroups g hg
        · rw [List.mem_singleton.mp hg]
          exact hfirst a List.mem_cons_self
    · rw [List.mem_singleton.mp hg]
      exact hfirst a List.mem_cons_self

/-- What groups contain, in the order it came, is what was added. -/
theorem flatMap_addAll {β : Type} {items : γ → List β} {item : α → β}
    (hfirst : ∀ a, items (G.first a) = [item a])
    (hextend : ∀ g a, items (G.extend g a) = items g ++ [item a]) (groups : List γ) (as : List α) :
    (G.addAll groups as).flatMap items = groups.flatMap items ++ as.map item := by
  have hadd : ∀ (groups : List γ) (a : α),
      (G.add groups a).flatMap items = groups.flatMap items ++ [item a] := by
    intro groups a
    unfold add
    split
    · next g hg =>
      split
      · obtain ⟨before, rfl⟩ := List.getLast?_eq_some_iff.mp hg
        simp [hextend]
      · simp [hfirst]
    · next hg => simp [List.getLast?_eq_none_iff.mp hg, hfirst]
  induction as generalizing groups with
  | nil => simp [addAll]
  | cons a as ih =>
    change (G.addAll (G.add groups a) as).flatMap items = _
    rw [ih, hadd, List.append_assoc, List.map_cons, List.singleton_append]

end Grouping
