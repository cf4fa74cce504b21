import Mathlib.Data.List.Sublists

/-! # Longest common subsequences -/

namespace HolderCore

variable {α : Type} [DecidableEq α]

/-- The length of a longest common subsequence. -/
def lcsLength : List α → List α → Nat
  | [], _ => 0
  | _ :: _, [] => 0
  | a :: as, b :: bs =>
    if a = b then lcsLength as bs + 1 else max (lcsLength as (b :: bs)) (lcsLength (a :: as) bs)

@[simp] theorem lcsLength_nil_left (bs : List α) : lcsLength [] bs = 0 := by rw [lcsLength]

@[simp] theorem lcsLength_nil_right (as : List α) : lcsLength as [] = 0 := by
  cases as <;> rw [lcsLength]

theorem lcsLength_cons_cons (a b : α) (as bs : List α) : lcsLength (a :: as) (b :: bs) =
    if a = b then lcsLength as bs + 1
    else max (lcsLength as (b :: bs)) (lcsLength (a :: as) bs) := by rw [lcsLength]

/-- No common subsequence is longer. -/
theorem length_le_lcsLength {cs as bs : List α} (ha : cs.Sublist as) (hb : cs.Sublist bs) :
    cs.length ≤ lcsLength as bs := by
  induction as generalizing cs bs with
  | nil => simp [List.sublist_nil.mp ha]
  | cons a as iha =>
    induction bs generalizing cs with
    | nil => simp [List.sublist_nil.mp hb]
    | cons b bs ihb =>
      rw [lcsLength_cons_cons]
      split
      · next hab =>
        -- Whatever the subsequence starts with, the rest of it is common to the two tails.
        cases cs with
        | nil => exact Nat.zero_le _
        | cons c cs =>
          have hrest : cs.length ≤ lcsLength as bs := iha ha.tail hb.tail
          simpa using hrest
      · next hab =>
        rcases List.sublist_cons_iff.mp ha with ha | ⟨cs', rfl, ha'⟩
        · exact (iha ha hb).trans (le_max_left _ _)
        · rcases List.sublist_cons_iff.mp hb with hb | ⟨bs', he, hb'⟩
          · exact (ihb ha hb).trans (le_max_right _ _)
          · exact absurd (List.cons.inj he).1 hab

end HolderCore
