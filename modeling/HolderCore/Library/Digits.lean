import Mathlib

/-! # Positional notation

Digits with the most significant one first. The digits of fixed width read back as the number and
compare, as sequences, as the numbers do. -/

/-- The last digits of a number. -/
def fixedDigits (base : Nat) : (width : Nat) → Nat → List Nat
  | 0, _ => []
  | width + 1, n => n / base ^ width % base :: fixedDigits base width n

/-- The number that digits stand for. -/
def readDigits (base : Nat) (digits : List Nat) : Nat := Nat.ofDigits base digits.reverse

section
variable {base width m n : Nat}

@[simp] theorem length_fixedDigits : (fixedDigits base width n).length = width := by
  induction width with
  | zero => rfl
  | succ width ih => rw [fixedDigits, List.length_cons, ih]

@[simp] theorem readDigits_nil : readDigits base [] = 0 := rfl

theorem readDigits_cons (digit : Nat) (digits : List Nat) : readDigits base (digit :: digits) =
    digit * base ^ digits.length + readDigits base digits := by
  rw [readDigits, List.reverse_cons, Nat.ofDigits_append, Nat.ofDigits_singleton,
    List.length_reverse, readDigits]
  ring

theorem readDigits_fixedDigits : readDigits base (fixedDigits base width n) = n % base ^ width := by
  induction width with
  | zero => rw [fixedDigits, readDigits_nil, pow_zero, Nat.mod_one]
  | succ width ih =>
    rw [fixedDigits, readDigits_cons, length_fixedDigits, ih, pow_succ, Nat.mod_mul]
    ring

theorem fixedDigits_lt_of_mod (h : m % base ^ width < n % base ^ width) :
    fixedDigits base width m < fixedDigits base width n := by
  induction width with
  | zero => simp [Nat.mod_one] at h
  | succ width ih =>
    rw [pow_succ, Nat.mod_mul, Nat.mod_mul] at h
    rw [fixedDigits, fixedDigits, List.cons_lt_cons_iff]
    obtain hd | hd | hd :=
      lt_trichotomy (m / base ^ width % base) (n / base ^ width % base)
    · exact .inl hd
    · rw [hd] at h
      exact .inr ⟨hd, ih (Nat.lt_of_add_lt_add_right h)⟩
    · -- The larger first digit outweighs what the digits behind it add to the other number.
      have hbase : 0 < base ^ width := by
        apply Nat.pos_of_ne_zero
        intro hzero
        simp [hzero] at hd
      have hrest : n % base ^ width < base ^ width := Nat.mod_lt _ hbase
      have hstep := Nat.mul_le_mul_left (base ^ width) (Nat.succ_le_of_lt hd)
      rw [Nat.mul_succ] at hstep
      linarith [Nat.zero_le (m % base ^ width)]

theorem fixedDigits_lt (hn : n < base ^ width) (h : m < n) :
    fixedDigits base width m < fixedDigits base width n := by
  apply fixedDigits_lt_of_mod
  rwa [Nat.mod_eq_of_lt hn, Nat.mod_eq_of_lt (h.trans hn)]

/-- Writing every digit with two digits of the smaller base. -/
theorem readDigits_split (digits : List Nat) :
    readDigits base (digits.flatMap fun d => [d / base, d % base]) =
      readDigits (base * base) digits := by
  induction digits with
  | nil => rfl
  | cons d digits ih =>
    have hlength : (digits.flatMap fun d => [d / base, d % base]).length = 2 * digits.length := by
      simp [List.length_flatMap, mul_comm]
    rw [List.flatMap_cons, List.cons_append, List.singleton_append, readDigits_cons,
      readDigits_cons, readDigits_cons, List.length_cons, hlength, ih, ← pow_two, ← pow_mul,
      pow_succ]
    conv_rhs => rw [← Nat.div_add_mod d base]
    ring

end

/-! ## Sequences in order -/

section
variable {α β : Type} [LT α] [LT β]

theorem append_lt_append {l l' : List α} (hlength : l.length = l'.length) (h : l < l')
    (r r' : List α) : l ++ r < l' ++ r' := by
  induction l generalizing l' with
  | nil =>
    rw [List.length_nil, eq_comm, List.length_eq_zero_iff] at hlength
    rw [hlength] at h
    exact absurd h (List.not_lt_nil _)
  | cons a l ih =>
    cases l' with
    | nil => cases hlength
    | cons a' l' =>
      rw [List.cons_append, List.cons_append, List.cons_lt_cons_iff]
      obtain ha | ⟨ha, hl⟩ := List.cons_lt_cons_iff.mp h
      · exact .inl ha
      · exact .inr ⟨ha, ih (Nat.succ.inj hlength) hl⟩

/-- Blocks of fixed widths compare as what they are written for. -/
theorem flatMap_zipIdx_lt {block : α × Nat → List β}
    (hlength : ∀ a a' i, (block (a, i)).length = (block (a', i)).length)
    (hlt : ∀ a a' i, a < a' → block (a, i) < block (a', i)) {l l' : List α}
    (hl : l.length = l'.length) (h : l < l') (start : Nat) :
    (l.zipIdx start).flatMap block < (l'.zipIdx start).flatMap block := by
  induction l generalizing l' start with
  | nil =>
    rw [List.length_nil, eq_comm, List.length_eq_zero_iff] at hl
    rw [hl] at h
    exact absurd h (List.not_lt_nil _)
  | cons a l ih =>
    cases l' with
    | nil => cases hl
    | cons a' l' =>
      rw [List.zipIdx_cons, List.zipIdx_cons, List.flatMap_cons, List.flatMap_cons]
      obtain ha | ⟨rfl, hrest⟩ := List.cons_lt_cons_iff.mp h
      · exact append_lt_append (hlength a a' start) (hlt a a' start ha) _ _
      · apply List.append_left_lt
        exact ih (Nat.succ.inj hl) hrest (start + 1)

end
