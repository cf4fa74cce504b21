import Mathlib

/-! # Chunks and lengths

A sequence cut into chunks of one size, and a number of 32 bits written as four bytes, the most
significant first. A byte is a character below 256. -/

variable {α : Type}

/-- The first chunks of a sequence. -/
def chunksUpTo (size : Nat) : Nat → List α → List (List α)
  | 0, _ => []
  | count + 1, as => if as.isEmpty then [] else as.take size :: chunksUpTo size count (as.drop size)

/-- The chunks of a sequence: all have the size but the last. -/
def chunksOf (size : Nat) (as : List α) : List (List α) := chunksUpTo size as.length as

section
variable {size count : Nat} {as : List α}

theorem flatten_chunksUpTo (hsize : 0 < size) (h : as.length ≤ count) :
    (chunksUpTo size count as).flatten = as := by
  induction count generalizing as with
  | zero => rw [List.eq_nil_of_length_eq_zero (by omega : as.length = 0), chunksUpTo, List.flatten_nil]
  | succ count ih =>
    rw [chunksUpTo]
    split
    · next hnil => rw [List.isEmpty_iff.mp hnil, List.flatten_nil]
    · rw [List.flatten_cons, ih, List.take_append_drop]
      rw [List.length_drop]
      omega

theorem flatten_chunksOf (hsize : 0 < size) (as : List α) : (chunksOf size as).flatten = as :=
  flatten_chunksUpTo hsize le_rfl

theorem length_of_mem_chunksOf {chunk : List α} (h : chunk ∈ chunksOf size as) :
    chunk.length ≤ size := by
  unfold chunksOf at h
  generalize as.length = count at h
  induction count generalizing as with
  | zero => cases h
  | succ count ih =>
    rw [chunksUpTo] at h
    split at h
    · cases h
    · rcases List.mem_cons.mp h with rfl | h
      · rw [List.length_take]
        omega
      · exact ih h

end

def bigEndian32 (n : Nat) : List Char :=
  [Char.ofNat (n / 256 ^ 3 % 256), Char.ofNat (n / 256 ^ 2 % 256), Char.ofNat (n / 256 % 256),
    Char.ofNat (n % 256)]

def readBigEndian32 : List Char → Option (Nat × List Char)
  | a :: b :: c :: d :: rest =>
    some (((a.toNat * 256 + b.toNat) * 256 + c.toNat) * 256 + d.toNat, rest)
  | _ => none

@[simp] theorem length_bigEndian32 (n : Nat) : (bigEndian32 n).length = 4 := rfl

theorem toNat_byte {n : Nat} (h : n < 256) : (Char.ofNat n).toNat = n := by
  have hvalid : n.isValidChar := .inl (by omega)
  rw [Char.ofNat, dif_pos hvalid]
  rfl

/-- A number is read back without its bits from the 33rd on. -/
theorem readBigEndian32_append (n : Nat) (rest : List Char) :
    readBigEndian32 (bigEndian32 n ++ rest) = some (n % 2 ^ 32, rest) := by
  simp only [bigEndian32, List.cons_append, List.nil_append, readBigEndian32,
    toNat_byte (Nat.mod_lt _ (by omega : 256 > 0)), Option.some.injEq, Prod.mk.injEq, and_true]
  omega

theorem ofNat_toNat_byte {c : Char} {n : Nat} (h : n = c.toNat) : Char.ofNat n = c := by
  rw [h, Char.ofNat_toNat]

/-- Bytes that are read as a number are how it is written. -/
theorem eq_of_readBigEndian32 {input rest : List Char} {n : Nat}
    (hbytes : ∀ c ∈ input, c.toNat < 256) (h : readBigEndian32 input = some (n, rest)) :
    input = bigEndian32 n ++ rest := by
  unfold readBigEndian32 at h
  split at h
  · next a b c d tail =>
    simp only [Option.some.injEq, Prod.mk.injEq] at h
    obtain ⟨hn, rfl⟩ := h
    simp only [List.mem_cons, forall_eq_or_imp] at hbytes
    obtain ⟨ha, hb, hc, hd, -⟩ := hbytes
    simp only [bigEndian32, List.cons_append, List.nil_append, List.cons.injEq, and_true]
    refine ⟨(ofNat_toNat_byte ?_).symm, (ofNat_toNat_byte ?_).symm, (ofNat_toNat_byte ?_).symm,
      (ofNat_toNat_byte ?_).symm⟩ <;> omega
  · cases h
