import Mathlib.Data.List.Basic

/-! # UTF-8 texts and where they are cut

A text is the sequence of its bytes, each written as the character of its number. The encoding of a
character is one byte that starts it and bytes that go on with it; a valid text may be cut before the
bytes of the first kind and only there. -/

namespace HolderCore

/-- A byte that goes on with a character. -/
def ContinuationByte (n : Nat) : Prop := n &&& 0xc0 = 0x80

instance (n : Nat) : Decidable (ContinuationByte n) := inferInstanceAs (Decidable (_ = _))

theorem continuationByte_iff {n : Nat} (h : n < 256) : ContinuationByte n ↔ 128 ≤ n ∧ n < 192 := by
  have hall : ∀ n : Fin 256, ContinuationByte n ↔ 128 ≤ n.val ∧ n.val < 192 := by decide +kernel
  exact hall ⟨n, h⟩

/-- One byte that is no continuation and then continuations. -/
theorem utf8EncodeChar_shape (c : Char) : ∃ first rest, String.utf8EncodeChar c = first :: rest ∧
    ¬ ContinuationByte first.toNat ∧ ∀ byte ∈ rest, ContinuationByte byte.toNat := by
  have hcont : ∀ n, ContinuationByte (UInt8.ofNat (n % 0x40 + 0x80)).toNat := by
    intro n
    have hlt : n % 0x40 < 0x40 := Nat.mod_lt _ (by decide)
    rw [UInt8.toNat_ofNat', Nat.mod_eq_of_lt (by omega), continuationByte_iff (by omega)]
    omega
  have hfirst : ∀ n, n < 256 → (n < 128 ∨ 192 ≤ n) → ¬ ContinuationByte (UInt8.ofNat n).toNat := by
    intro n hn hout
    rw [UInt8.toNat_ofNat', Nat.mod_eq_of_lt (by omega), continuationByte_iff hn]
    omega
  unfold String.utf8EncodeChar
  dsimp only
  split
  · exact ⟨_, _, rfl, hfirst _ (by omega) (by omega), by simp⟩
  split
  · refine ⟨_, _, rfl, hfirst _ (by omega) (by omega), ?_⟩
    simpa using hcont _
  split
  · refine ⟨_, _, rfl, hfirst _ (by omega) (by omega), ?_⟩
    simpa using ⟨hcont _, hcont _⟩
  · refine ⟨_, _, rfl, hfirst _ (by omega) (by omega), ?_⟩
    simpa using ⟨hcont _, hcont _, hcont _⟩

/-- The character of a byte's number. -/
def byteChar (byte : UInt8) : Char := Char.ofNat byte.toNat

@[simp] theorem toNat_byteChar (byte : UInt8) : (byteChar byte).toNat = byte.toNat := by
  have hlt : byte.toNat < 256 := byte.toNat_lt
  have hvalid : byte.toNat.isValidChar := .inl (by omega)
  rw [byteChar, Char.ofNat, dif_pos hvalid]
  rfl

theorem byteChar_injective : Function.Injective byteChar := by
  intro a b h
  have hnat := congrArg Char.toNat h
  rw [toNat_byteChar, toNat_byteChar] at hnat
  exact UInt8.toNat_inj.mp hnat

def encodedChar (c : Char) : List Char := (String.utf8EncodeChar c).map byteChar

/-- The text is the encoding of some characters. -/
def ValidUtf8 (text : List Char) : Prop := ∃ cs : List Char, cs.flatMap encodedChar = text

theorem encodedChar_shape (c : Char) : ∃ first rest, encodedChar c = first :: rest ∧
    ¬ ContinuationByte first.toNat ∧ ∀ byte ∈ rest, ContinuationByte byte.toNat := by
  obtain ⟨first, rest, he, hfirst, hrest⟩ := utf8EncodeChar_shape c
  refine ⟨byteChar first, rest.map byteChar, by rw [encodedChar, he, List.map_cons], ?_, ?_⟩
  · rwa [toNat_byteChar]
  · simpa using hrest

theorem ValidUtf8.nil : ValidUtf8 [] := ⟨[], rfl⟩

theorem ValidUtf8.append {a b : List Char} (ha : ValidUtf8 a) (hb : ValidUtf8 b) : ValidUtf8 (a ++ b) := by
  obtain ⟨as, rfl⟩ := ha
  obtain ⟨bs, rfl⟩ := hb
  exact ⟨as ++ bs, List.flatMap_append⟩

/-- Characters of 7 bits are their own encoding. -/
theorem validUtf8_of_ascii {text : List Char} (h : ∀ c ∈ text, c.toNat < 128) : ValidUtf8 text := by
  refine ⟨text, ?_⟩
  have hself : ∀ c ∈ text, encodedChar c = [c] := by
    intro c hc
    have hlt := h c hc
    have hle : c.val.toNat ≤ 0x7f := Nat.le_of_lt_succ hlt
    have hbyte : byteChar (UInt8.ofNat c.val.toNat) = c := by
      apply Char.toNat_inj.mp
      rw [toNat_byteChar, UInt8.toNat_ofNat', Nat.mod_eq_of_lt (by omega)]
      rfl
    rw [encodedChar, String.utf8EncodeChar]
    simp only [hle, if_true, List.map_cons, List.map_nil, hbyte]
  rw [List.flatMap_congr hself, List.flatMap_singleton']

/-- An encoding that starts another one is that of its first characters. -/
theorem encoded_prefix {as cs b : List Char} (h : as.flatMap encodedChar ++ b = cs.flatMap encodedChar) :
    ∃ bs, cs = as ++ bs ∧ b = bs.flatMap encodedChar := by
  have hmap : ∀ l : List Char, l.flatMap encodedChar = (l.flatMap String.utf8EncodeChar).map byteChar := by
    intro l
    rw [List.map_flatMap]
    rfl
  rw [hmap, hmap] at h
  obtain ⟨first, rest, hsplit, hfirst, rfl⟩ := List.map_eq_append_iff.mp h.symm
  have hbytes : first = as.flatMap String.utf8EncodeChar :=
    List.map_injective_iff.mpr byteChar_injective hfirst
  subst hbytes
  have hencode : as.utf8Encode ++ rest.toByteArray = cs.utf8Encode := by
    rw [List.utf8Encode, List.utf8Encode, hsplit, List.toByteArray_append]
  obtain ⟨bs, rfl⟩ := List.isPrefix_of_utf8Encode_append_eq_utf8Encode _ hencode
  refine ⟨bs, rfl, ?_⟩
  rw [List.flatMap_append] at hsplit
  rw [hmap, List.append_cancel_left hsplit]

/-- What follows a valid start of a valid text is valid. -/
theorem ValidUtf8.rest {a b : List Char} (h : ValidUtf8 (a ++ b)) (ha : ValidUtf8 a) : ValidUtf8 b := by
  obtain ⟨as, rfl⟩ := ha
  obtain ⟨cs, hcs⟩ := h
  obtain ⟨bs, -, rfl⟩ := encoded_prefix hcs.symm
  exact ⟨bs, rfl⟩

/-- A valid text is valid up to a place exactly if no continuation stands there. -/
theorem validUtf8_cut {a b : List Char} (h : ValidUtf8 (a ++ b)) :
    ValidUtf8 a ↔ ∀ c ∈ b.head?, ¬ ContinuationByte c.toNat := by
  constructor
  · intro ha
    obtain ⟨bs, rfl⟩ := h.rest ha
    cases bs with
    | nil => simp
    | cons c bs =>
      obtain ⟨first, rest, he, hfirst, -⟩ := encodedChar_shape c
      simpa [List.flatMap_cons, he] using hfirst
  · intro hhead
    obtain ⟨cs, hcs⟩ := h
    induction cs generalizing a with
    | nil => exact (List.append_eq_nil_iff.mp hcs.symm).1 ▸ .nil
    | cons c cs ih =>
      rw [List.flatMap_cons] at hcs
      rcases List.append_eq_append_iff.mp hcs with ⟨a', rfl, hrest⟩ | ⟨b', henc, rfl⟩
      · exact .append ⟨[c], by simp⟩ (ih hrest)
      · -- The cut is in the first character: before it, behind it or before a continuation.
        obtain ⟨first, rest, he, -, hrest⟩ := encodedChar_shape c
        cases a with
        | nil => exact .nil
        | cons x a =>
          cases b' with
          | nil => exact ⟨[c], by simpa using henc⟩
          | cons y b' =>
            rw [he, List.cons_append, List.cons.injEq] at henc
            have hy : y ∈ rest := henc.2 ▸ List.mem_append_right _ List.mem_cons_self
            exact absurd (hrest y hy) (hhead y (by simp))

end HolderCore
