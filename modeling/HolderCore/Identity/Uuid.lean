import HolderCore.Library.Digits
import HolderCore.Project.Rebuild

/-! # Ids

`identity/Uuid.cpp`: ids of version 4, which are random, and of version 7, which begin with the time.
The random bytes and the reading of the clock are arguments. -/

namespace HolderCore

abbrev UuidBytes := Vector UInt8 16

/-- `kHex`. -/
def hexAlphabet : List Char := "0123456789abcdef".toList

def hexChar (nibble : UInt8) : Char := hexAlphabet.getD nibble.toNat '0'

def byteDigits (byte : UInt8) : List Char := [hexChar (byte >>> 4), hexChar (byte &&& 0x0F)]

/-- The digits of the byte at an index, and the hyphen behind it. -/
def formatByte (byte : UInt8 × Nat) : List Char :=
  byteDigits byte.1 ++ if byte.2 = 3 ∨ byte.2 = 5 ∨ byte.2 = 7 ∨ byte.2 = 9 then ['-'] else []

def formatUuid (bytes : UuidBytes) : String :=
  String.ofList (bytes.toList.zipIdx.flatMap formatByte)

def uuidV4 (random : UuidBytes) : String :=
  formatUuid ((random.set 6 ((random[6] &&& 0x0F) ||| 0x40)).set 8 ((random[8] &&& 0x3F) ||| 0x80))

/-- The bytes of an id of version 7. -/
def uuidV7Bytes (timestamp : UInt64) (random : UuidBytes) : UuidBytes :=
  let bytes := random.set 0 ((timestamp >>> 40) &&& 0xFF).toUInt8
  let bytes := bytes.set 1 ((timestamp >>> 32) &&& 0xFF).toUInt8
  let bytes := bytes.set 2 ((timestamp >>> 24) &&& 0xFF).toUInt8
  let bytes := bytes.set 3 ((timestamp >>> 16) &&& 0xFF).toUInt8
  let bytes := bytes.set 4 ((timestamp >>> 8) &&& 0xFF).toUInt8
  let bytes := bytes.set 5 (timestamp &&& 0xFF).toUInt8
  let bytes := bytes.set 6 ((bytes[6] &&& 0x0F) ||| 0x70)
  bytes.set 8 ((bytes[8] &&& 0x3F) ||| 0x80)

def uuidV7 (nowMs : Int) (random : UuidBytes) : Except Exn String :=
  if nowMs < 0 ∨ 0xFFFFFFFFFFFF < nowMs.toNat then
    .error (.runtimeError "system clock outside UUIDv7 range")
  else .ok (formatUuid (uuidV7Bytes (UInt64.ofNat nowMs.toNat) random))

inductive IdScheme
  | uuid4 | uuid7

def generateId (scheme : IdScheme) (nowMs : Int) (random : UuidBytes) : Except Exn String :=
  match scheme with
  | .uuid4 => .ok (uuidV4 random)
  | .uuid7 => uuidV7 nowMs random

/-! ## Reading the time -/

def hexValue (c : Char) : Nat := hexAlphabet.idxOf c

/-- The first twelve digits of an id as a number. -/
def timestampOf (id : String) : Nat :=
  readDigits 16 (((id.toList.filter (· != '-')).take 12).map hexValue)

theorem forall_byte {P : UInt8 → Prop} (h : ∀ n, n < 256 → P (UInt8.ofNat n)) (byte : UInt8) :
    P byte := by
  have hbyte := h byte.toNat byte.toNat_lt
  rwa [UInt8.ofNat_toNat] at hbyte

/-- What the digits of a byte are, and those of a stamped byte. -/
theorem byte_digits (byte : UInt8) : isHexDigit (hexChar byte) = true ∧ hexChar byte ≠ '-' ∧
    byteDigits byte =
      [hexChar (UInt8.ofNat (byte.toNat / 16)), hexChar (UInt8.ofNat (byte.toNat % 16))] ∧
    (byteDigits byte).map hexValue = [byte.toNat / 16, byte.toNat % 16] ∧
    hexChar ((byte &&& 0x0F ||| 0x40) >>> 4) = '4' ∧ hexChar ((byte &&& 0x0F ||| 0x70) >>> 4) = '7' ∧
    hexChar ((byte &&& 0x3F ||| 0x80) >>> 4) ∈ ['8', '9', 'a', 'b'] := by
  revert byte
  apply forall_byte
  decide +kernel

theorem isHexDigit_hexChar (nibble : UInt8) : isHexDigit (hexChar nibble) = true :=
  (byte_digits nibble).1

theorem hexChar_ne_hyphen (nibble : UInt8) : hexChar nibble ≠ '-' := (byte_digits nibble).2.1

theorem hexChar_lt {n m : Nat} (h : n < m) (hm : m < 16) :
    hexChar (UInt8.ofNat n) < hexChar (UInt8.ofNat m) :=
  (by decide : ∀ m < 16, ∀ n < m, hexChar (UInt8.ofNat n) < hexChar (UInt8.ofNat m)) m hm n h

theorem byteDigits_eq (byte : UInt8) : byteDigits byte =
    [hexChar (UInt8.ofNat (byte.toNat / 16)), hexChar (UInt8.ofNat (byte.toNat % 16))] :=
  (byte_digits byte).2.2.1

theorem byteDigits_value (byte : UInt8) :
    (byteDigits byte).map hexValue = [byte.toNat / 16, byte.toNat % 16] :=
  (byte_digits byte).2.2.2.1

theorem byteDigits_lt {byte byte' : UInt8} (h : byte < byte') : byteDigits byte < byteDigits byte' := by
  have hlt : byte.toNat < byte'.toNat := UInt8.lt_iff_toNat_lt.mp h
  have hbyte := byte'.toNat_lt
  rw [byteDigits_eq, byteDigits_eq, List.cons_lt_cons_iff]
  by_cases hhigh : byte.toNat / 16 = byte'.toNat / 16
  · refine .inr ⟨congrArg (fun n => hexChar (UInt8.ofNat n)) hhigh, ?_⟩
    rw [List.cons_lt_cons_iff]
    exact .inl (hexChar_lt (by omega) (by omega))
  · exact .inl (hexChar_lt (by omega) (by omega))

/-- The digits of an id are those of its bytes. -/
theorem digits_formatByte (bytes : List UInt8) (start : Nat) :
    ((bytes.zipIdx start).flatMap formatByte).filter (· != '-') = bytes.flatMap byteDigits := by
  induction bytes generalizing start with
  | nil => rfl
  | cons byte bytes ih =>
    have hdigits : (byteDigits byte).filter (· != '-') = byteDigits byte := by
      apply List.filter_eq_self.mpr
      simp [byteDigits, hexChar_ne_hyphen]
    have hhyphen : ∀ p : Prop, [Decidable p] → (if p then ['-'] else []).filter (· != '-') = [] := by
      intro p hp
      split <;> rfl
    rw [List.zipIdx_cons, List.flatMap_cons, List.flatMap_cons, List.filter_append, ih, formatByte,
      List.filter_append, hdigits, hhyphen, List.append_nil]

theorem formatByte_lt (byte byte' : UInt8) (index : Nat) (h : byte < byte') :
    formatByte (byte, index) < formatByte (byte', index) := by
  refine append_lt_append ?_ (byteDigits_lt h) _ _
  rfl

/-- Ids compare as their bytes. -/
theorem formatUuid_lt {bytes bytes' : UuidBytes} (h : bytes.toList < bytes'.toList) :
    formatUuid bytes < formatUuid bytes' := by
  rw [String.lt_iff_toList_lt, formatUuid, formatUuid, String.toList_ofList, String.toList_ofList]
  apply flatMap_zipIdx_lt (fun _ _ _ => rfl) formatByte_lt _ h
  rw [Vector.length_toList, Vector.length_toList]

/-! ## Validity -/

theorem uuidBytes_eq (bytes : UuidBytes) : bytes = #v[bytes[0], bytes[1], bytes[2], bytes[3], bytes[4],
    bytes[5], bytes[6], bytes[7], bytes[8], bytes[9], bytes[10], bytes[11], bytes[12], bytes[13],
    bytes[14], bytes[15]] := by
  ext i hi
  interval_cases i <;> rfl

/-- The version is the first digit of the seventh byte, and the first digit of the ninth byte tells
the variant. -/
theorem isValidUuid_formatUuid {bytes : UuidBytes}
    (hversion : hexChar (bytes[6] >>> 4) ∈ ['4', '7'])
    (hvariant : hexChar (bytes[8] >>> 4) ∈ ['8', '9', 'a', 'b']) :
    isValidUuid (formatUuid bytes) = true := by
  rw [uuidBytes_eq bytes]
  generalize bytes[6] = version at hversion ⊢
  generalize bytes[8] = variant at hvariant ⊢
  simp only [List.mem_cons, List.not_mem_nil, or_false] at hversion hvariant
  simp only [formatUuid, isValidUuid, String.toList_ofList]
  simp [formatByte, byteDigits, isHexDigit_hexChar]
  refine ⟨hversion, ?_⟩
  tauto

/-- Ids with the bits of a version and of the variant set. -/
theorem stamped_valid (bytes : UuidBytes) (low low' : UInt8) {version : UInt8}
    (h : version = 0x40 ∨ version = 0x70) :
    isValidUuid (formatUuid ((bytes.set 6 (low &&& 0x0F ||| version)).set 8
      (low' &&& 0x3F ||| 0x80))) = true := by
  have hversion : ∀ byte : UInt8, hexChar ((byte &&& 0x0F ||| 0x40) >>> 4) = '4' ∧
      hexChar ((byte &&& 0x0F ||| 0x70) >>> 4) = '7' :=
    fun byte => ⟨(byte_digits byte).2.2.2.2.1, (byte_digits byte).2.2.2.2.2.1⟩
  have hvariant : ∀ byte : UInt8, hexChar ((byte &&& 0x3F ||| 0x80) >>> 4) ∈ ['8', '9', 'a', 'b'] :=
    fun byte => (byte_digits byte).2.2.2.2.2.2
  apply isValidUuid_formatUuid
  · rw [Vector.getElem_set_ne _ _ (by decide), Vector.getElem_set_self]
    obtain rfl | rfl := h
    · simp [(hversion low).1]
    · simp [(hversion low).2]
  · rw [Vector.getElem_set_self]
    exact hvariant low'

theorem uuidV4_valid (random : UuidBytes) : isValidUuid (uuidV4 random) = true :=
  stamped_valid random _ _ (.inl rfl)

theorem uuidV7_valid (timestamp : UInt64) (random : UuidBytes) :
    isValidUuid (formatUuid (uuidV7Bytes timestamp random)) = true :=
  stamped_valid _ _ _ (.inr rfl)

theorem generateId_valid {scheme : IdScheme} {nowMs : Int} {random : UuidBytes} {id : String}
    (h : generateId scheme nowMs random = .ok id) : isValidUuid id = true := by
  cases scheme with
  | uuid4 =>
    cases h
    exact uuidV4_valid random
  | uuid7 =>
    change uuidV7 nowMs random = .ok id at h
    rw [uuidV7] at h
    split at h
    · cases h
    · cases h
      exact uuidV7_valid _ random

/-! ## Ids in the order of time -/

/-- The bytes that hold the time, the most significant one first. -/
def timeBytes (timestamp : UInt64) : List UInt8 :=
  [((timestamp >>> 40) &&& 0xFF).toUInt8, ((timestamp >>> 32) &&& 0xFF).toUInt8,
    ((timestamp >>> 24) &&& 0xFF).toUInt8, ((timestamp >>> 16) &&& 0xFF).toUInt8,
    ((timestamp >>> 8) &&& 0xFF).toUInt8, (timestamp &&& 0xFF).toUInt8]

theorem timeBytes_digits (timestamp : UInt64) :
    (timeBytes timestamp).map UInt8.toNat = fixedDigits 256 6 timestamp.toNat := by
  simp [timeBytes, fixedDigits, Nat.shiftRight_eq_div_pow, Nat.and_two_pow_sub_one_eq_mod _ 8]

theorem uuidV7Bytes_toList (timestamp : UInt64) (random : UuidBytes) :
    ∃ tail, (uuidV7Bytes timestamp random).toList = timeBytes timestamp ++ tail := by
  rw [uuidBytes_eq (uuidV7Bytes timestamp random)]
  simp [uuidV7Bytes, timeBytes]

theorem map_toNat_lt {bytes bytes' : List UInt8} (h : bytes.map UInt8.toNat < bytes'.map UInt8.toNat) :
    bytes < bytes' := by
  induction bytes generalizing bytes' with
  | nil =>
    cases bytes' with
    | nil => exact absurd h (List.not_lt_nil _)
    | cons byte' bytes' => exact List.nil_lt_cons _ _
  | cons byte bytes ih =>
    cases bytes' with
    | nil => exact absurd h (List.not_lt_nil _)
    | cons byte' bytes' =>
      rw [List.map_cons, List.map_cons, List.cons_lt_cons_iff] at h
      rw [List.cons_lt_cons_iff, UInt8.lt_iff_toNat_lt, ← UInt8.toNat_inj]
      exact h.imp_right fun hrest => ⟨hrest.1, ih hrest.2⟩

theorem uuidV7Bytes_lt {timestamp timestamp' : UInt64} (ht : timestamp'.toNat < 2 ^ 48)
    (h : timestamp.toNat < timestamp'.toNat) (random random' : UuidBytes) :
    (uuidV7Bytes timestamp random).toList < (uuidV7Bytes timestamp' random').toList := by
  obtain ⟨tail, hbytes⟩ := uuidV7Bytes_toList timestamp random
  obtain ⟨tail', hbytes'⟩ := uuidV7Bytes_toList timestamp' random'
  rw [hbytes, hbytes']
  have htime : timeBytes timestamp < timeBytes timestamp' := by
    apply map_toNat_lt
    rw [timeBytes_digits, timeBytes_digits]
    exact fixedDigits_lt ht h
  refine append_lt_append ?_ htime tail tail'
  rfl

/-- The time is read back from an id. -/
theorem timestampOf_formatUuid (timestamp : UInt64) (random : UuidBytes) :
    timestampOf (formatUuid (uuidV7Bytes timestamp random)) = timestamp.toNat % 2 ^ 48 := by
  obtain ⟨tail, hbytes⟩ := uuidV7Bytes_toList timestamp random
  have htake : ((timeBytes timestamp).flatMap byteDigits ++ tail.flatMap byteDigits).take 12 =
      (timeBytes timestamp).flatMap byteDigits := List.take_left' rfl
  have hdigits : ((timeBytes timestamp).flatMap byteDigits).map hexValue =
      ((timeBytes timestamp).map UInt8.toNat).flatMap fun n => [n / 16, n % 16] := by
    rw [List.map_flatMap, List.flatMap_map]
    exact List.flatMap_congr fun byte _ => byteDigits_value byte
  rw [timestampOf, formatUuid, String.toList_ofList, digits_formatByte, hbytes, List.flatMap_append,
    htake, hdigits, readDigits_split, timeBytes_digits]
  exact readDigits_fixedDigits

theorem uuidV7_eq {t : Nat} (ht : t < 2 ^ 48) (random : UuidBytes) :
    uuidV7 t random = .ok (formatUuid (uuidV7Bytes (UInt64.ofNat t) random)) := by
  rw [uuidV7, if_neg (by omega), Int.toNat_natCast]

/-- Ids of version 7 are valid, order as their times do, and tell them. -/
theorem uuidV7_ordered {t t' : Nat} (h : t < t') (ht : t' < 2 ^ 48) (random random' : UuidBytes) :
    ∃ id id', uuidV7 t random = .ok id ∧ uuidV7 t' random' = .ok id' ∧
      isValidUuid id = true ∧ isValidUuid id' = true ∧ id ≠ id' ∧ id < id' ∧
      timestampOf id = t ∧ timestampOf id' = t' := by
  have hmod : ∀ n, n < 2 ^ 48 → (UInt64.ofNat n).toNat = n := by
    intro n hn
    apply UInt64.toNat_ofNat_of_lt'
    exact lt_trans hn (by decide)
  have hlt : formatUuid (uuidV7Bytes (UInt64.ofNat t) random) <
      formatUuid (uuidV7Bytes (UInt64.ofNat t') random') := by
    apply formatUuid_lt
    apply uuidV7Bytes_lt
    · rwa [hmod t' ht]
    · rwa [hmod t' ht, hmod t (h.trans ht)]
  refine ⟨_, _, uuidV7_eq (h.trans ht) random, uuidV7_eq ht random', uuidV7_valid _ _,
    uuidV7_valid _ _, hlt.ne, hlt, ?_, ?_⟩
  · rw [timestampOf_formatUuid, hmod t (h.trans ht), Nat.mod_eq_of_lt (h.trans ht)]
  · rw [timestampOf_formatUuid, hmod t' ht, Nat.mod_eq_of_lt ht]

/-- Two ids of successive milliseconds, the first with the greater random bytes. -/
theorem nextMillisecond_ordered : (0x0196A0000000 : Nat) < 0x0196A0000001 ∧
    (0x0196A0000001 : Nat) < 2 ^ 48 ∧
    ∃ id id', uuidV7 (0x0196A0000000 : Nat) (Vector.replicate 16 0xFF) = .ok id ∧
      uuidV7 (0x0196A0000001 : Nat) (Vector.replicate 16 0x00) = .ok id' ∧
      isValidUuid id = true ∧ isValidUuid id' = true ∧ id ≠ id' ∧ id < id' ∧
      timestampOf id = 0x0196A0000000 ∧ timestampOf id' = 0x0196A0000001 :=
  ⟨by decide, by decide, uuidV7_ordered (by decide) (by decide) _ _⟩

end HolderCore
