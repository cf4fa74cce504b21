import HolderCore.Card.Types
import HolderCore.Library.Digits
import HolderCore.Library.Frames

/-! # Signatures for SSH

`git/EcdsaDerSigningCredentialProvider.cpp` turns the DER form of an ECDSA signature into the two
`mpint`s of an SSH signature. OpenSSL's reading of the DER form and its bytes of a number are
parameters. -/

namespace HolderCore

structure OpenSsl where
  /-- `d2i_ECDSA_SIG` and `ECDSA_SIG_get0`. -/
  d2iEcdsaSig : Bytes → Option (Nat × Nat)
  /-- `BN_bn2bin`, which writes `BN_num_bytes` bytes. -/
  bnBn2bin : Nat → Bytes

/-- The bytes as the digits of a number. -/
def bytesValue (bytes : Bytes) : Nat := readDigits 256 (bytes.map Char.toNat)

/-- The bytes of a number are its shortest big-endian form, and those of a number that was decoded
are counted by an `int`. -/
structure OpenSsl.Lawful (ssl : OpenSsl) : Prop where
  bytes : ∀ n, ∀ c ∈ ssl.bnBn2bin n, c.toNat < 256
  value : ∀ n, bytesValue (ssl.bnBn2bin n) = n
  shortest : ∀ n, ∀ c ∈ (ssl.bnBn2bin n).head?, c.toNat ≠ 0
  counted : ∀ der r s, ssl.d2iEcdsaSig der = some (r, s) →
    (ssl.bnBn2bin r).length < 2 ^ 31 ∧ (ssl.bnBn2bin s).length < 2 ^ 31

def appendU32 (out : Bytes) (value : Nat) : Bytes := out ++ bigEndian32 value

def appendSshString (out data : Bytes) : Bytes := appendU32 out (data.length % 2 ^ 32) ++ data

/-- What is written of a number, with a zero byte before a byte whose high bit is set. -/
def mpintPayload (raw : Bytes) : Bytes :=
  if raw.head?.any (fun c => c.toNat &&& 0x80 != 0) then '\x00' :: raw else raw

section
variable (ssl : OpenSsl)

def appendMpintFromBn (out : Bytes) (bn : Nat) : Bytes :=
  appendSshString out (mpintPayload (ssl.bnBn2bin bn))

def derToSshWireSignature (der : Bytes) : Bytes :=
  match ssl.d2iEcdsaSig der with
  | none => []
  | some (r, s) => appendMpintFromBn ssl (appendMpintFromBn ssl [] r) s

/-- What the callback gives to libssh2, unless it fails. -/
def signTrampoline (signRaw : Bytes → Except Exn Bytes) (data : Bytes) : Option Bytes :=
  match signRaw data with
  | .error _ => none
  | .ok der =>
    if der.isEmpty then none
    else if (derToSshWireSignature ssl der).isEmpty then none
    else some (derToSshWireSignature ssl der)

end

/-! ## Reading `mpint`s -/

/-- A string: its length in four bytes, then its bytes. -/
def readSshString (input : Bytes) : Option (Bytes × Bytes) :=
  match readBigEndian32 input with
  | none => none
  | some (length, rest) =>
    if length ≤ rest.length then some (rest.take length, rest.drop length) else none

/-- The number of a payload in two's complement. -/
def mpintValue (payload : Bytes) : Int :=
  if payload.head?.any (fun c => 0x80 ≤ c.toNat) then bytesValue payload - 256 ^ payload.length
  else bytesValue payload

def readMpint (input : Bytes) : Option (Int × Bytes) :=
  (readSshString input).map fun (payload, rest) => (mpintValue payload, rest)

/-- Two `mpint`s and what is left over. -/
def readMpints (input : Bytes) : Option (Int × Int × Bytes) := do
  let (r, rest) ← readMpint input
  let (s, rest) ← readMpint rest
  return (r, s, rest)

/-- No first byte of 0 or 255 that the sign does not need. -/
def ShortestMpint (payload : Bytes) : Prop :=
  ∀ c rest, payload = c :: rest → (c.toNat = 0 → ∃ d ∈ rest.head?, 0x80 ≤ d.toNat) ∧
    (c.toNat = 0xFF → ∃ d ∈ rest.head?, d.toNat < 0x80)

/-- The payload of a number that is not negative. -/
structure IsMpint (payload : Bytes) (n : Nat) : Prop where
  value : mpintValue payload = n
  positive : ∀ c ∈ payload.head?, c.toNat < 0x80
  shortest : ShortestMpint payload
  zero : payload = [] ↔ n = 0

theorem highBit_iff {n : Nat} (h : n < 256) : n &&& 0x80 ≠ 0 ↔ 0x80 ≤ n :=
  (by decide +kernel : ∀ n < 256, n &&& 0x80 ≠ 0 ↔ 0x80 ≤ n) n h

@[simp] theorem readSshString_append {data : Bytes} (h : data.length < 2 ^ 32) (rest : Bytes) :
    readSshString (appendSshString [] data ++ rest) = some (data, rest) := by
  rw [appendSshString, appendU32, List.nil_append, List.append_assoc, readSshString,
    readBigEndian32_append, Nat.mod_mod, Nat.mod_eq_of_lt h]
  simp

theorem readMpint_eq {input payload rest : Bytes} {n : Nat}
    (hread : readSshString input = some (payload, rest)) (h : IsMpint payload n) :
    readMpint input = some ((n : Int), rest) := by
  rw [readMpint, hread, ← h.value]
  rfl

theorem appendSshString_append (out data : Bytes) :
    appendSshString out data = out ++ appendSshString [] data := by
  simp [appendSshString, appendU32]

theorem bytesValue_cons (c : Char) (bytes : Bytes) :
    bytesValue (c :: bytes) = c.toNat * 256 ^ bytes.length + bytesValue bytes := by
  rw [bytesValue, List.map_cons, readDigits_cons, List.length_map, bytesValue]

section
variable {ssl : OpenSsl}

/-- The bytes of a number begin with one that is not zero, so they are none for zero only. -/
theorem OpenSsl.Lawful.nil_iff (h : ssl.Lawful) (n : Nat) : ssl.bnBn2bin n = [] ↔ n = 0 := by
  have hvalue := h.value n
  constructor
  · intro hnil
    rw [hnil] at hvalue
    exact hvalue.symm
  · intro hzero
    cases hbytes : ssl.bnBn2bin n with
    | nil => rfl
    | cons c bytes =>
      have hc : c.toNat ≠ 0 := h.shortest n c (by rw [hbytes]; rfl)
      rw [hbytes, bytesValue_cons, hzero] at hvalue
      have hpos : 0 < c.toNat * 256 ^ bytes.length := by positivity
      omega

theorem mpintPayload_isMpint (h : ssl.Lawful) (n : Nat) : IsMpint (mpintPayload (ssl.bnBn2bin n)) n := by
  have hvalue := h.value n
  have hnil := h.nil_iff n
  have hfirst := h.shortest n
  have hbyte := h.bytes n
  revert hvalue hnil hfirst hbyte
  generalize ssl.bnBn2bin n = raw
  intro hvalue hnil hfirst hbyte
  cases raw with
  | nil =>
    refine ⟨?_, nofun, nofun, hnil⟩
    rw [← hvalue]
    rfl
  | cons c bytes =>
    have hc : c.toNat ≠ 0 := hfirst c rfl
    have hhigh := highBit_iff (hbyte c List.mem_cons_self)
    rw [mpintPayload]
    by_cases hbit : 0x80 ≤ c.toNat
    · -- The zero byte keeps the number from being read as negative.
      rw [if_pos (by simpa using hhigh.mpr hbit)]
      refine ⟨?_, ?_, ?_, ?_⟩
      · rw [mpintValue, if_neg (by simp), bytesValue_cons, hvalue]
        simp
      · intro d hd
        cases hd
        decide
      · intro d rest he
        cases he
        exact ⟨fun _ => ⟨c, rfl, hbit⟩, fun h0 => by simp at h0⟩
      · exact iff_of_false (List.cons_ne_nil _ _) (mt hnil.mpr (List.cons_ne_nil _ _))
    · rw [if_neg (by simpa using mt hhigh.mp hbit)]
      refine ⟨?_, ?_, ?_, hnil⟩
      · rw [mpintValue, if_neg (by simpa using hbit), hvalue]
      · intro d hd
        cases hd
        omega
      · intro d rest he
        cases he
        exact ⟨fun h0 => absurd h0 hc, fun h0 => by omega⟩

theorem length_mpintPayload (raw : Bytes) : (mpintPayload raw).length ≤ raw.length + 1 := by
  rw [mpintPayload]
  split <;> simp

/-- The wire form of a signature is read as its two numbers, each as short as it can be and none of
them negative, and nothing is left over. -/
theorem derToSshWireSignature_reads (h : ssl.Lawful) {der : Bytes} {r s : Nat}
    (hder : ssl.d2iEcdsaSig der = some (r, s)) :
    readMpints (derToSshWireSignature ssl der) = some ((r : Int), (s : Int), []) ∧
      ∃ payload payload' rest, readSshString (derToSshWireSignature ssl der) = some (payload, rest) ∧
        readSshString rest = some (payload', []) ∧ IsMpint payload r ∧ IsMpint payload' s := by
  have hr := mpintPayload_isMpint h r
  have hs := mpintPayload_isMpint h s
  obtain ⟨hlenr, hlens⟩ := h.counted der r s hder
  have hread := readSshString_append (lt_of_le_of_lt (length_mpintPayload (ssl.bnBn2bin r)) (by omega))
    (appendSshString [] (mpintPayload (ssl.bnBn2bin s)))
  have hread' := readSshString_append
    (lt_of_le_of_lt (length_mpintPayload (ssl.bnBn2bin s)) (by omega)) []
  rw [List.append_nil] at hread'
  have hwire : derToSshWireSignature ssl der = appendSshString [] (mpintPayload (ssl.bnBn2bin r)) ++
      appendSshString [] (mpintPayload (ssl.bnBn2bin s)) := by
    rw [derToSshWireSignature, hder, ← appendSshString_append]
    rfl
  rw [hwire]
  refine ⟨?_, _, _, _, hread, hread', hr, hs⟩
  rw [readMpints, readMpint_eq hread hr]
  change (readMpint _ >>= _) = _
  rw [readMpint_eq hread' hs]
  rfl

/-- What libssh2 is given is the wire form of a signature that OpenSSL decodes. -/
theorem signTrampoline_some_iff {signRaw : Bytes → Except Exn Bytes} {data wire : Bytes} :
    signTrampoline ssl signRaw data = some wire ↔ ∃ der r s, signRaw data = .ok der ∧ der ≠ [] ∧
      ssl.d2iEcdsaSig der = some (r, s) ∧ wire = derToSshWireSignature ssl der := by
  rw [signTrampoline]
  cases signRaw data with
  | error e => simp
  | ok der =>
    have hwire : derToSshWireSignature ssl der = [] ↔ ssl.d2iEcdsaSig der = none := by
      rw [derToSshWireSignature]
      cases ssl.d2iEcdsaSig der with
      | none => simp
      | some signature => simp [appendMpintFromBn, appendSshString, appendU32, bigEndian32]
    cases hder : ssl.d2iEcdsaSig der with
    | none => simp [hder, hwire.mpr hder]
    | some signature =>
      have hne : derToSshWireSignature ssl der ≠ [] := mt hwire.mp (by simp [hder])
      have hempty : (derToSshWireSignature ssl der).isEmpty = false := List.isEmpty_eq_false_iff.mpr hne
      dsimp only
      rw [hempty]
      cases der with
      | nil => simp
      | cons c der =>
        constructor
        · intro he
          exact ⟨_, _, _, rfl, List.cons_ne_nil _ _, hder, (Option.some.inj he).symm⟩
        · rintro ⟨der', r, s, he, -, -, rfl⟩
          cases he
          rfl

end

/-- The shortest bytes of every number, and one signature in DER form. -/
def oneSignature : OpenSsl where
  d2iEcdsaSig der :=
    if der.map Char.toNat = [0x30, 0x07, 0x02, 0x02, 0x00, 0x80, 0x02, 0x01, 0x01] then some (128, 1)
    else none
  bnBn2bin n := (Nat.digits 256 n).reverse.map Char.ofNat

theorem oneSignature_digits (n : Nat) :
    (oneSignature.bnBn2bin n).map Char.toNat = (Nat.digits 256 n).reverse := by
  rw [oneSignature, List.map_map]
  conv_rhs => rw [← List.map_id (Nat.digits 256 n).reverse]
  apply List.map_congr_left
  intro d hd
  exact toNat_byte (Nat.digits_lt_base (by decide) (List.mem_reverse.mp hd))

theorem oneSignature_lawful : oneSignature.Lawful where
  bytes n c hc := by
    have hmem := List.mem_map_of_mem (f := Char.toNat) hc
    rw [oneSignature_digits] at hmem
    exact Nat.digits_lt_base (by decide) (List.mem_reverse.mp hmem)
  value n := by
    rw [bytesValue, oneSignature_digits, readDigits, List.reverse_reverse, Nat.ofDigits_digits]
  shortest n c hc := by
    have hhead := congrArg List.head? (oneSignature_digits n)
    rw [List.head?_map, Option.mem_def.mp hc, List.head?_reverse, Option.map_some] at hhead
    have hn : n ≠ 0 := by
      rintro rfl
      simp at hhead
    have hne : Nat.digits 256 n ≠ [] := Nat.digits_ne_nil_iff_ne_zero.mpr hn
    have hlast := Nat.getLast_digit_ne_zero 256 hn
    rw [List.getLast?_eq_getLast_of_ne_nil hne, Option.some.injEq] at hhead
    rwa [hhead]
  counted der r s h := by
    have hrs : (r, s) = (128, 1) := by
      rw [oneSignature] at h
      dsimp only at h
      split at h
      · exact (Option.some.inj h).symm
      · cases h
    cases hrs
    decide +kernel

/-- The first number needs a zero byte before its only byte, the second does not. -/
theorem oneSignature_reads :
    let der : Bytes := [0x30, 0x07, 0x02, 0x02, 0x00, 0x80, 0x02, 0x01, 0x01].map Char.ofNat
    oneSignature.d2iEcdsaSig der = some (128, 1) ∧
      readMpints (derToSshWireSignature oneSignature der) = some (128, 1, []) := by
  have hder : oneSignature.d2iEcdsaSig
      ([0x30, 0x07, 0x02, 0x02, 0x00, 0x80, 0x02, 0x01, 0x01].map Char.ofNat) = some (128, 1) := by
    decide +kernel
  exact ⟨hder, (derToSshWireSignature_reads oneSignature_lawful hder).1⟩

end HolderCore
