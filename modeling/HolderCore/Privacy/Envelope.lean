import HolderCore.Card.Types
import HolderCore.Library.Lines
import HolderCore.Library.Utf8

/-! # Text envelopes

`privacy/CryptoService.cpp`: an envelope is a magic line, a line of JSON metadata and a line of base64.
The cipher, base64 and the JSON library are parameters. -/

namespace HolderCore

inductive PrivacyErrorCode where
  | keyMaterialMissing | keyringUnavailable | recoveryTokenInvalid | envelopeInvalid
  | envelopeMetadataMismatch | cryptMetadataMissing | encryptionSafetyCheckFailed | privacyCryptoFailed
deriving DecidableEq, Repr

/-- What the service throws: an error of its own, or one of the JSON library. -/
inductive CryptoExn where
  | privacy (code : PrivacyErrorCode) (message : String)
  | json
deriving DecidableEq, Repr

/-- `nlohmann::json`, with the keys of an object in their order. -/
inductive Json where
  | null
  | bool (value : Bool)
  | int (value : Int)
  | real (value : ℚ)
  | string (value : String)
  | array (items : List Json)
  | object (entries : List (String × Json))

namespace Json

def isObject : Json → Bool
  | .object _ => true
  | _ => false

/-- `at(key)`; nothing when the key is missing. -/
def at? (key : String) : Json → Option Json
  | .object entries => (entries.find? (·.1 == key)).map (·.2)
  | _ => none

/-- `get<int>()`: numbers and truth values, in 32 bits. -/
def getInt : Json → Except CryptoExn Int
  | .int value => .ok (value.bmod (2 ^ 32))
  | .real value => .ok ((value.num.tdiv value.den).bmod (2 ^ 32))
  | .bool value => .ok (if value then 1 else 0)
  | _ => .error .json

def getString : Json → Except CryptoExn String
  | .string value => .ok value
  | _ => .error .json

end Json

/-- `std::array<unsigned char, kPrivacyKeyBytes>`. -/
abbrev PrivacyKey := { key : Bytes // key.length = 32 }

/-- The random vector of a message. -/
abbrev MessageIv := { iv : Bytes // iv.length = 24 }

/-- The libraries. Decryption, base64 decoding and parsing give nothing where they fail, and so does the
dump of a string that is no UTF-8. -/
structure EnvelopeCrypto where
  aeadEncrypt : (plaintext : Bytes) → MessageIv → PrivacyKey → Bytes
  aeadDecrypt : (ciphertext : Bytes) → MessageIv → PrivacyKey → Option Bytes
  toBase64 : Bytes → Bytes
  ofBase64 : Bytes → Option Bytes
  dump : Json → Option Bytes
  parse : Bytes → Option Json

structure EnvelopeParts where
  keyId : String
  ivB64 : Bytes
  ciphertextB64 : Bytes

def envelopeInvalid (message : String) : Except CryptoExn α :=
  .error (.privacy .envelopeInvalid message)

section
variable (crypto : EnvelopeCrypto)

def b64Decode (text : Bytes) : Except CryptoExn Bytes :=
  match crypto.ofBase64 text with
  | some bytes => .ok bytes
  | none => envelopeInvalid "invalid base64 in privacy envelope"

/-- The metadata and ciphertext lines of an envelope. -/
def envelopeLines (envelope : Bytes) : Except CryptoExn (Bytes × Bytes) :=
  match getline envelope with
  | none => envelopeInvalid "invalid privacy envelope magic"
  | some (magic, rest) =>
    if stripTrailingCarriageReturn magic ≠ "HolderPriv1".toList then
      envelopeInvalid "invalid privacy envelope magic"
    else
      match getline rest with
      | none => envelopeInvalid "privacy envelope metadata missing"
      | some (metaLine, rest) =>
        match getline rest with
        | none => envelopeInvalid "privacy envelope ciphertext missing"
        | some (cipherLine, _) =>
          .ok (stripTrailingCarriageReturn metaLine, stripTrailingCarriageReturn cipherLine)

/-- The metadata, once parsed: the key id and the vector. -/
def readEnvelopeMeta (metadata : Json) : Except CryptoExn (String × String) := do
  if !metadata.isObject then envelopeInvalid "privacy envelope metadata is not an object"
  match metadata.at? "version" with
  | none => envelopeInvalid "unsupported privacy envelope version"
  | some version =>
    if (← version.getInt) ≠ 1 then envelopeInvalid "unsupported privacy envelope version"
    match metadata.at? "cipher" with
    | none => envelopeInvalid "unsupported privacy envelope cipher"
    | some cipher =>
      if (← cipher.getString) ≠ "xchacha20poly1305" then
        envelopeInvalid "unsupported privacy envelope cipher"
      match metadata.at? "key_id", metadata.at? "iv_b64" with
      | some keyId, some iv => return (← keyId.getString, ← iv.getString)
      | _, _ => envelopeInvalid "privacy envelope missing key_id or iv_b64"

def parseEnvelope (envelope : Bytes) : Except CryptoExn EnvelopeParts := do
  let (metaLine, cipherLine) ← envelopeLines envelope
  match crypto.parse metaLine with
  | none => throw .json
  | some metadata =>
    let (keyId, iv) ← readEnvelopeMeta metadata
    return { keyId, ivB64 := iv.toList, ciphertextB64 := cipherLine }

def envelopeMeta (keyId : String) (ivB64 : Bytes) : Json := .object [
  ("cipher", .string "xchacha20poly1305"),
  ("iv_b64", .string (String.ofList ivB64)),
  ("key_id", .string keyId),
  ("version", .int 1)]

/-- `encrypt_envelope_v1` with the random vector that it draws. -/
def encryptEnvelopeV1 (iv : MessageIv) (plaintext : Bytes) (key : PrivacyKey) (keyId : String) :
    Except CryptoExn Bytes :=
  if keyId.isEmpty then envelopeInvalid "privacy key_id must not be empty"
  else
    match crypto.dump (envelopeMeta keyId (crypto.toBase64 iv.1)) with
    | none => .error .json
    | some metaLine => .ok ("HolderPriv1".toList ++ '\n' :: (metaLine ++ '\n' ::
        (crypto.toBase64 (crypto.aeadEncrypt plaintext iv key) ++ '\n' :: [])))

def decryptEnvelopeV1 (envelope : Bytes) (key : PrivacyKey) (expectedKeyId : String) :
    Except CryptoExn Bytes := do
  let parts ← parseEnvelope crypto envelope
  if !expectedKeyId.isEmpty && parts.keyId != expectedKeyId then
    throw (.privacy .envelopeMetadataMismatch "privacy envelope key_id mismatch")
  let iv ← b64Decode crypto parts.ivB64
  if h : iv.length = 24 then
    let ciphertext ← b64Decode crypto parts.ciphertextB64
    if ciphertext.length < 16 then envelopeInvalid "privacy envelope ciphertext is too short"
    match crypto.aeadDecrypt ciphertext ⟨iv, h⟩ key with
    | some plaintext => return plaintext
    | none => envelopeInvalid "privacy envelope authentication failed"
  else envelopeInvalid "privacy envelope iv length is invalid"

end

/-- What the service relies on: each library reads what it wrote, the tag of a ciphertext has 16 bytes,
base64 is one line of ASCII, and dumped metadata are one line of text. -/
structure EnvelopeCrypto.Lawful (crypto : EnvelopeCrypto) : Prop where
  decrypt_encrypt : ∀ plaintext iv key,
    crypto.aeadDecrypt (crypto.aeadEncrypt plaintext iv key) iv key = some plaintext
  length_encrypt : ∀ plaintext iv key,
    (crypto.aeadEncrypt plaintext iv key).length = plaintext.length + 16
  ofBase64_toBase64 : ∀ bytes, crypto.ofBase64 (crypto.toBase64 bytes) = some bytes
  base64_line : ∀ bytes, ∀ c ∈ crypto.toBase64 bytes, c.toNat < 128 ∧ c ≠ '\n' ∧ c ≠ '\r'
  parse_dump : ∀ keyId ivB64, ValidUtf8 keyId.toList → ValidUtf8 ivB64 →
    ∃ line, crypto.dump (envelopeMeta keyId ivB64) = some line ∧ '\n' ∉ line ∧ '\r' ∉ line ∧
      crypto.parse line = some (envelopeMeta keyId ivB64)

section
variable {crypto : EnvelopeCrypto}

theorem readEnvelopeMeta_envelopeMeta (keyId : String) (ivB64 : Bytes) :
    readEnvelopeMeta (envelopeMeta keyId ivB64) = .ok (keyId, String.ofList ivB64) := by
  simp [readEnvelopeMeta, envelopeMeta, Json.isObject, Json.at?, Json.getInt, Json.getString, bind,
    Except.bind, pure, Except.pure]

theorem envelopeLines_converted {metaLine cipherLine converted : Bytes}
    (hmeta : '\n' ∉ metaLine ∧ '\r' ∉ metaLine) (hcipher : '\n' ∉ cipherLine ∧ '\r' ∉ cipherLine)
    (h : SomeCrlf ("HolderPriv1".toList ++ '\n' :: (metaLine ++ '\n' :: (cipherLine ++ '\n' :: [])))
      converted) : envelopeLines converted = .ok (metaLine, cipherLine) := by
  obtain ⟨magic, rest, hmagic, hmagicLine, h⟩ := h.getline (by decide) (by decide)
  obtain ⟨line, rest', hline, hmetaLine, h⟩ := h.getline hmeta.1 hmeta.2
  obtain ⟨last, rest'', hlast, hcipherLine, -⟩ := h.getline hcipher.1 hcipher.2
  unfold envelopeLines
  simp only [hmagic, hmagicLine, hline, hlast, hmetaLine, hcipherLine, ne_eq, not_true_eq_false, if_false]

/-- What decryption under any key gives for an envelope, also with some of its line feeds converted. -/
theorem encryptEnvelopeV1_read (h : crypto.Lawful) (iv : MessageIv) (plaintext : Bytes) (key : PrivacyKey)
    {keyId : String} (hne : keyId ≠ "") (hutf8 : ValidUtf8 keyId.toList) :
    ∃ metaLine envelope, crypto.dump (envelopeMeta keyId (crypto.toBase64 iv.1)) = some metaLine ∧
      envelope = "HolderPriv1".toList ++ '\n' :: (metaLine ++ '\n' ::
        (crypto.toBase64 (crypto.aeadEncrypt plaintext iv key) ++ '\n' :: [])) ∧
      encryptEnvelopeV1 crypto iv plaintext key keyId = .ok envelope ∧
      ∀ converted, SomeCrlf envelope converted →
        ∀ key', decryptEnvelopeV1 crypto converted key' keyId =
          (crypto.aeadDecrypt (crypto.aeadEncrypt plaintext iv key) iv key').elim
            (envelopeInvalid "privacy envelope authentication failed") .ok := by
  obtain ⟨metaLine, hdump, hfeed, hreturn, hparse⟩ := h.parse_dump keyId (crypto.toBase64 iv.1) hutf8
    (validUtf8_of_ascii fun c hc => (h.base64_line _ c hc).1)
  have hcipher : '\n' ∉ crypto.toBase64 (crypto.aeadEncrypt plaintext iv key) ∧
      '\r' ∉ crypto.toBase64 (crypto.aeadEncrypt plaintext iv key) :=
    ⟨fun hc => (h.base64_line _ _ hc).2.1 rfl, fun hc => (h.base64_line _ _ hc).2.2 rfl⟩
  have hempty : keyId.isEmpty = false := by simpa [String.isEmpty_iff] using hne
  refine ⟨metaLine, _, hdump, rfl, ?_, fun converted hconverted key' => ?_⟩
  · simp only [encryptEnvelopeV1, hempty, Bool.false_eq_true, if_false, hdump]
  have hlines := envelopeLines_converted ⟨hfeed, hreturn⟩ hcipher hconverted
  have hparts : parseEnvelope crypto converted = .ok ⟨keyId, crypto.toBase64 iv.1,
      crypto.toBase64 (crypto.aeadEncrypt plaintext iv key)⟩ := by
    simp only [parseEnvelope, hlines, bind, Except.bind, hparse, readEnvelopeMeta_envelopeMeta,
      String.toList_ofList, pure, Except.pure]
  have hlong : ¬ (crypto.aeadEncrypt plaintext iv key).length < 16 := by
    rw [h.length_encrypt]
    omega
  unfold decryptEnvelopeV1
  simp only [hparts, bind, Except.bind, hempty, bne_self_eq_false, Bool.and_false, Bool.false_eq_true,
    if_false, b64Decode, h.ofBase64_toBase64, iv.2, dif_pos, hlong, pure, Except.pure]
  cases crypto.aeadDecrypt (crypto.aeadEncrypt plaintext iv key) iv key' <;> rfl

/-- An envelope is decrypted, also with some of its line feeds converted. -/
theorem decryptEnvelopeV1_converted (h : crypto.Lawful) (iv : MessageIv) (plaintext : Bytes)
    (key : PrivacyKey) {keyId : String} (hne : keyId ≠ "") (hutf8 : ValidUtf8 keyId.toList) :
    ∃ envelope, encryptEnvelopeV1 crypto iv plaintext key keyId = .ok envelope ∧
      ∀ converted, SomeCrlf envelope converted →
        decryptEnvelopeV1 crypto converted key keyId = .ok plaintext := by
  obtain ⟨-, envelope, -, -, hencrypt, hread⟩ := encryptEnvelopeV1_read h iv plaintext key hne hutf8
  refine ⟨envelope, hencrypt, fun converted hconverted => ?_⟩
  rw [hread converted hconverted key, h.decrypt_encrypt]
  rfl

end

/-! ## Libraries to run with -/

namespace PlainEnvelope

/-- A text in which quotes, backslashes and line ends are escaped, as a JSON string has them. -/
def escape : List Char → List Char
  | [] => []
  | c :: cs =>
    if c = '"' ∨ c = '\\' then '\\' :: c :: escape cs
    else if c = '\n' then '\\' :: 'n' :: escape cs
    else if c = '\r' then '\\' :: 'r' :: escape cs
    else c :: escape cs

/-- The text up to the closing quote, and what is behind the quote. -/
def unescape : List Char → Option (List Char × List Char)
  | [] => none
  | '"' :: rest => some ([], rest)
  | '\\' :: 'n' :: rest => (unescape rest).map fun (text, rest) => ('\n' :: text, rest)
  | '\\' :: 'r' :: rest => (unescape rest).map fun (text, rest) => ('\r' :: text, rest)
  | '\\' :: c :: rest => (unescape rest).map fun (text, rest) => (c :: text, rest)
  | c :: rest => (unescape rest).map fun (text, rest) => (c :: text, rest)

theorem unescape_escape (text rest : List Char) :
    unescape (escape text ++ '"' :: rest) = some (text, rest) := by
  induction text with
  | nil => rfl
  | cons c text ih =>
    rw [escape]
    split
    · next h =>
      rcases h with rfl | rfl <;> simp [unescape, ih]
    · next h =>
      rw [not_or] at h
      split
      · next hn => simp [unescape, ih, hn]
      · split
        · next hr => simp [unescape, ih, hr]
        · next hn hr => simp [unescape, ih, h.1, h.2]

theorem escape_line (text : List Char) : '\n' ∉ escape text ∧ '\r' ∉ escape text := by
  induction text with
  | nil => simp [escape]
  | cons c text ih =>
    rw [escape]
    split
    · next h => rcases h with rfl | rfl <;> simp [ih]
    · split
      · simp [ih]
      · split
        · simp [ih]
        · next hn hr => simp [ih, Ne.symm hn, Ne.symm hr]

/-- A quoted text behind a label. -/
def field (label : String) (text : List Char) : Option (List Char × List Char) :=
  if startsWith label text then unescape (text.drop label.length) else none

theorem field_append (label : String) (value rest : List Char) :
    field label (label.toList ++ (escape value ++ '"' :: rest)) = some (value, rest) := by
  have hstart : startsWith label (label.toList ++ (escape value ++ '"' :: rest)) = true := by
    simp [startsWith]
  have hdrop : (label.toList ++ (escape value ++ '"' :: rest)).drop label.length =
      escape value ++ '"' :: rest := by
    rw [← String.length_toList, List.drop_left]
  rw [field, if_pos hstart, hdrop, unescape_escape]

def cipherLabel : String := "\x7b\"cipher\":\""
def ivLabel : String := ",\"iv_b64\":\""
def keyIdLabel : String := ",\"key_id\":\""
def versionEnd : String := ",\"version\":1\x7d"

/-- The dump of metadata, and of nothing else. -/
def dump : Json → Option Bytes
  | .object [("cipher", .string cipher), ("iv_b64", .string iv), ("key_id", .string keyId),
      ("version", .int 1)] =>
    some (cipherLabel.toList ++ (escape cipher.toList ++ '"' :: (ivLabel.toList ++
      (escape iv.toList ++ '"' :: (keyIdLabel.toList ++ (escape keyId.toList ++ '"' ::
        versionEnd.toList))))))
  | _ => none

/-- Three quoted texts behind their labels, and an end. -/
def parseFields (label₁ label₂ label₃ ending : String) (text : Bytes) :
    Option (Bytes × Bytes × Bytes) := do
  let (value₁, text) ← field label₁ text
  let (value₂, text) ← field label₂ text
  let (value₃, text) ← field label₃ text
  if text = ending.toList then some (value₁, value₂, value₃) else none

theorem parseFields_append (label₁ label₂ label₃ ending : String) (value₁ value₂ value₃ : Bytes) :
    parseFields label₁ label₂ label₃ ending (label₁.toList ++ (escape value₁ ++ '"' ::
      (label₂.toList ++ (escape value₂ ++ '"' :: (label₃.toList ++ (escape value₃ ++ '"' ::
        ending.toList)))))) = some (value₁, value₂, value₃) := by
  simp only [parseFields, field_append, Option.bind_eq_bind, Option.bind_some, if_true]

def parse (text : Bytes) : Option Json :=
  (parseFields cipherLabel ivLabel keyIdLabel versionEnd text).map fun (cipher, iv, keyId) =>
    .object [("cipher", .string (String.ofList cipher)), ("iv_b64", .string (String.ofList iv)),
      ("key_id", .string (String.ofList keyId)), ("version", .int 1)]

/-- A text of `A` and `/` for base64: each byte is a run of `A`s. -/
def toRuns (bytes : Bytes) : Bytes := bytes.flatMap fun c => List.replicate c.toNat 'A' ++ ['/']

def ofRuns : (run : Nat) → Bytes → Option Bytes
  | _, [] => some []
  | run, 'A' :: cs => ofRuns (run + 1) cs
  | run, '/' :: cs => (ofRuns 0 cs).map (Char.ofNat run :: ·)
  | _, _ => none

theorem ofRuns_run (run n : Nat) (rest : Bytes) :
    ofRuns run (List.replicate n 'A' ++ '/' :: rest) =
      (ofRuns 0 rest).map (Char.ofNat (run + n) :: ·) := by
  induction n generalizing run with
  | zero => rfl
  | succ n ih =>
    rw [List.replicate_succ, List.cons_append, ofRuns, ih, Nat.add_right_comm, Nat.add_assoc]

theorem ofRuns_toRuns (bytes : Bytes) : ofRuns 0 (toRuns bytes) = some bytes := by
  induction bytes with
  | nil => rfl
  | cons c bytes ih =>
    have hcons : toRuns (c :: bytes) = List.replicate c.toNat 'A' ++ '/' :: toRuns bytes := by
      simp [toRuns]
    rw [hcons, ofRuns_run, ih, Nat.zero_add, Char.ofNat_toNat]
    rfl

theorem toRuns_chars (bytes : Bytes) {c : Char} (hc : c ∈ toRuns bytes) : c = 'A' ∨ c = '/' := by
  obtain ⟨d, -, hd⟩ := List.mem_flatMap.mp hc
  rcases List.mem_append.mp hd with hd | hd
  · exact .inl (List.eq_of_mem_replicate hd)
  · exact .inr (List.mem_singleton.mp hd)

theorem labels_line {label : String} (h : label ∈ [cipherLabel, ivLabel, keyIdLabel, versionEnd]) :
    '\n' ∉ label.toList ∧ '\r' ∉ label.toList := by
  have hall : label.toList.all (fun c => c != '\n' && c != '\r') = true := by
    simp only [List.mem_cons, List.not_mem_nil, or_false] at h
    rcases h with rfl | rfl | rfl | rfl <;> decide +kernel
  rw [List.all_eq_true] at hall
  refine ⟨fun hc => ?_, fun hc => ?_⟩ <;> simpa using hall _ hc

theorem dump_line (keyId : String) (ivB64 : Bytes) :
    ∃ line, dump (envelopeMeta keyId ivB64) = some line ∧ '\n' ∉ line ∧ '\r' ∉ line ∧
      parse line = some (envelopeMeta keyId ivB64) := by
  have hcipher : '\n' ∉ cipherLabel.toList ∧ '\r' ∉ cipherLabel.toList := labels_line (by simp)
  have hiv : '\n' ∉ ivLabel.toList ∧ '\r' ∉ ivLabel.toList := labels_line (by simp)
  have hkeyId : '\n' ∉ keyIdLabel.toList ∧ '\r' ∉ keyIdLabel.toList := labels_line (by simp)
  have hversion : '\n' ∉ versionEnd.toList ∧ '\r' ∉ versionEnd.toList := labels_line (by simp)
  have hdump : dump (envelopeMeta keyId ivB64) = some (cipherLabel.toList ++
      (escape "xchacha20poly1305".toList ++ '"' :: (ivLabel.toList ++
        (escape (String.ofList ivB64).toList ++ '"' :: (keyIdLabel.toList ++
          (escape keyId.toList ++ '"' :: versionEnd.toList)))))) := rfl
  refine ⟨_, hdump, ?_, ?_, ?_⟩
  · simp only [List.mem_append, List.mem_cons, not_or]
    exact ⟨hcipher.1, (escape_line _).1, by decide, hiv.1, (escape_line _).1, by decide, hkeyId.1,
      (escape_line _).1, by decide, hversion.1⟩
  · simp only [List.mem_append, List.mem_cons, not_or]
    exact ⟨hcipher.2, (escape_line _).2, by decide, hiv.2, (escape_line _).2, by decide, hkeyId.2,
      (escape_line _).2, by decide, hversion.2⟩
  · rw [parse, parseFields_append, Option.map_some]
    dsimp only
    rw [String.ofList_toList, String.ofList_toList, String.ofList_toList]
    rfl

end PlainEnvelope

/-- Libraries that hide nothing. -/
def plainEnvelope : EnvelopeCrypto where
  aeadEncrypt plaintext _ _ := plaintext ++ List.replicate 16 '0'
  aeadDecrypt ciphertext _ _ := some (ciphertext.take (ciphertext.length - 16))
  toBase64 := PlainEnvelope.toRuns
  ofBase64 := PlainEnvelope.ofRuns 0
  dump := PlainEnvelope.dump
  parse := PlainEnvelope.parse

theorem plainEnvelope_lawful : plainEnvelope.Lawful where
  decrypt_encrypt plaintext _ _ := by simp [plainEnvelope]
  length_encrypt plaintext _ _ := by simp [plainEnvelope]
  ofBase64_toBase64 := PlainEnvelope.ofRuns_toRuns
  base64_line bytes c hc := by
    rcases PlainEnvelope.toRuns_chars bytes hc with rfl | rfl <;> decide
  parse_dump keyId ivB64 _ _ := PlainEnvelope.dump_line keyId ivB64

/-- A key id with a quote and line ends in it. -/
def oddKeyId : String := "k\"\r\n"

theorem oddKeyId_converted : ∃ envelope,
    encryptEnvelopeV1 plainEnvelope ⟨List.replicate 24 '1', rfl⟩ "secret".toList
      ⟨List.replicate 32 '2', rfl⟩ oddKeyId = .ok envelope ∧
    ∀ converted, SomeCrlf envelope converted →
      decryptEnvelopeV1 plainEnvelope converted ⟨List.replicate 32 '2', rfl⟩ oddKeyId =
        .ok "secret".toList :=
  decryptEnvelopeV1_converted plainEnvelope_lawful _ _ _ (by decide)
    (validUtf8_of_ascii (by simp [oddKeyId]))

end HolderCore
