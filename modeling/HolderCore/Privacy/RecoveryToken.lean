import HolderCore.Library.Map
import HolderCore.Privacy.SecretStore

/-! # Project keys and recovery tokens

`privacy/ProjectPrivacy.cpp`: a device makes the key of a project, or takes it from a recovery token
of another device, in which the key is wrapped under a pin. -/

namespace HolderCore

/-- What these functions throw. -/
inductive PrivacyExn where
  | privacy (code : PrivacyErrorCode) (message : String)
  | json (e : JsonError)
  /-- The JSON library, on the metadata of an envelope. -/
  | envelopeJson
  | runtime (message : String)
deriving DecidableEq, Repr

/-- The row of a project, as far as its key and its tokens go. -/
structure KeyedProject where
  name : String
  gitRemoteUrl : Option String
  projectKeyId : Option String
  updatedAt : Int
deriving DecidableEq, Repr

/-- The platform's keyring, by the attributes of a project key, and the projects of a device. -/
structure Device where
  keyring : Map (List String) Bytes
  /-- What the keyring answers to a store that it refuses, and to a lookup that fails. -/
  refusal : List String → Option String
  failure : List String → Option String
  projects : Map String KeyedProject
  /-- How many random numbers were drawn. -/
  drawn : Nat

/-- The random numbers of a device. -/
structure Draws where
  uuid : Nat → String
  key : Nat → PrivacyKey
  salt : Nat → { salt : Bytes // salt.length = 16 }
  iv : Nat → MessageIv

/-- The libraries: JSON with the texts of its errors, the cipher, PBKDF2 and the base64 of OpenSSL,
whose decoder leaves zeros in the place of padding. -/
structure RecoveryLib (φ : Type) where
  json : JsonLibrary φ
  /-- `what()`; nothing stands for an error in the metadata of an envelope. -/
  jsonWhat : Option JsonError → String
  crypto : EnvelopeCrypto
  deriveWrapKey : (pin salt : Bytes) → (iterations : Int) → Option PrivacyKey
  encodeBlock : Bytes → Bytes
  decodeBlock : Bytes → Option Bytes

abbrev PrivacyM := EStateM PrivacyExn Device

variable {φ : Type}

namespace ProjectPrivacy

def ofCrypto (x : Except CryptoExn α) : Except PrivacyExn α :=
  match x with
  | .ok a => .ok a
  | .error (.privacy code message) => .error (.privacy code message)
  | .error .json => .error .envelopeJson

def ofJson (x : Except JsonError α) : Except PrivacyExn α :=
  match x with
  | .ok a => .ok a
  | .error e => .error (.json e)

section
variable (lib : RecoveryLib φ)

def what : PrivacyExn → String
  | .privacy _ message | .runtime message => message
  | .json e => lib.jsonWhat (some e)
  | .envelopeJson => lib.jsonWhat none

def b64Encode (data : Bytes) : Except PrivacyExn Bytes :=
  match lib.encodeBlock data with
  | [] => .error (.runtime "EVP_EncodeBlock failed")
  | text => .ok text

/-- The padding at the end of a base64 text. -/
def padding (text : Bytes) : Nat :=
  match text.reverse with
  | '=' :: '=' :: _ => 2
  | '=' :: _ => 1
  | _ => 0

def b64Decode (text : Bytes) : Except PrivacyExn Bytes :=
  match lib.decodeBlock text with
  | none => .error (.runtime "EVP_DecodeBlock failed")
  | some written =>
    if padding text ≤ written.length then .ok (written.take (written.length - padding text))
    else .error (.runtime "vector::_M_default_append")

def deriveWrapKey (pin : String) (salt : Bytes) (iterations : Int) : Except PrivacyExn PrivacyKey :=
  match lib.deriveWrapKey pin.toList salt iterations with
  | some key => .ok key
  | none => .error (.runtime "PKCS5_PBKDF2_HMAC failed")

/-! ## Keys of projects -/

def projectKeyRef (projectId keyId : String) : List String := [projectId, keyId]

def storeKeyMaterial (projectId keyId : String) (material : Bytes) : PrivacyM Unit := do
  match (← get).refusal (projectKeyRef projectId keyId) with
  | some message => throw (.privacy .keyringUnavailable message)
  | none => modify fun device => { device with
      keyring := device.keyring.insert (projectKeyRef projectId keyId) material }

def loadKeyMaterial (projectId keyId : String) : PrivacyM Bytes := do
  let device ← get
  match device.failure (projectKeyRef projectId keyId),
    device.keyring[projectKeyRef projectId keyId]? with
  | some message, _ => throw (.privacy .keyMaterialMissing message)
  | none, some material => return material
  | none, none =>
    throw (.privacy .keyMaterialMissing "project key material not found in platform keyring")

/-- `UPDATE projects SET … WHERE project_id = ?`. -/
def updateProject (projectId : String) (set : KeyedProject → KeyedProject) : PrivacyM Unit :=
  modify fun device => { device with
    projects := device.projects.put projectId (device.projects[projectId]?.map set) }

def updateProjectKeyId (projectId keyId : String) (updatedAt : Int) : PrivacyM Unit :=
  updateProject projectId fun row => { row with projectKeyId := some keyId, updatedAt }

def updateGitRemote (projectId remote : String) (updatedAt : Int) : PrivacyM Unit :=
  updateProject projectId fun row => { row with gitRemoteUrl := some remote, updatedAt }

def ensureProjectKeyMaterial (draws : Draws) (projectId : String) (projectKeyId : Option String)
    (updatedAt : Int) : PrivacyM String := do
  match projectKeyId.filter fun keyId => !keyId.isEmpty with
  | some keyId => return keyId
  | none =>
    let n := (← get).drawn
    modify fun device => { device with drawn := n + 1 }
    storeKeyMaterial projectId (draws.uuid n) (keyToBase64 lib.crypto (draws.key n))
    updateProjectKeyId projectId (draws.uuid n) updatedAt
    return draws.uuid n

/-- An exception of another kind is wrapped. -/
def blobFailure (doing : String) : PrivacyExn → PrivacyExn
  | .privacy code message => .privacy code message
  | e => .privacy .privacyCryptoFailed ("failed to " ++ doing ++ " project blob: " ++ what lib e)

def encryptProjectBlob (draws : Draws) (projectId keyId : String) (plaintext : Bytes) :
    PrivacyM Bytes :=
  tryCatch (do
    let material ← loadKeyMaterial projectId keyId
    let key ← fromExcept (ofCrypto (keyFromBase64 lib.crypto material))
    let n := (← get).drawn
    modify fun device => { device with drawn := n + 1 }
    fromExcept (ofCrypto (encryptEnvelopeV1 lib.crypto (draws.iv n) plaintext key keyId)))
  fun e => throw (blobFailure lib "encrypt" e)

def decryptProjectBlob (projectId keyId : String) (envelope : Bytes) : PrivacyM Bytes :=
  tryCatch (do
    let material ← loadKeyMaterial projectId keyId
    let key ← fromExcept (ofCrypto (keyFromBase64 lib.crypto material))
    fromExcept (ofCrypto (decryptEnvelopeV1 lib.crypto envelope key keyId)))
  fun e => throw (blobFailure lib "decrypt" e)

/-! ## Tokens -/

def recoveryTokenWrapKeyIdV1 : String := "holder-recovery-token-v1"

structure RecoveryTokenMetadata where
  projectId : String
  projectKeyId : String
  projectName : Option String
  gitRemoteUrl : Option String
deriving DecidableEq, Repr

structure DecryptedRecoveryTokenPayload where
  metadata : RecoveryTokenMetadata
  projectKeyMaterialB64 : String
deriving DecidableEq, Repr

def stringOrNull : Option String → JsonValue φ
  | some s => .string s
  | none => .null

def payloadJson (payload : DecryptedRecoveryTokenPayload) (exportedAt : Int) : JsonValue φ := .ofFields [
  ("project_id", .string payload.metadata.projectId),
  ("project_key_id", .string payload.metadata.projectKeyId),
  ("project_key_material_b64", .string payload.projectKeyMaterialB64),
  ("project_name", stringOrNull payload.metadata.projectName),
  ("git_remote_url", stringOrNull payload.metadata.gitRemoteUrl),
  ("exported_at", .integer exportedAt)]

def kdfIterations : Int := 210000

def tokenJson (salt wrapped : Bytes) : JsonValue φ := .ofFields [
  ("version", .integer 1),
  ("kdf", .ofFields [
    ("name", .string "PBKDF2-HMAC-SHA256"),
    ("iterations", .integer kdfIterations),
    ("salt_b64", .string (String.ofList salt))]),
  ("cipher", .ofFields [
    ("name", .string "holder-privacy-envelope-v1"),
    ("wrapped", .string (String.ofList wrapped))])]

def exportRecoveryToken (draws : Draws) (projectId keyId pin : String) (name remote : Option String)
    (exportedAt : Int) : PrivacyM Bytes := do
  if pin.isEmpty then throw (.runtime "pin must not be empty")
  let material ← loadKeyMaterial projectId keyId
  -- The shape of the key is checked before it is wrapped.
  let _ ← fromExcept (ofCrypto (keyFromBase64 lib.crypto material))
  let n := (← get).drawn
  modify fun device => { device with drawn := n + 1 }
  let wrapKey ← fromExcept (deriveWrapKey lib pin (draws.salt n).1 kdfIterations)
  let payload := ⟨⟨projectId, keyId, name, remote⟩, String.ofList material⟩
  let text ← fromExcept (ofJson (lib.json.dump 0 (payloadJson payload exportedAt)))
  let wrapped ← fromExcept (ofCrypto
    (encryptEnvelopeV1 lib.crypto (draws.iv n) text wrapKey recoveryTokenWrapKeyIdV1))
  let salt ← fromExcept (b64Encode lib (draws.salt n).1)
  fromExcept (ofJson (lib.json.dump 0 (tokenJson salt wrapped)))

/-- `contains(key) && !at(key).is_null()`, then `get<std::string>()`. -/
def optionalString (key : String) : JsonValue φ → Except JsonError (Option String)
  | .object fields =>
    match fields.lookup key with
    | none | some .null => .ok none
    | some value => value.getString.map some
  | _ => .ok none

/-- The payload of a token, once parsed. -/
def readRecoveryPayload (payload : JsonValue φ) : Except JsonError DecryptedRecoveryTokenPayload := do
  let projectId ← payload.member "project_id" >>= JsonValue.getString
  let projectKeyId ← payload.member "project_key_id" >>= JsonValue.getString
  let projectName ← optionalString "project_name" payload
  let gitRemoteUrl ← optionalString "git_remote_url" payload
  let material ← payload.member "project_key_material_b64" >>= JsonValue.getString
  return ⟨⟨projectId, projectKeyId, projectName, gitRemoteUrl⟩, material⟩

def decryptRecoveryPayload (pin : String) (token : Bytes) :
    Except PrivacyExn DecryptedRecoveryTokenPayload := do
  if pin.isEmpty then throw (.runtime "pin must not be empty")
  let token ← ofJson (lib.json.parse token)
  let version := token.member "version"
  if !(version matches .ok _) then throw (.runtime "unsupported recovery token version")
  if (← ofJson (version >>= lib.json.getInteger 32)) ≠ 1 then
    throw (.runtime "unsupported recovery token version")
  let kdf ← ofJson (token.member "kdf")
  let iterations ← ofJson (kdf.member "iterations" >>= lib.json.getInteger 32)
  let salt ← b64Decode lib (← ofJson (kdf.member "salt_b64" >>= JsonValue.getString)).toList
  let wrapKey ← deriveWrapKey lib pin salt iterations
  let cipher ← ofJson (token.member "cipher")
  let wrapped ← ofJson (cipher.member "wrapped" >>= JsonValue.getString)
  let text ← ofCrypto (decryptEnvelopeV1 lib.crypto wrapped.toList wrapKey recoveryTokenWrapKeyIdV1)
  ofJson (lib.json.parse text >>= readRecoveryPayload)

/-- What a caller of an import or an inspection gets for an exception. -/
def invalidRecoveryToken : PrivacyExn → PrivacyExn
  | .privacy code message =>
    if code = .envelopeInvalid ∨ code = .envelopeMetadataMismatch ∨ code = .privacyCryptoFailed then
      .privacy .recoveryTokenInvalid ("invalid recovery token: " ++ message)
    else .privacy code message
  | e => .privacy .recoveryTokenInvalid ("invalid recovery token: " ++ what lib e)

def importRecoveryToken (projectId pin : String) (token : Bytes) (updatedAt : Int) : PrivacyM Unit :=
  tryCatch (do
    let payload ← fromExcept (decryptRecoveryPayload lib pin token)
    if payload.metadata.projectId ≠ projectId then
      throw (.runtime "recovery token project_id mismatch")
    -- The shape of the key is checked before it is stored.
    let material := payload.projectKeyMaterialB64.toList
    let _ ← fromExcept (ofCrypto (keyFromBase64 lib.crypto material))
    storeKeyMaterial projectId payload.metadata.projectKeyId material
    updateProjectKeyId projectId payload.metadata.projectKeyId updatedAt
    match payload.metadata.gitRemoteUrl.filter fun remote => !remote.isEmpty with
    | some remote => updateGitRemote projectId remote updatedAt
    | none => return)
  fun e => throw (invalidRecoveryToken lib e)

end

end ProjectPrivacy

/-! ## What a token holds -/

/-- A token on its way, with what it was made of. -/
structure SentToken where
  projectId : String
  keyId : String
  pin : String
  text : Bytes

open ProjectPrivacy
open JsonLibrary (Text)

/-- What the devices rely on. Decryption of a ciphertext under another key fails or gives the plaintext
that was encrypted. -/
structure RecoveryLib.Lawful (lib : RecoveryLib φ) : Prop where
  json : lib.json.Lossless
  crypto : lib.crypto.Lawful
  authentic : ∀ plaintext iv key key' plaintext', lib.crypto.aeadDecrypt
    (lib.crypto.aeadEncrypt plaintext iv key) iv key' = some plaintext' → plaintext' = plaintext
  metaLine_ascii : ∀ keyId ivB64 line, (∀ c ∈ keyId.toList, c.toNat < 128) →
    (∀ c ∈ ivB64, c.toNat < 128) → lib.crypto.dump (envelopeMeta keyId ivB64) = some line →
    ∀ c ∈ line, c.toNat < 128
  derive : ∀ pin salt, salt.length = 16 → ∃ key, lib.deriveWrapKey pin salt kdfIterations = some key
  block : ∀ salt : Bytes, salt.length = 16 → lib.encodeBlock salt ≠ [] ∧
    (∀ c ∈ lib.encodeBlock salt, c.toNat < 128) ∧
    lib.decodeBlock (lib.encodeBlock salt) =
      some (salt ++ List.replicate (padding (lib.encodeBlock salt)) (Char.ofNat 0))

namespace ProjectPrivacy

section
variable {lib : RecoveryLib φ} {draws : Draws} {device device' : Device}

theorem projectKeyRef_inj {p k p' k' : String} :
    projectKeyRef p k = projectKeyRef p' k' ↔ p = p' ∧ k = k' := by
  simp [projectKeyRef]

/-- What a payload can be written with. -/
structure DecryptedRecoveryTokenPayload.Fits (payload : DecryptedRecoveryTokenPayload) : Prop where
  projectId : Text payload.metadata.projectId
  projectKeyId : Text payload.metadata.projectKeyId
  projectName : ∀ name ∈ payload.metadata.projectName, Text name
  gitRemoteUrl : ∀ remote ∈ payload.metadata.gitRemoteUrl, Text remote
  material : Text payload.projectKeyMaterialB64

/-- A token that wraps the material of a key: its pin opens it, and no other pin gets anything else out
of it. -/
def Wraps (lib : RecoveryLib φ) (sent : SentToken) (material : Bytes) : Prop :=
  ∃ payload : DecryptedRecoveryTokenPayload, payload.metadata.projectId = sent.projectId ∧
    payload.metadata.projectKeyId = sent.keyId ∧ payload.projectKeyMaterialB64.toList = material ∧
    decryptRecoveryPayload lib sent.pin sent.text = .ok payload ∧
    ∀ pin payload', decryptRecoveryPayload lib pin sent.text = .ok payload' → payload' = payload

/-- `x` fails only with such an exception. -/
def FailsWith {ε α : Type} (E : ε → Prop) (x : Except ε α) : Prop := ∀ e, x = .error e → E e

namespace FailsWith

variable {ε α β : Type} {E : ε → Prop}

theorem ok (a : α) : FailsWith E (.ok a) := fun _ h => by cases h

theorem error {e : ε} (h : E e) : FailsWith E (.error e : Except ε α) := fun _ he => by
  cases he
  exact h

theorem bind {x : Except ε α} {f : α → Except ε β} (hx : FailsWith E x) (hf : ∀ a, FailsWith E (f a)) :
    FailsWith E (x >>= f) := by
  cases x with
  | ok a => exact hf a
  | error e => exact error (hx e rfl)

/-- A check that raises before the rest runs. -/
theorem guard {c : Prop} [Decidable c] {raise : Except ε PUnit} {f : PUnit → Except ε β}
    (hraise : FailsWith E raise) (hf : FailsWith E (f ⟨⟩)) :
    FailsWith E (if c then raise >>= f else f ⟨⟩) := by
  split
  · exact .bind hraise fun _ => hf
  · exact hf

end FailsWith

end

end ProjectPrivacy

end HolderCore
