import HolderCore.Library.JsonText
import HolderCore.Library.Outcome
import HolderCore.Privacy.Envelope

/-! # The secret store

`privacy/SecretStore.cpp`: an index of metadata as a JSON file, and the secrets as a JSON object in an
encrypted file beside the key it is encrypted with. Over any calls the store is a table of secrets by
service and account. -/

namespace HolderCore

structure SecretMetadata where
  service : String
  account : String
  preview : String
  createdAt : Int
  updatedAt : Int
deriving DecidableEq, Repr

structure StoredSecret where
  metadata : SecretMetadata
  secret : String
deriving DecidableEq, Repr

inductive SecretError where
  | crypto (e : CryptoExn)
  | json (e : JsonError)
  /-- An operation of the JSON library on a value of another kind. -/
  | cannotUse (operation kind : String)
  | exn (e : Exn)
deriving DecidableEq, Repr

/-- The libraries and the random numbers of a store. -/
structure SecretEnv (φ : Type) where
  json : JsonLibrary φ
  crypto : EnvelopeCrypto
  randomKey : Nat → PrivacyKey
  randomIv : Nat → MessageIv

/-- `secret_store_index.json`, `secret_store_fallback.enc` and `secret_store_master.key`. -/
structure SecretFiles where
  index : Option Bytes := none
  secrets : Option Bytes := none
  masterKey : Option Bytes := none
  /-- How many keys and vectors were drawn. -/
  drawn : Nat := 0
deriving DecidableEq

abbrev SecretM := EStateM SecretError SecretFiles

variable {φ : Type}

def secretJson (x : Except JsonError α) : Except SecretError α :=
  match x with
  | .ok a => .ok a
  | .error e => .error (.json e)

def secretCrypto (x : Except CryptoExn α) : Except SecretError α :=
  match x with
  | .ok a => .ok a
  | .error e => .error (.crypto e)

/-! ## The index -/

def makeKey (service account : String) : String := service ++ "\n" ++ account

def readJsonOrEmpty (json : JsonLibrary φ) : Option Bytes → Except SecretError (JsonValue φ)
  | none | some [] => .ok (.object [])
  | some text => secretJson (json.parse text)

/-- `item.value(key, otherwise)`. -/
def valueOr (get : JsonValue φ → Except JsonError α) (otherwise : α) (key : String) :
    JsonValue φ → Except SecretError α
  | .object fields =>
    match fields.lookup key with
    | some value => secretJson (get value)
    | none => .ok otherwise
  | j => .error (.cannotUse "value()" j.kind)

def metadataFromJson (json : JsonLibrary φ) (item : JsonValue φ) : Except SecretError SecretMetadata := do
  let service ← secretJson (item.member "service" >>= JsonValue.getString)
  let account ← secretJson (item.member "account" >>= JsonValue.getString)
  let preview ← valueOr JsonValue.getString "" "preview" item
  let createdAt ← valueOr (json.getInteger 64) 0 "created_at" item
  let updatedAt ← valueOr (json.getInteger 64) 0 "updated_at" item
  return { service, account, preview, createdAt, updatedAt }

def metadataJson (metadata : SecretMetadata) : JsonValue φ := .ofFields [
  ("service", .string metadata.service),
  ("account", .string metadata.account),
  ("preview", .string metadata.preview),
  ("created_at", .integer metadata.createdAt),
  ("updated_at", .integer metadata.updatedAt)]

/-- What an iteration over a value visits. -/
def iterated : JsonValue φ → List (JsonValue φ)
  | .null => []
  | .object fields => fields.map (·.2)
  | .array elements => elements
  | j => [j]

namespace SecretMetadataIndex

variable (env : SecretEnv φ)

def get (service account : String) : SecretM (Option SecretMetadata) := do
  let files ← MonadState.get
  match ← fromExcept (readJsonOrEmpty env.json files.index) with
  | .object fields =>
    match fields.lookup (makeKey service account) with
    | some item => return some (← fromExcept (metadataFromJson env.json item))
    | none => return none
  | _ => return none

def list (service : String) : SecretM (List SecretMetadata) := do
  let files ← MonadState.get
  let body ← fromExcept (readJsonOrEmpty env.json files.index)
  let items ← fromExcept (((iterated body).filter (·.isObject)).mapM (metadataFromJson env.json))
  return items.filter (·.service == service)

def writeJson (body : JsonValue φ) : SecretM Unit := do
  let text ← fromExcept (secretJson (env.json.dump 2 body))
  modify fun files => { files with index := some text }

def upsert (metadata : SecretMetadata) : SecretM Unit := do
  let files ← MonadState.get
  match ← fromExcept (readJsonOrEmpty env.json files.index) with
  | .object fields =>
    writeJson env (.object
      (assign (makeKey metadata.service metadata.account) (metadataJson metadata) fields))
  | .null => writeJson env (.object [(makeKey metadata.service metadata.account, metadataJson metadata)])
  | j => throw (.cannotUse "operator[]" j.kind)

def remove (service account : String) : SecretM Unit := do
  let files ← MonadState.get
  match ← fromExcept (readJsonOrEmpty env.json files.index) with
  | .object fields => writeJson env (.object (eraseKey (makeKey service account) fields))
  | j => throw (.cannotUse "erase()" j.kind)

end SecretMetadataIndex

/-! ## The encrypted file -/

def keyToBase64 (crypto : EnvelopeCrypto) (key : PrivacyKey) : Bytes := crypto.toBase64 key.1

def keyFromBase64 (crypto : EnvelopeCrypto) (text : Bytes) : Except CryptoExn PrivacyKey := do
  let raw ← b64Decode crypto text
  if h : raw.length = 32 then return ⟨raw, h⟩
  else envelopeInvalid "privacy key has wrong length"

def storeKeyId : String := "holder-secret-store"

namespace EncryptedFileSecretBackend

variable (env : SecretEnv φ)

def loadOrCreateMasterKey : SecretM PrivacyKey := do
  let files ← MonadState.get
  match files.masterKey with
  | some text => fromExcept (secretCrypto (keyFromBase64 env.crypto text))
  | none =>
    let key := env.randomKey files.drawn
    set { files with masterKey := some (keyToBase64 env.crypto key), drawn := files.drawn + 1 }
    return key

/-- The secrets by key, in the order of the keys. -/
def entriesOf : JsonValue φ → Except SecretError (List (String × String))
  | .null | .array [] => .ok []
  | .object fields => secretJson ((JsonValue.object fields).getMap JsonValue.getString)
  | j => .error (.cannotUse "key()" j.kind)

def loadMap : SecretM (List (String × String)) := do
  let files ← MonadState.get
  match files.secrets with
  | none => return []
  | some envelope =>
    let key ← loadOrCreateMasterKey env
    let plaintext ← fromExcept (secretCrypto (decryptEnvelopeV1 env.crypto envelope key storeKeyId))
    fromExcept (secretJson (env.json.parse plaintext) >>= entriesOf)

def mapJson (entries : List (String × String)) : JsonValue φ :=
  .object (entries.map fun entry => (entry.1, .string entry.2))

def saveMap (entries : List (String × String)) : SecretM Unit := do
  let text ← fromExcept (secretJson (env.json.dump 0 (mapJson entries)))
  let key ← loadOrCreateMasterKey env
  let files ← MonadState.get
  let envelope ← fromExcept (secretCrypto
    (encryptEnvelopeV1 env.crypto (env.randomIv files.drawn) text key storeKeyId))
  set { files with secrets := some envelope, drawn := files.drawn + 1 }

def get (service account : String) : SecretM (Option String) := do
  return (← loadMap env).lookup (makeKey service account)

def set (service account secret : String) : SecretM Unit := do
  saveMap env (assign (makeKey service account) secret (← loadMap env))

def remove (service account : String) : SecretM Unit := do
  saveMap env (eraseKey (makeKey service account) (← loadMap env))

end EncryptedFileSecretBackend

/-! ## The store -/

namespace DefaultSecretStore

variable (env : SecretEnv φ)

def get (service account : String) : SecretM (Option StoredSecret) := do
  match ← SecretMetadataIndex.get env service account with
  | none => return none
  | some metadata =>
    match ← EncryptedFileSecretBackend.get env service account with
    | none => return none
    | some secret => return some ⟨metadata, secret⟩

def list (service : String) : SecretM (List SecretMetadata) := SecretMetadataIndex.list env service

def set (service account secret preview : String) (createdAt updatedAt : Int) : SecretM Unit := do
  EncryptedFileSecretBackend.set env service account secret
  SecretMetadataIndex.upsert env { service, account, preview, createdAt, updatedAt }

def remove (service account : String) : SecretM Unit := do
  EncryptedFileSecretBackend.remove env service account
  SecretMetadataIndex.remove env service account

end DefaultSecretStore

/-- A call that changes the store. -/
inductive SecretCall where
  | set (service account secret preview : String) (createdAt updatedAt : Int)
  | remove (service account : String)
deriving DecidableEq, Repr

def SecretCall.run (env : SecretEnv φ) : SecretCall → SecretM Unit
  | .set service account secret preview createdAt updatedAt =>
    DefaultSecretStore.set env service account secret preview createdAt updatedAt
  | .remove service account => DefaultSecretStore.remove env service account

def runSecretCalls (env : SecretEnv φ) : List SecretCall → SecretM Unit
  | [] => return
  | call :: calls => do
    call.run env
    runSecretCalls env calls

/-! ## The table -/

/-- What a store is for: a secret for each service and account. -/
abbrev SecretTable := String → String → Option StoredSecret

def SecretCall.apply : SecretCall → SecretTable → SecretTable
  | .set service account secret preview createdAt updatedAt, table => fun service' account' =>
    if service' = service ∧ account' = account then
      some ⟨⟨service, account, preview, createdAt, updatedAt⟩, secret⟩
    else table service' account'
  | .remove service account, table => fun service' account' =>
    if service' = service ∧ account' = account then none else table service' account'

/-- The table after some calls on an empty store. -/
def tableOf (calls : List SecretCall) : SecretTable :=
  calls.foldl (fun table call => call.apply table) fun _ _ => none

/-! ## Reading what the store wrote -/

open JsonLibrary (Text)

/-- What the store relies on: the JSON library reads what it wrote, and decryption undoes encryption. -/
structure SecretEnv.Lawful (env : SecretEnv φ) : Prop where
  json : env.json.Lossless
  crypto : env.crypto.Lawful

/-- A record that the files can hold. -/
structure StoredSecret.Fits (stored : StoredSecret) : Prop where
  service : Text stored.metadata.service
  account : Text stored.metadata.account
  preview : Text stored.metadata.preview
  createdAt : FitsSigned 64 stored.metadata.createdAt
  updatedAt : FitsSigned 64 stored.metadata.updatedAt
  secret : Text stored.secret

section
variable {env : SecretEnv φ} {files files' : SecretFiles}

theorem metadataJson_plain {stored : StoredSecret} (h : stored.Fits) :
    (metadataJson stored.metadata : JsonValue φ).Plain := by
  refine .ofFields ?_
  simp only [List.mem_cons, List.not_mem_nil, or_false, forall_eq_or_imp, forall_eq]
  exact ⟨⟨JsonLibrary.text_of_ascii (by decide), .string h.service⟩,
    ⟨JsonLibrary.text_of_ascii (by decide), .string h.account⟩,
    ⟨JsonLibrary.text_of_ascii (by decide), .string h.preview⟩,
    ⟨JsonLibrary.text_of_ascii (by decide), .integer h.createdAt⟩,
    ⟨JsonLibrary.text_of_ascii (by decide), .integer h.updatedAt⟩⟩

theorem metadataFromJson_metadataJson (json : JsonLibrary φ) {stored : StoredSecret} (h : stored.Fits) :
    metadataFromJson json (metadataJson stored.metadata) = .ok stored.metadata := by
  have hvalue : ∀ {β : Type} (get : JsonValue φ → Except JsonError β) (otherwise : β) (key : String),
      valueOr get otherwise key (metadataJson stored.metadata) =
        match ([("service", .string stored.metadata.service), ("account", .string stored.metadata.account),
          ("preview", .string stored.metadata.preview), ("created_at", .integer stored.metadata.createdAt),
          ("updated_at", .integer stored.metadata.updatedAt)] : List (String × JsonValue φ)).lookup key with
        | some value => secretJson (get value)
        | none => .ok otherwise := by
    intro β get otherwise key
    rw [metadataJson, JsonValue.ofFields, valueOr, lookup_emplaceAll]
  unfold metadataFromJson
  simp only [hvalue]
  simp [metadataJson, JsonValue.getString, secretJson, List.lookup,
    JsonLibrary.getInteger_integer h.createdAt, JsonLibrary.getInteger_integer h.updatedAt, bind,
    Except.bind, pure, Except.pure]

theorem makeKey_text {service account : String} (hservice : Text service) (haccount : Text account) :
    Text (makeKey service account) := by
  have hline : Text "\n" := JsonLibrary.text_of_ascii (by decide)
  unfold Text at *
  simp only [makeKey, String.toList_append]
  exact .append (.append hservice hline) haccount

/-- Keys of services without a line end do not collide. -/
theorem makeKey_inj {service service' account account' : String} (hs : '\n' ∉ service.toList)
    (hs' : '\n' ∉ service'.toList) (h : makeKey service account = makeKey service' account') :
    service = service' ∧ account = account' := by
  have hlist := congrArg String.toList h
  simp only [makeKey, String.toList_append, List.append_assoc] at hlist
  have htake : ∀ (s rest : List Char), '\n' ∉ s → (s ++ '\n' :: rest).takeWhile (· != '\n') = s := by
    intro s rest hs
    have hall : ∀ c ∈ s, (c != '\n') = true := by
      intro c hc
      rw [bne_iff_ne]
      rintro rfl
      exact hs hc
    rw [List.takeWhile_append_of_pos hall]
    simp
  have hfirst := congrArg (List.takeWhile (· != '\n')) hlist
  have hnewline : "\n".toList = ['\n'] := rfl
  rw [hnewline, List.singleton_append, List.singleton_append, htake _ _ hs, htake _ _ hs'] at hfirst
  have hservice : service = service' := String.toList_inj.mp hfirst
  subst hservice
  rw [List.append_cancel_left_eq, hnewline, List.singleton_append, List.singleton_append,
    List.cons.injEq] at hlist
  exact ⟨rfl, String.toList_inj.mp hlist.2⟩

theorem fromExcept_ok {ε σ β : Type} (b : β) (s : σ) :
    (fromExcept (.ok b) : EStateM ε σ β) s = .ok b s := rfl

theorem Except.bind_of_ok {ε β : Type} {x : Except ε α} {f : α → Except ε β} {a : α} (h : x = .ok a) :
    (x >>= f) = f a := by
  rw [h]
  rfl

theorem SecretM.get_bind (f : SecretFiles → SecretM α) (files : SecretFiles) :
    (MonadState.get >>= f) files = f files files := rfl

/-! ### The encrypted file -/

/-- The stored master key is a key. -/
def HasKey (env : SecretEnv φ) (files : SecretFiles) : Prop :=
  ∀ text ∈ files.masterKey, ∃ key, keyFromBase64 env.crypto text = .ok key

/-- The secrets of the encrypted file, which an index does not change. -/
def Loads (env : SecretEnv φ) (files : SecretFiles) (entries : List (String × String)) : Prop :=
  ∀ index, EncryptedFileSecretBackend.loadMap env { files with index } =
    .ok entries { files with index }

theorem keyFromBase64_keyToBase64 {crypto : EnvelopeCrypto} (h : crypto.Lawful) (key : PrivacyKey) :
    keyFromBase64 crypto (keyToBase64 crypto key) = .ok key := by
  simp [keyFromBase64, keyToBase64, b64Decode, h.ofBase64_toBase64, bind, Except.bind, key.2, pure,
    Except.pure]

namespace EncryptedFileSecretBackend

theorem loadOrCreateMasterKey_some {text : Bytes} {key : PrivacyKey} (hfile : files.masterKey = some text)
    (hkey : keyFromBase64 env.crypto text = .ok key) :
    loadOrCreateMasterKey env files = .ok key files := by
  unfold loadOrCreateMasterKey
  rw [SecretM.get_bind, hfile]
  simp only [hkey, secretCrypto, fromExcept]
  rfl

theorem loadOrCreateMasterKey_ok (henv : env.Lawful) (h : HasKey env files) :
    ∃ key text files', loadOrCreateMasterKey env files = .ok key files' ∧
      files'.masterKey = some text ∧ keyFromBase64 env.crypto text = .ok key ∧
      files'.index = files.index ∧ files'.secrets = files.secrets := by
  cases hfile : files.masterKey with
  | some text =>
    obtain ⟨key, hkey⟩ := h text hfile
    exact ⟨key, text, files, loadOrCreateMasterKey_some hfile hkey, hfile, hkey, rfl, rfl⟩
  | none =>
    let key := env.randomKey files.drawn
    refine ⟨key, keyToBase64 env.crypto key,
      { files with masterKey := some (keyToBase64 env.crypto key), drawn := files.drawn + 1 }, ?_, rfl,
      keyFromBase64_keyToBase64 henv.crypto key, rfl, rfl⟩
    unfold loadOrCreateMasterKey
    rw [SecretM.get_bind, hfile]
    rfl

theorem mapJson_plain {entries : List (String × String)} (hascend : KeysAscend entries)
    (htexts : ∀ entry ∈ entries, Text entry.1 ∧ Text entry.2) :
    (mapJson entries : JsonValue φ).Plain := by
  refine .object ?_ ?_ ?_
  · rwa [KeysAscend, List.map_map]
  · rintro field hfield
    obtain ⟨entry, hentry, rfl⟩ := List.mem_map.mp hfield
    exact (htexts entry hentry).1
  · rintro field hfield
    obtain ⟨entry, hentry, rfl⟩ := List.mem_map.mp hfield
    exact .string (htexts entry hentry).2

theorem entriesOf_mapJson (entries : List (String × String)) :
    entriesOf (mapJson entries : JsonValue φ) = .ok entries := by
  have hget : (JsonValue.object (entries.map fun entry => (entry.1, JsonValue.string entry.2)) :
      JsonValue φ).getMap JsonValue.getString = .ok entries := JsonValue.getMap_object fun _ _ => rfl
  rw [mapJson, entriesOf, hget]
  rfl

/-- Saved secrets are loaded again. -/
theorem saveMap_ok (henv : env.Lawful) (h : HasKey env files) {entries : List (String × String)}
    (hascend : KeysAscend entries) (htexts : ∀ entry ∈ entries, Text entry.1 ∧ Text entry.2) :
    ∃ files', saveMap env entries files = .ok () files' ∧ files'.index = files.index ∧
      HasKey env files' ∧ Loads env files' entries := by
  obtain ⟨text, hdump, -, -, hparse, -⟩ := henv.json.parse_dump 0 (mapJson_plain hascend htexts)
  obtain ⟨key, keyText, files1, hload, hfile, hkey, hindex, -⟩ := loadOrCreateMasterKey_ok henv h
  have hid : ValidUtf8 storeKeyId.toList := JsonLibrary.text_of_ascii (s := storeKeyId) (by decide)
  obtain ⟨-, envelope, -, -, hencrypt, hdecrypt⟩ := encryptEnvelopeV1_read henv.crypto
    (env.randomIv files1.drawn) text key (by decide) hid
  refine ⟨{ files1 with secrets := some envelope, drawn := files1.drawn + 1 }, ?_, hindex, ?_, ?_⟩
  · unfold saveMap
    have hdumped : fromExcept (secretJson (env.json.dump 0 (mapJson entries))) files = .ok text files := by
      rw [hdump]
      rfl
    rw [bind_eq_of_ok hdumped, bind_eq_of_ok hload, SecretM.get_bind, hencrypt]
    rfl
  · rintro text' htext'
    rw [Option.mem_def, hfile] at htext'
    cases htext'
    exact ⟨key, hkey⟩
  · rintro index
    unfold loadMap
    have hload' : loadOrCreateMasterKey env
        ⟨index, some envelope, files1.masterKey, files1.drawn + 1⟩ = .ok key _ :=
      loadOrCreateMasterKey_some hfile hkey
    rw [SecretM.get_bind]
    dsimp only
    rw [bind_eq_of_ok hload', hdecrypt _ (.refl _), henv.crypto.decrypt_encrypt, Option.elim, secretCrypto,
      bind_eq_of_ok (fromExcept_ok _ _), hparse, secretJson]
    simp only [bind, Except.bind, entriesOf_mapJson]
    rfl

end EncryptedFileSecretBackend

/-! ### The whole store -/

/-- Files that hold some records by their keys. -/
structure SecretFiles.Holds (env : SecretEnv φ) (files : SecretFiles)
    (held : String → Option StoredSecret) : Prop where
  index : ∃ fields, readJsonOrEmpty env.json files.index = .ok (.object fields) ∧
    (JsonValue.object fields).Plain ∧
    ∀ key, fields.lookup key = (held key).map fun stored => metadataJson stored.metadata
  secrets : ∃ entries, Loads env files entries ∧ KeysAscend entries ∧
    (∀ entry ∈ entries, Text entry.1 ∧ Text entry.2) ∧
    ∀ key, entries.lookup key = (held key).map (·.secret)
  hasKey : HasKey env files
  fits : ∀ key stored, held key = some stored → stored.Fits ∧
    key = makeKey stored.metadata.service stored.metadata.account

/-- A plain object written as the index is read back. -/
theorem SecretMetadataIndex.writeJson_ok (henv : env.Lawful) {body : JsonValue φ} (h : body.Plain) :
    ∃ text, writeJson env body files = .ok () { files with index := some text } ∧
      readJsonOrEmpty env.json (some text) = .ok body := by
  obtain ⟨text, hdump, hne, -, hparse, -⟩ := henv.json.parse_dump 2 h
  refine ⟨text, ?_, ?_⟩
  · unfold writeJson
    rw [hdump]
    rfl
  · cases text with
    | nil => exact absurd rfl hne
    | cons c text =>
      rw [readJsonOrEmpty, hparse]
      · rfl
      · simp

namespace SecretFiles.Holds

variable {held : String → Option StoredSecret}

theorem empty (env : SecretEnv φ) : SecretFiles.Holds env {} fun _ => none where
  index := ⟨[], rfl, .object keysAscend_nil (by simp) (by simp), fun _ => rfl⟩
  secrets := ⟨[], fun _ => rfl, keysAscend_nil, by simp, fun _ => rfl⟩
  hasKey := by simp [HasKey]
  fits := by simp

/-- Records of a table whose changes are those of the index and of the encrypted file. -/
theorem change (henv : env.Lawful) (h : files.Holds env held) (key : String)
    (stored : Option StoredSecret)
    (hfits : ∀ s, stored = some s → s.Fits ∧ key = makeKey s.metadata.service s.metadata.account)
    {fields' : List (String × JsonValue φ)} {entries' : List (String × String)}
    (hplain : (JsonValue.object fields').Plain) (hascend : KeysAscend entries')
    (htexts : ∀ entry ∈ entries', Text entry.1 ∧ Text entry.2)
    (hfields : ∀ k, fields'.lookup k =
      (if k = key then stored else held k).map fun s => metadataJson s.metadata)
    (hentries : ∀ k, entries'.lookup k = (if k = key then stored else held k).map (·.secret)) :
    ∃ files1 files2, EncryptedFileSecretBackend.saveMap env entries' files = .ok () files1 ∧
      files1.index = files.index ∧
      SecretMetadataIndex.writeJson env (.object fields') files1 = .ok () files2 ∧
      files2.Holds env fun k => if k = key then stored else held k := by
  obtain ⟨files1, hsave, hindex, hkey, hloads'⟩ :=
    EncryptedFileSecretBackend.saveMap_ok henv h.hasKey hascend htexts
  obtain ⟨text, hwrite, hback⟩ := SecretMetadataIndex.writeJson_ok henv hplain
  refine ⟨files1, _, hsave, hindex, hwrite, ⟨fields', hback, hplain, hfields⟩,
    ⟨entries', fun index => hloads' index, hascend, htexts, hentries⟩, hkey, fun k s hs => ?_⟩
  split at hs
  · next hk => rw [hk]; exact hfits s hs
  · exact h.fits k s hs

/-- A secret is set. -/
theorem set (henv : env.Lawful) (h : files.Holds env held) {service account secret preview : String}
    {createdAt updatedAt : Int}
    (hfits : (⟨⟨service, account, preview, createdAt, updatedAt⟩, secret⟩ : StoredSecret).Fits) :
    ∃ files', DefaultSecretStore.set env service account secret preview createdAt updatedAt files =
        .ok () files' ∧
      files'.Holds env fun k => if k = makeKey service account then
        some ⟨⟨service, account, preview, createdAt, updatedAt⟩, secret⟩ else held k := by
  obtain ⟨fields, hread, hplain, hfields⟩ := h.index
  obtain ⟨entries, hloads, hascend, htexts, hentries⟩ := h.secrets
  have hkey := makeKey_text hfits.service hfits.account
  have hplain' : (JsonValue.object (assign (makeKey service account)
      (metadataJson ⟨service, account, preview, createdAt, updatedAt⟩) fields)).Plain := by
    refine .object (keysAscend_assign _ _ hplain.fields.1) (fun field hf => ?_) fun field hf => ?_
    · rcases mem_assign hf with rfl | hf
      · exact hkey
      · exact (hplain.fields.2 field hf).1
    · rcases mem_assign hf with rfl | hf
      · exact metadataJson_plain hfits
      · exact (hplain.fields.2 field hf).2
  have htexts' : ∀ entry ∈ assign (makeKey service account) secret entries,
      Text entry.1 ∧ Text entry.2 := by
    intro entry he
    rcases mem_assign he with rfl | he
    · exact ⟨hkey, hfits.secret⟩
    · exact htexts entry he
  obtain ⟨files1, files2, hsave, hindex, hwrite, hholds⟩ := h.change henv (makeKey service account)
    (some ⟨⟨service, account, preview, createdAt, updatedAt⟩, secret⟩)
    (fun s hs => by cases hs; exact ⟨hfits, rfl⟩) hplain' (keysAscend_assign _ secret hascend) htexts'
    (fun k => by rw [lookup_assign, hfields]; split <;> rfl)
    (fun k => by rw [lookup_assign, hentries]; split <;> rfl)
  refine ⟨files2, ?_, hholds⟩
  unfold DefaultSecretStore.set EncryptedFileSecretBackend.set SecretMetadataIndex.upsert
  have hbackend : (EncryptedFileSecretBackend.loadMap env >>= fun entries =>
      EncryptedFileSecretBackend.saveMap env (assign (makeKey service account) secret entries)) files =
      .ok () files1 := by
    rw [bind_eq_of_ok (hloads files.index)]
    exact hsave
  rw [bind_eq_of_ok hbackend, SecretM.get_bind, hindex, hread, bind_eq_of_ok (fromExcept_ok _ _)]
  exact hwrite

/-- A secret is removed. -/
theorem remove (henv : env.Lawful) (h : files.Holds env held) (service account : String) :
    ∃ files', DefaultSecretStore.remove env service account files = .ok () files' ∧
      files'.Holds env fun k => if k = makeKey service account then none else held k := by
  obtain ⟨fields, hread, hplain, hfields⟩ := h.index
  obtain ⟨entries, hloads, hascend, htexts, hentries⟩ := h.secrets
  have hplain' : (JsonValue.object (eraseKey (makeKey service account) fields)).Plain :=
    .object (keysAscend_eraseKey _ hplain.fields.1)
      (fun field hf => (hplain.fields.2 field (mem_eraseKey hf)).1)
      fun field hf => (hplain.fields.2 field (mem_eraseKey hf)).2
  obtain ⟨files1, files2, hsave, hindex, hwrite, hholds⟩ := h.change henv (makeKey service account)
    none (by simp) hplain' (keysAscend_eraseKey (makeKey service account) hascend)
    (fun entry he => htexts entry (mem_eraseKey he))
    (fun k => by rw [lookup_eraseKey, hfields]; split <;> rfl)
    (fun k => by rw [lookup_eraseKey, hentries]; split <;> rfl)
  refine ⟨files2, ?_, hholds⟩
  unfold DefaultSecretStore.remove EncryptedFileSecretBackend.remove SecretMetadataIndex.remove
  have hbackend : (EncryptedFileSecretBackend.loadMap env >>= fun entries =>
      EncryptedFileSecretBackend.saveMap env (eraseKey (makeKey service account) entries)) files =
      .ok () files1 := by
    rw [bind_eq_of_ok (hloads files.index)]
    exact hsave
  rw [bind_eq_of_ok hbackend, SecretM.get_bind, hindex, hread, bind_eq_of_ok (fromExcept_ok _ _)]
  exact hwrite

/-- A lookup answers what the table has under the key. -/
theorem get (h : files.Holds env held) (service account : String) :
    DefaultSecretStore.get env service account files =
      .ok (held (makeKey service account)) files := by
  obtain ⟨fields, hread, -, hfields⟩ := h.index
  obtain ⟨entries, hloads, -, -, hentries⟩ := h.secrets
  have hindex : SecretMetadataIndex.get env service account files =
      .ok ((held (makeKey service account)).map (·.metadata)) files := by
    unfold SecretMetadataIndex.get
    rw [SecretM.get_bind, hread, bind_eq_of_ok (fromExcept_ok _ _)]
    simp only [hfields]
    cases hs : held (makeKey service account) with
    | none => rfl
    | some stored =>
      simp only [Option.map_some, metadataFromJson_metadataJson env.json (h.fits _ stored hs).1]
      rfl
  have hbackend : EncryptedFileSecretBackend.get env service account files =
      .ok ((held (makeKey service account)).map (·.secret)) files := by
    unfold EncryptedFileSecretBackend.get
    rw [bind_eq_of_ok (hloads files.index), hentries]
    rfl
  unfold DefaultSecretStore.get
  rw [bind_eq_of_ok hindex]
  cases hs : held (makeKey service account) with
  | none => rfl
  | some stored =>
    simp only [Option.map_some]
    rw [bind_eq_of_ok hbackend, hs]
    rfl

/-- A listing has every record of the service, in the order of the keys. -/
theorem list (h : files.Holds env held) (service : String) :
    ∃ metas, DefaultSecretStore.list env service files = .ok metas files ∧
      (metas.map fun m => makeKey m.service m.account).Pairwise (· < ·) ∧
      ∀ m, m ∈ metas ↔ m.service = service ∧
        ∃ stored, held (makeKey m.service m.account) = some stored ∧ stored.metadata = m := by
  obtain ⟨fields, hread, hplain, hfields⟩ := h.index
  have hascend := hplain.fields.1
  have hfield : ∀ field ∈ fields, ∃ stored, held field.1 = some stored ∧
      field.2 = metadataJson stored.metadata := by
    intro field hf
    have hlookup := hascend.lookup_of_mem hf
    rw [hfields] at hlookup
    obtain ⟨stored, hs, he⟩ := Option.map_eq_some_iff.mp hlookup
    exact ⟨stored, hs, he.symm⟩
  -- Each field is an object, which reads as the metadata of its record.
  obtain ⟨metas, hmetas⟩ : ∃ metas : List SecretMetadata,
      List.Forall₂ (fun (field : String × JsonValue φ) m => ∃ stored, held field.1 = some stored ∧
        field.2 = metadataJson stored.metadata ∧ stored.metadata = m) fields metas := by
    clear hread hplain hfields hascend
    induction fields with
    | nil => exact ⟨[], .nil⟩
    | cons field fields ih =>
      obtain ⟨stored, hs, he⟩ := hfield field List.mem_cons_self
      obtain ⟨metas, hmetas⟩ := ih fun f hf => hfield f (List.mem_cons_of_mem _ hf)
      exact ⟨stored.metadata :: metas, .cons ⟨stored, hs, he, rfl⟩ hmetas⟩
  have hkeys : metas.map (fun m => makeKey m.service m.account) = fields.map Prod.fst := by
    clear hread hplain hfields hascend hfield
    induction hmetas with
    | nil => rfl
    | cons hm _ ih =>
      obtain ⟨stored, hs, -, rfl⟩ := hm
      rw [List.map_cons, List.map_cons, ih, (h.fits _ stored hs).2]
  have hitems : ((iterated (.object fields)).filter (·.isObject)).mapM (metadataFromJson env.json) =
      .ok metas := by
    have hall : (iterated (.object fields)).filter (·.isObject) = fields.map (·.2) := by
      refine List.filter_eq_self.mpr fun item hitem => ?_
      obtain ⟨field, hf, rfl⟩ := List.mem_map.mp hitem
      obtain ⟨stored, -, he⟩ := hfield field hf
      rw [he]
      rfl
    rw [hall, JsonValue.mapM_ok_iff, List.forall₂_map_left_iff]
    refine hmetas.imp fun field m hm => ?_
    obtain ⟨stored, hs, he, rfl⟩ := hm
    rw [he, metadataFromJson_metadataJson env.json (h.fits _ stored hs).1]
  refine ⟨metas.filter (·.service == service), ?_, ?_, fun m => ?_⟩
  · unfold DefaultSecretStore.list SecretMetadataIndex.list
    rw [SecretM.get_bind, hread, bind_eq_of_ok (fromExcept_ok _ _), hitems,
      bind_eq_of_ok (fromExcept_ok _ _)]
    rfl
  · refine List.Pairwise.sublist (List.filter_sublist.map _) ?_
    rw [hkeys]
    exact hascend
  · rw [List.mem_filter, beq_iff_eq, and_comm]
    refine and_congr_right fun _ => ⟨fun hm => ?_, ?_⟩
    · obtain ⟨field, -, stored, hs, -, rfl⟩ := hmetas.exists_left hm
      exact ⟨stored, by rw [← (h.fits _ stored hs).2]; exact hs, rfl⟩
    · rintro ⟨stored, hs, rfl⟩
      have hlookup := hfields (makeKey stored.metadata.service stored.metadata.account)
      rw [hs, Option.map_some] at hlookup
      obtain ⟨m, hm, stored', hs', -, rfl⟩ := hmetas.exists_right (mem_of_lookup hlookup)
      rw [hs] at hs'
      cases hs'
      exact hm

end SecretFiles.Holds

/-! ### Runs -/

/-- Calls of services without a line end, over records that files can hold. -/
def SecretCall.Fits : SecretCall → Prop
  | .set service account secret preview createdAt updatedAt => '\n' ∉ service.toList ∧
    (⟨⟨service, account, preview, createdAt, updatedAt⟩, secret⟩ : StoredSecret).Fits
  | .remove service _ => '\n' ∉ service.toList

/-- The records by key are those of the table. -/
def Keyed (table : SecretTable) (held : String → Option StoredSecret) : Prop :=
  ∀ service account, '\n' ∉ service.toList → held (makeKey service account) = table service account

/-- What one call does to the table it does to the records. -/
theorem Keyed.change {table : SecretTable} {held : String → Option StoredSecret} (h : Keyed table held)
    {service account : String} (hservice : '\n' ∉ service.toList) (stored : Option StoredSecret) :
    Keyed (fun s a => if s = service ∧ a = account then stored else table s a)
      fun key => if key = makeKey service account then stored else held key := by
  intro s a hs
  by_cases he : s = service ∧ a = account
  · obtain ⟨rfl, rfl⟩ := he
    simp
  · have hne : makeKey s a ≠ makeKey service account := fun hkey => he (makeKey_inj hs hservice hkey)
    simp only [he, hne, if_false]
    exact h s a hs

theorem SecretCall.run_holds (henv : env.Lawful) {table : SecretTable}
    {held : String → Option StoredSecret} (h : files.Holds env held) (hkeyed : Keyed table held)
    {call : SecretCall} (hcall : call.Fits) :
    ∃ files' held', call.run env files = .ok () files' ∧ files'.Holds env held' ∧
      Keyed (call.apply table) held' := by
  cases call with
  | set service account secret preview createdAt updatedAt =>
    obtain ⟨files', hrun, hholds⟩ := h.set henv hcall.2
    exact ⟨files', _, hrun, hholds, hkeyed.change hcall.1 _⟩
  | remove service account =>
    obtain ⟨files', hrun, hholds⟩ := h.remove henv service account
    exact ⟨files', _, hrun, hholds, hkeyed.change hcall none⟩

theorem runSecretCalls_holds (henv : env.Lawful) {calls : List SecretCall}
    (hcalls : ∀ call ∈ calls, call.Fits) {table : SecretTable} {held : String → Option StoredSecret}
    (h : files.Holds env held) (hkeyed : Keyed table held) :
    ∃ files' held', runSecretCalls env calls files = .ok () files' ∧ files'.Holds env held' ∧
      Keyed (calls.foldl (fun table call => call.apply table) table) held' := by
  induction calls generalizing files table held with
  | nil => exact ⟨files, held, rfl, h, hkeyed⟩
  | cons call calls ih =>
    obtain ⟨files1, held1, hrun, h1, hkeyed1⟩ := call.run_holds henv h hkeyed
      (hcalls call List.mem_cons_self)
    obtain ⟨files2, held2, hruns, h2⟩ := ih (fun c hc => hcalls c (List.mem_cons_of_mem _ hc)) h1 hkeyed1
    exact ⟨files2, held2, (bind_eq_of_ok hrun).trans hruns, h2⟩

/-- Any calls on an empty store succeed, and what its files answer afterwards is what the table of
these calls has: a lookup the latest record that was not removed, a listing the metadata of the
service's records, each once and in the order of their keys. -/
theorem secretStore_table (henv : env.Lawful) {calls : List SecretCall}
    (hcalls : ∀ call ∈ calls, call.Fits) :
    ∃ files, runSecretCalls env calls {} = .ok () files ∧
      ∀ service, '\n' ∉ service.toList →
        (∀ account, DefaultSecretStore.get env service account files =
          .ok (tableOf calls service account) files) ∧
        ∃ metas, DefaultSecretStore.list env service files = .ok metas files ∧
          (metas.map fun m => makeKey m.service m.account).Pairwise (· < ·) ∧
          ∀ m, m ∈ metas ↔ m.service = service ∧
            ∃ stored, tableOf calls service m.account = some stored ∧ stored.metadata = m := by
  have hempty : Keyed (fun _ _ => none) fun _ => none := fun _ _ _ => rfl
  obtain ⟨files, held, hrun, h, hkeyed⟩ := runSecretCalls_holds henv hcalls (.empty env) hempty
  refine ⟨files, hrun, fun service hservice => ⟨fun account => ?_, ?_⟩⟩
  · rw [h.get, hkeyed service account hservice]
    rfl
  · obtain ⟨metas, hlist, hsorted, hmem⟩ := h.list service
    refine ⟨metas, hlist, hsorted, fun m => (hmem m).trans (and_congr_right fun hm => ?_)⟩
    rw [hm, hkeyed service m.account hservice]
    rfl

end

/-- The libraries to run with. -/
def plainSecrets : SecretEnv Empty where
  json := JsonText.library
  crypto := plainEnvelope
  randomKey _ := ⟨List.replicate 32 'k', rfl⟩
  randomIv _ := ⟨List.replicate 24 'v', rfl⟩

theorem plainSecrets_lawful : plainSecrets.Lawful :=
  ⟨JsonText.library_lossless, plainEnvelope_lawful⟩

/-- A secret that is replaced, and one that is removed. -/
def replacedAndRemoved : List SecretCall := [
  .set "holder.ai" "claude" "first" "f..." 1 1, .set "holder.ai" "other" "gone" "g..." 2 2,
  .set "holder.ai" "claude" "second" "s..." 1 3, .remove "holder.ai" "other"]

theorem replacedAndRemoved_fits : ∀ call ∈ replacedAndRemoved, call.Fits := by
  have htext : ∀ s ∈ ["holder.ai", "claude", "other", "first", "second", "gone", "f...", "g...", "s..."],
      Text s := by
    intro s hs
    refine JsonLibrary.text_of_ascii ?_
    revert s
    decide
  have hline : '\n' ∉ "holder.ai".toList := by decide
  simp only [replacedAndRemoved, List.mem_cons, List.not_mem_nil, or_false, forall_eq_or_imp, forall_eq,
    SecretCall.Fits]
  refine ⟨⟨hline, ?_⟩, ⟨hline, ?_⟩, ⟨hline, ?_⟩, hline⟩ <;>
    exact ⟨htext _ (by decide), htext _ (by decide), htext _ (by decide), by decide, by decide,
      htext _ (by decide)⟩

theorem replacedAndRemoved_table : ∃ files, runSecretCalls plainSecrets replacedAndRemoved {} = .ok () files ∧
    ∀ service, '\n' ∉ service.toList →
      (∀ account, DefaultSecretStore.get plainSecrets service account files =
        .ok (tableOf replacedAndRemoved service account) files) ∧
      ∃ metas, DefaultSecretStore.list plainSecrets service files = .ok metas files ∧
        (metas.map fun m => makeKey m.service m.account).Pairwise (· < ·) ∧
        ∀ m, m ∈ metas ↔ m.service = service ∧
          ∃ stored, tableOf replacedAndRemoved service m.account = some stored ∧ stored.metadata = m :=
  secretStore_table plainSecrets_lawful replacedAndRemoved_fits

end HolderCore
