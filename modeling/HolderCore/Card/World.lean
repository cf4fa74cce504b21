import HolderCore.Card.FrontMatter
import HolderCore.Card.Repos
import HolderCore.Git.Repo

/-! # The state the card store works on

A project's rows, its repository and the journal of an interrupted card change, and the parameters
of a run: the project, the YAML library, the key store and the cipher, the tag extractor and the
file system's clock and directory order. -/

namespace HolderCore

/-- The key store and the authenticated cipher behind `privacy/CryptoService.cpp`. -/
structure Privacy where
  loadKeyMaterial : (projectId keyId : String) → Except Exn String
  /-- The metadata and ciphertext lines of an envelope, under the `iv`-th random vector drawn. -/
  encipher : (key keyId : String) → (iv : Nat) → (plaintext : Bytes) → Bytes
  decryptEnvelope : (key keyId : String) → (envelope : Bytes) → Except Exn Bytes

def envelopeMagic : String := "HolderPriv1\n"

namespace Privacy

def encryptProjectBlob (p : Privacy) (projectId keyId : String) (iv : Nat) (plaintext : Bytes) :
    Except Exn Bytes := do
  return envelopeMagic.toList ++ p.encipher (← p.loadKeyMaterial projectId keyId) keyId iv plaintext

def decryptProjectBlob (p : Privacy) (projectId keyId : String) (envelope : Bytes) :
    Except Exn Bytes := do
  p.decryptEnvelope (← p.loadKeyMaterial projectId keyId) keyId envelope

/-- Decryption inverts encryption under the same key. -/
structure Lawful (p : Privacy) : Prop where
  decrypt_encrypt : ∀ key keyId iv plaintext,
    p.decryptEnvelope key keyId (envelopeMagic.toList ++ p.encipher key keyId iv plaintext) =
      .ok plaintext

end Privacy

/-- The parameters of a run. -/
structure Env (K : Type) where
  project : Project
  /-- Whether the store was given a full-text indexer. -/
  fts : Bool
  yaml : Yaml K
  privacy : Privacy
  extractTags : String → List String
  /-- A file's modification time, as the rebuild reads it. -/
  lastWriteTime : String → Int
  /-- The order in which a directory's files are visited. -/
  directoryOrder : List String → List String

/-- What the store relies on outside the project's own code. -/
structure Env.Lawful (env : Env K) : Prop where
  yaml : env.yaml.Lawful
  privacy : env.privacy.Lawful
  directory : ∀ paths, (env.directoryOrder paths).Perm paths

/-- One file of a card change: its bytes before, and the bytes intended if it is to change. -/
structure JournalFile where
  before : Option Bytes
  after : Option (Option Bytes)

/-- The journal `holder-card-mutation` of a card change. -/
structure Journal where
  files : Map String JournalFile
  head : Option Nat
  reference : String
  index : Option Tree

/-- What a store works on. No text in it has a NUL byte, at which `bind_text` cuts. -/
structure World (K : Type) where
  db : Db K
  repo : Repo
  journal : Option Journal
  /-- How many random vectors were drawn. -/
  ivs : Nat

/-- A project without cards. -/
def World.empty : World K := ⟨Db.empty, Repo.init, none, 0⟩

abbrev StoreM (K : Type) := EStateM Exn (World K)

section Blobs

def requireProjectKeyId (project : Project) : Except Exn String :=
  match project.projectKeyId with
  | some keyId =>
    if keyId.isEmpty then .error (.runtimeError "encrypted project missing project_key_id")
    else .ok keyId
  | none => .error (.runtimeError "encrypted project missing project_key_id")

/-- The bytes of a card file, encrypted when the project is. -/
def encodeCardBlob (env : Env K) (plain : Bytes) : StoreM K Bytes := do
  if env.project.privacyMode = .encryptedGit then
    let keyId ← fromExcept (requireProjectKeyId env.project)
    let w ← get
    let bytes ← fromExcept (env.privacy.encryptProjectBlob env.project.projectId keyId w.ivs plain)
    set { w with ivs := w.ivs + 1 }
    return bytes
  else return plain

def decodeCardBlob (env : Env K) (blob : Bytes) : Except Exn Bytes := do
  if env.project.privacyMode = .encryptedGit then
    let keyId ← requireProjectKeyId env.project
    env.privacy.decryptProjectBlob env.project.projectId keyId blob
  else return blob

/-- The rebuild reads a project without a key as it is. -/
def decodeBlobForProject (env : Env K) (blob : Bytes) : Except Exn Bytes := do
  if env.project.privacyMode = .encryptedGit then
    match env.project.projectKeyId with
    | some keyId =>
      if keyId.isEmpty then return blob
      else env.privacy.decryptProjectBlob env.project.projectId keyId blob
    | none => return blob
  else return blob

/-- Paths whose staged blobs must be envelopes. -/
def protectedPath (path : String) : Bool :=
  startsWith "cards/" path.toList || startsWith "resources/" path.toList ||
    startsWith "locations/" path.toList

def unsafePaths (index : Tree) (paths : List String) : List String :=
  paths.filter fun path => protectedPath path &&
    index[path]?.any fun blob => !(startsWith envelopeMagic blob)

def assertProjectStagedBlobsSafe (env : Env K) (index : Tree) (paths : List String) :
    Except Exn Unit :=
  if env.project.privacyMode = .encryptedGit ∧ (unsafePaths index paths).isEmpty = false then
    .error (.runtimeError ("Privacy safety check failed: staged blobs are plaintext. " ++
      "Unsafe paths:" ++ String.join ((unsafePaths index paths).map (" " ++ ·))))
  else .ok ()

end Blobs

/-! ## Encoded blobs -/

/-- `bytes` is a possible encoding of `plain` in the project's files. -/
def Encoded (env : Env K) (plain bytes : Bytes) : Prop :=
  match env.project.privacyMode with
  | .plain => bytes = plain
  | .encryptedGit => ∃ keyId iv, requireProjectKeyId env.project = .ok keyId ∧
    env.privacy.encryptProjectBlob env.project.projectId keyId iv plain = .ok bytes

/-- The same state, with more random vectors drawn. -/
def DrewIvs (w w' : World K) : Prop := ∃ ivs, w' = { w with ivs }

theorem DrewIvs.refl (w : World K) : DrewIvs w w := ⟨w.ivs, rfl⟩

theorem DrewIvs.trans {w1 w2 w3 : World K} (h : DrewIvs w1 w2) (h' : DrewIvs w2 w3) :
    DrewIvs w1 w3 := by
  obtain ⟨n, rfl⟩ := h
  obtain ⟨n', rfl⟩ := h'
  exact ⟨n', rfl⟩

section
variable {env : Env K}

theorem encodeCardBlob_ends (plain : Bytes) (w : World K) :
    Ends (encodeCardBlob env plain) w (fun bytes w' => DrewIvs w w' ∧ Encoded env plain bytes)
      fun _ w' => w' = w := by
  unfold encodeCardBlob Encoded
  cases hm : env.project.privacyMode with
  | plain => simpa using DrewIvs.refl w
  | encryptedGit =>
    simp only [↓reduceIte, Ends.bind_iff, Ends.fromExcept_iff, Ends.get_iff, Ends.set_iff,
      Ends.pure_iff]
    exact ⟨fun keyId hk => ⟨fun bytes hb => ⟨⟨_, rfl⟩, keyId, w.ivs, hk, hb⟩, by simp⟩, by simp⟩

private theorem decrypt_of_encrypt (hp : env.privacy.Lawful)
    (h : env.privacy.encryptProjectBlob projectId keyId iv plain = .ok bytes) :
    env.privacy.decryptProjectBlob projectId keyId bytes = .ok plain := by
  unfold Privacy.encryptProjectBlob at h
  unfold Privacy.decryptProjectBlob
  cases hk : env.privacy.loadKeyMaterial projectId keyId with
  | error e => rw [hk] at h; cases h
  | ok key =>
    rw [hk] at h
    cases h
    exact hp.decrypt_encrypt key keyId iv plain

theorem Encoded.decode (hp : env.privacy.Lawful) (h : Encoded env plain bytes) :
    decodeCardBlob env bytes = .ok plain := by
  unfold Encoded at h
  unfold decodeCardBlob
  split at h
  · next hm => simp [hm, h, pure, Except.pure]
  · next hm =>
    obtain ⟨keyId, iv, hk, hb⟩ := h
    simp only [hm, ↓reduceIte, hk, bind, Except.bind, decrypt_of_encrypt hp hb]

theorem Encoded.decodeForProject (hp : env.privacy.Lawful) (h : Encoded env plain bytes) :
    decodeBlobForProject env bytes = .ok plain := by
  unfold Encoded at h
  unfold decodeBlobForProject
  split at h
  · next hm => simp [hm, h, pure, Except.pure]
  · next hm =>
    obtain ⟨keyId, iv, hk, hb⟩ := h
    unfold requireProjectKeyId at hk
    split at hk
    · next keyId' hkey =>
      split at hk
      · cases hk
      · next hne =>
        cases hk
        simp [hm, hne, decrypt_of_encrypt hp hb]
    · cases hk

end

/-! ## Statements and Git calls on the whole state -/

/-- Run statements outside a transaction. -/
def onDb (m : DbM K α) : StoreM K α := fun w =>
  match m w.db with
  | .ok a db => .ok a { w with db }
  | .error e db => .error e { w with db }

def onRepo (f : Repo → Except Exn Repo) : StoreM K Unit := do
  let w ← get
  set { w with repo := ← fromExcept (f w.repo) }

def ftsUpsertCard (env : Env K) (cardId projectId title body : String) : StoreM K Unit :=
  if env.fts then onDb (FtsIndexer.upsertCard cardId projectId title body) else pure ()

end HolderCore
