import HolderCore.Library.Frames
import HolderCore.Project.Services

/-! # Asset envelopes

`resource/AssetEnvelope.cpp`: what is stored of a source file and how the file is recovered from it.
SHA-256, libsodium's secret stream, the key of a project and the JSON of a header are parameters. -/

namespace HolderCore

/-- The tags of a secret stream; the store writes `message` and `final`. -/
inductive StreamTag where
  | message | push | rekey | final
deriving DecidableEq, Repr

/-- `authenticated_header`. -/
structure AssetHeader where
  assetId : String
  keyId : String
  projectId : String
  resourceId : String
  version : Nat

/-- The libraries, where `S` is `crypto_secretstream_xchacha20poly1305_state`. -/
structure AssetCrypto (S : Type) where
  sha256 : Bytes → String
  /-- `load_project_key_bytes`. -/
  loadKey : (projectId keyId : String) → Except Exn Bytes
  /-- The state that a stream's header and a key lead to, when it is written and when it is read. -/
  initStream : (streamHeader key : Bytes) → S
  push : S → (message data : Bytes) → StreamTag → Bytes × S
  pull : S → (cipher data : Bytes) → Option (Bytes × StreamTag × S)
  dumpHeader : AssetHeader → Bytes
  /-- Parse a text and compare it with a header. -/
  isHeader : Bytes → AssetHeader → Except Exn Bool

/-- What the code relies on: a digest is not empty, a stream is read as it was written and its
ciphers are 17 bytes longer, and a header is read from its whole text only. -/
structure AssetCrypto.Lawful {S : Type} (crypto : AssetCrypto S) : Prop where
  sha256_ne : ∀ bytes, crypto.sha256 bytes ≠ ""
  length_push : ∀ state message data tag,
    (crypto.push state message data tag).1.length = message.length + 17
  pull_push : ∀ state message data tag,
    crypto.pull state (crypto.push state message data tag).1 data =
      some (message, tag, (crypto.push state message data tag).2)
  isHeader_dump : ∀ header, crypto.isHeader (crypto.dumpHeader header) header = .ok true
  isHeader_cut : ∀ header n, n < (crypto.dumpHeader header).length →
    crypto.isHeader ((crypto.dumpHeader header).take n) header ≠ .ok true

def assetMagic : Bytes := "HolderAsset1\n".toList

def assetChunkSize : Nat := 64 * 1024

section
variable {S : Type} (crypto : AssetCrypto S)

def digestOf (bytes : Bytes) : FileDigest := ⟨bytes.length, crypto.sha256 bytes⟩

def verifyDigest (actual expected : FileDigest) (label : String) : Except Exn Unit :=
  if actual.byteSize ≠ expected.byteSize ∨ actual.sha256 ≠ expected.sha256 then
    .error (.runtimeError (label ++ " integrity check failed"))
  else .ok ()

def authenticatedHeader (project : Project) (resourceId assetId : String) : Except Exn AssetHeader := do
  return ⟨assetId, ← requireProjectKeyId project, project.projectId, resourceId, 1⟩

/-! ## Staging -/

def assetFrame (cipher : Bytes) : Bytes := bigEndian32 cipher.length ++ cipher

/-- The chunks that are pushed: an empty file is one empty chunk. -/
def assetChunks (source : Bytes) : List Bytes :=
  if source.isEmpty then [[]] else chunksOf assetChunkSize source

def sealChunks (data : Bytes) : S → List Bytes → Bytes
  | _, [] => []
  | state, [chunk] => assetFrame (crypto.push state chunk data .final).1
  | state, chunk :: chunks =>
    assetFrame (crypto.push state chunk data .message).1 ++
      sealChunks data (crypto.push state chunk data .message).2 chunks

def sealAsset (project : Project) (streamHeader source : Bytes) (resourceId assetId : String) :
    Except Exn Bytes := do
  let text := crypto.dumpHeader (← authenticatedHeader project resourceId assetId)
  let key ← crypto.loadKey project.projectId (← requireProjectKeyId project)
  return assetMagic ++ (bigEndian32 text.length ++ (text ++ (streamHeader ++
    sealChunks crypto text (crypto.initStream streamHeader key) (assetChunks source))))

/-- What is stored, with its digests. -/
def stageAssetFile (project : Project) (streamHeader source : Bytes) (resourceId assetId : String) :
    Except Exn (StagedAsset × Bytes) := do
  if project.privacyMode ≠ .encryptedGit then
    return (⟨"plain", digestOf crypto source, digestOf crypto source⟩, source)
  let bytes ← sealAsset crypto project streamHeader source resourceId assetId
  return (⟨"holder_asset_v1", digestOf crypto source, digestOf crypto bytes⟩, bytes)

/-! ## Recovery -/

def readSize (input : Bytes) : Except Exn (Nat × Bytes) :=
  match readBigEndian32 input with
  | some result => .ok result
  | none => .error (.runtimeError "truncated HolderAsset1 length")

def readBytes (size : Nat) (what : String) (input : Bytes) : Except Exn (Bytes × Bytes) :=
  if input.length < size then .error (.runtimeError ("truncated HolderAsset1 " ++ what))
  else .ok (input.take size, input.drop size)

/-- The loop over the chunks; each turn reads at least a length. -/
def openChunks (data : Bytes) : (turns : Nat) → S → Bytes → Except Exn Bytes
  | 0, _, _ => .error (.runtimeError "truncated HolderAsset1 length")
  | turns + 1, state, input => do
    let (size, input) ← readSize input
    if size < 17 ∨ assetChunkSize + 17 < size then
      throw (.runtimeError "invalid HolderAsset1 chunk size")
    let (cipher, input) ← readBytes size "chunk" input
    match crypto.pull state cipher data with
    | none => throw (.runtimeError "HolderAsset1 authentication failed")
    | some (plain, .message, state) => return plain ++ (← openChunks data turns state input)
    | some (plain, .final, _) =>
      if !input.isEmpty then throw (.runtimeError "trailing data after HolderAsset1 final chunk")
      return plain
    | some _ => throw (.runtimeError "unsupported HolderAsset1 stream tag")

def openAsset (project : Project) (stored : Bytes) (resourceId assetId : String) :
    Except Exn Bytes := do
  if stored.take assetMagic.length ≠ assetMagic then
    throw (.runtimeError "invalid HolderAsset1 header")
  let (size, input) ← readSize (stored.drop assetMagic.length)
  if size = 0 ∨ 1024 * 1024 < size then throw (.runtimeError "invalid HolderAsset1 metadata size")
  let (text, input) ← readBytes size "metadata" input
  if !(← crypto.isHeader text (← authenticatedHeader project resourceId assetId)) then
    throw (.runtimeError "HolderAsset1 identity mismatch")
  let (streamHeader, input) ← readBytes 24 "stream header" input
  let key ← crypto.loadKey project.projectId (← requireProjectKeyId project)
  openChunks crypto text (input.length + 1) (crypto.initStream streamHeader key) input

/-- What `recover_asset_file` leaves at its destination. -/
def recoverAssetFile (project : Project) (stored : Bytes) (resourceId assetId encoding : String)
    (expectedStored expectedPlaintext : FileDigest) : Except Exn Bytes := do
  verifyDigest (digestOf crypto stored) expectedStored "stored asset"
  let plain ← (if encoding = "plain" then .ok stored
    else if encoding = "holder_asset_v1" then openAsset crypto project stored resourceId assetId
    else .error (.runtimeError ("unsupported asset encoding: " ++ encoding)))
  verifyDigest (digestOf crypto plain) expectedPlaintext "plaintext asset"
  return plain

end

/-! ## What is staged is recovered -/

section
variable {S : Type} {crypto : AssetCrypto S} {data source streamHeader bytes : Bytes} {project : Project}
  {resourceId assetId : String}

@[simp] theorem verifyDigest_iff {actual expected : FileDigest} {label : String} :
    verifyDigest actual expected label = .ok () ↔ actual = expected := by
  unfold verifyDigest
  cases actual
  cases expected
  simp only [FileDigest.mk.injEq]
  split
  · next h => simpa [imp_iff_not_or] using h
  · next h => simpa [not_or] using h

theorem assetChunks_ne (source : Bytes) : assetChunks source ≠ [] := by
  unfold assetChunks
  split
  · exact List.cons_ne_nil _ _
  · next h =>
    intro hnil
    have hflat := flatten_chunksOf (show 0 < assetChunkSize by decide) source
    rw [hnil] at hflat
    exact h (List.isEmpty_iff.mpr hflat.symm)

theorem flatten_assetChunks (source : Bytes) : (assetChunks source).flatten = source := by
  unfold assetChunks
  split
  · next h => rw [List.isEmpty_iff.mp h]; rfl
  · exact flatten_chunksOf (by decide) source

theorem length_of_mem_assetChunks {chunk : Bytes} (h : chunk ∈ assetChunks source) :
    chunk.length ≤ assetChunkSize := by
  unfold assetChunks at h
  split at h
  · rw [List.mem_singleton.mp h]
    exact Nat.zero_le _
  · exact length_of_mem_chunksOf h

theorem length_sealChunks (state : S) (chunks : List Bytes) :
    chunks.length ≤ (sealChunks crypto data state chunks).length := by
  induction chunks generalizing state with
  | nil => exact Nat.zero_le _
  | cons chunk chunks ih =>
    cases chunks with
    | nil =>
      simp only [sealChunks, assetFrame, List.length_append, length_bigEndian32, List.length_cons,
        List.length_nil]
      omega
    | cons next chunks =>
      have hrest := ih (crypto.push state chunk data .message).2
      rw [sealChunks]
      · simp only [assetFrame, List.length_append, length_bigEndian32, List.length_cons] at hrest ⊢
        omega
      · exact List.cons_ne_nil _ _

theorem readSize_append {n : Nat} (h : n < 2 ^ 32) (rest : Bytes) :
    readSize (bigEndian32 n ++ rest) = .ok (n, rest) := by
  rw [readSize, readBigEndian32_append, Nat.mod_eq_of_lt h]

theorem readBytes_append (what : String) (bytes rest : Bytes) :
    readBytes bytes.length what (bytes ++ rest) = .ok (bytes, rest) := by
  rw [readBytes, if_neg (by rw [List.length_append]; omega), List.take_left, List.drop_left]

/-- One turn of the loop, on a frame that was pushed. -/
theorem openChunks_frame (hlaw : crypto.Lawful) {chunk : Bytes} (hchunk : chunk.length ≤ assetChunkSize)
    (turns : Nat) (state : S) (tag : StreamTag) (rest : Bytes) :
    openChunks crypto data (turns + 1) state
      (assetFrame (crypto.push state chunk data tag).1 ++ rest) =
    match tag with
    | .message => (chunk ++ ·) <$>
        openChunks crypto data turns (crypto.push state chunk data .message).2 rest
    | .final => if !rest.isEmpty then
        .error (.runtimeError "trailing data after HolderAsset1 final chunk") else .ok chunk
    | _ => .error (.runtimeError "unsupported HolderAsset1 stream tag") := by
  have hlen := hlaw.length_push state chunk data tag
  have hsize : ¬ (chunk.length + 17 < 17 ∨ assetChunkSize + 17 < chunk.length + 17) := by omega
  have hlt : (crypto.push state chunk data tag).1.length < 2 ^ 32 := by
    rw [hlen]
    have : assetChunkSize = 65536 := rfl
    omega
  rw [openChunks, assetFrame, List.append_assoc, readSize_append hlt]
  simp only [bind, Except.bind]
  rw [if_neg (hlen.symm ▸ hsize)]
  simp only [pure, Except.pure, readBytes_append, hlaw.pull_push]
  cases tag with
  | message =>
    dsimp only
    cases openChunks crypto data turns (crypto.push state chunk data .message).2 rest <;> rfl
  | final => rfl
  | push => rfl
  | rekey => rfl

theorem openChunks_sealChunks (hlaw : crypto.Lawful) {chunks : List Bytes} (hne : chunks ≠ [])
    (hsize : ∀ chunk ∈ chunks, chunk.length ≤ assetChunkSize) {turns : Nat}
    (hturns : chunks.length ≤ turns) (state : S) :
    openChunks crypto data turns state (sealChunks crypto data state chunks) = .ok chunks.flatten := by
  induction chunks generalizing turns state with
  | nil => exact absurd rfl hne
  | cons chunk chunks ih =>
    obtain ⟨turns, rfl⟩ : ∃ n, turns = n + 1 := ⟨turns - 1, by simp only [List.length_cons] at hturns; omega⟩
    have hchunk := hsize chunk List.mem_cons_self
    cases chunks with
    | nil =>
      have hframe : openChunks crypto data (turns + 1) state
          (assetFrame (crypto.push state chunk data .final).1 ++ []) = .ok chunk :=
        openChunks_frame hlaw hchunk turns state .final []
      rw [List.append_nil] at hframe
      rw [sealChunks, hframe]
      simp
    | cons next chunks =>
      rw [sealChunks]
      · rw [openChunks_frame hlaw hchunk turns state .message]
        rw [ih (List.cons_ne_nil _ _) (fun c hc => hsize c (List.mem_cons_of_mem _ hc))
          (by simp only [List.length_cons] at hturns ⊢; omega)]
        rfl
      · exact List.cons_ne_nil _ _

/-- The recovery takes the text of the asset's header. -/
def HeaderFits (crypto : AssetCrypto S) (project : Project) (resourceId assetId : String) : Prop :=
  ∀ header, authenticatedHeader project resourceId assetId = .ok header →
    0 < (crypto.dumpHeader header).length ∧ (crypto.dumpHeader header).length ≤ 1024 * 1024

/-- A sealed asset is opened again where its header is neither empty nor above 1 MiB. -/
theorem openAsset_sealAsset_iff (hlaw : crypto.Lawful) (hstream : streamHeader.length = 24)
    (h : sealAsset crypto project streamHeader source resourceId assetId = .ok bytes) :
    openAsset crypto project bytes resourceId assetId = .ok source ↔
      HeaderFits crypto project resourceId assetId := by
  unfold sealAsset at h
  cases hheader : authenticatedHeader project resourceId assetId with
  | error e =>
    rw [hheader] at h
    cases h
  | ok header =>
  cases hkeyId : requireProjectKeyId project with
  | error e =>
    simp only [hheader, hkeyId, bind, Except.bind] at h
    cases h
  | ok keyId =>
  cases hkey : crypto.loadKey project.projectId keyId with
  | error e =>
    simp only [hheader, hkeyId, hkey, bind, Except.bind] at h
    cases h
  | ok key =>
  simp only [hheader, hkeyId, hkey, bind, Except.bind, pure, Except.pure, Except.ok.injEq] at h
  set text := crypto.dumpHeader header with htext
  have hopen : ∀ turns state, (assetChunks source).length ≤ turns →
      openChunks crypto text turns state (sealChunks crypto text state (assetChunks source)) =
        .ok source := fun turns state hturns =>
    (openChunks_sealChunks hlaw (assetChunks_ne source) (fun _ => length_of_mem_assetChunks) hturns
      state).trans (congrArg _ (flatten_assetChunks source))
  set state := crypto.initStream streamHeader key
  set sealed := sealChunks crypto text state (assetChunks source) with hsealed
  have hmagic : bytes.take assetMagic.length = assetMagic := by rw [← h, List.take_left]
  have hrest : bytes.drop assetMagic.length =
      bigEndian32 text.length ++ (text ++ (streamHeader ++ sealed)) := by rw [← h, List.drop_left]
  have hsize : readSize (bytes.drop assetMagic.length) =
      .ok (text.length % 2 ^ 32, text ++ (streamHeader ++ sealed)) := by
    rw [hrest, readSize, readBigEndian32_append]
  have hfits : HeaderFits crypto project resourceId assetId ↔
      0 < text.length ∧ text.length ≤ 1024 * 1024 := by
    unfold HeaderFits
    simp only [hheader, Except.ok.injEq, forall_eq', ← htext]
  rw [hfits, openAsset]
  simp only [hmagic, hsize, hheader, hkeyId, hkey, bind, Except.bind, ne_eq, not_true_eq_false,
    if_false]
  by_cases hlen : text.length < 2 ^ 32
  · rw [Nat.mod_eq_of_lt hlen]
    by_cases hfit : 0 < text.length ∧ text.length ≤ 1024 * 1024
    · have hbounds : ¬ (text.length = 0 ∨ 1024 * 1024 < text.length) := by omega
      have hheaderRead := readBytes_append "stream header" streamHeader sealed
      rw [hstream] at hheaderRead
      rw [if_neg hbounds]
      simp only [readBytes_append, htext, hlaw.isHeader_dump, Bool.not_true, Bool.false_eq_true,
        if_false]
      simp only [← htext, hheaderRead]
      refine iff_of_true (hopen _ _ ?_) hfit
      exact (length_sealChunks state (assetChunks source)).trans (Nat.le_succ _)
    · have hbounds : text.length = 0 ∨ 1024 * 1024 < text.length := by omega
      rw [if_pos hbounds]
      exact iff_of_false nofun hfit
  -- A longer text is cut where its length is written.
  · refine iff_of_false ?_ fun hfit => hlen (by omega)
    split
    · exact nofun
    have hcut : text.length % 2 ^ 32 < text.length := by
      have := Nat.mod_lt text.length (by decide : 2 ^ 32 > 0)
      omega
    have hread : readBytes (text.length % 2 ^ 32) "metadata" (text ++ (streamHeader ++ sealed)) =
        .ok (text.take (text.length % 2 ^ 32),
          (text ++ (streamHeader ++ sealed)).drop (text.length % 2 ^ 32)) := by
      rw [readBytes, if_neg (by rw [List.length_append]; omega), List.take_append_of_le_length hcut.le]
    have hother := hlaw.isHeader_cut header _ hcut
    rw [hread]
    simp only
    rw [← htext] at hother
    cases hparsed : crypto.isHeader (text.take (text.length % 2 ^ 32)) header with
    | error e => exact nofun
    | ok same =>
      cases same with
      | true => exact absurd hparsed hother
      | false => exact nofun

/-- What was staged is recovered; an envelope where its header fits. -/
theorem recoverAssetFile_iff (hlaw : crypto.Lawful) (hstream : streamHeader.length = 24)
    {mode : PrivacyMode} {staged : StagedAsset}
    (h : stageAssetFile crypto { project with privacyMode := mode } streamHeader source resourceId
      assetId = .ok (staged, bytes)) :
    recoverAssetFile crypto project bytes resourceId assetId staged.encoding staged.stored
        staged.plaintext = .ok source ↔
      (staged.encoding = "holder_asset_v1" → HeaderFits crypto project resourceId assetId) := by
  unfold stageAssetFile at h
  simp only [bind, Except.bind, pure, Except.pure] at h
  split at h
  · cases h
    refine iff_of_true ?_ fun hencoding => absurd hencoding (by simp)
    rw [recoverAssetFile, verifyDigest_iff.mpr rfl]
    simp only [bind, Except.bind, if_true, verifyDigest_iff.mpr]
    rfl
  · split at h
    · cases h
    next bytes' hseal =>
    cases h
    have hseal' : sealAsset crypto project streamHeader source resourceId assetId = .ok bytes := hseal
    simp only [true_implies]
    rw [← openAsset_sealAsset_iff hlaw hstream hseal', recoverAssetFile, verifyDigest_iff.mpr rfl]
    simp only [bind, Except.bind, String.reduceEq, if_false, if_true]
    cases hopen : openAsset crypto project bytes resourceId assetId with
    | error e => exact iff_of_false nofun nofun
    | ok plain =>
      simp only
      cases hverify : verifyDigest (digestOf crypto plain) (digestOf crypto source) "plaintext asset" with
      | error e =>
        refine iff_of_false nofun fun he => ?_
        cases he
        rw [verifyDigest_iff.mpr rfl] at hverify
        cases hverify
      | ok u => rfl

/-- What is staged has the digest of its source. -/
theorem stageAssetFile_ok {staged : StagedAsset}
    (h : stageAssetFile crypto project streamHeader source resourceId assetId = .ok (staged, bytes)) :
    staged.plaintext = digestOf crypto source ∧ staged.stored = digestOf crypto bytes ∧
      (staged.encoding = "plain" ∧ project.privacyMode ≠ .encryptedGit ∨
        staged.encoding = "holder_asset_v1" ∧ project.privacyMode = .encryptedGit) := by
  unfold stageAssetFile at h
  simp only [bind, Except.bind, pure, Except.pure] at h
  split at h
  · next hmode =>
    cases h
    exact ⟨rfl, rfl, .inl ⟨rfl, hmode⟩⟩
  · next hmode =>
    split at h
    · cases h
    · cases h
      exact ⟨rfl, rfl, .inr ⟨rfl, not_not.mp hmode⟩⟩

end

end HolderCore
