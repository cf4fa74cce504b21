import HolderCore.Resource.AssetEnvelope

/-! # Integrity of asset envelopes

What is refused of the files that differ from a sealed asset, where the secret stream is ideal: in
what the file offers to it, it reads a cipher only where that cipher was pushed. -/

namespace HolderCore

/-- A chunk that was pushed: the stream before it, its cipher and the data that goes with it. -/
structure PushedChunk (S : Type) where
  state : S
  cipher : Bytes
  data : Bytes

section
variable {S : Type} (crypto : AssetCrypto S)

/-- What `sealChunks` pushes. -/
def pushedChunks (data : Bytes) : S → List Bytes → List (PushedChunk S)
  | _, [] => []
  | state, [chunk] => [⟨state, (crypto.push state chunk data .final).1, data⟩]
  | state, chunk :: chunks =>
    ⟨state, (crypto.push state chunk data .message).1, data⟩ ::
      pushedChunks data (crypto.push state chunk data .message).2 chunks

/-- The stream as an ideal one, for a file that was not sealed as it is. -/
structure IdealStream (key streamHeader : Bytes) (log : List (PushedChunk S)) (altered : Bytes) :
    Prop where
  /-- No two chunks are at one place. -/
  places : (log.map (·.state)).Nodup
  /-- Another header starts another stream. -/
  fresh : ∀ other, other <:+: altered → other.length = 24 →
    crypto.initStream other key ∈ log.map (·.state) → other = streamHeader
  /-- A chunk is read at its place and with its data. -/
  authentic : ∀ state cipher data, cipher <:+: altered → data <:+: altered →
    (state ∈ log.map (·.state) ∨
      ∃ other, other <:+: altered ∧ other.length = 24 ∧ state = crypto.initStream other key) →
    (crypto.pull state cipher data).isSome → (⟨state, cipher, data⟩ : PushedChunk S) ∈ log

end

section
variable {S : Type} {crypto : AssetCrypto S} {data source streamHeader bytes altered : Bytes}
  {project : Project} {resourceId assetId : String}

/-! ## Reading -/

theorem readSize_ok {input rest : Bytes} {size : Nat} (hbytes : ∀ c ∈ input, c.toNat < 256)
    (h : readSize input = .ok (size, rest)) : input = bigEndian32 size ++ rest := by
  unfold readSize at h
  split at h
  · next hread =>
    cases h
    exact eq_of_readBigEndian32 hbytes hread
  · cases h

theorem readBytes_ok {size : Nat} {what : String} {input text rest : Bytes}
    (h : readBytes size what input = .ok (text, rest)) : input = text ++ rest ∧ text.length = size := by
  unfold readBytes at h
  split at h
  · cases h
  · cases h
    exact ⟨(List.take_append_drop size input).symm, by rw [List.length_take]; omega⟩

theorem pushedChunks_cons {state : S} {chunk : Bytes} {chunks : List Bytes} (hne : chunks ≠ []) :
    pushedChunks crypto data state (chunk :: chunks) =
      ⟨state, (crypto.push state chunk data .message).1, data⟩ ::
        pushedChunks crypto data (crypto.push state chunk data .message).2 chunks := by
  cases chunks with
  | nil => exact absurd rfl hne
  | cons next chunks => rfl

theorem sealChunks_cons {state : S} {chunk : Bytes} {chunks : List Bytes} (hne : chunks ≠ []) :
    sealChunks crypto data state (chunk :: chunks) =
      assetFrame (crypto.push state chunk data .message).1 ++
        sealChunks crypto data (crypto.push state chunk data .message).2 chunks := by
  cases chunks with
  | nil => exact absurd rfl hne
  | cons next chunks => rfl

theorem data_of_mem_pushedChunks {entry : PushedChunk S} {state : S} {chunks : List Bytes}
    (h : entry ∈ pushedChunks crypto data state chunks) : entry.data = data := by
  induction chunks generalizing state with
  | nil => cases h
  | cons chunk chunks ih =>
    by_cases hne : chunks = []
    · subst hne
      rw [List.mem_singleton.mp h]
    · rw [pushedChunks_cons hne] at h
      rcases List.mem_cons.mp h with rfl | h
      · rfl
      · exact ih h

/-- One turn of the loop that returns reads a frame of what is left. -/
theorem openChunks_ok {turns : Nat} {state : S} {input plain : Bytes}
    (hbytes : ∀ c ∈ input, c.toNat < 256)
    (h : openChunks crypto data (turns + 1) state input = .ok plain) :
    ∃ cipher rest chunk tag state', input = assetFrame cipher ++ rest ∧
      crypto.pull state cipher data = some (chunk, tag, state') ∧
      (tag = .message ∧ (∃ later, openChunks crypto data turns state' rest = .ok later) ∨
        tag = .final ∧ rest = []) := by
  rw [openChunks] at h
  cases hsize : readSize input with
  | error e =>
    rw [hsize] at h
    cases h
  | ok read =>
  obtain ⟨size, tail⟩ := read
  simp only [hsize, bind, Except.bind] at h
  split at h
  · cases h
  simp only [pure, Except.pure] at h
  cases hread : readBytes size "chunk" tail with
  | error e =>
    rw [hread] at h
    cases h
  | ok read =>
  obtain ⟨cipher, rest⟩ := read
  obtain ⟨htail, hlen⟩ := readBytes_ok hread
  have hinput : input = assetFrame cipher ++ rest := by
    rw [readSize_ok hbytes hsize, htail, assetFrame, hlen, List.append_assoc]
  simp only [hread] at h
  split at h
  · cases h
  · next chunk state' hpull =>
    cases hrest : openChunks crypto data turns state' rest with
    | error e =>
      rw [hrest] at h
      cases h
    | ok later =>
      exact ⟨cipher, rest, chunk, .message, state', hinput, hpull, .inl ⟨rfl, later, hrest⟩⟩
  · next chunk state' hpull =>
    split at h
    · cases h
    · next hempty =>
      exact ⟨cipher, rest, chunk, .final, state', hinput, hpull, .inr ⟨rfl, by simpa using hempty⟩⟩
  · cases h

/-! ## Nothing else is read -/

/-- At the place of a chunk only its cipher is read. -/
theorem IdealStream.cipher_eq {key : Bytes} {log : List (PushedChunk S)} {entry : PushedChunk S}
    {cipher : Bytes} (hideal : IdealStream crypto key streamHeader log altered) (hentry : entry ∈ log)
    (hcipher : cipher <:+: altered) (hdata : data <:+: altered)
    (hpull : (crypto.pull entry.state cipher data).isSome) : cipher = entry.cipher := by
  have hlogged := hideal.authentic entry.state cipher data hcipher hdata
    (.inl (List.mem_map_of_mem hentry)) hpull
  have hsame := List.inj_on_of_nodup_map hideal.places hlogged hentry rfl
  rw [← hsame]

/-- What is read to its end from a place of the stream is what was pushed from there. -/
theorem openChunks_pushed (hlaw : crypto.Lawful) {key : Bytes} {log done : List (PushedChunk S)}
    {chunks : List Bytes} {turns : Nat} {state : S} {input plain : Bytes}
    (hideal : IdealStream crypto key streamHeader log altered) (hne : chunks ≠ [])
    (hlog : log = done ++ pushedChunks crypto data state chunks)
    (hbytes : ∀ c ∈ altered, c.toNat < 256) (hdata : data <:+: altered) (hinput : input <:+ altered)
    (h : openChunks crypto data turns state input = .ok plain) :
    input = sealChunks crypto data state chunks := by
  induction chunks generalizing done turns state input plain with
  | nil => exact absurd rfl hne
  | cons chunk chunks ih =>
    cases turns with
    | zero => cases h
    | succ turns =>
    obtain ⟨cipher, rest, plain', tag, state', rfl, hpull, hturn⟩ :=
      openChunks_ok (fun c hc => hbytes c (hinput.subset hc)) h
    have hcipher : cipher <:+: altered :=
      .trans ⟨bigEndian32 cipher.length, rest, rfl⟩ hinput.isInfix
    have hrest : rest <:+ altered := (List.suffix_append _ _).trans hinput
    have hpulled : (crypto.pull state cipher data).isSome := by rw [hpull, Option.isSome_some]
    by_cases hlast : chunks = []
    · subst hlast
      have hentry : (⟨state, (crypto.push state chunk data .final).1, data⟩ : PushedChunk S) ∈ log := by
        rw [hlog]
        exact List.mem_append_right _ List.mem_cons_self
      have heq : cipher = (crypto.push state chunk data .final).1 :=
        hideal.cipher_eq hentry hcipher hdata hpulled
      rw [heq, hlaw.pull_push] at hpull
      cases hpull
      -- The tag is the final one.
      rcases hturn with ⟨htag, -⟩ | ⟨-, hnil⟩
      · cases htag
      · rw [hnil, heq, List.append_nil]
        rfl
    · have hpushed : pushedChunks crypto data state (chunk :: chunks) =
          ⟨state, (crypto.push state chunk data .message).1, data⟩ ::
            pushedChunks crypto data (crypto.push state chunk data .message).2 chunks :=
        pushedChunks_cons hlast
      have hentry : (⟨state, (crypto.push state chunk data .message).1, data⟩ : PushedChunk S) ∈ log := by
        rw [hlog, hpushed]
        exact List.mem_append_right _ List.mem_cons_self
      have heq : cipher = (crypto.push state chunk data .message).1 :=
        hideal.cipher_eq hentry hcipher hdata hpulled
      rw [heq, hlaw.pull_push] at hpull
      cases hpull
      rcases hturn with ⟨-, later, hopen⟩ | ⟨htag, -⟩
      · rw [sealChunks_cons hlast, heq]
        congr 1
        refine @ih (done ++ [⟨state, (crypto.push state chunk data .message).1, data⟩]) _ _ _ _ hlast ?_
          hrest hopen
        rw [hlog, hpushed, List.append_assoc, List.singleton_append]
      · cases htag

/-- The stream is ideal for a file that is offered in the place of a sealed one. -/
def IdealFor (crypto : AssetCrypto S) (project : Project) (streamHeader source : Bytes)
    (resourceId assetId : String) (altered : Bytes) : Prop :=
  ∀ header key, authenticatedHeader project resourceId assetId = .ok header →
    crypto.loadKey project.projectId header.keyId = .ok key →
    IdealStream crypto key streamHeader (pushedChunks crypto (crypto.dumpHeader header)
      (crypto.initStream streamHeader key) (assetChunks source)) altered

theorem authenticatedHeader_ok {header : AssetHeader}
    (h : authenticatedHeader project resourceId assetId = .ok header) :
    requireProjectKeyId project = .ok header.keyId := by
  unfold authenticatedHeader at h
  cases hkeyId : requireProjectKeyId project with
  | error e =>
    rw [hkeyId] at h
    cases h
  | ok keyId =>
    rw [hkeyId] at h
    cases h
    rfl

theorem sealAsset_ok
    (h : sealAsset crypto project streamHeader source resourceId assetId = .ok bytes) :
    ∃ header key, authenticatedHeader project resourceId assetId = .ok header ∧
      crypto.loadKey project.projectId header.keyId = .ok key ∧
      bytes = assetMagic ++ (bigEndian32 (crypto.dumpHeader header).length ++
        (crypto.dumpHeader header ++ (streamHeader ++ sealChunks crypto (crypto.dumpHeader header)
          (crypto.initStream streamHeader key) (assetChunks source)))) := by
  unfold sealAsset at h
  cases hheader : authenticatedHeader project resourceId assetId with
  | error e =>
    rw [hheader] at h
    cases h
  | ok header =>
  have hkeyId := authenticatedHeader_ok hheader
  cases hkey : crypto.loadKey project.projectId header.keyId with
  | error e =>
    simp only [hheader, hkeyId, hkey, bind, Except.bind] at h
    cases h
  | ok key =>
  simp only [hheader, hkeyId, hkey, bind, Except.bind, pure, Except.pure, Except.ok.injEq] at h
  exact ⟨header, key, rfl, hkey, h.symm⟩

theorem openAsset_ok {header : AssetHeader} {key plain : Bytes} (hbytes : ∀ c ∈ altered, c.toNat < 256)
    (hheader : authenticatedHeader project resourceId assetId = .ok header)
    (hkey : crypto.loadKey project.projectId header.keyId = .ok key)
    (h : openAsset crypto project altered resourceId assetId = .ok plain) :
    ∃ text other input, altered = assetMagic ++ (bigEndian32 text.length ++ (text ++ (other ++ input))) ∧
      other.length = 24 ∧
      openChunks crypto text (input.length + 1) (crypto.initStream other key) input = .ok plain := by
  have hkeyId := authenticatedHeader_ok hheader
  unfold openAsset at h
  split at h
  · cases h
  next hmagic =>
  have haltered := List.take_append_drop assetMagic.length altered
  rw [not_not.mp hmagic] at haltered
  generalize altered.drop assetMagic.length = afterMagic at h haltered
  cases hsize : readSize afterMagic with
  | error e =>
    simp only [hsize, bind, Except.bind] at h
    cases h
  | ok read =>
  obtain ⟨size, afterSize⟩ := read
  simp only [hsize, hheader, hkeyId, hkey, bind, Except.bind] at h
  split at h
  · cases h
  cases htext : readBytes size "metadata" afterSize with
  | error e =>
    rw [htext] at h
    cases h
  | ok read =>
  obtain ⟨text, afterText⟩ := read
  simp only [htext] at h
  cases hsame : crypto.isHeader text header with
  | error e =>
    rw [hsame] at h
    cases h
  | ok same =>
  simp only [hsame] at h
  split at h
  · cases h
  cases hother : readBytes 24 "stream header" afterText with
  | error e =>
    rw [hother] at h
    cases h
  | ok read =>
  obtain ⟨other, input⟩ := read
  simp only [hother] at h
  obtain ⟨rfl, hlen⟩ := readBytes_ok htext
  obtain ⟨rfl, hstream⟩ := readBytes_ok hother
  have hafter : afterMagic = bigEndian32 size ++ (text ++ (other ++ input)) :=
    readSize_ok (fun c hc => hbytes c (by rw [← haltered]; exact List.mem_append_right _ hc)) hsize
  exact ⟨text, other, input, by rw [← haltered, hafter, hlen], hstream, h⟩

/-- Of the files that are offered in its place, only the sealed one is opened. -/
theorem eq_of_openAsset (hlaw : crypto.Lawful) {plain : Bytes}
    (hseal : sealAsset crypto project streamHeader source resourceId assetId = .ok bytes)
    (hbytes : ∀ c ∈ altered, c.toNat < 256)
    (hideal : IdealFor crypto project streamHeader source resourceId assetId altered)
    (h : openAsset crypto project altered resourceId assetId = .ok plain) : altered = bytes := by
  obtain ⟨header, key, hheader, hkey, rfl⟩ := sealAsset_ok hseal
  obtain ⟨text, other, input, rfl, hlength, hopen⟩ := openAsset_ok hbytes hheader hkey h
  have hstream := hideal header key hheader hkey
  set log := pushedChunks crypto (crypto.dumpHeader header) (crypto.initStream streamHeader key)
    (assetChunks source) with hlog
  have hafter : input <:+ assetMagic ++ (bigEndian32 text.length ++ (text ++ (other ++ input))) :=
    ⟨assetMagic ++ (bigEndian32 text.length ++ (text ++ other)), by simp only [List.append_assoc]⟩
  have hother : other <:+: assetMagic ++ (bigEndian32 text.length ++ (text ++ (other ++ input))) :=
    ⟨assetMagic ++ (bigEndian32 text.length ++ text), input, by simp only [List.append_assoc]⟩
  have htext : text <:+: assetMagic ++ (bigEndian32 text.length ++ (text ++ (other ++ input))) :=
    ⟨assetMagic ++ bigEndian32 text.length, other ++ input, by simp only [List.append_assoc]⟩
  -- The first chunk that is read was pushed: with this header of the asset and of the stream.
  obtain ⟨cipher, rest, chunk, tag, state', hinput, hpull, -⟩ :=
    openChunks_ok (fun c hc => hbytes c (hafter.subset hc)) hopen
  have hcipher : cipher <:+: assetMagic ++ (bigEndian32 text.length ++ (text ++ (other ++ input))) :=
    .trans ⟨bigEndian32 cipher.length, rest, hinput.symm⟩ hafter.isInfix
  have hpulled : (crypto.pull (crypto.initStream other key) cipher text).isSome := by
    rw [hpull, Option.isSome_some]
  have hlogged := hstream.authentic _ _ _ hcipher htext (.inr ⟨other, hother, hlength, rfl⟩) hpulled
  have hsameText : text = crypto.dumpHeader header := data_of_mem_pushedChunks hlogged
  have hsameStream : other = streamHeader :=
    hstream.fresh other hother hlength (List.mem_map_of_mem hlogged)
  rw [hsameText, hsameStream] at hopen
  rw [openChunks_pushed hlaw hstream (assetChunks_ne source) (List.nil_append log).symm hbytes
    (hsameText ▸ htext) hafter hopen, hsameText, hsameStream]

/-! ## What is staged is kept -/

/-- Every other file is refused, also where the digest of that file is the one that is expected. -/
def RefusesOthers (crypto : AssetCrypto S) (project : Project) (streamHeader source bytes : Bytes)
    (resourceId assetId encoding : String) : Prop :=
  ∀ altered, altered ≠ bytes → (∀ c ∈ altered, c.toNat < 256) →
    IdealFor crypto project streamHeader source resourceId assetId altered →
    ∀ expected, ∃ e, recoverAssetFile crypto project altered resourceId assetId encoding
      (digestOf crypto altered) expected = .error e

theorem refusesOthers (hlaw : crypto.Lawful)
    (hseal : sealAsset crypto project streamHeader source resourceId assetId = .ok bytes) :
    RefusesOthers crypto project streamHeader source bytes resourceId assetId "holder_asset_v1" := by
  intro altered hne hbytes hideal expected
  rw [recoverAssetFile, verifyDigest_iff.mpr rfl]
  simp only [bind, Except.bind, String.reduceEq, if_false, if_true]
  cases hopen : openAsset crypto project altered resourceId assetId with
  | error e => exact ⟨e, rfl⟩
  | ok plain => exact absurd (eq_of_openAsset hlaw hseal hbytes hideal hopen) hne

/-- What is staged is recovered, and in an encrypted project nothing else is, if and only if the
project is plain or the text of the header fits. -/
theorem stagedAsset_kept_iff (hlaw : crypto.Lawful) (hstream : streamHeader.length = 24)
    {staged : StagedAsset}
    (h : stageAssetFile crypto project streamHeader source resourceId assetId = .ok (staged, bytes)) :
    (recoverAssetFile crypto project bytes resourceId assetId staged.encoding staged.stored
        staged.plaintext = .ok source ∧
      (project.privacyMode = .encryptedGit →
        RefusesOthers crypto project streamHeader source bytes resourceId assetId staged.encoding)) ↔
      (project.privacyMode = .encryptedGit → HeaderFits crypto project resourceId assetId) := by
  have hrecover : recoverAssetFile crypto project bytes resourceId assetId staged.encoding
        staged.stored staged.plaintext = .ok source ↔
      (staged.encoding = "holder_asset_v1" → HeaderFits crypto project resourceId assetId) :=
    @recoverAssetFile_iff _ _ _ _ _ project _ _ hlaw hstream project.privacyMode _ h
  obtain ⟨-, -, ⟨hencoding, hmode⟩ | ⟨hencoding, hmode⟩⟩ := stageAssetFile_ok h
  · exact iff_of_true ⟨hrecover.mpr fun he => absurd (hencoding.symm.trans he) (by simp),
      fun he => absurd he hmode⟩ fun he => absurd he hmode
  · have hseal : sealAsset crypto project streamHeader source resourceId assetId = .ok bytes := by
      unfold stageAssetFile at h
      rw [if_neg (not_not.mpr hmode)] at h
      cases hsealed : sealAsset crypto project streamHeader source resourceId assetId with
      | error e =>
        rw [hsealed] at h
        cases h
      | ok sealed =>
        rw [hsealed] at h
        cases h
        rfl
    simp only [hencoding, hmode, true_implies] at hrecover ⊢
    rw [hrecover]
    exact and_iff_left (refusesOthers hlaw hseal)

end

/-! ## A sealed byte and a long header -/

def tagByte : StreamTag → Char
  | .message => '0'
  | .push => '1'
  | .rekey => '2'
  | .final => '3'

def headerText (header : AssetHeader) : Bytes :=
  ("\x7b\"asset_id\":\"" ++ header.assetId ++ "\",\"key_id\":\"" ++ header.keyId ++
    "\",\"project_id\":\"" ++ header.projectId ++ "\",\"resource_id\":\"" ++ header.resourceId ++
    "\",\"version\":1\x7d").toList

/-- A stream that counts its chunks and hides nothing. -/
def countedCrypto : AssetCrypto (Bytes × Nat) where
  sha256 bytes := "sha256:" ++ String.ofList bytes
  loadKey _ _ := .ok []
  initStream streamHeader _ := (streamHeader, 0)
  push state message _ tag := (tagByte tag :: (List.replicate 16 '~' ++ message), (state.1, state.2 + 1))
  pull state cipher _ :=
    if (cipher.drop 1).take 16 ≠ List.replicate 16 '~' then none
    else ([.message, .push, .rekey, .final].find? fun tag => cipher.head? == some (tagByte tag)).map
      fun tag => (cipher.drop 17, tag, (state.1, state.2 + 1))
  dumpHeader := headerText
  isHeader text header := .ok (text == headerText header)

theorem countedCrypto_lawful : countedCrypto.Lawful where
  sha256_ne bytes h := by
    have hlist := congrArg String.toList h
    simp [countedCrypto] at hlist
  length_push state message data tag := by
    simp only [countedCrypto, List.length_cons, List.length_append, List.length_replicate]
    omega
  pull_push state message data tag := by cases tag <;> simp [countedCrypto, tagByte]
  isHeader_dump header := by simp [countedCrypto]
  isHeader_cut header n hn h := by
    simp only [countedCrypto, Except.ok.injEq, beq_iff_eq] at h hn
    have hlen := congrArg List.length h
    rw [List.length_take] at hlen
    omega

def sealedProject : Project := ⟨"home", .encryptedGit, some "key"⟩

def streamDots : Bytes := List.replicate 24 '.'

theorem sealedProject_staged (source : Bytes) (resourceId assetId : String) :
    ∃ staged bytes, stageAssetFile countedCrypto sealedProject streamDots source resourceId assetId =
      .ok (staged, bytes) ∧ staged.encoding = "holder_asset_v1" :=
  ⟨_, _, rfl, rfl⟩

/-- A byte is sealed. -/
def sealedByte : Bytes :=
  match stageAssetFile countedCrypto sealedProject streamDots ['x'] "cafe" "sheet" with
  | .ok (_, bytes) => bytes
  | .error _ => []

/-- The last chunk without its cipher. -/
def cutByte : Bytes := sealedByte.take (sealedByte.length - 18)

/-- Where no cipher is offered, none is read. -/
theorem cutByte_ideal : IdealFor countedCrypto sealedProject streamDots ['x'] "cafe" "sheet" cutByte := by
  intro header key hheader hkey
  refine ⟨List.nodup_singleton _, fun other _ _ hmem => ?_, fun state cipher data hcipher _ _ hpull => ?_⟩
  · exact congrArg Prod.fst (List.mem_singleton.mp hmem)
  · have hnone : '~' ∉ cutByte := by decide +kernel
    have htag : '~' ∉ (cipher.drop 1).take 16 := fun hmem =>
      hnone (hcipher.subset (List.mem_of_mem_drop (List.mem_of_mem_take hmem)))
    have hne : (cipher.drop 1).take 16 ≠ List.replicate 16 '~' := by
      intro heq
      rw [heq] at htag
      exact htag (by decide)
    simp only [countedCrypto, if_pos hne] at hpull
    cases hpull

theorem sealedByte_kept : ∃ staged bytes,
    stageAssetFile countedCrypto sealedProject streamDots ['x'] "cafe" "sheet" = .ok (staged, bytes) ∧
    recoverAssetFile countedCrypto sealedProject bytes "cafe" "sheet" staged.encoding staged.stored
      staged.plaintext = .ok ['x'] ∧
    ∀ expected, ∃ e, recoverAssetFile countedCrypto sealedProject cutByte "cafe" "sheet" staged.encoding
      (digestOf countedCrypto cutByte) expected = .error e := by
  obtain ⟨staged, bytes, hstage, -⟩ := sealedProject_staged ['x'] "cafe" "sheet"
  have hfits : HeaderFits countedCrypto sealedProject "cafe" "sheet" := by
    intro header hheader
    cases hheader
    decide +kernel
  have hkept := (stagedAsset_kept_iff countedCrypto_lawful List.length_replicate hstage).mpr fun _ => hfits
  have hbytes : sealedByte = bytes := by
    rw [sealedByte, hstage]
  have hlarge : 18 ≤ sealedByte.length := by decide +kernel
  have hsmall : cutByte.all (fun c => decide (c.toNat < 256)) = true := by decide +kernel
  refine ⟨staged, bytes, hstage, hkept.1, hkept.2 rfl cutByte ?_ ?_ cutByte_ideal⟩
  · intro hsame
    have hlen := congrArg List.length (hsame.trans hbytes.symm)
    rw [cutByte, List.length_take] at hlen
    omega
  · simpa only [List.all_eq_true, decide_eq_true_iff] using hsmall

/-- The text of a header above 1 MiB is sealed and not read. -/
theorem longHeader_lost : ∃ resourceId staged bytes,
    stageAssetFile countedCrypto sealedProject streamDots ['x'] resourceId "sheet" = .ok (staged, bytes) ∧
    recoverAssetFile countedCrypto sealedProject bytes resourceId "sheet" staged.encoding staged.stored
      staged.plaintext ≠ .ok ['x'] := by
  obtain ⟨n, hn⟩ : ∃ n, n = 1024 * 1024 := ⟨_, rfl⟩
  obtain ⟨staged, bytes, hstage, hencoding⟩ :=
    sealedProject_staged ['x'] (String.ofList (List.replicate n 'a')) "sheet"
  refine ⟨_, staged, bytes, hstage, fun hrecovered => ?_⟩
  have hfits := (@recoverAssetFile_iff _ _ _ _ _ sealedProject _ _ countedCrypto_lawful
    List.length_replicate .encryptedGit _ hstage).mp hrecovered hencoding
  have hlen := (hfits _ rfl).2
  simp only [countedCrypto, headerText, String.toList_append, List.length_append, String.toList_ofList,
    List.length_replicate] at hlen
  have hname : "sheet".toList.length = 5 := rfl
  omega

end HolderCore
