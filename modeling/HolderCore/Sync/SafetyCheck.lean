import HolderCore.Privacy.Envelope
import HolderCore.Project.LoadLemmas
import HolderCore.Project.WholeRebuild
import HolderCore.Sync.Push

/-! # The safety check and the readers

The check before a push looks for the magic line in every file below `cards`, `resources` and
`locations`. A rebuild reads the Markdown and JSON files of more directories, and reads a magic line
that ends in CRLF. -/

namespace HolderCore

/-- A file that the rebuild of an encrypted project decrypts: a card, a trashed card, a message or a
trashed one, a resource or a location. -/
def readPath (path : String) : Bool :=
  ["cards", "trash/cards", "ai_messages", "trash/ai_messages"].any (fun base =>
      startsWith (base ++ "/") path.toList && isMarkdown path) ||
    ["resources", "locations"].any fun base =>
      startsWith (base ++ "/") path.toList && isJson path

/-- An envelope as `parse_envelope` takes it, where its metadata line meets a condition. -/
def EnvelopeUpTo (goodMeta : Bytes → Prop) (bytes : Bytes) : Prop :=
  ∃ metaLine cipherLine, envelopeLines bytes = .ok (metaLine, cipherLine) ∧ goodMeta metaLine

/-- The metadata that `parse_envelope` takes. -/
def MetaTaken (crypto : EnvelopeCrypto) (metaLine : Bytes) : Prop :=
  ∃ metadata ids, crypto.parse metaLine = some metadata ∧ readEnvelopeMeta metadata = .ok ids

theorem parseEnvelope_ok_iff {crypto : EnvelopeCrypto} {bytes : Bytes} :
    (∃ parts, parseEnvelope crypto bytes = .ok parts) ↔ EnvelopeUpTo (MetaTaken crypto) bytes := by
  unfold parseEnvelope EnvelopeUpTo MetaTaken
  cases hlines : envelopeLines bytes with
  | error e => simp [bind, Except.bind]
  | ok lines =>
    obtain ⟨metaLine, cipherLine⟩ := lines
    cases hparse : crypto.parse metaLine with
    | none => simp [bind, Except.bind, hparse, throw, throwThe, MonadExceptOf.throw]
    | some metadata =>
      cases hmeta : readEnvelopeMeta metadata with
      | error e => simp [bind, Except.bind, hparse, hmeta]
      | ok ids =>
        obtain ⟨keyId, iv⟩ := ids
        simp [bind, Except.bind, hparse, hmeta, pure, Except.pure]

section
variable {K : Type} {env : Env K} {work : Tree} {path : String}

/-- The files that the rebuild collects. -/
theorem readPath_iff (hdir : ∀ paths, (env.directoryOrder paths).Perm paths) {bytes : Bytes}
    (hfile : work[path]? = some bytes) : readPath path = true ↔
      (∃ base ∈ ["cards", "trash/cards", "ai_messages", "trash/ai_messages"],
        path ∈ collectFiles env work base) ∨
      ∃ base ∈ ["resources", "locations"], path ∈ collectManifests env work base := by
  simp only [readPath, Bool.or_eq_true, List.any_eq_true, Bool.and_eq_true, mem_collectFiles hdir,
    mem_collectManifests hdir, Map.mem_iff, hfile, Option.some.injEq, exists_eq', true_and]

end

/-! ## Where the check and the readers agree -/

/-- The check lets a tree pass exactly when the readers take every file. -/
def CheckAgrees (work : Tree) (taken : Bytes → Prop) : Prop :=
  assertEncryptionPushSafe work = .ok () ↔
    ∀ (path : String) (bytes : Bytes), work[path]? = some bytes → readPath path = true → taken bytes

/-- A file that is read and checked, is no envelope and has no magic line. -/
def Caught (work : Tree) (taken : Bytes → Prop) : Prop :=
  ∃ (path : String) (bytes : Bytes), work[path]? = some bytes ∧ protectedPath path = true ∧
    readPath path = true ∧ hasEnvelopeHeader bytes = false ∧ ¬ taken bytes

/-- A file that the check rejects though no reader does: one that is not read, or an envelope whose
magic line ends in CRLF. -/
def Overblocked (work : Tree) (taken : Bytes → Prop) : Prop :=
  ∃ (path : String) (bytes : Bytes), work[path]? = some bytes ∧ protectedPath path = true ∧
    (readPath path = false ∧ hasEnvelopeHeader bytes = false ∨
      startsWith "HolderPriv1\r" bytes = true ∧ taken bytes)

/-- A file that no reader takes and the check lets pass: one in a directory that is not checked, or one
with a magic line and nothing behind it that can be read. -/
def Missed (work : Tree) (taken : Bytes → Prop) : Prop :=
  ∃ (path : String) (bytes : Bytes), work[path]? = some bytes ∧ readPath path = true ∧
    (protectedPath path = false ∨ hasEnvelopeHeader bytes = true) ∧ ¬ taken bytes

section
variable {work : Tree} {bytes : Bytes} {goodMeta : Bytes → Prop}

theorem assertEncryptionPushSafe_ok_forall : assertEncryptionPushSafe work = .ok () ↔
    ∀ (path : String) (bytes : Bytes), work[path]? = some bytes → protectedPath path = true →
      hasEnvelopeHeader bytes = true := by
  rw [assertEncryptionPushSafe_ok_iff, plaintextPaths, List.filter_eq_nil_iff]
  simp only [Std.ExtTreeMap.mem_keys, Map.mem_iff, Bool.and_eq_true, not_and, Bool.not_eq_true]
  constructor
  · intro h path bytes hfile hpath
    have hany := h path ⟨bytes, hfile⟩ hpath
    simpa [hfile] using hany
  · rintro h path ⟨bytes, hfile⟩ hpath
    simp [hfile, h path bytes hfile hpath]

theorem EnvelopeUpTo.magic (h : EnvelopeUpTo goodMeta bytes) :
    stripTrailingCarriageReturn (bytes.takeWhile (· != '\n')) = "HolderPriv1".toList := by
  obtain ⟨metaLine, cipherLine, hlines, -⟩ := h
  unfold envelopeLines at hlines
  cases bytes with
  | nil => cases hlines
  | cons c cs =>
    by_contra hmagic
    simp only [getline, if_pos hmagic] at hlines
    cases hlines

/-- The parser takes a file without the exact magic line only when the line ends in CRLF. -/
theorem EnvelopeUpTo.crlf_iff (h : EnvelopeUpTo goodMeta bytes) :
    hasEnvelopeHeader bytes = false ↔ startsWith "HolderPriv1\r" bytes = true := by
  have hmagic := h.magic
  have hsplit := List.takeWhile_append_dropWhile (p := (· != '\n')) (l := bytes)
  have hrest := List.head?_dropWhile_not (· != '\n') bytes
  unfold hasEnvelopeHeader
  generalize bytes.takeWhile (· != '\n') = magic at hmagic hsplit ⊢
  generalize bytes.dropWhile (· != '\n') = rest at hsplit hrest
  have hcr : "HolderPriv1\r".toList = "HolderPriv1".toList ++ ['\r'] := by decide
  rw [startsWith, hcr, ← hsplit]
  rcases stripTrailingCarriageReturn_eq hmagic with rfl | rfl
  · refine iff_of_false (by simp) fun hstart => ?_
    have hstart' := List.isPrefixOf_iff_prefix.mp hstart
    rw [List.prefix_append_right_inj] at hstart'
    cases rest with
    | nil => simp at hstart'
    | cons c cs =>
      obtain ⟨rfl, -⟩ := List.cons_prefix_cons.mp hstart'
      cases hrest
  · refine iff_of_true (by simp) (List.isPrefixOf_iff_prefix.mpr (List.prefix_append _ _))

/-- The check and the readers agree when the check catches a file rightly, and otherwise when there is a
file of the one kind of error exactly if there is one of the other. -/
theorem checkAgrees_iff (work : Tree) (goodMeta : Bytes → Prop) :
    CheckAgrees work (EnvelopeUpTo goodMeta) ↔ Caught work (EnvelopeUpTo goodMeta) ∨
      (Overblocked work (EnvelopeUpTo goodMeta) ↔ Missed work (EnvelopeUpTo goodMeta)) := by
  have hchecked : assertEncryptionPushSafe work = .ok () ↔
      ¬ (Caught work (EnvelopeUpTo goodMeta) ∨ Overblocked work (EnvelopeUpTo goodMeta)) := by
    rw [assertEncryptionPushSafe_ok_forall]
    constructor
    · rintro h (⟨path, bytes, hfile, hpath, -, hheader, -⟩ | ⟨path, bytes, hfile, hpath, hkind⟩)
      · rw [h path bytes hfile hpath] at hheader
        cases hheader
      · have hheader := h path bytes hfile hpath
        rcases hkind with ⟨-, hno⟩ | ⟨hcrlf, htaken⟩
        · rw [hheader] at hno
          cases hno
        · rw [htaken.crlf_iff.mpr hcrlf] at hheader
          cases hheader
    · intro h path bytes hfile hpath
      by_contra hheader
      rw [Bool.not_eq_true] at hheader
      refine h ?_
      by_cases hread : readPath path = true
      · by_cases htaken : EnvelopeUpTo goodMeta bytes
        · exact .inr ⟨path, bytes, hfile, hpath, .inr ⟨htaken.crlf_iff.mp hheader, htaken⟩⟩
        · exact .inl ⟨path, bytes, hfile, hpath, hread, hheader, htaken⟩
      · rw [Bool.not_eq_true] at hread
        exact .inr ⟨path, bytes, hfile, hpath, .inl ⟨hread, hheader⟩⟩
  have hread : (∀ (path : String) (bytes : Bytes), work[path]? = some bytes → readPath path = true →
      EnvelopeUpTo goodMeta bytes) ↔
        ¬ (Caught work (EnvelopeUpTo goodMeta) ∨ Missed work (EnvelopeUpTo goodMeta)) := by
    constructor
    · rintro h (⟨path, bytes, hfile, -, hpath, -, hno⟩ | ⟨path, bytes, hfile, hpath, -, hno⟩)
      · exact hno (h path bytes hfile hpath)
      · exact hno (h path bytes hfile hpath)
    · intro h path bytes hfile hpath
      by_contra htaken
      refine h ?_
      by_cases hkind : protectedPath path = false ∨ hasEnvelopeHeader bytes = true
      · exact .inr ⟨path, bytes, hfile, hpath, hkind, htaken⟩
      · rw [not_or, Bool.not_eq_false, Bool.not_eq_true] at hkind
        exact .inl ⟨path, bytes, hfile, hkind.1, hpath, hkind.2, htaken⟩
  rw [CheckAgrees, hchecked, hread, not_iff_not]
  tauto

end

/-- A project of one file. -/
def fileTree (path : String) (bytes : Bytes) : Tree := (∅ : Tree).insert path bytes

theorem fileTree_file {path path' : String} {bytes bytes' : Bytes} :
    (fileTree path bytes)[path']? = some bytes' ↔ path' = path ∧ bytes' = bytes := by
  rw [fileTree, Map.get_insert]
  split
  · next he => simp [he, eq_comm]
  · next hne => simp [Ne.symm hne]

/-- A trashed card in plain text passes the check; an envelope with CRLF line ends does not. -/
theorem safetyCheck_disagrees :
    (∀ goodMeta, ¬ CheckAgrees (fileTree (trashPath idA) "a secret".toList) (EnvelopeUpTo goodMeta)) ∧
    ¬ CheckAgrees (fileTree (livePath idA) "HolderPriv1\r\nm\r\nc\r\n".toList)
      (EnvelopeUpTo fun _ => True) := by
  have htrash : protectedPath (trashPath idA) = false ∧ readPath (trashPath idA) = true := by
    decide +kernel
  have hlive : protectedPath (livePath idA) = true := by decide +kernel
  refine ⟨fun goodMeta h => ?_, fun h => ?_⟩
  · have hsafe : assertEncryptionPushSafe (fileTree (trashPath idA) "a secret".toList) = .ok () := by
      rw [assertEncryptionPushSafe_ok_forall]
      intro path bytes hfile hpath
      obtain ⟨rfl, -⟩ := fileTree_file.mp hfile
      rw [htrash.1] at hpath
      cases hpath
    have htaken := h.mp hsafe (trashPath idA) _ (fileTree_file.mpr ⟨rfl, rfl⟩) htrash.2
    have hmagic := htaken.magic
    revert hmagic
    decide
  · have hlines : envelopeLines "HolderPriv1\r\nm\r\nc\r\n".toList = .ok (['m'], ['c']) := by
      decide
    have hsafe := assertEncryptionPushSafe_ok_forall.mp (h.mpr fun path bytes hfile _ => by
      obtain ⟨-, rfl⟩ := fileTree_file.mp hfile
      exact ⟨['m'], ['c'], hlines, trivial⟩)
    have hheader := hsafe (livePath idA) _ (fileTree_file.mpr ⟨rfl, rfl⟩) hlive
    revert hheader
    decide

end HolderCore
