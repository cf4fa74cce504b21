import HolderCore.Card.FlowYaml
import HolderCore.Git.History
import HolderCore.Library.Grouping

/-! # The history of a card

`CardHistoryService::list` of `history/CardHistory.cpp`: the commits that touch a card's live or
trash path, grouped into editing sessions and returned in pages. -/

namespace HolderCore

structure CardHistorySave where
  oid : String
  parentOids : List String
  authoredAt : Int
  committedAt : Int
  message : String
deriving DecidableEq, Repr

structure CardHistoryEntry where
  firstOid : String
  lastOid : String
  parentOids : List String
  /-- Direct parents that an entry of the same page ends with. -/
  visibleParentOids : List String
  authorName : String
  authorEmail : String
  startedAt : Int
  endedAt : Int
  kind : String
  summary : String
  commitCount : Nat
  isMerge : Bool
  /-- From the first save of the session to its last. -/
  saves : List CardHistorySave
deriving DecidableEq, Repr

structure CardHistoryPage where
  headOid : Option String
  entries : List CardHistoryEntry
  nextCursor : Option String
  scanLimited : Bool
deriving DecidableEq, Repr

namespace CardHistory

def sessionGapSeconds : Int := 10 * 60
def sessionMaxSeconds : Int := 30 * 60
def historyBatchSize : Nat := 64

/-! ## Sessions -/

def kindFor (commit : GitHistoryCommit) : String :=
  let message := commit.message.toList
  if 1 < commit.parentOids.length || startsWith "Merge " message then "merged"
  else if startsWith "Add card " message then "created"
  else if startsWith "Move card " message then "moved"
  else if startsWith "Update links for " message || startsWith "Attach " message then "links"
  else if startsWith "Update milestones for " message then "milestones"
  else if startsWith "Delete card " message then "deleted"
  else if startsWith "Restore card " message then "restored"
  else if startsWith "Permanently delete card " message then "permanently_deleted"
  else "updated"

def mayGroup (newer : CardHistoryEntry) (older : GitHistoryCommit) : Bool :=
  let gap := newer.startedAt - older.committedAt
  let span := newer.endedAt - older.committedAt
  newer.kind == "updated" && kindFor older == "updated" &&
    !newer.isMerge && !(1 < older.parentOids.length : Bool) &&
    newer.authorName == older.authorName && newer.authorEmail == older.authorEmail &&
    newer.parentOids == [older.oid] &&
    0 ≤ gap && gap ≤ sessionGapSeconds && span ≤ sessionMaxSeconds

def saveOf (commit : GitHistoryCommit) : CardHistorySave where
  oid := commit.oid
  parentOids := commit.parentOids
  authoredAt := commit.authoredAt
  committedAt := commit.committedAt
  message := commit.message

/-- An entry that a commit opens. -/
def newEntry (commit : GitHistoryCommit) : CardHistoryEntry where
  firstOid := commit.oid
  lastOid := commit.oid
  parentOids := commit.parentOids
  visibleParentOids := []
  authorName := if commit.authorName.isEmpty then "Holder" else commit.authorName
  authorEmail := commit.authorEmail
  startedAt := commit.committedAt
  endedAt := commit.committedAt
  kind := kindFor commit
  summary := ""
  commitCount := 1
  isMerge := 1 < commit.parentOids.length
  saves := [saveOf commit]

/-- An entry with an older commit at its beginning. -/
def extendEntry (entry : CardHistoryEntry) (commit : GitHistoryCommit) : CardHistoryEntry :=
  { entry with
    firstOid := commit.oid
    startedAt := commit.committedAt
    parentOids := commit.parentOids
    saves := saveOf commit :: entry.saves
    commitCount := entry.commitCount + 1 }

/-! ## Summaries -/

structure Snapshot (K : Type) where
  /-- The file of a card that exists. -/
  card : Option (ParsedCardFile K)

def isSpace (c : Char) : Bool := [' ', '\t', '\n', '\x0b', '\x0c', '\r'].contains c

/-- The first line that is more than white space, shortened. -/
def firstMeaningfulLine (text : String) : String :=
  let trim (line : List Char) := ((line.dropWhile isSpace).reverse.dropWhile isSpace).reverse
  match ((text.toList.splitOn '\n').map trim).find? (!·.isEmpty) with
  | none => ""
  | some line =>
    if 72 < line.length then String.ofList (line.take 69) ++ "..." else String.ofList line

def describeChange (before after : Snapshot K) (kind : String) : String :=
  if kind == "created" || (before.card.isNone && after.card.isSome) then "Card created"
  else if kind == "deleted" then "Moved card to Trash"
  else if kind == "permanently_deleted" || (before.card.isSome && after.card.isNone) then
    "Permanently deleted card"
  else if kind == "restored" then "Restored card from Trash"
  else if kind == "moved" then "Moved card"
  else if kind == "milestones" then "Changed milestones"
  else if kind == "links" then "Changed links or attachments"
  else if kind == "merged" then "Combined changes"
  else match before.card, after.card with
    | some before, some after =>
      if before.card.title ≠ after.card.title then
        "Changed title to \xe2\x80\x9c" ++ after.card.title ++ "\xe2\x80\x9d"
      else if before.links.length ≠ after.links.length then "Changed links"
      else if before.milestones.length ≠ after.milestones.length then "Changed milestones"
      else
        let line := firstMeaningfulLine after.body
        if line.isEmpty then "Edited card" else "Edited \xe2\x80\x9c" ++ line ++ "\xe2\x80\x9d"
    | _, _ => "Changed card"

section
variable [NatCast K] (h : GitHistory) (env : Env K)

def decode (raw : Bytes) : Except Exn Bytes :=
  if env.project.privacyMode = .encryptedGit then
    match env.project.projectKeyId with
    | some keyId =>
      if keyId.isEmpty then
        .error (.runtimeError "Encrypted project is missing its project key id")
      else env.privacy.decryptProjectBlob env.project.projectId keyId raw
    | none => .error (.runtimeError "Encrypted project is missing its project key id")
  else .ok raw

/-- The card's file in the commit, at its live path or else at its trash path. -/
def snapshotAt (cardId : String) (oid : Option String) : Except Exn (Snapshot K) :=
  match oid.filter (!·.isEmpty) with
  | none => .ok ⟨none⟩
  | some oid => do
    let live ← h.readBlobAt oid (livePath cardId)
    let trash ← h.readBlobAt oid (trashPath cardId)
    match live.or trash with
    | none => return ⟨none⟩
    | some raw =>
      let decoded ← decode env raw
      if decoded.contains '\x00' then throw (.runtimeError "Historical card content is binary")
      let parsed := parseCardFile env.yaml decoded
      if !parsed.hasFrontMatter || parsed.card.cardId != cardId then
        throw (.runtimeError "Historical card content is malformed")
      return ⟨some parsed⟩

def entrySummary (cardId : String) (entry : CardHistoryEntry) : Except Exn String := do
  let before ← snapshotAt h env cardId entry.parentOids.head?
  let after ← snapshotAt h env cardId (some entry.lastOid)
  return describeChange before after entry.kind

def finishEntry (cardId : String) (visibleEntryOids : List String) (entry : CardHistoryEntry) :
    Except Exn CardHistoryEntry := do
  return { entry with
    visibleParentOids := entry.parentOids.filter visibleEntryOids.contains
    summary := ← entrySummary h env cardId entry }

end

/-! ## Pages -/

/-- The entries of a page so far and the commit last added to them. -/
structure PageState where
  entries : List CardHistoryEntry
  lastConsumedOid : Option String

/-- Add the commits of a batch; `true` when the next one opens an entry too many. -/
def addCommits (limit : Nat) : List GitHistoryCommit → PageState → PageState × Bool
  | [], page => (page, false)
  | commit :: commits, page =>
    match page.entries.getLast?.filter (mayGroup · commit) with
    | some entry => addCommits limit commits
        { entries := page.entries.dropLast ++ [extendEntry entry commit],
          lastConsumedOid := some commit.oid }
    | none =>
      if page.entries.length = limit then (page, true)
      else addCommits limit commits
        { entries := page.entries ++ [newEntry commit], lastConsumedOid := some commit.oid }

/-- Read batches until the page is full or the history ends; `none` when the turns run out. The
entries are those of the page before their summaries. -/
def collect (h : GitHistory) (paths : List String) (limit maxScannedCommits : Nat) :
    (turns : Nat) → (rawCursor : Option String) → PageState → Except Exn (Option CardHistoryPage)
  | 0, _, _ => return none
  | turns + 1, rawCursor, page => do
    let batch ← h.historyForPaths paths (max historyBatchSize limit) rawCursor maxScannedCommits
    if batch.commits.isEmpty then
      return some ⟨h.headOid, page.entries, if batch.scanLimited then batch.scanCursor else none,
        batch.scanLimited⟩
    else
      let (page, full) := addCommits limit batch.commits page
      if full then return some ⟨h.headOid, page.entries, page.lastConsumedOid, false⟩
      else if batch.scanLimited then
        return some ⟨h.headOid, page.entries, batch.scanCursor, true⟩
      else if !batch.hasMore then return some ⟨h.headOid, page.entries, none, false⟩
      else collect h paths limit maxScannedCommits turns page.lastConsumedOid page

/-- `CardHistoryService::list`; a batch that is not the last has a commit, which bounds the turns. -/
def list [NatCast K] (h : GitHistory) (env : Env K) (maxScannedCommits : Nat) (cardId : String)
    (limit : Nat) (cursor : Option String) : Except Exn (Option CardHistoryPage) := do
  if cardId.length < 4 then throw (.invalidArgument "card_id is invalid")
  if limit = 0 ∨ 200 < limit then
    throw (.invalidArgument "history limit must be between 1 and 200")
  let paths := [← cardRelPath cardId, ← cardTrashRelPath cardId]
  match ← collect h paths limit maxScannedCommits (h.walk.length + 1) cursor ⟨[], none⟩ with
  | none => return none
  | some page =>
    let entries ← page.entries.mapM (finishEntry h env cardId (page.entries.map (·.lastOid)))
    return some { page with entries }

end CardHistory

end HolderCore
