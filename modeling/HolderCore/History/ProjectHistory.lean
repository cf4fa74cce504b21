import HolderCore.Ai.Messages
import HolderCore.History.CardHistory

/-! # The history of a project

`ProjectHistoryService::list` of `history/ProjectHistory.cpp` over `GitRepo::history_all`: every
commit is one activity with the objects it affects, and a page holds those that affect an object of
the kind asked for. The filter stands behind the batches that are read from the repository, so a
page may end in the middle of a batch, between two batches or where the scan is cut short. -/

namespace HolderCore

/-! ## All commits of the walk -/

/-- A commit as `history_all` returns it. -/
structure ChangedCommit extends GitHistoryCommit where
  changedPaths : List String
deriving DecidableEq, Repr

structure GitHistoryAllPage where
  commits : List ChangedCommit := []
  hasMore : Bool := false
  scanLimited : Bool := false
  scanCursor : Option String := none
deriving DecidableEq, Repr

namespace GitHistory

/-- The paths at which two trees differ, sorted. -/
def diffPaths (parent tree : Tree) : List String :=
  (parent ∪ tree).keys.filter fun path => parent[path]? ≠ tree[path]?

def commitChangedPaths (h : GitHistory) (commit : GitHistoryCommit) : Except Exn (List String) := do
  let tree ← h.commitTree commit.oid
  match commit.parentOids.head? with
  | none => return diffPaths ∅ tree
  | some parent => return diffPaths (← h.commitTree parent) tree

/-- Take commits, of which `scanned` were taken before, until one too many comes. -/
def scanAll (h : GitHistory) (limit maxScannedCommits : Nat) :
    (scanned : Nat) → List GitHistoryCommit → GitHistoryAllPage → Except Exn GitHistoryAllPage
  | _, [], page => .ok page
  | scanned, commit :: walk, page =>
    if scanned = maxScannedCommits then .ok { page with scanLimited := true }
    else if page.commits.length = limit then
      .ok { page with hasMore := true, scanCursor := some commit.oid }
    else do
      let changedPaths ← h.commitChangedPaths commit
      scanAll h limit maxScannedCommits (scanned + 1) walk
        { page with
          commits := page.commits ++ [{ commit with changedPaths }], scanCursor := some commit.oid }

def historyAll (h : GitHistory) (limit : Nat) (cursorOid : Option String)
    (maxScannedCommits : Nat) : Except Exn GitHistoryAllPage :=
  if limit = 0 ∨ maxScannedCommits = 0 ∨ h.walk.isEmpty then .ok {}
  else match h.after cursorOid with
    | none => .error (.invalidArgument "history cursor is not reachable from HEAD")
    | some walk => h.scanAll limit maxScannedCommits 0 walk {}

end GitHistory

/-! ## Activities -/

inductive ProjectHistoryObjectKind where
  | card
  | resource
  | location
  | aiData
  | projectSettings
  | unknown
deriving DecidableEq, Repr

structure ProjectHistoryAffectedPath where
  path : String
  title : Option String
  detail : Option String
deriving DecidableEq, Repr

structure ProjectHistoryAffectedObject where
  kind : ProjectHistoryObjectKind
  items : List ProjectHistoryAffectedPath
deriving DecidableEq, Repr

structure ProjectHistoryActivity where
  oid : String
  parentOids : List String
  authorName : String
  authorEmail : String
  authoredAt : Int
  committedAt : Int
  message : String
  affectedObjects : List ProjectHistoryAffectedObject
  isMerge : Bool
deriving DecidableEq, Repr

structure ProjectHistoryPage where
  headOid : Option String
  activities : List ProjectHistoryActivity
  nextCursor : Option String
  scanLimited : Bool
deriving DecidableEq, Repr

namespace ProjectHistory

def historyBatchSize : Nat := 64

def classifyProjectHistoryPath (relativePath : String) : ProjectHistoryObjectKind :=
  let path := relativePath.toList
  if startsWith "cards/" path || startsWith "trash/cards/" path then .card
  else if startsWith "resources/" path then .resource
  else if startsWith "locations/" path then .location
  else if startsWith "ai_messages/" path || startsWith "trash/ai_messages/" path ||
      startsWith "ai_threads/" path then .aiData
  else if relativePath == ".holder/project.json" || relativePath == ".holder/privacy.json" then
    .projectSettings
  else .unknown

/-- Add a path to the object of its kind, which is opened for the first one. -/
def addAffectedPath (path : String) :
    List ProjectHistoryAffectedObject → List ProjectHistoryAffectedObject
  | [] => [⟨classifyProjectHistoryPath path, [⟨path, none, none⟩]⟩]
  | object :: objects =>
    if object.kind = classifyProjectHistoryPath path then
      { object with items := object.items ++ [⟨path, none, none⟩] } :: objects
    else object :: addAffectedPath path objects

def groupProjectHistoryActivity (commit : ChangedCommit) : ProjectHistoryActivity where
  oid := commit.oid
  parentOids := commit.parentOids
  authorName := if commit.authorName.isEmpty then "Holder" else commit.authorName
  authorEmail := commit.authorEmail
  authoredAt := commit.authoredAt
  committedAt := commit.committedAt
  message := commit.message
  affectedObjects := commit.changedPaths.foldl (fun objects path => addAffectedPath path objects) []
  isMerge := 1 < commit.parentOids.length

def projectHistoryActivityMatches (activity : ProjectHistoryActivity)
    (kindFilter : Option ProjectHistoryObjectKind) : Bool :=
  match kindFilter with
  | none => true
  | some kind => activity.affectedObjects.any fun object => object.kind = kind

/-! ## What is displayed of an affected object -/

/-- The clear-text settings of a project. -/
structure Bootstrap where
  version : Int
  projectId : String
  mode : String

structure Settings where
  version : Int
  projectId : String
  name : String
  gitProvider : Option String

/-- The readers of the JSON files: `nlohmann::json` and the fields that are taken from it. -/
structure Readers where
  parseResourceManifest : Bytes → Except Exn ResourceBundle
  /-- The title of a thread of the project. -/
  parseAiThreadManifest : Project → Bytes → Except Exn String
  parseBootstrap : Bytes → Except Exn Bootstrap
  parseSettings : Bytes → Except Exn Settings

structure HistoricalDisplayMetadata where
  title : Option String := none
  detail : Option String := none

/-- At most three names, and how many there are beside them. -/
def summaryOf (one many : String) (names : List String) : Option String :=
  if names.isEmpty then none
  else
    let start := if names.length = 1 then one ++ ": " else s!"{many} ({names.length}): "
    let rest := if 3 < names.length then s!" +{names.length - 3} more" else ""
    some (start ++ ", ".intercalate (names.take 3) ++ rest)

def milestoneName (milestone : Milestone) : String :=
  let description := milestone.description.getD ""
  milestone.kind.getD "Milestone" ++
    if description.isEmpty then "" else " \xe2\x80\x94 " ++ description

def milestoneSummary (milestones : List Milestone) : Option String :=
  summaryOf "Milestone" "Milestones" (milestones.map milestoneName)

def resourceAttachmentSummary (bundle : ResourceBundle) : Option String :=
  summaryOf "Attachment" "Attachments" (bundle.assets.map (·.originalFilename))

/-- The first line that is more than white space, shortened. -/
def firstMeaningfulLine (text : String) : String :=
  let trim (line : List Char) :=
    ((line.dropWhile CardHistory.isSpace).reverse.dropWhile CardHistory.isSpace).reverse
  match ((text.toList.splitOn '\n').map trim).find? (!·.isEmpty) with
  | none => ""
  | some line =>
    if 80 < line.length then String.ofList (line.take 77) ++ "..." else String.ofList line

section
variable [NatCast K] (h : GitHistory) (env : Env K) (readers : Readers) (oid path : String)

def decodeProjectBlob (raw : Bytes) : Except Exn (Option Bytes) :=
  if env.project.privacyMode = .encryptedGit then
    match env.project.projectKeyId with
    | some keyId =>
      if keyId.isEmpty then return none
      else some <$> env.privacy.decryptProjectBlob env.project.projectId keyId raw
    | none => return none
  else return some raw

/-- The text of the file in the commit, where it can be shown. -/
def decodedBlobAt : Except Exn (Option Bytes) := do
  match ← h.readBlobAt oid path with
  | none => return none
  | some raw => return (← decodeProjectBlob env raw).filter fun decoded => !decoded.contains '\x00'

def cardDisplayAt : Except Exn HistoricalDisplayMetadata := do
  match ← decodedBlobAt h env oid path with
  | none => return {}
  | some decoded =>
    let parsed := parseCardFile env.yaml decoded
    if !parsed.hasFrontMatter || parsed.card.title.isEmpty then return {}
    else return ⟨some parsed.card.title, milestoneSummary parsed.milestones⟩

def resourceDisplayAt : Except Exn HistoricalDisplayMetadata := do
  match ← decodedBlobAt h env oid path with
  | none => return {}
  | some decoded =>
    let bundle ← readers.parseResourceManifest decoded
    return ⟨some bundle.resource.label, resourceAttachmentSummary bundle⟩

def aiThreadManifestRelPath (threadId : String) : Except Exn String :=
  if threadId.length < 4 then .error (.invalidArgument "thread_id too short for path sharding")
  else .ok (shardedPath "ai_threads" threadId ".json")

def threadTitleAt (path : String) : Except Exn (Option String) := do
  match ← h.readBlobAt oid path with
  | none => return none
  | some raw => return some (← readers.parseAiThreadManifest env.project (← CardHistory.decode env raw))

def aiDisplayAt : Except Exn HistoricalDisplayMetadata := do
  if startsWith "ai_threads/" path.toList then return ⟨← threadTitleAt h env readers oid path, none⟩
  else match ← decodedBlobAt h env oid path with
    | none => return {}
    | some decoded =>
      let parsed := parseAiMessageFile env.yaml decoded
      if !parsed.hasFrontMatter || parsed.message.messageId.isEmpty then return {}
      else
        let title ← threadTitleAt h env readers oid
          (← aiThreadManifestRelPath parsed.message.threadId)
        let excerpt := firstMeaningfulLine parsed.body
        let role := if parsed.message.role.isEmpty then "message" else parsed.message.role
        return ⟨title, if excerpt.isEmpty then none else some (role ++ ": " ++ excerpt)⟩

def bootstrapDisplay (bootstrap : Bootstrap) : HistoricalDisplayMetadata :=
  if bootstrap.version ≠ 1 ∨ bootstrap.projectId ≠ env.project.projectId then {}
  else if bootstrap.mode = "plain" then ⟨some "Privacy settings", some "Mode: plain Git"⟩
  else if bootstrap.mode = "encrypted_git" then
    ⟨some "Privacy settings", some "Mode: encrypted Git"⟩
  else {}

def settingsDisplay (settings : Settings) : HistoricalDisplayMetadata :=
  if settings.version ≠ 1 ∨ settings.projectId ≠ env.project.projectId ∨ settings.name.isEmpty then {}
  else
    let provider := settings.gitProvider.elim "" (" \xc2\xb7 Git provider: " ++ ·)
    ⟨some "Project settings", some ("Project name: " ++ settings.name ++ provider)⟩

def projectSettingsDisplayAt : Except Exn HistoricalDisplayMetadata := do
  if path = ".holder/privacy.json" then
    match ← h.readBlobAt oid path with
    | none => return {}
    | some raw => return bootstrapDisplay env (← readers.parseBootstrap raw)
  else
    match ← decodedBlobAt h env oid path with
    | none => return {}
    | some decoded => return settingsDisplay env (← readers.parseSettings decoded)

/-- What is shown of a file in a commit; one that cannot be read is shown by its path alone. -/
def displayAt (kind : ProjectHistoryObjectKind) : HistoricalDisplayMetadata :=
  let display := match kind with
    | .card => cardDisplayAt h env oid path
    | .resource => resourceDisplayAt h env readers oid path
    | .aiData => aiDisplayAt h env readers oid path
    | .projectSettings => projectSettingsDisplayAt h env readers oid path
    | .location | .unknown => return {}
  match display with
  | .ok metadata => metadata
  | .error _ => {}

def resolveDisplayMetadata (activity : ProjectHistoryActivity) : ProjectHistoryActivity :=
  let resolve (kind : ProjectHistoryObjectKind) (item : ProjectHistoryAffectedPath) :=
    let metadata := displayAt h env readers activity.oid item.path kind
    { item with title := metadata.title, detail := metadata.detail }
  { activity with
    affectedObjects := activity.affectedObjects.map fun object =>
      { object with items := object.items.map (resolve object.kind) } }

def titledActivity (commit : ChangedCommit) : ProjectHistoryActivity :=
  resolveDisplayMetadata h env readers (groupProjectHistoryActivity commit)

end

/-! ## Pages -/

section
variable [NatCast K] (h : GitHistory) (env : Env K) (readers : Readers)
  (kindFilter : Option ProjectHistoryObjectKind)

/-- Add the activities of a batch that match; `true` when the page is full. -/
def addActivities (limit : Nat) (batch : GitHistoryAllPage) :
    List ChangedCommit → ProjectHistoryPage → ProjectHistoryPage × Bool
  | [], page => (page, false)
  | commit :: commits, page =>
    let activity := titledActivity h env readers commit
    if !projectHistoryActivityMatches activity kindFilter then addActivities limit batch commits page
    else
      let page := { page with activities := page.activities ++ [activity] }
      if page.activities.length = limit then
        ({ page with
          nextCursor := if !commits.isEmpty || batch.hasMore || batch.scanLimited then
            some commit.oid else page.nextCursor
          scanLimited := batch.scanLimited || page.scanLimited }, true)
      else addActivities limit batch commits page

/-- Read batches until the page is full or the history ends; `none` when the turns run out. -/
def listFrom (maxScannedCommits limit : Nat) :
    (turns : Nat) → (rawCursor : Option String) → ProjectHistoryPage →
      Except Exn (Option ProjectHistoryPage)
  | 0, _, _ => return none
  | turns + 1, rawCursor, page => do
    let batch ← h.historyAll (max historyBatchSize limit) rawCursor maxScannedCommits
    if batch.commits.isEmpty then
      return some (if batch.scanLimited then
        { page with scanLimited := true, nextCursor := batch.scanCursor } else page)
    else
      let (page, full) := addActivities h env readers kindFilter limit batch batch.commits page
      if full then return some page
      else if batch.scanLimited then
        return some { page with scanLimited := true, nextCursor := batch.scanCursor }
      else if !batch.hasMore then return some page
      else listFrom maxScannedCommits limit turns (batch.commits.getLast?.map (·.oid)) page

/-- `ProjectHistoryService::list`; a batch that is not the last has a commit, which bounds the
turns. -/
def list (maxScannedCommits limit : Nat) (cursor : Option String) :
    Except Exn (Option ProjectHistoryPage) := do
  if limit = 0 ∨ 200 < limit then
    throw (.invalidArgument "history limit must be between 1 and 200")
  listFrom h env readers kindFilter maxScannedCommits limit (h.walk.length + 1) cursor
    ⟨h.headOid, [], none, false⟩

/-- Ask for pages of the given sizes and follow their cursors until none is returned; `none` when
more are needed. -/
def followPages (maxScannedCommits : Nat) :
    List Nat → Option String → Except Exn (Option (List ProjectHistoryPage))
  | [], _ => return none
  | limit :: limits, cursor => do
    match ← list h env readers kindFilter maxScannedCommits limit cursor with
    | none => return none
    | some page =>
      match page.nextCursor with
      | none => return some [page]
      | some next => return (← followPages maxScannedCommits limits (some next)).map (page :: ·)

end

end ProjectHistory

end HolderCore
