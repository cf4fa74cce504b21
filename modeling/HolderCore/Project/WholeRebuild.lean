import HolderCore.Ai.Rebuild
import HolderCore.Project.Malformed
import HolderCore.Resource.Store

/-! # The whole rebuild

`Rebuilder::rebuild_project` with every table it fills: the locations and resources of the manifests,
the cards, the threads and messages, and the full-text rows where it was given an indexer. -/

namespace HolderCore

/-- A row of `ai_fts`. -/
structure AiFts where
  threadId : String
  projectId : String
  content : String
deriving DecidableEq, Repr

/-- The services of a project with the rows of `ai_fts`. -/
structure SearchState (K : Type) where
  services : Services K
  aiFts : Map String AiFts

abbrev SearchM (K : Type) := EStateM Exn (SearchState K)

/-- The id in the text of a thread's manifest and the card the thread is about. -/
structure AiThreadManifest where
  threadId : String
  cardId : Option String

/-- What the rebuild reads beside the files of cards and messages. -/
structure RebuildEnv (K : Type) extends ServiceEnv K where
  /-- `nlohmann::json::parse` and the fields of a resource manifest of the known version. -/
  loadResourceManifest : Bytes → Except Exn ResourceBundle
  parseLocationManifest : Bytes → Except Exn Location
  /-- The text of a thread's manifest, once its fields are checked. -/
  parseAiThreadManifest : Bytes → Except Exn AiThreadManifest

/-! ## Resources -/

def isJson (path : String) : Bool :=
  ".json".toList.isSuffixOf (fileName path) && decide (5 < (fileName path).length)

def collectManifests (env : Env K) (work : Tree) (base : String) : List String :=
  env.directoryOrder (work.keys.filter fun path => startsWith (base ++ "/") path.toList && isJson path)

def requireNonEmpty (value field : String) : Except Exn Unit :=
  if value.isEmpty then .error (missingField field) else .ok ()

def parsePlacement (placement : Placement) : Except Exn Unit := do
  requireNonEmpty placement.placementId "placement_id"
  requireNonEmpty placement.locationId "location_id"
  requireNonEmpty placement.objectKey "object_key"
  requireNonEmpty placement.encoding "encoding"
  if placement.storedByteSize < 0 then
    throw (.runtimeError "resource manifest has negative stored_byte_size")

def parseAsset (asset : Asset) : Except Exn Unit := do
  requireNonEmpty asset.assetId "asset_id"
  requireNonEmpty asset.plaintextSha256 "plaintext_sha256"
  if asset.byteSize < 0 then throw (.runtimeError "resource manifest has negative byte_size")
  asset.placements.forM parsePlacement

/-- An asset of a manifest belongs to its resource, and its placements to it. -/
def ownedAsset (resourceId : String) (asset : Asset) : Asset :=
  { asset with
    resourceId
    placements := asset.placements.map fun placement => { placement with assetId := asset.assetId } }

section
variable (env : RebuildEnv K)

def parseResourceManifest (text : Bytes) : Except Exn ResourceBundle := do
  let bundle ← env.loadResourceManifest text
  requireNonEmpty bundle.resource.resourceId "resource_id"
  requireNonEmpty bundle.resource.projectId "project_id"
  requireNonEmpty bundle.resource.type "type"
  requireNonEmpty bundle.resource.label "label"
  bundle.assets.forM parseAsset
  return { bundle with assets := bundle.assets.map (ownedAsset bundle.resource.resourceId) }

def isSha256 (value : String) : Bool := value.length == 64 && value.toList.all isHexDigit

def locationRelPath (locationId : String) : Except Exn String :=
  if locationId.length < 4 then .error (.runtimeError "id too short for path sharding")
  else .ok (shardedPath "locations" locationId ".json")

def atPath (path message : String) : Exn := .runtimeError (path ++ ": " ++ message)

/-- What reading a manifest throws, under its path. -/
def readManifest (work : Tree) (parse : Bytes → Except Exn α) (path : String) : Except Exn α :=
  match decodeBlobForProject env.toEnv (work[path]?.getD []) >>= parse with
  | .ok a => .ok a
  | .error e => .error (atPath path e.what)

def rebuildLocation (work : Tree) (path : String) : Except Exn Location := do
  let location ← readManifest env work env.parseLocationManifest path
  if path ≠ (← locationRelPath location.locationId) then
    throw (atPath path "location path does not match id")
  if location.projectId ≠ env.project.projectId then
    throw (atPath path "location belongs to another project")
  return location

def rebuildLocations (work : Tree) : Except Exn (List Location) :=
  (collectManifests env.toEnv work "locations").mapM (rebuildLocation env work)

/-- The ids of assets and placements that were seen. -/
structure SeenIds where
  assets : List String
  placements : List String

def checkPlacement (path : String) (seen : SeenIds) (placement : Placement) : Except Exn SeenIds := do
  if seen.placements.contains placement.placementId then throw (atPath path "duplicate placement_id")
  if !isSha256 placement.storedSha256 then throw (atPath path "invalid stored_sha256")
  return { seen with placements := placement.placementId :: seen.placements }

def checkAsset (path : String) (seen : SeenIds) (asset : Asset) : Except Exn SeenIds := do
  if seen.assets.contains asset.assetId then throw (atPath path "duplicate asset_id")
  if !isSha256 asset.plaintextSha256 then throw (atPath path "invalid plaintext_sha256")
  asset.placements.foldlM (checkPlacement path) { seen with assets := asset.assetId :: seen.assets }

def rebuildBundle (work : Tree) (seen : SeenIds) (path : String) :
    Except Exn (SeenIds × ResourceBundle) := do
  let bundle ← readManifest env work (parseResourceManifest env) path
  if path ≠ (← resourceRelPath bundle.resource.resourceId) then
    throw (atPath path "resource path does not match id")
  if bundle.resource.projectId ≠ env.project.projectId then
    throw (atPath path "resource belongs to another project")
  return (← bundle.assets.foldlM (checkAsset path) seen, bundle)

def rebuildBundles (work : Tree) : SeenIds → List String → Except Exn (List ResourceBundle)
  | _, [] => return []
  | seen, path :: paths => do
    let (seen, bundle) ← rebuildBundle env work seen path
    return bundle :: (← rebuildBundles work seen paths)

/-- Every placement is at a location of the project. -/
def checkLocations (locations : List Location) (bundle : ResourceBundle) : Except Exn Unit :=
  match (bundle.assets.flatMap (·.placements)).find? fun placement =>
      !(locations.map (·.locationId)).contains placement.locationId with
  | none => .ok ()
  | some placement => .error (atPath (shardedPath "resources" bundle.resource.resourceId ".json")
      ("placement refers to unknown location " ++ placement.locationId))

/-- The rows without those of the project; a location that another project's object is stored at
cannot be deleted. -/
def deleteResources (rows : ServiceRows) : Except Exn ServiceRows :=
  let resources := rows.resources.filter fun _ bundle =>
    bundle.resource.projectId != env.project.projectId
  let deleted := rows.locations.filter fun _ location => location.projectId == env.project.projectId
  let placements := (Map.rows resources).flatMap fun bundle => bundle.assets.flatMap (·.placements)
  if placements.any (deleted.contains ·.locationId) then
    .error (.runtimeError "FOREIGN KEY constraint failed")
  else .ok { rows with
    resources
    locations := rows.locations.filter fun _ location => location.projectId != env.project.projectId }

def rebuildResources (rows : ServiceRows) (work : Tree) : Except Exn ServiceRows := do
  let rows ← deleteResources env rows
  let locations ← rebuildLocations env work
  let bundles ← rebuildBundles env work ⟨[], []⟩ (collectManifests env.toEnv work "resources")
  bundles.forM (checkLocations locations)
  let stored := locations.foldl (fun stored location => stored.insert location.locationId location)
    rows.locations
  bundles.foldlM (fun rows bundle => ResourceRepo.putBundle bundle rows) { rows with locations := stored }

/-! ## All tables -/

def threadManifestPath (threadId : String) : Except Exn String :=
  if threadId.length < 4 then .error (.invalidArgument "thread_id too short for path sharding")
  else .ok (shardedPath "ai_threads" threadId ".json")

def decodeThreadManifest (raw : Bytes) : Except Exn Bytes :=
  if env.project.privacyMode = .encryptedGit then
    match env.project.projectKeyId with
    | some keyId =>
      if keyId.isEmpty then .error (.invalidArgument "encrypted project has no key id")
      else env.privacy.decryptProjectBlob env.project.projectId keyId raw
    | none => .error (.invalidArgument "encrypted project has no key id")
  else .ok raw

def rebuildThreadManifest (work : Tree) (path : String) : Except Exn AiThreadManifest := do
  let read (raw : Bytes) : Except Exn AiThreadManifest := do
    let manifest ← env.parseAiThreadManifest (← decodeThreadManifest env raw)
    if fileName path ≠ manifest.threadId.toList ++ ".json".toList then
      throw (.runtimeError ("AI thread manifest path does not match thread_id: " ++ path))
    return manifest
  match read (work[path]?.getD []) with
  | .error e => throw (atPath path e.what)
  | .ok manifest =>
    if path ≠ (← threadManifestPath manifest.threadId) then
      throw (atPath path "AI thread path does not match id")
    return manifest

/-- The threads that have a manifest. -/
def threadManifests (work : Tree) : Except Exn (List AiThreadManifest) :=
  (collectManifests env.toEnv work "ai_threads").mapM (rebuildThreadManifest env work)

/-- A thread can name only a card that has a row. -/
def checkThreadCards (db : Db K) (manifests : List AiThreadManifest) : Except Exn Unit :=
  if manifests.all fun manifest => manifest.cardId.all db.cards.contains then .ok ()
  else .error (.runtimeError "insert ai thread failed: FOREIGN KEY constraint failed")

/-- The threads of other projects, and a row for each thread of the rebuilt one. -/
def rebuiltThreads (threads : List String) (rows : Map String String) :
    Except Exn (Map String String) :=
  threads.foldlM (fun rows threadId =>
    if rows.contains threadId then throw (.runtimeError "insert ai thread failed")
    else return rows.insert threadId env.project.projectId)
    (rows.filter fun _ projectId => projectId != env.project.projectId)

/-- The row of a message of the project. -/
def aiFtsRow (message : AiMessage) : AiFts :=
  ⟨message.threadId, env.project.projectId, message.content⟩

/-- The rows of `ai_fts` for the live messages of a rebuild with an indexer. -/
def rebuiltAiFts (messages : Map String AiMessage) : Map String AiFts :=
  if env.fts then
    (messages.filter fun _ message => message.deletedAt.isNone).map fun _ => aiFtsRow env
  else ∅

/-- The rows of the cards, threads and messages, with the threads of other projects. -/
def rebuildCardsAndMessages [NatCast K] (threads : Map String String) (work : Tree) :
    Except Exn (Map String String × RebuiltMessages K) := do
  let db ← projection env.toEnv work
  let manifests ← threadManifests env work
  checkThreadCards db manifests
  let (ids, rebuilt) ← rebuildMessages env.toEnv (manifests.map (·.threadId)) work db
  return (← rebuiltThreads env ids threads, rebuilt)

/-- `rebuild_project_in_transaction`: resources, then cards, then messages. -/
def rebuildTables [NatCast K] (rows : ServiceRows) (work : Tree) :
    Except Exn (ServiceRows × Db K) := do
  let rows ← rebuildResources env rows work
  let (threads, rebuilt) ← rebuildCardsAndMessages env rows.threads work
  return ({ rows with threads, messages := rebuilt.messages }, rebuilt.db)

/-- `Rebuilder::rebuild_project`. -/
def SearchState.rebuild [NatCast K] : SearchM K Unit := fun s =>
  match runSteps env.toEnv (recoverySteps s.services.world) s.services.world with
  | .error (e, world) => .error e { s with services.world := world }
  | .ok world =>
    match rebuildTables env s.services.rows world.repo.work with
    | .error e => .error e { s with services.world := world }
    | .ok (rows, db) => .ok () {
        services := { s.services with world := { world with db, journal := none }, rows }
        aiFts := rebuiltAiFts env rows.messages }

end

/-! ## What a rebuild leaves -/

section
variable [NatCast K] {env : Env K} {work : Tree} {records : List MessageRecord}

omit [NatCast K] in
theorem mem_collectManifests (hdir : ∀ paths, (env.directoryOrder paths).Perm paths)
    {base path : String} : path ∈ collectManifests env work base ↔
      path ∈ work ∧ startsWith (base ++ "/") path.toList = true ∧ isJson path = true := by
  rw [collectManifests, (hdir _).mem_iff, List.mem_filter, Std.ExtTreeMap.mem_keys, Bool.and_eq_true]

/-- A record is trashed where its file is, and its links belong to the project. -/
theorem rebuildMessageFile_made {path : String} {raw : Bytes} {isTrash : Bool} {record : MessageRecord}
    (h : rebuildMessageFile env path raw isTrash = .ok record) :
    record.message.deletedAt.isSome = isTrash ∧
      ∀ link ∈ record.links, link.projectId = env.project.projectId := by
  unfold rebuildMessageFile at h
  cases hdecode : decodeBlobForProject env raw with
  | error e => simp [hdecode, bind, Except.bind] at h
  | ok plain =>
    rw [hdecode] at h
    simp only [bind, Except.bind] at h
    generalize parseAiMessageFile env.yaml plain = parsed at h
    generalize (if parsed.message.messageId.isEmpty = true then fileStem path
      else parsed.message.messageId) = id at h
    split at h
    · cases h
    split at h
    · cases h
    split at h
    · cases h
    cases isTrash with
    | false =>
      simp only [Bool.false_eq_true, if_false] at h
      split at h
      · cases h
      split at h
      · cases h
      cases h
      refine ⟨rfl, fun link hlink => ?_⟩
      obtain ⟨l, -, rfl⟩ := List.mem_map.mp hlink
      rfl
    | true =>
      simp only [if_true] at h
      split at h
      · cases h
      split at h
      · cases h
      cases h
      refine ⟨rfl, fun link hlink => ?_⟩
      obtain ⟨l, -, rfl⟩ := List.mem_map.mp hlink
      rfl

theorem rebuildMessageFile_place {path : String} {raw : Bytes} {isTrash : Bool} {record : MessageRecord}
    (h : rebuildMessageFile env path raw isTrash = .ok record) :
    record.message.deletedAt.isSome = isTrash := (rebuildMessageFile_made h).1

/-- The records of a tree are those of its message files. -/
theorem mem_messageRecords (hdir : ∀ paths, (env.directoryOrder paths).Perm paths)
    (h : rebuildMessageFiles env work = .ok records) (record : MessageRecord) :
    record ∈ records ↔ ∃ path isTrash raw, MessageFile isTrash path ∧ work[path]? = some raw ∧
      rebuildMessageFile env path raw isTrash = .ok record := by
  unfold rebuildMessageFiles at h
  simp only [bind, Except.bind, pure, Except.pure] at h
  split at h
  · cases h
  next live hlive =>
  split at h
  · cases h
  next trash htrash =>
  cases h
  have hfiles : ∀ (isTrash : Bool) (records : List MessageRecord),
      (collectFiles env work (if isTrash then "trash/ai_messages" else "ai_messages")).mapM
        (fun path => rebuildMessageFile env path (work[path]?.getD []) isTrash) = .ok records →
      (record ∈ records ↔ ∃ path raw, MessageFile isTrash path ∧ work[path]? = some raw ∧
        rebuildMessageFile env path raw isTrash = .ok record) := by
    intro isTrash records hrun
    have hall := Except.forall₂_of_mapM hrun
    constructor
    · intro hr
      obtain ⟨path, hpath, hrecord⟩ := hall.exists_left hr
      obtain ⟨⟨raw, hraw⟩, hfile⟩ := (mem_collectFiles hdir).mp hpath
      rw [hraw] at hrecord
      exact ⟨path, raw, hfile, hraw, hrecord⟩
    · rintro ⟨path, raw, hfile, hraw, hrecord⟩
      obtain ⟨r, hr, hrecord'⟩ := hall.exists_right ((mem_collectFiles hdir).mpr ⟨⟨raw, hraw⟩, hfile⟩)
      rw [hraw] at hrecord'
      change rebuildMessageFile env path raw isTrash = _ at hrecord'
      rw [hrecord] at hrecord'
      cases hrecord'
      exact hr
  rw [List.mem_append, hfiles false live hlive, hfiles true trash htrash]
  constructor
  · rintro (⟨path, raw, h⟩ | ⟨path, raw, h⟩)
    · exact ⟨path, false, raw, h⟩
    · exact ⟨path, true, raw, h⟩
  · rintro ⟨path, isTrash, raw, h⟩
    cases isTrash with
    | false => exact .inl ⟨path, raw, h⟩
    | true => exact .inr ⟨path, raw, h⟩

theorem messageFile_loads (hdir : ∀ paths, (env.directoryOrder paths).Perm paths)
    (h : rebuildMessageFiles env work = .ok records) {path : String} {isTrash : Bool} {raw : Bytes}
    (hfile : MessageFile isTrash path) (hraw : work[path]? = some raw) :
    ∃ record, rebuildMessageFile env path raw isTrash = .ok record := by
  have hmem : path ∈ collectFiles env work (if isTrash then "trash/ai_messages" else "ai_messages") :=
    (mem_collectFiles hdir).mpr ⟨⟨raw, hraw⟩, hfile⟩
  unfold rebuildMessageFiles at h
  simp only [bind, Except.bind, pure, Except.pure] at h
  split at h
  · cases h
  next live hlive =>
  split at h
  · cases h
  next trash htrash =>
  cases isTrash with
  | false =>
    obtain ⟨record, -, hrecord⟩ := (Except.forall₂_of_mapM hlive).exists_right hmem
    rw [hraw] at hrecord
    exact ⟨record, hrecord⟩
  | true =>
    obtain ⟨record, -, hrecord⟩ := (Except.forall₂_of_mapM htrash).exists_right hmem
    rw [hraw] at hrecord
    exact ⟨record, hrecord⟩

omit [NatCast K] in
theorem insertMessages_inv {projectId : String} {rebuilt rebuilt' : RebuiltMessages K}
    (h : insertMessages projectId records rebuilt = .ok rebuilt') :
    (∀ (id : String) (m : AiMessage), rebuilt'.messages[id]? = some m ↔
      (∃ r ∈ records, r.message.messageId = id ∧ r.message = m) ∨ rebuilt.messages[id]? = some m) ∧
    ∃ links, rebuilt'.db = { rebuilt.db with cardLinks := links } ∧
      ∀ key : List String, links[key]? =
        (linkRows (records.flatMap (·.links)))[key]?.or rebuilt.db.cardLinks[key]? := by
  induction records generalizing rebuilt with
  | nil =>
    cases h
    exact ⟨by simp, _, rfl, by simp [linkRows]⟩
  | cons record records ih =>
    rw [insertMessages] at h
    split at h
    · cases h
    next hcontains =>
    have hnone : rebuilt.messages[record.message.messageId]? = none := by
      rw [← Map.not_mem_iff, ← Std.ExtTreeMap.contains_iff_mem]
      exact hcontains
    have hup := LinkRepo.upsertLinks_ends projectId record.message.messageId record.links rebuilt.db
    cases hrun : LinkRepo.upsertLinks projectId record.message.messageId record.links rebuilt.db with
    | error e db =>
      rw [hrun] at h
      cases h
    | ok u db1 =>
      rw [hrun] at h
      obtain ⟨rfl, -⟩ := hup.ok hrun
      obtain ⟨hrows, links, hdb, hkeys⟩ := ih h
      refine ⟨fun id m => ?_, links, hdb, fun key => ?_⟩
      · rw [hrows, List.exists_mem_cons_iff, Map.get_insert, or_assoc, or_left_comm]
        by_cases hid : record.message.messageId = id
        · subst hid
          simp [hnone]
        · simp [hid]
      · rw [hkeys, List.flatMap_cons, linkRows_append]
        simp only [get_foldl_links, Option.or_assoc]

end

/-- The rows of a rebuild: those of the card files and those of the message files. -/
structure Rebuilt [NatCast K] (env : Env K) (work : Tree) (rows : Map String AiMessage) (db : Db K)
    (cards : List (CardRecord K)) (cardRows : Db K) (messages : List MessageRecord) : Prop where
  project : projection env work = .ok cardRows
  projected : Projected env work cards cardRows
  fts : FtsOf env cards cardRows
  files : ∀ record, record ∈ messages ↔ ∃ path isTrash raw, MessageFile isTrash path ∧
    work[path]? = some raw ∧ rebuildMessageFile env path raw isTrash = .ok record
  messageRows : ∀ (id : String) (m : AiMessage), rows[id]? = some m ↔
    ∃ r ∈ messages, r.message.messageId = id ∧ r.message = m
  links : ∃ links, db = { cardRows with cardLinks := links } ∧ ∀ key : List String,
    links[key]? = (linkRows (messages.flatMap (·.links)))[key]?.or cardRows.cardLinks[key]?

section
variable [NatCast K] {env : RebuildEnv K} {rows rows' : ServiceRows} {work : Tree} {db : Db K}
  {s s' : SearchState K}

theorem rebuildTables_iff {result : ServiceRows × Db K} : rebuildTables env rows work = .ok result ↔
    ∃ stored threads rebuilt, rebuildResources env rows work = .ok stored ∧
      rebuildCardsAndMessages env stored.threads work = .ok (threads, rebuilt) ∧
      result = ({ stored with threads, messages := rebuilt.messages }, rebuilt.db) := by
  unfold rebuildTables
  cases rebuildResources env rows work with
  | error e => simp [bind, Except.bind]
  | ok stored =>
    simp only [bind, Except.bind, Except.ok.injEq, exists_and_left, exists_eq_left']
    cases rebuildCardsAndMessages env stored.threads work with
    | error e => simp
    | ok r => simp [pure, Except.pure, Prod.ext_iff, eq_comm]

omit [NatCast K] in
theorem checkThreadCards_iff {manifests : List AiThreadManifest} : checkThreadCards db manifests = .ok () ↔
    ∀ manifest ∈ manifests, ∀ card ∈ manifest.cardId, card ∈ db.cards := by
  have hall : (manifests.all fun manifest => manifest.cardId.all db.cards.contains) = true ↔
      ∀ manifest ∈ manifests, ∀ card ∈ manifest.cardId, card ∈ db.cards := by
    simp only [List.all_eq_true, Option.all_eq_true, Std.ExtTreeMap.contains_iff_mem, Option.mem_def]
  unfold checkThreadCards
  rw [← hall]
  split <;> simp_all

theorem rebuildCardsAndMessages_iff {threads threads' : Map String String} {rebuilt : RebuiltMessages K} :
    rebuildCardsAndMessages env threads work = .ok (threads', rebuilt) ↔
      ∃ cardRows manifests messages ids, projection env.toEnv work = .ok cardRows ∧
        threadManifests env work = .ok manifests ∧ checkThreadCards cardRows manifests = .ok () ∧
        rebuildMessageFiles env.toEnv work = .ok messages ∧
        rebuildThreads (manifests.map (·.threadId)) messages = .ok ids ∧
        insertMessages env.project.projectId messages ⟨∅, cardRows⟩ = .ok rebuilt ∧
        rebuiltThreads env ids threads = .ok threads' := by
  unfold rebuildCardsAndMessages rebuildMessages
  cases projection env.toEnv work with
  | error e => simp [bind, Except.bind]
  | ok cardRows =>
  cases threadManifests env work with
  | error e => simp [bind, Except.bind]
  | ok manifests =>
  simp only [bind, Except.bind, pure, Except.pure, Except.ok.injEq, exists_and_left, exists_eq_left']
  cases checkThreadCards cardRows manifests with
  | error e => simp
  | ok u =>
  cases rebuildMessageFiles env.toEnv work with
  | error e => simp
  | ok messages =>
  simp only [Except.ok.injEq, exists_eq_left']
  cases rebuildThreads (manifests.map (·.threadId)) messages with
  | error e => simp
  | ok ids =>
  simp only [Except.ok.injEq, exists_eq_left']
  cases insertMessages env.project.projectId messages ⟨∅, cardRows⟩ with
  | error e => simp
  | ok result =>
  simp only
  cases rebuiltThreads env ids threads <;> simp [and_comm]

theorem rebuildCardsAndMessages_ok (hdir : ∀ paths, (env.directoryOrder paths).Perm paths)
    {threads threads' : Map String String} {rebuilt : RebuiltMessages K}
    (h : rebuildCardsAndMessages env threads work = .ok (threads', rebuilt)) :
    ∃ cards cardRows messages, Rebuilt env.toEnv work rebuilt.messages rebuilt.db cards cardRows messages ∧
      rebuildMessageFiles env.toEnv work = .ok messages := by
  obtain ⟨cardRows, -, records, -, hcards, -, -, hrecords, -, hinsert, -⟩ :=
    rebuildCardsAndMessages_iff.mp h
  obtain ⟨cards, hprojected, hfts⟩ := projection_rows hdir hcards
  obtain ⟨hrows, links, hdb, hlinks⟩ := insertMessages_inv hinsert
  refine ⟨cards, cardRows, records, ⟨hcards, hprojected, hfts,
    mem_messageRecords hdir hrecords, fun id m => ?_, links, hdb, hlinks⟩, hrecords⟩
  rw [hrows]
  simp

theorem rebuildTables_ok (hdir : ∀ paths, (env.directoryOrder paths).Perm paths)
    (h : rebuildTables env rows work = .ok (rows', db)) :
    ∃ cards cardRows messages, Rebuilt env.toEnv work rows'.messages db cards cardRows messages ∧
      rebuildMessageFiles env.toEnv work = .ok messages := by
  obtain ⟨stored, threads, rebuilt, -, hrest, he⟩ := rebuildTables_iff.mp h
  cases he
  exact rebuildCardsAndMessages_ok hdir hrest

/-- A rebuild that returns changes no file but for those of an interrupted card change. -/
theorem rebuild_ok (h : SearchState.rebuild env s = .ok () s') :
    ∃ world, runSteps env.toEnv (recoverySteps s.services.world) s.services.world = .ok world ∧
      s'.services.world.repo = world.repo ∧ s'.services.world.journal = none ∧
      s'.aiFts = rebuiltAiFts env s'.services.rows.messages ∧
      rebuildTables env s.services.rows s'.services.world.repo.work =
        .ok (s'.services.rows, s'.services.world.db) := by
  unfold SearchState.rebuild at h
  split at h
  · cases h
  next world hrun =>
  split at h
  · cases h
  next rows db htables =>
  cases h
  exact ⟨world, hrun, rfl, rfl, rfl, htables⟩

theorem rebuild_settled (hj : s.services.world.journal = none)
    (h : SearchState.rebuild env s = .ok () s') :
    s'.services.world.repo = s.services.world.repo := by
  obtain ⟨world, hrun, hrepo, -⟩ := rebuild_ok h
  rw [recoverySteps, hj] at hrun
  cases hrun
  exact hrepo

end

end HolderCore
