import HolderCore.Project.Services

/-! # Resources and imported assets

`resource/ResourceStore.cpp`, `resource/AssetImportService.cpp` and the statements of
`ResourceRepo.cpp` they use. A resource is a manifest file beside its rows, and a card names it in a
link. -/

namespace HolderCore

/-! ## Manifests -/

def missingField (field : String) : Exn := .runtimeError ("resource manifest missing " ++ field)

/-- The text of a manifest, once its fields and its ids are checked. -/
def renderResourceManifest (env : ServiceEnv K) (bundle : ResourceBundle) : Except Exn Bytes := do
  let resource := bundle.resource
  if resource.resourceId.isEmpty then throw (missingField "resource_id")
  if resource.projectId.isEmpty then throw (missingField "project_id")
  if resource.type.isEmpty then throw (missingField "type")
  if resource.label.isEmpty then throw (missingField "label")
  bundle.assets.forM fun asset => do
    if asset.resourceId ≠ resource.resourceId then
      throw (.runtimeError "asset resource_id mismatch")
    if asset.placements.any (·.assetId != asset.assetId) then
      throw (.runtimeError "placement asset_id mismatch")
  return env.dumpManifest bundle

/-! ## ResourceRepo -/

namespace ResourceRepo

/-- `ORDER BY created_at, asset_id`. -/
def assetOrder (a b : Asset) : Prop :=
  a.createdAt < b.createdAt ∨ a.createdAt = b.createdAt ∧ a.assetId ≤ b.assetId

instance : DecidableRel assetOrder := fun _ _ => inferInstanceAs (Decidable (_ ∨ _))

def getBundle (rows : ServiceRows) (resourceId : String) : Option ResourceBundle :=
  rows.resources[resourceId]?.map fun bundle =>
    { bundle with assets := bundle.assets.insertionSort assetOrder }

/-- The resource of the oldest asset of the project with the digest. Of equally old assets the query
may find any; here it finds the first in the order of the rows. -/
def findByAssetHash (rows : ServiceRows) (projectId sha256 : String) : Option ResourceBundle :=
  let assets := rows.resources.rows.flatMap fun bundle =>
    if bundle.resource.projectId = projectId then
      bundle.assets.filter (·.plaintextSha256 == sha256) else []
  match assets.insertionSort fun a b => a.createdAt ≤ b.createdAt with
  | [] => none
  | asset :: _ => getBundle rows asset.resourceId

def validPlacement (asset : Asset) (placement : Placement) : Bool :=
  !placement.placementId.isEmpty && placement.assetId == asset.assetId &&
    !placement.locationId.isEmpty && !placement.objectKey.isEmpty && !placement.encoding.isEmpty &&
    decide (0 ≤ placement.storedByteSize)

def validAsset (resource : Resource) (asset : Asset) : Bool :=
  !asset.assetId.isEmpty && asset.resourceId == resource.resourceId &&
    !asset.plaintextSha256.isEmpty && decide (0 ≤ asset.byteSize)

/-- The ids of assets and placements differ and a location holds one object under a key. -/
def Distinct (bundles : List ResourceBundle) : Prop :=
  let assets := bundles.flatMap (·.assets)
  let placements := assets.flatMap (·.placements)
  (assets.map (·.assetId)).Nodup ∧ (placements.map (·.placementId)).Nodup ∧
    (placements.map fun p => (p.locationId, p.objectKey)).Nodup

instance (bundles : List ResourceBundle) : Decidable (Distinct bundles) :=
  inferInstanceAs (Decidable (_ ∧ _ ∧ _))

def putBundle (bundle : ResourceBundle) (rows : ServiceRows) : Except Exn ServiceRows := do
  let resource := bundle.resource
  if resource.resourceId.isEmpty || resource.projectId.isEmpty || resource.type.isEmpty ||
      resource.label.isEmpty then
    throw (.invalidArgument "resource identity, project, type and label are required")
  let others := rows.resources.erase resource.resourceId
  if resource.metadata.any (·.1.isEmpty) then
    throw (.invalidArgument "resource metadata property is empty")
  if !bundle.assets.all (validAsset resource) then
    throw (.invalidArgument "invalid asset in resource bundle")
  if !bundle.assets.all (fun asset => asset.placements.all (validPlacement asset)) then
    throw (.invalidArgument "invalid placement in resource bundle")
  if !(bundle.assets.flatMap (·.placements)).all (rows.locations.contains ·.locationId) then
    throw (.runtimeError "put placement failed: FOREIGN KEY constraint failed")
  if ¬ Distinct (bundle :: Map.rows others) then
    throw (.runtimeError "put resource failed: UNIQUE constraint failed")
  return { rows with resources := others.insert resource.resourceId bundle }

end ResourceRepo

/-! ## Encoded files -/

section
variable (env : ServiceEnv K)

/-- `assert_encryption_index_paths_safe`, for an encrypted project. -/
def assertIndexPathsSafe (paths : List String) : StoreM K Unit := do
  fromExcept (assertProjectStagedBlobsSafe env.toEnv (← get).repo.staged paths)

/-- What reading a file that is not there throws. -/
def readFailed (path : String) : Exn := .runtimeError ("Failed to open for read: " ++ path)

/-- Encode a text and write and stage it. -/
def putEncoded (path : String) (plain : Bytes) : StoreM K Unit := do
  let bytes ← encodeCardBlob env.toEnv plain
  writeAndStage path bytes

/-- Run statements in a transaction after a commit: what fails is rebuilt from the files. -/
def orRebuild [NatCast K] (statements : ServM K Unit) : ServM K Unit := fun s =>
  match statements s with
  | .ok _ s' => .ok () s'
  | .error _ s' => rebuildServices env { s' with world.db := s.world.db, rows := s.rows }

def storeBundle (bundle : ResourceBundle) : ServM K Unit := do
  let s ← get
  set { s with rows := ← fromExcept (ResourceRepo.putBundle bundle s.rows) }

end

/-! ## ResourceStore -/

namespace ResourceStore

section
variable [NatCast K] (env : ServiceEnv K)

def requireProject (projectId : String) : ServM K Unit :=
  if projectId ≠ env.project.projectId then
    throw (.runtimeError ("project not found: " ++ projectId))
  else pure ()

def put (bundle : ResourceBundle) : ServM K Unit := do
  requireProject env bundle.resource.projectId
  let path ← fromExcept (resourceRelPath bundle.resource.resourceId)
  let plain ← fromExcept (renderResourceManifest env bundle)
  onWorld (putEncoded env path plain)
  onWorld (assertIndexPathsSafe env [path])
  onWorld (CardStore.commit ("Update resource " ++ bundle.resource.label))
  orRebuild env (storeBundle bundle)

/-- The links of a card's file without those to a resource. -/
def keptLinks (resourceId : String) (links : List CardLink) : List CardLink :=
  links.filter fun link => !(link.toType == "resource" && link.toCardId == resourceId)

/-- Rewrite the file of one live card that names the resource. -/
def unlinkCard (resourceId : String) (now : Int) (card : Card K) : StoreM K String := do
  let path ← fromExcept (cardRelPath card.cardId)
  if card.relPath ≠ path then throw relPathMismatch
  match (← get).repo.work[path]? with
  | none => throw (readFailed path)
  | some raw =>
    let parsed := parseCardFile env.yaml (← fromExcept (decodeCardBlob env.toEnv raw))
    let links := keptLinks resourceId parsed.links
    putEncoded env path (renderCardFrontMatter env.yaml { card with updatedAt := now } links
      parsed.milestones ++ parsed.body.toList)
    return path

/-- The live cards with a link to the resource, each once. -/
def linkedCards (db : Db K) (projectId resourceId : String) : List (Card K) :=
  let backlinks := db.cardLinks.rows.filter fun l =>
    l.projectId == projectId && l.toCardId == resourceId && l.toType == "resource"
  (backlinks.map (·.fromCardId)).dedup.filterMap fun id => (CardRepo.get? db id).filter (·.live)

def touchAll (now : Int) : List (Card K) → DbM K Unit
  | [] => return
  | card :: cards => do
    CardRepo.touchUpdated card.cardId now
    touchAll now cards

def remove (resourceId : String) (now : Int) : ServM K Unit := do
  let s ← get
  match ResourceRepo.getBundle s.rows resourceId with
  | none => throw (.runtimeError ("resource not found: " ++ resourceId))
  | some bundle =>
    requireProject env bundle.resource.projectId
    let path ← fromExcept (resourceRelPath resourceId)
    let cards := linkedCards s.world.db env.project.projectId resourceId
    let staged ← onWorld (cards.mapM (unlinkCard env resourceId now))
    onWorld (onRepo fun r => .ok { r with work := r.work.erase path })
    onWorld (onRepo fun r => .ok (r.removePath path))
    onWorld (assertIndexPathsSafe env staged)
    onWorld (CardStore.commit ("Remove resource " ++ bundle.resource.label))
    orRebuild env do
      onWorld (onDb (LinkRepo.deleteLinksToTyped env.project.projectId resourceId "resource"))
      onWorld (onDb (touchAll now cards))
      modifyRows fun rows => { rows with resources := rows.resources.erase resourceId }

end

end ResourceStore

/-! ## AssetImportService -/

namespace AssetImportService

structure AssetImportRequest where
  projectId : String
  cardId : String
  locationId : String
  sourceFile : String
  now : Int

def asciiLower (cs : List Char) : List Char :=
  cs.map fun c => if 'A' ≤ c ∧ c ≤ 'Z' then Char.ofNat (c.toNat + 32) else c

/-- A file's last component. -/
def filename (path : String) : String := String.ofList (fileName path)

/-- `path.extension()`: from the last dot that is not the first character. -/
def extension (path : String) : List Char :=
  let name := fileName path
  let tail := (name.reverse.takeWhile (· != '.')).reverse
  if tail.length + 1 < name.length then '.' :: tail else []

def classify (path : String) : String × String :=
  let ext := String.ofList (asciiLower (extension path))
  if ext = ".jpg" ∨ ext = ".jpeg" then ("image", "image/jpeg")
  else if ext = ".png" then ("image", "image/png")
  else if ext = ".gif" then ("image", "image/gif")
  else if ext = ".webp" then ("image", "image/webp")
  else if ext = ".svg" then ("image", "image/svg+xml")
  else if ext = ".pdf" then ("document", "application/pdf")
  else if ext = ".txt" ∨ ext = ".md" then ("document", "text/plain")
  else ("thing", "application/octet-stream")

def objectKeyFor (location : Location) (projectId assetId : String) : String :=
  let raw := ((location.configuration.find? (·.1 == "prefix")).map (·.2)).getD ""
  let prefixed := ((raw.toList.dropWhile (· == '/')).reverse.dropWhile (· == '/')).reverse
  String.ofList prefixed ++ (if prefixed.isEmpty then "" else "/") ++ projectId ++ "/" ++ assetId ++
    ".holderasset"

def hasResourceLink (links : List CardLink) (resourceId : String) : Bool :=
  links.any fun link =>
    link.toType == "resource" && link.kind == "attachment" && link.toCardId == resourceId

def attachmentLink (request : AssetImportRequest) (resourceId : String) : CardLink where
  projectId := request.projectId
  fromCardId := request.cardId
  toCardId := resourceId
  toType := "resource"
  kind := "attachment"
  label := some (filename request.sourceFile)
  createdAt := request.now

def newBundle (request : AssetImportRequest) (resourceId assetId placementId objectKey : String)
    (staged : StagedAsset) : ResourceBundle where
  resource := {
    resourceId
    projectId := request.projectId
    type := (classify request.sourceFile).1
    label := filename request.sourceFile
    metadata := []
    createdAt := request.now
    updatedAt := request.now }
  assets := [{
    assetId
    resourceId
    originalFilename := filename request.sourceFile
    mediaType := (classify request.sourceFile).2
    byteSize := staged.plaintext.byteSize
    plaintextSha256 := staged.plaintext.sha256
    createdAt := request.now
    updatedAt := request.now
    placements := [{
      placementId, assetId
      locationId := request.locationId
      objectKey
      encoding := staged.encoding
      storedByteSize := staged.stored.byteSize
      storedSha256 := staged.stored.sha256
      createdAt := request.now }] }]

section
variable [NatCast K] (env : ServiceEnv K)

/-- Store the object of a new asset and write its manifest. -/
def storeNew (request : AssetImportRequest) (location : Location) (resourceId assetId : String)
    (staged : StagedAsset) : ServM K ResourceBundle := do
  let placementId ← nextUuid env
  let objectKey := objectKeyFor location request.projectId assetId
  let bundle := newBundle request resourceId assetId placementId objectKey staged
  fromExcept (env.providerPut objectKey staged)
  if !(← fromExcept (env.providerExists objectKey)) then
    throw (.runtimeError "stored object did not become available")
  let path ← fromExcept (resourceRelPath resourceId)
  let plain ← fromExcept (renderResourceManifest env bundle)
  onWorld (putEncoded env path plain)
  return bundle

/-- The statements after the commit. -/
def storeRows (request : AssetImportRequest) (bundle : Option ResourceBundle)
    (links : Option (List CardLink)) : ServM K Unit := do
  if let some bundle := bundle then storeBundle bundle
  if let some links := links then
    onWorld (onDb (LinkRepo.upsertLinks request.projectId request.cardId links))
    onWorld (onDb (CardRepo.touchUpdated request.cardId request.now))

/-- The paths that an import changes. -/
def changedPaths (resourceId cardPath : String) (isNew linked : Bool) : List String :=
  (if isNew then [shardedPath "resources" resourceId ".json"] else []) ++
    if linked then [] else [cardPath]

def importFile (request : AssetImportRequest) : ServM K Unit := do
  if request.projectId ≠ env.project.projectId then
    throw (.runtimeError ("project not found: " ++ request.projectId))
  let s ← get
  let some card := (CardRepo.get? s.world.db request.cardId).filter fun c =>
      c.projectId == request.projectId && c.live
    | throw (.runtimeError "live card not found in project")
  let some location := s.rows.locations[request.locationId]?.filter (·.projectId == request.projectId)
    | throw (.runtimeError "storage location not found in project")
  let provisionalResourceId ← nextUuid env
  let provisionalAssetId ← nextUuid env
  let staged ← fromExcept
    (env.stageAssetFile request.sourceFile provisionalResourceId provisionalAssetId)
  let duplicate := ResourceRepo.findByAssetHash s.rows request.projectId staged.plaintext.sha256
  let resourceId := duplicate.elim provisionalResourceId (·.resource.resourceId)
  let old := LinkRepo.listOutgoing s.world.db request.projectId request.cardId
  let linked := hasResourceLink old resourceId
  let links := if linked then old else old ++ [attachmentLink request resourceId]
  let cardPath ← fromExcept (cardRelPath card.cardId)
  if card.relPath ≠ cardPath then throw relPathMismatch
  let some raw := (← get).world.repo.work[cardPath]? | throw (readFailed cardPath)
  let parsed := parseCardFile env.yaml (← fromExcept (decodeCardBlob env.toEnv raw))
  let cardBlob ← onWorld (encodeCardBlob env.toEnv (renderCardFrontMatter env.yaml
    { card with updatedAt := request.now } links parsed.milestones ++ parsed.body.toList))
  let bundle ← (if duplicate.isSome then pure none
    else some <$> storeNew env request location resourceId provisionalAssetId staged)
  (if linked then pure () else onWorld (writeAndStage cardPath cardBlob))
  onWorld (assertIndexPathsSafe env (changedPaths resourceId cardPath duplicate.isNone linked))
  let committed := duplicate.isNone || !linked
  (if committed then onWorld (CardStore.commit ("Attach " ++ filename request.sourceFile))
    else pure ())
  -- With nothing to commit there are no statements either.
  orRebuild env (storeRows request bundle (if linked then none else some links))

end

end AssetImportService

end HolderCore
