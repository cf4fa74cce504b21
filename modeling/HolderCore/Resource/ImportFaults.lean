import HolderCore.Project.Manifests
import HolderCore.Resource.Repair

/-! # Imports that fail

`AssetImportService::import_file` over the four stores it changes: the staging directory, the
provider, the project's files with their index, and the rows. An exception carries the step that
threw it. -/

namespace HolderCore

/-- The steps at which `import_file` can throw, in their order. -/
inductive ImportStep where
  /-- The source, the project, the card and the location are looked up. -/
  | request
  | createDirectories | resourceId | assetId
  /-- `on_stage` is called before each of the three stages. -/
  | stagingStage
  /-- `stage_asset_file` up to the creation of its file, and from there on. -/
  | openStaging | writeStaging
  | findByAssetHash | listOutgoing | cardPath | relPath | readCard | encodeCard
  | placementId | storingStage | put | exists
  /-- The provider does not know the stored object. -/
  | unavailable
  | manifestPath | renderManifest | encodeManifest | writeManifest | stageManifest
  | committingStage | writeCard | stageCard | checkIndex | commit | statements | rebuild
deriving DecidableEq, Repr

/-- What fails in a run. -/
structure ImportFaults where
  thrown : ImportStep → Option Exn
  /-- What `stage_asset_file` has written when it throws. -/
  stagedSoFar : Bytes
  /-- What a `put` that throws has stored. -/
  tornPut : Option Bytes
  /-- The removals of the staging file and of the object, whose errors are ignored. -/
  keepsStaging : Bool
  keepsObject : Bool

/-- A step that fails throws instead of what it returns. -/
def ImportFaults.raise (faults : ImportFaults) (step : ImportStep) (x : Except Exn α) : Except Exn α :=
  (faults.thrown step).elim x .error

/-- The stores that an import changes, and the local variables of `import_file` that its handler
reads. -/
structure ImportState (K : Type) where
  services : Services K
  staging : Map String Bytes
  objects : Map String Bytes
  objectKey : String
  storedNewObject : Bool
  gitCommitted : Bool

/-- The local variables before anything is stored. -/
def ImportState.begun (s : ImportState K) : ImportState K :=
  { s with objectKey := "", storedNewObject := false, gitCommitted := false }

/-- An exception with the step that threw it. -/
abbrev ImportM (K : Type) := EStateM (ImportStep × Exn) (ImportState K)

/-- The services with the bytes of staged files. -/
structure ImportEnv (K : Type) extends ServiceEnv K where
  stagedBytes : (sourceFile resourceId assetId : String) → Bytes

structure AssetImportResult where
  resourceId : String
  assetId : String
  duplicateReused : Bool
  linkCreated : Bool
deriving DecidableEq, Repr

namespace AssetImportService

def stagingFile (assetId : String) : String := assetId ++ ".staged"

section
variable [NatCast K] (env : ImportEnv K) (faults : ImportFaults)

def importStep (step : ImportStep) (m : ServM K α) : ImportM K α := fun s =>
  match faults.thrown step with
  | some e => .error (step, e) s
  | none =>
    match m s.services with
    | .ok a services => .ok a { s with services }
    | .error e services => .error (step, e) { s with services }

def removeStaging (assetId : String) : ImportM K Unit :=
  modify fun s =>
    if faults.keepsStaging then s else { s with staging := s.staging.erase (stagingFile assetId) }

/-- `stage_asset_file`. -/
def stageFile (sourceFile resourceId assetId : String) : ImportM K StagedAsset := fun s =>
  match faults.thrown .openStaging with
  | some e => .error (.openStaging, e) s
  | none =>
    match faults.raise .writeStaging (env.stageAssetFile sourceFile resourceId assetId) with
    | .error e => .error (.writeStaging, e)
      { s with staging := s.staging.insert (stagingFile assetId) faults.stagedSoFar }
    | .ok staged => .ok staged { s with
      staging := s.staging.insert (stagingFile assetId) (env.stagedBytes sourceFile resourceId assetId) }

/-- `provider.put`. -/
def putObject (objectKey : String) (staged : StagedAsset) (bytes : Bytes) : ImportM K Unit := fun s =>
  match faults.raise .put (env.providerPut objectKey staged) with
  | .error e => .error (.put, e)
    { s with objects := faults.tornPut.elim s.objects (s.objects.insert objectKey) }
  | .ok () => .ok () { s with objects := s.objects.insert objectKey bytes }

/-- The checks of a request: the card and the location it names. -/
def checkRequest (request : AssetImportRequest) : ServM K (Card K × Location) := do
  if request.projectId ≠ env.project.projectId then
    throw (.runtimeError ("project not found: " ++ request.projectId))
  let s ← get
  let some card := (CardRepo.get? s.world.db request.cardId).filter fun c =>
      c.projectId == request.projectId && c.live
    | throw (.runtimeError "live card not found in project")
  let some location := s.rows.locations[request.locationId]?.filter (·.projectId == request.projectId)
    | throw (.runtimeError "storage location not found in project")
  return (card, location)

/-- The card's file with the links of an import. -/
def updatedCardBlob (request : AssetImportRequest) (card : Card K) (links : List CardLink) (raw : Bytes) :
    StoreM K Bytes := do
  let parsed := parseCardFile env.yaml (← fromExcept (decodeCardBlob env.toEnv raw))
  encodeCardBlob env.toEnv (renderCardFrontMatter env.yaml
    { card with updatedAt := request.now } links parsed.milestones ++ parsed.body.toList)

/-- Store the object of a new asset and write its manifest. -/
def storeObject (request : AssetImportRequest) (location : Location) (resourceId assetId : String)
    (staged : StagedAsset) (bytes : Bytes) : ImportM K ResourceBundle := do
  let placementId ← importStep faults .placementId (nextUuid env.toServiceEnv)
  let objectKey := objectKeyFor location request.projectId assetId
  let bundle := newBundle request resourceId assetId placementId objectKey staged
  modify fun s => { s with objectKey }
  importStep faults .storingStage (pure ())
  putObject env faults objectKey staged bytes
  if !(← importStep faults .exists (fromExcept (env.providerExists objectKey))) then
    throw (.unavailable, .runtimeError "stored object did not become available")
  modify fun s => { s with storedNewObject := true }
  let path ← importStep faults .manifestPath (fromExcept (resourceRelPath resourceId))
  let plain ← importStep faults .renderManifest
    (fromExcept (renderResourceManifest env.toServiceEnv bundle))
  let blob ← importStep faults .encodeManifest (onWorld (encodeCardBlob env.toEnv plain))
  importStep faults .writeManifest (onWorld (onRepo fun r => .ok (r.writeFile path blob)))
  importStep faults .stageManifest (onWorld (onRepo (·.stagePath path)))
  return bundle

/-- Run the statements in a transaction: what fails behind a commit is rebuilt from the files. -/
def storeOrRebuild (statements : ServM K Unit) : ImportM K Unit := fun s =>
  match importStep faults .statements statements s with
  | .ok _ s' => .ok () s'
  | .error e _ =>
    if s.gitCommitted then importStep faults .rebuild (rebuildServices env.toServiceEnv) s
    else .error e s

/-- The values of `import_file` that what it tries depends on. -/
structure ImportPlan (K : Type) where
  card : Card K
  location : Location
  resourceId : String
  provisionalAssetId : String
  staged : StagedAsset
  duplicate : Option ResourceBundle
  linked : Bool
  links : List CardLink
  cardBlob : Bytes

/-- Commit the card's file and the manifest, and store their rows. -/
def commitFiles (request : AssetImportRequest) (plan : ImportPlan K) (bundle : Option ResourceBundle) :
    ImportM K Unit := do
  let cardPath := livePath plan.card.cardId
  importStep faults .committingStage (pure ())
  (if plan.linked then pure () else do
    importStep faults .writeCard (onWorld (onRepo fun r => .ok (r.writeFile cardPath plan.cardBlob)))
    importStep faults .stageCard (onWorld (onRepo (·.stagePath cardPath))))
  importStep faults .checkIndex (onWorld (assertIndexPathsSafe env.toServiceEnv
    (changedPaths plan.resourceId cardPath plan.duplicate.isNone plan.linked)))
  (if plan.duplicate.isNone || !plan.linked then do
    importStep faults .commit
      (onWorld (CardStore.commit ("Attach " ++ filename request.sourceFile)))
    modify fun s => { s with gitCommitted := true }
    else pure ())
  storeOrRebuild env faults
    (storeRows request bundle (if plan.linked then none else some plan.links))

/-- What `import_file` tries. -/
def tryImport (request : AssetImportRequest) (bytes : Bytes) (plan : ImportPlan K) : ImportM K Unit := do
  let bundle ← (if plan.duplicate.isSome then pure none
    else some <$> storeObject env faults request plan.location plan.resourceId plan.provisionalAssetId
      plan.staged bytes)
  commitFiles env faults request plan bundle

/-- The handler behind it. -/
def undoImport (provisionalAssetId : String) : ImportM K Unit := do
  removeStaging faults provisionalAssetId
  modify fun s =>
    if s.storedNewObject && !s.gitCommitted && !faults.keepsObject then
      { s with objects := s.objects.erase s.objectKey }
    else s

/-- `import_file` before its handler is in place. -/
def planImport (request : AssetImportRequest) : ImportM K (ImportPlan K) := do
  let (card, location) ← importStep faults .request (checkRequest env request)
  importStep faults .createDirectories (pure ())
  let provisionalResourceId ← importStep faults .resourceId (nextUuid env.toServiceEnv)
  let provisionalAssetId ← importStep faults .assetId (nextUuid env.toServiceEnv)
  importStep faults .stagingStage (pure ())
  let staged ← stageFile env faults request.sourceFile provisionalResourceId provisionalAssetId
  let duplicate ← importStep faults .findByAssetHash (do
    return ResourceRepo.findByAssetHash (← get).rows request.projectId staged.plaintext.sha256)
  let resourceId := duplicate.elim provisionalResourceId (·.resource.resourceId)
  let old ← importStep faults .listOutgoing (do
    return LinkRepo.listOutgoing (← get).world.db request.projectId request.cardId)
  let linked := hasResourceLink old resourceId
  let links := if linked then old else old ++ [attachmentLink request resourceId]
  let cardPath ← importStep faults .cardPath (fromExcept (cardRelPath card.cardId))
  if card.relPath ≠ cardPath then
    removeStaging faults provisionalAssetId
    throw (.relPath, relPathMismatch)
  let raw ← importStep faults .readCard (do
    match (← get).world.repo.work[cardPath]? with
    | some raw => return raw
    | none => throw (readFailed cardPath))
  let cardBlob ← importStep faults .encodeCard (onWorld (updatedCardBlob env request card links raw))
  return { card, location, resourceId, provisionalAssetId, staged, duplicate, linked, links, cardBlob }

def importInto (request : AssetImportRequest) : ImportM K AssetImportResult := do
  modify ImportState.begun
  let provisionalResourceId := env.uuidV4 (← get).services.drawn
  let plan ← planImport env faults request
  let bytes := env.stagedBytes request.sourceFile provisionalResourceId plan.provisionalAssetId
  tryCatch (tryImport env faults request bytes plan) fun e => do
    undoImport faults plan.provisionalAssetId
    throw e
  removeStaging faults plan.provisionalAssetId
  return {
    resourceId := plan.resourceId
    assetId := plan.duplicate.elim plan.provisionalAssetId
      fun bundle => (bundle.assets.head?.map (·.assetId)).getD ""
    duplicateReused := plan.duplicate.isSome
    linkCreated := !plan.linked }

end

/-! ## What is left -/

/-- No new staging file, no new object, and the files and the index as they were. -/
structure NoTrace (s s' : ImportState K) : Prop where
  staging : ∀ name ∈ s'.staging, name ∈ s.staging
  objects : ∀ key ∈ s'.objects, key ∈ s.objects
  work : ∀ path : String, s'.services.world.repo.work[path]? = s.services.world.repo.work[path]?
  index : ∀ path : String, s'.services.world.repo.staged[path]? = s.services.world.repo.staged[path]?

section
variable [NatCast K] (env : ImportEnv K) (faults : ImportFaults) (request : AssetImportRequest)
  (s : Services K)

/-- The resource that an import of the file uses again. -/
def importDuplicate : Option ResourceBundle :=
  match env.stageAssetFile request.sourceFile (env.uuidV4 s.drawn) (env.uuidV4 (s.drawn + 1)) with
  | .ok staged => ResourceRepo.findByAssetHash s.rows request.projectId staged.plaintext.sha256
  | .error _ => none

def importResourceId : String :=
  (importDuplicate env request s).elim (env.uuidV4 s.drawn) (·.resource.resourceId)

def importLinked : Bool :=
  hasResourceLink (LinkRepo.listOutgoing s.world.db request.projectId request.cardId)
    (importResourceId env request s)

def importLinks : List CardLink :=
  if importLinked env request s then LinkRepo.listOutgoing s.world.db request.projectId request.cardId
  else LinkRepo.listOutgoing s.world.db request.projectId request.cardId ++
    [attachmentLink request (importResourceId env request s)]

/-- The card's file is already what the import writes. -/
def CardImported (raw : Bytes) : Prop :=
  ∃ card world, CardRepo.get? s.world.db request.cardId = some card ∧
    s.world.repo.work[livePath card.cardId]? = some raw ∧
    updatedCardBlob env request card (importLinks env request s) raw s.world = .ok raw world

/-- So is its entry of the index. -/
def CardStaged (raw : Bytes) : Prop :=
  CardImported env request s raw ∧ ∃ card, CardRepo.get? s.world.db request.cardId = some card ∧
    s.world.repo.staged[livePath card.cardId]? = some raw

/-- The steps whose exception leaves no trace: those before the staging file is there and, where its
removal succeeds, those at which nothing was stored or written yet, or all of it can be removed. -/
def CleanAt : ImportStep → Prop
  | .request | .createDirectories | .resourceId | .assetId | .stagingStage | .openStaging => True
  | .relPath | .placementId | .storingStage | .statements => faults.keepsStaging = false
  | .put => faults.keepsStaging = false ∧ faults.tornPut = none
  | .manifestPath | .renderManifest | .encodeManifest | .writeManifest =>
    faults.keepsStaging = false ∧ faults.keepsObject = false
  | .committingStage | .writeCard =>
    faults.keepsStaging = false ∧ (importDuplicate env request s).isSome
  | .stageCard => faults.keepsStaging = false ∧ (importDuplicate env request s).isSome ∧
    ∃ raw, CardImported env request s raw
  | .checkIndex => faults.keepsStaging = false ∧ (importDuplicate env request s).isSome ∧
    (importLinked env request s ∨ ∃ raw, CardStaged env request s raw)
  | .commit | .rebuild => faults.keepsStaging = false ∧ (importDuplicate env request s).isSome ∧
    ∃ raw, CardStaged env request s raw
  | .writeStaging | .findByAssetHash | .listOutgoing | .cardPath | .readCard | .encodeCard | .exists
  | .unavailable | .stageManifest => False

/-- The ids that the import draws were not seen, and no card change was interrupted. -/
structure FreshIds (s : ImportState K) : Prop where
  staging : stagingFile (env.uuidV4 (s.services.drawn + 1)) ∉ s.staging
  objects : ∀ location, objectKeyFor location request.projectId (env.uuidV4 (s.services.drawn + 1)) ∉
    s.objects
  manifest : shardedPath "resources" (env.uuidV4 s.services.drawn) ".json" ∉ s.services.world.repo.work
  journal : s.services.world.journal = none

end

section
variable [NatCast K] {env : ImportEnv K} {faults : ImportFaults} {request : AssetImportRequest}
  {s t : ImportState K}

/-- What the handler makes of a state. -/
def undone (faults : ImportFaults) (provisionalAssetId : String) (t : ImportState K) : ImportState K :=
  { t with
    staging := if faults.keepsStaging then t.staging else t.staging.erase (stagingFile provisionalAssetId)
    objects := if t.storedNewObject && !t.gitCommitted && !faults.keepsObject then
      t.objects.erase t.objectKey else t.objects }

omit [NatCast K] in
theorem undoImport_run (aid : String) : undoImport faults aid t = .ok () (undone faults aid t) := by
  unfold undoImport removeStaging undone
  simp only [bind, EStateM.bind, modify, modifyGet, MonadStateOf.modifyGet, EStateM.modifyGet]
  cases faults.keepsStaging <;> simp only [Bool.false_eq_true, if_false, if_true] <;> split <;> rfl

omit [NatCast K] in
theorem importStep_iff {m : ServM K α} {step : ImportStep} {Q : α → ImportState K → Prop}
    {E : ImportStep × Exn → ImportState K → Prop} :
    Ends (importStep faults step m) t Q E ↔ (∀ e, faults.thrown step = some e → E (step, e) t) ∧
      (faults.thrown step = none → Ends m t.services (fun a services => Q a { t with services })
        fun e services => E (step, e) { t with services }) := by
  unfold Ends importStep
  cases faults.thrown step with
  | some e => simp
  | none => cases hm : m t.services <;> simp

/-- The same files and index. -/
def SameTree (w w' : World K) : Prop :=
  ∀ path : String, w'.repo.work[path]? = w.repo.work[path]? ∧ w'.repo.staged[path]? = w.repo.staged[path]?

omit [NatCast K] in
/-- What the handler has to leave so that nothing of the import stays. -/
theorem noTrace_undone_iff {aid : String} {b : Bytes} (hnew : stagingFile aid ∉ s.staging)
    (hstaging : t.staging = s.staging.insert (stagingFile aid) b) :
    NoTrace s (undone faults aid t) ↔ faults.keepsStaging = false ∧
      (∀ key ∈ (undone faults aid t).objects, key ∈ s.objects) ∧
      SameTree s.services.world t.services.world := by
  have hfiles : (∀ name ∈ (undone faults aid t).staging, name ∈ s.staging) ↔
      faults.keepsStaging = false := by
    simp only [undone, hstaging]
    cases faults.keepsStaging with
    | true =>
      simp only [if_true, reduceCtorEq, iff_false, not_forall]
      exact ⟨stagingFile aid, by simp, hnew⟩
    | false =>
      simp only [Bool.false_eq_true, if_false, iff_true]
      intro name hname
      rw [Map.mem_iff] at hname ⊢
      obtain ⟨v, hv⟩ := hname
      rw [Map.get_erase, Map.get_insert] at hv
      split at hv
      · cases hv
      · exact ⟨v, hv⟩
  constructor
  · intro h
    exact ⟨hfiles.mp h.staging, h.objects, fun path => ⟨h.work path, h.index path⟩⟩
  · rintro ⟨hkeeps, hobjects, htree⟩
    exact ⟨hfiles.mpr hkeeps, hobjects, fun path => (htree path).1, fun path => (htree path).2⟩

/-- What `import_file` has done when it reaches the steps it tries. -/
structure Trying (s : ImportState K) (aid : String) (b : Bytes) (t : ImportState K) : Prop where
  staging : t.staging = s.staging.insert (stagingFile aid) b
  objects : t.objects = s.objects
  repo : t.services.world.repo = s.services.world.repo
  journal : t.services.world.journal = s.services.world.journal
  stored : t.storedNewObject = false
  committed : t.gitCommitted = false

section
variable {aid : String} {b : Bytes}

omit [NatCast K] in
/-- An exception before anything is stored or written. -/
theorem Trying.noTrace_iff (h : Trying s aid b t) (hnew : stagingFile aid ∉ s.staging) :
    NoTrace s (undone faults aid t) ↔ faults.keepsStaging = false := by
  rw [noTrace_undone_iff hnew h.staging]
  simp [undone, SameTree, h.stored, h.objects, h.repo]

omit [NatCast K] in
theorem Trying.world (h : Trying s aid b t) (services : Services K)
    (hrepo : services.world.repo = t.services.world.repo)
    (hjournal : services.world.journal = t.services.world.journal) :
    Trying s aid b { t with services } :=
  ⟨h.staging, h.objects, hrepo.trans h.repo, hjournal.trans h.journal, h.stored, h.committed⟩

omit [NatCast K] in
/-- An object that the handler does not know of stays. -/
theorem Trying.object_stays (h : Trying s aid b t) {key : String} (hkey : key ∉ s.objects) (x : Bytes) :
    ¬ NoTrace s (undone faults aid { t with objects := t.objects.insert key x }) := by
  intro hno
  refine hkey (hno.objects key ?_)
  simp [undone, h.stored]

/-- What a new asset has left once its object is there. -/
structure Stored (s : ImportState K) (aid : String) (b : Bytes) (key : String) (t : ImportState K) :
    Prop where
  staging : t.staging = s.staging.insert (stagingFile aid) b
  objects : ∃ x, t.objects = s.objects.insert key x
  repo : t.services.world.repo = s.services.world.repo
  journal : t.services.world.journal = s.services.world.journal
  stored : t.storedNewObject = true
  committed : t.gitCommitted = false
  objectKey : t.objectKey = key

omit [NatCast K] in
theorem Stored.noTrace_iff {key : String} (h : Stored s aid b key t)
    (hnew : stagingFile aid ∉ s.staging) (hkey : key ∉ s.objects) :
    NoTrace s (undone faults aid t) ↔ faults.keepsStaging = false ∧ faults.keepsObject = false := by
  obtain ⟨x, hobjects⟩ := h.objects
  rw [noTrace_undone_iff hnew h.staging]
  refine and_congr_right fun _ => ?_
  have htree : SameTree s.services.world t.services.world := fun path => by rw [h.repo]; exact ⟨rfl, rfl⟩
  simp only [undone, h.stored, h.committed, h.objectKey, hobjects, Bool.true_and, Bool.not_false,
    htree, and_true]
  cases faults.keepsObject with
  | true =>
    simp only [Bool.not_true, Bool.false_eq_true, if_false, reduceCtorEq, iff_false, not_forall]
    exact ⟨key, by simp, hkey⟩
  | false =>
    simp only [Bool.not_false, if_true, iff_true]
    intro k hk
    rw [Map.mem_iff] at hk ⊢
    obtain ⟨v, hv⟩ := hk
    rw [Map.get_erase, Map.get_insert] at hv
    split at hv
    · cases hv
    · exact ⟨v, hv⟩

omit [NatCast K] in
/-- A file that was not there stays. -/
theorem file_stays {path : String} {x : Bytes} (hpath : path ∉ s.services.world.repo.work)
    (h : t.services.world.repo.work[path]? = some x) : ¬ NoTrace s (undone faults aid t) := by
  intro hno
  have := hno.work path
  rw [Map.not_mem_iff.mp hpath] at this
  change t.services.world.repo.work[path]? = none at this
  rw [h] at this
  cases this

end

section
variable {location : Location} {resourceId aid : String} {staged : StagedAsset} {b bytes : Bytes}

/-- What is left of a new asset whose manifest is staged. -/
structure ManifestLeft (resourceId : String) (t : ImportState K) : Prop where
  file : ∃ x, t.services.world.repo.work[shardedPath "resources" resourceId ".json"]? = some x
  journal : t.services.world.journal = none
  committed : t.gitCommitted = false

theorem storeObject_ends (hfresh : FreshIds env request s) (h : Trying s aid b t)
    (haid : aid = env.uuidV4 (s.services.drawn + 1)) (hrid : resourceId = env.uuidV4 s.services.drawn) :
    Ends (storeObject env faults request location resourceId aid staged bytes) t
      (fun _ => ManifestLeft resourceId)
      fun pe t' => NoTrace s (undone faults aid t') ↔ CleanAt env faults request s.services pe.1 := by
  have hnew : stagingFile aid ∉ s.staging := haid ▸ hfresh.staging
  have hkey : objectKeyFor location request.projectId aid ∉ s.objects := haid ▸ hfresh.objects location
  unfold storeObject
  rw [Ends.bind_iff, importStep_iff]
  refine ⟨fun e _ => h.noTrace_iff hnew, fun _ => ?_⟩
  simp only [nextUuid, Ends.bind_iff, Ends.get_iff, Ends.set_iff, Ends.pure_iff, Ends.modify_iff]
  rw [importStep_iff]
  set t1 : ImportState K := { t with
    services := { t.services with drawn := t.services.drawn + 1 }
    objectKey := objectKeyFor location request.projectId aid } with ht1
  have h1 : Trying s aid b t1 := ⟨h.staging, h.objects, h.repo, h.journal, h.stored, h.committed⟩
  refine ⟨fun e _ => h1.noTrace_iff hnew, fun _ => ?_⟩
  rw [Ends.pure_iff]
  have hput : Ends (putObject env faults (objectKeyFor location request.projectId aid) staged bytes) t1
      (fun _ t' => t' = { t1 with objects := t1.objects.insert t1.objectKey bytes })
      fun pe t' => NoTrace s (undone faults aid t') ↔ CleanAt env faults request s.services pe.1 := by
    unfold Ends putObject
    cases faults.raise .put (env.providerPut (objectKeyFor location request.projectId aid) staged) with
    | ok _ => rfl
    | error e =>
      simp only [CleanAt]
      cases htorn : faults.tornPut with
      | none => simpa using h1.noTrace_iff hnew
      | some x => simpa using h1.object_stays hkey x
  refine hput.mono ?_ fun _ _ h => h
  rintro - t2 rfl
  have hstays : ∀ services : Services K, ¬ NoTrace s (undone faults aid
      { { t1 with objects := t1.objects.insert t1.objectKey bytes } with services }) := by
    intro services hno
    refine hkey (hno.objects _ ?_)
    simp [undone, t1, h.stored]
  rw [importStep_iff]
  refine ⟨fun e _ => iff_of_false (hstays _) id, fun _ => ?_⟩
  rw [Ends.fromExcept_iff]
  refine ⟨fun available _ => ?_, fun e _ => iff_of_false (hstays _) id⟩
  rw [Ends.ite_iff]
  simp only [Ends.bind_iff, Ends.throw_iff, Ends.modify_iff]
  refine ⟨fun _ => iff_of_false (hstays _) id, fun _ => ?_⟩
  -- From here on the handler removes the object.
  have hstored : ∀ services : Services K, services.world.repo = s.services.world.repo →
      services.world.journal = s.services.world.journal →
      Stored s aid b t1.objectKey { { t1 with objects := t1.objects.insert t1.objectKey bytes } with
        services, storedNewObject := true } := fun services hrepo hjournal =>
    ⟨h1.staging, ⟨bytes, by rw [← h1.objects]⟩, hrepo, hjournal, rfl, h1.committed, rfl⟩
  have hundone : ∀ services : Services K, services.world.repo = s.services.world.repo →
      services.world.journal = s.services.world.journal →
      (NoTrace s (undone faults aid { { t1 with objects := t1.objects.insert t1.objectKey bytes } with
        services, storedNewObject := true }) ↔
        faults.keepsStaging = false ∧ faults.keepsObject = false) := fun services hrepo hjournal =>
    (hstored services hrepo hjournal).noTrace_iff hnew hkey
  have h1s := hundone t1.services h1.repo h1.journal
  rw [importStep_iff]
  refine ⟨fun e _ => h1s, fun _ => ?_⟩
  rw [Ends.fromExcept_iff]
  refine ⟨fun path hpath => ?_, fun e _ => h1s⟩
  obtain ⟨-, rfl⟩ := resourceRelPath_iff.mp hpath
  rw [importStep_iff]
  refine ⟨fun e _ => h1s, fun _ => ?_⟩
  rw [Ends.fromExcept_iff]
  refine ⟨fun plain _ => ?_, fun e _ => h1s⟩
  rw [importStep_iff]
  refine ⟨fun e _ => h1s, fun _ => ?_⟩
  rw [Ends.onWorld_iff]
  refine (encodeCardBlob_ends plain _).mono ?_ ?_
  · rintro blob world ⟨⟨ivs, rfl⟩, -⟩
    rw [importStep_iff]
    refine ⟨fun e _ => hundone _ h1.repo h1.journal, fun _ => ?_⟩
    rw [Ends.onWorld_iff, Ends.onRepo_iff]
    refine ⟨fun repo hrepo => ?_, fun e he => by cases he⟩
    cases hrepo
    have hwritten : ∀ t' : ImportState K, t'.services.world.repo.work[shardedPath "resources" resourceId ".json"]? =
        some blob → ¬ NoTrace s (undone faults aid t') := fun t' => file_stays (hrid ▸ hfresh.manifest)
    have hblob : ∀ repo : Repo, (repo.writeFile (shardedPath "resources" resourceId ".json") blob).work[
        shardedPath "resources" resourceId ".json"]? = some blob := fun repo => by simp [Repo.writeFile]
    rw [importStep_iff]
    refine ⟨fun e _ => iff_of_false (hwritten _ (hblob _)) id, fun _ => ?_⟩
    rw [Ends.onWorld_iff, Ends.onRepo_iff]
    refine ⟨fun repo hrepo => ?_, fun e _ => iff_of_false (hwritten _ (hblob _)) id⟩
    rw [Repo.stagePath, hblob] at hrepo
    cases hrepo
    exact ⟨⟨blob, hblob _⟩, h1.journal.trans hfresh.journal, h1.committed⟩
  · rintro e world rfl
    exact h1s

omit [NatCast K] in
theorem SameTree.written_iff {w w' : World K} {path : String} {raw x : Bytes}
    (hraw : w.repo.work[path]? = some raw) (hrepo : w'.repo = w.repo.writeFile path x) :
    SameTree w w' ↔ x = raw := by
  unfold SameTree
  rw [hrepo]
  constructor
  · intro h
    have := (h path).1
    rw [hraw] at this
    simpa [Repo.writeFile] using this
  · rintro rfl p
    exact ⟨by rw [Repo.writeFile, Map.insert_of_get hraw], rfl⟩

omit [NatCast K] in
theorem SameTree.staged_iff {w w' : World K} {path : String} {raw x : Bytes}
    (hraw : w.repo.work[path]? = some raw) (hwork : w'.repo.work = w.repo.work.insert path x)
    (hstaged : w'.repo.staged = w.repo.staged.insert path x) :
    SameTree w w' ↔ x = raw ∧ w.repo.staged[path]? = some raw := by
  unfold SameTree
  rw [hwork, hstaged]
  constructor
  · intro h
    obtain ⟨h1, h2⟩ := h path
    rw [hraw, Map.get_insert, if_pos rfl, Option.some.injEq] at h1
    subst h1
    rw [Map.get_insert, if_pos rfl] at h2
    exact ⟨rfl, h2.symm⟩
  · rintro ⟨rfl, hindex⟩ p
    exact ⟨by rw [Map.insert_of_get hraw], by rw [Map.insert_of_get hindex]⟩

/-- The values of a run that reaches its handler. -/
structure PlanOf (env : ImportEnv K) (request : AssetImportRequest) (s : Services K)
    (plan : ImportPlan K) (raw : Bytes) : Prop where
  duplicate : plan.duplicate = importDuplicate env request s
  linked : plan.linked = importLinked env request s
  card : CardRepo.get? s.world.db request.cardId = some plan.card
  file : s.world.repo.work[livePath plan.card.cardId]? = some raw
  blob : ∃ world, updatedCardBlob env request plan.card (importLinks env request s) raw s.world =
    .ok plan.cardBlob world
  resourceId : plan.duplicate = none → plan.resourceId = env.uuidV4 s.drawn
  assetId : plan.provisionalAssetId = env.uuidV4 (s.drawn + 1)

theorem PlanOf.imported_iff {plan : ImportPlan K} {raw : Bytes} {s : Services K}
    (h : PlanOf env request s plan raw) :
    (∃ raw', CardImported env request s raw') ↔ plan.cardBlob = raw := by
  obtain ⟨world, hblob⟩ := h.blob
  constructor
  · rintro ⟨raw', card, world', hcard, hraw, hrun⟩
    rw [h.card] at hcard
    cases hcard
    rw [h.file] at hraw
    cases hraw
    rw [hblob] at hrun
    cases hrun
    rfl
  · rintro rfl
    exact ⟨_, plan.card, world, h.card, h.file, hblob⟩

theorem PlanOf.staged_iff {plan : ImportPlan K} {raw : Bytes} {s : Services K}
    (h : PlanOf env request s plan raw) : (∃ raw', CardStaged env request s raw') ↔
      plan.cardBlob = raw ∧ s.world.repo.staged[livePath plan.card.cardId]? = some raw := by
  constructor
  · rintro ⟨raw', himported, card, hcard, hstaged⟩
    have hblob := h.imported_iff.mp ⟨raw', himported⟩
    obtain ⟨card', world, hcard', hraw, -⟩ := himported
    rw [h.card] at hcard hcard'
    cases hcard
    cases hcard'
    rw [h.file] at hraw
    cases hraw
    exact ⟨hblob, hstaged⟩
  · rintro ⟨hblob, hstaged⟩
    obtain ⟨world, hrun⟩ := h.blob
    exact ⟨raw, ⟨plan.card, world, h.card, h.file, hblob ▸ hrun⟩, plan.card, h.card, hstaged⟩

/-- A rebuild without an interrupted card change leaves the repository alone. -/
theorem rebuildServices_repo {services : Services K} (hj : services.world.journal = none) :
    Ends (rebuildServices env.toServiceEnv) services (fun _ _ => True)
      fun _ services' => services'.world.repo = services.world.repo := by
  unfold rebuildServices
  simp only [recoverySteps, hj, Ends.bind_iff, Ends.get_iff]
  split
  · next e world hrun => cases hrun
  · next world hrun =>
    cases hrun
    simp

theorem storeOrRebuild_ends {statements : ServM K Unit} (hj : t.services.world.journal = none) :
    Ends (storeOrRebuild env faults statements) t (fun _ _ => True) fun pe t' =>
      t'.staging = t.staging ∧ t'.objects = t.objects ∧
      t'.storedNewObject = t.storedNewObject ∧ t'.gitCommitted = t.gitCommitted ∧
      t'.services.world.repo = t.services.world.repo ∧
      pe.1 = if t.gitCommitted then .rebuild else .statements := by
  have hlabel : Ends (importStep faults .statements statements) t (fun _ _ => True)
      fun pe _ => pe.1 = .statements := by
    rw [importStep_iff]
    exact ⟨fun _ _ => rfl, fun _ => .intro (fun _ _ _ => trivial) fun _ _ _ => rfl⟩
  unfold Ends storeOrRebuild at *
  cases hrun : importStep faults .statements statements t with
  | ok _ t' => trivial
  | error pe t' =>
    rw [hrun] at hlabel
    dsimp only
    cases hcommitted : t.gitCommitted with
    | false => exact ⟨rfl, rfl, rfl, hcommitted, rfl, hlabel⟩
    | true =>
      have hrebuild : Ends (importStep faults .rebuild (rebuildServices env.toServiceEnv)) t
          (fun _ _ => True) fun pe t' => t'.staging = t.staging ∧ t'.objects = t.objects ∧
            t'.storedNewObject = t.storedNewObject ∧ t'.gitCommitted = true ∧
            t'.services.world.repo = t.services.world.repo ∧ pe.1 = .rebuild := by
        rw [importStep_iff]
        refine ⟨fun e _ => ⟨rfl, rfl, rfl, hcommitted, rfl, rfl⟩, fun _ => ?_⟩
        refine (rebuildServices_repo hj).mono (fun _ _ _ => trivial) fun e services hrepo => ?_
        exact ⟨rfl, rfl, rfl, hcommitted, hrepo, rfl⟩
      simp only [if_true]
      exact hrebuild

/-- What the last part of an import has made of the files when a step of it throws. -/
def FilesLeft (plan : ImportPlan K) (repo repo' : Repo) : ImportStep → Prop
  | .committingStage | .writeCard => repo' = repo
  | .stageCard => plan.linked = false ∧
    repo' = repo.writeFile (livePath plan.card.cardId) plan.cardBlob
  | .checkIndex => if plan.linked then repo' = repo else
    repo'.work = repo.work.insert (livePath plan.card.cardId) plan.cardBlob ∧
    repo'.staged = repo.staged.insert (livePath plan.card.cardId) plan.cardBlob
  | .commit | .rebuild => if plan.linked then
      plan.duplicate = none ∧ repo'.work = repo.work ∧ repo'.staged = repo.staged else
    repo'.work = repo.work.insert (livePath plan.card.cardId) plan.cardBlob ∧
    repo'.staged = repo.staged.insert (livePath plan.card.cardId) plan.cardBlob
  | .statements => plan.linked ∧ plan.duplicate.isSome ∧ repo' = repo
  | _ => False

theorem commitFiles_ends {plan : ImportPlan K} {bundle : Option ResourceBundle}
    (hj : t.services.world.journal = none) (hcommitted : t.gitCommitted = false) :
    Ends (commitFiles env faults request plan bundle) t (fun _ _ => True) fun pe t' =>
      t'.staging = t.staging ∧ t'.objects = t.objects ∧ t'.storedNewObject = t.storedNewObject ∧
      FilesLeft plan t.services.world.repo t'.services.world.repo pe.1 := by
  unfold commitFiles
  simp only [Ends.bind_iff]
  rw [importStep_iff]
  refine ⟨fun e _ => ⟨rfl, rfl, rfl, rfl⟩, fun _ => ?_⟩
  rw [Ends.pure_iff]
  -- The files before the check of the index.
  have hcard : Ends (if plan.linked then pure () else do
        importStep faults .writeCard
          (onWorld (onRepo fun r => .ok (r.writeFile (livePath plan.card.cardId) plan.cardBlob)))
        importStep faults .stageCard (onWorld (onRepo (·.stagePath (livePath plan.card.cardId)))) :
        ImportM K Unit) t
      (fun _ t' => t'.staging = t.staging ∧ t'.objects = t.objects ∧
        t'.storedNewObject = t.storedNewObject ∧ t'.gitCommitted = false ∧
        t'.services.world.journal = none ∧
        FilesLeft plan t.services.world.repo t'.services.world.repo .checkIndex)
      fun pe t' => t'.staging = t.staging ∧ t'.objects = t.objects ∧
        t'.storedNewObject = t.storedNewObject ∧
        FilesLeft plan t.services.world.repo t'.services.world.repo pe.1 := by
    rw [Ends.ite_iff]
    refine ⟨fun hlinked => ?_, fun hlinked => ?_⟩
    · rw [Ends.pure_iff]
      exact ⟨rfl, rfl, rfl, hcommitted, hj, by simp [FilesLeft, hlinked]⟩
    · rw [Ends.bind_iff, importStep_iff]
      refine ⟨fun e _ => ⟨rfl, rfl, rfl, rfl⟩, fun _ => ?_⟩
      rw [Ends.onWorld_iff, Ends.onRepo_iff]
      refine ⟨fun repo hrepo => ?_, fun e he => by cases he⟩
      cases hrepo
      rw [importStep_iff]
      refine ⟨fun e _ => ⟨rfl, rfl, rfl, by simpa using hlinked, rfl⟩, fun _ => ?_⟩
      rw [Ends.onWorld_iff, Ends.onRepo_iff]
      refine ⟨fun repo hrepo => ?_, fun e _ => ⟨rfl, rfl, rfl, by simpa using hlinked, rfl⟩⟩
      have hfile : (t.services.world.repo.writeFile (livePath plan.card.cardId) plan.cardBlob).work[
          livePath plan.card.cardId]? = some plan.cardBlob := by simp [Repo.writeFile]
      rw [Repo.stagePath, hfile] at hrepo
      cases hrepo
      exact ⟨rfl, rfl, rfl, hcommitted, hj, by simp [FilesLeft, hlinked, Repo.staged, Repo.writeFile]⟩
  refine hcard.mono ?_ fun _ _ h => h
  rintro - t1 ⟨hstaging, hobjects, hstored, hopen, hj1, hfiles⟩
  rw [importStep_iff]
  refine ⟨fun e _ => ⟨hstaging, hobjects, hstored, hfiles⟩, fun _ => ?_⟩
  unfold assertIndexPathsSafe
  simp only [Ends.onWorld_iff, Ends.bind_iff, Ends.get_iff, Ends.fromExcept_iff]
  refine ⟨fun _ _ => ?_, fun e _ => ⟨hstaging, hobjects, hstored, hfiles⟩⟩
  rw [Ends.ite_iff]
  refine ⟨fun hcommit => ?_, fun hnothing => ?_⟩
  · have hlast : ∀ repo : Repo, repo.work = t1.services.world.repo.work →
        repo.staged = t1.services.world.repo.staged →
        FilesLeft plan t.services.world.repo repo .commit := by
      intro repo hwork hindex
      simp only [FilesLeft] at hfiles ⊢
      cases hlinked : plan.linked with
      | true =>
        simp only [hlinked, if_true] at hfiles ⊢
        rw [hwork, hindex, hfiles]
        simpa [hlinked] using hcommit
      | false =>
        simp only [hlinked, Bool.false_eq_true, if_false] at hfiles ⊢
        rw [hwork, hindex]
        exact hfiles
    rw [Ends.bind_iff, importStep_iff]
    refine ⟨fun e _ => ⟨hstaging, hobjects, hstored, hlast _ rfl rfl⟩, fun _ => ?_⟩
    rw [CardStore.commit, Ends.onWorld_iff, Ends.onRepo_iff]
    refine ⟨fun repo hrepo => ?_, fun e he => by cases he⟩
    cases hrepo
    rw [Ends.modify_iff]
    refine (storeOrRebuild_ends (by exact hj1)).mono (fun _ _ h => h) ?_
    rintro ⟨step, e⟩ t' ⟨hstaging', hobjects', hstored', -, hrepo, hstep⟩
    simp only [if_true] at hstep
    rw [hstep, hrepo]
    exact ⟨hstaging'.trans hstaging, hobjects'.trans hobjects, hstored'.trans hstored, hlast _ rfl rfl⟩
  · rw [Ends.pure_iff]
    refine (storeOrRebuild_ends hj1).mono (fun _ _ h => h) ?_
    rintro ⟨step, e⟩ t' ⟨hstaging', hobjects', hstored', -, hrepo, hstep⟩
    simp only [hopen, Bool.false_eq_true, if_false] at hstep
    simp only [Bool.or_eq_true, not_or, Bool.not_eq_true', Bool.not_eq_false] at hnothing
    simp only [FilesLeft, hnothing.2, if_true] at hfiles
    rw [hstep, hrepo]
    exact ⟨hstaging'.trans hstaging, hobjects'.trans hobjects, hstored'.trans hstored,
      hnothing.2, by simpa [Option.isSome_iff_ne_none] using hnothing.1, hfiles⟩

/-- Behind the manifest of a new asset every exception leaves it in the working tree. -/
theorem commitFiles_new {plan : ImportPlan K} {bundle : Option ResourceBundle}
    (hfresh : FreshIds env request s) (hleft : ManifestLeft plan.resourceId t)
    (hdup : plan.duplicate = none) (hnone : importDuplicate env request s.services = none)
    (hrid : plan.resourceId = env.uuidV4 s.services.drawn) :
    Ends (commitFiles env faults request plan bundle) t (fun _ _ => True)
      fun pe t' => NoTrace s (undone faults aid t') ↔ CleanAt env faults request s.services pe.1 := by
  obtain ⟨⟨x, hfile⟩, hj, hcommitted⟩ := hleft
  have hstays : ∀ t' : ImportState K, t'.services.world.repo.work[shardedPath "resources" plan.resourceId
      ".json"]? = some x → ¬ NoTrace s (undone faults aid t') := fun t' =>
    file_stays (hrid ▸ hfresh.manifest)
  have hlate : ∀ step ∈ [ImportStep.committingStage, .writeCard, .stageCard, .checkIndex, .commit,
      .rebuild], ¬ CleanAt env faults request s.services step := by
    simp [CleanAt, hnone]
  refine (commitFiles_ends hj hcommitted).mono (fun _ _ h => h) ?_
  rintro ⟨step, e⟩ t' ⟨-, -, -, hleft⟩
  have hkept : ∀ blob : Bytes, (t.services.world.repo.work.insert (livePath plan.card.cardId) blob)[
      shardedPath "resources" plan.resourceId ".json"]? = some x := by
    intro blob
    rw [Map.get_insert_ne (by simp [livePath, shardedPath, String.ext_iff]), hfile]
  cases step with
  | committingStage | writeCard =>
    refine iff_of_false (hstays _ ?_) (hlate _ (by simp))
    rw [show t'.services.world.repo = _ from hleft, hfile]
  | stageCard =>
    refine iff_of_false (hstays _ ?_) (hlate _ (by simp))
    rw [hleft.2]
    exact hkept _
  | checkIndex =>
    refine iff_of_false (hstays _ ?_) (hlate _ (by simp))
    simp only [FilesLeft] at hleft
    split at hleft
    · rw [hleft, hfile]
    · rw [hleft.1]
      exact hkept _
  | commit | rebuild =>
    refine iff_of_false (hstays _ ?_) (hlate _ (by simp))
    simp only [FilesLeft] at hleft
    split at hleft
    · rw [hleft.2.1, hfile]
    · rw [hleft.1]
      exact hkept _
  | statements => simp [hdup, FilesLeft] at hleft
  | _ => exact hleft.elim

/-- An import that uses a resource again only writes the card's file. -/
theorem commitFiles_duplicate {plan : ImportPlan K} {bundle : Option ResourceBundle} {raw : Bytes}
    (hfresh : FreshIds env request s) (hplan : PlanOf env request s.services plan raw)
    (h : Trying s plan.provisionalAssetId b t) (hdup : plan.duplicate.isSome) :
    Ends (commitFiles env faults request plan bundle) t (fun _ _ => True)
      fun pe t' => NoTrace s (undone faults plan.provisionalAssetId t') ↔
        CleanAt env faults request s.services pe.1 := by
  have hnew : stagingFile plan.provisionalAssetId ∉ s.staging := hplan.assetId ▸ hfresh.staging
  have hsome : (importDuplicate env request s.services).isSome := hplan.duplicate ▸ hdup
  have hfile := hplan.file
  rw [← h.repo] at hfile
  refine (commitFiles_ends (h.journal.trans hfresh.journal) h.committed).mono (fun _ _ h => h) ?_
  rintro ⟨step, e⟩ t' ⟨hstaging, hobjects, hstored, hleft⟩
  have htree : NoTrace s (undone faults plan.provisionalAssetId t') ↔ faults.keepsStaging = false ∧
      SameTree t.services.world t'.services.world := by
    rw [noTrace_undone_iff hnew (hstaging.trans h.staging)]
    simp [undone, hstored, h.stored, hobjects, h.objects, SameTree, h.repo]
  rw [htree]
  cases step with
  | committingStage | writeCard =>
    simp only [FilesLeft] at hleft
    simp [CleanAt, hsome, SameTree, hleft]
  | stageCard =>
    simp only [FilesLeft] at hleft
    simp only [CleanAt, hsome, true_and, hplan.imported_iff]
    rw [SameTree.written_iff hfile hleft.2]
  | checkIndex =>
    simp only [FilesLeft] at hleft
    simp only [CleanAt, hsome, true_and, hplan.staged_iff, ← hplan.linked]
    split at hleft
    · next hlinked => simp [hlinked, SameTree, hleft]
    · next hlinked =>
      rw [SameTree.staged_iff hfile hleft.1 hleft.2, h.repo]
      simp [hlinked]
  | commit | rebuild =>
    simp only [FilesLeft] at hleft
    simp only [CleanAt, hsome, true_and, hplan.staged_iff]
    split at hleft
    · rw [hleft.1] at hdup
      cases hdup
    · rw [SameTree.staged_iff hfile hleft.1 hleft.2, h.repo]
  | statements =>
    simp only [FilesLeft] at hleft
    simp [CleanAt, SameTree, hleft.2.2]
  | _ => exact hleft.elim

theorem tryImport_ends {plan : ImportPlan K} {raw : Bytes} (hfresh : FreshIds env request s)
    (hplan : PlanOf env request s.services plan raw) (h : Trying s plan.provisionalAssetId b t) :
    Ends (tryImport env faults request bytes plan) t (fun _ _ => True)
      fun pe t' => NoTrace s (undone faults plan.provisionalAssetId t') ↔
        CleanAt env faults request s.services pe.1 := by
  unfold tryImport
  rw [Ends.bind_iff, Ends.ite_iff]
  refine ⟨fun hdup => ?_, fun hdup => ?_⟩
  · rw [Ends.pure_iff]
    exact commitFiles_duplicate hfresh hplan h hdup
  · have hnone : plan.duplicate = none := by simpa using hdup
    rw [map_eq_pure_bind, Ends.bind_iff]
    refine (storeObject_ends hfresh h hplan.assetId (hplan.resourceId hnone)).mono ?_ fun _ _ h => h
    intro bundle t1 hleft
    rw [Ends.pure_iff]
    exact commitFiles_new hfresh hleft hnone (hplan.duplicate ▸ hnone) (hplan.resourceId hnone)

omit [NatCast K] in
theorem staging_stays {aid : String} {b : Bytes} (hnew : stagingFile aid ∉ s.staging)
    (h : t.staging = s.staging.insert (stagingFile aid) b) : ¬ NoTrace s t :=
  fun hno => hnew (hno.staging _ (by simp [h]))

omit [NatCast K] in
theorem stageFile_ends (sourceFile resourceId assetId : String) :
    Ends (stageFile env faults sourceFile resourceId assetId) t
      (fun staged t' => env.stageAssetFile sourceFile resourceId assetId = .ok staged ∧
        ∃ b, t' = { t with staging := t.staging.insert (stagingFile assetId) b })
      fun pe t' => pe.1 = .openStaging ∧ t' = t ∨ pe.1 = .writeStaging ∧
        ∃ b, t' = { t with staging := t.staging.insert (stagingFile assetId) b } := by
  unfold Ends stageFile ImportFaults.raise
  cases faults.thrown .openStaging with
  | some e => exact .inl ⟨rfl, rfl⟩
  | none =>
    cases faults.thrown .writeStaging with
    | some e => exact .inr ⟨rfl, _, rfl⟩
    | none =>
      cases hstaged : env.stageAssetFile sourceFile resourceId assetId with
      | ok staged => exact ⟨rfl, _, rfl⟩
      | error e => exact .inr ⟨rfl, _, rfl⟩

omit [NatCast K] in
theorem checkRequest_ends (services : Services K) :
    Ends (checkRequest env request) services
      (fun found services' => services' = services ∧
        CardRepo.get? services.world.db request.cardId = some found.1)
      fun _ services' => services' = services := by
  unfold checkRequest
  simp only [Ends.bind_iff, Ends.ite_iff, Ends.throw_iff, Ends.get_iff]
  refine ⟨fun _ => trivial, fun _ => ?_⟩
  split
  · next card hcard =>
    split
    · exact ⟨rfl, (Option.filter_eq_some_iff.mp hcard).1⟩
    · rfl
  · rfl

theorem updatedCardBlob_ends (card : Card K) (links : List CardLink) (raw : Bytes) (w : World K) :
    Ends (updatedCardBlob env request card links raw) w (fun _ w' => DrewIvs w w') fun _ _ => True := by
  unfold updatedCardBlob
  rw [Ends.bind_iff, Ends.fromExcept_iff]
  refine ⟨fun plain _ => ?_, fun _ _ => trivial⟩
  exact (encodeCardBlob_ends _ w).mono (fun _ _ h => h.1) fun _ _ _ => trivial

theorem planImport_ends (hfresh : FreshIds env request s) :
    Ends (planImport env faults request) s.begun
      (fun plan t => ∃ raw b, PlanOf env request s.services plan raw ∧
        Trying s plan.provisionalAssetId b t)
      fun pe t' => NoTrace s t' ↔ CleanAt env faults request s.services pe.1 := by
  have hnothing : ∀ drawn : Nat, NoTrace s { s.begun with services := { s.services with drawn } } :=
    fun _ => ⟨fun _ h => h, fun _ h => h, fun _ => rfl, fun _ => rfl⟩
  have hsame : NoTrace s s.begun := hnothing s.services.drawn
  unfold planImport
  simp only [Ends.bind_iff]
  rw [importStep_iff]
  refine ⟨fun e _ => iff_of_true hsame trivial, fun _ => ?_⟩
  refine (checkRequest_ends s.services).mono ?_ ?_
  swap
  · rintro e services rfl
    exact iff_of_true hsame trivial
  rintro ⟨card, location⟩ services ⟨rfl, hcard⟩
  dsimp only
  rw [importStep_iff]
  refine ⟨fun e _ => iff_of_true hsame trivial, fun _ => ?_⟩
  rw [Ends.pure_iff, importStep_iff]
  refine ⟨fun e _ => iff_of_true hsame trivial, fun _ => ?_⟩
  simp only [nextUuid, Ends.bind_iff, Ends.get_iff, Ends.set_iff, Ends.pure_iff]
  rw [importStep_iff]
  refine ⟨fun e _ => iff_of_true (hnothing _) trivial, fun _ => ?_⟩
  simp only [Ends.bind_iff, Ends.get_iff, Ends.set_iff, Ends.pure_iff]
  rw [importStep_iff]
  refine ⟨fun e _ => iff_of_true (hnothing _) trivial, fun _ => ?_⟩
  rw [Ends.pure_iff]
  refine (stageFile_ends _ _ _).mono ?_ ?_
  swap
  · rintro ⟨step, e⟩ t' (⟨rfl, rfl⟩ | ⟨rfl, b, rfl⟩)
    · exact iff_of_true (hnothing _) trivial
    · exact iff_of_false (staging_stays hfresh.staging rfl) id
  rintro staged t ⟨hstaged, b, rfl⟩
  -- From here on the staging file is there.
  set aid := env.uuidV4 (s.services.drawn + 1) with haid
  have hnew : stagingFile aid ∉ s.staging := hfresh.staging
  set t1 : ImportState K := { s.begun with
    services := { s.services with drawn := s.services.drawn + 1 + 1 }
    staging := s.staging.insert (stagingFile aid) b } with ht1
  have htrying : ∀ world : World K, world.repo = s.services.world.repo →
      world.journal = s.services.world.journal →
      Trying s aid b { t1 with services := { t1.services with world } } := fun world hrepo hjournal =>
    ⟨rfl, rfl, hrepo, hjournal, rfl, rfl⟩
  have hstays : ¬ NoTrace s t1 := staging_stays hnew rfl
  have hdup : ResourceRepo.findByAssetHash s.services.rows request.projectId staged.plaintext.sha256 =
      importDuplicate env request s.services := by
    unfold importDuplicate
    rw [hstaged]
  rw [importStep_iff]
  refine ⟨fun e _ => iff_of_false hstays id, fun _ => ?_⟩
  simp only [Ends.bind_iff, Ends.get_iff, Ends.pure_iff]
  rw [importStep_iff]
  refine ⟨fun e _ => iff_of_false hstays id, fun _ => ?_⟩
  simp only [Ends.bind_iff, Ends.get_iff, Ends.pure_iff]
  rw [importStep_iff]
  refine ⟨fun e _ => iff_of_false hstays id, fun _ => ?_⟩
  rw [Ends.fromExcept_iff]
  refine ⟨fun cardPath hpath => ?_, fun e _ => iff_of_false hstays id⟩
  obtain ⟨-, rfl⟩ := cardRelPath_ok_iff.mp hpath
  rw [Ends.ite_iff]
  refine ⟨fun _ => ?_, fun _ => ?_⟩
  · have hremoved : Ends (removeStaging faults aid) t1 (fun _ t => t = undone faults aid t1)
        fun _ _ => False := by
      unfold removeStaging undone
      rw [Ends.modify_iff]
      cases faults.keepsStaging <;> rfl
    refine Ends.bind hremoved ?_ fun _ _ h => h.elim
    rintro - t rfl
    rw [Ends.bind_iff, Ends.throw_iff]
    exact (htrying _ rfl rfl).noTrace_iff hnew
  · simp only [Ends.bind_iff]
    rw [importStep_iff]
    refine ⟨fun e _ => iff_of_false hstays id, fun _ => ?_⟩
    rw [Ends.bind_iff, Ends.get_iff]
    cases hraw : t1.services.world.repo.work[livePath card.cardId]? with
    | none => exact iff_of_false hstays id
    | some raw =>
    rw [Ends.pure_iff, importStep_iff]
    refine ⟨fun e _ => iff_of_false hstays id, fun _ => ?_⟩
    rw [Ends.onWorld_iff]
    have hid : (ResourceRepo.findByAssetHash t1.services.rows request.projectId
        staged.plaintext.sha256).elim (env.uuidV4 s.services.drawn) (·.resource.resourceId) =
        importResourceId env request s.services := by
      rw [importResourceId, ← hdup]
    have hblob : Ends (updatedCardBlob env request card (importLinks env request s.services) raw)
        s.services.world _ _ := updatedCardBlob_ends card _ raw _
    refine .intro (fun blob world hrun => ?_) fun e world _ => ?_
    · rw [Ends.pure_iff]
      rw [hid] at hrun ⊢
      obtain ⟨ivs, rfl⟩ := hblob.ok hrun
      refine ⟨raw, b, ⟨hdup, rfl, hcard, hraw, ⟨_, hrun⟩, fun hnone => ?_, rfl⟩, htrying _ rfl rfl⟩
      have hnone' : ResourceRepo.findByAssetHash s.services.rows request.projectId
          staged.plaintext.sha256 = none := hnone
      rw [importResourceId, ← hdup, hnone']
      rfl
    · exact iff_of_false (staging_stays hnew rfl) id

theorem importInto_ends (hfresh : FreshIds env request s) :
    Ends (importInto env faults request) s (fun _ _ => True)
      fun pe t => NoTrace s t ↔ CleanAt env faults request s.services pe.1 := by
  unfold importInto
  simp only [Ends.bind_iff, Ends.modify_iff, Ends.get_iff]
  refine (planImport_ends hfresh).mono ?_ fun _ _ h => h
  rintro plan t ⟨raw, b, hplan, htrying⟩
  rw [Ends.tryCatch_iff]
  refine (tryImport_ends hfresh hplan htrying).mono (fun _ _ _ => ?_) fun pe t' h => ?_
  · simp [removeStaging]
  · rw [Ends.bind_iff]
    unfold Ends
    rw [undoImport_run]
    exact h

/-- An import that throws leaves no trace exactly when the step that threw is a clean one. -/
theorem failed_import_leaves (hfresh : FreshIds env request s) {step : ImportStep} {e : Exn}
    {s' : ImportState K} (h : importInto env faults request s = .error (step, e) s') :
    NoTrace s s' ↔ CleanAt env faults request s.services step :=
  (importInto_ends hfresh).error h

end

end

/-! ## A commit that fails -/

/-- Nothing fails but, if given, one step. -/
def failing (step : Option ImportStep) : ImportFaults where
  thrown p := if some p = step then some (.runtimeError "disk full") else none
  stagedSoFar := []
  tornPut := none
  keepsStaging := false
  keepsObject := false

def sheetEnv : ImportEnv ℚ where
  toServiceEnv := { plainServiceEnv with
    stageAssetFile := fun _ _ _ => .ok ⟨"plain", ⟨1, "digest"⟩, ⟨1, "digest"⟩⟩
    providerExists := fun _ => .ok true }
  stagedBytes _ _ _ := ['x']

def sheetRequest : AssetImportRequest := ⟨"home", "aaaa", "shelf", "sheet.pdf", 2⟩

/-- A project with a card and a storage location. -/
def sheetState : ImportState ℚ where
  services := ⟨oneCard, { ServiceRows.empty with
    locations := (∅ : Map String Location).insert "shelf" ⟨"shelf", "home", []⟩ }, 0⟩
  staging := ∅
  objects := ∅
  objectKey := ""
  storedNewObject := false
  gitCommitted := false

theorem sheetState_fresh : FreshIds sheetEnv sheetRequest sheetState where
  staging := by simp [sheetState]
  objects _ := by simp [sheetState]
  manifest := by decide +kernel
  journal := rfl

/-- The step at which an import of the sheet throws. -/
def throwsAt (step : ImportStep) : Bool :=
  match importInto sheetEnv (failing (some step)) sheetRequest sheetState with
  | .ok _ _ => false
  | .error (thrown, _) _ => thrown == step

theorem throwsAt_run (step : ImportStep) (h : throwsAt step = true) : ∃ e s',
    importInto sheetEnv (failing (some step)) sheetRequest sheetState = .error (step, e) s' := by
  unfold throwsAt at h
  split at h
  · cases h
  · next thrown e s' hrun =>
    obtain rfl := beq_iff_eq.mp h
    exact ⟨e, s', hrun⟩

/-- A provider that refuses the object leaves nothing. -/
theorem refusedSheet_noTrace : ∃ e s',
    importInto sheetEnv (failing (some .put)) sheetRequest sheetState = .error (.put, e) s' ∧
    NoTrace sheetState s' := by
  obtain ⟨e, s', hrun⟩ := throwsAt_run .put (by decide +kernel)
  exact ⟨e, s', hrun, (failed_import_leaves sheetState_fresh hrun).mpr ⟨rfl, rfl⟩⟩

/-- A commit that fails leaves the manifest in the index, and its object is gone. -/
theorem uncommittedSheet_staged : ∃ e s',
    importInto sheetEnv (failing (some .commit)) sheetRequest sheetState = .error (.commit, e) s' ∧
    shardedPath "resources" "uuid0" ".json" ∈ s'.services.world.repo.staged ∧ s'.objects.isEmpty ∧
    ¬ NoTrace sheetState s' := by
  obtain ⟨⟨step, e⟩, s', hrun, rfl, hobjects, hstaged⟩ : ∃ thrown s',
      importInto sheetEnv (failing (some .commit)) sheetRequest sheetState = .error thrown s' ∧
      thrown.1 = .commit ∧ s'.objects.isEmpty = true ∧
      shardedPath "resources" "uuid0" ".json" ∈ s'.services.world.repo.staged :=
    Ends.throws (by decide +kernel)
  refine ⟨e, s', hrun, hstaged, hobjects, fun hno => ?_⟩
  obtain ⟨x, hx⟩ := Map.mem_iff.mp hstaged
  have := hno.index (shardedPath "resources" "uuid0" ".json")
  have hold : sheetState.services.world.repo.staged[shardedPath "resources" "uuid0" ".json"]? = none := by
    decide +kernel
  rw [hx, hold] at this
  cases this

end AssetImportService

end HolderCore
