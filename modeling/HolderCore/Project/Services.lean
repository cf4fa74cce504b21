import HolderCore.Card.Store

/-! # The services of a project

The state that the card store shares with the services for resources and AI messages: the rows of
`ResourceRepo`, `LocationRepo`, `AiThreadRepo` and `AiMessageRepo` beside the card tables and the
repository. The JSON library, the staging of an asset, the storage provider and the reading of the
resource and message files are parameters. -/

namespace HolderCore

/-! ## Records -/

structure Placement where
  placementId : String
  assetId : String
  locationId : String
  objectKey : String
  encoding : String
  storedByteSize : Int
  storedSha256 : String
  createdAt : Int
deriving DecidableEq, Repr

structure Asset where
  assetId : String
  resourceId : String
  originalFilename : String
  mediaType : String
  byteSize : Int
  plaintextSha256 : String
  createdAt : Int
  updatedAt : Int
  placements : List Placement
deriving DecidableEq, Repr

structure Resource where
  resourceId : String
  projectId : String
  type : String
  label : String
  metadata : List (String × List String)
  createdAt : Int
  updatedAt : Int
deriving DecidableEq, Repr

structure ResourceBundle where
  resource : Resource
  assets : List Asset
deriving DecidableEq, Repr

/-- A storage location, as far as an import reads it. -/
structure Location where
  locationId : String
  projectId : String
  configuration : List (String × String)
deriving DecidableEq, Repr

structure AiMessage where
  messageId : String
  threadId : String
  role : String
  source : String
  provider : Option String
  model : Option String
  content : String
  createdAt : Int
  deletedAt : Option Int
  promptHash : Option String
  metaJson : Option String
deriving DecidableEq, Repr

/-! ## Paths -/

/-- `root/ab/cd/id.extension`, for an id of at least four characters. -/
def shardedPath (root id extension : String) : String :=
  root ++ "/" ++ String.ofList (id.toList.take 2) ++ "/" ++
    String.ofList ((id.toList.drop 2).take 2) ++ "/" ++ id ++ extension

def resourceRelPath (resourceId : String) : Except Exn String :=
  if resourceId.length < 4 then .error (.runtimeError "id too short for path sharding")
  else .ok (shardedPath "resources" resourceId ".json")

def aiMessageRelPath (messageId : String) : Except Exn String :=
  if messageId.length < 4 then .error (.runtimeError "message_id too short for path sharding")
  else .ok (shardedPath "ai_messages" messageId ".md")

def aiMessageTrashRelPath (messageId : String) : Except Exn String := do
  return "trash/" ++ (← aiMessageRelPath messageId)

/-! ## State -/

/-- The rows of the services. -/
structure ServiceRows where
  /-- The project of each thread. -/
  threads : Map String String
  messages : Map String AiMessage
  resources : Map String ResourceBundle
  locations : Map String Location

structure Services (K : Type) where
  world : World K
  rows : ServiceRows
  /-- How many UUIDs were drawn. -/
  drawn : Nat

def Services.empty : Services K := ⟨World.empty, ⟨∅, ∅, ∅, ∅⟩, 0⟩

abbrev ServM (K : Type) := EStateM Exn (Services K)

structure FileDigest where
  byteSize : Int
  sha256 : String

structure StagedAsset where
  encoding : String
  plaintext : FileDigest
  stored : FileDigest

/-- What the services use beside the store's environment. -/
structure ServiceEnv (K : Type) extends Env K where
  uuidV4 : Nat → String
  /-- `nlohmann::json`'s text of a manifest. -/
  dumpManifest : ResourceBundle → Bytes
  stageAssetFile : (sourceFile resourceId assetId : String) → Except Exn StagedAsset
  providerPut : (objectKey : String) → StagedAsset → Except Exn Unit
  providerExists : (objectKey : String) → Except Exn Bool
  /-- The rows that a rebuild reads from the files of the services. -/
  loadRows : Tree → Except Exn ServiceRows

/-! ## Steps on the shared state -/

def onWorld (m : StoreM K α) : ServM K α := fun s =>
  match m s.world with
  | .ok a world => .ok a { s with world }
  | .error e world => .error e { s with world }

def modifyRows (f : ServiceRows → ServiceRows) : ServM K Unit :=
  modify fun s => { s with rows := f s.rows }

def nextUuid (env : ServiceEnv K) : ServM K String := do
  let s ← get
  set { s with drawn := s.drawn + 1 }
  return env.uuidV4 s.drawn

/-- Write a file and stage it. -/
def writeAndStage (path : String) (bytes : Bytes) : StoreM K Unit := do
  onRepo fun r => .ok (r.writeFile path bytes)
  onRepo (·.stagePath path)

/-- The rebuild of every table in one transaction. -/
def rebuildServices [NatCast K] (env : ServiceEnv K) : ServM K Unit := do
  let s ← get
  match runSteps env.toEnv (recoverySteps s.world) s.world with
  | .error (e, world) =>
    set { s with world }
    throw e
  | .ok world =>
    set { s with world }
    let rows ← fromExcept (env.loadRows world.repo.work)
    let db ← fromExcept (projection env.toEnv world.repo.work)
    set { s with world := { world with db, journal := none }, rows }

end HolderCore
