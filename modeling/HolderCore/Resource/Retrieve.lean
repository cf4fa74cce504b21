import HolderCore.Resource.AssetEnvelope
import HolderCore.Resource.ImportFaults
import HolderCore.Resource.Rebuildable

/-! # Import and retrieve

What `AssetImportService::import_file` answers, and what `retrieve` then writes from the provider.
The duplicate of a file is found by its digest; the asset that is answered is the first of the
resource that was found. -/

namespace HolderCore

/-- The services with the files to import and the libraries of the envelope. -/
structure AssetEnv (K S : Type) extends ServiceEnv K where
  crypto : AssetCrypto S
  files : (sourceFile : String) → Except Exn Bytes
  /-- The random header of the stream that an asset is sealed with. -/
  drawStreamHeader : (assetId : String) → Bytes

/-- A digest names one text, besides what the envelope relies on. -/
structure AssetEnv.Lawful {S : Type} (env : AssetEnv K S) : Prop where
  crypto : env.crypto.Lawful
  sha256_inj : Function.Injective env.crypto.sha256
  length_streamHeader : ∀ assetId, (env.drawStreamHeader assetId).length = 24

section
variable {S : Type} (env : AssetEnv K S)

def AssetEnv.stage (sourceFile resourceId assetId : String) : Except Exn (StagedAsset × Bytes) := do
  stageAssetFile env.crypto env.project (env.drawStreamHeader assetId) (← env.files sourceFile)
    resourceId assetId

namespace AssetImportService

end AssetImportService

end

namespace AssetImportService

variable {S : Type} {env : AssetEnv K S} {s s' t : ImportState K} {request : AssetImportRequest}
  {source : Bytes} {asset : Asset} {placement : Placement} {bundle : ResourceBundle}
  {resourceId : String}

section
variable {faults : ImportFaults} {location : Location} {staged : StagedAsset} {bytes : Bytes}
  {plan : ImportPlan K} {rows' : ServiceRows}

/-- The rows and the objects are still those that the import found. -/
structure Found (s t : ImportState K) : Prop where
  rows : t.services.rows = s.services.rows
  db : t.services.world.db = s.services.world.db
  objects : t.objects = s.objects

variable [NatCast K]

omit [NatCast K] in
theorem Found.trans {t1 t2 : ImportState K} (h : Found s t1) (h' : Found t1 t2) : Found s t2 :=
  ⟨h'.rows.trans h.rows, h'.db.trans h.db, h'.objects.trans h.objects⟩

end

/-! ## A resource of two assets -/

end AssetImportService

end HolderCore
