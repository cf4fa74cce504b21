import HolderCore.Library.Json
import HolderCore.Project.Manifests

/-! # Manifests as JSON

`resource/ResourceManifest.cpp`: the text of the manifest of a resource or a location, and what is
read from such a text. The JSON library is a parameter. What the writer accepts is read back where
the reader's checks hold of it, and what the reader accepts is written in a form that stays. -/

namespace HolderCore

/-- What a call throws: an exception of the JSON library, or one of its own. -/
inductive ManifestError where
  | json (error : JsonError)
  | exn (error : Exn)
deriving DecidableEq, Repr

namespace ResourceManifest

variable {φ α β : Type}

/-- A location with all its fields. -/
structure Location extends HolderCore.Location where
  name : String
  provider : String
  createdAt : Int
  updatedAt : Int
deriving DecidableEq, Repr

def fromJson : Except JsonError α → Except ManifestError α := Except.mapError .json

def fromExn : Except Exn α → Except ManifestError α := Except.mapError .exn

def manifestVersion : Int := 1

def requireNonEmpty (value field : String) : Except ManifestError Unit :=
  fromExn (HolderCore.requireNonEmpty value field)

/-! ## Writing -/

def placementJson (placement : Placement) : JsonValue φ := .ofFields [
  ("placement_id", .string placement.placementId),
  ("location_id", .string placement.locationId),
  ("object_key", .string placement.objectKey),
  ("encoding", .string placement.encoding),
  ("stored_byte_size", .integer placement.storedByteSize),
  ("stored_sha256", .string placement.storedSha256),
  ("created_at", .integer placement.createdAt)]

def assetFields (asset : Asset) (placements : List (JsonValue φ)) : JsonValue φ := .ofFields [
  ("asset_id", .string asset.assetId),
  ("original_filename", .string asset.originalFilename),
  ("media_type", .string asset.mediaType),
  ("byte_size", .integer asset.byteSize),
  ("plaintext_sha256", .string asset.plaintextSha256),
  ("created_at", .integer asset.createdAt),
  ("updated_at", .integer asset.updatedAt),
  ("placements", .array placements)]

def assetJson (asset : Asset) : Except ManifestError (JsonValue φ) := do
  let placements ← asset.placements.mapM fun placement => do
    if placement.assetId ≠ asset.assetId then
      throw (.exn (.runtimeError "placement asset_id mismatch"))
    return placementJson placement
  return assetFields asset placements

def stringsJson (values : List String) : JsonValue φ := .array (values.map .string)

def metadataJson (metadata : List (String × List String)) : JsonValue φ :=
  .object (metadata.map fun entry => (entry.1, stringsJson entry.2))

def resourceFields (resource : Resource) : JsonValue φ := .ofFields [
  ("resource_id", .string resource.resourceId),
  ("project_id", .string resource.projectId),
  ("type", .string resource.type),
  ("label", .string resource.label),
  ("metadata", metadataJson resource.metadata),
  ("created_at", .integer resource.createdAt),
  ("updated_at", .integer resource.updatedAt)]

def resourceBody (resource : Resource) (assets : List (JsonValue φ)) : JsonValue φ := .ofFields [
  ("format_version", .integer manifestVersion),
  ("resource", resourceFields resource),
  ("assets", .array assets)]

/-- `body.dump(2) + "\n"`. -/
def dumpBody (json : JsonLibrary φ) (body : JsonValue φ) : Except ManifestError Bytes :=
  (fromJson (json.dump 2 body)).map (· ++ ['\n'])

def renderResourceManifest (json : JsonLibrary φ) (bundle : ResourceBundle) :
    Except ManifestError Bytes := do
  let resource := bundle.resource
  requireNonEmpty resource.resourceId "resource_id"
  requireNonEmpty resource.projectId "project_id"
  requireNonEmpty resource.type "type"
  requireNonEmpty resource.label "label"
  let assets ← bundle.assets.mapM fun asset => do
    if asset.resourceId ≠ resource.resourceId then
      throw (.exn (.runtimeError "asset resource_id mismatch"))
    assetJson asset
  dumpBody json (resourceBody resource assets)

def configurationJson (configuration : List (String × String)) : JsonValue φ :=
  .object (configuration.map fun entry => (entry.1, .string entry.2))

def locationFields (location : Location) : JsonValue φ := .ofFields [
  ("location_id", .string location.locationId),
  ("project_id", .string location.projectId),
  ("name", .string location.name),
  ("provider", .string location.provider),
  ("configuration", configurationJson location.configuration),
  ("created_at", .integer location.createdAt),
  ("updated_at", .integer location.updatedAt)]

def locationBody (location : Location) : JsonValue φ := .ofFields [
  ("format_version", .integer manifestVersion),
  ("location", locationFields location)]

def renderLocationManifest (json : JsonLibrary φ) (location : Location) :
    Except ManifestError Bytes := do
  requireNonEmpty location.locationId "location_id"
  requireNonEmpty location.projectId "project_id"
  requireNonEmpty location.name "name"
  requireNonEmpty location.provider "provider"
  dumpBody json (locationBody location)

/-! ## Reading -/

/-- `item.at(key).get<T>()`. -/
def getAt (get : JsonValue φ → Except JsonError α) (item : JsonValue φ) (key : String) :
    Except ManifestError α := fromJson (item.member key >>= get)

def stringAt (item : JsonValue φ) (key : String) : Except ManifestError String :=
  getAt JsonValue.getString item key

def longLongAt (json : JsonLibrary φ) (item : JsonValue φ) (key : String) : Except ManifestError Int :=
  getAt (json.getInteger 64) item key

/-- The elements of a field that must be an array. -/
def elementsAt (item : JsonValue φ) (key message : String) :
    Except ManifestError (List (JsonValue φ)) := do
  match ← fromJson (item.member key) with
  | .array elements => return elements
  | _ => throw (.exn (.runtimeError message))

def requireNonNegative (value : Int) (message : String) : Except ManifestError Unit :=
  if value < 0 then throw (.exn (.runtimeError message)) else return ()

def parsePlacement (json : JsonLibrary φ) (assetId : String) (item : JsonValue φ) :
    Except ManifestError Placement := do
  let placementId ← stringAt item "placement_id"
  let locationId ← stringAt item "location_id"
  let objectKey ← stringAt item "object_key"
  let encoding ← stringAt item "encoding"
  let storedByteSize ← longLongAt json item "stored_byte_size"
  let storedSha256 ← stringAt item "stored_sha256"
  let createdAt ← longLongAt json item "created_at"
  requireNonEmpty placementId "placement_id"
  requireNonEmpty locationId "location_id"
  requireNonEmpty objectKey "object_key"
  requireNonEmpty encoding "encoding"
  requireNonNegative storedByteSize "resource manifest has negative stored_byte_size"
  return ⟨placementId, assetId, locationId, objectKey, encoding, storedByteSize, storedSha256, createdAt⟩

def parseAsset (json : JsonLibrary φ) (resourceId : String) (item : JsonValue φ) :
    Except ManifestError Asset := do
  let assetId ← stringAt item "asset_id"
  let originalFilename ← stringAt item "original_filename"
  let mediaType ← stringAt item "media_type"
  let byteSize ← longLongAt json item "byte_size"
  let plaintextSha256 ← stringAt item "plaintext_sha256"
  let createdAt ← longLongAt json item "created_at"
  let updatedAt ← longLongAt json item "updated_at"
  requireNonEmpty assetId "asset_id"
  requireNonEmpty plaintextSha256 "plaintext_sha256"
  requireNonNegative byteSize "resource manifest has negative byte_size"
  let items ← elementsAt item "placements" "resource manifest placements must be an array"
  let placements ← items.mapM (parsePlacement json assetId)
  return ⟨assetId, resourceId, originalFilename, mediaType, byteSize, plaintextSha256, createdAt,
    updatedAt, placements⟩

/-- The text as an object of the known version. -/
def parseBody (json : JsonLibrary φ) (text : Bytes) (message : String) :
    Except ManifestError (JsonValue φ) := do
  let body ← fromJson (json.parse text)
  if !body.isObject then throw (.exn (.runtimeError message))
  let version ← getAt (json.getInteger 32) body "format_version"
  if version ≠ manifestVersion then throw (.exn (.runtimeError message))
  return body

def parseResource (json : JsonLibrary φ) (item : JsonValue φ) : Except ManifestError Resource := do
  let resourceId ← stringAt item "resource_id"
  let projectId ← stringAt item "project_id"
  let type ← stringAt item "type"
  let label ← stringAt item "label"
  let metadata ← getAt (JsonValue.getMap (JsonValue.getList JsonValue.getString)) item "metadata"
  let createdAt ← longLongAt json item "created_at"
  let updatedAt ← longLongAt json item "updated_at"
  requireNonEmpty resourceId "resource_id"
  requireNonEmpty projectId "project_id"
  requireNonEmpty type "type"
  requireNonEmpty label "label"
  return ⟨resourceId, projectId, type, label, metadata, createdAt, updatedAt⟩

def parseResourceManifest (json : JsonLibrary φ) (text : Bytes) :
    Except ManifestError ResourceBundle := do
  let body ← parseBody json text "unsupported resource manifest version"
  let item ← fromJson (body.member "resource")
  let resource ← parseResource json item
  let items ← elementsAt body "assets" "resource manifest assets must be an array"
  let assets ← items.mapM (parseAsset json resource.resourceId)
  return ⟨resource, assets⟩

def parseLocationManifest (json : JsonLibrary φ) (text : Bytes) : Except ManifestError Location := do
  let body ← parseBody json text "unsupported location manifest version"
  let item ← fromJson (body.member "location")
  let locationId ← stringAt item "location_id"
  let projectId ← stringAt item "project_id"
  let name ← stringAt item "name"
  let provider ← stringAt item "provider"
  let configuration ← getAt (JsonValue.getMap JsonValue.getString) item "configuration"
  let createdAt ← longLongAt json item "created_at"
  let updatedAt ← longLongAt json item "updated_at"
  requireNonEmpty locationId "location_id"
  requireNonEmpty projectId "project_id"
  requireNonEmpty name "name"
  requireNonEmpty provider "provider"
  return ⟨⟨locationId, projectId, configuration⟩, name, provider, createdAt, updatedAt⟩

/-! ## What a value must be -/

/-- What the types of the source hold, over strings of a kind. -/
structure PlacementHeld (texts : String → Prop) (placement : Placement) : Prop where
  strings : texts placement.placementId ∧ texts placement.locationId ∧ texts placement.objectKey ∧
    texts placement.encoding ∧ texts placement.storedSha256
  numbers : FitsSigned 64 placement.storedByteSize ∧ FitsSigned 64 placement.createdAt

structure AssetHeld (texts : String → Prop) (asset : Asset) : Prop where
  strings : texts asset.assetId ∧ texts asset.originalFilename ∧ texts asset.mediaType ∧
    texts asset.plaintextSha256
  numbers : FitsSigned 64 asset.byteSize ∧ FitsSigned 64 asset.createdAt ∧ FitsSigned 64 asset.updatedAt
  placements : ∀ placement ∈ asset.placements, PlacementHeld texts placement

structure ResourceHeld (texts : String → Prop) (resource : Resource) : Prop where
  strings : texts resource.resourceId ∧ texts resource.projectId ∧ texts resource.type ∧
    texts resource.label
  numbers : FitsSigned 64 resource.createdAt ∧ FitsSigned 64 resource.updatedAt
  ascend : KeysAscend resource.metadata
  metadata : ∀ entry ∈ resource.metadata, texts entry.1 ∧ ∀ s ∈ entry.2, texts s

structure BundleHeld (texts : String → Prop) (bundle : ResourceBundle) : Prop where
  resource : ResourceHeld texts bundle.resource
  assets : ∀ asset ∈ bundle.assets, AssetHeld texts asset

structure LocationHeld (texts : String → Prop) (location : Location) : Prop where
  strings : texts location.locationId ∧ texts location.projectId ∧ texts location.name ∧
    texts location.provider
  numbers : FitsSigned 64 location.createdAt ∧ FitsSigned 64 location.updatedAt
  ascend : KeysAscend location.configuration
  configuration : ∀ entry ∈ location.configuration, texts entry.1 ∧ texts entry.2

/-- The checks of the reader on an asset and its placements. -/
structure Readable (asset : Asset) : Prop where
  fields : asset.assetId ≠ "" ∧ asset.plaintextSha256 ≠ "" ∧ 0 ≤ asset.byteSize
  placements : ∀ placement ∈ asset.placements, placement.placementId ≠ "" ∧
    placement.locationId ≠ "" ∧ placement.objectKey ≠ "" ∧ placement.encoding ≠ "" ∧
      0 ≤ placement.storedByteSize

/-! ## Running the reader -/

section
variable {json : JsonLibrary φ} {item body : JsonValue φ} {text : Bytes}
  {key message field value : String} {n : Int} {u : Unit}

theorem bind_ok_iff {ε : Type} {x : Except ε α} {f : α → Except ε β} {b : β} :
    (x >>= f) = .ok b ↔ ∃ a, x = .ok a ∧ f a = .ok b := by
  cases x <;> simp [bind, Except.bind]

theorem pure_ok_iff {ε : Type} {a b : α} : (pure a : Except ε α) = .ok b ↔ a = b := by
  simp [pure, Except.pure]

theorem fromJson_ok {x : Except JsonError α} {a : α} : fromJson x = .ok a ↔ x = .ok a := by
  cases x <;> simp [fromJson, Except.mapError]

theorem getAt_ok {get : JsonValue φ → Except JsonError α} {a : α} :
    getAt get item key = .ok a ↔ ∃ j, item.member key = .ok j ∧ get j = .ok a := by
  rw [getAt, fromJson_ok, bind_ok_iff]

theorem requireNonEmpty_ok : requireNonEmpty value field = .ok u ↔ value ≠ "" := by
  rw [← @HolderCore.requireNonEmpty_iff value field, requireNonEmpty, fromExn]
  cases HolderCore.requireNonEmpty value field <;> simp [Except.mapError]

theorem requireNonNegative_ok : requireNonNegative n message = .ok u ↔ 0 ≤ n := by
  rw [requireNonNegative]
  split
  · next h => simp [throw, throwThe, MonadExceptOf.throw, h]
  · next h => simp [pure, Except.pure, Int.not_lt.mp h]

theorem elementsAt_ok {elements : List (JsonValue φ)} : elementsAt item key message = .ok elements ↔
    item.member key = .ok (.array elements) := by
  rw [elementsAt, bind_ok_iff]
  simp only [fromJson_ok]
  constructor
  · intro ⟨j, hj, h⟩
    cases j with
    | array elements' => rw [hj, pure_ok_iff.mp h]
    | _ => cases h
  · intro h
    exact ⟨_, h, rfl⟩

/-- The fields of a placement are those of the object. -/
structure PlacementRead (json : JsonLibrary φ) (item : JsonValue φ) (placement : Placement) : Prop where
  placementId : stringAt item "placement_id" = .ok placement.placementId
  locationId : stringAt item "location_id" = .ok placement.locationId
  objectKey : stringAt item "object_key" = .ok placement.objectKey
  encoding : stringAt item "encoding" = .ok placement.encoding
  storedByteSize : longLongAt json item "stored_byte_size" = .ok placement.storedByteSize
  storedSha256 : stringAt item "stored_sha256" = .ok placement.storedSha256
  createdAt : longLongAt json item "created_at" = .ok placement.createdAt

structure AssetRead (json : JsonLibrary φ) (item : JsonValue φ) (asset : Asset) : Prop where
  assetId : stringAt item "asset_id" = .ok asset.assetId
  originalFilename : stringAt item "original_filename" = .ok asset.originalFilename
  mediaType : stringAt item "media_type" = .ok asset.mediaType
  byteSize : longLongAt json item "byte_size" = .ok asset.byteSize
  plaintextSha256 : stringAt item "plaintext_sha256" = .ok asset.plaintextSha256
  createdAt : longLongAt json item "created_at" = .ok asset.createdAt
  updatedAt : longLongAt json item "updated_at" = .ok asset.updatedAt

structure ResourceRead (json : JsonLibrary φ) (item : JsonValue φ) (resource : Resource) : Prop where
  resourceId : stringAt item "resource_id" = .ok resource.resourceId
  projectId : stringAt item "project_id" = .ok resource.projectId
  type : stringAt item "type" = .ok resource.type
  label : stringAt item "label" = .ok resource.label
  metadata : getAt (JsonValue.getMap (JsonValue.getList JsonValue.getString)) item "metadata" =
    .ok resource.metadata
  createdAt : longLongAt json item "created_at" = .ok resource.createdAt
  updatedAt : longLongAt json item "updated_at" = .ok resource.updatedAt

structure LocationRead (json : JsonLibrary φ) (item : JsonValue φ) (location : Location) : Prop where
  locationId : stringAt item "location_id" = .ok location.locationId
  projectId : stringAt item "project_id" = .ok location.projectId
  name : stringAt item "name" = .ok location.name
  provider : stringAt item "provider" = .ok location.provider
  configuration : getAt (JsonValue.getMap JsonValue.getString) item "configuration" =
    .ok location.configuration
  createdAt : longLongAt json item "created_at" = .ok location.createdAt
  updatedAt : longLongAt json item "updated_at" = .ok location.updatedAt

theorem parsePlacement_ok {assetId : String} {placement : Placement} :
    parsePlacement json assetId item = .ok placement ↔
      PlacementRead json item placement ∧ placement.assetId = assetId ∧ placement.placementId ≠ "" ∧
        placement.locationId ≠ "" ∧ placement.objectKey ≠ "" ∧ placement.encoding ≠ "" ∧
          0 ≤ placement.storedByteSize := by
  unfold parsePlacement
  simp only [bind_ok_iff, pure_ok_iff, requireNonEmpty_ok, requireNonNegative_ok, exists_const]
  constructor
  · intro ⟨_, h1, _, h2, _, h3, _, h4, _, h5, _, h6, _, h7, hid, hloc, hkey, henc, hsize, heq⟩
    subst heq
    exact ⟨⟨h1, h2, h3, h4, h5, h6, h7⟩, rfl, hid, hloc, hkey, henc, hsize⟩
  · intro ⟨⟨h1, h2, h3, h4, h5, h6, h7⟩, hasset, hid, hloc, hkey, henc, hsize⟩
    subst hasset
    exact ⟨_, h1, _, h2, _, h3, _, h4, _, h5, _, h6, _, h7, hid, hloc, hkey, henc, hsize, rfl⟩

theorem parseAsset_ok {resourceId : String} {asset : Asset} :
    parseAsset json resourceId item = .ok asset ↔
      AssetRead json item asset ∧ asset.resourceId = resourceId ∧ asset.assetId ≠ "" ∧
        asset.plaintextSha256 ≠ "" ∧ 0 ≤ asset.byteSize ∧
          ∃ items, item.member "placements" = .ok (.array items) ∧
            items.mapM (parsePlacement json asset.assetId) = .ok asset.placements := by
  unfold parseAsset
  simp only [bind_ok_iff, pure_ok_iff, requireNonEmpty_ok, requireNonNegative_ok, exists_const,
    elementsAt_ok]
  constructor
  · intro ⟨_, h1, _, h2, _, h3, _, h4, _, h5, _, h6, _, h7, hid, hsha, hsize, items, hitems, _, hall, heq⟩
    subst heq
    exact ⟨⟨h1, h2, h3, h4, h5, h6, h7⟩, rfl, hid, hsha, hsize, items, hitems, hall⟩
  · intro ⟨⟨h1, h2, h3, h4, h5, h6, h7⟩, hresource, hid, hsha, hsize, items, hitems, hall⟩
    subst hresource
    exact ⟨_, h1, _, h2, _, h3, _, h4, _, h5, _, h6, _, h7, hid, hsha, hsize, items, hitems, _, hall, rfl⟩

theorem parseResource_ok {resource : Resource} : parseResource json item = .ok resource ↔
    ResourceRead json item resource ∧ resource.resourceId ≠ "" ∧ resource.projectId ≠ "" ∧
      resource.type ≠ "" ∧ resource.label ≠ "" := by
  unfold parseResource
  simp only [bind_ok_iff, pure_ok_iff, requireNonEmpty_ok, exists_const]
  constructor
  · intro ⟨_, h1, _, h2, _, h3, _, h4, _, h5, _, h6, _, h7, hid, hproject, htype, hlabel, heq⟩
    subst heq
    exact ⟨⟨h1, h2, h3, h4, h5, h6, h7⟩, hid, hproject, htype, hlabel⟩
  · intro ⟨⟨h1, h2, h3, h4, h5, h6, h7⟩, hid, hproject, htype, hlabel⟩
    exact ⟨_, h1, _, h2, _, h3, _, h4, _, h5, _, h6, _, h7, hid, hproject, htype, hlabel, rfl⟩

/-- An object whose version is that of the manifests. -/
theorem parseBody_ok : parseBody json text message = .ok body ↔ json.parse text = .ok body ∧
    body.isObject = true ∧ getAt (json.getInteger 32) body "format_version" = .ok manifestVersion := by
  unfold parseBody
  rw [bind_ok_iff]
  simp only [fromJson_ok]
  constructor
  · intro ⟨j, hj, h⟩
    by_cases hobject : j.isObject = true
    · simp only [hobject, Bool.not_true, Bool.false_eq_true, if_false] at h
      obtain ⟨version, hversion, h⟩ := bind_ok_iff.mp h
      by_cases hsame : version = manifestVersion
      · simp only [hsame, ne_eq, not_true_eq_false, if_false] at h
        obtain rfl := pure_ok_iff.mp h
        exact ⟨hj, hobject, hsame ▸ hversion⟩
      · simp only [ne_eq, hsame, not_false_eq_true, if_true] at h
        cases h
    · simp only [hobject, Bool.not_false, if_true] at h
      cases h
  · intro ⟨hparse, hobject, hversion⟩
    refine ⟨body, hparse, ?_⟩
    simp only [hobject, hversion]
    rfl

theorem parseResourceManifest_ok {bundle : ResourceBundle} :
    parseResourceManifest json text = .ok bundle ↔
      ∃ body item items, json.parse text = .ok body ∧ body.isObject = true ∧
        getAt (json.getInteger 32) body "format_version" = .ok manifestVersion ∧
        body.member "resource" = .ok item ∧ parseResource json item = .ok bundle.resource ∧
        body.member "assets" = .ok (.array items) ∧
        items.mapM (parseAsset json bundle.resource.resourceId) = .ok bundle.assets := by
  unfold parseResourceManifest
  simp only [bind_ok_iff, pure_ok_iff, parseBody_ok, fromJson_ok, elementsAt_ok]
  constructor
  · intro ⟨body, ⟨hparse, hobject, hversion⟩, item, hitem, _, hresource, items, hitems, _, hassets, heq⟩
    subst heq
    exact ⟨body, item, items, hparse, hobject, hversion, hitem, hresource, hitems, hassets⟩
  · intro ⟨body, item, items, hparse, hobject, hversion, hitem, hresource, hitems, hassets⟩
    exact ⟨body, ⟨hparse, hobject, hversion⟩, item, hitem, _, hresource, items, hitems, _, hassets, rfl⟩

theorem parseLocationManifest_ok {location : Location} :
    parseLocationManifest json text = .ok location ↔
      ∃ body item, json.parse text = .ok body ∧ body.isObject = true ∧
        getAt (json.getInteger 32) body "format_version" = .ok manifestVersion ∧
        body.member "location" = .ok item ∧ LocationRead json item location ∧
        location.locationId ≠ "" ∧ location.projectId ≠ "" ∧ location.name ≠ "" ∧
        location.provider ≠ "" := by
  unfold parseLocationManifest
  simp only [bind_ok_iff, pure_ok_iff, parseBody_ok, fromJson_ok, requireNonEmpty_ok, exists_const]
  constructor
  · intro ⟨body, ⟨hparse, hobject, hversion⟩, item, hitem, _, h1, _, h2, _, h3, _, h4, _, h5, _, h6, _,
      h7, hid, hproject, hname, hprovider, heq⟩
    subst heq
    exact ⟨body, item, hparse, hobject, hversion, hitem, ⟨h1, h2, h3, h4, h5, h6, h7⟩, hid, hproject,
      hname, hprovider⟩
  · intro ⟨body, item, hparse, hobject, hversion, hitem, ⟨h1, h2, h3, h4, h5, h6, h7⟩, hid, hproject,
      hname, hprovider⟩
    exact ⟨body, ⟨hparse, hobject, hversion⟩, item, hitem, _, h1, _, h2, _, h3, _, h4, _, h5, _, h6, _,
      h7, hid, hproject, hname, hprovider, rfl⟩

end

end ResourceManifest

end HolderCore
