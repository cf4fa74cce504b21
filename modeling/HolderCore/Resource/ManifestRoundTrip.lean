import HolderCore.Resource.ResourceManifest

/-! # Manifests that are written and read

A manifest that was written is read back exactly if its assets and placements pass the checks of the
reader, which the writer does not make; a location always is. What the reader accepts is written in
a form that is read as the same value, and written as the same text. -/

namespace HolderCore

namespace ResourceManifest

variable {φ : Type}

/-! ## The value of a manifest -/

def assetValue (asset : Asset) : JsonValue φ := assetFields asset (asset.placements.map placementJson)

def bundleValue (bundle : ResourceBundle) : JsonValue φ :=
  resourceBody bundle.resource (bundle.assets.map assetValue)

/-- The assets belong to the resource, and the placements of each asset to it. -/
def Owned (bundle : ResourceBundle) : Prop :=
  ∀ asset ∈ bundle.assets, asset.resourceId = bundle.resource.resourceId ∧
    ∀ placement ∈ asset.placements, placement.assetId = asset.assetId

section
variable {json : JsonLibrary φ} {text : Bytes} {bundle : ResourceBundle} {location : Location}

theorem assetJson_ok {asset : Asset} {j : JsonValue φ} : assetJson asset = .ok j ↔
    (∀ placement ∈ asset.placements, placement.assetId = asset.assetId) ∧ j = assetValue asset := by
  have hplacement : ∀ (placement : Placement) (j : JsonValue φ), (do
      if placement.assetId ≠ asset.assetId then
        throw (.exn (.runtimeError "placement asset_id mismatch"))
      return placementJson placement : Except ManifestError (JsonValue φ)) = .ok j ↔
        placement.assetId = asset.assetId ∧ j = placementJson placement := by
    intro placement j
    by_cases h : placement.assetId = asset.assetId
    · simp [h, pure, Except.pure, eq_comm]
    · simp [h, throw, throwThe, MonadExceptOf.throw, bind, Except.bind]
  rw [assetJson, bind_ok_iff]
  simp only [JsonValue.mapM_ok_iff_map hplacement, pure_ok_iff]
  constructor
  · intro ⟨_, ⟨howned, hplacements⟩, h⟩
    exact ⟨howned, by rw [← h, hplacements, assetValue]⟩
  · intro ⟨howned, h⟩
    exact ⟨_, ⟨howned, rfl⟩, h.symm⟩

theorem dumpBody_ok {body : JsonValue φ} : dumpBody json body = .ok text ↔
    ∃ dumped, json.dump 2 body = .ok dumped ∧ text = dumped ++ ['\n'] := by
  rw [dumpBody, fromJson]
  cases json.dump 2 body <;> simp [Except.mapError, Except.map, eq_comm]

theorem renderResourceManifest_iff : renderResourceManifest json bundle = .ok text ↔
    (bundle.resource.resourceId ≠ "" ∧ bundle.resource.projectId ≠ "" ∧ bundle.resource.type ≠ "" ∧
      bundle.resource.label ≠ "") ∧ Owned bundle ∧
      ∃ dumped, json.dump 2 (bundleValue bundle) = .ok dumped ∧ text = dumped ++ ['\n'] := by
  have hasset : ∀ (asset : Asset) (j : JsonValue φ), (do
      if asset.resourceId ≠ bundle.resource.resourceId then
        throw (.exn (.runtimeError "asset resource_id mismatch"))
      assetJson asset : Except ManifestError (JsonValue φ)) = .ok j ↔
        (asset.resourceId = bundle.resource.resourceId ∧
          ∀ placement ∈ asset.placements, placement.assetId = asset.assetId) ∧ j = assetValue asset := by
    intro asset j
    by_cases h : asset.resourceId = bundle.resource.resourceId
    · simp [h, assetJson_ok]
    · simp [h, throw, throwThe, MonadExceptOf.throw, bind, Except.bind]
  unfold renderResourceManifest
  simp only [bind_ok_iff, requireNonEmpty_ok, exists_const, JsonValue.mapM_ok_iff_map hasset,
    dumpBody_ok]
  constructor
  · intro ⟨hid, hproject, htype, hlabel, _, ⟨howned, hassets⟩, dumped, hdump, htext⟩
    exact ⟨⟨hid, hproject, htype, hlabel⟩, howned, dumped, by rw [bundleValue, ← hassets, hdump], htext⟩
  · intro ⟨⟨hid, hproject, htype, hlabel⟩, howned, dumped, hdump, htext⟩
    exact ⟨hid, hproject, htype, hlabel, _, ⟨howned, rfl⟩, dumped, hdump, htext⟩

theorem renderLocationManifest_iff : renderLocationManifest json location = .ok text ↔
    (location.locationId ≠ "" ∧ location.projectId ≠ "" ∧ location.name ≠ "" ∧
      location.provider ≠ "") ∧
      ∃ dumped, json.dump 2 (locationBody location) = .ok dumped ∧ text = dumped ++ ['\n'] := by
  unfold renderLocationManifest
  simp only [bind_ok_iff, requireNonEmpty_ok, exists_const, dumpBody_ok, and_assoc]

end

/-! ## Written values are read back -/

section
variable {json : JsonLibrary φ} {texts : String → Prop} {fields : List (String × JsonValue φ)}
  {key s : String} {n : Int} {j : JsonValue φ}

theorem member_written (h : fields.lookup key = some j) :
    (JsonValue.ofFields fields).member key = .ok j := by
  rw [JsonValue.member_ofFields, h]

theorem stringAt_written (h : fields.lookup key = some (.string s)) :
    stringAt (.ofFields fields) key = .ok s :=
  getAt_ok.mpr ⟨_, member_written h, rfl⟩

theorem longLongAt_written (h : fields.lookup key = some (.integer n)) (hn : FitsSigned 64 n) :
    longLongAt json (.ofFields fields) key = .ok n :=
  getAt_ok.mpr ⟨_, member_written h, JsonLibrary.getInteger_integer hn⟩

theorem getAt_written {α : Type} {get : JsonValue φ → Except JsonError α} {a : α}
    (h : fields.lookup key = some j) (hget : get j = .ok a) : getAt get (.ofFields fields) key = .ok a :=
  getAt_ok.mpr ⟨_, member_written h, hget⟩

theorem metadata_written (metadata : List (String × List String)) :
    (metadataJson metadata : JsonValue φ).getMap (JsonValue.getList JsonValue.getString) =
      .ok metadata := by
  apply JsonValue.getMap_object
  intro entry _
  exact JsonValue.getList_array fun _ _ => rfl

theorem configuration_written (configuration : List (String × String)) :
    (configurationJson configuration : JsonValue φ).getMap JsonValue.getString = .ok configuration := by
  apply JsonValue.getMap_object
  intro entry _
  rfl

theorem placement_written {placement : Placement} (h : PlacementHeld texts placement) :
    PlacementRead json (placementJson placement) placement := by
  unfold placementJson
  constructor
  case storedByteSize => exact longLongAt_written rfl h.numbers.1
  case createdAt => exact longLongAt_written rfl h.numbers.2
  all_goals exact stringAt_written rfl

theorem asset_written {asset : Asset} (h : AssetHeld texts asset) :
    AssetRead json (assetValue asset) asset := by
  unfold assetValue assetFields
  constructor
  case byteSize => exact longLongAt_written rfl h.numbers.1
  case createdAt => exact longLongAt_written rfl h.numbers.2.1
  case updatedAt => exact longLongAt_written rfl h.numbers.2.2
  all_goals exact stringAt_written rfl

theorem resource_written {resource : Resource} (h : ResourceHeld texts resource) :
    ResourceRead json (resourceFields resource) resource := by
  unfold resourceFields
  constructor
  case metadata => exact getAt_written rfl (metadata_written _)
  case createdAt => exact longLongAt_written rfl h.numbers.1
  case updatedAt => exact longLongAt_written rfl h.numbers.2
  all_goals exact stringAt_written rfl

theorem location_written {location : Location} (h : LocationHeld texts location) :
    LocationRead json (locationFields location) location := by
  unfold locationFields
  constructor
  case configuration => exact getAt_written rfl (configuration_written _)
  case createdAt => exact longLongAt_written rfl h.numbers.1
  case updatedAt => exact longLongAt_written rfl h.numbers.2
  all_goals exact stringAt_written rfl

theorem parsePlacement_written {assetId : String} {placement : Placement}
    (h : PlacementHeld texts placement) :
    parsePlacement json assetId (placementJson placement) = .ok placement ↔
      placement.assetId = assetId ∧ placement.placementId ≠ "" ∧ placement.locationId ≠ "" ∧
        placement.objectKey ≠ "" ∧ placement.encoding ≠ "" ∧ 0 ≤ placement.storedByteSize := by
  rw [parsePlacement_ok, and_iff_right (placement_written h)]

theorem parseAsset_written {resourceId : String} {asset : Asset} (h : AssetHeld texts asset) :
    parseAsset json resourceId (assetValue asset) = .ok asset ↔
      (asset.resourceId = resourceId ∧
        ∀ placement ∈ asset.placements, placement.assetId = asset.assetId) ∧ Readable asset := by
  have hplacements : (assetValue asset : JsonValue φ).member "placements" =
      .ok (.array (asset.placements.map placementJson)) := member_written rfl
  have hall : (asset.placements.map (@placementJson φ)).mapM (parsePlacement json asset.assetId) =
      .ok asset.placements ↔ ∀ placement ∈ asset.placements,
        parsePlacement json asset.assetId (placementJson placement) = .ok placement := by
    rw [JsonValue.mapM_ok_iff, List.forall₂_map_left_iff, List.forall₂_same]
  rw [parseAsset_ok, and_iff_right (asset_written h), hplacements]
  constructor
  · intro ⟨hresource, hid, hsha, hsize, items, hitems, hparsed⟩
    cases hitems
    have hparsed := fun p hp => (parsePlacement_written (h.placements p hp)).mp (hall.mp hparsed p hp)
    exact ⟨⟨hresource, fun p hp => (hparsed p hp).1⟩, ⟨hid, hsha, hsize⟩, fun p hp => (hparsed p hp).2⟩
  · intro ⟨⟨hresource, howned⟩, ⟨hid, hsha, hsize⟩, hreadable⟩
    refine ⟨hresource, hid, hsha, hsize, _, rfl, hall.mpr fun p hp => ?_⟩
    exact (parsePlacement_written (h.placements p hp)).mpr ⟨howned p hp, hreadable p hp⟩

theorem version_written (h : fields.lookup "format_version" = some (.integer manifestVersion)) :
    getAt (json.getInteger 32) (.ofFields fields) "format_version" = .ok manifestVersion :=
  getAt_written h rfl

/-- A manifest whose value the parser gives is read as the bundle if the reader's checks hold. -/
theorem parseResourceManifest_written {bundle : ResourceBundle} {text : Bytes}
    (h : BundleHeld texts bundle) (hparse : json.parse text = .ok (bundleValue bundle))
    (howned : Owned bundle) (hidentity : bundle.resource.resourceId ≠ "" ∧
      bundle.resource.projectId ≠ "" ∧ bundle.resource.type ≠ "" ∧ bundle.resource.label ≠ "") :
    parseResourceManifest json text = .ok bundle ↔ ∀ asset ∈ bundle.assets, Readable asset := by
  have hresource : (bundleValue bundle : JsonValue φ).member "resource" =
      .ok (resourceFields bundle.resource) := member_written rfl
  have hassets : (bundleValue bundle : JsonValue φ).member "assets" =
      .ok (.array (bundle.assets.map assetValue)) := member_written rfl
  have hall : (bundle.assets.map (@assetValue φ)).mapM
      (parseAsset json bundle.resource.resourceId) = .ok bundle.assets ↔
        ∀ asset ∈ bundle.assets, Readable asset := by
    rw [JsonValue.mapM_ok_iff, List.forall₂_map_left_iff, List.forall₂_same]
    exact forall₂_congr fun asset hasset => by
      rw [parseAsset_written (h.assets asset hasset), and_iff_right (howned asset hasset)]
  rw [parseResourceManifest_ok, ← hall]
  constructor
  · rintro ⟨body, item, items, hbody, -, -, -, -, hitems, hparsed⟩
    obtain rfl := Except.ok.inj (hparse.symm.trans hbody)
    cases hassets.symm.trans hitems
    exact hparsed
  · intro hparsed
    refine ⟨_, _, _, hparse, rfl, version_written rfl, hresource, ?_, hassets, hparsed⟩
    exact parseResource_ok.mpr ⟨resource_written h.resource, hidentity⟩

theorem parseLocationManifest_written {location : Location} {text : Bytes}
    (h : LocationHeld texts location) (hparse : json.parse text = .ok (locationBody location))
    (hidentity : location.locationId ≠ "" ∧ location.projectId ≠ "" ∧ location.name ≠ "" ∧
      location.provider ≠ "") : parseLocationManifest json text = .ok location := by
  apply parseLocationManifest_ok.mpr
  exact ⟨_, _, hparse, rfl, version_written rfl, member_written rfl, location_written h, hidentity⟩

/-! ## What the written values hold -/

def manifestKeys : List String := ["format_version", "resource", "assets", "location", "placement_id",
  "location_id", "object_key", "encoding", "stored_byte_size", "stored_sha256", "created_at",
  "updated_at", "asset_id", "original_filename", "media_type", "byte_size", "plaintext_sha256",
  "placements", "resource_id", "project_id", "type", "label", "metadata", "name", "provider",
  "configuration"]

theorem manifestKeys_text : ∀ key ∈ manifestKeys, JsonLibrary.Text key := by
  have hascii : (manifestKeys.all fun key => key.toList.all fun c => decide (c.toNat < 128)) = true := by
    decide +kernel
  exact fun key hkey => JsonLibrary.text_of_ascii (List.all_eq_true.mp hascii key hkey)

section
variable (hkeys : ∀ key ∈ manifestKeys, texts key)
include hkeys

theorem placementJson_held {placement : Placement} (h : PlacementHeld texts placement) :
    (placementJson placement : JsonValue φ).Held texts := by
  obtain ⟨hstrings, hnumbers⟩ := h
  apply JsonValue.Held.ofFields
  simp only [manifestKeys, List.forall_mem_cons] at hkeys
  simp [hkeys, hstrings, hnumbers, JsonValue.held_string, JsonValue.Held.ofFits]

theorem assetValue_held {asset : Asset} (h : AssetHeld texts asset) :
    (assetValue asset : JsonValue φ).Held texts := by
  obtain ⟨hstrings, hnumbers, hplacements⟩ := h
  have hall : ∀ j ∈ asset.placements.map (@placementJson φ), j.Held texts :=
    List.forall_mem_map.mpr fun p hp => placementJson_held hkeys (hplacements p hp)
  apply JsonValue.Held.ofFields
  simp only [manifestKeys, List.forall_mem_cons] at hkeys
  simp [hkeys, hstrings, hnumbers, JsonValue.held_string, JsonValue.Held.ofFits,
    JsonValue.held_array.mpr hall]

theorem resourceFields_held {resource : Resource} (h : ResourceHeld texts resource) :
    (resourceFields resource : JsonValue φ).Held texts := by
  obtain ⟨hstrings, hnumbers, hascend, hmetadata⟩ := h
  have hvalue : (metadataJson resource.metadata : JsonValue φ).Held texts := by
    apply JsonValue.held_object hascend
    intro entry hentry
    obtain ⟨hkey, hvalues⟩ := hmetadata entry hentry
    exact ⟨hkey, .array (List.forall_mem_map.mpr fun s hs => .string (hvalues s hs))⟩
  apply JsonValue.Held.ofFields
  simp only [manifestKeys, List.forall_mem_cons] at hkeys
  simp [hkeys, hstrings, hnumbers, JsonValue.held_string, JsonValue.Held.ofFits, hvalue]

theorem bundleValue_held {bundle : ResourceBundle} (h : BundleHeld texts bundle) :
    (bundleValue bundle : JsonValue φ).Held texts := by
  have hresource := @resourceFields_held φ _ hkeys _ h.resource
  have hall : ∀ j ∈ bundle.assets.map (@assetValue φ), j.Held texts :=
    List.forall_mem_map.mpr fun asset hasset => assetValue_held hkeys (h.assets asset hasset)
  have hversion : FitsSigned 64 manifestVersion := by decide
  apply JsonValue.Held.ofFields
  simp only [manifestKeys, List.forall_mem_cons] at hkeys
  simp [hkeys, JsonValue.Held.ofFits hversion, hresource, JsonValue.held_array.mpr hall]

theorem locationBody_held {location : Location} (h : LocationHeld texts location) :
    (locationBody location : JsonValue φ).Held texts := by
  obtain ⟨hstrings, hnumbers, hascend, hconfiguration⟩ := h
  have hvalue : (configurationJson location.configuration : JsonValue φ).Held texts := by
    apply JsonValue.held_object hascend
    intro entry hentry
    exact ⟨(hconfiguration entry hentry).1, .string (hconfiguration entry hentry).2⟩
  simp only [manifestKeys, List.forall_mem_cons] at hkeys
  have hfields : (locationFields location : JsonValue φ).Held texts := by
    apply JsonValue.Held.ofFields
    simp [hkeys, hstrings, hnumbers, JsonValue.held_string, JsonValue.Held.ofFits, hvalue]
  have hversion : FitsSigned 64 manifestVersion := by decide
  apply JsonValue.Held.ofFields
  simp [hkeys, JsonValue.Held.ofFits hversion, hfields]

end

/-! ## What the values that are read hold -/

section
variable {item : JsonValue φ} (hjson : json.Lawful) (hitem : item.Held texts)
include hitem

theorem stringAt_held (h : stringAt item key = .ok s) : texts s := by
  obtain ⟨j, hj, hget⟩ := getAt_ok.mp h
  exact (hitem.member hj).getString hget

omit hitem in
include hjson in
theorem longLongAt_fits (h : longLongAt json item key = .ok n) : FitsSigned 64 n := by
  obtain ⟨j, -, hget⟩ := getAt_ok.mp h
  exact hjson.getInteger_fits (by decide) hget

include hjson

theorem PlacementRead.held {placement : Placement} (h : PlacementRead json item placement) :
    PlacementHeld texts placement := by
  constructor
  · exact ⟨stringAt_held hitem h.placementId, stringAt_held hitem h.locationId,
      stringAt_held hitem h.objectKey, stringAt_held hitem h.encoding,
      stringAt_held hitem h.storedSha256⟩
  · exact ⟨longLongAt_fits hjson h.storedByteSize, longLongAt_fits hjson h.createdAt⟩

theorem parseAsset_held {resourceId : String} {asset : Asset}
    (h : parseAsset json resourceId item = .ok asset) : AssetHeld texts asset ∧
      asset.resourceId = resourceId ∧
      (∀ placement ∈ asset.placements, placement.assetId = asset.assetId) ∧ Readable asset := by
  obtain ⟨hread, hresource, hid, hsha, hsize, items, hitems, hall⟩ := parseAsset_ok.mp h
  have hheld := JsonValue.held_array.mp (hitem.member hitems)
  have hplacement : ∀ placement ∈ asset.placements, PlacementHeld texts placement ∧
      placement.assetId = asset.assetId ∧ placement.placementId ≠ "" ∧ placement.locationId ≠ "" ∧
        placement.objectKey ≠ "" ∧ placement.encoding ≠ "" ∧ 0 ≤ placement.storedByteSize := by
    intro placement hmem
    obtain ⟨j, hj, hparsed⟩ := (JsonValue.mapM_ok_iff.mp hall).exists_left hmem
    obtain ⟨hfields, hchecks⟩ := parsePlacement_ok.mp hparsed
    exact ⟨hfields.held hjson (hheld j hj), hchecks⟩
  refine ⟨⟨?_, ?_, fun p hp => (hplacement p hp).1⟩, hresource, fun p hp => (hplacement p hp).2.1,
    ⟨hid, hsha, hsize⟩, fun p hp => (hplacement p hp).2.2⟩
  · exact ⟨stringAt_held hitem hread.assetId, stringAt_held hitem hread.originalFilename,
      stringAt_held hitem hread.mediaType, stringAt_held hitem hread.plaintextSha256⟩
  · exact ⟨longLongAt_fits hjson hread.byteSize, longLongAt_fits hjson hread.createdAt,
      longLongAt_fits hjson hread.updatedAt⟩

theorem ResourceRead.held {resource : Resource} (h : ResourceRead json item resource) :
    ResourceHeld texts resource := by
  obtain ⟨j, hj, hget⟩ := getAt_ok.mp h.metadata
  obtain ⟨hascend, hmetadata⟩ := (hitem.member hj).getMap
    (fun hheld hlist => hheld.getList JsonValue.Held.getString hlist) hget
  refine ⟨?_, ?_, hascend, hmetadata⟩
  · exact ⟨stringAt_held hitem h.resourceId, stringAt_held hitem h.projectId,
      stringAt_held hitem h.type, stringAt_held hitem h.label⟩
  · exact ⟨longLongAt_fits hjson h.createdAt, longLongAt_fits hjson h.updatedAt⟩

theorem LocationRead.held {location : Location} (h : LocationRead json item location) :
    LocationHeld texts location := by
  obtain ⟨j, hj, hget⟩ := getAt_ok.mp h.configuration
  obtain ⟨hascend, hconfiguration⟩ := (hitem.member hj).getMap JsonValue.Held.getString hget
  refine ⟨?_, ?_, hascend, hconfiguration⟩
  · exact ⟨stringAt_held hitem h.locationId, stringAt_held hitem h.projectId,
      stringAt_held hitem h.name, stringAt_held hitem h.provider⟩
  · exact ⟨longLongAt_fits hjson h.createdAt, longLongAt_fits hjson h.updatedAt⟩

end

/-- What the reader of resource manifests accepts. -/
theorem parseResourceManifest_held {bundle : ResourceBundle} {text : Bytes} (hjson : json.Lawful)
    (h : parseResourceManifest json text = .ok bundle) : BundleHeld JsonLibrary.Text bundle ∧
      Owned bundle ∧ (bundle.resource.resourceId ≠ "" ∧ bundle.resource.projectId ≠ "" ∧
        bundle.resource.type ≠ "" ∧ bundle.resource.label ≠ "") ∧
      ∀ asset ∈ bundle.assets, Readable asset := by
  obtain ⟨body, item, items, hparse, -, -, hitem, hresource, hitems, hall⟩ :=
    parseResourceManifest_ok.mp h
  have hbody := hjson.parse_held hparse
  have hheld := JsonValue.held_array.mp (hbody.member hitems)
  obtain ⟨hread, hidentity⟩ := parseResource_ok.mp hresource
  have hasset : ∀ asset ∈ bundle.assets, AssetHeld JsonLibrary.Text asset ∧
      asset.resourceId = bundle.resource.resourceId ∧
      (∀ placement ∈ asset.placements, placement.assetId = asset.assetId) ∧ Readable asset := by
    intro asset hmem
    obtain ⟨j, hj, hparsed⟩ := (JsonValue.mapM_ok_iff.mp hall).exists_left hmem
    exact parseAsset_held hjson (hheld j hj) hparsed
  exact ⟨⟨hread.held hjson (hbody.member hitem), fun a ha => (hasset a ha).1⟩,
    fun a ha => ⟨(hasset a ha).2.1, (hasset a ha).2.2.1⟩, hidentity, fun a ha => (hasset a ha).2.2.2⟩

theorem parseLocationManifest_held {location : Location} {text : Bytes} (hjson : json.Lawful)
    (h : parseLocationManifest json text = .ok location) : LocationHeld JsonLibrary.Text location ∧
      location.locationId ≠ "" ∧ location.projectId ≠ "" ∧ location.name ≠ "" ∧
        location.provider ≠ "" := by
  obtain ⟨body, item, hparse, -, -, hitem, hread, hidentity⟩ := parseLocationManifest_ok.mp h
  exact ⟨hread.held hjson ((hjson.parse_held hparse).member hitem), hidentity⟩

end

/-! ## Manifests whose JSON is left open

The rebuild and the stores take the reading of the fields and the text of a bundle as parameters. -/

section
variable {K : Type} {json : JsonLibrary φ} {text : Bytes} {bundle : ResourceBundle}

theorem Owned.owned_eq (h : Owned bundle) : bundle.owned = bundle := by
  have hasset : ∀ asset ∈ bundle.assets, ownedAsset bundle.resource.resourceId asset = asset := by
    intro asset hmem
    obtain ⟨hresource, hplacements⟩ := h asset hmem
    have hsame : asset.placements.map (fun p => { p with assetId := asset.assetId }) =
        asset.placements := by
      conv_rhs => rw [← List.map_id asset.placements]
      apply List.map_congr_left
      intro p hp
      rw [← hplacements p hp]
      rfl
    rw [ownedAsset, hsame, ← hresource]
  rw [ResourceBundle.owned, List.map_congr_left (g := id) hasset, List.map_id]

theorem Readable.parseAsset_eq {asset : Asset} (h : Readable asset) :
    HolderCore.parseAsset asset = .ok () := by
  obtain ⟨⟨hid, hsha, hsize⟩, hplacements⟩ := h
  exact parseAsset_iff.mpr ⟨hid, hsha, hsize, fun p hp => parsePlacement_iff.mpr (hplacements p hp)⟩

/-- A rebuild that reads the fields as here accepts the same manifests. -/
theorem parseResourceManifest_env {env : RebuildEnv K} (hjson : json.Lawful)
    (henv : ∀ bundle, env.loadResourceManifest text = .ok bundle ↔
      parseResourceManifest json text = .ok bundle) :
    HolderCore.parseResourceManifest env text = .ok bundle ↔
      parseResourceManifest json text = .ok bundle := by
  rw [parseResourceManifest_iff]
  simp only [henv]
  constructor
  · intro ⟨loaded, hparse, _, heq⟩
    rwa [heq, (parseResourceManifest_held hjson hparse).2.1.owned_eq]
  · intro hparse
    obtain ⟨-, howned, hidentity, hreadable⟩ := parseResourceManifest_held hjson hparse
    exact ⟨bundle, hparse, ⟨hidentity, fun a ha => (hreadable a ha).parseAsset_eq⟩,
      howned.owned_eq.symm⟩

variable (json) in
/-- An environment with the manifests of resources as these functions write and read them. -/
def withManifests (env : RebuildEnv K) (jsonWhat : JsonError → String) : RebuildEnv K :=
  { env with
    dumpManifest := fun bundle => (renderResourceManifest json bundle).toOption.getD []
    loadResourceManifest := fun text => (parseResourceManifest json text).mapError fun
      | .json e => .runtimeError (jsonWhat e)
      | .exn e => e }

theorem loadResourceManifest_iff {env : RebuildEnv K} {jsonWhat : JsonError → String} :
    (withManifests json env jsonWhat).loadResourceManifest text = .ok bundle ↔
      parseResourceManifest json text = .ok bundle := by
  unfold withManifests
  dsimp only
  cases parseResourceManifest json text <;> simp [Except.mapError]

/-- The rebuild in such an environment takes a manifest as what the reader gives. -/
theorem parseResourceManifest_withManifests {env : RebuildEnv K} {jsonWhat : JsonError → String}
    (hjson : json.Lawful) :
    HolderCore.parseResourceManifest (withManifests json env jsonWhat) text = .ok bundle ↔
      parseResourceManifest json text = .ok bundle :=
  parseResourceManifest_env hjson fun _ => loadResourceManifest_iff

/-- It reads the manifest that it wrote, where the reader's checks hold. -/
theorem loads_written {env : RebuildEnv K} {jsonWhat : JsonError → String}
    (hheld : BundleHeld (fun _ => True) bundle) (hinverse : json.Inverse 2 (bundleValue bundle))
    (hrender : renderResourceManifest json bundle = .ok text)
    (hreadable : ∀ asset ∈ bundle.assets, Readable asset) :
    (withManifests json env jsonWhat).loadResourceManifest
      ((withManifests json env jsonWhat).dumpManifest bundle) = .ok bundle := by
  have hdump : (withManifests json env jsonWhat).dumpManifest bundle = text := by
    unfold withManifests
    dsimp only
    rw [hrender]
    rfl
  obtain ⟨hidentity, howned, dumped, hdumped, rfl⟩ := renderResourceManifest_iff.mp hrender
  have hvalue : (bundleValue bundle : JsonValue φ).Held fun _ => True :=
    bundleValue_held (fun _ _ => trivial) hheld
  rw [hdump, loadResourceManifest_iff]
  exact (parseResourceManifest_written hheld (hinverse.parse hvalue hdumped) howned hidentity).mpr hreadable

end

/-! ## What is written is read -/

/-- The manifest of a resource that was written is read back exactly if each asset and placement
passes the reader's checks; the manifest of a location that was written is read back. -/
theorem writtenManifests_read (json : JsonLibrary φ) :
    (∀ bundle text, BundleHeld (fun _ => True) bundle → json.Inverse 2 (bundleValue bundle) →
      renderResourceManifest json bundle = .ok text →
      (parseResourceManifest json text = .ok bundle ↔ ∀ asset ∈ bundle.assets, Readable asset)) ∧
    ∀ location text, LocationHeld (fun _ => True) location → json.Inverse 2 (locationBody location) →
      renderLocationManifest json location = .ok text →
      parseLocationManifest json text = .ok location := by
  constructor
  · intro bundle text hheld hinverse h
    obtain ⟨hidentity, howned, dumped, hdump, rfl⟩ := renderResourceManifest_iff.mp h
    have hvalue : (bundleValue bundle : JsonValue φ).Held fun _ => True :=
      bundleValue_held (fun _ _ => trivial) hheld
    exact parseResourceManifest_written hheld (hinverse.parse hvalue hdump) howned hidentity
  · intro location text hheld hinverse h
    obtain ⟨hidentity, dumped, hdump, rfl⟩ := renderLocationManifest_iff.mp h
    have hvalue : (locationBody location : JsonValue φ).Held fun _ => True :=
      locationBody_held (fun _ _ => trivial) hheld
    exact parseLocationManifest_written hheld (hinverse.parse hvalue hdump) hidentity

/-- A manifest with an asset that has no digest is read as no bundle. -/
theorem unhashed_unread {json : JsonLibrary φ} {bundle : ResourceBundle} {text : Bytes}
    (hheld : BundleHeld (fun _ => True) bundle) (hinverse : json.Inverse 2 (bundleValue bundle))
    (h : renderResourceManifest json bundle = .ok text) {asset : Asset} (hasset : asset ∈ bundle.assets)
    (hsha : asset.plaintextSha256 = "") (bundle' : ResourceBundle) :
    parseResourceManifest json text ≠ .ok bundle' := by
  obtain ⟨-, -, dumped, hdump, rfl⟩ := renderResourceManifest_iff.mp h
  have hvalue : (bundleValue bundle : JsonValue φ).Held fun _ => True :=
    bundleValue_held (fun _ _ => trivial) hheld
  intro hread
  obtain ⟨body, item, items, hbody, -, -, -, -, hitems, hall⟩ := parseResourceManifest_ok.mp hread
  obtain rfl := Except.ok.inj ((hinverse.parse hvalue hdump).symm.trans hbody)
  have hassets : (bundleValue bundle : JsonValue φ).member "assets" =
      .ok (.array (bundle.assets.map assetValue)) := member_written rfl
  cases hassets.symm.trans hitems
  obtain ⟨asset', -, hparsed⟩ :=
    (JsonValue.mapM_ok_iff.mp hall).exists_right (List.mem_map_of_mem hasset)
  obtain ⟨hfields, -, -, hchecked, -⟩ := parseAsset_ok.mp hparsed
  have hwritten : AssetRead json (assetValue asset) asset := asset_written (hheld.assets asset hasset)
  have hsame := Except.ok.inj (hfields.plaintextSha256.symm.trans hwritten.plaintextSha256)
  exact hchecked (hsame.trans hsha)

/-- A library on some texts and the value that is written as one of them. -/
def someTexts (parsed : List (Bytes × JsonValue ℚ)) (dumped : Bytes) : JsonLibrary ℚ where
  parse text :=
    match parsed.lookup text with
    | some j => .ok j
    | none => .error .parseError
  dump _ _ := .ok dumped
  truncate bits x := (x.num.tdiv x.den).bmod (2 ^ bits)
  takesBooleans _ := true

theorem someTexts_parse {parsed : List (Bytes × JsonValue ℚ)} {text dumped : Bytes} {j : JsonValue ℚ}
    (h : parsed.lookup text = some j) : (someTexts parsed dumped).parse text = .ok j := by
  simp only [someTexts, h]

theorem someTexts_inverse {parsed : List (Bytes × JsonValue ℚ)} {dumped : Bytes} {j : JsonValue ℚ}
    (h : parsed.lookup (dumped ++ ['\n']) = some j) (indent : Nat) :
    (someTexts parsed dumped).Inverse indent j where
  dump _ := ⟨dumped, rfl⟩
  parse _ _ hdump := by
    obtain rfl := Except.ok.inj hdump
    exact someTexts_parse h

theorem someTexts_lawful {parsed : List (Bytes × JsonValue ℚ)} {dumped : Bytes}
    (h : ∀ entry ∈ parsed, entry.2.Held JsonLibrary.Text) : (someTexts parsed dumped).Lawful where
  parse_held hparse := by
    simp only [someTexts] at hparse
    split at hparse
    · next j hlookup =>
      obtain ⟨before, after, rfl, -⟩ := List.lookup_eq_some_iff.mp hlookup
      obtain rfl := Except.ok.inj hparse
      exact h _ (List.mem_append_right _ List.mem_cons_self)
    · cases hparse
  truncate_fits bits x := fitsSigned_bmod bits _

def noteAsset (sha256 : String) : Asset := ⟨"a1", "r001", "n.txt", "text/plain", 3, sha256, 5, 5,
  [⟨"pl1", "a1", "disk", "k1", "plain", 3, "beef", 5⟩]⟩

/-- A resource with one asset that has a digest or has none. -/
def hashedNote (sha256 : String) : ResourceBundle where
  resource := ⟨"r001", "p1", "note", "Note", [("author", ["Ann", "Bo"])], 5, 6⟩
  assets := [noteAsset sha256]

/-- `dump(2)` of it. -/
def noteText (sha256 : String) : Bytes := (
  "\x7b\n  \"assets\": [\n    \x7b\n      \"asset_id\": \"a1\",\n      \"byte_size\": 3,\n" ++
  "      \"created_at\": 5,\n      \"media_type\": \"text/plain\",\n" ++
  "      \"original_filename\": \"n.txt\",\n      \"placements\": [\n        \x7b\n" ++
  "          \"created_at\": 5,\n          \"encoding\": \"plain\",\n" ++
  "          \"location_id\": \"disk\",\n          \"object_key\": \"k1\",\n" ++
  "          \"placement_id\": \"pl1\",\n          \"stored_byte_size\": 3,\n" ++
  "          \"stored_sha256\": \"beef\"\n        \x7d\n      ],\n" ++
  "      \"plaintext_sha256\": \"" ++ sha256 ++ "\",\n      \"updated_at\": 5\n    \x7d\n  ],\n" ++
  "  \"format_version\": 1,\n  \"resource\": \x7b\n    \"created_at\": 5,\n" ++
  "    \"label\": \"Note\",\n    \"metadata\": \x7b\n      \"author\": [\n        \"Ann\",\n" ++
  "        \"Bo\"\n      ]\n    \x7d,\n    \"project_id\": \"p1\",\n" ++
  "    \"resource_id\": \"r001\",\n    \"type\": \"note\",\n    \"updated_at\": 6\n  \x7d\n\x7d").toList

def noteLibrary (sha256 : String) : JsonLibrary ℚ :=
  someTexts [(noteText sha256 ++ ['\n'], bundleValue (hashedNote sha256))] (noteText sha256)

theorem hashedNote_held (sha256 : String) : BundleHeld (fun _ => True) (hashedNote sha256) := by
  have h3 : FitsSigned 64 3 := by decide
  have h5 : FitsSigned 64 5 := by decide
  have h6 : FitsSigned 64 6 := by decide
  constructor
  · exact ⟨by simp, ⟨h5, h6⟩, List.pairwise_singleton _ _, by simp⟩
  · intro asset hasset
    obtain rfl := List.mem_singleton.mp hasset
    refine ⟨by simp, ⟨h3, h5, h5⟩, fun placement hplacement => ?_⟩
    obtain rfl := List.mem_singleton.mp hplacement
    exact ⟨by simp, h3, h5⟩

theorem noteLibrary_inverse (sha256 : String) :
    (noteLibrary sha256).Inverse 2 (bundleValue (hashedNote sha256)) :=
  someTexts_inverse List.lookup_cons_self 2

theorem hashedNote_written (sha256 : String) :
    renderResourceManifest (noteLibrary sha256) (hashedNote sha256) =
      .ok (noteText sha256 ++ ['\n']) := by
  apply renderResourceManifest_iff.mpr
  refine ⟨by simp [hashedNote], fun asset hasset => ?_, _, rfl, rfl⟩
  obtain rfl := List.mem_singleton.mp hasset
  refine ⟨rfl, fun placement hplacement => ?_⟩
  obtain rfl := List.mem_singleton.mp hplacement
  rfl

theorem hashedNote_read :
    renderResourceManifest (noteLibrary "beef") (hashedNote "beef") = .ok (noteText "beef" ++ ['\n']) ∧
      parseResourceManifest (noteLibrary "beef") (noteText "beef" ++ ['\n']) =
        .ok (hashedNote "beef") := by
  refine ⟨hashedNote_written "beef", ((writtenManifests_read (noteLibrary "beef")).1 _ _
    (hashedNote_held "beef") (noteLibrary_inverse "beef") (hashedNote_written "beef")).mpr ?_⟩
  intro asset hasset
  obtain rfl := List.mem_singleton.mp hasset
  refine ⟨by decide, fun placement hplacement => ?_⟩
  obtain rfl := List.mem_singleton.mp hplacement
  decide

/-- An asset without a digest is written, and the manifest is never read again. -/
theorem unhashedNote_unread : BundleHeld (fun _ => True) (hashedNote "") ∧
    (noteLibrary "").Inverse 2 (bundleValue (hashedNote "")) ∧
    renderResourceManifest (noteLibrary "") (hashedNote "") = .ok (noteText "" ++ ['\n']) ∧
    ∀ bundle, parseResourceManifest (noteLibrary "") (noteText "" ++ ['\n']) ≠ .ok bundle := by
  refine ⟨hashedNote_held "", noteLibrary_inverse "", hashedNote_written "", ?_⟩
  exact unhashed_unread (hashedNote_held "") (noteLibrary_inverse "") (hashedNote_written "")
    (List.mem_singleton_self _) rfl

/-! ## What is read is stable -/

/-- A text that a reader accepts has a canonical form: its value is written, what was written is read
as this value again, and is written from it again. -/
theorem acceptedManifests_stable {json : JsonLibrary φ} (hjson : json.Lawful) :
    (∀ text bundle, parseResourceManifest json text = .ok bundle → json.Inverse 2 (bundleValue bundle) →
      ∃ canonical, renderResourceManifest json bundle = .ok canonical ∧
        parseResourceManifest json canonical = .ok bundle ∧
        (parseResourceManifest json canonical >>= renderResourceManifest json) = .ok canonical) ∧
    ∀ text location, parseLocationManifest json text = .ok location →
      json.Inverse 2 (locationBody location) →
      ∃ canonical, renderLocationManifest json location = .ok canonical ∧
        parseLocationManifest json canonical = .ok location ∧
        (parseLocationManifest json canonical >>= renderLocationManifest json) = .ok canonical := by
  constructor
  · intro text bundle h hinverse
    obtain ⟨hheld, howned, hidentity, hreadable⟩ := parseResourceManifest_held hjson h
    have hvalue : (bundleValue bundle : JsonValue φ).Held JsonLibrary.Text :=
      bundleValue_held manifestKeys_text hheld
    obtain ⟨dumped, hdump⟩ := hinverse.dump hvalue
    have hrender : renderResourceManifest json bundle = .ok (dumped ++ ['\n']) :=
      renderResourceManifest_iff.mpr ⟨hidentity, howned, dumped, hdump, rfl⟩
    have hparse := (parseResourceManifest_written hheld
      (hinverse.parse (hvalue.mono fun _ _ => trivial) hdump) howned hidentity).mpr hreadable
    exact ⟨_, hrender, hparse, bind_ok_iff.mpr ⟨_, hparse, hrender⟩⟩
  · intro text location h hinverse
    obtain ⟨hheld, hidentity⟩ := parseLocationManifest_held hjson h
    have hvalue : (locationBody location : JsonValue φ).Held JsonLibrary.Text :=
      locationBody_held manifestKeys_text hheld
    obtain ⟨dumped, hdump⟩ := hinverse.dump hvalue
    have hrender : renderLocationManifest json location = .ok (dumped ++ ['\n']) :=
      renderLocationManifest_iff.mpr ⟨hidentity, dumped, hdump, rfl⟩
    have hparse := parseLocationManifest_written hheld
      (hinverse.parse (hvalue.mono fun _ _ => trivial) hdump) hidentity
    exact ⟨_, hrender, hparse, bind_ok_iff.mpr ⟨_, hparse, hrender⟩⟩

/-- A location edited by hand: the fields in another order, one that is not known, and numbers that are
none. -/
def handText : Bytes := '\x7b' :: '"' :: (
  "location\": \x7b\"provider\": \"local\", \"name\": \"Disk\", \"location_id\": \"l001\", " ++
  "\"project_id\": \"p1\", \"updated_at\": 7.5, \"created_at\": true, \"configuration\": \x7b\x7d, " ++
  "\"note\": null\x7d, \"format_version\": 1\x7d").toList

def handValue : JsonValue ℚ := .object [
  ("format_version", .integer 1),
  ("location", .object [
    ("configuration", .object []), ("created_at", .boolean true), ("location_id", .string "l001"),
    ("name", .string "Disk"), ("note", .null), ("project_id", .string "p1"),
    ("provider", .string "local"), ("updated_at", .float ⟨15, 2, by decide, by decide⟩)])]

def handLocation : Location := ⟨⟨"l001", "p1", []⟩, "Disk", "local", 1, 7⟩

/-- `dump(2)` of what is read from it. -/
def handCanonical : Bytes := '\x7b' :: '\n' :: (
  "  \"format_version\": 1,\n  \"location\": \x7b\n    \"configuration\": \x7b\x7d,\n" ++
  "    \"created_at\": 1,\n    \"location_id\": \"l001\",\n    \"name\": \"Disk\",\n" ++
  "    \"project_id\": \"p1\",\n    \"provider\": \"local\",\n    \"updated_at\": 7\n  \x7d\n\x7d").toList

def handTexts : List (Bytes × JsonValue ℚ) :=
  [(handText, handValue), (handCanonical ++ ['\n'], locationBody handLocation)]

def handLibrary : JsonLibrary ℚ := someTexts handTexts handCanonical

theorem handLocation_held : LocationHeld JsonLibrary.Text handLocation := by
  refine ⟨?_, by decide, List.Pairwise.nil, nofun⟩
  and_intros <;> exact JsonLibrary.text_of_ascii (by decide)

theorem handValue_held : handValue.Held JsonLibrary.Text := by
  have hlocation : (JsonValue.object [
      ("configuration", .object []), ("created_at", .boolean true), ("location_id", .string "l001"),
      ("name", .string "Disk"), ("note", .null), ("project_id", .string "p1"),
      ("provider", .string "local"), ("updated_at", .float ⟨15, 2, by decide, by decide⟩)] :
        JsonValue ℚ).Held JsonLibrary.Text := by
    refine .object (by unfold KeysAscend; decide) ?_ ?_
    · simp only [List.forall_mem_cons, List.not_mem_nil, false_imp_iff, implies_true, and_true]
      and_intros <;> exact JsonLibrary.text_of_ascii (by decide)
    · simp only [List.forall_mem_cons, List.not_mem_nil, false_imp_iff, implies_true, and_true]
      refine ⟨.object List.Pairwise.nil nofun nofun, .boolean true, ?_, ?_, .null, ?_, ?_, .float _⟩
      all_goals exact .string (JsonLibrary.text_of_ascii (by decide))
  refine .object (by unfold KeysAscend; decide) ?_ ?_
  · simp only [List.forall_mem_cons, List.not_mem_nil, false_imp_iff, implies_true, and_true]
    and_intros <;> exact JsonLibrary.text_of_ascii (by decide)
  · simp only [List.forall_mem_cons, List.not_mem_nil, false_imp_iff, implies_true, and_true]
    exact ⟨.integer (by decide), hlocation⟩

theorem handLibrary_lawful : handLibrary.Lawful := by
  apply someTexts_lawful
  simp only [handTexts, List.forall_mem_cons, List.not_mem_nil, false_imp_iff, implies_true, and_true]
  exact ⟨handValue_held, locationBody_held manifestKeys_text handLocation_held⟩

theorem handLibrary_inverse : handLibrary.Inverse 2 (locationBody handLocation) := by
  apply someTexts_inverse
  have hother : (handCanonical ++ ['\n'] == handText) = false := rfl
  rw [handTexts, List.lookup_cons, hother]
  exact List.lookup_cons_self

theorem handText_parsed : handLibrary.parse handText = .ok handValue := by
  have hlookup : handTexts.lookup handText = some handValue := by
    rw [handTexts, List.lookup_cons_self]
  rw [handLibrary]
  exact @someTexts_parse _ _ handCanonical _ hlookup

theorem handLocation_read : parseLocationManifest handLibrary handText = .ok handLocation := by
  apply parseLocationManifest_ok.mpr
  refine ⟨handValue, _, handText_parsed, rfl, rfl, rfl, ?_, by decide⟩
  constructor
  all_goals rfl

theorem beefNote_held : BundleHeld JsonLibrary.Text (hashedNote "beef") := by
  have h3 : FitsSigned 64 3 := by decide
  have h5 : FitsSigned 64 5 := by decide
  have h6 : FitsSigned 64 6 := by decide
  constructor
  · refine ⟨?_, ⟨h5, h6⟩, List.pairwise_singleton _ _, ?_⟩
    · and_intros <;> exact JsonLibrary.text_of_ascii (by decide)
    · simp only [hashedNote, List.forall_mem_cons, List.not_mem_nil, false_imp_iff, implies_true, and_true]
      and_intros <;> exact JsonLibrary.text_of_ascii (by decide)
  · intro asset hasset
    obtain rfl := List.mem_singleton.mp hasset
    refine ⟨?_, ⟨h3, h5, h5⟩, fun placement hplacement => ?_⟩
    · and_intros <;> exact JsonLibrary.text_of_ascii (by decide)
    · obtain rfl := List.mem_singleton.mp hplacement
      refine ⟨?_, h3, h5⟩
      and_intros <;> exact JsonLibrary.text_of_ascii (by decide)

theorem noteLibrary_lawful : (noteLibrary "beef").Lawful := by
  apply someTexts_lawful
  simp only [List.forall_mem_cons, List.not_mem_nil, false_imp_iff, implies_true, and_true]
  exact bundleValue_held manifestKeys_text beefNote_held

theorem beefNote_read : parseResourceManifest (noteLibrary "beef") (noteText "beef" ++ ['\n']) =
    .ok (hashedNote "beef") := by
  have hwritten := hashedNote_written "beef"
  obtain ⟨hidentity, howned, dumped, hdumped, htext⟩ := renderResourceManifest_iff.mp hwritten
  rw [htext]
  have hvalue : (bundleValue (hashedNote "beef") : JsonValue ℚ).Held fun _ => True :=
    bundleValue_held (fun _ _ => trivial) (hashedNote_held "beef")
  refine (parseResourceManifest_written (hashedNote_held "beef")
    ((noteLibrary_inverse "beef").parse hvalue hdumped) howned hidentity).mpr fun asset hasset => ?_
  obtain rfl := List.mem_singleton.mp hasset
  refine ⟨by decide, fun placement hplacement => ?_⟩
  obtain rfl := List.mem_singleton.mp hplacement
  decide

theorem handManifests_stable :
    (∃ canonical, renderResourceManifest (noteLibrary "beef") (hashedNote "beef") = .ok canonical ∧
      parseResourceManifest (noteLibrary "beef") canonical = .ok (hashedNote "beef") ∧
      (parseResourceManifest (noteLibrary "beef") canonical >>=
        renderResourceManifest (noteLibrary "beef")) = .ok canonical) ∧
    ∃ canonical, renderLocationManifest handLibrary handLocation = .ok canonical ∧
      parseLocationManifest handLibrary canonical = .ok handLocation ∧
      (parseLocationManifest handLibrary canonical >>= renderLocationManifest handLibrary) =
        .ok canonical :=
  ⟨(acceptedManifests_stable noteLibrary_lawful).1 _ (hashedNote "beef") beefNote_read
      (noteLibrary_inverse "beef"),
    (acceptedManifests_stable handLibrary_lawful).2 handText handLocation handLocation_read
      handLibrary_inverse⟩

end ResourceManifest

end HolderCore
