import HolderCore.Project.WholeRebuild

/-! # The manifests of a project

When the rebuild of the locations and resources succeeds: every manifest is accepted by itself, and no
two of them share an id or a stored object. It does so for any order in which a directory lists its
files. -/

namespace HolderCore

/-- A file that the rebuild reads as a resource manifest. -/
def ManifestFile (path : String) : Prop :=
  startsWith "resources/" path.toList = true ∧ isJson path = true

/-- The rows of a project that nothing is known of. -/
def ServiceRows.empty : ServiceRows := ⟨∅, ∅, ∅, ∅⟩

def ResourceBundle.placements (bundle : ResourceBundle) : List Placement :=
  bundle.assets.flatMap (·.placements)

def Placement.object (placement : Placement) : String × String :=
  (placement.locationId, placement.objectKey)

/-- A manifest of the tree and what it holds. -/
structure ManifestAt (env : RebuildEnv K) (work : Tree) (path : String) (bundle : ResourceBundle) :
    Prop where
  read : readManifest env work (parseResourceManifest env) path = .ok bundle
  path : resourceRelPath bundle.resource.resourceId = .ok path
  project : bundle.resource.projectId = env.project.projectId

/-- The ids of some assets are new and differ, and so are those of their placements; every hash is
one. -/
structure IdsPass (seen : SeenIds) (assets : List Asset) : Prop where
  fresh : (assets.map (·.assetId)).Nodup ∧ ∀ asset ∈ assets, asset.assetId ∉ seen.assets
  hashes : ∀ asset ∈ assets, isSha256 asset.plaintextSha256 = true
  freshPlacements : ((assets.flatMap (·.placements)).map (·.placementId)).Nodup ∧
    ∀ placement ∈ assets.flatMap (·.placements), placement.placementId ∉ seen.placements
  stored : ∀ placement ∈ assets.flatMap (·.placements), isSha256 placement.storedSha256 = true

/-- A manifest that the rebuild accepts by itself. -/
structure ResourceBundle.Fits (locations : List String) (bundle : ResourceBundle) : Prop where
  ids : IdsPass ⟨[], []⟩ bundle.assets
  properties : ∀ property ∈ bundle.resource.metadata, property.1 ≠ ""
  located : ∀ placement ∈ bundle.placements, placement.locationId ∈ locations
  objects : (bundle.placements.map (·.object)).Nodup

/-- Two manifests that share no id and no stored object. -/
structure ResourceBundle.Apart (bundle bundle' : ResourceBundle) : Prop where
  assets : ∀ asset ∈ bundle.assets, ∀ asset' ∈ bundle'.assets, asset.assetId ≠ asset'.assetId
  placements : ∀ placement ∈ bundle.placements, ∀ placement' ∈ bundle'.placements,
    placement.placementId ≠ placement'.placementId ∧ placement.object ≠ placement'.object

instance : Std.Symm ResourceBundle.Apart where
  symm _ _ h := {
    assets := fun a ha a' ha' he => h.assets a' ha' a ha he.symm
    placements := fun p hp p' hp' =>
      ⟨fun he => (h.placements p' hp' p hp).1 he.symm, fun he => (h.placements p' hp' p hp).2 he.symm⟩ }

/-! ## Checking ids -/

def SeenIds.see (seen : SeenIds) (assets : List Asset) : SeenIds where
  assets := (assets.map (·.assetId)).reverse ++ seen.assets
  placements := ((assets.flatMap (·.placements)).map (·.placementId)).reverse ++ seen.placements

section
variable {path : String} {seen seen' : SeenIds}

theorem checkPlacements_iff (placements : List Placement) :
    placements.foldlM (checkPlacement path) seen = .ok seen' ↔
      ((placements.map (·.placementId)).Nodup ∧
        ∀ placement ∈ placements, placement.placementId ∉ seen.placements) ∧
      (∀ placement ∈ placements, isSha256 placement.storedSha256 = true) ∧
      seen' = { seen with
        placements := (placements.map (·.placementId)).reverse ++ seen.placements } := by
  induction placements generalizing seen with
  | nil =>
    rw [List.foldlM_nil]
    constructor
    · intro h
      cases h
      simp
    · rintro ⟨-, -, rfl⟩
      rfl
  | cons placement placements ih =>
    rw [List.foldlM_cons, checkPlacement]
    by_cases hseen : placement.placementId ∈ seen.placements
    · rw [if_pos (by simpa using hseen)]
      refine iff_of_false nofun ?_
      rintro ⟨⟨-, hfresh⟩, -⟩
      exact hfresh placement List.mem_cons_self hseen
    rw [if_neg (by simpa using hseen)]
    by_cases hsha : isSha256 placement.storedSha256 = true
    · rw [if_neg (by simpa using hsha)]
      change placements.foldlM (checkPlacement path)
        { seen with placements := placement.placementId :: seen.placements } = _ ↔ _
      rw [ih, List.map_cons, List.nodup_cons, List.forall_mem_cons, List.forall_mem_cons,
        List.reverse_cons, List.append_assoc, List.singleton_append]
      constructor
      · rintro ⟨⟨hnodup, hfresh⟩, hstored, rfl⟩
        refine ⟨⟨⟨?_, hnodup⟩, hseen, fun p hp => ?_⟩, ⟨hsha, hstored⟩, rfl⟩
        · intro hmem
          obtain ⟨p, hp, he⟩ := List.mem_map.mp hmem
          exact hfresh p hp (he ▸ List.mem_cons_self)
        · exact fun hold => hfresh p hp (List.mem_cons_of_mem _ hold)
      · rintro ⟨⟨⟨hne, hnodup⟩, -, hfresh⟩, ⟨-, hstored⟩, rfl⟩
        refine ⟨⟨hnodup, fun p hp hold => ?_⟩, hstored, rfl⟩
        obtain he | hold := List.mem_cons.mp hold
        · exact hne (he ▸ List.mem_map_of_mem hp)
        · exact hfresh p hp hold
    · rw [if_pos (by simpa using hsha)]
      refine iff_of_false nofun ?_
      rintro ⟨-, hstored, -⟩
      exact hsha (hstored placement List.mem_cons_self)

theorem checkAsset_iff (asset : Asset) : checkAsset path seen asset = .ok seen' ↔
    IdsPass seen [asset] ∧ seen' = seen.see [asset] := by
  rw [checkAsset]
  by_cases hseen : asset.assetId ∈ seen.assets
  · simp only [List.contains_eq_mem, hseen, decide_true, if_true]
    refine iff_of_false nofun ?_
    rintro ⟨h, -⟩
    exact h.fresh.2 asset (List.mem_singleton_self _) hseen
  by_cases hsha : isSha256 asset.plaintextSha256 = true
  · simp only [List.contains_eq_mem, hseen, decide_false, Bool.false_eq_true, if_false, hsha,
      Bool.not_true]
    rw [checkPlacements_iff]
    constructor
    · rintro ⟨hplacements, hstored, rfl⟩
      refine ⟨⟨⟨by simp, by simpa using hseen⟩, by simpa using hsha, by simpa using hplacements,
        by simpa using hstored⟩, by simp [SeenIds.see]⟩
    · rintro ⟨h, rfl⟩
      exact ⟨by simpa using h.freshPlacements, by simpa using h.stored, by simp [SeenIds.see]⟩
  · simp only [List.contains_eq_mem, hseen, decide_false, Bool.false_eq_true, if_false, hsha,
      Bool.not_false, if_true]
    refine iff_of_false nofun ?_
    rintro ⟨h, -⟩
    exact hsha (h.hashes asset (List.mem_singleton_self _))

theorem SeenIds.see_append (assets assets' : List Asset) :
    seen.see (assets ++ assets') = (seen.see assets).see assets' := by
  simp [SeenIds.see]

theorem IdsPass.append_iff {assets assets' : List Asset} : IdsPass seen (assets ++ assets') ↔
    IdsPass seen assets ∧ IdsPass (seen.see assets) assets' := by
  constructor
  · intro h
    have ha := h.fresh
    have hp := h.freshPlacements
    rw [List.map_append, List.nodup_append] at ha
    rw [List.flatMap_append, List.map_append, List.nodup_append] at hp
    refine ⟨⟨⟨ha.1.1, fun a h' => ha.2 a (List.mem_append_left _ h')⟩,
        fun a h' => h.hashes a (List.mem_append_left _ h'),
        ⟨hp.1.1, fun p h' => hp.2 p (List.mem_append_left _ h')⟩,
        fun p h' => h.stored p (by rw [List.flatMap_append]; exact List.mem_append_left _ h')⟩,
      ⟨⟨ha.1.2.1, fun a h' hs => ?_⟩, fun a h' => h.hashes a (List.mem_append_right _ h'),
        ⟨hp.1.2.1, fun p h' hs => ?_⟩,
        fun p h' => h.stored p (by rw [List.flatMap_append]; exact List.mem_append_right _ h')⟩⟩
    · rw [SeenIds.see, List.mem_append, List.mem_reverse] at hs
      obtain hs | hs := hs
      · exact ha.1.2.2 _ hs _ (List.mem_map_of_mem h') rfl
      · exact ha.2 a (List.mem_append_right _ h') hs
    · rw [SeenIds.see, List.mem_append, List.mem_reverse] at hs
      obtain hs | hs := hs
      · exact hp.1.2.2 _ hs _ (List.mem_map_of_mem h') rfl
      · exact hp.2 p (List.mem_append_right _ h') hs
  · rintro ⟨h, h'⟩
    have hold : ∀ asset ∈ assets', asset.assetId ∉ assets.map (·.assetId) ∧
        asset.assetId ∉ seen.assets := by
      intro asset ha
      have := h'.fresh.2 asset ha
      rwa [SeenIds.see, List.mem_append, List.mem_reverse, not_or] at this
    have holdp : ∀ placement ∈ assets'.flatMap (·.placements),
        placement.placementId ∉ (assets.flatMap (·.placements)).map (·.placementId) ∧
          placement.placementId ∉ seen.placements := by
      intro placement hp
      have := h'.freshPlacements.2 placement hp
      rwa [SeenIds.see, List.mem_append, List.mem_reverse, not_or] at this
    refine ⟨⟨?_, ?_⟩, ?_, ⟨?_, ?_⟩, ?_⟩
    · rw [List.map_append, List.nodup_append]
      refine ⟨h.fresh.1, h'.fresh.1, fun a ha b hb he => ?_⟩
      obtain ⟨asset, hasset, rfl⟩ := List.mem_map.mp hb
      exact (hold asset hasset).1 (he ▸ ha)
    · intro asset ha
      obtain ha | ha := List.mem_append.mp ha
      · exact h.fresh.2 asset ha
      · exact (hold asset ha).2
    · intro asset ha
      obtain ha | ha := List.mem_append.mp ha
      · exact h.hashes asset ha
      · exact h'.hashes asset ha
    · rw [List.flatMap_append, List.map_append, List.nodup_append]
      refine ⟨h.freshPlacements.1, h'.freshPlacements.1, fun a ha b hb he => ?_⟩
      obtain ⟨placement, hp, rfl⟩ := List.mem_map.mp hb
      exact (holdp placement hp).1 (he ▸ ha)
    · intro placement hp
      rw [List.flatMap_append] at hp
      obtain hp | hp := List.mem_append.mp hp
      · exact h.freshPlacements.2 placement hp
      · exact (holdp placement hp).2
    · intro placement hp
      rw [List.flatMap_append] at hp
      obtain hp | hp := List.mem_append.mp hp
      · exact h.stored placement hp
      · exact h'.stored placement hp

theorem checkAssets_iff (assets : List Asset) : assets.foldlM (checkAsset path) seen = .ok seen' ↔
    IdsPass seen assets ∧ seen' = seen.see assets := by
  induction assets generalizing seen with
  | nil =>
    rw [List.foldlM_nil]
    constructor
    · intro h
      cases h
      exact ⟨⟨by simp, by simp, by simp, by simp⟩, by simp [SeenIds.see]⟩
    · rintro ⟨-, rfl⟩
      simp [SeenIds.see, pure, Except.pure]
  | cons asset assets ih =>
    rw [List.foldlM_cons, ← List.singleton_append, IdsPass.append_iff, SeenIds.see_append]
    constructor
    · intro h
      cases hcheck : checkAsset path seen asset with
      | error e =>
        rw [hcheck] at h
        cases h
      | ok seen1 =>
        rw [hcheck] at h
        obtain ⟨hpass, rfl⟩ := (checkAsset_iff asset).mp hcheck
        obtain ⟨hrest, rfl⟩ := ih.mp h
        exact ⟨⟨hpass, hrest⟩, rfl⟩
    · rintro ⟨⟨hpass, hrest⟩, rfl⟩
      rw [(checkAsset_iff asset).mpr ⟨hpass, rfl⟩]
      exact ih.mpr ⟨hrest, rfl⟩

end

/-! ## Reading the manifests -/

section
variable {env : RebuildEnv K} {work : Tree} {path : String} {bundle : ResourceBundle}

theorem resourceRelPath_iff {id : String} : resourceRelPath id = .ok path ↔
    4 ≤ id.length ∧ path = shardedPath "resources" id ".json" := by
  unfold resourceRelPath
  by_cases h : id.length < 4
  · rw [if_pos h]
    exact iff_of_false nofun fun hlen => absurd hlen.1 (by omega)
  · rw [if_neg h, Except.ok.injEq]
    exact ⟨fun he => ⟨by omega, he.symm⟩, fun he => he.2.symm⟩

theorem rebuildBundle_iff {seen : SeenIds} {r : SeenIds × ResourceBundle} :
    rebuildBundle env work seen path = .ok r ↔
      ManifestAt env work path r.2 ∧ IdsPass seen r.2.assets ∧ r.1 = seen.see r.2.assets := by
  unfold rebuildBundle
  cases hread : readManifest env work (parseResourceManifest env) path with
  | error e =>
    refine iff_of_false nofun ?_
    rintro ⟨h, -⟩
    rw [h.read] at hread
    cases hread
  | ok bundle =>
    simp only [bind, Except.bind]
    cases hrel : resourceRelPath bundle.resource.resourceId with
    | error e =>
      refine iff_of_false nofun ?_
      rintro ⟨h, -⟩
      rw [h.read, Except.ok.injEq] at hread
      rw [← hread, h.path] at hrel
      cases hrel
    | ok expected =>
      dsimp only
      by_cases hpath : path = expected
      · rw [if_neg (not_not_intro hpath)]
        by_cases hproj : bundle.resource.projectId = env.project.projectId
        · rw [if_neg (not_not_intro hproj)]
          have hat : ManifestAt env work path bundle := ⟨hread, hpath ▸ hrel, hproj⟩
          cases hcheck : bundle.assets.foldlM (checkAsset path) seen with
          | error e =>
            refine iff_of_false nofun ?_
            rintro ⟨h, hids, -⟩
            have he := h.read
            rw [hread, Except.ok.injEq] at he
            rw [he, (checkAssets_iff r.2.assets).mpr ⟨hids, rfl⟩] at hcheck
            cases hcheck
          | ok seen1 =>
            obtain ⟨hids, rfl⟩ := (checkAssets_iff bundle.assets).mp hcheck
            constructor
            · intro h
              cases h
              exact ⟨hat, hids, rfl⟩
            · rintro ⟨h, -, hseen⟩
              have he := h.read
              rw [hread, Except.ok.injEq] at he
              subst he
              rw [← hseen]
              rfl
        · rw [if_pos hproj]
          refine iff_of_false nofun ?_
          rintro ⟨h, -⟩
          have he := h.read
          rw [hread, Except.ok.injEq] at he
          exact hproj (he ▸ h.project)
      · rw [if_pos hpath]
        refine iff_of_false nofun ?_
        rintro ⟨h, -⟩
        have he := h.read
        rw [hread, Except.ok.injEq] at he
        rw [he, h.path, Except.ok.injEq] at hrel
        exact hpath hrel

theorem rebuildBundles_iff {seen : SeenIds} {paths : List String} {bundles : List ResourceBundle} :
    rebuildBundles env work seen paths = .ok bundles ↔
      List.Forall₂ (ManifestAt env work) paths bundles ∧
        IdsPass seen (bundles.flatMap (·.assets)) := by
  induction paths generalizing seen bundles with
  | nil =>
    rw [rebuildBundles]
    constructor
    · intro h
      cases h
      exact ⟨.nil, by simp, by simp, by simp, by simp⟩
    · rintro ⟨h, -⟩
      cases h
      rfl
  | cons path paths ih =>
    rw [rebuildBundles]
    constructor
    · intro h
      cases hone : rebuildBundle env work seen path with
      | error e =>
        rw [hone] at h
        cases h
      | ok r =>
        obtain ⟨hat, hids, hseen⟩ := rebuildBundle_iff.mp hone
        rw [hone] at h
        simp only [bind, Except.bind] at h
        cases hrest : rebuildBundles env work r.1 paths with
        | error e =>
          rw [hrest] at h
          cases h
        | ok rest =>
          rw [hrest] at h
          cases h
          obtain ⟨hall, hidsRest⟩ := ih.mp hrest
          refine ⟨.cons hat hall, ?_⟩
          rw [List.flatMap_cons, IdsPass.append_iff]
          exact ⟨hids, hseen ▸ hidsRest⟩
    · rintro ⟨h, hids⟩
      cases h with
      | @cons _ bundle _ rest hat hall =>
        rw [List.flatMap_cons, IdsPass.append_iff] at hids
        have hone : rebuildBundle env work seen path = .ok (seen.see bundle.assets, bundle) :=
          rebuildBundle_iff.mpr ⟨hat, hids.1, rfl⟩
        rw [hone]
        simp only [bind, Except.bind]
        rw [ih.mpr ⟨hall, hids.2⟩]
        rfl

theorem checkLocations_iff {locations : List Location} : checkLocations locations bundle = .ok () ↔
    ∀ placement ∈ bundle.placements, placement.locationId ∈ locations.map (·.locationId) := by
  unfold checkLocations
  rw [show (bundle.assets.flatMap (·.placements)) = bundle.placements from rfl]
  cases hfind : bundle.placements.find? fun placement =>
      !(locations.map (·.locationId)).contains placement.locationId with
  | none =>
    rw [List.find?_eq_none] at hfind
    refine iff_of_true rfl fun placement hp => ?_
    simpa using hfind placement hp
  | some placement =>
    refine iff_of_false nofun fun hall => ?_
    have hno := List.find?_some hfind
    have hin := hall placement (List.mem_of_find?_eq_some hfind)
    simp only [List.contains_eq_mem, Bool.not_eq_true', decide_eq_false_iff_not] at hno
    exact hno hin

theorem forM_ok_iff {α : Type} {f : α → Except Exn Unit} {as : List α} :
    as.forM f = .ok () ↔ ∀ a ∈ as, f a = .ok () := by
  induction as with
  | nil => simp [pure, Except.pure]
  | cons a as ih =>
    rw [show (a :: as).forM f = (f a >>= fun _ => as.forM f) from rfl, List.forall_mem_cons, ← ih]
    cases f a with
    | error e => simp [bind, Except.bind]
    | ok u => simp [bind, Except.bind]

end

/-! ## Storing the manifests -/

theorem Map.perm_rows_insert {β : Type} (m : Map String β) (k : String) (v : β) :
    (Map.rows (m.insert k v)).Perm (v :: Map.rows (m.erase k)) := by
  have hlist : (m.insert k v).toList.Perm ((k, v) :: (m.erase k).toList) := by
    have hnodup : ∀ m : Map String β, m.toList.Nodup := fun m =>
      (Std.ExtTreeMap.map_fst_toList_eq_keys (t := m) ▸ Std.ExtTreeMap.nodup_keys).of_map
    refine (List.perm_ext_iff_of_nodup (hnodup _) (List.nodup_cons.mpr ⟨?_, hnodup _⟩)).mpr ?_
    · rw [Std.ExtTreeMap.mem_toList_iff_getElem?_eq_some, Map.get_erase, if_pos rfl]
      exact nofun
    · rintro ⟨k', v'⟩
      rw [List.mem_cons, Std.ExtTreeMap.mem_toList_iff_getElem?_eq_some,
        Std.ExtTreeMap.mem_toList_iff_getElem?_eq_some, Map.get_insert, Map.get_erase]
      by_cases hk : k = k'
      · subst hk
        simp [eq_comm]
      · simp [hk, Ne.symm hk]
  exact hlist.map Prod.snd

namespace ResourceRepo

/-- The columns of a bundle pass the checks of its rows, and its locations are there. -/
structure Storable (locations : Map String Location) (bundle : ResourceBundle) : Prop where
  identity : bundle.resource.resourceId ≠ "" ∧ bundle.resource.projectId ≠ "" ∧
    bundle.resource.type ≠ "" ∧ bundle.resource.label ≠ ""
  properties : ∀ property ∈ bundle.resource.metadata, property.1 ≠ ""
  assets : ∀ asset ∈ bundle.assets, validAsset bundle.resource asset = true
  placements : ∀ asset ∈ bundle.assets, ∀ placement ∈ asset.placements,
    validPlacement asset placement = true
  located : ∀ placement ∈ bundle.placements, placement.locationId ∈ locations

theorem putBundle_iff {bundle : ResourceBundle} {rows rows' : ServiceRows} :
    putBundle bundle rows = .ok rows' ↔ Storable rows.locations bundle ∧
      Distinct (bundle :: Map.rows (rows.resources.erase bundle.resource.resourceId)) ∧
      rows' = { rows with resources :=
        (rows.resources.erase bundle.resource.resourceId).insert bundle.resource.resourceId bundle } := by
  unfold putBundle
  simp only [bind, Except.bind, throw, throwThe, MonadExceptOf.throw, pure, Except.pure]
  split
  · next h =>
    refine iff_of_false (by simp) ?_
    rintro ⟨hs, -⟩
    simp [String.isEmpty_iff, hs.identity] at h
  next hid =>
  split
  · next h =>
    refine iff_of_false (by simp) ?_
    rintro ⟨hs, -⟩
    obtain ⟨property, hp, he⟩ := List.any_eq_true.mp h
    exact hs.properties property hp (String.isEmpty_iff.mp he)
  next hproperties =>
  split
  · next h =>
    refine iff_of_false (by simp) ?_
    rintro ⟨hs, -⟩
    rw [List.all_eq_true.mpr hs.assets] at h
    cases h
  next hassets =>
  split
  · next h =>
    refine iff_of_false (by simp) ?_
    rintro ⟨hs, -⟩
    rw [List.all_eq_true.mpr fun a ha => List.all_eq_true.mpr (hs.placements a ha)] at h
    cases h
  next hplacements =>
  split
  · next h =>
    refine iff_of_false (by simp) ?_
    rintro ⟨hs, -⟩
    rw [Bool.not_eq_true', List.all_eq_false] at h
    obtain ⟨p, hp, hno⟩ := h
    exact hno (Std.ExtTreeMap.contains_iff_mem.mpr (hs.located p hp))
  next hlocated =>
  split
  · next h =>
    refine iff_of_false (by simp) ?_
    rintro ⟨-, hd, -⟩
    exact h hd
  next hdistinct =>
  rw [Except.ok.injEq]
  refine ⟨fun h => ⟨⟨?_, ?_, ?_, ?_, ?_⟩, not_not.mp hdistinct, h.symm⟩, fun h => h.2.2.symm⟩
  · simpa [String.isEmpty_iff, and_assoc] using hid
  · rintro ⟨name, values⟩ hp rfl
    exact hproperties (List.any_eq_true.mpr ⟨_, hp, rfl⟩)
  · simpa using hassets
  · simpa using hplacements
  · intro p hp
    rw [Bool.not_eq_true, Bool.not_eq_false', List.all_eq_true] at hlocated
    exact Std.ExtTreeMap.contains_iff_mem.mp (hlocated p hp)

theorem Distinct.perm {bundles bundles' : List ResourceBundle} (h : bundles.Perm bundles') :
    Distinct bundles ↔ Distinct bundles' := by
  have hassets := h.flatMap_right (·.assets)
  have hplacements := hassets.flatMap_right (·.placements)
  exact and_congr (hassets.map _).nodup_iff
    (and_congr (hplacements.map _).nodup_iff (hplacements.map _).nodup_iff)

theorem Distinct.sublist {bundles bundles' : List ResourceBundle} (h : Distinct bundles')
    (hsub : bundles.Sublist bundles') : Distinct bundles := by
  have hassets := hsub.flatMap (·.assets)
  have hplacements := hassets.flatMap (·.placements)
  exact ⟨h.1.sublist (hassets.map _), h.2.1.sublist (hplacements.map _),
    h.2.2.sublist (hplacements.map _)⟩

end ResourceRepo

/-! ## The rebuild of the manifests -/

theorem List.nodup_map_flatMap {α β γ : Type} {f : α → List β} {g : β → γ} {as : List α} :
    ((as.flatMap f).map g).Nodup ↔ (∀ a ∈ as, ((f a).map g).Nodup) ∧
      as.Pairwise fun a a' => ∀ b ∈ f a, ∀ b' ∈ f a', g b ≠ g b' := by
  rw [List.map_flatMap, List.nodup_flatMap]
  refine and_congr_right fun _ => ⟨fun h => h.imp fun {a a'} hd b hb b' hb' he => ?_,
    fun h => h.imp fun {a a'} hne c hc hc' => ?_⟩
  · exact hd (List.mem_map_of_mem hb) (he ▸ List.mem_map_of_mem hb')
  · obtain ⟨b, hb, rfl⟩ := List.mem_map.mp hc
    obtain ⟨b', hb', he⟩ := List.mem_map.mp hc'
    exact hne b hb b' hb' he.symm

/-- Values that are related to different elements have different keys. -/
theorem List.Forall₂.nodup_map {α β γ : Type} {R : α → β → Prop} {as : List α} {bs : List β}
    {key : β → γ} (h : List.Forall₂ R as bs) (hnodup : as.Nodup)
    (hkey : ∀ a a' b b', R a b → R a' b' → key b = key b' → a = a') : (bs.map key).Nodup := by
  induction h with
  | nil => exact .nil
  | @cons a b as bs hab hrest ih =>
    rw [List.nodup_cons] at hnodup
    rw [List.map_cons, List.nodup_cons]
    refine ⟨fun hmem => ?_, ih hnodup.2⟩
    obtain ⟨b', hb', he⟩ := List.mem_map.mp hmem
    obtain ⟨a', ha', hr⟩ := List.Forall₂.exists_left hrest hb'
    exact hnodup.1 (hkey a a' b b' hab hr he.symm ▸ ha')

theorem pairwise_apart_iff {bundles : List ResourceBundle} : bundles.Pairwise ResourceBundle.Apart ↔
    (bundles.Pairwise fun b b' => ∀ a ∈ b.assets, ∀ a' ∈ b'.assets, a.assetId ≠ a'.assetId) ∧
    (bundles.Pairwise fun b b' => ∀ p ∈ b.placements, ∀ p' ∈ b'.placements,
      p.placementId ≠ p'.placementId) ∧
    bundles.Pairwise fun b b' => ∀ p ∈ b.placements, ∀ p' ∈ b'.placements, p.object ≠ p'.object := by
  rw [← List.pairwise_and_iff, ← List.pairwise_and_iff]
  refine List.Pairwise.iff fun b b' => ⟨fun h => ⟨h.assets, fun p hp p' hp' => (h.placements p hp p' hp').1,
    fun p hp p' hp' => (h.placements p hp p' hp').2⟩, fun ⟨h, h', h''⟩ => ⟨h, fun p hp p' hp' =>
    ⟨h' p hp p' hp', h'' p hp p' hp'⟩⟩⟩

namespace ResourceRepo

/-- The constraints over all rows are those over each bundle and each two. -/
theorem distinct_iff_pairwise {bundles : List ResourceBundle} : Distinct bundles ↔
    (∀ bundle ∈ bundles, Distinct [bundle]) ∧ bundles.Pairwise ResourceBundle.Apart := by
  have hplacements : (bundles.flatMap (·.assets)).flatMap (·.placements) =
      bundles.flatMap (·.placements) := List.flatMap_assoc
  have hone : ∀ bundle : ResourceBundle, Distinct [bundle] ↔
      (bundle.assets.map (·.assetId)).Nodup ∧ (bundle.placements.map (·.placementId)).Nodup ∧
        (bundle.placements.map (·.object)).Nodup := by
    intro bundle
    simp only [Distinct, List.flatMap_singleton]
    rfl
  rw [pairwise_apart_iff]
  simp only [hone]
  unfold Distinct
  dsimp only
  rw [hplacements, List.nodup_map_flatMap, List.nodup_map_flatMap, List.nodup_map_flatMap]
  constructor
  · rintro ⟨⟨ha, ha'⟩, ⟨hp, hp'⟩, ho, ho'⟩
    exact ⟨fun b hb => ⟨ha b hb, hp b hb, ho b hb⟩, ha', hp', ho'⟩
  · rintro ⟨h, ha', hp', ho'⟩
    exact ⟨⟨fun b hb => (h b hb).1, ha'⟩, ⟨fun b hb => (h b hb).2.1, hp'⟩, fun b hb => (h b hb).2.2, ho'⟩

theorem distinct_cons_iff {bundle : ResourceBundle} {bundles : List ResourceBundle} :
    Distinct (bundle :: bundles) ↔
      Distinct [bundle] ∧ Distinct bundles ∧ ∀ bundle' ∈ bundles, bundle.Apart bundle' := by
  rw [distinct_iff_pairwise, @distinct_iff_pairwise bundles, List.forall_mem_cons, List.pairwise_cons]
  tauto

/-- Bundles are stored exactly where each passes the checks and they share nothing with each other or
with rows of other ids. A row that one of them replaces shares nothing with the rest. -/
theorem foldlM_putBundle_iff {bundles : List ResourceBundle} {rows : ServiceRows}
    (hids : (bundles.map (·.resource.resourceId)).Nodup) (hrows : Distinct rows.resources.rows)
    (hreplaced : ∀ bundle ∈ bundles, ∀ bundle' ∈ bundles,
      bundle.resource.resourceId ≠ bundle'.resource.resourceId →
      ∀ row, rows.resources[bundle.resource.resourceId]? = some row → bundle'.Apart row) :
    (∃ rows', bundles.foldlM (fun rows bundle => putBundle bundle rows) rows = .ok rows') ↔
      (∀ bundle ∈ bundles, Storable rows.locations bundle) ∧ Distinct bundles ∧
        ∀ bundle ∈ bundles, ∀ (id : String) (row : ResourceBundle), rows.resources[id]? = some row →
          id ≠ bundle.resource.resourceId → bundle.Apart row := by
  induction bundles generalizing rows with
  | nil => simp [pure, Except.pure, Distinct]
  | cons bundle bundles ih =>
    rw [List.map_cons, List.nodup_cons] at hids
    have hne : ∀ b ∈ bundles, b.resource.resourceId ≠ bundle.resource.resourceId := fun b hb he =>
      hids.1 (he ▸ List.mem_map_of_mem hb)
    have hperm := Map.perm_rows_insert rows.resources bundle.resource.resourceId bundle
    have herased : (rows.resources.erase bundle.resource.resourceId).insert bundle.resource.resourceId
        bundle = rows.resources.insert bundle.resource.resourceId bundle := by
      refine Map.ext fun id => ?_
      rw [Map.get_insert, Map.get_insert, Map.get_erase]
      split <;> rfl
    have hlist : ∀ row, row ∈ Map.rows (rows.resources.erase bundle.resource.resourceId) ↔
        ∃ id : String, rows.resources[id]? = some row ∧ id ≠ bundle.resource.resourceId := by
      intro row
      rw [Map.mem_rows]
      refine exists_congr fun id => ?_
      rw [Map.get_erase]
      split <;> simp_all [eq_comm]
    have hleft : Distinct (Map.rows (rows.resources.erase bundle.resource.resourceId)) := by
      cases hold : rows.resources[bundle.resource.resourceId]? with
      | none => rwa [Map.erase_of_get hold]
      | some row =>
        have hsplit := Map.perm_rows_insert rows.resources bundle.resource.resourceId row
        rw [Map.insert_of_get hold] at hsplit
        exact ((Distinct.perm hsplit).mp hrows).sublist (List.sublist_cons_self _ _)
    have hput : ∀ rows1, putBundle bundle rows = .ok rows1 ↔ (Storable rows.locations bundle ∧
        Distinct [bundle] ∧ ∀ (id : String) (row : ResourceBundle), rows.resources[id]? = some row →
          id ≠ bundle.resource.resourceId → bundle.Apart row) ∧
        rows1 = { rows with resources := rows.resources.insert bundle.resource.resourceId bundle } := by
      intro rows1
      rw [putBundle_iff, distinct_cons_iff, herased]
      simp only [hlist, hleft, true_and]
      constructor
      · rintro ⟨hs, ⟨hd, hapart⟩, rfl⟩
        exact ⟨⟨hs, hd, fun id row hrow hid => hapart row ⟨id, hrow, hid⟩⟩, rfl⟩
      · rintro ⟨⟨hs, hd, hapart⟩, rfl⟩
        refine ⟨hs, ⟨hd, fun row hrow => ?_⟩, rfl⟩
        obtain ⟨id, hrow, hid⟩ := hrow
        exact hapart id row hrow hid
    -- The rows that the rest of the bundles finds.
    have hget : ∀ id : String, (rows.resources.insert bundle.resource.resourceId bundle)[id]? =
        if bundle.resource.resourceId = id then some bundle else rows.resources[id]? :=
      fun id => Map.get_insert _ _ _ _
    have hrest : Distinct [bundle] → (∀ (id : String) (row : ResourceBundle),
        rows.resources[id]? = some row → id ≠ bundle.resource.resourceId → bundle.Apart row) →
        Distinct (Map.rows (rows.resources.insert bundle.resource.resourceId bundle)) := by
      intro hd hapart
      refine (Distinct.perm hperm).mpr (distinct_cons_iff.mpr ⟨hd, hleft, fun row hrow => ?_⟩)
      obtain ⟨id, hid, hidne⟩ := (hlist row).mp hrow
      exact hapart id row hid hidne
    have hreplaced' : ∀ b ∈ bundles, ∀ b' ∈ bundles, b.resource.resourceId ≠ b'.resource.resourceId →
        ∀ row, (rows.resources.insert bundle.resource.resourceId bundle)[b.resource.resourceId]? =
          some row → b'.Apart row := by
      intro b hb b' hb' hbb row hrow
      rw [hget, if_neg (hne b hb).symm] at hrow
      exact hreplaced b (List.mem_cons_of_mem _ hb) b' (List.mem_cons_of_mem _ hb') hbb row hrow
    have hapartRest : (∀ b ∈ bundles, ∀ (id : String) (row : ResourceBundle),
        (rows.resources.insert bundle.resource.resourceId bundle)[id]? = some row →
          id ≠ b.resource.resourceId → b.Apart row) ↔
        (∀ b ∈ bundles, b.Apart bundle) ∧ ∀ b ∈ bundles, ∀ (id : String) (row : ResourceBundle),
          rows.resources[id]? = some row → id ≠ b.resource.resourceId → b.Apart row := by
      constructor
      · refine fun h => ⟨fun b hb => ?_, fun b hb id row hrow hid => ?_⟩
        · exact h b hb bundle.resource.resourceId bundle (by rw [hget, if_pos rfl]) (hne b hb).symm
        · by_cases he : bundle.resource.resourceId = id
          · subst he
            exact hreplaced bundle List.mem_cons_self b (List.mem_cons_of_mem _ hb) hid row hrow
          · exact h b hb id row (by rw [hget, if_neg he]; exact hrow) hid
      · rintro ⟨hfirst, h⟩ b hb id row hrow hid
        rw [hget] at hrow
        split at hrow
        · cases hrow
          exact hfirst b hb
        · exact h b hb id row hrow hid
    rw [List.foldlM_cons, List.forall_mem_cons, List.forall_mem_cons, @distinct_cons_iff bundle bundles]
    constructor
    · rintro ⟨rows', h⟩
      cases hone : putBundle bundle rows with
      | error e =>
        rw [hone] at h
        cases h
      | ok rows1 =>
        rw [hone] at h
        obtain ⟨⟨hs, hd, hapart⟩, rfl⟩ := (hput rows1).mp hone
        obtain ⟨hall, hdistinct, hothers⟩ := (ih hids.2 (hrest hd hapart) hreplaced').mp ⟨rows', h⟩
        obtain ⟨hfirst, hothers⟩ := hapartRest.mp hothers
        exact ⟨⟨hs, hall⟩, ⟨hd, hdistinct, fun b hb => symm (hfirst b hb)⟩, hapart, hothers⟩
    · rintro ⟨⟨hs, hall⟩, ⟨hd, hdistinct, hfirst⟩, hapart, hothers⟩
      rw [(hput _).mpr ⟨⟨hs, hd, hapart⟩, rfl⟩]
      exact (ih hids.2 (hrest hd hapart) hreplaced').mpr ⟨hall, hdistinct,
        hapartRest.mpr ⟨fun b hb => symm (hfirst b hb), hothers⟩⟩

end ResourceRepo

theorem distinct_iff {bundles : List ResourceBundle} :
    IdsPass ⟨[], []⟩ (bundles.flatMap (·.assets)) ∧ ResourceRepo.Distinct bundles ↔
      (∀ bundle ∈ bundles, IdsPass ⟨[], []⟩ bundle.assets ∧ (bundle.placements.map (·.object)).Nodup) ∧
        bundles.Pairwise ResourceBundle.Apart := by
  have hplacements : (bundles.flatMap (·.assets)).flatMap (·.placements) =
      bundles.flatMap (·.placements) := List.flatMap_assoc
  have hobject : (fun p : Placement => (p.locationId, p.objectKey)) = Placement.object := rfl
  rw [pairwise_apart_iff]
  constructor
  · rintro ⟨hids, hassets, hplacementIds, hobjects⟩
    rw [hplacements] at hplacementIds hobjects
    rw [hobject] at hobjects
    rw [List.nodup_map_flatMap] at hassets hplacementIds hobjects
    have hp : ∀ bundle ∈ bundles, ∀ p ∈ bundle.placements,
        p ∈ (bundles.flatMap (·.assets)).flatMap (·.placements) := fun bundle hb p hp =>
      hplacements ▸ List.mem_flatMap.mpr ⟨bundle, hb, hp⟩
    refine ⟨fun bundle hb => ⟨⟨⟨hassets.1 bundle hb, by simp⟩, fun a ha => ?_,
      ⟨hplacementIds.1 bundle hb, by simp⟩, fun p h => hids.stored p (hp bundle hb p h)⟩,
      hobjects.1 bundle hb⟩, hassets.2, hplacementIds.2, hobjects.2⟩
    exact hids.hashes a (List.mem_flatMap.mpr ⟨bundle, hb, ha⟩)
  · rintro ⟨hall, hassets, hplacementIds, hobjects⟩
    have ha := List.nodup_map_flatMap.mpr ⟨fun b hb => (hall b hb).1.fresh.1, hassets⟩
    have hp := List.nodup_map_flatMap.mpr ⟨fun b hb => (hall b hb).1.freshPlacements.1, hplacementIds⟩
    have ho := List.nodup_map_flatMap.mpr ⟨fun b hb => (hall b hb).2, hobjects⟩
    rw [← hplacements] at ho
    change ((bundles.flatMap (·.placements)).map (·.placementId)).Nodup at hp
    rw [← hplacements] at hp
    refine ⟨⟨⟨ha, by simp⟩, fun a hmem => ?_, ⟨hp, by simp⟩, fun p hmem => ?_⟩, ha, hp, ho⟩
    · obtain ⟨b, hb, hab⟩ := List.mem_flatMap.mp hmem
      exact (hall b hb).1.hashes a hab
    · rw [hplacements] at hmem
      obtain ⟨b, hb, hpb⟩ := List.mem_flatMap.mp hmem
      exact (hall b hb).1.stored p hpb

/-- Every manifest of the tree is accepted, and no two of them share anything. -/
structure ManifestsPass (env : RebuildEnv K) (work : Tree) (locations : List String) : Prop where
  each : ∀ path ∈ work, ManifestFile path →
    ∃ bundle, ManifestAt env work path bundle ∧ bundle.Fits locations
  apart : ∀ path ∈ work, ∀ path' ∈ work, ManifestFile path → ManifestFile path' → path ≠ path' →
    ∀ bundle bundle', ManifestAt env work path bundle → ManifestAt env work path' bundle' →
      bundle.Apart bundle'

section
variable {env : RebuildEnv K} {work : Tree} {path : String} {bundle : ResourceBundle}

theorem requireNonEmpty_iff {value field : String} :
    requireNonEmpty value field = .ok () ↔ value ≠ "" := by
  unfold requireNonEmpty
  by_cases h : value = "" <;> simp [String.isEmpty_iff, h]

theorem bind_unit_iff {α : Type} {x : Except Exn Unit} {f : Unit → Except Exn α} {a : α} :
    (x >>= f) = .ok a ↔ x = .ok () ∧ f () = .ok a := by
  cases x <;> simp [bind, Except.bind]

theorem parsePlacement_iff {placement : Placement} : parsePlacement placement = .ok () ↔
    placement.placementId ≠ "" ∧ placement.locationId ≠ "" ∧ placement.objectKey ≠ "" ∧
      placement.encoding ≠ "" ∧ 0 ≤ placement.storedByteSize := by
  unfold parsePlacement
  simp only [bind_unit_iff, requireNonEmpty_iff]
  refine and_congr_right fun _ => and_congr_right fun _ => and_congr_right fun _ =>
    and_congr_right fun _ => ?_
  by_cases h : placement.storedByteSize < 0
  · simp [h, throw, throwThe, MonadExceptOf.throw]
  · simp [h, pure, Except.pure, Int.not_lt.mp h]

theorem parseAsset_iff {asset : Asset} : parseAsset asset = .ok () ↔
    asset.assetId ≠ "" ∧ asset.plaintextSha256 ≠ "" ∧ 0 ≤ asset.byteSize ∧
      ∀ placement ∈ asset.placements, parsePlacement placement = .ok () := by
  unfold parseAsset
  simp only [bind_unit_iff, requireNonEmpty_iff]
  refine and_congr_right fun _ => and_congr_right fun _ => ?_
  rw [← forM_ok_iff]
  by_cases h : asset.byteSize < 0
  · simp [h, throw, throwThe, MonadExceptOf.throw, bind, Except.bind]
  · simp [h, Int.not_lt.mp h]

/-- The fields that the parser of a manifest asks for. -/
structure ResourceBundle.Stated (bundle : ResourceBundle) : Prop where
  identity : bundle.resource.resourceId ≠ "" ∧ bundle.resource.projectId ≠ "" ∧
    bundle.resource.type ≠ "" ∧ bundle.resource.label ≠ ""
  assets : ∀ asset ∈ bundle.assets, parseAsset asset = .ok ()

/-- The assets and placements under their owners. -/
def ResourceBundle.owned (bundle : ResourceBundle) : ResourceBundle :=
  { bundle with assets := bundle.assets.map (ownedAsset bundle.resource.resourceId) }

theorem parseResourceManifest_iff {text : Bytes} :
    parseResourceManifest env text = .ok bundle ↔
      ∃ loaded, env.loadResourceManifest text = .ok loaded ∧ loaded.Stated ∧ bundle = loaded.owned := by
  unfold parseResourceManifest
  cases env.loadResourceManifest text with
  | error e => simp [bind, Except.bind]
  | ok loaded =>
    simp only [Except.ok.injEq, exists_eq_left']
    change (requireNonEmpty loaded.resource.resourceId "resource_id" >>= fun _ => _) = _ ↔ _
    simp only [bind_unit_iff, requireNonEmpty_iff, forM_ok_iff]
    constructor
    · rintro ⟨hid, hproj, htype, hlabel, hassets, h⟩
      cases h
      exact ⟨⟨⟨hid, hproj, htype, hlabel⟩, hassets⟩, rfl⟩
    · rintro ⟨⟨⟨hid, hproj, htype, hlabel⟩, hassets⟩, rfl⟩
      exact ⟨hid, hproj, htype, hlabel, hassets, rfl⟩

theorem readManifest_iff {α : Type} {parse : Bytes → Except Exn α} {a : α} :
    readManifest env work parse path = .ok a ↔
      ∃ plain, decodeBlobForProject env.toEnv (work[path]?.getD []) = .ok plain ∧ parse plain = .ok a := by
  unfold readManifest
  cases decodeBlobForProject env.toEnv (work[path]?.getD []) with
  | error e => simp [bind, Except.bind]
  | ok plain =>
    simp only [bind, Except.bind, Except.ok.injEq, exists_eq_left']
    cases parse plain with
    | error e => simp
    | ok b => simp

theorem ManifestAt.storable_iff {locations : Map String Location} (h : ManifestAt env work path bundle) :
    ResourceRepo.Storable locations bundle ↔
      (∀ property ∈ bundle.resource.metadata, property.1 ≠ "") ∧
        ∀ placement ∈ bundle.placements, placement.locationId ∈ locations := by
  refine ⟨fun hs => ⟨hs.properties, hs.located⟩, fun ⟨hproperties, hlocated⟩ => ?_⟩
  obtain ⟨plain, -, hparse⟩ := readManifest_iff.mp h.read
  obtain ⟨loaded, -, hstated, rfl⟩ := parseResourceManifest_iff.mp hparse
  refine ⟨hstated.identity, hproperties, fun a ha => ?_, fun a ha p hp => ?_, hlocated⟩
  · obtain ⟨asset, hmem, rfl⟩ := List.mem_map.mp ha
    obtain ⟨hid, hsha, hsize, -⟩ := parseAsset_iff.mp (hstated.assets asset hmem)
    simp [ResourceRepo.validAsset, ownedAsset, ResourceBundle.owned, hid, hsha, hsize]
  · obtain ⟨asset, hmem, rfl⟩ := List.mem_map.mp ha
    obtain ⟨placement, hplacement, rfl⟩ := List.mem_map.mp hp
    obtain ⟨-, -, -, hall⟩ := parseAsset_iff.mp (hstated.assets asset hmem)
    obtain ⟨hpid, hloc, hkey, henc, hsize⟩ := parsePlacement_iff.mp (hall placement hplacement)
    simp [ResourceRepo.validPlacement, ownedAsset, hpid, hloc, hkey, henc, hsize]

theorem ManifestAt.unique {path' : String} {bundle' : ResourceBundle}
    (h : ManifestAt env work path bundle) (h' : ManifestAt env work path' bundle')
    (he : bundle.resource.resourceId = bundle'.resource.resourceId) : path = path' := by
  have hpath := h.path
  rw [he, h'.path, Except.ok.injEq] at hpath
  exact hpath.symm

theorem mem_resourceManifests (hdir : ∀ paths, (env.directoryOrder paths).Perm paths) :
    path ∈ collectManifests env.toEnv work "resources" ↔ path ∈ work ∧ ManifestFile path :=
  mem_collectManifests hdir

theorem nodup_collectManifests (hdir : ∀ paths, (env.directoryOrder paths).Perm paths) (base : String) :
    (collectManifests env.toEnv work base).Nodup :=
  (hdir _).nodup_iff.mpr (Std.ExtTreeMap.nodup_keys.filter _)

theorem mem_storedLocations {locations : List Location} {id : String} (m : Map String Location) :
    id ∈ locations.foldl (fun stored location => stored.insert location.locationId location) m ↔
      id ∈ locations.map (·.locationId) ∨ id ∈ m := by
  induction locations generalizing m with
  | nil => simp
  | cons location locations ih =>
    have hid : compare location.locationId id = .eq ↔ id = location.locationId :=
      compare_eq_iff_eq.trans eq_comm
    rw [List.foldl_cons, ih, Std.ExtTreeMap.mem_insert, hid, List.map_cons, List.mem_cons,
      or_left_comm, or_assoc]

/-- The rows of resources of other projects. -/
def othersRows (env : RebuildEnv K) (rows : ServiceRows) : Map String ResourceBundle :=
  rows.resources.filter fun _ bundle => bundle.resource.projectId != env.project.projectId

theorem get_othersRows {rows : ServiceRows} {id : String} {row : ResourceBundle} :
    (othersRows env rows)[id]? = some row ↔
      rows.resources[id]? = some row ∧ row.resource.projectId ≠ env.project.projectId := by
  rw [othersRows, Map.get_filter, Option.filter_eq_some_iff, bne_iff_ne]

/-- What the database has of other projects beside a tree: rows that keep to the constraints, none of a
resource that has a manifest in the tree, and no object at a location of the tree. -/
structure OthersApart (env : RebuildEnv K) (rows : ServiceRows) (work : Tree) : Prop where
  distinct : ResourceRepo.Distinct (othersRows env rows).rows
  resources : ∀ path ∈ work, ManifestFile path → ∀ bundle, ManifestAt env work path bundle →
    (othersRows env rows)[bundle.resource.resourceId]? = none
  locations : ∀ locations, rebuildLocations env work = .ok locations → ∀ location ∈ locations,
    ∀ row ∈ (othersRows env rows).rows, ∀ placement ∈ row.placements,
      placement.locationId ≠ location.locationId

/-- A manifest of the tree that replaces another project's row, with which the rest of the tree shares
nothing. -/
def Replaceable (env : RebuildEnv K) (rows : ServiceRows) (work : Tree) : Prop :=
  ∀ path ∈ work, ∀ path' ∈ work, ManifestFile path → ManifestFile path' → path ≠ path' →
    ∀ bundle bundle', ManifestAt env work path bundle → ManifestAt env work path' bundle' →
      ∀ row, (othersRows env rows)[bundle.resource.resourceId]? = some row → bundle'.Apart row

theorem OthersApart.replaceable {rows : ServiceRows} (h : OthersApart env rows work) :
    Replaceable env rows work := by
  intro path hpath path' _ hfile _ _ bundle bundle' hb _ row hrow
  rw [h.resources path hpath hfile bundle hb] at hrow
  cases hrow

theorem deleteResources_ok {rows others : ServiceRows} (h : deleteResources env rows = .ok others) :
    others.resources = othersRows env rows := by
  unfold deleteResources at h
  dsimp only at h
  split at h
  · cases h
  · cases h
    rfl

theorem forall₂_of_exists {α β : Type} {R : α → β → Prop} {as : List α} (h : ∀ a ∈ as, ∃ b, R a b) :
    ∃ bs, List.Forall₂ R as bs := by
  induction as with
  | nil => exact ⟨[], .nil⟩
  | cons a as ih =>
    obtain ⟨b, hb⟩ := h a List.mem_cons_self
    obtain ⟨bs, hbs⟩ := ih fun a' ha' => h a' (List.mem_cons_of_mem _ ha')
    exact ⟨b :: bs, .cons hb hbs⟩

theorem ManifestAt.functional {path : String} {bundle bundle' : ResourceBundle}
    (h : ManifestAt env work path bundle) (h' : ManifestAt env work path bundle') : bundle = bundle' := by
  have he := h.read
  rw [h'.read, Except.ok.injEq] at he
  exact he.symm

section
variable {bundles : List ResourceBundle} {locations : List String}
  (hdir : ∀ paths, (env.directoryOrder paths).Perm paths)
  (hall : List.Forall₂ (ManifestAt env work) (collectManifests env.toEnv work "resources") bundles)
include hdir hall

/-- The manifests that are read are those of the tree, one for each resource. -/
theorem readBundles_mem : (bundles.map (·.resource.resourceId)).Nodup ∧
    ∀ bundle, bundle ∈ bundles ↔
      ∃ path ∈ work, ManifestFile path ∧ ManifestAt env work path bundle := by
  refine ⟨List.Forall₂.nodup_map hall (nodup_collectManifests hdir _) fun _ _ _ _ => ManifestAt.unique,
    fun bundle => ⟨fun hb => ?_, ?_⟩⟩
  · obtain ⟨path, hpath, hat⟩ := List.Forall₂.exists_left hall hb
    obtain ⟨hwork, hfile⟩ := (mem_resourceManifests hdir).mp hpath
    exact ⟨path, hwork, hfile, hat⟩
  · rintro ⟨path, hpath, hfile, hat⟩
    obtain ⟨b, hb, hat'⟩ :=
      List.Forall₂.exists_right hall ((mem_resourceManifests hdir).mpr ⟨hpath, hfile⟩)
    exact hat.functional hat' ▸ hb

theorem readBundles_pass : ManifestsPass env work locations ↔
    (∀ bundle ∈ bundles, bundle.Fits locations) ∧ bundles.Pairwise ResourceBundle.Apart := by
  obtain ⟨hids, hbundles⟩ := readBundles_mem hdir hall
  constructor
  · rintro ⟨heach, hapart⟩
    refine ⟨fun b hb => ?_, (List.Nodup.of_map _ hids).pairwise_of_forall_ne fun b hb b' hb' hne => ?_⟩
    · obtain ⟨path, hpath, hfile, hat⟩ := (hbundles b).mp hb
      obtain ⟨b', hat', hfits⟩ := heach path hpath hfile
      exact hat'.functional hat ▸ hfits
    · obtain ⟨path, hpath, hfile, hat⟩ := (hbundles b).mp hb
      obtain ⟨path', hpath', hfile', hat'⟩ := (hbundles b').mp hb'
      refine hapart path hpath path' hpath' hfile hfile' ?_ b b' hat hat'
      rintro rfl
      exact hne (hat.functional hat')
  · rintro ⟨hfits, hapart⟩
    refine ⟨fun path hpath hfile => ?_, fun path hpath path' hpath' hfile hfile' hne b b' hb hb' => ?_⟩
    · obtain ⟨b, hb, hat⟩ :=
        List.Forall₂.exists_right hall ((mem_resourceManifests hdir).mpr ⟨hpath, hfile⟩)
      exact ⟨b, hat, hfits b hb⟩
    · refine hapart.forall ((hbundles b).mpr ⟨path, hpath, hfile, hb⟩)
        ((hbundles b').mpr ⟨path', hpath', hfile', hb'⟩) ?_
      rintro rfl
      exact hne (hb.unique hb' rfl)

end

/-- The rebuild of the resources succeeds exactly where the project's rows can be deleted, the locations
are read and the manifests pass and share nothing with the rows of other projects. -/
theorem rebuildResources_iff (hdir : ∀ paths, (env.directoryOrder paths).Perm paths) {rows : ServiceRows}
    (hdistinct : ResourceRepo.Distinct (othersRows env rows).rows) (hreplaced : Replaceable env rows work) :
    (∃ rows', rebuildResources env rows work = .ok rows') ↔
      (∃ others, deleteResources env rows = .ok others) ∧
      (∃ locations, rebuildLocations env work = .ok locations ∧
        ManifestsPass env work (locations.map (·.locationId))) ∧
      ∀ path ∈ work, ManifestFile path → ∀ bundle, ManifestAt env work path bundle →
        ∀ (id : String) (row : ResourceBundle), (othersRows env rows)[id]? = some row →
          id ≠ bundle.resource.resourceId → bundle.Apart row := by
  unfold rebuildResources
  cases hdelete : deleteResources env rows with
  | error e => simp [bind, Except.bind]
  | ok others =>
  have hothers := deleteResources_ok hdelete
  cases hlocations : rebuildLocations env work with
  | error e => simp [bind, Except.bind]
  | ok locations =>
  simp only [Except.ok.injEq, exists_eq_left', exists_eq', true_and]
  have hapart : ∀ bundles, List.Forall₂ (ManifestAt env work)
      (collectManifests env.toEnv work "resources") bundles →
      ((∀ path ∈ work, ManifestFile path → ∀ bundle, ManifestAt env work path bundle →
        ∀ (id : String) (row : ResourceBundle), (othersRows env rows)[id]? = some row →
          id ≠ bundle.resource.resourceId → bundle.Apart row) ↔
        ∀ bundle ∈ bundles, ∀ (id : String) (row : ResourceBundle), others.resources[id]? = some row →
          id ≠ bundle.resource.resourceId → bundle.Apart row) := by
    intro bundles hall
    rw [hothers]
    constructor
    · intro h bundle hb
      obtain ⟨path, hpath, hfile, hat⟩ := ((readBundles_mem hdir hall).2 bundle).mp hb
      exact h path hpath hfile bundle hat
    · intro h path hpath hfile bundle hat
      exact h bundle (((readBundles_mem hdir hall).2 bundle).mpr ⟨path, hpath, hfile, hat⟩)
  cases hbundles : rebuildBundles env work ⟨[], []⟩ (collectManifests env.toEnv work "resources") with
  | error e =>
    refine iff_of_false (by simp [bind, Except.bind]) ?_
    rintro ⟨hpass, -⟩
    obtain ⟨bundles, hall⟩ := forall₂_of_exists fun path hpath =>
      (hpass.each path ((mem_resourceManifests hdir).mp hpath).1
        ((mem_resourceManifests hdir).mp hpath).2).imp fun _ h => h.1
    obtain ⟨hfits, hpairs⟩ := (readBundles_pass hdir hall).mp hpass
    have hids := (distinct_iff.mpr ⟨fun b hb => ⟨(hfits b hb).ids, (hfits b hb).objects⟩, hpairs⟩).1
    rw [rebuildBundles_iff.mpr ⟨hall, hids⟩] at hbundles
    cases hbundles
  | ok bundles =>
    obtain ⟨hall, hids⟩ := rebuildBundles_iff.mp hbundles
    have hstored : ∀ id ∈ locations.map (·.locationId), id ∈ locations.foldl (fun stored location =>
        stored.insert location.locationId location) others.locations :=
      fun id hid => (mem_storedLocations _).mpr (.inl hid)
    have hfold := @ResourceRepo.foldlM_putBundle_iff bundles { others with
      locations := locations.foldl (fun stored location => stored.insert location.locationId location)
        others.locations } (readBundles_mem hdir hall).1 (hothers ▸ hdistinct) fun b hb b' hb' hne row hrow => by
          obtain ⟨path, hpath, hfile, hat⟩ := ((readBundles_mem hdir hall).2 b).mp hb
          obtain ⟨path', hpath', hfile', hat'⟩ := ((readBundles_mem hdir hall).2 b').mp hb'
          refine hreplaced path hpath path' hpath' hfile hfile' ?_ b b' hat hat' row (hothers ▸ hrow)
          rintro rfl
          exact hne (congrArg (·.resource.resourceId) (hat.functional hat'))
    rw [readBundles_pass hdir hall, hapart bundles hall]
    change (∃ rows', (bundles.forM (checkLocations locations) >>= fun _ => bundles.foldlM
      (fun rows bundle => ResourceRepo.putBundle bundle rows) _) = .ok rows') ↔ _
    simp only [bind_unit_iff, exists_and_left, forM_ok_iff, checkLocations_iff]
    rw [hfold]
    constructor
    · rintro ⟨hlocated, hstorable, hdistinct, hothers⟩
      obtain ⟨hfits, hpairs⟩ := distinct_iff.mp ⟨hids, hdistinct⟩
      exact ⟨⟨fun b hb => ⟨(hfits b hb).1, (hstorable b hb).properties, hlocated b hb,
        (hfits b hb).2⟩, hpairs⟩, hothers⟩
    · rintro ⟨⟨hfits, hpairs⟩, hothers⟩
      refine ⟨fun b hb => (hfits b hb).located, fun b hb => ?_, (distinct_iff.mpr
        ⟨fun b hb => ⟨(hfits b hb).ids, (hfits b hb).objects⟩, hpairs⟩).2, hothers⟩
      obtain ⟨path, -, hat⟩ := List.Forall₂.exists_left hall hb
      exact hat.storable_iff.mpr ⟨(hfits b hb).properties, fun p hp =>
        hstored _ ((hfits b hb).located p hp)⟩

end

end HolderCore
