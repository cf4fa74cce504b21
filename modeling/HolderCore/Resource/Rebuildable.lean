import HolderCore.Project.Agree
import HolderCore.Resource.Repair

/-! # Which resource writes keep a project rebuildable

A manifest is rendered, written and committed before the statements check it, and a rebuild checks more
than the renderer does. -/

namespace HolderCore

/-- A rebuild of the working tree into the database succeeds. -/
def Rebuildable [NatCast K] (env : RebuildEnv K) (rows : ServiceRows) (work : Tree) : Prop :=
  ∃ rows' db, rebuildTables env rows work = .ok (rows', db)

instance [NatCast K] (env : RebuildEnv K) (rows : ServiceRows) (work : Tree) :
    Decidable (Rebuildable env rows work) :=
  match h : rebuildTables env rows work with
  | .ok result => .isTrue ⟨result.1, result.2, h⟩
  | .error _ => .isFalse fun ⟨_, _, hok⟩ => by simp [h] at hok

section
variable [NatCast K] {env : RebuildEnv K} {rows rows' : ServiceRows} {work work' : Tree}

theorem rebuildable_iff : Rebuildable env rows work ↔
    (∃ stored, rebuildResources env rows work = .ok stored) ∧
      ∃ result, rebuildCardsAndMessages env rows.threads work = .ok result := by
  constructor
  · rintro ⟨rows', db, h⟩
    obtain ⟨stored, threads, rebuilt, hresources, hrest, -⟩ := rebuildTables_iff.mp h
    rw [rebuildResources_threads hresources] at hrest
    exact ⟨⟨stored, hresources⟩, _, hrest⟩
  · rintro ⟨⟨stored, hresources⟩, ⟨threads, rebuilt⟩, hrest⟩
    rw [← rebuildResources_threads hresources] at hrest
    exact ⟨_, _, rebuildTables_iff.mpr ⟨stored, threads, rebuilt, hresources, hrest, rfl⟩⟩

/-! ## The rows of other projects -/

/-- Rows that leave a rebuild the room that others left it: of the resources of other projects they have
no more, and no fewer but for the `replaced` ones. -/
structure OthersKept (env : RebuildEnv K) (rows rows' : ServiceRows) (replaced : String → Prop) : Prop where
  resources : ∀ (id : String) row, (othersRows env rows')[id]? = some row → (othersRows env rows)[id]? = some row
  kept : ∀ (id : String) row, (othersRows env rows)[id]? = some row → ¬ replaced id →
    (othersRows env rows')[id]? = some row
  deleted : ∃ others, deleteResources env rows' = .ok others
  threads : (rows'.threads.filter fun _ projectId => projectId != env.project.projectId) =
    rows.threads.filter fun _ projectId => projectId != env.project.projectId

omit [NatCast K] in
theorem distinct_of_subset {m m' : Map String ResourceBundle} (hd : ResourceRepo.Distinct (Map.rows m))
    (h : ∀ (id : String) row, m'[id]? = some row → m[id]? = some row) :
    ResourceRepo.Distinct (Map.rows m') := by
  have hfilter : m' = m.filter fun id _ => m'.contains id := by
    refine Map.ext fun id => Option.ext fun row => ?_
    rw [Map.get_filter, Option.filter_eq_some_iff, Std.ExtTreeMap.contains_iff_mem, Map.mem_iff]
    constructor
    · exact fun hrow => ⟨h id row hrow, row, hrow⟩
    · rintro ⟨hrow, row', hrow'⟩
      rw [hrow', ← h id row' hrow', hrow]
  refine hd.sublist ?_
  rw [hfilter, Map.rows, Map.rows, Std.ExtTreeMap.toList_filter]
  exact List.filter_sublist.map _

omit [NatCast K] in
theorem othersApart_of_none (hnone : othersRows env rows = ∅) : OthersApart env rows work := by
  refine ⟨?_, fun _ _ _ _ _ => ?_, fun _ _ _ _ row hrow => ?_⟩
  · rw [hnone]
    exact (by decide : ResourceRepo.Distinct [])
  · rw [hnone]
    rfl
  · rw [hnone] at hrow
    cases hrow

omit [NatCast K] in
theorem OthersKept.refl (env : RebuildEnv K) {rows : ServiceRows} (replaced : String → Prop)
    (h : ∃ others, deleteResources env rows = .ok others) : OthersKept env rows rows replaced :=
  ⟨fun _ _ h => h, fun _ _ h _ => h, h, rfl⟩

omit [NatCast K] in
theorem deleteResources_iff : (∃ others, deleteResources env rows = .ok others) ↔
    ∀ row ∈ (othersRows env rows).rows, ∀ placement ∈ row.placements, ∀ location,
      rows.locations[placement.locationId]? = some location →
        location.projectId ≠ env.project.projectId := by
  have hany : ((Map.rows (othersRows env rows)).flatMap (·.placements)).any (fun placement =>
      (rows.locations.filter fun _ location => location.projectId == env.project.projectId).contains
        placement.locationId) = false ↔ ∀ row ∈ (othersRows env rows).rows,
          ∀ placement ∈ row.placements, ∀ location, rows.locations[placement.locationId]? = some location →
            location.projectId ≠ env.project.projectId := by
    simp only [List.any_eq_false, List.mem_flatMap, forall_exists_index, and_imp,
      Std.ExtTreeMap.contains_iff_mem, Map.mem_iff, Map.get_filter, Option.filter_eq_some_iff,
      beq_iff_eq, not_exists, not_and]
    exact ⟨fun h row hrow p hp location hl => h p row hrow hp location hl,
      fun h p row hrow hp location hl => h row hrow p hp location hl⟩
  rw [← hany]
  unfold deleteResources
  change (∃ others, (if ((Map.rows (othersRows env rows)).flatMap (·.placements)).any _ then _ else _) =
    Except.ok others) ↔ _
  cases ((Map.rows (othersRows env rows)).flatMap (·.placements)).any (fun placement =>
      (rows.locations.filter fun _ location => location.projectId == env.project.projectId).contains
        placement.locationId) <;> simp

omit [NatCast K] in
/-- The threads of other projects after the rebuild of the project's own. -/
theorem rebuiltThreads_filter {ids : List String} {threads threads' : Map String String}
    (h : rebuiltThreads env ids threads = .ok threads') :
    (threads'.filter fun _ projectId => projectId != env.project.projectId) =
      threads.filter fun _ projectId => projectId != env.project.projectId := by
  have hgo : ∀ (ids : List String) (m m' : Map String String),
      ids.foldlM (fun (rows : Map String String) threadId =>
        if rows.contains threadId then Except.error (Exn.runtimeError "insert ai thread failed")
        else Except.ok (rows.insert threadId env.project.projectId)) m = .ok m' →
      (m'.filter fun _ projectId => projectId != env.project.projectId) =
        m.filter fun _ projectId => projectId != env.project.projectId := by
    intro ids
    induction ids with
    | nil =>
      intro m m' h
      cases h
      rfl
    | cons id ids ih =>
      intro m m' h
      rw [List.foldlM_cons] at h
      split at h
      · cases h
      next hnew =>
      rw [ih _ _ h]
      refine Map.ext fun k => ?_
      rw [Map.get_filter, Map.get_filter, Map.get_insert]
      split
      · next he =>
        subst he
        rw [Map.not_mem_iff.mp (by simpa using hnew)]
        simp
      · rfl
  rw [hgo ids _ _ h]
  refine Map.ext fun k => Option.ext fun v => ?_
  simp [Option.filter_eq_some_iff]

theorem rebuildCardsAndMessages_congr {threads threads' : Map String String}
    (h : (threads'.filter fun _ projectId => projectId != env.project.projectId) =
      threads.filter fun _ projectId => projectId != env.project.projectId) :
    rebuildCardsAndMessages env threads' work = rebuildCardsAndMessages env threads work := by
  unfold rebuildCardsAndMessages rebuiltThreads
  rw [h]

theorem OthersKept.messages {replaced : String → Prop} (h : OthersKept env rows rows' replaced) :
    rebuildCardsAndMessages env rows'.threads work = rebuildCardsAndMessages env rows.threads work :=
  rebuildCardsAndMessages_congr h.threads

omit [NatCast K] in
/-- A tree with no more manifests is rebuilt where other projects have no more rows. -/
theorem OthersApart.rebuildResources (hdir : ∀ paths, (env.directoryOrder paths).Perm paths)
    (hapart : OthersApart env rows work) {replaced : String → Prop}
    (hkept : OthersKept env rows rows' replaced) (hlocations : AgreeBelow "locations" work work')
    (hmanifests : ∀ path ∈ work', ManifestFile path → path ∈ work ∧ work'[path]? = work[path]?)
    (h : ∃ stored, HolderCore.rebuildResources env rows work = .ok stored) :
    ∃ stored, HolderCore.rebuildResources env rows' work' = .ok stored := by
  have hat : ∀ path ∈ work', ManifestFile path → ∀ bundle,
      ManifestAt env work' path bundle → path ∈ work ∧ ManifestAt env work path bundle :=
    fun path hpath hfile bundle hb =>
      ⟨(hmanifests path hpath hfile).1, (ManifestAt.congr (hmanifests path hpath hfile).2).mp hb⟩
  have hreplaced : Replaceable env rows' work' := by
    intro path hpath path' _ hfile _ _ bundle bundle' hb _ row hrow
    obtain ⟨hmem, hold⟩ := hat path hpath hfile bundle hb
    have hother := hkept.resources _ _ hrow
    rw [hapart.resources path hmem hfile bundle hold] at hother
    cases hother
  obtain ⟨-, ⟨locations, hlocs, hpass⟩, hothers⟩ :=
    (rebuildResources_iff hdir hapart.distinct hapart.replaceable).mp h
  refine (rebuildResources_iff hdir (distinct_of_subset hapart.distinct hkept.resources) hreplaced).mpr
    ⟨hkept.deleted, ⟨locations, hlocations.rebuildLocations hdir ▸ hlocs, fun path hpath hfile => ?_,
      fun path hpath path' hpath' hfile hfile' hne b b' hb hb' => ?_⟩,
      fun path hpath hfile b hb id row hrow hid => ?_⟩
  · obtain ⟨hmem, heq⟩ := hmanifests path hpath hfile
    obtain ⟨b, hb, hfits⟩ := hpass.each path hmem hfile
    exact ⟨b, (ManifestAt.congr heq).mpr hb, hfits⟩
  · obtain ⟨hmem, hb⟩ := hat path hpath hfile b hb
    obtain ⟨hmem', hb'⟩ := hat path' hpath' hfile' b' hb'
    exact hpass.apart path hmem path' hmem' hfile hfile' hne b b' hb hb'
  · obtain ⟨hmem, hb⟩ := hat path hpath hfile b hb
    exact hothers path hmem hfile b hb id row (hkept.resources id row hrow) hid

omit [NatCast K] in
theorem get_foldl_locations {locations : List Location} {m : Map String Location} {id : String}
    (h : ∀ location ∈ locations, id ≠ location.locationId) :
    (locations.foldl (fun stored location => stored.insert location.locationId location) m)[id]? =
      m[id]? := by
  induction locations generalizing m with
  | nil => rfl
  | cons location locations ih =>
    rw [List.forall_mem_cons] at h
    rw [List.foldl_cons, ih h.2, Map.get_insert_ne h.1.symm]

omit [NatCast K] in
theorem get_deletedLocations {others : ServiceRows} (h : deleteResources env rows = .ok others)
    {id : String} {location : Location} (hl : others.locations[id]? = some location) :
    rows.locations[id]? = some location ∧ location.projectId ≠ env.project.projectId := by
  unfold deleteResources at h
  dsimp only at h
  split at h
  · cases h
  · cases h
    rwa [Map.get_filter, Option.filter_eq_some_iff, bne_iff_ne] at hl

omit [NatCast K] in
/-- The rows of other projects after some of the project's bundles were stored. -/
theorem foldlM_putBundle_others {bundles : List ResourceBundle}
    (hown : ∀ bundle ∈ bundles, bundle.resource.projectId = env.project.projectId)
    (h : bundles.foldlM (fun rows bundle => ResourceRepo.putBundle bundle rows) rows = .ok rows') :
    rows'.locations = rows.locations ∧ ∀ (id : String) row, (othersRows env rows')[id]? = some row ↔
      (othersRows env rows)[id]? = some row ∧ ∀ bundle ∈ bundles, bundle.resource.resourceId ≠ id := by
  induction bundles generalizing rows with
  | nil =>
    cases h
    simp
  | cons bundle bundles ih =>
    rw [List.foldlM_cons] at h
    cases hput : ResourceRepo.putBundle bundle rows with
    | error e =>
      rw [hput] at h
      cases h
    | ok rows1 =>
      rw [hput] at h
      obtain ⟨-, -, rfl⟩ := ResourceRepo.putBundle_iff.mp hput
      rw [List.forall_mem_cons] at hown
      obtain ⟨hlocations, hothers⟩ := ih hown.2 h
      refine ⟨hlocations, fun id row => ?_⟩
      rw [hothers, List.forall_mem_cons, ← and_assoc]
      refine and_congr_left fun _ => ?_
      rw [get_othersRows, get_othersRows, Map.get_insert]
      split
      · next he =>
        simp only [Option.some.injEq, he, ne_eq, not_true_eq_false, and_false, iff_false]
        rintro ⟨rfl, hne⟩
        exact hne hown.1
      · next hne => rw [Map.get_erase, if_neg hne]; simp [hne]

/-- The rows of other projects after a rebuild: those whose resource has no manifest in the tree. -/
theorem rebuildTables_others (hdir : ∀ paths, (env.directoryOrder paths).Perm paths) {db : Db K}
    (hlocated : ∀ locations, rebuildLocations env work = .ok locations → ∀ location ∈ locations,
      ∀ row ∈ (othersRows env rows).rows, ∀ placement ∈ row.placements,
        placement.locationId ≠ location.locationId)
    (h : rebuildTables env rows work = .ok (rows', db)) :
    OthersKept env rows rows' fun id => ∃ path ∈ work, ManifestFile path ∧
      ∃ bundle, ManifestAt env work path bundle ∧ bundle.resource.resourceId = id := by
  obtain ⟨stored, threads, rebuilt, hresources, hrest, he⟩ := rebuildTables_iff.mp h
  obtain ⟨-, -, -, ids, -, -, -, -, -, -, hthreads⟩ := rebuildCardsAndMessages_iff.mp hrest
  obtain ⟨rfl, -⟩ := Prod.mk.inj he
  have hrows := rebuildResources_threads hresources
  unfold rebuildResources at hresources
  cases hdelete : deleteResources env rows with
  | error e => simp [hdelete, bind, Except.bind] at hresources
  | ok others =>
  cases hlocations : rebuildLocations env work with
  | error e => simp [hdelete, hlocations, bind, Except.bind] at hresources
  | ok locations =>
  cases hbundles : rebuildBundles env work ⟨[], []⟩ (collectManifests env.toEnv work "resources") with
  | error e => simp [hdelete, hlocations, hbundles, bind, Except.bind] at hresources
  | ok bundles =>
  simp only [hdelete, hlocations, hbundles, bind, Except.bind] at hresources
  split at hresources
  · cases hresources
  obtain ⟨hall, -⟩ := rebuildBundles_iff.mp hbundles
  have hown : ∀ bundle ∈ bundles, bundle.resource.projectId = env.project.projectId := by
    intro bundle hb
    obtain ⟨path, -, hat⟩ := List.Forall₂.exists_left hall hb
    exact hat.project
  obtain ⟨hlocs, hothers⟩ := foldlM_putBundle_others hown hresources
  have hsame : othersRows env { others with locations := locations.foldl (fun stored location =>
      stored.insert location.locationId location) others.locations } = othersRows env rows := by
    refine Map.ext fun id => Option.ext fun row => ?_
    rw [get_othersRows]
    change others.resources[id]? = some row ∧ _ ↔ _
    rw [deleteResources_ok hdelete, get_othersRows]
    tauto
  rw [hsame] at hothers
  refine ⟨fun id row hrow => ((hothers id row).mp hrow).1, fun id row hrow hno => ?_, ?_, ?_⟩
  · refine (hothers id row).mpr ⟨hrow, fun bundle hb he => hno ?_⟩
    obtain ⟨path, hpath, hat⟩ := List.Forall₂.exists_left hall hb
    obtain ⟨hmem, hfile⟩ := (mem_resourceManifests hdir).mp hpath
    exact ⟨path, hmem, hfile, bundle, hat, he⟩
  · refine deleteResources_iff.mpr fun row hrow placement hp location hl => ?_
    change stored.locations[placement.locationId]? = some location at hl
    rw [hlocs] at hl
    obtain ⟨id, hid⟩ := Map.mem_rows.mp hrow
    have hold := Map.mem_rows.mpr ⟨id, ((hothers id row).mp hid).1⟩
    -- The object is at no location of the tree, and the others belong to other projects.
    rw [get_foldl_locations fun l hl' => hlocated locations hlocations l hl' row hold placement hp] at hl
    exact (get_deletedLocations hdelete hl).2
  · exact (rebuiltThreads_filter hthreads).trans (by rw [hrows])

/-- The same of a rebuild that leaves the index of the search alone. -/
theorem rebuildTables_others_unindexed (hdir : ∀ paths, (env.directoryOrder paths).Perm paths) {db : Db K}
    (hlocated : ∀ locations, rebuildLocations env work = .ok locations → ∀ location ∈ locations,
      ∀ row ∈ (othersRows env rows).rows, ∀ placement ∈ row.placements,
        placement.locationId ≠ location.locationId)
    (h : rebuildTables { env with fts := false } rows work = .ok (rows', db)) :
    OthersKept env rows rows' fun id => ∃ path ∈ work, ManifestFile path ∧
      ∃ bundle, ManifestAt env work path bundle ∧ bundle.resource.resourceId = id := by
  have hkept : OthersKept { env with fts := false } rows rows' _ := rebuildTables_others hdir hlocated h
  refine ⟨hkept.resources, fun id row hrow hno => hkept.kept id row hrow ?_, hkept.deleted, hkept.threads⟩
  rintro ⟨path, hpath, hfile, bundle, hb, he⟩
  exact hno ⟨path, hpath, hfile, bundle, ⟨hb.read, hb.path, hb.project⟩, he⟩

/-! ## A written manifest -/

/-- A call that gets to write its manifest. -/
structure ResourceBundle.Writes (env : RebuildEnv K) (bundle : ResourceBundle) (path : String)
    (plain : Bytes) : Prop where
  project : bundle.resource.projectId = env.project.projectId
  path : resourceRelPath bundle.resource.resourceId = .ok path
  render : renderResourceManifest env.toServiceEnv bundle = .ok plain
  encode : CanEncode env.toEnv

/-- A bundle that the parser, the tables, the other manifests of the tree and the rows of other projects
leave room for. -/
structure ResourceBundle.Accepted (env : RebuildEnv K) (rows : ServiceRows) (work : Tree) (path : String)
    (bundle : ResourceBundle) : Prop where
  stated : bundle.Stated
  fits : ∀ locations, rebuildLocations env work = .ok locations →
    bundle.Fits (locations.map (·.locationId))
  apart : ∀ path' ∈ work, ManifestFile path' → path' ≠ path →
    ∀ bundle', ManifestAt env work path' bundle' → bundle.Apart bundle'
  others : ∀ (id : String) row, (othersRows env rows)[id]? = some row →
    id ≠ bundle.resource.resourceId → bundle.Apart row

omit [NatCast K] in
/-- What the renderer checks. -/
theorem renderResourceManifest_ok {env : ServiceEnv K} {bundle : ResourceBundle} {plain : Bytes}
    (h : renderResourceManifest env bundle = .ok plain) :
    plain = env.dumpManifest bundle ∧ bundle.owned = bundle ∧
      (bundle.resource.resourceId ≠ "" ∧ bundle.resource.projectId ≠ "" ∧
        bundle.resource.type ≠ "" ∧ bundle.resource.label ≠ "") := by
  unfold renderResourceManifest at h
  simp only [bind, Except.bind, throw, throwThe, MonadExceptOf.throw, pure, Except.pure] at h
  split at h
  · cases h
  next hid =>
  split at h
  · cases h
  next hproject =>
  split at h
  · cases h
  next htype =>
  split at h
  · cases h
  next hlabel =>
  split at h
  · cases h
  next hassets =>
  cases h
  refine ⟨rfl, ?_, by simpa [String.isEmpty_iff] using hid, by simpa [String.isEmpty_iff] using hproject,
    by simpa [String.isEmpty_iff] using htype, by simpa [String.isEmpty_iff] using hlabel⟩
  have howned : ∀ asset ∈ bundle.assets, ownedAsset bundle.resource.resourceId asset = asset := by
    intro asset hasset
    have hchecked := forM_ok_iff.mp hassets asset hasset
    split at hchecked
    · cases hchecked
    next hid =>
    split at hchecked
    · cases hchecked
    next hplacements =>
    have hids : asset.placements.map (fun p => { p with assetId := asset.assetId }) = asset.placements := by
      conv_rhs => rw [← List.map_id asset.placements]
      refine List.map_congr_left fun p hp => ?_
      have hmatch : p.assetId = asset.assetId := by
        by_contra hne
        exact hplacements (List.any_eq_true.mpr ⟨p, hp, by simpa using hne⟩)
      rw [← hmatch]
      rfl
    rw [ownedAsset, hids, ← not_not.mp hid]
  have hmap : bundle.assets.map (ownedAsset bundle.resource.resourceId) = bundle.assets := by
    conv_rhs => rw [← List.map_id bundle.assets]
    exact List.map_congr_left fun asset hasset => howned asset hasset
  rw [ResourceBundle.owned, hmap]

end

section
variable [NatCast K] {env : RebuildEnv K} {s : SearchState K} {bundle : ResourceBundle} {path : String}
  {plain : Bytes}

omit [NatCast K] in
theorem ResourceBundle.Writes.unique {path' : String} {plain' : Bytes} (h : bundle.Writes env path plain)
    (h' : bundle.Writes env path' plain') : path' = path ∧ plain' = plain := by
  have hpath := h.path
  have hplain := h.render
  rw [h'.path, Except.ok.injEq] at hpath
  rw [h'.render, Except.ok.injEq] at hplain
  exact ⟨hpath, hplain⟩

/-- What a call leaves of the tree, whatever it ends with: the manifest, if it gets to write one. -/
def PutLeaves (env : RebuildEnv K) (bundle : ResourceBundle) (work work' : Tree) : Prop :=
  (∃ path plain bytes, bundle.Writes env path plain ∧ Encoded env.toEnv plain bytes ∧
    work' = work.insert path bytes) ∨
  (∀ path plain, ¬ bundle.Writes env path plain) ∧ work' = work

omit [NatCast K] in
theorem putEncoded_ends (w : World K) : Ends (putEncoded env.toServiceEnv path plain) w
    (fun _ w' => CanEncode env.toEnv ∧ w'.journal = w.journal ∧ w'.db = w.db ∧
      ∃ bytes, Encoded env.toEnv plain bytes ∧ w'.repo.work = w.repo.work.insert path bytes)
    fun _ w' => ¬ CanEncode env.toEnv ∧ w' = w := by
  unfold putEncoded
  refine (encodeCardBlob_iff _ w).bind ?_ fun _ _ h => h
  rintro bytes w1 ⟨hcan, ⟨ivs, rfl⟩, henc⟩
  unfold writeAndStage
  simp only [Ends.bind_iff, Ends.onRepo_iff, Except.ok.injEq, forall_eq', reduceCtorEq, false_imp_iff,
    implies_true, and_true, Repo.stagePath, Repo.writeFile_work, Map.get_insert, if_true]
  exact ⟨hcan, trivial, trivial, bytes, henc, rfl⟩

/-- The tree, the rows and the journal after a call that commits or throws before. -/
def PutCommitted (env : RebuildEnv K) (bundle : ResourceBundle) (services services' : Services K) : Prop :=
  services'.world.journal = services.world.journal ∧ services'.rows = services.rows ∧
    PutLeaves env bundle services.world.repo.work services'.world.repo.work

omit [NatCast K] in
variable (env) in
theorem commitPut_leaves (bundle : ResourceBundle) (services : Services K) :
    Ends (ResourceStore.commitPut env.toServiceEnv bundle) services
      (fun statements s' => statements = storeBundle bundle ∧
        bundle.resource.projectId = env.project.projectId ∧ PutCommitted env bundle services s')
      fun _ s' => PutCommitted env bundle services s' := by
  have hno : (∀ path plain, ¬ bundle.Writes env path plain) →
      PutCommitted env bundle services services := fun h => ⟨rfl, rfl, .inr ⟨h, rfl⟩⟩
  unfold ResourceStore.commitPut ResourceStore.requireProject
  simp only [Ends.bind_iff, Ends.ite_iff, Ends.throw_iff, Ends.pure_iff, Ends.fromExcept_iff]
  refine ⟨fun hne => hno fun _ _ h => hne h.project, fun hproject => ⟨fun path hpath =>
    ⟨fun plain hplain => ?_, fun e he => hno fun _ _ h => ?_⟩, fun e he => hno fun _ _ h => ?_⟩⟩
  · rw [Ends.onWorld_iff]
    refine (putEncoded_ends services.world).mono ?_ ?_
    · rintro - w1 ⟨hcan, hj, -, bytes, henc, hwork⟩
      have hleaves : PutCommitted env bundle services { services with world := w1 } :=
        ⟨hj, rfl, .inl ⟨path, plain, bytes, ⟨not_not.mp hproject, hpath, hplain, hcan⟩, henc, hwork⟩⟩
      simp only [Ends.onWorld_iff, assertIndexPathsSafe, Ends.bind_iff, Ends.get_iff,
        Ends.fromExcept_iff, CardStore.commit, Ends.onRepo_iff, Except.ok.injEq, forall_eq',
        reduceCtorEq, false_imp_iff, implies_true, and_true, true_and]
      exact ⟨fun _ _ => ⟨not_not.mp hproject, hleaves⟩, fun _ _ => hleaves⟩
    · rintro e w1 ⟨hcan, rfl⟩
      exact hno fun _ _ h => hcan h.encode
  · rw [h.render] at he
    cases he
  · rw [h.path] at he
    cases he

theorem rebuild_work (hj : s.services.world.journal = none) : Ends (SearchState.rebuild env) s
    (fun _ s' => s'.services.world.repo.work = s.services.world.repo.work) fun _ s' => s' = s := by
  have hsteps : runSteps env.toEnv (recoverySteps s.services.world) s.services.world =
      .ok s.services.world := by simp [recoverySteps, hj, runSteps]
  unfold Ends SearchState.rebuild
  rw [hsteps]
  dsimp only
  cases rebuildTables env s.services.rows s.services.world.repo.work with
  | error e => rfl
  | ok result => rfl

/-! ## The tree of a written manifest -/

omit [NatCast K] in
theorem manifestAt_written (hp : env.privacy.Lawful) (hw : bundle.Writes env path plain) {bytes : Bytes}
    (henc : Encoded env.toEnv plain bytes)
    (hjson : env.loadResourceManifest (env.dumpManifest bundle) = .ok bundle) {work : Tree}
    {bundle' : ResourceBundle} :
    ManifestAt env (work.insert path bytes) path bundle' ↔ bundle' = bundle ∧ bundle.Stated := by
  obtain ⟨hplain, howned, -⟩ := renderResourceManifest_ok hw.render
  have hread : readManifest env (work.insert path bytes) (parseResourceManifest env) path = .ok bundle' ↔
      bundle.Stated ∧ bundle' = bundle := by
    rw [readManifest_iff, Map.get_insert, if_pos rfl, Option.getD_some, henc.decodeForProject hp]
    simp only [Except.ok.injEq, exists_eq_left', parseResourceManifest_iff, hplain, hjson, howned]
  constructor
  · intro h
    exact (hread.mp h.read).symm
  · rintro ⟨rfl, hstated⟩
    exact ⟨hread.mpr ⟨hstated, rfl⟩, hw.path, hw.project⟩

omit [NatCast K] in
theorem agreeBeside_of_manifest (h : resourceRelPath bundle.resource.resourceId = .ok path)
    {work work' : Tree} (hne : ∀ p : String, p ≠ path → work'[p]? = work[p]?) :
    AgreeBeside work work' ∧ AgreeBelow "locations" work work' := by
  obtain ⟨-, rfl⟩ := resourceRelPath_iff.mp h
  have hbelow : ∀ base : String, ¬ startsWith (base ++ "/")
      (shardedPath "resources" bundle.resource.resourceId ".json").toList = true →
      AgreeBelow base work work' := by
    rintro base hbase p hp
    refine hne p ?_
    rintro rfl
    exact hbase hp
  exact ⟨⟨⟨hbelow _ (by simp [startsWith, shardedPath]), hbelow _ (by simp [startsWith, shardedPath])⟩,
    ⟨hbelow _ (by simp [startsWith, shardedPath]), hbelow _ (by simp [startsWith, shardedPath])⟩,
    hbelow _ (by simp [startsWith, shardedPath])⟩, hbelow _ (by simp [startsWith, shardedPath])⟩

omit [NatCast K] in
/-- The rows of other projects after the statements of a call. -/
theorem storeBundle_others {rows : ServiceRows} (hdeleted : ∃ others, deleteResources env rows = .ok others)
    (hproject : bundle.resource.projectId = env.project.projectId) {rows' : ServiceRows}
    (h : ResourceRepo.putBundle bundle rows = .ok rows') :
    OthersKept env rows rows' (· = bundle.resource.resourceId) := by
  have hfold : [bundle].foldlM (fun rows bundle => ResourceRepo.putBundle bundle rows) rows = .ok rows' := by
    rw [List.foldlM_cons, h]
    rfl
  obtain ⟨hlocations, hothers⟩ := foldlM_putBundle_others (by simpa using hproject) hfold
  refine ⟨fun id row hrow => ((hothers id row).mp hrow).1,
    fun id row hrow hne => (hothers id row).mpr ⟨hrow, by simpa using Ne.symm hne⟩,
    deleteResources_iff.mpr fun row hrow placement hp location hl => ?_, ?_⟩
  · obtain ⟨id, hid⟩ := Map.mem_rows.mp hrow
    rw [hlocations] at hl
    exact deleteResources_iff.mp hdeleted row (Map.mem_rows.mpr ⟨id, ((hothers id row).mp hid).1⟩)
      placement hp location hl
  · rw [foldlM_putBundle_threads hfold]

/-- The rows of other projects after the rebuild of a tree with a new manifest. -/
theorem written_others (henv : env.Lawful) {rows rows' : ServiceRows} {work : Tree}
    (hapart : OthersApart env rows work) (hw : bundle.Writes env path plain) {bytes : Bytes}
    (henc : Encoded env.toEnv plain bytes)
    (hjson : env.loadResourceManifest (env.dumpManifest bundle) = .ok bundle) {db : Db K}
    (h : rebuildTables { env with fts := false } rows (work.insert path bytes) = .ok (rows', db)) :
    OthersKept env rows rows' (· = bundle.resource.resourceId) := by
  have hother : ∀ p : String, p ≠ path → (work.insert path bytes)[p]? = work[p]? :=
    fun p hp => Map.get_insert_ne (Ne.symm hp)
  obtain ⟨-, hlocations⟩ := agreeBeside_of_manifest hw.path hother
  have hkept := rebuildTables_others_unindexed henv.directory (fun locations hlocs =>
    hapart.locations locations (hlocations.rebuildLocations henv.directory ▸ hlocs)) h
  refine ⟨hkept.resources, fun id row hrow hne => hkept.kept id row hrow ?_, hkept.deleted, hkept.threads⟩
  rintro ⟨p, hp, hfile, b, hb, rfl⟩
  by_cases he : p = path
  · subst he
    exact hne (congrArg (·.resource.resourceId) ((manifestAt_written henv.privacy hw henc hjson).mp hb).1)
  · have hmem : p ∈ work := by
      rw [Map.mem_iff, hother p he] at hp
      exact Map.mem_iff.mpr hp
    have hnone := hapart.resources p hmem hfile b ((ManifestAt.congr (hother p he)).mp hb)
    rw [show (othersRows env rows)[b.resource.resourceId]? = some row from hrow] at hnone
    cases hnone

/-- The statements and the rebuild of a call do not touch the tree, and of the rows of other projects
they replace that of the resource. -/
theorem put_leaves (henv : env.Lawful) (hj : s.services.world.journal = none)
    (hdeleted : ∃ others, deleteResources env s.services.rows = .ok others)
    (hapart : OthersApart env s.services.rows s.services.world.repo.work)
    (hjson : env.loadResourceManifest (env.dumpManifest bundle) = .ok bundle) (fault : Option Exn) :
    Ends ((ResourceCall.put bundle).run env fault) s
      (fun _ s' => PutLeaves env bundle s.services.world.repo.work s'.services.world.repo.work ∧
        OthersKept env s.services.rows s'.services.rows (· = bundle.resource.resourceId))
      fun _ s' => PutLeaves env bundle s.services.world.repo.work s'.services.world.repo.work ∧
        OthersKept env s.services.rows s'.services.rows (· = bundle.resource.resourceId) := by
  have hsame := OthersKept.refl env (· = bundle.resource.resourceId) hdeleted
  have hcommit := commitPut_leaves env bundle s.services
  unfold Ends at hcommit
  have hrun : (ResourceCall.put bundle).commit env s.services =
      match ResourceStore.commitPut env.toServiceEnv bundle s.services with
      | .ok statements services => .ok (true, statements) services
      | .error e services => .error e services := by
    simp only [ResourceCall.commit, bind, EStateM.bind, pure, EStateM.pure]
    split <;> simp_all
  unfold Ends ResourceCall.run
  rw [hrun]
  cases hend : ResourceStore.commitPut env.toServiceEnv bundle s.services with
  | error e services =>
    rw [hend] at hcommit
    obtain ⟨-, hrows, hleaves⟩ := hcommit
    exact ⟨hleaves, by rw [hrows]; exact hsame⟩
  | ok statements services =>
    rw [hend] at hcommit
    obtain ⟨rfl, hproject, hjournal, hrows, hleaves⟩ := hcommit
    have hstore : Ends (inTransaction fault (storeBundle bundle)) services
        (fun _ s1 => s1.world = services.world ∧
          ResourceRepo.putBundle bundle services.rows = .ok s1.rows) fun _ _ => True := by
      cases fault with
      | some e => trivial
      | none =>
        change Ends (storeBundle bundle) services _ _
        unfold storeBundle
        simp only [Ends.bind_iff, Ends.get_iff, Ends.fromExcept_iff, Ends.set_iff, implies_true, and_true]
        exact fun rows1 hput => ⟨trivial, hput⟩
    unfold Ends at hstore
    dsimp only
    cases hend : inTransaction fault (storeBundle bundle) services with
    | ok u s1 =>
      rw [hend] at hstore
      obtain ⟨hworld, hput⟩ := hstore
      rw [hrows] at hput
      exact ⟨by dsimp only; rw [hworld]; exact hleaves, storeBundle_others hdeleted hproject hput⟩
    | error e s1 =>
      dsimp only
      rw [if_pos rfl]
      have hwork : Ends (SearchState.rebuild { env with fts := false }) { s with services } _ _ :=
        rebuild_work (hjournal.trans hj)
      unfold Ends at hwork
      cases hrebuild : SearchState.rebuild { env with fts := false } { s with services } with
      | ok u s2 =>
        rw [hrebuild] at hwork
        dsimp only at hwork ⊢
        refine ⟨hwork ▸ hleaves, ?_⟩
        obtain ⟨world, -, -, -, -, htables⟩ := rebuild_ok hrebuild
        rw [hwork] at htables
        dsimp only at htables
        rw [hrows] at htables
        obtain ⟨path, plain, bytes, hw, henc, hinsert⟩ | ⟨-, hno⟩ := hleaves
        · rw [hinsert] at htables
          exact written_others henv hapart hw henc hjson htables
        · -- Without a manifest the tree is as it was.
          rw [hno] at htables
          have hkept := rebuildTables_others_unindexed henv.directory hapart.locations htables
          refine ⟨hkept.resources, fun id row hrow _ => hkept.kept id row hrow ?_, hkept.deleted,
            hkept.threads⟩
          rintro ⟨p, hp, hfile, b, hb, rfl⟩
          have hnone := hapart.resources p hp hfile b hb
          rw [show (othersRows env s.services.rows)[b.resource.resourceId]? = some row from hrow] at hnone
          cases hnone
      | error e s2 =>
        rw [hrebuild] at hwork
        obtain rfl : s2 = _ := hwork
        exact ⟨hleaves, by dsimp only; rw [hrows]; exact hsame⟩

/-- A project is still rebuilt after a manifest was written exactly where the rebuild does not read it
or has room for it. -/
theorem written_rebuildable_iff (henv : env.Lawful) {rows rows' : ServiceRows} {work : Tree}
    (hs : Rebuildable env rows work) (hapart : OthersApart env rows work)
    (hkept : OthersKept env rows rows' (· = bundle.resource.resourceId))
    (hw : bundle.Writes env path plain) {bytes : Bytes} (henc : Encoded env.toEnv plain bytes)
    (hjson : env.loadResourceManifest (env.dumpManifest bundle) = .ok bundle) :
    Rebuildable env rows' (work.insert path bytes) ↔
      (ManifestFile path → bundle.Accepted env rows work path) := by
  have hother : ∀ p : String, p ≠ path → (work.insert path bytes)[p]? = work[p]? :=
    fun p hp => Map.get_insert_ne (Ne.symm hp)
  have hmem : ∀ p : String, p ≠ path → (p ∈ work.insert path bytes ↔ p ∈ work) := by
    intro p hp
    rw [Map.mem_iff, Map.mem_iff, hother p hp]
  have hself : path ∈ work.insert path bytes := Std.ExtTreeMap.mem_insert_self
  have hwritten : ∀ {b}, ManifestAt env (work.insert path bytes) path b ↔ b = bundle ∧ bundle.Stated :=
    manifestAt_written henv.privacy hw henc hjson
  have hat : ∀ {p b}, p ≠ path →
      (ManifestAt env (work.insert path bytes) p b ↔ ManifestAt env work p b) :=
    fun hp => ManifestAt.congr (hother _ hp)
  obtain ⟨hbeside, hlocations⟩ := agreeBeside_of_manifest hw.path hother
  obtain ⟨hresources, hrest⟩ := rebuildable_iff.mp hs
  obtain ⟨-, ⟨locations, hlocs, hpass⟩, hothers⟩ :=
    (rebuildResources_iff henv.directory hapart.distinct hapart.replaceable).mp hresources
  -- Only the new manifest can replace a row of another project, and the rest of the tree is apart from it.
  have hreplaced : Replaceable env rows' (work.insert path bytes) := by
    intro p hp p' hp' hfile hfile' hne b b' hb hb' row hrow
    have hold := hkept.resources _ _ hrow
    by_cases he : p = path
    · subst he
      obtain ⟨rfl, -⟩ := hwritten.mp hb
      have hb' := (hat hne.symm).mp hb'
      have hmem' := (hmem p' hne.symm).mp hp'
      refine hothers p' hmem' hfile' b' hb' _ row hold fun he => ?_
      rw [he, hapart.resources p' hmem' hfile' b' hb'] at hold
      cases hold
    · rw [hapart.resources p ((hmem p he).mp hp) hfile b ((hat he).mp hb)] at hold
      cases hold
  rw [rebuildable_iff, rebuildResources_iff henv.directory
    (distinct_of_subset hapart.distinct hkept.resources) hreplaced,
    hlocations.rebuildLocations henv.directory, hlocs, hkept.messages,
    hbeside.rebuildCardsAndMessages henv.directory]
  simp only [Except.ok.injEq, exists_eq_left', hrest, hkept.deleted, and_true, true_and]
  constructor
  · rintro ⟨h, hrows⟩ hfile
    obtain ⟨b, hb, hfits⟩ := h.each path hself hfile
    obtain ⟨rfl, hstated⟩ := hwritten.mp hb
    refine ⟨hstated, fun locations' hlocs' => ?_, fun p hp hfile' hne b' hb' => ?_,
      fun id row hrow hne => ?_⟩
    · rw [hlocs, Except.ok.injEq] at hlocs'
      exact hlocs' ▸ hfits
    · exact h.apart path hself p ((hmem p hne).mpr hp) hfile hfile' (Ne.symm hne) _ _ hb
        ((hat hne).mpr hb')
    · exact hrows path hself hfile _ hb id row (hkept.kept id row hrow hne) hne
  · intro h
    refine ⟨⟨fun p hp hfile => ?_, fun p hp p' hp' hfile hfile' hne b b' hb hb' => ?_⟩,
      fun p hp hfile b hb id row hrow hne => ?_⟩
    · by_cases he : p = path
      · subst he
        exact ⟨bundle, hwritten.mpr ⟨rfl, (h hfile).stated⟩, (h hfile).fits locations hlocs⟩
      · obtain ⟨b, hb, hfits⟩ := hpass.each p ((hmem p he).mp hp) hfile
        exact ⟨b, (hat he).mpr hb, hfits⟩
    · by_cases he : p = path
      · subst he
        obtain ⟨rfl, -⟩ := hwritten.mp hb
        exact (h hfile).apart p' ((hmem p' hne.symm).mp hp') hfile' hne.symm b' ((hat hne.symm).mp hb')
      · by_cases he' : p' = path
        · subst he'
          obtain ⟨rfl, -⟩ := hwritten.mp hb'
          exact symm ((h hfile').apart p ((hmem p he).mp hp) hfile he b ((hat he).mp hb))
        · exact hpass.apart p ((hmem p he).mp hp) p' ((hmem p' he').mp hp') hfile hfile' hne b b'
            ((hat he).mp hb) ((hat he').mp hb')
    · by_cases he : p = path
      · subst he
        obtain ⟨rfl, -⟩ := hwritten.mp hb
        exact (h hfile).others id row (hkept.resources id row hrow) hne
      · exact hothers p ((hmem p he).mp hp) hfile b ((hat he).mp hb) id row
          (hkept.resources id row hrow) hne

/-- A project whose tree is as it was is rebuilt as it was. -/
theorem kept_rebuildable (henv : env.Lawful) {rows rows' : ServiceRows} {work : Tree}
    (hs : Rebuildable env rows work) (hapart : OthersApart env rows work) {replaced : String → Prop}
    (hkept : OthersKept env rows rows' replaced) : Rebuildable env rows' work := by
  obtain ⟨hresources, hrest⟩ := rebuildable_iff.mp hs
  refine rebuildable_iff.mpr ⟨hapart.rebuildResources henv.directory hkept (fun _ _ => rfl)
    (fun path hpath _ => ⟨hpath, rfl⟩) hresources, ?_⟩
  rw [hkept.messages]
  exact hrest

/-- A resource write keeps a project rebuildable, whatever it ends with, exactly where it writes no
manifest that the rebuild reads or writes one that the rebuild has room for. -/
theorem put_rebuildable_iff (henv : env.Lawful) (hj : s.services.world.journal = none)
    (hs : Rebuildable env s.services.rows s.services.world.repo.work)
    (hapart : OthersApart env s.services.rows s.services.world.repo.work)
    (hjson : env.loadResourceManifest (env.dumpManifest bundle) = .ok bundle) (fault : Option Exn) :
    Ends ((ResourceCall.put bundle).run env fault) s
      (fun _ s' => Rebuildable env s'.services.rows s'.services.world.repo.work ↔
        ∀ path plain, bundle.Writes env path plain → ManifestFile path →
          bundle.Accepted env s.services.rows s.services.world.repo.work path)
      fun _ s' => Rebuildable env s'.services.rows s'.services.world.repo.work ↔
        ∀ path plain, bundle.Writes env path plain → ManifestFile path →
          bundle.Accepted env s.services.rows s.services.world.repo.work path := by
  have hleaves : ∀ rows' work', PutLeaves env bundle s.services.world.repo.work work' ∧
      OthersKept env s.services.rows rows' (· = bundle.resource.resourceId) →
      (Rebuildable env rows' work' ↔ ∀ path plain, bundle.Writes env path plain → ManifestFile path →
        bundle.Accepted env s.services.rows s.services.world.repo.work path) := by
    rintro rows' work' ⟨⟨path, plain, bytes, hw, henc, rfl⟩ | ⟨hno, rfl⟩, hkept⟩
    · rw [written_rebuildable_iff henv hs hapart hkept hw henc hjson]
      constructor
      · intro h path' plain' hw'
        obtain ⟨rfl, -⟩ := hw.unique hw'
        exact h
      · exact fun h => h path plain hw
    · exact iff_of_true (kept_rebuildable henv hs hapart hkept)
        fun path plain hw => absurd hw (hno path plain)
  have hdeleted := ((rebuildResources_iff henv.directory hapart.distinct hapart.replaceable).mp
    (rebuildable_iff.mp hs).1).1
  exact (put_leaves henv hj hdeleted hapart hjson fault).mono (fun _ _ => hleaves _ _)
    fun _ _ => hleaves _ _

end

/-! ## A manifest that no rebuild takes -/

/-- A note with an asset under a digest that is none. -/
def unhashedBundle : ResourceBundle :=
  { noteBundle with assets := [⟨"asset", "cafe", "a.txt", "text/plain", 0, "beef", 1, 1, []⟩] }

/-- A project whose one manifest is that of `bundle`. -/
def manifestEnv (bundle : ResourceBundle) : RebuildEnv ℚ :=
  { noteEnv with loadResourceManifest := fun _ => .ok bundle }

theorem note_rebuildable : ∃ s', (ResourceCall.put noteBundle).run noteEnv none ⟨Services.empty, ∅⟩ =
    .ok () s' ∧ Rebuildable noteEnv s'.services.rows s'.services.world.repo.work := by
  obtain ⟨_, s', hok⟩ : ∃ u s', (ResourceCall.put noteBundle).run noteEnv none ⟨Services.empty, ∅⟩ =
    .ok u s' := Ends.exists_ok (by decide +kernel)
  have hempty : Rebuildable noteEnv ServiceRows.empty ∅ := by decide +kernel
  refine ⟨s', hok, ((put_rebuildable_iff (plainEnv_lawful _) rfl hempty
    (othersApart_of_none (Std.ExtTreeMap.isEmpty_iff.mp rfl)) (by decide +kernel) none).ok hok).mpr
      fun path plain hw hfile => ⟨⟨by decide, by decide⟩, fun locations _ => ⟨⟨?_, by decide, ?_, by decide⟩, by decide, (fun _ hp => by cases hp), .nil⟩,
    fun p hp => absurd hp (by simp [Services.empty, World.empty, Repo.init]), fun id row hrow => ?_⟩⟩
  · exact ⟨.nil, by decide⟩
  · exact ⟨.nil, by decide⟩
  · simp [get_othersRows, Services.empty] at hrow

/-- The call returns, and the next rebuild throws. -/
theorem unhashed_not_rebuildable : Rebuildable (manifestEnv unhashedBundle) ServiceRows.empty ∅ ∧
    ∃ s', (ResourceCall.put unhashedBundle).run (manifestEnv unhashedBundle) none ⟨Services.empty, ∅⟩ =
      .ok () s' ∧
      ¬ Rebuildable (manifestEnv unhashedBundle) s'.services.rows s'.services.world.repo.work := by
  obtain ⟨_, s', hok, hno⟩ : ∃ u s', (ResourceCall.put unhashedBundle).run
      (manifestEnv unhashedBundle) none ⟨Services.empty, ∅⟩ = .ok u s' ∧
      ¬ Rebuildable (manifestEnv unhashedBundle) s'.services.rows s'.services.world.repo.work :=
    Ends.returns (by decide +kernel)
  exact ⟨by decide +kernel, s', hok, hno⟩

end HolderCore
