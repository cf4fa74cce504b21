import HolderCore.Card.Indexed
import HolderCore.Resource.Rebuildable

/-! # Removing a resource

The statements of a removal delete every link to the resource at once; its file part rewrites the live
cards that hold one and leaves the files of trashed cards and of messages as they are. -/

namespace HolderCore

/-- A link to a resource. -/
def CardLink.toResource (resourceId : String) (link : CardLink) : Bool :=
  link.toType == "resource" && link.toCardId == resourceId

theorem CardLink.toResource_stored (resourceId : String) (link : CardLink) :
    (LinkRepo.storedLink link).toResource resourceId = link.toResource resourceId := by
  by_cases h : link.toType = "" <;> simp [CardLink.toResource, LinkRepo.storedLink, String.isEmpty_iff, h]

theorem CardLink.toResource_record (resourceId : String) (card : Card K) (link : CardLink) :
    (recordLink card link).toResource resourceId = link.toResource resourceId := by
  by_cases h : link.toType = "" <;> simp [CardLink.toResource, recordLink, String.isEmpty_iff, h]

/-- Whether a link is one to the resource is part of its key. -/
theorem CardLink.toResource_key (resourceId : String) {link link' : CardLink}
    (h : link.key = link'.key) :
    link.toResource resourceId = link'.toResource resourceId := by
  simp only [CardLink.key, List.cons.injEq, and_true] at h
  rw [CardLink.toResource, CardLink.toResource, h.2.2.1, h.2.2.2.1]

/-- The rows of the links that are left. -/
theorem linkRows_kept (resourceId : String) (links : List CardLink) (key : List String) :
    (linkRows (links.filter fun l => !l.toResource resourceId))[key]? =
      (linkRows links)[key]?.filter fun l => !l.toResource resourceId := by
  rw [linkRows, linkRows, Map.get_foldl_insert_key, Map.get_foldl_insert_key,
    Std.ExtTreeMap.getElem?_empty, Option.or_none, Option.or_none, ← List.filter_reverse, List.find?_filter]
  generalize links.reverse = links
  induction links with
  | nil => rfl
  | cons link links ih =>
    have hstored := CardLink.toResource_stored resourceId link
    rw [List.find?_cons, List.find?_cons]
    by_cases hkey : (LinkRepo.storedLink link).key = key
    · cases hres : link.toResource resourceId with
      | false =>
        rw [hres] at hstored
        simp [hkey, hstored, Option.filter]
      | true =>
        rw [hres] at hstored
        simp only [hkey, decide_true, Bool.not_true, Bool.false_eq_true, false_and, decide_false,
          Option.map_some, Option.filter, hstored, if_false, ih]
        -- A later row under the key of this link leads to the resource too.
        refine Option.filter_eq_none_iff.mpr fun l hl => ?_
        obtain ⟨x, hx, rfl⟩ := Option.map_eq_some_iff.mp hl
        have hsame : (LinkRepo.storedLink x).key = key := by simpa using List.find?_some hx
        simp [CardLink.toResource_key resourceId (hsame.trans hkey.symm), hstored]
    · simp only [hkey, decide_false, Bool.false_eq_true, and_false]
      exact ih

/-! ## Records without the links -/

/-- A record whose links to a resource were taken out. -/
structure CardRecord.Unlinked (resourceId : String) (r r' : CardRecord K) : Prop where
  card : r'.card.untimed = r.card.untimed
  body : r'.body = r.body
  links : r'.links = r.links.filter fun l => !l.toResource resourceId
  milestones : r'.milestones = r.milestones

/-- The records after the files of some cards were rewritten. -/
structure UnlinkedAll (resourceId : String) (ids : List String)
    (rec rec' : String → Option (CardRecord K)) : Prop where
  same : ∀ id ∉ ids, rec' id = rec id
  held : ∀ id ∈ ids, ∃ r r', rec id = some r ∧ rec' id = some r' ∧ r.Unlinked resourceId r'

section
variable [NatCast K] {env : RebuildEnv K} {w : World K} {rec : String → Option (CardRecord K)}
  {resourceId : String} {now : Int}

theorem unlinkCard_ends (henv : env.Lawful) (hfiles : FilesAre env.toEnv w.repo.work rec)
    {card : Card K} {r : CardRecord K} (hr : rec card.cardId = some r) (hlive : r.card.deletedAt = none)
    (hcard : card.untimed = r.card.untimed) :
    Ends (ResourceStore.unlinkCard env.toServiceEnv resourceId now card) w
      (fun _ w' => (∃ r', r.Unlinked resourceId r' ∧
          FilesAre env.toEnv w'.repo.work (Function.update rec card.cardId (some r'))) ∧
        w'.db = w.db ∧ w'.journal = w.journal ∧
        ∀ p : String, p ≠ livePath card.cardId → w'.repo.work[p]? = w.repo.work[p]?)
      fun _ _ => True := by
  unfold ResourceStore.unlinkCard
  simp only [Ends.bind_iff, Ends.fromExcept_iff, Ends.ite_iff, Ends.throw_iff, Ends.get_iff]
  refine ⟨fun path hpath => ⟨fun _ => trivial, fun hrel => ?_⟩, fun _ _ => trivial⟩
  have hid := hfiles.id _ r hr
  have hlen := (hfiles.loaded hr).1.length
  obtain rfl : path = livePath card.cardId := by
    unfold cardRelPath at hpath
    split at hpath
    · cases hpath
    · exact (Except.ok.inj hpath).symm
  obtain ⟨⟨raw, hraw, hload⟩, honly⟩ := hfiles.file _ r hr
  rw [hlive, hid] at hraw honly
  rw [hlive, hid] at hload
  change w.repo.work[livePath card.cardId]? = some raw at hraw
  change w.repo.work[trashPath card.cardId]? = none at honly
  simp only [hraw, Ends.bind_iff, Ends.fromExcept_iff, Ends.pure_iff]
  refine ⟨fun plain hplain => ?_, fun _ _ => trivial⟩
  obtain ⟨plain', hplain', -, -, -, -, hrecord⟩ := loadCardFile_iff.mp hload
  rw [decodeBlobForProject_of_card hplain, Except.ok.injEq] at hplain'
  subst hplain'
  refine (putEncoded_ends w).mono ?_ fun _ _ _ => trivial
  rintro - w' ⟨-, hjournal, hdb, bytes, henc, hwork⟩
  generalize hparsed : parseCardFile env.yaml plain = parsed at henc hrecord
  have hnamed : parsed.Named := hparsed ▸ parseCardFile_named plain
  have hnow : Card.untimed { card with updatedAt := now } = r.card.untimed := hcard
  have howner : SameOwner r.card { card with updatedAt := now } := .of_untimed hnow
  obtain ⟨-, hproj, htitle, -, -, -, hcreated, hdeleted⟩ := Card.of_untimed hcard
  have hfits := (loadCardFile_fits hload).card
  rw [hlive, hid] at hfits
  have hwritable : Writable env.toEnv { card with updatedAt := now }
      (ResourceStore.keptLinks resourceId parsed.links) parsed.milestones := by
    refine ⟨(hfiles.loaded hr).2, hdeleted.trans hlive, ⟨hproj.trans hfits.project, not_not.mp hrel, ?_, ?_⟩,
      fun l hl => hnamed.links l (List.mem_filter.mp hl).1, hnamed.milestones⟩
    · exact fun he => hfits.title (htitle ▸ he)
    · intro hc
      change card.createdAt ≤ 0 at hc
      change card.createdAt = _
      rw [hcreated] at hc ⊢
      exact hfits.created hc
  have hself : w'.repo.work[livePath card.cardId]? = some bytes := by
    rw [hwork, Map.get_insert, if_pos rfl]
  have hne : ∀ p : String, p ≠ livePath card.cardId → w'.repo.work[p]? = w.repo.work[p]? := by
    intro p hp
    rw [hwork, Map.get_insert_ne hp.symm]
  have htrash : w'.repo.work[trashPath card.cardId]? = none := by
    rw [hne _ (by simp [trashPath, livePath])]
    exact honly
  have hfile := hwritable.fileOf henv hself henc htrash
  have hlinks : r.links = parsed.links.map (recordLink r.card) := by
    rw [hrecord]
    rfl
  have hmilestones : r.milestones = parsed.milestones.map (recordMilestone r.card) := by
    rw [hrecord]
    rfl
  have hunlinked : r.Unlinked resourceId (writtenRecord env.toEnv { card with updatedAt := now }
      (ResourceStore.keptLinks resourceId parsed.links) parsed.milestones parsed.body) := by
    refine ⟨(hwritable.untimed _).trans hnow, ?_, ?_, CardRecord.reload_milestones hmilestones howner⟩
    · rw [hrecord]
      rfl
    · rw [← CardRecord.reload_links hlinks howner, List.filter_map]
      refine congrArg (List.map _) (List.filter_congr fun l _ => ?_)
      rw [Function.comp_apply, CardLink.toResource_record]
      rfl
  refine ⟨⟨_, hunlinked, ?_⟩, hdb, hjournal, hne⟩
  have hbefore : ∀ x ∉ ({card.cardId} : Set String),
      Function.update rec card.cardId (some (writtenRecord env.toEnv { card with updatedAt := now }
        (ResourceStore.keptLinks resourceId parsed.links) parsed.milestones parsed.body)) x = rec x :=
    fun x hx => Function.update_of_ne hx _ _
  refine hfiles.update (S := {card.cardId}) ?_ hbefore (fun p hp => hne p ?_) ?_ ?_ ?_
  · rintro x rfl
    exact hid ▸ hlen
  · rintro rfl
    exact hp _ rfl (.inl rfl)
  · rintro x rfl r' hr'
    rw [Function.update_self, Option.some.injEq] at hr'
    subst hr'
    refine ⟨rfl, hfile, fun _ => ?_⟩
    rw [hunlinked.body, hunlinked.milestones]
    exact ⟨hfiles.tags _ r hr hlive, hfiles.milestones _ r hr hlive⟩
  · rintro x rfl hnone
    rw [Function.update_self] at hnone
    cases hnone
  · have hup : (fun x => (Function.update rec card.cardId (some (writtenRecord env.toEnv
        { card with updatedAt := now } (ResourceStore.keptLinks resourceId parsed.links)
        parsed.milestones parsed.body)) x).map (·.card.parentCardId)) =
        fun x => (rec x).map (·.card.parentCardId) := by
      funext x
      by_cases hx : x = card.cardId
      · subst hx
        rw [Function.update_self, hr, Option.map_some, Option.map_some,
          (Card.of_untimed hunlinked.card).2.2.2.2.1]
      · rw [Function.update_of_ne hx]
    rw [hup]
    exact hfiles.rooted

omit [NatCast K] in
theorem UnlinkedAll.cons {id : String} {ids : List String} {rec' : String → Option (CardRecord K)}
    {r r' : CardRecord K} (hr : rec id = some r) (hu : r.Unlinked resourceId r') (hid : id ∉ ids)
    (h : UnlinkedAll resourceId ids (Function.update rec id (some r')) rec') :
    UnlinkedAll resourceId (id :: ids) rec rec' where
  same x hx := by
    rw [List.mem_cons, not_or] at hx
    rw [h.same x hx.2, Function.update_of_ne hx.1]
  held x hx := by
    obtain rfl | hx := List.mem_cons.mp hx
    · exact ⟨r, r', hr, by rw [h.same x hid, Function.update_self], hu⟩
    · have hne : x ≠ id := fun he => hid (he ▸ hx)
      obtain ⟨r1, r2, hr1, hr2, hu'⟩ := h.held x hx
      rw [Function.update_of_ne hne] at hr1
      exact ⟨r1, r2, hr1, hr2, hu'⟩

omit [NatCast K] in
/-- Each record after the files were rewritten comes from one before. -/
theorem UnlinkedAll.kept {ids : List String} {rec' : String → Option (CardRecord K)}
    (h : UnlinkedAll resourceId ids rec rec') {id : String} {r : CardRecord K} (hr : rec id = some r) :
    ∃ r', rec' id = some r' := by
  by_cases hid : id ∈ ids
  · obtain ⟨-, r', -, hr', -⟩ := h.held id hid
    exact ⟨r', hr'⟩
  · exact ⟨r, (h.same id hid).trans hr⟩

omit [NatCast K] in
theorem UnlinkedAll.source {ids : List String} {rec' : String → Option (CardRecord K)}
    (h : UnlinkedAll resourceId ids rec rec') {id : String} {r' : CardRecord K} (hr' : rec' id = some r') :
    ∃ r, rec id = some r ∧ r'.card.untimed = r.card.untimed ∧ r'.milestones = r.milestones := by
  by_cases hid : id ∈ ids
  · obtain ⟨r, r1, hr, hr1, hu⟩ := h.held id hid
    rw [hr', Option.some.injEq] at hr1
    subst hr1
    exact ⟨r, hr, hu.card, hu.milestones⟩
  · rw [h.same id hid] at hr'
    exact ⟨r', hr', rfl, rfl⟩

/-- The files of the live cards with a link, rewritten one after another. -/
theorem unlinkCards_ends (henv : env.Lawful) (cards : List (Card K))
    (hids : (cards.map (·.cardId)).Nodup) (hfiles : FilesAre env.toEnv w.repo.work rec)
    (hcards : ∀ card ∈ cards, ∃ r, rec card.cardId = some r ∧ r.card.deletedAt = none ∧
      card.untimed = r.card.untimed) :
    Ends (cards.mapM (ResourceStore.unlinkCard env.toServiceEnv resourceId now)) w
      (fun _ w' => (∃ rec', FilesAre env.toEnv w'.repo.work rec' ∧
          UnlinkedAll resourceId (cards.map (·.cardId)) rec rec') ∧
        w'.db = w.db ∧ w'.journal = w.journal ∧
        ∀ p : String, (∀ id, p ≠ livePath id) → w'.repo.work[p]? = w.repo.work[p]?)
      fun _ _ => True := by
  induction cards generalizing w rec with
  | nil =>
    rw [List.mapM_nil, Ends.pure_iff]
    exact ⟨⟨rec, hfiles, fun _ _ => rfl, nofun⟩, rfl, rfl, fun _ _ => rfl⟩
  | cons card cards ih =>
    rw [List.map_cons, List.nodup_cons] at hids
    rw [List.forall_mem_cons] at hcards
    obtain ⟨⟨r, hr, hlive, hcard⟩, hrest⟩ := hcards
    rw [List.mapM_cons]
    refine (unlinkCard_ends henv hfiles hr hlive hcard).bind ?_ fun _ _ h => h
    rintro path w1 ⟨⟨r1, hu, hfiles1⟩, hdb1, hj1, hwork1⟩
    refine (ih hids.2 hfiles1 fun c hc => ?_).bind ?_ fun _ _ h => h
    · have hne : c.cardId ≠ card.cardId := fun he => hids.1 (he ▸ List.mem_map_of_mem hc)
      rw [Function.update_of_ne hne]
      exact hrest c hc
    · rintro paths w2 ⟨⟨rec', hfiles2, hall⟩, hdb2, hj2, hwork2⟩
      rw [Ends.pure_iff]
      refine ⟨⟨rec', hfiles2, .cons hr hu hids.1 hall⟩, hdb2.trans hdb1, hj2.trans hj1, fun p hp => ?_⟩
      rw [hwork2 p hp, hwork1 p (hp _)]

end

/-! ## The cards that a removal rewrites -/

section
variable {db : Db K} {projectId resourceId : String}

theorem mem_linkedCards (hkeyed : ∀ (id : String) (c : Card K), db.cards[id]? = some c → c.cardId = id)
    {card : Card K} : card ∈ ResourceStore.linkedCards db projectId resourceId ↔
      db.cards[card.cardId]? = some card ∧ card.deletedAt = none ∧ ∃ (key : List String) (l : CardLink),
        db.cardLinks[key]? = some l ∧ l.projectId = projectId ∧ l.toResource resourceId = true ∧
          l.fromCardId = card.cardId := by
  unfold ResourceStore.linkedCards
  simp only [List.mem_filterMap, List.mem_dedup, List.mem_map, List.mem_filter, Map.mem_rows,
    Option.filter_eq_some_iff, CardRepo.get?, Card.live_iff, Bool.and_eq_true, beq_iff_eq]
  constructor
  · rintro ⟨id, ⟨l, ⟨⟨key, hl⟩, ⟨hproj, hto⟩, htype⟩, rfl⟩, hc, hlive⟩
    have hid := hkeyed _ _ hc
    exact ⟨hid.symm ▸ hc, hlive, key, l, hl, hproj, by simp [CardLink.toResource, hto, htype], hid.symm⟩
  · rintro ⟨hc, hlive, key, l, hl, hproj, hres, hfrom⟩
    simp only [CardLink.toResource, Bool.and_eq_true, beq_iff_eq] at hres
    exact ⟨card.cardId, ⟨l, ⟨⟨key, hl⟩, ⟨hproj, hres.2⟩, hres.1⟩, hfrom⟩, hc, hlive⟩

theorem nodup_linkedCards
    (hkeyed : ∀ (id : String) (c : Card K), db.cards[id]? = some c → c.cardId = id) :
    ((ResourceStore.linkedCards db projectId resourceId).map (·.cardId)).Nodup := by
  have hsub : ∀ ids : List String, ((ids.filterMap fun id =>
      (CardRepo.get? db id).filter (·.live)).map (·.cardId)).Sublist ids := by
    intro ids
    induction ids with
    | nil => exact .slnil
    | cons id ids ih =>
      rw [List.filterMap_cons]
      cases hc : (CardRepo.get? db id).filter (·.live) with
      | none => exact ih.cons id
      | some c =>
        have hid : c.cardId = id := hkeyed id c (Option.filter_eq_some_iff.mp hc).1
        rw [List.map_cons, hid]
        exact ih.cons_cons id
  exact (List.nodup_dedup _).sublist (hsub _)

end

/-! ## What a removal leaves -/

section
variable [NatCast K] {env : RebuildEnv K} {s : SearchState K} {rec : String → Option (CardRecord K)}
  {resourceId : String} {now : Int}

/-- The tree after the file part of a removal. -/
structure Unlinks (env : RebuildEnv K) (resourceId : String) (ids : List String)
    (rec : String → Option (CardRecord K)) (work work' : Tree) : Prop where
  cards : ∃ work1 rec', FilesAre env.toEnv work1 rec' ∧ UnlinkedAll resourceId ids rec rec' ∧
    AgreeBelow "cards" work1 work' ∧ AgreeBelow "trash/cards" work1 work'
  beside : ∃ path, resourceRelPath resourceId = .ok path ∧ work'[path]? = none ∧
    ∀ p : String, p ≠ path → (∀ id, p ≠ livePath id) → work'[p]? = work[p]?

variable (resourceId now) in
theorem commitRemove_ends (henv : env.Lawful) {services : Services K}
    (hfiles : FilesAre env.toEnv services.world.repo.work rec)
    (hkeyed : ∀ (id : String) (c : Card K), services.world.db.cards[id]? = some c → c.cardId = id)
    (hrows : ∀ (id : String) (c : Card K), services.world.db.cards[id]? = some c →
      ∃ r, rec id = some r ∧ c.untimed = r.card.untimed) :
    Ends (ResourceStore.commitRemove env.toServiceEnv resourceId now) services
      (fun statements s' => Unlinks env resourceId ((ResourceStore.linkedCards services.world.db
            env.project.projectId resourceId).map (·.cardId)) rec services.world.repo.work
            s'.world.repo.work ∧
        s'.world.db = services.world.db ∧ s'.world.journal = services.world.journal ∧
        s'.rows = services.rows ∧
        (∀ row, services.rows.resources[resourceId]? = some row →
          row.resource.projectId = env.project.projectId) ∧
        statements = ResourceStore.removeRows env.toServiceEnv resourceId now
          (ResourceStore.linkedCards services.world.db env.project.projectId resourceId))
      fun _ _ => True := by
  unfold ResourceStore.commitRemove
  simp only [Ends.bind_iff (m := get), Ends.get_iff]
  split
  · exact trivial
  next bundle hbundle =>
  have howned : Ends (ResourceStore.requireProject env.toServiceEnv bundle.resource.projectId) services
      (fun _ s' => s' = services ∧ bundle.resource.projectId = env.project.projectId) fun _ _ => True := by
    unfold ResourceStore.requireProject
    split
    next => trivial
    next hne => exact ⟨rfl, not_not.mp hne⟩
  refine howned.bind ?_ fun _ _ h => h
  rintro - _ ⟨rfl, hown⟩
  simp only [Ends.bind_iff (m := fromExcept _), Ends.fromExcept_iff]
  refine ⟨fun path hpath => ?_, fun _ _ => trivial⟩
  rw [Ends.bind_iff, Ends.onWorld_iff]
  refine Ends.mono (unlinkCards_ends henv _ (nodup_linkedCards hkeyed) hfiles fun card hcard => ?_) ?_
    fun _ _ h => h
  · obtain ⟨hc, hlive, -⟩ := (mem_linkedCards hkeyed).mp hcard
    obtain ⟨r, hr, he⟩ := hrows _ _ hc
    exact ⟨r, hr, (Card.of_untimed he).2.2.2.2.2.2.2.symm.trans hlive, he⟩
  rintro staged w1 ⟨⟨rec', hfiles', hall⟩, hdb, hj, hwork⟩
  simp only [Ends.bind_iff, Ends.onWorld_iff, Ends.onRepo_iff, Except.ok.injEq, forall_eq',
    reduceCtorEq, implies_true, and_true, assertIndexPathsSafe, Ends.get_iff, Ends.fromExcept_iff,
    CardStore.commit, Ends.pure_iff]
  intro _ _
  obtain ⟨-, rfl⟩ := resourceRelPath_iff.mp hpath
  have herase : ∀ p : String, p ≠ shardedPath "resources" resourceId ".json" →
      (w1.repo.work.erase (shardedPath "resources" resourceId ".json"))[p]? = w1.repo.work[p]? :=
    fun p hp => Map.get_erase_ne hp.symm
  refine ⟨⟨⟨w1.repo.work, rec', hfiles', hall, fun p hp => herase p ?_, fun p hp => herase p ?_⟩,
    _, hpath, ?_, fun p hp hlive => ?_⟩, hdb, hj, trivial, fun row hrow => ?_⟩
  · rintro rfl
    simp [startsWith, shardedPath] at hp
  · rintro rfl
    simp [startsWith, shardedPath] at hp
  · exact (Map.get_erase _ _ _).trans (if_pos rfl)
  · exact (herase p hp).trans (hwork p hlive)
  · unfold ResourceRepo.getBundle at hbundle
    rw [hrow] at hbundle
    cases hbundle
    exact hown

/-- The rebuild of cards and messages with the files of some cards changed. -/
theorem rebuildCardsAndMessages_of {work work' : Tree} {threads : Map String String}
    {result : Map String String × RebuiltMessages K} (h : rebuildCardsAndMessages env threads work = .ok result)
    (hmessages : rebuildMessageFiles env.toEnv work' = rebuildMessageFiles env.toEnv work)
    (hthreads : threadManifests env work' = threadManifests env work) {db : Db K}
    (hproj : projection env.toEnv work' = .ok db)
    (hcards : ∀ cardRows, projection env.toEnv work = .ok cardRows →
      ∀ id : String, id ∈ cardRows.cards → id ∈ db.cards) :
    ∃ result', rebuildCardsAndMessages env threads work' = .ok result' := by
  obtain ⟨cardRows, manifests, records, ids, hold, hmanifests, hnamed, hrecords, hids, hinsert, hrows⟩ :=
    rebuildCardsAndMessages_iff.mp h
  obtain ⟨links, hrebuilt', -⟩ := insertMessages_beside hinsert db
  exact ⟨_, rebuildCardsAndMessages_iff.mpr ⟨db, manifests, records, ids, hproj, hthreads ▸ hmanifests,
    checkThreadCards_iff.mpr fun m hm card hcard =>
      hcards cardRows hold card (checkThreadCards_iff.mp hnamed m hm card hcard),
    hmessages ▸ hrecords, hids, hrebuilt', hrows⟩⟩

/-- Below a directory without manifests and live cards, a removal leaves the tree as it was. -/
theorem Unlinks.below {ids : List String} {work work' : Tree}
    (h : Unlinks env resourceId ids rec work work') {base : String}
    (hmanifest : ∀ id : String, ¬ startsWith (base ++ "/") (shardedPath "resources" id ".json").toList = true)
    (hlive : ∀ id, ¬ startsWith (base ++ "/") (livePath id).toList = true) : AgreeBelow base work work' := by
  obtain ⟨path, hpath, -, hother⟩ := h.beside
  obtain ⟨-, rfl⟩ := resourceRelPath_iff.mp hpath
  intro p hp
  refine hother p ?_ fun id => ?_
  · rintro rfl
    exact hmanifest _ hp
  · rintro rfl
    exact hlive id hp

theorem Unlinks.locations {ids : List String} {work work' : Tree}
    (h : Unlinks env resourceId ids rec work work') : AgreeBelow "locations" work work' :=
  h.below (fun id => by simp [startsWith, shardedPath]) fun id => by simp [startsWith, livePath]

/-- The tree after a removal is rebuilt to the links of the records that were left. -/
theorem Unlinks.rebuilt (hdir : ∀ paths, (env.directoryOrder paths).Perm paths) {ids : List String}
    {work work' : Tree} (h : Unlinks env resourceId ids rec work work') {rows rows' : ServiceRows}
    (hs : Rebuildable env rows work) (hapart : OthersApart env rows work)
    (hkept : OthersKept env rows rows' fun _ => True)
    {db : Db K} (hrows : RowsAre env.toEnv db rec) (hfiles : FilesAre env.toEnv work rec) :
    Rebuildable env rows' work' ∧ rebuildMessageFiles env.toEnv work' = rebuildMessageFiles env.toEnv work ∧
      ∃ rec' db', UnlinkedAll resourceId ids rec rec' ∧ projection env.toEnv work' = .ok db' ∧
        RowsAre env.toEnv db' rec' := by
  obtain ⟨work1, rec', hfiles1, hall, hcards, htrash⟩ := h.cards
  obtain ⟨path, hpath, hnone, hother⟩ := h.beside
  obtain ⟨hresources, result, hrest⟩ := rebuildable_iff.mp hs
  have hmessages : rebuildMessageFiles env.toEnv work' = rebuildMessageFiles env.toEnv work :=
    AgreeBelow.rebuildMessageFiles hdir
      (h.below (fun id => by simp [startsWith, shardedPath]) fun id => by simp [startsWith, livePath])
      (h.below (fun id => by simp [startsWith, shardedPath]) fun id => by simp [startsWith, livePath])
  have hthreads : threadManifests env work' = threadManifests env work :=
    AgreeBelow.threadManifests hdir
      (h.below (fun id => by simp [startsWith, shardedPath]) fun id => by simp [startsWith, livePath])
  have hown : ∀ r r', rec' r.card.cardId = some r → rec' r'.card.cardId = some r' →
      r.card.deletedAt = none → r'.card.deletedAt = none → ∀ m ∈ r.milestones, ∀ m' ∈ r'.milestones,
      m.milestoneId = m'.milestoneId → r = r' := by
    intro r r' hr hr' hlive hlive' m hm m' hm' he
    obtain ⟨r0, hr0, hcard, hm0⟩ := hall.source hr
    obtain ⟨r1, hr1, hcard', hm1⟩ := hall.source hr'
    obtain ⟨hid, -, -, -, -, -, -, hdel⟩ := Card.of_untimed hcard
    obtain ⟨hid', -, -, -, -, -, -, hdel'⟩ := Card.of_untimed hcard'
    have hsame : r0 = r1 := hrows.milestone_owner hfiles (hid ▸ hr0) (hid' ▸ hr1) (hdel ▸ hlive)
      (hdel' ▸ hlive') (hm0 ▸ hm) (hm1 ▸ hm') he
    rw [hid, hsame, ← hid', hr', Option.some.injEq] at hr
    exact hr.symm
  obtain ⟨db', hproj, hrows'⟩ := hfiles1.projection hdir hown
  rw [← hcards.projection hdir htrash] at hproj
  have hnamed : ∀ cardRows, projection env.toEnv work = .ok cardRows →
      ∀ id : String, id ∈ cardRows.cards → id ∈ db'.cards := by
    intro cardRows hold id hid
    obtain ⟨db0, hproj0, hrows0⟩ := hfiles.projection hdir fun r r' hr hr' hlive hlive' m hm m' hm' he =>
      hrows.milestone_owner hfiles hr hr' hlive hlive' hm hm' he
    rw [hold, Except.ok.injEq] at hproj0
    obtain ⟨r, hr⟩ := hrows0.mem_cards.mp (hproj0 ▸ hid)
    exact hrows'.mem_cards.mpr (hall.kept hr)
  -- The tree has no manifest that it had not before.
  have hmanifests : ∀ p ∈ work', ManifestFile p → p ∈ work ∧ work'[p]? = work[p]? := by
    intro p hp hfile
    obtain ⟨raw, hraw⟩ := Map.mem_iff.mp hp
    have heq : work'[p]? = work[p]? := by
      refine hother p ?_ fun id => ?_
      · rintro rfl
        rw [hnone] at hraw
        cases hraw
      · rintro rfl
        have := hfile.1
        simp [startsWith, livePath] at this
    exact ⟨Map.mem_iff.mpr ⟨raw, heq ▸ hraw⟩, heq⟩
  rw [← hkept.messages] at hrest
  exact ⟨rebuildable_iff.mpr ⟨hapart.rebuildResources hdir hkept h.locations hmanifests hresources,
    rebuildCardsAndMessages_of hrest hmessages hthreads hproj hnamed⟩, hmessages, rec', db', hall, hproj,
    hrows'⟩

end

/-! ## The links that are left -/

/-- No link leads to a resource. -/
def NoLinkToResource (db : Db K) (resourceId : String) : Prop :=
  ∀ (key : List String) (l : CardLink), db.cardLinks[key]? = some l → l.toResource resourceId = false

/-- A file that a removal leaves as it is has a link to the resource: that of a trashed card, or one of a
message. -/
def HeldAside [NatCast K] (env : Env K) (work : Tree) (resourceId : String) : Prop :=
  (∃ record, FileRecord env work record ∧ record.card.deletedAt ≠ none ∧
    ∃ link ∈ record.links, link.toResource resourceId = true) ∨
  ∃ path isTrash raw record, MessageFile isTrash path ∧ work[path]? = some raw ∧
    rebuildMessageFile env path raw isTrash = .ok record ∧
    ∃ link ∈ record.links, link.toResource resourceId = true

/-- The records and rows before and after a removal, and the messages beside them. -/
structure Removal [NatCast K] (env : Env K) (work : Tree) (resourceId : String) (ids : List String)
    (rec rec' : String → Option (CardRecord K)) (messages : List MessageRecord)
    (before left : Db K) : Prop where
  files : FilesAre env work rec
  messageFiles : ∀ record, record ∈ messages ↔ ∃ path isTrash raw, MessageFile isTrash path ∧
    work[path]? = some raw ∧ rebuildMessageFile env path raw isTrash = .ok record
  unlinked : UnlinkedAll resourceId ids rec rec'
  live : ∀ id ∈ ids, ∀ r, rec id = some r → r.card.deletedAt = none
  complete : ∀ (key : List String) (l : CardLink), (linkRows (messages.flatMap (·.links)))[key]? = none →
    before.cardLinks[key]? = some l → l.toResource resourceId = true →
    ∀ r, rec l.fromCardId = some r → r.card.deletedAt = none → l.fromCardId ∈ ids
  links : ∀ (key : List String) (l : CardLink), before.cardLinks[key]? = some l ↔ LinkOf rec key l
  left : ∀ (key : List String) (l : CardLink), left.cardLinks[key]? = some l ↔ LinkOf rec' key l

section
variable [NatCast K] {env : Env K} {work : Tree} {resourceId : String} {ids : List String}
  {rec rec' : String → Option (CardRecord K)} {messages : List MessageRecord} {before left : Db K}

theorem Removal.noLink_iff (h : Removal env work resourceId ids rec rec' messages before left) :
    (∀ (key : List String) (l : CardLink),
      (linkRows (messages.flatMap (·.links)))[key]?.or left.cardLinks[key]? = some l →
      l.toResource resourceId = false) ↔ ¬ HeldAside env work resourceId := by
  constructor
  · rintro hno (⟨record, hfile, htrashed, link, hlink, hres⟩ |
      ⟨path, isTrash, raw, record, hfile, hraw, hload, link, hlink, hres⟩)
    · have hrec := (h.files.record_iff record).mp hfile
      obtain ⟨l, hl⟩ := linkRows_some hlink
      obtain ⟨-, hfrom, hkey⟩ := (h.files.loaded hrec).1.linkRows hl
      have hout : record.card.cardId ∉ ids := fun hid => htrashed (h.live _ hid _ hrec)
      have hleft := (h.left _ l).mpr ⟨record, by rw [hfrom, h.unlinked.same _ hout, hrec], hl⟩
      cases hm : (linkRows (messages.flatMap (·.links)))[(LinkRepo.storedLink link).key]? with
      | none =>
        have := hno _ l (by rw [hm, Option.none_or, hleft])
        rw [← CardLink.toResource_key _ hkey, CardLink.toResource_stored, hres] at this
        cases this
      | some l' =>
        obtain ⟨-, -, -, hkey'⟩ := linkRows_eq_some hm
        have := hno _ l' (by rw [hm, Option.some_or])
        rw [← CardLink.toResource_key _ hkey', CardLink.toResource_stored, hres] at this
        cases this
    · have hrecord := (h.messageFiles record).mpr ⟨path, isTrash, raw, hfile, hraw, hload⟩
      obtain ⟨l, hl⟩ := linkRows_some (List.mem_flatMap.mpr ⟨record, hrecord, hlink⟩)
      obtain ⟨-, -, -, hkey⟩ := linkRows_eq_some hl
      have := hno _ l (by rw [hl, Option.some_or])
      rw [← CardLink.toResource_key _ hkey, CardLink.toResource_stored, hres] at this
      cases this
  · intro hheld key l hl
    by_contra hres
    rw [Bool.not_eq_false] at hres
    cases hm : (linkRows (messages.flatMap (·.links)))[key]? with
    | some l' =>
      rw [hm, Option.some_or, Option.some.injEq] at hl
      subst hl
      obtain ⟨link, hlink, rfl, -⟩ := linkRows_eq_some hm
      obtain ⟨record, hrecord, hlink⟩ := List.mem_flatMap.mp hlink
      obtain ⟨path, isTrash, raw, hfile, hraw, hload⟩ := (h.messageFiles record).mp hrecord
      rw [CardLink.toResource_stored] at hres
      exact hheld (.inr ⟨path, isTrash, raw, record, hfile, hraw, hload, link, hlink, hres⟩)
    | none =>
      rw [hm, Option.none_or] at hl
      obtain ⟨r', hr', hrow⟩ := (h.left key l).mp hl
      by_cases hid : l.fromCardId ∈ ids
      · obtain ⟨r, r1, -, hr1, hu⟩ := h.unlinked.held _ hid
        rw [hr', Option.some.injEq] at hr1
        rw [hr1, hu.links, linkRows_kept, Option.filter_eq_some_iff, hres] at hrow
        cases hrow.2
      · rw [h.unlinked.same _ hid] at hr'
        by_cases hlive : r'.card.deletedAt = none
        · exact hid (h.complete key l hm ((h.links key l).mpr ⟨r', hr', hrow⟩) hres r' hr' hlive)
        · obtain ⟨link, hlink, rfl, -⟩ := linkRows_eq_some hrow
          rw [CardLink.toResource_stored] at hres
          have hown := h.files.id _ _ hr'
          exact hheld (.inl ⟨r', (h.files.record_iff r').mpr (hown ▸ hr'), hlive, link, hlink, hres⟩)

/-- Where no file is left with a link, the rows of the rebuild are those that a deletion of every link to
the resource leaves. -/
theorem Removal.links_eq (h : Removal env work resourceId ids rec rec' messages before left)
    (hheld : ¬ HeldAside env work resourceId) (key : List String) :
    (linkRows (messages.flatMap (·.links)))[key]?.or left.cardLinks[key]? =
      ((linkRows (messages.flatMap (·.links)))[key]?.or before.cardLinks[key]?).filter
        fun l => !l.toResource resourceId := by
  have hno := h.noLink_iff.mpr hheld key
  cases hm : (linkRows (messages.flatMap (·.links)))[key]? with
  | some l =>
    rw [hm, Option.some_or] at hno
    simp [Option.filter, hno l rfl]
  | none =>
    rw [hm, Option.none_or] at hno
    rw [Option.none_or, Option.none_or]
    refine Option.ext fun l => ?_
    rw [Option.filter_eq_some_iff, h.links]
    constructor
    · intro hl
      refine ⟨?_, by simp [hno l hl]⟩
      obtain ⟨r', hr', hrow⟩ := (h.left key l).mp hl
      by_cases hid : l.fromCardId ∈ ids
      · obtain ⟨r, r1, hr, hr1, hu⟩ := h.unlinked.held _ hid
        rw [hr', Option.some.injEq] at hr1
        rw [hr1, hu.links, linkRows_kept, Option.filter_eq_some_iff] at hrow
        exact ⟨r, hr, hrow.1⟩
      · rw [h.unlinked.same _ hid] at hr'
        exact ⟨r', hr', hrow⟩
    · rintro ⟨⟨r, hr, hrow⟩, hres⟩
      rw [h.left]
      by_cases hid : l.fromCardId ∈ ids
      · obtain ⟨r0, r1, hr0, hr1, hu⟩ := h.unlinked.held _ hid
        rw [hr, Option.some.injEq] at hr0
        refine ⟨r1, hr1, ?_⟩
        rw [hu.links, linkRows_kept, Option.filter_eq_some_iff, ← hr0]
        exact ⟨hrow, hres⟩
      · exact ⟨r, by rw [h.unlinked.same _ hid, hr], hrow⟩

end

/-! ## A removal and the next rebuild -/

/-- The database holds the rows that a rebuild makes of the working tree. -/
def MatchesFiles [NatCast K] (env : RebuildEnv K) (s : Services K) : Prop :=
  ∃ rows db, rebuildTables env s.rows s.world.repo.work = .ok (rows, db) ∧ SameRows s.world.db db

/-- A rebuild of the working tree makes the link rows of the database, and none of them leads to the
resource. -/
def RemovedEverywhere [NatCast K] (env : RebuildEnv K) (resourceId : String) (s : Services K) : Prop :=
  ∃ rows db, rebuildTables env s.rows s.world.repo.work = .ok (rows, db) ∧
    db.cardLinks = s.world.db.cardLinks ∧ NoLinkToResource db resourceId ∧
      NoLinkToResource s.world.db resourceId

section
variable [NatCast K] {env : RebuildEnv K} {s s' : SearchState K} {resourceId : String} {now : Int}

omit [NatCast K] in
theorem touchAll_links (now : Int) (cards : List (Card K)) (db : Db K) :
    Ends (ResourceStore.touchAll now cards) db (fun _ db' => db'.cardLinks = db.cardLinks)
      fun _ _ => True := by
  induction cards generalizing db with
  | nil => rfl
  | cons card cards ih =>
    rw [ResourceStore.touchAll]
    refine (CardRepo.update_ends _ _ _ db).bind ?_ fun _ _ _ => trivial
    rintro - db1 (⟨-, rfl⟩ | ⟨c, -, -, -, rfl⟩)
    · exact ih _
    · exact ih _

omit [NatCast K] in
theorem removeRows_links (cards : List (Card K)) (services : Services K) :
    Ends (ResourceStore.removeRows env.toServiceEnv resourceId now cards) services
      (fun _ s1 => s1.world.repo = services.world.repo ∧
        s1.rows = { services.rows with resources := services.rows.resources.erase resourceId } ∧
        s1.world.db.cardLinks = services.world.db.cardLinks.filter fun _ l =>
          !(l.projectId == env.project.projectId && l.toCardId == resourceId && l.toType == "resource"))
      fun _ _ => True := by
  unfold ResourceStore.removeRows
  simp only [Ends.bind_iff, Ends.onWorld_iff, Ends.onDb_iff, LinkRepo.deleteLinksToTyped, Ends.modify_iff,
    modifyRows]
  refine (touchAll_links now cards _).mono ?_ fun _ _ h => h
  intro _ db hdb
  exact ⟨trivial, trivial, hdb⟩

omit [NatCast K] in
/-- The rows of other projects after the statements of a removal. -/
theorem removeRows_others {rows : ServiceRows} (hdeleted : ∃ others, deleteResources env rows = .ok others)
    (hown : ∀ row, rows.resources[resourceId]? = some row → row.resource.projectId = env.project.projectId) :
    OthersKept env rows { rows with resources := rows.resources.erase resourceId } fun _ => True := by
  have herased : othersRows env { rows with resources := rows.resources.erase resourceId } =
      othersRows env rows := by
    refine Map.ext fun id => Option.ext fun row => ?_
    rw [get_othersRows, get_othersRows, Map.get_erase]
    split
    · next he =>
      subst he
      exact ⟨nofun, fun ⟨hrow, hne⟩ => absurd (hown row hrow) hne⟩
    · rfl
  refine ⟨fun id row hrow => herased ▸ hrow, fun id row hrow _ => herased.symm ▸ hrow, ?_, rfl⟩
  rw [deleteResources_iff, herased]
  exact deleteResources_iff.mp hdeleted

/-- The records of a database that matches its files. -/
theorem MatchesFiles.removal (hdir : ∀ paths, (env.directoryOrder paths).Perm paths) {services : Services K}
    (hs : MatchesFiles env services) : Rebuildable env services.rows services.world.repo.work ∧
      ∃ rec cardRows messages, rebuildMessageFiles env.toEnv services.world.repo.work = .ok messages ∧
        FilesAre env.toEnv services.world.repo.work rec ∧ RowsAre env.toEnv cardRows rec ∧
        (∀ id : String, services.world.db.cards[id]?.map Card.untimed = (rec id).map (·.card.untimed)) ∧
        (∀ key : List String, services.world.db.cardLinks[key]? =
          (linkRows (messages.flatMap (·.links)))[key]?.or cardRows.cardLinks[key]?) ∧
        ∀ (key : List String) (l : CardLink), services.world.db.cardLinks[key]? = some l →
          l.projectId = env.project.projectId := by
  obtain ⟨rows, db, hrun, hsame⟩ := hs
  obtain ⟨cards, cardRows, messages, hrebuilt, hrecords⟩ := rebuildTables_ok hdir hrun
  obtain ⟨links, hdb, hlinks⟩ := hrebuilt.links
  have hrows := hrebuilt.projected.rowsAre (SameRows.refl cardRows)
  have hlinks' : ∀ key : List String, services.world.db.cardLinks[key]? =
      (linkRows (messages.flatMap (·.links)))[key]?.or cardRows.cardLinks[key]? := by
    intro key
    rw [hsame.links, hdb]
    exact hlinks key
  refine ⟨⟨rows, db, hrun⟩, _, cardRows, messages, hrecords, hrebuilt.projected.filesAre, hrows,
    fun id => ?_, hlinks', fun key l hl => ?_⟩
  · rw [hsame.cards, hdb]
    exact hrows.cards id
  · rw [hlinks'] at hl
    cases hm : (linkRows (messages.flatMap (·.links)))[key]? with
    | some l' =>
      rw [hm, Option.some_or, Option.some.injEq] at hl
      obtain ⟨link, hlink, rfl, -⟩ := linkRows_eq_some hm
      obtain ⟨record, hrecord, hlink⟩ := List.mem_flatMap.mp hlink
      obtain ⟨path, isTrash, raw, -, -, hload⟩ := (hrebuilt.files record).mp hrecord
      rw [← hl]
      exact (rebuildMessageFile_made hload).2 link hlink
    | none =>
      rw [hm, Option.none_or] at hl
      exact (hrebuilt.projected.link (SameRows.refl _) hl).1

/-- What a removal that returns leaves: the tree of the unlinked records, and the rows with the links
deleted or those of a rebuild. -/
theorem remove_leaves (henv : env.Lawful) (hj : s.services.world.journal = none)
    {rec : String → Option (CardRecord K)} (hfiles : FilesAre env.toEnv s.services.world.repo.work rec)
    (hcards : ∀ id : String, s.services.world.db.cards[id]?.map Card.untimed =
      (rec id).map (·.card.untimed))
    (hdeleted : ∃ others, deleteResources env s.services.rows = .ok others)
    (hapart : OthersApart env s.services.rows s.services.world.repo.work) {fault : Option Exn}
    (h : (ResourceCall.remove resourceId now).run env fault s = .ok () s') :
    Unlinks env resourceId ((ResourceStore.linkedCards s.services.world.db env.project.projectId
        resourceId).map (·.cardId)) rec s.services.world.repo.work s'.services.world.repo.work ∧
      OthersKept env s.services.rows s'.services.rows (fun _ => True) ∧
      (s'.services.world.db.cardLinks = s.services.world.db.cardLinks.filter (fun _ l =>
          !(l.projectId == env.project.projectId && l.toCardId == resourceId && l.toType == "resource")) ∨
        ∃ rows rows', rebuildTables { env with fts := false } rows s'.services.world.repo.work =
          .ok (rows', s'.services.world.db)) := by
  have hrows : ∀ (id : String) (c : Card K), s.services.world.db.cards[id]? = some c →
      ∃ r, rec id = some r ∧ c.untimed = r.card.untimed := by
    intro id c hc
    have := hcards id
    rw [hc, Option.map_some] at this
    obtain ⟨r, hr, he⟩ := Option.map_eq_some_iff.mp this.symm
    exact ⟨r, hr, he.symm⟩
  have hkeyed : ∀ (id : String) (c : Card K), s.services.world.db.cards[id]? = some c → c.cardId = id := by
    intro id c hc
    obtain ⟨r, hr, he⟩ := hrows id c hc
    exact (Card.of_untimed he).1.trans (hfiles.id id r hr)
  have hcommit := commitRemove_ends resourceId now henv hfiles hkeyed hrows
  unfold ResourceCall.run at h
  cases hrun : ResourceStore.commitRemove env.toServiceEnv resourceId now s.services with
  | error e services =>
    simp only [ResourceCall.commit, bind, EStateM.bind, hrun] at h
    cases h
  | ok statements services =>
    obtain ⟨hunlinks, hdb, hjournal, hrows, hown, rfl⟩ := hcommit.ok hrun
    simp only [ResourceCall.commit, bind, EStateM.bind, hrun, pure, EStateM.pure] at h
    split at h
    · next u services1 hstatements =>
      cases h
      cases fault with
      | some e => cases hstatements
      | none =>
        obtain ⟨hrepo, hremoved, hlinks⟩ := (removeRows_links _ services).ok hstatements
        rw [hdb] at hlinks
        rw [← hrepo] at hunlinks
        refine ⟨hunlinks, ?_, .inl hlinks⟩
        dsimp only
        rw [hremoved, hrows]
        exact removeRows_others hdeleted hown
    · rw [if_pos trivial] at h
      obtain ⟨world, hsteps, hrepo, -, -, htables⟩ := rebuild_ok h
      have hsettled := rebuild_settled (hjournal.trans hj) h
      rw [← hsettled] at hunlinks
      dsimp only at htables
      rw [hrows] at htables
      have hkept := rebuildTables_others_unindexed henv.directory (fun locations hlocs =>
        hapart.locations locations (hunlinks.locations.rebuildLocations henv.directory ▸ hlocs)) htables
      exact ⟨hunlinks, ⟨hkept.resources, fun _ _ _ hno => absurd trivial hno, hkept.deleted,
        hkept.threads⟩, .inr ⟨_, _, htables⟩⟩

/-- A rebuild makes the same links with an indexer and without one. -/
theorem rebuildTables_links (hdir : ∀ paths, (env.directoryOrder paths).Perm paths) {work : Tree}
    {rows rows' rows1 rows1' : ServiceRows} {db db1 : Db K}
    (h : rebuildTables env rows work = .ok (rows', db))
    (h1 : rebuildTables { env with fts := false } rows1 work = .ok (rows1', db1)) :
    db.cardLinks = db1.cardLinks := by
  obtain ⟨cards, cardRows, messages, hr, hm⟩ := rebuildTables_ok hdir h
  obtain ⟨cards1, cardRows1, messages1, hr1, hm1⟩ := rebuildTables_ok (by exact hdir) h1
  obtain rfl : messages = messages1 := Except.ok.inj (hm.symm.trans hm1)
  obtain ⟨links, rfl, hlinks⟩ := hr.links
  obtain ⟨links1, rfl, hlinks1⟩ := hr1.links
  have hcards : ∀ r, r ∈ cards ↔ r ∈ cards1 := fun r => by
    rw [hr.projected.files.mem, hr1.projected.files.mem]
    rfl
  have hsame : ∀ key : List String, cardRows.cardLinks[key]? = cardRows1.cardLinks[key]? := by
    refine fun key => Option.ext fun l => ?_
    rw [hr.projected.links, hr1.projected.links]
    exact exists_congr fun r => and_congr_left fun _ => hcards r
  refine Map.ext fun key => ?_
  rw [hlinks, hlinks1, hsame]

/-- After a removal that returns, the rebuild and the database agree on the links, and none leads to the
resource, exactly where no trashed card and no message had one. -/
theorem remove_everywhere_iff (henv : env.Lawful) (hj : s.services.world.journal = none)
    (hs : MatchesFiles env s.services)
    (hapart : OthersApart env s.services.rows s.services.world.repo.work) {fault : Option Exn}
    (h : (ResourceCall.remove resourceId now).run env fault s = .ok () s') :
    RemovedEverywhere env resourceId s'.services ↔
      ¬ HeldAside env.toEnv s.services.world.repo.work resourceId := by
  obtain ⟨hrebuildable, rec, cardRows, messages, hmessages, hfiles, hrows, hcards, hlinks, hproject⟩ :=
    hs.removal henv.directory
  have hdeleted := ((rebuildResources_iff henv.directory hapart.distinct hapart.replaceable).mp
    (rebuildable_iff.mp hrebuildable).1).1
  obtain ⟨hunlinks, hkept, hleft⟩ := remove_leaves henv hj hfiles hcards hdeleted hapart h
  obtain ⟨⟨rows', db, htables⟩, hmessages', rec', db', hall, hproj, hrows'⟩ :=
    hunlinks.rebuilt henv.directory hrebuildable hapart hkept hrows hfiles
  have hkeyed : ∀ (id : String) (c : Card K), s.services.world.db.cards[id]? = some c → c.cardId = id := by
    intro id c hc
    have hrow := hcards id
    rw [hc, Option.map_some] at hrow
    obtain ⟨r, hr, he⟩ := Option.map_eq_some_iff.mp hrow.symm
    exact (Card.of_untimed he.symm).1.trans (hfiles.id id r hr)
  have hremoval : Removal env.toEnv s.services.world.repo.work resourceId
      ((ResourceStore.linkedCards s.services.world.db env.project.projectId resourceId).map (·.cardId))
      rec rec' messages cardRows db' := by
    refine ⟨hfiles, mem_messageRecords henv.directory hmessages, hall, fun id hid r hr => ?_,
      fun key l hm hl hres r hr hlive => ?_, hrows.links, hrows'.links⟩
    · obtain ⟨card, hcard, rfl⟩ := List.mem_map.mp hid
      obtain ⟨hc, hlive, -⟩ := (mem_linkedCards hkeyed).mp hcard
      have hrow := hcards card.cardId
      rw [hc, hr, Option.map_some, Option.map_some, Option.some.injEq] at hrow
      exact (Card.of_untimed hrow).2.2.2.2.2.2.2.symm.trans hlive
    · have hrow := hcards l.fromCardId
      rw [hr, Option.map_some] at hrow
      obtain ⟨c, hc, he⟩ := Option.map_eq_some_iff.mp hrow
      have hid := hkeyed _ _ hc
      have hl' : s.services.world.db.cardLinks[key]? = some l := by rw [hlinks, hm, Option.none_or, hl]
      refine List.mem_map.mpr ⟨c, (mem_linkedCards hkeyed).mpr ⟨hid.symm ▸ hc, ?_, key, l, hl',
        hproject key l hl', hres, hid.symm⟩, hid⟩
      exact (Card.of_untimed he).2.2.2.2.2.2.2.trans hlive
  -- The links of the rebuild are those of the messages over those of the records that are left.
  have hrebuilt : ∀ key : List String, db.cardLinks[key]? =
      (linkRows (messages.flatMap (·.links)))[key]?.or db'.cardLinks[key]? := by
    obtain ⟨cards1, cardRows1, messages1, hr1, hm1⟩ := rebuildTables_ok henv.directory htables
    obtain ⟨links1, rfl, hlinks1⟩ := hr1.links
    rw [hmessages', hmessages, Except.ok.injEq] at hm1
    have hsame := hr1.project
    rw [hproj, Except.ok.injEq] at hsame
    subst hm1
    subst hsame
    exact hlinks1
  have hno : NoLinkToResource db resourceId ↔
      ¬ HeldAside env.toEnv s.services.world.repo.work resourceId := by
    rw [← hremoval.noLink_iff]
    exact forall_congr' fun key => forall_congr' fun l => by rw [hrebuilt]
  constructor
  · rintro ⟨rows1, db1, htables1, -, hno1, -⟩
    rw [htables, Except.ok.injEq, Prod.mk.injEq] at htables1
    exact hno.mp (htables1.2 ▸ hno1)
  · intro hheld
    have heq : db.cardLinks = s'.services.world.db.cardLinks := by
      obtain hfilter | ⟨rows1, rows1', htables1⟩ := hleft
      · rw [hfilter]
        refine Map.ext fun key => ?_
        rw [hrebuilt, hremoval.links_eq hheld, Map.get_filter, hlinks]
        refine Option.ext fun l => ?_
        rw [Option.filter_eq_some_iff, Option.filter_eq_some_iff, ← hlinks]
        refine and_congr_right fun hl => ?_
        rw [hproject key l hl, CardLink.toResource, beq_self_eq_true, Bool.true_and, Bool.and_comm]
      · exact rebuildTables_links henv.directory htables htables1
    refine ⟨rows', db, htables, heq, hno.mpr hheld, fun key l hl => ?_⟩
    rw [← heq] at hl
    exact hno.mpr hheld key l hl

end

/-! ## A link that is kept -/

/-- The file of a card with a link to a note. -/
def attachedText : Bytes :=
  delimited (.map [("card_id", .scalar idA), ("title", .scalar "a"), ("created_at", .scalar "1"),
    ("links", .seq [.map [("to", .scalar "cafe"), ("to_type", .scalar "resource")]])]) "b"

/-- The files of a note and of a card with a link to it. -/
def attachedFiles (isTrash : Bool) : World ℚ :=
  { World.empty with
    repo := { (World.empty : World ℚ).repo with
      work := ((∅ : Tree).insert (cardPathOf isTrash idA) attachedText).insert
        "resources/ca/fe/cafe.json" "n".toList } }

/-- Their project, once it was rebuilt. -/
def attachedCard (isTrash : Bool) : SearchState ℚ :=
  match SearchState.rebuild noteEnv ⟨⟨attachedFiles isTrash, ServiceRows.empty, 0⟩, ∅⟩ with
  | .ok _ s => s
  | .error _ s => s

instance [NatCast K] [DecidableEq K] (env : RebuildEnv K) (s : Services K) :
    Decidable (MatchesFiles env s) :=
  match h : rebuildTables env s.rows s.world.repo.work with
  | .ok result => decidable_of_iff (SameRows s.world.db result.2)
      ⟨fun hs => ⟨result.1, result.2, h, hs⟩, fun ⟨rows, db, hok, hs⟩ => by
        rw [h, Except.ok.injEq] at hok
        rw [hok]
        exact hs⟩
  | .error _ => .isFalse fun ⟨_, _, hok, _⟩ => by simp [h] at hok

theorem attachedCard_removed : ∃ s', (ResourceCall.remove "cafe" 2).run noteEnv none (attachedCard false) =
    .ok () s' ∧ RemovedEverywhere noteEnv "cafe" s'.services := by
  have hruns : MatchesFiles noteEnv (attachedCard false).services ∧
      (othersRows noteEnv (attachedCard false).services.rows).isEmpty = true ∧
      (∀ kv ∈ (attachedCard false).services.world.repo.work.toList,
        startsWith "trash/cards/" kv.1.toList = false ∧ startsWith "ai_messages/" kv.1.toList = false ∧
          startsWith "trash/ai_messages/" kv.1.toList = false) ∧
      (attachedCard false).services.world.journal.isNone = true := by decide +kernel
  obtain ⟨hmatches, hothers, hpaths, hj⟩ := hruns
  have hpath : ∀ (path : String) (raw : Bytes),
      (attachedCard false).services.world.repo.work[path]? = some raw → _ := fun path raw hraw =>
    hpaths (path, raw) (Std.ExtTreeMap.mem_toList_iff_getElem?_eq_some.mpr hraw)
  obtain ⟨_, s', hok⟩ : ∃ u s', (ResourceCall.remove "cafe" 2).run noteEnv none (attachedCard false) =
    .ok u s' := Ends.exists_ok (by decide +kernel)
  refine ⟨s', hok, (remove_everywhere_iff (plainEnv_lawful _) (Option.isNone_iff_eq_none.mp hj) hmatches
    (othersApart_of_none (Std.ExtTreeMap.isEmpty_iff.mp hothers)) hok).mpr ?_⟩
  rintro (⟨record, ⟨path, isTrash, raw, hfile, hraw, hload⟩, htrashed, -⟩ |
    ⟨path, isTrash, raw, -, hfile, hraw, -⟩)
  · have hplace := (loadCardFile_ok hload).2.2.2
    rw [Option.isSome_iff_ne_none.mpr htrashed] at hplace
    subst hplace
    have hno := (hpath path raw hraw).1
    exact absurd hfile.1 (by rw [← Bool.not_eq_true] at hno; exact hno)
  · cases isTrash with
    | false =>
      have hno := (hpath path raw hraw).2.1
      exact absurd hfile.1 (by rw [← Bool.not_eq_true] at hno; exact hno)
    | true =>
      have hno := (hpath path raw hraw).2.2
      exact absurd hfile.1 (by rw [← Bool.not_eq_true] at hno; exact hno)

/-- The call returns, and the next rebuild brings the link back. -/
theorem trashedLink_rebuilt : MatchesFiles noteEnv (attachedCard true).services ∧
    ∃ s', (ResourceCall.remove "cafe" 2).run noteEnv none (attachedCard true) = .ok () s' ∧
      ¬ RemovedEverywhere noteEnv "cafe" s'.services := by
  obtain ⟨_, s', hok, hlinked⟩ : ∃ u s', (ResourceCall.remove "cafe" 2).run noteEnv none
      (attachedCard true) = .ok u s' ∧
      (rebuildTables noteEnv s'.services.rows s'.services.world.repo.work).toOption.all
        (fun tables => tables.2.cardLinks.toList.any fun kv => kv.2.toResource "cafe") = true :=
    Ends.returns (by decide +kernel)
  refine ⟨by decide +kernel, s', hok, ?_⟩
  rintro ⟨rows, db, htables, -, hno, -⟩
  rw [htables, Except.toOption, Option.all_some] at hlinked
  obtain ⟨⟨key, l⟩, hmem, hres⟩ := List.any_eq_true.mp hlinked
  have := hno key l (Std.ExtTreeMap.mem_toList_iff_getElem?_eq_some.mp hmem)
  rw [hres] at this
  cases this

end HolderCore
