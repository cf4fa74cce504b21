import HolderCore.Card.FileLemmas
import HolderCore.Project.Slices

/-! # Reading back what was written

The record that a rebuild loads from a card file that the store rendered. The columns, links and
milestones of a row that was loaded, or stored under the same defaults, come back as they are. -/

namespace HolderCore

/-! ## What a parsed file can hold -/

section
variable {α : Type} {P : α → Prop}

theorem parseItems_forall {parse : YamlNode → Option (Option α)}
    (h : ∀ item a, parse item = some (some a) → P a) (items : List YamlNode) :
    ∀ a ∈ (parseItems parse items).1, P a := by
  induction items with
  | nil => simp [parseItems]
  | cons item items ih =>
    cases hitem : parse item with
    | none => simp [parseItems, hitem]
    | some found =>
      cases found with
      | none => simpa [parseItems, hitem] using ih
      | some a =>
        simp only [parseItems, hitem, List.forall_mem_cons]
        exact ⟨h item a hitem, ih⟩

theorem parseSeq_forall {parse : YamlNode → Option (Option α)}
    (h : ∀ item a, parse item = some (some a) → P a) (node : YamlNode) (key : String) :
    ∀ a ∈ (parseSeq node key parse).1, P a := by
  unfold parseSeq
  split
  · exact parseItems_forall h _
  · simp

end

section
variable {y : Yaml K} {card : Card K} {item : YamlNode}

theorem parseLink_some {link : CardLink} (h : parseLink y card item = some (some link)) :
    link.toCardId ≠ "" := by
  unfold parseLink at h
  split at h
  · simp only [Option.pure_def, Option.bind_eq_bind, Option.bind_eq_some_iff, Option.some.injEq] at h
    obtain ⟨_, -, _, -, _, -, _, -, _, -, h⟩ := h
    split at h
    · cases h
    · next hto =>
      rw [Option.some.injEq] at h
      rw [← h]
      simpa [String.isEmpty_iff] using hto
  · cases h

theorem parseMilestone_some {milestone : Milestone}
    (h : parseMilestone y card item = some (some milestone)) : milestone.milestoneId ≠ "" := by
  unfold parseMilestone at h
  split at h
  · simp only [Option.pure_def, Option.bind_eq_bind, Option.bind_eq_some_iff, Option.some.injEq] at h
    obtain ⟨id, -, _, -, _, -, _, -, _, -, _, -, _, -, _, -, h⟩ := h
    split at h
    · cases h
    · next hid =>
      rw [Option.some.injEq] at h
      rw [← h]
      simpa [String.isEmpty_iff] using hid
  · cases h

/-- Every link names a card and every milestone has an id. -/
structure ParsedCardFile.Named (parsed : ParsedCardFile K) : Prop where
  links : ∀ link ∈ parsed.links, link.toCardId ≠ ""
  milestones : ∀ milestone ∈ parsed.milestones, milestone.milestoneId ≠ ""

theorem parseNode_named [NatCast K] (node : YamlNode) (raw body : Bytes) :
    (parseNode y node raw body).Named := by
  have hlinks : ∀ card : Card K, ∀ link ∈ (parseSeq node "links" (parseLink y card)).1,
      link.toCardId ≠ "" := fun card => parseSeq_forall (fun _ _ => parseLink_some) node "links"
  have hmilestones : ∀ card : Card K, ∀ m ∈ (parseSeq node "milestones" (parseMilestone y card)).1,
      m.milestoneId ≠ "" := fun card => parseSeq_forall (fun _ _ => parseMilestone_some) node _
  unfold parseNode
  dsimp only
  split
  · exact ⟨by simp, by simp⟩
  · split
    · exact ⟨hlinks _, by simp⟩
    · exact ⟨hlinks _, hmilestones _⟩

theorem parseCardFile_named [NatCast K] (raw : Bytes) : (parseCardFile y raw).Named := by
  have hnone : (noFrontMatter raw : ParsedCardFile K).Named := ⟨by simp [noFrontMatter], by simp [noFrontMatter]⟩
  have hdelimited : ∀ opening closing, (parseDelimited y raw opening closing).Named := by
    intro opening closing
    unfold parseDelimited
    split
    · exact hnone
    · split
      · exact parseNode_named _ _ _
      · exact hnone
  unfold parseCardFile
  split
  · exact hdelimited _ _
  · split
    · exact hdelimited _ _
    · exact hnone

end

/-! ## Rows that come back as they are -/

/-- The columns of a card that a rebuild finds at `mtime` as they were written. -/
structure Card.Fits (env : Env K) (mtime : Int) (card : Card K) : Prop where
  project : card.projectId = env.project.projectId
  path : card.relPath = livePath card.cardId
  title : card.title ≠ ""
  created : card.createdAt ≤ 0 → card.createdAt = mtime

/-- A link of a card that a rebuild finds as it was written. -/
structure CardLink.Fits (card : Card K) (link : CardLink) : Prop where
  project : link.projectId = card.projectId
  fromCard : link.fromCardId = card.cardId
  toCard : link.toCardId ≠ ""
  toType : link.toType ≠ ""
  kind : link.kind ≠ ""
  created : link.createdAt ≤ 0 → link.createdAt = card.createdAt

/-- A milestone of a card that a rebuild finds as it was written. -/
structure Milestone.Fits (card : Card K) (milestone : Milestone) : Prop where
  project : milestone.projectId = card.projectId
  ofCard : milestone.cardId = card.cardId
  id : milestone.milestoneId ≠ ""
  created : milestone.createdAt ≤ 0 → milestone.createdAt = card.createdAt
  updated : milestone.updatedAt ≤ 0 → milestone.updatedAt = milestone.createdAt

section
variable {card card' : Card K} {link : CardLink} {milestone : Milestone}

/-- Links and milestones belong to a card's id, project and time of creation. -/
structure SameOwner (card card' : Card K) : Prop where
  id : card'.cardId = card.cardId
  project : card'.projectId = card.projectId
  created : card'.createdAt = card.createdAt

theorem SameOwner.of_untimed (h : card'.untimed = card.untimed) : SameOwner card card' :=
  ⟨(Card.of_untimed h).1, (Card.of_untimed h).2.1, (Card.of_untimed h).2.2.2.2.2.2.1⟩

theorem recordLink_congr (h : SameOwner card card') (link : CardLink) :
    recordLink card' link = recordLink card link := by
  simp only [recordLink, h.id, h.project, h.created]

theorem recordMilestone_congr (h : SameOwner card card') (milestone : Milestone) :
    recordMilestone card' milestone = recordMilestone card milestone := by
  simp only [recordMilestone, h.id, h.project, h.created]

theorem CardLink.Fits.congr (h : link.Fits card) (ho : SameOwner card card') : link.Fits card' :=
  ⟨h.project.trans ho.project.symm, h.fromCard.trans ho.id.symm, h.toCard, h.toType, h.kind,
    fun hc => (h.created hc).trans ho.created.symm⟩

theorem Milestone.Fits.congr (h : milestone.Fits card) (ho : SameOwner card card') :
    milestone.Fits card' :=
  ⟨h.project.trans ho.project.symm, h.ofCard.trans ho.id.symm, h.id,
    fun hc => (h.created hc).trans ho.created.symm, h.updated⟩

theorem recordLink_fits (h : link.toCardId ≠ "") : (recordLink card link).Fits card := by
  refine ⟨rfl, rfl, h, ?_, ?_, fun hc => ?_⟩
  · by_cases ht : link.toType = "" <;> simp [recordLink, String.isEmpty_iff, ht]
  · by_cases hk : link.kind = "" <;> simp [recordLink, String.isEmpty_iff, hk]
  · by_cases hcreated : link.createdAt ≤ 0
    · simp [recordLink, hcreated]
    · simp [recordLink, hcreated] at hc

theorem recordMilestone_fits (h : milestone.milestoneId ≠ "") :
    (recordMilestone card milestone).Fits card := by
  refine ⟨rfl, rfl, h, fun hc => ?_, fun hu => ?_⟩
  · by_cases hcreated : milestone.createdAt ≤ 0
    · simp [recordMilestone, hcreated]
    · simp [recordMilestone, hcreated] at hc
  · by_cases hupdated : milestone.updatedAt ≤ 0
    · simp [recordMilestone, hupdated]
    · simp [recordMilestone, hupdated] at hu

theorem CardLink.Fits.record (h : link.Fits card) : recordLink card link = link := by
  have hcreated : (if link.createdAt ≤ 0 then card.createdAt else link.createdAt) = link.createdAt := by
    split
    · next hc => exact (h.created hc).symm
    · rfl
  simp [recordLink, hcreated, String.isEmpty_iff, h.toType, h.kind, h.project.symm, h.fromCard.symm]

theorem Milestone.Fits.record (h : milestone.Fits card) :
    recordMilestone card milestone = milestone := by
  have hcreated : (if milestone.createdAt ≤ 0 then card.createdAt else milestone.createdAt) =
      milestone.createdAt := by
    split
    · next hc => exact (h.created hc).symm
    · rfl
  have hupdated : (if milestone.updatedAt ≤ 0 then milestone.createdAt else milestone.updatedAt) =
      milestone.updatedAt := by
    split
    · next hu => exact (h.updated hu).symm
    · rfl
  simp [recordMilestone, hcreated, hupdated, h.project.symm, h.ofCard.symm]

/-- A link goes through a file unchanged but for the defaults. -/
theorem reload_links {links : List CardLink} (h : ∀ link ∈ links, link.toCardId ≠ "") :
    (links.filterMap (readBackLink card)).map (recordLink card') = links.map (recordLink card') := by
  rw [List.map_filterMap, ← List.filterMap_eq_map]
  refine List.filterMap_congr fun link hlink => ?_
  have hto : link.toCardId.isEmpty = false := by simpa [String.isEmpty_iff] using h link hlink
  by_cases ht : link.toType = "" <;> by_cases hk : link.kind = "" <;>
    simp [readBackLink, recordLink, hto, ht, hk, String.isEmpty_iff]

theorem reload_milestones {milestones : List Milestone}
    (h : ∀ milestone ∈ milestones, milestone.milestoneId ≠ "") :
    (milestones.filterMap (readBackMilestone card)).map (recordMilestone card') =
      milestones.map (recordMilestone card') := by
  rw [List.map_filterMap, ← List.filterMap_eq_map]
  refine List.filterMap_congr fun milestone hm => ?_
  have hid : milestone.milestoneId.isEmpty = false := by simpa [String.isEmpty_iff] using h milestone hm
  simp [readBackMilestone, recordMilestone, hid]

theorem map_recordLink {links : List CardLink} (h : ∀ link ∈ links, link.Fits card) :
    links.map (recordLink card) = links := by
  conv_rhs => rw [← List.map_id links]
  exact List.map_congr_left fun link hlink => (h link hlink).record

end

/-! ## The record of a file that was written -/

/-- What the store's own text of a card file parses to. -/
def readBack (card : Card K) (links : List CardLink) (milestones : List Milestone) (body : String) :
    ParsedCardFile K where
  card
  links := links.filterMap (readBackLink card)
  milestones := milestones.filterMap (readBackMilestone card)
  body
  hasFrontMatter := true

/-- A record whose card, links and milestones come back as they are. -/
structure CardRecord.Fits (env : Env K) (record : CardRecord K) : Prop where
  card : record.card.Fits env
    (env.lastWriteTime (cardPathOf record.card.deletedAt.isSome record.card.cardId))
  links : ∀ link ∈ record.links, link.Fits record.card
  milestones : ∀ milestone ∈ record.milestones, milestone.Fits record.card

section
variable [NatCast K] {env : Env K} {card : Card K} {links : List CardLink}
  {milestones : List Milestone} {body : String} {raw : Bytes} {isTrash : Bool}

theorem load_rendered_iff (henv : env.Lawful) (hid : card.cardId ≠ "")
    (henc : Encoded env (renderCardFrontMatter env.yaml card links milestones ++ body.toList) raw)
    {record : CardRecord K} :
    loadCardFile env (cardPathOf isTrash card.cardId) raw isTrash = .ok record ↔
      isValidUuid card.cardId = true ∧ record = recordOf env (cardPathOf isTrash card.cardId) isTrash
        (readBack card links milestones body) := by
  have hparse := parseCardFile_render henv.yaml card links milestones body
  have hdecode := henc.decodeForProject henv.privacy
  have hempty : card.cardId.isEmpty = false := by simpa [String.isEmpty_iff] using hid
  have hnamed : namedCard (cardPathOf isTrash card.cardId) (readBack card links milestones body) =
      card := by simp [namedCard, readBack, hempty]
  change _ = readBack card links milestones body at hparse
  rw [loadCardFile_iff]
  constructor
  · rintro ⟨plain, hplain, -, -, hvalid, -, rfl⟩
    rw [hdecode, Except.ok.injEq] at hplain
    subst hplain
    rw [hparse, hnamed] at hvalid
    rw [hparse]
    exact ⟨hvalid, rfl⟩
  · rintro ⟨hvalid, rfl⟩
    refine ⟨_, hdecode, ?_⟩
    rw [hparse, hnamed]
    exact ⟨by simp [readBack], by simp [readBack, hempty], hvalid, rfl, rfl⟩

omit [NatCast K] in
theorem recordOf_readBack (path : String) (hid : card.cardId ≠ "") :
    recordOf env path isTrash (readBack card links milestones body) =
      { card := recordCard env card body (env.lastWriteTime path) isTrash
        body
        links := (links.filterMap (readBackLink card)).map
          (recordLink (recordCard env card body (env.lastWriteTime path) isTrash))
        milestones := (milestones.filterMap (readBackMilestone card)).map
          (recordMilestone (recordCard env card body (env.lastWriteTime path) isTrash)) } := by
  have hnamed : namedCard path (readBack card links milestones body) = card := by
    simp [namedCard, readBack, String.isEmpty_iff, hid]
  rw [recordOf, hnamed]
  rfl

omit [NatCast K] in
/-- Columns that fit are loaded as they were written, but for the time of the last edit. -/
theorem Card.Fits.record {mtime : Int} (h : card.Fits env mtime)
    (hdel : card.deletedAt.isSome = isTrash) :
    (recordCard env card body mtime isTrash).untimed = card.untimed := by
  have hcreated : (if card.createdAt ≤ 0 then mtime else card.createdAt) = card.createdAt := by
    split
    · next hc => exact (h.created hc).symm
    · rfl
  have hdeleted : (if isTrash then some (card.deletedAt.getD mtime) else none) = card.deletedAt := by
    subst hdel
    cases card.deletedAt <;> rfl
  simp [recordCard, Card.untimed, hcreated, hdeleted, h.project.symm, h.path.symm, h.title]

theorem loadCardFile_fits {path : String} {record : CardRecord K}
    (h : loadCardFile env path raw isTrash = .ok record) : record.Fits env := by
  obtain ⟨hl, hvalid, hpath, hdel⟩ := loadCardFile_ok h
  obtain ⟨plain, -, -, -, -, -, hrec⟩ := loadCardFile_iff.mp h
  have hnamed := parseCardFile_named (y := env.yaml) plain
  refine ⟨⟨hl.project, hl.path, ?_, ?_⟩, fun link hlink => ?_, fun m hm => ?_⟩
  · have hid : record.card.cardId ≠ "" := by
      intro he
      have := hl.length
      simp [he] at this
    rw [hrec] at hid ⊢
    simp only [recordOf, recordCard] at hid ⊢
    split
    · exact deriveTitle_ne_empty _ hid
    · next ht => simpa [String.isEmpty_iff] using ht
  · rw [hdel, ← hpath, hrec]
    simp only [recordOf, recordCard]
    split
    · exact fun _ => rfl
    · next hc => exact fun hc' => absurd hc' hc
  · rw [hrec] at hlink ⊢
    obtain ⟨l, hl, rfl⟩ := List.mem_map.mp hlink
    exact recordLink_fits (hnamed.links l hl)
  · rw [hrec] at hm ⊢
    obtain ⟨m', hm', rfl⟩ := List.mem_map.mp hm
    exact recordMilestone_fits (hnamed.milestones m' hm')

end

/-! ## The rows that a file is rendered from -/

section
variable {env : Env K} {db : Db K} {projectId cardId : String}

theorem mem_listOutgoing {l : CardLink} : l ∈ LinkRepo.listOutgoing db projectId cardId ↔
    (∃ key : List String, db.cardLinks[key]? = some l) ∧ l.projectId = projectId ∧ l.fromCardId = cardId := by
  unfold LinkRepo.listOutgoing
  rw [List.mem_insertionSort, List.mem_filter, Map.mem_rows]
  simp

/-- The links of one card, as rows of a table. -/
theorem linkRows_listOutgoing
    (hkeys : ∀ (key : List String) (l : CardLink), db.cardLinks[key]? = some l → key = l.key)
    (htype : ∀ l ∈ LinkRepo.listOutgoing db projectId cardId, l.toType ≠ "") {key : List String}
    {l : CardLink} : (linkRows (LinkRepo.listOutgoing db projectId cardId))[key]? = some l ↔
      db.cardLinks[key]? = some l ∧ l.projectId = projectId ∧ l.fromCardId = cardId := by
  have hstored : ∀ l ∈ LinkRepo.listOutgoing db projectId cardId, LinkRepo.storedLink l = l := by
    intro l hl
    simp [LinkRepo.storedLink, String.isEmpty_iff, htype l hl]
  have hnodup : ((LinkRepo.listOutgoing db projectId cardId).map CardLink.key).Nodup := by
    have hrows := Map.nodup_map_rows fun key l hl => (hkeys key l hl).symm
    refine ((List.perm_insertionSort _ _).map _).nodup_iff.mpr ?_
    exact hrows.sublist (List.filter_sublist.map _)
  have hfold : linkRows (LinkRepo.listOutgoing db projectId cardId) =
      (LinkRepo.listOutgoing db projectId cardId).foldl (fun t link => t.insert link.key (id link)) ∅ := by
    refine List.foldl_ext _ _ _ fun t link hlink => ?_
    rw [hstored link hlink]
    rfl
  rw [hfold, Map.get_foldl_insert_nodup hnodup]
  simp only [mem_listOutgoing, Std.ExtTreeMap.getElem?_empty, reduceCtorEq, and_false, or_false]
  constructor
  · rintro ⟨x, ⟨⟨key', hx⟩, hproj, hfrom⟩, rfl, rfl⟩
    rw [hkeys key' x hx] at hx
    exact ⟨hx, hproj, hfrom⟩
  · rintro ⟨hl, hproj, hfrom⟩
    exact ⟨l, ⟨⟨key, hl⟩, hproj, hfrom⟩, (hkeys key l hl).symm, rfl⟩

end

/-! ## One live file rewritten -/

/-- The record of a live card's file, as the store wrote it. -/
def writtenRecord (env : Env K) (card : Card K) (links : List CardLink) (milestones : List Milestone)
    (body : String) : CardRecord K where
  card := recordCard env card body (env.lastWriteTime (livePath card.cardId)) false
  body
  links := links.map (recordLink card)
  milestones := milestones.map (recordMilestone card)

/-- A live card whose file is written: the names that a file keeps, and columns that fit. -/
structure Writable (env : Env K) (card : Card K) (links : List CardLink)
    (milestones : List Milestone) : Prop where
  valid : isValidUuid card.cardId = true
  live : card.deletedAt = none
  card : card.Fits env (env.lastWriteTime (livePath card.cardId))
  links : ∀ link ∈ links, link.toCardId ≠ ""
  milestones : ∀ milestone ∈ milestones, milestone.milestoneId ≠ ""

section
variable [NatCast K] {env : Env K} {work : Tree} {card : Card K} {links : List CardLink}
  {milestones : List Milestone} {body : String} {raw : Bytes}

omit [NatCast K] in
theorem Writable.untimed (h : Writable env card links milestones) (body : String) :
    (writtenRecord env card links milestones body).card.untimed = card.untimed :=
  h.card.record (by rw [h.live]; rfl)

omit [NatCast K] in
theorem Writable.length (h : Writable env card links milestones) : 4 ≤ card.cardId.length := by
  have := isValidUuid_length h.valid
  omega

/-- A file that was written loads to the record of what was written. -/
theorem Writable.fileOf (h : Writable env card links milestones) (henv : env.Lawful)
    (hraw : work[livePath card.cardId]? = some raw)
    (henc : Encoded env (renderCardFrontMatter env.yaml card links milestones ++ body.toList) raw)
    (htrash : work[trashPath card.cardId]? = none) :
    CardFileOf env work (writtenRecord env card links milestones body) := by
  have hid : card.cardId ≠ "" := by
    intro he
    have := h.length
    simp [he] at this
  have hload := (@load_rendered_iff _ _ _ _ _ _ _ _ false henv hid henc _).mpr ⟨h.valid, rfl⟩
  have howner : SameOwner card
      (recordCard env card body (env.lastWriteTime (livePath card.cardId)) false) :=
    .of_untimed (h.untimed body)
  rw [recordOf_readBack _ hid, reload_links h.links, reload_milestones h.milestones] at hload
  have hrec : (⟨recordCard env card body (env.lastWriteTime (livePath card.cardId)) false, body,
      links.map (recordLink (recordCard env card body (env.lastWriteTime (livePath card.cardId)) false)),
      milestones.map (recordMilestone
        (recordCard env card body (env.lastWriteTime (livePath card.cardId)) false))⟩ : CardRecord K) =
      writtenRecord env card links milestones body := by
    rw [writtenRecord, CardRecord.mk.injEq]
    exact ⟨rfl, rfl, List.map_congr_left fun link _ => recordLink_congr howner link,
      List.map_congr_left fun m _ => recordMilestone_congr howner m⟩
  refine ⟨⟨raw, hraw, ?_⟩, htrash⟩
  rw [← hrec]
  exact hload

end

/-- Links of a file that was loaded come back with the record. -/
theorem CardRecord.reload_links {record : CardRecord K} {parsed : ParsedCardFile K} {card : Card K}
    (h : record.links = parsed.links.map (recordLink record.card)) (ho : SameOwner record.card card) :
    parsed.links.map (recordLink card) = record.links := by
  rw [h]
  exact List.map_congr_left fun link _ => recordLink_congr ho link

theorem CardRecord.reload_milestones {record : CardRecord K} {parsed : ParsedCardFile K}
    {card : Card K} (h : record.milestones = parsed.milestones.map (recordMilestone record.card))
    (ho : SameOwner record.card card) :
    parsed.milestones.map (recordMilestone card) = record.milestones := by
  rw [h]
  exact List.map_congr_left fun m _ => recordMilestone_congr ho m

section
variable [NatCast K] {env : Env K} {w w' : World K} {rec : String → Option (CardRecord K)}
  {id : String} {record : CardRecord K}

/-- A database in step after a write to one card. -/
theorem Sliced.edit (h : Sliced env w rec) (hid : record.card.cardId = id) (hlen : 4 ≤ id.length)
    (hwork : ∀ path : String, ¬ CardPath id path → w'.repo.work[path]? = w.repo.work[path]?)
    (hfile : CardFileOf env w'.repo.work record)
    (hunique : record.card.deletedAt = none → (env.extractTags record.body).Nodup ∧
      (record.milestones.map (·.milestoneId)).Nodup)
    (hrooted : AllRooted fun x => (Function.update rec id (some record) x).map (·.card.parentCardId))
    (hkeys : TagKeys env w'.db) (hsame : ∀ x, x ≠ id → SameSlice env w.db w'.db x)
    (hslice : SliceIs env w'.db id (some record)) :
    Sliced env w' (Function.update rec id (some record)) := by
  have hout : ∀ x ∉ ({id} : Set String), Function.update rec id (some record) x = rec x :=
    fun x hx => Function.update_of_ne hx _ _
  refine ⟨h.files.update (S := {id}) ?_ hout ?_ ?_ ?_ hrooted, h.rows.update (S := {id}) hkeys hout ?_ ?_⟩
  · rintro x rfl
    exact hlen
  · exact fun path hpath => hwork path (hpath id rfl)
  · rintro x rfl r hr
    rw [Function.update_self, Option.some.injEq] at hr
    subst hr
    exact ⟨hid, hfile, hunique⟩
  · rintro x rfl hnone
    rw [Function.update_self] at hnone
    cases hnone
  · exact fun x hx => hsame x hx
  · rintro x rfl
    rw [Function.update_self]
    exact hslice

end

end HolderCore
