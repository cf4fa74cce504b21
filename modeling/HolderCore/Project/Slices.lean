import HolderCore.Project.InSync

/-! # A database in step, card by card

A database is in step with the files when each card's rows are those of the record of its file, no
other card file is there, and the parent pointers of the records all lead up to a root. A write to
some cards then only has to be compared with the records of those cards. -/

namespace HolderCore

/-- The one file of a card, and the record that a rebuild loads from it. -/
structure CardFileOf [NatCast K] (env : Env K) (work : Tree) (record : CardRecord K) : Prop where
  load : ∃ raw, work[cardPathOf record.card.deletedAt.isSome record.card.cardId]? = some raw ∧
    loadCardFile env (cardPathOf record.card.deletedAt.isSome record.card.cardId) raw
      record.card.deletedAt.isSome = .ok record
  only : work[cardPathOf (!record.card.deletedAt.isSome) record.card.cardId]? = none

/-- A link row belongs to the record of the card it leads from. -/
def LinkOf (rec : String → Option (CardRecord K)) (key : List String) (l : CardLink) : Prop :=
  ∃ r, rec l.fromCardId = some r ∧ (linkRows r.links)[key]? = some l

/-- A milestone row belongs to the record of its card, which is live. -/
def MilestoneOf (rec : String → Option (CardRecord K)) (id : String) (m : Milestone) : Prop :=
  m.milestoneId = id ∧ ∃ r, rec m.cardId = some r ∧ r.card.deletedAt = none ∧ m ∈ r.milestones

/-- A tag of a live card. -/
def TagOf (env : Env K) (rec : String → Option (CardRecord K)) (id tag : String) : Prop :=
  ∃ r, rec id = some r ∧ r.card.deletedAt = none ∧ tag ∈ env.extractTags r.body

/-- The rows of a database are those of the records. -/
structure RowsAre (env : Env K) (db : Db K) (rec : String → Option (CardRecord K)) : Prop where
  cards : ∀ id : String, db.cards[id]?.map Card.untimed = (rec id).map (·.card.untimed)
  links : ∀ (key : List String) (l : CardLink), db.cardLinks[key]? = some l ↔ LinkOf rec key l
  milestones : ∀ (id : String) (m : Milestone), db.milestones[id]? = some m ↔ MilestoneOf rec id m
  tagKeys : ∀ (key : List String) (t : CardTag), db.cardTags[key]? = some t →
    key = t.key ∧ t.projectId = env.project.projectId
  tags : ∀ id tag : String, (∃ t, db.cardTags[[env.project.projectId, id, tag]]? = some t) ↔
    TagOf env rec id tag

theorem RowsAre.mem_cards {env : Env K} {db : Db K} {rec : String → Option (CardRecord K)}
    (h : RowsAre env db rec) {id : String} : id ∈ db.cards ↔ ∃ r, rec id = some r := by
  have hrow := h.cards id
  rw [Map.mem_iff]
  cases hc : db.cards[id]? <;> cases hr : rec id <;> simp_all

/-- Each card has its file, and the records can be inserted together. -/
structure FilesAre [NatCast K] (env : Env K) (work : Tree) (rec : String → Option (CardRecord K)) :
    Prop where
  id : ∀ id r, rec id = some r → r.card.cardId = id
  file : ∀ id r, rec id = some r → CardFileOf env work r
  only : ∀ path isTrash, CardFile isTrash path → path ∈ work →
    ∃ id r, rec id = some r ∧ r.card.deletedAt.isSome = isTrash ∧ path = cardPathOf isTrash id
  tags : ∀ id r, rec id = some r → r.card.deletedAt = none → (env.extractTags r.body).Nodup
  milestones : ∀ id r, rec id = some r → r.card.deletedAt = none →
    (r.milestones.map (·.milestoneId)).Nodup
  rooted : AllRooted fun id => (rec id).map (·.card.parentCardId)

/-- A database in step with its files, through the records of the cards. -/
structure Sliced [NatCast K] (env : Env K) (w : World K) (rec : String → Option (CardRecord K)) :
    Prop where
  files : FilesAre env w.repo.work rec
  rows : RowsAre env w.db rec

section
variable [NatCast K] {env : Env K} {w : World K} {rec : String → Option (CardRecord K)}

theorem FilesAre.loaded {work : Tree} (h : FilesAre env work rec) {id : String} {r : CardRecord K}
    (hr : rec id = some r) : Loaded env r ∧ isValidUuid id = true := by
  obtain ⟨raw, -, hload⟩ := (h.file id r hr).load
  obtain ⟨hl, hv, -⟩ := loadCardFile_ok hload
  exact ⟨hl, by rw [← h.id id r hr]; exact hv⟩

theorem FilesAre.record_iff {work : Tree} (h : FilesAre env work rec) (r : CardRecord K) :
    FileRecord env work r ↔ rec r.card.cardId = some r := by
  constructor
  · rintro ⟨path, isTrash, raw, hfile, hraw, hload⟩
    obtain ⟨hl, hv, hpath, hdel⟩ := loadCardFile_ok hload
    obtain ⟨id, r', hr', hdel', hpath'⟩ := h.only path isTrash hfile (Map.mem_iff.mpr ⟨raw, hraw⟩)
    obtain ⟨hl', hv'⟩ := h.loaded hr'
    have hid : r.card.cardId = id := (cardPathOf_cardPath isTrash _).inj hl.length
      (by have := isValidUuid_length hv'; omega) (by rw [← hpath, hpath']; exact cardPathOf_cardPath _ _)
    obtain ⟨raw', hraw', hload'⟩ := (h.file id r' hr').load
    rw [h.id id r' hr', hdel', ← hpath', hraw, Option.some.injEq] at hraw'
    rw [h.id id r' hr', hdel', ← hpath', ← hraw', hload, Except.ok.injEq] at hload'
    rw [hid, hr', hload']
  · intro hr
    obtain ⟨raw, hraw, hload⟩ := (h.file _ r hr).load
    exact ⟨_, _, raw, cardFile_cardPathOf _ (h.loaded hr).2, hraw, hload⟩

theorem FilesAre.allLoad {work : Tree} (h : FilesAre env work rec) : AllLoad env work := by
  intro path isTrash raw hfile hraw
  obtain ⟨id, r, hr, hdel, rfl⟩ := h.only path isTrash hfile (Map.mem_iff.mpr ⟨raw, hraw⟩)
  obtain ⟨raw', hraw', hload⟩ := (h.file id r hr).load
  rw [h.id id r hr, hdel] at hraw' hload
  rw [hraw, Option.some.injEq] at hraw'
  exact ⟨r, hraw' ▸ hload⟩

/-! ## From a rebuild to the records, and back -/

/-- The record of a card among the records that were loaded. -/
def recordIn (records : List (CardRecord K)) (id : String) : Option (CardRecord K) :=
  records.find? (·.card.cardId == id)

omit [NatCast K] in
theorem recordIn_eq_some {records : List (CardRecord K)} (hids : (records.map (·.card.cardId)).Nodup)
    {id : String} {r : CardRecord K} : recordIn records id = some r ↔ r ∈ records ∧ r.card.cardId = id := by
  unfold recordIn
  constructor
  · intro h
    exact ⟨List.mem_of_find?_eq_some h, by simpa using List.find?_some h⟩
  · rintro ⟨hr, rfl⟩
    cases hf : records.find? (·.card.cardId == r.card.cardId) with
    | none => exact absurd (by simp) (List.find?_eq_none.mp hf r hr)
    | some found =>
      have hid : found.card.cardId = r.card.cardId := by simpa using List.find?_some hf
      rw [List.inj_on_of_nodup_map hids (List.mem_of_find?_eq_some hf) hr hid]

theorem Projected.filesAre {work : Tree} {records : List (CardRecord K)} {db : Db K}
    (h : Projected env work records db) : FilesAre env work (recordIn records) := by
  have hids := h.insertable.compatible.ids
  have hrec : ∀ {id r}, recordIn records id = some r → r ∈ records ∧ r.card.cardId = id :=
    fun hr => (recordIn_eq_some hids).mp hr
  refine ⟨fun id r hr => (hrec hr).2, fun id r hr => ?_, fun path isTrash hfile hmem => ?_,
    fun id r hr => h.insertable.compatible.tags r (hrec hr).1, fun id r hr hlive => ?_,
    h.insertable.rooted⟩
  · have hmem := (hrec hr).1
    have hfile := (h.files.mem r).mp hmem
    refine ⟨hfile.at_path, Option.eq_none_iff_forall_ne_some.mpr fun raw hraw => ?_⟩
    have hcard := cardFile_cardPathOf (!r.card.deletedAt.isSome) hfile.id_valid
    obtain ⟨r', hload⟩ := h.files.allLoad _ _ raw hcard hraw
    obtain ⟨hl', -, hpath, hdel⟩ := loadCardFile_ok hload
    have hid : r'.card.cardId = r.card.cardId := (cardPathOf_cardPath _ _).inj hl'.length
      (h.files.loaded r hmem).length (hpath ▸ cardPathOf_cardPath _ _)
    have hmem' : r' ∈ records := (h.files.mem r').mpr ⟨_, _, raw, hcard, hraw, hload⟩
    rw [List.inj_on_of_nodup_map hids hmem' hmem hid] at hdel
    exact absurd hdel.symm (Bool.not_ne_self _)
  · obtain ⟨raw, hraw⟩ := Map.mem_iff.mp hmem
    obtain ⟨r, hload⟩ := h.files.allLoad path isTrash raw hfile hraw
    have hr : r ∈ records := (h.files.mem r).mpr ⟨path, isTrash, raw, hfile, hraw, hload⟩
    obtain ⟨-, -, hpath, hdel⟩ := loadCardFile_ok hload
    exact ⟨_, r, (recordIn_eq_some hids).mpr ⟨hr, rfl⟩, hdel, hpath⟩
  · have hsub : (r.milestones.map (·.milestoneId)).Sublist
        ((liveMilestones records).map (·.milestoneId)) := by
      have hmem : r ∈ records.filter (·.card.live) :=
        List.mem_filter.mpr ⟨(hrec hr).1, Card.live_iff.mpr hlive⟩
      have hone := (List.singleton_sublist.mpr hmem).flatMap (·.milestones)
      rw [List.flatMap_singleton] at hone
      exact hone.map _
    exact h.insertable.compatible.milestones.sublist hsub

theorem Projected.rowsAre {work : Tree} {records : List (CardRecord K)} {db db0 : Db K}
    (h : Projected env work records db) (hs : SameRows db0 db) :
    RowsAre env db0 (recordIn records) := by
  have hids := h.insertable.compatible.ids
  have hrec : ∀ {id r}, recordIn records id = some r ↔ r ∈ records ∧ r.card.cardId = id :=
    recordIn_eq_some hids
  refine ⟨fun id => ?_, fun key l => ?_, fun id m => ?_, fun key t ht => ?_, fun id tag => ?_⟩
  · rw [hs.cards]
    refine Option.ext fun c => ?_
    simp only [Option.map_eq_some_iff, h.rows.cards, hrec]
    constructor
    · rintro ⟨_, ⟨r, hr, rfl, hid⟩, rfl⟩
      exact ⟨r, ⟨hr, hid⟩, rfl⟩
    · rintro ⟨r, ⟨hr, hid⟩, rfl⟩
      exact ⟨_, ⟨r, hr, rfl, hid⟩, rfl⟩
  · rw [hs.links, h.links]
    simp only [LinkOf, hrec]
    constructor
    · rintro ⟨r, hr, hl⟩
      exact ⟨r, ⟨hr, ((h.files.loaded r hr).linkRows hl).2.1.symm⟩, hl⟩
    · rintro ⟨r, ⟨hr, -⟩, hl⟩
      exact ⟨r, hr, hl⟩
  · rw [hs.milestones, h.rows.milestones, mem_liveMilestones]
    simp only [MilestoneOf, hrec]
    constructor
    · rintro ⟨⟨r, hr, hlive, hm⟩, rfl⟩
      exact ⟨rfl, r, ⟨hr, ((h.files.loaded r hr).milestones m hm).2.symm⟩, hlive, hm⟩
    · rintro ⟨rfl, r, ⟨hr, -⟩, hlive, hm⟩
      exact ⟨⟨r, hr, hlive, hm⟩, rfl⟩
  · have hkey := h.tagsKeyed hs ht
    refine ⟨hkey, ?_⟩
    have hsame := hs.tags key
    rw [ht, Option.map_some, eq_comm, Option.map_eq_some_iff] at hsame
    obtain ⟨t', ht', he⟩ := hsame
    obtain ⟨r, hr, -, tag, -, rfl, -⟩ := (h.rows.tags key t').mp ht'
    simp only [CardTag.key, List.cons.injEq, and_true] at he
    rw [← he.1, (h.files.loaded r hr).project]
  · have hsome : (∃ t, db0.cardTags[[env.project.projectId, id, tag]]? = some t) ↔
        ∃ t, db.cardTags[[env.project.projectId, id, tag]]? = some t := by
      rw [← Option.isSome_iff_exists, ← Option.isSome_iff_exists, ← Option.isSome_map (f := CardTag.key),
        hs.tags, Option.isSome_map]
    rw [hsome]
    simp only [h.rows.tags, TagOf, hrec]
    constructor
    · rintro ⟨t, r, hr, hlive, tag', htag, rfl, hk⟩
      simp only [CardTag.key, List.cons.injEq, and_true] at hk
      obtain ⟨-, rfl, rfl⟩ := hk
      exact ⟨r, ⟨hr, rfl⟩, hlive, htag⟩
    · rintro ⟨r, ⟨hr, rfl⟩, hlive, htag⟩
      exact ⟨_, r, hr, hlive, tag, htag, rfl, by rw [CardTag.key, (h.files.loaded r hr).project]⟩

/-- Records whose live milestones have ids of their own can be inserted together. -/
theorem FilesAre.insertable {work : Tree} (h : FilesAre env work rec)
    (hown : ∀ r r', rec r.card.cardId = some r → rec r'.card.cardId = some r' → r.card.deletedAt = none →
      r'.card.deletedAt = none → ∀ m ∈ r.milestones, ∀ m' ∈ r'.milestones,
      m.milestoneId = m'.milestoneId → r = r') {records : List (CardRecord K)}
    (hfiles : LoadedFiles env work records) : Insertable env records := by
  have hrec : ∀ r, r ∈ records ↔ rec r.card.cardId = some r := fun r =>
    (hfiles.mem r).trans (h.record_iff r)
  have hsame : ∀ r ∈ records, ∀ r' ∈ records, r.card.cardId = r'.card.cardId → r = r' := by
    intro r hr r' hr' he
    have h1 := (hrec r).mp hr
    rw [he, (hrec r').mp hr', Option.some.injEq] at h1
    exact h1.symm
  have hids : (records.map (·.card.cardId)).Nodup := by
    refine hfiles.ids.mpr fun r hr r' hr' he => ?_
    rw [hsame r hr r' hr' he]
  refine ⟨⟨hids, fun r hr => h.tags _ r ((hrec r).mp hr), ?_⟩, ?_⟩
  · have hnodup : records.Nodup := hids.of_map _
    rw [liveMilestones, List.map_flatMap, List.nodup_flatMap]
    refine ⟨fun r hr => ?_, ?_⟩
    · obtain ⟨hr, hlive⟩ := List.mem_filter.mp hr
      exact h.milestones _ r ((hrec r).mp hr) (Card.live_iff.mp hlive)
    · refine (hnodup.filter _).imp_of_mem fun {r r'} hr hr' hne a ha ha' => hne ?_
      obtain ⟨hr, hlive⟩ := List.mem_filter.mp hr
      obtain ⟨hr', hlive'⟩ := List.mem_filter.mp hr'
      obtain ⟨m, hm, rfl⟩ := List.mem_map.mp ha
      obtain ⟨m', hm', he⟩ := List.mem_map.mp ha'
      exact hown r r' ((hrec r).mp hr) ((hrec r').mp hr') (Card.live_iff.mp hlive)
        (Card.live_iff.mp hlive') m hm m' hm' he.symm
  · have hup : recordUp records = fun id => (rec id).map (·.card.parentCardId) := by
      funext id
      refine Option.ext fun p => ?_
      rw [recordUp_eq_some hids, Option.map_eq_some_iff]
      constructor
      · rintro ⟨r, hr, rfl, hp⟩
        exact ⟨r, (hrec r).mp hr, hp⟩
      · rintro ⟨r, hr, hp⟩
        have hid := h.id id r hr
        exact ⟨r, (hrec r).mpr (hid.symm ▸ hr), hid, hp⟩
    rw [hup]
    exact h.rooted

/-- Each milestone row belongs to one record. -/
theorem RowsAre.milestone_owner {work : Tree} {db : Db K} (h : RowsAre env db rec)
    (hfiles : FilesAre env work rec) {r r' : CardRecord K} (hr : rec r.card.cardId = some r)
    (hr' : rec r'.card.cardId = some r') (hlive : r.card.deletedAt = none)
    (hlive' : r'.card.deletedAt = none) {m m' : Milestone} (hm : m ∈ r.milestones)
    (hm' : m' ∈ r'.milestones) (he : m.milestoneId = m'.milestoneId) : r = r' := by
  have hown : ∀ r, rec r.card.cardId = some r → ∀ m ∈ r.milestones, rec m.cardId = some r :=
    fun r hr m hm => by rw [((hfiles.loaded hr).1.milestones m hm).2, hr]
  have hrow := (h.milestones m.milestoneId m).mpr ⟨rfl, r, hown r hr m hm, hlive, hm⟩
  have hrow' := (h.milestones m.milestoneId m').mpr ⟨he.symm, r', hown r' hr' m' hm', hlive', hm'⟩
  rw [hrow, Option.some.injEq] at hrow'
  have h1 := hown r hr m hm
  rw [hrow', hown r' hr' m' hm', Option.some.injEq] at h1
  exact h1.symm

/-- The rows that a rebuild makes of records that can be inserted together. -/
theorem FilesAre.projection (hdir : ∀ paths, (env.directoryOrder paths).Perm paths) {work : Tree}
    (h : FilesAre env work rec)
    (hown : ∀ r r', rec r.card.cardId = some r → rec r'.card.cardId = some r' → r.card.deletedAt = none →
      r'.card.deletedAt = none → ∀ m ∈ r.milestones, ∀ m' ∈ r'.milestones,
      m.milestoneId = m'.milestoneId → r = r') :
    ∃ db, HolderCore.projection env work = .ok db ∧ RowsAre env db rec := by
  obtain ⟨db, records, hproj, hp⟩ := projection_of hdir h.allLoad fun records hr => h.insertable hown hr
  have hids := hp.insertable.compatible.ids
  have heq : recordIn records = rec := by
    funext id
    refine Option.ext fun r => ?_
    rw [recordIn_eq_some hids, hp.files.mem, h.record_iff]
    constructor
    · rintro ⟨hr, rfl⟩
      exact hr
    · intro hr
      have hid := h.id id r hr
      exact ⟨hid.symm ▸ hr, hid⟩
  exact ⟨db, hproj, heq ▸ hp.rowsAre (SameRows.refl db)⟩

theorem Sliced.inSync (hdir : ∀ paths, (env.directoryOrder paths).Perm paths) (h : Sliced env w rec) :
    InSync env w := by
  obtain ⟨db, hproj, hrows⟩ := h.files.projection hdir fun _ _ hr hr' hlive hlive' _ hm _ hm' he =>
    h.rows.milestone_owner h.files hr hr' hlive hlive' hm hm' he
  refine ⟨db, hproj, ?_⟩
  refine ⟨fun id => (h.rows.cards id).trans (hrows.cards id).symm, ?_, ?_, fun key => ?_⟩
  · exact Map.ext fun key => Option.ext fun l => (h.rows.links key l).trans (hrows.links key l).symm
  · exact Map.ext fun id => Option.ext fun m =>
      (h.rows.milestones id m).trans (hrows.milestones id m).symm
  · -- Equal keys mean rows of the same card and tag.
    have hside : ∀ {db1 db2 : Db K}, RowsAre env db1 rec → RowsAre env db2 rec → ∀ {t},
        db1.cardTags[key]? = some t → ∃ t', db2.cardTags[key]? = some t' ∧ t'.key = t.key := by
      intro db1 db2 h1 h2 t ht
      obtain ⟨hkey, hproj⟩ := h1.tagKeys key t ht
      have hk : key = [env.project.projectId, t.cardId, t.tag] := by rw [hkey, CardTag.key, hproj]
      obtain ⟨t', ht'⟩ := (h2.tags t.cardId t.tag).mpr ((h1.tags _ _).mp ⟨t, hk ▸ ht⟩)
      rw [← hk] at ht'
      exact ⟨t', ht', by rw [← (h2.tagKeys key t' ht').1, hkey]⟩
    cases ht : w.db.cardTags[key]? with
    | some t =>
      obtain ⟨t', ht', he⟩ := hside h.rows hrows ht
      rw [ht', Option.map_some, Option.map_some, he]
    | none =>
      cases ht' : db.cardTags[key]? with
      | none => rfl
      | some t' =>
        obtain ⟨t, hrow, -⟩ := hside hrows h.rows ht'
        rw [ht] at hrow
        cases hrow

end

/-! ## Writing some cards -/

/-- The rows of one card are those of its record, if it has one. -/
structure SliceIs (env : Env K) (db : Db K) (id : String) (r : Option (CardRecord K)) : Prop where
  card : db.cards[id]?.map Card.untimed = r.map (·.card.untimed)
  links : ∀ (key : List String) (l : CardLink), l.fromCardId = id →
    (db.cardLinks[key]? = some l ↔ ∃ r', r = some r' ∧ (linkRows r'.links)[key]? = some l)
  milestones : ∀ (mid : String) (m : Milestone), m.cardId = id → (db.milestones[mid]? = some m ↔
    m.milestoneId = mid ∧ ∃ r', r = some r' ∧ r'.card.deletedAt = none ∧ m ∈ r'.milestones)
  tags : ∀ tag : String, (∃ t, db.cardTags[[env.project.projectId, id, tag]]? = some t) ↔
    ∃ r', r = some r' ∧ r'.card.deletedAt = none ∧ tag ∈ env.extractTags r'.body

/-- The rows of one card are the same in two databases. -/
structure SameSlice (env : Env K) (db db' : Db K) (id : String) : Prop where
  card : db'.cards[id]?.map Card.untimed = db.cards[id]?.map Card.untimed
  links : ∀ (key : List String) (l : CardLink), l.fromCardId = id →
    (db'.cardLinks[key]? = some l ↔ db.cardLinks[key]? = some l)
  milestones : ∀ (mid : String) (m : Milestone), m.cardId = id →
    (db'.milestones[mid]? = some m ↔ db.milestones[mid]? = some m)
  tags : ∀ tag : String, (∃ t, db'.cardTags[[env.project.projectId, id, tag]]? = some t) ↔
    ∃ t, db.cardTags[[env.project.projectId, id, tag]]? = some t

/-- The tag rows are the project's, under their own keys. -/
def TagKeys (env : Env K) (db : Db K) : Prop :=
  ∀ (key : List String) (t : CardTag), db.cardTags[key]? = some t →
    key = t.key ∧ t.projectId = env.project.projectId

section
variable {env : Env K} {db db' : Db K} {rec rec' : String → Option (CardRecord K)} {id : String}

theorem RowsAre.slice (h : RowsAre env db rec) (id : String) : SliceIs env db id (rec id) where
  card := h.cards id
  links key l hl := by
    rw [h.links, LinkOf, hl]
  milestones mid m hm := by
    rw [h.milestones, MilestoneOf, hm]
  tags tag := h.tags id tag

theorem RowsAre.of_slices (hkeys : TagKeys env db) (h : ∀ id, SliceIs env db id (rec id)) :
    RowsAre env db rec where
  cards id := (h id).card
  links key l := (h l.fromCardId).links key l rfl
  milestones id m := (h m.cardId).milestones id m rfl
  tagKeys := hkeys
  tags id tag := (h id).tags tag

theorem SliceIs.same {r : Option (CardRecord K)} (h : SliceIs env db id r)
    (hs : SameSlice env db db' id) : SliceIs env db' id r where
  card := hs.card.trans h.card
  links key l hl := (hs.links key l hl).trans (h.links key l hl)
  milestones mid m hm := (hs.milestones mid m hm).trans (h.milestones mid m hm)
  tags tag := (hs.tags tag).trans (h.tags tag)

/-- The rows after a write to the cards of `S`. -/
theorem RowsAre.update (h : RowsAre env db rec) {S : Set String} (hkeys : TagKeys env db')
    (hout : ∀ id ∉ S, rec' id = rec id) (hsame : ∀ id ∉ S, SameSlice env db db' id)
    (hin : ∀ id ∈ S, SliceIs env db' id (rec' id)) : RowsAre env db' rec' := by
  refine .of_slices hkeys fun id => ?_
  by_cases hid : id ∈ S
  · exact hin id hid
  · rw [hout id hid]
    exact (h.slice id).same (hsame id hid)

end

section
variable [NatCast K] {env : Env K} {work work' : Tree} {rec rec' : String → Option (CardRecord K)}

/-- A path that the rebuild reads as live or trashed is the live or the trashed path of its card. -/
theorem CardFile.path_eq {isTrash : Bool} {id path : String} (h : CardFile isTrash path)
    (hp : CardPath id path) : path = cardPathOf isTrash id := by
  cases isTrash with
  | false =>
    rcases hp with rfl | rfl
    · rfl
    · have := h.1
      simp [startsWith, trashPath] at this
  | true =>
    rcases hp with rfl | rfl
    · have := h.1
      simp [startsWith, livePath] at this
    · rfl

/-- The files after a write to the cards of `S`. -/
theorem FilesAre.update (h : FilesAre env work rec) {S : Set String} (hlen : ∀ id ∈ S, 4 ≤ id.length)
    (hout : ∀ id ∉ S, rec' id = rec id)
    (hwork : ∀ path : String, (∀ id ∈ S, ¬ CardPath id path) → work'[path]? = work[path]?)
    (hsome : ∀ id ∈ S, ∀ r, rec' id = some r → r.card.cardId = id ∧ CardFileOf env work' r ∧
      (r.card.deletedAt = none → (env.extractTags r.body).Nodup ∧
        (r.milestones.map (·.milestoneId)).Nodup))
    (hnone : ∀ id ∈ S, rec' id = none → ∀ isTrash, work'[cardPathOf isTrash id]? = none)
    (hrooted : AllRooted fun id => (rec' id).map (·.card.parentCardId)) :
    FilesAre env work' rec' := by
  have hother : ∀ id ∉ S, 4 ≤ id.length → ∀ isTrash,
      work'[cardPathOf isTrash id]? = work[cardPathOf isTrash id]? := by
    refine fun id hid hl isTrash => hwork _ fun j hj hp => hid ?_
    rwa [(cardPathOf_cardPath isTrash id).inj hl (hlen j hj) hp]
  refine ⟨fun id r hr => ?_, fun id r hr => ?_, fun path isTrash hfile hmem => ?_,
    fun id r hr hlive => ?_, fun id r hr hlive => ?_, hrooted⟩
  · by_cases hid : id ∈ S
    · exact (hsome id hid r hr).1
    · exact h.id id r (hout id hid ▸ hr)
  · by_cases hid : id ∈ S
    · exact (hsome id hid r hr).2.1
    · rw [hout id hid] at hr
      have hf := h.file id r hr
      have hl : 4 ≤ id.length := h.id id r hr ▸ (h.loaded hr).1.length
      have hself := hother id hid hl
      rw [← h.id id r hr] at hself
      exact ⟨by simpa only [hself] using hf.load, by rw [hself]; exact hf.only⟩
  · by_cases hS : ∃ id ∈ S, CardPath id path
    · obtain ⟨id, hid, hp⟩ := hS
      have hpath := hfile.path_eq hp
      obtain ⟨raw, hraw⟩ := Map.mem_iff.mp hmem
      rw [hpath] at hraw
      cases hr : rec' id with
      | none =>
        rw [hnone id hid hr] at hraw
        cases hraw
      | some r =>
        obtain ⟨hrid, hf, -⟩ := hsome id hid r hr
        refine ⟨id, r, hr, ?_, hpath⟩
        by_contra hne
        have honly := hf.only
        rw [hrid, ← Bool.eq_not_of_ne (Ne.symm hne), hraw] at honly
        cases honly
    · simp only [not_exists, not_and] at hS
      have hmem' : path ∈ work := by
        rw [Map.mem_iff] at hmem ⊢
        rwa [← hwork path hS]
      obtain ⟨id, r, hr, hdel, hpath⟩ := h.only path isTrash hfile hmem'
      have hid : id ∉ S := fun hid => hS id hid (hpath ▸ cardPathOf_cardPath isTrash id)
      exact ⟨id, r, (hout id hid).trans hr, hdel, hpath⟩
  · by_cases hid : id ∈ S
    · exact ((hsome id hid r hr).2.2 hlive).1
    · exact h.tags id r (hout id hid ▸ hr) hlive
  · by_cases hid : id ∈ S
    · exact ((hsome id hid r hr).2.2 hlive).2
    · exact h.milestones id r (hout id hid ▸ hr) hlive

end

end HolderCore
