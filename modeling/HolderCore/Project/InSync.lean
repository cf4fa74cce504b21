import HolderCore.Project.LoadLemmas

/-! # A database in step with its files

The database of a project is in step when it holds the rows that a rebuild would make of the working
tree, the times of the last edit apart. -/

namespace HolderCore

/-- A card without the time of its last edit. -/
def Card.untimed (card : Card K) : Card K := { card with updatedAt := 0 }

/-- The same cards in every column except `updated_at`, the same links and milestones, and the same
tags but for the time they were stored. -/
structure SameRows (db db' : Db K) : Prop where
  cards : ∀ id : String, db.cards[id]?.map Card.untimed = db'.cards[id]?.map Card.untimed
  links : db.cardLinks = db'.cardLinks
  milestones : db.milestones = db'.milestones
  tags : ∀ key : List String, db.cardTags[key]?.map CardTag.key = db'.cardTags[key]?.map CardTag.key

/-- A rebuild of the working tree succeeds and gives the rows of the database. -/
def InSync [NatCast K] (env : Env K) (w : World K) : Prop :=
  ∃ db, projection env w.repo.work = .ok db ∧ SameRows w.db db

section
variable {db db' : Db K} {id : String} {c : Card K}

theorem SameRows.refl (db : Db K) : SameRows db db := ⟨fun _ => rfl, rfl, rfl, fun _ => rfl⟩

theorem SameRows.symm (h : SameRows db db') : SameRows db' db :=
  ⟨fun id => (h.cards id).symm, h.links.symm, h.milestones.symm, fun key => (h.tags key).symm⟩

theorem SameRows.trans {db'' : Db K} (h : SameRows db db') (h' : SameRows db' db'') :
    SameRows db db'' :=
  ⟨fun id => (h.cards id).trans (h'.cards id), h.links.trans h'.links,
    h.milestones.trans h'.milestones, fun key => (h.tags key).trans (h'.tags key)⟩

theorem SameRows.card (h : SameRows db db') (hc : db.cards[id]? = some c) :
    ∃ c', db'.cards[id]? = some c' ∧ c'.untimed = c.untimed := by
  have := h.cards id
  rw [hc, Option.map_some] at this
  obtain ⟨c', hc', he⟩ := Option.map_eq_some_iff.mp this.symm
  exact ⟨c', hc', he⟩

/-- Cards that agree up to the time of the last edit agree in the columns that are read here. -/
theorem Card.of_untimed {c c' : Card K} (h : c'.untimed = c.untimed) :
    c'.cardId = c.cardId ∧ c'.projectId = c.projectId ∧ c'.title = c.title ∧
      c'.relPath = c.relPath ∧ c'.parentCardId = c.parentCardId ∧ c'.sortKey = c.sortKey ∧
      c'.createdAt = c.createdAt ∧ c'.deletedAt = c.deletedAt := by
  simp only [Card.untimed, Card.mk.injEq] at h
  tauto

end

instance [DecidableEq K] (db db' : Db K) : Decidable (SameRows db db') :=
  decidable_of_iff (db.cards.map (fun _ => Card.untimed) = db'.cards.map (fun _ => Card.untimed) ∧
    db.cardLinks = db'.cardLinks ∧ db.milestones = db'.milestones ∧
    db.cardTags.map (fun _ => CardTag.key) = db'.cardTags.map (fun _ => CardTag.key)) <| by
  constructor
  · rintro ⟨hcards, hlinks, hmilestones, htags⟩
    refine ⟨fun id => ?_, hlinks, hmilestones, fun key => ?_⟩
    · simpa using congrArg (·[id]?) hcards
    · simpa using congrArg (·[key]?) htags
  · rintro ⟨hcards, hlinks, hmilestones, htags⟩
    refine ⟨Map.ext fun id => ?_, hlinks, hmilestones, Map.ext fun key => ?_⟩
    · simpa using hcards id
    · simpa using htags key

instance [NatCast K] [DecidableEq K] (env : Env K) (w : World K) : Decidable (InSync env w) :=
  match h : projection env w.repo.work with
  | .ok db => decidable_of_iff (SameRows w.db db) (by simp [InSync, h])
  | .error _ => .isFalse (by simp [InSync, h])

/-! ## Rebuilding a project at rest -/

section
variable [NatCast K] {env : Env K} {w : World K}

end

/-! ## Changing the files of one card -/

section
variable [NatCast K] {env : Env K} {work work' : Tree} {records records' : List (CardRecord K)}
  {id : String}

theorem FileRecord.id_valid {record : CardRecord K} (h : FileRecord env work record) :
    isValidUuid record.card.cardId = true := by
  obtain ⟨_, _, _, -, -, hload⟩ := h
  exact (loadCardFile_ok hload).2.1

/-- A record is read at one of the paths of its card. -/
theorem FileRecord.at_path {record : CardRecord K} (h : FileRecord env work record) :
    ∃ raw, work[cardPathOf record.card.deletedAt.isSome record.card.cardId]? = some raw ∧
      loadCardFile env (cardPathOf record.card.deletedAt.isSome record.card.cardId) raw
        record.card.deletedAt.isSome = .ok record := by
  obtain ⟨path, isTrash, raw, -, hraw, hload⟩ := h
  obtain ⟨-, -, rfl, hdel⟩ := loadCardFile_ok hload
  rw [hdel]
  exact ⟨raw, hraw, hload⟩

theorem cardPathOf_cardPath (isTrash : Bool) (id : String) : CardPath id (cardPathOf isTrash id) := by
  unfold cardPathOf
  split
  · exact .inr rfl
  · exact .inl rfl

/-- Records of other cards are read from files that did not change. -/
theorem FileRecord.other (hlen : 4 ≤ id.length)
    (hother : ∀ path : String, ¬ CardPath id path → work'[path]? = work[path]?)
    {record : CardRecord K} (hne : record.card.cardId ≠ id) :
    FileRecord env work' record ↔ FileRecord env work record := by
  have hpath : ∀ work1 : Tree, FileRecord env work1 record ↔
      isValidUuid record.card.cardId = true ∧
      ∃ raw, work1[cardPathOf record.card.deletedAt.isSome record.card.cardId]? = some raw ∧
        loadCardFile env (cardPathOf record.card.deletedAt.isSome record.card.cardId) raw
          record.card.deletedAt.isSome = .ok record := by
    refine fun work1 => ⟨fun h => ⟨h.id_valid, h.at_path⟩, fun ⟨hv, raw, hraw, hload⟩ => ?_⟩
    exact ⟨_, _, raw, cardFile_cardPathOf _ hv, hraw, hload⟩
  rw [hpath, hpath]
  refine and_congr_right fun hv => ?_
  rw [hother]
  intro hp
  refine hne ((cardPathOf_cardPath _ _).inj ?_ hlen hp)
  have := isValidUuid_length hv
  omega

theorem AllLoad.replace (h : AllLoad env work)
    (hother : ∀ path : String, ¬ CardPath id path → work'[path]? = work[path]?)
    (hload : ∀ isTrash raw, CardFile isTrash (cardPathOf isTrash id) →
      work'[cardPathOf isTrash id]? = some raw →
      ∃ record, loadCardFile env (cardPathOf isTrash id) raw isTrash = .ok record) :
    AllLoad env work' := by
  intro path isTrash raw hfile hraw
  by_cases hp : CardPath id path
  · -- A path below `cards/` is no path below `trash/cards/`.
    have hpath : path = cardPathOf isTrash id := by
      cases isTrash with
      | false =>
        rcases hp with rfl | rfl
        · rfl
        · have := hfile.1
          simp [startsWith, trashPath] at this
      | true =>
        rcases hp with rfl | rfl
        · have := hfile.1
          simp [startsWith, livePath] at this
        · rfl
    subst hpath
    exact hload isTrash raw hfile hraw
  · rw [hother path hp] at hraw
    exact h path isTrash raw hfile hraw

/-- The records of the other cards, and those that are now read for the card. -/
theorem LoadedFiles.replace (h : LoadedFiles env work records) (h' : LoadedFiles env work' records')
    (hlen : 4 ≤ id.length)
    (hother : ∀ path : String, ¬ CardPath id path → work'[path]? = work[path]?) (new : List (CardRecord K))
    (hnew : ∀ record, (FileRecord env work' record ∧ record.card.cardId = id) ↔ record ∈ new)
    (hids : (records.map (·.card.cardId)).Nodup)
    (hnodup : (new.map (·.card.cardId)).Nodup) :
    records'.Perm (new ++ records.filter (·.card.cardId != id)) := by
  have hmem : ∀ record, record ∈ records' ↔ record ∈ new ++ records.filter (·.card.cardId != id) := by
    intro record
    rw [h'.mem, List.mem_append, ← hnew, List.mem_filter, h.mem]
    simp only [bne_iff_ne, ne_eq]
    by_cases he : record.card.cardId = id
    · simp [he]
    · simp [he, FileRecord.other hlen hother he]
  have hnewids : ∀ r ∈ new, r.card.cardId = id := fun r hr => ((hnew r).mpr hr).2
  have hcat : ((new ++ records.filter (·.card.cardId != id)).map (·.card.cardId)).Nodup := by
    rw [List.map_append, List.nodup_append]
    refine ⟨hnodup, hids.sublist (List.filter_sublist.map _), fun a ha b hb hab => ?_⟩
    obtain ⟨r, hr, rfl⟩ := List.mem_map.mp ha
    obtain ⟨r', hr', rfl⟩ := List.mem_map.mp hb
    have hne := (List.mem_filter.mp hr').2
    simp only [bne_iff_ne, ne_eq] at hne
    exact hne (by rw [← hab, hnewids r hr])
  have hids' : (records'.map (·.card.cardId)).Nodup := by
    rw [h'.ids]
    intro r hr r' hr' he
    rw [List.inj_on_of_nodup_map hcat ((hmem r).mp hr) ((hmem r').mp hr') he]
  exact (List.perm_ext_iff_of_nodup (hids'.of_map _) (hcat.of_map _)).mpr hmem

/-! ## Rows and records -/

/-- What a database in step knows of its rows through the records of the files. -/
theorem InSync.projected {w : World K} (hdir : ∀ paths, (env.directoryOrder paths).Perm paths)
    (h : InSync env w) : ∃ records db, Projected env w.repo.work records db ∧ SameRows w.db db := by
  obtain ⟨db, hp, hsame⟩ := h
  obtain ⟨records, hproj⟩ := projection_ok hdir hp
  exact ⟨records, db, hproj, hsame⟩

/-- A row of the database is a record's card. -/
theorem Projected.record {db db0 : Db K} (h : Projected env work records db) (hs : SameRows db0 db)
    {c : Card K} (hc : db0.cards[id]? = some c) :
    ∃ record ∈ records, record.card.cardId = id ∧ record.card.untimed = c.untimed ∧ c.cardId = id := by
  obtain ⟨c', hc', he⟩ := hs.card hc
  obtain ⟨record, hr, rfl, hid⟩ := (h.rows.cards _ _).mp hc'
  exact ⟨record, hr, hid, he, by rw [← (Card.of_untimed he).1]; exact hid⟩

theorem Projected.row {db db0 : Db K} (h : Projected env work records db) (hs : SameRows db0 db)
    {record : CardRecord K} (hr : record ∈ records) :
    ∃ c, db0.cards[record.card.cardId]? = some c ∧ c.untimed = record.card.untimed :=
  hs.symm.card ((h.rows.cards _ _).mpr ⟨record, hr, rfl, rfl⟩)

theorem Projected.link {db db0 : Db K} (h : Projected env work records db) (hs : SameRows db0 db)
    {key : List String} {l : CardLink} (hl : db0.cardLinks[key]? = some l) :
    l.projectId = env.project.projectId ∧ key = l.key ∧
      ∃ record ∈ records, record.card.cardId = l.fromCardId ∧
        (linkRows record.links)[key]? = some l := by
  rw [hs.links] at hl
  obtain ⟨record, hr, hrow⟩ := (h.links key l).mp hl
  have hloaded := h.files.loaded record hr
  obtain ⟨hproj, hfrom, hkey⟩ := hloaded.linkRows hrow
  exact ⟨hproj.trans hloaded.project, hkey, record, hr, hfrom.symm, hrow⟩

theorem Projected.keyed {db db0 : Db K} (h : Projected env work records db) (hs : SameRows db0 db)
    {c : Card K} (hc : db0.cards[id]? = some c) : c.cardId = id := by
  obtain ⟨_, _, _, _, hid⟩ := h.record hs hc
  exact hid

theorem Projected.tagsKeyed {db db0 : Db K} (h : Projected env work records db) (hs : SameRows db0 db)
    {key : List String} {t : CardTag} (ht : db0.cardTags[key]? = some t) : key = t.key := by
  have hkey := hs.tags key
  rw [ht, Option.map_some, eq_comm, Option.map_eq_some_iff] at hkey
  obtain ⟨t', ht', he⟩ := hkey
  obtain ⟨_, _, _, _, _, _, hk⟩ := (h.rows.tags key t').mp ht'
  rw [hk, he]

/-- Only cards have outgoing links. -/
theorem Projected.listOutgoing_nil {db db0 : Db K} (h : Projected env work records db)
    (hs : SameRows db0 db) (hnone : db0.cards[id]? = none) (projectId : String) :
    LinkRepo.listOutgoing db0 projectId id = [] := by
  unfold LinkRepo.listOutgoing
  rw [List.filter_eq_nil_iff.mpr, List.insertionSort_nil]
  intro l hl hown
  simp only [Bool.and_eq_true, beq_iff_eq] at hown
  obtain ⟨key, hrow⟩ := Map.mem_rows.mp hl
  obtain ⟨-, -, r, hr, hfrom, -⟩ := h.link hs hrow
  obtain ⟨c, hc, -⟩ := h.row hs hr
  rw [hfrom, hown.2, hnone] at hc
  cases hc

end

end HolderCore
