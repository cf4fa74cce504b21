import HolderCore.Project.Malformed

/-! # Card files that are gone

What a rebuild makes of a project some of whose card files are gone: it succeeds exactly when no card
that is left has a parent that is gone, and then it leaves the rows of the cards that are left. -/

namespace HolderCore

section
variable [NatCast K] {env : Env K} {work work' : Tree} {rows : Db K}

/-- The rows of some cards, and what belongs to them. -/
def keepRows (keep : String → Bool) (rows : Db K) : Db K where
  cards := rows.cards.filter fun id _ => keep id
  cardLinks := rows.cardLinks.filter fun _ l => keep l.fromCardId
  cardTags := rows.cardTags.filter fun _ t => keep t.cardId
  milestones := rows.milestones.filter fun _ m => keep m.cardId
  cardsFts := rows.cardsFts.filter fun id _ => keep id

/-- A card has a file, live or trashed. -/
def hasFile (work : Tree) (id : String) : Bool :=
  work.contains (livePath id) || work.contains (trashPath id)

omit [NatCast K] in
theorem hasFile_iff {id : String} : hasFile work id = true ↔
    ∃ isTrash raw, work[cardPathOf isTrash id]? = some raw := by
  simp only [hasFile, Bool.or_eq_true, Std.ExtTreeMap.contains_iff_mem, Map.mem_iff, Bool.exists_bool]
  rfl

/-- Some card files are gone, and every other file is as it was. -/
structure LostFiles (work work' : Tree) : Prop where
  left : ∀ (path : String) (raw : Bytes), work'[path]? = some raw → work[path]? = some raw
  other : ∀ path : String, (∀ isTrash, ¬ CardFile isTrash path) → work'[path]? = work[path]?

/-- No card that is left has lost its parent. -/
def ParentsLeft (work' : Tree) (rows : Db K) : Prop :=
  ∀ (id parent : String) (c : Card K), rows.cards[id]? = some c → hasFile work' id = true →
    c.parentCardId = some parent → hasFile work' parent = true

/-- The records that are left. -/
theorem LostFiles.record_iff (hlost : LostFiles work work') {records : List (CardRecord K)}
    (h : Projected env work records rows) {r : CardRecord K} :
    FileRecord env work' r ↔ r ∈ records ∧ hasFile work' r.card.cardId = true := by
  constructor
  · rintro ⟨path, isTrash, raw, hfile, hraw, hload⟩
    obtain ⟨-, -, hpath, -⟩ := loadCardFile_ok hload
    refine ⟨(h.files.mem r).mpr ⟨path, isTrash, raw, hfile, hlost.left _ _ hraw, hload⟩, ?_⟩
    exact hasFile_iff.mpr ⟨isTrash, raw, hpath ▸ hraw⟩
  · rintro ⟨hr, hleft⟩
    obtain ⟨isTrash, raw, hraw⟩ := hasFile_iff.mp hleft
    have hfile := cardFile_cardPathOf isTrash ((h.files.mem r).mp hr).id_valid
    have hraw' := hlost.left _ _ hraw
    obtain ⟨r', hload⟩ := h.files.allLoad _ isTrash raw hfile hraw'
    have hr' : r' ∈ records := (h.files.mem r').mpr ⟨_, isTrash, raw, hfile, hraw', hload⟩
    obtain ⟨hl', -, hpath', -⟩ := loadCardFile_ok hload
    have hid : r.card.cardId = r'.card.cardId := (cardPathOf_cardPath isTrash _).inj
      (h.files.loaded r hr).length hl'.length (hpath' ▸ cardPathOf_cardPath _ _)
    rw [List.inj_on_of_nodup_map h.insertable.compatible.ids hr hr' hid]
    exact ⟨_, isTrash, raw, hfile, hraw, hload⟩

/-- The records that are left can be inserted when none has lost its parent. -/
theorem Projected.keep {records : List (CardRecord K)} (h : Projected env work records rows)
    (hup : ParentsLeft work' rows) :
    Insertable env (records.filter fun r => hasFile work' r.card.cardId) := by
  have hids := h.insertable.compatible.ids
  have hkeep := h.insertable.compatible.of_subperm (List.filter_sublist
    (l := records) (p := fun r => hasFile work' r.card.cardId)).subperm
  refine ⟨hkeep, h.insertable.rooted.of_step fun id p hp => .inl ?_⟩
  obtain ⟨r, hr, rfl, rfl⟩ := (recordUp_eq_some hkeep.ids).mp hp
  obtain ⟨hr, hleft⟩ := List.mem_filter.mp hr
  have hrow : recordUp records r.card.cardId = some r.card.parentCardId :=
    (recordUp_eq_some hids).mpr ⟨r, hr, rfl, rfl⟩
  refine ⟨hrow, fun parent hparent => ?_⟩
  rw [hparent] at hrow
  obtain ⟨q, hq⟩ := ((h.insertable.rooted _ _ hrow).parent hrow).node
  obtain ⟨r', hr', rfl, rfl⟩ := (recordUp_eq_some hids).mp hq
  have hleft' := hup r.card.cardId r'.card.cardId r.card
    ((h.rows.cards _ _).mpr ⟨r, hr, rfl, rfl⟩) hleft hparent
  exact ⟨_, (recordUp_eq_some hkeep.ids).mpr ⟨r', List.mem_filter.mpr ⟨hr', hleft'⟩, rfl, rfl⟩⟩

/-- The rows of the records that are left. -/
theorem Projected.keepRows_eq {records records' : List (CardRecord K)} {rows' : Db K}
    (h : Projected env work records rows) (hfts : FtsOf env records rows)
    (h' : Projected env work' records' rows') (hfts' : FtsOf env records' rows')
    (hlost : LostFiles work work') : rows' = keepRows (hasFile work') rows := by
  have hmem : ∀ r, r ∈ records' ↔ r ∈ records ∧ hasFile work' r.card.cardId = true := fun r => by
    rw [h'.files.mem, hlost.record_iff h]
  have hcards : rows'.cards = (keepRows (hasFile work') rows).cards := by
    refine Map.ext fun id => Option.ext fun c => ?_
    simp only [keepRows, Map.get_filter, Option.filter_eq_some_iff, h'.rows.cards, h.rows.cards, hmem]
    constructor
    · rintro ⟨r, ⟨hr, hleft⟩, rfl, rfl⟩
      exact ⟨⟨r, hr, rfl, rfl⟩, hleft⟩
    · rintro ⟨⟨r, hr, rfl, rfl⟩, hleft⟩
      exact ⟨r, ⟨hr, hleft⟩, rfl, rfl⟩
  have hlinks : rows'.cardLinks = (keepRows (hasFile work') rows).cardLinks := by
    refine Map.ext fun key => Option.ext fun l => ?_
    simp only [keepRows, Map.get_filter, Option.filter_eq_some_iff, h'.links key l, h.links key l, hmem]
    constructor
    · rintro ⟨r, ⟨hr, hleft⟩, hrow⟩
      rw [← ((h.files.loaded r hr).linkRows hrow).2.1] at hleft
      exact ⟨⟨r, hr, hrow⟩, hleft⟩
    · rintro ⟨⟨r, hr, hrow⟩, hleft⟩
      rw [((h.files.loaded r hr).linkRows hrow).2.1] at hleft
      exact ⟨r, ⟨hr, hleft⟩, hrow⟩
  have htags : rows'.cardTags = (keepRows (hasFile work') rows).cardTags := by
    refine Map.ext fun key => Option.ext fun t => ?_
    simp only [keepRows, Map.get_filter, Option.filter_eq_some_iff, h'.rows.tags, h.rows.tags, hmem]
    constructor
    · rintro ⟨r, ⟨hr, hleft⟩, hlive, tag, htag, rfl, hkey⟩
      exact ⟨⟨r, hr, hlive, tag, htag, rfl, hkey⟩, hleft⟩
    · rintro ⟨⟨r, hr, hlive, tag, htag, rfl, hkey⟩, hleft⟩
      exact ⟨r, ⟨hr, hleft⟩, hlive, tag, htag, rfl, hkey⟩
  have hmilestones : rows'.milestones = (keepRows (hasFile work') rows).milestones := by
    refine Map.ext fun id => Option.ext fun m => ?_
    simp only [keepRows, Map.get_filter, Option.filter_eq_some_iff, h'.rows.milestones,
      h.rows.milestones, mem_liveMilestones, hmem]
    constructor
    · rintro ⟨⟨r, ⟨hr, hleft⟩, hlive, hm⟩, hid⟩
      rw [← ((h.files.loaded r hr).milestones m hm).2] at hleft
      exact ⟨⟨⟨r, hr, hlive, hm⟩, hid⟩, hleft⟩
    · rintro ⟨⟨⟨r, hr, hlive, hm⟩, hid⟩, hleft⟩
      rw [((h.files.loaded r hr).milestones m hm).2] at hleft
      exact ⟨⟨r, ⟨hr, hleft⟩, hlive, hm⟩, hid⟩
  have hbodies : rows'.cardsFts = (keepRows (hasFile work') rows).cardsFts := by
    refine Map.ext fun id => Option.ext fun row => ?_
    simp only [keepRows, Map.get_filter, Option.filter_eq_some_iff, hfts' id row, hfts id row, hmem]
    constructor
    · rintro ⟨hf, r, ⟨hr, hleft⟩, hlive, rfl, rfl⟩
      exact ⟨⟨hf, r, hr, hlive, rfl, rfl⟩, hleft⟩
    · rintro ⟨⟨hf, r, hr, hlive, rfl, rfl⟩, hleft⟩
      exact ⟨hf, r, ⟨hr, hleft⟩, hlive, rfl, rfl⟩
  cases rows'
  simp_all only [keepRows]

/-- A project some of whose card files are gone is rebuilt exactly when no card that is left has lost
its parent, to the rows of the cards that are left. -/
theorem projection_lost (hdir : ∀ paths, (env.directoryOrder paths).Perm paths)
    (h : projection env work = .ok rows) (hlost : LostFiles work work') :
    (ParentsLeft work' rows → projection env work' = .ok (keepRows (hasFile work') rows)) ∧
      ∀ rows', projection env work' = .ok rows' → ParentsLeft work' rows := by
  obtain ⟨records, hproj, hfts⟩ := projection_rows hdir h
  refine ⟨fun hup => ?_, fun rows' h' => ?_⟩
  · obtain ⟨rows', h'⟩ := projection_of_records hdir
      (fun path isTrash raw hfile hraw => by
        obtain ⟨r, hload⟩ := hproj.files.allLoad path isTrash raw hfile (hlost.left _ _ hraw)
        have hr := (hlost.record_iff hproj).mp ⟨path, isTrash, raw, hfile, hraw, hload⟩
        exact ⟨r, List.mem_filter.mpr hr, hload⟩)
      (fun r hr => (hlost.record_iff hproj).mpr (List.mem_filter.mp hr)) (hproj.keep hup)
    obtain ⟨records', hproj', hfts'⟩ := projection_rows hdir h'
    rw [h', hproj.keepRows_eq hfts hproj' hfts' hlost]
  · obtain ⟨records', hproj', -⟩ := projection_rows hdir h'
    rintro id parent c hc hleft hparent
    obtain ⟨r, hr, rfl, rfl⟩ := (hproj.rows.cards _ _).mp hc
    have hr' : r ∈ records' := (hproj'.files.mem r).mpr ((hlost.record_iff hproj).mpr ⟨hr, hleft⟩)
    have hids := hproj'.insertable.compatible.ids
    have hrow : recordUp records' r.card.cardId = some (some parent) :=
      (recordUp_eq_some hids).mpr ⟨r, hr', rfl, hparent⟩
    obtain ⟨q, hq⟩ := ((hproj'.insertable.rooted _ _ hrow).parent hrow).node
    obtain ⟨p, hp, rfl, -⟩ := (recordUp_eq_some hids).mp hq
    exact ((hlost.record_iff hproj).mp ((hproj'.files.mem p).mp hp)).2

end

end HolderCore
