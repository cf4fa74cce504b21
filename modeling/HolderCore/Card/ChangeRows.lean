import HolderCore.Card.HierarchyLemmas
import HolderCore.Card.MutationPlan
import HolderCore.Card.ReposLemmas

/-! # The rows of a change

What the statements of one card change, and of a list of changes to different cards, leave in the
tables. -/

namespace HolderCore

/-- The row after `restore_snapshot`: every column but the id, the project and the creation time. -/
def Card.snapshot (row card : Card K) : Card K :=
  { row with
    title := card.title
    parentCardId := card.parentCardId
    sortKey := card.sortKey
    updatedAt := card.updatedAt
    deletedAt := card.deletedAt
    relPath := card.relPath }

section
variable (row card : Card K)

@[simp] theorem Card.snapshot_cardId : (row.snapshot card).cardId = row.cardId := rfl
@[simp] theorem Card.snapshot_projectId : (row.snapshot card).projectId = row.projectId := rfl
@[simp] theorem Card.snapshot_parentCardId :
    (row.snapshot card).parentCardId = card.parentCardId := rfl
@[simp] theorem Card.snapshot_deletedAt : (row.snapshot card).deletedAt = card.deletedAt := rfl
@[simp] theorem Card.snapshot_relPath : (row.snapshot card).relPath = card.relPath := rfl

end

/-- What the statements of one change leave in the tables. -/
structure RowsChanged (env : Env K) (record : ParsedCardFile K) (db db' : Db K) : Prop where
  cards : ∀ id : String, db'.cards[id]? =
    if id = record.card.cardId then db.cards[id]?.map (·.snapshot record.card) else db.cards[id]?
  parent : ∀ row, db.cards[record.card.cardId]? = some row →
    parentExists db (row.snapshot record.card) = true
  links : db'.cardLinks = record.links.foldl (fun t link =>
      t.insert (LinkRepo.storedLink link).key (LinkRepo.storedLink link))
    (db.cardLinks.filter fun _ l =>
      !(l.projectId == record.card.projectId && l.fromCardId == record.card.cardId))
  linksOwn : ∀ link ∈ record.links,
    link.projectId = record.card.projectId ∧ link.fromCardId = record.card.cardId
  tags : db'.cardTags = (if record.card.deletedAt.isSome then [] else
      env.extractTags record.body).foldl (fun t tag =>
        t.insert [record.card.projectId, record.card.cardId, tag]
          ⟨record.card.projectId, record.card.cardId, tag, record.card.updatedAt⟩)
    (db.cardTags.filter fun _ t =>
      !(t.projectId == record.card.projectId && t.cardId == record.card.cardId))
  milestones : db'.milestones = (if record.card.deletedAt.isSome then [] else
      record.milestones).foldl (fun t m => t.insert m.milestoneId m)
    (db.milestones.filter fun _ m =>
      !(m.projectId == record.card.projectId && m.cardId == record.card.cardId))
  milestonesOwn : record.card.deletedAt = none → (record.milestones.map (·.milestoneId)).Nodup ∧
    ∀ m ∈ record.milestones, m.projectId = record.card.projectId ∧
      m.cardId = record.card.cardId ∧ ∀ m', db.milestones[m.milestoneId]? = some m' →
        m'.projectId = record.card.projectId ∧ m'.cardId = record.card.cardId

theorem restoreSnapshot_ends (card : Card K) (db : Db K) :
    Ends (CardRepo.restoreSnapshot card) db
      (fun _ db' => db' = { db with cards := db'.cards } ∧
        (∀ id : String, db'.cards[id]? =
          if id = card.cardId then db.cards[id]?.map (·.snapshot card) else db.cards[id]?) ∧
        ∀ row, db.cards[card.cardId]? = some row → parentExists db (row.snapshot card) = true)
      fun _ _ => True := by
  refine (CardRepo.update_ends _ card.cardId _ db).mono ?_ fun _ _ _ => trivial
  rintro - db' (⟨hnone, rfl⟩ | ⟨row, hrow, -, hpar, rfl⟩)
  · refine ⟨rfl, fun id => ?_, fun row hrow => ?_⟩
    · split
      · next he => rw [he, hnone]; rfl
      · rfl
    · rw [hnone] at hrow
      cases hrow
  · refine ⟨rfl, fun id => ?_, fun row' hrow' => ?_⟩
    · simp only [Map.get_insert]
      by_cases he : id = card.cardId
      · rw [if_pos he, if_pos he.symm, he, hrow]
        rfl
      · rw [if_neg he, if_neg (Ne.symm he)]
    · rw [hrow] at hrow'
      cases hrow'
      exact hpar

theorem changeRows_ends (env : Env K) (record : ParsedCardFile K) (db : Db K) :
    Ends (changeRows env record) db (fun _ db' => RowsChanged env record db db') fun _ _ => True := by
  unfold changeRows
  refine (restoreSnapshot_ends record.card db).bind ?_ fun _ _ _ => trivial
  rintro - db1 ⟨h1, hcards, hpar⟩
  simp only [Ends.bind_iff, LinkRepo.deleteLinksFrom, Ends.modify_iff]
  refine (LinkRepo.upsertLinks_ends _ _ _ _).mono ?_ fun _ _ _ => trivial
  rintro - db2 ⟨h2, hown⟩
  have hlinks : db2.cardLinks = record.links.foldl (fun t link =>
      t.insert (LinkRepo.storedLink link).key (LinkRepo.storedLink link))
      (db.cardLinks.filter fun _ l =>
        !(l.projectId == record.card.projectId && l.fromCardId == record.card.cardId)) := by
    rw [h2, h1]
  have hcards2 : db2.cards = db1.cards := by rw [h2]
  have htags2 : db2.cardTags = db.cardTags := by rw [h2, h1]
  have hms2 : db2.milestones = db.milestones := by rw [h2, h1]
  cases hdel : record.card.deletedAt with
  | some at_ =>
    simp only [Option.isSome_some, if_true, Ends.bind_iff, Ends.ite_iff, Ends.pure_iff,
      FtsIndexer.deleteCard, TagRepo.deleteTagsForCard, MilestoneRepo.deleteForCard,
      Ends.modify_iff]
    refine ⟨fun _ => ?_, fun _ => ?_⟩ <;>
    · exact {
        cards := by rw [hcards2]; exact hcards
        parent := hpar
        links := hlinks
        linksOwn := hown
        tags := by simp [hdel, htags2]
        milestones := by simp [hdel, hms2]
        milestonesOwn := by simp [hdel] }
  | none =>
    simp only [Option.isSome_none, Bool.false_eq_true, if_false, Ends.bind_iff, Ends.ite_iff,
      Ends.pure_iff, FtsIndexer.upsertCard, Ends.modify_iff, TagRepo.setTagsForCard,
      TagRepo.deleteTagsForCard, MilestoneRepo.replaceForCard, MilestoneRepo.deleteForCard]
    refine ⟨fun _ => ?_, fun _ => ?_⟩ <;>
    · refine (TagRepo.insertTags_ends _ _ _ _ _).mono ?_ fun _ _ _ => trivial
      rintro - db3 ⟨h3, -⟩
      refine (MilestoneRepo.insertAll_ends _ _ _ _).mono ?_ fun _ _ _ => trivial
      rintro - db4 ⟨h4, hall, hnodup, -⟩
      exact {
        cards := by rw [h4, h3]; exact fun id => by rw [← hcards id]; exact congrArg (·[id]?) hcards2
        parent := hpar
        links := by rw [h4, h3]; exact hlinks
        linksOwn := hown
        tags := by rw [h4, h3]; simp [hdel, htags2]
        milestones := by rw [h4, h3]; simp [hdel, hms2]
        milestonesOwn := fun _ => ⟨hnodup, fun m hm => by
          obtain ⟨hproj, hcard, hfree⟩ := hall m hm
          refine ⟨hproj, hcard, fun m' hm' => ?_⟩
          rw [h3] at hfree
          simp only [Map.get_filter, hms2, hm'] at hfree
          simpa using hfree⟩ }

/-! ## A list of changes -/

section
variable {env : Env K} {records : List (ParsedCardFile K)} {db db' : Db K}

theorem changeRows_cons {record : ParsedCardFile K}
    (h : (record :: records).forM (changeRows env) db = .ok () db') :
    ∃ db1, RowsChanged env record db db1 ∧ records.forM (changeRows env) db1 = .ok () db' := by
  have hends : Ends ((record :: records).forM (changeRows env)) db (fun _ db2 =>
      ∃ db1, RowsChanged env record db db1 ∧ records.forM (changeRows env) db1 = .ok () db2)
      fun _ _ => True := by
    rw [List.forM]
    refine (changeRows_ends env record db).bind (fun _ db1 h1 => ?_) fun _ _ _ => trivial
    exact .intro (fun _ db2 h2 => ⟨db1, h1, h2⟩) fun _ _ _ => trivial
  exact hends.ok h

/-- What every change of a list keeps, the list keeps. -/
theorem changeRows_invariant {P : Db K → Prop}
    (step : ∀ record ∈ records, ∀ db1 db2, P db1 → RowsChanged env record db1 db2 → P db2)
    (h : records.forM (changeRows env) db = .ok () db') (hdb : P db) : P db' := by
  induction records generalizing db with
  | nil => cases h; exact hdb
  | cons record records ih =>
    obtain ⟨db1, h1, hrest⟩ := changeRows_cons h
    exact ih (fun r hr => step r (List.mem_cons_of_mem _ hr)) hrest
      (step record List.mem_cons_self db db1 hdb h1)

theorem RowsChanged.keyed {record : ParsedCardFile K} (h : RowsChanged env record db db')
    (hk : db.Keyed) : db'.Keyed := by
  intro id c hc
  rw [h.cards id] at hc
  split at hc
  · obtain ⟨row, hrow, rfl⟩ := Option.map_eq_some_iff.mp hc
    exact hk id row hrow
  · exact hk id c hc

theorem RowsChanged.exists_iff {record : ParsedCardFile K} (h : RowsChanged env record db db')
    (id : String) : (∃ c, db'.cards[id]? = some c) ↔ ∃ c, db.cards[id]? = some c := by
  rw [h.cards id]
  split <;> simp

/-- The rows of `cards` after changes to different cards. -/
structure CardsChanged (records : List (ParsedCardFile K)) (db db' : Db K) : Prop where
  changed : ∀ record ∈ records, db'.cards[record.card.cardId]? =
    db.cards[record.card.cardId]?.map (·.snapshot record.card)
  kept : ∀ id : String, (∀ record ∈ records, record.card.cardId ≠ id) →
    db'.cards[id]? = db.cards[id]?
  parents : ∀ record ∈ records, ∀ p, record.card.parentCardId = some p →
    (∃ row, db.cards[record.card.cardId]? = some row) → ∃ c, db.cards[p]? = some c

theorem changeRows_cards (hk : db.Keyed) (hnodup : (records.map (·.card.cardId)).Nodup)
    (h : records.forM (changeRows env) db = .ok () db') : CardsChanged records db db' := by
  induction records generalizing db with
  | nil =>
    cases h
    exact ⟨by simp, fun _ _ => rfl, by simp⟩
  | cons record records ih =>
    obtain ⟨hfresh, hnodup⟩ := List.nodup_cons.mp hnodup
    have hother : ∀ r ∈ records, r.card.cardId ≠ record.card.cardId := by
      intro r hr he
      exact hfresh (List.mem_map.mpr ⟨r, hr, he⟩)
    obtain ⟨db1, h1, hrun⟩ := changeRows_cons h
    have hrest := ih (h1.keyed hk) hnodup hrun
    refine ⟨fun r hr => ?_, fun id hid => ?_, fun r hr p hp hrow => ?_⟩
    · rcases List.mem_cons.mp hr with rfl | hr
      · rw [hrest.kept _ hother, h1.cards, if_pos rfl]
      · rw [hrest.changed r hr, h1.cards, if_neg (hother r hr)]
    · rw [hrest.kept id fun r hr => hid r (List.mem_cons_of_mem _ hr), h1.cards,
        if_neg (hid record List.mem_cons_self).symm]
    · rcases List.mem_cons.mp hr with rfl | hr
      · obtain ⟨row, hrow⟩ := hrow
        have hpar := h1.parent row hrow
        simp only [parentExists, Card.snapshot_parentCardId, hp, Bool.or_eq_true,
          Std.ExtTreeMap.contains_iff_mem, beq_iff_eq] at hpar
        rcases hpar with hmem | rfl
        · exact Map.mem_iff.mp hmem
        · exact ⟨row, by simpa [hk _ _ hrow] using hrow⟩
      · exact (h1.exists_iff p).mp (hrest.parents r hr p hp ((h1.exists_iff _).mpr hrow))

end

end HolderCore
