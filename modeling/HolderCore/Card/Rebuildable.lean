import HolderCore.Card.CreateLemmas
import HolderCore.Card.Runs
import HolderCore.Project.InSync
import HolderCore.Project.RebuildOrder

/-! # Which writes keep a project rebuildable

What a permanent deletion and a creation leave for the next rebuild. -/

namespace HolderCore
open CardStore

section
variable [SortKey K] {env : Env K} {w : World K} {d : String}

/-- The row that a foreign key leaves of a child of a deleted card. -/
def Card.orphaned (d : String) (card : Card K) : Card K :=
  if card.parentCardId == some d then { card with parentCardId := none } else card

/-- What a permanent deletion leaves. -/
structure HardDeleted (d : String) (card : Card K) (w w' : World K) : Prop where
  work : w'.repo.work = w.repo.work.erase (trashPath d)
  journal : w'.journal = none
  cards : ∀ id : String, w'.db.cards[id]? =
    if id = d then none else w.db.cards[id]?.map (Card.orphaned d)
  links : ∀ (key : List String) (l : CardLink), w'.db.cardLinks[key]? = some l ↔
    w.db.cardLinks[key]? = some l ∧ ¬(l.projectId = card.projectId ∧ l.fromCardId = d) ∧
      ¬(l.projectId = card.projectId ∧ l.toCardId = d ∧ l.toType = "card")
  tags : ∀ (key : List String) (t : CardTag), w'.db.cardTags[key]? = some t ↔
    w.db.cardTags[key]? = some t ∧ t.cardId ≠ d
  milestones : ∀ (id : String) (m : Milestone), w'.db.milestones[id]? = some m ↔
    w.db.milestones[id]? = some m ∧ m.cardId ≠ d

theorem hardDelete_run (hj : w.journal = none) {card : Card K} (hd : w.db.cards[d]? = some card)
    (hid : card.cardId = d) (hlen : 4 ≤ d.length) (hproj : card.projectId = env.project.projectId)
    (htrash : card.deletedAt.isSome) :
    ∃ w', (Call.hardDelete d).run env w = .ok .done w' ∧ HardDeleted d card w w' := by
  have hends : Ends ((Call.hardDelete d).run env) w
      (fun r w' => r = .done ∧ HardDeleted d card w w') fun _ _ => False := by
    have hsome : card.deletedAt.isNone = false := by
      rw [Option.isNone_eq_false_iff]
      exact htrash
    have hrel : cardTrashRelPath card.cardId = .ok (trashPath d) :=
      cardTrashRelPath_ok_iff.mpr ⟨by rw [hid]; exact hlen, by rw [hid]⟩
    simp only [Call.run, Ends.bind_iff, Ends.get_iff, Call.enter, hardDeleteEntry, CardRepo.get?, hd,
      hsome, Bool.false_eq_true, if_false, Entry.run, hardDeleteLocked, requireProject_iff hj hproj,
      Ends.fromExcept_iff, hrel, Except.ok.injEq, forall_eq', reduceCtorEq, false_imp_iff,
      implies_true, and_true]
    -- The file goes if it is there; either way it is not there afterwards.
    refine Ends.mono (Q := fun _ w1 => w1.repo.work = w.repo.work.erase (trashPath d) ∧
      w1.journal = none ∧ w1.db = w.db) (E := fun _ _ => False) ?_ ?_ fun _ _ h => h
    · simp only [Ends.ite_iff, Ends.onRepo_iff, Ends.pure_iff, Except.ok.injEq, forall_eq',
        reduceCtorEq, false_imp_iff, implies_true, and_true, Std.ExtTreeMap.contains_iff_mem, hj,
        Repo.removePath_work, true_and]
      intro habsent
      rw [Map.erase_of_get (Map.not_mem_iff.mp habsent)]
    · rintro - w1 ⟨hwork, hj1, hdb⟩
      simp only [Ends.onDb_iff, LinkRepo.deleteLinksFrom, LinkRepo.deleteLinksToTyped,
        TagRepo.deleteTagsForCard, MilestoneRepo.deleteForCard, Ends.modify_iff]
      refine (CardRepo.remove_ends card.cardId _).mono ?_ fun _ _ h => h
      rintro - db (⟨hnone, -⟩ | ⟨-, rfl⟩)
      · rw [hid, hdb, hd] at hnone
        cases hnone
      · simp only [CardStore.commit, Ends.onRepo_iff, Except.ok.injEq, forall_eq', Ends.pure_iff,
          reduceCtorEq, false_imp_iff, implies_true, and_true, true_and, hid, hdb]
        refine ⟨hwork, hj1, fun id => ?_, fun key l => ?_, fun key t => ?_, fun id m => ?_⟩
        · rw [Map.get_map, Map.get_erase]
          by_cases hx : id = d
          · rw [if_pos hx, if_pos hx.symm]
            rfl
          · rw [if_neg hx, if_neg (Ne.symm hx)]
            rfl
        · simp only [Map.get_filter, Option.filter_eq_some_iff]
          simp
          tauto
        · simp only [Map.get_filter, Option.filter_eq_some_iff]
          simp
          tauto
        · simp only [Map.get_filter, Option.filter_eq_some_iff]
          simp
          tauto
  unfold Ends at hends
  split at hends
  · next r w' hrun => exact ⟨w', by rw [hrun, hends.1], hends.2⟩
  · exact hends.elim

/-- No card is left under the deleted one, and no other card's file links to it. -/
structure Unreferenced (db : Db K) (d : String) : Prop where
  children : ∀ (id : String) (c : Card K), db.cards[id]? = some c → c.parentCardId ≠ some d
  links : ∀ (key : List String) (l : CardLink), db.cardLinks[key]? = some l → l.toCardId = d →
    l.toType = "card" → l.fromCardId = d

/-- No link to a card. -/
def NoLinkTo (db : Db K) (d : String) : Prop :=
  ∀ (key : List String) (l : CardLink), db.cardLinks[key]? = some l →
    ¬(l.toCardId = d ∧ l.toType = "card")

omit [SortKey K] in
theorem recordUp_filter_rooted {records : List (CardRecord K)} (hids : (records.map (·.card.cardId)).Nodup)
    (h : AllRooted (recordUp records)) (hchild : ∀ r ∈ records, r.card.parentCardId ≠ some d) :
    AllRooted (recordUp (records.filter (·.card.cardId != d))) := by
  have hids' : ((records.filter (·.card.cardId != d)).map (·.card.cardId)).Nodup :=
    hids.sublist (List.filter_sublist.map _)
  refine AllRooted.of_step h fun x p hp => .inl ?_
  obtain ⟨r, hr, rfl, rfl⟩ := (recordUp_eq_some hids').mp hp
  have hmem := (List.mem_filter.mp hr).1
  have hup : recordUp records r.card.cardId = some r.card.parentCardId :=
    (recordUp_eq_some hids).mpr ⟨r, hmem, rfl, rfl⟩
  refine ⟨hup, fun y hy => ?_⟩
  obtain ⟨q, hq⟩ := ((h _ _ hup).parent (hy ▸ hup)).node
  obtain ⟨r', hr', rfl, rfl⟩ := (recordUp_eq_some hids).mp hq
  refine ⟨_, (recordUp_eq_some hids').mpr ⟨r', List.mem_filter.mpr ⟨hr', ?_⟩, rfl, rfl⟩⟩
  simp only [bne_iff_ne, ne_eq]
  rintro rfl
  exact hchild r hmem hy

/-- The rows of the records but one card's. -/
theorem Projected.without {work work' : Tree} {records records' : List (CardRecord K)} {db db' : Db K}
    (h : Projected env work records db) (h' : Projected env work' records' db')
    (hmem : ∀ r, r ∈ records' ↔ r ∈ records ∧ r.card.cardId ≠ d) :
    (∀ id : String, db'.cards[id]? = if id = d then none else db.cards[id]?) ∧
    (∀ (key : List String) (l : CardLink), db'.cardLinks[key]? = some l ↔
      db.cardLinks[key]? = some l ∧ l.fromCardId ≠ d) ∧
    (∀ (id : String) (m : Milestone), db'.milestones[id]? = some m ↔
      db.milestones[id]? = some m ∧ m.cardId ≠ d) ∧
    ∀ (key : List String) (t : CardTag), db'.cardTags[key]? = some t ↔
      db.cardTags[key]? = some t ∧ t.cardId ≠ d := by
  refine ⟨fun id => Option.ext fun c => ?_, fun key l => ?_, fun id m => ?_, fun key t => ?_⟩
  · rw [h'.rows.cards]
    split
    · next hid =>
      simp only [reduceCtorEq, iff_false]
      rintro ⟨r, hr, rfl, he⟩
      exact ((hmem r).mp hr).2 (he.trans hid)
    · next hid =>
      rw [h.rows.cards]
      refine ⟨fun ⟨r, hr, he⟩ => ⟨r, ((hmem r).mp hr).1, he⟩, ?_⟩
      rintro ⟨r, hr, rfl, rfl⟩
      exact ⟨r, (hmem r).mpr ⟨hr, hid⟩, rfl, rfl⟩
  · rw [h'.links, h.links]
    constructor
    · rintro ⟨r, hr, hrow⟩
      obtain ⟨hr, hne⟩ := (hmem r).mp hr
      exact ⟨⟨r, hr, hrow⟩, by rw [((h.files.loaded r hr).linkRows hrow).2.1]; exact hne⟩
    · rintro ⟨⟨r, hr, hrow⟩, hne⟩
      rw [((h.files.loaded r hr).linkRows hrow).2.1] at hne
      exact ⟨r, (hmem r).mpr ⟨hr, hne⟩, hrow⟩
  · rw [h'.rows.milestones, h.rows.milestones, mem_liveMilestones, mem_liveMilestones]
    constructor
    · rintro ⟨⟨r, hr, hlive, hm⟩, rfl⟩
      obtain ⟨hr, hne⟩ := (hmem r).mp hr
      exact ⟨⟨⟨r, hr, hlive, hm⟩, rfl⟩, by rw [((h.files.loaded r hr).milestones m hm).2]; exact hne⟩
    · rintro ⟨⟨⟨r, hr, hlive, hm⟩, rfl⟩, hne⟩
      rw [((h.files.loaded r hr).milestones m hm).2] at hne
      exact ⟨⟨r, (hmem r).mpr ⟨hr, hne⟩, hlive, hm⟩, rfl⟩
  · rw [h'.rows.tags, h.rows.tags]
    constructor
    · rintro ⟨r, hr, hlive, tag, htag, rfl, rfl⟩
      obtain ⟨hr, hne⟩ := (hmem r).mp hr
      exact ⟨⟨r, hr, hlive, tag, htag, rfl, rfl⟩, hne⟩
    · rintro ⟨⟨r, hr, hlive, tag, htag, rfl, rfl⟩, hne⟩
      exact ⟨r, (hmem r).mpr ⟨hr, hne⟩, hlive, tag, htag, rfl, rfl⟩

/-- The deleted card's only file was in the trash, so that what is left loads as the records of the
other cards. -/
theorem HardDeleted.loadedFiles {records : List (CardRecord K)} {db : Db K} {card : Card K}
    {w' : World K} (h : HardDeleted d card w w') (hp : Projected env w.repo.work records db)
    (hs : SameRows w.db db) (hd : w.db.cards[d]? = some card) (htrash : card.deletedAt.isSome) :
    AllLoad env w'.repo.work ∧ ∀ records', LoadedFiles env w'.repo.work records' →
      records'.Perm (records.filter (·.card.cardId != d)) := by
  obtain ⟨rd, hrd, hrid, hrcard, -⟩ := hp.record hs hd
  have hids := hp.insertable.compatible.ids
  have hother : ∀ path : String, ¬ CardPath d path → w'.repo.work[path]? = w.repo.work[path]? := by
    intro path hpath
    rw [h.work, Map.get_erase_ne]
    rintro rfl
    exact hpath (.inr rfl)
  have hgone : ∀ record, ¬(FileRecord env w'.repo.work record ∧ record.card.cardId = d) := by
    rintro record ⟨hfile, hrec⟩
    obtain ⟨raw, hraw, hload⟩ := hfile.at_path
    rw [hrec] at hraw hload
    cases hdeleted : record.card.deletedAt.isSome with
    | true =>
      rw [hdeleted, h.work] at hraw
      simp [cardPathOf] at hraw
    | false =>
      rw [hdeleted] at hraw hload
      have hraw' : w.repo.work[cardPathOf false d]? = some raw := by
        rw [h.work, Map.get_erase_ne] at hraw
        · exact hraw
        · exact (livePath_ne_trashPath d d).symm
      have hmem : record ∈ records := (hp.files.mem record).mpr
        ⟨_, _, raw, cardFile_cardPathOf _ (hrec ▸ hfile.id_valid), hraw', hload⟩
      have := List.inj_on_of_nodup_map hids hmem hrd (hrec.trans hrid.symm)
      rw [this, (Card.of_untimed hrcard).2.2.2.2.2.2.2, htrash] at hdeleted
      cases hdeleted
  constructor
  · refine hp.files.allLoad.replace hother fun isTrash raw hfile hraw => ?_
    have hraw' : w.repo.work[cardPathOf isTrash d]? = some raw := by
      rw [h.work, Map.get_erase] at hraw
      split at hraw
      · cases hraw
      · exact hraw
    exact hp.files.allLoad _ _ _ hfile hraw'
  · intro records' h'
    have hlen : 4 ≤ d.length := hrid ▸ (hp.files.loaded rd hrd).length
    simpa using hp.files.replace h' hlen hother [] (by simpa using hgone) hids (by simp)

/-- What is rebuilt without the deleted card has no child of it. -/
theorem Projected.childless {records records' : List (CardRecord K)} {db db' : Db K}
    {work' : Tree} (hp : Projected env w.repo.work records db) (hs : SameRows w.db db)
    (hp' : Projected env work' records' db')
    (hpm : records'.Perm (records.filter (·.card.cardId != d))) {id : String} {c : Card K}
    (hc : w.db.cards[id]? = some c) : c.parentCardId ≠ some d := by
  intro hpar
  obtain ⟨r, hr, hrid', hrc, -⟩ := hp.record hs hc
  have hrpar : r.card.parentCardId = some d := by rw [(Card.of_untimed hrc).2.2.2.2.1, hpar]
  have hup : recordUp records r.card.cardId = some (some d) :=
    (recordUp_eq_some hp.insertable.compatible.ids).mpr ⟨r, hr, rfl, hrpar⟩
  have hne : r.card.cardId ≠ d := by
    intro he
    exact (hp.insertable.rooted _ _ hup).not_cycle (.single (by rw [ParentStep, hup, he]))
  have hr' : r ∈ records' := hpm.mem_iff.mpr (List.mem_filter.mpr ⟨hr, by simpa using hne⟩)
  have hup' : recordUp records' r.card.cardId = some (some d) :=
    (recordUp_eq_some hp'.insertable.compatible.ids).mpr ⟨r, hr', rfl, hrpar⟩
  obtain ⟨q, hq⟩ := ((hp'.insertable.rooted _ _ hup').parent hup').node
  obtain ⟨r'', hr'', he, -⟩ := (recordUp_eq_some hp'.insertable.compatible.ids).mp hq
  have := (List.mem_filter.mp (hpm.mem_iff.mp hr'')).2
  simp [he] at this

/-- Tag rows of the same key still agree on it when those of one card are dropped. -/
theorem CardTag.map_key_without {a b a' b' : Option CardTag}
    (h : a.map CardTag.key = b.map CardTag.key) (ha : ∀ t, a' = some t ↔ a = some t ∧ t.cardId ≠ d)
    (hb : ∀ t, b' = some t ↔ b = some t ∧ t.cardId ≠ d) :
    a'.map CardTag.key = b'.map CardTag.key := by
  cases a with
  | none =>
    rw [Option.map_none, eq_comm, Option.map_eq_none_iff] at h
    have ha' : a' = none := Option.eq_none_iff_forall_ne_some.mpr fun t ht => nomatch ((ha t).mp ht).1
    have hb' : b' = none := Option.eq_none_iff_forall_ne_some.mpr fun t ht => by
      rw [hb, h] at ht
      cases ht.1
    rw [ha', hb']
  | some t =>
    rw [Option.map_some, eq_comm, Option.map_eq_some_iff] at h
    obtain ⟨u, rfl, he⟩ := h
    have hcard : u.cardId = t.cardId := by
      simp only [CardTag.key, List.cons.injEq] at he
      exact he.2.1
    by_cases hne : t.cardId = d
    · have ha' : a' = none := Option.eq_none_iff_forall_ne_some.mpr fun s hs => by
        rw [ha, Option.some.injEq] at hs
        exact hs.2 (hs.1 ▸ hne)
      have hb' : b' = none := Option.eq_none_iff_forall_ne_some.mpr fun s hs => by
        rw [hb, Option.some.injEq] at hs
        exact hs.2 (hs.1 ▸ hcard.trans hne)
      rw [ha', hb']
    · rw [(ha t).mpr ⟨rfl, hne⟩, (hb u).mpr ⟨rfl, hcard ▸ hne⟩, Option.map_some, Option.map_some, he]

/-- Where nothing pointed to the deleted card, the records of the others are the rows that are left. -/
theorem HardDeleted.sameRows {records records' : List (CardRecord K)} {db db' : Db K} {card : Card K}
    {w' : World K} (h : HardDeleted d card w w') (hp : Projected env w.repo.work records db)
    (hs : SameRows w.db db) (hproj : card.projectId = env.project.projectId)
    (hp' : Projected env w'.repo.work records' db')
    (hpm : records'.Perm (records.filter (·.card.cardId != d))) (href : Unreferenced w.db d) :
    SameRows w'.db db' := by
  have hmem : ∀ r, r ∈ records' ↔ r ∈ records ∧ r.card.cardId ≠ d := by
    intro r
    rw [hpm.mem_iff, List.mem_filter]
    simp
  obtain ⟨hcards, hlinks, hmilestones, htags⟩ := hp.without hp' hmem
  refine ⟨fun id => ?_, Map.ext fun key => Option.ext fun l => ?_,
    Map.ext fun id => Option.ext fun m => ?_, fun key => ?_⟩
  · rw [hcards, h.cards]
    split
    · rfl
    · rw [← hs.cards id]
      cases hc : w.db.cards[id]? with
      | none => rfl
      | some c =>
        have hpar : (c.parentCardId == some d) = false := by simpa using href.children id c hc
        simp [Card.orphaned, hpar]
  · rw [h.links, hlinks, ← hs.links]
    refine and_congr_right fun hl => ?_
    rw [(hp.link hs hl).1, hproj]
    simp only [true_and]
    exact ⟨fun h => h.1, fun hne => ⟨hne, fun hto => hne (href.links key l hl hto.1 hto.2)⟩⟩
  · rw [h.milestones, hmilestones, hs.milestones]
  · -- The rows may differ in the time they were stored, not in whose they are.
    exact CardTag.map_key_without (hs.tags key) (h.tags key) (htags key)

/-- Where no card was under the deleted one, the files of the others are inserted. -/
theorem HardDeleted.projected (hdir : ∀ paths, (env.directoryOrder paths).Perm paths)
    {records : List (CardRecord K)} {db : Db K} {card : Card K}
    {w' : World K} (h : HardDeleted d card w w') (hp : Projected env w.repo.work records db)
    (hs : SameRows w.db db) (hd : w.db.cards[d]? = some card) (htrash : card.deletedAt.isSome)
    (hchild : ∀ (id : String) (c : Card K), w.db.cards[id]? = some c → c.parentCardId ≠ some d) :
    ∃ db' records', projection env w'.repo.work = .ok db' ∧ Projected env w'.repo.work records' db' ∧
      records'.Perm (records.filter (·.card.cardId != d)) := by
  have hids := hp.insertable.compatible.ids
  obtain ⟨hall, hperm⟩ := h.loadedFiles hp hs hd htrash
  have hparent : ∀ r ∈ records, r.card.parentCardId ≠ some d := by
    intro r hr hpar
    obtain ⟨c, hc, he⟩ := hp.row hs hr
    exact hchild _ c hc (by rw [(Card.of_untimed he).2.2.2.2.1, hpar])
  have hfids : ((records.filter (·.card.cardId != d)).map (·.card.cardId)).Nodup :=
    hids.sublist (List.filter_sublist.map _)
  obtain ⟨db', records', hproj', hp'⟩ := projection_of hdir hall fun records' h' => by
    have hpm := hperm records' h'
    refine ⟨(hp.insertable.compatible.of_subperm List.filter_sublist.subperm).perm hpm.symm, ?_⟩
    rw [← recordUp_perm hpm.symm hfids]
    exact recordUp_filter_rooted hids hp.insertable.rooted hparent
  exact ⟨db', records', hproj', hp', hperm records' hp'.files⟩

end

/-- Ids of the version the rebuild accepts. -/
def idA : String := "aaaaaaaa-aaaa-4aaa-8aaa-aaaaaaaaaaaa"
def idB : String := "bbbbbbbb-bbbb-4bbb-8bbb-bbbbbbbbbbbb"
def idC : String := "cccccccc-cccc-4ccc-8ccc-cccccccccccc"

/-- A trashed card that nothing refers to. -/
def loneTrashed : World ℚ :=
  runCalls (plainEnv fun _ => []) World.empty [.create (plainCard idA "a" none 1) "" none,
    .trash idA 2 .promote]

/-- A card trashed with its child. -/
def trashedFamily : World ℚ :=
  runCalls (plainEnv fun _ => []) World.empty [.create (plainCard idA "a" none 1) "" none,
    .create (plainCard idB "b" (some idA) 2) "" none, .trash idA 3 .trashSubtree]

theorem trashedFamily_inSync : InSync (plainEnv fun _ => []) trashedFamily := by
  decide +kernel

/-- The rows of another project, with one card. -/
def guestRows (cardId : String) : Db ℚ where
  cards := (∅ : Map String (Card ℚ)).insert cardId
    { plainCard cardId "guest" none 1 with projectId := "guests" }
  cardLinks := ∅
  cardTags := ∅
  milestones := ∅
  cardsFts := ∅

theorem guestRows_foreign (extractTags : String → List String) (cardId : String) :
    Foreign (plainEnv extractTags) (guestRows cardId) where
  cards id c hc := by
    simp only [guestRows, Map.get_insert] at hc
    split at hc
    · cases hc
      exact (by decide : "guests" ≠ "home")
    · simp at hc
  tags _ _ ht := by simp [guestRows] at ht
  milestones _ _ hm := by simp [guestRows] at hm
  links _ _ hl := by simp [guestRows] at hl

/-- A card and its child in the trash are inserted in this order, whatever the listing. -/
theorem trashedFamily_characterised :
    ∃ records, loadCardFiles (plainEnv fun _ => []) trashedFamily.repo.work = .ok records ∧
      (∀ r, r ∈ records ↔ FileRecord (plainEnv fun _ => []) trashedFamily.repo.work r) ∧
      (∀ turns, records.length ≤ turns →
        countedRecords (plainEnv fun _ => []) (fun _ => false) turns records (guestRows idC) =
          countedRecords (plainEnv fun _ => []) (fun _ => false) records.length records (guestRows idC)) ∧
      ((∃ stats db, countedRecords (plainEnv fun _ => []) (fun _ => false) records.length records
          (guestRows idC) = .ok stats db) ↔
        ((records.map (·.card.cardId)).Nodup ∧
          ∀ r ∈ records, (guestRows idC).cards[r.card.cardId]? = none) ∧
        (((liveMilestones records).map (·.milestoneId)).Nodup ∧
          ∀ m ∈ liveMilestones records, (guestRows idC).milestones[m.milestoneId]? = none) ∧
        AllRooted (recordUp records) ∧ ∀ r ∈ records, false = false) ∧
      (∀ stats db, countedRecords (plainEnv fun _ => []) (fun _ => false) records.length records
          (guestRows idC) = .ok stats db →
        stats = .total (plainEnv fun _ => []) records ∧ ∃ order : List (CardRecord ℚ),
          order.Perm records ∧ ParentsFirst [] order ∧
            (do insertInTurn (plainEnv fun _ => []) (fun _ => false) order; insertLinks records)
              (guestRows idC) = .ok () db) ∧
      ∀ order : List String → List String, (∀ paths, (order paths).Perm paths) →
        ∃ records', loadCardFiles { plainEnv fun _ => [] with directoryOrder := order }
            trashedFamily.repo.work = .ok records' ∧
          ∀ stats db, countedRecords { plainEnv fun _ => [] with directoryOrder := order } (fun _ => false)
            records'.length records' (guestRows idC) = .ok stats db ↔
              countedRecords (plainEnv fun _ => []) (fun _ => false) records.length records
                (guestRows idC) = .ok stats db := by
  obtain ⟨records, db, hp, -⟩ := trashedFamily_inSync.projected (plainEnv_lawful _).directory
  exact rebuildCards_characterised (fun _ => List.nodup_nil) (plainEnv_lawful _).directory hp.files.allLoad
    (fun _ => false) (guestRows_foreign _ idC)

/-- Their ids differ and their chains end at a root, and beside another project with the id of one of them
the loop throws. -/
theorem trashedFamily_taken : AllLoad (plainEnv fun _ => []) trashedFamily.repo.work ∧
    ∃ records, loadCardFiles (plainEnv fun _ => []) trashedFamily.repo.work = .ok records ∧
      (records.map (·.card.cardId)).Nodup ∧ ((liveMilestones records).map (·.milestoneId)).Nodup ∧
      AllRooted (recordUp records) ∧
      ¬ ∃ stats db, countedRecords (plainEnv fun _ => []) (fun _ => false) records.length records
        (guestRows idA) = .ok stats db := by
  obtain ⟨records, db, hp, hsame⟩ := trashedFamily_inSync.projected (plainEnv_lawful _).directory
  obtain ⟨loaded, hload⟩ := loadCardFiles_of (plainEnv_lawful _).directory hp.files.allLoad
  have hfiles := loadCardFiles_ok (plainEnv_lawful _).directory hload
  have hmem : ∀ r, r ∈ loaded ↔ r ∈ records := fun r => (hfiles.mem r).trans (hp.files.mem r).symm
  have hids : (loaded.map (·.card.cardId)).Nodup := by
    rw [hfiles.ids]
    intro r hr r' hr' he
    exact hp.files.ids.mp hp.insertable.compatible.ids r ((hmem r).mp hr) r' ((hmem r').mp hr') he
  have hperm : records.Perm loaded := (List.perm_ext_iff_of_nodup
    (hp.insertable.compatible.ids.of_map _) (hids.of_map _)).mpr fun r => (hmem r).symm
  have hins := hp.insertable.perm hperm
  refine ⟨hp.files.allLoad, loaded, hload, hids, hins.compatible.milestones, hins.rooted, fun hruns => ?_⟩
  obtain ⟨-, hroom, -⟩ := (countedRecords_iff (guestRows_foreign _ idA) hfiles.loaded).mp hruns
  obtain ⟨r, hr, hid⟩ : ∃ r ∈ loaded, r.card.cardId = idA := by
    have hrow : (trashedFamily.db.cards[idA]?).isSome = true := by decide +kernel
    have hcard := hsame.cards idA
    obtain ⟨c, hc⟩ := Option.isSome_iff_exists.mp hrow
    rw [hc, Option.map_some] at hcard
    obtain ⟨c', hc', -⟩ := Option.map_eq_some_iff.mp hcard.symm
    obtain ⟨r, hr, rfl, hid⟩ := (hp.rows.cards idA c').mp hc'
    exact ⟨r, (hmem r).mpr hr, hid⟩
  have hnew := hroom.newCards r hr
  simp [hid, guestRows] at hnew

/-! ## Creation -/

section
variable [SortKey K] {env : Env K} {w w' : World K} {card : Card K} {content : String} {key : Option K}

section
variable {work : Tree} {records : List (CardRecord K)} {db : Db K} {bytes : Bytes}
  (hp : Projected env w.repo.work records db) (hs : SameRows w.db db)
  (hrow : w.db.cards[card.cardId]? = none)
  (hwork : work = w.repo.work.insert (livePath card.cardId) bytes)
include hp hs hrow

include hwork

variable {record : CardRecord K} (hlen : 4 ≤ card.cardId.length)
  (hrec : loadCardFile env (livePath card.cardId) bytes false = .ok record)
  (hid : record.card.cardId = card.cardId) (hvalid : isValidUuid card.cardId = true)
include hlen hrec hid hvalid

end

end

end HolderCore
