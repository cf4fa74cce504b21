import HolderCore.Library.Rooted
import HolderCore.Card.ReposLemmas
import HolderCore.Project.Rebuild

/-! # What a rebuild inserts

The insertion loop of the rebuild succeeds exactly when the ids of the records differ, the milestones
of the live ones differ, no tag is extracted twice and every parent pointer leads up to a root. The
rows it leaves are the records' own, whatever the order of the files. -/

namespace HolderCore

/-- A record as `load_card_file` leaves it: of the project, at the path of its id, with its own links
and milestones. -/
structure Loaded (env : Env K) (record : CardRecord K) : Prop where
  project : record.card.projectId = env.project.projectId
  path : record.card.relPath = livePath record.card.cardId
  length : 4 ≤ record.card.cardId.length
  links : ∀ link ∈ record.links,
    link.projectId = record.card.projectId ∧ link.fromCardId = record.card.cardId
  milestones : ∀ m ∈ record.milestones,
    m.projectId = record.card.projectId ∧ m.cardId = record.card.cardId

/-- The parent pointers of the records. -/
def recordUp (records : List (CardRecord K)) (id : String) : Option (Option String) :=
  (records.find? (·.card.cardId == id)).map (·.card.parentCardId)

/-- The milestones that become rows. -/
def liveMilestones (records : List (CardRecord K)) : List Milestone :=
  (records.filter (·.card.live)).flatMap (·.milestones)

/-- Nothing in the records breaks a uniqueness constraint. -/
structure Compatible (env : Env K) (records : List (CardRecord K)) : Prop where
  ids : (records.map (·.card.cardId)).Nodup
  tags : ∀ record ∈ records, record.card.deletedAt = none → (env.extractTags record.body).Nodup
  milestones : ((liveMilestones records).map (·.milestoneId)).Nodup

/-- The cards, tags and milestones that records stand for. -/
structure RowsOf (env : Env K) (records : List (CardRecord K)) (db : Db K) : Prop where
  cards : ∀ (id : String) (c : Card K), db.cards[id]? = some c ↔
    ∃ record ∈ records, record.card = c ∧ c.cardId = id
  tags : ∀ (key : List String) (t : CardTag), db.cardTags[key]? = some t ↔
    ∃ record ∈ records, record.card.deletedAt = none ∧ ∃ tag ∈ env.extractTags record.body,
      t = ⟨record.card.projectId, record.card.cardId, tag, record.card.createdAt⟩ ∧ key = t.key
  milestones : ∀ (id : String) (m : Milestone), db.milestones[id]? = some m ↔
    m ∈ liveMilestones records ∧ m.milestoneId = id

theorem mem_liveMilestones {records : List (CardRecord K)} {m : Milestone} :
    m ∈ liveMilestones records ↔
      ∃ record ∈ records, record.card.deletedAt = none ∧ m ∈ record.milestones := by
  simp [liveMilestones, and_assoc]

section
variable {env : Env K} {records done now left : List (CardRecord K)} {record : CardRecord K}
  {db : Db K}

theorem recordUp_eq_some (hids : (records.map (·.card.cardId)).Nodup) {id : String}
    {p : Option String} : recordUp records id = some p ↔
      ∃ record ∈ records, record.card.cardId = id ∧ record.card.parentCardId = p := by
  unfold recordUp
  rw [Option.map_eq_some_iff]
  constructor
  · rintro ⟨record, hf, rfl⟩
    exact ⟨record, List.mem_of_find?_eq_some hf, by simpa using List.find?_some hf, rfl⟩
  · rintro ⟨record, hmem, rfl, rfl⟩
    cases hf : records.find? (·.card.cardId == record.card.cardId) with
    | none => exact absurd (by simp) (List.find?_eq_none.mp hf record hmem)
    | some found =>
      have hid : found.card.cardId = record.card.cardId := by simpa using List.find?_some hf
      have hsame := List.inj_on_of_nodup_map hids (List.mem_of_find?_eq_some hf) hmem hid
      exact ⟨found, rfl, by rw [hsame]⟩

theorem recordUp_perm {records' : List (CardRecord K)} (h : records.Perm records')
    (hids : (records.map (·.card.cardId)).Nodup) : recordUp records = recordUp records' := by
  funext id
  refine Option.ext fun p => ?_
  rw [recordUp_eq_some hids, recordUp_eq_some ((h.map _).nodup_iff.mp hids)]
  simp only [h.mem_iff]

theorem Compatible.of_subperm {records' : List (CardRecord K)} (h : Compatible env records)
    (hsub : records'.Subperm records) : Compatible env records' := by
  have hmem := hsub.subset
  obtain ⟨l, hperm, hsubl⟩ := hsub
  refine ⟨(hperm.map _).nodup_iff.mp (h.ids.sublist (hsubl.map _)), fun r hr => h.tags r (hmem hr), ?_⟩
  · have hsub' : ((liveMilestones l).map (·.milestoneId)).Sublist
        ((liveMilestones records).map (·.milestoneId)) :=
      ((hsubl.filter _).flatMap _).map _
    have hperm' : ((liveMilestones l).map (·.milestoneId)).Perm
        ((liveMilestones records').map (·.milestoneId)) :=
      ((hperm.filter _).flatMap_right _).map _
    exact hperm'.nodup_iff.mp (h.milestones.sublist hsub')

theorem Compatible.perm {records' : List (CardRecord K)} (h : Compatible env records)
    (hp : records.Perm records') : Compatible env records' := h.of_subperm hp.symm.subperm

theorem RowsOf.perm {records' : List (CardRecord K)} (h : RowsOf env records db)
    (hp : records.Perm records') : RowsOf env records' db where
  cards id c := by simpa only [hp.mem_iff] using h.cards id c
  tags key t := by simpa only [hp.mem_iff] using h.tags key t
  milestones id m := by
    simpa only [mem_liveMilestones, hp.mem_iff] using h.milestones id m

theorem RowsOf.empty (env : Env K) : RowsOf env [] (Db.empty : Db K) where
  cards := by simp [Db.empty]
  tags := by simp [Db.empty]
  milestones := by simp [Db.empty, liveMilestones]

theorem Compatible.empty (env : Env K) : Compatible env ([] : List (CardRecord K)) :=
  ⟨by simp, by simp, by simp [liveMilestones]⟩

/-! ## Beside the rows of other projects -/

/-- The rows of other projects, each under its key. -/
structure Foreign (env : Env K) (base : Db K) : Prop where
  cards : ∀ (id : String) (c : Card K), base.cards[id]? = some c → c.projectId ≠ env.project.projectId
  tags : ∀ (key : List String) (t : CardTag), base.cardTags[key]? = some t →
    key = t.key ∧ t.projectId ≠ env.project.projectId
  milestones : ∀ (id : String) (m : Milestone), base.milestones[id]? = some m →
    m.projectId ≠ env.project.projectId
  links : ∀ (key : List String) (l : CardLink), base.cardLinks[key]? = some l →
    key = l.key ∧ l.projectId ≠ env.project.projectId

/-- The rows of records beside those of other projects. -/
structure RowsOver (env : Env K) (base : Db K) (records : List (CardRecord K)) (db : Db K) : Prop where
  cards : ∀ (id : String) (c : Card K), db.cards[id]? = some c ↔
    (∃ record ∈ records, record.card = c ∧ c.cardId = id) ∨ base.cards[id]? = some c
  tags : ∀ (key : List String) (t : CardTag), db.cardTags[key]? = some t ↔
    (∃ record ∈ records, record.card.deletedAt = none ∧ ∃ tag ∈ env.extractTags record.body,
      t = ⟨record.card.projectId, record.card.cardId, tag, record.card.createdAt⟩ ∧ key = t.key) ∨
    base.cardTags[key]? = some t
  milestones : ∀ (id : String) (m : Milestone), db.milestones[id]? = some m ↔
    (m ∈ liveMilestones records ∧ m.milestoneId = id) ∨ base.milestones[id]? = some m

/-- Nothing in the records breaks a uniqueness constraint, and other projects have none of their ids. -/
structure Room (env : Env K) (base : Db K) (records : List (CardRecord K)) : Prop extends
    Compatible env records where
  newCards : ∀ record ∈ records, base.cards[record.card.cardId]? = none
  newMilestones : ∀ m ∈ liveMilestones records, base.milestones[m.milestoneId]? = none

section
variable {base : Db K}

theorem foreign_empty (env : Env K) : Foreign env (Db.empty : Db K) := by
  constructor <;> simp [Db.empty]

theorem rowsOver_empty : RowsOver env Db.empty records db ↔ RowsOf env records db :=
  ⟨fun h => ⟨by simpa [Db.empty] using h.cards, by simpa [Db.empty] using h.tags,
    by simpa [Db.empty] using h.milestones⟩,
  fun h => ⟨by simpa [Db.empty] using h.cards, by simpa [Db.empty] using h.tags,
    by simpa [Db.empty] using h.milestones⟩⟩

theorem room_empty : Room env Db.empty records ↔ Compatible env records :=
  ⟨fun h => h.toCompatible, fun h => ⟨h, by simp [Db.empty], by simp [Db.empty]⟩⟩

theorem RowsOver.nil (env : Env K) (base : Db K) : RowsOver env base [] base where
  cards := by simp
  tags := by simp
  milestones := by simp [liveMilestones]

theorem Room.nil (env : Env K) (base : Db K) : Room env base [] :=
  ⟨.empty env, by simp, by simp [liveMilestones]⟩

theorem Room.of_subperm {records' : List (CardRecord K)} (h : Room env base records)
    (hsub : records'.Subperm records) : Room env base records' where
  toCompatible := h.toCompatible.of_subperm hsub
  newCards r hr := h.newCards r (hsub.subset hr)
  newMilestones m hm := by
    obtain ⟨r, hr, hlive, hmem⟩ := mem_liveMilestones.mp hm
    exact h.newMilestones m (mem_liveMilestones.mpr ⟨r, hsub.subset hr, hlive, hmem⟩)

theorem Room.perm {records' : List (CardRecord K)} (h : Room env base records)
    (hp : records.Perm records') : Room env base records' := h.of_subperm hp.symm.subperm

theorem RowsOver.perm {records' : List (CardRecord K)} (h : RowsOver env base records db)
    (hp : records.Perm records') : RowsOver env base records' db where
  cards id c := by simpa only [hp.mem_iff] using h.cards id c
  tags key t := by simpa only [hp.mem_iff] using h.tags key t
  milestones id m := by
    simpa only [mem_liveMilestones, hp.mem_iff] using h.milestones id m

theorem liveMilestones_cons (records : List (CardRecord K)) : liveMilestones (record :: records) =
    (if record.card.deletedAt = none then record.milestones else []) ++ liveMilestones records := by
  cases hdel : record.card.deletedAt <;> simp [liveMilestones, Card.live, hdel]

/-- What one more record asks for. -/
theorem room_cons_iff (h : Room env base done) : Room env base (record :: done) ↔
    ((∀ r ∈ done, r.card.cardId ≠ record.card.cardId) ∧ base.cards[record.card.cardId]? = none) ∧
      (record.card.deletedAt = none → (env.extractTags record.body).Nodup ∧
        (record.milestones.map (·.milestoneId)).Nodup ∧ ∀ m ∈ record.milestones,
          (∀ m' ∈ liveMilestones done, m'.milestoneId ≠ m.milestoneId) ∧
            base.milestones[m.milestoneId]? = none) := by
  constructor
  · intro hroom
    have hids := hroom.ids
    rw [List.map_cons, List.nodup_cons, List.mem_map] at hids
    refine ⟨⟨fun r hr he => hids.1 ⟨r, hr, he⟩, hroom.newCards record List.mem_cons_self⟩, fun hlive => ?_⟩
    have hms := hroom.milestones
    have hnew := hroom.newMilestones
    rw [liveMilestones_cons, if_pos hlive] at hms hnew
    rw [List.map_append, List.nodup_append] at hms
    exact ⟨hroom.tags record List.mem_cons_self hlive, hms.1, fun m hm => ⟨fun m' hm' he =>
      hms.2.2 _ (List.mem_map_of_mem hm) _ (List.mem_map_of_mem hm') he.symm,
      hnew m (List.mem_append_left _ hm)⟩⟩
  · rintro ⟨⟨hfresh, hnew⟩, hlive⟩
    refine ⟨⟨?_, ?_, ?_⟩, ?_, fun m hm => ?_⟩
    · rw [List.map_cons, List.nodup_cons, List.mem_map]
      exact ⟨fun ⟨r, hr, he⟩ => hfresh r hr he, h.ids⟩
    · exact List.forall_mem_cons.mpr ⟨fun hd => (hlive hd).1, h.tags⟩
    · rw [liveMilestones_cons]
      split
      · next hd =>
        obtain ⟨-, hnodup, hfree⟩ := hlive hd
        rw [List.map_append, List.nodup_append]
        refine ⟨hnodup, h.milestones, fun a ha b hb he => ?_⟩
        obtain ⟨m, hm, rfl⟩ := List.mem_map.mp ha
        obtain ⟨m', hm', rfl⟩ := List.mem_map.mp hb
        exact (hfree m hm).1 m' hm' he.symm
      · exact h.milestones
    · exact List.forall_mem_cons.mpr ⟨hnew, h.newCards⟩
    · rw [liveMilestones_cons, List.mem_append] at hm
      rcases hm with hm | hm
      · split at hm
        · next hd => exact ((hlive hd).2.2 m hm).2
        · cases hm
      · exact h.newMilestones m hm

/-- One more record. -/
theorem RowsOver.cons (h : RowsOver env base done db)
    (hfresh : ∀ r ∈ done, r.card.cardId ≠ record.card.cardId)
    (hnew : base.cards[record.card.cardId]? = none) {db' : Db K}
    (hcards : db'.cards = db.cards.insert record.card.cardId record.card)
    (htags : ∀ (key : List String) (t : CardTag), db'.cardTags[key]? = some t ↔
      (record.card.deletedAt = none ∧ ∃ tag ∈ env.extractTags record.body,
        t = ⟨record.card.projectId, record.card.cardId, tag, record.card.createdAt⟩ ∧ key = t.key) ∨
      db.cardTags[key]? = some t)
    (hmilestones : ∀ (id : String) (m : Milestone), db'.milestones[id]? = some m ↔
      (record.card.deletedAt = none ∧ m ∈ record.milestones ∧ m.milestoneId = id) ∨
      db.milestones[id]? = some m) : RowsOver env base (record :: done) db' where
  cards id c := by
    rw [hcards, Map.get_insert, List.exists_mem_cons_iff]
    split
    · next hid =>
      subst hid
      constructor
      · rintro ⟨⟩
        exact .inl (.inl ⟨rfl, rfl⟩)
      · rintro ((⟨rfl, -⟩ | ⟨r, hr, rfl, he⟩) | hbase)
        · rfl
        · exact absurd he (hfresh r hr)
        · rw [hnew] at hbase
          cases hbase
    · next hid =>
      rw [h.cards, or_assoc]
      refine ⟨.inr, fun hrow => hrow.resolve_left ?_⟩
      rintro ⟨rfl, he⟩
      exact hid he
  tags key t := by rw [htags, h.tags, List.exists_mem_cons_iff, or_assoc]
  milestones id m := by
    rw [hmilestones, h.milestones]
    simp only [mem_liveMilestones, List.exists_mem_cons_iff, or_and_right, and_assoc, or_assoc]

/-- A card that the table takes is new to the records and to the other projects. -/
theorem RowsOver.fresh (h : RowsOver env base done db) (hid : db.cards[record.card.cardId]? = none) :
    (∀ r ∈ done, r.card.cardId ≠ record.card.cardId) ∧ base.cards[record.card.cardId]? = none := by
  refine ⟨fun r hr he => ?_, Option.eq_none_iff_forall_ne_some.mpr fun c hc => ?_⟩
  · have hrow := (h.cards r.card.cardId r.card).mpr (.inl ⟨r, hr, rfl, rfl⟩)
    rw [he, hid] at hrow
    cases hrow
  · rw [(h.cards _ _).mpr (.inr hc)] at hid
    cases hid

/-- The table takes a card that is new. -/
theorem RowsOver.accepted (hforeign : Foreign env base) (hl : Loaded env record)
    (hdone : ∀ r ∈ done, Loaded env r) (hdb : RowsOver env base done db)
    (hpar : ∀ p, record.card.parentCardId = some p → ∃ r ∈ done, r.card.cardId = p)
    (hfresh : ∀ r ∈ done, r.card.cardId ≠ record.card.cardId)
    (hnew : base.cards[record.card.cardId]? = none) :
    db.cards[record.card.cardId]? = none ∧ relPathFree db record.card = true ∧
      parentExists db record.card = true := by
  refine ⟨Option.eq_none_iff_forall_ne_some.mpr fun c hcard => ?_, ?_, ?_⟩
  · rcases (hdb.cards _ _).mp hcard with ⟨r, hr, rfl, he⟩ | hc
    · exact hfresh r hr he
    · rw [hnew] at hc
      cases hc
  · rw [relPathFree, List.all_eq_true]
    intro other hother
    obtain ⟨id, hrow⟩ := Map.mem_rows.mp hother
    rcases (hdb.cards _ _).mp hrow with ⟨r, hr, rfl, rfl⟩ | hc
    · have hne : r.card.relPath ≠ record.card.relPath := by
        rw [(hdone r hr).path, hl.path]
        exact fun he => hfresh r hr (livePath_inj (hdone r hr).length hl.length he)
      simp [hne]
    · have hne : other.projectId ≠ record.card.projectId := by
        rw [hl.project]
        exact hforeign.cards id other hc
      simp [hne]
  · unfold parentExists
    split
    · next p hp =>
      obtain ⟨r, hr, rfl⟩ := hpar p hp
      have hrow := (hdb.cards _ _).mpr (.inl ⟨r, hr, rfl, rfl⟩)
      simp [Std.ExtTreeMap.contains_iff_mem.mpr (Map.mem_iff.mpr ⟨_, hrow⟩)]
    · rfl

/-- The milestones of a card that has none yet. -/
theorem insertMilestones_ends (hl : Loaded env record)
    (hrow : ∃ c, db.cards[record.card.cardId]? = some c)
    (hothers : ∀ (id : String) (m : Milestone), db.milestones[id]? = some m →
      ¬ (m.projectId = record.card.projectId ∧ m.cardId = record.card.cardId)) :
    Ends (if !record.milestones.isEmpty then
        MilestoneRepo.replaceForCard record.card.projectId record.card.cardId record.milestones
      else pure ()) db
      (fun _ db' => ((record.milestones.map (·.milestoneId)).Nodup ∧
          ∀ m ∈ record.milestones, db.milestones[m.milestoneId]? = none) ∧
        db' = { db with milestones := db'.milestones } ∧
        ∀ (id : String) (m : Milestone), db'.milestones[id]? = some m ↔
          (m ∈ record.milestones ∧ m.milestoneId = id) ∨ db.milestones[id]? = some m)
      fun _ _ => ¬ ((record.milestones.map (·.milestoneId)).Nodup ∧
        ∀ m ∈ record.milestones, db.milestones[m.milestoneId]? = none) := by
  have hfree : (∀ m ∈ record.milestones, ∀ m', db.milestones[m.milestoneId]? = some m' →
      m'.projectId = record.card.projectId ∧ m'.cardId = record.card.cardId) ↔
      ∀ m ∈ record.milestones, db.milestones[m.milestoneId]? = none := by
    refine forall_congr' fun m => forall_congr' fun _ => ⟨fun h => ?_, fun h m' hm' => ?_⟩
    · exact Option.eq_none_iff_forall_ne_some.mpr fun m' hm' => hothers _ m' hm' (h m' hm')
    · rw [h] at hm'
      cases hm'
  by_cases hnil : record.milestones = []
  · simp [hnil]
  · have hsome : (!record.milestones.isEmpty) = true := by simp [hnil]
    rw [if_pos hsome]
    refine (MilestoneRepo.replaceForCard_ends _ _ _ db hrow).mono ?_ ?_
    · rintro - db' ⟨-, hnodup, hnew, hdb', hms⟩
      refine ⟨⟨hnodup, hfree.mp hnew⟩, hdb', fun id m => ?_⟩
      rw [hms, and_iff_left_of_imp (hothers id m)]
    · rintro - db' ⟨-, hbad⟩ ⟨hnodup, hnew⟩
      exact hbad ⟨hl.milestones, hnodup, hfree.mpr hnew⟩

/-- Of a new card, other cards have no tags and no milestones. -/
theorem RowsOver.others (hforeign : Foreign env base) (hl : Loaded env record)
    (hdone : ∀ r ∈ done, Loaded env r) (hdb : RowsOver env base done db)
    (hfresh : ∀ r ∈ done, r.card.cardId ≠ record.card.cardId) :
    (∀ (key : List String) (t : CardTag), db.cardTags[key]? = some t →
      key = t.key ∧ ¬ (t.projectId = record.card.projectId ∧ t.cardId = record.card.cardId)) ∧
    ∀ (id : String) (m : Milestone), db.milestones[id]? = some m →
      ¬ (m.projectId = record.card.projectId ∧ m.cardId = record.card.cardId) := by
  rw [hl.project]
  refine ⟨fun key t ht => ?_, fun id m hm => ?_⟩
  · rcases (hdb.tags key t).mp ht with ⟨r, hr, -, tag, -, rfl, hkey⟩ | hbase
    · exact ⟨hkey, fun he => hfresh r hr he.2⟩
    · exact ⟨(hforeign.tags key t hbase).1, fun he => (hforeign.tags key t hbase).2 he.1⟩
  · rcases (hdb.milestones id m).mp hm with ⟨hmem, -⟩ | hbase
    · obtain ⟨r, hr, -, hmr⟩ := mem_liveMilestones.mp hmem
      exact fun he => hfresh r hr (((hdone r hr).milestones m hmr).2.symm.trans he.2)
    · exact fun he => hforeign.milestones id m hbase he.1

/-- Whether the milestones of a live card are new, said of the rows. -/
theorem RowsOver.newMilestones (hdb : RowsOver env base done db) :
    (∀ m ∈ record.milestones, db.milestones[m.milestoneId]? = none) ↔
      ∀ m ∈ record.milestones, (∀ m' ∈ liveMilestones done, m'.milestoneId ≠ m.milestoneId) ∧
        base.milestones[m.milestoneId]? = none := by
  refine forall_congr' fun m => forall_congr' fun _ => ?_
  simp only [Option.eq_none_iff_forall_ne_some, ne_eq, hdb.milestones, not_or, not_and, forall_and]

theorem insertRecord_ends (hforeign : Foreign env base) (hl : Loaded env record)
    (hdone : ∀ r ∈ done, Loaded env r) (hdb : RowsOver env base done db) (hc : Room env base done)
    (hpar : ∀ p, record.card.parentCardId = some p → ∃ r ∈ done, r.card.cardId = p) :
    Ends (insertRecord env record) db
      (fun _ db' => RowsOver env base (record :: done) db' ∧ Room env base (record :: done) ∧
        db'.cardLinks = db.cardLinks)
      fun _ _ => ¬ Room env base (record :: done) := by
  rw [room_cons_iff hc]
  unfold insertRecord
  simp only [Ends.bind_iff (m := CardRepo.create _)]
  refine (CardRepo.create_ends record.card db).mono ?_ ?_
  rotate_left
  · rintro - - ⟨-, hbad⟩ ⟨⟨hfresh, hnew⟩, -⟩
    exact hbad (hdb.accepted hforeign hl hdone hpar hfresh hnew)
  rintro - db1 ⟨hid, -, -, rfl⟩
  obtain ⟨hfresh, hnew⟩ := hdb.fresh hid
  cases hdel : record.card.deletedAt with
  | some at_ =>
    simp only [Option.isNone_some, Bool.false_eq_true, if_false, Ends.pure_iff]
    exact ⟨hdb.cons hfresh hnew rfl (by simp [hdel]) (by simp [hdel]), ⟨⟨hfresh, hnew⟩, by simp⟩,
      trivial⟩
  | none =>
    obtain ⟨hothers, hothers'⟩ := hdb.others hforeign hl hdone hfresh
    have hrow : ∃ c, (db.cards.insert record.card.cardId record.card)[record.card.cardId]? =
        some c := ⟨record.card, by simp⟩
    simp only [Option.isNone_none, if_true, Ends.bind_iff, Ends.ite_iff (c := env.fts = true),
      FtsIndexer.upsertCard, Ends.modify_iff, Ends.pure_iff]
    refine ⟨fun _ => ?_, fun _ => ?_⟩ <;>
    · refine (TagRepo.setTagsForCard_ends _ _ _ _ _ ?_ hrow).mono ?_ ?_
      · exact fun key t ht => (hothers key t ht).1
      rotate_left
      · rintro - db2 ⟨-, hbad⟩ ⟨-, hroom⟩
        exact hbad (hroom trivial).1
      rintro - db2 ⟨hnodup, h2, htags⟩
      refine (insertMilestones_ends hl (by rw [h2]; exact hrow) (by rw [h2]; exact hothers')).mono ?_ ?_
      · rintro - db3 ⟨hfit, h3, hms⟩
        rw [h2] at hfit hms
        refine ⟨hdb.cons hfresh hnew (by rw [h3, h2]) (fun key t => ?_) (fun id m => ?_),
          ⟨⟨hfresh, hnew⟩, fun _ => ⟨hnodup, hfit.1, hdb.newMilestones.mp hfit.2⟩⟩, by rw [h3, h2]⟩
        · rw [h3, htags]
          exact or_congr (by simp [hdel]) ⟨fun h => h.1, fun h => ⟨h, (hothers key t h).2⟩⟩
        · rw [hms]
          exact or_congr_left (by simp [hdel])
      · rintro - db3 hbad ⟨-, hroom⟩
        rw [h2] at hbad
        exact hbad ⟨(hroom trivial).2.1, hdb.newMilestones.mpr (hroom trivial).2.2⟩

end

/-! ## The passes -/

/-- What the loop has inserted so far: rows, ids, and records that all lead up to a root. -/
structure InsertedSoFar (env : Env K) (base : Db K) (inserted : List String)
    (done : List (CardRecord K)) (db : Db K) : Prop where
  rows : RowsOver env base done db
  room : Room env base done
  ids : ∀ id, id ∈ inserted ↔ ∃ r ∈ done, r.card.cardId = id
  rooted : AllRooted (recordUp done)
  loaded : ∀ r ∈ done, Loaded env r
  links : db.cardLinks = base.cardLinks

section
variable {base : Db K}

/-- A record below one that leads up to a root. -/
theorem recordUp_cons_rooted (hids : ((record :: done).map (·.card.cardId)).Nodup)
    (h : AllRooted (recordUp done))
    (hparent : ∀ p, record.card.parentCardId = some p → ∃ r ∈ done, r.card.cardId = p) :
    AllRooted (recordUp (record :: done)) := by
  have hids' : (done.map (·.card.cardId)).Nodup := (List.nodup_cons.mp hids).2
  have hnode : ∀ r ∈ done, recordUp (record :: done) r.card.cardId = some r.card.parentCardId :=
    fun r hr => (recordUp_eq_some hids).mpr ⟨r, List.mem_cons_of_mem _ hr, rfl, rfl⟩
  have hold : ∀ r ∈ done, recordUp done r.card.cardId = some r.card.parentCardId :=
    fun r hr => (recordUp_eq_some hids').mpr ⟨r, hr, rfl, rfl⟩
  refine AllRooted.of_step h fun x p hp => ?_
  obtain ⟨r, hr, rfl, rfl⟩ := (recordUp_eq_some hids).mp hp
  rcases List.mem_cons.mp hr with rfl | hr
  · refine .inr fun y hy => ?_
    obtain ⟨r', hr', rfl⟩ := hparent y hy
    refine (h _ _ (hold r' hr')).weaken fun z q hz => ?_
    obtain ⟨r'', hr'', rfl, rfl⟩ := (recordUp_eq_some hids').mp hz
    exact hnode r'' hr''
  · refine .inl ⟨hold r hr, fun y hy => ?_⟩
    have hroot := (h _ _ (hold r hr)).parent (hy ▸ hold r hr)
    obtain ⟨q, hq⟩ := hroot.node
    obtain ⟨r'', hr'', rfl, rfl⟩ := (recordUp_eq_some hids').mp hq
    exact ⟨_, hnode r'' hr''⟩

theorem InsertedSoFar.insertRecord (hforeign : Foreign env base) {inserted : List String}
    (h : InsertedSoFar env base inserted done db)
    (hl : Loaded env record) (hpar : record.card.parentCardId.all inserted.contains = true) :
    Ends (insertRecord env record) db
      (fun _ db' => InsertedSoFar env base (record.card.cardId :: inserted) (record :: done) db')
      fun _ _ => ¬ Room env base (record :: done) := by
  have hparent : ∀ p, record.card.parentCardId = some p → ∃ r ∈ done, r.card.cardId = p := by
    intro p hp
    rw [hp, Option.all_some, List.contains_iff_mem] at hpar
    exact (h.ids p).mp hpar
  refine (insertRecord_ends hforeign hl h.loaded h.rows h.room hparent).mono ?_ fun _ _ he => he
  rintro - db' ⟨hrows, hcomp, hlinks⟩
  refine ⟨hrows, hcomp, fun id => ?_, recordUp_cons_rooted hcomp.ids h.rooted hparent, fun r hr => ?_,
    hlinks.trans h.links⟩
  · simp only [List.mem_cons, h.ids, exists_eq_or_imp]
    exact or_congr_left eq_comm
  · rcases List.mem_cons.mp hr with rfl | hr
    · exact hl
    · exact h.loaded r hr

theorem insertPass_ends (hforeign : Foreign env base) {inserted : List String}
    (h : InsertedSoFar env base inserted done db)
    (hl : ∀ r ∈ records, Loaded env r) :
    Ends (insertPass env inserted records) db
      (fun (inserted', left) db' => ∃ now, (now ++ left).Perm records ∧
        InsertedSoFar env base inserted' (now ++ done) db' ∧
        (now = [] → ∀ r ∈ records, r.card.parentCardId.all inserted.contains = false))
      fun _ _ => ¬ Room env base (done ++ records) := by
  induction records generalizing inserted done db with
  | nil => exact ⟨[], .refl _, h, by simp⟩
  | cons record records ih =>
    rw [insertPass]
    have hrest : ∀ r ∈ records, Loaded env r := fun r hr => hl r (List.mem_cons_of_mem _ hr)
    simp only [Ends.ite_iff]
    refine ⟨fun hpar => ?_, fun hpar => ?_⟩
    · refine (h.insertRecord hforeign (hl record List.mem_cons_self) hpar).bind (fun _ db1 h1 => ?_)
        fun _ _ hbad hcomp => hbad (hcomp.of_subperm ?_)
      · refine (ih h1 hrest).mono ?_ fun _ _ hbad hcomp => hbad (hcomp.perm ?_)
        · rintro ⟨inserted', left⟩ db' ⟨now, hperm, hso, -⟩
          refine ⟨now ++ [record], ?_, by simpa using hso, by simp⟩
          rw [List.append_assoc, List.singleton_append]
          exact List.perm_middle.trans (hperm.cons record)
        · exact List.perm_middle
      · exact (List.perm_append_singleton record done).symm.subperm.trans
          ((List.subperm_append_left done).mpr (List.singleton_subperm_iff.mpr List.mem_cons_self))
    · refine (ih h hrest).bind ?_ fun _ _ hbad hcomp => hbad (hcomp.of_subperm ?_)
      · rintro ⟨inserted', left⟩ db' ⟨now, hperm, hso, hblocked⟩
        refine ⟨now, List.perm_middle.trans (hperm.cons record), hso, fun hnil r hr => ?_⟩
        rcases List.mem_cons.mp hr with rfl | hr
        · simpa using hpar
        · exact hblocked hnil r hr
      · exact (List.subperm_append_left done).mpr (List.sublist_cons_self _ _).subperm

/-- A record that leads up to a root is inserted at the latest once its parent is. -/
theorem not_all_blocked {inserted : List String} (h : InsertedSoFar env base inserted done db)
    (hids : ((done ++ records).map (·.card.cardId)).Nodup)
    (hroot : AllRooted (recordUp (done ++ records)))
    (hblocked : ∀ r ∈ records, r.card.parentCardId.all inserted.contains = false) :
    records = [] := by
  have hin : ∀ id, Rooted (recordUp (done ++ records)) id → id ∈ inserted := by
    intro id hid
    induction hid with
    | root hup =>
      obtain ⟨r, hr, rfl, hp⟩ := (recordUp_eq_some hids).mp hup
      rcases List.mem_append.mp hr with hr | hr
      · exact (h.ids _).mpr ⟨r, hr, rfl⟩
      · have := hblocked r hr
        simp [hp] at this
    | step hup _ ih =>
      obtain ⟨r, hr, rfl, hp⟩ := (recordUp_eq_some hids).mp hup
      rcases List.mem_append.mp hr with hr | hr
      · exact (h.ids _).mpr ⟨r, hr, rfl⟩
      · have := hblocked r hr
        simp [hp, ih] at this
  refine List.eq_nil_iff_forall_not_mem.mpr fun r hr => ?_
  have hup : recordUp (done ++ records) r.card.cardId = some r.card.parentCardId :=
    (recordUp_eq_some hids).mpr ⟨r, List.mem_append_right _ hr, rfl, rfl⟩
  obtain ⟨r', hr', he⟩ := (h.ids _).mp (hin _ (hroot _ _ hup))
  rw [List.map_append, List.nodup_append] at hids
  exact hids.2.2 _ (List.mem_map.mpr ⟨r', hr', rfl⟩) _ (List.mem_map.mpr ⟨r, hr, rfl⟩) he

theorem insertPasses_ends (hforeign : Foreign env base) (fuel : Nat) {inserted : List String}
    (h : InsertedSoFar env base inserted done db) (hl : ∀ r ∈ records, Loaded env r)
    (hfuel : records.length ≤ fuel) :
    Ends (insertPasses env fuel inserted records) db
      (fun _ db' => RowsOver env base (done ++ records) db' ∧ Room env base (done ++ records) ∧
        AllRooted (recordUp (done ++ records)) ∧ db'.cardLinks = base.cardLinks)
      fun _ _ => ¬(Room env base (done ++ records) ∧ AllRooted (recordUp (done ++ records))) := by
  induction fuel generalizing inserted done db records with
  | zero =>
    have hnil : records = [] := List.length_eq_zero_iff.mp (by omega)
    subst hnil
    simp only [insertPasses, Ends.pure_iff, List.append_nil]
    exact ⟨h.rows, h.room, h.rooted, h.links⟩
  | succ fuel ih =>
    cases records with
    | nil =>
      simp only [insertPasses, Ends.pure_iff, List.append_nil]
      exact ⟨h.rows, h.room, h.rooted, h.links⟩
    | cons record records =>
      simp only [insertPasses]
      refine (insertPass_ends hforeign h hl).bind ?_ fun _ _ hbad hgood => hbad hgood.1
      rintro ⟨inserted', left⟩ db1 ⟨now, hperm, hso, hblocked⟩
      have hlen : now.length + left.length = (record :: records).length := by
        rw [← List.length_append, hperm.length_eq]
      have hall : (now ++ done ++ left).Perm (done ++ record :: records) := by
        refine (List.perm_append_comm.append_right left).trans ?_
        rw [List.append_assoc]
        exact hperm.append_left done
      simp only [Ends.ite_iff]
      refine ⟨fun hstuck hgood => ?_, fun hmoved => ?_⟩
      · have hnow : now = [] := List.length_eq_zero_iff.mp (by omega)
        exact List.cons_ne_nil _ _ (not_all_blocked h hgood.1.ids hgood.2 (hblocked hnow))
      · refine (ih hso (fun r hr => hl r (hperm.subset (List.mem_append_right _ hr))) ?_).mono ?_ ?_
        · simp only [List.length_cons] at hfuel hlen hmoved
          omega
        · rintro - db' ⟨hrows, hcomp, hroot, hlinks⟩
          exact ⟨hrows.perm hall, hcomp.perm hall, recordUp_perm hall hcomp.ids ▸ hroot, hlinks⟩
        · rintro - db' hbad ⟨hcomp, hroot⟩
          exact hbad ⟨hcomp.perm hall.symm, (recordUp_perm hall.symm hcomp.ids) ▸ hroot⟩

end

end

/-! ## The links -/

/-- The rows that a list of links becomes: the last link with a key decides its row. -/
def linkRows (links : List CardLink) : Map (List String) CardLink :=
  links.foldl (fun t link => t.insert (LinkRepo.storedLink link).key (LinkRepo.storedLink link)) ∅

theorem get_foldl_links (links : List CardLink) (m : Map (List String) CardLink)
    (key : List String) : (links.foldl (fun t link =>
        t.insert (LinkRepo.storedLink link).key (LinkRepo.storedLink link)) m)[key]? =
      (linkRows links)[key]?.or m[key]? := by
  unfold linkRows
  rw [Map.get_foldl_insert_key, Map.get_foldl_insert_key, Std.ExtTreeMap.getElem?_empty, Option.or_none]

theorem linkRows_eq_some {links : List CardLink} {key : List String} {l : CardLink}
    (h : (linkRows links)[key]? = some l) :
    ∃ link ∈ links, l = LinkRepo.storedLink link ∧ key = l.key := by
  rw [linkRows, Map.get_foldl_insert_key, Std.ExtTreeMap.getElem?_empty, Option.or_none,
    Option.map_eq_some_iff] at h
  obtain ⟨link, hf, rfl⟩ := h
  refine ⟨link, List.mem_reverse.mp (List.mem_of_find?_eq_some hf), rfl, ?_⟩
  exact (by simpa using List.find?_some hf : _ = key).symm

section
variable {env : Env K} {records : List (CardRecord K)} {db : Db K}

theorem Loaded.linkRows {record : CardRecord K} (hl : Loaded env record) {key : List String}
    {l : CardLink} (h : (linkRows record.links)[key]? = some l) :
    l.projectId = record.card.projectId ∧ l.fromCardId = record.card.cardId ∧ key = l.key := by
  obtain ⟨link, hlink, rfl, rfl⟩ := linkRows_eq_some h
  obtain ⟨hproj, hfrom⟩ := hl.links link hlink
  exact ⟨hproj, hfrom, rfl⟩

theorem insertLinks_ends (hl : ∀ r ∈ records, Loaded env r)
    (hids : (records.map (·.card.cardId)).Nodup) :
    Ends (insertLinks records) db
      (fun _ db' => db' = { db with cardLinks := db'.cardLinks } ∧
        ∀ (key : List String) (l : CardLink), db'.cardLinks[key]? = some l ↔
          (∃ r ∈ records, (linkRows r.links)[key]? = some l) ∨
            (∀ r ∈ records, (linkRows r.links)[key]? = none) ∧ db.cardLinks[key]? = some l)
      fun _ _ => False := by
  induction records generalizing db with
  | nil => simp [insertLinks]
  | cons record records ih =>
    rw [List.map_cons, List.nodup_cons] at hids
    simp only [insertLinks, Ends.bind_iff]
    refine (LinkRepo.upsertLinks_ends _ _ _ _).mono ?_ fun _ _ h =>
      h.2 (hl record List.mem_cons_self).links
    rintro - db1 ⟨rfl, -⟩
    refine (ih (fun r hr => hl r (List.mem_cons_of_mem _ hr)) hids.2).mono ?_ fun _ _ h => h
    rintro - db' ⟨hdb, hlinks⟩
    refine ⟨hdb, fun key l => ?_⟩
    rw [hlinks, get_foldl_links, List.exists_mem_cons_iff, List.forall_mem_cons]
    -- A key names the card it links from, so only one record can have it.
    have hone : ∀ l', (linkRows record.links)[key]? = some l' →
        ∀ r ∈ records, (linkRows r.links)[key]? = none := by
      intro l' hl' r hr
      refine Option.eq_none_iff_forall_ne_some.mpr fun l'' hl'' => ?_
      obtain ⟨-, hfrom, hk⟩ := (hl record List.mem_cons_self).linkRows hl'
      obtain ⟨-, hfrom', hk'⟩ := (hl r (List.mem_cons_of_mem _ hr)).linkRows hl''
      rw [hk] at hk'
      simp only [CardLink.key, List.cons.injEq, and_true] at hk'
      exact hids.1 (List.mem_map.mpr ⟨r, hr, by rw [← hfrom', ← hk'.2.1, hfrom]⟩)
    cases hrec : (linkRows record.links)[key]? with
    | none => simp
    | some l' =>
      have hnone := hone l' hrec
      simp only [Option.some_or, Option.some.injEq, reduceCtorEq, false_and, or_false]
      constructor
      · rintro (⟨r, hr, hrl⟩ | ⟨-, rfl⟩)
        · rw [hnone r hr] at hrl
          cases hrl
        · exact .inl rfl
      · rintro (rfl | ⟨r, hr, hrl⟩)
        · exact .inr ⟨hnone, rfl⟩
        · rw [hnone r hr] at hrl
          cases hrl

/-- The records can all be inserted. -/
structure Insertable (env : Env K) (records : List (CardRecord K)) : Prop where
  compatible : Compatible env records
  rooted : AllRooted (recordUp records)

/-- The link rows that records stand for. -/
def LinksOf (records : List (CardRecord K)) (db : Db K) : Prop :=
  ∀ (key : List String) (l : CardLink), db.cardLinks[key]? = some l ↔
    ∃ r ∈ records, (linkRows r.links)[key]? = some l

/-- The link rows of records beside those of other projects. -/
def LinksOver (base : Db K) (records : List (CardRecord K)) (db : Db K) : Prop :=
  ∀ (key : List String) (l : CardLink), db.cardLinks[key]? = some l ↔
    (∃ r ∈ records, (linkRows r.links)[key]? = some l) ∨ base.cardLinks[key]? = some l

/-- The insertion of the records beside the rows of other projects succeeds exactly when these leave room
for them. -/
theorem insertRecords_over {base : Db K} (hforeign : Foreign env base) (hl : ∀ r ∈ records, Loaded env r) :
    Ends (insertRecords env records) base
      (fun _ db => (Room env base records ∧ AllRooted (recordUp records)) ∧
        RowsOver env base records db ∧ LinksOver base records db)
      fun _ _ => ¬ (Room env base records ∧ AllRooted (recordUp records)) := by
  have hstart : InsertedSoFar env base [] [] base :=
    ⟨.nil env base, .nil env base, by simp, fun x p hx => by simp [recordUp] at hx, by simp, rfl⟩
  unfold insertRecords
  refine (insertPasses_ends hforeign records.length hstart hl (le_refl _)).bind ?_ fun _ _ h => h
  rintro - db1 ⟨hrows, hroom, hroot, hlinks⟩
  rw [List.nil_append] at hrows hroom hroot
  refine (insertLinks_ends hl hroom.ids).mono ?_ fun _ _ h => h.elim
  rintro - db2 ⟨hdb, hlink⟩
  refine ⟨⟨hroom, hroot⟩, ⟨?_, ?_, ?_⟩, fun key l => ?_⟩
  · rw [hdb]; exact hrows.cards
  · rw [hdb]; exact hrows.tags
  · rw [hdb]; exact hrows.milestones
  · rw [hlink, hlinks]
    refine or_congr_right ⟨fun h => h.2, fun hbase => ⟨fun r hr => ?_, hbase⟩⟩
    refine Option.eq_none_iff_forall_ne_some.mpr fun l' hl' => ?_
    -- A key names the project.
    obtain ⟨hkey, hproject⟩ := hforeign.links key l hbase
    obtain ⟨hproject', -, hkey'⟩ := (hl r hr).linkRows hl'
    rw [hkey] at hkey'
    simp only [CardLink.key, List.cons.injEq] at hkey'
    exact hproject (hkey'.1.trans (hproject'.trans (hl r hr).project))

/-- The insertion of the records succeeds exactly when they are insertable, and leaves their rows. -/
theorem insertRecords_ends (hl : ∀ r ∈ records, Loaded env r) :
    Ends (insertRecords env records) Db.empty
      (fun _ db => Insertable env records ∧ RowsOf env records db ∧ LinksOf records db)
      fun _ _ => ¬ Insertable env records := by
  refine (insertRecords_over (foreign_empty env) hl).mono ?_ ?_
  · rintro - db ⟨⟨hroom, hroot⟩, hrows, hlinks⟩
    exact ⟨⟨hroom.toCompatible, hroot⟩, rowsOver_empty.mp hrows, fun key l => by
      simpa [Db.empty] using hlinks key l⟩
  · rintro - db hbad ⟨hcomp, hroot⟩
    exact hbad ⟨room_empty.mpr hcomp, hroot⟩

end

end HolderCore
