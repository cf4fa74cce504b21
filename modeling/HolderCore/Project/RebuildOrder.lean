import HolderCore.Project.LoadLemmas

/-! # The order in which a rebuild inserts cards

The insertion loop of the rebuild with its counters. What it inserts, and in which order, does not
depend on the database: the passes are a schedule of the records in which every card comes after its
parent, and the loop inserts the schedule. The rows and the counters do not depend on the order in
which the files were listed. -/

namespace HolderCore

/-- The counters of `RebuildStats` that the card files move. -/
structure RebuildStats where
  cards : Nat
  links : Nat
  tags : Nat
  milestones : Nat
deriving DecidableEq, Repr

def RebuildStats.zero : RebuildStats := ⟨0, 0, 0, 0⟩

/-! ## The loop with its counters -/

section
variable (env : Env K) (isNan : K → Bool)

/-- SQLite binds a key that is no number as NULL, which the column does not take. -/
def insertBound (record : CardRecord K) : DbM K Unit :=
  if isNan record.card.sortKey then
    throw (.runtimeError "insert card failed: NOT NULL constraint failed: cards.sort_key")
  else insertRecord env record

/-- A card that was inserted; only a live one has tags and milestones to count. -/
def RebuildStats.count (stats : RebuildStats) (record : CardRecord K) : RebuildStats :=
  if record.card.deletedAt.isNone then { stats with
    cards := stats.cards + 1
    tags := stats.tags + (env.extractTags record.body).length
    milestones := stats.milestones + record.milestones.length }
  else { stats with cards := stats.cards + 1 }

def countedPass : (inserted : List String) → RebuildStats → List (CardRecord K) →
    DbM K (List String × RebuildStats × List (CardRecord K))
  | inserted, stats, [] => return (inserted, stats, [])
  | inserted, stats, record :: records => do
    if record.card.parentCardId.all inserted.contains then
      insertBound env isNan record
      countedPass (record.card.cardId :: inserted) (stats.count env record) records
    else
      let (inserted, stats, left) ← countedPass inserted stats records
      return (inserted, stats, record :: left)

/-- `while (remaining_cards > 0)`, for as many turns as `fuel`. -/
def countedPasses : (fuel : Nat) → (inserted : List String) → RebuildStats →
    List (CardRecord K) → DbM K RebuildStats
  | _, _, stats, [] => return stats
  | 0, _, _, _ => throw (.runtimeError "unresolved parent_card_id during rebuild")
  | fuel + 1, inserted, stats, records => do
    let (inserted, stats, left) ← countedPass env isNan inserted stats records
    if left.length = records.length then
      throw (.runtimeError "unresolved parent_card_id during rebuild")
    countedPasses fuel inserted stats left

def countedLinks : RebuildStats → List (CardRecord K) → DbM K RebuildStats
  | stats, [] => return stats
  | stats, record :: records => do
    LinkRepo.upsertLinks record.card.projectId record.card.cardId record.links
    countedLinks { stats with links := stats.links + record.links.length } records

def countedRecords (fuel : Nat) (records : List (CardRecord K)) : DbM K RebuildStats := do
  countedLinks (← countedPasses env isNan fuel [] .zero records) records

end

/-! ## The schedule -/

/-- The records that a pass inserts, in turn, and those it leaves. -/
def schedulePass : (inserted : List String) → List (CardRecord K) →
    List (CardRecord K) × List (CardRecord K)
  | _, [] => ([], [])
  | inserted, record :: records =>
    if record.card.parentCardId.all inserted.contains then
      ((record :: (schedulePass (record.card.cardId :: inserted) records).1),
        (schedulePass (record.card.cardId :: inserted) records).2)
    else ((schedulePass inserted records).1, record :: (schedulePass inserted records).2)

/-- The ids inserted once the records of a pass are. -/
def insertedAfter (inserted : List String) (now : List (CardRecord K)) : List String :=
  now.foldl (fun ids record => record.card.cardId :: ids) inserted

/-- The records that the passes insert, in turn, and those no pass can insert. -/
def schedule : (fuel : Nat) → (inserted : List String) → List (CardRecord K) →
    List (CardRecord K) × List (CardRecord K)
  | 0, _, records => ([], records)
  | fuel + 1, inserted, records =>
    if (schedulePass inserted records).1.isEmpty then ([], records)
    else
      ((schedulePass inserted records).1 ++ (schedule fuel
        (insertedAfter inserted (schedulePass inserted records).1) (schedulePass inserted records).2).1,
      (schedule fuel (insertedAfter inserted (schedulePass inserted records).1)
        (schedulePass inserted records).2).2)

/-- Insert records in turn. -/
def insertInTurn (env : Env K) (isNan : K → Bool) : List (CardRecord K) → DbM K Unit
  | [] => return
  | record :: records => do
    insertBound env isNan record
    insertInTurn env isNan records

/-- Every card comes after its parent. -/
def ParentsFirst (inserted : List String) : List (CardRecord K) → Prop
  | [] => True
  | record :: records => (∀ p, record.card.parentCardId = some p → p ∈ inserted) ∧
      ParentsFirst (record.card.cardId :: inserted) records

section
variable {env : Env K} {isNan : K → Bool} {inserted : List String} {records : List (CardRecord K)}

theorem schedulePass_perm (inserted : List String) (records : List (CardRecord K)) :
    ((schedulePass inserted records).1 ++ (schedulePass inserted records).2).Perm records := by
  induction records generalizing inserted with
  | nil => exact .refl _
  | cons record records ih =>
    rw [schedulePass]
    split
    · exact (ih _).cons record
    · exact List.perm_middle.trans ((ih _).cons record)

theorem schedulePass_parentsFirst (inserted : List String) (records : List (CardRecord K)) :
    ParentsFirst inserted (schedulePass inserted records).1 := by
  induction records generalizing inserted with
  | nil => trivial
  | cons record records ih =>
    rw [schedulePass]
    split
    · next hpar =>
      refine ⟨fun p hp => ?_, ih _⟩
      rw [hp, Option.all_some, List.contains_iff_mem] at hpar
      exact hpar
    · exact ih _

theorem ParentsFirst.append {now later : List (CardRecord K)} (h : ParentsFirst inserted now)
    (h' : ParentsFirst (insertedAfter inserted now) later) : ParentsFirst inserted (now ++ later) := by
  induction now generalizing inserted with
  | nil => exact h'
  | cons record now ih => exact ⟨h.1, ih h.2 h'⟩

theorem schedule_perm (fuel : Nat) (inserted : List String) (records : List (CardRecord K)) :
    ((schedule fuel inserted records).1 ++ (schedule fuel inserted records).2).Perm records := by
  induction fuel generalizing inserted records with
  | zero => exact .refl _
  | succ fuel ih =>
    rw [schedule]
    split
    · exact .refl _
    · rw [List.append_assoc]
      exact ((ih _ _).append_left _).trans (schedulePass_perm inserted records)

theorem schedule_parentsFirst (fuel : Nat) (inserted : List String) (records : List (CardRecord K)) :
    ParentsFirst inserted (schedule fuel inserted records).1 := by
  induction fuel generalizing inserted records with
  | zero => trivial
  | succ fuel ih =>
    rw [schedule]
    split
    · trivial
    · exact (schedulePass_parentsFirst inserted records).append (ih _ _)

/-- A parent is among the records that come before its child. -/
theorem ParentsFirst.before (h : ParentsFirst [] records) {before after : List (CardRecord K)}
    {record : CardRecord K} (hsplit : records = before ++ record :: after) {p : String}
    (hp : record.card.parentCardId = some p) : ∃ r ∈ before, r.card.cardId = p := by
  have hgen : ∀ (inserted : List String) (before records : List (CardRecord K)),
      ParentsFirst inserted records → records = before ++ record :: after →
      p ∈ inserted ∨ ∃ r ∈ before, r.card.cardId = p := by
    intro inserted before
    induction before generalizing inserted with
    | nil =>
      rintro records h rfl
      exact .inl (h.1 p hp)
    | cons first before ih =>
      rintro records h rfl
      rcases ih _ _ h.2 rfl with hmem | ⟨r, hr, he⟩
      · rcases List.mem_cons.mp hmem with rfl | hmem
        · exact .inr ⟨first, List.mem_cons_self, rfl⟩
        · exact .inl hmem
      · exact .inr ⟨r, List.mem_cons_of_mem _ hr, he⟩
  exact (hgen [] before records h hsplit).resolve_left (by simp)

theorem insertInTurn_append (now later : List (CardRecord K)) :
    insertInTurn env isNan (now ++ later) = (do insertInTurn env isNan now; insertInTurn env isNan later) := by
  induction now with
  | nil => rfl
  | cons record now ih => simp only [List.cons_append, insertInTurn, ih, bind_assoc]

/-- A pass is the insertion of the records it is scheduled to insert. -/
theorem countedPass_eq (inserted : List String) (stats : RebuildStats)
    (records : List (CardRecord K)) :
    countedPass env isNan inserted stats records = do
      insertInTurn env isNan (schedulePass inserted records).1
      return (insertedAfter inserted (schedulePass inserted records).1,
        (schedulePass inserted records).1.foldl (RebuildStats.count env) stats,
        (schedulePass inserted records).2) := by
  induction records generalizing inserted stats with
  | nil => rfl
  | cons record records ih =>
    rw [countedPass, schedulePass]
    split
    · simp only [ih, insertInTurn, bind_assoc, insertedAfter, List.foldl_cons]
    · simp only [ih, bind_assoc, pure_bind]

/-- The loop inserts the schedule, and throws if a record is left. -/
theorem countedPasses_eq (fuel : Nat) (inserted : List String) (stats : RebuildStats)
    (records : List (CardRecord K)) (hfuel : records.length ≤ fuel) :
    countedPasses env isNan fuel inserted stats records = (do
      insertInTurn env isNan (schedule fuel inserted records).1
      if (schedule fuel inserted records).2.isEmpty then
        return (schedule fuel inserted records).1.foldl (RebuildStats.count env) stats
      else
        throw (.runtimeError "unresolved parent_card_id during rebuild")) := by
  induction fuel generalizing inserted stats records with
  | zero =>
    have hnil : records = [] := List.length_eq_zero_iff.mp (by omega)
    subst hnil
    rfl
  | succ fuel ih =>
    cases records with
    | nil =>
      have hpass : schedule (fuel + 1) inserted ([] : List (CardRecord K)) = ([], []) := by
        simp [schedule, schedulePass]
      rw [hpass]
      rfl
    | cons record records =>
      have hlen := (schedulePass_perm inserted (record :: records)).length_eq
      rw [List.length_append] at hlen
      rw [countedPasses.eq_3 _ _ _ _ _ _ (List.cons_ne_nil _ _), countedPass_eq, schedule]
      simp only [bind_assoc, pure_bind]
      by_cases hnow : (schedulePass inserted (record :: records)).1 = []
      · have hstuck : (schedulePass inserted (record :: records)).2.length =
            (record :: records).length := by
          rw [hnow] at hlen
          simpa using hlen
        simp only [hstuck, hnow, if_true, List.isEmpty_nil, List.isEmpty_cons, Bool.false_eq_true,
          if_false]
        rfl
      · have hpos := List.length_pos_iff.mpr hnow
        have hmoved : ¬ (schedulePass inserted (record :: records)).2.length =
            (record :: records).length := by omega
        simp only [hmoved, if_false, List.isEmpty_iff, hnow, insertInTurn_append, List.foldl_append,
          bind_assoc]
        rw [ih _ _ _ (by simp only [List.length_cons] at hfuel hlen; omega)]
        simp only [List.isEmpty_iff]

/-- A key that is no number is never inserted. -/
theorem insertInTurn_keys (records : List (CardRecord K)) (db : Db K) :
    Ends (insertInTurn env isNan records) db
      (fun _ _ => ∀ record ∈ records, isNan record.card.sortKey = false) fun _ _ => True := by
  induction records generalizing db with
  | nil => simp [insertInTurn]
  | cons record records ih =>
    rw [insertInTurn, insertBound, Ends.bind_iff, Ends.ite_iff]
    refine ⟨fun _ => trivial, fun hkey => ?_⟩
    have hinsert : Ends (insertRecord env record) db (fun _ _ => True) fun _ _ => True := by
      unfold Ends
      split <;> trivial
    refine hinsert.mono (fun _ db1 _ => ?_) fun _ _ _ => trivial
    refine (ih db1).mono (fun _ _ hrest => ?_) fun _ _ _ => trivial
    exact List.forall_mem_cons.mpr ⟨by simpa using hkey, hrest⟩

theorem insertInTurn_numbers (h : ∀ record ∈ records, isNan record.card.sortKey = false) :
    insertInTurn env isNan records = insertInTurn env (fun _ => false) records := by
  induction records with
  | nil => rfl
  | cons record records ih =>
    rw [List.forall_mem_cons] at h
    rw [insertInTurn, insertInTurn, ih h.2, insertBound, insertBound, h.1]

/-- The number of turns that the loop is given does not matter once it has one for every record. -/
theorem schedule_fuel (fuel fuel' : Nat) (inserted : List String) (records : List (CardRecord K))
    (h : records.length ≤ fuel) (h' : records.length ≤ fuel') :
    schedule fuel inserted records = schedule fuel' inserted records := by
  induction fuel generalizing fuel' inserted records with
  | zero =>
    have hnil : records = [] := List.length_eq_zero_iff.mp (by omega)
    subst hnil
    cases fuel' <;> simp [schedule, schedulePass]
  | succ fuel ih =>
    cases fuel' with
    | zero =>
      have hnil : records = [] := List.length_eq_zero_iff.mp (by omega)
      subst hnil
      simp [schedule, schedulePass]
    | succ fuel' =>
      rw [schedule, schedule]
      split
      · rfl
      · next hnow =>
        have hlen := (schedulePass_perm inserted records).length_eq
        have hpos := List.length_pos_iff.mpr (mt List.isEmpty_iff.mpr hnow)
        rw [List.length_append] at hlen
        rw [ih fuel' _ _ (by omega) (by omega)]

theorem countedPasses_fuel (fuel : Nat) (inserted : List String) (stats : RebuildStats)
    (records : List (CardRecord K)) (hfuel : records.length ≤ fuel) :
    countedPasses env isNan fuel inserted stats records =
      countedPasses env isNan records.length inserted stats records := by
  rw [countedPasses_eq fuel inserted stats records hfuel,
    countedPasses_eq records.length inserted stats records (le_refl _),
    schedule_fuel fuel records.length inserted records hfuel (le_refl _)]

/-- Where every key is a number, the loop is the one that does not ask. -/
theorem countedRecords_numbers (h : ∀ record ∈ records, isNan record.card.sortKey = false) :
    countedRecords env isNan records.length records = countedRecords env (fun _ => false) records.length
      records := by
  have hin : ∀ record ∈ (schedule records.length [] records).1, isNan record.card.sortKey = false :=
    fun record hr => h record ((schedule_perm _ _ _).subset (List.mem_append_left _ hr))
  rw [countedRecords, countedRecords, countedPasses_eq _ _ _ _ (le_refl _),
    countedPasses_eq _ _ _ _ (le_refl _), insertInTurn_numbers hin]

/-- The loop never succeeds with a key that is no number. -/
theorem countedRecords_keys (records : List (CardRecord K)) (db : Db K) :
    Ends (countedRecords env isNan records.length records) db
      (fun _ _ => ∀ record ∈ records, isNan record.card.sortKey = false) fun _ _ => True := by
  rw [countedRecords, countedPasses_eq _ _ _ _ (le_refl _)]
  simp only [bind_assoc]
  refine (insertInTurn_keys _ db).bind ?_ fun _ _ h => h
  intro _ db1 hkeys
  by_cases hleft : (schedule records.length [] records).2 = []
  · have hperm := schedule_perm records.length [] records
    rw [hleft, List.append_nil] at hperm
    simp only [hleft, List.isEmpty_nil, if_true, pure_bind]
    unfold Ends
    split
    · exact fun record hr => hkeys record (hperm.mem_iff.mpr hr)
    · trivial
  · have hempty : (schedule records.length [] records).2.isEmpty = false := by
      simpa [List.isEmpty_iff] using hleft
    simp only [hempty, Bool.false_eq_true, if_false]
    trivial

end

/-! ## Without the counters -/

section
variable {env : Env K}

theorem insertPass_counted (inserted : List String) (stats : RebuildStats)
    (records : List (CardRecord K)) : (do
      let r ← countedPass env (fun _ => false) inserted stats records
      return (r.1, r.2.2)) = insertPass env inserted records := by
  induction records generalizing inserted stats with
  | nil => rfl
  | cons record records ih =>
    rw [countedPass, insertPass, insertBound, if_neg Bool.false_ne_true]
    split
    · simp only [bind_assoc, ih]
    · simp only [← ih inserted stats, bind_assoc, pure_bind]

theorem insertPasses_counted (fuel : Nat) (inserted : List String) (stats : RebuildStats)
    (records : List (CardRecord K)) : (do
      let _ ← countedPasses env (fun _ => false) fuel inserted stats records
      return) = insertPasses env fuel inserted records := by
  induction fuel generalizing inserted stats records with
  | zero =>
    cases records with
    | nil => rfl
    | cons record records => rfl
  | succ fuel ih =>
    cases records with
    | nil => rfl
    | cons record records =>
      rw [countedPasses.eq_3 _ _ _ _ _ _ (List.cons_ne_nil _ _),
        insertPasses.eq_3 _ _ _ _ (List.cons_ne_nil _ _), ← insertPass_counted inserted stats]
      simp only [bind_assoc, pure_bind]
      refine bind_congr fun r => ?_
      split
      · rfl
      · simp only [ih]

theorem insertLinks_counted (stats : RebuildStats) (records : List (CardRecord K)) : (do
      let _ ← countedLinks stats records
      return) = insertLinks records := by
  induction records generalizing stats with
  | nil => rfl
  | cons record records ih =>
    rw [countedLinks, insertLinks]
    simp only [bind_assoc, ih]

/-- The loop with its counters does what the loop does. -/
theorem insertRecords_counted (records : List (CardRecord K)) : (do
      let _ ← countedRecords env (fun _ => false) records.length records
      return) = insertRecords env records := by
  rw [countedRecords, insertRecords, ← insertPasses_counted records.length [] .zero]
  simp only [bind_assoc, insertLinks_counted, pure_bind]

/-- The loop beside the rows of other projects, to the end. -/
theorem countedRecords_ends {isNan : K → Bool} {base : Db K} (hforeign : Foreign env base)
    {records : List (CardRecord K)} (hl : ∀ r ∈ records, Loaded env r) :
    Ends (countedRecords env isNan records.length records) base
      (fun _ db => ((∀ r ∈ records, isNan r.card.sortKey = false) ∧ Room env base records ∧
        AllRooted (recordUp records)) ∧ RowsOver env base records db ∧ LinksOver base records db)
      fun _ _ => ¬ ((∀ r ∈ records, isNan r.card.sortKey = false) ∧ Room env base records ∧
        AllRooted (recordUp records)) := by
  by_cases hkeys : ∀ r ∈ records, isNan r.card.sortKey = false
  · have h := insertRecords_over hforeign hl
    rw [← insertRecords_counted] at h
    rw [countedRecords_numbers hkeys]
    simpa only [Ends.bind_iff, Ends.pure_iff, iff_true_intro hkeys, true_and] using h
  · exact (countedRecords_keys records base).mono (fun _ _ h => absurd h hkeys) fun _ _ _ h => hkeys h.1

end

/-! ## The counters and the full-text rows -/

/-- The full-text rows that records stand for. -/
def FtsOf (env : Env K) (records : List (CardRecord K)) (db : Db K) : Prop :=
  ∀ (id : String) (row : CardFts), db.cardsFts[id]? = some row ↔ env.fts = true ∧
    ∃ r ∈ records, r.card.deletedAt = none ∧ r.card.cardId = id ∧
      row = ⟨r.card.projectId, r.card.title, r.body⟩

/-- The full-text rows of records beside those of other projects. -/
def FtsOver (env : Env K) (base : Db K) (records : List (CardRecord K)) (db : Db K) : Prop :=
  ∀ (id : String) (row : CardFts), db.cardsFts[id]? = some row ↔
    (env.fts = true ∧ ∃ r ∈ records, r.card.deletedAt = none ∧ r.card.cardId = id ∧
      row = ⟨r.card.projectId, r.card.title, r.body⟩) ∨
    (¬(env.fts = true ∧ ∃ r ∈ records, r.card.deletedAt = none ∧ r.card.cardId = id)) ∧
      base.cardsFts[id]? = some row

section
variable {env : Env K} {isNan : K → Bool} {base : Db K} {records : List (CardRecord K)} {db : Db K}

theorem ftsOver_empty : FtsOver env Db.empty records db ↔ FtsOf env records db := by
  simp [FtsOver, FtsOf, Db.empty]

theorem FtsOver.perm {records' : List (CardRecord K)} (h : FtsOver env base records db)
    (hp : records.Perm records') : FtsOver env base records' db := fun id row => by
  simpa only [hp.mem_iff] using h id row

theorem insertRecord_fts (record : CardRecord K) (db : Db K) :
    Ends (insertRecord env record) db (fun _ db' => db'.cardsFts =
        if env.fts = true ∧ record.card.deletedAt = none then
          db.cardsFts.insert record.card.cardId
            ⟨record.card.projectId, record.card.title, record.body⟩
        else db.cardsFts)
      fun _ _ => True := by
  unfold insertRecord
  refine (CardRepo.create_ends record.card db).bind ?_ fun _ _ _ => trivial
  rintro - db1 ⟨-, -, -, rfl⟩
  cases hdel : record.card.deletedAt with
  | some at_ => simp
  | none =>
    simp only [Option.isNone_none, if_true, and_true, Ends.bind_iff, Ends.ite_iff,
      FtsIndexer.upsertCard, Ends.modify_iff, Ends.pure_iff, TagRepo.setTagsForCard,
      TagRepo.deleteTagsForCard]
    refine ⟨fun hfts => ?_, fun hfts => ?_⟩ <;>
    · refine (TagRepo.insertTags_ends _ _ _ _ _).mono ?_ fun _ _ _ => trivial
      rintro - db2 ⟨rfl, -⟩
      refine ⟨fun _ => ?_, fun _ => by simp [hfts]⟩
      simp only [MilestoneRepo.replaceForCard, MilestoneRepo.deleteForCard, Ends.bind_iff,
        Ends.modify_iff]
      refine (MilestoneRepo.insertAll_ends _ _ _ _).mono ?_ fun _ _ _ => trivial
      rintro - db3 ⟨rfl, -⟩
      simp [hfts]

theorem insertInTurn_fts (records : List (CardRecord K)) (db : Db K)
    (hids : (records.map (·.card.cardId)).Nodup) :
    Ends (insertInTurn env isNan records) db (fun _ db' => FtsOver env db records db')
      fun _ _ => True := by
  induction records generalizing db with
  | nil => simp [insertInTurn, FtsOver]
  | cons record records ih =>
    rw [List.map_cons, List.nodup_cons] at hids
    rw [insertInTurn, insertBound, Ends.bind_iff, Ends.ite_iff]
    refine ⟨fun _ => trivial, fun _ => (insertRecord_fts record db).mono ?_ fun _ _ _ => trivial⟩
    intro _ db1 h1
    refine (ih db1 hids.2).mono ?_ fun _ _ _ => trivial
    intro _ db2 h2 id row
    have hfresh : ∀ r ∈ records, r.card.cardId ≠ record.card.cardId := fun r hr he =>
      hids.1 (List.mem_map.mpr ⟨r, hr, he⟩)
    rw [h2 id row, h1]
    simp only [List.exists_mem_cons_iff]
    by_cases hin : env.fts = true ∧ record.card.deletedAt = none
    · rw [if_pos hin, Map.get_insert]
      by_cases hid : record.card.cardId = id
      · have hno : ¬ ∃ r ∈ records, r.card.deletedAt = none ∧ r.card.cardId = id := by
          rintro ⟨r, hr, -, he⟩
          exact hfresh r hr (he.trans hid.symm)
        have hno' : ¬ ∃ r ∈ records, r.card.deletedAt = none ∧ r.card.cardId = id ∧
            row = ⟨r.card.projectId, r.card.title, r.body⟩ := by
          rintro ⟨r, hr, hd, he, -⟩
          exact hno ⟨r, hr, hd, he⟩
        simp only [hno, hno', hid, hin.1, hin.2, if_true, true_and, or_false, and_false, false_or,
          not_false_eq_true, not_true_eq_false, false_and, Option.some.injEq]
        exact eq_comm
      · simp [hid, hin.1, hin.2]
    · rw [if_neg hin]
      have hhead : ∀ q : Prop, env.fts = true ∧ (record.card.deletedAt = none ∧ q) ↔ False := by
        rintro q
        rw [iff_false]
        exact fun h => hin ⟨h.1, h.2.1⟩
      rw [and_or_left, hhead, and_or_left, hhead, false_or, false_or]

/-- A card whose links were counted. -/
def RebuildStats.countLinks (stats : RebuildStats) (record : CardRecord K) : RebuildStats :=
  { stats with links := stats.links + record.links.length }

/-- What the counters show once every record was inserted. -/
def RebuildStats.total (env : Env K) (records : List (CardRecord K)) : RebuildStats :=
  records.foldl countLinks (records.foldl (count env) .zero)

instance : RightCommutative (RebuildStats.count env) where
  right_comm stats a b := by
    unfold RebuildStats.count
    split <;> split <;> simp only [RebuildStats.mk.injEq, true_and]
    omega

instance : RightCommutative (RebuildStats.countLinks (K := K)) where
  right_comm stats a b := by
    simp only [RebuildStats.countLinks, RebuildStats.mk.injEq, true_and, and_true]
    omega

theorem RebuildStats.total_perm {records' : List (CardRecord K)} (h : records.Perm records') :
    RebuildStats.total env records = RebuildStats.total env records' := by
  rw [total, total, h.foldl_eq, h.foldl_eq]

/-- A loop that succeeds with no record left has inserted the schedule, then the links. -/
theorem insertInTurn_of_counted (hleft : (schedule records.length [] records).2 = [])
    {stats : RebuildStats}
    (h : countedRecords env isNan records.length records base = .ok stats db) :
    (do insertInTurn env isNan (schedule records.length [] records).1; insertLinks records) base =
      .ok () db := by
  have hcounted : (do
      let _ ← countedRecords env isNan records.length records
      return : DbM K Unit) = (do
        insertInTurn env isNan (schedule records.length [] records).1
        insertLinks records) := by
    rw [countedRecords, countedPasses_eq _ _ _ _ (le_refl _)]
    simp only [hleft, List.isEmpty_nil, if_true, bind_assoc, pure_bind, insertLinks_counted]
  rw [← hcounted]
  simp only [bind, EStateM.bind, h]
  rfl

theorem countedLinks_ends (stats : RebuildStats) (records : List (CardRecord K)) (db : Db K) :
    Ends (countedLinks stats records) db
      (fun stats' db' => stats' = records.foldl RebuildStats.countLinks stats ∧
        db'.cardsFts = db.cardsFts)
      fun _ _ => True := by
  induction records generalizing stats db with
  | nil => exact ⟨rfl, rfl⟩
  | cons record records ih =>
    rw [countedLinks]
    refine (LinkRepo.upsertLinks_ends _ _ _ _).bind ?_ fun _ _ _ => trivial
    rintro - db1 ⟨rfl, -⟩
    exact ih _ _

/-- The loop that succeeds has inserted the whole schedule, and the counters show the records. -/
theorem countedRecords_run (hids : (records.map (·.card.cardId)).Nodup) :
    Ends (countedRecords env isNan records.length records) base
      (fun stats db => (schedule records.length [] records).2 = [] ∧
        stats = .total env records ∧ FtsOver env base records db)
      fun _ _ => True := by
  have hperm := schedule_perm records.length [] records
  have hids' : ((schedule records.length [] records).1.map (·.card.cardId)).Nodup := by
    have h := (hperm.map (·.card.cardId)).nodup_iff.mpr hids
    rw [List.map_append, List.nodup_append] at h
    exact h.1
  rw [countedRecords, countedPasses_eq _ _ _ _ (le_refl _)]
  simp only [bind_assoc]
  refine (insertInTurn_fts _ _ hids').bind ?_ fun _ _ _ => trivial
  intro _ db1 h1
  by_cases hleft : (schedule records.length [] records).2 = []
  · rw [hleft, List.append_nil] at hperm
    simp only [hleft, List.isEmpty_nil, if_true, pure_bind]
    refine (countedLinks_ends _ _ _).mono ?_ fun _ _ _ => trivial
    rintro stats db ⟨rfl, hfts⟩
    refine ⟨trivial, by rw [hperm.foldl_eq]; rfl, fun id row => ?_⟩
    rw [hfts]
    exact h1.perm hperm id row
  · have hempty : (schedule records.length [] records).2.isEmpty = false := by
      simpa [List.isEmpty_iff] using hleft
    simp only [hempty, Bool.false_eq_true, if_false]
    trivial

/-- Rows of the same records are the same database. -/
theorem Db.eq_of_records {db db' : Db K} (h : RowsOver env base records db)
    (h' : RowsOver env base records db') (hl : LinksOver base records db)
    (hl' : LinksOver base records db') (hf : FtsOver env base records db)
    (hf' : FtsOver env base records db') : db = db' := by
  have hcards : db.cards = db'.cards :=
    Map.ext fun id => Option.ext fun c => (h.cards id c).trans (h'.cards id c).symm
  have hlinks : db.cardLinks = db'.cardLinks :=
    Map.ext fun key => Option.ext fun l => (hl key l).trans (hl' key l).symm
  have htags : db.cardTags = db'.cardTags :=
    Map.ext fun key => Option.ext fun t => (h.tags key t).trans (h'.tags key t).symm
  have hmilestones : db.milestones = db'.milestones :=
    Map.ext fun id => Option.ext fun m => (h.milestones id m).trans (h'.milestones id m).symm
  have hfts : db.cardsFts = db'.cardsFts :=
    Map.ext fun id => Option.ext fun row => (hf id row).trans (hf' id row).symm
  obtain ⟨_, _, _, _, _⟩ := db
  obtain ⟨_, _, _, _, _⟩ := db'
  rw [Db.mk.injEq]
  exact ⟨hcards, hlinks, htags, hmilestones, hfts⟩

/-- What the records need to be inserted beside the rows of other projects. -/
def InsertableOver (env : Env K) (isNan : K → Bool) (base : Db K) (records : List (CardRecord K)) : Prop :=
  (∀ r ∈ records, isNan r.card.sortKey = false) ∧ Room env base records ∧ AllRooted (recordUp records)

theorem InsertableOver.perm {records' : List (CardRecord K)} (h : InsertableOver env isNan base records)
    (hp : records.Perm records') : InsertableOver env isNan base records' :=
  ⟨fun r hr => h.1 r (hp.mem_iff.mpr hr), h.2.1.perm hp, recordUp_perm hp h.2.1.ids ▸ h.2.2⟩

/-- Everything the loop leaves, when it succeeds. -/
theorem countedRecords_ok (hforeign : Foreign env base) (hl : ∀ r ∈ records, Loaded env r)
    {stats : RebuildStats}
    (h : countedRecords env isNan records.length records base = .ok stats db) :
    InsertableOver env isNan base records ∧ (RowsOver env base records db ∧ LinksOver base records db ∧
      FtsOver env base records db) ∧
      (schedule records.length [] records).2 = [] ∧ stats = .total env records := by
  obtain ⟨hins, hrows, hlinks⟩ := (countedRecords_ends hforeign hl).ok h
  obtain ⟨hleft, hstats, hfts⟩ := (countedRecords_run hins.2.1.ids).ok h
  exact ⟨hins, ⟨hrows, hlinks, hfts⟩, hleft, hstats⟩

/-- The loop succeeds exactly on records that can be inserted together. -/
theorem countedRecords_iff (hforeign : Foreign env base) (hl : ∀ r ∈ records, Loaded env r) :
    (∃ stats db, countedRecords env isNan records.length records base = .ok stats db) ↔
      InsertableOver env isNan base records := by
  constructor
  · rintro ⟨stats, db, h⟩
    exact (countedRecords_ok hforeign hl h).1
  · intro hins
    cases hrun : countedRecords env isNan records.length records base with
    | ok stats db => exact ⟨stats, db, rfl⟩
    | error e db => exact absurd hins ((countedRecords_ends hforeign hl).error hrun)

theorem Insertable.perm {records' : List (CardRecord K)} (h : Insertable env records)
    (hp : records.Perm records') : Insertable env records' :=
  ⟨h.compatible.perm hp, recordUp_perm hp h.compatible.ids ▸ h.rooted⟩

/-- The order of the records does not show in what the loop leaves. -/
theorem countedRecords_perm (hforeign : Foreign env base) {records' : List (CardRecord K)}
    (hl : ∀ r ∈ records, Loaded env r) (hp : records.Perm records') {stats : RebuildStats}
    (h : countedRecords env isNan records.length records base = .ok stats db) :
    countedRecords env isNan records'.length records' base = .ok stats db := by
  obtain ⟨hins, ⟨hrows, hlinks, hfts⟩, -, rfl⟩ := countedRecords_ok hforeign hl h
  have hl' : ∀ r ∈ records', Loaded env r := fun r hr => hl r (hp.mem_iff.mpr hr)
  obtain ⟨stats', db', h'⟩ := (countedRecords_iff hforeign hl').mpr (hins.perm hp)
  obtain ⟨-, ⟨hrows', hlinks', hfts'⟩, -, rfl⟩ := countedRecords_ok hforeign hl' h'
  have hlinksp : LinksOver base records' db := fun key l => by simpa only [hp.mem_iff] using hlinks key l
  rw [h', RebuildStats.total_perm hp,
    Db.eq_of_records hrows' (hrows.perm hp) hlinks' hlinksp hfts' (hfts.perm hp)]

/-- The loop reads no directory. -/
theorem countedRecords_order (order : List String → List String) (records : List (CardRecord K)) :
    countedRecords { env with directoryOrder := order } isNan records.length records =
      countedRecords env isNan records.length records := by
  have hturn : ∀ l : List (CardRecord K),
      insertInTurn { env with directoryOrder := order } isNan l = insertInTurn env isNan l := by
    intro l
    induction l with
    | nil => rfl
    | cons record l ih =>
      rw [insertInTurn, insertInTurn, ih]
      rfl
  rw [countedRecords, countedRecords, countedPasses_eq _ _ _ _ (le_refl _),
    countedPasses_eq _ _ _ _ (le_refl _), hturn]
  rfl

end

/-! ## The card files of a working tree -/

section
variable [NatCast K] {env : Env K} {work : Tree}

/-- Two listings of the same directories load the same records. -/
theorem loadCardFiles_order {order : List String → List String} {records : List (CardRecord K)}
    (hdir : ∀ paths, (env.directoryOrder paths).Perm paths) (horder : ∀ paths, (order paths).Perm paths)
    (h : loadCardFiles env work = .ok records) :
    ∃ records', loadCardFiles { env with directoryOrder := order } work = .ok records' ∧
      (∀ r, r ∈ records' ↔ r ∈ records) ∧
      ((records.map (·.card.cardId)).Nodup → records.Perm records') := by
  have hfiles := loadCardFiles_ok hdir h
  have horder' : ∀ paths,
      (({ env with directoryOrder := order } : Env K).directoryOrder paths).Perm paths := horder
  have hall : AllLoad { env with directoryOrder := order } work := hfiles.allLoad
  obtain ⟨records', h'⟩ := loadCardFiles_of horder' hall
  have hfiles' := loadCardFiles_ok horder' h'
  have hmem : ∀ r, r ∈ records' ↔ r ∈ records := fun r =>
    (hfiles'.mem r).trans (hfiles.mem r).symm
  refine ⟨records', h', hmem, fun hids => ?_⟩
  have hids' : (records'.map (·.card.cardId)).Nodup := by
    rw [hfiles'.ids]
    intro r hr r' hr' he
    exact hfiles.ids.mp hids r ((hmem r).mp hr) r' ((hmem r').mp hr') he
  exact (List.perm_ext_iff_of_nodup (hids.of_map _) (hids'.of_map _)).mpr fun r => (hmem r).symm

/-- The insertion loop on the records of card files that all load, beside the rows of other projects. It
ends whatever number of turns it is allowed; it succeeds exactly when ids and milestones are distinct and
new to the other projects, every key is a number and every parent chain ends at a card without a parent;
it then inserts every card once, after its parent; and another listing of the directories gives the same
result. -/
theorem rebuildCards_characterised (htags : ∀ body, (env.extractTags body).Nodup)
    (hdir : ∀ paths, (env.directoryOrder paths).Perm paths) (hload : AllLoad env work)
    (isNan : K → Bool) {base : Db K} (hforeign : Foreign env base) :
    ∃ records, loadCardFiles env work = .ok records ∧
      (∀ r, r ∈ records ↔ FileRecord env work r) ∧
      (∀ turns, records.length ≤ turns → countedRecords env isNan turns records base =
        countedRecords env isNan records.length records base) ∧
      ((∃ stats db, countedRecords env isNan records.length records base = .ok stats db) ↔
        ((records.map (·.card.cardId)).Nodup ∧ ∀ r ∈ records, base.cards[r.card.cardId]? = none) ∧
        (((liveMilestones records).map (·.milestoneId)).Nodup ∧
          ∀ m ∈ liveMilestones records, base.milestones[m.milestoneId]? = none) ∧
        AllRooted (recordUp records) ∧ ∀ r ∈ records, isNan r.card.sortKey = false) ∧
      (∀ stats db, countedRecords env isNan records.length records base = .ok stats db →
        stats = .total env records ∧ ∃ order : List (CardRecord K), order.Perm records ∧
          ParentsFirst [] order ∧
          (do insertInTurn env isNan order; insertLinks records) base = .ok () db) ∧
      ∀ order : List String → List String, (∀ paths, (order paths).Perm paths) →
        ∃ records', loadCardFiles { env with directoryOrder := order } work = .ok records' ∧
          ∀ stats db, countedRecords { env with directoryOrder := order } isNan records'.length records'
            base = .ok stats db ↔
              countedRecords env isNan records.length records base = .ok stats db := by
  obtain ⟨records, h⟩ := loadCardFiles_of hdir hload
  have hfiles := loadCardFiles_ok hdir h
  refine ⟨records, h, hfiles.mem, fun turns hturns => ?_,
    (countedRecords_iff hforeign hfiles.loaded).trans ⟨fun ⟨hkeys, hroom, hroot⟩ => ?_, fun hins => ?_⟩,
    fun stats db hrun => ?_, fun order horder => ?_⟩
  · rw [countedRecords, countedRecords, countedPasses_fuel turns _ _ _ hturns]
  · exact ⟨⟨hroom.ids, hroom.newCards⟩, ⟨hroom.milestones, hroom.newMilestones⟩, hroot, hkeys⟩
  · obtain ⟨⟨hids, hnew⟩, ⟨hm, hnew'⟩, hroot, hkeys⟩ := hins
    exact ⟨hkeys, ⟨⟨hids, fun r _ _ => htags r.body, hm⟩, hnew, hnew'⟩, hroot⟩
  · obtain ⟨-, -, hleft, hstats⟩ := countedRecords_ok hforeign hfiles.loaded hrun
    have hperm := schedule_perm records.length [] records
    rw [hleft, List.append_nil] at hperm
    exact ⟨hstats, _, hperm, schedule_parentsFirst _ _ _, insertInTurn_of_counted hleft hrun⟩
  · obtain ⟨records', h', hmem, hp⟩ := loadCardFiles_order hdir horder h
    refine ⟨records', h', fun stats db => ?_⟩
    have hl' : ∀ r ∈ records', Loaded env r := fun r hr => hfiles.loaded r ((hmem r).mp hr)
    rw [countedRecords_order]
    constructor
    · intro hrun
      have hids' := (countedRecords_ok hforeign hl' hrun).1.2.1.ids
      have hids : (records.map (·.card.cardId)).Nodup := by
        have hfiles' : LoadedFiles { env with directoryOrder := order } work records' :=
          loadCardFiles_ok horder h'
        rw [hfiles.ids]
        intro r hr r' hr' he
        exact hfiles'.ids.mp hids' r ((hmem r).mpr hr) r' ((hmem r').mpr hr') he
      exact countedRecords_perm hforeign hl' (hp hids).symm hrun
    · intro hrun
      exact countedRecords_perm hforeign hfiles.loaded
        (hp (countedRecords_ok hforeign hfiles.loaded hrun).1.2.1.ids) hrun

end

end HolderCore
