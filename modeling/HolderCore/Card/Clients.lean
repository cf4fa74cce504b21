import HolderCore.Card.Runs
import HolderCore.Project.InSync
import HolderCore.Library.Schedule

/-! # Calls of several clients

A call reads rows before it takes the project lock, and several calls keep using such a row under the
lock. Another client's call may have changed it in between. -/

namespace HolderCore

/-! ## The rows a call uses -/

section
variable (db db' : Db K)

/-- A card's row is there in both databases or in neither, with the same of what `f` reads. -/
def SameRow (f : Card K → α) (cardId : String) : Prop :=
  (CardRepo.get? db cardId).map f = (CardRepo.get? db' cardId).map f

/-- What a call uses under the lock of the rows it read before: the whole row but its time of change
for a call that writes it into the card's file, else its project and what it checks. -/
def Call.SameReads : Call K → Prop
  | updateContent cardId .. | updateLinks cardId _ | updateMilestones cardId _ =>
    SameRow db db' Card.untimed cardId
  | updateMilestone projectId cardId .. => SameRow db db' Card.untimed cardId ∧
    MilestoneRepo.listForCard db projectId cardId = MilestoneRepo.listForCard db' projectId cardId
  | move cardId .. | trash cardId .. | restore cardId _ | restoreVersion cardId .. =>
    SameRow db db' (·.projectId) cardId
  | moveTo _ cardId .. => SameRow db db' (fun c => (c.live, c.projectId)) cardId
  | hardDelete cardId =>
    SameRow db db' (fun c => (c.deletedAt.isNone, c.cardId, c.projectId, c.title)) cardId
  | addTag cardId .. | removeTag cardId .. =>
    SameRow db db' (fun c => (c.cardId, c.projectId, c.relPath)) cardId
  | create .. | createBatch .. | repairHierarchy .. => True

end

section
open CardStore
variable [SortKey K] {env : Env K} {db db' : Db K}

omit [SortKey K] in
theorem SameRow.cases {f : Card K → α} {cardId : String} (h : SameRow db db' f cardId) :
    (CardRepo.get? db cardId = none ∧ CardRepo.get? db' cardId = none) ∨
      ∃ c c', CardRepo.get? db cardId = some c ∧ CardRepo.get? db' cardId = some c' ∧ f c = f c' := by
  unfold SameRow at h
  cases hc : CardRepo.get? db cardId <;> cases hc' : CardRepo.get? db' cardId <;>
    simp_all

omit [SortKey K] in
theorem withCard_congr {f : Card K → α} {cardId : String} {rest : Card K → StoreM K Unit}
    (h : SameRow db db' f cardId) (hrest : ∀ c c', f c = f c' → rest c = rest c') :
    withCard db cardId rest = withCard db' cardId rest := by
  unfold withCard
  obtain ⟨hc, hc'⟩ | ⟨c, c', hc, hc', hf⟩ := h.cases
  · rw [hc, hc']
  · rw [hc, hc']
    simp only [hrest c c' hf]

theorem updateContentLocked_untimed (card : Card K) (content : String) (title : Option String)
    (updatedAt : Int) : updateContentLocked env card.untimed content title updatedAt =
      updateContentLocked env card content title updatedAt := rfl

theorem updateLinksLocked_untimed (card : Card K) (updatedAt : Int) :
    updateLinksLocked env card.untimed updatedAt = updateLinksLocked env card updatedAt := rfl

theorem updateMilestonesLocked_untimed (card : Card K) (updatedAt : Int) :
    updateMilestonesLocked env card.untimed updatedAt = updateMilestonesLocked env card updatedAt := rfl

theorem updateMilestoneEntry_congr {projectId cardId milestoneId : String} {update : MilestoneUpdate}
    {updatedAt : Int} (h : SameRow db db' Card.untimed cardId)
    (hm : MilestoneRepo.listForCard db projectId cardId = MilestoneRepo.listForCard db' projectId cardId) :
    updateMilestoneEntry env db projectId cardId milestoneId update updatedAt =
      updateMilestoneEntry env db' projectId cardId milestoneId update updatedAt := by
  unfold updateMilestoneEntry updateMilestoneRead
  obtain ⟨hc, hc'⟩ | ⟨c, c', hc, hc', hf⟩ := h.cases
  · rw [hc, hc']
    rfl
  · -- The two rows differ in the time that is overwritten.
    obtain ⟨updated, rfl⟩ : ∃ updated, c' = { c with updatedAt := updated } := by
      refine ⟨c'.updatedAt, ?_⟩
      simp only [Card.untimed, Card.mk.injEq] at hf
      cases c
      cases c'
      simp_all
    have hlive : ∀ c1 : Card K, c1.projectId = c.projectId ∧ c1.deletedAt = c.deletedAt →
        (c1.projectId == projectId && c1.live) = (c.projectId == projectId && c.live) := by
      rintro c1 ⟨hp, hd⟩
      rw [hp, Card.live, hd, Card.live]
    rw [hc, hc', hm]
    simp only [Option.filter, hlive { c with updatedAt := updated } ⟨rfl, rfl⟩]
    by_cases hl : (c.projectId == projectId && c.live) = true
    · simp only [hl, if_true]
      cases (MilestoneRepo.listForCard db' projectId cardId).find? (·.milestoneId == milestoneId) with
      | none => rfl
      | some old =>
        by_cases hend : (milestoneUpdated update old).endAt.any
          (· < (milestoneUpdated update old).startAt) = true
        · simp only [hend, if_true]
          rfl
        · by_cases hsame : milestoneUpdated update old = old
          · simp only [hsame, if_true]
            rfl
          · simp only [hend, if_false, Bool.false_eq_true, hsame]
            rfl
    · simp only [hl, if_false, Bool.false_eq_true]

omit [SortKey K] in
theorem Call.SameReads.refl (db : Db K) (call : Call K) : call.SameReads db db := by
  cases call with
  | updateMilestone => exact ⟨rfl, rfl⟩
  | create | createBatch | repairHierarchy => trivial
  | _ => exact rfl

/-- A call that uses the same rows does the same under the lock. -/
theorem Call.enter_congr (call : Call K) (h : call.SameReads db db') :
    call.enter env db = call.enter env db' := by
  cases call with
  | create | createBatch | repairHierarchy => rfl
  | updateContent cardId content title updatedAt =>
    refine withCard_congr h fun c c' hc => ?_
    rw [← updateContentLocked_untimed c, hc, updateContentLocked_untimed]
  | updateLinks cardId updatedAt =>
    refine withCard_congr h fun c c' hc => ?_
    rw [← updateLinksLocked_untimed c, hc, updateLinksLocked_untimed]
  | updateMilestones cardId updatedAt =>
    refine withCard_congr h fun c c' hc => ?_
    rw [← updateMilestonesLocked_untimed c, hc, updateMilestonesLocked_untimed]
  | updateMilestone => exact updateMilestoneEntry_congr h.1 h.2
  | move | trash | restore =>
    exact withCard_congr h fun c c' hc => by rw [hc]
  | restoreVersion cardId oid updatedAt =>
    cases oid with
    | none => rfl
    | some oid => exact withCard_congr h fun c c' hc => by rw [hc]
  | moveTo projectId cardId request updatedAt =>
    simp only [Call.enter, moveToEntry]
    obtain ⟨hc, hc'⟩ | ⟨c, c', hc, hc', hf⟩ := SameRow.cases h
    · rw [hc, hc']
    · simp only [Prod.mk.injEq] at hf
      rw [hc, hc']
      simp only [Option.filter, hf.1]
      split <;> simp_all
  | hardDelete cardId =>
    simp only [Call.enter, hardDeleteEntry]
    obtain ⟨hc, hc'⟩ | ⟨c, c', hc, hc', hf⟩ := SameRow.cases h
    · rw [hc, hc']
    · simp only [Prod.mk.injEq] at hf
      rw [hc, hc']
      simp only [hf.1, hardDeleteLocked, hf.2]
  | addTag cardId tag updatedAt =>
    simp only [Call.enter, addTagEntry]
    obtain ⟨hc, hc'⟩ | ⟨c, c', hc, hc', hf⟩ := SameRow.cases h
    · rw [hc, hc']
    · simp only [Prod.mk.injEq] at hf
      rw [hc, hc']
      simp only [addTagLocked, getContent, checkRelPath, hf]
  | removeTag cardId tag updatedAt =>
    simp only [Call.enter, removeTagEntry]
    obtain ⟨hc, hc'⟩ | ⟨c, c', hc, hc', hf⟩ := SameRow.cases h
    · rw [hc, hc']
    · simp only [Prod.mk.injEq] at hf
      rw [hc, hc']
      simp only [removeTagLocked, getContent, checkRelPath, hf]

end

/-! ## Concurrent calls -/

/-- What a program returned or threw, and the state it left. -/
def outcome : EStateM.Result Exn (World K) α → Except Exn α × World K
  | .ok a w => (.ok a, w)
  | .error e w => (.error e, w)

section
variable [SortKey K] (env : Env K)

/-- A client that makes a call: it reads the rows, and takes the lock unless they stop it. -/
def Call.client (call : Call K) : TwoPhase (World K) (Db K) (Except Exn (Result K)) where
  read w := w.db
  stop db :=
    match call.enter env db with
    | .returned result => some result
    | .locked _ => none
  act db w := outcome ((call.enter env db).run w)

/-- Some calls made one after another in the given order. -/
def runOrder (calls : ι → Call K) (w : World K) (order : List ι) : World K :=
  runCalls env w (order.map calls)

/-- The calls that a schedule of the clients takes under the lock use rows that still are what they
read before. -/
def EachSameReads [DecidableEq ι] (calls : ι → Call K) :
    Clients ι (World K) (Db K) (Except Exn (Result K)) → List ι → Prop
  | _, [] => True
  | c, i :: schedule =>
    (∀ db, c.phase i = .waiting db → (calls i).SameReads db c.state.db) ∧
      EachSameReads calls (TwoPhase.turn (fun i => (calls i).client env) c i) schedule

end

section
variable [SortKey K] {env : Env K}

theorem Call.client_whole (call : Call K) (w : World K) :
    (call.client env).whole w = outcome (call.run env w) := by
  have hrun : call.run env w = (call.enter env w.db).run w := rfl
  rw [hrun]
  simp only [TwoPhase.whole, Call.client]
  cases call.enter env w.db with
  | returned result => cases result <;> rfl
  | locked rest => rfl

theorem outcome_after (call : Call K) (w : World K) :
    (outcome (call.run env w)).2 = call.after env w := by
  unfold Call.after
  cases call.run env w <;> rfl

theorem serial_eq_runOrder (calls : ι → Call K) (w : World K) (order : List ι) :
    TwoPhase.serial (fun i => (calls i).client env) w order = runOrder env calls w order := by
  unfold TwoPhase.serial runOrder runCalls
  rw [List.foldl_map]
  congr 1
  funext w i
  rw [Call.client_whole, outcome_after]

theorem Call.client_fresh {call : Call K} {db : Db K} {w : World K} (h : call.SameReads db w.db) :
    (call.client env).Fresh db w := by
  have he : call.enter env w.db = call.enter env db := (call.enter_congr h).symm
  exact ⟨by simp only [Call.client, he], by simp only [Call.client, he]⟩

theorem EachSameReads.fresh [DecidableEq ι] {calls : ι → Call K} {schedule : List ι}
    {c : Clients ι (World K) (Db K) (Except Exn (Result K))}
    (h : EachSameReads env calls c schedule) :
    TwoPhase.EachFresh (fun i => (calls i).client env) c schedule := by
  induction schedule generalizing c with
  | nil => trivial
  | cons i schedule ih => exact ⟨fun db hdb => Call.client_fresh (h.1 db hdb), ih h.2⟩

/-- In every schedule of concurrent calls whose steps under the lock use rows that are still what was
read before, the world and what each finished call returned or threw are those of the calls one after
another in some order. -/
theorem runTurns_calls_serial [DecidableEq ι] (env : Env K) (calls : ι → Call K) (w : World K)
    (schedule : List ι) (h : EachSameReads env calls (TwoPhase.start w) schedule) :
    let c := TwoPhase.runTurns (fun i => (calls i).client env) (TwoPhase.start w) schedule
    ∃ order : List ι, order.Nodup ∧ (∀ i, i ∈ order ↔ ∃ result, c.phase i = .finished result) ∧
      c.state = runOrder env calls w order ∧
      ∀ pre i post, order = pre ++ i :: post →
        c.phase i = .finished (outcome ((calls i).run env (runOrder env calls w pre))).1 := by
  obtain ⟨order, horder⟩ := TwoPhase.runTurns_serial h.fresh
  refine ⟨order, horder.nodup, horder.finished, ?_, fun pre i post he => ?_⟩
  · rw [horder.state, serial_eq_runOrder]
  · rw [horder.result pre i post he, Call.client_whole, serial_eq_runOrder]

/-- Two calls that both read before the first takes the lock. -/
theorem eachSameReads_pair {calls : Bool → Call K} {w : World K} {i j : Bool}
    (hstop : ∀ i, ((calls i).client env).stop (((calls i).client env).read w) = none)
    (h : (calls !j).SameReads w.db (((calls j).client env).act w.db w).2.db) :
    EachSameReads env calls (TwoPhase.start w) [i, !i, j, !j] := by
  have hreads : TwoPhase.turn (fun i => (calls i).client env)
      (TwoPhase.turn (fun i => (calls i).client env) (TwoPhase.start w) i) (!i) =
      ⟨w, fun _ => .waiting w.db⟩ := TwoPhase.runTurns_reads hstop i []
  refine ⟨nofun, ?_, ?_⟩
  · rw [TwoPhase.turn_idle rfl (hstop i)]
    cases i <;> nofun
  · rw [hreads]
    refine ⟨fun db hdb => ?_, ?_⟩
    · cases hdb
      exact .refl _ _
    · rw [TwoPhase.turn_waiting rfl]
      refine ⟨fun db hdb => ?_, trivial⟩
      cases j <;> cases hdb <;> exact h

end

/-! ## An edit and a move -/

/-- The parent in a card's file. -/
def fileParent (w : World ℚ) (cardId : String) : Option String :=
  w.repo.work[livePath cardId]?.bind fun raw => (parseCardFile flowYaml raw).card.parentCardId

/-- Two root cards. -/
def twoCards : World ℚ := runCalls (plainEnv fun _ => []) World.empty
  [.create (plainCard "aaaa" "a" none 1) "old" none, .create (plainCard "bbbb" "b" none 2) "" none]

/-- One client edits the first card, another moves it under the second. -/
def editAndMove : Bool → Call ℚ
  | false => .updateContent "aaaa" "new" none 5
  | true => .move "aaaa" true (some "bbbb") none 6

/-- Neither call stops before the lock while the card is there. -/
theorem editAndMove_stop {env : Env ℚ} {w : World ℚ} (h : (CardRepo.get? w.db "aaaa").isSome = true)
    (i : Bool) : ((editAndMove i).client env).stop (((editAndMove i).client env).read w) = none := by
  obtain ⟨card, hcard⟩ := Option.isSome_iff_exists.mp h
  cases i <;> simp [editAndMove, Call.client, Call.enter, CardStore.withCard, hcard]

/-- The move takes the lock after the edit, and finds the row as it reads it again. -/
theorem edit_then_move_serial :
    let c := TwoPhase.runTurns (fun i => (editAndMove i).client (plainEnv fun _ => []))
      (TwoPhase.start twoCards) [false, true, false, true]
    EachSameReads (plainEnv fun _ => []) editAndMove (TwoPhase.start twoCards)
        [false, true, false, true] ∧
      ∃ order : List Bool, order.Nodup ∧ (∀ i, i ∈ order ↔ ∃ result, c.phase i = .finished result) ∧
        c.state = runOrder (plainEnv fun _ => []) editAndMove twoCards order := by
  have hmove : (editAndMove !false).SameReads twoCards.db
      (((editAndMove false).client (plainEnv fun _ => [])).act twoCards.db twoCards).2.db := by
    change SameRow _ _ (·.projectId) "aaaa"
    unfold SameRow
    decide +kernel
  have hsame : EachSameReads (plainEnv fun _ => []) editAndMove (TwoPhase.start twoCards)
      [false, !false, false, !false] :=
    eachSameReads_pair (editAndMove_stop (by decide +kernel)) hmove
  rw [Bool.not_false] at hsame
  refine ⟨hsame, ?_⟩
  obtain ⟨order, hnodup, hmem, hstate, -⟩ := runTurns_calls_serial _ editAndMove twoCards _ hsame
  exact ⟨order, hnodup, hmem, hstate⟩

/-- An edit that started before the move takes it back in the file. -/
theorem edit_undoes_move :
    let c := TwoPhase.runTurns (fun i => (editAndMove i).client (plainEnv fun _ => []))
      (TwoPhase.start twoCards) [false, true, true, false]
    (∀ i, ∃ result, c.phase i = .finished (.ok result)) ∧
      ¬ ∃ order : List Bool, order.Nodup ∧ (∀ i, i ∈ order) ∧
        c.state = runOrder (plainEnv fun _ => []) editAndMove twoCards order := by
  have hstop : ∀ i, ((editAndMove i).client (plainEnv fun _ => [])).stop
      (((editAndMove i).client (plainEnv fun _ => [])).read twoCards) = none :=
    editAndMove_stop (by decide +kernel)
  intro c
  have hc := (TwoPhase.runTurns_reads hstop false [true, !true]).trans
    (TwoPhase.runTurns_acts (fun _ => twoCards.db) true)
  rw [Bool.not_true, Bool.not_false] at hc
  change c = _ at hc
  rw [hc]
  set env := plainEnv fun _ => [] with henv
  set moved := ((editAndMove true).client env).act twoCards.db twoCards with hmoved
  set edited := ((editAndMove false).client env).act twoCards.db moved.2 with hedited
  have hok : moved.1.toOption.isSome = true ∧ edited.1.toOption.isSome = true ∧
      fileParent edited.2 "aaaa" = none := by
    rw [hedited, hmoved, henv]
    decide +kernel
  have hserial : ∀ i, fileParent (runOrder env editAndMove twoCards [i, !i]) "aaaa" = some "bbbb" := by
    rw [henv]
    decide +kernel
  refine ⟨fun i => ?_, ?_⟩
  · have hfinished : ∀ r : Except Exn (Result ℚ), r.toOption.isSome = true →
        ∃ result, (.finished r : Phase (Db ℚ) _) = .finished (.ok result) := by
      rintro (e | result) h
      · cases h
      · exact ⟨result, rfl⟩
    cases i with
    | false => exact hfinished _ hok.2.1
    | true => exact hfinished _ hok.1
  · rintro ⟨order, hnodup, hall, hstate⟩
    have hperm : order.Perm [false, true] :=
      (List.perm_ext_iff_of_nodup hnodup (by decide)).mpr fun i => by
        simp [hall]
    obtain ⟨i, j, rfl⟩ := List.length_eq_two.mp hperm.length_eq
    obtain rfl : j = !i := Bool.eq_not_of_ne (by simpa [eq_comm] using hnodup)
    have hfile := hserial i
    rw [← hstate, hok.2.2] at hfile
    cases hfile

end HolderCore
