import HolderCore.Card.SubtreeLemmas

/-! # The card table as a forest

The rows of `cards` are a forest whose live nodes are the live cards. Whatever an operation of the
store does, whether it returns or throws, it takes this forest through steps of `Forest.Step`. -/

namespace HolderCore

/-- The forest of the card table. -/
def Db.forest (db : Db K) : Forest String := fun id =>
  db.cards[id]?.map fun c => ⟨c.parentCardId, c.live⟩

/-- A project at rest: nothing interrupted, rows under their own ids, all of one project. -/
structure Tidy (env : Env K) (w : World K) : Prop where
  journal : w.journal = none
  valid : w.repo.Valid
  keyed : w.db.Keyed
  project : ∀ (id : String) (c : Card K), w.db.cards[id]? = some c →
    c.projectId = env.project.projectId

/-- A project at rest that the forest of `w` led to. -/
structure Evolved (env : Env K) (P : Forest String → String → Option String → Prop)
    (w w' : World K) : Prop where
  tidy : Tidy env w'
  steps : Relation.ReflTransGen (Forest.Step P) w.db.forest w'.db.forest

section
variable {env : Env K} {P : Forest String → String → Option String → Prop} {w w0 w' : World K}

theorem Tidy.empty (env : Env K) : Tidy env World.empty where
  journal := rfl
  valid := ⟨by simp [World.empty, Repo.init], by simp [World.empty, Repo.init]⟩
  keyed := by simp [World.empty, Db.empty, Db.Keyed]
  project := by simp [World.empty, Db.empty]

theorem Tidy.atCards (h : Tidy env w) : AtCards w.db.cards w := ⟨rfl, h.journal, h.valid⟩

theorem Tidy.of_atCards (h : Tidy env w) (hw : AtCards w.db.cards w') : Tidy env w' where
  journal := hw.journal
  valid := hw.valid
  keyed := by rw [Db.Keyed, hw.cards]; exact h.keyed
  project := by rw [hw.cards]; exact h.project

theorem Db.forest_congr {db db' : Db K} (h : db'.cards = db.cards) : db'.forest = db.forest := by
  funext id
  rw [Db.forest, h]
  rfl

theorem Evolved.refl (h : Tidy env w) : Evolved env P w w := ⟨h, .refl⟩

theorem Evolved.step (h : Evolved env P w0 w) (hw : Tidy env w')
    (step : Forest.Step P w.db.forest w'.db.forest) : Evolved env P w0 w' := ⟨hw, h.steps.tail step⟩

theorem Evolved.same (h : Evolved env P w0 w) (hw : Tidy env w')
    (he : w'.db.forest = w.db.forest) : Evolved env P w0 w' := ⟨hw, he ▸ h.steps⟩

theorem Evolved.of_atCards (h : Evolved env P w0 w) (hw : AtCards w.db.cards w') :
    Evolved env P w0 w' := h.same (h.tidy.of_atCards hw) (Db.forest_congr hw.cards)

theorem Evolved.trans {w1 : World K} (h : Evolved env P w w1) (h' : Evolved env P w1 w') :
    Evolved env P w w' := ⟨h'.tidy, h.steps.trans h'.steps⟩

theorem Quiet.evolved {m : StoreM K α} (h : Quiet m) : Keeps (Evolved env P w0) m := by
  intro w hw
  refine (h w.db.cards w hw.tidy.atCards).mono ?_ ?_
  · exact fun _ w' hw' => hw.of_atCards hw'
  · exact fun _ w' hw' => hw.of_atCards hw'

theorem Db.forest_live {db : Db K} (hp : ∀ (id : String) (c : Card K), db.cards[id]? = some c →
    c.projectId = projectId) : db.forest.liveUp = liveUp db projectId := by
  funext id
  refine Option.ext fun p => ?_
  rw [Forest.liveUp_eq_some, liveUp_eq_some, Db.forest]
  constructor
  · intro h
    obtain ⟨c, hc, hn⟩ := Option.map_eq_some_iff.mp h
    injection hn with hpar hlive
    exact ⟨c, hc, hp id c hc, Card.live_iff.mp hlive, hpar⟩
  · rintro ⟨c, hc, -, hlive, rfl⟩
    rw [hc, Option.map_some, Card.live_iff.mpr hlive]

theorem Db.forest_up (db : Db K) : db.forest.up = cardUp db := by
  funext id
  simp [Db.forest, Forest.up, cardUp, Function.comp_def]

theorem Tidy.reachable (h : Tidy env w) (card : Card K) {r : Option String}
    (hproj : card.projectId = env.project.projectId)
    (hr : reachableCardParent w.db card = .ok r) : w.db.forest.Reachable card.cardId r := by
  rintro y rfl
  have hroot := reachableCardParent_rooted h.keyed hr
  rwa [hproj, ← Db.forest_live h.project] at hroot

/-! ## Rows that keep their place -/

/-- An update of columns other than a row's place. -/
theorem update_evolved {what id : String} {f : Card K → Card K}
    (hf : ∀ c, (f c).cardId = c.cardId ∧ (f c).projectId = c.projectId ∧
      (f c).parentCardId = c.parentCardId ∧ (f c).deletedAt = c.deletedAt) :
    Keeps (Evolved env P w0) (onDb (CardRepo.update what id f)) := by
  intro w hw
  rw [Ends.onDb_iff]
  refine (CardRepo.update_ends what id f w.db).mono ?_ ?_
  · rintro - db (⟨-, rfl⟩ | ⟨c, hc, -, -, rfl⟩)
    · exact hw
    · obtain ⟨hid, hproj, hpar, hdel⟩ := hf c
      refine hw.same ⟨hw.tidy.journal, hw.tidy.valid, fun x c' hc' => ?_, fun x c' hc' => ?_⟩ ?_
      · simp only [Map.get_insert] at hc'
        split at hc'
        · next hx =>
          cases hc'
          rw [hid, hw.tidy.keyed id c hc, hx]
        · exact hw.tidy.keyed x c' hc'
      · simp only [Map.get_insert] at hc'
        split at hc'
        · cases hc'
          rw [hproj, hw.tidy.project id c hc]
        · exact hw.tidy.project x c' hc'
      · funext x
        simp only [Db.forest, Map.get_insert]
        split
        · next hx => simp [← hx, hc, hpar, Card.live, hdel]
        · rfl
  · rintro - db ⟨rfl, -⟩
    exact hw

theorem storeTitle_evolved (id : String) (title : Option String) (updatedAt : Int) :
    Keeps (Evolved env P w0) (onDb (CardStore.storeTitle id title updatedAt)) := by
  cases title with
  | some title => exact update_evolved fun _ => ⟨rfl, rfl, rfl, rfl⟩
  | none => exact update_evolved fun _ => ⟨rfl, rfl, rfl, rfl⟩

theorem touchUpdated_evolved (id : String) (updatedAt : Int) :
    Keeps (Evolved env P w0) (onDb (CardRepo.touchUpdated id updatedAt)) :=
  update_evolved fun _ => ⟨rfl, rfl, rfl, rfl⟩

end

namespace CardStore
variable [SortKey K] {env : Env K} {P : Forest String → String → Option String → Prop}
  {w0 : World K}

theorem updateContentLocked_evolved (card : Card K) (content : String) (title : Option String)
    (updatedAt : Int) :
    Keeps (Evolved env P w0) (updateContentLocked env card content title updatedAt) := by
  refine (requireProject_quiet _).evolved.bind fun _ => (Keeps.fromExcept _).bind fun _ =>
    (existingCardFile_quiet _).evolved.bind fun existing => ?_
  refine (Keeps.ite (writeContent_quiet _ _ _ _ _).evolved (.pure _)).bind fun _ => ?_
  refine (storeTitle_evolved _ _ _).bind fun _ => (ftsUpsertCard_quiet _ _ _ _).evolved.bind fun _ =>
    (setTags_quiet _ _ _ _).evolved.bind fun _ => ?_
  exact .ite (commit_quiet _).evolved (.pure _)

theorem updateContent_evolved (cardId content : String) (title : Option String) (updatedAt : Int) :
    Keeps (Evolved env P w0) (updateContent env cardId content title updatedAt) := by
  refine Keeps.get.bind fun w => ?_
  split
  · exact .throw _
  · exact updateContentLocked_evolved _ _ _ _

theorem updateLinksLocked_evolved (card : Card K) (updatedAt : Int) :
    Keeps (Evolved env P w0) (updateLinksLocked env card updatedAt) := by
  refine (requireProject_quiet _).evolved.bind fun _ => (Keeps.fromExcept _).bind fun _ =>
    (readCardFile_quiet _).evolved.bind fun _ => Keeps.get.bind fun _ =>
    (replaceCardFile_quiet _ _ _ _ _).evolved.bind fun _ => ?_
  exact .ite ((touchUpdated_evolved _ _).bind fun _ => (commit_quiet _).evolved) (.pure _)

theorem updateMilestonesLocked_evolved (card : Card K) (updatedAt : Int) :
    Keeps (Evolved env P w0) (updateMilestonesLocked env card updatedAt) := by
  refine (requireProject_quiet _).evolved.bind fun _ => (Keeps.fromExcept _).bind fun _ =>
    (readCardFile_quiet _).evolved.bind fun _ => Keeps.get.bind fun _ =>
    (replaceCardFile_quiet _ _ _ _ _).evolved.bind fun _ => ?_
  exact .ite ((touchUpdated_evolved _ _).bind fun _ => (commit_quiet _).evolved) (.pure _)

theorem updateMilestoneLocked_evolved (card : Card K) (milestones : List Milestone)
    (updatedAt : Int) :
    Keeps (Evolved env P w0) (updateMilestoneLocked env card milestones updatedAt) := by
  refine (requireProject_quiet _).evolved.bind fun _ => (Keeps.fromExcept _).bind fun _ =>
    (readCardFile_quiet _).evolved.bind fun _ => (writeCardFile_quiet _ _ _ _).evolved.bind fun _ =>
    (stageCardFile_quiet _).evolved.bind fun _ => ?_
  refine (Quiet.onDb (MilestoneRepo.replaceForCard_keepsCards _ _ _)).evolved.bind fun _ => ?_
  exact (touchUpdated_evolved _ _).bind fun _ => (commit_quiet _).evolved

theorem getContent_quiet (card : Card K) : Quiet (getContent env card) := by
  intro cards
  refine (requireProject_quiet _ cards).bind fun _ => (Keeps.fromExcept _).bind fun _ =>
    Keeps.get.bind fun w => ?_
  split
  · exact .pure _
  · exact (Keeps.fromExcept _).bind fun _ => .pure _

theorem addTagLocked_evolved (card : Card K) (normalized : String) (updatedAt : Int) :
    Keeps (Evolved env P w0) (addTagLocked env card normalized updatedAt) := by
  refine (requireProject_quiet _).evolved.bind fun _ => (getContent_quiet _).evolved.bind fun _ => ?_
  exact .ite (.pure _) ((updateContent_evolved _ _ _ _).bind fun _ => .pure _)

theorem removeTagLocked_evolved (card : Card K) (normalized : String) (updatedAt : Int) :
    Keeps (Evolved env P w0) (removeTagLocked env card normalized updatedAt) := by
  refine (requireProject_quiet _).evolved.bind fun _ => (getContent_quiet _).evolved.bind fun c => ?_
  simp only
  split
  · exact .pure _
  · exact (updateContent_evolved _ _ _ _).bind fun _ => .pure _

/-! ## New places -/

omit [SortKey K] in
/-- A row written to a reachable place, live unless it is new. -/
theorem placed_evolved {w w1 : World K} {id : String} {card : Card K} (hw : Evolved env P w0 w)
    (hw1 : AtCards w.db.cards w1) (hid : card.cardId = id)
    (hproj : card.projectId = env.project.projectId)
    (hreach : w.db.forest.Reachable id card.parentCardId)
    (hlive : card.deletedAt = none ∨ w.db.cards[id]? = none) :
    Evolved env P w0 { w1 with db := { w1.db with cards := w1.db.cards.insert id card } } := by
  have hforest : Db.forest { w1.db with cards := w1.db.cards.insert id card } =
      Function.update w.db.forest id (some ⟨card.parentCardId, card.live⟩) := by
    funext x
    simp only [Db.forest, hw1.cards, Map.get_insert, Function.update_apply]
    by_cases hx : x = id
    · rw [if_pos hx, if_pos hx.symm]
      rfl
    · rw [if_neg hx, if_neg (Ne.symm hx)]
  refine hw.step ⟨hw1.journal, hw1.valid, fun x c hc => ?_, fun x c hc => ?_⟩ (hforest ▸ ?_)
  · simp only [hw1.cards, Map.get_insert] at hc
    split at hc
    · next hx =>
      cases hc
      exact hid.trans hx
    · exact hw.tidy.keyed x c hc
  · simp only [hw1.cards, Map.get_insert] at hc
    split at hc
    · cases hc
      exact hproj
    · exact hw.tidy.project x c hc
  · refine .place _ _ _ hreach (hlive.imp Card.live_iff.mpr fun hnone => ?_)
    rw [Db.forest, hnone]
    rfl

theorem createLocked_evolved (card : Card K) (content : String) (key : Option K) {w : World K}
    (hw : Tidy env w) :
    Ends (createLocked env card content key) w (fun _ w' => Evolved env P w w')
      fun _ w' => Evolved env P w w' := by
  have hself : Evolved env P w w := .refl hw
  unfold createLocked
  refine (requireProject_ends hw.journal _).bind ?_ ?_
  · rintro - w1 ⟨rfl, hproj⟩
    simp only [Ends.bind_iff, Ends.get_iff, Ends.fromExcept_iff, Ends.ite_iff, Ends.throw_iff]
    refine ⟨fun _ hvalid => ⟨fun expected hpath => ⟨fun _ => hself, fun _ => ⟨fun _ => hself,
      fun hfresh => ⟨fun _ => hself, fun _ => ?_⟩⟩⟩, fun _ _ => hself⟩, fun _ _ => hself⟩
    have hreach := hw.reachable card hproj (validateCardParent_ok hvalid)
    refine (writeCardFile_quiet _ _ _ _ _ _ hw.atCards).mono (fun _ w2 hw2 => ?_)
      fun _ _ he => hself.of_atCards he
    refine (stageCardFile_quiet _ _ _ hw2).mono (fun _ w3 hw3 => ?_)
      fun _ _ he => hself.of_atCards he
    rw [Ends.tryCatch_iff, Ends.onDb_iff]
    refine (CardRepo.create_ends _ w3.db).mono ?_ ?_
    · rintro - db ⟨-, -, -, rfl⟩
      have hrow := Map.not_mem_iff.mp (mt Std.ExtTreeMap.contains_iff_mem.mpr hfresh)
      have hplaced : Evolved env P w1 { w3 with db := { w3.db with
          cards := w3.db.cards.insert card.cardId (newCard w1.db card key) } } :=
        placed_evolved hself hw3 rfl hproj hreach (.inr hrow)
      refine ((ftsUpsertCard_quiet _ _ _ _).evolved _ hplaced).mono (fun _ w4 hw4 => ?_)
        fun _ _ he => he
      exact ((setTags_quiet _ _ _ _).evolved _ hw4).mono (fun _ w5 hw5 => (commit_quiet _).evolved _ hw5)
        fun _ _ he => he
    · rintro e db ⟨rfl, -⟩
      simp only [Ends.bind_iff, Ends.onRepo_iff, Ends.throw_iff]
      refine ⟨fun repo hr => ?_, fun _ _ => hself.of_atCards hw3⟩
      cases hr
      exact hself.of_atCards ⟨hw3.cards, hw3.journal, hw3.valid.of_eq rfl rfl⟩
  · rintro - w1 rfl
    exact hself

theorem createBatchItem_evolved (remap : Map String String) (uuidV4 : Nat → String) (drawn : Nat)
    (item : BatchCardInput) :
    Keeps (Evolved env P w0)
      (createBatchItem env env.project.projectId remap uuidV4 drawn item) := by
  refine (Keeps.fromExcept _).bind fun _ => Keeps.get.bind fun _ =>
    (writeCardFile_quiet _ _ _ _).evolved.bind fun _ => ?_
  refine Keeps.bind (fun w hw => ?_) fun _ => ?_
  · rw [Ends.onDb_iff]
    refine (CardRepo.create_ends _ w.db).mono ?_ ?_
    · rintro - db ⟨hnew, -, -, rfl⟩
      refine placed_evolved hw hw.tidy.atCards rfl rfl ?_ (.inl rfl)
      rintro y ⟨⟩
    · rintro - db ⟨rfl, -⟩
      exact hw
  · refine (ftsUpsertCard_quiet _ _ _ _).evolved.bind fun _ =>
      (setTags_quiet _ _ _ _).evolved.bind fun _ =>
      (Quiet.onDb (LinkRepo.upsertLinks_keepsCards _ _ _)).evolved.bind fun _ => ?_
    exact (Keeps.ite (.pure _)
      (Quiet.onDb (MilestoneRepo.replaceForCard_keepsCards _ _ _)).evolved).bind fun _ => .pure _

theorem createBatchItems_evolved (remap : Map String String) (uuidV4 : Nat → String) (drawn : Nat)
    (items : List BatchCardInput) :
    Keeps (Evolved env P w0)
      (createBatchItems env env.project.projectId remap uuidV4 drawn items) := by
  induction items generalizing drawn with
  | nil => exact .pure _
  | cons item items ih =>
    exact (createBatchItem_evolved _ _ _ _).bind fun _ => (ih _).bind fun _ => .pure _

theorem createBatchLocked_evolved (projectId : String) (items : List BatchCardInput)
    (generateId uuidV4 : Nat → String) (message : String) {w : World K} (hw : Tidy env w) :
    Ends (createBatchLocked env projectId items generateId uuidV4 message) w
      (fun _ w' => Evolved env P w w') fun _ w' => Evolved env P w w' := by
  have hself : Evolved env P w w := .refl hw
  unfold createBatchLocked
  refine (requireProject_ends hw.journal _).bind ?_ ?_
  · rintro - w1 ⟨rfl, rfl⟩
    have hitems : Ends (createBatchItems env env.project.projectId (idRemap generateId items) uuidV4
        0 items) w1 (fun _ => Evolved env P w1) fun _ => Evolved env P w1 :=
      createBatchItems_evolved _ _ _ _ w1 hself
    refine Ends.bind (R := fun _ => Evolved env P w1) (F := fun _ => Evolved env P w1)
      ?_ (fun staged => ?_) fun _ _ he => he
    · unfold Ends inTx
      unfold Ends at hitems
      split at hitems
      · next hrun => rw [hrun]; exact hitems
      · next hrun =>
        rw [hrun]
        exact hself.of_atCards ⟨rfl, hitems.tidy.journal, hitems.tidy.valid⟩
    · refine Keeps.bind ?_ fun _ => Keeps.bind (assertStaged_quiet _).evolved fun _ =>
        .ite (commit_quiet _).evolved (.pure _)
      exact (Quiet.onRepo fun _ _ hv hr => hv.stagePaths hr).evolved
  · rintro - w1 rfl
    exact hself

theorem moveLocked_evolved (projectId cardId : String) (hasParent : Bool) (parent : Option String)
    (key : Option K) (updatedAt : Int) {w : World K} (hw : Tidy env w) :
    Ends (moveLocked env projectId cardId hasParent parent key updatedAt) w
      (fun _ w' => Evolved env P w w') fun _ w' => Evolved env P w w' := by
  have hself : Evolved env P w w := .refl hw
  unfold moveLocked
  refine (requireProject_ends hw.journal _).bind ?_ ?_
  · rintro - w1 ⟨rfl, hproj⟩
    simp only [rereadCard, CardRepo.get?, Ends.bind_iff, Ends.get_iff]
    split
    · next card hcard =>
      simp only [Ends.bind_iff, Ends.get_iff, Ends.fromExcept_iff, Ends.ite_iff, Ends.throw_iff,
        Ends.pure_iff]
      refine ⟨fun _ => hself, fun hlive => ⟨fun _ _ => ⟨fun _ hvalid => ⟨fun _ => ?_, fun _ => hself⟩,
        fun _ _ => hself⟩, fun _ _ => hself⟩⟩
      have hid := hw.keyed _ _ hcard
      have hown : card.projectId = env.project.projectId := hw.project _ _ hcard
      have hreach := hw.reachable { card with
          parentCardId := if hasParent = true then parent else card.parentCardId }
        hown (validateCardParent_ok hvalid)
      simp only [hid] at hreach
      refine (readCardFile_quiet _ _ _ hw.atCards).mono (fun r w2 hw2 => ?_)
        fun _ _ he => hself.of_atCards he
      refine (replaceCardFile_quiet _ _ _ _ _ _ _ hw2).mono (fun changed w3 hw3 => ?_)
        fun _ _ he => hself.of_atCards he
      refine ⟨fun _ => ?_, fun _ => hself.of_atCards hw3⟩
      rw [Ends.onDb_iff]
      refine (CardRepo.update_ends _ _ _ w3.db).mono ?_ ?_
      · rintro - db (⟨hnone, -⟩ | ⟨c, hc, -, -, rfl⟩)
        · rw [hw3.cards, hcard] at hnone
          cases hnone
        · rw [hw3.cards, hcard] at hc
          cases hc
          refine ((ftsUpsertCard_quiet _ _ _ _).evolved _ ?_).mono
            (fun _ w4 hw4 => (commit_quiet _).evolved _ hw4) fun _ _ he => he
          exact placed_evolved hself hw3 hid hown hreach (.inl (by simpa using hlive))
      · rintro - db ⟨rfl, -⟩
        exact hself.of_atCards hw3
    · exact hself
  · rintro - w1 rfl
    exact hself

theorem hardDeleteLocked_evolved (card : Card K) {w : World K} (hw : Tidy env w) :
    Ends (hardDeleteLocked env card) w (fun _ w' => Evolved env P w w')
      fun _ w' => Evolved env P w w' := by
  refine Keeps.bind (P := Evolved env P w) (requireProject_quiet _).evolved (fun _ => ?_) w
    (.refl hw)
  refine (Keeps.fromExcept _).bind fun _ => Keeps.get.bind fun _ => ?_
  refine (Keeps.ite ?_ (.pure _)).bind fun _ => ?_
  · refine (Quiet.onRepo fun r r' hv hr => ?_).evolved
    cases hr
    exact hv.of_eq rfl rfl
  refine (Quiet.onDb (LinkRepo.deleteLinksFrom_keepsCards _ _)).evolved.bind fun _ =>
    (Quiet.onDb (LinkRepo.deleteLinksToTyped_keepsCards _ _ _)).evolved.bind fun _ =>
    (Quiet.onDb (TagRepo.deleteTagsForCard_keepsCards _ _)).evolved.bind fun _ =>
    (Quiet.onDb (MilestoneRepo.deleteForCard_keepsCards _ _)).evolved.bind fun _ => ?_
  refine Keeps.bind (fun w1 hw1 => ?_) fun _ => (commit_quiet _).evolved
  rw [Ends.onDb_iff]
  refine (CardRepo.remove_ends card.cardId w1.db).mono ?_ fun _ _ h => h.elim
  rintro - db (⟨-, rfl⟩ | ⟨-, rfl⟩)
  · exact hw1
  · have hget : ∀ x : String, ((w1.db.cards.erase card.cardId).map fun _ (c : Card K) =>
        if c.parentCardId == some card.cardId then { c with parentCardId := none } else c)[x]? =
        if x = card.cardId then none else w1.db.cards[x]?.map fun c =>
          if c.parentCardId == some card.cardId then { c with parentCardId := none } else c := by
      intro x
      rw [Map.get_map, Map.get_erase]
      by_cases hx : x = card.cardId
      · rw [if_pos hx, if_pos hx.symm]
        rfl
      · rw [if_neg hx, if_neg (Ne.symm hx)]
    have hrow : ∀ (x : String) (c : Card K), ((w1.db.cards.erase card.cardId).map fun _ (c : Card K) =>
        if c.parentCardId == some card.cardId then { c with parentCardId := none } else c)[x]? =
        some c → ∃ c', w1.db.cards[x]? = some c' ∧ c.cardId = c'.cardId ∧
          c.projectId = c'.projectId := by
      intro x c hc
      rw [hget] at hc
      split at hc
      · cases hc
      · obtain ⟨c', hc', rfl⟩ := Option.map_eq_some_iff.mp hc
        refine ⟨c', hc', ?_⟩
        split <;> exact ⟨rfl, rfl⟩
    have hforest : Db.forest (K := K) { w1.db with
        cards := (w1.db.cards.erase card.cardId).map fun _ (c : Card K) =>
          if c.parentCardId == some card.cardId then { c with parentCardId := none } else c
        cardTags := w1.db.cardTags.filter fun _ t => t.cardId != card.cardId
        milestones := w1.db.milestones.filter fun _ m => m.cardId != card.cardId } =
        w1.db.forest.remove card.cardId := by
      funext x
      rw [Db.forest, hget, Forest.remove]
      split
      · rfl
      · simp only [Db.forest, Option.map_map]
        congr 1
        funext c
        simp only [Function.comp_apply, beq_iff_eq]
        split <;> rfl
    refine hw1.step ⟨hw1.tidy.journal, hw1.tidy.valid, fun x c hc => ?_, fun x c hc => ?_⟩
      (hforest ▸ .remove _)
    · obtain ⟨c', hc', hid, -⟩ := hrow x c hc
      rw [hid, hw1.tidy.keyed x c' hc']
    · obtain ⟨c', hc', -, hproj⟩ := hrow x c hc
      rw [hproj, hw1.tidy.project x c' hc']

end CardStore

/-! ## Journalled changes -/

section
variable {env : Env K} {P : Forest String → String → Option String → Prop} {w w' : World K}
  {changes : List (CardChange K)} {message : String} {m : Mutation K}

theorem Restored.evolved (h : Restored w w') (hw : Tidy env w) : Evolved env P w w' :=
  (Evolved.refl hw).of_atCards ⟨by rw [h.db], h.journal.trans hw.journal, h.valid hw.valid⟩

theorem PlannedFor.cardsChanged (hp : PlannedFor env w changes message m) (hk : w.db.Keyed)
    (hids : CardChanges changes) (hnodup : (changes.map (·.current.cardId)).Nodup) :
    CardsChanged (changes.map (·.prepared.target)) w.db m.db := by
  refine changeRows_cards hk ?_ hp.rows
  have hmap : (changes.map (·.prepared.target)).map (·.card.cardId) =
      changes.map (·.current.cardId) := by
    rw [List.map_map]
    exact List.map_congr_left hids
  rwa [hmap]

theorem Applied.tidy (ha : Applied m w w') (hp : PlannedFor env w changes message m)
    (hj : w'.journal = none) (hw : Tidy env w) : Tidy env w' := by
  have hinv := changeRows_invariant (P := fun db => db.Keyed ∧ ∀ (id : String) (c : Card K),
      db.cards[id]? = some c → c.projectId = env.project.projectId) ?_ hp.rows ⟨hw.keyed, hw.project⟩
  · exact ⟨hj, ha.landed.valid hw.valid, ha.db ▸ hinv.1, ha.db ▸ hinv.2⟩
  · rintro record - db1 db2 ⟨hk, hproj⟩ hrows
    refine ⟨hrows.keyed hk, fun id c hc => ?_⟩
    rw [hrows.cards id] at hc
    split at hc
    · obtain ⟨row, hrow, rfl⟩ := Option.map_eq_some_iff.mp hc
      exact hproj id row hrow
    · exact hproj id c hc

theorem CardsChanged.forest_changed {records : List (ParsedCardFile K)} {db db' : Db K}
    (h : CardsChanged records db db') {record : ParsedCardFile K}
    (hmem : record ∈ records) (hrow : ∃ row, db.cards[record.card.cardId]? = some row) :
    db'.forest record.card.cardId = some ⟨record.card.parentCardId, record.card.live⟩ := by
  obtain ⟨row, hrow⟩ := hrow
  rw [Db.forest, h.changed record hmem, hrow]
  rfl

theorem CardsChanged.forest_kept {records : List (ParsedCardFile K)} {db db' : Db K}
    {id : String} (h : CardsChanged records db db')
    (hid : ∀ record ∈ records, record.card.cardId ≠ id) : db'.forest id = db.forest id := by
  rw [Db.forest, h.kept id hid]
  rfl

end

namespace CardStore
variable [SortKey K] {env : Env K} {P : Forest String → String → Option String → Prop}

theorem applyWithPlacements_changed {current : Card K} {target : ParsedCardFile K}
    {placements : List (Card K)} {message : String} {w : World K} (hw : Tidy env w)
    (hid : target.card.cardId = current.cardId)
    (hnodup : (current.cardId :: placements.map (·.cardId)).Nodup) :
    Ends (applyWithPlacements env current target placements message) w
      (fun _ w' => Tidy env w' ∧ ∃ changes, List.Forall₂ (PlacementOf env w) placements changes ∧
        CardsChanged ((⟨current, target⟩ :: changes).map (·.prepared.target)) w.db w'.db)
      fun _ w' => Evolved env P w w' := by
  refine (applyWithPlacements_ends hw.valid hid).mono ?_ fun _ _ h => h.evolved hw
  rintro - w' ⟨changes, m, hchanges, hplan, happlied, hj⟩
  refine ⟨happlied.tidy hplan hj hw, changes, hchanges, ?_⟩
  rw [happlied.db]
  refine hplan.cardsChanged hw.keyed (fun change hc => ?_) ?_
  · rcases List.mem_cons.mp hc with rfl | hc
    · exact hid
    · obtain ⟨placed, -, hp⟩ := hchanges.exists_left hc
      rw [hp.card, hp.current]
  · rw [List.map_cons, PlacementOf.ids hchanges]
    exact hnodup

section
variable {w w' : World K} {current : Card K} {target : ParsedCardFile K} {placements : List (Card K)}
  {changes : List (CardChange K)}

/-- Where a node goes after a change with placements: the card to its target, each placed card to
its placement, and no other card anywhere. -/
theorem forest_of_changed (hid : target.card.cardId = current.cardId)
    (hrow : ∃ row, w.db.cards[current.cardId]? = some row)
    (hplaced : ∀ c ∈ placements, ∃ b, w.db.cards[c.cardId]? = some b)
    (hchanges : List.Forall₂ (PlacementOf env w) placements changes)
    (h : CardsChanged ((⟨current, target⟩ :: changes).map (·.prepared.target)) w.db w'.db) :
    w'.db.forest current.cardId = some ⟨target.card.parentCardId, target.card.live⟩ ∧
      (∀ c ∈ placements, w'.db.forest c.cardId = some ⟨c.parentCardId, c.live⟩) ∧
      ∀ y, y ≠ current.cardId → (∀ c ∈ placements, c.cardId ≠ y) →
        w'.db.forest y = w.db.forest y := by
  refine ⟨?_, fun c hc => ?_, fun y hy hother => ?_⟩
  · have := h.forest_changed (List.mem_map.mpr ⟨_, List.mem_cons_self, rfl⟩)
      (by simpa [CardChange.prepared, hid] using hrow)
    simpa [CardChange.prepared, hid, Card.live] using this
  · obtain ⟨change, hmem, hp⟩ := hchanges.exists_right hc
    have := h.forest_changed (List.mem_map.mpr ⟨change, List.mem_cons_of_mem _ hmem, rfl⟩)
      (by simpa [CardChange.prepared, hp.card] using hplaced c hc)
    simpa [CardChange.prepared, hp.card, Card.live] using this
  · refine h.forest_kept fun record hr => ?_
    obtain ⟨change, hmem, rfl⟩ := List.mem_map.mp hr
    rcases List.mem_cons.mp hmem with rfl | hmem
    · simpa [CardChange.prepared, hid] using hy.symm
    · obtain ⟨placed, hpl, hp⟩ := hchanges.exists_left hmem
      simpa [CardChange.prepared, hp.card] using hother placed hpl

/-- A change that puts a card live under a reachable parent, with siblings that make room. -/
theorem place_evolved {r : Option String} (hw : Tidy env w) (hw' : Tidy env w')
    (hid : target.card.cardId = current.cardId)
    (hrow : ∃ row, w.db.cards[current.cardId]? = some row) (hlive : target.card.deletedAt = none)
    (hpar : target.card.parentCardId = r) (hreach : w.db.forest.Reachable current.cardId r)
    (hsib : ∀ c ∈ placements, ∃ (b : Card K) (key : K) (updatedAt : Int), c = b.placed b.parentCardId key updatedAt ∧
      w.db.cards[b.cardId]? = some b)
    (hchanges : List.Forall₂ (PlacementOf env w) placements changes)
    (h : CardsChanged ((⟨current, target⟩ :: changes).map (·.prepared.target)) w.db w'.db) :
    Evolved env P w w' := by
  obtain ⟨hcard, hplaced, hkept⟩ := forest_of_changed hid hrow (fun c hc => by
    obtain ⟨b, key, u, rfl, hb⟩ := hsib c hc
    exact ⟨b, hb⟩) hchanges h
  have hforest : w'.db.forest = Function.update w.db.forest current.cardId (some ⟨r, true⟩) := by
    funext y
    by_cases hy : y = current.cardId
    · rw [hy, Function.update_self, hcard, hpar, Card.live_iff.mpr hlive]
    · rw [Function.update_of_ne hy]
      by_cases hmem : ∃ c ∈ placements, c.cardId = y
      · obtain ⟨c, hc, rfl⟩ := hmem
        rw [hplaced c hc]
        obtain ⟨b, key, u, rfl, hb⟩ := hsib c hc
        simp [Db.forest, hb, Card.live]
      · exact hkept y hy fun c hc he => hmem ⟨c, hc, he⟩
  exact (Evolved.refl hw).step hw' (hforest ▸ .place _ _ _ hreach (.inl rfl))

/-- A change that trashes a card and promotes its live children. -/
theorem bin_evolved (current : Card K) {updatedAt : Int} (hw : Tidy env w) (hw' : Tidy env w')
    (hid : target.card.cardId = current.cardId)
    (hrow : w.db.cards[current.cardId]? = some current) (hdel : target.card.deletedAt.isSome)
    (hprom : promotedCardChildren w.db current updatedAt = .ok placements)
    (hP : P w.db.forest current.cardId target.card.parentCardId)
    (hchanges : List.Forall₂ (PlacementOf env w) placements changes)
    (h : CardsChanged ((⟨current, target⟩ :: changes).map (·.prepared.target)) w.db w'.db) :
    Evolved env P w w' := by
  obtain ⟨r, hr, hmem, hall, -⟩ := promotedCardChildren_ok hw.keyed hprom
  have hproj := hw.project _ _ hrow
  have hreach := hw.reachable current hproj hr
  have hrx : r ≠ some current.cardId := by
    intro he
    obtain ⟨p, hp⟩ := (hreach _ he).node
    exact (avoiding_eq_some.mp hp).1 (by simp)
  obtain ⟨hcard, hplaced, hkept⟩ := forest_of_changed hid ⟨_, hrow⟩ (fun c hc => by
    obtain ⟨b, key, rfl, hb, -⟩ := hmem c hc
    exact ⟨b, hb.row⟩) hchanges h
  have hforest : w'.db.forest =
      w.db.forest.bin current.cardId target.card.parentCardId r := by
    funext y
    by_cases hy : y = current.cardId
    · rw [hy, hcard, Forest.bin, if_pos rfl]
      simp [Card.live, hdel]
    · rw [Forest.bin, if_neg hy]
      by_cases hc : ∃ c ∈ placements, c.cardId = y
      · obtain ⟨c, hc, rfl⟩ := hc
        rw [hplaced c hc]
        obtain ⟨b, key, rfl, hb, hpar⟩ := hmem c hc
        have hlive : b.live = true := Card.live_iff.mpr hb.live
        rcases hpar with hpar | ⟨hpar, -⟩
        · simp [Db.forest, hb.row, Card.live, hb.live, hpar]
        · simp [Db.forest, hb.row, Card.live, hb.live, hpar, hrx]
      · rw [hkept y hy fun c hc' he => hc ⟨c, hc', he⟩]
        -- No live child of the card is left out of the placements.
        cases hn : w.db.forest y with
        | none => rfl
        | some n =>
          simp only [Option.map_some, Option.some.injEq]
          rw [if_neg]
          rintro ⟨hl, hp⟩
          obtain ⟨b, hb, rfl⟩ := Option.map_eq_some_iff.mp hn
          have hbid := hw.keyed y b hb
          obtain ⟨key, hkey⟩ := hall b ⟨by rw [hbid]; exact hb, (hw.project y b hb).trans hproj.symm,
            Card.live_iff.mp hl⟩ hp
          exact hc ⟨_, hkey, hbid⟩
  refine (Evolved.refl hw).step hw' (hforest ▸ .bin _ _ _ (fun y hy => ?_) hP hreach)
  obtain ⟨c, hc⟩ := h.parents _ (List.mem_map.mpr ⟨_, List.mem_cons_self, rfl⟩) y hy
    ⟨current, by simpa [CardChange.prepared, hid] using hrow⟩
  exact ⟨_, by rw [Db.forest, hc]; rfl⟩

end

omit [SortKey K] in
/-- A row read again under the lock. -/
theorem rereadCard_ends (cardId : String) (w : World K) :
    Ends (rereadCard cardId) w (fun card w' => w' = w ∧ w.db.cards[cardId]? = some card)
      fun _ w' => w' = w := by
  unfold rereadCard
  simp only [CardRepo.get?, Ends.bind_iff, Ends.get_iff]
  cases hc : w.db.cards[cardId]? with
  | none => simp
  | some card => simp

theorem moveToLocked_evolved (projectId cardId : String) (request : CardPlacementRequest)
    (updatedAt : Int) {w : World K} (hw : Tidy env w) :
    Ends (moveToLocked env projectId cardId request updatedAt) w
      (fun _ w' => Evolved env P w w') fun _ w' => Evolved env P w w' := by
  have hself : Evolved env P w w := .refl hw
  unfold moveToLocked
  refine (requireProject_ends hw.journal _).bind ?_ (by rintro - w1 rfl; exact hself)
  rintro - w1 ⟨rfl, hproj⟩
  simp only [Ends.bind_iff, Ends.get_iff, Ends.fromExcept_iff, CardRepo.get?]
  refine ⟨fun placement hplacement => ?_, fun _ _ => hself⟩
  split
  · next card hcard =>
    have hid := hw.keyed _ _ hcard
    have hown : card.projectId = env.project.projectId := hw.project _ _ hcard
    simp only [Ends.bind_iff, Ends.fromExcept_iff, Ends.ite_iff, Ends.pure_iff]
    refine ⟨fun _ => hself, fun _ => ⟨fun _ hrel => ⟨fun _ hvalid => ?_, fun _ _ => hself⟩,
      fun _ _ => hself⟩⟩
    have hreach := hw.reachable { card with parentCardId := placement.parentCardId } hown
      (validateCardParent_ok hvalid)
    obtain ⟨hsib, hnodup⟩ := CardPlacementResolver.resolve_ok hw.keyed hplacement
    refine (readCardFile_ends _ w1).mono ?_ (by rintro - w2 rfl; exact hself)
    rintro r w2 ⟨rfl, -, -⟩
    refine Ends.mono (applyWithPlacements_changed (P := P) hw ?_ ?_) ?_ fun _ _ he => he
    · rfl
    · refine List.nodup_cons.mpr ⟨fun hmem => ?_, hnodup⟩
      obtain ⟨c, hc, he⟩ := List.mem_map.mp hmem
      obtain ⟨b, key, rfl, -, hne⟩ := hsib c hc
      exact hne (he.trans hid)
    · rintro - w3 ⟨hw3, changes, hchanges, hcards⟩
      refine place_evolved hw hw3 rfl ⟨card, by rw [hid]; exact hcard⟩ ?_ rfl hreach
        (fun c hc => ?_) hchanges hcards
      · -- The resolver only moves live cards.
        obtain ⟨c, hc, hlive⟩ := CardPlacementResolver.resolve_live hplacement
        rw [hcard] at hc
        cases hc
        exact hlive
      · obtain ⟨b, key, hb, hlive, -⟩ := hsib c hc
        exact ⟨b, key, updatedAt, hb, hlive.row⟩
  · exact hself

/-- The change that trashes a live card, keeping everything else of its file. -/
def TrashedOf (env : Env K) (w : World K) (deletedAt : Int) (live : Card K) (change : CardChange K) :
    Prop :=
  ∃ placement, PlacementOf env w live placement ∧ change = { placement with target.card :=
    { live with deletedAt := some deletedAt, updatedAt := deletedAt } }

theorem TrashedOf.current {w : World K} {deletedAt : Int} {live : Card K} {change : CardChange K}
    (h : TrashedOf env w deletedAt live change) : change.current = live := by
  obtain ⟨placement, hp, rfl⟩ := h
  exact hp.current

theorem TrashedOf.card {w : World K} {deletedAt : Int} {live : Card K} {change : CardChange K}
    (h : TrashedOf env w deletedAt live change) :
    change.target.card = { live with deletedAt := some deletedAt, updatedAt := deletedAt } := by
  obtain ⟨placement, hp, rfl⟩ := h
  rfl

theorem TrashedOf.ids {w : World K} {deletedAt : Int} {cards : List (Card K)}
    {changes : List (CardChange K)} (h : List.Forall₂ (TrashedOf env w deletedAt) cards changes) :
    changes.map (·.current.cardId) = cards.map (·.cardId) := by
  induction h with
  | nil => rfl
  | cons ht _ ih => rw [List.map_cons, List.map_cons, ih, ht.current]

theorem trashedChange_ends (deletedAt : Int) (live : Card K) (w : World K) :
    Ends (trashedChange env deletedAt live) w
      (fun change w' => w' = w ∧ TrashedOf env w deletedAt live change) fun _ w' => w' = w := by
  unfold trashedChange
  refine (placementChange_ends live w).bind ?_ fun _ _ he => he
  rintro placement w1 ⟨rfl, hp⟩
  exact ⟨rfl, placement, hp, by rw [hp.card]⟩

theorem restoreLocked_evolved (projectId cardId : String) (updatedAt : Int) {w : World K}
    (hw : Tidy env w) :
    Ends (restoreLocked env projectId cardId updatedAt) w
      (fun _ w' => Evolved env P w w') fun _ w' => Evolved env P w w' := by
  have hself : Evolved env P w w := .refl hw
  unfold restoreLocked
  refine (requireProject_ends hw.journal _).bind ?_ (by rintro - w1 rfl; exact hself)
  rintro - w1 ⟨rfl, hproj⟩
  refine (rereadCard_ends cardId w1).bind ?_ (by rintro - w2 rfl; exact hself)
  rintro card w2 ⟨rfl, hcard⟩
  have hid := hw.keyed _ _ hcard
  have hown : card.projectId = env.project.projectId := hw.project _ _ hcard
  simp only [Ends.bind_iff, Ends.get_iff, Ends.fromExcept_iff, Ends.ite_iff, Ends.throw_iff]
  refine ⟨fun _ => hself, fun _ => ⟨fun _ _ => ⟨fun _ _ => ⟨fun _ => hself, fun _ => ?_⟩,
    fun _ _ => hself⟩, fun _ _ => hself⟩⟩
  refine (readCardFile_ends _ w2).mono ?_ (by rintro - w3 rfl; exact hself)
  rintro r w3 ⟨rfl, -, -⟩
  refine ⟨?_, fun _ _ => hself⟩
  rintro ⟨restored, placements⟩ hplacement
  obtain ⟨parent, key, hparent, rfl, hsib, hnodup⟩ := restoredCardPlacement_ok hw.keyed hplacement
  have hreach := hw.reachable { card with deletedAt := none, updatedAt } hown hparent
  refine Ends.mono (applyWithPlacements_changed (P := P) hw ?_ ?_) ?_ fun _ _ he => he
  · rfl
  · refine List.nodup_cons.mpr ⟨fun hmem => ?_, hnodup⟩
    obtain ⟨c, hc, he⟩ := List.mem_map.mp hmem
    obtain ⟨b, key, rfl, -, hne⟩ := hsib c hc
    exact hne he
  · rintro - w4 ⟨hw4, changes, hchanges, hcards⟩
    refine place_evolved hw hw4 rfl ⟨card, by rw [hid]; exact hcard⟩ rfl rfl hreach
      (fun c hc => ?_) hchanges hcards
    obtain ⟨b, key, hb, hlive, -⟩ := hsib c hc
    exact ⟨b, key, updatedAt, hb, hlive.row⟩

/-- The changes that trash a whole subtree. -/
theorem binAll_evolved {w w' : World K} {card : Card K} {changes : List (CardChange K)}
    (hw : Tidy env w) (hw' : Tidy env w') (hcard : w.db.cards[cardId]? = some card)
    (hlive : card.deletedAt = none)
    (hchanges : List.Forall₂ (fun (c : Card K) change => change.target.card.cardId = c.cardId ∧
        change.target.card.parentCardId = c.parentCardId ∧ change.target.card.deletedAt.isSome)
      (card :: liveDescendants w.db env.project.projectId cardId) changes)
    (h : CardsChanged (changes.map (·.prepared.target)) w.db w'.db) : Evolved env P w w' := by
  obtain ⟨hrows, -, hall⟩ := liveDescendants_spec hw.keyed env.project.projectId hcard
  have hid := hw.keyed _ _ hcard
  set members := card :: liveDescendants w.db env.project.projectId cardId with hmembers
  have hmember : ∀ c ∈ members, w.db.cards[c.cardId]? = some c ∧ c.deletedAt = none := by
    intro c hc
    rcases List.mem_cons.mp hc with rfl | hc
    · exact ⟨by rw [hid]; exact hcard, hlive⟩
    · exact hrows c hc
  have hforest : w'.db.forest = fun x => (w.db.forest x).map fun n =>
      { n with live := n.live && !(members.map (·.cardId)).contains x } := by
    funext y
    by_cases hy : y ∈ members.map (·.cardId)
    · obtain ⟨c, hc, rfl⟩ := List.mem_map.mp hy
      obtain ⟨change, hmem, hcid, hpar, hdel⟩ := hchanges.exists_right hc
      have hrow := (hmember c hc).1
      have := h.forest_changed (List.mem_map.mpr ⟨change, hmem, rfl⟩)
        ⟨c, by simpa [CardChange.prepared, hcid] using hrow⟩
      simp only [CardChange.prepared, hcid, hpar, Card.live] at this
      rw [this, Db.forest, hrow]
      simp [hy, hdel]
    · have hcon : (members.map (·.cardId)).contains y = false := by simpa using hy
      rw [h.forest_kept fun record hr => ?_]
      · cases w.db.forest y with
        | none => rfl
        | some n => simp only [Option.map_some, hcon, Bool.not_false, Bool.and_true]
      · obtain ⟨change, hmem, rfl⟩ := List.mem_map.mp hr
        obtain ⟨c, hc, hcid, -⟩ := hchanges.exists_left hmem
        rintro rfl
        exact hy (List.mem_map.mpr ⟨c, hc, hcid.symm⟩)
  refine (Evolved.refl hw).step hw' (hforest ▸ .binAll _ fun x y hx hy => ?_)
  obtain ⟨c, hc, hn⟩ := Option.map_eq_some_iff.mp hx
  injection hn with hpar hl
  have hcid := hw.keyed x c hc
  simp only [List.contains_iff_mem] at hy ⊢
  have hmem : c.cardId = cardId ∨ c ∈ liveDescendants w.db env.project.projectId cardId := by
    refine hall c (by rw [hcid]; exact hc) (hw.project x c hc) (Card.live_iff.mp hl) y hpar ?_
    simpa [hmembers, hid] using hy
  rw [← hcid]
  rcases hmem with hself | hdesc
  · exact List.mem_map.mpr ⟨card, List.mem_cons_self, hid.trans hself.symm⟩
  · exact List.mem_map.mpr ⟨c, List.mem_cons_of_mem _ hdesc, rfl⟩

theorem trashLocked_evolved (projectId cardId : String) (deletedAt : Int) (mode : TrashChildren)
    {w : World K} (hw : Tidy env w)
    (hkeep : ∀ x h, w.db.forest.up x = some h → P w.db.forest x h) :
    Ends (trashLocked env projectId cardId deletedAt mode) w
      (fun _ w' => Evolved env P w w') fun _ w' => Evolved env P w w' := by
  have hself : Evolved env P w w := .refl hw
  unfold trashLocked
  refine (requireProject_ends hw.journal _).bind ?_ (by rintro - w1 rfl; exact hself)
  rintro - w1 ⟨rfl, hproj⟩
  refine (rereadCard_ends cardId w1).bind ?_ (by rintro - w2 rfl; exact hself)
  rintro card w2 ⟨rfl, hcard⟩
  have hid := hw.keyed _ _ hcard
  simp only [Ends.bind_iff, Ends.get_iff, Ends.fromExcept_iff, Ends.ite_iff, Ends.throw_iff]
  refine ⟨fun _ => hself, fun hlive => ⟨fun _ _ => ?_, fun _ _ => hself⟩⟩
  have hlive : card.deletedAt = none := by simpa using hlive
  refine (trashedChange_ends deletedAt card w2).mono ?_ (by rintro - w3 rfl; exact hself)
  rintro change w3 ⟨rfl, hchange⟩
  have hrow : w3.db.cards[card.cardId]? = some card := by rw [hid]; exact hcard
  cases mode with
  | promote =>
    simp only [Ends.bind_iff, Ends.fromExcept_iff]
    refine ⟨fun placements hprom => ?_, fun _ _ => hself⟩
    have htarget : change.target.card.cardId = card.cardId := by rw [hchange.card]
    refine Ends.mono (applyWithPlacements_changed (P := P) hw htarget
      (promotedCardChildren_nodup hw.keyed hrow hprom)) ?_ fun _ _ he => he
    rintro - w4 ⟨hw4, changes, hchanges, hcards⟩
    refine bin_evolved card hw hw4 htarget hrow (by rw [hchange.card]; rfl) hprom (hkeep _ _ ?_) hchanges
      hcards
    rw [Db.forest_up, cardUp_eq_some]
    exact ⟨card, hrow, by rw [hchange.card]⟩
  | trashSubtree =>
    obtain ⟨-, hnodup, -⟩ := liveDescendants_spec hw.keyed env.project.projectId hcard
    refine (Ends.mapM (I := (· = w3)) (R := TrashedOf env w3 deletedAt) (fun c _ s hs => ?_)
      rfl).bind ?_ (by rintro - w4 rfl; exact hself)
    · subst hs
      exact trashedChange_ends deletedAt c s
    · rintro changes w4 ⟨rfl, hchanges⟩
      have hall : List.Forall₂ (TrashedOf env w4 deletedAt)
          (card :: liveDescendants w4.db env.project.projectId cardId) (change :: changes) :=
        .cons hchange hchanges
      have hids : CardChanges (change :: changes) := by
        intro change hc
        obtain ⟨c, -, ht⟩ := hall.exists_left hc
        rw [ht.card, ht.current]
      have hmap : (change :: changes).map (·.current.cardId) =
          cardId :: (liveDescendants w4.db env.project.projectId cardId).map (·.cardId) := by
        rw [TrashedOf.ids hall, List.map_cons, hid]
      refine (applyCardChanges_ends hids hw.valid).mono ?_ fun _ _ h => h.evolved hw
      rintro - w5 ⟨m, hplan, happlied, hj⟩
      have hcards := hplan.cardsChanged hw.keyed hids (hmap ▸ hnodup)
      rw [← happlied.db] at hcards
      refine binAll_evolved hw (happlied.tidy hplan hj hw) hcard hlive (hall.imp fun c change ht => ?_)
        hcards
      rw [ht.card]
      exact ⟨rfl, rfl, rfl⟩

theorem restoreVersionLocked_evolved (projectId cardId : String) (oid : Nat) (updatedAt : Int)
    {w : World K} (hw : Tidy env w)
    (hver : ∀ raw plain, historicalBlob w.repo oid cardId = .ok (raw, true) →
      decodeCardBlob env raw = .ok plain →
      P w.db.forest cardId (parseCardFile env.yaml plain).card.parentCardId) :
    Ends (restoreVersionLocked env projectId cardId oid updatedAt) w
      (fun _ w' => Evolved env P w w') fun _ w' => Evolved env P w w' := by
  have hself : Evolved env P w w := .refl hw
  unfold restoreVersionLocked
  refine (requireProject_ends hw.journal _).bind ?_ (by rintro - w1 rfl; exact hself)
  rintro - w1 ⟨rfl, hproj⟩
  refine (rereadCard_ends cardId w1).bind ?_ (by rintro - w2 rfl; exact hself)
  rintro current w2 ⟨rfl, hcard⟩
  have hid := hw.keyed _ _ hcard
  have hown : current.projectId = env.project.projectId := hw.project _ _ hcard
  have hrow : w2.db.cards[current.cardId]? = some current := by rw [hid]; exact hcard
  simp only [Ends.bind_iff, Ends.get_iff, Ends.fromExcept_iff, Ends.ite_iff, Ends.throw_iff]
  refine ⟨fun _ _ => ⟨fun _ _ => ⟨fun _ => hself, fun _ => ⟨?_, fun _ _ => hself⟩⟩,
    fun _ _ => hself⟩, fun _ _ => hself⟩
  rintro ⟨raw, isTrash⟩ hblob
  refine ⟨fun plain hplain => ⟨fun _ => hself, fun _ => ⟨fun _ => hself, fun hparsed =>
    ⟨?_, fun _ _ => hself⟩⟩⟩, fun _ _ => hself⟩
  rintro ⟨restored, placements⟩ hplacement
  cases isTrash with
  | true =>
    simp only [historicalPlacement, if_true, Except.map] at hplacement
    split at hplacement
    · cases hplacement
    · next changed hprom =>
      cases hplacement
      refine Ends.mono (applyWithPlacements_changed (P := P) hw rfl
        (promotedCardChildren_nodup hw.keyed hrow hprom)) ?_ fun _ _ he => he
      rintro - w4 ⟨hw4, changes, hchanges, hcards⟩
      refine bin_evolved current hw hw4 rfl hrow rfl hprom ?_ hchanges hcards
      rw [hid]
      exact hver raw plain hblob hplain
  | false =>
    simp only [historicalPlacement, Bool.false_eq_true, if_false] at hplacement
    obtain ⟨parent, key, hparent, rfl, hsib, hnodup⟩ := restoredCardPlacement_ok hw.keyed hplacement
    have hreach := hw.reachable (historicalRecord current (parseCardFile env.yaml plain)
      false updatedAt).card hown hparent
    refine Ends.mono (applyWithPlacements_changed (P := P) hw rfl ?_) ?_ fun _ _ he => he
    · refine List.nodup_cons.mpr ⟨fun hmem => ?_, hnodup⟩
      obtain ⟨c, hc, he⟩ := List.mem_map.mp hmem
      obtain ⟨b, key, rfl, -, hne⟩ := hsib c hc
      exact hne he
    · rintro - w4 ⟨hw4, changes, hchanges, hcards⟩
      refine place_evolved hw hw4 rfl ⟨current, hrow⟩ rfl rfl hreach (fun c hc => ?_) hchanges hcards
      obtain ⟨b, key, hb, hlive, -⟩ := hsib c hc
      exact ⟨b, key, updatedAt, hb, hlive.row⟩

/-- The repair of a forest with no hidden card moves nothing. -/
theorem repairHierarchyLocked_evolved (projectId : String) (updatedAt : Int) {w : World K}
    (hw : Tidy env w) (hlive : w.db.forest.LiveRooted) :
    Ends (repairHierarchyLocked env projectId updatedAt) w
      (fun _ w' => Evolved env P w w') fun _ w' => Evolved env P w w' := by
  have hself : Evolved env P w w := .refl hw
  unfold repairHierarchyLocked
  refine (requireProject_ends hw.journal _).bind ?_ (by rintro - w1 rfl; exact hself)
  rintro - w1 ⟨rfl, rfl⟩
  have hplan : planHierarchyRepair w1.db env.project.projectId updatedAt = .ok ⟨[], [], []⟩ :=
    planHierarchyRepair_of_rooted hw.keyed (by rw [← Db.forest_live hw.project]; exact hlive) _
  simp only [Ends.bind_iff, Ends.get_iff, hplan, Ends.fromExcept_iff, Ends.ite_iff, Ends.pure_iff]
  refine ⟨fun plan hp => ?_, fun _ _ => hself⟩
  cases hp
  exact ⟨fun _ => hself, fun h => absurd rfl h⟩

end CardStore

end HolderCore
