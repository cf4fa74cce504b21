import HolderCore.Library.Forest
import HolderCore.Card.ChangeRows
import HolderCore.Card.Store

/-! # What the store's programs do to the cards

The pieces that the operations are made of. Most of them are quiet: they move files, the index and
other tables, but no row of `cards`, and leave no journal. -/

namespace HolderCore

/-- These rows of cards, nothing interrupted, and refs that name commits. -/
structure AtCards (cards : Map String (Card K)) (w : World K) : Prop where
  cards : w.db.cards = cards
  journal : w.journal = none
  valid : w.repo.Valid

/-- A program that changes no row of `cards`, leaves no journal and keeps the refs valid. -/
def Quiet (m : StoreM K α) : Prop := ∀ cards, Keeps (AtCards cards) m

@[simp] theorem Ends.onDb_iff {m : DbM K α} {w : World K} {Q : α → World K → Prop}
    {E : Exn → World K → Prop} : Ends (onDb m) w Q E ↔
      Ends m w.db (fun a db => Q a { w with db }) fun e db => E e { w with db } := by
  simp only [Ends, onDb]
  cases m w.db <;> rfl

@[simp] theorem Ends.onRepo_iff {f : Repo → Except Exn Repo} {w : World K}
    {Q : Unit → World K → Prop} {E : Exn → World K → Prop} : Ends (onRepo f) w Q E ↔
      (∀ repo, f w.repo = .ok repo → Q () { w with repo }) ∧ ∀ e, f w.repo = .error e → E e w := by
  simp only [onRepo, Ends.bind_iff, Ends.get_iff, Ends.fromExcept_iff, Ends.set_iff]

namespace Repo

theorem Valid.of_eq {r r' : Repo} (h : r.Valid) (hrefs : r'.refs = r.refs)
    (hcommits : r'.commits = r.commits) : r'.Valid :=
  ⟨by rw [hrefs, hcommits]; exact h.refs, by rw [hcommits]; exact h.parents⟩

theorem Valid.stagePath {r r' : Repo} (h : r.Valid) (hs : r.stagePath path = .ok r') : r'.Valid := by
  obtain ⟨bytes, -, rfl⟩ := stagePath_ok hs
  exact h.of_eq rfl rfl

theorem Valid.stagePaths {r r' : Repo} (h : r.Valid) (hs : r.stagePaths paths = .ok r') :
    r'.Valid := by
  unfold Repo.stagePaths at hs
  split at hs
  · cases hs
    exact h
  · clear * - h hs
    induction paths generalizing r with
    | nil => cases hs; exact h
    | cons path paths ih =>
      rw [List.foldlM_cons] at hs
      cases hp : r.stagePath path with
      | error e => rw [hp] at hs; cases hs
      | ok r1 => rw [hp] at hs; exact ih (h.stagePath hp) hs

end Repo

namespace Quiet

theorem onDb {m : DbM K α} (h : KeepsCards m) : Quiet (onDb m) := by
  intro cards w hw
  rw [Ends.onDb_iff]
  refine (h cards w.db hw.cards).mono ?_ ?_
  · exact fun _ db hdb => ⟨hdb, hw.journal, hw.valid⟩
  · exact fun _ db hdb => ⟨hdb, hw.journal, hw.valid⟩

theorem onRepo {f : Repo → Except Exn Repo} (h : ∀ r r', r.Valid → f r = .ok r' → r'.Valid) :
    Quiet (K := K) (onRepo f) := by
  intro cards w hw
  rw [Ends.onRepo_iff]
  exact ⟨fun repo hr => ⟨hw.cards, hw.journal, h _ _ hw.valid hr⟩, fun _ _ => hw⟩

end Quiet

namespace CardStore
variable {env : Env K}

theorem encodeCardBlob_quiet (plain : Bytes) : Quiet (encodeCardBlob env plain) := by
  intro cards w hw
  refine (encodeCardBlob_ends plain w).mono ?_ ?_
  · rintro bytes w' ⟨⟨n, rfl⟩, -⟩
    exact ⟨hw.cards, hw.journal, hw.valid⟩
  · rintro - w' rfl
    exact hw

theorem writeCardFile_quiet (card : Card K) (links : List CardLink) (milestones : List Milestone)
    (content : String) : Quiet (writeCardFile env card links milestones content) := fun cards =>
  (encodeCardBlob_quiet _ cards).bind fun _ => Quiet.onRepo (fun r r' hv hr => by
    cases hr
    exact hv.of_eq rfl rfl) cards

theorem assertStaged_quiet (paths : List String) : Quiet (assertStaged env paths) := fun _ =>
  Keeps.get.bind fun _ => .fromExcept _

theorem stageCardFile_quiet (path : String) : Quiet (stageCardFile env path) := fun cards =>
  (Quiet.onRepo (fun _ _ hv hr => hv.stagePath hr) cards).bind fun _ => assertStaged_quiet _ cards

theorem commit_quiet (message : String) : Quiet (K := K) (commit message) :=
  Quiet.onRepo fun r r' hv hr => by
    cases hr
    exact hv.commit message

theorem replaceCardFile_quiet (card : Card K) (links : List CardLink)
    (milestones : List Milestone) (body : String) (raw : Bytes) :
    Quiet (replaceCardFile env card links milestones body raw) := by
  intro cards
  refine (encodeCardBlob_quiet _ cards).bind fun bytes => .ite (.pure _) ?_
  refine (Quiet.onRepo (fun r r' hv hr => ?_) cards).bind fun _ =>
    (stageCardFile_quiet _ cards).bind fun _ => .pure _
  cases hr
  exact hv.of_eq rfl rfl

theorem ftsUpsertCard_quiet (cardId projectId title body : String) :
    Quiet (ftsUpsertCard env cardId projectId title body) := fun cards =>
  .ite (Quiet.onDb (FtsIndexer.upsertCard_keepsCards _ _ _ _) cards) (.pure _)

theorem setTags_quiet (projectId cardId : String) (tags : List String) (now : Int) :
    Quiet (K := K) (onDb (TagRepo.setTagsForCard projectId cardId tags now)) :=
  Quiet.onDb (TagRepo.setTagsForCard_keepsCards _ _ _ _)

theorem writeContent_quiet (card : Card K) (content : String) (title : Option String)
    (updatedAt : Int) (existing : Option (ParsedCardFile K)) :
    Quiet (writeContent env card content title updatedAt existing) := fun cards =>
  Keeps.get.bind fun _ => (writeCardFile_quiet _ _ _ _ cards).bind fun _ =>
    stageCardFile_quiet _ cards

variable [SortKey K]

/-- With nothing to settle, only the project decides. -/
theorem requireProject_iff_ends {w : World K} (hj : w.journal = none) (projectId : String) :
    Ends (requireProject env projectId) w
      (fun _ w' => w' = w ∧ projectId = env.project.projectId)
      fun _ w' => w' = w ∧ projectId ≠ env.project.projectId := by
  unfold requireProject
  simp only [Ends.bind_iff, Ends.ite_iff, Ends.throw_iff, Ends.pure_iff, Ends.get_iff, hj]
  refine ⟨fun hproj => ⟨trivial, hproj⟩, fun hproj => ?_⟩
  simpa using hproj

theorem requireProject_ends {w : World K} (hj : w.journal = none) (projectId : String) :
    Ends (requireProject env projectId) w
      (fun _ w' => w' = w ∧ projectId = env.project.projectId) fun _ w' => w' = w :=
  (requireProject_iff_ends hj projectId).mono (fun _ _ h => h) fun _ _ h => h.1

/-- Nothing to settle in the project itself. -/
theorem requireProject_iff {w : World K} {projectId : String} {Q : Unit → World K → Prop}
    {E : Exn → World K → Prop} (hj : w.journal = none) (hproj : projectId = env.project.projectId) :
    Ends (requireProject env projectId) w Q E ↔ Q () w := by
  simp [requireProject, hj, hproj]

/-- Reading a card changes nothing. -/
theorem getContent_ends {w : World K} (hj : w.journal = none) (card : Card K) :
    Ends (getContent env card) w (fun _ w' => w' = w) fun _ _ => True := by
  unfold getContent
  refine (requireProject_ends hj _).bind ?_ fun _ _ _ => trivial
  rintro - w1 ⟨rfl, -⟩
  simp only [Ends.bind_iff, Ends.fromExcept_iff, Ends.get_iff]
  refine ⟨fun _ _ => ?_, fun _ _ => trivial⟩
  split
  · rfl
  · simp only [Ends.bind_iff, Ends.fromExcept_iff, Ends.pure_iff, implies_true, and_self]

theorem requireProject_quiet (projectId : String) : Quiet (requireProject env projectId) := by
  intro cards w hw
  refine (requireProject_ends hw.journal projectId).mono ?_ ?_
  · rintro - w' ⟨rfl, -⟩
    exact hw
  · rintro - w' rfl
    exact hw

theorem readCardFile_ends (path : String) (w : World K) :
    Ends (readCardFile env path) w
      (fun r w' => w' = w ∧ w.repo.work[path]? = some r.1 ∧
        ∃ plain, decodeCardBlob env r.1 = .ok plain ∧ r.2 = parseCardFile env.yaml plain)
      fun _ w' => w' = w := by
  unfold readCardFile
  simp only [Ends.bind_iff, Ends.get_iff]
  cases hraw : w.repo.work[path]? with
  | none => simp
  | some raw =>
    simp only [Ends.bind_iff, Ends.fromExcept_iff, Ends.pure_iff]
    exact ⟨fun plain hp => ⟨trivial, trivial, plain, hp, rfl⟩, fun _ _ => trivial⟩

theorem readCardFile_quiet (path : String) : Quiet (readCardFile env path) := by
  intro cards w hw
  refine (readCardFile_ends path w).mono ?_ ?_
  · rintro r w' ⟨rfl, -⟩
    exact hw
  · rintro - w' rfl
    exact hw

theorem existingCardFile_quiet (path : String) : Quiet (existingCardFile env path) := by
  intro cards
  refine Keeps.get.bind fun w => ?_
  split
  · exact .pure _
  · exact (Keeps.fromExcept _).bind fun _ => .pure _

/-! ## Changes with placements -/

/-- The change of a card whose file takes new placement columns and the links of the database. -/
structure PlacementOf (env : Env K) (w : World K) (placed : Card K) (change : CardChange K) :
    Prop where
  length : 4 ≤ placed.cardId.length
  relPath : placed.relPath = livePath placed.cardId
  change : ∃ raw plain, w.repo.work[placed.relPath]? = some raw ∧
    decodeCardBlob env raw = .ok plain ∧ change = ⟨placed, { parseCardFile env.yaml plain with
      card := placed, links := LinkRepo.listOutgoing w.db placed.projectId placed.cardId }⟩

theorem PlacementOf.current {w : World K} {placed : Card K} {change : CardChange K}
    (h : PlacementOf env w placed change) : change.current = placed := by
  obtain ⟨_, _, _, _, rfl⟩ := h.change
  rfl

theorem PlacementOf.card {w : World K} {placed : Card K} {change : CardChange K}
    (h : PlacementOf env w placed change) : change.target.card = placed := by
  obtain ⟨_, _, _, _, rfl⟩ := h.change
  rfl

omit [SortKey K] in
theorem checkRelPath_ok {card : Card K} (h : checkRelPath card = .ok ()) :
    4 ≤ card.cardId.length ∧ card.relPath = livePath card.cardId := by
  unfold checkRelPath at h
  cases hp : cardRelPath card.cardId with
  | error e => rw [hp] at h; cases h
  | ok path =>
    rw [hp] at h
    obtain ⟨hlen, rfl⟩ := cardRelPath_ok_iff.mp hp
    simp only [bind, Except.bind] at h
    split at h
    · cases h
    · next he => exact ⟨hlen, not_not.mp he⟩

theorem placementChange_ends (placed : Card K) (w : World K) :
    Ends (placementChange env placed) w (fun change w' => w' = w ∧ PlacementOf env w placed change)
      fun _ w' => w' = w := by
  unfold placementChange
  simp only [Ends.bind_iff, Ends.fromExcept_iff]
  refine ⟨fun _ hrel => ?_, fun _ _ => trivial⟩
  obtain ⟨hlen, hpath⟩ := checkRelPath_ok hrel
  refine (readCardFile_ends _ w).mono ?_ fun _ _ he => he
  rintro ⟨raw, parsed⟩ w' ⟨rfl, hraw, plain, hplain, rfl⟩
  exact ⟨rfl, hlen, hpath, raw, plain, hraw, hplain, rfl⟩

theorem mapM_placementChange_ends (placements : List (Card K)) (w : World K) :
    Ends (placements.mapM (placementChange env)) w
      (fun changes w' => w' = w ∧ List.Forall₂ (PlacementOf env w) placements changes)
      fun _ w' => w' = w := by
  refine Ends.mapM (I := (· = w)) (fun placed _ s hs => ?_) rfl
  subst hs
  exact placementChange_ends placed s

theorem PlacementOf.ids {w : World K} {placements : List (Card K)} {changes : List (CardChange K)}
    (h : List.Forall₂ (PlacementOf env w) placements changes) :
    changes.map (·.current.cardId) = placements.map (·.cardId) := by
  induction h with
  | nil => rfl
  | cons hc _ ih => simp [ih, hc.current]

theorem applyWithPlacements_ends {current : Card K} {target : ParsedCardFile K}
    {placements : List (Card K)} {message : String} {w : World K} (hv : w.repo.Valid)
    (hid : target.card.cardId = current.cardId) :
    Ends (applyWithPlacements env current target placements message) w
      (fun _ w' => ∃ changes m, List.Forall₂ (PlacementOf env w) placements changes ∧
        PlannedFor env w (⟨current, target⟩ :: changes) message m ∧ Applied m w w' ∧
        w'.journal = none) fun _ w' => Restored w w' := by
  unfold applyWithPlacements
  refine (mapM_placementChange_ends placements w).bind ?_ ?_
  · rintro changes w1 ⟨rfl, hchanges⟩
    have hids : CardChanges (⟨current, target⟩ :: changes) := by
      intro change hc
      rcases List.mem_cons.mp hc with rfl | hc
      · exact hid
      · obtain ⟨placed, -, hp⟩ := hchanges.exists_left hc
        rw [hp.card, hp.current]
    refine (applyCardChanges_ends hids hv).mono ?_ fun _ _ he => he
    rintro - w' ⟨m, hplan, happlied, hj⟩
    exact ⟨changes, m, hchanges, hplan, happlied, hj⟩
  · rintro - w1 rfl
    exact .of_drew (.refl w1)

end CardStore

open CardStore in
/-- What `update_milestone` read before the lock. -/
theorem CardStore.updateMilestoneRead_ok {db : Db K} {projectId cardId milestoneId : String}
    {update : MilestoneUpdate} {updatedAt : Int} {card : Card K} {milestones : List Milestone}
    {updated : Milestone}
    (h : updateMilestoneRead db projectId cardId milestoneId update updatedAt =
      .ok (card, milestones, updated)) :
    CardRepo.get? db cardId = some card ∧ card.projectId = projectId ∧ card.deletedAt = none ∧
      ∃ old, (MilestoneRepo.listForCard db projectId cardId).find? (·.milestoneId == milestoneId) =
        some old ∧ updated = { milestoneUpdated update old with updatedAt } ∧
        milestones = (MilestoneRepo.listForCard db projectId cardId).map
          fun m => if m.milestoneId == milestoneId then updated else m := by
  unfold updateMilestoneRead at h
  split at h
  · next row hrow =>
    obtain ⟨hget, hlive⟩ := Option.filter_eq_some_iff.mp hrow
    simp only [Bool.and_eq_true, beq_iff_eq, Card.live_iff] at hlive
    dsimp only at h
    split at h
    · next old hold =>
      split at h
      · cases h
      · split at h
        · cases h
        · cases h
          exact ⟨hget, hlive.1, hlive.2, old, hold, rfl, rfl⟩
    · cases h
  · cases h

end HolderCore
