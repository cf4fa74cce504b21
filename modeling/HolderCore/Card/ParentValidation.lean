import HolderCore.Card.Repaired

/-! # The check of a parent

`reachable_card_parent` and `validate_card_parent` over any table of cards: with cycles, with parents
that are missing and with cards of other projects. The loop of the first is a relation here, one
constructor for each way a turn can go, so that it is told apart from a bound on its turns. -/

namespace HolderCore

def wouldCreateCycle : Exn := .runtimeError "move_would_create_cycle"

/-- The loop of `reachable_card_parent` from the ids it has visited, the next id and the candidate, to
what it returns or throws. -/
inductive ParentLoop (db : Db K) (card : Card K) :
    List String → Option String → Option String → Except Exn (Option String) → Prop
  | finished : ParentLoop db card visited none candidate (.ok candidate)
  | revisited : next ∈ visited →
      ParentLoop db card visited (some next) candidate (.error wouldCreateCycle)
  | missing : next ∉ visited → CardRepo.get? db next = none →
      ParentLoop db card visited (some next) candidate (.ok none)
  | foreign : next ∉ visited → CardRepo.get? db next = some ancestor →
      ancestor.projectId ≠ card.projectId → ParentLoop db card visited (some next) candidate (.ok none)
  | trashed : next ∉ visited → CardRepo.get? db next = some ancestor →
      ancestor.projectId = card.projectId → ancestor.deletedAt.isSome →
      ParentLoop db card (next :: visited) ancestor.parentCardId none r →
      ParentLoop db card visited (some next) candidate r
  | live : next ∉ visited → CardRepo.get? db next = some ancestor →
      ancestor.projectId = card.projectId → ancestor.deletedAt = none →
      ParentLoop db card (next :: visited) ancestor.parentCardId
        (candidate.or (some ancestor.cardId)) r →
      ParentLoop db card visited (some next) candidate r

/-- Following parents from a pointer: the ids of the cards of the project that are met, and the
pointer that is come to. -/
inductive AncestorPath (find : String → Option (Card K)) :
    Option String → List String → Option String → Prop
  | nil : AncestorPath find next [] next
  | cons : find cardId = some ancestor → AncestorPath find ancestor.parentCardId ids last →
      AncestorPath find (some cardId) (cardId :: ids) last

section
variable {db : Db K} {card : Card K}

/-- A card of the project that is not in the trash. -/
def findLive (db : Db K) (projectId cardId : String) : Option (Card K) :=
  (findCard db projectId cardId).filter (·.live)

/-- Following parents from a card comes back to a card, the card itself included. -/
def Revisits (db : Db K) (card : Card K) : Prop :=
  ∃ ids id, AncestorPath (findCard db card.projectId) card.parentCardId ids (some id) ∧
    id ∈ card.cardId :: ids

/-- The card and all its ancestors are live cards of the project, and the last of them is a root. -/
def LiveToRoot (db : Db K) (projectId cardId : String) : Prop :=
  ∃ ids, AncestorPath (findLive db projectId) (some cardId) ids none

/-- The lowest of the ancestors that are live to the root. -/
def LowestLive (db : Db K) (projectId : String) (parent : Option String) (id : String) : Prop :=
  ∃ ids, AncestorPath (findCard db projectId) parent ids (some id) ∧ LiveToRoot db projectId id ∧
    ∀ below ∈ ids, ¬ LiveToRoot db projectId below

/-! ## The loop ends -/

theorem findCard_of_get {id : String} {ancestor : Card K} (h : CardRepo.get? db id = some ancestor)
    (hproject : ancestor.projectId = card.projectId) :
    findCard db card.projectId id = some ancestor := findCard_eq_some.mpr ⟨h, hproject⟩

theorem findCard_of_missing (card : Card K) {id : String} (h : CardRepo.get? db id = none) :
    findCard db card.projectId id = none := by
  rw [findCard, show db.cards[id]? = none from h, Option.filter_none]

theorem findCard_of_foreign {id : String} {ancestor : Card K} (h : CardRepo.get? db id = some ancestor)
    (hproject : ancestor.projectId ≠ card.projectId) : findCard db card.projectId id = none := by
  rw [findCard, show db.cards[id]? = some ancestor from h, Option.filter_some,
    if_neg (by simpa using hproject)]

/-- A turn of the walk at an id that is new. -/
theorem walkAncestors_turn {find : String → Option (Card K)} {id : String} (hnew : id ∉ visited) :
    walkAncestors find (fuel + 1) visited (some id) candidate =
      match find id with
      | none => .ok none
      | some ancestor => walkAncestors find fuel (id :: visited) ancestor.parentCardId
          (if ancestor.deletedAt.isSome then none else candidate.or (some ancestor.cardId)) := by
  rw [walkAncestors]
  exact if_neg (by simpa using hnew)

/-- With enough turns the walk gives what the loop gives. -/
theorem ParentLoop.walk (h : ParentLoop db card visited next candidate r) : ∃ turns, ∀ fuel ≥ turns,
    walkAncestors (findCard db card.projectId) fuel visited next candidate = r := by
  induction h with
  | finished => exact ⟨0, fun fuel _ => by cases fuel <;> rfl⟩
  | revisited hmem =>
    refine ⟨1, fun fuel hfuel => ?_⟩
    obtain ⟨fuel, rfl⟩ := Nat.exists_eq_add_of_le' hfuel
    rw [walkAncestors, if_pos (by simpa using hmem)]
    rfl
  | missing hnew hget =>
    refine ⟨1, fun fuel hfuel => ?_⟩
    obtain ⟨fuel, rfl⟩ := Nat.exists_eq_add_of_le' hfuel
    rw [walkAncestors_turn hnew, findCard_of_missing _ hget]
  | foreign hnew hget hproject =>
    refine ⟨1, fun fuel hfuel => ?_⟩
    obtain ⟨fuel, rfl⟩ := Nat.exists_eq_add_of_le' hfuel
    rw [walkAncestors_turn hnew, findCard_of_foreign hget hproject]
  | trashed hnew hget hproject htrashed _ ih =>
    obtain ⟨turns, ih⟩ := ih
    refine ⟨turns + 1, fun fuel hfuel => ?_⟩
    obtain ⟨fuel, rfl⟩ := Nat.exists_eq_add_of_le' (Nat.le_of_add_left_le hfuel)
    rw [walkAncestors_turn hnew, findCard_of_get hget hproject]
    dsimp only
    rw [if_pos htrashed]
    exact ih fuel (by omega)
  | live hnew hget hproject hlive _ ih =>
    obtain ⟨turns, ih⟩ := ih
    refine ⟨turns + 1, fun fuel hfuel => ?_⟩
    obtain ⟨fuel, rfl⟩ := Nat.exists_eq_add_of_le' (Nat.le_of_add_left_le hfuel)
    rw [walkAncestors_turn hnew, findCard_of_get hget hproject]
    dsimp only
    rw [if_neg (by simp [hlive])]
    exact ih fuel (by omega)

theorem ParentLoop.deterministic (h : ParentLoop db card visited next candidate r)
    (h' : ParentLoop db card visited next candidate r') : r = r' := by
  obtain ⟨turns, hwalk⟩ := h.walk
  obtain ⟨turns', hwalk'⟩ := h'.walk
  rw [← hwalk (max turns turns') (le_max_left _ _), hwalk' _ (le_max_right _ _)]

/-- How many ids of the table were not visited. -/
def unvisited (db : Db K) (visited : List String) : Nat :=
  (db.cards.keys.filter fun id => !visited.contains id).length

theorem unvisited_cons {id : String} (hnew : id ∉ visited) (hid : id ∈ db.cards) :
    unvisited db (id :: visited) < unvisited db visited := by
  have hfilter : (db.cards.keys.filter fun k => !(id :: visited).contains k) =
      (db.cards.keys.filter fun k => !visited.contains k).filter (· != id) := by
    rw [List.filter_filter]
    apply List.filter_congr
    intro k _
    by_cases hk : k = id <;> simp [hk]
  rw [unvisited, hfilter]
  apply List.length_filter_lt_length_iff_exists.mpr
  exact ⟨id, List.mem_filter.mpr ⟨Std.ExtTreeMap.mem_keys.mpr hid, by simpa using hnew⟩, by simp⟩

/-- The walk has turns enough for every card of the table, so the loop ends. -/
theorem parentLoop_walk (hfuel : unvisited db visited < fuel) :
    ParentLoop db card visited next candidate
      (walkAncestors (findCard db card.projectId) fuel visited next candidate) := by
  induction fuel generalizing visited next candidate with
  | zero => cases hfuel
  | succ fuel ih =>
    cases next with
    | none => exact .finished
    | some id =>
      by_cases hnew : id ∈ visited
      · rw [walkAncestors, if_pos (by simpa using hnew)]
        exact .revisited hnew
      · rw [walkAncestors_turn hnew]
        cases hget : CardRepo.get? db id with
        | none =>
          rw [findCard_of_missing _ hget]
          exact .missing hnew hget
        | some ancestor =>
          by_cases hproject : ancestor.projectId = card.projectId
          · have hturns : unvisited db (id :: visited) < fuel :=
              lt_of_lt_of_le (unvisited_cons hnew (Map.mem_iff.mpr ⟨ancestor, hget⟩))
                (Nat.lt_succ_iff.mp hfuel)
            rw [findCard_of_get hget hproject]
            dsimp only
            cases hdeleted : ancestor.deletedAt with
            | none => exact .live hnew hget hproject hdeleted (ih hturns)
            | some at' => exact .trashed hnew hget hproject (by simp [hdeleted]) (ih hturns)
          · rw [findCard_of_foreign hget hproject]
            exact .foreign hnew hget hproject

/-! ## What the loop gives -/

/-- The loop throws exactly when the way comes back to a card. -/
theorem ParentLoop.error_iff (h : ParentLoop db card visited next candidate r) :
    r = .error wouldCreateCycle ↔ ∃ ids id,
      AncestorPath (findCard db card.projectId) next ids (some id) ∧ id ∈ ids ++ visited := by
  have hturn : ∀ {id : String} {ids visited : List String} {x : String},
      x ∈ ids ++ id :: visited ↔ x ∈ id :: ids ++ visited := by
    intro id ids visited x
    simp only [List.mem_append, List.mem_cons, List.cons_append]
    tauto
  induction h with
  | finished =>
    refine iff_of_false nofun ?_
    rintro ⟨ids, id, hpath, -⟩
    cases hpath
  | revisited hmem => exact iff_of_true rfl ⟨[], _, .nil, hmem⟩
  | missing hnew hget =>
    refine iff_of_false nofun ?_
    rintro ⟨ids, id, hpath, hmem⟩
    cases hpath with
    | nil => exact hnew hmem
    | cons hfind _ =>
      rw [findCard_of_missing _ hget] at hfind
      cases hfind
  | foreign hnew hget hproject =>
    refine iff_of_false nofun ?_
    rintro ⟨ids, id, hpath, hmem⟩
    cases hpath with
    | nil => exact hnew hmem
    | cons hfind _ =>
      rw [findCard_of_foreign hget hproject] at hfind
      cases hfind
  | trashed hnew hget hproject _ _ ih | live hnew hget hproject _ _ ih =>
    refine ih.trans ?_
    constructor
    · rintro ⟨ids, id, hpath, hmem⟩
      exact ⟨_, id, .cons (findCard_of_get hget hproject) hpath, hturn.mp hmem⟩
    · rintro ⟨ids, id, hpath, hmem⟩
      cases hpath with
      | nil => exact absurd hmem hnew
      | cons hfind hpath =>
        rw [findCard_of_get hget hproject] at hfind
        cases hfind
        exact ⟨_, id, hpath, hturn.mpr hmem⟩

theorem findLive_eq_some {projectId id : String} {c : Card K} : findLive db projectId id = some c ↔
    findCard db projectId id = some c ∧ c.deletedAt = none := by
  rw [findLive, Option.filter_eq_some_iff, Card.live_iff]

theorem liveToRoot_iff {projectId id : String} {c : Card K} (h : findCard db projectId id = some c) :
    LiveToRoot db projectId id ↔
      c.deletedAt = none ∧ ∀ p, c.parentCardId = some p → LiveToRoot db projectId p := by
  constructor
  · rintro ⟨ids, hpath⟩
    cases hpath with
    | cons hfind hpath =>
      obtain ⟨hfound, hlive⟩ := findLive_eq_some.mp hfind
      rw [h] at hfound
      cases hfound
      refine ⟨hlive, fun p hp => ?_⟩
      rw [hp] at hpath
      exact ⟨_, hpath⟩
  · rintro ⟨hlive, hparent⟩
    have hfind := findLive_eq_some.mpr ⟨h, hlive⟩
    cases hp : c.parentCardId with
    | none => exact ⟨[id], .cons hfind (by rw [hp]; exact .nil)⟩
    | some p =>
      obtain ⟨ids, hpath⟩ := hparent p hp
      exact ⟨id :: ids, .cons hfind (by rw [hp]; exact hpath)⟩

theorem not_liveToRoot {projectId id : String} (h : findCard db projectId id = none) :
    ¬ LiveToRoot db projectId id := by
  rintro ⟨ids, hpath⟩
  cases hpath with
  | cons hfind _ =>
    rw [(findLive_eq_some.mp hfind).1] at h
    cases h

/-- The way from a card that is live to the root begins with that card. -/
theorem lowestLive_of_live {projectId id : String} (h : LiveToRoot db projectId id) (p : String) :
    LowestLive db projectId (some id) p ↔ p = id := by
  constructor
  · rintro ⟨ids, hpath, -, hbelow⟩
    cases hpath with
    | nil => rfl
    | cons _ _ => exact absurd h (hbelow id List.mem_cons_self)
  · rintro rfl
    exact ⟨[], .nil, h, nofun⟩

/-- A card that is not live to the root is passed over. -/
theorem lowestLive_of_not_live {projectId id : String} {c : Card K}
    (hfind : findCard db projectId id = some c) (h : ¬ LiveToRoot db projectId id) (p : String) :
    LowestLive db projectId (some id) p ↔ LowestLive db projectId c.parentCardId p := by
  constructor
  · rintro ⟨ids, hpath, hlive, hbelow⟩
    cases hpath with
    | nil => exact absurd hlive h
    | cons hfound hpath =>
      rw [hfind] at hfound
      cases hfound
      exact ⟨_, hpath, hlive, fun below hmem => hbelow below (List.mem_cons_of_mem _ hmem)⟩
  · rintro ⟨ids, hpath, hlive, hbelow⟩
    refine ⟨id :: ids, .cons hfind hpath, hlive, fun below hmem => ?_⟩
    obtain rfl | hmem := List.mem_cons.mp hmem
    · exact h
    · exact hbelow below hmem

theorem not_lowestLive {projectId id : String} (h : findCard db projectId id = none) (p : String) :
    ¬ LowestLive db projectId (some id) p := by
  rintro ⟨ids, hpath, hlive, -⟩
  cases hpath with
  | nil => exact not_liveToRoot h hlive
  | cons hfind _ =>
    rw [h] at hfind
    cases hfind

/-- The candidate stands while the rest of the way is live to the root; otherwise the loop gives the
lowest card above that is. -/
theorem ParentLoop.answer (hk : db.Keyed) (h : ParentLoop db card visited next candidate r)
    (hr : r = .ok c) :
    (∀ id, next = some id → LiveToRoot db card.projectId id) ∧ c = candidate.or next ∨
      (∃ id, next = some id ∧ ¬ LiveToRoot db card.projectId id) ∧
        ∀ p, c = some p ↔ LowestLive db card.projectId next p := by
  induction h with
  | finished =>
    cases hr
    exact .inl ⟨nofun, (Option.or_none).symm⟩
  | revisited => cases hr
  | missing _ hget =>
    cases hr
    have hfind := findCard_of_missing card hget
    exact .inr ⟨⟨_, rfl, not_liveToRoot hfind⟩, fun p => iff_of_false nofun (not_lowestLive hfind p)⟩
  | foreign _ hget hproject =>
    cases hr
    have hfind := findCard_of_foreign hget hproject
    exact .inr ⟨⟨_, rfl, not_liveToRoot hfind⟩, fun p => iff_of_false nofun (not_lowestLive hfind p)⟩
  | @trashed visited id ancestor r candidate _ hget hproject htrashed _ ih =>
    have hfind := findCard_of_get hget hproject
    have hnot : ¬ LiveToRoot db card.projectId id := by
      intro hlive
      rw [((liveToRoot_iff hfind).mp hlive).1] at htrashed
      cases htrashed
    refine .inr ⟨⟨id, rfl, hnot⟩, fun p => ?_⟩
    rw [lowestLive_of_not_live hfind hnot]
    obtain ⟨hrest, hc⟩ | ⟨-, hc⟩ := ih hr
    · rw [hc, Option.none_or]
      cases hparent : ancestor.parentCardId with
      | none =>
        refine iff_of_false nofun ?_
        rintro ⟨ids, hpath, -⟩
        cases hpath
      | some q =>
        rw [lowestLive_of_live (hrest q hparent), Option.some.injEq, eq_comm]
    · exact hc p
  | @live visited id ancestor r candidate _ hget hproject hlive _ ih =>
    have hfind := findCard_of_get hget hproject
    have hkey : ancestor.cardId = id := hk id ancestor hget
    obtain ⟨hrest, hc⟩ | ⟨⟨q, hq, hnot⟩, hc⟩ := ih hr
    · refine .inl ⟨?_, ?_⟩
      · rintro _ ⟨⟩
        exact (liveToRoot_iff hfind).mpr ⟨hlive, hrest⟩
      · rw [hc, hkey]
        cases candidate <;> rfl
    · have hnot' : ¬ LiveToRoot db card.projectId id :=
        fun hroot => hnot (((liveToRoot_iff hfind).mp hroot).2 q hq)
      refine .inr ⟨⟨id, rfl, hnot'⟩, fun p => ?_⟩
      rw [lowestLive_of_not_live hfind hnot', hc p]

/-! ## The two functions -/

/-- The loop as `reachable_card_parent` starts it. -/
def ParentResult (db : Db K) (card : Card K) (r : Except Exn (Option String)) : Prop :=
  ParentLoop db card [card.cardId] card.parentCardId none r

theorem parentResult_reachable (db : Db K) (card : Card K) :
    ParentResult db card (reachableCardParent db card) := by
  apply parentLoop_walk
  have hle : unvisited db [card.cardId] ≤ db.cards.keys.length := List.length_filter_le _ _
  rw [Std.ExtTreeMap.length_keys] at hle
  exact Nat.lt_succ_of_le hle

theorem parentResult_error_iff (h : ParentResult db card r) :
    r = .error wouldCreateCycle ↔ Revisits db card := by
  refine h.error_iff.trans (exists₂_congr fun ids id => and_congr_right fun _ => ?_)
  simp [or_comm]

theorem ParentLoop.ok_or_error (h : ParentLoop db card visited next candidate r) :
    r = .error wouldCreateCycle ∨ ∃ c, r = .ok c := by
  induction h with
  | finished | missing | foreign => exact .inr ⟨_, rfl⟩
  | revisited => exact .inl rfl
  | trashed _ _ _ _ _ ih | live _ _ _ _ _ ih => exact ih

theorem parentResult_lowest (hk : db.Keyed) (h : ParentResult db card (.ok c)) (p : String) :
    c = some p ↔ LowestLive db card.projectId card.parentCardId p := by
  obtain ⟨hrest, hc⟩ | ⟨-, hc⟩ := ParentLoop.answer hk h rfl
  · rw [hc, Option.none_or]
    cases hparent : card.parentCardId with
    | none =>
      refine iff_of_false nofun ?_
      rintro ⟨ids, hpath, -⟩
      cases hpath
    | some q => rw [lowestLive_of_live (hrest q hparent), Option.some.injEq, eq_comm]
  · exact hc p

/-- A way that is live and avoids a card, as a path and as a rooted node of the live forest. -/
theorem rooted_avoiding_iff {projectId avoided id : String} :
    Rooted (avoiding (liveUp db projectId) [avoided]) id ↔
      ∃ ids, AncestorPath (findLive db projectId) (some id) ids none ∧ avoided ∉ ids := by
  constructor
  · intro h
    induction h with
    | root h =>
      obtain ⟨hne, hup⟩ := avoiding_eq_some.mp h
      obtain ⟨c, hget, hproject, hlive, hparent⟩ := liveUp_eq_some.mp hup
      refine ⟨[_], .cons (findLive_eq_some.mpr ⟨findCard_eq_some.mpr ⟨hget, hproject⟩, hlive⟩) ?_, ?_⟩
      · rw [hparent]
        exact .nil
      · simpa [eq_comm] using hne
    | step h _ ih =>
      obtain ⟨hne, hup⟩ := avoiding_eq_some.mp h
      obtain ⟨c, hget, hproject, hlive, hparent⟩ := liveUp_eq_some.mp hup
      obtain ⟨ids, hpath, hnot⟩ := ih
      refine ⟨_ :: ids, .cons (findLive_eq_some.mpr ⟨findCard_eq_some.mpr ⟨hget, hproject⟩, hlive⟩) ?_, ?_⟩
      · rw [hparent]
        exact hpath
      · simpa [hnot, eq_comm] using hne
  · rintro ⟨ids, hpath, hnot⟩
    generalize hlast : (none : Option String) = last at hpath
    generalize hfirst : some id = first at hpath
    induction hpath generalizing id with
    | nil =>
      rw [← hlast] at hfirst
      cases hfirst
    | @cons cardId c ids last hfind hpath ih =>
      rw [Option.some.inj hfirst]
      obtain ⟨hfound, hlive⟩ := findLive_eq_some.mp hfind
      obtain ⟨hget, hproject⟩ := findCard_eq_some.mp hfound
      have hup : avoiding (liveUp db projectId) [avoided] cardId = some c.parentCardId := by
        refine avoiding_eq_some.mpr ⟨?_, liveUp_eq_some.mpr ⟨c, hget, hproject, hlive, rfl⟩⟩
        simpa [eq_comm] using fun he : avoided = cardId => hnot (he ▸ List.mem_cons_self)
      have hrest : avoided ∉ ids := fun hmem => hnot (List.mem_cons_of_mem _ hmem)
      cases hparent : c.parentCardId with
      | none => exact .root (by rw [hup, hparent])
      | some p =>
        exact .step (by rw [hup, hparent]) (ih hrest hlast hparent.symm)

/-- The check of a parent on any table of cards: the loop ends with one result; it throws exactly when
the way up comes back to a card; otherwise it gives the lowest ancestor that is live to the root; and
a card passes exactly when its whole way up is live, ends at a root and does not meet the card. -/
theorem parentValidation_exact (hk : db.Keyed) (card : Card K) :
    (∃! r, ParentResult db card r) ∧ ParentResult db card (reachableCardParent db card) ∧
      (reachableCardParent db card = .error wouldCreateCycle ↔ Revisits db card) ∧
      (¬ Revisits db card → ∃ c, reachableCardParent db card = .ok c ∧
        ∀ p, c = some p ↔ LowestLive db card.projectId card.parentCardId p) ∧
      (validateCardParent db card = .ok () ↔ ∃ ids,
        AncestorPath (findLive db card.projectId) card.parentCardId ids none ∧ card.cardId ∉ ids) := by
  have hresult := parentResult_reachable db card
  have herror := parentResult_error_iff hresult
  refine ⟨⟨_, hresult, fun r hr => hr.deterministic hresult⟩, hresult, herror, fun hnot => ?_, ?_⟩
  · obtain he | ⟨c, hc⟩ := hresult.ok_or_error
    · exact absurd (herror.mp he) hnot
    · refine ⟨c, hc, fun p => parentResult_lowest hk ?_ p⟩
      rw [← hc]
      exact hresult
  · rw [validateCardParent_iff hk]
    cases hparent : card.parentCardId with
    | none => exact iff_of_true nofun ⟨[], .nil, List.not_mem_nil⟩
    | some p =>
      rw [← rooted_avoiding_iff]
      exact ⟨fun h => h p rfl, by rintro h _ ⟨⟩; exact h⟩

end

/-- A live card below a trashed one below a root, and two cards each under the other. -/
def tangledCards : Db ℚ :=
  let cards := [mergedCard "root" none 1 none, mergedCard "trashed" (some "root") 1 (some 3),
    mergedCard "child" (some "trashed") 1 none, mergedCard "one" (some "two") 1 none,
    mergedCard "two" (some "one") 1 none]
  { (Db.empty : Db ℚ) with cards := cards.foldl (fun rows card => rows.insert card.cardId card) ∅ }

theorem tangledCards_validation :
    reachableCardParent tangledCards (plainCard "new" "a" (some "child") 1) = .ok (some "root") ∧
      reachableCardParent tangledCards (plainCard "new" "a" (some "one") 1) =
        .error wouldCreateCycle ∧
      Revisits tangledCards (plainCard "new" "a" (some "one") 1) := by
  have hk : tangledCards.Keyed := .of_rows (by decide +kernel)
  have hcycle : reachableCardParent tangledCards (plainCard "new" "a" (some "one") 1) =
      .error wouldCreateCycle := by decide +kernel
  exact ⟨by decide +kernel, hcycle,
    (parentValidation_exact hk (plainCard "new" "a" (some "one") 1)).2.2.1.mp hcycle⟩

end HolderCore
