import HolderCore.Card.MovePlaces

/-! # Trashing

`CardStore::trash`: a promotion puts the live children of a card in its place among its siblings; a
subtree goes to the trash with every live card whose chain of parents leads to its root. -/

namespace HolderCore

/-! ## A card's place in a sorted list -/

section LowerBound
variable [LinearOrder K]

/-- `std::lower_bound` between the cards before a card and those that are not. -/
theorem treeLowerBound_append {front back : List (Card K)} {card : Card K}
    (hfront : ∀ c ∈ front, c.treeKey < card.treeKey)
    (hback : ∀ c ∈ back, card.treeKey ≤ c.treeKey) :
    treeLowerBound (front ++ back) card = front.length := by
  have hstop : back.takeWhile (fun c => cardTreeLess c card) = [] := by
    rw [List.takeWhile_eq_nil_iff]
    intro hne
    rw [Bool.not_eq_true, cardTreeLess_eq_false]
    exact hback _ (List.getElem_mem _)
  unfold treeLowerBound
  rw [List.takeWhile_append_of_pos fun c hc => cardTreeLess_iff.mpr (hfront c hc), hstop,
    List.append_nil]

/-- A sorted list splits where a card belongs. -/
theorem TreeSorted.split {cards : List (Card K)} (h : TreeSorted cards) (card : Card K) :
    ∃ front back, cards = front ++ back ∧ (∀ c ∈ front, c.treeKey < card.treeKey) ∧
      (∀ c ∈ back, card.treeKey ≤ c.treeKey) ∧ treeLowerBound cards card = front.length := by
  set front := cards.takeWhile fun c => cardTreeLess c card
  set back := cards.dropWhile fun c => cardTreeLess c card with hdrop
  have hsplit : cards = front ++ back := List.takeWhile_append_dropWhile.symm
  have hless : ∀ c ∈ front, cardTreeLess c card = true := fun c hc =>
    List.mem_takeWhile_imp (p := fun c => cardTreeLess c card) hc
  refine ⟨front, back, hsplit, fun c hc => cardTreeLess_iff.mp (hless c hc), fun c hc => ?_, rfl⟩
  obtain ⟨first, hfirst, hle⟩ := (h.sublist (hsplit ▸ List.sublist_append_right ..)).head_le hc
  refine le_trans ?_ hle
  have hstop := List.head?_dropWhile_not (fun c => cardTreeLess c card) cards
  rw [← hdrop, hfirst] at hstop
  exact cardTreeLess_eq_false.mp (by simpa using hstop)

/-- Where a card of a sorted list is taken out, its place is found again. -/
theorem TreeSorted.place {front back : List (Card K)} {card anchor : Card K}
    (h : TreeSorted (front ++ card :: back))
    (hnodup : ((front ++ card :: back).map (·.cardId)).Nodup)
    (hkey : anchor.treeKey = card.treeKey) :
    treeLowerBound (front ++ back) anchor = front.length := by
  obtain ⟨-, hback, hfront⟩ := List.pairwise_append.mp h
  rw [List.map_append, List.map_cons, List.nodup_middle] at hnodup
  refine treeLowerBound_append (fun c hc => ?_) fun c hc => ?_
  · rw [hkey]
    refine lt_of_le_of_ne (hfront c hc card List.mem_cons_self) fun he => ?_
    refine (List.nodup_cons.mp hnodup).1 (List.mem_append_left _ ?_)
    exact List.mem_map.mpr ⟨c, hc, cardId_of_treeKey he⟩
  · rw [hkey]
    exact (List.pairwise_cons.mp hback).1 c hc

end LowerBound


/-! ## Trashed rows -/

/-- A card in the trash. -/
def Card.trashed (card : Card K) (deletedAt : Int) : Card K :=
  { card with deletedAt := some deletedAt, updatedAt := deletedAt }

@[simp] theorem Card.trashed_cardId (card : Card K) (deletedAt : Int) :
    (card.trashed deletedAt).cardId = card.cardId := rfl
@[simp] theorem Card.trashed_parentCardId (card : Card K) (deletedAt : Int) :
    (card.trashed deletedAt).parentCardId = card.parentCardId := rfl
@[simp] theorem Card.trashed_deletedAt (card : Card K) (deletedAt : Int) :
    (card.trashed deletedAt).deletedAt = some deletedAt := rfl

/-- In a browsed project the reachable parent of a live card is its own. -/
theorem Browsed.reachable [SortKey K] {env : Env K} {w : World K} (hw : Browsed env w)
    {card : Card K} (hrow : LiveRow w.db card.projectId card) :
    reachableCardParent w.db card = .ok card.parentCardId := by
  have hlive := hw.live
  rw [Forest.LiveRooted, Db.forest_live fun id c hc =>
    (hw.tidy.project id c hc).trans (hw.tidy.project _ _ hrow.row).symm] at hlive
  have hup := liveUp_eq_some.mpr ⟨card, hrow.row, hrow.project, hrow.live, rfl⟩
  cases hp : card.parentCardId with
  | none => simp [reachableCardParent, hp, walkAncestors]
  | some p =>
    rw [hp] at hup
    exact reachableCardParent_of_rooted hw.tidy.keyed hup ((hlive _ _ hup).parent hup) hp

theorem Browsed.parent_ne [SortKey K] {env : Env K} {w : World K} (hw : Browsed env w)
    {card : Card K} (hrow : LiveRow w.db card.projectId card) :
    card.parentCardId ≠ some card.cardId := by
  intro he
  have hreach := hw.reachable hrow
  rw [he] at hreach
  obtain ⟨p, hp⟩ := (reachableCardParent_rooted hw.tidy.keyed hreach).node
  exact (avoiding_eq_some.mp hp).1 (by simp)

section Promotion
variable [SortKey K] {db db' : Db K} {card : Card K} {updatedAt : Int}

omit [SortKey K] in
theorem filter_ne_eq_without (cards : List (Card K)) (id : String) :
    cards.filter (·.cardId != id) = without cards [id] := by
  unfold without
  refine List.filter_congr fun c _ => ?_
  rw [Bool.eq_iff_iff]
  simp

omit [SortKey K] in
theorem without_eq_self {cards : List (Card K)} {gone : List String}
    (h : ∀ c ∈ cards, c.cardId ∉ gone) : without cards gone = cards := by
  unfold without
  rw [List.filter_eq_self]
  intro c hc
  simpa using h c hc

/-- `RowsPlaced.insertion` for the parents as they are. -/
theorem RowsPlaced.insertion_live {projectId : String} {window : BlockWindow K}
    {destination block rows gone : List (Card K)} {index : Nat} {parent : Option String}
    (h : RowsPlaced rows db db') (hk : db.Keyed) (hfits : window.Fits destination index block)
    (hrows : ∀ c, c ∈ rows ↔ c ∈ gone ∨ c ∈ window.changed block parent updatedAt)
    (hgone : ∀ c ∈ gone, c.deletedAt ≠ none)
    (hdest : destination =
      without (liveChildren db projectId parent) ((block ++ gone).map (·.cardId)))
    (hblock : ∀ b ∈ block, b.projectId = projectId ∧ b.deletedAt = none)
    (hnodup : (block.map (·.cardId)).Nodup) :
    liveChildren db' projectId parent = window.placed block parent updatedAt ∧
      ∀ other, other ≠ parent → liveChildren db' projectId other =
        without (liveChildren db projectId other) ((block ++ gone).map (·.cardId)) := by
  have hlive : scopeChildren id db' projectId (id parent) = window.placed block parent updatedAt ∧
      ∀ other, other ≠ id parent → scopeChildren id db' projectId other =
        without (scopeChildren id db projectId other) ((block ++ gone).map (·.cardId)) :=
    h.insertion hk hfits hrows hgone hdest hblock hnodup
  exact hlive

/-- A promotion inserts the live children at the place of the card in the list without it. -/
theorem promotedCardChildren_window (hk : db.Keyed) (hrow : LiveRow db card.projectId card)
    (hreach : reachableCardParent db card = .ok card.parentCardId) {changed : List (Card K)}
    (h : promotedCardChildren db card updatedAt = .ok changed) :
    ∃ front back, liveChildren db card.projectId card.parentCardId = front ++ card :: back ∧
      (liveChildren db card.projectId (some card.cardId) = [] ∧ changed = [] ∨
        ∃ window : BlockWindow K, window.Fits (front ++ back) front.length
            (liveChildren db card.projectId (some card.cardId)) ∧
          changed = window.changed (liveChildren db card.projectId (some card.cardId))
            card.parentCardId updatedAt) := by
  obtain ⟨front, back, hsplit⟩ := List.mem_iff_append.mp ((mem_liveChildren hk).mpr ⟨hrow, rfl⟩)
  refine ⟨front, back, hsplit, ?_⟩
  have hnodup := liveOrder_nodup hk card.projectId card.parentCardId
  rw [liveOrder, hsplit] at hnodup
  have hdest : (siblings db card).filter (·.cardId != card.cardId) = front ++ back := by
    rw [siblings_eq hk, filter_ne_eq_without]
    exact without_split (hsplit ▸ hnodup) hsplit
  have hplace : treeLowerBound (front ++ back) card = front.length :=
    TreeSorted.place (hsplit ▸ scopeChildren_sorted ..) hnodup rfl
  unfold promotedCardChildren at h
  rw [hreach] at h
  simp only [bind, Except.bind, siblings_eq hk { card with parentCardId := some card.cardId }] at h
  split at h
  · next hempty =>
    cases h
    exact .inl ⟨List.isEmpty_iff.mp hempty, rfl⟩
  · next hempty =>
    change insertBlock ((siblings db card).filter (·.cardId != card.cardId))
      (treeLowerBound ((siblings db card).filter (·.cardId != card.cardId)) card) _ _ _ = _ at h
    rw [hdest, hplace] at h
    unfold insertBlock at h
    cases hins : insertBlockInto (front ++ back) front.length
        (liveChildren db card.projectId (some card.cardId)) card.parentCardId updatedAt with
    | error e =>
      rw [hins] at h
      cases h
    | ok result =>
      rw [hins] at h
      cases h
      obtain ⟨window, hfits, -, hchanged⟩ :=
        insertBlockInto_window (by simpa using hempty) (by simp) hins
      exact .inr ⟨window, hfits, hchanged⟩

/-- The live orders once the rows of a promotion are stored. -/
theorem RowsPlaced.promotion {rows front back : List (Card K)} {deletedAt : Int}
    (hrows : RowsPlaced (card.trashed deletedAt :: rows) db db') (hk : db.Keyed)
    (hrow : LiveRow db card.projectId card) (hself : card.parentCardId ≠ some card.cardId)
    (hsplit : liveChildren db card.projectId card.parentCardId = front ++ card :: back)
    (hchanged : liveChildren db card.projectId (some card.cardId) = [] ∧ rows = [] ∨
        ∃ window : BlockWindow K, window.Fits (front ++ back) front.length
            (liveChildren db card.projectId (some card.cardId)) ∧
          rows = window.changed (liveChildren db card.projectId (some card.cardId))
            card.parentCardId deletedAt) :
    liveOrder db' card.projectId card.parentCardId = front.map (·.cardId) ++
        liveOrder db card.projectId (some card.cardId) ++ back.map (·.cardId) ∧
      liveOrder db' card.projectId (some card.cardId) = [] ∧
      ∀ parent, parent ≠ card.parentCardId → parent ≠ some card.cardId →
        liveOrder db' card.projectId parent = liveOrder db card.projectId parent := by
  have hk' := hrows.keyed hk
  have hnodup := liveOrder_nodup hk card.projectId card.parentCardId
  rw [liveOrder] at hnodup
  have hcut := without_split hnodup hsplit
  have hother : ∀ parent, parent ≠ card.parentCardId →
      ∀ c ∈ liveChildren db card.projectId parent, c.cardId ≠ card.cardId := by
    intro parent hne c hc he
    obtain ⟨hcrow, hpar⟩ := (mem_liveChildren hk).mp hc
    have hsame := hcrow.row
    rw [he, hrow.row] at hsame
    exact hne (by rw [← hpar, ← Option.some.inj hsame])
  set children := liveChildren db card.projectId (some card.cardId) with hchildren
  have hchild : ∀ parent, parent ≠ some card.cardId →
      ∀ c ∈ liveChildren db card.projectId parent, c.cardId ∉ children.map (·.cardId) := by
    intro parent hne c hc hmem
    obtain ⟨b, hb, he⟩ := List.mem_map.mp hmem
    obtain ⟨hcrow, hpar⟩ := (mem_liveChildren hk).mp hc
    obtain ⟨hbrow, hbpar⟩ := (mem_liveChildren hk).mp hb
    have hsame := hbrow.row
    rw [he, hcrow.row] at hsame
    exact hne (by rw [← hpar, Option.some.inj hsame, hbpar])
  rcases hchanged with ⟨hempty, rfl⟩ | ⟨window, hfits, rfl⟩
  · have hlost : ∀ parent, liveChildren db' card.projectId parent =
        without (liveChildren db card.projectId parent) [card.cardId] := by
      intro parent
      refine scopeChildren_filter hk hk' fun c => ?_
      rw [hrows.liveRow_iff]
      simp only [List.mem_singleton, forall_eq, Card.trashed_cardId]
      constructor
      · rintro ⟨⟨rfl, -, hdel⟩ | ⟨hne, hc⟩, hpar⟩
        · cases hdel
        · exact ⟨⟨hc, hpar⟩, by simpa using Ne.symm hne⟩
      · rintro ⟨⟨hc, hpar⟩, hne⟩
        have hne : c.cardId ≠ card.cardId := by simpa using hne
        exact ⟨.inr ⟨Ne.symm hne, hc⟩, hpar⟩
    refine ⟨?_, ?_, fun parent hne hnec => ?_⟩
    · rw [liveOrder, hlost, hcut, liveOrder, ← hchildren, hempty]
      simp
    · rw [liveOrder, hlost, ← hchildren, hempty]
      rfl
    · rw [liveOrder, hlost, without_eq_self fun c hc => by simpa using hother parent hne c hc]
      rfl
  · have hdest : front ++ back = without (liveChildren db card.projectId card.parentCardId)
        ((children ++ [card.trashed deletedAt]).map (·.cardId)) := by
      have hfresh := without_eq_self (hchild card.parentCardId hself)
      rw [← hcut]
      nth_rewrite 1 [← hfresh]
      unfold without
      rw [List.filter_filter]
      refine List.filter_congr fun c _ => ?_
      simp [Bool.and_comm]
    have hmem : ∀ c, c ∈ card.trashed deletedAt :: window.changed children card.parentCardId
        deletedAt ↔ c ∈ [card.trashed deletedAt] ∨
          c ∈ window.changed children card.parentCardId deletedAt := by simp
    obtain ⟨hplaced, hrest⟩ := hrows.insertion_live hk hfits hmem (by simp) hdest
      (fun b hb => by
        obtain ⟨hb, -⟩ := (mem_liveChildren hk).mp hb
        exact ⟨hb.project, hb.live⟩) (liveOrder_nodup hk _ _)
    refine ⟨?_, ?_, fun parent hne hnec => ?_⟩
    · rw [liveOrder, hplaced, hfits.placed_ids, List.take_left, List.drop_left]
      simp [liveOrder, ← hchildren]
    · rw [liveOrder, hrest (some card.cardId) (Ne.symm hself), List.map_eq_nil_iff,
        List.eq_nil_iff_forall_not_mem]
      intro c hc
      obtain ⟨hc, hnot⟩ := mem_without.mp hc
      refine hnot (List.mem_map.mpr ⟨c, List.mem_append_left _ hc, rfl⟩)
    · rw [liveOrder, hrest parent hne, without_eq_self fun c hc => ?_]
      · rfl
      · rw [List.map_append, List.mem_append, not_or]
        exact ⟨hchild parent hnec c hc, by simpa using hother parent hne c hc⟩

end Promotion

namespace CardStore
variable [SortKey K] {env : Env K} {w w' : World K}

/-- The rows that a trash of a card stores. -/
inductive TrashRows (db : Db K) (card : Card K) (deletedAt : Int) :
    TrashChildren → List (Card K) → Prop
  | promote : promotedCardChildren db card deletedAt = .ok placements →
    TrashRows db card deletedAt .promote (card.trashed deletedAt :: placements)
  | trashSubtree : TrashRows db card deletedAt .trashSubtree
    ((card :: liveDescendants db card.projectId card.cardId).map (·.trashed deletedAt))

/-- The rows after a whole subtree went to the trash. -/
theorem rowsPlaced_of_trashed {cards : List (Card K)} {changes : List (CardChange K)}
    {deletedAt : Int} (hrows : ∀ c ∈ cards, w.db.cards[c.cardId]? = some c)
    (hchanges : List.Forall₂ (TrashedOf env w deletedAt) cards changes)
    (h : CardsChanged (changes.map (·.prepared.target)) w.db w'.db) :
    RowsPlaced (cards.map (·.trashed deletedAt)) w.db w'.db := by
  refine ⟨fun c hc => ?_, fun id hfree => h.kept id fun record hr => ?_⟩
  · obtain ⟨live, hlive, rfl⟩ := List.mem_map.mp hc
    obtain ⟨change, hmem, placement, hp, rfl⟩ := hchanges.exists_right hlive
    have hchanged := h.changed _ (List.mem_map.mpr ⟨_, hmem, rfl⟩)
    simp only [CardChange.prepared, hp.current, ← hp.relPath] at hchanged
    refine hchanged.trans ?_
    change w.db.cards[live.cardId]?.map (·.snapshot (live.trashed deletedAt)) = _
    rw [hrows live hlive, Option.map_some]
    exact congrArg some (Card.snapshot_eq rfl rfl rfl)
  · obtain ⟨change, hmem, rfl⟩ := List.mem_map.mp hr
    obtain ⟨live, hlive, ht⟩ := hchanges.exists_left hmem
    simpa [CardChange.prepared, ht.card] using
      hfree (live.trashed deletedAt) (List.mem_map.mpr ⟨live, hlive, rfl⟩)

theorem trashLocked_rows (projectId cardId : String) (deletedAt : Int) (mode : TrashChildren)
    (hw : Tidy env w) :
    Ends (trashLocked env projectId cardId deletedAt mode) w
      (fun _ w' => Tidy env w' ∧ ∃ card rows, w.db.cards[cardId]? = some card ∧
        card.deletedAt = none ∧ TrashRows w.db card deletedAt mode rows ∧
          RowsPlaced rows w.db w'.db) fun _ _ => True := by
  unfold trashLocked
  refine (requireProject_ends hw.journal _).bind ?_ fun _ _ _ => trivial
  rintro - w1 ⟨rfl, hproj⟩
  refine (rereadCard_ends cardId w1).bind ?_ fun _ _ _ => trivial
  rintro card w2 ⟨rfl, hcard⟩
  have hid := hw.keyed _ _ hcard
  have hown := hw.project _ _ hcard
  simp only [Ends.bind_iff, Ends.get_iff, Ends.fromExcept_iff, Ends.ite_iff, Ends.throw_iff]
  refine ⟨fun _ => trivial, fun hlive => ⟨fun _ hrel => ?_, fun _ _ => trivial⟩⟩
  have hlive : card.deletedAt = none := by simpa using hlive
  obtain ⟨-, hpath⟩ := checkRelPath_ok hrel
  refine (trashedChange_ends deletedAt card w2).mono ?_ fun _ _ _ => trivial
  rintro change w3 ⟨rfl, hchange⟩
  have hrow : w3.db.cards[card.cardId]? = some card := by rw [hid]; exact hcard
  have htarget : change.target.card = card.trashed deletedAt := hchange.card
  cases mode with
  | promote =>
    simp only [Ends.bind_iff, Ends.fromExcept_iff]
    refine ⟨fun placements hprom => ?_, fun _ _ => trivial⟩
    obtain ⟨r, -, hplaced, -, -⟩ := promotedCardChildren_ok hw.keyed hprom
    refine Ends.mono (applyWithPlacements_rows hw (by rw [htarget]; rfl) (by rw [htarget]; rfl)
      (by rw [htarget]; rfl) (by rw [htarget]; exact hpath) hrow
      (promotedCardChildren_nodup hw.keyed hrow hprom) fun c hc => ?_) ?_ fun _ _ _ => trivial
    · obtain ⟨b, key, rfl, hb, -⟩ := hplaced c hc
      exact ⟨b, r, key, deletedAt, rfl, hb.row⟩
    · rintro - w4 ⟨hw4, hrows⟩
      rw [htarget] at hrows
      exact ⟨hw4, card, _, hcard, hlive, .promote hprom, hrows⟩
  | trashSubtree =>
    obtain ⟨hdesc, hnodup, -⟩ := liveDescendants_spec hw.keyed env.project.projectId hcard
    refine (Ends.mapM (I := (· = w3)) (R := TrashedOf env w3 deletedAt) (fun c _ s hs => ?_)
      rfl).bind ?_ fun _ _ _ => trivial
    · subst hs
      exact trashedChange_ends deletedAt c s
    · rintro changes w4 ⟨rfl, hchanges⟩
      have hall : List.Forall₂ (TrashedOf env w4 deletedAt)
          (card :: liveDescendants w4.db env.project.projectId cardId) (change :: changes) :=
        .cons hchange hchanges
      have hids : CardChanges (change :: changes) := by
        intro change hc
        obtain ⟨c, -, ht⟩ := hall.exists_left hc
        rw [ht.card, ht.current]
      have hmap : (change :: changes).map (·.current.cardId) =
          cardId :: (liveDescendants w4.db env.project.projectId cardId).map (·.cardId) := by
        rw [TrashedOf.ids hall, List.map_cons, hid]
      refine (applyCardChanges_ends hids hw.valid).mono ?_ fun _ _ _ => trivial
      rintro - w5 ⟨m, hplan, happlied, hj⟩
      have hcards := hplan.cardsChanged hw.keyed hids (hmap ▸ hnodup)
      rw [← happlied.db] at hcards
      refine ⟨happlied.tidy hplan hj hw, card, _, hcard, hlive, .trashSubtree, ?_⟩
      rw [hown, hid]
      refine rowsPlaced_of_trashed (fun c hc => ?_) hall hcards
      rcases List.mem_cons.mp hc with rfl | hc
      · exact hrow
      · exact (hdesc c hc).1

theorem trash_rows {cardId : String} {deletedAt : Int} {mode : TrashChildren} {result : Result K}
    (hw : Tidy env w) (h : (Call.trash cardId deletedAt mode).run env w = .ok result w') :
    Tidy env w' ∧ ∃ card rows, w.db.cards[cardId]? = some card ∧ card.deletedAt = none ∧
      TrashRows w.db card deletedAt mode rows ∧ RowsPlaced rows w.db w'.db := by
  refine (show Ends ((Call.trash cardId deletedAt mode).run env) w (fun _ w' => Tidy env w' ∧
    ∃ card rows, w.db.cards[cardId]? = some card ∧ card.deletedAt = none ∧
      TrashRows w.db card deletedAt mode rows ∧ RowsPlaced rows w.db w'.db) fun _ _ => True from ?_).ok h
  unfold Call.run
  simp only [Ends.bind_iff, Ends.get_iff, Call.enter, withCard]
  split
  · trivial
  · exact (trashLocked_rows _ _ _ _ hw).bind (fun _ _ h => h) fun _ _ h => h

/-- Promotion takes the card out of its parent's live order and puts its live children in its place,
in their order. No other live order changes, and of the rows only those of the card, its live
children and some siblings do; the siblings keep their parent. -/
theorem trash_promotes {cardId : String} {deletedAt : Int} {result : Result K} (hw : Browsed env w)
    (h : (Call.trash cardId deletedAt .promote).run env w = .ok result w') :
    ∃ card front back, w.db.cards[cardId]? = some card ∧
      liveOrder w.db card.projectId card.parentCardId = front ++ cardId :: back ∧
      liveOrder w'.db card.projectId card.parentCardId =
        front ++ liveOrder w.db card.projectId (some cardId) ++ back ∧
      liveOrder w'.db card.projectId (some cardId) = [] ∧
      (∀ parent, parent ≠ card.parentCardId → parent ≠ some cardId →
        liveOrder w'.db card.projectId parent = liveOrder w.db card.projectId parent) ∧
      w'.db.cards[cardId]? = some (card.trashed deletedAt) ∧
      ∀ (id : String) c, w.db.cards[id]? = some c → id ≠ cardId →
        (c.deletedAt ≠ none → w'.db.cards[id]? = some c) ∧
        ((c.deletedAt = none → c.parentCardId ≠ some cardId) →
          ∃ c', w'.db.cards[id]? = some c' ∧ c'.parentCardId = c.parentCardId ∧
            c'.deletedAt = c.deletedAt) := by
  obtain ⟨hw', card, rows, hcard, hlive, htrash, hrows⟩ := trash_rows hw.tidy h
  cases htrash with
  | @promote placements hprom =>
  have hk := hw.tidy.keyed
  obtain rfl := hk _ _ hcard
  have hrow : LiveRow w.db card.projectId card := ⟨hcard, rfl, hlive⟩
  have hreach := hw.reachable hrow
  have hself := hw.parent_ne hrow
  obtain ⟨front, back, hsplit, hwindow⟩ := promotedCardChildren_window hk hrow hreach hprom
  obtain ⟨horder, hgone, hothers⟩ := hrows.promotion hk hrow hself hsplit hwindow
  have hplaced := promotedCardChildren_ok hk hprom
  rw [hreach] at hplaced
  obtain ⟨r, hr, hplaced, -, -⟩ := hplaced
  cases hr
  refine ⟨card, front.map (·.cardId), back.map (·.cardId), hcard, by simp [liveOrder, hsplit],
    horder, hgone, hothers, hrows.placed _ List.mem_cons_self, fun id c hc hne => ?_⟩
  obtain rfl := hk _ _ hc
  have hkept : (∀ p ∈ placements, p.cardId ≠ c.cardId) → w'.db.cards[c.cardId]? = some c := by
    intro hfree
    rw [hrows.kept c.cardId fun r hr => ?_, hc]
    rcases List.mem_cons.mp hr with rfl | hr
    · exact Ne.symm hne
    · exact hfree r hr
  have hrowOf : ∀ b, LiveRow w.db card.projectId b → b.cardId = c.cardId → b = c := by
    intro b hb he
    have hb := hb.row
    rw [he, hc] at hb
    exact (Option.some.inj hb).symm
  refine ⟨fun hdel => hkept fun p hp he => ?_, fun hnot => ?_⟩
  · obtain ⟨b, key, rfl, hb, -⟩ := hplaced p hp
    exact hdel (hrowOf b hb he ▸ hb.live)
  · by_cases hmem : ∃ p ∈ placements, p.cardId = c.cardId
    · obtain ⟨p, hp, he⟩ := hmem
      obtain ⟨b, key, rfl, hb, hpar⟩ := hplaced p hp
      obtain rfl := hrowOf b hb he
      refine ⟨b.placed card.parentCardId key deletedAt,
        hrows.placed _ (List.mem_cons_of_mem _ hp), ?_, rfl⟩
      rcases hpar with hpar | ⟨hpar, -⟩
      · exact absurd hpar (hnot hb.live)
      · exact hpar.symm
    · exact ⟨c, hkept fun p hp he => hmem ⟨p, hp, he⟩, rfl, rfl⟩

/-- A subtree goes to the trash exactly: the walk ends with nothing left to visit, and each card
whose chain of parents, live or trashed, leads to the root is trashed if it was live. Every other row
stays as it is. -/
theorem trash_subtree {cardId : String} {card : Card K} (hw : Tidy env w)
    (hcard : w.db.cards[cardId]? = some card) :
    (walkSubtree (CardRepo.listChildren w.db card.projectId) (w.db.cards.size + 1)
      ⟨[cardId], [cardId], []⟩).pending = [] ∧
    ∀ deletedAt result w', (Call.trash cardId deletedAt .trashSubtree).run env w = .ok result w' →
      card.deletedAt = none ∧ ∀ id : String,
        (w.db.cards[id]? = none → w'.db.cards[id]? = none) ∧
        ∀ c, w.db.cards[id]? = some c →
          (c.deletedAt = none ∧ Relation.ReflTransGen (ParentStep (cardUp w.db)) id cardId →
            w'.db.cards[id]? = some (c.trashed deletedAt)) ∧
          (¬(c.deletedAt = none ∧ Relation.ReflTransGen (ParentStep (cardUp w.db)) id cardId) →
            w'.db.cards[id]? = some c) := by
  have hk := hw.keyed
  refine ⟨(walkSubtree_finished hk card.projectId hcard).choose_spec.2,
    fun deletedAt result w' h => ?_⟩
  obtain ⟨-, card', rows, hcard', hlive, htrash, hrows⟩ := trash_rows hw h
  obtain rfl : card' = card := Option.some.inj (hcard'.symm.trans hcard)
  obtain rfl := hk _ _ hcard
  cases htrash with
  | trashSubtree =>
  have hdesc : ∀ c, c ∈ liveDescendants w.db card'.projectId card'.cardId ↔ _ := fun c =>
    mem_liveDescendants hk hcard fun id c hc => (hw.project id c hc).trans (hw.project _ _ hcard).symm
  have hmember : ∀ (id : String) c, w.db.cards[id]? = some c →
      (c ∈ card' :: liveDescendants w.db card'.projectId card'.cardId ↔ c.deletedAt = none ∧
        Relation.ReflTransGen (ParentStep (cardUp w.db)) id card'.cardId) := by
    intro id c hc
    obtain rfl := hk _ _ hc
    rw [List.mem_cons, hdesc]
    constructor
    · rintro (rfl | ⟨-, hlive, -, hchain⟩)
      · exact ⟨hlive, .refl⟩
      · exact ⟨hlive, hchain⟩
    · rintro ⟨hlive, hchain⟩
      by_cases he : c.cardId = card'.cardId
      · rw [he, hcard] at hc
        exact .inl (Option.some.inj hc).symm
      · exact .inr ⟨hc, hlive, he, hchain⟩
  have hrowOf : ∀ c ∈ card' :: liveDescendants w.db card'.projectId card'.cardId,
      w.db.cards[c.cardId]? = some c := by
    intro c hc
    rcases List.mem_cons.mp hc with rfl | hc
    · exact hcard
    · exact ((hdesc c).mp hc).1
  have hkept : ∀ id : String, (∀ c ∈ card' :: liveDescendants w.db card'.projectId card'.cardId,
      c.cardId ≠ id) → w'.db.cards[id]? = w.db.cards[id]? := by
    refine fun id hfree => hrows.kept id fun r hr => ?_
    obtain ⟨c, hc, rfl⟩ := List.mem_map.mp hr
    exact hfree c hc
  refine ⟨hlive, fun id => ⟨fun hnone => ?_, fun c hc => ⟨fun h => ?_, fun h => ?_⟩⟩⟩
  · rw [hkept id fun c hc he => ?_, hnone]
    have hrow := hrowOf c hc
    rw [he, hnone] at hrow
    cases hrow
  · obtain rfl := hk _ _ hc
    exact hrows.placed _ (List.mem_map.mpr ⟨c, (hmember _ c hc).mpr h, rfl⟩)
  · rw [hkept id fun d hd he => ?_, hc]
    have hrow := hrowOf d hd
    rw [he, hc] at hrow
    cases hrow
    exact h ((hmember id c hc).mp hd)

end CardStore

theorem twoRoots_promoted : ∃ result w',
    (Call.trash "bbbb" 9 .promote).run (plainEnv fun _ => []) twoRoots = .ok result w' ∧
      [none].map (liveOrder w'.db "home") = [["aaaa", "cccc", "dddd"]] :=
  ordersAfter_some (by decide +kernel)

theorem twoRoots_promotes : ∃ (w' : World ℚ) (card : Card ℚ) (front back : List String),
    liveOrder twoRoots.db card.projectId card.parentCardId = front ++ "bbbb" :: back ∧
    liveOrder w'.db card.projectId card.parentCardId =
      front ++ liveOrder twoRoots.db card.projectId (some "bbbb") ++ back ∧
    w'.db.cards["bbbb"]? = some (card.trashed 9) := by
  obtain ⟨result, w', hrun, -⟩ := twoRoots_promoted
  obtain ⟨card, front, back, -, hbefore, hafter, -, -, hrow, -⟩ :=
    CardStore.trash_promotes (runCalls_browsed _ _) hrun
  exact ⟨w', card, front, back, hbefore, hafter, hrow⟩

theorem twoRoots_binned : ∃ result w',
    (Call.trash "bbbb" 9 .trashSubtree).run (plainEnv fun _ => []) twoRoots = .ok result w' ∧
      [none, some "bbbb"].map (liveOrder w'.db "home") = [["aaaa"], []] :=
  ordersAfter_some (by decide +kernel)

theorem twoRoots_subtree : ∃ (w' : World ℚ) (c : Card ℚ), twoRoots.db.cards["dddd"]? = some c ∧
    w'.db.cards["dddd"]? = some (c.trashed 9) := by
  obtain ⟨card, hcard⟩ := Option.isSome_iff_exists.mp
    (show twoRoots.db.cards["bbbb"]?.isSome = true by decide +kernel)
  obtain ⟨c, hc, hlive⟩ := (Option.any_eq_true _ _).mp
    (show twoRoots.db.cards["dddd"]?.any (fun c => c.deletedAt.isNone) = true by decide +kernel)
  obtain ⟨result, w', hrun, -⟩ := twoRoots_binned
  obtain ⟨-, hbinned⟩ := CardStore.trash_subtree (runCalls_browsed _ _).tidy hcard
  obtain ⟨-, hbinned⟩ := hbinned _ _ _ hrun
  have hchain : cardUp twoRoots.db "dddd" = some (some "bbbb") := by decide +kernel
  exact ⟨w', c, hc, ((hbinned "dddd").2 c hc).1 ⟨by simpa using hlive, .single hchain⟩⟩

end HolderCore
