import HolderCore.Card.LiveOrder
import HolderCore.Card.Runs

/-! # Moves

`CardStore::move_to`: a landing names a parent and an index among its other live children, the
insertion gives the card its key there, and the card's row and those of the siblings that make room
are stored. -/

namespace HolderCore

section
variable [SortKey K] {db db' : Db K} {projectId cardId : String}

omit [SortKey K] in
/-- The moved card among the changes of an insertion that moves it alone. -/
theorem filter_cardId {changed : List (Card K)} (hnodup : (changed.map (·.cardId)).Nodup)
    {c : Card K} (hc : c ∈ changed) : changed.filter (·.cardId == c.cardId) = [c] := by
  induction changed with
  | nil => cases hc
  | cons d changed ih =>
    obtain ⟨hfresh, hnodup⟩ := List.nodup_cons.mp hnodup
    rcases List.mem_cons.mp hc with rfl | hc
    · rw [List.filter_cons_of_pos (by simp), List.filter_eq_nil_iff.mpr]
      intro d hd he
      exact hfresh (List.mem_map.mpr ⟨d, hd, by simpa using he⟩)
    · rw [List.filter_cons_of_neg, ih hnodup hc]
      intro he
      exact hfresh (List.mem_map.mpr ⟨c, hc, by simpa using Eq.symm (by simpa using he)⟩)

/-- A card inserted alone has one change, its own; the others are siblings. -/
theorem BlockWindow.Fits.own_change {source : Card K} {window : BlockWindow K}
    {destination : List (Card K)} {index : Nat} (hfits : window.Fits destination index [source])
    (parent : Option String) (updatedAt : Int)
    (hnodup : ((destination ++ [source]).map (·.cardId)).Nodup) :
    ∃ key, (window.changed [source] parent updatedAt).filter (·.cardId == source.cardId) =
        [source.placed parent key updatedAt] ∧
      ∀ c, c ∈ source.placed parent key updatedAt ::
          (window.changed [source] parent updatedAt).filter (·.cardId != source.cardId) ↔
        c ∈ window.changed [source] parent updatedAt := by
  obtain ⟨d, hd, hid⟩ := hfits.block_changed parent updatedAt (List.mem_singleton_self source)
  have hchanged := hfits.changed_nodup parent updatedAt hnodup
  have hown : (window.changed [source] parent updatedAt).filter (·.cardId == source.cardId) =
      [d] := by
    rw [← hid]
    exact filter_cardId hchanged hd
  obtain ⟨b, p, key, rfl, ⟨hb, rfl⟩ | ⟨hb, rfl⟩⟩ := hfits.changed_card hd
  · obtain rfl := List.mem_singleton.mp hb
    refine ⟨key, hown, fun c => ?_⟩
    rw [List.mem_cons, List.mem_filter, bne_iff_ne]
    constructor
    · rintro (rfl | ⟨hc, -⟩)
      · exact hd
      · exact hc
    · intro hc
      by_cases he : c.cardId = b.cardId
      · have hmem : c ∈ (window.changed [b] p updatedAt).filter (·.cardId == b.cardId) :=
          List.mem_filter.mpr ⟨hc, by simpa using he⟩
        rw [hown] at hmem
        exact .inl (List.mem_singleton.mp hmem)
      · exact .inr ⟨hc, he⟩
  · rw [List.map_append] at hnodup
    exact absurd (List.mem_singleton.mpr hid)
      (List.disjoint_of_nodup_append hnodup (List.mem_map.mpr ⟨b, hb, rfl⟩))

namespace CardPlacementResolver

theorem siblingsForParent_eq (hk : db.Keyed) (projectId : String) (parent : Option String)
    (excluded : String) : siblingsForParent db projectId parent excluded =
      without (scopeChildren normalizeParentId db projectId (normalizeParentId parent))
        [excluded] := by
  unfold siblingsForParent
  have hnodup := nodup_without (scopeChildren_nodup hk normalizeParentId projectId
    (normalizeParentId parent)) [excluded]
  refine treeSort_eq_of_perm ?_ ((scopeChildren_sorted ..).without _) hnodup
  have hrows : (((CardRepo.listAll db projectId).filter fun c => c.live && c.cardId != excluded &&
      normalizeParentId c.parentCardId == normalizeParentId parent).map (·.cardId)).Nodup :=
    (List.filter_sublist.map _).nodup (nodup_listWhere hk _)
  rw [List.perm_ext_iff_of_nodup (.of_map _ hrows) (.of_map _ hnodup)]
  intro c
  rw [mem_without, mem_scopeChildren hk]
  simp only [List.mem_filter, CardRepo.listAll, mem_listWhere, mem_rows_iff hk, Bool.and_eq_true,
    beq_iff_eq, bne_iff_ne, Card.live_iff, List.mem_singleton]
  constructor
  · rintro ⟨⟨hrow, hproj⟩, ⟨hlive, hne⟩, hpar⟩
    exact ⟨⟨⟨hrow, hproj, hlive⟩, hpar⟩, hne⟩
  · rintro ⟨⟨⟨hrow, hproj, hlive⟩, hpar⟩, hne⟩
    exact ⟨⟨hrow, hproj⟩, ⟨hlive, hne⟩, hpar⟩

/-- The result for a landing where nothing moves. -/
def stays (source : Card K) (landing : Landing K) : CardPlacementResult K where
  parentCardId := normalizeParentId source.parentCardId
  sortKey := source.sortKey
  movedIntoTitle := landing.movedIntoTitle
  siblingChanges := []

/-- The result for a landing whose insertion changes some cards. -/
def moves (source : Card K) (landing : Landing K) (changed : List (Card K)) :
    CardPlacementResult K where
  parentCardId := landing.parent
  sortKey := (changed.filter (·.cardId == source.cardId)).getLast?.elim ((0 : Nat) : K) (·.sortKey)
  movedIntoTitle := landing.movedIntoTitle
  siblingChanges := changed.filter (·.cardId != source.cardId)

/-- How a placement comes about. -/
inductive Resolved (source : Card K) (updatedAt : Int) (landing : Landing K) :
    CardPlacementResult K → Prop
  | stays : landing.index = none → Resolved source updatedAt landing (stays source landing)
  | moves : landing.index = some index →
    insertBlockInto landing.destination index [source] landing.parent updatedAt =
      .ok (placed, changed) →
    Resolved source updatedAt landing (moves source landing changed)

theorem resolve_ok_iff {request : CardPlacementRequest} {updatedAt : Int}
    {placement : CardPlacementResult K} :
    resolve db projectId cardId request updatedAt = .ok placement ↔
      ∃ source landing, db.cards[cardId]? = some source ∧ source.deletedAt = none ∧
        source.projectId = projectId ∧ land db source request = .ok landing ∧
        Resolved source updatedAt landing placement := by
  unfold resolve
  simp only [CardRepo.get?]
  constructor
  · intro h
    split at h
    · next source hsource =>
      obtain ⟨hrow, hlive⟩ := Option.filter_eq_some_iff.mp hsource
      simp only [bind, Except.bind] at h
      split at h
      · cases h
      · next hproj =>
        have hproj : source.projectId = projectId := by simpa using hproj
        split at h
        · cases h
        · next landing hland =>
          refine ⟨source, landing, hrow, Card.live_iff.mp hlive, hproj, hland, ?_⟩
          split at h
          · next hindex =>
            cases h
            exact .stays hindex
          · next index hindex =>
            cases hins : insertBlockInto landing.destination index [source] landing.parent
                updatedAt with
            | error e => simp [placedCardChanges, insertBlock, hins, Except.map] at h
            | ok result =>
              simp only [placedCardChanges, insertBlock, hins, Except.map] at h
              cases h
              exact .moves hindex hins
    · cases h
  · rintro ⟨source, landing, hrow, hlive, rfl, hland, h⟩
    have hfilter : db.cards[cardId]?.filter (·.live) = some source :=
      Option.filter_eq_some_iff.mpr ⟨hrow, Card.live_iff.mpr hlive⟩
    cases h with
    | stays hindex => simp [hfilter, bind, Except.bind, hland, hindex, stays, pure, Except.pure]
    | moves hindex hins =>
      simp [hfilter, bind, Except.bind, hland, hindex, placedCardChanges, insertBlock, hins,
        Except.map, moves, pure, Except.pure]

/-- The moved card's own change carries the key of the result; the other changes are siblings. -/
theorem moves_changed {source : Card K} {landing : Landing K} {window : BlockWindow K} {index : Nat}
    {updatedAt : Int} (hfits : window.Fits landing.destination index [source])
    (hnodup : ((landing.destination ++ [source]).map (·.cardId)).Nodup) (c : Card K) :
    c ∈ source.placed landing.parent (moves source landing
        (window.changed [source] landing.parent updatedAt)).sortKey updatedAt ::
      (moves source landing (window.changed [source] landing.parent updatedAt)).siblingChanges ↔
    c ∈ window.changed [source] landing.parent updatedAt := by
  obtain ⟨key, hown, hchanged⟩ := hfits.own_change landing.parent updatedAt hnodup
  rw [← hchanged]
  unfold moves
  rw [hown]
  rfl

end CardPlacementResolver

end

namespace CardStore
variable [SortKey K] {env : Env K} {w : World K}

/-- What a move that succeeded did with its placement. -/
structure MovedTo (env : Env K) (w : World K) (projectId cardId : String)
    (request : CardPlacementRequest) (updatedAt : Int) (w' : World K) (card : Card K)
    (placement : CardPlacementResult K) : Prop where
  tidy : Tidy env w'
  row : w.db.cards[cardId]? = some card
  resolved : CardPlacementResolver.resolve w.db projectId cardId request updatedAt = .ok placement
  outcome :
    (placement.parentCardId = card.parentCardId ∧ placement.sortKey = card.sortKey ∧
      placement.siblingChanges = [] ∧ w' = w) ∨
    ¬(placement.parentCardId = card.parentCardId ∧ placement.sortKey = card.sortKey ∧
      placement.siblingChanges = []) ∧
    validateCardParent w.db { card with parentCardId := placement.parentCardId } = .ok () ∧
      RowsPlaced (card.placed placement.parentCardId placement.sortKey updatedAt ::
        placement.siblingChanges) w.db w'.db

theorem moveToLocked_moved (projectId cardId : String) (request : CardPlacementRequest)
    (updatedAt : Int) (hw : Tidy env w) :
    Ends (moveToLocked env projectId cardId request updatedAt) w
      (fun _ w' => ∃ card placement,
        MovedTo env w projectId cardId request updatedAt w' card placement)
      fun _ _ => True := by
  unfold moveToLocked
  refine (requireProject_ends hw.journal _).bind ?_ (by simp)
  rintro - w1 ⟨rfl, hproj⟩
  simp only [Ends.bind_iff, Ends.get_iff, Ends.fromExcept_iff, CardRepo.get?]
  refine ⟨fun placement hplacement => ?_, fun _ _ => trivial⟩
  split
  · next card hcard =>
    have hid := hw.keyed _ _ hcard
    simp only [Ends.bind_iff, Ends.fromExcept_iff, Ends.ite_iff, Ends.pure_iff]
    simp only [ne_eq, not_or, not_not, List.isEmpty_iff]
    refine ⟨fun hsame => ?_, fun hmoves => ⟨fun _ hrel => ⟨fun _ hvalid => ?_,
      fun _ _ => trivial⟩, fun _ _ => trivial⟩⟩
    · exact ⟨card, placement, hw, hcard, hplacement, .inl ⟨hsame.1.1, hsame.1.2, hsame.2, rfl⟩⟩
    obtain ⟨-, hpath⟩ := checkRelPath_ok hrel
    obtain ⟨hsib, hnodup⟩ := CardPlacementResolver.resolve_ok hw.keyed hplacement
    refine (readCardFile_ends _ w1).mono ?_ fun _ _ _ => trivial
    rintro ⟨raw, parsed⟩ w2 ⟨rfl, -, -⟩
    refine Ends.mono (applyWithPlacements_rows hw ?_ ?_ ?_ ?_ ?_ ?_ ?_) ?_ fun _ _ _ => trivial
    · rfl
    · rfl
    · rfl
    · exact hpath
    · rw [hid]
      exact hcard
    · refine List.nodup_cons.mpr ⟨fun hmem => ?_, hnodup⟩
      obtain ⟨c, hc, he⟩ := List.mem_map.mp hmem
      obtain ⟨b, key, rfl, -, hne⟩ := hsib c hc
      exact hne (he.trans hid)
    · intro c hc
      obtain ⟨b, key, hb, hlive, -⟩ := hsib c hc
      exact ⟨b, _, key, _, hb, hlive.row⟩
    · rintro - w3 ⟨hw3, hrows⟩
      refine ⟨card, placement, hw3, hcard, hplacement, .inr ⟨fun hsame => ?_, hvalid, hrows⟩⟩
      exact hmoves ⟨⟨hsame.1, hsame.2.1⟩, hsame.2.2⟩
  · trivial

theorem moveTo_moved {projectId cardId : String} {request : CardPlacementRequest}
    {updatedAt : Int} {result : Result K} {w' : World K} (hw : Tidy env w)
    (h : (Call.moveTo projectId cardId request updatedAt).run env w = .ok result w') :
    ∃ card placement, MovedTo env w projectId cardId request updatedAt w' card placement := by
  refine (show Ends ((Call.moveTo projectId cardId request updatedAt).run env) w
      (fun _ w' => ∃ card placement,
        MovedTo env w projectId cardId request updatedAt w' card placement) fun _ _ => True from ?_).ok h
  unfold Call.run
  simp only [Ends.bind_iff, Ends.get_iff, Call.enter, moveToEntry]
  split
  · trivial
  · split
    · trivial
    · exact moveToLocked_moved _ _ _ _ hw

/-- A move whose placement is where the card is returns before it writes. -/
theorem moveTo_unmoved {cardId : String} {request : CardPlacementRequest} {updatedAt : Int}
    {card : Card K} {placement : CardPlacementResult K} (hw : Tidy env w)
    (hrow : w.db.cards[cardId]? = some card) (hlive : card.deletedAt = none)
    (hplacement : CardPlacementResolver.resolve w.db card.projectId cardId request updatedAt =
      .ok placement)
    (hparent : placement.parentCardId = card.parentCardId)
    (hkey : placement.sortKey = card.sortKey) (hsiblings : placement.siblingChanges = []) :
    (Call.moveTo card.projectId cardId request updatedAt).run env w =
      .ok (.moved (some card) placement.movedIntoTitle) w := by
  have hproj := hw.project _ _ hrow
  have hfilter : (CardRepo.get? w.db cardId).filter (·.live) = some card :=
    Option.filter_eq_some_iff.mpr ⟨hrow, Card.live_iff.mpr hlive⟩
  have hrequire : requireProject env card.projectId w = .ok () w := by
    unfold requireProject
    rw [hproj]
    simp [bind, EStateM.bind, get, getThe, MonadStateOf.get, EStateM.get, hw.journal, pure,
      EStateM.pure]
  unfold Call.run
  rw [bind_eq_of_ok (m := get) (s := w) rfl, Call.enter, moveToEntry, hfilter]
  simp only [ne_eq, not_true_eq_false, if_false]
  change moveToLocked env card.projectId cardId request updatedAt w = _
  unfold moveToLocked
  rw [bind_eq_of_ok hrequire, bind_eq_of_ok (m := get) (s := w) rfl, hplacement,
    bind_eq_of_ok (m := fromExcept (.ok placement)) (s := w) rfl]
  simp only [CardRepo.get?, hrow]
  rw [if_pos (by simp [hparent, hkey, hsiblings])]
  rfl

end CardStore

end HolderCore
