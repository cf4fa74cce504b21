import HolderCore.Card.MovePlaces

/-! # A repeated move

The key halfway between the neighbours of a card that was put among evenly spaced keys is the key it
has. So a second move with the same request finds nothing to do. -/

namespace HolderCore

/-! ## The key between the neighbours -/

section Exact

/-- Where an end is open the keys lie one apart. -/
theorem tick_of_open {left right : Option ℚ} (count i : Nat) (h : left = none ∨ right = none) :
    tick (spanLow left right count) (spanHigh left right count) count i =
      spanLow left right count + i := by
  cases right with
  | none => exact tick_step_up _ _ _
  | some r =>
    obtain rfl : left = none := by simpa using h
    exact tick_step_down r count i

/-- One key between the neighbours of an evenly spaced key is that key. -/
theorem spacedKeys_again {left right : Option ℚ} {count : Nat} {front back : List ℚ} {key : ℚ}
    (h : spacedKeys left right count = some (front ++ key :: back)) :
    spacedKeys (front.getLast?.or left) (back.head?.or right) 1 = some [key] := by
  obtain ⟨hrising, hleft, hright, -⟩ := spacedKeys_between h
  have hmem : key ∈ front ++ key :: back := by simp
  have hspan : ∀ l, left = some l → ∀ r, right = some r → l < r := fun l hl r hr =>
    (hleft l hl key hmem).trans (hright r hr key hmem)
  rw [spacedKeys_exact count hspan, Option.some.injEq] at h
  set low := spanLow left right count with hlow
  set high := spanHigh left right count with hhigh
  have hcount : count = front.length + 1 + back.length := by
    have := congrArg List.length h
    simp at this
    omega
  have hat : ∀ i, (hi : i < count) → (front ++ key :: back)[i]? = some (tick low high count (i + 1)) := by
    intro i hi
    rw [← h]
    simp [hi]
  have hkey : key = tick low high count (front.length + 1) := by
    have := hat front.length (by omega)
    simpa using this
  have hl : front.getLast?.or left = some (tick low high count front.length) ∨
      front.length = 0 ∧ left = none ∧ front.getLast?.or left = none := by
    rcases List.eq_nil_or_concat front with rfl | ⟨front, last, rfl⟩
    · cases left with
      | none => exact .inr ⟨rfl, rfl, rfl⟩
      | some l => exact .inl (by simp [hlow, spanLow])
    · rw [List.concat_eq_append] at hat hcount ⊢
      rw [List.length_append, List.length_singleton] at hcount ⊢
      have hlast := hat front.length (by omega)
      refine .inl ?_
      simpa using hlast
  have hr : back.head?.or right = some (tick low high count (front.length + 2)) ∨
      back.length = 0 ∧ right = none ∧ back.head?.or right = none := by
    cases back with
    | nil =>
      cases right with
      | none => exact .inr ⟨rfl, rfl, rfl⟩
      | some r =>
        refine .inl ?_
        have hlen : front.length + 2 = count + 1 := by rw [hcount]; rfl
        rw [hlen, tick_last]
        simp [hhigh, spanHigh]
    | cons first back =>
      have hfirst := hat (front.length + 1) (by rw [hcount, List.length_cons]; omega)
      refine .inl ?_
      simpa using hfirst
  -- An end that stays open keeps the spacing of one.
  have hrise : ∀ l, front.getLast?.or left = some l → ∀ r, back.head?.or right = some r → l < r := by
    intro l hl' r hr'
    rcases hl with hl | ⟨-, -, hl⟩
    · rcases hr with hr | ⟨-, -, hr⟩
      · rw [hl] at hl'
        rw [hr] at hr'
        cases hl'
        cases hr'
        exact tick_lt_tick (spanLow_lt_spanHigh count hspan) (by omega)
      · rw [hr] at hr'
        cases hr'
    · rw [hl] at hl'
      cases hl'
  rw [spacedKeys_exact 1 hrise, hkey]
  simp only [List.range_one, List.map_singleton, Nat.zero_add, Option.some.injEq,
    List.cons.injEq, and_true]
  rcases hl with hl | ⟨hfront, hleftNone, hl⟩ <;> rcases hr with hr | ⟨hback, hrightNone, hr⟩
  · rw [hl, hr]
    exact tick_midpoint low high count front.length
  · rw [hl, hr, hlow, hhigh, tick_of_open count _ (.inr hrightNone),
      tick_of_open count _ (.inr hrightNone), tick_of_open 1 _ (.inr rfl)]
    simp only [spanLow, Option.getD_some]
    push_cast
    ring
  · rw [hl, hr, hlow, hhigh, tick_of_open count _ (.inl hleftNone),
      tick_of_open count _ (.inl hleftNone), tick_of_open 1 _ (.inl rfl), hfront]
    simp only [spanLow, Option.getD_none, Option.elim_some]
    push_cast
    ring
  · rw [hl, hr, hlow, hhigh, tick_of_open count _ (.inl hleftNone), tick_of_open 1 _ (.inl rfl),
      hfront, hleftNone, hrightNone]
    simp [spanLow]

end Exact

/-! ## The second insertion -/

section
variable {window : BlockWindow ℚ} {destination : List (Card ℚ)} {card : Card ℚ} {index : Nat}

/-- An inserted card lies between neighbours whose one key between them is its own. -/
theorem BlockWindow.Fits.between (hfits : window.Fits destination index [card])
    (hindex : index ≤ destination.length) (parent : Option String) (updatedAt : Int) :
    ∃ front back key,
      window.placed [card] parent updatedAt = front ++ card.placed parent key updatedAt :: back ∧
      front.length = index ∧ (front ++ back).map (·.cardId) = destination.map (·.cardId) ∧
      spacedKeys (front.getLast?.map (·.sortKey)) (back.head?.map (·.sortKey)) 1 = some [key] := by
  obtain ⟨before, block, after, hcells, hbefore, hblock, -⟩ := hfits.cells_split parent updatedAt
  obtain ⟨_, _, ⟨key, rfl⟩, hnil, rfl⟩ := List.forall₂_cons_left_iff.mp hblock
  obtain rfl := List.forall₂_nil_left_iff.mp hnil
  have hkeys := hfits.cells_keys parent updatedAt
  rw [← Function.comp_def (g := fun c : Card ℚ × Bool => c.1) (f := fun c : Card ℚ => c.sortKey),
    ← List.map_map, hcells] at hkeys
  have hspaced := hfits.keys
  rw [← hkeys] at hspaced
  have hspaced : spacedKeys (window.left.getLast?.map (·.sortKey))
      (window.right.head?.map (·.sortKey)) (window.before.length + 1 + window.after.length) =
        some (before.map (·.sortKey) ++ key :: after.map (·.sortKey)) := by simpa using hspaced
  have hagain := spacedKeys_again hspaced
  have hlen : (window.left ++ before).length = index := by
    rw [List.length_append, ← hbefore.length_eq, ← List.length_append, ← hfits.take,
      List.length_take, Nat.min_eq_left hindex]
  refine ⟨window.left ++ before, after ++ window.right, key, ?_, hlen, ?_, ?_⟩
  · simp [BlockWindow.placed, hcells, Card.placed]
  · have hids := hfits.placed_ids parent updatedAt
    rw [BlockWindow.placed, hcells] at hids
    simp only [List.map_append, List.map_cons, List.append_assoc,
      List.singleton_append] at hids
    rw [← List.append_assoc, ← List.map_append] at hids
    obtain ⟨hfront, hback⟩ := List.append_inj hids (by
      simp only [List.length_map, hlen, List.length_take]
      omega)
    have hback := (List.cons_eq_cons.mp hback).2
    rw [List.map_append, hfront, List.map_append]
    refine (congrArg (_ ++ ·) hback).trans ?_
    rw [← List.map_append, List.take_append_drop]
  · rw [List.getLast?_append, List.head?_append]
    cases hl : before.getLast? <;> cases hr : after.head? <;>
      simpa [hl, hr, List.getLast?_map, List.head?_map] using hagain

end

theorem insertBlockInto_at [SortKey K] {front back : List (Card K)} {card : Card K} {key : K}
    {parent : Option String} {updatedAt : Int}
    (h : spacedKeys (front.getLast?.map (·.sortKey)) (back.head?.map (·.sortKey)) 1 = some [key]) :
    insertBlockInto (front ++ back) front.length [card] parent updatedAt =
      .ok (front ++ card.placed parent key updatedAt :: back, [card.placed parent key updatedAt]) := by
  obtain ⟨-, -, -, hright, hleft⟩ := window_of_append
    (front.map (⟨·, false⟩ : Card K → Slot K))
    [⟨{ card with parentCardId := parent }, true⟩] (back.map (⟨·, false⟩)) front.length 0 (by simp)
  simp only [List.length_map, List.drop_zero] at hright hleft
  unfold insertBlockInto
  rw [if_neg (by simp), List.take_left, List.drop_left]
  change respaceFrom (slotsAround front [card] back parent) front.length (front.length + 1) updatedAt
    ((slotsAround front [card] back parent).length + 1 + 1) 0 = _
  have hlen : (slotsAround front [card] back parent).length = front.length + 1 + back.length := by
    simp [slotsAround]
    omega
  have hhigh : min (slotsAround front [card] back parent).length (front.length + 1) =
      front.length + 1 := by
    omega
  have hl := congrArg (Option.map fun slot : Slot K => slot.card.sortKey) hleft
  rw [apply_ite (Option.map fun slot : Slot K => slot.card.sortKey), Option.map_none,
    ← List.map_take, List.getLast?_map, Option.map_map, List.take_length] at hl
  have hr := congrArg (Option.map fun slot : Slot K => slot.card.sortKey) hright
  rw [List.head?_map, Option.map_map] at hr
  have hkeys : spacedKeys (if front.length = 0 then none else
      (slotsAround front [card] back parent)[front.length - 1]?.map (·.card.sortKey))
      ((slotsAround front [card] back parent)[front.length + 1]?.map (·.card.sortKey))
      (front.length + 1 - front.length) = some [key] := by
    rw [Nat.add_sub_cancel_left, ← h]
    exact congrArg₂ (spacedKeys · · 1) hl hr
  rw [respaceFrom]
  simp only [Nat.sub_zero, Nat.add_zero, hhigh, hkeys]
  have hcells : (slotsAround front [card] back parent).drop front.length =
      ⟨{ card with parentCardId := parent }, true⟩ :: back.map (⟨·, false⟩) := by
    unfold slotsAround
    rw [List.append_assoc, ← (List.length_map _ : (front.map (⟨·, false⟩ : Card K → Slot K)).length = front.length),
      List.drop_left]
    rfl
  have hfront : (slotsAround front [card] back parent).take front.length =
      front.map (⟨·, false⟩) := by
    unfold slotsAround
    rw [List.append_assoc, ← (List.length_map _ : (front.map (⟨·, false⟩ : Card K → Slot K)).length = front.length),
      List.take_left]
  have hback : (slotsAround front [card] back parent).drop (front.length + 1) =
      back.map (⟨·, false⟩) := by
    rw [← List.drop_drop, hcells]
    rfl
  rw [hcells, hfront, hback]
  simp [Slot.respace, Card.placed, Function.comp_def]

/-! ## The second landing -/

section
variable {db db' : Db K} {projectId cardId : String}

/-- The other cards keep their parents and stay live or trashed. -/
def KeptTree (db db' : Db K) (projectId cardId : String) : Prop :=
  ∀ id, id ≠ cardId → (findCard db' projectId id).map (fun c => (c.parentCardId, c.live)) =
    (findCard db projectId id).map fun c => (c.parentCardId, c.live)

theorem isDescendantOf_congr {find find' : String → Option (Card K)} {cardId : String}
    (h : ∀ id, id ≠ cardId → (find' id).map (·.parentCardId) = (find id).map (·.parentCardId))
    (guard : Nat) (candidate : Option String) :
    isDescendantOf find' cardId guard candidate = isDescendantOf find cardId guard candidate := by
  induction guard generalizing candidate with
  | zero => rfl
  | succ guard ih =>
    cases candidate with
    | none => rfl
    | some id =>
      rw [isDescendantOf, isDescendantOf]
      by_cases he : id = cardId
      · simp [he]
      · rw [if_neg (by simpa using he), if_neg (by simpa using he)]
        have hsame := h id he
        cases hf' : find' id with
        | none =>
          cases hf : find id with
          | none => rfl
          | some c => simp [hf, hf'] at hsame
        | some c' =>
          cases hf : find id with
          | none => simp [hf, hf'] at hsame
          | some c =>
            simp only [hf, hf', Option.map_some, Option.some.injEq] at hsame
            simp only [hsame, ih]

/-- Another card is found live with the parent it had. -/
theorem KeptTree.found {id : String} (h : KeptTree db db' projectId cardId) (hid : id ≠ cardId)
    {c : Card K} (hc : (findCard db projectId id).filter (·.live) = some c) :
    ∃ c', (findCard db' projectId id).filter (·.live) = some c' ∧
      c'.parentCardId = c.parentCardId := by
  obtain ⟨hc, hlive⟩ := Option.filter_eq_some_iff.mp hc
  have hsame := h id hid
  rw [hc] at hsame
  obtain ⟨c', hc', he⟩ := Option.map_eq_some_iff.mp hsame
  injection he with hpar hl
  exact ⟨c', Option.filter_eq_some_iff.mpr ⟨hc', hl.trans hlive⟩, hpar⟩

end

namespace CardPlacementResolver
variable [SortKey K] {db db' : Db K} {source moved : Card K} {request : CardPlacementRequest}
  {landing : Landing K} {front back : List (Card K)}

/-- The state after a move, as far as a second landing reads it. -/
structure MovedOnce (db db' : Db K) (source : Card K) (landing : Landing K) (moved : Card K)
    (front back : List (Card K)) : Prop where
  keyed : db.Keyed
  keyed' : db'.Keyed
  kept : KeptTree db db' source.projectId source.cardId
  row : LiveRow db source.projectId source
  row' : LiveRow db' source.projectId moved
  cardId : moved.cardId = source.cardId
  parent : moved.parentCardId = landing.parent
  scope : scopeChildren normalizeParentId db' source.projectId (normalizeParentId landing.parent) =
    front ++ moved :: back
  ids : (front ++ back).map (·.cardId) = landing.destination.map (·.cardId)

theorem MovedOnce.siblings (h : MovedOnce db db' source landing moved front back) :
    siblingsForParent db' moved.projectId landing.parent moved.cardId = front ++ back := by
  rw [h.row'.project, siblingsForParent_eq h.keyed', without_split
    (scopeChildren_nodup h.keyed' ..) h.scope]

omit [SortKey K] in
theorem findIdx?_ids {cards cards' : List (Card K)}
    (h : cards.map (·.cardId) = cards'.map (·.cardId)) (id : String) :
    cards.findIdx? (·.cardId == id) = cards'.findIdx? (·.cardId == id) := by
  have hmap : ∀ cards : List (Card K), (cards.map (·.cardId)).findIdx? (· == id) =
      cards.findIdx? (·.cardId == id) := fun cards => List.findIdx?_map ..
  rw [← hmap, h, hmap]

theorem landAtTarget_again (h : MovedOnce db db' source landing moved front back)
    (hindex : landing.index = some front.length)
    (hland : landAtTarget db source request = .ok landing) :
    ∃ again, landAtTarget db' moved request = .ok again ∧ again.parent = landing.parent ∧
      again.destination = front ++ back ∧ again.index = some front.length := by
  unfold landAtTarget at hland
  simp only [bind, Except.bind, pure, Except.pure, throw, throwThe, MonadExceptOf.throw] at hland
  split at hland
  · next targetId htarget =>
    split at hland
    · next target hfind =>
      have htargetId : target.cardId = targetId :=
        h.keyed _ _ (findCard_eq_some.mp (Option.filter_eq_some_iff.mp hfind).1).1
      have hother : targetId ≠ source.cardId → ∃ target',
          (findCard db' moved.projectId targetId).filter (·.live) = some target' ∧
            target'.cardId = targetId ∧ target'.parentCardId = target.parentCardId := by
        intro hne
        obtain ⟨target', hfind', hpar⟩ := h.kept.found hne hfind
        rw [h.row'.project]
        exact ⟨target', hfind', h.keyed' _ _
          (findCard_eq_some.mp (Option.filter_eq_some_iff.mp hfind').1).1, hpar⟩
      split at hland
      · next hinto =>
        split at hland
        · cases hland
        · next hdesc =>
          cases hland
          have hne : targetId ≠ source.cardId := by
            rintro rfl
            simp [isDescendantOf, htargetId] at hdesc
          obtain ⟨target', hfind', hid', hpar⟩ := hother hne
          have hdesc' : isDescendantOf (findCard db' moved.projectId) moved.cardId 1024
              (some target'.cardId) = false := by
            rw [h.row'.project, h.cardId, hid', isDescendantOf_congr fun id hid => ?_]
            · rw [htargetId] at hdesc
              simpa using hdesc
            · have := congrArg (Option.map Prod.fst) (h.kept id hid)
              simpa [Option.map_map, Function.comp_def] using this
          have hsiblings := h.siblings
          have hlen := congrArg List.length h.ids
          simp only [List.length_map, Option.some.injEq] at hlen hindex hsiblings
          refine ⟨⟨some target'.cardId, front ++ back, some (front ++ back).length,
            some target'.title⟩, ?_, by rw [hid', htargetId], rfl, by rw [hlen, hindex]⟩
          rw [htargetId, ← hid'] at hsiblings
          unfold landAtTarget
          simp [pure, Except.pure, htarget, hfind', hinto, hdesc', hsiblings]
      · next hinto =>
        split at hland
        · next index hfound =>
          cases hland
          have hne : targetId ≠ source.cardId := by
            rintro rfl
            obtain ⟨before, a, after, hsplit, -, hp⟩ := findIdx?_split hfound
            have ha : a ∈ siblingsForParent db source.projectId
                (normalizeParentId target.parentCardId) source.cardId := by
              rw [hsplit]
              simp
            exact (mem_siblingsForParent h.keyed ha).2 (by simpa [htargetId] using hp)
          obtain ⟨target', hfind', hid', hpar⟩ := hother hne
          have hsiblings := h.siblings
          have hfound' : (front ++ back).findIdx? (·.cardId == target'.cardId) = some index := by
            rw [hid', ← htargetId, findIdx?_ids h.ids]
            exact hfound
          rw [← hpar] at hsiblings
          refine ⟨⟨normalizeParentId target'.parentCardId, front ++ back,
            some (if request.intent = .after then index + 1 else index), none⟩, ?_, by rw [hpar],
            rfl, hindex⟩
          unfold landAtTarget
          simp [pure, Except.pure, htarget, hfind', hinto, hsiblings, hfound']
        · cases hland
    · cases hland
  · cases hland

/-- At an end of the same parent the card stays, or lands where it is. -/
theorem landUnderParent_again (h : MovedOnce db db' source landing moved front back)
    (hintent : request.intent = .toStart ∨ request.intent = .toEnd)
    (hindex : landing.index = some front.length)
    (hland : landUnderParent db source request = .ok landing) :
    ∃ again, landUnderParent db' moved request = .ok again ∧
      (again.index = none ∧ normalizeParentId moved.parentCardId = moved.parentCardId ∨
        again.parent = landing.parent ∧ again.destination = front ++ back ∧
          again.index = some front.length) := by
  rw [landUnderParent_eq] at hland
  split at hland
  · cases hland
  · next hlive =>
    cases hland
    have hpar := h.parent
    have hsiblings := h.siblings
    have hlen := congrArg List.length h.ids
    simp only [List.length_map] at hpar hsiblings hlen hindex
    have hnormal : normalizeParentId (requestedParent (trimmed source) request) =
        requestedParent (trimmed source) request := by
      unfold requestedParent
      split
      · exact normalizeParentId_idem _
      · exact normalizeParentId_idem _
    have htrim : normalizeParentId moved.parentCardId = moved.parentCardId := by
      rw [hpar, hnormal]
    have hsame : requestedParent (trimmed moved) request =
        requestedParent (trimmed source) request := by
      by_cases hover : (request.hasParentCardId || request.parentCardId.isSome) = true
      · rw [requestedParent, requestedParent, if_pos hover, if_pos hover]
      · rw [requestedParent, if_neg hover]
        exact htrim.trans hpar
    have hlive' : (requestedParent (trimmed source) request).any (fun parent =>
        !(findCard db' moved.projectId parent).any (·.live)) = false := by
      cases hp : requestedParent (trimmed source) request with
      | none => rfl
      | some parent =>
        rw [hp] at hlive
        simp only [Option.any_some, Bool.not_eq_true', Bool.not_eq_false, h.row'.project] at hlive ⊢
        by_cases he : parent = source.cardId
        · have hfind : findCard db' source.projectId parent = some moved :=
            findCard_eq_some.mpr ⟨by rw [he, ← h.cardId]; exact h.row'.row, h.row'.project⟩
          simpa [hfind] using h.row'.live
        · obtain ⟨c, hc, hl⟩ := (Option.any_eq_true _ _).mp (by simpa using hlive)
          obtain ⟨c', hc', -⟩ := h.kept.found he (Option.filter_eq_some_iff.mpr ⟨hc, hl⟩)
          obtain ⟨hc', hl'⟩ := Option.filter_eq_some_iff.mp hc'
          simpa [hc'] using hl'
    rw [landUnderParent_eq, hsame, if_neg (by rw [hlive']; decide), hsiblings]
    refine ⟨_, rfl, ?_⟩
    by_cases hempty : front ++ back = []
    · refine .inl ⟨?_, htrim⟩
      have hown : (trimmed moved).parentCardId = requestedParent (trimmed source) request :=
        htrim.trans hpar
      rcases hintent with he | he <;>
        simp [indexUnderParent, he, hempty, hsame, hown]
    · refine .inr ⟨rfl, rfl, ?_⟩
      rcases hintent with he | he
      · simp only [indexUnderParent, he] at hindex ⊢
        split at hindex
        · cases hindex
        · rw [if_neg (by simp [hempty])]
          exact hindex
      · simp only [indexUnderParent, he] at hindex ⊢
        split at hindex
        · cases hindex
        · rw [if_neg (by simp [hempty]), hlen]
          exact hindex

/-- A second landing after one that moved the card. -/
theorem land_again (h : MovedOnce db db' source landing moved front back)
    (hintent : request.intent ∈ [.into, .before, .after, .toStart, .toEnd])
    (hindex : landing.index = some front.length) (hland : land db source request = .ok landing) :
    ∃ again, land db' moved request = .ok again ∧
      (again.index = none ∧ normalizeParentId moved.parentCardId = moved.parentCardId ∨
        again.parent = landing.parent ∧ again.destination = front ++ back ∧
          again.index = some front.length) := by
  have htarget : landAtTarget db source request = .ok landing →
      ∃ again, landAtTarget db' moved request = .ok again ∧
        (again.index = none ∧ normalizeParentId moved.parentCardId = moved.parentCardId ∨
          again.parent = landing.parent ∧ again.destination = front ++ back ∧
            again.index = some front.length) := by
    intro hland
    obtain ⟨again, hrun, hspec⟩ := landAtTarget_again h hindex hland
    exact ⟨again, hrun, .inr hspec⟩
  unfold land at hland ⊢
  simp only [List.mem_cons, List.not_mem_nil, or_false] at hintent
  rcases hintent with he | he | he | he | he
  · rw [he] at hland ⊢
    exact htarget hland
  · rw [he] at hland ⊢
    exact htarget hland
  · rw [he] at hland ⊢
    exact htarget hland
  · rw [he] at hland ⊢
    exact landUnderParent_again h (.inl he) hindex hland
  · rw [he] at hland ⊢
    exact landUnderParent_again h (.inr he) hindex hland

end CardPlacementResolver

theorem RowsPlaced.keptTree [SortKey K] {db db' : Db K} {projectId : String} {rows : List (Card K)}
    {window : BlockWindow K} {destination : List (Card K)} {card : Card K} {index : Nat}
    {parent : Option String} {updatedAt : Int} (hrows : RowsPlaced rows db db')
    (hfits : window.Fits destination index [card])
    (hdest : ∀ c ∈ destination, LiveRow db projectId c)
    (hmem : ∀ c, c ∈ rows ↔ c ∈ window.changed [card] parent updatedAt) :
    KeptTree db db' projectId card.cardId := by
  intro id hid
  by_cases hchanged : ∃ r ∈ rows, r.cardId = id
  · obtain ⟨r, hr, rfl⟩ := hchanged
    obtain ⟨b, p, key, rfl, ⟨hb, rfl⟩ | ⟨hb, rfl⟩⟩ := hfits.changed_card ((hmem r).mp hr)
    · rw [List.mem_singleton.mp hb] at hid
      exact absurd rfl hid
    · have hrow := hdest b hb
      have hafter : findCard db' projectId b.cardId = some (b.placed b.parentCardId key updatedAt) :=
        findCard_eq_some.mpr ⟨hrows.placed _ hr, hrow.project⟩
      have hbefore : findCard db projectId b.cardId = some b :=
        findCard_eq_some.mpr ⟨hrow.row, hrow.project⟩
      change (findCard db' projectId b.cardId).map _ = (findCard db projectId b.cardId).map _
      rw [hafter, hbefore]
      rfl
  · rw [findCard, findCard, hrows.kept id fun r hr he => hchanged ⟨r, hr, he⟩]

namespace CardPlacementResolver
variable [SortKey K] {db db' : Db K} {source moved : Card K} {request : CardPlacementRequest}
  {landing : Landing K}

theorem land_index_le (hintent : request.intent ∈ [.into, .before, .after, .toStart, .toEnd])
    {index : Nat} (hindex : landing.index = some index)
    (hland : land db source request = .ok landing) : index ≤ landing.destination.length := by
  have htarget : landAtTarget db source request = .ok landing →
      index ≤ landing.destination.length := by
    intro hland
    unfold landAtTarget at hland
    simp only [bind, Except.bind, pure, Except.pure, throw, throwThe, MonadExceptOf.throw] at hland
    split at hland
    · split at hland
      · split at hland
        · split at hland
          · cases hland
          · cases hland
            cases hindex
            exact le_rfl
        · split at hland
          · next found hfound =>
            cases hland
            obtain ⟨before, a, after, hsplit, rfl, -⟩ := findIdx?_split hfound
            cases hindex
            simp only [hsplit, List.length_append, List.length_cons]
            split <;> omega
          · cases hland
      · cases hland
    · cases hland
  have hunder : request.intent = .toStart ∨ request.intent = .toEnd →
      landUnderParent db source request = .ok landing → index ≤ landing.destination.length := by
    intro hintent hland
    rw [landUnderParent_eq] at hland
    split at hland
    · cases hland
    · cases hland
      rcases hintent with he | he
      · simp only [indexUnderParent, he] at hindex
        split at hindex
        · cases hindex
        · cases hindex
          exact Nat.zero_le _
      · simp only [indexUnderParent, he] at hindex
        split at hindex
        · cases hindex
        · cases hindex
          exact le_rfl
  unfold land at hland
  simp only [List.mem_cons, List.not_mem_nil, or_false] at hintent
  rcases hintent with he | he | he | he | he
  · rw [he] at hland
    exact htarget hland
  · rw [he] at hland
    exact htarget hland
  · rw [he] at hland
    exact htarget hland
  · rw [he] at hland
    exact hunder (.inl he) hland
  · rw [he] at hland
    exact hunder (.inr he) hland

/-- A card alone in its scope stays there once its parent's id has lost its blanks. -/
theorem land_alone_again {moved : Card K} (hk : db.Keyed) (hk' : db'.Keyed)
    (hintent : request.intent ∈ [.into, .before, .after, .toStart, .toEnd])
    (hindex : landing.index = none) (hland : land db source request = .ok landing)
    (hrows : ∀ id : String, id ≠ source.cardId → db'.cards[id]? = db.cards[id]?)
    (hmoved : LiveRow db' source.projectId moved) (hid : moved.cardId = source.cardId)
    (hparent : moved.parentCardId = normalizeParentId source.parentCardId) :
    ∃ again, land db' moved request = .ok again ∧ again.index = none := by
  have hnone : landAtTarget db source request = .ok landing → False := by
    intro hland
    unfold landAtTarget at hland
    simp only [bind, Except.bind, pure, Except.pure, throw, throwThe, MonadExceptOf.throw] at hland
    split at hland
    · split at hland
      · split at hland
        · split at hland
          · cases hland
          · cases hland
            cases hindex
        · split at hland
          · cases hland
            cases hindex
          · cases hland
      · cases hland
    · cases hland
  have hunder : request.intent = .toStart ∨ request.intent = .toEnd →
      landUnderParent db source request = .ok landing →
      ∃ again, landUnderParent db' moved request = .ok again ∧ again.index = none := by
    intro hends hland
    rw [landUnderParent_eq] at hland
    split at hland
    · cases hland
    · next hlive =>
      cases hland
      -- Nobody else is in the scope, and the scope is the card's own.
      have halone : siblingsForParent db source.projectId
          (requestedParent (trimmed source) request) source.cardId = [] ∧
          requestedParent (trimmed source) request = normalizeParentId source.parentCardId := by
        rcases hends with he | he <;>
        · simp only [indexUnderParent, he] at hindex
          split at hindex
          · next hc => simpa [trimmed] using hc
          · cases hindex
      obtain ⟨hempty, hown⟩ := halone
      have hparent' : normalizeParentId moved.parentCardId =
          normalizeParentId source.parentCardId := by rw [hparent, normalizeParentId_idem]
      have hsame : requestedParent (trimmed moved) request =
          requestedParent (trimmed source) request := by
        unfold requestedParent trimmed
        simp only [hparent']
      have hempty' : siblingsForParent db' moved.projectId
          (requestedParent (trimmed source) request) moved.cardId = [] := by
        rw [hmoved.project, siblingsForParent_eq hk', List.eq_nil_iff_forall_not_mem]
        rw [siblingsForParent_eq hk, List.eq_nil_iff_forall_not_mem] at hempty
        intro c hc
        obtain ⟨hc, hne⟩ := mem_without.mp hc
        obtain ⟨hrow, hscope⟩ := (mem_scopeChildren hk').mp hc
        have hne : c.cardId ≠ source.cardId := by simpa [hid] using hne
        refine hempty c (mem_without.mpr ⟨(mem_scopeChildren hk).mpr ⟨⟨?_, hrow.project, hrow.live⟩,
          hscope⟩, by simpa using hne⟩)
        rw [← hrows c.cardId hne]
        exact hrow.row
      have hlive' : (requestedParent (trimmed source) request).any (fun parent =>
          !(findCard db' moved.projectId parent).any (·.live)) = false := by
        cases hp : requestedParent (trimmed source) request with
        | none => rfl
        | some parent =>
          rw [hp] at hlive
          simp only [Option.any_some, Bool.not_eq_true', Bool.not_eq_false, hmoved.project] at hlive ⊢
          by_cases he : parent = source.cardId
          · have hfind : findCard db' source.projectId parent = some moved :=
              findCard_eq_some.mpr ⟨by rw [he, ← hid]; exact hmoved.row, hmoved.project⟩
            simpa [hfind] using hmoved.live
          · simpa [findCard, hrows parent he] using hlive
      rw [landUnderParent_eq, hsame, if_neg (by rw [hlive']; decide), hempty']
      refine ⟨_, rfl, ?_⟩
      have hmine : (trimmed moved).parentCardId = requestedParent (trimmed source) request :=
        hparent'.trans hown.symm
      rcases hends with he | he <;> simp [indexUnderParent, he, hsame, hmine]
  unfold land at hland ⊢
  simp only [List.mem_cons, List.not_mem_nil, or_false] at hintent
  rcases hintent with he | he | he | he | he
  · rw [he] at hland
    exact (hnone hland).elim
  · rw [he] at hland
    exact (hnone hland).elim
  · rw [he] at hland
    exact (hnone hland).elim
  · rw [he] at hland ⊢
    exact hunder (.inl he) hland
  · rw [he] at hland ⊢
    exact hunder (.inr he) hland

end CardPlacementResolver

namespace CardStore
open CardPlacementResolver
variable {env : Env ℚ} {w w' : World ℚ} {projectId cardId : String} {request : CardPlacementRequest}
  {updatedAt : Int}

/-- After a move that succeeded the same request asks for nothing. -/
theorem MovedTo.again {card : Card ℚ} {placement : CardPlacementResult ℚ} (hk : w.db.Keyed)
    (hintent : request.intent ∈ [.into, .before, .after, .toStart, .toEnd])
    (h : MovedTo env w projectId cardId request updatedAt w' card placement) (now : Int) :
    ∃ moved again, w'.db.cards[cardId]? = some moved ∧ moved.deletedAt = none ∧
      moved.projectId = projectId ∧
      resolve w'.db projectId cardId request now = .ok again ∧
      again.parentCardId = moved.parentCardId ∧ again.sortKey = moved.sortKey ∧
      again.siblingChanges = [] := by
  have hk' := h.tidy.keyed
  obtain ⟨source, landing, hrow, hlive, hproj, hland, hres⟩ := resolve_ok_iff.mp h.resolved
  obtain rfl : source = card := Option.some.inj (hrow.symm.trans h.row)
  subst hproj
  have hid := hk _ _ hrow
  have hsource : LiveRow w.db source.projectId source := ⟨by rw [hid]; exact hrow, rfl, hlive⟩
  cases hres with
  | stays hindex =>
    rcases h.outcome with ⟨hparent, hkey, hsiblings, rfl⟩ | ⟨-, -, hrows⟩
    · exact ⟨source, stays source landing, hrow, hlive, rfl,
        resolve_ok_iff.mpr ⟨source, landing, hrow, hlive, rfl, hland, .stays hindex⟩, hparent, hkey,
        hsiblings⟩
    · have hrow' := hrows.placed _ List.mem_cons_self
      have hmoved : LiveRow w'.db source.projectId (source.placed
          (stays source landing).parentCardId (stays source landing).sortKey updatedAt) :=
        ⟨hrow', rfl, hlive⟩
      obtain ⟨again, hrun, hnone⟩ := land_alone_again hk hk' hintent hindex hland
        (fun id hne => hrows.kept id (by simpa [stays] using Ne.symm hne)) hmoved rfl rfl
      have hrow' : w'.db.cards[cardId]? = some (source.placed
          (stays source landing).parentCardId (stays source landing).sortKey updatedAt) := by
        rw [← hid]
        exact hmoved.row
      exact ⟨_, stays _ again, hrow', hlive, rfl,
        resolve_ok_iff.mpr ⟨_, again, hrow', hlive, rfl, hrun, .stays hnone⟩,
        normalizeParentId_idem _, rfl, rfl⟩
  | @moves index placed changed hindex hins =>
    have hdest := land_destination hland
    rw [siblingsForParent_eq hk] at hdest
    have hbound := land_index_le hintent hindex hland
    obtain ⟨window, u, hfits, hplaced, -, rows, hrows, hmem⟩ :=
      h.order hk hlive rfl hdest hbound hins
    obtain ⟨front, back, key, hsplit, rfl, hids, hbetween⟩ :=
      hfits.between hbound landing.parent u
    rw [hsplit] at hplaced
    have hmovedMem : source.placed landing.parent key u ∈
        scopeChildren normalizeParentId w'.db source.projectId
          (normalizeParentId landing.parent) := by
      rw [hplaced]
      simp
    have hmoved := ((mem_scopeChildren hk').mp hmovedMem).1
    have honce : MovedOnce w.db w'.db source landing (source.placed landing.parent key u) front
        back := {
      keyed := hk, keyed' := hk', row := hsource, row' := hmoved, cardId := rfl, parent := rfl
      scope := hplaced, ids := hids
      kept := hrows.keptTree hfits (fun c hc => by
        rw [hdest] at hc
        exact ((mem_scopeChildren hk).mp (mem_without.mp hc).1).1) hmem }
    obtain ⟨again, hrun, hagain⟩ := land_again honce hintent hindex hland
    have hrow' : w'.db.cards[cardId]? = some (source.placed landing.parent key u) := by
      rw [← hid]
      exact hmoved.row
    rcases hagain with ⟨hnone, hnormal⟩ | ⟨hpar, hdest', hindex'⟩
    · refine ⟨_, stays _ again, hrow', hlive, rfl,
        resolve_ok_iff.mpr ⟨_, again, hrow', hlive, rfl, hrun, .stays hnone⟩, hnormal, rfl, rfl⟩
    · have hins' : insertBlockInto again.destination front.length
          [source.placed landing.parent key u] again.parent now = _ :=
        hdest' ▸ insertBlockInto_at hbetween
      refine ⟨_, moves (source.placed landing.parent key u) again
        [(source.placed landing.parent key u).placed again.parent key now], hrow', hlive, rfl,
        resolve_ok_iff.mpr ⟨_, again, hrow', hlive, rfl, hrun, .moves hindex' hins'⟩, hpar, ?_, ?_⟩
      · simp [moves, Card.placed]
      · simp [moves]

/-- A move into, before, after, to the start or to the end that succeeded can be asked for again at
any later time: the plan names the card's own parent and sort key and no sibling, and the call
leaves the whole world as it is. -/
theorem moveTo_repeats (hw : Tidy env w)
    (hintent : request.intent ∈ [.into, .before, .after, .toStart, .toEnd]) {result : Result ℚ}
    (hrun : (Call.moveTo projectId cardId request updatedAt).run env w = .ok result w')
    (now : Int) :
    ∃ moved placement result', w'.db.cards[cardId]? = some moved ∧
      resolve w'.db projectId cardId request now = .ok placement ∧
      placement.parentCardId = moved.parentCardId ∧ placement.sortKey = moved.sortKey ∧
      placement.siblingChanges = [] ∧
      (Call.moveTo projectId cardId request now).run env w' = .ok result' w' := by
  obtain ⟨card, placement, hmoved⟩ := moveTo_moved hw hrun
  obtain ⟨moved, again, hrow, hlive, rfl, hplan, hparent, hkey, hsiblings⟩ :=
    hmoved.again hw.keyed hintent now
  exact ⟨moved, again, _, hrow, hplan, hparent, hkey, hsiblings,
    moveTo_unmoved hmoved.tidy hrow hlive hplan hparent hkey hsiblings⟩

end CardStore

theorem twoRoots_before : ∃ result w',
    (Call.moveTo "home" "aaaa" ⟨.before, some "dddd", false, none⟩ 9).run (plainEnv fun _ => [])
      twoRoots = .ok result w' ∧ [some "bbbb"].map (liveOrder w'.db "home") =
      [["cccc", "aaaa", "dddd"]] :=
  ordersAfter_some (by decide +kernel)

theorem twoRoots_repeats : ∃ (w' : World ℚ) (placement : CardPlacementResult ℚ) (result' : Result ℚ),
    liveOrder w'.db "home" (some "bbbb") = ["cccc", "aaaa", "dddd"] ∧
    placement.siblingChanges = [] ∧
    (Call.moveTo "home" "aaaa" ⟨.before, some "dddd", false, none⟩ 10).run (plainEnv fun _ => [])
      w' = .ok result' w' := by
  obtain ⟨result, w', hrun, horder⟩ := twoRoots_before
  obtain ⟨moved, placement, result', -, -, -, -, hsiblings, hagain⟩ := CardStore.moveTo_repeats
    (runCalls_browsed _ _).tidy (by decide) hrun 10
  exact ⟨w', placement, result', by simpa using horder, hsiblings, hagain⟩

end HolderCore
