import HolderCore.Library.Spacing
import HolderCore.Card.HierarchyLemmas

/-! # The order of siblings

`card_tree_less` is the order of a lexicographic key, so a sibling list has one sorted form. A block
that gets new keys in a sorted list stays where it was put: the keys of its window lie strictly
between those around the window. -/

namespace HolderCore

section TreeOrder
variable [LinearOrder K]

/-- What `card_tree_less` compares, the later updates first. -/
def Card.treeKey (c : Card K) : K ×ₗ ℤᵒᵈ ×ₗ String ×ₗ String :=
  toLex (c.sortKey, toLex (OrderDual.toDual c.updatedAt, toLex (c.title.toLower, c.cardId)))

theorem cardTreeLess_iff {a b : Card K} : cardTreeLess a b = true ↔ a.treeKey < b.treeKey := by
  unfold cardTreeLess Card.treeKey
  simp only [Prod.Lex.toLex_lt_toLex, OrderDual.toDual_lt_toDual, OrderDual.toDual_inj]
  split
  · next h => simp [h]
  · next h =>
    split
    · next h' => simp [h, h'.ne']
    · next h' =>
      have heq : a.sortKey = b.sortKey := le_antisymm (not_lt.mp h') (not_lt.mp h)
      simp only [heq, lt_self_iff_false, true_and, false_or]
      split
      · next hu => simp [hu]
      · next hu =>
        rw [not_not.mp hu]
        split
        · next ht => simp [ht]
        · next ht => simp [not_not.mp ht]

theorem cardTreeLess_eq_false {a b : Card K} :
    cardTreeLess b a = false ↔ a.treeKey ≤ b.treeKey := by
  rw [← not_lt, ← cardTreeLess_iff, Bool.not_eq_true]

theorem treeKey_lt_of_sortKey {a b : Card K} (h : a.sortKey < b.sortKey) :
    a.treeKey < b.treeKey := by
  rw [← cardTreeLess_iff]
  simp [cardTreeLess, h]

theorem sortKey_le_of_treeKey {a b : Card K} (h : a.treeKey ≤ b.treeKey) :
    a.sortKey ≤ b.sortKey := by
  by_contra hlt
  exact absurd h (not_le.mpr (treeKey_lt_of_sortKey (not_le.mp hlt)))

omit [LinearOrder K] in
theorem cardId_of_treeKey {a b : Card K} (h : a.treeKey = b.treeKey) : a.cardId = b.cardId := by
  have h := congrArg (fun k => (ofLex (ofLex (ofLex k).2).2).2) h
  exact h

/-- In the order of `card_tree_less`. -/
def TreeSorted (cards : List (Card K)) : Prop := cards.Pairwise fun a b => a.treeKey ≤ b.treeKey

theorem TreeSorted.sublist {cards cards' : List (Card K)} (h : TreeSorted cards)
    (hsub : cards'.Sublist cards) : TreeSorted cards' := List.Pairwise.sublist hsub h

theorem treeSorted_treeSort (cards : List (Card K)) : TreeSorted (treeSort cards) := by
  have hsorted : (treeSort cards).Pairwise fun a b => cardTreeLess b a = false := by
    let _ : Std.Total fun a b : Card K => cardTreeLess b a = false := ⟨fun a b => by
      rw [cardTreeLess_eq_false, cardTreeLess_eq_false]
      exact le_total _ _⟩
    let _ : IsTrans (Card K) fun a b => cardTreeLess b a = false := ⟨fun a b c hab hbc => by
      rw [cardTreeLess_eq_false] at hab hbc ⊢
      exact hab.trans hbc⟩
    exact List.pairwise_insertionSort _ _
  exact hsorted.imp fun h => cardTreeLess_eq_false.mp h

/-- Cards with different ids have one sorted order. -/
theorem TreeSorted.eq_of_perm {cards cards' : List (Card K)} (h : TreeSorted cards)
    (h' : TreeSorted cards') (hperm : cards.Perm cards')
    (hnodup : (cards.map (·.cardId)).Nodup) : cards = cards' := by
  refine hperm.eq_of_pairwise (fun a b ha hb hab hba => ?_) h h'
  exact List.inj_on_of_nodup_map hnodup ha (hperm.mem_iff.mpr hb)
    (cardId_of_treeKey (le_antisymm hab hba))

theorem treeSort_eq_of_perm {cards sorted : List (Card K)} (hperm : cards.Perm sorted)
    (hsorted : TreeSorted sorted) (hnodup : (sorted.map (·.cardId)).Nodup) :
    treeSort cards = sorted := by
  refine (hsorted.eq_of_perm (treeSorted_treeSort cards) ?_ hnodup).symm
  exact (hperm.symm.trans (perm_treeSort cards).symm)

theorem TreeSorted.le_getLast {cards : List (Card K)} (h : TreeSorted cards) {c : Card K}
    (hc : c ∈ cards) : ∃ last, cards.getLast? = some last ∧ c.treeKey ≤ last.treeKey := by
  rcases List.eq_nil_or_concat cards with rfl | ⟨front, last, rfl⟩
  · cases hc
  · rw [List.concat_eq_append] at h hc ⊢
    refine ⟨last, by simp, ?_⟩
    rcases List.mem_append.mp hc with hc | hc
    · exact (List.pairwise_append.mp h).2.2 c hc last (List.mem_singleton_self _)
    · rw [List.mem_singleton.mp hc]

theorem TreeSorted.head_le {cards : List (Card K)} (h : TreeSorted cards) {c : Card K}
    (hc : c ∈ cards) : ∃ first, cards.head? = some first ∧ first.treeKey ≤ c.treeKey := by
  cases cards with
  | nil => cases hc
  | cons first cards =>
    refine ⟨first, rfl, ?_⟩
    rcases List.mem_cons.mp hc with rfl | hc
    · exact le_rfl
    · exact (List.pairwise_cons.mp h).1 c hc

end TreeOrder

/-! ## Spaced keys -/

section Keys
variable [SortKey K]

/-- Keys that rise strictly from `low` to `last` and stay below `high`. -/
structure KeysBetween (low high : K) (keys : List K) (last : K) : Prop where
  rising : keys.Pairwise (· < ·)
  above : ∀ k ∈ keys, low < k ∧ k ≤ last
  below : ∀ k ∈ keys, k < high ∧ SortKey.isFinite k = true
  last : low ≤ last

theorem KeysBetween.step {low high : K} {count i : Nat} {keys keys' : List K} {p p' : K}
    (h : KeysBetween low high keys p)
    (hstep : spacedKeysStep low high count (some (keys, p)) i = some (keys', p')) :
    KeysBetween low high keys' p' := by
  simp only [spacedKeysStep, Option.bind_eq_bind, Option.bind_some] at hstep
  split at hstep
  · cases hstep
  · next hok =>
    simp only [Bool.or_eq_true, Bool.not_eq_true', decide_eq_true_eq, not_or, Bool.not_eq_false,
      not_le] at hok
    obtain ⟨⟨hfinite, hrise⟩, hhigh⟩ := hok
    cases hstep
    refine ⟨?_, fun k hk => ?_, fun k hk => ?_, h.last.trans hrise.le⟩
    · refine List.pairwise_append.mpr ⟨h.rising, by simp, fun a ha b hb => ?_⟩
      rw [List.mem_singleton.mp hb]
      exact (h.above a ha).2.trans_lt hrise
    · rcases List.mem_append.mp hk with hk | hk
      · exact ⟨(h.above k hk).1, ((h.above k hk).2.trans_lt hrise).le⟩
      · rw [List.mem_singleton.mp hk]
        exact ⟨h.last.trans_lt hrise, le_rfl⟩
    · rcases List.mem_append.mp hk with hk | hk
      · exact h.below k hk
      · rw [List.mem_singleton.mp hk]
        exact ⟨hhigh, hfinite⟩

private theorem spacedKeys_foldl_between {low high : K} {count : Nat} {is : List Nat}
    {keys keys' : List K} {p p' : K} (h : KeysBetween low high keys p)
    (hfold : is.foldl (spacedKeysStep low high count) (some (keys, p)) = some (keys', p')) :
    KeysBetween low high keys' p' := by
  induction is generalizing keys p with
  | nil =>
    cases hfold
    exact h
  | cons i is ih =>
    rw [List.foldl_cons] at hfold
    cases hstep : spacedKeysStep low high count (some (keys, p)) i with
    | none =>
      have hnone : is.foldl (spacedKeysStep low high count) none = none := by
        clear hfold ih
        induction is with
        | nil => rfl
        | cons i is ih => exact ih
      rw [hstep, hnone] at hfold
      cases hfold
    | some state =>
      rw [hstep] at hfold
      exact ih (h.step hstep) hfold

/-- The keys the code accepts rise strictly between the neighbours that are there. -/
theorem spacedKeys_between {left right : Option K} {count : Nat} {keys : List K}
    (h : spacedKeys left right count = some keys) : keys.Pairwise (· < ·) ∧
      (∀ l, left = some l → ∀ k ∈ keys, l < k) ∧ (∀ r, right = some r → ∀ k ∈ keys, k < r) ∧
      ∀ k ∈ keys, SortKey.isFinite k = true := by
  simp only [spacedKeys, Option.map_eq_some_iff, Prod.exists] at h
  obtain ⟨keys', p, h, rfl⟩ := h
  have hbetween := spacedKeys_foldl_between ⟨.nil, by simp, by simp, le_rfl⟩ h
  refine ⟨hbetween.rising, ?_, ?_, fun k hk => (hbetween.below k hk).2⟩
  · rintro l rfl k hk
    simpa using (hbetween.above k hk).1
  · rintro r rfl k hk
    simpa using (hbetween.below k hk).1

end Keys

/-! ## Exact keys -/

section Exact

/-- The ends of the interval that exact keys divide. -/
def spanLow (left right : Option ℚ) (count : Nat) : ℚ :=
  left.getD (right.elim 0 (· - count - 1))

def spanHigh (left right : Option ℚ) (count : Nat) : ℚ :=
  right.getD (left.getD 0 + count + 1)

theorem spanLow_lt_spanHigh {left right : Option ℚ} (count : Nat)
    (h : ∀ l, left = some l → ∀ r, right = some r → l < r) :
    spanLow left right count < spanHigh left right count := by
  have hpos : (0 : ℚ) < count + 1 := by positivity
  unfold spanLow spanHigh
  cases left with
  | none => cases right <;> simp <;> linarith
  | some l =>
    cases right with
    | none => simp; linarith
    | some r => simpa using h l rfl r rfl

private theorem spacedKeys_foldl_exact {low high : ℚ} {count : Nat} (h : low < high) (n : Nat)
    (hn : n ≤ count) : (List.range n).foldl (spacedKeysStep low high count) (some ([], low)) =
      some ((List.range n).map fun i => tick low high count (i + 1), tick low high count n) := by
  induction n with
  | zero => simp
  | succ n ih =>
    rw [List.range_succ, List.foldl_append, ih (by omega)]
    have hkey : low * ((1 : Nat) - ((n + 1 : Nat) : ℚ) / ((count : Nat) + ((1 : Nat) : ℚ))) +
        high * (((n + 1 : Nat) : ℚ) / ((count : Nat) + ((1 : Nat) : ℚ))) =
          tick low high count (n + 1) := by
      rw [tick_eq_weighted]
      push_cast
      ring
    have hrise : tick low high count n < tick low high count (n + 1) :=
      tick_lt_tick h (Nat.lt_succ_self n)
    have hbelow : tick low high count (n + 1) < high := by
      have hlast : tick low high count (n + 1) < tick low high count (count + 1) :=
        tick_lt_tick h (by omega)
      rwa [tick_last] at hlast
    simp only [List.foldl_cons, List.foldl_nil, spacedKeysStep, Option.bind_eq_bind,
      Option.bind_some]
    rw [show (low * ((1 : Nat) - ((n + 1 : Nat) : ℚ) / ((count : Nat) + ((1 : Nat) : ℚ))) +
        high * (((n + 1 : Nat) : ℚ) / ((count : Nat) + ((1 : Nat) : ℚ)))) = _ from hkey]
    rw [if_neg]
    · simp
    · simp only [Bool.or_eq_true, Bool.not_eq_true', decide_eq_true_eq, not_or, Bool.not_eq_false,
        not_le]
      exact ⟨⟨rfl, hrise⟩, hbelow⟩

/-- Exact keys fit between any two neighbours that are in strict order. -/
theorem spacedKeys_exact {left right : Option ℚ} (count : Nat)
    (h : ∀ l, left = some l → ∀ r, right = some r → l < r) :
    spacedKeys left right count = some ((List.range count).map fun i =>
      tick (spanLow left right count) (spanHigh left right count) count (i + 1)) := by
  have hspan := spacedKeys_foldl_exact (spanLow_lt_spanHigh count h) count le_rfl
  have hstart : spacedKeys left right count = ((List.range count).foldl (spacedKeysStep
      (spanLow left right count) (spanHigh left right count) count)
      (some ([], spanLow left right count))).map (·.1) := by
    unfold spacedKeys spanLow spanHigh
    cases left <;> cases right <;> simp
  rw [hstart, hspan]
  rfl

/-- With exact keys the widest window always fits, and the radius reaches it. -/
theorem respaceFrom_exact {slots : List (Slot ℚ)} {index blockEnd fuel radius : Nat}
    (updatedAt : Int) (hindex : index ≤ slots.length) (hpos : 0 < fuel)
    (hfuel : slots.length < fuel + radius) :
    ∃ result, respaceFrom slots index blockEnd updatedAt fuel radius = .ok result := by
  induction fuel generalizing radius with
  | zero => omega
  | succ fuel ih =>
    rw [respaceFrom]
    simp only
    split
    · exact ⟨_, rfl⟩
    · next hnone =>
      split
      · next hfull =>
        -- The whole list has no neighbours to fit between.
        rw [hfull.2, if_pos hfull.1, List.getElem?_eq_none le_rfl, Option.map_none,
          spacedKeys_exact _ (by simp)] at hnone
        cases hnone
      · next hfull =>
        have hradius : radius < slots.length := by
          by_contra hle
          exact hfull ⟨by omega, by omega⟩
        exact ih (by omega) (by split <;> omega)

end Exact
/-! ## The window of a block -/

/-- The window of a sibling list in which a block gets its keys: the cards around the block inside
the window, those on either side of it, and the keys. -/
structure BlockWindow (K : Type) where
  left : List (Card K)
  before : List (Card K)
  after : List (Card K)
  right : List (Card K)
  keys : List K

section Window
variable [SortKey K]

/-- A block under its parent, between siblings. -/
def slotsAround (before block after : List (Card K)) (parent : Option String) : List (Slot K) :=
  before.map (⟨·, false⟩) ++ block.map (fun card => ⟨{ card with parentCardId := parent }, true⟩) ++
    after.map (⟨·, false⟩)

/-- The cards of the window under their keys, and whether that changes them. -/
def BlockWindow.cells (window : BlockWindow K) (block : List (Card K)) (parent : Option String)
    (updatedAt : Int) : List (Card K × Bool) :=
  (slotsAround window.before block window.after parent).zipWith (·.respace updatedAt) window.keys

/-- The siblings with the block in their midst. -/
def BlockWindow.placed (window : BlockWindow K) (block : List (Card K)) (parent : Option String)
    (updatedAt : Int) : List (Card K) :=
  window.left ++ (window.cells block parent updatedAt).map (·.1) ++ window.right

/-- The cards the window changes. -/
def BlockWindow.changed (window : BlockWindow K) (block : List (Card K)) (parent : Option String)
    (updatedAt : Int) : List (Card K) :=
  ((window.cells block parent updatedAt).filter (·.2)).map (·.1)

/-- A window of a list around a block, with room for its keys between the neighbours. -/
structure BlockWindow.Fits (window : BlockWindow K) (destination : List (Card K)) (index : Nat)
    (block : List (Card K)) : Prop where
  take : destination.take index = window.left ++ window.before
  drop : destination.drop index = window.after ++ window.right
  keys : spacedKeys (window.left.getLast?.map (·.sortKey)) (window.right.head?.map (·.sortKey))
    (window.before.length + block.length + window.after.length) = some window.keys

private theorem respaceFrom_window {slots : List (Slot K)}
    (h : respaceFrom slots index blockEnd updatedAt fuel radius = .ok (placed, changed)) :
    ∃ low high keys, low ≤ index ∧ min slots.length blockEnd ≤ high ∧ high ≤ slots.length ∧
      spacedKeys (if low = 0 then none else slots[low - 1]?.map (·.card.sortKey))
        (slots[high]?.map (·.card.sortKey)) (high - low) = some keys ∧
      placed = (slots.take low).map (·.card) ++
        (((slots.drop low).take (high - low)).zipWith (·.respace updatedAt) keys).map (·.1) ++
        (slots.drop high).map (·.card) ∧
      changed = ((((slots.drop low).take (high - low)).zipWith (·.respace updatedAt) keys).filter
        (·.2)).map (·.1) := by
  induction fuel generalizing radius with
  | zero => cases h
  | succ fuel ih =>
    rw [respaceFrom] at h
    simp only at h
    split at h
    · next keys hkeys =>
      injection h with h
      injection h with hplaced hchanged
      exact ⟨_, _, keys, Nat.sub_le _ _, by omega, by omega, hkeys, hplaced.symm, hchanged.symm⟩
    · split at h
      · cases h
      · exact ih h

theorem window_of_append {α : Type} (before block after : List α) (low n : Nat)
    (hlow : low ≤ before.length) :
    (before ++ block ++ after).take low = before.take low ∧
      ((before ++ block ++ after).drop low).take (before.length + block.length + n - low) =
        before.drop low ++ block ++ after.take n ∧
      (before ++ block ++ after).drop (before.length + block.length + n) = after.drop n ∧
      (before ++ block ++ after)[before.length + block.length + n]? = (after.drop n).head? ∧
      (if low = 0 then none else (before ++ block ++ after)[low - 1]?) =
        (before.take low).getLast? := by
  have hdrop : (before ++ block ++ after).drop low = before.drop low ++ block ++ after := by
    rw [List.append_assoc, List.drop_append_of_le_length hlow, List.append_assoc]
  have hcount : before.length + block.length + n - low =
      (before.drop low ++ block).length + n := by
    rw [List.length_append, List.length_drop]
    omega
  refine ⟨?_, ?_, ?_, ?_, ?_⟩
  · rw [List.append_assoc, List.take_append_of_le_length hlow]
  · rw [hdrop, hcount, List.take_length_add_append]
  · rw [← List.length_append, List.drop_length_add_append]
  · rw [← List.length_append, List.getElem?_append_right (by omega), List.head?_drop]
    congr 1
    omega
  · split
    · next h => simp [h]
    · next h =>
      rw [List.append_assoc, List.getElem?_append_left (by omega), List.getLast?_eq_getElem?,
        List.length_take, Nat.min_eq_left hlow, List.getElem?_take, if_pos (by omega)]

/-- Every insertion of a block re-spaces one window around it. -/
theorem insertBlockInto_window {destination block placed changed : List (Card K)} {index : Nat}
    {parent : Option String} {updatedAt : Int} (hblock : block ≠ [])
    (hindex : index ≤ destination.length)
    (h : insertBlockInto destination index block parent updatedAt = .ok (placed, changed)) :
    ∃ window : BlockWindow K, window.Fits destination index block ∧
      placed = window.placed block parent updatedAt ∧
      changed = window.changed block parent updatedAt := by
  unfold insertBlockInto at h
  rw [if_neg (by simpa using hblock)] at h
  change respaceFrom (slotsAround (destination.take index) block (destination.drop index) parent)
    _ _ _ _ _ = _ at h
  obtain ⟨low, high, keys, hlow, hhigh, hle, hkeys, rfl, rfl⟩ := respaceFrom_window h
  have hlen : (destination.take index).length = index := by simp; omega
  have hslots : (slotsAround (destination.take index) block (destination.drop index)
      parent).length = index + block.length + (destination.length - index) := by
    simp [slotsAround]
    omega
  rw [hslots] at hhigh hle
  obtain ⟨n, rfl⟩ : ∃ n, high = index + block.length + n :=
    ⟨high - (index + block.length), by omega⟩
  obtain ⟨htake, hwindow, hdrop, hright, hleft⟩ := window_of_append
    ((destination.take index).map (⟨·, false⟩ : Card K → Slot K))
    (block.map fun card => ⟨{ card with parentCardId := parent }, true⟩)
    ((destination.drop index).map (⟨·, false⟩)) low n (by rw [List.length_map, hlen]; exact hlow)
  simp only [List.length_map, hlen] at hwindow hdrop hright
  refine ⟨⟨(destination.take index).take low, (destination.take index).drop low,
    (destination.drop index).take n, (destination.drop index).drop n, keys⟩,
    ⟨(List.take_append_drop _ _).symm, (List.take_append_drop _ _).symm, ?_⟩, ?_, ?_⟩
  · have hleft := congrArg (Option.map fun slot : Slot K => slot.card.sortKey) hleft
    rw [apply_ite (Option.map fun slot : Slot K => slot.card.sortKey), Option.map_none,
      ← List.map_take, List.getLast?_map, Option.map_map] at hleft
    have hright := congrArg (Option.map fun slot : Slot K => slot.card.sortKey) hright
    rw [← List.map_drop, List.head?_map, Option.map_map] at hright
    have hcount : ((destination.take index).drop low).length + block.length +
        ((destination.drop index).take n).length = index + block.length + n - low := by
      simp only [List.length_drop, List.length_take]
      omega
    rw [hcount, ← hkeys]
    exact congrArg₂ (spacedKeys · · _) hleft.symm hright.symm
  · unfold slotsAround BlockWindow.placed BlockWindow.cells
    rw [htake, hwindow, hdrop]
    simp [slotsAround, List.map_take, List.map_drop, Function.comp_def]
  · unfold slotsAround BlockWindow.changed BlockWindow.cells
    rw [hwindow]
    simp [slotsAround, List.map_take, List.map_drop]

/-- Where the keys of the block fit between its neighbours, no sibling changes. -/
theorem insertBlockInto_room {destination block : List (Card K)} {index : Nat} {keys : List K}
    (parent : Option String) (updatedAt : Int) (hblock : block ≠ [])
    (hindex : index ≤ destination.length)
    (hkeys : spacedKeys ((destination.take index).getLast?.map (·.sortKey))
      ((destination.drop index).head?.map (·.sortKey)) block.length = some keys) :
    let window : BlockWindow K := ⟨destination.take index, [], [], destination.drop index, keys⟩
    insertBlockInto destination index block parent updatedAt =
      .ok (window.placed block parent updatedAt, window.changed block parent updatedAt) := by
  have hlen : (destination.take index).length = index := by simp; omega
  have hslots : (slotsAround (destination.take index) block (destination.drop index)
      parent).length = index + block.length + (destination.length - index) := by
    simp [slotsAround]
    omega
  obtain ⟨htake, hwindow, hdrop, hright, hleft⟩ := window_of_append
    ((destination.take index).map (⟨·, false⟩ : Card K → Slot K))
    (block.map fun card => ⟨{ card with parentCardId := parent }, true⟩)
    ((destination.drop index).map (⟨·, false⟩)) index 0 (by rw [List.length_map, hlen])
  simp only [List.length_map, hlen, Nat.add_zero, List.drop_zero] at hwindow hdrop hright
  have hleft := congrArg (Option.map fun slot : Slot K => slot.card.sortKey) hleft
  rw [apply_ite (Option.map fun slot : Slot K => slot.card.sortKey), Option.map_none,
    ← List.map_take, List.take_take, Nat.min_self, List.getLast?_map, Option.map_map] at hleft
  have hright := congrArg (Option.map fun slot : Slot K => slot.card.sortKey) hright
  rw [List.head?_map, Option.map_map] at hright
  unfold insertBlockInto
  rw [if_neg (by simpa using hblock)]
  change respaceFrom (slotsAround (destination.take index) block (destination.drop index) parent)
    _ _ _ _ _ = _
  rw [respaceFrom]
  simp only [Nat.sub_zero, Nat.add_zero, hslots, Nat.min_eq_right (Nat.le_add_right _ _),
    Nat.add_sub_cancel_left]
  unfold slotsAround
  rw [hleft, hright]
  have hsame : spacedKeys (((destination.take index).getLast?).map
      ((fun slot : Slot K => slot.card.sortKey) ∘ (⟨·, false⟩)))
      (((destination.drop index).head?).map
      ((fun slot : Slot K => slot.card.sortKey) ∘ (⟨·, false⟩))) block.length = some keys := hkeys
  rw [hsame]
  simp only [BlockWindow.placed, BlockWindow.changed, BlockWindow.cells, slotsAround, htake, hdrop]
  simp only [Nat.add_sub_cancel_left] at hwindow
  rw [hwindow]
  simp [Function.comp_def, List.map_take]

theorem Slot.respace_card (slot : Slot K) (key : K) (updatedAt : Int) :
    (slot.respace updatedAt key).1.sortKey = key ∧
      (slot.respace updatedAt key).1.cardId = slot.card.cardId := by
  unfold Slot.respace
  split
  · exact ⟨rfl, rfl⟩
  · next h =>
    simp only [Bool.or_eq_true, bne_iff_ne, ne_eq, not_or, not_not] at h
    exact ⟨h.2, rfl⟩

theorem Slot.respace_kept (slot : Slot K) {key : K} {updatedAt : Int}
    (h : (slot.respace updatedAt key).2 = false) :
    slot.placed = false ∧ (slot.respace updatedAt key).1 = slot.card := by
  unfold Slot.respace at h ⊢
  split
  · next hc =>
    rw [if_pos hc] at h
    cases h
  · next hc =>
    simp only [Bool.or_eq_true, not_or, Bool.not_eq_true] at hc
    exact ⟨hc.1, rfl⟩

private theorem zipWith_respace (slots : List (Slot K)) (keys : List K) (updatedAt : Int)
    (hlen : slots.length = keys.length) :
    (slots.zipWith (·.respace updatedAt) keys).map (·.1.sortKey) = keys ∧
      (slots.zipWith (·.respace updatedAt) keys).map (·.1.cardId) =
        slots.map (·.card.cardId) ∧
      List.Forall₂ (fun slot cell => ∃ key, cell = slot.respace updatedAt key) slots
        (slots.zipWith (·.respace updatedAt) keys) := by
  induction slots generalizing keys with
  | nil =>
    rw [List.length_eq_zero_iff.mp hlen.symm]
    simp
  | cons slot slots ih =>
    obtain ⟨key, keys, rfl⟩ := List.exists_cons_of_length_eq_add_one hlen.symm
    obtain ⟨hkeys, hids, hcells⟩ := ih keys (by simpa using hlen)
    obtain ⟨hkey, hid⟩ := slot.respace_card key updatedAt
    rw [List.zipWith_cons_cons, List.map_cons, List.map_cons, hkeys, hids, hkey, hid]
    exact ⟨rfl, rfl, .cons ⟨key, rfl⟩ hcells⟩

section
variable {window : BlockWindow K} {destination block : List (Card K)} {index : Nat}
  (hfits : window.Fits destination index block) (parent : Option String) (updatedAt : Int)
include hfits

theorem BlockWindow.Fits.length_keys : (slotsAround window.before block window.after
    parent).length = window.keys.length := by
  rw [spacedKeys_length hfits.keys]
  simp [slotsAround, add_assoc]

theorem BlockWindow.Fits.cells_keys :
    (window.cells block parent updatedAt).map (·.1.sortKey) = window.keys :=
  (zipWith_respace _ _ _ (hfits.length_keys parent)).1

theorem BlockWindow.Fits.cells_ids : (window.cells block parent updatedAt).map (·.1.cardId) =
    window.before.map (·.cardId) ++ block.map (·.cardId) ++ window.after.map (·.cardId) := by
  rw [BlockWindow.cells, (zipWith_respace _ _ _ (hfits.length_keys parent)).2.1]
  simp [slotsAround, Function.comp_def]

/-- A cell is a slot of the window under its key. -/
theorem BlockWindow.Fits.forall₂_cells : List.Forall₂
    (fun slot cell => ∃ key, cell = slot.respace updatedAt key)
    (slotsAround window.before block window.after parent) (window.cells block parent updatedAt) :=
  (zipWith_respace _ _ _ (hfits.length_keys parent)).2.2

omit hfits in
theorem BlockWindow.mem_changed {c : Card K} (h : c ∈ window.changed block parent updatedAt) :
    c ∈ window.placed block parent updatedAt := by
  obtain ⟨cell, hcell, rfl⟩ := List.mem_map.mp h
  refine List.mem_append_left _ (List.mem_append_right _ (List.mem_map.mpr ⟨cell, ?_, rfl⟩))
  exact List.mem_of_mem_filter hcell

theorem BlockWindow.Fits.placed_ids : (window.placed block parent updatedAt).map (·.cardId) =
    (destination.take index ++ block ++ destination.drop index).map (·.cardId) := by
  have hids := hfits.cells_ids parent updatedAt
  rw [hfits.take, hfits.drop]
  simp only [placed, List.map_append, List.map_map, Function.comp_def, hids, List.append_assoc]

theorem BlockWindow.Fits.placed_nodup (hnodup : ((destination ++ block).map (·.cardId)).Nodup) :
    ((window.placed block parent updatedAt).map (·.cardId)).Nodup := by
  rw [hfits.placed_ids]
  refine (List.Perm.nodup_iff (List.Perm.map _ ?_)).mpr hnodup
  have hswap : (destination.take index ++ (block ++ destination.drop index)).Perm
      (destination.take index ++ (destination.drop index ++ block)) :=
    List.perm_append_comm.append_left _
  rw [← List.append_assoc, ← List.append_assoc, List.take_append_drop] at hswap
  exact hswap

/-- A card changes once. -/
theorem BlockWindow.Fits.changed_nodup (hnodup : ((destination ++ block).map (·.cardId)).Nodup) :
    ((window.changed block parent updatedAt).map (·.cardId)).Nodup := by
  have hsub : (window.changed block parent updatedAt).Sublist
      (window.placed block parent updatedAt) := by
    unfold BlockWindow.placed BlockWindow.changed
    rw [List.append_assoc]
    exact ((List.filter_sublist.map _).trans (List.sublist_append_left _ _)).trans
      (List.sublist_append_right _ _)
  exact (hsub.map _).nodup (hfits.placed_nodup parent updatedAt hnodup)

/-- Every card of the block changes. -/
theorem BlockWindow.Fits.block_changed {b : Card K} (hb : b ∈ block) :
    ∃ c ∈ window.changed block parent updatedAt, c.cardId = b.cardId := by
  have hslot : (⟨{ b with parentCardId := parent }, true⟩ : Slot K) ∈
      slotsAround window.before block window.after parent := by
    simp only [slotsAround, List.mem_append, List.mem_map]
    exact .inl (.inr ⟨b, hb, rfl⟩)
  obtain ⟨cell, hcell, key, rfl⟩ := (hfits.forall₂_cells parent updatedAt).exists_right hslot
  exact ⟨_, List.mem_map.mpr ⟨_, List.mem_filter.mpr ⟨hcell, rfl⟩, rfl⟩, rfl⟩

/-- The keys of the window separate what is left of it from what is right of it. -/
theorem BlockWindow.Fits.placed_sorted (hsorted : TreeSorted destination) :
    TreeSorted (window.placed block parent updatedAt) := by
  have hkeys := hfits.cells_keys parent updatedAt
  obtain ⟨hrising, hleft, hright, -⟩ := spacedKeys_between hfits.keys
  have hdest : TreeSorted (window.left ++ window.before ++ (window.after ++ window.right)) := by
    rw [← hfits.take, ← hfits.drop, List.take_append_drop]
    exact hsorted
  obtain ⟨hbefore, hafter, hcross⟩ := List.pairwise_append.mp hdest
  have hwindow : ∀ c ∈ (window.cells block parent updatedAt).map (·.1),
      c.sortKey ∈ window.keys := by
    intro c hc
    obtain ⟨cell, hcell, rfl⟩ := List.mem_map.mp hc
    rw [← hkeys]
    exact List.mem_map.mpr ⟨cell, hcell, rfl⟩
  have hbelow : ∀ c ∈ window.left, ∀ k ∈ window.keys, c.sortKey < k := by
    intro c hc k hk
    obtain ⟨last, hlast, hle⟩ := TreeSorted.le_getLast (List.pairwise_append.mp hbefore).1 hc
    exact (sortKey_le_of_treeKey hle).trans_lt (hleft last.sortKey (by simp [hlast]) k hk)
  have habove : ∀ c ∈ window.right, ∀ k ∈ window.keys, k < c.sortKey := by
    intro c hc k hk
    obtain ⟨first, hfirst, hle⟩ := TreeSorted.head_le (List.pairwise_append.mp hafter).2.1 hc
    exact (hright first.sortKey (by simp [hfirst]) k hk).trans_le (sortKey_le_of_treeKey hle)
  refine List.pairwise_append.mpr ⟨List.pairwise_append.mpr ⟨?_, ?_, fun a ha b hb => ?_⟩, ?_,
    fun a ha b hb => ?_⟩
  · exact (List.pairwise_append.mp hbefore).1
  · rw [List.pairwise_map]
    rw [← hkeys, List.pairwise_map] at hrising
    exact hrising.imp fun h => (treeKey_lt_of_sortKey h).le
  · exact (treeKey_lt_of_sortKey (hbelow a ha _ (hwindow b hb))).le
  · exact (List.pairwise_append.mp hafter).2.1
  · rcases List.mem_append.mp ha with ha | ha
    · exact hcross a (List.mem_append_left _ ha) b (List.mem_append_right _ hb)
    · exact (treeKey_lt_of_sortKey (habove b hb _ (hwindow a ha))).le

/-- The list afterwards holds the cards that changed and, untouched, the siblings that did not. -/
theorem BlockWindow.Fits.mem_placed (hnodup : ((destination ++ block).map (·.cardId)).Nodup)
    {c : Card K} : c ∈ window.placed block parent updatedAt ↔
      c ∈ window.changed block parent updatedAt ∨ c ∈ destination ∧
        ∀ d ∈ window.changed block parent updatedAt, d.cardId ≠ c.cardId := by
  have hdest : ∀ d, d ∈ destination ↔
      d ∈ window.left ∨ d ∈ window.before ∨ d ∈ window.after ∨ d ∈ window.right := by
    intro d
    rw [← List.take_append_drop index destination, hfits.take, hfits.drop]
    simp
  have hcells := hfits.forall₂_cells parent updatedAt
  constructor
  · intro hc
    by_cases hchanged : c ∈ window.changed block parent updatedAt
    · exact .inl hchanged
    refine .inr ⟨(hdest c).mpr ?_, fun d hd he => hchanged ?_⟩
    · simp only [placed, List.mem_append, List.mem_map] at hc
      rcases hc with (hc | ⟨cell, hcell, rfl⟩) | hc
      · exact .inl hc
      · -- A cell that did not change is not one of the block.
        obtain ⟨slot, hslot, key, rfl⟩ := hcells.exists_left hcell
        have hsame : (slot.respace updatedAt key).2 = false := by
          by_contra hflag
          refine hchanged (List.mem_map.mpr ⟨_, List.mem_filter.mpr ⟨hcell, ?_⟩, rfl⟩)
          simpa using hflag
        obtain ⟨hplaced, hcard⟩ := slot.respace_kept hsame
        rw [hcard]
        simp only [slotsAround, List.mem_append, List.mem_map] at hslot
        rcases hslot with (⟨d, hd, rfl⟩ | ⟨d, hd, rfl⟩) | ⟨d, hd, rfl⟩
        · exact .inr (.inl hd)
        · cases hplaced
        · exact .inr (.inr (.inl hd))
      · exact .inr (.inr (.inr hc))
    · exact (List.inj_on_of_nodup_map (hfits.placed_nodup parent updatedAt hnodup)
        (window.mem_changed parent updatedAt hd) hc he) ▸ hd
  · rintro (hc | ⟨hc, hfree⟩)
    · exact window.mem_changed parent updatedAt hc
    · simp only [placed, List.mem_append, List.mem_map]
      have hbeside : (⟨c, false⟩ : Slot K) ∈ slotsAround window.before block window.after parent →
          ∃ cell ∈ window.cells block parent updatedAt, cell.1 = c := by
        intro hslot
        obtain ⟨cell, hcell, key, rfl⟩ := hcells.exists_right hslot
        refine ⟨_, hcell, ?_⟩
        by_contra hne
        refine hfree _ (List.mem_map.mpr ⟨_, List.mem_filter.mpr ⟨hcell, ?_⟩, rfl⟩)
          ((⟨c, false⟩ : Slot K).respace_card key updatedAt).2
        by_contra hflag
        exact hne ((⟨c, false⟩ : Slot K).respace_kept (by simpa using hflag)).2
      rcases (hdest c).mp hc with hc | hc | hc | hc
      · exact .inl (.inl hc)
      · exact .inl (.inr (hbeside (by simp [slotsAround, hc])))
      · exact .inl (.inr (hbeside (by simp [slotsAround, hc])))
      · exact .inr hc

end

end Window

/-! ## Inserting a block -/

/-- The cards with every change in the place of the card it is about. -/
def applyChanges (changed cards : List (Card K)) : List (Card K) :=
  cards.map fun c => (changed.find? (·.cardId == c.cardId)).getD c

section Insertion
variable [SortKey K]

omit [SortKey K] in
theorem applyChanges_ids (changed cards : List (Card K)) :
    (applyChanges changed cards).map (·.cardId) = cards.map (·.cardId) := by
  rw [applyChanges, List.map_map]
  refine List.map_congr_left fun c _ => ?_
  cases hf : changed.find? (·.cardId == c.cardId) with
  | none => simp [hf]
  | some d => simpa [hf] using List.find?_some hf

/-- With the changes applied, the siblings and the block are the cards of the list that was
returned. -/
theorem BlockWindow.Fits.perm_applyChanges {window : BlockWindow K}
    {destination block cards : List (Card K)} {index : Nat}
    (hfits : window.Fits destination index block) (parent : Option String) (updatedAt : Int)
    (hnodup : ((destination ++ block).map (·.cardId)).Nodup)
    (hperm : cards.Perm (destination ++ block)) :
    (applyChanges (window.changed block parent updatedAt) cards).Perm
      (window.placed block parent updatedAt) := by
  have hplaced := hfits.placed_nodup parent updatedAt hnodup
  have hcards : (cards.map (·.cardId)).Nodup := (hperm.map _).nodup_iff.mpr hnodup
  have hids : ∀ c ∈ window.placed block parent updatedAt, ∃ d ∈ cards, d.cardId = c.cardId := by
    intro c hc
    have hid : c.cardId ∈ (destination.take index ++ block ++ destination.drop index).map
        (·.cardId) := by
      rw [← hfits.placed_ids parent updatedAt]
      exact List.mem_map.mpr ⟨c, hc, rfl⟩
    obtain ⟨d, hd, he⟩ := List.mem_map.mp hid
    refine ⟨d, hperm.mem_iff.mpr ?_, he⟩
    simp only [List.mem_append] at hd ⊢
    rcases hd with (hd | hd) | hd
    · exact .inl (List.mem_of_mem_take hd)
    · exact .inr hd
    · exact .inl (List.mem_of_mem_drop hd)
  rw [List.perm_ext_iff_of_nodup (.of_map _ (by rw [applyChanges_ids]; exact hcards))
    (.of_map _ hplaced)]
  intro c
  rw [hfits.mem_placed parent updatedAt hnodup, applyChanges, List.mem_map]
  constructor
  · rintro ⟨d, hd, rfl⟩
    cases hf : (window.changed block parent updatedAt).find? (·.cardId == d.cardId) with
    | some c => exact .inl (List.mem_of_find?_eq_some hf)
    | none =>
      have hfree : ∀ c ∈ window.changed block parent updatedAt, c.cardId ≠ d.cardId := by
        intro c hc
        simpa using List.find?_eq_none.mp hf c hc
      rcases List.mem_append.mp (hperm.mem_iff.mp hd) with hd | hd
      · exact .inr ⟨hd, hfree⟩
      · obtain ⟨c, hc, he⟩ := hfits.block_changed parent updatedAt hd
        exact absurd he (hfree c hc)
  · rintro (hc | ⟨hc, hfree⟩)
    · obtain ⟨d, hd, he⟩ := hids c (window.mem_changed parent updatedAt hc)
      refine ⟨d, hd, ?_⟩
      cases hf : (window.changed block parent updatedAt).find? (·.cardId == d.cardId) with
      | none =>
        have := List.find?_eq_none.mp hf c hc
        simp [he] at this
      | some c' =>
        have hid : c'.cardId = d.cardId := by simpa using List.find?_some hf
        exact List.inj_on_of_nodup_map hplaced
          (window.mem_changed parent updatedAt (List.mem_of_find?_eq_some hf))
          (window.mem_changed parent updatedAt hc) (hid.trans he)
    · refine ⟨c, hperm.mem_iff.mpr (List.mem_append_left _ hc), ?_⟩
      rw [List.find?_eq_none.mpr fun d hd => by simpa using hfree d hd]
      rfl

/-- The cells of the window: the siblings before the block, the block, the siblings after it. -/
theorem BlockWindow.Fits.cells_split {window : BlockWindow K}
    {destination block : List (Card K)} {index : Nat}
    (hfits : window.Fits destination index block) (parent : Option String) (updatedAt : Int) :
    ∃ before block' after, (window.cells block parent updatedAt).map (·.1) =
        before ++ block' ++ after ∧
      List.Forall₂ (fun c c' => c' = c ∨ ∃ key, c' = { c with sortKey := key, updatedAt })
        window.before before ∧
      List.Forall₂ (fun c c' => ∃ key, c' =
        { c with parentCardId := parent, sortKey := key, updatedAt }) block block' ∧
      List.Forall₂ (fun c c' => c' = c ∨ ∃ key, c' = { c with sortKey := key, updatedAt })
        window.after after := by
  have hcells := (hfits.forall₂_cells parent updatedAt).flip
  have hbeside : ∀ (cards : List (Card K)) (cells : List (Card K × Bool)), List.Forall₂
      (flip fun slot cell => ∃ key, cell = Slot.respace updatedAt slot key) cells
        (cards.map (⟨·, false⟩ : Card K → Slot K)) →
      List.Forall₂ (fun c c' => c' = c ∨ ∃ key, c' = { c with sortKey := key, updatedAt })
        cards (cells.map (·.1)) := by
    intro cards cells h
    rw [List.forall₂_map_right_iff] at h ⊢
    refine h.flip.imp ?_
    rintro c cell ⟨key, rfl⟩
    rcases Slot.respace_eq ⟨c, false⟩ key updatedAt with he | he
    · exact .inl (by rw [he])
    · exact .inr ⟨key, by rw [he]; rfl⟩
  have hfront := List.forall₂_take_append _ _ _ hcells
  have hblock : ∀ cells : List (Card K × Bool), List.Forall₂
      (flip fun slot cell => ∃ key, cell = Slot.respace updatedAt slot key) cells
        (block.map fun card => ⟨{ card with parentCardId := parent }, true⟩) →
      List.Forall₂ (fun c c' => ∃ key, c' =
        { c with parentCardId := parent, sortKey := key, updatedAt }) block (cells.map (·.1)) := by
    intro cells h
    rw [List.forall₂_map_right_iff] at h ⊢
    refine h.flip.imp ?_
    rintro c cell ⟨key, rfl⟩
    exact ⟨key, rfl⟩
  refine ⟨_, _, _, ?_, hbeside _ _ (List.forall₂_take_append _ _ _ hfront),
    hblock _ (List.forall₂_drop_append _ _ _ hfront),
    hbeside _ _ (List.forall₂_drop_append _ _ _ hcells)⟩
  rw [← List.map_append, List.take_append_drop, ← List.map_append, List.take_append_drop]

end Insertion

theorem insertBlockInto_exact {destination block : List (Card ℚ)} {index : Nat}
    (parent : Option String) (updatedAt : Int) (hindex : index ≤ destination.length) :
    ∃ result, insertBlockInto destination index block parent updatedAt = .ok result := by
  unfold insertBlockInto
  split
  · exact ⟨_, rfl⟩
  · exact respaceFrom_exact _ (by simp; omega) (by omega) (by omega)

/-- Inserting a block into sorted siblings ends, and the cards stay in the order they were put in. -/
theorem insertBlockInto_places {destination block : List (Card ℚ)} {index : Nat}
    (parent : Option String) (updatedAt : Int)
    (hsorted : destination.Pairwise fun a b => cardTreeLess b a = false)
    (hindex : index ≤ destination.length) (hblock : block ≠ []) :
    ∃ left before after right before' block' after' changed : List (Card ℚ),
      destination.take index = left ++ before ∧ destination.drop index = after ++ right ∧
      insertBlockInto destination index block parent updatedAt =
        .ok (left ++ (before' ++ block' ++ after') ++ right, changed) ∧
      List.Forall₂ (fun c c' => c' = c ∨ ∃ key, c' = { c with sortKey := key, updatedAt })
        before before' ∧
      List.Forall₂ (fun c c' => ∃ key, c' =
        { c with parentCardId := parent, sortKey := key, updatedAt }) block block' ∧
      List.Forall₂ (fun c c' => c' = c ∨ ∃ key, c' = { c with sortKey := key, updatedAt })
        after after' ∧
      (∀ c ∈ changed, c ∈ before' ++ block' ++ after') ∧
      ((before' ++ block' ++ after').map (·.sortKey)).Pairwise (· < ·) ∧
      (∀ l, left.getLast? = some l → ∀ c ∈ before' ++ block' ++ after', l.sortKey < c.sortKey) ∧
      (∀ r, right.head? = some r → ∀ c ∈ before' ++ block' ++ after', c.sortKey < r.sortKey) ∧
      (((destination ++ block).map (·.cardId)).Nodup → ∀ cards, cards.Perm (destination ++ block) →
        treeSort (applyChanges changed cards) = left ++ (before' ++ block' ++ after') ++ right) := by
  have htree : TreeSorted destination := hsorted.imp fun h => cardTreeLess_eq_false.mp h
  obtain ⟨⟨placed, changed⟩, hrun⟩ : ∃ result,
      insertBlockInto destination index block parent updatedAt = .ok result :=
    insertBlockInto_exact parent updatedAt hindex
  obtain ⟨window, hfits, rfl, rfl⟩ := insertBlockInto_window hblock hindex hrun
  obtain ⟨before', block', after', hcells, hbefore, hblock', hafter⟩ :=
    hfits.cells_split parent updatedAt
  obtain ⟨hrising, hleft, hright, -⟩ := spacedKeys_between hfits.keys
  have hkeys := hfits.cells_keys parent updatedAt
  have hmem : ∀ c ∈ before' ++ block' ++ after', c.sortKey ∈ window.keys := by
    intro c hc
    rw [← hcells] at hc
    obtain ⟨cell, hcell, rfl⟩ := List.mem_map.mp hc
    rw [← hkeys]
    exact List.mem_map.mpr ⟨cell, hcell, rfl⟩
  refine ⟨window.left, window.before, window.after, window.right, before', block', after',
    window.changed block parent updatedAt, hfits.take, hfits.drop, ?_, hbefore, hblock', hafter,
    fun c hc => ?_, ?_, fun l hl c hc => ?_, fun r hr c hc => ?_, fun hnodup cards hperm => ?_⟩
  · rw [hrun, BlockWindow.placed, hcells]
  · obtain ⟨cell, hcell, rfl⟩ := List.mem_map.mp hc
    rw [← hcells]
    exact List.mem_map.mpr ⟨cell, List.mem_of_mem_filter hcell, rfl⟩
  · rw [← hcells, List.map_map]
    exact hkeys ▸ hrising
  · exact hleft _ (by rw [hl]; rfl) _ (hmem c hc)
  · exact hright _ (by rw [hr]; rfl) _ (hmem c hc)
  · rw [← hcells]
    exact treeSort_eq_of_perm (hfits.perm_applyChanges parent updatedAt hnodup hperm)
      (hfits.placed_sorted parent updatedAt htree) (hfits.placed_nodup parent updatedAt hnodup)

/-- A root card with the sort key one and no title. -/
def tiedCard (cardId : String) (updatedAt : Int) : Card ℚ where
  cardId
  projectId := "home"
  title := ""
  relPath := livePath cardId
  parentCardId := none
  sortKey := 1
  createdAt := 0
  updatedAt
  deletedAt := none

/-- A card goes between two whose keys leave no room. -/
theorem tiedCards_places : ∃ placed changed : List (Card ℚ),
    insertBlockInto [tiedCard "aaaa" 2, tiedCard "bbbb" 1] 1 [tiedCard "cccc" 3] none 7 =
      .ok (placed, changed) ∧
    treeSort (applyChanges changed [tiedCard "cccc" 3, tiedCard "bbbb" 1, tiedCard "aaaa" 2]) = placed := by
  have hsorted : [tiedCard "aaaa" 2, tiedCard "bbbb" 1].Pairwise
      fun a b => cardTreeLess b a = false := by
    simp [tiedCard, cardTreeLess]
  obtain ⟨_, _, _, _, _, _, _, changed, -, -, hrun, -, -, -, -, -, -, -, hsort⟩ :=
    insertBlockInto_places none 7 hsorted
      (show 1 ≤ [tiedCard "aaaa" 2, tiedCard "bbbb" 1].length by decide)
      (List.cons_ne_nil (tiedCard "cccc" 3) [])
  exact ⟨_, changed, hrun, hsort (by decide) _ (by decide)⟩

end HolderCore
