import HolderCore.Card.Restoring
import HolderCore.Card.RepairLemmas

/-! # The lists a repair builds

`plan_hierarchy_repair` keeps, for each destination, the list of its live children with the branches
inserted so far, and a table of every card it changed. The list is what the live order there will be
once the table is stored. -/

namespace HolderCore

section
variable [SortKey K] {db : Db K} {projectId : String} {destination : Option String} {now : Int}

/-- A row once the changes of a repair are stored. -/
def rowAfter (db : Db K) (changed : Map String (Card K)) (id : String) : Option (Card K) :=
  (changed[id]?).or db.cards[id]?

/-- A list under construction: in order, each card once, as its row will be, from a live row of the
project, under the destination. It holds the live children that were there and the cards of `done`. -/
structure Listed (db : Db K) (projectId : String) (destination : Option String) (now : Int)
    (done : List String) (changed : Map String (Card K)) (list : List (Card K)) : Prop where
  sorted : TreeSorted list
  nodup : (list.map (·.cardId)).Nodup
  rows : ∀ c ∈ list, rowAfter db changed c.cardId = some c
  cards : ∀ c ∈ list, c.parentCardId = destination ∧ ∃ b, LiveRow db projectId b ∧
    (c = b ∨ ∃ key, c = b.placed destination key now)
  ids : ∀ id, id ∈ list.map (·.cardId) ↔ id ∈ liveOrder db projectId destination ∨ id ∈ done
  order : (list.map (·.cardId)).filter (liveOrder db projectId destination).contains =
    liveOrder db projectId destination

theorem Listed.start (hk : db.Keyed) {changed : Map String (Card K)}
    (hfresh : ∀ id ∈ liveOrder db projectId destination, changed[id]? = none) :
    Listed db projectId destination now [] changed (liveChildren db projectId destination) where
  sorted := scopeChildren_sorted ..
  nodup := liveOrder_nodup hk ..
  rows c hc := by
    obtain ⟨hrow, -⟩ := (mem_liveChildren hk).mp hc
    rw [rowAfter, hfresh c.cardId (List.mem_map.mpr ⟨c, hc, rfl⟩), Option.none_or]
    exact hrow.row
  cards c hc := by
    obtain ⟨hrow, hpar⟩ := (mem_liveChildren hk).mp hc
    exact ⟨hpar, c, hrow, .inl rfl⟩
  ids id := by simp [liveOrder]
  order := by
    refine List.filter_eq_self.mpr fun id hid => ?_
    rw [List.contains_iff_mem]
    exact hid

omit [SortKey K] in
theorem get_recorded {cards : List (Card K)} (hnodup : (cards.map (·.cardId)).Nodup) (m : Map String (Card K)) (id : String) :
    (∀ c ∈ cards, c.cardId = id →
      (cards.foldl (fun m c => m.insert c.cardId c) m)[id]? = some c) ∧
    ((∀ c ∈ cards, c.cardId ≠ id) →
      (cards.foldl (fun m c => m.insert c.cardId c) m)[id]? = m[id]?) := by
  induction cards generalizing m with
  | nil => exact ⟨by simp, fun _ => rfl⟩
  | cons d cards ih =>
    obtain ⟨hfresh, hnodup⟩ := List.nodup_cons.mp hnodup
    obtain ⟨hin, hout⟩ := ih hnodup (m.insert d.cardId d)
    rw [List.foldl_cons]
    refine ⟨fun c hc he => ?_, fun hfree => ?_⟩
    · rcases List.mem_cons.mp hc with rfl | hc
      · rw [hout fun e hm he' => hfresh (List.mem_map.mpr ⟨e, hm, he'.trans he.symm⟩),
          Map.get_insert, if_pos he]
      · exact hin c hc he
    · rw [hout fun c hc => hfree c (List.mem_cons_of_mem _ hc), Map.get_insert,
        if_neg (hfree d List.mem_cons_self)]

/-- What an insertion does to the list and the table. -/
structure PlacedInto (db : Db K) (destination : Option String) (now : Int) (list : List (Card K))
    (changed : Map String (Card K)) (block : List (Card K)) (index : Nat) (list' : List (Card K))
    (changed' : Map String (Card K)) : Prop where
  ids : list'.map (·.cardId) =
    (list.take index ++ treeSort block ++ list.drop index).map (·.cardId)
  kept : ∀ id, id ∉ list'.map (·.cardId) → changed'[id]? = changed[id]?
  keyed : (∀ (id : String) c, changed[id]? = some c → c.cardId = id) →
    ∀ (id : String) c, changed'[id]? = some c → c.cardId = id
  inserted : ∃ rows, insertBlockInto list index (treeSort block) destination now = .ok (list', rows)
  window : block ≠ [] → ∃ window : BlockWindow K, window.Fits list index (treeSort block) ∧
    list' = window.placed (treeSort block) destination now
  room : block ≠ [] → ∀ keys, spacedKeys ((list.take index).getLast?.map (·.sortKey))
    ((list.drop index).head?.map (·.sortKey)) block.length = some keys →
      list' = (⟨list.take index, [], [], list.drop index, keys⟩ : BlockWindow K).placed
        (treeSort block) destination now

theorem Listed.place {done : List String} {changed changed' : Map String (Card K)}
    {list list' block : List (Card K)} {index : Nat}
    (h : Listed db projectId destination now done changed list)
    (hblock : ∀ b ∈ block, LiveRow db projectId b ∧ b.cardId ∉ list.map (·.cardId))
    (hnodup : (block.map (·.cardId)).Nodup) (hindex : index ≤ list.length)
    (hrun : repairPlace destination now (list, changed) block index = .ok (list', changed')) :
    Listed db projectId destination now (done ++ block.map (·.cardId)) changed' list' ∧
      PlacedInto db destination now list changed block index list' changed' := by
  unfold repairPlace at hrun
  cases hins : insertBlockInto list index (treeSort block) destination now with
  | error e =>
    simp only [hins, bind, Except.bind] at hrun
    cases hrun
  | ok result =>
  obtain ⟨placed, rows⟩ := result
  simp only [hins, bind, Except.bind] at hrun
  cases hrun
  by_cases hempty : block = []
  · subst hempty
    cases hins
    refine ⟨by simpa using h, ⟨by simp [treeSort], fun _ _ => rfl, fun h => h, ⟨[], rfl⟩,
      fun h => absurd rfl h, fun h => absurd rfl h⟩⟩
  have hsortedNe : treeSort block ≠ [] := by
    intro he
    have hlen := (perm_treeSort block).length_eq
    rw [he] at hlen
    exact hempty (List.length_eq_zero_iff.mp hlen.symm)
  have hroom : ∀ keys, spacedKeys ((list.take index).getLast?.map (·.sortKey))
      ((list.drop index).head?.map (·.sortKey)) block.length = some keys →
        list' = (⟨list.take index, [], [], list.drop index, keys⟩ : BlockWindow K).placed
          (treeSort block) destination now := by
    intro keys hkeys
    rw [← (perm_treeSort block).length_eq] at hkeys
    have hdone := insertBlockInto_room destination now hsortedNe hindex hkeys
    rw [hins] at hdone
    exact (Prod.mk.inj (Except.ok.inj hdone)).1
  have hinserted := hins
  obtain ⟨window, hfits, rfl, rfl⟩ := insertBlockInto_window hsortedNe hindex hins
  have hall : ((list ++ treeSort block).map (·.cardId)).Nodup := by
    rw [List.map_append]
    refine h.nodup.append (((perm_treeSort block).map _).nodup_iff.mpr hnodup) fun id hid hmem => ?_
    obtain ⟨b, hb, rfl⟩ := List.mem_map.mp hmem
    exact (hblock b (mem_treeSort.mp hb)).2 hid
  have hplaced := hfits.placed_nodup destination now hall
  have hrows := hfits.changed_nodup destination now hall
  have hids := hfits.placed_ids destination now
  have hmem : ∀ id, id ∈ (window.placed (treeSort block) destination now).map (·.cardId) ↔
      id ∈ list.map (·.cardId) ∨ id ∈ block.map (·.cardId) := by
    intro id
    have htake : ∀ id, id ∈ list.map (·.cardId) ↔
        id ∈ (list.take index).map (·.cardId) ∨ id ∈ (list.drop index).map (·.cardId) := by
      intro id
      rw [← List.mem_append, ← List.map_append, List.take_append_drop]
    have hsort : id ∈ (treeSort block).map (·.cardId) ↔ id ∈ block.map (·.cardId) :=
      ((perm_treeSort block).map _).mem_iff
    rw [hids, htake, List.map_append, List.map_append, List.mem_append, List.mem_append, hsort]
    tauto
  have hcards : ∀ c ∈ window.changed (treeSort block) destination now,
      c.parentCardId = destination ∧ ∃ b, LiveRow db projectId b ∧
        ∃ key, c = b.placed destination key now := by
    intro c hc
    obtain ⟨b, p, key, rfl, ⟨hb, rfl⟩ | ⟨hb, rfl⟩⟩ := hfits.changed_card hc
    · exact ⟨rfl, b, (hblock b (mem_treeSort.mp hb)).1, key, rfl⟩
    · obtain ⟨hpar, d, hd, rfl | ⟨key', rfl⟩⟩ := h.cards b hb
      · exact ⟨hpar, b, hd, key, by rw [hpar]⟩
      · exact ⟨hpar, d, hd, key, rfl⟩
  refine ⟨⟨hfits.placed_sorted _ _ h.sorted, hplaced, fun c hc => ?_, fun c hc => ?_, fun id => ?_, ?_⟩,
    ⟨hids, fun id hid => ?_, fun hkeyed id c hc => ?_, ⟨_, hinserted⟩, fun _ => ⟨window, hfits, rfl⟩,
      fun _ => hroom⟩⟩
  · rcases (hfits.mem_placed destination now hall).mp hc with hc | ⟨hc, hfree⟩
    · rw [rowAfter, (get_recorded hrows changed c.cardId).1 c hc rfl]
      rfl
    · rw [rowAfter, (get_recorded hrows changed c.cardId).2 hfree]
      exact h.rows c hc
  · rcases (hfits.mem_placed destination now hall).mp hc with hc | ⟨hc, -⟩
    · obtain ⟨hpar, b, hb, hkey⟩ := hcards c hc
      exact ⟨hpar, b, hb, .inr hkey⟩
    · exact h.cards c hc
  · rw [hmem, h.ids, List.mem_append, or_assoc]
  · -- The block has no card of the children that were there.
    have hnone : (((treeSort block).map (·.cardId)).filter
        (liveOrder db projectId destination).contains) = [] := by
      rw [List.filter_eq_nil_iff]
      intro id hid
      obtain ⟨b, hb, rfl⟩ := List.mem_map.mp hid
      rw [List.contains_iff_mem]
      exact fun hmem => (hblock b (mem_treeSort.mp hb)).2 ((h.ids _).mpr (.inl hmem))
    rw [hids, List.map_append, List.map_append, List.filter_append, List.filter_append, hnone,
      List.append_nil, ← List.filter_append, ← List.map_append, List.take_append_drop]
    exact h.order
  · refine (get_recorded hrows changed id).2 fun c hc he => hid ?_
    exact List.mem_map.mpr ⟨c, window.mem_changed destination now hc, he⟩
  · by_cases hfound : ∃ d ∈ window.changed (treeSort block) destination now, d.cardId = id
    · obtain ⟨d, hd, he⟩ := hfound
      rw [(get_recorded hrows changed id).1 d hd he] at hc
      cases hc
      exact he
    · rw [(get_recorded hrows changed id).2 fun d hd he => hfound ⟨d, hd, he⟩] at hc
      exact hkeyed id c hc

/-! ## One destination -/

/-- The heads that take the place of an anchor. -/
def anchorBlock (heads : List (RepairHead K)) (anchor : Card K) : List (Card K) :=
  (heads.filter fun head => head.anchor.any (·.cardId == anchor.cardId)).map (·.card)

/-- The heads that have no anchor. -/
def unanchoredBlock (heads : List (RepairHead K)) : List (Card K) :=
  (heads.filter fun head => head.anchor.isNone).map (·.card)

/-- The anchors of some heads, by id. -/
def anchorTable (heads : List (RepairHead K)) : Map String (Card K) :=
  heads.foldl (fun (m : Map String (Card K)) head =>
    head.anchor.elim m fun a => m.insertIfNew a.cardId a) ∅

/-- What a repair knows of the heads that go under one destination. -/
structure GroupHeads (db : Db K) (projectId : String) (destination : Option String)
    (heads : List (RepairHead K)) : Prop where
  rows : ∀ head ∈ heads, LiveRow db projectId head.card ∧ head.card.parentCardId ≠ destination
  nodup : (heads.map (·.card.cardId)).Nodup
  anchors : ∀ head ∈ heads, ∀ a, head.anchor = some a → db.cards[a.cardId]? = some a

omit [SortKey K] in
theorem get_anchorTable {heads : List (RepairHead K)} (h : GroupHeads db projectId destination heads)
    (id : String) (a : Card K) : (anchorTable heads)[id]? = some a ↔
      a.cardId = id ∧ ∃ head ∈ heads, head.anchor = some a := by
  have hgo : ∀ (heads : List (RepairHead K)) (m : Map String (Card K)),
      (∀ head ∈ heads, ∀ a, head.anchor = some a → db.cards[a.cardId]? = some a) →
      (∀ (id : String) a, m[id]? = some a → a.cardId = id ∧ db.cards[id]? = some a) →
      ∀ (id : String) a, (heads.foldl (fun (m : Map String (Card K)) head =>
        head.anchor.elim m fun a => m.insertIfNew a.cardId a) m)[id]? = some a ↔
          m[id]? = some a ∨ a.cardId = id ∧ ∃ head ∈ heads, head.anchor = some a := by
    intro heads
    induction heads with
    | nil => simp
    | cons head heads ih =>
      intro m hrows hm id a
      rw [List.foldl_cons]
      have htail := fun h' hh' => hrows h' (List.mem_cons_of_mem _ hh')
      cases hb : head.anchor with
      | none =>
        rw [Option.elim_none, ih m htail hm]
        simp [hb]
      | some b =>
        have hrow := hrows head List.mem_cons_self b hb
        have hget : ∀ (id : String) a, (m.insertIfNew b.cardId b)[id]? = some a ↔
            m[id]? = some a ∨ a = b ∧ b.cardId = id := by
          intro id a
          rw [Std.ExtTreeMap.getElem?_insertIfNew]
          simp only [compare_eq_iff_eq]
          split
          · next hnew =>
            obtain ⟨rfl, hnone⟩ := hnew
            rw [Map.not_mem_iff.mp hnone]
            simp [eq_comm]
          · next hold =>
            refine ⟨.inl, fun h => ?_⟩
            rcases h with h | ⟨rfl, rfl⟩
            · exact h
            · obtain ⟨c, hc⟩ := Map.mem_iff.mp (by_contra fun hn => hold ⟨rfl, hn⟩)
              rw [(hm _ _ hc).2] at hrow
              rw [hc, Option.some.inj hrow]
        rw [Option.elim_some, ih _ htail (fun id a ha => ?_), hget]
        · simp only [List.exists_mem_cons_iff, hb, Option.some.injEq]
          constructor
          · rintro ((h | ⟨rfl, rfl⟩) | ⟨rfl, h⟩)
            · exact .inl h
            · exact .inr ⟨rfl, .inl rfl⟩
            · exact .inr ⟨rfl, .inr h⟩
          · rintro (h | ⟨rfl, rfl | h⟩)
            · exact .inl (.inl h)
            · exact .inl (.inr ⟨rfl, rfl⟩)
            · exact .inr ⟨rfl, h⟩
        · rcases (hget id a).mp ha with h | ⟨rfl, rfl⟩
          · exact hm id a h
          · exact ⟨rfl, hrow⟩
  rw [anchorTable, hgo heads ∅ h.anchors (by simp)]
  simp

/-- The list and the table after the blocks of some anchors went in, one after the other. -/
inductive Anchored (db : Db K) (projectId : String) (destination : Option String) (now : Int)
    (heads : List (RepairHead K)) (start : Map String (Card K)) :
    List (Card K) → List (Card K) → Map String (Card K) → Prop
  | start : Anchored db projectId destination now heads start []
      (liveChildren db projectId destination) start
  | place : Anchored db projectId destination now heads start anchors list changed →
    Listed db projectId destination now (anchors.flatMap fun a =>
      (anchorBlock heads a).map (·.cardId)) changed list →
    PlacedInto db destination now list changed (anchorBlock heads anchor)
      (treeLowerBound list anchor) list' changed' →
    Anchored db projectId destination now heads start (anchors ++ [anchor]) list' changed'

omit [SortKey K] in
theorem mem_anchorBlock {heads : List (RepairHead K)} {anchor c : Card K} :
    c ∈ anchorBlock heads anchor ↔ ∃ head ∈ heads, head.card = c ∧
      ∃ a, head.anchor = some a ∧ a.cardId = anchor.cardId := by
  simp only [anchorBlock, List.mem_map, List.mem_filter, Option.any_eq_true, beq_iff_eq]
  constructor
  · rintro ⟨head, ⟨hhead, ha⟩, rfl⟩
    exact ⟨head, hhead, rfl, ha⟩
  · rintro ⟨head, hhead, rfl, ha⟩
    exact ⟨head, ⟨hhead, ha⟩, rfl⟩

omit [SortKey K] in
/-- A card is the card of one head. -/
theorem GroupHeads.head_eq {heads : List (RepairHead K)}
    (h : GroupHeads db projectId destination heads) {a b : RepairHead K} (ha : a ∈ heads)
    (hb : b ∈ heads) (he : a.card.cardId = b.card.cardId) : a = b :=
  List.inj_on_of_nodup_map h.nodup ha hb he

theorem Anchored.run (hk : db.Keyed) {heads : List (RepairHead K)} {start : Map String (Card K)}
    (hheads : GroupHeads db projectId destination heads)
    {done : List (Card K)} {list : List (Card K)} {changed : Map String (Card K)}
    (h : Anchored db projectId destination now heads start done list changed)
    (hlisted : Listed db projectId destination now (done.flatMap fun a =>
      (anchorBlock heads a).map (·.cardId)) changed list)
    {todo : List (Card K)} (hnodup : ((done ++ todo).map (·.cardId)).Nodup) {list' : List (Card K)}
    {changed' : Map String (Card K)}
    (hrun : todo.foldlM (fun state anchor => repairPlace destination now state
      (anchorBlock heads anchor) (treeLowerBound state.1 anchor)) (list, changed) =
        .ok (list', changed')) :
    Anchored db projectId destination now heads start (done ++ todo) list' changed' ∧
      Listed db projectId destination now ((done ++ todo).flatMap fun a =>
        (anchorBlock heads a).map (·.cardId)) changed' list' := by
  induction todo generalizing done list changed with
  | nil =>
    cases hrun
    rw [List.append_nil]
    exact ⟨h, hlisted⟩
  | cons anchor todo ih =>
    rw [List.foldlM_cons] at hrun
    cases hstep : repairPlace destination now (list, changed) (anchorBlock heads anchor)
        (treeLowerBound list anchor) with
    | error e =>
      simp only [hstep, bind, Except.bind] at hrun
      cases hrun
    | ok state =>
      obtain ⟨list1, changed1⟩ := state
      simp only [hstep, bind, Except.bind] at hrun
      have hblock : ∀ b ∈ anchorBlock heads anchor,
          LiveRow db projectId b ∧ b.cardId ∉ list.map (·.cardId) := by
        intro b hb
        obtain ⟨head, hhead, rfl, a, ha, he⟩ := mem_anchorBlock.mp hb
        obtain ⟨hrow, hpar⟩ := hheads.rows head hhead
        refine ⟨hrow, fun hmem => ?_⟩
        rcases (hlisted.ids _).mp hmem with hmem | hmem
        · obtain ⟨c, hc, hce⟩ := List.mem_map.mp hmem
          obtain ⟨hcrow, hcpar⟩ := (mem_liveChildren hk).mp hc
          have hsame := hcrow.row
          rw [hce, hrow.row] at hsame
          exact hpar (Option.some.inj hsame ▸ hcpar)
        · obtain ⟨d, hd, hmem⟩ := List.mem_flatMap.mp hmem
          obtain ⟨c, hc, hce⟩ := List.mem_map.mp hmem
          obtain ⟨head', hhead', rfl, a', ha', he'⟩ := mem_anchorBlock.mp hc
          obtain rfl := hheads.head_eq hhead' hhead hce
          rw [ha] at ha'
          cases ha'
          rw [List.map_append, List.map_cons] at hnodup
          refine List.disjoint_of_nodup_append hnodup (List.mem_map.mpr ⟨d, hd, rfl⟩) ?_
          rw [← he', he]
          exact List.mem_cons_self
      have hblockNodup : ((anchorBlock heads anchor).map (·.cardId)).Nodup := by
        have hsub : ((heads.filter fun head => head.anchor.any (·.cardId == anchor.cardId)).map
            (·.card.cardId)).Nodup := (List.filter_sublist.map _).nodup hheads.nodup
        rw [anchorBlock, List.map_map]
        exact hsub
      obtain ⟨hlisted1, hplaced⟩ :=
        hlisted.place hblock hblockNodup (treeLowerBound_le _ _) hstep
      have hdone : (done ++ [anchor]).flatMap (fun a => (anchorBlock heads a).map (·.cardId)) =
          done.flatMap (fun a => (anchorBlock heads a).map (·.cardId)) ++
            (anchorBlock heads anchor).map (·.cardId) := by simp
      obtain ⟨hall, hlist⟩ := ih (.place h hlisted hplaced) (hdone ▸ hlisted1)
        (by simpa using hnodup) hrun
      simp only [List.append_assoc, List.singleton_append] at hall hlist
      exact ⟨hall, hlist⟩

theorem Listed.congr {done done' : List String} {changed : Map String (Card K)}
    {list : List (Card K)} (h : Listed db projectId destination now done changed list)
    (hdone : ∀ id, id ∈ done ↔ id ∈ done') :
    Listed db projectId destination now done' changed list :=
  { h with ids := fun id => by rw [h.ids, hdone] }

/-- Everything outside the list stays as it was in the table. -/
theorem Anchored.kept {heads : List (RepairHead K)} {start changed : Map String (Card K)}
    {anchors list : List (Card K)}
    (h : Anchored db projectId destination now heads start anchors list changed) :
    (∀ id, id ∉ list.map (·.cardId) → changed[id]? = start[id]?) ∧
      ((∀ (id : String) c, start[id]? = some c → c.cardId = id) →
        ∀ (id : String) c, changed[id]? = some c → c.cardId = id) := by
  induction h with
  | start => exact ⟨fun _ _ => rfl, fun h => h⟩
  | @place anchors list changed anchor list' changed' _ hlisted hplaced ih =>
    refine ⟨fun id hid => (hplaced.kept id hid).trans (ih.1 id fun hmem => hid ?_),
      fun h => hplaced.keyed (ih.2 h)⟩
    rw [hplaced.ids, List.map_append, List.map_append]
    rw [← List.take_append_drop (treeLowerBound list anchor) list, List.map_append,
      List.mem_append] at hmem
    rcases hmem with hmem | hmem
    · exact List.mem_append_left _ (List.mem_append_left _ hmem)
    · exact List.mem_append_right _ hmem

/-- The heads of one destination: the anchored ones are placed anchor by anchor, the others at the
end, and the list that results is the live order of the destination once the table is stored. -/
theorem repairGroup_listed (hk : db.Keyed) {heads : List (RepairHead K)}
    {start changed : Map String (Card K)} (hheads : GroupHeads db projectId destination heads)
    (hfresh : ∀ id ∈ liveOrder db projectId destination, start[id]? = none)
    (hrun : repairGroup db projectId destination now heads start = .ok changed) :
    ∃ list, Listed db projectId destination now (heads.map (·.card.cardId)) changed list ∧
      (∀ id, id ∉ list.map (·.cardId) → changed[id]? = start[id]?) ∧
      ((∀ (id : String) c, start[id]? = some c → c.cardId = id) →
        ∀ (id : String) c, changed[id]? = some c → c.cardId = id) ∧
      ∃ list0 changed0, Anchored db projectId destination now heads start
          (anchorTable heads).rows list0 changed0 ∧
        Listed db projectId destination now ((anchorTable heads).rows.flatMap fun a =>
          (anchorBlock heads a).map (·.cardId)) changed0 list0 ∧
        list.map (·.cardId) =
          list0.map (·.cardId) ++ (treeSort (unanchoredBlock heads)).map (·.cardId) := by
  unfold repairGroup at hrun
  simp only [bind, Except.bind] at hrun
  split at hrun
  · cases hrun
  next state hfold =>
  obtain ⟨list0, changed0⟩ := state
  have hfold : (anchorTable heads).rows.foldlM (fun state anchor => repairPlace destination now state
    (anchorBlock heads anchor) (treeLowerBound state.1 anchor))
      (liveChildren db projectId destination, start) = .ok (list0, changed0) := hfold
  have hnodup : ((([] : List (Card K)) ++ (anchorTable heads).rows).map (·.cardId)).Nodup :=
    Map.nodup_map_rows fun id a ha => ((get_anchorTable hheads id a).mp ha).1
  obtain ⟨hall, hlist⟩ := Anchored.run hk hheads .start (Listed.start hk hfresh) hnodup hfold
  rw [List.nil_append] at hall hlist
  obtain ⟨hkept, hkeyed⟩ := hall.kept
  -- A head is placed with its anchor or, without one, at the end.
  have hdone : ∀ id, id ∈ ((anchorTable heads).rows.flatMap fun a =>
      (anchorBlock heads a).map (·.cardId)) ++ (unanchoredBlock heads).map (·.cardId) ↔
        id ∈ heads.map (·.card.cardId) := by
    intro id
    rw [List.mem_append, List.mem_flatMap]
    constructor
    · rintro (⟨a, -, hmem⟩ | hmem)
      · obtain ⟨c, hc, rfl⟩ := List.mem_map.mp hmem
        obtain ⟨head, hhead, rfl, -⟩ := mem_anchorBlock.mp hc
        exact List.mem_map.mpr ⟨head, hhead, rfl⟩
      · obtain ⟨c, hc, rfl⟩ := List.mem_map.mp hmem
        obtain ⟨head, hhead, rfl⟩ := List.mem_map.mp hc
        exact List.mem_map.mpr ⟨head, List.mem_of_mem_filter hhead, rfl⟩
    · intro hmem
      obtain ⟨head, hhead, rfl⟩ := List.mem_map.mp hmem
      cases ha : head.anchor with
      | none =>
        refine .inr (List.mem_map.mpr ⟨head.card, List.mem_map.mpr ⟨head, ?_, rfl⟩, rfl⟩)
        exact List.mem_filter.mpr ⟨hhead, by simp [ha]⟩
      | some a =>
        refine .inl ⟨a, Map.mem_rows.mpr ⟨a.cardId,
          (get_anchorTable hheads _ _).mpr ⟨rfl, head, hhead, ha⟩⟩, List.mem_map.mpr ⟨head.card, ?_, rfl⟩⟩
        exact mem_anchorBlock.mpr ⟨head, hhead, rfl, a, ha, rfl⟩
  change (if (unanchoredBlock heads).isEmpty = true then _ else _) = _ at hrun
  split at hrun
  · next hempty =>
    cases hrun
    have hnone : unanchoredBlock heads = [] := List.isEmpty_iff.mp hempty
    rw [hnone] at hdone
    refine ⟨list0, hlist.congr (by simpa using hdone), hkept, hkeyed, list0, changed0, hall, hlist, ?_⟩
    rw [hnone]
    simp [treeSort]
  · split at hrun
    · cases hrun
    next state hlast =>
    obtain ⟨list, changed'⟩ := state
    cases hrun
    have hblock : ∀ b ∈ unanchoredBlock heads,
        LiveRow db projectId b ∧ b.cardId ∉ list0.map (·.cardId) := by
      intro b hb
      obtain ⟨head, hhead, rfl⟩ := List.mem_map.mp hb
      obtain ⟨hhead, hnone⟩ := List.mem_filter.mp hhead
      obtain ⟨hrow, hpar⟩ := hheads.rows head hhead
      refine ⟨hrow, fun hmem => ?_⟩
      rcases (hlist.ids _).mp hmem with hmem | hmem
      · obtain ⟨c, hc, hce⟩ := List.mem_map.mp hmem
        obtain ⟨hcrow, hcpar⟩ := (mem_liveChildren hk).mp hc
        have hsame := hcrow.row
        rw [hce, hrow.row] at hsame
        exact hpar (Option.some.inj hsame ▸ hcpar)
      · obtain ⟨d, -, hmem⟩ := List.mem_flatMap.mp hmem
        obtain ⟨c, hc, hce⟩ := List.mem_map.mp hmem
        obtain ⟨head', hhead', rfl, a', ha', -⟩ := mem_anchorBlock.mp hc
        obtain rfl := hheads.head_eq hhead' hhead hce
        rw [ha'] at hnone
        cases hnone
    have hblockNodup : ((unanchoredBlock heads).map (·.cardId)).Nodup := by
      have hsub : ((heads.filter fun head => head.anchor.isNone).map (·.card.cardId)).Nodup :=
        (List.filter_sublist.map _).nodup hheads.nodup
      rw [unanchoredBlock, List.map_map]
      exact hsub
    obtain ⟨hlisted, hplaced⟩ := hlist.place hblock hblockNodup le_rfl hlast
    have hids := hplaced.ids
    rw [List.take_length, List.drop_length, List.append_nil, List.map_append] at hids
    refine ⟨list, hlisted.congr hdone, fun id hid => (hplaced.kept id hid).trans (hkept id ?_),
      fun h => hplaced.keyed (hkeyed h), list0, changed0, hall, hlist, hids⟩
    rw [hids, List.mem_append, not_or] at hid
    exact hid.1

end

end HolderCore
