import HolderCore.Card.HierarchyLemmas

/-! # What a repair places

A repair of the hierarchy places cards of the table, each once. -/

namespace HolderCore

theorem foldlM_ok_invariant {ε σ α : Type} {I : σ → Prop} {f : σ → α → Except ε σ} {as : List α}
    (step : ∀ s a s', a ∈ as → I s → f s a = .ok s' → I s') {s s' : σ} (hs : I s)
    (h : as.foldlM f s = .ok s') : I s' := by
  induction as generalizing s with
  | nil =>
    cases h
    exact hs
  | cons a as ih =>
    rw [List.foldlM_cons] at h
    cases hf : f s a with
    | error e => rw [hf] at h; cases h
    | ok s1 =>
      rw [hf] at h
      exact ih (fun s a s' ha => step s a s' (List.mem_cons_of_mem _ ha))
        (step s a s1 List.mem_cons_self hs hf) h

section
variable [SortKey K] {P : Card K → Prop}

/-- A property of cards that their placement columns have no part in. -/
def PlaceFree (P : Card K → Prop) : Prop :=
  ∀ (c : Card K) (parent : Option String) (key : K) (updatedAt : Int), P c →
    P (c.placed parent key updatedAt)

theorem respaceFrom_all (hP : PlaceFree P) {slots : List (Slot K)} {index blockEnd fuel radius : Nat}
    {updatedAt : Int} {dest changed : List (Card K)} (hslots : ∀ s ∈ slots, P s.card)
    (h : respaceFrom slots index blockEnd updatedAt fuel radius = .ok (dest, changed)) :
    (∀ c ∈ dest, P c) ∧ ∀ c ∈ changed, P c := by
  induction fuel generalizing radius with
  | zero => cases h
  | succ fuel ih =>
    rw [respaceFrom] at h
    simp only at h
    split at h
    · injection h with h
      injection h with hdest hchanged
      have hcell : ∀ (keys : List K) (low count : Nat), ∀ cell ∈ ((slots.drop low).take count).zipWith
          (fun slot key => slot.respace updatedAt key) keys, P cell.1 := by
        intro keys low count cell hcell
        rw [← List.map_uncurry_zip_eq_zipWith] at hcell
        obtain ⟨⟨slot, key⟩, hmem, rfl⟩ := List.mem_map.mp hcell
        have hslot : P slot.card :=
          hslots _ (List.mem_of_mem_drop (List.mem_of_mem_take (List.of_mem_zip hmem).1))
        change P (slot.respace updatedAt key).1
        rcases Slot.respace_eq slot key updatedAt with he | he
        · rw [he]
          exact hslot
        · rw [he]
          exact hP _ _ _ _ hslot
      refine ⟨fun c hc => ?_, fun c hc => ?_⟩
      · rw [← hdest] at hc
        simp only [List.append_assoc, List.mem_append, List.mem_map] at hc
        rcases hc with ⟨s, hs, rfl⟩ | ⟨cell, hc, rfl⟩ | ⟨s, hs, rfl⟩
        · exact hslots s (List.mem_of_mem_take hs)
        · exact hcell _ _ _ cell hc
        · exact hslots s (List.mem_of_mem_drop hs)
      · rw [← hchanged] at hc
        obtain ⟨cell, hmem, rfl⟩ := List.mem_map.mp hc
        exact hcell _ _ _ cell (List.mem_filter.mp hmem).1
    · split at h
      · cases h
      · exact ih h

theorem insertBlockInto_all (hP : PlaceFree P) {destination block dest changed : List (Card K)}
    {index : Nat} {parent : Option String} {updatedAt : Int} (hdest : ∀ c ∈ destination, P c)
    (hblock : ∀ c ∈ block, P c)
    (h : insertBlockInto destination index block parent updatedAt = .ok (dest, changed)) :
    (∀ c ∈ dest, P c) ∧ ∀ c ∈ changed, P c := by
  unfold insertBlockInto at h
  split at h
  · cases h
    exact ⟨hdest, by simp⟩
  · refine respaceFrom_all hP (fun s hs => ?_) h
    simp only [List.append_assoc, List.mem_append, List.mem_map] at hs
    rcases hs with ⟨c, hc, rfl⟩ | ⟨c, hc, rfl⟩ | ⟨c, hc, rfl⟩
    · exact hdest c (List.mem_of_mem_take hc)
    · exact hP c parent c.sortKey c.updatedAt (hblock c hc)
    · exact hdest c (List.mem_of_mem_drop hc)

/-- What a repair has placed so far. -/
structure PlacedAll (P : Card K → Prop) (placed : Map String (Card K)) : Prop where
  keyed : ∀ (id : String) (c : Card K), placed[id]? = some c → c.cardId = id
  all : ∀ (id : String) (c : Card K), placed[id]? = some c → P c

omit [SortKey K] in
theorem PlacedAll.record {placed : Map String (Card K)} (h : PlacedAll P placed)
    {changed : List (Card K)} (hchanged : ∀ c ∈ changed, P c) :
    PlacedAll P (changed.foldl (fun m c => m.insert c.cardId c) placed) := by
  induction changed generalizing placed with
  | nil => exact h
  | cons c changed ih =>
    refine ih ⟨fun id c' hc' => ?_, fun id c' hc' => ?_⟩ fun c' hc' =>
      hchanged c' (List.mem_cons_of_mem _ hc')
    · rw [Map.get_insert] at hc'
      split at hc'
      · next hid =>
        cases hc'
        exact hid
      · exact h.keyed id c' hc'
    · rw [Map.get_insert] at hc'
      split at hc'
      · cases hc'
        exact hchanged c List.mem_cons_self
      · exact h.all id c' hc'

theorem repairPlace_all (hP : PlaceFree P) {destination : Option String} {updatedAt : Int}
    {state state' : List (Card K) × Map String (Card K)} {block : List (Card K)} {index : Nat}
    (hstate : (∀ c ∈ state.1, P c) ∧ PlacedAll P state.2) (hblock : ∀ c ∈ block, P c)
    (h : repairPlace destination updatedAt state block index = .ok state') :
    (∀ c ∈ state'.1, P c) ∧ PlacedAll P state'.2 := by
  unfold repairPlace at h
  cases hins : insertBlockInto state.1 index (treeSort block) destination updatedAt with
  | error e => simp only [hins, bind, Except.bind] at h; cases h
  | ok result =>
    obtain ⟨dest, changed⟩ := result
    simp only [hins, bind, Except.bind] at h
    cases h
    obtain ⟨hdest, hchanged⟩ := insertBlockInto_all hP hstate.1
      (fun c hc => hblock c (((List.perm_insertionSort ..).mem_iff).mp hc)) hins
    exact ⟨hdest, hstate.2.record hchanged⟩

theorem repairGroup_all (hP : PlaceFree P) {db : Db K} {projectId : String}
    {destination : Option String} {updatedAt : Int} {heads : List (RepairHead K)}
    {changed changed' : Map String (Card K)} (hdb : ∀ c ∈ db.cards.rows, P c)
    (hheads : ∀ head ∈ heads, P head.card) (hchanged : PlacedAll P changed)
    (h : repairGroup db projectId destination updatedAt heads changed = .ok changed') :
    PlacedAll P changed' := by
  unfold repairGroup at h
  simp only [bind, Except.bind] at h
  split at h
  · cases h
  · next state hstate =>
    have hall : (∀ c ∈ state.1, P c) ∧ PlacedAll P state.2 := by
      refine foldlM_ok_invariant (I := fun s : List (Card K) × Map String (Card K) =>
        (∀ c ∈ s.1, P c) ∧ PlacedAll P s.2) (fun s a s' _ hs hstep => ?_) ⟨fun c hc => ?_, hchanged⟩
        hstate
      · refine repairPlace_all hP hs (fun c hc => ?_) hstep
        obtain ⟨head, hhead, rfl⟩ := List.mem_map.mp hc
        exact hheads head (List.mem_filter.mp hhead).1
      · exact hdb c (List.mem_filter.mp (((List.perm_insertionSort ..).mem_iff).mp hc)).1
    split at h
    · cases h
      exact hall.2
    · split at h
      · cases h
      · next state' hlast =>
        cases h
        refine (repairPlace_all hP hall (fun c hc => ?_) hlast).2
        obtain ⟨head, hhead, rfl⟩ := List.mem_map.mp hc
        exact hheads head (List.mem_filter.mp hhead).1

/-- A repair places each card once, and only cards of the table. -/
theorem planHierarchyRepair_all (hP : PlaceFree P) {db : Db K} {projectId : String} {updatedAt : Int}
    {plan : HierarchyRepairPlan K} (hdb : ∀ c ∈ db.cards.rows, P c)
    (h : planHierarchyRepair db projectId updatedAt = .ok plan) :
    (plan.placements.map (·.cardId)).Nodup ∧ ∀ c ∈ plan.placements, P c := by
  unfold planHierarchyRepair at h
  simp only [bind, Except.bind] at h
  split at h
  · cases h
  · next changed hfold =>
    cases h
    have hheads : ∀ head ∈ (((db.cards.rows.filter (·.projectId == projectId)).filterMap
        (repairFinding db projectId)).filterMap (Sum.elim (fun _ => none) some)), P head.card := by
      intro head hhead
      obtain ⟨finding, hfinding, hsome⟩ := List.mem_filterMap.mp hhead
      obtain ⟨card, hcard, hfound⟩ := List.mem_filterMap.mp hfinding
      have hrow := hdb card (List.mem_filter.mp hcard).1
      cases finding with
      | inl id => cases hsome
      | inr found =>
        cases hsome
        unfold repairFinding at hfound
        split at hfound
        · cases hfound
        · split at hfound
          · cases hfound
          · dsimp only at hfound
            split at hfound
            · cases hfound
            · cases hfound
              exact hrow
    have hgroups : ∀ (heads : List (RepairHead K)) (m : Map (Option String) (List (RepairHead K))),
        (∀ head ∈ heads, P head.card) →
        (∀ (d : Option String) (group : List (RepairHead K)), m[d]? = some group →
          ∀ head ∈ group, P head.card) →
        ∀ (d : Option String) (group : List (RepairHead K)),
          (heads.foldl (fun m head =>
            m.insert head.destination ((m[head.destination]?).getD [] ++ [head])) m)[d]? =
              some group → ∀ head ∈ group, P head.card := by
      intro heads
      induction heads with
      | nil => exact fun m _ hm => hm
      | cons head heads ih =>
        intro m hall hm
        refine ih _ (fun h' hh' => hall h' (List.mem_cons_of_mem _ hh')) fun d group hgroup h' hh' => ?_
        rw [Map.get_insert] at hgroup
        split at hgroup
        · cases hgroup
          rcases List.mem_append.mp hh' with hh' | hh'
          · cases hold : m[head.destination]? with
            | none => simp [hold] at hh'
            | some old =>
              rw [hold] at hh'
              exact hm _ old hold h' hh'
          · rw [List.mem_singleton.mp hh']
            exact hall head List.mem_cons_self
        · exact hm d group hgroup h' hh'
    have hplaced : PlacedAll P changed := by
      refine foldlM_ok_invariant (I := PlacedAll P) (fun s entry s' hentry hs hstep => ?_)
        ⟨by simp, by simp⟩ hfold
      obtain ⟨destination, group⟩ := entry
      refine repairGroup_all hP hdb (hgroups _ ∅ hheads (by simp) destination group ?_) hs hstep
      exact Std.ExtTreeMap.mem_toList_iff_getElem?_eq_some.mp hentry
    refine ⟨Map.nodup_map_rows hplaced.keyed, fun c hc => ?_⟩
    obtain ⟨id, hid⟩ := Map.mem_rows.mp hc
    exact hplaced.all id c hid

end

end HolderCore
