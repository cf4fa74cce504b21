import HolderCore.Card.Repaired

/-! # The places of repaired branches

A hidden branch returns to the place of its anchor, the trashed card that sits directly under the
destination. The anchors of one destination are placed in the order of their ids, and each is searched
by its own sort key in the list that the earlier ones left, whose keys may be fresh. The branches return
to their places exactly when each search compares with every key as with the one that it replaced. So it
does where a sibling stands between an anchor and each earlier one, and the runs of these fitted between
their neighbours. -/

section
variable {α : Type} {front back front0 mid back0 : List α}

/-- A part that is not in the back lies in the front. -/
theorem List.append_split_before (h : front0 ++ mid ++ back0 = front ++ back) (hne : mid ≠ [])
    (hnot : ∀ x ∈ mid, x ∉ back) :
    ∃ between, front = front0 ++ mid ++ between ∧ back0 = between ++ back := by
  rcases List.append_eq_append_iff.mp h with ⟨between, hfront, hback⟩ | ⟨rest, hfront, hback⟩
  · exact ⟨between, hfront, hback⟩
  · rcases List.eq_nil_or_concat rest with rfl | ⟨init, last, rfl⟩
    · exact ⟨[], by simpa using hfront.symm, by simpa using hback.symm⟩
    · exfalso
      have hlast := congrArg List.getLast? hfront
      rw [List.getLast?_append_of_ne_nil _ hne, List.concat_eq_append, ← List.append_assoc,
        List.getLast?_concat] at hlast
      refine hnot last (List.mem_of_getLast? hlast) ?_
      rw [hback]
      simp

/-- A part that is not in the front lies in the back. -/
theorem List.append_split_after (h : front0 ++ mid ++ back0 = front ++ back) (hne : mid ≠ [])
    (hnot : ∀ x ∈ mid, x ∉ front) :
    ∃ between, front0 = front ++ between ∧ back = between ++ mid ++ back0 := by
  rw [List.append_assoc] at h
  rcases List.append_eq_append_iff.mp h with ⟨rest, hfront, hback⟩ | ⟨between, hfront, hback⟩
  · cases rest with
    | nil => exact ⟨[], by simpa using hfront.symm, by simpa using hback.symm⟩
    | cons first rest =>
      exfalso
      cases mid with
      | nil => exact hne rfl
      | cons m mid =>
        rw [List.cons_append, List.cons_append] at hback
        obtain ⟨rfl, -⟩ := List.cons.inj hback
        exact hnot m List.mem_cons_self (by rw [hfront]; simp)
  · exact ⟨between, hfront, by rw [hback, List.append_assoc]⟩

/-- A part stands at one place of a list. -/
theorem List.append_split_same (h : front ++ mid ++ back = front0 ++ mid ++ back0) (hne : mid ≠ [])
    (hnodup : (front ++ mid ++ back).Nodup) : front = front0 ∧ back = back0 := by
  rw [List.append_assoc] at h hnodup
  have hnot : ∀ x ∈ mid, x ∉ front := fun x hx hfront =>
    (List.nodup_append.mp hnodup).2.2 x hfront x (List.mem_append_left _ hx) rfl
  obtain ⟨between, hfront, hback⟩ := List.append_split_after h.symm hne hnot
  have hrest := (List.nodup_append.mp hnodup).2.1
  rw [hback] at hrest
  cases between with
  | nil => exact ⟨by simpa using hfront.symm, by simpa using hback⟩
  | cons b between =>
    cases mid with
    | nil => exact absurd rfl hne
    | cons m mid =>
      -- The first of the part would stand in it twice.
      obtain ⟨rfl, -⟩ := List.cons.inj hback
      simp at hrest

end

namespace HolderCore

section
variable [SortKey K]

/-! ## Runs in their places -/

/-- The heads that take the place of an anchor, in their order. -/
def anchorRun (heads : List (RepairHead K)) (anchor : Card K) : List String :=
  (treeSort (anchorBlock heads anchor)).map (·.cardId)

/-- The run of each anchor stands together: after the siblings and the runs whose anchors sort
before it, and before those that sort after it. -/
def InPlace (siblings anchors : List (Card K)) (run : Card K → List String) (order : List String) :
    Prop :=
  ∀ a ∈ anchors, ∃ front back, order = front ++ run a ++ back ∧
    (∀ s ∈ siblings, (s.treeKey < a.treeKey → s.cardId ∈ front) ∧
      (a.treeKey < s.treeKey → s.cardId ∈ back)) ∧
    ∀ b ∈ anchors, (b.treeKey < a.treeKey → ∀ id ∈ run b, id ∈ front) ∧
      (a.treeKey < b.treeKey → ∀ id ∈ run b, id ∈ back)

/-- A search for the place of an anchor compares with each key of the list as with the one that this
replaced: a sibling's own, and for the cards of a run the one of their anchor. -/
structure SearchAgrees (siblings anchors : List (Card K)) (run : Card K → List String)
    (list : List (Card K)) (b : Card K) : Prop where
  siblings : ∀ s ∈ siblings, ∀ x ∈ list, x.cardId = s.cardId →
    (s.treeKey < b.treeKey → x.treeKey < b.treeKey) ∧ (b.treeKey < s.treeKey → b.treeKey ≤ x.treeKey)
  runs : ∀ a ∈ anchors, ∀ x ∈ list, x.cardId ∈ run a →
    (a.treeKey < b.treeKey → x.treeKey < b.treeKey) ∧ (b.treeKey < a.treeKey → b.treeKey ≤ x.treeKey)

/-- The keys of a block in the place of an anchor, with no sibling re-spaced. -/
def gapKeys (siblings : List (Card K)) (anchor : Card K) (count : Nat) : Option (List K) :=
  spacedKeys ((siblings.take (treeLowerBound siblings anchor)).getLast?.map (·.sortKey))
    ((siblings.drop (treeLowerBound siblings anchor)).head?.map (·.sortKey)) count

/-- A sibling stands between an anchor and a later one, and the run of the first fits between its
neighbours. -/
structure Clear (siblings : List (Card K)) (block : Card K → List (Card K)) (a b : Card K) :
    Prop where
  between : ∃ s ∈ siblings, a.treeKey < s.treeKey ∧ s.treeKey < b.treeKey ∨
    b.treeKey < s.treeKey ∧ s.treeKey < a.treeKey
  room : gapKeys siblings a (block a).length ≠ none

/-- Runs that fitted between their neighbours: the siblings are as they were, and the keys of a run
lie between those of the siblings around its anchor. -/
structure Undisturbed (siblings anchors : List (Card K)) (run : Card K → List String)
    (list : List (Card K)) : Prop where
  kept : ∀ s ∈ siblings, s ∈ list
  runs : ∀ a ∈ anchors, ∀ x ∈ list, x.cardId ∈ run a → ∀ s ∈ siblings,
    (s.treeKey < a.treeKey → s.sortKey < x.sortKey) ∧
      (a.treeKey < s.treeKey → x.sortKey < s.sortKey)
  covered : ∀ x ∈ list, x ∈ siblings ∨ ∃ a ∈ anchors, x.cardId ∈ run a

section
variable {siblings anchors list : List (Card K)} {run : Card K → List String}
  {block : Card K → List (Card K)} {a b x : Card K}

/-- A later anchor finds the run of a clear one on its side. -/
theorem Undisturbed.side (h : Undisturbed siblings anchors run list) (hclear : Clear siblings block a b)
    (ha : a ∈ anchors) (hx : x ∈ list) (hrun : x.cardId ∈ run a) :
    (a.treeKey < b.treeKey ∧ ∃ s ∈ siblings, x.treeKey < s.treeKey ∧ s.treeKey < b.treeKey) ∨
      (b.treeKey < a.treeKey ∧ ∃ s ∈ siblings, b.treeKey < s.treeKey ∧ s.treeKey < x.treeKey) := by
  obtain ⟨s, hs, ⟨has, hsb⟩ | ⟨hbs, hsa⟩⟩ := hclear.between
  · have hlow := (h.runs a ha x hx hrun s hs).2 has
    exact .inl ⟨has.trans hsb, s, hs, treeKey_lt_of_sortKey hlow, hsb⟩
  · have hhigh := (h.runs a ha x hx hrun s hs).1 hsa
    exact .inr ⟨hbs.trans hsa, s, hs, hbs, treeKey_lt_of_sortKey hhigh⟩

theorem InPlace.mem {order : List String} (h : InPlace siblings anchors run order) (ha : a ∈ anchors)
    {id : String} (hid : id ∈ run a) : id ∈ order := by
  obtain ⟨front, back, rfl, -⟩ := h a ha
  exact List.mem_append_left _ (List.mem_append_right _ hid)

/-- A list that a search for an anchor splits, and the list with the anchor's run at that place. -/
structure RunAt (siblings anchors : List (Card K)) (run : Card K → List String) (b : Card K)
    (front back : List (Card K)) : Prop where
  before : ∀ c ∈ front, c.treeKey < b.treeKey
  after : ∀ c ∈ back, b.treeKey ≤ c.treeKey
  nodup : (front.map (·.cardId) ++ run b ++ back.map (·.cardId)).Nodup
  siblings : ∀ s ∈ siblings, s.cardId ∈ (front ++ back).map (·.cardId)
  runs : ∀ a ∈ anchors, run a ≠ [] ∧ a.treeKey ≠ b.treeKey ∧
    ∀ id ∈ run a, id ∈ (front ++ back).map (·.cardId)
  run : run b ≠ []

/-- One more run goes in, where the search agrees. -/
theorem RunAt.insert {front back : List (Card K)} (h : RunAt siblings anchors run b front back)
    (hin : InPlace siblings anchors run ((front ++ back).map (·.cardId)))
    (hagrees : SearchAgrees siblings anchors run (front ++ back) b) :
    InPlace siblings (anchors ++ [b]) run (front.map (·.cardId) ++ run b ++ back.map (·.cardId)) := by
  -- A run of an earlier anchor lies on one side of the later one.
  have hbefore : ∀ a ∈ anchors, a.treeKey < b.treeKey → ∀ id ∈ run a,
      id ∉ back.map (·.cardId) := by
    intro a ha hab id hid hmem
    obtain ⟨x, hx, rfl⟩ := List.mem_map.mp hmem
    have hlow := (hagrees.runs a ha x (List.mem_append_right _ hx) hid).1 hab
    exact absurd (h.after x hx) (not_le.mpr hlow)
  have hafter : ∀ a ∈ anchors, b.treeKey < a.treeKey → ∀ id ∈ run a,
      id ∉ front.map (·.cardId) := by
    intro a ha hba id hid hmem
    obtain ⟨x, hx, rfl⟩ := List.mem_map.mp hmem
    have hhigh := (hagrees.runs a ha x (List.mem_append_left _ hx) hid).2 hba
    exact absurd (h.before x hx) (not_lt.mpr hhigh)
  have hsplit : ∀ id, id ∈ (front ++ back).map (·.cardId) →
      id ∈ front.map (·.cardId) ∨ id ∈ back.map (·.cardId) := by
    intro id hid
    rwa [List.map_append, List.mem_append] at hid
  intro a ha
  rcases List.mem_append.mp ha with ha | ha
  · obtain ⟨front0, back0, horder, hsib, hother⟩ := hin a ha
    obtain ⟨hne, hdiff, -⟩ := h.runs a ha
    rw [List.map_append] at horder
    rcases lt_or_gt_of_ne hdiff with hab | hba
    · obtain ⟨between, hf, rfl⟩ :=
        List.append_split_before horder.symm hne (hbefore a ha hab)
      refine ⟨front0, between ++ run b ++ back.map (·.cardId), by rw [hf]; simp, fun s hs => ?_,
        fun c hc => ?_⟩
      · refine ⟨(hsib s hs).1, fun has => ?_⟩
        rcases List.mem_append.mp ((hsib s hs).2 has) with hmem | hmem
        · exact List.mem_append_left _ (List.mem_append_left _ hmem)
        · exact List.mem_append_right _ hmem
      · rcases List.mem_append.mp hc with hc | hc
        · refine ⟨(hother c hc).1, fun hac id hid => ?_⟩
          rcases List.mem_append.mp ((hother c hc).2 hac id hid) with hmem | hmem
          · exact List.mem_append_left _ (List.mem_append_left _ hmem)
          · exact List.mem_append_right _ hmem
        · rw [List.mem_singleton.mp hc]
          exact ⟨fun hba => absurd hab hba.asymm,
            fun _ id hid => List.mem_append_left _ (List.mem_append_right _ hid)⟩
    · obtain ⟨between, rfl, hb⟩ :=
        List.append_split_after horder.symm hne (hafter a ha hba)
      refine ⟨front.map (·.cardId) ++ run b ++ between, back0, by rw [hb]; simp, fun s hs => ?_,
        fun c hc => ?_⟩
      · refine ⟨fun hsa => ?_, (hsib s hs).2⟩
        rcases List.mem_append.mp ((hsib s hs).1 hsa) with hmem | hmem
        · exact List.mem_append_left _ (List.mem_append_left _ hmem)
        · exact List.mem_append_right _ hmem
      · rcases List.mem_append.mp hc with hc | hc
        · refine ⟨fun hca id hid => ?_, (hother c hc).2⟩
          rcases List.mem_append.mp ((hother c hc).1 hca id hid) with hmem | hmem
          · exact List.mem_append_left _ (List.mem_append_left _ hmem)
          · exact List.mem_append_right _ hmem
        · rw [List.mem_singleton.mp hc]
          exact ⟨fun _ id hid => List.mem_append_left _ (List.mem_append_right _ hid),
            fun hab => absurd hab hba.asymm⟩
  · rw [List.mem_singleton.mp ha]
    refine ⟨_, _, rfl, fun s hs => ?_, fun c hc => ?_⟩
    · obtain ⟨x, hx, hid⟩ := List.mem_map.mp (h.siblings s hs)
      obtain ⟨hlow, hhigh⟩ := hagrees.siblings s hs x hx hid
      rw [← hid]
      rcases List.mem_append.mp hx with hx' | hx'
      · exact ⟨fun _ => List.mem_map.mpr ⟨x, hx', rfl⟩,
          fun hbs => absurd (h.before x hx') (not_lt.mpr (hhigh hbs))⟩
      · exact ⟨fun hsb => absurd (h.after x hx') (not_le.mpr (hlow hsb)),
          fun _ => List.mem_map.mpr ⟨x, hx', rfl⟩⟩
    · rcases List.mem_append.mp hc with hc | hc
      · obtain ⟨-, -, hrun⟩ := h.runs c hc
        refine ⟨fun hcb id hid => ?_, fun hbc id hid => ?_⟩
        · exact (hsplit id (hrun id hid)).resolve_right (hbefore c hc hcb id hid)
        · exact (hsplit id (hrun id hid)).resolve_left (hafter c hc hbc id hid)
      · rw [List.mem_singleton.mp hc]
        exact ⟨fun h => absurd h (lt_irrefl _), fun h => absurd h (lt_irrefl _)⟩

/-- What is in place with one more run is so without it. -/
theorem RunAt.erase {front back : List (Card K)} (h : RunAt siblings anchors run b front back)
    (hin : InPlace siblings (anchors ++ [b]) run
      (front.map (·.cardId) ++ run b ++ back.map (·.cardId))) :
    InPlace siblings anchors run ((front ++ back).map (·.cardId)) := by
  obtain ⟨hleft, -, hright⟩ := List.nodup_append.mp h.nodup
  have hfree : ∀ id ∈ (front ++ back).map (·.cardId), id ∉ run b := by
    intro id hid hmem
    rw [List.map_append] at hid
    rcases List.mem_append.mp hid with hid | hid
    · exact (List.nodup_append.mp hleft).2.2 id hid id hmem rfl
    · exact hright id (List.mem_append_right _ hmem) id hid rfl
  have hkeep : ∀ {ids : List String}, (∀ id ∈ ids, id ∈ (front ++ back).map (·.cardId)) →
      ids.filter (fun id => !(run b).contains id) = ids := by
    intro ids hids
    refine List.filter_eq_self.mpr fun id hid => ?_
    simpa using hfree id (hids id hid)
  have hdrop : (run b).filter (fun id => !(run b).contains id) = [] := by
    refine List.filter_eq_nil_iff.mpr fun id hid => ?_
    simpa using hid
  intro a ha
  obtain ⟨front0, back0, horder, hsib, hother⟩ := hin a (List.mem_append_left _ ha)
  refine ⟨front0.filter (fun id => !(run b).contains id), back0.filter (fun id => !(run b).contains id),
    ?_, fun s hs => ?_, fun c hc => ?_⟩
  · have hfiltered := congrArg (List.filter fun id => !(run b).contains id) horder
    rw [List.filter_append, List.filter_append, List.filter_append, List.filter_append, hdrop,
      List.append_nil, hkeep (h.runs a ha).2.2, hkeep fun id hid => ?_, hkeep fun id hid => ?_] at hfiltered
    · rw [List.map_append, hfiltered]
    · rw [List.map_append]
      exact List.mem_append_right _ hid
    · rw [List.map_append]
      exact List.mem_append_left _ hid
  · have hnot := hfree _ (h.siblings s hs)
    exact ⟨fun hsa => List.mem_filter.mpr ⟨(hsib s hs).1 hsa, by simpa using hnot⟩,
      fun has => List.mem_filter.mpr ⟨(hsib s hs).2 has, by simpa using hnot⟩⟩
  · have hnot := fun id hid => hfree _ ((h.runs c hc).2.2 id hid)
    obtain ⟨hlow, hhigh⟩ := hother c (List.mem_append_left _ hc)
    exact ⟨fun hca id hid => List.mem_filter.mpr ⟨hlow hca id hid, by simpa using hnot id hid⟩,
      fun hac id hid => List.mem_filter.mpr ⟨hhigh hac id hid, by simpa using hnot id hid⟩⟩

/-- A run that is in its place was searched for by keys that agree. -/
theorem RunAt.agrees {front back : List (Card K)} (h : RunAt siblings anchors run b front back)
    (hin : InPlace siblings (anchors ++ [b]) run
      (front.map (·.cardId) ++ run b ++ back.map (·.cardId))) :
    SearchAgrees siblings anchors run (front ++ back) b := by
  obtain ⟨front0, back0, horder, hsib, hother⟩ := hin b (by simp)
  obtain ⟨rfl, rfl⟩ := List.append_split_same horder h.run h.nodup
  have hdisj : ∀ x ∈ front, x.cardId ∉ back.map (·.cardId) := fun x hx hmem =>
    (List.nodup_append.mp h.nodup).2.2 _ (List.mem_append_left _ (List.mem_map.mpr ⟨x, hx, rfl⟩)) _
      hmem rfl
  -- Who stands before the run compares as less, who stands after it does not.
  have hlow : ∀ x ∈ front ++ back, x.cardId ∈ front.map (·.cardId) → x.treeKey < b.treeKey := by
    intro x hx hmem
    rcases List.mem_append.mp hx with hx | hx
    · exact h.before x hx
    · obtain ⟨y, hy, hid⟩ := List.mem_map.mp hmem
      exact absurd (List.mem_map.mpr ⟨x, hx, hid.symm⟩) (hdisj y hy)
  have hhigh : ∀ x ∈ front ++ back, x.cardId ∈ back.map (·.cardId) → b.treeKey ≤ x.treeKey := by
    intro x hx hmem
    rcases List.mem_append.mp hx with hx | hx
    · exact absurd hmem (hdisj x hx)
    · exact h.after x hx
  refine ⟨fun s hs x hx hid => ⟨fun hsb => hlow x hx ?_, fun hbs => hhigh x hx ?_⟩,
    fun a ha x hx hid => ⟨fun hab => hlow x hx ?_, fun hba => hhigh x hx ?_⟩⟩
  · exact hid ▸ (hsib s hs).1 hsb
  · exact hid ▸ (hsib s hs).2 hbs
  · exact (hother a (List.mem_append_left _ ha)).1 hab _ hid
  · exact (hother a (List.mem_append_left _ ha)).2 hba _ hid

/-- Undisturbed siblings and runs compare as before. -/
theorem Undisturbed.searchAgrees (h : Undisturbed siblings anchors run list)
    (hnodup : (list.map (·.cardId)).Nodup) (hclear : ∀ a ∈ anchors, Clear siblings block a b) :
    SearchAgrees siblings anchors run list b where
  siblings s hs x hx hid := by
    obtain rfl := List.inj_on_of_nodup_map hnodup hx (h.kept s hs) hid
    exact ⟨fun hxb => hxb, fun hbx => hbx.le⟩
  runs a ha x hx hrun := by
    rcases h.side (hclear a ha) ha hx hrun with ⟨hab, s, -, hxs, hsb⟩ | ⟨hba, s, -, hbs, hsx⟩
    · exact ⟨fun _ => hxs.trans hsb, fun hba => absurd hab hba.asymm⟩
    · exact ⟨fun hab => absurd hab hba.asymm, fun _ => (hbs.trans hsx).le⟩

/-- The last of a sorted list is the last of a part of it that nothing exceeds. -/
theorem TreeSorted.getLast?_eq {cards part : List (Card K)} (h : TreeSorted cards)
    (hpart : TreeSorted part) (hnodup : (cards.map (·.cardId)).Nodup)
    (hsub : ∀ c ∈ part, c ∈ cards) (htop : ∀ c ∈ cards, ∃ d ∈ part, c.treeKey ≤ d.treeKey) :
    cards.getLast? = part.getLast? := by
  cases hlast : cards.getLast? with
  | none =>
    rw [List.getLast?_eq_none_iff.mp hlast] at hsub
    rw [List.eq_nil_iff_forall_not_mem.mpr fun c hc => List.not_mem_nil (hsub c hc)]
    rfl
  | some c =>
    have hc := List.mem_of_getLast? hlast
    obtain ⟨d, hd, hcd⟩ := htop c hc
    obtain ⟨last, hpl, hdl⟩ := hpart.le_getLast hd
    have hl := hsub last (List.mem_of_getLast? hpl)
    obtain ⟨c', hc', hlc⟩ := h.le_getLast hl
    rw [hlast] at hc'
    obtain rfl := Option.some.inj hc'
    rw [hpl, List.inj_on_of_nodup_map hnodup hc hl
      (cardId_of_treeKey (le_antisymm (hcd.trans hdl) hlc))]

/-- The first of a sorted list is the first of a part of it that nothing goes below. -/
theorem TreeSorted.head?_eq {cards part : List (Card K)} (h : TreeSorted cards)
    (hpart : TreeSorted part) (hnodup : (cards.map (·.cardId)).Nodup)
    (hsub : ∀ c ∈ part, c ∈ cards) (hbottom : ∀ c ∈ cards, ∃ d ∈ part, d.treeKey ≤ c.treeKey) :
    cards.head? = part.head? := by
  cases hfirst : cards.head? with
  | none =>
    rw [List.head?_eq_none_iff.mp hfirst] at hsub
    rw [List.eq_nil_iff_forall_not_mem.mpr fun c hc => List.not_mem_nil (hsub c hc)]
    rfl
  | some c =>
    have hc := List.mem_of_head? hfirst
    obtain ⟨d, hd, hdc⟩ := hbottom c hc
    obtain ⟨first, hpf, hfd⟩ := hpart.head_le hd
    have hf := hsub first (List.mem_of_head? hpf)
    obtain ⟨c', hc', hcf⟩ := h.head_le hf
    rw [hfirst] at hc'
    obtain rfl := Option.some.inj hc'
    rw [hpf, List.inj_on_of_nodup_map hnodup hc hf
      (cardId_of_treeKey (le_antisymm hcf (hfd.trans hdc)))]

/-- The neighbours of a place in the list are its neighbours among the siblings. -/
theorem Undisturbed.gapKeys_eq {front back : List (Card K)}
    (h : Undisturbed siblings anchors run (front ++ back)) (hsorted : TreeSorted (front ++ back))
    (hnodup : ((front ++ back).map (·.cardId)).Nodup) (hsiblings : TreeSorted siblings)
    (hclear : ∀ a ∈ anchors, Clear siblings block a b)
    (hfront : ∀ c ∈ front, c.treeKey < b.treeKey) (hback : ∀ c ∈ back, b.treeKey ≤ c.treeKey)
    (count : Nat) : spacedKeys (front.getLast?.map (·.sortKey)) (back.head?.map (·.sortKey)) count =
      gapKeys siblings b count := by
  obtain ⟨sfront, sback, rfl, hsfront, hsback, hindex⟩ := hsiblings.split b
  rw [List.map_append] at hnodup
  have hlast : front.getLast? = sfront.getLast? := by
    refine (hsorted.sublist (List.sublist_append_left _ _)).getLast?_eq
      (hsiblings.sublist (List.sublist_append_left _ _)) hnodup.of_append_left (fun c hc => ?_)
      fun c hc => ?_
    · rcases List.mem_append.mp (h.kept c (List.mem_append_left _ hc)) with hmem | hmem
      · exact hmem
      · exact absurd (hback c hmem) (not_le.mpr (hsfront c hc))
    · have hbelow : ∀ s ∈ sfront ++ sback, s.treeKey < b.treeKey → s ∈ sfront := by
        intro s hs hsb
        rcases List.mem_append.mp hs with hs | hs
        · exact hs
        · exact absurd (hsback s hs) (not_le.mpr hsb)
      rcases h.covered c (List.mem_append_left _ hc) with hs | ⟨a, ha, hrun⟩
      · exact ⟨c, hbelow c hs (hfront c hc), le_rfl⟩
      · rcases h.side (hclear a ha) ha (List.mem_append_left _ hc) hrun with
          ⟨-, s, hs, hcs, hsb⟩ | ⟨-, s, -, hbs, hsc⟩
        · exact ⟨s, hbelow s hs hsb, hcs.le⟩
        · exact absurd (hfront c hc) (hbs.trans hsc).asymm
  have hhead : back.head? = sback.head? := by
    have hne : ∀ c ∈ sback, c.treeKey < b.treeKey → False := fun c hc hcb =>
      absurd (hsback c hc) (not_le.mpr hcb)
    refine (hsorted.sublist (List.sublist_append_right _ _)).head?_eq
      (hsiblings.sublist (List.sublist_append_right _ _)) hnodup.of_append_right (fun c hc => ?_)
      fun c hc => ?_
    · rcases List.mem_append.mp (h.kept c (List.mem_append_right _ hc)) with hmem | hmem
      · exact (hne c hc (hfront c hmem)).elim
      · exact hmem
    · have habove : ∀ s ∈ sfront ++ sback, b.treeKey ≤ s.treeKey → s ∈ sback := by
        intro s hs hbs
        rcases List.mem_append.mp hs with hs | hs
        · exact absurd hbs (not_le.mpr (hsfront s hs))
        · exact hs
      rcases h.covered c (List.mem_append_right _ hc) with hs | ⟨a, ha, hrun⟩
      · exact ⟨c, habove c hs (hback c hc), le_rfl⟩
      · rcases h.side (hclear a ha) ha (List.mem_append_right _ hc) hrun with
          ⟨-, s, -, hcs, hsb⟩ | ⟨-, s, hs, hbs, hsc⟩
        · exact absurd (hback c hc) (not_le.mpr (hcs.trans hsb))
        · exact ⟨s, habove s hs hbs.le, hsc.le⟩
  unfold gapKeys
  rw [hindex, List.take_left, List.drop_left, hlast, hhead]

/-- A run that fits between its neighbours leaves the others undisturbed. -/
theorem Undisturbed.insert {front back cards : List (Card K)} {keys : List K}
    {destination : Option String} {now : Int}
    (h : Undisturbed siblings anchors run (front ++ back)) (hsiblings : TreeSorted siblings)
    (hin : ∀ a ∈ anchors, ∀ id ∈ run a, id ∈ (front ++ back).map (·.cardId))
    (hfresh : ∀ id ∈ (front ++ back).map (·.cardId), id ∉ run b)
    (hrun : run b = cards.map (·.cardId)) (hkeys : gapKeys siblings b cards.length = some keys)
    (hfits : (⟨front, [], [], back, keys⟩ : BlockWindow K).Fits (front ++ back) front.length cards) :
    Undisturbed siblings (anchors ++ [b]) run
      ((⟨front, [], [], back, keys⟩ : BlockWindow K).placed cards destination now) := by
  set cells := ((⟨front, [], [], back, keys⟩ : BlockWindow K).cells cards destination now).map (·.1)
    with hcells
  have hids : cells.map (·.cardId) = run b := by
    have hids := hfits.cells_ids destination now
    rw [hrun, hcells, List.map_map]
    simpa [Function.comp_def] using hids
  have hkeysOf : cells.map (·.sortKey) = keys := by
    have hkeys := hfits.cells_keys destination now
    rw [hcells, List.map_map]
    exact hkeys
  have hmem : ∀ x, x ∈ (⟨front, [], [], back, keys⟩ : BlockWindow K).placed cards destination now ↔
      x ∈ front ++ back ∨ x ∈ cells := by
    intro x
    simp only [BlockWindow.placed, ← hcells, List.mem_append]
    tauto
  have hcell : ∀ x ∈ cells, x.cardId ∈ run b := fun x hx =>
    hids ▸ List.mem_map.mpr ⟨x, hx, rfl⟩
  refine ⟨fun s hs => (hmem s).mpr (.inl (h.kept s hs)), fun a ha x hx hxrun => ?_, fun x hx => ?_⟩
  · rcases List.mem_append.mp ha with ha | ha
    · rcases (hmem x).mp hx with hx | hx
      · exact h.runs a ha x hx hxrun
      · exact absurd (hcell x hx) (hfresh _ (hin a ha _ hxrun))
    · rw [List.mem_singleton.mp ha] at hxrun ⊢
      rcases (hmem x).mp hx with hx | hx
      · exact absurd hxrun (hfresh _ (List.mem_map.mpr ⟨x, hx, rfl⟩))
      · have hkey : x.sortKey ∈ keys := hkeysOf ▸ List.mem_map.mpr ⟨x, hx, rfl⟩
        obtain ⟨sfront, sback, rfl, hsfront, hsback, hindex⟩ := hsiblings.split b
        unfold gapKeys at hkeys
        rw [hindex, List.take_left, List.drop_left] at hkeys
        obtain ⟨-, hleft, hright, -⟩ := spacedKeys_between hkeys
        intro s hs
        rcases List.mem_append.mp hs with hs | hs
        · obtain ⟨last, hlast, hle⟩ :=
            (hsiblings.sublist (List.sublist_append_left _ _)).le_getLast hs
          refine ⟨fun _ => (sortKey_le_of_treeKey hle).trans_lt ?_, fun hbs => ?_⟩
          · exact hleft _ (by rw [hlast]; rfl) _ hkey
          · exact absurd hbs (hsfront s hs).asymm
        · obtain ⟨first, hfirst, hle⟩ :=
            (hsiblings.sublist (List.sublist_append_right _ _)).head_le hs
          refine ⟨fun hsb => absurd (hsback s hs) (not_le.mpr hsb),
            fun _ => lt_of_lt_of_le ?_ (sortKey_le_of_treeKey hle)⟩
          exact hright _ (by rw [hfirst]; rfl) _ hkey
  · rcases (hmem x).mp hx with hx | hx
    · rcases h.covered x hx with hs | ⟨a, ha, hxrun⟩
      · exact .inl hs
      · exact .inr ⟨a, List.mem_append_left _ ha, hxrun⟩
    · exact .inr ⟨b, by simp, hcell x hx⟩

end

/-! ## The anchors of one destination -/

section
variable {db : Db K} {projectId : String} {destination : Option String} {now : Int}

/-- The list of a destination after the runs of some anchors, one after the other. -/
def insertRuns (destination : Option String) (now : Int) (block : Card K → List (Card K))
    (siblings anchors : List (Card K)) : Except Exn (List (Card K)) :=
  anchors.foldlM (fun list a => (insertBlockInto list (treeLowerBound list a) (treeSort (block a))
    destination now).map (·.1)) siblings

theorem insertRuns_concat (block : Card K → List (Card K)) {siblings anchors list : List (Card K)}
    (h : insertRuns destination now block siblings anchors = .ok list) (a : Card K) :
    insertRuns destination now block siblings (anchors ++ [a]) =
      (insertBlockInto list (treeLowerBound list a) (treeSort (block a)) destination now).map (·.1) := by
  unfold insertRuns at h ⊢
  rw [List.foldlM_append, h]
  cases hplace : insertBlockInto list (treeLowerBound list a) (treeSort (block a)) destination now with
  | error e => simp [hplace, bind, Except.bind, Except.map]
  | ok result => simp [hplace, bind, Except.bind, Except.map, pure, Except.pure]

variable {heads : List (RepairHead K)} {start changed : Map String (Card K)}
  {anchors list : List (Card K)}

theorem Anchored.insertRuns
    (h : Anchored db projectId destination now heads start anchors list changed) :
    insertRuns destination now (anchorBlock heads) (liveChildren db projectId destination) anchors =
      .ok list := by
  induction h with
  | start => rfl
  | place _ _ hplaced ih =>
    obtain ⟨rows, hinserted⟩ := hplaced.inserted
    rw [insertRuns_concat _ ih, hinserted]
    rfl

theorem anchorRun_ne_nil {a : Card K} (ha : anchorBlock heads a ≠ []) : anchorRun heads a ≠ [] := by
  intro he
  have hlen := (perm_treeSort (anchorBlock heads a)).length_eq
  rw [List.map_eq_nil_iff.mp he] at hlen
  exact ha (List.length_eq_zero_iff.mp hlen.symm)

/-- One more run, at the place that its anchor is searched at. -/
theorem Listed.runAt {anchor : Card K} {list' : List (Card K)} {changed' : Map String (Card K)}
    (h : Listed db projectId destination now (anchors.flatMap fun a =>
      (anchorBlock heads a).map (·.cardId)) changed list)
    (hlisted : Listed db projectId destination now ((anchors ++ [anchor]).flatMap fun a =>
      (anchorBlock heads a).map (·.cardId)) changed' list')
    (hplaced : PlacedInto db destination now list changed (anchorBlock heads anchor)
      (treeLowerBound list anchor) list' changed')
    (hne : ∀ a ∈ anchors ++ [anchor], anchorBlock heads a ≠ [])
    (hids : ((anchors ++ [anchor]).map (·.cardId)).Nodup) :
    ∃ front back, list = front ++ back ∧ treeLowerBound list anchor = front.length ∧
      list'.map (·.cardId) = front.map (·.cardId) ++ anchorRun heads anchor ++ back.map (·.cardId) ∧
      RunAt (liveChildren db projectId destination) anchors (anchorRun heads) anchor front back := by
  obtain ⟨front, back, rfl, hfront, hback, hindex⟩ := h.sorted.split anchor
  have horder : list'.map (·.cardId) =
      front.map (·.cardId) ++ anchorRun heads anchor ++ back.map (·.cardId) := by
    have horder := hplaced.ids
    rw [hindex, List.take_left, List.drop_left, List.map_append, List.map_append] at horder
    exact horder
  refine ⟨front, back, rfl, hindex, horder, hfront, hback, horder ▸ hlisted.nodup, fun s hs => ?_,
    fun a ha => ⟨anchorRun_ne_nil (hne a (List.mem_append_left _ ha)), fun he => ?_, fun id hid => ?_⟩,
    anchorRun_ne_nil (hne anchor (by simp))⟩
  · exact (h.ids _).mpr (.inl (List.mem_map.mpr ⟨s, hs, rfl⟩))
  · rw [List.map_append] at hids
    exact List.disjoint_of_nodup_append hids (List.mem_map.mpr ⟨a, ha, rfl⟩)
      (by simp [cardId_of_treeKey he])
  · refine (h.ids id).mpr (.inr (List.mem_flatMap.mpr ⟨a, ha, ?_⟩))
    exact ((perm_treeSort (anchorBlock heads a)).map _).mem_iff.mp hid

/-- The runs are in their places exactly when every search agreed. -/
theorem Anchored.inPlace_iff
    (h : Anchored db projectId destination now heads start anchors list changed)
    (hlisted : Listed db projectId destination now (anchors.flatMap fun a =>
      (anchorBlock heads a).map (·.cardId)) changed list)
    (hne : ∀ a ∈ anchors, anchorBlock heads a ≠ []) (hids : (anchors.map (·.cardId)).Nodup) :
    InPlace (liveChildren db projectId destination) anchors (anchorRun heads) (list.map (·.cardId)) ↔
      ∀ earlier b later list, anchors = earlier ++ b :: later →
        HolderCore.insertRuns destination now (anchorBlock heads)
          (liveChildren db projectId destination) earlier = .ok list →
        SearchAgrees (liveChildren db projectId destination) earlier (anchorRun heads) list b := by
  induction h with
  | start =>
    refine iff_of_true (fun a ha => absurd ha List.not_mem_nil) fun earlier b later _ he => ?_
    exact absurd he (by simp)
  | @place anchors list changed anchor list' changed' hbuilt hbefore hplaced ih =>
    obtain ⟨front, back, rfl, -, horder, hat⟩ := hbefore.runAt hlisted hplaced hne hids
    have hprevious := ih hbefore (fun a ha => hne a (List.mem_append_left _ ha))
      (hids.sublist ((List.sublist_append_left _ _).map _))
    rw [horder]
    constructor
    · intro hin earlier b later l hsplit hl
      rcases List.eq_nil_or_concat later with rfl | ⟨later, last, rfl⟩
      · obtain ⟨rfl, hb⟩ := List.append_inj' hsplit rfl
        cases hb
        rw [hbuilt.insertRuns, Except.ok.injEq] at hl
        exact hl ▸ hat.agrees hin
      · rw [List.concat_eq_append, ← List.cons_append, ← List.append_assoc] at hsplit
        obtain ⟨rfl, -⟩ := List.append_inj' hsplit rfl
        exact hprevious.mp (hat.erase hin) earlier b later l rfl hl
    · intro hsearches
      refine hat.insert (hprevious.mpr fun earlier b later l hsplit hl => ?_) ?_
      · exact hsearches earlier b (later ++ [anchor]) l (by rw [hsplit]; simp) hl
      · exact hsearches anchors anchor [] _ rfl hbuilt.insertRuns

/-- Anchors that are clear of each other find their places. -/
theorem Anchored.undisturbed
    (h : Anchored db projectId destination now heads start anchors list changed)
    (hlisted : Listed db projectId destination now (anchors.flatMap fun a =>
      (anchorBlock heads a).map (·.cardId)) changed list)
    (hne : ∀ a ∈ anchors, anchorBlock heads a ≠ []) (hids : (anchors.map (·.cardId)).Nodup)
    (hclear : anchors.Pairwise (Clear (liveChildren db projectId destination) (anchorBlock heads))) :
    InPlace (liveChildren db projectId destination) anchors (anchorRun heads) (list.map (·.cardId)) ∧
      ((∀ a ∈ anchors, gapKeys (liveChildren db projectId destination) a
          (anchorBlock heads a).length ≠ none) →
        Undisturbed (liveChildren db projectId destination) anchors (anchorRun heads) list) := by
  induction h with
  | start =>
    exact ⟨fun a ha => absurd ha List.not_mem_nil,
      fun _ => ⟨fun s hs => hs, fun a ha => absurd ha List.not_mem_nil, fun x hx => .inl hx⟩⟩
  | @place anchors list changed anchor list' changed' _ hbefore hplaced ih =>
    obtain ⟨hprevious, -, hlast⟩ := List.pairwise_append.mp hclear
    have hlast : ∀ a ∈ anchors, Clear (liveChildren db projectId destination)
        (anchorBlock heads) a anchor := fun a ha => hlast a ha anchor List.mem_cons_self
    obtain ⟨hin, hund⟩ := ih hbefore (fun a ha => hne a (List.mem_append_left _ ha))
      (hids.sublist ((List.sublist_append_left _ _).map _)) hprevious
    replace hund := hund fun a ha => (hlast a ha).room
    have hsiblings : TreeSorted (liveChildren db projectId destination) := scopeChildren_sorted ..
    obtain ⟨front, back, rfl, hindex, horder, hat⟩ := hbefore.runAt hlisted hplaced hne hids
    refine ⟨?_, fun hroom => ?_⟩
    · rw [horder]
      exact hat.insert hin (hund.searchAgrees hbefore.nodup hlast)
    · obtain ⟨keys, hkeys⟩ := Option.ne_none_iff_exists'.mp (hroom anchor (by simp))
      have hspaced := hund.gapKeys_eq hbefore.sorted hbefore.nodup hsiblings hlast hat.before hat.after
        (anchorBlock heads anchor).length
      rw [hkeys] at hspaced
      have hlist := hplaced.room (hne anchor (by simp)) keys
        (by rwa [hindex, List.take_left, List.drop_left])
      rw [hindex, List.take_left, List.drop_left] at hlist
      have hlen := (perm_treeSort (anchorBlock heads anchor)).length_eq
      rw [hlist]
      refine hund.insert hsiblings (fun a ha => (hat.runs a ha).2.2) (fun id hid hmem => ?_) rfl
        (by rw [hlen]; exact hkeys) ⟨by simp, by simp, ?_⟩
      · obtain ⟨hleft, -, hdisj⟩ := List.nodup_append.mp hat.nodup
        rw [List.map_append] at hid
        rcases List.mem_append.mp hid with hid | hid
        · exact (List.nodup_append.mp hleft).2.2 id hid id hmem rfl
        · exact hdisj id (List.mem_append_right _ hmem) id hid rfl
      · simpa [hlen] using hspaced

end

/-! ## The repair -/

section
variable {db db' : Db K} {projectId : String}

/-- The anchors of the hidden branches that go under a destination, in the order of their ids. -/
def anchorsUnder (db : Db K) (projectId : String) (destination : Option String) : List (Card K) :=
  (anchorTable (headsUnder db projectId destination)).rows

omit [SortKey K] in
theorem mem_anchorsUnder (hk : db.Keyed) {destination : Option String} {a : Card K} :
    a ∈ anchorsUnder db projectId destination ↔
      ∃ head ∈ headsUnder db projectId destination, head.anchor = some a := by
  unfold anchorsUnder
  rw [Map.mem_rows]
  simp only [get_anchorTable (groupHeads_headsUnder hk destination)]
  constructor
  · rintro ⟨-, -, h⟩
    exact h
  · exact fun h => ⟨a.cardId, rfl, h⟩

/-- Each anchor, in the order of the ids, is searched by its old key in a list whose keys compare with
it as those that they replaced. -/
def SearchesAgree (db : Db K) (projectId : String) (now : Int) : Prop :=
  ∀ destination earlier b later list, anchorsUnder db projectId destination = earlier ++ b :: later →
    insertRuns destination now (anchorBlock (headsUnder db projectId destination))
      (liveChildren db projectId destination) earlier = .ok list →
    SearchAgrees (liveChildren db projectId destination) earlier
      (anchorRun (headsUnder db projectId destination)) list b

/-- Of two anchors of one destination, the one with the smaller id is clear of the other. -/
def ClearAnchors (db : Db K) (projectId : String) : Prop :=
  ∀ destination, (anchorsUnder db projectId destination).Pairwise
    (Clear (liveChildren db projectId destination) (anchorBlock (headsUnder db projectId destination)))

/-- Every hidden branch is in the place of its anchor afterwards. -/
def BranchesInPlace (db db' : Db K) (projectId : String) : Prop :=
  ∀ destination, InPlace (liveChildren db projectId destination)
    (anchorsUnder db projectId destination) (anchorRun (headsUnder db projectId destination))
    (liveOrder db' projectId destination)

theorem InPlace.append {siblings anchors : List (Card K)} {run : Card K → List String}
    {order : List String} (h : InPlace siblings anchors run order) (last : List String) :
    InPlace siblings anchors run (order ++ last) := by
  intro a ha
  obtain ⟨front, back, rfl, hsib, hother⟩ := h a ha
  refine ⟨front, back ++ last, by simp, fun s hs => ⟨(hsib s hs).1, fun has => ?_⟩,
    fun b hb => ⟨(hother b hb).1, fun hab id hid => ?_⟩⟩
  · exact List.mem_append_left _ ((hsib s hs).2 has)
  · exact List.mem_append_left _ ((hother b hb).2 hab id hid)

/-- Neither do cards at the end that are no siblings and in no run put a run out of its place. -/
theorem InPlace.of_append {siblings anchors : List (Card K)} {run : Card K → List String}
    {order last : List String} (h : InPlace siblings anchors run (order ++ last))
    (hsiblings : ∀ s ∈ siblings, s.cardId ∉ last) (hruns : ∀ a ∈ anchors, ∀ id ∈ run a, id ∉ last)
    (hne : ∀ a ∈ anchors, run a ≠ []) : InPlace siblings anchors run order := by
  intro a ha
  obtain ⟨front, back, horder, hsib, hother⟩ := h a ha
  obtain ⟨between, rfl, rfl⟩ := List.append_split_before horder.symm (hne a ha) (hruns a ha)
  refine ⟨front, between, rfl, fun s hs => ⟨(hsib s hs).1, fun has => ?_⟩,
    fun b hb => ⟨(hother b hb).1, fun hab id hid => ?_⟩⟩
  · exact (List.mem_append.mp ((hsib s hs).2 has)).resolve_right (hsiblings s hs)
  · exact (List.mem_append.mp ((hother b hb).2 hab id hid)).resolve_right (hruns b hb id hid)

section
variable {now : Int} {plan : HierarchyRepairPlan K} {changed : Map String (Card K)}

omit [SortKey K] in
theorem anchorsUnder_nodup (hk : db.Keyed) (destination : Option String) :
    ((anchorsUnder db projectId destination).map (·.cardId)).Nodup :=
  Map.nodup_map_rows fun id a ha =>
    ((get_anchorTable (groupHeads_headsUnder hk destination) id a).mp ha).1

omit [SortKey K] in
theorem anchorBlock_ne_nil (hk : db.Keyed) {destination : Option String} {a : Card K}
    (ha : a ∈ anchorsUnder db projectId destination) :
    anchorBlock (headsUnder db projectId destination) a ≠ [] := by
  obtain ⟨head, hhead, hanchor⟩ := (mem_anchorsUnder hk).mp ha
  exact List.ne_nil_of_mem (mem_anchorBlock.mpr ⟨head, hhead, rfl, a, hanchor, rfl⟩)

/-- The live order of a destination: the list with the runs, and then the heads without an anchor. -/
theorem Planned.order_inPlace_iff (hk : db.Keyed) (h : Planned db projectId now plan changed)
    (hrows : RowsPlaced plan.placements db db') {destination : Option String}
    (hd : headsUnder db projectId destination ≠ []) :
    ∃ start list changed0, Anchored db projectId destination now (headsUnder db projectId destination)
        start (anchorsUnder db projectId destination) list changed0 ∧
      Listed db projectId destination now ((anchorsUnder db projectId destination).flatMap fun a =>
        (anchorBlock (headsUnder db projectId destination) a).map (·.cardId)) changed0 list ∧
      (InPlace (liveChildren db projectId destination) (anchorsUnder db projectId destination)
          (anchorRun (headsUnder db projectId destination)) (liveOrder db' projectId destination) ↔
        InPlace (liveChildren db projectId destination) (anchorsUnder db projectId destination)
          (anchorRun (headsUnder db projectId destination)) (list.map (·.cardId))) := by
  obtain ⟨list, hlist⟩ := h.lists destination hd
  obtain ⟨start, list0, changed0, hanchored, hlisted, hids⟩ := hlist.anchored
  refine ⟨start, list0, changed0, hanchored, hlisted, ?_⟩
  have hnodup := hlist.listed.nodup
  rw [liveOrder, h.liveChildren_destination hk hrows hlist, hids]
  rw [hids] at hnodup
  have hfree : ∀ id ∈ list0.map (·.cardId),
      id ∉ (treeSort (unanchoredBlock (headsUnder db projectId destination))).map (·.cardId) :=
    fun id hid hmem => List.disjoint_of_nodup_append hnodup hid hmem
  refine ⟨fun hin => hin.of_append (fun s hs => hfree _ ?_) (fun a ha id hid => hfree _ ?_)
    fun a ha => anchorRun_ne_nil (anchorBlock_ne_nil hk ha), fun hin => hin.append _⟩
  · exact (hlisted.ids _).mpr (.inl (List.mem_map.mpr ⟨s, hs, rfl⟩))
  · refine (hlisted.ids id).mpr (.inr (List.mem_flatMap.mpr ⟨a, ha, ?_⟩))
    exact ((perm_treeSort _).map _).mem_iff.mp hid

theorem Planned.inPlace_iff (hk : db.Keyed) (h : Planned db projectId now plan changed)
    (hrows : RowsPlaced plan.placements db db') :
    BranchesInPlace db db' projectId ↔ SearchesAgree db projectId now := by
  refine forall_congr' fun destination => ?_
  by_cases hd : headsUnder db projectId destination = []
  · have hnone : anchorsUnder db projectId destination = [] := by
      refine List.eq_nil_iff_forall_not_mem.mpr fun a ha => ?_
      obtain ⟨head, hhead, -⟩ := (mem_anchorsUnder hk).mp ha
      rw [hd] at hhead
      cases hhead
    rw [hnone]
    refine iff_of_true (fun a ha => absurd ha List.not_mem_nil) fun earlier b later _ he => ?_
    exact absurd he (by simp)
  · obtain ⟨start, list, changed0, hanchored, hlisted, hiff⟩ := h.order_inPlace_iff hk hrows hd
    rw [hiff, hanchored.inPlace_iff hlisted (fun a ha => anchorBlock_ne_nil hk ha)
      (anchorsUnder_nodup hk destination)]

/-- The searches agree where the anchors are clear of each other. -/
theorem Planned.clear (hk : db.Keyed) (h : Planned db projectId now plan changed)
    (hrows : RowsPlaced plan.placements db db') (hclear : ClearAnchors db projectId) :
    SearchesAgree db projectId now := by
  refine (h.inPlace_iff hk hrows).mp fun destination => ?_
  by_cases hd : headsUnder db projectId destination = []
  · intro a ha
    obtain ⟨head, hhead, -⟩ := (mem_anchorsUnder hk).mp ha
    rw [hd] at hhead
    cases hhead
  · obtain ⟨start, list, changed0, hanchored, hlisted, hiff⟩ := h.order_inPlace_iff hk hrows hd
    exact hiff.mpr (hanchored.undisturbed hlisted (fun a ha => anchorBlock_ne_nil hk ha)
      (anchorsUnder_nodup hk destination) (hclear destination)).1

end

end

namespace CardStore
variable {env : Env K} {w w' : World K}

theorem rowsPlaced_of_placements {placements : List (Card K)} {changes : List (CardChange K)}
    (hplaced : ∀ c ∈ placements, ∃ (b : Card K) (parent : Option String) (key : K) (now : Int),
      c = b.placed parent key now ∧ w.db.cards[b.cardId]? = some b)
    (hchanges : List.Forall₂ (PlacementOf env w) placements changes)
    (h : CardsChanged (changes.map (·.prepared.target)) w.db w'.db) :
    RowsPlaced placements w.db w'.db := by
  refine ⟨fun c hc => ?_, fun id hfree => h.kept id fun record hr => ?_⟩
  · obtain ⟨change, hmem, hp⟩ := hchanges.exists_right hc
    exact hp.row (hplaced c hc) h (List.mem_map.mpr ⟨change, hmem, rfl⟩)
  · obtain ⟨change, hmem, rfl⟩ := List.mem_map.mp hr
    obtain ⟨placed, hpl, hp⟩ := hchanges.exists_left hmem
    simpa [CardChange.prepared, hp.card] using hfree placed hpl

theorem repairHierarchyLocked_rows (projectId : String) (updatedAt : Int) (hw : Tidy env w) :
    Ends (repairHierarchyLocked env projectId updatedAt) w
      (fun _ w' => Tidy env w' ∧ ∃ plan, planHierarchyRepair w.db projectId updatedAt = .ok plan ∧
        RowsPlaced plan.placements w.db w'.db) fun _ _ => True := by
  unfold repairHierarchyLocked
  refine (requireProject_ends hw.journal _).bind ?_ fun _ _ _ => trivial
  rintro - w1 ⟨rfl, -⟩
  simp only [Ends.bind_iff, Ends.get_iff, Ends.fromExcept_iff, Ends.ite_iff, Ends.pure_iff]
  refine ⟨fun plan hplan => ⟨fun hempty => ?_, fun _ => ?_⟩, fun _ _ => trivial⟩
  · refine ⟨hw, plan, hplan, ?_⟩
    rw [List.isEmpty_iff.mp hempty]
    exact ⟨by simp, fun _ _ => rfl⟩
  obtain ⟨hnodup, hrows⟩ := planHierarchyRepair_all
    (P := fun c => ∃ (b : Card K) (parent : Option String) (key : K) (now : Int),
      c = b.placed parent key now ∧ w1.db.cards[b.cardId]? = some b)
    (by
      rintro _ parent key now ⟨b, _, _, _, hc, hb⟩
      exact ⟨b, parent, key, now, by rw [hc]; rfl, hb⟩)
    (fun c hc => ⟨c, _, _, _, rfl, (mem_rows_iff hw.keyed).mp hc⟩) hplan
  refine (mapM_placementChange_ends _ w1).mono ?_ fun _ _ _ => trivial
  rintro changes w2 ⟨rfl, hchanges⟩
  have hids : CardChanges changes := by
    intro change hc
    obtain ⟨placed, -, hp⟩ := hchanges.exists_left hc
    rw [hp.card, hp.current]
  refine (applyCardChanges_ends hids hw.valid).mono ?_ fun _ _ _ => trivial
  rintro - w3 ⟨m, hplanned, happlied, hj⟩
  have hcards := hplanned.cardsChanged hw.keyed hids (by rw [PlacementOf.ids hchanges]; exact hnodup)
  rw [← happlied.db] at hcards
  exact ⟨happlied.tidy hplanned hj hw, plan, hplan, rowsPlaced_of_placements hrows hchanges hcards⟩

end CardStore

end

/-! ## Two anchors in one gap -/

instance [SortKey K] (siblings : List (Card K)) (block : Card K → List (Card K)) (a b : Card K) :
    Decidable (Clear siblings block a b) :=
  decidable_of_iff ((∃ s ∈ siblings, cardTreeLess a s = true ∧ cardTreeLess s b = true ∨
      cardTreeLess b s = true ∧ cardTreeLess s a = true) ∧
        (gapKeys siblings a (block a).length).isSome = true) (by
    simp only [cardTreeLess_iff, Option.isSome_iff_ne_none]
    exact ⟨fun h => ⟨h.1, h.2⟩, fun h => ⟨h.between, h.room⟩⟩)

end HolderCore
