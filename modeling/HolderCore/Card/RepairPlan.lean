import HolderCore.Card.RepairLists

/-! # Repair plans

`plan_hierarchy_repair` finds the heads of the hidden branches and the cards on or below cycles. It
groups the heads by destination; the lists of two destinations have no card in common, so each
is built as if it were the only one. -/

namespace HolderCore

section
variable {db : Db K} {projectId : String}

/-! ## The heads -/

/-- What a repair finds, card by card. -/
def planFindings (db : Db K) (projectId : String) : List (String ⊕ RepairHead K) :=
  (db.cards.rows.filter (·.projectId == projectId)).filterMap (repairFinding db projectId)

def planHeads (db : Db K) (projectId : String) : List (RepairHead K) :=
  (planFindings db projectId).filterMap (Sum.elim (fun _ => none) some)

/-- The heads of each destination. -/
def headGroups (heads : List (RepairHead K)) : Map (Option String) (List (RepairHead K)) :=
  heads.foldl (fun (m : Map (Option String) (List (RepairHead K))) head =>
    m.insert head.destination ((m[head.destination]?).getD [] ++ [head])) ∅

theorem repairFinding_head {card : Card K} {head : RepairHead K}
    (h : repairFinding db projectId card = some (.inr head)) :
    head.card = card ∧ card.deletedAt = none ∧ (∃ p, card.parentCardId = some p) ∧
      (card.parentCardId.bind (findCard db projectId)).any (·.live) = false ∧
      reachableCardParent db card = .ok head.destination ∧
      head.anchor = repairAnchor (findCard db projectId) head.destination (walkFuel db)
        (card.parentCardId.bind (findCard db projectId)) := by
  unfold repairFinding at h
  split at h
  · cases h
  next hskip =>
  simp only [Bool.or_eq_true, not_or, Bool.not_eq_true, Option.isSome_eq_false_iff,
    Option.isNone_iff_eq_none] at hskip
  split at h
  · cases h
  next destination hreach =>
  dsimp only at h
  split at h
  · cases h
  next hdead =>
  cases h
  exact ⟨rfl, hskip.1, Option.ne_none_iff_exists'.mp hskip.2, by simpa using hdead, hreach, rfl⟩

/-- A head is a live card whose parent is missing or trashed, and whose chain ends. -/
theorem mem_planHeads (hk : db.Keyed) {head : RepairHead K} (h : head ∈ planHeads db projectId) :
    LiveRow db projectId head.card ∧
      (∃ p, head.card.parentCardId = some p ∧ ∀ b, LiveRow db projectId b → b.cardId ≠ p) ∧
      reachableCardParent db head.card = .ok head.destination ∧
      head.anchor = repairAnchor (findCard db projectId) head.destination (walkFuel db)
        (head.card.parentCardId.bind (findCard db projectId)) := by
  obtain ⟨finding, hfinding, hsome⟩ := List.mem_filterMap.mp h
  obtain ⟨card, hcard, hfound⟩ := List.mem_filterMap.mp hfinding
  obtain ⟨hrow, hproj⟩ := List.mem_filter.mp hcard
  cases finding with
  | inl id => cases hsome
  | inr found =>
    cases hsome
    obtain ⟨rfl, hlive, ⟨p, hp⟩, hdead, hreach, hanchor⟩ := repairFinding_head hfound
    refine ⟨⟨(mem_rows_iff hk).mp hrow, by simpa using hproj, hlive⟩, ⟨p, hp, fun b hb he => ?_⟩,
      hreach, hanchor⟩
    have hfind : findCard db projectId p = some b :=
      findCard_eq_some.mpr ⟨he ▸ hb.row, hb.project⟩
    rw [hp, Option.bind_some, hfind] at hdead
    simp [Card.live, hb.live] at hdead

/-- Every live card with a parent that is missing or trashed and with a chain that ends is a head. -/
theorem planHeads_of_row (hk : db.Keyed) {card : Card K} (hrow : LiveRow db projectId card) {p : String}
    (hp : card.parentCardId = some p) (hdead : ∀ b, LiveRow db projectId b → b.cardId ≠ p)
    {destination : Option String} (hreach : reachableCardParent db card = .ok destination) :
    ∃ head ∈ planHeads db projectId, head.card = card ∧ head.destination = destination := by
  refine ⟨⟨card, destination, repairAnchor (findCard db projectId) destination (walkFuel db)
    (card.parentCardId.bind (findCard db projectId))⟩, ?_, rfl, rfl⟩
  refine List.mem_filterMap.mpr ⟨.inr _, List.mem_filterMap.mpr ⟨card, ?_, ?_⟩, rfl⟩
  · exact List.mem_filter.mpr ⟨(mem_rows_iff hk).mpr hrow.row, by simp [hrow.project]⟩
  · have hnone : (card.parentCardId.bind (findCard db projectId)).any (·.live) = false := by
      rw [hp, Option.bind_some]
      cases hfind : findCard db projectId p with
      | none => rfl
      | some b =>
        obtain ⟨hb, hproj⟩ := findCard_eq_some.mp hfind
        rw [Option.any_some, Bool.eq_false_iff, ne_eq, Card.live_iff]
        have hid := hk _ _ hb
        exact fun hl => hdead b ⟨by rw [hid]; exact hb, hproj, hl⟩ hid
    have hstart : (card.deletedAt.isSome || card.parentCardId.isNone) = false := by
      simp [hrow.live, hp]
    unfold repairFinding
    simp only [hstart, hreach, hnone, Bool.false_eq_true, ↓reduceIte]

theorem planHeads_nodup (hk : db.Keyed) :
    ((planHeads db projectId).map (·.card.cardId)).Nodup := by
  have hgo : ∀ cards : List (Card K), (cards.map (·.cardId)).Nodup →
      (((cards.filterMap (repairFinding db projectId)).filterMap
        (Sum.elim (fun _ => none) some)).map (·.card.cardId)).Nodup ∧
      ∀ id ∈ ((cards.filterMap (repairFinding db projectId)).filterMap
        (Sum.elim (fun _ => none) some)).map (·.card.cardId), id ∈ cards.map (·.cardId) := by
    intro cards
    induction cards with
    | nil => simp
    | cons card cards ih =>
      intro hnodup
      obtain ⟨hfresh, hnodup⟩ := List.nodup_cons.mp hnodup
      obtain ⟨hrest, hsub⟩ := ih hnodup
      cases hf : repairFinding db projectId card with
      | none =>
        rw [List.filterMap_cons_none hf]
        exact ⟨hrest, fun id hid => List.mem_cons_of_mem _ (hsub id hid)⟩
      | some finding =>
        rw [List.filterMap_cons_some hf]
        cases finding with
        | inl id =>
          rw [List.filterMap_cons_none rfl]
          exact ⟨hrest, fun id hid => List.mem_cons_of_mem _ (hsub id hid)⟩
        | inr head =>
          obtain ⟨rfl, -⟩ := repairFinding_head hf
          rw [List.filterMap_cons_some
            (show Sum.elim (fun _ => none) some (Sum.inr head) = some head from rfl), List.map_cons]
          refine ⟨List.nodup_cons.mpr ⟨fun hmem => hfresh (hsub _ hmem), hrest⟩, fun id hid => ?_⟩
          rcases List.mem_cons.mp hid with rfl | hid
          · exact List.mem_cons_self
          · exact List.mem_cons_of_mem _ (hsub id hid)
  exact (hgo _ ((List.filter_sublist.map _).nodup (nodup_rows hk))).1

theorem get_headGroups (heads : List (RepairHead K)) (destination : Option String) :
    (headGroups heads)[destination]? =
      if heads.filter (·.destination == destination) = [] then none
      else some (heads.filter (·.destination == destination)) := by
  have hgo : ∀ (heads : List (RepairHead K)) (m : Map (Option String) (List (RepairHead K))),
      (heads.foldl (fun (m : Map (Option String) (List (RepairHead K))) head =>
        m.insert head.destination ((m[head.destination]?).getD [] ++ [head])) m)[destination]? =
      if heads.filter (·.destination == destination) = [] then m[destination]?
      else some ((m[destination]?).getD [] ++ heads.filter (·.destination == destination)) := by
    intro heads
    induction heads with
    | nil => simp
    | cons head heads ih =>
      intro m
      rw [List.foldl_cons, ih]
      by_cases hd : head.destination = destination
      · rw [List.filter_cons_of_pos (by simpa using hd), Map.get_insert, if_pos hd, hd]
        by_cases hrest : heads.filter (·.destination == destination) = []
        · simp [hrest]
        · simp [hrest]
      · rw [List.filter_cons_of_neg (by simpa using hd), Map.get_insert, if_neg hd]
  rw [headGroups, hgo]
  simp

/-- A destination is the roots or a card that browsing reaches. -/
theorem planHeads_destination (hk : db.Keyed) {head : RepairHead K}
    (h : head ∈ planHeads db projectId) {a : String} (ha : head.destination = some a) :
    Rooted (liveUp db projectId) a := by
  obtain ⟨hrow, -, hreach, -⟩ := mem_planHeads hk h
  rw [ha] at hreach
  have hroot := reachableCardParent_rooted hk hreach
  rw [hrow.project] at hroot
  exact hroot.weaken fun y p hy => (avoiding_eq_some.mp hy).2

/-- No head stands under a destination. -/
theorem planHeads_parent_ne (hk : db.Keyed) {head head' : RepairHead K}
    (h : head ∈ planHeads db projectId) (h' : head' ∈ planHeads db projectId) :
    head.card.parentCardId ≠ head'.destination := by
  intro he
  obtain ⟨-, ⟨p, hp, hdead⟩, -⟩ := mem_planHeads hk h
  rw [hp] at he
  obtain ⟨q, hq⟩ := (planHeads_destination hk h' he.symm).node
  obtain ⟨b, hb, hproj, hlive, -⟩ := liveUp_eq_some.mp hq
  have hid := hk _ _ hb
  exact hdead b ⟨by rw [hid]; exact hb, hproj, hlive⟩ hid

end

/-! ## The plan -/

section
variable [SortKey K] {db : Db K} {projectId : String} {now : Int}

/-- The heads that go under a destination. -/
def headsUnder (db : Db K) (projectId : String) (destination : Option String) :
    List (RepairHead K) :=
  (planHeads db projectId).filter (·.destination == destination)

/-- The cards whose rows a destination's list has a say in. -/
def Touched (db : Db K) (projectId : String) (destination : Option String) (id : String) : Prop :=
  id ∈ liveOrder db projectId destination ∨
    id ∈ (headsUnder db projectId destination).map (·.card.cardId)

omit [SortKey K] in
theorem mem_headsUnder {destination : Option String} {head : RepairHead K} :
    head ∈ headsUnder db projectId destination ↔
      head ∈ planHeads db projectId ∧ head.destination = destination := by
  simp [headsUnder]

omit [SortKey K] in
theorem groupHeads_headsUnder (hk : db.Keyed) (destination : Option String) :
    GroupHeads db projectId destination (headsUnder db projectId destination) where
  rows head hhead := by
    obtain ⟨hplan, rfl⟩ := mem_headsUnder.mp hhead
    exact ⟨(mem_planHeads hk hplan).1, planHeads_parent_ne hk hplan hplan⟩
  nodup := (List.filter_sublist.map _).nodup (planHeads_nodup hk)
  anchors head hhead a ha := by
    obtain ⟨hhead, -⟩ := mem_headsUnder.mp hhead
    obtain ⟨-, -, -, hanchor⟩ := mem_planHeads hk hhead
    rw [ha] at hanchor
    have hgo : ∀ (fuel : Nat) (start : Option (Card K)),
        (∀ b, start = some b → db.cards[b.cardId]? = some b) →
        repairAnchor (findCard db projectId) head.destination fuel start = some a →
          db.cards[a.cardId]? = some a := by
      intro fuel
      induction fuel with
      | zero =>
        intro start _ h
        cases h
      | succ fuel ih =>
        intro start hstart h
        cases start with
        | none => cases h
        | some b =>
          rw [repairAnchor] at h
          split at h
          · cases h
            exact hstart _ rfl
          · refine ih _ (fun c hc => ?_) h
            obtain ⟨q, -, hq⟩ := Option.bind_eq_some_iff.mp hc
            obtain ⟨hq, -⟩ := findCard_eq_some.mp hq
            rw [hk _ _ hq]
            exact hq
    refine hgo _ _ (fun b hb => ?_) hanchor.symm
    obtain ⟨q, -, hq⟩ := Option.bind_eq_some_iff.mp hb
    obtain ⟨hq, -⟩ := findCard_eq_some.mp hq
    rw [hk _ _ hq]
    exact hq

/-- A card has a place in the list of one destination only. -/
theorem Touched.unique (hk : db.Keyed) {a b : Option String} {id : String}
    (ha : Touched db projectId a id) (hb : Touched db projectId b id)
    (hda : headsUnder db projectId a ≠ []) (hdb : headsUnder db projectId b ≠ []) : a = b := by
  have hlive : ∀ {d : Option String}, id ∈ liveOrder db projectId d →
      ∃ c, LiveRow db projectId c ∧ c.cardId = id ∧ c.parentCardId = d := by
    intro d hid
    obtain ⟨c, hc, rfl⟩ := List.mem_map.mp hid
    obtain ⟨hrow, hpar⟩ := (mem_liveChildren hk).mp hc
    exact ⟨c, hrow, rfl, hpar⟩
  have hcross : ∀ {d e : Option String}, headsUnder db projectId d ≠ [] →
      id ∈ liveOrder db projectId d →
        id ∈ (headsUnder db projectId e).map (·.card.cardId) → False := by
    intro d e hd hid hmem
    obtain ⟨c, hrow, rfl, rfl⟩ := hlive hid
    obtain ⟨head, hhead, he⟩ := List.mem_map.mp hmem
    obtain ⟨hhead, -⟩ := mem_headsUnder.mp hhead
    obtain ⟨other, hother⟩ := List.exists_mem_of_ne_nil _ hd
    obtain ⟨hother, hdest⟩ := mem_headsUnder.mp hother
    have hsame := (mem_planHeads hk hhead).1.row
    rw [show head.card.cardId = c.cardId from he, hrow.row] at hsame
    refine planHeads_parent_ne hk hhead hother ?_
    rw [← Option.some.inj hsame, hdest]
  rcases ha with ha | ha <;> rcases hb with hb | hb
  · obtain ⟨c, hrow, hid, rfl⟩ := hlive ha
    obtain ⟨c', hrow', hid', rfl⟩ := hlive hb
    have hsame := hrow.row
    rw [hid, ← hid', hrow'.row] at hsame
    rw [Option.some.inj hsame]
  · exact (hcross hda ha hb).elim
  · exact (hcross hdb hb ha).elim
  · obtain ⟨head, hhead, he⟩ := List.mem_map.mp ha
    obtain ⟨head', hhead', he'⟩ := List.mem_map.mp hb
    obtain ⟨hplan, rfl⟩ := mem_headsUnder.mp hhead
    obtain ⟨hplan', rfl⟩ := mem_headsUnder.mp hhead'
    rw [List.inj_on_of_nodup_map (planHeads_nodup hk) hplan hplan' (he.trans he'.symm)]

theorem Listed.transfer {destination : Option String} {done : List String}
    {changed changed' : Map String (Card K)} {list : List (Card K)}
    (h : Listed db projectId destination now done changed list)
    (hsame : ∀ id ∈ list.map (·.cardId), changed'[id]? = changed[id]?) :
    Listed db projectId destination now done changed' list :=
  have hrows : ∀ c ∈ list, rowAfter db changed' c.cardId = some c := by
    intro c hc
    rw [rowAfter, hsame _ (List.mem_map.mpr ⟨c, hc, rfl⟩)]
    exact h.rows c hc
  { h with rows := hrows }

/-- The list of a destination, and how its anchored heads came into it. -/
structure RepairedList (db : Db K) (projectId : String) (now : Int) (destination : Option String)
    (changed : Map String (Card K)) (list : List (Card K)) : Prop where
  listed : Listed db projectId destination now
    ((headsUnder db projectId destination).map (·.card.cardId)) changed list
  anchored : ∃ start list0 changed0,
    Anchored db projectId destination now (headsUnder db projectId destination) start
      (anchorTable (headsUnder db projectId destination)).rows list0 changed0 ∧
    Listed db projectId destination now
      ((anchorTable (headsUnder db projectId destination)).rows.flatMap fun a =>
        (anchorBlock (headsUnder db projectId destination) a).map (·.cardId)) changed0 list0 ∧
    list.map (·.cardId) = list0.map (·.cardId) ++
      (treeSort (unanchoredBlock (headsUnder db projectId destination))).map (·.cardId)

/-- What a repair has done for some destinations. -/
structure RepairedAt (db : Db K) (projectId : String) (now : Int) (done : List (Option String))
    (changed : Map String (Card K)) : Prop where
  keyed : ∀ (id : String) c, changed[id]? = some c → c.cardId = id
  touched : ∀ id, changed[id]? ≠ none →
    ∃ d ∈ done, headsUnder db projectId d ≠ [] ∧ Touched db projectId d id
  lists : ∀ d ∈ done, headsUnder db projectId d ≠ [] →
    ∃ list, RepairedList db projectId now d changed list

theorem RepairedAt.group (hk : db.Keyed) {done : List (Option String)}
    {changed changed' : Map String (Card K)} {d : Option String}
    (h : RepairedAt db projectId now done changed) (hd : headsUnder db projectId d ≠ [])
    (hnew : d ∉ done)
    (hrun : repairGroup db projectId d now (headsUnder db projectId d) changed = .ok changed') :
    RepairedAt db projectId now (done ++ [d]) changed' := by
  have hfresh : ∀ id, Touched db projectId d id → changed[id]? = none := by
    intro id hid
    by_contra hne
    obtain ⟨d', hd', hne', htouched⟩ := h.touched id hne
    exact hnew (htouched.unique hk hid hne' hd ▸ hd')
  obtain ⟨list, hlisted, hkept, hkeyed, hbuilt⟩ := repairGroup_listed hk
    (groupHeads_headsUnder hk d) (fun id hid => hfresh id (.inl hid)) hrun
  have hids : ∀ id, id ∈ list.map (·.cardId) ↔ Touched db projectId d id := hlisted.ids
  refine ⟨hkeyed h.keyed, fun id hid => ?_, fun e he hne => ?_⟩
  · by_cases hmem : id ∈ list.map (·.cardId)
    · exact ⟨d, by simp, hd, (hids id).mp hmem⟩
    · rw [hkept id hmem] at hid
      obtain ⟨e, he, hne, htouched⟩ := h.touched id hid
      exact ⟨e, List.mem_append_left _ he, hne, htouched⟩
  · rcases List.mem_append.mp he with he | he
    · obtain ⟨list', hlist'⟩ := h.lists e he hne
      refine ⟨list', hlist'.listed.transfer fun id hid => hkept id fun hmem => ?_, hlist'.anchored⟩
      have htouched : Touched db projectId e id := (hlist'.listed.ids id).mp hid
      exact hnew (htouched.unique hk ((hids id).mp hmem) hne hd ▸ he)
    · rw [List.mem_singleton.mp he]
      obtain ⟨list0, changed0, hanchored, hlisted0, hlast⟩ := hbuilt
      exact ⟨list, hlisted, changed, list0, changed0, hanchored, hlisted0, hlast⟩

/-- What a repair plan is. -/
structure Planned (db : Db K) (projectId : String) (now : Int) (plan : HierarchyRepairPlan K)
    (changed : Map String (Card K)) : Prop where
  placements : plan.placements = changed.rows
  moved : ∀ id, id ∈ plan.movedCardIds ↔ id ∈ (planHeads db projectId).map (·.card.cardId)
  cycles : ∀ id, id ∈ plan.cycleCardIds ↔ ∃ c, LiveRow db projectId c ∧ c.cardId = id ∧
    ∃ e, reachableCardParent db c = .error e
  keyed : ∀ (id : String) c, changed[id]? = some c → c.cardId = id
  touched : ∀ id, changed[id]? ≠ none →
    ∃ d, headsUnder db projectId d ≠ [] ∧ Touched db projectId d id
  lists : ∀ d, headsUnder db projectId d ≠ [] →
    ∃ list, RepairedList db projectId now d changed list

theorem planHierarchyRepair_planned (hk : db.Keyed) {plan : HierarchyRepairPlan K}
    (h : planHierarchyRepair db projectId now = .ok plan) :
    ∃ changed, Planned db projectId now plan changed := by
  unfold planHierarchyRepair at h
  simp only [bind, Except.bind] at h
  split at h
  · cases h
  next changed hfold =>
  cases h
  have hfold : (headGroups (planHeads db projectId)).toList.foldlM (fun changed entry =>
      repairGroup db projectId entry.1 now entry.2 changed) ∅ = .ok changed := hfold
  have hentry : ∀ entry ∈ (headGroups (planHeads db projectId)).toList,
      entry.2 = headsUnder db projectId entry.1 ∧ headsUnder db projectId entry.1 ≠ [] := by
    rintro ⟨d, group⟩ hentry
    have hget := Std.ExtTreeMap.mem_toList_iff_getElem?_eq_some.mp hentry
    rw [get_headGroups] at hget
    split at hget
    · cases hget
    · next hne =>
      cases hget
      exact ⟨rfl, hne⟩
  have hkeys : ((headGroups (planHeads db projectId)).toList.map (·.1)).Nodup := by
    rw [List.Nodup, List.pairwise_map]
    exact Std.ExtTreeMap.distinct_keys_toList.imp fun hne he => hne (by simp [he])
  have hgo : ∀ (entries : List (Option String × List (RepairHead K))) (done : List (Option String))
      (start : Map String (Card K)), (∀ entry ∈ entries, entry.2 = headsUnder db projectId entry.1 ∧
        headsUnder db projectId entry.1 ≠ []) → (done ++ entries.map (·.1)).Nodup →
      RepairedAt db projectId now done start →
      entries.foldlM (fun changed entry => repairGroup db projectId entry.1 now entry.2 changed)
        start = .ok changed →
      RepairedAt db projectId now (done ++ entries.map (·.1)) changed := by
    intro entries
    induction entries with
    | nil =>
      intro done start _ _ hstart hrun
      cases hrun
      simpa using hstart
    | cons entry entries ih =>
      intro done start hentries hnodup hstart hrun
      rw [List.foldlM_cons] at hrun
      obtain ⟨hgroup, hne⟩ := hentries entry List.mem_cons_self
      rw [hgroup] at hrun
      cases hstep : repairGroup db projectId entry.1 now (headsUnder db projectId entry.1) start with
      | error e =>
        simp only [hstep, bind, Except.bind] at hrun
        cases hrun
      | ok next =>
        simp only [hstep, bind, Except.bind] at hrun
        have hnew : entry.1 ∉ done := by
          rw [List.map_cons] at hnodup
          exact fun hmem => List.disjoint_of_nodup_append hnodup hmem List.mem_cons_self
        have hrest := ih (done ++ [entry.1]) next
          (fun e he => hentries e (List.mem_cons_of_mem _ he)) (by simpa using hnodup)
          (hstart.group hk hne hnew hstep) hrun
        simpa using hrest
  have hdone := hgo _ [] ∅ hentry (by simpa using hkeys) ⟨by simp, by simp, by simp⟩ hfold
  rw [List.nil_append] at hdone
  refine ⟨changed, rfl, fun id => ?_, fun id => ?_, hdone.keyed, fun id hid => ?_, fun d hd => ?_⟩
  · exact List.mem_insertionSort _
  · constructor
    · intro hid
      obtain ⟨finding, hfinding, hsome⟩ := List.mem_filterMap.mp hid
      obtain ⟨card, hcard, hfound⟩ := List.mem_filterMap.mp hfinding
      obtain ⟨hrow, hproj⟩ := List.mem_filter.mp hcard
      cases finding with
      | inr head => cases hsome
      | inl id' =>
        cases hsome
        unfold repairFinding at hfound
        split at hfound
        · cases hfound
        next hskip =>
        simp only [Bool.or_eq_true, not_or, Bool.not_eq_true, Option.isSome_eq_false_iff,
          Option.isNone_iff_eq_none] at hskip
        split at hfound
        · next e hreach =>
          cases hfound
          exact ⟨card, ⟨(mem_rows_iff hk).mp hrow, by simpa using hproj, hskip.1⟩, rfl, e, hreach⟩
        · dsimp only at hfound
          split at hfound
          · cases hfound
          · cases hfound
    · rintro ⟨c, hrow, rfl, e, hreach⟩
      refine List.mem_filterMap.mpr ⟨.inl c.cardId, List.mem_filterMap.mpr ⟨c, ?_, ?_⟩, rfl⟩
      · exact List.mem_filter.mpr ⟨(mem_rows_iff hk).mpr hrow.row, by simp [hrow.project]⟩
      · have hpar : c.parentCardId.isNone = false := by
          cases hp : c.parentCardId with
          | none =>
            simp [reachableCardParent, hp, walkAncestors] at hreach
          | some p => rfl
        have hstart : (c.deletedAt.isSome || c.parentCardId.isNone) = false := by
          simp [hrow.live, hpar]
        unfold repairFinding
        simp only [hstart, hreach, Bool.false_eq_true, ↓reduceIte]
  · obtain ⟨d, -, hd, htouched⟩ := hdone.touched id hid
    exact ⟨d, hd, htouched⟩
  · refine hdone.lists d (List.mem_map.mpr ⟨(d, headsUnder db projectId d), ?_, rfl⟩) hd
    refine Std.ExtTreeMap.mem_toList_iff_getElem?_eq_some.mpr ?_
    rw [get_headGroups]
    exact if_neg hd

end

end HolderCore
