import HolderCore.Card.RepairPlan

/-! # Repaired hierarchies

`CardStore::repair_hierarchy`: each head of a hidden branch goes under the nearest ancestor that
browsing reaches, so every live card whose chain of parents ends is reachable afterwards, and a
second repair finds nothing to move. -/

namespace HolderCore

section
variable {db : Db K}

/-- The parent pointers of all cards of a project. -/
def projectUp (db : Db K) (projectId : String) : String → Option (Option String) :=
  foundUp (findCard db projectId)

theorem projectUp_eq_some {projectId id : String} {p : Option String} :
    projectUp db projectId id = some p ↔
      ∃ c, db.cards[id]? = some c ∧ c.projectId = projectId ∧ c.parentCardId = p := by
  simp only [projectUp, foundUp, Option.map_eq_some_iff, findCard_eq_some, and_assoc]

/-- `reachable_card_parent` throws exactly for the cards whose chain runs into a cycle. -/
theorem reachableCardParent_error_iff {card : Card K}
    (hcard : db.cards[card.cardId]? = some card) :
    (∃ e, reachableCardParent db card = .error e) ↔
      Doomed (projectUp db card.projectId) card.cardId := by
  have hok := reachableCardParent_ok_iff hcard
  have hcases : (∃ e, reachableCardParent db card = .error e) ↔
      ¬∃ parent, reachableCardParent db card = .ok parent := by
    cases reachableCardParent db card <;> simp
  rw [hcases, hok]
  simp only [not_forall, not_not, exists_prop]
  rfl

end

/-! ## The rows after a repair -/

section
variable [SortKey K] {db db' : Db K} {projectId : String} {now : Int} {plan : HierarchyRepairPlan K}
  {changed : Map String (Card K)}

theorem Planned.get (h : Planned db projectId now plan changed)
    (hrows : RowsPlaced plan.placements db db') (id : String) :
    db'.cards[id]? = rowAfter db changed id := by
  have hmem : ∀ c : Card K, c ∈ plan.placements ↔ changed[c.cardId]? = some c := by
    intro c
    rw [h.placements, Map.mem_rows]
    exact ⟨fun ⟨k, hk⟩ => by rw [h.keyed k c hk]; exact hk, fun hc => ⟨_, hc⟩⟩
  unfold rowAfter
  cases hc : changed[id]? with
  | some c =>
    obtain rfl := h.keyed id c hc
    exact hrows.placed c ((hmem c).mpr hc)
  | none =>
    rw [Option.none_or]
    refine hrows.kept id fun c hmemc he => ?_
    have := (hmem c).mp hmemc
    rw [he, hc] at this
    cases this

/-- A card that a list has a say in goes under its destination. -/
theorem Planned.touched_row (h : Planned db projectId now plan changed)
    (hrows : RowsPlaced plan.placements db db') {d : Option String}
    (hd : headsUnder db projectId d ≠ []) {id : String} (hid : Touched db projectId d id) :
    ∃ c b, db'.cards[id]? = some c ∧ LiveRow db projectId b ∧ b.cardId = id ∧
      c.parentCardId = d ∧ (c = b ∨ ∃ key, c = b.placed d key now) := by
  obtain ⟨list, hlist⟩ := h.lists d hd
  obtain ⟨c, hc, rfl⟩ := List.mem_map.mp ((hlist.listed.ids id).mpr hid)
  obtain ⟨hpar, b, hb, hcb⟩ := hlist.listed.cards c hc
  refine ⟨c, b, by rw [h.get hrows]; exact hlist.listed.rows c hc, hb, ?_, hpar, hcb⟩
  rcases hcb with rfl | ⟨key, rfl⟩ <;> rfl

/-- A repair moves the heads to their destinations; every other card keeps its parent, and what is
not live or not of the project stays as it is. -/
theorem Planned.row (hk : db.Keyed) (h : Planned db projectId now plan changed)
    (hrows : RowsPlaced plan.placements db db') {id : String} {c : Card K}
    (hc : db.cards[id]? = some c) : ∃ c', db'.cards[id]? = some c' ∧ c'.cardId = id ∧
      c'.projectId = c.projectId ∧ c'.deletedAt = c.deletedAt ∧
      (¬LiveRow db projectId c → c' = c) ∧
      ((∃ head ∈ planHeads db projectId, head.card = c ∧ c'.parentCardId = head.destination) ∨
        (∀ head ∈ planHeads db projectId, head.card.cardId ≠ id) ∧
          c'.parentCardId = c.parentCardId) := by
  obtain rfl := hk _ _ hc
  have hsame : ∀ b, LiveRow db projectId b → b.cardId = c.cardId → b = c := by
    intro b hb he
    have hrow := hb.row
    rw [he, hc] at hrow
    exact (Option.some.inj hrow).symm
  have htouch : ∀ d, headsUnder db projectId d ≠ [] → Touched db projectId d c.cardId →
      ∃ c', db'.cards[c.cardId]? = some c' ∧ LiveRow db projectId c ∧ c'.cardId = c.cardId ∧
        c'.projectId = c.projectId ∧ c'.deletedAt = c.deletedAt ∧ c'.parentCardId = d := by
    intro d hd hid
    obtain ⟨c', b, hrow, hb, hid, hpar, hcb⟩ := h.touched_row hrows hd hid
    obtain rfl := hsame b hb hid
    refine ⟨c', hrow, hb, ?_⟩
    rcases hcb with rfl | ⟨key, rfl⟩
    · exact ⟨rfl, rfl, rfl, hpar⟩
    · exact ⟨rfl, rfl, rfl, rfl⟩
  by_cases hhead : ∃ head ∈ planHeads db projectId, head.card.cardId = c.cardId
  · obtain ⟨head, hhead, he⟩ := hhead
    have hmem : head ∈ headsUnder db projectId head.destination := mem_headsUnder.mpr ⟨hhead, rfl⟩
    obtain ⟨c', hrow, hlive, hid, hproj, hdel, hpar⟩ := htouch head.destination
      (List.ne_nil_of_mem hmem) (.inr (List.mem_map.mpr ⟨head, hmem, he⟩))
    exact ⟨c', hrow, hid, hproj, hdel, fun hnot => absurd hlive hnot,
      .inl ⟨head, hhead, hsame _ (mem_planHeads hk hhead).1 he, hpar⟩⟩
  · have hother : ∀ head ∈ planHeads db projectId, head.card.cardId ≠ c.cardId :=
      fun head hmem he => hhead ⟨head, hmem, he⟩
    by_cases hnone : changed[c.cardId]? = none
    · refine ⟨c, ?_, rfl, rfl, rfl, fun _ => rfl, .inr ⟨hother, rfl⟩⟩
      rw [h.get hrows, rowAfter, hnone, Option.none_or, hc]
    · obtain ⟨d, hd, hid⟩ := h.touched c.cardId hnone
      obtain ⟨c', hrow, hlive, hid', hproj, hdel, hpar⟩ := htouch d hd hid
      refine ⟨c', hrow, hid', hproj, hdel, fun hnot => absurd hlive hnot, .inr ⟨hother, ?_⟩⟩
      rcases hid with hid | hid
      · obtain ⟨b, hb, he⟩ := List.mem_map.mp hid
        obtain ⟨hbrow, hbpar⟩ := (mem_liveChildren hk).mp hb
        obtain rfl := hsame b hbrow he
        rw [hpar, hbpar]
      · obtain ⟨head, hmem, he⟩ := List.mem_map.mp hid
        exact absurd he (hother head (mem_headsUnder.mp hmem).1)

/-- A repair adds no row. -/
theorem Planned.row_before (h : Planned db projectId now plan changed)
    (hrows : RowsPlaced plan.placements db db') {id : String} {c' : Card K}
    (hc : db'.cards[id]? = some c') : ∃ c, db.cards[id]? = some c := by
  rw [h.get hrows] at hc
  unfold rowAfter at hc
  cases hnone : changed[id]? with
  | none =>
    rw [hnone, Option.none_or] at hc
    exact ⟨c', hc⟩
  | some c =>
    obtain ⟨d, hd, hid⟩ := h.touched id (by rw [hnone]; simp)
    obtain ⟨-, b, -, hb, rfl, -⟩ := h.touched_row hrows hd hid
    exact ⟨b, hb.row⟩

/-- The live order of a destination is the list that was built for it. -/
theorem Planned.liveChildren_destination (hk : db.Keyed) (h : Planned db projectId now plan changed)
    (hrows : RowsPlaced plan.placements db db') {d : Option String} {list : List (Card K)}
    (hlist : RepairedList db projectId now d changed list) :
    liveChildren db' projectId d = list := by
  refine scopeChildren_eq (hrows.keyed hk) hlist.listed.sorted hlist.listed.nodup fun c => ?_
  simp only [id]
  constructor
  · intro hc
    obtain ⟨hpar, b, hb, hcb⟩ := hlist.listed.cards c hc
    have hrow := hlist.listed.rows c hc
    rw [← h.get hrows] at hrow
    rcases hcb with rfl | ⟨key, rfl⟩
    · exact ⟨⟨hrow, hb.project, hb.live⟩, hpar⟩
    · exact ⟨⟨hrow, hb.project, hb.live⟩, hpar⟩
  · rintro ⟨hrow, hpar⟩
    have htouched : Touched db projectId d c.cardId := by
      obtain ⟨b, hb⟩ := h.row_before hrows hrow.row
      obtain ⟨c', hc', -, hproj, hdel, -, hcase⟩ := h.row hk hrows hb
      rw [hrow.row] at hc'
      cases hc'
      rcases hcase with ⟨head, hhead, rfl, hdest⟩ | ⟨-, hkeep⟩
      · refine .inr (List.mem_map.mpr ⟨head, mem_headsUnder.mpr ⟨hhead, ?_⟩, hk _ _ hb⟩)
        rw [← hdest, hpar]
      · refine .inl (List.mem_map.mpr ⟨b, (mem_liveChildren hk).mpr ⟨⟨?_, ?_, ?_⟩, ?_⟩, hk _ _ hb⟩)
        · rw [hk _ _ hb]
          exact hb
        · rw [← hproj, hrow.project]
        · rw [← hdel, hrow.live]
        · rw [← hkeep, hpar]
    obtain ⟨x, hx, he⟩ := List.mem_map.mp ((hlist.listed.ids _).mpr htouched)
    have hxrow := hlist.listed.rows x hx
    rw [← h.get hrows, he, hrow.row] at hxrow
    exact Option.some.inj hxrow ▸ hx

/-- Any other parent keeps the live children that are no heads. -/
theorem Planned.liveChildren_other (hk : db.Keyed) (h : Planned db projectId now plan changed)
    (hrows : RowsPlaced plan.placements db db') {d : Option String}
    (hd : headsUnder db projectId d = []) :
    liveChildren db' projectId d = (liveChildren db projectId d).filter fun c =>
      !((planHeads db projectId).map (·.card.cardId)).contains c.cardId := by
  have hother : ∀ c : Card K,
      (!((planHeads db projectId).map (·.card.cardId)).contains c.cardId) = true ↔
      ∀ head ∈ planHeads db projectId, head.card.cardId ≠ c.cardId := by
    intro c
    simp
  refine scopeChildren_filter hk (hrows.keyed hk) fun c => ?_
  simp only [id, hother]
  have hkept : ∀ b, LiveRow db projectId b → b.parentCardId = d →
      (∀ head ∈ planHeads db projectId, head.card.cardId ≠ b.cardId) →
        db'.cards[b.cardId]? = some b := by
    intro b hb hpar hnot
    rw [h.get hrows]
    have hnone : changed[b.cardId]? = none := by
      by_contra hne
      obtain ⟨e, he, hid⟩ := h.touched _ hne
      rcases hid with hid | hid
      · obtain ⟨b', hb', hbe⟩ := List.mem_map.mp hid
        obtain ⟨hrow', hpar'⟩ := (mem_liveChildren hk).mp hb'
        have hsame := hrow'.row
        rw [hbe, hb.row] at hsame
        rw [← Option.some.inj hsame, hpar] at hpar'
        exact he (hpar' ▸ hd)
      · obtain ⟨head, hmem, hbe⟩ := List.mem_map.mp hid
        exact hnot head (mem_headsUnder.mp hmem).1 hbe
    rw [rowAfter, hnone, Option.none_or]
    exact hb.row
  constructor
  · rintro ⟨hrow, hpar⟩
    obtain ⟨b, hb⟩ := h.row_before hrows hrow.row
    have hbid := hk _ _ hb
    obtain ⟨c', hc', -, hproj, hdel, -, hcase⟩ := h.row hk hrows hb
    rw [hrow.row] at hc'
    cases hc'
    rcases hcase with ⟨head, hhead, rfl, hdest⟩ | ⟨hnot, hkeep⟩
    · have hmem : head ∈ headsUnder db projectId d :=
        mem_headsUnder.mpr ⟨hhead, hdest.symm.trans hpar⟩
      rw [hd] at hmem
      cases hmem
    · have hblive : LiveRow db projectId b :=
        ⟨by rw [hbid]; exact hb, by rw [← hproj, hrow.project], by rw [← hdel, hrow.live]⟩
      have hrowb := hkept b hblive (by rw [← hkeep, hpar]) fun head hmem =>
        by rw [hbid]; exact hnot head hmem
      rw [hbid, hrow.row] at hrowb
      obtain rfl := Option.some.inj hrowb
      exact ⟨⟨hblive, hpar⟩, hnot⟩
  · rintro ⟨⟨hrow, hpar⟩, hnot⟩
    exact ⟨⟨hkept c hrow hpar hnot, hrow.project, hrow.live⟩, hpar⟩

/-! ## What is reachable afterwards -/

/-- Browsing reaches after a repair what it reached before. -/
theorem Planned.rooted (hk : db.Keyed) (h : Planned db projectId now plan changed)
    (hrows : RowsPlaced plan.placements db db') {id : String}
    (hroot : Rooted (liveUp db projectId) id) : Rooted (liveUp db' projectId) id := by
  refine hroot.weaken_rooted fun y p hy hup => ?_
  obtain ⟨c, hc, hproj, hdel, rfl⟩ := liveUp_eq_some.mp hup
  obtain ⟨c', hc', -, hproj', hdel', -, hcase⟩ := h.row hk hrows hc
  refine liveUp_eq_some.mpr ⟨c', hc', hproj'.trans hproj, hdel'.trans hdel, ?_⟩
  rcases hcase with ⟨head, hhead, rfl, -⟩ | ⟨-, hkeep⟩
  · obtain ⟨-, ⟨p, hp, hdead⟩, -⟩ := mem_planHeads hk hhead
    rw [hp] at hup
    obtain ⟨q, hq⟩ := (hy.parent hup).node
    obtain ⟨b, hb, hbproj, hbdel, -⟩ := liveUp_eq_some.mp hq
    have hbid := hk _ _ hb
    exact absurd hbid (hdead b ⟨by rw [hbid]; exact hb, hbproj, hbdel⟩)
  · exact hkeep

/-- A live card whose chain ends is reachable once the card above it is, or at once. -/
theorem Planned.rooted_step (hk : db.Keyed) (h : Planned db projectId now plan changed)
    (hrows : RowsPlaced plan.placements db db') {c : Card K} (hc : LiveRow db projectId c)
    {destination : Option String} (hreach : reachableCardParent db c = .ok destination)
    (hparent : ∀ p b, c.parentCardId = some p → LiveRow db projectId b → b.cardId = p →
      Rooted (liveUp db' projectId) p) : Rooted (liveUp db' projectId) c.cardId := by
  obtain ⟨c', hc', -, hproj, hdel, -, hcase⟩ := h.row hk hrows hc.row
  have hup : liveUp db' projectId c.cardId = some c'.parentCardId :=
    liveUp_eq_some.mpr ⟨c', hc', hproj.trans hc.project, hdel.trans hc.live, rfl⟩
  rcases hcase with ⟨head, hhead, -, hdest⟩ | ⟨hnot, hkeep⟩
  · rw [hdest] at hup
    cases hd : head.destination with
    | none => exact .root (hd ▸ hup)
    | some a => exact .step (hd ▸ hup) (h.rooted hk hrows (planHeads_destination hk hhead hd))
  · rw [hkeep] at hup
    cases hp : c.parentCardId with
    | none => exact .root (hp ▸ hup)
    | some p =>
      by_cases hlive : ∃ b, LiveRow db projectId b ∧ b.cardId = p
      · obtain ⟨b, hb, he⟩ := hlive
        exact .step (hp ▸ hup) (hparent p b hp hb he)
      · obtain ⟨head, hhead, rfl, -⟩ := planHeads_of_row hk hc hp
          (fun b hb he => hlive ⟨b, hb, he⟩) hreach
        exact absurd rfl (hnot head hhead)

/-- Every live card whose chain ends is reachable after a repair. -/
theorem Planned.rooted_of_ok (hk : db.Keyed) (h : Planned db projectId now plan changed)
    (hrows : RowsPlaced plan.placements db db') {c : Card K} (hc : LiveRow db projectId c)
    {destination : Option String} (hreach : reachableCardParent db c = .ok destination) :
    Rooted (liveUp db' projectId) c.cardId := by
  have hsame := hc.project
  -- The walk of the card passes every live card above it.
  have hwalk : ∀ fuel visited next candidate answer,
      walkAncestors (findCard db projectId) fuel visited next candidate = .ok answer →
      ∀ p b, next = some p → LiveRow db projectId b → b.cardId = p →
        Rooted (liveUp db' projectId) p := by
    intro fuel
    induction fuel with
    | zero =>
      rintro visited next candidate answer hrun p b rfl - -
      cases hrun
    | succ fuel ih =>
      rintro visited next candidate answer hrun p b rfl hb rfl
      have hchain := walkAncestors_acyclic hrun b.cardId rfl
      have hfind : findCard db projectId b.cardId = some b := findCard_eq_some.mpr ⟨hb.row, hb.project⟩
      rw [walkAncestors] at hrun
      split at hrun
      · cases hrun
      simp only [hfind] at hrun
      obtain ⟨d, hd⟩ := (reachableCardParent_ok_iff hb.row).mpr fun x hx => by
        rw [hb.project] at hx ⊢
        exact (hchain x hx).2
      exact h.rooted_step hk hrows hb hd fun p b' hp hb' he => ih _ _ _ _ hrun p b' hp hb' he
  refine h.rooted_step hk hrows hc hreach fun p b hp hb he => ?_
  unfold reachableCardParent at hreach
  rw [hsame] at hreach
  exact hwalk _ _ _ _ _ hreach p b hp hb he

/-- Cards whose chain runs into a cycle stay as they are. -/
theorem Planned.doomed_kept (hk : db.Keyed) (h : Planned db projectId now plan changed)
    (hrows : RowsPlaced plan.placements db db') {id : String} {c : Card K}
    (hc : db.cards[id]? = some c) (hproj : c.projectId = projectId)
    (hdoomed : Doomed (projectUp db projectId) id) : db'.cards[id]? = some c := by
  obtain rfl := hk _ _ hc
  have herror : LiveRow db projectId c → ∃ e, reachableCardParent db c = .error e := fun hrow =>
    (reachableCardParent_error_iff hc).mpr (by rw [hproj]; exact hdoomed)
  rw [h.get hrows]
  have hnone : changed[c.cardId]? = none := by
    by_contra hne
    obtain ⟨d, hd, hid⟩ := h.touched _ hne
    rcases hid with hid | hid
    · -- A child of a destination is rooted, or a root.
      obtain ⟨b, hb, he⟩ := List.mem_map.mp hid
      obtain ⟨hrow, hpar⟩ := (mem_liveChildren hk).mp hb
      have hsame := hrow.row
      rw [he, hc] at hsame
      obtain rfl := Option.some.inj hsame
      obtain ⟨e, herr⟩ := herror hrow
      obtain ⟨head, hhead⟩ := List.exists_mem_of_ne_nil _ hd
      obtain ⟨hhead, hdest⟩ := mem_headsUnder.mp hhead
      cases hp : c.parentCardId with
      | none =>
        simp [reachableCardParent, hp, walkAncestors] at herr
      | some p =>
        have hroot := planHeads_destination hk hhead (hdest.trans (hpar.symm.trans hp))
        have hup : liveUp db c.projectId c.cardId = some (some p) :=
          liveUp_eq_some.mpr ⟨c, hc, rfl, hrow.live, hp⟩
        rw [reachableCardParent_of_rooted hk hup (by rw [hproj]; exact hroot) hp] at herr
        cases herr
    · obtain ⟨head, hmem, he⟩ := List.mem_map.mp hid
      obtain ⟨hrow, -, hreach, -⟩ := mem_planHeads hk (mem_headsUnder.mp hmem).1
      have hsame := hrow.row
      rw [show head.card.cardId = c.cardId from he, hc] at hsame
      obtain rfl := Option.some.inj hsame
      obtain ⟨e, herr⟩ := herror hrow
      rw [hreach] at herr
      cases herr
  rw [rowAfter, hnone, Option.none_or, hc]

/-- So they are on or below a cycle afterwards. -/
theorem Planned.doomed_after (hk : db.Keyed) (h : Planned db projectId now plan changed)
    (hrows : RowsPlaced plan.placements db db') {id : String}
    (hdoomed : Doomed (projectUp db projectId) id) : Doomed (projectUp db' projectId) id := by
  refine hdoomed.mono fun z hz => ?_
  have hrow : ∃ c, db.cards[z]? = some c ∧ c.projectId = projectId := by
    obtain ⟨y, hy, hcycle⟩ := hz
    have hnode : ∃ v, ParentStep (projectUp db projectId) z v := by
      rcases Relation.ReflTransGen.cases_head hy with rfl | ⟨v, hv, -⟩
      · obtain ⟨v, hv, -⟩ := Relation.TransGen.head'_iff.mp hcycle
        exact ⟨v, hv⟩
      · exact ⟨v, hv⟩
    obtain ⟨v, hv⟩ := hnode
    obtain ⟨c, hc, hproj, -⟩ := projectUp_eq_some.mp hv
    exact ⟨c, hc, hproj⟩
  obtain ⟨c, hc, hproj⟩ := hrow
  rw [projectUp_eq_some.mpr ⟨c, hc, hproj, rfl⟩,
    projectUp_eq_some.mpr ⟨c, h.doomed_kept hk hrows hc hproj hz, hproj, rfl⟩]

/-- A second repair has no heads. -/
theorem Planned.planHeads_after (hk : db.Keyed) (h : Planned db projectId now plan changed)
    (hrows : RowsPlaced plan.placements db db') : planHeads db' projectId = [] := by
  rw [List.eq_nil_iff_forall_not_mem]
  intro head hhead
  obtain ⟨hrow, ⟨p, hp, hdead⟩, hreach, -⟩ := mem_planHeads (hrows.keyed hk) hhead
  obtain ⟨c, hc⟩ := h.row_before hrows hrow.row
  have hcid := hk _ _ hc
  obtain ⟨c', hc', -, hproj, hdel, -⟩ := h.row hk hrows hc
  rw [hrow.row] at hc'
  obtain rfl := Option.some.inj hc'
  have hlive : LiveRow db projectId c :=
    ⟨by rw [hcid]; exact hc, by rw [← hproj, hrow.project], by rw [← hdel, hrow.live]⟩
  cases hbefore : reachableCardParent db c with
  | ok destination =>
    have hroot := h.rooted_of_ok hk hrows hlive hbefore
    rw [hcid] at hroot
    have hup : liveUp db' projectId head.card.cardId = some (some p) :=
      liveUp_eq_some.mpr ⟨head.card, hrow.row, hrow.project, hrow.live, hp⟩
    obtain ⟨q, hq⟩ := (hroot.parent hup).node
    obtain ⟨b, hb, hbproj, hbdel, -⟩ := liveUp_eq_some.mp hq
    have hbid := hrows.keyed hk _ _ hb
    exact hdead b ⟨by rw [hbid]; exact hb, hbproj, hbdel⟩ hbid
  | error e =>
    have hdoomed := (reachableCardParent_error_iff hlive.row).mp ⟨e, hbefore⟩
    rw [hlive.project, hcid] at hdoomed
    obtain ⟨e', herr⟩ := (reachableCardParent_error_iff hrow.row).mpr (by
      rw [hrow.project]
      exact h.doomed_after hk hrows hdoomed)
    rw [hreach] at herr
    cases herr

/-- What has no heads is not repaired. -/
theorem planHierarchyRepair_of_no_heads (h : planHeads db projectId = []) :
    ∃ cycles, planHierarchyRepair db projectId now = .ok ⟨[], [], cycles⟩ := by
  have hfold : planHierarchyRepair db projectId now = (do
      let changed ← (headGroups (planHeads db projectId)).toList.foldlM (fun changed entry =>
        repairGroup db projectId entry.1 now entry.2 changed) ∅
      return {
        placements := changed.rows
        movedCardIds := ((planHeads db projectId).map (·.card.cardId)).insertionSort (· ≤ ·)
        cycleCardIds := (planFindings db projectId).filterMap (Sum.elim some fun _ => none) }) := rfl
  rw [hfold, h]
  exact ⟨_, rfl⟩

/-! ## The order of the siblings that were there -/

/-- A repair leaves the live children that a parent had, and keeps, in their order. -/
theorem Planned.order_kept (hk : db.Keyed) (h : Planned db projectId now plan changed)
    (hrows : RowsPlaced plan.placements db db') (d : Option String) :
    (liveOrder db' projectId d).filter (liveOrder db projectId d).contains =
      (liveOrder db projectId d).filter (liveOrder db' projectId d).contains := by
  by_cases hd : headsUnder db projectId d = []
  · have hafter := h.liveChildren_other hk hrows hd
    have hsub : ∀ c ∈ liveChildren db projectId d, (liveOrder db' projectId d).contains c.cardId =
        !((planHeads db projectId).map (·.card.cardId)).contains c.cardId := by
      intro c hc
      rw [Bool.eq_iff_iff, List.contains_iff_mem, liveOrder, hafter]
      constructor
      · intro hmem
        obtain ⟨c', hc', he⟩ := List.mem_map.mp hmem
        obtain ⟨-, hp⟩ := List.mem_filter.mp hc'
        rw [← he]
        exact hp
      · exact fun hp => List.mem_map.mpr ⟨c, List.mem_filter.mpr ⟨hc, hp⟩, rfl⟩
    have hleft : (liveOrder db' projectId d).filter (liveOrder db projectId d).contains =
        liveOrder db' projectId d := by
      refine List.filter_eq_self.mpr fun id hid => ?_
      rw [List.contains_iff_mem]
      rw [liveOrder, hafter] at hid
      obtain ⟨c, hc, rfl⟩ := List.mem_map.mp hid
      exact List.mem_map.mpr ⟨c, List.mem_of_mem_filter hc, rfl⟩
    rw [hleft]
    change _ = ((liveChildren db projectId d).map (·.cardId)).filter _
    rw [List.filter_map]
    change _ = ((liveChildren db projectId d).filter fun c =>
      (liveOrder db' projectId d).contains c.cardId).map (·.cardId)
    rw [List.filter_congr hsub, ← hafter]
    rfl
  · obtain ⟨list, hlist⟩ := h.lists d hd
    have hafter : liveOrder db' projectId d = list.map (·.cardId) := by
      rw [liveOrder, h.liveChildren_destination hk hrows hlist]
    rw [hafter, hlist.listed.order]
    refine (List.filter_eq_self.mpr fun id hid => ?_).symm
    rw [List.contains_iff_mem]
    exact (hlist.listed.ids id).mpr (.inl hid)

/-! ## Exact keys -/

theorem foldlM_exists_ok {ε σ α : Type} {f : σ → α → Except ε σ} (h : ∀ s a, ∃ s', f s a = .ok s')
    (as : List α) (s : σ) : ∃ s', as.foldlM f s = .ok s' := by
  induction as generalizing s with
  | nil => exact ⟨s, rfl⟩
  | cons a as ih =>
    obtain ⟨s1, hs⟩ := h s a
    obtain ⟨s', hs'⟩ := ih s1
    exact ⟨s', by rw [List.foldlM_cons, hs]; exact hs'⟩

/-- With exact keys a repair always has a plan. -/
theorem planHierarchyRepair_exact (db : Db ℚ) (projectId : String) (now : Int) :
    ∃ plan, planHierarchyRepair db projectId now = .ok plan := by
  have hplace : ∀ (d : Option String) (state : List (Card ℚ) × Map String (Card ℚ))
      (block : List (Card ℚ)) (index : Nat), index ≤ state.1.length →
      ∃ state', repairPlace d now state block index = .ok state' := by
    intro d state block index hindex
    obtain ⟨result, hrun⟩ : ∃ result, insertBlockInto state.1 index (treeSort block) d now =
      .ok result := insertBlockInto_exact d now hindex
    exact ⟨_, by rw [repairPlace, hrun]; rfl⟩
  have hgroup : ∀ (changed : Map String (Card ℚ)) (entry : Option String × List (RepairHead ℚ)),
      ∃ changed', repairGroup db projectId entry.1 now entry.2 changed = .ok changed' := by
    intro changed entry
    have hrun : repairGroup db projectId entry.1 now entry.2 changed =
        ((anchorTable entry.2).rows.foldlM (fun state anchor => repairPlace entry.1 now state
          (anchorBlock entry.2 anchor) (treeLowerBound state.1 anchor))
            (liveChildren db projectId entry.1, changed)).bind fun state =>
          if (unanchoredBlock entry.2).isEmpty then .ok state.2 else
            (repairPlace entry.1 now state (unanchoredBlock entry.2) state.1.length).bind
              fun state => .ok state.2 := rfl
    obtain ⟨state, hstate⟩ := foldlM_exists_ok (fun (state : List (Card ℚ) × Map String (Card ℚ))
      (anchor : Card ℚ) => hplace entry.1 state (anchorBlock entry.2 anchor)
        (treeLowerBound state.1 anchor) (treeLowerBound_le _ _)) (anchorTable entry.2).rows
      (liveChildren db projectId entry.1, changed)
    obtain ⟨last, hlast⟩ := hplace entry.1 state (unanchoredBlock entry.2) state.1.length le_rfl
    rw [hrun, hstate, Except.bind]
    split
    · exact ⟨_, rfl⟩
    · rw [hlast]
      exact ⟨_, rfl⟩
  obtain ⟨changed, hchanged⟩ := foldlM_exists_ok hgroup
    (headGroups (planHeads db projectId)).toList ∅
  refine ⟨⟨changed.rows, ((planHeads db projectId).map (·.card.cardId)).insertionSort (· ≤ ·),
    (planFindings db projectId).filterMap (Sum.elim some fun _ => none)⟩, ?_⟩
  have hfold : planHierarchyRepair db projectId now = (do
      let changed ← (headGroups (planHeads db projectId)).toList.foldlM (fun changed entry =>
        repairGroup db projectId entry.1 now entry.2 changed) ∅
      return {
        placements := changed.rows
        movedCardIds := ((planHeads db projectId).map (·.card.cardId)).insertionSort (· ≤ ·)
        cycleCardIds := (planFindings db projectId).filterMap (Sum.elim some fun _ => none) }) := rfl
  rw [hfold, hchanged]
  rfl

end

/-! ## The walk over the table -/

section
variable [LinearOrder K] {db : Db K} {projectId : String}

/-- `by_id`: the project's cards, read once. -/
def repairTable (db : Db K) (projectId : String) : Map String (Card K) :=
  (CardRepo.listAll db projectId).foldl (fun m c => m.insertIfNew c.cardId c) ∅

/-- The walk of `plan_hierarchy_repair`, which asks the table instead of the store; nothing stands
for a cycle. -/
def repairWalk (byId : Map String (Card K)) :
    (fuel : Nat) → (visited : List String) → (next destination : Option String) →
      Option (Option String)
  | _, _, none, destination => some destination
  | 0, _, some _, _ => none
  | fuel + 1, visited, some next, destination =>
    if visited.contains next then none else
    match byId[next]? with
    | none => some none
    | some ancestor =>
      let destination := if ancestor.deletedAt.isSome then none
        else if destination.isNone then some ancestor.cardId else destination
      repairWalk byId fuel (next :: visited) ancestor.parentCardId destination

theorem get_repairTable (hk : db.Keyed) (id : String) :
    (repairTable db projectId)[id]? = findCard db projectId id := by
  have hgo : ∀ (cards : List (Card K)) (m : Map String (Card K)) (c : Card K),
      (cards.map (·.cardId)).Nodup → (∀ c ∈ cards, m[c.cardId]? = none) →
      ((cards.foldl (fun (m : Map String (Card K)) c => m.insertIfNew c.cardId c) m)[id]? = some c ↔
        m[id]? = some c ∨ c ∈ cards ∧ c.cardId = id) := by
    intro cards
    induction cards with
    | nil => simp
    | cons d cards ih =>
      intro m c hnodup hfresh
      obtain ⟨hnew, hnodup⟩ := List.nodup_cons.mp hnodup
      have hd := hfresh d List.mem_cons_self
      have hget : ∀ k : String, (m.insertIfNew d.cardId d)[k]? =
          if d.cardId = k then some d else m[k]? := by
        intro k
        rw [Std.ExtTreeMap.getElem?_insertIfNew]
        simp only [compare_eq_iff_eq]
        by_cases hk : d.cardId = k
        · subst hk
          rw [if_pos ⟨rfl, Map.not_mem_iff.mpr hd⟩, if_pos rfl]
        · rw [if_neg fun h => hk h.1, if_neg hk]
      rw [List.foldl_cons, ih _ _ hnodup fun e he => ?_, hget]
      · split
        · next hid =>
          subst hid
          rw [hd]
          simp only [Option.some.injEq, List.mem_cons, reduceCtorEq, false_or]
          constructor
          · rintro (rfl | ⟨hc, he⟩)
            · exact ⟨.inl rfl, rfl⟩
            · exact ⟨.inr hc, he⟩
          · rintro ⟨rfl | hc, he⟩
            · exact .inl rfl
            · exact .inr ⟨hc, he⟩
        · next hid =>
          simp only [List.mem_cons]
          constructor
          · rintro (h | ⟨hc, he⟩)
            · exact .inl h
            · exact .inr ⟨.inr hc, he⟩
          · rintro (h | ⟨rfl | hc, he⟩)
            · exact .inl h
            · exact absurd he hid
            · exact .inr ⟨hc, he⟩
      · rw [hget, if_neg fun h => hnew (List.mem_map.mpr ⟨e, he, h.symm⟩)]
        exact hfresh e (List.mem_cons_of_mem _ he)
  refine Option.ext fun c => ?_
  have hnodup : ((CardRepo.listAll db projectId).map (·.cardId)).Nodup := nodup_listWhere hk _
  rw [repairTable, hgo _ _ _ hnodup (by simp), findCard_eq_some]
  simp only [CardRepo.listAll, mem_listWhere, mem_rows_iff hk, beq_iff_eq]
  constructor
  · rintro (h | ⟨⟨hrow, hproj⟩, rfl⟩)
    · simp at h
    · exact ⟨hrow, hproj⟩
  · rintro ⟨hrow, hproj⟩
    have hid := hk _ _ hrow
    exact .inr ⟨⟨by rw [hid]; exact hrow, hproj⟩, hid⟩

/-- Both walks answer alike. -/
theorem repairWalk_eq (hk : db.Keyed) (card : Card K) :
    repairWalk (repairTable db card.projectId) (walkFuel db) [card.cardId] card.parentCardId none =
      (reachableCardParent db card).toOption := by
  have hgo : ∀ (fuel : Nat) (visited : List String) (next destination : Option String),
      repairWalk (repairTable db card.projectId) fuel visited next destination =
        (walkAncestors (findCard db card.projectId) fuel visited next destination).toOption := by
    intro fuel
    induction fuel with
    | zero => rintro visited (_ | next) destination <;> rfl
    | succ fuel ih =>
      rintro visited (_ | next) destination
      · rfl
      rw [repairWalk, walkAncestors, get_repairTable hk]
      split
      · rfl
      cases findCard db card.projectId next with
      | none => rfl
      | some ancestor =>
        simp only [ih]
        cases destination <;> rfl
  exact hgo _ _ _ _

end

/-! ## Repair -/

section
variable [SortKey K]

/-- The tables with the placements of a plan stored. -/
def HierarchyRepairPlan.apply (plan : HierarchyRepairPlan K) (db : Db K) : Db K :=
  { db with cards := plan.placements.foldl (fun m c => m.insert c.cardId c) db.cards }

theorem Planned.applied {db : Db K} {projectId : String} {now : Int} {plan : HierarchyRepairPlan K}
    {changed : Map String (Card K)} (h : Planned db projectId now plan changed) :
    RowsPlaced plan.placements db (plan.apply db) := by
  have hnodup : (plan.placements.map (·.cardId)).Nodup := by
    rw [h.placements]
    exact Map.nodup_map_rows h.keyed
  exact ⟨fun c hc => (get_recorded hnodup db.cards c.cardId).1 c hc rfl,
    fun id hid => (get_recorded hnodup db.cards id).2 hid⟩

end

/-- A repair of any set of cards: the walk over the table agrees with `reachable_card_parent`; there
is a plan, and once it is stored every live card outside of `cycleCardIds` is reachable; these are the
live cards for which `reachable_card_parent` throws, and stay as they are; each moved card goes to
what `reachable_card_parent` answers; only live cards under a missing or a trashed one change parent;
the siblings keep their order; and the next plan moves nothing. -/
theorem planHierarchyRepair_repairs {db : Db ℚ} (hk : db.Keyed) (projectId : String) (now : Int) :
    (∀ card : Card ℚ, card.projectId = projectId →
      repairWalk (repairTable db projectId) (walkFuel db) [card.cardId] card.parentCardId none =
        (reachableCardParent db card).toOption) ∧
    ∃ plan, planHierarchyRepair db projectId now = .ok plan ∧
      (∀ c, LiveRow (plan.apply db) projectId c → c.cardId ∉ plan.cycleCardIds →
        Rooted (liveUp (plan.apply db) projectId) c.cardId) ∧
      (∀ id, id ∈ plan.cycleCardIds ↔ ∃ c, LiveRow db projectId c ∧ c.cardId = id ∧
        ∃ e, reachableCardParent db c = .error e) ∧
      (∀ id ∈ plan.cycleCardIds, (plan.apply db).cards[id]? = db.cards[id]?) ∧
      (∀ id ∈ plan.movedCardIds, ∃ c c', LiveRow db projectId c ∧ c.cardId = id ∧
        (plan.apply db).cards[id]? = some c' ∧ reachableCardParent db c = .ok c'.parentCardId) ∧
      (∀ (id : String) c c', db.cards[id]? = some c → (plan.apply db).cards[id]? = some c' →
        c'.parentCardId ≠ c.parentCardId → LiveRow db projectId c ∧
          ∃ p, c.parentCardId = some p ∧ ∀ b, LiveRow db projectId b → b.cardId ≠ p) ∧
      (∀ d, (liveOrder (plan.apply db) projectId d).filter (liveOrder db projectId d).contains =
        (liveOrder db projectId d).filter (liveOrder (plan.apply db) projectId d).contains) ∧
      ∀ later, ∃ cycles, planHierarchyRepair (plan.apply db) projectId later = .ok ⟨[], [], cycles⟩ := by
  refine ⟨fun card hproj => hproj ▸ repairWalk_eq hk card, ?_⟩
  obtain ⟨plan, hplan⟩ := planHierarchyRepair_exact db projectId now
  obtain ⟨changed, h⟩ := planHierarchyRepair_planned hk hplan
  have hrows := h.applied
  refine ⟨plan, hplan, fun c hc hnot => ?_, h.cycles, fun id hid => ?_, fun id hid => ?_,
    fun id c c' hc hc' hne => ?_, h.order_kept hk hrows,
    fun later => planHierarchyRepair_of_no_heads (h.planHeads_after hk hrows)⟩
  · obtain ⟨b, hb⟩ := h.row_before hrows hc.row
    have hbid := hk _ _ hb
    obtain ⟨c', hc', -, hproj, hdel, -⟩ := h.row hk hrows hb
    rw [hc.row] at hc'
    obtain rfl := Option.some.inj hc'
    have hlive : LiveRow db projectId b :=
      ⟨by rw [hbid]; exact hb, by rw [← hproj, hc.project], by rw [← hdel, hc.live]⟩
    rw [← hbid]
    cases hreach : reachableCardParent db b with
    | ok destination => exact h.rooted_of_ok hk hrows hlive hreach
    | error e => exact absurd ((h.cycles _).mpr ⟨b, hlive, hbid, e, hreach⟩) hnot
  · obtain ⟨c, hc, rfl, herror⟩ := (h.cycles id).mp hid
    have hdoomed := (reachableCardParent_error_iff hc.row).mp herror
    rw [hc.project] at hdoomed
    rw [h.doomed_kept hk hrows hc.row hc.project hdoomed, hc.row]
  · obtain ⟨head, hhead, rfl⟩ := List.mem_map.mp ((h.moved id).mp hid)
    obtain ⟨hlive, -, hreach, -⟩ := mem_planHeads hk hhead
    obtain ⟨c', hc', -, -, -, -, ⟨head', hhead', he, hdest⟩ | ⟨hnot, -⟩⟩ := h.row hk hrows hlive.row
    · refine ⟨head.card, c', hlive, rfl, hc', ?_⟩
      have hsame := List.inj_on_of_nodup_map (planHeads_nodup hk) hhead' hhead (by rw [he])
      rw [hreach, hdest, hsame]
    · exact absurd rfl (hnot head hhead)
  · obtain ⟨c'', hc'', -, -, -, -, ⟨head, hhead, rfl, -⟩ | ⟨-, hkeep⟩⟩ := h.row hk hrows hc
    · obtain ⟨hlive, hparent, -⟩ := mem_planHeads hk hhead
      exact ⟨hlive, hparent⟩
    · rw [hc'] at hc''
      obtain rfl := Option.some.inj hc''
      exact absurd hkeep hne

/-! ## A merge that hides branches -/

/-- A card id. -/
def uuidOf (c : Char) : String :=
  let part (head : List Char) (count : Nat) := head ++ List.replicate count c
  String.ofList (part [] 8 ++ part ['-'] 4 ++ part ['-', '4'] 3 ++ part ['-', '8'] 3 ++ part ['-'] 12)

/-- A card as the merge of two devices leaves it. -/
def mergedCard (cardId : String) (parentCardId : Option String) (sortKey : ℚ)
    (deletedAt : Option Int) : Card ℚ :=
  let relPath := (if deletedAt.isSome then trashPath else livePath) cardId
  { plainCard cardId "a" parentCardId 1 with sortKey, deletedAt, relPath }

/-- Two roots, two trashed cards beside them, the second under a key of its own, and the children
that another device made under these. -/
def mergedCards (sortKey : ℚ) : List (Card ℚ) := [
  mergedCard (uuidOf 'a') none 5 (some 3),
  mergedCard (uuidOf 'b') none sortKey (some 3),
  mergedCard (uuidOf 'c') (some (uuidOf 'a')) 0 none,
  mergedCard (uuidOf 'd') (some (uuidOf 'b')) 0 none,
  mergedCard (uuidOf 'e') none 0 none,
  mergedCard (uuidOf 'f') none 20 none]

/-- The project with these cards, and with nothing else. -/
def hiddenBranches (sortKey : ℚ) : World ℚ :=
  let cards := mergedCards sortKey
  { db := { (Db.empty : Db ℚ) with
      cards := cards.foldl (fun rows card => rows.insert card.cardId card) ∅ }
    repo := { Repo.init with
      work := cards.foldl (fun work card =>
        work.insert card.relPath (renderCardFrontMatter flowYaml card [] [])) ∅ }
    journal := none
    ivs := 0 }

theorem Db.Keyed.of_rows {db : Db K} (h : ∀ row ∈ db.cards.toList, row.2.cardId = row.1) :
    db.Keyed :=
  fun id c hc => h (id, c) (Std.ExtTreeMap.mem_toList_iff_getElem?_eq_some.mpr hc)

theorem hiddenBranches_keyed : (hiddenBranches 8).db.Keyed := .of_rows (by decide +kernel)

theorem hiddenBranches_repaired : ∃ plan,
    planHierarchyRepair (hiddenBranches 8).db "home" 9 = .ok plan ∧
      plan.movedCardIds = [uuidOf 'c', uuidOf 'd'] ∧
      ∀ c, LiveRow (plan.apply (hiddenBranches 8).db) "home" c → c.cardId ∉ plan.cycleCardIds →
        Rooted (liveUp (plan.apply (hiddenBranches 8).db) "home") c.cardId := by
  obtain ⟨plan, hplan, hrooted, -⟩ := (planHierarchyRepair_repairs hiddenBranches_keyed "home" 9).2
  have hmoved : (planHierarchyRepair (hiddenBranches 8).db "home" 9).toOption.map (·.movedCardIds) =
      some [uuidOf 'c', uuidOf 'd'] := by decide +kernel
  rw [hplan] at hmoved
  exact ⟨plan, hplan, by simpa [Except.toOption] using hmoved, hrooted⟩

end HolderCore
