import HolderCore.Card.Forest
import HolderCore.Card.SiblingOrder

/-! # The live order under a parent

Browsing shows the live children of a parent in the order of `card_tree_less`. A journalled change
leaves the rows it placed and no others, so the order after it is the list that the insertion
returned. -/

namespace HolderCore

section LiveOrder
variable [LinearOrder K]

/-- The live cards whose parent belongs to a scope, in tree order. -/
def scopeChildren (scope : Option String → Option String) (db : Db K) (projectId : String)
    (parent : Option String) : List (Card K) :=
  treeSort (db.cards.rows.filter fun c =>
    c.projectId == projectId && c.live && scope c.parentCardId == parent)

/-- The live cards under a parent, or among the roots, in tree order. -/
def liveChildren (db : Db K) (projectId : String) (parent : Option String) : List (Card K) :=
  scopeChildren id db projectId parent

/-- Their ids. -/
def liveOrder (db : Db K) (projectId : String) (parent : Option String) : List String :=
  (liveChildren db projectId parent).map (·.cardId)

variable {db : Db K} {projectId : String} {scope : Option String → Option String}

theorem mem_scopeChildren (hk : db.Keyed) {parent : Option String} {c : Card K} :
    c ∈ scopeChildren scope db projectId parent ↔
      LiveRow db projectId c ∧ scope c.parentCardId = parent := by
  simp only [scopeChildren, mem_treeSort, List.mem_filter, mem_rows_iff hk, Bool.and_eq_true,
    beq_iff_eq, Card.live_iff]
  constructor
  · rintro ⟨hrow, ⟨hproj, hlive⟩, hpar⟩
    exact ⟨⟨hrow, hproj, hlive⟩, hpar⟩
  · rintro ⟨⟨hrow, hproj, hlive⟩, hpar⟩
    exact ⟨hrow, ⟨hproj, hlive⟩, hpar⟩

theorem mem_liveChildren (hk : db.Keyed) {parent : Option String} {c : Card K} :
    c ∈ liveChildren db projectId parent ↔ LiveRow db projectId c ∧ c.parentCardId = parent :=
  mem_scopeChildren hk

theorem scopeChildren_nodup (hk : db.Keyed) (scope : Option String → Option String)
    (projectId : String) (parent : Option String) :
    ((scopeChildren scope db projectId parent).map (·.cardId)).Nodup := by
  unfold scopeChildren
  rw [((perm_treeSort _).map _).nodup_iff]
  exact (List.filter_sublist.map _).nodup (nodup_rows hk)

theorem liveOrder_nodup (hk : db.Keyed) (projectId : String) (parent : Option String) :
    (liveOrder db projectId parent).Nodup := scopeChildren_nodup hk id projectId parent

theorem scopeChildren_sorted (scope : Option String → Option String) (db : Db K)
    (projectId : String) (parent : Option String) :
    TreeSorted (scopeChildren scope db projectId parent) := treeSorted_treeSort _

/-- A sorted list of the live cards of a scope is their order. -/
theorem scopeChildren_eq (hk : db.Keyed) {parent : Option String} {cards : List (Card K)}
    (hsorted : TreeSorted cards) (hnodup : (cards.map (·.cardId)).Nodup)
    (hmem : ∀ c, c ∈ cards ↔ LiveRow db projectId c ∧ scope c.parentCardId = parent) :
    scopeChildren scope db projectId parent = cards := by
  refine treeSort_eq_of_perm ?_ hsorted hnodup
  have hrows : ((db.cards.rows.filter fun c =>
      c.projectId == projectId && c.live && scope c.parentCardId == parent).map
        (·.cardId)).Nodup :=
    (List.filter_sublist.map _).nodup (nodup_rows hk)
  rw [List.perm_ext_iff_of_nodup (.of_map _ hrows) (.of_map _ hnodup)]
  intro c
  rw [hmem, ← mem_scopeChildren hk, scopeChildren, mem_treeSort]

theorem siblings_eq (hk : db.Keyed) (card : Card K) :
    siblings db card = liveChildren db card.projectId card.parentCardId := by
  refine (scopeChildren_eq hk ?_ (nodup_siblings hk card) fun c => ?_).symm
  · exact treeSorted_treeSort _
  · rw [mem_siblings hk]
    exact ⟨fun ⟨h1, h2, h3, h4⟩ => ⟨⟨h1, h2, h4⟩, h3⟩, fun ⟨⟨h1, h2, h4⟩, h3⟩ => ⟨h1, h2, h3, h4⟩⟩

theorem TreeSorted.filter {cards : List (Card K)} (h : TreeSorted cards) (p : Card K → Bool) :
    TreeSorted (cards.filter p) := h.sublist List.filter_sublist

/-- Where the rows of one scope lose some cards and keep the others, the order loses them. -/
theorem scopeChildren_filter {db' : Db K} (hk : db.Keyed) (hk' : db'.Keyed)
    {parent : Option String} {p : Card K → Bool}
    (hmem : ∀ c, LiveRow db' projectId c ∧ scope c.parentCardId = parent ↔
      (LiveRow db projectId c ∧ scope c.parentCardId = parent) ∧ p c = true) :
    scopeChildren scope db' projectId parent =
      (scopeChildren scope db projectId parent).filter p := by
  refine scopeChildren_eq hk' ((scopeChildren_sorted ..).filter p)
    ((List.filter_sublist.map _).nodup (scopeChildren_nodup hk scope projectId parent))
    fun c => ?_
  rw [List.mem_filter, mem_scopeChildren hk, hmem]

/-- The cards without those of some ids. -/
def without (cards : List (Card K)) (gone : List String) : List (Card K) :=
  cards.filter fun c => !gone.contains c.cardId

omit [LinearOrder K] in
@[simp] theorem mem_without {cards : List (Card K)} {gone : List String} {c : Card K} :
    c ∈ without cards gone ↔ c ∈ cards ∧ c.cardId ∉ gone := by simp [without]

theorem TreeSorted.without {cards : List (Card K)} (h : TreeSorted cards) (gone : List String) :
    TreeSorted (without cards gone) := h.filter _

omit [LinearOrder K] in
theorem nodup_without {cards : List (Card K)} (h : (cards.map (·.cardId)).Nodup)
    (gone : List String) : ((without cards gone).map (·.cardId)).Nodup :=
  (List.filter_sublist.map _).nodup h

end LiveOrder

/-! ## Placed rows -/

/-- The tables after some rows were put in the place of those of their ids. -/
structure RowsPlaced (rows : List (Card K)) (db db' : Db K) : Prop where
  placed : ∀ c ∈ rows, db'.cards[c.cardId]? = some c
  kept : ∀ id : String, (∀ c ∈ rows, c.cardId ≠ id) → db'.cards[id]? = db.cards[id]?

theorem RowsPlaced.keyed {rows : List (Card K)} {db db' : Db K} (h : RowsPlaced rows db db')
    (hk : db.Keyed) : db'.Keyed := by
  intro id c hc
  by_cases hmem : ∃ r ∈ rows, r.cardId = id
  · obtain ⟨r, hr, rfl⟩ := hmem
    rw [h.placed r hr] at hc
    cases hc
    rfl
  · rw [h.kept id fun r hr he => hmem ⟨r, hr, he⟩] at hc
    exact hk id c hc

/-- A live row afterwards is one that was placed or one that was there. -/
theorem RowsPlaced.liveRow_iff {rows : List (Card K)} {db db' : Db K} (h : RowsPlaced rows db db')
    {projectId : String} {c : Card K} : LiveRow db' projectId c ↔
      (c ∈ rows ∧ c.projectId = projectId ∧ c.deletedAt = none) ∨
        (∀ r ∈ rows, r.cardId ≠ c.cardId) ∧ LiveRow db projectId c := by
  constructor
  · rintro ⟨hrow, hproj, hlive⟩
    by_cases hmem : ∃ r ∈ rows, r.cardId = c.cardId
    · obtain ⟨r, hr, he⟩ := hmem
      rw [← he, h.placed r hr] at hrow
      cases hrow
      exact .inl ⟨hr, hproj, hlive⟩
    · have hfree : ∀ r ∈ rows, r.cardId ≠ c.cardId := fun r hr he => hmem ⟨r, hr, he⟩
      rw [h.kept _ hfree] at hrow
      exact .inr ⟨hfree, hrow, hproj, hlive⟩
  · rintro (⟨hc, hproj, hlive⟩ | ⟨hfree, hrow, hproj, hlive⟩)
    · exact ⟨h.placed c hc, hproj, hlive⟩
    · exact ⟨by rw [h.kept _ hfree]; exact hrow, hproj, hlive⟩

theorem Card.snapshot_eq {row card : Card K} (hid : card.cardId = row.cardId)
    (hproj : card.projectId = row.projectId) (hcreated : card.createdAt = row.createdAt) :
    row.snapshot card = card := by
  cases card
  cases hid
  cases hproj
  cases hcreated
  rfl

section Insertion
variable [SortKey K] {db db' : Db K} {projectId : String} {window : BlockWindow K}
  {destination block : List (Card K)} {index : Nat} {scope : Option String → Option String}

/-- A changed card is one of the block under the new parent or a sibling under its own. -/
theorem BlockWindow.Fits.changed_card (hfits : window.Fits destination index block)
    {parent : Option String} {updatedAt : Int} {c : Card K}
    (hc : c ∈ window.changed block parent updatedAt) : ∃ b p key, c = b.placed p key updatedAt ∧
      (b ∈ block ∧ p = parent ∨ b ∈ destination ∧ p = b.parentCardId) := by
  obtain ⟨cell, hcell, rfl⟩ := List.mem_map.mp hc
  obtain ⟨hcell, hflag⟩ := List.mem_filter.mp hcell
  obtain ⟨slot, hslot, key, rfl⟩ := (hfits.forall₂_cells parent updatedAt).exists_left hcell
  rcases Slot.respace_eq slot key updatedAt with he | he
  · rw [he] at hflag
    cases hflag
  · rw [he]
    simp only [slotsAround, List.mem_append, List.mem_map] at hslot
    rcases hslot with (⟨b, hb, rfl⟩ | ⟨b, hb, rfl⟩) | ⟨b, hb, rfl⟩
    · refine ⟨b, _, key, rfl, .inr ⟨List.mem_of_mem_take (i := index) ?_, rfl⟩⟩
      rw [hfits.take]
      exact List.mem_append_right _ hb
    · exact ⟨b, parent, key, rfl, .inl ⟨hb, rfl⟩⟩
    · refine ⟨b, _, key, rfl, .inr ⟨List.mem_of_mem_drop (i := index) ?_, rfl⟩⟩
      rw [hfits.drop]
      exact List.mem_append_left _ hb

/-- Once the rows of an insertion are stored, the live children of its parent are the list it
returned, and every other parent loses the cards that went away. -/
theorem RowsPlaced.insertion {rows gone : List (Card K)} {parent : Option String} {updatedAt : Int}
    (h : RowsPlaced rows db db') (hk : db.Keyed) (hfits : window.Fits destination index block)
    (hrows : ∀ c, c ∈ rows ↔ c ∈ gone ∨ c ∈ window.changed block parent updatedAt)
    (hgone : ∀ c ∈ gone, c.deletedAt ≠ none)
    (hdest : destination =
      without (scopeChildren scope db projectId (scope parent)) ((block ++ gone).map (·.cardId)))
    (hblock : ∀ b ∈ block, b.projectId = projectId ∧ b.deletedAt = none)
    (hnodup : (block.map (·.cardId)).Nodup) :
    scopeChildren scope db' projectId (scope parent) = window.placed block parent updatedAt ∧
      ∀ other, other ≠ scope parent → scopeChildren scope db' projectId other =
        without (scopeChildren scope db projectId other) ((block ++ gone).map (·.cardId)) := by
  have hmemDest : ∀ c, c ∈ destination ↔ (LiveRow db projectId c ∧
      scope c.parentCardId = scope parent) ∧
      c.cardId ∉ (block ++ gone).map (·.cardId) := by
    intro c
    rw [hdest, mem_without, mem_scopeChildren hk]
  have hids : ((destination ++ block).map (·.cardId)).Nodup := by
    rw [List.map_append]
    refine List.Nodup.append ?_ hnodup fun id hmem hb => ?_
    · rw [hdest]
      exact (List.filter_sublist.map _).nodup (scopeChildren_nodup hk scope projectId _)
    · obtain ⟨d, hd, rfl⟩ := List.mem_map.mp hmem
      refine ((hmemDest d).mp hd).2 ?_
      rw [List.map_append]
      exact List.mem_append_left _ hb
  have hfree : ∀ c : Card K, (∀ r ∈ rows, r.cardId ≠ c.cardId) →
      c.cardId ∉ (block ++ gone).map (·.cardId) := by
    intro c hfree hmem
    rw [List.map_append, List.mem_append] at hmem
    rcases hmem with hmem | hmem
    · obtain ⟨b, hb, he⟩ := List.mem_map.mp hmem
      obtain ⟨d, hd, hd'⟩ := hfits.block_changed parent updatedAt hb
      exact hfree d ((hrows d).mpr (.inr hd)) (hd'.trans he)
    · obtain ⟨g, hg, he⟩ := List.mem_map.mp hmem
      exact hfree g ((hrows g).mpr (.inl hg)) he
  constructor
  · refine scopeChildren_eq (h.keyed hk) (hfits.placed_sorted parent updatedAt ?_)
      (hfits.placed_nodup parent updatedAt hids) fun c => ?_
    · rw [hdest]
      exact (scopeChildren_sorted ..).filter _
    rw [hfits.mem_placed parent updatedAt hids, h.liveRow_iff, hrows]
    constructor
    · rintro (hc | ⟨hc, hother⟩)
      · obtain ⟨b, p, key, rfl, ⟨hb, rfl⟩ | ⟨hb, rfl⟩⟩ := hfits.changed_card hc
        · exact ⟨.inl ⟨.inr hc, hblock b hb⟩, rfl⟩
        · obtain ⟨⟨hrow, hpar⟩, -⟩ := (hmemDest b).mp hb
          exact ⟨.inl ⟨.inr hc, hrow.project, hrow.live⟩, hpar⟩
      · obtain ⟨⟨hrow, hpar⟩, hnot⟩ := (hmemDest c).mp hc
        refine ⟨.inr ⟨fun r hr => ?_, hrow⟩, hpar⟩
        rcases (hrows r).mp hr with hr | hr
        · intro he
          exact hnot (List.mem_map.mpr ⟨r, List.mem_append_right _ hr, he⟩)
        · exact hother r hr
    · rintro ⟨⟨hc | hc, -, hlive⟩ | ⟨hother, hrow⟩, hpar⟩
      · exact absurd hlive (hgone c hc)
      · exact .inl hc
      · exact .inr ⟨(hmemDest c).mpr ⟨⟨hrow, hpar⟩, hfree c hother⟩,
          fun d hd => hother d ((hrows d).mpr (.inr hd))⟩
  · intro other hne
    refine scopeChildren_filter hk (h.keyed hk) fun c => ?_
    rw [h.liveRow_iff, hrows]
    constructor
    · rintro ⟨⟨hc | hc, -, hlive⟩ | ⟨hother, hrow⟩, hpar⟩
      · exact absurd hlive (hgone c hc)
      · obtain ⟨b, p, key, rfl, ⟨hb, rfl⟩ | ⟨hb, rfl⟩⟩ := hfits.changed_card hc
        · exact absurd hpar.symm hne
        · exact absurd (hpar.symm.trans ((hmemDest b).mp hb).1.2) hne
      · exact ⟨⟨hrow, hpar⟩, by simpa using hfree c hother⟩
    · rintro ⟨⟨hrow, hpar⟩, hnot⟩
      refine ⟨.inr ⟨fun r hr he => ?_, hrow⟩, hpar⟩
      have hnot : c.cardId ∉ (block ++ gone).map (·.cardId) := by simpa using hnot
      rcases (hrows r).mp hr with hr | hr
      · exact hnot (List.mem_map.mpr ⟨r, List.mem_append_right _ hr, he⟩)
      · obtain ⟨b, p, key, rfl, ⟨hb, rfl⟩ | ⟨hb, rfl⟩⟩ := hfits.changed_card hr
        · exact hnot (List.mem_map.mpr ⟨b, List.mem_append_left _ hb, he⟩)
        · obtain ⟨⟨hrowb, hparb⟩, -⟩ := (hmemDest b).mp hb
          have hsame : b = c := by
            have hb := hrowb.row
            rw [show b.cardId = c.cardId from he, hrow.row] at hb
            exact (Option.some.inj hb).symm
          exact hne (by rw [← hpar, ← hsame, hparb])

end Insertion

namespace CardStore
variable [SortKey K] {env : Env K} {w w' : World K}

/-- The row of a card is its placement once that is among the changes. -/
theorem PlacementOf.row {placed : Card K} {change : CardChange K} {records : List (ParsedCardFile K)}
    (hp : PlacementOf env w placed change)
    (hplaced : ∃ (b : Card K) (parent : Option String) (key : K) (now : Int),
      placed = b.placed parent key now ∧ w.db.cards[b.cardId]? = some b)
    (h : CardsChanged records w.db w'.db) (hmem : change.prepared.target ∈ records) :
    w'.db.cards[placed.cardId]? = some placed := by
  have hchanged := h.changed _ hmem
  simp only [CardChange.prepared, hp.current, ← hp.relPath, hp.card] at hchanged
  obtain ⟨b, parent, key, now, rfl, hb⟩ := hplaced
  refine hchanged.trans ?_
  change w.db.cards[b.cardId]?.map (·.snapshot (b.placed parent key now)) = _
  rw [hb, Option.map_some]
  exact congrArg some (Card.snapshot_eq rfl rfl rfl)

/-- The rows after one card's change with its placements. Its file goes to its path in the store. -/
theorem rowsPlaced_of_changed {current : Card K} {target : ParsedCardFile K}
    {placements : List (Card K)} {changes : List (CardChange K)}
    (hid : target.card.cardId = current.cardId)
    (hproj : target.card.projectId = current.projectId)
    (hcreated : target.card.createdAt = current.createdAt)
    (hrow : w.db.cards[current.cardId]? = some current)
    (hplaced : ∀ c ∈ placements, ∃ (b : Card K) (parent : Option String) (key : K) (now : Int),
      c = b.placed parent key now ∧ w.db.cards[b.cardId]? = some b)
    (hchanges : List.Forall₂ (PlacementOf env w) placements changes)
    (h : CardsChanged ((⟨current, target⟩ :: changes).map (·.prepared.target)) w.db w'.db) :
    RowsPlaced ({ target.card with relPath := livePath current.cardId } :: placements) w.db w'.db := by
  refine ⟨fun c hc => ?_, fun id hfree => h.kept id fun record hr => ?_⟩
  · rcases List.mem_cons.mp hc with rfl | hc
    · have hchanged := h.changed _ (List.mem_map.mpr ⟨_, List.mem_cons_self, rfl⟩)
      have hcurrent : w.db.cards[target.card.cardId]? = some current := by rw [hid]; exact hrow
      refine hchanged.trans ?_
      change w.db.cards[target.card.cardId]?.map
        (·.snapshot { target.card with relPath := livePath current.cardId }) = _
      rw [hcurrent, Option.map_some]
      exact congrArg some (Card.snapshot_eq hid hproj hcreated)
    · obtain ⟨change, hmem, hp⟩ := hchanges.exists_right hc
      exact hp.row (hplaced c hc) h (List.mem_map.mpr ⟨change, List.mem_cons_of_mem _ hmem, rfl⟩)
  · obtain ⟨change, hmem, rfl⟩ := List.mem_map.mp hr
    rcases List.mem_cons.mp hmem with rfl | hmem
    · exact hfree { target.card with relPath := livePath current.cardId } List.mem_cons_self
    · obtain ⟨placed, hpl, hp⟩ := hchanges.exists_left hmem
      simpa [CardChange.prepared, hp.card] using hfree placed (List.mem_cons_of_mem _ hpl)

theorem applyWithPlacements_stored {current : Card K} {target : ParsedCardFile K}
    {placements : List (Card K)} {message : String} (hw : Tidy env w)
    (hid : target.card.cardId = current.cardId)
    (hproj : target.card.projectId = current.projectId)
    (hcreated : target.card.createdAt = current.createdAt)
    (hrow : w.db.cards[current.cardId]? = some current)
    (hnodup : (current.cardId :: placements.map (·.cardId)).Nodup)
    (hplaced : ∀ c ∈ placements, ∃ (b : Card K) (parent : Option String) (key : K) (now : Int),
      c = b.placed parent key now ∧ w.db.cards[b.cardId]? = some b) :
    Ends (applyWithPlacements env current target placements message) w
      (fun _ w' => Tidy env w' ∧ RowsPlaced
        ({ target.card with relPath := livePath current.cardId } :: placements) w.db w'.db)
      fun _ w' => Restored w w' := by
  refine (applyWithPlacements_ends hw.valid hid).mono ?_ fun _ _ h => h
  rintro - w' ⟨changes, m, hchanges, hplan, happlied, hj⟩
  refine ⟨happlied.tidy hplan hj hw, ?_⟩
  refine rowsPlaced_of_changed hid hproj hcreated hrow hplaced hchanges ?_
  rw [happlied.db]
  refine hplan.cardsChanged hw.keyed (fun change hc => ?_) ?_
  · rcases List.mem_cons.mp hc with rfl | hc
    · exact hid
    · obtain ⟨placed, -, hp⟩ := hchanges.exists_left hc
      rw [hp.card, hp.current]
  · rw [List.map_cons, PlacementOf.ids hchanges]
    exact hnodup

theorem applyWithPlacements_rows {current : Card K} {target : ParsedCardFile K}
    {placements : List (Card K)} {message : String} (hw : Tidy env w)
    (hid : target.card.cardId = current.cardId)
    (hproj : target.card.projectId = current.projectId)
    (hcreated : target.card.createdAt = current.createdAt)
    (hpath : target.card.relPath = livePath current.cardId)
    (hrow : w.db.cards[current.cardId]? = some current)
    (hnodup : (current.cardId :: placements.map (·.cardId)).Nodup)
    (hplaced : ∀ c ∈ placements, ∃ (b : Card K) (parent : Option String) (key : K) (now : Int),
      c = b.placed parent key now ∧ w.db.cards[b.cardId]? = some b) :
    Ends (applyWithPlacements env current target placements message) w
      (fun _ w' => Tidy env w' ∧ RowsPlaced (target.card :: placements) w.db w'.db)
      fun _ w' => Restored w w' := by
  refine (applyWithPlacements_stored hw hid hproj hcreated hrow hnodup hplaced).mono ?_
    fun _ _ h => h
  rintro - w' ⟨hw', hrows⟩
  rw [← hpath] at hrows
  exact ⟨hw', hrows⟩

end CardStore

end HolderCore
