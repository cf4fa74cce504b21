import HolderCore.Card.Trashing

/-! # Restored cards

`CardStore::restore`: the walk up the pointers answers with the lowest ancestor that is live with
every card above it. The card takes its saved key where that is free there; otherwise its siblings
make room. -/

/-- Every node on the way up from a rooted one is rooted. -/
theorem Rooted.above {α : Type} {up : α → Option (Option α)} {x y : α} (h : Rooted up x)
    (hy : Relation.ReflTransGen (ParentStep up) x y) : Rooted up y := by
  induction hy with
  | refl => exact h
  | tail _ hstep ih => exact ih.parent hstep

namespace HolderCore

/-! ## The nearest rooted ancestor -/

section Nearest
variable {find : String → Option (Card K)}

/-- The parent pointers of the cards a walk can find, and those of the live ones. -/
def foundUp (find : String → Option (Card K)) (id : String) : Option (Option String) :=
  (find id).map (·.parentCardId)

def foundLiveUp (find : String → Option (Card K)) (id : String) : Option (Option String) :=
  ((find id).filter (·.live)).map (·.parentCardId)

/-- `answer` is the lowest card at or above `q` that has a live way to the roots. -/
structure Nearest (up liveUp : String → Option (Option String)) (q : String)
    (answer : Option String) : Prop where
  above : ∀ a, answer = some a → Relation.ReflTransGen (ParentStep up) q a ∧ Rooted liveUp a
  lowest : ∀ b, Relation.ReflTransGen (ParentStep up) q b → Rooted liveUp b →
    ∃ a, answer = some a ∧ Relation.ReflTransGen (ParentStep up) a b

/-- What the walk answers when it does not throw: over a live way the candidate it came with or the
card it starts from, and otherwise the nearest rooted card. -/
theorem walkAncestors_nearest (keyed : ∀ q a, find q = some a → a.cardId = q)
    {answer : Option String} (h : walkAncestors find fuel visited next candidate = .ok answer) :
    (next = none → answer = candidate) ∧
      ∀ q, next = some q →
        (Rooted (foundLiveUp find) q → answer = candidate.or (some q)) ∧
        (¬Rooted (foundLiveUp find) q →
          Nearest (foundUp find) (foundLiveUp find) q answer) := by
  induction fuel generalizing visited next candidate with
  | zero =>
    cases next with
    | none => exact ⟨fun _ => by simpa [walkAncestors] using h.symm, by simp⟩
    | some q => cases h
  | succ fuel ih =>
    cases next with
    | none => exact ⟨fun _ => by simpa [walkAncestors] using h.symm, by simp⟩
    | some q =>
      refine ⟨by simp, fun q' hq' => ?_⟩
      cases hq'
      rw [walkAncestors] at h
      split at h
      · cases h
      split at h
      · next hnone =>
        -- Nothing is above a missing card, and it is not rooted.
        cases h
        refine ⟨fun hroot => ?_, fun hnot => ⟨by simp, fun b hb hroot => ?_⟩⟩
        · obtain ⟨p, hp⟩ := hroot.node
          simp [foundLiveUp, hnone] at hp
        · rcases Relation.ReflTransGen.cases_head hb with rfl | ⟨c, hc, -⟩
          · exact absurd hroot hnot
          · simp [ParentStep, foundUp, hnone] at hc
      · next a ha =>
        obtain ⟨hend, hrest⟩ := ih h
        have hup : foundUp find q = some a.parentCardId := by simp [foundUp, ha]
        -- A card that is not rooted is not the answer; the one above it has the same.
        have hclimb : ¬Rooted (foundLiveUp find) q →
            (∀ p, a.parentCardId = some p → Rooted (foundLiveUp find) p → answer = some p) →
            (a.parentCardId = none → answer = none) →
            Nearest (foundUp find) (foundLiveUp find) q answer := by
          intro hnot hrooted hlast
          cases hp : a.parentCardId with
          | none =>
            rw [hlast hp]
            refine ⟨by simp, fun b hb hroot => ?_⟩
            rcases Relation.ReflTransGen.cases_head hb with rfl | ⟨c, hc, -⟩
            · exact absurd hroot hnot
            · rw [ParentStep, hup, hp] at hc
              cases hc
          | some p =>
            have hstep : ParentStep (foundUp find) q p := by rw [ParentStep, hup, hp]
            have hnearest : Nearest (foundUp find) (foundLiveUp find) p answer := by
              by_cases hproot : Rooted (foundLiveUp find) p
              · rw [hrooted p hp hproot]
                exact ⟨fun b hb => by cases hb; exact ⟨.refl, hproot⟩,
                  fun b hb _ => ⟨p, rfl, hb⟩⟩
              · exact (hrest p hp).2 hproot
            refine ⟨fun b hb => ⟨.head hstep (hnearest.above b hb).1, (hnearest.above b hb).2⟩,
              fun b hb hroot => ?_⟩
            rcases Relation.ReflTransGen.cases_head hb with rfl | ⟨c, hc, hcb⟩
            · exact absurd hroot hnot
            · rw [ParentStep, hup, hp] at hc
              cases hc
              exact hnearest.lowest b hcb hroot
        by_cases hlive : a.deletedAt = none
        · have hliveUp : foundLiveUp find q = some a.parentCardId := by
            simp [foundLiveUp, ha, Option.filter, Card.live, hlive]
          have hcand : (if a.deletedAt.isSome then none else candidate.or (some a.cardId)) =
              candidate.or (some q) := by simp [hlive, keyed q a ha]
          rw [hcand] at hend hrest
          have hparent : ∀ p, a.parentCardId = some p → Rooted (foundLiveUp find) p →
              Rooted (foundLiveUp find) q := fun p hp hr => .step (hp ▸ hliveUp) hr
          refine ⟨fun hroot => ?_, fun hnot => hclimb hnot ?_ ?_⟩
          · cases hp : a.parentCardId with
            | none => exact hend hp
            | some p =>
              rw [hp] at hliveUp
              rw [(hrest p hp).1 (hroot.parent hliveUp)]
              cases candidate <;> rfl
          · exact fun p hp hr => absurd (hparent p hp hr) hnot
          · exact fun hp => absurd (.root (hp ▸ hliveUp)) hnot
        · have hcand : (if a.deletedAt.isSome then none else candidate.or (some a.cardId)) =
              none := by simp [Option.isSome_iff_ne_none.mpr hlive]
          rw [hcand] at hend hrest
          have hnot : ¬Rooted (foundLiveUp find) q := by
            intro hroot
            obtain ⟨p, hp⟩ := hroot.node
            simp [foundLiveUp, ha, Option.filter, Card.live, hlive] at hp
          exact ⟨fun hroot => absurd hroot hnot, fun _ => hclimb hnot
            (fun p hp hr => (hrest p hp).1 hr) hend⟩

/-- The walk only throws on a cycle. -/
theorem walkAncestors_of_acyclic (keys : List String)
    (hkeys : ∀ q p, foundUp find q = some p → q ∈ keys)
    (hvisited : ∀ v ∈ visited, v ∈ keys) (hnodup : visited.Nodup)
    (hbelow : ∀ q, next = some q → ∀ v ∈ visited, Relation.TransGen (ParentStep (foundUp find)) v q)
    (hacyclic : ∀ q, next = some q → ∀ x, Relation.ReflTransGen (ParentStep (foundUp find)) q x →
      ¬Relation.TransGen (ParentStep (foundUp find)) x x)
    (hfuel : keys.length < fuel + visited.length) :
    ∃ answer, walkAncestors find fuel visited next candidate = .ok answer := by
  have hle : visited.length ≤ keys.length := (hnodup.subperm hvisited).length_le
  induction fuel generalizing visited next candidate with
  | zero => omega
  | succ fuel ih =>
    cases next with
    | none => exact ⟨candidate, rfl⟩
    | some q =>
      have hfresh : q ∉ visited := fun hmem => hacyclic q rfl q .refl (hbelow q rfl q hmem)
      rw [walkAncestors, if_neg (by simpa using hfresh)]
      split
      · exact ⟨none, rfl⟩
      · next a ha =>
        have hup : foundUp find q = some a.parentCardId := by simp [foundUp, ha]
        have hvisited' : ∀ v ∈ q :: visited, v ∈ keys := by
          intro v hv
          rcases List.mem_cons.mp hv with rfl | hv
          · exact hkeys _ _ hup
          · exact hvisited v hv
        have hnodup' : (q :: visited).Nodup := List.nodup_cons.mpr ⟨hfresh, hnodup⟩
        refine ih hvisited' hnodup' (fun p hp v hv => ?_) (fun p hp x hx => ?_)
          (by simp; omega) (hnodup'.subperm hvisited').length_le
        · have hstep : ParentStep (foundUp find) q p := by rw [ParentStep, hup, hp]
          rcases List.mem_cons.mp hv with rfl | hv
          · exact .single hstep
          · exact (hbelow q rfl v hv).tail hstep
        · have hstep : ParentStep (foundUp find) q p := by rw [ParentStep, hup, hp]
          exact hacyclic q rfl x (.head hstep hx)

/-- Where it answers, the chain it walked closes no cycle. -/
theorem walkAncestors_acyclic {answer : Option String}
    (h : walkAncestors find fuel visited next candidate = .ok answer) :
    ∀ q, next = some q → ∀ x, Relation.ReflTransGen (ParentStep (foundUp find)) q x →
      x ∉ visited ∧ ¬Relation.TransGen (ParentStep (foundUp find)) x x := by
  induction fuel generalizing visited next candidate with
  | zero =>
    rintro q rfl
    cases h
  | succ fuel ih =>
    rintro q rfl x hx
    rw [walkAncestors] at h
    split at h
    · cases h
    next hfresh =>
    have hfresh : q ∉ visited := by simpa using hfresh
    split at h
    · next hnone =>
      have hend : ∀ y, ¬ParentStep (foundUp find) q y := by simp [ParentStep, foundUp, hnone]
      rcases Relation.ReflTransGen.cases_head hx with rfl | ⟨y, hy, -⟩
      · refine ⟨hfresh, fun hcycle => ?_⟩
        obtain ⟨y, hy, -⟩ := Relation.TransGen.head'_iff.mp hcycle
        exact hend y hy
      · exact absurd hy (hend y)
    · next a ha =>
      have hup : foundUp find q = some a.parentCardId := by simp [foundUp, ha]
      have hrest := ih h
      have habove : ∀ y, ParentStep (foundUp find) q y → ∀ z,
          Relation.ReflTransGen (ParentStep (foundUp find)) y z →
            z ∉ q :: visited ∧ ¬Relation.TransGen (ParentStep (foundUp find)) z z := by
        intro y hy z hz
        rw [ParentStep, hup] at hy
        exact hrest y (Option.some.inj hy) z hz
      rcases Relation.ReflTransGen.cases_head hx with rfl | ⟨y, hy, hyx⟩
      · refine ⟨hfresh, fun hcycle => ?_⟩
        obtain ⟨y, hy, hyx⟩ := Relation.TransGen.head'_iff.mp hcycle
        exact (habove y hy _ hyx).1 List.mem_cons_self
      · obtain ⟨hnot, hacyclic⟩ := habove y hy x hyx
        exact ⟨fun hmem => hnot (List.mem_cons_of_mem _ hmem), hacyclic⟩

end Nearest

/-! ## Keys of a window -/

section Window
variable [SortKey K] {window : BlockWindow K} {destination block : List (Card K)} {index : Nat}

/-- The keys a window gives are finite, and no other card of the list has one of them. -/
theorem BlockWindow.Fits.fresh_keys (hfits : window.Fits destination index block)
    (parent : Option String) (updatedAt : Int) (hsorted : TreeSorted destination) {d : Card K}
    (hd : d ∈ window.changed block parent updatedAt) : SortKey.isFinite d.sortKey = true ∧
      ∀ c ∈ window.placed block parent updatedAt, c.cardId ≠ d.cardId → c.sortKey ≠ d.sortKey := by
  have hkeys := hfits.cells_keys parent updatedAt
  obtain ⟨hrising, hleft, hright, hfinite⟩ := spacedKeys_between hfits.keys
  have hdest : TreeSorted (window.left ++ window.before ++ (window.after ++ window.right)) := by
    rw [← hfits.take, ← hfits.drop, List.take_append_drop]
    exact hsorted
  obtain ⟨hbefore, hafter, -⟩ := List.pairwise_append.mp hdest
  obtain ⟨cell, hcell, rfl⟩ := List.mem_map.mp hd
  have hcell := List.mem_of_mem_filter hcell
  have hkey : cell.1.sortKey ∈ window.keys := by
    rw [← hkeys]
    exact List.mem_map.mpr ⟨cell, hcell, rfl⟩
  refine ⟨hfinite _ hkey, fun c hc hne he => ?_⟩
  simp only [BlockWindow.placed, List.mem_append, List.mem_map] at hc
  rcases hc with (hc | ⟨other, hother, rfl⟩) | hc
  · obtain ⟨last, hlast, hle⟩ := TreeSorted.le_getLast (List.pairwise_append.mp hbefore).1 hc
    have hlt := hleft last.sortKey (by simp [hlast]) _ hkey
    exact absurd he ((sortKey_le_of_treeKey hle).trans_lt hlt).ne
  · rw [← hkeys] at hrising
    have hsame := List.inj_on_of_nodup_map (hrising.imp ne_of_lt) hother hcell he
    exact hne (by rw [hsame])
  · obtain ⟨first, hfirst, hle⟩ := TreeSorted.head_le (List.pairwise_append.mp hafter).2.1 hc
    have hlt := hright first.sortKey (by simp [hfirst]) _ hkey
    exact absurd he (hlt.trans_le (sortKey_le_of_treeKey hle)).ne'

/-- A change of the block's other columns passes through the window. -/
theorem BlockWindow.changed_map (window : BlockWindow K) (block : List (Card K))
    (parent : Option String) (updatedAt : Int) {f : Card K → Card K}
    (hkey : ∀ c, (f c).sortKey = c.sortKey)
    (hplaced : ∀ (c : Card K) key, f { c with sortKey := key, updatedAt } =
      { f c with sortKey := key, updatedAt })
    (hparent : ∀ c : Card K, f { c with parentCardId := parent } =
      { f c with parentCardId := parent })
    (hbefore : ∀ c ∈ window.before, f c = c) (hafter : ∀ c ∈ window.after, f c = c) :
    (window.changed block parent updatedAt).map f =
      window.changed (block.map f) parent updatedAt := by
  have hslots : slotsAround window.before (block.map f) window.after parent =
      (slotsAround window.before block window.after parent).map
        fun slot => ⟨f slot.card, slot.placed⟩ := by
    have hbeside : ∀ cards : List (Card K), (∀ c ∈ cards, f c = c) →
        cards.map (fun c => (⟨f c, false⟩ : Slot K)) = cards.map (⟨·, false⟩) := fun cards h =>
      List.map_congr_left fun c hc => by rw [h c hc]
    unfold slotsAround
    simp only [List.map_append, List.map_map, Function.comp_def, hparent, hbeside _ hbefore,
      hbeside _ hafter]
  have hrespace : ∀ (slot : Slot K) key, Slot.respace updatedAt ⟨f slot.card, slot.placed⟩ key =
      (f (slot.respace updatedAt key).1, (slot.respace updatedAt key).2) := by
    intro slot key
    unfold Slot.respace
    simp only [hkey]
    split
    · rw [hplaced]
    · rfl
  have hcells : window.cells (block.map f) parent updatedAt =
      (window.cells block parent updatedAt).map fun cell => (f cell.1, cell.2) := by
    unfold BlockWindow.cells
    rw [hslots, List.zipWith_map_left, List.map_zipWith]
    simp only [hrespace]
  unfold BlockWindow.changed
  rw [hcells, List.filter_map, List.map_map, List.map_map]
  rfl

end Window

/-! ## Where a restored card goes -/

section Placement
variable [SortKey K] {db db' : Db K} {restored : Card K} {updatedAt : Int}

/-- A saved key is taken again where it is finite and none of the live siblings has it. -/
def KeyFree (siblings : List (Card K)) (key : K) : Prop :=
  SortKey.isFinite key = true ∧ ∀ c ∈ siblings, c.sortKey ≠ key

/-- The two ways a restored card is placed under its reachable parent. -/
inductive RestoredTo (db : Db K) (restored : Card K) (parent : Option String) (updatedAt : Int) :
    Card K → List (Card K) → Prop
  | kept : KeyFree (liveChildren db restored.projectId parent) restored.sortKey →
    RestoredTo db restored parent updatedAt { restored with parentCardId := parent } []
  | spaced : ¬KeyFree (liveChildren db restored.projectId parent) restored.sortKey →
    BlockWindow.Fits window (front ++ back) front.length
      [{ restored with parentCardId := parent }] →
    liveChildren db restored.projectId parent = front ++ back →
    (∀ c, c ∈ restored.placed parent key updatedAt :: changes ↔
      c ∈ window.changed [{ restored with parentCardId := parent }] parent updatedAt) →
    (∀ c ∈ changes, c.cardId ≠ restored.cardId) →
    RestoredTo db restored parent updatedAt { restored with parentCardId := parent, sortKey := key }
      changes

theorem restoredCardPlacement_to (hk : db.Keyed)
    (hfree : ∀ c, LiveRow db restored.projectId c → c.cardId ≠ restored.cardId)
    {placed : Card K} {changes : List (Card K)}
    (h : restoredCardPlacement db restored updatedAt = .ok (placed, changes)) :
    ∃ parent, reachableCardParent db restored = .ok parent ∧
      RestoredTo db restored parent updatedAt placed changes := by
  unfold restoredCardPlacement at h
  cases hr : reachableCardParent db restored with
  | error e =>
    rw [hr] at h
    cases h
  | ok parent =>
    rw [hr] at h
    refine ⟨parent, rfl, ?_⟩
    have hsiblings : (siblings db { restored with parentCardId := parent }).filter
        (·.cardId != restored.cardId) = liveChildren db restored.projectId parent := by
      rw [siblings_eq hk, filter_ne_eq_without]
      refine without_eq_self fun c hc => ?_
      simpa using hfree c ((mem_liveChildren hk).mp hc).1
    simp only [bind, Except.bind, hsiblings] at h
    have hcollision : (!SortKey.isFinite restored.sortKey ||
        (liveChildren db restored.projectId parent).any (·.sortKey == restored.sortKey)) = true ↔
        ¬KeyFree (liveChildren db restored.projectId parent) restored.sortKey := by
      simp [KeyFree, or_iff_not_imp_left]
    split at h
    · next hno =>
      cases h
      rw [Bool.not_eq_true', ← Bool.not_eq_true, hcollision, not_not] at hno
      exact .kept hno
    · next hyes =>
      rw [Bool.not_eq_true', Bool.not_eq_false, hcollision] at hyes
      obtain ⟨front, back, hsplit, -, -, hindex⟩ := TreeSorted.split
        (scopeChildren_sorted id db restored.projectId parent)
        ({ restored with parentCardId := parent } : Card K)
      change liveChildren db restored.projectId parent = _ at hsplit
      change treeLowerBound (liveChildren db restored.projectId parent) _ = _ at hindex
      rw [hindex, hsplit] at h
      unfold insertBlock at h
      cases hins : insertBlockInto (front ++ back) front.length
          [{ restored with parentCardId := parent }] parent updatedAt with
      | error e =>
        rw [hins] at h
        cases h
      | ok result =>
        obtain ⟨list, changed⟩ := result
        rw [hins] at h
        obtain ⟨window, hfits, -, rfl⟩ := insertBlockInto_window (by simp) (by simp) hins
        have hnodup : ((front ++ back ++ [({ restored with parentCardId := parent } : Card K)]).map
            (·.cardId)).Nodup := by
          rw [List.map_append, ← hsplit]
          refine (liveOrder_nodup hk _ _).append (by simp) fun id hid hmem => ?_
          obtain ⟨c, hc, rfl⟩ := List.mem_map.mp hid
          exact hfree c ((mem_liveChildren hk).mp hc).1 (by simpa using hmem)
        obtain ⟨key, hown, hchanged⟩ := hfits.own_change parent updatedAt hnodup
        simp only [Except.map] at h
        rw [hown] at h
        cases h
        exact .spaced hyes hfits hsplit hchanged fun c hc => by
          simpa using (List.mem_filter.mp hc).2

/-- The path of the card's file has no part in it. -/
theorem RestoredTo.relPath {parent : Option String} {placed : Card K} {changes : List (Card K)}
    (h : RestoredTo db restored parent updatedAt placed changes)
    (hfree : ∀ c ∈ liveChildren db restored.projectId parent, c.cardId ≠ restored.cardId)
    (path : String) :
    RestoredTo db { restored with relPath := path } parent updatedAt
      { placed with relPath := path } changes := by
  cases h with
  | kept hkey => exact .kept hkey
  | @spaced window front back key _ hkey hfits hsplit hchanged hids =>
    set f : Card K → Card K := fun c =>
      if c.cardId = restored.cardId then { c with relPath := path } else c with hf
    have hother : ∀ c : Card K, c.cardId ≠ restored.cardId → f c = c := fun c hc => if_neg hc
    have hown : ∀ c : Card K, c.cardId = restored.cardId → f c = { c with relPath := path } :=
      fun c hc => if_pos hc
    have hwindow : ∀ c, c ∈ window.before ∨ c ∈ window.after → f c = c := by
      intro c hc
      refine hother c (hfree c ?_)
      rw [hsplit, ← List.take_append_drop front.length (front ++ back), hfits.take, hfits.drop]
      rcases hc with hc | hc
      · exact List.mem_append_left _ (List.mem_append_right _ hc)
      · exact List.mem_append_right _ (List.mem_append_left _ hc)
    have hmap := window.changed_map [{ restored with parentCardId := parent }] parent updatedAt
      (f := f) (fun c => by simp only [hf]; split <;> rfl)
      (fun c key => by simp only [hf]; split <;> rfl) (fun c => by simp only [hf]; split <;> rfl)
      (fun c hc => hwindow c (.inl hc)) fun c hc => hwindow c (.inr hc)
    rw [List.map_singleton, hown { restored with parentCardId := parent } rfl] at hmap
    have hfits' : window.Fits (front ++ back) front.length
        [{ restored with parentCardId := parent, relPath := path }] :=
      ⟨hfits.take, hfits.drop, hfits.keys⟩
    refine .spaced hkey hfits' hsplit (fun c => ?_) hids
    rw [← hmap, List.mem_map]
    constructor
    · intro hc
      rcases List.mem_cons.mp hc with rfl | hc
      · exact ⟨_, (hchanged _).mp List.mem_cons_self, hown _ rfl⟩
      · exact ⟨c, (hchanged c).mp (List.mem_cons_of_mem _ hc), hother c (hids c hc)⟩
    · rintro ⟨d, hd, rfl⟩
      rcases List.mem_cons.mp ((hchanged d).mpr hd) with rfl | hd
      · rw [hown (restored.placed parent key updatedAt) rfl]
        exact List.mem_cons_self
      · rw [hother d (hids d hd)]
        exact List.mem_cons_of_mem _ hd

/-- A live card that is new under its parent goes into the list there at the place of its key. -/
theorem RowsPlaced.one_live {placed : Card K} (h : RowsPlaced [placed] db db')
    (hk : db.Keyed) (hlive : placed.deletedAt = none)
    (hfree : ∀ c ∈ liveChildren db placed.projectId placed.parentCardId, c.cardId ≠ placed.cardId) :
    ∃ front back, liveChildren db placed.projectId placed.parentCardId = front ++ back ∧
      liveChildren db' placed.projectId placed.parentCardId = front ++ placed :: back := by
  obtain ⟨front, back, hsplit, hfront, hback, -⟩ := TreeSorted.split
    (scopeChildren_sorted id db placed.projectId placed.parentCardId) placed
  change liveChildren db placed.projectId placed.parentCardId = _ at hsplit
  have hsorted : TreeSorted (front ++ back) := hsplit ▸ scopeChildren_sorted ..
  obtain ⟨hfs, hbs, hcross⟩ := List.pairwise_append.mp hsorted
  refine ⟨front, back, hsplit, scopeChildren_eq (h.keyed hk) ?_ ?_ fun c => ?_⟩
  · refine List.pairwise_append.mpr ⟨hfs, List.pairwise_cons.mpr ⟨hback, hbs⟩, ?_⟩
    intro a ha b hb
    rcases List.mem_cons.mp hb with rfl | hb
    · exact (hfront a ha).le
    · exact hcross a ha b hb
  · rw [List.map_append, List.map_cons, List.nodup_middle, ← List.map_append, ← hsplit]
    refine List.nodup_cons.mpr ⟨fun hmem => ?_, liveOrder_nodup hk _ _⟩
    obtain ⟨c, hc, he⟩ := List.mem_map.mp hmem
    exact hfree c hc he
  · have hmem : c ∈ front ++ placed :: back ↔
        c = placed ∨ c ∈ liveChildren db placed.projectId placed.parentCardId := by
      rw [hsplit]
      simp only [List.mem_append, List.mem_cons]
      tauto
    rw [hmem, h.liveRow_iff, mem_liveChildren hk]
    simp only [List.mem_singleton, forall_eq, id]
    constructor
    · rintro (rfl | ⟨hrow, hpar⟩)
      · exact ⟨.inl ⟨rfl, rfl, hlive⟩, rfl⟩
      · exact ⟨.inr ⟨fun he => hfree c ((mem_liveChildren hk).mpr ⟨hrow, hpar⟩) he.symm, hrow⟩,
          hpar⟩
    · rintro ⟨⟨hc, -⟩ | ⟨-, hrow⟩, hpar⟩
      · exact .inl hc
      · exact .inr ⟨hrow, hpar⟩

/-- A card that is spaced into the list there stands in it under a finite key of its own. -/
theorem RowsPlaced.spaced_live {placed : Card K} {changes front back : List (Card K)}
    {window : BlockWindow K} {parent : Option String} (h : RowsPlaced (placed :: changes) db db')
    (hk : db.Keyed) (hlive : restored.deletedAt = none)
    (hfits : window.Fits (front ++ back) front.length [{ restored with parentCardId := parent }])
    (hsplit : liveChildren db restored.projectId parent = front ++ back)
    (hchanged : ∀ c, c ∈ placed :: changes ↔
      c ∈ window.changed [{ restored with parentCardId := parent }] parent updatedAt)
    (hfree : ∀ c ∈ liveChildren db restored.projectId parent, c.cardId ≠ restored.cardId) :
    liveChildren db' restored.projectId parent =
        window.placed [{ restored with parentCardId := parent }] parent updatedAt ∧
      SortKey.isFinite placed.sortKey = true ∧
      ∀ c ∈ liveChildren db' restored.projectId parent,
        c.cardId ≠ placed.cardId → c.sortKey ≠ placed.sortKey := by
  have hcut : front ++ back = without (liveChildren db restored.projectId parent)
      (([({ restored with parentCardId := parent } : Card K)] ++ []).map
        fun c : Card K => c.cardId) := by
    rw [← hsplit, without_eq_self]
    intro c hc
    simpa using hfree c hc
  obtain ⟨hplaced, -⟩ := h.insertion_live hk hfits (fun c => by simpa using hchanged c)
    (by simp) hcut (fun b hb => by rw [List.mem_singleton.mp hb]; exact ⟨rfl, hlive⟩) (by simp)
  have hsorted : TreeSorted (front ++ back) := hsplit ▸ scopeChildren_sorted ..
  obtain ⟨hfinite, hfresh⟩ :=
    hfits.fresh_keys parent updatedAt hsorted ((hchanged placed).mp List.mem_cons_self)
  exact ⟨hplaced, hfinite, hplaced ▸ hfresh⟩

end Placement

/-! ## Restore -/

/-- A row out of the trash, where it stands. -/
def Card.restored (card : Card K) (updatedAt : Int) : Card K :=
  { card with deletedAt := none, updatedAt, relPath := livePath card.cardId }

@[simp] theorem Card.restored_cardId (card : Card K) (updatedAt : Int) :
    (card.restored updatedAt).cardId = card.cardId := rfl

theorem foundUp_findCard {db : Db K} {projectId : String}
    (hproj : ∀ (id : String) c, db.cards[id]? = some c → c.projectId = projectId) :
    foundUp (findCard db projectId) = cardUp db := by
  funext id
  refine Option.ext fun p => ?_
  simp only [foundUp, Option.map_eq_some_iff, findCard_eq_some, cardUp_eq_some]
  exact ⟨fun ⟨c, ⟨hc, _⟩, hp⟩ => ⟨c, hc, hp⟩, fun ⟨c, hc, hp⟩ => ⟨c, ⟨hc, hproj _ _ hc⟩, hp⟩⟩

/-- The reachable parent of a card is the lowest of its ancestors with a live way to the roots. -/
theorem reachableCardParent_nearest {db : Db K} {card : Card K} {parent : Option String}
    (hk : db.Keyed)
    (hproj : ∀ (id : String) c, db.cards[id]? = some c → c.projectId = card.projectId)
    (hcard : db.cards[card.cardId]? = some card)
    (h : reachableCardParent db card = .ok parent) :
    (∀ a, parent = some a → Relation.TransGen (ParentStep (cardUp db)) card.cardId a ∧
      Rooted (liveUp db card.projectId) a) ∧
    ∀ b, Relation.TransGen (ParentStep (cardUp db)) card.cardId b →
      Rooted (liveUp db card.projectId) b →
        ∃ a, parent = some a ∧ Relation.ReflTransGen (ParentStep (cardUp db)) a b := by
  have hup := foundUp_findCard hproj
  have hown : cardUp db card.cardId = some card.parentCardId := cardUp_eq_some.mpr ⟨card, hcard, rfl⟩
  obtain ⟨hend, hrest⟩ := walkAncestors_nearest (findCard_keyed hk card.projectId) h
  rw [hup] at hrest
  change ∀ q, _ → (Rooted (liveUp db card.projectId) q → _) ∧
    (¬Rooted (liveUp db card.projectId) q → Nearest _ (liveUp db card.projectId) q _) at hrest
  cases hp : card.parentCardId with
  | none =>
    rw [hend hp]
    refine ⟨by simp, fun b hb _ => ?_⟩
    obtain ⟨y, hy, -⟩ := Relation.TransGen.head'_iff.mp hb
    rw [ParentStep, hown, hp] at hy
    cases hy
  | some q =>
    have hstep : ParentStep (cardUp db) card.cardId q := by rw [ParentStep, hown, hp]
    have hnearest : Nearest (cardUp db) (liveUp db card.projectId) q parent := by
      by_cases hroot : Rooted (liveUp db card.projectId) q
      · rw [(hrest q hp).1 hroot]
        exact ⟨fun a ha => by cases ha; exact ⟨.refl, hroot⟩, fun b hb _ => ⟨q, rfl, hb⟩⟩
      · exact (hrest q hp).2 hroot
    refine ⟨fun a ha => ⟨.head' hstep (hnearest.above a ha).1, (hnearest.above a ha).2⟩,
      fun b hb hroot => ?_⟩
    obtain ⟨y, hy, hyb⟩ := Relation.TransGen.head'_iff.mp hb
    rw [ParentStep, hown, hp] at hy
    cases hy
    exact hnearest.lowest b hyb hroot

/-- The walk from a card of the table throws exactly when its chain runs into a cycle. -/
theorem reachableCardParent_ok_iff {db : Db K} {card : Card K}
    (hcard : db.cards[card.cardId]? = some card) :
    (∃ parent, reachableCardParent db card = .ok parent) ↔
      ∀ x, Relation.ReflTransGen (ParentStep (foundUp (findCard db card.projectId))) card.cardId x →
        ¬Relation.TransGen (ParentStep (foundUp (findCard db card.projectId))) x x := by
  have hown : foundUp (findCard db card.projectId) card.cardId = some card.parentCardId := by
    rw [foundUp, findCard_eq_some.mpr ⟨hcard, rfl⟩]
    rfl
  have hmem : ∀ q p, foundUp (findCard db card.projectId) q = some p → q ∈ db.cards.keys := by
    intro q p hq
    obtain ⟨c, hc, -⟩ := Option.map_eq_some_iff.mp hq
    exact Std.ExtTreeMap.mem_keys.mpr (Map.mem_iff.mpr ⟨c, (findCard_eq_some.mp hc).1⟩)
  constructor
  · rintro ⟨parent, hparent⟩ x hx hcycle
    have hchain := walkAncestors_acyclic hparent
    rcases Relation.ReflTransGen.cases_head hx with rfl | ⟨q, hq, hqx⟩
    · obtain ⟨q, hq, hqx⟩ := Relation.TransGen.head'_iff.mp hcycle
      rw [ParentStep, hown] at hq
      exact (hchain q (Option.some.inj hq) _ hqx).1 List.mem_cons_self
    · rw [ParentStep, hown] at hq
      exact (hchain q (Option.some.inj hq) x hqx).2 hcycle
  · intro hacyclic
    refine walkAncestors_of_acyclic db.cards.keys hmem ?_ (by simp) ?_ ?_ ?_
    · simpa using hmem _ _ hown
    · intro q hq v hv
      rw [List.mem_singleton.mp hv]
      exact .single (by rw [ParentStep, hown, hq])
    · exact fun q hq x hx => hacyclic x (.head (by rw [ParentStep, hown, hq]) hx)
    · simp only [walkFuel, Std.ExtTreeMap.length_keys, List.length_singleton]
      omega

namespace CardStore
variable [SortKey K] {env : Env K} {w w' : World K}

theorem restoreLocked_rows (projectId cardId : String) (updatedAt : Int) (hw : Tidy env w) :
    Ends (restoreLocked env projectId cardId updatedAt) w
      (fun _ w' => Tidy env w' ∧ ∃ card parent placed changes, w.db.cards[cardId]? = some card ∧
        card.deletedAt ≠ none ∧ reachableCardParent w.db card = .ok parent ∧
        RestoredTo w.db (card.restored updatedAt) parent updatedAt placed changes ∧
        RowsPlaced (placed :: changes) w.db w'.db) fun _ _ => True := by
  unfold restoreLocked
  refine (requireProject_ends hw.journal _).bind ?_ fun _ _ _ => trivial
  rintro - w1 ⟨rfl, hproj⟩
  refine (rereadCard_ends cardId w1).bind ?_ fun _ _ _ => trivial
  rintro card w2 ⟨rfl, hcard⟩
  obtain rfl := hw.keyed _ _ hcard
  simp only [Ends.bind_iff, Ends.get_iff, Ends.fromExcept_iff, Ends.ite_iff, Ends.throw_iff]
  refine ⟨fun _ => trivial, fun hdel => ⟨fun _ _ => ⟨fun _ _ => ⟨fun _ => trivial, fun _ => ?_⟩,
    fun _ _ => trivial⟩, fun _ _ => trivial⟩⟩
  have hdel : card.deletedAt ≠ none := by simpa using hdel
  refine (readCardFile_ends _ w2).mono ?_ fun _ _ _ => trivial
  rintro r w3 ⟨rfl, -, -⟩
  refine ⟨?_, fun _ _ => trivial⟩
  rintro ⟨placed, changes⟩ hplacement
  have hfree : ∀ c, LiveRow w3.db card.projectId c → c.cardId ≠ card.cardId := by
    intro c hc he
    have hrow := hc.row
    rw [he, hcard] at hrow
    exact hdel (Option.some.inj hrow ▸ hc.live)
  obtain ⟨_, key, _, hplaced, hsib, hnodup⟩ := restoredCardPlacement_ok hw.keyed hplacement
  obtain ⟨parent, hparent, hto⟩ := restoredCardPlacement_to hw.keyed (by exact hfree) hplacement
  refine Ends.mono (applyWithPlacements_stored hw (by rw [hplaced]) (by rw [hplaced])
    (by rw [hplaced]) hcard ?_ fun c hc => ?_) ?_ fun _ _ _ => trivial
  · refine List.nodup_cons.mpr ⟨fun hmem => ?_, hnodup⟩
    obtain ⟨c, hc, he⟩ := List.mem_map.mp hmem
    obtain ⟨b, key, rfl, -, hne⟩ := hsib c hc
    exact hne he
  · obtain ⟨b, key, rfl, hlive, -⟩ := hsib c hc
    exact ⟨b, _, key, _, rfl, hlive.row⟩
  · rintro - w4 ⟨hw4, hrows⟩
    refine ⟨hw4, card, parent, _, changes, hcard, hdel, hparent, ?_, hrows⟩
    exact hto.relPath (fun c hc => hfree c ((mem_liveChildren hw.keyed).mp hc).1) _

theorem restore_rows {cardId : String} {updatedAt : Int} {result : Result K} (hw : Tidy env w)
    (h : (Call.restore cardId updatedAt).run env w = .ok result w') :
    Tidy env w' ∧ ∃ card parent placed changes, w.db.cards[cardId]? = some card ∧
      card.deletedAt ≠ none ∧ reachableCardParent w.db card = .ok parent ∧
      RestoredTo w.db (card.restored updatedAt) parent updatedAt placed changes ∧
      RowsPlaced (placed :: changes) w.db w'.db := by
  refine (show Ends ((Call.restore cardId updatedAt).run env) w (fun _ w' => Tidy env w' ∧
    ∃ card parent placed changes, w.db.cards[cardId]? = some card ∧
      card.deletedAt ≠ none ∧ reachableCardParent w.db card = .ok parent ∧
      RestoredTo w.db (card.restored updatedAt) parent updatedAt placed changes ∧
      RowsPlaced (placed :: changes) w.db w'.db) fun _ _ => True from ?_).ok h
  unfold Call.run
  simp only [Ends.bind_iff, Ends.get_iff, Call.enter, withCard]
  split
  · trivial
  · exact (restoreLocked_rows _ _ _ hw).bind (fun _ _ h => h) fun _ _ h => h

/-- A restored card whose ancestors close no cycle goes under the lowest of them that is live with
every card above it, or to the roots. It stands among the live children there, which keep their order,
under a finite key of its own. Where its saved key was finite and free it has that one and no other
card changes, and in no case does a card outside that list. -/
theorem restore_places {cardId : String} {card : Card K} (hw : Tidy env w)
    (hcard : w.db.cards[cardId]? = some card)
    (hacyclic : ∀ x, Relation.ReflTransGen (ParentStep (cardUp w.db)) cardId x →
      ¬Relation.TransGen (ParentStep (cardUp w.db)) x x) :
    ∃ parent,
      (∀ a, parent = some a → Relation.TransGen (ParentStep (cardUp w.db)) cardId a ∧
        Rooted (liveUp w.db card.projectId) a) ∧
      (∀ b, Relation.TransGen (ParentStep (cardUp w.db)) cardId b →
        Rooted (liveUp w.db card.projectId) b →
          ∃ a, parent = some a ∧ Relation.ReflTransGen (ParentStep (cardUp w.db)) a b) ∧
      ∀ updatedAt result w', (Call.restore cardId updatedAt).run env w = .ok result w' →
        ∃ key front back,
          w'.db.cards[cardId]? =
            some { card.restored updatedAt with parentCardId := parent, sortKey := key } ∧
          liveOrder w.db card.projectId parent = front ++ back ∧
          liveOrder w'.db card.projectId parent = front ++ cardId :: back ∧
          SortKey.isFinite key = true ∧
          (∀ c ∈ liveChildren w'.db card.projectId parent, c.cardId ≠ cardId → c.sortKey ≠ key) ∧
          (KeyFree (liveChildren w.db card.projectId parent) card.sortKey →
            key = card.sortKey ∧ ∀ id : String, id ≠ cardId →
              w'.db.cards[id]? = w.db.cards[id]?) ∧
          ∀ id : String, id ≠ cardId →
            (∀ c ∈ liveChildren w.db card.projectId parent, c.cardId ≠ id) →
              w'.db.cards[id]? = w.db.cards[id]? := by
  have hk := hw.keyed
  obtain rfl := hk _ _ hcard
  have hproj : ∀ (id : String) c, w.db.cards[id]? = some c → c.projectId = card.projectId :=
    fun id c hc => (hw.project id c hc).trans (hw.project _ _ hcard).symm
  obtain ⟨parent, hparent⟩ := (reachableCardParent_ok_iff hcard).mpr fun x hx => by
    rw [foundUp_findCard hproj] at hx ⊢
    exact hacyclic x hx
  obtain ⟨habove, hlowest⟩ := reachableCardParent_nearest hk hproj hcard hparent
  refine ⟨parent, habove, hlowest, fun updatedAt result w' h => ?_⟩
  obtain ⟨-, card', parent', placed, changes, hcard', hdel, hparent', hto, hrows⟩ :=
    restore_rows hw h
  obtain rfl : card' = card := Option.some.inj (hcard'.symm.trans hcard)
  obtain rfl : parent' = parent := Except.ok.inj (hparent'.symm.trans hparent)
  set list := liveChildren w.db card'.projectId parent' with hlist
  have hfree : ∀ c ∈ list, c.cardId ≠ card'.cardId := by
    intro c hc he
    obtain ⟨hrow, -⟩ := (mem_liveChildren hk).mp hc
    have hsame := hrow.row
    rw [he, hcard] at hsame
    exact hdel (Option.some.inj hsame ▸ hrow.live)
  cases hto with
  | kept hkey =>
    have hkey : KeyFree list card'.sortKey := hkey
    obtain ⟨front, back, hsplit, hafter⟩ := hrows.one_live hk rfl hfree
    change list = _ at hsplit
    change liveChildren w'.db card'.projectId parent' = _ at hafter
    refine ⟨card'.sortKey, front.map (·.cardId), back.map (·.cardId),
      hrows.placed _ List.mem_cons_self, ?_, ?_, hkey.1, fun c hc hne => ?_,
      fun _ => ⟨rfl, fun id hne => hrows.kept id ?_⟩, fun id hne _ => hrows.kept id ?_⟩
    · rw [liveOrder, ← hlist, hsplit, List.map_append]
    · rw [liveOrder, hafter, List.map_append, List.map_cons]
      rfl
    · refine hkey.2 c ?_
      rw [hafter] at hc
      rw [hsplit]
      simp only [List.mem_append, List.mem_cons] at hc ⊢
      rcases hc with hc | rfl | hc
      · exact .inl hc
      · exact absurd rfl hne
      · exact .inr hc
    · simpa using Ne.symm hne
    · simpa using Ne.symm hne
  | @spaced window front back key _ hkey hfits hsplit hchanged hids =>
    have hkey : ¬KeyFree list card'.sortKey := hkey
    have hsplit : list = front ++ back := hsplit
    obtain ⟨hplaced, hfinite, hfresh⟩ := hrows.spaced_live hk rfl hfits hsplit hchanged hfree
    change liveChildren w'.db card'.projectId parent' = _ at hplaced
    refine ⟨key, front.map (·.cardId), back.map (·.cardId), hrows.placed _ List.mem_cons_self, ?_, ?_,
      hfinite, fun c hc hne => ?_, fun h => absurd h hkey, fun id hne hnot => hrows.kept id ?_⟩
    · rw [liveOrder, ← hlist, hsplit, List.map_append]
    · rw [liveOrder, hplaced, hfits.placed_ids, List.take_left, List.drop_left]
      simp [Card.restored]
    · exact hfresh c hc hne
    · intro r hr
      rcases List.mem_cons.mp hr with rfl | hmem
      · exact Ne.symm hne
      · have hin := (hchanged r).mp hr
        obtain ⟨b, p, k, rfl, ⟨hb, -⟩ | ⟨hb, -⟩⟩ := hfits.changed_card hin
        · rw [List.mem_singleton.mp hb]
          exact Ne.symm hne
        · exact hnot b (hsplit ▸ hb)

end CardStore

/-- A root with its two children in the trash. -/
def binnedRoots : World ℚ :=
  runCalls (plainEnv fun _ => []) World.empty
    [.create (plainCard "aaaa" "a" none 1) "" none, .create (plainCard "bbbb" "b" none 2) "" none,
      .create (plainCard "cccc" "c" (some "bbbb") 3) "" none,
      .create (plainCard "dddd" "d" (some "bbbb") 4) "" none, .trash "bbbb" 9 .trashSubtree]

theorem binnedRoots_restored : ∃ result w',
    (Call.restore "cccc" 10).run (plainEnv fun _ => []) binnedRoots = .ok result w' ∧
      [none].map (liveOrder w'.db "home") = [["cccc", "aaaa"]] :=
  ordersAfter_some (by decide +kernel)

theorem binnedRoots_places : ∃ (w' : World ℚ) (parent : Option String) (key : ℚ)
    (front back : List String),
    (∀ a, parent = some a → Rooted (liveUp binnedRoots.db "home") a) ∧
    liveOrder w'.db "home" parent = front ++ "cccc" :: back ∧
    ∀ c ∈ liveChildren w'.db "home" parent, c.cardId ≠ "cccc" → c.sortKey ≠ key := by
  obtain ⟨card, hcard, hproj⟩ := (Option.any_eq_true _ _).mp (show
    binnedRoots.db.cards["cccc"]?.any (fun c => c.projectId == "home") = true by decide +kernel)
  have hproj : card.projectId = "home" := by simpa using hproj
  have hroot : Rooted (cardUp binnedRoots.db) "cccc" :=
    .step (y := "bbbb") (by decide +kernel) (.root (by decide +kernel))
  obtain ⟨result, w', hrun, -⟩ := binnedRoots_restored
  obtain ⟨parent, habove, -, hplaces⟩ := CardStore.restore_places (runCalls_browsed _ _).tidy hcard
    fun x hx => (hroot.above hx).not_cycle
  obtain ⟨key, front, back, -, -, horder, -, hfresh, -⟩ := hplaces 10 result w' hrun
  rw [hproj] at habove horder hfresh
  exact ⟨w', parent, key, front, back, fun a ha => (habove a ha).2, horder, hfresh⟩

end HolderCore
