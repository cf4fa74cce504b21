import HolderCore.Card.StoreLemmas

/-! # The walk of a subtree

`walkSubtree` visits each card once and ends with every card below the start visited: a turn takes a
card off the pending ones, and there are no more turns than cards. -/

namespace HolderCore.CardStore

/-- What a walk has done so far, after visiting the children of `popped` cards. -/
structure WalkedTo (row : String → Option (Card K)) (children : String → List (Card K))
    (keys : List String) (start : String) (popped : Nat) (walk : SubtreeWalk K) : Prop where
  keys : ∀ v ∈ walk.visited, v ∈ keys
  nodup : walk.visited.Nodup
  count : walk.visited.length = popped + walk.pending.length
  started : start ∈ walk.visited
  closed : ∀ v ∈ walk.visited, v ∈ walk.pending ∨ ∀ c ∈ children v, c.cardId ∈ walk.visited
  found : ∀ v ∈ walk.visited, v ≠ start → ∀ c, row v = some c → c.live = true → c ∈ walk.live
  rows : ∀ c ∈ walk.live, row c.cardId = some c ∧ c.live = true ∧ c.cardId ∈ walk.visited
  distinct : (start :: walk.live.map (·.cardId)).Nodup

variable {row : String → Option (Card K)} {children : String → List (Card K)} {keys : List String}
  {start : String}

/-- The walk in the middle of a turn: the children seen so far of the card it took. -/
private theorem see_children (cs : List (Card K)) (popped : Nat) (parent : String)
    (walk : SubtreeWalk K) (hcs : ∀ c ∈ cs, row c.cardId = some c ∧ c.cardId ∈ keys)
    (hkeys : ∀ v ∈ walk.visited, v ∈ keys) (hnodup : walk.visited.Nodup)
    (hcount : walk.visited.length = popped + walk.pending.length)
    (hstart : start ∈ walk.visited)
    (hclosed : ∀ v ∈ walk.visited, v ∈ walk.pending ∨ v = parent ∨
      ∀ c ∈ children v, c.cardId ∈ walk.visited)
    (hseen : ∀ c ∈ children parent, c ∈ cs ∨ c.cardId ∈ walk.visited)
    (hfound : ∀ v ∈ walk.visited, v ≠ start → ∀ c, row v = some c → c.live = true → c ∈ walk.live)
    (hrows : ∀ c ∈ walk.live, row c.cardId = some c ∧ c.live = true ∧ c.cardId ∈ walk.visited)
    (hdistinct : (start :: walk.live.map (·.cardId)).Nodup) :
    WalkedTo row children keys start popped (cs.foldl .see walk) := by
  induction cs generalizing walk with
  | nil =>
    refine ⟨hkeys, hnodup, hcount, hstart, fun v hv => ?_, hfound, hrows, hdistinct⟩
    rcases hclosed v hv with h | rfl | h
    · exact .inl h
    · refine .inr fun c hc => ?_
      rcases hseen c hc with h | h
      · cases h
      · exact h
    · exact .inr h
  | cons c cs ih =>
    rw [List.foldl_cons]
    have hcs' : ∀ c ∈ cs, row c.cardId = some c ∧ c.cardId ∈ keys :=
      fun c' hc' => hcs c' (List.mem_cons_of_mem _ hc')
    obtain ⟨hrow, hkey⟩ := hcs c List.mem_cons_self
    by_cases hvis : c.cardId ∈ walk.visited
    · rw [show walk.see c = walk by simp [SubtreeWalk.see, hvis]]
      refine ih _ hcs' hkeys hnodup hcount hstart hclosed (fun c' hc' => ?_) hfound hrows hdistinct
      rcases hseen c' hc' with h | h
      · rcases List.mem_cons.mp h with rfl | h
        · exact .inr hvis
        · exact .inl h
      · exact .inr h
    · have hsee : walk.see c = ⟨c.cardId :: walk.visited, c.cardId :: walk.pending,
          if c.live then walk.live ++ [c] else walk.live⟩ := by
        simp [SubtreeWalk.see, hvis]
      rw [hsee]
      have hlive : ∀ c' ∈ walk.live, c' ∈ if c.live then walk.live ++ [c] else walk.live := by
        intro c' hc'
        split
        · exact List.mem_append_left _ hc'
        · exact hc'
      have hstill : ∀ v, v ∈ walk.visited → v ∈ c.cardId :: walk.visited :=
        fun _ hv => List.mem_cons_of_mem _ hv
      refine ih _ hcs' ?_ (List.nodup_cons.mpr ⟨hvis, hnodup⟩) (by simp; omega) (hstill _ hstart)
        ?_ ?_ ?_ ?_ ?_
      · intro v hv
        rcases List.mem_cons.mp hv with rfl | hv
        · exact hkey
        · exact hkeys v hv
      · intro v hv
        rcases List.mem_cons.mp hv with rfl | hv
        · exact .inl List.mem_cons_self
        · exact (hclosed v hv).imp (List.mem_cons_of_mem _)
            (Or.imp_right fun h c' hc' => hstill _ (h c' hc'))
      · intro c' hc'
        rcases hseen c' hc' with h | h
        · rcases List.mem_cons.mp h with rfl | h
          · exact .inr List.mem_cons_self
          · exact .inl h
        · exact .inr (hstill _ h)
      · intro v hv hne c' hc' hl
        rcases List.mem_cons.mp hv with rfl | hv
        · rw [hrow] at hc'
          cases hc'
          simp [hl]
        · exact hlive c' (hfound v hv hne c' hc' hl)
      · intro c' hc'
        have hcases : c' ∈ walk.live ∨ c' = c ∧ c.live = true := by
          split at hc'
          · next hl => simpa [hl] using hc'
          · exact .inl hc'
        rcases hcases with h | ⟨rfl, hl⟩
        · exact ⟨(hrows c' h).1, (hrows c' h).2.1, hstill _ (hrows c' h).2.2⟩
        · exact ⟨hrow, hl, List.mem_cons_self⟩
      · split
        · rw [List.map_append, ← List.cons_append, List.map_singleton]
          refine hdistinct.append (by simp) fun v hv hv' => ?_
          rw [List.mem_singleton] at hv'
          subst hv'
          rcases List.mem_cons.mp hv with he | hv
          · exact hvis (he ▸ hstart)
          · obtain ⟨c', hc', he⟩ := List.mem_map.mp hv
            exact hvis (he ▸ (hrows c' hc').2.2)
        · exact hdistinct

/-- The walk ends with nothing pending. -/
theorem walkSubtree_done
    (hchildren : ∀ v, ∀ c ∈ children v, row c.cardId = some c ∧ c.cardId ∈ keys) (fuel : Nat)
    {popped : Nat} {walk : SubtreeWalk K} (h : WalkedTo row children keys start popped walk)
    (hfuel : keys.length ≤ fuel + popped) :
    ∃ popped', WalkedTo row children keys start popped' (walkSubtree children fuel walk) ∧
      (walkSubtree children fuel walk).pending = [] := by
  have hle : walk.visited.length ≤ keys.length := (h.nodup.subperm h.keys).length_le
  induction fuel generalizing popped walk with
  | zero =>
    refine ⟨popped, h, List.length_eq_zero_iff.mp ?_⟩
    have := h.count
    change walk.pending.length = 0
    omega
  | succ fuel ih =>
    rw [walkSubtree]
    split
    · next hempty => exact ⟨popped, h, hempty⟩
    · next parent pending hpending =>
      have hnext := see_children (children parent) (popped + 1) parent { walk with pending }
        (hchildren parent) h.keys h.nodup
        (by have := h.count; rw [hpending, List.length_cons] at this; simp; omega) h.started
        (fun v hv => by
          rcases h.closed v hv with hp | hp
          · rw [hpending] at hp
            rcases List.mem_cons.mp hp with rfl | hp
            · exact .inr (.inl rfl)
            · exact .inl hp
          · exact .inr (.inr hp))
        (fun c hc => .inl hc) h.found h.rows h.distinct
      exact ih hnext (by omega) (hnext.nodup.subperm hnext.keys).length_le

variable [SortKey K]

/-- The walk from a card of the table ends, before its fuel does, with nothing pending. -/
theorem walkSubtree_finished {db : Db K} (hk : db.Keyed) (projectId : String) {cardId : String}
    {card : Card K} (hcard : db.cards[cardId]? = some card) :
    ∃ popped, WalkedTo (fun id => db.cards[id]?) (CardRepo.listChildren db projectId) db.cards.keys
        cardId popped (walkSubtree (CardRepo.listChildren db projectId) (db.cards.size + 1)
          ⟨[cardId], [cardId], []⟩) ∧
      (walkSubtree (CardRepo.listChildren db projectId) (db.cards.size + 1)
        ⟨[cardId], [cardId], []⟩).pending = [] := by
  have hchildren : ∀ v, ∀ c ∈ CardRepo.listChildren db projectId v,
      db.cards[c.cardId]? = some c ∧ c.cardId ∈ db.cards.keys := by
    intro v c hc
    obtain ⟨hrow, -⟩ := mem_listWhere.mp hc
    have hrow := (mem_rows_iff hk).mp hrow
    exact ⟨hrow, Std.ExtTreeMap.mem_keys.mpr (Map.mem_iff.mpr ⟨c, hrow⟩)⟩
  have hinit : WalkedTo (fun id => db.cards[id]?) (CardRepo.listChildren db projectId) db.cards.keys
      cardId 0 ⟨[cardId], [cardId], []⟩ := by
    refine ⟨?_, by simp, by simp, by simp, by simp, ?_, by simp, by simp⟩
    · simpa using Map.mem_iff.mpr ⟨card, hcard⟩
    · intro v hv hne
      exact absurd (List.mem_singleton.mp hv) hne
  exact walkSubtree_done hchildren (db.cards.size + 1) hinit
    (by rw [Std.ExtTreeMap.length_keys]; omega)

/-- The live descendants of a card: rows of their own, one each, and with the card itself they hold
every live card under one of them. -/
theorem liveDescendants_spec {db : Db K} (hk : db.Keyed) (projectId : String) {cardId : String}
    {card : Card K} (hcard : db.cards[cardId]? = some card) :
    (∀ c ∈ liveDescendants db projectId cardId, db.cards[c.cardId]? = some c ∧ c.deletedAt = none) ∧
      (cardId :: (liveDescendants db projectId cardId).map (·.cardId)).Nodup ∧
      ∀ c, db.cards[c.cardId]? = some c → c.projectId = projectId → c.deletedAt = none →
        ∀ p, c.parentCardId = some p →
          (p = cardId ∨ p ∈ (liveDescendants db projectId cardId).map (·.cardId)) →
            c.cardId = cardId ∨ c ∈ liveDescendants db projectId cardId := by
  obtain ⟨popped, hdone, hpending⟩ := walkSubtree_finished hk projectId hcard
  refine ⟨fun c hc => ?_, hdone.distinct, fun c hrow hproj hlive p hp hmem => ?_⟩
  · obtain ⟨hrow, hl, -⟩ := hdone.rows c hc
    exact ⟨hrow, Card.live_iff.mp hl⟩
  · have hvis : p ∈ (walkSubtree (CardRepo.listChildren db projectId) (db.cards.size + 1)
        ⟨[cardId], [cardId], []⟩).visited := by
      rcases hmem with rfl | hmem
      · exact hdone.started
      · obtain ⟨d, hd, rfl⟩ := List.mem_map.mp hmem
        exact (hdone.rows d hd).2.2
    have hchild : c ∈ CardRepo.listChildren db projectId p :=
      mem_listWhere.mpr ⟨(mem_rows_iff hk).mpr hrow, by simp [hproj, hp]⟩
    have hcvis : c.cardId ∈ _ := ((hdone.closed p hvis).resolve_left (by simp [hpending])) c hchild
    by_cases hne : c.cardId = cardId
    · exact .inl hne
    · exact .inr (hdone.found _ hcvis hne c hrow (Card.live_iff.mpr hlive))

omit [SortKey K] in
/-- The walk visits what the start leads to and nothing else. -/
theorem walkSubtree_visited {children : String → List (Card K)} {R : String → Prop}
    (hstep : ∀ v, R v → ∀ c ∈ children v, R c.cardId) (fuel : Nat) {walk : SubtreeWalk K}
    (hvisited : ∀ v ∈ walk.visited, R v) (hpending : ∀ v ∈ walk.pending, R v) :
    ∀ v ∈ (walkSubtree children fuel walk).visited, R v := by
  have hsee : ∀ (cs : List (Card K)) (walk : SubtreeWalk K), (∀ c ∈ cs, R c.cardId) →
      (∀ v ∈ walk.visited, R v) → (∀ v ∈ walk.pending, R v) →
      (∀ v ∈ (cs.foldl .see walk).visited, R v) ∧ ∀ v ∈ (cs.foldl .see walk).pending, R v := by
    intro cs
    induction cs with
    | nil => exact fun walk _ hv hp => ⟨hv, hp⟩
    | cons c cs ih =>
      intro walk hcs hv hp
      rw [List.foldl_cons]
      have hc := hcs c List.mem_cons_self
      have hcons : ∀ vs : List String, (∀ v ∈ vs, R v) → ∀ v ∈ c.cardId :: vs, R v := by
        intro vs hvs v hv
        rcases List.mem_cons.mp hv with rfl | hv
        · exact hc
        · exact hvs v hv
      refine ih _ (fun d hd => hcs d (List.mem_cons_of_mem _ hd)) ?_ ?_
      · unfold SubtreeWalk.see
        split
        · exact hv
        · exact hcons _ hv
      · unfold SubtreeWalk.see
        split
        · exact hp
        · exact hcons _ hp
  induction fuel generalizing walk with
  | zero => exact hvisited
  | succ fuel ih =>
    rw [walkSubtree]
    split
    · exact hvisited
    · next parent pending hsplit =>
      rw [hsplit] at hpending
      obtain ⟨hv, hp⟩ := hsee (children parent) { walk with pending }
        (hstep parent (hpending parent List.mem_cons_self)) hvisited
        fun v hv => hpending v (List.mem_cons_of_mem _ hv)
      exact ih hv hp

/-- The live descendants of a card are the other live cards of the project whose chain of parents,
through live and trashed cards, leads to it. -/
theorem mem_liveDescendants {db : Db K} (hk : db.Keyed) {projectId cardId : String} {card : Card K}
    (hcard : db.cards[cardId]? = some card)
    (hproj : ∀ (id : String) c, db.cards[id]? = some c → c.projectId = projectId) {c : Card K} :
    c ∈ liveDescendants db projectId cardId ↔ db.cards[c.cardId]? = some c ∧ c.deletedAt = none ∧
      c.cardId ≠ cardId ∧ Relation.ReflTransGen (ParentStep (cardUp db)) c.cardId cardId := by
  obtain ⟨popped, hdone, hpending⟩ := walkSubtree_finished hk projectId hcard
  have hreach : ∀ v ∈ (walkSubtree (CardRepo.listChildren db projectId) (db.cards.size + 1)
      ⟨[cardId], [cardId], []⟩).visited, Relation.ReflTransGen (ParentStep (cardUp db)) v cardId := by
    refine walkSubtree_visited (fun v hv c hc => ?_) _ (by simp [Relation.ReflTransGen.refl])
      (by simp [Relation.ReflTransGen.refl])
    obtain ⟨hrow, hp⟩ := mem_listWhere.mp hc
    simp only [Bool.and_eq_true, beq_iff_eq] at hp
    exact .head (cardUp_eq_some.mpr ⟨c, (mem_rows_iff hk).mp hrow, hp.2⟩) hv
  constructor
  · intro hc
    obtain ⟨hrow, hl, hvis⟩ := hdone.rows c hc
    refine ⟨hrow, Card.live_iff.mp hl, fun he => ?_, hreach _ hvis⟩
    exact (List.nodup_cons.mp hdone.distinct).1 (List.mem_map.mpr ⟨c, hc, he⟩)
  · rintro ⟨hrow, hlive, hne, hchain⟩
    refine hdone.found c.cardId ?_ hne c hrow (Card.live_iff.mpr hlive)
    -- Every card of the chain is visited, from the start down.
    generalize c.cardId = id at hchain
    induction hchain using Relation.ReflTransGen.head_induction_on with
    | refl => exact hdone.started
    | @head x y hstep _ ih =>
      obtain ⟨d, hd, hpar⟩ := cardUp_eq_some.mp hstep
      obtain rfl := hk _ _ hd
      refine (hdone.closed y ih).resolve_left (by simp [hpending]) d ?_
      exact mem_listWhere.mpr ⟨(mem_rows_iff hk).mpr hd, by simp [hproj _ _ hd, hpar]⟩

end HolderCore.CardStore
