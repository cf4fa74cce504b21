import HolderCore.Card.Placement

/-! # What the placements can do

The walk up the parent pointers answers only with a card whose whole way to the roots is live and
avoids the card it started from (`reachableCardParent_rooted`), and it finds that way whenever it is
there (`walkAncestors_of_rooted`). A placement changes sort keys and puts its block under one
parent; everything else of a card it keeps. -/

namespace HolderCore

/-- The parent pointers among the live cards of a project. -/
def liveUp (db : Db K) (projectId cardId : String) : Option (Option String) :=
  ((findCard db projectId cardId).filter (·.live)).map (·.parentCardId)

/-- The parent pointers of all cards. -/
def cardUp (db : Db K) (cardId : String) : Option (Option String) :=
  db.cards[cardId]?.map (·.parentCardId)

/-- Every row stands under its own id. -/
def Db.Keyed (db : Db K) : Prop := ∀ (id : String) (c : Card K), db.cards[id]? = some c → c.cardId = id

theorem findCard_eq_some {db : Db K} {projectId id : String} {c : Card K} :
    findCard db projectId id = some c ↔ db.cards[id]? = some c ∧ c.projectId = projectId := by
  simp [findCard, Option.filter_eq_some_iff]

theorem liveUp_eq_some {db : Db K} {projectId id : String} {p : Option String} :
    liveUp db projectId id = some p ↔
      ∃ c, db.cards[id]? = some c ∧ c.projectId = projectId ∧ c.deletedAt = none ∧
        c.parentCardId = p := by
  simp only [liveUp, Option.map_eq_some_iff, Option.filter_eq_some_iff, findCard_eq_some,
    Card.live_iff]
  constructor
  · rintro ⟨c, ⟨⟨h1, h2⟩, h3⟩, h4⟩
    exact ⟨c, h1, h2, h3, h4⟩
  · rintro ⟨c, h1, h2, h3, h4⟩
    exact ⟨c, ⟨⟨h1, h2⟩, h3⟩, h4⟩

theorem cardUp_eq_some {db : Db K} {id : String} {p : Option String} :
    cardUp db id = some p ↔ ∃ c, db.cards[id]? = some c ∧ c.parentCardId = p := by
  simp [cardUp]

/-! ## The walk -/

section Walk
variable {find : String → Option (Card K)}

private def walkUp (find : String → Option (Card K)) (id : String) : Option (Option String) :=
  ((find id).filter (·.live)).map (·.parentCardId)

private theorem walkUp_of_live {a : Card K} (h : find q = some a) (hl : a.deletedAt = none) :
    walkUp find q = some a.parentCardId := by
  simp [walkUp, h, Option.filter, Card.live, hl]

private theorem avoiding_cons {up : String → Option (Option String)} {x : String}
    (h : Rooted (avoiding up (q :: visited)) x) : Rooted (avoiding up visited) x := by
  refine h.weaken fun y p hy => ?_
  rw [avoiding_eq_some] at hy ⊢
  exact ⟨fun hmem => hy.1 (List.mem_cons_of_mem _ hmem), hy.2⟩

/-- What the walk answers: the candidate it came with, if the rest of the way is live, or a card
further up whose whole way is live. -/
theorem walkAncestors_some (keyed : ∀ q a, find q = some a → a.cardId = q) {c : String}
    (h : walkAncestors find fuel visited next candidate = .ok (some c)) :
    (candidate = some c ∧ ∀ q, next = some q → Rooted (avoiding (walkUp find) visited) q) ∨
      Rooted (avoiding (walkUp find) visited) c := by
  induction fuel generalizing visited next candidate with
  | zero =>
    cases next with
    | none => exact .inl ⟨by simpa [walkAncestors] using h, by simp⟩
    | some q => cases h
  | succ fuel ih =>
    cases next with
    | none => exact .inl ⟨by simpa [walkAncestors] using h, by simp⟩
    | some q =>
      rw [walkAncestors] at h
      split at h
      · cases h
      · next hq =>
        have hq : q ∉ visited := by simpa using hq
        split at h
        · cases h
        · next a ha =>
          rcases ih h with ⟨hcand, hrest⟩ | hc
          · -- The candidate survived, so this ancestor is live and so is the rest of the way.
            split at hcand
            · cases hcand
            · next hlive =>
              have hup := walkUp_of_live ha (by simpa using hlive)
              have hqroot : Rooted (avoiding (walkUp find) visited) q := by
                have hstep := avoiding_eq_some.mpr ⟨hq, hup⟩
                cases hp : a.parentCardId with
                | none => exact .root (by rw [hstep, hp])
                | some p =>
                  exact .step (by rw [hstep, hp]) (avoiding_cons (hrest p hp))
              cases hc : candidate with
              | none =>
                rw [hc, keyed q a ha] at hcand
                cases hcand
                exact .inr hqroot
              | some c' =>
                rw [hc] at hcand
                cases hcand
                exact .inl ⟨rfl, by rintro q' ⟨⟩; exact hqroot⟩
          · exact .inr (avoiding_cons hc)

/-- The walk over a live way to the roots answers with the first card of that way. -/
theorem walkAncestors_of_rooted (keyed : ∀ q a, find q = some a → a.cardId = q)
    (keys : List String) (hkeys : ∀ q p, walkUp find q = some p → q ∈ keys)
    (hq : Rooted (walkUp find) q)
    (hbelow : ∀ v ∈ visited, Relation.TransGen (ParentStep (walkUp find)) v q)
    (hnodup : visited.Nodup) (hfuel : keys.length ≤ fuel + visited.length) :
    walkAncestors find fuel visited (some q) candidate = .ok (candidate.or (some q)) := by
  have hfound : ∀ {v p}, walkUp find v = some p → ∃ a, find v = some a ∧ a.deletedAt = none ∧
      a.parentCardId = p := by
    intro v p hv
    simp only [walkUp, Option.map_eq_some_iff, Option.filter_eq_some_iff, Card.live_iff] at hv
    obtain ⟨a, ⟨ha, hl⟩, hp⟩ := hv
    exact ⟨a, ha, hl, hp⟩
  induction hq generalizing fuel visited candidate with
  | root hroot =>
    obtain ⟨hv, hlt⟩ := Rooted.visited_lt (.root hroot) hkeys hbelow hnodup
    obtain ⟨fuel, rfl⟩ : ∃ n, fuel = n + 1 := ⟨fuel - 1, by omega⟩
    obtain ⟨a, ha, hl, hp⟩ := hfound hroot
    rw [walkAncestors, if_neg (by simpa using hv), ha]
    simp [hp, hl, walkAncestors, keyed _ a ha]
  | @step x y hstep hy ih =>
    obtain ⟨hv, hlt⟩ := Rooted.visited_lt (.step hstep hy) hkeys hbelow hnodup
    obtain ⟨fuel, rfl⟩ : ∃ n, fuel = n + 1 := ⟨fuel - 1, by omega⟩
    obtain ⟨a, ha, hl, hp⟩ := hfound hstep
    have hbelow' : ∀ v ∈ x :: visited, Relation.TransGen (ParentStep (walkUp find)) v y := by
      intro v hv
      rcases List.mem_cons.mp hv with rfl | hv
      · exact .single hstep
      · exact (hbelow v hv).tail hstep
    rw [walkAncestors, if_neg (by simpa using hv), ha]
    simp only [hp, hl, Option.isSome_none, Bool.false_eq_true, ↓reduceIte, keyed _ a ha]
    rw [ih hbelow' (List.nodup_cons.mpr ⟨hv, hnodup⟩) (by simp; omega)]
    cases candidate <;> rfl

/-- The walk asks for no card it has visited. -/
theorem walkAncestors_congr {find' : String → Option (Card K)}
    (h : ∀ q, q ∉ visited → find q = find' q) :
    walkAncestors find fuel visited next candidate =
      walkAncestors find' fuel visited next candidate := by
  induction fuel generalizing visited next candidate with
  | zero => cases next <;> rfl
  | succ fuel ih =>
    cases next with
    | none => rfl
    | some q =>
      rw [walkAncestors, walkAncestors]
      split
      · rfl
      · next hq =>
        have hq : q ∉ visited := by simpa using hq
        rw [← h q hq]
        cases find q with
        | none => rfl
        | some a => exact ih fun q' hq' => h q' fun hmem => hq' (List.mem_cons_of_mem _ hmem)

end Walk

section Reachable
variable {db : Db K} {card : Card K}

theorem findCard_keyed (hk : db.Keyed) (projectId : String) :
    ∀ q a, findCard db projectId q = some a → a.cardId = q :=
  fun q a ha => hk q a (findCard_eq_some.mp ha).1

/-- A reachable parent has a live way to the roots that avoids the card. -/
theorem reachableCardParent_rooted (hk : db.Keyed) {c : String}
    (h : reachableCardParent db card = .ok (some c)) :
    Rooted (avoiding (liveUp db card.projectId) [card.cardId]) c := by
  rcases walkAncestors_some (findCard_keyed hk _) h with ⟨hc, -⟩ | hc
  · cases hc
  · exact hc

theorem validateCardParent_ok (h : validateCardParent db card = .ok ()) :
    reachableCardParent db card = .ok card.parentCardId := by
  unfold validateCardParent at h
  cases hr : reachableCardParent db card with
  | error e => rw [hr] at h; cases h
  | ok r =>
    rw [hr] at h
    simp only [bind, Except.bind] at h
    split at h
    · cases h
    · next he => rw [not_not.mp he]

/-- A card under a rooted parent of the live forest reaches that parent. -/
theorem reachableCardParent_of_rooted (hk : db.Keyed) {p : String}
    (hcard : liveUp db card.projectId card.cardId = some (some p))
    (hp : Rooted (liveUp db card.projectId) p) (hpar : card.parentCardId = some p) :
    reachableCardParent db card = .ok (some p) := by
  unfold reachableCardParent
  rw [hpar]
  refine walkAncestors_of_rooted (findCard_keyed hk _) db.cards.keys ?_ hp ?_ (by simp) ?_
  · intro q r hq
    obtain ⟨c, hc, -⟩ := liveUp_eq_some.mp hq
    exact Std.ExtTreeMap.mem_keys.mpr (Map.mem_iff.mpr ⟨c, hc⟩)
  · rintro v hv
    rw [List.mem_singleton.mp hv]
    exact .single hcard
  · simp only [walkFuel, Std.ExtTreeMap.length_keys, List.length_singleton]
    omega

/-- A card may go under a parent exactly when a live way leads from there to the roots without meeting
the card. -/
theorem validateCardParent_iff (hk : db.Keyed) : validateCardParent db card = .ok () ↔
    ∀ p, card.parentCardId = some p →
      Rooted (avoiding (liveUp db card.projectId) [card.cardId]) p := by
  constructor
  · intro h p hp
    have hr := validateCardParent_ok h
    rw [hp] at hr
    exact reachableCardParent_rooted hk hr
  · intro h
    have hreach : reachableCardParent db card = .ok card.parentCardId := by
      unfold reachableCardParent
      cases hp : card.parentCardId with
      | none => rfl
      | some p =>
        have hroot := h p hp
        -- With the card itself added under its parent, the way is one of the live forest.
        let find (id : String) : Option (Card K) :=
          if id = card.cardId then some { card with deletedAt := none }
          else findCard db card.projectId id
        have hup : ∀ q, q ≠ card.cardId → walkUp find q = liveUp db card.projectId q := by
          intro q hq
          simp only [walkUp, find, if_neg hq]
          rfl
        have hself : walkUp find card.cardId = some (some p) := by
          simp [walkUp, find, Option.filter, hp]
        have hfind : Rooted (walkUp find) p := by
          refine hroot.weaken fun y q hy => ?_
          obtain ⟨hne, hy⟩ := avoiding_eq_some.mp hy
          rw [hup y (by simpa using hne)]
          exact hy
        have hsame : ∀ fuel, walkAncestors (findCard db card.projectId) fuel [card.cardId] (some p) none =
            walkAncestors find fuel [card.cardId] (some p) none := fun fuel =>
          walkAncestors_congr fun q hq => by
            simp only [find, if_neg (by simpa using hq : ¬ q = card.cardId)]
        rw [hsame]
        refine walkAncestors_of_rooted ?_ (card.cardId :: db.cards.keys) ?_ hfind ?_ (by simp) ?_
        · intro q a ha
          simp only [find] at ha
          split at ha
          · next he => cases ha; exact he.symm
          · exact findCard_keyed hk _ q a ha
        · intro q r hq
          by_cases he : q = card.cardId
          · exact he ▸ List.mem_cons_self
          · rw [hup q he] at hq
            obtain ⟨c, hc, -⟩ := liveUp_eq_some.mp hq
            exact List.mem_cons_of_mem _ (Std.ExtTreeMap.mem_keys.mpr (Map.mem_iff.mpr ⟨c, hc⟩))
        · rintro v hv
          rw [List.mem_singleton.mp hv]
          exact .single hself
        · simp only [walkFuel, List.length_cons, Std.ExtTreeMap.length_keys, List.length_nil]
          omega
    unfold validateCardParent
    simp only [hreach, bind, Except.bind, ne_eq, not_true, if_false]
    rfl

end Reachable

/-! ## Inserted blocks -/

/-- A card with its placement columns set. -/
def Card.placed (card : Card K) (parent : Option String) (key : K) (updatedAt : Int) : Card K :=
  { card with parentCardId := parent, sortKey := key, updatedAt }

section Placed
variable (card : Card K) (parent : Option String) (key : K) (updatedAt : Int)

@[simp] theorem Card.placed_cardId : (card.placed parent key updatedAt).cardId = card.cardId := rfl
@[simp] theorem Card.placed_projectId :
    (card.placed parent key updatedAt).projectId = card.projectId := rfl
@[simp] theorem Card.placed_parentCardId :
    (card.placed parent key updatedAt).parentCardId = parent := rfl
@[simp] theorem Card.placed_deletedAt :
    (card.placed parent key updatedAt).deletedAt = card.deletedAt := rfl
@[simp] theorem Card.placed_relPath :
    (card.placed parent key updatedAt).relPath = card.relPath := rfl
@[simp] theorem Card.placed_title :
    (card.placed parent key updatedAt).title = card.title := rfl
@[simp] theorem Card.placed_createdAt :
    (card.placed parent key updatedAt).createdAt = card.createdAt := rfl

end Placed

section Blocks
variable [SortKey K]

private theorem spacedKeysStep_some {low high : K} {state : Option (List K × K)}
    (h : spacedKeysStep low high count state i = some (keys, p)) :
    ∃ keys' p', state = some (keys', p') ∧ keys.length = keys'.length + 1 := by
  cases state with
  | none => cases h
  | some state =>
    simp only [spacedKeysStep, Option.bind_eq_bind, Option.bind_some] at h
    split at h
    · cases h
    · cases h
      exact ⟨state.1, state.2, rfl, by simp⟩

private theorem spacedKeys_foldl_length {low high : K} {is : List Nat} {state : Option (List K × K)}
    (h : is.foldl (spacedKeysStep low high count) state = some (keys, p)) :
    ∃ keys' p', state = some (keys', p') ∧ keys.length = keys'.length + is.length := by
  induction is generalizing state with
  | nil => exact ⟨keys, p, h, by simp⟩
  | cons i is ih =>
    obtain ⟨keys', p', hs, hlen⟩ := ih h
    obtain ⟨keys'', p'', hs', hlen'⟩ := spacedKeysStep_some hs
    exact ⟨keys'', p'', hs', by simp [hlen, hlen']; omega⟩

theorem spacedKeys_length {left right : Option K} (h : spacedKeys left right count = some keys) :
    keys.length = count := by
  simp only [spacedKeys, Option.map_eq_some_iff, Prod.exists] at h
  obtain ⟨keys', p, h, rfl⟩ := h
  obtain ⟨keys'', p'', hs, hlen⟩ := spacedKeys_foldl_length h
  cases hs
  simpa using hlen

/-- The window a block was re-spaced in. -/
theorem respaceFrom_ok {slots : List (Slot K)}
    (h : respaceFrom slots index blockEnd updatedAt fuel radius = .ok (dest, changed)) :
    ∃ low high keys, low ≤ index ∧ min slots.length blockEnd ≤ high ∧ keys.length = high - low ∧
      changed = ((((slots.drop low).take (high - low)).zipWith (·.respace updatedAt) keys).filter
        (·.2)).map (·.1) := by
  induction fuel generalizing radius with
  | zero => cases h
  | succ fuel ih =>
    rw [respaceFrom] at h
    simp only at h
    split at h
    · next keys hkeys =>
      injection h with h
      injection h with _ h
      exact ⟨_, _, keys, Nat.sub_le _ _, by omega, spacedKeys_length hkeys, h.symm⟩
    · split at h
      · cases h
      · exact ih h

theorem Slot.respace_eq (slot : Slot K) (key : K) (updatedAt : Int) :
    slot.respace updatedAt key = (slot.card, false) ∨
      slot.respace updatedAt key =
        (slot.card.placed slot.card.parentCardId key updatedAt, true) := by
  unfold Slot.respace
  split
  · exact .inr rfl
  · exact .inl rfl

omit [SortKey K] in
private theorem exists_of_mem_zipWith {f : α → β → γ} {as : List α} {bs : List β} {c : γ}
    (h : c ∈ as.zipWith f bs) : ∃ a ∈ as, ∃ b, c = f a b := by
  obtain ⟨i, hi, rfl⟩ := List.mem_iff_getElem.mp h
  rw [List.getElem_zipWith]
  exact ⟨_, List.getElem_mem _, _, rfl⟩

omit [SortKey K] in
private theorem mem_zipWith_of_mem {f : α → β → γ} {as : List α} (bs : List β) {a : α}
    (h : a ∈ as) (hlen : as.length ≤ bs.length) : ∃ b, f a b ∈ as.zipWith f bs := by
  obtain ⟨i, hi, rfl⟩ := List.mem_iff_getElem.mp h
  refine ⟨bs[i], List.mem_iff_getElem.mpr ⟨i, by simp; omega, ?_⟩⟩
  rw [List.getElem_zipWith]

omit [SortKey K] in
private theorem zipWith_map_sublist {f : α → β → γ} {g : γ → δ} {k : α → δ}
    (hg : ∀ a b, g (f a b) = k a) (as : List α) (bs : List β) :
    ((as.zipWith f bs).map g).Sublist (as.map k) := by
  induction as generalizing bs with
  | nil => simp
  | cons a as ih =>
    cases bs with
    | nil => simp
    | cons b bs => simpa [hg] using ih bs

/-- The slots of an inserted block. -/
private def blockSlots (destination : List (Card K)) (index : Nat) (block : List (Card K))
    (parent : Option String) : List (Slot K) :=
  (destination.take index).map (⟨·, false⟩) ++
    block.map (fun card => ⟨{ card with parentCardId := parent }, true⟩) ++
    (destination.drop index).map (⟨·, false⟩)

/-- Every card changed by an inserted block is one of the block, under the new parent, or one of
the siblings, under its own. The whole block changes, and no id changes twice. -/
theorem insertBlock_ok {destination block changed : List (Card K)} {parent : Option String}
    (h : insertBlock destination index block parent updatedAt = .ok changed) :
    (∀ c ∈ changed, ∃ b p key, c = b.placed p key updatedAt ∧
        (b ∈ block ∧ p = parent ∨ b ∈ destination ∧ p = b.parentCardId)) ∧
      (index ≤ destination.length → ∀ b ∈ block, ∃ key, b.placed parent key updatedAt ∈ changed) ∧
      (changed.map (·.cardId)).Sublist
        ((destination.take index ++ block ++ destination.drop index).map (·.cardId)) := by
  unfold insertBlock insertBlockInto at h
  split at h
  · next hempty =>
    cases h
    simp [List.isEmpty_iff.mp hempty]
  · simp only [Except.map] at h
    split at h
    · cases h
    · next result hrun =>
      obtain ⟨dest, changed⟩ := result
      cases h
      change respaceFrom (blockSlots destination index block parent) _ _ _ _ _ = _ at hrun
      set slots := blockSlots destination index block parent with hslots
      obtain ⟨low, high, keys, hlow, hhigh, hkeys, hchanged⟩ := respaceFrom_ok hrun
      refine ⟨fun c hc => ?_, fun hindex b hb => ?_, ?_⟩
      · rw [hchanged, List.mem_map] at hc
        obtain ⟨cell, hcell, rfl⟩ := hc
        obtain ⟨hcell, hflag⟩ := List.mem_filter.mp hcell
        obtain ⟨slot, hslot, key, rfl⟩ := exists_of_mem_zipWith hcell
        rcases slot.respace_eq key updatedAt with he | he
        · rw [he] at hflag; cases hflag
        · rw [he]
          have hslot : slot ∈ slots := List.mem_of_mem_drop (List.mem_of_mem_take hslot)
          simp only [hslots, blockSlots, List.append_assoc, List.mem_append, List.mem_map] at hslot
          rcases hslot with ⟨d, hd, rfl⟩ | ⟨b, hb, rfl⟩ | ⟨d, hd, rfl⟩
          · exact ⟨d, _, key, rfl, .inr ⟨List.mem_of_mem_take hd, rfl⟩⟩
          · exact ⟨b, parent, key, rfl, .inl ⟨hb, rfl⟩⟩
          · exact ⟨d, _, key, rfl, .inr ⟨List.mem_of_mem_drop hd, rfl⟩⟩
      · -- The window contains the block, so its slots meet a key each.
        have hsplit : slots = (destination.take index).map (⟨·, false⟩) ++
            block.map (fun card => ⟨{ card with parentCardId := parent }, true⟩) ++
            (destination.drop index).map (⟨·, false⟩) := rfl
        have hwindow : (⟨{ b with parentCardId := parent }, true⟩ : Slot K) ∈
            (slots.drop low).take (high - low) := by
          obtain ⟨j, hj, rfl⟩ := List.mem_iff_getElem.mp hb
          have hle : index + block.length ≤ slots.length := by
            simp only [hsplit, List.length_append, List.length_map, List.length_take,
              List.length_drop]
            omega
          refine List.mem_iff_getElem.mpr ⟨index + j - low, by simp; omega, ?_⟩
          rw [List.getElem_take, List.getElem_drop]
          have hat : low + (index + j - low) = index + j := by omega
          simp only [hat, hsplit, List.append_assoc]
          rw [List.getElem_append_right (by simp), List.getElem_append_left (by simp; omega),
            List.getElem_map]
          simp [hindex]
        obtain ⟨key, hcell⟩ := mem_zipWith_of_mem
          (f := fun (s : Slot K) key => s.respace updatedAt key) keys hwindow (by simp [hkeys])
        refine ⟨key, ?_⟩
        rw [hchanged]
        exact List.mem_map.mpr ⟨_, List.mem_filter.mpr ⟨hcell, rfl⟩, rfl⟩
      · rw [hchanged, List.map_map]
        have hsub : ((slots.drop low).take (high - low)).Sublist slots :=
          (List.take_sublist _ _).trans (List.drop_sublist _ _)
        have hids : slots.map (·.card.cardId) =
            (destination.take index ++ block ++ destination.drop index).map (·.cardId) := by
          simp [hslots, blockSlots, Function.comp_def]
        rw [← hids]
        have hcells := zipWith_map_sublist (f := fun (s : Slot K) key => s.respace updatedAt key)
          (g := fun cell => cell.1.cardId) (k := fun s => s.card.cardId)
          (fun s key => by rcases s.respace_eq key updatedAt with he | he <;> simp [he])
          ((slots.drop low).take (high - low)) keys
        exact ((List.filter_sublist.map _).trans hcells).trans (hsub.map _)

theorem insertBlock_nodup {destination block changed : List (Card K)} {parent : Option String}
    (h : insertBlock destination index block parent updatedAt = .ok changed)
    (hnodup : ((destination ++ block).map (·.cardId)).Nodup) :
    (changed.map (·.cardId)).Nodup := by
  refine (insertBlock_ok h).2.2.nodup ((List.Perm.nodup_iff (List.Perm.map _ ?_)).mpr hnodup)
  have hswap : (destination.take index ++ (block ++ destination.drop index)).Perm
      (destination.take index ++ (destination.drop index ++ block)) :=
    List.perm_append_comm.append_left _
  rw [← List.append_assoc, ← List.append_assoc, List.take_append_drop] at hswap
  exact hswap

end Blocks

/-! ## Placements -/

theorem mem_rows_iff {db : Db K} (hk : db.Keyed) {c : Card K} :
    c ∈ db.cards.rows ↔ db.cards[c.cardId]? = some c := by
  rw [Map.mem_rows]
  refine ⟨fun ⟨id, hc⟩ => ?_, fun hc => ⟨_, hc⟩⟩
  rw [hk id c hc, hc]

section Siblings
variable [LinearOrder K] {db : Db K}

theorem perm_listWhere (db : Db K) (p : Card K → Bool) :
    (CardRepo.listWhere db p).Perm (db.cards.rows.filter p) := List.perm_insertionSort _ _

theorem mem_listWhere {p : Card K → Bool} {c : Card K} :
    c ∈ CardRepo.listWhere db p ↔ c ∈ db.cards.rows ∧ p c = true := by
  rw [(perm_listWhere db p).mem_iff, List.mem_filter]

omit [LinearOrder K] in
theorem nodup_rows (hk : db.Keyed) : (db.cards.rows.map (·.cardId)).Nodup := Map.nodup_map_rows hk

theorem nodup_listWhere (hk : db.Keyed) (p : Card K → Bool) :
    ((CardRepo.listWhere db p).map (·.cardId)).Nodup :=
  ((perm_listWhere db p).map _).nodup_iff.mpr ((List.filter_sublist.map _).nodup (nodup_rows hk))

theorem mem_siblings (hk : db.Keyed) {card c : Card K} :
    c ∈ siblings db card ↔ db.cards[c.cardId]? = some c ∧ c.projectId = card.projectId ∧
      c.parentCardId = card.parentCardId ∧ c.deletedAt = none := by
  unfold siblings
  cases card.parentCardId <;>
  simp [CardRepo.listChildren, CardRepo.listRoots, mem_listWhere, mem_rows_iff hk, and_assoc]

theorem nodup_siblings (hk : db.Keyed) (card : Card K) :
    ((siblings db card).map (·.cardId)).Nodup := by
  unfold siblings
  rw [((perm_treeSort _).map _).nodup_iff]
  cases card.parentCardId with
  | none => exact (List.filter_sublist.map _).nodup (nodup_listWhere hk _)
  | some p => exact (List.filter_sublist.map _).nodup (nodup_listWhere hk _)

end Siblings

section Placements
variable [SortKey K] {db : Db K}

theorem treeLowerBound_le (cards : List (Card K)) (card : Card K) :
    treeLowerBound cards card ≤ cards.length := (List.takeWhile_sublist _).length_le

private theorem nodup_filtered (hk : db.Keyed) (card : Card K) (id : String) :
    (((siblings db card).filter (·.cardId != id)).map (·.cardId)).Nodup :=
  (List.filter_sublist.map _).nodup (nodup_siblings hk card)

/-- A live row of the project. -/
structure LiveRow (db : Db K) (projectId : String) (b : Card K) : Prop where
  row : db.cards[b.cardId]? = some b
  project : b.projectId = projectId
  live : b.deletedAt = none

/-- Promotion puts every live child of the card, and nothing else, under the card's reachable
parent. -/
theorem promotedCardChildren_ok (hk : db.Keyed) {parent : Card K}
    (h : promotedCardChildren db parent updatedAt = .ok changed) :
    ∃ r, reachableCardParent db parent = .ok r ∧
      (∀ c ∈ changed, ∃ b key, c = b.placed r key updatedAt ∧ LiveRow db parent.projectId b ∧
        (b.parentCardId = some parent.cardId ∨ b.parentCardId = r ∧ b.cardId ≠ parent.cardId)) ∧
      (∀ b, LiveRow db parent.projectId b → b.parentCardId = some parent.cardId →
        ∃ key, b.placed r key updatedAt ∈ changed) ∧
      (changed.map (·.cardId)).Nodup := by
  unfold promotedCardChildren at h
  cases hr : reachableCardParent db parent with
  | error e => rw [hr] at h; cases h
  | ok r =>
    rw [hr] at h
    refine ⟨r, rfl, ?_⟩
    have hchild : ∀ b, b ∈ siblings db { parent with parentCardId := some parent.cardId } ↔
        LiveRow db parent.projectId b ∧ b.parentCardId = some parent.cardId := by
      intro b
      rw [mem_siblings hk]
      exact ⟨fun ⟨h1, h2, h3, h4⟩ => ⟨⟨h1, h2, h4⟩, h3⟩,
        fun ⟨⟨h1, h2, h4⟩, h3⟩ => ⟨h1, h2, h3, h4⟩⟩
    simp only [bind, Except.bind] at h
    split at h
    · next hempty =>
      cases h
      refine ⟨by simp, fun b hb hp => ?_, by simp⟩
      have := (hchild b).mpr ⟨hb, hp⟩
      rw [List.isEmpty_iff.mp hempty] at this
      cases this
    · obtain ⟨hmem, hall, -⟩ := insertBlock_ok h
      refine ⟨fun c hc => ?_, fun b hb hp => ?_, insertBlock_nodup h ?_⟩
      · obtain ⟨b, p, key, rfl, ⟨hb, rfl⟩ | ⟨hb, rfl⟩⟩ := hmem c hc
        · obtain ⟨hlive, hp⟩ := (hchild b).mp hb
          exact ⟨b, key, rfl, hlive, .inl hp⟩
        · obtain ⟨hb, hne⟩ := List.mem_filter.mp hb
          obtain ⟨h1, h2, h3, h4⟩ := (mem_siblings hk).mp hb
          exact ⟨b, key, by rw [h3], ⟨h1, h2, h4⟩, .inr ⟨h3, by simpa using hne⟩⟩
      · exact hall (treeLowerBound_le _ _) b ((hchild b).mpr ⟨hb, hp⟩)
      · rw [List.map_append]
        refine List.Nodup.append (nodup_filtered hk _ _) (nodup_siblings hk _) ?_
        intro id hdest hblock
        obtain ⟨d, hd, rfl⟩ := List.mem_map.mp hdest
        obtain ⟨b, hb, hbd⟩ := List.mem_map.mp hblock
        obtain ⟨hd1, -, hd3, -⟩ := (mem_siblings hk).mp (List.mem_of_mem_filter hd)
        obtain ⟨⟨hb1, -, -⟩, hb2⟩ := (hchild b).mp hb
        have hbd' : b = d := by rw [hbd, hd1] at hb1; exact (Option.some.inj hb1).symm
        -- The destination's cards stand under the reachable parent, which is not the card.
        rw [hbd'] at hb2
        rw [hb2] at hd3
        simp only at hd3
        rw [← hd3] at hr
        have hroot := reachableCardParent_rooted hk hr
        obtain ⟨p, hp⟩ := hroot.node
        exact (avoiding_eq_some.mp hp).1 (by simp)

/-- The promoted children are other cards than the one they leave: the walk to its reachable parent
would have met a card that is its own parent. -/
theorem promotedCardChildren_nodup (hk : db.Keyed) {parent : Card K}
    (hrow : db.cards[parent.cardId]? = some parent)
    (h : promotedCardChildren db parent updatedAt = .ok changed) :
    (parent.cardId :: changed.map (·.cardId)).Nodup := by
  obtain ⟨r, hr, hmem, -, hnodup⟩ := promotedCardChildren_ok hk h
  refine List.nodup_cons.mpr ⟨fun hm => ?_, hnodup⟩
  obtain ⟨c, hc, he⟩ := List.mem_map.mp hm
  obtain ⟨b, key, rfl, hb, hpar | ⟨-, hne⟩⟩ := hmem c hc
  · have hbp : b = parent := by
      have hb := hb.row
      rw [show b.cardId = parent.cardId from he, hrow] at hb
      exact (Option.some.inj hb).symm
    rw [hbp] at hpar
    simp [reachableCardParent, hpar, walkFuel, walkAncestors] at hr
  · exact hne he

/-- A restored card goes under its reachable parent; its siblings keep theirs. -/
theorem restoredCardPlacement_ok (hk : db.Keyed) {restored restored' : Card K}
    (h : restoredCardPlacement db restored updatedAt = .ok (restored', changes)) :
    ∃ r key, reachableCardParent db restored = .ok r ∧
      restored' = { restored with parentCardId := r, sortKey := key } ∧
      (∀ c ∈ changes, ∃ b key, c = b.placed b.parentCardId key updatedAt ∧
        LiveRow db restored.projectId b ∧ b.cardId ≠ restored.cardId) ∧
      (changes.map (·.cardId)).Nodup := by
  unfold restoredCardPlacement at h
  cases hr : reachableCardParent db restored with
  | error e => rw [hr] at h; cases h
  | ok r =>
    rw [hr] at h
    simp only [bind, Except.bind] at h
    split at h
    · cases h
      exact ⟨r, _, rfl, rfl, by simp, by simp⟩
    · split at h
      · cases h
      · next changed hins =>
        cases h
        refine ⟨r, _, rfl, rfl, fun c hc => ?_, ?_⟩
        · obtain ⟨hc, hne⟩ := List.mem_filter.mp hc
          obtain ⟨b, p, key, rfl, ⟨hb, rfl⟩ | ⟨hb, rfl⟩⟩ := (insertBlock_ok hins).1 c hc
          · simp [List.mem_singleton.mp hb] at hne
          · obtain ⟨hb, hne⟩ := List.mem_filter.mp hb
            obtain ⟨h1, h2, h3, h4⟩ := (mem_siblings hk).mp hb
            exact ⟨b, key, rfl, ⟨h1, h2, h4⟩, by simpa using hne⟩
        · refine (List.filter_sublist.map _).nodup (insertBlock_nodup hins ?_)
          rw [List.map_append]
          refine List.Nodup.append (nodup_filtered hk _ _) (by simp) ?_
          intro id hdest hblock
          obtain ⟨d, hd, rfl⟩ := List.mem_map.mp hdest
          simpa [List.mem_singleton.mp hblock] using (List.mem_filter.mp hd).2

namespace CardPlacementResolver

theorem mem_siblingsForParent (hk : db.Keyed) {projectId excluded : String}
    {parent : Option String} {c : Card K}
    (h : c ∈ siblingsForParent db projectId parent excluded) :
    LiveRow db projectId c ∧ c.cardId ≠ excluded := by
  simp only [siblingsForParent, mem_treeSort, List.mem_filter, CardRepo.listAll, mem_listWhere,
    mem_rows_iff hk, Bool.and_eq_true, beq_iff_eq, bne_iff_ne, Card.live_iff] at h
  obtain ⟨⟨hrow, hproj⟩, ⟨hlive, hne⟩, -⟩ := h
  exact ⟨⟨hrow, hproj, hlive⟩, hne⟩

theorem nodup_siblingsForParent (hk : db.Keyed) (projectId excluded : String)
    (parent : Option String) :
    ((siblingsForParent db projectId parent excluded).map (·.cardId)).Nodup := by
  unfold siblingsForParent
  rw [((perm_treeSort _).map _).nodup_iff]
  exact (List.filter_sublist.map _).nodup (nodup_listWhere hk _)

/-- Every intent lands among the live cards of one parent, without the moved card. -/
theorem land_destination {source : Card K} {landing : Landing K}
    (h : land db source request = .ok landing) :
    landing.destination = siblingsForParent db source.projectId landing.parent source.cardId := by
  unfold land at h
  split at h
  case h_1 | h_2 | h_3 =>
    simp only [landAtTarget, bind, Except.bind, pure, Except.pure, throw, throwThe,
      MonadExceptOf.throw] at h
    grind
  case h_4 | h_5 | h_6 | h_7 =>
    simp only [landUnderParent, bind, Except.bind, pure, Except.pure, throw, throwThe,
      MonadExceptOf.throw] at h
    grind
  case h_8 =>
    simp only [landUpLevel, pure, Except.pure, throw, throwThe, MonadExceptOf.throw] at h
    grind

/-- Only a live card of the project is moved. -/
theorem resolve_live {result : CardPlacementResult K}
    (h : resolve db projectId cardId request updatedAt = .ok result) :
    ∃ c, db.cards[cardId]? = some c ∧ c.deletedAt = none := by
  unfold resolve at h
  simp only [CardRepo.get?] at h
  split at h
  · next source hsource =>
    obtain ⟨hrow, hlive⟩ := Option.filter_eq_some_iff.mp hsource
    exact ⟨source, hrow, Card.live_iff.mp hlive⟩
  · cases h

/-- The siblings that make room for a moved card keep their parents. -/
theorem resolve_ok (hk : db.Keyed) {result : CardPlacementResult K}
    (h : resolve db projectId cardId request updatedAt = .ok result) :
    (∀ c ∈ result.siblingChanges, ∃ b key, c = b.placed b.parentCardId key updatedAt ∧
        LiveRow db projectId b ∧ b.cardId ≠ cardId) ∧
      (result.siblingChanges.map (·.cardId)).Nodup := by
  unfold resolve at h
  simp only [CardRepo.get?] at h
  split at h
  · next source hsource =>
    obtain ⟨hrow, -⟩ := Option.filter_eq_some_iff.mp hsource
    have hid := hk _ _ hrow
    simp only [bind, Except.bind] at h
    split at h
    · cases h
    · next hproj =>
      have hproj : source.projectId = projectId := by simpa using hproj
      split at h
      · cases h
      · next landing hland =>
        split at h
        · cases h
          simp
        · split at h
          · cases h
          · next changes hins =>
            cases h
            have hdest := land_destination hland
            rw [hproj, hid] at hdest
            refine ⟨fun c hc => ?_, ?_⟩
            · obtain ⟨hc, hne⟩ := List.mem_filter.mp hc
              obtain ⟨b, p, key, rfl, ⟨hb, rfl⟩ | ⟨hb, rfl⟩⟩ := (insertBlock_ok hins).1 c hc
              · simp [List.mem_singleton.mp hb] at hne
              · rw [hdest] at hb
                obtain ⟨hlive, hne⟩ := mem_siblingsForParent hk hb
                exact ⟨b, key, rfl, hlive, hne⟩
            · refine (List.filter_sublist.map _).nodup (insertBlock_nodup hins ?_)
              rw [List.map_append, hdest]
              refine List.Nodup.append (nodup_siblingsForParent hk _ _ _) (by simp) ?_
              intro id hmem hblock
              obtain ⟨d, hd, rfl⟩ := List.mem_map.mp hmem
              refine (mem_siblingsForParent hk hd).2 ?_
              simpa [hid] using List.mem_singleton.mp hblock
  · cases h

end CardPlacementResolver

/-- Where every live card has a live way to the roots, the repair finds nothing. -/
theorem planHierarchyRepair_of_rooted (hk : db.Keyed)
    (hlive : AllRooted (liveUp db projectId)) (updatedAt : Int) :
    planHierarchyRepair db projectId updatedAt = .ok ⟨[], [], []⟩ := by
  have hnone : (db.cards.rows.filter (·.projectId == projectId)).filterMap
      (repairFinding db projectId) = [] := by
    rw [List.filterMap_eq_nil_iff]
    intro card hcard
    obtain ⟨hrow, hproj⟩ := List.mem_filter.mp hcard
    rw [mem_rows_iff hk] at hrow
    have hproj : card.projectId = projectId := by simpa using hproj
    unfold repairFinding
    split
    · rfl
    · next hskip =>
      simp only [Bool.or_eq_true, not_or, Bool.not_eq_true, Option.isSome_eq_false_iff,
        Option.isNone_iff_eq_none] at hskip
      obtain ⟨hdel, hpar⟩ := hskip
      obtain ⟨p, hp⟩ := Option.ne_none_iff_exists'.mp hpar
      have hup : liveUp db projectId card.cardId = some (some p) :=
        liveUp_eq_some.mpr ⟨card, hrow, hproj, hdel, hp⟩
      have hroot := (hlive _ _ hup).parent hup
      obtain ⟨q, hq⟩ := hroot.node
      obtain ⟨c, hc, hcproj, hcdel, -⟩ := liveUp_eq_some.mp hq
      rw [reachableCardParent_of_rooted hk (by rw [hproj]; exact hup) (by rw [hproj]; exact hroot) hp]
      simp [hp, findCard_eq_some.mpr ⟨hc, hcproj⟩, Card.live, hcdel]
  rw [planHierarchyRepair, hnone]
  rfl

end Placements

end HolderCore
