import HolderCore.Library.Paging
import HolderCore.Card.CreateLemmas
import HolderCore.Card.Runs

/-! # Pages of cards

The paged listings of `CardRepo` and `CardStore`. A page query names a tag, a parent, an order and
a cursor; the cards it matches are listed in the order of their ids or of their last update, and a
page ends before the row behind its cursor. -/

namespace HolderCore

inductive CardPageOrder where
  | cardIdAsc | updatedDesc
deriving DecidableEq, Repr

structure CardPageCursor where
  cardId : String
  updatedAt : Option Int
deriving DecidableEq, Repr

inductive CardPageParent where
  | all | roots
  | childrenOf (cardId : String)
deriving DecidableEq, Repr

structure CardPageQuery where
  tag : Option String := none
  parent : CardPageParent := .all
  order : CardPageOrder := .cardIdAsc
  cursor : Option CardPageCursor := none
deriving DecidableEq, Repr

/-- The `ORDER BY` of a page, as what may stand before what. -/
def CardPageOrder.le : CardPageOrder → Card K → Card K → Bool
  | .cardIdAsc, a, b => a.cardId ≤ b.cardId
  | .updatedDesc, a, b => b.updatedAt < a.updatedAt ∨ b.updatedAt = a.updatedAt ∧ b.cardId ≤ a.cardId

/-- The condition a cursor puts on the rows. -/
def CardPageOrder.after : CardPageOrder → CardPageCursor → Card K → Bool
  | .cardIdAsc, cursor, c => cursor.cardId < c.cardId
  | .updatedDesc, cursor, c => cursor.updatedAt.any fun updatedAt =>
    c.updatedAt < updatedAt ∨ c.updatedAt = updatedAt ∧ c.cardId < cursor.cardId

/-- The condition a query puts on a card's parent. -/
def CardPageParent.has : CardPageParent → Card K → Bool
  | .all, _ => true
  | .roots, c => c.parentCardId == none
  | .childrenOf cardId, c => c.parentCardId == some cardId

namespace CardRepo

def checkPageQuery (query : CardPageQuery) (limit : Int) : Except Exn Unit := do
  if limit ≤ 0 then throw (.invalidArgument "limit must be positive")
  if query.parent = .childrenOf "" then
    throw (.invalidArgument "children parent card_id must not be empty")
  if query.cursor.any (·.cardId.isEmpty) then
    throw (.invalidArgument "cursor card_id must not be empty")
  if query.order = .updatedDesc ∧ query.cursor.any (·.updatedAt.isNone) then
    throw (.invalidArgument "updated-order cursor must include updated_at")
  if query.tag.any (!isValidTag ·) then throw (.invalidArgument "Invalid tag.")

/-- The rows a page query starts from: the cards, or those the tag's entries join. -/
def pageRows (db : Db K) (projectId : String) : (tag : Option String) → List (Card K)
  | none => db.cards.rows
  | some tag => (db.cardTags.rows.filter fun t =>
      t.projectId == projectId && t.tag == normalizeTag tag).filterMap fun t => db.cards[t.cardId]?

def listCollectionPage (db : Db K) (projectId : String) (query : CardPageQuery) (limit : Int) :
    Except Exn (List (Card K)) := do
  checkPageQuery query limit
  let rows := (pageRows db projectId query.tag).filter fun c =>
    c.projectId == projectId && c.live && query.parent.has c
  let rows := rows.filter fun c => query.cursor.all (query.order.after · c)
  return (rows.insertionSort fun a b => query.order.le a b).take limit.toNat

/-- An empty cursor selects the first page. -/
def listPageByCardId (db : Db K) (projectId : String) (afterCardId : Option String) (limit : Int) :
    Except Exn (List (Card K)) :=
  listCollectionPage db projectId
    { cursor := (afterCardId.filter (!·.isEmpty)).map fun cardId => ⟨cardId, none⟩ } limit

/-- A card id without `updated_at` selects the first page. -/
def listRecentPage (db : Db K) (projectId : String) (beforeUpdatedAt : Option Int)
    (beforeCardId : Option String) (limit : Int) : Except Exn (List (Card K)) :=
  match beforeUpdatedAt with
  | none => listCollectionPage db projectId { order := .updatedDesc } limit
  | some updatedAt =>
    match beforeCardId.filter (!·.isEmpty) with
    | none => .error (.invalidArgument "before_card_id is required with before_updated_at")
    | some cardId => listCollectionPage db projectId
        { order := .updatedDesc, cursor := some ⟨cardId, some updatedAt⟩ } limit

end CardRepo

structure CompleteCardPage (K : Type) where
  cards : List (Card K × String)
  nextCursor : Option String

structure CollectionCardPage (K : Type) where
  cards : List (Card K × String)
  nextCursor : Option CardPageCursor

namespace CardStore

section
variable [SortKey K] (env : Env K)

def readCardContentLocked (card : Card K) : StoreM K (Option String) := do
  fromExcept (checkRelPath card)
  return (← existingCardFile env card.relPath).map (·.body)

/-- A card of a page with its body. -/
def pageEntry (card : Card K) : StoreM K (Card K × String) := do
  match ← readCardContentLocked env card with
  | none => throw (.runtimeError ("card content missing: " ++ card.cardId))
  | some content => return (card, content)

/-- The card a page of at most `limit` rows ends with, if the look-ahead found another. -/
def lookAhead (limit : Int) (metadata : List (Card K)) : Option (Card K) :=
  if limit.toNat < metadata.length then (metadata.take limit.toNat).getLast? else none

def listCompletePage (projectId : String) (afterCardId : Option String) (limit : Int) :
    StoreM K (CompleteCardPage K) := do
  if limit ≤ 0 then throw (.invalidArgument "limit must be positive")
  requireProject env projectId
  let metadata ← fromExcept
    (CardRepo.listPageByCardId (← get).db projectId afterCardId (limit + 1))
  let cards ← (metadata.take limit.toNat).mapM (pageEntry env)
  return ⟨cards, (lookAhead limit metadata).map (·.cardId)⟩

/-- The rows of a page, with their bodies if they are asked for. -/
def readCollectionPage (projectId : String) (query : CardPageQuery) (limit : Int)
    (includeContent : Bool) : StoreM K (CollectionCardPage K) := do
  let metadata ← fromExcept
    (CardRepo.listCollectionPage (← get).db projectId query (limit + 1))
  let cards ← (metadata.take limit.toNat).mapM fun card =>
    if includeContent then pageEntry env card else return (card, "")
  return ⟨cards, (lookAhead limit metadata).map fun last => ⟨last.cardId, some last.updatedAt⟩⟩

def listCollectionPage (projectId : String) (query : CardPageQuery) (limit : Int)
    (includeContent : Bool) : StoreM K (CollectionCardPage K) :=
  if limit ≤ 0 ∨ 1000 < limit then
    throw (.invalidArgument "limit must be between 1 and 1000")
  else if !includeContent then readCollectionPage env projectId query limit includeContent
  else do
    requireProject env projectId
    readCollectionPage env projectId query limit includeContent

end

end CardStore

/-! ## What a query lists -/

/-- A query that is accepted. -/
structure CardPageQuery.Valid (query : CardPageQuery) : Prop where
  parent : query.parent ≠ .childrenOf ""
  cursor : ∀ c ∈ query.cursor, c.cardId ≠ ""
  updated : query.order = .updatedDesc → ∀ c ∈ query.cursor, c.updatedAt.isSome
  tag : ∀ tag ∈ query.tag, isValidTag tag = true

/-- The card tables as their constraints leave them: rows under their own keys, and no card
without an id, which would have no file. -/
structure Db.Listable (db : Db K) : Prop where
  keyed : db.Keyed
  tagsKeyed : db.TagsKeyed
  named : ∀ (id : String) (c : Card K), db.cards[id]? = some c → id ≠ ""

/-- A live card of the project that a query asks for. -/
structure CardPageQuery.Matches (query : CardPageQuery) (db : Db K) (projectId : String)
    (card : Card K) : Prop where
  row : db.cards[card.cardId]? = some card
  project : card.projectId = projectId
  live : card.deletedAt = none
  parent : query.parent.has card = true
  tag : ∀ tag ∈ query.tag,
    (db.cardTags[[projectId, card.cardId, normalizeTag tag]]?).isSome = true
  cursor : ∀ cursor ∈ query.cursor, query.order.after cursor card = true

/-- The cursor of a card. -/
def Card.pageCursor (card : Card K) : CardPageCursor := ⟨card.cardId, some card.updatedAt⟩

/-- The list of the cards a query asks for, in its order and each once. -/
structure CardPageQuery.Lists (query : CardPageQuery) (db : Db K) (projectId : String)
    (cards : List (Card K)) : Prop where
  mem : ∀ card, card ∈ cards ↔ query.Matches db projectId card
  ordered : cards.Pairwise fun a b => query.order.after a.pageCursor b = true

section
variable {db : Db K} {projectId : String} {query : CardPageQuery}

theorem CardPageOrder.after_cardIdAsc_iff {cursor : CardPageCursor} {c : Card K} :
    cardIdAsc.after cursor c = true ↔ cursor.cardId < c.cardId := decide_eq_true_iff

theorem CardPageOrder.after_updatedDesc_iff {cursor : CardPageCursor} {c : Card K} :
    updatedDesc.after cursor c = true ↔ ∃ updatedAt, cursor.updatedAt = some updatedAt ∧
      (c.updatedAt < updatedAt ∨ c.updatedAt = updatedAt ∧ c.cardId < cursor.cardId) := by
  rw [CardPageOrder.after, Option.any_eq_true]
  exact exists_congr fun _ => and_congr_right fun _ => decide_eq_true_iff

theorem keyset_pageCursor (order : CardPageOrder) :
    Keyset (order.after (K := K)) Card.pageCursor where
  irrefl a := by
    rw [Bool.eq_false_iff]
    intro h
    cases order with
    | cardIdAsc => exact lt_irrefl _ (CardPageOrder.after_cardIdAsc_iff.mp h)
    | updatedDesc =>
      obtain ⟨u, hu, h⟩ := CardPageOrder.after_updatedDesc_iff.mp h
      cases hu
      exact h.elim (lt_irrefl _) fun h => lt_irrefl _ h.2
  trans {c a b} h h' := by
    cases order with
    | cardIdAsc =>
      rw [CardPageOrder.after_cardIdAsc_iff] at h h' ⊢
      exact lt_trans h h'
    | updatedDesc =>
      rw [CardPageOrder.after_updatedDesc_iff] at h h' ⊢
      obtain ⟨u, hu, h⟩ := h
      obtain ⟨u', hu', h'⟩ := h'
      cases hu'
      refine ⟨u, hu, ?_⟩
      rcases h with h | ⟨h, hi⟩ <;> rcases h' with h' | ⟨h', hi'⟩
      · exact .inl (h'.trans h)
      · exact .inl (h' ▸ h)
      · exact .inl (h ▸ h')
      · exact .inr ⟨h'.trans h, hi'.trans hi⟩

/-- Cards with different ids are strictly ordered. -/
theorem CardPageOrder.after_of_le {order : CardPageOrder} {a b : Card K} (h : order.le a b = true)
    (hne : a.cardId ≠ b.cardId) : order.after a.pageCursor b = true := by
  cases order with
  | cardIdAsc =>
    have hle : a.cardId ≤ b.cardId := of_decide_eq_true h
    exact CardPageOrder.after_cardIdAsc_iff.mpr (lt_of_le_of_ne hle hne)
  | updatedDesc =>
    have hle : b.updatedAt < a.updatedAt ∨ b.updatedAt = a.updatedAt ∧ b.cardId ≤ a.cardId :=
      of_decide_eq_true h
    refine CardPageOrder.after_updatedDesc_iff.mpr ⟨a.updatedAt, rfl, ?_⟩
    exact hle.imp_right fun ⟨he, hid⟩ => ⟨he, lt_of_le_of_ne hid hne.symm⟩

private theorem mem_tagEntries (h : db.TagsKeyed) {tag cardId : String} :
    (∃ t ∈ db.cardTags.rows.filter fun t => t.projectId == projectId && t.tag == normalizeTag tag,
      t.cardId = cardId) ↔
      (db.cardTags[[projectId, cardId, normalizeTag tag]]?).isSome = true := by
  rw [Option.isSome_iff_exists]
  simp only [List.mem_filter, Map.mem_rows, Bool.and_eq_true, beq_iff_eq]
  constructor
  · rintro ⟨t, ⟨⟨key, ht⟩, hproj, htag⟩, rfl⟩
    rw [h key t ht, CardTag.key, hproj, htag] at ht
    exact ⟨t, ht⟩
  · rintro ⟨t, ht⟩
    have hkey := h _ t ht
    simp only [CardTag.key, List.cons.injEq, and_true] at hkey
    exact ⟨t, ⟨⟨_, ht⟩, hkey.1.symm, hkey.2.2.symm⟩, hkey.2.1.symm⟩

/-- Every card stands in the rows a query starts from at most once. -/
theorem pageRows_nodup (h : db.Listable) (tag : Option String) :
    ((CardRepo.pageRows db projectId tag).map (·.cardId)).Nodup := by
  cases tag with
  | none => exact Map.nodup_map_rows h.keyed
  | some tag =>
    let entries := db.cardTags.rows.filter fun t =>
      t.projectId == projectId && t.tag == normalizeTag tag
    have hkeys : (entries.map CardTag.key).Nodup :=
      (Map.nodup_map_rows fun key t ht => (h.tagsKeyed key t ht).symm).sublist
        (List.filter_sublist.map _)
    have hids : (entries.map (·.cardId)).Nodup := by
      have hmap : entries.map CardTag.key = (entries.map (·.cardId)).map
          fun id => [projectId, id, normalizeTag tag] := by
        rw [List.map_map]
        refine List.map_congr_left fun t ht => ?_
        have := (List.mem_filter.mp ht).2
        simp only [Bool.and_eq_true, beq_iff_eq] at this
        simp [CardTag.key, this]
      exact List.Nodup.of_map _ (hmap ▸ hkeys)
    refine hids.sublist ?_
    change ((entries.filterMap fun t => db.cards[t.cardId]?).map (·.cardId)).Sublist
      (entries.map (·.cardId))
    -- the entries without a card drop out, and a card has the id of its entry
    have hjoin : ∀ es : List CardTag,
        (es.filterMap fun t => db.cards[t.cardId]?).map (·.cardId) =
          (es.filter fun t => db.cards[t.cardId]?.isSome).map (·.cardId) := by
      intro es
      induction es with
      | nil => rfl
      | cons t es ih =>
        cases hc : db.cards[t.cardId]? with
        | none =>
          rw [List.filterMap_cons_none (f := fun t : CardTag => db.cards[t.cardId]?) hc,
            List.filter_cons_of_neg (by rw [hc]; exact Bool.false_ne_true), ih]
        | some c =>
          rw [List.filterMap_cons_some (f := fun t : CardTag => db.cards[t.cardId]?) hc,
             List.filter_cons_of_pos (by rw [hc]; rfl), List.map_cons, List.map_cons, ih, h.keyed _ _ hc]
    rw [hjoin]
    exact List.filter_sublist.map _

theorem mem_pageRows (h : db.Listable) {tag : Option String} {card : Card K} :
    card ∈ CardRepo.pageRows db projectId tag ↔ db.cards[card.cardId]? = some card ∧
      ∀ t ∈ tag, (db.cardTags[[projectId, card.cardId, normalizeTag t]]?).isSome = true := by
  have hrow : ∀ {id : String} {c : Card K}, db.cards[id]? = some c → db.cards[c.cardId]? = some c :=
    fun hc => by rwa [h.keyed _ _ hc]
  cases tag with
  | none =>
    simp only [CardRepo.pageRows, Map.mem_rows, Option.mem_def, reduceCtorEq, false_implies,
      implies_true, and_true]
    refine ⟨?_, fun hc => ⟨_, hc⟩⟩
    rintro ⟨_, hc⟩
    exact hrow hc
  | some tag =>
    simp only [CardRepo.pageRows, List.mem_filterMap, Option.mem_def, Option.some.injEq,
      forall_eq']
    rw [← mem_tagEntries h.tagsKeyed]
    constructor
    · rintro ⟨t, ht, hc⟩
      exact ⟨hrow hc, t, ht, (h.keyed _ _ hc).symm⟩
    · rintro ⟨hc, t, ht, hid⟩
      exact ⟨t, ht, hid ▸ hc⟩

theorem CardPageOrder.trans {order : CardPageOrder} {a b c : Card K} (h : order.le a b = true)
    (h' : order.le b c = true) : order.le a c = true := by
  cases order <;> simp only [CardPageOrder.le, decide_eq_true_eq] at h h' ⊢
  · exact le_trans h h'
  · rcases h with h | ⟨h, hi⟩ <;> rcases h' with h' | ⟨h', hi'⟩
    · exact .inl (h'.trans h)
    · exact .inl (h' ▸ h)
    · exact .inl (h ▸ h')
    · exact .inr ⟨h'.trans h, hi'.trans hi⟩

theorem CardPageOrder.total (order : CardPageOrder) (a b : Card K) :
    order.le a b = true ∨ order.le b a = true := by
  cases order <;> simp only [CardPageOrder.le, decide_eq_true_eq]
  · exact le_total a.cardId b.cardId
  · rcases lt_trichotomy a.updatedAt b.updatedAt with h | h | h
    · exact .inr (.inl h)
    · exact (le_total b.cardId a.cardId).imp (fun hi => .inr ⟨h.symm, hi⟩) fun hi => .inr ⟨h, hi⟩
    · exact .inl (.inl h)

/-- Rows sorted in the order of a query: each stands behind those before it. -/
theorem pairwise_sorted (order : CardPageOrder) {rows : List (Card K)}
    (h : (rows.map (·.cardId)).Nodup) :
    (rows.insertionSort fun a b => order.le a b).Pairwise
      fun a b => order.after a.pageCursor b = true := by
  have : Std.Total fun a b : Card K => order.le a b = true := ⟨order.total⟩
  have : IsTrans (Card K) fun a b => order.le a b = true := ⟨fun _ _ _ => order.trans⟩
  have hsorted := List.pairwise_insertionSort (fun a b : Card K => order.le a b = true) rows
  have hids : (rows.insertionSort fun a b => order.le a b).Pairwise
      fun a b => a.cardId ≠ b.cardId := by
    rw [← List.pairwise_map]
    exact ((List.perm_insertionSort (fun a b : Card K => order.le a b = true) rows).map
      (·.cardId)).nodup_iff.mpr h
  exact (hsorted.and hids).imp fun ⟨hle, hne⟩ => CardPageOrder.after_of_le hle hne

/-- The rows of a query without a limit and a cursor, in its order. -/
def pageListing (db : Db K) (projectId : String) (query : CardPageQuery) : List (Card K) :=
  ((CardRepo.pageRows db projectId query.tag).filter fun c =>
    c.projectId == projectId && c.live && query.parent.has c).insertionSort
      fun a b => query.order.le a b

theorem pageListing_pairwise (h : db.Listable) (query : CardPageQuery) :
    (pageListing db projectId query).Pairwise fun a b => query.order.after a.pageCursor b = true :=
  pairwise_sorted query.order ((pageRows_nodup h query.tag).sublist (List.filter_sublist.map _))

theorem checkPageQuery_ok (hq : query.Valid) {limit : Int} (hl : 0 < limit) :
    CardRepo.checkPageQuery query limit = .ok () := by
  have hcursor : query.cursor.any (·.cardId.isEmpty) = false := by
    rw [Option.any_eq_false_iff_get]
    intro hc
    simpa [String.isEmpty_iff] using hq.cursor _ (Option.get_mem hc)
  have hupdated : ¬(query.order = .updatedDesc ∧ query.cursor.any (·.updatedAt.isNone) = true) := by
    rintro ⟨ho, hc⟩
    obtain ⟨c, hc, hnone⟩ := Option.any_eq_true .. |>.mp hc
    simpa [Option.isNone_iff_eq_none.mp hnone] using hq.updated ho c hc
  have htag : query.tag.any (!isValidTag ·) = false := by
    rw [Option.any_eq_false_iff_get]
    intro ht
    simpa using hq.tag _ (Option.get_mem ht)
  simp [CardRepo.checkPageQuery, Int.not_le.mpr hl, hq.parent, hcursor, hupdated, htag, pure,
    Except.pure]

/-- A page of rows is the beginning of the listing behind the query's cursor. -/
theorem listCollectionPage_eq (h : db.Listable) (hq : query.Valid) {limit : Int} (hl : 0 < limit) :
    CardRepo.listCollectionPage db projectId query limit =
      .ok ((behind query.order.after (pageListing db projectId query) query.cursor).take
        limit.toNat) := by
  rw [CardRepo.listCollectionPage, checkPageQuery_ok hq hl]
  simp only [bind, Except.bind, pure, Except.pure]
  congr 2
  refine (keyset_pageCursor query.order).eq_of_perm ?_ ?_ ?_
  · have hrows : ((CardRepo.pageRows db projectId query.tag).map (·.cardId)).Nodup :=
      pageRows_nodup h query.tag
    refine pairwise_sorted query.order (hrows.sublist ?_)
    exact (List.filter_sublist.trans List.filter_sublist).map _
  · exact behind_pairwise (pageListing_pairwise h query) _
  · refine (List.perm_insertionSort _ _).trans ?_
    cases query.cursor with
    | none => simpa [behind, pageListing] using (List.perm_insertionSort _ _).symm
    | some cursor => exact ((List.perm_insertionSort _ _).filter _).symm

/-- The listing behind a query's cursor is the list of the cards it asks for. -/
theorem pageListing_lists (h : db.Listable) :
    query.Lists db projectId
      (behind query.order.after (pageListing db projectId query) query.cursor) where
  ordered := behind_pairwise (pageListing_pairwise h query) _
  mem card := by
    have hmem : card ∈ pageListing db projectId query ↔
        card ∈ CardRepo.pageRows db projectId query.tag ∧
          (card.projectId == projectId && card.live && query.parent.has card) = true := by
      rw [pageListing, List.mem_insertionSort, List.mem_filter]
    have hbehind : card ∈ behind query.order.after (pageListing db projectId query) query.cursor ↔
        card ∈ pageListing db projectId query ∧
          ∀ cursor ∈ query.cursor, query.order.after cursor card = true := by
      cases query.cursor with
      | none => simp [behind]
      | some cursor => simp [behind]
    rw [hbehind, hmem, mem_pageRows h]
    simp only [Bool.and_eq_true, beq_iff_eq, Card.live_iff]
    constructor
    · rintro ⟨⟨⟨hrow, htag⟩, ⟨hproj, hlive⟩, hparent⟩, hcursor⟩
      exact ⟨hrow, hproj, hlive, hparent, htag, hcursor⟩
    · rintro ⟨hrow, hproj, hlive, hparent, htag, hcursor⟩
      exact ⟨⟨⟨hrow, htag⟩, ⟨hproj, hlive⟩, hparent⟩, hcursor⟩

/-- The rows behind a card of a listing stand behind the listing's cursor. -/
theorem mem_behind_of_behind {order : CardPageOrder} {rows : List (Card K)}
    {cursor : Option CardPageCursor} {a card : Card K} (ha : a ∈ behind order.after rows cursor)
    (hcard : card ∈ behind order.after rows (some a.pageCursor)) :
    card ∈ behind order.after rows cursor := by
  obtain ⟨hmem, hafter⟩ := List.mem_filter.mp hcard
  cases cursor with
  | none => exact hmem
  | some c =>
    have hc := (List.mem_filter.mp ha).2
    exact List.mem_filter.mpr ⟨hmem, (keyset_pageCursor order).trans hc hafter⟩

/-- The cursor of a listed card is accepted. -/
theorem CardPageQuery.Valid.next (hq : query.Valid) (h : db.Listable) {a : Card K}
    (ha : a ∈ pageListing db projectId query) :
    CardPageQuery.Valid { query with cursor := some a.pageCursor } where
  parent := hq.parent
  tag := hq.tag
  updated _ c hc := by cases hc; rfl
  cursor c hc := by
    cases hc
    have hrow : db.cards[a.cardId]? = some a := by
      rw [pageListing, List.mem_insertionSort, List.mem_filter, mem_pageRows h] at ha
      exact ha.1.1
    exact h.named _ a hrow

theorem mem_of_mem_behind {after : κ → Card K → Bool} {rows : List (Card K)} {cursor : Option κ}
    {card : Card K} (h : card ∈ behind after rows cursor) : card ∈ rows := by
  cases cursor with
  | none => exact h
  | some c => exact List.mem_of_mem_filter h

end

/-! ## Following the cursors -/

/-- Pages of `list_collection_page`, each from the cursor of the page before. -/
def collectionPages [SortKey K] (env : Env K) (projectId : String) (query : CardPageQuery)
    (includeContent : Bool) (limit : Nat) (cursor : Option CardPageCursor) :
    StoreM K (List (Card K × String) × Option CardPageCursor) := do
  let page ← CardStore.listCollectionPage env projectId { query with cursor } limit includeContent
  return (page.cards, page.nextCursor)

/-- Pages of `list_complete_page`, each from the cursor of the page before. -/
def completePages [SortKey K] (env : Env K) (projectId : String) (limit : Nat)
    (cursor : Option String) : StoreM K (List (Card K × String) × Option String) := do
  let page ← CardStore.listCompletePage env projectId cursor limit
  return (page.cards, page.nextCursor)

/-- Pages of `list_recent_page`, each from the last card of the page before, up to an empty one. -/
def recentPages (projectId : String) (limit : Nat) (cursor : Option (Int × String)) :
    StoreM K (List (Card K) × Option (Int × String)) := do
  let cards ← fromExcept (CardRepo.listRecentPage (← get).db projectId (cursor.map (·.1))
    (cursor.map (·.2)) limit)
  return (cards, cards.getLast?.map fun last => (last.updatedAt, last.cardId))

section
variable [SortKey K] {env : Env K} {w : World K} {projectId : String} {query : CardPageQuery}

/-- A card of a page as `list_collection_page` reads it. -/
def readEntry (env : Env K) (includeContent : Bool) (card : Card K) : StoreM K (Card K × String) :=
  if includeContent then CardStore.pageEntry env card else return (card, "")

theorem pageEntry_ok {card : Card K} {content : String}
    (h : CardStore.readCardContentLocked env card w = .ok (some content) w) :
    CardStore.pageEntry env card w = .ok (card, content) w := by
  rw [CardStore.pageEntry, bind_eq_of_ok h]
  rfl

theorem requireProject_ok (hproj : projectId = env.project.projectId) (hj : w.journal = none) :
    CardStore.requireProject env projectId w = .ok () w := by
  simp [CardStore.requireProject, hproj, hj, bind, EStateM.bind, get, getThe, MonadStateOf.get,
    EStateM.get, pure, EStateM.pure]

/-- One page of cards, with the bodies if they are asked for. -/
theorem collectionPages_ok (h : w.db.Listable) {cursor : Option CardPageCursor}
    (hq : CardPageQuery.Valid { query with cursor }) {limit : Nat} (hl : 1 ≤ limit ∧ limit ≤ 1000)
    {includeContent : Bool} {content : Card K → String}
    (hproj : includeContent = true → projectId = env.project.projectId ∧ w.journal = none)
    (hread : ∀ card ∈ behind query.order.after (pageListing w.db projectId query) cursor,
      readEntry env includeContent card w = .ok (card, content card) w) :
    ∃ rows next, collectionPages env projectId query includeContent limit cursor w =
        .ok (rows.map fun card => (card, content card), next) w ∧
      PageOf Card.pageCursor limit
        (behind query.order.after (pageListing w.db projectId query) cursor) rows next := by
  refine ⟨_, _, ?_, pageOf_lookAhead _ hl.1⟩
  have hrows : fromExcept (CardRepo.listCollectionPage w.db projectId { query with cursor }
      (limit + 1)) w = .ok ((behind query.order.after (pageListing w.db projectId query)
        cursor).take (limit + 1)) w := by
    rw [listCollectionPage_eq h hq (by omega)]
    rfl
  generalize behind query.order.after (pageListing w.db projectId query) cursor = rows at hread hrows ⊢
  have hentries : ((rows.take (limit + 1)).take limit).mapM (readEntry env includeContent) w =
      .ok (((rows.take (limit + 1)).take limit).map fun card => (card, content card)) w :=
    mapM_eq_ok fun card hc => hread card (List.mem_of_mem_take (List.mem_of_mem_take hc))
  have hread : CardStore.readCollectionPage env projectId { query with cursor } limit includeContent
      w = .ok ⟨((rows.take (limit + 1)).take limit).map fun card => (card, content card),
        (if limit < (rows.take (limit + 1)).length then
          ((rows.take (limit + 1)).take limit).getLast? else none).map Card.pageCursor⟩ w := by
    rw [CardStore.readCollectionPage, bind_eq_of_ok (m := get) (s := w) rfl, bind_eq_of_ok hrows]
    change (List.mapM (readEntry env includeContent) ((rows.take (limit + 1)).take limit) >>= _) w = _
    rw [bind_eq_of_ok hentries]
    rfl
  have hcall : CardStore.listCollectionPage env projectId { query with cursor } limit includeContent
      w = CardStore.readCollectionPage env projectId { query with cursor } limit includeContent w := by
    rw [CardStore.listCollectionPage, if_neg (by omega)]
    cases includeContent with
    | false => rfl
    | true =>
      obtain ⟨hp, hj⟩ := hproj rfl
      exact bind_eq_of_ok (requireProject_ok hp hj)
  rw [collectionPages, bind_eq_of_ok (hcall.trans hread)]
  split <;> rfl

theorem collectionPages_all (h : w.db.Listable) (hq : query.Valid) {includeContent : Bool}
    {content : Card K → String}
    (hproj : includeContent = true → projectId = env.project.projectId ∧ w.journal = none)
    (hread : ∀ card ∈ behind query.order.after (pageListing w.db projectId query) query.cursor,
      readEntry env includeContent card w = .ok (card, content card) w)
    {limits : List Nat} (hlimits : ∀ limit ∈ limits, 1 ≤ limit ∧ limit ≤ 1000)
    (hlen : (behind query.order.after (pageListing w.db projectId query) query.cursor).length <
      limits.length) :
    follow (collectionPages env projectId query includeContent) limits query.cursor w =
      .ok (some ((behind query.order.after (pageListing w.db projectId query) query.cursor).map
        fun card => (card, content card))) w := by
  refine (keyset_pageCursor query.order).follow_eq (pageListing_pairwise h query)
    (fun limit hlimit c hc => ?_) (fun limit hlimit => (hlimits limit hlimit).1) hlen
  rcases hc with rfl | ⟨a, ha, rfl⟩
  · exact collectionPages_ok h hq (hlimits limit hlimit) hproj hread
  · exact collectionPages_ok h (hq.next h (mem_of_mem_behind ha)) (hlimits limit hlimit) hproj
      fun card hcard => hread card (mem_behind_of_behind ha hcard)

theorem completePages_ok (h : w.db.Listable) {content : Card K → String}
    (hproj : projectId = env.project.projectId) (hj : w.journal = none) {cursor : Option String}
    (hc : ∀ id ∈ cursor, id ≠ "") {limit : Nat} (hl : 1 ≤ limit)
    (hread : ∀ card ∈ pageListing w.db projectId {},
      CardStore.pageEntry env card w = .ok (card, content card) w) :
    ∃ rows next, completePages env projectId limit cursor w =
        .ok (rows.map fun card => (card, content card), next) w ∧
      PageOf (·.cardId) limit (behind (fun id => CardPageOrder.cardIdAsc.after ⟨id, none⟩)
        (pageListing w.db projectId {}) cursor) rows next := by
  refine ⟨_, _, ?_, pageOf_lookAhead _ hl⟩
  have hq : CardPageQuery.Valid { cursor := cursor.map fun cardId => ⟨cardId, none⟩ } := by
    refine ⟨by simp, fun c hcur => ?_, by simp, by simp⟩
    obtain ⟨id, hid, rfl⟩ := Option.map_eq_some_iff.mp hcur
    exact hc id hid
  have hcursor : cursor.filter (!·.isEmpty) = cursor := by
    cases cursor with
    | none => rfl
    | some id => simp [Option.filter, hc id rfl]
  have hrows : fromExcept (CardRepo.listPageByCardId w.db projectId cursor (limit + 1)) w =
      .ok ((behind (fun id => CardPageOrder.cardIdAsc.after ⟨id, none⟩)
        (pageListing w.db projectId {}) cursor).take (limit + 1)) w := by
    rw [CardRepo.listPageByCardId, hcursor, listCollectionPage_eq h hq (by omega), behind_map]
    rfl
  have hmem : ∀ card ∈ behind (fun id => CardPageOrder.cardIdAsc.after ⟨id, none⟩)
      (pageListing w.db projectId {}) cursor, card ∈ pageListing w.db projectId {} :=
    fun card => mem_of_mem_behind
  generalize behind (fun id => CardPageOrder.cardIdAsc.after ⟨id, none⟩)
    (pageListing w.db projectId {}) cursor = rows at hrows hmem ⊢
  have hentries : ((rows.take (limit + 1)).take limit).mapM (CardStore.pageEntry env) w =
      .ok (((rows.take (limit + 1)).take limit).map fun card => (card, content card)) w :=
    mapM_eq_ok fun card hcard =>
      hread card (hmem card (List.mem_of_mem_take (List.mem_of_mem_take hcard)))
  have hcall : CardStore.listCompletePage env projectId cursor limit w =
      .ok ⟨((rows.take (limit + 1)).take limit).map fun card => (card, content card),
        (if limit < (rows.take (limit + 1)).length then
          ((rows.take (limit + 1)).take limit).getLast? else none).map (·.cardId)⟩ w := by
    rw [CardStore.listCompletePage, if_neg (by omega)]
    change (CardStore.requireProject env projectId >>= _) w = _
    rw [bind_eq_of_ok (requireProject_ok hproj hj), bind_eq_of_ok (m := get) (s := w) rfl,
      bind_eq_of_ok hrows]
    change (List.mapM (CardStore.pageEntry env) ((rows.take (limit + 1)).take limit) >>= _) w = _
    rw [bind_eq_of_ok hentries]
    rfl
  rw [completePages, bind_eq_of_ok hcall]
  split <;> rfl

theorem completePages_all (h : w.db.Listable) {content : Card K → String}
    (hproj : projectId = env.project.projectId) (hj : w.journal = none)
    (hread : ∀ card ∈ pageListing w.db projectId {},
      CardStore.pageEntry env card w = .ok (card, content card) w)
    {limits : List Nat} (hlimits : ∀ limit ∈ limits, 1 ≤ limit)
    (hlen : (pageListing w.db projectId {}).length < limits.length) :
    follow (completePages env projectId) limits none w =
      .ok (some ((pageListing w.db projectId {}).map fun card => (card, content card))) w := by
  have hkey : Keyset (fun (id : String) (c : Card K) => CardPageOrder.cardIdAsc.after ⟨id, none⟩ c)
      (·.cardId) := (keyset_pageCursor .cardIdAsc).comap (g := fun id => ⟨id, none⟩) fun _ _ => rfl
  have hl : (pageListing w.db projectId {}).Pairwise
      fun a b => CardPageOrder.cardIdAsc.after ⟨a.cardId, none⟩ b = true := pageListing_pairwise h {}
  refine hkey.follow_eq hl (fun limit hlimit c hc => ?_)
    hlimits hlen
  refine completePages_ok h hproj hj (fun id hid => ?_) (hlimits limit hlimit) hread
  rcases hc with rfl | ⟨a, ha, rfl⟩
  · cases hid
  · have hnext := CardPageQuery.Valid.next ⟨by simp, by simp, by simp, by simp⟩ h ha
    cases hid
    exact hnext.cursor _ rfl

omit [SortKey K] in
theorem recentPages_ok (h : w.db.Listable) {cursor : Option (Int × String)}
    (hc : ∀ c ∈ cursor, c.2 ≠ "") {limit : Nat} (hl : 1 ≤ limit) :
    ∃ rows next, recentPages projectId limit cursor w = .ok (rows, next) w ∧
      PageOf (fun c => (c.updatedAt, c.cardId)) limit
        (behind (fun c => CardPageOrder.updatedDesc.after ⟨c.2, some c.1⟩)
          (pageListing w.db projectId { order := .updatedDesc }) cursor) rows next := by
  refine ⟨_, _, ?_, pageOf_lastRow _ hl⟩
  have hq : CardPageQuery.Valid
      { order := .updatedDesc, cursor := cursor.map fun c => ⟨c.2, some c.1⟩ } := by
    refine ⟨by simp, fun c hcur => ?_, fun _ c hcur => ?_, by simp⟩
    · obtain ⟨c', hc', rfl⟩ := Option.map_eq_some_iff.mp hcur
      exact hc c' hc'
    · obtain ⟨c', hc', rfl⟩ := Option.map_eq_some_iff.mp hcur
      rfl
  have hpage : CardRepo.listRecentPage w.db projectId (cursor.map (·.1)) (cursor.map (·.2)) limit =
      CardRepo.listCollectionPage w.db projectId
        { order := .updatedDesc, cursor := cursor.map fun c => ⟨c.2, some c.1⟩ } limit := by
    cases cursor with
    | none => rfl
    | some c => simp [CardRepo.listRecentPage, Option.filter, hc c rfl]
  have hrows : fromExcept (CardRepo.listRecentPage w.db projectId (cursor.map (·.1))
      (cursor.map (·.2)) limit) w =
      .ok ((behind (fun c => CardPageOrder.updatedDesc.after ⟨c.2, some c.1⟩)
        (pageListing w.db projectId { order := .updatedDesc }) cursor).take limit) w := by
    rw [hpage, listCollectionPage_eq h hq (by omega), behind_map]
    rfl
  rw [recentPages, bind_eq_of_ok (m := get) (s := w) rfl, bind_eq_of_ok hrows]
  rfl

omit [SortKey K] in
theorem recentPages_all (h : w.db.Listable) {limits : List Nat}
    (hlimits : ∀ limit ∈ limits, 1 ≤ limit)
    (hlen : (pageListing w.db projectId { order := .updatedDesc }).length < limits.length) :
    follow (recentPages projectId) limits none w =
      .ok (some (pageListing w.db projectId { order := .updatedDesc })) w := by
  have hkey : Keyset (fun (k : Int × String) (c : Card K) =>
      CardPageOrder.updatedDesc.after ⟨k.2, some k.1⟩ c) (fun c => (c.updatedAt, c.cardId)) :=
    (keyset_pageCursor .updatedDesc).comap (g := fun k : Int × String => ⟨k.2, some k.1⟩)
      fun _ _ => rfl
  have hl : (pageListing w.db projectId { order := .updatedDesc }).Pairwise
      fun a b => CardPageOrder.updatedDesc.after ⟨a.cardId, some a.updatedAt⟩ b = true :=
    pageListing_pairwise h { order := .updatedDesc }
  have hpage : ∀ limit ∈ limits, ∀ c, c = none ∨ (∃ a ∈ behind (fun (k : Int × String) (c : Card K) =>
      CardPageOrder.updatedDesc.after ⟨k.2, some k.1⟩ c)
        (pageListing w.db projectId { order := .updatedDesc }) none, c = some (a.updatedAt, a.cardId)) →
      ∃ rows next, recentPages projectId limit c w = .ok (rows.map id, next) w ∧
        PageOf (fun c => (c.updatedAt, c.cardId)) limit
          (behind (fun c => CardPageOrder.updatedDesc.after ⟨c.2, some c.1⟩)
            (pageListing w.db projectId { order := .updatedDesc }) c) rows next := by
    intro limit hlimit c hc
    have hid : ∀ k ∈ c, k.2 ≠ "" := by
      rintro k hk
      rcases hc with rfl | ⟨a, ha, rfl⟩
      · cases hk
      · have hnext := CardPageQuery.Valid.next ⟨by simp, by simp, by simp, by simp⟩ h ha
        cases hk
        exact hnext.cursor _ rfl
    simpa only [List.map_id] using recentPages_ok h hid (hlimits limit hlimit)
  have hall := hkey.follow_eq hl hpage hlimits hlen
  rwa [List.map_id] at hall

/-- Following the cursors of a page query lists the cards it asks for, each once and in its order,
whatever the limits; the listings of the whole project by id and by last update do the same. Where
a listing returns the bodies, the files of its cards have to be readable. -/
theorem cardPages_complete (h : w.db.Listable) (hq : query.Valid) :
    ∃ cards, query.Lists w.db projectId cards ∧ ∀ limits : List Nat,
      (∀ limit ∈ limits, 1 ≤ limit ∧ limit ≤ 1000) → cards.length < limits.length →
      follow (collectionPages env projectId query false) limits query.cursor w =
        .ok (some (cards.map fun card => (card, ""))) w ∧
      (query = { order := .updatedDesc } →
        follow (recentPages projectId) limits none w = .ok (some cards) w) ∧
      (w.journal = none → projectId = env.project.projectId → ∀ content : Card K → String,
        (∀ card ∈ cards,
          CardStore.readCardContentLocked env card w = .ok (some (content card)) w) →
        follow (collectionPages env projectId query true) limits query.cursor w =
          .ok (some (cards.map fun card => (card, content card))) w ∧
        (query = {} → follow (completePages env projectId) limits none w =
          .ok (some (cards.map fun card => (card, content card))) w)) := by
  refine ⟨_, pageListing_lists h, fun limits hlimits hlen => ⟨?_, ?_, ?_⟩⟩
  · exact collectionPages_all h hq (by simp) (fun card _ => rfl) hlimits hlen
  · rintro rfl
    exact recentPages_all h (fun limit hlimit => (hlimits limit hlimit).1) hlen
  · intro hj hproj content hread
    have hentry : ∀ card ∈ behind query.order.after (pageListing w.db projectId query) query.cursor,
        readEntry env true card w = .ok (card, content card) w :=
      fun card hcard => pageEntry_ok (hread card hcard)
    refine ⟨collectionPages_all h hq (fun _ => ⟨hproj, hj⟩) hentry hlimits hlen, ?_⟩
    rintro rfl
    exact completePages_all h hproj hj hentry (fun limit hlimit => (hlimits limit hlimit).1) hlen

end

/-! ## A project of two cards -/

/-- Two cards that were changed at the same time. -/
def pagedCards : World ℚ :=
  runCalls (plainEnv fun _ => ["a"]) World.empty
    [.create (plainCard "aaaa" "a" none 1) "text" none, .create (plainCard "bbbb" "b" none 1) "text" none]

theorem Db.Listable.of_rows {db : Db K}
    (hcards : ∀ row ∈ db.cards.toList, row.2.cardId = row.1 ∧ row.1 ≠ "")
    (htags : ∀ row ∈ db.cardTags.toList, row.1 = row.2.key) : db.Listable where
  keyed id c hc := (hcards (id, c) (Std.ExtTreeMap.mem_toList_iff_getElem?_eq_some.mpr hc)).1
  named id c hc := (hcards (id, c) (Std.ExtTreeMap.mem_toList_iff_getElem?_eq_some.mpr hc)).2
  tagsKeyed key t ht := htags (key, t) (Std.ExtTreeMap.mem_toList_iff_getElem?_eq_some.mpr ht)

theorem readCardContentLocked_ok [SortKey K] {env : Env K} {w : World K} {card : Card K}
    {raw plain : Bytes} (hpath : CardStore.checkRelPath card = .ok ())
    (hraw : w.repo.work[card.relPath]? = some raw) (hplain : decodeCardBlob env raw = .ok plain) :
    CardStore.readCardContentLocked env card w = .ok (some (parseCardFile env.yaml plain).body) w := by
  have hcheck : fromExcept (CardStore.checkRelPath card) w = .ok () w := by rw [hpath]; rfl
  have hdecode : fromExcept (decodeCardBlob env raw) w = .ok plain w := by rw [hplain]; rfl
  have hfile : CardStore.existingCardFile env card.relPath w =
      .ok (some (parseCardFile env.yaml plain)) w := by
    rw [CardStore.existingCardFile, bind_eq_of_ok (m := get) (s := w) rfl, hraw]
    change (fromExcept (decodeCardBlob env raw) >>= _) w = _
    rw [bind_eq_of_ok hdecode]
    rfl
  rw [CardStore.readCardContentLocked, bind_eq_of_ok hcheck, bind_eq_of_ok hfile]
  rfl

/-- Every card of a state has a readable file with this body. -/
def allReadable [SortKey K] (env : Env K) (w : World K) (body : String) : Bool :=
  w.db.cards.rows.all fun card => (CardStore.checkRelPath card).isOk &&
    w.repo.work[card.relPath]?.any fun raw => match decodeCardBlob env raw with
      | .ok plain => (parseCardFile env.yaml plain).body == body
      | .error _ => false

theorem allReadable.content [SortKey K] {env : Env K} {w : World K} {body : String} {card : Card K}
    (h : allReadable env w body = true) (hc : w.db.cards[card.cardId]? = some card) :
    CardStore.readCardContentLocked env card w = .ok (some body) w := by
  have hcard := List.all_eq_true.mp h card (Map.mem_rows.mpr ⟨_, hc⟩)
  rw [Bool.and_eq_true] at hcard
  obtain ⟨hpath, hread⟩ := hcard
  obtain ⟨raw, hraw, hbody⟩ := (Option.any_eq_true _ _).mp hread
  have hcheck : CardStore.checkRelPath card = .ok () := by
    cases hp : CardStore.checkRelPath card with
    | error e => rw [hp] at hpath; cases hpath
    | ok u => rfl
  split at hbody
  · next plain hplain => rw [readCardContentLocked_ok hcheck hraw hplain, beq_iff_eq.mp hbody]
  · cases hbody

theorem pagedCards_listable : pagedCards.db.Listable := by
  have hrows : (∀ row ∈ pagedCards.db.cards.toList, row.2.cardId = row.1 ∧ row.1 ≠ "") ∧
      ∀ row ∈ pagedCards.db.cardTags.toList, row.1 = row.2.key := by decide +kernel
  exact .of_rows hrows.1 hrows.2

theorem pagedCards_pages :
    ∃ cards, CardPageQuery.Lists {} pagedCards.db "home" cards ∧ ∀ limits : List Nat,
      (∀ limit ∈ limits, 1 ≤ limit ∧ limit ≤ 1000) → cards.length < limits.length →
        follow (completePages (plainEnv fun _ => ["a"]) "home") limits none pagedCards =
          .ok (some (cards.map fun card => (card, "text"))) pagedCards := by
  have hstate : pagedCards.journal.isNone = true ∧
      allReadable (plainEnv fun _ => ["a"]) pagedCards "text" = true := by decide +kernel
  obtain ⟨cards, hlists, hpages⟩ := cardPages_complete
    pagedCards_listable (⟨by simp, by simp, by simp, by simp⟩ : CardPageQuery.Valid {})
  refine ⟨cards, hlists, fun limits hlimits hlen => ?_⟩
  obtain ⟨-, -, hcontent⟩ := hpages limits hlimits hlen
  refine (hcontent (Option.isNone_iff_eq_none.mp hstate.1) rfl (fun _ => "text") ?_).2 rfl
  intro card hcard
  exact allReadable.content hstate.2 ((hlists.mem card).mp hcard).row

/-- The file of the first card is gone. -/
def lostFile : World ℚ :=
  { pagedCards with repo := { pagedCards.repo with work := pagedCards.repo.work.erase (livePath "aaaa") } }

/-- The pages with bodies stop at a live card whose file is missing. -/
theorem completePages_lost_file :
    lostFile.db.Listable ∧ lostFile.journal = none ∧
      (∃ card, CardPageQuery.Matches {} lostFile.db "home" card ∧ card.cardId = "aaaa") ∧
      ∃ w', follow (completePages (plainEnv fun _ => ["a"]) "home") [1, 1, 1] none lostFile =
        .error (.runtimeError "card content missing: aaaa") w' := by
  have hstate : lostFile.journal.isNone = true ∧
      (lostFile.db.cards["aaaa"]?.any fun c => c.cardId == "aaaa" && c.projectId == "home" && c.live) =
        true ∧
      (match follow (completePages (plainEnv fun _ => ["a"]) "home") [1, 1, 1] none lostFile with
        | .error e _ => e == .runtimeError "card content missing: aaaa"
        | .ok _ _ => false) = true := by decide +kernel
  obtain ⟨hj, hcard, hrun⟩ := hstate
  obtain ⟨card, hc, hcard⟩ := (Option.any_eq_true _ _).mp hcard
  simp only [Bool.and_eq_true, beq_iff_eq, Card.live_iff] at hcard
  obtain ⟨⟨hid, hproj⟩, hlive⟩ := hcard
  refine ⟨pagedCards_listable, Option.isNone_iff_eq_none.mp hj,
    ⟨card, ⟨hid ▸ hc, hproj, hlive, rfl, by simp, by simp⟩, hid⟩, ?_⟩
  split at hrun
  · next e w' he => exact ⟨w', by rw [he, beq_iff_eq.mp hrun]⟩
  · cases hrun

end HolderCore
