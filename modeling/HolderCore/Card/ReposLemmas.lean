import HolderCore.Card.Repos

/-! # What the statements can do

One specification for each statement of the card tables. The statements on links, tags, milestones
and the full-text index leave the cards alone, whether they throw or not. -/

namespace HolderCore

/-- Statements that change no row of `cards`, whether they return or throw. -/
def KeepsCards (m : DbM K α) : Prop := ∀ cards, Keeps (fun db => db.cards = cards) m

/-! ## CardRepo -/

namespace CardRepo

theorem create_ends (card : Card K) (db : Db K) :
    Ends (create card) db
      (fun _ db' => db.cards[card.cardId]? = none ∧ relPathFree db card = true ∧
        parentExists db card = true ∧
        db' = { db with cards := db.cards.insert card.cardId card })
      fun _ db' => db' = db ∧ ¬(db.cards[card.cardId]? = none ∧ relPathFree db card = true ∧
        parentExists db card = true) := by
  unfold create
  simp only [Ends.bind_iff, Ends.get_iff, Ends.ite_iff, Ends.throw_iff, Ends.set_iff,
    Std.ExtTreeMap.contains_iff_mem, Map.mem_iff]
  refine ⟨?_, fun hid => ⟨fun hrel => ⟨trivial, fun h => by simp [h.2.1] at hrel⟩, fun hrel =>
    ⟨fun hpar => ⟨trivial, fun h => by simp [h.2.2] at hpar⟩, fun hpar =>
    ⟨?_, by simpa using hrel, by simpa using hpar, trivial⟩⟩⟩⟩
  · rintro ⟨c, hc⟩
    exact ⟨trivial, fun h => by rw [h.1] at hc; cases hc⟩
  · exact Option.eq_none_iff_forall_ne_some.mpr fun c hc => hid ⟨c, hc⟩

theorem update_ends (what id : String) (f : Card K → Card K) (db : Db K) :
    Ends (update what id f) db
      (fun _ db' => (db.cards[id]? = none ∧ db' = db) ∨ ∃ c, db.cards[id]? = some c ∧
        relPathFree db (f c) = true ∧ parentExists db (f c) = true ∧
        db' = { db with cards := db.cards.insert id (f c) })
      fun _ db' => db' = db ∧ ∃ c, db.cards[id]? = some c ∧
        ¬(relPathFree db (f c) = true ∧ parentExists db (f c) = true) := by
  unfold update
  simp only [Ends.bind_iff, Ends.get_iff]
  cases hc : db.cards[id]? with
  | none => simp
  | some c =>
    simp only [Ends.bind_iff, Ends.ite_iff, Ends.throw_iff, Ends.set_iff]
    refine ⟨fun hrel => ⟨trivial, c, rfl, fun h => by simp [h.1] at hrel⟩, fun hrel =>
      ⟨fun hpar => ⟨trivial, c, rfl, fun h => by simp [h.2] at hpar⟩, fun hpar =>
      .inr ⟨c, rfl, ?_, ?_, rfl⟩⟩⟩
    · simpa using hrel
    · simpa using hpar

theorem remove_ends (id : String) (db : Db K) :
    Ends (remove id) db
      (fun _ db' => (db.cards[id]? = none ∧ db' = db) ∨ (∃ c, db.cards[id]? = some c) ∧
        db' = { db with
          cards := (db.cards.erase id).map fun _ (c : Card K) =>
            if c.parentCardId == some id then { c with parentCardId := none } else c
          cardTags := db.cardTags.filter fun _ t => t.cardId != id
          milestones := db.milestones.filter fun _ m => m.cardId != id })
      fun _ _ => False := by
  unfold remove
  simp only [Ends.bind_iff, Ends.get_iff, Ends.ite_iff, Ends.set_iff, Ends.pure_iff,
    Std.ExtTreeMap.contains_iff_mem]
  refine ⟨fun hmem => .inr ⟨Map.mem_iff.mp hmem, trivial⟩, fun hmem => .inl ⟨?_, trivial⟩⟩
  exact Map.not_mem_iff.mp hmem

end CardRepo

/-! ## The other tables -/

namespace LinkRepo

theorem upsertLinks_ends (projectId fromCardId : String) (links : List CardLink) (db : Db K) :
    Ends (upsertLinks projectId fromCardId links) db
      (fun _ db' => db' = { db with cardLinks := links.foldl (fun t link =>
          t.insert (storedLink link).key (storedLink link)) db.cardLinks } ∧
        ∀ link ∈ links, link.projectId = projectId ∧ link.fromCardId = fromCardId)
      fun _ db' => (∃ cardLinks, db' = { db with cardLinks }) ∧
        ¬ ∀ link ∈ links, link.projectId = projectId ∧ link.fromCardId = fromCardId := by
  induction links generalizing db with
  | nil => simp [upsertLinks]
  | cons link links ih =>
    simp only [upsertLinks, Ends.bind_iff, Ends.ite_iff, Ends.throw_iff, Ends.modify_iff]
    refine ⟨fun hmatch => ⟨⟨_, rfl⟩, fun hall => ?_⟩, fun hmatch => (ih _).mono ?_ ?_⟩
    · obtain ⟨hproj, hfrom⟩ := hall link List.mem_cons_self
      simp [hproj, hfrom] at hmatch
    · rintro - db' ⟨rfl, hall⟩
      refine ⟨rfl, fun l hl => ?_⟩
      rcases List.mem_cons.mp hl with rfl | hl
      · simpa using hmatch
      · exact hall l hl
    · rintro - db' ⟨⟨cardLinks, rfl⟩, hbad⟩
      exact ⟨⟨cardLinks, rfl⟩, fun hall => hbad fun l hl => hall l (List.mem_cons_of_mem _ hl)⟩

theorem upsertLinks_keepsCards (projectId fromCardId : String) (links : List CardLink) :
    KeepsCards (upsertLinks (K := K) projectId fromCardId links) := by
  rintro _ db rfl
  refine (upsertLinks_ends projectId fromCardId links db).mono ?_ ?_
  · rintro - db' ⟨rfl, -⟩
    rfl
  · rintro - db' ⟨⟨_, rfl⟩, -⟩
    rfl

theorem deleteLinksFrom_keepsCards (projectId fromCardId : String) :
    KeepsCards (deleteLinksFrom (K := K) projectId fromCardId) := fun _ _ h => h

theorem deleteLinksToTyped_keepsCards (projectId toCardId toType : String) :
    KeepsCards (deleteLinksToTyped (K := K) projectId toCardId toType) := fun _ _ h => h

end LinkRepo

namespace MilestoneRepo

/-- The milestones are new rows of a card that exists; anything else throws. -/
theorem insertAll_ends (projectId cardId : String) (milestones : List Milestone) (db : Db K) :
    Ends (insertAll projectId cardId milestones) db
      (fun _ db' => db' = { db with milestones :=
          (milestones.foldl (fun t m => t.insert m.milestoneId m) db.milestones) } ∧
        (∀ m ∈ milestones, m.projectId = projectId ∧ m.cardId = cardId ∧
          db.milestones[m.milestoneId]? = none) ∧
        (milestones.map (·.milestoneId)).Nodup ∧
        (milestones ≠ [] → ∃ c, db.cards[cardId]? = some c))
      fun _ db' => (∃ rows : Map String Milestone, db' = { db with milestones := rows } ∧
        ∀ (id : String) (m : Milestone), rows[id]? = some m → db.milestones[id]? = some m ∨
          m.cardId = cardId ∧ ∃ c, db.cards[cardId]? = some c) ∧
        ¬((∀ m ∈ milestones, m.projectId = projectId ∧ m.cardId = cardId ∧
            db.milestones[m.milestoneId]? = none) ∧
          (milestones.map (·.milestoneId)).Nodup ∧ ∃ c, db.cards[cardId]? = some c) := by
  induction milestones generalizing db with
  | nil => simp [insertAll]
  | cons m ms ih =>
    simp only [insertAll, Ends.bind_iff, Ends.ite_iff, Ends.throw_iff, Ends.get_iff, Ends.set_iff]
    refine ⟨fun hmatch => ⟨⟨_, rfl, fun _ _ h => .inl h⟩, ?_⟩, fun hmatch => ⟨fun hold =>
      ⟨⟨_, rfl, fun _ _ h => .inl h⟩, ?_⟩, fun hfresh => ⟨fun hcard =>
      ⟨⟨_, rfl, fun _ _ h => .inl h⟩, ?_⟩, fun hcard => ?_⟩⟩⟩
    · rintro ⟨hall, -⟩
      obtain ⟨hproj, hown, -⟩ := hall m List.mem_cons_self
      simp [hproj, hown] at hmatch
    · rintro ⟨hall, -⟩
      rw [Std.ExtTreeMap.contains_iff_mem] at hold
      exact Map.not_mem_iff.mpr (hall m List.mem_cons_self).2.2 hold
    · rintro ⟨-, -, hc⟩
      rw [Bool.not_eq_true', ← Bool.not_eq_true, Std.ExtTreeMap.contains_iff_mem] at hcard
      exact hcard (Map.mem_iff.mpr hc)
    have hmatch : m.projectId = projectId ∧ m.cardId = cardId := by simpa using hmatch
    rw [Std.ExtTreeMap.contains_iff_mem] at hfresh
    have hcard : ∃ c, db.cards[cardId]? = some c := by
      rw [Bool.not_eq_true, Bool.not_eq_false', Std.ExtTreeMap.contains_iff_mem] at hcard
      exact Map.mem_iff.mp hcard
    refine (ih _).mono ?_ ?_
    · rintro - db' ⟨rfl, hall, hnodup, -⟩
      refine ⟨rfl, fun m' hm' => ?_, ?_, fun _ => hcard⟩
      · rcases List.mem_cons.mp hm' with rfl | hm'
        · exact ⟨hmatch.1, hmatch.2, Map.not_mem_iff.mp hfresh⟩
        · obtain ⟨h1, h2, h3⟩ := hall m' hm'
          rw [Map.get_insert] at h3
          split at h3
          · cases h3
          · exact ⟨h1, h2, h3⟩
      · rw [List.map_cons, List.nodup_cons]
        refine ⟨fun hmem => ?_, hnodup⟩
        obtain ⟨m', hm', he⟩ := List.mem_map.mp hmem
        have := (hall m' hm').2.2
        rw [he, Map.get_insert, if_pos rfl] at this
        cases this
    · rintro - db' ⟨⟨rows, rfl, hrows⟩, hbad⟩
      refine ⟨⟨rows, rfl, fun id m' hm' => ?_⟩, ?_⟩
      · rcases hrows id m' hm' with h | h
        · rw [Map.get_insert] at h
          split at h
          · cases h
            exact .inr ⟨hmatch.2, hcard⟩
          · exact .inl h
        · exact .inr h
      · rintro ⟨hall, hnodup, hc⟩
        rw [List.map_cons, List.nodup_cons] at hnodup
        refine hbad ⟨fun m' hm' => ?_, hnodup.2, hc⟩
        obtain ⟨h1, h2, h3⟩ := hall m' (List.mem_cons_of_mem _ hm')
        refine ⟨h1, h2, ?_⟩
        rw [Map.get_insert_ne fun he => ?_]
        · exact h3
        · rw [he] at hnodup
          exact hnodup.1 (List.mem_map.mpr ⟨m', hm', rfl⟩)

theorem insertAll_keepsCards (projectId cardId : String) (milestones : List Milestone) :
    KeepsCards (insertAll (K := K) projectId cardId milestones) := by
  rintro _ db rfl
  refine (insertAll_ends projectId cardId milestones db).mono ?_ ?_
  · rintro - db' ⟨rfl, -⟩
    rfl
  · rintro - db' ⟨⟨_, rfl, -⟩, -⟩
    rfl

theorem deleteForCard_keepsCards (projectId cardId : String) :
    KeepsCards (deleteForCard (K := K) projectId cardId) := fun _ _ h => h

theorem replaceForCard_keepsCards (projectId cardId : String) (milestones : List Milestone) :
    KeepsCards (replaceForCard (K := K) projectId cardId milestones) :=
  fun cards => (deleteForCard_keepsCards projectId cardId cards).bind fun _ =>
    insertAll_keepsCards _ _ _ cards

/-- The rows of a card's milestones are replaced as a whole. -/
theorem replaceForCard_ends (projectId cardId : String) (milestones : List Milestone) (db : Db K)
    (hcard : ∃ c, db.cards[cardId]? = some c) :
    Ends (replaceForCard projectId cardId milestones) db
      (fun _ db' => (∀ m ∈ milestones, m.projectId = projectId ∧ m.cardId = cardId) ∧
        (milestones.map (·.milestoneId)).Nodup ∧
        (∀ m ∈ milestones, ∀ m', db.milestones[m.milestoneId]? = some m' →
          m'.projectId = projectId ∧ m'.cardId = cardId) ∧
        db' = { db with milestones := db'.milestones } ∧
        ∀ (id : String) (m : Milestone), db'.milestones[id]? = some m ↔
          (m ∈ milestones ∧ m.milestoneId = id) ∨
          db.milestones[id]? = some m ∧ ¬(m.projectId = projectId ∧ m.cardId = cardId))
      fun _ db' => (∃ rows : Map String Milestone, db' = { db with milestones := rows } ∧
        ∀ (id : String) (m : Milestone), rows[id]? = some m →
          db.milestones[id]? = some m ∨ m.cardId = cardId) ∧
        ¬((∀ m ∈ milestones, m.projectId = projectId ∧ m.cardId = cardId) ∧
          (milestones.map (·.milestoneId)).Nodup ∧
          ∀ m ∈ milestones, ∀ m', db.milestones[m.milestoneId]? = some m' →
            m'.projectId = projectId ∧ m'.cardId = cardId) := by
  have hfilter : ∀ (id : String) (m : Milestone), (db.milestones.filter fun _ m =>
      !(m.projectId == projectId && m.cardId == cardId))[id]? = some m ↔
      db.milestones[id]? = some m ∧ ¬(m.projectId = projectId ∧ m.cardId = cardId) := by
    intro id m
    rw [Map.get_filter, Option.filter_eq_some_iff]
    simp [imp_iff_not_or]
  have hfree : ∀ id : String, (db.milestones.filter fun _ m =>
      !(m.projectId == projectId && m.cardId == cardId))[id]? = none ↔
      ∀ m', db.milestones[id]? = some m' → m'.projectId = projectId ∧ m'.cardId = cardId := by
    intro id
    rw [Option.eq_none_iff_forall_ne_some]
    constructor
    · intro h m' hm'
      by_contra hne
      exact h m' ((hfilter id m').mpr ⟨hm', hne⟩)
    · intro h m' hm'
      obtain ⟨hrow, hne⟩ := (hfilter id m').mp hm'
      exact hne (h m' hrow)
  unfold replaceForCard deleteForCard
  simp only [Ends.bind_iff, Ends.modify_iff]
  refine (insertAll_ends projectId cardId milestones _).mono ?_ ?_
  · rintro - db' ⟨rfl, hall, hnodup, -⟩
    refine ⟨fun m hm => ⟨(hall m hm).1, (hall m hm).2.1⟩, hnodup,
      fun m hm => (hfree _).mp (hall m hm).2.2, rfl, fun id m => ?_⟩
    rw [Map.get_foldl_insert_nodup hnodup, hfilter]
    constructor
    · rintro (⟨m', hm', rfl, rfl⟩ | ⟨-, hrow⟩)
      · exact .inl ⟨hm', rfl⟩
      · exact .inr hrow
    · rintro (⟨hm, rfl⟩ | ⟨hrow, hne⟩)
      · exact .inl ⟨m, hm, rfl, rfl⟩
      · refine .inr ⟨fun m' hm' he => ?_, hrow, hne⟩
        exact hne ((hfree _).mp (hall m' hm').2.2 m (by rw [he]; exact hrow))
  · rintro - db' ⟨⟨rows, rfl, hrows⟩, hbad⟩
    refine ⟨⟨rows, rfl, fun id m hm => ?_⟩, ?_⟩
    · rcases hrows id m hm with h | ⟨h, -⟩
      · exact .inl ((hfilter id m).mp h).1
      · exact .inr h
    · rintro ⟨hown, hnodup, hold⟩
      exact hbad ⟨fun m hm => ⟨(hown m hm).1, (hown m hm).2, (hfree _).mpr (hold m hm)⟩, hnodup, hcard⟩

end MilestoneRepo

namespace TagRepo

/-- The tags are new rows of a card that exists; anything else throws. -/
theorem insertTags_ends (projectId cardId : String) (now : Int) (tags : List String) (db : Db K) :
    Ends (insertTags projectId cardId now tags) db
      (fun _ db' => db' = { db with cardTags := tags.foldl (fun t tag =>
          t.insert [projectId, cardId, tag] ⟨projectId, cardId, tag, now⟩) db.cardTags } ∧
        (tags ≠ [] → ∃ c, db.cards[cardId]? = some c) ∧ tags.Nodup ∧
        ∀ tag ∈ tags, db.cardTags[[projectId, cardId, tag]]? = none)
      fun _ db' => (∃ rows : Map (List String) CardTag, db' = { db with cardTags := rows } ∧
        ∀ (key : List String) (t : CardTag), rows[key]? = some t → db.cardTags[key]? = some t ∨
          t.cardId = cardId ∧ ∃ c, db.cards[cardId]? = some c) ∧
        ¬(tags.Nodup ∧ (∀ tag ∈ tags, db.cardTags[[projectId, cardId, tag]]? = none) ∧
          ∃ c, db.cards[cardId]? = some c) := by
  induction tags generalizing db with
  | nil => simp [insertTags]
  | cons tag tags ih =>
    simp only [insertTags, Ends.bind_iff, Ends.ite_iff, Ends.throw_iff, Ends.get_iff, Ends.set_iff]
    refine ⟨fun hold => ⟨⟨_, rfl, fun _ _ h => .inl h⟩, ?_⟩, fun hfresh => ⟨fun hcard =>
      ⟨⟨_, rfl, fun _ _ h => .inl h⟩, ?_⟩, fun hcard => ?_⟩⟩
    · rintro ⟨-, hall, -⟩
      rw [Std.ExtTreeMap.contains_iff_mem] at hold
      exact Map.not_mem_iff.mpr (hall tag List.mem_cons_self) hold
    · rintro ⟨-, -, hc⟩
      rw [Bool.not_eq_true', ← Bool.not_eq_true, Std.ExtTreeMap.contains_iff_mem] at hcard
      exact hcard (Map.mem_iff.mpr hc)
    rw [Std.ExtTreeMap.contains_iff_mem] at hfresh
    have hcard : ∃ c, db.cards[cardId]? = some c := by
      rw [Bool.not_eq_true, Bool.not_eq_false', Std.ExtTreeMap.contains_iff_mem] at hcard
      exact Map.mem_iff.mp hcard
    refine (ih _).mono ?_ ?_
    · rintro - db' ⟨rfl, -, hnodup, hall⟩
      refine ⟨rfl, fun _ => hcard, List.nodup_cons.mpr ⟨fun hmem => ?_, hnodup⟩, fun t ht => ?_⟩
      · have := hall tag hmem
        rw [Map.get_insert, CardTag.key, if_pos rfl] at this
        cases this
      · rcases List.mem_cons.mp ht with rfl | ht
        · exact Map.not_mem_iff.mp hfresh
        · have := hall t ht
          rw [Map.get_insert] at this
          split at this
          · cases this
          · exact this
    · rintro - db' ⟨⟨rows, rfl, hrows⟩, hbad⟩
      refine ⟨⟨rows, rfl, fun key t ht => ?_⟩, ?_⟩
      · rcases hrows key t ht with h | h
        · rw [Map.get_insert] at h
          split at h
          · cases h
            exact .inr ⟨rfl, hcard⟩
          · exact .inl h
        · exact .inr h
      · rintro ⟨hnodup, hall, hc⟩
        obtain ⟨hnew, hnodup⟩ := List.nodup_cons.mp hnodup
        refine hbad ⟨hnodup, fun t ht => ?_, hc⟩
        rw [Map.get_insert_ne]
        · exact hall t (List.mem_cons_of_mem _ ht)
        · simp only [CardTag.key, ne_eq, List.cons.injEq, and_true, true_and]
          rintro rfl
          exact hnew ht

theorem insertTags_keepsCards (projectId cardId : String) (now : Int) (tags : List String) :
    KeepsCards (insertTags (K := K) projectId cardId now tags) := by
  rintro _ db rfl
  refine (insertTags_ends projectId cardId now tags db).mono ?_ ?_
  · rintro - db' ⟨rfl, -⟩
    rfl
  · rintro - db' ⟨⟨_, rfl, -⟩, -⟩
    rfl

theorem deleteTagsForCard_keepsCards (projectId cardId : String) :
    KeepsCards (deleteTagsForCard (K := K) projectId cardId) := fun _ _ h => h

theorem setTagsForCard_keepsCards (projectId cardId : String) (tags : List String) (now : Int) :
    KeepsCards (setTagsForCard (K := K) projectId cardId tags now) :=
  fun cards => (deleteTagsForCard_keepsCards projectId cardId cards).bind fun _ =>
    insertTags_keepsCards _ _ _ _ cards

/-- The rows of a card's tags are replaced as a whole. -/
theorem setTagsForCard_ends (projectId cardId : String) (tags : List String) (now : Int) (db : Db K)
    (hkeyed : ∀ (key : List String) (t : CardTag), db.cardTags[key]? = some t → key = t.key)
    (hcard : ∃ c, db.cards[cardId]? = some c) :
    Ends (setTagsForCard projectId cardId tags now) db
      (fun _ db' => tags.Nodup ∧ db' = { db with cardTags := db'.cardTags } ∧
        ∀ (key : List String) (t : CardTag), db'.cardTags[key]? = some t ↔
          (∃ tag ∈ tags, t = ⟨projectId, cardId, tag, now⟩ ∧ key = t.key) ∨
          db.cardTags[key]? = some t ∧ ¬(t.projectId = projectId ∧ t.cardId = cardId))
      fun _ db' => (∃ rows : Map (List String) CardTag, db' = { db with cardTags := rows } ∧
        ∀ (key : List String) (t : CardTag), rows[key]? = some t →
          db.cardTags[key]? = some t ∨ t.cardId = cardId) ∧ ¬ tags.Nodup := by
  have hfilter : ∀ (key : List String) (t : CardTag), (db.cardTags.filter fun _ t =>
      !(t.projectId == projectId && t.cardId == cardId))[key]? = some t ↔
      db.cardTags[key]? = some t ∧ ¬(t.projectId = projectId ∧ t.cardId = cardId) := by
    intro key t
    rw [Map.get_filter, Option.filter_eq_some_iff]
    simp [imp_iff_not_or]
  have hfree : ∀ tag : String, (db.cardTags.filter fun _ t =>
      !(t.projectId == projectId && t.cardId == cardId))[[projectId, cardId, tag]]? = none := by
    intro tag
    refine Option.eq_none_iff_forall_ne_some.mpr fun t ht => ?_
    obtain ⟨hrow, hne⟩ := (hfilter _ t).mp ht
    have hk := hkeyed _ t hrow
    simp only [CardTag.key, List.cons.injEq, and_true] at hk
    exact hne ⟨hk.1.symm, hk.2.1.symm⟩
  unfold setTagsForCard deleteTagsForCard
  simp only [Ends.bind_iff, Ends.modify_iff]
  refine (insertTags_ends projectId cardId now tags _).mono ?_ ?_
  · rintro - db' ⟨rfl, -, hnodup, -⟩
    refine ⟨hnodup, rfl, fun key t => ?_⟩
    have hkeys : (tags.map fun tag => [projectId, cardId, tag]).Nodup :=
      hnodup.map fun a b he => by simpa using he
    rw [Map.get_foldl_insert_nodup hkeys, hfilter]
    constructor
    · rintro (⟨tag, htag, rfl, rfl⟩ | ⟨-, hrow⟩)
      · exact .inl ⟨tag, htag, rfl, rfl⟩
      · exact .inr hrow
    · rintro (⟨tag, htag, rfl, rfl⟩ | ⟨hrow, hne⟩)
      · exact .inl ⟨tag, htag, rfl, rfl⟩
      · refine .inr ⟨fun tag _ he => ?_, hrow, hne⟩
        have hk := hkeyed key t hrow
        rw [← he] at hk
        simp only [CardTag.key, List.cons.injEq, and_true] at hk
        exact hne ⟨hk.1.symm, hk.2.1.symm⟩
  · rintro - db' ⟨⟨rows, rfl, hrows⟩, hbad⟩
    refine ⟨⟨rows, rfl, fun key t ht => ?_⟩, fun hnodup => hbad ⟨hnodup, fun tag _ => hfree tag, hcard⟩⟩
    rcases hrows key t ht with h | ⟨h, -⟩
    · exact .inl ((hfilter key t).mp h).1
    · exact .inr h

end TagRepo

namespace FtsIndexer

theorem upsertCard_keepsCards (cardId projectId title body : String) :
    KeepsCards (upsertCard (K := K) cardId projectId title body) := fun _ _ h => h

end FtsIndexer

end HolderCore
