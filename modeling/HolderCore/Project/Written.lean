import HolderCore.Project.Mirrored

/-! # Trees that stores wrote

A tree whose card files were each written by a store, on this device or another. A rebuild accepts
such a tree exactly when every parent is there, up to a root, and no two live cards state one
milestone, and then the rows mirror the files. -/

namespace HolderCore

/-- The card files of a tree are texts of the records, one for each card. -/
structure Written (env : Env K) (work : Tree) (rec : String → Option (CardRecord K)) : Prop where
  id : ∀ id r, rec id = some r → r.card.cardId = id
  kept : ∀ id r, rec id = some r → r.Kept env
  filed : ∀ id r, rec id = some r → r.Filed env work
  only : ∀ path isTrash, CardFile isTrash path → path ∈ work →
    ∃ id r, rec id = some r ∧ r.card.deletedAt.isSome = isTrash ∧ path = cardPathOf isTrash id

/-- The parent that the record of each card names. -/
def parentsOf (rec : String → Option (CardRecord K)) (id : String) : Option (Option String) :=
  (rec id).map (·.card.parentCardId)

/-- Every parent is there, up to a root, and no two live cards state one milestone. -/
structure Joinable (rec : String → Option (CardRecord K)) : Prop where
  rooted : AllRooted (parentsOf rec)
  milestones : ∀ id r id' r', rec id = some r → rec id' = some r' → r.card.deletedAt = none →
    r'.card.deletedAt = none → ∀ m ∈ r.milestones, ∀ m' ∈ r'.milestones,
    m.milestoneId = m'.milestoneId → id = id'

/-- The records under the times of the last edit that a rebuild reads. -/
def timed (time : String → Int) (rec : String → Option (CardRecord K)) (id : String) :
    Option (CardRecord K) :=
  (rec id).map fun r => { r with card := { r.card with updatedAt := time id } }

section
variable {rec : String → Option (CardRecord K)} {time : String → Int} {id : String} {r : CardRecord K}

theorem timed_of (h : rec id = some r) :
    timed time rec id = some { r with card := { r.card with updatedAt := time id } } := by
  rw [timed, h, Option.map_some]

theorem timed_eq_some : timed time rec id = some r ↔
    ∃ r0, rec id = some r0 ∧ r = { r0 with card := { r0.card with updatedAt := time id } } := by
  rw [timed, Option.map_eq_some_iff]
  exact exists_congr fun _ => and_congr_right fun _ => eq_comm

theorem parentsOf_timed : parentsOf (timed time rec) = parentsOf rec := by
  funext id
  rw [parentsOf, timed, Option.map_map]
  rfl

end

section
variable [NatCast K] {env : Env K} {work : Tree} {rec : String → Option (CardRecord K)}
  {time : String → Int}

/-- What a rebuild loads of the files. -/
theorem Written.loaded (h : Written env work rec) (henv : env.Lawful) :
    ∃ time : String → Int, ∀ id r, timed time rec id = some r → CardFileOf env work r := by
  have hfile : ∀ id : String, ∃ updatedAt : Int, ∀ r, rec id = some r →
      CardFileOf env work { r with card := { r.card with updatedAt } } := by
    intro id
    cases hr : rec id with
    | none => exact ⟨0, by simp⟩
    | some r =>
      obtain ⟨updatedAt, hfile⟩ := (h.filed id r hr).fileOf henv (h.kept id r hr)
      refine ⟨updatedAt, fun r' hr' => ?_⟩
      rw [← Option.some.inj hr']
      exact hfile
  choose time htime using hfile
  refine ⟨time, fun id r hr => ?_⟩
  obtain ⟨r0, hr0, rfl⟩ := timed_eq_some.mp hr
  exact htime id r0 hr0

theorem Written.filesAre (h : Written env work rec)
    (htime : ∀ id r, timed time rec id = some r → CardFileOf env work r)
    (hrooted : AllRooted (parentsOf rec)) : FilesAre env work (timed time rec) := by
  refine ⟨fun id r hr => ?_, htime, fun path isTrash hfile hmem => ?_, fun id r hr => ?_,
    fun id r hr => ?_, ?_⟩
  · obtain ⟨r0, hr0, rfl⟩ := timed_eq_some.mp hr
    exact h.id id r0 hr0
  · obtain ⟨id, r, hr, hrest⟩ := h.only path isTrash hfile hmem
    exact ⟨id, _, timed_of hr, hrest⟩
  · obtain ⟨r0, hr0, rfl⟩ := timed_eq_some.mp hr
    exact (h.kept id r0 hr0).tags
  · obtain ⟨r0, hr0, rfl⟩ := timed_eq_some.mp hr
    exact (h.kept id r0 hr0).milestoneIds
  · change AllRooted (parentsOf (timed time rec))
    rw [parentsOf_timed]
    exact hrooted

/-- The records that a rebuild loaded are those that were written. -/
theorem Written.recordIn (h : Written env work rec)
    (htime : ∀ id r, timed time rec id = some r → CardFileOf env work r)
    {records : List (CardRecord K)} {db : Db K} (hp : Projected env work records db) :
    HolderCore.recordIn records = timed time rec := by
  have hfiles := hp.filesAre
  have hid : ∀ {id r}, timed time rec id = some r → r.card.cardId = id := by
    intro id r hr
    obtain ⟨r0, hr0, rfl⟩ := timed_eq_some.mp hr
    exact h.id id r0 hr0
  have hsome : ∀ {id r}, timed time rec id = some r → HolderCore.recordIn records id = some r := by
    intro id r hr
    obtain ⟨r0, hr0, he⟩ := timed_eq_some.mp hr
    have hvalid : isValidUuid r.card.cardId = true := by
      rw [he]
      exact (h.kept id r0 hr0).valid
    obtain ⟨raw, hraw, hload⟩ := (htime id r hr).load
    rw [← hid hr]
    exact (hfiles.record_iff r).mp ⟨_, _, raw, cardFile_cardPathOf _ hvalid, hraw, hload⟩
  funext id
  refine Option.ext fun r => ⟨fun hr => ?_, hsome⟩
  obtain ⟨hloaded, hvalid⟩ := hfiles.loaded hr
  obtain ⟨raw, hraw, -⟩ := (hfiles.file id r hr).load
  rw [hfiles.id id r hr] at hraw
  obtain ⟨id', r0, hr0, -, hpath⟩ := h.only _ _ (cardFile_cardPathOf _ hvalid) (Map.mem_iff.mpr ⟨raw, hraw⟩)
  have hid' : id = id' := by
    refine (cardPathOf_cardPath r.card.deletedAt.isSome id).inj ?_ ?_ (hpath ▸ cardPathOf_cardPath _ _)
    · rw [← hfiles.id id r hr]
      exact hloaded.length
    · rw [← h.id id' r0 hr0]
      exact (h.kept id' r0 hr0).length
  rw [← hid'] at hr0
  have hr' := hsome (timed_of hr0)
  rw [hr, Option.some.injEq] at hr'
  rw [hr']
  exact timed_of hr0

/-- A rebuild reads the records where it accepts the tree, and it accepts it when they go together. -/
theorem Written.projection_iff (h : Written env work rec) (henv : env.Lawful) :
    ∃ time : String → Int, ((∃ db, projection env work = .ok db) ↔ Joinable rec) ∧
      ∀ db, projection env work = .ok db → RowsAre env db (timed time rec) := by
  obtain ⟨time, htime⟩ := h.loaded henv
  have hrows : ∀ db, projection env work = .ok db → Joinable rec ∧ RowsAre env db (timed time rec) := by
    intro db hdb
    obtain ⟨records, hp⟩ := projection_ok henv.directory hdb
    have hrec := h.recordIn htime hp
    have hfiles := hp.filesAre
    have hrows := hp.rowsAre (SameRows.refl db)
    rw [hrec] at hfiles hrows
    refine ⟨⟨?_, fun id r id' r' hr hr' hlive hlive' m hm m' hm' he => ?_⟩, hrows⟩
    · rw [← parentsOf_timed]
      exact hfiles.rooted
    · have hid := h.id id r hr
      have hid' := h.id id' r' hr'
      obtain ⟨s, hs⟩ : ∃ s, s = { r with card := { r.card with updatedAt := time id } } := ⟨_, rfl⟩
      obtain ⟨s', hs'⟩ : ∃ s, s = { r' with card := { r'.card with updatedAt := time id' } } := ⟨_, rfl⟩
      have ht : timed time rec s.card.cardId = some s := by
        rw [hs, hid]
        exact timed_of hr
      have ht' : timed time rec s'.card.cardId = some s' := by
        rw [hs', hid']
        exact timed_of hr'
      have hsame : s = s' := by
        refine hrows.milestone_owner hfiles ht ht' ?_ ?_ ?_ ?_ he
        · rw [hs]
          exact hlive
        · rw [hs']
          exact hlive'
        · rw [hs]
          exact hm
        · rw [hs']
          exact hm'
      rw [hs, hs'] at hsame
      have hcard := congrArg (fun r : CardRecord K => r.card.cardId) hsame
      exact hid.symm.trans (hcard.trans hid')
  refine ⟨time, ⟨fun ⟨db, hdb⟩ => (hrows db hdb).1, fun hjoin => ?_⟩, fun db hdb => (hrows db hdb).2⟩
  have hfiles := h.filesAre htime hjoin.rooted
  obtain ⟨db, hdb, -⟩ := hfiles.projection henv.directory fun r r' hr hr' hlive hlive' m hm m' hm' he => by
    obtain ⟨r0, hr0, h0⟩ := timed_eq_some.mp hr
    obtain ⟨r1, hr1, h1⟩ := timed_eq_some.mp hr'
    have hid := hjoin.milestones _ r0 _ r1 hr0 hr1 (by rw [h0] at hlive; exact hlive)
      (by rw [h1] at hlive'; exact hlive') m (by rw [h0] at hm; exact hm) m' (by rw [h1] at hm'; exact hm') he
    rw [hid, hr', Option.some.injEq] at hr
    exact hr.symm
  exact ⟨db, hdb⟩

end

section
variable {env : Env K} {w : World K} {rec : String → Option (CardRecord K)} {time : String → Int}

/-- The rows of the records mirror the files. -/
theorem Written.mirrored (h : Written env w.repo.work rec) (hrows : RowsAre env w.db (timed time rec)) :
    Mirrored env w := by
  refine ⟨fun id c hc => ?_, fun id hc => ?_, fun path isTrash hfile hmem => ?_, hrows.tagKeys⟩
  · have hcard := hrows.cards id
    rw [hc, Option.map_some, eq_comm, Option.map_eq_some_iff] at hcard
    obtain ⟨r, hr, -⟩ := hcard
    obtain ⟨r0, hr0, rfl⟩ := timed_eq_some.mp hr
    have hslice := hrows.slice id
    rw [hr] at hslice
    have hid := h.id id r0 hr0
    refine ⟨r0, hid, h.kept id r0 hr0, h.filed id r0 hr0, ?_⟩
    rw [hid]
    exact hslice.retimed r0.card.updatedAt
  · have hcard := hrows.cards id
    rw [hc, Option.map_none, eq_comm, Option.map_eq_none_iff] at hcard
    have hslice := hrows.slice id
    rwa [hcard] at hslice
  · obtain ⟨id, r, hr, hdel, hpath⟩ := h.only path isTrash hfile hmem
    have hcard := hrows.cards id
    rw [timed_of hr, Option.map_some, Option.map_eq_some_iff] at hcard
    obtain ⟨c, hc, he⟩ := hcard
    exact ⟨id, c, hc, by rw [(Card.of_untimed he).2.2.2.2.2.2.2]; exact hdel, hpath⟩

theorem RowsAre.up {db : Db K} (h : RowsAre env db (timed time rec)) : db.forest.up = parentsOf rec := by
  rw [← parentsOf_timed, Db.forest_up]
  funext id
  have hrow := congrArg (Option.map (·.parentCardId)) (h.cards id)
  rw [Option.map_map, Option.map_map] at hrow
  exact hrow

/-- The files of a project that mirrors them were written by stores. -/
theorem Mirrored.written (h : Mirrored env w) : ∃ rec, Written env w.repo.work rec ∧
    parentsOf rec = w.db.forest.up := by
  have hrec : ∀ id : String, ∃ r : Option (CardRecord K),
      r.map (·.card.untimed) = w.db.cards[id]?.map Card.untimed ∧
        ∀ r' ∈ r, r'.card.cardId = id ∧ Mirrors env w r' := by
    intro id
    cases hc : w.db.cards[id]? with
    | none => exact ⟨none, rfl, by simp⟩
    | some c =>
      obtain ⟨r, hid, he, hr⟩ := h.record hc
      refine ⟨some r, by rw [Option.map_some, Option.map_some, he], fun r' hr' => ?_⟩
      rw [← Option.some.inj hr']
      exact ⟨hid, hr⟩
  choose rec hcards hmirrors using hrec
  refine ⟨rec, ⟨fun id r hr => (hmirrors id r hr).1, fun id r hr => (hmirrors id r hr).2.kept,
    fun id r hr => (hmirrors id r hr).2.filed, fun path isTrash hfile hmem => ?_⟩, ?_⟩
  · obtain ⟨id, c, hc, hdel, hpath⟩ := h.files path isTrash hfile hmem
    have hcard := hcards id
    rw [hc, Option.map_some, Option.map_eq_some_iff] at hcard
    obtain ⟨r, hr, he⟩ := hcard
    exact ⟨id, r, hr, by rw [(Card.of_untimed he).2.2.2.2.2.2.2]; exact hdel, hpath⟩
  · rw [Db.forest_up]
    funext id
    have hrow := congrArg (Option.map (·.parentCardId)) (hcards id)
    rw [Option.map_map, Option.map_map] at hrow
    exact hrow

end

end HolderCore
