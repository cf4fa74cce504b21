import HolderCore.Card.Commits
import HolderCore.Project.Reload

/-! # Files that mirror the rows

A project whose card files were all written by the store: each card's file holds the card's row, its
links and its milestones, and the tags are those of its body. Such a project is in step
(`Mirrored.inSync`), and it stays so when the rows and the file of every card that was touched are
those of one record again (`Mirrored.step`). -/

namespace HolderCore

/-- A record that comes back from a file as it is, wherever the file lies. -/
structure CardRecord.Kept (env : Env K) (r : CardRecord K) : Prop where
  valid : isValidUuid r.card.cardId = true
  project : r.card.projectId = env.project.projectId
  path : r.card.relPath = livePath r.card.cardId
  title : r.card.title ≠ ""
  created : 0 < r.card.createdAt
  links : ∀ link ∈ r.links, link.Fits r.card
  milestones : ∀ milestone ∈ r.milestones, milestone.Fits r.card
  tags : r.card.deletedAt = none → (env.extractTags r.body).Nodup
  milestoneIds : r.card.deletedAt = none → (r.milestones.map (·.milestoneId)).Nodup

/-- A text of the record's file. The path in it and the time of the last edit are those of the
write. -/
def CardRecord.IsText (env : Env K) (r : CardRecord K) (plain : Bytes) : Prop :=
  ∃ relPath updatedAt, plain = renderCardFrontMatter env.yaml { r.card with relPath, updatedAt }
    r.links r.milestones ++ r.body.toList

/-- The one file of a record's card. -/
structure CardRecord.Filed (env : Env K) (work : Tree) (r : CardRecord K) : Prop where
  bytes : ∃ raw plain, work[r.card.filePath]? = some raw ∧ Encoded env plain raw ∧ r.IsText env plain
  only : work[cardPathOf (!r.card.deletedAt.isSome) r.card.cardId]? = none

/-- The rows of a card, and its file, are those of one record. -/
structure Mirrors (env : Env K) (w : World K) (r : CardRecord K) : Prop where
  kept : r.Kept env
  filed : r.Filed env w.repo.work
  slice : SliceIs env w.db r.card.cardId (some r)

/-- Every card mirrors a record, and nothing else is there. -/
structure Mirrored (env : Env K) (w : World K) : Prop where
  card : ∀ (id : String) (c : Card K), w.db.cards[id]? = some c →
    ∃ r : CardRecord K, r.card.cardId = id ∧ Mirrors env w r
  noCard : ∀ id : String, w.db.cards[id]? = none → SliceIs env w.db id none
  files : ∀ path isTrash, CardFile isTrash path → path ∈ w.repo.work →
    ∃ id c, w.db.cards[id]? = some c ∧ c.deletedAt.isSome = isTrash ∧ path = cardPathOf isTrash id
  tagKeys : TagKeys env w.db

/-! ## Records -/

section
variable {env : Env K} {r : CardRecord K} {plain : Bytes}

theorem CardRecord.Kept.length (h : r.Kept env) : 4 ≤ r.card.cardId.length := by
  have := isValidUuid_length h.valid
  omega

theorem CardRecord.Kept.id_ne (h : r.Kept env) : r.card.cardId ≠ "" := by
  intro he
  have := h.length
  simp [he] at this

theorem CardRecord.Kept.fits (h : r.Kept env) (mtime : Int) : r.card.Fits env mtime :=
  ⟨h.project, h.path, h.title, fun hc => absurd h.created (by omega)⟩

theorem CardLink.Fits.readBack {card : Card K} {link : CardLink} (h : link.Fits card) :
    readBackLink card link = some link := by
  have hto : link.toCardId.isEmpty = false := by simpa [String.isEmpty_iff] using h.toCard
  simp [readBackLink, hto, String.isEmpty_iff, h.toType, h.kind, h.project.symm, h.fromCard.symm]

theorem Milestone.Fits.readBack {card : Card K} {milestone : Milestone} (h : milestone.Fits card) :
    readBackMilestone card milestone = some milestone := by
  have hid : milestone.milestoneId.isEmpty = false := by simpa [String.isEmpty_iff] using h.id
  simp [readBackMilestone, hid, h.project.symm, h.ofCard.symm]

/-- Links and milestones of the card belong to it under another path and time of edit. -/
theorem SameOwner.retimed (card : Card K) (relPath : String) (updatedAt : Int) :
    SameOwner card { card with relPath, updatedAt } := ⟨rfl, rfl, rfl⟩

theorem CardRecord.Kept.filterMap_links (h : r.Kept env) {card : Card K} (ho : SameOwner r.card card) :
    r.links.filterMap (readBackLink card) = r.links := by
  rw [List.filterMap_congr fun link hlink => ((h.links link hlink).congr ho).readBack,
    List.filterMap_some]

theorem CardRecord.Kept.filterMap_milestones (h : r.Kept env) {card : Card K}
    (ho : SameOwner r.card card) :
    r.milestones.filterMap (readBackMilestone card) = r.milestones := by
  rw [List.filterMap_congr fun m hm => ((h.milestones m hm).congr ho).readBack, List.filterMap_some]

variable [NatCast K]

/-- What the store reads of a record's text. -/
theorem CardRecord.IsText.parse (ht : r.IsText env plain) (henv : env.Lawful) (h : r.Kept env) :
    ∃ relPath updatedAt, parseCardFile env.yaml plain =
      ⟨{ r.card with relPath, updatedAt }, r.links, r.milestones, r.body, true⟩ := by
  obtain ⟨relPath, updatedAt, rfl⟩ := ht
  refine ⟨relPath, updatedAt, ?_⟩
  rw [parseCardFile_render henv.yaml, h.filterMap_links (.retimed ..),
    h.filterMap_milestones (.retimed ..)]

/-- What a rebuild reads of a record's text: the record, under the time of its last edit. -/
theorem CardRecord.IsText.load (ht : r.IsText env plain) (henv : env.Lawful) (h : r.Kept env)
    {raw : Bytes} (henc : Encoded env plain raw) :
    ∃ updatedAt, loadCardFile env r.card.filePath raw r.card.deletedAt.isSome =
      .ok { r with card := { r.card with updatedAt } } := by
  obtain ⟨relPath, updatedAt, rfl⟩ := ht
  set card := { r.card with relPath, updatedAt } with hcard
  have ho : SameOwner r.card card := .retimed ..
  set loaded := recordCard env card r.body (env.lastWriteTime r.card.filePath) r.card.deletedAt.isSome
    with hloaded
  have hcolumns : loaded = { r.card with updatedAt := loaded.updatedAt } := by
    have hcreated : ¬ r.card.createdAt ≤ 0 := by
      have := h.created
      omega
    rw [hloaded, hcard]
    cases hdel : r.card.deletedAt with
    | none => simp [recordCard, h.title, hcreated, h.project.symm, h.path.symm, hdel]
    | some at_ => simp [recordCard, h.title, hcreated, h.project.symm, h.path.symm, hdel]
  have hload : loadCardFile env r.card.filePath raw r.card.deletedAt.isSome =
      .ok (recordOf env r.card.filePath r.card.deletedAt.isSome
        (readBack card r.links r.milestones r.body)) :=
    (@load_rendered_iff _ _ _ card _ _ _ _ _ henv h.id_ne henc _).mpr ⟨h.valid, rfl⟩
  refine ⟨loaded.updatedAt, hload.trans ?_⟩
  have hlo : SameOwner r.card loaded := by
    rw [hcolumns]
    exact ⟨rfl, rfl, rfl⟩
  have hid : card.cardId ≠ "" := h.id_ne
  rw [recordOf_readBack _ hid, h.filterMap_links ho, h.filterMap_milestones ho, ← hloaded,
    List.map_congr_left fun link hlink => ((h.links link hlink).congr hlo).record,
    List.map_congr_left fun m hm => ((h.milestones m hm).congr hlo).record, List.map_id', List.map_id',
    ← hcolumns]

/-- What the store reads of a card's file. -/
theorem CardRecord.Filed.parsed {work : Tree} (hf : r.Filed env work) (henv : env.Lawful)
    (h : r.Kept env) {raw : Bytes} (hraw : work[r.card.filePath]? = some raw)
    (hplain : decodeCardBlob env raw = .ok plain) : ∃ relPath updatedAt, parseCardFile env.yaml plain =
      ⟨{ r.card with relPath, updatedAt }, r.links, r.milestones, r.body, true⟩ := by
  obtain ⟨raw', plain', hraw', henc, ht⟩ := hf.bytes
  rw [hraw, Option.some.injEq] at hraw'
  subst hraw'
  rw [henc.decode henv.privacy, Except.ok.injEq] at hplain
  exact hplain ▸ ht.parse henv h

theorem CardRecord.Filed.fileOf {work : Tree} (hf : r.Filed env work) (henv : env.Lawful)
    (h : r.Kept env) : ∃ updatedAt,
      CardFileOf env work { r with card := { r.card with updatedAt } } := by
  obtain ⟨raw, plain, hraw, henc, ht⟩ := hf.bytes
  obtain ⟨updatedAt, hload⟩ := ht.load henv h henc
  exact ⟨updatedAt, ⟨raw, hraw, hload⟩, hf.only⟩

end

/-! ## In step -/

section
variable {env : Env K} {w : World K} {r : CardRecord K}

/-- The rows of a card do not tell when it was edited. -/
theorem SliceIs.retimed {db : Db K} {id : String} (h : SliceIs env db id (some r)) (updatedAt : Int) :
    SliceIs env db id (some { r with card := { r.card with updatedAt } }) where
  card := h.card
  links key l hl := by simpa using h.links key l hl
  milestones mid m hm := by simpa using h.milestones mid m hm
  tags tag := by simpa using h.tags tag

theorem Mirrors.row (h : Mirrors env w r) :
    ∃ c, w.db.cards[r.card.cardId]? = some c ∧ c.untimed = r.card.untimed :=
  Option.map_eq_some_iff.mp h.slice.card

/-- The record of a card's row. -/
theorem Mirrored.record (h : Mirrored env w) {id : String} {c : Card K}
    (hc : w.db.cards[id]? = some c) :
    ∃ r : CardRecord K, r.card.cardId = id ∧ c.untimed = r.card.untimed ∧ Mirrors env w r := by
  obtain ⟨r, hid, hr⟩ := h.card id c hc
  obtain ⟨c', hc', he⟩ := hr.row
  rw [hid, hc, Option.some.injEq] at hc'
  exact ⟨r, hid, hc' ▸ he, hr⟩

theorem Mirrors.retimed (h : Mirrors env w r) (updatedAt : Int) :
    Mirrors env w { r with card := { r.card with updatedAt } } := by
  obtain ⟨⟨hvalid, hproj, hpath, htitle, hcreated, hlinks, hms, htags, hids⟩, hfiled, hslice⟩ := h
  have ho : SameOwner r.card { r.card with updatedAt } := ⟨rfl, rfl, rfl⟩
  exact ⟨⟨hvalid, hproj, hpath, htitle, hcreated, fun link hl => (hlinks link hl).congr ho,
    fun m hm => (hms m hm).congr ho, htags, hids⟩, ⟨hfiled.bytes, hfiled.only⟩, hslice.retimed updatedAt⟩

/-- The record of a card's row, under the row itself. -/
theorem Mirrored.at (h : Mirrored env w) {id : String} {c : Card K} (hc : w.db.cards[id]? = some c) :
    c.cardId = id ∧ ∃ links milestones body, Mirrors env w ⟨c, body, links, milestones⟩ := by
  obtain ⟨r, rfl, he, hr⟩ := h.record hc
  have hrow : { r.card with updatedAt := c.updatedAt } = c := by
    simp only [Card.untimed, Card.mk.injEq] at he
    cases c
    simp_all
  refine ⟨(Card.of_untimed he).1, r.links, r.milestones, r.body, ?_⟩
  have hc' := hr.retimed c.updatedAt
  rwa [hrow] at hc'

theorem Mirrored.keyed (h : Mirrored env w) : w.db.Keyed := by
  intro id c hc
  obtain ⟨r, hid, he, -⟩ := h.record hc
  exact (Card.of_untimed he).1.trans hid

variable [NatCast K]

/-- A rebuild of a project that mirrors its files succeeds and gives the rows it has. -/
theorem Mirrored.inSync (h : Mirrored env w) (henv : env.Lawful) (hcycle : w.db.forest.NoCycle) :
    InSync env w := by
  have hloaded : ∀ id : String, ∃ r : Option (CardRecord K), SliceIs env w.db id r ∧
      ∀ r' ∈ r, r'.card.cardId = id ∧ r'.Kept env ∧ CardFileOf env w.repo.work r' := by
    intro id
    cases hc : w.db.cards[id]? with
    | none => exact ⟨none, h.noCard id hc, by simp⟩
    | some c =>
      obtain ⟨r, rfl, -, hr⟩ := h.record hc
      obtain ⟨updatedAt, hfile⟩ := hr.filed.fileOf henv hr.kept
      refine ⟨some { r with card := { r.card with updatedAt } }, hr.slice.retimed updatedAt, ?_⟩
      rintro r' hr'
      cases hr'
      exact ⟨rfl, (hr.retimed updatedAt).kept, hfile⟩
  choose rec hslice hfile using hloaded
  have hrec : ∀ id r, rec id = some r → r.card.cardId = id ∧ r.Kept env ∧
      CardFileOf env w.repo.work r := fun id r hr => hfile id r (by rw [hr]; rfl)
  have hcards : ∀ id : String, w.db.cards[id]?.map Card.untimed = (rec id).map (·.card.untimed) :=
    fun id => (hslice id).card
  have hsliced : Sliced env w rec := by
    refine ⟨⟨fun id r hr => (hrec id r hr).1, fun id r hr => (hrec id r hr).2.2,
      fun path isTrash hcard hmem => ?_, fun id r hr => (hrec id r hr).2.1.tags,
      fun id r hr => (hrec id r hr).2.1.milestoneIds, ?_⟩, .of_slices h.tagKeys hslice⟩
    · obtain ⟨id, c, hc, hdel, hpath⟩ := h.files path isTrash hcard hmem
      have hrow := hcards id
      rw [hc, Option.map_some, eq_comm, Option.map_eq_some_iff] at hrow
      obtain ⟨r, hr, he⟩ := hrow
      exact ⟨id, r, hr, by rw [(Card.of_untimed he).2.2.2.2.2.2.2]; exact hdel, hpath⟩
    · have hup : (fun id => (rec id).map (·.card.parentCardId)) = w.db.forest.up := by
        rw [Db.forest_up]
        funext id
        have hrow := congrArg (Option.map (·.parentCardId)) (hcards id)
        rw [Option.map_map, Option.map_map] at hrow
        exact hrow.symm
      rw [hup]
      exact hcycle
  exact hsliced.inSync henv.directory

omit [NatCast K] in
theorem Mirrored.empty (env : Env K) : Mirrored env (World.empty : World K) where
  card id c hc := by simp [World.empty, Db.empty] at hc
  noCard id _ := by
    refine ⟨by simp [World.empty, Db.empty], fun key l _ => ?_, fun mid m _ => ?_, fun tag => ?_⟩ <;>
      simp [World.empty, Db.empty]
  files path isTrash _ hmem := by simp [World.empty, Repo.init] at hmem
  tagKeys key t ht := by simp [World.empty, Db.empty] at ht

end

/-! ## Touching some cards -/

section
variable {env : Env K} {w w' : World K} {r : CardRecord K}

theorem SliceIs.row_none {db : Db K} {id : String} (h : SliceIs env db id none) :
    db.cards[id]? = none := by
  have := h.card
  rwa [Option.map_none, Option.map_eq_none_iff] at this

theorem CardRecord.Filed.congr {work work' : Tree} (h : r.Filed env work)
    (hsame : ∀ isTrash, work'[cardPathOf isTrash r.card.cardId]? =
      work[cardPathOf isTrash r.card.cardId]?) : r.Filed env work' := by
  obtain ⟨raw, plain, hraw, hrest⟩ := h.bytes
  exact ⟨⟨raw, plain, (hsame _).trans hraw, hrest⟩, (hsame _).trans h.only⟩

/-- A project that mirrors its files, after the rows and files of the cards of `S` were set to those
of records, or removed. -/
theorem Mirrored.step (h : Mirrored env w) {S : Set String} (hlen : ∀ id ∈ S, 4 ≤ id.length)
    (hwork : ∀ path : String, (∀ id ∈ S, ¬ CardPath id path) →
      w'.repo.work[path]? = w.repo.work[path]?)
    (hsame : ∀ id ∉ S, SameSlice env w.db w'.db id) (hkeys : TagKeys env w'.db)
    (hin : ∀ id ∈ S, (∃ r : CardRecord K, r.card.cardId = id ∧ Mirrors env w' r) ∨
      SliceIs env w'.db id none ∧ ∀ isTrash, w'.repo.work[cardPathOf isTrash id]? = none) :
    Mirrored env w' := by
  have hother : ∀ id ∉ S, ∀ c', w'.db.cards[id]? = some c' →
      ∃ c, w.db.cards[id]? = some c ∧ c.untimed = c'.untimed := by
    intro id hid c' hc'
    have hrow := (hsame id hid).card
    rw [hc', Option.map_some, eq_comm, Option.map_eq_some_iff] at hrow
    exact hrow
  refine ⟨fun id c' hc' => ?_, fun id hc' => ?_, fun path isTrash hfile hmem => ?_, hkeys⟩
  · by_cases hid : id ∈ S
    · rcases hin id hid with hr | ⟨hnone, -⟩
      · exact hr
      · rw [hnone.row_none] at hc'
        cases hc'
    · obtain ⟨c, hc, -⟩ := hother id hid c' hc'
      obtain ⟨r, rfl, -, hr⟩ := h.record hc
      refine ⟨r, rfl, hr.kept, hr.filed.congr fun isTrash => hwork _ fun j hj hp => hid ?_,
        hr.slice.same (hsame _ hid)⟩
      rwa [(cardPathOf_cardPath isTrash _).inj hr.kept.length (hlen j hj) hp]
  · by_cases hid : id ∈ S
    · rcases hin id hid with ⟨r, rfl, hr⟩ | ⟨hnone, -⟩
      · obtain ⟨c, hc, -⟩ := hr.row
        rw [hc'] at hc
        cases hc
      · exact hnone
    · refine (h.noCard id ?_).same (hsame id hid)
      have hrow := (hsame id hid).card
      rwa [hc', Option.map_none, eq_comm, Option.map_eq_none_iff] at hrow
  · obtain ⟨raw, hraw⟩ := Map.mem_iff.mp hmem
    by_cases hS : ∃ id ∈ S, CardPath id path
    · obtain ⟨id, hid, hp⟩ := hS
      have hpath := hfile.path_eq hp
      rcases hin id hid with ⟨r, rfl, hr⟩ | ⟨-, hnone⟩
      · obtain ⟨c, hc, he⟩ := hr.row
        refine ⟨r.card.cardId, c, hc, ?_, hpath⟩
        rw [(Card.of_untimed he).2.2.2.2.2.2.2]
        by_contra hne
        have honly := hr.filed.only
        rw [← Bool.eq_not_of_ne (Ne.symm hne), ← hpath, hraw] at honly
        cases honly
      · rw [hpath, hnone] at hraw
        cases hraw
    · simp only [not_exists, not_and] at hS
      have hmem' : path ∈ w.repo.work := Map.mem_iff.mpr ⟨raw, by rw [← hwork path hS]; exact hraw⟩
      obtain ⟨id, c, hc, hdel, hpath⟩ := h.files path isTrash hfile hmem'
      have hid : id ∉ S := fun hid => hS id hid (hpath ▸ cardPathOf_cardPath isTrash id)
      have hrow := (hsame id hid).card
      rw [hc, Option.map_some, Option.map_eq_some_iff] at hrow
      obtain ⟨c', hc', he⟩ := hrow
      exact ⟨id, c', hc', by rw [(Card.of_untimed he).2.2.2.2.2.2.2]; exact hdel, hpath⟩

end

end HolderCore
