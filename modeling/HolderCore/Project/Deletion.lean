import HolderCore.Ai.InStep
import HolderCore.Card.Rebuildable

/-! # A permanent deletion and the whole rebuild

`hard_delete` removes one file and one card's rows. What else names the card stays in its own file: the
parent of its children, the links of other cards and of messages, and the card of a thread's manifest,
which a foreign key checks. -/

namespace HolderCore

/-- A rebuild succeeds and makes the rows that are there. -/
def RebuildKeeps [NatCast K] (env : RebuildEnv K) (s : SearchState K) : Prop :=
  ∃ s', SearchState.rebuild env s = .ok () s' ∧ s'.services.rows = s.services.rows ∧
    SameRows s.services.world.db s'.services.world.db

/-- The database after a call on the cards. -/
def SearchState.withWorld (s : SearchState K) (world : World K) : SearchState K :=
  { s with services := { s.services with world } }

/-- Nothing but the card itself names it: no child, no link of another card or of a message, no message
with its id that has links, and no manifest of a thread. -/
structure Unnamed [NatCast K] (env : RebuildEnv K) (s : SearchState K) (d : String) : Prop where
  cards : Unreferenced s.services.world.db d
  messages : ∀ (path : String) (isTrash : Bool) (raw : Bytes) (record : MessageRecord),
    MessageFile isTrash path → s.services.world.repo.work[path]? = some raw →
      rebuildMessageFile env.toEnv path raw isTrash = .ok record → record.message.messageId = d →
        record.links = []
  threads : ∀ manifests, threadManifests env s.services.world.repo.work = .ok manifests →
    ∀ manifest ∈ manifests, manifest.cardId ≠ some d

section
variable [NatCast K] {env : RebuildEnv K} {s : SearchState K}

theorem rebuildKeeps_iff (hj : s.services.world.journal = none) : RebuildKeeps env s ↔
    ∃ db, rebuildTables env s.services.rows s.services.world.repo.work = .ok (s.services.rows, db) ∧
      SameRows s.services.world.db db := by
  have hsteps : runSteps env.toEnv (recoverySteps s.services.world) s.services.world =
      .ok s.services.world := by simp [recoverySteps, hj, runSteps]
  unfold RebuildKeeps SearchState.rebuild
  rw [hsteps]
  dsimp only
  cases htables : rebuildTables env s.services.rows s.services.world.repo.work with
  | error e => simp
  | ok tables =>
    obtain ⟨rows, db⟩ := tables
    simp only [EStateM.Result.ok.injEq, true_and, Except.ok.injEq, Prod.mk.injEq]
    constructor
    · rintro ⟨_, rfl, hrows, hsame⟩
      exact ⟨db, ⟨hrows, rfl⟩, hsame⟩
    · rintro ⟨_, ⟨hrows, rfl⟩, hsame⟩
      exact ⟨_, rfl, hrows, hsame⟩

end

section
variable [SortKey K] {env : RebuildEnv K} {d : String} {card : Card K} {cardRows : Db K}
  {messages : List MessageRecord}

/-- A world whose links are only those of the cards. -/
def World.withLinks (w : World K) (cardLinks : Map (List String) CardLink) : World K :=
  { w with db := { w.db with cardLinks } }

omit [SortKey K] in
/-- A deletion does the same to the links of the cards alone. -/
theorem HardDeleted.withLinks {w w' : World K} (h : HardDeleted d card w w')
    (cardLinks : Map (List String) CardLink) : ∃ cardLinks',
      HardDeleted d card (w.withLinks cardLinks) (w'.withLinks cardLinks') := by
  refine ⟨cardLinks.filter fun _ l => !(l.projectId == card.projectId && l.fromCardId == d) &&
    !(l.projectId == card.projectId && l.toCardId == d && l.toType == "card"),
    h.work, h.journal, h.cards, fun key l => ?_, h.tags, h.milestones⟩
  change (Std.ExtTreeMap.filter _ cardLinks)[key]? = some l ↔ cardLinks[key]? = some l ∧ _
  rw [Map.get_filter, Option.filter_eq_some_iff]
  simp
  tauto

omit [SortKey K] in
/-- The links that a deletion leaves are those of the messages over those of the other cards. -/
theorem HardDeleted.links_left {w w' : World K} {db' : Db K} (h : HardDeleted d card w w')
    (hproj : card.projectId = env.project.projectId) (hlinked : ∀ key : List String, w.db.cardLinks[key]? =
      (linkRows (messages.flatMap (·.links)))[key]?.or cardRows.cardLinks[key]?)
    (howned : ∀ record ∈ messages, ∀ link ∈ record.links, link.projectId = env.project.projectId ∧
      link.fromCardId = record.message.messageId)
    (hcards : ∀ (key : List String) (l : CardLink), cardRows.cardLinks[key]? = some l →
      l.projectId = env.project.projectId)
    (href : Unreferenced w.db d)
    (hnone : ∀ record ∈ messages, record.message.messageId = d → record.links = [])
    (hkept : ∀ (key : List String) (l : CardLink), db'.cardLinks[key]? = some l ↔
      cardRows.cardLinks[key]? = some l ∧ l.fromCardId ≠ d) (key : List String) :
    w'.db.cardLinks[key]? = (linkRows (messages.flatMap (·.links)))[key]?.or db'.cardLinks[key]? := by
  refine Option.ext fun l => ?_
  rw [h.links, Option.or_eq_some_iff, hproj]
  have hbefore := hlinked key
  cases hm : (linkRows (messages.flatMap (·.links)))[key]? with
  | some l' =>
    rw [hm, Option.some_or] at hbefore
    obtain ⟨link, hlink, rfl, -⟩ := linkRows_eq_some hm
    obtain ⟨record, hrecord, hlink⟩ := List.mem_flatMap.mp hlink
    have hfrom : link.fromCardId ≠ d := by
      rw [(howned record hrecord link hlink).2]
      intro he
      rw [hnone record hrecord he] at hlink
      cases hlink
    simp only [hbefore, Option.some.injEq, reduceCtorEq, false_and, or_false]
    refine ⟨fun h => h.1, ?_⟩
    rintro rfl
    have hto : (LinkRepo.storedLink link).toCardId = d → (LinkRepo.storedLink link).toType ≠ "card" :=
      fun he htype => hfrom (href.links key (LinkRepo.storedLink link) hbefore he htype)
    exact ⟨rfl, fun hgone => hfrom hgone.2, fun hgone => hto hgone.2.1 hgone.2.2⟩
  | none =>
    rw [hm, Option.none_or] at hbefore
    simp only [reduceCtorEq, true_and, false_or, hbefore, hkept]
    refine and_congr_right fun hl => ⟨fun hleft hfrom => hleft.1 ⟨hcards key l hl, hfrom⟩, fun hfrom => ?_⟩
    exact ⟨fun hgone => hfrom hgone.2,
      fun hgone => hfrom (href.links key l (hbefore.trans hl) hgone.2.1 hgone.2.2)⟩

theorem mem_projectedCards {work : Tree} {records : List (CardRecord K)} {db : Db K}
    (h : Projected env.toEnv work records db) {id : String} :
    id ∈ db.cards ↔ ∃ r ∈ records, r.card.cardId = id := by
  rw [Map.mem_iff]
  constructor
  · rintro ⟨c, hc⟩
    obtain ⟨r, hr, rfl, hid⟩ := (h.rows.cards id c).mp hc
    exact ⟨r, hr, hid⟩
  · rintro ⟨r, hr, hid⟩
    exact ⟨_, (h.rows.cards id _).mpr ⟨r, hr, rfl, hid⟩⟩

/-- Each link row is the project's, under its own key. -/
theorem linkedRows_row {work : Tree} {records : List (CardRecord K)} {db : Db K}
    (hp : Projected env.toEnv work records cardRows)
    (howned : ∀ record ∈ messages, ∀ link ∈ record.links, link.projectId = env.project.projectId ∧
      link.fromCardId = record.message.messageId)
    (hlinked : ∀ key : List String, db.cardLinks[key]? =
      (linkRows (messages.flatMap (·.links)))[key]?.or cardRows.cardLinks[key]?)
    {key : List String} {l : CardLink} (hl : db.cardLinks[key]? = some l) :
    l.projectId = env.project.projectId ∧ key = l.key := by
  rw [hlinked, Option.or_eq_some_iff] at hl
  rcases hl with hl | ⟨-, hl⟩
  · obtain ⟨link, hlink, rfl, hkey⟩ := linkRows_eq_some hl
    obtain ⟨record, hrecord, hlink⟩ := List.mem_flatMap.mp hlink
    exact ⟨(howned record hrecord link hlink).1, hkey⟩
  · have hrow := hp.link (SameRows.refl _) hl
    exact ⟨hrow.1, hrow.2.1⟩

/-- A card that no link of the database leads to is named by no link of the card files: a message's
link with the same key leads to the same card. -/
theorem Unreferenced.withLinks {w : World K} {work : Tree} {records : List (CardRecord K)}
    (h : Unreferenced w.db d) (hp : Projected env.toEnv work records cardRows)
    (howned : ∀ record ∈ messages, ∀ link ∈ record.links, link.projectId = env.project.projectId ∧
      link.fromCardId = record.message.messageId)
    (hlinks : ∀ key : List String, w.db.cardLinks[key]? =
      (linkRows (messages.flatMap (·.links)))[key]?.or cardRows.cardLinks[key]?) :
    Unreferenced (w.withLinks cardRows.cardLinks).db d := by
  refine ⟨h.children, fun key l hl hto htype => ?_⟩
  have hkey := (hp.link (SameRows.refl _) hl).2.1
  have hbefore := hlinks key
  cases hm : (linkRows (messages.flatMap (·.links)))[key]? with
  | none =>
    rw [hm, Option.none_or] at hbefore
    exact h.links key l (hbefore.trans hl) hto htype
  | some l' =>
    rw [hm, Option.some_or] at hbefore
    have hkey' := (linkedRows_row hp howned hlinks hbefore).2
    rw [hkey] at hkey'
    simp only [CardLink.key, List.cons.injEq] at hkey'
    rw [hkey'.2.1]
    exact h.links key l' hbefore (hkey'.2.2.1.symm.trans hto) (hkey'.2.2.2.1.symm.trans htype)

theorem checkThreadCards_without {work work' : Tree} {records records' : List (CardRecord K)}
    {cardRows' : Db K} {manifests : List AiThreadManifest}
    (hp : Projected env.toEnv work records cardRows) (hp' : Projected env.toEnv work' records' cardRows')
    (hmem : ∀ r, r ∈ records' ↔ r ∈ records ∧ r.card.cardId ≠ d)
    (hcheck : checkThreadCards cardRows manifests = .ok ())
    (hfree : ∀ manifest ∈ manifests, manifest.cardId ≠ some d) :
    checkThreadCards cardRows' manifests = .ok () := by
  refine checkThreadCards_iff.mpr fun manifest hm card hcard => ?_
  obtain ⟨r, hr, rfl⟩ := (mem_projectedCards hp).mp (checkThreadCards_iff.mp hcheck manifest hm card hcard)
  refine (mem_projectedCards hp').mpr ⟨r, (hmem r).mpr ⟨hr, ?_⟩, rfl⟩
  rintro rfl
  exact hfree manifest hm hcard

/-- After a permanent deletion the rebuild gives the rows of the database exactly when nothing else named
the card. -/
theorem hardDelete_rebuilds_iff (henv : env.toEnv.Lawful) (hj : s.services.world.journal = none)
    (hs : RebuildKeeps env s) (hd : s.services.world.db.cards[d]? = some card)
    (htrash : card.deletedAt.isSome) :
    ∃ w', (Call.hardDelete d).run env.toEnv s.services.world = .ok .done w' ∧ w'.db.cards[d]? = none ∧
      NoLinkTo w'.db d ∧ (RebuildKeeps env (s.withWorld w') ↔ Unnamed env s d) := by
  have hdir := henv.directory
  set w := s.services.world with hw
  obtain ⟨db, htables, hsame⟩ := (rebuildKeeps_iff hj).mp hs
  obtain ⟨cardRows, manifests, messages, hproj, hmanifests, hcheck, hfiles, hlinked, howned, -⟩ :=
    (AgreeBesideCards.of_cardPaths ∅ fun _ _ => rfl).rebuildTables_iff hdir htables
  obtain ⟨records, hp⟩ := projection_ok hdir hproj
  -- The rows of the cards, without the links of the messages.
  have hs0 : SameRows (w.withLinks cardRows.cardLinks).db cardRows := by
    rw [hlinked.rest] at hsame
    exact ⟨hsame.cards, rfl, hsame.milestones, hsame.tags⟩
  obtain ⟨rd, hrd, hrid, hrcard, hid⟩ := hp.record hs0 hd
  have hlen : 4 ≤ d.length := hrid ▸ (hp.files.loaded rd hrd).length
  have hcproj : card.projectId = env.project.projectId := by
    rw [← (Card.of_untimed hrcard).2.1, (hp.files.loaded rd hrd).project]
  obtain ⟨w', hrun, hdel⟩ := hardDelete_run hj hd hid hlen hcproj htrash
  obtain ⟨cardLinks, hdel0⟩ := hdel.withLinks cardRows.cardLinks
  have hbeside : AgreeBesideCards w.repo.work w'.repo.work := by
    refine .of_cardPaths {d} fun path hpath => ?_
    rw [hdel.work, Map.get_erase_ne]
    exact ((hpath d rfl).2).symm
  obtain ⟨-, ms, rs, -, hms, -, hrs, -, -, hafter⟩ := hbeside.rebuildTables_iff hdir htables
  rw [hmanifests, Except.ok.injEq] at hms
  rw [hfiles, Except.ok.injEq] at hrs
  subst hms hrs
  have hlinks : ∀ key : List String, s.services.world.db.cardLinks[key]? =
      (linkRows (messages.flatMap (·.links)))[key]?.or cardRows.cardLinks[key]? := fun key => by
    rw [hsame.links]
    exact hlinked.links key
  have hrecords := mem_messageRecords hdir hfiles
  have hrow : ∀ (key : List String) (l : CardLink), w.db.cardLinks[key]? = some l →
      l.projectId = env.project.projectId ∧ key = l.key := fun key l => linkedRows_row hp howned hlinks
  have hnolink : NoLinkTo w'.db d := by
    rintro key l hl ⟨hto, htype⟩
    obtain ⟨hl, -, hno⟩ := (hdel.links key l).mp hl
    exact hno ⟨(hrow key l hl).1.trans hcproj.symm, hto, htype⟩
  refine ⟨w', hrun, by rw [hdel.cards, if_pos rfl], hnolink, ?_⟩
  rw [rebuildKeeps_iff hdel.journal]
  constructor
  · rintro ⟨db', htables', hsame'⟩
    obtain ⟨-, cardRows', hproj', hcheck', hlinked'⟩ := (hafter _).mp htables'
    obtain ⟨records', hp'⟩ := projection_ok hdir hproj'
    obtain ⟨-, hperm⟩ := hdel0.loadedFiles hp hs0 hd htrash
    have hpm := hperm records' hp'.files
    have hmem : ∀ r, r ∈ records' ↔ r ∈ records ∧ r.card.cardId ≠ d := by
      intro r
      rw [hpm.mem_iff, List.mem_filter]
      simp
    -- A link that the rebuild finds is a row that the deletion left.
    have hleft : ∀ (key : List String) (l : CardLink), (linkRows (messages.flatMap (·.links)))[key]?.or
        cardRows'.cardLinks[key]? = some l → w'.db.cardLinks[key]? = some l := fun key l hl => by
      have hrows : w'.db.cardLinks = db'.cardLinks := hsame'.links
      rw [hrows]
      exact (hlinked'.links key).trans hl
    refine ⟨⟨fun id c hc =>
      hp.childless (w := w.withLinks cardRows.cardLinks) hs0 hp' hpm hc, fun key l hl hto htype => ?_⟩,
      fun path isTrash raw record hfile hraw hload hrid' => ?_, fun ms hms manifest hm hcard => ?_⟩
    · by_contra hne
      refine hnolink key l (hleft key l ?_) ⟨hto, htype⟩
      have hbefore := (hlinks key).symm.trans hl
      rw [Option.or_eq_some_iff] at hbefore ⊢
      exact hbefore.imp_right fun ⟨hm, hl⟩ => ⟨hm, ((hp.without hp' hmem).2.1 key l).mpr ⟨hl, hne⟩⟩
    · refine List.eq_nil_iff_forall_not_mem.mpr fun link hlink => ?_
      have hrecord := (hrecords record).mpr ⟨path, isTrash, raw, hfile, hraw, hload⟩
      obtain ⟨l, hl⟩ := linkRows_some (List.mem_flatMap.mpr ⟨record, hrecord, hlink⟩)
      obtain ⟨link', hlink', rfl, hkey⟩ := linkRows_eq_some hl
      obtain ⟨-, hno, -⟩ := (hdel.links _ _).mp (hleft _ _ (by rw [hl, Option.some_or]))
      simp only [CardLink.key, List.cons.injEq] at hkey
      have hown := howned record hrecord link hlink
      exact hno ⟨(hkey.1.symm.trans hown.1).trans hcproj.symm, hkey.2.1.symm.trans (hown.2.trans hrid')⟩
    · rw [hmanifests, Except.ok.injEq] at hms
      subst hms
      obtain ⟨r, hr, hrid'⟩ := (mem_projectedCards hp').mp (checkThreadCards_iff.mp hcheck' manifest hm d hcard)
      exact ((hmem r).mp hr).2 hrid'
  · intro hfree
    obtain ⟨cardRows', records', hproj', hp', hpm⟩ :=
      hdel0.projected hdir hp hs0 hd htrash hfree.cards.children
    have hmem : ∀ r, r ∈ records' ↔ r ∈ records ∧ r.card.cardId ≠ d := by
      intro r
      rw [hpm.mem_iff, List.mem_filter]
      simp
    have hfree0 := hfree.cards.withLinks hp howned hlinks
    have hsame0 := hdel0.sameRows hp hs0 hcproj hp' hpm hfree0
    have hcheck' := checkThreadCards_without hp hp' hmem hcheck (hfree.threads manifests hmanifests)
    have hlinked' : LinkedRows messages cardRows' { cardRows' with cardLinks := w'.db.cardLinks } := by
      refine ⟨hdel.links_left hcproj hlinks howned
        (fun key l hl => (hp.link (SameRows.refl _) hl).1) hfree.cards (fun record hrecord hid' => ?_)
        (hp.without hp' hmem).2.1, rfl⟩
      obtain ⟨path, isTrash, raw, hfile, hraw, hload⟩ := (hrecords record).mp hrecord
      exact hfree.messages path isTrash raw record hfile hraw hload hid'
    exact ⟨_, (hafter _).mpr ⟨rfl, cardRows', hproj', hcheck', hlinked'⟩,
      hsame0.cards, rfl, hsame0.milestones, hsame0.tags⟩

end

instance : DecidableEq ServiceRows := fun rows rows' =>
  decidable_of_iff (rows.threads = rows'.threads ∧ rows.messages = rows'.messages ∧
    rows.resources = rows'.resources ∧ rows.locations = rows'.locations) (by
    cases rows
    cases rows'
    simp)

instance [NatCast K] [DecidableEq K] (env : RebuildEnv K) (s : SearchState K) :
    Decidable (RebuildKeeps env s) :=
  match h : SearchState.rebuild env s with
  | .ok _ s' => decidable_of_iff (s'.services.rows = s.services.rows ∧
      SameRows s.services.world.db s'.services.world.db) (by simp [RebuildKeeps, h])
  | .error _ _ => .isFalse (by simp [RebuildKeeps, h])

/-- A project of nothing but cards. -/
def onlyCards (world : World ℚ) : SearchState ℚ := ⟨⟨world, ServiceRows.empty, 0⟩, ∅⟩

theorem loneTrashed_rebuilds :
    ∃ w', (Call.hardDelete idA).run plainRebuildEnv.toEnv loneTrashed = .ok .done w' ∧
      w'.db.cards[idA]? = none ∧ NoLinkTo w'.db idA ∧
      (RebuildKeeps plainRebuildEnv ((onlyCards loneTrashed).withWorld w') ↔
        Unnamed plainRebuildEnv (onlyCards loneTrashed) idA) := by
  have hstate : loneTrashed.journal.isNone = true ∧
      RebuildKeeps plainRebuildEnv (onlyCards loneTrashed) ∧
      loneTrashed.db.cards[idA]?.any (·.deletedAt.isSome) = true := by decide +kernel
  obtain ⟨hj, hkeeps, hcard⟩ := hstate
  obtain ⟨card, hd, htrash⟩ := (Option.any_eq_true _ _).mp hcard
  exact hardDelete_rebuilds_iff (s := onlyCards loneTrashed) (plainEnv_lawful _)
    (Option.isNone_iff_eq_none.mp hj) hkeeps hd htrash

/-- The child's file still names the deleted card, and the rebuild throws. -/
theorem trashedFamily_not_rebuilt :
    RebuildKeeps plainRebuildEnv (onlyCards trashedFamily) ∧
      trashedFamily.db.cards[idA]?.any (·.deletedAt.isSome) = true ∧
      ∃ w', (Call.hardDelete idA).run plainRebuildEnv.toEnv trashedFamily = .ok .done w' ∧
        ¬ RebuildKeeps plainRebuildEnv ((onlyCards trashedFamily).withWorld w') := by
  have hstate : RebuildKeeps plainRebuildEnv (onlyCards trashedFamily) ∧
      trashedFamily.db.cards[idA]?.any (·.deletedAt.isSome) = true := by decide +kernel
  refine ⟨hstate.1, hstate.2, ?_⟩
  obtain ⟨_, w', hrun, rfl, hno⟩ : ∃ result w', (Call.hardDelete idA).run plainRebuildEnv.toEnv
      trashedFamily = .ok result w' ∧ result = .done ∧
        ¬ RebuildKeeps plainRebuildEnv ((onlyCards trashedFamily).withWorld w') :=
    Ends.returns (by decide +kernel)
  exact ⟨w', hrun, hno⟩

end HolderCore
