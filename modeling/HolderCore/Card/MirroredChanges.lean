import HolderCore.Card.EditedRows

/-! # Journalled changes and the files

A change that succeeds leaves the rows of its card as those of the record that it writes. So a
committed list of changes keeps a project that mirrors its files. -/

namespace HolderCore

/-- What a file is written from, as a record. -/
def ParsedCardFile.record (parsed : ParsedCardFile K) : CardRecord K :=
  ⟨parsed.card, parsed.body, parsed.links, parsed.milestones⟩

section
variable {env : Env K} {db db' : Db K} {record : ParsedCardFile K}

/-- The tags of a live card are stored without repetition. -/
theorem changeRows_tags (env : Env K) (record : ParsedCardFile K) (db : Db K) :
    Ends (changeRows env record) db
      (fun _ _ => record.card.deletedAt = none → (env.extractTags record.body).Nodup)
      fun _ _ => True := by
  unfold changeRows
  refine (restoreSnapshot_ends record.card db).bind (fun _ db1 _ => ?_) fun _ _ _ => trivial
  simp only [Ends.bind_iff, LinkRepo.deleteLinksFrom, Ends.modify_iff]
  refine (LinkRepo.upsertLinks_ends _ _ _ _).mono (fun _ db2 _ => ?_) fun _ _ _ => trivial
  cases hdel : record.card.deletedAt with
  | some at_ =>
    simp only [Option.isSome_some, if_true, reduceCtorEq, false_imp_iff]
    exact .intro (fun _ _ _ => trivial) fun _ _ _ => trivial
  | none =>
    simp only [Option.isSome_none, Bool.false_eq_true, if_false, Ends.bind_iff, Ends.ite_iff,
      Ends.pure_iff, FtsIndexer.upsertCard, Ends.modify_iff, TagRepo.setTagsForCard,
      TagRepo.deleteTagsForCard, forall_const]
    refine ⟨fun _ => ?_, fun _ => ?_⟩ <;>
    · refine (TagRepo.insertTags_ends _ _ _ _ _).mono ?_ fun _ _ _ => trivial
      rintro - db3 ⟨-, -, hnodup, -⟩
      exact .intro (fun _ _ _ => hnodup) fun _ _ _ => trivial

/-- A change is about a card that has the rows of a record, and what it writes comes back from a
file. -/
structure Ready (env : Env K) (db : Db K) (record : ParsedCardFile K) (r : CardRecord K) : Prop where
  id : record.card.cardId = r.card.cardId
  project : record.card.projectId = r.card.projectId
  created : record.card.createdAt = r.card.createdAt
  kept : r.Kept env
  slice : SliceIs env db r.card.cardId (some r)

theorem Ready.congr {r : CardRecord K} (h : Ready env db record r)
    (hs : SameSlice env db db' record.card.cardId) : Ready env db' record r :=
  ⟨h.id, h.project, h.created, h.kept, h.slice.same (h.id ▸ hs)⟩

/-- The tag rows after a change. -/
theorem RowsChanged.tagsSet (h : RowsChanged env record db db') (htagKeys : TagKeys env db)
    (hproj : record.card.projectId = env.project.projectId)
    (htags : record.card.deletedAt = none → (env.extractTags record.body).Nodup) :
    TagsSet env db record.card.cardId
      (if record.card.deletedAt.isSome then [] else env.extractTags record.body) db'.cardTags := by
  have hnodup : ((if record.card.deletedAt.isSome then [] else env.extractTags record.body).map
      fun tag => [record.card.projectId, record.card.cardId, tag]).Nodup := by
    refine List.Nodup.map (fun a b he => by simpa using he) ?_
    split
    · exact List.nodup_nil
    · next hlive => exact htags (by simpa using hlive)
  refine @TagsSet.of_rows _ _ _ _ htagKeys _ record.card.updatedAt _ fun key t => ?_
  rw [h.tags, Map.get_foldl_insert_nodup hnodup, Map.get_filter, Option.filter_eq_some_iff, hproj]
  constructor
  · rintro (⟨tag, htag, rfl, rfl⟩ | ⟨-, hrow, hne⟩)
    · exact .inl ⟨tag, htag, rfl, rfl⟩
    · exact .inr ⟨hrow, by simpa [imp_iff_not_or] using hne⟩
  · rintro (⟨tag, htag, rfl, rfl⟩ | ⟨hrow, hne⟩)
    · exact .inl ⟨tag, htag, rfl, rfl⟩
    · refine .inr ⟨fun tag _ he => ?_, hrow, by simpa [imp_iff_not_or] using hne⟩
      obtain ⟨hk, hown⟩ := htagKeys key t hrow
      rw [← he] at hk
      simp only [CardTag.key, List.cons.injEq, and_true] at hk
      exact hne ⟨hown, hk.2.1.symm⟩

/-- The milestone rows after a change. -/
theorem RowsChanged.milestoneRow (h : RowsChanged env record db db') (mid : String) (m : Milestone) :
    db'.milestones[mid]? = some m ↔
      (record.card.deletedAt = none ∧ m ∈ record.milestones ∧ m.milestoneId = mid) ∨
      db.milestones[mid]? = some m ∧ ¬(m.projectId = record.card.projectId ∧
        m.cardId = record.card.cardId) := by
  rw [h.milestones]
  cases hdel : record.card.deletedAt with
  | some at_ =>
    simp only [Option.isSome_some, if_true, List.foldl_nil, Map.get_filter,
      Option.filter_eq_some_iff, reduceCtorEq, false_and, false_or]
    simp [imp_iff_not_or]
  | none =>
    obtain ⟨hnodup, hown⟩ := h.milestonesOwn hdel
    simp only [Option.isSome_none, Bool.false_eq_true, if_false, true_and]
    rw [Map.get_foldl_insert_nodup hnodup, Map.get_filter, Option.filter_eq_some_iff]
    constructor
    · rintro (⟨m', hm', rfl, rfl⟩ | ⟨-, hrow, hne⟩)
      · exact .inl ⟨hm', rfl⟩
      · exact .inr ⟨hrow, by simpa [imp_iff_not_or] using hne⟩
    · rintro (⟨hm, rfl⟩ | ⟨hrow, hne⟩)
      · exact .inl ⟨m, hm, rfl, rfl⟩
      · refine .inr ⟨fun m' hm' he => ?_, hrow, by simpa [imp_iff_not_or] using hne⟩
        exact hne ((hown m' hm').2.2 m (by rw [he]; exact hrow))

/-- The link rows after a change: those of the record, and of the other rows those of other cards. -/
theorem RowsChanged.linkRow (h : RowsChanged env record db db') (hlinksKeyed : db.LinksKeyed)
    (hown : ∀ (key : List String) (l : CardLink), db.cardLinks[key]? = some l →
      l.fromCardId = record.card.cardId → l.projectId = record.card.projectId)
    (key : List String) (l : CardLink) : db'.cardLinks[key]? = some l ↔
      if l.fromCardId = record.card.cardId then (linkRows record.links)[key]? = some l
      else db.cardLinks[key]? = some l := by
  rw [h.links, get_foldl_links, Map.get_filter]
  cases hrow : (linkRows record.links)[key]? with
  | none =>
    rw [Option.none_or, Option.filter_eq_some_iff]
    split
    · next hl =>
      simp only [reduceCtorEq, iff_false, not_and]
      intro hrow' hne
      simp [hl, hown key l hrow' hl] at hne
    · next hl => simp [hl]
  | some l' =>
    obtain ⟨link, hmem, rfl, hkey⟩ := linkRows_eq_some hrow
    have hfrom : (LinkRepo.storedLink link).fromCardId = record.card.cardId := (h.linksOwn link hmem).2
    rw [Option.some_or]
    split
    · rfl
    · next hl =>
      constructor
      · rintro he
        rw [Option.some.injEq] at he
        exact absurd (he ▸ hfrom) hl
      · intro hrow'
        -- A stored link has its card in its key.
        have hk := hlinksKeyed key l hrow'
        rw [hkey] at hk
        simp only [CardLink.key, List.cons.injEq, and_true] at hk
        exact absurd (hk.2.1.symm.trans hfrom) hl

/-- The rows after a change are those of what it writes. -/
theorem RowsChanged.edited (h : RowsChanged env record db db') {r : CardRecord K}
    (hr : Ready env db record r) (htagKeys : TagKeys env db) (hlinksKeyed : db.LinksKeyed)
    (htags : record.card.deletedAt = none → (env.extractTags record.body).Nodup) :
    EditedTo env db record.record db' := by
  obtain ⟨hid, hproj, hcreated, hkept, hslice⟩ := hr
  rw [← hid] at hslice
  have hown : ∀ (key : List String) (l : CardLink), db.cardLinks[key]? = some l →
      l.fromCardId = record.card.cardId → l.projectId = record.card.projectId := by
    intro key l hrow hl
    obtain ⟨-, hmem⟩ := linkRows_fits hkept.links ((hslice.linkRow hl).mp hrow)
    exact (hkept.links l hmem).project.trans hproj.symm
  have hlinks := h.linkRow hlinksKeyed hown
  have hset := h.tagsSet htagKeys (hproj.trans hkept.project) htags
  refine ⟨.of_record ?_ (fun key l hl => ?_) (fun mid m hm => ?_) (fun tag => ?_),
    fun x hx => ⟨?_, fun key l hl => ?_, fun mid m hm => ?_, hset.other x hx⟩, hset.keys,
    fun key l hl => ?_⟩
  · obtain ⟨row, hrow, he⟩ := Option.map_eq_some_iff.mp hslice.card
    obtain ⟨hrid, hrp, -, -, -, -, hrc, -⟩ := Card.of_untimed he
    change db'.cards[record.card.cardId]?.map Card.untimed = some record.card.untimed
    rw [h.cards, if_pos rfl, hrow]
    simp only [Option.map_some, Option.some.injEq, Card.untimed, Card.snapshot, Card.mk.injEq,
      true_and, and_true]
    exact ⟨hrid.trans hid.symm, hrp.trans hproj.symm, hrc.trans hcreated.symm⟩
  · change l.fromCardId = record.card.cardId at hl
    rw [hlinks, if_pos hl]
    rfl
  · rw [h.milestoneRow]
    constructor
    · rintro (⟨hlive, hmem, rfl⟩ | ⟨hrow, hne⟩)
      · exact ⟨rfl, hlive, hmem⟩
      · obtain ⟨-, -, hmem⟩ := (hslice.milestoneRow hm).mp hrow
        exact absurd ⟨(hkept.milestones m hmem).project.trans hproj.symm, hm⟩ hne
    · rintro ⟨rfl, hlive, hmem⟩
      exact .inl ⟨hlive, hmem, rfl⟩
  · refine (hset.own tag).trans ?_
    change _ ↔ record.card.deletedAt = none ∧ tag ∈ env.extractTags record.body
    cases record.card.deletedAt <;> simp
  · change x ≠ record.card.cardId at hx
    rw [h.cards, if_neg hx]
  · change x ≠ record.card.cardId at hx
    rw [hlinks, if_neg (hl ▸ hx)]
  · rw [h.milestoneRow]
    constructor
    · rintro (⟨hlive, hmem, -⟩ | ⟨hrow, -⟩)
      · exact absurd (hm.symm.trans ((h.milestonesOwn hlive).2 m hmem).2.1) hx
      · exact hrow
    · exact fun hrow => .inr ⟨hrow, fun hown => hx (hm.symm.trans hown.2)⟩
  · rw [hlinks] at hl
    split at hl
    · obtain ⟨_, -, -, hkey⟩ := linkRows_eq_some hl
      exact hkey
    · exact hlinksKeyed key l hl

/-- The rows after changes to different cards. -/
structure AllEdited (env : Env K) (records : List (ParsedCardFile K)) (db db' : Db K) : Prop where
  changed : ∀ record ∈ records, SliceIs env db' record.card.cardId (some record.record) ∧
    (record.card.deletedAt = none → (env.extractTags record.body).Nodup ∧
      (record.milestones.map (·.milestoneId)).Nodup)
  kept : ∀ id, (∀ record ∈ records, record.card.cardId ≠ id) → SameSlice env db db' id
  tagKeys : TagKeys env db'

theorem changeRows_edited {records : List (ParsedCardFile K)}
    (hnodup : (records.map (·.card.cardId)).Nodup) (htagKeys : TagKeys env db)
    (hlinksKeyed : db.LinksKeyed) (hready : ∀ record ∈ records, ∃ r, Ready env db record r)
    (h : records.forM (changeRows env) db = .ok () db') : AllEdited env records db db' := by
  induction records generalizing db with
  | nil =>
    cases h
    exact ⟨by simp, fun id _ => .refl env _ id, htagKeys⟩
  | cons record records ih =>
    obtain ⟨hfresh, hnodup⟩ := List.nodup_cons.mp hnodup
    have hother : ∀ r ∈ records, r.card.cardId ≠ record.card.cardId := by
      intro r hr he
      exact hfresh (List.mem_map.mpr ⟨r, hr, he⟩)
    obtain ⟨db1, hstep, hrun⟩ : ∃ db1, changeRows env record db = .ok () db1 ∧
        records.forM (changeRows env) db1 = .ok () db' := by
      rw [List.forM] at h
      cases hone : changeRows env record db with
      | error e db1 =>
        simp only [bind, EStateM.bind, hone] at h
        cases h
      | ok u db1 =>
        simp only [bind, EStateM.bind, hone] at h
        exact ⟨db1, rfl, h⟩
    obtain ⟨r, hr⟩ := hready record List.mem_cons_self
    have hrows := (changeRows_ends env record db).ok hstep
    have htags := (changeRows_tags env record db).ok hstep
    have hedit := hrows.edited hr htagKeys hlinksKeyed htags
    have hrest := ih hnodup hedit.tagKeys hedit.linksKeyed (fun r' hr' => by
      obtain ⟨r0, h0⟩ := hready r' (List.mem_cons_of_mem _ hr')
      exact ⟨r0, h0.congr (hedit.same _ (hother r' hr'))⟩) hrun
    refine ⟨fun r' hr' => ?_, fun id hid => ?_, hrest.tagKeys⟩
    · rcases List.mem_cons.mp hr' with rfl | hr'
      · exact ⟨hedit.slice.same (hrest.kept _ hother),
          fun hlive => ⟨htags hlive, (hrows.milestonesOwn hlive).1⟩⟩
      · exact hrest.changed r' hr'
    · exact (hedit.same id (hid record List.mem_cons_self).symm).trans
        (hrest.kept id fun r' hr' => hid r' (List.mem_cons_of_mem _ hr'))

end

/-! ## The links of a parsed file -/

section
variable [NatCast K] {y : Yaml K} {card : Card K} {item : YamlNode}

omit [NatCast K] in
theorem parseLink_filled {link : CardLink} (h : parseLink y card item = some (some link)) :
    link.toType ≠ "" ∧ link.kind ≠ "" := by
  unfold parseLink at h
  split at h
  · simp only [Option.pure_def, Option.bind_eq_bind, Option.bind_eq_some_iff, Option.some.injEq] at h
    obtain ⟨_, -, toType, -, kind, -, _, -, _, -, h⟩ := h
    split at h
    · cases h
    · rw [Option.some.injEq] at h
      subst h
      constructor
      · by_cases ht : toType = "" <;> simp [String.isEmpty_iff, ht]
      · by_cases hk : kind = "" <;> simp [String.isEmpty_iff, hk]
  · cases h

/-- Every link of a parsed file has a type and a kind. -/
theorem parseCardFile_filled (raw : Bytes) :
    ∀ link ∈ (parseCardFile y raw).links, link.toType ≠ "" ∧ link.kind ≠ "" := by
  have hnode : ∀ node body, ∀ link ∈ (parseNode y node raw body).links,
      link.toType ≠ "" ∧ link.kind ≠ "" := by
    intro node body
    have hlinks : ∀ card : Card K, ∀ link ∈ (parseSeq node "links" (parseLink y card)).1,
        link.toType ≠ "" ∧ link.kind ≠ "" :=
      fun card => parseSeq_forall (fun _ _ => parseLink_filled) node "links"
    unfold parseNode
    dsimp only
    split
    · simp
    · split
      · exact hlinks _
      · exact hlinks _
  have hdelimited : ∀ opening closing, ∀ link ∈ (parseDelimited y raw opening closing).links,
      link.toType ≠ "" ∧ link.kind ≠ "" := by
    intro opening closing
    unfold parseDelimited
    split
    · simp [noFrontMatter]
    · split
      · exact hnode _ _
      · simp [noFrontMatter]
  unfold parseCardFile
  split
  · exact hdelimited _ _
  · split
    · exact hdelimited _ _
    · simp [noFrontMatter]

end

/-! ## Committed changes -/

section
variable {env : Env K} {w w' : World K} {changes : List (CardChange K)}

/-- A change to a card that mirrors its file, whose text comes back from a file. -/
structure Faithful (env : Env K) (w : World K) (change : CardChange K) (r : CardRecord K) : Prop where
  mirrors : Mirrors env w r
  current : change.current.cardId = r.card.cardId
  deleted : change.current.deletedAt = r.card.deletedAt
  project : change.target.card.projectId = r.card.projectId
  created : change.target.card.createdAt = r.card.createdAt
  title : change.target.card.title ≠ ""
  links : ∀ link ∈ change.target.links, link.Fits r.card
  milestones : ∀ milestone ∈ change.target.milestones, milestone.Fits r.card

/-- Live paths and trashed paths differ. -/
theorem cardPathOf_side {isTrash isTrash' : Bool} {id id' : String}
    (h : cardPathOf isTrash id = cardPathOf isTrash' id') : isTrash = isTrash' := by
  cases isTrash <;> cases isTrash'
  · rfl
  · exact absurd h (livePath_ne_trashPath id id')
  · exact absurd h.symm (livePath_ne_trashPath id' id)
  · rfl

theorem Committed.mirrored (h : Committed env w changes w') (hw : Mirrored env w)
    (hfaithful : ∀ change ∈ changes, ∃ r, Faithful env w change r) : Mirrored env w' := by
  obtain ⟨m, hm, hint, hrun⟩ := h.intends
  have hid : ∀ change ∈ changes, change.prepared.target.card.cardId = change.current.cardId :=
    fun change hc => h.ids change hc
  have hids : (changes.map (·.prepared.target)).map (·.card.cardId) =
      changes.map (·.current.cardId) := by
    rw [List.map_map]
    exact List.map_congr_left hid
  have hedited := changeRows_edited (hids ▸ h.nodup) hw.tagKeys hw.linksKeyed
    (fun record hmem => by
      obtain ⟨change, hc, rfl⟩ := List.mem_map.mp hmem
      obtain ⟨r, hr⟩ := hfaithful change hc
      exact ⟨r, (hid change hc).trans hr.current, hr.project, hr.created, hr.mirrors.kept,
        hr.mirrors.slice⟩) hrun
  refine hw.step (S := {id | ∃ change ∈ changes, change.current.cardId = id}) ?_ (fun path hpath => ?_)
    (fun id hid' => hedited.kept id fun record hmem he => ?_) hedited.tagKeys ?_
  · rintro id ⟨change, hc, rfl⟩
    exact (h.checks hc).1
  · rw [hm.landed.work, hint.other]
    · rfl
    · refine fun change hc => ⟨fun he => ?_, fun he => ?_⟩
      · exact hpath _ ⟨change, hc, rfl⟩ (he ▸ h.cardPath hc)
      · exact hpath _ ⟨change, hc, rfl⟩ (he ▸ change.current.cardPath)
  · obtain ⟨change, hc, rfl⟩ := List.mem_map.mp hmem
    exact hid' ⟨change, hc, (hid change hc).symm.trans he⟩
  · rintro id ⟨change, hc, rfl⟩
    obtain ⟨r, hr⟩ := hfaithful change hc
    have hrec : change.prepared.target ∈ changes.map (·.prepared.target) :=
      List.mem_map.mpr ⟨change, hc, rfl⟩
    obtain ⟨hslice, hunique⟩ := hedited.changed _ hrec
    obtain ⟨bytes, hbytes, henc⟩ := hint.target change hc
    have howner : SameOwner r.card change.prepared.target.card :=
      ⟨(hid change hc).trans hr.current, hr.project, hr.created⟩
    refine .inl ⟨change.prepared.target.record, hid change hc, ?_, ⟨⟨bytes, _, ?_, henc, ?_⟩, ?_⟩,
      hslice⟩
    · have hkept := hr.mirrors.kept
      refine ⟨howner.id ▸ hkept.valid, hr.project.trans hkept.project, ?_, hr.title,
        howner.created ▸ hkept.created, fun link hl => (hr.links link hl).congr howner,
        fun m hm => (hr.milestones m hm).congr howner, fun hlive => (hunique hlive).1,
        fun hlive => (hunique hlive).2⟩
      change livePath change.current.cardId = livePath change.target.card.cardId
      rw [h.ids change hc]
    · change w'.repo.work[change.target.card.filePath]? = some bytes
      rw [hm.landed.work, hbytes]
      rfl
    · exact ⟨_, _, rfl⟩
    · -- The file is either moved away from the other path, or it was never there.
      change w'.repo.work[cardPathOf (!change.target.card.deletedAt.isSome)
        change.target.card.cardId]? = none
      rw [hm.landed.work, h.ids change hc]
      by_cases hsame : change.current.deletedAt.isSome = change.target.card.deletedAt.isSome
      · have honly := hr.mirrors.filed.only
        rw [← hr.deleted, hsame, ← hr.current] at honly
        rw [hint.other, Option.getD_none, honly]
        refine fun change' hc' => ⟨fun he => ?_, fun he => ?_⟩
        · obtain rfl := h.unique hc hc' (cardPathOf_cardPath _ _) (he ▸ h.cardPath hc')
          exact Bool.not_ne_self _ (cardPathOf_side he)
        · obtain rfl := h.unique hc hc' (cardPathOf_cardPath _ _) (he ▸ change'.current.cardPath)
          exact Bool.not_ne_self _ ((cardPathOf_side he).trans hsame)
      · rw [← Bool.eq_not_of_ne hsame]
        have hmoved : change.current.filePath ≠ change.target.card.filePath :=
          fun he => hsame (cardPathOf_side he)
        rw [cardPathOf_filePath, hint.source change hc hmoved]
        rfl

variable [NatCast K]

theorem Rewrites.faithful {now : Int} {change : CardChange K} (h : Rewrites env w now change)
    (henv : env.Lawful) (hw : Mirrored env w) : ∃ r, Faithful env w change r := by
  obtain ⟨row, raw, plain, parent, key, deletedAt, hrow, hraw, hplain, -, hid, hdel, htarget⟩ := h
  obtain ⟨-, links, milestones, body, hr⟩ := hw.at hrow
  obtain ⟨relPath, updatedAt, hparsed⟩ := hr.filed.parsed henv hr.kept hraw hplain
  have hkept := hr.kept
  refine ⟨⟨row, body, links, milestones⟩, ⟨hr, hid, hdel, ?_, ?_, ?_, ?_, ?_⟩⟩
  · rw [htarget]
    rfl
  · rw [htarget]
    rfl
  · rw [htarget]
    exact hkept.title
  · rw [htarget]
    exact (hw.edited hr).listOutgoing_fits hkept
  · rw [htarget, hparsed]
    exact hkept.milestones

/-- The version of a card in a commit has a title, and the times of its links and milestones are
positive. -/
def Restorable (env : Env K) (w : World K) (oid : Nat) (cardId : String) : Prop :=
  ∀ raw isTrash plain, CardStore.historicalBlob w.repo oid cardId = .ok (raw, isTrash) →
    decodeCardBlob env raw = .ok plain →
    (parseCardFile env.yaml plain).card.title ≠ "" ∧
    (∀ link ∈ (parseCardFile env.yaml plain).links, 0 < link.createdAt) ∧
    ∀ milestone ∈ (parseCardFile env.yaml plain).milestones, 0 < milestone.createdAt

theorem BringsBack.faithful {oid : Nat} {now : Int} {change : CardChange K}
    (h : BringsBack env w oid now change) (hw : Mirrored env w) (hnow : 0 < now)
    (hrestorable : Restorable env w oid change.current.cardId) : ∃ r, Faithful env w change r := by
  obtain ⟨row, raw, plain, isTrash, parent, key, hrow, hblob, hplain, -, -, hcurrent, htarget⟩ := h
  obtain ⟨-, links, milestones, body, hr⟩ := hw.at hrow
  rw [hcurrent] at hrestorable
  obtain ⟨htitle, hlinks, hmilestones⟩ := hrestorable raw isTrash plain hblob hplain
  have hnamed : (parseCardFile env.yaml plain).Named := parseCardFile_named plain
  refine ⟨⟨row, body, links, milestones⟩, ⟨hr, by rw [hcurrent], by rw [hcurrent], ?_, ?_, ?_, ?_, ?_⟩⟩
  · rw [htarget]
    rfl
  · rw [htarget]
    rfl
  · rw [htarget]
    exact htitle
  · rw [htarget]
    intro link hlink
    obtain ⟨old, hold, rfl⟩ := List.mem_map.mp hlink
    obtain ⟨htype, hkind⟩ := parseCardFile_filled plain old hold
    exact ⟨rfl, rfl, hnamed.links old hold, htype, hkind, fun hc => absurd (hlinks old hold) (not_lt.mpr hc)⟩
  · rw [htarget]
    intro milestone hm
    obtain ⟨old, hold, rfl⟩ := List.mem_map.mp hm
    exact ⟨rfl, rfl, hnamed.milestones old hold,
      fun hc => absurd (hmilestones old hold) (not_lt.mpr hc), fun hc => absurd hnow (not_lt.mpr hc)⟩

end

end HolderCore
