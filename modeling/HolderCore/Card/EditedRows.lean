import HolderCore.Project.Mirrored

/-! # The rows of one card, statement by statement

What each statement of the card store leaves in the rows of the card it is about, as the record they
are the rows of. Every other card keeps its rows. -/

namespace HolderCore

section
variable {env : Env K} {db db' db0 : Db K} {r : CardRecord K} {id : String}

/-! ## Slices -/

theorem SliceIs.of_record (hcard : db.cards[id]?.map Card.untimed = some r.card.untimed)
    (hlinks : ∀ (key : List String) (l : CardLink), l.fromCardId = id →
      (db.cardLinks[key]? = some l ↔ (linkRows r.links)[key]? = some l))
    (hmilestones : ∀ (mid : String) (m : Milestone), m.cardId = id →
      (db.milestones[mid]? = some m ↔
        m.milestoneId = mid ∧ r.card.deletedAt = none ∧ m ∈ r.milestones))
    (htags : ∀ tag : String, (∃ t, db.cardTags[[env.project.projectId, id, tag]]? = some t) ↔
      r.card.deletedAt = none ∧ tag ∈ env.extractTags r.body) : SliceIs env db id (some r) where
  card := by simpa using hcard
  links key l hl := by simpa using hlinks key l hl
  milestones mid m hm := by simpa using hmilestones mid m hm
  tags tag := by simpa using htags tag

theorem SliceIs.linkRow (h : SliceIs env db id (some r)) {key : List String} {l : CardLink}
    (hl : l.fromCardId = id) : db.cardLinks[key]? = some l ↔ (linkRows r.links)[key]? = some l := by
  simpa using h.links key l hl

theorem SliceIs.milestoneRow (h : SliceIs env db id (some r)) {mid : String} {m : Milestone}
    (hm : m.cardId = id) : db.milestones[mid]? = some m ↔
      m.milestoneId = mid ∧ r.card.deletedAt = none ∧ m ∈ r.milestones := by
  simpa using h.milestones mid m hm

theorem SliceIs.tagRow (h : SliceIs env db id (some r)) (tag : String) :
    (∃ t, db.cardTags[[env.project.projectId, id, tag]]? = some t) ↔
      r.card.deletedAt = none ∧ tag ∈ env.extractTags r.body := by
  simpa using h.tags tag

theorem SameSlice.refl (env : Env K) (db : Db K) (id : String) : SameSlice env db db id :=
  ⟨rfl, fun _ _ _ => .rfl, fun _ _ _ => .rfl, fun _ => .rfl⟩

theorem SameSlice.trans {db'' : Db K} (h : SameSlice env db db' id) (h' : SameSlice env db' db'' id) :
    SameSlice env db db'' id where
  card := h'.card.trans h.card
  links key l hl := (h'.links key l hl).trans (h.links key l hl)
  milestones mid m hm := (h'.milestones mid m hm).trans (h.milestones mid m hm)
  tags tag := (h'.tags tag).trans (h.tags tag)

/-- The link rows are stored under their own keys. -/
def Db.LinksKeyed (db : Db K) : Prop :=
  ∀ (key : List String) (l : CardLink), db.cardLinks[key]? = some l → key = l.key

/-- A stored link of a record that fits is one of its links. -/
theorem linkRows_fits {links : List CardLink} (h : ∀ link ∈ links, link.Fits r.card)
    {key : List String} {l : CardLink} (hl : (linkRows links)[key]? = some l) :
    key = l.key ∧ l ∈ links := by
  obtain ⟨link, hmem, rfl, hkey⟩ := linkRows_eq_some hl
  have hstored : LinkRepo.storedLink link = link := by
    simp [LinkRepo.storedLink, String.isEmpty_iff, (h link hmem).toType]
  rw [hstored] at hkey ⊢
  exact ⟨hkey, hmem⟩

/-! ## One card edited -/

/-- The rows of the record's card are those of the record, and every other card has the rows of
`db0`. -/
structure EditedTo (env : Env K) (db0 : Db K) (r : CardRecord K) (db : Db K) : Prop where
  slice : SliceIs env db r.card.cardId (some r)
  same : ∀ x, x ≠ r.card.cardId → SameSlice env db0 db x
  tagKeys : TagKeys env db
  linksKeyed : db.LinksKeyed

theorem EditedTo.row (h : EditedTo env db0 r db) :
    ∃ c, db.cards[r.card.cardId]? = some c ∧ c.untimed = r.card.untimed :=
  Option.map_eq_some_iff.mp h.slice.card

/-- `cards_fts` is no part of it. -/
theorem EditedTo.of_tables (h : EditedTo env db0 r db) (hcards : db'.cards = db.cards)
    (hlinks : db'.cardLinks = db.cardLinks) (htags : db'.cardTags = db.cardTags)
    (hms : db'.milestones = db.milestones) : EditedTo env db0 r db' := by
  have hsame : ∀ x, SameSlice env db db' x := fun x =>
    ⟨by rw [hcards], fun _ _ _ => by rw [hlinks], fun _ _ _ => by rw [hms], fun _ => by rw [htags]⟩
  exact ⟨h.slice.same (hsame _), fun x hx => (h.same x hx).trans (hsame x),
    fun key t ht => h.tagKeys key t (htags ▸ ht), fun key l hl => h.linksKeyed key l (hlinks ▸ hl)⟩

/-- An update of the card's row. -/
theorem EditedTo.update (h : EditedTo env db0 r db) (what : String) {f : Card K → Card K}
    (hid : (f r.card).cardId = r.card.cardId) (hdel : (f r.card).deletedAt = r.card.deletedAt)
    (htime : ∀ c, c.untimed = r.card.untimed → (f c).untimed = (f r.card).untimed) :
    Ends (CardRepo.update what r.card.cardId f) db
      (fun _ db' => EditedTo env db0 { r with card := f r.card } db') fun _ _ => True := by
  obtain ⟨c, hc, he⟩ := h.row
  refine (CardRepo.update_ends what r.card.cardId f db).mono ?_ fun _ _ _ => trivial
  rintro - db' (⟨hnone, -⟩ | ⟨c', hc', -, -, rfl⟩)
  · rw [hc] at hnone
    cases hnone
  rw [hc, Option.some.injEq] at hc'
  subst hc'
  refine ⟨.of_record ?_ (fun key l hl => h.slice.linkRow (hl.trans hid)) (fun mid m hm => ?_)
    (fun tag => ?_), fun x hx => (h.same x ?_).trans ⟨?_, fun _ _ _ => .rfl, fun _ _ _ => .rfl,
      fun _ => .rfl⟩, h.tagKeys, h.linksKeyed⟩
  · change (db.cards.insert r.card.cardId (f c))[(f r.card).cardId]?.map Card.untimed = _
    rw [hid, Map.get_insert, if_pos rfl, Option.map_some, htime c he]
  · change _ ↔ _ ∧ (f r.card).deletedAt = none ∧ _
    rw [hdel]
    exact h.slice.milestoneRow (hm.trans hid)
  · change (∃ t, db.cardTags[[env.project.projectId, (f r.card).cardId, tag]]? = some t) ↔
      (f r.card).deletedAt = none ∧ _
    rw [hdel, hid]
    exact h.slice.tagRow tag
  · rw [← hid]
    exact hx
  · change (db.cards.insert r.card.cardId (f c))[x]?.map Card.untimed = _
    rw [Map.get_insert_ne]
    rintro rfl
    exact hx hid.symm

theorem EditedTo.touchUpdated (h : EditedTo env db0 r db) (updatedAt : Int) :
    Ends (CardRepo.touchUpdated r.card.cardId updatedAt) db
      (fun _ db' => EditedTo env db0 { r with card := { r.card with updatedAt } } db')
      fun _ _ => True :=
  h.update _ rfl rfl fun _ he => he

/-- The tag rows of one card replaced. -/
structure TagsSet (env : Env K) (db : Db K) (id : String) (tags : List String)
    (rows : Map (List String) CardTag) : Prop where
  own : ∀ tag : String, (∃ t, rows[[env.project.projectId, id, tag]]? = some t) ↔ tag ∈ tags
  other : ∀ x, x ≠ id → ∀ tag : String, (∃ t, rows[[env.project.projectId, x, tag]]? = some t) ↔
    ∃ t, db.cardTags[[env.project.projectId, x, tag]]? = some t
  keys : ∀ (key : List String) (t : CardTag), rows[key]? = some t →
    key = t.key ∧ t.projectId = env.project.projectId

theorem TagsSet.of_rows (hkeys : TagKeys env db) {tags : List String} {now : Int}
    {rows : Map (List String) CardTag}
    (h : ∀ (key : List String) (t : CardTag), rows[key]? = some t ↔
      (∃ tag ∈ tags, t = ⟨env.project.projectId, id, tag, now⟩ ∧ key = t.key) ∨
      db.cardTags[key]? = some t ∧ ¬(t.projectId = env.project.projectId ∧ t.cardId = id)) :
    TagsSet env db id tags rows where
  own tag := by
    simp only [h]
    constructor
    · rintro ⟨t, ⟨tag', htag, rfl, hk⟩ | ⟨hrow, hne⟩⟩
      · simp only [CardTag.key, List.cons.injEq, and_true, true_and] at hk
        exact hk ▸ htag
      · obtain ⟨hk, hproj⟩ := hkeys _ t hrow
        simp only [CardTag.key, List.cons.injEq, and_true] at hk
        exact absurd ⟨hproj, hk.2.1.symm⟩ hne
    · exact fun htag => ⟨_, .inl ⟨tag, htag, rfl, rfl⟩⟩
  other x hx tag := by
    simp only [h]
    constructor
    · rintro ⟨t, ⟨tag', -, rfl, hk⟩ | ⟨hrow, -⟩⟩
      · simp only [CardTag.key, List.cons.injEq, and_true, true_and] at hk
        exact absurd hk.1 hx
      · exact ⟨t, hrow⟩
    · rintro ⟨t, hrow⟩
      obtain ⟨hk, -⟩ := hkeys _ t hrow
      simp only [CardTag.key, List.cons.injEq, and_true] at hk
      exact ⟨t, .inr ⟨hrow, fun hown => hx (hk.2.1.trans hown.2)⟩⟩
  keys key t ht := by
    rcases (h key t).mp ht with ⟨tag, -, rfl, rfl⟩ | ⟨hrow, -⟩
    · exact ⟨rfl, rfl⟩
    · exact hkeys key t hrow

/-- The tags of a live card set to those of a body. -/
theorem EditedTo.setTags (h : EditedTo env db0 r db) (hlive : r.card.deletedAt = none) (body : String)
    (now : Int) :
    Ends (TagRepo.setTagsForCard env.project.projectId r.card.cardId (env.extractTags body) now) db
      (fun _ db' => (env.extractTags body).Nodup ∧ EditedTo env db0 { r with body } db')
      fun _ _ => True := by
  obtain ⟨c, hc, -⟩ := h.row
  refine (TagRepo.setTagsForCard_ends _ _ _ _ _ (fun key t ht => (h.tagKeys key t ht).1)
    ⟨c, hc⟩).mono ?_ fun _ _ _ => trivial
  rintro - db' ⟨hnodup, hdb, hrows⟩
  have htags : TagsSet env db r.card.cardId (env.extractTags body) db'.cardTags :=
    .of_rows h.tagKeys hrows
  rw [hdb]
  refine ⟨hnodup, .of_record h.slice.card (fun key l hl => h.slice.linkRow hl)
    (fun mid m hm => h.slice.milestoneRow hm) (fun tag => ?_), fun x hx => (h.same x hx).trans
      ⟨rfl, fun _ _ _ => .rfl, fun _ _ _ => .rfl, htags.other x hx⟩, htags.keys, h.linksKeyed⟩
  simp only [hlive, true_and]
  exact htags.own tag

/-- The milestones of a live card replaced. -/
theorem EditedTo.replaceMilestones (h : EditedTo env db0 r db) (hr : r.Kept env)
    (hlive : r.card.deletedAt = none) (milestones : List Milestone) :
    Ends (MilestoneRepo.replaceForCard r.card.projectId r.card.cardId milestones) db
      (fun _ db' => (milestones.map (·.milestoneId)).Nodup ∧
        EditedTo env db0 { r with milestones } db') fun _ _ => True := by
  obtain ⟨c, hc, -⟩ := h.row
  refine (MilestoneRepo.replaceForCard_ends _ _ _ _ ⟨c, hc⟩).mono ?_ fun _ _ _ => trivial
  rintro - db' ⟨hall, hnodup, -, hdb, hrows⟩
  rw [hdb]
  refine ⟨hnodup, .of_record h.slice.card (fun key l hl => h.slice.linkRow hl) (fun mid m hm => ?_)
    (fun tag => h.slice.tagRow tag), fun x hx => (h.same x hx).trans
      ⟨rfl, fun _ _ _ => .rfl, fun mid m hm => ?_, fun _ => .rfl⟩, h.tagKeys, h.linksKeyed⟩
  · change db'.milestones[mid]? = some m ↔ _
    simp only [hrows, hlive, true_and]
    constructor
    · rintro (⟨hmem, rfl⟩ | ⟨hrow, hne⟩)
      · exact ⟨rfl, hmem⟩
      · have hfits := hr.milestones m ((h.slice.milestoneRow hm).mp hrow).2.2
        exact absurd ⟨hfits.project, hm⟩ hne
    · rintro ⟨rfl, hmem⟩
      exact .inl ⟨hmem, rfl⟩
  · change db'.milestones[mid]? = some m ↔ _
    rw [hrows]
    constructor
    · rintro (⟨hmem, -⟩ | ⟨hrow, -⟩)
      · exact absurd (hm.symm.trans (hall m hmem).2) hx
      · exact hrow
    · exact fun hrow => .inr ⟨hrow, fun ho => hx (hm.symm.trans ho.2)⟩

/-- The milestones of a live card as they are listed. -/
theorem EditedTo.listed (h : EditedTo env db0 r db) (hr : r.Kept env)
    (hlive : r.card.deletedAt = none) : EditedTo env db0
      { r with milestones := (MilestoneRepo.listForCard db r.card.projectId r.card.cardId) } db := by
  refine ⟨.of_record h.slice.card (fun key l hl => h.slice.linkRow hl) (fun mid m hm => ?_)
    (fun tag => h.slice.tagRow tag), h.same, h.tagKeys, h.linksKeyed⟩
  simp only [MilestoneRepo.listForCard, List.mem_insertionSort, List.mem_filter, Map.mem_rows,
    Bool.and_eq_true, beq_iff_eq, hlive, true_and]
  constructor
  · intro hrow
    obtain ⟨hid, -, hmem⟩ := (h.slice.milestoneRow hm).mp hrow
    exact ⟨hid, ⟨mid, hrow⟩, (hr.milestones m hmem).project, hm⟩
  · rintro ⟨rfl, ⟨mid, hrow⟩, -, -⟩
    obtain ⟨rfl, -⟩ := (h.slice.milestoneRow hm).mp hrow
    exact hrow

/-- The links of a card changed, and listed again. -/
theorem EditedTo.relinked (h : EditedTo env db0 r db) {rows : Map (List String) CardLink}
    (hother : ∀ (key : List String) (l : CardLink), l.fromCardId ≠ r.card.cardId →
      (rows[key]? = some l ↔ db.cardLinks[key]? = some l))
    (hown : ∀ (key : List String) (l : CardLink), rows[key]? = some l → l.fromCardId = r.card.cardId →
      l.projectId = env.project.projectId ∧ l.toType ≠ "")
    (hkeyed : ∀ (key : List String) (l : CardLink), rows[key]? = some l → key = l.key) :
    EditedTo env db0
      { r with links := (LinkRepo.listOutgoing { db with cardLinks := rows } env.project.projectId
          r.card.cardId) } { db with cardLinks := rows } := by
  refine ⟨.of_record h.slice.card (fun key l hl => ?_) (fun mid m hm => h.slice.milestoneRow hm)
    (fun tag => h.slice.tagRow tag), fun x hx => (h.same x hx).trans
      ⟨rfl, fun key l hl => hother key l (hl ▸ hx), fun _ _ _ => .rfl, fun _ => .rfl⟩, h.tagKeys,
      hkeyed⟩
  change _ ↔ (linkRows (LinkRepo.listOutgoing { db with cardLinks := rows } env.project.projectId
    r.card.cardId))[key]? = some l
  rw [linkRows_listOutgoing hkeyed]
  · exact ⟨fun hrow => ⟨hrow, (hown key l hrow hl).1, hl⟩, fun hrow => hrow.1⟩
  · intro l hl
    obtain ⟨⟨key, hrow⟩, -, hfrom⟩ := mem_listOutgoing.mp hl
    exact (hown key l hrow hfrom).2

/-- The links of a card as they are listed. -/
theorem EditedTo.listedLinks (h : EditedTo env db0 r db) (hr : r.Kept env) :
    EditedTo env db0
      { r with links := (LinkRepo.listOutgoing db r.card.projectId r.card.cardId) } db := by
  have hown : ∀ (key : List String) (l : CardLink), db.cardLinks[key]? = some l →
      l.fromCardId = r.card.cardId → l.projectId = env.project.projectId ∧ l.toType ≠ "" := by
    intro key l hrow hfrom
    obtain ⟨-, hmem⟩ := linkRows_fits hr.links ((h.slice.linkRow hfrom).mp hrow)
    exact ⟨(hr.links l hmem).project.trans hr.project, (hr.links l hmem).toType⟩
  rw [hr.project]
  exact h.relinked (fun _ _ _ => .rfl) hown h.linksKeyed

/-- The links listed of a card whose record fits, fit. -/
theorem EditedTo.listOutgoing_fits (h : EditedTo env db0 r db) (hr : r.Kept env) :
    ∀ link ∈ LinkRepo.listOutgoing db r.card.projectId r.card.cardId, link.Fits r.card := by
  intro link hlink
  obtain ⟨⟨key, hrow⟩, -, hfrom⟩ := mem_listOutgoing.mp hlink
  exact hr.links link (linkRows_fits hr.links ((h.slice.linkRow hfrom).mp hrow)).2

theorem EditedTo.listForCard_fits (h : EditedTo env db0 r db) (hr : r.Kept env) :
    ∀ m ∈ MilestoneRepo.listForCard db r.card.projectId r.card.cardId, m.Fits r.card := by
  intro m hm
  simp only [MilestoneRepo.listForCard, List.mem_insertionSort, List.mem_filter, Map.mem_rows,
    Bool.and_eq_true, beq_iff_eq] at hm
  obtain ⟨⟨mid, hrow⟩, -, hcard⟩ := hm
  exact hr.milestones m ((h.slice.milestoneRow hcard).mp hrow).2.2

/-- The first links of a card stored. -/
theorem EditedTo.upsertLinks (h : EditedTo env db0 { r with links := [] } db) (links : List CardLink) :
    Ends (LinkRepo.upsertLinks r.card.projectId r.card.cardId links) db
      (fun _ db' => EditedTo env db0 { r with links } db') fun _ _ => True := by
  refine (LinkRepo.upsertLinks_ends _ _ _ _).mono ?_ fun _ _ _ => trivial
  rintro - db' ⟨rfl, hall⟩
  have hfrom : ∀ (key : List String) (l : CardLink), (linkRows links)[key]? = some l →
      key = l.key ∧ l.fromCardId = r.card.cardId := by
    intro key l hl
    obtain ⟨link, hmem, rfl, hkey⟩ := linkRows_eq_some hl
    exact ⟨hkey, (hall link hmem).2⟩
  refine ⟨.of_record h.slice.card (fun key l hl => ?_) (fun mid m hm => h.slice.milestoneRow hm)
    (fun tag => h.slice.tagRow tag), fun x hx => (h.same x hx).trans
      ⟨rfl, fun key l hl => ?_, fun _ _ _ => .rfl, fun _ => .rfl⟩, h.tagKeys, fun key l hl => ?_⟩
  · have hrow : db.cardLinks[key]? = some l → False := fun hrow => by
      simpa [linkRows] using (h.slice.linkRow hl).mp hrow
    change (links.foldl _ _)[key]? = some l ↔ (linkRows links)[key]? = some l
    rw [get_foldl_links]
    cases hlink : (linkRows links)[key]? with
    | none => simpa using hrow
    | some l' => rw [Option.some_or]
  · change (links.foldl _ _)[key]? = some l ↔ _
    rw [get_foldl_links]
    cases hlink : (linkRows links)[key]? with
    | none => rw [Option.none_or]
    | some l' =>
      obtain ⟨hkey, hown⟩ := hfrom key l' hlink
      rw [Option.some_or, Option.some.injEq]
      constructor
      · rintro rfl
        exact absurd (hl.symm.trans hown) hx
      · intro hrow
        -- A stored link has its card in its key.
        have hk := h.linksKeyed key l hrow
        rw [hkey] at hk
        simp only [CardLink.key, List.cons.injEq, and_true] at hk
        exact absurd (hl.symm.trans (hk.2.1.symm.trans hown)) hx
  · change (links.foldl _ _)[key]? = some l at hl
    rw [get_foldl_links, Option.or_eq_some_iff] at hl
    rcases hl with hl | ⟨-, hl⟩
    · exact (hfrom key l hl).1
    · exact h.linksKeyed key l hl

/-- A new row, and the tags of its body. -/
theorem EditedTo.created {card : Card K} {body : String} (hnone : SliceIs env db card.cardId none)
    (hlinksKeyed : db.LinksKeyed) (hlive : card.deletedAt = none)
    (hcards : db'.cards = db.cards.insert card.cardId card) (hlinks : db'.cardLinks = db.cardLinks)
    (hms : db'.milestones = db.milestones)
    (htags : TagsSet env db card.cardId (env.extractTags body) db'.cardTags) :
    EditedTo env db ⟨card, body, [], []⟩ db' := by
  refine ⟨.of_record ?_ (fun key l hl => ?_) (fun mid m hm => ?_) (fun tag => ?_),
    fun x hx => ⟨?_, fun _ _ _ => ?_, fun _ _ _ => ?_, htags.other x hx⟩, htags.keys,
    fun key l hl => hlinksKeyed key l (hlinks ▸ hl)⟩
  · rw [hcards, Map.get_insert, if_pos rfl, Option.map_some]
  · rw [hlinks, hnone.links key l hl]
    simp [linkRows]
  · rw [hms, hnone.milestones mid m hm]
    simp
  · simp only [hlive, true_and]
    exact htags.own tag
  · rw [hcards, Map.get_insert_ne (Ne.symm hx)]
  · rw [hlinks]
  · rw [hms]

end

section
variable {env : Env K} {w w' : World K} {r : CardRecord K} {id : String}

theorem Mirrored.linksKeyed (h : Mirrored env w) : w.db.LinksKeyed := by
  intro key l hl
  cases hc : w.db.cards[l.fromCardId]? with
  | none =>
    obtain ⟨r, hr, -⟩ := ((h.noCard _ hc).links key l rfl).mp hl
    cases hr
  | some c =>
    obtain ⟨r, hid, -, hr⟩ := h.record hc
    have hslice := hid ▸ hr.slice
    exact (linkRows_fits hr.kept.links ((hslice.linkRow rfl).mp hl)).1

theorem Mirrored.milestonesKeyed (h : Mirrored env w) {mid : String} {m : Milestone}
    (hm : w.db.milestones[mid]? = some m) : m.milestoneId = mid := by
  cases hc : w.db.cards[m.cardId]? with
  | none =>
    obtain ⟨-, r, hr, -⟩ := ((h.noCard _ hc).milestones mid m rfl).mp hm
    cases hr
  | some c =>
    obtain ⟨r, hid, -, hr⟩ := h.record hc
    have hslice := hid ▸ hr.slice
    exact ((hslice.milestoneRow rfl).mp hm).1

/-- The milestones of a card are listed once each. -/
theorem EditedTo.listForCard_ids {db : Db K} (h : EditedTo env w.db r db) (hw : Mirrored env w)
    (projectId cardId : String) :
    ((MilestoneRepo.listForCard db projectId cardId).map (·.milestoneId)).Nodup := by
  have hkeyed : ∀ (mid : String) (m : Milestone), db.milestones[mid]? = some m →
      m.milestoneId = mid := by
    intro mid m hm
    by_cases hown : m.cardId = r.card.cardId
    · exact ((h.slice.milestoneRow hown).mp hm).1
    · exact hw.milestonesKeyed (((h.same _ hown).milestones mid m rfl).mp hm)
  unfold MilestoneRepo.listForCard
  refine ((List.perm_insertionSort _ _).map _).nodup_iff.mpr ?_
  exact (Map.nodup_map_rows hkeyed).sublist (List.filter_sublist.map _)

/-- The rows of a card that mirrors its file, before an edit. -/
theorem Mirrored.edited (h : Mirrored env w) (hr : Mirrors env w r) : EditedTo env w.db r w.db :=
  ⟨hr.slice, fun x _ => .refl env w.db x, h.tagKeys, h.linksKeyed⟩

theorem Mirrored.congr (h : Mirrored env w) (hwork : w'.repo.work = w.repo.work)
    (hdb : w'.db = w.db) : Mirrored env w' := by
  obtain ⟨hcard, hno, hfiles, hkeys⟩ := h
  rw [← hdb] at hcard hno hfiles hkeys
  rw [← hwork] at hfiles
  refine ⟨fun id c hc => ?_, hno, hfiles, hkeys⟩
  obtain ⟨r, hid, hkept, hfiled, hslice⟩ := hcard id c hc
  exact ⟨r, hid, hkept, hwork ▸ hfiled, hdb ▸ hslice⟩

/-- A text of the record was written to its live path. -/
def Rewritten (env : Env K) (r : CardRecord K) (work work' : Tree) : Prop :=
  ∃ raw plain, work' = work.insert (livePath r.card.cardId) raw ∧ Encoded env plain raw ∧
    r.IsText env plain

theorem Rewritten.retimed {work work' : Tree} (h : Rewritten env r work work') (updatedAt : Int) :
    Rewritten env { r with card := { r.card with updatedAt } } work work' := h

theorem Mirrors.noTrash (h : Mirrors env w r) (hlive : r.card.deletedAt = none) :
    w.repo.work[trashPath r.card.cardId]? = none := by
  have honly := h.filed.only
  rwa [hlive] at honly

/-- One live card edited, its file written. -/
theorem Mirrored.write (h : Mirrored env w) (hr : EditedTo env w.db r w'.db) (hkept : r.Kept env)
    (hlive : r.card.deletedAt = none) (hwork : Rewritten env r w.repo.work w'.repo.work)
    (htrash : w.repo.work[trashPath r.card.cardId]? = none) : Mirrored env w' := by
  obtain ⟨raw, plain, hwork, henc, ht⟩ := hwork
  refine h.step (S := {r.card.cardId}) ?_ ?_ (fun x hx => hr.same x hx) hr.tagKeys ?_
  · rintro x rfl
    exact hkept.length
  · intro path hpath
    rw [hwork, Map.get_insert_ne]
    rintro rfl
    exact hpath _ rfl (.inl rfl)
  · rintro x rfl
    refine .inl ⟨r, rfl, hkept, ⟨⟨raw, plain, ?_, henc, ht⟩, ?_⟩, hr.slice⟩
    · rw [hwork, Card.filePath_live hlive, Map.get_insert, if_pos rfl]
    · rw [hlive]
      change w'.repo.work[trashPath r.card.cardId]? = none
      rw [hwork, Map.get_insert_ne (livePath_ne_trashPath _ _)]
      exact htrash

end

end HolderCore
