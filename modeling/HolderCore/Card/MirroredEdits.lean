import HolderCore.Card.MirroredChanges
import HolderCore.Card.Rebuildable

/-! # Edits of one card and its file

The calls that write one live card's file and rows without a journal. When they return, the rows and
the file are those of one record again. -/

namespace HolderCore

section
variable {env : Env K} {w w0 : World K} {r r0 : CardRecord K} {db0 : Db K}

theorem ftsUpsertCard_edited (h : EditedTo env db0 r w.db) (cardId projectId title body : String) :
    Ends (ftsUpsertCard env cardId projectId title body) w
      (fun _ w' => EditedTo env db0 r w'.db ∧ w'.repo = w.repo ∧ w'.journal = w.journal)
      fun _ _ => False := by
  unfold ftsUpsertCard
  rw [Ends.ite_iff, Ends.onDb_iff]
  exact ⟨fun _ => ⟨h.of_tables rfl rfl rfl rfl, rfl, rfl⟩, fun _ => ⟨h, rfl, rfl⟩⟩

theorem Rewritten.of_wrote {w' : World K} {relPath : String} {updatedAt : Int}
    (h : Wrote env (livePath r.card.cardId) (renderCardFrontMatter env.yaml
      { r.card with relPath, updatedAt } r.links r.milestones ++ r.body.toList) w w') :
    Rewritten env r w.repo.work w'.repo.work ∧ w'.db = w.db := by
  obtain ⟨bytes, ivs, henc, rfl⟩ := h
  exact ⟨⟨bytes, _, rfl, henc, ⟨_, _, rfl⟩⟩, rfl⟩

/-- A file that has a text of the record already. -/
theorem Rewritten.of_text {work : Tree} {raw plain : Bytes}
    (hraw : work[livePath r.card.cardId]? = some raw) (henc : Encoded env plain raw)
    (ht : r.IsText env plain) : Rewritten env r work work :=
  ⟨raw, plain, (Map.insert_of_get hraw).symm, henc, ht⟩

/-- A record kept under other links. -/
theorem CardRecord.Kept.relinked (h : r.Kept env) {links : List CardLink}
    (hlinks : ∀ link ∈ links, link.Fits r.card) : ({ r with links } : CardRecord K).Kept env :=
  ⟨h.valid, h.project, h.path, h.title, h.created, hlinks, h.milestones, h.tags, h.milestoneIds⟩

/-- A record kept under other milestones. -/
theorem CardRecord.Kept.rescheduled (h : r.Kept env) {milestones : List Milestone}
    (hms : ∀ m ∈ milestones, m.Fits r.card) (hids : (milestones.map (·.milestoneId)).Nodup) :
    ({ r with milestones } : CardRecord K).Kept env :=
  ⟨h.valid, h.project, h.path, h.title, h.created, h.links, hms, h.tags, fun _ => hids⟩

/-- A record kept under another time of edit. -/
theorem CardRecord.Kept.retimed (h : r.Kept env) (updatedAt : Int) :
    ({ r with card := { r.card with updatedAt } } : CardRecord K).Kept env := by
  have ho : SameOwner r.card { r.card with updatedAt } := ⟨rfl, rfl, rfl⟩
  exact ⟨h.valid, h.project, h.path, h.title, h.created, fun link hl => (h.links link hl).congr ho,
    fun m hm => (h.milestones m hm).congr ho, h.tags, h.milestoneIds⟩

theorem Mirrored.noFile (h : Mirrored env w) {id : String} (hvalid : isValidUuid id = true)
    (hrow : w.db.cards[id]? = none) (isTrash : Bool) : w.repo.work[cardPathOf isTrash id]? = none := by
  refine Option.eq_none_iff_forall_ne_some.mpr fun raw hraw => ?_
  obtain ⟨id', c, hc, -, hpath⟩ :=
    h.files _ _ (cardFile_cardPathOf isTrash hvalid) (Map.mem_iff.mpr ⟨raw, hraw⟩)
  obtain ⟨r, rfl, -, hr⟩ := h.record hc
  have hlen : 4 ≤ id.length := by
    have := isValidUuid_length hvalid
    omega
  obtain rfl := (cardPathOf_cardPath isTrash id).inj hlen hr.kept.length
    (hpath ▸ cardPathOf_cardPath isTrash _)
  rw [hrow] at hc
  cases hc

theorem SliceIs.listOutgoing_nil {db : Db K} {id : String} (h : SliceIs env db id none)
    (projectId : String) : LinkRepo.listOutgoing db projectId id = [] := by
  refine List.eq_nil_iff_forall_not_mem.mpr fun l hl => ?_
  obtain ⟨⟨key, hrow⟩, -, hfrom⟩ := mem_listOutgoing.mp hl
  obtain ⟨_, hr, -⟩ := (h.links key l hfrom).mp hrow
  cases hr

/-- A card that a rebuild can read back. -/
structure Creating (card : Card K) : Prop where
  valid : isValidUuid card.cardId = true
  title : card.title ≠ ""
  created : 0 < card.createdAt
  live : card.deletedAt = none

end

namespace CardStore
variable [SortKey K] {env : Env K} {w w0 : World K} {r : CardRecord K}

/-! ## Reading and replacing a file -/

/-- The file at a card's live path, if it can be read, is that of a live card. -/
theorem readCardFile_filed (henv : env.Lawful) (hkept : r.Kept env) (hfiled : r.Filed env w.repo.work) :
    Ends (readCardFile env r.card.relPath) w
      (fun file w' => w' = w ∧ r.card.deletedAt = none ∧
        w.repo.work[livePath r.card.cardId]? = some file.1 ∧ file.2.links = r.links ∧
        file.2.milestones = r.milestones ∧ file.2.body = r.body) fun _ w' => w' = w := by
  refine (readCardFile_ends _ w).mono ?_ fun _ _ h => h
  rintro ⟨raw, parsed⟩ w' ⟨rfl, hraw, plain, hplain, rfl⟩
  rw [hkept.path] at hraw
  have hlive : r.card.deletedAt = none := by
    cases hdel : r.card.deletedAt with
    | none => rfl
    | some at_ =>
      have honly := hfiled.only
      rw [hdel] at honly
      change w'.repo.work[livePath r.card.cardId]? = none at honly
      rw [hraw] at honly
      cases honly
  obtain ⟨relPath, updatedAt, hparsed⟩ := hfiled.parsed henv hkept
    (by rw [Card.filePath_live hlive]; exact hraw) hplain
  exact ⟨rfl, hlive, hraw, by rw [hparsed], by rw [hparsed], by rw [hparsed]⟩

omit [SortKey K] in
/-- The file has a text of the record afterwards, whether it was written or had it. -/
theorem replaceCardFile_rewrites (hkept : r.Kept env) {raw : Bytes}
    (hraw : w.repo.work[livePath r.card.cardId]? = some raw) (updatedAt : Int) :
    Ends (replaceCardFile env { r.card with updatedAt } r.links r.milestones r.body raw) w
      (fun _ w' => Rewritten env r w.repo.work w'.repo.work ∧ w'.db = w.db) fun _ _ => True := by
  refine (replaceCardFile_ends _ _ _ _ _).mono ?_ fun _ _ _ => trivial
  rintro changed w' h
  cases changed with
  | true =>
    obtain ⟨-, hwrote⟩ := h
    change Wrote env r.card.relPath _ w w' at hwrote
    rw [hkept.path] at hwrote
    exact Rewritten.of_wrote hwrote
  | false =>
    obtain ⟨⟨ivs, rfl⟩, henc⟩ := h
    exact ⟨.of_text hraw henc ⟨_, _, rfl⟩, rfl⟩

omit [SortKey K] in
theorem commit_mirrored (h : Mirrored env w) (message : String) :
    Ends (commit message) w (fun _ w' => Mirrored env w') fun _ _ => True := by
  simp only [commit, Ends.onRepo_iff, Except.ok.injEq, forall_eq', reduceCtorEq, implies_true,
    and_true]
  exact h.congr rfl rfl

omit [SortKey K] in
/-- The end of an edit: the time of the edit is stored and the change committed. -/
theorem touch_commit_mirrored (h : Mirrored env w0) (hedit : EditedTo env w0.db r w.db)
    (hkept : r.Kept env) (hlive : r.card.deletedAt = none)
    (hwork : Rewritten env r w0.repo.work w.repo.work)
    (htrash : w0.repo.work[trashPath r.card.cardId]? = none) (updatedAt : Int) (message : String) :
    Ends (do onDb (CardRepo.touchUpdated r.card.cardId updatedAt); commit message) w
      (fun _ w' => Mirrored env w') fun _ _ => True := by
  simp only [Ends.bind_iff, Ends.onDb_iff]
  refine (hedit.touchUpdated updatedAt).mono (fun _ db hdb => ?_) fun _ _ _ => trivial
  have hmirrored : Mirrored env { w with db } :=
    h.write hdb (hkept.retimed updatedAt) hlive (hwork.retimed updatedAt) htrash
  exact commit_mirrored hmirrored _

/-! ## Links and milestones -/

/-- `update_links` on a card whose link rows were changed. -/
theorem updateLinksLocked_mirrored (henv : env.Lawful) (hj : w.journal = none) (h : Mirrored env w0)
    (hwork : w.repo.work = w0.repo.work) (hr : Mirrors env w0 r) (hedit : EditedTo env w0.db
      { r with links := (LinkRepo.listOutgoing w.db r.card.projectId r.card.cardId) } w.db)
    (hfits : ∀ link ∈ LinkRepo.listOutgoing w.db r.card.projectId r.card.cardId, link.Fits r.card)
    (updatedAt : Int) :
    Ends (updateLinksLocked env r.card updatedAt) w (fun _ w' => Mirrored env w') fun _ _ => True := by
  unfold updateLinksLocked
  refine (requireProject_ends hj _).bind ?_ fun _ _ _ => trivial
  rintro - w1 ⟨rfl, -⟩
  simp only [Ends.bind_iff, Ends.fromExcept_iff]
  refine ⟨fun _ _ => ?_, fun _ _ => trivial⟩
  refine (readCardFile_filed henv hr.kept (hwork ▸ hr.filed)).mono ?_ fun _ _ _ => trivial
  rintro ⟨raw, parsed⟩ w2 ⟨rfl, hlive, hraw, -, hms, hbody⟩
  simp only [Ends.get_iff]
  rw [hms, hbody]
  have hkept := hr.kept.relinked hfits
  refine (replaceCardFile_rewrites hkept hraw updatedAt).mono ?_ fun _ _ _ => trivial
  rintro changed w3 ⟨hrewritten, hdb⟩
  rw [hwork] at hrewritten
  have hedit3 := hedit
  nth_rewrite 2 [← hdb] at hedit3
  rw [Ends.ite_iff]
  exact ⟨fun _ => touch_commit_mirrored h hedit3 hkept hlive hrewritten (hr.noTrash hlive) _ _,
    fun _ => h.write hedit3 hkept hlive hrewritten (hr.noTrash hlive)⟩

/-- `update_milestones` on a card whose milestone rows were changed, if it is live. -/
theorem updateMilestonesLocked_mirrored (henv : env.Lawful) (hj : w.journal = none)
    (h : Mirrored env w0) (hwork : w.repo.work = w0.repo.work) (hr : Mirrors env w0 r)
    (hedit : r.card.deletedAt = none → EditedTo env w0.db
      { r with milestones := (MilestoneRepo.listForCard w.db r.card.projectId r.card.cardId) } w.db)
    (hkept : r.card.deletedAt = none → ({ r with
      milestones := (MilestoneRepo.listForCard w.db r.card.projectId r.card.cardId) } :
        CardRecord K).Kept env) (updatedAt : Int) :
    Ends (updateMilestonesLocked env r.card updatedAt) w (fun _ w' => Mirrored env w')
      fun _ _ => True := by
  unfold updateMilestonesLocked
  refine (requireProject_ends hj _).bind ?_ fun _ _ _ => trivial
  rintro - w1 ⟨rfl, -⟩
  simp only [Ends.bind_iff, Ends.fromExcept_iff]
  refine ⟨fun _ _ => ?_, fun _ _ => trivial⟩
  refine (readCardFile_filed henv hr.kept (hwork ▸ hr.filed)).mono ?_ fun _ _ _ => trivial
  rintro ⟨raw, parsed⟩ w2 ⟨rfl, hlive, hraw, hlinks, -, hbody⟩
  simp only [Ends.get_iff]
  rw [hlinks, hbody]
  refine (replaceCardFile_rewrites (hkept hlive) hraw updatedAt).mono ?_ fun _ _ _ => trivial
  rintro changed w3 ⟨hrewritten, hdb⟩
  rw [hwork] at hrewritten
  have hedit3 := hedit hlive
  nth_rewrite 2 [← hdb] at hedit3
  rw [Ends.ite_iff]
  exact ⟨fun _ => touch_commit_mirrored h hedit3 (hkept hlive) hlive hrewritten (hr.noTrash hlive) _ _,
    fun _ => h.write hedit3 (hkept hlive) hlive hrewritten (hr.noTrash hlive)⟩

/-- `update_milestone` with the milestones that it read before the lock, one of them changed. -/
theorem updateMilestoneLocked_mirrored (henv : env.Lawful) (hj : w.journal = none)
    (h : Mirrored env w) (hr : Mirrors env w r) {milestones : List Milestone}
    (hfits : ∀ m ∈ milestones, m.Fits r.card) (updatedAt : Int) :
    Ends (updateMilestoneLocked env r.card milestones updatedAt) w (fun _ w' => Mirrored env w')
      fun _ _ => True := by
  unfold updateMilestoneLocked
  refine (requireProject_ends hj _).bind ?_ fun _ _ _ => trivial
  rintro - w1 ⟨rfl, -⟩
  simp only [Ends.bind_iff, Ends.fromExcept_iff]
  refine ⟨fun _ _ => ?_, fun _ _ => trivial⟩
  refine (readCardFile_filed henv hr.kept hr.filed).mono ?_ fun _ _ _ => trivial
  rintro ⟨raw, parsed⟩ w2 ⟨rfl, hlive, hraw, hlinks, -, hbody⟩
  rw [hlinks, hbody]
  refine (writeCardFile_ends _ _ _ _).mono ?_ fun _ _ _ => trivial
  rintro - w3 ⟨-, bytes, ivs, henc, rfl⟩
  rw [stageCardFile_ends henc (by simp [Repo.writeFile]), Ends.onDb_iff]
  refine ((h.edited hr).replaceMilestones hr.kept hlive milestones).mono ?_ fun _ _ _ => trivial
  rintro - db ⟨hids, hdb⟩
  rw [← Ends.bind_iff]
  refine touch_commit_mirrored h hdb (hr.kept.rescheduled hfits hids) hlive ?_ (hr.noTrash hlive) _ _
  refine ⟨bytes, _, ?_, henc, ⟨_, _, rfl⟩⟩
  rw [← hr.kept.path]
  rfl

/-! ## Content -/

/-- `update_content` on a live card. -/
theorem updateContentLocked_mirrored (henv : env.Lawful) (hj : w.journal = none)
    (h : Mirrored env w) (hr : Mirrors env w r) (hlive : r.card.deletedAt = none) (content : String)
    {title : Option String} (htitle : title ≠ some "") (updatedAt : Int) :
    Ends (updateContentLocked env r.card content title updatedAt) w (fun _ w' => Mirrored env w')
      fun _ _ => True := by
  unfold updateContentLocked
  refine (requireProject_ends hj _).bind ?_ fun _ _ _ => trivial
  rintro - w1 ⟨rfl, hproj⟩
  simp only [Ends.bind_iff, Ends.fromExcept_iff]
  refine ⟨fun _ _ => ?_, fun _ _ => trivial⟩
  have hkept := hr.kept
  -- The file is there, and it holds the record's text.
  have hexisting : Ends (existingCardFile env r.card.relPath) w1 (fun existing w' => w' = w1 ∧
      ∃ parsed, existing = some parsed ∧ parsed.milestones = r.milestones ∧ parsed.body = r.body)
      fun _ _ => True := by
    obtain ⟨raw, plain, hraw, henc, ht⟩ := hr.filed.bytes
    obtain ⟨relPath, t, hparsed⟩ := hr.filed.parsed henv hkept hraw (henc.decode henv.privacy)
    rw [Card.filePath_live hlive, ← hkept.path] at hraw
    simp only [existingCardFile, Ends.bind_iff, Ends.get_iff, hraw, henc.decode henv.privacy,
      Ends.fromExcept_iff, Except.ok.injEq, forall_eq', Ends.pure_iff, reduceCtorEq, implies_true, and_true,
      true_and]
    exact ⟨_, rfl, by rw [hparsed], by rw [hparsed]⟩
  refine hexisting.mono ?_ fun _ _ _ => trivial
  rintro - w2 ⟨rfl, parsed, rfl, hms, hbody⟩
  set card : Card K := { r.card with title := title.getD r.card.title, updatedAt } with hcard
  have hcardTitle : card.title ≠ "" := by
    cases title with
    | none => exact hkept.title
    | some t => exact fun he => htitle (congrArg some he)
  have ho : SameOwner r.card card := ⟨rfl, rfl, rfl⟩
  -- Either way the file has a text of the new record, under links that are those of the rows.
  have hwrite : Ends (if fileChanged r.card content title (some parsed) then
      writeContent env r.card content title updatedAt (some parsed) else pure ()) w2
      (fun _ w3 => ∃ links, (∀ link ∈ links, link.Fits r.card) ∧
        EditedTo env w2.db { r with links } w3.db ∧
        Rewritten env ⟨card, content, links, r.milestones⟩ w2.repo.work w3.repo.work)
      fun _ _ => True := by
    rw [Ends.ite_iff]
    refine ⟨fun _ => ?_, fun hsame => ?_⟩
    · unfold writeContent
      simp only [Ends.bind_iff, Ends.get_iff]
      rw [← Ends.bind_iff]
      refine (writeStaged_ends _ _ _ _).mono ?_ fun _ _ _ => trivial
      rintro - w3 ⟨-, hwrote⟩
      change Wrote env r.card.relPath _ w2 w3 at hwrote
      rw [Option.elim_some, hms, hkept.path] at hwrote
      set links := LinkRepo.listOutgoing w2.db r.card.projectId r.card.cardId with hlinks
      obtain ⟨hrewritten, hdb⟩ := Rewritten.of_wrote (r := ⟨card, content, links, r.milestones⟩) hwrote
      refine ⟨_, (h.edited hr).listOutgoing_fits hkept, ?_, hrewritten⟩
      rw [hdb]
      exact (h.edited hr).listedLinks hkept
    · rw [Ends.pure_iff]
      simp only [fileChanged, Option.any_some, hbody, Bool.or_eq_true, Bool.not_eq_true',
        beq_eq_false_iff_ne, bne_iff_ne, Option.any_eq_true, not_or, not_not, not_exists,
        not_and, ne_eq] at hsame
      obtain ⟨rfl, hsame⟩ := hsame
      have htitles : title.getD r.card.title = r.card.title := by
        cases title with
        | none => rfl
        | some t => exact hsame t rfl
      refine ⟨r.links, hkept.links, h.edited hr, ?_⟩
      obtain ⟨raw, plain, hraw, henc, relPath, t, rfl⟩ := hr.filed.bytes
      rw [Card.filePath_live hlive] at hraw
      exact .of_text hraw henc ⟨relPath, t, by rw [hcard, htitles]⟩
  refine hwrite.mono ?_ fun _ _ _ => trivial
  rintro - w3 ⟨links, hlinks, hedit, hrewritten⟩
  simp only [Ends.onDb_iff]
  have hstored : Ends (storeTitle r.card.cardId title updatedAt) w3.db
      (fun _ db => EditedTo env w2.db ⟨card, r.body, links, r.milestones⟩ db) fun _ _ => True := by
    unfold storeTitle
    cases title with
    | none => exact hedit.update _ rfl rfl fun _ he => he
    | some t =>
      refine hedit.update _ rfl rfl fun c he => ?_
      simp only [Card.untimed, Card.mk.injEq] at he ⊢
      tauto
  refine hstored.mono (fun _ db4 h4 => ?_) fun _ _ _ => trivial
  refine (ftsUpsertCard_edited (w := { w3 with db := db4 }) h4 _ _ _ _).mono ?_ fun _ _ _ => trivial
  rintro - w5 ⟨h5, hrepo5, -⟩
  rw [hproj]
  refine (h5.setTags hlive content updatedAt).mono ?_ fun _ _ _ => trivial
  rintro - db6 ⟨htags, h6⟩
  have hnew : (⟨card, content, links, r.milestones⟩ : CardRecord K).Kept env :=
    ⟨hkept.valid, hkept.project, hkept.path, hcardTitle, hkept.created,
      fun link hl => (hlinks link hl).congr ho, fun m hm => (hkept.milestones m hm).congr ho,
      fun _ => htags, hkept.milestoneIds⟩
  rw [← hrepo5] at hrewritten
  have hmirrored : Mirrored env { w5 with db := db6 } :=
    h.write h6 hnew hlive hrewritten (hr.noTrash hlive)
  rw [Ends.ite_iff]
  exact ⟨fun _ => commit_mirrored hmirrored _, fun _ => hmirrored⟩

/-- A nested `update_content` of a live card. -/
theorem updateContent_mirrored (henv : env.Lawful) (hj : w.journal = none) (h : Mirrored env w)
    {cardId : String} (hlive : ∀ c, w.db.cards[cardId]? = some c → c.deletedAt = none)
    (content : String) (updatedAt : Int) :
    Ends (updateContent env cardId content none updatedAt) w (fun _ w' => Mirrored env w')
      fun _ _ => True := by
  unfold updateContent
  simp only [Ends.bind_iff, Ends.get_iff, CardRepo.get?]
  split
  · trivial
  · next card hcard =>
    obtain ⟨-, links, milestones, body, hr⟩ := h.at hcard
    exact updateContentLocked_mirrored henv hj h hr (hlive card hcard) content (by simp) updatedAt

theorem addTagLocked_mirrored (henv : env.Lawful) (hj : w.journal = none) (h : Mirrored env w)
    {card : Card K} (hlive : ∀ c, w.db.cards[card.cardId]? = some c → c.deletedAt = none)
    (normalized : String) (updatedAt : Int) :
    Ends (addTagLocked env card normalized updatedAt) w (fun _ w' => Mirrored env w')
      fun _ _ => True := by
  unfold addTagLocked
  refine (requireProject_ends hj _).bind ?_ fun _ _ _ => trivial
  rintro - w1 ⟨rfl, -⟩
  refine (getContent_ends hj card).bind ?_ fun _ _ _ => trivial
  rintro content w2 rfl
  simp only [Ends.ite_iff, Ends.pure_iff, Ends.bind_iff]
  exact ⟨fun _ => h, fun _ => updateContent_mirrored henv hj h hlive _ _⟩

theorem removeTagLocked_mirrored (henv : env.Lawful) (hj : w.journal = none) (h : Mirrored env w)
    {card : Card K} (hlive : ∀ c, w.db.cards[card.cardId]? = some c → c.deletedAt = none)
    (normalized : String) (updatedAt : Int) :
    Ends (removeTagLocked env card normalized updatedAt) w (fun _ w' => Mirrored env w')
      fun _ _ => True := by
  unfold removeTagLocked
  refine (requireProject_ends hj _).bind ?_ fun _ _ _ => trivial
  rintro - w1 ⟨rfl, -⟩
  refine (getContent_ends hj card).bind ?_ fun _ _ _ => trivial
  rintro content w2 rfl
  dsimp only
  split
  · exact h
  · simp only [Ends.bind_iff]
    exact updateContent_mirrored henv hj h hlive _ _

/-! ## Moving -/

theorem moveLocked_mirrored (henv : env.Lawful) (hj : w.journal = none) (h : Mirrored env w)
    (projectId cardId : String) (hasParent : Bool) (parent : Option String) (key : Option K)
    (updatedAt : Int) :
    Ends (moveLocked env projectId cardId hasParent parent key updatedAt) w
      (fun _ w' => Mirrored env w') fun _ _ => True := by
  unfold moveLocked
  refine (requireProject_ends hj _).bind ?_ fun _ _ _ => trivial
  rintro - w1 ⟨rfl, -⟩
  refine (rereadCard_ends cardId w1).bind ?_ fun _ _ _ => trivial
  rintro card w2 ⟨rfl, hcard⟩
  obtain ⟨rfl, links, milestones, body, hr⟩ := h.at hcard
  simp only [Ends.bind_iff, Ends.fromExcept_iff, Ends.ite_iff, Ends.throw_iff, Ends.get_iff,
    Ends.pure_iff, implies_true, true_and, and_true]
  refine fun _ _ _ _ _ => ⟨fun hmoved => ?_, fun _ => h⟩
  revert hmoved
  generalize (if hasParent then parent else card.parentCardId) = p
  generalize (key.getD _ : K) = k
  intro hmoved
  refine (readCardFile_filed henv hr.kept hr.filed).mono ?_ fun _ _ _ => trivial
  rintro ⟨raw, parsed⟩ w3 ⟨rfl, hlive, hraw, -, hms, hbody⟩
  dsimp only at hraw hms hbody hlive ⊢
  rw [hms, hbody]
  set listed := LinkRepo.listOutgoing w3.db card.projectId card.cardId with hlisted
  set card' : Card K := { card with parentCardId := p, sortKey := k } with hcard'
  have ho : SameOwner card card' := ⟨rfl, rfl, rfl⟩
  have hkept : (⟨card', body, listed, milestones⟩ : CardRecord K).Kept env := by
    obtain ⟨hvalid, hproj, hpath, htitle, hcreated, -, hmilestones, htags, hids⟩ := hr.kept
    exact ⟨hvalid, hproj, hpath, htitle, hcreated,
      fun link hl => ((h.edited hr).listOutgoing_fits hr.kept link hl).congr ho,
      fun m hm => (hmilestones m hm).congr ho, htags, hids⟩
  refine (replaceCardFile_ends _ _ _ _ _).mono ?_ fun _ _ _ => trivial
  rintro changed w4 h4
  cases changed with
  | false =>
    -- The file cannot have the new place already.
    obtain ⟨-, henc⟩ := h4
    obtain ⟨raw', plain, hraw', henc', ht⟩ := hr.filed.bytes
    rw [Card.filePath_live hlive, hraw, Option.some.injEq] at hraw'
    subst hraw'
    have hplain := (henc.decode henv.privacy).symm.trans (henc'.decode henv.privacy)
    obtain ⟨_, _, hnew⟩ := CardRecord.IsText.parse (r := ⟨card', body, listed, milestones⟩)
      ⟨_, updatedAt, rfl⟩ henv hkept
    obtain ⟨_, _, hold⟩ := ht.parse henv hr.kept
    rw [Except.ok.injEq] at hplain
    rw [← hplain] at hold
    have hsame := congrArg (fun file => (file.card.parentCardId, file.card.sortKey)) (hnew.symm.trans hold)
    simp only [hcard', Prod.mk.injEq] at hsame
    exact absurd hmoved (by simp [hsame.1, hsame.2])
  | true =>
    obtain ⟨-, hwrote⟩ := h4
    change Wrote env card.relPath _ w3 w4 at hwrote
    rw [hr.kept.path] at hwrote
    obtain ⟨hrewritten, hdb⟩ := Rewritten.of_wrote (r := ⟨card', body, listed, milestones⟩) hwrote
    have hlinked := (h.edited hr).listedLinks hr.kept
    refine ⟨fun _ => ?_, fun hno => absurd rfl hno⟩
    simp only [Ends.onDb_iff, hdb]
    refine (hlinked.update "move card" (f := fun c => { c with parentCardId := p, sortKey := k, updatedAt })
      rfl rfl fun c he => ?_).mono (fun _ db5 h5 => ?_) fun _ _ _ => trivial
    · simp only [Card.untimed, Card.mk.injEq] at he ⊢
      tauto
    refine (ftsUpsertCard_edited (w := { w4 with db := db5 }) h5 _ _ _ _).mono ?_ fun _ _ _ => trivial
    rintro - w6 ⟨h6, hrepo, -⟩
    rw [← hrepo] at hrewritten
    exact commit_mirrored (h.write h6 (hkept.retimed updatedAt) hlive hrewritten (hr.noTrash hlive)) _

/-! ## Creating and deleting -/

theorem createLocked_mirrored (hj : w.journal = none) (h : Mirrored env w) {card : Card K}
    (hcard : Creating card) (content : String) (key : Option K) :
    Ends (createLocked env card content key) w (fun _ w' => Mirrored env w') fun _ _ => True := by
  refine (createLocked_ends hj h.keyed fun k t ht => (h.tagKeys k t ht).1).mono ?_
    fun _ _ _ => trivial
  rintro - w' ⟨hcan, hcreated⟩
  have hnone := h.noCard card.cardId hcan.row
  obtain ⟨bytes, henc, hrepo⟩ := hcreated.repo
  rw [createdPlain, hnone.listOutgoing_nil] at henc
  have htags : TagsSet env w.db card.cardId (env.extractTags content) w'.db.cardTags := by
    have hrows := hcreated.tags
    rw [hcan.project] at hrows
    exact .of_rows h.tagKeys hrows
  have hedit : EditedTo env w.db ⟨newCard w.db card key, content, [], []⟩ w'.db :=
    .created hnone h.linksKeyed hcard.live hcreated.cards hcreated.links hcreated.milestones htags
  have hkept : (⟨newCard w.db card key, content, [], []⟩ : CardRecord K).Kept env :=
    ⟨hcard.valid, hcan.project, rfl, hcard.title, hcard.created, by simp, by simp, fun _ => hcan.tags,
      by simp⟩
  refine h.write hedit hkept hcard.live ⟨bytes, _, ?_, henc, ⟨_, _, rfl⟩⟩
    (h.noFile hcard.valid hcan.row true)
  rw [hrepo]
  rfl

end CardStore

/-- A permanent deletion of a card that no other card refers to. -/
theorem HardDeleted.mirrored [SortKey K] {env : Env K} {w w' : World K} {d : String} {card : Card K}
    (h : HardDeleted d card w w') (hw : Mirrored env w) (hd : w.db.cards[d]? = some card)
    (htrashed : card.deletedAt.isSome) (hfree : Unreferenced w.db d) : Mirrored env w' := by
  obtain ⟨rfl, links, milestones, body, hr⟩ := hw.at hd
  have hlen : 4 ≤ card.cardId.length := hr.kept.length
  refine hw.step (S := {card.cardId}) ?_ (fun path hpath => ?_) (fun x hx => ?_) (fun key t ht => ?_) ?_
  · rintro x rfl
    exact hlen
  · rw [h.work, Map.get_erase_ne]
    rintro rfl
    exact hpath _ rfl (.inr rfl)
  · change x ≠ card.cardId at hx
    refine ⟨?_, fun key l hl => ?_, fun mid m hm => ?_, fun tag => ?_⟩
    · rw [h.cards, if_neg hx]
      cases hc : w.db.cards[x]? with
      | none => rfl
      | some c =>
        have hchild := hfree.children x c hc
        simp [Card.orphaned, hchild]
    · rw [h.links]
      refine ⟨fun hrow => hrow.1, fun hrow => ⟨hrow, fun hown => hx (hl.symm.trans hown.2), ?_⟩⟩
      rintro ⟨-, hto, htype⟩
      exact hx (hl.symm.trans (hfree.links key l hrow hto htype))
    · rw [h.milestones]
      exact ⟨fun hrow => hrow.1, fun hrow => ⟨hrow, hm ▸ hx⟩⟩
    · simp only [h.tags]
      constructor
      · rintro ⟨t, hrow, -⟩
        exact ⟨t, hrow⟩
      · rintro ⟨t, hrow⟩
        have hk := (hw.tagKeys _ t hrow).1
        simp only [CardTag.key, List.cons.injEq, and_true] at hk
        exact ⟨t, hrow, fun he => hx (hk.2.1.trans he)⟩
  · exact hw.tagKeys key t ((h.tags key t).mp ht).1
  · rintro x rfl
    have hnone : SliceIs env w'.db card.cardId none := by
      refine ⟨?_, fun key l hl => ?_, fun mid m hm => ?_, fun tag => ?_⟩
      · rw [h.cards, if_pos rfl]
        rfl
      · rw [h.links]
        simp only [reduceCtorEq, false_and, exists_false, iff_false, not_and]
        intro hrow hno
        obtain ⟨-, hmem⟩ := linkRows_fits hr.kept.links ((hr.slice.linkRow hl).mp hrow)
        exact absurd hl (hno (hr.kept.links l hmem).project)
      · rw [h.milestones]
        simp [hm]
      · simp only [h.tags, reduceCtorEq, false_and, exists_false, iff_false, not_exists, not_and, not_not]
        intro t hrow
        have hk := (hw.tagKeys _ t hrow).1
        simp only [CardTag.key, List.cons.injEq, and_true] at hk
        exact hk.2.1.symm
    refine .inr ⟨hnone, fun isTrash => ?_⟩
    rw [h.work]
    cases isTrash with
    | true =>
      change (w.repo.work.erase (trashPath card.cardId))[trashPath card.cardId]? = none
      rw [Map.get_erase, if_pos rfl]
    | false =>
      have honly := hr.filed.only
      rw [htrashed] at honly
      rw [Map.get_erase_ne]
      · exact honly
      · exact (livePath_ne_trashPath _ _).symm

end HolderCore
