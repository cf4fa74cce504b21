import HolderCore.Card.Commits
import HolderCore.Card.FileLemmas
import HolderCore.Card.Runs

/-! # What the search finds of the cards

Every call of the store keeps `cards_fts` in step with the live cards and the bodies of their files,
as long as no trashed card is created or edited. -/

namespace HolderCore

/-- One card's rows and its live file. -/
structure IndexedAt [NatCast K] (env : Env K) (w : World K) (id : String) : Prop where
  place : ∀ c, w.db.cards[id]? = some c → 4 ≤ id.length ∧ c.relPath = livePath id ∧
    ∀ p, c.parentCardId = some p → ∃ c', w.db.cards[p]? = some c'
  live : ∀ c, w.db.cards[id]? = some c → c.deletedAt = none → ∃ raw plain,
    w.repo.work[livePath id]? = some raw ∧ decodeBlobForProject env raw = .ok plain ∧
      w.db.cardsFts[id]? = some ⟨c.projectId, c.title, (parseCardFile env.yaml plain).body⟩
  only : ∀ row, w.db.cardsFts[id]? = some row → ∃ c, w.db.cards[id]? = some c ∧ c.deletedAt = none

/-- A project at rest whose live cards are indexed with their titles and bodies, and no others. -/
structure Indexed [NatCast K] (env : Env K) (w : World K) : Prop where
  tidy : Tidy env w
  cards : ∀ id, IndexedAt env w id

/-- The same rows of `cards` and `cards_fts`, the same live files of the cards, and nothing
interrupted. -/
structure SameIndex (w w' : World K) : Prop where
  cards : w'.db.cards = w.db.cards
  fts : w'.db.cardsFts = w.db.cardsFts
  work : ∀ (id : String) (c : Card K), w.db.cards[id]? = some c →
    w'.repo.work[livePath id]? = w.repo.work[livePath id]?
  journal : w'.journal = none
  valid : w'.repo.Valid

/-- A program that changes none of that, whether it returns or throws. -/
def Still (m : StoreM K α) : Prop := ∀ w, Keeps (SameIndex w) m

section
variable {env : Env K} {w w' w'' : World K}

theorem Tidy.sameIndex (h : Tidy env w) : SameIndex w w := 
  ⟨rfl, rfl, fun _ _ _ => rfl, h.journal, h.valid⟩

theorem SameIndex.trans (h : SameIndex w w') (h' : SameIndex w' w'') : SameIndex w w'' :=
  ⟨h'.cards.trans h.cards, h'.fts.trans h.fts,
    fun id c hc => (h'.work id c (by rw [h.cards]; exact hc)).trans (h.work id c hc), h'.journal,
    h'.valid⟩

theorem SameIndex.tidy (h : SameIndex w w') (hw : Tidy env w) : Tidy env w' :=
  hw.of_atCards ⟨h.cards, h.journal, h.valid⟩

theorem Indexed.same [NatCast K] (hw : Indexed env w) (h : SameIndex w w') : Indexed env w' where
  tidy := h.tidy hw.tidy
  cards id := by
    obtain ⟨hplace, hlive, honly⟩ := hw.cards id
    refine ⟨by rw [h.cards]; exact hplace, fun c hc hdel => ?_, by rw [h.cards, h.fts]; exact honly⟩
    rw [h.cards] at hc
    rw [h.work id c hc, h.fts]
    exact hlive c hc hdel

/-- A step that touches one card's rows and live file, and ends with them in step. -/
theorem Indexed.step [NatCast K] (hw : Indexed env w) (ht : Tidy env w') {id : String}
    (hlen : 4 ≤ id.length)
    (hcards : ∀ id' : String, id' ≠ id → w'.db.cards[id']? = w.db.cards[id']?)
    (hrow : (∃ c, w.db.cards[id]? = some c) → ∃ c, w'.db.cards[id]? = some c)
    (hfts : ∀ id' : String, id' ≠ id → w'.db.cardsFts[id']? = w.db.cardsFts[id']?)
    (hwork : ∀ id' : String, livePath id' ≠ livePath id →
      w'.repo.work[livePath id']? = w.repo.work[livePath id']?)
    (hat : IndexedAt env w' id) : Indexed env w' where
  tidy := ht
  cards id' := by
    by_cases hid : id' = id
    · rw [hid]
      exact hat
    obtain ⟨hplace, hlive, honly⟩ := hw.cards id'
    refine ⟨fun c hc => ?_, fun c hc hdel => ?_, fun row hrow' => ?_⟩
    · rw [hcards id' hid] at hc
      obtain ⟨hlen', hrel, hparent⟩ := hplace c hc
      refine ⟨hlen', hrel, fun p hp => ?_⟩
      by_cases hpid : p = id
      · subst hpid
        exact hrow (hparent p hp)
      · rw [hcards p hpid]
        exact hparent p hp
    · rw [hcards id' hid] at hc
      have hne : livePath id' ≠ livePath id := fun he =>
        hid (livePath_inj (hplace c hc).1 hlen he)
      rw [hfts id' hid, hwork id' hne]
      exact hlive c hc hdel
    · rw [hfts id' hid] at hrow'
      rw [hcards id' hid]
      exact honly row hrow'

/-- What the code writes to a card's file has the body that it was given. -/
theorem Encoded.body [NatCast K] (henv : env.Lawful) {card : Card K} {links : List CardLink}
    {milestones : List Milestone} {body : String} {bytes : Bytes}
    (h : Encoded env (renderCardFrontMatter env.yaml card links milestones ++ body.toList) bytes) :
    ∃ plain, decodeBlobForProject env bytes = .ok plain ∧
      (parseCardFile env.yaml plain).body = body :=
  ⟨_, h.decodeForProject henv.privacy, by rw [parseCardFile_render henv.yaml]⟩

/-- What the store reads of a file the rebuild reads too. -/
theorem decodeBlobForProject_of_card {raw plain : Bytes} (h : decodeCardBlob env raw = .ok plain) :
    decodeBlobForProject env raw = .ok plain := by
  unfold decodeCardBlob requireProjectKeyId at h
  unfold decodeBlobForProject
  split at h
  · next hm =>
    rw [if_pos hm]
    cases hk : env.project.projectKeyId with
    | none => simp only [hk, bind, Except.bind] at h; cases h
    | some keyId =>
      simp only [hk, bind, Except.bind] at h ⊢
      cases he : keyId.isEmpty with
      | true => simp only [he, if_true] at h; cases h
      | false => simpa [he] using h
  · next hm =>
    rw [if_neg hm]
    exact h

end

/-! ## Programs that leave the index alone -/

theorem onDb_still {m : DbM K α} (h : ∀ db, Ends m db
    (fun _ db' => db'.cards = db.cards ∧ db'.cardsFts = db.cardsFts)
    fun _ db' => db'.cards = db.cards ∧ db'.cardsFts = db.cardsFts) : Still (onDb m) := by
  intro w w1 h1
  rw [Ends.onDb_iff]
  refine (h w1.db).mono ?_ ?_
  · rintro - db ⟨hcards, hfts⟩
    exact ⟨hcards.trans h1.cards, hfts.trans h1.fts, h1.work, h1.journal, h1.valid⟩
  · rintro - db ⟨hcards, hfts⟩
    exact ⟨hcards.trans h1.cards, hfts.trans h1.fts, h1.work, h1.journal, h1.valid⟩

namespace CardStore
variable {env : Env K}

theorem setTags_still (projectId cardId : String) (tags : List String) (now : Int) :
    Still (K := K) (onDb (TagRepo.setTagsForCard projectId cardId tags now)) := by
  refine onDb_still fun db => ?_
  unfold TagRepo.setTagsForCard TagRepo.deleteTagsForCard
  simp only [Ends.bind_iff, Ends.modify_iff]
  refine (TagRepo.insertTags_ends _ _ _ _ _).mono ?_ ?_
  · rintro - db' ⟨rfl, -⟩
    exact ⟨rfl, rfl⟩
  · rintro - db' ⟨⟨rows, rfl, -⟩, -⟩
    exact ⟨rfl, rfl⟩

theorem replaceMilestones_still (projectId cardId : String) (milestones : List Milestone) :
    Still (K := K) (onDb (MilestoneRepo.replaceForCard projectId cardId milestones)) := by
  refine onDb_still fun db => ?_
  unfold MilestoneRepo.replaceForCard MilestoneRepo.deleteForCard
  simp only [Ends.bind_iff, Ends.modify_iff]
  refine (MilestoneRepo.insertAll_ends _ _ _ _).mono ?_ ?_
  · rintro - db' ⟨rfl, -⟩
    exact ⟨rfl, rfl⟩
  · rintro - db' ⟨⟨rows, rfl, -⟩, -⟩
    exact ⟨rfl, rfl⟩

theorem upsertLinks_still (projectId cardId : String) (links : List CardLink) :
    Still (K := K) (onDb (LinkRepo.upsertLinks projectId cardId links)) := by
  refine onDb_still fun db => (LinkRepo.upsertLinks_ends _ _ _ _).mono ?_ ?_
  · rintro - db' ⟨rfl, -⟩
    exact ⟨rfl, rfl⟩
  · rintro - db' ⟨⟨rows, rfl⟩, -⟩
    exact ⟨rfl, rfl⟩

theorem commit_still (message : String) : Still (K := K) (commit message) := by
  intro w w1 h1
  simp only [commit, Ends.onRepo_iff, Except.ok.injEq, forall_eq', reduceCtorEq, false_imp_iff,
    implies_true, and_true]
  exact ⟨h1.cards, h1.fts, h1.work, h1.journal, h1.valid.commit message⟩

end CardStore

/-! ## Journalled changes -/

/-- What one change leaves in `cards_fts`. -/
theorem changeRows_fts (env : Env K) (hfts : env.fts = true) (record : ParsedCardFile K) (db : Db K) :
    Ends (changeRows env record) db (fun _ db' => db'.cardsFts =
      if record.card.deletedAt.isSome then db.cardsFts.erase record.card.cardId
      else db.cardsFts.insert record.card.cardId
        ⟨record.card.projectId, record.card.title, record.body⟩) fun _ _ => True := by
  unfold changeRows
  refine (restoreSnapshot_ends record.card db).bind ?_ fun _ _ _ => trivial
  rintro - db1 ⟨h1, -⟩
  simp only [Ends.bind_iff, LinkRepo.deleteLinksFrom, Ends.modify_iff]
  refine (LinkRepo.upsertLinks_ends _ _ _ _).mono ?_ fun _ _ _ => trivial
  rintro - db2 ⟨h2, -⟩
  have hrows : db2.cardsFts = db.cardsFts := by rw [h2, h1]
  cases hdel : record.card.deletedAt with
  | some at_ =>
    simp only [Option.isSome_some, if_true, Ends.bind_iff, hfts, FtsIndexer.deleteCard,
      TagRepo.deleteTagsForCard, MilestoneRepo.deleteForCard, Ends.modify_iff, hrows]
  | none =>
    simp only [Option.isSome_none, Bool.false_eq_true, if_false, if_true, Ends.bind_iff, hfts,
      FtsIndexer.upsertCard, Ends.modify_iff, TagRepo.setTagsForCard, TagRepo.deleteTagsForCard,
      MilestoneRepo.replaceForCard, MilestoneRepo.deleteForCard]
    refine (TagRepo.insertTags_ends _ _ _ _ _).mono ?_ fun _ _ _ => trivial
    rintro - db3 ⟨h3, -⟩
    refine (MilestoneRepo.insertAll_ends _ _ _ _).mono ?_ fun _ _ _ => trivial
    rintro - db4 ⟨h4, -⟩
    rw [h4, h3]
    simp only [hrows]

/-- The rows of `cards_fts` after changes to different cards. -/
theorem changeRows_fts_all {env : Env K} (hfts : env.fts = true) {records : List (ParsedCardFile K)}
    {db db' : Db K} (hnodup : (records.map (·.card.cardId)).Nodup)
    (h : records.forM (changeRows env) db = .ok () db') :
    (∀ record ∈ records, db'.cardsFts[record.card.cardId]? =
      if record.card.deletedAt.isSome then none
      else some ⟨record.card.projectId, record.card.title, record.body⟩) ∧
    ∀ id : String, (∀ record ∈ records, record.card.cardId ≠ id) →
      db'.cardsFts[id]? = db.cardsFts[id]? := by
  induction records generalizing db with
  | nil =>
    cases h
    exact ⟨by simp, fun _ _ => rfl⟩
  | cons record records ih =>
    obtain ⟨hfresh, hnodup⟩ := List.nodup_cons.mp hnodup
    rw [List.forM] at h
    cases hone : changeRows env record db with
    | error e db1 =>
      simp only [bind, EStateM.bind, hone] at h
      cases h
    | ok u db1 =>
      have hrow := (changeRows_fts env hfts record db).ok hone
      simp only [bind, EStateM.bind, hone] at h
      obtain ⟨hchanged, hkept⟩ := ih hnodup h
      refine ⟨fun r hr => ?_, fun id hid => ?_⟩
      · rcases List.mem_cons.mp hr with rfl | hr
        · rw [hkept _ fun r' hr' he => hfresh (List.mem_map.mpr ⟨r', hr', he⟩), hrow]
          split
          · rw [Map.get_erase, if_pos rfl]
          · rw [Map.get_insert, if_pos rfl]
        · exact hchanged r hr
      · have hne : record.card.cardId ≠ id := hid record List.mem_cons_self
        rw [hkept id fun r hr => hid r (List.mem_cons_of_mem _ hr), hrow]
        split
        · rw [Map.get_erase_ne hne]
        · rw [Map.get_insert_ne hne]

section
variable {env : Env K} {w w' : World K} {changes : List (CardChange K)}

theorem Restored.sameIndex (h : Restored w w') (hw : Tidy env w) : SameIndex w w' :=
  ⟨by rw [h.db], by rw [h.db], fun _ _ _ => by rw [h.work], h.journal.trans hw.journal, h.valid hw.valid⟩

/-- Changes to rows of the project leave every card in step with its new file. -/
theorem Committed.indexed [NatCast K] (henv : env.Lawful) (hfts : env.fts = true)
    (h : Committed env w changes w') (hw : Indexed env w)
    (hrows : ∀ change ∈ changes, ∃ row, w.db.cards[change.current.cardId]? = some row ∧
      change.target.card.projectId = row.projectId) : Indexed env w' := by
  obtain ⟨message, m0, hplan, happlied⟩ := h.mutation
  have htidy := happlied.tidy hplan h.journal hw.tidy
  obtain ⟨m, hm, hint, hrun⟩ := h.intends
  have hids : (changes.map (·.prepared.target)).map (·.card.cardId) =
      changes.map (·.current.cardId) := by
    rw [List.map_map]
    exact List.map_congr_left h.ids
  have hnodup : ((changes.map (·.prepared.target)).map (·.card.cardId)).Nodup := hids ▸ h.nodup
  have hcards := changeRows_cards hw.tidy.keyed hnodup hrun
  obtain ⟨hftsNew, hftsKept⟩ := changeRows_fts_all hfts hnodup hrun
  have hexists : ∀ p : String, (∃ c, w.db.cards[p]? = some c) → ∃ c, w'.db.cards[p]? = some c := by
    intro p ⟨c, hc⟩
    by_cases hp : ∃ change ∈ changes, change.current.cardId = p
    · obtain ⟨change, hmem, rfl⟩ := hp
      have hrow := hcards.changed _ (List.mem_map.mpr ⟨change, hmem, rfl⟩)
      rw [show change.prepared.target.card.cardId = change.current.cardId from h.ids change hmem,
        hc] at hrow
      exact ⟨_, hrow⟩
    · refine ⟨c, ?_⟩
      rw [hcards.kept p fun record hr he => ?_]
      · exact hc
      · obtain ⟨change, hmem, rfl⟩ := List.mem_map.mp hr
        exact hp ⟨change, hmem, (h.ids change hmem).symm.trans he⟩
  refine ⟨htidy, fun id => ?_⟩
  by_cases hid : ∃ change ∈ changes, change.current.cardId = id
  · obtain ⟨change, hmem, rfl⟩ := hid
    obtain ⟨row, hrow, hproj⟩ := hrows change hmem
    obtain ⟨hlen, -⟩ := h.checks hmem
    have hrec : change.prepared.target ∈ changes.map (·.prepared.target) :=
      List.mem_map.mpr ⟨change, hmem, rfl⟩
    have hcid : change.prepared.target.card.cardId = change.current.cardId := h.ids change hmem
    have hrow' := hcards.changed _ hrec
    have hfts' := hftsNew _ hrec
    rw [hcid, hrow, Option.map_some] at hrow'
    rw [hcid] at hfts'
    refine ⟨fun c hc => ?_, fun c hc hdel => ?_, fun r hr => ?_⟩
    · rw [hrow'] at hc
      cases hc
      refine ⟨hlen, rfl, fun p hp => hexists p ?_⟩
      exact hcards.parents _ hrec p hp ⟨row, by rw [hcid]; exact hrow⟩
    · rw [hrow'] at hc
      cases hc
      have hlive : change.target.card.deletedAt = none := hdel
      obtain ⟨bytes, hbytes, henc⟩ := hint.target change hmem
      have hpath : change.target.card.filePath = livePath change.current.cardId := by
        rw [Card.filePath_live hlive, h.ids change hmem]
      obtain ⟨plain, hplain, hbody⟩ := henc.body henv
      refine ⟨bytes, plain, ?_, hplain, ?_⟩
      · rw [hm.landed.work, ← hpath, hbytes]
        rfl
      · rw [hfts', hbody]
        have hsome : change.prepared.target.card.deletedAt.isSome = false := by
          simp [CardChange.prepared, hlive]
        rw [hsome]
        simp only [Bool.false_eq_true, if_false, Option.some.injEq, CardFts.mk.injEq, and_true]
        exact ⟨hproj, rfl⟩
    · rw [hfts'] at hr
      split at hr
      · cases hr
      · next hsome =>
        refine ⟨_, hrow', ?_⟩
        simpa using hsome
  · have hother : ∀ record ∈ changes.map (·.prepared.target), record.card.cardId ≠ id := by
      intro record hr he
      obtain ⟨change, hmem, rfl⟩ := List.mem_map.mp hr
      exact hid ⟨change, hmem, (h.ids change hmem).symm.trans he⟩
    obtain ⟨hplace, hlive, honly⟩ := hw.cards id
    have hrow : w'.db.cards[id]? = w.db.cards[id]? := hcards.kept id hother
    have hfts' : w'.db.cardsFts[id]? = w.db.cardsFts[id]? := hftsKept id hother
    refine ⟨fun c hc => ?_, fun c hc hdel => ?_, fun r hr => ?_⟩
    · rw [hrow] at hc
      obtain ⟨hlen, hrel, hparent⟩ := hplace c hc
      exact ⟨hlen, hrel, fun p hp => hexists p (hparent p hp)⟩
    · rw [hrow] at hc
      have hwork : w'.repo.work[livePath id]? = w.repo.work[livePath id]? := by
        rw [hm.landed.work, hint.other]
        · rfl
        · intro change hmem
          have hne : change.current.cardId ≠ id := fun he => hid ⟨change, hmem, he⟩
          have hlen := (h.checks hmem).1
          refine ⟨fun he => hne ?_, fun he => hne ?_⟩
          · exact CardPath.inj hlen (hplace c hc).1 (h.cardPath hmem) (he ▸ .inl rfl)
          · exact CardPath.inj hlen (hplace c hc).1 change.current.cardPath (he ▸ .inl rfl)
      rw [hwork, hfts']
      exact hlive c hc hdel
    · rw [hfts'] at hr
      rw [hrow]
      exact honly r hr

theorem Rewrites.row [NatCast K] {now : Int} {change : CardChange K} (h : Rewrites env w now change) :
    ∃ row, w.db.cards[change.current.cardId]? = some row ∧
      change.target.card.projectId = row.projectId := by
  obtain ⟨row, _, _, _, _, _, hrow, -, -, -, hid, -, htarget⟩ := h
  exact ⟨row, by rw [hid]; exact hrow, by rw [htarget]; rfl⟩

theorem BringsBack.row [NatCast K] {oid : Nat} {now : Int} {change : CardChange K}
    (h : BringsBack env w oid now change) : ∃ row, w.db.cards[change.current.cardId]? = some row ∧
      change.target.card.projectId = row.projectId := by
  obtain ⟨row, _, _, _, _, _, hrow, -, -, -, -, hcurrent, htarget⟩ := h
  exact ⟨row, by rw [hcurrent]; exact hrow, by rw [htarget]; rfl⟩

end

end HolderCore
