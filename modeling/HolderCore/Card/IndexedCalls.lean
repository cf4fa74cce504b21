import HolderCore.Card.Indexed
import HolderCore.Card.RepairLemmas

/-! # Calls that keep the index

One theorem for each operation of the store. They hold whether the operation returns or throws. -/

namespace HolderCore

section
variable {env : Env K} {w w' : World K}

theorem Still.keeps [NatCast K] {m : StoreM K α} (h : Still m) : Keeps (Indexed env) m := fun w hw =>
  (h w w hw.tidy.sameIndex).mono (fun _ _ h' => hw.same h') fun _ _ h' => hw.same h'

/-- A row of the project stored under its own id. -/
theorem Tidy.put (hw : Tidy env w) {card : Card K} (hproj : card.projectId = env.project.projectId)
    (hcards : w'.db.cards = w.db.cards.insert card.cardId card) (hj : w'.journal = none)
    (hv : w'.repo.Valid) : Tidy env w' := by
  refine ⟨hj, hv, fun id c hc => ?_, fun id c hc => ?_⟩
  · rw [hcards, Map.get_insert] at hc
    split at hc
    · next hid =>
      cases hc
      exact hid
    · exact hw.keyed id c hc
  · rw [hcards, Map.get_insert] at hc
    split at hc
    · cases hc
      exact hproj
    · exact hw.project id c hc

/-- The columns that the index depends on. -/
def SameLabel (c c' : Card K) : Prop :=
  c'.cardId = c.cardId ∧ c'.projectId = c.projectId ∧ c'.title = c.title ∧
    c'.deletedAt = c.deletedAt ∧ c'.relPath = c.relPath

/-- A statement that sets none of these columns. -/
theorem update_indexed [NatCast K] (what id : String) {f : Card K → Card K}
    (hf : ∀ c, SameLabel c (f c)) (hw : Indexed env w) :
    Ends (onDb (CardRepo.update what id f)) w (fun _ w' => Indexed env w' ∧ w'.repo = w.repo ∧
      ∀ c, w.db.cards[id]? = some c → w'.db.cards[id]? = some (f c)) fun _ w' => w' = w := by
  rw [Ends.onDb_iff]
  refine (CardRepo.update_ends what id f w.db).mono ?_ ?_
  · rintro - db (⟨hnone, rfl⟩ | ⟨c, hc, -, hparent, rfl⟩)
    · exact ⟨hw, rfl, fun c hc => by rw [hnone] at hc; cases hc⟩
    · obtain ⟨hcid, hproj, htitle, hdel, hrel⟩ := hf c
      have hkey := hw.tidy.keyed id c hc
      obtain ⟨hlen, hpath, -⟩ := (hw.cards id).place c hc
      have hid : (f c).cardId = id := hcid.trans hkey
      refine ⟨?_, rfl, fun c' hc' => ?_⟩
      · refine hw.step (hw.tidy.put (hproj.trans (hw.tidy.project id c hc)) ?_ hw.tidy.journal
          hw.tidy.valid) hlen (fun id' hne => Map.get_insert_ne (Ne.symm hne))
          (fun _ => ⟨f c, by rw [Map.get_insert, if_pos rfl]⟩) (fun _ _ => rfl) (fun _ _ => rfl) ?_
        · rw [hid]
        · refine ⟨fun c' hc' => ?_, fun c' hc' hlive => ?_, fun row hrow => ?_⟩
          · rw [Map.get_insert, if_pos rfl] at hc'
            cases hc'
            refine ⟨hlen, hrel.trans hpath, fun p hp => ?_⟩
            simp only [parentExists, hp, Bool.or_eq_true, Std.ExtTreeMap.contains_iff_mem,
              beq_iff_eq] at hparent
            rcases hparent with hmem | rfl
            · obtain ⟨c', hc'⟩ := Map.mem_iff.mp hmem
              by_cases hpid : id = p
              · exact ⟨f c, by rw [Map.get_insert, if_pos hpid]⟩
              · exact ⟨c', by rw [Map.get_insert_ne hpid]; exact hc'⟩
            · exact ⟨f c, by rw [Map.get_insert, if_pos hid.symm]⟩
          · rw [Map.get_insert, if_pos rfl] at hc'
            cases hc'
            rw [hproj, htitle]
            exact (hw.cards id).live c hc (hdel ▸ hlive)
          · obtain ⟨c', hc', hlive⟩ := (hw.cards id).only row hrow
            rw [hc] at hc'
            cases hc'
            exact ⟨f c, by rw [Map.get_insert, if_pos rfl], hdel.trans hlive⟩
      · rw [hc] at hc'
        cases hc'
        rw [Map.get_insert, if_pos rfl]
  · rintro - db ⟨rfl, -⟩
    rfl

theorem update_keeps [NatCast K] (what id : String) {f : Card K → Card K}
    (hf : ∀ c, SameLabel c (f c)) : Keeps (Indexed env) (onDb (CardRepo.update what id f)) :=
  fun w hw => (update_indexed what id hf hw).mono (fun _ _ h => h.1) (by rintro - w' rfl; exact hw)

theorem touchUpdated_keeps [NatCast K] (id : String) (updatedAt : Int) :
    Keeps (Indexed env) (onDb (CardRepo.touchUpdated id updatedAt)) :=
  update_keeps _ _ fun _ => ⟨rfl, rfl, rfl, rfl, rfl⟩

theorem move_indexed [NatCast K] (id : String) (parent : Option String) (key : K) (updatedAt : Int)
    (hw : Indexed env w) {c : Card K} (hc : w.db.cards[id]? = some c) :
    Ends (onDb (CardRepo.move id parent key updatedAt)) w (fun _ w' => Indexed env w' ∧
      w'.repo = w.repo ∧ w'.db.cards[id]? = some (c.placed parent key updatedAt)) fun _ w' => w' = w :=
  (update_indexed "move card" id (f := fun c => c.placed parent key updatedAt)
    (fun _ => ⟨rfl, rfl, rfl, rfl, rfl⟩) hw).mono (fun _ _ ⟨h, hrepo, hrow⟩ => ⟨h, hrepo, hrow c hc⟩)
    fun _ _ h => h

/-- A file of the card with this body. -/
def HasBody [NatCast K] (env : Env K) (w : World K) (id body : String) : Prop :=
  ∃ raw plain, w.repo.work[livePath id]? = some raw ∧ decodeBlobForProject env raw = .ok plain ∧
    (parseCardFile env.yaml plain).body = body

/-- A file rewritten with the body it had. -/
theorem Indexed.rewritten [NatCast K] (henv : env.Lawful) (hw : Indexed env w) {id body : String}
    {card : Card K} {links : List CardLink} {milestones : List Milestone} (hlen : 4 ≤ id.length)
    (hbody : HasBody env w id body) (hwrote : Wrote env (livePath id)
      (renderCardFrontMatter env.yaml card links milestones ++ body.toList) w w') :
    Indexed env w' ∧ w'.db = w.db ∧ HasBody env w' id body := by
  obtain ⟨bytes, ivs, henc, rfl⟩ := hwrote
  obtain ⟨plain', hplain', hbody'⟩ := henc.body henv
  have hfile : (w.repo.work.insert (livePath id) bytes)[livePath id]? = some bytes := by
    rw [Map.get_insert, if_pos rfl]
  refine ⟨?_, rfl, bytes, plain', hfile, hplain', hbody'⟩
  refine hw.step (hw.tidy.of_atCards ⟨rfl, hw.tidy.journal, hw.tidy.valid.of_eq rfl rfl⟩) hlen
    (fun _ _ => rfl) (fun h => h) (fun _ _ => rfl)
    (fun id' hne => Map.get_insert_ne (Ne.symm hne)) ?_
  obtain ⟨hplace, hlive, honly⟩ := hw.cards id
  refine ⟨hplace, fun c hc hdel => ⟨bytes, plain', hfile, hplain', ?_⟩, honly⟩
  obtain ⟨raw, plain, hraw, hplain, hrow⟩ := hlive c hc hdel
  obtain ⟨raw', plain'', hraw', hplain'', hsame⟩ := hbody
  rw [hraw] at hraw'
  cases hraw'
  rw [hplain] at hplain''
  cases hplain''
  rw [hbody', ← hsame]
  exact hrow

/-- The row that is there already. -/
theorem ftsUpsertCard_same [NatCast K] (hw : Indexed env w) {c : Card K} {id body : String}
    (hrow : w.db.cards[id]? = some c) (hlive : c.deletedAt = none) (hbody : HasBody env w id body) :
    Ends (ftsUpsertCard env id c.projectId c.title body) w (fun _ w' => w' = w) fun _ _ => False := by
  obtain ⟨raw, plain, hraw, hplain, hfts⟩ := (hw.cards id).live c hrow hlive
  obtain ⟨raw', plain', hraw', hplain', rfl⟩ := hbody
  rw [hraw] at hraw'
  cases hraw'
  rw [hplain] at hplain'
  cases hplain'
  unfold ftsUpsertCard
  simp only [Ends.ite_iff, Ends.onDb_iff, FtsIndexer.upsertCard, Ends.modify_iff, Ends.pure_iff,
    implies_true, and_true]
  intro _
  rw [Map.insert_of_get hfts]

end

namespace CardStore
variable [SortKey K] {env : Env K} {w : World K}

/-! ## Rewriting a file -/

theorem replaceCardFile_indexed (henv : env.Lawful) (hw : Indexed env w) {id body : String}
    (hlen : 4 ≤ id.length) (hbody : HasBody env w id body) {card : Card K}
    (hrel : card.relPath = livePath id) (links : List CardLink) (milestones : List Milestone)
    (raw : Bytes) :
    Ends (replaceCardFile env card links milestones body raw) w
      (fun _ w' => Indexed env w' ∧ w'.db = w.db ∧ HasBody env w' id body)
      fun _ => Indexed env := by
  refine (replaceCardFile_ends card links milestones body raw).mono ?_ ?_
  · rintro changed w1 hc
    cases changed with
    | true =>
      have hwrote := hc.2
      rw [hrel] at hwrote
      exact hw.rewritten henv hlen hbody hwrote
    | false =>
      obtain ⟨ivs, rfl⟩ := hc.1
      exact ⟨hw.same ⟨rfl, rfl, fun _ _ _ => rfl, hw.tidy.journal, hw.tidy.valid⟩, rfl, hbody⟩
  · rintro - w1 ⟨-, rfl⟩
    exact hw

theorem readCardFile_body {path id : String} (hpath : path = livePath id) :
    Ends (readCardFile env path) w (fun r w' => w' = w ∧ HasBody env w id r.2.body)
      fun _ w' => w' = w := by
  refine (readCardFile_ends path w).mono ?_ fun _ _ h => h
  rintro ⟨raw, parsed⟩ w' ⟨rfl, hraw, plain, hplain, rfl⟩
  exact ⟨rfl, raw, plain, hpath ▸ hraw, decodeBlobForProject_of_card hplain, rfl⟩

theorem updateLinksLocked_indexed (henv : env.Lawful) (card : Card K) (updatedAt : Int)
    (hw : Indexed env w) :
    Ends (updateLinksLocked env card updatedAt) w (fun _ => Indexed env) fun _ => Indexed env := by
  unfold updateLinksLocked
  refine (requireProject_ends hw.tidy.journal _).bind ?_ (by rintro - w1 rfl; exact hw)
  rintro - w1 ⟨rfl, -⟩
  simp only [Ends.bind_iff, Ends.fromExcept_iff]
  refine ⟨fun _ hrel => ?_, fun _ _ => hw⟩
  obtain ⟨hlen, hpath⟩ := checkRelPath_ok hrel
  refine (readCardFile_body hpath).mono ?_ (by rintro - w2 rfl; exact hw)
  rintro ⟨raw, parsed⟩ w2 ⟨rfl, hbody⟩
  simp only [Ends.get_iff, Ends.ite_iff, Ends.pure_iff, Ends.bind_iff]
  refine (replaceCardFile_indexed henv hw hlen hbody (by exact hpath) _ _ _).mono ?_ fun _ _ h => h
  rintro changed w3 ⟨h3, -⟩
  exact ⟨fun _ => (touchUpdated_keeps _ _ w3 h3).mono
    (fun _ w4 h4 => (commit_still _).keeps w4 h4) fun _ _ h => h, fun _ => h3⟩

theorem updateMilestonesLocked_indexed (henv : env.Lawful) (card : Card K) (updatedAt : Int)
    (hw : Indexed env w) :
    Ends (updateMilestonesLocked env card updatedAt) w (fun _ => Indexed env)
      fun _ => Indexed env := by
  unfold updateMilestonesLocked
  refine (requireProject_ends hw.tidy.journal _).bind ?_ (by rintro - w1 rfl; exact hw)
  rintro - w1 ⟨rfl, -⟩
  simp only [Ends.bind_iff, Ends.fromExcept_iff]
  refine ⟨fun _ hrel => ?_, fun _ _ => hw⟩
  obtain ⟨hlen, hpath⟩ := checkRelPath_ok hrel
  refine (readCardFile_body hpath).mono ?_ (by rintro - w2 rfl; exact hw)
  rintro ⟨raw, parsed⟩ w2 ⟨rfl, hbody⟩
  simp only [Ends.get_iff, Ends.ite_iff, Ends.pure_iff, Ends.bind_iff]
  refine (replaceCardFile_indexed henv hw hlen hbody (by exact hpath) _ _ _).mono ?_ fun _ _ h => h
  rintro changed w3 ⟨h3, -⟩
  exact ⟨fun _ => (touchUpdated_keeps _ _ w3 h3).mono
    (fun _ w4 h4 => (commit_still _).keeps w4 h4) fun _ _ h => h, fun _ => h3⟩

theorem updateMilestoneLocked_indexed (henv : env.Lawful) (card : Card K)
    (milestones : List Milestone) (updatedAt : Int) (hw : Indexed env w) :
    Ends (updateMilestoneLocked env card milestones updatedAt) w (fun _ => Indexed env)
      fun _ => Indexed env := by
  unfold updateMilestoneLocked
  refine (requireProject_ends hw.tidy.journal _).bind ?_ (by rintro - w1 rfl; exact hw)
  rintro - w1 ⟨rfl, -⟩
  simp only [Ends.bind_iff, Ends.fromExcept_iff]
  refine ⟨fun _ hrel => ?_, fun _ _ => hw⟩
  obtain ⟨hlen, hpath⟩ := checkRelPath_ok hrel
  refine (readCardFile_body hpath).mono ?_ (by rintro - w2 rfl; exact hw)
  rintro ⟨raw, parsed⟩ w2 ⟨rfl, hbody⟩
  refine (writeCardFile_ends _ _ _ _).mono ?_ (by rintro - w3 ⟨-, rfl⟩; exact hw)
  rintro - w3 ⟨-, bytes, ivs, henc, rfl⟩
  rw [stageCardFile_ends henc (by simp [Repo.writeFile])]
  have hwrote : Wrote env (livePath card.cardId) _ w2 _ := ⟨bytes, ivs, henc, rfl⟩
  obtain ⟨h3, -⟩ := hw.rewritten henv hlen hbody hwrote
  dsimp only at hpath ⊢
  rw [hpath]
  refine ((replaceMilestones_still _ _ _).keeps _ h3).mono (fun _ w4 h4 => ?_) fun _ _ h => h
  exact (touchUpdated_keeps _ _ w4 h4).mono (fun _ w5 h5 => (commit_still _).keeps w5 h5)
    fun _ _ h => h

theorem moveLocked_indexed (henv : env.Lawful) (projectId cardId : String) (hasParent : Bool)
    (parent : Option String) (key : Option K) (updatedAt : Int) (hw : Indexed env w) :
    Ends (moveLocked env projectId cardId hasParent parent key updatedAt) w (fun _ => Indexed env)
      fun _ => Indexed env := by
  unfold moveLocked
  refine (requireProject_ends hw.tidy.journal _).bind ?_ (by rintro - w1 rfl; exact hw)
  rintro - w1 ⟨rfl, -⟩
  refine (rereadCard_ends cardId w1).bind ?_ (by rintro - w2 rfl; exact hw)
  rintro card w2 ⟨rfl, hcard⟩
  have hid := hw.tidy.keyed _ _ hcard
  simp only [Ends.bind_iff, Ends.fromExcept_iff, Ends.ite_iff, Ends.throw_iff, Ends.get_iff,
    Ends.pure_iff]
  refine ⟨fun _ => hw, fun hlive => ⟨fun _ hrel => ⟨fun _ _ => ⟨fun _ => ?_, fun _ => hw⟩,
    fun _ _ => hw⟩, fun _ _ => hw⟩⟩
  have hlive : card.deletedAt = none := by simpa using hlive
  obtain ⟨hlen, hpath⟩ := checkRelPath_ok hrel
  refine (readCardFile_body hpath).mono ?_ (by rintro - w3 rfl; exact hw)
  rintro ⟨raw, parsed⟩ w3 ⟨rfl, hbody⟩
  refine (replaceCardFile_indexed henv hw hlen hbody (by exact hpath) _ _ _).mono ?_ fun _ _ h => h
  rintro changed w4 ⟨h4, hdb, hbody4⟩
  refine ⟨fun _ => ?_, fun _ => h4⟩
  refine (move_indexed _ _ _ _ h4 (by rw [hdb]; exact hcard)).mono ?_ (by rintro - w5 rfl; exact h4)
  rintro - w5 ⟨h5, hrepo, hmoved⟩
  rw [← hid] at hmoved
  refine (ftsUpsertCard_same h5 hmoved hlive (?_ : HasBody env w5 card.cardId parsed.body)).mono ?_
    fun _ _ h => h.elim
  · rw [HasBody, hrepo]
    exact hbody4
  · rintro - w6 rfl
    exact (commit_still _).keeps w6 h5

/-! ## New bodies -/

omit [SortKey K] in
/-- A row with its own path can be set again. -/
theorem update_row [NatCast K] (what : String) {id : String} {f : Card K → Card K} {c : Card K}
    (hw : Indexed env w) (hc : w.db.cards[id]? = some c) (hcid : (f c).cardId = c.cardId)
    (hrel : (f c).relPath = c.relPath) (hpar : (f c).parentCardId = c.parentCardId) {db : Db K}
    (hdb : db.cards = w.db.cards) :
    Ends (CardRepo.update what id f) db
      (fun _ db' => db' = { db with cards := db.cards.insert id (f c) }) fun _ _ => False := by
  have hkey := hw.tidy.keyed id c hc
  obtain ⟨hlen, hpath, hparent⟩ := (hw.cards id).place c hc
  have hfree : relPathFree db (f c) = true := by
    rw [relPathFree, List.all_eq_true]
    intro other hother
    obtain ⟨k, hk⟩ := Map.mem_rows.mp hother
    rw [hdb] at hk
    have hkid := hw.tidy.keyed k other hk
    obtain ⟨hlen', hpath', -⟩ := (hw.cards k).place other hk
    simp only [Bool.or_eq_true, beq_iff_eq, Bool.not_eq_true', Bool.and_eq_false_imp, beq_eq_false_iff_ne]
    by_cases hne : k = id
    · exact .inl (hkid.trans (hne.trans (hkey.symm.trans hcid.symm)))
    · refine .inr fun _ he => hne (livePath_inj hlen' hlen ?_)
      rw [← hpath', he, hrel, hpath]
  have hexists : parentExists db (f c) = true := by
    rw [parentExists, hpar]
    cases hp : c.parentCardId with
    | none => rfl
    | some p =>
      obtain ⟨c', hc'⟩ := hparent p hp
      simp only [Bool.or_eq_true, Std.ExtTreeMap.contains_iff_mem, hdb]
      exact .inl (Map.mem_iff.mpr ⟨c', hc'⟩)
  refine (CardRepo.update_ends what id f db).mono ?_ ?_
  · rintro - db' (⟨hnone, -⟩ | ⟨c', hc', -, -, rfl⟩)
    · rw [hdb, hc] at hnone
      cases hnone
    · rw [hdb, hc] at hc'
      cases hc'
      rfl
  · rintro - db' ⟨-, c', hc', hno⟩
    rw [hdb, hc] at hc'
    cases hc'
    exact hno ⟨hfree, hexists⟩

omit [SortKey K] in
theorem storeTitle_row [NatCast K] {id : String} (title : Option String) (updatedAt : Int)
    {c : Card K} (hw : Indexed env w) (hc : w.db.cards[id]? = some c) {db : Db K}
    (hdb : db.cards = w.db.cards) :
    Ends (storeTitle id title updatedAt) db
      (fun _ db' => db' = { db with
        cards := db.cards.insert id { c with title := title.getD c.title, updatedAt } })
      fun _ _ => False := by
  unfold storeTitle
  cases title with
  | none => exact update_row _ hw hc rfl rfl rfl hdb
  | some title => exact update_row _ hw hc rfl rfl rfl hdb

/-- The file at a card's live path was given a body; nothing else changed. -/
structure BodyWritten [NatCast K] (env : Env K) (id body : String) (w w' : World K) : Prop where
  db : w'.db = w.db
  work : ∀ id' : String, livePath id' ≠ livePath id →
    w'.repo.work[livePath id']? = w.repo.work[livePath id']?
  body : HasBody env w' id body
  journal : w'.journal = none
  valid : w'.repo.Valid

omit [SortKey K] in
theorem bodyWritten_of_wrote [NatCast K] {w' : World K} (henv : env.Lawful) (hw : Tidy env w)
    {id body : String} {card : Card K} {links : List CardLink} {milestones : List Milestone}
    (h : Wrote env (livePath id)
      (renderCardFrontMatter env.yaml card links milestones ++ body.toList) w w') :
    BodyWritten env id body w w' := by
  obtain ⟨bytes, ivs, henc, rfl⟩ := h
  obtain ⟨plain, hplain, hbody⟩ := henc.body henv
  refine ⟨rfl, fun id' hne => Map.get_insert_ne (Ne.symm hne), ⟨bytes, plain, ?_, hplain, hbody⟩,
    hw.journal, hw.valid.of_eq rfl rfl⟩
  exact (Map.get_insert ..).trans (if_pos rfl)

omit [SortKey K] in
/-- A live card whose file, row and index row were set alike. -/
theorem BodyWritten.indexed [NatCast K] {w1 w' : World K} {id body : String} (hw : Indexed env w)
    (h : BodyWritten env id body w w1) (hlen : 4 ≤ id.length) {c : Card K} (hcid : c.cardId = id)
    (hproj : c.projectId = env.project.projectId) (hrel : c.relPath = livePath id)
    (hparent : ∀ p, c.parentCardId = some p → p = id ∨ ∃ c', w.db.cards[p]? = some c')
    (hlive : c.deletedAt = none) (hcards : w'.db.cards = w.db.cards.insert id c)
    (hfts : w'.db.cardsFts = w.db.cardsFts.insert id ⟨c.projectId, c.title, body⟩)
    (hrepo : w'.repo = w1.repo) (hj : w'.journal = none) : Indexed env w' := by
  have hrow : w'.db.cards[id]? = some c := by rw [hcards, Map.get_insert, if_pos rfl]
  refine hw.step (hw.tidy.put hproj (by rw [hcid]; exact hcards) hj (hrepo ▸ h.valid)) hlen
    (fun id' hne => by rw [hcards, Map.get_insert_ne (Ne.symm hne)]) (fun _ => ⟨c, hrow⟩)
    (fun id' hne => by rw [hfts, Map.get_insert_ne (Ne.symm hne)])
    (fun id' hne => by rw [hrepo]; exact h.work id' hne) ?_
  refine ⟨fun c' hc' => ?_, fun c' hc' _ => ?_, fun row _ => ⟨c, hrow, hlive⟩⟩
  · rw [hrow] at hc'
    cases hc'
    refine ⟨hlen, hrel, fun p hp => ?_⟩
    rcases hparent p hp with rfl | ⟨c', hc'⟩
    · exact ⟨c, hrow⟩
    · by_cases hpid : id = p
      · exact ⟨c, hpid ▸ hrow⟩
      · exact ⟨c', by rw [hcards, Map.get_insert_ne hpid]; exact hc'⟩
  · rw [hrow] at hc'
    cases hc'
    obtain ⟨raw, plain, hraw, hplain, hbody⟩ := h.body
    refine ⟨raw, plain, by rw [hrepo]; exact hraw, hplain, ?_⟩
    rw [hfts, Map.get_insert, if_pos rfl, hbody]

/-- The edit of a live card. -/
theorem updateContentLocked_indexed (henv : env.Lawful) (hfts : env.fts = true) {card : Card K}
    (content : String) (title : Option String) (updatedAt : Int) (hw : Indexed env w)
    (hcard : w.db.cards[card.cardId]? = some card) (hlive : card.deletedAt = none) :
    Ends (updateContentLocked env card content title updatedAt) w (fun _ => Indexed env)
      fun _ => Indexed env := by
  unfold updateContentLocked
  refine (requireProject_ends hw.tidy.journal _).bind ?_ (by rintro - w1 rfl; exact hw)
  rintro - w1 ⟨rfl, -⟩
  obtain ⟨hlen, hpath, hparent⟩ := (hw.cards card.cardId).place card hcard
  have hexisting : Ends (existingCardFile env card.relPath) w1 (fun existing w' => w' = w1 ∧
      ∀ parsed, existing = some parsed → HasBody env w1 card.cardId parsed.body)
      fun _ w' => w' = w1 := by
    unfold existingCardFile
    simp only [Ends.bind_iff, Ends.get_iff]
    cases hraw : w1.repo.work[card.relPath]? with
    | none => exact ⟨rfl, by simp⟩
    | some raw =>
      simp only [Ends.bind_iff, Ends.fromExcept_iff, Ends.pure_iff]
      refine ⟨fun plain hplain => ⟨trivial, fun parsed hp => ?_⟩, fun _ _ => trivial⟩
      cases hp
      exact ⟨raw, plain, hpath ▸ hraw, decodeBlobForProject_of_card hplain, rfl⟩
  simp only [Ends.bind_iff, Ends.fromExcept_iff]
  refine ⟨fun _ _ => ?_, fun _ _ => hw⟩
  refine hexisting.mono ?_ (by rintro - w2 rfl; exact hw)
  rintro existing w2 ⟨rfl, hbody⟩
  -- Whether the file is written or not, it has the new body afterwards.
  have hwrite : Ends (if fileChanged card content title existing then
      writeContent env card content title updatedAt existing else pure ()) w2
      (fun _ w3 => BodyWritten env card.cardId content w2 w3) fun _ w3 => w3 = w2 := by
    rw [Ends.ite_iff]
    refine ⟨fun _ => ?_, fun hsame => ?_⟩
    · unfold writeContent
      simp only [Ends.bind_iff, Ends.get_iff]
      rw [← Ends.bind_iff]
      refine (writeStaged_ends _ _ _ _).mono ?_ (by rintro - w3 ⟨-, rfl⟩; rfl)
      rintro - w3 ⟨-, hwrote⟩
      change Wrote env card.relPath _ w2 w3 at hwrote
      rw [hpath] at hwrote
      exact bodyWritten_of_wrote henv hw.tidy hwrote
    · rw [Ends.pure_iff]
      cases existing with
      | none => simp [fileChanged] at hsame
      | some parsed =>
        have he : parsed.body = content := by
          simp only [fileChanged, Option.any_some, Bool.or_eq_true, Bool.not_eq_true', not_or,
            Bool.not_eq_false, beq_iff_eq] at hsame
          exact hsame.1
        exact ⟨rfl, fun _ _ => rfl, he ▸ hbody parsed rfl, hw.tidy.journal, hw.tidy.valid⟩
  refine hwrite.mono ?_ (by rintro - w3 rfl; exact hw)
  rintro - w3 h3
  rw [Ends.onDb_iff]
  refine (storeTitle_row title updatedAt hw hcard (by rw [h3.db])).mono ?_ fun _ _ h => h.elim
  rintro - db rfl
  unfold ftsUpsertCard
  rw [if_pos hfts]
  simp only [Ends.onDb_iff, FtsIndexer.upsertCard, Ends.modify_iff, h3.db]
  have h4 : Indexed env { w3 with db := { w2.db with
      cards := w2.db.cards.insert card.cardId { card with title := title.getD card.title, updatedAt }
      cardsFts := w2.db.cardsFts.insert card.cardId
        ⟨card.projectId, title.getD card.title, content⟩ } } :=
    h3.indexed hw hlen (c := { card with title := title.getD card.title, updatedAt }) rfl
      (hw.tidy.project card.cardId card hcard) hpath (fun p hp => .inr (hparent p hp)) hlive rfl rfl rfl h3.journal
  have hrest : Keeps (Indexed env) (do
      onDb (TagRepo.setTagsForCard card.projectId card.cardId (env.extractTags content) updatedAt)
      if fileChanged card content title existing then
        commit ("Update card " ++ title.getD card.title)) :=
    (setTags_still _ _ _ _).keeps.bind fun _ => .ite (commit_still _).keeps (.pure _)
  have hend := hrest _ h4
  simp only [Ends.bind_iff, Ends.onDb_iff] at hend ⊢
  exact hend

/-! ## New cards -/

omit [SortKey K] in
/-- A new live row and its index row, for a card whose file was written. -/
theorem createRow_indexed [NatCast K] {w1 : World K} (hfts : env.fts = true) (row : Card K)
    {body : String} (hw : Indexed env w) (h : BodyWritten env row.cardId body w w1)
    (hlen : 4 ≤ row.cardId.length) (hproj : row.projectId = env.project.projectId)
    (hrel : row.relPath = livePath row.cardId) (hlive : row.deletedAt = none) :
    Ends (onDb (CardRepo.create row)) w1
      (fun _ w2 => Ends (ftsUpsertCard env row.cardId row.projectId row.title body) w2
        (fun _ => Indexed env) fun _ _ => False)
      fun _ w2 => w2 = w1 := by
  rw [Ends.onDb_iff]
  refine (CardRepo.create_ends row w1.db).mono ?_ (by rintro - db ⟨rfl, -⟩; rfl)
  rintro - db ⟨-, -, hparent, rfl⟩
  unfold ftsUpsertCard
  rw [if_pos hfts]
  simp only [Ends.onDb_iff, FtsIndexer.upsertCard, Ends.modify_iff]
  refine h.indexed hw hlen rfl hproj hrel (fun p hp => ?_) hlive (by simp only [h.db])
    (by simp only [h.db]) rfl h.journal
  simp only [parentExists, hp, h.db, Bool.or_eq_true, Std.ExtTreeMap.contains_iff_mem,
    beq_iff_eq] at hparent
  rcases hparent with hmem | rfl
  · exact .inr (Map.mem_iff.mp hmem)
  · exact .inl rfl

theorem createLocked_indexed (henv : env.Lawful) (hfts : env.fts = true) {card : Card K}
    (content : String) (key : Option K) (hw : Indexed env w) (hlive : card.deletedAt = none) :
    Ends (createLocked env card content key) w (fun _ => Indexed env) fun _ => Indexed env := by
  unfold createLocked
  refine (requireProject_ends hw.tidy.journal _).bind ?_ (by rintro - w1 rfl; exact hw)
  rintro - w1 ⟨rfl, hproj⟩
  simp only [Ends.bind_iff, Ends.get_iff, Ends.fromExcept_iff, Ends.ite_iff, Ends.throw_iff]
  refine ⟨fun _ _ => ⟨fun expected hexpected => ⟨fun _ => hw, fun _ => ⟨fun _ => hw, fun _ =>
    ⟨fun _ => hw, fun habsent => ?_⟩⟩⟩, fun _ _ => hw⟩, fun _ _ => hw⟩
  have hlen : 4 ≤ card.cardId.length := (cardRelPath_ok_iff.mp hexpected).1
  refine (writeCardFile_ends _ _ _ _).mono ?_ (by rintro - w2 ⟨-, rfl⟩; exact hw)
  rintro - w2 ⟨-, bytes, ivs, henc, rfl⟩
  rw [stageCardFile_ends henc (by simp [Repo.writeFile])]
  have hwrote : BodyWritten env card.cardId content w1 _ :=
    bodyWritten_of_wrote henv hw.tidy ⟨bytes, ivs, henc, rfl⟩
  simp only [Ends.tryCatch_iff, Ends.bind_iff]
  refine (createRow_indexed hfts (newCard w1.db card key) hw hwrote hlen hproj rfl hlive).mono
    (fun _ w3 h3 => ?_) ?_
  · refine h3.mono (fun _ w4 h4 => ?_) fun _ _ h => h.elim
    exact ((setTags_still _ _ _ _).keeps w4 h4).mono (fun _ w5 h5 => (commit_still _).keeps w5 h5)
      fun _ _ h => h
  · rintro - w3 rfl
    simp only [Ends.onRepo_iff, Except.ok.injEq, forall_eq', Ends.throw_iff, reduceCtorEq,
      false_imp_iff, implies_true, and_true]
    -- The file was not there before, so without it the card has the file that it had.
    refine hw.same ⟨rfl, rfl, fun id c hc => ?_, hw.tidy.journal, hw.tidy.valid.of_eq rfl rfl⟩
    have hnone : w1.repo.work[livePath card.cardId]? = none := by
      rw [Std.ExtTreeMap.contains_iff_mem] at habsent
      exact Map.not_mem_iff.mp habsent
    change ((w1.repo.work.insert (livePath card.cardId) bytes).erase
      (livePath card.cardId))[livePath id]? = w1.repo.work[livePath id]?
    by_cases he : livePath card.cardId = livePath id
    · rw [Map.get_erase, if_pos he, ← he, hnone]
    · rw [Map.get_erase_ne he, Map.get_insert_ne he]

/-- The live files of the rows that a batch found are as they were. -/
structure OldFiles (w w' : World K) : Prop where
  work : ∀ (id : String) (c : Card K), w.db.cards[id]? = some c →
    w'.repo.work[livePath id]? = w.repo.work[livePath id]?
  journal : w'.journal = none
  valid : w'.repo.Valid

omit [SortKey K] in
theorem onDb_oldFiles {w0 : World K} (m : DbM K α) : Keeps (OldFiles w0) (onDb m) := fun _ h =>
  Ends.onDb_iff.mpr (.intro (fun _ _ _ => ⟨h.work, h.journal, h.valid⟩)
    fun _ _ _ => ⟨h.work, h.journal, h.valid⟩)

/-- The ids of a batch are not those of rows. -/
def FreshIds (db : Db K) (remap : Map String String) : Prop :=
  ∀ id id' : String, remap[id]? = some id' → db.cards[id']? = none

theorem remap_some {remap : Map String String} {id : String} (h : 4 ≤ (remap[id]?.getD "").length) :
    remap[id]? = some (remap[id]?.getD "") := by
  cases hr : remap[id]? with
  | none => simp [hr] at h
  | some id' => rfl

theorem createBatchItem_oldFiles {w0 : World K} (hw0 : Indexed env w0) (projectId : String)
    {remap : Map String String} (hfresh : FreshIds w0.db remap) (uuidV4 : Nat → String) (drawn : Nat)
    (item : BatchCardInput) :
    Keeps (OldFiles w0) (createBatchItem env projectId remap uuidV4 drawn item) := by
  intro w hw
  unfold createBatchItem
  simp only [Ends.bind_iff, Ends.fromExcept_iff, Ends.get_iff]
  refine ⟨fun relPath hrel => ?_, fun _ _ => hw⟩
  obtain ⟨hlen, rfl⟩ := cardRelPath_ok_iff.mp hrel
  refine (writeCardFile_ends _ _ _ _).mono ?_ (by rintro - w1 ⟨-, rfl⟩; exact hw)
  rintro - w1 ⟨-, bytes, ivs, -, rfl⟩
  have h1 : OldFiles w0 { w with
      repo := w.repo.writeFile (livePath (remap[item.cardId]?.getD "")) bytes, ivs } := by
    refine ⟨fun id c hc => ?_, hw.journal, hw.valid.of_eq rfl rfl⟩
    have hne : livePath (remap[item.cardId]?.getD "") ≠ livePath id := by
      intro he
      have hid := livePath_inj hlen ((hw0.cards id).place c hc).1 he
      have hnone := hfresh _ _ (remap_some hlen)
      rw [hid, hc] at hnone
      cases hnone
    exact (Map.get_insert_ne hne).trans (hw.work id c hc)
  refine (onDb_oldFiles _ _ h1).mono (fun _ w2 h2 => ?_) fun _ _ h => h
  refine (Keeps.ite (onDb_oldFiles _) (.pure _) w2 h2).mono (fun _ w3 h3 => ?_) fun _ _ h => h
  refine (onDb_oldFiles _ w3 h3).mono (fun _ w4 h4 => ?_) fun _ _ h => h
  refine (onDb_oldFiles _ w4 h4).mono (fun _ w5 h5 => ?_) fun _ _ h => h
  exact (Keeps.ite (.pure _) (onDb_oldFiles _) w5 h5).mono (fun _ _ h => h) fun _ _ h => h

theorem createBatchItem_indexed (henv : env.Lawful) (hfts : env.fts = true) {projectId : String}
    (hproj : projectId = env.project.projectId) (remap : Map String String) (uuidV4 : Nat → String)
    (drawn : Nat) (item : BatchCardInput) (hw : Indexed env w) :
    Ends (createBatchItem env projectId remap uuidV4 drawn item) w (fun _ => Indexed env)
      fun _ _ => True := by
  unfold createBatchItem
  simp only [Ends.bind_iff, Ends.fromExcept_iff, Ends.get_iff, implies_true, and_true]
  intro relPath hrel
  obtain ⟨hlen, rfl⟩ := cardRelPath_ok_iff.mp hrel
  refine (writeCardFile_ends _ _ _ _).mono ?_ fun _ _ _ => trivial
  rintro - w1 ⟨-, bytes, ivs, henc, rfl⟩
  obtain ⟨plain, hplain, hbody⟩ := henc.body henv
  have hwrote : BodyWritten env (remap[item.cardId]?.getD "") item.content w { w with
      repo := w.repo.writeFile (livePath (remap[item.cardId]?.getD "")) bytes, ivs } :=
    ⟨rfl, fun id' hne => Map.get_insert_ne (Ne.symm hne),
      ⟨bytes, plain, (Map.get_insert ..).trans (if_pos rfl), hplain, hbody⟩, hw.tidy.journal,
      hw.tidy.valid.of_eq rfl rfl⟩
  refine (createRow_indexed hfts (batchCard projectId _ _ item) hw hwrote hlen hproj rfl
    rfl).mono (fun _ w3 h3 => ?_) fun _ _ _ => trivial
  refine h3.mono (fun _ w4 h4 => ?_) fun _ _ h => h.elim
  refine ((setTags_still _ _ _ _).keeps w4 h4).mono (fun _ w5 h5 => ?_) fun _ _ _ => trivial
  refine ((upsertLinks_still _ _ _).keeps w5 h5).mono (fun _ w6 h6 => ?_) fun _ _ _ => trivial
  exact (Keeps.ite (.pure _) (replaceMilestones_still _ _ _).keeps w6 h6).mono (fun _ _ h => h)
    fun _ _ _ => trivial

theorem createBatchItems_indexed (henv : env.Lawful) (hfts : env.fts = true) {projectId : String}
    (hproj : projectId = env.project.projectId) {w0 : World K} (hw0 : Indexed env w0)
    {remap : Map String String} (hfresh : FreshIds w0.db remap) (uuidV4 : Nat → String) (drawn : Nat)
    (items : List BatchCardInput) (hw : Indexed env w) (hold : OldFiles w0 w) :
    Ends (createBatchItems env projectId remap uuidV4 drawn items) w (fun _ => Indexed env)
      fun _ => OldFiles w0 := by
  induction items generalizing drawn w with
  | nil => exact hw
  | cons item items ih =>
    refine ((createBatchItem_indexed henv hfts hproj remap uuidV4 drawn item hw).and
      (createBatchItem_oldFiles hw0 projectId hfresh uuidV4 drawn item w hold)).bind ?_
      fun _ _ h => h.2
    rintro path w1 ⟨h1, hold1⟩
    exact (ih _ h1 hold1).bind (fun _ _ h => h) fun _ _ h => h

theorem createBatchLocked_indexed (henv : env.Lawful) (hfts : env.fts = true) (projectId : String)
    (items : List BatchCardInput) (generateId uuidV4 : Nat → String) (message : String)
    (hw : Indexed env w) (hfresh : FreshIds w.db (idRemap generateId items)) :
    Ends (createBatchLocked env projectId items generateId uuidV4 message) w
      (fun _ => Indexed env) fun _ => Indexed env := by
  unfold createBatchLocked
  refine (requireProject_ends hw.tidy.journal _).bind ?_ (by rintro - w1 rfl; exact hw)
  rintro - w1 ⟨rfl, hproj⟩
  have hitems : Ends (inTx (createBatchItems env projectId (idRemap generateId items) uuidV4 0 items))
      w1 (fun _ => Indexed env) fun _ => Indexed env := by
    have hrun := createBatchItems_indexed henv hfts hproj hw hfresh uuidV4 0 items hw
      ⟨fun _ _ _ => rfl, hw.tidy.journal, hw.tidy.valid⟩
    unfold Ends inTx at *
    split at hrun
    · next hok => rw [hok]; exact hrun
    · next herr =>
      rw [herr]
      exact hw.same ⟨rfl, rfl, hrun.work, hrun.journal, hrun.valid⟩
  refine hitems.bind (fun staged w2 h2 => ?_) fun _ _ h => h
  simp only [Ends.bind_iff, Ends.onRepo_iff, assertStaged, Ends.get_iff, Ends.fromExcept_iff,
    Ends.ite_iff, Ends.pure_iff]
  refine ⟨fun repo hrepo => ?_, fun _ _ => h2⟩
  have h3 : Indexed env { w2 with repo } := by
    refine h2.same ⟨rfl, rfl, fun _ _ _ => ?_, h2.tidy.journal, h2.tidy.valid.stagePaths hrepo⟩
    rw [(Repo.stagePaths_ok hrepo).1]
  exact ⟨fun _ _ => ⟨fun _ => (commit_still _).keeps _ h3, fun _ => h3⟩, fun _ _ => h3⟩

/-! ## Deletion -/

theorem hardDeleteLocked_indexed {card : Card K} (hw : Indexed env w)
    (hcard : w.db.cards[card.cardId]? = some card) (hdel : card.deletedAt ≠ none) :
    Ends (hardDeleteLocked env card) w (fun _ => Indexed env) fun _ => Indexed env := by
  unfold hardDeleteLocked
  refine (requireProject_ends hw.tidy.journal _).bind ?_ (by rintro - w1 rfl; exact hw)
  rintro - w1 ⟨rfl, -⟩
  simp only [Ends.bind_iff, Ends.fromExcept_iff, Ends.get_iff]
  refine ⟨fun trash htrash => ?_, fun _ _ => hw⟩
  obtain ⟨-, rfl⟩ := cardTrashRelPath_ok_iff.mp htrash
  have hgone : Ends (if w1.repo.work.contains (trashPath card.cardId) = true then
      onRepo fun r => .ok ({ r with work := r.work.erase (trashPath card.cardId) }.removePath
        (trashPath card.cardId))
      else pure ()) w1 (fun _ => SameIndex w1) fun _ _ => False := by
    simp only [Ends.ite_iff, Ends.onRepo_iff, Except.ok.injEq, forall_eq', reduceCtorEq, Ends.pure_iff,
      false_imp_iff, implies_true, and_true]
    refine ⟨fun _ => ⟨rfl, rfl, fun id _ _ => ?_, hw.tidy.journal, hw.tidy.valid.of_eq rfl rfl⟩,
      fun _ => hw.tidy.sameIndex⟩
    exact Map.get_erase_ne (livePath_ne_trashPath id card.cardId).symm
  refine hgone.mono (fun _ w2 h2 => ?_) fun _ _ h => h.elim
  simp only [Ends.onDb_iff, LinkRepo.deleteLinksFrom, LinkRepo.deleteLinksToTyped,
    TagRepo.deleteTagsForCard, MilestoneRepo.deleteForCard, Ends.modify_iff]
  refine (CardRepo.remove_ends card.cardId _).mono ?_ fun _ _ h => h.elim
  rintro - db (⟨hnone, -⟩ | ⟨-, rfl⟩)
  · rw [h2.cards, hcard] at hnone
    cases hnone
  refine (commit_still _).keeps _ ?_
  have hrow : ∀ (id : String) (c : Card K), ((w2.db.cards.erase card.cardId).map fun _ (c : Card K) =>
      if c.parentCardId == some card.cardId then { c with parentCardId := none } else c)[id]? =
        some c → id ≠ card.cardId ∧ ∃ c', w1.db.cards[id]? = some c' ∧ SameLabel c' c ∧
          ∀ p, c.parentCardId = some p → c'.parentCardId = some p ∧ p ≠ card.cardId := by
    intro id c hc
    rw [Map.get_map, Map.get_erase, h2.cards] at hc
    split at hc
    · cases hc
    · next hne =>
      obtain ⟨c', hc', rfl⟩ := Option.map_eq_some_iff.mp hc
      refine ⟨Ne.symm hne, c', hc', ?_, fun p hp => ?_⟩
      · split <;> exact ⟨rfl, rfl, rfl, rfl, rfl⟩
      · split at hp
        · cases hp
        · next hpar =>
          refine ⟨hp, ?_⟩
          rintro rfl
          simp [hp] at hpar
  have hkept : ∀ (id : String) (c : Card K), id ≠ card.cardId → w1.db.cards[id]? = some c →
      ∃ c', ((w2.db.cards.erase card.cardId).map fun _ (c : Card K) =>
        if c.parentCardId == some card.cardId then { c with parentCardId := none } else c)[id]? =
          some c' ∧ SameLabel c c' := by
    intro id c hne hc
    refine ⟨if c.parentCardId == some card.cardId then { c with parentCardId := none } else c, ?_, ?_⟩
    · rw [Map.get_map, Map.get_erase_ne (Ne.symm hne), h2.cards, hc]
      rfl
    · split <;> exact ⟨rfl, rfl, rfl, rfl, rfl⟩
  refine ⟨⟨h2.journal, h2.valid, fun id c hc => ?_, fun id c hc => ?_⟩, fun id => ?_⟩
  · obtain ⟨-, c', hc', hlabel, -⟩ := hrow id c hc
    exact hlabel.1.trans (hw.tidy.keyed id c' hc')
  · obtain ⟨-, c', hc', hlabel, -⟩ := hrow id c hc
    exact hlabel.2.1.trans (hw.tidy.project id c' hc')
  · obtain ⟨hplace, hlive, honly⟩ := hw.cards id
    refine ⟨fun c hc => ?_, fun c hc hc0 => ?_, fun row hfts => ?_⟩
    · obtain ⟨-, c', hc', hlabel, hpar⟩ := hrow id c hc
      obtain ⟨hlen, hrel, hparent⟩ := hplace c' hc'
      refine ⟨hlen, hlabel.2.2.2.2.trans hrel, fun p hp => ?_⟩
      obtain ⟨hp', hne⟩ := hpar p hp
      obtain ⟨c'', hc''⟩ := hparent p hp'
      obtain ⟨c3, hc3, -⟩ := hkept p c'' hne hc''
      exact ⟨c3, hc3⟩
    · obtain ⟨-, c', hc', hlabel, -⟩ := hrow id c hc
      obtain ⟨raw, plain, hraw, hplain, hfts⟩ := hlive c' hc' (hlabel.2.2.2.1 ▸ hc0)
      refine ⟨raw, plain, (h2.work id c' hc').trans hraw, hplain, ?_⟩
      rw [hlabel.2.1, hlabel.2.2.1]
      exact h2.fts ▸ hfts
    · obtain ⟨c, hc, hc0⟩ := honly row (by rw [← h2.fts]; exact hfts)
      have hne : id ≠ card.cardId := by
        rintro rfl
        rw [hcard] at hc
        cases hc
        exact hdel hc0
      obtain ⟨c', hc', hlabel⟩ := hkept id c hne hc
      exact ⟨c', hc', hlabel.2.2.2.1.trans hc0⟩

/-! ## Journalled operations -/

theorem moveToLocked_indexed (henv : env.Lawful) (hfts : env.fts = true) (projectId cardId : String)
    (request : CardPlacementRequest) (updatedAt : Int) (hw : Indexed env w) :
    Ends (moveToLocked env projectId cardId request updatedAt) w (fun _ => Indexed env)
      fun _ => Indexed env := by
  refine (moveToLocked_commits projectId cardId request updatedAt hw.tidy).mono ?_
    fun _ _ h => hw.same (h.sameIndex hw.tidy)
  rintro - w' (rfl | ⟨changes, h, hall⟩)
  · exact hw
  · exact h.indexed henv hfts hw fun change hc => (hall change hc).row

theorem trashLocked_indexed (henv : env.Lawful) (hfts : env.fts = true) (projectId cardId : String)
    (deletedAt : Int) (mode : TrashChildren) (hw : Indexed env w) :
    Ends (trashLocked env projectId cardId deletedAt mode) w (fun _ => Indexed env)
      fun _ => Indexed env := by
  refine (trashLocked_commits projectId cardId deletedAt mode hw.tidy).mono ?_
    fun _ _ h => hw.same (h.sameIndex hw.tidy)
  rintro - w' ⟨changes, h, hall⟩
  exact h.indexed henv hfts hw fun change hc => (hall change hc).row

theorem restoreLocked_indexed (henv : env.Lawful) (hfts : env.fts = true)
    (projectId cardId : String) (updatedAt : Int) (hw : Indexed env w) :
    Ends (restoreLocked env projectId cardId updatedAt) w (fun _ => Indexed env)
      fun _ => Indexed env := by
  refine (restoreLocked_commits projectId cardId updatedAt hw.tidy).mono ?_
    fun _ _ h => hw.same (h.sameIndex hw.tidy)
  rintro - w' ⟨changes, h, hall⟩
  exact h.indexed henv hfts hw fun change hc => (hall change hc).row

theorem restoreVersionLocked_indexed (henv : env.Lawful) (hfts : env.fts = true)
    (projectId cardId : String) (oid : Nat) (updatedAt : Int) (hw : Indexed env w) :
    Ends (restoreVersionLocked env projectId cardId oid updatedAt) w (fun _ => Indexed env)
      fun _ => Indexed env := by
  refine (restoreVersionLocked_commits projectId cardId oid updatedAt hw.tidy).mono ?_
    fun _ _ h => hw.same (h.sameIndex hw.tidy)
  rintro - w' ⟨changes, h, hall⟩
  exact h.indexed henv hfts hw fun change hc => (hall change hc).elim (·.row) (·.2.row)

/-- A repair changes placed rows of the project, each once. -/
theorem repairHierarchyLocked_indexed (henv : env.Lawful) (hfts : env.fts = true) (projectId : String)
    (updatedAt : Int) (hw : Indexed env w) :
    Ends (repairHierarchyLocked env projectId updatedAt) w (fun _ => Indexed env)
      fun _ => Indexed env := by
  unfold repairHierarchyLocked
  refine (requireProject_ends hw.tidy.journal _).bind ?_ (by rintro - w1 rfl; exact hw)
  rintro - w1 ⟨rfl, -⟩
  simp only [Ends.bind_iff, Ends.get_iff, Ends.fromExcept_iff, Ends.ite_iff, Ends.pure_iff]
  refine ⟨fun plan hplan => ⟨fun _ => hw, fun _ => ?_⟩, fun _ _ => hw⟩
  obtain ⟨hnodup, hrows⟩ := planHierarchyRepair_all
    (P := fun c => ∃ row, w1.db.cards[c.cardId]? = some row ∧ c.projectId = row.projectId)
    (fun _ _ _ _ h => h) (fun c hc => ⟨c, (mem_rows_iff hw.tidy.keyed).mp hc, rfl⟩) hplan
  refine (mapM_placementChange_ends _ w1).mono ?_ (by rintro - w2 rfl; exact hw)
  rintro changes w2 ⟨rfl, hchanges⟩
  have hids : CardChanges changes := by
    intro change hc
    obtain ⟨placed, -, hp⟩ := hchanges.exists_left hc
    rw [hp.card, hp.current]
  refine (applyCardChanges_ends hids hw.tidy.valid).mono ?_ fun _ _ h => hw.same (h.sameIndex hw.tidy)
  rintro - w3 ⟨m, hplanned, happlied, hj⟩
  have hcommitted : Committed env w2 changes w3 :=
    ⟨hids, by rw [PlacementOf.ids hchanges]; exact hnodup, ⟨_, m, hplanned, happlied⟩, hj⟩
  refine hcommitted.indexed henv hfts hw fun change hc => ?_
  obtain ⟨placed, hmem, hp⟩ := hchanges.exists_left hc
  rw [hp.current, hp.card]
  exact hrows placed hmem

/-! ## Tags -/

theorem getContent_nothing {card : Card K} (hw : Indexed env w)
    (hpath : card.relPath = livePath card.cardId) :
    Ends (getContent env card) w (fun content w' => w' = w ∧
      (w.repo.work[livePath card.cardId]? = none → content = none)) fun _ w' => w' = w := by
  unfold getContent
  refine (requireProject_ends hw.tidy.journal _).bind ?_ fun _ _ h => h
  rintro - w1 ⟨rfl, -⟩
  simp only [Ends.bind_iff, Ends.fromExcept_iff, Ends.get_iff, hpath]
  refine ⟨fun _ _ => ?_, fun _ _ => trivial⟩
  split
  · exact ⟨rfl, fun _ => rfl⟩
  · next raw hraw =>
    simp only [Ends.bind_iff, Ends.fromExcept_iff, Ends.pure_iff]
    exact ⟨fun plain _ => ⟨trivial, fun hnone => by simp [hraw] at hnone⟩, fun _ _ => trivial⟩

/-- A nested edit of a card that may be trashed is one of a card that is live. -/
theorem updateContent_indexed (henv : env.Lawful) (hfts : env.fts = true) {card : Card K}
    (content : String) (title : Option String) (updatedAt : Int) (hw : Indexed env w)
    (hcard : w.db.cards[card.cardId]? = some card) (hlive : card.deletedAt = none) :
    Ends (updateContent env card.cardId content title updatedAt) w (fun _ => Indexed env)
      fun _ => Indexed env := by
  unfold updateContent
  simp only [Ends.bind_iff, Ends.get_iff, CardRepo.get?, hcard]
  exact updateContentLocked_indexed henv hfts content title updatedAt hw hcard hlive

theorem addTagLocked_indexed (henv : env.Lawful) (hfts : env.fts = true) {card : Card K}
    (normalized : String) (updatedAt : Int) (hw : Indexed env w)
    (hcard : w.db.cards[card.cardId]? = some card) (hlive : card.deletedAt = none) :
    Ends (addTagLocked env card normalized updatedAt) w (fun _ => Indexed env)
      fun _ => Indexed env := by
  unfold addTagLocked
  refine (requireProject_ends hw.tidy.journal _).bind ?_ (by rintro - w1 rfl; exact hw)
  rintro - w1 ⟨rfl, -⟩
  refine (getContent_nothing hw ((hw.cards _).place card hcard).2.1).bind ?_
    (by rintro - w2 rfl; exact hw)
  rintro content w2 ⟨rfl, -⟩
  simp only [Ends.ite_iff, Ends.pure_iff, Ends.bind_iff]
  exact ⟨fun _ => hw, fun _ => updateContent_indexed henv hfts _ _ _ hw hcard hlive⟩

/-- Nothing is removed from the text of a card that has no live file. -/
theorem removeTagLocked_indexed (henv : env.Lawful) (hfts : env.fts = true) {card : Card K}
    (normalized : String) (updatedAt : Int) (hw : Indexed env w)
    (hcard : w.db.cards[card.cardId]? = some card)
    (hlive : card.deletedAt = none ∨ w.repo.work[livePath card.cardId]? = none) :
    Ends (removeTagLocked env card normalized updatedAt) w (fun _ => Indexed env)
      fun _ => Indexed env := by
  unfold removeTagLocked
  refine (requireProject_ends hw.tidy.journal _).bind ?_ (by rintro - w1 rfl; exact hw)
  rintro - w1 ⟨rfl, -⟩
  refine (getContent_nothing hw ((hw.cards _).place card hcard).2.1).bind ?_
    (by rintro - w2 rfl; exact hw)
  rintro content w2 ⟨rfl, hnothing⟩
  dsimp only
  split
  · exact hw
  · next newBody hremoved =>
    simp only [Ends.bind_iff, Ends.pure_iff]
    refine updateContent_indexed henv hfts _ _ _ hw hcard (hlive.resolve_right fun hnone => ?_)
    rw [hnothing hnone] at hremoved
    cases hremoved

end CardStore

/-! ## Any call -/

section
open CardStore
variable [SortKey K] {env : Env K} {w : World K}

/-- No trashed card is created, edited or tagged, and a batch does not take the ids of rows. A tag
can only be removed from a trashed card that has a live file. -/
def Call.KeepsIndex (w : World K) : Call K → Prop
  | create card _ _ => card.deletedAt = none
  | createBatch _ items generateId _ _ => FreshIds w.db (idRemap generateId items)
  | updateContent cardId _ _ _ => ∀ c, w.db.cards[cardId]? = some c → c.deletedAt = none
  | addTag cardId tag _ => isValidTag tag = true →
    ∀ c, w.db.cards[cardId]? = some c → c.deletedAt = none
  | removeTag cardId _ _ => ∀ c, w.db.cards[cardId]? = some c →
    c.deletedAt = none ∨ w.repo.work[livePath cardId]? = none
  | _ => True

omit [SortKey K] in
private theorem withCard_indexed [NatCast K] (hw : Indexed env w) (cardId : String)
    {rest : Card K → StoreM K Unit}
    (h : ∀ card, w.db.cards[cardId]? = some card → card.cardId = cardId →
      Ends (rest card) w (fun _ => Indexed env) fun _ => Indexed env) :
    Ends (withCard w.db cardId rest).run w (fun _ => Indexed env) fun _ => Indexed env := by
  unfold withCard
  simp only [CardRepo.get?]
  cases hc : w.db.cards[cardId]? with
  | none => exact hw
  | some card => exact (h card hc (hw.tidy.keyed _ _ hc)).bind (fun _ _ h => h) fun _ _ h => h

theorem Call.run_indexed (henv : env.Lawful) (hfts : env.fts = true) (call : Call K)
    (hw : Indexed env w) (hcall : call.KeepsIndex w) :
    Ends (call.run env) w (fun _ => Indexed env) fun _ => Indexed env := by
  unfold Call.run
  simp only [Ends.bind_iff, Ends.get_iff]
  cases call with
  | create card content key =>
    exact (createLocked_indexed henv hfts content key hw hcall).bind (fun _ _ h => h) fun _ _ h => h
  | createBatch projectId items generateId uuidV4 message =>
    exact (createBatchLocked_indexed henv hfts projectId items generateId uuidV4 message hw
      hcall).bind (fun _ _ h => h) fun _ _ h => h
  | updateContent cardId content title updatedAt =>
    refine withCard_indexed hw cardId fun card hcard hid => ?_
    subst hid
    exact updateContentLocked_indexed henv hfts _ _ _ hw hcard (hcall card hcard)
  | move cardId hasParent parent key updatedAt =>
    exact withCard_indexed hw cardId fun card _ _ => moveLocked_indexed henv _ _ _ _ _ _ hw
  | moveTo projectId cardId request updatedAt =>
    simp only [Call.enter, moveToEntry]
    split
    · exact hw
    · split
      · exact hw
      · exact moveToLocked_indexed henv hfts _ _ _ _ hw
  | updateLinks cardId updatedAt =>
    exact withCard_indexed hw cardId fun card _ _ => updateLinksLocked_indexed henv card _ hw
  | updateMilestones cardId updatedAt =>
    exact withCard_indexed hw cardId fun card _ _ => updateMilestonesLocked_indexed henv card _ hw
  | updateMilestone projectId cardId milestoneId update updatedAt =>
    simp only [Call.enter, updateMilestoneEntry]
    split
    · next result _ =>
      cases result with
      | ok _ => exact hw
      | error _ => exact hw
    · exact (updateMilestoneLocked_indexed henv _ _ _ hw).bind (fun _ _ h => h) fun _ _ h => h
  | trash cardId deletedAt children =>
    exact withCard_indexed hw cardId fun card _ _ => trashLocked_indexed henv hfts _ _ _ _ hw
  | restore cardId updatedAt =>
    exact withCard_indexed hw cardId fun card _ _ => restoreLocked_indexed henv hfts _ _ _ hw
  | restoreVersion cardId oid updatedAt =>
    cases oid with
    | none => exact hw
    | some oid =>
      exact withCard_indexed hw cardId fun card _ _ =>
        restoreVersionLocked_indexed henv hfts _ _ _ _ hw
  | repairHierarchy projectId updatedAt => exact repairHierarchyLocked_indexed henv hfts _ _ hw
  | hardDelete cardId =>
    simp only [Call.enter, hardDeleteEntry, CardRepo.get?]
    cases hc : w.db.cards[cardId]? with
    | none => exact hw
    | some card =>
      have hid := hw.tidy.keyed _ _ hc
      subst hid
      dsimp only
      split
      · exact hw
      · next hdel =>
        have hdel : card.deletedAt ≠ none := by simpa using hdel
        exact (hardDeleteLocked_indexed hw hc hdel).bind (fun _ _ h => h) fun _ _ h => h
  | addTag cardId tag updatedAt =>
    simp only [Call.enter, addTagEntry, CardRepo.get?]
    split
    · exact hw
    · next hvalid =>
      cases hc : w.db.cards[cardId]? with
      | none => exact hw
      | some card =>
        have hid := hw.tidy.keyed _ _ hc
        subst hid
        have hlive := hcall (by simpa using hvalid) card hc
        exact (addTagLocked_indexed henv hfts _ _ hw hc hlive).bind (fun _ _ h => h) fun _ _ h => h
  | removeTag cardId tag updatedAt =>
    simp only [Call.enter, removeTagEntry, CardRepo.get?]
    split
    · exact hw
    · cases hc : w.db.cards[cardId]? with
      | none => exact hw
      | some card =>
        have hid := hw.tidy.keyed _ _ hc
        subst hid
        exact (removeTagLocked_indexed henv hfts _ _ hw hc (hcall card hc)).bind (fun _ _ h => h)
          fun _ _ h => h

end

end HolderCore
