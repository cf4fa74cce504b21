import HolderCore.Project.RebuildOrder
import HolderCore.Project.Slices
import HolderCore.Card.Rebuildable

/-! # Malformed front matter

A file that opens front matter states a card only if the front matter is closed, is a map and every
field of it converts. What `load_card_file` lets pass is more than that: it looks for an opening
delimiter with `\n` at the beginning of the raw bytes, and the parser keeps the fields it read
before one that does not convert. -/

namespace HolderCore

/-- A field that is left out, null or a sequence of maps. -/
def isMapSeq (node : YamlNode) (key : String) : Bool :=
  match node.get? key with
  | none | some .null => true
  | some (.seq items) => items.all fun | .map _ => true | _ => false
  | some _ => false

section
variable [NatCast K] (y : Yaml K)

/-- The fields of a map and the body, when every field converts. -/
def statedNode (node : YamlNode) (body : Bytes) : Option (ParsedCardFile K) :=
  let (card, fieldsOk) := readCardFields node (cardFields y) .empty
  let (links, linksOk) := parseSeq node "links" (parseLink y card)
  let (milestones, milestonesOk) := parseSeq node "milestones" (parseMilestone y card)
  if fieldsOk && linksOk && milestonesOk && isMapSeq node "links" && isMapSeq node "milestones" then
    some { card, links, milestones, body := String.ofList body, hasFrontMatter := true }
  else none

/-- The text between the delimiters and the text behind them. -/
def frontMatter (text : Bytes) : Option (Bytes × Bytes) :=
  if startsWith "---\r\n" text then
    splitFirst "\r\n---\r\n".toList (text.drop "---\r\n".length)
  else if startsWith "---\n" text then splitFirst "\n---\n".toList (text.drop "---\n".length)
  else none

/-- The card that a file with front matter states; nothing when it is malformed. -/
def stated (text : Bytes) : Option (ParsedCardFile K) :=
  match frontMatter text with
  | none => none
  | some (yamlText, body) =>
    match y.load yamlText with
    | some (.map entries) => statedNode y (.map entries) body
    | _ => none

variable {y}

end

/-! ## What is imported -/

/-- The rows a working tree stands for, where a key may be no number. -/
def boundProjection [NatCast K] (env : Env K) (isNan : K → Bool) (work : Tree) : Except Exn (Db K) := do
  let records ← loadCardFiles env work
  match countedRecords env isNan records.length records Db.empty with
  | .ok _ db => return db
  | .error e _ => throw e

/-- A file that the rebuild lets pass: what the parser makes of it has front matter or the raw bytes
do not begin with `---\n`, it has a valid id which the path agrees with, a parent that can exist, a key
that is a number and milestones with different ids. -/
structure LetPass [NatCast K] (env : Env K) (isNan : K → Bool) (path : String) (isTrash : Bool)
    (raw text : Bytes) : Prop where
  delimiter : startsWith "---\n" raw = true → (parseCardFile env.yaml text).hasFrontMatter = true
  named : (parseCardFile env.yaml text).hasFrontMatter = true →
    (parseCardFile env.yaml text).card.cardId ≠ ""
  uuid : isValidUuid (namedCard path (parseCardFile env.yaml text)).cardId = true
  place : path = cardPathOf isTrash (namedCard path (parseCardFile env.yaml text)).cardId
  parent : ∀ parent ∈ (parseCardFile env.yaml text).card.parentCardId, isValidUuid parent = true ∧
    parent ≠ (namedCard path (parseCardFile env.yaml text)).cardId
  key : isNan (parseCardFile env.yaml text).card.sortKey = false
  milestones : isTrash = false →
    ((parseCardFile env.yaml text).milestones.map (·.milestoneId)).Nodup

section
variable [NatCast K] {env : Env K} {isNan : K → Bool} {work : Tree} {records : List (CardRecord K)}
  {db : Db K} {path : String} {isTrash : Bool} {raw text : Bytes}

theorem projection_fts (h : projection env work = .ok db) :
    ∃ records, loadCardFiles env work = .ok records ∧ insertRecords env records Db.empty = .ok () db := by
  unfold projection at h
  simp only [bind, Except.bind] at h
  split at h
  · cases h
  · next records hload =>
    split at h
    · next db' hins =>
      cases h
      exact ⟨records, hload, hins⟩
    · cases h

/-- What a rebuild that succeeds has read and leaves, the full-text rows included. -/
theorem projection_rows (hdir : ∀ paths, (env.directoryOrder paths).Perm paths)
    (h : projection env work = .ok db) :
    ∃ records, Projected env work records db ∧ FtsOf env records db := by
  obtain ⟨records, hload, hins⟩ := projection_fts h
  have hfiles := loadCardFiles_ok hdir hload
  obtain ⟨hi, hrows, hlinks⟩ := (insertRecords_ends hfiles.loaded).ok hins
  obtain ⟨stats, hcounted⟩ : ∃ stats,
      countedRecords env (fun _ => false) records.length records Db.empty = .ok stats db := by
    rw [← insertRecords_counted] at hins
    simp only [bind, EStateM.bind] at hins
    split at hins
    · next stats db' hrun =>
      cases hins
      exact ⟨stats, hrun⟩
    · cases hins
  obtain ⟨-, ⟨-, -, hfts⟩, -⟩ := countedRecords_ok (foreign_empty env) hfiles.loaded hcounted
  exact ⟨records, ⟨hfiles, hi, hrows, hlinks⟩, ftsOver_empty.mp hfts⟩

/-- A tree has bound rows exactly when every key of its records is a number. -/
theorem boundProjection_iff (hdir : ∀ paths, (env.directoryOrder paths).Perm paths) :
    boundProjection env isNan work = .ok db ↔
      projection env work = .ok db ∧ ∀ r, FileRecord env work r → isNan r.card.sortKey = false := by
  unfold boundProjection projection
  simp only [bind, Except.bind]
  cases hload : loadCardFiles env work with
  | error e => simp
  | ok records =>
    have hfiles := loadCardFiles_ok hdir hload
    simp only [← hfiles.mem, ← insertRecords_counted, bind, EStateM.bind, pure, EStateM.pure]
    by_cases hkeys : ∀ r ∈ records, isNan r.card.sortKey = false
    · rw [countedRecords_numbers hkeys]
      simp only [iff_true_intro hkeys, and_true]
      cases countedRecords env (fun _ => false) records.length records Db.empty <;> rfl
    · simp only [hkeys, and_false, iff_false]
      have hends := @countedRecords_keys _ env isNan records Db.empty
      cases hrun : countedRecords env isNan records.length records Db.empty with
      | ok stats db' => exact absurd (hends.ok hrun) hkeys
      | error e db' =>
        intro h
        cases h

/-- The record of a file of a project that was rebuilt. -/
theorem Projected.file (h : Projected env work records db) (hfile : CardFile isTrash path)
    (hraw : work[path]? = some raw) (hdec : decodeBlobForProject env raw = .ok text) :
    loadCardFile env path raw isTrash = .ok (recordOf env path isTrash (parseCardFile env.yaml text)) ∧
      recordOf env path isTrash (parseCardFile env.yaml text) ∈ records := by
  obtain ⟨record, hload⟩ := h.files.allLoad path isTrash raw hfile hraw
  have heq : record = recordOf env path isTrash (parseCardFile env.yaml text) := by
    obtain ⟨plain, hplain, -, -, -, -, hrecord⟩ := loadCardFile_iff.mp hload
    rw [hdec] at hplain
    cases hplain
    exact hrecord
  subst heq
  exact ⟨hload, (h.files.mem _).mpr ⟨path, isTrash, raw, hfile, hraw, hload⟩⟩

omit [NatCast K] in
theorem recordOf_card (parsed : ParsedCardFile K) :
    (recordOf env path isTrash parsed).card.cardId = (namedCard path parsed).cardId ∧
      (recordOf env path isTrash parsed).card.parentCardId = parsed.card.parentCardId ∧
      (recordOf env path isTrash parsed).card.deletedAt.isSome = isTrash ∧
      (recordOf env path isTrash parsed).milestones.map (·.milestoneId) =
        parsed.milestones.map (·.milestoneId) := by
  refine ⟨rfl, ?_, ?_, ?_⟩
  · change (namedCard path parsed).parentCardId = _
    unfold namedCard
    split <;> rfl
  · cases isTrash <;> rfl
  · change (parsed.milestones.map (recordMilestone _)).map (·.milestoneId) = _
    rw [List.map_map]
    rfl

omit [NatCast K] in
variable (env path isTrash) in
theorem recordOf_sortKey (parsed : ParsedCardFile K) :
    (recordOf env path isTrash parsed).card.sortKey = parsed.card.sortKey := by
  change (namedCard path parsed).sortKey = _
  unfold namedCard
  split <;> rfl

/-- A project whose card files load to records that can be inserted is rebuilt. -/
theorem projection_of_records (hdir : ∀ paths, (env.directoryOrder paths).Perm paths)
    (hmem : ∀ path isTrash raw, CardFile isTrash path → work[path]? = some raw →
      ∃ r ∈ records, loadCardFile env path raw isTrash = .ok r)
    (hrecords : ∀ r ∈ records, FileRecord env work r) (hins : Insertable env records) :
    ∃ db, projection env work = .ok db := by
  have hall : AllLoad env work := by
    intro path isTrash raw hfile hraw
    obtain ⟨r, -, hload⟩ := hmem path isTrash raw hfile hraw
    exact ⟨r, hload⟩
  obtain ⟨db, -, hproj, -⟩ := projection_of hdir hall fun loaded hfiles => by
    have hiff : ∀ r, r ∈ loaded ↔ r ∈ records := by
      intro r
      rw [hfiles.mem]
      refine ⟨?_, hrecords r⟩
      rintro ⟨path, isTrash, raw, hfile, hraw, hload⟩
      obtain ⟨r', hr', hload'⟩ := hmem path isTrash raw hfile hraw
      rw [hload] at hload'
      cases hload'
      exact hr'
    have hids : (loaded.map (·.card.cardId)).Nodup := by
      rw [hfiles.ids]
      intro r hr r' hr' he
      rw [List.inj_on_of_nodup_map hins.compatible.ids ((hiff r).mp hr) ((hiff r').mp hr') he]
    refine hins.perm ?_
    exact (List.perm_ext_iff_of_nodup (hins.compatible.ids.of_map _) (hids.of_map _)).mpr
      fun r => (hiff r).symm
  exact ⟨db, hproj⟩

omit [NatCast K] in
theorem fileStem_cardPathOf (isTrash : Bool) {id : String} (h : isValidUuid id = true) :
    fileStem (cardPathOf isTrash id) = id := by
  unfold fileStem
  rw [fileName_cardPathOf isTrash h]
  refine String.toList_inj.mp ?_
  rw [String.toList_ofList, List.length_append]
  exact List.take_left

omit [NatCast K] in
/-- A project that can read a file can have an empty one. -/
theorem exists_empty_blob (hp : env.privacy.Lawful) (hdec : decodeBlobForProject env raw = .ok text) :
    ∃ blank, decodeBlobForProject env blank = .ok [] ∧ startsWith "---\n" blank = false := by
  unfold decodeBlobForProject at hdec ⊢
  by_cases hm : env.project.privacyMode = .encryptedGit
  · simp only [hm, if_true] at hdec ⊢
    cases hk : env.project.projectKeyId with
    | none => exact ⟨[], rfl, rfl⟩
    | some keyId =>
      simp only [hk] at hdec ⊢
      cases he : keyId.isEmpty with
      | true => exact ⟨[], rfl, rfl⟩
      | false =>
        simp only [he, Bool.false_eq_true, if_false, Privacy.decryptProjectBlob] at hdec ⊢
        cases hkey : env.privacy.loadKeyMaterial env.project.projectId keyId with
        | error e => rw [hkey] at hdec; cases hdec
        | ok key =>
          exact ⟨envelopeMagic.toList ++ env.privacy.encipher key keyId 0 [],
            hp.decrypt_encrypt key keyId 0 [], rfl⟩
  · exact ⟨[], if_neg hm, rfl⟩

/-- The record of an empty file. -/
def blankRecord (env : Env K) (id : String) : CardRecord K :=
  recordOf env (livePath id) false (noFrontMatter [])

theorem namedCard_blank {id : String} (hid : isValidUuid id = true) :
    (namedCard (livePath id) (noFrontMatter [] : ParsedCardFile K)).cardId = id := by
  have hstem : fileStem (livePath id) = id := fileStem_cardPathOf false hid
  have hempty : (noFrontMatter [] : ParsedCardFile K).card.cardId.isEmpty = true := rfl
  unfold namedCard
  rw [if_pos hempty]
  exact hstem

theorem blankRecord_cardId {id : String} (hid : isValidUuid id = true) :
    (blankRecord env id).card.cardId = id := namedCard_blank (K := K) hid

theorem loadCardFile_blank {id : String} {blank : Bytes} (hid : isValidUuid id = true)
    (hblank : decodeBlobForProject env blank = .ok []) (hstart : startsWith "---\n" blank = false) :
    loadCardFile env (livePath id) blank false = .ok (blankRecord env id) := by
  have hparse : parseCardFile env.yaml ([] : Bytes) = noFrontMatter [] := rfl
  refine loadCardFile_iff.mpr ⟨[], hblank, ?_⟩
  rw [hparse, namedCard_blank hid, hstart]
  exact ⟨rfl, rfl, hid, rfl, rfl⟩

theorem LetPass.load (h : LetPass env isNan path isTrash raw text)
    (hdec : decodeBlobForProject env raw = .ok text) : loadCardFile env path raw isTrash =
      .ok (recordOf env path isTrash (parseCardFile env.yaml text)) := by
  refine loadCardFile_iff.mpr ⟨text, hdec, ?_, ?_, h.uuid, h.place, rfl⟩
  · cases hstart : (startsWith "---\n" raw) with
    | false => rfl
    | true => rw [h.delimiter hstart]; rfl
  · cases hfm : (parseCardFile env.yaml text).hasFrontMatter with
    | false => rfl
    | true => simpa [String.isEmpty_iff] using h.named hfm

omit [NatCast K] in
/-- A path is read either as a live or as a trashed card. -/
theorem CardFile.unique {isTrash' : Bool} (h : CardFile isTrash path) (h' : CardFile isTrash' path) :
    isTrash' = isTrash := by
  have h1 := h.1
  have h2 := h'.1
  generalize path.toList = cs at h1 h2
  cases cs with
  | nil => cases isTrash <;> cases h1
  | cons c cs =>
    cases isTrash <;> cases isTrash' <;> try rfl
    all_goals
      simp only [startsWith, List.isPrefixOf_iff_prefix] at h1 h2
      exact absurd ((List.cons_prefix_cons.mp h1).1.trans (List.cons_prefix_cons.mp h2).1.symm)
        (by decide)

omit [NatCast K] in
/-- A record can be inserted together with roots that have no milestones, when its parent is one. -/
theorem insertable_with_roots {record : CardRecord K} {roots : List (CardRecord K)}
    (htags : ∀ body, (env.extractTags body).Nodup)
    (hids : ((record :: roots).map (·.card.cardId)).Nodup)
    (hroots : ∀ r ∈ roots, r.card.parentCardId = none ∧ r.milestones = [])
    (hparent : ∀ p ∈ record.card.parentCardId, ∃ r ∈ roots, r.card.cardId = p)
    (hmilestones : record.card.deletedAt = none → (record.milestones.map (·.milestoneId)).Nodup) :
    Insertable env (record :: roots) := by
  have hroot : ∀ r ∈ roots, Rooted (recordUp (record :: roots)) r.card.cardId := fun r hr =>
    .root ((recordUp_eq_some hids).mpr ⟨r, List.mem_cons_of_mem _ hr, rfl, (hroots r hr).1⟩)
  refine ⟨⟨hids, fun r _ _ => htags _, ?_⟩, fun x q hx => ?_⟩
  · have hnone : liveMilestones roots = [] := by
      refine List.eq_nil_iff_forall_not_mem.mpr fun m hm => ?_
      obtain ⟨r, hr, -, hm⟩ := mem_liveMilestones.mp hm
      rw [(hroots r hr).2] at hm
      cases hm
    have happ : liveMilestones (record :: roots) = liveMilestones [record] ++ liveMilestones roots := by
      rw [← List.singleton_append]
      simp only [liveMilestones, List.filter_append, List.flatMap_append]
    rw [happ, hnone, List.append_nil]
    cases hdel : record.card.deletedAt with
    | none => simpa [liveMilestones, Card.live, hdel] using hmilestones hdel
    | some t => simp [liveMilestones, Card.live, hdel]
  · obtain ⟨r, hr, hrx, hrq⟩ := (recordUp_eq_some hids).mp hx
    rcases List.mem_cons.mp hr with rfl | hr
    · cases q with
      | none => exact .root hx
      | some p =>
        obtain ⟨r', hr', hid⟩ := hparent p hrq
        exact .step hx (hid ▸ hroot r' hr')
    · exact hrx ▸ hroot r hr

/-- A project of one file for each record that can be inserted is rebuilt. -/
theorem projection_of_written (hdir : ∀ paths, (env.directoryOrder paths).Perm paths)
    (hins : Insertable env records) (rawOf : String → Bytes)
    (hload : ∀ r ∈ records, loadCardFile env r.card.filePath (rawOf r.card.cardId)
      r.card.deletedAt.isSome = .ok r) :
    ∃ work db, (∀ r ∈ records, work[r.card.filePath]? = some (rawOf r.card.cardId)) ∧
      projection env work = .ok db ∧ ∀ r, FileRecord env work r → r ∈ records := by
  have hlen : ∀ r ∈ records, 4 ≤ r.card.cardId.length := fun r hr =>
    (loadCardFile_ok (hload r hr)).1.length
  have hpaths : (records.map (·.card.filePath)).Nodup := by
    have hids := hins.compatible.ids
    rw [List.Nodup, List.pairwise_map] at hids ⊢
    refine hids.imp_of_mem fun hr hr' hne he => hne ?_
    have hpath : ∀ card : Card K, CardPath card.cardId card.filePath := fun card =>
      cardPathOf_cardPath _ _
    exact (hpath _).inj (hlen _ hr) (hlen _ hr') (he ▸ hpath _)
  have hwork : ∀ path raw, ((records.foldl
      (fun m r => m.insert r.card.filePath (rawOf r.card.cardId)) (∅ : Tree))[path]? = some raw ↔
        ∃ r ∈ records, r.card.filePath = path ∧ rawOf r.card.cardId = raw) := by
    intro path raw
    rw [Map.get_foldl_insert_nodup hpaths]
    simp
  have hfile : ∀ r ∈ records, CardFile r.card.deletedAt.isSome r.card.filePath := fun r hr =>
    cardFile_cardPathOf _ (loadCardFile_ok (hload r hr)).2.1
  have hmem : ∀ path isTrash raw, CardFile isTrash path → (records.foldl
      (fun m r => m.insert r.card.filePath (rawOf r.card.cardId)) (∅ : Tree))[path]? = some raw →
      ∃ r ∈ records, loadCardFile env path raw isTrash = .ok r := by
    intro path isTrash raw hcard hraw
    obtain ⟨r, hr, rfl, rfl⟩ := (hwork path raw).mp hraw
    rw [(hfile r hr).unique hcard]
    exact ⟨r, hr, hload r hr⟩
  obtain ⟨db, hdb⟩ := projection_of_records hdir hmem
    (fun r hr => ⟨_, _, _, hfile r hr, (hwork _ _).mpr ⟨r, hr, rfl, rfl⟩, hload r hr⟩) hins
  refine ⟨_, db, fun r hr => (hwork _ _).mpr ⟨r, hr, rfl, rfl⟩, hdb, ?_⟩
  rintro r ⟨path, isTrash, raw, hcard, hraw, hloaded⟩
  obtain ⟨r', hr', hload'⟩ := hmem path isTrash raw hcard hraw
  rw [hloaded] at hload'
  cases hload'
  exact hr'

/-- A file that is let pass stands in a project that is rebuilt. -/
theorem LetPass.rebuilt (h : LetPass env isNan path isTrash raw text) (henv : env.Lawful)
    (htags : ∀ body, (env.extractTags body).Nodup) (hzero : isNan ((0 : Nat) : K) = false)
    (hdec : decodeBlobForProject env raw = .ok text) :
    ∃ (work : Tree) (db : Db K), work[path]? = some raw ∧ boundProjection env isNan work = .ok db := by
  obtain ⟨blank, hblank, hstart⟩ := exists_empty_blob henv.privacy hdec
  have hload := h.load hdec
  obtain ⟨hid, hup, hdel, hms⟩ := recordOf_card (parseCardFile env.yaml text)
  have hpath := h.place
  have hparent := h.parent
  have hmilestones := h.milestones
  have hkey := h.key
  rw [← recordOf_sortKey env path isTrash] at hkey
  rw [← hup, ← hid] at hparent
  rw [← hid] at hpath
  rw [← hms] at hmilestones
  generalize recordOf env path isTrash (parseCardFile env.yaml text) = record at *
  have hlive : record.card.deletedAt = none → (record.milestones.map (·.milestoneId)).Nodup := by
    refine fun hlive => hmilestones ?_
    rw [← hdel, hlive]
    rfl
  rw [← hdel] at hpath hload
  subst hpath
  -- The parent of the card, when it has one, gets an empty file of its own.
  let roots := record.card.parentCardId.toList.map (blankRecord env)
  have hroots : ∀ r ∈ roots, ∃ p, record.card.parentCardId = some p ∧ r = blankRecord env p ∧
      r.card.cardId = p := by
    intro r hr
    obtain ⟨p, hp, rfl⟩ := List.mem_map.mp hr
    rw [Option.mem_toList] at hp
    exact ⟨p, hp, rfl, blankRecord_cardId (hparent p hp).1⟩
  have hids : ((record :: roots).map (·.card.cardId)).Nodup := by
    refine List.nodup_cons.mpr ⟨fun hmem => ?_, ?_⟩
    · obtain ⟨r, hr, he⟩ := List.mem_map.mp hmem
      obtain ⟨p, hp, -, hrp⟩ := hroots r hr
      exact (hparent p hp).2 (hrp.symm.trans he)
    · change ((record.card.parentCardId.toList.map (blankRecord env)).map _).Nodup
      cases record.card.parentCardId <;> simp
  have hins : Insertable env (record :: roots) := insertable_with_roots htags hids
    (fun r hr => by
      obtain ⟨p, -, rfl, -⟩ := hroots r hr
      exact ⟨rfl, rfl⟩)
    (fun p hp => ⟨blankRecord env p, List.mem_map_of_mem (Option.mem_toList.mpr hp),
      blankRecord_cardId (hparent p hp).1⟩)
    hlive
  obtain ⟨work, db, hwork, hdb, honly⟩ := projection_of_written henv.directory hins
    (fun id => if id = record.card.cardId then raw else blank) (fun r hr => by
      rcases List.mem_cons.mp hr with rfl | hr
      · rw [if_pos rfl]
        exact hload
      · obtain ⟨p, hp, rfl, hid⟩ := hroots r hr
        obtain ⟨hv, hne⟩ := hparent p hp
        rw [hid, if_neg hne, ← cardPathOf_filePath, hid]
        exact loadCardFile_blank hv hblank hstart)
  refine ⟨work, db, by simpa [← cardPathOf_filePath] using hwork record (by simp),
    (boundProjection_iff henv.directory).mpr ⟨hdb, fun r hr => ?_⟩⟩
  rcases List.mem_cons.mp (honly r hr) with rfl | hr
  · exact hkey
  · obtain ⟨p, -, rfl, -⟩ := hroots r hr
    rw [blankRecord, recordOf_sortKey]
    exact hzero

end

/-- The text of a file with front matter. -/
def delimited (front : YamlNode) (body : String) : Bytes :=
  "---\n".toList ++ flowYaml.emit front ++ "\n---\n".toList ++ body.toList

/-- A file whose front matter is complete. -/
def completeText : Bytes := delimited (.map [("card_id", .scalar idA), ("title", .scalar "a")]) "b"

/-- The project of that one card file. -/
def oneFile (text : Bytes) : World ℚ :=
  { World.empty with
    repo := { (World.empty : World ℚ).repo with work := (∅ : Tree).insert (livePath idA) text } }

end HolderCore
