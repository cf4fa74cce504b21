import HolderCore.Project.RebuildLemmas

/-! # What a rebuild reads

The card files of a working tree, one record for each, and the rows that a rebuild makes of them. -/

namespace HolderCore

/-- The path of a file that the rebuild reads as a live or as a trashed card. -/
def CardFile (isTrash : Bool) (path : String) : Prop :=
  startsWith ((if isTrash then "trash/cards" else "cards") ++ "/") path.toList = true ∧
    isMarkdown path = true

/-- The path of a card's file. -/
def cardPathOf (isTrash : Bool) (id : String) : String :=
  if isTrash then trashPath id else livePath id

theorem cardPathOf_filePath (card : Card K) : cardPathOf card.deletedAt.isSome card.cardId = card.filePath :=
  rfl

theorem isValidUuid_length {id : String} (h : isValidUuid id = true) : id.length = 36 := by
  simp only [isValidUuid, Bool.and_eq_true, beq_iff_eq, String.length_toList] at h
  exact h.1.1.1

/-- The characters of a UUID. -/
theorem isValidUuid_chars {id : String} (h : isValidUuid id = true) {c : Char} (hc : c ∈ id.toList) :
    c = '-' ∨ isHexDigit c = true := by
  simp only [isValidUuid, Bool.and_eq_true, List.all_eq_true] at h
  obtain ⟨i, hi, rfl⟩ := List.mem_iff_getElem.mp hc
  have := h.1.1.2 (if i == 8 || i == 13 || i == 18 || i == 23 then id.toList[i] == '-'
    else isHexDigit id.toList[i]) (by
      rw [List.mem_iff_getElem]
      exact ⟨i, by simpa using hi, by simp⟩)
  split at this
  · exact .inl (by simpa using this)
  · exact .inr (by simpa using this)

theorem splitSlash_ne_nil (cs : List Char) : splitSlash cs ≠ [] := by
  induction cs with
  | nil => simp [splitSlash]
  | cons c cs ih =>
    rw [splitSlash]
    split
    · simp
    · split <;> simp

theorem splitSlash_append (as bs : List Char) :
    splitSlash (as ++ '/' :: bs) = splitSlash as ++ splitSlash bs := by
  induction as with
  | nil => simp [splitSlash]
  | cons c as ih =>
    rw [List.cons_append, splitSlash, splitSlash, ih]
    split
    · rfl
    · cases h : splitSlash as with
      | nil => exact absurd h (splitSlash_ne_nil as)
      | cons part parts => rfl

theorem splitSlash_of_not_mem {cs : List Char} (h : '/' ∉ cs) : splitSlash cs = [cs] := by
  induction cs with
  | nil => rfl
  | cons c cs ih =>
    rw [List.mem_cons, not_or] at h
    rw [splitSlash, if_neg (Ne.symm h.1), ih h.2]

theorem slash_not_mem_uuid {id : String} (h : isValidUuid id = true) : '/' ∉ id.toList := by
  intro hc
  rcases isValidUuid_chars h hc with h | h
  · cases h
  · revert h
    decide

theorem splitSlash_livePath {id : String} (h : isValidUuid id = true) :
    splitSlash (livePath id).toList =
      [['c', 'a', 'r', 'd', 's'], id.toList.take 2, (id.toList.drop 2).take 2,
        id.toList ++ ['.', 'm', 'd']] := by
  have hslash := slash_not_mem_uuid h
  have hlast : '/' ∉ id.toList ++ ['.', 'm', 'd'] := by
    simp [hslash]
  have hpath : (livePath id).toList = ['c', 'a', 'r', 'd', 's'] ++ '/' :: (id.toList.take 2 ++
      '/' :: ((id.toList.drop 2).take 2 ++ '/' :: (id.toList ++ ['.', 'm', 'd']))) := by
    simp [livePath]
  rw [hpath, splitSlash_append, splitSlash_append, splitSlash_append, splitSlash_of_not_mem hlast,
    splitSlash_of_not_mem (fun hm => hslash (List.mem_of_mem_take hm)),
    splitSlash_of_not_mem (fun hm => hslash (List.mem_of_mem_drop (List.mem_of_mem_take hm)))]
  rfl

theorem fileName_cardPathOf (isTrash : Bool) {id : String} (h : isValidUuid id = true) :
    fileName (cardPathOf isTrash id) = id.toList ++ ['.', 'm', 'd'] := by
  unfold fileName cardPathOf
  cases isTrash with
  | false =>
    rw [if_neg (by simp), splitSlash_livePath h]
    rfl
  | true =>
    have hpath : (trashPath id).toList = ['t', 'r', 'a', 's', 'h'] ++ '/' :: (livePath id).toList := by
      simp [trashPath]
    rw [if_pos rfl, hpath, splitSlash_append, splitSlash_livePath h]
    rfl

/-- The rebuild reads the file of every card with a UUID. -/
theorem cardFile_cardPathOf (isTrash : Bool) {id : String} (h : isValidUuid id = true) :
    CardFile isTrash (cardPathOf isTrash id) := by
  have hlen := isValidUuid_length h
  refine ⟨?_, ?_⟩
  · cases isTrash <;> simp [cardPathOf, startsWith, livePath, trashPath]
  · rw [isMarkdown, fileName_cardPathOf isTrash h]
    simp only [Bool.and_eq_true, decide_eq_true_eq, List.length_append, String.length_toList, hlen]
    exact ⟨by simp [List.isSuffixOf, List.isPrefixOf], by simp⟩

theorem deriveTitle_ne_empty (body : String) {fallback : String} (h : fallback ≠ "") :
    deriveTitle body fallback ≠ "" := by
  unfold deriveTitle
  simp only
  split
  · split
    · exact h
    · next title hne =>
      intro he
      exact hne (by simpa using congrArg String.toList he)
  · exact h

/-! ## One file -/

section
variable [NatCast K] {env : Env K} {work : Tree} {records : List (CardRecord K)}

/-- The card of a parsed file, under the file's name when the text names none. -/
def namedCard (path : String) (parsed : ParsedCardFile K) : Card K :=
  if parsed.card.cardId.isEmpty then { parsed.card with cardId := fileStem path } else parsed.card

/-- The record of a parsed file. -/
def recordOf (env : Env K) (path : String) (isTrash : Bool) (parsed : ParsedCardFile K) :
    CardRecord K :=
  let card := recordCard env (namedCard path parsed) parsed.body (env.lastWriteTime path) isTrash
  { card
    body := parsed.body
    links := parsed.links.map (recordLink card)
    milestones := parsed.milestones.map (recordMilestone card) }

theorem loadCardFile_iff {path : String} {raw : Bytes} {isTrash : Bool} {record : CardRecord K} :
    loadCardFile env path raw isTrash = .ok record ↔ ∃ plain,
      decodeBlobForProject env raw = .ok plain ∧
      (startsWith "---\n" raw && !(parseCardFile env.yaml plain).hasFrontMatter) = false ∧
      ((parseCardFile env.yaml plain).hasFrontMatter &&
        (parseCardFile env.yaml plain).card.cardId.isEmpty) = false ∧
      isValidUuid (namedCard path (parseCardFile env.yaml plain)).cardId = true ∧
      path = cardPathOf isTrash (namedCard path (parseCardFile env.yaml plain)).cardId ∧
      record = recordOf env path isTrash (parseCardFile env.yaml plain) := by
  unfold loadCardFile
  cases hd : decodeBlobForProject env raw with
  | error e => simp [bind, Except.bind]
  | ok plain =>
    simp only [Except.ok.injEq, exists_eq_left', bind, Except.bind]
    generalize hparsed : parseCardFile env.yaml plain = parsed
    generalize hs : (startsWith "---\n" raw && !parsed.hasFrontMatter) = malformed
    generalize hm : (parsed.hasFrontMatter && parsed.card.cardId.isEmpty) = missing
    rw [show (if parsed.card.cardId.isEmpty = true then { parsed.card with cardId := fileStem path }
      else parsed.card) = namedCard path parsed from rfl]
    cases malformed with
    | true => simp [throw, throwThe, MonadExceptOf.throw]
    | false =>
      cases missing with
      | true => simp [throw, throwThe, MonadExceptOf.throw]
      | false =>
        simp only [Bool.false_eq_true, if_false, true_and]
        generalize hc : namedCard path parsed = card
        cases hu : isValidUuid card.cardId with
        | false => simp [throw, throwThe, MonadExceptOf.throw]
        | true =>
          have hlen : ¬ card.cardId.length < 4 := by
            have := isValidUuid_length hu
            omega
          simp only [Bool.not_true, Bool.false_eq_true, if_false, true_and, recordOf, hc]
          cases isTrash with
          | false =>
            simp only [Bool.false_eq_true, if_false, cardRelPath, hlen, cardPathOf]
            by_cases hp : path = livePath card.cardId
            · simp [← hp, pure, Except.pure, eq_comm]
            · simp [hp, throw, throwThe, MonadExceptOf.throw]
          | true =>
            simp only [if_true, cardTrashRelPath, cardRelPath, hlen, if_false, cardPathOf, bind,
              Except.bind, pure, Except.pure]
            by_cases hp : path = trashPath card.cardId
            · have hp' : path = "trash/" ++ livePath card.cardId := hp
              simp [← hp, ← hp', eq_comm]
            · have hp' : ¬ path = "trash/" ++ livePath card.cardId := hp
              simp [hp, hp', throw, throwThe, MonadExceptOf.throw]

/-- What is known of the record of a file. -/
theorem loadCardFile_ok {path : String} {raw : Bytes} {isTrash : Bool} {record : CardRecord K}
    (h : loadCardFile env path raw isTrash = .ok record) :
    Loaded env record ∧ isValidUuid record.card.cardId = true ∧
      path = cardPathOf isTrash record.card.cardId ∧ record.card.deletedAt.isSome = isTrash := by
  obtain ⟨plain, -, -, -, huuid, hpath, rfl⟩ := loadCardFile_iff.mp h
  have hlen := isValidUuid_length huuid
  refine ⟨⟨rfl, rfl, ?_, ?_, ?_⟩, huuid, hpath, ?_⟩
  · change 4 ≤ (namedCard path (parseCardFile env.yaml plain)).cardId.length
    omega
  · intro link hlink
    obtain ⟨l, -, rfl⟩ := List.mem_map.mp hlink
    exact ⟨rfl, rfl⟩
  · intro m hm
    obtain ⟨m', -, rfl⟩ := List.mem_map.mp hm
    exact ⟨rfl, rfl⟩
  · cases isTrash <;> simp [recordOf, recordCard]

omit [NatCast K] in
theorem mem_collectFiles (hdir : ∀ paths, (env.directoryOrder paths).Perm paths) {base path : String} :
    path ∈ collectFiles env work base ↔ (∃ raw, work[path]? = some raw) ∧
      startsWith (base ++ "/") path.toList = true ∧ isMarkdown path = true := by
  unfold collectFiles
  rw [(hdir _).mem_iff, List.mem_filter, Std.ExtTreeMap.mem_keys, Map.mem_iff, Bool.and_eq_true]

/-- A record of a card file in the tree. -/
def FileRecord (env : Env K) (work : Tree) (record : CardRecord K) : Prop :=
  ∃ path isTrash raw, CardFile isTrash path ∧ work[path]? = some raw ∧
    loadCardFile env path raw isTrash = .ok record

/-- Every card file of the tree loads. -/
def AllLoad (env : Env K) (work : Tree) : Prop :=
  ∀ path isTrash raw, CardFile isTrash path → work[path]? = some raw →
    ∃ record, loadCardFile env path raw isTrash = .ok record

/-- One directory of files, loaded. -/
private theorem mapM_load (hdir : ∀ paths, (env.directoryOrder paths).Perm paths) (isTrash : Bool)
    (h : (collectFiles env work (if isTrash then "trash/cards" else "cards")).mapM (fun path =>
      loadCardFile env path (work[path]?.getD []) isTrash) = .ok records) :
    (records.map (·.card.cardId)).Nodup ∧
      (∀ record, record ∈ records ↔ ∃ path raw, CardFile isTrash path ∧ work[path]? = some raw ∧
        loadCardFile env path raw isTrash = .ok record) ∧
      ∀ path raw, CardFile isTrash path → work[path]? = some raw →
        ∃ record, loadCardFile env path raw isTrash = .ok record := by
  have hall := Except.forall₂_of_mapM h
  have hpaths : collectFiles env work (if isTrash then "trash/cards" else "cards") =
      (records.map (·.card.cardId)).map (cardPathOf isTrash) := by
    generalize collectFiles env work (if isTrash then "trash/cards" else "cards") = paths at hall
    clear h
    induction hall with
    | nil => rfl
    | cons hr _ ih => rw [List.map_cons, List.map_cons, ← ih, ← (loadCardFile_ok hr).2.2.1]
  have hnodup : (collectFiles env work (if isTrash then "trash/cards" else "cards")).Nodup :=
    (hdir _).nodup_iff.mpr (Std.ExtTreeMap.nodup_keys.filter _)
  refine ⟨?_, fun record => ?_, fun path raw hfile hraw => ?_⟩
  · rw [hpaths] at hnodup
    exact hnodup.of_map _
  · constructor
    · intro hr
      obtain ⟨path, hpath, hload⟩ := hall.exists_left hr
      obtain ⟨⟨raw, hraw⟩, hfile⟩ := (mem_collectFiles hdir).mp hpath
      rw [hraw] at hload
      exact ⟨path, raw, hfile, hraw, hload⟩
    · rintro ⟨path, raw, hfile, hraw, hload⟩
      obtain ⟨r, hr, hload'⟩ := hall.exists_right ((mem_collectFiles hdir).mpr ⟨⟨raw, hraw⟩, hfile⟩)
      rw [hraw] at hload'
      change loadCardFile env path raw isTrash = _ at hload'
      rw [hload] at hload'
      cases hload'
      exact hr
  · obtain ⟨r, -, hload⟩ := hall.exists_right ((mem_collectFiles hdir).mpr ⟨⟨raw, hraw⟩, hfile⟩)
    rw [hraw] at hload
    exact ⟨r, hload⟩

theorem mapM_of_forall {ε α β : Type} {f : α → Except ε β} {as : List α}
    (h : ∀ a ∈ as, ∃ b, f a = .ok b) : ∃ bs, as.mapM f = .ok bs := by
  induction as with
  | nil => exact ⟨[], rfl⟩
  | cons a as ih =>
    obtain ⟨b, hb⟩ := h a List.mem_cons_self
    obtain ⟨bs, hbs⟩ := ih fun a ha => h a (List.mem_cons_of_mem _ ha)
    exact ⟨b :: bs, by rw [List.mapM_cons, hb, hbs]; rfl⟩

/-- Reading the files of a tree. -/
structure LoadedFiles (env : Env K) (work : Tree) (records : List (CardRecord K)) : Prop where
  mem : ∀ record, record ∈ records ↔ FileRecord env work record
  allLoad : AllLoad env work
  loaded : ∀ record ∈ records, Loaded env record
  /-- Two records of one card are its live and its trashed file. -/
  ids : (records.map (·.card.cardId)).Nodup ↔ ∀ record ∈ records, ∀ record' ∈ records,
    record.card.cardId = record'.card.cardId →
      record.card.deletedAt.isSome = record'.card.deletedAt.isSome

theorem loadCardFiles_ok (hdir : ∀ paths, (env.directoryOrder paths).Perm paths)
    (h : loadCardFiles env work = .ok records) : LoadedFiles env work records := by
  unfold loadCardFiles at h
  simp only [bind, Except.bind] at h
  split at h
  · cases h
  · next live hlive =>
    split at h
    · cases h
    · next trash htrash =>
      cases h
      obtain ⟨hln, hlm, hll⟩ := mapM_load hdir false hlive
      obtain ⟨htn, htm, htl⟩ := mapM_load hdir true htrash
      have hlivedel : ∀ r ∈ live, r.card.deletedAt.isSome = false := by
        intro r hr
        obtain ⟨_, _, -, -, hload⟩ := (hlm r).mp hr
        exact (loadCardFile_ok hload).2.2.2
      have htrashdel : ∀ r ∈ trash, r.card.deletedAt.isSome = true := by
        intro r hr
        obtain ⟨_, _, -, -, hload⟩ := (htm r).mp hr
        exact (loadCardFile_ok hload).2.2.2
      refine ⟨fun record => ?_, ?_, ?_, ?_⟩
      · rw [List.mem_append, hlm, htm, FileRecord]
        constructor
        · rintro (⟨path, raw, h⟩ | ⟨path, raw, h⟩)
          · exact ⟨path, false, raw, h⟩
          · exact ⟨path, true, raw, h⟩
        · rintro ⟨path, isTrash, raw, h⟩
          cases isTrash with
          | false => exact .inl ⟨path, raw, h⟩
          | true => exact .inr ⟨path, raw, h⟩
      · intro path isTrash raw hfile hraw
        cases isTrash with
        | false => exact hll path raw hfile hraw
        | true => exact htl path raw hfile hraw
      · intro r hr
        rcases List.mem_append.mp hr with hr | hr
        · obtain ⟨_, _, -, -, hload⟩ := (hlm r).mp hr
          exact (loadCardFile_ok hload).1
        · obtain ⟨_, _, -, -, hload⟩ := (htm r).mp hr
          exact (loadCardFile_ok hload).1
      · rw [List.map_append, List.nodup_append]
        constructor
        · rintro ⟨-, -, hdisj⟩ r hr r' hr' he
          rcases List.mem_append.mp hr with hr | hr <;> rcases List.mem_append.mp hr' with hr' | hr'
          · rw [hlivedel r hr, hlivedel r' hr']
          · exact absurd he (hdisj _ (List.mem_map.mpr ⟨r, hr, rfl⟩) _ (List.mem_map.mpr ⟨r', hr', rfl⟩))
          · exact absurd he.symm
              (hdisj _ (List.mem_map.mpr ⟨r', hr', rfl⟩) _ (List.mem_map.mpr ⟨r, hr, rfl⟩))
          · rw [htrashdel r hr, htrashdel r' hr']
        · intro hsame
          refine ⟨hln, htn, fun a ha b hb hab => ?_⟩
          obtain ⟨r, hr, rfl⟩ := List.mem_map.mp ha
          obtain ⟨r', hr', rfl⟩ := List.mem_map.mp hb
          have := hsame r (List.mem_append_left _ hr) r' (List.mem_append_right _ hr') hab
          rw [hlivedel r hr, htrashdel r' hr'] at this
          cases this

theorem loadCardFiles_of (hdir : ∀ paths, (env.directoryOrder paths).Perm paths)
    (h : AllLoad env work) : ∃ records, loadCardFiles env work = .ok records := by
  have hload : ∀ isTrash : Bool, ∃ records, (collectFiles env work
      (if isTrash then "trash/cards" else "cards")).mapM (fun path =>
        loadCardFile env path (work[path]?.getD []) isTrash) = .ok records := by
    intro isTrash
    refine mapM_of_forall fun path hpath => ?_
    obtain ⟨⟨raw, hraw⟩, hfile⟩ := (mem_collectFiles hdir).mp hpath
    rw [hraw]
    exact h path isTrash raw hfile hraw
  obtain ⟨live, hlive⟩ := hload false
  obtain ⟨trash, htrash⟩ := hload true
  simp only [Bool.false_eq_true, if_false] at hlive
  simp only [if_true] at htrash
  refine ⟨live ++ trash, ?_⟩
  simp only [loadCardFiles, hlive, htrash, bind, Except.bind, pure, Except.pure]

/-! ## The projection -/

/-- What a rebuild that succeeds has read and leaves. -/
structure Projected (env : Env K) (work : Tree) (records : List (CardRecord K)) (db : Db K) :
    Prop where
  files : LoadedFiles env work records
  insertable : Insertable env records
  rows : RowsOf env records db
  links : LinksOf records db

theorem projection_ok (hdir : ∀ paths, (env.directoryOrder paths).Perm paths) {db : Db K}
    (h : projection env work = .ok db) : ∃ records, Projected env work records db := by
  unfold projection at h
  simp only [bind, Except.bind] at h
  split at h
  · cases h
  · next records hload =>
    have hfiles := loadCardFiles_ok hdir hload
    split at h
    · next db' hins =>
      cases h
      obtain ⟨hi, hrows, hlinks⟩ := (insertRecords_ends hfiles.loaded).ok hins
      exact ⟨records, hfiles, hi, hrows, hlinks⟩
    · cases h

/-- The rebuild succeeds on files that load to insertable records. -/
theorem projection_of (hdir : ∀ paths, (env.directoryOrder paths).Perm paths)
    (hall : AllLoad env work)
    (hins : ∀ records, LoadedFiles env work records → Insertable env records) :
    ∃ db records, projection env work = .ok db ∧ Projected env work records db := by
  obtain ⟨records, hload⟩ := loadCardFiles_of hdir hall
  have hfiles := loadCardFiles_ok hdir hload
  have hi := hins records hfiles
  have hends := insertRecords_ends hfiles.loaded
  unfold projection
  simp only [hload, bind, Except.bind]
  cases hrun : insertRecords env records Db.empty with
  | ok u db =>
    obtain ⟨-, hrows, hlinks⟩ := hends.ok hrun
    exact ⟨db, records, rfl, hfiles, hi, hrows, hlinks⟩
  | error e db => exact absurd hi (hends.error hrun)

end

end HolderCore
