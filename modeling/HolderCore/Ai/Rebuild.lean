import HolderCore.Privacy.Services
import HolderCore.Project.Reload

/-! # Rebuilding the messages

The part of `Rebuilder::rebuild_project` that comes after the cards: the message files, the threads
and the rows of the messages and their links, given the threads that have a manifest in the tree. -/

namespace HolderCore

structure MessageRecord where
  message : AiMessage
  links : List CardLink

section
variable [NatCast K] (env : Env K)

/-- The columns that the rebuild sets or defaults, once the id is known. -/
def recordMessage (message : AiMessage) (mtime : Int) (isTrash : Bool) : AiMessage :=
  { message with
    threadId := if message.threadId.isEmpty then message.messageId else message.threadId
    role := if message.role.isEmpty then "assistant" else message.role
    source := if message.source.isEmpty then "manual_paste" else message.source
    createdAt := if message.createdAt ≤ 0 then mtime else message.createdAt
    deletedAt := if isTrash then some (message.deletedAt.getD mtime) else none }

def rebuildMessageFile (path : String) (raw : Bytes) (isTrash : Bool) : Except Exn MessageRecord := do
  let parsed := parseAiMessageFile env.yaml (← decodeBlobForProject env raw)
  if startsWith "---\n" raw && !parsed.hasFrontMatter then
    throw (.runtimeError "invalid ai message front matter")
  if parsed.hasFrontMatter && parsed.message.messageId.isEmpty then
    throw (.runtimeError "message_id missing in front matter")
  let messageId := if parsed.message.messageId.isEmpty then fileStem path
    else parsed.message.messageId
  if messageId.length < 4 then throw (.runtimeError "invalid message_id in file")
  let expected ← if isTrash then aiMessageTrashRelPath messageId else aiMessageRelPath messageId
  if path ≠ expected then throw (.runtimeError "ai message path does not match message_id")
  let message := recordMessage { parsed.message with messageId, content := parsed.body }
    (env.lastWriteTime path) isTrash
  return {
    message
    links := parsed.links.map (recordLink (messageOwner env.project.projectId message : Card K)) }

/-- The records of the live files, then of the trashed ones. -/
def rebuildMessageFiles (work : Tree) : Except Exn (List MessageRecord) := do
  let live ← (collectFiles env work "ai_messages").mapM fun path =>
    rebuildMessageFile env path (work[path]?.getD []) false
  let trash ← (collectFiles env work "trash/ai_messages").mapM fun path =>
    rebuildMessageFile env path (work[path]?.getD []) true
  return live ++ trash

/-- The threads that get a row: those with a manifest, or without any manifest those that a message
names. -/
def rebuildThreads (durable : List String) (records : List MessageRecord) :
    Except Exn (List String) :=
  if durable.isEmpty then return (records.map (·.message.threadId)).dedup
  else
    match records.find? fun record => !durable.contains record.message.threadId with
    | some record => throw (.runtimeError
        ("AI message refers to thread without durable manifest: " ++ record.message.threadId))
    | none => return durable

structure RebuiltMessages (K : Type) where
  messages : Map String AiMessage
  db : Db K

def insertMessages (projectId : String) :
    List MessageRecord → RebuiltMessages K → Except Exn (RebuiltMessages K)
  | [], rebuilt => return rebuilt
  | record :: records, rebuilt =>
    if rebuilt.messages.contains record.message.messageId then
      throw (.runtimeError "insert ai message failed")
    else
      match LinkRepo.upsertLinks projectId record.message.messageId record.links rebuilt.db with
      | .error e _ => throw e
      | .ok _ db => insertMessages projectId records
          ⟨rebuilt.messages.insert record.message.messageId record.message, db⟩

/-- The rebuild of the messages, on the rows that the cards were rebuilt to. -/
def rebuildMessages (durable : List String) (work : Tree) (db : Db K) :
    Except Exn (List String × RebuiltMessages K) := do
  let records ← rebuildMessageFiles env work
  let threads ← rebuildThreads durable records
  return (threads, ← insertMessages env.project.projectId records ⟨∅, db⟩)

end

/-! ## Message files -/

/-- The path of a message's file. -/
def messagePath (isTrash : Bool) (messageId : String) : String :=
  if isTrash then "trash/" ++ shardedPath "ai_messages" messageId ".md"
  else shardedPath "ai_messages" messageId ".md"

/-- The path of a file that the rebuild reads as a live or as a trashed message. -/
def MessageFile (isTrash : Bool) (path : String) : Prop :=
  startsWith ((if isTrash then "trash/ai_messages" else "ai_messages") ++ "/") path.toList = true ∧
    isMarkdown path = true

/-- An id that its file's path keeps as it is: no component of the path is cut or skipped by it. -/
structure PlainId (messageId : String) : Prop where
  length : 4 ≤ messageId.length
  slash : '/' ∉ messageId.toList
  dots : messageId.toList.take 2 ≠ ['.', '.'] ∧ (messageId.toList.drop 2).take 2 ≠ ['.', '.']

theorem fileName_messagePath (isTrash : Bool) {id : String} (h : PlainId id) :
    fileName (messagePath isTrash id) = id.toList ++ ['.', 'm', 'd'] := by
  have hlast : '/' ∉ id.toList ++ ['.', 'm', 'd'] := by simp [h.slash]
  have hname : ∀ before : List Char, (splitSlash (before ++ '/' :: (id.toList ++ ['.', 'm', 'd']))).getLastD [] =
      id.toList ++ ['.', 'm', 'd'] := by
    intro before
    rw [splitSlash_append, splitSlash_of_not_mem hlast]
    simp
  cases isTrash with
  | false =>
    have hpath : (messagePath false id).toList = (['a', 'i', '_', 'm', 'e', 's', 's', 'a', 'g', 'e', 's', '/'] ++
        id.toList.take 2 ++ '/' :: (id.toList.drop 2).take 2) ++ '/' :: (id.toList ++ ['.', 'm', 'd']) := by
      simp [messagePath, shardedPath]
    rw [fileName, hpath, hname]
  | true =>
    have hpath : (messagePath true id).toList = ("trash/ai_messages/".toList ++
        id.toList.take 2 ++ '/' :: (id.toList.drop 2).take 2) ++ '/' :: (id.toList ++ ['.', 'm', 'd']) := by
      simp [messagePath, shardedPath]
    rw [fileName, hpath, hname]

/-- The rebuild reads the file of every message with a plain id. -/
theorem messageFile_messagePath (isTrash : Bool) {id : String} (h : PlainId id) :
    MessageFile isTrash (messagePath isTrash id) := by
  have hlen := h.length
  refine ⟨?_, ?_⟩
  · cases isTrash <;> simp [messagePath, startsWith, shardedPath]
  · rw [isMarkdown, fileName_messagePath isTrash h]
    simp only [Bool.and_eq_true, decide_eq_true_eq, List.length_append, String.length_toList]
    exact ⟨by simp [List.isSuffixOf, List.isPrefixOf], by simp only [List.length_cons]; omega⟩

theorem MessageFile.place {isTrash isTrash' : Bool} {id : String}
    (h : MessageFile isTrash (messagePath isTrash' id)) : isTrash = isTrash' := by
  obtain ⟨h, -⟩ := h
  cases isTrash <;> cases isTrash' <;>
    simp [messagePath, startsWith, shardedPath, List.isPrefixOf] at h ⊢

theorem messagePath_inj {isTrash isTrash' : Bool} {id id' : String} (h : PlainId id)
    (h' : PlainId id') (he : messagePath isTrash id = messagePath isTrash' id') :
    isTrash = isTrash' ∧ id = id' := by
  refine ⟨(he ▸ messageFile_messagePath isTrash h : MessageFile isTrash _).place, ?_⟩
  have hname := fileName_messagePath isTrash h
  rw [he, fileName_messagePath isTrash' h'] at hname
  exact (String.ext (List.append_cancel_right hname)).symm

theorem MessageFile.unique {isTrash isTrash' : Bool} {path : String} (h : MessageFile isTrash path)
    (h' : MessageFile isTrash' path) : isTrash = isTrash' := by
  have hne : ¬ (startsWith "ai_messages/" path.toList = true ∧
      startsWith "trash/ai_messages/" path.toList = true) := by
    rintro ⟨hlive, htrash⟩
    rw [startsWith, List.isPrefixOf_iff_prefix] at hlive htrash
    obtain ⟨rest, hrest⟩ := hlive
    obtain ⟨rest', hrest'⟩ := htrash
    rw [← hrest'] at hrest
    simp at hrest
  cases isTrash <;> cases isTrash'
  · rfl
  · exact absurd ⟨h.1, h'.1⟩ hne
  · exact absurd ⟨h'.1, h.1⟩ hne
  · rfl

/-! ## One file -/

/-- A link of a message that a rebuild finds as it was written. -/
structure CardLink.FitsMessage (projectId messageId : String) (link : CardLink) : Prop where
  project : link.projectId = projectId
  fromMessage : link.fromCardId = messageId
  toCard : link.toCardId ≠ ""
  toType : link.toType ≠ ""
  kind : link.kind ≠ ""
  created : 0 < link.createdAt

/-- What a message's file keeps of its row. -/
def AiMessage.Same (message message' : AiMessage) : Prop :=
  message'.threadId = message.threadId ∧ message'.role = message.role ∧
    message'.content = message.content

section
variable [NatCast K] {env : Env K} {work : Tree} {records : List MessageRecord}

/-- A file that was written loads to what was written. -/
theorem rebuildMessageFile_written (hyaml : env.yaml.Lawful)
    (hplain : env.project.privacyMode ≠ .encryptedGit) {message : AiMessage} {links : List CardLink}
    (hid : 4 ≤ message.messageId.length) (hthread : message.threadId ≠ "") (hrole : message.role ≠ "")
    (hlinks : ∀ link ∈ links, link.FitsMessage env.project.projectId message.messageId)
    (isTrash : Bool) :
    ∃ record, rebuildMessageFile env (messagePath isTrash message.messageId)
        (renderAiMessageFrontMatter env.yaml message env.project.projectId links ++
          message.content.toList) isTrash = .ok record ∧
      record.message.messageId = message.messageId ∧ message.Same record.message ∧
      record.message.deletedAt.isSome = isTrash ∧ record.links = links := by
  have hparse := parseAiMessageFile_render hyaml message env.project.projectId links message.content
  have hne : message.messageId ≠ "" := by
    intro he
    simp [he] at hid
  have hto : ∀ link ∈ links, link.toCardId ≠ "" := fun link hlink => (hlinks link hlink).toCard
  have hfits : ∀ (m : AiMessage), m.messageId = message.messageId → ∀ link ∈ links,
      link.Fits (messageOwner env.project.projectId m : Card K) := by
    intro m hm link hlink
    obtain ⟨hproj, hfrom, hcard, htype, hkind, hcreated⟩ := hlinks link hlink
    exact ⟨hproj, hfrom.trans hm.symm, hcard, htype, hkind, fun hle => absurd hle (by omega)⟩
  have hrel : aiMessageRelPath message.messageId = .ok (messagePath false message.messageId) :=
    aiMessageRelPath_ok_iff.mpr ⟨hid, rfl⟩
  have htrash : aiMessageTrashRelPath message.messageId =
      .ok (messagePath true message.messageId) := by
    simp only [aiMessageTrashRelPath, hrel, bind, Except.bind]
    rfl
  have hempty : message.messageId.isEmpty = false := by simpa [String.isEmpty_iff] using hne
  refine ⟨⟨recordMessage { message with deletedAt := none }
    (env.lastWriteTime (messagePath isTrash message.messageId)) isTrash, links⟩, ?_, rfl, ?_, ?_, rfl⟩
  · have hdecode : ∀ blob, decodeBlobForProject env blob = .ok blob := fun blob => by
      simp [decodeBlobForProject, hplain, pure, Except.pure]
    have hrecord : ∀ m : AiMessage, m.messageId = message.messageId →
        (links.filterMap (readBackLink (messageOwner env.project.projectId message : Card K))).map
          (recordLink (messageOwner env.project.projectId m : Card K)) = links := fun m hm => by
      rw [reload_links hto, map_recordLink (hfits m hm)]
    simp only [rebuildMessageFile, hdecode, hparse, bind, Except.bind, pure, Except.pure,
      Bool.not_true, Bool.and_false, Bool.false_eq_true, if_false, hempty, not_lt.mpr hid]
    cases isTrash with
    | false =>
      simp only [Bool.false_eq_true, if_false, hrel, ne_eq, not_true_eq_false]
      rw [hrecord]
      rfl
    | true =>
      simp only [if_true, htrash, ne_eq, not_true_eq_false, if_false]
      rw [hrecord]
      rfl
  · simp [AiMessage.Same, recordMessage, String.isEmpty_iff, hthread, hrole]
  · cases isTrash <;> simp [recordMessage]

/-! ## The insertion -/

omit [NatCast K] in
theorem linkRows_append (links links' : List CardLink) (key : List String) :
    (linkRows (links ++ links'))[key]? = (linkRows links')[key]?.or (linkRows links)[key]? := by
  rw [linkRows, List.foldl_append, get_foldl_links]
  rfl

/-- The links of records with an id of their own do not meet. -/
theorem linkRows_flatMap (hids : (records.map (·.message.messageId)).Nodup)
    (hlinks : ∀ r ∈ records, ∀ link ∈ r.links, link.fromCardId = r.message.messageId)
    {key : List String} {l : CardLink} :
    (linkRows (records.flatMap (·.links)))[key]? = some l ↔
      ∃ r ∈ records, (linkRows r.links)[key]? = some l := by
  induction records with
  | nil => simp [linkRows]
  | cons record records ih =>
    rw [List.map_cons, List.nodup_cons] at hids
    have hrest := ih hids.2 fun r hr => hlinks r (List.mem_cons_of_mem _ hr)
    rw [List.flatMap_cons, linkRows_append, List.exists_mem_cons_iff, Option.or_eq_some_iff, hrest]
    -- A key names the message it links from, so only one record can have it.
    have hone : ∀ l', (linkRows record.links)[key]? = some l' →
        (linkRows (records.flatMap (·.links)))[key]? = none := by
      intro l' hl'
      refine Option.eq_none_iff_forall_ne_some.mpr fun l'' hl'' => ?_
      obtain ⟨link, hlink, rfl, hk⟩ := linkRows_eq_some hl'
      obtain ⟨link', hlink', rfl, hk'⟩ := linkRows_eq_some hl''
      obtain ⟨r, hr, hlink'⟩ := List.mem_flatMap.mp hlink'
      have hfrom := hlinks record List.mem_cons_self link hlink
      have hfrom' := hlinks r (List.mem_cons_of_mem _ hr) link' hlink'
      rw [hk] at hk'
      simp only [CardLink.key, LinkRepo.storedLink, List.cons.injEq, and_true] at hk'
      exact hids.1 (List.mem_map.mpr ⟨r, hr, by rw [← hfrom', ← hk'.2.1, hfrom]⟩)
    constructor
    · rintro (h | ⟨-, h⟩)
      · exact .inr h
      · exact .inl h
    · rintro (h | h)
      · exact .inr ⟨hone l h, h⟩
      · exact .inl h

omit [NatCast K] in
theorem insertMessages_ok {projectId : String} {rebuilt : RebuiltMessages K}
    (hids : (records.map (·.message.messageId)).Nodup)
    (hfresh : ∀ r ∈ records, rebuilt.messages[r.message.messageId]? = none)
    (hlinks : ∀ r ∈ records, ∀ link ∈ r.links,
      link.projectId = projectId ∧ link.fromCardId = r.message.messageId) :
    ∃ messages db, insertMessages projectId records rebuilt = .ok ⟨messages, db⟩ ∧
      (∀ (id : String) (m : AiMessage), messages[id]? = some m ↔
        (∃ r ∈ records, r.message.messageId = id ∧ r.message = m) ∨ rebuilt.messages[id]? = some m) ∧
      ∀ key : List String, db.cardLinks[key]? =
        (linkRows (records.flatMap (·.links)))[key]?.or rebuilt.db.cardLinks[key]? := by
  induction records generalizing rebuilt with
  | nil => exact ⟨_, _, rfl, by simp, by simp [linkRows]⟩
  | cons record records ih =>
    rw [List.map_cons, List.nodup_cons] at hids
    have hnone := hfresh record List.mem_cons_self
    have hup := LinkRepo.upsertLinks_ends projectId record.message.messageId record.links rebuilt.db
    have hcontains : rebuilt.messages.contains record.message.messageId = false := by
      rw [Std.ExtTreeMap.contains_eq_isSome_getElem?, hnone]
      rfl
    rw [insertMessages, hcontains]
    simp only [Bool.false_eq_true, if_false]
    cases hrun : LinkRepo.upsertLinks projectId record.message.messageId record.links rebuilt.db with
    | error e db => exact absurd (hlinks record List.mem_cons_self) (hup.error hrun).2
    | ok u db1 =>
      obtain ⟨rfl, -⟩ := hup.ok hrun
      obtain ⟨messages, db, hok, hrows, hkeys⟩ := @ih ⟨rebuilt.messages.insert
          record.message.messageId record.message, _⟩ hids.2 (fun r hr => by
        have hne : record.message.messageId ≠ r.message.messageId := fun he =>
          hids.1 (List.mem_map.mpr ⟨r, hr, he.symm⟩)
        rw [Map.get_insert_ne hne]
        exact hfresh r (List.mem_cons_of_mem _ hr)) fun r hr => hlinks r (List.mem_cons_of_mem _ hr)
      refine ⟨messages, db, hok, fun id m => ?_, fun key => ?_⟩
      · rw [hrows, List.exists_mem_cons_iff, Map.get_insert, or_assoc, or_left_comm]
        by_cases hid : record.message.messageId = id
        · subst hid
          simp [hnone]
        · simp [hid]
      · rw [hkeys, List.flatMap_cons, linkRows_append]
        simp only [get_foldl_links, Option.or_assoc]

end

/-! ## The files of a tree -/

section
variable [NatCast K] {env : Env K} {work : Tree}

private theorem mapM_message_files (hdir : ∀ paths, (env.directoryOrder paths).Perm paths)
    (place : String → String) (isTrash : Bool)
    (hload : ∀ path raw, MessageFile isTrash path → work[path]? = some raw → ∃ record,
      rebuildMessageFile env path raw isTrash = .ok record ∧ path = place record.message.messageId) :
    ∃ records, (collectFiles env work (if isTrash then "trash/ai_messages" else "ai_messages")).mapM
        (fun path => rebuildMessageFile env path (work[path]?.getD []) isTrash) = .ok records ∧
      ((records.map (·.message.messageId)).map place).Nodup ∧
      (∀ record ∈ records, MessageFile isTrash (place record.message.messageId)) ∧
      ∀ record, record ∈ records ↔ ∃ path raw, MessageFile isTrash path ∧ work[path]? = some raw ∧
        rebuildMessageFile env path raw isTrash = .ok record := by
  have hfile : ∀ path ∈ collectFiles env work (if isTrash then "trash/ai_messages" else "ai_messages"),
      ∃ raw, work[path]? = some raw ∧ MessageFile isTrash path := by
    intro path hpath
    obtain ⟨⟨raw, hraw⟩, hfile⟩ := (mem_collectFiles hdir).mp hpath
    exact ⟨raw, hraw, hfile⟩
  have hloads : ∀ path ∈ collectFiles env work
      (if isTrash then "trash/ai_messages" else "ai_messages"), ∃ record,
        rebuildMessageFile env path (work[path]?.getD []) isTrash = .ok record := by
    intro path hpath
    obtain ⟨raw, hraw, hfile⟩ := hfile path hpath
    obtain ⟨record, hrecord, -⟩ := hload path raw hfile hraw
    exact ⟨record, by rw [hraw]; exact hrecord⟩
  obtain ⟨records, hrun⟩ := mapM_of_forall hloads
  have hall := Except.forall₂_of_mapM hrun
  have hplace : ∀ record ∈ records, ∀ path raw, MessageFile isTrash path → work[path]? = some raw →
      rebuildMessageFile env path raw isTrash = .ok record →
        path = place record.message.messageId := by
    intro record _ path raw hfile hraw hrecord
    obtain ⟨record', hrecord', hp⟩ := hload path raw hfile hraw
    rw [hrecord] at hrecord'
    cases hrecord'
    exact hp
  have hpaths : collectFiles env work (if isTrash then "trash/ai_messages" else "ai_messages") =
      (records.map (·.message.messageId)).map place := by
    rw [List.map_map]
    refine List.ext_getElem (by simpa using hall.length_eq) fun i hi hi' => ?_
    have hi'' : i < records.length := by simpa using hi'
    obtain ⟨raw, hraw, hfile⟩ := hfile _ (List.getElem_mem hi)
    have hrecord := hall.get hi hi''
    simp only [List.get_eq_getElem, hraw, Option.getD_some] at hrecord
    rw [List.getElem_map]
    exact hplace _ (List.getElem_mem hi'') _ _ hfile hraw hrecord
  have hmem : ∀ record, record ∈ records ↔ ∃ path raw, MessageFile isTrash path ∧
      work[path]? = some raw ∧ rebuildMessageFile env path raw isTrash = .ok record := by
    intro record
    constructor
    · intro hr
      obtain ⟨path, hpath, hrecord⟩ := hall.exists_left hr
      obtain ⟨raw, hraw, hfile⟩ := hfile path hpath
      rw [hraw] at hrecord
      exact ⟨path, raw, hfile, hraw, hrecord⟩
    · rintro ⟨path, raw, hfile, hraw, hrecord⟩
      obtain ⟨r, hr, hrecord'⟩ := hall.exists_right ((mem_collectFiles hdir).mpr ⟨⟨raw, hraw⟩, hfile⟩)
      rw [hraw] at hrecord'
      change rebuildMessageFile env path raw isTrash = _ at hrecord'
      rw [hrecord] at hrecord'
      cases hrecord'
      exact hr
  refine ⟨records, hrun, ?_, fun record hr => ?_, hmem⟩
  · rw [← hpaths]
    exact (hdir _).nodup_iff.mpr (Std.ExtTreeMap.nodup_keys.filter _)
  · obtain ⟨path, raw, hfile, hraw, hrecord⟩ := (hmem record).mp hr
    exact hplace record hr path raw hfile hraw hrecord ▸ hfile

/-- Every message file loads, to a message whose file it is. -/
theorem rebuildMessageFiles_ok (hdir : ∀ paths, (env.directoryOrder paths).Perm paths)
    (place : String → String)
    (hload : ∀ path isTrash raw, MessageFile isTrash path → work[path]? = some raw → ∃ record,
      rebuildMessageFile env path raw isTrash = .ok record ∧ path = place record.message.messageId) :
    ∃ records, rebuildMessageFiles env work = .ok records ∧
      (records.map (·.message.messageId)).Nodup ∧
      ∀ record, record ∈ records ↔ ∃ path isTrash raw, MessageFile isTrash path ∧
        work[path]? = some raw ∧ rebuildMessageFile env path raw isTrash = .ok record := by
  obtain ⟨live, hlive, hln, hlf, hlm⟩ := mapM_message_files hdir place false (hload · false)
  obtain ⟨trash, htrash, htn, htf, htm⟩ := mapM_message_files hdir place true (hload · true)
  simp only [Bool.false_eq_true, if_false] at hlive
  simp only [if_true] at htrash
  refine ⟨live ++ trash, by
    simp only [rebuildMessageFiles, hlive, htrash, bind, Except.bind, pure, Except.pure], ?_,
    fun record => ?_⟩
  · refine List.Nodup.of_map place ?_
    rw [List.map_append, List.map_append, List.nodup_append]
    refine ⟨hln, htn, ?_⟩
    simp only [List.mem_map]
    rintro _ ⟨_, ⟨r, hr, rfl⟩, rfl⟩ _ ⟨_, ⟨r', hr', rfl⟩, rfl⟩ he
    have hboth := (he ▸ hlf r hr : MessageFile false _).unique (htf r' hr')
    cases hboth
  · rw [List.mem_append, hlm, htm]
    constructor
    · rintro (⟨path, raw, h⟩ | ⟨path, raw, h⟩)
      · exact ⟨path, false, raw, h⟩
      · exact ⟨path, true, raw, h⟩
    · rintro ⟨path, isTrash, raw, h⟩
      cases isTrash with
      | false => exact .inl ⟨path, raw, h⟩
      | true => exact .inr ⟨path, raw, h⟩

end

end HolderCore
