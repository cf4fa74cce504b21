import HolderCore.Project.Agree

/-! # Messages in step with their files

What every run of the message operations keeps as long as each call meets a condition, and what it
means for the files, for `HEAD` and for a rebuild. The operations do not check the condition. -/

namespace HolderCore

/-! ## Calls -/

inductive MessageCall where
  | append (message : AiMessage)
  | update (message : AiMessage)
  /-- The caller stores the links, then `update_links` writes them to the file. -/
  | updateLinks (messageId : String) (links : List CardLink)
  | trash (messageId : String) (deletedAt : Int)
  | restore (messageId : String)
  | remove (messageId : String)

section
variable (env : ServiceEnv K)

def MessageCall.run : MessageCall → ServM K Unit
  | append message => AiMessageRepo.append env message
  | update message => AiMessageRepo.update env message
  | updateLinks messageId links => do
    onWorld (onDb (LinkRepo.upsertLinks env.project.projectId messageId links))
    AiMessageRepo.updateLinks env messageId
  | trash messageId deletedAt => AiMessageRepo.trash env messageId deletedAt
  | restore messageId => AiMessageRepo.restore env messageId
  | remove messageId => AiMessageRepo.remove env messageId

/-- The state after calls that all return. -/
def runMessageCalls (s : Services K) : List MessageCall → Option (Services K)
  | [] => some s
  | call :: calls =>
    match call.run env s with
    | .ok _ s' => runMessageCalls s' calls
    | .error _ _ => none

/-- The call writes what a rebuild reads back: a new message is live, has an id that its path keeps
and no links yet; only a live message is updated, in its own thread; the role and the thread have a
name; links say what they link to; and only a trashed message that no other links to is removed. -/
def MessageCall.Fits (s : Services K) : MessageCall → Prop
  | append message => PlainId message.messageId ∧ message.threadId ≠ "" ∧ message.role ≠ "" ∧
    message.deletedAt = none ∧ ∀ (key : List String) (l : CardLink),
      s.world.db.cardLinks[key]? = some l → l.projectId = env.project.projectId →
        l.fromCardId ≠ message.messageId
  | update message => message.role ≠ "" ∧ ∃ row, s.rows.messages[message.messageId]? = some row ∧
    row.deletedAt = none ∧ message.threadId = row.threadId
  | updateLinks _ links => ∀ link ∈ links, link.toCardId ≠ "" ∧ link.kind ≠ "" ∧ 0 < link.createdAt
  | remove messageId => (∀ row, s.rows.messages[messageId]? = some row → row.deletedAt ≠ none) ∧
    ∀ (key : List String) (l : CardLink), s.world.db.cardLinks[key]? = some l →
      l.toCardId = messageId → l.toType = "ai_message" → l.fromCardId ≠ messageId →
        l.fromCardId ∉ s.rows.messages
  | _ => True

end

section
variable (env : RebuildEnv K)

/-- A rebuild can place a message: no card has its id, and its thread has a manifest if any has. -/
def MessagePlaced (work : Tree) (messageId threadId : String) : Prop :=
  (∀ isTrash, work[cardPathOf isTrash messageId]? = none) ∧
    ∃ manifests, threadManifests env work = .ok manifests ∧
      (manifests = [] ∨ threadId ∈ manifests.map (·.threadId))

def MessageCall.Placed (work : Tree) : MessageCall → Prop
  | append message => MessagePlaced env work message.messageId message.threadId
  | _ => True

/-- Every call of a run meets the conditions in the state it is made in. -/
def EachMessageFits : Services K → List MessageCall → Prop
  | _, [] => True
  | s, call :: calls => (call.Fits env.toServiceEnv s ∧ call.Placed env s.world.repo.work) ∧
    ∀ s', call.run env.toServiceEnv s = .ok () s' → EachMessageFits s' calls

end

/-! ## What agrees -/

section
variable [NatCast K]

/-- A rebuild gives every message its thread, role, content, links and place. -/
structure SameMessages (env : ServiceEnv K) (s : Services K) (rebuilt : RebuiltMessages K) : Prop where
  gone : ∀ id : String, s.rows.messages[id]? = none → rebuilt.messages[id]? = none
  rows : ∀ (id : String) (message : AiMessage), s.rows.messages[id]? = some message →
    ∃ message', rebuilt.messages[id]? = some message' ∧ message.Same message' ∧
      message'.deletedAt.isSome = message.deletedAt.isSome
  links : ∀ (id : String) (message : AiMessage), s.rows.messages[id]? = some message →
    ∀ (key : List String) (l : CardLink), l.projectId = env.project.projectId → l.fromCardId = id →
      (rebuilt.db.cardLinks[key]? = some l ↔ s.world.db.cardLinks[key]? = some l)

/-- Rows, files, `HEAD` and rebuild agree. -/
structure MessagesAgree (env : RebuildEnv K) (s : Services K) : Prop where
  oneFile : ∀ (id : String) (message : AiMessage), s.rows.messages[id]? = some message →
    ∀ isTrash, (∃ bytes, s.world.repo.work[messagePath isTrash id]? = some bytes) ↔
      isTrash = message.deletedAt.isSome
  noOther : ∀ (path : String) (isTrash : Bool) (bytes : Bytes), MessageFile isTrash path →
    s.world.repo.work[path]? = some bytes → ∃ (id : String) (message : AiMessage),
      s.rows.messages[id]? = some message ∧ path = messagePath message.deletedAt.isSome id
  head : ∀ (path : String) (isTrash : Bool), MessageFile isTrash path →
    (s.world.repo.treeAt s.world.repo.tip)[path]? = s.world.repo.work[path]?
  rebuilds : ∃ rows db, rebuildTables env s.rows s.world.repo.work = .ok (rows, db) ∧
    SameMessages env.toServiceEnv s ⟨rows.messages, db⟩

end

/-! ## The invariant -/

/-- The links that a message's file names are its rows. -/
structure MessageLinks (env : Env K) (db : Db K) (messageId : String) (links : List CardLink) :
    Prop where
  rows : ∀ (key : List String) (l : CardLink), (linkRows links)[key]? = some l ↔
    db.cardLinks[key]? = some l ∧ l.projectId = env.project.projectId ∧ l.fromCardId = messageId
  fits : ∀ link ∈ links, link.FitsMessage env.project.projectId messageId

/-- The text of a message's file. -/
def MessageText (env : Env K) (db : Db K) (messageId : String) (message : AiMessage) (bytes : Bytes) :
    Prop :=
  ∃ (written : AiMessage) (links : List CardLink), written.messageId = messageId ∧
    message.Same written ∧ MessageLinks env db messageId links ∧
    bytes = renderAiMessageFrontMatter env.yaml written env.project.projectId links ++
      written.content.toList

/-- The messages of a run that began in `s0`, each of which meets `Placed` with its thread. -/
structure MessagesInStep (env : ServiceEnv K) (Placed : String → String → Prop) (s0 s : Services K) :
    Prop where
  row : ∀ (id : String) (message : AiMessage), s.rows.messages[id]? = some message →
    PlainId id ∧ message.messageId = id ∧ OwnThread env s message.threadId ∧
      message.threadId ≠ "" ∧ message.role ≠ ""
  file : ∀ (id : String) (message : AiMessage), s.rows.messages[id]? = some message →
    ∃ bytes, s.world.repo.work[messagePath message.deletedAt.isSome id]? = some bytes ∧
      MessageText env.toEnv s.world.db id message bytes
  alone : ∀ (id : String) (message : AiMessage), s.rows.messages[id]? = some message →
    s.world.repo.work[messagePath (!message.deletedAt.isSome) id]? = none
  only : ∀ (path : String) (isTrash : Bool) (bytes : Bytes), MessageFile isTrash path →
    s.world.repo.work[path]? = some bytes → ∃ (id : String) (message : AiMessage),
      s.rows.messages[id]? = some message ∧ path = messagePath message.deletedAt.isSome id
  staged : ∀ (path : String) (isTrash : Bool), MessageFile isTrash path →
    s.world.repo.staged[path]? = s.world.repo.work[path]?
  head : ∀ (path : String) (isTrash : Bool), MessageFile isTrash path →
    (s.world.repo.treeAt s.world.repo.tip)[path]? = s.world.repo.work[path]?
  keys : ∀ (key : List String) (l : CardLink), s.world.db.cardLinks[key]? = some l → key = l.key
  placed : ∀ (id : String) (message : AiMessage), s.rows.messages[id]? = some message →
    Placed id message.threadId
  rest : s.rows = { s0.rows with messages := s.rows.messages }
  beside : ∀ path : String, (∀ (id : String) (isTrash : Bool), path ≠ messagePath isTrash id) →
    s.world.repo.work[path]? = s0.world.repo.work[path]?

/-- A project that has no messages yet. -/
structure NoMessages (s : Services K) : Prop where
  rows : s.rows.messages = ∅
  work : ∀ (path : String) (isTrash : Bool), MessageFile isTrash path → s.world.repo.work[path]? = none
  staged : ∀ (path : String) (isTrash : Bool), MessageFile isTrash path →
    s.world.repo.staged[path]? = none
  head : ∀ (path : String) (isTrash : Bool), MessageFile isTrash path →
    (s.world.repo.treeAt s.world.repo.tip)[path]? = none
  keys : ∀ (key : List String) (l : CardLink), s.world.db.cardLinks[key]? = some l → key = l.key

section
variable {env : ServiceEnv K} {s s' : Services K} {id : String} {Placed : String → String → Prop} {s0 : Services K}

theorem NoMessages.inStep (h : NoMessages s) : MessagesInStep env Placed s s where
  row id m hm := by simp [h.rows] at hm
  file id m hm := by simp [h.rows] at hm
  alone id m hm := by simp [h.rows] at hm
  only path isTrash bytes hfile hb := by simp [h.work path isTrash hfile] at hb
  staged path isTrash hfile := by rw [h.staged path isTrash hfile, h.work path isTrash hfile]
  head path isTrash hfile := by rw [h.head path isTrash hfile, h.work path isTrash hfile]
  keys := h.keys
  placed id m hm := by simp [h.rows] at hm
  rest := rfl
  beside _ _ := rfl

theorem MessageLinks.row_fits {db : Db K} {links : List CardLink}
    (h : MessageLinks env.toEnv db id links) {key : List String} {l : CardLink}
    (hl : db.cardLinks[key]? = some l) (hproj : l.projectId = env.project.projectId)
    (hfrom : l.fromCardId = id) : l.FitsMessage env.project.projectId id := by
  obtain ⟨link, hlink, rfl, -⟩ := linkRows_eq_some ((h.rows key l).mpr ⟨hl, hproj, hfrom⟩)
  have hfits := h.fits link hlink
  have hstored : LinkRepo.storedLink link = link := by
    simp [LinkRepo.storedLink, String.isEmpty_iff, hfits.toType]
  rwa [hstored]

/-- The links that `list_outgoing` reads are those of the rows. -/
theorem messageLinks_listOutgoing {db : Db K}
    (hkeys : ∀ (key : List String) (l : CardLink), db.cardLinks[key]? = some l → key = l.key)
    (hfits : ∀ (key : List String) (l : CardLink), db.cardLinks[key]? = some l →
      l.projectId = env.project.projectId → l.fromCardId = id →
        l.FitsMessage env.project.projectId id) :
    MessageLinks env.toEnv db id (LinkRepo.listOutgoing db env.project.projectId id) := by
  have hall : ∀ link ∈ LinkRepo.listOutgoing db env.project.projectId id,
      link.FitsMessage env.project.projectId id := by
    intro link hlink
    obtain ⟨⟨key, hl⟩, hproj, hfrom⟩ := mem_listOutgoing.mp hlink
    exact hfits key link hl hproj hfrom
  exact ⟨fun key l => linkRows_listOutgoing hkeys fun link hlink => (hall link hlink).toType, hall⟩

theorem MessageText.congr {db db' : Db K} {message : AiMessage} {bytes : Bytes}
    (h : MessageText env.toEnv db id message bytes)
    (hlinks : ∀ (key : List String) (l : CardLink), l.fromCardId = id →
      (db'.cardLinks[key]? = some l ↔ db.cardLinks[key]? = some l)) :
    MessageText env.toEnv db' id message bytes := by
  obtain ⟨written, links, hid, hsame, hl, rfl⟩ := h
  refine ⟨written, links, hid, hsame, ⟨fun key l => ?_, hl.fits⟩, rfl⟩
  rw [hl.rows]
  constructor
  · rintro ⟨h, hproj, hfrom⟩
    exact ⟨(hlinks key l hfrom).mpr h, hproj, hfrom⟩
  · rintro ⟨h, hproj, hfrom⟩
    exact ⟨(hlinks key l hfrom).mp h, hproj, hfrom⟩

/-- What one operation can change: the row and the files of one message, their index entries and the
links of that message. `HEAD` then has what the index has. -/
structure MessageStep (env : ServiceEnv K) (s s' : Services K) (id : String) (row : Option AiMessage) :
    Prop where
  rest : s'.rows = { s.rows with messages := s'.rows.messages }
  rows : ∀ x : String, s'.rows.messages[x]? = if id = x then row else s.rows.messages[x]?
  work : ∀ path : String, (∀ isTrash, path ≠ messagePath isTrash id) →
    s'.world.repo.work[path]? = s.world.repo.work[path]?
  staged : ∀ path : String, (∀ isTrash, path ≠ messagePath isTrash id) →
    s'.world.repo.staged[path]? = s.world.repo.staged[path]?
  own : ∀ isTrash, s'.world.repo.staged[messagePath isTrash id]? =
    s'.world.repo.work[messagePath isTrash id]?
  head : s'.world.repo.treeAt s'.world.repo.tip = s'.world.repo.staged
  links : ∀ x ∈ s.rows.messages, x ≠ id → ∀ (key : List String) (l : CardLink), l.fromCardId = x →
    (s'.world.db.cardLinks[key]? = some l ↔ s.world.db.cardLinks[key]? = some l)
  keys : ∀ (key : List String) (l : CardLink), s'.world.db.cardLinks[key]? = some l → key = l.key

theorem MessageStep.threads {row : Option AiMessage} (h : MessageStep env s s' id row) :
    s'.rows.threads = s.rows.threads := by rw [h.rest]

/-- A message that is in step after the operation. -/
structure MessageKept (env : ServiceEnv K) (Placed : String → String → Prop) (s' : Services K)
    (id : String) (message : AiMessage) : Prop where
  own : message.messageId = id
  placed : Placed id message.threadId
  thread : OwnThread env s' message.threadId
  named : message.threadId ≠ "" ∧ message.role ≠ ""
  file : ∃ bytes, s'.world.repo.work[messagePath message.deletedAt.isSome id]? = some bytes ∧
    MessageText env.toEnv s'.world.db id message bytes
  alone : s'.world.repo.work[messagePath (!message.deletedAt.isSome) id]? = none

theorem MessagesInStep.step {row : Option AiMessage} (h : MessagesInStep env Placed s0 s) (hid : PlainId id)
    (hs : MessageStep env s s' id row) (hrow : ∀ message, row = some message → MessageKept env Placed s' id message)
    (hgone : row = none → ∀ isTrash, s'.world.repo.work[messagePath isTrash id]? = none) :
    MessagesInStep env Placed s0 s' := by
  -- The files of the other messages are not those of this one.
  have hother : ∀ (x : String) (m : AiMessage), s.rows.messages[x]? = some m → id ≠ x →
      ∀ isTrash isTrash', messagePath isTrash x ≠ messagePath isTrash' id :=
    fun x m hm hne isTrash isTrash' he =>
      hne (messagePath_inj (h.row x m hm).1 hid he).2.symm
  have hcases : ∀ (x : String) (m : AiMessage), s'.rows.messages[x]? = some m →
      (id = x ∧ row = some m) ∨ (id ≠ x ∧ s.rows.messages[x]? = some m) := by
    intro x m hm
    rw [hs.rows] at hm
    split at hm
    · next he => exact .inl ⟨he, hm⟩
    · next hne => exact .inr ⟨hne, hm⟩
  have hstaged : ∀ (path : String) (isTrash : Bool), MessageFile isTrash path →
      s'.world.repo.staged[path]? = s'.world.repo.work[path]? := by
    intro path isTrash hfile
    by_cases hpath : ∃ isTrash', path = messagePath isTrash' id
    · obtain ⟨isTrash', rfl⟩ := hpath
      exact hs.own isTrash'
    · have hpath : ∀ isTrash', path ≠ messagePath isTrash' id := fun t he => hpath ⟨t, he⟩
      rw [hs.staged path hpath, hs.work path hpath]
      exact h.staged path isTrash hfile
  refine ⟨fun x m hm => ?_, fun x m hm => ?_, fun x m hm => ?_, fun path isTrash bytes hfile hb => ?_,
    hstaged, fun path isTrash hfile => ?_, hs.keys, fun x m hm => ?_, ?_, fun path hpath => ?_⟩
  · rcases hcases x m hm with ⟨rfl, hr⟩ | ⟨hne, hm⟩
    · have hk := hrow m hr
      exact ⟨hid, hk.own, hk.thread, hk.named⟩
    · have hm := h.row x m hm
      refine ⟨hm.1, hm.2.1, ?_, hm.2.2.2⟩
      rw [OwnThread, hs.threads]
      exact hm.2.2.1
  · rcases hcases x m hm with ⟨rfl, hr⟩ | ⟨hne, hm⟩
    · exact (hrow m hr).file
    · obtain ⟨bytes, hb, htext⟩ := h.file x m hm
      refine ⟨bytes, ?_, htext.congr fun key l hl => ?_⟩
      · rw [hs.work _ fun isTrash => hother x m hm hne _ isTrash]
        exact hb
      · exact hs.links x (Map.mem_iff.mpr ⟨m, hm⟩) hne.symm key l hl
  · rcases hcases x m hm with ⟨rfl, hr⟩ | ⟨hne, hm⟩
    · exact (hrow m hr).alone
    · rw [hs.work _ fun isTrash => hother x m hm hne _ isTrash]
      exact h.alone x m hm
  · by_cases hpath : ∃ isTrash', path = messagePath isTrash' id
    · obtain ⟨isTrash', rfl⟩ := hpath
      cases hr : row with
      | none => simp [hgone hr isTrash'] at hb
      | some m =>
        refine ⟨id, m, by rw [hs.rows, if_pos rfl, hr], ?_⟩
        by_cases hplace : isTrash' = m.deletedAt.isSome
        · rw [hplace]
        · have hplace : isTrash' = !m.deletedAt.isSome := by
            cases isTrash' <;> cases hd : m.deletedAt.isSome <;> simp_all
          rw [hplace, (hrow m hr).alone] at hb
          cases hb
    · have hpath : ∀ isTrash', path ≠ messagePath isTrash' id := fun t he => hpath ⟨t, he⟩
      rw [hs.work path hpath] at hb
      obtain ⟨x, m, hm, rfl⟩ := h.only path isTrash bytes hfile hb
      refine ⟨x, m, ?_, rfl⟩
      rw [hs.rows, if_neg, hm]
      rintro rfl
      exact hpath _ rfl
  · rw [hs.head]
    exact hstaged path isTrash hfile
  · rcases hcases x m hm with ⟨rfl, hr⟩ | ⟨-, hm⟩
    · exact (hrow m hr).placed
    · exact h.placed x m hm
  · rw [hs.rest, h.rest]
  · rw [hs.work path (hpath id), h.beside path hpath]

end

/-! ## What each operation does -/

theorem Repo.treeAt_commit (r : Repo) (message : String) :
    (r.commit message).treeAt (r.commit message).tip = r.staged := by
  simp [Repo.treeAt, Repo.tip, Repo.commit]

namespace AiMessageRepo

section
variable {env : ServiceEnv K} {s : Services K} {id path : String} {message : AiMessage}

theorem writeMessage_ends (path : String) (message : AiMessage) (links : List CardLink)
    (s : Services K) : Ends (onWorld (writeMessage env path message links)) s
      (fun _ s' => s' = { s with world := { s.world with
        repo := s.world.repo.writeFile path (renderAiMessageFrontMatter env.yaml message
          env.project.projectId links ++ message.content.toList) } })
      fun _ _ => False := by
  simp [Ends.onWorld_iff, writeMessage, Ends.onRepo_iff]

theorem insertRow_ends (message : AiMessage) (s : Services K) : Ends (insertRow message) s
    (fun _ s' => s.rows.messages[message.messageId]? = none ∧ s' = { s with
      rows := { s.rows with messages := s.rows.messages.insert message.messageId message } })
    fun _ s' => s' = s := by
  unfold insertRow
  simp only [Ends.bind_iff, Ends.get_iff, Ends.ite_iff, Ends.throw_iff, modifyRows, Ends.modify_iff]
  refine ⟨fun _ => trivial, fun hrow => ⟨?_, trivial⟩⟩
  rw [Std.ExtTreeMap.contains_iff_mem] at hrow
  exact Map.not_mem_iff.mp hrow

/-- A file that is there is staged, and a commit follows. -/
theorem stageCommit_ends {bytes : Bytes} (commitMessage : String) (s : Services K)
    (hwork : s.world.repo.work[path]? = some bytes) :
    Ends (do
      onWorld (onRepo (·.stagePath path))
      onWorld (CardStore.commit commitMessage)) s
      (fun _ s' => s'.rows = s.rows ∧ s'.world.db = s.world.db ∧
        s'.world.repo.work = s.world.repo.work ∧
        s'.world.repo.staged = s.world.repo.staged.insert path bytes ∧
        s'.world.repo.treeAt s'.world.repo.tip = s'.world.repo.staged)
      fun _ _ => False := by
  simp only [Ends.bind_iff, Ends.onWorld_iff, Ends.onRepo_iff, Repo.stagePath, hwork, Except.ok.injEq,
    forall_eq', reduceCtorEq, false_imp_iff, implies_true, and_true, CardStore.commit]
  exact ⟨trivial, trivial, rfl, rfl, Repo.treeAt_commit _ _⟩

theorem renameFile_ends (source target : String) (s : Services K) :
    Ends (onWorld (renameFile source target)) s
      (fun _ s' => ∃ bytes, s.world.repo.work[source]? = some bytes ∧ s' = { s with
        world := { s.world with repo := { s.world.repo with
          work := (s.world.repo.work.erase source).insert target bytes } } })
      fun _ _ => True := by
  rw [Ends.onWorld_iff]
  simp only [renameFile, Ends.bind_iff, Ends.get_iff]
  split
  · trivial
  · next bytes hb => simp [Ends.onRepo_iff, hb]

theorem removeFile_ends (path : String) (s : Services K) :
    Ends (onWorld (removeFile path)) s
      (fun removed s' => (removed = false ∧ s.world.repo.work[path]? = none ∧ s' = s) ∨
        (removed = true ∧ (∃ bytes, s.world.repo.work[path]? = some bytes) ∧
          s' = { s with world := { s.world with repo :=
            { s.world.repo with work := s.world.repo.work.erase path }.removePath path } }))
      fun _ _ => False := by
  rw [Ends.onWorld_iff]
  simp only [removeFile, Ends.bind_iff, Ends.get_iff, Ends.ite_iff, Ends.onRepo_iff, Except.ok.injEq,
    forall_eq', reduceCtorEq, false_imp_iff, implies_true, and_true, Ends.pure_iff]
  refine ⟨fun hyes => .inr ?_, fun hno => .inl ⟨trivial, ?_⟩⟩
  · rw [Std.ExtTreeMap.contains_iff_mem] at hyes
    simpa using Map.mem_iff.mp hyes
  · rw [Std.ExtTreeMap.contains_iff_mem] at hno
    exact Map.not_mem_iff.mp hno

end

end AiMessageRepo

section
open AiMessageRepo
variable {env : ServiceEnv K} {s s' : Services K} {id : String} {message row : AiMessage}
  {Placed : String → String → Prop} {s0 : Services K}

/-- Writing the live file of a message. -/
theorem MessagesInStep.written {bytes : Bytes} (h : MessagesInStep env Placed s0 s) (hid : PlainId id)
    (hrest : s'.rows = { s.rows with messages := s'.rows.messages })
    (hrows : ∀ x : String, s'.rows.messages[x]? = if id = x then some row else s.rows.messages[x]?)
    (hwork : s'.world.repo.work = s.world.repo.work.insert (messagePath false id) bytes)
    (hstaged : s'.world.repo.staged = s.world.repo.staged.insert (messagePath false id) bytes)
    (hhead : s'.world.repo.treeAt s'.world.repo.tip = s'.world.repo.staged)
    (hlinks : ∀ (key : List String) (l : CardLink), l.fromCardId ≠ id →
      (s'.world.db.cardLinks[key]? = some l ↔ s.world.db.cardLinks[key]? = some l))
    (hkeys : ∀ (key : List String) (l : CardLink), s'.world.db.cardLinks[key]? = some l → key = l.key)
    (hlive : row.deletedAt = none) (hown : row.messageId = id) (hthread : OwnThread env s row.threadId)
    (hplaced : Placed id row.threadId) (hnamed : row.threadId ≠ "" ∧ row.role ≠ "")
    (htrash : s.world.repo.work[messagePath true id]? = none)
    (htext : MessageText env.toEnv s'.world.db id row bytes) : MessagesInStep env Placed s0 s' := by
  have hne : messagePath false id ≠ messagePath true id := fun he => by
    cases (messagePath_inj hid hid he).1
  have hstep : MessageStep env s s' id (some row) := by
    refine ⟨hrest, hrows, fun path hpath => ?_, fun path hpath => ?_, fun isTrash => ?_, hhead,
      fun x _ hx key l hl => hlinks key l fun he => hx (hl.symm.trans he), hkeys⟩
    · rw [hwork, Map.get_insert_ne (hpath false).symm]
    · rw [hstaged, Map.get_insert_ne (hpath false).symm]
    · rw [hwork, hstaged, Map.get_insert, Map.get_insert,
        h.staged _ isTrash (messageFile_messagePath isTrash hid)]
  refine h.step hid hstep (fun m hm => ?_) (by simp)
  cases hm
  refine ⟨hown, hplaced, ?_, hnamed, ⟨bytes, ?_, htext⟩, ?_⟩
  · rw [OwnThread, hstep.threads]
    exact hthread
  · rw [hlive, hwork]
    exact Std.ExtTreeMap.getElem?_insert_self
  · rw [hlive, hwork]
    exact (Map.get_insert_ne hne).trans htrash

/-- A message without a row has no file. -/
theorem MessagesInStep.noFile (h : MessagesInStep env Placed s0 s) (hid : PlainId id)
    (hrow : s.rows.messages[id]? = none) (isTrash : Bool) :
    s.world.repo.work[messagePath isTrash id]? = none := by
  refine Option.eq_none_iff_forall_ne_some.mpr fun bytes hb => ?_
  obtain ⟨x, m, hm, he⟩ := h.only _ isTrash bytes (messageFile_messagePath isTrash hid) hb
  rw [← (messagePath_inj hid (h.row x m hm).1 he).2, hrow] at hm
  cases hm

theorem append_step (h : MessagesInStep env Placed s0 s) (hfit : (MessageCall.append message).Fits env s)
    (hplaced : Placed message.messageId message.threadId) :
    Ends (append env message) s (fun _ => MessagesInStep env Placed s0) fun _ _ => True := by
  obtain ⟨hid, hname, hrole, hlive, hnolinks⟩ := hfit
  unfold append
  refine (requireThread_ends _ s).bind ?_ fun _ _ _ => trivial
  rintro - s1 ⟨rfl, hthread⟩
  rw [Ends.bind_iff, Ends.fromExcept_iff]
  refine ⟨fun path hpath => ?_, fun _ _ => trivial⟩
  obtain ⟨-, rfl⟩ := aiMessageRelPath_ok_iff.mp hpath
  by_cases hfile : s1.world.repo.work.contains
      (shardedPath "ai_messages" message.messageId ".md") = true
  · simp only [Ends.bind_iff, Ends.get_iff, hfile, if_true, Ends.throw_iff]
  · simp only [Ends.bind_iff (m := get), Ends.get_iff, hfile, Bool.false_eq_true, if_false]
    refine (writeMessage_ends _ message [] s1).bind ?_ fun _ _ he => he.elim
    rintro - s2 hs2
    have hinsert : Ends (tryCatch (insertRow message) fun e => do
        onWorld (onRepo fun r => .ok { r with
          work := r.work.erase (shardedPath "ai_messages" message.messageId ".md") })
        throw e) s2
        (fun _ s' => s2.rows.messages[message.messageId]? = none ∧ s' = { s2 with
          rows := { s2.rows with messages := s2.rows.messages.insert message.messageId message } })
        fun _ _ => True :=
      Ends.tryCatch_iff.mpr ((insertRow_ends message s2).mono (fun _ _ hr => hr) fun e s' _ => by
        simp [Ends.onWorld_iff, Ends.onRepo_iff])
    refine hinsert.bind ?_ fun _ _ _ => trivial
    rintro - s3 ⟨hnew, hs3⟩
    subst hs3
    subst hs2
    refine (stageCommit_ends _ _ (by exact Std.ExtTreeMap.getElem?_insert_self)).mono ?_
      fun _ _ he => he.elim
    rintro - s4 ⟨hrows, hdb, hwork, hstaged, hhead⟩
    refine h.written hid (by rw [hrows]) (fun x => ?_) hwork hstaged hhead
      (fun key l _ => by rw [hdb]) (fun key l hl => h.keys key l (by rwa [hdb] at hl)) hlive rfl hthread
      hplaced ⟨hname, hrole⟩ (h.noFile hid hnew true) ?_
    · rw [hrows]
      exact Map.get_insert _ _ _ _
    · refine ⟨message, [], rfl, ⟨rfl, rfl, rfl⟩, ⟨fun key l => ?_, by simp⟩, rfl⟩
      rw [hdb]
      constructor
      · intro hl
        simp [linkRows] at hl
      · rintro ⟨hl, hproj, hfrom⟩
        exact absurd hfrom (hnolinks key l hl hproj)

/-- The links of a message with a row can be read back from what `list_outgoing` lists. -/
theorem MessagesInStep.outgoing (h : MessagesInStep env Placed s0 s) (hrow : s.rows.messages[id]? = some row) :
    MessageLinks env.toEnv s.world.db id
      (LinkRepo.listOutgoing s.world.db env.project.projectId id) := by
  obtain ⟨-, -, -, _, -, -, hlinks, -⟩ := h.file id row hrow
  exact messageLinks_listOutgoing h.keys fun key l hl hproj hfrom => hlinks.row_fits hl hproj hfrom

theorem update_step (h : MessagesInStep env Placed s0 s) (hfit : (MessageCall.update message).Fits env s) :
    Ends (update env message) s (fun _ => MessagesInStep env Placed s0) fun _ _ => True := by
  obtain ⟨hrole, row, hrow, hlive, hthreadSame⟩ := hfit
  obtain ⟨hid, hown, hthread, hname, -⟩ := h.row _ row hrow
  have htrash := h.alone _ row hrow
  rw [hlive] at htrash
  unfold update
  refine (requireThread_ends _ s).bind ?_ fun _ _ _ => trivial
  rintro - s1 ⟨rfl, -⟩
  rw [Ends.bind_iff, modifyRows, Ends.modify_iff, Ends.bind_iff, Ends.fromExcept_iff]
  refine ⟨fun path hpath => ?_, fun _ _ => trivial⟩
  obtain ⟨-, rfl⟩ := aiMessageRelPath_ok_iff.mp hpath
  rw [Ends.bind_iff, Ends.get_iff]
  simp only [hrow]
  refine (writeMessage_ends _ message _ _).bind ?_ fun _ _ he => he.elim
  rintro - s2 rfl
  refine (stageCommit_ends _ _ (by exact Std.ExtTreeMap.getElem?_insert_self)).mono ?_
    fun _ _ he => he.elim
  rintro - s3 ⟨hrows, hdb, hwork, hstaged, hhead⟩
  refine @MessagesInStep.written _ _ _ _ _ (AiMessage.updated row message) _ _ _ h hid (by rw [hrows])
    (fun x => ?_) hwork hstaged hhead (fun key l _ => by rw [hdb])
    (fun key l hl => h.keys key l (by rwa [hdb] at hl)) hlive hown hthread
    (h.placed _ row hrow) ⟨hname, hrole⟩ htrash ?_
  · rw [hrows]
    exact Map.get_insert _ _ _ _
  · refine ⟨message, _, rfl, ⟨hthreadSame, rfl, rfl⟩, ?_, rfl⟩
    rw [hdb]
    exact h.outgoing hrow

/-- The links that a caller stores for a message that has a row. -/
theorem MessagesInStep.storedLinks (h : MessagesInStep env Placed s0 s) (hrow : s.rows.messages[id]? = some row)
    {links : List CardLink} {db : Db K}
    (hown : ∀ link ∈ links, link.projectId = env.project.projectId ∧ link.fromCardId = id)
    (hfit : ∀ link ∈ links, link.toCardId ≠ "" ∧ link.kind ≠ "" ∧ 0 < link.createdAt)
    (hdb : ∀ key : List String, db.cardLinks[key]? =
      (linkRows links)[key]?.or s.world.db.cardLinks[key]?) :
    (∀ (key : List String) (l : CardLink), db.cardLinks[key]? = some l → key = l.key) ∧
      (∀ (key : List String) (l : CardLink), l.fromCardId ≠ id →
        (db.cardLinks[key]? = some l ↔ s.world.db.cardLinks[key]? = some l)) ∧
      MessageLinks env.toEnv db id (LinkRepo.listOutgoing db env.project.projectId id) := by
  have hcases : ∀ (key : List String) (l : CardLink), db.cardLinks[key]? = some l →
      (key = l.key ∧ l.FitsMessage env.project.projectId id) ∨ s.world.db.cardLinks[key]? = some l := by
    intro key l hl
    rw [hdb, Option.or_eq_some_iff] at hl
    rcases hl with hl | ⟨-, hl⟩
    · obtain ⟨link, hlink, rfl, hkey⟩ := linkRows_eq_some hl
      obtain ⟨hproj, hfrom⟩ := hown link hlink
      obtain ⟨hto, hkind, hcreated⟩ := hfit link hlink
      refine .inl ⟨hkey, hproj, hfrom, hto, ?_, hkind, hcreated⟩
      by_cases ht : link.toType = "" <;> simp [LinkRepo.storedLink, String.isEmpty_iff, ht]
    · exact .inr hl
  have hkeys : ∀ (key : List String) (l : CardLink), db.cardLinks[key]? = some l → key = l.key :=
    fun key l hl => (hcases key l hl).elim (·.1) (h.keys key l)
  obtain ⟨-, -, -, _, -, -, hlinks, -⟩ := h.file id row hrow
  refine ⟨hkeys, fun key l hfrom => ⟨fun hl => ?_, fun hl => ?_⟩,
    messageLinks_listOutgoing hkeys fun key l hl hproj hfrom => ?_⟩
  · exact (hcases key l hl).resolve_left fun hnew => hfrom hnew.2.fromMessage
  · rw [hdb]
    -- No stored link has the key of a link from elsewhere.
    have hnone : (linkRows links)[key]? = none := by
      refine Option.eq_none_iff_forall_ne_some.mpr fun l' hl' => hfrom ?_
      obtain ⟨link, hlink, rfl, hkey⟩ := linkRows_eq_some hl'
      rw [h.keys key l hl] at hkey
      simp only [CardLink.key, LinkRepo.storedLink, List.cons.injEq, and_true] at hkey
      exact hkey.2.1.trans (hown link hlink).2
    rw [hnone, Option.none_or, hl]
  · exact (hcases key l hl).elim (·.2) fun hold => hlinks.row_fits hold hproj hfrom

theorem updateLinks_step {links : List CardLink} (h : MessagesInStep env Placed s0 s)
    (hfit : (MessageCall.updateLinks id links).Fits env s) :
    Ends ((MessageCall.updateLinks id links).run env) s (fun _ => MessagesInStep env Placed s0)
      fun _ _ => True := by
  have hstore : Ends (onWorld (onDb (LinkRepo.upsertLinks env.project.projectId id links))) s
      (fun _ s' => ∃ db, s' = { s with world := { s.world with db } } ∧
        (∀ key : List String, db.cardLinks[key]? =
          (linkRows links)[key]?.or s.world.db.cardLinks[key]?) ∧
        ∀ link ∈ links, link.projectId = env.project.projectId ∧ link.fromCardId = id)
      fun _ _ => True := by
    rw [Ends.onWorld_iff, Ends.onDb_iff]
    refine (LinkRepo.upsertLinks_ends _ _ _ _).mono ?_ fun _ _ _ => trivial
    rintro - db ⟨rfl, hown⟩
    exact ⟨_, rfl, fun key => get_foldl_links links _ key, hown⟩
  refine hstore.bind ?_ fun _ _ _ => trivial
  rintro - s1 ⟨db, rfl, hdb, hown⟩
  unfold updateLinks
  refine (requireMessage_ends id _).bind ?_ fun _ _ _ => trivial
  rintro row s2 ⟨rfl, hrow⟩
  have hrow : s.rows.messages[id]? = some row := hrow
  obtain ⟨hid, howner, hthread, hname⟩ := h.row id row hrow
  obtain ⟨hkeys, hothers, hlinks⟩ := h.storedLinks hrow hown hfit hdb
  refine (requireThread_ends _ _).bind ?_ fun _ _ _ => trivial
  rintro - s3 ⟨rfl, -⟩
  rw [Ends.bind_iff, Ends.fromExcept_iff]
  refine ⟨fun path hpath => ?_, fun _ _ => trivial⟩
  obtain ⟨-, rfl⟩ := aiMessageRelPath_ok_iff.mp hpath
  by_cases hfile : s.world.repo.work.contains (shardedPath "ai_messages" id ".md") = true
  · simp only [Ends.bind_iff (m := get), Ends.get_iff, hfile, Bool.not_true, Bool.false_eq_true,
      if_false]
    have hlive : row.deletedAt = none := by
      refine Option.not_isSome_iff_eq_none.mp fun hsome => ?_
      have halone := h.alone id row hrow
      rw [hsome] at halone
      exact Map.not_mem_iff.mpr halone (Std.ExtTreeMap.contains_iff_mem.mp hfile)
    have htrash := h.alone id row hrow
    rw [hlive] at htrash
    refine (writeMessage_ends _ row _ _).bind ?_ fun _ _ he => he.elim
    rintro - s4 rfl
    refine (stageCommit_ends _ _ (by exact Std.ExtTreeMap.getElem?_insert_self)).mono ?_
      fun _ _ he => he.elim
    rintro - s5 ⟨hrows, hdb5, hwork, hstaged, hhead⟩
    refine h.written hid (by rw [hrows]) (fun x => ?_) hwork hstaged hhead
      (fun key l hfrom => by rw [hdb5]; exact hothers key l hfrom)
      (fun key l hl => hkeys key l (by rwa [hdb5] at hl)) hlive howner hthread
      (h.placed id row hrow) hname htrash ?_
    · rw [hrows]
      split
      · next he => rw [← he, hrow]
      · rfl
    · refine ⟨row, _, howner, ⟨rfl, rfl, rfl⟩, ?_, rfl⟩
      rw [hdb5]
      exact hlinks
  · simp only [Ends.bind_iff, Ends.get_iff, hfile, Bool.not_false, if_true, Ends.throw_iff]

/-- Moving a message's file between its two places, with its row. -/
theorem moveMessage_step (h : MessagesInStep env Placed s0 s) (hrow : s.rows.messages[id]? = some row)
    (hsame : row.Same message) (hown : message.messageId = row.messageId)
    (hplace : message.deletedAt.isSome = !row.deletedAt.isSome) (commitMessage : String) :
    Ends (moveMessage (messagePath row.deletedAt.isSome id) (messagePath (!row.deletedAt.isSome) id)
      message commitMessage) s (fun _ => MessagesInStep env Placed s0) fun _ _ => True := by
  obtain ⟨hid, howner, hthread, hname⟩ := h.row id row hrow
  obtain ⟨text, htext, hwritten⟩ := h.file id row hrow
  unfold moveMessage
  refine (renameFile_ends _ _ s).bind ?_ fun _ _ _ => trivial
  rintro - s1 ⟨bytes, hb, rfl⟩
  rw [htext] at hb
  cases hb
  rw [Ends.bind_iff, modifyRows, Ends.modify_iff, Ends.bind_iff, Ends.onWorld_iff, Ends.onRepo_iff]
  refine ⟨fun repo hrepo => ?_, fun _ _ => trivial⟩
  cases hrepo
  refine (stageCommit_ends _ _ (by exact Std.ExtTreeMap.getElem?_insert_self)).mono ?_
    fun _ _ he => he.elim
  rintro - s2 ⟨hrows, hdb, hwork, hstaged, hhead⟩
  have hwork : s2.world.repo.work = (s.world.repo.work.erase (messagePath row.deletedAt.isSome id)).insert
      (messagePath (!row.deletedAt.isSome) id) text := hwork
  have hstaged : s2.world.repo.staged =
      (s.world.repo.staged.erase (messagePath row.deletedAt.isSome id)).insert
        (messagePath (!row.deletedAt.isSome) id) text := hstaged
  have hne : messagePath (!row.deletedAt.isSome) id ≠ messagePath row.deletedAt.isSome id := by
    intro he
    have := (messagePath_inj hid hid he).1
    cases hd : row.deletedAt.isSome <;> simp [hd] at this
  have hstep : MessageStep env s s2 id (some message) := by
    refine ⟨by rw [hrows], fun x => ?_, fun path hpath => ?_, fun path hpath => ?_, fun isTrash => ?_,
      hhead, fun x _ _ key l _ => by rw [hdb], fun key l hl => h.keys key l (by rwa [hdb] at hl)⟩
    · rw [hrows, ← howner, ← hown]
      exact Map.get_insert _ _ _ _
    · rw [hwork, Map.get_insert_ne (hpath _).symm, Map.get_erase_ne (hpath _).symm]
    · rw [hstaged, Map.get_insert_ne (hpath _).symm, Map.get_erase_ne (hpath _).symm]
    · rw [hwork, hstaged, Map.get_insert, Map.get_insert, Map.get_erase, Map.get_erase,
        h.staged _ isTrash (messageFile_messagePath isTrash hid)]
  refine h.step hid hstep (fun m hm => ?_) (by simp)
  cases hm
  refine ⟨hown.trans howner, ?_, ?_, ?_, ⟨text, ?_, ?_⟩, ?_⟩
  · rw [hsame.1]
    exact h.placed id row hrow
  · rw [OwnThread, hrows, hsame.1]
    exact hthread
  · rw [hsame.1, hsame.2.1]
    exact hname
  · rw [hplace, hwork]
    exact Std.ExtTreeMap.getElem?_insert_self
  · obtain ⟨written, links, hwid, hwsame, hlinks, rfl⟩ := hwritten
    refine ⟨written, links, hwid, ⟨hwsame.1.trans hsame.1.symm, hwsame.2.1.trans hsame.2.1.symm,
      hwsame.2.2.trans hsame.2.2.symm⟩, ?_, rfl⟩
    rw [hdb]
    exact hlinks
  · rw [hplace, Bool.not_not, hwork, Map.get_insert_ne hne]
    exact Std.ExtTreeMap.getElem?_erase_self

theorem trash_step (h : MessagesInStep env Placed s0 s) (deletedAt : Int) :
    Ends (trash env id deletedAt) s (fun _ => MessagesInStep env Placed s0) fun _ _ => True := by
  unfold trash
  refine (requireMessage_ends id s).bind ?_ fun _ _ _ => trivial
  rintro row s1 ⟨rfl, hrow⟩
  rw [Ends.ite_iff]
  refine ⟨fun _ => trivial, fun hlive => ?_⟩
  refine (requireThread_ends _ s1).bind ?_ fun _ _ _ => trivial
  rintro - s2 ⟨rfl, -⟩
  simp only [Ends.bind_iff, Ends.fromExcept_iff]
  refine ⟨fun path hpath => ⟨fun trashPath htrash => ?_, fun _ _ => trivial⟩, fun _ _ => trivial⟩
  obtain ⟨-, rfl⟩ := aiMessageRelPath_ok_iff.mp hpath
  rw [aiMessageTrashRelPath_ok htrash]
  have hlive : row.deletedAt.isSome = false := by simpa using hlive
  have hsame : row.Same { row with deletedAt := some deletedAt } := ⟨rfl, rfl, rfl⟩
  have hmove := moveMessage_step h hrow hsame rfl (by rw [hlive]; rfl) ("Delete ai message " ++ id)
  rw [hlive] at hmove
  exact hmove

theorem restore_step (h : MessagesInStep env Placed s0 s) :
    Ends (restore env id) s (fun _ => MessagesInStep env Placed s0) fun _ _ => True := by
  unfold restore
  refine (requireMessage_ends id s).bind ?_ fun _ _ _ => trivial
  rintro row s1 ⟨rfl, hrow⟩
  rw [Ends.ite_iff]
  refine ⟨fun _ => trivial, fun hgone => ?_⟩
  refine (requireThread_ends _ s1).bind ?_ fun _ _ _ => trivial
  rintro - s2 ⟨rfl, -⟩
  simp only [Ends.bind_iff, Ends.fromExcept_iff]
  refine ⟨fun path hpath => ⟨fun trashPath htrash => ?_, fun _ _ => trivial⟩, fun _ _ => trivial⟩
  obtain ⟨-, rfl⟩ := aiMessageRelPath_ok_iff.mp hpath
  rw [aiMessageTrashRelPath_ok htrash]
  have hgone : row.deletedAt.isSome = true := by simpa [Option.isSome_iff_ne_none] using hgone
  have hsame : row.Same { row with deletedAt := none } := ⟨rfl, rfl, rfl⟩
  have hmove := moveMessage_step h hrow hsame rfl (by rw [hgone]; rfl) ("Restore ai message " ++ id)
  rw [hgone] at hmove
  exact hmove

theorem remove_step (h : MessagesInStep env Placed s0 s) (hfit : (MessageCall.remove id).Fits env s) :
    Ends (remove env id) s (fun _ => MessagesInStep env Placed s0) fun _ _ => True := by
  obtain ⟨htrashed, hunlinked⟩ := hfit
  unfold remove
  rw [Ends.bind_iff, Ends.get_iff, Ends.bind_iff, deleteRow, modifyRows, Ends.modify_iff]
  cases hrow : s.rows.messages[id]? with
  | none =>
    simp only [Option.bind_none, reduceCtorEq, if_false, Ends.pure_iff]
    rw [Map.erase_of_get hrow]
    exact h
  | some row =>
    obtain ⟨hid, -, hthread, -⟩ := h.row id row hrow
    have hgone : row.deletedAt.isSome = true := Option.isSome_iff_ne_none.mpr (htrashed row hrow)
    have hlive : s.world.repo.work[messagePath false id]? = none := by
      have := h.alone id row hrow
      rwa [hgone] at this
    have hthread : s.rows.threads[row.threadId]? = some env.project.projectId := hthread
    simp only [Option.bind_some, hthread, if_true]
    rw [Ends.bind_iff, Ends.onWorld_iff, Ends.onDb_iff, LinkRepo.deleteLinksFrom, Ends.modify_iff,
      Ends.bind_iff, Ends.onWorld_iff, Ends.onDb_iff, LinkRepo.deleteLinksToTyped, Ends.modify_iff]
    simp only [Ends.bind_iff (m := fromExcept _), Ends.fromExcept_iff]
    refine ⟨fun path hpath => ⟨fun trashPath htrash => ?_, fun _ _ => trivial⟩, fun _ _ => trivial⟩
    obtain ⟨-, rfl⟩ := aiMessageRelPath_ok_iff.mp hpath
    rw [aiMessageTrashRelPath_ok htrash]
    refine (removeFile_ends _ _).bind ?_ fun _ _ he => he.elim
    rintro removed s1 (⟨rfl, -, rfl⟩ | ⟨-, ⟨_, hb⟩, -⟩)
    · refine (removeFile_ends _ _).bind ?_ fun _ _ he => he.elim
      obtain ⟨text, htext, -⟩ := h.file id row hrow
      rw [hgone] at htext
      rintro removed s2 (⟨-, hnone, -⟩ | ⟨rfl, -, rfl⟩)
      · cases htext.symm.trans hnone
      · rw [if_pos rfl, Ends.onWorld_iff, CardStore.commit, Ends.onRepo_iff]
        refine ⟨fun repo hrepo => ?_, fun _ _ => trivial⟩
        cases hrepo
        have hne : messagePath true id ≠ messagePath false id := fun he => by
          cases (messagePath_inj hid hid he).1
        refine @MessagesInStep.step _ _ _ _ _ _ _ none h hid ⟨rfl, fun x => Map.get_erase _ _ _,
          fun path hpath => Map.get_erase_ne (hpath true).symm,
          fun path hpath => Map.get_erase_ne (hpath true).symm, fun isTrash => ?_,
          Repo.treeAt_commit _ _, fun x hx hne key l hl => ?_, fun key l hl => ?_⟩ (by simp)
          fun _ isTrash => ?_
        · change (s.world.repo.staged.erase (messagePath true id))[_]? =
            (s.world.repo.work.erase (messagePath true id))[_]?
          rw [Map.get_erase, Map.get_erase, h.staged _ isTrash (messageFile_messagePath isTrash hid)]
        · simp only [Map.get_filter, Option.filter_eq_some_iff]
          refine ⟨fun hkey => hkey.1.1, fun hkey => ⟨⟨hkey, by simp [hl, hne]⟩, ?_⟩⟩
          by_contra hbad
          simp only [Bool.not_eq_true', Bool.not_eq_false, Bool.and_eq_true, beq_iff_eq] at hbad
          exact hunlinked key l hkey hbad.1.2 hbad.2 (hl ▸ hne) (hl ▸ hx)
        · simp only [Map.get_filter, Option.filter_eq_some_iff] at hl
          exact h.keys key l hl.1.1
        · change (s.world.repo.work.erase (messagePath true id))[_]? = none
          rw [Map.get_erase]
          cases isTrash with
          | true => exact if_pos rfl
          | false => rw [if_neg hne, hlive]
    · cases hlive.symm.trans hb

/-- One call that meets the conditions. -/
theorem MessageCall.run_step (call : MessageCall) (h : MessagesInStep env Placed s0 s)
    (hfit : call.Fits env s) (hplaced : ∀ message, call = .append message →
      Placed message.messageId message.threadId) :
    Ends (call.run env) s (fun _ => MessagesInStep env Placed s0) fun _ _ => True := by
  cases call with
  | append message => exact append_step h hfit (hplaced message rfl)
  | update message => exact update_step h hfit
  | updateLinks messageId links => exact updateLinks_step h hfit
  | trash messageId deletedAt => exact trash_step h deletedAt
  | restore messageId => exact restore_step h
  | remove messageId => exact remove_step h hfit

/-- The calls change nothing below another directory than those of the messages. -/
theorem MessagesInStep.agreeBelow (h : MessagesInStep env Placed s0 s) {base : String}
    (hbase : ∀ (id : String) (isTrash : Bool),
      startsWith (base ++ "/") (messagePath isTrash id).toList = false) :
    AgreeBelow base s0.world.repo.work s.world.repo.work := by
  refine fun path hpath => h.beside path fun id isTrash he => ?_
  rw [he, hbase id isTrash] at hpath
  cases hpath

end

section
variable {env : RebuildEnv K} {s s' s0 : Services K}

/-- The calls leave the cards and the manifests where a rebuild finds them. -/
theorem MessagesInStep.beneath (h : MessagesInStep env.toServiceEnv
    (MessagePlaced env s0.world.repo.work) s0 s) {base : String} (hbase : base ∈
      ["cards", "trash/cards", "resources", "locations", "ai_threads"]) :
    AgreeBelow base s0.world.repo.work s.world.repo.work := by
  refine h.agreeBelow fun id isTrash => ?_
  simp only [List.mem_cons, List.not_mem_nil, or_false] at hbase
  rcases hbase with rfl | rfl | rfl | rfl | rfl <;> cases isTrash <;>
    simp [messagePath, startsWith, shardedPath, List.isPrefixOf]

theorem MessagesInStep.placed_iff (hdir : ∀ paths, (env.directoryOrder paths).Perm paths)
    (h : MessagesInStep env.toServiceEnv (MessagePlaced env s0.world.repo.work) s0 s)
    (messageId threadId : String) : MessagePlaced env s.world.repo.work messageId threadId ↔
      MessagePlaced env s0.world.repo.work messageId threadId := by
  have hcards : ∀ isTrash, s.world.repo.work[cardPathOf isTrash messageId]? =
      s0.world.repo.work[cardPathOf isTrash messageId]? := by
    intro isTrash
    have hlive : AgreeBelow "cards" s0.world.repo.work s.world.repo.work := h.beneath (by simp)
    have htrash : AgreeBelow "trash/cards" s0.world.repo.work s.world.repo.work := h.beneath (by simp)
    cases isTrash with
    | false => exact hlive _ (by simp [startsWith, cardPathOf, livePath])
    | true => exact htrash _ (by simp [startsWith, cardPathOf, trashPath, livePath])
  have hmanifests : AgreeBelow "ai_threads" s0.world.repo.work s.world.repo.work := h.beneath (by simp)
  have hthreads := hmanifests.threadManifests hdir
  simp only [MessagePlaced, hcards, hthreads]

/-- A run of calls that all return and all meet the conditions. -/
theorem runMessageCalls_inStep (hdir : ∀ paths, (env.directoryOrder paths).Perm paths)
    (h : MessagesInStep env.toServiceEnv (MessagePlaced env s0.world.repo.work) s0 s)
    {calls : List MessageCall} (hfit : EachMessageFits env s calls)
    (hrun : runMessageCalls env.toServiceEnv s calls = some s') :
    MessagesInStep env.toServiceEnv (MessagePlaced env s0.world.repo.work) s0 s' := by
  induction calls generalizing s with
  | nil =>
    cases hrun
    exact h
  | cons call calls ih =>
    rw [runMessageCalls] at hrun
    split at hrun
    · next s1 hcall =>
      refine ih ((call.run_step h hfit.1.1 fun message he => ?_).ok hcall) (hfit.2 s1 hcall) hrun
      have hplaced := hfit.1.2
      rw [he] at hplaced
      exact (h.placed_iff hdir _ _).mp hplaced
    · cases hrun

end

/-! ## What a rebuild finds -/

/-- The records of a rebuild are those of the rows. -/
structure RecordsAre [NatCast K] (env : ServiceEnv K) (s : Services K) (records : List MessageRecord) :
    Prop where
  ids : (records.map (·.message.messageId)).Nodup
  record : ∀ record ∈ records, ∃ m, s.rows.messages[record.message.messageId]? = some m ∧
    m.Same record.message ∧ record.message.deletedAt.isSome = m.deletedAt.isSome ∧
    MessageLinks env.toEnv s.world.db record.message.messageId record.links
  row : ∀ (id : String) (m : AiMessage), s.rows.messages[id]? = some m →
    ∃ record ∈ records, record.message.messageId = id

section
variable [NatCast K] {env : ServiceEnv K} {s s0 : Services K} {Placed : String → String → Prop}

/-- Every message file loads to a message with a row. -/
theorem MessagesInStep.rebuildFile (h : MessagesInStep env Placed s0 s) (hyaml : env.yaml.Lawful)
    (hplain : env.project.privacyMode ≠ .encryptedGit) {id : String} {message : AiMessage}
    (hm : s.rows.messages[id]? = some message) : ∃ bytes record,
      s.world.repo.work[messagePath message.deletedAt.isSome id]? = some bytes ∧
      rebuildMessageFile env.toEnv (messagePath message.deletedAt.isSome id) bytes
        message.deletedAt.isSome = .ok record ∧
      record.message.messageId = id ∧ message.Same record.message ∧
      record.message.deletedAt.isSome = message.deletedAt.isSome ∧
      MessageLinks env.toEnv s.world.db id record.links := by
  obtain ⟨hid, -, -, hthread, hrole⟩ := h.row id message hm
  obtain ⟨bytes, hb, written, links, rfl, hsame, hlinks, rfl⟩ := h.file id message hm
  obtain ⟨record, hload, hown, hrecord, hplace, rfl⟩ := rebuildMessageFile_written hyaml hplain
    hid.length (hsame.1 ▸ hthread) (hsame.2.1 ▸ hrole) hlinks.fits message.deletedAt.isSome
  exact ⟨_, record, hb, hload, hown, ⟨hrecord.1.trans hsame.1, hrecord.2.1.trans hsame.2.1,
    hrecord.2.2.trans hsame.2.2⟩, hplace, hlinks⟩

/-- The message files load to the records of the rows. -/
theorem MessagesInStep.records (h : MessagesInStep env Placed s0 s) (henv : env.toEnv.Lawful)
    (hplain : env.project.privacyMode ≠ .encryptedGit) :
    ∃ records, rebuildMessageFiles env.toEnv s.world.repo.work = .ok records ∧
      RecordsAre env s records := by
  -- The place of a message's file is that of its row.
  let place : String → String := fun id =>
    messagePath (s.rows.messages[id]?.any fun m => m.deletedAt.isSome) id
  have hplace : ∀ (id : String) (m : AiMessage), s.rows.messages[id]? = some m →
      place id = messagePath m.deletedAt.isSome id := by
    intro id m hm
    simp only [place, hm, Option.any_some]
  have hfiles : ∀ (path : String) (isTrash : Bool) (raw : Bytes), MessageFile isTrash path →
      s.world.repo.work[path]? = some raw → ∃ (id : String) (m : AiMessage),
        s.rows.messages[id]? = some m ∧ path = messagePath m.deletedAt.isSome id ∧
        isTrash = m.deletedAt.isSome := by
    intro path isTrash raw hfile hraw
    obtain ⟨id, m, hm, rfl⟩ := h.only path isTrash raw hfile hraw
    exact ⟨id, m, hm, rfl, hfile.place⟩
  have hloads : ∀ (path : String) (isTrash : Bool) (raw : Bytes), MessageFile isTrash path →
      s.world.repo.work[path]? = some raw → ∃ record,
        rebuildMessageFile env.toEnv path raw isTrash = .ok record ∧
        path = place record.message.messageId := by
    intro path isTrash raw hfile hraw
    obtain ⟨id, m, hm, rfl, rfl⟩ := hfiles path isTrash raw hfile hraw
    obtain ⟨bytes, record, hb, hrecord, hown, -⟩ := h.rebuildFile henv.yaml hplain hm
    rw [hb] at hraw
    cases hraw
    exact ⟨record, hrecord, by rw [hown, hplace id m hm]⟩
  obtain ⟨records, hload, hids, hmem⟩ := rebuildMessageFiles_ok henv.directory place hloads
  refine ⟨records, hload, hids, fun record hr => ?_, fun id m hm => ?_⟩
  · obtain ⟨path, isTrash, raw, hfile, hraw, hok⟩ := (hmem record).mp hr
    obtain ⟨id, m, hm, rfl, rfl⟩ := hfiles path isTrash raw hfile hraw
    obtain ⟨bytes, record', hb, hok', rfl, hsame, hdel, hlinks⟩ := h.rebuildFile henv.yaml hplain hm
    rw [hb] at hraw
    cases hraw
    rw [hok] at hok'
    cases hok'
    exact ⟨m, hm, hsame, hdel, hlinks⟩
  · obtain ⟨bytes, record, hb, hok, hown, -⟩ := h.rebuildFile henv.yaml hplain hm
    exact ⟨record, (hmem record).mpr ⟨_, _, bytes, messageFile_messagePath _ (h.row id m hm).1, hb, hok⟩,
      hown⟩

variable {records : List MessageRecord}

/-- The records go in beside card rows that no message's links are among. -/
theorem RecordsAre.insert (h : RecordsAre env s records) {db : Db K}
    (hdb : ∀ (key : List String) (l : CardLink), db.cardLinks[key]? = some l →
      l.fromCardId ∉ s.rows.messages) :
    ∃ rebuilt, insertMessages env.project.projectId records ⟨∅, db⟩ = .ok rebuilt ∧
      SameMessages env s rebuilt := by
  have howned : ∀ r ∈ records, ∀ link ∈ r.links,
      link.projectId = env.project.projectId ∧ link.fromCardId = r.message.messageId := by
    intro r hr link hlink
    obtain ⟨m, -, -, -, hl⟩ := h.record r hr
    exact ⟨(hl.fits link hlink).project, (hl.fits link hlink).fromMessage⟩
  obtain ⟨messages, db', hins, hrows, hlinks⟩ :=
    @insertMessages_ok _ records env.project.projectId ⟨∅, db⟩ h.ids (fun r _ => by simp) howned
  refine ⟨⟨messages, db'⟩, hins, fun id hnone => ?_, fun id m hm => ?_,
    fun id m hm key l hproj hfrom => ?_⟩
  · refine Option.eq_none_iff_forall_ne_some.mpr fun m hm => ?_
    rcases (hrows id m).mp hm with ⟨r, hr, rfl, rfl⟩ | hold
    · obtain ⟨m, hm, -⟩ := h.record r hr
      cases hnone.symm.trans hm
    · simp at hold
  · obtain ⟨record, hr, rfl⟩ := h.row id m hm
    obtain ⟨m', hm', hsame, hdel, -⟩ := h.record record hr
    rw [hm] at hm'
    cases hm'
    exact ⟨record.message, (hrows _ _).mpr (.inl ⟨record, hr, rfl, rfl⟩), hsame, hdel⟩
  · obtain ⟨record, hr, rfl⟩ := h.row id m hm
    obtain ⟨-, -, -, -, hl⟩ := h.record record hr
    have hnone : db.cardLinks[key]? ≠ some l := fun hold =>
      hdb key l hold (hfrom ▸ Map.mem_iff.mpr ⟨m, hm⟩)
    change db'.cardLinks[key]? = some l ↔ _
    rw [hlinks, Option.or_eq_some_iff,
      linkRows_flatMap h.ids fun r hr link hlink => (howned r hr link hlink).2]
    constructor
    · rintro (⟨r, hr', hrl⟩ | ⟨-, hold⟩)
      · obtain ⟨-, -, -, -, hl'⟩ := h.record r hr'
        exact ((hl'.rows key l).mp hrl).1
      · exact absurd hold hnone
    · intro hold
      exact .inl ⟨record, hr, (hl.rows key l).mpr ⟨hold, hproj, hfrom⟩⟩

end

/-- Distinct threads that no other project has get their rows. -/
theorem rebuiltThreads_of {env : RebuildEnv K} {threads : List String} {rows : Map String String}
    (hnodup : threads.Nodup) (hown : ∀ threadId ∈ threads, ∀ projectId : String,
      rows[threadId]? = some projectId → projectId = env.project.projectId) :
    ∃ rows', rebuiltThreads env threads rows = .ok rows' := by
  have hstep : ∀ (threads : List String) (rows : Map String String), threads.Nodup →
      (∀ threadId ∈ threads, threadId ∉ rows) → ∃ rows', threads.foldlM (fun rows threadId =>
        if rows.contains threadId then throw (.runtimeError "insert ai thread failed")
        else return rows.insert threadId env.project.projectId) rows = (.ok rows' : Except Exn _) := by
    intro threads
    induction threads with
    | nil => exact fun rows _ _ => ⟨rows, rfl⟩
    | cons threadId threads ih =>
      intro rows hnodup hnew
      rw [List.nodup_cons] at hnodup
      have hfree : ¬ rows.contains threadId = true := fun hc =>
        hnew threadId List.mem_cons_self (Std.ExtTreeMap.contains_iff_mem.mp hc)
      rw [List.foldlM_cons, if_neg hfree]
      refine ih _ hnodup.2 fun id hid hmem => ?_
      rcases Std.ExtTreeMap.mem_insert.mp hmem with he | hmem
      · have he : threadId = id := by simpa using he
        exact hnodup.1 (he ▸ hid)
      · exact hnew id (List.mem_cons_of_mem _ hid) hmem
  refine hstep threads _ hnodup fun threadId hid hmem => ?_
  obtain ⟨projectId, hrow⟩ := Map.mem_iff.mp hmem
  rw [Map.get_filter, Option.filter_eq_some_iff] at hrow
  simpa [hown threadId hid projectId hrow.1] using hrow.2

/-- The links of the card rows come from cards with a file. -/
theorem projection_link_file [NatCast K] {env : Env K} {work : Tree} {db : Db K}
    (hdir : ∀ paths, (env.directoryOrder paths).Perm paths) (h : projection env work = .ok db)
    {key : List String} {l : CardLink} (hl : db.cardLinks[key]? = some l) :
    ∃ isTrash raw, work[cardPathOf isTrash l.fromCardId]? = some raw := by
  obtain ⟨records, hprojected⟩ := projection_ok hdir h
  obtain ⟨record, hr, hlink⟩ := (hprojected.links key l).mp hl
  have hfrom := ((hprojected.files.loaded record hr).linkRows hlink).2.1
  obtain ⟨raw, hraw, -⟩ := ((hprojected.files.mem record).mp hr).at_path
  exact ⟨_, raw, hfrom ▸ hraw⟩

section
variable [NatCast K] {env : RebuildEnv K} {s s' s0 : Services K}

/-- The threads of the messages get their rows, as those of the start did. -/
theorem MessagesInStep.rebuiltThreads (h : MessagesInStep env.toServiceEnv
      (MessagePlaced env s0.world.repo.work) s0 s) {records records0 : List MessageRecord}
    (hrecords : RecordsAre env.toServiceEnv s records) {manifests : List AiThreadManifest}
    (hmanifests : threadManifests env s0.world.repo.work = .ok manifests) {ids0 : List String}
    (hids : rebuildThreads (manifests.map (·.threadId)) records0 = .ok ids0)
    {rows0 : Map String String}
    (hthreads : HolderCore.rebuiltThreads env ids0 s0.rows.threads = .ok rows0) :
    ∃ ids rows, rebuildThreads (manifests.map (·.threadId)) records = .ok ids ∧
      HolderCore.rebuiltThreads env ids s.rows.threads = .ok rows := by
  have hsame : s.rows.threads = s0.rows.threads := by rw [h.rest]
  have hthread : ∀ record ∈ records, OwnThread env.toServiceEnv s record.message.threadId ∧
      (manifests = [] ∨ record.message.threadId ∈ manifests.map (·.threadId)) := by
    intro record hr
    obtain ⟨m, hm, hrecord, -⟩ := hrecords.record record hr
    obtain ⟨-, ms, hms, hplaced⟩ := h.placed _ m hm
    rw [hmanifests] at hms
    cases hms
    rw [hrecord.1]
    exact ⟨(h.row _ m hm).2.2.1, hplaced⟩
  cases hempty : (manifests.map (·.threadId)).isEmpty with
  | true =>
    obtain ⟨rows, hrows⟩ := @rebuiltThreads_of _ env (records.map (·.message.threadId)).dedup
      s.rows.threads (List.nodup_dedup _) fun threadId hid projectId hrow => by
        obtain ⟨record, hr, rfl⟩ := List.mem_map.mp (List.mem_dedup.mp hid)
        exact Option.some.inj (hrow.symm.trans (hthread record hr).1)
    exact ⟨_, rows, by rw [rebuildThreads, if_pos hempty]; rfl, hrows⟩
  | false =>
    have hall : ∀ records' ids', rebuildThreads (manifests.map (·.threadId)) records' = .ok ids' →
        ids' = manifests.map (·.threadId) := by
      intro records' ids' hok
      rw [rebuildThreads, if_neg (by rw [hempty]; exact Bool.false_ne_true)] at hok
      split at hok
      · cases hok
      · cases hok
        rfl
    have hnone : records.find? (fun record =>
        !(manifests.map (·.threadId)).contains record.message.threadId) = none := by
      refine List.find?_eq_none.mpr fun record hr => ?_
      rcases (hthread record hr).2 with rfl | hmem
      · cases hempty
      · simpa using hmem
    refine ⟨manifests.map (·.threadId), rows0, ?_, ?_⟩
    · rw [rebuildThreads, if_neg (by rw [hempty]; exact Bool.false_ne_true), hnone]
      rfl
    · rw [hsame, ← hall records0 ids0 hids]
      exact hthreads

theorem MessagesInStep.agree (h : MessagesInStep env.toServiceEnv
      (MessagePlaced env s0.world.repo.work) s0 s) (henv : env.toEnv.Lawful)
    (hplain : env.project.privacyMode ≠ .encryptedGit)
    (hrebuild : ∃ rows db, rebuildTables env s0.rows s0.world.repo.work = .ok (rows, db)) :
    MessagesAgree env s := by
  refine ⟨fun id m hm isTrash => ?_, h.only, h.head, ?_⟩
  · obtain ⟨bytes, hb, -⟩ := h.file id m hm
    constructor
    · rintro ⟨bytes', hb'⟩
      by_contra hne
      have hne : isTrash = !m.deletedAt.isSome := by
        cases isTrash <;> cases hd : m.deletedAt.isSome <;> simp_all
      rw [hne, h.alone id m hm] at hb'
      cases hb'
    · rintro rfl
      exact ⟨bytes, hb⟩
  have hdir := henv.directory
  have hcards : AgreeBelow "cards" s0.world.repo.work s.world.repo.work := h.beneath (by simp)
  have htrash : AgreeBelow "trash/cards" s0.world.repo.work s.world.repo.work := h.beneath (by simp)
  have hbelow : AgreeBelow "resources" s0.world.repo.work s.world.repo.work := h.beneath (by simp)
  have hlocations : AgreeBelow "locations" s0.world.repo.work s.world.repo.work := h.beneath (by simp)
  have hthreads : AgreeBelow "ai_threads" s0.world.repo.work s.world.repo.work := h.beneath (by simp)
  -- What the rebuild of the start read beside the messages is read again.
  obtain ⟨rows0, db0, hrebuild⟩ := hrebuild
  obtain ⟨stored, threads0, rebuilt0, hstored, hrest, -⟩ := rebuildTables_iff.mp hrebuild
  obtain ⟨cardRows, manifests, records0, ids0, hproj, hmanifests, hcheck, -, hids0, -, hrows0⟩ :=
    rebuildCardsAndMessages_iff.mp hrest
  rw [rebuildResources_threads hstored] at hrows0
  have hresources : rebuildResources env s.rows s.world.repo.work =
      .ok { stored with messages := s.rows.messages } := by
    rw [h.rest]
    exact rebuildResources_messages hdir hbelow hlocations s.rows.messages hstored
  obtain ⟨records, hload, hrecords⟩ := h.records henv hplain
  obtain ⟨ids, threads, hids, hthreadRows⟩ := h.rebuiltThreads hrecords hmanifests hids0 hrows0
  have hapart : ∀ (key : List String) (l : CardLink), cardRows.cardLinks[key]? = some l →
      l.fromCardId ∉ s.rows.messages := by
    intro key l hl hmem
    obtain ⟨m, hm⟩ := Map.mem_iff.mp hmem
    obtain ⟨isTrash, raw, hraw⟩ := projection_link_file hdir hproj hl
    rw [(h.placed _ m hm).1 isTrash] at hraw
    cases hraw
  obtain ⟨rebuilt, hinsert, hsame⟩ := hrecords.insert hapart
  refine ⟨_, _, rebuildTables_iff.mpr ⟨_, threads, rebuilt, hresources,
    rebuildCardsAndMessages_iff.mpr ⟨cardRows, manifests, records, ids, ?_, ?_, hcheck, hload, hids,
      hinsert, ?_⟩, rfl⟩, hsame⟩
  · rw [hcards.projection hdir htrash, hproj]
  · rw [hthreads.threadManifests hdir, hmanifests]
  · rw [rebuildResources_threads hresources]
    exact hthreadRows

/-- In every state of a run whose calls all return and all meet the conditions, from a project without
messages that a rebuild accepts, the messages agree with their files. -/
theorem runMessageCalls_agree (henv : env.toEnv.Lawful)
    (hplain : env.project.privacyMode ≠ .encryptedGit) (hstart : NoMessages s)
    (hrebuild : ∃ rows db, rebuildTables env s.rows s.world.repo.work = .ok (rows, db))
    {calls : List MessageCall} (hfit : EachMessageFits env s calls)
    (hrun : runMessageCalls env.toServiceEnv s calls = some s') : MessagesAgree env s' :=
  (runMessageCalls_inStep henv.directory hstart.inStep hfit hrun).agree henv hplain hrebuild

end

/-- A plain project. -/
def plainServiceEnv : ServiceEnv ℚ := { mirrorEnv with toEnv := plainEnv fun _ => [] }

/-- A plain project without manifests. -/
def plainRebuildEnv : RebuildEnv ℚ where
  toServiceEnv := plainServiceEnv
  loadResourceManifest _ := .error (.runtimeError "unsupported resource manifest version")
  parseLocationManifest _ := .error (.runtimeError "unsupported location manifest version")
  parseAiThreadManifest _ := .error (.runtimeError "unsupported AI thread manifest version")

theorem noMessages_chatting : NoMessages chatting where
  rows := rfl
  work _ _ _ := Std.ExtTreeMap.getElem?_empty
  staged _ _ _ := Std.ExtTreeMap.getElem?_empty
  head _ _ _ := by simp [chatting, World.empty, Repo.init, Repo.tip, Repo.treeAt]
  keys key l h := by simp [chatting, World.empty, Db.empty] at h

theorem trashedAndRestored_agree : ∃ s', runMessageCalls plainServiceEnv chatting
      [.append secretMessage, .trash "face" 2, .restore "face"] = some s' ∧
    MessagesAgree plainRebuildEnv s' := by
  have hruns : (runMessageCalls plainServiceEnv chatting
      [.append secretMessage, .trash "face" 2, .restore "face"]).isSome = true := by decide +kernel
  have hplaced : MessagePlaced plainRebuildEnv chatting.world.repo.work "face" "chat" :=
    ⟨fun _ => Std.ExtTreeMap.getElem?_empty, [], rfl, .inl rfl⟩
  have hfit : EachMessageFits plainRebuildEnv chatting
      [.append secretMessage, .trash "face" 2, .restore "face"] := by
    refine ⟨⟨⟨⟨by decide, by decide, by decide⟩, by decide, by decide, rfl, fun key l h => ?_⟩,
      hplaced⟩, fun _ _ => ⟨⟨trivial, trivial⟩, fun _ _ => ⟨⟨trivial, trivial⟩, fun _ _ => trivial⟩⟩⟩
    simp [chatting, World.empty, Db.empty] at h
  have hrebuild : ∃ rows db, rebuildTables plainRebuildEnv chatting.rows chatting.world.repo.work =
      .ok (rows, db) := ⟨_, _, rfl⟩
  obtain ⟨s', hrun⟩ := Option.isSome_iff_exists.mp hruns
  exact ⟨s', hrun, runMessageCalls_agree (plainEnv_lawful _) (by decide) noMessages_chatting hrebuild
    hfit hrun⟩

/-- An update of a trashed message writes its live file beside the one in the trash. -/
theorem trashedAndUpdated_disagree : NoMessages chatting ∧ ∃ s', runMessageCalls plainServiceEnv chatting
      [.append secretMessage, .trash "face" 2, .update secretMessage] = some s' ∧
    ¬ MessagesAgree plainRebuildEnv s' := by
  have hruns : (runMessageCalls plainServiceEnv chatting
      [.append secretMessage, .trash "face" 2, .update secretMessage]).map (fun s =>
        (s.rows.messages["face"]?.map (·.deletedAt),
          s.world.repo.work[messagePath false "face"]?.isSome)) = some (some (some 2), true) := by
    decide +kernel
  obtain ⟨s', hrun, hfacts⟩ := Option.map_eq_some_iff.mp hruns
  rw [Prod.mk.injEq, Option.map_eq_some_iff] at hfacts
  obtain ⟨⟨message, hm, hdeleted⟩, hfile⟩ := hfacts
  refine ⟨noMessages_chatting, s', hrun, fun hagree => ?_⟩
  have hplace := (hagree.oneFile "face" message hm false).mp (Option.isSome_iff_exists.mp hfile)
  rw [hdeleted] at hplace
  cases hplace

end HolderCore
