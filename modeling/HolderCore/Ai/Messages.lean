import HolderCore.Project.Services

/-! # AI messages

The write operations of `ai/AiMessageRepo.cpp`, which keep each message in a file of its own beside
its row. A message is written as it is: nothing here encrypts a file. -/

namespace HolderCore

section
variable (y : Yaml K)

private def nullableNode : Option String → YamlNode
  | some text => .scalar text
  | none => .null

def messageNode (message : AiMessage) (projectId : String) (links : List CardLink) : YamlNode := .map [
  ("message_id", .scalar message.messageId),
  ("project_id", .scalar projectId),
  ("thread_id", .scalar message.threadId),
  ("role", .scalar message.role),
  ("source", .scalar message.source),
  ("provider", nullableNode message.provider),
  ("model", nullableNode message.model),
  ("created_at", .scalar (y.formatInt message.createdAt)),
  ("prompt_hash", nullableNode message.promptHash),
  ("meta_json", nullableNode message.metaJson),
  ("links", .seq (links.map (linkNode y)))]

def renderAiMessageFrontMatter (message : AiMessage) (projectId : String) (links : List CardLink) :
    Bytes :=
  "---\n".toList ++ y.emit (messageNode y message projectId links) ++ "\n---\n".toList

end

/-! ## Reading a message's file -/

open YamlNode

structure ParsedAiMessageFile where
  message : AiMessage
  projectId : String
  links : List CardLink
  body : String
  hasFrontMatter : Bool

/-- A default-initialised `AiMessage`. -/
def AiMessage.empty : AiMessage where
  messageId := ""
  threadId := ""
  role := ""
  source := ""
  provider := none
  model := none
  content := ""
  createdAt := 0
  deletedAt := none
  promptHash := none
  metaJson := none

section
variable [NatCast K] (y : Yaml K)

/-- The scalar fields, each assigned in turn until one throws. -/
def messageFields : List (YamlNode → ParsedAiMessageFile → Option ParsedAiMessageFile) := [
  fun node p => do
    return { p with
      message.messageId := ← readField node "message_id" asString p.message.messageId },
  fun node p => do
    return { p with message.threadId := ← readField node "thread_id" asString p.message.threadId },
  fun node p => do return { p with projectId := ← readField node "project_id" asString p.projectId },
  fun node p => do return { p with message.role := ← readField node "role" asString p.message.role },
  fun node p => do
    return { p with message.source := ← readField node "source" asString p.message.source },
  fun node p => do
    return { p with
      message.createdAt := ← readField node "created_at" (asInt y) p.message.createdAt },
  fun node p => do return { p with message.provider := ← readNullable node "provider" asString },
  fun node p => do return { p with message.model := ← readNullable node "model" asString },
  fun node p => do return { p with message.promptHash := ← readNullable node "prompt_hash" asString },
  fun node p => do return { p with message.metaJson := ← readNullable node "meta_json" asString }]

def readMessageFields (node : YamlNode) :
    List (YamlNode → ParsedAiMessageFile → Option ParsedAiMessageFile) → ParsedAiMessageFile →
    ParsedAiMessageFile × Bool
  | [], parsed => (parsed, true)
  | field :: fields, parsed =>
    match field node parsed with
    | some parsed => readMessageFields node fields parsed
    | none => (parsed, false)

/-- What the links of a message take over from it: its id, its project and its time of creation. -/
def messageOwner (projectId : String) (message : AiMessage) : Card K :=
  { (Card.empty : Card K) with cardId := message.messageId, projectId, createdAt := message.createdAt }

def noMessageFrontMatter (raw : Bytes) : ParsedAiMessageFile where
  message := .empty
  projectId := ""
  links := []
  body := String.ofList raw
  hasFrontMatter := false

/-- The part of `parse_ai_message_file` after the YAML map was loaded. Its loop over the links is that
of `parse_card_file`. -/
def parseMessageNode (node : YamlNode) (raw body : Bytes) : ParsedAiMessageFile :=
  let (parsed, ok) := readMessageFields node (messageFields y)
    { noMessageFrontMatter raw with hasFrontMatter := true }
  if !ok then parsed
  else
    let (links, ok) := parseSeq node "links"
      (parseLink y (messageOwner parsed.projectId parsed.message : Card K))
    { parsed with links, body := String.ofList (if ok then body else raw) }

def parseMessageDelimited (raw : Bytes) (opening closing : String) : ParsedAiMessageFile :=
  match splitFirst closing.toList (raw.drop opening.length) with
  | none => noMessageFrontMatter raw
  | some (yamlText, body) =>
    match y.load yamlText with
    | some (.map entries) => parseMessageNode y (.map entries) raw body
    | _ => noMessageFrontMatter raw

def parseAiMessageFile (raw : Bytes) : ParsedAiMessageFile :=
  if startsWith "---\r\n" raw then parseMessageDelimited y raw "---\r\n" "\r\n---\r\n"
  else if startsWith "---\n" raw then parseMessageDelimited y raw "---\n" "\n---\n"
  else noMessageFrontMatter raw

end

section
variable [NatCast K] {y : Yaml K}

omit [NatCast K] in
theorem readMessageFields_messageNode (hy : y.Lawful) (message : AiMessage) (projectId : String)
    (links : List CardLink) (raw : Bytes) :
    readMessageFields (messageNode y message projectId links) (messageFields y)
        { noMessageFrontMatter raw with hasFrontMatter := true } =
      ({ message := { message with content := "", deletedAt := none }, projectId, links := [],
         body := String.ofList raw, hasFrontMatter := true }, true) := by
  have hprovider : readNullable (messageNode y message projectId links) "provider" asString =
      some message.provider := by
    cases h : message.provider <;>
      simp [readNullable, messageNode, get?, nullableNode, isNull, asString, h]
  have hmodel : readNullable (messageNode y message projectId links) "model" asString =
      some message.model := by
    cases h : message.model <;>
      simp [readNullable, messageNode, get?, nullableNode, isNull, asString, h]
  have hprompt : readNullable (messageNode y message projectId links) "prompt_hash" asString =
      some message.promptHash := by
    cases h : message.promptHash <;>
      simp [readNullable, messageNode, get?, nullableNode, isNull, asString, h]
  have hmeta : readNullable (messageNode y message projectId links) "meta_json" asString =
      some message.metaJson := by
    cases h : message.metaJson <;>
      simp [readNullable, messageNode, get?, nullableNode, isNull, asString, h]
  simp only [messageFields, readMessageFields, hprovider, hmodel, hprompt, hmeta]
  simp [readField, messageNode, get?, asString, asInt, hy.parseInt_formatInt, noMessageFrontMatter,
    AiMessage.empty]

/-- What the code writes to a message's file it reads back. -/
theorem parseAiMessageFile_render (hy : y.Lawful) (message : AiMessage) (projectId : String)
    (links : List CardLink) (body : String) :
    parseAiMessageFile y (renderAiMessageFrontMatter y message projectId links ++ body.toList) =
      { message := { message with content := "", deletedAt := none }
        projectId
        links := links.filterMap (readBackLink (messageOwner projectId message : Card K))
        body
        hasFrontMatter := true } := by
  have hraw : renderAiMessageFrontMatter y message projectId links ++ body.toList =
      '-' :: '-' :: '-' :: '\n' :: (y.emit (messageNode y message projectId links) ++
        "\n---\n".toList ++ body.toList) := by
    simp [renderAiMessageFrontMatter]
  have hload : y.load (y.emit (messageNode y message projectId links)) =
      some (messageNode y message projectId links) := hy.load_emit _
  have hlines : ¬ DelimiterLine (y.emit (messageNode y message projectId links)) :=
    hy.emit_lines _
  have hsplit := splitFirst_delimiter hlines body.toList
  have hlinks : parseSeq (messageNode y message projectId links) "links"
      (parseLink y (messageOwner projectId message : Card K)) =
      (links.filterMap (readBackLink (messageOwner projectId message : Card K)), true) :=
    parseItems_map (parseLink_linkNode hy _) links
  have hcrlf : startsWith "---\r\n"
      (renderAiMessageFrontMatter y message projectId links ++ body.toList) = false := by
    rw [hraw]; simp [startsWith, List.isPrefixOf]
  have hlf : startsWith "---\n"
      (renderAiMessageFrontMatter y message projectId links ++ body.toList) = true := by
    rw [hraw]; simp [startsWith]
  have hdrop : (renderAiMessageFrontMatter y message projectId links ++ body.toList).drop
      "---\n".length = y.emit (messageNode y message projectId links) ++ "\n---\n".toList ++
        body.toList := by
    rw [hraw]; rfl
  rw [parseAiMessageFile, hcrlf, hlf]
  simp only [Bool.false_eq_true, ↓reduceIte, parseMessageDelimited, hdrop, hsplit, hload]
  change parseMessageNode y (messageNode y message projectId links) _ body.toList = _
  change parseSeq (messageNode y message projectId links) "links" (parseLink y
    (messageOwner projectId { message with content := "", deletedAt := none } : Card K)) = _ at hlinks
  simp only [parseMessageNode, readMessageFields_messageNode hy, hlinks, Bool.not_true,
    Bool.false_eq_true, ↓reduceIte, String.ofList_toList]

end

namespace AiMessageRepo

section
variable (env : ServiceEnv K)

/-- The project of a message's thread. -/
def requireThread (threadId : String) : ServM K Unit := do
  match (← get).rows.threads[threadId]? with
  | none => throw (.runtimeError "thread not found for ai message")
  | some projectId =>
    if projectId ≠ env.project.projectId then
      throw (.runtimeError "project not found for ai message thread")

def requireMessage (messageId : String) : ServM K AiMessage := do
  match (← get).rows.messages[messageId]? with
  | none => throw (.runtimeError ("ai message not found: " ++ messageId))
  | some message => return message

/-- A message's file: its front matter and its content, in plain text. -/
def writeMessage (path : String) (message : AiMessage) (links : List CardLink) : StoreM K Unit :=
  onRepo fun r => .ok (r.writeFile path (renderAiMessageFrontMatter env.yaml message
    env.project.projectId links ++ message.content.toList))

def insertRow (message : AiMessage) : ServM K Unit := do
  if (← get).rows.messages.contains message.messageId then
    throw (.runtimeError
      "insert ai message failed: UNIQUE constraint failed: ai_messages.message_id")
  modifyRows fun rows => { rows with messages := rows.messages.insert message.messageId message }

def append (message : AiMessage) : ServM K Unit := do
  requireThread env message.threadId
  let path ← fromExcept (aiMessageRelPath message.messageId)
  if (← get).world.repo.work.contains path then
    throw (.runtimeError "conflict: ai message file already exists")
  onWorld (writeMessage env path message [])
  tryCatch (insertRow message) fun e => do
    onWorld (onRepo fun r => .ok { r with work := r.work.erase path })
    throw e
  onWorld (onRepo (·.stagePath path))
  onWorld (CardStore.commit ("Add ai message " ++ message.messageId))

/-- The columns that `update` sets. -/
def AiMessage.updated (row message : AiMessage) : AiMessage :=
  { row with
    role := message.role
    source := message.source
    provider := message.provider
    model := message.model
    content := message.content
    createdAt := message.createdAt
    promptHash := message.promptHash
    metaJson := message.metaJson }

def update (message : AiMessage) : ServM K Unit := do
  requireThread env message.threadId
  modifyRows fun rows => { rows with messages := match rows.messages[message.messageId]? with
    | some row => rows.messages.insert message.messageId (AiMessage.updated row message)
    | none => rows.messages }
  let path ← fromExcept (aiMessageRelPath message.messageId)
  let links := LinkRepo.listOutgoing (← get).world.db env.project.projectId message.messageId
  onWorld (writeMessage env path message links)
  onWorld (onRepo (·.stagePath path))
  onWorld (CardStore.commit ("Update ai message " ++ message.messageId))

/-- Rename a message's file, over one that may be there. -/
def renameFile (source target : String) : StoreM K Unit := do
  match (← get).repo.work[source]? with
  | none => throw (.runtimeError "ai message content missing")
  | some bytes =>
    onRepo fun r => .ok { r with work := (r.work.erase source).insert target bytes }

/-- Move a message between its two paths: the file, the row, the index and the commit. -/
def moveMessage (source target : String) (message : AiMessage) (commitMessage : String) :
    ServM K Unit := do
  onWorld (renameFile source target)
  modifyRows fun rows => { rows with messages := rows.messages.insert message.messageId message }
  onWorld (onRepo fun r => .ok (r.removePath source))
  onWorld (onRepo (·.stagePath target))
  onWorld (CardStore.commit commitMessage)

def trash (messageId : String) (deletedAt : Int) : ServM K Unit := do
  let message ← requireMessage messageId
  if message.deletedAt.isSome then throw (.runtimeError "ai message already deleted")
  requireThread env message.threadId
  let path ← fromExcept (aiMessageRelPath messageId)
  let trash ← fromExcept (aiMessageTrashRelPath messageId)
  moveMessage path trash { message with deletedAt := some deletedAt } ("Delete ai message " ++ messageId)

def restore (messageId : String) : ServM K Unit := do
  let message ← requireMessage messageId
  if message.deletedAt.isNone then throw (.runtimeError "ai message is not deleted")
  requireThread env message.threadId
  let path ← fromExcept (aiMessageRelPath messageId)
  let trash ← fromExcept (aiMessageTrashRelPath messageId)
  moveMessage trash path { message with deletedAt := none } ("Restore ai message " ++ messageId)

def deleteRow (messageId : String) : ServM K Unit :=
  modifyRows fun rows => { rows with messages := rows.messages.erase messageId }

/-- Remove a message's file and its index entry, if the file is there. -/
def removeFile (path : String) : StoreM K Bool := do
  if (← get).repo.work.contains path then
    onRepo fun r => .ok { r with work := r.work.erase path }
    onRepo fun r => .ok (r.removePath path)
    return true
  else return false

def remove (messageId : String) : ServM K Unit := do
  let rows := (← get).rows
  let project := rows.messages[messageId]?.bind fun message => rows.threads[message.threadId]?
  deleteRow messageId
  if project = some env.project.projectId then
    onWorld (onDb (LinkRepo.deleteLinksFrom env.project.projectId messageId))
    onWorld (onDb (LinkRepo.deleteLinksToTyped env.project.projectId messageId "ai_message"))
    let path ← fromExcept (aiMessageRelPath messageId)
    let trash ← fromExcept (aiMessageTrashRelPath messageId)
    let _ ← onWorld (removeFile path)
    if ← onWorld (removeFile trash) then
      onWorld (CardStore.commit ("Remove ai message " ++ messageId))

def updateLinks (messageId : String) : ServM K Unit := do
  let message ← requireMessage messageId
  requireThread env message.threadId
  let path ← fromExcept (aiMessageRelPath messageId)
  if !(← get).world.repo.work.contains path then throw (.runtimeError "ai message file missing")
  let links := LinkRepo.listOutgoing (← get).world.db env.project.projectId messageId
  onWorld (writeMessage env path message links)
  onWorld (onRepo (·.stagePath path))
  onWorld (CardStore.commit ("Update ai message links " ++ messageId))

end

end AiMessageRepo

end HolderCore
