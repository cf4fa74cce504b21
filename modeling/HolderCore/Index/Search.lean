import HolderCore.Ai.InStep
import HolderCore.Card.IndexedCalls

/-! # The search index

`cards_fts` and `ai_fts` under every program that writes them: the calls of the card store and of the
messages, the rebuild of a project and `index/Reindexer.cpp`. -/

namespace HolderCore

/-- A project without cards and messages. -/
def SearchState.empty (threads : Map String String) : SearchState K :=
  ⟨⟨World.empty, ⟨threads, ∅, ∅, ∅⟩, 0⟩, ∅⟩

def onServices (m : ServM K α) : SearchM K α := fun s =>
  match m s.services with
  | .ok a services => .ok a { s with services }
  | .error e services => .error e { s with services }

theorem Ends.onServices_iff {m : ServM K α} {s : SearchState K} {Q : α → SearchState K → Prop}
    {E : Exn → SearchState K → Prop} : Ends (onServices m) s Q E ↔
      Ends m s.services (fun a services => Q a { s with services })
        fun e services => E e { s with services } := by
  unfold Ends onServices
  cases m s.services <;> rfl

section
variable (env : RebuildEnv K)

/-- The statement on `ai_fts` of a message call that gets that far; `update`, `update_links` and
`remove` have none. -/
def MessageCall.index (rows : ServiceRows) (aiFts : Map String AiFts) :
    MessageCall → Map String AiFts
  | append message => aiFts.insert message.messageId (aiFtsRow env message)
  | trash messageId _ => aiFts.erase messageId
  | restore messageId =>
    rows.messages[messageId]?.elim aiFts fun message => aiFts.insert messageId (aiFtsRow env message)
  | _ => aiFts

/-- The rows that `Reindexer::run` writes: every live card with an empty body, and every message of
a thread, live or not. -/
def reindexCards (cards : Map String (Card K)) : Map String CardFts :=
  (cards.filter fun _ card => card.live).map fun _ card => ⟨card.projectId, card.title, ""⟩

def reindexMessages (rows : ServiceRows) : Map String AiFts :=
  rows.messages.filterMap fun _ message => rows.threads[message.threadId]?.map fun projectId =>
    ⟨message.threadId, projectId, message.content⟩

def SearchState.reindex (s : SearchState K) : SearchState K :=
  { services := { s.services with world.db.cardsFts := reindexCards s.services.world.db.cards }
    aiFts := reindexMessages s.services.rows }

inductive SearchCall (K : Type) where
  | card (call : Call K)
  | message (call : MessageCall)
  | rebuild
  | reindex

def SearchCall.run [SortKey K] : SearchCall K → SearchM K Unit
  | card call => do let _ ← onServices (onWorld (call.run env.toEnv))
  | message call => do
    let rows := (← get).services.rows
    onServices (call.run env.toServiceEnv)
    -- only staging and the commit come behind the indexing; neither throws for a file that is there
    if env.fts then modify fun s => { s with aiFts := call.index env rows s.aiFts }
  | rebuild => SearchState.rebuild env
  | reindex => modify SearchState.reindex

/-- The state a call leaves, whether it returned or threw. -/
def SearchCall.after [SortKey K] (s : SearchState K) (call : SearchCall K) : SearchState K :=
  match call.run env s with
  | .ok _ s' => s'
  | .error _ s' => s'

/-- The state after a run of calls. -/
def runSearchCalls [SortKey K] (s : SearchState K) (calls : List (SearchCall K)) : SearchState K :=
  calls.foldl (SearchCall.after env) s

/-- No message is created in the trash, no live message changes its content or is removed. -/
def MessageCall.KeepsIndex (s : Services K) : MessageCall → Prop
  | append new => new.deletedAt = none
  | update new => OwnThread env.toServiceEnv s new.threadId → ∀ row,
    s.rows.messages[new.messageId]? = some row → row.deletedAt = none → row.content = new.content
  | remove messageId => ∀ row, s.rows.messages[messageId]? = some row → row.deletedAt ≠ none
  | _ => True

/-- A reindex finds no trashed message and no card with a body; no trashed card is created or edited. -/
def SearchCall.KeepsIndex (s : SearchState K) : SearchCall K → Prop
  | card call => call.KeepsIndex s.services.world
  | message call => call.KeepsIndex env s.services
  | rebuild => True
  | reindex => (∀ (id : String) (row : CardFts), s.services.world.db.cardsFts[id]? = some row →
      row.body = "") ∧
    ∀ (id : String) (m : AiMessage), s.services.rows.messages[id]? = some m → m.deletedAt = none

/-- Every call of a run meets the condition in the state it is made in. -/
def EachKeepsIndex [SortKey K] : SearchState K → List (SearchCall K) → Prop
  | _, [] => True
  | s, call :: calls => call.KeepsIndex env s ∧ EachKeepsIndex (call.after env s) calls

end

/-- One row for each live card, with its title and the body of its file, one for each live message,
with its content, and no others. -/
structure SearchIndex [NatCast K] (env : RebuildEnv K) (s : SearchState K) : Prop where
  card : ∀ (id : String) (c : Card K), s.services.world.db.cards[id]? = some c → c.deletedAt = none →
    ∃ raw plain, s.services.world.repo.work[livePath id]? = some raw ∧
      decodeBlobForProject env.toEnv raw = .ok plain ∧ s.services.world.db.cardsFts[id]? =
        some ⟨c.projectId, c.title, (parseCardFile env.yaml plain).body⟩
  noOtherCard : ∀ (id : String) (row : CardFts), s.services.world.db.cardsFts[id]? = some row →
    ∃ c, s.services.world.db.cards[id]? = some c ∧ c.deletedAt = none
  message : ∀ (id : String) (m : AiMessage), s.services.rows.messages[id]? = some m →
    m.deletedAt = none → s.aiFts[id]? = some (aiFtsRow env m)
  noOtherMessage : ∀ (id : String) (row : AiFts), s.aiFts[id]? = some row →
    ∃ m, s.services.rows.messages[id]? = some m ∧ m.deletedAt = none

/-! ## Messages -/

/-- The messages are the project's and stand under their ids, and `ai_fts` has a row for each live
one and no others. -/
structure MessagesIndexed (env : RebuildEnv K) (rows : ServiceRows) (aiFts : Map String AiFts) :
    Prop where
  keyed : ∀ (id : String) (m : AiMessage), rows.messages[id]? = some m → m.messageId = id
  own : ∀ (id : String) (m : AiMessage), rows.messages[id]? = some m →
    rows.threads[m.threadId]? = some env.project.projectId
  live : ∀ (id : String) (m : AiMessage), rows.messages[id]? = some m → m.deletedAt = none →
    aiFts[id]? = some (aiFtsRow env m)
  only : ∀ (id : String) (row : AiFts), aiFts[id]? = some row →
    ∃ m, rows.messages[id]? = some m ∧ m.deletedAt = none

structure Searchable [NatCast K] (env : RebuildEnv K) (s : SearchState K) : Prop where
  cards : Indexed env.toEnv s.services.world
  messages : MessagesIndexed env s.services.rows s.aiFts

theorem Searchable.index [NatCast K] {env : RebuildEnv K} {s : SearchState K}
    (h : Searchable env s) : SearchIndex env s where
  card id := (h.cards.cards id).live
  noOtherCard id := (h.cards.cards id).only
  message := h.messages.live
  noOtherMessage := h.messages.only

section
variable {env : RebuildEnv K} {rows rows' : ServiceRows} {aiFts aiFts' : Map String AiFts} {id : String}

/-- One message is stored and indexed as it is. -/
theorem MessagesIndexed.put (h : MessagesIndexed env rows aiFts) (message : AiMessage)
    (hid : message.messageId = id) (hown : rows.threads[message.threadId]? = some env.project.projectId)
    (hthreads : rows'.threads = rows.threads)
    (hmessages : rows'.messages = rows.messages.insert id message)
    (hother : ∀ id' : String, id ≠ id' → aiFts'[id']? = aiFts[id']?)
    (hlive : message.deletedAt = none → aiFts'[id]? = some (aiFtsRow env message))
    (hdeleted : message.deletedAt ≠ none → aiFts'[id]? = none) : MessagesIndexed env rows' aiFts' := by
  have hget : ∀ id' : String, rows'.messages[id']? =
      if id = id' then some message else rows.messages[id']? := by
    intro id'
    rw [hmessages, Map.get_insert]
  refine ⟨fun id' m hm => ?_, fun id' m hm => ?_, fun id' m hm hdel => ?_, fun id' row hrow => ?_⟩
  · rw [hget] at hm
    split at hm
    · next he =>
      cases hm
      exact hid.trans he
    · exact h.keyed id' m hm
  · rw [hget] at hm
    rw [hthreads]
    split at hm
    · cases hm
      exact hown
    · exact h.own id' m hm
  · rw [hget] at hm
    split at hm
    · next he =>
      cases hm
      exact he ▸ hlive hdel
    · next hne => rw [hother id' hne]; exact h.live id' m hm hdel
  · by_cases he : id = id'
    · subst he
      refine ⟨message, by rw [hget, if_pos rfl], ?_⟩
      by_contra hdel
      rw [hdeleted hdel] at hrow
      cases hrow
    · rw [hother id' he] at hrow
      rw [hget, if_neg he]
      exact h.only id' row hrow

end

section
open AiMessageRepo
variable {env : ServiceEnv K} {s : Services K} {id : String} {message : AiMessage}

theorem onWorld_rows {r : ServiceRows} (m : StoreM K α) :
    Keeps (fun s : Services K => s.rows = r) (onWorld m) := fun _ hs =>
  Ends.onWorld_iff.mpr (.intro (fun _ _ _ => hs) fun _ _ _ => hs)

theorem requireThread_keeps {P : Services K → Prop} (threadId : String) :
    Keeps P (requireThread env threadId) := by
  refine Keeps.get.bind fun s => ?_
  split
  · exact .throw _
  · exact .ite (.throw _) (.pure _)

theorem requireMessage_keeps {P : Services K → Prop} (messageId : String) :
    Keeps P (requireMessage messageId) := by
  refine Keeps.get.bind fun s => ?_
  split
  · exact .throw _
  · exact .pure _

theorem append_rows (message : AiMessage) (s : Services K) :
    Ends (append env message) s
      (fun _ s' => OwnThread env s message.threadId ∧
        s'.rows = { s.rows with messages := s.rows.messages.insert message.messageId message })
      fun _ s' => s'.rows = s.rows := by
  unfold append
  refine (requireThread_ends _ s).bind ?_ (by rintro - s1 ⟨rfl, -⟩; rfl)
  rintro - s1 ⟨rfl, hthread⟩
  rw [Ends.bind_iff, Ends.fromExcept_iff]
  refine ⟨fun path _ => ?_, fun _ _ => rfl⟩
  by_cases hfile : s1.world.repo.work.contains path = true
  · simp only [Ends.bind_iff, Ends.get_iff, hfile, if_true, Ends.throw_iff]
  simp only [Ends.bind_iff (m := get), Ends.get_iff, hfile, Bool.false_eq_true, if_false]
  refine (writeMessage_ends path message [] s1).bind ?_ fun _ _ h => h.elim
  rintro - s2 rfl
  rw [Ends.bind_iff, Ends.tryCatch_iff]
  refine (insertRow_ends message _).mono ?_ ?_
  · rintro - s3 ⟨-, rfl⟩
    refine (stageCommit_ends _ _ (by exact Std.ExtTreeMap.getElem?_insert_self)).mono ?_
      fun _ _ h => h.elim
    rintro - s4 ⟨hrows, -⟩
    exact ⟨hthread, hrows⟩
  · rintro - s3 rfl
    simp only [Ends.bind_iff, Ends.onWorld_iff, Ends.onRepo_iff, Except.ok.injEq, Ends.throw_iff,
      reduceCtorEq, implies_true, and_true]

/-- The columns that an update sets of a row that is there. -/
theorem update_rows (message : AiMessage) (s : Services K) :
    Ends (update env message) s
      (fun _ s' => OwnThread env s message.threadId ∧ s'.rows = { s.rows with messages :=
        match s.rows.messages[message.messageId]? with
        | some row => s.rows.messages.insert message.messageId (AiMessage.updated row message)
        | none => s.rows.messages })
      fun _ s' => s'.rows = s.rows ∨ OwnThread env s message.threadId ∧
        s'.rows = { s.rows with messages :=
          match s.rows.messages[message.messageId]? with
          | some row => s.rows.messages.insert message.messageId (AiMessage.updated row message)
          | none => s.rows.messages } := by
  unfold update
  refine (requireThread_ends _ s).bind ?_ (by rintro - s1 ⟨rfl, -⟩; exact .inl rfl)
  rintro - s1 ⟨rfl, hthread⟩
  rw [Ends.bind_iff, modifyRows, Ends.modify_iff, Ends.bind_iff, Ends.fromExcept_iff]
  refine ⟨fun path _ => ?_, fun _ _ => .inr ⟨hthread, rfl⟩⟩
  simp only [Ends.bind_iff (m := get), Ends.get_iff]
  refine (((onWorld_rows _).bind fun _ => (onWorld_rows _).bind fun _ => onWorld_rows _) _ rfl).mono ?_ ?_
  · exact fun _ _ h => ⟨hthread, h⟩
  · exact fun _ _ h => .inr ⟨hthread, h⟩

theorem moveMessage_rows (source target : String) (message : AiMessage) (commitMessage : String)
    (s : Services K) :
    Ends (moveMessage source target message commitMessage) s
      (fun _ s' => s'.rows =
        { s.rows with messages := s.rows.messages.insert message.messageId message })
      fun _ s' => s'.rows = s.rows := by
  unfold moveMessage
  have hrename : Ends (onWorld (renameFile source target)) s (fun _ s1 => s1.rows = s.rows ∧
      ∃ bytes, s1.world.repo.work[target]? = some bytes) fun _ s1 => s1.rows = s.rows := by
    refine .intro (fun u s1 hrun => ?_) fun e s1 hrun => ?_
    · obtain ⟨bytes, -, rfl⟩ := (renameFile_ends source target s).ok hrun
      exact ⟨rfl, bytes, (Map.get_insert ..).trans (if_pos rfl)⟩
    · exact (onWorld_rows _ s rfl).error hrun
  refine hrename.bind ?_ fun _ _ h => h
  rintro - s1 ⟨hrows, bytes, hbytes⟩
  rw [Ends.bind_iff, modifyRows, Ends.modify_iff, Ends.bind_iff, Ends.onWorld_iff]
  simp only [Ends.onRepo_iff, Except.ok.injEq, forall_eq', reduceCtorEq, false_imp_iff, implies_true,
    and_true]
  refine (stageCommit_ends _ _ (Eq.trans (by rfl) hbytes)).mono ?_ fun _ _ h => h.elim
  rintro - s2 ⟨h2, -⟩
  rw [h2, hrows]

theorem trash_rows (id : String) (deletedAt : Int) (s : Services K) :
    Ends (trash env id deletedAt) s
      (fun _ s' => ∃ message, s.rows.messages[id]? = some message ∧ s'.rows = { s.rows with
        messages := s.rows.messages.insert message.messageId
          { message with deletedAt := some deletedAt } })
      fun _ s' => s'.rows = s.rows := by
  unfold trash
  refine (requireMessage_ends id s).bind ?_ (by rintro - s1 ⟨rfl, -⟩; rfl)
  rintro message s1 ⟨rfl, hrow⟩
  simp only [Ends.bind_iff, Ends.ite_iff, Ends.throw_iff]
  refine ⟨fun _ => trivial, fun _ => ?_⟩
  refine (requireThread_ends _ s1).mono ?_ (by rintro - s2 ⟨rfl, -⟩; rfl)
  rintro - s2 ⟨rfl, -⟩
  simp only [Ends.fromExcept_iff]
  refine ⟨fun path _ => ⟨fun trashed _ => ?_, fun _ _ => trivial⟩, fun _ _ => trivial⟩
  exact (moveMessage_rows _ _ _ _ s2).mono (fun _ _ h => ⟨message, hrow, h⟩) fun _ _ h => h

theorem restore_rows (id : String) (s : Services K) :
    Ends (restore env id) s
      (fun _ s' => ∃ message, s.rows.messages[id]? = some message ∧ s'.rows = { s.rows with
        messages := s.rows.messages.insert message.messageId { message with deletedAt := none } })
      fun _ s' => s'.rows = s.rows := by
  unfold restore
  refine (requireMessage_ends id s).bind ?_ (by rintro - s1 ⟨rfl, -⟩; rfl)
  rintro message s1 ⟨rfl, hrow⟩
  simp only [Ends.bind_iff, Ends.ite_iff, Ends.throw_iff]
  refine ⟨fun _ => trivial, fun _ => ?_⟩
  refine (requireThread_ends _ s1).mono ?_ (by rintro - s2 ⟨rfl, -⟩; rfl)
  rintro - s2 ⟨rfl, -⟩
  simp only [Ends.fromExcept_iff]
  refine ⟨fun path _ => ⟨fun trashed _ => ?_, fun _ _ => trivial⟩, fun _ _ => trivial⟩
  exact (moveMessage_rows _ _ _ _ s2).mono (fun _ _ h => ⟨message, hrow, h⟩) fun _ _ h => h

theorem remove_rows (id : String) (s : Services K) :
    Ends (remove env id) s
      (fun _ s' => s'.rows = { s.rows with messages := s.rows.messages.erase id })
      fun _ s' => s'.rows = { s.rows with messages := s.rows.messages.erase id } := by
  unfold remove
  simp only [Ends.bind_iff (m := get), Ends.get_iff]
  rw [Ends.bind_iff, deleteRow, modifyRows, Ends.modify_iff]
  exact Keeps.ite ((onWorld_rows _).bind fun _ => (onWorld_rows _).bind fun _ =>
    (Keeps.fromExcept _).bind fun _ => (Keeps.fromExcept _).bind fun _ => (onWorld_rows _).bind fun _ =>
    (onWorld_rows _).bind fun _ => .ite (onWorld_rows _) (.pure _)) (.pure _) _ rfl

theorem updateLinks_rows (id : String) (links : List CardLink) (r : ServiceRows) :
    Keeps (fun s : Services K => s.rows = r) ((MessageCall.updateLinks id links).run env) := by
  refine (onWorld_rows _).bind fun _ => ?_
  unfold AiMessageRepo.updateLinks
  refine (requireMessage_keeps _).bind fun _ => (requireThread_keeps _).bind fun _ => (Keeps.fromExcept _).bind fun _ =>
    Keeps.get.bind fun _ => .ite (.throw _) ?_
  exact Keeps.get.bind fun _ => (onWorld_rows _).bind fun _ => (onWorld_rows _).bind fun _ =>
    onWorld_rows _

/-! ## The cards under a message call -/

/-- A path that is not the live path of a card. -/
def OffCards (path : String) : Prop := ∀ id : String, livePath id ≠ path

theorem offCards_message {id path : String} (h : aiMessageRelPath id = .ok path) : OffCards path := by
  obtain ⟨-, rfl⟩ := aiMessageRelPath_ok_iff.mp h
  intro id' he
  have := congrArg (fun p : String => p.toList.head?) he
  simp [livePath, shardedPath] at this

theorem offCards_messageTrash {id path : String} (h : aiMessageTrashRelPath id = .ok path) :
    OffCards path := by
  unfold aiMessageTrashRelPath at h
  cases hp : aiMessageRelPath id with
  | error e => simp only [hp, bind, Except.bind] at h; cases h
  | ok live =>
    simp only [hp, bind, Except.bind] at h
    cases h
    intro id' he
    have := congrArg (fun p : String => p.toList.head?) he
    simp [livePath] at this

theorem onRepo_still {f : Repo → Except Exn Repo} (h : ∀ r r', f r = .ok r' →
    (∀ id : String, r'.work[livePath id]? = r.work[livePath id]?) ∧ (r.Valid → r'.Valid)) :
    Still (K := K) (onRepo f) := by
  intro w w1 h1
  rw [Ends.onRepo_iff]
  refine ⟨fun repo hrepo => ?_, fun _ _ => h1⟩
  obtain ⟨hwork, hvalid⟩ := h _ _ hrepo
  exact ⟨h1.cards, h1.fts, fun id c hc => (hwork id).trans (h1.work id c hc), h1.journal,
    hvalid h1.valid⟩

theorem writeMessage_still {path : String} (hpath : OffCards path) (message : AiMessage)
    (links : List CardLink) : Still (writeMessage env path message links) :=
  onRepo_still fun r r' hr => by
    cases hr
    exact ⟨fun id => Map.get_insert_ne (hpath id).symm, fun hv => hv.of_eq rfl rfl⟩

theorem stagePath_still (path : String) : Still (K := K) (onRepo (·.stagePath path)) :=
  onRepo_still fun r r' hr => by
    refine ⟨fun id => ?_, fun hv => hv.stagePath hr⟩
    obtain ⟨bytes, -, rfl⟩ := Repo.stagePath_ok hr
    rfl

theorem removePath_still (path : String) : Still (K := K) (onRepo fun r => .ok (r.removePath path)) :=
  onRepo_still fun r r' hr => by
    cases hr
    exact ⟨fun _ => rfl, fun hv => hv.of_eq rfl rfl⟩

theorem eraseFile_still {path : String} (hpath : OffCards path) :
    Still (K := K) (onRepo fun r => .ok { r with work := r.work.erase path }) :=
  onRepo_still fun r r' hr => by
    cases hr
    exact ⟨fun id => Map.get_erase_ne (hpath id).symm, fun hv => hv.of_eq rfl rfl⟩

theorem renameFile_still {source target : String} (hsource : OffCards source)
    (htarget : OffCards target) : Still (K := K) (renameFile source target) := by
  intro w
  refine Keeps.get.bind fun w1 => ?_
  split
  · exact .throw _
  · refine onRepo_still (fun r r' hr => ?_) w
    cases hr
    refine ⟨fun id => ?_, fun hv => hv.of_eq rfl rfl⟩
    rw [Map.get_insert_ne (htarget id).symm, Map.get_erase_ne (hsource id).symm]

theorem removeFile_still {path : String} (hpath : OffCards path) :
    Still (K := K) (removeFile path) := by
  intro w
  refine Keeps.get.bind fun w1 => .ite ?_ (.pure _)
  exact (eraseFile_still hpath w).bind fun _ => (removePath_still path w).bind fun _ => .pure _

theorem deleteLinksFrom_still (projectId id : String) :
    Still (K := K) (onDb (LinkRepo.deleteLinksFrom projectId id)) := onDb_still fun db => by
  rw [LinkRepo.deleteLinksFrom, Ends.modify_iff]
  exact ⟨rfl, rfl⟩

theorem deleteLinksToTyped_still (projectId id toType : String) :
    Still (K := K) (onDb (LinkRepo.deleteLinksToTyped projectId id toType)) := onDb_still fun db => by
  rw [LinkRepo.deleteLinksToTyped, Ends.modify_iff]
  exact ⟨rfl, rfl⟩

theorem onWorld_still {w : World K} {m : StoreM K α} (h : Still m) :
    Keeps (fun s : Services K => SameIndex w s.world) (onWorld m) := onWorld_keeps (h w)

theorem moveMessage_still {w : World K} {source target : String} (hsource : OffCards source)
    (htarget : OffCards target) (message : AiMessage) (commitMessage : String) :
    Keeps (fun s : Services K => SameIndex w s.world)
      (moveMessage source target message commitMessage) :=
  (onWorld_still (renameFile_still hsource htarget)).bind fun _ =>
    Keeps.bind (fun _ hs => hs) fun _ => (onWorld_still (removePath_still _)).bind fun _ =>
    (onWorld_still (stagePath_still _)).bind fun _ => onWorld_still (CardStore.commit_still _)

/-- No message call touches a card. -/
theorem MessageCall.run_still (call : MessageCall) (w : World K) :
    Keeps (fun s : Services K => SameIndex w s.world) (call.run env) := by
  cases call with
  | append message =>
    refine (requireThread_keeps _).bind fun _ => Keeps.fromExcept_bind fun path hpath =>
      Keeps.get.bind fun _ => .ite (.throw _) ?_
    have hoff := offCards_message hpath
    refine (onWorld_still (writeMessage_still hoff _ _)).bind fun _ => Keeps.bind (fun s hs => ?_)
      fun _ => (onWorld_still (stagePath_still _)).bind fun _ => onWorld_still (CardStore.commit_still _)
    rw [Ends.tryCatch_iff]
    refine (insertRow_ends message s).mono ?_ ?_
    · rintro - s1 ⟨-, rfl⟩
      exact hs
    · rintro e s1 rfl
      exact (onWorld_still (eraseFile_still hoff)).bind (fun _ => .throw e) s1 hs
  | update message =>
    refine (requireThread_keeps _).bind fun _ => Keeps.bind (fun _ hs => hs) fun _ =>
      Keeps.fromExcept_bind fun path hpath => Keeps.get.bind fun _ => ?_
    exact (onWorld_still (writeMessage_still (offCards_message hpath) _ _)).bind fun _ =>
      (onWorld_still (stagePath_still _)).bind fun _ => onWorld_still (CardStore.commit_still _)
  | updateLinks id links =>
    refine (onWorld_still (CardStore.upsertLinks_still _ _ _)).bind fun _ =>
      (requireMessage_keeps _).bind fun _ => (requireThread_keeps _).bind fun _ =>
      Keeps.fromExcept_bind fun path hpath => Keeps.get.bind fun _ => .ite (.throw _) ?_
    exact Keeps.get.bind fun _ => (onWorld_still (writeMessage_still (offCards_message hpath) _ _)).bind
      fun _ => (onWorld_still (stagePath_still _)).bind fun _ => onWorld_still (CardStore.commit_still _)
  | trash id deletedAt =>
    refine (requireMessage_keeps _).bind fun _ => .ite (.throw _) ?_
    exact (requireThread_keeps _).bind fun _ => Keeps.fromExcept_bind fun path hpath =>
      Keeps.fromExcept_bind fun trashed htrashed =>
      moveMessage_still (offCards_message hpath) (offCards_messageTrash htrashed) _ _
  | restore id =>
    refine (requireMessage_keeps _).bind fun _ => .ite (.throw _) ?_
    exact (requireThread_keeps _).bind fun _ => Keeps.fromExcept_bind fun path hpath =>
      Keeps.fromExcept_bind fun trashed htrashed =>
      moveMessage_still (offCards_messageTrash htrashed) (offCards_message hpath) _ _
  | remove id =>
    refine Keeps.get.bind fun _ => Keeps.bind (fun _ hs => hs) fun _ => .ite ?_ (.pure _)
    refine (onWorld_still (deleteLinksFrom_still _ _)).bind fun _ =>
      (onWorld_still (deleteLinksToTyped_still _ _ _)).bind fun _ =>
      Keeps.fromExcept_bind fun path hpath => Keeps.fromExcept_bind fun trashed htrashed => ?_
    exact (onWorld_still (removeFile_still (offCards_message hpath))).bind fun _ =>
      (onWorld_still (removeFile_still (offCards_messageTrash htrashed))).bind fun _ =>
      .ite (onWorld_still (CardStore.commit_still _)) (.pure _)

end

/-! ## One call -/

section
variable {env : RebuildEnv K} {s : Services K} {rows rows' : ServiceRows} {aiFts : Map String AiFts}
  {id : String}

theorem MessagesIndexed.congr (h : MessagesIndexed env rows aiFts)
    (hmessages : rows'.messages = rows.messages) (hthreads : rows'.threads = rows.threads) :
    MessagesIndexed env rows' aiFts where
  keyed := by rw [hmessages]; exact h.keyed
  own := by rw [hmessages, hthreads]; exact h.own
  live := by rw [hmessages]; exact h.live
  only := by rw [hmessages]; exact h.only

theorem MessagesIndexed.trashed (h : MessagesIndexed env rows aiFts) {message : AiMessage}
    (hrow : rows.messages[id]? = some message) (hdel : message.deletedAt ≠ none) :
    aiFts[id]? = none := by
  cases hfts : aiFts[id]? with
  | none => rfl
  | some row =>
    obtain ⟨m, hm, hlive⟩ := h.only id row hfts
    rw [hrow] at hm
    cases hm
    exact absurd hlive hdel

/-- The columns that an update sets, in a project whose message keeps its content or is trashed. -/
theorem MessagesIndexed.update (h : MessagesIndexed env s.rows aiFts) {message : AiMessage}
    (hkeeps : ∀ row, s.rows.messages[message.messageId]? = some row → row.deletedAt = none →
      row.content = message.content)
    (hrows : rows = { s.rows with messages := match s.rows.messages[message.messageId]? with
      | some row => s.rows.messages.insert message.messageId (AiMessageRepo.AiMessage.updated row message)
      | none => s.rows.messages }) : MessagesIndexed env rows aiFts := by
  subst hrows
  cases hrow : s.rows.messages[message.messageId]? with
  | none => exact h.congr rfl rfl
  | some row =>
    have hkey := h.keyed _ _ hrow
    have hown := h.own _ _ hrow
    refine h.put (AiMessageRepo.AiMessage.updated row message) hkey hown rfl rfl
      (fun _ _ => rfl) (fun hlive => ?_) fun hdel => h.trashed hrow hdel
    rw [h.live _ _ hrow hlive, aiFtsRow, aiFtsRow, AiMessageRepo.AiMessage.updated,
      hkeeps row hrow hlive]

/-- A message call keeps its messages and `ai_fts` in step. -/
theorem MessageCall.run_messages (call : MessageCall) (h : MessagesIndexed env s.rows aiFts)
    (hcall : call.KeepsIndex env s) : Ends (call.run env.toServiceEnv) s
      (fun _ s' => MessagesIndexed env s'.rows (call.index env s.rows aiFts))
      fun _ s' => MessagesIndexed env s'.rows aiFts := by
  cases call with
  | append message =>
    refine (append_rows message s).mono ?_ ?_
    · rintro - s' ⟨hthread, hrows⟩
      exact h.put _ rfl hthread (by rw [hrows]) (by rw [hrows]) (fun id' hne => Map.get_insert_ne hne)
        (fun _ => by rw [MessageCall.index, Map.get_insert, if_pos rfl]) fun hdel => absurd hcall hdel
    · rintro - s' hrows
      rw [hrows]
      exact h
  | update message =>
    refine (update_rows message s).mono ?_ ?_
    · rintro - s' ⟨hthread, hrows⟩
      exact h.update (hcall hthread) hrows
    · rintro - s' (hrows | ⟨hthread, hrows⟩)
      · rw [hrows]
        exact h
      · exact h.update (hcall hthread) hrows
  | updateLinks id links =>
    refine (updateLinks_rows id links s.rows s rfl).mono ?_ ?_
    · rintro - s' hrows
      rw [hrows]
      exact h
    · rintro - s' hrows
      rw [hrows]
      exact h
  | trash id deletedAt =>
    refine (trash_rows id deletedAt s).mono ?_ ?_
    · rintro - s' ⟨message, hrow, hrows⟩
      have hkey := h.keyed _ _ hrow
      have hown := h.own _ _ hrow
      exact h.put { message with deletedAt := some deletedAt } hkey hown
        (by rw [hrows]) (by rw [hrows, hkey]) (fun id' hne => Map.get_erase_ne hne) nofun
        fun _ => by rw [MessageCall.index, Map.get_erase, if_pos rfl]
    · rintro - s' hrows
      rw [hrows]
      exact h
  | restore id =>
    refine (restore_rows id s).mono ?_ ?_
    · rintro - s' ⟨message, hrow, hrows⟩
      have hkey := h.keyed _ _ hrow
      have hown := h.own _ _ hrow
      have hindex : (MessageCall.restore id).index env s.rows aiFts =
          aiFts.insert id (aiFtsRow env message) := by
        rw [MessageCall.index, hrow, Option.elim_some]
      rw [hindex]
      exact h.put { message with deletedAt := none } hkey hown
        (by rw [hrows]) (by rw [hrows, hkey]) (fun id' hne => Map.get_insert_ne hne)
        (fun _ => by rw [Map.get_insert, if_pos rfl]; rfl) fun hdel => absurd rfl hdel
    · rintro - s' hrows
      rw [hrows]
      exact h
  | remove id =>
    have hgone : MessagesIndexed env { s.rows with messages := s.rows.messages.erase id } aiFts := by
      refine ⟨fun id' m hm => ?_, fun id' m hm => ?_, fun id' m hm => ?_, fun id' row hrow => ?_⟩
      · rw [Map.get_erase] at hm
        split at hm
        · cases hm
        · exact h.keyed id' m hm
      · rw [Map.get_erase] at hm
        split at hm
        · cases hm
        · exact h.own id' m hm
      · rw [Map.get_erase] at hm
        split at hm
        · cases hm
        · exact h.live id' m hm
      · obtain ⟨m, hm, hlive⟩ := h.only id' row hrow
        refine ⟨m, ?_, hlive⟩
        rw [Map.get_erase_ne]
        · exact hm
        · rintro rfl
          exact hcall m hm hlive
    refine (remove_rows id s).mono ?_ ?_
    · rintro - s' hrows
      rw [hrows]
      exact hgone
    · rintro - s' hrows
      rw [hrows]
      exact hgone

end

/-! ## A rebuild and a reindex -/

section
variable [NatCast K] {env : RebuildEnv K} {work : Tree} {messages : List MessageRecord}

/-- A rebuilt project whose tree the rebuild read. -/
theorem Rebuilt.indexed {rows : Map String AiMessage} {w : World K} {cards : List (CardRecord K)}
    {cardRows : Db K} (h : Rebuilt env.toEnv w.repo.work rows w.db cards cardRows messages)
    (hfts : env.fts = true) (hj : w.journal = none) (hv : w.repo.Valid) : Indexed env.toEnv w := by
  obtain ⟨links, hdb, -⟩ := h.links
  have hcards : ∀ (id : String) (c : Card K), w.db.cards[id]? = some c ↔
      ∃ record ∈ cards, record.card = c ∧ c.cardId = id := by
    rw [hdb]
    exact h.projected.rows.cards
  have hftsRows : ∀ (id : String) (row : CardFts), w.db.cardsFts[id]? = some row ↔
      env.fts = true ∧ ∃ r ∈ cards, r.card.deletedAt = none ∧ r.card.cardId = id ∧
        row = ⟨r.card.projectId, r.card.title, r.body⟩ := by
    rw [hdb]
    exact h.fts
  have hloaded := h.projected.files.loaded
  have hids := h.projected.insertable.compatible.ids
  refine ⟨⟨hj, hv, fun id c hc => ?_, fun id c hc => ?_⟩, fun id => ⟨fun c hc => ?_, fun c hc hlive => ?_,
    fun row hrow => ?_⟩⟩
  · obtain ⟨record, -, -, hid⟩ := (hcards id c).mp hc
    exact hid
  · obtain ⟨record, hr, rfl, -⟩ := (hcards id c).mp hc
    exact (hloaded record hr).project
  · obtain ⟨record, hr, rfl, rfl⟩ := (hcards id c).mp hc
    refine ⟨(hloaded record hr).length, (hloaded record hr).path, fun p hp => ?_⟩
    have hup : recordUp cards record.card.cardId = some (some p) :=
      (recordUp_eq_some hids).mpr ⟨record, hr, rfl, hp⟩
    obtain ⟨q, hq⟩ := ((h.projected.insertable.rooted _ _ hup).parent hup).node
    obtain ⟨parent, hparent, hpid, -⟩ := (recordUp_eq_some hids).mp hq
    exact ⟨parent.card, (hcards p _).mpr ⟨parent, hparent, rfl, hpid⟩⟩
  · obtain ⟨record, hr, rfl, rfl⟩ := (hcards id c).mp hc
    obtain ⟨raw, hraw, hload⟩ := ((h.projected.files.mem record).mp hr).at_path
    have hpath : cardPathOf record.card.deletedAt.isSome record.card.cardId =
        livePath record.card.cardId := by rw [hlive]; rfl
    rw [hpath] at hraw hload
    obtain ⟨plain, hplain, -, -, -, -, hrecord⟩ := loadCardFile_iff.mp hload
    refine ⟨raw, plain, hraw, hplain, (hftsRows _ _).mpr ⟨hfts, record, hr, hlive, rfl, ?_⟩⟩
    have hbody : (parseCardFile env.yaml plain).body = record.body := by rw [hrecord]; rfl
    rw [hbody]
  · obtain ⟨-, record, hr, hlive, hid, -⟩ := (hftsRows _ _).mp hrow
    exact ⟨record.card, (hcards _ _).mpr ⟨record, hr, rfl, hid⟩, hlive⟩

omit [NatCast K] in
/-- Every thread that is stored gets its row. -/
theorem rebuiltThreads_ok {threads : List String} {rows rows' : Map String String}
    (h : rebuiltThreads env threads rows = .ok rows') :
    ∀ threadId ∈ threads, rows'[threadId]? = some env.project.projectId := by
  have hstep : ∀ (threads : List String) (rows : Map String String),
      threads.foldlM (fun rows threadId =>
        if rows.contains threadId then throw (.runtimeError "insert ai thread failed")
        else return rows.insert threadId env.project.projectId) rows = (.ok rows' : Except Exn _) →
      (∀ threadId ∈ threads, rows'[threadId]? = some env.project.projectId) ∧
        ∀ (threadId projectId : String), rows[threadId]? = some projectId →
          rows'[threadId]? = some projectId := by
    intro threads
    induction threads with
    | nil =>
      intro rows h
      cases h
      exact ⟨nofun, fun _ _ h => h⟩
    | cons threadId threads ih =>
      intro rows h
      rw [List.foldlM_cons] at h
      split at h
      · cases h
      next hnew =>
      obtain ⟨hall, hkept⟩ := ih _ h
      refine ⟨fun id hid => ?_, fun id projectId hrow => hkept id projectId ?_⟩
      · rcases List.mem_cons.mp hid with rfl | hid
        · exact hkept id _ (by rw [Map.get_insert, if_pos rfl])
        · exact hall id hid
      · rw [Map.get_insert_ne]
        · exact hrow
        · rintro rfl
          exact hnew (Std.ExtTreeMap.contains_iff_mem.mpr (Map.mem_iff.mpr ⟨_, hrow⟩))
  exact (hstep threads _ h).1

/-- Every message that is read is of a thread that gets a row. -/
theorem rebuildThreads_ok {durable threads : List String}
    (h : rebuildThreads durable messages = .ok threads) :
    ∀ record ∈ messages, record.message.threadId ∈ threads := by
  intro record hr
  unfold rebuildThreads at h
  split at h
  · cases h
    exact List.mem_dedup.mpr (List.mem_map.mpr ⟨record, hr, rfl⟩)
  · split at h
    · cases h
    · next hfind =>
      cases h
      simpa using List.find?_eq_none.mp hfind record hr

theorem rebuildCardsAndMessages_threads {threads threads' : Map String String}
    {rebuilt : RebuiltMessages K} (hfiles : rebuildMessageFiles env.toEnv work = .ok messages)
    (h : rebuildCardsAndMessages env threads work = .ok (threads', rebuilt)) :
    ∀ record ∈ messages, threads'[record.message.threadId]? = some env.project.projectId := by
  obtain ⟨-, manifests, records, ids, -, -, -, hrecords, hids, -, hthreads⟩ :=
    rebuildCardsAndMessages_iff.mp h
  rw [hfiles] at hrecords
  cases hrecords
  exact fun record hr => rebuiltThreads_ok hthreads _ (rebuildThreads_ok hids record hr)

/-- The messages of a rebuild with their rows of `ai_fts`. -/
theorem Rebuilt.messagesIndexed {rows : ServiceRows} {db : Db K} {cards : List (CardRecord K)}
    {cardRows : Db K} (h : Rebuilt env.toEnv work rows.messages db cards cardRows messages)
    (hthreads : ∀ record ∈ messages,
      rows.threads[record.message.threadId]? = some env.project.projectId) (hfts : env.fts = true) :
    MessagesIndexed env rows (rebuiltAiFts env rows.messages) := by
  have hget : ∀ id : String, (rebuiltAiFts env rows.messages)[id]? =
      (rows.messages[id]?.filter fun message => message.deletedAt.isNone).map (aiFtsRow env) := by
    intro id
    rw [rebuiltAiFts, if_pos hfts, Map.get_map, Map.get_filter]
  refine ⟨fun id m hm => ?_, fun id m hm => ?_, fun id m hm hlive => ?_, fun id row hrow => ?_⟩
  · obtain ⟨record, -, hid, rfl⟩ := (h.messageRows id m).mp hm
    exact hid
  · obtain ⟨record, hr, -, rfl⟩ := (h.messageRows id m).mp hm
    exact hthreads record hr
  · rw [hget, hm]
    simp [hlive]
  · rw [hget, Option.map_eq_some_iff] at hrow
    obtain ⟨m, hm, -⟩ := hrow
    obtain ⟨hm, hlive⟩ := Option.filter_eq_some_iff.mp hm
    exact ⟨m, hm, Option.isNone_iff_eq_none.mp hlive⟩

theorem SearchState.rebuild_searchable (henv : env.toEnv.Lawful) (hfts : env.fts = true)
    {s : SearchState K} (hs : Searchable env s) :
    Ends (SearchState.rebuild env) s (fun _ => Searchable env) fun _ => Searchable env := by
  have hj := hs.cards.tidy.journal
  refine .intro (fun u s' hrun => ?_) fun e s' hrun => ?_
  · obtain ⟨-, -, -, hj', haiFts, htables⟩ := rebuild_ok hrun
    have hrepo := rebuild_settled hj hrun
    obtain ⟨cards, cardRows, messages, hrebuilt, hfiles⟩ := rebuildTables_ok henv.directory htables
    obtain ⟨stored, threads, rebuilt, -, hrest, he⟩ := rebuildTables_iff.mp htables
    have hrows : s'.services.rows = { stored with threads, messages := rebuilt.messages } :=
      congrArg Prod.fst he
    refine ⟨hrebuilt.indexed hfts hj' (by rw [hrepo]; exact hs.cards.tidy.valid), ?_⟩
    rw [haiFts]
    refine hrebuilt.messagesIndexed (fun record hr => ?_) hfts
    rw [hrows]
    exact rebuildCardsAndMessages_threads hfiles hrest record hr
  · unfold SearchState.rebuild at hrun
    rw [recoverySteps, hj] at hrun
    simp only [runSteps] at hrun
    split at hrun
    · cases hrun
      exact hs
    · cases hrun

/-- Nothing changes where no card has a body and no message is trashed. -/
theorem SearchState.reindex_searchable {s : SearchState K} (hs : Searchable env s)
    (hbody : ∀ (id : String) (row : CardFts), s.services.world.db.cardsFts[id]? = some row →
      row.body = "")
    (hlive : ∀ (id : String) (m : AiMessage), s.services.rows.messages[id]? = some m →
      m.deletedAt = none) : Searchable env s.reindex := by
  have hcards : reindexCards s.services.world.db.cards = s.services.world.db.cardsFts := by
    refine Map.ext fun id => ?_
    rw [reindexCards, Map.get_map, Map.get_filter]
    cases hrow : s.services.world.db.cardsFts[id]? with
    | none =>
      rw [Option.map_eq_none_iff, Option.filter_eq_none_iff]
      intro c hc hdel
      obtain ⟨raw, plain, -, -, hindexed⟩ := (hs.cards.cards id).live c hc (Card.live_iff.mp hdel)
      rw [hrow] at hindexed
      cases hindexed
    | some row =>
      obtain ⟨c, hc, hdel⟩ := (hs.cards.cards id).only row hrow
      obtain ⟨raw, plain, -, -, hindexed⟩ := (hs.cards.cards id).live c hc hdel
      rw [hrow, Option.some_inj] at hindexed
      have hempty := hbody id row hrow
      subst hindexed
      rw [hc, Option.filter_some, if_pos (Card.live_iff.mpr hdel), Option.map_some]
      rw [← hempty]
  have hmessages : reindexMessages s.services.rows = s.aiFts := by
    refine Map.ext fun id => ?_
    rw [reindexMessages, Std.ExtTreeMap.getElem?_filterMap']
    cases hm : s.services.rows.messages[id]? with
    | none =>
      cases hrow : s.aiFts[id]? with
      | none => rfl
      | some row =>
        obtain ⟨m, hm', -⟩ := hs.messages.only id row hrow
        rw [hm] at hm'
        cases hm'
    | some m =>
      rw [Option.bind_some, hs.messages.own id m hm, Option.map_some,
        hs.messages.live id m hm (hlive id m hm)]
      rfl
  have hsame : s.reindex = s := by
    rw [SearchState.reindex, hcards, hmessages]
  rw [hsame]
  exact hs

end

/-! ## Runs -/

section
variable [SortKey K] {env : RebuildEnv K} {s : SearchState K}

theorem SearchCall.run_searchable (henv : env.toEnv.Lawful) (hfts : env.fts = true)
    (call : SearchCall K) (hs : Searchable env s) (hcall : call.KeepsIndex env s) :
    Ends (call.run env) s (fun _ => Searchable env) fun _ => Searchable env := by
  cases call with
  | card call =>
    refine Ends.bind_iff.mpr (Ends.onServices_iff.mpr (Ends.onWorld_iff.mpr ?_))
    exact (call.run_indexed henv hfts hs.cards hcall).mono (fun _ _ h => ⟨h, hs.messages⟩)
      fun _ _ h => ⟨h, hs.messages⟩
  | message call =>
    have hcards : Ends (call.run env.toServiceEnv) s.services
        (fun _ s' => Indexed env.toEnv s'.world) fun _ s' => Indexed env.toEnv s'.world :=
      (call.run_still s.services.world s.services hs.cards.tidy.sameIndex).mono
        (fun _ _ h => hs.cards.same h) fun _ _ h => hs.cards.same h
    have hmessages := call.run_messages hs.messages hcall
    simp only [SearchCall.run, Ends.bind_iff (m := get), Ends.get_iff]
    rw [Ends.bind_iff, Ends.onServices_iff]
    refine .intro (fun u s' hrun => ?_) fun e s' hrun => ?_
    · rw [if_pos hfts, Ends.modify_iff]
      exact ⟨hcards.ok hrun, hmessages.ok hrun⟩
    · exact ⟨hcards.error hrun, hmessages.error hrun⟩
  | rebuild => exact SearchState.rebuild_searchable henv hfts hs
  | reindex =>
    rw [SearchCall.run, Ends.modify_iff]
    exact SearchState.reindex_searchable hs hcall.1 hcall.2

theorem SearchState.empty_searchable (threads : Map String String) :
    Searchable env (.empty threads) where
  cards := ⟨.empty _, fun id => ⟨by simp [SearchState.empty, World.empty, Db.empty],
    by simp [SearchState.empty, World.empty, Db.empty],
    by simp [SearchState.empty, World.empty, Db.empty]⟩⟩
  messages := ⟨by simp [SearchState.empty], by simp [SearchState.empty], by simp [SearchState.empty],
    by simp [SearchState.empty]⟩

theorem SearchCall.after_searchable (henv : env.toEnv.Lawful) (hfts : env.fts = true)
    (call : SearchCall K) (hs : Searchable env s) (hcall : call.KeepsIndex env s) :
    Searchable env (call.after env s) := by
  have hstep := call.run_searchable henv hfts hs hcall
  unfold SearchCall.after
  unfold Ends at hstep
  split at hstep
  · next hrun => rw [hrun]; exact hstep
  · next hrun => rw [hrun]; exact hstep

theorem runSearchCalls_searchable (henv : env.toEnv.Lawful) (hfts : env.fts = true)
    {calls : List (SearchCall K)} (hs : Searchable env s) (hcalls : EachKeepsIndex env s calls) :
    Searchable env (runSearchCalls env s calls) := by
  induction calls generalizing s with
  | nil => exact hs
  | cons call calls ih => exact ih (call.after_searchable henv hfts hs hcalls.1) hcalls.2

/-- In every state of a run whose calls all meet the condition, the index has one row for each live
card and each live message. -/
theorem runSearchCalls_index (henv : env.toEnv.Lawful) (hfts : env.fts = true)
    (threads : Map String String) {calls : List (SearchCall K)}
    (hcalls : EachKeepsIndex env (.empty threads) calls) :
    SearchIndex env (runSearchCalls env (.empty threads) calls) :=
  (runSearchCalls_searchable henv hfts (SearchState.empty_searchable threads) hcalls).index

end

theorem trashedAndRestored_index : SearchIndex plainRebuildEnv (runSearchCalls plainRebuildEnv
    (.empty (.ofList [("chat", "home")])) [.message (.append secretMessage),
      .message (.trash "face" 2), .rebuild, .message (.restore "face")]) :=
  runSearchCalls_index (plainEnv_lawful _) rfl _ ⟨rfl, trivial, trivial, trivial, trivial⟩

/-- An update leaves the old content in `ai_fts`. -/
theorem updated_stale : ¬ SearchIndex plainRebuildEnv (runSearchCalls plainRebuildEnv
    (.empty (.ofList [("chat", "home")])) [.message (.append secretMessage),
      .message (.update { secretMessage with content := "a question" })]) := by
  have hruns : ((runSearchCalls plainRebuildEnv (.empty (.ofList [("chat", "home")]))
      [.message (.append secretMessage),
        .message (.update { secretMessage with content := "a question" })]).services.rows.messages["face"]?.map
          fun m => (m.content, m.deletedAt)) = some ("a question", none) ∧
      ((runSearchCalls plainRebuildEnv (.empty (.ofList [("chat", "home")]))
        [.message (.append secretMessage),
          .message (.update { secretMessage with content := "a question" })]).aiFts["face"]?.map
            (·.content)) = some "a secret" := by decide +kernel
  intro h
  obtain ⟨m, hm, hfields⟩ := Option.map_eq_some_iff.mp hruns.1
  rw [Prod.mk.injEq] at hfields
  have hrow := h.message "face" m hm hfields.2
  rw [hrow, Option.map_some, aiFtsRow, hfields.1] at hruns
  exact absurd (Option.some_inj.mp hruns.2) (by simp)

end HolderCore
