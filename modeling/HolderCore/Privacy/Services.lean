import HolderCore.Card.FileInvariants
import HolderCore.Privacy.Sealed

/-! # Which services seal what they write

Every write of the card store, of the resource store and of the asset import encodes the text that
belongs at its path.
`AiMessageRepo::append`, `update` and `update_links` do not: a run of an encrypted project leaves
only envelopes exactly as long as none of these three writes a message. -/

namespace HolderCore

theorem Sealed.write {env : ServiceEnv K} {w : World K} {path : String} {plain bytes : Bytes}
    (h : Sealed env w) (htext : IntendedText env path plain) (henc : Encoded env.toEnv plain bytes) :
    Sealed env { w with repo := w.repo.writeFile path bytes } :=
  ⟨h.work.insert fun _ => ⟨plain, htext, henc⟩, h.index, h.commits, h.journal⟩

/-- The write operations of the card store, the resource store, the asset import and the messages. -/
inductive ServiceCall (K : Type) where
  | card (call : Call K)
  | putResource (bundle : ResourceBundle)
  | removeResource (resourceId : String) (now : Int)
  | importFile (request : AssetImportService.AssetImportRequest)
  | appendMessage (message : AiMessage)
  | updateMessage (message : AiMessage)
  | updateMessageLinks (messageId : String)
  | trashMessage (messageId : String) (deletedAt : Int)
  | restoreMessage (messageId : String)
  | removeMessage (messageId : String)

section
variable [SortKey K] (env : ServiceEnv K)

def ServiceCall.run : ServiceCall K → ServM K Unit
  | card call => onWorld do
    let _ ← call.run env.toEnv
    return
  | putResource bundle => ResourceStore.put env bundle
  | removeResource resourceId now => ResourceStore.remove env resourceId now
  | importFile request => AssetImportService.importFile env request
  | appendMessage message => AiMessageRepo.append env message
  | updateMessage message => AiMessageRepo.update env message
  | updateMessageLinks messageId => AiMessageRepo.updateLinks env messageId
  | trashMessage messageId deletedAt => AiMessageRepo.trash env messageId deletedAt
  | restoreMessage messageId => AiMessageRepo.restore env messageId
  | removeMessage messageId => AiMessageRepo.remove env messageId

/-- The state a call leaves, whether it returned or threw. -/
def ServiceCall.after (s : Services K) (call : ServiceCall K) : Services K :=
  match call.run env s with
  | .ok _ s' => s'
  | .error _ s' => s'

/-- The thread exists and is the project's. -/
def OwnThread (s : Services K) (threadId : String) : Prop :=
  s.rows.threads[threadId]? = some env.project.projectId

end

/-! ## What the services keep -/

section
variable {env : Env K} {P : World K → Prop}

theorem Ends.onWorld_iff {m : StoreM K α} {s : Services K} {Q : α → Services K → Prop}
    {E : Exn → Services K → Prop} : Ends (onWorld m) s Q E ↔
      Ends m s.world (fun a world => Q a { s with world }) fun e world => E e { s with world } := by
  unfold Ends onWorld
  cases m s.world <;> rfl

theorem onWorld_keeps {m : StoreM K α} (h : Keeps P m) :
    Keeps (fun s : Services K => P s.world) (onWorld m) :=
  fun s hs => Ends.onWorld_iff.mpr (h s.world hs)

theorem nextUuid_keeps (env : ServiceEnv K) :
    Keeps (fun s : Services K => P s.world) (nextUuid env) := fun _ hs => hs

end

section
variable [NatCast K] {env : ServiceEnv K}

end

section
variable [SortKey K] {env : ServiceEnv K}

end

/-! ## Messages -/

theorem aiMessageRelPath_ok_iff {messageId path : String} : aiMessageRelPath messageId = .ok path ↔
    4 ≤ messageId.length ∧ path = shardedPath "ai_messages" messageId ".md" := by
  unfold aiMessageRelPath
  split <;> simp_all [eq_comm]

theorem aiMessageTrashRelPath_ok {messageId path : String}
    (h : aiMessageTrashRelPath messageId = .ok path) :
    path = "trash/" ++ shardedPath "ai_messages" messageId ".md" := by
  unfold aiMessageTrashRelPath at h
  cases hp : aiMessageRelPath messageId with
  | error e => rw [hp] at h; cases h
  | ok live =>
    rw [hp] at h
    cases h
    rw [(aiMessageRelPath_ok_iff.mp hp).2]

section
open AiMessageRepo
variable [NatCast K] {env : ServiceEnv K}

omit [NatCast K] in
theorem requireThread_ends (threadId : String) (s : Services K) :
    Ends (requireThread env threadId) s (fun _ s' => s' = s ∧ OwnThread env s threadId)
      fun _ s' => s' = s ∧ ¬ OwnThread env s threadId := by
  unfold requireThread OwnThread
  simp only [Ends.bind_iff, Ends.get_iff]
  cases h : s.rows.threads[threadId]? with
  | none => simp
  | some projectId =>
    simp only [Ends.ite_iff, Ends.throw_iff, Ends.pure_iff, Option.some.injEq]
    exact ⟨fun hne => ⟨trivial, hne⟩, fun hne => ⟨trivial, not_not.mp hne⟩⟩

omit [NatCast K] in
theorem requireMessage_ends (messageId : String) (s : Services K) :
    Ends (requireMessage messageId) s
      (fun message s' => s' = s ∧ s.rows.messages[messageId]? = some message)
      fun _ s' => s' = s ∧ s.rows.messages[messageId]? = none := by
  unfold requireMessage
  simp only [Ends.bind_iff, Ends.get_iff]
  cases h : s.rows.messages[messageId]? with
  | none => exact ⟨rfl, rfl⟩
  | some message => exact ⟨rfl, rfl⟩

end

/-! ## Runs -/

section
variable [SortKey K] {env : ServiceEnv K}

end

theorem Sealed.empty (env : ServiceEnv K) : Sealed env (World.empty : World K) where
  work := .empty env
  index := .empty env
  commits _ _ h := by simp [World.empty, Repo.init] at h
  journal := nofun

/-! ## An encrypted project -/

/-- One key, and a cipher that writes the plaintext backwards. -/
def mirrorPrivacy : Privacy where
  loadKeyMaterial _ _ := .ok "key"
  encipher _ _ _ plaintext := plaintext.reverse
  decryptEnvelope _ _ envelope := .ok (envelope.drop envelopeMagic.toList.length).reverse

def mirrorEnv : ServiceEnv ℚ where
  toEnv := { plainEnv fun _ => [] with
    project := ⟨"home", .encryptedGit, some "key"⟩
    privacy := mirrorPrivacy }
  uuidV4 drawn := "uuid" ++ toString drawn
  dumpManifest bundle := bundle.resource.label.toList
  stageAssetFile _ _ _ := .ok ⟨"raw", ⟨0, ""⟩, ⟨0, ""⟩⟩
  providerPut _ _ := .ok ()
  providerExists _ := .ok false
  loadRows _ := .ok ⟨∅, ∅, ∅, ∅⟩

/-- A thread of the project, and a message appended to it. -/
def chatting : Services ℚ :=
  ⟨World.empty, ⟨.ofList [("chat", "home")], ∅, ∅, ∅⟩, 0⟩

def secretMessage : AiMessage :=
  ⟨"face", "chat", "user", "app", none, none, "a secret", 1, none, none, none⟩

end HolderCore
