import HolderCore.Ai.Messages
import HolderCore.Card.FileInvariants
import HolderCore.Card.MutationPlan
import HolderCore.Card.FileLemmas
import HolderCore.Resource.Store

/-! # Sealed projects

An encrypted project is sealed when every blob below its secret directories is an envelope of a text
that belongs there: in the working tree, in the index, in every commit and in a pending journal. -/

namespace HolderCore

/-- The directories of cards, resources and AI messages. -/
def secretPath (path : String) : Bool :=
  startsWith "cards/" path.toList || startsWith "trash/cards/" path.toList ||
    startsWith "resources/" path.toList || startsWith "ai_messages/" path.toList ||
    startsWith "trash/ai_messages/" path.toList

/-- The text that belongs at a path: the file of a card, the manifest of a resource or the file of a
message, each at its own path or, for a card and a message, below the trash. -/
def IntendedText (env : ServiceEnv K) (path : String) (plain : Bytes) : Prop :=
  CardText env.toEnv path plain ∨
    (∃ bundle : ResourceBundle, outOfTrash path = shardedPath "resources" bundle.resource.resourceId ".json" ∧
      renderResourceManifest env bundle = .ok plain) ∨
    ∃ (message : AiMessage) (links : List CardLink),
      outOfTrash path = shardedPath "ai_messages" message.messageId ".md" ∧
      plain = renderAiMessageFrontMatter env.yaml message env.project.projectId links ++
        message.content.toList

/-- The blob encodes the text that belongs at the path. -/
def SealedBlob (env : ServiceEnv K) (path : String) (bytes : Bytes) : Prop :=
  ∃ plain, IntendedText env path plain ∧ Encoded env.toEnv plain bytes

def SealedTree (env : ServiceEnv K) (tree : Tree) : Prop :=
  ∀ (path : String) (bytes : Bytes), secretPath path = true → tree[path]? = some bytes →
    SealedBlob env path bytes

structure SealedJournal (env : ServiceEnv K) (saved : Journal) : Prop where
  files : ∀ (path : String) (file : JournalFile) (bytes : Bytes), secretPath path = true →
    saved.files[path]? = some file → file.before = some bytes → SealedBlob env path bytes
  index : SealedTree env (saved.index.getD ∅)

structure Sealed (env : ServiceEnv K) (w : World K) : Prop where
  work : SealedTree env w.repo.work
  index : SealedTree env w.repo.staged
  commits : ∀ (oid : Nat) (c : Commit), w.repo.commits[oid]? = some c → SealedTree env c.tree
  journal : ∀ saved, w.journal = some saved → SealedJournal env saved

/-! ## Trees -/

section
variable {env : ServiceEnv K} {tree : Tree} {path : String} {bytes : Bytes}

theorem SealedTree.empty (env : ServiceEnv K) : SealedTree env ∅ := fun _ _ _ h => by simp at h

/-- A blob may be moved in and out of the trash. -/
theorem SealedBlob.move {target : String} (h : SealedBlob env path bytes)
    (hmove : outOfTrash path = outOfTrash target) : SealedBlob env target bytes := by
  obtain ⟨plain, htext, henc⟩ := h
  refine ⟨plain, ?_, henc⟩
  unfold IntendedText CardText at htext ⊢
  rwa [← hmove]

theorem SealedTree.insert (h : SealedTree env tree) (hb : secretPath path = true → SealedBlob env path bytes) :
    SealedTree env (tree.insert path bytes) := by
  intro p b hp hbp
  rw [Map.get_insert] at hbp
  split at hbp
  · next he =>
    subst he
    cases hbp
    exact hb hp
  · exact h p b hp hbp

theorem SealedTree.erase (h : SealedTree env tree) : SealedTree env (tree.erase path) := by
  intro p b hp hbp
  rw [Map.get_erase] at hbp
  split at hbp
  · cases hbp
  · exact h p b hp hbp

theorem SealedTree.put {value : Option Bytes} (h : SealedTree env tree)
    (hb : secretPath path = true → ∀ b, value = some b → SealedBlob env path b) :
    SealedTree env (tree.put path value) := by
  cases value with
  | none => exact h.erase
  | some b => exact h.insert fun hp => hb hp b rfl

theorem SealedTree.overlay {entries index : Tree} (h : SealedTree env entries)
    (hi : SealedTree env index) (paths : List String) : SealedTree env (overlay entries paths index) := by
  unfold HolderCore.overlay
  induction paths generalizing index with
  | nil => exact hi
  | cons path paths ih => exact ih (hi.put fun hp b hb => h path b hp hb)

end

/-! ## Steps of a card change -/

section
variable {env : ServiceEnv K} {w w' : World K}

/-- What a step writes is sealed. -/
def Step.WritesSealed (env : ServiceEnv K) : Step K → Prop
  | .writeJournal saved => SealedJournal env saved
  | .rename source target => secretPath source = true ∧ outOfTrash source = outOfTrash target
  | .writeFile path bytes => SealedBlob env path bytes
  | .restoreIndex index => SealedTree env (index.getD ∅)
  | .overlayIndex _ entries => SealedTree env entries
  | .restoreFile path bytes => secretPath path = true → ∀ b, bytes = some b → SealedBlob env path b
  | _ => True

theorem Sealed.treeAt (h : Sealed env w) (oid : Option Nat) : SealedTree env (w.repo.treeAt oid) := by
  unfold Repo.treeAt
  cases ho : oid.bind (w.repo.commits[·]?) with
  | none => exact .empty env
  | some c =>
    obtain ⟨i, -, hi⟩ := Option.bind_eq_some_iff.mp ho
    exact h.commits i c hi

theorem Sealed.stagePath (h : Sealed env w) {path : String} {r : Repo}
    (hr : w.repo.stagePath path = .ok r) : Sealed env { w with repo := r } := by
  obtain ⟨bytes, hb, rfl⟩ := Repo.stagePath_ok hr
  exact ⟨h.work, h.index.insert fun hp => h.work path bytes hp hb, h.commits, h.journal⟩

theorem Sealed.commit (h : Sealed env w) (message : String) :
    Sealed env { w with repo := w.repo.commit message } := by
  refine ⟨h.work, h.index, fun oid c hc => ?_, h.journal⟩
  change (w.repo.commits ++ _)[oid]? = some c at hc
  rw [List.getElem?_append] at hc
  split at hc
  · exact h.commits oid c hc
  · rw [List.getElem?_singleton] at hc
    split at hc
    · cases hc
      exact h.index
    · cases hc

theorem Step.exec_sealed {step : Step K} (hs : step.WritesSealed env) (h : Sealed env w)
    (he : step.exec env.toEnv w = .ok w') : Sealed env w' := by
  cases step with
  | writeTemporary => cases he; exact h
  | writeJournal saved =>
    cases he
    exact ⟨h.work, h.index, h.commits, fun s hsaved => by cases hsaved; exact hs⟩
  | resetIndex => cases he; exact ⟨h.work, h.treeAt _, h.commits, h.journal⟩
  | rename source target =>
    simp only [Step.exec] at he
    split at he
    · next bytes hb =>
      cases he
      exact ⟨h.work.erase.insert fun _ => (h.work source bytes hs.1 hb).move hs.2, h.index, h.commits,
        h.journal⟩
    · cases he
  | removePath path => cases he; exact ⟨h.work, h.index.erase, h.commits, h.journal⟩
  | writeFile path bytes =>
    cases he
    exact ⟨h.work.insert fun _ => hs, h.index, h.commits, h.journal⟩
  | stagePath path =>
    simp only [Step.exec, bind, Except.bind] at he
    split at he
    · cases he
    · next r hr =>
      cases he
      exact h.stagePath hr
  | assertStaged paths =>
    simp only [Step.exec, bind, Except.bind] at he
    split at he
    · cases he
    · cases he; exact h
  | commit message => cases he; exact h.commit message
  | restoreIndex index => cases he; exact ⟨h.work, hs, h.commits, h.journal⟩
  | overlayIndex paths entries =>
    cases he
    exact ⟨h.work, hs.overlay h.index paths, h.commits, h.journal⟩
  | commitTx db => cases he; exact ⟨h.work, h.index, h.commits, h.journal⟩
  | removeJournal => cases he; exact ⟨h.work, h.index, h.commits, by simp⟩
  | setReference name oid => cases he; exact ⟨h.work, h.index, h.commits, h.journal⟩
  | restoreFile path bytes => cases he; exact ⟨h.work.put hs, h.index, h.commits, h.journal⟩
  | raise e => cases he

theorem runSteps_sealed {steps : List (Step K)} (hs : ∀ step ∈ steps, step.WritesSealed env)
    (h : Sealed env w) : (∀ w', runSteps env.toEnv steps w = .ok w' → Sealed env w') ∧
      ∀ e w', runSteps env.toEnv steps w = .error (e, w') → Sealed env w' :=
  runSteps_invariant env.toEnv (fun step hmem _ _ hw he => Step.exec_sealed (hs step hmem) hw he) h

/-! ## Card changes -/

/-- The steps of a planned change are sealed. -/
structure SealedMutation (env : ServiceEnv K) (m : Mutation K) : Prop where
  saved : SealedJournal env m.saved
  renames : ∀ rename ∈ m.renames, secretPath rename.1 = true ∧ outOfTrash rename.1 = outOfTrash rename.2
  writes : ∀ write ∈ m.writes, SealedBlob env write.1 write.2

theorem restoreOriginalFiles_sealed {saved : Journal} (h : SealedJournal env saved) :
    ∀ step ∈ restoreOriginalFiles (K := K) saved, step.WritesSealed env := by
  intro step hstep
  obtain ⟨⟨path, file⟩, hmem, rfl⟩ := List.mem_map.mp hstep
  exact fun hp b hb => h.files path file b hp (Std.ExtTreeMap.mem_toList_iff_getElem?_eq_some.mp hmem) hb

theorem SealedMutation.editSteps {m : Mutation K} (hm : SealedMutation env m) :
    ∀ step ∈ m.editSteps, step.WritesSealed env := by
  intro step hstep
  simp only [Mutation.editSteps, List.mem_append, List.mem_cons, List.not_mem_nil, or_false,
    List.mem_flatMap] at hstep
  rcases hstep with ((((rfl | rfl | rfl) | ⟨r, hr, rfl | rfl⟩) | ⟨r, hr, rfl | rfl⟩) | rfl | rfl)
  · trivial
  · exact hm.saved
  · trivial
  · exact hm.renames r hr
  · trivial
  · exact hm.writes r hr
  · trivial
  · trivial
  · trivial

theorem SealedMutation.run {m : Mutation K} (hm : SealedMutation env m) (h : Sealed env w) :
    Ends (m.run env.toEnv none) w (fun _ => Sealed env) fun _ => Sealed env := by
  have hdone : ∀ {w1 : World K}, Sealed env w1 → Sealed env { w1 with journal := none } :=
    fun h1 => ⟨h1.work, h1.index, h1.commits, nofun⟩
  have hedit := runSteps_sealed hm.editSteps h
  have hsteps : (∀ w', runSteps env.toEnv (m.steps env.toEnv w) w = .ok w' → Sealed env w') ∧
      ∀ e w', runSteps env.toEnv (m.steps env.toEnv w) w = .error (e, w') → Sealed env w' := by
    unfold Mutation.steps
    rw [runSteps_expand_cons]
    cases h1 : runSteps env.toEnv m.editSteps w with
    | error failure =>
      refine ⟨nofun, fun e w' he => ?_⟩
      cases he
      exact hedit.2 _ _ h1
    | ok w1 =>
      change (∀ w', runSteps env.toEnv (expand env.toEnv _ w1) w1 = .ok w' → _) ∧
        ∀ e w', runSteps env.toEnv (expand env.toEnv _ w1) w1 = .error (e, w') → _
      have hw1 := hedit.1 _ h1
      refine runSteps_sealed (fun step hstep => ?_) hw1
      simp only [expand, Mutation.preserveUnrelatedIndex, List.mem_append, List.mem_cons,
        List.not_mem_nil, or_false] at hstep
      rcases hstep with (rfl | rfl) | hstep
      · exact hm.saved.index
      · exact hw1.index
      · split at hstep
        · split at hstep <;> simp at hstep <;> subst hstep <;> trivial
        · cases hstep
  refine .intro (fun _ w' hr => ?_) fun e w' hr => ?_ <;>
    simp only [Mutation.run, runFaulty] at hr
  · split at hr
    · next w1 h1 =>
      cases hr
      exact hdone (hsteps.1 _ h1)
    · split at hr <;> cases hr
  · split at hr
    · cases hr
    · next e1 w1 h1 =>
      have hback := @runSteps_sealed _ _ w1 (m.rollbackSteps w1) (fun step hstep => ?_)
        (hsteps.2 _ _ h1)
      · split at hr
        · next h2 =>
          cases hr
          exact hback.1 _ h2
        · next h2 =>
          cases hr
          exact hback.2 _ _ h2
      · simp only [Mutation.rollbackSteps, List.mem_append, List.mem_cons, List.not_mem_nil,
          or_false] at hstep
        rcases hstep with (hstep | hstep) | rfl | rfl
        · split at hstep
          · split at hstep
            · rw [List.mem_singleton] at hstep
              subst hstep
              trivial
            · cases hstep
          · cases hstep
        · exact restoreOriginalFiles_sealed hm.saved step hstep
        · exact hm.saved.index
        · trivial

end

end HolderCore
