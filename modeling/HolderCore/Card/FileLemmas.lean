import HolderCore.Card.StoreLemmas

/-! # Writing a card's file

A card's file can be encoded or not, whatever its text; once it is written it can be staged and
passes the check on staged blobs. -/

namespace HolderCore

/-- The key of an encrypted project is at hand. -/
def CanEncode (env : Env K) : Prop :=
  env.project.privacyMode = .encryptedGit → ∃ keyId key,
    requireProjectKeyId env.project = .ok keyId ∧
    env.privacy.loadKeyMaterial env.project.projectId keyId = .ok key

section
variable {env : Env K} {w : World K}

theorem encodeCardBlob_iff (plain : Bytes) (w : World K) :
    Ends (encodeCardBlob env plain) w
      (fun bytes w' => CanEncode env ∧ DrewIvs w w' ∧ Encoded env plain bytes)
      fun _ w' => ¬ CanEncode env ∧ w' = w := by
  unfold encodeCardBlob Encoded CanEncode
  cases hm : env.project.privacyMode with
  | plain => simpa using DrewIvs.refl w
  | encryptedGit =>
    simp only [↓reduceIte, Ends.bind_iff, Ends.fromExcept_iff, Ends.get_iff, Ends.set_iff,
      Ends.pure_iff, Privacy.encryptProjectBlob, forall_const]
    refine ⟨fun keyId hk => ⟨fun bytes hb => ?_, fun e he => ?_⟩, fun e he => ?_⟩
    · cases hkey : env.privacy.loadKeyMaterial env.project.projectId keyId with
      | error e => rw [hkey] at hb; cases hb
      | ok key =>
        refine ⟨⟨keyId, key, hk, hkey⟩, ⟨_, rfl⟩, keyId, w.ivs, hk, ?_⟩
        rw [hkey] at hb ⊢
        exact hb
    · refine ⟨?_, trivial⟩
      rintro ⟨keyId', key, hk', hkey⟩
      rw [hk] at hk'
      cases hk'
      rw [hkey] at he
      cases he
    · refine ⟨?_, trivial⟩
      rintro ⟨keyId', key, hk', hkey⟩
      rw [he] at hk'
      cases hk'

/-- The blobs of an encrypted project are envelopes. -/
theorem Encoded.envelope {plain bytes : Bytes} (h : Encoded env plain bytes)
    (hm : env.project.privacyMode = .encryptedGit) : startsWith envelopeMagic bytes = true := by
  unfold Encoded at h
  rw [hm] at h
  obtain ⟨keyId, iv, -, hb⟩ := h
  unfold Privacy.encryptProjectBlob at hb
  cases hk : env.privacy.loadKeyMaterial env.project.projectId keyId with
  | error e => rw [hk] at hb; cases hb
  | ok key =>
    rw [hk] at hb
    cases hb
    simp [startsWith]

theorem assertProjectStagedBlobsSafe_of {index : Tree} {paths : List String}
    (h : env.project.privacyMode = .encryptedGit → ∀ path ∈ paths, ∀ blob,
      index[path]? = some blob → startsWith envelopeMagic blob = true) :
    assertProjectStagedBlobsSafe env index paths = .ok () := by
  unfold assertProjectStagedBlobsSafe
  rw [if_neg]
  rintro ⟨hm, hne⟩
  rw [List.isEmpty_eq_false_iff, unsafePaths, ne_eq, List.filter_eq_nil_iff] at hne
  refine hne fun path hpath hbad => ?_
  simp only [Bool.and_eq_true, Option.any_eq_true, Bool.not_eq_true'] at hbad
  obtain ⟨-, blob, hblob, hno⟩ := hbad
  rw [h hm path hpath blob hblob] at hno
  cases hno

/-- A file written and staged. -/
def Wrote (env : Env K) (path : String) (plain : Bytes) (w w' : World K) : Prop :=
  ∃ bytes ivs, Encoded env plain bytes ∧ w' = { w with
    repo := { w.repo with
      work := w.repo.work.insert path bytes
      index := some (w.repo.staged.insert path bytes) }
    ivs }

namespace CardStore

/-- A file that was written can be staged. -/
theorem stageCardFile_ends {path : String} {plain bytes : Bytes} (h : Encoded env plain bytes)
    (hw : w.repo.work[path]? = some bytes) {Q : Unit → World K → Prop} {E : Exn → World K → Prop} :
    Ends (stageCardFile env path) w Q E ↔
      Q () { w with repo := { w.repo with index := some (w.repo.staged.insert path bytes) } } := by
  have hstage : w.repo.stagePath path =
      .ok { w.repo with index := some (w.repo.staged.insert path bytes) } := by
    simp [Repo.stagePath, hw]
  have hsafe : assertProjectStagedBlobsSafe env (w.repo.staged.insert path bytes) [path] = .ok () := by
    refine assertProjectStagedBlobsSafe_of fun hm p hp blob hblob => ?_
    rw [List.mem_singleton] at hp
    subst hp
    rw [Map.get_insert, if_pos rfl, Option.some.injEq] at hblob
    exact hblob ▸ h.envelope hm
  unfold stageCardFile assertStaged
  simp only [Ends.bind_iff, Ends.onRepo_iff, hstage, Except.ok.injEq, forall_eq', Ends.get_iff,
    Ends.fromExcept_iff, reduceCtorEq, false_imp_iff, implies_true, and_true]
  rw [show Repo.staged { w.repo with index := some (w.repo.staged.insert path bytes) } =
    w.repo.staged.insert path bytes from rfl, hsafe]
  exact ⟨fun h => h.1 () rfl, fun h => ⟨fun _ _ => h, by simp⟩⟩

theorem writeCardFile_ends (card : Card K) (links : List CardLink) (milestones : List Milestone)
    (content : String) :
    Ends (writeCardFile env card links milestones content) w
      (fun _ w' => CanEncode env ∧ ∃ bytes ivs,
        Encoded env (renderCardFrontMatter env.yaml card links milestones ++ content.toList) bytes ∧
        w' = { w with repo := w.repo.writeFile card.relPath bytes, ivs })
      fun _ w' => ¬ CanEncode env ∧ w' = w := by
  unfold writeCardFile
  refine (encodeCardBlob_iff _ w).bind ?_ fun _ _ h => h
  rintro bytes w1 ⟨hcan, ⟨ivs, rfl⟩, henc⟩
  simp only [Ends.onRepo_iff, Except.ok.injEq, forall_eq', reduceCtorEq, false_imp_iff, implies_true,
    and_true]
  exact ⟨hcan, bytes, ivs, henc, rfl⟩

theorem writeStaged_ends (card : Card K) (links : List CardLink) (milestones : List Milestone)
    (content : String) :
    Ends (do writeCardFile env card links milestones content; stageCardFile env card.relPath) w
      (fun _ w' => CanEncode env ∧ Wrote env card.relPath
        (renderCardFrontMatter env.yaml card links milestones ++ content.toList) w w')
      fun _ w' => ¬ CanEncode env ∧ w' = w := by
  refine (writeCardFile_ends card links milestones content).bind ?_ fun _ _ h => h
  rintro - w1 ⟨hcan, bytes, ivs, henc, rfl⟩
  rw [stageCardFile_ends henc (by simp [Repo.writeFile])]
  exact ⟨hcan, bytes, ivs, henc, rfl⟩

/-- The file is replaced and staged, or it had these bytes already. -/
theorem replaceCardFile_ends (card : Card K) (links : List CardLink) (milestones : List Milestone)
    (body : String) (raw : Bytes) :
    Ends (replaceCardFile env card links milestones body raw) w
      (fun changed w' => if changed then CanEncode env ∧ Wrote env card.relPath
          (renderCardFrontMatter env.yaml card links milestones ++ body.toList) w w'
        else DrewIvs w w' ∧
          Encoded env (renderCardFrontMatter env.yaml card links milestones ++ body.toList) raw)
      fun _ w' => ¬ CanEncode env ∧ w' = w := by
  unfold replaceCardFile
  refine (encodeCardBlob_iff _ w).bind ?_ fun _ _ h => h
  rintro bytes w1 ⟨hcan, ⟨ivs, rfl⟩, henc⟩
  simp only [Ends.ite_iff, Ends.pure_iff, Bool.false_eq_true, if_false]
  refine ⟨fun he => ⟨⟨ivs, rfl⟩, he ▸ henc⟩, fun _ => ?_⟩
  simp only [Ends.bind_iff, Ends.onRepo_iff, Except.ok.injEq, forall_eq', reduceCtorEq,
    false_imp_iff, implies_true, and_true]
  rw [stageCardFile_ends henc (by simp [Repo.writeFile]), Ends.pure_iff, if_pos rfl]
  exact ⟨hcan, bytes, ivs, henc, rfl⟩

end CardStore

end

end HolderCore
