import HolderCore.Resource.ImportFaults

/-! # Imports without faults

The import over the four stores takes the services as `import_file` over the services does. -/

namespace HolderCore.AssetImportService

section
variable {n : ServM K β} {l : β → ServM K δ} {m : ImportM K α} {k : α → ImportM K γ} {f : α → β}
  {g : γ → δ} {t t' : ImportState K}

/-- From `t` on, `m` answers and takes the services as `n` does. -/
def Follows (n : ServM K β) (m : ImportM K α) (f : α → β) (t : ImportState K) : Prop :=
  Ends m t (fun a t' => n t.services = .ok (f a) t'.services)
    fun e t' => n t.services = .error e.2 t'.services

theorem bind_eq_of_error {ε σ : Type} {m : EStateM ε σ α} {f : α → EStateM ε σ β} {s s' : σ} {e : ε}
    (h : m s = .error e s') : (m >>= f) s = .error e s' := by
  simp [bind, EStateM.bind, h]

theorem Follows.bind (hm : Follows n m f t)
    (hk : ∀ a t', m t = .ok a t' → n t.services = .ok (f a) t'.services →
      Follows (l (f a)) (k a) g t') : Follows (n >>= l) (m >>= k) g t := by
  unfold Follows at *
  rw [Ends.bind_iff]
  unfold Ends at hm ⊢
  cases hrun : m t with
  | ok a t' =>
    rw [hrun] at hm
    rw [bind_eq_of_ok hm]
    exact hk a t' hrun hm
  | error e t' =>
    rw [hrun] at hm
    exact bind_eq_of_error hm

/-- A step that leaves the services alone has no counterpart. -/
theorem Follows.silent {k : α → ImportM K γ} {h : γ → β} {a : α} (hm : m t = .ok a t')
    (hs : t'.services = t.services) (hk : Follows n (k a) h t') : Follows n (m >>= k) h t := by
  unfold Follows Ends at *
  rw [bind_eq_of_ok hm, ← hs]
  exact hk

/-- Nor has one at the end. -/
theorem Follows.andThen {k : α → ImportM K γ} {h : γ → β} (hm : Follows n m f t)
    (hk : ∀ a t', ∃ c t'', k a t' = .ok c t'' ∧ t''.services = t'.services ∧ h c = f a) :
    Follows n (m >>= k) h t := by
  unfold Follows at *
  rw [Ends.bind_iff]
  refine hm.mono (fun a t' hn => ?_) fun _ _ hn => hn
  obtain ⟨c, t'', hrun, hs, hc⟩ := hk a t'
  unfold Ends
  rw [hrun]
  dsimp only
  rw [hs, hc]
  exact hn

/-- A handler that throws again. -/
theorem Follows.tryCatch {handler : ImportStep × Exn → ImportM K α} (hm : Follows n m f t)
    (hhandler : ∀ e t', ∃ t'', handler e t' = .error e t'' ∧ t''.services = t'.services) :
    Follows n (tryCatch m handler) f t := by
  unfold Follows at *
  rw [Ends.tryCatch_iff]
  refine hm.mono (fun _ _ hn => hn) fun e t' hn => ?_
  obtain ⟨t'', hthrow, hs⟩ := hhandler e t'
  unfold Ends
  rw [hthrow]
  dsimp only
  rw [hs]
  exact hn

theorem Follows.step {faults : ImportFaults} {step : ImportStep} (hf : faults.thrown step = none)
    (n : ServM K α) : Follows n (importStep faults step n) id t := by
  unfold Follows Ends importStep
  rw [hf]
  dsimp only
  cases n t.services <;> rfl

theorem Follows.throw (e : Exn) (step : ImportStep) :
    Follows (throw e : ServM K β) (throw (step, e)) f t := rfl

theorem Follows.pure (a : α) : Follows (pure (f a) : ServM K β) (pure a) f t := rfl

theorem Follows.ite {c : Prop} [Decidable c] {n' : ServM K β} {m' : ImportM K α}
    (h : c → Follows n m f t) (h' : ¬ c → Follows n' m' f t) :
    Follows (if c then n else n') (if c then m else m') f t := by
  split
  · next hc => exact h hc
  · next hc => exact h' hc

theorem importStep_of_ok {faults : ImportFaults} (hf : ∀ step, faults.thrown step = none)
    {step : ImportStep} {n : ServM K α} {a : α} (services : Services K)
    (hn : n t.services = .ok a services) : importStep faults step n t = .ok a { t with services } := by
  unfold importStep
  rw [hf, hn]

theorem Follows.fails {faults : ImportFaults} (hf : ∀ step, faults.thrown step = none)
    {step : ImportStep} {n' : ServM K α} {k : α → ImportM K γ} {f : γ → β} {e : Exn}
    (services : Services K) (hn' : n' t.services = .error e services)
    (hn : n t.services = .error e services) :
    Follows n (importStep faults step n' >>= k) f t := by
  have hstep : importStep faults step n' t = .error (step, e) { t with services } := by
    unfold importStep
    rw [hf, hn']
  unfold Follows Ends
  rw [bind_eq_of_error hstep]
  exact hn

theorem Follows.get {l : Services K → ServM K β} (h : Follows (l t.services) m f t) :
    Follows (get >>= l) m f t := h

end

theorem onWorld_bind (m : StoreM K α) (k : α → StoreM K β) :
    onWorld (m >>= k) = onWorld m >>= fun a => onWorld (k a) := by
  funext s
  simp only [onWorld, bind, EStateM.bind]
  cases m s.world <;> rfl

section
variable {env : ImportEnv K} {faults : ImportFaults} {request : AssetImportRequest}
  {t : ImportState K}

/-- What fails of the statements has changed the rows only. -/
theorem storeRows_keeps (request : AssetImportRequest) (services : Services K) (bundle : Option ResourceBundle)
    (links : Option (List CardLink)) :
    Keeps (fun services' : Services K =>
      { services' with world.db := services.world.db, rows := services.rows } = services)
      (storeRows request bundle links) := by
  have hdb : ∀ {α : Type} (m : DbM K α), Keeps (fun services' : Services K =>
      { services' with world.db := services.world.db, rows := services.rows } = services)
      (onWorld (onDb m)) := by
    intro α m services' h
    unfold Ends onWorld onDb
    dsimp only
    cases m services'.world.db <;> exact h
  have hlinks : Keeps (fun services' : Services K =>
      { services' with world.db := services.world.db, rows := services.rows } = services)
      (storeRows request none links) := by
    cases links with
    | none => exact .pure _
    | some links => exact (hdb _).bind fun _ => hdb _
  cases bundle with
  | none => exact hlinks
  | some bundle =>
    refine Keeps.bind (fun services' h => ?_) fun _ => hlinks
    unfold storeBundle
    simp only [Ends.bind_iff, Ends.get_iff, Ends.set_iff, Ends.fromExcept_iff]
    exact ⟨fun _ _ => h, fun _ _ => h⟩

section
variable (hf : ∀ step, faults.thrown step = none)
include hf

theorem importStep_pure (step : ImportStep) (a : α) :
    importStep faults step (pure a) t = .ok a t := by
  unfold importStep
  rw [hf]
  rfl

theorem putObject_follows (objectKey : String) (staged : StagedAsset) (bytes : Bytes) :
    Follows (fromExcept (env.providerPut objectKey staged)) (putObject env faults objectKey staged bytes)
      id t := by
  unfold Follows Ends putObject ImportFaults.raise
  rw [hf]
  dsimp only [Option.elim_none]
  cases env.providerPut objectKey staged <;> rfl

theorem stageFile_follows (sourceFile resourceId assetId : String) :
    Follows (fromExcept (env.stageAssetFile sourceFile resourceId assetId))
      (stageFile env faults sourceFile resourceId assetId) id t := by
  unfold Follows Ends stageFile ImportFaults.raise
  rw [hf, hf]
  dsimp only [Option.elim_none]
  cases env.stageAssetFile sourceFile resourceId assetId <;> rfl

theorem storeObject_follows (location : Location) (resourceId assetId : String) (staged : StagedAsset)
    (bytes : Bytes) :
    Follows (storeNew env.toServiceEnv request location resourceId assetId staged)
      (storeObject env faults request location resourceId assetId staged bytes) id t := by
  unfold storeObject storeNew putEncoded writeAndStage
  simp only [onWorld_bind]
  refine (Follows.step (hf _) _).bind fun placementId t1 _ _ => ?_
  refine .silent rfl rfl ?_
  refine .silent (importStep_pure hf _ _) rfl ?_
  refine (putObject_follows hf _ _ _).bind fun _ t2 _ _ => ?_
  refine (Follows.step (hf _) _).bind fun known t3 _ _ => ?_
  refine .ite (fun _ => .throw _ _) fun _ => ?_
  refine .silent rfl rfl ?_
  refine (Follows.step (hf _) _).bind fun path t4 _ _ => ?_
  refine (Follows.step (hf _) _).bind fun plain t5 _ _ => ?_
  rw [bind_assoc]
  refine (Follows.step (hf _) _).bind fun blob t6 _ _ => ?_
  rw [bind_assoc]
  refine (Follows.step (hf _) _).bind fun _ t7 _ _ => ?_
  exact (Follows.step (hf _) _).bind fun _ t8 _ _ => .pure _

/-- A commit is behind the statements, or there are none. -/
theorem storeOrRebuild_follows [NatCast K] {bundle : Option ResourceBundle} {links : Option (List CardLink)}
    (hcommitted : t.gitCommitted = true ∨ bundle = none ∧ links = none) :
    Follows (orRebuild env.toServiceEnv (storeRows request bundle links))
      (storeOrRebuild env faults (storeRows request bundle links)) id t := by
  have hkeeps := storeRows_keeps request t.services bundle links t.services rfl
  unfold Follows storeOrRebuild orRebuild importStep
  unfold Ends at *
  simp only [hf]
  cases hrun : storeRows request bundle links t.services with
  | ok _ services => rfl
  | error e services =>
    rw [hrun] at hkeeps
    rcases hcommitted with hcommitted | ⟨rfl, rfl⟩
    · simp only [hcommitted, if_true, hkeeps]
      cases rebuildServices env.toServiceEnv t.services <;> rfl
    · cases hrun

theorem commitFiles_follows [NatCast K] {plan : ImportPlan K} {bundle : Option ResourceBundle}
    (hbundle : plan.duplicate.isSome → bundle = none) :
    Follows (do
      (if plan.linked then pure () else onWorld (writeAndStage (livePath plan.card.cardId) plan.cardBlob))
      onWorld (assertIndexPathsSafe env.toServiceEnv (changedPaths plan.resourceId
        (livePath plan.card.cardId) plan.duplicate.isNone plan.linked))
      (if plan.duplicate.isNone || !plan.linked then
        onWorld (CardStore.commit ("Attach " ++ filename request.sourceFile)) else pure ())
      orRebuild env.toServiceEnv (storeRows request bundle (if plan.linked then none else some plan.links)))
      (commitFiles env faults request plan bundle) id t := by
  unfold commitFiles writeAndStage
  simp only [onWorld_bind]
  refine .silent (importStep_pure hf _ _) rfl ?_
  refine Follows.bind (f := id) ?_ fun _ t1 _ _ => ?_
  · refine .ite (fun _ => rfl) fun _ => ?_
    exact (Follows.step (hf _) _).bind fun _ t1 _ _ => Follows.step (hf _) _
  refine (Follows.step (hf _) _).bind fun _ t2 _ _ => ?_
  split
  · rw [bind_assoc]
    refine (Follows.step (hf _) _).bind fun _ t3 _ _ => ?_
    exact .silent rfl rfl (storeOrRebuild_follows hf (.inl rfl))
  · next hnone =>
    simp only [Bool.or_eq_true, Option.isNone_iff_eq_none, Bool.not_eq_true', not_or,
      Bool.not_eq_false] at hnone
    obtain ⟨hdup, hlinked⟩ := hnone
    rw [pure_bind, pure_bind]
    exact storeOrRebuild_follows hf (.inr ⟨hbundle (Option.isSome_iff_ne_none.mpr hdup), if_pos hlinked⟩)


theorem tryImport_follows [NatCast K] {plan : ImportPlan K} (bytes : Bytes) :
    Follows (do
      let bundle ← (if plan.duplicate.isSome then pure none
        else some <$> storeNew env.toServiceEnv request plan.location plan.resourceId
          plan.provisionalAssetId plan.staged)
      (if plan.linked then pure () else onWorld (writeAndStage (livePath plan.card.cardId) plan.cardBlob))
      onWorld (assertIndexPathsSafe env.toServiceEnv (changedPaths plan.resourceId
        (livePath plan.card.cardId) plan.duplicate.isNone plan.linked))
      (if plan.duplicate.isNone || !plan.linked then
        onWorld (CardStore.commit ("Attach " ++ filename request.sourceFile)) else pure ())
      orRebuild env.toServiceEnv (storeRows request bundle (if plan.linked then none else some plan.links)))
      (tryImport env faults request bytes plan) id t := by
  unfold tryImport
  refine Follows.bind (f := id) (.ite (fun _ => rfl) fun _ => ?_) fun bundle t1 hm _ =>
    commitFiles_follows hf fun hdup => ?_
  · rw [map_eq_pure_bind, map_eq_pure_bind]
    exact (storeObject_follows hf _ _ _ _ _).bind fun _ _ _ _ => .pure _
  · rw [if_pos hdup] at hm
    cases hm
    rfl

end

theorem onWorld_updatedCardBlob [NatCast K] {card : Card K} {links : List CardLink} {raw : Bytes}
    {l : Bytes → ServM K β} :
    (do
      let plain ← fromExcept (decodeCardBlob env.toEnv raw)
      let blob ← onWorld (encodeCardBlob env.toEnv (renderCardFrontMatter env.yaml
        { card with updatedAt := request.now } links (parseCardFile env.yaml plain).milestones ++
          (parseCardFile env.yaml plain).body.toList))
      l blob) = onWorld (updatedCardBlob env request card links raw) >>= l := by
  unfold updatedCardBlob
  rw [onWorld_bind, bind_assoc]
  cases decodeCardBlob env.toEnv raw <;> rfl

theorem nextUuid_frame {env : ServiceEnv K} {s s' : Services K} {id : String}
    (h : nextUuid env s = .ok id s') : s'.rows = s.rows ∧ s'.world = s.world := by
  change EStateM.Result.ok _ _ = _ at h
  cases h
  exact ⟨rfl, rfl⟩

theorem fromExcept_eq_ok {x : Except Exn α} {a : α} {s s' : Services K}
    (h : fromExcept x s = .ok a s') : x = .ok a ∧ s' = s := by
  cases x <;> cases h
  exact ⟨rfl, rfl⟩

theorem removeStaging_run (faults : ImportFaults) (assetId : String) :
    ∃ t', removeStaging faults assetId t = .ok () t' ∧ t'.services = t.services := by
  refine ⟨_, rfl, ?_⟩
  split <;> rfl

theorem checkRequest_run [NatCast K] (s : Services K) : checkRequest env request s =
    if request.projectId ≠ env.project.projectId then
      .error (.runtimeError ("project not found: " ++ request.projectId)) s
    else match (CardRepo.get? s.world.db request.cardId).filter fun c =>
        c.projectId == request.projectId && c.live with
      | none => .error (.runtimeError "live card not found in project") s
      | some card => match s.rows.locations[request.locationId]?.filter
          (·.projectId == request.projectId) with
        | none => .error (.runtimeError "storage location not found in project") s
        | some location => .ok (card, location) s := by
  unfold checkRequest
  split
  · rfl
  simp only [bind, EStateM.bind, get, getThe, MonadStateOf.get, EStateM.get]
  cases (CardRepo.get? s.world.db request.cardId).filter fun c =>
      c.projectId == request.projectId && c.live with
  | none => rfl
  | some card =>
    dsimp only
    cases s.rows.locations[request.locationId]?.filter (·.projectId == request.projectId) <;> rfl

/-- Without faults, an import takes the project, the index and the rows as `importFile` does. -/
theorem importInto_follows [NatCast K] (hf : ∀ step, faults.thrown step = none) :
    Follows (importFile env.toServiceEnv request) (importInto env faults request) (fun _ => ()) t := by
  unfold importInto planImport importFile
  simp only [bind_assoc]
  refine .silent rfl rfl ?_
  generalize t.begun = u
  refine .silent rfl rfl ?_
  by_cases hproject : request.projectId ≠ env.project.projectId
  · rw [if_pos hproject]
    exact .fails hf u.services (by rw [checkRequest_run, if_pos hproject]) rfl
  rw [if_neg hproject]
  refine .get ?_
  cases hcard : (CardRepo.get? u.services.world.db request.cardId).filter fun c =>
      c.projectId == request.projectId && c.live with
  | none =>
    exact .fails hf u.services (by rw [checkRequest_run, if_neg hproject, hcard]) rfl
  | some card =>
  cases hlocation : u.services.rows.locations[request.locationId]?.filter
      (·.projectId == request.projectId) with
  | none =>
    exact .fails hf u.services (by rw [checkRequest_run, if_neg hproject, hcard]; simp only [hlocation]) rfl
  | some location =>
  have hcheck : checkRequest env request u.services = .ok (card, location) u.services := by
    rw [checkRequest_run, if_neg hproject, hcard]
    simp only [hlocation]
  refine .silent (importStep_of_ok hf u.services hcheck) rfl ?_
  refine .silent (importStep_pure hf _ _) rfl ?_
  refine (Follows.step (hf _) _).bind fun provisionalResourceId t1 _ h1 => ?_
  refine (Follows.step (hf _) _).bind fun provisionalAssetId t2 _ h2 => ?_
  refine .silent (importStep_pure hf _ _) rfl ?_
  refine (stageFile_follows hf _ _ _).bind fun staged t3 _ h3 => ?_
  -- Only the ids were drawn so far.
  obtain ⟨hrows1, hworld1⟩ := nextUuid_frame h1
  obtain ⟨hrows2, hworld2⟩ := nextUuid_frame h2
  obtain ⟨-, hs3⟩ := fromExcept_eq_ok h3
  have hrows : t3.services.rows = u.services.rows := by rw [hs3, hrows2, hrows1]
  have hdb : t3.services.world.db = u.services.world.db := by rw [hs3, hworld2, hworld1]
  refine .silent (importStep_of_ok hf t3.services rfl) rfl ?_
  refine .silent (importStep_of_ok hf t3.services rfl) rfl ?_
  simp only [hrows, hdb]
  refine (Follows.step (hf _) _).bind fun cardPath t4 _ h4 => ?_
  obtain ⟨hlen, rfl⟩ := cardRelPath_ok_iff.mp (fromExcept_eq_ok h4).1
  by_cases hpath : card.relPath ≠ livePath card.cardId
  · simp only [id, if_pos hpath, bind_assoc]
    obtain ⟨t5, hrun, hs⟩ := removeStaging_run (t := t4) faults provisionalAssetId
    exact .silent hrun hs rfl
  simp only [id, if_neg hpath, bind_assoc, pure_bind]
  refine .get ?_
  cases hraw : t4.services.world.repo.work[livePath card.cardId]? with
  | none =>
    refine .fails hf t4.services ?_ rfl
    simp only [bind, EStateM.bind, get, getThe, MonadStateOf.get, EStateM.get, hraw]
    rfl
  | some raw =>
  refine .silent (importStep_of_ok hf (a := raw) t4.services ?_) rfl ?_
  · simp only [bind, EStateM.bind, get, getThe, MonadStateOf.get, EStateM.get, hraw]
    rfl
  simp only [onWorld_updatedCardBlob]
  refine (Follows.step (hf _) _).bind fun cardBlob t6 _ _ => ?_
  refine .andThen (f := id) (.tryCatch (tryImport_follows hf _) fun e t' => ?_) fun _ t' => ?_
  · exact ⟨undone faults provisionalAssetId t', by rw [bind_eq_of_ok (undoImport_run _)]; rfl, rfl⟩
  · obtain ⟨t'', hrun, hs⟩ := removeStaging_run (t := t') faults provisionalAssetId
    exact ⟨_, t'', bind_eq_of_ok hrun, hs, rfl⟩

end

end HolderCore.AssetImportService
