import HolderCore.Ai.InStep
import HolderCore.Project.WholeRebuild

/-! # Resource calls that repair the index

A call on resources commits to Git first. When its statements fail after that, the database is rebuilt
from the files, without an indexer, and the call returns as if they had not. -/

namespace HolderCore

/-! ## A call up to its statements -/

namespace ResourceStore
section
variable [NatCast K] (env : ServiceEnv K)

/-- `put` up to its commit, with its statements. -/
def commitPut (bundle : ResourceBundle) : ServM K (ServM K Unit) := do
  requireProject env bundle.resource.projectId
  let path ← fromExcept (resourceRelPath bundle.resource.resourceId)
  let plain ← fromExcept (renderResourceManifest env bundle)
  onWorld (putEncoded env path plain)
  onWorld (assertIndexPathsSafe env [path])
  onWorld (CardStore.commit ("Update resource " ++ bundle.resource.label))
  return storeBundle bundle

theorem put_eq (bundle : ResourceBundle) : put env bundle = commitPut env bundle >>= orRebuild env := by
  unfold put commitPut
  simp only [bind_assoc, pure_bind]

/-- The statements of `remove`. -/
def removeRows (resourceId : String) (now : Int) (cards : List (Card K)) : ServM K Unit := do
  onWorld (onDb (LinkRepo.deleteLinksToTyped env.project.projectId resourceId "resource"))
  onWorld (onDb (touchAll now cards))
  modifyRows fun rows => { rows with resources := rows.resources.erase resourceId }

/-- `remove` up to its commit, with its statements. -/
def commitRemove (resourceId : String) (now : Int) : ServM K (ServM K Unit) := do
  let s ← get
  match ResourceRepo.getBundle s.rows resourceId with
  | none => throw (.runtimeError ("resource not found: " ++ resourceId))
  | some bundle =>
    requireProject env bundle.resource.projectId
    let path ← fromExcept (resourceRelPath resourceId)
    let cards := linkedCards s.world.db env.project.projectId resourceId
    let staged ← onWorld (cards.mapM (unlinkCard env resourceId now))
    onWorld (onRepo fun r => .ok { r with work := r.work.erase path })
    onWorld (onRepo fun r => .ok (r.removePath path))
    onWorld (assertIndexPathsSafe env staged)
    onWorld (CardStore.commit ("Remove resource " ++ bundle.resource.label))
    return removeRows env resourceId now cards

theorem remove_eq (resourceId : String) (now : Int) :
    remove env resourceId now = commitRemove env resourceId now >>= orRebuild env := by
  unfold remove commitRemove
  rw [bind_assoc]
  refine bind_congr fun s => ?_
  cases ResourceRepo.getBundle s.rows resourceId with
  | none => rfl
  | some bundle =>
    simp only [bind_assoc, pure_bind]
    rfl

end
end ResourceStore

namespace AssetImportService
section
variable [NatCast K] (env : ServiceEnv K)

/-- `import_file` up to its commit, with whether it made one and its statements. -/
def commitImport (request : AssetImportRequest) : ServM K (Bool × ServM K Unit) := do
  if request.projectId ≠ env.project.projectId then
    throw (.runtimeError ("project not found: " ++ request.projectId))
  let s ← get
  let some card := (CardRepo.get? s.world.db request.cardId).filter fun c =>
      c.projectId == request.projectId && c.live
    | throw (.runtimeError "live card not found in project")
  let some location := s.rows.locations[request.locationId]?.filter (·.projectId == request.projectId)
    | throw (.runtimeError "storage location not found in project")
  let provisionalResourceId ← nextUuid env
  let provisionalAssetId ← nextUuid env
  let staged ← fromExcept
    (env.stageAssetFile request.sourceFile provisionalResourceId provisionalAssetId)
  let duplicate := ResourceRepo.findByAssetHash s.rows request.projectId staged.plaintext.sha256
  let resourceId := duplicate.elim provisionalResourceId (·.resource.resourceId)
  let old := LinkRepo.listOutgoing s.world.db request.projectId request.cardId
  let linked := hasResourceLink old resourceId
  let links := if linked then old else old ++ [attachmentLink request resourceId]
  let cardPath ← fromExcept (cardRelPath card.cardId)
  if card.relPath ≠ cardPath then throw relPathMismatch
  let some raw := (← get).world.repo.work[cardPath]? | throw (readFailed cardPath)
  let parsed := parseCardFile env.yaml (← fromExcept (decodeCardBlob env.toEnv raw))
  let cardBlob ← onWorld (encodeCardBlob env.toEnv (renderCardFrontMatter env.yaml
    { card with updatedAt := request.now } links parsed.milestones ++ parsed.body.toList))
  let bundle ← (if duplicate.isSome then pure none
    else some <$> storeNew env request location resourceId provisionalAssetId staged)
  (if linked then pure () else onWorld (writeAndStage cardPath cardBlob))
  onWorld (assertIndexPathsSafe env (changedPaths resourceId cardPath duplicate.isNone linked))
  let committed := duplicate.isNone || !linked
  (if committed then onWorld (CardStore.commit ("Attach " ++ filename request.sourceFile))
    else pure ())
  return (committed, storeRows request bundle (if linked then none else some links))

theorem importFile_eq (request : AssetImportRequest) : importFile env request =
    commitImport env request >>= fun (_, statements) => orRebuild env statements := by
  unfold importFile commitImport
  by_cases hproject : request.projectId ≠ env.project.projectId
  · rw [if_pos hproject, if_pos hproject]
    rfl
  · rw [if_neg hproject, if_neg hproject, bind_assoc]
    refine bind_congr fun s => ?_
    cases (CardRepo.get? s.world.db request.cardId).filter fun c =>
        c.projectId == request.projectId && c.live with
    | none => rfl
    | some card =>
      cases s.rows.locations[request.locationId]?.filter (·.projectId == request.projectId) with
      | none => rfl
      | some location =>
        simp only [bind_assoc]
        refine bind_congr fun _ => bind_congr fun _ => bind_congr fun _ => bind_congr fun path => ?_
        by_cases hpath : card.relPath ≠ path
        · rw [if_pos hpath, if_pos hpath]
          rfl
        · rw [if_neg hpath, if_neg hpath, bind_assoc]
          refine bind_congr fun s1 => ?_
          cases s1.world.repo.work[path]? with
          | none => rfl
          | some raw => simp only [bind_assoc, pure_bind]

end
end AssetImportService

/-! ## The calls -/

inductive ResourceCall where
  | put (bundle : ResourceBundle)
  | remove (resourceId : String) (now : Int)
  | importFile (request : AssetImportService.AssetImportRequest)

section
variable [NatCast K] (env : RebuildEnv K)

/-- A call up to its commit, with whether it made one and its statements. -/
def ResourceCall.commit : ResourceCall → ServM K (Bool × ServM K Unit)
  | put bundle => return (true, ← ResourceStore.commitPut env.toServiceEnv bundle)
  | remove resourceId now => return (true, ← ResourceStore.commitRemove env.toServiceEnv resourceId now)
  | importFile request => AssetImportService.commitImport env.toServiceEnv request

/-- The statements in a transaction, which SQLite may fail for reasons of its own. -/
def inTransaction (fault : Option Exn) (statements : ServM K Unit) : ServM K Unit := fun s =>
  match fault with
  | none => statements s
  | some e => .error e s

/-- A call with the rebuild of a database whose statements failed after the commit. -/
def ResourceCall.run (fault : Option Exn) (call : ResourceCall) : SearchM K Unit := fun s =>
  match call.commit env s.services with
  | .error e services => .error e { s with services }
  | .ok (committed, statements) services =>
    match inTransaction fault statements services with
    | .ok _ services => .ok () { s with services }
    | .error e _ =>
      if committed then SearchState.rebuild { env with fts := false } { s with services }
      else .error e { s with services }

/-- The statements of a call fail after its commit. -/
def ResourceCall.FailsAfterCommit (fault : Option Exn) (call : ResourceCall) (s : SearchState K) : Prop :=
  ∃ statements services e failed, call.commit env s.services = .ok (true, statements) services ∧
    inTransaction fault statements services = .error e failed

end

/-- A row for every live card and one for every live message. -/
structure SearchKept (s : SearchState K) : Prop where
  cards : ∀ (id : String) (card : Card K), s.services.world.db.cards[id]? = some card →
    card.deletedAt = none → (s.services.world.db.cardsFts[id]?).isSome
  messages : ∀ (id : String) (message : AiMessage), s.services.rows.messages[id]? = some message →
    message.deletedAt = none → (s.aiFts[id]?).isSome

/-- A file that the rebuild reads as a live card or as a live message. -/
def LiveFile (path : String) : Prop := CardFile false path ∨ MessageFile false path

section
variable [NatCast K] {env : RebuildEnv K} {s s' : SearchState K}

/-! ## A rebuild without an indexer -/

/-- It leaves no row of either index, so that they are complete only where there is nothing to find. -/
theorem rebuild_bare (hdir : ∀ paths, (env.directoryOrder paths).Perm paths) (hfts : env.fts = false)
    (h : SearchState.rebuild env s = .ok () s') :
    SearchKept s' ↔ ∀ path, LiveFile path → path ∉ s'.services.world.repo.work := by
  obtain ⟨world, -, -, -, haifts, htables⟩ := rebuild_ok h
  obtain ⟨cards, cardRows, messages, hrebuilt, hrecords⟩ := rebuildTables_ok hdir htables
  obtain ⟨links, hdb, -⟩ := hrebuilt.links
  have hcards : s'.services.world.db.cards = cardRows.cards := by rw [hdb]
  have hcardsFts : ∀ id : String, s'.services.world.db.cardsFts[id]? = none := by
    intro id
    rw [hdb]
    by_contra hne
    obtain ⟨row, hrow⟩ := Option.ne_none_iff_exists'.mp hne
    have := ((hrebuilt.fts id row).mp hrow).1
    rw [hfts] at this
    cases this
  have haiFts : ∀ id : String, s'.aiFts[id]? = none := by
    intro id
    rw [haifts, rebuiltAiFts, hfts]
    exact Std.ExtTreeMap.getElem?_empty
  constructor
  · intro hkept path hlive hmem
    obtain ⟨raw, hraw⟩ := Map.mem_iff.mp hmem
    obtain hcard | hmessage := hlive
    · obtain ⟨record, hload⟩ := hrebuilt.projected.files.allLoad path false raw hcard hraw
      have hr := (hrebuilt.projected.files.mem record).mpr ⟨path, false, raw, hcard, hraw, hload⟩
      have hrow := (hrebuilt.projected.rows.cards _ _).mpr ⟨record, hr, rfl, rfl⟩
      have hlive : record.card.deletedAt = none := by
        simpa using (loadCardFile_ok hload).2.2.2
      have hkeptRow := hkept.cards _ _ (hcards ▸ hrow) hlive
      rw [hcardsFts] at hkeptRow
      cases hkeptRow
    · obtain ⟨record, hload⟩ := messageFile_loads hdir hrecords hmessage hraw
      have hr := (hrebuilt.files record).mpr ⟨path, false, raw, hmessage, hraw, hload⟩
      have hrow := (hrebuilt.messageRows _ _).mpr ⟨record, hr, rfl, rfl⟩
      have hlive : record.message.deletedAt = none := by
        simpa using rebuildMessageFile_place hload
      have hkeptRow := hkept.messages _ _ hrow hlive
      rw [haiFts] at hkeptRow
      cases hkeptRow
  · intro hnone
    refine ⟨fun id card hrow hlive => ?_, fun id message hrow hlive => ?_⟩
    · rw [hcards] at hrow
      obtain ⟨record, hr, rfl, -⟩ := (hrebuilt.projected.rows.cards id card).mp hrow
      obtain ⟨path, isTrash, raw, hfile, hraw, hload⟩ := (hrebuilt.projected.files.mem record).mp hr
      have hplace := (loadCardFile_ok hload).2.2.2
      rw [hlive] at hplace
      subst hplace
      exact absurd (Map.mem_iff.mpr ⟨raw, hraw⟩) (hnone path (.inl hfile))
    · obtain ⟨record, hr, -, rfl⟩ := (hrebuilt.messageRows id message).mp hrow
      obtain ⟨path, isTrash, raw, hfile, hraw, hload⟩ := (hrebuilt.files record).mp hr
      have hplace := rebuildMessageFile_place hload
      rw [hlive] at hplace
      subst hplace
      exact absurd (Map.mem_iff.mpr ⟨raw, hraw⟩) (hnone path (.inr hfile))

/-! ## The files that a commit leaves -/

/-- The same live files, and the same journal. -/
structure SameFiles (w0 w : World K) : Prop where
  journal : w.journal = w0.journal
  live : ∀ path, LiveFile path → (path ∈ w.repo.work ↔ path ∈ w0.repo.work)

theorem resourceFile_not_live {id path : String} (h : resourceRelPath id = .ok path) :
    ¬ LiveFile path := by
  unfold resourceRelPath at h
  split at h
  · cases h
  cases h
  rintro (⟨h, -⟩ | ⟨h, -⟩) <;> simp [startsWith, shardedPath] at h

section
variable {w0 : World K} {P : World K → Prop}

omit [NatCast K] in
theorem onRepo_same {f : Repo → Except Exn Repo}
    (h : ∀ r r', f r = .ok r' → ∀ path, LiveFile path → (path ∈ r'.work ↔ path ∈ r.work)) :
    Keeps (SameFiles w0) (onRepo (K := K) f) := by
  intro w hw
  rw [Ends.onRepo_iff]
  exact ⟨fun r hr => ⟨hw.journal, fun path hlive => (h _ _ hr path hlive).trans (hw.live path hlive)⟩,
    fun _ _ => hw⟩

omit [NatCast K] in
theorem stage_same (path : String) : Keeps (SameFiles w0) (onRepo (K := K) (·.stagePath path)) :=
  onRepo_same fun r r' hr p _ => by
    obtain ⟨bytes, -, rfl⟩ := Repo.stagePath_ok hr
    rfl

omit [NatCast K] in
theorem writeAndStage_same {path : String} (hpath : LiveFile path → path ∈ w0.repo.work)
    (bytes : Bytes) : Keeps (SameFiles (K := K) w0) (writeAndStage path bytes) := by
  unfold writeAndStage
  refine Keeps.bind (fun w hw => ?_) fun _ => stage_same path
  rw [Ends.onRepo_iff]
  refine ⟨fun r hr => ?_, fun _ _ => hw⟩
  cases hr
  refine ⟨hw.journal, fun p hlive => ?_⟩
  rw [Repo.writeFile_work, Std.ExtTreeMap.mem_insert, ← hw.live p hlive, or_iff_right_iff_imp]
  intro he
  have he' : path = p := by simpa using he
  rw [← he'] at hlive ⊢
  exact (hw.live path hlive).mpr (hpath hlive)

omit [NatCast K] in
theorem encode_same (plain : Bytes) : Keeps (SameFiles w0) (encodeCardBlob env.toEnv plain) := by
  intro w hw
  refine (encodeCardBlob_ends plain w).mono ?_ ?_
  · rintro bytes w' ⟨⟨n, rfl⟩, -⟩
    exact ⟨hw.journal, hw.live⟩
  · rintro - w' rfl
    exact hw

omit [NatCast K] in
/-- A file that is there is written, or one that is no live file. -/
theorem putEncoded_same {path : String} (hpath : LiveFile path → path ∈ w0.repo.work) (plain : Bytes) :
    Keeps (SameFiles w0) (putEncoded env.toServiceEnv path plain) := by
  unfold putEncoded
  exact (encode_same plain).bind fun bytes => writeAndStage_same hpath bytes

omit [NatCast K] in
theorem gitCommit_same (message : String) : Keeps (SameFiles (K := K) w0) (CardStore.commit message) :=
  onRepo_same fun r r' hr _ _ => by
    cases hr
    rfl

omit [NatCast K] in
theorem assertIndexPathsSafe_same (paths : List String) :
    Keeps (SameFiles w0) (assertIndexPathsSafe env.toServiceEnv paths) :=
  Keeps.get.bind fun _ => .fromExcept _

theorem unlinkCard_same (resourceId : String) (now : Int) (card : Card K) :
    Keeps (SameFiles w0) (ResourceStore.unlinkCard env.toServiceEnv resourceId now card) := by
  unfold ResourceStore.unlinkCard
  refine (Keeps.fromExcept _).bind fun path => .ite (.throw _) fun w hw => ?_
  simp only [Ends.bind_iff (m := get), Ends.get_iff]
  split
  · exact hw
  · next raw hraw =>
    have hthere : LiveFile path → path ∈ w0.repo.work := fun hlive =>
      (hw.live path hlive).mp (Map.mem_iff.mpr ⟨raw, hraw⟩)
    exact ((Keeps.fromExcept _).bind fun _ => (putEncoded_same hthere _).bind fun _ => .pure _) w hw

omit [NatCast K] in
theorem storeNew_same (request : AssetImportService.AssetImportRequest) (location : Location)
    (resourceId assetId : String) (staged : StagedAsset) :
    Keeps (fun s : Services K => SameFiles w0 s.world)
      (AssetImportService.storeNew env.toServiceEnv request location resourceId assetId staged) := by
  unfold AssetImportService.storeNew
  refine (nextUuid_keeps env.toServiceEnv).bind fun _ => (Keeps.fromExcept _).bind fun _ =>
    (Keeps.fromExcept _).bind fun _ => .ite (.throw _) (Keeps.fromExcept_bind fun path hpath => ?_)
  have hoff : LiveFile path → path ∈ w0.repo.work := fun h => absurd h (resourceFile_not_live hpath)
  exact (Keeps.fromExcept _).bind fun _ => (onWorld_keeps (putEncoded_same hoff _)).bind fun _ => .pure _

theorem commitImport_same (request : AssetImportService.AssetImportRequest) :
    Keeps (fun s : Services K => SameFiles w0 s.world)
      (AssetImportService.commitImport env.toServiceEnv request) := by
  unfold AssetImportService.commitImport
  refine .ite (.throw _) (Keeps.get.bind fun s => ?_)
  split
  · split
    · refine (nextUuid_keeps env.toServiceEnv).bind fun _ => (nextUuid_keeps env.toServiceEnv).bind
        fun _ => (Keeps.fromExcept _).bind fun staged => (Keeps.fromExcept _).bind fun cardPath =>
        .ite (.throw _) fun s1 hs1 => ?_
      simp only [Ends.bind_iff (m := get), Ends.get_iff]
      split
      · next raw hraw =>
        have hthere : LiveFile cardPath → cardPath ∈ w0.repo.work := fun hlive =>
          (hs1.live cardPath hlive).mp (Map.mem_iff.mpr ⟨raw, hraw⟩)
        refine ((Keeps.fromExcept _).bind fun _ => (onWorld_keeps (encode_same _)).bind fun blob => ?_)
          s1 hs1
        refine Keeps.bind (.ite (.pure _) ((storeNew_same _ _ _ _ _).bind fun _ => .pure _)) fun bundle =>
          (Keeps.ite (.pure _) (onWorld_keeps (writeAndStage_same hthere blob))).bind fun _ =>
          (onWorld_keeps (assertIndexPathsSafe_same _)).bind fun _ =>
          (Keeps.ite (onWorld_keeps (gitCommit_same _)) (.pure _)).bind fun _ => .pure _
      · exact hs1
    · exact .throw _
  · exact .throw _

variable (env) in
theorem ResourceCall.commit_same (call : ResourceCall) :
    Keeps (fun s : Services K => SameFiles w0 s.world) (call.commit env) := by
  cases call with
  | put bundle =>
    refine Keeps.bind ?_ fun _ => .pure _
    refine Keeps.bind (.ite (.throw _) (.pure _)) fun _ => Keeps.fromExcept_bind fun path hpath =>
      (Keeps.fromExcept _).bind fun plain => ?_
    have hoff : LiveFile path → path ∈ w0.repo.work := fun h => absurd h (resourceFile_not_live hpath)
    exact (onWorld_keeps (putEncoded_same hoff plain)).bind fun _ =>
      (onWorld_keeps (assertIndexPathsSafe_same _)).bind fun _ => (onWorld_keeps (gitCommit_same _)).bind
      fun _ => .pure _
  | remove resourceId now =>
    refine Keeps.bind (Keeps.get.bind fun s => ?_) fun _ => .pure _
    split
    · exact .throw _
    · refine Keeps.bind (.ite (.throw _) (.pure _)) fun _ => Keeps.fromExcept_bind fun path hpath =>
        (onWorld_keeps (CardStore.mapM_keeps (unlinkCard_same resourceId now) _)).bind fun staged => ?_
      refine (onWorld_keeps (onRepo_same fun r r' hr p hlive => ?_)).bind fun _ =>
        (onWorld_keeps (onRepo_same fun r r' hr p _ => ?_)).bind fun _ =>
        (onWorld_keeps (assertIndexPathsSafe_same _)).bind fun _ => (onWorld_keeps (gitCommit_same _)).bind
        fun _ => .pure _
      · cases hr
        have hne : path ≠ p := fun he => resourceFile_not_live hpath (he ▸ hlive)
        simp [Std.ExtTreeMap.mem_erase, hne]
      · cases hr
        rfl
  | importFile request => exact commitImport_same request

end

/-! ## What a repaired call leaves -/

/-- A call that returns after its statements failed keeps the index complete exactly where the project
has no live card and no live message file: in the tree that was rebuilt, and, unless a card change was
interrupted, in the tree that the call found. -/
theorem repaired_search_iff (hdir : ∀ paths, (env.directoryOrder paths).Perm paths)
    {fault : Option Exn} {call : ResourceCall} (hfail : call.FailsAfterCommit env fault s)
    (h : call.run env fault s = .ok () s') :
    (SearchKept s' ↔ ∀ path, LiveFile path → path ∉ s'.services.world.repo.work) ∧
      (s.services.world.journal = none →
        (SearchKept s' ↔ ∀ path, LiveFile path → path ∉ s.services.world.repo.work)) := by
  obtain ⟨statements, services, e, failed, hcommit, hstatements⟩ := hfail
  have hsame : SameFiles s.services.world services.world :=
    (ResourceCall.commit_same env call s.services ⟨rfl, fun _ _ => Iff.rfl⟩).ok hcommit
  have hrebuild : SearchState.rebuild { env with fts := false } { s with services } = .ok () s' := by
    unfold ResourceCall.run at h
    rw [hcommit] at h
    simp only [hstatements, if_true] at h
    exact h
  have hbare := rebuild_bare (by exact hdir) rfl hrebuild
  refine ⟨hbare, fun hj => ?_⟩
  have hsettled := rebuild_settled (by exact hsame.journal.trans hj) hrebuild
  rw [hbare, hsettled]
  exact forall_congr' fun path => forall_congr' fun hlive => not_congr (hsame.live path hlive)

end

/-! ## A lost index -/

def noteBundle : ResourceBundle := ⟨⟨"cafe", "home", "note", "n", [], 1, 1⟩, []⟩

/-- A project whose manifests hold the label of a note. -/
def noteEnv : RebuildEnv ℚ where
  toServiceEnv := plainServiceEnv
  loadResourceManifest text :=
    .ok { noteBundle with resource := { noteBundle.resource with label := String.ofList text } }
  parseLocationManifest _ := .error (.runtimeError "unsupported location manifest version")
  parseAiThreadManifest _ := .error (.runtimeError "unsupported AI thread manifest version")

/-- A project of one card, once it was rebuilt. -/
def rebuiltCard : SearchState ℚ :=
  match SearchState.rebuild noteEnv ⟨⟨oneFile completeText, ⟨∅, ∅, ∅, ∅⟩, 0⟩, ∅⟩ with
  | .ok _ s => s
  | .error _ s => s

def busy : Exn := .runtimeError "database is locked"

/-- Whether a call gets to a commit. -/
def ResourceCall.commits [NatCast K] (env : RebuildEnv K) (call : ResourceCall) (s : SearchState K) :
    Bool :=
  match call.commit env s.services with
  | .ok (committed, _) _ => committed
  | .error _ _ => false

theorem ResourceCall.failsAfterCommit [NatCast K] {env : RebuildEnv K} {call : ResourceCall}
    {s : SearchState K} (h : call.commits env s = true) (e : Exn) :
    call.FailsAfterCommit env (some e) s := by
  unfold commits at h
  split at h
  · next committed statements services hcommit =>
    subst h
    exact ⟨statements, services, e, services, hcommit, rfl⟩
  · cases h

theorem rebuiltCard_commits : (ResourceCall.put noteBundle).commits noteEnv rebuiltCard = true := by
  decide +kernel

theorem put_repaired_iff : ∃ s', (ResourceCall.put noteBundle).run noteEnv (some busy) rebuiltCard =
      .ok () s' ∧ (SearchKept s' ↔ ∀ path, LiveFile path → path ∉ s'.services.world.repo.work) := by
  obtain ⟨_, s', hok⟩ : ∃ u s', (ResourceCall.put noteBundle).run noteEnv (some busy) rebuiltCard =
    .ok u s' := Ends.exists_ok (by decide +kernel)
  exact ⟨s', hok, (repaired_search_iff (plainEnv_lawful _).directory
    (ResourceCall.failsAfterCommit rebuiltCard_commits busy) hok).1⟩

/-- A card has its row before the call, and none after it. -/
theorem put_repaired_loses_index : SearchKept rebuiltCard ∧
    (ResourceCall.put noteBundle).FailsAfterCommit noteEnv (some busy) rebuiltCard ∧
    ∃ s', (ResourceCall.put noteBundle).run noteEnv (some busy) rebuiltCard = .ok () s' ∧
      ¬ SearchKept s' := by
  have hruns : (∀ kv ∈ rebuiltCard.services.world.db.cards.toList,
        (rebuiltCard.services.world.db.cardsFts[kv.1]?).isSome = true) ∧
      rebuiltCard.services.rows.messages.toList = [] := by decide +kernel
  obtain ⟨hrows, hmessages⟩ := hruns
  refine ⟨⟨fun id card hcard _ => ?_, fun id m hm _ => ?_⟩,
    ResourceCall.failsAfterCommit rebuiltCard_commits busy, ?_⟩
  · exact hrows (id, card) (Std.ExtTreeMap.mem_toList_iff_getElem?_eq_some.mpr hcard)
  · have := Std.ExtTreeMap.mem_toList_iff_getElem?_eq_some.mpr hm
    rw [hmessages] at this
    cases this
  · obtain ⟨_, s', hok, hlive, hnone⟩ : ∃ u s',
        (ResourceCall.put noteBundle).run noteEnv (some busy) rebuiltCard = .ok u s' ∧
        (s'.services.world.db.cards[idA]?).any (·.deletedAt.isNone) = true ∧
        (s'.services.world.db.cardsFts[idA]?).isNone = true := Ends.returns (by decide +kernel)
    refine ⟨s', hok, fun hkept => ?_⟩
    obtain ⟨card, hcard, hlive⟩ := (Option.any_eq_true _ _).mp hlive
    have hkeptRow := hkept.cards idA card hcard (Option.isNone_iff_eq_none.mp hlive)
    rw [Option.isNone_iff_eq_none.mp hnone] at hkeptRow
    cases hkeptRow

end HolderCore
