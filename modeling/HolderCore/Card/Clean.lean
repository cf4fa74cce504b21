import HolderCore.Card.FileLemmas
import HolderCore.Card.Runs
import HolderCore.Git.Merge

/-! # Calls that leave a clean tree

Every call of the store that returns has committed what it wrote: the working tree, the index and the
tree of the branch's tip agree again, and no earlier commit is lost. -/

namespace HolderCore

/-- At rest, with a clean tree and refs that name commits. -/
structure Settled (w : World K) : Prop where
  journal : w.journal = none
  valid : w.repo.Valid
  clean : w.repo.Clean

/-- Settled again, after the commits of `r` and perhaps some more. -/
structure Saved (r : Repo) (w : World K) : Prop where
  settled : Settled w
  commits : r.commits <+: w.repo.commits
  tip : r.tip.isSome = true → w.repo.tip.isSome = true

/-- Files were written and staged alike, and nothing is committed yet. -/
structure Staged (r : Repo) (w : World K) : Prop where
  journal : w.journal = none
  work : w.repo.work = w.repo.staged
  commits : w.repo.commits = r.commits
  refs : w.repo.refs = r.refs
  head : w.repo.head = r.head

section
variable {env : Env K} {r : Repo} {w w' : World K}

theorem Settled.saved (h : Settled w) : Saved w.repo w := ⟨h, List.prefix_rfl, id⟩

theorem Saved.drewIvs (h : Saved r w) (hd : DrewIvs w w') : Saved r w' := by
  obtain ⟨ivs, rfl⟩ := hd
  exact ⟨⟨h.settled.journal, h.settled.valid, h.settled.clean⟩, h.commits, h.tip⟩

theorem Saved.trans (h : Saved r w) (h' : Saved w.repo w') : Saved r w' :=
  ⟨h'.settled, h.commits.trans h'.commits, fun ht => h'.tip (h.tip ht)⟩

theorem Saved.onDb (h : Saved r w) (db : Db K) : Saved r { w with db } :=
  ⟨⟨h.settled.journal, h.settled.valid, h.settled.clean⟩, h.commits, h.tip⟩

theorem Settled.staged (h : Settled w) : Staged w.repo w :=
  ⟨h.journal, h.clean.work.trans h.clean.index.symm, rfl, rfl, rfl⟩

theorem Staged.write (h : Staged r w) (path : String) (bytes : Bytes) (ivs : Nat) :
    Staged r { w with
      repo := { w.repo with
        work := w.repo.work.insert path bytes
        index := some (w.repo.staged.insert path bytes) }
      ivs } := by
  refine ⟨h.journal, ?_, h.commits, h.refs, h.head⟩
  change w.repo.work.insert path bytes = w.repo.staged.insert path bytes
  rw [h.work]

theorem Staged.wrote (h : Staged r w) {path : String} {plain : Bytes}
    (hw : Wrote env path plain w w') : Staged r w' := by
  obtain ⟨bytes, ivs, -, rfl⟩ := hw
  exact h.write path bytes ivs

theorem Staged.saved (h : Staged r w) (hv : r.Valid) (message : String) :
    Saved r { w with repo := w.repo.commit message } := by
  have htip : (w.repo.commit message).tip = some w.repo.commits.length := by
    simp [Repo.tip, Repo.commit]
  have htree : (w.repo.commit message).treeAt (w.repo.commit message).tip = w.repo.staged := by
    rw [htip]
    simp [Repo.treeAt, Repo.commit]
  refine ⟨⟨h.journal, (hv.of_eq h.refs h.commits).commit message, ?_, ?_⟩, ?_, ?_⟩
  · rw [htree]
    exact h.work
  · rw [htree]
    rfl
  · rw [← h.commits]
    exact List.prefix_append _ _
  · intro _
    change (w.repo.commit message).tip.isSome = true
    rw [htip]
    rfl

theorem Staged.onDb (h : Staged r w) (db : Db K) : Staged r { w with db } :=
  ⟨h.journal, h.work, h.commits, h.refs, h.head⟩

/-- Statements change no file. -/
theorem onDb_staged (m : DbM K α) : Keeps (Staged r) (onDb m) := fun _ h =>
  Ends.onDb_iff.mpr (.intro (fun _ db _ => h.onDb db) fun _ db _ => h.onDb db)

theorem onDb_saved (m : DbM K α) : Keeps (Saved r) (onDb m) := fun _ h =>
  Ends.onDb_iff.mpr (.intro (fun _ db _ => h.onDb db) fun _ db _ => h.onDb db)

theorem ftsUpsertCard_staged (cardId projectId title body : String) :
    Keeps (Staged r) (ftsUpsertCard env cardId projectId title body) :=
  .ite (onDb_staged _) (.pure _)

theorem ftsUpsertCard_saved (cardId projectId title body : String) :
    Keeps (Saved r) (ftsUpsertCard env cardId projectId title body) :=
  .ite (onDb_saved _) (.pure _)

theorem commit_saved (h : Staged r w) (hv : r.Valid) (message : String) {E : Exn → World K → Prop} :
    Ends (CardStore.commit message) w (fun _ => Saved r) E := by
  simp only [CardStore.commit, Ends.onRepo_iff, Except.ok.injEq, forall_eq', reduceCtorEq,
    false_imp_iff, implies_true, and_true]
  exact h.saved hv message

/-- A journalled change commits its files. -/
theorem Applied.saved {m : Mutation K} (h : Applied m w w') (hp : m.Planned w) (hw : Settled w)
    (hj : w'.journal = none) : Saved w.repo w' := by
  obtain ⟨c, hcommits, -, -, htree⟩ := h.landed.commit
  have htip : w'.repo.tip = some w.repo.commits.length := by
    rw [Repo.tip, h.landed.refs, h.landed.head, Map.get_insert, if_pos rfl]
  have hat : w'.repo.treeAt w'.repo.tip = c.tree := by
    rw [htip]
    simp [Repo.treeAt, hcommits]
  refine ⟨⟨hj, h.landed.valid hw.valid, ?_, ?_⟩, ?_, ?_⟩
  · rw [hat]
    refine Map.ext fun path => ?_
    rw [h.landed.work, htree, hw.clean.work]
  · rw [hat]
    refine Map.ext fun path => ?_
    rw [h.staged, htree, hw.clean.index]
    split
    · rfl
    · next hno =>
      cases hi : m.intended[path]? with
      | none => rfl
      | some after =>
        obtain ⟨file, hfile⟩ := hp.covered path after hi
        exact absurd (Std.ExtTreeMap.contains_iff_mem.mpr (Map.mem_iff.mpr ⟨file, hfile⟩)) hno
  · rw [hcommits]
    exact List.prefix_append _ _
  · rw [htip]
    exact fun _ => rfl

end

namespace CardStore
variable [SortKey K] {env : Env K} {w : World K}

/-! ## Edits of one file -/

theorem createLocked_saved (card : Card K) (content : String) (key : Option K) (hw : Settled w) :
    Ends (createLocked env card content key) w (fun _ => Saved w.repo) fun _ _ => True := by
  unfold createLocked
  refine (requireProject_ends hw.journal _).bind ?_ fun _ _ _ => trivial
  rintro - w1 ⟨rfl, -⟩
  simp only [Ends.bind_iff, Ends.get_iff, Ends.fromExcept_iff, Ends.ite_iff, Ends.throw_iff,
    implies_true, and_true, true_and]
  intro _ _ _ _ _ _ _
  refine (writeCardFile_ends _ _ _ _).mono ?_ fun _ _ _ => trivial
  rintro - w2 ⟨-, bytes, ivs, henc, rfl⟩
  rw [stageCardFile_ends henc (by simp [Repo.writeFile])]
  simp only [Ends.tryCatch_iff, Ends.bind_iff, Ends.onRepo_iff, Ends.throw_iff, implies_true, and_self]
  refine (onDb_staged _ _ (hw.staged.write _ _ _)).mono (fun _ w3 h3 => ?_) fun _ _ _ => trivial
  refine (ftsUpsertCard_staged _ _ _ _ w3 h3).mono (fun _ w4 h4 => ?_) fun _ _ _ => trivial
  refine (onDb_staged _ w4 h4).mono (fun _ w5 h5 => ?_) fun _ _ _ => trivial
  exact commit_saved h5 hw.valid _

theorem updateContentLocked_saved (card : Card K) (content : String) (title : Option String)
    (updatedAt : Int) (hw : Settled w) :
    Ends (updateContentLocked env card content title updatedAt) w (fun _ => Saved w.repo)
      fun _ _ => True := by
  unfold updateContentLocked
  refine (requireProject_ends hw.journal _).bind ?_ fun _ _ _ => trivial
  rintro - w1 ⟨rfl, -⟩
  have hexisting : Ends (existingCardFile env card.relPath) w1 (fun _ w' => w' = w1)
      fun _ _ => True := by
    unfold existingCardFile
    simp only [Ends.bind_iff, Ends.get_iff]
    cases w1.repo.work[card.relPath]? with
    | none => rfl
    | some raw =>
      simp only [Ends.bind_iff, Ends.fromExcept_iff, Ends.pure_iff, implies_true, and_self]
  simp only [Ends.bind_iff, Ends.fromExcept_iff, implies_true, and_true]
  intro _ _
  refine hexisting.mono ?_ fun _ _ _ => trivial
  rintro existing w2 rfl
  split
  · next hchanged =>
    have hwrite : Ends (writeContent env card content title updatedAt existing) w2
        (fun _ => Staged w2.repo) fun _ _ => True := by
      unfold writeContent
      simp only [Ends.bind_iff, Ends.get_iff]
      rw [← Ends.bind_iff]
      refine (writeStaged_ends _ _ _ _).mono ?_ fun _ _ _ => trivial
      rintro - w3 ⟨-, hwrote⟩
      exact hw.staged.wrote hwrote
    refine hwrite.mono (fun _ w3 h3 => ?_) fun _ _ _ => trivial
    refine (onDb_staged _ w3 h3).mono (fun _ w4 h4 => ?_) fun _ _ _ => trivial
    refine (ftsUpsertCard_staged _ _ _ _ w4 h4).mono (fun _ w5 h5 => ?_) fun _ _ _ => trivial
    refine (onDb_staged _ w5 h5).mono (fun _ w6 h6 => ?_) fun _ _ _ => trivial
    exact commit_saved h6 hw.valid _
  · next hsame =>
    rw [Ends.pure_iff]
    refine (onDb_saved _ w2 hw.saved).mono (fun _ w4 h4 => ?_) fun _ _ _ => trivial
    refine (ftsUpsertCard_saved _ _ _ _ w4 h4).mono (fun _ w5 h5 => ?_) fun _ _ _ => trivial
    refine (onDb_saved _ w5 h5).mono (fun _ w6 h6 => ?_) fun _ _ _ => trivial
    exact h6

theorem updateContent_saved (cardId content : String) (title : Option String) (updatedAt : Int)
    (hw : Settled w) :
    Ends (updateContent env cardId content title updatedAt) w (fun _ => Saved w.repo)
      fun _ _ => True := by
  unfold updateContent
  simp only [Ends.bind_iff, Ends.get_iff]
  split
  · exact trivial
  · exact updateContentLocked_saved _ _ _ _ hw

omit [SortKey K] in
/-- A replaced file is to be committed, an equal one needs no commit. -/
theorem replaceCardFile_saved (card : Card K) (links : List CardLink) (milestones : List Milestone)
    (body : String) (raw : Bytes) (hw : Settled w) :
    Ends (replaceCardFile env card links milestones body raw) w
      (fun changed w' => (changed = true → Staged w.repo w') ∧ (¬ changed = true → Saved w.repo w'))
      fun _ _ => True := by
  refine (replaceCardFile_ends card links milestones body raw).mono ?_ fun _ _ _ => trivial
  rintro changed w1 hc
  cases changed with
  | true => exact ⟨fun _ => hw.staged.wrote hc.2, fun h => absurd rfl h⟩
  | false => exact ⟨nofun, fun _ => hw.saved.drewIvs hc.1⟩

theorem updateLinksLocked_saved (card : Card K) (updatedAt : Int) (hw : Settled w) :
    Ends (updateLinksLocked env card updatedAt) w (fun _ => Saved w.repo) fun _ _ => True := by
  unfold updateLinksLocked
  refine (requireProject_ends hw.journal _).bind ?_ fun _ _ _ => trivial
  rintro - w1 ⟨rfl, -⟩
  simp only [Ends.bind_iff, Ends.fromExcept_iff, implies_true, and_true]
  intro _ _
  refine (readCardFile_ends _ w1).mono ?_ fun _ _ _ => trivial
  rintro ⟨raw, parsed⟩ w2 ⟨rfl, -⟩
  simp only [Ends.get_iff, Ends.ite_iff, Ends.pure_iff, Ends.bind_iff]
  refine (replaceCardFile_saved _ _ _ _ _ hw).mono ?_ fun _ _ _ => trivial
  rintro changed w3 ⟨hyes, hno⟩
  refine ⟨fun hc => ?_, hno⟩
  exact (onDb_staged _ w3 (hyes hc)).mono (fun _ w4 h4 => commit_saved h4 hw.valid _)
    fun _ _ _ => trivial

theorem updateMilestonesLocked_saved (card : Card K) (updatedAt : Int) (hw : Settled w) :
    Ends (updateMilestonesLocked env card updatedAt) w (fun _ => Saved w.repo) fun _ _ => True := by
  unfold updateMilestonesLocked
  refine (requireProject_ends hw.journal _).bind ?_ fun _ _ _ => trivial
  rintro - w1 ⟨rfl, -⟩
  simp only [Ends.bind_iff, Ends.fromExcept_iff, implies_true, and_true]
  intro _ _
  refine (readCardFile_ends _ w1).mono ?_ fun _ _ _ => trivial
  rintro ⟨raw, parsed⟩ w2 ⟨rfl, -⟩
  simp only [Ends.get_iff, Ends.ite_iff, Ends.pure_iff, Ends.bind_iff]
  refine (replaceCardFile_saved _ _ _ _ _ hw).mono ?_ fun _ _ _ => trivial
  rintro changed w3 ⟨hyes, hno⟩
  refine ⟨fun hc => ?_, hno⟩
  exact (onDb_staged _ w3 (hyes hc)).mono (fun _ w4 h4 => commit_saved h4 hw.valid _)
    fun _ _ _ => trivial

theorem updateMilestoneLocked_saved (card : Card K) (milestones : List Milestone) (updatedAt : Int)
    (hw : Settled w) :
    Ends (updateMilestoneLocked env card milestones updatedAt) w (fun _ => Saved w.repo)
      fun _ _ => True := by
  unfold updateMilestoneLocked
  refine (requireProject_ends hw.journal _).bind ?_ fun _ _ _ => trivial
  rintro - w1 ⟨rfl, -⟩
  simp only [Ends.bind_iff, Ends.fromExcept_iff, implies_true, and_true]
  intro _ _
  refine (readCardFile_ends _ w1).mono ?_ fun _ _ _ => trivial
  rintro ⟨raw, parsed⟩ w2 ⟨rfl, -⟩
  refine (writeCardFile_ends _ _ _ _).mono ?_ fun _ _ _ => trivial
  rintro - w3 ⟨-, bytes, ivs, henc, rfl⟩
  rw [stageCardFile_ends henc (by simp [Repo.writeFile])]
  refine (onDb_staged _ _ (hw.staged.write _ _ _)).mono (fun _ w4 h4 => ?_) fun _ _ _ => trivial
  refine (onDb_staged _ w4 h4).mono (fun _ w5 h5 => ?_) fun _ _ _ => trivial
  exact commit_saved h5 hw.valid _

theorem moveLocked_saved (projectId cardId : String) (hasParent : Bool) (parent : Option String)
    (key : Option K) (updatedAt : Int) (hw : Settled w) :
    Ends (moveLocked env projectId cardId hasParent parent key updatedAt) w (fun _ => Saved w.repo)
      fun _ _ => True := by
  unfold moveLocked
  refine (requireProject_ends hw.journal _).bind ?_ fun _ _ _ => trivial
  rintro - w1 ⟨rfl, -⟩
  refine (rereadCard_ends cardId w1).bind ?_ fun _ _ _ => trivial
  rintro card w2 ⟨rfl, -⟩
  simp only [Ends.bind_iff, Ends.fromExcept_iff, Ends.ite_iff, Ends.throw_iff, Ends.get_iff,
    Ends.pure_iff, implies_true, and_true, true_and]
  intro _ _ _ _ _
  refine ⟨fun _ => ?_, fun _ => hw.saved⟩
  refine (readCardFile_ends _ w2).mono ?_ fun _ _ _ => trivial
  rintro ⟨raw, parsed⟩ w3 ⟨rfl, -⟩
  refine (replaceCardFile_saved _ _ _ _ _ hw).mono ?_ fun _ _ _ => trivial
  rintro changed w4 ⟨hyes, hno⟩
  refine ⟨fun hc => ?_, hno⟩
  refine (onDb_staged _ w4 (hyes hc)).mono (fun _ w5 h5 => ?_) fun _ _ _ => trivial
  exact (ftsUpsertCard_staged _ _ _ _ w5 h5).mono (fun _ w6 h6 => commit_saved h6 hw.valid _)
    fun _ _ _ => trivial

/-! ## Batches and deletions -/

/-- Files were written at some paths, and nothing is staged yet. -/
structure Writing (r : Repo) (paths : List String) (w : World K) : Prop where
  journal : w.journal = none
  index : w.repo.index = r.index
  commits : w.repo.commits = r.commits
  refs : w.repo.refs = r.refs
  head : w.repo.head = r.head
  work : ∀ path : String, path ∉ paths → w.repo.work[path]? = r.work[path]?

omit [SortKey K] in
theorem Writing.weaken {r : Repo} {paths paths' : List String} (h : Writing r paths w)
    (hsub : paths ⊆ paths') : Writing r paths' w :=
  ⟨h.journal, h.index, h.commits, h.refs, h.head, fun path hp => h.work path fun hm => hp (hsub hm)⟩

omit [SortKey K] in
theorem onDb_writing {r : Repo} {paths : List String} (m : DbM K α) :
    Keeps (Writing r paths) (onDb m) := fun _ h =>
  Ends.onDb_iff.mpr (.intro
    (fun _ _ _ => ⟨h.journal, h.index, h.commits, h.refs, h.head, h.work⟩)
    fun _ _ _ => ⟨h.journal, h.index, h.commits, h.refs, h.head, h.work⟩)

theorem createBatchItem_writing {r : Repo} {paths : List String} (projectId : String)
    (remap : Map String String) (uuidV4 : Nat → String) (drawn : Nat) (item : BatchCardInput)
    (hw : Writing r paths w) :
    Ends (createBatchItem env projectId remap uuidV4 drawn item) w
      (fun path => Writing r (path :: paths)) fun _ _ => True := by
  unfold createBatchItem
  simp only [Ends.bind_iff, Ends.fromExcept_iff, Ends.get_iff, implies_true, and_true]
  intro relPath hrel
  obtain ⟨-, rfl⟩ := cardRelPath_ok_iff.mp hrel
  refine (writeCardFile_ends _ _ _ _).mono ?_ fun _ _ _ => trivial
  rintro - w1 ⟨-, bytes, ivs, -, rfl⟩
  have h1 : Writing r (livePath (remap[item.cardId]?.getD "") :: paths) { w with
      repo := w.repo.writeFile (livePath (remap[item.cardId]?.getD "")) bytes, ivs } := by
    refine ⟨hw.journal, hw.index, hw.commits, hw.refs, hw.head, fun path hp => ?_⟩
    rw [List.mem_cons, not_or] at hp
    change (w.repo.work.insert _ bytes)[path]? = _
    rw [Map.get_insert_ne (Ne.symm hp.1), hw.work path hp.2]
  refine (onDb_writing _ _ h1).mono (fun _ w2 h2 => ?_) fun _ _ _ => trivial
  have hfts : Keeps (Writing r (livePath (remap[item.cardId]?.getD "") :: paths)) (ftsUpsertCard env
      (remap[item.cardId]?.getD "") projectId item.title item.content) := .ite (onDb_writing _) (.pure _)
  refine (hfts w2 h2).mono (fun _ w3 h3 => ?_) fun _ _ _ => trivial
  refine (onDb_writing _ w3 h3).mono (fun _ w4 h4 => ?_) fun _ _ _ => trivial
  refine (onDb_writing _ w4 h4).mono (fun _ w5 h5 => ?_) fun _ _ _ => trivial
  refine (Keeps.ite (.pure _) (onDb_writing _) w5 h5).mono (fun _ w6 h6 => ?_) fun _ _ _ => trivial
  exact h6

theorem createBatchItems_writing {r : Repo} {paths : List String} (projectId : String)
    (remap : Map String String) (uuidV4 : Nat → String) (drawn : Nat) (items : List BatchCardInput)
    (hw : Writing r paths w) :
    Ends (createBatchItems env projectId remap uuidV4 drawn items) w
      (fun staged => Writing r (staged ++ paths)) fun _ _ => True := by
  induction items generalizing w drawn paths with
  | nil => exact hw
  | cons item items ih =>
    unfold createBatchItems
    refine (createBatchItem_writing projectId remap uuidV4 drawn item hw).bind ?_ fun _ _ _ => trivial
    rintro path w1 h1
    refine (ih (drawn + item.milestones.length) h1).bind ?_ fun _ _ _ => trivial
    rintro staged w2 h2
    exact h2.weaken (by simp)

theorem createBatchLocked_saved (projectId : String) (items : List BatchCardInput)
    (generateId uuidV4 : Nat → String) (message : String) (hw : Settled w) :
    Ends (createBatchLocked env projectId items generateId uuidV4 message) w (fun _ => Saved w.repo)
      fun _ _ => True := by
  unfold createBatchLocked
  refine (requireProject_ends hw.journal _).bind ?_ fun _ _ _ => trivial
  rintro - w1 ⟨rfl, -⟩
  have hitems : Ends (inTx (createBatchItems env projectId (idRemap generateId items) uuidV4 0 items))
      w1 (fun staged w' => Writing w1.repo staged w' ∧ (items = [] → staged = [] ∧ w' = w1))
      fun _ _ => True := by
    have hwrite : Ends (createBatchItems env projectId (idRemap generateId items) uuidV4 0 items) w1
        (fun staged => Writing w1.repo (staged ++ [])) fun _ _ => True :=
      createBatchItems_writing projectId _ uuidV4 0 items
        ⟨hw.journal, rfl, rfl, rfl, rfl, fun _ _ => rfl⟩
    unfold Ends inTx at *
    cases hrun : createBatchItems env projectId (idRemap generateId items) uuidV4 0 items w1 with
    | error e w' => trivial
    | ok staged w' =>
      rw [hrun] at hwrite
      simp only [List.append_nil] at hwrite
      refine ⟨hwrite, fun hnil => ?_⟩
      subst hnil
      cases hrun
      exact ⟨rfl, rfl⟩
  refine hitems.bind ?_ fun _ _ _ => trivial
  rintro staged w2 ⟨h2, hnil⟩
  simp only [Ends.bind_iff, Ends.onRepo_iff, assertStaged, Ends.get_iff, Ends.fromExcept_iff,
    Ends.ite_iff, Ends.pure_iff, implies_true, and_true]
  intro repo hrepo _ _
  obtain ⟨hwork, hcommits, hrefs, hhead, hindex⟩ := Repo.stagePaths_ok hrepo
  refine ⟨fun hne => ?_, fun hempty => ?_⟩
  · have hwrote : repo.work = repo.staged := by
      refine Map.ext fun path => ?_
      rw [hindex, hwork]
      split
      · rfl
      · next hno =>
        rw [h2.work path hno, Repo.staged, h2.index, hw.clean.work, ← hw.clean.index]
        rfl
    have hs : Staged w1.repo { w2 with repo } := ⟨h2.journal, hwrote, hcommits.trans h2.commits,
      hrefs.trans h2.refs, hhead.trans h2.head⟩
    exact commit_saved hs hw.valid _
  · have hitems : items = [] := by
      cases items with
      | nil => rfl
      | cons item items => exact absurd rfl hempty
    obtain ⟨rfl, rfl⟩ := hnil hitems
    cases hrepo
    exact hw.saved

theorem hardDeleteLocked_saved (card : Card K) (hw : Settled w) :
    Ends (hardDeleteLocked env card) w (fun _ => Saved w.repo) fun _ _ => True := by
  unfold hardDeleteLocked
  refine (requireProject_ends hw.journal _).bind ?_ fun _ _ _ => trivial
  rintro - w1 ⟨rfl, -⟩
  simp only [Ends.bind_iff, Ends.fromExcept_iff, Ends.get_iff, implies_true, and_true]
  intro trash _
  have hgone : Ends (if w1.repo.work.contains trash = true then
      onRepo fun r => .ok ({ r with work := r.work.erase trash }.removePath trash)
      else pure ()) w1 (fun _ => Staged w1.repo) fun _ _ => True := by
    simp only [Ends.ite_iff, Ends.onRepo_iff, Except.ok.injEq, forall_eq', reduceCtorEq,
      implies_true, and_true, Ends.pure_iff]
    refine ⟨fun _ => ⟨hw.journal, ?_, rfl, rfl, rfl⟩, fun _ => hw.staged⟩
    change w1.repo.work.erase trash = w1.repo.staged.erase trash
    rw [hw.staged.work]
  refine hgone.mono (fun _ w2 h2 => ?_) fun _ _ _ => trivial
  refine (onDb_staged _ w2 h2).mono (fun _ w3 h3 => ?_) fun _ _ _ => trivial
  refine (onDb_staged _ w3 h3).mono (fun _ w4 h4 => ?_) fun _ _ _ => trivial
  refine (onDb_staged _ w4 h4).mono (fun _ w5 h5 => ?_) fun _ _ _ => trivial
  refine (onDb_staged _ w5 h5).mono (fun _ w6 h6 => ?_) fun _ _ _ => trivial
  refine (onDb_staged _ w6 h6).mono (fun _ w7 h7 => ?_) fun _ _ _ => trivial
  exact commit_saved h7 hw.valid _

/-! ## Journalled changes -/

theorem applyWithPlacements_saved {current : Card K} {target : ParsedCardFile K}
    {placements : List (Card K)} {message : String} (hw : Settled w)
    (hid : target.card.cardId = current.cardId) :
    Ends (applyWithPlacements env current target placements message) w (fun _ => Saved w.repo)
      fun _ _ => True := by
  refine (applyWithPlacements_ends hw.valid hid).mono ?_ fun _ _ _ => trivial
  rintro - w' ⟨changes, m, -, hplan, happlied, hj⟩
  exact happlied.saved hplan.planned hw hj

omit [SortKey K] in
theorem applyCardChanges_saved {changes : List (CardChange K)} {message : String} (hw : Settled w)
    (hids : CardChanges changes) :
    Ends (applyCardChanges env changes message) w (fun _ => Saved w.repo) fun _ _ => True := by
  refine (applyCardChanges_ends hids hw.valid).mono ?_ fun _ _ _ => trivial
  rintro - w' ⟨m, hplan, happlied, hj⟩
  exact happlied.saved hplan.planned hw hj

theorem moveToLocked_saved (projectId cardId : String) (request : CardPlacementRequest)
    (updatedAt : Int) (hw : Settled w) :
    Ends (moveToLocked env projectId cardId request updatedAt) w (fun _ => Saved w.repo)
      fun _ _ => True := by
  unfold moveToLocked
  refine (requireProject_ends hw.journal _).bind ?_ fun _ _ _ => trivial
  rintro - w1 ⟨rfl, -⟩
  simp only [Ends.bind_iff, Ends.get_iff, Ends.fromExcept_iff, CardRepo.get?, implies_true, and_true]
  intro placement _
  split
  · next card hcard =>
    simp only [Ends.ite_iff, Ends.pure_iff, Ends.bind_iff, Ends.fromExcept_iff, Ends.get_iff,
      implies_true, and_true]
    refine ⟨fun _ => hw.saved, fun _ _ _ _ _ => ?_⟩
    refine (readCardFile_ends _ w1).mono ?_ fun _ _ _ => trivial
    rintro ⟨raw, parsed⟩ w2 ⟨rfl, -⟩
    exact applyWithPlacements_saved hw rfl
  · trivial

theorem trashLocked_saved (projectId cardId : String) (deletedAt : Int) (mode : TrashChildren)
    (hw : Settled w) :
    Ends (trashLocked env projectId cardId deletedAt mode) w (fun _ => Saved w.repo)
      fun _ _ => True := by
  unfold trashLocked
  refine (requireProject_ends hw.journal _).bind ?_ fun _ _ _ => trivial
  rintro - w1 ⟨rfl, -⟩
  refine (rereadCard_ends cardId w1).bind ?_ fun _ _ _ => trivial
  rintro card w2 ⟨rfl, -⟩
  simp only [Ends.bind_iff, Ends.fromExcept_iff, Ends.ite_iff, Ends.throw_iff, Ends.get_iff,
    implies_true, and_true, true_and]
  intro _ _ _
  refine (trashedChange_ends deletedAt card w2).mono ?_ fun _ _ _ => trivial
  rintro change w3 ⟨rfl, hchange⟩
  cases mode with
  | promote =>
    simp only [Ends.bind_iff, Ends.fromExcept_iff, implies_true, and_true]
    intro placements _
    refine applyWithPlacements_saved hw ?_
    rw [hchange.card]
  | trashSubtree =>
    refine (Ends.mapM (I := (· = w3)) (R := TrashedOf env w3 deletedAt) (fun c _ s hs => ?_)
      rfl).bind ?_ fun _ _ _ => trivial
    · subst hs
      exact trashedChange_ends deletedAt c s
    · rintro changes w4 ⟨rfl, hchanges⟩
      refine applyCardChanges_saved hw fun c hc => ?_
      rcases List.mem_cons.mp hc with rfl | hc
      · rw [hchange.card, hchange.current]
      · obtain ⟨live, -, ht⟩ := hchanges.exists_left hc
        rw [ht.card, ht.current]

/-- A placement that goes under a reachable parent is of the same card. -/
theorem restoredCardPlacement_cardId {db : Db K} {restored placed : Card K} {now : Int}
    {siblings : List (Card K)} (h : restoredCardPlacement db restored now = .ok (placed, siblings)) :
    placed.cardId = restored.cardId := by
  unfold restoredCardPlacement at h
  cases hr : reachableCardParent db restored with
  | error e => rw [hr] at h; cases h
  | ok r =>
    rw [hr] at h
    simp only [bind, Except.bind] at h
    split at h
    · cases h
      rfl
    · split at h
      · cases h
      · cases h
        rfl

theorem restoreLocked_saved (projectId cardId : String) (updatedAt : Int) (hw : Settled w) :
    Ends (restoreLocked env projectId cardId updatedAt) w (fun _ => Saved w.repo)
      fun _ _ => True := by
  unfold restoreLocked
  refine (requireProject_ends hw.journal _).bind ?_ fun _ _ _ => trivial
  rintro - w1 ⟨rfl, -⟩
  refine (rereadCard_ends cardId w1).bind ?_ fun _ _ _ => trivial
  rintro card w2 ⟨rfl, -⟩
  simp only [Ends.bind_iff, Ends.get_iff, Ends.fromExcept_iff, Ends.ite_iff, Ends.throw_iff,
    implies_true, and_true, true_and]
  intro _ _ _ _ _ _
  refine (readCardFile_ends _ w2).mono ?_ fun _ _ _ => trivial
  rintro read w3 ⟨rfl, -⟩
  intro placed hplaced
  refine applyWithPlacements_saved hw ?_
  rw [restoredCardPlacement_cardId hplaced]

theorem restoreVersionLocked_saved (projectId cardId : String) (oid : Nat) (updatedAt : Int)
    (hw : Settled w) :
    Ends (restoreVersionLocked env projectId cardId oid updatedAt) w (fun _ => Saved w.repo)
      fun _ _ => True := by
  unfold restoreVersionLocked
  refine (requireProject_ends hw.journal _).bind ?_ fun _ _ _ => trivial
  rintro - w1 ⟨rfl, -⟩
  refine (rereadCard_ends cardId w1).bind ?_ fun _ _ _ => trivial
  rintro current w2 ⟨rfl, -⟩
  simp only [Ends.bind_iff, Ends.get_iff, Ends.fromExcept_iff, Ends.ite_iff, Ends.throw_iff,
    implies_true, and_true, true_and]
  rintro _ _ _ _ _ ⟨raw, isTrash⟩ _ plain _ _ _ ⟨restored, placements⟩ hplaced
  refine applyWithPlacements_saved hw ?_
  cases isTrash with
  | true =>
    simp only [historicalPlacement, if_true, Except.map] at hplaced
    split at hplaced
    · cases hplaced
    · cases hplaced
      rfl
  | false =>
    simp only [historicalPlacement, Bool.false_eq_true, if_false] at hplaced
    rw [restoredCardPlacement_cardId hplaced]
    rfl

theorem repairHierarchyLocked_saved (projectId : String) (updatedAt : Int) (hw : Settled w) :
    Ends (repairHierarchyLocked env projectId updatedAt) w (fun _ => Saved w.repo)
      fun _ _ => True := by
  unfold repairHierarchyLocked
  refine (requireProject_ends hw.journal _).bind ?_ fun _ _ _ => trivial
  rintro - w1 ⟨rfl, -⟩
  simp only [Ends.bind_iff, Ends.get_iff, Ends.fromExcept_iff, Ends.ite_iff, Ends.pure_iff,
    implies_true, and_true]
  intro plan _
  refine ⟨fun _ => hw.saved, fun _ => ?_⟩
  refine (mapM_placementChange_ends _ w1).mono ?_ fun _ _ _ => trivial
  rintro changes w2 ⟨rfl, hchanges⟩
  refine applyCardChanges_saved hw fun c hc => ?_
  obtain ⟨placed, -, hp⟩ := hchanges.exists_left hc
  rw [hp.card, hp.current]

/-! ## Tags -/

theorem addTagLocked_saved (card : Card K) (tag : String) (updatedAt : Int) (hw : Settled w) :
    Ends (addTagLocked env card tag updatedAt) w (fun _ => Saved w.repo) fun _ _ => True := by
  unfold addTagLocked
  refine (requireProject_ends hw.journal _).bind ?_ fun _ _ _ => trivial
  rintro - w1 ⟨rfl, -⟩
  refine (getContent_ends hw.journal card).bind ?_ fun _ _ _ => trivial
  rintro content w2 rfl
  simp only [Ends.ite_iff, Ends.pure_iff, Ends.bind_iff]
  exact ⟨fun _ => hw.saved, fun _ => updateContent_saved _ _ _ _ hw⟩

theorem removeTagLocked_saved (card : Card K) (tag : String) (updatedAt : Int) (hw : Settled w) :
    Ends (removeTagLocked env card tag updatedAt) w (fun _ => Saved w.repo) fun _ _ => True := by
  unfold removeTagLocked
  refine (requireProject_ends hw.journal _).bind ?_ fun _ _ _ => trivial
  rintro - w1 ⟨rfl, -⟩
  refine (getContent_ends hw.journal card).bind ?_ fun _ _ _ => trivial
  rintro content w2 rfl
  dsimp only
  split
  · exact hw.saved
  · simp only [Ends.bind_iff, Ends.pure_iff]
    exact updateContent_saved _ _ _ _ hw

end CardStore

/-! ## Runs -/

section
open CardStore
variable [SortKey K] {env : Env K} {w : World K}

omit [SortKey K] in
private theorem withCard_saved (cardId : String) {rest : Card K → StoreM K Unit}
    (h : ∀ card, Ends (rest card) w (fun _ => Saved w.repo) fun _ _ => True) :
    Ends (withCard w.db cardId rest).run w (fun _ => Saved w.repo) fun _ _ => True := by
  unfold withCard
  cases CardRepo.get? w.db cardId with
  | none => exact trivial
  | some card => exact (h card).bind (fun _ _ h => h) fun _ _ _ => trivial

/-- A call that returns has committed all it wrote. -/
theorem Call.run_saved (call : Call K) (hw : Settled w) :
    Ends (call.run env) w (fun _ => Saved w.repo) fun _ _ => True := by
  unfold Call.run
  simp only [Ends.bind_iff, Ends.get_iff]
  cases call with
  | create card content key =>
    exact (createLocked_saved card content key hw).bind (fun _ _ h => h) fun _ _ _ => trivial
  | createBatch projectId items generateId uuidV4 message =>
    exact (createBatchLocked_saved projectId items generateId uuidV4 message hw).bind
      (fun _ _ h => h) fun _ _ _ => trivial
  | updateContent cardId content title updatedAt =>
    exact withCard_saved cardId fun card => updateContentLocked_saved card _ _ _ hw
  | move cardId hasParent parent key updatedAt =>
    exact withCard_saved cardId fun card => moveLocked_saved _ _ _ _ _ _ hw
  | moveTo projectId cardId request updatedAt =>
    simp only [Call.enter, moveToEntry]
    split
    · trivial
    · split
      · trivial
      · exact moveToLocked_saved _ _ _ _ hw
  | updateLinks cardId updatedAt =>
    exact withCard_saved cardId fun card => updateLinksLocked_saved card _ hw
  | updateMilestones cardId updatedAt =>
    exact withCard_saved cardId fun card => updateMilestonesLocked_saved card _ hw
  | updateMilestone projectId cardId milestoneId update updatedAt =>
    simp only [Call.enter, updateMilestoneEntry]
    split
    · next result _ =>
      cases result with
      | ok _ => exact hw.saved
      | error _ => trivial
    · exact (updateMilestoneLocked_saved _ _ _ hw).bind (fun _ _ h => h) fun _ _ _ => trivial
  | trash cardId deletedAt children =>
    exact withCard_saved cardId fun card => trashLocked_saved _ _ _ _ hw
  | restore cardId updatedAt =>
    exact withCard_saved cardId fun card => restoreLocked_saved _ _ _ hw
  | restoreVersion cardId oid updatedAt =>
    cases oid with
    | none => trivial
    | some oid => exact withCard_saved cardId fun card => restoreVersionLocked_saved _ _ _ _ hw
  | repairHierarchy projectId updatedAt => exact repairHierarchyLocked_saved _ _ hw
  | hardDelete cardId =>
    simp only [Call.enter, hardDeleteEntry]
    split
    · trivial
    · split
      · trivial
      · exact (hardDeleteLocked_saved _ hw).bind (fun _ _ h => h) fun _ _ _ => trivial
  | addTag cardId tag updatedAt =>
    simp only [Call.enter, addTagEntry]
    split
    · exact hw.saved
    · split
      · trivial
      · exact (addTagLocked_saved _ _ _ hw).bind (fun _ _ h => h) fun _ _ _ => trivial
  | removeTag cardId tag updatedAt =>
    simp only [Call.enter, removeTagEntry]
    split
    · exact hw.saved
    · split
      · trivial
      · exact (removeTagLocked_saved _ _ _ hw).bind (fun _ _ h => h) fun _ _ _ => trivial

/-- The call returns. -/
def Call.Returns (env : Env K) (w : World K) (call : Call K) : Prop :=
  ∃ result w', call.run env w = .ok result w'

theorem Call.after_saved {call : Call K} (h : call.Returns env w) (hw : Settled w) :
    Saved w.repo (call.after env w) := by
  obtain ⟨result, w', hrun⟩ := h
  have hsaved := (call.run_saved hw).ok hrun
  rw [Call.after, hrun]
  exact hsaved

/-- A run of calls that all return keeps the tree clean and the history it started from. -/
theorem runCalls_saved {calls : List (Call K)} (hw : Settled w)
    (hcalls : EachCall env (Call.Returns env) w calls) : Saved w.repo (runCalls env w calls) := by
  induction calls generalizing w with
  | nil => exact hw.saved
  | cons call calls ih =>
    have hone : Saved w.repo (call.after env w) := Call.after_saved hcalls.1 hw
    exact hone.trans (ih hone.settled hcalls.2)

end

end HolderCore
