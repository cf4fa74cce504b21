import HolderCore.Card.Mutation

/-! # What a journalled change can do

A change that throws is rolled back to the state it started in, a change that succeeds makes one
commit. Both follow from what holds after any number of steps: before the commit only the journal,
the index and the journalled files moved (`Editing`); after it the branch holds a commit with the
intended bytes at the changed paths (`Landed`). -/

namespace HolderCore

namespace Repo

/-- Refs name commits, and a commit is younger than its parents. -/
structure Valid (r : Repo) : Prop where
  refs : ∀ (name : String) (oid : Nat), r.refs[name]? = some oid → oid < r.commits.length
  parents : ∀ (oid : Nat) (c : Commit), r.commits[oid]? = some c → ∀ parent ∈ c.parents, parent < oid

theorem Valid.tip_lt {r : Repo} (h : r.Valid) (ht : r.tip = some oid) : oid < r.commits.length :=
  h.refs _ _ ht

/-- One more commit on top of the current branch, which any ref may name. -/
theorem Valid.extend {r r' : Repo} (h : r.Valid) {c : Commit} (hc : r'.commits = r.commits ++ [c])
    (hpar : c.parents = r.tip.toList)
    (hrefs : ∀ (name : String) (oid : Nat), r'.refs[name]? = some oid →
      oid = r.commits.length ∨ r.refs[name]? = some oid) : r'.Valid where
  refs name oid hr := by
    rw [hc, List.length_append, List.length_singleton]
    rcases hrefs name oid hr with rfl | hr
    · omega
    · have := h.refs name oid hr
      omega
  parents oid c' hc' parent hp := by
    rw [hc, List.getElem?_append] at hc'
    split at hc'
    · exact h.parents oid c' hc' parent hp
    · have hoid : oid = r.commits.length := by
        obtain ⟨hlt, -⟩ := List.getElem?_eq_some_iff.mp hc'
        simp at hlt
        omega
      subst hoid
      simp only [Nat.sub_self, List.getElem?_cons_zero, Option.some.injEq] at hc'
      subst hc'
      exact h.tip_lt (by simpa [hpar] using hp)

theorem Valid.commit {r : Repo} (h : r.Valid) (message : String) : (r.commit message).Valid := by
  refine h.extend rfl rfl fun name oid hr => ?_
  simp only [Repo.commit, Map.get_insert] at hr
  split at hr
  · cases hr
    exact .inl rfl
  · exact .inr hr

end Repo

/-! ## Running steps -/

section Steps
variable {env : Env K} {w w' : World K}

theorem runSteps_append (steps steps' : List (Step K)) (w : World K) :
    runSteps env (steps ++ steps') w = (runSteps env steps w).bind (runSteps env steps') := by
  induction steps generalizing w with
  | nil => rfl
  | cons step steps ih =>
    simp only [List.cons_append, runSteps]
    cases step.exec env w with
    | ok w' => exact ih w'
    | error e => rfl

variable (env) in
/-- What every step keeps holds wherever the run stops. -/
theorem runSteps_invariant {P : World K → Prop} {steps : List (Step K)}
    (hstep : ∀ step ∈ steps, ∀ w w', P w → step.exec env w = .ok w' → P w') (hw : P w) :
    (∀ w', runSteps env steps w = .ok w' → P w') ∧
      ∀ e w', runSteps env steps w = .error (e, w') → P w' := by
  induction steps generalizing w with
  | nil =>
    refine ⟨fun w' h => ?_, nofun⟩
    cases h; exact hw
  | cons step steps ih =>
    simp only [runSteps]
    cases he : step.exec env w with
    | ok w1 =>
      exact ih (fun s hs => hstep s (List.mem_cons_of_mem _ hs))
        (hstep step List.mem_cons_self _ _ hw he)
    | error e =>
      refine ⟨nofun, fun e w' h => ?_⟩
      cases h; exact hw

/-- The steps of phases, run to the end. -/
theorem runSteps_expand_cons (phase : World K → List (Step K))
    (phases : List (World K → List (Step K))) (w : World K) :
    runSteps env (expand env (phase :: phases) w) w =
      (runSteps env (phase w) w).bind fun w' => runSteps env (expand env phases w') w' := by
  rw [expand, runSteps_append]
  cases runSteps env (phase w) w <;> rfl

end Steps

/-! ## The journal -/

namespace Mutation

/-- The bytes the change intends at the paths it changes. -/
def intended (m : Mutation K) : Map String (Option Bytes) := intendedChanges m.renames m.writes

/-- The journal of a change holds the state it starts in and the bytes it intends, for all the
paths it touches. -/
structure Planned (m : Mutation K) (w : World K) : Prop where
  journal : w.journal = none
  head : m.saved.head = w.repo.tip
  reference : m.saved.reference = w.repo.head
  index : m.saved.index = w.repo.index
  files : ∀ (path : String) (file : JournalFile), m.saved.files[path]? = some file →
    file = ⟨w.repo.work[path]?, m.intended[path]?⟩
  covered : ∀ (path : String) (after : Option Bytes), m.intended[path]? = some after →
    ∃ file, m.saved.files[path]? = some file
  targets : ∀ rename ∈ m.renames, rename.2 ∈ m.writes.map (·.1)

theorem intended_eq (m : Mutation K) (path : String) :
    m.intended[path]? =
      ((m.writes.reverse.find? fun write => write.1 = path).map fun write => some write.2).or
        (if path ∈ m.renames.map (·.1) then some none else none) := by
  unfold intended intendedChanges
  rw [Map.get_foldl_insert (fun bytes => some bytes)]
  congr 1
  rw [Map.get_foldl_insert (fun _ => none)]
  simp only [Std.ExtTreeMap.getElem?_empty, Option.or_none]
  cases hf : m.renames.reverse.find? fun rename => rename.1 = path with
  | none =>
    have : path ∉ m.renames.map (·.1) := by
      rw [List.find?_eq_none] at hf
      simp only [List.mem_reverse, decide_eq_true_eq] at hf
      rintro hmem
      obtain ⟨rename, hr, rfl⟩ := List.mem_map.mp hmem
      exact hf rename hr rfl
    simp [this]
  | some rename =>
    have hr := List.find?_some hf
    have hmem := List.mem_of_find?_eq_some hf
    have : path ∈ m.renames.map (·.1) :=
      List.mem_map.mpr ⟨rename, List.mem_reverse.mp hmem, by simpa using hr⟩
    simp [this]

theorem intended_of_write {m : Mutation K} (h : write ∈ m.writes) :
    ∃ bytes, m.intended[write.1]? = some (some bytes) := by
  rw [intended_eq]
  cases hf : m.writes.reverse.find? fun w => w.1 = write.1 with
  | none =>
    rw [List.find?_eq_none] at hf
    exact absurd (by simp) (hf write (List.mem_reverse.mpr h))
  | some w => exact ⟨w.2, rfl⟩

theorem intended_of_rename {m : Mutation K} (h : rename ∈ m.renames) :
    ∃ after, m.intended[rename.1]? = some after := by
  rw [intended_eq]
  have : rename.1 ∈ m.renames.map (·.1) := List.mem_map.mpr ⟨rename, h, rfl⟩
  cases m.writes.reverse.find? fun w => w.1 = rename.1 with
  | none => exact ⟨none, by simp [this]⟩
  | some w => exact ⟨some w.2, rfl⟩

end Mutation

/-! ## Before the commit -/

/-- Torn writes reach journalled paths only. -/
theorem tearFiles_work {saved : Journal} (files : Map String (Option Bytes)) (r : Repo)
    {path : String} (h : saved.files[path]? = none) :
    (tearFiles saved files r).work[path]? = r.work[path]? := by
  unfold tearFiles
  simp only
  generalize r.work = work
  generalize files.toList = l
  induction l generalizing work with
  | nil => rfl
  | cons entry l ih =>
    rw [List.foldl_cons, ih]
    split
    · next hc =>
      rw [Std.ExtTreeMap.contains_iff_mem, Map.mem_iff] at hc
      obtain ⟨file, hf⟩ := hc
      rw [Map.get_put, if_neg]
      rintro rfl
      rw [h] at hf
      cases hf
    · rfl

/-- The state of a change before its commit, or of one that was torn there: only journalled files,
the index and the journal itself may differ. -/
structure Editing (saved : Journal) (w w' : World K) : Prop where
  db : w'.db = w.db
  refs : w'.repo.refs = w.repo.refs
  head : w'.repo.head = w.repo.head
  commits : w'.repo.commits = w.repo.commits
  work : ∀ path : String, saved.files[path]? = none → w'.repo.work[path]? = w.repo.work[path]?

namespace Editing
variable {saved : Journal} {w w' : World K}

theorem refl (saved : Journal) (w : World K) : Editing saved w w :=
  ⟨rfl, rfl, rfl, rfl, fun _ _ => rfl⟩

/-- Changing a journalled file, the index or the journal keeps the stage. -/
theorem edit (h : Editing saved w w') {work : Tree} {index : Option Tree} {journal : Option Journal}
    (hwork : ∀ path : String, saved.files[path]? = none → work[path]? = w'.repo.work[path]?) :
    Editing saved w { w' with repo := { w'.repo with work, index }, journal } :=
  ⟨h.db, h.refs, h.head, h.commits, fun p hp => (hwork p hp).trans (h.work p hp)⟩

theorem tear (h : Editing saved w w') (files : Map String (Option Bytes))
    (index : Option (Option Tree)) : Editing saved w (torn saved files index w') :=
  ⟨h.db, h.refs, h.head, h.commits, fun path hpath =>
    (tearFiles_work files w'.repo hpath).trans (h.work path hpath)⟩

end Editing

namespace Mutation
variable {m : Mutation K} {env : Env K} {w w' : World K}

/-- The steps between the journal and the commit. -/
def edits (m : Mutation K) : List (Step K) :=
  [.resetIndex] ++
    m.renames.flatMap (fun (source, target) => [.rename source target, .removePath source]) ++
    m.writes.flatMap (fun (path, bytes) => [.writeFile path bytes, .stagePath path])

theorem editSteps_eq (m : Mutation K) :
    m.editSteps = [.writeTemporary, .writeJournal m.saved] ++
      (m.edits ++ [.assertStaged (m.writes.map (·.1))]) ++ [.commit m.message] := by
  simp [editSteps, edits]

theorem Planned.journalled_write (hp : m.Planned w) (h : write ∈ m.writes) :
    ∃ file, m.saved.files[write.1]? = some file := by
  obtain ⟨bytes, hb⟩ := intended_of_write h
  exact hp.covered _ _ hb

theorem Planned.journalled_source (hp : m.Planned w) (h : rename ∈ m.renames) :
    ∃ file, m.saved.files[rename.1]? = some file := by
  obtain ⟨after, ha⟩ := intended_of_rename h
  exact hp.covered _ _ ha

theorem Planned.journalled_target (hp : m.Planned w) (h : rename ∈ m.renames) :
    ∃ file, m.saved.files[rename.2]? = some file := by
  obtain ⟨write, hw, he⟩ := List.mem_map.mp (hp.targets rename h)
  rw [← he]
  exact hp.journalled_write hw

/-- One step between the journal and the commit. -/
theorem Planned.edit_step (hp : m.Planned w) {step : Step K}
    (hs : step ∈ m.edits ++ [.assertStaged (m.writes.map (·.1))]) {w1 w2 : World K}
    (h1 : Editing m.saved w w1 ∧ w1.journal = some m.saved) (he : step.exec env w1 = .ok w2) :
    Editing m.saved w w2 ∧ w2.journal = some m.saved := by
  obtain ⟨h1, hj⟩ := h1
  have hne : ∀ {p q : String}, (∃ file, m.saved.files[p]? = some file) →
      m.saved.files[q]? = none → p ≠ q := by
    rintro p q ⟨file, hf⟩ hq rfl
    rw [hq] at hf
    cases hf
  simp only [edits, List.mem_append, List.mem_cons, List.not_mem_nil, or_false, List.mem_flatMap,
    Prod.exists] at hs
  rcases hs with (((rfl | ⟨s, t, hmem, rfl | rfl⟩) | ⟨p, b, hmem, rfl | rfl⟩) | rfl)
  · cases he
    exact ⟨h1.edit fun _ _ => rfl, hj⟩
  · simp only [Step.exec] at he
    split at he
    · cases he
      refine ⟨h1.edit fun q hq => ?_, hj⟩
      rw [Map.get_insert_ne (hne (hp.journalled_target hmem) hq),
        Map.get_erase_ne (hne (hp.journalled_source hmem) hq)]
    · cases he
  · cases he
    exact ⟨h1.edit fun _ _ => rfl, hj⟩
  · cases he
    exact ⟨h1.edit fun q hq => Map.get_insert_ne (hne (hp.journalled_write hmem) hq), hj⟩
  · simp only [Step.exec, bind, Except.bind] at he
    split at he
    · cases he
    · next r hr =>
      obtain ⟨bytes, -, rfl⟩ := Repo.stagePath_ok hr
      cases he
      exact ⟨h1.edit fun _ _ => rfl, hj⟩
  · simp only [Step.exec, bind, Except.bind] at he
    split at he
    · cases he
    · cases he; exact ⟨h1, hj⟩

/-! ## The commit -/

/-- The state apart from the working tree and the index. -/
structure SameRefs (w w' : World K) : Prop where
  db : w'.db = w.db
  refs : w'.repo.refs = w.repo.refs
  head : w'.repo.head = w.repo.head
  commits : w'.repo.commits = w.repo.commits
  journal : w'.journal = w.journal

theorem SameRefs.trans {w1 w2 w3 : World K} (h : SameRefs w1 w2) (h' : SameRefs w2 w3) :
    SameRefs w1 w3 :=
  ⟨h'.db.trans h.db, h'.refs.trans h.refs, h'.head.trans h.head, h'.commits.trans h.commits,
    h'.journal.trans h.journal⟩

theorem run_renames {renames : List (String × String)}
    (h : runSteps env (renames.flatMap fun (source, target) =>
      [.rename source target, .removePath source]) w = .ok w') :
    SameRefs w w' ∧
      (∀ path : String, w'.repo.staged[path]? =
        if path ∈ renames.map (·.1) then none else w.repo.staged[path]?) ∧
      ∀ path : String, path ∉ renames.map (·.2) → w'.repo.work[path]? =
        if path ∈ renames.map (·.1) then none else w.repo.work[path]? := by
  induction renames generalizing w with
  | nil => cases h; exact ⟨⟨rfl, rfl, rfl, rfl, rfl⟩, by simp, by simp⟩
  | cons rename renames ih =>
    obtain ⟨source, target⟩ := rename
    simp only [List.flatMap_cons, List.cons_append, List.nil_append, runSteps] at h
    simp only [Step.exec] at h
    cases hsrc : w.repo.work[source]? with
    | none => rw [hsrc] at h; cases h
    | some bytes =>
      rw [hsrc] at h
      obtain ⟨hsame, hstaged, hwork⟩ := ih h
      refine ⟨⟨hsame.db, hsame.refs, hsame.head, hsame.commits, hsame.journal⟩,
        fun path => ?_, fun path hpath => ?_⟩
      · rw [hstaged path]
        change (if _ then _ else (w.repo.staged.erase source)[path]?) = _
        rw [Map.get_erase, List.map_cons]
        by_cases hp : source = path
        · simp [hp]
        · simp only [hp, Ne.symm hp, List.mem_cons, if_false, false_or]
      · simp only [List.map_cons, List.mem_cons, not_or] at hpath
        rw [hwork path hpath.2]
        change (if _ then _ else ((w.repo.work.erase source).insert target bytes)[path]?) = _
        rw [Map.get_insert_ne (Ne.symm hpath.1), Map.get_erase, List.map_cons]
        by_cases hp : source = path
        · simp [hp]
        · simp only [hp, Ne.symm hp, List.mem_cons, if_false, false_or]

variable (env) in
theorem run_writes (writes : List (String × Bytes)) (w : World K) :
    ∃ w', runSteps env (writes.flatMap fun (path, bytes) =>
        [.writeFile path bytes, .stagePath path]) w = .ok w' ∧ SameRefs w w' ∧
      w'.repo.staged = writes.foldl (fun t write => t.insert write.1 write.2) w.repo.staged ∧
      w'.repo.work = writes.foldl (fun t write => t.insert write.1 write.2) w.repo.work := by
  induction writes generalizing w with
  | nil => exact ⟨w, rfl, ⟨rfl, rfl, rfl, rfl, rfl⟩, rfl, rfl⟩
  | cons write writes ih =>
    obtain ⟨path, bytes⟩ := write
    have hstage : (w.repo.writeFile path bytes).stagePath path = .ok
        { w.repo.writeFile path bytes with
          index := some ((w.repo.writeFile path bytes).staged.insert path bytes) } := by
      simp [Repo.stagePath]
    obtain ⟨w', hrun, hsame, hstaged, hwork⟩ := ih
      { w with repo := { w.repo.writeFile path bytes with
        index := some ((w.repo.writeFile path bytes).staged.insert path bytes) } }
    refine ⟨w', ?_, ⟨hsame.db, hsame.refs, hsame.head, hsame.commits, hsame.journal⟩,
      hstaged, hwork⟩
    simp only [List.flatMap_cons, List.cons_append, List.nil_append, runSteps, Step.exec, hstage]
    exact hrun

/-- Once every file is written and staged, files and index hold the intended bytes. -/
theorem Planned.run_edits (hp : m.Planned w)
    (h : runSteps env m.edits { w with journal := some m.saved } = .ok w') :
    w'.db = w.db ∧ w'.repo.refs = w.repo.refs ∧ w'.repo.head = w.repo.head ∧
      w'.repo.commits = w.repo.commits ∧ w'.journal = some m.saved ∧
      ∀ path : String,
        w'.repo.work[path]? = m.intended[path]?.getD w.repo.work[path]? ∧
        w'.repo.staged[path]? = m.intended[path]?.getD (w.repo.treeAt w.repo.tip)[path]? := by
  have hbegin : runSteps env [.resetIndex] { w with journal := some m.saved } = .ok
      { w with
        journal := some m.saved
        repo := { w.repo with index := some (w.repo.treeAt w.repo.tip) } } := rfl
  rw [edits, runSteps_append, runSteps_append, hbegin] at h
  simp only [Except.bind] at h
  split at h
  · cases h
  · next w1 hren =>
    obtain ⟨hsame, hstaged, hwork⟩ := run_renames hren
    obtain ⟨w2, hrun, hsame', hstaged', hwork'⟩ := run_writes env m.writes w1
    rw [hrun] at h
    cases h
    have hall := SameRefs.trans hsame hsame'
    refine ⟨hall.db, hall.refs, hall.head, hall.commits, hall.journal, fun path => ?_⟩
    rw [hstaged', hwork', Map.get_foldl_insert (fun b => b), Map.get_foldl_insert (fun b => b),
      m.intended_eq path]
    cases hf : m.writes.reverse.find? fun write => write.1 = path with
    | some write => exact ⟨rfl, rfl⟩
    | none =>
      have hnot : path ∉ m.renames.map (·.2) := by
        intro hmem
        obtain ⟨rename, hr, rfl⟩ := List.mem_map.mp hmem
        obtain ⟨write, hw, he⟩ := List.mem_map.mp (hp.targets rename hr)
        rw [List.find?_eq_none] at hf
        exact hf write (List.mem_reverse.mpr hw) (by simpa using he)
      simp only [Option.map_none, Option.none_or]
      rw [hwork path hnot, hstaged path]
      by_cases hmem : path ∈ m.renames.map (·.1)
      · simp [hmem]
      · simp only [hmem, if_false, Option.getD_none]
        exact ⟨trivial, rfl⟩

/-- The state of a change after its commit: the branch holds a commit on top of the old tip with
the intended bytes at the changed paths, and so do the files. -/
structure Landed (m : Mutation K) (w w' : World K) : Prop where
  head : w'.repo.head = w.repo.head
  commit : ∃ c : Commit, w'.repo.commits = w.repo.commits ++ [c] ∧
    c.parents = w.repo.tip.toList ∧ c.message = m.message ∧
    ∀ path : String, c.tree[path]? = m.intended[path]?.getD (w.repo.treeAt w.repo.tip)[path]?
  refs : w'.repo.refs = w.repo.refs.insert w.repo.head w.repo.commits.length
  work : ∀ path : String, w'.repo.work[path]? = m.intended[path]?.getD w.repo.work[path]?

theorem Landed.valid (h : Landed m w w') (hv : w.repo.Valid) : w'.repo.Valid := by
  obtain ⟨c, hc, hpar, -⟩ := h.commit
  refine hv.extend hc hpar fun name oid hr => ?_
  rw [h.refs, Map.get_insert] at hr
  split at hr
  · cases hr
    exact .inl rfl
  · exact .inr hr

variable (env) in
/-- The steps of a `try` block: either a step before the commit throws, or all of them run. -/
theorem Planned.steps_cases (hp : m.Planned w) :
    (∃ e w1, runSteps env (m.edits ++ [.assertStaged (m.writes.map (·.1))])
        { w with journal := some m.saved } = .error (e, w1) ∧
      m.steps env w = m.editSteps ∧ Editing m.saved w w1 ∧ w1.journal = some m.saved) ∨
    ∃ w1, runSteps env (m.edits ++ [.assertStaged (m.writes.map (·.1))])
        { w with journal := some m.saved } = .ok w1 ∧
      Landed m w { w1 with repo := w1.repo.commit m.message } ∧
      w1.journal = some m.saved ∧ w1.db = w.db ∧
      m.steps env w = [.writeTemporary, .writeJournal m.saved] ++
        (m.edits ++ [.assertStaged (m.writes.map (·.1))]) ++
        [.commit m.message, .restoreIndex m.saved.index,
          .overlayIndex m.saved.files.keys w1.repo.staged, .commitTx m.db] := by
  have hbegin : runSteps env [.writeTemporary, .writeJournal m.saved] w =
      .ok { w with journal := some m.saved } := rfl
  cases hrun : runSteps env (m.edits ++ [.assertStaged (m.writes.map (·.1))])
      { w with journal := some m.saved } with
  | error failure =>
    obtain ⟨e, w1⟩ := failure
    refine .inl ⟨e, w1, rfl, ?_, ?_⟩
    · rw [steps, expand, editSteps_eq, runSteps_append, runSteps_append, hbegin]
      simp only [Except.bind, hrun, List.append_nil]
    · exact (runSteps_invariant env (P := fun w' => Editing m.saved w w' ∧ w'.journal = some m.saved)
        (fun s hs _ _ h1 he => hp.edit_step hs h1 he)
        ⟨(Editing.refl m.saved w).edit fun _ _ => rfl, rfl⟩).2 e w1 hrun
  | ok w1 =>
    obtain ⟨w0, hedits, hw01⟩ : ∃ w0, runSteps env m.edits { w with journal := some m.saved } =
        .ok w0 ∧ w0 = w1 := by
      rw [runSteps_append] at hrun
      cases he : runSteps env m.edits { w with journal := some m.saved } with
      | error failure => rw [he] at hrun; cases hrun
      | ok w0 =>
        rw [he] at hrun
        simp only [Except.bind, runSteps, Step.exec, bind] at hrun
        split at hrun
        · next w0' hw0 =>
          split at hw0
          · cases hw0
          · cases hw0; cases hrun; exact ⟨w1, rfl, rfl⟩
        · cases hrun
    subst hw01
    obtain ⟨hdb, hrefs, hhead, hcommits, hj, hbytes⟩ := hp.run_edits hedits
    have htip : w0.repo.tip = w.repo.tip := by simp only [Repo.tip, hrefs, hhead]
    refine .inr ⟨w0, rfl, ⟨hhead, ⟨_, by rw [← hcommits]; rfl, ?_, rfl, fun p => (hbytes p).2⟩, ?_,
      fun p => (hbytes p).1⟩, hj, hdb, ?_⟩
    · rw [htip]
    · rw [← hrefs, ← hhead, ← hcommits]; rfl
    · have hedit : runSteps env m.editSteps w =
          .ok { w0 with repo := w0.repo.commit m.message } := by
        rw [editSteps_eq, runSteps_append, runSteps_append, hbegin]
        simp only [Except.bind, hrun]
        rfl
      rw [steps, expand, hedit, editSteps_eq]
      simp [expand, preserveUnrelatedIndex, runSteps, Step.exec]

variable (env) in
/-- Where a `try` block may stop: before the journal, before the commit or after it. -/
theorem Planned.run_take (hp : m.Planned w) (n : Nat) :
    (∀ w', runSteps env ((m.steps env w).take n) w = .ok w' →
      w' = w ∨ (Editing m.saved w w' ∧ w'.journal = some m.saved) ∨
        Landed m w w' ∧ w'.journal = some m.saved ∧
          (w'.db = w.db ∨ w'.db = m.db ∧ (m.steps env w).length ≤ n)) ∧
    ∀ e w', runSteps env ((m.steps env w).take n) w = .error (e, w') →
      Editing m.saved w w' ∧ w'.journal = some m.saved := by
  have hstage := fun (steps : List (Step K))
      (hsub : steps ⊆ m.edits ++ [.assertStaged (m.writes.map (·.1))]) =>
    runSteps_invariant env (w := { w with journal := some m.saved })
      (P := fun w' => Editing m.saved w w' ∧ w'.journal = some m.saved)
      (fun s hs _ _ h1 he => hp.edit_step (hsub hs) h1 he)
      ⟨(Editing.refl m.saved w).edit fun _ _ => rfl, rfl⟩
  match n with
  | 0 =>
    refine ⟨fun w' h => .inl ?_, fun e w' h => ?_⟩
    · cases h; rfl
    · cases h
  | 1 =>
    have hone : (m.steps env w).take 1 = [.writeTemporary] := by
      rcases hp.steps_cases env with ⟨e, w1, -, hs, -⟩ | ⟨w1, -, -, -, -, hs⟩
      · rw [hs, editSteps_eq]; rfl
      · rw [hs]; rfl
    rw [hone]
    refine ⟨fun w' h => .inl ?_, fun e w' h => ?_⟩
    · cases h; rfl
    · cases h
  | n + 2 =>
    set pre := m.edits ++ [.assertStaged (m.writes.map (·.1))] with hpre
    have htwo : ∀ tail : List (Step K), m.steps env w =
        [.writeTemporary, .writeJournal m.saved] ++ pre ++ tail →
        runSteps env ((m.steps env w).take (n + 2)) w =
          (runSteps env (pre.take n) { w with journal := some m.saved }).bind
            (runSteps env (tail.take (n - pre.length))) := by
      intro tail htail
      rw [htail, List.append_assoc, List.take_append, List.take_append, runSteps_append]
      simp only [List.take_succ_cons, List.take_nil, List.length_cons, List.length_nil,
        Nat.reduceAdd, Nat.add_sub_cancel]
      exact runSteps_append _ _ _
    obtain ⟨tail, htail⟩ : ∃ tail, m.steps env w =
        [.writeTemporary, .writeJournal m.saved] ++ pre ++ tail := by
      rcases hp.steps_cases env with ⟨e, w1, -, hs, -⟩ | ⟨w1, -, -, -, -, hs⟩
      · exact ⟨_, hs.trans m.editSteps_eq⟩
      · exact ⟨_, hs⟩
    obtain ⟨hok, herror⟩ := hstage _ (List.take_subset n _)
    cases hr : runSteps env (pre.take n) { w with journal := some m.saved } with
    | error failure =>
      rw [htwo tail htail, hr]
      refine ⟨nofun, fun e w' h => ?_⟩
      cases h
      exact herror _ _ hr
    | ok w2 =>
      by_cases hn : n ≤ pre.length
      · rw [htwo tail htail, hr, show n - pre.length = 0 by omega]
        refine ⟨fun w' h => .inr (.inl ?_), nofun⟩
        cases h
        exact hok _ hr
      · -- Every step before the commit ran, so the rest of the block cannot throw.
        rw [List.take_of_length_le (by omega)] at hr
        rcases hp.steps_cases env with ⟨e, w1, hrun, -⟩ | ⟨w1, hrun, hland, hj, hdb, hs⟩
        · rw [hr] at hrun
          cases hrun
        · rw [htwo _ hs, List.take_of_length_le (by omega), hrun]
          obtain ⟨k, hk⟩ : ∃ k, n - pre.length = k + 1 := ⟨n - pre.length - 1, by omega⟩
          rw [hk]
          have hlanded : ∀ index db, Landed m w
              { w1 with repo := { w1.repo.commit m.message with index }, db } :=
            fun index db => ⟨hland.head, hland.commit, hland.refs, hland.work⟩
          match k with
          | 0 | 1 | 2 =>
            refine ⟨fun w' h => .inr (.inr ?_), nofun⟩
            cases h
            exact ⟨hlanded _ _, hj, .inl hdb⟩
          | k + 3 =>
            rw [List.take_of_length_le (by simp)]
            refine ⟨fun w' h => .inr (.inr ?_), nofun⟩
            cases h
            exact ⟨hlanded _ _, hj, .inr ⟨rfl, by
              have hlen : pre.length = m.edits.length + 1 := by simp [hpre]
              rw [hs]
              simp only [List.length_append, List.length_cons, List.length_nil]
              omega⟩⟩

end Mutation

/-! ## Rolling back -/

/-- The state before a change, up to objects that no ref names. -/
structure Restored (w w' : World K) : Prop where
  db : w'.db = w.db
  work : w'.repo.work = w.repo.work
  index : w'.repo.index = w.repo.index
  refs : w'.repo.refs = w.repo.refs
  head : w'.repo.head = w.repo.head
  commits : w'.repo.commits = w.repo.commits ∨ ∃ c : Commit,
    w'.repo.commits = w.repo.commits ++ [c] ∧ c.parents = w.repo.tip.toList
  journal : w'.journal = w.journal

theorem Restored.valid {w w' : World K} (h : Restored w w') (hv : w.repo.Valid) :
    w'.repo.Valid := by
  rcases h.commits with hc | ⟨c, hc, hpar⟩
  · exact ⟨by rw [h.refs, hc]; exact hv.refs, by rw [hc]; exact hv.parents⟩
  · exact hv.extend hc hpar fun name oid hr => .inr (by rwa [h.refs] at hr)

theorem run_restoreOriginalFiles (env : Env K) (saved : Journal) (w : World K) :
    runSteps env (restoreOriginalFiles saved) w = .ok { w with repo := { w.repo with
      work := saved.files.toList.foldl (fun t kv => t.put kv.1 kv.2.before) w.repo.work } } := by
  unfold restoreOriginalFiles
  generalize saved.files.toList = l
  induction l generalizing w with
  | nil => rfl
  | cons kv l ih =>
    simp only [List.map_cons, runSteps, Step.exec, ih, List.foldl_cons]

namespace Mutation
variable {m : Mutation K} {env : Env K} {w w' : World K}

/-- A state that a rollback undoes: files differ at journalled paths only, and the branch is where
it was or at the operation's commit. -/
structure Undoable (m : Mutation K) (w w' : World K) : Prop where
  db : w'.db = w.db
  head : w'.repo.head = w.repo.head
  work : ∀ path : String, m.saved.files[path]? = none → w'.repo.work[path]? = w.repo.work[path]?
  branch : (w'.repo.refs = w.repo.refs ∧ w'.repo.commits = w.repo.commits) ∨
    w'.repo.refs = w.repo.refs.insert w.repo.head w.repo.commits.length ∧
      ∃ c : Commit, w'.repo.commits = w.repo.commits ++ [c] ∧ c.parents = w.repo.tip.toList ∧
        ∀ (path : String) (after : Option Bytes), m.intended[path]? = some after →
          c.tree[path]? = after

theorem Undoable.of_editing (h : Editing m.saved w w') : Undoable m w w' :=
  ⟨h.db, h.head, h.work, .inl ⟨h.refs, h.commits⟩⟩

theorem Undoable.of_landed (hp : m.Planned w) (h : Landed m w w') (hdb : w'.db = w.db) :
    Undoable m w w' := by
  obtain ⟨c, hc, hpar, -, htree⟩ := h.commit
  refine ⟨hdb, h.head, fun path hpath => ?_, .inr ⟨h.refs, c, hc, hpar, fun path after ha => ?_⟩⟩
  · rw [h.work path]
    cases hi : m.intended[path]? with
    | none => rfl
    | some after =>
      obtain ⟨file, hf⟩ := hp.covered path after hi
      rw [hpath] at hf
      cases hf
  · rw [htree path, ha]
    rfl

theorem Undoable.tear (h : Undoable m w w') (files : Map String (Option Bytes))
    (index : Option (Option Tree)) : Undoable m w (torn m.saved files index w') :=
  ⟨h.db, h.head, fun path hpath => (tearFiles_work files w'.repo hpath).trans (h.work path hpath),
    h.branch⟩

theorem Planned.isOperationCommit (hp : m.Planned w) {r : Repo} {c : Commit}
    (hc : r.commits = w.repo.commits ++ [c]) (hpar : c.parents = w.repo.tip.toList)
    (htree : ∀ (path : String) (after : Option Bytes), m.intended[path]? = some after →
      c.tree[path]? = after) :
    isOperationCommit r m.saved w.repo.commits.length = true := by
  unfold HolderCore.isOperationCommit
  rw [hc, List.getElem?_append_right (le_refl _), Nat.sub_self, List.getElem?_cons_zero]
  simp only [Bool.and_eq_true, beq_iff_eq, List.all_eq_true, Prod.forall, hpar, hp.head, true_and]
  intro key file hmem
  rw [Std.ExtTreeMap.mem_toList_iff_getElem?_eq_some] at hmem
  rw [hp.files key file hmem]
  cases hi : m.intended[key]? with
  | none => rfl
  | some after => simp [htree key after hi]

variable (env) in
theorem Planned.rollback (hp : m.Planned w) (hv : w.repo.Valid) (h : Undoable m w w') :
    ∃ w'', runSteps env (m.rollbackSteps w') w' = .ok w'' ∧ Restored w w'' := by
  have hwork : ∀ (work : Tree), (∀ path : String, m.saved.files[path]? = none →
      work[path]? = w.repo.work[path]?) →
      m.saved.files.toList.foldl (fun t kv => t.put kv.1 kv.2.before) work = w.repo.work := by
    intro work hsame
    refine Map.ext fun path => ?_
    rw [Map.get_foldl_put_toList]
    cases hf : m.saved.files[path]? with
    | none => exact hsame path hf
    | some file => rw [hp.files path file hf]; rfl
  rcases h.branch with ⟨hrefs, hcommits⟩ | ⟨hrefs, c, hcommits, hpar, htree⟩
  · have hnone : m.rollbackSteps w' =
        restoreOriginalFiles m.saved ++ [.restoreIndex m.saved.index, .removeJournal] := by
      have htip : branchTip w'.repo m.saved = m.saved.head := by
        rw [hp.head, branchTip, hp.reference, hrefs]
        rfl
      rw [rollbackSteps, htip]
      cases m.saved.head <;> simp
    rw [hnone, runSteps_append, run_restoreOriginalFiles]
    refine ⟨_, rfl, h.db, hwork _ h.work, hp.index, hrefs, h.head, .inl hcommits, hp.journal.symm⟩
  · have hset : m.rollbackSteps w' = .setReference m.saved.reference m.saved.head ::
        (restoreOriginalFiles m.saved ++ [.restoreIndex m.saved.index, .removeJournal]) := by
      have htip : branchTip w'.repo m.saved = some w.repo.commits.length := by
        rw [branchTip, hp.reference, hrefs, Map.get_insert, if_pos rfl]
      have hne : some w.repo.commits.length ≠ m.saved.head := by
        rw [hp.head]
        intro he
        exact absurd (hv.tip_lt he.symm) (lt_irrefl _)
      rw [rollbackSteps, htip]
      simp [hne, hp.isOperationCommit hcommits hpar htree]
    rw [hset, runSteps]
    simp only [Step.exec]
    rw [runSteps_append, run_restoreOriginalFiles]
    refine ⟨_, rfl, h.db, hwork _ h.work, hp.index, ?_, h.head, .inr ⟨c, hcommits, hpar⟩,
      hp.journal.symm⟩
    refine Map.ext fun name => ?_
    change (w'.repo.refs.put _ _)[name]? = _
    rw [hrefs, hp.head, hp.reference, Map.get_put, Map.get_insert]
    by_cases hn : w.repo.head = name
    · rw [if_pos hn, ← hn]; rfl
    · rw [if_neg hn, if_neg hn]

end Mutation

end HolderCore
