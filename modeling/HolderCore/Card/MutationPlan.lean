import HolderCore.Card.FlowYaml
import HolderCore.Card.MutationLemmas

/-! # From a list of changes to a journalled mutation

The checks and renderings of `apply_card_changes` before its first durable step, and the outcome of
the whole call: it throws and leaves the state as it was, or it commits the intended files and
rows. -/

namespace HolderCore

section Prepare
variable {repo : Repo} {change change' : CardChange K}

/-- The plaintext of a change's file: a trashed card's file records its path in the trash. -/
def changePlain (env : Env K) (record : ParsedCardFile K) : Bytes :=
  renderCardFrontMatter env.yaml { record.card with relPath := record.card.filePath } record.links
    record.milestones ++ record.body.toList

/-- The change with the live path in its target row. -/
def CardChange.prepared (change : CardChange K) : CardChange K :=
  { change with target.card.relPath := livePath change.current.cardId }

theorem prepareChange_ok {rename : Option (String × String)}
    (h : prepareChange repo change = .ok (change', rename))
    (hid : change.target.card.cardId = change.current.cardId) :
    4 ≤ change.current.cardId.length ∧ change' = change.prepared ∧
      (change.current.relPath = livePath change.current.cardId ∨
        change.current.deletedAt.isSome ∧ change.current.relPath = trashPath change.current.cardId) ∧
      (∃ bytes, repo.work[change.current.filePath]? = some bytes) ∧
      (change.current.filePath = change.target.card.filePath ∧ rename = none ∨
        change.current.filePath ≠ change.target.card.filePath ∧
          repo.work[change.target.card.filePath]? = none ∧
          rename = some (change.current.filePath, change.target.card.filePath)) := by
  unfold prepareChange at h
  simp only [bind, Except.bind] at h
  split at h
  · cases h
  · next live hlive =>
    split at h
    · cases h
    · next trash htrash =>
      obtain ⟨hlen, rfl⟩ := cardRelPath_ok_iff.mp hlive
      obtain ⟨-, rfl⟩ := cardTrashRelPath_ok_iff.mp htrash
      have hsource : (if change.current.deletedAt.isSome = true then trashPath change.current.cardId
          else livePath change.current.cardId) = change.current.filePath := rfl
      have htarget : (if change.target.card.deletedAt.isSome = true
          then trashPath change.current.cardId else livePath change.current.cardId) =
          change.target.card.filePath := by
        rw [Card.filePath, hid]
      simp only [hsource, htarget] at h
      split at h
      · cases h
      · next hrel =>
        split at h
        · cases h
        · next hexists =>
          split at h
          · cases h
          · next hfree =>
            cases h
            refine ⟨hlen, rfl, (not_and_or.mp hrel).imp not_not.mp not_not.mp, ?_, ?_⟩
            · rw [Bool.not_eq_true, Bool.not_eq_false', Std.ExtTreeMap.contains_iff_mem,
                Map.mem_iff] at hexists
              exact hexists
            · by_cases he : change.current.filePath = change.target.card.filePath
              · exact .inl ⟨he, by simp [he]⟩
              · refine .inr ⟨he, ?_, by simp [he]⟩
                simp only [he, ne_eq, not_false_eq_true, true_and, Std.ExtTreeMap.contains_iff_mem]
                  at hfree
                exact Map.not_mem_iff.mp hfree

end Prepare

/-- The file of one prepared change. -/
structure RenderedChange (env : Env K) (change : CardChange K) (write : String × Bytes) : Prop where
  path : write.1 = change.target.card.filePath
  bytes : Encoded env (changePlain env change.target) write.2

theorem renderChange_ends {env : Env K} {change : CardChange K} {w : World K}
    (hlen : 4 ≤ change.target.card.cardId.length)
    (hrel : change.target.card.relPath = livePath change.target.card.cardId) :
    Ends (renderChange env change) w
      (fun write w' => DrewIvs w w' ∧ RenderedChange env change write) fun _ w' => w' = w := by
  unfold renderChange
  have hpath : (if change.target.card.deletedAt.isSome = true
      then cardTrashRelPath change.target.card.cardId else .ok change.target.card.relPath) =
      .ok change.target.card.filePath := by
    unfold Card.filePath
    split
    · exact cardTrashRelPath_ok_iff.mpr ⟨hlen, rfl⟩
    · rw [hrel]
  simp only [hpath, Ends.bind_iff, Ends.fromExcept_iff, Except.ok.injEq, forall_eq', reduceCtorEq,
    implies_true, and_true]
  refine (encodeCardBlob_ends _ w).mono ?_ fun _ _ he => he
  rintro bytes w' ⟨hw, he⟩
  exact ⟨hw, rfl, he⟩

/-! ## The journal of a plan -/

theorem openMutation_ok {w : World K} {paths : List String} {changes : Map String (Option Bytes)}
    {saved : Journal} (h : openMutation w paths changes = .ok saved) :
    w.journal = none ∧ saved.head = w.repo.tip ∧ saved.reference = w.repo.head ∧
      saved.index = w.repo.index ∧
      (∀ (path : String) (after : Option Bytes), changes[path]? = some after → path ∈ paths) ∧
      ∀ path : String, saved.files[path]? =
        if path ∈ paths then some ⟨w.repo.work[path]?, changes[path]?⟩ else none := by
  unfold openMutation at h
  simp only [bind, Except.bind] at h
  split at h
  · cases h
  · next hj =>
    split at h
    · cases h
    · next paths' hpaths =>
      have hsame : paths' = paths := by
        have hall := Except.forall₂_of_mapM hpaths
        refine (List.forall₂_eq_eq_eq ▸ hall.imp fun a b hab => ?_ : paths = paths').symm
        unfold journalFilePath at hab
        split at hab <;> cases hab
        rfl
      subst hsame
      split at h
      · cases h
      · next hcovered =>
        cases h
        refine ⟨by simpa using hj, rfl, rfl, rfl, fun path after ha => ?_, fun path => ?_⟩
        · simp only [Bool.not_eq_true, Bool.not_eq_false', List.all_eq_true, List.contains_iff_mem]
            at hcovered
          exact hcovered path (Std.ExtTreeMap.mem_keys.mpr (Map.mem_iff.mpr ⟨after, ha⟩))
        · have hput := Map.get_foldl_put
            (fun path => some (⟨w.repo.work[path]?, changes[path]?⟩ : JournalFile)) paths' ∅ path
          rw [Std.ExtTreeMap.getElem?_empty] at hput
          exact hput

/-! ## The plan -/

/-- A list of changes, each of one card. -/
def CardChanges (changes : List (CardChange K)) : Prop :=
  ∀ change ∈ changes, change.target.card.cardId = change.current.cardId

/-- What is known of a mutation planned for a list of changes. -/
structure PlannedFor (env : Env K) (w : World K) (changes : List (CardChange K)) (message : String)
    (m : Mutation K) : Prop where
  planned : m.Planned w
  message : m.message = message
  checks : ∀ change ∈ changes, 4 ≤ change.current.cardId.length ∧
    (change.current.relPath = livePath change.current.cardId ∨
      change.current.deletedAt.isSome ∧ change.current.relPath = trashPath change.current.cardId) ∧
    (∃ bytes, w.repo.work[change.current.filePath]? = some bytes) ∧
    (change.current.filePath ≠ change.target.card.filePath →
      w.repo.work[change.target.card.filePath]? = none)
  renames : ∀ rename, rename ∈ m.renames ↔ ∃ change ∈ changes,
    change.current.filePath ≠ change.target.card.filePath ∧
      rename = (change.current.filePath, change.target.card.filePath)
  writes : List.Forall₂ (RenderedChange env) (changes.map (·.prepared)) m.writes
  paths : ∀ path : String, (∃ file, m.saved.files[path]? = some file) ↔
    ∃ change ∈ changes, path = livePath change.current.cardId ∨
      path = trashPath change.current.cardId
  rows : (changes.map (·.prepared.target)).forM (changeRows env) w.db = .ok () m.db

private theorem prepared_renames {repo : Repo} {changes : List (CardChange K)}
    {prepared : List (CardChange K × Option (String × String))} (hids : CardChanges changes)
    (h : List.Forall₂ (fun change p => prepareChange repo change = .ok p) changes prepared) :
    prepared.map (·.1) = changes.map (·.prepared) ∧
      ∀ rename, rename ∈ prepared.filterMap (·.2) ↔ ∃ change ∈ changes,
        change.current.filePath ≠ change.target.card.filePath ∧
          rename = (change.current.filePath, change.target.card.filePath) := by
  induction h with
  | nil => simp
  | @cons change p changes prepared hp _ ih =>
    obtain ⟨change', rename'⟩ := p
    obtain ⟨hfst, hmem⟩ := ih fun c hc => hids c (List.mem_cons_of_mem _ hc)
    obtain ⟨-, rfl, -, -, hren⟩ := prepareChange_ok hp (hids change List.mem_cons_self)
    refine ⟨by simp [hfst], fun rename => ?_⟩
    rw [List.filterMap_cons, List.exists_mem_cons_iff]
    rcases hren with ⟨he, rfl⟩ | ⟨hne, -, rfl⟩
    · simpa [he] using hmem rename
    · simp [hmem rename, hne]

private theorem forM_prepared (env : Env K) (changes : List (CardChange K)) :
    (changes.map (·.prepared.target)).forM (changeRows env) =
      (changes.map (·.prepared)).forM fun change => changeRows env change.target := by
  induction changes with
  | nil => rfl
  | cons change changes ih => exact congrArg (changeRows env change.prepared.target *> ·) ih

theorem planMutation_ends {env : Env K} {w : World K} {changes : List (CardChange K)}
    {message : String} (hids : CardChanges changes) :
    Ends (planMutation env changes message) w
      (fun m w' => DrewIvs w w' ∧ PlannedFor env w changes message m) fun _ w' => DrewIvs w w' := by
  unfold planMutation
  simp only [Ends.bind_iff, Ends.get_iff, Ends.fromExcept_iff]
  refine ⟨fun prepared hprep => ?_, fun _ _ => DrewIvs.refl w⟩
  have hall := Except.forall₂_of_mapM hprep
  obtain ⟨hfst, hrenames⟩ := prepared_renames hids hall
  have hcheck : ∀ change ∈ changes, ∃ p, prepareChange w.repo change = .ok p := by
    intro change hc
    obtain ⟨p, -, hp⟩ := hall.exists_right hc
    exact ⟨p, hp⟩
  rw [hfst]
  refine Ends.mono (Ends.mapM (I := DrewIvs w) (R := RenderedChange env) ?_ (DrewIvs.refl w)) ?_
    fun _ _ he => he
  · intro change hmem s hs
    obtain ⟨c, hc, rfl⟩ := List.mem_map.mp hmem
    obtain ⟨⟨change', rename⟩, hp⟩ := hcheck c hc
    have hlen := (prepareChange_ok hp (hids c hc)).1
    refine (renderChange_ends (by simpa [CardChange.prepared, hids c hc] using hlen)
      (by simp [CardChange.prepared, hids c hc])).mono ?_ ?_
    · rintro write s' ⟨hs', hr⟩
      exact ⟨hs.trans hs', hr⟩
    · rintro _ _ rfl
      exact hs
  · rintro writes w1 ⟨hw1, hwrites⟩
    refine ⟨fun saved hsaved => ?_, fun _ _ => hw1⟩
    obtain ⟨hj, hhead, href, hindex, hcov, hfiles⟩ := openMutation_ok hsaved
    have hpaths : ∀ path : String, (∃ file, saved.files[path]? = some file) ↔
        ∃ change ∈ changes, path = livePath change.current.cardId ∨
          path = trashPath change.current.cardId := by
      intro path
      rw [hfiles path]
      simp
    split
    · next u db hrows =>
      refine ⟨hw1, ?_⟩
      exact {
        planned := {
          journal := hj
          head := hhead
          reference := href
          index := hindex
          files := by
            intro path file hf
            rw [hfiles path] at hf
            split at hf
            · cases hf; rfl
            · cases hf
          covered := by
            intro path after ha
            rw [hfiles path, if_pos (hcov path after ha)]
            exact ⟨_, rfl⟩
          targets := by
            intro rename hr
            obtain ⟨change, hc, -, rfl⟩ := (hrenames rename).mp hr
            obtain ⟨write, hwrite, hren⟩ := hwrites.exists_right (List.mem_map.mpr ⟨change, hc, rfl⟩)
            exact List.mem_map.mpr ⟨write, hwrite, hren.path⟩ }
        message := rfl
        checks := by
          intro change hc
          obtain ⟨⟨change', rename⟩, hp⟩ := hcheck change hc
          obtain ⟨hlen, -, hrel, hsrc, htgt⟩ := prepareChange_ok hp (hids change hc)
          refine ⟨hlen, hrel, hsrc, fun hne => ?_⟩
          rcases htgt with ⟨he, -⟩ | ⟨-, hfree, -⟩
          · exact absurd he hne
          · exact hfree
        renames := hrenames
        writes := hwrites
        paths := hpaths
        rows := by rw [forM_prepared]; exact hrows }
    · exact hw1

/-! ## The whole call -/

/-- A change that ran to its end: one commit on top of the old tip, the intended files and rows,
and the old index except at the operation's own paths. -/
structure Applied (m : Mutation K) (w w' : World K) : Prop where
  landed : m.Landed w w'
  db : w'.db = m.db
  staged : ∀ path : String, w'.repo.staged[path]? =
    if m.saved.files.contains path then m.intended[path]?.getD (w.repo.treeAt w.repo.tip)[path]?
    else w.repo.staged[path]?

namespace Mutation
variable {m : Mutation K} {env : Env K} {w w' : World K}

theorem Planned.run_steps (hp : m.Planned w) (h : runSteps env (m.steps env w) w = .ok w') :
    Applied m w w' ∧ w'.journal = some m.saved := by
  rcases hp.steps_cases env with ⟨e, w1, hrun, hs, -⟩ | ⟨w1, hrun, hland, hj, hdb, hs⟩
  · rw [hs, editSteps_eq, runSteps_append, runSteps_append] at h
    change ((runSteps env _ _).bind _).bind _ = _ at h
    rw [show runSteps env [.writeTemporary, .writeJournal m.saved] w =
      .ok { w with journal := some m.saved } from rfl] at h
    simp only [Except.bind, hrun] at h
    cases h
  · rw [hs, runSteps_append, runSteps_append] at h
    rw [show runSteps env [.writeTemporary, .writeJournal m.saved] w =
      .ok { w with journal := some m.saved } from rfl] at h
    simp only [Except.bind, hrun, runSteps, Step.exec] at h
    cases h
    obtain ⟨c, hc, -, -, htree⟩ := hland.commit
    have hctree : w1.repo.staged = c.tree := by
      have hlast := congrArg List.getLast? hc
      simp only [Repo.commit, List.getLast?_append, List.getLast?_singleton, Option.some_or,
        Option.some.injEq] at hlast
      rw [← hlast]
    refine ⟨⟨⟨hland.head, hland.commit, hland.refs, hland.work⟩, rfl, fun path => ?_⟩, hj⟩
    change (overlay w1.repo.staged m.saved.files.keys (m.saved.index.getD ∅))[path]? = _
    rw [overlay, Map.get_foldl_put (fun path => w1.repo.staged[path]?)]
    simp only [Std.ExtTreeMap.mem_keys, Std.ExtTreeMap.contains_iff_mem]
    rw [hctree, htree path, hp.index]
    rfl

variable (env) in
/-- A `try` block runs to its end, or throws in a state that its rollback undoes. -/
theorem Planned.runFaulty_cases (hp : m.Planned w) (fault : Option Fault) :
    (∃ w', runFaulty env m.saved fault (m.steps env w) w = .ok w' ∧
      runSteps env (m.steps env w) w = .ok w') ∨
    ∃ e w', runFaulty env m.saved fault (m.steps env w) w = .error (e, w') ∧ Undoable m w w' := by
  have hrun : (∃ w', runSteps env (m.steps env w) w = .ok w') ∨
      ∃ e w', runSteps env (m.steps env w) w = .error (e, w') ∧ Undoable m w w' := by
    cases h : runSteps env (m.steps env w) w with
    | ok w' => exact .inl ⟨w', rfl⟩
    | error failure =>
      have := (hp.run_take env (m.steps env w).length).2 failure.1 failure.2
      rw [List.take_of_length_le (le_refl _)] at this
      exact .inr ⟨failure.1, failure.2, rfl, .of_editing (this h).1⟩
  cases fault with
  | none => exact hrun.imp (fun ⟨w', h⟩ => ⟨w', h, h⟩) id
  | some fault =>
    cases fault with
    | plan exn => exact hrun.imp (fun ⟨w', h⟩ => ⟨w', h, h⟩) id
    | finish exn => exact hrun.imp (fun ⟨w', h⟩ => ⟨w', h, h⟩) id
    | step n exn files index =>
      obtain ⟨hok, herror⟩ := hp.run_take env n
      simp only [runFaulty]
      cases h : runSteps env ((m.steps env w).take n) w with
      | error failure =>
        exact .inr ⟨failure.1, failure.2, rfl, .of_editing (herror failure.1 failure.2 h).1⟩
      | ok w1 =>
        by_cases hn : n < (m.steps env w).length
        · have hu : Undoable m w w1 := by
            rcases hok w1 h with rfl | ⟨hedit, -⟩ | ⟨hland, -, hdb | ⟨-, hlen⟩⟩
            · exact .of_editing (.refl _ _)
            · exact .of_editing hedit
            · exact .of_landed hp hland hdb
            · omega
          exact .inr ⟨exn, _, by simp only [hn, if_true], hu.tear files index⟩
        · rw [List.take_of_length_le (by omega)] at h
          exact .inl ⟨w1, by simp only [hn, if_false], h⟩

theorem Planned.run_ends (hp : m.Planned w) (hv : w.repo.Valid) (fault : Option Fault) :
    Ends (m.run env fault) w (fun _ w' => Applied m w w' ∧ w'.journal = none) fun _ w' =>
      Restored w w' ∨ ∃ exn, fault = some (.finish exn) := by
  unfold Ends Mutation.run
  rcases hp.runFaulty_cases env fault with ⟨w1, hf, hrun⟩ | ⟨e, w1, hf, hu⟩
  · obtain ⟨happlied, -⟩ := hp.run_steps hrun
    rw [hf]
    have hdone : Applied m w { w1 with journal := none } :=
      ⟨⟨happlied.landed.head, happlied.landed.commit, happlied.landed.refs, happlied.landed.work⟩,
        happlied.db, happlied.staged⟩
    cases fault with
    | none => exact ⟨hdone, rfl⟩
    | some fault =>
      cases fault with
      | plan => exact ⟨hdone, rfl⟩
      | finish exn => exact .inr ⟨exn, rfl⟩
      | step => exact ⟨hdone, rfl⟩
  · obtain ⟨w2, hroll, hres⟩ := hp.rollback env hv hu
    simp only [hf, hroll]
    exact .inl hres

end Mutation

theorem Applied.of_drewIvs {m : Mutation K} {w w1 w' : World K} (hd : DrewIvs w w1)
    (h : Applied m w1 w') : Applied m w w' := by
  obtain ⟨n, rfl⟩ := hd
  exact ⟨⟨h.landed.head, h.landed.commit, h.landed.refs, h.landed.work⟩, h.db, h.staged⟩

theorem Restored.of_drewIvs {w w1 w' : World K} (hd : DrewIvs w w1) (h : Restored w1 w') :
    Restored w w' := by
  obtain ⟨n, rfl⟩ := hd
  exact ⟨h.db, h.work, h.index, h.refs, h.head, h.commits, h.journal⟩

theorem Restored.of_drew {w w' : World K} (hd : DrewIvs w w') : Restored w w' := by
  obtain ⟨n, rfl⟩ := hd
  exact ⟨rfl, rfl, rfl, rfl, rfl, .inl rfl, rfl⟩

/-- A call of `apply_card_changes` commits the planned mutation or leaves everything as it was,
unless removing the journal of the committed change throws. -/
theorem applyCardChangesWith_ends {env : Env K} {w : World K} {changes : List (CardChange K)}
    {message : String} (hids : CardChanges changes) (hv : w.repo.Valid) (fault : Option Fault) :
    Ends (applyCardChangesWith env fault changes message) w
      (fun _ w' => ∃ m, PlannedFor env w changes message m ∧ Applied m w w' ∧ w'.journal = none)
      fun _ w' => Restored w w' ∨ ∃ exn, fault = some (.finish exn) := by
  unfold applyCardChangesWith
  refine (planMutation_ends hids).bind ?_ fun _ w' hd => .inl (.of_drew hd)
  rintro m w1 ⟨hd, hplan⟩
  have hp1 : m.Planned w1 := by
    obtain ⟨n, rfl⟩ := hd
    have hp := hplan.planned
    exact ⟨hp.journal, hp.head, hp.reference, hp.index, hp.files, hp.covered, hp.targets⟩
  have hv1 : w1.repo.Valid := by
    obtain ⟨n, rfl⟩ := hd
    exact hv
  have hrun : Ends (m.run env fault) w1
      (fun _ w' => ∃ m, PlannedFor env w changes message m ∧ Applied m w w' ∧ w'.journal = none)
      fun _ w' => Restored w w' ∨ ∃ exn, fault = some (.finish exn) := by
    refine (hp1.run_ends hv1 fault).mono ?_ ?_
    · rintro - w' ⟨ha, hj⟩
      exact ⟨m, hplan, ha.of_drewIvs hd, hj⟩
    · rintro - w' (hres | hfin)
      · exact .inl (hres.of_drewIvs hd)
      · exact .inr hfin
  split
  · exact .inl (.of_drew hd)
  · exact hrun

theorem applyCardChanges_ends {env : Env K} {w : World K} {changes : List (CardChange K)}
    {message : String} (hids : CardChanges changes) (hv : w.repo.Valid) :
    Ends (applyCardChanges env changes message) w
      (fun _ w' => ∃ m, PlannedFor env w changes message m ∧ Applied m w w' ∧ w'.journal = none)
      fun _ w' => Restored w w' := by
  refine (applyCardChangesWith_ends hids hv none).mono (fun _ _ h => h) ?_
  rintro - w' (hres | ⟨exn, hfin⟩)
  · exact hres
  · cases hfin

/-! ## Isolation -/

/-- A path of a card that one of the changes is about. -/
def OwnPath (changes : List (CardChange K)) (path : String) : Prop :=
  ∃ change ∈ changes, path = livePath change.current.cardId ∨ path = trashPath change.current.cardId

/-- Whatever throws up to the SQLite commit, `apply_card_changes` leaves every file, the index, the
refs, the rows and the journal as they were. When it returns, the branch has one more commit, and the
commit's tree, the index and the files differ from `HEAD`'s tree, the old index and the old files at
the operation's own paths only. -/
theorem applyCardChangesWith_atomic {env : Env K} {w : World K} (hv : w.repo.Valid)
    {changes : List (CardChange K)} (hids : CardChanges changes) (message : String)
    {fault : Option Fault} (hfault : ∀ exn, fault ≠ some (.finish exn)) :
    Ends (applyCardChangesWith env fault changes message) w
      (fun _ w' => w'.journal = none ∧ w'.repo.tip = some w.repo.commits.length ∧
        ∃ commit, w'.repo.commits = w.repo.commits ++ [commit] ∧
          commit.parents = w.repo.tip.toList ∧ ∀ path : String, ¬ OwnPath changes path →
            commit.tree[path]? = (w.repo.treeAt w.repo.tip)[path]? ∧
            w'.repo.staged[path]? = w.repo.staged[path]? ∧ w'.repo.work[path]? = w.repo.work[path]?)
      fun _ w' => w'.db = w.db ∧ w'.repo.work = w.repo.work ∧ w'.repo.index = w.repo.index ∧
        w'.repo.refs = w.repo.refs ∧ w'.repo.head = w.repo.head ∧ w'.journal = w.journal := by
  refine (applyCardChangesWith_ends hids hv fault).mono ?_ ?_
  · rintro - w' ⟨m, hplan, ha, hj⟩
    obtain ⟨commit, hcommits, hparents, -, htree⟩ := ha.landed.commit
    refine ⟨hj, ?_, commit, hcommits, hparents, fun path hown => ?_⟩
    · rw [Repo.tip, ha.landed.head, ha.landed.refs, Map.get_insert, if_pos rfl]
    · have hfile : m.saved.files[path]? = none := by
        cases hf : m.saved.files[path]? with
        | none => rfl
        | some file => exact absurd ((hplan.paths path).mp ⟨file, hf⟩) hown
      have hintended : m.intended[path]? = none := by
        cases hi : m.intended[path]? with
        | none => rfl
        | some after =>
          obtain ⟨file, hf⟩ := hplan.planned.covered path after hi
          rw [hfile] at hf
          cases hf
      refine ⟨by rw [htree, hintended]; rfl, ?_, by rw [ha.landed.work, hintended]; rfl⟩
      rw [ha.staged, if_neg]
      rw [Std.ExtTreeMap.contains_iff_mem]
      exact Map.not_mem_iff.mpr hfile
  · rintro - w' (hres | ⟨exn, hfin⟩)
    · exact ⟨hres.db, hres.work, hres.index, hres.refs, hres.head, hres.journal⟩
    · exact absurd hfin (hfault exn)

/-- A project with one card, not yet committed. -/
def oneCard : World ℚ :=
  let card := { plainCard "aaaa" "a" none 1 with relPath := livePath "aaaa" }
  { db := ⟨(∅ : Map String (Card ℚ)).insert "aaaa" card, ∅, ∅, ∅, ∅⟩
    repo := Repo.init.writeFile card.relPath (renderCardFrontMatter flowYaml card [] [])
    journal := none
    ivs := 0 }

/-- A new title for that card. -/
def retitled : List (CardChange ℚ) :=
  let card := { plainCard "aaaa" "a" none 1 with relPath := livePath "aaaa" }
  [⟨card, ⟨{ card with title := "b", updatedAt := 2 }, [], [], "", true⟩⟩]

theorem oneCard_valid : oneCard.repo.Valid :=
  ⟨by simp [oneCard, Repo.init], by simp [oneCard, Repo.init]⟩

theorem retitled_changes : CardChanges retitled := by
  intro change hc
  rw [List.mem_singleton.mp hc]

/-- The write of the new file fails. -/
theorem retitled_write_fails :
    (∀ exn, some (Fault.step 3 (.runtimeError "disk full") ∅ none) ≠ some (.finish exn)) ∧
    Ends (applyCardChangesWith (plainEnv fun _ => [])
        (some (.step 3 (.runtimeError "disk full") ∅ none)) retitled "Rename card b") oneCard
      (fun _ w' => w'.journal = none ∧ w'.repo.tip = some oneCard.repo.commits.length ∧
        ∃ commit, w'.repo.commits = oneCard.repo.commits ++ [commit] ∧
          commit.parents = oneCard.repo.tip.toList ∧ ∀ path : String, ¬ OwnPath retitled path →
            commit.tree[path]? = (oneCard.repo.treeAt oneCard.repo.tip)[path]? ∧
            w'.repo.staged[path]? = oneCard.repo.staged[path]? ∧
            w'.repo.work[path]? = oneCard.repo.work[path]?)
      fun _ w' => w'.db = oneCard.db ∧ w'.repo.work = oneCard.repo.work ∧
        w'.repo.index = oneCard.repo.index ∧ w'.repo.refs = oneCard.repo.refs ∧
        w'.repo.head = oneCard.repo.head ∧ w'.journal = oneCard.journal :=
  ⟨by simp, applyCardChangesWith_atomic oneCard_valid retitled_changes _ (by simp)⟩

/-- The journal of a committed change cannot be removed: the call throws, and the change stays. -/
theorem retitled_finish_fails :
    ∃ w', applyCardChangesWith (plainEnv fun _ => [])
        (some (.finish (.runtimeError "remove failed"))) retitled "Rename card b" oneCard =
      .error (.runtimeError "remove failed") w' ∧ w'.journal.isSome ∧
      w'.repo.tip ≠ oneCard.repo.tip ∧
      w'.repo.work[livePath "aaaa"]? ≠ oneCard.repo.work[livePath "aaaa"]? ∧
      w'.db.cards["aaaa"]? ≠ oneCard.db.cards["aaaa"]? := by
  obtain ⟨_, w', hrun, rfl, hleft⟩ : ∃ e w', applyCardChangesWith (plainEnv fun _ => [])
        (some (.finish (.runtimeError "remove failed"))) retitled "Rename card b" oneCard =
      .error e w' ∧ e = .runtimeError "remove failed" ∧ w'.journal.isSome ∧
      w'.repo.tip ≠ oneCard.repo.tip ∧
      w'.repo.work[livePath "aaaa"]? ≠ oneCard.repo.work[livePath "aaaa"]? ∧
      w'.db.cards["aaaa"]? ≠ oneCard.db.cards["aaaa"]? := Ends.throws (by decide +kernel)
  exact ⟨w', hrun, hleft⟩

end HolderCore
