import HolderCore.History.ProjectHistory

/-! # Pages of a project's history

A page holds the matching commits of a stretch of the walk, and its cursor stands at the end of the
stretch; without a cursor the stretch is the rest of the walk. The pages together therefore hold
every matching commit once. -/

namespace HolderCore

/-! ## The changed paths of a commit -/

namespace GitHistory

/-- The commit with the paths at which its tree differs from that of its first parent. -/
def changed (h : GitHistory) (commit : GitHistoryCommit) : ChangedCommit :=
  { commit with
    changedPaths := diffPaths ((commit.parentOids.head?.bind (h.trees[·]?)).getD ∅)
      (h.trees[commit.oid]?.getD ∅) }

section
variable {h : GitHistory} {commit : GitHistoryCommit}

theorem commitChangedPaths_eq (hc : h.Complete) (hw : commit ∈ h.walk) :
    h.commitChangedPaths commit = .ok (h.changed commit).changedPaths := by
  obtain ⟨tree, htree⟩ := Option.isSome_iff_exists.mp (hc.tree commit hw)
  have hlookup : h.commitTree commit.oid = .ok tree := by rw [commitTree, htree]
  rw [commitChangedPaths, hlookup, changed, htree]
  cases hp : commit.parentOids.head? with
  | none => rfl
  | some parent =>
    obtain ⟨parentTree, hparent⟩ := Option.isSome_iff_exists.mp
      (hc.parents commit hw parent (List.mem_of_head? hp))
    have hlookup' : h.commitTree parent = .ok parentTree := by rw [commitTree, hparent]
    simp [bind, Except.bind, pure, Except.pure, hlookup', hparent]

/-! ## One batch -/

/-- What a call returns of the commits behind its cursor: all, as many as its limit allows, or a
bounded number of them. -/
inductive ScannedAll (h : GitHistory) (limit : Nat) (walk : List GitHistoryCommit) :
    GitHistoryAllPage → Prop
  | all : ScannedAll h limit walk { commits := walk.map h.changed, scanCursor }
  | full : walk = taken ++ next :: left → taken.length = limit →
    ScannedAll h limit walk { commits := taken.map h.changed, hasMore := true, scanCursor }
  | bounded : walk = seen ++ last :: left → left ≠ [] → ScannedAll h limit walk
    { commits := (seen ++ [last]).map h.changed, scanLimited := true, scanCursor := some last.oid }

variable {limit maxScannedCommits : Nat}

theorem scanAll_scanned (hc : h.Complete) (hmax : 1 ≤ maxScannedCommits)
    (walk seen : List GitHistoryCommit) (hw : ∀ commit ∈ walk, commit ∈ h.walk) :
    ∃ page, h.scanAll limit maxScannedCommits seen.length walk
        { commits := seen.map h.changed, scanCursor := seen.getLast?.map (·.oid) } = .ok page ∧
      ScannedAll h limit (seen ++ walk) page := by
  induction walk generalizing seen with
  | nil =>
    rw [scanAll, List.append_nil]
    exact ⟨_, rfl, .all⟩
  | cons commit walk ih =>
    rw [scanAll]
    split
    · next hmaxed =>
      have hne : seen ≠ [] := by
        rintro rfl
        simp only [List.length_nil] at hmaxed
        omega
      obtain ⟨before, last, rfl⟩ := List.eq_nil_or_concat seen |>.resolve_left hne
      rw [List.concat_eq_append] at *
      refine ⟨_, rfl, ?_⟩
      simp only [List.getLast?_concat, Option.map_some]
      exact .bounded (by rw [List.append_assoc, List.singleton_append]) (List.cons_ne_nil _ _)
    · split
      · next hfull =>
        rw [List.length_map] at hfull
        exact ⟨_, rfl, .full rfl hfull⟩
      · rw [commitChangedPaths_eq hc (hw commit List.mem_cons_self)]
        have hrest := fun commit' hmem => hw commit' (List.mem_cons_of_mem _ hmem)
        have hstep := ih (seen ++ [commit]) hrest
        rwa [List.length_append, List.length_singleton, List.getLast?_concat, List.append_assoc,
          List.singleton_append, Option.map_some, List.map_append, List.map_singleton] at hstep

theorem historyAll_scanned (hc : h.Complete) (hlimit : 1 ≤ limit) (hmax : 1 ≤ maxScannedCommits)
    {cursor : Option String} {walk : List GitHistoryCommit} (hcursor : h.after cursor = some walk)
    (hw : walk.Sublist h.walk) :
    ∃ page, h.historyAll limit cursor maxScannedCommits = .ok page ∧
      ScannedAll h limit walk page := by
  unfold historyAll
  split
  · next hempty =>
    have hnil : walk = [] := by
      have : h.walk = [] := by simpa [Nat.one_le_iff_ne_zero.mp hlimit,
        Nat.one_le_iff_ne_zero.mp hmax] using hempty
      exact List.sublist_nil.mp (this ▸ hw)
    rw [hnil]
    exact ⟨_, rfl, .all⟩
  · rw [hcursor]
    exact scanAll_scanned hc hmax walk [] fun commit hmem => hw.subset hmem

end

end GitHistory

namespace ProjectHistory
open GitHistory

/-! ## The commits that match -/

/-- A commit that changes a path of the kind, or any commit where no kind is asked for. -/
def matchesKind (h : GitHistory) (kindFilter : Option ProjectHistoryObjectKind)
    (commit : GitHistoryCommit) : Bool :=
  kindFilter.all fun kind =>
    (h.changed commit).changedPaths.any fun path => classifyProjectHistoryPath path = kind

/-- The objects of a kind are opened by the paths of the kind. -/
theorem addAffectedPath_kind (path : String) (objects : List ProjectHistoryAffectedObject)
    (kind : ProjectHistoryObjectKind) :
    ((addAffectedPath path objects).any fun object => object.kind = kind) =
      ((objects.any fun object => object.kind = kind) || classifyProjectHistoryPath path = kind) := by
  induction objects with
  | nil => simp [addAffectedPath]
  | cons object objects ih =>
    rw [addAffectedPath]
    split
    · next hsame =>
      simp only [List.any_cons, ← hsame]
      cases decide (object.kind = kind) <;> simp
    · rw [List.any_cons, List.any_cons, ih, Bool.or_assoc]

theorem addAffectedPaths_kind (paths : List String) (objects : List ProjectHistoryAffectedObject)
    (kind : ProjectHistoryObjectKind) :
    ((paths.foldl (fun objects path => addAffectedPath path objects) objects).any
        fun object => object.kind = kind) =
      ((objects.any fun object => object.kind = kind) ||
        paths.any fun path => classifyProjectHistoryPath path = kind) := by
  induction paths generalizing objects with
  | nil => simp
  | cons path paths ih =>
    rw [List.foldl_cons, ih, addAffectedPath_kind, List.any_cons, Bool.or_assoc]

section
variable [NatCast K] {h : GitHistory} {env : Env K} {readers : Readers}
  {kindFilter : Option ProjectHistoryObjectKind}

/-- Neither the grouping of the paths nor what is displayed of them changes what matches. -/
theorem titledActivity_matches (commit : GitHistoryCommit) :
    projectHistoryActivityMatches (titledActivity h env readers (h.changed commit)) kindFilter =
      matchesKind h kindFilter commit := by
  cases kindFilter with
  | none => rfl
  | some kind =>
    have hgroup := addAffectedPaths_kind (h.changed commit).changedPaths [] kind
    rw [List.any_nil, Bool.false_or] at hgroup
    rw [matchesKind, Option.all_some, ← hgroup]
    simp only [projectHistoryActivityMatches, titledActivity, resolveDisplayMetadata, List.any_map]
    rfl

/-! ## One page -/

/-- The activities of a stretch of the walk. -/
def activitiesOf (h : GitHistory) (env : Env K) (readers : Readers)
    (kindFilter : Option ProjectHistoryObjectKind) (commits : List GitHistoryCommit) :
    List ProjectHistoryActivity :=
  (commits.filter (matchesKind h kindFilter)).map fun commit =>
    titledActivity h env readers (h.changed commit)

theorem activitiesOf_append (commits commits' : List GitHistoryCommit) :
    activitiesOf h env readers kindFilter (commits ++ commits') =
      activitiesOf h env readers kindFilter commits ++
        activitiesOf h env readers kindFilter commits' := by
  rw [activitiesOf, List.filter_append, List.map_append]
  rfl

/-- How a batch is added to a page: all of it, or the commits up to the one that fills the page. -/
inductive Added (h : GitHistory) (env : Env K) (readers : Readers)
    (kindFilter : Option ProjectHistoryObjectKind) (batch : GitHistoryAllPage)
    (page : ProjectHistoryPage) (commits : List GitHistoryCommit) :
    ProjectHistoryPage × Bool → Prop
  | all : Added h env readers kindFilter batch page commits ({ page with
      activities := page.activities ++ activitiesOf h env readers kindFilter commits }, false)
  | full : commits = taken ++ last :: left → Added h env readers kindFilter batch page commits
      ({ page with
        activities := page.activities ++ activitiesOf h env readers kindFilter (taken ++ [last])
        nextCursor := if !left.isEmpty || batch.hasMore || batch.scanLimited then some last.oid
          else page.nextCursor
        scanLimited := batch.scanLimited || page.scanLimited }, true)

variable (h env readers kindFilter) in
theorem addActivities_added (limit : Nat) (batch : GitHistoryAllPage)
    (commits : List GitHistoryCommit) (page : ProjectHistoryPage) :
    Added h env readers kindFilter batch page commits
      (addActivities h env readers kindFilter limit batch (commits.map h.changed) page) := by
  -- the commits before the one at hand are in the page already
  suffices hstep : ∀ before : List GitHistoryCommit,
      Added h env readers kindFilter batch page (before ++ commits)
        (addActivities h env readers kindFilter limit batch (commits.map h.changed) { page with
          activities := page.activities ++ activitiesOf h env readers kindFilter before }) by
    simpa [activitiesOf] using hstep []
  induction commits with
  | nil =>
    intro before
    rw [List.append_nil]
    exact .all
  | cons commit commits ih =>
    intro before
    have hnext := ih (before ++ [commit])
    rw [List.append_assoc, List.singleton_append, activitiesOf_append] at hnext
    rw [List.map_cons, addActivities]
    simp only [titledActivity_matches]
    split
    · next hno =>
      have hnone : activitiesOf h env readers kindFilter [commit] = [] := by
        rw [activitiesOf, List.filter_cons_of_neg (by simpa using hno), List.filter_nil, List.map_nil]
      rwa [hnone, List.append_nil] at hnext
    · next hyes =>
      have hone : activitiesOf h env readers kindFilter [commit] =
          [titledActivity h env readers (h.changed commit)] := by
        rw [activitiesOf, List.filter_cons_of_pos (by simpa using hyes), List.filter_nil,
          List.map_singleton]
      rw [hone, ← List.append_assoc] at hnext
      split
      · have hfull : Added h env readers kindFilter batch page (before ++ commit :: commits) _ :=
          .full rfl
        rw [activitiesOf_append, hone, ← List.append_assoc] at hfull
        rwa [List.isEmpty_map]
      · exact hnext

/-- A page of the walk behind a cursor: the matching commits of a first stretch, with a cursor
before the rest. -/
structure PageAt (h : GitHistory) (env : Env K) (readers : Readers)
    (kindFilter : Option ProjectHistoryObjectKind) (walk : List GitHistoryCommit)
    (page : ProjectHistoryPage) (taken left : List GitHistoryCommit) : Prop where
  split : walk = taken ++ left
  activities : page.activities = activitiesOf h env readers kindFilter taken
  last : page.nextCursor = none → left = []
  next : ∀ oid, page.nextCursor = some oid → taken ≠ [] ∧ h.after (some oid) = some left

/-- A page that ends behind a commit of the walk. -/
theorem PageAt.cut (hc : h.Complete) {before start taken seen left : List GitHistoryCommit}
    {last : GitHistoryCommit} {page : ProjectHistoryPage} (hstart : h.walk = before ++ start)
    (hsplit : start = taken ++ (seen ++ last :: left))
    (hactivities : page.activities =
      activitiesOf h env readers kindFilter (taken ++ (seen ++ [last])))
    (hcursor : page.nextCursor = some last.oid ∨ page.nextCursor = none ∧ left = []) :
    PageAt h env readers kindFilter start page (taken ++ (seen ++ [last])) left where
  split := by rw [hsplit]; simp
  activities := hactivities
  last hnone := by
    obtain hsome | ⟨-, hleft⟩ := hcursor
    · rw [hsome] at hnone
      cases hnone
    · exact hleft
  next oid hoid := by
    obtain hsome | ⟨hnone, -⟩ := hcursor
    · rw [hsome, Option.some.injEq] at hoid
      subst hoid
      have hplace : h.walk = (before ++ taken ++ seen) ++ last :: left := by
        rw [hstart, hsplit]
        simp
      exact ⟨by simp, after_append hc hplace⟩
    · rw [hnone] at hoid
      cases hoid

/-- A page with nothing left behind it. -/
theorem PageAt.done {start : List GitHistoryCommit} {page : ProjectHistoryPage}
    (hactivities : page.activities = activitiesOf h env readers kindFilter start)
    (hopen : page.nextCursor = none) : PageAt h env readers kindFilter start page start [] where
  split := (List.append_nil _).symm
  activities := hactivities
  last _ := rfl
  next oid hoid := by
    rw [hopen] at hoid
    cases hoid

variable {limit maxScannedCommits : Nat}

variable (env) in
/-- A page is read from any place of the walk on. -/
theorem listFrom_page (hc : h.Complete) (hlimit : 1 ≤ limit) (hmax : 1 ≤ maxScannedCommits)
    {before start : List GitHistoryCommit} (hstart : h.walk = before ++ start) (turns : Nat)
    (walk taken : List GitHistoryCommit) (rawCursor : Option String) (page : ProjectHistoryPage)
    (hsplit : start = taken ++ walk)
    (hactivities : page.activities = activitiesOf h env readers kindFilter taken)
    (hopen : page.nextCursor = none) (hcursor : h.after rawCursor = some walk)
    (hturns : walk.length < turns) :
    ∃ result taken' left,
      listFrom h env readers kindFilter maxScannedCommits limit turns rawCursor page =
        .ok (some result) ∧ result.headOid = page.headOid ∧
      PageAt h env readers kindFilter start result taken' left := by
  induction turns generalizing walk taken rawCursor page with
  | zero => omega
  | succ turns ih =>
    have hplace : h.walk = (before ++ taken) ++ walk := by rw [hstart, hsplit, List.append_assoc]
    have hsub : walk.Sublist h.walk := by
      rw [hplace]
      exact List.sublist_append_right _ _
    have hbatchLimit := hlimit.trans (le_max_right historyBatchSize limit)
    obtain ⟨batch, hbatch, hscan⟩ := historyAll_scanned hc hbatchLimit hmax hcursor hsub
    rw [listFrom, hbatch]
    simp only [bind, Except.bind]
    have happend : ∀ commits : List GitHistoryCommit,
        page.activities ++ activitiesOf h env readers kindFilter commits =
          activitiesOf h env readers kindFilter (taken ++ commits) := by
      intro commits
      rw [activitiesOf_append, ← hactivities]
    cases hscan with
    | @all scanCursor =>
      split
      · next hempty =>
        rw [List.map_eq_nil_iff.mp (List.isEmpty_iff.mp hempty), List.append_nil] at hsplit
        rw [← hsplit] at hactivities
        exact ⟨page, start, [], rfl, rfl, PageAt.done hactivities hopen⟩
      · have hadd := addActivities_added h env readers kindFilter limit
          { commits := walk.map h.changed, scanCursor } walk page
        generalize addActivities h env readers _ _ _ _ page = added at hadd ⊢
        cases hadd with
        | all =>
          have hwhole := happend walk
          rw [← hsplit] at hwhole
          exact ⟨_, start, [], rfl, rfl, .done hwhole hopen⟩
        | @full seen last left hw =>
          refine ⟨_, _, left, rfl, rfl, .cut hc hstart (by rw [hsplit, hw]) (happend _) ?_⟩
          cases left with
          | nil => exact .inr ⟨by simpa using hopen, rfl⟩
          | cons commit left => exact .inl rfl
    | @full batched commit left scanCursor hw hlen =>
      have hne : batched ≠ [] := by
        rintro rfl
        rw [List.length_nil] at hlen
        omega
      rw [if_neg (by simpa using hne)]
      have hadd := addActivities_added h env readers kindFilter limit
        { commits := batched.map h.changed, hasMore := true, scanCursor } batched page
      generalize addActivities h env readers _ _ _ _ page = added at hadd ⊢
      cases hadd with
      | all =>
        -- the next batch begins behind the last commit of this one
        obtain ⟨init, last, rfl⟩ := List.eq_nil_or_concat batched |>.resolve_left hne
        rw [List.concat_eq_append] at *
        have hlast : ((init ++ [last]).map h.changed).getLast?.map (·.oid) = some last.oid := by
          rw [List.map_append, List.map_singleton, List.getLast?_concat]
          rfl
        dsimp only
        rw [hlast]
        have hlastPlace : h.walk = (before ++ taken ++ init) ++ last :: (commit :: left) := by
          rw [hplace, hw]
          simp
        have hafter := after_append hc hlastPlace
        refine ih (commit :: left) (taken ++ (init ++ [last])) (some last.oid) _ ?_ (happend _)
          hopen hafter ?_
        · rw [hsplit, hw, List.append_assoc taken]
        · rw [hw, List.length_append, List.length_append, List.length_singleton] at hturns
          omega
      | @full seen last rest hbatched =>
        have hw' : walk = seen ++ last :: (rest ++ commit :: left) := by
          rw [hw, hbatched, List.append_assoc, List.cons_append]
        have hnext : (!rest.isEmpty || true || false) = true := by cases rest.isEmpty <;> rfl
        exact ⟨_, _, _, rfl, rfl,
          .cut hc hstart (by rw [hsplit, hw']) (happend _) (.inl (if_pos hnext))⟩
    | @bounded batched bound left hw hleft =>
      rw [if_neg (by simp)]
      have hadd := addActivities_added h env readers kindFilter limit
        { commits := (batched ++ [bound]).map h.changed, scanLimited := true,
          scanCursor := some bound.oid } (batched ++ [bound]) page
      generalize addActivities h env readers _ _ _ _ page = added at hadd ⊢
      cases hadd with
      | all =>
        exact ⟨_, _, left, rfl, rfl, .cut hc hstart (by rw [hsplit, hw]) (happend _) (.inl rfl)⟩
      | @full seen last rest hbatched =>
        have hw' : walk = seen ++ last :: (rest ++ left) := by
          rw [← List.cons_append, ← List.append_assoc, ← hbatched, hw, List.append_assoc,
            List.singleton_append]
        have hnext : (!rest.isEmpty || false || true) = true := Bool.or_true _
        exact ⟨_, _, _, rfl, rfl,
          .cut hc hstart (by rw [hsplit, hw']) (happend _) (.inl (if_pos hnext))⟩

/-! ## All pages -/

theorem followPages_from (hc : h.Complete) (hmax : 1 ≤ maxScannedCommits) (limits : List Nat)
    (hlimits : ∀ limit ∈ limits, 1 ≤ limit ∧ limit ≤ 200) (before walk : List GitHistoryCommit)
    (hw : h.walk = before ++ walk) (cursor : Option String) (hcursor : h.after cursor = some walk)
    (hturns : walk.length < limits.length) :
    ∃ pages, followPages h env readers kindFilter maxScannedCommits limits cursor =
        .ok (some pages) ∧
      pages.flatMap (·.activities) = activitiesOf h env readers kindFilter walk := by
  induction limits generalizing before walk cursor with
  | nil => simp at hturns
  | cons limit limits ih =>
    obtain ⟨hlow, hhigh⟩ := hlimits limit List.mem_cons_self
    obtain ⟨page, taken, left, hpage, -, hat⟩ := listFrom_page env hc hlow hmax hw
      (h.walk.length + 1) walk [] cursor ⟨h.headOid, [], none, false⟩ rfl rfl rfl hcursor
      (by rw [hw, List.length_append]; omega)
    have hlist : list h env readers kindFilter maxScannedCommits limit cursor = .ok (some page) := by
      rw [list, if_neg (by omega)]
      exact hpage
    rw [followPages, hlist]
    simp only [bind, Except.bind]
    cases hnext : page.nextCursor with
    | none =>
      refine ⟨[page], rfl, ?_⟩
      rw [List.flatMap_singleton, hat.activities, hat.split, hat.last hnext, List.append_nil]
    | some next =>
      obtain ⟨htaken, hafter⟩ := hat.next next hnext
      have hshort : left.length < walk.length := by
        have := List.length_pos_iff.mpr htaken
        rw [hat.split, List.length_append]
        omega
      obtain ⟨pages, hpages, hrest⟩ :=
        ih (fun limit hl => hlimits limit (List.mem_cons_of_mem _ hl)) (before ++ taken) left
          (by rw [hw, hat.split, List.append_assoc]) (some next) hafter
          (by rw [List.length_cons] at hturns; omega)
      refine ⟨page :: pages, ?_, ?_⟩
      · dsimp only
        rw [hpages]
        rfl
      · rw [List.flatMap_cons, hat.activities, hrest, hat.split, activitiesOf_append]

/-- The pages of a project's history, whatever their limits and the bound of the scan, end, and
their activities are the commits that match, each once and in the order of the walk. -/
theorem projectHistory_complete (hc : h.Complete) (hmax : 1 ≤ maxScannedCommits) {limits : List Nat}
    (hlimits : ∀ limit ∈ limits, 1 ≤ limit ∧ limit ≤ 200) (hturns : h.walk.length < limits.length) :
    ∃ pages, followPages h env readers kindFilter maxScannedCommits limits none = .ok (some pages) ∧
      pages.flatMap (·.activities) = (h.walk.filter (matchesKind h kindFilter)).map
        fun commit => titledActivity h env readers (h.changed commit) :=
  followPages_from hc hmax limits hlimits [] h.walk rfl none rfl hturns

end

/-- A card was created, and then a resource. -/
def cardAndResource : GitHistory where
  walk := [⟨"2", ["1"], "a", "a", 2, 2, "Attach r"⟩, ⟨"1", [], "a", "a", 1, 1, "Add card a"⟩]
  trees :=
    let first : Tree := (∅ : Tree).insert "cards/aa/aa/aaaa.md" []
    ((∅ : Map String Tree).insert "1" first).insert "2" (first.insert "resources/rr/rr/rrrr.json" [])

def noReaders : Readers where
  parseResourceManifest _ := .error (.runtimeError "")
  parseAiThreadManifest _ _ := .error (.runtimeError "")
  parseBootstrap _ := .error (.runtimeError "")
  parseSettings _ := .error (.runtimeError "")

theorem cardAndResource_complete :
    ∃ pages, followPages cardAndResource (plainEnv fun _ => []) noReaders (some .card) 1 [1, 2, 1] none =
        .ok (some pages) ∧
      pages.flatMap (·.activities) =
        (cardAndResource.walk.filter (matchesKind cardAndResource (some .card))).map fun commit =>
          titledActivity cardAndResource (plainEnv fun _ => []) noReaders
            (cardAndResource.changed commit) := by
  have hstate : (cardAndResource.walk.map (·.oid)).Nodup ∧ ∀ commit ∈ cardAndResource.walk,
      (cardAndResource.trees[commit.oid]?).isSome ∧
        ∀ parent ∈ commit.parentOids, (cardAndResource.trees[parent]?).isSome := by decide +kernel
  obtain ⟨hnodup, hobjects⟩ := hstate
  exact projectHistory_complete ⟨hnodup, fun c hc => (hobjects c hc).1, fun c hc => (hobjects c hc).2⟩
    (le_refl 1) (by decide : ∀ limit ∈ [1, 2, 1], 1 ≤ limit ∧ limit ≤ 200) (by decide)

example : matchesKind cardAndResource (some .card) <$> cardAndResource.walk = [false, true] := by
  decide +kernel

end ProjectHistory

end HolderCore
