import HolderCore.Git.Repo

/-! # The history of paths

`GitRepo::history_for_paths`: the commits that change a path, as a walk from `HEAD` visits them. A
call examines a bounded number of commits and returns a bounded number of those that touch a path,
from a cursor on. The order of the walk is that of the revision walker. -/

namespace HolderCore

structure GitHistoryCommit where
  oid : String
  parentOids : List String
  authorName : String
  authorEmail : String
  authoredAt : Int
  committedAt : Int
  message : String
deriving DecidableEq, Repr

structure GitHistoryPage where
  commits : List GitHistoryCommit := []
  hasMore : Bool := false
  scanLimited : Bool := false
  scanCursor : Option String := none
deriving DecidableEq, Repr

/-- The commits as a walk from `HEAD` visits them, none if it is unborn, and the tree of each
commit in the object store. -/
structure GitHistory where
  walk : List GitHistoryCommit
  trees : Map String Tree

namespace GitHistory

def headOid (h : GitHistory) : Option String := h.walk.head?.map (·.oid)

def commitTree (h : GitHistory) (oid : String) : Except Exn Tree :=
  match h.trees[oid]? with
  | some tree => .ok tree
  | none => .error (.runtimeError "git_commit_lookup failed")

def readBlobAt (h : GitHistory) (oid path : String) : Except Exn (Option Bytes) := do
  return (← h.commitTree oid)[path]?

/-- Against the first parent, or against nothing for a root commit. -/
def commitChangesPath (h : GitHistory) (commit : GitHistoryCommit) (path : String) :
    Except Exn Bool := do
  let tree ← h.commitTree commit.oid
  match commit.parentOids.head? with
  | none => return tree[path]? ≠ none
  | some parent => return tree[path]? ≠ (← h.commitTree parent)[path]?

def touches (h : GitHistory) (commit : GitHistoryCommit) : List String → Except Exn Bool
  | [] => return false
  | path :: paths => do
    match ← h.commitChangesPath commit path with
    | true => return true
    | false => touches h commit paths

/-- The commits behind a cursor. -/
def afterOid (oid : String) : List GitHistoryCommit → Option (List GitHistoryCommit)
  | [] => none
  | commit :: walk => if commit.oid == oid then some walk else afterOid oid walk

/-- Examine commits, of which `scanned` were examined before, until one too many touches a path. -/
def scan (h : GitHistory) (paths : List String) (limit maxScannedCommits : Nat) :
    (scanned : Nat) → List GitHistoryCommit → GitHistoryPage → Except Exn GitHistoryPage
  | _, [], page => .ok page
  | scanned, commit :: walk, page =>
    if scanned = maxScannedCommits then .ok { page with scanLimited := true }
    else do
      if ← h.touches commit paths then
        if page.commits.length = limit then
          return { page with hasMore := true, scanCursor := some commit.oid }
        else
          scan h paths limit maxScannedCommits (scanned + 1) walk
            { page with commits := page.commits ++ [commit], scanCursor := some commit.oid }
      else
        scan h paths limit maxScannedCommits (scanned + 1) walk
          { page with scanCursor := some commit.oid }

/-- Where a walk goes on from a cursor. -/
def after (h : GitHistory) : Option String → Option (List GitHistoryCommit)
  | none => some h.walk
  | some oid => afterOid oid h.walk

def historyForPaths (h : GitHistory) (paths : List String) (limit : Nat) (cursorOid : Option String)
    (maxScannedCommits : Nat) : Except Exn GitHistoryPage :=
  if paths.isEmpty ∨ limit = 0 ∨ maxScannedCommits = 0 ∨ h.walk.isEmpty then .ok {}
  else match h.after cursorOid with
    | none => .error (.invalidArgument "history cursor is not reachable from HEAD")
    | some walk => h.scan paths limit maxScannedCommits 0 walk {}

/-! ## What a call returns -/

/-- A walk visits a commit once, and the objects it needs are there. -/
structure Complete (h : GitHistory) : Prop where
  nodup : (h.walk.map (·.oid)).Nodup
  tree : ∀ commit ∈ h.walk, h.trees[commit.oid]?.isSome
  parents : ∀ commit ∈ h.walk, ∀ parent ∈ commit.parentOids, h.trees[parent]?.isSome

/-- A commit that leaves one of the paths with other content than its first parent has there. -/
def Touches (h : GitHistory) (paths : List String) (commit : GitHistoryCommit) : Prop :=
  ∃ path ∈ paths, (h.trees[commit.oid]?.bind (·[path]?)) ≠
    (commit.parentOids.head?.bind (h.trees[·]?)).bind (·[path]?)

instance (h : GitHistory) (paths : List String) (commit : GitHistoryCommit) :
    Decidable (h.Touches paths commit) := by
  unfold Touches
  infer_instance

/-- What a call finds in the commits behind its cursor: all that touch a path, as many as its
limit allows, or those among a bounded number of commits. -/
inductive Scanned (p : GitHistoryCommit → Bool) (limit : Nat) (walk : List GitHistoryCommit) :
    GitHistoryPage → Prop
  | all : walk.filter p = commits → Scanned p limit walk { commits, scanCursor }
  | full : walk.filter p = commits ++ commit :: more → commits.length = limit →
    Scanned p limit walk { commits, hasMore := true, scanCursor }
  | bounded : walk = seen ++ last :: left → (seen ++ [last]).filter p = commits →
    Scanned p limit walk { commits, scanLimited := true, scanCursor := some last.oid }

section
variable {h : GitHistory} {paths : List String} {commit : GitHistoryCommit}

theorem commitChangesPath_eq (hc : h.Complete) (hw : commit ∈ h.walk) (path : String) :
    h.commitChangesPath commit path = .ok (decide ((h.trees[commit.oid]?.bind (·[path]?)) ≠
      (commit.parentOids.head?.bind (h.trees[·]?)).bind (·[path]?))) := by
  obtain ⟨tree, htree⟩ := Option.isSome_iff_exists.mp (hc.tree commit hw)
  have hlookup : h.commitTree commit.oid = .ok tree := by rw [commitTree, htree]
  unfold commitChangesPath
  rw [hlookup, htree]
  cases hp : commit.parentOids.head? with
  | none => simp [bind, Except.bind, pure, Except.pure]
  | some parent =>
    obtain ⟨parentTree, hparent⟩ := Option.isSome_iff_exists.mp
      (hc.parents commit hw parent (List.mem_of_head? hp))
    have hlookup' : h.commitTree parent = .ok parentTree := by rw [commitTree, hparent]
    simp [bind, Except.bind, pure, Except.pure, hlookup', hparent]

theorem touches_eq (hc : h.Complete) (hw : commit ∈ h.walk) :
    h.touches commit paths = .ok (decide (h.Touches paths commit)) := by
  induction paths with
  | nil => simp [touches, Touches, pure, Except.pure]
  | cons path paths ih =>
    rw [touches, commitChangesPath_eq hc hw]
    change (match decide _ with
      | true => (return true : Except Exn Bool)
      | false => h.touches commit paths) = _
    split
    · next ht =>
      have hpath : h.Touches (path :: paths) commit :=
        ⟨path, List.mem_cons_self, of_decide_eq_true ht⟩
      rw [decide_eq_true hpath]
      rfl
    · next hf =>
      rw [ih]
      have hiff : h.Touches paths commit ↔ h.Touches (path :: paths) commit := by
        simp only [Touches, List.mem_cons, exists_eq_or_imp, of_decide_eq_false hf, false_or]
      simp only [hiff]

variable {limit maxScannedCommits : Nat}

/-- A scan goes on from the commits it examined before. -/
theorem scan_scanned (hc : h.Complete) (hmax : 1 ≤ maxScannedCommits)
    (walk seen : List GitHistoryCommit) (hw : ∀ commit ∈ walk, commit ∈ h.walk)
    (hlen : (seen.filter (h.Touches paths ·)).length ≤ limit) :
    ∃ page, h.scan paths limit maxScannedCommits seen.length walk
        { commits := seen.filter (h.Touches paths ·), scanCursor := seen.getLast?.map (·.oid) } =
          .ok page ∧
      Scanned (h.Touches paths ·) limit (seen ++ walk) page := by
  induction walk generalizing seen with
  | nil =>
    rw [scan]
    exact ⟨_, rfl, .all (by rw [List.append_nil])⟩
  | cons commit walk ih =>
    rw [scan]
    split
    · next hmaxed =>
      have hne : seen ≠ [] := by
        rintro rfl
        simp only [List.length_nil] at hmaxed
        omega
      obtain ⟨before, last, rfl⟩ := List.eq_nil_or_concat seen |>.resolve_left hne
      rw [List.concat_eq_append] at *
      refine ⟨_, rfl, ?_⟩
      simp only [List.getLast?_concat, Option.map_some]
      exact .bounded (by rw [List.append_assoc, List.singleton_append]) rfl
    · rw [touches_eq hc (hw commit List.mem_cons_self)]
      have hrest := fun commit' hmem => hw commit' (List.mem_cons_of_mem _ hmem)
      have hstep := ih (seen ++ [commit]) hrest
      rw [List.length_append, List.length_singleton, List.getLast?_concat, List.append_assoc,
        List.singleton_append, Option.map_some, List.filter_append] at hstep
      simp only [bind, Except.bind, decide_eq_true_eq]
      split
      · next hyes =>
        rw [List.filter_cons_of_pos (by exact decide_eq_true hyes), List.filter_nil] at hstep
        split
        · next hfull =>
          refine ⟨_, rfl, ?_⟩
          refine @Scanned.full _ _ _ _ commit (walk.filter (h.Touches paths ·)) _ ?_ hfull
          rw [List.filter_append, List.filter_cons_of_pos (by exact decide_eq_true hyes)]
        · exact hstep (by rw [List.length_append, List.length_singleton]; omega)
      · next hno =>
        rw [List.filter_cons_of_neg (by simpa using hno), List.filter_nil, List.append_nil] at hstep
        exact hstep hlen

/-- What a call finds behind a cursor of the walk. -/
theorem historyForPaths_scanned (hc : h.Complete) (hpaths : paths ≠ []) (hlimit : 1 ≤ limit)
    (hmax : 1 ≤ maxScannedCommits) {cursor : Option String} {walk : List GitHistoryCommit}
    (hcursor : h.after cursor = some walk) (hw : walk.Sublist h.walk) :
    ∃ page, h.historyForPaths paths limit cursor maxScannedCommits = .ok page ∧
      Scanned (h.Touches paths ·) limit walk page := by
  unfold historyForPaths
  split
  · next hempty =>
    have hnil : walk = [] := by
      have : h.walk = [] := by simpa [hpaths, Nat.one_le_iff_ne_zero.mp hlimit,
        Nat.one_le_iff_ne_zero.mp hmax] using hempty
      exact List.sublist_nil.mp (this ▸ hw)
    exact ⟨_, rfl, .all (by rw [hnil]; rfl)⟩
  · rw [hcursor]
    exact scan_scanned hc hmax walk [] (fun commit hmem => hw.subset hmem) (Nat.zero_le _)

/-! ## Places in the walk -/

theorem after_append (hc : h.Complete) {before left : List GitHistoryCommit}
    (hw : h.walk = before ++ commit :: left) : h.after (some commit.oid) = some left := by
  have hnodup := hc.nodup
  rw [after, hw]
  rw [hw] at hnodup
  clear hw
  induction before with
  | nil => simp [afterOid]
  | cons first before ih =>
    have hne : first.oid ≠ commit.oid := by
      intro he
      simp [he] at hnodup
    rw [List.cons_append, afterOid, if_neg (by simpa using hne)]
    exact ih (by simpa using (List.nodup_cons.mp (by simpa using hnodup)).2)

end

end GitHistory

end HolderCore
