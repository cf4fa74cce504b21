import HolderCore.Git.Repo
import HolderCore.Library.Outcome

/-! # Merging a diverged pull

`merge_remote_taking_theirs_for_conflicts` of `git/GitRepo.cpp`: the remote commit is checked out
and the paths that only the local side changed are replayed on it. The merge base, the tree diff and
the checkout are libgit2's. -/

namespace HolderCore

/-- The status of a difference between two trees. -/
inductive DeltaStatus where
  | added | modified | deleted
deriving DecidableEq, Repr

structure Delta where
  path : String
  status : DeltaStatus

inductive ChangeType where
  | addedOrModified | deleted
deriving DecidableEq, Repr

structure ChangedPath where
  path : String
  type : ChangeType

/-- What the pull uses of libgit2. -/
structure Libgit2 where
  mergeBase : List Commit → (a b : Nat) → Except Exn Nat
  diffTreeToTree : (old new : Tree) → List Delta
  /-- A safe checkout, given `HEAD`'s tree, the working tree and the index: the new ones. -/
  checkoutTree : (head work index target : Tree) → Except Exn (Tree × Tree)

/-- The tree diff reports exactly the differing paths, each once, and a safe checkout from a clean
tree leaves the index and the working tree equal to its target. -/
structure Libgit2.Lawful (lib : Libgit2) : Prop where
  diff_nodup : ∀ old new, ((lib.diffTreeToTree old new).map (·.path)).Nodup
  diff_path : ∀ (old new : Tree) (path : String),
    path ∈ (lib.diffTreeToTree old new).map (·.path) ↔ new[path]? ≠ old[path]?
  diff_deleted : ∀ old new, ∀ d ∈ lib.diffTreeToTree old new,
    d.status = .deleted ↔ new[d.path]? = none
  checkout_clean : ∀ tree target, lib.checkoutTree tree tree tree target = .ok (target, target)

abbrev GitM := EStateM Exn Repo

namespace Repo

/-- The index and the working tree are those of `HEAD`. -/
structure Clean (r : Repo) : Prop where
  work : r.work = r.treeAt r.tip
  index : r.staged = r.treeAt r.tip

section
variable (lib : Libgit2)

def lookupCommit (r : Repo) (oid : Nat) : Except Exn Commit :=
  match r.commits[oid]? with
  | some commit => .ok commit
  | none => .error (.runtimeError "git_commit_lookup failed")

def changeType : DeltaStatus → ChangeType
  | .deleted => .deleted
  | .added | .modified => .addedOrModified

/-- The paths that differ between two commits' trees. -/
def diffChangedPaths (r : Repo) (old new : Nat) : Except Exn (List ChangedPath) := do
  let old ← r.lookupCommit old
  let new ← r.lookupCommit new
  return (lib.diffTreeToTree old.tree new.tree).map fun d => ⟨d.path, changeType d.status⟩

def checkoutCommitOid (oid : Nat) : GitM Unit := do
  let r ← get
  let commit ← fromExcept (r.lookupCommit oid)
  let (work, index) ← fromExcept (lib.checkoutTree (r.treeAt r.tip) r.work r.staged commit.tree)
  set { r with work, index := some index }

/-- Replay one change of the local side on the files and on the index. -/
def replayLocalChange (localOid : Nat) (change : ChangedPath) : GitM Unit := do
  match change.type with
  | .deleted =>
    modify fun r => { r with work := r.work.erase change.path }
    modify fun r => r.removePath change.path
  | .addedOrModified =>
    match ← fromExcept ((← get).readBlobAt localOid change.path) with
    | none => return
    | some content =>
      modify fun r => r.writeFile change.path content
      set (← fromExcept ((← get).stagePath change.path))

def replayLocalChanges (localOid : Nat) : List ChangedPath → GitM Unit
  | [] => return
  | change :: changes => do
    replayLocalChange localOid change
    replayLocalChanges localOid changes

def mergeMessage (name : String) (conflicts : Nat) : String :=
  "Merge " ++ name ++ ": keep remote for " ++ toString conflicts ++ " conflicting card(s)"

/-- Commit the index on `HEAD`, whose tip must be the first parent. -/
def commitMerge (localOid remoteOid : Nat) (message : String) : GitM Unit := do
  let r ← get
  let _ ← fromExcept (r.lookupCommit localOid)
  let _ ← fromExcept (r.lookupCommit remoteOid)
  if r.tip ≠ some localOid then throw (.runtimeError "git_commit_create_v (merge) failed")
  set { r with
    index := some r.staged
    commits := r.commits ++ [(⟨r.staged, [localOid, remoteOid], message⟩ : Commit)]
    refs := r.refs.insert r.head r.commits.length }

/-- Merge the remote commit, keeping its side of every conflict: the conflicted paths. -/
def mergeRemoteTakingTheirsForConflicts (name : String) (localOid remoteOid : Nat) :
    GitM (List String) := do
  let r ← get
  let mergeBaseOid ← fromExcept (lib.mergeBase r.commits localOid remoteOid)
  let localChanges ← fromExcept (r.diffChangedPaths lib mergeBaseOid localOid)
  let remoteChanges ← fromExcept (r.diffChangedPaths lib mergeBaseOid remoteOid)
  let remoteChanged := remoteChanges.map (·.path)
  let conflicted := (localChanges.filter fun c => remoteChanged.contains c.path).map (·.path)
  let localOnly := localChanges.filter fun c => !remoteChanged.contains c.path
  checkoutCommitOid lib remoteOid
  replayLocalChanges localOid localOnly
  commitMerge localOid remoteOid (mergeMessage name conflicted.length)
  return conflicted

end

/-! ## Fetching -/

/-- Where a fetch stores a commit of the remote repository, with which it shares the first `common`
commits. -/
def fetchedOid (r : Repo) (common oid : Nat) : Nat :=
  if oid < common then oid else oid - common + r.commits.length

/-- The local repository with the remote's own commits. -/
def fetch (r remote : Repo) (common : Nat) : Repo :=
  { r with commits := r.commits ++ (remote.commits.drop common).map fun commit =>
      { commit with parents := commit.parents.map (r.fetchedOid common) } }

/-- A commit of the remote is there after the fetch, with its tree. -/
theorem fetch_commit {r remote : Repo} {common oid : Nat} {commit : Commit}
    (hshared : ∀ i < common, r.commits[i]? = remote.commits[i]?) (hcommon : common ≤ r.commits.length)
    (h : remote.commits[oid]? = some commit) :
    ∃ fetched, (r.fetch remote common).commits[r.fetchedOid common oid]? = some fetched ∧
      fetched.tree = commit.tree := by
  unfold fetchedOid fetch
  by_cases hoid : oid < common
  · rw [if_pos hoid, List.getElem?_append_left (by omega), hshared oid hoid, h]
    exact ⟨commit, rfl, rfl⟩
  · rw [if_neg hoid, List.getElem?_append_right (by omega), List.getElem?_map, List.getElem?_drop,
      show common + (oid - common + r.commits.length - r.commits.length) = oid by omega, h]
    exact ⟨_, rfl, rfl⟩

/-! ## What the merge commits -/

/-- The entry that a merge keeping the remote side of every conflict has at a path. -/
def takingTheirs (base ours theirs : Tree) (path : String) : Option Bytes :=
  if theirs[path]? ≠ base[path]? then theirs[path]? else ours[path]?

/-- Set or remove a path in the files and in the index. -/
def putBoth (r : Repo) (path : String) (bytes : Option Bytes) : Repo :=
  { r with work := r.work.put path bytes, index := some (r.staged.put path bytes) }

section
variable {lib : Libgit2} {r : Repo} {oid : Nat} {commit : Commit} {Q : Unit → Repo → Prop}
  {E : Exn → Repo → Prop}

theorem lookupCommit_eq (h : r.commits[oid]? = some commit) : r.lookupCommit oid = .ok commit := by
  simp [lookupCommit, h]

theorem replayLocalChange_ends (h : r.commits[oid]? = some commit) {change : ChangedPath}
    (htype : change.type = .deleted ↔ commit.tree[change.path]? = none) :
    Ends (replayLocalChange oid change) r Q E ↔
      Q () (r.putBoth change.path commit.tree[change.path]?) := by
  unfold replayLocalChange putBoth
  cases htree : commit.tree[change.path]? with
  | none =>
    rw [htype.mpr htree]
    exact Iff.rfl
  | some content =>
    have hadd : change.type = .addedOrModified := by
      cases ht : change.type with
      | addedOrModified => rfl
      | deleted => rw [htype.mp ht] at htree; cases htree
    rw [hadd]
    simp only [Ends.bind_iff, Ends.get_iff, Ends.fromExcept_iff, readBlobAt, h, htree,
      Except.ok.injEq, forall_eq', Ends.modify_iff, Ends.set_iff, reduceCtorEq, false_imp_iff,
      implies_true, and_true, stagePath, writeFile_work, Std.ExtTreeMap.getElem?_insert_self,
      writeFile_staged]
    rfl

/-- What the replay of a list of changes leaves: at their paths the local entries, elsewhere what
was there. -/
theorem replayLocalChanges_ends {changes : List ChangedPath} (h : r.commits[oid]? = some commit)
    (htype : ∀ change ∈ changes, change.type = .deleted ↔ commit.tree[change.path]? = none)
    (hsame : r.staged = r.work) :
    Ends (replayLocalChanges oid changes) r (fun _ r' => ∃ tree : Tree,
      (∀ path : String, tree[path]? =
        if path ∈ changes.map (·.path) then commit.tree[path]? else r.work[path]?) ∧
      r'.work = tree ∧ r'.staged = tree ∧ r'.commits = r.commits ∧ r'.refs = r.refs ∧
      r'.head = r.head) fun _ _ => False := by
  induction changes generalizing r with
  | nil => exact ⟨r.work, by simp, rfl, hsame, rfl, rfl, rfl⟩
  | cons change changes ih =>
    unfold replayLocalChanges
    rw [Ends.bind_iff, replayLocalChange_ends h (htype change List.mem_cons_self)]
    have hput : (r.putBoth change.path commit.tree[change.path]?).staged =
        (r.putBoth change.path commit.tree[change.path]?).work := by
      change r.staged.put _ _ = r.work.put _ _
      rw [hsame]
    refine (ih (r := r.putBoth _ _) h (fun c hc => htype c (List.mem_cons_of_mem _ hc)) hput).mono ?_ fun _ _ h => h
    · rintro - r' ⟨tree, htree, hrest⟩
      refine ⟨tree, fun path => ?_, hrest⟩
      rw [htree]
      change (if _ then _ else (r.work.put change.path commit.tree[change.path]?)[path]?) = _
      simp only [Map.get_put, List.map_cons, List.mem_cons]
      by_cases hpath : change.path = path
      · subst hpath
        simp
      · simp [hpath, Ne.symm hpath]

theorem mem_paths_filter (changes : List ChangedPath) (p : String → Bool) (path : String) :
    path ∈ (changes.filter fun c => p c.path).map (·.path) ↔
      path ∈ changes.map (·.path) ∧ p path = true := by
  simp only [List.mem_map, List.mem_filter]
  constructor
  · rintro ⟨c, ⟨hc, hp⟩, rfl⟩
    exact ⟨⟨c, hc, rfl⟩, hp⟩
  · rintro ⟨⟨c, hc, rfl⟩, hp⟩
    exact ⟨c, ⟨hc, hp⟩, rfl⟩

/-- What a merge of `theirs` into `ours` over `base` leaves. -/
structure Merged (r r' : Repo) (name : String) (localOid remoteOid : Nat) (base ours theirs : Tree)
    (conflicted : List String) : Prop where
  commits : ∃ tree : Tree, r'.commits = r.commits ++
      [⟨tree, [localOid, remoteOid], mergeMessage name conflicted.length⟩] ∧
    r'.work = tree ∧ r'.index = some tree ∧
    ∀ path : String, tree[path]? = takingTheirs base ours theirs path
  refs : r'.refs = r.refs.insert r.head r.commits.length
  head : r'.head = r.head
  conflict : ∀ path : String, path ∈ conflicted ↔
    ours[path]? ≠ base[path]? ∧ theirs[path]? ≠ base[path]?
  nodup : conflicted.Nodup

/-- From a clean tree the merge succeeds. Its commit holds the remote entry where the remote side
differs from the base and the local entry elsewhere, the index and the working tree are that tree,
and the conflicted paths are those that both sides changed. -/
theorem mergeRemote_merged (hlib : lib.Lawful) (hclean : r.Clean)
    {localOid remoteOid baseOid : Nat} {ours theirs base : Commit} (htip : r.tip = some localOid)
    (hours : r.commits[localOid]? = some ours) (htheirs : r.commits[remoteOid]? = some theirs)
    (hbase : r.commits[baseOid]? = some base)
    (hmb : lib.mergeBase r.commits localOid remoteOid = .ok baseOid) (name : String) :
    ∃ conflicted r', mergeRemoteTakingTheirsForConflicts lib name localOid remoteOid r =
        .ok conflicted r' ∧
      Merged r r' name localOid remoteOid base.tree ours.tree theirs.tree conflicted := by
  have hdiff : ∀ {oid : Nat} {c : Commit}, r.commits[oid]? = some c →
      r.diffChangedPaths lib baseOid oid = .ok ((lib.diffTreeToTree base.tree c.tree).map
        fun d => ⟨d.path, changeType d.status⟩) := by
    intro oid c hc
    simp only [diffChangedPaths, lookupCommit_eq hbase, lookupCommit_eq hc, bind, Except.bind, pure,
      Except.pure]
  have hpaths : ∀ c : Commit, ((lib.diffTreeToTree base.tree c.tree).map
      fun d => (⟨d.path, changeType d.status⟩ : ChangedPath)).map (·.path) =
      (lib.diffTreeToTree base.tree c.tree).map (·.path) := by
    intro c
    rw [List.map_map]
    rfl
  have hends : Ends (mergeRemoteTakingTheirsForConflicts lib name localOid remoteOid) r
      (fun conflicted r' =>
        Merged r r' name localOid remoteOid base.tree ours.tree theirs.tree conflicted)
      fun _ _ => False := by
    unfold mergeRemoteTakingTheirsForConflicts checkoutCommitOid
    have hcheckout : lib.checkoutTree (r.treeAt r.tip) r.work r.staged theirs.tree =
        .ok (theirs.tree, theirs.tree) := by
      rw [hclean.work, hclean.index]
      exact hlib.checkout_clean _ _
    simp only [Ends.bind_iff, Ends.get_iff, Ends.fromExcept_iff, hmb, hdiff hours, hdiff htheirs,
      lookupCommit_eq htheirs, hcheckout, Except.ok.injEq, forall_eq', Ends.set_iff, reduceCtorEq,
      false_imp_iff, implies_true, and_true, hpaths]
    generalize hlocal : ((lib.diffTreeToTree base.tree ours.tree).map
      fun d => (⟨d.path, changeType d.status⟩ : ChangedPath)) = localChanges
    generalize hremote : ((lib.diffTreeToTree base.tree theirs.tree).map (·.path)) = remoteChanged
    have hchanged : ∀ path : String, path ∈ localChanges.map (·.path) ↔
        ours.tree[path]? ≠ base.tree[path]? := by
      intro path
      rw [← hlocal, hpaths, hlib.diff_path]
    have hremoteChanged : ∀ path : String, path ∈ remoteChanged ↔
        theirs.tree[path]? ≠ base.tree[path]? := by
      intro path
      rw [← hremote, hlib.diff_path]
    have htype : ∀ change ∈ localChanges, change.type = .deleted ↔
        ours.tree[change.path]? = none := by
      rw [← hlocal]
      intro change hc
      obtain ⟨d, hd, rfl⟩ := List.mem_map.mp hc
      rw [← hlib.diff_deleted _ _ d hd]
      cases d.status <;> simp [changeType]
    refine (replayLocalChanges_ends (r := { r with work := theirs.tree, index := some theirs.tree })
      hours (fun change hc => htype change (List.mem_filter.mp hc).1)
      rfl).mono ?_ fun _ _ h => h
    rintro - r' ⟨tree, htree, hwork, hstaged, hcommits, hrefs, hhead⟩
    have htip' : r'.tip = some localOid := by
      rw [tip, hrefs, hhead]
      exact htip
    simp only [commitMerge, Ends.bind_iff, Ends.get_iff, Ends.fromExcept_iff, lookupCommit,
      hcommits, hours, htheirs, htip', ne_eq, not_true, if_false, Ends.pure_iff, Ends.set_iff,
      Except.ok.injEq, forall_eq', reduceCtorEq, false_imp_iff, implies_true, and_true]
    refine ⟨⟨tree, ?_, hwork, ?_, fun path => ?_⟩, ?_, hhead, fun path => ?_, ?_⟩
    · rw [hstaged]
    · rw [hstaged]
    · have honly := mem_paths_filter localChanges (fun q => !remoteChanged.contains q) path
      rw [hchanged, Bool.not_eq_true', List.contains_eq_mem, decide_eq_false_iff_not,
        hremoteChanged, not_not] at honly
      rw [htree, takingTheirs]
      by_cases hr : theirs.tree[path]? = base.tree[path]?
      · rw [if_neg (not_not_intro hr)]
        by_cases hl : ours.tree[path]? = base.tree[path]?
        · rw [if_neg fun h => (honly.mp h).1 hl, hl]
          exact hr
        · rw [if_pos (honly.mpr ⟨hl, hr⟩)]
      · rw [if_pos hr, if_neg fun h => hr (honly.mp h).2]
    · rw [hrefs, hhead]
    · rw [mem_paths_filter _ fun q => remoteChanged.contains q, hchanged, List.contains_eq_mem,
        decide_eq_true_eq, hremoteChanged]
    · refine List.Nodup.sublist (List.filter_sublist.map _) ?_
      rw [← hlocal, hpaths]
      exact hlib.diff_nodup _ _
  cases hrun : mergeRemoteTakingTheirsForConflicts lib name localOid remoteOid r with
  | ok conflicted r' => exact ⟨conflicted, r', rfl, hends.ok hrun⟩
  | error e r' => exact (hends.error hrun).elim

/-- The merge commit holds at every path the remote entry if the remote side differs from the base
there, and the local entry otherwise. Its conflicted paths are exactly those where both sides differ
from the base, each once, and the working tree and the index are its tree. -/
theorem mergeRemoteTakingTheirsForConflicts_spec (hlib : lib.Lawful) (hclean : r.Clean)
    {localOid remoteOid baseOid : Nat} {ours theirs base : Commit} (htip : r.tip = some localOid)
    (hours : r.commits[localOid]? = some ours) (htheirs : r.commits[remoteOid]? = some theirs)
    (hbase : r.commits[baseOid]? = some base)
    (hmb : lib.mergeBase r.commits localOid remoteOid = .ok baseOid) (name : String) :
    ∃ conflicted r' oid merged, mergeRemoteTakingTheirsForConflicts lib name localOid remoteOid r =
        .ok conflicted r' ∧
      r'.tip = some oid ∧ r'.commits[oid]? = some merged ∧ merged.parents = [localOid, remoteOid] ∧
      (∀ path : String, merged.tree[path]? =
        if theirs.tree[path]? ≠ base.tree[path]? then theirs.tree[path]? else ours.tree[path]?) ∧
      (∀ path : String, path ∈ conflicted ↔
        ours.tree[path]? ≠ base.tree[path]? ∧ theirs.tree[path]? ≠ base.tree[path]?) ∧
      conflicted.Nodup ∧ r'.work = merged.tree ∧ r'.index = some merged.tree := by
  obtain ⟨conflicted, r', hrun, hm⟩ := mergeRemote_merged hlib hclean htip hours htheirs hbase hmb name
  obtain ⟨tree, hcommits, hwork, hindex, htree⟩ := hm.commits
  refine ⟨conflicted, r', r.commits.length, ⟨tree, [localOid, remoteOid], mergeMessage name conflicted.length⟩, hrun, ?_, ?_,
    rfl, htree, hm.conflict, hm.nodup, hwork, hindex⟩
  · rw [tip, hm.refs, hm.head, Map.get_insert, if_pos rfl]
  · rw [hcommits, List.getElem?_concat_length]

end

end Repo

/-! ## A libgit2 to run the merge with -/

/-- The ancestors of a commit, itself first. -/
def ancestorOids (commits : List Commit) : (fuel : Nat) → Nat → List Nat
  | 0, oid => [oid]
  | fuel + 1, oid =>
    oid :: (commits[oid]?.elim [] (·.parents)).flatMap (ancestorOids commits fuel)

/-- The commit stored last among the common ancestors. -/
def latestCommonAncestor (commits : List Commit) (a b : Nat) : Option Nat :=
  ((ancestorOids commits commits.length a).filter (ancestorOids commits commits.length b).contains).max?

def diffTrees (old new : Tree) : List Delta :=
  (((old.keys ++ new.keys).dedup).filter fun path => new[path]? ≠ old[path]?).map fun path =>
    ⟨path, if new[path]?.isNone then .deleted else if old[path]?.isNone then .added else .modified⟩

def plainGit : Libgit2 where
  mergeBase commits a b :=
    match latestCommonAncestor commits a b with
    | some oid => .ok oid
    | none => .error (.runtimeError "git_merge_base failed")
  diffTreeToTree := diffTrees
  checkoutTree head work index target :=
    if work.toList = head.toList ∧ index.toList = head.toList then .ok (target, target)
    else .error (.runtimeError "git_checkout_tree failed")

theorem plainGit_lawful : plainGit.Lawful := by
  have hpaths : ∀ old new : Tree, (plainGit.diffTreeToTree old new).map (·.path) =
      ((old.keys ++ new.keys).dedup).filter fun path => new[path]? ≠ old[path]? := by
    intro old new
    simp [plainGit, diffTrees, Function.comp_def]
  refine ⟨fun old new => ?_, fun old new path => ?_, fun old new d hd => ?_, fun tree target => ?_⟩
  · rw [hpaths]
    exact (List.nodup_dedup _).filter _
  · rw [hpaths, List.mem_filter, List.mem_dedup, List.mem_append, Std.ExtTreeMap.mem_keys,
      Std.ExtTreeMap.mem_keys, decide_eq_true_eq]
    refine ⟨fun h => h.2, fun h => ⟨?_, h⟩⟩
    by_contra hno
    obtain ⟨hold, hnew⟩ := not_or.mp hno
    exact h ((Map.not_mem_iff.mp hnew).trans (Map.not_mem_iff.mp hold).symm)
  · obtain ⟨path, -, rfl⟩ := List.mem_map.mp hd
    simp only
    cases new[path]? <;> simp
    split <;> simp
  · simp [plainGit]

/-- Two clones that both changed `a`, one of which added `b`. -/
def clonesDiffer : Repo where
  work := (∅ : Tree).insert "a" ['2'] |>.insert "b" ['b']
  index := some ((∅ : Tree).insert "a" ['2'] |>.insert "b" ['b'])
  commits := [⟨(∅ : Tree).insert "a" ['1'], [], ""⟩,
    ⟨(∅ : Tree).insert "a" ['2'] |>.insert "b" ['b'], [0], ""⟩, ⟨(∅ : Tree).insert "a" ['3'], [0], ""⟩]
  refs := (∅ : Map String Nat).insert "refs/heads/master" 1
  head := "refs/heads/master"

end HolderCore
