import HolderCore.Card.Types

/-! # The project's Git repository

What `git/GitRepo.cpp` and the card mutations do to a repository: its working tree, its index file,
its commits and its refs. A commit's id is its place in the object store, which only grows, and a
ref update is atomic. `HEAD` names a branch, which is unborn until the first commit. -/

namespace HolderCore

/-- Files or tree entries: the bytes at each path. -/
abbrev Tree := Map String Bytes

structure Commit where
  tree : Tree
  parents : List Nat
  message : String

structure Repo where
  work : Tree
  /-- The entries of the index file, or no file. -/
  index : Option Tree
  commits : List Commit
  refs : Map String Nat
  /-- The branch that `HEAD` names. -/
  head : String

namespace Repo

def init : Repo := ⟨∅, none, [], ∅, "refs/heads/master"⟩

/-- An index that does not exist has no entries. -/
def staged (r : Repo) : Tree := r.index.getD ∅

/-- The commit of the current branch, or nothing while it is unborn. -/
def tip (r : Repo) : Option Nat := r.refs[r.head]?

def treeAt (r : Repo) (oid : Option Nat) : Tree :=
  (oid.bind (r.commits[·]?)).elim ∅ (·.tree)

def writeFile (r : Repo) (path : String) (bytes : Bytes) : Repo :=
  { r with work := r.work.insert path bytes }

def stagePath (r : Repo) (path : String) : Except Exn Repo :=
  match r.work[path]? with
  | some bytes => .ok { r with index := some (r.staged.insert path bytes) }
  | none => .error (.runtimeError ("git_index_add_bypath failed for " ++ path))

/-- One index write for every path. -/
def stagePaths (r : Repo) (paths : List String) : Except Exn Repo :=
  if paths.isEmpty then .ok r else paths.foldlM stagePath r

/-- An entry that is not there is no error. -/
def removePath (r : Repo) (path : String) : Repo :=
  { r with index := some (r.staged.erase path) }

/-- Commit the index on the current branch. -/
def commit (r : Repo) (message : String) : Repo :=
  { r with
    index := some r.staged
    commits := r.commits ++ [⟨r.staged, r.tip.toList, message⟩]
    refs := r.refs.insert r.head r.commits.length }

def readBlobAt (r : Repo) (oid : Nat) (path : String) : Except Exn (Option Bytes) :=
  match r.commits[oid]? with
  | some commit => .ok commit.tree[path]?
  | none => .error (.runtimeError "git_commit_lookup failed")

section
variable (r : Repo) (path message : String) (bytes : Bytes)

@[simp] theorem writeFile_work : (r.writeFile path bytes).work = r.work.insert path bytes := rfl
@[simp] theorem writeFile_index : (r.writeFile path bytes).index = r.index := rfl
@[simp] theorem writeFile_staged : (r.writeFile path bytes).staged = r.staged := rfl
@[simp] theorem writeFile_commits : (r.writeFile path bytes).commits = r.commits := rfl
@[simp] theorem writeFile_refs : (r.writeFile path bytes).refs = r.refs := rfl
@[simp] theorem writeFile_head : (r.writeFile path bytes).head = r.head := rfl
@[simp] theorem removePath_work : (r.removePath path).work = r.work := rfl
@[simp] theorem removePath_staged : (r.removePath path).staged = r.staged.erase path := rfl
@[simp] theorem removePath_commits : (r.removePath path).commits = r.commits := rfl
@[simp] theorem removePath_refs : (r.removePath path).refs = r.refs := rfl
@[simp] theorem removePath_head : (r.removePath path).head = r.head := rfl
@[simp] theorem commit_work : (r.commit message).work = r.work := rfl
@[simp] theorem commit_staged : (r.commit message).staged = r.staged := rfl
@[simp] theorem commit_head : (r.commit message).head = r.head := rfl

end

theorem stagePath_ok {r r' : Repo} {path : String} (h : r.stagePath path = .ok r') :
    ∃ bytes, r.work[path]? = some bytes ∧
      r' = { r with index := some (r.staged.insert path bytes) } := by
  unfold stagePath at h
  split at h
  · next bytes hb => exact ⟨bytes, hb, by simpa using h.symm⟩
  · cases h

/-- Staged paths take the files' bytes. -/
theorem stagePaths_ok {r r' : Repo} {paths : List String} (h : r.stagePaths paths = .ok r') :
    r'.work = r.work ∧ r'.commits = r.commits ∧ r'.refs = r.refs ∧ r'.head = r.head ∧
      ∀ path : String, r'.staged[path]? =
        if path ∈ paths then r.work[path]? else r.staged[path]? := by
  unfold stagePaths at h
  split at h
  · next he =>
    cases h
    simp [List.isEmpty_iff.mp he]
  · clear * - h
    induction paths generalizing r with
    | nil =>
      cases h
      simp
    | cons first paths ih =>
      rw [List.foldlM_cons] at h
      cases hp : r.stagePath first with
      | error e => rw [hp] at h; cases h
      | ok r1 =>
        rw [hp] at h
        obtain ⟨bytes, hb, rfl⟩ := stagePath_ok hp
        obtain ⟨hwork, hcommits, hrefs, hhead, hindex⟩ := ih h
        refine ⟨hwork, hcommits, hrefs, hhead, fun path => ?_⟩
        rw [hindex]
        change (if path ∈ paths then r.work[path]? else (r.staged.insert first bytes)[path]?) = _
        by_cases hmem : path ∈ paths
        · simp [hmem]
        · by_cases he : first = path
          · subst he
            simp [hmem, hb]
          · simp [hmem, Map.get_insert_ne he, Ne.symm he]

end Repo

end HolderCore
