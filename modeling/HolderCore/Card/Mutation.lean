import HolderCore.Card.World

/-! # Journalled card changes

`card/CardMutation.cpp` and `CardStore::apply_card_changes`. A card change is a sequence of durable
steps: the journal, the index reset, the renames and writes with their index updates, the commit,
the restored index and the SQLite commit. Rolling back and recovering are sequences of steps too, so
that a process may stop, or a step may throw, between any two of them. -/

namespace HolderCore

/-- One durable effect of a card change, of its rollback or of its recovery. -/
inductive Step (K : Type) where
  /-- The journal under its temporary name. -/
  | writeTemporary
  | writeJournal (saved : Journal)
  /-- The index takes the entries of `HEAD`'s tree. -/
  | resetIndex
  | rename (source target : String)
  | removePath (path : String)
  | writeFile (path : String) (bytes : Bytes)
  | stagePath (path : String)
  | assertStaged (paths : List String)
  | commit (message : String)
  | restoreIndex (index : Option Tree)
  /-- Take the entries of some paths from a tree, keeping the other entries. -/
  | overlayIndex (paths : List String) (entries : Tree)
  | commitTx (db : Db K)
  | removeJournal
  | setReference (name : String) (oid : Option Nat)
  | restoreFile (path : String) (bytes : Option Bytes)
  | raise (e : Exn)

def overlay (entries : Tree) (paths : List String) (index : Tree) : Tree :=
  paths.foldl (fun index path => index.put path entries[path]?) index

def Step.exec (env : Env K) (w : World K) : Step K → Except Exn (World K)
  | writeTemporary => .ok w
  | writeJournal saved => .ok { w with journal := some saved }
  | resetIndex => .ok { w with repo := { w.repo with index := some (w.repo.treeAt w.repo.tip) } }
  | rename source target =>
    match w.repo.work[source]? with
    | some bytes =>
      .ok { w with repo := { w.repo with work := (w.repo.work.erase source).insert target bytes } }
    | none => .error (.runtimeError ("rename failed: " ++ source))
  | removePath path => .ok { w with repo := w.repo.removePath path }
  | writeFile path bytes => .ok { w with repo := w.repo.writeFile path bytes }
  | stagePath path => do return { w with repo := ← w.repo.stagePath path }
  | assertStaged paths => do
    assertProjectStagedBlobsSafe env w.repo.staged paths
    return w
  | commit message => .ok { w with repo := w.repo.commit message }
  | restoreIndex index => .ok { w with repo := { w.repo with index } }
  | overlayIndex paths entries =>
    .ok { w with repo := { w.repo with index := some (overlay entries paths w.repo.staged) } }
  | commitTx db => .ok { w with db }
  | removeJournal => .ok { w with journal := none }
  | setReference name oid =>
    .ok { w with repo := { w.repo with refs := w.repo.refs.put name oid } }
  | restoreFile path bytes =>
    .ok { w with repo := { w.repo with work := w.repo.work.put path bytes } }
  | raise e => .error e

/-- Run steps until one throws, keeping the state it was thrown in. -/
def runSteps (env : Env K) : List (Step K) → World K → Except (Exn × World K) (World K)
  | [], w => .ok w
  | step :: steps, w =>
    match step.exec env w with
    | .ok w' => runSteps env steps w'
    | .error e => .error (e, w)

/-- The steps of phases that each look at the state they start in. -/
def expand (env : Env K) : List (World K → List (Step K)) → World K → List (Step K)
  | [], _ => []
  | phase :: phases, w =>
    phase w ++ match runSteps env (phase w) w with
      | .ok w' => expand env phases w'
      | .error _ => []

/-! ## The journal -/

def splitSlash : List Char → List (List Char)
  | [] => [[]]
  | c :: cs =>
    if c = '/' then [] :: splitSlash cs
    else match splitSlash cs with
      | part :: parts => (c :: part) :: parts
      | [] => [[c]]

/-- A path below `cards/` or `trash/cards/` in normal form. -/
def journalFilePath (key : String) : Except Exn String :=
  if (splitSlash key.toList).any (fun part => part.isEmpty || part == ['.'] || part == ['.', '.']) ||
      key.toList.tails.any (['.', '.'].isPrefixOf ·) ||
      !(startsWith "cards/" key.toList || startsWith "trash/cards/" key.toList) then
    .error (.runtimeError "invalid card mutation recovery path")
  else .ok key

/-- The saved state before a change to the given paths, and the bytes it intends. -/
def openMutation (w : World K) (paths : List String) (changes : Map String (Option Bytes)) :
    Except Exn Journal := do
  if w.journal.isSome then throw (.runtimeError "card mutation recovery required")
  let paths ← paths.mapM journalFilePath
  if !changes.keys.all paths.contains then throw (.invalidArgument "unjournaled card change")
  return {
    files := paths.foldl (fun files path =>
      files.insert path ⟨w.repo.work[path]?, changes[path]?⟩) ∅
    head := w.repo.tip
    reference := w.repo.head
    index := w.repo.index }

/-- The saved branch's current commit. -/
def branchTip (r : Repo) (saved : Journal) : Option Nat := r.refs[saved.reference]?

/-- The operation's own commit has the saved head as its only parent, or none for an unborn branch,
and holds the intended bytes at every changed path. -/
def isOperationCommit (r : Repo) (saved : Journal) (oid : Nat) : Bool :=
  match r.commits[oid]? with
  | some commit => commit.parents == saved.head.toList &&
    saved.files.toList.all fun (key, file) =>
      file.after.all fun after => commit.tree[key]? == after
  | none => false

/-- A commit and its ancestors, newest first. A parent is older than its child. -/
def ancestors (r : Repo) (oid : Nat) : List Nat :=
  (List.range r.commits.length).reverse.foldl (fun seen i =>
    if i = oid ∨ ∃ j ∈ seen, ∃ commit ∈ r.commits[j]?, i ∈ commit.parents
    then seen ++ [i] else seen) []

/-- Search the saved branch back to the saved head. -/
def landedCommit (r : Repo) (saved : Journal) : Option Nat := do
  let tip ← branchTip r saved
  let hidden := saved.head.elim [] (ancestors r)
  (((ancestors r tip).filter fun oid => !hidden.contains oid).take 10000).find?
    (isOperationCommit r saved)

def restoreOriginalFiles (saved : Journal) : List (Step K) :=
  saved.files.toList.map fun (key, file) => .restoreFile key file.before

/-! ## Changing cards -/

structure CardChange (K : Type) where
  current : Card K
  target : ParsedCardFile K

def relPathMismatch : Exn := .runtimeError "card rel_path does not match card_id"
def contentMissing : Exn := .runtimeError "card content missing"

/-- The checks on one change. Returns it with the live path in its row, and the rename it needs. -/
def prepareChange (repo : Repo) (change : CardChange K) :
    Except Exn (CardChange K × Option (String × String)) := do
  let current := change.current
  let live ← cardRelPath current.cardId
  let trash ← cardTrashRelPath current.cardId
  if current.relPath ≠ live ∧ ¬(current.deletedAt.isSome ∧ current.relPath = trash) then
    throw relPathMismatch
  let source := if current.deletedAt.isSome then trash else live
  let target := if change.target.card.deletedAt.isSome then trash else live
  if !repo.work.contains source then throw contentMissing
  if source ≠ target ∧ repo.work.contains target then
    throw (.runtimeError "conflict: destination card file already exists")
  return ({ change with target.card.relPath := live },
    if source ≠ target then some (source, target) else none)

/-- The path and the bytes of a change's file. -/
def renderChange (env : Env K) (change : CardChange K) : StoreM K (String × Bytes) := do
  let record := change.target
  let path ← fromExcept (if record.card.deletedAt.isSome
    then cardTrashRelPath record.card.cardId else .ok record.card.relPath)
  let plain := renderCardFrontMatter env.yaml { record.card with relPath := path } record.links
    record.milestones ++ record.body.toList
  return (path, ← encodeCardBlob env plain)

/-- The rows of one change. -/
def changeRows (env : Env K) (record : ParsedCardFile K) : DbM K Unit := do
  let card := record.card
  CardRepo.restoreSnapshot card
  LinkRepo.deleteLinksFrom card.projectId card.cardId
  LinkRepo.upsertLinks card.projectId card.cardId record.links
  if card.deletedAt.isSome then
    (if env.fts then FtsIndexer.deleteCard card.cardId else pure ())
    TagRepo.deleteTagsForCard card.projectId card.cardId
    MilestoneRepo.deleteForCard card.projectId card.cardId
  else
    (if env.fts then FtsIndexer.upsertCard card.cardId card.projectId card.title record.body
      else pure ())
    TagRepo.setTagsForCard card.projectId card.cardId (env.extractTags record.body) card.updatedAt
    MilestoneRepo.replaceForCard card.projectId card.cardId record.milestones

/-- A card change ready to run. -/
structure Mutation (K : Type) where
  saved : Journal
  renames : List (String × String)
  writes : List (String × Bytes)
  message : String
  /-- The database inside the transaction, after every statement. -/
  db : Db K

namespace Mutation

/-- The steps up to the commit. -/
def editSteps (m : Mutation K) : List (Step K) :=
  [.writeTemporary, .writeJournal m.saved, .resetIndex] ++
    m.renames.flatMap (fun (source, target) => [.rename source target, .removePath source]) ++
    m.writes.flatMap (fun (path, bytes) => [.writeFile path bytes, .stagePath path]) ++
    [.assertStaged (m.writes.map (·.1)), .commit m.message]

/-- The old index under the operation's own paths as they were committed. -/
def preserveUnrelatedIndex (m : Mutation K) (w : World K) : List (Step K) :=
  [.restoreIndex m.saved.index, .overlayIndex m.saved.files.keys w.repo.staged]

/-- Everything inside the `try` block. -/
def steps (env : Env K) (m : Mutation K) (w : World K) : List (Step K) :=
  expand env [fun _ => m.editSteps, m.preserveUnrelatedIndex, fun _ => [.commitTx m.db]] w

/-- Undo a change in the process that started it. The branch is reset only when its tip is
provably the operation's commit. -/
def rollbackSteps (m : Mutation K) (w : World K) : List (Step K) :=
  (match branchTip w.repo m.saved with
    | some tip =>
      if some tip ≠ m.saved.head ∧ isOperationCommit w.repo m.saved tip
      then [.setReference m.saved.reference m.saved.head] else []
    | none => []) ++
    restoreOriginalFiles m.saved ++ [.restoreIndex m.saved.index, .removeJournal]

end Mutation

/-- Where a change throws from outside: before its first durable step, while its statements run; at
the `n`-th step of its `try` block, leaving any bytes at journalled paths and any index behind; or in
`finish`. -/
inductive Fault where
  | plan (exn : Exn)
  | step (n : Nat) (exn : Exn) (files : Map String (Option Bytes)) (index : Option (Option Tree))
  | finish (exn : Exn)

/-- Arbitrary bytes at some of the journalled paths. -/
def tearFiles (saved : Journal) (files : Map String (Option Bytes)) (r : Repo) : Repo :=
  { r with work := files.toList.foldl (fun work (path, bytes) =>
      if saved.files.contains path then work.put path bytes else work) r.work }

/-- What a failed step leaves behind. -/
def torn (saved : Journal) (files : Map String (Option Bytes)) (index : Option (Option Tree))
    (w : World K) : World K :=
  { w with repo := { tearFiles saved files w.repo with index := index.getD w.repo.index } }

/-- Run the steps of a `try` block, where the faulty step throws. -/
def runFaulty (env : Env K) (saved : Journal) (fault : Option Fault) (steps : List (Step K))
    (w : World K) : Except (Exn × World K) (World K) :=
  match fault with
  | some (.step n exn files index) =>
    match runSteps env (steps.take n) w with
    | .ok w' => if n < steps.length then .error (exn, torn saved files index w') else .ok w'
    | .error failure => .error failure
  | _ => runSteps env steps w

/-- The `try` block, its rollback and `finish`, whose throw is not caught. -/
def Mutation.run (env : Env K) (fault : Option Fault) (m : Mutation K) : StoreM K Unit := fun w =>
  match runFaulty env m.saved fault (m.steps env w) w with
  | .ok w' =>
    match fault with
    | some (.finish exn) => .error exn w'
    | _ => .ok () { w' with journal := none }
  | .error (e, w') =>
    match runSteps env (m.rollbackSteps w') w' with
    | .ok w'' => .error e w''
    | .error (e', w'') => .error e' w''

/-- The bytes a change intends at the paths it renames away from and writes to. -/
def intendedChanges (renames : List (String × String)) (writes : List (String × Bytes)) :
    Map String (Option Bytes) :=
  writes.foldl (fun m write => m.insert write.1 (some write.2))
    (renames.foldl (fun m rename => m.insert rename.1 none) ∅)

/-- The checks, the encoded files, the saved state and the statements of a change, before its
first durable step. -/
def planMutation (env : Env K) (changes : List (CardChange K)) (message : String) :
    StoreM K (Mutation K) := do
  let w ← get
  let prepared ← fromExcept (changes.mapM (prepareChange w.repo))
  let renames := prepared.filterMap (·.2)
  let writes ← (prepared.map (·.1)).mapM (renderChange env)
  let paths := changes.flatMap fun change =>
    [livePath change.current.cardId, trashPath change.current.cardId]
  let saved ← fromExcept (openMutation w paths (intendedChanges renames writes))
  match (prepared.map (·.1)).forM (fun change => changeRows env change.target) w.db with
  | .ok _ db => return { saved, renames, writes, message, db }
  | .error e _ => throw e

def applyCardChangesWith (env : Env K) (fault : Option Fault) (changes : List (CardChange K))
    (message : String) : StoreM K Unit := do
  let m ← planMutation env changes message
  match fault with
  | some (.plan exn) => throw exn
  | _ => m.run env fault

/-- `CardStore::apply_card_changes`. -/
def applyCardChanges (env : Env K) (changes : List (CardChange K)) (message : String) :
    StoreM K Unit :=
  applyCardChangesWith env none changes message

/-! ## Settling a journal -/

/-- `recover_journal`: keep the operation if its commit landed, else put back the files. -/
def recoverySteps (w : World K) : List (Step K) :=
  match w.journal with
  | none => []
  | some saved =>
    if branchTip w.repo saved = saved.head then
      restoreOriginalFiles saved ++ [.restoreIndex saved.index]
    else match landedCommit w.repo saved with
      | some landed =>
        if w.repo.tip = some landed then
          [.restoreIndex saved.index,
            .overlayIndex saved.files.keys (w.repo.treeAt (some landed))]
        else []
      | none => saved.files.toList.filterMap fun (key, file) =>
        if file.after = some w.repo.work[key]? then some (.restoreFile key file.before) else none

end HolderCore
