import HolderCore.Card.MutationPlan
import HolderCore.Project.Rebuild

/-! # Recovering an interrupted card change

A process may stop anywhere in a card change or in its rollback, and again in every recovery that
follows. What it leaves is at one of four stages: the journal is on disk and nothing landed
(`Pending`), the journal is on disk and the operation's commit landed (`Kept`), or there is no
journal and everything is as it was (`AsBefore`) or as intended (`AsIntended`). A recovery that stops
keeps the stage or ends the first two in one of the last two. -/

namespace HolderCore

/-- What a step under way may leave when its process stops: any index once the journal is written,
and any bytes at the journalled paths while the branch is where the journal found it. A stop inside
the rewrite of `.git/index` that leaves no index at all, which no later recovery can open, is not
among them. -/
inductive TornAt : World K → World K → Prop where
  | clean (w : World K) : TornAt w w
  | index {w : World K} (hj : w.journal = some saved) (index : Option Tree) :
    TornAt w { w with repo := { w.repo with index } }
  | files {w : World K} (hj : w.journal = some saved) (htip : branchTip w.repo saved = saved.head)
    (files : Map String (Option Bytes)) (index : Option (Option Tree)) :
    TornAt w (torn saved files index w)

/-- The commits of a change that did not land: at most an orphan is left behind. -/
def OrphanAtMost (w w' : World K) : Prop :=
  w'.repo.commits = w.repo.commits ∨ ∃ c : Commit,
    w'.repo.commits = w.repo.commits ++ [c] ∧ c.parents = w.repo.tip.toList

/-- The journal is on disk, the branch is where it was and only journalled files may differ. -/
structure Pending (m : Mutation K) (w w' : World K) : Prop where
  journal : w'.journal = some m.saved
  refs : w'.repo.refs = w.repo.refs
  head : w'.repo.head = w.repo.head
  commits : OrphanAtMost w w'
  work : ∀ path : String, m.saved.files[path]? = none → w'.repo.work[path]? = w.repo.work[path]?

/-- The journal is on disk and the operation's commit landed. -/
structure Kept (m : Mutation K) (w w' : World K) : Prop where
  journal : w'.journal = some m.saved
  landed : m.Landed w w'

/-- No journal, and the files, the index and the refs as they were. -/
structure AsBefore (w w' : World K) : Prop where
  journal : w'.journal = none
  refs : w'.repo.refs = w.repo.refs
  head : w'.repo.head = w.repo.head
  commits : OrphanAtMost w w'
  work : w'.repo.work = w.repo.work
  index : w'.repo.index = w.repo.index

/-- No journal, the branch at the operation's commit, the files as intended, and the old index
except at the operation's own paths. -/
structure AsIntended (m : Mutation K) (w w' : World K) : Prop where
  journal : w'.journal = none
  landed : m.Landed w w'
  staged : ∀ path : String, w'.repo.staged[path]? =
    if m.saved.files.contains path then m.intended[path]?.getD (w.repo.treeAt w.repo.tip)[path]?
    else w.repo.staged[path]?

/-- A stage of a change or of its recovery. -/
def AtStage (m : Mutation K) (w w' : World K) : Prop :=
  Pending m w w' ∨ Kept m w w' ∨ AsBefore w w' ∨ AsIntended m w w'

section
variable {m : Mutation K} {env : Env K} {w w1 w' : World K}

theorem Mutation.Planned.branchTip_landed (hp : m.Planned w) (h : m.Landed w w') :
    branchTip w'.repo m.saved = some w.repo.commits.length := by
  rw [branchTip, hp.reference, h.refs, Map.get_insert, if_pos rfl]

/-- The saved head is older than the operation's commit. -/
theorem Mutation.Planned.landed_ne (hp : m.Planned w) (hv : w.repo.Valid) :
    some w.repo.commits.length ≠ m.saved.head := by
  rw [hp.head]
  intro he
  exact absurd (hv.tip_lt he.symm) (lt_irrefl _)

/-- Without a journal nothing is torn. -/
theorem TornAt.eq_of_journal (h : TornAt w1 w') (hj : w1.journal = none) : w' = w1 := by
  cases h with
  | clean => rfl
  | index hsaved => cases hj.symm.trans hsaved
  | files hsaved => cases hj.symm.trans hsaved

theorem Pending.tear (h : Pending m w w1) (ht : TornAt w1 w') : Pending m w w' := by
  cases ht with
  | clean => exact h
  | index => exact ⟨h.journal, h.refs, h.head, h.commits, h.work⟩
  | @files saved _ hj htip files index =>
    have hsaved : saved = m.saved := Option.some.inj (hj.symm.trans h.journal)
    subst hsaved
    exact ⟨h.journal, h.refs, h.head, h.commits, fun path hpath =>
      (tearFiles_work files w1.repo hpath).trans (h.work path hpath)⟩

theorem Mutation.Landed.setIndex (h : m.Landed w w') (index : Option Tree) :
    m.Landed w { w' with repo := { w'.repo with index } } :=
  ⟨h.head, h.commit, h.refs, h.work⟩

/-- Once the commit landed, the branch is no longer where the journal found it. -/
theorem Kept.tear (hp : m.Planned w) (hv : w.repo.Valid) (h : Kept m w w1) (ht : TornAt w1 w') :
    Kept m w w' := by
  cases ht with
  | clean => exact h
  | index => exact ⟨h.journal, h.landed.setIndex _⟩
  | @files saved _ hj htip files index =>
    have hsaved : saved = m.saved := Option.some.inj (hj.symm.trans h.journal)
    subst hsaved
    rw [hp.branchTip_landed h.landed] at htip
    exact absurd htip (hp.landed_ne hv)

theorem AtStage.tear (hp : m.Planned w) (hv : w.repo.Valid) (h : AtStage m w w1)
    (ht : TornAt w1 w') : AtStage m w w' := by
  rcases h with h | h | h | h
  · exact .inl (h.tear ht)
  · exact .inr (.inl (h.tear hp hv ht))
  · rw [ht.eq_of_journal h.journal]
    exact .inr (.inr (.inl h))
  · rw [ht.eq_of_journal h.journal]
    exact .inr (.inr (.inr h))

/-! ## A change that stops -/

theorem Pending.of_editing (h : Editing m.saved w w') (hj : w'.journal = some m.saved) :
    Pending m w w' :=
  ⟨hj, h.refs, h.head, .inl h.commits, h.work⟩

theorem AsBefore.refl (hj : w.journal = none) : AsBefore w w := ⟨hj, rfl, rfl, .inl rfl, rfl, rfl⟩

end

/-! ## Refs -/

/-- The same branches and commits. -/
structure SameBranches (w w' : World K) : Prop where
  refs : w'.repo.refs = w.repo.refs
  head : w'.repo.head = w.repo.head
  commits : w'.repo.commits = w.repo.commits

section
variable {env : Env K} {w w1 w' : World K}

theorem SameBranches.refl (w : World K) : SameBranches w w := ⟨rfl, rfl, rfl⟩

theorem SameBranches.trans (h : SameBranches w w1) (h' : SameBranches w1 w') : SameBranches w w' :=
  ⟨h'.refs.trans h.refs, h'.head.trans h.head, h'.commits.trans h.commits⟩

variable {m : Mutation K}

variable [NatCast K]

end

end HolderCore
