import HolderCore.Git.Merge
import HolderCore.Card.CreateLemmas
import HolderCore.Card.Runs

/-! # Conflicted copies

`resolve_pull_conflicts` of `sync/PullConflictResolution.cpp`: a diverged pull is merged, and the
local version of each conflicted path that reads as a card is created again under a new id. -/

namespace HolderCore
open CardStore

/-- The tips of a pull that cannot be fast-forwarded. -/
structure NonFastForwardPullError where
  localOid : Nat
  remoteOid : Nat

/-- A Git operation on the project's repository. -/
def onGit (m : GitM α) : StoreM K α := fun w =>
  match m w.repo with
  | .ok a repo => .ok a { w with repo }
  | .error e repo => .error e { w with repo }

section
variable [SortKey K] (env : Env K)

/-- The text of a blob of the local commit. -/
def decodeLocalBlob (blob : Bytes) : Except Exn Bytes :=
  match env.project.privacyMode, env.project.projectKeyId with
  | .encryptedGit, some keyId => env.privacy.decryptProjectBlob env.project.projectId keyId blob
  | _, _ => .ok blob

/-- What a blob of the local commit reads as: nothing when it cannot be decrypted or has no front
matter. -/
def readLocalCard (blob : Bytes) : Option (ParsedCardFile K) :=
  match decodeLocalBlob env blob with
  | .error _ => none
  | .ok plain => some (parseCardFile env.yaml plain) |>.filter (·.hasFrontMatter)

/-- The card that keeps the local version. -/
def conflictedCopy (cardId : String) (now : Int) (parsed : ParsedCardFile K) : Card K where
  cardId
  projectId := env.project.projectId
  title := parsed.card.title ++ " (conflicted copy)"
  relPath := ""
  parentCardId := parsed.card.parentCardId
  sortKey := (0 : Nat)
  createdAt := now
  updatedAt := now
  deletedAt := none

/-- Create the copy of one version; an exception is swallowed. -/
def createCopy (cardId : String) (now : Int) (parsed : ParsedCardFile K) : StoreM K Nat :=
  tryCatch (do createLocked env (conflictedCopy env cardId now parsed) parsed.body none; return 1)
    fun _ => return 0

/-- Copy the local versions of the conflicted paths, each under the next id drawn: how many were
created. -/
def copyConflicts (localOid : Nat) (now : Int) (generateId : Nat → String) :
    (drawn : Nat) → List String → StoreM K Nat
  | _, [] => return 0
  | drawn, path :: paths => do
    let blob ← fromExcept ((← get).repo.readBlobAt localOid path)
    match blob.bind (readLocalCard env) with
    | none => copyConflicts localOid now generateId drawn paths
    | some parsed =>
      let created ← createCopy env (generateId drawn) now parsed
      return created + (← copyConflicts localOid now generateId (drawn + 1) paths)

def resolvePullConflicts (lib : Libgit2) (diverged : NonFastForwardPullError) (now : Int)
    (generateId : Nat → String) : StoreM K Nat := do
  let conflicted ← onGit
    (Repo.mergeRemoteTakingTheirsForConflicts lib "origin" diverged.localOid diverged.remoteOid)
  copyConflicts env diverged.localOid now generateId 0 conflicted

end

/-! ## The versions that are copied -/

/-- A local version with the path it had and the id drawn for its copy. -/
structure Version (K : Type) where
  path : String
  parsed : ParsedCardFile K
  cardId : String

section
variable [SortKey K] (env : Env K)

/-- An id that the project has not seen. -/
structure UnusedId (w : World K) (id : String) : Prop where
  length : 4 ≤ id.length
  row : w.db.cards[id]? = none
  parents : ∀ (x : String) (c : Card K), w.db.cards[x]? = some c →
    c.parentCardId ≠ some id ∧ c.relPath ≠ livePath id
  file : w.repo.work[livePath id]? = none
  links : ∀ projectId, LinkRepo.listOutgoing w.db projectId id = []
  milestones : ∀ projectId, MilestoneRepo.listForCard w.db projectId id = []

/-- The ids of the copies are unused, different, and no parent of a copied version. -/
structure UnusedIds (w : World K) (versions : List (Version K)) : Prop where
  unused : ∀ v ∈ versions, UnusedId w v.cardId
  nodup : (versions.map (·.cardId)).Nodup
  parents : ∀ v ∈ versions, ∀ v' ∈ versions, v'.parsed.card.parentCardId ≠ some v.cardId

/-- The copy of a version is accepted: the key is at hand and the parent the version names is
reachable in the rows. -/
def CopyAccepted (db : Db K) (now : Int) (v : Version K) : Prop :=
  CanEncode env ∧ validateCardParent db (conflictedCopy env v.cardId now v.parsed) = .ok ()

end

section
variable [SortKey K] {env : Env K} {w w' : World K} {now : Int} {v v' : Version K}
  {versions : List (Version K)}

omit [SortKey K] in
/-- Whether a parent is reachable does not depend on a row that nothing refers to. -/
theorem validateCardParent_insert {db db' : Db K} (hk : db.Keyed) {row card : Card K} {id : String}
    (hrow : row.cardId = id) (hnone : db.cards[id]? = none)
    (hparents : ∀ (x : String) (c : Card K), db.cards[x]? = some c → c.parentCardId ≠ some id)
    (hcards : db'.cards = db.cards.insert id row) (hcard : card.parentCardId ≠ some id) :
    validateCardParent db' card = .ok () ↔ validateCardParent db card = .ok () := by
  have hk' : db'.Keyed := by
    intro x c hc
    rw [hcards, Map.get_insert] at hc
    split at hc
    · next he => cases hc; exact hrow.trans he
    · exact hk x c hc
  have hup : ∀ x, x ≠ id → avoiding (liveUp db' card.projectId) [card.cardId] x =
      avoiding (liveUp db card.projectId) [card.cardId] x := by
    intro x hx
    unfold avoiding
    split
    · rfl
    · simp only [liveUp, findCard, hcards, Map.get_insert_ne (Ne.symm hx)]
  rw [validateCardParent_iff hk, validateCardParent_iff hk']
  refine forall_congr' fun p => imp_congr_right fun hp => ⟨fun h => ?_, fun h => ?_⟩
  · have hwalk : ∀ q, Rooted (avoiding (liveUp db' card.projectId) [card.cardId]) q → q ≠ id →
        Rooted (avoiding (liveUp db card.projectId) [card.cardId]) q := by
      intro q hq
      induction hq with
      | root hroot => exact fun hne => .root ((hup _ hne).symm.trans hroot)
      | @step x y hstep _ ih =>
        intro hne
        rw [hup _ hne] at hstep
        refine .step hstep (ih ?_)
        rintro rfl
        obtain ⟨c, hc, -, -, hpar⟩ := liveUp_eq_some.mp (avoiding_eq_some.mp hstep).2
        exact hparents x c hc hpar
    refine hwalk p h ?_
    rintro rfl
    exact hcard hp
  · refine h.weaken fun y q hy => ?_
    rw [hup y, hy]
    rintro rfl
    obtain ⟨c, hc, -⟩ := liveUp_eq_some.mp (avoiding_eq_some.mp hy).2
    rw [hnone] at hc
    cases hc

/-- The row of a copy. -/
def copyRow (env : Env K) (now : Int) (v : Version K) (key : K) : Card K :=
  { conflictedCopy env v.cardId now v.parsed with sortKey := key, relPath := livePath v.cardId }

/-- What the copies of some versions leave. -/
structure Copied (env : Env K) (now : Int) (versions : List (Version K)) (w w' : World K) : Prop where
  journal : w'.journal = w.journal
  keyed : w'.db.Keyed
  tagsKeyed : w'.db.TagsKeyed
  commits : w.repo.commits <+: w'.repo.commits
  accepted : ∀ v ∈ versions, CopyAccepted env w.db now v → ∃ key bytes,
    w'.db.cards[v.cardId]? = some (copyRow env now v key) ∧
    w'.repo.work[livePath v.cardId]? = some bytes ∧
    Encoded env (renderCardFrontMatter env.yaml (copyRow env now v key) [] [] ++
      v.parsed.body.toList) bytes
  rejected : ∀ v ∈ versions, ¬ CopyAccepted env w.db now v → w'.db.cards[v.cardId]? = none
  rows : ∀ id : String, (∀ v ∈ versions, v.cardId ≠ id) → w'.db.cards[id]? = w.db.cards[id]?
  files : ∀ path : String, (∀ v ∈ versions, livePath v.cardId ≠ path) →
    w'.repo.work[path]? = w.repo.work[path]?
  links : w'.db.cardLinks = w.db.cardLinks
  milestones : w'.db.milestones = w.db.milestones

theorem Copied.refl (hk : w.db.Keyed) (ht : w.db.TagsKeyed) : Copied env now [] w w :=
  ⟨rfl, hk, ht, List.prefix_rfl, by simp, by simp, fun _ _ => rfl, fun _ _ => rfl, rfl, rfl⟩

/-- The copy of one version leaves the ids of the others unused and their acceptance as it was. -/
theorem Copied.unused (h : Copied env now [v] w w') (hk : w.db.Keyed)
    (hids : UnusedIds w (v :: versions)) :
    UnusedIds w' versions ∧
      ∀ v' ∈ versions, CopyAccepted env w'.db now v' ↔ CopyAccepted env w.db now v' := by
  have hv := hids.unused v List.mem_cons_self
  have hnodup := List.nodup_cons.mp (List.map_cons ▸ hids.nodup)
  have hne : ∀ v' ∈ versions, v.cardId ≠ v'.cardId := by
    intro v' hv' he
    exact hnodup.1 (he ▸ List.mem_map_of_mem hv')
  have hrows : (w'.db.cards = w.db.cards) ∨
      ∃ key, w'.db.cards = w.db.cards.insert v.cardId (copyRow env now v key) := by
    by_cases hacc : CopyAccepted env w.db now v
    · obtain ⟨key, _, hrow, -⟩ := h.accepted v (List.mem_singleton.mpr rfl) hacc
      refine .inr ⟨key, Map.ext fun id => ?_⟩
      rw [Map.get_insert]
      split
      · next he => rw [← he, hrow]
      · next he => exact h.rows id fun v1 hv1 => List.mem_singleton.mp hv1 ▸ he
    · have hnone := h.rejected v (List.mem_singleton.mpr rfl) hacc
      refine .inl (Map.ext fun id => ?_)
      by_cases he : v.cardId = id
      · rw [← he, hnone, hv.row]
      · exact h.rows id fun v1 hv1 => List.mem_singleton.mp hv1 ▸ he
  have hrow : ∀ (x : String) (c : Card K), w'.db.cards[x]? = some c → w.db.cards[x]? = some c ∨
      x = v.cardId ∧ ∃ key, c = copyRow env now v key := by
    intro x c hc
    rcases hrows with he | ⟨key, he⟩
    · exact .inl (he ▸ hc)
    · rw [he, Map.get_insert] at hc
      split at hc
      · next hx => cases hc; exact .inr ⟨hx.symm, key, rfl⟩
      · exact .inl hc
  refine ⟨⟨fun v' hv' => ?_, hnodup.2, fun v1 hv1 v2 hv2 =>
    hids.parents v1 (List.mem_cons_of_mem _ hv1) v2 (List.mem_cons_of_mem _ hv2)⟩, fun v' hv' => ?_⟩
  · have hu := hids.unused v' (List.mem_cons_of_mem _ hv')
    refine ⟨hu.length, ?_, fun x c hc => ?_, ?_, fun projectId => ?_, fun projectId => ?_⟩
    · rw [h.rows _ fun v1 hv1 => List.mem_singleton.mp hv1 ▸ hne v' hv']
      exact hu.row
    · rcases hrow x c hc with hc | ⟨-, key, rfl⟩
      · exact hu.parents x c hc
      · refine ⟨hids.parents v' (List.mem_cons_of_mem _ hv') v List.mem_cons_self, fun he => ?_⟩
        exact hne v' hv' (livePath_inj hv.length hu.length he)
    · rw [h.files _ fun v1 hv1 he => ?_]
      · exact hu.file
      · rw [List.mem_singleton.mp hv1] at he
        exact hne v' hv' (livePath_inj hv.length hu.length he)
    · unfold LinkRepo.listOutgoing
      rw [h.links]
      exact hu.links projectId
    · unfold MilestoneRepo.listForCard
      rw [h.milestones]
      exact hu.milestones projectId
  · refine and_congr_right fun _ => ?_
    rcases hrows with he | ⟨key, he⟩
    · rw [validateCardParent_iff h.keyed, validateCardParent_iff hk]
      have hup : liveUp w'.db = liveUp w.db := by
        funext projectId id
        simp only [liveUp, findCard, he]
      rw [hup]
    · have hid : (copyRow env now v key).cardId = v.cardId := rfl
      exact validateCardParent_insert hk hid hv.row (fun x c hc => (hv.parents x c hc).1) he
        (hids.parents v List.mem_cons_self v' (List.mem_cons_of_mem _ hv'))

/-- One copy after another. -/
theorem Copied.cons {w1 : World K} (h : Copied env now [v] w w1) (h' : Copied env now versions w1 w')
    (hk : w.db.Keyed) (hids : UnusedIds w (v :: versions)) : Copied env now (v :: versions) w w' := by
  have hnodup := List.nodup_cons.mp (List.map_cons ▸ hids.nodup)
  have hne : ∀ v' ∈ versions, v'.cardId ≠ v.cardId := by
    intro v' hv' he
    exact hnodup.1 (he ▸ List.mem_map_of_mem hv')
  have hpath : ∀ v' ∈ versions, livePath v'.cardId ≠ livePath v.cardId := by
    intro v' hv' he
    exact hne v' hv' (livePath_inj (hids.unused v' (List.mem_cons_of_mem _ hv')).length
      (hids.unused v List.mem_cons_self).length he)
  have hacc := (h.unused hk hids).2
  have hself : ∀ v1 ∈ [v], v1 = v := fun v1 hv1 => List.mem_singleton.mp hv1
  refine ⟨h'.journal.trans h.journal, h'.keyed, h'.tagsKeyed, h.commits.trans h'.commits, ?_, ?_,
    fun id hid => ?_, fun path hp => ?_, h'.links.trans h.links, h'.milestones.trans h.milestones⟩
  · intro v1 hv1 hyes
    rcases List.mem_cons.mp hv1 with rfl | hv1
    · obtain ⟨key, bytes, hrow, hwork, henc⟩ := h.accepted v1 (List.mem_singleton.mpr rfl) hyes
      exact ⟨key, bytes, (h'.rows _ hne).trans hrow, (h'.files _ hpath).trans hwork, henc⟩
    · exact h'.accepted v1 hv1 ((hacc v1 hv1).mpr hyes)
  · intro v1 hv1 hno
    rcases List.mem_cons.mp hv1 with rfl | hv1
    · exact (h'.rows _ hne).trans (h.rejected v1 (List.mem_singleton.mpr rfl) hno)
    · exact h'.rejected v1 hv1 fun hyes => hno ((hacc v1 hv1).mp hyes)
  · rw [h'.rows id fun v1 hv1 => hid v1 (List.mem_cons_of_mem _ hv1),
      h.rows id fun v1 hv1 => hself v1 hv1 ▸ hid v List.mem_cons_self]
  · rw [h'.files path fun v1 hv1 => hp v1 (List.mem_cons_of_mem _ hv1),
      h.files path fun v1 hv1 => hself v1 hv1 ▸ hp v List.mem_cons_self]

/-- The state in which a pull finds that the branches diverged: at rest, with a clean tree at the
local commit. -/
structure DivergedPull (lib : Libgit2) (w : World K) (diverged : NonFastForwardPullError)
    (base ours theirs : Commit) : Prop where
  journal : w.journal = none
  clean : w.repo.Clean
  tip : w.repo.tip = some diverged.localOid
  ours : w.repo.commits[diverged.localOid]? = some ours
  theirs : w.repo.commits[diverged.remoteOid]? = some theirs
  base : ∃ oid, lib.mergeBase w.repo.commits diverged.localOid diverged.remoteOid = .ok oid ∧
    w.repo.commits[oid]? = some base

/-- The ids that the pull may draw: unused on both sides, different, and named by no local version
as its parent. -/
structure FreshIds (env : Env K) (w : World K) (ours theirs : Tree) (generateId : Nat → String) :
    Prop where
  unused : ∀ i < ours.size, UnusedId w (generateId i)
  theirs : ∀ i < ours.size, theirs[livePath (generateId i)]? = none
  distinct : ∀ i < ours.size, ∀ j < ours.size, generateId i = generateId j → i = j
  parents : ∀ i < ours.size, ∀ (path : String) (parsed : ParsedCardFile K),
    ours[path]?.bind (readLocalCard env) = some parsed →
    parsed.card.parentCardId ≠ some (generateId i)

section
variable {ours : Tree} {generateId : Nat → String}

end

/-- What a link says, whichever card it is from. -/
def CardLink.content (link : CardLink) : String × String × String × Option String × Int :=
  (link.toCardId, link.toType, link.kind, link.label, link.createdAt)

/-- What a milestone says, whichever card it is of. -/
def Milestone.content (m : Milestone) : Int × Option Int × Bool × Option String × Option String :=
  (m.startAt, m.endAt, m.allDay, m.kind, m.description)

/-- A live card of the project without a parent. -/
def liveRoot (env : Env K) (cardId : String) : Card K where
  cardId
  projectId := env.project.projectId
  title := ""
  relPath := ""
  parentCardId := none
  sortKey := (0 : Nat)
  createdAt := 0
  updatedAt := 0
  deletedAt := none

/-- Rows in which the parent that a version names is a live root. -/
def parentRows (env : Env K) (v : Version K) : Db K :=
  { (Db.empty : Db K) with
    cards := v.parsed.card.parentCardId.elim ∅ fun p => (∅ : Map String (Card K)).insert p (liveRoot env p) }

theorem parentRows_row {x : String} {c : Card K} : (parentRows env v).cards[x]? = some c ↔
    v.parsed.card.parentCardId = some x ∧ c = liveRoot env x := by
  unfold parentRows
  cases hp : v.parsed.card.parentCardId with
  | none => simp
  | some p =>
    simp only [Option.elim_some, Map.get_insert, Option.some.injEq]
    split
    · next he => subst he; simp [eq_comm]
    · next he => simp [he]

/-- Ids that are fresh in the files are fresh beside the parent of a version. -/
theorem FreshIds.parentRows {ours theirs : Tree} {generateId : Nat → String}
    (h : FreshIds env w ours theirs generateId) {path : String} {v : Version K}
    (hread : ours[path]?.bind (readLocalCard env) = some v.parsed) :
    FreshIds env { w with db := HolderCore.parentRows env v } ours theirs generateId := by
  refine ⟨fun i hi => ?_, h.theirs, h.distinct, h.parents⟩
  have hu := h.unused i hi
  refine ⟨hu.length, Option.eq_none_iff_forall_ne_some.mpr fun c hc => ?_, fun x c hc => ?_, hu.file,
    fun projectId => ?_, fun projectId => ?_⟩
  · exact h.parents i hi path v.parsed hread (parentRows_row.mp hc).1
  · rw [(parentRows_row.mp hc).2]
    refine ⟨nofun, fun he => ?_⟩
    have hlist := congrArg String.toList he
    simp [liveRoot, livePath] at hlist
  · unfold LinkRepo.listOutgoing HolderCore.parentRows
    rfl
  · unfold MilestoneRepo.listForCard HolderCore.parentRows
    rfl

end

/-! ## Two clones -/

/-- The local clone of a project after a fetch, when two clones went on from `base`, and the tips. -/
def diverge [SortKey K] (env : Env K) (base : World K) (ours theirs : List (Call K)) :
    World K × NonFastForwardPullError :=
  let l := runCalls env base ours
  let t := runCalls env base theirs
  let common := base.repo.commits.length
  ({ l with repo := l.repo.fetch t.repo common },
    ⟨l.repo.tip.getD 0, l.repo.fetchedOid common (t.repo.tip.getD 0)⟩)

end HolderCore
