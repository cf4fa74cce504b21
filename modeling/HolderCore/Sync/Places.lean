import HolderCore.Card.Clean
import HolderCore.Project.InSync
import HolderCore.Sync.Conflicts

/-! # The two places of a card after a pull

A card's file is at its live or at its trashed path, and the merge of a diverged pull decides each
path alone. What two clones of a project may have done to a card for it to be in one place still. -/

namespace HolderCore

/-- The card has a file at no more than one of its paths. -/
def OnePlace (tree : Tree) (id : String) : Prop :=
  tree[livePath id]? = none ∨ tree[trashPath id]? = none

instance (tree : Tree) (id : String) : Decidable (OnePlace tree id) :=
  inferInstanceAs (Decidable (_ ∨ _))

/-- The remote side rewrote the card's file at one path and left the other path as it was, where the
local side has a file. -/
def RewrittenBeside (base ours theirs : Tree) (path other : String) : Prop :=
  theirs[path]? ≠ base[path]? ∧ theirs[path]? ≠ none ∧ theirs[other]? = base[other]? ∧
    ours[other]? ≠ none

/-- A card that the merge has in two places: the remote side rewrote its file beside one of the local
side, or one side has it in two places and the other side leaves both. -/
inductive Collides (base ours theirs : Tree) (id : String) : Prop
  | live : RewrittenBeside base ours theirs (livePath id) (trashPath id) → Collides base ours theirs id
  | trash : RewrittenBeside base ours theirs (trashPath id) (livePath id) → Collides base ours theirs id
  | theirs : theirs[livePath id]? ≠ base[livePath id]? → theirs[trashPath id]? ≠ base[trashPath id]? →
    ¬ OnePlace theirs id → Collides base ours theirs id
  | ours : theirs[livePath id]? = base[livePath id]? → theirs[trashPath id]? = base[trashPath id]? →
    ¬ OnePlace ours id → Collides base ours theirs id

theorem onePlace_takingTheirs_iff {base ours theirs tree : Tree}
    (htree : ∀ path : String, tree[path]? = Repo.takingTheirs base ours theirs path) (id : String) :
    OnePlace tree id ↔ ¬ Collides base ours theirs id := by
  rw [OnePlace, htree, htree, Repo.takingTheirs, Repo.takingTheirs]
  by_cases hl : theirs[livePath id]? = base[livePath id]? <;>
    by_cases ht : theirs[trashPath id]? = base[trashPath id]?
  · rw [if_neg (not_not_intro hl), if_neg (not_not_intro ht)]
    refine ⟨fun h hc => ?_, fun h => by_contra fun hno => h (.ours hl ht hno)⟩
    cases hc with
    | live h1 => exact h1.1 hl
    | trash h1 => exact h1.1 ht
    | theirs h1 _ _ => exact h1 hl
    | ours _ _ h1 => exact h1 h
  · rw [if_neg (not_not_intro hl), if_pos ht]
    refine ⟨fun h hc => ?_, fun h => by_contra fun hno => h (.trash ?_)⟩
    · cases hc with
      | live h1 => exact h1.1 hl
      | trash h1 => exact h.elim h1.2.2.2 h1.2.1
      | theirs h1 _ _ => exact h1 hl
      | ours _ h1 _ => exact ht h1
    · obtain ⟨hno1, hno2⟩ := not_or.mp hno
      exact ⟨ht, hno2, hl, hno1⟩
  · rw [if_pos hl, if_neg (not_not_intro ht)]
    refine ⟨fun h hc => ?_, fun h => by_contra fun hno => h (.live ?_)⟩
    · cases hc with
      | live h1 => exact h.elim h1.2.1 h1.2.2.2
      | trash h1 => exact h1.1 ht
      | theirs _ h1 _ => exact h1 ht
      | ours h1 _ _ => exact hl h1
    · obtain ⟨hno1, hno2⟩ := not_or.mp hno
      exact ⟨hl, hno1, ht, hno2⟩
  · rw [if_pos hl, if_pos ht]
    refine ⟨fun h hc => ?_, fun h => by_contra fun hno => h (.theirs hl ht hno)⟩
    cases hc with
    | live h1 => exact ht h1.2.2.1
    | trash h1 => exact hl h1.2.2.1
    | theirs _ _ h1 => exact h1 h
    | ours h1 _ _ => exact hl h1

section
variable [NatCast K] {env : Env K} {work : Tree}

/-- A rebuild meets no card twice in a tree with one place for each. -/
theorem LoadedFiles.ids_nodup {records : List (CardRecord K)} (h : LoadedFiles env work records)
    (hone : ∀ id, OnePlace work id) : (records.map (·.card.cardId)).Nodup := by
  rw [h.ids]
  intro r hr r' hr' he
  obtain ⟨raw, hraw, -⟩ := FileRecord.at_path ((h.mem r).mp hr)
  obtain ⟨raw', hraw', -⟩ := FileRecord.at_path ((h.mem r').mp hr')
  rw [← he] at hraw'
  by_contra hne
  rcases hone r.card.cardId with hnone | hnone <;>
    cases hd : r.card.deletedAt.isSome <;> cases hd' : r'.card.deletedAt.isSome <;>
    simp_all [cardPathOf]

end

/-! ## Two clones -/

section
variable [SortKey K] {env : Env K} {lib : Libgit2} {base : World K}

omit [SortKey K] in
/-- The tip of a settled clone holds its working tree. -/
theorem Settled.tip_commit {w : World K} (h : Settled w) (htip : w.repo.tip.isSome = true) :
    ∃ oid commit, w.repo.tip = some oid ∧ w.repo.commits[oid]? = some commit ∧
      commit.tree = w.repo.work := by
  obtain ⟨oid, hoid⟩ := Option.isSome_iff_exists.mp htip
  have hlt : oid < w.repo.commits.length := h.valid.tip_lt hoid
  refine ⟨oid, w.repo.commits[oid], hoid, List.getElem?_eq_getElem hlt, ?_⟩
  rw [h.clean.work, hoid]
  simp [Repo.treeAt, hlt]

/-- The clones that a pull merges: the local one is clean at its own last commit, and the fetch
stored the remote's. -/
theorem diverge_pull (hbase : Settled base) {baseOid : Nat} (htip : base.repo.tip = some baseOid)
    {ours theirs : List (Call K)} (hours : EachCall env (Call.Returns env) base ours)
    (htheirs : EachCall env (Call.Returns env) base theirs)
    (hmb : lib.mergeBase (diverge env base ours theirs).1.repo.commits
      (diverge env base ours theirs).2.localOid (diverge env base ours theirs).2.remoteOid =
        .ok baseOid) :
    ∃ b l t : Commit,
      DivergedPull lib (diverge env base ours theirs).1 (diverge env base ours theirs).2 b l t ∧
      b.tree = base.repo.work ∧ l.tree = (runCalls env base ours).repo.work ∧
      t.tree = (runCalls env base theirs).repo.work := by
  have hsome : base.repo.tip.isSome = true := by rw [htip]; rfl
  obtain ⟨oid, b, hoid, hb, hbt⟩ := hbase.tip_commit hsome
  rw [htip, Option.some.injEq] at hoid
  subst hoid
  have hl := runCalls_saved hbase hours
  have ht := runCalls_saved hbase htheirs
  obtain ⟨lo, l, hlo, hlc, hlt⟩ := hl.settled.tip_commit (hl.tip hsome)
  obtain ⟨ro, t, hro, htc, htt⟩ := ht.settled.tip_commit (ht.tip hsome)
  -- The clones share the commits of the base.
  have hshared : ∀ {w : World K} {i : Nat}, Saved base.repo w → i < base.repo.commits.length →
      w.repo.commits[i]? = base.repo.commits[i]? := by
    intro w i hs hi
    obtain ⟨own, hown⟩ := hs.commits
    rw [← hown, List.getElem?_append_left hi]
  obtain ⟨fetched, hfc, hft⟩ := Repo.fetch_commit
    (fun i hi => (hshared hl hi).trans (hshared ht hi).symm) hl.commits.length_le htc
  have hkept : ∀ {i : Nat} {c : Commit}, (runCalls env base ours).repo.commits[i]? = some c →
      (diverge env base ours theirs).1.repo.commits[i]? = some c := by
    intro i c hc
    have hi := (List.getElem?_eq_some_iff.mp hc).1
    rw [← hc]
    exact List.getElem?_append_left hi
  have hlocal : (diverge env base ours theirs).2.localOid = lo := by
    simp [diverge, hlo]
  have hremote : (diverge env base ours theirs).2.remoteOid =
      (runCalls env base ours).repo.fetchedOid base.repo.commits.length ro := by
    simp [diverge, hro]
  have hwork : (diverge env base ours theirs).1.repo.treeAt
      (diverge env base ours theirs).1.repo.tip = l.tree := by
    have htip' : (diverge env base ours theirs).1.repo.tip = some lo := hlo
    rw [htip']
    simp [Repo.treeAt, hkept hlc]
  refine ⟨b, l, fetched, ⟨hl.settled.journal, ⟨?_, ?_⟩, ?_, ?_, ?_, baseOid, hmb, ?_⟩, hbt, hlt,
    hft.trans htt⟩
  · rw [hwork]
    exact hlt.symm
  · rw [hwork, hlt, hl.settled.clean.work]
    exact hl.settled.clean.index
  · rw [hlocal]
    exact hlo
  · rw [hlocal, hkept hlc]
  · rw [hremote]
    exact hfc
  · exact hkept ((hshared hl (hbase.valid.tip_lt htip)).trans hb)

/-- The merge of two clones holds every card at no more than one of its paths, so that the rebuild
after it reads no card twice, exactly when no card collides. -/
theorem merge_one_place_iff (henv : env.Lawful) (hlib : lib.Lawful) (hbase : Settled base)
    {baseOid : Nat} (htip : base.repo.tip = some baseOid) {ours theirs : List (Call K)}
    (hours : EachCall env (Call.Returns env) base ours)
    (htheirs : EachCall env (Call.Returns env) base theirs)
    (hmb : lib.mergeBase (diverge env base ours theirs).1.repo.commits
      (diverge env base ours theirs).2.localOid (diverge env base ours theirs).2.remoteOid =
        .ok baseOid) (name : String) :
    ∃ conflicted r', Repo.mergeRemoteTakingTheirsForConflicts lib name
        (diverge env base ours theirs).2.localOid (diverge env base ours theirs).2.remoteOid
        (diverge env base ours theirs).1.repo = .ok conflicted r' ∧
      (((∀ id, OnePlace r'.work id) ∧ ∀ records, loadCardFiles env r'.work = .ok records →
          (records.map (·.card.cardId)).Nodup) ↔
        ∀ id, ¬ Collides base.repo.work (runCalls env base ours).repo.work
          (runCalls env base theirs).repo.work id) := by
  obtain ⟨b, l, t, hpull, hb, hl, ht⟩ := diverge_pull hbase htip hours htheirs hmb
  obtain ⟨baseOid', hmb', hbc⟩ := hpull.base
  obtain ⟨conflicted, r', hrun, hm⟩ := Repo.mergeRemote_merged hlib hpull.clean hpull.tip hpull.ours
    hpull.theirs hbc hmb' name
  obtain ⟨tree, -, hwork, -, htree⟩ := hm.commits
  rw [hb, hl, ht] at htree
  refine ⟨conflicted, r', hrun, ⟨fun h id => ?_, fun h => ?_⟩⟩
  · rw [← onePlace_takingTheirs_iff htree, ← hwork]
    exact h.1 id
  · have hone : ∀ id, OnePlace r'.work id := by
      intro id
      rw [hwork, onePlace_takingTheirs_iff htree]
      exact h id
    exact ⟨hone, fun records hload => (loadCardFiles_ok henv.directory hload).ids_nodup hone⟩

end

/-! ## A card trashed here and edited there -/

instance [SortKey K] (env : Env K) (w : World K) (call : Call K) : Decidable (call.Returns env w) :=
  match h : call.run env w with
  | .ok result w' => .isTrue ⟨result, w', h⟩
  | .error _ _ => .isFalse (by rintro ⟨_, _, h'⟩; rw [h] at h'; cases h')

instance [SortKey K] (env : Env K) (cond : World K → Call K → Prop) [∀ w c, Decidable (cond w c)] :
    ∀ (w : World K) (calls : List (Call K)), Decidable (EachCall env cond w calls)
  | _, [] => .isTrue trivial
  | w, call :: calls =>
    have := instDecidableEachCall env cond (call.after env w) calls
    inferInstanceAs (Decidable (_ ∧ _))

theorem Settled.empty : Settled (World.empty : World K) :=
  ⟨rfl, (Tidy.empty (plainEnv fun _ => [])).valid, rfl, rfl⟩

def sharedCardId : String := "aaaaaaaa-aaaa-4aaa-8aaa-aaaaaaaaaaaa"

/-- A project with one card, that two clones start from. -/
def sharedCard (id : String) : World ℚ :=
  runCalls (plainEnv fun _ => []) World.empty [.create (plainCard id "a" none 1) "" none]

/-- The local clone trashes the card and the remote one edits it: every call returns, the merge
succeeds and has the card in both places, and the rebuild after it fails. -/
theorem trashed_and_edited_collide :
    EachCall (plainEnv fun _ => []) (Call.Returns (plainEnv fun _ => [])) (sharedCard sharedCardId)
      [.trash sharedCardId 2 .promote] ∧
    EachCall (plainEnv fun _ => []) (Call.Returns (plainEnv fun _ => [])) (sharedCard sharedCardId)
      [.updateContent sharedCardId "b" none 3] ∧
    ∃ conflicted r', Repo.mergeRemoteTakingTheirsForConflicts plainGit "origin" 1 2
        (diverge (plainEnv fun _ => []) (sharedCard sharedCardId) [.trash sharedCardId 2 .promote]
          [.updateContent sharedCardId "b" none 3]).1.repo = .ok conflicted r' ∧
      ¬ OnePlace r'.work sharedCardId ∧
      (∃ records, loadCardFiles (plainEnv fun _ => []) r'.work = .ok records ∧
        ¬ (records.map (·.card.cardId)).Nodup) ∧
      ∃ e, projection (plainEnv fun _ => []) r'.work = .error e := by
  refine ⟨by decide +kernel, by decide +kernel, ?_⟩
  have heval : (match Repo.mergeRemoteTakingTheirsForConflicts plainGit "origin" 1 2
        (diverge (plainEnv fun _ => []) (sharedCard sharedCardId) [.trash sharedCardId 2 .promote]
          [.updateContent sharedCardId "b" none 3]).1.repo with
      | .ok _ r' => decide (¬ OnePlace r'.work sharedCardId) &&
        (match loadCardFiles (plainEnv fun _ => []) r'.work with
        | .ok records => decide (¬ (records.map (·.card.cardId)).Nodup)
        | .error _ => false) &&
        (match projection (plainEnv fun _ => []) r'.work with
        | .ok _ => false
        | .error _ => true)
      | .error _ _ => false) = true := by decide +kernel
  split at heval
  · next conflicted r' hrun =>
    rw [Bool.and_eq_true, Bool.and_eq_true, decide_eq_true_eq] at heval
    obtain ⟨⟨htwo, hids⟩, hfail⟩ := heval
    refine ⟨conflicted, r', hrun, htwo, ?_, ?_⟩
    · split at hids
      · next records hload => exact ⟨records, hload, of_decide_eq_true hids⟩
      · cases hids
    · split at hfail
      · cases hfail
      · next e he => exact ⟨e, he⟩
  · cases heval

/-- Both clones edit the card, and it stays in one place. -/
theorem both_edited_one_place :
    ∃ conflicted r', Repo.mergeRemoteTakingTheirsForConflicts plainGit "origin"
        (diverge (plainEnv fun _ => []) (sharedCard "aaaa") [.updateContent "aaaa" "c" none 2]
          [.updateContent "aaaa" "b" none 3]).2.localOid
        (diverge (plainEnv fun _ => []) (sharedCard "aaaa") [.updateContent "aaaa" "c" none 2]
          [.updateContent "aaaa" "b" none 3]).2.remoteOid
        (diverge (plainEnv fun _ => []) (sharedCard "aaaa") [.updateContent "aaaa" "c" none 2]
          [.updateContent "aaaa" "b" none 3]).1.repo = .ok conflicted r' ∧
      (((∀ id, OnePlace r'.work id) ∧ ∀ records,
          loadCardFiles (plainEnv fun _ => []) r'.work = .ok records →
            (records.map (·.card.cardId)).Nodup) ↔
        ∀ id, ¬ Collides (sharedCard "aaaa").repo.work
          (runCalls (plainEnv fun _ => []) (sharedCard "aaaa") [.updateContent "aaaa" "c" none 2]).repo.work
          (runCalls (plainEnv fun _ => []) (sharedCard "aaaa") [.updateContent "aaaa" "b" none 3]).repo.work
          id) := by
  have hsettled : Settled (sharedCard "aaaa") :=
    (runCalls_saved .empty (by decide +kernel)).settled
  have htip : (sharedCard "aaaa").repo.tip = some 0 := by decide +kernel
  exact merge_one_place_iff (plainEnv_lawful _) plainGit_lawful hsettled htip (by decide +kernel)
    (by decide +kernel) (by decide +kernel) "origin"

end HolderCore
