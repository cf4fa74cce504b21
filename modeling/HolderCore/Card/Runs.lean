import HolderCore.Card.FlowYaml
import HolderCore.Card.Forest

/-! # Runs of the store

What holds in every state that calls of the store lead to from an empty project: every live card is
browsed from the roots, and the parent pointers have no cycle unless a trashed version brought one
back. -/

namespace HolderCore

section
variable [SortKey K] (env : Env K)

/-- The state a call leaves, whether it returned or threw. -/
def Call.after (w : World K) (call : Call K) : World K :=
  match call.run env w with
  | .ok _ w' => w'
  | .error _ w' => w'

/-- The state after a run of calls. -/
def runCalls (w : World K) (calls : List (Call K)) : World K := calls.foldl (Call.after env) w

/-- Every call of a run meets a condition in the state it is made in. -/
def EachCall (cond : World K → Call K → Prop) : World K → List (Call K) → Prop
  | _, [] => True
  | w, call :: calls => cond w call ∧ EachCall cond (call.after env w) calls

end

section
variable [SortKey K] {env : Env K}

/-- What every call keeps, a run of calls keeps. -/
theorem runCalls_invariant {cond : World K → Call K → Prop} {Q : World K → Prop}
    (step : ∀ w call, cond w call → Q w → Q (call.after env w)) {w : World K} {calls : List (Call K)}
    (hcalls : EachCall env cond w calls) (hw : Q w) : Q (runCalls env w calls) := by
  induction calls generalizing w with
  | nil => exact hw
  | cons call calls ih => exact ih hcalls.2 (step w call hcalls.1 hw)

theorem Call.after_of_ends {call : Call K} {w : World K} {Q : World K → Prop}
    (h : Ends (call.run env) w (fun _ => Q) fun _ => Q) : Q (call.after env w) := by
  unfold Call.after
  unfold Ends at h
  split at h
  · next hr => rw [hr]; exact h
  · next hr => rw [hr]; exact h

end

/-! ## Every call steps the forest -/

/-- What `P` must hold of when the call brings back a trashed version: the card and the parent
recorded there. -/
def Call.Recorded [NatCast K] (env : Env K) (P : Forest String → String → Option String → Prop)
    (w : World K) : Call K → Prop
  | .restoreVersion cardId (some oid) _ => ∀ raw plain,
    CardStore.historicalBlob w.repo oid cardId = .ok (raw, true) →
    decodeCardBlob env raw = .ok plain →
    P w.db.forest cardId (parseCardFile env.yaml plain).card.parentCardId
  | _ => True

section
open CardStore
variable [SortKey K] {env : Env K} {P : Forest String → String → Option String → Prop} {w : World K}

omit [SortKey K] in
private theorem withCard_evolved (hw : Tidy env w) (cardId : String)
    {rest : Card K → StoreM K Unit}
    (h : ∀ card, w.db.cards[cardId]? = some card →
      Ends (rest card) w (fun _ => Evolved env P w) fun _ => Evolved env P w) :
    Ends (withCard w.db cardId rest).run w (fun _ => Evolved env P w) fun _ => Evolved env P w := by
  have hself : Evolved env P w w := .refl hw
  unfold withCard CardRepo.get?
  cases hc : w.db.cards[cardId]? with
  | none => exact hself
  | some card => exact (h card hc).bind (fun _ _ h => h) fun _ _ h => h

/-- A call evolves the forest; a repair does where it finds nothing to repair. -/
theorem Call.run_evolved_of (call : Call K) (hw : Tidy env w)
    (hlive : ∀ projectId updatedAt, call = .repairHierarchy projectId updatedAt →
      w.db.forest.LiveRooted)
    (hkeep : ∀ x h, w.db.forest.up x = some h → P w.db.forest x h) (hrec : call.Recorded env P w) :
    Ends (call.run env) w (fun _ => Evolved env P w) fun _ => Evolved env P w := by
  have hself : Evolved env P w w := .refl hw
  unfold Call.run
  simp only [Ends.bind_iff, Ends.get_iff]
  cases call with
  | create card content key =>
    exact (createLocked_evolved card content key hw).bind (fun _ _ h => h) fun _ _ h => h
  | createBatch projectId items generateId uuidV4 message =>
    exact (createBatchLocked_evolved projectId items generateId uuidV4 message hw).bind
      (fun _ _ h => h) fun _ _ h => h
  | updateContent cardId content title updatedAt =>
    exact withCard_evolved hw cardId fun card _ => updateContentLocked_evolved card _ _ _ w hself
  | move cardId hasParent parent key updatedAt =>
    exact withCard_evolved hw cardId fun card _ => moveLocked_evolved _ _ _ _ _ _ hw
  | moveTo projectId cardId request updatedAt =>
    simp only [Call.enter, moveToEntry]
    split
    · exact hself
    · split
      · exact hself
      · exact moveToLocked_evolved _ _ _ _ hw
  | updateLinks cardId updatedAt =>
    exact withCard_evolved hw cardId fun card _ => updateLinksLocked_evolved card _ w hself
  | updateMilestones cardId updatedAt =>
    exact withCard_evolved hw cardId fun card _ => updateMilestonesLocked_evolved card _ w hself
  | updateMilestone projectId cardId milestoneId update updatedAt =>
    simp only [Call.enter, updateMilestoneEntry]
    split
    · next result _ =>
      cases result with
      | ok _ => exact hself
      | error _ => exact hself
    · exact (updateMilestoneLocked_evolved _ _ _ w hself).bind (fun _ _ h => h) fun _ _ h => h
  | trash cardId deletedAt children =>
    exact withCard_evolved hw cardId fun card _ => trashLocked_evolved _ _ _ _ hw hkeep
  | restore cardId updatedAt =>
    exact withCard_evolved hw cardId fun card _ => restoreLocked_evolved _ _ _ hw
  | restoreVersion cardId oid updatedAt =>
    cases oid with
    | none => exact hself
    | some oid =>
      exact withCard_evolved hw cardId fun card _ =>
        restoreVersionLocked_evolved _ _ _ _ hw hrec
  | repairHierarchy projectId updatedAt =>
    exact repairHierarchyLocked_evolved _ _ hw (hlive _ _ rfl)
  | hardDelete cardId =>
    simp only [Call.enter, hardDeleteEntry]
    split
    · exact hself
    · split
      · exact hself
      · exact (hardDeleteLocked_evolved _ hw).bind (fun _ _ h => h) fun _ _ h => h
  | addTag cardId tag updatedAt =>
    simp only [Call.enter, addTagEntry]
    split
    · exact hself
    · split
      · exact hself
      · exact (addTagLocked_evolved _ _ _ w hself).bind (fun _ _ h => h) fun _ _ h => h
  | removeTag cardId tag updatedAt =>
    simp only [Call.enter, removeTagEntry]
    split
    · exact hself
    · split
      · exact hself
      · exact (removeTagLocked_evolved _ _ _ w hself).bind (fun _ _ h => h) fun _ _ h => h

theorem Call.run_evolved (call : Call K) (hw : Tidy env w) (hlive : w.db.forest.LiveRooted)
    (hkeep : ∀ x h, w.db.forest.up x = some h → P w.db.forest x h) (hrec : call.Recorded env P w) :
    Ends (call.run env) w (fun _ => Evolved env P w) fun _ => Evolved env P w :=
  call.run_evolved_of hw (fun _ _ _ => hlive) hkeep hrec

/-! ## No hidden cards -/

/-- At rest, with every live card rooted among the live ones. -/
structure Browsed (env : Env K) (w : World K) : Prop where
  tidy : Tidy env w
  live : w.db.forest.LiveRooted

omit [SortKey K] in
theorem Evolved.liveRooted {w' : World K} (h : Evolved env P w w') (hw : w.db.forest.LiveRooted) :
    w'.db.forest.LiveRooted := by
  obtain ⟨-, hsteps⟩ := h
  generalize w'.db.forest = f at hsteps
  induction hsteps with
  | refl => exact hw
  | tail _ step ih => exact step.liveRooted ih

omit [SortKey K] in
theorem Evolved.noCycle {w' : World K} (h : Evolved env (fun f x h => f.Returnable x h) w w')
    (hw : w.db.forest.NoCycle) : w'.db.forest.NoCycle := by
  obtain ⟨-, hsteps⟩ := h
  generalize w'.db.forest = f at hsteps
  induction hsteps with
  | refl => exact hw
  | tail _ step ih => exact step.noCycle (fun _ _ h => h) ih

omit [SortKey K] in
theorem Browsed.empty (env : Env K) : Browsed env (World.empty : World K) :=
  ⟨.empty env, fun x p hx => by simp [World.empty, Db.empty, Db.forest, Forest.liveUp] at hx⟩

theorem Browsed.after (h : Browsed env w) (call : Call K) : Browsed env (call.after env w) := by
  have hev : Evolved env (fun _ _ _ => True) w (call.after env w) := by
    refine Call.after_of_ends (call.run_evolved h.tidy h.live (fun _ _ _ => trivial) ?_)
    unfold Call.Recorded
    split
    · exact fun _ _ _ _ => trivial
    · trivial
  exact ⟨hev.tidy, hev.liveRooted h.live⟩

theorem runCalls_browsed (env : Env K) (calls : List (Call K)) :
    Browsed env (runCalls env World.empty calls) := by
  have hrun : ∀ w, Browsed env w → Browsed env (runCalls env w calls) := by
    induction calls with
    | nil => exact fun w hw => hw
    | cons call calls ih => exact fun w hw => ih _ (hw.after call)
  exact hrun _ (.empty env)

end

/-- The cards met when browsing from the roots of a project, child list by child list. -/
inductive Browsable [LinearOrder K] (db : Db K) (projectId : String) : Card K → Prop
  | root : c ∈ CardRepo.listRoots db projectId → c.live = true → Browsable db projectId c
  | child : Browsable db projectId p → c ∈ CardRepo.listChildren db projectId p.cardId →
    c.live = true → Browsable db projectId c

theorem Browsable.of_rooted [LinearOrder K] {db : Db K} (hk : db.Keyed) {projectId id : String}
    (h : Rooted (liveUp db projectId) id) :
    ∃ c, db.cards[id]? = some c ∧ Browsable db projectId c := by
  have hrow : ∀ {id : String} {c : Card K}, db.cards[id]? = some c → c ∈ db.cards.rows := by
    intro id c hc
    rw [mem_rows_iff hk, hk id c hc]
    exact hc
  induction h with
  | @root id hup =>
    obtain ⟨c, hc, hproj, hdel, hpar⟩ := liveUp_eq_some.mp hup
    refine ⟨c, hc, .root (mem_listWhere.mpr ⟨hrow hc, ?_⟩) (Card.live_iff.mpr hdel)⟩
    simp [hproj, hpar]
  | @step id q hup _ ih =>
    obtain ⟨p, hp, hbrowse⟩ := ih
    obtain ⟨c, hc, hproj, hdel, hpar⟩ := liveUp_eq_some.mp hup
    refine ⟨c, hc, .child hbrowse (mem_listWhere.mpr ⟨hrow hc, ?_⟩) (Card.live_iff.mpr hdel)⟩
    simp [hproj, hpar, hk q p hp]

/-- In every state of every run, the way up from a live card stays among the live cards of the
project and ends at a root; so every live card is met when browsing, and the repair of the hierarchy
has nothing to do. -/
theorem runCalls_no_hidden_cards [SortKey K] (env : Env K) (calls : List (Call K)) :
    let w := runCalls env World.empty calls
    (∀ (id : String) (c : Card K), w.db.cards[id]? = some c → c.deletedAt = none →
      c.projectId = env.project.projectId ∧ Rooted (liveUp w.db env.project.projectId) id ∧
        Browsable w.db env.project.projectId c) ∧
      ∀ updatedAt, planHierarchyRepair w.db env.project.projectId updatedAt = .ok ⟨[], [], []⟩ := by
  intro w
  have hw : Browsed env w := runCalls_browsed env calls
  have hlive : AllRooted (liveUp w.db env.project.projectId) := by
    rw [← Db.forest_live hw.tidy.project]
    exact hw.live
  refine ⟨fun id c hc hdel => ?_, planHierarchyRepair_of_rooted hw.tidy.keyed hlive⟩
  have hproj := hw.tidy.project id c hc
  have hroot := hlive id _ (liveUp_eq_some.mpr ⟨c, hc, hproj, hdel, rfl⟩)
  obtain ⟨c', hc', hbrowse⟩ := Browsable.of_rooted hw.tidy.keyed hroot
  rw [hc] at hc'
  cases hc'
  exact ⟨hproj, hroot, hbrowse⟩

/-! ## Cycles -/

/-- A pointer that a card may be trashed with: neither the card itself, nor a trashed child of it,
nor a card below one. -/
def SafeParent (db : Db K) (cardId parent : String) : Prop :=
  parent ≠ cardId ∧ ∀ (id : String) (c : Card K), db.cards[id]? = some c →
    c.parentCardId = some cardId → c.deletedAt.isSome →
    ¬ Relation.ReflTransGen (ParentStep (cardUp db)) parent id

/-- The call brings back no trashed version whose recorded parent is unsafe now. -/
def Call.BringsBackSafely [NatCast K] (env : Env K) (w : World K) (call : Call K) : Prop :=
  call.Recorded env (fun _ cardId h => ∀ parent, h = some parent → SafeParent w.db cardId parent) w

theorem safeParent_returnable {db : Db K} {cardId : String} {h : Option String}
    (hsafe : ∀ parent, h = some parent → SafeParent db cardId parent) :
    db.forest.Returnable cardId h := by
  intro y hy
  obtain ⟨hne, hbelow⟩ := hsafe y hy
  refine ⟨hne, fun b hb => ?_⟩
  obtain ⟨c, hc, hn⟩ := Option.map_eq_some_iff.mp hb
  injection hn with hpar hlive
  rw [Db.forest_up]
  refine hbelow b c hc hpar ?_
  simpa [Card.live] using hlive

/-- In every run whose calls bring back no trashed version with an unsafe recorded parent, the
parent pointers of all cards, live and trashed, have no cycle in any state. -/
theorem runCalls_no_cycle [SortKey K] (env : Env K) (calls : List (Call K))
    (hcalls : EachCall env (Call.BringsBackSafely env) World.empty calls) (id : String) :
    ¬ Relation.TransGen (ParentStep (cardUp (runCalls env World.empty calls).db)) id id := by
  have hinv : Browsed env (runCalls env World.empty calls) ∧
      (runCalls env World.empty calls).db.forest.NoCycle := by
    refine runCalls_invariant (Q := fun w => Browsed env w ∧ w.db.forest.NoCycle) ?_ hcalls
      ⟨.empty env, fun x p hx => by simp [World.empty, Db.empty, Db.forest, Forest.up] at hx⟩
    rintro w call hsafe ⟨hw, hf⟩
    have hev : Evolved env (fun f x h => f.Returnable x h) w (call.after env w) := by
      refine Call.after_of_ends (call.run_evolved hw.tidy hw.live (fun x h => hf.returnable) ?_)
      unfold Call.BringsBackSafely Call.Recorded at hsafe
      unfold Call.Recorded
      split
      · exact fun raw plain hblob hplain => safeParent_returnable (hsafe raw plain hblob hplain)
      · trivial
    exact ⟨⟨hev.tidy, hev.liveRooted hw.live⟩, hev.noCycle hf⟩
  rw [← Db.forest_up]
  exact hinv.2.not_cycle id

/-- A trashed version brought back under a parent that is still above the card. -/
def safeRun : List (Call ℚ) :=
  [.create (plainCard "bbbb" "b" none 1) "" none, .create (plainCard "aaaa" "a" (some "bbbb") 2) "" none,
    .trash "aaaa" 3 .promote, .restoreVersion "aaaa" (some 2) 4]

theorem safeRun_no_cycle :
    EachCall (plainEnv fun _ => []) (Call.BringsBackSafely (plainEnv fun _ => [])) World.empty safeRun ∧
      ¬ Relation.TransGen
        (ParentStep (cardUp (runCalls (plainEnv fun _ => []) World.empty safeRun).db)) "aaaa" "aaaa" := by
  have hsafe : EachCall (plainEnv fun _ => []) (Call.BringsBackSafely (plainEnv fun _ => []))
      World.empty safeRun := by
    refine ⟨trivial, trivial, trivial, ?_, trivial⟩
    set w := Call.after (plainEnv fun _ => []) (Call.after (plainEnv fun _ => []) (Call.after
      (plainEnv fun _ => []) World.empty (.create (plainCard "bbbb" "b" none 1) "" none))
      (.create (plainCard "aaaa" "a" (some "bbbb") 2) "" none)) (.trash "aaaa" 3 .promote) with hw
    have heval : (∀ raw ∈ (CardStore.historicalBlob w.repo 2 "aaaa").toOption,
          ∀ plain ∈ (decodeCardBlob (plainEnv fun _ => []) raw.1).toOption,
          (parseCardFile flowYaml plain).card.parentCardId = some "bbbb") ∧
        ∀ c ∈ w.db.cards.rows, c.parentCardId ≠ some "aaaa" := by
      rw [hw]
      decide +kernel
    intro raw plain hraw hplain parent hparent
    have hb := heval.1 _ (by rw [hraw]; rfl) plain (by rw [hplain]; rfl)
    rw [show (plainEnv fun _ => []).yaml = flowYaml from rfl, hb] at hparent
    cases hparent
    refine ⟨by decide, fun id c hc hpar => ?_⟩
    exact absurd hpar (heval.2 c (Map.mem_rows.mpr ⟨id, hc⟩))
  exact ⟨hsafe, runCalls_no_cycle _ _ hsafe "aaaa"⟩

/-- A card is trashed under `b`, comes back, goes above `b`, and its trashed version is brought back
once `b` is in the trash under it. -/
def cycleRun : List (Call ℚ) :=
  let a := "aaaaaaaa-aaaa-4aaa-8aaa-aaaaaaaaaaaa"
  let b := "bbbbbbbb-bbbb-4bbb-8bbb-bbbbbbbbbbbb"
  [.create (plainCard b "b" none 1) "" none, .create (plainCard a "a" (some b) 2) "" none,
    .trash a 3 .promote, .restore a 4, .move a true none none 5, .move b true (some a) none 6,
    .trash b 7 .promote, .restoreVersion a (some 2) 8]

theorem cycleRun_cycle :
    Relation.TransGen
      (ParentStep (cardUp (runCalls (plainEnv fun _ => []) World.empty cycleRun).db))
      "aaaaaaaa-aaaa-4aaa-8aaa-aaaaaaaaaaaa" "aaaaaaaa-aaaa-4aaa-8aaa-aaaaaaaaaaaa" := by
  have hrun : cardUp (runCalls (plainEnv fun _ => []) World.empty cycleRun).db
        "aaaaaaaa-aaaa-4aaa-8aaa-aaaaaaaaaaaa" = some (some "bbbbbbbb-bbbb-4bbb-8bbb-bbbbbbbbbbbb") ∧
      cardUp (runCalls (plainEnv fun _ => []) World.empty cycleRun).db
        "bbbbbbbb-bbbb-4bbb-8bbb-bbbbbbbbbbbb" = some (some "aaaaaaaa-aaaa-4aaa-8aaa-aaaaaaaaaaaa") := by
    decide +kernel
  exact .tail (.single hrun.1) hrun.2

end HolderCore
