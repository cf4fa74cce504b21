import HolderCore.Library.Rooted

/-! # Forests with a bin

A forest whose nodes are live or binned, each with a parent pointer. Live nodes are browsed from
the roots, so their pointers must stay among the live nodes (`LiveRooted`); the pointers of binned
nodes are kept for the day they come back, and must at least not close a cycle (`NoCycle`).

`Forest.Step P` is everything that may happen to such a forest. Each step keeps the live nodes
rooted, whatever the pointers of the binned ones. `P` is what is asked of the pointer a node is
binned with. -/

structure Node (α : Type) where
  parent : Option α
  live : Bool

/-- The nodes of a forest. -/
abbrev Forest (α : Type) := α → Option (Node α)

namespace Forest

variable {α : Type}

/-- All parent pointers. -/
def up (f : Forest α) (x : α) : Option (Option α) := (f x).map (·.parent)

/-- The parent pointers of the live nodes. -/
def liveUp (f : Forest α) (x : α) : Option (Option α) := ((f x).filter (·.live)).map (·.parent)

/-- Every live node is reached from a root through live nodes. -/
def LiveRooted (f : Forest α) : Prop := AllRooted f.liveUp

/-- Every way up the parent pointers ends at a root. -/
def NoCycle (f : Forest α) : Prop := AllRooted f.up

theorem up_eq_some {f : Forest α} {x : α} {p : Option α} :
    f.up x = some p ↔ ∃ live, f x = some ⟨p, live⟩ := by
  rw [up, Option.map_eq_some_iff]
  constructor
  · rintro ⟨⟨p', live⟩, h, rfl⟩
    exact ⟨live, h⟩
  · rintro ⟨live, h⟩
    exact ⟨_, h, rfl⟩

theorem liveUp_eq_some {f : Forest α} {x : α} {p : Option α} :
    f.liveUp x = some p ↔ f x = some ⟨p, true⟩ := by
  rw [liveUp, Option.map_eq_some_iff]
  constructor
  · rintro ⟨⟨p', live⟩, h, rfl⟩
    obtain ⟨h, hl⟩ := Option.filter_eq_some_iff.mp h
    rw [h]
    cases hl
    rfl
  · intro h
    exact ⟨_, Option.filter_eq_some_iff.mpr ⟨h, rfl⟩, rfl⟩

theorem up_of_liveUp {f : Forest α} {x : α} {p : Option α} (h : f.liveUp x = some p) :
    f.up x = some p := up_eq_some.mpr ⟨true, liveUp_eq_some.mp h⟩

variable [DecidableEq α]

/-- A place for `x`: among the roots or under a live node whose way up avoids `x`. -/
def Reachable (f : Forest α) (x : α) (p : Option α) : Prop :=
  ∀ y, p = some y → Rooted (avoiding f.liveUp [x]) y

/-- Where a node of the forest goes when `x` is binned with the pointer `h` and its live children
are promoted to `r`. -/
def bin (f : Forest α) (x : α) (h r : Option α) : Forest α := fun y =>
  if y = x then some ⟨h, false⟩
  else (f y).map fun n => if n.live ∧ n.parent = some x then ⟨r, true⟩ else n

/-- Where a node of the forest goes when `x` is removed. -/
def remove (f : Forest α) (x : α) : Forest α := fun y =>
  if y = x then none
  else (f y).map fun n => if n.parent = some x then ⟨none, n.live⟩ else n

/-- What may happen to a forest. -/
inductive Step (P : Forest α → α → Option α → Prop) : Forest α → Forest α → Prop
  /-- A node comes to a reachable place, live unless it is new. -/
  | place (x : α) (p : Option α) (live : Bool) : f.Reachable x p → (live = true ∨ f x = none) →
    Step P f (Function.update f x (some ⟨p, live⟩))
  /-- A node is binned and its live children go to a reachable place. -/
  | bin (x : α) (h r : Option α) : (∀ y, h = some y → ∃ n, f y = some n) → P f x h →
    f.Reachable x r → Step P f (f.bin x h r)
  /-- Nodes are binned together with all live nodes under them. -/
  | binAll (binned : α → Bool) :
    (∀ x y, f x = some ⟨some y, true⟩ → binned y = true → binned x = true) →
    Step P f (fun x => (f x).map fun n => { n with live := n.live && !binned x })
  /-- A node is removed, and its children become roots. -/
  | remove (x : α) : Step P f (f.remove x)

/-- A pointer that `x` may be binned with: from there the pointers lead to `x` only through its
live children, which are promoted. -/
def Returnable (f : Forest α) (x : α) (h : Option α) : Prop :=
  ∀ y, h = some y → y ≠ x ∧ ∀ b, f b = some ⟨some x, false⟩ →
    ¬ Relation.ReflTransGen (ParentStep f.up) y b

variable {f f' : Forest α} {x : α} {p h r : Option α} {P : Forest α → α → Option α → Prop}

/-- A reachable place is still reached when only pointers of or to `x` change. -/
theorem Reachable.rooted_liveUp (hr : f.Reachable x p) (hy : p = some y)
    (keep : ∀ z q, z ≠ x → q ≠ some x → f z = some ⟨q, true⟩ → f' z = some ⟨q, true⟩) :
    Rooted f'.liveUp y := by
  refine (hr y hy).weaken_rooted fun z q hz hq => ?_
  obtain ⟨hzx, hq'⟩ := avoiding_eq_some.mp hq
  refine liveUp_eq_some.mpr (keep z q (by simpa using hzx) ?_ (liveUp_eq_some.mp hq'))
  rintro rfl
  obtain ⟨q, hx⟩ := (hz.parent hq).node
  exact (avoiding_eq_some.mp hx).1 (by simp)

theorem Reachable.rooted_up (hr : f.Reachable x p) (hy : p = some y)
    (keep : ∀ z q, z ≠ x → q ≠ some x → f z = some ⟨q, true⟩ → f' z = some ⟨q, true⟩) :
    Rooted f'.up y :=
  (hr.rooted_liveUp hy keep).weaken fun _ _ => up_of_liveUp

/-- Every step keeps the live nodes rooted. -/
theorem Step.liveRooted (step : Step P f f') (hf : f.LiveRooted) : f'.LiveRooted := by
  cases step with
  | place x p live hreach hlive =>
    have keep : ∀ z q, z ≠ x → q ≠ some x → f z = some ⟨q, true⟩ →
        Function.update f x (some ⟨p, live⟩) z = some ⟨q, true⟩ := by
      intro z q hz _ hq
      rw [Function.update_of_ne hz, hq]
    refine AllRooted.of_step hf fun z q hz => ?_
    have hz := liveUp_eq_some.mp hz
    by_cases hzx : z = x
    · subst hzx
      rw [Function.update_self] at hz
      cases hz
      exact .inr fun y hy => hreach.rooted_liveUp hy keep
    · rw [Function.update_of_ne hzx] at hz
      refine .inl ⟨liveUp_eq_some.mpr hz, fun y hy => ?_⟩
      subst hy
      have hup : f.liveUp z = some (some y) := liveUp_eq_some.mpr hz
      obtain ⟨q, hq⟩ := ((hf z _ hup).parent hup).node
      by_cases hyx : y = x
      · -- The parent is live, so it is no new node and stays live.
        subst hyx
        rcases hlive with rfl | hnew
        · exact ⟨p, liveUp_eq_some.mpr (Function.update_self ..)⟩
        · rw [liveUp_eq_some, hnew] at hq
          cases hq
      · refine ⟨q, liveUp_eq_some.mpr ?_⟩
        rw [Function.update_of_ne hyx]
        exact liveUp_eq_some.mp hq
  | bin x h r _ _ hreach =>
    have keep : ∀ z q, z ≠ x → q ≠ some x → f z = some ⟨q, true⟩ →
        f.bin x h r z = some ⟨q, true⟩ := by
      intro z q hz hq hfz
      simp [Forest.bin, hz, hfz, hq]
    refine AllRooted.of_step hf fun z q hz => ?_
    have hz := liveUp_eq_some.mp hz
    unfold Forest.bin at hz
    split at hz
    · cases hz
    · next hzx =>
      obtain ⟨n, hn, hnq⟩ := Option.map_eq_some_iff.mp hz
      split at hnq
      · cases hnq
        exact .inr fun y hy => hreach.rooted_liveUp hy keep
      · next hpar =>
        subst hnq
        refine .inl ⟨liveUp_eq_some.mpr hn, fun y hy => ?_⟩
        subst hy
        have hup : f.liveUp z = some (some y) := liveUp_eq_some.mpr hn
        obtain ⟨q, hq⟩ := ((hf z _ hup).parent hup).node
        have hyx : y ≠ x := by
          rintro rfl
          exact hpar ⟨rfl, rfl⟩
        by_cases hqx : q = some x
        · exact ⟨r, liveUp_eq_some.mpr (by simp [Forest.bin, hyx, liveUp_eq_some.mp hq, hqx])⟩
        · exact ⟨q, liveUp_eq_some.mpr (keep y q hyx hqx (liveUp_eq_some.mp hq))⟩
  | binAll binned closed =>
    refine AllRooted.of_step hf fun z q hz => ?_
    have hz := liveUp_eq_some.mp hz
    obtain ⟨⟨q', l⟩, hn, hnq⟩ := Option.map_eq_some_iff.mp hz
    simp only [Node.mk.injEq, Bool.and_eq_true, Bool.not_eq_true'] at hnq
    obtain ⟨rfl, rfl, hbin⟩ := hnq
    refine .inl ⟨liveUp_eq_some.mpr hn, fun y hy => ?_⟩
    subst hy
    have hup : f.liveUp z = some (some y) := liveUp_eq_some.mpr hn
    obtain ⟨q, hq⟩ := ((hf z _ hup).parent hup).node
    have hy : binned y = false := by
      by_contra hy
      rw [closed z y hn (by simpa using hy)] at hbin
      cases hbin
    exact ⟨q, liveUp_eq_some.mpr (by simp [liveUp_eq_some.mp hq, hy])⟩
  | remove x =>
    refine AllRooted.of_step hf fun z q hz => ?_
    have hz := liveUp_eq_some.mp hz
    unfold Forest.remove at hz
    split at hz
    · cases hz
    · next hzx =>
      obtain ⟨n, hn, hnq⟩ := Option.map_eq_some_iff.mp hz
      split at hnq
      · injection hnq with hq _
        subst hq
        exact .inr (by simp)
      · next hpar =>
        subst hnq
        refine .inl ⟨liveUp_eq_some.mpr hn, fun y hy => ?_⟩
        subst hy
        have hup : f.liveUp z = some (some y) := liveUp_eq_some.mpr hn
        obtain ⟨q, hq⟩ := ((hf z _ hup).parent hup).node
        have hyx : y ≠ x := by
          rintro rfl
          exact hpar rfl
        by_cases hqx : q = some x
        · exact ⟨none, liveUp_eq_some.mpr (by simp [Forest.remove, hyx, liveUp_eq_some.mp hq, hqx])⟩
        · exact ⟨q, liveUp_eq_some.mpr (by simp [Forest.remove, hyx, liveUp_eq_some.mp hq, hqx])⟩

/-! ## Cycles -/

/-- After `x` is binned, a node from which the pointers reached no binned child of `x` is rooted:
where they led to `x`, they now lead past it. -/
private theorem bin_rooted (hreach : f.Reachable x r) (hy : Rooted f.up y) (hne : y ≠ x)
    (hbinned : ∀ b, f b = some ⟨some x, false⟩ → ¬ Relation.ReflTransGen (ParentStep f.up) y b) :
    Rooted (f.bin x h r).up y := by
  induction hy with
  | root hroot =>
    obtain ⟨live, hfy⟩ := up_eq_some.mp hroot
    exact .root (up_eq_some.mpr ⟨live, by simp [bin, hne, hfy]⟩)
  | @step y z hstep hz ih =>
    obtain ⟨live, hfy⟩ := up_eq_some.mp hstep
    by_cases hzx : z = x
    · subst hzx
      cases live with
      | false => exact absurd .refl (hbinned y hfy)
      | true =>
        have hup : (f.bin z h r).up y = some r := up_eq_some.mpr ⟨true, by simp [bin, hne, hfy]⟩
        cases r with
        | none => exact .root hup
        | some r =>
          refine .step hup (hreach.rooted_up rfl fun v q hv hq hfv => ?_)
          simp [bin, hv, hfv, hq]
    · have hup : (f.bin x h r).up y = some (some z) :=
        up_eq_some.mpr ⟨live, by simp [bin, hne, hfy, hzx]⟩
      exact .step hup (ih hzx fun b hb hzb => hbinned b hb (.head hstep hzb))

omit [DecidableEq α] in
/-- A node's own pointer is one that it may be binned with. -/
theorem NoCycle.returnable (hf : f.NoCycle) (hx : f.up x = some h) : f.Returnable x h := by
  rintro y rfl
  refine ⟨?_, fun b hb hyb => ?_⟩
  · rintro rfl
    exact hf.not_cycle y (.single hx)
  · have hbx : ParentStep f.up b x := up_eq_some.mpr ⟨false, hb⟩
    have hxy : ParentStep f.up x y := hx
    exact hf.not_cycle x (.head' hxy (.tail hyb hbx))

/-- A step keeps the forest free of cycles if what it bins may be binned so. -/
theorem Step.noCycle (step : Step P f f') (hP : ∀ x h, P f x h → f.Returnable x h)
    (hf : f.NoCycle) : f'.NoCycle := by
  cases step with
  | place x p live hreach hlive =>
    refine AllRooted.of_step hf fun z q hz => ?_
    obtain ⟨l, hz⟩ := up_eq_some.mp hz
    by_cases hzx : z = x
    · subst hzx
      rw [Function.update_self] at hz
      cases hz
      refine .inr fun y hy => hreach.rooted_up hy fun v q hv _ hq => ?_
      rw [Function.update_of_ne hv, hq]
    · rw [Function.update_of_ne hzx] at hz
      refine .inl ⟨up_eq_some.mpr ⟨l, hz⟩, fun y hy => ?_⟩
      subst hy
      have hup : f.up z = some (some y) := up_eq_some.mpr ⟨l, hz⟩
      obtain ⟨q, hq⟩ := ((hf z _ hup).parent hup).node
      obtain ⟨l', hq⟩ := up_eq_some.mp hq
      by_cases hyx : y = x
      · subst hyx
        exact ⟨p, up_eq_some.mpr ⟨live, Function.update_self ..⟩⟩
      · exact ⟨q, up_eq_some.mpr ⟨l', by rw [Function.update_of_ne hyx, hq]⟩⟩
  | bin x h r hnode hbin hreach =>
    refine AllRooted.of_step hf fun z q hz => ?_
    obtain ⟨l, hz⟩ := up_eq_some.mp hz
    unfold Forest.bin at hz
    split at hz
    · next hzx =>
      cases hz
      refine .inr fun y hy => ?_
      obtain ⟨hne, hb⟩ := hP x h hbin y hy
      obtain ⟨n, hn⟩ := hnode y hy
      exact bin_rooted hreach (hf y n.parent (up_eq_some.mpr ⟨n.live, hn⟩)) hne hb
    · next hzx =>
      obtain ⟨n, hn, hnq⟩ := Option.map_eq_some_iff.mp hz
      split at hnq
      · cases hnq
        refine .inr fun y hy => hreach.rooted_up hy fun v q hv hq hfv => ?_
        simp [Forest.bin, hv, hfv, hq]
      · subst hnq
        refine .inl ⟨up_eq_some.mpr ⟨l, hn⟩, fun y hy => ?_⟩
        subst hy
        have hup : f.up z = some (some y) := up_eq_some.mpr ⟨l, hn⟩
        obtain ⟨q, hq⟩ := ((hf z _ hup).parent hup).node
        obtain ⟨l', hq⟩ := up_eq_some.mp hq
        rw [up, Forest.bin]
        split
        · exact ⟨h, rfl⟩
        · simp [hq]
  | binAll binned _ =>
    have hsame : Forest.up (fun x => (f x).map fun n => { n with live := n.live && !binned x }) =
        f.up := by
      funext z
      simp [up, Function.comp_def]
    rw [NoCycle, hsame]
    exact hf
  | remove x =>
    refine AllRooted.of_step hf fun z q hz => ?_
    obtain ⟨l, hz⟩ := up_eq_some.mp hz
    unfold Forest.remove at hz
    split at hz
    · cases hz
    · obtain ⟨n, hn, hnq⟩ := Option.map_eq_some_iff.mp hz
      split at hnq
      · cases hnq
        exact .inr (by simp)
      · next hpar =>
        subst hnq
        refine .inl ⟨up_eq_some.mpr ⟨l, hn⟩, fun y hy => ?_⟩
        subst hy
        have hup : f.up z = some (some y) := up_eq_some.mpr ⟨l, hn⟩
        obtain ⟨q, hq⟩ := ((hf z _ hup).parent hup).node
        obtain ⟨l', hq⟩ := up_eq_some.mp hq
        have hyx : y ≠ x := by
          rintro rfl
          exact hpar rfl
        simp [up, Forest.remove, hyx, hq]

end Forest
