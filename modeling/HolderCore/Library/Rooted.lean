import HolderCore.Library.Map

/-! # Parent pointers

A partial parent map `up : α → Option (Option α)` gives each node of a forest its parent pointer:
`up x = none` when `x` is not a node, `up x = some none` when `x` is a root and
`up x = some (some y)` when `y` is the parent of `x`. A node is *rooted* when following the
pointers from it stays inside the forest and ends at a root. The re-parenting rule
`Rooted.of_step` is the one used for every change to a forest: it asks of each node of the new
forest that it kept its pointer, or that its new parent is rooted already. -/

/-- Following the parent pointers from a node stays among the nodes and ends at a root. -/
inductive Rooted {α : Type} (up : α → Option (Option α)) : α → Prop
  | root : up x = some none → Rooted up x
  | step : up x = some (some y) → Rooted up y → Rooted up x

/-- Every node of a forest is rooted. -/
def AllRooted {α : Type} (up : α → Option (Option α)) : Prop := ∀ x p, up x = some p → Rooted up x

/-- The forest without some nodes. -/
def avoiding {α : Type} [DecidableEq α] (up : α → Option (Option α)) (nodes : List α) :
    α → Option (Option α) := fun x => if x ∈ nodes then none else up x

theorem avoiding_eq_some {α : Type} [DecidableEq α] {up : α → Option (Option α)} {nodes : List α}
    {x : α} {p : Option α} : avoiding up nodes x = some p ↔ x ∉ nodes ∧ up x = some p := by
  unfold avoiding
  split <;> simp_all

/-- `y` is the parent of `x`. -/
def ParentStep {α : Type} (up : α → Option (Option α)) (x y : α) : Prop := up x = some (some y)

namespace Rooted

variable {α : Type} {up up' : α → Option (Option α)}

theorem parent (h : Rooted up x) (hx : up x = some (some y)) : Rooted up y := by
  cases h with
  | root h => rw [h] at hx; cases hx
  | step h hy => rw [h] at hx; cases hx; exact hy

/-- A rooted node stays rooted where every rooted node keeps its pointer. -/
theorem weaken_rooted (h : Rooted up x) (le : ∀ y p, Rooted up y → up y = some p → up' y = some p) :
    Rooted up' x := by
  induction h with
  | root h => exact .root (le _ _ (.root h) h)
  | step h hy ih => exact .step (le _ _ (.step h hy) h) ih

/-- A rooted node stays rooted in a larger forest. -/
theorem weaken (h : Rooted up x) (le : ∀ y p, up y = some p → up' y = some p) : Rooted up' x :=
  h.weaken_rooted fun y p _ => le y p

/-- A rooted node stays rooted when no node on its way to the root changes. -/
theorem mono (h : Rooted up x)
    (keep : ∀ y, Relation.ReflTransGen (ParentStep up) x y → up' y = up y) : Rooted up' x := by
  induction h with
  | root h => exact .root ((keep _ .refl).trans h)
  | step h _ ih =>
    refine .step ((keep _ .refl).trans h) (ih fun z hz => keep z ?_)
    exact Relation.ReflTransGen.head h hz

/-- A rooted node is not its own ancestor. -/
theorem not_cycle (h : Rooted up x) : ¬ Relation.TransGen (ParentStep up) x x := by
  induction h with
  | root h =>
    intro hc
    obtain ⟨y, hy, _⟩ := Relation.TransGen.head'_iff.mp hc
    rw [ParentStep, h] at hy
    cases hy
  | step h _ ih =>
    intro hc
    obtain ⟨z, hz, hzx⟩ := Relation.TransGen.head'_iff.mp hc
    rw [ParentStep, h] at hz
    cases hz
    exact ih (Relation.TransGen.tail' hzx h)

theorem node (h : Rooted up x) : ∃ p, up x = some p := by
  cases h with
  | root h => exact ⟨_, h⟩
  | step h _ => exact ⟨_, h⟩

/-- Nodes below a rooted one are other nodes, and fewer than the forest has. -/
theorem visited_lt (hq : Rooted up q) {keys visited : List α}
    (hkeys : ∀ x p, up x = some p → x ∈ keys)
    (hbelow : ∀ v ∈ visited, Relation.TransGen (ParentStep up) v q) (hnodup : visited.Nodup) :
    q ∉ visited ∧ visited.length < keys.length := by
  have hfresh : q ∉ visited := fun hmem => hq.not_cycle (hbelow q hmem)
  refine ⟨hfresh, ?_⟩
  have hsub : (q :: visited).Subperm keys := by
    refine (List.nodup_cons.mpr ⟨hfresh, hnodup⟩).subperm fun x hx => ?_
    rcases List.mem_cons.mp hx with rfl | hx
    · obtain ⟨p, hp⟩ := hq.node
      exact hkeys _ p hp
    · obtain ⟨y, hy, -⟩ := Relation.TransGen.head'_iff.mp (hbelow x hx)
      exact hkeys x _ hy
  simpa using hsub.length_le

end Rooted

namespace AllRooted

variable {α : Type} {up up' : α → Option (Option α)}

/-- The re-parenting rule. Each node of the new forest either keeps its pointer, with its parent
still a node, or has a parent that is rooted in the new forest. -/
theorem of_step (h : AllRooted up)
    (step : ∀ x p, up' x = some p →
      (up x = some p ∧ ∀ y, p = some y → ∃ q, up' y = some q) ∨
        ∀ y, p = some y → Rooted up' y) : AllRooted up' := by
  have hgo : ∀ x, Rooted up x → ∀ p, up' x = some p → Rooted up' x := by
    intro x hx
    induction hx with
    | root hroot =>
      intro p hp
      rcases step _ _ hp with ⟨hkeep, _⟩ | hnew
      · rw [hroot] at hkeep
        cases hkeep
        exact .root hp
      · cases p with
        | none => exact .root hp
        | some y => exact .step hp (hnew y rfl)
    | step hpar _ ih =>
      intro p hp
      rcases step _ _ hp with ⟨hkeep, hstay⟩ | hnew
      · rw [hpar] at hkeep
        cases hkeep
        obtain ⟨q, hq⟩ := hstay _ rfl
        exact .step hp (ih q hq)
      · cases p with
        | none => exact .root hp
        | some y => exact .step hp (hnew y rfl)
  intro x p hp
  rcases step x p hp with ⟨hkeep, _⟩ | hnew
  · exact hgo x (h x p hkeep) p hp
  · cases p with
    | none => exact .root hp
    | some y => exact .step hp (hnew y rfl)

theorem not_cycle (h : AllRooted up) (x : α) : ¬ Relation.TransGen (ParentStep up) x x := by
  intro hc
  obtain ⟨y, hy, _⟩ := Relation.TransGen.head'_iff.mp hc
  exact (h x _ hy).not_cycle hc

end AllRooted

/-! ## Chains that run into a cycle -/

/-- Following the parent pointers from a node leads onto a cycle. -/
def Doomed {α : Type} (up : α → Option (Option α)) (x : α) : Prop :=
  ∃ y, Relation.ReflTransGen (ParentStep up) x y ∧ Relation.TransGen (ParentStep up) y y

namespace Doomed
variable {α : Type} {up up' : α → Option (Option α)} {x y : α}

/-- A node has one parent, so what is above a doomed node is doomed. -/
theorem parent (h : Doomed up x) (hstep : ParentStep up x y) : Doomed up y := by
  have hsame : ∀ z, ParentStep up x z → z = y := by
    intro z hz
    rw [ParentStep, show up x = some (some y) from hstep] at hz
    exact (Option.some.inj (Option.some.inj hz)).symm
  obtain ⟨z, hz, hcycle⟩ := h
  rcases Relation.ReflTransGen.cases_head hz with rfl | ⟨v, hv, hvz⟩
  · obtain ⟨v, hv, hvx⟩ := Relation.TransGen.head'_iff.mp hcycle
    obtain rfl := hsame v hv
    exact ⟨v, .refl, .tail' hvx hstep⟩
  · obtain rfl := hsame v hv
    exact ⟨z, hvz, hcycle⟩

theorem above (h : Doomed up x) (hy : Relation.ReflTransGen (ParentStep up) x y) : Doomed up y := by
  induction hy with
  | refl => exact h
  | tail _ hstep ih => exact ih.parent hstep

/-- A doomed node stays doomed where the doomed nodes keep their pointers. -/
theorem mono (h : Doomed up x) (keep : ∀ z, Doomed up z → up' z = up z) : Doomed up' x := by
  have hpath : ∀ z v, Doomed up z → Relation.ReflTransGen (ParentStep up) z v →
      Relation.ReflTransGen (ParentStep up') z v := by
    intro z v hz hv
    induction hv with
    | refl => exact .refl
    | @tail b c hb hstep ih =>
      exact ih.tail (show up' b = _ from (keep b (hz.above hb)).trans hstep)
  obtain ⟨y, hy, hcycle⟩ := h
  have hdoomed : Doomed up y := ⟨y, .refl, hcycle⟩
  obtain ⟨v, hv, hvy⟩ := Relation.TransGen.head'_iff.mp hcycle
  refine ⟨y, hpath x y ⟨y, hy, hcycle⟩ hy, .head' ?_ (hpath v y (hdoomed.parent hv) hvy)⟩
  exact show up' y = _ from (keep y hdoomed).trans hv

end Doomed
