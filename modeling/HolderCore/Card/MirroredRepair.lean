import HolderCore.Card.MirroredEdits
import HolderCore.Card.RepairPlaces

/-! # A repair of the hierarchy and the files

A repair that returns leaves every live card reachable and the parent pointers of all cards without a
cycle. Whether it returns or throws, the files mirror the rows as they did before. -/

namespace HolderCore

section
variable [SortKey K] {env : Env K} {w : World K} {now : Int}

omit [SortKey K] in
theorem liveUp_le_up {db : Db K} {projectId id : String} {p : Option String}
    (h : liveUp db projectId id = some p) : db.forest.up id = some p := by
  obtain ⟨c, hc, -, -, rfl⟩ := liveUp_eq_some.mp h
  rw [Db.forest_up, cardUp, hc]
  rfl

/-- What a repair that returns leaves of a forest without a cycle. -/
theorem planned_rooted (hw : Tidy env w) (hcycle : w.db.forest.NoCycle) {db' : Db K}
    {plan : HierarchyRepairPlan K}
    (hplan : planHierarchyRepair w.db env.project.projectId now = .ok plan)
    (hrows : RowsPlaced plan.placements w.db db') :
    db'.forest.NoCycle ∧ AllRooted (liveUp db' env.project.projectId) := by
  have hk := hw.keyed
  obtain ⟨changed, h⟩ := planHierarchyRepair_planned hk hplan
  have hold : ∀ {id : String} {c : Card K}, w.db.cards[id]? = some c →
      w.db.forest.up id = some c.parentCardId := by
    intro id c hc
    rw [Db.forest_up, cardUp, hc]
    rfl
  have hnew : ∀ {id : String} {p : Option String}, db'.forest.up id = some p →
      ∃ c', db'.cards[id]? = some c' ∧ c'.parentCardId = p := by
    intro id p hp
    rw [Db.forest_up] at hp
    exact Option.map_eq_some_iff.mp hp
  constructor
  · refine AllRooted.of_step hcycle fun id p hp => ?_
    obtain ⟨c', hc', rfl⟩ := hnew hp
    obtain ⟨c, hc⟩ := h.row_before hrows hc'
    obtain ⟨c1, hc1, -, -, -, -, hcase⟩ := h.row hk hrows hc
    rw [hc', Option.some.injEq] at hc1
    subst hc1
    rcases hcase with ⟨head, hhead, -, hdest⟩ | ⟨-, hkeep⟩
    · right
      intro y hy
      rw [hdest] at hy
      exact (h.rooted hk hrows (planHeads_destination hk hhead hy)).weaken fun _ _ => liveUp_le_up
    · left
      rw [hkeep]
      refine ⟨hold hc, fun y hy => ?_⟩
      have hup := hold hc
      rw [hy] at hup
      obtain ⟨q, hq⟩ := ((hcycle _ _ hup).parent hup).node
      rw [Db.forest_up] at hq
      obtain ⟨b, hb, -⟩ := Option.map_eq_some_iff.mp hq
      obtain ⟨b', hb', -⟩ := h.row hk hrows hb
      refine ⟨b'.parentCardId, ?_⟩
      rw [Db.forest_up, cardUp, hb']
      rfl
  · intro id p hp
    obtain ⟨c', hc', hproj', hdel', -⟩ := liveUp_eq_some.mp hp
    obtain ⟨c, hc⟩ := h.row_before hrows hc'
    obtain ⟨c1, hc1, -, hproj, hdel, -⟩ := h.row hk hrows hc
    rw [hc', Option.some.injEq] at hc1
    subst hc1
    obtain rfl := hk _ _ hc
    have hlive : LiveRow w.db env.project.projectId c := ⟨hc, hproj ▸ hproj', hdel ▸ hdel'⟩
    obtain ⟨destination, hreach⟩ := (reachableCardParent_ok_iff hc).mpr fun x _ => by
      rw [hlive.project, foundUp_findCard hw.project, ← Db.forest_up]
      exact hcycle.not_cycle x
    exact h.rooted_of_ok hk hrows hlive hreach

omit [SortKey K] in
/-- A card that is placed has its file at its live path, so its row is live. -/
theorem Mirrored.placed_live (h : Mirrored env w) {b : Card K} (hb : w.db.cards[b.cardId]? = some b)
    {raw : Bytes} (hraw : w.repo.work[livePath b.cardId]? = some raw) : b.deletedAt = none := by
  obtain ⟨-, links, milestones, body, hr⟩ := h.at hb
  cases hdel : b.deletedAt with
  | none => rfl
  | some at_ =>
    have honly : w.repo.work[cardPathOf (!b.deletedAt.isSome) b.cardId]? = none := hr.filed.only
    rw [hdel] at honly
    change w.repo.work[livePath b.cardId]? = none at honly
    rw [hraw] at honly
    cases honly

end

namespace CardStore
variable [SortKey K] {env : Env K} {w : World K}

theorem repairHierarchyLocked_mirrored (henv : env.Lawful) (hw : Tidy env w) (h : Mirrored env w)
    (projectId : String) (updatedAt : Int) :
    Ends (repairHierarchyLocked env projectId updatedAt) w (fun _ w' => Mirrored env w')
      fun _ w' => Restored w w' := by
  have hself : Restored w w := .of_drew (.refl w)
  unfold repairHierarchyLocked
  refine (requireProject_ends hw.journal _).bind ?_ (by rintro - w1 rfl; exact hself)
  rintro - w1 ⟨rfl, hproj⟩
  simp only [Ends.bind_iff, Ends.get_iff, Ends.fromExcept_iff, Ends.ite_iff, Ends.pure_iff]
  refine ⟨fun plan hplan => ⟨fun _ => h, fun _ => ?_⟩, fun _ _ => hself⟩
  obtain ⟨hnodup, hrows⟩ := planHierarchyRepair_all
    (P := fun c => ∃ (b : Card K) (parent : Option String) (key : K) (now : Int),
      c = b.placed parent key now ∧ w1.db.cards[b.cardId]? = some b)
    (by
      rintro _ parent key now ⟨b, _, _, _, hc, hb⟩
      exact ⟨b, parent, key, now, by rw [hc]; rfl, hb⟩)
    (fun c hc => ⟨c, _, _, _, rfl, (mem_rows_iff hw.keyed).mp hc⟩) hplan
  refine (mapM_placementChange_ends _ w1).mono ?_ (by rintro - w2 rfl; exact hself)
  rintro changes w2 ⟨rfl, hchanges⟩
  have hids : CardChanges changes := by
    intro change hc
    obtain ⟨placed, -, hp⟩ := hchanges.exists_left hc
    rw [hp.card, hp.current]
  refine (applyCardChanges_ends hids hw.valid).mono ?_ fun _ _ h => h
  rintro - w3 ⟨m, hplanned, happlied, hj⟩
  have hcommitted : Committed env w2 changes w3 :=
    ⟨hids, by rw [PlacementOf.ids hchanges]; exact hnodup, ⟨_, m, hplanned, happlied⟩, hj⟩
  refine hcommitted.mirrored h fun change hc => ?_
  obtain ⟨placed, hmem, hp⟩ := hchanges.exists_left hc
  obtain ⟨b, parent, key, now, rfl, hb⟩ := hrows placed hmem
  obtain ⟨raw, plain, hraw, -, -⟩ := hp.change
  rw [hp.relPath] at hraw
  have hlive : LiveRow w2.db b.projectId b := ⟨hb, rfl, h.placed_live hb hraw⟩
  exact (hp.rewrites hlive).faithful henv h

/-- A repair that returns leaves no hidden card and no cycle. -/
theorem repairHierarchyLocked_rooted (hw : Tidy env w) (hcycle : w.db.forest.NoCycle) (updatedAt : Int) :
    Ends (repairHierarchyLocked env env.project.projectId updatedAt) w
      (fun _ w' => Tidy env w' ∧ w'.db.forest.NoCycle ∧
        AllRooted (liveUp w'.db env.project.projectId)) fun _ _ => True := by
  refine (repairHierarchyLocked_rows _ _ hw).mono ?_ fun _ _ h => h
  rintro - w' ⟨htidy, plan, hplan, hrows⟩
  exact ⟨htidy, planned_rooted hw hcycle hplan hrows⟩

end CardStore

end HolderCore
