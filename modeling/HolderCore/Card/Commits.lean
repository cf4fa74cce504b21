import HolderCore.Card.Forest

/-! # What the journalled operations commit

Each of them commits a list of changes to different cards. A change rewrites a card's own file under
new placement columns, or brings back the file of an old commit. -/

namespace HolderCore

section
variable {env : Env K} {w w' : World K} {changes : List (CardChange K)}

/-- A change that rewrites a card: its row under a new place, time and `deleted_at`, the body and the
milestones of its file, and the links of the database. -/
def Rewrites (env : Env K) [NatCast K] (w : World K) (now : Int) (change : CardChange K) : Prop :=
  ∃ (row : Card K) (raw plain : Bytes) (parent : Option String) (key : K) (deletedAt : Option Int),
    w.db.cards[row.cardId]? = some row ∧ w.repo.work[row.filePath]? = some raw ∧
    decodeCardBlob env raw = .ok plain ∧ (deletedAt = none ∨ deletedAt = some now) ∧
    change.current.cardId = row.cardId ∧ change.current.deletedAt = row.deletedAt ∧
    change.target = { parseCardFile env.yaml plain with
      card := { row.placed parent key now with deletedAt }
      links := LinkRepo.listOutgoing w.db row.projectId row.cardId }

/-- A change that brings back the version of a card in a commit. -/
def BringsBack (env : Env K) [NatCast K] (w : World K) (oid : Nat) (now : Int)
    (change : CardChange K) : Prop :=
  ∃ (row : Card K) (raw plain : Bytes) (isTrash : Bool) (parent : Option String) (key : K),
    w.db.cards[row.cardId]? = some row ∧
    CardStore.historicalBlob w.repo oid row.cardId = .ok (raw, isTrash) ∧
    decodeCardBlob env raw = .ok plain ∧
    (parseCardFile env.yaml plain).hasFrontMatter = true ∧
    (parseCardFile env.yaml plain).card.cardId = row.cardId ∧
    change.current = row ∧
    change.target = { CardStore.historicalRecord row (parseCardFile env.yaml plain) isTrash now with
      card := { (CardStore.historicalRecord row (parseCardFile env.yaml plain) isTrash now).card with
        parentCardId := parent, sortKey := key } }

/-- Changes to different cards, each from the row it is about, committed as one. -/
structure Committed (env : Env K) (w : World K) (changes : List (CardChange K)) (w' : World K) :
    Prop where
  ids : CardChanges changes
  nodup : (changes.map (·.current.cardId)).Nodup
  mutation : ∃ message m, PlannedFor env w changes message m ∧ Applied m w w'
  journal : w'.journal = none

theorem Committed.checks (h : Committed env w changes w') {change : CardChange K}
    (hc : change ∈ changes) : 4 ≤ change.current.cardId.length ∧
      ∃ bytes, w.repo.work[change.current.filePath]? = some bytes := by
  obtain ⟨_, m, hplan, -⟩ := h.mutation
  obtain ⟨hlen, -, hbytes, -⟩ := hplan.checks change hc
  exact ⟨hlen, hbytes⟩

theorem Committed.unique (h : Committed env w changes w') {change change' : CardChange K}
    {path : String} (hc : change ∈ changes) (hc' : change' ∈ changes)
    (hp : CardPath change.current.cardId path) (hp' : CardPath change'.current.cardId path) :
    change = change' :=
  List.inj_on_of_nodup_map h.nodup hc hc' (hp.inj (h.checks hc).1 (h.checks hc').1 hp')

theorem Committed.cardPath (h : Committed env w changes w') {change : CardChange K}
    (hc : change ∈ changes) : CardPath change.current.cardId change.target.card.filePath := by
  rw [← h.ids change hc]
  exact change.target.card.cardPath

/-- The bytes a committed mutation intends. -/
structure Intends (env : Env K) (changes : List (CardChange K)) (m : Mutation K) : Prop where
  target : ∀ change ∈ changes, ∃ bytes, m.intended[change.target.card.filePath]? = some (some bytes) ∧
    Encoded env (changePlain env change.prepared.target) bytes
  source : ∀ change ∈ changes, change.current.filePath ≠ change.target.card.filePath →
    m.intended[change.current.filePath]? = some none
  other : ∀ path : String, (∀ change ∈ changes, path ≠ change.target.card.filePath ∧
    path ≠ change.current.filePath) → m.intended[path]? = none

theorem Committed.intends (h : Committed env w changes w') :
    ∃ m, Applied m w w' ∧ Intends env changes m ∧
      (changes.map (·.prepared.target)).forM (changeRows env) w.db = .ok () w'.db := by
  obtain ⟨message, m, hplan, happlied⟩ := h.mutation
  have hwrite : ∀ write ∈ m.writes, ∃ change ∈ changes, write.1 = change.target.card.filePath ∧
      Encoded env (changePlain env change.prepared.target) write.2 := by
    intro write hw
    obtain ⟨c, hprep, hr⟩ := hplan.writes.exists_left hw
    obtain ⟨change, hc, rfl⟩ := List.mem_map.mp hprep
    exact ⟨change, hc, hr.path, hr.bytes⟩
  have hnone : ∀ path : String, (∀ change ∈ changes, path ≠ change.target.card.filePath) →
      (m.writes.reverse.find? fun write => write.1 = path) = none := by
    intro path hpath
    rw [List.find?_eq_none]
    intro write hw
    obtain ⟨change, hc, he, -⟩ := hwrite write (List.mem_reverse.mp hw)
    simpa [he] using (hpath change hc).symm
  have hsources : ∀ path : String, path ∈ m.renames.map (·.1) ↔ ∃ change ∈ changes,
      change.current.filePath ≠ change.target.card.filePath ∧ path = change.current.filePath := by
    intro path
    simp only [List.mem_map, hplan.renames]
    constructor
    · rintro ⟨rename, ⟨change, hc, hne, rfl⟩, rfl⟩
      exact ⟨change, hc, hne, rfl⟩
    · rintro ⟨change, hc, hne, rfl⟩
      exact ⟨_, ⟨change, hc, hne, rfl⟩, rfl⟩
  refine ⟨m, happlied, ⟨fun change hc => ?_, fun change hc hne => ?_, fun path hpath => ?_⟩, ?_⟩
  · obtain ⟨write, hw, hr⟩ := hplan.writes.exists_right (List.mem_map.mpr ⟨change, hc, rfl⟩)
    rw [m.intended_eq]
    cases hf : m.writes.reverse.find? fun write => write.1 = change.target.card.filePath with
    | none =>
      rw [List.find?_eq_none] at hf
      exact absurd (decide_eq_true hr.path) (hf write (List.mem_reverse.mpr hw))
    | some found =>
      -- Whatever write is last at the path, it is this change's own.
      obtain ⟨change', hc', he, henc⟩ := hwrite found (List.mem_reverse.mp (List.mem_of_find?_eq_some hf))
      have hpath : found.1 = change.target.card.filePath := by simpa using List.find?_some hf
      have hsame : change = change' := h.unique hc hc' (h.cardPath hc) (by
        rw [← hpath, he]
        exact h.cardPath hc')
      exact ⟨found.2, rfl, by rw [hsame]; exact henc⟩
  · rw [m.intended_eq, hnone, if_pos ((hsources _).mpr ⟨change, hc, hne, rfl⟩)]
    · rfl
    · intro change' hc' he
      have hsame : change = change' := h.unique hc hc' change.current.cardPath
        (he ▸ h.cardPath hc')
      exact hne (hsame ▸ he)
  · rw [m.intended_eq, hnone _ fun change hc => (hpath change hc).1, if_neg]
    · rfl
    · rw [hsources]
      rintro ⟨change, hc, -, rfl⟩
      exact (hpath change hc).2 rfl
  · rw [happlied.db]
    exact hplan.rows

section
variable [SortKey K]

/-- A card that only makes room rewrites its file. -/
theorem CardStore.PlacementOf.rewrites {b : Card K} {parent : Option String} {key : K} {now : Int}
    {change : CardChange K} {projectId : String}
    (h : CardStore.PlacementOf env w (b.placed parent key now) change)
    (hb : LiveRow w.db projectId b) : Rewrites env w now change := by
  obtain ⟨raw, plain, hraw, hplain, rfl⟩ := h.change
  refine ⟨b, raw, plain, parent, key, none, hb.row, ?_, hplain, .inl rfl, rfl, rfl, ?_⟩
  · rw [Card.filePath_live hb.live]
    rw [h.relPath] at hraw
    exact hraw
  · simp only [Card.placed, hb.live]

theorem CardStore.TrashedOf.rewrites {c : Card K} {now : Int} {change : CardChange K}
    (h : CardStore.TrashedOf env w now c change) (hrow : w.db.cards[c.cardId]? = some c)
    (hlive : c.deletedAt = none) : Rewrites env w now change := by
  obtain ⟨placement, hp, rfl⟩ := h
  have hrel := hp.relPath
  obtain ⟨raw, plain, hraw, hplain, rfl⟩ := hp.change
  refine ⟨c, raw, plain, c.parentCardId, c.sortKey, some now, hrow, ?_, hplain, .inr rfl, rfl, rfl,
    rfl⟩
  rw [Card.filePath_live hlive, ← hrel]
  exact hraw

end

end

namespace CardStore
variable [SortKey K] {env : Env K} {w : World K}

/-- The outcome of one card's change with placements that make room for it. -/
theorem applyWithPlacements_commits (projectId : String) {current : Card K}
    {target : ParsedCardFile K} {placements : List (Card K)} {message : String} {now : Int}
    {C : CardChange K → Prop} (hw : Tidy env w) (hid : target.card.cardId = current.cardId)
    (hnodup : (current.cardId :: placements.map (·.cardId)).Nodup)
    (hplaced : ∀ c ∈ placements, ∃ b parent key, c = b.placed parent key now ∧
      LiveRow w.db projectId b)
    (hmain : C ⟨current, target⟩) (hrest : ∀ change, Rewrites env w now change → C change) :
    Ends (applyWithPlacements env current target placements message) w
      (fun _ w' => ∃ changes, Committed env w changes w' ∧ ∀ change ∈ changes, C change)
      fun _ w' => Restored w w' := by
  refine (applyWithPlacements_ends hw.valid hid).mono ?_ fun _ _ h => h
  rintro - w' ⟨changes, m, hchanges, hplan, happlied, hj⟩
  refine ⟨⟨current, target⟩ :: changes, ⟨fun change hc => ?_, ?_, ⟨message, m, hplan, happlied⟩, hj⟩,
    fun change hc => ?_⟩
  · rcases List.mem_cons.mp hc with rfl | hc
    · exact hid
    · obtain ⟨placed, -, hp⟩ := hchanges.exists_left hc
      rw [hp.card, hp.current]
  · rw [List.map_cons, PlacementOf.ids hchanges]
    exact hnodup
  · rcases List.mem_cons.mp hc with rfl | hc
    · exact hmain
    · obtain ⟨placed, hpl, hp⟩ := hchanges.exists_left hc
      obtain ⟨b, parent, key, rfl, hb⟩ := hplaced placed hpl
      exact hrest change (hp.rewrites hb)

theorem moveToLocked_commits (projectId cardId : String) (request : CardPlacementRequest)
    (updatedAt : Int) (hw : Tidy env w) :
    Ends (moveToLocked env projectId cardId request updatedAt) w
      (fun _ w' => w' = w ∨ ∃ changes, Committed env w changes w' ∧
        ∀ change ∈ changes, Rewrites env w updatedAt change)
      fun _ w' => Restored w w' := by
  have hself : Restored w w := .of_drew (.refl w)
  unfold moveToLocked
  refine (requireProject_ends hw.journal _).bind ?_ (by rintro - w1 rfl; exact hself)
  rintro - w1 ⟨rfl, hproj⟩
  simp only [Ends.bind_iff, Ends.get_iff, Ends.fromExcept_iff, CardRepo.get?]
  refine ⟨fun placement hplacement => ?_, fun _ _ => hself⟩
  split
  · next card hcard =>
    have hid := hw.keyed _ _ hcard
    simp only [Ends.bind_iff, Ends.fromExcept_iff, Ends.ite_iff, Ends.pure_iff]
    refine ⟨fun _ => .inl trivial, fun _ => ⟨fun _ hrel => ⟨fun _ _ => ?_, fun _ _ => hself⟩,
      fun _ _ => hself⟩⟩
    obtain ⟨-, hpath⟩ := checkRelPath_ok hrel
    -- The resolver only moves live cards.
    obtain ⟨c, hc, hlive⟩ := CardPlacementResolver.resolve_live hplacement
    rw [hcard] at hc
    cases hc
    obtain ⟨hsib, hnodup⟩ := CardPlacementResolver.resolve_ok hw.keyed hplacement
    refine (readCardFile_ends _ w1).mono ?_ (by rintro - w2 rfl; exact hself)
    rintro ⟨raw, parsed⟩ w2 ⟨rfl, hraw, plain, hplain, rfl⟩
    refine Ends.mono (applyWithPlacements_commits (C := Rewrites env w2 updatedAt) projectId hw ?_ ?_
      ?_ ?_ fun _ h => h) (fun _ _ h => .inr h) fun _ _ he => he
    · rfl
    · refine List.nodup_cons.mpr ⟨fun hmem => ?_, hnodup⟩
      obtain ⟨c, hc, he⟩ := List.mem_map.mp hmem
      obtain ⟨b, key, rfl, -, hne⟩ := hsib c hc
      exact hne (he.trans hid)
    · intro c hc
      obtain ⟨b, key, hb, hlive, -⟩ := hsib c hc
      exact ⟨b, _, key, hb, hlive⟩
    · refine ⟨card, raw, plain, placement.parentCardId, placement.sortKey, none, ?_, ?_, hplain,
        .inl rfl, rfl, rfl, ?_⟩
      · rw [hid]; exact hcard
      · rw [Card.filePath, hlive]
        simpa [hpath] using hraw
      · simp only [Card.placed, hlive, hid]
  · exact hself

theorem trashLocked_commits (projectId cardId : String) (deletedAt : Int) (mode : TrashChildren)
    (hw : Tidy env w) :
    Ends (trashLocked env projectId cardId deletedAt mode) w
      (fun _ w' => ∃ changes, Committed env w changes w' ∧
        ∀ change ∈ changes, Rewrites env w deletedAt change)
      fun _ w' => Restored w w' := by
  have hself : Restored w w := .of_drew (.refl w)
  unfold trashLocked
  refine (requireProject_ends hw.journal _).bind ?_ (by rintro - w1 rfl; exact hself)
  rintro - w1 ⟨rfl, hproj⟩
  refine (rereadCard_ends cardId w1).bind ?_ (by rintro - w2 rfl; exact hself)
  rintro card w2 ⟨rfl, hcard⟩
  have hid := hw.keyed _ _ hcard
  simp only [Ends.bind_iff, Ends.get_iff, Ends.fromExcept_iff, Ends.ite_iff, Ends.throw_iff]
  refine ⟨fun _ => hself, fun hlive => ⟨fun _ _ => ?_, fun _ _ => hself⟩⟩
  have hlive : card.deletedAt = none := by simpa using hlive
  refine (trashedChange_ends deletedAt card w2).mono ?_ (by rintro - w3 rfl; exact hself)
  rintro change w3 ⟨rfl, hchange⟩
  have hrow : w3.db.cards[card.cardId]? = some card := by rw [hid]; exact hcard
  cases mode with
  | promote =>
    simp only [Ends.bind_iff, Ends.fromExcept_iff]
    refine ⟨fun placements hprom => ?_, fun _ _ => hself⟩
    have htarget : change.target.card.cardId = card.cardId := by rw [hchange.card]
    have hmain : (⟨card, change.target⟩ : CardChange K) = change := by rw [← hchange.current]
    obtain ⟨r, -, hmem, -⟩ := promotedCardChildren_ok hw.keyed hprom
    refine applyWithPlacements_commits card.projectId hw htarget
      (promotedCardChildren_nodup hw.keyed hrow hprom) (fun c hc => ?_) ?_ fun _ h => h
    · obtain ⟨b, key, hb, hlive, -⟩ := hmem c hc
      exact ⟨b, r, key, hb, hlive⟩
    · rw [hmain]
      exact hchange.rewrites hrow hlive
  | trashSubtree =>
    obtain ⟨hrows, hnodup, -⟩ := liveDescendants_spec hw.keyed env.project.projectId hcard
    refine (Ends.mapM (I := (· = w3)) (R := TrashedOf env w3 deletedAt) (fun c _ s hs => ?_)
      rfl).bind ?_ (by rintro - w4 rfl; exact hself)
    · subst hs
      exact trashedChange_ends deletedAt c s
    · rintro changes w4 ⟨rfl, hchanges⟩
      have hall : List.Forall₂ (TrashedOf env w4 deletedAt)
          (card :: liveDescendants w4.db env.project.projectId cardId) (change :: changes) :=
        .cons hchange hchanges
      have hids : CardChanges (change :: changes) := by
        intro change hc
        obtain ⟨c, -, ht⟩ := hall.exists_left hc
        rw [ht.card, ht.current]
      refine (applyCardChanges_ends hids hw.valid).mono ?_ fun _ _ h => h
      rintro - w5 ⟨m, hplan, happlied, hj⟩
      refine ⟨_, ⟨hids, ?_, ⟨_, m, hplan, happlied⟩, hj⟩, fun c hc => ?_⟩
      · rw [TrashedOf.ids hall, List.map_cons, hid]
        exact hnodup
      · obtain ⟨b, hb, ht⟩ := hall.exists_left hc
        rcases List.mem_cons.mp hb with rfl | hb
        · exact ht.rewrites hrow hlive
        · exact ht.rewrites (hrows b hb).1 (hrows b hb).2

theorem restoreLocked_commits (projectId cardId : String) (updatedAt : Int) (hw : Tidy env w) :
    Ends (restoreLocked env projectId cardId updatedAt) w
      (fun _ w' => ∃ changes, Committed env w changes w' ∧
        ∀ change ∈ changes, Rewrites env w updatedAt change)
      fun _ w' => Restored w w' := by
  have hself : Restored w w := .of_drew (.refl w)
  unfold restoreLocked
  refine (requireProject_ends hw.journal _).bind ?_ (by rintro - w1 rfl; exact hself)
  rintro - w1 ⟨rfl, hproj⟩
  refine (rereadCard_ends cardId w1).bind ?_ (by rintro - w2 rfl; exact hself)
  rintro card w2 ⟨rfl, hcard⟩
  have hid := hw.keyed _ _ hcard
  simp only [Ends.bind_iff, Ends.get_iff, Ends.fromExcept_iff, Ends.ite_iff, Ends.throw_iff]
  refine ⟨fun _ => hself, fun hdel => ⟨fun live hlivePath => ⟨fun trash htrash => ⟨fun _ => hself,
    fun _ => ?_⟩, fun _ _ => hself⟩, fun _ _ => hself⟩⟩
  obtain ⟨-, rfl⟩ := cardTrashRelPath_ok_iff.mp htrash
  refine (readCardFile_ends _ w2).mono ?_ (by rintro - w3 rfl; exact hself)
  rintro ⟨raw, parsed⟩ w3 ⟨rfl, hraw, plain, hplain, rfl⟩
  refine ⟨?_, fun _ _ => hself⟩
  rintro ⟨restored, placements⟩ hplacement
  obtain ⟨parent, key, -, rfl, hsib, hnodup⟩ := restoredCardPlacement_ok hw.keyed hplacement
  refine applyWithPlacements_commits card.projectId hw rfl ?_ (fun c hc => ?_) ?_
    fun _ h => h
  · refine List.nodup_cons.mpr ⟨fun hmem => ?_, hnodup⟩
    obtain ⟨c, hc, he⟩ := List.mem_map.mp hmem
    obtain ⟨b, key, rfl, -, hne⟩ := hsib c hc
    exact hne he
  · obtain ⟨b, key, hb, hlive, -⟩ := hsib c hc
    exact ⟨b, _, key, hb, hlive⟩
  · refine ⟨card, raw, plain, parent, key, none, ?_, ?_, hplain, .inl rfl, rfl, rfl, ?_⟩
    · rw [hid]; exact hcard
    · have hsome : card.deletedAt.isSome = true := by
        cases h : card.deletedAt with
        | none => simp [h] at hdel
        | some _ => rfl
      rw [Card.filePath, if_pos hsome, hid]
      exact hraw
    · simp only [Card.placed, hid]

theorem restoreVersionLocked_commits (projectId cardId : String) (oid : Nat) (updatedAt : Int)
    (hw : Tidy env w) :
    Ends (restoreVersionLocked env projectId cardId oid updatedAt) w
      (fun _ w' => ∃ changes, Committed env w changes w' ∧
        ∀ change ∈ changes, Rewrites env w updatedAt change ∨
          change.current.cardId = cardId ∧ BringsBack env w oid updatedAt change)
      fun _ w' => Restored w w' := by
  have hself : Restored w w := .of_drew (.refl w)
  unfold restoreVersionLocked
  refine (requireProject_ends hw.journal _).bind ?_ (by rintro - w1 rfl; exact hself)
  rintro - w1 ⟨rfl, hproj⟩
  refine (rereadCard_ends cardId w1).bind ?_ (by rintro - w2 rfl; exact hself)
  rintro current w2 ⟨rfl, hcard⟩
  have hid := hw.keyed _ _ hcard
  have hrow : w2.db.cards[current.cardId]? = some current := by rw [hid]; exact hcard
  simp only [Ends.bind_iff, Ends.get_iff, Ends.fromExcept_iff, Ends.ite_iff, Ends.throw_iff]
  refine ⟨fun _ _ => ⟨fun _ _ => ⟨fun _ => hself, fun _ => ⟨?_, fun _ _ => hself⟩⟩,
    fun _ _ => hself⟩, fun _ _ => hself⟩
  rintro ⟨raw, isTrash⟩ hblob
  refine ⟨fun plain hplain => ⟨fun _ => hself, fun _ => ⟨fun _ => hself, fun hparsed =>
    ⟨?_, fun _ _ => hself⟩⟩⟩, fun _ _ => hself⟩
  rintro ⟨restored, placements⟩ hplacement
  simp only [not_or, Bool.not_eq_true', Bool.not_eq_false, not_not, ne_eq] at hparsed
  have hback : ∀ parent key, BringsBack env w2 oid updatedAt ⟨current, {
      historicalRecord current (parseCardFile env.yaml plain) isTrash updatedAt with
      card := { (historicalRecord current (parseCardFile env.yaml plain) isTrash updatedAt).card with
        parentCardId := parent, sortKey := key } }⟩ := fun parent key =>
    ⟨current, raw, plain, isTrash, parent, key, hrow, by rw [hid]; exact hblob, hplain, hparsed.1,
      by rw [hid]; exact hparsed.2.1, rfl, rfl⟩
  cases isTrash with
  | true =>
    simp only [historicalPlacement, if_true, Except.map] at hplacement
    split at hplacement
    · cases hplacement
    · next changed hprom =>
      cases hplacement
      obtain ⟨r, -, hmem, -⟩ := promotedCardChildren_ok hw.keyed hprom
      refine applyWithPlacements_commits current.projectId hw rfl
        (promotedCardChildren_nodup hw.keyed hrow hprom) (fun c hc => ?_) (.inr ⟨hid, ?_⟩) fun _ h => .inl h
      · obtain ⟨b, key, hb, hlive, -⟩ := hmem c hc
        exact ⟨b, r, key, hb, hlive⟩
      · exact hback _ _
  | false =>
    simp only [historicalPlacement, Bool.false_eq_true, if_false] at hplacement
    obtain ⟨parent, key, -, rfl, hsib, hnodup⟩ := restoredCardPlacement_ok hw.keyed hplacement
    refine applyWithPlacements_commits current.projectId hw rfl ?_ (fun c hc => ?_)
      (.inr ⟨hid, hback _ _⟩) fun _ h => .inl h
    · refine List.nodup_cons.mpr ⟨fun hmem => ?_, hnodup⟩
      obtain ⟨c, hc, he⟩ := List.mem_map.mp hmem
      obtain ⟨b, key, rfl, -, hne⟩ := hsib c hc
      exact hne he
    · obtain ⟨b, key, hb, hlive, -⟩ := hsib c hc
      exact ⟨b, _, key, hb, hlive⟩

end CardStore

end HolderCore
