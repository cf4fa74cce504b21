import HolderCore.Card.IndexedCalls
import HolderCore.Card.MirroredRepair
import HolderCore.Card.Runs
import HolderCore.Identity.Uuid

/-! # Calls and the files

A call that returns keeps the files a mirror of the rows, when what it is given can be read back
from a file. -/

namespace HolderCore

/-- An item of a batch that a rebuild can read back. -/
structure BatchCardInput.Fits (item : BatchCardInput) : Prop where
  title : item.title ≠ ""
  created : 0 < item.createdAt
  updated : 0 < item.updatedAt
  kinds : ∀ link ∈ item.links, link.kind ≠ ""

namespace CardStore
variable [SortKey K] {env : Env K} {w w0 : World K} {r : CardRecord K}

/-! ## Batches -/

omit [SortKey K] in
/-- Indexing a card changes `cards_fts` only. -/
theorem ftsUpsertCard_tables (cardId projectId title body : String) (w : World K) :
    Ends (ftsUpsertCard env cardId projectId title body) w
      (fun _ w' => w'.db = { w.db with cardsFts := w'.db.cardsFts } ∧ w'.repo = w.repo ∧
        w'.journal = w.journal) fun _ _ => False := by
  unfold ftsUpsertCard
  rw [Ends.ite_iff, Ends.onDb_iff]
  exact ⟨fun _ => ⟨rfl, rfl, rfl⟩, fun _ => ⟨rfl, rfl, rfl⟩⟩

omit [SortKey K] in
theorem batchLinks_fits {remap : Map String String} {card : Card K} {item : BatchCardInput}
    (hids : ∀ id id' : String, remap[id]? = some id' → id' ≠ "") (hitem : item.Fits)
    (hupdated : card.updatedAt = item.updatedAt) :
    ∀ link ∈ batchLinks remap card item, link.Fits card := by
  intro link hlink
  obtain ⟨old, hold, hmap⟩ := List.mem_filterMap.mp hlink
  split at hmap
  · cases hmap
  · next htype =>
    obtain ⟨toCardId, hto, rfl⟩ := Option.map_eq_some_iff.mp hmap
    have hcreated : 0 < if old.createdAt ≤ 0 then card.updatedAt else old.createdAt := by
      have := hitem.updated
      split <;> omega
    refine ⟨rfl, rfl, hids _ _ hto, ?_, hitem.kinds old hold, fun hc => absurd hcreated (not_lt.mpr hc)⟩
    rw [ne_eq, not_not] at htype
    simp [htype]

omit [SortKey K] in
theorem batchMilestones_fits {uuidV4 : Nat → String} (huuid : ∀ i, uuidV4 i ≠ "") {drawn : Nat}
    {card : Card K} {item : BatchCardInput} (hitem : item.Fits)
    (hupdated : card.updatedAt = item.updatedAt) :
    ∀ m ∈ batchMilestones uuidV4 drawn card item, m.Fits card := by
  intro m hm
  obtain ⟨i, hi, rfl⟩ := List.mem_mapIdx.mp hm
  have hpos := hitem.updated
  have htime : ∀ t : Int, 0 < if t ≤ 0 then card.updatedAt else t := by
    intro t
    split <;> omega
  exact ⟨rfl, rfl, huuid _, fun hc => absurd (htime _) (not_lt.mpr hc),
    fun hc => absurd (htime _) (not_lt.mpr hc)⟩

theorem createBatchItem_mirrored (h : Mirrored env w) {projectId : String}
    (hproj : projectId = env.project.projectId) {remap : Map String String}
    (hids : ∀ id id' : String, remap[id]? = some id' → isValidUuid id' = true) {uuidV4 : Nat → String}
    (huuid : ∀ i, uuidV4 i ≠ "") (drawn : Nat) {item : BatchCardInput} (hitem : item.Fits) :
    Ends (createBatchItem env projectId remap uuidV4 drawn item) w (fun _ w' => Mirrored env w')
      fun _ _ => True := by
  unfold createBatchItem
  simp only [Ends.bind_iff, Ends.fromExcept_iff, Ends.get_iff, implies_true, and_true]
  intro relPath hrel
  obtain ⟨hlen, rfl⟩ := cardRelPath_ok_iff.mp hrel
  have hvalid := hids _ _ (remap_some hlen)
  generalize remap[item.cardId]?.getD "" = cardId at hvalid ⊢
  generalize CardRepo.nextSortKey w.db projectId none = key
  set card : Card K := batchCard projectId cardId key item with hcard
  have hne : ∀ id id' : String, remap[id]? = some id' → id' ≠ "" := by
    rintro id id' hid rfl
    exact absurd (hids _ _ hid) (by decide)
  have hlinks : ∀ link ∈ batchLinks remap card item, link.Fits card := batchLinks_fits hne hitem rfl
  have hms : ∀ m ∈ batchMilestones uuidV4 drawn card item, m.Fits card :=
    batchMilestones_fits huuid hitem rfl
  generalize batchLinks remap card item = links at hlinks ⊢
  generalize batchMilestones uuidV4 drawn card item = milestones at hms ⊢
  refine (writeCardFile_ends _ _ _ _).mono ?_ fun _ _ _ => trivial
  rintro - w1 ⟨-, bytes, ivs, henc, rfl⟩
  simp only [Ends.onDb_iff]
  refine (CardRepo.create_ends card w.db).mono ?_ fun _ _ _ => trivial
  rintro - db1 ⟨hrow, -, -, rfl⟩
  have hnone := h.noCard card.cardId hrow
  refine (ftsUpsertCard_tables _ _ _ _ _).mono ?_ fun _ _ _ => trivial
  rintro - w2 ⟨hdb2, hrepo2, -⟩
  refine (TagRepo.setTagsForCard_ends _ _ _ _ _ (fun key t ht => ?_) ⟨card, ?_⟩).mono ?_
    fun _ _ _ => trivial
  · rw [hdb2] at ht
    exact (h.tagKeys key t ht).1
  · rw [hdb2]
    exact (Map.get_insert ..).trans (if_pos rfl)
  rintro - db3 ⟨hnodup, hdb3, hrows⟩
  have htags : TagsSet env w.db card.cardId (env.extractTags item.content) db3.cardTags := by
    rw [hdb2] at hrows
    subst hproj
    exact .of_rows h.tagKeys hrows
  have hcreated : EditedTo env w.db ⟨card, item.content, [], []⟩ db3 := by
    refine .created hnone h.linksKeyed rfl ?_ ?_ ?_ htags
    · rw [hdb3, hdb2]
    · rw [hdb3, hdb2]
    · rw [hdb3, hdb2]
  refine (EditedTo.upsertLinks (r := ⟨card, item.content, [], []⟩) hcreated links).mono ?_
    fun _ _ _ => trivial
  rintro - db4 h4
  have hkept : (⟨card, item.content, links, []⟩ : CardRecord K).Kept env :=
    ⟨hvalid, hproj, rfl, hitem.title, hitem.created, hlinks, by simp, fun _ => hnodup, by simp⟩
  have hwork : Rewritten env ⟨card, item.content, links, milestones⟩ w.repo.work w2.repo.work := by
    rw [hrepo2]
    exact ⟨bytes, _, rfl, henc, ⟨_, _, rfl⟩⟩
  have htrash := h.noFile hvalid hrow true
  simp only [Ends.ite_iff, Ends.pure_iff, Ends.onDb_iff]
  refine ⟨fun hempty => ?_, fun _ => ?_⟩
  · obtain rfl := List.isEmpty_iff.mp hempty
    exact h.write h4 hkept rfl hwork htrash
  · refine (h4.replaceMilestones hkept rfl milestones).mono ?_ fun _ _ _ => trivial
    rintro - db5 ⟨hnodup5, h5⟩
    exact h.write h5 (hkept.rescheduled hms hnodup5) rfl hwork htrash

theorem createBatchItems_mirrored (h : Mirrored env w) {projectId : String}
    (hproj : projectId = env.project.projectId) {remap : Map String String}
    (hids : ∀ id id' : String, remap[id]? = some id' → isValidUuid id' = true) {uuidV4 : Nat → String}
    (huuid : ∀ i, uuidV4 i ≠ "") (drawn : Nat) {items : List BatchCardInput}
    (hitems : ∀ item ∈ items, item.Fits) :
    Ends (createBatchItems env projectId remap uuidV4 drawn items) w (fun _ w' => Mirrored env w')
      fun _ _ => True := by
  induction items generalizing w drawn with
  | nil => exact h
  | cons item items ih =>
    refine (createBatchItem_mirrored h hproj hids huuid drawn
      (hitems item List.mem_cons_self)).bind ?_ fun _ _ _ => trivial
    rintro path w1 h1
    refine (ih h1 _ fun i hi => hitems i (List.mem_cons_of_mem _ hi)).bind ?_ fun _ _ _ => trivial
    exact fun _ _ h2 => h2

/-- The ids of a batch are those drawn for it. -/
theorem idRemap_some {generateId : Nat → String} {items : List BatchCardInput} {id id' : String}
    (h : (idRemap generateId items)[id]? = some id') : ∃ i, id' = generateId i := by
  have hfold : ∀ (l : List (BatchCardInput × Nat)) (m : Map String String),
      (∀ id id' : String, m[id]? = some id' → ∃ i, id' = generateId i) → ∀ id id' : String,
      (l.foldl (fun m x => m.insert x.1.cardId (generateId x.2)) m)[id]? = some id' →
      ∃ i, id' = generateId i := by
    intro l
    induction l with
    | nil => exact fun m hm => hm
    | cons x l ih =>
      refine fun m hm => ih _ fun id id' hid => ?_
      rw [Map.get_insert] at hid
      split at hid
      · exact ⟨x.2, (Option.some.inj hid).symm⟩
      · exact hm id id' hid
  exact hfold _ _ (by simp) id id' h

theorem createBatchLocked_mirrored (hj : w.journal = none) (h : Mirrored env w) (projectId : String)
    {items : List BatchCardInput} {generateId uuidV4 : Nat → String}
    (hids : ∀ i, isValidUuid (generateId i) = true) (huuid : ∀ i, uuidV4 i ≠ "")
    (hitems : ∀ item ∈ items, item.Fits) (message : String) :
    Ends (createBatchLocked env projectId items generateId uuidV4 message) w
      (fun _ w' => Mirrored env w') fun _ _ => True := by
  unfold createBatchLocked
  refine (requireProject_ends hj _).bind ?_ fun _ _ _ => trivial
  rintro - w1 ⟨rfl, hproj⟩
  have htx : Ends (inTx (createBatchItems env projectId (idRemap generateId items) uuidV4 0 items)) w1
      (fun _ w' => Mirrored env w') fun _ _ => True := by
    have hdrawn : ∀ id id' : String, (idRemap generateId items)[id]? = some id' →
        isValidUuid id' = true := by
      intro id id' hid
      obtain ⟨i, rfl⟩ := idRemap_some hid
      exact hids i
    have hrun := createBatchItems_mirrored h hproj hdrawn huuid 0 hitems
    unfold Ends inTx at *
    cases hok : createBatchItems env projectId (idRemap generateId items) uuidV4 0 items w1 with
    | ok staged w' =>
      rw [hok] at hrun
      exact hrun
    | error e w' => trivial
  refine htx.bind (fun staged w2 h2 => ?_) fun _ _ _ => trivial
  simp only [Ends.bind_iff, Ends.onRepo_iff, assertStaged, Ends.get_iff, Ends.fromExcept_iff,
    Ends.ite_iff, Ends.pure_iff, implies_true, and_true]
  intro repo hrepo _ _
  have h3 : Mirrored env { w2 with repo } := h2.congr (Repo.stagePaths_ok hrepo).1 rfl
  exact ⟨fun _ => commit_mirrored h3 _, fun _ => h3⟩

end CardStore

/-! ## Any call -/

/-- What the call writes can be read back from a file: a created card has a UUID and a title, times
are positive, only live cards are edited and tagged, and a card is deleted only when nothing refers
to it. -/
def Call.ReadsBack [NatCast K] (env : Env K) (w : World K) : Call K → Prop
  | create card _ _ => Creating card
  | createBatch _ items generateId uuidV4 _ => (∀ i, isValidUuid (generateId i) = true) ∧
    (∀ i, uuidV4 i ≠ "") ∧ ∀ item ∈ items, item.Fits
  | updateContent cardId _ title _ => title ≠ some "" ∧
    ∀ c, w.db.cards[cardId]? = some c → c.deletedAt = none
  | updateMilestone _ _ _ _ updatedAt => 0 < updatedAt
  | restoreVersion cardId (some oid) updatedAt => 0 < updatedAt ∧ Restorable env w oid cardId
  | hardDelete cardId => Unreferenced w.db cardId
  | addTag cardId _ _ => ∀ c, w.db.cards[cardId]? = some c → c.deletedAt = none
  | removeTag cardId _ _ => ∀ c, w.db.cards[cardId]? = some c → c.deletedAt = none
  | _ => True

/-- The ids that `generate_id` and `uuid_v4` make meet the condition on a batch. -/
theorem Call.createBatch_readsBack [NatCast K] {env : Env K} {w : World K} {scheme : IdScheme}
    {times : Nat → Int} {random : Nat → UuidBytes} {ids : Nat → String}
    (hids : ∀ i, generateId scheme (times i) (random i) = .ok (ids i)) {items : List BatchCardInput}
    (hitems : ∀ item ∈ items, item.Fits) (projectId message : String) (drawn : Nat → UuidBytes) :
    (Call.createBatch projectId items ids (fun i => uuidV4 (drawn i)) message).ReadsBack env w := by
  refine ⟨fun i => generateId_valid (hids i), fun i hempty => ?_, hitems⟩
  have hvalid : isValidUuid (uuidV4 (drawn i)) = true := uuidV4_valid (drawn i)
  change uuidV4 (drawn i) = "" at hempty
  rw [hempty] at hvalid
  exact absurd hvalid (by decide)

section
open CardStore
variable [SortKey K] {env : Env K} {w : World K}

omit [SortKey K] in
/-- The milestones of `update_milestone`, one of them changed. -/
theorem updateMilestoneRead_fits {r : CardRecord K} (h : EditedTo env w.db r w.db) (hr : r.Kept env)
    {milestoneId : String} {update : MilestoneUpdate} {updatedAt : Int} (hpos : 0 < updatedAt)
    {milestones : List Milestone} {updated : Milestone}
    (hread : updateMilestoneRead w.db r.card.projectId r.card.cardId milestoneId update updatedAt =
      .ok (r.card, milestones, updated)) : ∀ m ∈ milestones, m.Fits r.card := by
  obtain ⟨-, -, -, old, hfind, rfl, rfl⟩ := updateMilestoneRead_ok hread
  have hfits := h.listForCard_fits hr
  intro m hm
  obtain ⟨m0, hm0, rfl⟩ := List.mem_map.mp hm
  split
  · obtain ⟨hproj, hcard, hid, hcreated, -⟩ := hfits old (List.mem_of_find?_eq_some hfind)
    exact ⟨hproj, hcard, hid, hcreated, fun hc => absurd hpos (not_lt.mpr hc)⟩
  · exact hfits m0 hm0

omit [SortKey K] in
private theorem withCard_mirrored (cardId : String) {rest : Card K → StoreM K Unit}
    (h : ∀ card, w.db.cards[cardId]? = some card →
      Ends (rest card) w (fun _ w' => Mirrored env w') fun _ _ => True) :
    Ends (withCard w.db cardId rest).run w (fun _ w' => Mirrored env w') fun _ _ => True := by
  unfold withCard
  simp only [CardRepo.get?]
  cases hc : w.db.cards[cardId]? with
  | none => trivial
  | some card => exact (h card hc).bind (fun _ _ h => h) fun _ _ h => h

theorem hardDelete_mirrored (hj : w.journal = none) (h : Mirrored env w) {cardId : String}
    (hfree : Unreferenced w.db cardId) :
    Ends ((Call.hardDelete cardId).run env) w (fun _ w' => Mirrored env w') fun _ _ => True := by
  cases hc : w.db.cards[cardId]? with
  | none =>
    simp [Call.run, Call.enter, hardDeleteEntry, CardRepo.get?, hc, Entry.run, Ends.bind_iff]
  | some card =>
    obtain ⟨rfl, links, milestones, body, hr⟩ := h.at hc
    cases hdel : card.deletedAt with
    | none =>
      simp [Call.run, Call.enter, hardDeleteEntry, CardRepo.get?, hc, hdel, Entry.run, Ends.bind_iff]
    | some at_ =>
      have htrashed : card.deletedAt.isSome := by rw [hdel]; rfl
      obtain ⟨w', hrun, hdeleted⟩ := hardDelete_run hj hc rfl hr.kept.length
        hr.kept.project htrashed
      unfold Ends
      rw [hrun]
      exact hdeleted.mirrored h hc htrashed hfree

theorem Call.run_mirrored (henv : env.Lawful) (call : Call K) (hw : Tidy env w)
    (h : Mirrored env w) (hcall : call.ReadsBack env w) :
    Ends (call.run env) w (fun _ w' => Mirrored env w') fun _ _ => True := by
  have hj := hw.journal
  have hcommitted : ∀ {w' : World K} {changes : List (CardChange K)} {now : Int},
      Committed env w changes w' → (∀ change ∈ changes, Rewrites env w now change) →
      Mirrored env w' := fun hc hall => hc.mirrored h fun change hch => (hall change hch).faithful henv h
  unfold Call.run
  simp only [Ends.bind_iff, Ends.get_iff]
  cases call with
  | create card content key =>
    exact (createLocked_mirrored hj h hcall content key).bind (fun _ _ h => h) fun _ _ h => h
  | createBatch projectId items generateId uuidV4 message =>
    obtain ⟨hids, huuid, hitems⟩ := hcall
    exact (createBatchLocked_mirrored hj h projectId hids huuid hitems message).bind
      (fun _ _ h => h) fun _ _ h => h
  | updateContent cardId content title updatedAt =>
    refine withCard_mirrored cardId fun card hc => ?_
    obtain ⟨rfl, links, milestones, body, hr⟩ := h.at hc
    exact updateContentLocked_mirrored henv hj h hr (hcall.2 card hc) content hcall.1 updatedAt
  | move cardId hasParent parent key updatedAt =>
    exact withCard_mirrored cardId fun card _ => moveLocked_mirrored henv hj h _ _ _ _ _ _
  | moveTo projectId cardId request updatedAt =>
    simp only [Call.enter, moveToEntry]
    split
    · trivial
    · split
      · trivial
      · refine (moveToLocked_commits projectId cardId request updatedAt hw).mono ?_
          fun _ _ _ => trivial
        rintro - w' (rfl | ⟨changes, hc, hall⟩)
        · exact h
        · exact hcommitted hc hall
  | updateLinks cardId updatedAt =>
    refine withCard_mirrored cardId fun card hc => ?_
    obtain ⟨rfl, links, milestones, body, hr⟩ := h.at hc
    exact updateLinksLocked_mirrored henv hj h rfl hr ((h.edited hr).listedLinks hr.kept)
      ((h.edited hr).listOutgoing_fits hr.kept) updatedAt
  | updateMilestones cardId updatedAt =>
    refine withCard_mirrored cardId fun card hc => ?_
    obtain ⟨rfl, links, milestones, body, hr⟩ := h.at hc
    exact updateMilestonesLocked_mirrored henv hj h rfl hr ((h.edited hr).listed hr.kept)
      (fun _ => hr.kept.rescheduled ((h.edited hr).listForCard_fits hr.kept)
        ((h.edited hr).listForCard_ids h _ _)) updatedAt
  | updateMilestone projectId cardId milestoneId update updatedAt =>
    simp only [Call.enter, updateMilestoneEntry]
    cases hread : updateMilestoneRead w.db projectId cardId milestoneId update updatedAt with
    | error result =>
      cases result with
      | ok _ => exact h
      | error _ => trivial
    | ok read =>
      obtain ⟨card, milestones, updated⟩ := read
      obtain ⟨hget, rfl, -, -⟩ := updateMilestoneRead_ok hread
      obtain ⟨rfl, links, old, body, hr⟩ := h.at hget
      exact (updateMilestoneLocked_mirrored henv hj h hr
        (updateMilestoneRead_fits (h.edited hr) hr.kept hcall hread) updatedAt).bind (fun _ _ h => h)
        fun _ _ h => h
  | trash cardId deletedAt children =>
    refine withCard_mirrored cardId fun card _ => ?_
    refine (trashLocked_commits card.projectId cardId deletedAt children hw).mono ?_
      fun _ _ _ => trivial
    rintro - w' ⟨changes, hc, hall⟩
    exact hcommitted hc hall
  | restore cardId updatedAt =>
    refine withCard_mirrored cardId fun card _ => ?_
    refine (restoreLocked_commits card.projectId cardId updatedAt hw).mono ?_ fun _ _ _ => trivial
    rintro - w' ⟨changes, hc, hall⟩
    exact hcommitted hc hall
  | restoreVersion cardId oid updatedAt =>
    cases oid with
    | none => trivial
    | some oid =>
      refine withCard_mirrored cardId fun card _ => ?_
      refine (restoreVersionLocked_commits card.projectId cardId oid updatedAt hw).mono ?_
        fun _ _ _ => trivial
      rintro - w' ⟨changes, hc, hall⟩
      refine hc.mirrored h fun change hch => ?_
      rcases hall change hch with hrewrites | hback
      · exact hrewrites.faithful henv h
      · exact hback.2.faithful h hcall.1 (hback.1 ▸ hcall.2)
  | repairHierarchy projectId updatedAt =>
    exact (repairHierarchyLocked_mirrored henv hw h projectId updatedAt).mono (fun _ _ h => h)
      fun _ _ _ => trivial
  | hardDelete cardId =>
    exact hardDelete_mirrored hj h hcall
  | addTag cardId tag updatedAt =>
    simp only [Call.enter, addTagEntry, CardRepo.get?]
    split
    · exact h
    · cases hc : w.db.cards[cardId]? with
      | none => trivial
      | some card =>
        obtain ⟨rfl, -⟩ := h.at hc
        exact (addTagLocked_mirrored henv hj h hcall _ _).bind (fun _ _ h => h) fun _ _ h => h
  | removeTag cardId tag updatedAt =>
    simp only [Call.enter, removeTagEntry, CardRepo.get?]
    split
    · exact h
    · cases hc : w.db.cards[cardId]? with
      | none => trivial
      | some card =>
        obtain ⟨rfl, -⟩ := h.at hc
        exact (removeTagLocked_mirrored henv hj h hcall _ _).bind (fun _ _ h => h) fun _ _ h => h

end

end HolderCore
