import HolderCore.Card.RowEdits

/-! # The database stays what a rebuild gives

In every state that edits of a project lead to, a rebuild of the working tree succeeds and gives the
rows of the database, the times of the last edit apart. -/

namespace HolderCore

/-- What a client does to the cards of a project: a call of the store, or a row of a card that is
stored before the card's file is written. -/
inductive Edit (K : Type) where
  | call (c : Call K)
  | linkAdd (fromCardId toCardId kind label : String) (createdAt updatedAt : Int)
  | linkRemove (fromCardId toCardId kind : String) (updatedAt : Int)
  | milestoneAdd (cardId : String) (startAt : Int) (endAt : Option Int) (allDay : Bool)
      (kind description milestoneId : String) (createdAt updatedAt : Int)
  | milestoneRemove (cardId milestoneId : String) (updatedAt : Int)

namespace Edit
variable [SortKey K] (env : Env K)

def run : Edit K → CapiM K Unit
  | call c => do let _ ← Capi.guarded (c.run env)
  | linkAdd fromCardId toCardId kind label createdAt updatedAt => do
    let _ ← Capi.cardLinkAdd env fromCardId toCardId kind label createdAt updatedAt
  | linkRemove fromCardId toCardId kind updatedAt =>
    Capi.cardLinkRemove env fromCardId toCardId kind updatedAt
  | milestoneAdd cardId startAt endAt allDay kind description milestoneId createdAt updatedAt => do
    let _ ← Capi.cardMilestoneAdd env cardId startAt endAt allDay kind description milestoneId
      createdAt updatedAt
  | milestoneRemove cardId milestoneId updatedAt =>
    Capi.cardMilestoneRemove env cardId milestoneId updatedAt

/-- The clock is positive, ids that are drawn are no empty texts, and a call writes what can be read
back and brings back no version under an unsafe parent. -/
def Clean (w : World K) : Edit K → Prop
  | call c => c.ReadsBack env w ∧ c.BringsBackSafely env w
  | linkAdd _ _ _ _ createdAt _ => 0 < createdAt
  | milestoneAdd _ _ _ _ _ _ milestoneId createdAt _ => milestoneId ≠ "" ∧ 0 < createdAt
  | _ => True

end Edit

section
variable [SortKey K] (env : Env K)

/-- The state after a run of edits that all return. -/
def runEdits : World K → List (Edit K) → Option (World K)
  | w, [] => some w
  | w, edit :: edits =>
    match edit.run env w with
    | .ok _ w' => runEdits w' edits
    | .error _ _ => none

/-- Every edit of a run is clean in the state it is made in. -/
def EachEdit : World K → List (Edit K) → Prop
  | _, [] => True
  | w, edit :: edits => edit.Clean env w ∧ ∀ w', edit.run env w = .ok () w' → EachEdit w' edits

end

section
open CardStore
variable [SortKey K] {env : Env K} {w : World K}

/-- A project at rest whose files mirror its rows, without cycles. -/
structure Steady (env : Env K) (w : World K) : Prop where
  tidy : Tidy env w
  noCycle : w.db.forest.NoCycle
  mirrored : Mirrored env w

omit [SortKey K] in
theorem Steady.empty (env : Env K) : Steady env (World.empty : World K) :=
  ⟨.empty env, fun x p hx => by simp [World.empty, Db.empty, Db.forest, Forest.up] at hx,
    .empty env⟩

/-- No call that returns leaves a cycle where there was none, unless it brings one back. -/
theorem Call.run_acyclic (call : Call K) (hw : Tidy env w) (hcycle : w.db.forest.NoCycle)
    (hsafe : call.BringsBackSafely env w) :
    Ends (call.run env) w (fun _ w' => Tidy env w' ∧ w'.db.forest.NoCycle) fun _ _ => True := by
  by_cases hrepair : ∃ projectId updatedAt, call = .repairHierarchy projectId updatedAt
  · obtain ⟨projectId, updatedAt, rfl⟩ := hrepair
    simp only [Call.run, Call.enter, Entry.run, Ends.bind_iff, Ends.get_iff]
    by_cases hproj : projectId = env.project.projectId
    · subst hproj
      exact (repairHierarchyLocked_rooted hw hcycle updatedAt).mono (fun _ _ h => ⟨h.1, h.2.1⟩)
        fun _ _ h => h
    · unfold repairHierarchyLocked
      refine (requireProject_ends hw.journal projectId).bind ?_ fun _ _ _ => trivial
      rintro - w1 ⟨-, he⟩
      exact absurd he hproj
  · have hrec : call.Recorded env (fun f x h => f.Returnable x h) w := by
      unfold Call.BringsBackSafely Call.Recorded at hsafe
      unfold Call.Recorded
      split
      · exact fun raw plain hblob hplain => safeParent_returnable (hsafe raw plain hblob hplain)
      · trivial
    refine (call.run_evolved_of hw (fun p t he => absurd ⟨p, t, he⟩ hrepair)
      (fun _ _ => hcycle.returnable) hrec).mono ?_ fun _ _ _ => trivial
    exact fun _ w' hev => ⟨hev.tidy, hev.noCycle hcycle⟩

/-- A call that keeps the files a mirror, on rows that differ in no card. -/
theorem Call.run_steady (call : Call K) (hw : Steady env w) {db : Db K}
    (hcards : db.cards = w.db.cards) (hsafe : call.BringsBackSafely env { w with db })
    (hmirrored : Ends (call.run env) { w with db } (fun _ w' => Mirrored env w') fun _ _ => True) :
    Ends (call.run env) { w with db } (fun _ w' => Steady env w') fun _ _ => True := by
  obtain ⟨htidy, hcycle, -⟩ := hw
  rw [← Db.forest_congr hcards] at hcycle
  have htidy' : Tidy env { w with db } := htidy.of_atCards ⟨hcards, htidy.journal, htidy.valid⟩
  refine ((call.run_acyclic htidy' hcycle hsafe).and hmirrored).mono ?_ fun _ _ _ => trivial
  rintro - w' ⟨⟨htidy, hcycle⟩, hmir⟩
  exact ⟨htidy, hcycle, hmir⟩

/-! ## Links -/

omit [SortKey K] in
/-- The rows of a link that is stored once more. -/
theorem get_insert_link {rows : Map (List String) CardLink}
    (hkeyed : ∀ (key : List String) (l : CardLink), rows[key]? = some l → key = l.key)
    {link : CardLink} {key : List String} {l : CardLink} (hne : l.fromCardId ≠ link.fromCardId) :
    (rows.insert link.key link)[key]? = some l ↔ rows[key]? = some l := by
  rw [Map.get_insert]
  split
  · next hkey =>
    constructor
    · rintro hl
      rw [Option.some.inj hl] at hne
      exact absurd rfl hne
    · intro hrow
      have hk := hkeyed key l hrow
      rw [← hkey] at hk
      simp only [CardLink.key, List.cons.injEq, and_true] at hk
      exact absurd hk.2.1.symm hne
  · rfl

omit [SortKey K] in
theorem Mirrored.ownLink (h : Mirrored env w) {card : Card K} {id : String}
    (hc : w.db.cards[id]? = some card) {key : List String} {l : CardLink}
    (hl : w.db.cardLinks[key]? = some l) (hfrom : l.fromCardId = card.cardId) : l.Fits card := by
  obtain ⟨-, links, milestones, body, hr⟩ := h.at hc
  exact hr.kept.links l (linkRows_fits hr.kept.links ((hr.slice.linkRow hfrom).mp hl)).2

/-- The link rows of a card changed, and its file written. -/
theorem updateLinks_steady (henv : env.Lawful) (hw : Steady env w) {card : Card K}
    (hc : w.db.cards[card.cardId]? = some card) {rows : Map (List String) CardLink}
    (hother : ∀ (key : List String) (l : CardLink), l.fromCardId ≠ card.cardId →
      (rows[key]? = some l ↔ w.db.cardLinks[key]? = some l))
    (hown : ∀ (key : List String) (l : CardLink), rows[key]? = some l → l.fromCardId = card.cardId →
      l.Fits card)
    (hkeyed : ∀ (key : List String) (l : CardLink), rows[key]? = some l → key = l.key)
    (updatedAt : Int) :
    Ends ((Call.updateLinks card.cardId updatedAt).run env)
      { w with db := { w.db with cardLinks := rows } } (fun _ w' => Steady env w')
      fun _ _ => True := by
  have hcards : ({ w.db with cardLinks := rows } : Db K).cards = w.db.cards := rfl
  exact Call.run_steady (.updateLinks card.cardId updatedAt) hw hcards trivial
    (updateLinks_mirrored henv hw.tidy.journal hw.mirrored hc hother hown hkeyed updatedAt)

theorem Capi.cardLinkAdd_steady (henv : env.Lawful) (hw : Steady env w)
    (fromCardId toCardId kind label : String) {createdAt : Int} (hpos : 0 < createdAt)
    (updatedAt : Int) :
    Ends (cardLinkAdd env fromCardId toCardId kind label createdAt updatedAt) w
      (fun _ w' => Steady env w') fun _ _ => True := by
  unfold cardLinkAdd
  simp only [Ends.bind_iff, Ends.fromExcept_iff, implies_true, and_true]
  intro _ _ _ hto _ hkind
  rw [guarded_iff]
  refine (rereadCard_ends fromCardId w).bind ?_ fun _ _ _ => trivial
  rintro card w1 ⟨rfl, hc⟩
  refine (rereadCard_ends toCardId w1).bind ?_ fun _ _ _ => trivial
  rintro - w2 ⟨rfl, -⟩
  obtain ⟨rfl, -⟩ := hw.mirrored.at hc
  set link : CardLink :=
    ⟨card.projectId, card.cardId, toCardId, "card", kind, optionalText label, createdAt⟩ with hlink
  have hfits : link.Fits card :=
    ⟨rfl, rfl, notEmpty_ok hto, by simp [hlink], notEmpty_ok hkind, fun hle => absurd hpos (not_lt.mpr hle)⟩
  have hkeyed := hw.mirrored.linksKeyed
  simp only [Ends.bind_iff, Ends.onDb_iff]
  refine (LinkRepo.upsertLinks_ends _ _ _ _).mono ?_ fun _ _ _ => trivial
  rintro - db ⟨rfl, -⟩
  change Ends ((Call.updateLinks card.cardId updatedAt).run env) { w2 with
    db := { w2.db with cardLinks := w2.db.cardLinks.insert link.key link } } _ _
  refine Ends.mono (updateLinks_steady henv hw hc (fun key l hne => get_insert_link hkeyed hne)
    (fun key l hl hfrom => ?_) (fun key l hl => ?_) updatedAt) (fun _ _ h => h) fun _ _ _ => trivial
  · rw [Map.get_insert] at hl
    split at hl
    · exact Option.some.inj hl ▸ hfits
    · exact hw.mirrored.ownLink hc hl hfrom
  · rw [Map.get_insert] at hl
    split at hl
    · next hkey => rw [← Option.some.inj hl, hkey]
    · exact hkeyed key l hl

theorem Capi.cardLinkRemove_steady (henv : env.Lawful) (hw : Steady env w)
    (fromCardId toCardId kind : String) (updatedAt : Int) :
    Ends (cardLinkRemove env fromCardId toCardId kind updatedAt) w
      (fun _ w' => Steady env w') fun _ _ => True := by
  unfold cardLinkRemove
  simp only [Ends.bind_iff, Ends.fromExcept_iff, implies_true, and_true]
  intro _ _ _ _ _ _
  rw [guarded_iff]
  refine (rereadCard_ends fromCardId w).bind ?_ fun _ _ _ => trivial
  rintro card w1 ⟨rfl, hc⟩
  obtain ⟨rfl, -⟩ := hw.mirrored.at hc
  simp only [Ends.bind_iff, Ends.onDb_iff, LinkRepo.deleteLink, Ends.modify_iff]
  refine Ends.mono (updateLinks_steady henv hw hc (fun key l hne => ?_) (fun key l hl hfrom => ?_)
    (fun key l hl => ?_) updatedAt) (fun _ _ h => h) fun _ _ _ => trivial
  · rw [Map.get_filter, Option.filter_eq_some_iff]
    simp [hne]
  · rw [Map.get_filter, Option.filter_eq_some_iff] at hl
    exact hw.mirrored.ownLink hc hl.1 hfrom
  · rw [Map.get_filter, Option.filter_eq_some_iff] at hl
    exact hw.mirrored.linksKeyed key l hl.1

/-! ## Milestones -/

omit [SortKey K] in
theorem Mirrored.ownMilestones (h : Mirrored env w) {card : Card K} {id : String}
    (hc : w.db.cards[id]? = some card) :
    ∀ m ∈ MilestoneRepo.listForCard w.db card.projectId card.cardId, m.Fits card := by
  obtain ⟨-, links, milestones, body, hr⟩ := h.at hc
  exact (h.edited hr).listForCard_fits hr.kept

/-- The milestones of a card replaced by ones that belong to it, and its file written. -/
theorem replaceMilestones_steady (henv : env.Lawful) (hw : Steady env w) {card : Card K}
    (hc : w.db.cards[card.cardId]? = some card) {milestones : List Milestone}
    (hfits : ∀ m ∈ milestones, m.Fits card) (updatedAt : Int) :
    Ends (onDb (MilestoneRepo.replaceForCard card.projectId card.cardId milestones)) w
      (fun _ w1 => Ends ((Call.updateMilestones card.cardId updatedAt).run env) w1
        (fun _ w' => Steady env w') fun _ _ => True) fun _ _ => True := by
  rw [Ends.onDb_iff]
  refine (replaceMilestones_mirrored henv hw.tidy.journal hw.mirrored hc hfits
    updatedAt).mono ?_ fun _ _ _ => trivial
  rintro - db ⟨hcards, hmirrored⟩
  exact Call.run_steady (.updateMilestones card.cardId updatedAt) hw hcards trivial hmirrored

theorem Capi.cardMilestoneAdd_steady (henv : env.Lawful) (hw : Steady env w) (cardId : String)
    (startAt : Int) (endAt : Option Int) (allDay : Bool) (kind description : String)
    {milestoneId : String} (hid : milestoneId ≠ "") {createdAt : Int} (hpos : 0 < createdAt)
    (updatedAt : Int) :
    Ends (cardMilestoneAdd env cardId startAt endAt allDay kind description milestoneId createdAt
      updatedAt) w (fun _ w' => Steady env w') fun _ _ => True := by
  unfold cardMilestoneAdd
  simp only [Ends.bind_iff, Ends.fromExcept_iff, implies_true, and_true]
  intro _ _
  rw [guarded_iff]
  refine (rereadCard_ends cardId w).bind ?_ fun _ _ _ => trivial
  rintro card w1 ⟨rfl, hc⟩
  obtain ⟨rfl, -⟩ := hw.mirrored.at hc
  simp only [Ends.bind_iff, Ends.get_iff, Ends.pure_iff]
  refine (replaceMilestones_steady henv hw hc (fun m hm => ?_) updatedAt).mono (fun _ _ h => h)
    fun _ _ _ => trivial
  rcases List.mem_append.mp hm with hm | hm
  · exact hw.mirrored.ownMilestones hc m hm
  · rw [List.mem_singleton] at hm
    subst hm
    have hnot : ¬ createdAt ≤ 0 := not_le.mpr hpos
    exact ⟨rfl, rfl, hid, fun hle => absurd hle hnot, fun hle => absurd hle hnot⟩

theorem Capi.cardMilestoneRemove_steady (henv : env.Lawful) (hw : Steady env w)
    (cardId milestoneId : String) (updatedAt : Int) :
    Ends (cardMilestoneRemove env cardId milestoneId updatedAt) w
      (fun _ w' => Steady env w') fun _ _ => True := by
  unfold cardMilestoneRemove
  simp only [Ends.bind_iff, Ends.fromExcept_iff, implies_true, and_true]
  intro _ _ _ _
  rw [guarded_iff]
  refine (rereadCard_ends cardId w).bind ?_ fun _ _ _ => trivial
  rintro card w1 ⟨rfl, hc⟩
  obtain ⟨rfl, -⟩ := hw.mirrored.at hc
  simp only [Ends.bind_iff, Ends.get_iff, Ends.ite_iff, Ends.pure_iff]
  refine ⟨fun _ => hw, fun _ => ?_⟩
  exact (replaceMilestones_steady henv hw hc
    (fun m hm => hw.mirrored.ownMilestones hc m (List.mem_of_mem_filter hm)) updatedAt).mono
    (fun _ _ h => h) fun _ _ _ => trivial

/-! ## Runs -/

theorem Edit.run_steady (henv : env.Lawful) (hw : Steady env w) {edit : Edit K}
    (hclean : edit.Clean env w) :
    Ends (edit.run env) w (fun _ w' => Steady env w') fun _ _ => True := by
  cases edit with
  | call c =>
    simp only [Edit.run, Ends.bind_iff, Capi.guarded_iff, Ends.pure_iff]
    exact c.run_steady hw rfl hclean.2 (c.run_mirrored henv hw.tidy hw.mirrored hclean.1)
  | linkAdd fromCardId toCardId kind label createdAt updatedAt =>
    exact (Capi.cardLinkAdd_steady henv hw _ _ _ _ hclean _).bind (fun _ _ h => h) fun _ _ h => h
  | linkRemove fromCardId toCardId kind updatedAt =>
    exact Capi.cardLinkRemove_steady henv hw _ _ _ _
  | milestoneAdd cardId startAt endAt allDay kind description milestoneId createdAt updatedAt =>
    exact (Capi.cardMilestoneAdd_steady henv hw _ _ _ _ _ _ hclean.1 hclean.2 _).bind
      (fun _ _ h => h) fun _ _ h => h
  | milestoneRemove cardId milestoneId updatedAt =>
    exact Capi.cardMilestoneRemove_steady henv hw _ _ _

theorem runEdits_steady (henv : env.Lawful) {edits : List (Edit K)} {w' : World K}
    (hw : Steady env w) (hclean : EachEdit env w edits) (hrun : runEdits env w edits = some w') :
    Steady env w' := by
  induction edits generalizing w with
  | nil =>
    cases hrun
    exact hw
  | cons edit edits ih =>
    have hstep := Edit.run_steady henv hw hclean.1
    unfold runEdits at hrun
    cases hone : edit.run env w with
    | error e w1 =>
      rw [hone] at hrun
      cases hrun
    | ok u w1 =>
      rw [hone] at hrun
      exact ih (hstep.ok hone) (hclean.2 w1 hone) hrun

/-- A run of edits that all return, from an empty project: wherever it stops, a rebuild of the
working tree succeeds and gives the rows that the database has. -/
theorem runEdits_inSync (henv : env.Lawful) (edits : List (Edit K)) {w : World K}
    (hclean : EachEdit env World.empty edits) (hrun : runEdits env World.empty edits = some w) :
    InSync env w := by
  have hw := runEdits_steady henv (.empty env) hclean hrun
  exact hw.mirrored.inSync henv hw.noCycle

end

/-- Two cards, a link and a milestone between them, a move, and a way through the trash. -/
def mirroredEdits : List (Edit ℚ) :=
  let a := "aaaaaaaa-aaaa-4aaa-8aaa-aaaaaaaaaaaa"
  let b := "bbbbbbbb-bbbb-4bbb-8bbb-bbbbbbbbbbbb"
  [.call (.create (plainCard a "a" none 1) "x" none), .call (.create (plainCard b "b" (some a) 2) "" none),
    .linkAdd b a "relates" "see" 3 3, .milestoneAdd b 4 none true "due" "" "m" 4 4,
    .call (.move b true none none 5), .call (.trash a 6 .promote), .call (.restore a 7),
    .linkRemove b a "relates" 8]

theorem mirroredEdits_clean : EachEdit (plainEnv fun _ => []) World.empty mirroredEdits := by
  refine ⟨⟨⟨by decide, by decide, by decide, rfl⟩, trivial⟩, fun _ _ =>
    ⟨⟨⟨by decide, by decide, by decide, rfl⟩, trivial⟩, fun _ _ =>
    ⟨(by decide : (0 : Int) < 3), fun _ _ => ⟨⟨by decide, by decide⟩, fun _ _ => ⟨⟨trivial, trivial⟩, fun _ _ =>
    ⟨⟨trivial, trivial⟩, fun _ _ => ⟨⟨trivial, trivial⟩, fun _ _ => ⟨trivial, fun _ _ =>
    trivial⟩⟩⟩⟩⟩⟩⟩⟩

theorem mirroredEdits_inSync : ∃ w, runEdits (plainEnv fun _ => []) World.empty mirroredEdits = some w ∧
    InSync (plainEnv fun _ => []) w := by
  obtain ⟨w, hrun⟩ := Option.isSome_iff_exists.mp (by decide +kernel :
    (runEdits (plainEnv fun _ => []) World.empty mirroredEdits).isSome = true)
  exact ⟨w, hrun, runEdits_inSync (plainEnv_lawful _) _ mirroredEdits_clean hrun⟩

end HolderCore
