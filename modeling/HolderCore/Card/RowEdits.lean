import HolderCore.Card.MirroredCalls

/-! # Links and milestones of the C interface

`holder_card_link_add`, `holder_card_link_remove`, `holder_card_milestone_add` and
`holder_card_milestone_remove` (`capi/holder.cpp`) store the rows themselves and have the store write
the card's file from them. A null text is the empty text here, and the JSON that is printed of the
rows is left out. -/

namespace HolderCore

/-- The error codes, but for the one of a failed allocation. -/
inductive ErrorCode where
  | invalidArgument | runtime
deriving DecidableEq, Repr

structure HolderError where
  code : ErrorCode
  message : String
deriving DecidableEq, Repr

abbrev CapiM (K : Type) := EStateM HolderError (World K)

namespace Capi

/-- What is thrown becomes an error of the run, by `set_exception`. -/
def guarded (m : StoreM K α) : CapiM K α := fun w =>
  match m w with
  | .ok a w' => .ok a w'
  | .error e w' => .error ⟨.runtime, e.what⟩ w'

def notEmpty (name value : String) : Except HolderError Unit :=
  if value.isEmpty then .error ⟨.invalidArgument, name ++ " must not be empty"⟩ else .ok ()

def optionalText (text : String) : Option String := if text.isEmpty then none else some text

section
open CardStore
variable [SortKey K] (env : Env K)

def cardLinkAdd (fromCardId toCardId kind label : String) (createdAt updatedAt : Int) :
    CapiM K (List CardLink) := do
  fromExcept (notEmpty "from_card_id" fromCardId)
  fromExcept (notEmpty "to_card_id" toCardId)
  fromExcept (notEmpty "kind" kind)
  guarded do
    let fromCard ← rereadCard fromCardId
    let _ ← rereadCard toCardId
    onDb (LinkRepo.upsertLinks fromCard.projectId fromCardId [{
      projectId := fromCard.projectId
      fromCardId
      toCardId
      toType := "card"
      kind
      label := optionalText label
      createdAt }])
    let _ ← (Call.updateLinks fromCardId updatedAt).run env
    return LinkRepo.listOutgoing (← get).db fromCard.projectId fromCardId

def cardLinkRemove (fromCardId toCardId kind : String) (updatedAt : Int) : CapiM K Unit := do
  fromExcept (notEmpty "from_card_id" fromCardId)
  fromExcept (notEmpty "to_card_id" toCardId)
  fromExcept (notEmpty "kind" kind)
  guarded do
    let fromCard ← rereadCard fromCardId
    onDb (LinkRepo.deleteLink fromCard.projectId fromCardId toCardId (some "card") (some kind))
    let _ ← (Call.updateLinks fromCardId updatedAt).run env

/-- `milestoneId` is the one `uuid_v4` gives. -/
def cardMilestoneAdd (cardId : String) (startAt : Int) (endAt : Option Int) (allDay : Bool)
    (kind description milestoneId : String) (createdAt updatedAt : Int) :
    CapiM K (List Milestone) := do
  fromExcept (notEmpty "card_id" cardId)
  guarded do
    let card ← rereadCard cardId
    let milestones := MilestoneRepo.listForCard (← get).db card.projectId cardId
    let milestone : Milestone := {
      milestoneId
      projectId := card.projectId
      cardId
      startAt
      endAt
      allDay
      kind := optionalText kind
      description := optionalText description
      createdAt
      updatedAt := createdAt }
    onDb (MilestoneRepo.replaceForCard card.projectId cardId (milestones ++ [milestone]))
    let _ ← (Call.updateMilestones cardId updatedAt).run env
    return MilestoneRepo.listForCard (← get).db card.projectId cardId

def cardMilestoneRemove (cardId milestoneId : String) (updatedAt : Int) : CapiM K Unit := do
  fromExcept (notEmpty "card_id" cardId)
  fromExcept (notEmpty "milestone_id" milestoneId)
  guarded do
    let card ← rereadCard cardId
    let milestones := MilestoneRepo.listForCard (← get).db card.projectId cardId
    let kept := milestones.filter (·.milestoneId != milestoneId)
    if kept.length = milestones.length then return
    onDb (MilestoneRepo.replaceForCard card.projectId cardId kept)
    let _ ← (Call.updateMilestones cardId updatedAt).run env

end

@[simp] theorem guarded_iff {m : StoreM K α} {w : World K} {Q : α → World K → Prop}
    {E : HolderError → World K → Prop} :
    Ends (guarded m) w Q E ↔ Ends m w Q fun e => E ⟨.runtime, e.what⟩ := by
  simp only [Ends, guarded]
  cases m w <;> rfl

theorem notEmpty_ok {name value : String} {u : Unit} (h : notEmpty name value = .ok u) : value ≠ "" := by
  rintro rfl
  cases h

end Capi

/-! ## The card's file after its rows -/

section
open CardStore
variable [SortKey K] {env : Env K} {w : World K} {card : Card K}

/-- The link rows of a card changed, and its file written from them. -/
theorem updateLinks_mirrored (henv : env.Lawful) (hj : w.journal = none) (h : Mirrored env w)
    (hc : w.db.cards[card.cardId]? = some card) {rows : Map (List String) CardLink}
    (hother : ∀ (key : List String) (l : CardLink), l.fromCardId ≠ card.cardId →
      (rows[key]? = some l ↔ w.db.cardLinks[key]? = some l))
    (hown : ∀ (key : List String) (l : CardLink), rows[key]? = some l → l.fromCardId = card.cardId →
      l.Fits card)
    (hkeyed : ∀ (key : List String) (l : CardLink), rows[key]? = some l → key = l.key)
    (updatedAt : Int) :
    Ends ((Call.updateLinks card.cardId updatedAt).run env)
      { w with db := { w.db with cardLinks := rows } } (fun _ w' => Mirrored env w')
      fun _ _ => True := by
  obtain ⟨-, links, milestones, body, hr⟩ := h.at hc
  have hproj : card.projectId = env.project.projectId := hr.kept.project
  have hedit := (h.edited hr).relinked hother
    (fun key l hl hfrom => ⟨(hown key l hl hfrom).project.trans hproj, (hown key l hl hfrom).toType⟩)
    hkeyed
  rw [← hproj] at hedit
  have hfits : ∀ link ∈ LinkRepo.listOutgoing { w.db with cardLinks := rows } card.projectId
      card.cardId, link.Fits card := by
    intro link hlink
    obtain ⟨⟨key, hrow⟩, -, hfrom⟩ := mem_listOutgoing.mp hlink
    exact hown key link hrow hfrom
  simp only [Call.run, Ends.bind_iff, Ends.get_iff, Call.enter, withCard, CardRepo.get?, hc, Entry.run,
    Ends.pure_iff]
  exact updateLinksLocked_mirrored (w := { w with db := { w.db with cardLinks := rows } }) henv hj h rfl
    hr hedit hfits updatedAt

/-- The milestone rows of a card replaced, and its file written from them. -/
theorem replaceMilestones_mirrored (henv : env.Lawful) (hj : w.journal = none) (h : Mirrored env w)
    (hc : w.db.cards[card.cardId]? = some card) {milestones : List Milestone}
    (hfits : ∀ m ∈ milestones, m.Fits card) (updatedAt : Int) :
    Ends (MilestoneRepo.replaceForCard card.projectId card.cardId milestones) w.db
      (fun _ db => db.cards = w.db.cards ∧
        Ends ((Call.updateMilestones card.cardId updatedAt).run env) { w with db }
          (fun _ w' => Mirrored env w') fun _ _ => True) fun _ _ => True := by
  obtain ⟨-, links, old, body, hr⟩ := h.at hc
  have hrows : Ends (MilestoneRepo.replaceForCard card.projectId card.cardId milestones) w.db
      (fun _ db => db.cards = w.db.cards) fun _ _ => True := by
    refine (MilestoneRepo.replaceForCard_ends _ _ _ _ ⟨card, hc⟩).mono ?_ fun _ _ _ => trivial
    rintro - db ⟨-, -, -, hdb, -⟩
    rw [hdb]
  -- The file of a trashed card is not found at its live path.
  have hedit : Ends (MilestoneRepo.replaceForCard card.projectId card.cardId milestones) w.db
      (fun _ db => card.deletedAt = none → (milestones.map (·.milestoneId)).Nodup ∧
        EditedTo env w.db ⟨card, body, links, milestones⟩ db) fun _ _ => True := by
    cases hdel : card.deletedAt with
    | none =>
      exact ((h.edited hr).replaceMilestones hr.kept hdel milestones).mono (fun _ _ h _ => h)
        fun _ _ _ => trivial
    | some at_ => exact .intro (fun _ _ _ hno => by cases hno) fun _ _ _ => trivial
  refine (hrows.and hedit).mono ?_ fun _ _ _ => trivial
  rintro - db ⟨hcards, hedit⟩
  refine ⟨hcards, ?_⟩
  simp only [Call.run, Ends.bind_iff, Ends.get_iff, Call.enter, withCard, CardRepo.get?, hcards, hc,
    Entry.run, Ends.pure_iff]
  refine updateMilestonesLocked_mirrored (w := { w with db }) henv hj h rfl hr (fun hlive => ?_)
    (fun hlive => ?_) updatedAt
  · obtain ⟨hids, hrec⟩ := hedit hlive
    exact hrec.listed (hr.kept.rescheduled hfits hids) hlive
  · obtain ⟨hids, hrec⟩ := hedit hlive
    exact hr.kept.rescheduled (hrec.listForCard_fits (hr.kept.rescheduled hfits hids))
      (hrec.listForCard_ids h _ _)

end

end HolderCore
