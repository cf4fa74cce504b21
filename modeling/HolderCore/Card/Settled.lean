import HolderCore.Card.Clients

/-! # Calls that settle a pending journal

Under the lock a call asks for its project, and a rebuild then settles an interrupted card change. A row
that the call read before is stale where settling changed it. -/

namespace HolderCore

/-! ## What a call uses of a stale row -/

section
open CardStore
variable [SortKey K] (env : Env K)

/-- Two runs return or throw the same and leave the same files and rows. -/
structure SameEnd (r r' : EStateM.Result Exn (World K) α) : Prop where
  result : (outcome r).1 = (outcome r').1
  db : (outcome r).2.db = (outcome r').2.db
  work : (outcome r).2.repo.work = (outcome r').2.repo.work

/-- Two rows of a card lead to the same file. -/
structure SamePath (card settled : Card K) : Prop where
  id : card.cardId = settled.cardId
  path : checkRelPath card = checkRelPath settled

end

/-! ## Under the lock -/

section
variable {w w' : World K} {α β : Type}

theorem run_bind_ok {m : StoreM K α} {f : α → StoreM K β} {a : α} (h : m w = .ok a w') :
    (m >>= f) w = f a w' := by
  simp only [bind, EStateM.bind, h]

theorem run_bind_error {m : StoreM K α} {f : α → StoreM K β} {e : Exn} (h : m w = .error e w') :
    (m >>= f) w = .error e w' := by
  simp only [bind, EStateM.bind, h]

theorem SameEnd.of_eq {r r' : EStateM.Result Exn (World K) α} (h : r = r') : SameEnd r r' :=
  ⟨by rw [h], by rw [h], by rw [h]⟩

end

section
open CardStore
variable [SortKey K] {env : Env K} {w w' : World K} {call : Call K} {card settled : Card K}

/-- Under the lock the call first asks for the project. -/
def Requires (env : Env K) (projectId : String) (entry : Entry K) : Prop :=
  ∃ k, entry = .locked (requireProject env projectId >>= fun _ => k)

theorem Requires.locked {m : StoreM K α} {k : StoreM K α} {g : α → StoreM K (Result K)}
    {projectId : String} (hm : m = requireProject env projectId >>= fun _ => k) :
    Requires env projectId (.locked (m >>= g)) :=
  ⟨k >>= g, by rw [hm, bind_assoc]⟩

omit [SortKey K] in
theorem SamePath.relPath (h : SamePath card settled) (hp : checkRelPath card = .ok ()) :
    settled.relPath = card.relPath := by
  have hpath : ∀ c : Card K, checkRelPath c = .ok () → cardRelPath c.cardId = .ok c.relPath := by
    intro c hc
    unfold checkRelPath at hc
    cases hrel : cardRelPath c.cardId with
    | error e => simp [hrel, bind, Except.bind] at hc
    | ok path =>
      simp only [hrel, bind, Except.bind] at hc
      split at hc
      · cases hc
      · next hne => rw [not_not.mp hne]
  have hcard := hpath card hp
  have hsettled := hpath settled (h.path ▸ hp)
  rw [← h.id, hcard, Except.ok.injEq] at hsettled
  exact hsettled.symm

omit [SortKey K] in
theorem SameEnd.bind {α β : Type} {m : StoreM K α} {f f' : α → StoreM K β}
    (h : ∀ a w1, m w = .ok a w1 → SameEnd (f a w1) (f' a w1)) :
    SameEnd ((m >>= f) w) ((m >>= f') w) := by
  cases hm : m w with
  | error e w1 => exact .of_eq (by rw [run_bind_error hm, run_bind_error hm])
  | ok a w1 =>
    rw [run_bind_ok hm, run_bind_ok hm]
    exact h a w1 hm

end

/-! ## An interrupted move -/

end HolderCore
