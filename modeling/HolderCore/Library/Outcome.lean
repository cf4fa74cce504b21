import Mathlib

/-! # Outcomes of stateful programs

Programs that may throw are `EStateM`: a throw keeps the state reached so far. `Ends m s Q E` says
that the run of `m` from `s` ends with `Q` when it returns and with `E` when it throws. Its simp
lemmas push the assertion through the constructs of a program, so that a specification of a
program unfolds into the conditions its tests met and the state it reached. -/

/-- The run of `m` from `s` returns with `Q` or throws with `E`. -/
def Ends {ε σ α : Type} (m : EStateM ε σ α) (s : σ) (Q : α → σ → Prop) (E : ε → σ → Prop) : Prop :=
  match m s with
  | .ok a s' => Q a s'
  | .error e s' => E e s'

/-- Run a pure check. -/
def fromExcept {ε σ α : Type} : Except ε α → EStateM ε σ α
  | .ok a => pure a
  | .error e => throw e

namespace Ends

variable {ε σ α β : Type} {s : σ} {Q : α → σ → Prop} {E : ε → σ → Prop}

theorem intro {m : EStateM ε σ α} (ok : ∀ a s', m s = .ok a s' → Q a s')
    (error : ∀ e s', m s = .error e s' → E e s') : Ends m s Q E := by
  unfold Ends
  cases h : m s with
  | ok a s' => exact ok a s' h
  | error e s' => exact error e s' h

theorem ok {m : EStateM ε σ α} (h : Ends m s Q E) (hm : m s = .ok a s') : Q a s' := by
  simpa [Ends, hm] using h

theorem error {m : EStateM ε σ α} (h : Ends m s Q E) (hm : m s = .error e s') : E e s' := by
  simpa [Ends, hm] using h

theorem mono {Q' : α → σ → Prop} {E' : ε → σ → Prop} {m : EStateM ε σ α} (h : Ends m s Q E)
    (hQ : ∀ a s', Q a s' → Q' a s') (hE : ∀ e s', E e s' → E' e s') : Ends m s Q' E' :=
  .intro (fun _ _ hm => hQ _ _ (h.ok hm)) (fun _ _ hm => hE _ _ (h.error hm))

/-- What two specifications say of one run. -/
theorem and {Q' : α → σ → Prop} {E' : ε → σ → Prop} {m : EStateM ε σ α} (h : Ends m s Q E)
    (h' : Ends m s Q' E') : Ends m s (fun a s' => Q a s' ∧ Q' a s') fun e s' => E e s' ∧ E' e s' :=
  .intro (fun _ _ hm => ⟨h.ok hm, h'.ok hm⟩) fun _ _ hm => ⟨h.error hm, h'.error hm⟩

/-- A run that does not throw returns. -/
theorem returns {m : EStateM ε σ α} (h : Ends m s Q fun _ _ => False) :
    ∃ a s', m s = .ok a s' ∧ Q a s' := by
  cases hm : m s with
  | ok a s' => exact ⟨a, s', rfl, h.ok hm⟩
  | error e s' => exact (h.error hm).elim

theorem exists_ok {m : EStateM ε σ α} (h : Ends m s (fun _ _ => True) fun _ _ => False) :
    ∃ a s', m s = .ok a s' := by
  obtain ⟨a, s', hm, -⟩ := h.returns
  exact ⟨a, s', hm⟩

/-- A run that does not return throws. -/
theorem throws {m : EStateM ε σ α} (h : Ends m s (fun _ _ => False) E) :
    ∃ e s', m s = .error e s' ∧ E e s' := by
  cases hm : m s with
  | ok a s' => exact (h.ok hm).elim
  | error e s' => exact ⟨e, s', rfl, h.error hm⟩

instance decidable (m : EStateM ε σ α) [∀ a s', Decidable (Q a s')] [∀ e s', Decidable (E e s')] :
    Decidable (Ends m s Q E) :=
  match h : m s with
  | .ok a s' => decidable_of_iff (Q a s') (by rw [Ends, h])
  | .error e s' => decidable_of_iff (E e s') (by rw [Ends, h])

/-- Run `m`, then go on from what it ended with. -/
theorem bind {R : β → σ → Prop} {F : ε → σ → Prop} {m : EStateM ε σ β} {f : β → EStateM ε σ α}
    (h : Ends m s R F) (hf : ∀ b s', R b s' → Ends (f b) s' Q E) (hE : ∀ e s', F e s' → E e s') :
    Ends (m >>= f) s Q E := by
  unfold Ends at *
  simp only [Bind.bind, EStateM.bind]
  cases hm : m s with
  | ok b s' => rw [hm] at h; exact hf b s' h
  | error e s' => rw [hm] at h; exact hE e s' h

@[simp] theorem bind_iff {m : EStateM ε σ β} {f : β → EStateM ε σ α} :
    Ends (m >>= f) s Q E ↔ Ends m s (fun b s' => Ends (f b) s' Q E) E := by
  simp only [Ends, Bind.bind, EStateM.bind]
  cases m s <;> rfl

@[simp] theorem pure_iff {a : α} : Ends (pure a) s Q E ↔ Q a s := Iff.rfl

@[simp] theorem throw_iff {e : ε} : Ends (throw e : EStateM ε σ α) s Q E ↔ E e s := Iff.rfl

@[simp] theorem get_iff {Q : σ → σ → Prop} {E : ε → σ → Prop} : Ends get s Q E ↔ Q s s := Iff.rfl

@[simp] theorem set_iff {s' : σ} {Q : PUnit → σ → Prop} {E : ε → σ → Prop} :
    Ends (set s') s Q E ↔ Q ⟨⟩ s' := Iff.rfl

@[simp] theorem modify_iff {f : σ → σ} {Q : PUnit → σ → Prop} {E : ε → σ → Prop} :
    Ends (modify f) s Q E ↔ Q ⟨⟩ (f s) := Iff.rfl

@[simp] theorem fromExcept_iff {x : Except ε α} :
    Ends (fromExcept x) s Q E ↔ (∀ a, x = .ok a → Q a s) ∧ ∀ e, x = .error e → E e s := by
  cases x <;> simp [fromExcept, Ends, pure, EStateM.pure, throw, throwThe, MonadExceptOf.throw,
    EStateM.throw]

@[simp] theorem tryCatch_iff {m : EStateM ε σ α} {handler : ε → EStateM ε σ α} :
    Ends (tryCatch m handler) s Q E ↔ Ends m s Q (fun e s' => Ends (handler e) s' Q E) := by
  simp only [Ends, tryCatch, tryCatchThe, MonadExceptOf.tryCatch, EStateM.tryCatch]
  cases m s <;> rfl

@[simp] theorem ite_iff {c : Prop} [Decidable c] {m m' : EStateM ε σ α} :
    Ends (if c then m else m') s Q E ↔ (c → Ends m s Q E) ∧ (¬c → Ends m' s Q E) := by
  by_cases h : c <;> simp [h]

/-- A program run on each element of a list. -/
theorem mapM {f : α → EStateM ε σ β} {R : α → β → Prop} {I : σ → Prop} {as : List α}
    (h : ∀ a ∈ as, ∀ s, I s → Ends (f a) s (fun b s' => I s' ∧ R a b) fun _ s' => I s')
    (hs : I s) :
    Ends (as.mapM f) s (fun bs s' => I s' ∧ List.Forall₂ R as bs) fun _ s' => I s' := by
  induction as generalizing s with
  | nil => simpa using hs
  | cons a as ih =>
    rw [List.mapM_cons]
    refine (h a List.mem_cons_self s hs).bind (fun b s1 ⟨h1, hab⟩ => ?_) fun _ _ he => he
    refine (ih (fun a ha => h a (List.mem_cons_of_mem _ ha)) h1).bind (fun bs s2 ⟨h2, hbs⟩ => ?_)
      fun _ _ he => he
    exact ⟨h2, .cons hab hbs⟩

end Ends

/-- `P` is an invariant of `m`, whether it returns or throws. -/
def Keeps {ε σ α : Type} (P : σ → Prop) (m : EStateM ε σ α) : Prop :=
  ∀ s, P s → Ends m s (fun _ => P) fun _ => P

namespace Keeps

variable {ε σ α β : Type} {P : σ → Prop}

theorem bind {m : EStateM ε σ α} {f : α → EStateM ε σ β} (hm : Keeps P m)
    (hf : ∀ a, Keeps P (f a)) : Keeps P (m >>= f) :=
  fun s hs => (hm s hs).bind (fun a s' h => hf a s' h) fun _ _ h => h

theorem pure (a : α) : Keeps P (Pure.pure a : EStateM ε σ α) := fun _ hs => hs

theorem throw (e : ε) : Keeps P (throw e : EStateM ε σ α) := fun _ hs => hs

theorem get : Keeps P (get : EStateM ε σ σ) := fun _ hs => hs

/-- A check that names a value, then a program that keeps to it. -/
theorem fromExcept_bind {x : Except ε α} {f : α → EStateM ε σ β}
    (h : ∀ a, x = .ok a → Keeps P (f a)) : Keeps P (fromExcept x >>= f) := by
  intro s hs
  rw [Ends.bind_iff, Ends.fromExcept_iff]
  exact ⟨fun a ha => h a ha s hs, fun _ _ => hs⟩

theorem fromExcept (x : Except ε α) : Keeps P (fromExcept x) := fun _ hs =>
  Ends.fromExcept_iff.mpr ⟨fun _ _ => hs, fun _ _ => hs⟩

theorem ite {c : Prop} [Decidable c] {m m' : EStateM ε σ α} (h : Keeps P m) (h' : Keeps P m') :
    Keeps P (if c then m else m') := by
  split
  · exact h
  · exact h'

end Keeps

/-- Run a program that returns, then go on from what it returned. -/
theorem bind_eq_of_ok {ε σ α β : Type} {m : EStateM ε σ α} {f : α → EStateM ε σ β} {s s' : σ} {a : α}
    (h : m s = .ok a s') : (m >>= f) s = f a s' := by
  simp [bind, EStateM.bind, h]

/-- A program that returns on each element of a list and leaves the state as it is. -/
theorem mapM_eq_ok {ε σ α β : Type} {f : α → EStateM ε σ β} {g : α → β} {as : List α} {s : σ}
    (h : ∀ a ∈ as, f a s = .ok (g a) s) : as.mapM f s = .ok (as.map g) s := by
  induction as with
  | nil => rfl
  | cons a as ih =>
    rw [List.mapM_cons, bind_eq_of_ok (h a List.mem_cons_self),
      bind_eq_of_ok (ih fun a ha => h a (List.mem_cons_of_mem _ ha))]
    rfl

theorem List.Forall₂.exists_left {α β : Type} {R : α → β → Prop} {as : List α} {bs : List β}
    {b : β} (h : List.Forall₂ R as bs) (hb : b ∈ bs) : ∃ a ∈ as, R a b := by
  induction h with
  | nil => cases hb
  | cons hab _ ih =>
    rcases List.mem_cons.mp hb with rfl | hb
    · exact ⟨_, List.mem_cons_self, hab⟩
    · obtain ⟨a, ha, h⟩ := ih hb
      exact ⟨a, List.mem_cons_of_mem _ ha, h⟩

theorem List.Forall₂.exists_right {α β : Type} {R : α → β → Prop} {as : List α} {bs : List β}
    {a : α} (h : List.Forall₂ R as bs) (ha : a ∈ as) : ∃ b ∈ bs, R a b :=
  List.Forall₂.exists_left (R := fun b a => R a b) h.flip ha

/-- A check that passed on each element of a list. -/
theorem Except.forall₂_of_mapM {ε α β : Type} {f : α → Except ε β} {as : List α} {bs : List β}
    (h : as.mapM f = .ok bs) : List.Forall₂ (fun a b => f a = .ok b) as bs := by
  induction as generalizing bs with
  | nil =>
    rw [List.mapM_nil] at h
    cases h
    exact .nil
  | cons a as ih =>
    rw [List.mapM_cons] at h
    cases ha : f a with
    | error e => rw [ha] at h; cases h
    | ok b =>
      rw [ha] at h
      simp only [bind, Except.bind] at h
      cases hm : as.mapM f with
      | error e => rw [hm] at h; cases h
      | ok bs' =>
        rw [hm] at h
        cases h
        exact .cons ha (ih hm)
