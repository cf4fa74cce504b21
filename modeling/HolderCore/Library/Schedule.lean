import Mathlib

/-! # Clients in two phases

A client reads a shared state, may stop on what it read, and else changes the state in one step that
uses what it read. A schedule gives the clients turns in any order, a client's first turn being its
read. While every step acts as on a fresh read, the state and the results are those of the clients
one after another, in the order in which they finished. -/

structure TwoPhase (σ ρ β : Type) where
  read : σ → ρ
  stop : ρ → Option β
  act : ρ → σ → β × σ

/-- Where a client is. -/
inductive Phase (ρ β : Type) where
  | idle
  | waiting (r : ρ)
  | finished (b : β)

structure Clients (ι σ ρ β : Type) where
  state : σ
  phase : ι → Phase ρ β

namespace TwoPhase

variable {ι σ ρ β : Type}

/-- A client with nothing between its phases. -/
def whole (t : TwoPhase σ ρ β) (s : σ) : β × σ :=
  match t.stop (t.read s) with
  | some b => (b, s)
  | none => t.act (t.read s) s

/-- What was read leads to the step that a fresh read leads to. -/
structure Fresh (t : TwoPhase σ ρ β) (r : ρ) (s : σ) : Prop where
  stop : t.stop (t.read s) = t.stop r
  act : t.act (t.read s) s = t.act r s

section
variable [DecidableEq ι] (t : ι → TwoPhase σ ρ β)

/-- The next phase of one client. -/
def turn (c : Clients ι σ ρ β) (i : ι) : Clients ι σ ρ β :=
  match c.phase i with
  | .idle =>
    match (t i).stop ((t i).read c.state) with
    | some b => { c with phase := Function.update c.phase i (.finished b) }
    | none => { c with phase := Function.update c.phase i (.waiting ((t i).read c.state)) }
  | .waiting r =>
    let (b, s) := (t i).act r c.state
    ⟨s, Function.update c.phase i (.finished b)⟩
  | .finished _ => c

def start (s : σ) : Clients ι σ ρ β := ⟨s, fun _ => .idle⟩

def runTurns (c : Clients ι σ ρ β) (schedule : List ι) : Clients ι σ ρ β :=
  schedule.foldl (turn t) c

/-- Every step of a schedule acts as on a fresh read. -/
def EachFresh : Clients ι σ ρ β → List ι → Prop
  | _, [] => True
  | c, i :: schedule =>
    (∀ r, c.phase i = .waiting r → (t i).Fresh r c.state) ∧ EachFresh (turn t c i) schedule

omit [DecidableEq ι] in
/-- The clients one after another. -/
def serial (s : σ) (order : List ι) : σ := order.foldl (fun s i => ((t i).whole s).2) s

omit [DecidableEq ι] in
theorem serial_append (s : σ) (order order' : List ι) :
    serial t s (order ++ order') = serial t (serial t s order) order' := List.foldl_append

end

/-- The state and the results of the finished clients are those of a serial order of them. -/
structure SerialOrder (t : ι → TwoPhase σ ρ β) (s : σ) (c : Clients ι σ ρ β) (order : List ι) :
    Prop where
  nodup : order.Nodup
  finished : ∀ i, i ∈ order ↔ ∃ b, c.phase i = .finished b
  state : c.state = serial t s order
  result : ∀ pre i post, order = pre ++ i :: post →
    c.phase i = .finished ((t i).whole (serial t s pre)).1

section
variable {t : ι → TwoPhase σ ρ β} {s : σ} {c : Clients ι σ ρ β} {order : List ι} {i : ι}

theorem SerialOrder.start (t : ι → TwoPhase σ ρ β) (s : σ) : SerialOrder t s (start s) [] where
  nodup := .nil
  finished i := by simp [TwoPhase.start]
  state := rfl
  result pre i post h := by simp at h

variable [DecidableEq ι]

theorem turn_idle (h : c.phase i = .idle) (hstop : (t i).stop ((t i).read c.state) = none) :
    turn t c i =
      { c with phase := Function.update c.phase i (.waiting ((t i).read c.state)) } := by
  simp only [turn, h, hstop]

theorem turn_waiting {r : ρ} (h : c.phase i = .waiting r) :
    turn t c i = ⟨((t i).act r c.state).2,
      Function.update c.phase i (.finished ((t i).act r c.state).1)⟩ := by
  simp only [turn, h]

/-- A client that stays unfinished changes no order. -/
theorem SerialOrder.wait (h : SerialOrder t s c order) (hi : i ∉ order) (r : ρ) :
    SerialOrder t s { c with phase := Function.update c.phase i (.waiting r) } order where
  nodup := h.nodup
  finished j := by
    by_cases hj : j = i
    · subst hj
      simp [hi]
    · simpa [hj] using h.finished j
  state := h.state
  result pre j post he := by
    have hj : j ≠ i := by
      rintro rfl
      exact hi (by simp [he])
    simpa [hj] using h.result pre j post he

/-- A client that finishes as it would alone goes to the end of the order. -/
theorem SerialOrder.finish (h : SerialOrder t s c order) (hi : i ∉ order) {b : β} {s' : σ}
    (hb : (t i).whole c.state = (b, s')) :
    SerialOrder t s ⟨s', Function.update c.phase i (.finished b)⟩ (order ++ [i]) where
  nodup := by
    refine List.nodup_append.mpr ⟨h.nodup, List.nodup_singleton i, fun a ha j hj => ?_⟩
    rw [List.mem_singleton.mp hj]
    rintro rfl
    exact hi ha
  finished j := by
    by_cases hj : j = i
    · subst hj
      simp
    · simpa [hj] using h.finished j
  state := by
    rw [serial_append, ← h.state]
    simp [serial, hb]
  result pre j post he := by
    rcases List.append_eq_append_iff.mp he with ⟨mid, hpre, hmid⟩ | ⟨mid, horder, hmid⟩
    · cases mid with
      | nil =>
        obtain ⟨rfl, rfl⟩ : i = j ∧ post = [] := by simpa using hmid
        rw [List.append_nil] at hpre
        subst hpre
        simp [← h.state, hb]
      | cons m mid =>
        simp at hmid
    · cases mid with
      | nil =>
        obtain ⟨rfl, rfl⟩ : j = i ∧ post = [] := by simpa using hmid
        rw [List.append_nil] at horder
        subst horder
        simp [← h.state, hb]
      | cons m mid =>
        obtain ⟨rfl, rfl⟩ : j = m ∧ post = mid ++ [i] := by simpa using hmid
        have hj : j ≠ i := by
          rintro rfl
          exact hi (by simp [horder])
        simpa [hj] using h.result pre j mid horder

/-- One turn of a schedule of fresh steps. -/
theorem SerialOrder.turn (h : SerialOrder t s c order)
    (hwait : ∀ j r, c.phase j = .waiting r → (t j).stop r = none)
    (hfresh : ∀ r, c.phase i = .waiting r → (t i).Fresh r c.state) :
    (∃ order', SerialOrder t s (TwoPhase.turn t c i) order') ∧
      ∀ j r, (TwoPhase.turn t c i).phase j = .waiting r → (t j).stop r = none := by
  have hnot : (∀ b, c.phase i ≠ .finished b) → i ∉ order := fun hb hmem =>
    let ⟨b, hfin⟩ := (h.finished i).mp hmem
    hb b hfin
  cases hphase : c.phase i with
  | idle =>
    have hi : i ∉ order := hnot (by simp [hphase])
    cases hstop : (t i).stop ((t i).read c.state) with
    | some b =>
      simp only [TwoPhase.turn, hphase, hstop]
      refine ⟨⟨_, h.finish hi (b := b) ?_⟩, fun j r hj => ?_⟩
      · simp [whole, hstop]
      · by_cases hji : j = i
        · subst hji
          simp at hj
        · exact hwait j r (by simpa [hji] using hj)
    | none =>
      rw [turn_idle hphase hstop]
      refine ⟨⟨_, h.wait hi _⟩, fun j r hj => ?_⟩
      by_cases hji : j = i
      · subst hji
        simp at hj
        rwa [← hj]
      · exact hwait j r (by simpa [hji] using hj)
  | waiting r =>
    have hi : i ∉ order := hnot (by simp [hphase])
    have hact : (t i).whole c.state = (t i).act r c.state := by
      simp [whole, (hfresh r hphase).stop, hwait i r hphase, (hfresh r hphase).act]
    rw [turn_waiting hphase]
    refine ⟨⟨_, h.finish hi hact⟩, fun j r' hj => ?_⟩
    by_cases hji : j = i
    · subst hji
      simp at hj
    · exact hwait j r' (by simpa [hji] using hj)
  | finished b =>
    simp only [TwoPhase.turn, hphase]
    exact ⟨⟨order, h⟩, hwait⟩

/-- A schedule whose steps are fresh is as good as a serial order. -/
theorem runTurns_serial {schedule : List ι} (h : EachFresh t (start s) schedule) :
    ∃ order, SerialOrder t s (runTurns t (start s) schedule) order := by
  suffices hgen : ∀ (c : Clients ι σ ρ β), (∃ order, SerialOrder t s c order) →
      (∀ j r, c.phase j = .waiting r → (t j).stop r = none) → EachFresh t c schedule →
      ∃ order, SerialOrder t s (runTurns t c schedule) order from
    hgen _ ⟨[], .start t s⟩ (fun j r hj => by simp [start] at hj) h
  clear h
  induction schedule with
  | nil => exact fun c hc _ _ => hc
  | cons i schedule ih =>
    rintro c ⟨order, hc⟩ hwait ⟨hi, hrest⟩
    obtain ⟨hc', hwait'⟩ := hc.turn hwait hi
    exact ih _ hc' hwait' hrest

end

/-! ## Two clients -/

section
variable {t : Bool → TwoPhase σ ρ β} {s : σ}

/-- Both clients read, in either order. -/
theorem runTurns_reads (hstop : ∀ i, (t i).stop ((t i).read s) = none) (i : Bool)
    (schedule : List Bool) : runTurns t (start s) (i :: (!i) :: schedule) =
      runTurns t ⟨s, fun i => .waiting ((t i).read s)⟩ schedule := by
  have hphase : (start s : Clients Bool σ ρ β).phase i = .idle := rfl
  change runTurns t (turn t (turn t (start s) i) (!i)) _ = _
  rw [turn_idle hphase (hstop i), turn_idle (by cases i <;> rfl) (hstop (!i))]
  congr 2
  funext j
  cases i <;> cases j <;> rfl

/-- Both clients act on what they read, `j` first. -/
theorem runTurns_acts (r : Bool → ρ) (j : Bool) :
    runTurns t ⟨s, fun i => .waiting (r i)⟩ [j, !j] =
      ⟨((t !j).act (r !j) ((t j).act (r j) s).2).2, fun i => .finished
        (if i = j then ((t j).act (r j) s).1 else ((t !j).act (r !j) ((t j).act (r j) s).2).1)⟩ := by
  change turn t (turn t _ j) (!j) = _
  have hphase : (⟨s, fun i => .waiting (r i)⟩ : Clients Bool σ ρ β).phase j = .waiting (r j) := rfl
  rw [turn_waiting hphase, turn_waiting (r := r !j) (by cases j <;> rfl)]
  congr 1
  funext i
  cases i <;> cases j <;> rfl

end

end TwoPhase
