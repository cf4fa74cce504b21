import HolderCore.Library.Outcome

/-! # Keyset pages

A listing in pages: a cursor stands for the last row that was returned, and the next page holds
the rows behind it. `Keyset` is what the test for "behind" has to satisfy, and `follow` asks for
page after page until no cursor comes back. The result is the whole listing, whatever the sizes
of the pages (`Keyset.follow_eq`). -/

variable {α β κ σ ε : Type}

/-- The rows of a listing behind a cursor; all of them without one. -/
def behind (after : κ → α → Bool) (rows : List α) : Option κ → List α
  | none => rows
  | some cursor => rows.filter (after cursor)

theorem behind_pairwise {r : α → α → Prop} {after : κ → α → Bool} {rows : List α}
    (h : rows.Pairwise r) (cursor : Option κ) : (behind after rows cursor).Pairwise r := by
  cases cursor with
  | none => exact h
  | some c => exact h.filter _

theorem behind_map {κ' : Type} {after : κ → α → Bool} (g : κ' → κ) (rows : List α)
    (cursor : Option κ') :
    behind after rows (cursor.map g) = behind (fun c => after (g c)) rows cursor := by
  cases cursor <;> rfl

/-- A page of at most `limit` rows with its cursor: no cursor only when nothing is left behind the
page, and otherwise the cursor of the page's last row. -/
inductive PageOf (key : α → κ) (limit : Nat) (rows : List α) : List α → Option κ → Prop
  | last : rows.length ≤ limit → PageOf key limit rows rows none
  | more : (rows.take limit).getLast? = some a →
    PageOf key limit rows (rows.take limit) (some (key a))

/-- Ask for pages of the given sizes until no cursor comes back; `none` when more are needed. -/
def follow (page : Nat → Option κ → EStateM ε σ (List β × Option κ)) :
    List Nat → Option κ → EStateM ε σ (Option (List β))
  | [], _ => return none
  | limit :: limits, cursor => do
    let (rows, next) ← page limit cursor
    match next with
    | none => return some rows
    | some cursor => return (← follow page limits (some cursor)).map (rows ++ ·)

section
variable {page : Nat → Option κ → EStateM ε σ (List β × Option κ)} {s : σ} {cursor : Option κ}
  {limit : Nat} {limits : List Nat} {rows : List β}

theorem follow_last (h : page limit cursor s = .ok (rows, none) s) :
    follow page (limit :: limits) cursor s = .ok (some rows) s := by
  rw [follow, bind_eq_of_ok h]
  rfl

theorem follow_more {c : κ} {rest : List β} (h : page limit cursor s = .ok (rows, some c) s)
    (hrest : follow page limits (some c) s = .ok (some rest) s) :
    follow page (limit :: limits) cursor s = .ok (some (rows ++ rest)) s := by
  rw [follow, bind_eq_of_ok h]
  change (follow page limits (some c) >>= _) s = _
  rw [bind_eq_of_ok hrest]
  rfl

end

/-- The page that a look-ahead of one row gives. -/
theorem pageOf_lookAhead {rows : List α} {limit : Nat} (key : α → κ) (hl : 1 ≤ limit) :
    PageOf key limit rows ((rows.take (limit + 1)).take limit)
      (if limit < (rows.take (limit + 1)).length then
        ((rows.take (limit + 1)).take limit).getLast?.map key else none) := by
  rw [List.take_take, Nat.min_eq_left (Nat.le_succ limit), List.length_take]
  split
  · next h =>
    have hne : rows.take limit ≠ [] := by
      intro h0
      have := congrArg List.length h0
      simp only [List.length_take, List.length_nil] at this
      omega
    rw [List.getLast?_eq_some_getLast hne, Option.map_some]
    exact .more (List.getLast?_eq_some_getLast hne)
  · next h =>
    have hle : rows.length ≤ limit := by omega
    rw [List.take_of_length_le hle]
    exact .last hle

/-- The page whose cursor is its own last row. -/
theorem pageOf_lastRow {rows : List α} {limit : Nat} (key : α → κ) (hl : 1 ≤ limit) :
    PageOf key limit rows (rows.take limit) ((rows.take limit).getLast?.map key) := by
  cases h : (rows.take limit).getLast? with
  | some a => exact .more h
  | none =>
    have h0 : rows = [] := by
      simpa [List.take_eq_nil_iff, Nat.one_le_iff_ne_zero.mp hl] using List.getLast?_eq_none_iff.mp h
    subst h0
    simpa using @PageOf.last _ _ key limit ([] : List α) (Nat.zero_le _)

/-- What the test for "behind the cursor" satisfies. -/
structure Keyset (after : κ → α → Bool) (key : α → κ) : Prop where
  irrefl : ∀ a, after (key a) a = false
  trans : ∀ {c a b}, after c a = true → after (key a) b = true → after c b = true

namespace Keyset

variable {after : κ → α → Bool} {key : α → κ} {l : List α} {cursor : Option κ}

/-- The same test with cursors of another shape. -/
theorem comap {κ' : Type} {key' : α → κ'} {g : κ' → κ} (h : Keyset after key)
    (hg : ∀ a b, after (g (key' a)) b = after (key a) b) :
    Keyset (fun c => after (g c)) key' where
  irrefl a := by rw [hg, h.irrefl]
  trans hca hab := h.trans hca (by rwa [← hg])

/-- A listing in this order is known by its rows. -/
theorem eq_of_perm {l' : List α} (h : Keyset after key)
    (hl : l.Pairwise fun a b => after (key a) b = true)
    (hl' : l'.Pairwise fun a b => after (key a) b = true) (hp : l.Perm l') : l = l' := by
  refine List.Perm.eq_of_pairwise (fun a b _ _ hab hba => ?_) hl hl' hp
  have := h.trans hab hba
  rw [h.irrefl] at this
  cases this

/-- Behind a row of the listing stand the rows that follow it. -/
theorem behind_row (h : Keyset after key) (hl : l.Pairwise fun a b => after (key a) b = true)
    (hr : behind after l cursor = before ++ a :: rest) : behind after l (some (key a)) = rest := by
  have hsame : l.filter (after (key a)) = (behind after l cursor).filter (after (key a)) := by
    cases cursor with
    | none => rfl
    | some c =>
      have ha : after c a = true := by
        have : a ∈ l.filter (after c) := by
          rw [← show behind after l (some c) = l.filter (after c) from rfl, hr]
          simp
        exact (List.mem_filter.mp this).2
      rw [behind, List.filter_filter]
      refine List.filter_congr fun b _ => ?_
      cases hb : after (key a) b with
      | false => rfl
      | true => rw [h.trans ha hb]; rfl
  have hpair : (before ++ a :: rest).Pairwise fun a b => after (key a) b = true := by
    rw [← hr]
    exact behind_pairwise hl cursor
  obtain ⟨-, hrest, hbefore⟩ := List.pairwise_append.mp hpair
  rw [behind, hsame, hr, List.filter_append, List.filter_cons, h.irrefl]
  have h1 : before.filter (after (key a)) = [] := by
    refine List.filter_eq_nil_iff.mpr fun b hb hab => ?_
    have := h.trans hab (hbefore b hb a List.mem_cons_self)
    rw [h.irrefl] at this
    cases this
  have h2 : rest.filter (after (key a)) = rest :=
    List.filter_eq_self.mpr fun b hb => List.rel_of_pairwise_cons hrest hb
  rw [h1, h2]
  rfl

/-- Following the cursors lists every row behind the first cursor, once and in order, for pages of
any sizes. -/
theorem follow_eq (h : Keyset after key) (hl : l.Pairwise fun a b => after (key a) b = true)
    {page : Nat → Option κ → EStateM ε σ (List β × Option κ)} {s : σ} {f : α → β}
    {limits : List Nat}
    (hpage : ∀ limit ∈ limits, ∀ c, c = cursor ∨ (∃ a ∈ behind after l cursor, c = some (key a)) →
      ∃ rows next, page limit c s = .ok (rows.map f, next) s ∧
        PageOf key limit (behind after l c) rows next)
    (hpos : ∀ limit ∈ limits, 1 ≤ limit)
    (hlen : (behind after l cursor).length < limits.length) :
    follow page limits cursor s = .ok (some ((behind after l cursor).map f)) s := by
  induction limits generalizing cursor with
  | nil => simp at hlen
  | cons limit limits ih =>
    obtain ⟨rows, next, hrun, hof⟩ := hpage limit List.mem_cons_self cursor (.inl rfl)
    cases hof with
    | last hle => exact follow_last hrun
    | @more a hlast =>
      obtain ⟨before, hbefore⟩ := List.getLast?_eq_some_iff.mp hlast
      have hsplit : behind after l cursor =
          before ++ a :: (behind after l cursor).drop limit := by
        have := (List.take_append_drop limit (behind after l cursor)).symm
        rwa [hbefore, List.append_assoc] at this
      have hrest := h.behind_row hl hsplit
      have hmem : a ∈ behind after l cursor := by rw [hsplit]; simp
      have hcall := @ih (some (key a))
        (fun limit' hl' c hc => hpage limit' (List.mem_cons_of_mem _ hl') c (.inr ?_))
        (fun limit' hl' => hpos limit' (List.mem_cons_of_mem _ hl')) ?_
      · rw [follow_more hrun hcall, hrest, ← List.map_append, List.take_append_drop]
      · rcases hc with rfl | ⟨b, hb, rfl⟩
        · exact ⟨a, hmem, rfl⟩
        · rw [hrest] at hb
          exact ⟨b, List.mem_of_mem_drop hb, rfl⟩
      · rw [hrest, List.length_drop]
        have := hpos limit List.mem_cons_self
        have := List.length_pos_of_mem hmem
        simp only [List.length_cons] at hlen
        omega

end Keyset
