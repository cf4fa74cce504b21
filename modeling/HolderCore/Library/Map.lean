import Mathlib

/-! # Ordered finite maps

The maps of this development are the extensional ordered maps of `Std`, at a lawful order. They
stand for the ordered associative containers of a program, for the rows of a table under their
primary key and for the files of a directory tree. The lemmas below restate the lookup lemmas of
`Std.ExtTreeMap` with equality of keys in the place of a comparison. -/

/-- A finite map ordered by its keys. -/
abbrev Map (κ : Type) (β : Type) [Ord κ] := Std.ExtTreeMap κ β compare

namespace Map
open Std

variable {κ β : Type} [Ord κ] [TransOrd κ] [LawfulEqOrd κ]

theorem ext {m m' : Map κ β} (h : ∀ k : κ, m[k]? = m'[k]?) : m = m' :=
  ExtTreeMap.ext_getElem? h

theorem get_insert [DecidableEq κ] (m : Map κ β) (k a : κ) (v : β) :
    (m.insert k v)[a]? = if k = a then some v else m[a]? := by
  simp [ExtTreeMap.getElem?_insert]

theorem get_insert_ne {m : Map κ β} {k a : κ} {v : β} (h : k ≠ a) :
    (m.insert k v)[a]? = m[a]? := by
  simp [ExtTreeMap.getElem?_insert, h]

theorem get_erase [DecidableEq κ] (m : Map κ β) (k a : κ) :
    (m.erase k)[a]? = if k = a then none else m[a]? := by
  simp [ExtTreeMap.getElem?_erase]

theorem get_erase_ne {m : Map κ β} {k a : κ} (h : k ≠ a) : (m.erase k)[a]? = m[a]? := by
  simp [ExtTreeMap.getElem?_erase, h]

@[simp] theorem get_filter (m : Map κ β) (f : κ → β → Bool) (a : κ) :
    (m.filter f)[a]? = m[a]?.filter (f a) :=
  ExtTreeMap.getElem?_filter'

@[simp] theorem get_map {γ : Type} (m : Map κ β) (f : κ → β → γ) (a : κ) :
    (m.map f)[a]? = m[a]?.map (f a) :=
  ExtTreeMap.getElem?_map

omit [LawfulEqOrd κ] in
theorem mem_iff {m : Map κ β} {a : κ} : a ∈ m ↔ ∃ v, m[a]? = some v := by
  rw [ExtTreeMap.mem_iff_isSome_getElem?, Option.isSome_iff_exists]

omit [LawfulEqOrd κ] in
theorem not_mem_iff {m : Map κ β} {a : κ} : a ∉ m ↔ m[a]? = none := by
  rw [ExtTreeMap.mem_iff_isSome_getElem?, Bool.not_eq_true, Option.isSome_eq_false_iff,
    Option.isNone_iff_eq_none]

theorem insert_of_get {m : Map κ β} {k : κ} {v : β} (h : m[k]? = some v) : m.insert k v = m := by
  classical
  refine ext fun a => ?_
  rw [get_insert]
  split
  · next he => rw [← he, h]
  · rfl

theorem erase_of_get {m : Map κ β} {k : κ} (h : m[k]? = none) : m.erase k = m := by
  classical
  refine ext fun a => ?_
  rw [get_erase]
  split
  · next he => rw [← he, h]
  · rfl

/-- Set the value under a key, or remove the key. -/
def put (m : Map κ β) (k : κ) : Option β → Map κ β
  | some v => m.insert k v
  | none => m.erase k

theorem get_put [DecidableEq κ] (m : Map κ β) (k a : κ) (v : Option β) :
    (m.put k v)[a]? = if k = a then v else m[a]? := by
  cases v with
  | some v => exact get_insert m k a v
  | none => exact get_erase m k a

theorem put_put (m : Map κ β) (k : κ) (v v' : Option β) : (m.put k v).put k v' = m.put k v' := by
  classical
  refine ext fun a => ?_
  simp only [get_put]
  split <;> rfl

/-- Inserting pairs in turn: the last pair with a key decides its value. -/
theorem get_foldl_insert [DecidableEq κ] {γ : Type} (f : γ → β) (l : List (κ × γ)) (m : Map κ β)
    (a : κ) : (l.foldl (fun m kv => m.insert kv.1 (f kv.2)) m)[a]? =
      ((l.reverse.find? fun kv => kv.1 = a).map fun kv => f kv.2).or m[a]? := by
  induction l generalizing m with
  | nil => simp
  | cons kv l ih =>
    rw [List.foldl_cons, ih, get_insert, List.reverse_cons, List.find?_append]
    by_cases h : kv.1 = a
    · cases l.reverse.find? fun kv => kv.1 = a <;> simp [h]
    · cases l.reverse.find? fun kv => kv.1 = a <;> simp [h]

/-- Inserting values under keys of their own. -/
theorem get_foldl_insert_key [DecidableEq κ] {γ : Type} (key : γ → κ) (val : γ → β) (l : List γ)
    (m : Map κ β) (a : κ) : (l.foldl (fun m x => m.insert (key x) (val x)) m)[a]? =
      ((l.reverse.find? fun x => key x = a).map val).or m[a]? := by
  have hmap := get_foldl_insert val (l.map fun x => (key x, x)) m a
  rw [List.foldl_map, ← List.map_reverse, List.find?_map] at hmap
  rw [hmap]
  simp only [Function.comp_def, Option.map_map]

/-- Inserting values under keys that are all different. -/
theorem get_foldl_insert_nodup [DecidableEq κ] {γ : Type} {key : γ → κ} {val : γ → β} {l : List γ}
    {m : Map κ β} (h : (l.map key).Nodup) {a : κ} {v : β} :
    (l.foldl (fun m x => m.insert (key x) (val x)) m)[a]? = some v ↔
      (∃ x ∈ l, key x = a ∧ val x = v) ∨ (∀ x ∈ l, key x ≠ a) ∧ m[a]? = some v := by
  rw [get_foldl_insert_key]
  cases hf : l.reverse.find? fun x => key x = a with
  | none =>
    have hnone : ∀ x ∈ l, key x ≠ a := by
      intro x hx
      simpa using List.find?_eq_none.mp hf x (List.mem_reverse.mpr hx)
    simp only [Option.map_none, Option.none_or]
    refine ⟨fun hm => .inr ⟨hnone, hm⟩, ?_⟩
    rintro (⟨x, hx, rfl, -⟩ | ⟨-, hm⟩)
    · exact absurd rfl (hnone x hx)
    · exact hm
  | some x =>
    have hx : x ∈ l := List.mem_reverse.mp (List.mem_of_find?_eq_some hf)
    have hkey : key x = a := by simpa using List.find?_some hf
    simp only [Option.map_some, Option.some_or, Option.some.injEq]
    refine ⟨fun hv => .inl ⟨x, hx, hkey, hv⟩, ?_⟩
    rintro (⟨x', hx', hkey', rfl⟩ | ⟨hnone, -⟩)
    · rw [List.inj_on_of_nodup_map h hx hx' (hkey.trans hkey'.symm)]
    · exact absurd hkey (hnone x hx)

/-- Setting keys in turn from one function: every key listed has the function's value. -/
theorem get_foldl_put [DecidableEq κ] (f : κ → Option β) (ks : List κ) (m : Map κ β) (a : κ) :
    (ks.foldl (fun m k => m.put k (f k)) m)[a]? = if a ∈ ks then f a else m[a]? := by
  induction ks generalizing m with
  | nil => simp
  | cons k ks ih =>
    rw [List.foldl_cons, ih, get_put]
    by_cases h : k = a
    · simp [h]
    · simp [h, Ne.symm h]

/-- Setting every key of another map. -/
theorem get_foldl_put_toList [DecidableEq κ] {γ : Type} (g : γ → Option β) (entries : Map κ γ)
    (m : Map κ β) (a : κ) : (entries.toList.foldl (fun m kv => m.put kv.1 (g kv.2)) m)[a]? =
      entries[a]?.elim m[a]? g := by
  have hf : entries.toList.foldl (fun m kv => m.put kv.1 (g kv.2)) m =
      entries.keys.foldl (fun m k => m.put k (entries[k]?.bind g)) m := by
    rw [← ExtTreeMap.map_fst_toList_eq_keys, List.foldl_map]
    refine List.foldl_ext _ _ _ fun m kv hkv => ?_
    rw [ExtTreeMap.mem_toList_iff_getElem?_eq_some.mp hkv]
    rfl
  rw [hf, get_foldl_put]
  simp only [ExtTreeMap.mem_keys]
  cases ha : entries[a]? with
  | none => simp [not_mem_iff.mpr ha]
  | some v => simp [mem_iff.mpr ⟨v, ha⟩]

/-! ## Rows -/

/-- The values of a map in the order of their keys. -/
def rows (m : Map κ β) : List β := m.toList.map Prod.snd

theorem mem_rows {m : Map κ β} {v : β} : v ∈ m.rows ↔ ∃ k : κ, m[k]? = some v := by
  simp only [rows, List.mem_map, Prod.exists, ExtTreeMap.mem_toList_iff_getElem?_eq_some,
    exists_eq_right]

/-- Rows that carry their own key are listed without repetition. -/
theorem nodup_map_rows {m : Map κ β} {key : β → κ} (h : ∀ (k : κ) (v : β), m[k]? = some v → key v = k) :
    (m.rows.map key).Nodup := by
  have hkeys : m.rows.map key = m.keys := by
    rw [← ExtTreeMap.map_fst_toList_eq_keys, rows, List.map_map]
    refine List.map_congr_left fun ⟨k, v⟩ hmem => ?_
    exact h k v (ExtTreeMap.mem_toList_iff_getElem?_eq_some.mp hmem)
  rw [hkeys]
  exact ExtTreeMap.nodup_keys

end Map
