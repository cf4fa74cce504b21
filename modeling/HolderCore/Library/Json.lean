import HolderCore.Library.Outcome
import HolderCore.Library.Utf8

/-! # JSON values

The values of a JSON library that keeps the fields of an object in an ordered map, what a program
reads from them and builds them of, and the library's parser and serializer as a parameter
(`JsonLibrary`). Numbers that are not integers are of a type of their own, `φ`. -/

open HolderCore (ValidUtf8 validUtf8_of_ascii)

inductive JsonValue (φ : Type) where
  | null
  | boolean (b : Bool)
  | integer (n : Int)
  | float (x : φ)
  | string (s : String)
  | array (elements : List (JsonValue φ))
  /-- The fields in the order of their keys. -/
  | object (fields : List (String × JsonValue φ))

inductive JsonError where
  | parseError
  | invalidUtf8
  | cannotUseAt (kind : String)
  | keyNotFound (key : String)
  | typeMustBe (expected kind : String)
deriving DecidableEq, Repr

variable {φ β : Type}

/-! ## Numbers of a width -/

/-- A signed number of so many bits. -/
def FitsSigned (bits : Nat) (n : Int) : Prop := -(2 ^ bits : Nat) ≤ n * 2 ∧ n * 2 < (2 ^ bits : Nat)

instance (bits : Nat) (n : Int) : Decidable (FitsSigned bits n) := inferInstanceAs (Decidable (_ ∧ _))

theorem FitsSigned.bmod_eq {bits : Nat} {n : Int} (h : FitsSigned bits n) : n.bmod (2 ^ bits) = n :=
  Int.bmod_eq_of_le_mul_two h.1 h.2

theorem fitsSigned_bmod (bits : Nat) (n : Int) : FitsSigned bits (n.bmod (2 ^ bits)) := by
  have hpos : 0 < 2 ^ bits := Nat.two_pow_pos bits
  have hle := Int.le_bmod (x := n) hpos
  have hlt := Int.bmod_lt (x := n) hpos
  unfold FitsSigned
  omega

/-! ## Ordered maps of fields -/

/-- `std::map::emplace`: a key that is there keeps its value. -/
def emplace (key : String) (value : β) : List (String × β) → List (String × β)
  | [] => [(key, value)]
  | field :: fields =>
    if key < field.1 then (key, value) :: field :: fields
    else if key = field.1 then field :: fields
    else field :: emplace key value fields

/-- The keys ascend. -/
def KeysAscend (fields : List (String × β)) : Prop := (fields.map Prod.fst).Pairwise (· < ·)

section
variable {key key' : String} {value : β} {fields : List (String × β)}

theorem KeysAscend.tail {field : String × β} (h : KeysAscend (field :: fields)) : KeysAscend fields :=
  (List.pairwise_cons.mp h).2

theorem KeysAscend.head {field : String × β} (h : KeysAscend (field :: fields)) :
    ∀ field' ∈ fields, field.1 < field'.1 := fun _ hmem =>
  (List.pairwise_cons.mp h).1 _ (List.mem_map_of_mem hmem)

theorem mem_emplace {field : String × β} (h : field ∈ emplace key value fields) :
    field = (key, value) ∨ field ∈ fields := by
  induction fields with
  | nil => exact .inl (List.mem_singleton.mp h)
  | cons head fields ih =>
    rw [emplace] at h
    split at h
    · exact List.mem_cons.mp h
    split at h
    · exact .inr h
    · obtain rfl | h := List.mem_cons.mp h
      · exact .inr List.mem_cons_self
      · exact (ih h).imp_right (List.mem_cons_of_mem _)

theorem keysAscend_emplace (key : String) (value : β) (h : KeysAscend fields) :
    KeysAscend (emplace key value fields) := by
  induction fields with
  | nil => exact List.pairwise_singleton _ _
  | cons head fields ih =>
    rw [emplace]
    split
    · next hlt =>
      apply List.pairwise_cons.mpr
      refine ⟨fun key' hkey' => ?_, h⟩
      obtain ⟨field, hfield, rfl⟩ := List.mem_map.mp hkey'
      obtain rfl | hfield := List.mem_cons.mp hfield
      · exact hlt
      · exact hlt.trans (h.head field hfield)
    · next hle =>
      split
      · exact h
      · next hne =>
        apply List.pairwise_cons.mpr
        refine ⟨fun key' hkey' => ?_, ih h.tail⟩
        obtain ⟨field, hfield, rfl⟩ := List.mem_map.mp hkey'
        obtain rfl | hfield := mem_emplace hfield
        · exact lt_of_le_of_ne (not_lt.mp hle) (Ne.symm hne)
        · exact h.head field hfield

theorem lookup_eq_none_of_lt (h : ∀ field ∈ fields, key < field.1) : fields.lookup key = none := by
  apply List.lookup_eq_none_iff.mpr
  intro field hfield
  simpa using (h field hfield).ne

theorem lookup_emplace (h : KeysAscend fields) : (emplace key value fields).lookup key' =
    (fields.lookup key').or (if key' = key then some value else none) := by
  induction fields with
  | nil =>
    rw [emplace, List.lookup_cons, List.lookup_nil, Option.none_or]
    by_cases hkey : key' = key
    · rw [if_pos hkey, beq_iff_eq.mpr hkey]
    · rw [if_neg hkey, beq_eq_false_iff_ne.mpr hkey]
  | cons head fields ih =>
    obtain ⟨first, held⟩ := head
    rw [emplace]
    split
    · next hlt =>
      rw [List.lookup_cons]
      by_cases hkey : key' = key
      · have hnone : ((first, held) :: fields).lookup key = none := by
          apply lookup_eq_none_of_lt
          intro field hfield
          obtain rfl | hfield := List.mem_cons.mp hfield
          · exact hlt
          · exact hlt.trans (h.head field hfield)
        rw [hkey, hnone, beq_self_eq_true, if_pos rfl, Option.none_or]
      · rw [if_neg hkey, Option.or_none, beq_eq_false_iff_ne.mpr hkey]
    · split
      · next heq =>
        by_cases hkey : key' = key
        · rw [List.lookup_cons, hkey, beq_iff_eq.mpr heq, Option.some_or]
        · rw [if_neg hkey, Option.or_none]
      · rw [List.lookup_cons, List.lookup_cons, ih h.tail]
        split <;> rfl

theorem mem_of_lookup (h : fields.lookup key = some value) : (key, value) ∈ fields := by
  obtain ⟨before, after, rfl, -⟩ := List.lookup_eq_some_iff.mp h
  exact List.mem_append_right _ List.mem_cons_self

/-- Fields put into an empty map one after another. -/
def emplaceAll (fields : List (String × β)) : List (String × β) :=
  fields.foldl (fun map field => emplace field.1 field.2 map) []

theorem foldl_emplace {map : List (String × β)} (h : KeysAscend map) :
    KeysAscend (fields.foldl (fun map field => emplace field.1 field.2 map) map) ∧
      (∀ field ∈ fields.foldl (fun map field => emplace field.1 field.2 map) map,
        field ∈ map ∨ field ∈ fields) ∧
      ∀ key, (fields.foldl (fun map field => emplace field.1 field.2 map) map).lookup key =
        (map.lookup key).or (fields.lookup key) := by
  induction fields generalizing map with
  | nil => exact ⟨h, fun _ => .inl, fun key => by rw [List.foldl_nil, List.lookup_nil, Option.or_none]⟩
  | cons field fields ih =>
    rw [List.foldl_cons]
    obtain ⟨hascend, hmem, hlookup⟩ := ih (keysAscend_emplace field.1 field.2 h)
    refine ⟨hascend, fun f hf => ?_, fun key => ?_⟩
    · obtain hf | hf := hmem f hf
      · exact (mem_emplace hf).elim (fun heq => .inr (heq ▸ List.mem_cons_self)) .inl
      · exact .inr (List.mem_cons_of_mem _ hf)
    · rw [hlookup, lookup_emplace h, Option.or_assoc, List.lookup_cons]
      by_cases hkey : key = field.1
      · rw [if_pos hkey, Option.some_or, hkey, beq_self_eq_true]
      · rw [if_neg hkey, Option.none_or, beq_eq_false_iff_ne.mpr hkey]

theorem keysAscend_nil : KeysAscend ([] : List (String × β)) := List.Pairwise.nil

theorem keysAscend_emplaceAll (fields : List (String × β)) : KeysAscend (emplaceAll fields) :=
  (foldl_emplace keysAscend_nil).1

theorem mem_emplaceAll {field : String × β} (h : field ∈ emplaceAll fields) : field ∈ fields :=
  ((foldl_emplace keysAscend_nil).2.1 field h).elim nofun fun h => h

theorem lookup_emplaceAll : (emplaceAll fields).lookup key = fields.lookup key :=
  (foldl_emplace keysAscend_nil).2.2 key

end

/-! ## Reading and building values -/

namespace JsonValue

/-- An object of an initializer list. -/
def ofFields (fields : List (String × JsonValue φ)) : JsonValue φ := .object (emplaceAll fields)

/-- `type_name`. -/
def kind : JsonValue φ → String
  | null => "null"
  | boolean _ => "boolean"
  | integer _ | float _ => "number"
  | string _ => "string"
  | array _ => "array"
  | object _ => "object"

def isObject : JsonValue φ → Bool
  | object _ => true
  | _ => false

/-- `at`. -/
def member (key : String) : JsonValue φ → Except JsonError (JsonValue φ)
  | object fields =>
    match fields.lookup key with
    | some value => .ok value
    | none => .error (.keyNotFound key)
  | j => .error (.cannotUseAt j.kind)

def getString : JsonValue φ → Except JsonError String
  | string s => .ok s
  | j => .error (.typeMustBe "string" j.kind)

/-- `get` of a vector. -/
def getList (get : JsonValue φ → Except JsonError β) : JsonValue φ → Except JsonError (List β)
  | array elements => elements.mapM get
  | j => .error (.typeMustBe "array" j.kind)

/-- `get` of a map with strings as keys, which the fields enter in their order. -/
def getMap (get : JsonValue φ → Except JsonError β) : JsonValue φ → Except JsonError (List (String × β))
  | object fields => fields.mapM fun field => (get field.2).map (field.1, ·)
  | j => .error (.typeMustBe "object" j.kind)

/-- A value as memory holds it, over strings of a kind: the keys of an object ascend, and an integer
has 64 bits, with a sign or without. -/
inductive Held (texts : String → Prop) : JsonValue φ → Prop
  | null : Held texts .null
  | boolean (b : Bool) : Held texts (.boolean b)
  | integer {n : Int} (h : -2 ^ 63 ≤ n ∧ n < 2 ^ 64) : Held texts (.integer n)
  | float (x : φ) : Held texts (.float x)
  | string {s : String} (h : texts s) : Held texts (.string s)
  | array {elements : List (JsonValue φ)} (h : ∀ j ∈ elements, Held texts j) :
      Held texts (.array elements)
  | object {fields : List (String × JsonValue φ)} (hascend : KeysAscend fields)
      (hkeys : ∀ field ∈ fields, texts field.1) (h : ∀ field ∈ fields, Held texts field.2) :
      Held texts (.object fields)

end JsonValue

/-- A JSON library: its parser and serializer, how it converts other numbers to a signed type of a
width, and from which of these types it makes no difference between numbers and booleans. -/
structure JsonLibrary (φ : Type) where
  parse : List Char → Except JsonError (JsonValue φ)
  dump : (indent : Nat) → JsonValue φ → Except JsonError (List Char)
  truncate : (bits : Nat) → φ → Int
  takesBooleans : (bits : Nat) → Bool

namespace JsonLibrary

/-- `get` of a signed type. -/
def getInteger (json : JsonLibrary φ) (bits : Nat) : JsonValue φ → Except JsonError Int
  | .integer n => .ok (n.bmod (2 ^ bits))
  | .float x => .ok (json.truncate bits x)
  | .boolean b => if json.takesBooleans bits then .ok b.toInt else .error (.typeMustBe "number" "boolean")
  | j => .error (.typeMustBe "number" j.kind)

/-- Strings in the encoding that the library reads and writes. -/
def Text (s : String) : Prop := ValidUtf8 s.toList

theorem text_of_ascii {s : String} (h : (s.toList.all fun c => decide (c.toNat < 128)) = true) :
    Text s := validUtf8_of_ascii fun c hc => of_decide_eq_true (List.all_eq_true.mp h c hc)

/-- A parsed value is one that memory holds, over texts, and conversions give numbers of the type
asked for. -/
structure Lawful (json : JsonLibrary φ) : Prop where
  parse_held : ∀ {text j}, json.parse text = .ok j → j.Held Text
  truncate_fits : ∀ bits x, FitsSigned bits (json.truncate bits x)

/-- Writing a value and reading it back: a value over texts is written, and a value that was written
is read again, also with a line end behind it. -/
structure Inverse (json : JsonLibrary φ) (indent : Nat) (j : JsonValue φ) : Prop where
  dump : j.Held Text → ∃ text, json.dump indent j = .ok text
  parse : j.Held (fun _ => True) → ∀ {text}, json.dump indent j = .ok text →
    json.parse (text ++ ['\n']) = .ok j

end JsonLibrary

namespace JsonValue

section
variable {texts : String → Prop} {key s : String} {j j' : JsonValue φ}
  {fields : List (String × JsonValue φ)}

@[simp] theorem member_ofFields : (ofFields fields).member key =
    match fields.lookup key with
    | some value => .ok value
    | none => .error (.keyNotFound key) := by
  rw [ofFields, member, lookup_emplaceAll]

theorem Held.ofFields (h : ∀ field ∈ fields, texts field.1 ∧ Held texts field.2) :
    (ofFields fields).Held texts :=
  .object (keysAscend_emplaceAll fields) (fun field hfield => (h field (mem_emplaceAll hfield)).1)
    fun field hfield => (h field (mem_emplaceAll hfield)).2

theorem Held.ofFits {n : Int} (h : FitsSigned 64 n) : (JsonValue.integer n : JsonValue φ).Held texts := by
  unfold FitsSigned at h
  exact .integer (by omega)

theorem held_string : (string s : JsonValue φ).Held texts ↔ texts s :=
  ⟨fun h => by cases h with | string h => exact h, .string⟩

theorem held_array {elements : List (JsonValue φ)} :
    (array elements).Held texts ↔ ∀ j ∈ elements, j.Held texts :=
  ⟨fun h => by cases h with | array h => exact h, .array⟩

/-- An object that was built of the entries of a map. -/
theorem held_object {build : β → JsonValue φ} {entries : List (String × β)} (hascend : KeysAscend entries)
    (h : ∀ entry ∈ entries, texts entry.1 ∧ (build entry.2).Held texts) :
    (object (entries.map fun entry => (entry.1, build entry.2))).Held texts := by
  refine .object ?_ ?_ ?_
  · rw [KeysAscend, List.map_map]
    exact hascend
  · exact List.forall_mem_map.mpr fun entry hentry => (h entry hentry).1
  · exact List.forall_mem_map.mpr fun entry hentry => (h entry hentry).2

theorem Held.mono {texts' : String → Prop} (h : j.Held texts) (htexts : ∀ s, texts s → texts' s) :
    j.Held texts' := by
  induction h with
  | null => exact .null
  | boolean b => exact .boolean b
  | integer h => exact .integer h
  | float x => exact .float x
  | string h => exact .string (htexts _ h)
  | array _ ih => exact .array ih
  | object hascend hkeys _ ih => exact .object hascend (fun field hf => htexts _ (hkeys field hf)) ih

theorem member_ok : j.member key = .ok j' ↔ ∃ fields, j = object fields ∧ fields.lookup key = some j' := by
  cases j with
  | object fields =>
    rw [member]
    cases hlookup : fields.lookup key <;> simp [hlookup]
  | _ => simp [member]

theorem Held.member (h : j.Held texts) (hmember : j.member key = .ok j') : j'.Held texts := by
  obtain ⟨fields, rfl, hlookup⟩ := member_ok.mp hmember
  cases h with
  | object _ _ hfields => exact hfields _ (mem_of_lookup hlookup)

theorem getString_ok : j.getString = .ok s ↔ j = string s := by
  cases j <;> simp [getString]

theorem Held.getString (h : j.Held texts) (hget : j.getString = .ok s) : texts s := by
  obtain rfl := getString_ok.mp hget
  cases h with
  | string h => exact h

/-! ### Lists and maps -/

theorem mapM_ok_iff {ε α : Type} {f : α → Except ε β} {as : List α} {bs : List β} :
    as.mapM f = .ok bs ↔ List.Forall₂ (fun a b => f a = .ok b) as bs := by
  refine ⟨Except.forall₂_of_mapM, fun h => ?_⟩
  induction h with
  | nil => rfl
  | cons h _ ih =>
    rw [List.mapM_cons, h, ih]
    rfl

/-- A list on which each element is checked and then turned into a value. -/
theorem mapM_ok_iff_map {ε α : Type} {f : α → Except ε β} {as : List α} {bs : List β} {Q : α → Prop}
    {g : α → β} (h : ∀ a b, f a = .ok b ↔ Q a ∧ b = g a) :
    as.mapM f = .ok bs ↔ (∀ a ∈ as, Q a) ∧ bs = as.map g := by
  rw [mapM_ok_iff]
  simp only [h]
  induction as generalizing bs with
  | nil => simp
  | cons a as ih =>
    rw [List.forall₂_cons_left_iff]
    simp only [ih, List.forall_mem_cons, List.map_cons]
    constructor
    · intro ⟨b, bs', ⟨ha, hb⟩, ⟨has, hbs⟩, heq⟩
      exact ⟨⟨ha, has⟩, by rw [heq, hb, hbs]⟩
    · intro ⟨⟨ha, has⟩, heq⟩
      exact ⟨_, _, ⟨ha, rfl⟩, ⟨has, rfl⟩, heq⟩

variable {get : JsonValue φ → Except JsonError β} {build : β → JsonValue φ} {values : List β}
  {entries : List (String × β)} {P : β → Prop}

theorem getList_ok : j.getList get = .ok values ↔
    ∃ elements, j = array elements ∧ List.Forall₂ (fun j b => get j = .ok b) elements values := by
  cases j with
  | array elements => simp [getList, mapM_ok_iff]
  | _ => simp [getList]

/-- A list that was built of values is read back. -/
theorem getList_array (h : ∀ b ∈ values, get (build b) = .ok b) :
    (array (values.map build)).getList get = .ok values :=
  getList_ok.mpr ⟨_, rfl, List.forall₂_map_left_iff.mpr (List.forall₂_same.mpr h)⟩

theorem Held.getList (h : j.Held texts) (hP : ∀ {j b}, Held texts j → get j = .ok b → P b)
    (hget : j.getList get = .ok values) : ∀ b ∈ values, P b := by
  obtain ⟨elements, rfl, hall⟩ := getList_ok.mp hget
  cases h with
  | array h =>
    intro b hb
    obtain ⟨j, hj, hgot⟩ := hall.exists_left hb
    exact hP (h j hj) hgot

theorem getMap_ok : j.getMap get = .ok entries ↔ ∃ fields, j = object fields ∧
    List.Forall₂ (fun field entry => field.1 = entry.1 ∧ get field.2 = .ok entry.2) fields entries := by
  have hfield : ∀ (field : String × JsonValue φ) (entry : String × β),
      (get field.2).map (field.1, ·) = .ok entry ↔ field.1 = entry.1 ∧ get field.2 = .ok entry.2 := by
    intro field entry
    cases get field.2 with
    | error e => simp [Except.map]
    | ok b => simp [Except.map, Prod.ext_iff]
  cases j with
  | object fields => simp [getMap, mapM_ok_iff, hfield]
  | _ => simp [getMap]

theorem getMap_object (h : ∀ entry ∈ entries, get (build entry.2) = .ok entry.2) :
    (object (entries.map fun entry => (entry.1, build entry.2))).getMap get = .ok entries :=
  getMap_ok.mpr ⟨_, rfl, List.forall₂_map_left_iff.mpr
    (List.forall₂_same.mpr fun entry hentry => ⟨rfl, h entry hentry⟩)⟩

theorem Held.getMap (h : j.Held texts) (hP : ∀ {j b}, Held texts j → get j = .ok b → P b)
    (hget : j.getMap get = .ok entries) :
    KeysAscend entries ∧ ∀ entry ∈ entries, texts entry.1 ∧ P entry.2 := by
  obtain ⟨fields, rfl, hall⟩ := getMap_ok.mp hget
  have hkeys : fields.map Prod.fst = entries.map Prod.fst := by
    clear h hget
    induction hall with
    | nil => rfl
    | cons hfield _ ih => rw [List.map_cons, List.map_cons, hfield.1, ih]
  cases h with
  | object hascend htexts hfields =>
    refine ⟨by rwa [KeysAscend, ← hkeys], fun entry hentry => ?_⟩
    obtain ⟨field, hfield, hread⟩ := hall.exists_left hentry
    exact ⟨hread.1 ▸ htexts field hfield, hP (hfields field hfield) hread.2⟩

end

end JsonValue

namespace JsonLibrary

variable {json : JsonLibrary φ} {bits : Nat} {n : Int} {j : JsonValue φ}

theorem getInteger_integer (h : FitsSigned bits n) : json.getInteger bits (.integer n) = .ok n :=
  congrArg Except.ok h.bmod_eq

theorem Lawful.getInteger_fits (hjson : json.Lawful) (hbits : 2 ≤ bits)
    (h : json.getInteger bits j = .ok n) : FitsSigned bits n := by
  cases j with
  | integer m =>
    obtain rfl := Except.ok.inj h
    exact fitsSigned_bmod bits m
  | float x =>
    obtain rfl := Except.ok.inj h
    exact hjson.truncate_fits bits x
  | boolean b =>
    rw [getInteger] at h
    split at h
    · obtain rfl := Except.ok.inj h
      have hpow : 2 ^ 2 ≤ 2 ^ bits := Nat.pow_le_pow_right (by decide) hbits
      cases b <;> simp only [FitsSigned, Bool.toInt_true, Bool.toInt_false] <;> omega
    · cases h
  | _ => cases h

end JsonLibrary
