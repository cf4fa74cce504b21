import HolderCore.Library.Json

/-! # JSON as text

What a program that keeps its own values as JSON relies on: a value over texts without fractions is
written, and what was written is read back (`JsonLibrary.Lossless`). The second part is a library that
does so: its serializer writes one line, or an indented text, and its parser reads both back. An indent
of zero stands for the one line. -/

open HolderCore (ValidUtf8 validUtf8_of_ascii)

/-! ## Changing the fields of an object -/

section
variable {φ β : Type} {key key' : String} {value : β} {fields : List (String × β)}

/-- `operator[]` and an assignment: a key that is there takes the new value. -/
def assign (key : String) (value : β) : List (String × β) → List (String × β)
  | [] => [(key, value)]
  | field :: fields =>
    if key < field.1 then (key, value) :: field :: fields
    else if key = field.1 then (key, value) :: fields
    else field :: assign key value fields

/-- `erase`. -/
def eraseKey (key : String) (fields : List (String × β)) : List (String × β) :=
  fields.filter fun field => field.1 != key

theorem mem_assign {field : String × β} (h : field ∈ assign key value fields) :
    field = (key, value) ∨ field ∈ fields := by
  induction fields with
  | nil => exact .inl (List.mem_singleton.mp h)
  | cons head fields ih =>
    rw [assign] at h
    split at h
    · exact List.mem_cons.mp h
    split at h
    · exact (List.mem_cons.mp h).imp_right (List.mem_cons_of_mem _)
    · obtain rfl | h := List.mem_cons.mp h
      · exact .inr List.mem_cons_self
      · exact (ih h).imp_right (List.mem_cons_of_mem _)

theorem keysAscend_assign (key : String) (value : β) (h : KeysAscend fields) :
    KeysAscend (assign key value fields) := by
  induction fields with
  | nil => exact List.pairwise_singleton _ _
  | cons head fields ih =>
    rw [assign]
    split
    · next hlt =>
      apply List.pairwise_cons.mpr
      refine ⟨fun key' hkey' => ?_, h⟩
      obtain ⟨field, hfield, rfl⟩ := List.mem_map.mp hkey'
      obtain rfl | hfield := List.mem_cons.mp hfield
      · exact hlt
      · exact hlt.trans (h.head field hfield)
    · next hle =>
      split
      · next heq =>
        apply List.pairwise_cons.mpr
        refine ⟨fun key' hkey' => ?_, h.tail⟩
        obtain ⟨field, hfield, rfl⟩ := List.mem_map.mp hkey'
        exact heq ▸ h.head field hfield
      · next hne =>
        apply List.pairwise_cons.mpr
        refine ⟨fun key' hkey' => ?_, ih h.tail⟩
        obtain ⟨field, hfield, rfl⟩ := List.mem_map.mp hkey'
        obtain rfl | hfield := mem_assign hfield
        · exact lt_of_le_of_ne (not_lt.mp hle) (Ne.symm hne)
        · exact h.head field hfield

theorem lookup_assign : (assign key value fields).lookup key' =
    if key' = key then some value else fields.lookup key' := by
  induction fields with
  | nil =>
    rw [assign, List.lookup_cons, List.lookup_nil]
    by_cases hkey : key' = key
    · rw [if_pos hkey, beq_iff_eq.mpr hkey]
    · rw [if_neg hkey, beq_eq_false_iff_ne.mpr hkey]
  | cons head fields ih =>
    obtain ⟨first, held⟩ := head
    rw [assign]
    by_cases hkey : key' = key
    · subst hkey
      rw [if_pos rfl]
      split
      · rw [List.lookup_cons, beq_self_eq_true]
      split
      · rw [List.lookup_cons, beq_self_eq_true]
      · next hne =>
        rw [List.lookup_cons, beq_eq_false_iff_ne.mpr hne, ih, if_pos rfl]
    · rw [if_neg hkey]
      split
      · rw [List.lookup_cons, beq_eq_false_iff_ne.mpr hkey]
      split
      · next heq =>
        simp only at heq
        subst heq
        simp only [List.lookup_cons, beq_eq_false_iff_ne.mpr hkey]
      · rw [List.lookup_cons, List.lookup_cons, ih, if_neg hkey]

/-- A field is what its key looks up. -/
theorem KeysAscend.lookup_of_mem {field : String × β} (h : KeysAscend fields) (hf : field ∈ fields) :
    fields.lookup field.1 = some field.2 := by
  induction fields with
  | nil => cases hf
  | cons head fields ih =>
    rw [List.lookup_cons]
    rcases List.mem_cons.mp hf with rfl | hf
    · rw [beq_self_eq_true]
    · rw [beq_eq_false_iff_ne.mpr (h.head field hf).ne', ih h.tail hf]

theorem keysAscend_eraseKey (key : String) (h : KeysAscend fields) : KeysAscend (eraseKey key fields) :=
  h.sublist (List.filter_sublist.map _)

theorem lookup_eraseKey : (eraseKey key fields).lookup key' =
    if key' = key then none else fields.lookup key' := by
  induction fields with
  | nil => simp [eraseKey]
  | cons field fields ih =>
    simp only [eraseKey] at ih
    rw [eraseKey, List.filter_cons]
    by_cases hkey : key' = key
    · subst hkey
      rw [if_pos rfl] at ih ⊢
      split
      · next hne => rw [List.lookup_cons, beq_eq_false_iff_ne.mpr (Ne.symm (by simpa using hne)), ih]
      · exact ih
    · rw [if_neg hkey] at ih ⊢
      split
      · rw [List.lookup_cons, List.lookup_cons, ih]
      · next heq =>
        have hfirst : field.1 = key := by simpa using heq
        rw [List.lookup_cons, ih, hfirst, beq_eq_false_iff_ne.mpr hkey]

theorem mem_eraseKey {field : String × β} (h : field ∈ eraseKey key fields) : field ∈ fields :=
  (List.mem_filter.mp h).1

end

/-! ## Values that are read back -/

section
variable {φ : Type}

/-- A value over texts without fractions. -/
inductive JsonValue.Plain : JsonValue φ → Prop where
  | null : Plain .null
  | boolean (b : Bool) : Plain (.boolean b)
  | integer {n : Int} (h : FitsSigned 64 n) : Plain (.integer n)
  | string {s : String} (h : JsonLibrary.Text s) : Plain (.string s)
  | array {elements : List (JsonValue φ)} (h : ∀ j ∈ elements, Plain j) : Plain (.array elements)
  | object {fields : List (String × JsonValue φ)} (hascend : KeysAscend fields)
    (hkeys : ∀ field ∈ fields, JsonLibrary.Text field.1) (h : ∀ field ∈ fields, Plain field.2) :
    Plain (.object fields)

theorem JsonValue.Plain.ofFields {fields : List (String × JsonValue φ)}
    (h : ∀ field ∈ fields, JsonLibrary.Text field.1 ∧ Plain field.2) : (ofFields fields).Plain :=
  .object (keysAscend_emplaceAll fields) (fun field hfield => (h field (mem_emplaceAll hfield)).1)
    fun field hfield => (h field (mem_emplaceAll hfield)).2

theorem JsonValue.Plain.fields {fields : List (String × JsonValue φ)}
    (h : (JsonValue.object fields).Plain) : KeysAscend fields ∧
      ∀ field ∈ fields, JsonLibrary.Text field.1 ∧ field.2.Plain := by
  cases h with
  | object hascend hkeys hvalues => exact ⟨hascend, fun field hf => ⟨hkeys field hf, hvalues field hf⟩⟩

/-- Every plain value is written as a text of the encoding that is not empty, on one line or indented,
and read back, also with a line end behind it. -/
structure JsonLibrary.Lossless (json : JsonLibrary φ) : Prop where
  parse_dump : ∀ (indent : Nat) {j : JsonValue φ}, j.Plain → ∃ text, json.dump indent j = .ok text ∧
    text ≠ [] ∧ ValidUtf8 text ∧ json.parse text = .ok j ∧ json.parse (text ++ ['\n']) = .ok j

end

namespace JsonText

/-! ## Strings and numbers -/

def hexDigit (n : Nat) : Char := "0123456789abcdef".toList.getD n '0'

def escape (c : Char) : List Char :=
  if c = '"' then ['\\', '"']
  else if c = '\\' then ['\\', '\\']
  else if c = '\n' then ['\\', 'n']
  else if c = '\r' then ['\\', 'r']
  else if c = '\t' then ['\\', 't']
  else if c.toNat < 32 then
    ['\\', 'u', '0', '0', hexDigit (c.toNat / 16), hexDigit (c.toNat % 16)]
  else [c]

/-- A text in double quotes, without the opening one. -/
def quoted (text : List Char) : List Char := text.flatMap escape ++ ['"']

def hexValue (c : Char) : Nat := "0123456789abcdef".toList.idxOf c

/-- The text up to the closing quote, and what comes after it. -/
def unquote : List Char → Option (List Char × List Char)
  | [] => none
  | '"' :: rest => some ([], rest)
  | '\\' :: 'n' :: rest => (unquote rest).map fun (text, rest) => ('\n' :: text, rest)
  | '\\' :: 'r' :: rest => (unquote rest).map fun (text, rest) => ('\r' :: text, rest)
  | '\\' :: 't' :: rest => (unquote rest).map fun (text, rest) => ('\t' :: text, rest)
  | '\\' :: 'u' :: '0' :: '0' :: high :: low :: rest =>
    (unquote rest).map fun (text, rest) => (Char.ofNat (hexValue high * 16 + hexValue low) :: text, rest)
  | '\\' :: c :: rest => (unquote rest).map fun (text, rest) => (c :: text, rest)
  | c :: rest => (unquote rest).map fun (text, rest) => (c :: text, rest)

def formatInt : Int → List Char
  | .ofNat n => Nat.toDigits 10 n
  | .negSucc n => '-' :: Nat.toDigits 10 (n + 1)

/-- The digits that a text starts with, as a number, and the rest. -/
def readNat (text : List Char) : Nat × List Char :=
  (Nat.ofDigitChars 10 (text.takeWhile (·.isDigit)) 0, text.dropWhile (·.isDigit))

def readInt : List Char → Int × List Char
  | '-' :: digits => (-((readNat digits).1 : Int), (readNat digits).2)
  | digits => ((readNat digits).1, (readNat digits).2)

/-! ## Values -/

/-- The line end and the indentation before an item. -/
def separator (indent level : Nat) : List Char :=
  if indent = 0 then [] else '\n' :: List.replicate (indent * level) ' '

/-- The text between a key and its value. -/
def colon (indent : Nat) : List Char := if indent = 0 then [':'] else [':', ' ']

mutual

def render (indent level : Nat) : JsonValue Empty → List Char
  | .null => "null".toList
  | .boolean true => "true".toList
  | .boolean false => "false".toList
  | .integer n => formatInt n
  | .float x => x.elim
  | .string s => '"' :: quoted s.toList
  | .array [] => ['[', ']']
  | .array (element :: elements) =>
    '[' :: (separator indent (level + 1) ++ (render indent (level + 1) element ++
      renderElements indent level elements))
  | .object [] => ['{', '}']
  | .object ((key, value) :: fields) =>
    '{' :: (separator indent (level + 1) ++ '"' :: (quoted key.toList ++ (colon indent ++
      (render indent (level + 1) value ++ renderFields indent level fields))))

def renderElements (indent level : Nat) : List (JsonValue Empty) → List Char
  | [] => separator indent level ++ [']']
  | element :: elements =>
    ',' :: (separator indent (level + 1) ++ (render indent (level + 1) element ++
      renderElements indent level elements))

def renderFields (indent level : Nat) : List (String × JsonValue Empty) → List Char
  | [] => separator indent level ++ ['}']
  | (key, value) :: fields =>
    ',' :: (separator indent (level + 1) ++ '"' :: (quoted key.toList ++ (colon indent ++
      (render indent (level + 1) value ++ renderFields indent level fields))))

end

def skip : List Char → List Char := List.dropWhile fun c => c == ' ' || c == '\n' || c == '\r' || c == '\t'

mutual

def readValue : (fuel : Nat) → List Char → Option (JsonValue Empty × List Char)
  | 0, _ => none
  | fuel + 1, text =>
    match skip text with
    | 'n' :: 'u' :: 'l' :: 'l' :: rest => some (.null, rest)
    | 't' :: 'r' :: 'u' :: 'e' :: rest => some (.boolean true, rest)
    | 'f' :: 'a' :: 'l' :: 's' :: 'e' :: rest => some (.boolean false, rest)
    | '"' :: rest => (unquote rest).map fun (text, rest) => (.string (String.ofList text), rest)
    | '[' :: rest =>
      match skip rest with
      | ']' :: rest => some (.array [], rest)
      | _ => do
        let (element, rest) ← readValue fuel rest
        let (elements, rest) ← readElements fuel rest
        return (.array (element :: elements), rest)
    | '{' :: rest =>
      match skip rest with
      | '}' :: rest => some (.object [], rest)
      | _ => do
        let (field, rest) ← readField fuel rest
        let (fields, rest) ← readFields fuel rest
        return (.object (field :: fields), rest)
    | c :: rest =>
      if c.isDigit || c == '-' then some (.integer (readInt (c :: rest)).1, (readInt (c :: rest)).2)
      else none
    | [] => none

def readElements : (fuel : Nat) → List Char → Option (List (JsonValue Empty) × List Char)
  | 0, _ => none
  | fuel + 1, text =>
    match skip text with
    | ']' :: rest => some ([], rest)
    | ',' :: rest => do
      let (element, rest) ← readValue fuel rest
      let (elements, rest) ← readElements fuel rest
      return (element :: elements, rest)
    | _ => none

def readField : (fuel : Nat) → List Char → Option ((String × JsonValue Empty) × List Char)
  | 0, _ => none
  | fuel + 1, text =>
    match skip text with
    | '"' :: rest => do
      let (key, rest) ← unquote rest
      match skip rest with
      | ':' :: rest => do
        let (value, rest) ← readValue fuel rest
        return ((String.ofList key, value), rest)
      | _ => none
    | _ => none

def readFields : (fuel : Nat) → List Char → Option (List (String × JsonValue Empty) × List Char)
  | 0, _ => none
  | fuel + 1, text =>
    match skip text with
    | '}' :: rest => some ([], rest)
    | ',' :: rest => do
      let (field, rest) ← readField fuel rest
      let (fields, rest) ← readFields fuel rest
      return (field :: fields, rest)
    | _ => none

end

def parse (text : List Char) : Except JsonError (JsonValue Empty) :=
  match readValue (text.length + 1) text with
  | some (value, rest) => if skip rest = [] then .ok value else .error .parseError
  | none => .error .parseError

/-- The library. -/
def library : JsonLibrary Empty where
  parse := parse
  dump indent value := .ok (render indent 0 value)
  truncate _ x := x.elim
  takesBooleans bits := bits == 32

/-! ## Reading what was written -/

theorem unquote_quoted (text rest : List Char) : unquote (quoted text ++ rest) = some (text, rest) := by
  induction text with
  | nil => rfl
  | cons c text ih =>
    have hq : quoted (c :: text) ++ rest = escape c ++ (quoted text ++ rest) := by simp [quoted]
    rw [hq]
    unfold escape
    split
    · next h => simp [unquote, ih, h]
    split
    · next h => simp [unquote, ih, h]
    split
    · next h => simp [unquote, ih, h]
    split
    · next h => simp [unquote, ih, h]
    split
    · next h => simp [unquote, ih, h]
    split
    · next h =>
      have hhex : ∀ n : Fin 32,
          hexValue (hexDigit (n.val / 16)) * 16 + hexValue (hexDigit (n.val % 16)) = n.val := by decide
      simp [unquote, ih, hhex ⟨c.toNat, h⟩]
    · next hquote hslash _ _ _ _ =>
      rw [List.singleton_append, unquote.eq_def]
      split
      · cases ‹c :: _ = []›
      · next h => exact absurd (List.cons.inj h).1 hquote
      all_goals try exact absurd (List.cons.inj ‹c :: _ = '\\' :: _›).1 hslash
      · next c' rest' _ _ _ _ _ _ h =>
        obtain ⟨rfl, rfl⟩ := List.cons.inj h
        rw [ih]
        rfl

/-- No digit follows. -/
def EndsNumber (rest : List Char) : Prop := ∀ c ∈ rest.head?, c.isDigit = false

theorem readNat_append {digits rest : List Char} (hdigits : ∀ c ∈ digits, c.isDigit = true)
    (hrest : EndsNumber rest) : readNat (digits ++ rest) = (Nat.ofDigitChars 10 digits 0, rest) := by
  have htake : rest.takeWhile (·.isDigit) = [] ∧ rest.dropWhile (·.isDigit) = rest := by
    cases rest with
    | nil => exact ⟨rfl, rfl⟩
    | cons c rest =>
      have hc := hrest c rfl
      simp [hc]
  rw [readNat, List.takeWhile_append_of_pos hdigits, List.dropWhile_append_of_pos hdigits, htake.1,
    htake.2, List.append_nil]

theorem isDigit_toDigits {n : Nat} {c : Char} (h : c ∈ Nat.toDigits 10 n) : c.isDigit = true :=
  Nat.isDigit_of_mem_toDigits (by decide) (by decide) h

theorem readInt_formatInt (n : Int) {rest : List Char} (hrest : EndsNumber rest) :
    readInt (formatInt n ++ rest) = (n, rest) := by
  cases n with
  | ofNat n =>
    rw [formatInt, readInt.eq_def]
    split
    · next heq =>
      cases hd : Nat.toDigits 10 n with
      | nil => exact absurd hd (by simp)
      | cons c digits =>
        rw [hd, List.cons_append] at heq
        have := isDigit_toDigits (n := n) (c := '-') (by rw [hd, (List.cons.inj heq).1]; simp)
        cases this
    · rw [readNat_append (fun c => isDigit_toDigits) hrest]
      simp
  | negSucc n =>
    rw [formatInt, List.cons_append, readInt, readNat_append (fun c => isDigit_toDigits) hrest]
    simp only [Nat.ofDigitChars_ten_toDigits, Prod.mk.injEq, and_true]
    omega

/-! ### Blanks -/

def isBlank (c : Char) : Bool := c == ' ' || c == '\n' || c == '\r' || c == '\t'

theorem skip_cons {c : Char} (h : isBlank c = false) (rest : List Char) : skip (c :: rest) = c :: rest := by
  unfold isBlank at h
  rw [skip, List.dropWhile_cons, h]
  rfl

theorem skip_separator (indent level : Nat) (rest : List Char) :
    skip (separator indent level ++ rest) = skip rest := by
  unfold separator
  split
  · rfl
  · have hall : ∀ n, skip (List.replicate n ' ' ++ rest) = skip rest := by
      intro n
      induction n with
      | zero => rfl
      | succ n ih => rw [List.replicate_succ, List.cons_append, ← ih]; rfl
    rw [List.cons_append, ← hall]
    rfl

theorem endsNumber_separator {indent level : Nat} {c : Char} (hc : c.isDigit = false) (rest : List Char) :
    EndsNumber (separator indent level ++ c :: rest) := by
  unfold separator EndsNumber
  split
  · simp [hc]
  · simp

theorem formatInt_head (n : Int) : ∃ c cs, formatInt n = c :: cs ∧ (c.isDigit = true ∨ c = '-') := by
  cases n with
  | ofNat n =>
    rw [formatInt]
    cases hd : Nat.toDigits 10 n with
    | nil => exact absurd hd (by simp)
    | cons c digits => exact ⟨c, digits, rfl, .inl (isDigit_toDigits (n := n) (by simp [hd]))⟩
  | negSucc n => exact ⟨_, _, rfl, .inr rfl⟩

/-- A value starts with a character of its own. -/
theorem render_head (indent level : Nat) (value : JsonValue Empty) :
    ∃ c cs, render indent level value = c :: cs ∧ isBlank c = false ∧ c ≠ ']' ∧ c ≠ '}' := by
  have hdigit : ∀ c : Char, c.isDigit = true → isBlank c = false ∧ c ≠ ']' ∧ c ≠ '}' := by
    intro c hc
    refine ⟨?_, ?_, ?_⟩
    · by_contra hb
      simp only [isBlank, Bool.not_eq_false, Bool.or_eq_true, beq_iff_eq] at hb
      rcases hb with ((rfl | rfl) | rfl) | rfl <;> cases hc
    · rintro rfl
      cases hc
    · rintro rfl
      cases hc
  match value with
  | .null => exact ⟨_, _, by rw [render]; rfl, by decide⟩
  | .boolean true => exact ⟨_, _, by rw [render]; rfl, by decide⟩
  | .boolean false => exact ⟨_, _, by rw [render]; rfl, by decide⟩
  | .integer n =>
    obtain ⟨c, cs, he, hc⟩ := formatInt_head n
    refine ⟨c, cs, by rw [render, he], ?_⟩
    rcases hc with hc | rfl
    · exact hdigit c hc
    · decide
  | .string s => exact ⟨_, _, by rw [render], by decide⟩
  | .array [] => exact ⟨_, _, by rw [render], by decide⟩
  | .array (element :: elements) => exact ⟨_, _, by rw [render], by decide⟩
  | .object [] => exact ⟨_, _, by rw [render], by decide⟩
  | .object ((key, value) :: fields) => exact ⟨_, _, by rw [render], by decide⟩

/-! ### Values -/

theorem readValue_congr {text text' : List Char} (h : skip text = skip text') (fuel : Nat) :
    readValue fuel text = readValue fuel text' := by
  cases fuel with
  | zero => rfl
  | succ fuel => rw [readValue, readValue, h]

theorem readField_congr {text text' : List Char} (h : skip text = skip text') (fuel : Nat) :
    readField fuel text = readField fuel text' := by
  cases fuel with
  | zero => rfl
  | succ fuel => rw [readField, readField, h]

theorem endsNumber_elements (indent level : Nat) (elements : List (JsonValue Empty)) (rest : List Char) :
    EndsNumber (renderElements indent level elements ++ rest) := by
  cases elements with
  | nil =>
    rw [renderElements, List.append_assoc]
    exact endsNumber_separator (by decide) rest
  | cons element elements =>
    rw [renderElements, List.cons_append]
    simp [EndsNumber]

theorem endsNumber_fields (indent level : Nat) (fields : List (String × JsonValue Empty))
    (rest : List Char) : EndsNumber (renderFields indent level fields ++ rest) := by
  cases fields with
  | nil =>
    rw [renderFields, List.append_assoc]
    exact endsNumber_separator (by decide) rest
  | cons field fields =>
    rw [renderFields, List.cons_append]
    simp [EndsNumber]

/-- A field is read when its value is. -/
theorem readField_of_value {indent fuel : Nat} {key : String} {value : JsonValue Empty}
    {text rest : List Char} (h : readValue fuel text = some (value, rest)) :
    readField (fuel + 1) ('"' :: (quoted key.toList ++ (colon indent ++ text))) =
      some ((key, value), rest) := by
  have hcolon : ∃ text', skip (colon indent ++ text) = ':' :: text' ∧ skip text' = skip text := by
    unfold colon
    split
    · exact ⟨text, rfl, rfl⟩
    · exact ⟨' ' :: text, rfl, rfl⟩
  obtain ⟨text', hskip, hrest⟩ := hcolon
  rw [readField, skip_cons (by decide)]
  simp only [unquote_quoted, Option.bind_eq_bind, Option.bind_some, hskip,
    readValue_congr hrest, h, String.ofList_toList]
  rfl

mutual

theorem readValue_render (indent level : Nat) (value : JsonValue Empty) {rest : List Char}
    (hrest : EndsNumber rest) (fuel : Nat) (h : (render indent level value).length ≤ fuel) :
    readValue fuel (render indent level value ++ rest) = some (value, rest) := by
  match fuel, value with
  | 0, value =>
    obtain ⟨c, cs, he, -⟩ := render_head indent level value
    rw [he] at h
    cases h
  | fuel + 1, .null => rw [render]; rfl
  | fuel + 1, .boolean true => rw [render]; rfl
  | fuel + 1, .boolean false => rw [render]; rfl
  | fuel + 1, .integer n =>
    obtain ⟨c, cs, he, hc⟩ := formatInt_head n
    obtain ⟨c', cs', he', hblank, -⟩ := render_head indent level (.integer n)
    have hread := readInt_formatInt n hrest
    rw [render, he] at he'
    obtain ⟨rfl, rfl⟩ := List.cons.inj he'
    rw [render, readValue]
    rw [he, List.cons_append] at hread ⊢
    rw [skip_cons hblank]
    split
    all_goals try exact absurd hc (by rw [(List.cons.inj ‹c :: _ = _ :: _›).1]; decide)
    · next heq =>
      obtain ⟨rfl, rfl⟩ := List.cons.inj heq
      have hcond : (c.isDigit || c == '-') = true := by simpa using hc
      rw [if_pos hcond, hread]
    · next heq => cases heq
  | fuel + 1, .string s =>
    rw [render, List.cons_append, readValue, skip_cons (by decide)]
    simp [unquote_quoted]
  | fuel + 1, .array [] => rw [render]; rfl
  | fuel + 1, .array (element :: elements) =>
    obtain ⟨c, cs, he, hblank, hclose, -⟩ := render_head indent (level + 1) element
    simp only [render, List.length_cons, List.length_append] at h
    have helement := readValue_render indent (level + 1) element
      (endsNumber_elements indent level elements rest) fuel (by omega)
    have helements := readElements_render indent level elements rest fuel (by omega)
    simp only [render, List.cons_append, List.append_assoc]
    rw [readValue, skip_cons (by decide)]
    simp only [skip_separator, readValue_congr (skip_separator indent (level + 1) _)]
    rw [he, List.cons_append, skip_cons hblank]
    split
    · next heq => exact absurd (List.cons.inj heq).1 hclose
    · rw [← List.cons_append, ← he, helement, Option.bind_eq_bind, Option.bind_some]
      simp only [helements]
      rfl
  | fuel + 1, .object [] => rw [render]; rfl
  | fuel + 1, .object ((key, value) :: fields) =>
    simp only [render, List.length_cons, List.length_append, quoted, colon] at h
    match fuel with
    | 0 => omega
    | fuel + 1 =>
      have hvalue := readValue_render indent (level + 1) value
        (endsNumber_fields indent level fields rest) fuel (by omega)
      have hfields := readFields_render indent level fields rest (fuel + 1) (by omega)
      simp only [render, List.cons_append, List.append_assoc]
      rw [readValue, skip_cons (by decide)]
      simp only [skip_separator, readField_congr (skip_separator indent (level + 1) _)]
      rw [skip_cons (by decide)]
      simp only [readField_of_value hvalue, hfields, Option.bind_eq_bind, Option.bind_some]
      rfl

theorem readElements_render (indent level : Nat) (elements : List (JsonValue Empty))
    (rest : List Char) (fuel : Nat) (h : (renderElements indent level elements).length ≤ fuel) :
    readElements fuel (renderElements indent level elements ++ rest) = some (elements, rest) := by
  match fuel, elements with
  | 0, [] => simp [renderElements] at h
  | 0, element :: elements => simp [renderElements] at h
  | fuel + 1, [] =>
    rw [renderElements, List.append_assoc, readElements, skip_separator]
    rfl
  | fuel + 1, element :: elements =>
    simp only [renderElements, List.length_cons, List.length_append] at h
    have helement := readValue_render indent (level + 1) element
      (endsNumber_elements indent level elements rest) fuel (by omega)
    have helements := readElements_render indent level elements rest fuel (by omega)
    simp only [renderElements, List.cons_append, List.append_assoc]
    rw [readElements, skip_cons (by decide)]
    simp only [readValue_congr (skip_separator indent (level + 1) _), helement, helements,
      Option.bind_eq_bind, Option.bind_some]
    rfl

theorem readFields_render (indent level : Nat) (fields : List (String × JsonValue Empty))
    (rest : List Char) (fuel : Nat) (h : (renderFields indent level fields).length ≤ fuel) :
    readFields fuel (renderFields indent level fields ++ rest) = some (fields, rest) := by
  match fuel, fields with
  | 0, [] => simp [renderFields] at h
  | 0, (key, value) :: fields => simp [renderFields] at h
  | fuel + 1, [] =>
    rw [renderFields, List.append_assoc, readFields, skip_separator]
    rfl
  | fuel + 1, (key, value) :: fields =>
    simp only [renderFields, List.length_cons, List.length_append, quoted, colon] at h
    match fuel with
    | 0 => omega
    | fuel + 1 =>
      have hvalue := readValue_render indent (level + 1) value
        (endsNumber_fields indent level fields rest) fuel (by omega)
      have hfields := readFields_render indent level fields rest (fuel + 1) (by omega)
      simp only [renderFields, List.cons_append, List.append_assoc]
      rw [readFields, skip_cons (by decide)]
      simp only [readField_congr (skip_separator indent (level + 1) _), readField_of_value hvalue,
        hfields, Option.bind_eq_bind, Option.bind_some]
      rfl

end

/-- The parser reads what the serializer wrote, also with blanks behind it. -/
theorem parse_render (indent : Nat) (value : JsonValue Empty) {rest : List Char} (hrest : skip rest = []) :
    parse (render indent 0 value ++ rest) = .ok value := by
  have hends : EndsNumber rest := by
    cases rest with
    | nil => simp [EndsNumber]
    | cons c rest =>
      simp only [EndsNumber, List.head?_cons, Option.mem_some_iff, forall_eq']
      by_contra hdigit
      rw [skip, List.dropWhile_cons] at hrest
      split at hrest
      · next hblank =>
        simp only [Bool.or_eq_true, beq_iff_eq] at hblank
        rcases hblank with ((rfl | rfl) | rfl) | rfl <;> exact hdigit rfl
      · cases hrest
  have hread := readValue_render indent 0 value hends ((render indent 0 value ++ rest).length + 1)
    (by rw [List.length_append]; omega)
  simp only [parse, hread, hrest, if_true]

/-! ### The encoding -/

theorem validUtf8_ascii {text : List Char} (h : (text.all fun c => decide (c.toNat < 128)) = true) :
    ValidUtf8 text :=
  validUtf8_of_ascii fun c hc => of_decide_eq_true (List.all_eq_true.mp h c hc)

theorem validUtf8_cons {c : Char} {text : List Char} (hc : c.toNat < 128) (h : ValidUtf8 text) :
    ValidUtf8 (c :: text) := by
  have hone : ValidUtf8 [c] := validUtf8_of_ascii fun d hd => by rwa [List.mem_singleton.mp hd]
  exact hone.append h

/-- Bytes of a character beyond ASCII are not escaped. -/
theorem escape_of_large {c : Char} (h : 128 ≤ c.toNat) : escape c = [c] := by
  have hne : ∀ d : Char, d.toNat < 128 → c ≠ d := by
    rintro d hd rfl
    omega
  unfold escape
  rw [if_neg (hne _ (by decide)), if_neg (hne _ (by decide)), if_neg (hne _ (by decide)),
    if_neg (hne _ (by decide)), if_neg (hne _ (by decide)), if_neg (by omega)]

theorem escape_ascii {c : Char} (h : c.toNat < 128) : ∀ d ∈ escape c, d.toNat < 128 := by
  have hhex : ∀ n : Fin 16, (hexDigit n.val).toNat < 128 := by decide
  have hpair : ∀ a b : Char, a.toNat < 128 → b.toNat < 128 → ∀ d ∈ [a, b], d.toNat < 128 := by
    intro a b ha hb
    simp [ha, hb]
  unfold escape
  split
  · exact hpair _ _ (by decide) (by decide)
  split
  · exact hpair _ _ (by decide) (by decide)
  split
  · exact hpair _ _ (by decide) (by decide)
  split
  · exact hpair _ _ (by decide) (by decide)
  split
  · exact hpair _ _ (by decide) (by decide)
  split
  · next hlt =>
    have h1 := hhex ⟨c.toNat / 16, by omega⟩
    have h2 := hhex ⟨c.toNat % 16, by omega⟩
    simp only [List.mem_cons, List.not_mem_nil, or_false, forall_eq_or_imp, forall_eq]
    exact ⟨by decide, by decide, by decide, by decide, h1, h2⟩
  · simpa using h

/-- A character is encoded in one byte of ASCII, or in bytes beyond it. -/
theorem encodedChar_cases (c : Char) : (∃ d, HolderCore.encodedChar c = [d] ∧ d.toNat < 128) ∨
    ∀ d ∈ HolderCore.encodedChar c, 128 ≤ d.toNat := by
  have hbyte : ∀ n, n < 256 → (HolderCore.byteChar (UInt8.ofNat n)).toNat = n := by
    intro n hn
    rw [HolderCore.toNat_byteChar, UInt8.toNat_ofNat', Nat.mod_eq_of_lt hn]
  unfold HolderCore.encodedChar String.utf8EncodeChar
  dsimp only
  split
  · next h => exact .inl ⟨_, rfl, by rw [hbyte _ (by omega)]; omega⟩
  split
  · refine .inr ?_
    simp only [List.map_cons, List.map_nil, List.mem_cons, List.not_mem_nil, or_false, forall_eq_or_imp,
      forall_eq]
    exact ⟨by rw [hbyte _ (by omega)]; omega, by rw [hbyte _ (by omega)]; omega⟩
  split
  · refine .inr ?_
    simp only [List.map_cons, List.map_nil, List.mem_cons, List.not_mem_nil, or_false, forall_eq_or_imp,
      forall_eq]
    exact ⟨by rw [hbyte _ (by omega)]; omega, by rw [hbyte _ (by omega)]; omega,
      by rw [hbyte _ (by omega)]; omega⟩
  · refine .inr ?_
    simp only [List.map_cons, List.map_nil, List.mem_cons, List.not_mem_nil, or_false, forall_eq_or_imp,
      forall_eq]
    exact ⟨by rw [hbyte _ (by omega)]; omega, by rw [hbyte _ (by omega)]; omega,
      by rw [hbyte _ (by omega)]; omega, by rw [hbyte _ (by omega)]; omega⟩

theorem validUtf8_quoted {text : List Char} (h : ValidUtf8 text) : ValidUtf8 (quoted text) := by
  refine .append ?_ (validUtf8_ascii (by decide))
  obtain ⟨cs, rfl⟩ := h
  induction cs with
  | nil => exact .nil
  | cons c cs ih =>
    rw [List.flatMap_cons, List.flatMap_append]
    refine .append ?_ ih
    rcases encodedChar_cases c with ⟨d, he, hd⟩ | hlarge
    · rw [he, List.flatMap_singleton]
      exact validUtf8_of_ascii (escape_ascii hd)
    · rw [List.flatMap_congr fun d hd => escape_of_large (hlarge d hd), List.flatMap_singleton']
      exact ⟨[c], by simp⟩

theorem validUtf8_separator (indent level : Nat) : ValidUtf8 (separator indent level) := by
  unfold separator
  split
  · exact .nil
  · refine validUtf8_cons (by decide) (validUtf8_of_ascii fun c hc => ?_)
    rw [List.eq_of_mem_replicate hc]
    decide

theorem validUtf8_colon (indent : Nat) : ValidUtf8 (colon indent) := by
  unfold colon
  split <;> exact validUtf8_ascii (by decide)

theorem validUtf8_formatInt (n : Int) : ValidUtf8 (formatInt n) := by
  have hdigits : ∀ n, ∀ c ∈ Nat.toDigits 10 n, c.toNat < 128 := by
    intro n c hc
    have := isDigit_toDigits hc
    simp only [Char.isDigit, Bool.and_eq_true, decide_eq_true_eq] at this
    have hle : c.val.toNat ≤ 57 := this.2
    have : c.toNat = c.val.toNat := rfl
    omega
  cases n with
  | ofNat n => exact validUtf8_of_ascii (hdigits n)
  | negSucc n => exact validUtf8_cons (by decide) (validUtf8_of_ascii (hdigits _))

/-- A plain value is written in the encoding. -/
theorem validUtf8_render {value : JsonValue Empty} (h : value.Plain) (indent level : Nat) :
    ValidUtf8 (render indent level value) := by
  induction h generalizing level with
  | null => rw [render]; exact validUtf8_ascii (by decide)
  | boolean b => cases b <;> (rw [render]; exact validUtf8_ascii (by decide))
  | @integer n _ => rw [render]; exact validUtf8_formatInt n
  | string h => rw [render]; exact validUtf8_cons (by decide) (validUtf8_quoted h)
  | @array elements _ ih =>
    have hmore : ∀ elements : List (JsonValue Empty),
        (∀ j ∈ elements, ∀ level, ValidUtf8 (render indent level j)) →
        ValidUtf8 (renderElements indent level elements) := by
      intro elements hall
      induction elements with
      | nil => rw [renderElements]; exact .append (validUtf8_separator _ _) (validUtf8_ascii (by decide))
      | cons element elements ih =>
        rw [renderElements]
        exact validUtf8_cons (by decide) (.append (validUtf8_separator _ _)
          (.append (hall element List.mem_cons_self _)
            (ih fun j hj => hall j (List.mem_cons_of_mem _ hj))))
    cases elements with
    | nil => rw [render]; exact validUtf8_ascii (by decide)
    | cons element elements =>
      rw [render]
      exact validUtf8_cons (by decide) (.append (validUtf8_separator _ _)
        (.append (ih element List.mem_cons_self _)
          (hmore elements fun j hj => ih j (List.mem_cons_of_mem _ hj))))
  | @object fields _ hkeys _ ih =>
    have hmore : ∀ fields : List (String × JsonValue Empty),
        (∀ field ∈ fields, JsonLibrary.Text field.1 ∧ ∀ level, ValidUtf8 (render indent level field.2)) →
        ValidUtf8 (renderFields indent level fields) := by
      intro fields hall
      induction fields with
      | nil => rw [renderFields]; exact .append (validUtf8_separator _ _) (validUtf8_ascii (by decide))
      | cons field fields ih =>
        have hfield := hall field List.mem_cons_self
        rw [renderFields]
        exact validUtf8_cons (by decide) (.append (validUtf8_separator _ _) (validUtf8_cons (by decide)
          (.append (validUtf8_quoted hfield.1) (.append (validUtf8_colon _) (.append (hfield.2 _)
            (ih fun f hf => hall f (List.mem_cons_of_mem _ hf)))))))
    cases fields with
    | nil => rw [render]; exact validUtf8_ascii (by decide)
    | cons field fields =>
      rw [render]
      exact validUtf8_cons (by decide) (.append (validUtf8_separator _ _) (validUtf8_cons (by decide)
        (.append (validUtf8_quoted (hkeys field List.mem_cons_self)) (.append (validUtf8_colon _)
          (.append (ih field List.mem_cons_self _) (hmore fields fun f hf =>
            ⟨hkeys f (List.mem_cons_of_mem _ hf), ih f (List.mem_cons_of_mem _ hf)⟩))))))

theorem library_lossless : library.Lossless where
  parse_dump indent j h := by
    obtain ⟨c, cs, he, -⟩ := render_head indent 0 j
    have hparse := @parse_render indent j [] rfl
    rw [List.append_nil] at hparse
    exact ⟨_, rfl, by rw [he]; exact List.cons_ne_nil c cs, validUtf8_render h indent 0, hparse, parse_render indent j rfl⟩

end JsonText
