import HolderCore.Card.Rebuildable
import HolderCore.Project.LoadLemmas

/-! # Card references

`CardReferenceResolver::resolve`: a reference is a full id, the beginning of an id with at least eight
hexadecimal digits, or a title. References are read in lower case; the ids that a rebuild or a client
stores are kept as they are. -/

namespace HolderCore

/-- `CardScope`. -/
inductive CardScope where
  | live
  | trashed
  | either

/-- The clause of a query for the scope. -/
def CardScope.admits (scope : CardScope) (card : Card K) : Bool :=
  match scope with
  | .live => card.deletedAt.isNone
  | .trashed => card.deletedAt.isSome
  | .either => true

namespace CardRepo

def findById (db : Db K) (projectId cardId : String) (scope : CardScope) : Option (Card K) :=
  db.cards[cardId]?.filter fun c => c.projectId == projectId && scope.admits c

/-- The range of the index and the comparison of the beginning, in the order of the ids. -/
def findByIdPrefix (db : Db K) (projectId start : String) (scope : CardScope) (limit : Int) :
    List (Card K) :=
  (db.cards.rows.filter fun c => c.projectId == projectId && decide (start ≤ c.cardId) &&
    decide (c.cardId < start ++ "~") && c.cardId.toList.take start.length == start.toList &&
    scope.admits c).take limit.toNat

def findByExactTitle (db : Db K) (projectId title : String) (scope : CardScope) (limit : Int) :
    List (Card K) :=
  (db.cards.rows.filter fun c => c.projectId == projectId && c.title == title &&
    scope.admits c).take limit.toNat

end CardRepo

/-! ## Normalisation -/

def lowercaseHex (c : Char) : Char :=
  if 'A' ≤ c && c ≤ 'F' then Char.ofNat (c.toNat - 'A'.toNat + 'a'.toNat) else c

def lowercaseUuid (value : String) : String := String.ofList (value.toList.map lowercaseHex)

def isUuidHyphenPosition (index : Nat) : Bool :=
  index == 8 || index == 13 || index == 18 || index == 23

def hasUuidVersion (c : Char) : Bool := c == '4' || c == '7'

def hasUuidVariant (c : Char) : Bool :=
  let normalized := lowercaseHex c
  normalized == '8' || normalized == '9' || normalized == 'a' || normalized == 'b'

/-- The characters from a position on in lower case, and how many hexadecimal digits there are. -/
def normalizePositions : (index : Nat) → List Char → Option (List Char × Nat)
  | _, [] => some ([], 0)
  | index, c :: cs =>
    if isUuidHyphenPosition index then
      if c != '-' then none
      else (normalizePositions (index + 1) cs).map fun (rest, digits) => (c :: rest, digits)
    else if !isHexDigit c then none
    else
      (normalizePositions (index + 1) cs).map fun (rest, digits) => (lowercaseHex c :: rest, digits + 1)

def normalizeUuidPrefix (reference : String) : Option String :=
  if reference.length ≥ 36 then none
  else
    match normalizePositions 0 reference.toList with
    | none => none
    | some (normalized, hexDigits) =>
      if hexDigits < 8 then none
      else if normalized[14]?.any (!hasUuidVersion ·) then none
      else if normalized[19]?.any (!hasUuidVariant ·) then none
      else some (String.ofList normalized)

/-! ## The resolver -/

inductive CardReferenceStatus where
  | resolved
  | ambiguous
  | notFound

inductive CardReferenceMatchKind where
  | fullId
  | idPrefix
  | exactTitle

structure CardReferenceResult (K : Type) where
  status : CardReferenceStatus := .notFound
  matchKind : Option CardReferenceMatchKind := none
  card : Option (Card K) := none
  candidates : List (Card K) := []

def resolved (card : Card K) (matchKind : CardReferenceMatchKind) : CardReferenceResult K where
  status := .resolved
  matchKind := some matchKind
  card := some card

def ambiguous (candidates : List (Card K)) (matchKind : CardReferenceMatchKind) :
    CardReferenceResult K where
  status := .ambiguous
  matchKind := some matchKind
  candidates := candidates

def fromCandidates (candidates : List (Card K)) (matchKind : CardReferenceMatchKind) :
    CardReferenceResult K :=
  match candidates with
  | [] => {}
  | [card] => resolved card matchKind
  | candidates => ambiguous candidates matchKind

def resolveTitle (db : Db K) (projectId reference : String) (scope : CardScope) :
    CardReferenceResult K :=
  fromCandidates (CardRepo.findByExactTitle db projectId reference scope 2) .exactTitle

def resolve (db : Db K) (projectId reference : String) (scope : CardScope) : CardReferenceResult K :=
  if isValidUuid reference then
    match CardRepo.findById db projectId (lowercaseUuid reference) scope with
    | some card => resolved card .fullId
    | none => {}
  else
    match normalizeUuidPrefix reference with
    | none => resolveTitle db projectId reference scope
    | some start =>
      let found := fromCandidates (CardRepo.findByIdPrefix db projectId start scope 2) .idPrefix
      match found.status with
      | .notFound => resolveTitle db projectId reference scope
      | _ => found

/-! ## Letter case -/

theorem lowercaseHex_eq_or (c : Char) : lowercaseHex c = c ∨ c ∈ ['A', 'B', 'C', 'D', 'E', 'F'] := by
  by_cases h : 'A' ≤ c ∧ c ≤ 'F'
  · have hmem : ∀ n, n < 128 → 'A' ≤ Char.ofNat n → Char.ofNat n ≤ 'F' →
        Char.ofNat n ∈ ['A', 'B', 'C', 'D', 'E', 'F'] := by decide
    have hlt : c.toNat < 128 := lt_of_le_of_lt (UInt32.le_iff_toNat_le.mp h.2) (by decide)
    have hc := hmem c.toNat hlt
    rw [Char.ofNat_toNat] at hc
    exact .inr (hc h.1 h.2)
  · refine .inl (if_neg ?_)
    simpa using h

/-- A property of a character that none of the letters `A` to `F` changes in lower case. -/
theorem lowercaseHex_congr {α : Type} {f : Char → α}
    (h : ∀ c ∈ ['A', 'B', 'C', 'D', 'E', 'F'], f (lowercaseHex c) = f c) (c : Char) :
    f (lowercaseHex c) = f c := by
  rcases lowercaseHex_eq_or c with hc | hc
  · rw [hc]
  · exact h c hc

@[simp] theorem lowercaseHex_lowercaseHex (c : Char) : lowercaseHex (lowercaseHex c) = lowercaseHex c :=
  lowercaseHex_congr (by simp [lowercaseHex]) c

theorem isHexDigit_lowercaseHex (c : Char) : isHexDigit (lowercaseHex c) = isHexDigit c :=
  lowercaseHex_congr (by simp [lowercaseHex, isHexDigit]) c

theorem lowercaseHex_beq_hyphen (c : Char) : (lowercaseHex c == '-') = (c == '-') :=
  @lowercaseHex_congr _ (· == '-') (by simp [lowercaseHex]) c

theorem hasUuidVersion_lowercaseHex (c : Char) : hasUuidVersion (lowercaseHex c) = hasUuidVersion c :=
  lowercaseHex_congr (by simp [lowercaseHex, hasUuidVersion]) c

theorem hasUuidVariant_lowercaseHex (c : Char) : hasUuidVariant (lowercaseHex c) = hasUuidVariant c := by
  simp only [hasUuidVariant, lowercaseHex_lowercaseHex]

@[simp] theorem toList_lowercaseUuid (value : String) :
    (lowercaseUuid value).toList = value.toList.map lowercaseHex := String.toList_ofList

/-- Two texts are the same up to the case of the letters `A` to `F`. -/
def SameLetters (r p : String) : Prop := lowercaseUuid r = lowercaseUuid p

theorem SameLetters.map {r p : String} (h : SameLetters r p) :
    r.toList.map lowercaseHex = p.toList.map lowercaseHex := by
  rw [← toList_lowercaseUuid, ← toList_lowercaseUuid, h]

theorem SameLetters.length {r p : String} (h : SameLetters r p) : r.length = p.length := by
  have hlength := congrArg List.length h.map
  rwa [List.length_map, List.length_map, String.length_toList, String.length_toList] at hlength

/-- The characters of a UUID, each at its position. -/
def UuidChars (index : Nat) (cs : List Char) : Prop :=
  ∀ (i : Nat) (c : Char), cs[i]? = some c →
    if isUuidHyphenPosition (index + i) then c = '-' else isHexDigit c = true

theorem uuidChars_map {index : Nat} {cs : List Char} :
    UuidChars index (cs.map lowercaseHex) ↔ UuidChars index cs := by
  have hat : ∀ (i : Nat) (c : Char), (if isUuidHyphenPosition (index + i) then lowercaseHex c = '-'
      else isHexDigit (lowercaseHex c) = true) ↔
      if isUuidHyphenPosition (index + i) then c = '-' else isHexDigit c = true := fun i c => by
    have hhyphen : lowercaseHex c = '-' ↔ c = '-' := by
      rw [← beq_iff_eq, lowercaseHex_beq_hyphen, beq_iff_eq]
    simp only [hhyphen, isHexDigit_lowercaseHex]
  constructor
  · intro h i c hc
    exact (hat i c).mp (h i (lowercaseHex c) (by rw [List.getElem?_map, hc]; rfl))
  · intro h i c hc
    rw [List.getElem?_map] at hc
    obtain ⟨d, hd, rfl⟩ := Option.map_eq_some_iff.mp hc
    exact (hat i d).mpr (h i d hd)

theorem hasUuidVariant_eq (c : Char) : hasUuidVariant c =
    (c == '8' || c == '9' || c == 'a' || c == 'A' || c == 'b' || c == 'B') := by
  rcases lowercaseHex_eq_or c with hc | hc
  · have hA : (c == 'A') = false := beq_false_of_ne fun he => by
      rw [he] at hc
      exact absurd hc (by decide)
    have hB : (c == 'B') = false := beq_false_of_ne fun he => by
      rw [he] at hc
      exact absurd hc (by decide)
    simp only [hasUuidVariant, hc, hA, hB, Bool.or_false]
  · simp only [List.mem_cons, List.not_mem_nil, or_false] at hc
    rcases hc with rfl | rfl | rfl | rfl | rfl | rfl <;> rfl

theorem isValidUuid_iff {id : String} : isValidUuid id = true ↔ id.length = 36 ∧
    UuidChars 0 id.toList ∧ id.toList[14]?.any hasUuidVersion = true ∧
      id.toList[19]?.any hasUuidVariant = true := by
  have hvariant : hasUuidVariant = fun c =>
      (c == '8' || c == '9' || c == 'a' || c == 'A' || c == 'b' || c == 'B') :=
    funext hasUuidVariant_eq
  rw [hvariant]
  unfold isValidUuid UuidChars
  simp only [Bool.and_eq_true, beq_iff_eq, String.length_toList, List.all_eq_true, and_assoc]
  refine and_congr_right fun _ => and_congr_left fun _ => ?_
  constructor
  · intro h i c hc
    have hi := h _ (List.mem_iff_getElem?.mpr ⟨i, by rw [List.getElem?_mapIdx, hc]; rfl⟩)
    rw [Nat.zero_add, isUuidHyphenPosition]
    split at hi <;> simp_all
  · intro h b hb
    obtain ⟨i, hi⟩ := List.mem_iff_getElem?.mp hb
    rw [List.getElem?_mapIdx] at hi
    obtain ⟨c, hc, rfl⟩ := Option.map_eq_some_iff.mp hi
    have hic := h i c hc
    rw [Nat.zero_add, isUuidHyphenPosition] at hic
    split at hic <;> simp_all

/-- A reference in another letter case is as valid. -/
theorem SameLetters.isValidUuid {r id : String} (h : SameLetters r id)
    (hid : isValidUuid id = true) : isValidUuid r = true := by
  obtain ⟨hlength, hchars, hversion, hvariant⟩ := isValidUuid_iff.mp hid
  have hat : ∀ {f : Char → Bool} (i : Nat), (∀ c, f (lowercaseHex c) = f c) →
      id.toList[i]?.any f = true → r.toList[i]?.any f = true := by
    intro f i hf hany
    have hlower : ∀ o : Option Char, (o.map lowercaseHex).any f = o.any f := fun o => by
      cases o with
      | none => rfl
      | some c => exact hf c
    rw [← hlower, ← List.getElem?_map, h.map, List.getElem?_map, hlower]
    exact hany
  refine isValidUuid_iff.mpr ⟨h.length.trans hlength, ?_, hat 14 hasUuidVersion_lowercaseHex hversion,
    hat 19 hasUuidVariant_lowercaseHex hvariant⟩
  rw [← uuidChars_map, h.map, uuidChars_map]
  exact hchars

theorem normalizePositions_eq {index : Nat} {cs : List Char} (h : UuidChars index cs) :
    normalizePositions index cs = some (cs.map lowercaseHex, cs.countP isHexDigit) := by
  induction cs generalizing index with
  | nil => rfl
  | cons c cs ih =>
    have hrest := @ih (index + 1) fun i d hd => by
      have hi := h (i + 1) d hd
      rwa [show index + (i + 1) = index + 1 + i by omega] at hi
    have hc := h 0 c rfl
    rw [Nat.add_zero] at hc
    rw [normalizePositions, hrest]
    by_cases hpos : isUuidHyphenPosition index = true
    · rw [if_pos hpos] at hc
      subst hc
      rw [if_pos hpos, List.countP_cons_of_neg (by decide)]
      rfl
    · rw [if_neg hpos] at hc
      rw [if_neg hpos, List.countP_cons_of_pos hc]
      simp [hc]

/-- The beginning of an id, in any letter case, with at least eight hexadecimal digits. -/
structure Abbreviates (r p id : String) : Prop where
  begins : p.toList <+: id.toList
  short : p.length < 36
  digits : 8 ≤ p.toList.countP isHexDigit
  letters : SameLetters r p

theorem Abbreviates.normalized {r p id : String} (h : Abbreviates r p id)
    (hid : isValidUuid id = true) : normalizeUuidPrefix r = some (lowercaseUuid p) := by
  obtain ⟨-, hchars, hversion, hvariant⟩ := isValidUuid_iff.mp hid
  have hat : ∀ (i : Nat) (c : Char), p.toList[i]? = some c → id.toList[i]? = some c := fun i c hc => by
    obtain ⟨rest, hrest⟩ := h.begins
    rw [← hrest, List.getElem?_append_left (List.getElem?_eq_some_iff.mp hc).1]
    exact hc
  have hr : UuidChars 0 r.toList := by
    rw [← uuidChars_map, h.letters.map, uuidChars_map]
    exact fun i c hc => hchars i c (hat i c hc)
  have hdigits : r.toList.countP isHexDigit = p.toList.countP isHexDigit := by
    have hlower : ∀ cs : List Char, (cs.map lowercaseHex).countP isHexDigit = cs.countP isHexDigit :=
      fun cs => by
        rw [List.countP_map]
        exact List.countP_congr fun c _ => by rw [Function.comp_apply, isHexDigit_lowercaseHex]
    rw [← hlower, h.letters.map, hlower]
  have hpick : ∀ {f : Char → Bool} (i : Nat), (∀ c, f (lowercaseHex c) = f c) →
      id.toList[i]?.any f = true → (p.toList.map lowercaseHex)[i]?.any (!f ·) = false := by
    intro f i hf hany
    rw [List.getElem?_map]
    cases hc : p.toList[i]? with
    | none => rfl
    | some c =>
      rw [hat i c hc, Option.any_some] at hany
      simp [hf, hany]
  unfold normalizeUuidPrefix
  rw [if_neg (by rw [h.letters.length]; exact Nat.not_le.mpr h.short), normalizePositions_eq hr]
  simp only [hdigits, Nat.not_lt.mpr h.digits, if_false, h.letters.map,
    hpick 14 hasUuidVersion_lowercaseHex hversion, hpick 19 hasUuidVariant_lowercaseHex hvariant,
    Bool.false_eq_true]
  rfl

/-- A short reference is no UUID. -/
theorem Abbreviates.not_uuid {r p id : String} (h : Abbreviates r p id) : isValidUuid r = false := by
  by_contra hr
  have hlength := isValidUuid_length (by simpa using hr)
  have hshort := h.short
  rw [h.letters.length] at hlength
  omega

/-! ## The rows found -/

theorem lt_tilde {c : Char} (h : c = '-' ∨ isHexDigit c = true) : c < '~' := by
  rcases h with rfl | h
  · decide
  · simp only [isHexDigit, Bool.or_eq_true, Bool.and_eq_true, decide_eq_true_eq] at h
    rcases h with (⟨-, h⟩ | ⟨-, h⟩) | ⟨-, h⟩
    all_goals exact lt_of_le_of_lt h (by decide)

/-- The range of the index holds every id that begins so. -/
theorem range_of_begins {start id : String} (hid : isValidUuid id = true)
    (h : start.toList <+: id.toList) : start ≤ id ∧ id < start ++ "~" := by
  refine ⟨not_lt.mp fun hlt => h.le (String.lt_iff.mp hlt), String.lt_iff.mpr ?_⟩
  obtain ⟨rest, hrest⟩ := h
  rw [String.toList_append, ← hrest]
  refine List.append_left_lt ?_
  cases rest with
  | nil => decide
  | cons c cs => exact List.cons_lt_cons_iff.mpr (.inl (lt_tilde (isValidUuid_chars hid (by
      rw [← hrest]
      simp))))

theorem begins_iff_take {start id : String} :
    start.toList <+: id.toList ↔ id.toList.take start.length = start.toList := by
  rw [List.prefix_iff_eq_take, String.length_toList, eq_comm]

/-- A card of the project that a query of the scope sees. -/
structure InScope (db : Db K) (projectId : String) (scope : CardScope) (card : Card K) : Prop where
  stored : db.cards[card.cardId]? = some card
  project : card.projectId = projectId
  admitted : scope.admits card = true

section
variable {db : Db K} {projectId : String} {scope : CardScope} {card : Card K}

theorem InScope.find (h : InScope db projectId scope card) :
    CardRepo.findById db projectId card.cardId scope = some card := by
  rw [CardRepo.findById, h.stored, Option.filter_eq_some_iff]
  simp [h.project, h.admitted]

/-- The rows that a search finds are the cards in scope whose ids begin so. -/
theorem mem_begin_rows (hkeyed : db.Keyed)
    (hids : ∀ c, InScope db projectId scope c → isValidUuid c.cardId = true) {start : String} :
    card ∈ db.cards.rows.filter (fun c => c.projectId == projectId && decide (start ≤ c.cardId) &&
        decide (c.cardId < start ++ "~") && c.cardId.toList.take start.length == start.toList &&
        scope.admits c) ↔
      InScope db projectId scope card ∧ start.toList <+: card.cardId.toList := by
  simp only [List.mem_filter, Map.mem_rows, Bool.and_eq_true, beq_iff_eq, decide_eq_true_eq,
    ← begins_iff_take]
  constructor
  · rintro ⟨⟨id, hrow⟩, ⟨⟨⟨hproject, -⟩, -⟩, hbegins⟩, hscope⟩
    exact ⟨⟨by rw [hkeyed id card hrow]; exact hrow, hproject, hscope⟩, hbegins⟩
  · rintro ⟨h, hbegins⟩
    obtain ⟨hle, hlt⟩ := range_of_begins (hids card h) hbegins
    exact ⟨⟨card.cardId, h.stored⟩, ⟨⟨⟨h.project, hle⟩, hlt⟩, hbegins⟩, h.admitted⟩

theorem fromCandidates_one {found : List (Card K)} (hnodup : found.Nodup) (hmem : card ∈ found)
    (hone : ∀ d ∈ found, d = card) (kind : CardReferenceMatchKind) :
    fromCandidates (found.take 2) kind = resolved card kind := by
  match found, hnodup, hmem, hone with
  | [c], _, hmem, _ =>
    rw [List.mem_singleton.mp hmem]
    rfl
  | c :: d :: rest, hnodup, _, hone =>
    have hc := hone c (by simp)
    have hd := hone d (by simp)
    simp [hc, hd] at hnodup

theorem fromCandidates_more {found : List (Card K)} {other : Card K} (hmem : card ∈ found)
    (hother : other ∈ found) (hne : other ≠ card) (kind : CardReferenceMatchKind) :
    ∃ candidates, fromCandidates (found.take 2) kind = ambiguous candidates kind := by
  match found, hmem, hother with
  | [c], hmem, hother =>
    exact absurd ((List.mem_singleton.mp hother).trans (List.mem_singleton.mp hmem).symm) hne
  | c :: d :: rest, _, _ => exact ⟨[c, d], rfl⟩

/-- What is claimed of one card: its id in any letter case resolves to it, and so does every beginning
of the id with eight hexadecimal digits that no other card in scope shares. -/
structure Referable (db : Db K) (projectId : String) (scope : CardScope) (card : Card K) : Prop where
  full : ∀ r, SameLetters r card.cardId → ∃ kind, resolve db projectId r scope = resolved card kind
  one : ∀ r p, p.toList <+: card.cardId.toList → 8 ≤ p.toList.countP isHexDigit → SameLetters r p →
    (∀ d, InScope db projectId scope d → p.toList <+: d.cardId.toList → d = card) →
      ∃ kind, resolve db projectId r scope = resolved card kind
  more : ∀ r p, p.toList <+: card.cardId.toList → 8 ≤ p.toList.countP isHexDigit → SameLetters r p →
    (∃ d, InScope db projectId scope d ∧ p.toList <+: d.cardId.toList ∧ d ≠ card) →
      ∃ candidates kind, resolve db projectId r scope = ambiguous candidates kind

theorem InScope.lowercase_find (hkeyed : db.Keyed) {id : String}
    (h : CardRepo.findById db projectId id scope = some card) : card.cardId = id := by
  rw [CardRepo.findById, Option.filter_eq_some_iff] at h
  exact hkeyed id card h.1

theorem referable_of_lowercase (hkeyed : db.Keyed)
    (hids : ∀ c, InScope db projectId scope c → isValidUuid c.cardId = true)
    (hcard : InScope db projectId scope card) (hlower : lowercaseUuid card.cardId = card.cardId) :
    Referable db projectId scope card := by
  have hid := hids card hcard
  have hfull : ∀ r, SameLetters r card.cardId → resolve db projectId r scope = resolved card .fullId := by
    intro r hr
    rw [resolve, if_pos (hr.isValidUuid hid), hr, hlower, hcard.find]
  have hstart : ∀ {p : String}, p.toList <+: card.cardId.toList → lowercaseUuid p = p := by
    intro p hp
    obtain ⟨rest, hrest⟩ := hp
    have hmap : card.cardId.toList.map lowercaseHex = card.cardId.toList := by
      rw [← toList_lowercaseUuid, hlower]
    rw [← hrest, List.map_append] at hmap
    have hp := (List.append_inj hmap (List.length_map _)).1
    exact String.toList_inj.mp ((toList_lowercaseUuid p).trans hp)
  have hwhole : ∀ {p : String}, p.toList <+: card.cardId.toList → ¬ p.length < 36 →
      p = card.cardId := by
    intro p hp hlong
    refine String.toList_inj.mp (hp.eq_of_length_le ?_)
    rw [String.length_toList, String.length_toList, isValidUuid_length hid]
    omega
  have hsearch : ∀ {r p : String}, Abbreviates r p card.cardId →
      ∃ found : List (Card K), found.Nodup ∧
        (∀ d, d ∈ found ↔ InScope db projectId scope d ∧ p.toList <+: d.cardId.toList) ∧
        ∀ result : CardReferenceResult K, fromCandidates (found.take 2) .idPrefix = result →
          (∃ kind, result = resolved card kind) ∨ (∃ cs kind, result = ambiguous cs kind) →
            resolve db projectId r scope = result := by
    intro r p h
    refine ⟨_, ?_, fun d => mem_begin_rows hkeyed hids, fun result hresult hfound => ?_⟩
    · have hkeys : (db.cards.rows.map fun c : Card K => c.cardId).Nodup := Map.nodup_map_rows hkeyed
      have hrows : db.cards.rows.Nodup := hkeys.of_map
      exact hrows.filter _
    · rw [resolve, if_neg (by rw [h.not_uuid]; decide), h.normalized hid, hstart h.begins]
      have hfind : fromCandidates (CardRepo.findByIdPrefix db projectId p scope 2) .idPrefix =
          result := hresult
      simp only [hfind]
      rcases hfound with ⟨kind, rfl⟩ | ⟨candidates, kind, rfl⟩ <;> rfl
  refine ⟨fun r hr => ⟨_, hfull r hr⟩, fun r p hp hdigits hr hone => ?_, fun r p hp hdigits hr hmore => ?_⟩
  · by_cases hshort : p.length < 36
    · obtain ⟨found, hnodup, hmem, hresult⟩ := hsearch ⟨hp, hshort, hdigits, hr⟩
      refine ⟨.idPrefix, hresult _ ?_ (.inl ⟨_, rfl⟩)⟩
      refine fromCandidates_one hnodup ((hmem card).mpr ⟨hcard, hp⟩) (fun d hd => ?_) _
      obtain ⟨hscope, hbegins⟩ := (hmem d).mp hd
      exact hone d hscope hbegins
    · rw [hwhole hp hshort] at hr
      exact ⟨_, hfull r hr⟩
  · obtain ⟨d, hd, hbegins, hne⟩ := hmore
    have hshort : p.length < 36 := by
      by_contra hlong
      obtain rfl := hwhole hp hlong
      have hid' : card.cardId = d.cardId := String.toList_inj.mp (hbegins.eq_of_length_le (by
        rw [String.length_toList, String.length_toList, isValidUuid_length hid,
          isValidUuid_length (hids d hd)]))
      have hstored := hd.stored
      rw [← hid', hcard.stored] at hstored
      exact hne (Option.some.inj hstored).symm
    obtain ⟨found, hnodup, hmem, hresult⟩ := hsearch ⟨hp, hshort, hdigits, hr⟩
    obtain ⟨candidates, hambiguous⟩ := fromCandidates_more ((hmem card).mpr ⟨hcard, hp⟩)
      ((hmem d).mpr ⟨hd, hbegins⟩) hne .idPrefix
    exact ⟨candidates, .idPrefix, hresult _ hambiguous (.inr ⟨_, _, rfl⟩)⟩

theorem lowercase_of_referable (hkeyed : db.Keyed) (hid : isValidUuid card.cardId = true)
    (h : Referable db projectId scope card) : lowercaseUuid card.cardId = card.cardId := by
  obtain ⟨kind, hresolve⟩ := h.full card.cardId rfl
  rw [resolve, if_pos hid] at hresolve
  cases hfind : CardRepo.findById db projectId (lowercaseUuid card.cardId) scope with
  | none =>
    rw [hfind] at hresolve
    cases hresolve
  | some d =>
    rw [hfind] at hresolve
    have hd : d = card := Option.some.inj (congrArg CardReferenceResult.card hresolve)
    have hkey := InScope.lowercase_find hkeyed hfind
    rw [hd] at hkey
    exact hkey.symm

/-- The cards of a project can be referred to exactly when their ids are in lower case. -/
theorem referable_iff (hkeyed : db.Keyed)
    (hids : ∀ c : Card K, db.cards[c.cardId]? = some c → c.projectId = projectId →
      isValidUuid c.cardId = true) :
    (∀ c, InScope db projectId scope c → Referable db projectId scope c) ↔
      ∀ c, InScope db projectId scope c → lowercaseUuid c.cardId = c.cardId :=
  ⟨fun h c hc => lowercase_of_referable hkeyed (hids c hc.stored hc.project) (h c hc),
    fun h c hc =>
      referable_of_lowercase hkeyed (fun d hd => hids d hd.stored hd.project) hc (h c hc)⟩

end

/-- A project of one card. -/
def loneCard (id : String) : Db ℚ :=
  { (Db.empty : Db ℚ) with cards := (∅ : Map String (Card ℚ)).insert id (plainCard id "a" none 1) }

theorem loneCard_row {id : String} {key : String} {c : Card ℚ} (h : (loneCard id).cards[key]? = some c) :
    key = id ∧ c = plainCard id "a" none 1 := by
  rw [loneCard, Map.get_insert] at h
  split at h
  · next he => exact ⟨he.symm, (Option.some.inj h).symm⟩
  · simp at h

theorem loneCard_keyed (id : String) : (loneCard id).Keyed := fun key c h => by
  obtain ⟨rfl, rfl⟩ := loneCard_row h
  rfl

theorem lowercaseCard_referable : isValidUuid idA = true ∧
    ∀ c, InScope (loneCard idA) "home" .live c → Referable (loneCard idA) "home" .live c :=
  ⟨by decide, (referable_iff (loneCard_keyed idA) fun c hc _ => by
      obtain ⟨-, rfl⟩ := loneCard_row hc
      decide).mpr fun c hc => by
        obtain ⟨-, rfl⟩ := loneCard_row hc.stored
        decide⟩

/-- An id in upper case. -/
def idUpper : String := "AAAAAAAA-AAAA-4AAA-8AAA-AAAAAAAAAAAA"

/-- The card is stored under an id that no reference reads. -/
theorem uppercaseCard_lost : isValidUuid idUpper = true ∧
    InScope (loneCard idUpper) "home" .live (plainCard idUpper "a" none 1) ∧
    ¬ Referable (loneCard idUpper) "home" .live (plainCard idUpper "a" none 1) := by
  have hid : isValidUuid idUpper = true := by decide
  refine ⟨hid, ⟨(Map.get_insert ..).trans (if_pos rfl), rfl, rfl⟩, fun h => ?_⟩
  have hlower := lowercase_of_referable (loneCard_keyed idUpper) hid h
  revert hlower
  decide

end HolderCore
