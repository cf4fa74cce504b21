import HolderCore.Card.Moves

/-! # Where a move lands

Each of the eight intents names a parent and a place among its live children. Where no id begins or
ends with a blank and no live card is hidden, a move that succeeds leaves the card in that place and
every other card in its order. -/

/-- The way up from a parent does not come back to the card below it. -/
theorem Rooted.avoiding_child {α : Type} [DecidableEq α] {up : α → Option (Option α)} {x y : α}
    (h : Rooted up x) (hx : up x = some (some y)) : Rooted (avoiding up [x]) y := by
  refine (h.parent hx).mono fun z hz => ?_
  have hne : z ≠ x := by
    rintro rfl
    exact h.not_cycle (Relation.TransGen.head' hx hz)
  unfold avoiding
  rw [if_neg (by simpa using hne)]

namespace HolderCore

/-! ## Parents without blanks -/

theorem dropWhile_trimmed (p : α → Bool) (l : List α) :
    let trimmed := ((l.dropWhile p).reverse.dropWhile p).reverse
    ((trimmed.dropWhile p).reverse.dropWhile p).reverse = trimmed := by
  intro trimmed
  have hhead : trimmed.dropWhile p = trimmed := by
    cases htrim : trimmed with
    | nil => rfl
    | cons a rest =>
      -- What is left at the front is the first character that stays.
      have hprefix : trimmed <+: l.dropWhile p := by
        have hsuffix := List.dropWhile_suffix p (l := (l.dropWhile p).reverse)
        simpa [trimmed] using List.reverse_prefix.mpr hsuffix
      rw [htrim] at hprefix
      obtain ⟨tail, htail⟩ := hprefix
      rw [List.dropWhile_cons_of_neg]
      have hnot := List.head_dropWhile_not p (l := l) (by rw [← htail]; simp)
      simpa [← htail] using hnot
  rw [hhead]
  simp [trimmed, List.dropWhile_idempotent]

theorem normalizeParentId_idem (parent : Option String) :
    normalizeParentId (normalizeParentId parent) = normalizeParentId parent := by
  cases parent with
  | none => rfl
  | some raw =>
    by_cases hempty : (((raw.toList.dropWhile isBlank).reverse.dropWhile isBlank).reverse).isEmpty
    · simp [normalizeParentId, hempty]
    · have h := dropWhile_trimmed isBlank raw.toList
      simp only at h
      have hone : normalizeParentId (some raw) = some (String.ofList
          (((raw.toList.dropWhile isBlank).reverse.dropWhile isBlank).reverse)) := by
        simp only [normalizeParentId, if_neg hempty]
      rw [hone]
      simp only [normalizeParentId, String.toList_ofList, h, if_neg hempty]

/-- No live card of the project has an id that begins or ends with a blank. -/
def TrimmedIds (db : Db K) (projectId : String) : Prop :=
  ∀ c, LiveRow db projectId c → normalizeParentId (some c.cardId) = some c.cardId

/-- Every parent of a live card is one. -/
def ParentsLive (db : Db K) (projectId : String) : Prop :=
  ∀ c, LiveRow db projectId c → ∀ p, c.parentCardId = some p →
    ∃ b, LiveRow db projectId b ∧ b.cardId = p

theorem Browsed.parentsLive [SortKey K] {env : Env K} {w : World K} (hw : Browsed env w) :
    ParentsLive w.db env.project.projectId := by
  intro c hc p hp
  have hlive := hw.live
  rw [Forest.LiveRooted, Db.forest_live hw.tidy.project] at hlive
  have hup := liveUp_eq_some.mpr ⟨c, hc.row, hc.project, hc.live, hp⟩
  obtain ⟨q, hq⟩ := ((hlive _ _ hup).parent hup).node
  obtain ⟨b, hb, hproj, hdel, -⟩ := liveUp_eq_some.mp hq
  have hid := hw.tidy.keyed p b hb
  exact ⟨b, ⟨by rw [hid]; exact hb, hproj, hdel⟩, hid⟩

section
variable [LinearOrder K] {db : Db K} {projectId : String}

omit [LinearOrder K] in
theorem TrimmedIds.parent (ht : TrimmedIds db projectId) (hp : ParentsLive db projectId)
    {c : Card K} (hc : LiveRow db projectId c) :
    normalizeParentId c.parentCardId = c.parentCardId := by
  cases hpar : c.parentCardId with
  | none => rfl
  | some p =>
    obtain ⟨b, hb, rfl⟩ := hp c hc p hpar
    exact ht b hb

theorem TrimmedIds.scopeChildren (hk : db.Keyed) (ht : TrimmedIds db projectId)
    (hp : ParentsLive db projectId) (parent : Option String) :
    scopeChildren normalizeParentId db projectId parent = liveChildren db projectId parent := by
  refine scopeChildren_eq hk (scopeChildren_sorted ..) (scopeChildren_nodup hk _ _ _) fun c => ?_
  rw [mem_liveChildren hk]
  refine and_congr_right fun hc => ?_
  rw [ht.parent hp hc]

end
/-! ## What a request names -/

section
variable {K : Type}

/-- The parent of an override, or the card's own. -/
def requestedParent (source : Card K) (request : CardPlacementRequest) : Option String :=
  if request.hasParentCardId || request.parentCardId.isSome
  then normalizeParentId request.parentCardId else source.parentCardId

/-- The parent a request names for a card. Left and right stay under the card's own. -/
def namedParent (db : Db K) (source : Card K) (request : CardPlacementRequest) : Option String :=
  let parentOf (cardId : Option String) : Option String :=
    (cardId.bind (findCard db source.projectId)).bind (·.parentCardId)
  match request.intent with
  | .into => request.targetCardId
  | .before | .after => parentOf request.targetCardId
  | .toStart | .toEnd => requestedParent source request
  | .left | .right => source.parentCardId
  | .upLevel => parentOf source.parentCardId

/-- The cards before and after the place a request names in the live order of its parent. Left and
right keep the card's place where it has no such neighbour, or the request names another parent. -/
def NamedPlace (source : Card K) (request : CardPlacementRequest) (order front back : List String) :
    Prop :=
  let elsewhere := requestedParent source request ≠ source.parentCardId
  match request.intent with
  | .into | .toEnd | .upLevel => back = []
  | .toStart => front = []
  | .before => ∃ target, request.targetCardId = some target ∧ back.head? = some target
  | .after => ∃ target, request.targetCardId = some target ∧ front.getLast? = some target
  | .left =>
    (elsewhere ∨ front = []) ∧ order = front ++ source.cardId :: back ∨
      ¬elsewhere ∧ ∃ previous rest, back = previous :: rest ∧
        order = front ++ previous :: source.cardId :: rest
  | .right =>
    (elsewhere ∨ back = []) ∧ order = front ++ source.cardId :: back ∨
      ¬elsewhere ∧ ∃ next rest, front = rest ++ [next] ∧
        order = rest ++ source.cardId :: next :: back

end

theorem findIdx?_split {α : Type} {p : α → Bool} {l : List α} {i : Nat}
    (h : l.findIdx? p = some i) :
    ∃ front a back, l = front ++ a :: back ∧ front.length = i ∧ p a = true := by
  obtain ⟨hi, hp, -⟩ := List.findIdx?_eq_some_iff_getElem.mp h
  refine ⟨l.take i, l[i], l.drop (i + 1), ?_, by simp; omega, hp⟩
  simp

theorem without_split {cards front back : List (Card K)} {c : Card K}
    (hnodup : (cards.map (·.cardId)).Nodup) (h : cards = front ++ c :: back) :
    without cards [c.cardId] = front ++ back := by
  subst h
  have hne : ∀ d ∈ front ++ back, d.cardId ≠ c.cardId := by
    rw [List.map_append, List.map_cons, List.nodup_middle, ← List.map_append] at hnodup
    intro d hd he
    exact (List.nodup_cons.mp hnodup).1 (List.mem_map.mpr ⟨d, hd, he⟩)
  have hkeep : ∀ cards : List (Card K), (∀ d ∈ cards, d.cardId ≠ c.cardId) →
      cards.filter (fun d => !([c.cardId].contains d.cardId)) = cards := by
    intro cards h
    rw [List.filter_eq_self]
    intro d hd
    simpa using h d hd
  rw [without, List.filter_append, List.filter_cons_of_neg (by simp),
    hkeep _ fun d hd => hne d (List.mem_append_left _ hd),
    hkeep _ fun d hd => hne d (List.mem_append_right _ hd)]

namespace CardPlacementResolver
variable [SortKey K] {db : Db K} {projectId : String} {source : Card K}
  {request : CardPlacementRequest} {landing : Landing K}

/-- A landing in the place the request names. -/
structure LandsAt (db : Db K) (source : Card K) (request : CardPlacementRequest)
    (landing : Landing K) (index : Nat) : Prop where
  parent : landing.parent = namedParent db source request
  destination : landing.destination =
    without (liveChildren db source.projectId landing.parent) [source.cardId]
  bound : index ≤ landing.destination.length
  place : NamedPlace source request (liveOrder db source.projectId landing.parent)
    ((landing.destination.map (·.cardId)).take index)
    ((landing.destination.map (·.cardId)).drop index)

/-- A landing that leaves the card where the request names its place. -/
structure StaysAt (db : Db K) (source : Card K) (request : CardPlacementRequest) : Prop where
  parent : namedParent db source request = source.parentCardId
  place : ∃ front back, liveOrder db source.projectId source.parentCardId =
      front ++ source.cardId :: back ∧
    NamedPlace source request (liveOrder db source.projectId source.parentCardId) front back

/-- What a landing does at the index it has. -/
def Lands (db : Db K) (source : Card K) (request : CardPlacementRequest) (landing : Landing K) :
    Prop :=
  landing.index.elim (StaysAt db source request) (LandsAt db source request landing)

/-- Where `ToStart`, `ToEnd`, `Left` and `Right` put the card among the live cards of the parent. -/
def indexUnderParent (source : Card K) (request : CardPlacementRequest)
    (destination withSource : List (Card K)) : Option Nat :=
  match request.intent with
  | .toStart => if destination.isEmpty && requestedParent source request == source.parentCardId
    then none else some 0
  | .toEnd => if destination.isEmpty && requestedParent source request == source.parentCardId
    then none else some destination.length
  | intent => (withSource.findIdx? (·.cardId == source.cardId)).bind fun index =>
    if intent = .left then if 0 < index then some (index - 1) else none
    else if index + 1 < withSource.length then some (index + 1) else none

/-- The card under its parent without the blanks around its id. -/
def trimmed (source : Card K) : Card K :=
  { source with parentCardId := normalizeParentId source.parentCardId }

theorem landUnderParent_eq : landUnderParent db source request =
    if (requestedParent (trimmed source) request).any
        fun parent => !(findCard db source.projectId parent).any (·.live) then
      .error (.runtimeError "target_not_found")
    else .ok {
      parent := requestedParent (trimmed source) request
      destination := siblingsForParent db source.projectId
        (requestedParent (trimmed source) request) source.cardId
      index := indexUnderParent (trimmed source) request
        (siblingsForParent db source.projectId (requestedParent (trimmed source) request)
          source.cardId)
        (siblingsForParent db source.projectId (requestedParent (trimmed source) request) "")
      movedIntoTitle := none } := by
  have hparent : (if (request.hasParentCardId || request.parentCardId.isSome) = true then
      normalizeParentId request.parentCardId else normalizeParentId source.parentCardId) =
        requestedParent (trimmed source) request := rfl
  simp only [landUnderParent, hparent, bind, Except.bind, pure, Except.pure, throw, throwThe,
    MonadExceptOf.throw]
  split
  · next parent hsome =>
    rw [hsome, Option.any_some]
    split
    · rfl
    · rw [← hsome]
      rfl
  · next hnone =>
    have hnone : requestedParent (trimmed source) request = none := by
      cases hr : requestedParent (trimmed source) request with
      | none => rfl
      | some parent => exact absurd hr (hnone parent)
    simp only [indexUnderParent, hnone, Option.any_none, Bool.false_eq_true, if_false]
    rfl

theorem landUnderParent_ok (hown : normalizeParentId source.parentCardId = source.parentCardId)
    (h : landUnderParent db source request = .ok landing) :
    landing.parent = requestedParent source request ∧
      landing.destination = siblingsForParent db source.projectId (requestedParent source request)
        source.cardId ∧
      landing.index = indexUnderParent source request landing.destination
        (siblingsForParent db source.projectId (requestedParent source request) "") := by
  have htrimmed : trimmed source = source := by rw [trimmed, hown]
  rw [landUnderParent_eq, htrimmed] at h
  split at h
  · cases h
  · cases h
    exact ⟨rfl, rfl, rfl⟩

variable (hk : db.Keyed) (ht : TrimmedIds db source.projectId)
  (hp : ParentsLive db source.projectId)
include hk ht hp

theorem siblingsForParent_trimmed {parent : Option String}
    (hparent : normalizeParentId parent = parent) (excluded : String) :
    siblingsForParent db source.projectId parent excluded =
      without (liveChildren db source.projectId parent) [excluded] := by
  rw [siblingsForParent_eq hk, hparent, ht.scopeChildren hk hp]

theorem landAtTarget_lands
    (hintent : request.intent = .into ∨ request.intent = .before ∨ request.intent = .after)
    (h : landAtTarget db source request = .ok landing) : Lands db source request landing := by
  unfold landAtTarget at h
  simp only [bind, Except.bind, pure, Except.pure, throw, throwThe, MonadExceptOf.throw] at h
  split at h
  · next targetId htarget =>
    split at h
    · next target hfind =>
      obtain ⟨hfound, hlive⟩ := Option.filter_eq_some_iff.mp hfind
      obtain ⟨hrow, hproj⟩ := findCard_eq_some.mp hfound
      have hid := hk _ _ hrow
      have htargetRow : LiveRow db source.projectId target :=
        ⟨by rw [hid]; exact hrow, hproj, Card.live_iff.mp hlive⟩
      split at h
      · next hinto =>
        split at h
        · cases h
        · cases h
          have hnormal := ht target htargetRow
          refine ⟨?_, ?_, ?_, ?_⟩
          · simp only [namedParent, hinto, htarget, hid]
          · exact siblingsForParent_trimmed hk ht hp hnormal _
          · exact le_rfl
          · simp [NamedPlace, hinto]
      · next hinto =>
        split at h
        · next index hindex =>
          cases h
          have hnormal := ht.parent hp htargetRow
          have hnamed : namedParent db source request = target.parentCardId := by
            rcases hintent with he | he | he
            · exact absurd he hinto
            · simp [namedParent, he, htarget, hfound]
            · simp [namedParent, he, htarget, hfound]
          rw [hnormal] at hindex
          obtain ⟨front, a, back, hdest, rfl, ha⟩ := findIdx?_split hindex
          have ha : a.cardId = targetId := by rw [← hid]; simpa using ha
          have hids : (siblingsForParent db source.projectId target.parentCardId
              source.cardId).map (·.cardId) =
              front.map (·.cardId) ++ targetId :: back.map (·.cardId) := by
            rw [hdest, List.map_append, List.map_cons, ha]
          have hlen : (front.map (·.cardId)).length = front.length := List.length_map _
          refine ⟨?_, ?_, ?_, ?_⟩
          · rw [hnamed]
            exact hnormal
          · simp only [hnormal]
            exact siblingsForParent_trimmed hk ht hp hnormal _
          · simp only [hnormal, hdest, List.length_append, List.length_cons]
            split <;> omega
          · simp only [hnormal, hids]
            rcases hintent with he | he | he
            · exact absurd he hinto
            · have hne : request.intent ≠ .after := by rw [he]; decide
              rw [if_neg hne, ← hlen, List.take_left, List.drop_left]
              simp only [NamedPlace, he]
              exact ⟨targetId, htarget, rfl⟩
            · rw [if_pos he, ← hlen, List.take_length_add_append, List.drop_length_add_append]
              simp only [NamedPlace, he]
              exact ⟨targetId, htarget, by simp⟩
        · cases h
    · cases h
  · cases h

theorem landUpLevel_lands (hsource : LiveRow db source.projectId source)
    (hintent : request.intent = .upLevel) (h : landUpLevel db source = .ok landing) :
    Lands db source request landing := by
  unfold landUpLevel at h
  rw [ht.parent hp hsource] at h
  simp only [pure, Except.pure, throw, throwThe, MonadExceptOf.throw] at h
  split at h
  · next currentParent hpar =>
    cases h
    obtain ⟨b, hb, hbid⟩ := hp source hsource _ hpar
    have hfind : findCard db source.projectId currentParent = some b :=
      findCard_eq_some.mpr ⟨by rw [← hbid]; exact hb.row, hb.project⟩
    have hgrand : (((findCard db source.projectId currentParent).filter (·.live)).bind fun p =>
        normalizeParentId p.parentCardId) = b.parentCardId := by
      rw [hfind, Option.filter_some_pos (by simpa using hb.live), Option.bind_some,
        ht.parent hp hb]
    have hnormal := ht.parent hp hb
    refine ⟨?_, ?_, le_rfl, ?_⟩
    · exact hgrand.trans (by simp [namedParent, hintent, hpar, hfind])
    · simp only [hgrand]
      exact siblingsForParent_trimmed hk ht hp hnormal _
    · simp [NamedPlace, hintent]
  · cases h

/-- Without blanks in the ids, excluding the empty id excludes nothing. -/
theorem siblingsForParent_all {parent : Option String} (hparent : normalizeParentId parent = parent) :
    siblingsForParent db source.projectId parent "" = liveChildren db source.projectId parent := by
  rw [siblingsForParent_trimmed hk ht hp hparent, without, List.filter_eq_self]
  intro c hc
  have hnormal := ht c ((mem_liveChildren hk).mp hc).1
  simp only [List.contains_cons, List.contains_nil, Bool.or_false, Bool.not_eq_true',
    beq_eq_false_iff_ne]
  intro he
  rw [he] at hnormal
  cases hnormal

/-- Under a parent a landing is among the live children there, where its intent points. -/
theorem landUnderParent_at (hsource : LiveRow db source.projectId source)
    (h : landUnderParent db source request = .ok landing) :
    landing.parent = requestedParent source request ∧
      landing.destination = without
        (liveChildren db source.projectId (requestedParent source request)) [source.cardId] ∧
      landing.index = indexUnderParent source request landing.destination
        (liveChildren db source.projectId (requestedParent source request)) := by
  have hown := ht.parent hp hsource
  have hnormal : normalizeParentId (requestedParent source request) =
      requestedParent source request := by
    unfold requestedParent
    split
    · exact normalizeParentId_idem _
    · exact hown
  obtain ⟨hparent, hdest, hindex⟩ := landUnderParent_ok hown h
  rw [siblingsForParent_all hk ht hp hnormal] at hindex
  rw [siblingsForParent_trimmed hk ht hp hnormal] at hdest
  exact ⟨hparent, hdest, hindex⟩

/-- Among its own siblings a card stays or moves to a place in the list without it. -/
theorem landAmongSiblings_lands (hsource : LiveRow db source.projectId source)
    (hintent : request.intent = .toStart ∨ request.intent = .toEnd ∨ request.intent = .left ∨
      request.intent = .right)
    (h : landUnderParent db source request = .ok landing)
    (helse : requestedParent source request = source.parentCardId) :
    Lands db source request landing := by
  have hmine : source ∈ liveChildren db source.projectId source.parentCardId :=
    (mem_liveChildren hk).mpr ⟨hsource, rfl⟩
  have hids : ((liveChildren db source.projectId source.parentCardId).map (·.cardId)).Nodup :=
    scopeChildren_nodup hk id _ _
  obtain ⟨hparent, hdest, hindex⟩ := landUnderParent_at hk ht hp hsource h
  obtain ⟨front, back, hsplit⟩ := List.append_of_mem hmine
  have horder : liveOrder db source.projectId source.parentCardId =
      front.map (·.cardId) ++ source.cardId :: back.map (·.cardId) := by
    rw [liveOrder, hsplit, List.map_append, List.map_cons]
  have hrest : landing.destination = front ++ back := by
    rw [hdest, helse]
    exact without_split hids hsplit
  have hlands : ∀ index, index ≤ (front ++ back).length → landing.index = some index →
      namedParent db source request = source.parentCardId →
      NamedPlace source request (liveOrder db source.projectId source.parentCardId)
        ((front.map (·.cardId) ++ back.map (·.cardId)).take index)
        ((front.map (·.cardId) ++ back.map (·.cardId)).drop index) →
      Lands db source request landing := by
    intro index hbound hsome hnamed hplace
    rw [Lands, hsome]
    refine ⟨by rw [hparent, helse, hnamed], by rw [hparent]; exact hdest, ?_, ?_⟩
    · rw [hrest]
      exact hbound
    · rw [hparent, helse, hrest, List.map_append]
      exact hplace
  have hstays : landing.index = none → namedParent db source request = source.parentCardId →
      NamedPlace source request (liveOrder db source.projectId source.parentCardId)
        (front.map (·.cardId)) (back.map (·.cardId)) → Lands db source request landing := by
    intro hnone hnamed hplace
    rw [Lands, hnone]
    exact ⟨hnamed, _, _, horder, hplace⟩
  have hfront : ∀ c ∈ front, c.cardId ≠ source.cardId := by
    rw [hsplit, List.map_append, List.map_cons, List.nodup_middle, ← List.map_append] at hids
    intro c hc he
    exact (List.nodup_cons.mp hids).1
      (List.mem_map.mpr ⟨c, List.mem_append_left _ hc, he⟩)
  have hfind : (liveChildren db source.projectId source.parentCardId).findIdx?
      (·.cardId == source.cardId) = some front.length := by
    rw [hsplit, List.findIdx?_append, List.findIdx?_eq_none_iff.mpr, List.findIdx?_cons]
    · simp
    · intro c hc
      simpa using hfront c hc
  have hcount : (liveChildren db source.projectId source.parentCardId).length =
      front.length + back.length + 1 := by
    rw [hsplit, List.length_append, List.length_cons]
    omega
  rw [helse] at hindex
  rcases hintent with he | he | he | he
  · simp only [indexUnderParent, he, hrest, helse, List.isEmpty_iff, beq_self_eq_true,
      Bool.and_true] at hindex
    have hnamed : namedParent db source request = source.parentCardId := by
      simp only [namedParent, he, helse]
    split at hindex
    · next hempty =>
      obtain ⟨rfl, rfl⟩ := List.append_eq_nil_iff.mp hempty
      exact hstays hindex hnamed (by simp [NamedPlace, he])
    · exact hlands 0 (Nat.zero_le _) hindex hnamed (by simp [NamedPlace, he])
  · simp only [indexUnderParent, he, hrest, helse, List.isEmpty_iff, beq_self_eq_true,
      Bool.and_true] at hindex
    have hnamed : namedParent db source request = source.parentCardId := by
      simp only [namedParent, he, helse]
    split at hindex
    · next hempty =>
      obtain ⟨rfl, rfl⟩ := List.append_eq_nil_iff.mp hempty
      exact hstays hindex hnamed (by simp [NamedPlace, he])
    · exact hlands _ le_rfl hindex hnamed (by simp [NamedPlace, he])
  · simp only [indexUnderParent, he, hfind, Option.bind_some, if_true] at hindex
    have hnamed : namedParent db source request = source.parentCardId := by
      simp only [namedParent, he]
    rcases List.eq_nil_or_concat front with rfl | ⟨front, previous, rfl⟩
    · refine hstays (by simpa using hindex) hnamed ?_
      rw [horder]
      simp [NamedPlace, he]
    · rw [List.concat_eq_append] at *
      refine hlands front.length (by simp) (by simpa using hindex) hnamed ?_
      have hlen : (front.map (·.cardId)).length = front.length := List.length_map _
      rw [horder, List.map_append, List.append_assoc, List.append_assoc, ← hlen, List.take_left,
        List.drop_left]
      simp [NamedPlace, he, helse]
  · have hne : request.intent ≠ .left := by rw [he]; decide
    simp only [indexUnderParent, he, hfind, Option.bind_some, hcount] at hindex
    have hnamed : namedParent db source request = source.parentCardId := by
      simp only [namedParent, he]
    cases back with
    | nil =>
      refine hstays (by simpa using hindex) hnamed ?_
      rw [horder]
      simp [NamedPlace, he]
    | cons next rest =>
      refine hlands (front.length + 1) (by simp) (by simpa using hindex) hnamed ?_
      have hlen : (front.map (·.cardId)).length = front.length := List.length_map _
      rw [horder, ← hlen, List.take_length_add_append, List.drop_length_add_append]
      simp [NamedPlace, he, helse]

/-- In the list of another parent the source is not. -/
theorem landElsewhere_lands (hsource : LiveRow db source.projectId source)
    (hintent : request.intent = .toStart ∨ request.intent = .toEnd ∨ request.intent = .left ∨
      request.intent = .right)
    (h : landUnderParent db source request = .ok landing)
    (helse : requestedParent source request ≠ source.parentCardId) :
    Lands db source request landing := by
  obtain ⟨hparent, hdest, hindex⟩ := landUnderParent_at hk ht hp hsource h
  obtain ⟨front, back, hsplit⟩ := List.append_of_mem ((mem_liveChildren hk).mpr ⟨hsource, rfl⟩)
  have horder : liveOrder db source.projectId source.parentCardId =
      front.map (·.cardId) ++ source.cardId :: back.map (·.cardId) := by
    rw [liveOrder, hsplit, List.map_append, List.map_cons]
  have hfind : (liveChildren db source.projectId (requestedParent source request)).findIdx?
      (·.cardId == source.cardId) = none := by
    rw [List.findIdx?_eq_none_iff]
    intro c hc
    obtain ⟨hrow, hpar⟩ := (mem_liveChildren hk).mp hc
    simp only [beq_eq_false_iff_ne]
    intro he
    have hsame := hrow.row
    rw [he, hsource.row] at hsame
    cases hsame
    exact helse hpar.symm
  rcases hintent with he | he | he | he
  · simp only [indexUnderParent, he, beq_eq_false_iff_ne.mpr helse, Bool.and_false,
      Bool.false_eq_true, if_false] at hindex
    rw [Lands, hindex]
    refine ⟨by rw [hparent]; simp [namedParent, he], by rw [hparent]; exact hdest, by simp, ?_⟩
    simp [NamedPlace, he]
  · simp only [indexUnderParent, he, beq_eq_false_iff_ne.mpr helse, Bool.and_false,
      Bool.false_eq_true, if_false] at hindex
    rw [Lands, hindex]
    refine ⟨by rw [hparent]; simp [namedParent, he], by rw [hparent]; exact hdest, by simp, ?_⟩
    simp [NamedPlace, he]
  · simp only [indexUnderParent, he, hfind, Option.bind_none] at hindex
    rw [Lands, hindex]
    exact ⟨by simp [namedParent, he], _, _, horder, by simp [NamedPlace, he, helse, horder]⟩
  · simp only [indexUnderParent, he, hfind, Option.bind_none] at hindex
    rw [Lands, hindex]
    exact ⟨by simp [namedParent, he], _, _, horder, by simp [NamedPlace, he, helse, horder]⟩

theorem landUnderParent_lands (hsource : LiveRow db source.projectId source)
    (hintent : request.intent = .toStart ∨ request.intent = .toEnd ∨ request.intent = .left ∨
      request.intent = .right)
    (h : landUnderParent db source request = .ok landing) : Lands db source request landing := by
  by_cases helse : requestedParent source request = source.parentCardId
  · exact landAmongSiblings_lands hk ht hp hsource hintent h helse
  · exact landElsewhere_lands hk ht hp hsource hintent h helse

/-- Every landing is in the place its request names. -/
theorem land_lands (hsource : LiveRow db source.projectId source)
    (h : land db source request = .ok landing) : Lands db source request landing := by
  unfold land at h
  split at h
  · next he => exact landAtTarget_lands hk ht hp (.inl he) h
  · next he => exact landAtTarget_lands hk ht hp (.inr (.inl he)) h
  · next he => exact landAtTarget_lands hk ht hp (.inr (.inr he)) h
  · next he => exact landUnderParent_lands hk ht hp hsource (.inl he) h
  · next he => exact landUnderParent_lands hk ht hp hsource (.inr (.inl he)) h
  · next he => exact landUnderParent_lands hk ht hp hsource (.inr (.inr (.inl he))) h
  · next he => exact landUnderParent_lands hk ht hp hsource (.inr (.inr (.inr he))) h
  · next he => exact landUpLevel_lands hk ht hp hsource he h

end CardPlacementResolver

/-! ## What a move leaves -/

section
variable [SortKey K] {window : BlockWindow K} {block : List (Card K)} {parent : Option String}

/-- The time of the insertion is only what the changed cards carry. -/
theorem BlockWindow.changed_at (window : BlockWindow K) (block : List (Card K))
    (parent : Option String) (u v : Int) : window.changed block parent u =
      (window.changed block parent v).map fun c => { c with updatedAt := u } := by
  have hcells : window.cells block parent u = (window.cells block parent v).map fun cell =>
      if cell.2 then ({ cell.1 with updatedAt := u }, true) else cell := by
    unfold BlockWindow.cells
    rw [List.map_zipWith]
    congr 1
    funext slot key
    unfold Slot.respace
    split <;> simp
  unfold BlockWindow.changed
  rw [hcells, List.filter_map, List.map_map, List.map_map]
  have hflags : (window.cells block parent v).filter ((·.2) ∘ fun cell =>
      if cell.2 then ({ cell.1 with updatedAt := u }, true) else cell) =
        (window.cells block parent v).filter (·.2) := by
    refine List.filter_congr fun cell _ => ?_
    simp only [Function.comp_apply]
    split <;> simp_all
  rw [hflags]
  refine List.map_congr_left fun cell hcell => ?_
  have hflag := (List.mem_filter.mp hcell).2
  simp only [Function.comp_apply, hflag, if_true]

end

theorem map_without_singleton {cards : List (Card K)} (hnodup : (cards.map (·.cardId)).Nodup)
    (gone : String) :
    (without cards [gone]).map (·.cardId) = (cards.map (·.cardId)).erase gone := by
  rw [hnodup.erase_eq_filter, without, List.filter_map]
  congr 1
  refine List.filter_congr fun c _ => ?_
  simp only [List.contains_cons, List.contains_nil, Bool.or_false, bne, Function.comp_apply]

theorem erase_middle {α : Type} [DecidableEq α] {front back : List α} {a : α}
    (h : (front ++ a :: back).Nodup) : (front ++ a :: back).erase a = front ++ back := by
  have hfresh : a ∉ front := by
    intro ha
    exact List.disjoint_of_nodup_append h ha List.mem_cons_self
  rw [List.erase_append_right _ hfresh, List.erase_cons_head]

/-- The result of a move at another time. -/
theorem CardPlacementResolver.moves_at [SortKey K] (source : Card K) (landing : Landing K)
    (changed : List (Card K)) (u : Int) :
    (moves source landing (changed.map fun c => { c with updatedAt := u })).sortKey =
        (moves source landing changed).sortKey ∧
      (moves source landing (changed.map fun c => { c with updatedAt := u })).siblingChanges =
        (moves source landing changed).siblingChanges.map fun c => { c with updatedAt := u } := by
  have hown : (changed.map fun c => { c with updatedAt := u }).filter (·.cardId == source.cardId) =
      (changed.filter (·.cardId == source.cardId)).map fun c => { c with updatedAt := u } :=
    List.filter_map ..
  have hrest : (changed.map fun c => { c with updatedAt := u }).filter (·.cardId != source.cardId) =
      (changed.filter (·.cardId != source.cardId)).map fun c => { c with updatedAt := u } :=
    List.filter_map ..
  refine ⟨?_, hrest⟩
  rw [moves, moves, hown, List.getLast?_map]
  cases (changed.filter (·.cardId == source.cardId)).getLast? <;> rfl

namespace CardStore
open CardPlacementResolver
variable [SortKey K] {env : Env K} {w w' : World K} {projectId cardId : String}
  {request : CardPlacementRequest} {updatedAt : Int} {card : Card K}
  {placement : CardPlacementResult K}

/-- The rows after a move are the changes of its insertion, if only at the time the card had. -/
theorem MovedTo.rows {landing : Landing K} {window : BlockWindow K} {index : Nat} (hk : w.db.Keyed)
    (h : MovedTo env w projectId cardId request updatedAt w' card placement)
    (hmoves : placement = moves card landing (window.changed [card] landing.parent updatedAt))
    (hfits : window.Fits landing.destination index [card])
    (hnodup : ((landing.destination ++ [card]).map (·.cardId)).Nodup) :
    ∃ u rows, RowsPlaced rows w.db w'.db ∧
      ∀ c, c ∈ rows ↔ c ∈ window.changed [card] landing.parent u := by
  have hid := hk _ _ h.row
  rcases h.outcome with ⟨hparent, hkey, hsiblings, rfl⟩ | ⟨-, -, hrows⟩
  · refine ⟨card.updatedAt, [card], ⟨fun c hc => ?_, fun _ _ => rfl⟩, fun c => ?_⟩
    · rw [List.mem_singleton.mp hc, hid]
      exact h.row
    · rw [← moves_changed hfits hnodup c]
      obtain ⟨hsame, hrest⟩ := moves_at card landing
        (window.changed [card] landing.parent updatedAt) card.updatedAt
      rw [← window.changed_at, ← hmoves, hkey] at hsame
      rw [← window.changed_at, ← hmoves, hsiblings, List.map_nil] at hrest
      have hpar : landing.parent = card.parentCardId := by rw [← hparent, hmoves]; rfl
      rw [hsame, hrest, hpar]
      rfl
  · exact ⟨updatedAt, _, hrows, fun c => by rw [hmoves]; exact moves_changed hfits hnodup c⟩

/-- The live order after a move that inserted the card. -/
theorem MovedTo.order {landing : Landing K} {index : Nat}
    {scope : Option String → Option String} {placed changed : List (Card K)} (hk : w.db.Keyed)
    (hlive : card.deletedAt = none) (hproj : card.projectId = projectId)
    (h : MovedTo env w projectId cardId request updatedAt w' card (moves card landing changed))
    (hdest : landing.destination =
      without (scopeChildren scope w.db projectId (scope landing.parent)) [card.cardId])
    (hindex : index ≤ landing.destination.length)
    (hins : insertBlockInto landing.destination index [card] landing.parent updatedAt =
      .ok (placed, changed)) :
    ∃ (window : BlockWindow K) (u : Int), window.Fits landing.destination index [card] ∧
      scopeChildren scope w'.db projectId (scope landing.parent) =
        window.placed [card] landing.parent u ∧
      (∀ other, other ≠ scope landing.parent → scopeChildren scope w'.db projectId other =
        without (scopeChildren scope w.db projectId other) [card.cardId]) ∧
      ∃ rows, RowsPlaced rows w.db w'.db ∧
        ∀ c, c ∈ rows ↔ c ∈ window.changed [card] landing.parent u := by
  have hids : ((landing.destination ++ [card]).map (·.cardId)).Nodup := by
    rw [List.map_append, hdest]
    refine (nodup_without (scopeChildren_nodup hk ..) _).append (by simp) fun id hmem hc => ?_
    obtain ⟨d, hd, rfl⟩ := List.mem_map.mp hmem
    rw [List.map_singleton, List.mem_singleton] at hc
    exact (mem_without.mp hd).2 (List.mem_singleton.mpr hc)
  obtain ⟨window, hfits, rfl, rfl⟩ := insertBlockInto_window (by simp) hindex hins
  obtain ⟨u, rows, hrows, hmem⟩ := h.rows hk rfl hfits hids
  have hchanged : ∀ c, c ∈ rows ↔ c ∈ ([] : List (Card K)) ∨
      c ∈ window.changed [card] landing.parent u := by simpa using hmem
  have hdest' : landing.destination = without (scopeChildren scope w.db projectId
      (scope landing.parent)) (([card] ++ []).map fun c : Card K => c.cardId) := by
    simpa using hdest
  obtain ⟨hplaced, hothers⟩ := hrows.insertion hk hfits hchanged (by simp) hdest'
    (by simp [hproj, hlive]) (by simp)
  exact ⟨window, u, hfits, hplaced, by simpa using hothers, rows, hrows, hmem⟩

/-- The live cards keep their parents but for the moved one. -/
theorem MovedTo.liveUp {landing : Landing K} {window : BlockWindow K} {index : Nat} {u : Int}
    {rows : List (Card K)} (hfits : window.Fits landing.destination index [card])
    (hdest : ∀ c ∈ landing.destination, LiveRow w.db projectId c)
    (hrows : RowsPlaced rows w.db w'.db)
    (hmem : ∀ c, c ∈ rows ↔ c ∈ window.changed [card] landing.parent u) {id : String}
    (hid : id ≠ card.cardId) {p : Option String} (hup : HolderCore.liveUp w.db projectId id = some p) :
    HolderCore.liveUp w'.db projectId id = some p := by
  obtain ⟨c, hc, hproj, hlive, hpar⟩ := liveUp_eq_some.mp hup
  rw [liveUp_eq_some]
  by_cases hchanged : ∃ r ∈ rows, r.cardId = id
  · obtain ⟨r, hr, rfl⟩ := hchanged
    obtain ⟨b, p', key, rfl, ⟨hb, rfl⟩ | ⟨hb, rfl⟩⟩ := hfits.changed_card ((hmem r).mp hr)
    · rw [List.mem_singleton.mp hb] at hid
      exact absurd rfl hid
    · have hrow := (hdest b hb).row
      rw [show b.cardId = (b.placed b.parentCardId key u).cardId from rfl, hc] at hrow
      cases hrow
      exact ⟨_, hrows.placed _ hr, hproj, hlive, hpar⟩
  · exact ⟨c, by rw [hrows.kept id fun r hr he => hchanged ⟨r, hr, he⟩]; exact hc, hproj, hlive,
      hpar⟩

/-- A move that succeeds, where no live card is hidden and no id begins or ends with a blank, puts
the card in the place its request names and leaves the order of every other card. -/
theorem moveTo_places (hw : Browsed env w) (ht : TrimmedIds w.db projectId) {result : Result K}
    (h : (Call.moveTo projectId cardId request updatedAt).run env w = .ok result w') :
    ∃ card front back, w.db.cards[cardId]? = some card ∧
      NamedPlace card request (liveOrder w.db projectId (namedParent w.db card request)) front back ∧
      (liveOrder w.db projectId (namedParent w.db card request)).erase cardId = front ++ back ∧
      liveOrder w'.db projectId (namedParent w.db card request) = front ++ cardId :: back ∧
      (∀ other, other ≠ namedParent w.db card request →
        liveOrder w'.db projectId other = (liveOrder w.db projectId other).erase cardId) ∧
      (∃ moved, LiveRow w'.db projectId moved ∧ moved.cardId = cardId ∧
        moved.parentCardId = namedParent w.db card request) ∧
      ∀ p, namedParent w.db card request = some p →
        Rooted (avoiding (HolderCore.liveUp w'.db projectId) [cardId]) p := by
  have hk := hw.tidy.keyed
  obtain ⟨card, placement, hmoved⟩ := moveTo_moved hw.tidy h
  obtain ⟨source, landing, hrow, hlive, rfl, hland, hres⟩ := resolve_ok_iff.mp hmoved.resolved
  obtain rfl : source = card := Option.some.inj (hrow.symm.trans hmoved.row)
  have hid := hk _ _ hrow
  have hproj := hw.tidy.project _ _ hrow
  have hsource : LiveRow w.db source.projectId source := ⟨by rw [hid]; exact hrow, rfl, hlive⟩
  have hp : ParentsLive w.db source.projectId := hproj ▸ hw.parentsLive
  have hrooted : AllRooted (HolderCore.liveUp w.db source.projectId) := by
    rw [hproj, ← Db.forest_live hw.tidy.project]
    exact hw.live
  have hup : HolderCore.liveUp w.db source.projectId cardId = some source.parentCardId :=
    liveUp_eq_some.mpr ⟨source, hrow, rfl, hlive, rfl⟩
  have hkept : ∀ p, source.parentCardId = some p →
      Rooted (avoiding (HolderCore.liveUp w.db source.projectId) [cardId]) p := by
    intro p hpar
    rw [hpar] at hup
    exact (hrooted _ _ hup).avoiding_child hup
  have hlands := land_lands hk ht hp hsource hland
  cases hres with
  | stays hindex =>
    rw [Lands, hindex] at hlands
    obtain ⟨hnamed, front, back, horder, hplace⟩ := hlands
    rcases hmoved.outcome with ⟨-, -, -, rfl⟩ | ⟨hmoves, -⟩
    · rw [hid] at horder
      have hnodup := liveOrder_nodup hk source.projectId source.parentCardId
      refine ⟨source, front, back, hrow, hnamed ▸ hplace, ?_, hnamed ▸ horder, fun other hne => ?_,
        ⟨source, hsource, hid, hnamed.symm⟩, hnamed ▸ hkept⟩
      · rw [hnamed, horder]
        rw [horder] at hnodup
        exact erase_middle hnodup
      · rw [List.erase_of_not_mem]
        intro hmem
        obtain ⟨c, hc, he⟩ := List.mem_map.mp hmem
        obtain ⟨hcrow, hpar⟩ := (mem_liveChildren hk).mp hc
        obtain rfl : c = source := by
          have := hcrow.row
          rw [he, hrow] at this
          exact (Option.some.inj this).symm
        exact hne (hpar.symm.trans hnamed.symm)
    · exact absurd ⟨ht.parent hp hsource, rfl, rfl⟩ hmoves
  | moves hindex hins =>
    rw [Lands, hindex] at hlands
    obtain ⟨hnamed, hdest, hbound, hplace⟩ := hlands
    obtain ⟨window, u, hfits, hplaced, hothers, rows, hrows, hmem⟩ :=
      hmoved.order hk hlive rfl (show landing.destination = without
        (scopeChildren id w.db source.projectId (id landing.parent)) [source.cardId] from hdest)
        hbound hins
    have hids := hfits.placed_ids landing.parent u
    rw [List.map_append, List.map_append, List.map_take, List.map_drop, List.map_singleton,
      List.append_assoc, List.singleton_append, hid] at hids
    have hdestOrder : landing.destination.map (·.cardId) =
        (liveOrder w.db source.projectId landing.parent).erase cardId := by
      rw [hdest, hid]
      exact map_without_singleton (scopeChildren_nodup hk ..) cardId
    rw [hnamed] at hplace hplaced hothers hdestOrder hids
    refine ⟨source, _, _, hrow, hplace, ?_, ?_, fun other hne => ?_, ?_, fun p hpar => ?_⟩
    · rw [← hdestOrder, List.take_append_drop]
    · exact (congrArg (List.map (·.cardId)) hplaced).trans hids
    · rw [liveOrder, liveChildren, hothers other hne, hid]
      exact map_without_singleton (scopeChildren_nodup hk ..) cardId
    · obtain ⟨d, hd, hdid⟩ := hfits.block_changed landing.parent u (List.mem_singleton_self source)
      have hrowd := hrows.placed d ((hmem d).mpr (by rw [hnamed]; rw [hnamed] at hd; exact hd))
      obtain ⟨b, p', key, rfl, ⟨hb, rfl⟩ | ⟨hb, rfl⟩⟩ := hfits.changed_card hd
      · obtain rfl := List.mem_singleton.mp hb
        exact ⟨_, ⟨hrowd, rfl, hlive⟩, hid, hnamed⟩
      · rw [hdest] at hb
        exact absurd (List.mem_singleton.mpr hdid) (mem_without.mp hb).2
    · rcases hmoved.outcome with ⟨hsame, -, -, rfl⟩ | ⟨-, hvalid, -⟩
      · exact hkept p (by rw [← hpar, ← hnamed, ← hsame]; rfl)
      · have hroot := (validateCardParent_iff hk).mp hvalid p (by rw [← hpar, ← hnamed]; rfl)
        refine hroot.weaken fun y q hy => ?_
        obtain ⟨hne, hy⟩ := avoiding_eq_some.mp hy
        refine avoiding_eq_some.mpr ⟨by rw [← hid]; exact hne, ?_⟩
        refine MovedTo.liveUp hfits (fun c hc => ?_) hrows hmem (by simpa using hne) hy
        rw [hdest] at hc
        exact ((mem_liveChildren hk).mp (mem_without.mp hc).1).1

end CardStore

/-! ## Moves of a small project -/

/-- Two roots, the second of which has two children. -/
def twoRoots : World ℚ :=
  runCalls (plainEnv fun _ => []) World.empty
    [.create (plainCard "aaaa" "a" none 1) "" none, .create (plainCard "bbbb" "b" none 2) "" none,
      .create (plainCard "cccc" "c" (some "bbbb") 3) "" none,
      .create (plainCard "dddd" "d" (some "bbbb") 4) "" none]

/-- A card whose id is that of another with a blank behind it, its child, and a third root. -/
def blankIds : World ℚ :=
  runCalls (plainEnv fun _ => []) World.empty
    [.create (plainCard "aaaa" "a" none 1) "" none, .create (plainCard "aaaa " "b" none 2) "" none,
      .create (plainCard "cccc" "c" (some "aaaa ") 3) "" none,
      .create (plainCard "dddd" "d" none 4) "" none]

/-- The live orders of some parents after a call. -/
def ordersAfter (w : World ℚ) (call : Call ℚ) (parents : List (Option String)) :
    Option (List (List String)) :=
  match call.run (plainEnv fun _ => []) w with
  | .ok _ w' => some (parents.map (liveOrder w'.db "home"))
  | .error _ _ => none

theorem ordersAfter_some {w : World ℚ} {call : Call ℚ} {parents : List (Option String)}
    {orders : List (List String)} (h : ordersAfter w call parents = some orders) :
    ∃ result w', call.run (plainEnv fun _ => []) w = .ok result w' ∧
      parents.map (liveOrder w'.db "home") = orders := by
  unfold ordersAfter at h
  split at h
  · next hrun => exact ⟨_, _, hrun, Option.some.inj h⟩
  · cases h

/-- A move to the left under another parent succeeds and moves nothing, and a card put before one
whose parent's id ends with a blank leaves it. -/
theorem moveTo_elsewhere :
    (∃ result w', (Call.moveTo "home" "dddd" ⟨.left, none, true, some "aaaa"⟩ 9).run
        (plainEnv fun _ => []) twoRoots = .ok result w' ∧
      [some "aaaa", some "bbbb"].map (liveOrder w'.db "home") = [[], ["cccc", "dddd"]]) ∧
    ∃ result w', (Call.moveTo "home" "dddd" ⟨.before, some "cccc", false, none⟩ 9).run
        (plainEnv fun _ => []) blankIds = .ok result w' ∧
      [some "aaaa", some "aaaa "].map (liveOrder w'.db "home") = [["dddd"], ["cccc"]] :=
  ⟨ordersAfter_some (by decide +kernel), ordersAfter_some (by decide +kernel)⟩

theorem twoRoots_left : ∃ result w',
    (Call.moveTo "home" "dddd" ⟨.left, none, false, none⟩ 9).run (plainEnv fun _ => []) twoRoots =
      .ok result w' ∧ [some "bbbb"].map (liveOrder w'.db "home") = [["dddd", "cccc"]] :=
  ordersAfter_some (by decide +kernel)

theorem twoRoots_places : ∃ result w' card front back,
    (Call.moveTo "home" "dddd" ⟨.left, none, false, none⟩ 9).run (plainEnv fun _ => []) twoRoots =
      .ok result w' ∧
    NamedPlace card ⟨.left, none, false, none⟩
      (liveOrder twoRoots.db "home" (namedParent twoRoots.db card ⟨.left, none, false, none⟩))
      front back ∧
    liveOrder w'.db "home" (namedParent twoRoots.db card ⟨.left, none, false, none⟩) =
      front ++ "dddd" :: back := by
  have htrim : ∀ c ∈ twoRoots.db.cards.rows, normalizeParentId (some c.cardId) = some c.cardId := by
    decide +kernel
  obtain ⟨result, w', hrun, -⟩ := twoRoots_left
  obtain ⟨card, front, back, -, hplace, -, horder, -⟩ := CardStore.moveTo_places
    (runCalls_browsed _ _) (fun c hc => htrim c (Map.mem_rows.mpr ⟨_, hc.row⟩)) hrun
  exact ⟨result, w', card, front, back, hrun, hplace, horder⟩

end HolderCore
