import HolderCore.History.CardHistory

/-! # Pages of a card's history

A page groups the commits of a stretch of the walk, and its cursor stands at the end of the
stretch; unless the scan was cut short, the next commit does not join the page's last entry. The
pages together therefore hold every commit once and group the walk as one. -/

namespace HolderCore
namespace CardHistory
open GitHistory

/-- The editing sessions of a list of commits. -/
def sessions : Grouping GitHistoryCommit CardHistoryEntry := ⟨newEntry, extendEntry, mayGroup⟩

/-- How commits are added to a page: all of them, or those before one that opens an entry too
many. -/
inductive Added (page : PageState) (commits : List GitHistoryCommit) : PageState × Bool → Prop
  | all : Added page commits (⟨sessions.addAll page.entries commits,
      (commits.getLast?.map (·.oid)).or page.lastConsumedOid⟩, false)
  | full : commits = taken ++ commit :: more → sessions.addAll page.entries taken ≠ [] →
    sessions.Closed (sessions.addAll page.entries taken) commit →
    Added page commits (⟨sessions.addAll page.entries taken,
      (taken.getLast?.map (·.oid)).or page.lastConsumedOid⟩, true)

theorem getLast?_cons_oid (commit : GitHistoryCommit) (commits : List GitHistoryCommit)
    (last : Option String) : ((commit :: commits).getLast?.map (·.oid)).or last =
      (commits.getLast?.map (·.oid)).or (some commit.oid) := by
  rw [List.getLast?_cons]
  cases commits.getLast? <;> rfl

/-- What is added behind a commit is added to the page with that commit. -/
theorem Added.cons {page page' : PageState} {commit : GitHistoryCommit}
    {commits : List GitHistoryCommit} {result : PageState × Bool} (h : Added page' commits result)
    (hentries : page'.entries = sessions.add page.entries commit)
    (hlast : page'.lastConsumedOid = some commit.oid) : Added page (commit :: commits) result := by
  have hall : ∀ cs, sessions.addAll page'.entries cs = sessions.addAll page.entries (commit :: cs) := by
    intro cs
    rw [hentries]
    rfl
  cases h with
  | all =>
    rw [hall, hlast, ← getLast?_cons_oid commit commits page.lastConsumedOid]
    exact .all
  | @full taken next more hsplit hne hclosed =>
    rw [hall, hlast, ← getLast?_cons_oid commit taken page.lastConsumedOid]
    rw [hall] at hne hclosed
    exact .full (by rw [hsplit, List.cons_append]) hne hclosed

theorem addCommits_added {limit : Nat} (hlimit : 1 ≤ limit) (commits : List GitHistoryCommit)
    (page : PageState) : Added page commits (addCommits limit commits page) := by
  induction commits generalizing page with
  | nil => exact .all
  | cons commit commits ih =>
    rw [addCommits]
    split
    · next entry hentry =>
      obtain ⟨hlast, hjoin⟩ := Option.filter_eq_some_iff.mp hentry
      refine (ih _).cons ?_ rfl
      exact (Grouping.add_joins (G := sessions) hlast hjoin).symm
    · next hnone =>
      have hclosed : sessions.Closed page.entries commit := by
        intro entry hlast
        change mayGroup entry commit = false
        simpa using Option.filter_eq_none_iff.mp hnone entry hlast
      split
      · next hfull =>
        have hne : page.entries ≠ [] := by
          rintro hnil
          rw [hnil, List.length_nil] at hfull
          omega
        have hsplit : commit :: commits = [] ++ commit :: commits := (List.nil_append _).symm
        exact .full hsplit hne hclosed
      · exact (ih _).cons (Grouping.add_closed hclosed).symm rfl

/-! ## One page -/

section
variable {h : GitHistory} {p : GitHistoryCommit → Bool}

/-- A page of the walk behind a cursor: it groups the touching commits of a first stretch, and its
cursor stands before the rest. -/
structure PageAt (h : GitHistory) (p : GitHistoryCommit → Bool) (walk : List GitHistoryCommit)
    (page : CardHistoryPage) (taken left : List GitHistoryCommit) : Prop where
  split : walk = taken ++ left
  entries : page.entries = sessions.group (taken.filter p)
  last : page.nextCursor = none → left.filter p = []
  next : ∀ oid, page.nextCursor = some oid → taken ≠ [] ∧ h.after (some oid) = some left
  closed : page.scanLimited = false → page.nextCursor.isSome = true →
    ∃ commit more, left.filter p = commit :: more ∧ sessions.Closed page.entries commit

/-- Where the walk stands once some of its touching commits are consumed. -/
theorem consumed_place (hc : h.Complete) {before walk : List GitHistoryCommit}
    (hw : h.walk = before ++ walk) {commits rest : List GitHistoryCommit}
    (hfilter : walk.filter p = commits ++ rest) {x : GitHistoryCommit}
    (hlast : commits.getLast? = some x) :
    ∃ taken left, walk = taken ++ left ∧ taken ≠ [] ∧ taken.filter p = commits ∧
      left.filter p = rest ∧ h.after (some x.oid) = some left := by
  obtain ⟨init, rfl⟩ := List.getLast?_eq_some_iff.mp hlast
  rw [List.append_assoc, List.singleton_append, List.filter_eq_append_iff] at hfilter
  obtain ⟨w1, w2, rfl, h1, h2⟩ := hfilter
  obtain ⟨m, left, rfl, hm, hx, hleft⟩ := List.filter_eq_cons_iff.mp h2
  refine ⟨w1 ++ m ++ [x], left, by simp, by simp, ?_, hleft, ?_⟩
  · have hnone : m.filter p = [] := List.filter_eq_nil_iff.mpr hm
    rw [List.filter_append, List.filter_append, h1, hnone, List.append_nil,
      List.filter_cons_of_pos hx, List.filter_nil]
  · have hw' : h.walk = (before ++ w1 ++ m) ++ x :: left := by
      rw [hw]
      simp
    exact after_append hc hw'

/-- The entries of a page so far, and where the walk stands. -/
structure Collected (h : GitHistory) (p : GitHistoryCommit → Bool) (start walk : List GitHistoryCommit)
    (page : PageState) (taken : List GitHistoryCommit) : Prop where
  split : start = taken ++ walk
  entries : page.entries = sessions.group (taken.filter p)
  last : taken = [] ∨ ∃ oid, page.lastConsumedOid = some oid ∧ h.after (some oid) = some walk

namespace Collected

variable {before start walk taken commits rest : List GitHistoryCommit} {page page' : PageState}

theorem taken_ne_nil (hp : Collected h p start walk page taken) (hne : page.entries ≠ []) :
    taken ≠ [] := by
  rintro rfl
  exact hne hp.entries

/-- The page after a batch that did not fill it. -/
theorem all (hc : h.Complete) (hstart : h.walk = before ++ start)
    (hp : Collected h p start walk page taken) (hfilter : walk.filter p = commits ++ rest)
    (hne : commits ≠ []) (hadd : Added page commits (page', false)) :
    ∃ taken' left, Collected h p start left page' taken' ∧ taken' ≠ [] ∧ left.filter p = rest ∧
      left.length < walk.length ∧ h.after page'.lastConsumedOid = some left := by
  obtain ⟨x, hx⟩ : ∃ x, commits.getLast? = some x := ⟨_, List.getLast?_eq_some_getLast hne⟩
  have hplace : h.walk = (before ++ taken) ++ walk := by rw [hstart, hp.split, List.append_assoc]
  obtain ⟨more, left, rfl, hmore, hcommits, hleft, hafter⟩ := consumed_place hc hplace hfilter hx
  cases hadd with
  | all =>
    have hlast : (commits.getLast?.map (·.oid)).or page.lastConsumedOid = some x.oid := by
      rw [hx, Option.map_some, Option.some_or]
    refine ⟨taken ++ more, left, ⟨?_, ?_, .inr ⟨_, hlast, hafter⟩⟩, by simp [hmore], hleft, ?_, ?_⟩
    · rw [hp.split, List.append_assoc]
    · change sessions.addAll page.entries commits = _
      rw [hp.entries, List.filter_append, hcommits, Grouping.group_append]
    · have := List.length_pos_iff.mpr hmore
      rw [List.length_append]
      omega
    · change h.after ((commits.getLast?.map (·.oid)).or page.lastConsumedOid) = some left
      rw [hlast, hafter]

/-- The page when a batch filled it. -/
theorem full (hc : h.Complete) (hstart : h.walk = before ++ start)
    (hp : Collected h p start walk page taken) (hfilter : walk.filter p = commits ++ rest)
    (hadd : Added page commits (page', true)) (headOid : Option String) :
    ∃ taken' left,
      PageAt h p start ⟨headOid, page'.entries, page'.lastConsumedOid, false⟩ taken' left := by
  cases hadd with
  | @full added commit more hsplit hne hclosed =>
    subst hsplit
    cases hx : added.getLast? with
    | none =>
      -- the batch begins with the commit that does not fit
      have hnil := List.getLast?_eq_none_iff.mp hx
      subst hnil
      have htaken := hp.taken_ne_nil hne
      obtain ⟨oid, hoid, hafter⟩ := hp.last.resolve_left htaken
      refine ⟨taken, walk, hp.split, hp.entries, fun hnone => ?_, fun oid' hoid' => ?_, fun _ _ => ?_⟩
      · change page.lastConsumedOid = none at hnone
        rw [hoid] at hnone
        cases hnone
      · change page.lastConsumedOid = some oid' at hoid'
        rw [hoid] at hoid'
        cases hoid'
        exact ⟨htaken, hafter⟩
      · exact ⟨commit, more ++ rest, hfilter, hclosed⟩
    | some x =>
      rw [List.append_assoc, List.cons_append] at hfilter
      have hplace : h.walk = (before ++ taken) ++ walk := by rw [hstart, hp.split, List.append_assoc]
      obtain ⟨w, left, rfl, hw, hadded, hleft, hafter⟩ := consumed_place hc hplace hfilter hx
      refine ⟨taken ++ w, left, ?_, ?_, fun hnone => ?_, fun oid hoid => ?_, fun _ _ => ?_⟩
      · rw [hp.split, List.append_assoc]
      · change sessions.addAll page.entries added = _
        rw [hp.entries, List.filter_append, hadded, Grouping.group_append]
      · simp at hnone
      · simp only [Option.map_some, Option.some_or, Option.some.injEq] at hoid
        subst hoid
        exact ⟨by simp [hw], hafter⟩
      · exact ⟨commit, more ++ rest, hleft, hclosed⟩

/-- The page when the scan stops behind a batch that did not fill it. -/
theorem bounded (hc : h.Complete) (hstart : h.walk = before ++ start)
    (hp : Collected h p start walk page taken) {seen left : List GitHistoryCommit}
    {last : GitHistoryCommit} (hwalk : walk = seen ++ last :: left)
    (hentries : page'.entries = sessions.addAll page.entries ((seen ++ [last]).filter p))
    (headOid : Option String) :
    PageAt h p start ⟨headOid, page'.entries, some last.oid, true⟩ (taken ++ (seen ++ [last])) left where
  split := by rw [hp.split, hwalk]; simp
  entries := by
    change page'.entries = _
    rw [hentries, hp.entries, List.filter_append taken, Grouping.group_append]
  last hnone := by cases hnone
  next oid hoid := by
    cases hoid
    have hplace : h.walk = (before ++ taken ++ seen) ++ last :: left := by
      rw [hstart, hp.split, hwalk]
      simp
    exact ⟨by simp, after_append hc hplace⟩
  closed hlimited := by cases hlimited

/-- The page when nothing is left behind it. -/
theorem done (hp : Collected h p start walk page taken) (hwalk : walk.filter p = [])
    (headOid : Option String) : PageAt h p start ⟨headOid, page.entries, none, false⟩ taken walk where
  split := hp.split
  entries := hp.entries
  last _ := hwalk
  next oid hoid := by cases hoid
  closed _ hsome := by cases hsome

end Collected

theorem Scanned.commits_prefix {limit : Nat} {walk : List GitHistoryCommit} {batch : GitHistoryPage}
    (hs : Scanned p limit walk batch) : ∃ rest, walk.filter p = batch.commits ++ rest := by
  cases hs with
  | all hall => exact ⟨[], by rw [hall, List.append_nil]⟩
  | full hfull _ => exact ⟨_, hfull⟩
  | @bounded seen last left commits hw hcommits =>
    refine ⟨left.filter p, ?_⟩
    rw [hw, ← hcommits, ← List.filter_append, List.append_assoc, List.singleton_append]

/-- A page is collected from any place of the walk on. -/
theorem collect_page (hc : h.Complete) {paths : List String} (hpaths : paths ≠ [])
    {limit maxScannedCommits : Nat} (hlimit : 1 ≤ limit) (hmax : 1 ≤ maxScannedCommits)
    {before start : List GitHistoryCommit} (hstart : h.walk = before ++ start) (turns : Nat)
    (walk taken : List GitHistoryCommit) (rawCursor : Option String) (page : PageState)
    (hp : Collected h (h.Touches paths ·) start walk page taken)
    (hcursor : h.after rawCursor = some walk) (hturns : walk.length < turns) :
    ∃ result taken' left,
      collect h paths limit maxScannedCommits turns rawCursor page = .ok (some result) ∧
        result.headOid = h.headOid ∧ PageAt h (h.Touches paths ·) start result taken' left := by
  induction turns generalizing walk taken rawCursor page with
  | zero => omega
  | succ turns ih =>
    have hsub : walk.Sublist h.walk := by
      rw [hstart, hp.split]
      exact (List.sublist_append_right _ _).trans (List.sublist_append_right _ _)
    obtain ⟨batch, hbatch, hscan⟩ := historyForPaths_scanned hc hpaths
      (hlimit.trans (le_max_right historyBatchSize limit)) hmax hcursor hsub
    have hadd := addCommits_added hlimit batch.commits page
    obtain ⟨rest, hrest⟩ := Scanned.commits_prefix hscan
    rw [collect, hbatch]
    simp only [bind, Except.bind]
    split
    · next hempty =>
      have hnil := List.isEmpty_iff.mp hempty
      cases hscan with
      | all hall => exact ⟨_, _, _, rfl, rfl, hp.done (hall.trans hnil) _⟩
      | full _ hlen =>
        dsimp only at hnil
        rw [hnil, List.length_nil] at hlen
        have := hlimit.trans (le_max_right historyBatchSize limit)
        omega
      | @bounded seen last left commits hw hcommits =>
        refine ⟨_, _, _, rfl, rfl, hp.bounded hc hstart hw ?_ _⟩
        dsimp only at hnil
        rw [hcommits, hnil]
        rfl
    · next hempty =>
      have hne : batch.commits ≠ [] := fun hnil => hempty (List.isEmpty_iff.mpr hnil)
      generalize addCommits limit batch.commits page = added at hadd ⊢
      obtain ⟨page', full⟩ := added
      cases full with
      | true =>
        obtain ⟨taken', left, hpage⟩ := hp.full hc hstart hrest hadd h.headOid
        exact ⟨_, taken', left, rfl, rfl, hpage⟩
      | false =>
        obtain ⟨taken', left, hp', -, hleft, hlen, hafter⟩ := hp.all hc hstart hrest hne hadd
        cases hscan with
        | all hall =>
          have hnone : rest = [] := List.self_eq_append_right.mp (hall.symm.trans hrest)
          exact ⟨_, _, _, rfl, rfl, hp'.done (hleft.trans hnone) _⟩
        | full hfull hfulllen =>
          exact ih left taken' page'.lastConsumedOid page' hp' hafter (by omega)
        | @bounded seen last left' commits hw hcommits =>
          refine ⟨_, _, _, rfl, rfl, hp.bounded hc hstart hw ?_ _⟩
          cases hadd
          rw [hcommits]

end

/-! ## All pages -/

/-- Ask for pages of the given sizes and follow their cursors until none is returned; `none` when
more are needed. -/
def followPages [NatCast K] (h : GitHistory) (env : Env K) (maxScannedCommits : Nat)
    (cardId : String) : List Nat → Option String → Except Exn (Option (List CardHistoryPage))
  | [], _ => return none
  | limit :: limits, cursor => do
    match ← list h env maxScannedCommits cardId limit cursor with
    | none => return none
    | some page =>
      match page.nextCursor with
      | none => return some [page]
      | some next =>
        return (← followPages h env maxScannedCommits cardId limits (some next)).map (page :: ·)

/-- A commit that touches the card's live or trash path. -/
def touchesCard (h : GitHistory) (cardId : String) (commit : GitHistoryCommit) : Bool :=
  h.Touches [livePath cardId, trashPath cardId] commit

/-- The card's file can be read in every commit of the walk that touches it, and in the parents of such
a commit. -/
def Readable [NatCast K] (h : GitHistory) (env : Env K) (cardId : String) : Prop :=
  ∀ commit ∈ h.walk, touchesCard h cardId commit = true → ∀ oid ∈ commit.oid :: commit.parentOids,
    ∃ snapshot, snapshotAt h env cardId (some oid) = .ok snapshot

/-- An entry as a page returns it: a session with its summary. -/
structure Finished [NatCast K] (h : GitHistory) (env : Env K) (cardId : String)
    (session entry : CardHistoryEntry) : Prop where
  eq : entry =
    { session with visibleParentOids := entry.visibleParentOids, summary := entry.summary }
  summary : entrySummary h env cardId session = .ok entry.summary

section
variable [NatCast K] {h : GitHistory} {env : Env K} {cardId : String} {maxScannedCommits : Nat}

theorem finishEntry_ok {visible : List String} {session : CardHistoryEntry}
    (hlast : ∃ snapshot, snapshotAt h env cardId (some session.lastOid) = .ok snapshot)
    (hparent : ∀ parent ∈ session.parentOids,
      ∃ snapshot, snapshotAt h env cardId (some parent) = .ok snapshot) :
    ∃ entry, finishEntry h env cardId visible session = .ok entry ∧
      Finished h env cardId session entry := by
  obtain ⟨after, hafter⟩ := hlast
  obtain ⟨before, hbefore⟩ : ∃ before, snapshotAt h env cardId session.parentOids.head? = .ok before := by
    cases hp : session.parentOids.head? with
    | none => exact ⟨_, rfl⟩
    | some parent => exact hparent parent (List.mem_of_head? hp)
  have hsummary : entrySummary h env cardId session = .ok (describeChange before after session.kind) := by
    rw [entrySummary, hbefore, hafter]
    rfl
  refine ⟨{ session with
    visibleParentOids := session.parentOids.filter visible.contains
    summary := describeChange before after session.kind }, ?_, rfl, hsummary⟩
  rw [finishEntry, hsummary]
  rfl

/-- The sessions of commits that touch the card refer to commits whose file can be read. -/
theorem sessions_readable (hread : Readable h env cardId) {commits : List GitHistoryCommit}
    (hw : ∀ commit ∈ commits, commit ∈ h.walk ∧ touchesCard h cardId commit = true)
    {session : CardHistoryEntry} (hs : session ∈ sessions.group commits) :
    (∃ snapshot, snapshotAt h env cardId (some session.lastOid) = .ok snapshot) ∧
      ∀ parent ∈ session.parentOids, ∃ snapshot, snapshotAt h env cardId (some parent) = .ok snapshot := by
  have hcommit : ∀ commit ∈ commits, ∀ oid ∈ commit.oid :: commit.parentOids,
      ∃ snapshot, snapshotAt h env cardId (some oid) = .ok snapshot :=
    fun commit hmem => hread commit (hw commit hmem).1 (hw commit hmem).2
  refine Grouping.forall_addAll (G := sessions)
    (P := fun s => (∃ snapshot, snapshotAt h env cardId (some s.lastOid) = .ok snapshot) ∧
      ∀ parent ∈ s.parentOids, ∃ snapshot, snapshotAt h env cardId (some parent) = .ok snapshot)
    (fun commit hmem => ⟨hcommit commit hmem _ List.mem_cons_self, fun parent hp =>
      hcommit commit hmem parent (List.mem_cons_of_mem _ hp)⟩)
    (fun session commit hmem hknown => ⟨hknown.1, fun parent hp =>
      hcommit commit hmem parent (List.mem_cons_of_mem _ hp)⟩)
    (fun session hnil => by cases hnil) session hs

theorem Finished.mapM {sessions' : List CardHistoryEntry} {f : CardHistoryEntry → Except Exn CardHistoryEntry}
    (hf : ∀ session ∈ sessions', ∃ entry, f session = .ok entry ∧ Finished h env cardId session entry) :
    ∃ entries, sessions'.mapM f = .ok entries ∧
      List.Forall₂ (Finished h env cardId) sessions' entries := by
  induction sessions' with
  | nil => exact ⟨[], rfl, .nil⟩
  | cons session rest ih =>
    obtain ⟨entry, hentry, hfin⟩ := hf session List.mem_cons_self
    obtain ⟨entries, hrest, hall⟩ := ih fun s hs => hf s (List.mem_cons_of_mem _ hs)
    refine ⟨entry :: entries, ?_, .cons hfin hall⟩
    rw [List.mapM_cons, hentry, hrest]
    rfl

/-- One page of a history, from any place of the walk on. -/
theorem list_page (hc : h.Complete) (hlen : 4 ≤ cardId.length) (hmax : 1 ≤ maxScannedCommits)
    (hread : Readable h env cardId) {limit : Nat} (hlimit : 1 ≤ limit ∧ limit ≤ 200)
    {before walk : List GitHistoryCommit} (hw : h.walk = before ++ walk) {cursor : Option String}
    (hcursor : h.after cursor = some walk) :
    ∃ raw page taken left, list h env maxScannedCommits cardId limit cursor = .ok (some page) ∧
      PageAt h (touchesCard h cardId) walk raw taken left ∧ page.nextCursor = raw.nextCursor ∧
      page.scanLimited = raw.scanLimited ∧
      List.Forall₂ (Finished h env cardId) raw.entries page.entries := by
  obtain ⟨raw, taken, left, hcollect, -, hpage⟩ := collect_page hc
    (show [livePath cardId, trashPath cardId] ≠ [] by simp) hlimit.1 hmax hw (h.walk.length + 1) walk []
    cursor ⟨[], none⟩ ⟨rfl, rfl, .inl rfl⟩ hcursor (by rw [hw, List.length_append]; omega)
  have hknown : ∀ session ∈ raw.entries, ∃ entry,
      finishEntry h env cardId (raw.entries.map (·.lastOid)) session = .ok entry ∧
        Finished h env cardId session entry := by
    intro session hs
    rw [hpage.entries] at hs
    have hmem : ∀ commit ∈ taken.filter (h.Touches [livePath cardId, trashPath cardId] ·),
        commit ∈ h.walk ∧ touchesCard h cardId commit = true := by
      intro commit hcommit
      obtain ⟨htaken, htouches⟩ := List.mem_filter.mp hcommit
      rw [hw, hpage.split]
      exact ⟨List.mem_append_right _ (List.mem_append_left _ htaken), htouches⟩
    obtain ⟨hlast, hparents⟩ := sessions_readable hread hmem hs
    exact finishEntry_ok hlast hparents
  obtain ⟨entries, hmap, hall⟩ := Finished.mapM hknown
  refine ⟨raw, { raw with entries }, taken, left, ?_, hpage, rfl, rfl, hall⟩
  have hlive : cardRelPath cardId = .ok (livePath cardId) := cardRelPath_ok_iff.mpr ⟨hlen, rfl⟩
  have htrash : cardTrashRelPath cardId = .ok (trashPath cardId) :=
    cardTrashRelPath_ok_iff.mpr ⟨hlen, rfl⟩
  unfold list
  rw [if_neg (by omega), if_neg (by omega), hlive, htrash]
  simp only [bind, Except.bind, pure, Except.pure, hcollect, hmap]

/-- The saves of entries, read newest first, are those of their sessions. -/
theorem saves_of_finished {raw entries : List CardHistoryEntry}
    (h : List.Forall₂ (Finished h env cardId) raw entries) :
    entries.flatMap (·.saves.reverse) = raw.flatMap (·.saves.reverse) := by
  induction h with
  | nil => rfl
  | cons hfin _ ih => rw [List.flatMap_cons, List.flatMap_cons, ih, hfin.eq]

theorem saves_of_sessions (commits : List GitHistoryCommit) :
    (sessions.group commits).flatMap (·.saves.reverse) = commits.map saveOf := by
  have hfirst : ∀ commit, (sessions.first commit).saves.reverse = [saveOf commit] := fun _ => rfl
  refine (Grouping.flatMap_addAll hfirst (fun entry commit => ?_) [] commits).trans
    (List.nil_append _)
  change (saveOf commit :: entry.saves).reverse = _
  exact List.reverse_cons

theorem followPages_from (hc : h.Complete) (hlen : 4 ≤ cardId.length) (hmax : 1 ≤ maxScannedCommits)
    (hread : Readable h env cardId) (limits : List Nat)
    (hlimits : ∀ limit ∈ limits, 1 ≤ limit ∧ limit ≤ 200) (before walk : List GitHistoryCommit)
    (hw : h.walk = before ++ walk) (cursor : Option String) (hcursor : h.after cursor = some walk)
    (hturns : walk.length < limits.length) :
    ∃ pages, followPages h env maxScannedCommits cardId limits cursor = .ok (some pages) ∧
      (pages.flatMap (·.entries)).flatMap (·.saves.reverse) =
        (walk.filter (touchesCard h cardId)).map saveOf ∧
      ((∀ page ∈ pages, page.scanLimited = false) →
        List.Forall₂ (Finished h env cardId)
          (sessions.group (walk.filter (touchesCard h cardId))) (pages.flatMap (·.entries))) := by
  induction limits generalizing before walk cursor with
  | nil => simp at hturns
  | cons limit limits ih =>
    obtain ⟨raw, page, taken, left, hlist, hpage, hnext, hlimited, hall⟩ :=
      list_page hc hlen hmax hread (hlimits limit List.mem_cons_self) hw hcursor
    have hsaves : page.entries.flatMap (·.saves.reverse) =
        (taken.filter (touchesCard h cardId)).map saveOf := by
      rw [saves_of_finished hall, hpage.entries, saves_of_sessions]
    have hsplit : walk.filter (touchesCard h cardId) =
        taken.filter (touchesCard h cardId) ++ left.filter (touchesCard h cardId) := by
      rw [hpage.split, List.filter_append]
    rw [followPages, hlist]
    simp only [bind, Except.bind]
    cases hcur : page.nextCursor with
    | none =>
      have hleft := hpage.last (hnext ▸ hcur)
      refine ⟨[page], rfl, ?_, fun _ => ?_⟩
      · rw [hsplit, hleft, List.append_nil, List.flatMap_singleton, hsaves]
      · rw [hsplit, hleft, List.append_nil, List.flatMap_singleton, ← hpage.entries]
        exact hall
    | some next =>
      obtain ⟨htaken, hafter⟩ := hpage.next next (hnext ▸ hcur)
      have hshort : left.length < walk.length := by
        have := List.length_pos_iff.mpr htaken
        rw [hpage.split, List.length_append]
        omega
      obtain ⟨pages, hpages, hrest, hgroups⟩ :=
        ih (fun limit hl => hlimits limit (List.mem_cons_of_mem _ hl)) (before ++ taken) left
          (by rw [hw, hpage.split, List.append_assoc]) (some next) hafter
          (by rw [List.length_cons] at hturns; omega)
      refine ⟨page :: pages, ?_, ?_, fun hunlimited => ?_⟩
      · dsimp only
        rw [hpages]
        rfl
      · rw [List.flatMap_cons, List.flatMap_append, hsaves, hrest, hsplit, List.map_append]
      · -- the next page begins with a commit that does not join this page's last session
        have hopen := hlimited ▸ hunlimited page List.mem_cons_self
        obtain ⟨commit, more, hleft, hclosed⟩ := hpage.closed hopen (by rw [← hnext, hcur]; rfl)
        have htail := hgroups fun p hp => hunlimited p (List.mem_cons_of_mem _ hp)
        rw [hleft] at htail
        rw [hsplit, Grouping.group_append, hleft, ← hpage.entries, Grouping.addAll_closed hclosed,
          List.flatMap_cons]
        exact List.rel_append hall htail

/-- The pages of a card's history, whatever their limits and the bound of the scan, end; their
entries save every commit that touches the card once, in the order of the walk, and where no scan
was cut short they are the sessions of the whole walk. -/
theorem cardHistory_complete (hc : h.Complete) (hlen : 4 ≤ cardId.length)
    (hmax : 1 ≤ maxScannedCommits) (hread : Readable h env cardId) {limits : List Nat}
    (hlimits : ∀ limit ∈ limits, 1 ≤ limit ∧ limit ≤ 200) (hturns : h.walk.length < limits.length) :
    ∃ pages, followPages h env maxScannedCommits cardId limits none = .ok (some pages) ∧
      (pages.flatMap (·.entries)).flatMap (·.saves.reverse) =
        (h.walk.filter (touchesCard h cardId)).map saveOf ∧
      ((∀ page ∈ pages, page.scanLimited = false) →
        List.Forall₂ (Finished h env cardId)
          (sessions.group (h.walk.filter (touchesCard h cardId))) (pages.flatMap (·.entries))) :=
  followPages_from hc hlen hmax hread limits hlimits [] h.walk rfl none rfl hturns

end

/-! ## Two versions of a card -/

/-- The file of a card at its live path. -/
def versionTree (bytes : Bytes) : Tree := (∅ : Tree).insert (livePath "aaaa") bytes

def versionOf (body : String) : Bytes :=
  renderCardFrontMatter flowYaml (plainCard "aaaa" "a" none 1) [] [] ++ body.toList

def versionCommit (oid : String) (parentOids : List String) (committedAt : Int) : GitHistoryCommit where
  oid
  parentOids
  authorName := "a"
  authorEmail := "a"
  authoredAt := committedAt
  committedAt
  message := "Update card a"

/-- A card that was created and, an hour later, edited. -/
def twoVersions (first second : Bytes) : GitHistory where
  walk := [versionCommit "2" ["1"] 3600, versionCommit "1" [] 0]
  trees := ((∅ : Map String Tree).insert "1" (versionTree first)).insert "2" (versionTree second)

theorem Readable.of_trees [NatCast K] {h : GitHistory} {env : Env K} {cardId : String} (hc : h.Complete)
    (hall : ∀ kv ∈ h.trees.toList, (snapshotAt h env cardId (some kv.1)).isOk = true) :
    Readable h env cardId := by
  intro commit hcommit _ oid hmem
  have hoid : h.trees[oid]?.isSome := by
    rcases List.mem_cons.mp hmem with rfl | hparent
    · exact hc.tree commit hcommit
    · exact hc.parents commit hcommit oid hparent
  obtain ⟨tree, htree⟩ := Option.isSome_iff_exists.mp hoid
  have hok := hall (oid, tree) (Std.ExtTreeMap.mem_toList_iff_getElem?_eq_some.mpr htree)
  cases hs : snapshotAt h env cardId (some oid) with
  | ok snapshot => exact ⟨snapshot, rfl⟩
  | error e => rw [hs] at hok; cases hok

theorem twoVersions_complete :
    ∃ pages, followPages (twoVersions (versionOf "x") (versionOf "y")) (plainEnv fun _ => []) 1 "aaaa"
        [1, 2, 1] none = .ok (some pages) ∧
      (pages.flatMap (·.entries)).flatMap (·.saves.reverse) =
        ((twoVersions (versionOf "x") (versionOf "y")).walk.filter (touchesCard
          (twoVersions (versionOf "x") (versionOf "y")) "aaaa")).map saveOf := by
  have hstate : ((twoVersions (versionOf "x") (versionOf "y")).walk.map (·.oid)).Nodup ∧
      (∀ commit ∈ (twoVersions (versionOf "x") (versionOf "y")).walk,
        ((twoVersions (versionOf "x") (versionOf "y")).trees[commit.oid]?).isSome ∧
        ∀ parent ∈ commit.parentOids,
          ((twoVersions (versionOf "x") (versionOf "y")).trees[parent]?).isSome) ∧
      ∀ kv ∈ (twoVersions (versionOf "x") (versionOf "y")).trees.toList,
        (snapshotAt (twoVersions (versionOf "x") (versionOf "y")) (plainEnv fun _ => []) "aaaa"
          (some kv.1)).isOk = true := by decide +kernel
  obtain ⟨hnodup, hobjects, hread⟩ := hstate
  have hcomplete : (twoVersions (versionOf "x") (versionOf "y")).Complete :=
    ⟨hnodup, fun c hc => (hobjects c hc).1, fun c hc => (hobjects c hc).2⟩
  obtain ⟨pages, hpages, hsaves, -⟩ := cardHistory_complete hcomplete (by decide) (le_refl 1)
    (Readable.of_trees hcomplete hread) (by decide : ∀ limit ∈ [1, 2, 1], 1 ≤ limit ∧ limit ≤ 200)
    (by decide)
  exact ⟨pages, hpages, hsaves⟩

/-- The pages of a history, if they all ended without a cut scan. -/
def unlimitedEntries (h : GitHistory) (limits : List Nat) : Option (List CardHistoryEntry) :=
  match followPages h (plainEnv fun _ => []) 1000 "aaaa" limits none with
  | .ok (some pages) =>
    if pages.all (!·.scanLimited) then some (pages.flatMap (·.entries)) else none
  | _ => none

/-- Which parents an entry shows depends on the limits, and a version that is no card file stops a
page. -/
theorem visible_parents_depend_on_limits :
    (∃ entries entries',
      unlimitedEntries (twoVersions (versionOf "x") (versionOf "y")) [2, 2, 2] = some entries ∧
      unlimitedEntries (twoVersions (versionOf "x") (versionOf "y")) [1, 1, 1] = some entries' ∧
      entries ≠ entries') ∧
    followPages (twoVersions "text".toList (versionOf "y")) (plainEnv fun _ => []) 1000 "aaaa"
      [2, 2, 2] none = .error (.runtimeError "Historical card content is malformed") := by
  have hstate :
      (unlimitedEntries (twoVersions (versionOf "x") (versionOf "y")) [2, 2, 2]).map
        (·.map (·.visibleParentOids)) = some [["1"], []] ∧
      (unlimitedEntries (twoVersions (versionOf "x") (versionOf "y")) [1, 1, 1]).map
        (·.map (·.visibleParentOids)) = some [[], []] ∧
      (match followPages (twoVersions "text".toList (versionOf "y")) (plainEnv fun _ => []) 1000
          "aaaa" [2, 2, 2] none with
        | .error e => e == .runtimeError "Historical card content is malformed"
        | .ok _ => false) = true := by decide +kernel
  obtain ⟨htwo, hone, hmalformed⟩ := hstate
  obtain ⟨entries, hentries, hvisible⟩ := Option.map_eq_some_iff.mp htwo
  obtain ⟨entries', hentries', hvisible'⟩ := Option.map_eq_some_iff.mp hone
  refine ⟨⟨entries, entries', hentries, hentries', fun he => ?_⟩, ?_⟩
  · rw [he, hvisible'] at hvisible
    cases hvisible
  · split at hmalformed
    · next e he => rw [he, beq_iff_eq.mp hmalformed]
    · cases hmalformed

end CardHistory
end HolderCore
