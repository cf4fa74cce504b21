import HolderCore.Platform.DatabaseRebuild
import HolderCore.Project.InSync
import HolderCore.Card.Rebuildable

/-! # What a rebuild of the database leaves alone

A rebuild that throws, or that only tries, should leave the old database, the card files and the
quarantine log as they were. It does so exactly when its audit finds no card without a file, the
interrupted card changes it settles on the way leave the card files, and nothing fails between the
move of the old database and the end that is not put back. -/

namespace HolderCore

/-- A file of a project. -/
def fileAt (roots : Map String ProjectRoot) (rootPath path : String) : Option Bytes :=
  roots[rootPath]?.bind fun root => root.repo.work[path]?

/-- A path of a card file. -/
def isCardPath (path : String) : Bool :=
  startsWith "cards/" path.toList || startsWith "trash/cards/" path.toList

/-- The card files are the same. -/
def SameCardFiles (roots roots' : Map String ProjectRoot) : Prop :=
  ∀ rootPath path : String, isCardPath path = true →
    fileAt roots' rootPath path = fileAt roots rootPath path

theorem SameCardFiles.refl (roots : Map String ProjectRoot) : SameCardFiles roots roots :=
  fun _ _ _ => rfl

section
variable {K O : Type} [NatCast K]

/-- The old database, the card files and the log are as before. -/
structure Untouched (disk disk' : Disk K O) : Prop where
  database : disk'.database = disk.database
  files : SameCardFiles disk.roots disk'.roots
  log : disk'.log = disk.log

/-- The database is a rebuilt one that was validated, and the one before is in a backup directory. -/
structure Replaced (sys : RebuildSystem K O) (request : DatabaseRebuildRequest K O)
    (disk disk' : Disk K O) : Prop where
  rebuilt : ∃ db counts oldCounts, disk'.database = .healthy db ∧
    buildRebuilt sys request oldCounts disk.roots = .ok (db, counts) disk'.roots ∧
    sys.validateDatabase db request.expectedSchemaVersion = .ok () ∧
    request.hooks.validateRebuilt db = .ok ()
  backup : disk.database = .missing ∨ disk'.backups = disk.database :: disk.backups

/-- A rebuild that throws or only tries changes nothing, and one that returns has replaced the
database. -/
def AllOrNothing (sys : RebuildSystem K O) (request : DatabaseRebuildRequest K O)
    (disk : Disk K O) : Prop :=
  Ends (rebuildDatabaseProjection sys request) disk
    (fun _ disk' => if request.dryRun then Untouched disk disk' else Replaced sys request disk disk')
    fun _ disk' => Untouched disk disk'

/-- No failure strands the old database, and one that throws finds the card files `kept`. -/
def SparesOnReplace (sys : RebuildSystem K O) (kept : Prop) : DatabaseFile K O → Prop
  | .healthy db => if sys.fails .createBackup then kept
      else sys.fails .moveSidecars = false ∧ (sys.fails .replace = true →
        kept ∧ sys.fails .moveBack = false ∧
          (sys.fails .moveSidecarsBack = true → sys.withoutSidecars db = .healthy db))
  | .missing => sys.fails .replace = true → kept
  | _ => if sys.fails .createBackup then kept
      else sys.fails .moveSidecars = false ∧ sys.fails .replace = false

/-- The files that settling a journal puts back. -/
def putBack (repo : Repo) (saved : Journal) : Map String JournalFile :=
  if branchTip repo saved = saved.head then saved.files
  else if (landedCommit repo saved).isSome then ∅
  else saved.files.filter fun key file => file.after = some repo.work[key]?

/-- The card files that settling the root's journal puts back are as they were. -/
def ProjectRoot.SettlesQuietly (root : ProjectRoot) : Prop :=
  ∀ saved, root.journal = some saved → ∀ (key : String) (file : JournalFile),
    (putBack root.repo saved)[key]? = some file → isCardPath key = true →
      root.repo.work[key]? = file.before

/-- A root whose project is not there yet settles quietly. -/
def QuietAt (sys : RebuildSystem K O) (db : Database K O) (rootPath : String)
    (roots : Map String ProjectRoot) : Prop :=
  ∀ root project, roots[rootPath]? = some root → sys.readProjectManifest root.repo.work = .ok project →
    db.projects[project.projectId]? = none → root.SettlesQuietly

/-- So does each root that `recover_project_roots` gets to. -/
def EachSettlesQuietly (sys : RebuildSystem K O) :
    Database K O → List String → Map String ProjectRoot → Prop
  | _, [], _ => True
  | db, rootPath :: rootPaths, roots => QuietAt sys db rootPath roots ∧
    ∀ db' roots', recoverProjectRoot sys db rootPath roots = .ok db' roots' →
      EachSettlesQuietly sys db' rootPaths roots'

/-- Settling the journals of the roots leaves their card files. -/
def JournalsQuiet (sys : RebuildSystem K O) (request : DatabaseRebuildRequest K O)
    (roots : Map String ProjectRoot) : Prop :=
  ∀ other db, sys.applySchema request.schemaSql = .ok other →
    request.hooks.restoreBeforeProjects { projects := ∅, other } = .ok db →
      EachSettlesQuietly sys db (normalizedRoots request.projectRoots) roots

/-- The new database can be built from the roots. -/
def Builds (sys : RebuildSystem K O) (request : DatabaseRebuildRequest K O)
    (oldCounts : Option Counts) (roots : Map String ProjectRoot) : Prop :=
  ∃ result roots', buildRebuilt sys request oldCounts roots = .ok result roots'

/-- When a rebuild is all or nothing. -/
structure Spares (sys : RebuildSystem K O) (request : DatabaseRebuildRequest K O) (disk : Disk K O) :
    Prop where
  /-- An audit that gets to the cards misses no file, or the first deletion fails. -/
  quarantine : ∀ db missing, checkRequest sys request disk = .ok () → disk.database = .healthy db →
    requireMetadata db disk.roots = .ok () → missingCards db disk.roots = .ok missing →
      ∀ entry ∈ missing.head?, sys.fails (.deleteCard entry.cardId) = true
  /-- The interrupted changes leave the card files, unless the database is replaced. -/
  journals : ∀ oldCounts, checkRequest sys request disk = .ok () →
    auditOld sys request disk = .ok (0, oldCounts) disk → disk.stale = false →
      ¬ Builds sys request oldCounts disk.roots ∨ request.dryRun = true →
        JournalsQuiet sys request disk.roots
  replace : ∀ oldCounts, checkRequest sys request disk = .ok () →
    auditOld sys request disk = .ok (0, oldCounts) disk → disk.stale = false →
      Builds sys request oldCounts disk.roots → request.dryRun = false →
        SparesOnReplace sys (JournalsQuiet sys request disk.roots) disk.database

variable {sys : RebuildSystem K O} {request : DatabaseRebuildRequest K O} {disk : Disk K O}

/-! ## The audit -/

/-- A card has a row in some project. -/
def Database.HasRow (db : Database K O) (cardId : String) : Prop :=
  ∃ (projectId : String) (p : ProjectRow × Db K) (c : Card K),
    db.projects[projectId]? = some p ∧ p.2.cards[cardId]? = some c

omit [NatCast K] in
theorem deleteCard_gone (db : Database K O) (cardId : String) :
    ¬ (db.deleteCard cardId).HasRow cardId := by
  rintro ⟨projectId, p, c, hp, hc⟩
  simp only [Database.deleteCard, Map.get_map, Option.map_eq_some_iff] at hp
  obtain ⟨q, -, rfl⟩ := hp
  simp [deleteCardRows] at hc

omit [NatCast K] in
/-- A row that is gone stays gone. -/
theorem deleteCard_stays {db : Database K O} {cardId : String} (other : String)
    (h : ¬ db.HasRow cardId) : ¬ (db.deleteCard other).HasRow cardId := by
  rintro ⟨projectId, p, c, hp, hc⟩
  simp only [Database.deleteCard, Map.get_map, Option.map_eq_some_iff] at hp
  obtain ⟨q, hq, rfl⟩ := hp
  by_cases he : other = cardId
  · simp [deleteCardRows, he] at hc
  · simp only [deleteCardRows, Map.get_map, Map.get_erase_ne he, Option.map_eq_some_iff] at hc
    obtain ⟨c', hc', -⟩ := hc
    exact h ⟨projectId, q, c', hq, hc'⟩

omit [NatCast K] in
theorem mem_cardRows {db : Database K O} {row : String × String × String × Card K} :
    row ∈ cardRows db ↔ ∃ p, db.projects[row.2.1]? = some p ∧ p.1.rootPath = row.1 ∧
      p.2.cards[row.2.2.1]? = some row.2.2.2 := by
  obtain ⟨rootPath, projectId, cardId, card⟩ := row
  simp only [cardRows, List.mem_flatMap, List.mem_map, Prod.exists, Prod.mk.injEq,
    Std.ExtTreeMap.mem_toList_iff_getElem?_eq_some]
  constructor
  · rintro ⟨_, row, rows, hp, _, _, hc, rfl, rfl, rfl, rfl⟩
    exact ⟨row, rows, hp, rfl, hc⟩
  · rintro ⟨row, rows, hp, rfl, hc⟩
    exact ⟨_, row, rows, hp, _, _, hc, rfl, rfl, rfl, rfl⟩

omit [NatCast K] in
theorem missingCard_iff {roots : Map String ProjectRoot} {rootPath projectId cardId : String}
    {card : Card K} {entry : Option QuarantineEntry} :
    missingCard roots (rootPath, projectId, cardId, card) = .ok entry ↔ 4 ≤ cardId.length ∧
      entry = if isRegularFile roots rootPath (cardPathOf card.deletedAt.isSome cardId) then none
        else some ⟨cardId, projectId, card.title, card.deletedAt.isSome⟩ := by
  unfold missingCard cardTrashRelPath cardRelPath cardPathOf
  by_cases hlen : cardId.length < 4
  · have hlen' : ¬ 4 ≤ cardId.length := by omega
    cases hdel : card.deletedAt <;> simp [hdel, hlen, hlen', bind, Except.bind]
  · have hlen' : 4 ≤ cardId.length := by omega
    cases hdel : card.deletedAt <;>
      simp [hdel, hlen, hlen', bind, Except.bind, pure, Except.pure, trashPath, @eq_comm _ entry]

omit [NatCast K] in
/-- The entries are those of the rows without a file. -/
theorem mem_missingCards {db : Database K O} {roots : Map String ProjectRoot}
    {missing : List QuarantineEntry} (h : missingCards db roots = .ok missing)
    {entry : QuarantineEntry} : entry ∈ missing ↔ ∃ row ∈ cardRows db,
      isRegularFile roots row.1 (cardPathOf row.2.2.2.deletedAt.isSome row.2.2.1) = false ∧
        entry = ⟨row.2.2.1, row.2.1, row.2.2.2.title, row.2.2.2.deletedAt.isSome⟩ := by
  unfold missingCards at h
  simp only [bind, Except.bind] at h
  split at h
  · cases h
  · next entries hentries =>
    cases h
    have hall := Except.forall₂_of_mapM hentries
    simp only [List.mem_filterMap, id_eq, exists_eq_right]
    constructor
    · intro he
      obtain ⟨⟨rootPath, projectId, cardId, card⟩, hrow, hmissing⟩ := hall.exists_left he
      obtain ⟨-, hentry⟩ := missingCard_iff.mp hmissing
      split at hentry
      · cases hentry
      · next hfile =>
        exact ⟨_, hrow, by simpa using hfile, Option.some.inj hentry⟩
    · rintro ⟨⟨rootPath, projectId, cardId, card⟩, hrow, hfile, rfl⟩
      obtain ⟨x, hx, hmissing⟩ := hall.exists_right hrow
      obtain ⟨-, rfl⟩ := missingCard_iff.mp hmissing
      dsimp only at hfile
      rwa [hfile, if_neg (by simp)] at hx

omit [NatCast K] in
theorem missingCards_hasRow {db : Database K O} {roots : Map String ProjectRoot}
    {missing : List QuarantineEntry} (h : missingCards db roots = .ok missing)
    {entry : QuarantineEntry} (he : entry ∈ missing) : db.HasRow entry.cardId := by
  obtain ⟨row, hrow, -, rfl⟩ := (mem_missingCards h).mp he
  obtain ⟨p, hp, -, hc⟩ := mem_cardRows.mp hrow
  exact ⟨_, p, _, hp, hc⟩

/-- The old database is another one. -/
def OldDiffers (db : Database K O) (disk' : Disk K O) : Prop :=
  ∃ db', disk'.database = .healthy db' ∧ db' ≠ db

omit [NatCast K] in
/-- Once a card's row is gone, whatever else is deleted leaves another database. -/
theorem deleteCards_differs {db db' : Database K O} {cardId : String} (hrow : db.HasRow cardId)
    (hgone : ¬ db'.HasRow cardId) (hdb : disk.database = .healthy db')
    (entries : List QuarantineEntry) :
    Ends (deleteCards sys db' entries) disk
      (fun _ disk' => OldDiffers db disk' ∧ disk'.log = disk.log) (fun _ disk' => OldDiffers db disk') := by
  induction entries generalizing db' disk with
  | nil => exact ⟨⟨db', hdb, fun he => hgone (he ▸ hrow)⟩, rfl⟩
  | cons entry entries ih =>
    simp only [deleteCards, Ends.bind_iff, Ends.ite_iff, Ends.throw_iff, Ends.modify_iff]
    refine ⟨fun _ => ⟨db', hdb, fun he => hgone (he ▸ hrow)⟩, fun _ => ?_⟩
    exact ih (deleteCard_stays entry.cardId hgone) rfl

omit [NatCast K] in
/-- A log with new entries is another one. -/
theorem appendQuarantineLog_ends {entry : QuarantineEntry} {entries : List QuarantineEntry} :
    Ends (appendQuarantineLog sys (entry :: entries)) disk
      (fun _ disk' => disk'.database = disk.database ∧ disk'.log ≠ disk.log)
      (fun _ disk' => disk' = disk) := by
  have hgrows : ∀ log : List QuarantineEntry, log ++ entry :: entries ≠ log := by simp
  have hlog : some (some (disk.log.join.getD [] ++ entry :: entries)) ≠ disk.log := by
    intro he
    have hgetD := congrArg (fun log : Option (Option (List QuarantineEntry)) => log.join.getD []) he
    exact hgrows _ hgetD
  simp [appendQuarantineLog, hlog]

omit [NatCast K] in
/-- An audit whose first deletion goes through has taken a row out of the database, and if it passes it
has written the log. -/
theorem auditCore_deletes {db : Database K O} {entry : QuarantineEntry}
    {entries : List QuarantineEntry} (hmeta : requireMetadata db disk.roots = .ok ())
    (hmissing : missingCards db disk.roots = .ok (entry :: entries))
    (hfirst : sys.fails (.deleteCard entry.cardId) = false) :
    Ends (auditCoreDurableOwnership sys db) disk
      (fun _ disk' => OldDiffers db disk' ∧ disk'.log ≠ disk.log)
      (fun _ disk' => OldDiffers db disk') := by
  have hrow := missingCards_hasRow hmissing List.mem_cons_self
  simp only [auditCoreDurableOwnership, quarantineCardsWithMissingFiles, Ends.bind_iff, Ends.get_iff,
    hmeta, hmissing, fromExcept, Ends.pure_iff, deleteCards, hfirst, Bool.false_eq_true, if_false,
    Ends.modify_iff]
  refine (deleteCards_differs hrow (deleteCard_gone db entry.cardId) rfl entries).mono ?_
    fun _ _ he => he
  rintro db2 d2 ⟨⟨db', hdb', hne⟩, hlog2⟩
  refine appendQuarantineLog_ends.mono ?_ ?_
  · rintro - d3 ⟨hd3, hlog3⟩
    have hdiff : OldDiffers db d3 := ⟨db', hd3.trans hdb', hne⟩
    exact Ends.fromExcept_iff.mpr ⟨fun _ _ => ⟨hdiff, fun he => hlog3 (he.trans hlog2.symm)⟩,
      fun _ _ => hdiff⟩
  · rintro - d3 rfl
    exact ⟨db', hdb', hne⟩

omit [NatCast K] in
theorem auditOld_healthy {db : Database K O} (hdb : disk.database = .healthy db)
    {Q : Nat × Option Counts → Disk K O → Prop} {E : Exn → Disk K O → Prop} :
    Ends (auditOld sys request) disk Q E ↔
      Ends (auditCoreDurableOwnership sys db) disk (fun r disk' =>
        Ends (fromExcept (request.hooks.auditExisting r.1)) disk' (fun _ disk' =>
          Q (r.2, some (durableCounts sys.otherCounts r.1)) disk') E) E := by
  simp only [auditOld, Ends.bind_iff, Ends.get_iff, hdb, Ends.pure_iff]

omit [NatCast K] in
theorem auditOld_deletes {db : Database K O} {entry : QuarantineEntry}
    {entries : List QuarantineEntry} (hdb : disk.database = .healthy db)
    (hmeta : requireMetadata db disk.roots = .ok ())
    (hmissing : missingCards db disk.roots = .ok (entry :: entries))
    (hfirst : sys.fails (.deleteCard entry.cardId) = false) :
    Ends (auditOld sys request) disk (fun _ disk' => OldDiffers db disk' ∧ disk'.log ≠ disk.log)
      (fun _ disk' => OldDiffers db disk') := by
  refine (auditOld_healthy hdb).mpr ?_
  refine (auditCore_deletes hmeta hmissing hfirst).mono ?_ fun _ _ he => he
  exact fun _ _ hdiff => Ends.fromExcept_iff.mpr ⟨fun _ _ => hdiff, fun _ _ => hdiff.1⟩

omit [NatCast K] in
/-- The audit of the old database passes or throws and changes nothing, or a card's file is missing and
the first deletion goes through. -/
theorem auditOld_cases :
    (∃ oldCounts, auditOld sys request disk = .ok (0, oldCounts) disk) ∨
      (∃ e, auditOld sys request disk = .error e disk) ∨
      ∃ db entry entries, disk.database = .healthy db ∧ requireMetadata db disk.roots = .ok () ∧
        missingCards db disk.roots = .ok (entry :: entries) ∧
        sys.fails (.deleteCard entry.cardId) = false := by
  cases hdb : disk.database with
  | healthy db =>
    have hquiet : Ends (auditOld sys request) disk (fun r disk' => r.1 = 0 ∧ disk' = disk)
        (fun _ disk' => disk' = disk) → (∃ oldCounts, auditOld sys request disk = .ok (0, oldCounts) disk) ∨
          ∃ e, auditOld sys request disk = .error e disk := by
      intro hends
      cases hrun : auditOld sys request disk with
      | ok r disk' =>
        obtain ⟨h0, rfl⟩ := hends.ok hrun
        obtain ⟨n, oldCounts⟩ := r
        cases h0
        exact .inl ⟨oldCounts, rfl⟩
      | error e disk' =>
        cases hends.error hrun
        exact .inr ⟨e, rfl⟩
    rw [← or_assoc]
    cases hmeta : requireMetadata db disk.roots with
    | error e =>
      refine .inl (hquiet ((auditOld_healthy hdb).mpr ?_))
      simp [auditCoreDurableOwnership, hmeta]
    | ok u =>
      cases u
      cases hmissing : missingCards db disk.roots with
      | error e =>
        refine .inl (hquiet ((auditOld_healthy hdb).mpr ?_))
        simp [auditCoreDurableOwnership, quarantineCardsWithMissingFiles, hmeta, hmissing]
      | ok missing =>
        cases missing with
        | nil =>
          refine .inl (hquiet ((auditOld_healthy hdb).mpr ?_))
          simp [auditCoreDurableOwnership, quarantineCardsWithMissingFiles, hmeta, hmissing,
            deleteCards, appendQuarantineLog, -bind_pure_comp]
        | cons entry entries =>
          cases hfirst : sys.fails (.deleteCard entry.cardId) with
          | true =>
            refine .inl (hquiet ((auditOld_healthy hdb).mpr ?_))
            simp [auditCoreDurableOwnership, quarantineCardsWithMissingFiles, hmeta, hmissing,
              deleteCards, hfirst]
          | false => exact .inr ⟨db, entry, entries, rfl, hmeta, hmissing, hfirst⟩
  | _ =>
    refine .inl ⟨none, ?_⟩
    simp [auditOld, bind, EStateM.bind, get, getThe, MonadStateOf.get, EStateM.get, hdb, pure,
      EStateM.pure]

/-! ## Settling the journals -/

/-- A world with other files. -/
def World.withWork (w : World K) (work : Tree) : World K := { w with repo := { w.repo with work } }

omit [NatCast K] in
theorem restoreFiles_ok (env : Env K) (entries : List (String × JournalFile)) (rest : List (Step K))
    (w : World K) : runSteps env (entries.map (fun entry => .restoreFile entry.1 entry.2.before) ++ rest) w =
      runSteps env rest (w.withWork
        (entries.foldl (fun work entry => work.put entry.1 entry.2.before) w.repo.work)) := by
  induction entries generalizing w with
  | nil => rfl
  | cons entry entries ih =>
    rw [List.map_cons, List.cons_append, runSteps, List.foldl_cons]
    exact ih _

omit [NatCast K] in
/-- Settling a journal does not fail, and changes only the files that it puts back. -/
theorem recoverySteps_putBack (env : Env K) (w : World K) : ∃ w',
    runSteps env (recoverySteps w) w = .ok w' ∧ ∀ path : String, w'.repo.work[path]? =
      (w.journal.bind fun saved => (putBack w.repo saved)[path]?).elim w.repo.work[path]? (·.before) := by
  cases hj : w.journal with
  | none => exact ⟨w, by rw [recoverySteps, hj]; rfl, fun _ => rfl⟩
  | some saved =>
    simp only [recoverySteps, hj, putBack, Option.bind_some]
    split
    · refine ⟨_, restoreFiles_ok env saved.files.toList _ w, fun path => ?_⟩
      exact Map.get_foldl_put_toList _ _ _ _
    · cases hlanded : landedCommit w.repo saved with
      | some landed =>
        simp only [Option.isSome_some, if_true]
        split
        · exact ⟨_, rfl, fun path => by simp⟩
        · exact ⟨w, rfl, fun path => by simp⟩
      | none =>
        simp only [Option.isSome_none, Bool.false_eq_true, if_false]
        have hsteps : ∀ f : String × JournalFile → Option (Step K), (∀ entry, f entry =
            if entry.2.after = some w.repo.work[entry.1]? then some (.restoreFile entry.1 entry.2.before)
            else none) → saved.files.toList.filterMap f =
            (saved.files.filter fun key file => file.after = some w.repo.work[key]?).toList.map
              (fun entry => (.restoreFile entry.1 entry.2.before : Step K)) := by
          intro f hf
          rw [Std.ExtTreeMap.toList_filter]
          induction saved.files.toList with
          | nil => rfl
          | cons entry entries ih =>
            rw [List.filterMap_cons, List.filter_cons, ih, hf]
            by_cases hafter : entry.2.after = some w.repo.work[entry.1]? <;> simp [hafter]
        rw [hsteps _ fun _ => rfl, ← List.append_nil (List.map _ _), restoreFiles_ok]
        exact ⟨_, rfl, fun path => Map.get_foldl_put_toList _ _ _ _⟩

/-- The roots after some were visited: the others are as they were, and the card files are the same
exactly when `quiet`. -/
structure Visited (rootPaths : List String) (quiet : Prop) (roots roots' : Map String ProjectRoot) :
    Prop where
  others : ∀ rootPath : String, rootPath ∉ rootPaths → roots'[rootPath]? = roots[rootPath]?
  files : SameCardFiles roots roots' ↔ quiet

theorem Visited.unchanged {rootPaths : List String} {quiet : Prop} {roots : Map String ProjectRoot}
    (h : quiet) : Visited rootPaths quiet roots roots :=
  ⟨fun _ _ => rfl, iff_of_true (.refl roots) h⟩

omit [NatCast K] in
/-- A root whose journal was settled. -/
theorem ProjectRoot.settled_visited {roots : Map String ProjectRoot} {rootPath : String}
    {root : ProjectRoot} (hroot : roots[rootPath]? = some root) {w : World K}
    (hwork : ∀ path : String, w.repo.work[path]? =
      (root.journal.bind fun saved => (putBack root.repo saved)[path]?).elim root.repo.work[path]? (·.before))
    (journal : Option Journal) :
    Visited [rootPath] root.SettlesQuietly roots (roots.insert rootPath ⟨w.repo, journal⟩) := by
  refine ⟨fun other hother => ?_, fun hsame saved hj key file hkey hcard => ?_,
    fun hquiet other path hcard => ?_⟩
  · rw [Map.get_insert_ne]
    rintro rfl
    exact hother List.mem_cons_self
  · have hfile := hsame rootPath key hcard
    rw [fileAt, fileAt, Map.get_insert, if_pos rfl, hroot, Option.bind_some, Option.bind_some] at hfile
    change w.repo.work[key]? = root.repo.work[key]? at hfile
    rw [hwork, hj, Option.bind_some, hkey] at hfile
    exact hfile.symm
  · by_cases hother : rootPath = other
    · subst hother
      rw [fileAt, fileAt, Map.get_insert, if_pos rfl, hroot, Option.bind_some, Option.bind_some]
      change w.repo.work[path]? = root.repo.work[path]?
      rw [hwork]
      cases hj : root.journal with
      | none => rfl
      | some saved =>
        rw [Option.bind_some]
        cases hkey : (putBack root.repo saved)[path]? with
        | none => rfl
        | some file => exact (hquiet saved hj path file hkey hcard).symm
    · rw [fileAt, fileAt, Map.get_insert_ne hother]

theorem recoverProjectRoot_visited (db : Database K O) (rootPath : String)
    (roots : Map String ProjectRoot) : Ends (recoverProjectRoot sys db rootPath) roots
      (fun _ roots' => Visited [rootPath] (QuietAt sys db rootPath roots) roots roots')
      fun _ roots' => Visited [rootPath] (QuietAt sys db rootPath roots) roots roots' := by
  have hsame : ∀ quiet, quiet → Visited [rootPath] quiet roots roots := fun _ => .unchanged
  unfold recoverProjectRoot
  rw [Ends.bind_iff, Ends.get_iff]
  cases hroot : roots[rootPath]? with
  | none => exact hsame _ fun root project hr => by rw [hroot] at hr; cases hr
  | some root =>
    simp only [Ends.bind_iff, Ends.fromExcept_iff]
    refine ⟨fun project hmanifest => ?_, fun e he => hsame _ fun r project hr hm => ?_⟩
    · cases hp : db.projects[project.projectId]? with
      | some p =>
        have hquiet : QuietAt sys db rootPath roots := by
          intro r project' hr hm hnone
          rw [hroot, Option.some.injEq] at hr
          subst hr
          rw [hmanifest, Except.ok.injEq] at hm
          subst hm
          rw [hp] at hnone
          cases hnone
        obtain ⟨row, rows⟩ := p
        simp only [Ends.ite_iff, Ends.bind_iff, Ends.throw_iff, Ends.pure_iff]
        exact ⟨fun _ => hsame _ hquiet, fun _ => hsame _ hquiet⟩
      | none =>
        have hquiet : QuietAt sys db rootPath roots ↔ root.SettlesQuietly := by
          refine ⟨fun h => h root project hroot hmanifest hp, fun h r project' hr _ _ => ?_⟩
          rw [hroot, Option.some.injEq] at hr
          exact hr ▸ h
        obtain ⟨w, hrun, hwork⟩ := recoverySteps_putBack { sys.env with project }
          (⟨Db.empty, root.repo, root.journal, 0⟩ : World K)
        have hvisited := ProjectRoot.settled_visited hroot hwork
        rw [hquiet]
        simp only [hrun, Ends.bind_iff, Ends.modify_iff, Ends.fromExcept_iff, Ends.ite_iff, Ends.throw_iff,
          Ends.pure_iff]
        refine ⟨fun rows _ => ⟨fun _ => hvisited _, fun _ => ⟨fun _ => hvisited _, fun _ =>
          ⟨fun other _ => ?_, fun _ _ => hvisited _⟩⟩⟩, fun _ _ => hvisited _⟩
        have htwice : (roots.insert rootPath ⟨w.repo, w.journal⟩).insert rootPath ⟨w.repo, none⟩ =
            roots.insert rootPath ⟨w.repo, none⟩ := Map.put_put roots rootPath (some _) (some _)
        rw [htwice]
        exact hvisited none
    · rw [hroot, Option.some.injEq] at hr
      rw [← hr, he] at hm
      cases hm

/-- The roots in turn: where one throws, the rest are not visited. -/
theorem recoverProjectRoots_visited (db : Database K O) {rootPaths : List String}
    (hnodup : rootPaths.Nodup) (roots : Map String ProjectRoot) :
    Ends (recoverProjectRoots sys db rootPaths) roots
      (fun _ roots' => Visited rootPaths (EachSettlesQuietly sys db rootPaths roots) roots roots')
      fun _ roots' => Visited rootPaths (EachSettlesQuietly sys db rootPaths roots) roots roots' := by
  induction rootPaths generalizing db roots with
  | nil => exact .unchanged trivial
  | cons rootPath rootPaths ih =>
    rw [List.nodup_cons] at hnodup
    have hstep : Ends (recoverProjectRoot sys db rootPath) roots _ _ :=
      recoverProjectRoot_visited db rootPath roots
    rw [recoverProjectRoots, Ends.bind_iff]
    refine .intro (fun db1 roots1 hrun => ?_) fun e roots1 hrun => ?_
    · obtain ⟨hothers1, hfiles1⟩ := hstep.ok hrun
      have hquiet : EachSettlesQuietly sys db (rootPath :: rootPaths) roots ↔
          QuietAt sys db rootPath roots ∧ EachSettlesQuietly sys db1 rootPaths roots1 := by
        rw [EachSettlesQuietly]
        refine and_congr_right fun _ => ⟨fun h => h db1 roots1 hrun, fun h db' roots' hrun' => ?_⟩
        rw [hrun] at hrun'
        cases hrun'
        exact h
      have hrest : ∀ roots2, Visited rootPaths (EachSettlesQuietly sys db1 rootPaths roots1) roots1 roots2 →
          Visited (rootPath :: rootPaths) (EachSettlesQuietly sys db (rootPath :: rootPaths) roots)
            roots roots2 := by
        rintro roots2 ⟨hothers2, hfiles2⟩
        refine ⟨fun other hother => ?_, ?_⟩
        · rw [List.mem_cons, not_or] at hother
          rw [hothers2 other hother.2, hothers1 other (by simpa using hother.1)]
        · rw [hquiet, ← hfiles1, ← hfiles2]
          refine ⟨fun hsame => ?_, fun ⟨h1, h2⟩ path file hcard =>
            (h2 path file hcard).trans (h1 path file hcard)⟩
          -- Only the root itself was changed before the rest, and the rest does not touch it.
          have hfirst : SameCardFiles roots roots1 := by
            intro other path hcard
            by_cases hother : other = rootPath
            · subst hother
              rw [← hsame other path hcard, fileAt, fileAt, hothers2 other hnodup.1]
            · rw [fileAt, fileAt, hothers1 other (by simpa using hother)]
          exact ⟨hfirst, fun other path hcard =>
            (hsame other path hcard).trans (hfirst other path hcard).symm⟩
      exact (ih db1 hnodup.2 roots1).mono (fun _ => hrest) fun _ => hrest
    · obtain ⟨hothers1, hfiles1⟩ := hstep.error hrun
      refine ⟨fun other hother => hothers1 other fun hmem => ?_, ?_⟩
      · rw [List.mem_singleton] at hmem
        exact hother (hmem ▸ List.mem_cons_self)
      · rw [hfiles1, EachSettlesQuietly]
        refine ⟨fun h => ⟨h, fun db' roots' hrun' => ?_⟩, fun h => h.1⟩
        rw [hrun] at hrun'
        cases hrun'

/-- A build leaves the card files exactly where the journals are quiet. -/
theorem buildRebuilt_files (oldCounts : Option Counts) (roots : Map String ProjectRoot) :
    Ends (buildRebuilt sys request oldCounts) roots
      (fun _ roots' => SameCardFiles roots roots' ↔ JournalsQuiet sys request roots)
      fun _ roots' => SameCardFiles roots roots' ↔ JournalsQuiet sys request roots := by
  have hnodup : (normalizedRoots request.projectRoots).Nodup := List.nodup_dedup _
  have hsame : JournalsQuiet sys request roots →
      (SameCardFiles roots roots ↔ JournalsQuiet sys request roots) := fun h => iff_of_true (.refl roots) h
  simp only [buildRebuilt, Ends.bind_iff, Ends.fromExcept_iff]
  refine ⟨fun other hother => ⟨fun db hdb => ?_, fun e he => hsame fun other' db' ho hd => ?_⟩,
    fun e he => hsame fun other' db' ho _ => ?_⟩
  · have hquiet : JournalsQuiet sys request roots ↔
        EachSettlesQuietly sys db (normalizedRoots request.projectRoots) roots := by
      refine ⟨fun h => h other db hother hdb, fun h other' db' ho hd => ?_⟩
      rw [hother, Except.ok.injEq] at ho
      subst ho
      rw [hdb, Except.ok.injEq] at hd
      exact hd ▸ h
    rw [hquiet]
    refine (recoverProjectRoots_visited db hnodup roots).mono (fun db1 roots1 hv => ?_)
      fun _ _ hv => hv.files
    simp only [Ends.ite_iff, Ends.pure_iff]
    exact ⟨fun _ _ => ⟨fun _ _ => ⟨fun _ _ => ⟨fun _ => hv.files, fun _ => hv.files⟩, fun _ _ => hv.files⟩,
      fun _ _ => hv.files⟩, fun _ _ => hv.files⟩
  · rw [hother, Except.ok.injEq] at ho
    subst ho
    rw [he] at hd
    cases hd
  · rw [he] at ho
    cases ho

/-! ## The rest of the rebuild -/

/-- The rebuild after the audit. -/
def afterAudit (sys : RebuildSystem K O) (request : DatabaseRebuildRequest K O) (stale : Bool)
    (previousHealth : String) (quarantinedCards : Nat) (oldCounts : Option Counts) :
    RebuildM K O DatabaseRebuildReport := do
  if stale then throw (.runtimeError "stale rebuild temporary database exists")
  let (rebuilt, counts) ← onRoots (buildRebuilt sys request oldCounts)
  if request.dryRun then
    return { dryRun := true, previousHealth, counts, quarantinedCards, backedUp := false }
  let backedUp ← replaceDatabase sys rebuilt
  return { dryRun := false, previousHealth, counts, quarantinedCards, backedUp }

theorem rebuildDatabaseProjection_ends {Q : DatabaseRebuildReport → Disk K O → Prop}
    {E : Exn → Disk K O → Prop} : Ends (rebuildDatabaseProjection sys request) disk Q E ↔
      (∀ e, checkRequest sys request disk = .error e → E e disk) ∧
      (checkRequest sys request disk = .ok () → Ends (auditOld sys request) disk
        (fun r disk' => Ends (afterAudit sys request disk.stale (healthName disk.database) r.1 r.2)
          disk' Q E) E) := by
  simp only [rebuildDatabaseProjection, afterAudit, Ends.bind_iff, Ends.get_iff, Ends.fromExcept_iff]
  constructor
  · rintro ⟨h1, h2⟩
    exact ⟨h2, h1 ()⟩
  · rintro ⟨h1, h2⟩
    exact ⟨fun _ => h2, h1⟩

omit [NatCast K] in
theorem onRoots_ok {α : Type} {m : RootsM α} {a : α} {roots : Map String ProjectRoot}
    (h : m disk.roots = .ok a roots) {Q : α → Disk K O → Prop} {E : Exn → Disk K O → Prop} :
    Ends (onRoots m) disk Q E ↔ Q a { disk with roots } := by
  simp [Ends, onRoots, h]

omit [NatCast K] in
theorem onRoots_error {α : Type} {m : RootsM α} {e : Exn} {roots : Map String ProjectRoot}
    (h : m disk.roots = .error e roots) {Q : α → Disk K O → Prop} {E : Exn → Disk K O → Prop} :
    Ends (onRoots m) disk Q E ↔ E e { disk with roots } := by
  simp [Ends, onRoots, h]

omit [NatCast K] in
@[simp] theorem onRoots_iff {α : Type} {m : RootsM α} {Q : α → Disk K O → Prop}
    {E : Exn → Disk K O → Prop} : Ends (onRoots m) disk Q E ↔
      Ends m disk.roots (fun a roots => Q a { disk with roots })
        (fun e roots => E e { disk with roots }) := by
  unfold Ends onRoots
  cases m disk.roots <;> rfl

omit [NatCast K] in
theorem untouched_iff {disk' : Disk K O} : Untouched disk disk' ↔ disk'.database = disk.database ∧
    SameCardFiles disk.roots disk'.roots ∧ disk'.log = disk.log :=
  ⟨fun h => ⟨h.database, h.files, h.log⟩, fun h => ⟨h.1, h.2.1, h.2.2⟩⟩

/-- The new database passed its validation. -/
theorem buildRebuilt_ok {oldCounts : Option Counts} {roots roots' : Map String ProjectRoot}
    {db : Database K O} {counts : Counts}
    (h : buildRebuilt sys request oldCounts roots = .ok (db, counts) roots') :
    sys.validateDatabase db request.expectedSchemaVersion = .ok () ∧
      request.hooks.validateRebuilt db = .ok () := by
  have hends : Ends (buildRebuilt sys request oldCounts) roots
      (fun r _ => sys.validateDatabase r.1 request.expectedSchemaVersion = .ok () ∧
        request.hooks.validateRebuilt r.1 = .ok ()) (fun _ _ => True) := by
    simp only [buildRebuilt, Ends.bind_iff, Ends.fromExcept_iff, implies_true, and_true,
      Ends.ite_iff, Ends.throw_iff, Ends.pure_iff, true_and]
    intro other hother db hbefore
    refine .intro (fun db roots hrec db hafter _ hv _ hh _ => ⟨hv, hh⟩) fun _ _ _ => trivial
  exact hends.ok h

/-- The exchange is all or nothing exactly when it strands nothing. -/
theorem replaceDatabase_spares {oldCounts : Option Counts} {roots : Map String ProjectRoot}
    {db : Database K O} {counts : Counts}
    (hbuilt : buildRebuilt sys request oldCounts disk.roots = .ok (db, counts) roots) :
    Ends (replaceDatabase sys db) { disk with roots }
      (fun _ disk' => Replaced sys request disk disk') (fun _ disk' => Untouched disk disk') ↔
      SparesOnReplace sys (SameCardFiles disk.roots roots) disk.database := by
  obtain ⟨hv, hh⟩ := buildRebuilt_ok hbuilt
  have hreplaced : ∀ disk' : Disk K O, disk'.database = .healthy db → disk'.roots = roots →
      (disk.database = .missing ∨ disk'.backups = disk.database :: disk.backups) →
        Replaced sys request disk disk' :=
    fun disk' hd hr hb => ⟨⟨db, counts, oldCounts, hd, hr ▸ hbuilt, hv, hh⟩, hb⟩
  unfold SparesOnReplace
  cases hdb : disk.database with
  | healthy old =>
    cases hb : sys.fails .createBackup <;> cases hs : sys.fails .moveSidecars <;>
      cases hr : sys.fails .replace <;>
      simp [replaceDatabase, hdb, hb, hs, hr, untouched_iff, hreplaced, -bind_pure_comp]
    -- The exchange fails, and the old database has to be moved back.
    cases sys.fails .moveBack <;> cases sys.fails .moveSidecarsBack <;> simp [and_comm]
  | missing | corrupt | ioError =>
    cases hb : sys.fails .createBackup <;> cases hs : sys.fails .moveSidecars <;>
      cases hr : sys.fails .replace <;>
      simp [replaceDatabase, hdb, hb, hs, hr, untouched_iff, hreplaced, -bind_pure_comp]

/-- A rebuild that only tries is all or nothing when the card files are kept, and any other when the
exchange is, too. -/
theorem afterAudit_spares (stale : Bool) (health : String) (quarantined : Nat)
    (oldCounts : Option Counts) :
    Ends (afterAudit sys request stale health quarantined oldCounts) disk
      (fun _ disk' => if request.dryRun then Untouched disk disk' else Replaced sys request disk disk')
      (fun _ disk' => Untouched disk disk') ↔
      (stale = false →
        (¬ Builds sys request oldCounts disk.roots ∨ request.dryRun = true →
          JournalsQuiet sys request disk.roots) ∧
        (Builds sys request oldCounts disk.roots → request.dryRun = false →
          SparesOnReplace sys (JournalsQuiet sys request disk.roots) disk.database)) := by
  have hfiles : Ends (buildRebuilt sys request oldCounts) disk.roots _ _ :=
    buildRebuilt_files oldCounts disk.roots
  unfold afterAudit
  cases stale with
  | true => simp [untouched_iff, SameCardFiles.refl]
  | false =>
    cases hbuilt : buildRebuilt sys request oldCounts disk.roots with
    | error e roots =>
      have hno : ¬ Builds sys request oldCounts disk.roots := by
        rintro ⟨r, roots', h⟩
        rw [hbuilt] at h
        cases h
      simp only [Bool.false_eq_true, if_false, Ends.bind_iff, onRoots_error hbuilt]
      simp [untouched_iff, hno, hfiles.error hbuilt]
    | ok r roots =>
      obtain ⟨db, counts⟩ := r
      have hyes : Builds sys request oldCounts disk.roots := ⟨_, _, hbuilt⟩
      have hspares := replaceDatabase_spares hbuilt
      rw [hfiles.ok hbuilt] at hspares
      simp only [Bool.false_eq_true, if_false, Ends.bind_iff, onRoots_ok hbuilt]
      cases hdry : request.dryRun with
      | true => simp [untouched_iff, hyes, hfiles.ok hbuilt]
      | false => simpa [hyes, -bind_pure_comp] using hspares

omit [NatCast K] in
/-- The exchange backs up the database that it finds, and does not touch the log. -/
theorem replaceDatabase_differs {old : Database K O} (hdiff : OldDiffers old disk)
    (rebuilt : Database K O) :
    Ends (replaceDatabase sys rebuilt) disk
      (fun _ disk' => ∃ db, disk'.backups.head? = some (.healthy db) ∧ db ≠ old)
      (fun _ disk' => disk'.log = disk.log) := by
  obtain ⟨db, hdb, hne⟩ := hdiff
  cases hb : sys.fails .createBackup <;> cases hs : sys.fails .moveSidecars <;>
    cases hr : sys.fails .replace <;>
    simp [replaceDatabase, hdb, hb, hs, hr, hne, -bind_pure_comp]

/-- A rebuild whose audit took a row out of the old database is not all or nothing. -/
theorem afterAudit_differs {old : Database K O} {disk' : Disk K O} (hold : disk.database = .healthy old)
    (hdiff : OldDiffers old disk') (hlog : disk'.log ≠ disk.log) (stale : Bool) (health : String)
    (quarantined : Nat) (oldCounts : Option Counts) :
    ¬ Ends (afterAudit sys request stale health quarantined oldCounts) disk'
      (fun _ disk' => if request.dryRun then Untouched disk disk' else Replaced sys request disk disk')
      (fun _ disk' => Untouched disk disk') := by
  intro hends
  unfold afterAudit at hends
  cases stale with
  | true =>
    have hu : Untouched disk disk' := by simpa using hends
    exact hlog hu.log
  | false =>
    cases hbuilt : buildRebuilt sys request oldCounts disk'.roots with
    | error e roots =>
      simp only [Bool.false_eq_true, if_false, Ends.bind_iff, onRoots_error hbuilt] at hends
      exact hlog hends.log
    | ok r roots =>
      simp only [Bool.false_eq_true, if_false, Ends.bind_iff, onRoots_ok hbuilt] at hends
      cases hdry : request.dryRun with
      | true =>
        simp only [hdry, if_true, Ends.pure_iff] at hends
        exact hlog hends.log
      | false =>
        simp only [hdry, Bool.false_eq_true, if_false, Ends.bind_iff, Ends.pure_iff] at hends
        have hdiff : OldDiffers old { disk' with roots } := by
          obtain ⟨db, hdb, hne⟩ := hdiff
          exact ⟨db, hdb, hne⟩
        have hswap := @replaceDatabase_differs _ _ sys _ _ hdiff r.1
        cases hrun : replaceDatabase sys r.1 { disk' with roots } with
        | ok backedUp d =>
          obtain ⟨db', hhead, hne'⟩ := hswap.ok hrun
          rcases (hends.ok hrun).backup with hm | hb
          · rw [hold] at hm; cases hm
          · rw [hb, hold] at hhead
            exact hne' (DatabaseFile.healthy.inj (Option.some.inj hhead)).symm
        | error e d => exact hlog ((hswap.error hrun).symm.trans (hends.error hrun).log)

/-- A rebuild is all or nothing exactly when it spares the disk. -/
theorem allOrNothing_iff : AllOrNothing sys request disk ↔ Spares sys request disk := by
  unfold AllOrNothing
  rw [rebuildDatabaseProjection_ends]
  cases hcheck : checkRequest sys request disk with
  | error e =>
    refine ⟨fun _ => ⟨fun db missing hok => ?_, fun counts hok => ?_, fun counts hok => ?_⟩,
      fun _ => ⟨fun _ _ => ?_, fun h => ?_⟩⟩
    · rw [hcheck] at hok; cases hok
    · rw [hcheck] at hok; cases hok
    · rw [hcheck] at hok; cases hok
    · exact ⟨rfl, .refl _, rfl⟩
    · cases h
  | ok u =>
    cases u
    -- An audit that ends where it began has deleted nothing.
    have hquarantine : (∀ Q E, Ends (auditOld sys request) disk Q E →
        (∃ r, Q r disk) ∨ ∃ e, E e disk) → ∀ db missing,
        checkRequest sys request disk = .ok () → disk.database = .healthy db →
          requireMetadata db disk.roots = .ok () → missingCards db disk.roots = .ok missing →
            ∀ entry ∈ missing.head?, sys.fails (.deleteCard entry.cardId) = true := by
      intro hends db missing _ hdb hmeta hmissing entry hentry
      obtain ⟨entries, rfl⟩ := List.head?_eq_some_iff.mp hentry
      by_contra hfirst
      have hdiff : OldDiffers db disk := by
        rcases hends _ _ (auditOld_deletes hdb hmeta hmissing (by simpa using hfirst)) with
          ⟨_, h⟩ | ⟨_, h⟩
        · exact h.1
        · exact h
      obtain ⟨db', hdb', hne⟩ := hdiff
      rw [hdb] at hdb'
      exact hne (DatabaseFile.healthy.inj hdb').symm
    obtain ⟨oldCounts, haudit⟩ | ⟨e, haudit⟩ | ⟨db, entry, entries, hdb, hmeta, hmissing, hfirst⟩ :=
      @auditOld_cases _ _ sys request disk
    · have hq := hquarantine fun Q E hends => .inl ⟨_, hends.ok haudit⟩
      have hafter := @afterAudit_spares _ _ _ sys request disk disk.stale (healthName disk.database) 0
        oldCounts
      have hends : ∀ Q E, Ends (auditOld sys request) disk Q E ↔ Q (0, oldCounts) disk := by
        intro Q E
        simp [Ends, haudit]
      rw [hends, hafter]
      constructor
      · rintro ⟨-, hrest⟩
        refine ⟨hq, fun counts _ haudit' hstale => ?_, fun counts _ haudit' hstale => ?_⟩
        all_goals
          rw [haudit] at haudit'
          cases haudit'
        · exact (hrest rfl hstale).1
        · exact (hrest rfl hstale).2
      · exact fun hs => ⟨by simp, fun _ hstale => ⟨hs.journals oldCounts hcheck haudit hstale,
          hs.replace oldCounts hcheck haudit hstale⟩⟩
    · have hq := hquarantine fun Q E hends => .inr ⟨_, hends.error haudit⟩
      have hends : ∀ Q E, Ends (auditOld sys request) disk Q E ↔ E e disk := by
        intro Q E
        simp [Ends, haudit]
      rw [hends]
      have hno : ∀ counts, auditOld sys request disk ≠ .ok (0, counts) disk := by
        intro counts haudit'
        rw [haudit] at haudit'
        cases haudit'
      exact ⟨fun _ => ⟨hq, fun counts _ haudit' => absurd haudit' (hno counts),
        fun counts _ haudit' => absurd haudit' (hno counts)⟩,
        fun _ => ⟨by simp, fun _ => ⟨rfl, .refl _, rfl⟩⟩⟩
    · constructor
      · rintro ⟨-, hends⟩
        refine absurd (hends rfl) fun hends => ?_
        have hdel := @auditOld_deletes _ _ sys request _ _ _ _ hdb hmeta hmissing hfirst
        cases hrun : auditOld sys request disk with
        | ok r disk' =>
          obtain ⟨hdiff, hlog⟩ := hdel.ok hrun
          exact afterAudit_differs hdb hdiff hlog _ _ _ _ (hends.ok hrun)
        | error e disk' =>
          obtain ⟨db', hdb', hne⟩ := hdel.error hrun
          have hsame := (hends.error hrun).database
          rw [hdb', hdb] at hsame
          exact hne (DatabaseFile.healthy.inj hsame)
      · intro hs
        have := hs.quarantine db _ hcheck hdb hmeta hmissing entry rfl
        rw [hfirst] at this
        cases this

end

/-- A system of card tables only, in which nothing fails and every project is plain. -/
def plainSystem : RebuildSystem ℚ Unit where
  env := plainEnv fun _ => []
  readProjectManifest _ := .ok ⟨"home", .plain, none⟩
  applySchema _ := .ok ()
  auditOther _ _ _ := .ok ()
  threadCards _ _ := []
  rebuildOther _ _ _ := .ok ()
  otherCounts _ := []
  validateDatabase _ _ := .ok ()
  withoutSidecars := .healthy
  fails _ := false

/-- A request for one project, without callbacks. -/
def plainRequest (dryRun : Bool) : DatabaseRebuildRequest ℚ Unit where
  databasePath := "server/holder.db"
  schemaSql := "schema"
  expectedSchemaVersion := 1
  projectRoots := ["home"]
  requiredAuthorities := []
  durableOwnershipReady := true
  dryRun
  hooks := ⟨fun _ => .ok (), .ok, .ok, fun _ => .ok ()⟩

/-- The disk of a project whose database has the rows `rows` and whose files are `work`. -/
def plainDisk (rows : Db ℚ) (work : Tree) : Disk ℚ Unit where
  database := .healthy
    { projects := (∅ : Map String _).insert "home" (⟨⟨"home", .plain, none⟩, "home"⟩, rows), other := () }
  stale := false
  roots := (∅ : Map String _).insert "home" ⟨{ Repo.init with
    work := (work.insert ".holder/privacy.json" []).insert ".holder/project.json" [] }, none⟩
  backups := []
  log := none

/-- A project with one card, whose file is gone. -/
def lostCard : Disk ℚ Unit :=
  plainDisk { (Db.empty : Db ℚ) with
    cards := (∅ : Map String _).insert idA { plainCard idA "a" none 1 with relPath := livePath idA } } ∅

/-- The card's row in the old database. -/
def oldRow (disk : Disk ℚ Unit) : Bool :=
  match disk.database with
  | .healthy db => db.projects["home"]?.any fun p => p.2.cards.contains idA
  | _ => false

/-- A dry run takes the card out of the database and writes the log. -/
theorem dryRun_deletes : ¬ AllOrNothing plainSystem (plainRequest true) lostCard ∧
    ∃ report disk', rebuildDatabaseProjection plainSystem (plainRequest true) lostCard =
      .ok report disk' ∧ report.dryRun = true ∧ oldRow lostCard = true ∧ oldRow disk' = false ∧
        lostCard.log = none ∧ disk'.log = some (some [⟨idA, "home", "a", false⟩]) := by
  obtain ⟨report, disk', hok, hdry, hold, hnew, hlog⟩ : ∃ report disk',
      rebuildDatabaseProjection plainSystem (plainRequest true) lostCard = .ok report disk' ∧
      report.dryRun = true ∧ oldRow lostCard = true ∧ oldRow disk' = false ∧
        disk'.log = some (some [⟨idA, "home", "a", false⟩]) := Ends.returns (by decide +kernel)
  refine ⟨fun hall => ?_, report, disk', hok, hdry, hold, hnew, rfl, hlog⟩
  have huntouched : Untouched lostCard disk' := hall.ok hok
  rw [oldRow, huntouched.database, ← oldRow, hold] at hnew
  cases hnew

end HolderCore
