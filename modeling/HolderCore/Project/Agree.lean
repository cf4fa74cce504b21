import HolderCore.Project.Manifests

/-! # Trees that agree below a directory

A part of the rebuild reads the files below one directory: it gives the same rows for two trees that
agree there. -/

namespace HolderCore

/-- The same files below a directory. -/
def AgreeBelow (base : String) (work work' : Tree) : Prop :=
  ∀ path : String, startsWith (base ++ "/") path.toList = true → work'[path]? = work[path]?

section
variable {work work' : Tree} {base : String}

theorem AgreeBelow.keys (h : AgreeBelow base work work') (f : String → Bool) :
    (work'.keys.filter fun path => startsWith (base ++ "/") path.toList && f path) =
      work.keys.filter fun path => startsWith (base ++ "/") path.toList && f path := by
  have hfilter : work'.filter (fun path _ => startsWith (base ++ "/") path.toList && f path) =
      work.filter fun path _ => startsWith (base ++ "/") path.toList && f path := by
    refine Map.ext fun path => ?_
    rw [Map.get_filter, Map.get_filter]
    cases hbase : startsWith (base ++ "/") path.toList with
    | false => simp
    | true => rw [h path hbase]
  rw [← Std.ExtTreeMap.keys_filter_key, ← Std.ExtTreeMap.keys_filter_key, hfilter]

theorem mapM_congr {α β : Type} {f g : α → Except Exn β} {as : List α} (h : ∀ a ∈ as, f a = g a) :
    as.mapM f = as.mapM g := by
  induction as with
  | nil => rfl
  | cons a as ih =>
    rw [List.mapM_cons, List.mapM_cons, h a List.mem_cons_self,
      ih fun a' ha' => h a' (List.mem_cons_of_mem _ ha')]

section
variable {env : Env K}

theorem AgreeBelow.collectFiles (h : AgreeBelow base work work') :
    collectFiles env work' base = collectFiles env work base := by
  rw [HolderCore.collectFiles, HolderCore.collectFiles, h.keys]

theorem AgreeBelow.collectManifests (h : AgreeBelow base work work') :
    collectManifests env work' base = collectManifests env work base := by
  rw [HolderCore.collectManifests, HolderCore.collectManifests, h.keys]

/-- Reading each file below a directory. -/
theorem AgreeBelow.mapM_files (hdir : ∀ paths, (env.directoryOrder paths).Perm paths) {β : Type}
    (h : AgreeBelow base work work') (f : String → Bytes → Except Exn β) :
    (HolderCore.collectFiles env work' base).mapM (fun path => f path (work'[path]?.getD [])) =
      (HolderCore.collectFiles env work base).mapM fun path => f path (work[path]?.getD []) := by
  rw [h.collectFiles]
  refine mapM_congr fun path hpath => ?_
  rw [h path ((mem_collectFiles hdir).mp hpath).2.1]

theorem AgreeBelow.mapM_manifests (hdir : ∀ paths, (env.directoryOrder paths).Perm paths) {β : Type}
    (h : AgreeBelow base work work') {f : Tree → String → Except Exn β}
    (hf : ∀ path, work'[path]? = work[path]? → f work' path = f work path) :
    (HolderCore.collectManifests env work' base).mapM (f work') =
      (HolderCore.collectManifests env work base).mapM (f work) := by
  rw [h.collectManifests]
  refine mapM_congr fun path hpath => hf path ?_
  rw [HolderCore.collectManifests, (hdir _).mem_iff, List.mem_filter, Bool.and_eq_true] at hpath
  exact h path hpath.2.1

section
variable [NatCast K]

theorem AgreeBelow.projection (hdir : ∀ paths, (env.directoryOrder paths).Perm paths)
    (h : AgreeBelow "cards" work work') (htrash : AgreeBelow "trash/cards" work work') :
    projection env work' = projection env work := by
  rw [HolderCore.projection, HolderCore.projection, loadCardFiles, loadCardFiles,
    h.mapM_files hdir fun path raw => loadCardFile env path raw false,
    htrash.mapM_files hdir fun path raw => loadCardFile env path raw true]

theorem AgreeBelow.rebuildMessageFiles (hdir : ∀ paths, (env.directoryOrder paths).Perm paths)
    (h : AgreeBelow "ai_messages" work work') (htrash : AgreeBelow "trash/ai_messages" work work') :
    rebuildMessageFiles env work' = rebuildMessageFiles env work := by
  rw [HolderCore.rebuildMessageFiles, HolderCore.rebuildMessageFiles,
    h.mapM_files hdir fun path raw => rebuildMessageFile env path raw false,
    htrash.mapM_files hdir fun path raw => rebuildMessageFile env path raw true]

end

end

section
variable {env : RebuildEnv K} {path : String}

theorem readManifest_congr {α : Type} {parse : Bytes → Except Exn α}
    (h : work'[path]? = work[path]?) :
    readManifest env work' parse path = readManifest env work parse path := by
  rw [readManifest, readManifest, h]

theorem AgreeBelow.rebuildLocations (hdir : ∀ paths, (env.directoryOrder paths).Perm paths)
    (h : AgreeBelow "locations" work work') :
    rebuildLocations env work' = rebuildLocations env work :=
  h.mapM_manifests hdir fun path hpath => by
    rw [rebuildLocation, rebuildLocation, readManifest_congr hpath]

theorem AgreeBelow.threadManifests (hdir : ∀ paths, (env.directoryOrder paths).Perm paths)
    (h : AgreeBelow "ai_threads" work work') : threadManifests env work' = threadManifests env work :=
  h.mapM_manifests hdir fun path hpath => by
    rw [rebuildThreadManifest, rebuildThreadManifest, hpath]

theorem rebuildBundle_congr (h : work'[path]? = work[path]?) (seen : SeenIds) :
    rebuildBundle env work' seen path = rebuildBundle env work seen path := by
  rw [rebuildBundle, rebuildBundle, readManifest_congr h]

theorem rebuildBundles_congr {paths : List String} (h : ∀ path ∈ paths, work'[path]? = work[path]?)
    (seen : SeenIds) : rebuildBundles env work' seen paths = rebuildBundles env work seen paths := by
  induction paths generalizing seen with
  | nil => rfl
  | cons path paths ih =>
    simp only [rebuildBundles, rebuildBundle_congr (h path List.mem_cons_self),
      ih fun p hp => h p (List.mem_cons_of_mem _ hp)]

theorem foldlM_putBundle_messages {bundles : List ResourceBundle} {rows rows' : ServiceRows}
    (messages : Map String AiMessage)
    (h : bundles.foldlM (fun rows bundle => ResourceRepo.putBundle bundle rows) rows = .ok rows') :
    bundles.foldlM (fun rows bundle => ResourceRepo.putBundle bundle rows) { rows with messages } =
      .ok { rows' with messages } := by
  induction bundles generalizing rows with
  | nil =>
    cases h
    rfl
  | cons bundle bundles ih =>
    rw [List.foldlM_cons] at h ⊢
    cases hput : ResourceRepo.putBundle bundle rows with
    | error e =>
      rw [hput] at h
      cases h
    | ok rows1 =>
      rw [hput] at h
      obtain ⟨hstorable, hdistinct, hrows⟩ := ResourceRepo.putBundle_iff.mp hput
      have hput' : ResourceRepo.putBundle bundle { rows with messages } = .ok { rows1 with messages } :=
        ResourceRepo.putBundle_iff.mpr ⟨hstorable, hdistinct, by rw [hrows]⟩
      rw [hput']
      exact ih h

theorem foldlM_putBundle_threads {bundles : List ResourceBundle} {rows rows' : ServiceRows}
    (h : bundles.foldlM (fun rows bundle => ResourceRepo.putBundle bundle rows) rows = .ok rows') :
    rows'.threads = rows.threads := by
  induction bundles generalizing rows with
  | nil =>
    cases h
    rfl
  | cons bundle bundles ih =>
    rw [List.foldlM_cons] at h
    cases hput : ResourceRepo.putBundle bundle rows with
    | error e =>
      rw [hput] at h
      cases h
    | ok rows1 =>
      rw [hput] at h
      rw [ih h, (ResourceRepo.putBundle_iff.mp hput).2.2]

theorem rebuildResources_threads {rows stored : ServiceRows}
    (h : rebuildResources env rows work = .ok stored) : stored.threads = rows.threads := by
  unfold rebuildResources deleteResources at h
  simp only [bind, Except.bind] at h
  split at h
  · cases h
  next rows1 hdeleted =>
  split at hdeleted
  · cases hdeleted
  cases hdeleted
  split at h
  · cases h
  split at h
  · cases h
  split at h
  · cases h
  have hthreads := foldlM_putBundle_threads h
  exact hthreads

/-- Trees with the same files beside those of the cards. -/
structure AgreeBesideCards (work work' : Tree) : Prop where
  resources : AgreeBelow "resources" work work' ∧ AgreeBelow "locations" work work'
  messages : AgreeBelow "ai_messages" work work' ∧ AgreeBelow "trash/ai_messages" work work'
  threads : AgreeBelow "ai_threads" work work'

theorem AgreeBesideCards.of_cardPaths (ids : Set String) (h : ∀ path : String,
    (∀ id ∈ ids, path ≠ livePath id ∧ path ≠ trashPath id) → work'[path]? = work[path]?) :
    AgreeBesideCards work work' := by
  have hbelow : ∀ base : String, (∀ id, startsWith (base ++ "/") (livePath id).toList = false ∧
      startsWith (base ++ "/") (trashPath id).toList = false) → AgreeBelow base work work' := by
    refine fun base hbase path hpath => h path fun id _ => ⟨?_, ?_⟩ <;> rintro rfl
    · rw [(hbase id).1] at hpath
      cases hpath
    · rw [(hbase id).2] at hpath
      cases hpath
  refine ⟨⟨hbelow _ fun id => ?_, hbelow _ fun id => ?_⟩, ⟨hbelow _ fun id => ?_, hbelow _ fun id => ?_⟩,
    hbelow _ fun id => ?_⟩ <;> simp [startsWith, livePath, trashPath, List.isPrefixOf]

/-- The rebuild of the resources does not look at the messages. -/
theorem rebuildResources_messages (hdir : ∀ paths, (env.directoryOrder paths).Perm paths)
    (hresources : AgreeBelow "resources" work work') (hlocations : AgreeBelow "locations" work work')
    {rows stored : ServiceRows} (messages : Map String AiMessage)
    (h : rebuildResources env rows work = .ok stored) :
    rebuildResources env { rows with messages } work' = .ok { stored with messages } := by
  have hpaths : ∀ path ∈ collectManifests env.toEnv work "resources", work'[path]? = work[path]? := by
    intro path hpath
    rw [collectManifests, (hdir _).mem_iff, List.mem_filter, Bool.and_eq_true] at hpath
    exact hresources path hpath.2.1
  unfold rebuildResources at h ⊢
  rw [hlocations.rebuildLocations hdir, hresources.collectManifests, rebuildBundles_congr hpaths]
  unfold deleteResources at h ⊢
  dsimp only at h ⊢
  split at h
  · cases h
  next hfree =>
  rw [if_neg hfree]
  simp only [bind, Except.bind] at h ⊢
  cases hlocs : rebuildLocations env work with
  | error e => rw [hlocs] at h; cases h
  | ok locations =>
  cases hbundles : rebuildBundles env work ⟨[], []⟩ (collectManifests env.toEnv work "resources") with
  | error e => rw [hlocs, hbundles] at h; cases h
  | ok bundles =>
  rw [hlocs, hbundles] at h
  dsimp only at h ⊢
  cases hcheck : bundles.forM (checkLocations locations) with
  | error e => rw [hcheck] at h; cases h
  | ok u =>
  rw [hcheck] at h
  exact foldlM_putBundle_messages messages h

theorem AgreeBesideCards.rebuildResources (hdir : ∀ paths, (env.directoryOrder paths).Perm paths)
    (h : AgreeBesideCards work work') (rows : ServiceRows) :
    rebuildResources env rows work' = rebuildResources env rows work := by
  have hpaths : ∀ path ∈ collectManifests env.toEnv work "resources", work'[path]? = work[path]? := by
    intro path hpath
    rw [collectManifests, (hdir _).mem_iff, List.mem_filter, Bool.and_eq_true] at hpath
    exact h.resources.1 path hpath.2.1
  rw [HolderCore.rebuildResources, HolderCore.rebuildResources, h.resources.2.rebuildLocations hdir,
    h.resources.1.collectManifests, rebuildBundles_congr hpaths]

theorem ManifestAt.congr {bundle : ResourceBundle} (h : work'[path]? = work[path]?) :
    ManifestAt env work' path bundle ↔ ManifestAt env work path bundle := by
  constructor
  · rintro ⟨hread, hpath, hproj⟩
    exact ⟨readManifest_congr h ▸ hread, hpath, hproj⟩
  · rintro ⟨hread, hpath, hproj⟩
    exact ⟨(readManifest_congr h).symm ▸ hread, hpath, hproj⟩

/-- The cards, threads and messages are read beside the directory of the resources. -/
structure AgreeBeside (work work' : Tree) : Prop where
  cards : AgreeBelow "cards" work work' ∧ AgreeBelow "trash/cards" work work'
  messages : AgreeBelow "ai_messages" work work' ∧ AgreeBelow "trash/ai_messages" work work'
  threads : AgreeBelow "ai_threads" work work'

theorem AgreeBeside.rebuildCardsAndMessages [NatCast K]
    (hdir : ∀ paths, (env.directoryOrder paths).Perm paths) (h : AgreeBeside work work')
    (threads : Map String String) :
    rebuildCardsAndMessages env threads work' = rebuildCardsAndMessages env threads work := by
  rw [HolderCore.rebuildCardsAndMessages, HolderCore.rebuildCardsAndMessages,
    h.cards.1.projection hdir h.cards.2, h.threads.threadManifests hdir]
  simp only [rebuildMessages, h.messages.1.rebuildMessageFiles hdir h.messages.2]

theorem linkRows_some {links : List CardLink} {link : CardLink} (h : link ∈ links) :
    ∃ l, (linkRows links)[(LinkRepo.storedLink link).key]? = some l := by
  rw [linkRows, Map.get_foldl_insert_key, Std.ExtTreeMap.getElem?_empty, Option.or_none]
  cases hfind : links.reverse.find? fun x => (LinkRepo.storedLink x).key = (LinkRepo.storedLink link).key with
  | none => exact absurd (by simp) (List.find?_eq_none.mp hfind link (List.mem_reverse.mpr h))
  | some x => exact ⟨_, rfl⟩

theorem insertMessages_owned {projectId : String} {records : List MessageRecord}
    {rebuilt rebuilt' : RebuiltMessages K} (h : insertMessages projectId records rebuilt = .ok rebuilt') :
    ∀ record ∈ records, ∀ link ∈ record.links,
      link.projectId = projectId ∧ link.fromCardId = record.message.messageId := by
  induction records generalizing rebuilt with
  | nil => nofun
  | cons record records ih =>
    rw [insertMessages] at h
    split at h
    · cases h
    have hup := LinkRepo.upsertLinks_ends projectId record.message.messageId record.links rebuilt.db
    cases hrun : LinkRepo.upsertLinks projectId record.message.messageId record.links rebuilt.db with
    | error e db =>
      rw [hrun] at h
      cases h
    | ok u db =>
      rw [hrun] at h
      exact List.forall_mem_cons.mpr ⟨(hup.ok hrun).2, ih h⟩

/-- The same messages go in beside other card rows. -/
theorem insertMessages_beside {projectId : String} {records : List MessageRecord}
    {rebuilt rebuilt' : RebuiltMessages K} (h : insertMessages projectId records rebuilt = .ok rebuilt')
    (db : Db K) : ∃ links, insertMessages projectId records { rebuilt with db } =
        .ok ⟨rebuilt'.messages, { db with cardLinks := links }⟩ ∧
      ∀ key : List String, links[key]? =
        (linkRows (records.flatMap (·.links)))[key]?.or db.cardLinks[key]? := by
  induction records generalizing rebuilt db with
  | nil =>
    cases h
    exact ⟨db.cardLinks, rfl, by simp [linkRows]⟩
  | cons record records ih =>
    have howned := insertMessages_owned h record List.mem_cons_self
    rw [insertMessages] at h ⊢
    split at h
    · cases h
    next hnew =>
    rw [if_neg hnew]
    cases hrun : LinkRepo.upsertLinks projectId record.message.messageId record.links rebuilt.db with
    | error e db1 =>
      rw [hrun] at h
      cases h
    | ok u db1 =>
    rw [hrun] at h
    have hup := LinkRepo.upsertLinks_ends projectId record.message.messageId record.links db
    cases hrun' : LinkRepo.upsertLinks projectId record.message.messageId record.links db with
    | error e db2 => exact absurd howned (hup.error hrun').2
    | ok u' db2 =>
    obtain ⟨rfl, -⟩ := hup.ok hrun'
    obtain ⟨links, hok, hkeys⟩ := ih h _
    refine ⟨links, hok, fun key => ?_⟩
    rw [hkeys, List.flatMap_cons, linkRows_append]
    simp only [get_foldl_links, Option.or_assoc]

/-- The rows of a rebuild: those of the card files, and the links of the messages over theirs. -/
structure LinkedRows (messages : List MessageRecord) (cardRows db : Db K) : Prop where
  links : ∀ key : List String, db.cardLinks[key]? =
    (linkRows (messages.flatMap (·.links)))[key]?.or cardRows.cardLinks[key]?
  rest : db = { cardRows with cardLinks := db.cardLinks }

theorem LinkedRows.unique {messages : List MessageRecord} {cardRows db db' : Db K}
    (h : LinkedRows messages cardRows db) (h' : LinkedRows messages cardRows db') : db = db' := by
  have hlinks : db.cardLinks = db'.cardLinks := Map.ext fun key => by rw [h.links, h'.links]
  rw [h.rest, h'.rest, hlinks]

/-- The rebuild of a tree whose files beside those of the cards are the ones of a rebuilt tree. -/
theorem AgreeBesideCards.rebuildTables_iff [NatCast K]
    (hdir : ∀ paths, (env.directoryOrder paths).Perm paths) (hbeside : AgreeBesideCards work work')
    {rows rows1 : ServiceRows} {db1 : Db K} (h : rebuildTables env rows work = .ok (rows1, db1)) :
    ∃ cardRows manifests messages, projection env.toEnv work = .ok cardRows ∧
      threadManifests env work = .ok manifests ∧ checkThreadCards cardRows manifests = .ok () ∧
      rebuildMessageFiles env.toEnv work = .ok messages ∧ LinkedRows messages cardRows db1 ∧
      (∀ record ∈ messages, ∀ link ∈ record.links, link.projectId = env.project.projectId ∧
        link.fromCardId = record.message.messageId) ∧
      ∀ result, rebuildTables env rows work' = .ok result ↔ result.1 = rows1 ∧
        ∃ cardRows', projection env.toEnv work' = .ok cardRows' ∧
          checkThreadCards cardRows' manifests = .ok () ∧ LinkedRows messages cardRows' result.2 := by
  obtain ⟨stored, threads, rebuilt, hresources, hrest, he⟩ := HolderCore.rebuildTables_iff.mp h
  obtain ⟨cardRows, manifests, messages, ids, hproj, hmanifests, hcheck, hfiles, hids, hinsert, hthreads⟩ :=
    rebuildCardsAndMessages_iff.mp hrest
  obtain ⟨rfl, rfl⟩ := Prod.mk.inj he
  have hinserted : ∀ cardRows' : Db K, ∃ db', insertMessages env.project.projectId messages ⟨∅, cardRows'⟩ =
      .ok ⟨rebuilt.messages, db'⟩ ∧ LinkedRows messages cardRows' db' := by
    intro cardRows'
    obtain ⟨links, hok, hkeys⟩ := insertMessages_beside hinsert cardRows'
    exact ⟨_, hok, hkeys, rfl⟩
  have hlinked : LinkedRows messages cardRows rebuilt.db := by
    obtain ⟨db', hok, hlinked⟩ := hinserted cardRows
    rw [hinsert, Except.ok.injEq] at hok
    rw [hok]
    exact hlinked
  have hfiles' : rebuildMessageFiles env.toEnv work' = .ok messages :=
    (hbeside.messages.1.rebuildMessageFiles hdir hbeside.messages.2).trans hfiles
  have hmanifests' : threadManifests env work' = .ok manifests :=
    (hbeside.threads.threadManifests hdir).trans hmanifests
  refine ⟨cardRows, manifests, messages, hproj, hmanifests, hcheck, hfiles, hlinked,
    insertMessages_owned hinsert, fun result => ?_⟩
  rw [HolderCore.rebuildTables_iff, hbeside.rebuildResources hdir, hresources]
  constructor
  · rintro ⟨_, threads', rebuilt', hstored, hrest', rfl⟩
    cases hstored
    obtain ⟨cardRows', _, _, ids', hproj', hms, hcheck', hrs, hids', hinsert', hthreads'⟩ :=
      rebuildCardsAndMessages_iff.mp hrest'
    rw [hmanifests', Except.ok.injEq] at hms
    rw [hfiles', Except.ok.injEq] at hrs
    subst hms hrs
    rw [hids, Except.ok.injEq] at hids'
    subst hids'
    rw [hthreads, Except.ok.injEq] at hthreads'
    obtain ⟨db', hok, hlinked'⟩ := hinserted cardRows'
    rw [hinsert', Except.ok.injEq] at hok
    subst hok hthreads'
    exact ⟨rfl, cardRows', hproj', hcheck', hlinked'⟩
  · rintro ⟨hrows, cardRows', hproj', hcheck', hlinked'⟩
    obtain ⟨db', hok, hdb⟩ := hinserted cardRows'
    refine ⟨stored, threads, _, rfl, rebuildCardsAndMessages_iff.mpr ⟨cardRows', manifests, messages, ids,
      hproj', hmanifests', hcheck', hfiles', hids, hok, hthreads⟩, ?_⟩
    rw [hdb.unique hlinked', ← hrows]

end

end

end HolderCore
