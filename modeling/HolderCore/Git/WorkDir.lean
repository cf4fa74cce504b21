import HolderCore.Git.Merge

/-! # The merge on disk

A path cannot be a file and a directory at once: `write_file` throws where a file stands at a
directory above its path or a directory at the path itself, and a directory stays when its files are
removed. This is the merge of a diverged pull with these failures; where it does not meet one it
does what the merge on trees does. -/

namespace HolderCore

/-- The path lies in the directory of that name. -/
def liesBelow (dir path : String) : Bool := (dir.toList ++ ['/']).isPrefixOf path.toList

/-- No path of the tree is also a directory of it. -/
def ClashFree (tree : Tree) : Prop :=
  ∀ dir path : String, dir ∈ tree → path ∈ tree → liesBelow dir path = false

instance (tree : Tree) : Decidable (ClashFree tree) :=
  decidable_of_iff (∀ dir ∈ tree.keys, ∀ path ∈ tree.keys, liesBelow dir path = false) <| by
    simp only [ClashFree, Std.ExtTreeMap.mem_keys]
    exact ⟨fun h dir path hdir => h dir hdir path, fun h dir hdir path => h dir path hdir⟩

/-- The tree diff lists a path before what lies below it. -/
def Libgit2.PathOrder (lib : Libgit2) : Prop :=
  ∀ old new : Tree, (lib.diffTreeToTree old new).Pairwise fun d d' => liesBelow d'.path d.path = false

/-- A repository and the files that were placed on its disk, whose directories are there. -/
structure WorkDir where
  repo : Repo
  placed : List String

abbrev DiskM := EStateM Exn WorkDir

namespace WorkDir

/-- A Git operation that does not touch the files. -/
def onRepo (m : GitM α) : DiskM α := fun d =>
  match m d.repo with
  | .ok a repo => .ok a { d with repo }
  | .error e repo => .error e { d with repo }

/-- Some file stands where the path needs a directory. -/
def fileAbove (d : WorkDir) (path : String) : Bool := d.repo.work.keys.any (liesBelow · path)

/-- The path is a directory. -/
def isDirectory (d : WorkDir) (path : String) : Bool := d.placed.any (liesBelow path ·)

def writeFile (path : String) (content : Bytes) : DiskM Unit := do
  let d ← get
  if d.fileAbove path then throw (.runtimeError "Failed to create dirs")
  if d.isDirectory path then throw (.runtimeError ("Failed to open for write: " ++ path))
  set { repo := d.repo.writeFile path content, placed := path :: d.placed : WorkDir }

section
variable (lib : Libgit2)

/-- Check out a commit: its files are on disk afterwards, and their directories. -/
def checkoutCommitOid (oid : Nat) : DiskM Unit := do
  onRepo (Repo.checkoutCommitOid lib oid)
  modify fun d => { d with placed := d.repo.work.keys }

def replayLocalChange (localOid : Nat) (change : ChangedPath) : DiskM Unit := do
  match change.type with
  | .deleted =>
    onRepo (modify fun r => { r with work := r.work.erase change.path })
    onRepo (modify fun r => r.removePath change.path)
  | .addedOrModified =>
    match ← fromExcept ((← get).repo.readBlobAt localOid change.path) with
    | none => return
    | some content =>
      writeFile change.path content
      onRepo do set (← fromExcept ((← get).stagePath change.path))

def replayLocalChanges (localOid : Nat) : List ChangedPath → DiskM Unit
  | [] => return
  | change :: changes => do
    replayLocalChange localOid change
    replayLocalChanges localOid changes

/-- Merge the remote commit, keeping its side of every conflict: the conflicted paths. -/
def mergeRemoteTakingTheirsForConflicts (name : String) (localOid remoteOid : Nat) :
    DiskM (List String) := do
  let r := (← get).repo
  let mergeBaseOid ← fromExcept (lib.mergeBase r.commits localOid remoteOid)
  let localChanges ← fromExcept (r.diffChangedPaths lib mergeBaseOid localOid)
  let remoteChanges ← fromExcept (r.diffChangedPaths lib mergeBaseOid remoteOid)
  let remoteChanged := remoteChanges.map (·.path)
  let conflicted := (localChanges.filter fun c => remoteChanged.contains c.path).map (·.path)
  let localOnly := localChanges.filter fun c => !remoteChanged.contains c.path
  checkoutCommitOid lib remoteOid
  replayLocalChanges localOid localOnly
  onRepo (Repo.commitMerge localOid remoteOid (Repo.mergeMessage name conflicted.length))
  return conflicted

end

/-! ## Where a file can be placed -/

/-- A local file has a place in the remote tree: nothing of it lies below the file's path, and a file
above it is one of the base, which the local side then removed. -/
def Fits (base ours theirs : Tree) (path : String) : Prop :=
  path ∈ ours → (∀ file : String, file ∈ theirs → liesBelow path file = false) ∧
    ∀ file : String, file ∈ theirs → liesBelow file path = true → theirs[file]? = base[file]?

/-- Every file that only the local side added or modified has its place. -/
def Placeable (base ours theirs : Tree) : Prop :=
  ∀ path : String, ours[path]? ≠ base[path]? → theirs[path]? = base[path]? →
    Fits base ours theirs path

/-- No path of one side is a directory of the other: every file has its place. -/
theorem placeable_of_keys {base ours theirs : Tree} (h : ∀ path ∈ ours.keys, ∀ file ∈ theirs.keys,
    liesBelow path file = false ∧ liesBelow file path = false) : Placeable base ours theirs := by
  simp only [Std.ExtTreeMap.mem_keys] at h
  refine fun path _ _ hpath => ⟨fun file hfile => (h path hpath file hfile).1, fun file hfile hbelow => ?_⟩
  rw [(h path hpath file hfile).2] at hbelow
  cases hbelow

/-- What the replay has done after the changes of some paths. -/
structure Replayed (ours theirs : Tree) (done : List String) (d : WorkDir) : Prop where
  work : ∀ path : String, d.repo.work[path]? = if path ∈ done then ours[path]? else theirs[path]?
  placed : ∀ path : String, path ∈ d.placed ↔ path ∈ theirs ∨ path ∈ done ∧ path ∈ ours

section
variable {ours theirs base : Tree} {done : List String} {d : WorkDir} {path : String}

theorem fileAbove_eq_false : d.fileAbove path = false ↔
    ∀ file : String, file ∈ d.repo.work → liesBelow file path = false := by
  simp [fileAbove, List.any_eq_false]

theorem isDirectory_eq_false : d.isDirectory path = false ↔
    ∀ file ∈ d.placed, liesBelow path file = false := by
  simp [isDirectory, List.any_eq_false]

theorem liesBelow_self : liesBelow path path = false := by
  rw [liesBelow, Bool.eq_false_iff, ne_eq, List.isPrefixOf_iff_prefix]
  intro h
  have := h.length_le
  simp at this

theorem onRepo_iff {m : GitM α} {Q : α → WorkDir → Prop} {E : Exn → WorkDir → Prop} :
    Ends (onRepo m) d Q E ↔
      Ends m d.repo (fun a repo => Q a { d with repo }) fun e repo => E e { d with repo } := by
  unfold onRepo Ends
  dsimp only
  cases m d.repo <;> rfl

theorem writeFile_iff {content : Bytes} {Q : Unit → WorkDir → Prop} {E : Exn → WorkDir → Prop} :
    Ends (writeFile path content) d Q E ↔
      (d.fileAbove path = true → E (.runtimeError "Failed to create dirs") d) ∧
      (d.fileAbove path = false → d.isDirectory path = true →
        E (.runtimeError ("Failed to open for write: " ++ path)) d) ∧
      (d.fileAbove path = false → d.isDirectory path = false →
        Q () { repo := d.repo.writeFile path content, placed := path :: d.placed }) := by
  unfold writeFile
  simp only [Ends.bind_iff, Ends.get_iff]
  cases d.fileAbove path <;> cases d.isDirectory path <;>
    simp [Ends.bind_iff, Ends.throw_iff, Ends.set_iff]

/-- A file can be written exactly when it has its place: of the files above it, those of the base
were removed before. -/
theorem Replayed.writable_iff (hd : Replayed ours theirs done d) (hfree : ClashFree ours)
    (hpath : path ∈ ours)
    (hdone : ∀ file, liesBelow file path = true →
      (file ∈ done ↔ ours[file]? ≠ base[file]? ∧ theirs[file]? = base[file]?)) :
    d.fileAbove path = false ∧ d.isDirectory path = false ↔ Fits base ours theirs path := by
  have habove : ∀ file, liesBelow file path = true → file ∉ ours := by
    intro file hbelow hfile
    rw [hfree file path hfile hpath] at hbelow
    cases hbelow
  rw [fileAbove_eq_false, isDirectory_eq_false]
  constructor
  · rintro ⟨hfiles, hdirs⟩ -
    refine ⟨fun file hfile => hdirs file ((hd.placed file).mpr (.inl hfile)), fun file hfile hbelow => ?_⟩
    by_contra hne
    have hnot : file ∉ done := fun hmem => hne ((hdone file hbelow).mp hmem).2
    have hwork := hd.work file
    rw [if_neg hnot] at hwork
    rw [hfiles file (Map.mem_iff.mpr (hwork ▸ Map.mem_iff.mp hfile))] at hbelow
    cases hbelow
  · intro hfits
    obtain ⟨hbelow, habase⟩ := hfits hpath
    refine ⟨fun file hfile => ?_, fun file hfile => ?_⟩
    · by_contra hno
      have hno : liesBelow file path = true := by simpa using hno
      obtain ⟨bytes, hbytes⟩ := Map.mem_iff.mp hfile
      rw [hd.work] at hbytes
      have hours := Map.not_mem_iff.mp (habove file hno)
      split at hbytes
      · rw [hours] at hbytes
        cases hbytes
      · next hnot =>
        have hbase := habase file (Map.mem_iff.mpr ⟨bytes, hbytes⟩) hno
        refine hnot ((hdone file hno).mpr ⟨?_, hbase⟩)
        rw [hours, ← hbase, hbytes]
        exact nofun
    · rcases (hd.placed file).mp hfile with hfile | ⟨-, hfile⟩
      · exact hbelow file hfile
      · exact hfree path file hpath hfile

/-- The replay of one change: it removes the file, or it writes the file where it has its place. -/
theorem replayLocalChange_ends {oid : Nat} {commit : Commit} (h : d.repo.commits[oid]? = some commit)
    {change : ChangedPath} (htype : change.type = .deleted ↔ commit.tree[change.path]? = none)
    (hd : Replayed commit.tree theirs done d) (hfree : ClashFree commit.tree)
    (hdone : ∀ file, liesBelow file change.path = true →
      (file ∈ done ↔ commit.tree[file]? ≠ base[file]? ∧ theirs[file]? = base[file]?)) :
    Ends (replayLocalChange oid change) d
      (fun _ d' => Fits base commit.tree theirs change.path ∧
        Repo.replayLocalChange oid change d.repo = .ok () d'.repo ∧
        Replayed commit.tree theirs (done ++ [change.path]) d' ∧ d'.repo.commits = d.repo.commits)
      fun _ _ => ¬ Fits base commit.tree theirs change.path := by
  have hput : ∀ placed : List String,
      (∀ path, path ∈ placed ↔ path ∈ d.placed ∨ path = change.path ∧ path ∈ commit.tree) →
      Replayed commit.tree theirs (done ++ [change.path])
        ⟨d.repo.putBoth change.path commit.tree[change.path]?, placed⟩ := by
    refine fun placed hplaced => ⟨fun path => ?_, fun path => ?_⟩
    · change (d.repo.work.put change.path commit.tree[change.path]?)[path]? = _
      rw [Map.get_put]
      by_cases hpath : change.path = path
      · simp [hpath]
      · simp [hpath, Ne.symm hpath, hd.work path]
    · rw [hplaced, hd.placed path, List.mem_append, List.mem_singleton]
      tauto
  have hrun := (Repo.replayLocalChange_ends h htype (r := d.repo)
    (Q := fun _ r => r = d.repo.putBoth change.path commit.tree[change.path]?)
    (E := fun _ _ => False)).mpr rfl
  have htree : Repo.replayLocalChange oid change d.repo =
      .ok () (d.repo.putBoth change.path commit.tree[change.path]?) := by
    obtain ⟨u, r, hok, rfl⟩ := hrun.returns
    exact hok
  unfold replayLocalChange
  cases hentry : commit.tree[change.path]? with
  | none =>
    rw [htype.mpr hentry]
    simp only [Ends.bind_iff, onRepo_iff, Ends.modify_iff]
    rw [hentry] at hput htree
    refine ⟨fun hmem => absurd hmem (Map.not_mem_iff.mpr hentry), htree, hput d.placed fun path => ?_, rfl⟩
    have : path = change.path → path ∉ commit.tree := by
      rintro rfl
      exact Map.not_mem_iff.mpr hentry
    tauto
  | some content =>
    have hadd : change.type = .addedOrModified := by
      cases ht : change.type with
      | addedOrModified => rfl
      | deleted => rw [htype.mp ht] at hentry; cases hentry
    have hmem : change.path ∈ commit.tree := Map.mem_iff.mpr ⟨content, hentry⟩
    have hfits := hd.writable_iff hfree hmem hdone
    rw [hadd]
    simp only [Ends.bind_iff, Ends.get_iff, Ends.fromExcept_iff, Repo.readBlobAt, h, hentry,
      Except.ok.injEq, forall_eq', reduceCtorEq, false_imp_iff, implies_true, and_true,
      writeFile_iff, onRepo_iff, Ends.set_iff, Repo.stagePath, Repo.writeFile_work,
      Std.ExtTreeMap.getElem?_insert_self, Repo.writeFile_staged]
    rw [hentry] at hput htree
    refine ⟨fun habove hno => ?_, fun habove hdir hno => ?_, fun habove hdir => ?_⟩
    · rw [(hfits.mpr hno).1] at habove
      cases habove
    · rw [(hfits.mpr hno).2] at hdir
      cases hdir
    · refine ⟨hfits.mp ⟨habove, hdir⟩, htree, hput _ fun path => ?_, rfl⟩
      rw [List.mem_cons]
      have : path = change.path → path ∈ commit.tree := by
        rintro rfl
        exact hmem
      tauto

/-- The replay of the local changes, some of them done: it ends like the replay on trees exactly when
every file has its place. -/
theorem replayLocalChanges_ends {oid : Nat} {commit : Commit} (h : d.repo.commits[oid]? = some commit)
    (hfree : ClashFree commit.tree) (before : List ChangedPath) {changes : List ChangedPath}
    (htype : ∀ change ∈ changes, change.type = .deleted ↔ commit.tree[change.path]? = none)
    (hmem : ∀ path, path ∈ (before ++ changes).map (·.path) ↔
      commit.tree[path]? ≠ base[path]? ∧ theirs[path]? = base[path]?)
    (horder : (before ++ changes).Pairwise fun c c' => liesBelow c'.path c.path = false)
    (hd : Replayed commit.tree theirs (before.map (·.path)) d) :
    Ends (replayLocalChanges oid changes) d
      (fun _ d' => (∀ change ∈ changes, Fits base commit.tree theirs change.path) ∧
        Repo.replayLocalChanges oid changes d.repo = .ok () d'.repo)
      fun _ _ => ∃ change ∈ changes, ¬ Fits base commit.tree theirs change.path := by
  induction changes generalizing before d with
  | nil => exact ⟨nofun, rfl⟩
  | cons change changes ih =>
    have hdone : ∀ file, liesBelow file change.path = true → (file ∈ before.map (·.path) ↔
        commit.tree[file]? ≠ base[file]? ∧ theirs[file]? = base[file]?) := by
      intro file hbelow
      rw [← hmem file, List.map_append, List.mem_append, List.map_cons, List.mem_cons]
      refine ⟨.inl, ?_⟩
      rintro (hbefore | rfl | hafter)
      · exact hbefore
      · rw [liesBelow_self] at hbelow
        cases hbelow
      · obtain ⟨later, hlater, rfl⟩ := List.mem_map.mp hafter
        have hpair := (List.pairwise_append.mp horder).2.1
        rw [(List.pairwise_cons.mp hpair).1 later hlater] at hbelow
        cases hbelow
    unfold replayLocalChanges
    rw [Ends.bind_iff]
    refine (replayLocalChange_ends h (htype change List.mem_cons_self) hd hfree hdone).mono ?_ ?_
    · rintro - d1 ⟨hfits, hrun, hd1, hcommits⟩
      refine (ih (hcommits ▸ h) (before ++ [change])
        (fun c hc => htype c (List.mem_cons_of_mem _ hc)) ?_ ?_ ?_).mono ?_ ?_
      · rwa [List.append_assoc, List.singleton_append]
      · rwa [List.append_assoc, List.singleton_append]
      · rwa [List.map_append, List.map_singleton]
      · rintro - d' ⟨hall, hrest⟩
        refine ⟨List.forall_mem_cons.mpr ⟨hfits, hall⟩, ?_⟩
        unfold Repo.replayLocalChanges
        simp only [bind, EStateM.bind, hrun, hrest]
      · rintro - - ⟨c, hc, hno⟩
        exact ⟨c, List.mem_cons_of_mem _ hc, hno⟩
    · exact fun _ _ hno => ⟨change, List.mem_cons_self, hno⟩

/-- What the merge starts from: a clean tree at the local commit, and the commits it looks up. -/
structure Diverged (lib : Libgit2) (r : Repo) (localOid remoteOid : Nat) (base ours theirs : Commit) :
    Prop where
  clean : r.Clean
  tip : r.tip = some localOid
  ours : r.commits[localOid]? = some ours
  theirs : r.commits[remoteOid]? = some theirs
  base : ∃ oid, lib.mergeBase r.commits localOid remoteOid = .ok oid ∧ r.commits[oid]? = some base

/-- The merge on disk ends like the merge on trees where every local file has its place, and throws
where one has none. -/
theorem mergeRemote_ends {lib : Libgit2} (hlib : lib.Lawful) (horder : lib.PathOrder)
    {localOid remoteOid : Nat} {base ours theirs : Commit}
    (hd : Diverged lib d.repo localOid remoteOid base ours theirs) (hfree : ClashFree ours.tree)
    (name : String) :
    Ends (mergeRemoteTakingTheirsForConflicts lib name localOid remoteOid) d
      (fun conflicted d' => Placeable base.tree ours.tree theirs.tree ∧
        Repo.mergeRemoteTakingTheirsForConflicts lib name localOid remoteOid d.repo =
          .ok conflicted d'.repo)
      fun _ _ => ¬ Placeable base.tree ours.tree theirs.tree := by
  obtain ⟨baseOid, hmb, hbase⟩ := hd.base
  have hdiff : ∀ {oid : Nat} {c : Commit}, d.repo.commits[oid]? = some c →
      d.repo.diffChangedPaths lib baseOid oid = .ok ((lib.diffTreeToTree base.tree c.tree).map
        fun delta => ⟨delta.path, Repo.changeType delta.status⟩) := by
    intro oid c hc
    simp only [Repo.diffChangedPaths, Repo.lookupCommit_eq hbase, Repo.lookupCommit_eq hc, bind,
      Except.bind, pure, Except.pure]
  have hcheckout : lib.checkoutTree (d.repo.treeAt d.repo.tip) d.repo.work d.repo.staged theirs.tree =
      .ok (theirs.tree, theirs.tree) := by
    rw [hd.clean.work, hd.clean.index]
    exact hlib.checkout_clean _ _
  obtain ⟨conflicted, r, hmerge, -⟩ :=
    Repo.mergeRemote_merged hlib hd.clean hd.tip hd.ours hd.theirs hbase hmb name
  generalize hlocal : ((lib.diffTreeToTree base.tree ours.tree).map
    fun delta => (⟨delta.path, Repo.changeType delta.status⟩ : ChangedPath)) = localChanges
  generalize hremote : ((lib.diffTreeToTree base.tree theirs.tree).map
    fun delta => (⟨delta.path, Repo.changeType delta.status⟩ : ChangedPath)).map (·.path) =
      remoteChanged
  have hchanged : ∀ path : String, path ∈ localChanges.map (·.path) ↔
      ours.tree[path]? ≠ base.tree[path]? := by
    intro path
    rw [← hlocal, List.map_map, ← hlib.diff_path]
    rfl
  have hremoteChanged : ∀ path : String, path ∈ remoteChanged ↔
      theirs.tree[path]? ≠ base.tree[path]? := by
    intro path
    rw [← hremote, List.map_map, ← hlib.diff_path]
    rfl
  have htype : ∀ change ∈ localChanges, change.type = .deleted ↔ ours.tree[change.path]? = none := by
    rw [← hlocal]
    intro change hc
    obtain ⟨delta, hdelta, rfl⟩ := List.mem_map.mp hc
    rw [← hlib.diff_deleted _ _ delta hdelta]
    cases delta.status <;> simp [Repo.changeType]
  have hlist : localChanges.Pairwise fun c c' => liesBelow c'.path c.path = false := by
    rw [← hlocal, List.pairwise_map]
    exact horder _ _
  have honly : ∀ path : String,
      path ∈ (localChanges.filter fun c => !remoteChanged.contains c.path).map (·.path) ↔
        ours.tree[path]? ≠ base.tree[path]? ∧ theirs.tree[path]? = base.tree[path]? := by
    intro path
    rw [Repo.mem_paths_filter localChanges fun q => !remoteChanged.contains q, hchanged,
      Bool.not_eq_true', List.contains_eq_mem, decide_eq_false_iff_not, hremoteChanged, not_not]
  unfold mergeRemoteTakingTheirsForConflicts checkoutCommitOid Repo.checkoutCommitOid
  simp only [Ends.bind_iff, Ends.get_iff, Ends.fromExcept_iff, hmb, hdiff hd.ours, hdiff hd.theirs,
    Repo.lookupCommit_eq hd.theirs, hcheckout, Except.ok.injEq, forall_eq', Ends.set_iff,
    reduceCtorEq, false_imp_iff, implies_true, and_true, onRepo_iff, Ends.modify_iff, hlocal, hremote]
  have hstart : Replayed ours.tree theirs.tree []
      ⟨{ d.repo with work := theirs.tree, index := some theirs.tree }, theirs.tree.keys⟩ :=
    ⟨fun path => rfl, fun path => by simp⟩
  refine (replayLocalChanges_ends (d := ⟨{ d.repo with work := theirs.tree, index := some theirs.tree },
    theirs.tree.keys⟩) hd.ours hfree [] (fun change hc => htype change (List.mem_filter.mp hc).1) honly
    (hlist.filter _) hstart).mono ?_ ?_
  · rintro - d1 ⟨hfits, hreplay⟩
    have hends : Ends (Repo.mergeRemoteTakingTheirsForConflicts lib name localOid remoteOid) d.repo
        (fun paths r' => paths = (localChanges.filter fun c => remoteChanged.contains c.path).map
            (·.path) ∧
          Repo.commitMerge localOid remoteOid (Repo.mergeMessage name
            ((localChanges.filter fun c => remoteChanged.contains c.path).map (·.path)).length)
            d1.repo = .ok () r') fun _ _ => True := by
      unfold Repo.mergeRemoteTakingTheirsForConflicts Repo.checkoutCommitOid
      simp only [Ends.bind_iff, Ends.get_iff, Ends.fromExcept_iff, hmb, hdiff hd.ours,
        hdiff hd.theirs, Repo.lookupCommit_eq hd.theirs, hcheckout, Except.ok.injEq, forall_eq',
        Ends.set_iff, implies_true, and_true, hlocal, hremote, Ends.pure_iff, true_and]
      refine .intro (fun _ r1 hr1 => ?_) fun _ _ _ => trivial
      rw [hreplay] at hr1
      cases hr1
      exact .intro (fun _ _ h => h) fun _ _ _ => trivial
    obtain ⟨rfl, hcommit⟩ := hends.ok hmerge
    refine Ends.intro (fun _ r' hr' => ?_) fun _ _ he => ?_
    · rw [hcommit] at hr'
      cases hr'
      refine Ends.pure_iff.mpr ⟨fun path hlocal hremote => ?_, hmerge⟩
      obtain ⟨change, hchange, rfl⟩ := List.mem_map.mp ((honly path).mpr ⟨hlocal, hremote⟩)
      exact hfits change hchange
    · rw [hcommit] at he
      cases he
  · rintro - - ⟨change, hchange, hno⟩ hplace
    obtain ⟨hlocal, hremote⟩ := (honly change.path).mp (List.mem_map_of_mem hchange)
    exact hno (hplace change.path hlocal hremote)

/-- The merge of a diverged pull succeeds, with the remote entry in its commit where the remote side
differs from the base and the local entry elsewhere, exactly when every file that only the local side
added or modified has its place among the remote files. -/
theorem mergeRemoteTakingTheirsForConflicts_iff {lib : Libgit2} (hlib : lib.Lawful)
    (horder : lib.PathOrder) {localOid remoteOid : Nat} {base ours theirs : Commit}
    (hd : Diverged lib d.repo localOid remoteOid base ours theirs) (hfree : ClashFree ours.tree)
    (name : String) :
    (∃ conflicted d' oid merged,
      mergeRemoteTakingTheirsForConflicts lib name localOid remoteOid d = .ok conflicted d' ∧
      d'.repo.tip = some oid ∧ d'.repo.commits[oid]? = some merged ∧
      merged.parents = [localOid, remoteOid] ∧
      (∀ path : String, merged.tree[path]? =
        if theirs.tree[path]? ≠ base.tree[path]? then theirs.tree[path]? else ours.tree[path]?) ∧
      (∀ path : String, path ∈ conflicted ↔
        ours.tree[path]? ≠ base.tree[path]? ∧ theirs.tree[path]? ≠ base.tree[path]?) ∧
      conflicted.Nodup ∧ d'.repo.work = merged.tree ∧ d'.repo.index = some merged.tree) ↔
    Placeable base.tree ours.tree theirs.tree := by
  have hends := mergeRemote_ends hlib horder hd hfree name
  constructor
  · rintro ⟨conflicted, d', -, -, hrun, -⟩
    exact (hends.ok hrun).1
  · intro hplace
    obtain ⟨conflicted, d', hrun, -, hmerge⟩ :=
      (hends.mono (fun _ _ h => h) fun _ _ hno => hno hplace).returns
    obtain ⟨baseOid, hmb, hbase⟩ := hd.base
    obtain ⟨conflicted', r', oid, merged, hmerge', hspec⟩ :=
      Repo.mergeRemoteTakingTheirsForConflicts_spec hlib hd.clean hd.tip hd.ours hd.theirs hbase hmb name
    rw [hmerge, EStateM.Result.ok.injEq] at hmerge'
    rw [← hmerge'.1, ← hmerge'.2] at hspec
    exact ⟨conflicted, d', oid, merged, hrun, hspec⟩

end

end WorkDir

/-! ## A merge and one that throws -/

/-- `plainGit` with its deltas in the order of their paths. -/
def sortedGit : Libgit2 :=
  { plainGit with
    diffTreeToTree := fun old new => (diffTrees old new).insertionSort fun d d' => d.path ≤ d'.path }

theorem sortedGit_lawful : sortedGit.Lawful := by
  have hperm : ∀ old new, (sortedGit.diffTreeToTree old new).Perm (plainGit.diffTreeToTree old new) :=
    fun old new => List.perm_insertionSort _ _
  refine ⟨fun old new => ?_, fun old new path => ?_, fun old new d hd => ?_, plainGit_lawful.checkout_clean⟩
  · exact ((hperm old new).map _).nodup_iff.mpr (plainGit_lawful.diff_nodup old new)
  · rw [((hperm old new).map _).mem_iff]
    exact plainGit_lawful.diff_path old new path
  · exact plainGit_lawful.diff_deleted old new d ((hperm old new).mem_iff.mp hd)

theorem lt_of_liesBelow {dir path : String} (h : liesBelow dir path = true) : dir < path := by
  obtain ⟨rest, hrest⟩ := List.isPrefixOf_iff_prefix.mp h
  rw [String.lt_iff_toList_lt, ← hrest, List.append_assoc]
  generalize dir.toList = cs
  induction cs with
  | nil => exact List.nil_lt_cons _ _
  | cons c cs ih => exact List.cons_lt_cons_iff.mpr (.inr ⟨rfl, ih⟩)

theorem sortedGit_pathOrder : sortedGit.PathOrder := by
  intro old new
  refine (List.pairwise_insertionSort _ _).imp fun {d d'} hle => ?_
  by_contra hno
  exact absurd (lt_of_liesBelow (by simpa using hno)) (not_lt.mpr hle)

/-- Both sides changed `a` and the local side added `b`: `b` is kept beside the remote `a`. -/
theorem clonesDiffer_merged :
    ∃ conflicted d' oid merged,
      WorkDir.mergeRemoteTakingTheirsForConflicts sortedGit "origin" 1 2
        ⟨clonesDiffer, clonesDiffer.work.keys⟩ = .ok conflicted d' ∧
      d'.repo.tip = some oid ∧ d'.repo.commits[oid]? = some merged ∧ merged.parents = [1, 2] ∧
      (∀ path : String, merged.tree[path]? =
        if ((∅ : Tree).insert "a" ['3'])[path]? ≠ ((∅ : Tree).insert "a" ['1'])[path]? then
          ((∅ : Tree).insert "a" ['3'])[path]?
        else ((∅ : Tree).insert "a" ['2'] |>.insert "b" ['b'])[path]?) ∧
      (∀ path : String, path ∈ conflicted ↔
        ((∅ : Tree).insert "a" ['2'] |>.insert "b" ['b'])[path]? ≠ ((∅ : Tree).insert "a" ['1'])[path]? ∧
        ((∅ : Tree).insert "a" ['3'])[path]? ≠ ((∅ : Tree).insert "a" ['1'])[path]?) ∧
      conflicted.Nodup ∧ d'.repo.work = merged.tree ∧ d'.repo.index = some merged.tree := by
  have htip : clonesDiffer.tip = some 1 := by decide +kernel
  have hmb : sortedGit.mergeBase clonesDiffer.commits 1 2 = .ok 0 := by decide +kernel
  have hclean : clonesDiffer.Clean := by
    constructor <;> rw [htip] <;> rfl
  exact (WorkDir.mergeRemoteTakingTheirsForConflicts_iff sortedGit_lawful sortedGit_pathOrder
    (d := ⟨clonesDiffer, clonesDiffer.work.keys⟩) ⟨hclean, htip, rfl, rfl, 0, hmb, rfl⟩
    (by decide +kernel) "origin").mpr (WorkDir.placeable_of_keys (by decide +kernel))

/-- The local side replaced the directory `a` by a file, and the remote side added `c`. -/
def directoryReplaced : WorkDir where
  repo :=
    { work := (∅ : Tree).insert "a" ['2']
      index := some ((∅ : Tree).insert "a" ['2'])
      commits := [⟨(∅ : Tree).insert "a/b" ['1'], [], ""⟩, ⟨(∅ : Tree).insert "a" ['2'], [0], ""⟩,
        ⟨(∅ : Tree).insert "a/b" ['1'] |>.insert "c" ['3'], [0], ""⟩]
      refs := (∅ : Map String Nat).insert "refs/heads/master" 1
      head := "refs/heads/master" }
  placed := ["a"]

/-- No tree has a clash, and the merge throws: `a` is still a directory when its file is written. -/
theorem directoryReplaced_throws :
    (∀ commit ∈ directoryReplaced.repo.commits, ClashFree commit.tree) ∧
    ∃ e d', WorkDir.mergeRemoteTakingTheirsForConflicts sortedGit "origin" 1 2 directoryReplaced =
      .error e d' ∧ e = .runtimeError "Failed to open for write: a" :=
  ⟨by decide +kernel, Ends.throws (by decide +kernel)⟩

end HolderCore
