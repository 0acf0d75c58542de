import ForikOS.Theory.Search

/-!
# Opening and Making Files Along the Tree

`sys_open` opens the file the path leads to, and makes a new one where only
the last name of the path is missing; `sys_mkdir` makes a directory there.

`search_file` stops at the first file and at the first missing name, whether
or not that is the end of the path. The two calls compare the depth of the path
with that of the record, and go on only if they are the same. So they are cut in
two here: up to that decision, and what is done after it.

## Main definitions

* `OpenTarget`, `openTarget`, `openFinish`: The two halves of `sys_open`.
* `mkdirTarget`: The first half of `sys_mkdir`.
* `OpensFile`, `CreatesIn`, `AllocatesIn`: The second half is reached.
* `NewName`: Only the last name of a path is missing.

## Theorems

* `sysOpen_eq`, `sysMkdir_eq`: The halves together.
* `run_openTarget`, `run_mkdirTarget`: Where the first half leads.
* `open_and_mkdir_follow_tree`: The calls go on where the tree says so.
-/

namespace ForikOS

open Prog

/-- What `sys_open` does after the search: nothing, open a file, or make one
    in a directory. -/
inductive OpenTarget
  | declined
  | file (n : Nat)
  | create (d : Dir) (name : Str)

/-- `sys_open` up to `file_open` and `file_create`. -/
def openTarget (t : Nat) (pathname : Str) (flags : Nat) : FsM OpenTarget := do
  Prog.check (pathname ≠ []) .wild
  if pathname.getLast? = some slash then pure .declined
  else do
    assert (flags ≤ 7) .sysOpen
    let pathnameDepth ← pathDepthCnt pathname
    let (inodeNo, r) ← searchFile t pathname
    if r.fileType = .directory then do
      dirClose t r.parentDir
      pure .declined
    else do
      let pathSearchedDepth ← pathDepthCnt r.searchedPath
      if pathnameDepth ≠ pathSearchedDepth then do
        dirClose t r.parentDir
        pure .declined
      else if inodeNo = minusOne ∧ flags &&& oCreat = 0 then do
        dirClose t r.parentDir
        pure .declined
      else if inodeNo ≠ minusOne ∧ flags &&& oCreat ≠ 0 then do
        dirClose t r.parentDir
        pure .declined
      else if flags &&& oCreat ≠ 0 then
        pure (.create r.parentDir (baseName pathname))
      else
        pure (.file inodeNo)

/-- The rest of `sys_open`. -/
def openFinish (t flags : Nat) : OpenTarget → FsM Int
  | .declined => pure (-1)
  | .file n => fileOpen t n flags
  | .create d name => do
      let fd ← fileCreate t d name flags
      dirClose t d
      pure fd

/-- `sys_mkdir` up to the allocation of an inode. -/
def mkdirTarget (t : Nat) (pathname : Str) : FsM (Option PathSearchRecord) := do
  let ok ← malloc
  if ok = true then do
    let (inodeNo, r) ← searchFile t pathname
    if inodeNo ≠ minusOne then do
      dirClose t r.parentDir
      pure none
    else do
      let pathnameDepth ← pathDepthCnt pathname
      let pathSearchedDepth ← pathDepthCnt r.searchedPath
      if pathnameDepth ≠ pathSearchedDepth then do
        dirClose t r.parentDir
        pure none
      else
        pure (some r)
  else
    pure none

/-- The rest of `sys_mkdir`. -/
def mkdirFinish (t : Nat) : Option PathSearchRecord → FsM Int
  | none => pure (-1)
  | some r => mkdirSearched t r

theorem sysOpen_eq (t : Nat) (p : Str) (flags : Nat) :
    sysOpen t p flags = openTarget t p flags >>= openFinish t flags := by
  simp only [sysOpen, openTarget, openSearched, bind_assoc, ite_bind, pure_bind, openFinish]

theorem sysMkdir_eq (t : Nat) (p : Str) :
    sysMkdir t p = mkdirTarget t p >>= mkdirFinish t := by
  simp only [sysMkdir, mkdirTarget, bind_assoc, ite_bind, pure_bind, mkdirFinish]

section Targets

variable {s₀ s : Fs} {t room flags : Nat} {p : Str} {o : NameTree.Outcome Nat Str}

/-- The directory is closed, and the call returns. -/
theorem run_dirClose_pure {α : Type} (x : α) {d : Dir} {m : Nat} (hM : Mounted t room s₀)
    (h : DirHeld s₀ d m s) :
    ∃ s', (dirClose t d >>= fun _ => pure x).run s = .ok (x, s') ∧ Back s₀ s' := by
  rcases run_dirClose hM h with ⟨s', hclose, hb⟩
  rw [run_bind_of hclose]
  exact ⟨s', rfl, hb⟩

/-- How the first half of `sys_open` ends when the search stops in this way. -/
inductive OpenEnds (flags : Nat) (s : Fs) : NameTree.Outcome Nat Str → OpenTarget → Prop
  | file (d n : Nat) : flags &&& oCreat = 0 → OpenEnds flags s (.file d n []) (.file n)
  | create {m : Nat} {d : Dir} (name : Str) : flags &&& oCreat ≠ 0 →
      (s.inode d.inode).iNo = m → OpenEnds flags s (.missing m name []) (.create d name)
  | declined {o : NameTree.Outcome Nat Str} :
      (∀ d n, o = .file d n [] → flags &&& oCreat ≠ 0) →
      (∀ m name, o = .missing m name [] → flags &&& oCreat = 0) → OpenEnds flags s o .declined

/-- The depths differ if and only if something of the path is left. -/
theorem depth_ne_iff {done rest : List Str} {name : Str}
    (hks : components p = done ++ name :: rest) :
    (components p).length ≠ done.length + 1 ↔ rest ≠ [] := by
  rw [hks, List.length_append, List.length_cons, ← List.length_pos_iff]
  omega

theorem number_ne_minusOne {n : Nat} (h : n < 4096) : n ≠ minusOne := by
  have : minusOne = 2 ^ 32 - 1 := rfl
  omega

/-- The last name of a path that does not end in a slash. -/
theorem baseName_eq {done : List Str} {name : Str} (hs : slash ∈ p)
    (hlast : p.getLast? ≠ some slash) (hks : components p = done ++ [name]) :
    baseName p = name := by
  rcases components_baseName hs hlast with ⟨ks, hbase⟩
  rw [hks] at hbase
  have hlist := List.append_inj_right' hbase rfl
  injection hlist with h _
  exact h.symm

/-- Where the first half of `sys_open` leads. -/
theorem run_openTarget (hM : Mounted t room s) (hm : Memory s) (T : DirTree s) (hp : PathFits p)
    (hne : components p ≠ []) (hlast : p.getLast? ≠ some slash) (hflags : flags ≤ 7)
    (ho : (diskTree s).Follows 0 (components p) o) :
    ∃ e s', (openTarget t p flags).run s = .ok (e, s') ∧ Beside s s' ∧ OpenEnds flags s' o e := by
  have hnil : p ≠ [] := by
    intro hc
    rw [hc] at hne
    exact hne rfl
  rw [openTarget, run_bind_of (run_check_pos hnil s), if_neg hlast,
    run_bind_of (run_assert hflags s),
    run_bind_of (run_pathDepthCnt s hne (fun k hk => Nat.le_succ_of_le (hp.short k hk)))]
  rcases searchFile_follows hM hm T hp (Or.inr hne) ((Back.refl s).junk _) ho with
    ⟨n, r, s₁, hrun, hres⟩
  rw [run_bind_of hrun]
  dsimp only
  cases o with
  | dir d =>
      rcases hres with ⟨-, hty, m, -, hheld⟩
      rcases run_dirClose_pure OpenTarget.declined hM hheld with ⟨s₂, hclose, hb⟩
      rw [if_pos hty, hclose]
      refine ⟨_, _, rfl, hb.beside, .declined (fun _ _ h => ?_) (fun _ _ h => ?_)⟩
      · cases h
      · cases h
  | file d m rest =>
      rcases hres with ⟨rfl, hty, hheld, done, name, hks, hpath⟩
      rcases NameTree.follows_file_iff.mp ho with ⟨_, _, -, -, hfile⟩
      have hfound := number_ne_minusOne (T.file_number hfile).1
      have hheld' := hheld.junk (fun i => s₁.junk (i + 1))
      rcases run_dirClose_pure OpenTarget.declined hM hheld' with ⟨s₂, hclose, hb⟩
      rw [if_neg (by rw [hty]; exact FileType.noConfusion), hpath,
        run_bind_of (run_pathDepthCnt_joined s₁ hp hks)]
      -- A file on the way is no directory, and the depths differ. At the end of the
      -- path it is opened, unless it was to be created.
      by_cases hrest : rest = []
      · rw [if_neg (fun h => (depth_ne_iff hks).mp h hrest), if_neg (fun h => hfound h.1), hrest]
        by_cases hcreat : flags &&& oCreat ≠ 0
        · rw [if_pos ⟨hfound, hcreat⟩, hclose]
          refine ⟨_, _, rfl, hb.beside, .declined (fun _ _ _ => hcreat) (fun _ _ h => ?_)⟩
          cases h
        · rw [if_neg (fun h => hcreat h.2), if_neg hcreat]
          exact ⟨_, _, rfl, hheld'.beside, .file d n (not_not.mp hcreat)⟩
      · rw [if_pos ((depth_ne_iff hks).mpr hrest), hclose]
        refine ⟨_, _, rfl, hb.beside, .declined (fun _ _ h => ?_) (fun _ _ h => ?_)⟩
        · injection h with _ _ hnil
          exact absurd hnil hrest
        · cases h
  | missing d name rest =>
      rcases hres with ⟨rfl, hty, hheld, done, hks, hpath⟩
      rcases NameTree.follows_missing_iff.mp ho with ⟨pre, -, hwalk, -⟩
      have hdir := T.isDir_of_walks hwalk (isDir_root s)
      have hheld' := hheld.junk (fun i => s₁.junk (i + 1))
      rcases run_dirClose_pure OpenTarget.declined hM hheld' with ⟨s₂, hclose, hb⟩
      rw [if_neg (by rw [hty]; exact FileType.noConfusion), hpath,
        run_bind_of (run_pathDepthCnt_joined s₁ hp hks)]
      by_cases hrest : rest = []
      · rw [if_neg (fun h => (depth_ne_iff hks).mp h hrest)]
        rw [hrest] at hks ⊢
        -- The last name is missing: the file is created if that was asked for.
        by_cases hcreat : flags &&& oCreat = 0
        · rw [if_pos ⟨rfl, hcreat⟩, hclose]
          refine ⟨_, _, rfl, hb.beside, .declined (fun _ _ h => ?_) (fun _ _ _ => hcreat)⟩
          cases h
        · rw [if_neg (fun h => hcreat h.2), if_neg (fun h => h.1 rfl), if_pos hcreat,
            baseName_eq (List.mem_of_mem_head? hp.head) hlast hks]
          exact ⟨_, _, rfl, hheld'.beside, .create name hcreat (hheld'.iNo hM (T.record d hdir))⟩
      · rw [if_pos ((depth_ne_iff hks).mpr hrest), hclose]
        refine ⟨_, _, rfl, hb.beside, .declined (fun _ _ h => ?_) (fun _ _ h => ?_)⟩
        · cases h
        · injection h with _ _ hnil
          exact absurd hnil hrest

/-- How the first half of `sys_mkdir` ends when the search stops in this way. -/
inductive MkdirEnds (s : Fs) : NameTree.Outcome Nat Str → Option PathSearchRecord → Prop
  | create {m : Nat} {name : Str} {r : PathSearchRecord} : (s.inode r.parentDir.inode).iNo = m →
      baseName r.searchedPath = name → MkdirEnds s (.missing m name []) (some r)
  | declined {o : NameTree.Outcome Nat Str} : (∀ m name, o ≠ .missing m name []) →
      MkdirEnds s o none

/-- Where the first half of `sys_mkdir` leads. -/
theorem run_mkdirTarget (hM : Mounted t room s) (hm : Memory s) (T : DirTree s) (hp : PathFits p)
    (hne : components p ≠ []) (ho : (diskTree s).Follows 0 (components p) o) :
    ∃ e s', (mkdirTarget t p).run s = .ok (e, s') ∧ Beside s s' ∧ MkdirEnds s' o e := by
  have hshort : ∀ k, k ∈ components p → k.length ≤ maxFileNameLen :=
    fun k hk => Nat.le_succ_of_le (hp.short k hk)
  rw [mkdirTarget, run_bind_of hm.run_malloc, if_pos rfl]
  rcases searchFile_follows hM hm T hp (Or.inr hne) (Back.refl s) ho with ⟨n, r, s₁, hrun, hres⟩
  rw [run_bind_of hrun]
  dsimp only
  cases o with
  | dir d =>
      rcases hres with ⟨rfl, -, m, -, hheld⟩
      have hdir := T.isDir_of_walks (NameTree.follows_dir_iff.mp ho) (isDir_root s)
      rcases run_dirClose_pure (none : Option PathSearchRecord) hM hheld with ⟨s₂, hclose, hb⟩
      rw [if_pos (number_ne_minusOne (T.number hdir)), hclose]
      refine ⟨_, _, rfl, hb.beside, .declined (fun _ _ h => ?_)⟩
      cases h
  | file d m rest =>
      rcases hres with ⟨rfl, -, hheld, -⟩
      rcases NameTree.follows_file_iff.mp ho with ⟨_, _, -, -, hfile⟩
      rcases run_dirClose_pure (none : Option PathSearchRecord) hM hheld with ⟨s₂, hclose, hb⟩
      rw [if_pos (number_ne_minusOne (T.file_number hfile).1), hclose]
      refine ⟨_, _, rfl, hb.beside, .declined (fun _ _ h => ?_)⟩
      cases h
  | missing d name rest =>
      rcases hres with ⟨rfl, -, hheld, done, hks, hpath⟩
      rcases NameTree.follows_missing_iff.mp ho with ⟨pre, -, hwalk, -⟩
      have hdir := T.isDir_of_walks hwalk (isDir_root s)
      have hheld' := (hheld.junk (fun i => s₁.junk (i + 1))).junk (fun i => s₁.junk (i + 1 + 1))
      rcases run_dirClose_pure (none : Option PathSearchRecord) hM hheld' with ⟨s₂, hclose, hb⟩
      rw [if_neg (not_not.mpr rfl), run_bind_of (run_pathDepthCnt s₁ hne hshort), hpath,
        run_bind_of (run_pathDepthCnt_joined _ hp hks)]
      by_cases hrest : rest = []
      · rw [if_neg (fun h => (depth_ne_iff hks).mp h hrest), hrest]
        refine ⟨_, _, rfl, hheld'.beside, .create (hheld'.iNo hM (T.record d hdir)) ?_⟩
        -- The name to make is the last component.
        have hname : name ∈ components p := by
          rw [hks]
          exact List.mem_append_right _ List.mem_cons_self
        rw [hpath, joined_append]
        exact baseName_append _ (mem_components hname).2.1
      · rw [if_pos ((depth_ne_iff hks).mpr hrest), hclose]
        refine ⟨_, _, rfl, hb.beside, .declined (fun _ _ h => ?_)⟩
        injection h with _ _ hnil
        exact absurd hnil hrest

end Targets

/-- `sys_open` reaches `file_open` of inode `n`. -/
def OpensFile (t : Nat) (p : Str) (flags : Nat) (s : Fs) (n : Nat) : Prop :=
  ∃ s₁, (openTarget t p flags).run s = .ok (.file n, s₁) ∧
    (sysOpen t p flags).run s = (fileOpen t n flags).run s₁

/-- `sys_open` reaches `file_create` of `name` in the directory with inode
    `m`, and closes the directory after it. -/
def CreatesIn (t : Nat) (p : Str) (flags : Nat) (s : Fs) (m : Nat) (name : Str) : Prop :=
  ∃ d s₁, (openTarget t p flags).run s = .ok (.create d name, s₁) ∧
    (s₁.inode d.inode).iNo = m ∧
    (sysOpen t p flags).run s = (openFinish t flags (.create d name)).run s₁

/-- `sys_mkdir` reaches the allocation of an inode for `name` in the directory
    with inode `m`. -/
def AllocatesIn (t : Nat) (p : Str) (s : Fs) (m : Nat) (name : Str) : Prop :=
  ∃ r s₁, (mkdirTarget t p).run s = .ok (some r, s₁) ∧ (s₁.inode r.parentDir.inode).iNo = m ∧
    baseName r.searchedPath = name ∧ (sysMkdir t p).run s = (mkdirSearched t r).run s₁

/-- The call returns `-1`, and the disk is unchanged. -/
def Refuses (x : FsM Int) (s : Fs) : Prop := ∃ s₁, x.run s = .ok (-1, s₁) ∧ s₁.disk = s.disk

/-- All components but the last lead to directory `m`, and the last is missing
    there. -/
def NewName (s : Fs) (ks : List Str) (m : Nat) (name : Str) : Prop :=
  ∃ pre, ks = pre ++ [name] ∧ (diskTree s).Walks 0 pre m ∧ (diskTree s).Absent m name

/-- `sys_open` follows the tree. -/
structure OpenFollowsTree (t : Nat) (p : Str) (flags : Nat) (s : Fs) : Prop where
  opens : flags &&& oCreat = 0 → ∀ n, OpensFile t p flags s n ↔
    (diskTree s).WalksToFile 0 (components p) n
  creates : flags &&& oCreat ≠ 0 → ∀ m name, CreatesIn t p flags s m name ↔
    NewName s (components p) m name
  refuses : (flags &&& oCreat = 0 → ∀ n, ¬ (diskTree s).WalksToFile 0 (components p) n) →
    (flags &&& oCreat ≠ 0 → ∀ m name, ¬ NewName s (components p) m name) →
    Refuses (sysOpen t p flags) s

/-- `sys_mkdir` follows the tree. -/
structure MkdirFollowsTree (t : Nat) (p : Str) (s : Fs) : Prop where
  allocates : ∀ m name, AllocatesIn t p s m name ↔ NewName s (components p) m name
  refuses : (∀ m name, ¬ NewName s (components p) m name) → Refuses (sysMkdir t p) s

section Calls

variable {s : Fs} {t room flags : Nat} {p : Str}

theorem newName_iff {ks : List Str} {m : Nat} {name : Str} :
    NewName s ks m name ↔ (diskTree s).Follows 0 ks (.missing m name []) :=
  NameTree.follows_missing_iff.symm

theorem open_follows_tree (hM : Mounted t room s) (hm : Memory s) (T : DirTree s) (hp : PathFits p)
    (hne : components p ≠ []) (hlast : p.getLast? ≠ some slash) (hflags : flags ≤ 7) :
    OpenFollowsTree t p flags s := by
  -- The path leads somewhere in the tree, and only to one place.
  rcases (diskTree s).exists_follows 0 (components p) with ⟨o, ho⟩
  rcases run_openTarget hM hm T hp hne hlast hflags ho with ⟨e, s₁, hrun, hbeside, hends⟩
  have hopen : (sysOpen t p flags).run s = (openFinish t flags e).run s₁ := by
    rw [sysOpen_eq, run_bind_of hrun]
  refine ⟨fun hcreat n => ⟨?_, ?_⟩, fun hcreat m name => ⟨?_, ?_⟩, fun hfile hnew => ?_⟩
  · rintro ⟨s₂, hrun₂, -⟩
    rw [hrun, Except.ok.injEq, Prod.mk.injEq] at hrun₂
    rw [hrun₂.1] at hends
    cases hends with
    | file d _ _ => exact NameTree.walksToFile_iff.mpr ⟨d, ho⟩
  · intro hwalk
    rcases NameTree.walksToFile_iff.mp hwalk with ⟨d, hfollow⟩
    rw [ho.unique T.deterministic hfollow] at hends
    cases hends with
    | file _ _ _ => exact ⟨s₁, hrun, hopen⟩
    | declined hno _ => exact absurd hcreat (hno d n rfl)
  · rintro ⟨d, s₂, hrun₂, hno, -⟩
    rw [hrun, Except.ok.injEq, Prod.mk.injEq] at hrun₂
    rw [hrun₂.1] at hends
    cases hends with
    | create _ _ hdir =>
        rw [← hrun₂.2, hdir] at hno
        exact newName_iff.mpr (hno ▸ ho)
  · intro hname
    rw [ho.unique T.deterministic (newName_iff.mp hname)] at hends
    cases hends with
    | create _ _ hdir => exact ⟨_, s₁, hrun, hdir, hopen⟩
    | declined _ hno => exact absurd (hno m name rfl) hcreat
  · cases hends with
    | file d n hcreat =>
        exact absurd (NameTree.walksToFile_iff.mpr ⟨d, ho⟩) (hfile hcreat n)
    | create name hcreat hdir => exact absurd (newName_iff.mpr ho) (hnew hcreat _ name)
    | declined _ _ => exact ⟨s₁, hopen, hbeside.disk⟩

theorem mkdir_follows_tree (hM : Mounted t room s) (hm : Memory s) (T : DirTree s) (hp : PathFits p)
    (hne : components p ≠ []) : MkdirFollowsTree t p s := by
  rcases (diskTree s).exists_follows 0 (components p) with ⟨o, ho⟩
  rcases run_mkdirTarget hM hm T hp hne ho with ⟨e, s₁, hrun, hbeside, hends⟩
  have hmkdir : (sysMkdir t p).run s = (mkdirFinish t e).run s₁ := by
    rw [sysMkdir_eq, run_bind_of hrun]
  refine ⟨fun m name => ⟨?_, ?_⟩, fun hnew => ?_⟩
  · rintro ⟨r, s₂, hrun₂, hno, hbase, -⟩
    rw [hrun, Except.ok.injEq, Prod.mk.injEq] at hrun₂
    rw [hrun₂.1] at hends
    cases hends with
    | create hdir hname =>
        rw [← hrun₂.2, hdir] at hno
        rw [hname] at hbase
        exact newName_iff.mpr (hno ▸ hbase ▸ ho)
  · intro hname
    rw [ho.unique T.deterministic (newName_iff.mp hname)] at hends
    cases hends with
    | create hdir hbase => exact ⟨_, s₁, hrun, hdir, hbase, hmkdir⟩
    | declined hno => exact absurd rfl (hno m name)
  · cases hends with
    | create _ _ => exact absurd (newName_iff.mpr ho) (hnew _ _)
    | declined _ => exact ⟨s₁, hmkdir, hbeside.disk⟩

/-- `sys_open` turns down a path that ends in a slash. -/
theorem open_refuses_slash (t flags : Nat) (s : Fs) (hlast : p.getLast? = some slash) :
    Refuses (sysOpen t p flags) s := by
  have hnil : p ≠ [] := by
    intro hc
    rw [hc] at hlast
    cases hlast
  refine ⟨s, ?_, rfl⟩
  rw [sysOpen, run_bind_of (run_check_pos hnil s), if_pos hlast, run_pure]

/-- With memory left and flags it accepts, `sys_open` opens the file the path
    leads to, and makes one where only the last name is missing; `sys_mkdir`
    makes a directory there. Else they return `-1`, and the disk is as before. -/
theorem open_and_mkdir_follow_tree (t : Nat) (s : Fs) (p : Str) (flags : Nat) (hM : Mounted t 0 s)
    (hm : Memory s) (T : DirTree s) (hp : PathFits p) (hne : components p ≠ [])
    (hflags : flags ≤ 7) :
    (p.getLast? ≠ some slash → OpenFollowsTree t p flags s) ∧
      (p.getLast? = some slash → Refuses (sysOpen t p flags) s) ∧ MkdirFollowsTree t p s :=
  ⟨fun hlast => open_follows_tree hM hm T hp hne hlast hflags,
    fun hlast => open_refuses_slash t flags s hlast, mkdir_follows_tree hM hm T hp hne⟩

/-- In the small tree the path `/f` leads to `file_open`. -/
theorem open_and_mkdir_follow_tree_file :
    OpensFile 0 pathF 0 smallTree 2 ∧ MkdirFollowsTree 0 pathF smallTree := by
  have h := open_and_mkdir_follow_tree 0 smallTree pathF 0 (smallTree_mounted 0).less smallTree_memory
    smallTree_wf pathF_fits (by decide) (by decide)
  exact ⟨((h.1 (by decide)).opens (by decide) 2).mpr smallTree_pathF, h.2.2⟩

/-- The first half of `sys_open` has completed with a file. -/
def reachesFile (r : Except FsFault (OpenTarget × Fs)) : Bool :=
  match r with
  | .ok (.file _, _) => true
  | _ => false

/-- The small tree on a machine without memory. -/
def noMemory : Fs := { smallTree with mallocs := fun _ => false }

theorem noMemory_disk : noMemory.disk = smallTree.disk := by rw [noMemory]

theorem noMemory_sb : noMemory.part.sb = smallTree.part.sb := by rw [noMemory]

theorem noMemory_mounted : Mounted 0 0 noMemory :=
  (smallTree_mounted 0).less.answers (fun _ => false) smallTree.junk

/-- The small tree with an open inode in the heap of another process. -/
def foreignInode : Fs :=
  { smallTree with
    part := { smallTree.part with openInodes := [1, 0] }
    home := Function.update smallTree.home 1 (.process 7)
    nextInode := 2 }

theorem foreignInode_disk : foreignInode.disk = smallTree.disk := by rw [foreignInode]

theorem foreignInode_sb : foreignInode.part.sb = smallTree.part.sb := by rw [foreignInode]

/-- A path to a directory is not followed to its end where the list has an
    inode that is not there for the task. -/
theorem foreignInode_stops : ¬ OpenFollowsTree 0 pathDirDots 0 foreignInode := by
  intro h
  have hT := smallTree_wf.congr foreignInode_disk foreignInode_sb
  have hwalk : (diskTree foreignInode).Walks 0 (components pathDirDots) 1 := by
    rw [diskTree_congr foreignInode_disk foreignInode_sb]
    exact smallTree_pathDirDots
  have hnofile : ∀ n, ¬ (diskTree foreignInode).WalksToFile 0 (components pathDirDots) n := by
    intro n hfile
    rcases NameTree.walksToFile_iff.mp hfile with ⟨m, hfollow⟩
    cases (NameTree.follows_dir_iff.mpr hwalk).unique hT.deterministic hfollow
  rcases h.refuses (fun _ => hnofile) (fun hc => absurd rfl hc) with ⟨s₁, hrun, -⟩
  have hres : resultOf ((sysOpen 0 pathDirDots 0).run foreignInode) = none := by decide
  rw [hrun] at hres
  cases hres

/-- Without memory nothing is found, flags above 7 are an assertion, and an
    inode of another process stops the call. -/
theorem open_without_memory :
    (Mounted 0 0 noMemory ∧ DirTree noMemory ∧ PathFits pathF ∧
      (diskTree noMemory).WalksToFile 0 (components pathF) 2 ∧
      ¬ OpensFile 0 pathF 0 noMemory 2) ∧
    ((diskTree smallTree).WalksToFile 0 (components pathF) 2 ∧
      ¬ OpensFile 0 pathF 8 smallTree 2) ∧
    DirTree foreignInode ∧ ¬ OpenFollowsTree 0 pathDirDots 0 foreignInode := by
  refine ⟨⟨noMemory_mounted, smallTree_wf.congr noMemory_disk noMemory_sb, pathF_fits, ?_, ?_⟩,
    ⟨smallTree_pathF, ?_⟩, smallTree_wf.congr foreignInode_disk foreignInode_sb,
    foreignInode_stops⟩
  · rw [diskTree_congr noMemory_disk noMemory_sb]
    exact smallTree_pathF
  · rintro ⟨s₁, hrun, -⟩
    have hreach : reachesFile ((openTarget 0 pathF 0).run noMemory) = false := by decide
    rw [hrun] at hreach
    cases hreach
  · rintro ⟨s₁, hrun, -⟩
    have hreach : reachesFile ((openTarget 0 pathF 8).run smallTree) = false := by decide
    rw [hrun] at hreach
    cases hreach

end Calls

end ForikOS
