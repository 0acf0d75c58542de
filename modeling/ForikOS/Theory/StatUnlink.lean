import ForikOS.Theory.PathCalls

/-!
# Stat and Unlink

`sys_stat` describes the object a path leads to, and `sys_unlink` removes the
file it leads to.

Neither compares depths the way `sys_open` does. A file that is followed by
more components is taken for the object of the whole path, and a path of
several slashes leads nowhere, so that the number both go on with is whatever
the stack holds. Where no file is used as a directory and there is a component
to follow, both do what the tree says. `sys_unlink` has no answer for the root
directory: it is an assertion that nobody removes it.

## Main definitions

* `WalksTo`: The object a path leads to.
* `NoFileInside`: No file is followed by more names.
* `unlinkTarget`, `removeFile`: The two halves of `sys_unlink`.
* `IsOpen`: A file is in `file_table`.
* `StatFollowsTree`, `UnlinkFollowsTree`: What the two calls do.

## Theorems

* `run_inodeInUse`: The loop over `file_table`.
* `run_unlinkTarget`: Where the first half of `sys_unlink` leads.
* `stat_and_unlink_follow_tree`: The calls do what the tree says.
-/

namespace ForikOS

open Prog

/-- The names lead from the root to inode `n`, which is of type `ty`. -/
def WalksTo (s : Fs) (ks : List Str) (n : Nat) (ty : FileType) : Prop :=
  (ty = .directory ∧ (diskTree s).Walks 0 ks n) ∨ (ty = .regular ∧ (diskTree s).WalksToFile 0 ks n)

/-- No file on the way is followed by more names. -/
def NoFileInside (s : Fs) (ks : List Str) : Prop :=
  ∀ pre name post m n, ks = pre ++ name :: post → (diskTree s).Walks 0 pre m →
    (diskTree s).file m name n → post = []

/-- The file is in `file_table`. -/
def IsOpen (s : Fs) (n : Nat) : Prop :=
  ∃ g a, g < maxFileOpen ∧ (s.fileTable g).fdInode = some a ∧ (s.inode a).iNo = n

/-- `sys_unlink` up to the removal. -/
def unlinkTarget (t : Nat) (pathname : Str) : FsM (Option (Nat × Dir)) := do
  assert (pathname.length < maxPathLen) .sysUnlink
  let (inodeNo, r) ← searchFile t pathname
  assert (inodeNo ≠ 0) .sysUnlink
  if inodeNo = minusOne then do
    dirClose t r.parentDir
    pure none
  else if r.fileType = .directory then do
    dirClose t r.parentDir
    pure none
  else do
    let inUse ← inodeInUse t inodeNo maxFileOpen 0
    if inUse = true then do
      dirClose t r.parentDir
      pure none
    else do
      let ok ← malloc
      if ok = true then
        pure (some (inodeNo, r.parentDir))
      else do
        dirClose t r.parentDir
        pure none

/-- `sys_unlink` takes the entry out and gives the inode back. -/
def removeFile (t : Nat) (inodeNo : Nat) (parentDir : Dir) : FsM Int := do
  let _ ← deleteDirEntry t parentDir inodeNo
  inodeRelease t inodeNo
  dirClose t parentDir
  pure 0

/-- The rest of `sys_unlink`. -/
def unlinkFinish (t : Nat) : Option (Nat × Dir) → FsM Int
  | none => pure (-1)
  | some (inodeNo, parentDir) => removeFile t inodeNo parentDir

theorem sysUnlink_eq (t : Nat) (p : Str) :
    sysUnlink t p = unlinkTarget t p >>= unlinkFinish t := by
  simp only [sysUnlink, unlinkTarget, unlinkFile, bind_assoc, ite_bind, pure_bind, unlinkFinish,
    removeFile]

section InUse

variable {s : Fs} {t n : Nat}

/-- The loop of `sys_unlink` over `file_table`. -/
theorem run_inodeInUse {m : Nat} (g₀ : Nat)
    (h : ∀ g a, g₀ ≤ g → g < g₀ + m → (s.fileTable g).fdInode = some a → s.Sees t a) :
    ∃ b, (inodeInUse t n m g₀).run s = .ok (b, s) ∧
      (b = true ↔ ∃ g a, g₀ ≤ g ∧ g < g₀ + m ∧ (s.fileTable g).fdInode = some a ∧
        (s.inode a).iNo = n) := by
  induction m generalizing g₀ with
  | zero =>
      refine ⟨false, rfl, fun hc => ?_, fun ⟨g, a, hle, hlt, _⟩ => ?_⟩
      · cases hc
      · omega
  | succ m ih =>
      rcases ih (g₀ + 1) (fun g a hle hlt => h g a (by omega) (by omega)) with
        ⟨b, hrun, hiff⟩
      -- What the first slot does not decide is up to the others.
      have hskip : (∀ a, (s.fileTable g₀).fdInode = some a → (s.inode a).iNo ≠ n) →
          (b = true ↔ ∃ g a, g₀ ≤ g ∧ g < g₀ + (m + 1) ∧ (s.fileTable g).fdInode = some a ∧
            (s.inode a).iNo = n) := by
        intro hfirst
        rw [hiff]
        constructor
        · rintro ⟨g, a, hle, hlt, hslot, hno⟩
          exact ⟨g, a, by omega, by omega, hslot, hno⟩
        · rintro ⟨g, a, hle, hlt, hslot, hno⟩
          have hg : g ≠ g₀ := by
            rintro rfl
            exact hfirst a hslot hno
          exact ⟨g, a, by omega, by omega, hslot, hno⟩
      rw [inodeInUse, run_bind_of (run_read _ s)]
      cases hslot : (s.fileTable g₀).fdInode with
      | none =>
          refine ⟨b, hrun, hskip (fun a ha => ?_)⟩
          rw [hslot] at ha
          cases ha
      | some a =>
          have hsees := h g₀ a (Nat.le_refl _) (by omega) hslot
          dsimp only
          rw [run_bind_of (run_inodeAt hsees)]
          by_cases hno : (s.inode a).iNo = n
          · rw [if_pos hno]
            exact ⟨true, rfl, fun _ => ⟨g₀, a, Nat.le_refl _, by omega, hslot, hno⟩, fun _ => rfl⟩
          · rw [if_neg hno]
            refine ⟨b, hrun, hskip (fun a' ha' => ?_)⟩
            rw [hslot, Option.some.injEq] at ha'
            rw [← ha']
            exact hno

end InUse

section Unlink

variable {s s₁ : Fs} {t room : Nat} {p : Str} {o : NameTree.Outcome Nat Str}

/-- Which files are open does not change while a directory is held. -/
theorem isOpen_held {d : Dir} {m n : Nat} (hM : Mounted t room s) (h : DirHeld s d m s₁) :
    IsOpen s₁ n ↔ IsOpen s n := by
  have hfiles : s₁.fileTable = s.fileTable := by rw [h.beside]
  constructor
  · rintro ⟨g, a, hg, hslot, hno⟩
    rw [hfiles] at hslot
    rw [(h.old hM (hM.files g a hg hslot)).2] at hno
    exact ⟨g, a, hg, hslot, hno⟩
  · rintro ⟨g, a, hg, hslot, hno⟩
    refine ⟨g, a, hg, hfiles ▸ hslot, ?_⟩
    rw [(h.old hM (hM.files g a hg hslot)).2]
    exact hno

theorem run_inodeInUse_held {d : Dir} {m : Nat} (n : Nat) (hM : Mounted t room s)
    (h : DirHeld s d m s₁) :
    ∃ b, (inodeInUse t n maxFileOpen 0).run s₁ = .ok (b, s₁) ∧ (b = true ↔ IsOpen s n) := by
  have hfiles : s₁.fileTable = s.fileTable := by rw [h.beside]
  have hsees : ∀ g a, 0 ≤ g → g < 0 + maxFileOpen → (s₁.fileTable g).fdInode = some a →
      s₁.Sees t a := by
    intro g a _ hlt hslot
    rw [hfiles] at hslot
    exact (h.old hM (hM.files g a (by omega) hslot)).1
  rcases run_inodeInUse (n := n) 0 hsees with ⟨b, hrun, hiff⟩
  refine ⟨b, hrun, ?_⟩
  rw [hiff, ← isOpen_held hM h]
  constructor
  · rintro ⟨g, a, -, hlt, hslot, hno⟩
    exact ⟨g, a, by omega, hslot, hno⟩
  · rintro ⟨g, a, hlt, hslot, hno⟩
    exact ⟨g, a, Nat.zero_le _, by omega, hslot, hno⟩

/-- A search with nothing inside the path that it could mistake for the end
    leaves nothing of the path. -/
theorem NoFileInside.rest {d n : Nat} {ks rest : List Str} (h : NoFileInside s ks)
    (ho : (diskTree s).Follows 0 ks (.file d n rest)) : rest = [] := by
  rcases NameTree.follows_file_iff.mp ho with ⟨pre, name, hks, hwalk, hfile⟩
  exact h pre name rest d n hks hwalk hfile

/-- How the first half of `sys_unlink` ends when the search stops in this
    way. -/
inductive UnlinkEnds (s : Fs) : NameTree.Outcome Nat Str → Option (Nat × Dir) → Prop
  | remove {d n : Nat} (dir : Dir) : ¬ IsOpen s n → UnlinkEnds s (.file d n []) (some (n, dir))
  | declined {o : NameTree.Outcome Nat Str} : (∀ d n, o = .file d n [] → IsOpen s n) →
      UnlinkEnds s o none

/-- Where the first half of `sys_unlink` leads. -/
theorem run_unlinkTarget (hM : Mounted t room s) (hm : Memory s) (T : DirTree s) (hp : PathFits p)
    (hne : p = [slash] ∨ components p ≠ []) (hin : NoFileInside s (components p))
    (ho : (diskTree s).Follows 0 (components p) o) (hroot : o ≠ .dir 0) :
    ∃ e s', (unlinkTarget t p).run s = .ok (e, s') ∧ Beside s s' ∧ UnlinkEnds s o e := by
  rcases searchFile_follows hM hm T hp hne (Back.refl s) ho with ⟨n, r, s₁, hrun, hres⟩
  rw [unlinkTarget, run_bind_of (run_assert hp.length s), run_bind_of hrun]
  dsimp only
  cases o with
  | dir d =>
      rcases hres with ⟨rfl, hty, m, -, hheld⟩
      have hdir := T.isDir_of_walks (NameTree.follows_dir_iff.mp ho) (isDir_root s)
      have hzero : n ≠ 0 := by
        rintro rfl
        exact hroot rfl
      rcases run_dirClose_pure (none : Option (Nat × Dir)) hM hheld with ⟨s₂, hclose, hb⟩
      rw [run_bind_of (run_assert hzero s₁), if_neg (number_ne_minusOne (T.number hdir)),
        if_pos hty, hclose]
      refine ⟨_, _, rfl, hb.beside, .declined (fun _ _ h => ?_)⟩
      cases h
  | missing d name rest =>
      rcases hres with ⟨rfl, -, hheld, -⟩
      rcases run_dirClose_pure (none : Option (Nat × Dir)) hM hheld with ⟨s₂, hclose, hb⟩
      rw [run_bind_of (run_assert (by decide) s₁), if_pos rfl, hclose]
      refine ⟨_, _, rfl, hb.beside, .declined (fun _ _ h => ?_)⟩
      cases h
  | file d m rest =>
      rcases hres with ⟨rfl, hty, hheld, -⟩
      rcases NameTree.follows_file_iff.mp ho with ⟨_, _, -, -, hfile⟩
      rcases T.file_number hfile with ⟨hlt, hzero⟩
      rcases run_inodeInUse_held n hM hheld with ⟨b, huse, hiff⟩
      rw [run_bind_of (run_assert hzero s₁), if_neg (number_ne_minusOne hlt),
        if_neg (by rw [hty]; exact FileType.noConfusion), run_bind_of huse, hin.rest ho]
      -- An open file is not removed.
      by_cases hopen : b = true
      · rcases run_dirClose_pure (none : Option (Nat × Dir)) hM hheld with ⟨s₂, hclose, hb⟩
        rw [if_pos hopen, hclose]
        refine ⟨_, _, rfl, hb.beside, .declined (fun _ _ h => ?_)⟩
        injection h with _ hn _
        rw [← hn]
        exact hiff.mp hopen
      · have hmem := hheld.beside.memory hm
        rw [if_neg hopen, run_bind_of hmem.run_malloc, if_pos rfl]
        exact ⟨_, _, rfl, hheld.beside, .remove _ (fun h => hopen (hiff.mpr h))⟩

/-- Nobody removes the root. -/
theorem unlink_root (hM : Mounted t room s) (hm : Memory s) (T : DirTree s) (hp : PathFits p)
    (hne : p = [slash] ∨ components p ≠ []) (hw : (diskTree s).Walks 0 (components p) 0) :
    (sysUnlink t p).run s = .error (.assertion .sysUnlink) := by
  rcases searchFile_follows hM hm T hp hne (Back.refl s) (NameTree.follows_dir_iff.mpr hw) with
    ⟨n, r, s₁, hrun, hres⟩
  rcases hres with ⟨rfl, -⟩
  rw [sysUnlink, run_bind_of (run_assert hp.length s), run_bind_of hrun]
  exact run_bind_error.mpr (Or.inl (run_check_neg (not_not.mpr rfl) s₁))

end Unlink

/-- `sys_stat` returns 0 if and only if the path leads to an object, and then
    it reports the object. -/
def StatFollowsTree (t : Nat) (p : Str) (s : Fs) : Prop :=
  ∃ st s₁, (sysStat t p).run s = .ok (st, s₁) ∧
    (st.isSome = true ↔ ∃ n ty, WalksTo s (components p) n ty) ∧
    ∀ st', st = some st' → WalksTo s (components p) st'.stIno st'.stFiletype ∧
      st'.stSize = (diskInode s st'.stIno).iSize

/-- `sys_unlink` reaches the removal of inode `n`. -/
def Removes (t : Nat) (p : Str) (s : Fs) (n : Nat) : Prop :=
  ∃ d s₁, (unlinkTarget t p).run s = .ok (some (n, d), s₁) ∧
    (sysUnlink t p).run s = (removeFile t n d).run s₁

/-- `sys_unlink` removes the file the path leads to if it is not open, and
    else returns `-1` and leaves the disk and the bitmaps alone. -/
structure UnlinkFollowsTree (t : Nat) (p : Str) (s : Fs) : Prop where
  removes : ∀ n, Removes t p s n ↔
    (diskTree s).WalksToFile 0 (components p) n ∧ ¬ IsOpen s n
  keeps : (∀ n, (diskTree s).WalksToFile 0 (components p) n → IsOpen s n) →
    ∃ s₁, (sysUnlink t p).run s = .ok (-1, s₁) ∧ s₁.disk = s.disk ∧
      s₁.part.blockBitmap = s.part.blockBitmap ∧ s₁.part.inodeBitmap = s.part.inodeBitmap

section Calls

variable {s s₁ : Fs} {t room : Nat} {p : Str} {o : NameTree.Outcome Nat Str}

/-- `sys_stat` opens the object for its size, while the search still holds a
    directory. -/
theorem run_statObject {d : Dir} {m n : Nat} (ty : FileType) (hM : Mounted t (room + 1) s)
    (hm : Memory s) (T : DirTree s) (hdir : IsDir s m) (h : DirHeld s d m s₁) (hn : n < 4096) :
    ∃ s', (inodeOpen t n >>= fun a => inodeAt t a >>= fun i => inodeClose t a >>= fun _ =>
      dirClose t d >>= fun _ => pure (some (⟨n, i.iSize, ty⟩ : Stat))).run s₁ =
        .ok (some ⟨n, (diskInode s n).iSize, ty⟩, s') := by
  have hM₁ := h.mounted hM (T.record m hdir)
  rcases run_inodeOpen hM₁ (h.beside.memory hm) (Back.refl s₁) hn with ⟨a, s₂, hopen, hheld⟩
  rcases run_inodeClose hM₁ hheld with ⟨s₃, hclose, hb⟩
  rcases run_dirClose_pure (some (⟨n, (s₂.inode a).iSize, ty⟩ : Stat)) hM (h.back hM hb) with
    ⟨s₄, hend, -⟩
  rw [run_bind_of hopen, run_bind_of (run_inodeAt (hheld.sees hM₁)), run_bind_of hclose, hend,
    hheld.size hM₁, h.beside.diskInode]
  exact ⟨s₄, rfl⟩

theorem walksTo_of_dir {ks : List Str} {d : Nat} (ho : (diskTree s).Follows 0 ks (.dir d)) :
    WalksTo s ks d .directory :=
  Or.inl ⟨rfl, NameTree.follows_dir_iff.mp ho⟩

theorem walksTo_of_file {ks : List Str} {d n : Nat}
    (ho : (diskTree s).Follows 0 ks (.file d n [])) : WalksTo s ks n .regular :=
  Or.inr ⟨rfl, NameTree.walksToFile_iff.mpr ⟨d, ho⟩⟩

/-- An object that has been found is the one the path leads to. -/
theorem statFollowsTree_some {n size : Nat} {ty : FileType}
    (hrun : (sysStat t p).run s = .ok (some ⟨n, size, ty⟩, s₁))
    (hwalk : WalksTo s (components p) n ty) (hsize : size = (diskInode s n).iSize) :
    StatFollowsTree t p s := by
  refine ⟨_, _, hrun, ⟨fun _ => ⟨n, ty, hwalk⟩, fun _ => rfl⟩, fun st hst => ?_⟩
  rw [Option.some.injEq] at hst
  rw [← hst]
  exact ⟨hwalk, hsize⟩

theorem stat_follows_tree (hM : Mounted t (room + 1) s) (hm : Memory s) (T : DirTree s)
    (hp : PathFits p) (hne : p = [slash] ∨ components p ≠ [])
    (hin : NoFileInside s (components p)) : StatFollowsTree t p s := by
  by_cases hdots : p = [slash] ∨ p = slash :: dotName ∨ p = slash :: dotdotName
  · have hsees := (hM.seen _ hM.root.1).1
    have hrun : (sysStat t p).run s = .ok (some ⟨0, (diskInode s 0).iSize, .directory⟩, s) := by
      rw [sysStat, if_pos hdots, rootDir, run_bind_of (run_read _ s),
        run_bind_of (run_inodeAt hsees), run_pure, hM.size _ hM.root.1, hM.root.2]
    exact statFollowsTree_some hrun (walksTo_of_dir (follows_root_of_dots T hdots)) rfl
  · rcases (diskTree s).exists_follows 0 (components p) with ⟨o, ho⟩
    rcases searchFile_follows hM hm T hp hne (Back.refl s) ho with ⟨n, r, s₁, hrun, hres⟩
    -- Behind the search there is one branch on the number it returns.
    have hstat : (sysStat t p).run s = (if n ≠ minusOne then
        inodeOpen t n >>= fun a => inodeAt t a >>= fun i => inodeClose t a >>= fun _ =>
          dirClose t r.parentDir >>= fun _ => pure (some (⟨n, i.iSize, r.fileType⟩ : Stat))
        else dirClose t r.parentDir >>= fun _ => pure none).run s₁ := by
      rw [sysStat, if_neg hdots, run_bind_of hrun]
    cases o with
    | dir d =>
        rcases hres with ⟨rfl, hty, m, hdir, hheld⟩
        have hnum := T.number (T.isDir_of_walks (NameTree.follows_dir_iff.mp ho) (isDir_root s))
        rcases run_statObject r.fileType hM hm T hdir hheld hnum with ⟨s₂, hobj⟩
        rw [if_pos (number_ne_minusOne hnum), hobj, hty] at hstat
        exact statFollowsTree_some hstat (walksTo_of_dir ho) rfl
    | file d m rest =>
        rcases hres with ⟨rfl, hty, hheld, -⟩
        rcases NameTree.follows_file_iff.mp ho with ⟨_, _, -, hwalk, hfile⟩
        have hnum := (T.file_number hfile).1
        have hdir := T.isDir_of_walks hwalk (isDir_root s)
        rcases run_statObject r.fileType hM hm T hdir hheld hnum with ⟨s₂, hobj⟩
        rw [if_pos (number_ne_minusOne hnum), hobj, hty] at hstat
        rw [hin.rest ho] at ho
        exact statFollowsTree_some hstat (walksTo_of_file ho) rfl
    | missing d name rest =>
        rcases hres with ⟨rfl, -, hheld, -⟩
        rcases run_dirClose_pure (none : Option Stat) hM hheld with ⟨s₂, hclose, -⟩
        rw [if_neg (not_not.mpr rfl), hclose] at hstat
        refine ⟨none, s₂, hstat, ⟨fun h => ?_, fun h => ?_⟩, fun _ h => ?_⟩
        · cases h
        · rcases h with ⟨n, ty, ⟨-, hwalk⟩ | ⟨-, hwalk⟩⟩
          · cases ho.unique T.deterministic (NameTree.follows_dir_iff.mpr hwalk)
          · rcases NameTree.walksToFile_iff.mp hwalk with ⟨m, hfollow⟩
            cases ho.unique T.deterministic hfollow
        · cases h

theorem unlink_follows_tree (hM : Mounted t room s) (hm : Memory s) (T : DirTree s)
    (hp : PathFits p) (hne : p = [slash] ∨ components p ≠ [])
    (hin : NoFileInside s (components p)) (hroot : ¬ (diskTree s).Walks 0 (components p) 0) :
    UnlinkFollowsTree t p s := by
  rcases (diskTree s).exists_follows 0 (components p) with ⟨o, ho⟩
  -- The root is not followed to, so the path ends at an entry or nowhere.
  have hdir : o ≠ .dir 0 := by
    rintro rfl
    exact hroot (NameTree.follows_dir_iff.mp ho)
  rcases run_unlinkTarget hM hm T hp hne hin ho hdir with ⟨e, s₁, hrun, hbeside, hends⟩
  have hunlink : (sysUnlink t p).run s = (unlinkFinish t e).run s₁ := by
    rw [sysUnlink_eq, run_bind_of hrun]
  refine ⟨fun n => ⟨?_, ?_⟩, fun hopen => ?_⟩
  · rintro ⟨d, s₂, hrun₂, -⟩
    rw [hrun, Except.ok.injEq, Prod.mk.injEq] at hrun₂
    rw [hrun₂.1] at hends
    cases hends with
    | remove _ hclosed => exact ⟨NameTree.walksToFile_iff.mpr ⟨_, ho⟩, hclosed⟩
  · rintro ⟨hwalk, hclosed⟩
    rcases NameTree.walksToFile_iff.mp hwalk with ⟨m, hfollow⟩
    rw [ho.unique T.deterministic hfollow] at hends
    cases hends with
    | remove d _ => exact ⟨d, s₁, hrun, hunlink⟩
    | declined hopen => exact absurd (hopen m n rfl) hclosed
  · -- Nothing is removed: only the list of open inodes may have a new element.
    cases hends with
    | remove _ hclosed =>
        exact absurd (hopen _ (NameTree.walksToFile_iff.mpr ⟨_, ho⟩)) hclosed
    | declined _ =>
        have hpart : s₁.part = { s.part with openInodes := s₁.part.openInodes } := by
          rw [hbeside]
        refine ⟨s₁, hunlink, hbeside.disk, ?_, ?_⟩
        · rw [hpart]
        · rw [hpart]

/-- With memory left, and on a path without a file in the middle, `sys_stat`
    reports the object the path leads to, and `sys_unlink` removes it if it is
    a file that is not open. The root it does not take at all. -/
theorem stat_and_unlink_follow_tree (t : Nat) (s : Fs) (p : Str) (hM : Mounted t 1 s)
    (hm : Memory s) (T : DirTree s) (hp : PathFits p) (hne : p = [slash] ∨ components p ≠ [])
    (hin : NoFileInside s (components p)) :
    StatFollowsTree t p s ∧
      ((diskTree s).Walks 0 (components p) 0 →
        (sysUnlink t p).run s = .error (.assertion .sysUnlink)) ∧
      (¬ (diskTree s).Walks 0 (components p) 0 → UnlinkFollowsTree t p s) :=
  ⟨stat_follows_tree hM hm T hp hne hin, unlink_root hM hm T hp hne,
    unlink_follows_tree hM hm T hp hne hin⟩

/-- Nothing follows the only name of a path. -/
theorem noFileInside_singleton (s : Fs) (k : Str) : NoFileInside s [k] := by
  intro pre name post m n hks _ _
  cases pre with
  | nil =>
      injection hks with _ hpost
      exact hpost.symm
  | cons l pre =>
      injection hks with _ hnil
      exact absurd hnil.symm (List.append_ne_nil_of_right_ne_nil _ (List.cons_ne_nil _ _))

theorem stat_and_unlink_follow_tree_file :
    StatFollowsTree 0 pathF smallTree ∧ UnlinkFollowsTree 0 pathF smallTree := by
  have hroot : ¬ (diskTree smallTree).Walks 0 (components pathF) 0 := by
    intro hwalk
    rw [components_pathF] at hwalk
    have hstop := NameTree.Follows.file [] smallTree_file
    cases hstop.unique smallTree_wf.deterministic (NameTree.follows_dir_iff.mpr hwalk)
  have h := stat_and_unlink_follow_tree 0 smallTree pathF (smallTree_mounted 0) smallTree_memory
    smallTree_wf pathF_fits (Or.inr (by decide))
    (components_pathF ▸ noFileInside_singleton smallTree _)
  exact ⟨h.1, h.2.2 hroot⟩

/-- `"/f/x"`, where `f` is a file. -/
def pathFX : Str := [0x2f, 0x66, 0x2f, 0x78]

/-- The small tree with a number on the stack. -/
def dirtyStack : Fs := { smallTree with junk := fun _ => 2 }

theorem dirtyStack_disk : dirtyStack.disk = smallTree.disk := by rw [dirtyStack]

theorem dirtyStack_sb : dirtyStack.part.sb = smallTree.part.sb := by rw [dirtyStack]

/-- The number `sys_stat` reports. -/
def statNo (r : Except FsFault (Option Stat × Fs)) : Option Nat :=
  match r with
  | .ok (some st, _) => some st.stIno
  | _ => none

/-- What `sys_stat` reports is what the path leads to, or it does not follow
    the tree. -/
theorem not_statFollowsTree {n : Nat} (hno : statNo ((sysStat t p).run s) = some n)
    (h : ∀ ty, ¬ WalksTo s (components p) n ty) : ¬ StatFollowsTree t p s := by
  rintro ⟨st, s₁, hrun, -, hst⟩
  rw [hrun] at hno
  cases st with
  | none => cases hno
  | some st =>
      have hst' : st.stIno = n := Option.some.inj hno
      exact h st.stFiletype (hst' ▸ (hst st rfl).1)

/-- The root is not removed but asserted not to be; without memory a file that
    is there is not found; a file followed by another name is taken for the
    end of the path; and several slashes lead to what is on the stack. -/
theorem stat_beyond_file :
    ((diskTree smallTree).Walks 0 (components [slash]) 0 ∧
      (sysUnlink 0 [slash]).run smallTree = .error (.assertion .sysUnlink)) ∧
    (Mounted 0 1 noMemory ∧ DirTree noMemory ∧ ¬ StatFollowsTree 0 pathF noMemory) ∧
    ¬ StatFollowsTree 0 pathFX smallTree ∧
    (Mounted 0 1 dirtyStack ∧ DirTree dirtyStack ∧
      ¬ StatFollowsTree 0 [slash, slash] dirtyStack) := by
  refine ⟨⟨.nil 0, unlink_root (smallTree_mounted 0) smallTree_memory smallTree_wf
    ⟨rfl, by decide, by decide, by decide⟩ (Or.inl rfl) (.nil 0)⟩, ⟨?_, ?_, ?_⟩, ?_, ?_, ?_, ?_⟩
  · exact (smallTree_mounted 0).answers (fun _ => false) smallTree.junk
  · exact smallTree_wf.congr noMemory_disk noMemory_sb
  · rintro ⟨st, s₁, hrun, hiff, -⟩
    have hno : statNo ((sysStat 0 pathF).run noMemory) = none := by decide
    have hwalk : WalksTo noMemory (components pathF) 2 .regular := by
      refine Or.inr ⟨rfl, ?_⟩
      rw [diskTree_congr noMemory_disk noMemory_sb]
      exact smallTree_pathF
    have hsome := hiff.mpr ⟨2, .regular, hwalk⟩
    rw [hrun] at hno
    cases st with
    | none => cases hsome
    | some st => cases hno
  · refine not_statFollowsTree (n := 2) (by decide) (fun ty hwalk => ?_)
    -- The search has stopped at `f`, before the end of the path.
    have hcomp : components pathFX = [[0x66], [0x78]] := by decide
    have hstop := NameTree.Follows.file [[0x78]] smallTree_file
    rw [hcomp] at hwalk
    rcases hwalk with ⟨-, hwalk⟩ | ⟨-, hwalk⟩
    · cases hstop.unique smallTree_wf.deterministic (NameTree.follows_dir_iff.mpr hwalk)
    · rcases NameTree.walksToFile_iff.mp hwalk with ⟨m, hfollow⟩
      cases hstop.unique smallTree_wf.deterministic hfollow
  · exact (smallTree_mounted 0).answers smallTree.mallocs (fun _ => 2)
  · exact smallTree_wf.congr dirtyStack_disk dirtyStack_sb
  · refine not_statFollowsTree (n := 2) (by decide) (fun ty hwalk => ?_)
    have hcomp : components [slash, slash] = [] := by decide
    rw [hcomp] at hwalk
    rcases hwalk with ⟨-, hwalk⟩ | ⟨-, pre, name, m, hks, -⟩
    · cases hwalk
    · exact absurd hks (List.append_ne_nil_of_right_ne_nil _ (List.cons_ne_nil _ _)).symm

end Calls

end ForikOS
