import ForikOS.Theory.Writers

/-!
# Inode Numbers in Use

A number whose bit is clear in the bitmap of inodes is given to the next file.
So the bit of every inode that is open, and of every working directory, should
be set.

What a call does to the bitmap is small: a call that makes a file or a
directory sets or restores one bit that was clear, `sys_unlink` and `sys_rmdir`
clear the bit of what they remove, and every other call leaves the bitmap
alone (`BitsBut`). Of the calls that clear a bit, `sys_unlink` looks whether a
slot of `file_table` holds the inode, and `sys_rmdir` does not look at all:
handles and working directories are never looked at. And a name that has been
left behind leads to a number that is free.

The condition names what goes wrong. A path is followed only to an inode whose
bit is set and whose record carries its own number, and what is removed is not
in use in a way that the code does not look at.

## Main definitions

* `taken`: The bit of a number is set.
* `NumbersTaken`: The number of everything in use is taken.
* `Live`, `Unused`: The condition on a number.
* `Careful`: The condition on a call.
* `BitsBut`: All bits but one are the same.

## Theorems

* `sysOpen_bits`, `sysMkdir_bits`, `sysUnlink_bits`, `sysRmdir_bits`: What the
  calls do to the bitmap.
* `numbers_in_use`: Every number in use is taken in every run whose calls meet
  the condition.
* `rmdir_releases_cwd`: A run in which one is not.
-/

namespace ForikOS

open Prog

/-- The bit of a number is set in the bitmap of inodes. -/
def taken (s : Fs) (n : Nat) : Bool := bitmapScanTest s.part.inodeBitmap n

/-- The numbers of the open inodes and of the working directories are taken. -/
def NumbersTaken (s : Fs) : Prop :=
  (∀ a, a ∈ s.part.openInodes → taken s (s.inode a).iNo = true) ∧
    ∀ t, taken s (s.cwdInodeNr t) = true

/-- A number that is taken, and whose inode carries it: the one that is open,
    or else the record on the disk. -/
def Live (s : Fs) (n : Nat) : Prop :=
  taken s n = true ∧
    ((∃ a, a ∈ s.part.openInodes ∧ (s.inode a).iNo = n) ∨ (diskInode s n).iNo = n)

/-- No open inode has the number, and no task works in its directory. -/
def Unused (s : Fs) (n : Nat) : Prop :=
  (∀ a, a ∈ s.part.openInodes → (s.inode a).iNo ≠ n) ∧ ∀ t, s.cwdInodeNr t ≠ n

/-- A slot of `file_table` holds the inode with a number. -/
def InFileTable (s : Fs) (n : Nat) : Prop :=
  ∃ g a, g < maxFileOpen ∧ (s.fileTable g).fdInode = some a ∧ (s.inode a).iNo = n

/-- The condition on a call. -/
def Careful (w : FsWorld) : FsCall → Prop
  -- A file that is opened is live, and so is a directory that is left open.
  | .open t p flags => ∀ n r s₁, (openPath t p).run w.fs = .ok ((n, r, true), s₁) →
      r.fileType ≠ .directory → n ≠ minusOne → flags &&& oCreat = 0 →
      Live w.fs n ∧ (r.parentDir.isRoot = false →
        taken w.fs (s₁.inode r.parentDir.inode).iNo = true)
  | .opendir t p => ∀ n r s₁, (searchFile t p).run w.fs = .ok ((n, r), s₁) →
      r.fileType = .directory → n ≠ minusOne → Live w.fs n
  | .chdir t p => ∀ n r s₁, (searchFile t p).run w.fs = .ok ((n, r), s₁) →
      r.fileType = .directory → n ≠ minusOne → taken w.fs n = true
  -- A file that is removed is in use only where `sys_unlink` looks.
  | .unlink t p => ∀ n r s₁, (searchFile t p).run w.fs = .ok ((n, r), s₁) →
      r.fileType ≠ .directory → n ≠ minusOne → InFileTable w.fs n ∨ Unused w.fs n
  -- An empty directory that is removed is not in use.
  | .rmdir t p => ∀ n r s₁, (searchFile t p).run w.fs = .ok ((n, r), s₁) →
      r.fileType ≠ .regular → n ≠ minusOne → ∀ d s₂ s₃, (dirOpen t n).run s₁ = .ok (d, s₂) →
      (dirIsEmpty t d).run s₂ = .ok (true, s₃) →
      Unused w.fs n ∧ (diskInode w.fs n).iNo = n
  | _ => True

/-- The bitmap of inodes and the working directories are the same. -/
def SameBits (s s' : Fs) : Prop :=
  s'.part.inodeBitmap = s.part.inodeBitmap ∧ s'.cwdInodeNr = s.cwdInodeNr

/-- All bits but that of `n` are the same, and the working directories. -/
def BitsBut (n : Nat) (s s' : Fs) : Prop :=
  (∀ m, m ≠ n → taken s' m = taken s m) ∧ s'.cwdInodeNr = s.cwdInodeNr

instance : IsPreorder Fs SameBits where
  refl _ := ⟨rfl, rfl⟩
  trans _ _ _ h h' := ⟨h'.1.trans h.1, h'.2.trans h.2⟩

instance (n : Nat) : IsPreorder Fs (BitsBut n) where
  refl _ := ⟨fun _ _ => rfl, rfl⟩
  trans _ _ _ h h' := ⟨fun m hm => (h'.1 m hm).trans (h.1 m hm), h'.2.trans h.2⟩

section Bits

variable {s s' : Fs} {t n : Nat}

theorem SameBits.taken_eq (h : SameBits s s') (m : Nat) : taken s' m = taken s m := by
  rw [taken, taken, h.1]

theorem SameBits.but (h : SameBits s s') (n : Nat) : BitsBut n s s' :=
  ⟨fun m _ => h.taken_eq m, h.2⟩

theorem Looked.sameBits (h : Looked s s') : SameBits s s' :=
  ⟨by rw [h.part], h.cwd⟩

theorem Moved.sameBits (h : Moved s s') : SameBits s s' := ⟨h.inodeBitmap, h.cwd⟩

theorem opening_sameBits : Opening SameBits :=
  ⟨fun _ _ h => h.sameBits, fun _ _ _ => ⟨rfl, rfl⟩, fun _ _ _ _ => ⟨rfl, rfl⟩,
    fun _ _ _ _ => ⟨rfl, rfl⟩, fun _ _ => ⟨rfl, rfl⟩, fun _ _ => ⟨rfl, rfl⟩⟩

theorem storing_bitsBut (n : Nat) : Storing (BitsBut n) :=
  storing_moved.mono (fun _ _ h => h.sameBits.but n)

theorem opening_bitsBut (n : Nat) : Opening (BitsBut n) :=
  ⟨fun s s' h => (opening_sameBits.looked s s' h).but n,
    fun s g f => (opening_sameBits.file s g f).but n,
    fun s u k g => (opening_sameBits.fd s u k g).but n,
    fun s a i h => (opening_sameBits.inode s a i h).but n,
    fun s l => (opening_sameBits.openInodes s l).but n,
    fun s a => (opening_sameBits.free s a).but n⟩

theorem bitsBut_set (s : Fs) (n : Nat) (v : Bool) :
    BitsBut n s (s.setInodeBitmap (bitmapSet s.part.inodeBitmap n v)) := by
  refine ⟨fun m hm => ?_, rfl⟩
  show bitmapScanTest (bitmapSet s.part.inodeBitmap n v) m = _
  rw [bitmapScanTest_set, if_neg hm]
  rfl

theorem making_bitsBut (t n : Nat) : Making t n (BitsBut n) :=
  ⟨storing_bitsBut n, fun _ _ => ⟨fun _ _ => rfl, rfl⟩, fun s => bitsBut_set s n false⟩

/-- `inode_release` clears the bit of the number. -/
theorem bitsBut_inodeRelease (t n : Nat) : Within (BitsBut n) (inodeRelease t n) := by
  have hlook : ∀ {α : Type} {x : FsM α}, Within Looked x → Within (BitsBut n) x :=
    fun hx => opening_of_looked (opening_bitsBut n) hx
  have hquiet : ∀ {α : Type} {x : FsM α}, Within Quiet x → Within (BitsBut n) x :=
    fun hx => hlook (looked_of_quiet hx)
  exact within_bind (hlook (looked_inodeOpen t n)) (fun a => within_bind
    (hquiet (quiet_inodeAt t a)) (fun _ => within_check_bind (within_bind
      (storing_releaseStorage (storing_bitsBut n) t a _) (fun _ => within_bind
        (within_modify (fun s => bitsBut_set s n false)) (fun _ => within_bind
          (storing_bitmapSync (storing_bitsBut n).any _ _) (fun _ => within_bind
            (hquiet quiet_mallocUnchecked) (fun _ => within_bind
              (storing_inodeDelete (storing_bitsBut n) n) (fun _ =>
                hlook (looked_inodeClose t a)))))))))

/-- A call may set one bit that was clear, or restore it. -/
def MayTake (s s' : Fs) : Prop :=
  SameBits s s' ∨ ∃ n, taken s n = false ∧ BitsBut n s s'

theorem MayTake.before {s₁ : Fs} (h : MayTake s₁ s') (hs : SameBits s s₁) : MayTake s s' := by
  rcases h with h | ⟨n, hn, h⟩
  · exact Or.inl (IsTrans.trans _ _ _ hs h)
  · exact Or.inr ⟨n, by rw [← hs.taken_eq]; exact hn, IsTrans.trans _ _ _ (hs.but n) h⟩

theorem MayTake.then {s₁ : Fs} (h : MayTake s s₁) (hs : SameBits s₁ s') : MayTake s s' := by
  rcases h with h | ⟨n, hn, h⟩
  · exact Or.inl (IsTrans.trans _ _ _ h hs)
  · exact Or.inr ⟨n, hn, IsTrans.trans _ _ _ h (hs.but n)⟩

theorem sameBits_malloc : Within SameBits malloc :=
  opening_of_quiet opening_sameBits quiet_malloc

theorem fileCreate_bits {d : Dir} {name : Str} {flag : Nat} {r : Int}
    (h : (fileCreate t d name flag).run s = .ok (r, s')) : MayTake s s' := by
  rcases run_bind_ok.mp h with ⟨ok, s₁, h₁, k₁⟩
  have hs₁ := sameBits_malloc _ _ _ h₁
  by_cases hok : ok = true
  · rw [if_pos hok] at k₁
    rcases run_bind_ok.mp k₁ with ⟨n, s₂, h₂, k₂⟩
    rcases inodeBitmapAlloc_run h₂ with ⟨n, rfl, hclear, hs₂⟩
    refine MayTake.before (Or.inr ⟨n, hclear, IsTrans.trans _ _ _ ?_
      (opening_fileCreateInode (opening_bitsBut n) (making_bitsBut t n) d name flag _ _ _ k₂)⟩) hs₁
    rw [hs₂]
    exact bitsBut_set s₁ n true
  · rw [if_neg hok] at k₁
    rcases pure_ok k₁ with ⟨-, rfl⟩
    exact Or.inl hs₁

theorem sysOpen_bits {p : Str} {flags : Nat} {r : Int}
    (h : (sysOpen t p flags).run s = .ok (r, s')) : MayTake s s' := by
  rcases sysOpen_cases h with ⟨-, hlook, -⟩ | ⟨n, rec, s₁, hpath, -, -, -, hopen⟩ |
    ⟨rec, s₁, s₂, u, hpath, -, -, hcreate, hclose⟩
  · exact Or.inl hlook.sameBits
  · exact Or.inl (IsTrans.trans _ _ _ (looked_openPath _ _ _ _ _ hpath).sameBits
      (opening_fileOpen opening_sameBits _ _ _ _ _ _ hopen))
  · exact ((fileCreate_bits hcreate).before (looked_openPath _ _ _ _ _ hpath).sameBits).then
      (looked_dirClose _ _ _ _ _ hclose).sameBits

theorem bitsBut_close {α : Type} (t n : Nat) (d : Dir) (a : α) :
    Within (BitsBut n) (do dirClose t d; pure a) :=
  opening_of_looked (opening_bitsBut n) (looked_close t d a)

theorem bitsBut_mkdirEntry (t n lba : Nat) (d : Dir) (name : Str) :
    Within (BitsBut n) (mkdirEntry t d name n lba) := by
  have hS := storing_bitsBut n
  have hquiet : ∀ {α : Type} {x : FsM α}, Within Quiet x → Within (BitsBut n) x :=
    fun hx => storing_of_quiet hS.any hx
  refine within_bind (hquiet (quiet_blockBitmapIdx _)) (fun _ => within_check_bind (within_bind
    (storing_bitmapSync hS.any _ _) (fun _ => within_bind (hquiet (quiet_inodeAt t _)) (fun _ =>
      within_bind (storing_ideWrite hS.any _ _ _) (fun _ => within_bind (hquiet quiet_sbDirEntrySize)
        (fun _ => within_bind (hquiet (quiet_createDirEntry _ _ _)) (fun _ => within_bind
          (storing_syncDirEntry hS t d _) (fun _ => within_ite ?_ ?_))))))))
  · exact within_bind (hquiet (quiet_inodeAt t _)) (fun _ => within_bind (storing_inodeSync hS.any _ _)
      (fun _ => within_bind (storing_inodeSync hS.any _ _) (fun _ => within_bind
        (storing_bitmapSync hS.any _ _) (fun _ => bitsBut_close t n d _))))
  · exact within_bind (within_modify (fun s => bitsBut_set s n false)) (fun _ =>
      bitsBut_close t n d _)

theorem mkdirSearched_bits {rec : PathSearchRecord} {r : Int}
    (h : (mkdirSearched t rec).run s = .ok (r, s')) : MayTake s s' := by
  rcases run_bind_ok.mp h with ⟨n, s₁, h₁, k₁⟩
  rcases inodeBitmapAlloc_run h₁ with ⟨n, rfl, hclear, hs₁⟩
  refine Or.inr ⟨n, hclear, IsTrans.trans _ _ _ (show BitsBut n s s₁ from ?_) ?_⟩
  · rw [hs₁]
    exact bitsBut_set s n true
  · refine within_bind (R := BitsBut n) (storing_blockBitmapAlloc (storing_bitsBut n).any)
      (fun lba => ?_) _ _ _ k₁
    cases lba with
    | none =>
        exact within_bind (within_modify (fun s => bitsBut_set s n false)) (fun _ =>
          bitsBut_close t n _ _)
    | some lba => exact bitsBut_mkdirEntry t n lba _ _

theorem sysMkdir_bits {p : Str} {r : Int} (h : (sysMkdir t p).run s = .ok (r, s')) :
    MayTake s s' := by
  rcases run_bind_ok.mp h with ⟨ok, s₁, h₁, k₁⟩
  have hs₁ := sameBits_malloc _ _ _ h₁
  by_cases hok : ok = true
  · rw [if_pos hok] at k₁
    rcases run_bind_ok.mp k₁ with ⟨⟨n, rec⟩, s₂, h₂, k₂⟩
    have hs₂ := IsTrans.trans _ _ _ hs₁ (looked_searchFile _ _ _ _ _ h₂).sameBits
    dsimp only at k₂
    by_cases hn : n ≠ minusOne
    · rw [if_pos hn] at k₂
      exact Or.inl (IsTrans.trans _ _ _ hs₂ (looked_close _ _ _ _ _ _ k₂).sameBits)
    · rw [if_neg hn] at k₂
      rcases run_bind_ok.mp k₂ with ⟨depth, s₃, h₃, k₃⟩
      rcases run_bind_ok.mp k₃ with ⟨depth', s₄, h₄, k₄⟩
      have hs₄ := IsTrans.trans _ _ _ (IsTrans.trans _ _ _ hs₂
        (quiet_pathDepthCnt _ _ _ _ h₃).looked.sameBits) (quiet_pathDepthCnt _ _ _ _ h₄).looked.sameBits
      by_cases hd : depth ≠ depth'
      · rw [if_pos hd] at k₄
        exact Or.inl (IsTrans.trans _ _ _ hs₄ (looked_close _ _ _ _ _ _ k₄).sameBits)
      · rw [if_neg hd] at k₄
        exact (mkdirSearched_bits k₄).before hs₄
  · rw [if_neg hok] at k₁
    rcases pure_ok k₁ with ⟨-, rfl⟩
    exact Or.inl hs₁

/-- A search of `file_table` that finds nothing. -/
theorem inodeInUse_run {m k : Nat} (h : (inodeInUse t n m k).run s = .ok (false, s')) (g a : Nat)
    (hk : k ≤ g) (hg : g < k + m) (ha : (s.fileTable g).fdInode = some a) : (s.inode a).iNo ≠ n := by
  induction m generalizing k with
  | zero => omega
  | succ m ih =>
      rcases run_bind_ok.mp h with ⟨p, s₁, h₁, k₁⟩
      rcases read_ok h₁ with ⟨rfl, rfl⟩
      -- The search comes past slot `g`, and would have stopped there.
      by_cases hkg : k = g
      · rw [hkg, ha] at k₁
        rcases run_bind_ok.mp k₁ with ⟨i, s₂, h₂, k₂⟩
        rcases inodeAt_run h₂ with ⟨-, rfl, rfl⟩
        intro hc
        rw [if_pos hc] at k₂
        cases (pure_ok k₂).1
      · cases hp : (s₁.fileTable k).fdInode with
        | none =>
            rw [hp] at k₁
            exact ih k₁ (by omega) (by omega)
        | some b =>
            rw [hp] at k₁
            rcases run_bind_ok.mp k₁ with ⟨i, s₂, h₂, k₂⟩
            rcases inodeAt_run h₂ with ⟨-, rfl, rfl⟩
            by_cases hb : (s₂.inode b).iNo = n
            · rw [if_pos hb] at k₂
              cases (pure_ok k₂).1
            · rw [if_neg hb] at k₂
              exact ih k₂ (by omega) (by omega)

/-- `sys_unlink` clears no bit but that of the file, which no slot holds. -/
theorem sysUnlink_bits {p : Str} {r : Int} (h : (sysUnlink t p).run s = .ok (r, s')) :
    SameBits s s' ∨ ∃ n rec s₁, (searchFile t p).run s = .ok ((n, rec), s₁) ∧
      rec.fileType ≠ .directory ∧ n ≠ minusOne ∧ BitsBut n s s' ∧
      ∀ g a, g < maxFileOpen → (s.fileTable g).fdInode = some a → (s₁.inode a).iNo ≠ n := by
  rcases run_bind_ok.mp h with ⟨_, s₀, h₀, k₀⟩
  rcases assert_run h₀ with ⟨-, rfl⟩
  rcases run_bind_ok.mp k₀ with ⟨⟨n, rec⟩, s₁, h₁, k₁⟩
  have hlook := looked_searchFile _ _ _ _ _ h₁
  have hs₁ := hlook.sameBits
  rcases run_bind_ok.mp k₁ with ⟨_, s₂, h₂, k₂⟩
  rcases assert_run h₂ with ⟨-, rfl⟩
  -- Every refusal comes before a bit is touched.
  by_cases hn : n = minusOne
  · rw [if_pos hn] at k₂
    exact Or.inl (IsTrans.trans _ _ _ hs₁ (looked_close _ _ _ _ _ _ k₂).sameBits)
  rw [if_neg hn] at k₂
  by_cases hdir : rec.fileType = .directory
  · rw [if_pos hdir] at k₂
    exact Or.inl (IsTrans.trans _ _ _ hs₁ (looked_close _ _ _ _ _ _ k₂).sameBits)
  rw [if_neg hdir] at k₂
  rcases run_bind_ok.mp k₂ with ⟨inUse, s₃, h₃, k₃⟩
  have hs₃ := IsTrans.trans _ _ _ hs₁ (quiet_inodeInUse _ _ _ _ _ _ _ h₃).looked.sameBits
  by_cases huse : inUse = true
  · rw [if_pos huse] at k₃
    exact Or.inl (IsTrans.trans _ _ _ hs₃ (looked_close _ _ _ _ _ _ k₃).sameBits)
  rw [if_neg huse] at k₃
  rcases run_bind_ok.mp k₃ with ⟨ok, s₄, h₄, k₄⟩
  have hs₄ := IsTrans.trans _ _ _ hs₃ (sameBits_malloc _ _ _ h₄)
  by_cases hok : ok = true
  · rw [if_pos hok] at k₄
    refine Or.inr ⟨n, rec, s₂, h₁, hdir, hn, IsTrans.trans _ _ _ (hs₄.but n) ?_,
      fun g a hg ha => ?_⟩
    · exact within_bind (R := BitsBut n) (storing_deleteDirEntry (storing_bitsBut n) t _ n)
        (fun _ => within_bind (bitsBut_inodeRelease t n) (fun _ => bitsBut_close t n _ _)) _ _ _ k₄
    · rw [Bool.not_eq_true] at huse
      rw [huse] at h₃
      rw [← hlook.fileTable] at ha
      exact inodeInUse_run h₃ g a (Nat.zero_le _) (by omega) ha
  · rw [if_neg hok] at k₄
    exact Or.inl (IsTrans.trans _ _ _ hs₄ (looked_close _ _ _ _ _ _ k₄).sameBits)

/-- `sys_rmdir` clears no bit but that of the directory. -/
theorem sysRmdir_bits {p : Str} {r : Int} (h : (sysRmdir t p).run s = .ok (r, s')) :
    SameBits s s' ∨ ∃ n rec s₁ d s₂ s₃, (searchFile t p).run s = .ok ((n, rec), s₁) ∧
      rec.fileType ≠ .regular ∧ n ≠ minusOne ∧ (dirOpen t n).run s₁ = .ok (d, s₂) ∧
      (dirIsEmpty t d).run s₂ = .ok (true, s₃) ∧ BitsBut (s₂.inode d.inode).iNo s s' := by
  rcases run_bind_ok.mp h with ⟨⟨n, rec⟩, s₁, h₁, k₁⟩
  have hs₁ := (looked_searchFile _ _ _ _ _ h₁).sameBits
  rcases run_bind_ok.mp k₁ with ⟨_, s₁', h₁', k₁'⟩
  rcases assert_run h₁' with ⟨-, rfl⟩
  by_cases hn : n = minusOne ∨ rec.fileType = .regular
  · rw [if_pos hn] at k₁'
    exact Or.inl (IsTrans.trans _ _ _ hs₁ (looked_close _ _ _ _ _ _ k₁').sameBits)
  rw [if_neg hn] at k₁'
  rcases run_bind_ok.mp k₁' with ⟨ret, s₉, h₉, k₉⟩
  have hclose := (looked_close _ _ _ _ _ _ k₉).sameBits
  rcases run_bind_ok.mp h₉ with ⟨d, s₂, h₂, k₂⟩
  have hs₂ := IsTrans.trans _ _ _ hs₁ (looked_dirOpen _ _ _ _ _ h₂).sameBits
  rcases run_bind_ok.mp k₂ with ⟨empty, s₃, h₃, k₃⟩
  have hq₃ := quiet_dirIsEmpty _ _ _ _ _ h₃
  have hs₃ := IsTrans.trans _ _ _ hs₂ hq₃.looked.sameBits
  by_cases hempty : empty = true
  swap
  · rw [if_neg hempty] at k₃
    exact Or.inl (IsTrans.trans _ _ _ hs₃ (IsTrans.trans _ _ _
      (looked_close _ _ _ _ _ _ k₃).sameBits hclose))
  rw [if_pos hempty] at k₃
  rw [hempty] at h₃
  rcases run_bind_ok.mp k₃ with ⟨rem, s₄, h₄, k₄⟩
  have hclose := IsTrans.trans _ _ _ (looked_close _ _ _ _ _ _ k₄).sameBits hclose
  rcases run_bind_ok.mp h₄ with ⟨i, r₁, g₁, j₁⟩
  rcases inodeAt_run g₁ with ⟨-, rfl, rfl⟩
  rcases run_bind_ok.mp j₁ with ⟨_, r₂, g₂, j₂⟩
  rcases assert_run g₂ with ⟨-, rfl⟩
  rcases run_bind_ok.mp j₂ with ⟨ok, r₃, g₃, j₃⟩
  have hq₄ := quiet_malloc _ _ _ g₃
  have hs₄ := IsTrans.trans _ _ _ hs₃ hq₄.looked.sameBits
  by_cases hok : ok = true
  swap
  · rw [if_neg hok] at j₃
    rcases pure_ok j₃ with ⟨-, rfl⟩
    exact Or.inl (IsTrans.trans _ _ _ hs₄ hclose)
  rw [if_pos hok] at j₃
  rcases run_bind_ok.mp j₃ with ⟨i, r₄, g₄, j₄⟩
  rcases inodeAt_run g₄ with ⟨-, rfl, rfl⟩
  rcases run_bind_ok.mp j₄ with ⟨_, r₅, g₅, j₅⟩
  have hm := storing_deleteDirEntry storing_moved _ _ _ _ _ _ g₅
  rcases run_bind_ok.mp j₅ with ⟨i, r₆, g₆, j₆⟩
  rcases inodeAt_run g₆ with ⟨-, rfl, rfl⟩
  rcases run_bind_ok.mp j₆ with ⟨_, r₇, g₇, j₇⟩
  rcases pure_ok j₇ with ⟨-, rfl⟩
  -- The number is read again from the same object, and nothing has changed it.
  have hno : (r₆.inode d.inode).iNo = (s₂.inode d.inode).iNo := by
    have h1 := (moved_of_quiet quiet_malloc _ _ _ g₃).iNo d.inode
    have h2 := (moved_of_quiet (quiet_dirIsEmpty t d) _ _ _ h₃).iNo d.inode
    rw [hm.iNo d.inode, h1, h2]
  refine Or.inr ⟨n, rec, s₁', d, s₂, r₂, h₁, fun hc => hn (Or.inr hc), fun hc => hn (Or.inl hc), h₂,
    h₃, ?_⟩
  rw [← hno]
  exact IsTrans.trans _ _ _ (hs₄.but _) (IsTrans.trans _ _ _ (hm.sameBits.but _)
    (IsTrans.trans _ _ _ (bitsBut_inodeRelease t _ _ _ _ g₇) (hclose.but _)))

/-- `sys_chdir` changes no bit, and one working directory at most. -/
theorem sysChdir_bits {p : Str} {r : Int} (h : (sysChdir t p).run s = .ok (r, s')) :
    SameBits s s' ∨ ∃ n rec s₁, (searchFile t p).run s = .ok ((n, rec), s₁) ∧
      rec.fileType = .directory ∧ n ≠ minusOne ∧ (∀ m, taken s' m = taken s m) ∧
      s'.cwdInodeNr = Function.update s.cwdInodeNr t n := by
  rcases run_bind_ok.mp h with ⟨⟨n, rec⟩, s₁, h₁, k₁⟩
  have hs₁ := (looked_searchFile _ _ _ _ _ h₁).sameBits
  dsimp only at k₁
  by_cases hn : n ≠ minusOne ∧ rec.fileType = .directory
  · rw [if_pos hn] at k₁
    rcases run_bind_ok.mp k₁ with ⟨_, s₂, h₂, k₂⟩
    have hclose := (looked_close _ _ _ _ _ _ k₂).sameBits
    refine Or.inr ⟨n, rec, s₁, h₁, hn.2, hn.1, fun m => ?_, ?_⟩
    · rw [hclose.taken_eq, modify_ok h₂]
      exact hs₁.taken_eq m
    · rw [hclose.2, modify_ok h₂, ← hs₁.2]
  · rw [if_neg hn] at k₁
    exact Or.inl (IsTrans.trans _ _ _ hs₁ (looked_close _ _ _ _ _ _ k₁).sameBits)

end Bits

section Reached

variable {c c₁ : Nat → Nat} {s s₁ s' : Fs} {t n a : Nat}

/-- An inode that has been reached through a live number carries it. -/
theorem Reached.number (h : Reached n a s₁ s') (hlook : Looked s s₁) (hl : Ledger c s)
    (hl₁ : Ledger c₁ s₁) (hc : ∀ b, c b ≤ c₁ b) (hk : Kept s₁ s')
    (hlive : (∃ b, b ∈ s.part.openInodes ∧ (s.inode b).iNo = n) ∨ (diskInode s n).iNo = n) :
    (s'.inode a).iNo = n := by
  rcases h with ⟨ha, hno⟩ | ⟨-, -, hnone, hno⟩
  · rw [hk.iNo a (hl₁.there a ha).2]
    exact hno
  · rcases hlive with ⟨b, hb, hbn⟩ | hdisk
    · have hb₁ := (hl₁.listed b).mpr (Nat.lt_of_lt_of_le ((hl.listed b).mp hb) (hc b))
      refine absurd ?_ (hnone b hb₁)
      rw [(hlook.old b (hl.there b hb).2).iNo]
      exact hbn
    · rw [hno, hlook.diskInode_eq]
      exact hdisk

theorem dirOpen_reached {d : Dir} (h : (dirOpen t n).run s = .ok (d, s')) :
    Reached n d.inode s s' := by
  rcases run_bind_ok.mp h with ⟨_, s₁, h₁, k₁⟩
  have hq := quiet_mallocUnchecked _ _ _ h₁
  rcases run_bind_ok.mp k₁ with ⟨a, s₂, h₂, k₂⟩
  rcases pure_ok k₂ with ⟨rfl, rfl⟩
  have hr := inodeOpen_reached h₂
  unfold Reached at hr
  rw [hq.looked.diskInode_eq] at hr
  unfold Quiet at hq
  rw [hq] at hr
  exact hr

/-- The handle that `sys_opendir` returns. -/
theorem sysOpendir_reached {p : Str} {d : Dir}
    (h : (sysOpendir t p).run s = .ok (some d, s')) :
    d.isRoot = true ∨ ∃ rec s₁ n, (searchFile t p).run s = .ok ((n, rec), s₁) ∧
      rec.fileType = .directory ∧ n ≠ minusOne ∧ Reached n d.inode s₁ s' ∧ Kept s₁ s' := by
  rcases run_bind_ok.mp h with ⟨_, s₁, h₁, k₁⟩
  rcases assert_run h₁ with ⟨-, rfl⟩
  rcases run_bind_ok.mp k₁ with ⟨root, s₂, h₂, k₂⟩
  rcases read_ok h₂ with ⟨rfl, rfl⟩
  by_cases hp : p = [slash]
  · rw [if_pos hp] at k₂
    rcases pure_ok k₂ with ⟨hd, -⟩
    rw [Option.some.injEq] at hd
    rw [hd]
    exact Or.inl rfl
  rw [if_neg hp] at k₂
  rcases run_bind_ok.mp k₂ with ⟨⟨n, rec⟩, s₃, h₃, k₃⟩
  dsimp only at k₃
  by_cases hn : n ≠ minusOne ∧ rec.fileType = .directory
  · rw [if_pos hn] at k₃
    rcases run_bind_ok.mp k₃ with ⟨d', s₄, h₄, k₄⟩
    rcases run_bind_ok.mp k₄ with ⟨_, s₅, h₅, k₅⟩
    rcases pure_ok k₅ with ⟨hd, rfl⟩
    rw [Option.some.injEq] at hd
    rw [hd]
    -- The directory searched last is closed again, which keeps what has been opened.
    have hk := (looked_dirClose _ _ _ _ _ h₅).framed.kept
    exact Or.inr ⟨rec, s₃, n, h₃, hn.2, hn.1, (dirOpen_reached h₄).kept hk,
      IsTrans.trans _ _ _ (looked_dirOpen _ _ _ _ _ h₄).framed.kept hk⟩
  · rw [if_neg hn] at k₃
    rcases run_bind_ok.mp k₃ with ⟨_, s₄, h₄, k₄⟩
    cases (pure_ok k₄).1

end Reached

/-- What was in use is still taken. -/
def StillTaken (s s' : Fs) : Prop :=
  (∀ a, a ∈ s.part.openInodes → taken s' (s.inode a).iNo = true) ∧
    ∀ t, taken s' (s'.cwdInodeNr t) = true

/-- The holders are counted, slots and handles among them, and every number in
    use is taken. -/
structure NumbersInv (c : Nat → Nat) (w : FsWorld) : Prop where
  ledger : Ledger c w.fs
  refs : ∀ b, w.refs b ≤ c b
  numbers : NumbersTaken w.fs

section Numbers

variable {c c' : Nat → Nat} {w w' : FsWorld}

theorem MayTake.stillTaken {s s' : Fs} (h : MayTake s s') (hs : NumbersTaken s) :
    StillTaken s s' := by
  have htaken : (∀ m, taken s m = true → taken s' m = true) ∧ s'.cwdInodeNr = s.cwdInodeNr := by
    rcases h with h | ⟨n, hn, h⟩
    · exact ⟨fun m hm => (h.taken_eq m).trans hm, h.2⟩
    · refine ⟨fun m hm => (h.1 m fun hc => ?_).trans hm, h.2⟩
      rw [hc, hn] at hm
      cases hm
  refine ⟨fun a ha => htaken.1 _ (hs.1 a ha), fun t => ?_⟩
  rw [htaken.2]
  exact htaken.1 _ (hs.2 t)

theorem SameBits.stillTaken {s s' : Fs} (h : SameBits s s') (hs : NumbersTaken s) :
    StillTaken s s' :=
  MayTake.stillTaken (Or.inl h) hs

theorem BitsBut.stillTaken {s s' : Fs} {n : Nat} (h : BitsBut n s s') (hu : Unused s n)
    (hs : NumbersTaken s) : StillTaken s s' := by
  refine ⟨fun a ha => (h.1 _ (hu.1 a ha)).trans (hs.1 a ha), fun t => ?_⟩
  rw [h.2, h.1 _ (hu.2 t)]
  exact hs.2 t

/-- A step keeps the invariant if what was in use is still taken, and the
    number of what is open now and was not before is taken too. -/
theorem NumbersInv.next (h : NumbersInv c w) (hl : Ledger c' w'.fs) (hrefs : ∀ b, w'.refs b ≤ c' b)
    (hk : Kept w.fs w'.fs) (hstill : StillTaken w.fs w'.fs)
    (hnew : ∀ a, c a = 0 → 0 < c' a → taken w'.fs (w'.fs.inode a).iNo = true) :
    NumbersInv c' w' := by
  refine ⟨hl, hrefs, fun a ha => ?_, hstill.2⟩
  by_cases hold : a ∈ w.fs.part.openInodes
  · rw [hk.iNo a (h.ledger.there a hold).2]
    exact hstill.1 a hold
  · refine hnew a ?_ ((hl.listed a).mp ha)
    exact Nat.eq_zero_of_not_pos (fun hpos => hold ((h.ledger.listed a).mpr hpos))

/-- A call that opens and closes nothing. -/
theorem NumbersInv.call {α : Type} {x : FsM α} (h : NumbersInv c w) (hf : Within Framed x)
    (hx : Triple (Ledger c) x (fun _ => Ledger c)) (hs : w.call x = .ok w')
    (hstill : StillTaken w.fs w'.fs) : NumbersInv c w' := by
  rcases call_accounts hf hx h.ledger hs with ⟨hl, hsame⟩
  rcases call_ok hs with ⟨a, hrun, -⟩
  refine h.next hl (fun b => by rw [hsame b]; exact h.refs b) (hf _ _ _ hrun).kept hstill
    (fun b hb hpos => ?_)
  rw [hb] at hpos
  cases hpos

/-- A call after which nothing is held that was not held before. -/
theorem NumbersInv.fewer {e : FsCall} (h : NumbersInv c w) (hroom : ∀ b, c b + 3 < 2 ^ 32)
    (hs : fsStep w e = .ok w') (hno : leavesParent w e = false) (hk : Kept w.fs w'.fs)
    (hbits : SameBits w.fs w'.fs) (hle : ∀ b, w'.refs b ≤ w.refs b) : ∃ c', NumbersInv c' w' := by
  rcases fsStep_accounts h.ledger h.refs hroom hs with ⟨d, c', hl, heq, hroot⟩
  refine ⟨c', h.next hl (accounts_refs h.refs heq) hk (hbits.stillTaken h.numbers)
    (fun b hb hpos => ?_)⟩
  have h1 := heq b
  have h2 := hle b
  rw [holdDir, if_pos (hroot hno)] at h1
  omega

/-- A file that is removed was in use only where `sys_unlink` has looked. -/
theorem NumbersInv.unlink_still {t : Nat} {p : Str} {r : Int} {s' : Fs} (h : NumbersInv c w)
    (hcond : Careful w (.unlink t p)) (hr : (sysUnlink t p).run w.fs = .ok (r, s')) :
    StillTaken w.fs s' := by
  rcases sysUnlink_bits hr with hsame | ⟨n, rec, s₁, hpath, hdir, hn, hbits, hfree⟩
  · exact hsame.stillTaken h.numbers
  refine hbits.stillTaken ?_ h.numbers
  rcases hcond n rec s₁ hpath hdir hn with ⟨g, a, hg, ha, hno⟩ | hu
  · refine absurd ?_ (hfree g a hg ha)
    rw [((looked_searchFile _ _ _ _ _ hpath).old a (slot_lt h.ledger h.refs hg ha)).iNo]
    exact hno
  · exact hu

theorem NumbersInv.rmdir_still {t : Nat} {p : Str} {r : Int} {s' : Fs} (h : NumbersInv c w)
    (hroom : ∀ b, c b + 1 < 2 ^ 32) (hcond : Careful w (.rmdir t p))
    (hr : (sysRmdir t p).run w.fs = .ok (r, s')) : StillTaken w.fs s' := by
  rcases sysRmdir_bits hr with hsame | ⟨n, rec, s₁, d, s₂, s₃, hpath, htype, hn, hdir, hempty, hbits⟩
  · exact hsame.stillTaken h.numbers
  rcases hcond n rec s₁ hpath htype hn d s₂ s₃ hdir hempty with ⟨hu, hdisk⟩
  have hno : (s₂.inode d.inode).iNo = n :=
    (dirOpen_reached hdir).number (looked_searchFile _ _ _ _ _ hpath) h.ledger
      (searchFile_ledger h.ledger hroom hpath) (le_holdDir c _)
      (looked_dirOpen _ _ _ _ _ hdir).framed.kept (Or.inr hdisk)
  rw [hno] at hbits
  exact hbits.stillTaken hu h.numbers

theorem NumbersInv.chdir_still {t : Nat} {p : Str} {r : Int} {s' : Fs} (h : NumbersInv c w)
    (hcond : Careful w (.chdir t p)) (hr : (sysChdir t p).run w.fs = .ok (r, s')) :
    StillTaken w.fs s' := by
  rcases sysChdir_bits hr with hsame | ⟨n, rec, s₁, hpath, hdir, hn, hbits, hcwd⟩
  · exact hsame.stillTaken h.numbers
  refine ⟨fun a ha => (hbits _).trans (h.numbers.1 a ha), fun u => ?_⟩
  rw [hbits, hcwd]
  by_cases hu : u = t
  · rw [hu, Function.update_self]
    exact hcond n rec s₁ hpath hdir hn
  · rw [Function.update_of_ne hu]
    exact h.numbers.2 u

/-- The inode of a slot that has been filled. -/
theorem NumbersInv.open_slot {t flags g a : Nat} {p : Str} {r : Int} {s' : Fs}
    (h : NumbersInv c w) (hroom : ∀ b, c b + 1 < 2 ^ 32) (hcond : Careful w (.open t p flags))
    (hr : (sysOpen t p flags).run w.fs = .ok (r, s')) (hg : g < maxFileOpen)
    (ha : (s'.fileTable g).fdInode = some a) (hnew : c a = 0) :
    taken s' (s'.inode a).iNo = true := by
  -- The slot was not this way before.
  have hchanged : (w.fs.fileTable g).fdInode ≠ some a := fun hc => by
    have hpos := slotRefs_pos hg hc
    have hle := h.refs a
    rw [FsWorld.refs] at hle
    omega
  have hslot : ∀ {s₁ : Fs} {k : Nat} {f : File}, s₁.fileTable = Function.update w.fs.fileTable k f →
      (s₁.fileTable g).fdInode = some a → f.fdInode = some a := by
    intro s₁ k f hft hg'
    rw [hft] at hg'
    by_cases hgk : g = k
    · rwa [hgk, Function.update_self] at hg'
    · rw [Function.update_of_ne hgk] at hg'
      exact absurd hg' hchanged
  rcases sysOpen_cases hr with ⟨-, hlook, -⟩ | ⟨n, rec, s₁, hpath, hdir, hn, hflags, hopen⟩ |
    ⟨rec, s₁, s₂, u, hpath, -, -, hcreate, hclose⟩
  · rw [hlook.fileTable] at ha
    exact absurd ha hchanged
  · have hlook := looked_openPath _ _ _ _ _ hpath
    rcases fileOpen_table hopen with hsame | ⟨k, b, hft, hreach⟩
    · rw [hsame, hlook.fileTable] at ha
      exact absurd ha hchanged
    · rw [hlook.fileTable] at hft
      have hb := hslot hft ha
      rw [Option.some.injEq] at hb
      rw [hb] at hreach
      rcases (hcond n rec s₁ hpath hdir hn hflags).1 with ⟨htaken, hlive⟩
      rw [hreach.number hlook h.ledger (openPath_ledger h.ledger hroom hpath) (le_holdDir c _)
        (opening_fileOpen opening_kept _ _ _ _ _ _ hopen) hlive]
      rw [(opening_fileOpen opening_sameBits _ _ _ _ _ _ hopen).taken_eq, hlook.sameBits.taken_eq]
      exact htaken
  · have hlook := looked_openPath _ _ _ _ _ hpath
    have hlook' := looked_dirClose _ _ _ _ _ hclose
    rw [hlook'.fileTable] at ha
    rcases fileCreate_table hcreate with hsame | ⟨k, f, hft, hf⟩
    · rw [hsame, hlook.fileTable] at ha
      exact absurd ha hchanged
    · rw [hlook.fileTable] at hft
      rcases hf a (hslot hft ha) with ⟨-, hlt, hbit⟩
      rw [(hlook'.old a hlt).iNo, hlook'.sameBits.taken_eq]
      exact hbit

/-- The directory that `sys_open` leaves open. -/
theorem NumbersInv.open_left {t flags n : Nat} {p : Str} {r : Int} {s' : Fs}
    {rec : PathSearchRecord} (h : NumbersInv c w) (hroom : ∀ b, c b + 1 < 2 ^ 32)
    (hcond : Careful w (.open t p flags)) (hr : (sysOpen t p flags).run w.fs = .ok (r, s'))
    (hfinds : Finds t p w.fs n rec) (hflags : flags &&& oCreat = 0)
    (hroot : rec.parentDir.isRoot = false) (hnew : c rec.parentDir.inode = 0)
    (hlisted : rec.parentDir.inode ∈ s'.part.openInodes) :
    taken s' (s'.inode rec.parentDir.inode).iNo = true := by
  rcases hfinds with ⟨s₁, hpath, hdir, hn⟩
  have hlook := looked_openPath _ _ _ _ _ hpath
  have hl₁ := openPath_ledger h.ledger hroom hpath
  have hlt : rec.parentDir.inode < s₁.nextInode := by
    refine (hl₁.there _ ((hl₁.listed _).mpr ?_)).2
    rw [holdDir_eq, handleOn, if_pos ⟨hroot, rfl⟩]
    omega
  rcases sysOpen_cases hr with ⟨-, -, hled⟩ | ⟨m, rec', s₂, hpath', -, -, -, hopen⟩ |
    ⟨rec', s₂, s₃, u, hpath', -, -, -, -⟩
  · have hpos := ((hled c hroom h.ledger).listed _).mp hlisted
    rw [hnew] at hpos
    cases hpos
  · rw [hpath, Except.ok.injEq, Prod.mk.injEq] at hpath'
    rw [← hpath'.2] at hopen
    rw [(opening_fileOpen opening_kept _ _ _ _ _ _ hopen).iNo _ hlt,
      (opening_fileOpen opening_sameBits _ _ _ _ _ _ hopen).taken_eq, hlook.sameBits.taken_eq]
    exact (hcond n rec s₁ hpath hdir hn hflags).2 hroot
  · rw [hpath, Except.ok.injEq, Prod.mk.injEq, Prod.mk.injEq] at hpath'
    exact absurd hpath'.1.1 hn

theorem NumbersInv.open {t flags : Nat} {p : Str} (h : NumbersInv c w)
    (hroom : ∀ b, c b + 2 < 2 ^ 32) (hcond : Careful w (.open t p flags))
    (hs : fsStep w (.open t p flags) = .ok w') : ∃ c', NumbersInv c' w' := by
  have hroom₁ := room_le hroom (show 1 ≤ 2 by omega)
  rcases call_ok hs with ⟨r, hrun, hdirs⟩
  rcases sysOpen_opens h.ledger hroom hrun with ⟨d, e, ho, hleft⟩
  refine ⟨_, h.next ho.ledger (fun b => ?_) (kept_sysOpen t p flags _ _ _ hrun)
    ((sysOpen_bits hrun).stillTaken h.numbers) (fun a ha hpos => ?_)⟩
  · have h1 := ho.refs b
    have h2 := h.refs b
    have h3 := le_holdDir c d b
    rw [FsWorld.refs] at h2
    rw [FsWorld.refs, hdirs]
    omega
  · -- The object opened is held by a slot of the file table, or by the directory left open.
    by_cases hslot : 0 < e a
    · have hfull : 0 < slotRefs w'.fs a := by
        rw [ho.refs a]
        omega
      rcases slotRefs_exists hfull with ⟨g, hg, hga⟩
      exact h.open_slot hroom₁ hcond hrun hg hga ha
    · have hheld := hpos
      rw [holdDir_eq, ha] at hheld
      have hhandle : 0 < handleOn d a := by omega
      unfold handleOn at hhandle
      split at hhandle
      · rename_i hd
        rcases hleft with hroot | ⟨n, rec, hfinds, hflags, rfl⟩
        · rw [hd.1] at hroot
          cases hroot
        · have hlisted := (ho.ledger.listed a).mpr hpos
          rw [← hd.2] at ha hlisted ⊢
          exact h.open_left hroom₁ hcond hrun hfinds hflags hd.1 ha hlisted
      · cases hhandle

theorem NumbersInv.opendir {t : Nat} {p : Str} (h : NumbersInv c w)
    (hroom : ∀ b, c b + 2 < 2 ^ 32) (hcond : Careful w (.opendir t p))
    (hs : fsStep w (.opendir t p) = .ok w') : ∃ c', NumbersInv c' w' := by
  have hroom₁ := room_le hroom (show 1 ≤ 2 by omega)
  rcases opendir_ok hs with ⟨r, hrun, hdirs⟩
  have hl := sysOpendir_ledger hroom _ _ _ h.ledger hrun
  have hlook := looked_sysOpendir t p _ _ _ hrun
  -- The one new reference is that of the directory that has been opened.
  refine ⟨_, h.next hl (fun b => ?_) hlook.framed.kept (hlook.sameBits.stillTaken h.numbers)
    (fun a ha hpos => ?_)⟩
  · have hle := h.refs b
    rw [FsWorld.refs] at hle
    rw [FsWorld.refs, slotRefs_congr hlook.fileTable b, hdirs]
    cases r with
    | none => exact hle
    | some d =>
        rw [holdDir?, addHandle, dirRefs, holdDir_eq]
        dsimp only
        omega
  · cases r with
    | none =>
        rw [holdDir?, ha] at hpos
        cases hpos
    | some d =>
        rw [holdDir?, holdDir_eq, ha, handleOn] at hpos
        split at hpos
        · rename_i hd
          rcases sysOpendir_reached hrun with hroot | ⟨rec, s₁, n, hpath, hdir, hn, hreach, hk⟩
          · rw [hd.1] at hroot
            cases hroot
          · rcases hcond n rec s₁ hpath hdir hn with ⟨htaken, hlive⟩
            rw [hd.2] at hreach
            rw [hreach.number (looked_searchFile _ _ _ _ _ hpath) h.ledger
              (searchFile_ledger h.ledger hroom₁ hpath) (le_holdDir c _) hk hlive,
              hlook.sameBits.taken_eq]
            exact htaken
        · cases hpos

/-- A call that meets the condition keeps every number in use taken. -/
theorem NumbersInv.step {e : FsCall} (h : NumbersInv c w) (hroom : ∀ b, c b + 3 < 2 ^ 32)
    (hcond : Careful w e) (hs : fsStep w e = .ok w') : ∃ c', NumbersInv c' w' := by
  have hroom₂ := room_le hroom (show 2 ≤ 3 by omega)
  have hroom₁ := room_le hroom (show 1 ≤ 3 by omega)
  -- A call that only moves data.
  have hmoved : ∀ {α : Type} {x : FsM α}, Within Moved x → w.call x = .ok w' →
      ∃ c', NumbersInv c' w' := by
    intro α x hx hs
    rcases call_ok hs with ⟨a, hrun, -⟩
    exact ⟨c, h.call (framed_of_moved hx) (ledger_of_moved hx) hs
      ((hx _ _ _ hrun).sameBits.stillTaken h.numbers)⟩
  cases e with
  | «open» t p flags => exact h.open hroom₂ hcond hs
  | close t fd =>
      rcases call_ok hs with ⟨r, hrun, hdirs⟩
      refine h.fewer hroom hs rfl (opening_sysClose opening_kept _ _ _ _ _ hrun)
        (opening_sysClose opening_sameBits _ _ _ _ _ hrun) (fun b => ?_)
      rw [FsWorld.refs, FsWorld.refs, hdirs]
      rcases sysClose_run h.ledger (room_le hroom (Nat.zero_le 3)) (fun b =>
        Nat.le_trans (Nat.le_add_right _ _) (h.refs b)) hrun with ⟨-, hsame⟩ | ⟨-, g, a, hc⟩
      · rw [hsame]
      · have heq := hc.slotRefs_eq b
        omega
  | write t fd buf count => exact hmoved (moved_sysWrite t fd buf count) hs
  | read t fd buf count => exact hmoved (moved_sysRead t fd buf count) hs
  | lseek t fd offset whence => exact hmoved (moved_sysLseek t fd offset whence) hs
  | mkdir t p =>
      rcases call_ok hs with ⟨r, hrun, -⟩
      exact ⟨c, h.call (framed_sysMkdir t p) (sysMkdir_ledger hroom₁) hs
        ((sysMkdir_bits hrun).stillTaken h.numbers)⟩
  | unlink t p =>
      rcases call_ok hs with ⟨r, hrun, -⟩
      exact ⟨c, h.call (framed_sysUnlink t p) (sysUnlink_ledger hroom₂) hs
        (h.unlink_still hcond hrun)⟩
  | rmdir t p =>
      rcases call_ok hs with ⟨r, hrun, -⟩
      exact ⟨c, h.call (framed_sysRmdir t p) (sysRmdir_ledger hroom) hs
        (h.rmdir_still hroom₁ hcond hrun)⟩
  | stat t p =>
      rcases call_ok hs with ⟨r, hrun, -⟩
      exact ⟨c, h.call (framed_of_looked (looked_sysStat t p)) (sysStat_ledger hroom₂) hs
        ((looked_sysStat t p _ _ _ hrun).sameBits.stillTaken h.numbers)⟩
  | chdir t p =>
      rcases call_ok hs with ⟨r, hrun, -⟩
      exact ⟨c, h.call (framed_sysChdir t p) (sysChdir_ledger hroom₁) hs
        (h.chdir_still hcond hrun)⟩
  | getcwd t size =>
      rcases call_ok hs with ⟨r, hrun, -⟩
      exact ⟨c, h.call (framed_of_looked (looked_sysGetcwd t size)) (sysGetcwd_ledger hroom₁) hs
        ((looked_sysGetcwd t size _ _ _ hrun).sameBits.stillTaken h.numbers)⟩
  | opendir t p => exact h.opendir hroom₂ hcond hs
  | closedir k =>
      rcases closedir_ok hs with rfl | ⟨t, d, u, hk, hrun, hdirs⟩
      · exact ⟨c, h⟩
      · have hlook := looked_sysClosedir t d _ _ _ hrun
        refine h.fewer hroom hs rfl hlook.framed.kept hlook.sameBits (fun b => ?_)
        rw [FsWorld.refs, FsWorld.refs, slotRefs_congr hlook.fileTable b, hdirs,
          dirRefs_eraseIdx hk b]
        omega

end Numbers

/-- The disk that has been mounted: the root directory carries number 0, which
    is taken, and it is where every task starts. -/
def RootTaken (w : FsWorld) : Prop :=
  (w.fs.inode w.fs.rootDir).iNo = 0 ∧ taken w.fs 0 = true ∧ ∀ t, w.fs.cwdInodeNr t = 0

/-- Tasks that use a file system whose root directory is in order. -/
def mountedSystem : System FsWorld FsCall FsFault :=
  { fsCallSystem with init := fun w => fsInit w ∧ RootTaken w }

/-- The condition on a call: it meets `Careful`, and no count is about to wrap
    around. -/
def NumbersSafe (w : FsWorld) (e : FsCall) : Prop :=
  Careful w e ∧ ∀ a, a ∈ w.fs.part.openInodes → (w.fs.inode a).iOpenCnts + 8 < 2 ^ 32

theorem numbersInv_init {w : FsWorld} (h : fsInit w) (hroot : RootTaken w) :
    NumbersInv (balance w) w := by
  have hl := fsInit_ledger h
  refine ⟨hl, fun b => Nat.le_add_right _ _, fun a ha => ?_, fun t => ?_⟩
  · -- Only the root directory is open.
    have hpos := (hl.listed a).mp ha
    rcases h with ⟨⟨t, s, u, -, hrun⟩, hdirs⟩
    rw [balance, FsWorld.refs, (filesysInit_files hrun).2 a, hdirs, dirRefs, oneMore] at hpos
    split at hpos
    · rename_i hr
      rw [hr, hroot.1]
      exact hroot.2.1
    · cases hpos
  · rw [hroot.2.2 t]
    exact hroot.2.1

/-- In every run whose calls meet the condition, the number of every open inode
    and of every working directory is taken. -/
theorem numbers_in_use {w : FsWorld} (h : (mountedSystem.restrict NumbersSafe).Reachable w) :
    NumbersTaken w.fs := by
  have hinv : ∃ c, NumbersInv c w := by
    refine System.invariant_of_step (mountedSystem.restrict NumbersSafe)
      (fun w => ∃ c, NumbersInv c w) (fun w hw => ⟨_, numbersInv_init hw.1 hw.2⟩)
      (fun w e w' ⟨c, hc⟩ he hs => ?_) w h
    refine hc.step (fun b => ?_) he.2.1 hs
    have := hc.ledger.room he.2.2 b
    omega
  exact hinv.choose_spec.numbers

section Example

instance (w : FsWorld) (e : FsCall) : Decidable (mountedSystem.enabled w e) :=
  inferInstanceAs (Decidable (fsCallSystem.enabled w e))

theorem freshDisk_mounted : mountedSystem.init freshDisk := by
  refine ⟨freshDisk_init, by decide +kernel, by decide +kernel, fun t => ?_⟩
  have hok : ((filesysInit 0).run (blankFs 2048 10000 (· == 1))).isOk = true := by decide +kernel
  rcases after_ok hok with ⟨u, hu⟩
  show ((filesysInit 0).after (blankFs 2048 10000 (· == 1))).cwdInodeNr t = 0
  rw [(filesysInit_before hu).2.1]
  rfl

/-- A process makes `/d`, goes there and removes it. The number of its working
    directory is free then. -/
theorem rmdir_releases_cwd :
    mountedSystem.Reachable (mountedSystem.after freshDisk
        [.mkdir 1 pathD, .chdir 1 pathD, .rmdir 1 pathD]) ∧
      ¬ NumbersTaken (mountedSystem.after freshDisk
        [.mkdir 1 pathD, .chdir 1 pathD, .rmdir 1 pathD]).fs := by
  refine ⟨mountedSystem.reachable_after _ (.init _ freshDisk_mounted) (by decide +kernel), ?_⟩
  intro hnumbers
  have hfree : taken (mountedSystem.after freshDisk
      [.mkdir 1 pathD, .chdir 1 pathD, .rmdir 1 pathD]).fs
        ((mountedSystem.after freshDisk
          [.mkdir 1 pathD, .chdir 1 pathD, .rmdir 1 pathD]).fs.cwdInodeNr 1) = false := by
    decide +kernel
  rw [hnumbers.2 1] at hfree
  cases hfree

/-- The number at the end of a search. -/
def foundNumber (t : Nat) (p : Str) (s : Fs) : Nat :=
  match (searchFile t p).run s with
  | .ok ((n, _), _) => n
  | .error _ => minusOne

/-- A process makes `/d`, goes there, and opens it as a directory. -/
theorem numbers_in_use_opendir :
    NumbersTaken (mountedSystem.after freshDisk
      [.mkdir 1 pathD, .chdir 1 pathD, .opendir 1 pathD]).fs := by
  have hrun : mountedSystem.Runs freshDisk [.mkdir 1 pathD, .chdir 1 pathD, .opendir 1 pathD] := by
    decide +kernel
  -- Both searches lead to number 1.
  have hfound : ∀ {w : FsWorld} {n : Nat} {r : PathSearchRecord} {s₁ : Fs},
      foundNumber 1 pathD w.fs = 1 → (searchFile 1 pathD).run w.fs = .ok ((n, r), s₁) → n = 1 := by
    intro w n r s₁ hone hsearch
    rwa [foundNumber, hsearch] at hone
  have hmkdir : NumbersSafe freshDisk (.mkdir 1 pathD) := ⟨trivial, by decide +kernel⟩
  have hchdir : NumbersSafe (mountedSystem.next freshDisk (.mkdir 1 pathD)) (.chdir 1 pathD) := by
    refine ⟨fun n r s₁ hsearch _ _ => ?_, by decide +kernel⟩
    rw [hfound (by decide +kernel) hsearch]
    decide +kernel
  have hopendir : NumbersSafe (mountedSystem.next (mountedSystem.next freshDisk (.mkdir 1 pathD))
      (.chdir 1 pathD)) (.opendir 1 pathD) := by
    refine ⟨fun n r s₁ hsearch _ _ => ?_, by decide +kernel⟩
    rw [hfound (by decide +kernel) hsearch]
    exact ⟨by decide +kernel, Or.inr (by decide +kernel)⟩
  have hcond : mountedSystem.Meets NumbersSafe freshDisk
      [.mkdir 1 pathD, .chdir 1 pathD, .opendir 1 pathD] :=
    ⟨hmkdir, hchdir, hopendir, True.intro⟩
  exact numbers_in_use ((mountedSystem.restrict NumbersSafe).reachable_after _
    (.init _ freshDisk_mounted) (mountedSystem.runs_restrict NumbersSafe hrun hcond))

end Example

end ForikOS
