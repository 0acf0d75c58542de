import ForikOS.Theory.Bitmap
import ForikOS.Theory.OpenCount

/-!
# One Writer at a Time

`write_deny` is there so that a file is open for writing at most once. The
slots of `file_table` say who has it open for writing, and this module is
about them.

A slot that is filled anew points to an inode that nobody had open before, or
to the inode that the path leads to (`sysOpen_table`). The flag does not help
in the second case: `file_create` does not set it, every `file_close` clears
it, whoever closes, and an open that it refuses has filled its slot already.
So a second slot for writing appears whenever a file that is open for writing
is opened for writing, and only then.

## Main definitions

* `forWriting`: The slot is for writing.
* `SingleWriter`: No inode has two slots for writing.
* `secondWriter`: The call opens for writing what is open for writing.

## Theorems

* `fileOpened_table`, `fileCreated_table`: What the two halves of `sys_open` do
  to `file_table`.
* `sysOpen_table`: What `sys_open` does to it.
* `single_writer`: There is one writer in every run without such a call.
* `create_then_open_writes`: A run with two.
-/

namespace ForikOS

open Prog

/-- `fd_flag` has `O_WRONLY` or `O_RDWR`. -/
def forWriting (f : File) : Bool := decide (f.fdFlag &&& (oWronly ||| oRdwr) ≠ 0)

/-- No two slots for writing point to one inode. -/
def SingleWriter (s : Fs) : Prop :=
  ∀ g g' a, g < maxFileOpen → g' < maxFileOpen → g ≠ g' → forWriting (s.fileTable g) = true →
    forWriting (s.fileTable g') = true → (s.fileTable g).fdInode = some a →
    (s.fileTable g').fdInode ≠ some a

/-- A slot for writing points to the inode with a number. -/
def writerOn (s : Fs) (n : Nat) : Bool :=
  (List.range maxFileOpen).any (fun g => forWriting (s.fileTable g) &&
    match (s.fileTable g).fdInode with
    | some a => decide ((s.inode a).iNo = n)
    | none => false)

/-- The call opens for writing a file that is open for writing. -/
def secondWriter (w : FsWorld) : FsCall → Bool
  | .open t pathname flags =>
      match (openPath t pathname).run w.fs with
      | .ok ((n, r, atEnd), _) =>
          atEnd && decide (r.fileType ≠ .directory) && decide (n ≠ minusOne) &&
            decide (flags &&& oCreat = 0) && decide (flags &&& (oWronly ||| oRdwr) ≠ 0) &&
            writerOn w.fs n
      | .error _ => false
  | _ => false

section Slots

variable {s s' : Fs}

theorem writerOn_of_slot {g a n : Nat} (hg : g < maxFileOpen)
    (hw : forWriting (s.fileTable g) = true) (ha : (s.fileTable g).fdInode = some a)
    (hn : (s.inode a).iNo = n) : writerOn s n = true := by
  refine List.any_eq_true.mpr ⟨g, List.mem_range.mpr hg, ?_⟩
  rw [hw, ha, Bool.true_and]
  exact decide_eq_true hn

/-- One slot has changed. -/
theorem SingleWriter.update {g : Nat} {f : File} (h : SingleWriter s)
    (hs : ∀ x, (s'.fileTable x).fdInode = (Function.update s.fileTable g f x).fdInode ∧
      (s'.fileTable x).fdFlag = (Function.update s.fileTable g f x).fdFlag)
    (hf : ∀ a x, f.fdInode = some a → forWriting f = true → x < maxFileOpen → x ≠ g →
      forWriting (s.fileTable x) = true → (s.fileTable x).fdInode ≠ some a) : SingleWriter s' := by
  -- The slot `g` is judged by `f`, the other slots as before.
  have hself : (s'.fileTable g).fdInode = f.fdInode ∧ forWriting (s'.fileTable g) = forWriting f := by
    have := hs g
    rw [Function.update_self] at this
    rw [forWriting, forWriting, this.2]
    exact ⟨this.1, rfl⟩
  have hrest : ∀ x, x ≠ g → (s'.fileTable x).fdInode = (s.fileTable x).fdInode ∧
      forWriting (s'.fileTable x) = forWriting (s.fileTable x) := by
    intro x hx
    have := hs x
    rw [Function.update_of_ne hx] at this
    rw [forWriting, forWriting, this.2]
    exact ⟨this.1, rfl⟩
  intro x y a hx hy hne hwx hwy hax hay
  -- Two writers of one file: if one of them is `g`, the hypothesis on `f` excludes the other.
  by_cases hxg : x = g
  · have hyg : y ≠ g := fun hc => hne (hxg.trans hc.symm)
    rw [hxg, hself.2] at hwx
    rw [hxg, hself.1] at hax
    rw [(hrest y hyg).2] at hwy
    rw [(hrest y hyg).1] at hay
    exact hf a y hax hwx hy hyg hwy hay
  · rw [(hrest x hxg).2] at hwx
    rw [(hrest x hxg).1] at hax
    by_cases hyg : y = g
    · rw [hyg, hself.2] at hwy
      rw [hyg, hself.1] at hay
      exact hf a x hay hwy hx hxg hwx hax
    · rw [(hrest y hyg).2] at hwy
      rw [(hrest y hyg).1] at hay
      exact h x y a hx hy hne hwx hwy hax hay

theorem SingleWriter.congr (h : SingleWriter s)
    (hs : ∀ g, (s'.fileTable g).fdInode = (s.fileTable g).fdInode ∧
      (s'.fileTable g).fdFlag = (s.fileTable g).fdFlag) : SingleWriter s' := by
  intro x y a hx hy hne hwx hwy
  rw [forWriting, (hs x).2] at hwx
  rw [forWriting, (hs y).2] at hwy
  rw [(hs x).1, (hs y).1]
  exact h x y a hx hy hne hwx hwy

end Slots

section Table

variable {s s' : Fs} {t : Nat}

/-- The inode at `a` is one with number `n` that was open before, or a new one
    with what record `n` says. -/
def Reached (n a : Nat) (s s' : Fs) : Prop :=
  (a ∈ s.part.openInodes ∧ (s.inode a).iNo = n) ∨
    (a = s.nextInode ∧ a < s'.nextInode ∧ (∀ b, b ∈ s.part.openInodes → (s.inode b).iNo ≠ n) ∧
      (s'.inode a).iNo = (diskInode s n).iNo)

theorem Reached.kept {n a : Nat} {s₁ : Fs} (h : Reached n a s s₁) (hk : Kept s₁ s') :
    Reached n a s s' := by
  rcases h with hold | ⟨hnew, hlt, hnone, hno⟩
  · exact Or.inl hold
  · exact Or.inr ⟨hnew, Nat.lt_of_lt_of_le hlt hk.next, hnone, (hk.iNo a hlt).trans hno⟩

theorem inodeOpen_reached {n a : Nat} (h : (inodeOpen t n).run s = .ok (a, s')) :
    Reached n a s s' := by
  rcases run_bind_ok.mp h with ⟨l, s₁, h₁, k₁⟩
  rcases read_ok h₁ with ⟨rfl, rfl⟩
  rcases run_bind_ok.mp k₁ with ⟨found, s₂, h₂, k₂⟩
  rcases findOpenInode_run h₂ with ⟨rfl, hf⟩
  cases found with
  | some b =>
      rcases run_bind_ok.mp k₂ with ⟨_, s₃, h₃, k₃⟩
      rcases pure_ok k₃ with ⟨rfl, rfl⟩
      exact Or.inl ⟨hf.1, hf.2.1⟩
  | none =>
      rcases inodeFetch_run k₂ with ⟨-, ha, i, hsame, -, hq⟩
      unfold Quiet at hq
      refine Or.inr ⟨ha, ?_, hf, ?_⟩
      · rw [hq]
        exact Nat.lt_succ_self a
      · rw [hq, ← hsame.iNo]
        show (Function.update s₂.inode a i a).iNo = _
        rw [Function.update_self]

theorem pcbFdInstall_table {g : Nat} {r : Int} (h : (pcbFdInstall t g).run s = .ok (r, s')) :
    s'.fileTable = s.fileTable := by
  rcases pcbFdInstall_run h with ⟨-, rfl⟩ | ⟨k, -, -, -, -, rfl⟩
  · rfl
  · rfl

theorem pcbFdInstall_same {g : Nat} {r : Int} (h : (pcbFdInstall t g).run s = .ok (r, s')) :
    s'.inode = s.inode ∧ s'.part = s.part ∧ s'.nextInode = s.nextInode := by
  rcases pcbFdInstall_run h with ⟨-, rfl⟩ | ⟨k, -, -, -, -, rfl⟩
  · exact ⟨rfl, rfl, rfl⟩
  · exact ⟨rfl, rfl, rfl⟩

/-- `file_open` fills the slot, also where it then refuses. -/
theorem fileOpened_table {g a flag : Nat} {r : Int}
    (h : (fileOpened t g a flag).run s = .ok (r, s')) :
    s'.fileTable = Function.update s.fileTable g ⟨0, flag, some a⟩ := by
  rcases run_bind_ok.mp h with ⟨_, s₁, h₁, k₁⟩
  have hs₁ : s₁.fileTable = Function.update s.fileTable g ⟨0, flag, some a⟩ := by
    rw [modify_ok h₁]
    rfl
  by_cases hw : flag = oWronly ∨ flag = oRdwr
  · rw [if_pos hw] at k₁
    rcases run_bind_ok.mp k₁ with ⟨i, s₂, h₂, k₂⟩
    rcases inodeAt_run h₂ with ⟨-, rfl, rfl⟩
    by_cases hdeny : (s₂.inode a).writeDeny = true
    · rw [if_pos hdeny] at k₂
      rcases pure_ok k₂ with ⟨-, rfl⟩
      exact hs₁
    · rw [if_neg hdeny] at k₂
      rcases run_bind_ok.mp k₂ with ⟨_, s₃, h₃, k₃⟩
      rw [pcbFdInstall_table k₃, setInodeAt_run h₃]
      exact hs₁
  · rw [if_neg hw] at k₁
    rw [pcbFdInstall_table k₁]
    exact hs₁

/-- `file_open` fills a slot with the inode, or there is none. -/
theorem fileOpen_table {n flag : Nat} {r : Int} (h : (fileOpen t n flag).run s = .ok (r, s')) :
    s'.fileTable = s.fileTable ∨ ∃ g a,
      s'.fileTable = Function.update s.fileTable g ⟨0, flag, some a⟩ ∧ Reached n a s s' := by
  rcases run_bind_ok.mp h with ⟨g, s₁, h₁, k₁⟩
  rcases read_ok h₁ with ⟨-, rfl⟩
  cases g with
  | none =>
      rcases pure_ok k₁ with ⟨-, rfl⟩
      exact Or.inl rfl
  | some g =>
      rcases run_bind_ok.mp k₁ with ⟨a, s₂, h₂, k₂⟩
      have hft := (looked_inodeOpen _ _ _ _ _ h₂).fileTable
      refine Or.inr ⟨g, a, ?_,
        (inodeOpen_reached h₂).kept (opening_fileOpened opening_kept t g a flag _ _ _ k₂)⟩
      rw [fileOpened_table k₂, hft]

theorem scanOne_run {b : Bitmap} {r : Option Nat} (h : (scanOne b).run s = .ok (r, s')) :
    s' = s ∧ ∃ n, r = some n ∧ bitmapScanTest b n = false := by
  rcases run_bind_ok.mp h with ⟨_, s₁, h₁, k₁⟩
  rcases assert_run h₁ with ⟨hlt, rfl⟩
  rcases pure_ok k₁ with ⟨rfl, rfl⟩
  have hscan : bitmapScan b 1 = .ok (bitmapScanRest b 1) := by
    rw [bitmapScan, ensure_pos hlt]
    rfl
  rcases bitmapScan_one hscan with ⟨n, hn, -, hclear, -⟩
  exact ⟨rfl, n, hn, hclear⟩

theorem inodeBitmapAlloc_run {r : Option Nat} (h : inodeBitmapAlloc.run s = .ok (r, s')) :
    ∃ n, r = some n ∧ bitmapScanTest s.part.inodeBitmap n = false ∧
      s' = s.setInodeBitmap (bitmapSet s.part.inodeBitmap n true) := by
  rcases run_bind_ok.mp h with ⟨b, s₁, h₁, k₁⟩
  rcases read_ok h₁ with ⟨rfl, rfl⟩
  rcases run_bind_ok.mp k₁ with ⟨i, s₂, h₂, k₂⟩
  rcases scanOne_run h₂ with ⟨rfl, n, rfl, hclear⟩
  rcases run_bind_ok.mp k₂ with ⟨_, s₃, h₃, k₃⟩
  rcases pure_ok k₃ with ⟨rfl, rfl⟩
  exact ⟨n, rfl, hclear, modify_ok h₃⟩

/-- The slot with the new inode, or the slot cleared again. -/
def Created (n a g : Nat) (f : File) (s s' : Fs) : Prop :=
  s'.fileTable = Function.update s.fileTable g f ∧ ∀ b, f.fdInode = some b → b = a ∧
    s'.nextInode = s.nextInode ∧ (s'.inode a).iNo = (s.inode a).iNo ∧
    bitmapScanTest s'.part.inodeBitmap n = bitmapScanTest s.part.inodeBitmap n

theorem fileCreated_table {d : Dir} {n a g : Nat} {r : Int}
    (h : (fileCreated t d n a g).run s = .ok (r, s')) : s'.fileTable = s.fileTable := by
  rcases run_bind_ok.mp h with ⟨i, s₁, h₁, k₁⟩
  rcases inodeAt_run h₁ with ⟨-, -, rfl⟩
  rcases run_bind_ok.mp k₁ with ⟨_, s₂, h₂, k₂⟩
  rcases run_bind_ok.mp k₂ with ⟨i', s₃, h₃, k₃⟩
  rcases inodeAt_run h₃ with ⟨-, -, rfl⟩
  rcases run_bind_ok.mp k₃ with ⟨_, s₄, h₄, k₄⟩
  rcases run_bind_ok.mp k₄ with ⟨_, s₅, h₅, k₅⟩
  rcases run_bind_ok.mp k₅ with ⟨_, s₆, h₆, k₆⟩
  rcases run_bind_ok.mp k₆ with ⟨_, s₇, h₇, k₇⟩
  rw [pcbFdInstall_table k₇, setInodeAt_run h₇, modify_ok h₆]
  show s₅.fileTable = _
  rw [(stored_bitmapSync _ _ _ _ _ h₅).fileTable, (stored_inodeSync _ _ _ _ _ h₄).fileTable,
    (stored_inodeSync _ _ _ _ _ h₂).fileTable]

/-- What `file_create` does once the inode is there. -/
theorem fileCreateEntry_table {d : Dir} {name : Str} {flag n a g : Nat} {r : Int}
    (h : (fileCreateEntry t d name flag n a g).run s = .ok (r, s')) :
    ∃ f, Created n a g f s s' := by
  rcases run_bind_ok.mp h with ⟨_, s₁, h₁, k₁⟩
  rcases run_bind_ok.mp k₁ with ⟨e, s₂, h₂, k₂⟩
  rcases run_bind_ok.mp k₂ with ⟨done, s₃, h₃, k₃⟩
  have hft₃ : s₃.fileTable = Function.update s.fileTable g ⟨0, flag, some a⟩ := by
    rw [(stored_syncDirEntry _ _ _ _ _ _ h₃).fileTable,
      (stored_of_quiet (quiet_createDirEntry _ _ _) _ _ _ h₂).fileTable, modify_ok h₁]
    rfl
  by_cases hdone : done = true
  · rw [if_pos hdone] at k₃
    have hcreated := fileCreated_table k₃
    rcases run_bind_ok.mp k₃ with ⟨i, r₁, g₁, j₁⟩
    rcases inodeAt_run g₁ with ⟨-, -, rfl⟩
    rcases run_bind_ok.mp j₁ with ⟨_, r₂, g₂, j₂⟩
    rcases run_bind_ok.mp j₂ with ⟨i', r₃, g₃, j₃⟩
    rcases inodeAt_run g₃ with ⟨-, -, rfl⟩
    rcases run_bind_ok.mp j₃ with ⟨_, r₄, g₄, j₄⟩
    rcases run_bind_ok.mp j₄ with ⟨_, r₅, g₅, j₅⟩
    rcases run_bind_ok.mp j₅ with ⟨_, r₆, g₆, j₆⟩
    rcases run_bind_ok.mp j₆ with ⟨_, r₇, g₇, j₇⟩
    refine ⟨⟨0, flag, some a⟩, hcreated.trans hft₃,
      fun b hb => ⟨(Option.some.inj hb).symm, ?_⟩⟩
    -- What is written on the way moves neither numbers nor bits.
    have hm := storing_syncDirEntry storing_moved _ _ _ _ _ _ h₃
    have hm := IsTrans.trans _ _ _ (moved_of_quiet (quiet_createDirEntry _ _ _) _ _ _ h₂) hm
    have hm := IsTrans.trans _ _ _ hm (storing_inodeSync storing_moved.any _ _ _ _ _ g₂)
    have hm := IsTrans.trans _ _ _ hm (storing_inodeSync storing_moved.any _ _ _ _ _ g₄)
    have hm := IsTrans.trans _ _ _ hm (storing_bitmapSync storing_moved.any _ _ _ _ _ g₅)
    rcases pcbFdInstall_same j₇ with ⟨hinode, hpart, hnext⟩
    rw [hinode, hpart, hnext, setInodeAt_run g₇, modify_ok g₆]
    refine ⟨?_, ?_, ?_⟩
    · show r₅.nextInode = _
      rw [hm.nextInode, modify_ok h₁]
      rfl
    · show (Function.update r₅.inode a { r₅.inode a with iOpenCnts := 1 } a).iNo = _
      rw [Function.update_self]
      show (r₅.inode a).iNo = _
      rw [hm.iNo a, modify_ok h₁]
      rfl
    · show bitmapScanTest r₅.part.inodeBitmap n = _
      rw [hm.inodeBitmap, modify_ok h₁]
      rfl
  · rw [if_neg hdone] at k₃
    rcases run_bind_ok.mp k₃ with ⟨_, r₁, g₁, j₁⟩
    rcases run_bind_ok.mp j₁ with ⟨_, r₂, g₂, j₂⟩
    rcases run_bind_ok.mp j₂ with ⟨_, r₃, g₃, j₃⟩
    rcases pure_ok j₃ with ⟨-, rfl⟩
    refine ⟨⟨0, 0, none⟩, ?_, fun b hb => by cases hb⟩
    rw [(stored_setInodeBitmap _ _ _ g₃).fileTable, modify_ok g₂, modify_ok g₁]
    show Function.update s₃.fileTable g _ = _
    rw [hft₃, Function.update_idem]

/-- What `file_create` does once the new file has a number. -/
theorem fileCreateInode_table {d : Dir} {name : Str} {flag n : Nat} {r : Int}
    (hn : bitmapScanTest s.part.inodeBitmap n = true)
    (h : (fileCreateInode t d name flag n).run s = .ok (r, s')) :
    s'.fileTable = s.fileTable ∨ ∃ g f, s'.fileTable = Function.update s.fileTable g f ∧
      ∀ a, f.fdInode = some a → a = s.nextInode ∧ a < s'.nextInode ∧
        bitmapScanTest s'.part.inodeBitmap (s'.inode a).iNo = true := by
  rcases run_bind_ok.mp h with ⟨ok, s₁, h₁, k₁⟩
  have hm₁ := moved_of_quiet quiet_malloc _ _ _ h₁
  have hft₁ := (stored_of_quiet quiet_malloc _ _ _ h₁).fileTable
  by_cases hok : ok = true
  · rw [if_pos hok] at k₁
    rcases run_bind_ok.mp k₁ with ⟨hm, s₂, h₂, k₂⟩
    rcases read_ok h₂ with ⟨rfl, rfl⟩
    rcases run_bind_ok.mp k₂ with ⟨a, s₃, h₃, k₃⟩
    rcases newInode_run h₃ with ⟨ha, hs₃⟩
    rcases run_bind_ok.mp k₃ with ⟨_, s₄, h₄, k₄⟩
    have hft₄ : s₄.fileTable = s.fileTable := by
      rw [setInodeAt_run h₄, hs₃, ← hft₁]
      rfl
    have hno₄ : (s₄.inode a).iNo = n := by
      rw [setInodeAt_run h₄, hs₃]
      show (Function.update s₂.inode a _ a).iNo = n
      rw [Function.update_self]
      rfl
    -- The bit was set before the call and stays set.
    have hbit₄ : bitmapScanTest s₄.part.inodeBitmap n = true := by
      rw [setInodeAt_run h₄, hs₃]
      show bitmapScanTest s₂.part.inodeBitmap n = true
      rw [hm₁.inodeBitmap]
      exact hn
    have hnext₄ : a < s₄.nextInode := by
      rw [setInodeAt_run h₄, hs₃, ha]
      exact Nat.lt_succ_self _
    rcases run_bind_ok.mp k₄ with ⟨g, s₅, h₅, k₅⟩
    rcases read_ok h₅ with ⟨-, rfl⟩
    cases g with
    | none =>
        rcases run_bind_ok.mp k₅ with ⟨_, s₆, h₆, k₆⟩
        rcases run_bind_ok.mp k₆ with ⟨_, s₇, h₇, k₇⟩
        rcases pure_ok k₇ with ⟨-, rfl⟩
        left
        rw [(stored_setInodeBitmap _ _ _ h₇).fileTable, modify_ok h₆, ← hft₄]
        rfl
    | some g =>
        rcases fileCreateEntry_table k₅ with ⟨f, hft, hf⟩
        refine Or.inr ⟨g, f, by rw [hft, hft₄], fun b hb => ?_⟩
        rcases hf b hb with ⟨rfl, hnext, hno, hbit⟩
        rw [hnext, hno, hno₄, hbit]
        exact ⟨by rw [ha, hm₁.nextInode], hnext₄, hbit₄⟩
  · rw [if_neg hok] at k₁
    rcases run_bind_ok.mp k₁ with ⟨_, s₂, h₂, k₂⟩
    rcases pure_ok k₂ with ⟨-, rfl⟩
    left
    rw [(stored_setInodeBitmap _ _ _ h₂).fileTable]
    exact hft₁

/-- `file_create` fills a slot with a new inode, whose number is taken then, or
    clears it again. -/
theorem fileCreate_table {d : Dir} {name : Str} {flag : Nat} {r : Int}
    (h : (fileCreate t d name flag).run s = .ok (r, s')) :
    s'.fileTable = s.fileTable ∨ ∃ g f, s'.fileTable = Function.update s.fileTable g f ∧
      ∀ a, f.fdInode = some a → a = s.nextInode ∧ a < s'.nextInode ∧
        bitmapScanTest s'.part.inodeBitmap (s'.inode a).iNo = true := by
  rcases run_bind_ok.mp h with ⟨ok, s₁, h₁, k₁⟩
  have hst₁ := stored_of_quiet quiet_malloc _ _ _ h₁
  by_cases hok : ok = true
  · rw [if_pos hok] at k₁
    rcases run_bind_ok.mp k₁ with ⟨r', s₂, h₂, k₂⟩
    have hst₂ := IsTrans.trans _ _ _ hst₁ (stored_inodeBitmapAlloc _ _ _ h₂)
    rcases inodeBitmapAlloc_run h₂ with ⟨n, rfl, -, hs₂⟩
    have hbit : bitmapScanTest s₂.part.inodeBitmap n = true := by
      rw [hs₂]
      show bitmapScanTest (bitmapSet _ n true) n = true
      rw [bitmapScanTest_set, if_pos rfl]
    rw [← hst₂.fileTable, ← hst₂.nextInode]
    exact fileCreateInode_table hbit k₂
  · rw [if_neg hok] at k₁
    rcases pure_ok k₁ with ⟨-, rfl⟩
    exact Or.inl hst₁.fileTable

/-- What `sys_open` does to `file_table`: it fills at most one slot, with an
    inode that is new or with the one the path leads to. -/
theorem sysOpen_table {p : Str} {flags : Nat} {r : Int}
    (hr : (sysOpen t p flags).run s = .ok (r, s')) :
    s'.fileTable = s.fileTable ∨ ∃ g f, s'.fileTable = Function.update s.fileTable g f ∧
      ∀ a, f.fdInode = some a → s.nextInode ≤ a ∨
        (f.fdFlag = flags ∧ flags &&& oCreat = 0 ∧
          ∃ rec, Finds t p s (s.inode a).iNo rec) := by
  rcases sysOpen_cases hr with ⟨-, hlook, -⟩ | ⟨n, rec, s₁, hpath, hdir, hn, hflags, hopen⟩ |
    ⟨rec, s₁, s₂, u, hpath, -, -, hcreate, hclose⟩
  · exact Or.inl hlook.fileTable
  · have hlook := looked_openPath _ _ _ _ _ hpath
    rcases fileOpen_table hopen with hsame | ⟨g, a, hft, ha⟩
    · exact Or.inl (hsame.trans hlook.fileTable)
    · refine Or.inr ⟨g, ⟨0, flags, some a⟩, by rw [hft, hlook.fileTable], fun b hb => ?_⟩
      rw [← Option.some.inj hb]
      -- The inode may have been read in just now, by the search or by `inode_open`.
      by_cases hnew : s.nextInode ≤ a
      · exact Or.inl hnew
      · have hnext := hlook.next
        rcases ha with ⟨-, hno⟩ | ⟨ha, -⟩
        · refine Or.inr ⟨rfl, hflags, rec, s₁, ?_, hdir, ?_⟩
          · rw [← (hlook.old a (by omega)).iNo, hno]
            exact hpath
          · rw [← (hlook.old a (by omega)).iNo, hno]
            exact hn
        · omega
  · have hlook := looked_openPath _ _ _ _ _ hpath
    have hft := (looked_dirClose _ _ _ _ _ hclose).fileTable
    rcases fileCreate_table hcreate with hsame | ⟨g, f, hft', hf⟩
    · exact Or.inl (by rw [hft, hsame, hlook.fileTable])
    · refine Or.inr ⟨g, f, by rw [hft, hft', hlook.fileTable], fun a ha => Or.inl ?_⟩
      rw [(hf a ha).1]
      exact hlook.next

end Table

/-- The condition on a call: nothing that is open for writing is opened for
    writing, and no count is about to wrap around. -/
def OneWriter (w : FsWorld) (e : FsCall) : Prop :=
  secondWriter w e = false ∧ ∀ a, a ∈ w.fs.part.openInodes → (w.fs.inode a).iOpenCnts + 8 < 2 ^ 32

/-- The holders are counted, slots and handles among them, and there is one
    writer. -/
structure WriterInv (c : Nat → Nat) (w : FsWorld) : Prop where
  ledger : Ledger c w.fs
  refs : ∀ b, w.refs b ≤ c b
  single : SingleWriter w.fs

section Writers

variable {c : Nat → Nat} {w w' : FsWorld}

/-- A slot points to an inode that is there. -/
theorem slot_lt (hl : Ledger c w.fs) (hrefs : ∀ b, w.refs b ≤ c b) {g a : Nat}
    (hg : g < maxFileOpen) (ha : (w.fs.fileTable g).fdInode = some a) : a < w.fs.nextInode := by
  refine (hl.there a ((hl.listed a).mpr ?_)).2
  exact Nat.lt_of_lt_of_le (slotRefs_pos hg ha) (Nat.le_trans (Nat.le_add_right _ _) (hrefs a))

/-- Opening a file that nobody has open for writing. -/
theorem WriterInv.open_single {t flags : Nat} {p : Str} {r : Int} {s' : Fs} (h : WriterInv c w)
    (hno : secondWriter w (.open t p flags) = false)
    (hr : (sysOpen t p flags).run w.fs = .ok (r, s')) : SingleWriter s' := by
  rcases sysOpen_table hr with hsame | ⟨g, f, hft, hf⟩
  · exact h.single.congr (fun g => by rw [hsame]; exact ⟨rfl, rfl⟩)
  refine h.single.update (fun x => by rw [hft]; exact ⟨rfl, rfl⟩) (fun a x ha hw hx hne hwx hax => ?_)
  rcases hf a ha with hnew | ⟨hflag, hcreat, rec, s₁, hpath, hdir, hn⟩
  · exact absurd (slot_lt h.ledger h.refs hx hax) (Nat.not_lt.mpr hnew)
  · -- The path leads to the inode of a slot for writing, which the condition excludes.
    have hwrite : flags &&& (oWronly ||| oRdwr) ≠ 0 := by
      rw [forWriting, hflag] at hw
      exact of_decide_eq_true hw
    rw [secondWriter, hpath] at hno
    dsimp only at hno
    rw [decide_eq_true hdir, decide_eq_true hn, decide_eq_true hcreat, decide_eq_true hwrite,
      writerOn_of_slot hx hwx hax rfl] at hno
    cases hno

/-- Closing a file. -/
theorem sysClose_single {t : Nat} {fd r : Int} {s' : Fs} (hl : Ledger c w.fs)
    (hroom : ∀ b, c b < 2 ^ 32) (hrefs : ∀ b, w.refs b ≤ c b) (h : SingleWriter w.fs)
    (hr : (sysClose t fd).run w.fs = .ok (r, s')) : SingleWriter s' := by
  have hslots : ∀ b, slotRefs w.fs b ≤ c b := fun b =>
    Nat.le_trans (Nat.le_add_right _ _) (hrefs b)
  rcases sysClose_run hl hroom hslots hr with ⟨-, rfl⟩ | ⟨-, g, a, hc⟩
  · exact h
  · refine h.update (g := g) (f := s'.fileTable g) (fun x => ?_) (fun b x hb => ?_)
    · by_cases hx : x = g
      · rw [hx, Function.update_self]
        exact ⟨rfl, rfl⟩
      · rw [Function.update_of_ne hx, hc.rest x hx]
        exact ⟨rfl, rfl⟩
    · rw [hc.free] at hb
      cases hb

/-- A call that meets the condition keeps a single writer. -/
theorem WriterInv.step {e : FsCall} (h : WriterInv c w) (hcond : OneWriter w e)
    (hs : fsStep w e = .ok w') : ∃ c', WriterInv c' w' := by
  have hroom : ∀ b, c b + 3 < 2 ^ 32 := fun b => by
    have := h.ledger.room hcond.2 b
    omega
  rcases fsStep_accounts h.ledger h.refs hroom hs with ⟨d, c', hl', heq, -⟩
  refine ⟨c', hl', accounts_refs h.refs heq, ?_⟩
  -- Calls that open and close nothing keep the slots as they are.
  have hcall : ∀ {α : Type} {x : FsM α}, Within Framed x → w.call x = .ok w' →
      SingleWriter w'.fs := by
    intro α x hf hs
    rcases call_ok hs with ⟨a, hrun, -⟩
    exact h.single.congr (hf _ _ _ hrun).slots
  cases e with
  | «open» t p flags =>
      rcases call_ok hs with ⟨r, hrun, -⟩
      exact h.open_single hcond.1 hrun
  | close t fd =>
      rcases call_ok hs with ⟨r, hrun, -⟩
      exact sysClose_single h.ledger (room_le hroom (Nat.zero_le 3)) h.refs h.single hrun
  | write t fd buf count => exact hcall (framed_of_moved (moved_sysWrite t fd buf count)) hs
  | read t fd buf count => exact hcall (framed_of_moved (moved_sysRead t fd buf count)) hs
  | lseek t fd offset whence => exact hcall (framed_of_moved (moved_sysLseek t fd offset whence)) hs
  | mkdir t p => exact hcall (framed_sysMkdir t p) hs
  | unlink t p => exact hcall (framed_sysUnlink t p) hs
  | rmdir t p => exact hcall (framed_sysRmdir t p) hs
  | stat t p => exact hcall (framed_of_looked (looked_sysStat t p)) hs
  | chdir t p => exact hcall (framed_sysChdir t p) hs
  | getcwd t size => exact hcall (framed_of_looked (looked_sysGetcwd t size)) hs
  | opendir t p =>
      rcases opendir_ok hs with ⟨r, hrun, -⟩
      exact h.single.congr (looked_sysOpendir t p _ _ _ hrun).framed.slots
  | closedir k =>
      rcases closedir_ok hs with rfl | ⟨t, d, u, hk, hrun, -⟩
      · exact h.single
      · exact h.single.congr (looked_sysClosedir t d _ _ _ hrun).framed.slots

/-- In every run whose calls meet the condition, no two slots for writing point
    to one inode. -/
theorem single_writer (h : (fsCallSystem.restrict OneWriter).Reachable w) : SingleWriter w.fs := by
  have hinv : ∃ c, WriterInv c w := by
    refine System.invariant_of_step (fsCallSystem.restrict OneWriter) (fun w => ∃ c, WriterInv c w)
      (fun w hw => ?_) (fun w e w' ⟨c, hc⟩ he hs => hc.step he.2 hs) w h
    refine ⟨_, fsInit_ledger hw, fun b => Nat.le_add_right _ _, ?_⟩
    -- No slot is taken yet.
    rcases hw with ⟨⟨t, s, u, -, hrun⟩, -⟩
    intro g g' a hg _ _ _ _ hga _
    have hpos := slotRefs_pos hg hga
    rw [(filesysInit_files hrun).2 a] at hpos
    cases hpos
  exact hinv.choose_spec.single

end Writers

section Example

/-- A process creates `/d` for writing and opens it for writing once more. Both
    calls succeed. -/
theorem create_then_open_writes :
    fsCallSystem.Reachable (fsCallSystem.after freshDisk [.open 1 pathD 5, .open 1 pathD 1]) ∧
      ¬ SingleWriter (fsCallSystem.after freshDisk [.open 1 pathD 5, .open 1 pathD 1]).fs ∧
      (fsCallSystem.after freshDisk [.open 1 pathD 5, .open 1 pathD 1]).fs.fdTable 1 3 = 3 ∧
      (fsCallSystem.after freshDisk [.open 1 pathD 5, .open 1 pathD 1]).fs.fdTable 1 4 = 4 := by
  refine ⟨fsCallSystem.reachable_after _ (.init _ freshDisk_init) (by decide +kernel), ?_,
    by decide +kernel, by decide +kernel⟩
  intro hsingle
  have h3 : forWriting ((fsCallSystem.after freshDisk
      [.open 1 pathD 5, .open 1 pathD 1]).fs.fileTable 3) = true := by decide +kernel
  have h4 : forWriting ((fsCallSystem.after freshDisk
      [.open 1 pathD 5, .open 1 pathD 1]).fs.fileTable 4) = true := by decide +kernel
  have ha : ((fsCallSystem.after freshDisk
      [.open 1 pathD 5, .open 1 pathD 1]).fs.fileTable 3).fdInode = some 1 := by decide +kernel
  have hb : ((fsCallSystem.after freshDisk
      [.open 1 pathD 5, .open 1 pathD 1]).fs.fileTable 4).fdInode = some 1 := by decide +kernel
  exact hsingle 3 4 1 (by decide) (by decide) (by decide) h3 h4 ha hb

/-- A thread creates `/d` for writing, and a process opens it for reading. -/
theorem single_writer_reader :
    SingleWriter (fsCallSystem.after freshDisk [.open 0 pathD 5, .open 1 pathD 0]).fs := by
  have hrun : fsCallSystem.Runs freshDisk [.open 0 pathD 5, .open 1 pathD 0] := by decide +kernel
  have h0 : ∀ a ∈ freshDisk.fs.part.openInodes,
      (freshDisk.fs.inode a).iOpenCnts + 8 < 2 ^ 32 := by
    decide +kernel
  have h1 : ∀ a ∈ (fsCallSystem.next freshDisk (.open 0 pathD 5)).fs.part.openInodes,
      ((fsCallSystem.next freshDisk (.open 0 pathD 5)).fs.inode a).iOpenCnts + 8 < 2 ^ 32 := by
    decide +kernel
  have hcond : fsCallSystem.Meets OneWriter freshDisk [.open 0 pathD 5, .open 1 pathD 0] :=
    ⟨⟨by decide +kernel, h0⟩, ⟨by decide +kernel, h1⟩, True.intro⟩
  exact single_writer ((fsCallSystem.restrict OneWriter).reachable_after _ (.init _ freshDisk_init)
    (fsCallSystem.runs_restrict OneWriter hrun hcond))

end Example

end ForikOS
