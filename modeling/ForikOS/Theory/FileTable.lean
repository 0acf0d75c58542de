import ForikOS.Core.FsCalls
import ForikOS.Theory.OpenInodes
import Mathlib.Algebra.BigOperators.Group.Finset.Basic

/-!
# The File Table

What opening and closing a file does to `file_table`, to the caller's
`fd_table` and to the holders of inodes.

A slot of `file_table` holds the inode it points to, so its inode is not freed
while the slot is taken. `Opens` says what a call that opens a file may do:
slots that are taken stay as they are, at most one slot is new and at most one
descriptor of the caller, and the descriptor refers to a slot whose inode the
caller sees. A call that fails may leave a slot behind that no descriptor
refers to.

## Main definitions

* `slotRefs`: The slots that hold an inode.
* `Opening`, `Making`: The relation allows what opening and closing does.
* `Kept`: What happens to an inode that is there.
* `Finds`: Where a path leads.
* `Opens`, `Closes`: What a call that opens or closes a file does.

## Theorems

* `slotRefs_changed`: One slot has changed.
* `opening_fileOpen`, `opening_fileCreate`, `opening_sysClose`: What opens and
  closes does only that.
* `sysOpen_cases`: What `sys_open` can do.
* `fileOpen_opens`, `fileCreate_opens`, `sysOpen_opens`: Opening.
* `sysClose_run`: Closing.
-/

namespace ForikOS

open Prog

/-- The number of slots that hold an inode. -/
def slotRefs (s : Fs) (a : Nat) : Nat :=
  ∑ g ∈ Finset.range maxFileOpen, if (s.fileTable g).fdInode = some a then 1 else 0

theorem slotRefs_congr {s s' : Fs} (h : s'.fileTable = s.fileTable) (a : Nat) :
    slotRefs s' a = slotRefs s a := by
  rw [slotRefs, slotRefs, h]

theorem slotRefs_exists {s : Fs} {a : Nat} (h : 0 < slotRefs s a) :
    ∃ g, g < maxFileOpen ∧ (s.fileTable g).fdInode = some a := by
  rcases Finset.exists_ne_zero_of_sum_ne_zero (Nat.ne_of_gt h) with ⟨g, hg, hne⟩
  refine ⟨g, Finset.mem_range.mp hg, ?_⟩
  by_contra hc
  exact hne (if_neg hc)

theorem slotRefs_pos {s : Fs} {g a : Nat} (hg : g < maxFileOpen)
    (h : (s.fileTable g).fdInode = some a) : 0 < slotRefs s a := by
  rw [slotRefs, ← Finset.add_sum_erase _ _ (Finset.mem_range.mpr hg), if_pos h]
  omega

@[simp] theorem setFile_self (s : Fs) (g : Nat) (f : File) : (s.setFile g f).fileTable g = f :=
  Function.update_self _ _ _

theorem setFile_of_ne (s : Fs) {g x : Nat} (h : x ≠ g) (f : File) :
    (s.setFile g f).fileTable x = s.fileTable x :=
  Function.update_of_ne h _ _

theorem setFd_self (s : Fs) (t k : Nat) (g : Int) : (s.setFd t k g).fdTable t k = g := by
  rw [Fs.setFd]
  dsimp only
  rw [Function.update_self, Function.update_self]

theorem setFd_of_ne (s : Fs) {t k t' k' : Nat} (h : ¬ (t' = t ∧ k' = k)) (g : Int) :
    (s.setFd t k g).fdTable t' k' = s.fdTable t' k' := by
  rw [Fs.setFd]
  dsimp only
  by_cases ht : t' = t
  · rw [ht, Function.update_self, Function.update_of_ne (fun hk => h ⟨ht, hk⟩)]
  · rw [Function.update_of_ne ht]

/-- One slot has changed: what it held before it holds no more. -/
theorem slotRefs_changed {s s' : Fs} {g : Nat} (hg : g < maxFileOpen)
    (hrest : ∀ x, x ≠ g → s'.fileTable x = s.fileTable x) (a : Nat) :
    slotRefs s' a + (if (s.fileTable g).fdInode = some a then 1 else 0)
      = slotRefs s a + (if (s'.fileTable g).fdInode = some a then 1 else 0) := by
  have hmem := Finset.mem_range.mpr hg
  have hsum : ∑ x ∈ (Finset.range maxFileOpen).erase g,
      (if (s'.fileTable x).fdInode = some a then 1 else 0)
        = ∑ x ∈ (Finset.range maxFileOpen).erase g,
          if (s.fileTable x).fdInode = some a then 1 else 0 := by
    refine Finset.sum_congr rfl (fun x hx => ?_)
    rw [hrest x (Finset.mem_erase.mp hx).1]
  rw [slotRefs, slotRefs, ← Finset.add_sum_erase _ _ hmem, ← Finset.add_sum_erase _ _ hmem, hsum]
  omega

/-- An inode that is there keeps its number, and stays where it is unless it
    is freed. -/
structure Kept (s s' : Fs) : Prop where
  isUser : s'.isUser = s.isUser
  next : s.nextInode ≤ s'.nextInode
  iNo : ∀ a, a < s.nextInode → (s'.inode a).iNo = (s.inode a).iNo
  home : ∀ a, a < s.nextInode → s'.home a = s.home a ∨ s'.home a = .freed

instance : IsPreorder Fs Kept where
  refl _ := ⟨rfl, Nat.le_refl _, fun _ _ => rfl, fun _ _ => Or.inl rfl⟩
  trans := by
    intro s₁ s₂ s₃ h h'
    refine ⟨h'.isUser.trans h.isUser, Nat.le_trans h.next h'.next, ?_, ?_⟩
    · intro a ha
      exact (h'.iNo a (Nat.lt_of_lt_of_le ha h.next)).trans (h.iNo a ha)
    · intro a ha
      rcases h'.home a (Nat.lt_of_lt_of_le ha h.next) with heq | hfreed
      · rw [heq]
        exact h.home a ha
      · exact Or.inr hfreed

/-- The relation allows what opening and closing files changes: what looking
    changes, the tables, the flags and counts of inodes, the list of open
    inodes, and that an inode is freed. -/
structure Opening (R : Fs → Fs → Prop) : Prop where
  looked : ∀ s s', Looked s s' → R s s'
  file : ∀ s g f, R s (s.setFile g f)
  fd : ∀ s t k g, R s (s.setFd t k g)
  inode : ∀ s a i, i.iNo = (s.inode a).iNo → R s (s.setInode a i)
  openInodes : ∀ s l, R s (s.setOpenInodes l)
  free : ∀ s a, R s (s.setHome a .freed)

/-- The relation also allows what task `t` does to make inode `n`: what storing
    changes, the new object, and that the number is free again. -/
structure Making (t n : Nat) (R : Fs → Fs → Prop) : Prop where
  storing : Storing R
  new : ∀ s i, R s (({ s with nextInode := s.nextInode + 1 }.setHome s.nextInode
    (callerHome s t)).setInode s.nextInode i)
  number : ∀ s, R s (s.setInodeBitmap (bitmapSet s.part.inodeBitmap n false))

section Opening

variable {R : Fs → Fs → Prop} [IsPreorder Fs R]

omit [IsPreorder Fs R] in
theorem opening_of_looked {α : Type} {x : FsM α} (hR : Opening R) (h : Within Looked x) :
    Within R x :=
  within_mono h hR.looked

omit [IsPreorder Fs R] in
theorem opening_of_quiet {α : Type} {x : FsM α} (hR : Opening R) (h : Within Quiet x) :
    Within R x :=
  opening_of_looked hR (looked_of_quiet h)

theorem opening_pcbFdInstall (hR : Opening R) (t g : Nat) : Within R (pcbFdInstall t g) := by
  refine within_read_bind (fun fd => ?_)
  cases fd with
  | none => exact within_pure
  | some k => exact within_bind (within_modify (fun s => hR.fd s t k g)) (fun _ => within_pure)

theorem opening_fileOpened (hR : Opening R) (t g a flag : Nat) :
    Within R (fileOpened t g a flag) := by
  refine within_bind (within_modify (fun s => hR.file s _ _)) (fun _ => ?_)
  refine within_ite (within_bind (opening_of_quiet hR (quiet_inodeAt t a)) (fun i => within_ite
    within_pure ?_)) (opening_pcbFdInstall hR t g)
  exact within_bind (within_modify (fun s => hR.inode s a _ rfl)) (fun _ =>
    opening_pcbFdInstall hR t g)

theorem opening_fileOpen (hR : Opening R) (t n flag : Nat) : Within R (fileOpen t n flag) := by
  refine within_read_bind (fun g => ?_)
  cases g with
  | none => exact within_pure
  | some g =>
      exact within_bind (opening_of_looked hR (looked_inodeOpen t n)) (fun a =>
        opening_fileOpened hR t g a flag)

theorem opening_fileClose (hR : Opening R) (t g : Nat) : Within R (fileClose t g) := by
  refine within_bind (opening_of_quiet hR (quiet_fdInodeOf g)) (fun a => ?_)
  refine within_bind (opening_of_quiet hR (quiet_inodeAt t a)) (fun _ => ?_)
  refine within_bind (within_modify (fun s => hR.inode s a _ rfl)) (fun _ => ?_)
  refine within_bind (opening_of_looked hR (looked_inodeClose t a)) (fun _ => ?_)
  exact within_bind (within_modify (fun s => hR.file s g _)) (fun _ => within_pure)

theorem opening_sysClose (hR : Opening R) (t : Nat) (fd : Int) : Within R (sysClose t fd) := by
  refine within_ite ?_ within_pure
  refine within_bind (within_read_bind (fun _ => within_check_bind within_pure)) (fun g => ?_)
  refine within_bind (opening_fileClose hR t g) (fun _ => ?_)
  exact within_bind (within_modify (fun s => hR.fd s t _ _)) (fun _ => within_pure)

theorem opening_fileCreated (hR : Opening R) (hS : Storing R) (t : Nat) (d : Dir) (n a g : Nat) :
    Within R (fileCreated t d n a g) := by
  refine within_bind (opening_of_quiet hR (quiet_inodeAt t _)) (fun _ => ?_)
  refine within_bind (storing_inodeSync hS.any _ _) (fun _ => ?_)
  refine within_bind (opening_of_quiet hR (quiet_inodeAt t _)) (fun _ => ?_)
  refine within_bind (storing_inodeSync hS.any _ _) (fun _ => ?_)
  refine within_bind (storing_bitmapSync hS.any _ _) (fun _ => ?_)
  refine within_bind (within_modify (fun s => hR.openInodes s _)) (fun _ => ?_)
  exact within_bind (within_modify (fun s => hR.inode s a _ rfl)) (fun _ =>
    opening_pcbFdInstall hR t g)

theorem opening_fileCreateEntry (hR : Opening R) {t n : Nat} (hM : Making t n R) (d : Dir)
    (name : Str) (flag a g : Nat) : Within R (fileCreateEntry t d name flag n a g) := by
  refine within_bind (within_modify (fun s => hR.file s g _)) (fun _ => ?_)
  refine within_bind (opening_of_quiet hR (quiet_createDirEntry _ _ _)) (fun _ => ?_)
  refine within_bind (storing_syncDirEntry hM.storing _ _ _) (fun _ => ?_)
  refine within_ite (opening_fileCreated hR hM.storing t d n a g) ?_
  refine within_bind (within_modify (fun s => hR.file s g _)) (fun _ => ?_)
  refine within_bind (within_modify (fun s => hR.free s a)) (fun _ => ?_)
  exact within_bind (within_modify hM.number) (fun _ => within_pure)

theorem opening_fileCreateInode (hR : Opening R) {t n : Nat} (hM : Making t n R) (d : Dir)
    (name : Str) (flag : Nat) : Within R (fileCreateInode t d name flag n) := by
  refine within_bind (opening_of_quiet hR quiet_malloc) (fun _ => within_ite ?_ ?_)
  · -- The number of the new inode is set after it is allocated, so the two go together.
    intro s r s' hr
    rcases run_bind_ok.mp hr with ⟨hm, s₀, h₀, k₀⟩
    rcases read_ok h₀ with ⟨rfl, rfl⟩
    rcases run_bind_ok.mp k₀ with ⟨a, s₁, h₁, k₁⟩
    rcases newInode_run h₁ with ⟨rfl, hs₁⟩
    rcases run_bind_ok.mp k₁ with ⟨_, s₂, h₂, k₂⟩
    have hmade : R s₀ s₂ := by
      rw [setInodeAt_run h₂, hs₁]
      exact hM.new s₀ _
    refine IsTrans.trans _ _ _ hmade (within_read_bind (fun g => ?_) s₂ r s' k₂)
    cases g with
    | some g => exact opening_fileCreateEntry hR hM d name flag _ g
    | none =>
        exact within_bind (within_modify (fun s => hR.free s _)) (fun _ =>
          within_bind (within_modify hM.number) (fun _ => within_pure))
  · exact within_bind (within_modify hM.number) (fun _ => within_pure)

theorem opening_fileCreate (hR : Opening R) {t : Nat} (hM : ∀ n, Making t n R)
    (halloc : Within R inodeBitmapAlloc) (d : Dir) (name : Str) (flag : Nat) :
    Within R (fileCreate t d name flag) := by
  refine within_bind (opening_of_quiet hR quiet_malloc) (fun _ => within_ite ?_ within_pure)
  refine within_bind halloc (fun n => ?_)
  cases n with
  | none => exact within_pure
  | some n => exact opening_fileCreateInode hR (hM n) d name flag

end Opening

theorem opening_kept : Opening Kept := by
  refine ⟨fun s s' h => ?_, fun s g f => ?_, fun s t k g => ?_, fun s a i h => ?_,
    fun s l => ?_, fun s a => ?_⟩
  · exact ⟨h.isUser, h.next, fun a ha => (h.old a ha).iNo, h.home⟩
  · exact ⟨rfl, Nat.le_refl _, fun _ _ => rfl, fun _ _ => Or.inl rfl⟩
  · exact ⟨rfl, Nat.le_refl _, fun _ _ => rfl, fun _ _ => Or.inl rfl⟩
  · refine ⟨rfl, Nat.le_refl _, fun b _ => ?_, fun _ _ => Or.inl rfl⟩
    show (Function.update s.inode a _ b).iNo = _
    by_cases hb : b = a
    · rw [hb, Function.update_self, h]
    · rw [Function.update_of_ne hb]
  · exact ⟨rfl, Nat.le_refl _, fun _ _ => rfl, fun _ _ => Or.inl rfl⟩
  · refine ⟨rfl, Nat.le_refl _, fun _ _ => rfl, fun b _ => ?_⟩
    show Function.update s.home a Home.freed b = _ ∨ Function.update s.home a Home.freed b = _
    by_cases hb : b = a
    · right
      rw [hb, Function.update_self]
    · left
      rw [Function.update_of_ne hb]

theorem Stored.kept {s s' : Fs} (h : Stored s s') : Kept s s' :=
  ⟨h.isUser, Nat.le_of_eq h.nextInode.symm, fun a _ => h.iNo a,
    fun a _ => Or.inl (congrFun h.home a)⟩

theorem making_kept (t n : Nat) : Making t n Kept := by
  refine ⟨storing_stored.mono (fun _ _ => Stored.kept), fun s i => ?_, fun s => ?_⟩
  · refine ⟨rfl, Nat.le_succ _, fun b hb => ?_, fun b hb =>
      Or.inl (Function.update_of_ne (Nat.ne_of_lt hb) _ _)⟩
    show (Function.update s.inode s.nextInode i b).iNo = _
    rw [Function.update_of_ne (Nat.ne_of_lt hb)]
  · exact ⟨rfl, Nat.le_refl _, fun _ _ => rfl, fun _ _ => Or.inl rfl⟩

theorem freeSlotFrom_first (ft : Nat → File) :
    FirstFrom (fun g => (ft g).fdInode = none) (freeSlotFrom ft) :=
  ⟨fun _ => rfl, fun _ _ h => if_pos h, fun _ _ h => if_neg h⟩

theorem freeFdFrom_first (ft : Nat → Int) : FirstFrom (fun j => ft j = -1) (freeFdFrom ft) :=
  ⟨fun _ => rfl, fun _ _ h => if_pos h, fun _ _ h => if_neg h⟩

variable {c : Nat → Nat} {s s' : Fs} {t : Nat}

/-- `pcb_fd_install` sets one free descriptor, or none. -/
theorem pcbFdInstall_run {g : Nat} {r : Int} (h : (pcbFdInstall t g).run s = .ok (r, s')) :
    (r = -1 ∧ s' = s) ∨ ∃ k : Nat, r = k ∧ 3 ≤ k ∧ k < maxFilesOpenPerProc ∧ s.fdTable t k = -1 ∧
      s' = s.setFd t k g := by
  rcases run_bind_ok.mp h with ⟨fd, s₁, h₁, k₁⟩
  rcases read_ok h₁ with ⟨hfd, rfl⟩
  cases fd with
  | none =>
      rcases pure_ok k₁ with ⟨rfl, rfl⟩
      exact Or.inl ⟨rfl, rfl⟩
  | some k =>
      rcases run_bind_ok.mp k₁ with ⟨_, s₂, h₂, k₂⟩
      rcases pure_ok k₂ with ⟨rfl, rfl⟩
      rcases (freeFdFrom_first _).of_some hfd.symm with ⟨h1, h2, h3⟩
      have hmax : maxFilesOpenPerProc = 8 := rfl
      exact Or.inr ⟨k, rfl, h1, by omega, h3, modify_ok h₂⟩

/-- What a call of task `t` that opens a file may do, where `e` are the new
    holders. -/
structure Opens (c e : Nat → Nat) (t : Nat) (s : Fs) (r : Int) (s' : Fs) : Prop where
  ledger : Ledger (fun b => c b + e b) s'
  one : ∀ b, e b ≤ 1
  refs : ∀ b, slotRefs s' b = slotRefs s b + e b
  slots : ∀ g a, (s.fileTable g).fdInode = some a → (s'.fileTable g).fdInode = some a
  fd : (r = -1 ∧ s'.fdTable = s.fdTable) ∨
    ∃ k g a : Nat, r = k ∧ 3 ≤ k ∧ k < maxFilesOpenPerProc ∧ s.fdTable t k = -1 ∧
      s'.fdTable = (s.setFd t k g).fdTable ∧ g < maxFileOpen ∧
      (s'.fileTable g).fdInode = some a ∧ s'.Sees t a ∧ 0 < e a

/-- A call that fails and has opened nothing. -/
theorem opens_nothing (h : Ledger c s') (hslots : ∀ g, (s'.fileTable g).fdInode
      = (s.fileTable g).fdInode) (hfd : s'.fdTable = s.fdTable) :
    Opens c (fun _ => 0) t s (-1) s' := by
  refine ⟨h, fun _ => Nat.zero_le _, fun b => ?_, fun g a hg => ?_, Or.inl ⟨rfl, hfd⟩⟩
  · rw [slotRefs, slotRefs]
    simp only [hslots, Nat.add_zero]
  · rw [hslots g]
    exact hg

/-- The one new holder of `a`. -/
def oneMore (a : Nat) : Nat → Nat := fun b => if b = a then 1 else 0

theorem bump_eq (c : Nat → Nat) (a : Nat) : bump c a = fun b => c b + oneMore a b := by
  funext b
  unfold oneMore
  by_cases h : b = a
  · rw [h, bump_self, if_pos rfl]
  · rw [bump_of_ne h, if_neg h, Nat.add_zero]

theorem oneMore_le (a b : Nat) : oneMore a b ≤ 1 := by
  unfold oneMore
  split <;> omega

/-- A slot that was free holds `a`, and no descriptor has changed. -/
structure Filled (c : Nat → Nat) (t g a : Nat) (s s' : Fs) : Prop where
  ledger : Ledger (bump c a) s'
  lt : g < maxFileOpen
  free : (s.fileTable g).fdInode = none
  slot : (s'.fileTable g).fdInode = some a
  rest : ∀ x, x ≠ g → s'.fileTable x = s.fileTable x
  fdTable : s'.fdTable = s.fdTable
  sees : s'.Sees t a

theorem Filled.opens_fail {g a : Nat} (h : Filled c t g a s s') :
    Opens c (oneMore a) t s (-1) s' := by
  refine ⟨bump_eq c a ▸ h.ledger, oneMore_le a, fun b => ?_, fun x b hx => ?_,
    Or.inl ⟨rfl, h.fdTable⟩⟩
  · have hset := slotRefs_changed h.lt h.rest b
    rw [h.free, if_neg (by simp only [reduceCtorEq, not_false_eq_true]), h.slot] at hset
    unfold oneMore
    by_cases hb : b = a
    · rw [if_pos (congrArg some hb.symm)] at hset
      rw [if_pos hb]
      omega
    · rw [if_neg (fun hc => hb (Option.some.inj hc).symm)] at hset
      rw [if_neg hb]
      omega
  · have hne : x ≠ g := by
      rintro rfl
      rw [h.free] at hx
      cases hx
    rw [h.rest x hne]
    exact hx

/-- `pcb_fd_install` of a slot that has been filled. -/
theorem Filled.opens {g a : Nat} {s₁ : Fs} (h : Filled c t g a s s₁) {r : Int}
    (hr : (pcbFdInstall t g).run s₁ = .ok (r, s')) : Opens c (oneMore a) t s r s' := by
  have hf := h.opens_fail
  rcases pcbFdInstall_run hr with ⟨rfl, rfl⟩ | ⟨k, rfl, h3, h8, hfree, rfl⟩
  · exact hf
  · refine ⟨hf.ledger.congr rfl (Nat.le_refl _) (fun _ _ => rfl) (fun _ _ => rfl), hf.one, hf.refs,
      hf.slots, Or.inr ⟨k, g, a, rfl, h3, h8, ?_, ?_, h.lt, h.slot, h.sees, ?_⟩⟩
    · rw [← h.fdTable]
      exact hfree
    · unfold Fs.setFd
      dsimp only
      rw [h.fdTable]
    · unfold oneMore
      rw [if_pos rfl]
      exact Nat.one_pos

/-- `file_open`. -/
theorem fileOpen_opens {n flag : Nat} {r : Int} (h : Ledger c s) (hroom : ∀ b, c b + 1 < 2 ^ 32)
    (hr : (fileOpen t n flag).run s = .ok (r, s')) : ∃ e, Opens c e t s r s' := by
  rcases run_bind_ok.mp hr with ⟨g, s₁, h₁, k₁⟩
  rcases read_ok h₁ with ⟨hg, rfl⟩
  cases g with
  | none =>
      rcases pure_ok k₁ with ⟨rfl, rfl⟩
      exact ⟨_, opens_nothing h (fun _ => rfl) rfl⟩
  | some g =>
      rcases (freeSlotFrom_first _).of_some hg.symm with ⟨-, hlt, hfree⟩
      rcases run_bind_ok.mp k₁ with ⟨a, s₂, h₂, k₂⟩
      rcases inodeOpen_ledger h hroom h₂ with ⟨hl, hsees⟩
      have hlook := looked_inodeOpen _ _ _ _ _ h₂
      rcases run_bind_ok.mp k₂ with ⟨_, s₃, h₃, k₃⟩
      have hs₃ := modify_ok h₃
      -- The slot is filled, whether the call fails later or not.
      have hfill : Filled c t g a s₁ s₃ := by
        rw [hs₃]
        refine ⟨hl.congr rfl (Nat.le_refl _) (fun _ _ => rfl) (fun _ _ => rfl), hlt, hfree, ?_, ?_,
          hlook.fdTable, hsees⟩
        · rw [setFile_self]
        · intro x hx
          rw [setFile_of_ne _ hx, hlook.fileTable]
      refine ⟨oneMore a, ?_⟩
      by_cases hw : flag = oWronly ∨ flag = oRdwr
      · rw [if_pos hw] at k₃
        rcases run_bind_ok.mp k₃ with ⟨i, s₄, h₄, k₄⟩
        rcases inodeAt_run h₄ with ⟨-, rfl, rfl⟩
        -- A writer that finds another one is refused, with its slot left filled.
        by_cases hdeny : (s₄.inode a).writeDeny = true
        · rw [if_pos hdeny] at k₄
          rcases pure_ok k₄ with ⟨rfl, rfl⟩
          exact hfill.opens_fail
        · rw [if_neg hdeny] at k₄
          rcases run_bind_ok.mp k₄ with ⟨_, s₅, h₅, k₅⟩
          refine Filled.opens ?_ k₅
          rw [setInodeAt_run h₅]
          refine ⟨hfill.ledger.congr rfl (Nat.le_refl _) (fun _ _ => rfl) (fun b _ => ?_), hlt,
            hfree, hfill.slot, hfill.rest, hfill.fdTable, hfill.sees⟩
          show (Function.update s₄.inode a _ b).iOpenCnts = _
          by_cases hb : b = a
          · rw [hb, Function.update_self]
          · rw [Function.update_of_ne hb]
      · rw [if_neg hw] at k₃
        exact hfill.opens k₃

/-- A slot that was free points to an inode that is not on the list yet. -/
structure Reserved (c : Nat → Nat) (t g a : Nat) (s s' : Fs) : Prop where
  ledger : Ledger c s'
  new : a ∉ s'.part.openInodes
  there : s'.home a ≠ .freed ∧ a < s'.nextInode
  sees : s'.Sees t a
  lt : g < maxFileOpen
  free : (s.fileTable g).fdInode = none
  slot : (s'.fileTable g).fdInode = some a
  rest : ∀ x, x ≠ g → s'.fileTable x = s.fileTable x
  fdTable : s'.fdTable = s.fdTable

theorem Reserved.stored {g a : Nat} {s₁ : Fs} (h : Reserved c t g a s s₁) (hs : Stored s₁ s') :
    Reserved c t g a s s' := by
  refine ⟨h.ledger.stored hs, ?_, ?_, ?_, h.lt, h.free, ?_, ?_, hs.fdTable.trans h.fdTable⟩
  · rw [hs.openInodes]
    exact h.new
  · rw [hs.home, hs.nextInode]
    exact h.there
  · rw [Fs.Sees, hs.home]
    exact h.sees
  · rw [hs.fileTable]
    exact h.slot
  · rw [hs.fileTable]
    exact h.rest

/-- The end of `file_create`: the new inode gets on the list. -/
theorem fileCreated_opens {d : Dir} {n a g : Nat} {s₁ : Fs} {r : Int}
    (h : Reserved c t g a s s₁) (hr : (fileCreated t d n a g).run s₁ = .ok (r, s')) :
    Opens c (oneMore a) t s r s' := by
  rcases run_bind_ok.mp hr with ⟨i, s₂, h₂, k₂⟩
  rcases inodeAt_run h₂ with ⟨-, -, rfl⟩
  rcases run_bind_ok.mp k₂ with ⟨_, s₃, h₃, k₃⟩
  rcases run_bind_ok.mp k₃ with ⟨j, s₄, h₄, k₄⟩
  rcases inodeAt_run h₄ with ⟨-, -, rfl⟩
  rcases run_bind_ok.mp k₄ with ⟨_, s₅, h₅, k₅⟩
  rcases run_bind_ok.mp k₅ with ⟨_, s₆, h₆, k₆⟩
  have h₆ := ((h.stored (stored_inodeSync _ _ _ _ _ h₃)).stored
    (stored_inodeSync _ _ _ _ _ h₅)).stored (stored_bitmapSync _ _ _ _ _ h₆)
  rcases run_bind_ok.mp k₆ with ⟨_, s₇, h₇, k₇⟩
  have hs₇ := modify_ok h₇
  rcases run_bind_ok.mp k₇ with ⟨_, s₈, h₈, k₈⟩
  refine Filled.opens ?_ k₈
  rw [setInodeAt_run h₈, hs₇]
  have hne : ∀ b, b ∈ s₆.part.openInodes → b ≠ a := fun b hb hc => h₆.new (hc ▸ hb)
  refine ⟨h₆.ledger.push h₆.new rfl (Nat.le_refl _) h₆.there ?_ (fun _ _ => rfl) (fun b hb => ?_),
    h₆.lt, h₆.free, h₆.slot, h₆.rest, h₆.fdTable, h₆.sees⟩
  · show (Function.update s₆.inode a _ a).iOpenCnts = 1
    rw [Function.update_self]
  · show (Function.update s₆.inode a _ b).iOpenCnts = _
    rw [Function.update_of_ne (hne b hb)]

/-- Freeing an inode that is not on the list. -/
theorem Ledger.free (h : Ledger c s) {a : Nat} (ha : a ∉ s.part.openInodes) :
    Ledger c (s.setHome a .freed) := by
  have hne : ∀ b, b ∈ s.part.openInodes → b ≠ a := fun b hb hc => ha (hc ▸ hb)
  exact h.congr rfl (Nat.le_refl _) (fun b hb => Function.update_of_ne (hne b hb) _ _)
    (fun _ _ => rfl)

theorem fileCreateEntry_opens {d : Dir} {name : Str} {flag n a g : Nat} {s₁ : Fs} {r : Int}
    (hl : Ledger c s₁) (hnew : a ∉ s₁.part.openInodes)
    (hthere : s₁.home a ≠ .freed ∧ a < s₁.nextInode) (hsees : s₁.Sees t a)
    (hg : freeSlotFrom s₁.fileTable (maxFileOpen - 3) 3 = some g)
    (hft : s₁.fileTable = s.fileTable) (hfd : s₁.fdTable = s.fdTable)
    (hr : (fileCreateEntry t d name flag n a g).run s₁ = .ok (r, s')) :
    ∃ e, Opens c e t s r s' := by
  rcases (freeSlotFrom_first _).of_some hg with ⟨-, hlt, hfree⟩
  rcases run_bind_ok.mp hr with ⟨_, s₂, h₂, k₂⟩
  have hs₂ := modify_ok h₂
  -- The slot has the inode, which is on the list only at the end.
  have hres : Reserved c t g a s s₂ := by
    rw [hs₂]
    refine ⟨hl.congr rfl (Nat.le_refl _) (fun _ _ => rfl) (fun _ _ => rfl), hnew, hthere, hsees,
      hlt, ?_, ?_, ?_, hfd⟩
    · rw [← hft]
      exact hfree
    · rw [setFile_self]
    · intro x hx
      rw [setFile_of_ne _ hx, hft]
  rcases run_bind_ok.mp k₂ with ⟨en, s₃, h₃, k₃⟩
  rcases run_bind_ok.mp k₃ with ⟨done, s₄, h₄, k₄⟩
  have h₄ := (hres.stored (stored_of_quiet (quiet_createDirEntry _ _ _) _ _ _ h₃)).stored
    (stored_syncDirEntry _ _ _ _ _ _ h₄)
  by_cases hd : done = true
  · rw [if_pos hd] at k₄
    exact ⟨_, fileCreated_opens h₄ k₄⟩
  · rw [if_neg hd] at k₄
    rcases run_bind_ok.mp k₄ with ⟨_, s₅, h₅, k₅⟩
    rcases run_bind_ok.mp k₅ with ⟨_, s₆, h₆, k₆⟩
    rcases run_bind_ok.mp k₆ with ⟨_, s₇, h₇, k₇⟩
    rcases pure_ok k₇ with ⟨rfl, rfl⟩
    have hs₆ := modify_ok h₆
    rw [modify_ok h₅] at hs₆
    -- The way back: the inode is freed, the slot cleared, and the bit given back.
    have hst := stored_setInodeBitmap _ _ _ h₇
    refine ⟨_, opens_nothing (Ledger.stored ?_ hst) ?_ ?_⟩
    · rw [hs₆]
      exact (Ledger.free h₄.ledger h₄.new).congr rfl (Nat.le_refl _) (fun _ _ => rfl)
        (fun _ _ => rfl)
    · intro x
      rw [hst.fileTable, hs₆]
      show ((s₄.setFile g _).fileTable x).fdInode = _
      by_cases hx : x = g
      · rw [hx, setFile_self, h₄.free]
      · rw [setFile_of_ne _ hx, h₄.rest x hx]
    · rw [hst.fdTable, hs₆]
      exact h₄.fdTable

theorem fileCreateInode_opens {d : Dir} {name : Str} {flag n : Nat} {s₁ : Fs} {r : Int}
    (hl : Ledger c s₁) (hft : s₁.fileTable = s.fileTable) (hfd : s₁.fdTable = s.fdTable)
    (hr : (fileCreateInode t d name flag n).run s₁ = .ok (r, s')) : ∃ e, Opens c e t s r s' := by
  rcases run_bind_ok.mp hr with ⟨ok, s₂, h₂, k₂⟩
  have hq : s₂ = _ := quiet_malloc _ _ _ h₂
  have hl₂ := hl.quiet (quiet_malloc _ _ _ h₂)
  have hft₂ : s₂.fileTable = s.fileTable := by rw [hq]; exact hft
  have hfd₂ : s₂.fdTable = s.fdTable := by rw [hq]; exact hfd
  by_cases hok : ok = true
  · rw [if_pos hok] at k₂
    rcases run_bind_ok.mp k₂ with ⟨hm, s₃, h₃, k₃⟩
    rcases read_ok h₃ with ⟨rfl, rfl⟩
    rcases run_bind_ok.mp k₃ with ⟨a, s₄, h₄, k₄⟩
    rcases newInode_run h₄ with ⟨ha, hs₄⟩
    rcases run_bind_ok.mp k₄ with ⟨_, s₅, h₅, k₅⟩
    have hs₅ := setInodeAt_run h₅
    have hnew : a ∉ s₃.part.openInodes := hl₂.not_listed (Nat.le_of_eq ha.symm)
    -- The address is a new one, so the inodes on the list stay what they were.
    have hne : ∀ b, b ∈ s₃.part.openInodes → b ≠ a := fun b hb hc => hnew (hc ▸ hb)
    have hl₅ : Ledger c s₅ := by
      rw [hs₅, hs₄]
      refine hl₂.congr rfl ?_ (fun b hb => Function.update_of_ne (hne b hb) _ _) (fun b hb => ?_)
      · show s₃.nextInode ≤ a + 1
        omega
      · show (Function.update s₃.inode a _ b).iOpenCnts = _
        rw [Function.update_of_ne (hne b hb)]
    have hopen₅ : s₅.part.openInodes = s₃.part.openInodes := by rw [hs₅, hs₄]; rfl
    have hhome : s₅.home a = callerHome s₃ t := by
      rw [hs₅, hs₄]
      exact Function.update_self _ _ _
    have hnext : s₅.nextInode = a + 1 := by rw [hs₅, hs₄]; rfl
    have hft₅ : s₅.fileTable = s.fileTable := by rw [hs₅, hs₄]; exact hft₂
    have hfd₅ : s₅.fdTable = s.fdTable := by rw [hs₅, hs₄]; exact hfd₂
    rcases run_bind_ok.mp k₅ with ⟨g, s₆, h₆, k₆⟩
    rcases read_ok h₆ with ⟨hg, rfl⟩
    cases g with
    | some g =>
        refine fileCreateEntry_opens hl₅ (hopen₅ ▸ hnew) ⟨?_, by omega⟩ ?_ hg.symm hft₅ hfd₅ k₆
        · rw [hhome, callerHome]
          split <;> simp only [ne_eq, reduceCtorEq, not_false_eq_true]
        · rw [Fs.Sees, hhome, callerHome]
          split
          · exact Or.inr rfl
          · exact Or.inl rfl
    | none =>
        rcases run_bind_ok.mp k₆ with ⟨_, s₇, h₇, k₇⟩
        rcases run_bind_ok.mp k₇ with ⟨_, s₈, h₈, k₈⟩
        rcases pure_ok k₈ with ⟨rfl, rfl⟩
        have hs₇ := modify_ok h₇
        have hst := stored_setInodeBitmap _ _ _ h₈
        refine ⟨_, opens_nothing (Ledger.stored ?_ hst) ?_ ?_⟩
        · rw [hs₇]
          exact Ledger.free hl₅ (hopen₅ ▸ hnew)
        · intro x
          rw [hst.fileTable, hs₇, ← hft₅]
          rfl
        · rw [hst.fdTable, hs₇, ← hfd₅]
          rfl
  · rw [if_neg hok] at k₂
    rcases run_bind_ok.mp k₂ with ⟨_, s₃, h₃, k₃⟩
    rcases pure_ok k₃ with ⟨rfl, rfl⟩
    -- There was no memory for the inode, and the bit is given back.
    have hst := stored_setInodeBitmap _ _ _ h₃
    refine ⟨_, opens_nothing (hl₂.stored hst) (fun x => ?_) (hst.fdTable.trans hfd₂)⟩
    rw [hst.fileTable, hft₂]

/-- `file_create`. -/
theorem fileCreate_opens {d : Dir} {name : Str} {flag : Nat} {r : Int} (h : Ledger c s)
    (hr : (fileCreate t d name flag).run s = .ok (r, s')) : ∃ e, Opens c e t s r s' := by
  rcases run_bind_ok.mp hr with ⟨ok, s₁, h₁, k₁⟩
  have hst := stored_of_quiet quiet_malloc _ _ _ h₁
  by_cases hok : ok = true
  · rw [if_pos hok] at k₁
    rcases run_bind_ok.mp k₁ with ⟨n, s₂, h₂, k₂⟩
    have hst₂ := IsTrans.trans _ _ _ hst (stored_inodeBitmapAlloc _ _ _ h₂)
    cases n with
    | some n => exact fileCreateInode_opens (h.stored hst₂) hst₂.fileTable hst₂.fdTable k₂
    | none =>
        rcases pure_ok k₂ with ⟨rfl, rfl⟩
        exact ⟨_, opens_nothing (h.stored hst₂) (fun x => by rw [hst₂.fileTable]) hst₂.fdTable⟩
  · rw [if_neg hok] at k₁
    rcases pure_ok k₁ with ⟨rfl, rfl⟩
    exact ⟨_, opens_nothing (h.stored hst) (fun x => by rw [hst.fileTable]) hst.fdTable⟩

theorem holdDir_add (c e : Nat → Nat) (d : Dir) :
    (fun b => holdDir c d b + e b) = holdDir (fun b => c b + e b) d := by
  funext b
  unfold holdDir
  split
  · rfl
  · by_cases hb : b = d.inode
    · rw [hb, bump_self, bump_self]
      omega
    · rw [bump_of_ne hb, bump_of_ne hb]

/-- What happens before a call opens a file does not count. -/
theorem Opens.after {e : Nat → Nat} {s₁ : Fs} {r : Int} (h : Opens c e t s₁ r s')
    (hl : Looked s s₁) : Opens c e t s r s' := by
  refine ⟨h.ledger, h.one, fun b => ?_, ?_, ?_⟩
  · rw [← slotRefs_congr hl.fileTable b]
    exact h.refs b
  · rw [← hl.fileTable]
    exact h.slots
  · rcases h.fd with ⟨hr, hfd⟩ | ⟨k, g, a, hr, h3, h8, hfree, hfd, hrest⟩
    · exact Or.inl ⟨hr, hfd.trans hl.fdTable⟩
    · refine Or.inr ⟨k, g, a, hr, h3, h8, ?_, ?_, hrest⟩
      · rw [← hl.fdTable]
        exact hfree
      · rw [hfd, Fs.setFd, Fs.setFd, hl.fdTable]

/-- A directory that was held is closed at the end. -/
theorem Opens.close {d : Dir} {e : Nat → Nat} {s₁ : Fs} {r : Int} {u : Unit}
    (h : Opens (holdDir c d) e t s r s₁) (hroom : ∀ b, c b + 2 < 2 ^ 32)
    (hr : (dirClose t d).run s₁ = .ok (u, s')) : Opens c e t s r s' := by
  have hl := looked_dirClose _ _ _ _ _ hr
  have hled : Ledger (fun b => c b + e b) s' := by
    refine dirClose_ledger ?_ (fun b => ?_) hr
    · rw [← holdDir_add]
      exact h.ledger
    · have := h.one b
      have := hroom b
      omega
  refine ⟨hled, h.one, fun b => ?_, ?_, ?_⟩
  · rw [slotRefs_congr hl.fileTable b]
    exact h.refs b
  · rw [hl.fileTable]
    exact h.slots
  · rcases h.fd with ⟨hr, hfd⟩ | ⟨k, g, a, hr, h3, h8, hfree, hfd, hlt, hslot, hsees, he⟩
    · exact Or.inl ⟨hr, hl.fdTable.trans hfd⟩
    · refine Or.inr ⟨k, g, a, hr, h3, h8, hfree, hl.fdTable.trans hfd, hlt, ?_, ?_, he⟩
      · rw [hl.fileTable]
        exact hslot
      · -- The slot still holds the inode, so the close has not freed it.
        have hlisted := (hled.listed a).mpr (by omega)
        have hbefore := (h.ledger.listed a).mpr (by omega)
        rcases hl.home a (h.ledger.there a hbefore).2 with heq | hfreed
        · rw [Fs.Sees, heq]
          exact hsees
        · exact absurd hfreed (hled.there a hlisted).1

/-- The path leads to a file that is there, and `sys_open` would open it. -/
def Finds (t : Nat) (pathname : Str) (s : Fs) (n : Nat) (r : PathSearchRecord) : Prop :=
  ∃ s', (openPath t pathname).run s = .ok ((n, r, true), s') ∧ r.fileType ≠ .directory ∧
    n ≠ minusOne

/-- A call that opens nothing: it has followed a path and closed the directory
    at its end. -/
def OpensNothing (s s' : Fs) : Prop :=
  Looked s s' ∧ ∀ c : Nat → Nat, (∀ b, c b + 1 < 2 ^ 32) → Ledger c s → Ledger c s'

/-- `sys_open` gives up: at once, or once it has followed the path and closed
    the directory at its end. -/
def Declines (t : Nat) (p : Str) (s s' : Fs) : Prop :=
  s' = s ∨ ∃ s₁ s₂ s₃ n rec u, Quiet s s₁ ∧ (searchFile t p).run s₁ = .ok ((n, rec), s₂) ∧
    Quiet s₂ s₃ ∧ (dirClose t rec.parentDir).run s₃ = .ok (u, s')

theorem Declines.opensNothing {p : Str} (h : Declines t p s s') : OpensNothing s s' := by
  rcases h with rfl | ⟨s₁, s₂, s₃, n, rec, u, hq, hsearch, hq', hclose⟩
  · exact ⟨refl _, fun _ _ hl => hl⟩
  · have hlook := IsTrans.trans _ _ _ hq.looked (looked_searchFile _ _ _ _ _ hsearch)
    refine ⟨IsTrans.trans _ _ _ hlook (IsTrans.trans _ _ _ hq'.looked
      (looked_dirClose _ _ _ _ _ hclose)), fun c hroom hl => ?_⟩
    have hled : Ledger (holdDir c rec.parentDir) s₂ := searchFile_ledger (hl.quiet hq) hroom hsearch
    exact dirClose_ledger (hled.quiet hq') hroom hclose

/-- Giving up is a look around. -/
theorem Declines.looking {p : Str} {R : Fs → Fs → Prop} [IsPreorder Fs R] (hR : Looking R)
    (h : Declines t p s s') : R s s' := by
  rcases h with rfl | ⟨s₁, s₂, s₃, n, rec, u, hq, hsearch, hq', hclose⟩
  · exact refl _
  · have hto := IsTrans.trans _ _ _ (hR.quiet _ _ hq) (looking_searchFile hR _ _ _ _ _ hsearch)
    exact IsTrans.trans _ _ _ hto (IsTrans.trans _ _ _ (hR.quiet _ _ hq')
      (looking_dirClose hR _ _ _ _ _ hclose))

/-- What `sys_open` can do: nothing, open the file at the end of the path, or
    create it. -/
theorem sysOpen_steps {p : Str} {flags : Nat} {r : Int}
    (hr : (sysOpen t p flags).run s = .ok (r, s')) :
    (r = -1 ∧ Declines t p s s') ∨
    (∃ n rec s₁, (openPath t p).run s = .ok ((n, rec, true), s₁) ∧ rec.fileType ≠ .directory ∧
      n ≠ minusOne ∧ flags &&& oCreat = 0 ∧ (fileOpen t n flags).run s₁ = .ok (r, s')) ∨
    (∃ rec s₁ s₂ u, (openPath t p).run s = .ok ((minusOne, rec, true), s₁) ∧
      rec.fileType ≠ .directory ∧ flags &&& oCreat ≠ 0 ∧
      (fileCreate t rec.parentDir (baseName p) flags).run s₁ = .ok (r, s₂) ∧
      (dirClose t rec.parentDir).run s₂ = .ok (u, s')) := by
  rcases run_bind_ok.mp hr with ⟨_, s₁, h₁, k₁⟩
  rcases check_ok h₁ with ⟨-, rfl⟩
  by_cases hslash : p.getLast? = some slash
  · rw [if_pos hslash] at k₁
    rcases pure_ok k₁ with ⟨rfl, rfl⟩
    exact Or.inl ⟨rfl, Or.inl rfl⟩
  rw [if_neg hslash] at k₁
  rcases run_bind_ok.mp k₁ with ⟨_, s₂, h₂, k₂⟩
  rcases assert_run h₂ with ⟨-, rfl⟩
  rcases run_bind_ok.mp k₂ with ⟨depth, s₃, h₃, k₃⟩
  have hq₃ := quiet_pathDepthCnt _ _ _ _ h₃
  rcases run_bind_ok.mp k₃ with ⟨⟨n, rec⟩, s₄, h₄, k₄⟩
  -- Every way out that opens nothing closes the directory.
  have hquit : ∀ {s₅ s₆ : Fs} {u : Unit}, Quiet s₄ s₅ →
      (dirClose t rec.parentDir).run s₅ = .ok (u, s₆) → Declines t p s₂ s₆ :=
    fun hq₅ hclose => Or.inr ⟨s₃, s₄, _, n, rec, _, hq₃, h₄, hq₅, hclose⟩
  dsimp only at k₄
  by_cases hdir : rec.fileType = .directory
  · rw [if_pos hdir] at k₄
    rcases run_bind_ok.mp k₄ with ⟨_, s₅, h₅, k₅⟩
    rcases pure_ok k₅ with ⟨rfl, rfl⟩
    exact Or.inl ⟨rfl, hquit (refl _) h₅⟩
  rw [if_neg hdir] at k₄
  rcases run_bind_ok.mp k₄ with ⟨depth', s₅, h₅, k₅⟩
  have hq₅ := quiet_pathDepthCnt _ _ _ _ h₅
  by_cases hdepth : depth ≠ depth'
  · rw [if_pos hdepth] at k₅
    rcases run_bind_ok.mp k₅ with ⟨_, s₆, h₆, k₆⟩
    rcases pure_ok k₆ with ⟨rfl, rfl⟩
    exact Or.inl ⟨rfl, hquit hq₅ h₆⟩
  rw [if_neg hdepth] at k₅
  have hpath : (openPath t p).run s₂ = .ok ((n, rec, true), s₅) := by
    refine run_bind_ok.mpr ⟨depth, s₃, h₃, run_bind_ok.mpr ⟨(n, rec), s₄, h₄,
      run_bind_ok.mpr ⟨depth', s₅, h₅, ?_⟩⟩⟩
    rw [run_pure, decide_eq_true (not_not.mp hdepth)]
  unfold openSearched at k₅
  by_cases hmiss : n = minusOne ∧ flags &&& oCreat = 0
  · rw [if_pos hmiss] at k₅
    rcases run_bind_ok.mp k₅ with ⟨_, s₆, h₆, k₆⟩
    rcases pure_ok k₆ with ⟨rfl, rfl⟩
    exact Or.inl ⟨rfl, hquit hq₅ h₆⟩
  rw [if_neg hmiss] at k₅
  by_cases hthere : n ≠ minusOne ∧ flags &&& oCreat ≠ 0
  · rw [if_pos hthere] at k₅
    rcases run_bind_ok.mp k₅ with ⟨_, s₆, h₆, k₆⟩
    rcases pure_ok k₆ with ⟨rfl, rfl⟩
    exact Or.inl ⟨rfl, hquit hq₅ h₆⟩
  rw [if_neg hthere] at k₅
  by_cases hcreat : flags &&& oCreat ≠ 0
  · rw [if_pos hcreat] at k₅
    rcases run_bind_ok.mp k₅ with ⟨fd, s₆, h₆, k₆⟩
    rcases run_bind_ok.mp k₆ with ⟨u, s₇, h₇, k₇⟩
    rcases pure_ok k₇ with ⟨rfl, rfl⟩
    have hn : n = minusOne := not_not.mp (fun hc => hthere ⟨hc, hcreat⟩)
    rw [hn] at hpath
    exact Or.inr (Or.inr ⟨rec, s₅, s₆, u, hpath, hdir, hcreat, h₆, h₇⟩)
  · rw [if_neg hcreat] at k₅
    have hflags : flags &&& oCreat = 0 := not_not.mp hcreat
    exact Or.inr (Or.inl ⟨n, rec, s₅, hpath, hdir, fun hc => hmiss ⟨hc, hflags⟩, hflags, k₅⟩)

/-- The same with what giving up leaves behind. -/
theorem sysOpen_cases {p : Str} {flags : Nat} {r : Int}
    (hr : (sysOpen t p flags).run s = .ok (r, s')) :
    (r = -1 ∧ OpensNothing s s') ∨
    (∃ n rec s₁, (openPath t p).run s = .ok ((n, rec, true), s₁) ∧ rec.fileType ≠ .directory ∧
      n ≠ minusOne ∧ flags &&& oCreat = 0 ∧ (fileOpen t n flags).run s₁ = .ok (r, s')) ∨
    (∃ rec s₁ s₂ u, (openPath t p).run s = .ok ((minusOne, rec, true), s₁) ∧
      rec.fileType ≠ .directory ∧ flags &&& oCreat ≠ 0 ∧
      (fileCreate t rec.parentDir (baseName p) flags).run s₁ = .ok (r, s₂) ∧
      (dirClose t rec.parentDir).run s₂ = .ok (u, s')) :=
  (sysOpen_steps hr).imp_left (fun h => ⟨h.1, h.2.opensNothing⟩)

theorem looked_openPath (t : Nat) (p : Str) : Within Looked (openPath t p) :=
  within_bind (looked_of_quiet (quiet_pathDepthCnt p)) (fun _ => within_bind
    (looked_searchFile t p) (fun _ => within_bind (looked_of_quiet (quiet_pathDepthCnt _))
      (fun _ => within_pure)))

theorem openPath_ledger {p : Str} {x : Nat × PathSearchRecord × Bool} (h : Ledger c s)
    (hroom : ∀ b, c b + 1 < 2 ^ 32) (hr : (openPath t p).run s = .ok (x, s')) :
    Ledger (holdDir c x.2.1.parentDir) s' := by
  rcases run_bind_ok.mp hr with ⟨depth, s₁, h₁, k₁⟩
  rcases run_bind_ok.mp k₁ with ⟨⟨n, rec⟩, s₂, h₂, k₂⟩
  rcases run_bind_ok.mp k₂ with ⟨depth', s₃, h₃, k₃⟩
  rcases pure_ok k₃ with ⟨rfl, rfl⟩
  exact (searchFile_ledger (h.quiet (quiet_pathDepthCnt _ _ _ _ h₁)) hroom h₂).quiet
    (quiet_pathDepthCnt _ _ _ _ h₃)

theorem kept_sysOpen (t : Nat) (p : Str) (flags : Nat) : Within Kept (sysOpen t p flags) := by
  intro s r s' hr
  rcases sysOpen_cases hr with ⟨-, hlook, -⟩ | ⟨n, rec, s₁, hpath, -, -, -, hopen⟩ |
    ⟨rec, s₁, s₂, u, hpath, -, -, hcreate, hclose⟩
  · exact opening_kept.looked _ _ hlook
  · exact IsTrans.trans _ _ _ (opening_kept.looked _ _ (looked_openPath _ _ _ _ _ hpath))
      (opening_fileOpen opening_kept _ _ _ _ _ _ hopen)
  · exact IsTrans.trans _ _ _ (opening_kept.looked _ _ (looked_openPath _ _ _ _ _ hpath))
      (IsTrans.trans _ _ _ (opening_fileCreate opening_kept (making_kept t)
        (within_mono stored_inodeBitmapAlloc (fun _ _ => Stored.kept)) _ _ _ _ _ _ hcreate)
        (opening_kept.looked _ _ (looked_dirClose _ _ _ _ _ hclose)))

/-- `sys_open`. A file that is opened and not created leaves the directory it
    lies in open. -/
theorem sysOpen_opens {p : Str} {flags : Nat} {r : Int} (h : Ledger c s)
    (hroom : ∀ b, c b + 2 < 2 ^ 32) (hr : (sysOpen t p flags).run s = .ok (r, s')) :
    ∃ d e, Opens (holdDir c d) e t s r s' ∧
      (d.isRoot = true ∨ ∃ n rec, Finds t p s n rec ∧ flags &&& oCreat = 0 ∧ rec.parentDir = d) := by
  have hroom₁ : ∀ b, c b + 1 < 2 ^ 32 := fun b => by have := hroom b; omega
  have hnone : ∀ {e : Nat → Nat} {x : Int}, Opens c e t s x s' →
      Opens (holdDir c ⟨0, true⟩) e t s x s' := fun ho => ho
  rcases sysOpen_cases hr with ⟨rfl, hlook, hled⟩ | ⟨n, rec, s₁, hpath, hdir, hn, hflags, hopen⟩ |
    ⟨rec, s₁, s₂, u, hpath, hdir, hflags, hcreate, hclose⟩
  · exact ⟨_, _, hnone (opens_nothing (hled c hroom₁ h) (fun g => by rw [hlook.fileTable])
      hlook.fdTable), Or.inl rfl⟩
  · have hled : Ledger (holdDir c rec.parentDir) s₁ := openPath_ledger h hroom₁ hpath
    rcases fileOpen_opens hled (fun b => by
      have := holdDir_le c rec.parentDir b
      have := hroom b
      omega) hopen with ⟨e, ho⟩
    exact ⟨_, e, ho.after (looked_openPath _ _ _ _ _ hpath),
      Or.inr ⟨n, rec, ⟨s₁, hpath, hdir, hn⟩, hflags, rfl⟩⟩
  · rcases fileCreate_opens (openPath_ledger h hroom₁ hpath) hcreate with ⟨e, ho⟩
    exact ⟨_, e, hnone ((ho.after (looked_openPath _ _ _ _ _ hpath)).close hroom hclose), Or.inl rfl⟩

/-- What closing a descriptor does: the slot it refers to holds its inode no
    more. -/
structure Closes (c : Nat → Nat) (t k g a : Nat) (s s' : Fs) : Prop where
  ledger : Ledger (drop c a) s'
  fd : s.fdTable t k = g
  lt : g < maxFileOpen
  slot : (s.fileTable g).fdInode = some a
  free : (s'.fileTable g).fdInode = none
  rest : ∀ x, x ≠ g → s'.fileTable x = s.fileTable x
  fdTable : s'.fdTable = (s.setFd t k (-1)).fdTable

/-- The slot is one holder of its inode less. -/
theorem Closes.slotRefs_eq {k g a : Nat} (h : Closes c t k g a s s') (b : Nat) :
    slotRefs s b = slotRefs s' b + oneMore a b := by
  have hset := slotRefs_changed h.lt h.rest b
  rw [h.slot, h.free, if_neg (show ¬ none = some b by simp only [reduceCtorEq, not_false_eq_true])]
    at hset
  unfold oneMore
  by_cases hba : b = a
  · rw [if_pos (congrArg some hba.symm)] at hset
    rw [if_pos hba]
    omega
  · rw [if_neg (fun hc => hba (Option.some.inj hc).symm)] at hset
    rw [if_neg hba]
    omega

theorem Closes.refs {k g a : Nat} (h : Closes c t k g a s s') (hrefs : ∀ b, slotRefs s b ≤ c b)
    (b : Nat) : slotRefs s' b ≤ drop c a b := by
  have heq := h.slotRefs_eq b
  have hb := hrefs b
  unfold oneMore at heq
  by_cases hba : b = a
  · rw [if_pos hba] at heq
    rw [hba] at heq hb ⊢
    rw [drop_self]
    omega
  · rw [if_neg hba] at heq
    rw [drop_of_ne hba]
    omega

/-- What `file_close` does, step by step. -/
theorem fileClose_steps {g : Nat} {r : Int} (hr : (fileClose t g).run s = .ok (r, s')) :
    ∃ a s₁, (s.fileTable g).fdInode = some a ∧
      (inodeClose t a).run (s.setInode a { s.inode a with writeDeny := false }) = .ok ((), s₁) ∧
      s' = s₁.setFile g { s₁.fileTable g with fdInode := none } := by
  rcases run_bind_ok.mp hr with ⟨a, s₁, h₁, k₁⟩
  rcases run_bind_ok.mp h₁ with ⟨p, s₂, h₂, k₂⟩
  rcases read_ok h₂ with ⟨hp, rfl⟩
  cases p with
  | none => cases k₂
  | some b =>
      rcases pure_ok k₂ with ⟨rfl, rfl⟩
      rcases run_bind_ok.mp k₁ with ⟨i, s₃, h₃, k₃⟩
      rcases inodeAt_run h₃ with ⟨-, -, rfl⟩
      rcases run_bind_ok.mp k₃ with ⟨_, s₄, h₄, k₄⟩
      rcases run_bind_ok.mp k₄ with ⟨_, s₅, h₅, k₅⟩
      rcases run_bind_ok.mp k₅ with ⟨_, s₆, h₆, k₆⟩
      rcases pure_ok k₆ with ⟨-, rfl⟩
      rw [setInodeAt_run h₄] at h₅
      exact ⟨a, s₅, hp.symm, h₅, modify_ok h₆⟩

/-- `file_close` frees its slot and leaves the others alone. -/
theorem fileClose_slot {g a : Nat} {i : Inode} {u : Unit} {s₁ : Fs}
    (h : (inodeClose t a).run (s.setInode a i) = .ok (u, s₁))
    (hs : s' = s₁.setFile g { s₁.fileTable g with fdInode := none }) :
    (s'.fileTable g).fdInode = none ∧ (∀ x, x ≠ g → s'.fileTable x = s.fileTable x) ∧
      s'.fdTable = s.fdTable := by
  have hlook := looked_inodeClose _ _ _ _ _ h
  rw [hs]
  refine ⟨?_, ?_, hlook.fdTable⟩
  · rw [setFile_self]
  · intro x hx
    rw [setFile_of_ne _ hx, hlook.fileTable]
    rfl

/-- `file_close` lets go of the inode. -/
theorem fileClose_run {g : Nat} {r : Int} (h : Ledger c s) (hroom : ∀ b, c b < 2 ^ 32)
    (hrefs : ∀ b, slotRefs s b ≤ c b) (hg : g < maxFileOpen)
    (hr : (fileClose t g).run s = .ok (r, s')) :
    ∃ a, (s.fileTable g).fdInode = some a ∧ Ledger (drop c a) s' ∧
      (s'.fileTable g).fdInode = none ∧ (∀ x, x ≠ g → s'.fileTable x = s.fileTable x) ∧
      s'.fdTable = s.fdTable := by
  rcases fileClose_steps hr with ⟨a, s₁, hslot, hclose, hs'⟩
  have hl : Ledger c (s.setInode a { s.inode a with writeDeny := false }) := by
    refine h.congr rfl (Nat.le_refl _) (fun _ _ => rfl) (fun b _ => ?_)
    show (Function.update s.inode a _ b).iOpenCnts = _
    by_cases hb : b = a
    · rw [hb, Function.update_self]
    · rw [Function.update_of_ne hb]
  have hheld : 0 < c a := Nat.lt_of_lt_of_le (slotRefs_pos hg hslot) (hrefs a)
  have hl₁ := inodeClose_ledger hl (hroom a) hheld hclose
  refine ⟨a, hslot, ?_, fileClose_slot hclose hs'⟩
  rw [hs']
  exact hl₁.congr rfl (Nat.le_refl _) (fun _ _ => rfl) (fun _ _ => rfl)

/-- `sys_close` closes the file in the slot a descriptor refers to, and sets
    the descriptor to `-1`. -/
theorem sysClose_steps {fd r : Int} (hr : (sysClose t fd).run s = .ok (r, s')) :
    (fd ≤ 2 ∧ s' = s) ∨ (2 < fd ∧ ∃ (g : Nat) (s₁ : Fs), s.fdTable t fd.toNat = g ∧
      g < maxFileOpen ∧ (fileClose t g).run s = .ok (r, s₁) ∧ s' = s₁.setFd t fd.toNat (-1)) := by
  unfold sysClose at hr
  by_cases hfd : 2 < fd
  · rw [if_pos hfd] at hr
    rcases run_bind_ok.mp hr with ⟨g, s₁, h₁, k₁⟩
    rcases run_bind_ok.mp h₁ with ⟨gl, s₂, h₂, k₂⟩
    rcases read_ok h₂ with ⟨rfl, rfl⟩
    rcases run_bind_ok.mp k₂ with ⟨_, s₃, h₃, k₃⟩
    rcases assert_run h₃ with ⟨hrange, rfl⟩
    rcases pure_ok k₃ with ⟨rfl, rfl⟩
    rcases run_bind_ok.mp k₁ with ⟨ret, s₄, h₄, k₄⟩
    rcases run_bind_ok.mp k₄ with ⟨_, s₅, h₅, k₅⟩
    rcases pure_ok k₅ with ⟨rfl, rfl⟩
    exact Or.inr ⟨hfd, _, s₄, by omega, by omega, h₄, modify_ok h₅⟩
  · rw [if_neg hfd] at hr
    rcases pure_ok hr with ⟨-, rfl⟩
    exact Or.inl ⟨by omega, rfl⟩

/-- `sys_close` closes the file a descriptor refers to. -/
theorem sysClose_run {fd : Int} {r : Int} (h : Ledger c s) (hroom : ∀ b, c b < 2 ^ 32)
    (hrefs : ∀ b, slotRefs s b ≤ c b) (hr : (sysClose t fd).run s = .ok (r, s')) :
    (fd ≤ 2 ∧ s' = s) ∨ (2 < fd ∧ ∃ g a, Closes c t fd.toNat g a s s') := by
  rcases sysClose_steps hr with hnone | ⟨hfd, g, s₁, hg, hlt, hclose, hs'⟩
  · exact Or.inl hnone
  · rcases fileClose_run h hroom hrefs hlt hclose with ⟨a, hslot, hl, hfree, hrest, hfds⟩
    rw [hs']
    refine Or.inr ⟨hfd, g, a, hl.congr rfl (Nat.le_refl _) (fun _ _ => rfl) (fun _ _ => rfl), hg,
      hlt, hslot, hfree, hrest, ?_⟩
    rw [Fs.setFd, Fs.setFd, hfds]

end ForikOS
