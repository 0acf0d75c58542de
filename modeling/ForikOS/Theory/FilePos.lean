import ForikOS.Theory.Writers

/-!
# Positions in Files

A slot of `file_table` has a position, and the inode it points to has a size.
`file_read` takes their difference without a test, so the position must not
pass the size. Three calls move the position and each has its own idea of it:
reading adds what was read, seeking stops one byte before the end, and writing
starts from one byte before the end and adds what was written. Sizes only
grow, so a slot that is left alone keeps what it has.

Writing is where it goes wrong. One byte before the end of an empty file is
`2 ^ 32 - 1`, and a write of no bytes leaves it there. With that one call
excluded the position never passes the size, and `file_read` never subtracts
the larger from the smaller.

`sys_open` makes a new slot at position zero. It also makes the directory
grow that it puts the file in, and the size of a directory is of no interest
here as long as the directory is not open as a file.

## Main definitions

* `PosInv`: No position is past the size of its file.
* `Opened`: What opening and closing files does to sizes and slots.
* `Sized`: Nothing has changed in sizes and slots.
* `SlotIn`, `StaysIn`: The position of a slot is in its file, and moves there.
* `emptyWrite`: A write of no bytes to an empty file.
* `RegularCall`: A call on regular files.

## Theorems

* `sysOpen_pos`, `sysClose_pos`, `sysRead_pos`, `sysLseek_pos`,
  `sysWrite_pos`: What each call does.
* `position_in_file`: No position passes the size in every run without such a
  write.
* `empty_write_past_end`: A run with one.
-/

namespace ForikOS

open Prog

/-- The inodes of the open list and of the slots are there, and no slot has a
    position past the size of its file. -/
structure PosInv (s : Fs) : Prop where
  listed : ∀ a, a ∈ s.part.openInodes → a < s.nextInode
  slots : ∀ g a, g < maxFileOpen → (s.fileTable g).fdInode = some a →
    a < s.nextInode ∧ (s.fileTable g).fdPos ≤ (s.inode a).iSize

/-- Files have been opened and closed: the inodes in `A` keep their sizes, and
    a slot that is not the same starts at zero. -/
structure Opened (A : Nat → Prop) (s s' : Fs) : Prop where
  next : s.nextInode ≤ s'.nextInode
  size : ∀ a, a < s.nextInode → A a → (s'.inode a).iSize = (s.inode a).iSize
  listed : ∀ a, a ∈ s'.part.openInodes → a ∈ s.part.openInodes ∨ a < s'.nextInode
  slots : ∀ g, s'.fileTable g = s.fileTable g ∨ ∀ a, (s'.fileTable g).fdInode = some a →
    (s'.fileTable g).fdPos = 0 ∧ (a ∈ s.part.openInodes ∨ a < s'.nextInode)

instance (A : Nat → Prop) : IsPreorder Fs (Opened A) where
  refl _ := ⟨Nat.le_refl _, fun _ _ _ => rfl, fun _ h => Or.inl h, fun _ => Or.inl rfl⟩
  trans := by
    intro s₁ s₂ s₃ h h'
    refine ⟨Nat.le_trans h.next h'.next, ?_, ?_, ?_⟩
    · intro a ha hA
      exact (h'.size a (Nat.lt_of_lt_of_le ha h.next) hA).trans (h.size a ha hA)
    · intro a ha
      rcases h'.listed a ha with hold | hlt
      · exact (h.listed a hold).imp_right (fun hc => Nat.lt_of_lt_of_le hc h'.next)
      · exact Or.inr hlt
    · intro g
      rcases h'.slots g with hsame | hnew
      · rw [hsame]
        refine (h.slots g).imp_right (fun hc a ha => ⟨(hc a ha).1, ?_⟩)
        exact (hc a ha).2.imp_right (fun hlt => Nat.lt_of_lt_of_le hlt h'.next)
      · refine Or.inr (fun a ha => ⟨(hnew a ha).1, ?_⟩)
        rcases (hnew a ha).2 with hl | hlt
        · exact (h.listed a hl).imp_right (fun hc => Nat.lt_of_lt_of_le hc h'.next)
        · exact Or.inr hlt

/-- Opening and closing keeps the positions, if the open files keep their
    sizes. -/
theorem PosInv.opened {A : Nat → Prop} {s s' : Fs} (h : PosInv s) (ho : Opened A s s')
    (hA : ∀ g a, g < maxFileOpen → (s.fileTable g).fdInode = some a → A a) : PosInv s' := by
  refine ⟨?_, ?_⟩
  · intro a ha
    rcases ho.listed a ha with hold | hlt
    · exact Nat.lt_of_lt_of_le (h.listed a hold) ho.next
    · exact hlt
  · intro g a hg ha
    rcases ho.slots g with hsame | hnew
    · rw [hsame] at ha ⊢
      have hslot := h.slots g a hg ha
      rw [ho.size a hslot.1 (hA g a hg ha)]
      exact ⟨Nat.lt_of_lt_of_le hslot.1 ho.next, hslot.2⟩
    · rw [(hnew a ha).1]
      refine ⟨?_, Nat.zero_le _⟩
      rcases (hnew a ha).2 with hl | hlt
      · exact Nat.lt_of_lt_of_le (h.listed a hl) ho.next
      · exact hlt

section Opened

variable {A : Nat → Prop} {s s' : Fs} {t : Nat}

theorem Quiet.opened (h : Quiet s s') : Opened A s s' := by
  unfold Quiet at h
  rw [h]
  exact ⟨Nat.le_refl _, fun _ _ _ => rfl, fun _ h => Or.inl h, fun _ => Or.inl rfl⟩

/-- A look that leaves the list of open inodes alone, or shortens it. -/
theorem Looked.opened (h : Looked s s')
    (hl : ∀ a, a ∈ s'.part.openInodes → a ∈ s.part.openInodes ∨ a < s'.nextInode) :
    Opened A s s' :=
  ⟨h.next, fun a ha _ => (h.old a ha).iSize, hl, fun g => Or.inl (by rw [h.fileTable])⟩

theorem opened_inodeOpen (t n : Nat) : Within (Opened A) (inodeOpen t n) := by
  intro s a s' h
  refine (looked_inodeOpen _ _ _ _ _ h).opened ?_
  rcases run_bind_ok.mp h with ⟨l, s₁, h₁, k₁⟩
  rcases read_ok h₁ with ⟨rfl, rfl⟩
  rcases run_bind_ok.mp k₁ with ⟨found, s₂, h₂, k₂⟩
  rcases findOpenInode_run h₂ with ⟨rfl, hf⟩
  cases found with
  | some b =>
      rcases run_bind_ok.mp k₂ with ⟨_, s₃, h₃, k₃⟩
      rcases pure_ok k₃ with ⟨rfl, rfl⟩
      rw [setInodeAt_run h₃]
      exact fun b hb => Or.inl hb
  | none =>
      rcases inodeFetch_run k₂ with ⟨-, -, i, -, -, hq⟩
      unfold Quiet at hq
      rw [hq]
      intro b hb
      rcases List.mem_cons.mp hb with rfl | hb
      · exact Or.inr (Nat.lt_succ_self _)
      · exact Or.inl hb

theorem opened_inodeClose (t a : Nat) : Within (Opened A) (inodeClose t a) := by
  intro s u s' h
  refine (looked_inodeClose _ _ _ _ _ h).opened ?_
  rcases run_bind_ok.mp h with ⟨i, s₁, h₁, k₁⟩
  rcases inodeAt_run h₁ with ⟨-, -, rfl⟩
  rcases run_bind_ok.mp k₁ with ⟨_, s₂, h₂, k₂⟩
  have hs₂ : s₂.part.openInodes = s₁.part.openInodes := by
    rw [setInodeAt_run h₂]
    rfl
  intro b hb
  left
  rw [← hs₂]
  split at k₂
  · rcases run_bind_ok.mp k₂ with ⟨l, s₃, h₃, k₃⟩
    rcases read_ok h₃ with ⟨rfl, rfl⟩
    rcases run_bind_ok.mp k₃ with ⟨_, s₄, h₄, k₄⟩
    rcases check_ok h₄ with ⟨-, rfl⟩
    rcases run_bind_ok.mp k₄ with ⟨m, s₅, h₅, k₅⟩
    rcases read_ok h₅ with ⟨rfl, rfl⟩
    rcases run_bind_ok.mp k₅ with ⟨_, s₆, h₆, k₆⟩
    rcases check_ok h₆ with ⟨-, rfl⟩
    rw [modify_ok k₆] at hb
    exact List.mem_of_mem_erase hb
  · rcases pure_ok k₂ with ⟨-, rfl⟩
    exact hb

theorem looking_opened : Looking (Opened A) :=
  ⟨fun _ _ => Quiet.opened, opened_inodeOpen, opened_inodeClose⟩

theorem opened_openPath (t : Nat) (p : Str) : Within (Opened A) (openPath t p) :=
  within_bind (looking_of_quiet looking_opened (quiet_pathDepthCnt p)) (fun _ => within_bind
    (looking_searchFile looking_opened t p) (fun _ => within_bind
      (looking_of_quiet looking_opened (quiet_pathDepthCnt _)) (fun _ => within_pure)))

/-- A change of an inode that keeps its size, or that of one not in `A`. -/
theorem opened_setInode {a : Nat} {i : Inode} (h : A a → i.iSize = (s.inode a).iSize) :
    Opened A s (s.setInode a i) := by
  refine ⟨Nat.le_refl _, ?_, fun _ h => Or.inl h, fun _ => Or.inl rfl⟩
  intro b _ hb
  show (Function.update s.inode a i b).iSize = _
  by_cases hba : b = a
  · rw [hba, Function.update_self]
    exact h (hba ▸ hb)
  · rw [Function.update_of_ne hba]

theorem storing_opened : StoringBy (fun a i j => A a → j.iSize = i.iSize) (Opened A) := by
  refine ⟨fun _ _ => Quiet.opened, fun _ _ _ _ => ?_, fun _ _ => ?_, fun s a i h => opened_setInode h⟩
  · exact ⟨Nat.le_refl _, fun _ _ _ => rfl, fun _ h => Or.inl h, fun _ => Or.inl rfl⟩
  · exact ⟨Nat.le_refl _, fun _ _ _ => rfl, fun _ h => Or.inl h, fun _ => Or.inl rfl⟩

/-- A slot is filled with an inode that is there, at position zero. -/
theorem opened_setFile {g a flag : Nat} (ha : a ∈ s.part.openInodes ∨ a < s.nextInode) :
    Opened A s (s.setFile g ⟨0, flag, some a⟩) := by
  refine ⟨Nat.le_refl _, fun _ _ _ => rfl, fun _ h => Or.inl h, ?_⟩
  intro x
  by_cases hx : x = g
  · right
    intro b hb
    rw [hx, setFile_self] at hb ⊢
    rw [← Option.some.inj hb]
    exact ⟨rfl, ha⟩
  · exact Or.inl (setFile_of_ne _ hx _)

/-- A slot is cleared. -/
theorem opened_clearFile {g : Nat} {f : File} (hf : f.fdInode = none) :
    Opened A s (s.setFile g f) := by
  refine ⟨Nat.le_refl _, fun _ _ _ => rfl, fun _ h => Or.inl h, ?_⟩
  intro x
  by_cases hx : x = g
  · right
    intro b hb
    rw [hx, setFile_self, hf] at hb
    cases hb
  · exact Or.inl (setFile_of_ne _ hx _)

theorem opened_pcbFdInstall (t g : Nat) : Within (Opened A) (pcbFdInstall t g) := by
  intro s r s' h
  rcases pcbFdInstall_run h with ⟨-, rfl⟩ | ⟨k, -, -, -, -, rfl⟩
  · exact refl _
  · exact ⟨Nat.le_refl _, fun _ _ _ => rfl, fun _ h => Or.inl h, fun _ => Or.inl rfl⟩

/-- The inode that `inode_open` returns is in the list. -/
theorem inodeOpen_listed {n a : Nat} (h : (inodeOpen t n).run s = .ok (a, s')) :
    a ∈ s'.part.openInodes := by
  rcases run_bind_ok.mp h with ⟨l, s₁, h₁, k₁⟩
  rcases read_ok h₁ with ⟨rfl, rfl⟩
  rcases run_bind_ok.mp k₁ with ⟨found, s₂, h₂, k₂⟩
  rcases findOpenInode_run h₂ with ⟨rfl, hf⟩
  cases found with
  | some b =>
      rcases run_bind_ok.mp k₂ with ⟨_, s₃, h₃, k₃⟩
      rcases pure_ok k₃ with ⟨rfl, rfl⟩
      rw [setInodeAt_run h₃]
      exact hf.1
  | none =>
      rcases inodeFetch_run k₂ with ⟨-, -, i, -, -, hq⟩
      unfold Quiet at hq
      rw [hq]
      exact List.mem_cons_self

theorem opened_fileOpen (t n flag : Nat) : Within (Opened A) (fileOpen t n flag) := by
  intro s r s' h
  rcases run_bind_ok.mp h with ⟨g, s₁, h₁, k₁⟩
  rcases read_ok h₁ with ⟨-, rfl⟩
  cases g with
  | none =>
      rcases pure_ok k₁ with ⟨-, rfl⟩
      exact refl _
  | some g =>
      rcases run_bind_ok.mp k₁ with ⟨a, s₂, h₂, k₂⟩
      rcases run_bind_ok.mp k₂ with ⟨_, s₃, h₃, k₃⟩
      refine IsTrans.trans _ _ _ (opened_inodeOpen t n _ _ _ h₂) ?_
      refine IsTrans.trans _ s₃ _ ?_ ?_
      · rw [modify_ok h₃]
        exact opened_setFile (Or.inl (inodeOpen_listed h₂))
      · refine within_ite ?_ (opened_pcbFdInstall t g) _ _ _ k₃
        refine within_bind (looking_of_quiet looking_opened (quiet_inodeAt t a)) (fun i =>
          within_ite within_pure (within_bind ?_ (fun _ => opened_pcbFdInstall t g)))
        exact within_modify (fun s => opened_setInode (fun _ => rfl))

/-- `file_create` once the entry is on the disk: the new inode goes into the
    list. -/
theorem opened_fileCreated {d : Dir} {n a g : Nat} {r : Int} (ha : a < s.nextInode)
    (h : (fileCreated t d n a g).run s = .ok (r, s')) : Opened A s s' := by
  rcases run_bind_ok.mp h with ⟨i, s₁, h₁, k₁⟩
  rcases inodeAt_run h₁ with ⟨-, -, rfl⟩
  rcases run_bind_ok.mp k₁ with ⟨_, s₂, h₂, k₂⟩
  rcases run_bind_ok.mp k₂ with ⟨j, s₃, h₃, k₃⟩
  rcases inodeAt_run h₃ with ⟨-, -, rfl⟩
  rcases run_bind_ok.mp k₃ with ⟨_, s₄, h₄, k₄⟩
  rcases run_bind_ok.mp k₄ with ⟨_, s₅, h₅, k₅⟩
  rcases run_bind_ok.mp k₅ with ⟨_, s₆, h₆, k₆⟩
  rcases run_bind_ok.mp k₆ with ⟨_, s₇, h₇, k₇⟩
  have ho₅ : Opened A s₁ s₅ := IsTrans.trans _ _ _ (storing_inodeSync storing_opened _ _ _ _ _ h₂)
    (IsTrans.trans _ _ _ (storing_inodeSync storing_opened _ _ _ _ _ h₄)
      (storing_bitmapSync storing_opened _ _ _ _ _ h₅))
  have ho₆ : Opened A s₅ s₆ := by
    rw [modify_ok h₆]
    refine ⟨Nat.le_refl _, fun _ _ _ => rfl, ?_, fun _ => Or.inl rfl⟩
    intro b hb
    rcases List.mem_cons.mp hb with rfl | hb
    · exact Or.inr (Nat.lt_of_lt_of_le ha ho₅.next)
    · exact Or.inl hb
  have ho₇ : Opened A s₆ s₇ := by
    rw [setInodeAt_run h₇]
    exact opened_setInode (fun _ => rfl)
  exact IsTrans.trans _ _ _ ho₅ (IsTrans.trans _ _ _ ho₆ (IsTrans.trans _ _ _ ho₇
    (opened_pcbFdInstall t g _ _ _ k₇)))

/-- `file_create` once the file has an inode and a slot. The directory grows,
    so its inode must not be one of those that keep their sizes. -/
theorem opened_fileCreateEntry {d : Dir} {name : Str} {flag n a g : Nat} {r : Int}
    (hd : ¬ A d.inode) (ha : a < s.nextInode)
    (h : (fileCreateEntry t d name flag n a g).run s = .ok (r, s')) : Opened A s s' := by
  rcases run_bind_ok.mp h with ⟨_, s₁, h₁, k₁⟩
  have ho₁ : Opened A s s₁ := by
    rw [modify_ok h₁]
    exact opened_setFile (Or.inr ha)
  rcases run_bind_ok.mp k₁ with ⟨e, s₂, h₂, k₂⟩
  rcases run_bind_ok.mp k₂ with ⟨done, s₃, h₃, k₃⟩
  have hgrows : Grows (fun a i j => A a → Inode.iSize j = Inode.iSize i) d.inode :=
    ⟨fun _ _ _ _ => rfl, fun _ _ hA => absurd hA hd⟩
  have ho₃ : Opened A s s₃ := IsTrans.trans _ _ _ ho₁ (IsTrans.trans _ _ _
    (quiet_createDirEntry _ _ _ _ _ _ h₂).opened
    (storing_putDirEntry storing_opened t d hgrows e _ _ _ h₃))
  refine IsTrans.trans _ _ _ ho₃ ?_
  by_cases hdone : done = true
  · rw [if_pos hdone] at k₃
    exact opened_fileCreated (Nat.lt_of_lt_of_le ha ho₃.next) k₃
  · rw [if_neg hdone] at k₃
    rcases run_bind_ok.mp k₃ with ⟨_, s₄, h₄, k₄⟩
    rcases run_bind_ok.mp k₄ with ⟨_, s₅, h₅, k₅⟩
    rcases run_bind_ok.mp k₅ with ⟨_, s₆, h₆, k₆⟩
    rcases pure_ok k₆ with ⟨-, rfl⟩
    rw [modify_ok h₆, modify_ok h₅]
    have ho₄ : Opened A s₃ s₄ := by
      rw [modify_ok h₄]
      exact opened_clearFile rfl
    exact ⟨ho₄.next, ho₄.size, ho₄.listed, ho₄.slots⟩

theorem opened_fileCreateInode {d : Dir} {name : Str} {flag n : Nat} {r : Int} (hd : ¬ A d.inode)
    (h : (fileCreateInode t d name flag n).run s = .ok (r, s')) : Opened A s s' := by
  rcases run_bind_ok.mp h with ⟨ok, s₁, h₁, k₁⟩
  refine IsTrans.trans _ _ _ (quiet_malloc _ _ _ h₁).opened ?_
  by_cases hok : ok = true
  · rw [if_pos hok] at k₁
    rcases run_bind_ok.mp k₁ with ⟨hm, s₂, h₂, k₂⟩
    rcases read_ok h₂ with ⟨rfl, rfl⟩
    rcases run_bind_ok.mp k₂ with ⟨a, s₃, h₃, k₃⟩
    rcases newInode_run h₃ with ⟨ha, hs₃⟩
    rcases run_bind_ok.mp k₃ with ⟨_, s₄, h₄, k₄⟩
    -- The new inode has a new address, so no inode that was there has changed.
    have ho₄ : Opened A s₂ s₄ := by
      rw [setInodeAt_run h₄, hs₃]
      refine ⟨?_, ?_, fun _ h => Or.inl h, fun _ => Or.inl rfl⟩
      · show s₂.nextInode ≤ a + 1
        omega
      · intro b hb _
        show (Function.update s₂.inode a _ b).iSize = _
        rw [Function.update_of_ne (by omega)]
    have ha₄ : a < s₄.nextInode := by
      rw [setInodeAt_run h₄, hs₃]
      exact Nat.lt_succ_self a
    refine IsTrans.trans _ _ _ ho₄ ?_
    rcases run_bind_ok.mp k₄ with ⟨g, s₅, h₅, k₅⟩
    rcases read_ok h₅ with ⟨-, rfl⟩
    cases g with
    -- No slot of the file table is left, and the inode is given back.
    | none =>
        rcases run_bind_ok.mp k₅ with ⟨_, s₆, h₆, k₆⟩
        rcases run_bind_ok.mp k₆ with ⟨_, s₇, h₇, k₇⟩
        rcases pure_ok k₇ with ⟨-, rfl⟩
        rw [modify_ok h₇, modify_ok h₆]
        exact ⟨Nat.le_refl _, fun _ _ _ => rfl, fun _ h => Or.inl h, fun _ => Or.inl rfl⟩
    | some g => exact opened_fileCreateEntry hd ha₄ k₅
  · rw [if_neg hok] at k₁
    rcases run_bind_ok.mp k₁ with ⟨_, s₂, h₂, k₂⟩
    rcases pure_ok k₂ with ⟨-, rfl⟩
    rw [modify_ok h₂]
    exact ⟨Nat.le_refl _, fun _ _ _ => rfl, fun _ h => Or.inl h, fun _ => Or.inl rfl⟩

theorem opened_fileCreate {d : Dir} {name : Str} {flag : Nat} {r : Int} (hd : ¬ A d.inode)
    (h : (fileCreate t d name flag).run s = .ok (r, s')) : Opened A s s' := by
  rcases run_bind_ok.mp h with ⟨ok, s₁, h₁, k₁⟩
  refine IsTrans.trans _ _ _ (quiet_malloc _ _ _ h₁).opened ?_
  by_cases hok : ok = true
  · rw [if_pos hok] at k₁
    rcases run_bind_ok.mp k₁ with ⟨n, s₂, h₂, k₂⟩
    rcases inodeBitmapAlloc_run h₂ with ⟨n, rfl, -, hs₂⟩
    have ho₂ : Opened A s₁ s₂ := by
      rw [hs₂]
      exact ⟨Nat.le_refl _, fun _ _ _ => rfl, fun _ h => Or.inl h, fun _ => Or.inl rfl⟩
    exact IsTrans.trans _ _ _ ho₂ (opened_fileCreateInode hd k₂)
  · rw [if_neg hok] at k₁
    rcases pure_ok k₁ with ⟨-, rfl⟩
    exact refl _

/-- `sys_open`. Only the directory in which a file is created may change its
    size. -/
theorem sysOpen_pos {p : Str} {flags : Nat} {r : Int} (hinv : PosInv s)
    (hdir : flags &&& oCreat ≠ 0 → ∀ x s₁, (openPath t p).run s = .ok (x, s₁) →
      ∀ g, g < maxFileOpen → (s.fileTable g).fdInode ≠ some x.2.1.parentDir.inode)
    (h : (sysOpen t p flags).run s = .ok (r, s')) : PosInv s' := by
  rcases sysOpen_steps h with ⟨-, hdecl⟩ | ⟨n, rec, s₁, hpath, -, -, -, hopen⟩ |
    ⟨rec, s₁, s₂, u, hpath, -, hflags, hcreate, hclose⟩
  · exact hinv.opened (A := fun _ => True) (hdecl.looking looking_opened) (fun _ _ _ _ => trivial)
  · refine hinv.opened (A := fun _ => True) ?_ (fun _ _ _ _ => trivial)
    exact IsTrans.trans _ _ _ (opened_openPath t p _ _ _ hpath) (opened_fileOpen t n flags _ _ _ hopen)
  · refine hinv.opened (A := fun b => b ≠ rec.parentDir.inode) ?_ ?_
    · have hd : ¬ (fun b => b ≠ rec.parentDir.inode) rec.parentDir.inode := fun hc => hc rfl
      exact IsTrans.trans _ _ _ (opened_openPath t p _ _ _ hpath) (IsTrans.trans _ _ _
        (opened_fileCreate hd hcreate) (looking_dirClose looking_opened t _ _ _ _ hclose))
    · intro g a hg ha hc
      exact hdir hflags _ _ hpath g hg (ha.trans (congrArg some hc))

theorem sysClose_pos {fd r : Int} (hinv : PosInv s)
    (h : (sysClose t fd).run s = .ok (r, s')) : PosInv s' := by
  refine hinv.opened (A := fun _ => True) ?_ (fun _ _ _ _ => trivial)
  rcases sysClose_steps h with ⟨-, rfl⟩ | ⟨-, g, s₁, -, -, hclose, rfl⟩
  · exact refl _
  · rcases fileClose_steps hclose with ⟨a, s₂, -, hcl, rfl⟩
    have ho : Opened (fun _ => True) s s₂ := by
      refine IsTrans.trans _ _ _ ?_ (opened_inodeClose t a _ _ _ hcl)
      exact opened_setInode (fun _ => rfl)
    have ho' : Opened (fun _ => True) s (s₂.setFile g { s₂.fileTable g with fdInode := none }) :=
      IsTrans.trans _ _ _ ho (opened_clearFile rfl)
    exact ⟨ho'.next, ho'.size, ho'.listed, ho'.slots⟩

end Opened

/-- Nothing has changed in sizes and slots. -/
structure Sized (s s' : Fs) : Prop where
  fileTable : s'.fileTable = s.fileTable
  size : ∀ a, (s'.inode a).iSize = (s.inode a).iSize

instance : IsPreorder Fs Sized where
  refl _ := ⟨rfl, fun _ => rfl⟩
  trans _ _ _ h h' := ⟨h'.fileTable.trans h.fileTable, fun a => (h'.size a).trans (h.size a)⟩

theorem Quiet.sized {s s' : Fs} (h : Quiet s s') : Sized s s' := by
  unfold Quiet at h
  rw [h]
  exact ⟨rfl, fun _ => rfl⟩

theorem storing_sized : StoringBy (fun _ i j => j.iSize = i.iSize) Sized := by
  refine ⟨fun _ _ => Quiet.sized, fun _ _ _ _ => ⟨rfl, fun _ => rfl⟩,
    fun _ _ => ⟨rfl, fun _ => rfl⟩, fun s a i h => ⟨rfl, fun b => ?_⟩⟩
  show (Function.update s.inode a i b).iSize = _
  by_cases hba : b = a
  · rw [hba, Function.update_self]
    exact h
  · rw [Function.update_of_ne hba]

/-- What keeps the list of open inodes and the slots keeps the positions, if it
    keeps the position of every slot in its file. -/
theorem PosInv.moved {s s' : Fs} (h : PosInv s) (hm : Moved s s')
    (hpos : ∀ g a, g < maxFileOpen → (s.fileTable g).fdInode = some a →
      (s'.fileTable g).fdPos ≤ (s'.inode a).iSize) : PosInv s' := by
  refine ⟨?_, ?_⟩
  · intro a ha
    rw [hm.openInodes] at ha
    rw [hm.nextInode]
    exact h.listed a ha
  · intro g a hg ha
    rw [(hm.slots g).1] at ha
    rw [hm.nextInode]
    exact ⟨(h.slots g a hg ha).1, hpos g a hg ha⟩

section Moves

variable {s s' : Fs} {t : Nat}

theorem fdLocal2global_run {fd g : Nat} (h : (fdLocal2global t fd).run s = .ok (g, s')) :
    s' = s ∧ g = (s.fdTable t fd).toNat ∧ g < maxFileOpen := by
  rcases run_bind_ok.mp h with ⟨gl, s₁, h₁, k₁⟩
  rcases read_ok h₁ with ⟨rfl, rfl⟩
  rcases run_bind_ok.mp k₁ with ⟨_, s₂, h₂, k₂⟩
  rcases assert_run h₂ with ⟨hrange, rfl⟩
  rcases pure_ok k₂ with ⟨rfl, rfl⟩
  exact ⟨rfl, rfl, by omega⟩

theorem fileInode_run {g : Nat} {x : Nat × Inode} (h : (fileInode t g).run s = .ok (x, s')) :
    s' = s ∧ (s.fileTable g).fdInode = some x.1 ∧ x.2 = s.inode x.1 := by
  rcases run_bind_ok.mp h with ⟨a, s₁, h₁, k₁⟩
  rcases run_bind_ok.mp h₁ with ⟨p, s₂, h₂, k₂⟩
  rcases read_ok h₂ with ⟨hp, rfl⟩
  cases p with
  | none => cases k₂
  | some b =>
      rcases pure_ok k₂ with ⟨rfl, rfl⟩
      rcases run_bind_ok.mp k₁ with ⟨i, s₃, h₃, k₃⟩
      rcases inodeAt_run h₃ with ⟨-, rfl, rfl⟩
      rcases pure_ok k₃ with ⟨rfl, rfl⟩
      exact ⟨rfl, hp.symm, rfl⟩

/-- The slot `g` has moved to a position, and nothing else has changed in sizes
    and slots. -/
structure MovedTo (g pos : Nat) (s s' : Fs) : Prop where
  others : ∀ x, x ≠ g → s'.fileTable x = s.fileTable x
  slot : (s'.fileTable g).fdPos = pos
  size : ∀ a, (s'.inode a).iSize = (s.inode a).iSize

/-- The position of slot `g` is in its file. -/
def SlotIn (g : Nat) (s : Fs) : Prop :=
  ∀ a, (s.fileTable g).fdInode = some a → (s.fileTable g).fdPos ≤ (s.inode a).iSize

/-- Slot `g` may have moved, to a position in its file. -/
structure StaysIn (g : Nat) (s s' : Fs) : Prop where
  others : ∀ x, x ≠ g → s'.fileTable x = s.fileTable x
  size : ∀ a, (s'.inode a).iSize = (s.inode a).iSize
  slot : ∀ a, (s.fileTable g).fdInode = some a → (s'.fileTable g).fdPos ≤ (s.inode a).iSize

theorem Sized.slotIn {g : Nat} (h : Sized s s') (hin : SlotIn g s) : SlotIn g s' := by
  intro a ha
  rw [h.fileTable] at ha ⊢
  rw [h.size]
  exact hin a ha

theorem MovedTo.staysIn {g pos a : Nat} (h : MovedTo g pos s s')
    (ha : (s.fileTable g).fdInode = some a) (hle : pos ≤ (s.inode a).iSize) : StaysIn g s s' := by
  refine ⟨h.others, h.size, fun b hb => ?_⟩
  rw [h.slot, ← Option.some.inj (ha.symm.trans hb)]
  exact hle

theorem StaysIn.slotIn {g : Nat} (h : StaysIn g s s') (hm : Moved s s') : SlotIn g s' := by
  intro a ha
  rw [(hm.slots g).1] at ha
  rw [h.size]
  exact h.slot a ha

theorem StaysIn.pos {g : Nat} (h : StaysIn g s s') (hinv : PosInv s) (hm : Moved s s') :
    PosInv s' := by
  refine hinv.moved hm (fun x b hx hb => ?_)
  rw [h.size]
  by_cases hxg : x = g
  · rw [hxg] at hb ⊢
    exact h.slot b hb
  · rw [h.others x hxg]
    exact (hinv.slots x b hx hb).2

theorem Sized.pos (h : Sized s s') (hinv : PosInv s) (hm : Moved s s') : PosInv s' := by
  refine hinv.moved hm (fun g a hg ha => ?_)
  rw [h.fileTable, h.size]
  exact (hinv.slots g a hg ha).2

/-- The slot that a descriptor of a task refers to. -/
def slotOf (t : Nat) (fd : Int) (s : Fs) : Nat := (s.fdTable t fd.toNat).toNat

/-- The loop of `file_read`. It goes on until all is read, and the array of
    blocks keeps the position small. -/
theorem readChunks_pos {g size : Nat} {all : Nat → Nat} {n k : Nat} {dst r : Nat → Byte}
    (hn : size - k ≤ n) (h : (readChunks g size all n k dst).run s = .ok (r, s')) :
    MovedTo g ((s.fileTable g).fdPos + (size - k)) s s' ∧
      (k < size → (s.fileTable g).fdPos + (size - k) ≤ 140 * sectorSize) := by
  -- The induction is on the fuel, with the place in the request and in the file.
  induction n generalizing k dst s with
  | zero =>
      rcases pure_ok h with ⟨-, rfl⟩
      have hk : size - k = 0 := by omega
      rw [hk]
      exact ⟨⟨fun _ _ => rfl, rfl, fun _ => rfl⟩, fun hc => by omega⟩
  | succ n ih =>
      unfold readChunks at h
      by_cases hk : k < size
      · rw [if_pos hk] at h
        rcases run_bind_ok.mp h with ⟨pos, s₁, h₁, k₁⟩
        rcases read_ok h₁ with ⟨rfl, rfl⟩
        rcases run_bind_ok.mp k₁ with ⟨_, s₂, h₂, k₂⟩
        rcases check_ok h₂ with ⟨hsmall, rfl⟩
        rcases run_bind_ok.mp k₂ with ⟨buf, s₃, h₃, k₃⟩
        have hz := (quiet_ideRead _ _ _ _ _ h₃).sized
        rcases run_bind_ok.mp k₃ with ⟨_, s₄, h₄, k₄⟩
        have hs₄ := modify_ok h₄
        have hsec : sectorSize = 512 := rfl
        rw [hsec] at hsmall k₄ hs₄
        generalize hchunk : min (size - k) (512 - (s₂.fileTable g).fdPos % 512) = chunk at k₄ hs₄
        have hpos : (s₄.fileTable g).fdPos = (s₂.fileTable g).fdPos + chunk := by
          rw [hs₄, setFile_self, hz.fileTable]
          show add32 _ chunk = _
          rw [add32]
          omega
        -- What this round and the later ones read adds up to what was left.
        rcases ih (by omega) k₄ with ⟨hto, hend⟩
        rw [hpos] at hto hend
        have hsum : (s₂.fileTable g).fdPos + chunk + (size - (k + chunk)) =
            (s₂.fileTable g).fdPos + (size - k) := by
          omega
        rw [hsum] at hto hend
        refine ⟨⟨?_, hto.slot, ?_⟩, fun _ => ?_⟩
        · intro x hx
          rw [hto.others x hx, hs₄, setFile_of_ne _ hx, hz.fileTable]
        · intro b
          rw [hto.size b, hs₄]
          exact hz.size b
        · by_cases hmore : k + chunk < size
          · exact hend hmore
          · rw [hsec]
            omega
      · rw [if_neg hk] at h
        rcases pure_ok h with ⟨-, rfl⟩
        have hk0 : size - k = 0 := by omega
        rw [hk0]
        exact ⟨⟨fun _ _ => rfl, rfl, fun _ => rfl⟩, fun hc => absurd hc hk⟩

/-- `file_read` moves the position by what it reads. -/
theorem readFile_pos {i : Inode} {g pos size : Nat} {dst : Nat → Byte} {r : Int × (Nat → Byte)}
    (h : (readFile i g pos size dst).run s = .ok (r, s')) :
    r.1 = -1 ∧ Sized s s' ∨ (r.1 = size ∧ MovedTo g ((s.fileTable g).fdPos + size) s s' ∧
      (0 < size → (s.fileTable g).fdPos + size ≤ 140 * sectorSize)) := by
  rcases run_bind_ok.mp h with ⟨ioBuf, s₁, h₁, k₁⟩
  rcases run_bind_ok.mp k₁ with ⟨ok, s₂, h₂, k₂⟩
  have hz₂ : Sized s s₂ := IsTrans.trans _ _ _ (quiet_malloc _ _ _ h₁).sized
    (quiet_malloc _ _ _ h₂).sized
  by_cases hok : ok = true
  · rw [if_pos hok] at k₂
    rcases run_bind_ok.mp k₂ with ⟨_, s₃, h₃, k₃⟩
    rcases assert_run h₃ with ⟨-, rfl⟩
    rcases run_bind_ok.mp k₃ with ⟨all, s₄, h₄, k₄⟩
    have hz₄ : Sized s s₄ := IsTrans.trans _ _ _ hz₂ (quiet_collectRead _ _ _ _ _ _ h₄).sized
    rcases run_bind_ok.mp k₄ with ⟨_, s₅, h₅, k₅⟩
    rcases check_ok h₅ with ⟨-, rfl⟩
    rcases run_bind_ok.mp k₅ with ⟨d, s₆, h₆, k₆⟩
    rcases pure_ok k₆ with ⟨rfl, rfl⟩
    rcases readChunks_pos (Nat.sub_le size 0) h₆ with ⟨hto, hend⟩
    rw [hz₄.fileTable] at hto hend
    right
    refine ⟨rfl, ⟨fun x hx => ?_, hto.slot, fun a => (hto.size a).trans (hz₄.size a)⟩, hend⟩
    rw [hto.others x hx, hz₄.fileTable]
  · rw [if_neg hok] at k₂
    rcases pure_ok k₂ with ⟨rfl, rfl⟩
    exact Or.inl ⟨rfl, hz₂⟩

/-- `sys_read` moves in the file, and returns no more than it is asked for. -/
theorem sysReadTo_stays {fd : Int} {dst : Nat → Byte} {count : Nat} {r : Int × (Nat → Byte)}
    (hin : slotOf t fd s < maxFileOpen → SlotIn (slotOf t fd s) s)
    (h : (sysReadTo t fd dst count).run s = .ok (r, s')) :
    (Sized s s' ∨ StaysIn (slotOf t fd s) s s') ∧ r.1 ≤ count := by
  unfold sysReadTo at h
  -- The cases of the source: a bad descriptor, the keyboard, and a file.
  by_cases hbad : fd < 0 ∨ fd = 1 ∨ fd = 2
  · rw [if_pos hbad] at h
    rcases pure_ok h with ⟨rfl, rfl⟩
    exact ⟨Or.inl (refl _), by show (-1 : Int) ≤ _; omega⟩
  rw [if_neg hbad] at h
  by_cases hkeys : fd = 0
  · rw [if_pos hkeys] at h
    rcases run_bind_ok.mp h with ⟨d, s₁, h₁, k₁⟩
    rcases pure_ok k₁ with ⟨rfl, rfl⟩
    refine ⟨Or.inl (quiet_readKeys _ _ _ _ _ _ h₁).sized, ?_⟩
    show (if count = 0 then (-1 : Int) else count) ≤ count
    split <;> omega
  rw [if_neg hkeys] at h
  rcases run_bind_ok.mp h with ⟨g, s₁, h₁, k₁⟩
  rcases fdLocal2global_run h₁ with ⟨rfl, hslot, hg⟩
  rw [← slotOf] at hslot
  rw [← hslot] at hin ⊢
  rcases run_bind_ok.mp k₁ with ⟨pos, s₂, h₂, k₂⟩
  rcases read_ok h₂ with ⟨rfl, rfl⟩
  rcases run_bind_ok.mp k₂ with ⟨⟨a, i⟩, s₃, h₃, k₃⟩
  rcases fileInode_run h₃ with ⟨rfl, ha, hi⟩
  dsimp only at k₃ ha hi
  have hpos := hin hg a ha
  rw [hi] at k₃
  -- A read over the end of the file is cut to what is left.
  by_cases hshort : (s₃.inode a).iSize < add32 (s₃.fileTable g).fdPos count
  · rw [if_pos hshort] at k₃
    have hless : sub32 (s₃.inode a).iSize (s₃.fileTable g).fdPos ≤ count ∧
        (s₃.fileTable g).fdPos + sub32 (s₃.inode a).iSize (s₃.fileTable g).fdPos ≤
          (s₃.inode a).iSize := by
      rw [add32] at hshort
      rw [sub32]
      omega
    by_cases hleft : sub32 (s₃.inode a).iSize (s₃.fileTable g).fdPos = 0
    · rw [if_pos hleft] at k₃
      rcases pure_ok k₃ with ⟨rfl, rfl⟩
      exact ⟨Or.inl (refl _), by show (-1 : Int) ≤ _; omega⟩
    · rw [if_neg hleft] at k₃
      rcases readFile_pos k₃ with ⟨hr, hz⟩ | ⟨hr, hto, -⟩
      · exact ⟨Or.inl hz, by omega⟩
      · exact ⟨Or.inr (hto.staysIn ha hless.2), by omega⟩
  · -- The sum has not wrapped, since the array of blocks is not that long.
    rw [if_neg hshort] at k₃
    rcases readFile_pos k₃ with ⟨hr, hz⟩ | ⟨hr, hto, hend⟩
    · exact ⟨Or.inl hz, by omega⟩
    · refine ⟨Or.inr (hto.staysIn ha ?_), by omega⟩
      have hsec : sectorSize = 512 := rfl
      rw [add32] at hshort
      rw [hsec] at hend
      by_cases hcount : 0 < count
      · have := hend hcount
        omega
      · omega

theorem sysRead_stays {fd : Int} {buf : Option (Nat → Byte)} {count : Nat} {r : Int × (Nat → Byte)}
    (hin : slotOf t fd s < maxFileOpen → SlotIn (slotOf t fd s) s)
    (h : (sysRead t fd buf count).run s = .ok (r, s')) :
    (Sized s s' ∨ StaysIn (slotOf t fd s) s s') ∧ r.1 ≤ count := by
  cases buf with
  | none => cases h
  | some dst => exact sysReadTo_stays hin h

theorem sysRead_pos {fd : Int} {buf : Option (Nat → Byte)} {count : Nat} {r : Int × (Nat → Byte)}
    (hinv : PosInv s) (h : (sysRead t fd buf count).run s = .ok (r, s')) : PosInv s' := by
  have hm := moved_sysRead t fd buf count _ _ _ h
  rcases (sysRead_stays (fun hg a ha => (hinv.slots _ a hg ha).2) h).1 with hz | hst
  · exact hz.pos hinv hm
  · exact hst.pos hinv hm

/-- One byte before the end as a signed number is below the size as an unsigned
    one. -/
theorem toNat_le_of_seek {n : Nat} {z : Int} (h : z ≤ (toInt32 n - 1).bmod (2 ^ 32)) :
    z.toNat ≤ n := by
  unfold toInt32 at h
  rw [BitVec.toInt_eq_toNat_bmod, BitVec.toNat_ofNat, Int.bmod_def, Int.bmod_def] at h
  omega

/-- `sys_lseek` stays one byte before the end. -/
theorem sysLseek_stays {fd offset r : Int} {whence : Nat}
    (h : (sysLseek t fd offset whence).run s = .ok (r, s')) :
    Sized s s' ∨ StaysIn (slotOf t fd s) s s' := by
  unfold sysLseek at h
  by_cases hfd : fd < 0
  · rw [if_pos hfd] at h
    rcases pure_ok h with ⟨-, rfl⟩
    exact Or.inl (refl _)
  rw [if_neg hfd] at h
  rcases run_bind_ok.mp h with ⟨_, s₁, h₁, k₁⟩
  rcases assert_run h₁ with ⟨-, rfl⟩
  rcases run_bind_ok.mp k₁ with ⟨g, s₂, h₂, k₂⟩
  rcases fdLocal2global_run h₂ with ⟨rfl, hslot, -⟩
  rw [← slotOf] at hslot
  rw [← hslot]
  rcases run_bind_ok.mp k₂ with ⟨pos, s₃, h₃, k₃⟩
  rcases read_ok h₃ with ⟨rfl, rfl⟩
  rcases run_bind_ok.mp k₃ with ⟨⟨a, i⟩, s₄, h₄, k₄⟩
  rcases fileInode_run h₄ with ⟨rfl, ha, hi⟩
  dsimp only at k₄ ha hi
  rw [hi] at k₄
  generalize seekPos (s₄.fileTable g).fdPos (s₄.inode a).iSize offset whence = newPos at k₄
  -- A position outside the file is refused before anything is stored.
  by_cases hout : newPos < 0 ∨ (toInt32 (s₄.inode a).iSize - 1).bmod (2 ^ 32) < newPos
  · rw [if_pos hout] at k₄
    rcases pure_ok k₄ with ⟨-, rfl⟩
    exact Or.inl (refl _)
  rw [if_neg hout] at k₄
  rcases run_bind_ok.mp k₄ with ⟨_, s₅, h₅, k₅⟩
  rcases pure_ok k₅ with ⟨-, rfl⟩
  have hto : MovedTo g newPos.toNat s₄ s' := by
    rw [modify_ok h₅]
    exact ⟨fun x hx => setFile_of_ne _ hx _, by rw [setFile_self], fun _ => rfl⟩
  exact Or.inr (hto.staysIn ha (toNat_le_of_seek (by omega)))

theorem sysLseek_pos {fd offset r : Int} {whence : Nat} (hinv : PosInv s)
    (h : (sysLseek t fd offset whence).run s = .ok (r, s')) : PosInv s' := by
  have hm := moved_sysLseek t fd offset whence _ _ _ h
  rcases sysLseek_stays h with hz | hst
  · exact hz.pos hinv hm
  · exact hst.pos hinv hm

/-- Bytes have been appended to the file in slot `g`, whose inode is `a`. -/
structure Appended (g a : Nat) (s s' : Fs) : Prop where
  others : ∀ x, x ≠ g → s'.fileTable x = s.fileTable x
  slot : (s'.fileTable g).fdInode = (s.fileTable g).fdInode
  sizes : ∀ b, b ≠ a → (s'.inode b).iSize = (s.inode b).iSize
  grown : (s.inode a).iSize ≤ (s'.inode a).iSize

instance (g a : Nat) : IsPreorder Fs (Appended g a) where
  refl _ := ⟨fun _ _ => rfl, rfl, fun _ _ => rfl, Nat.le_refl _⟩
  trans _ _ _ h h' := ⟨fun x hx => (h'.others x hx).trans (h.others x hx), h'.slot.trans h.slot,
    fun b hb => (h'.sizes b hb).trans (h.sizes b hb), Nat.le_trans h.grown h'.grown⟩

theorem Sized.appended {g a : Nat} (h : Sized s s') : Appended g a s s' :=
  ⟨fun _ _ => by rw [h.fileTable], by rw [h.fileTable], fun b _ => h.size b,
    Nat.le_of_eq (h.size a).symm⟩

/-- One round of the loop of `file_write`: the size and the position grow by
    what was written. -/
theorem appended_chunk {g a chunk : Nat} {s₁ s₂ : Fs}
    (h₁ : s₁ = s.setInode a { s.inode a with iSize := add32 (s.inode a).iSize chunk })
    (h₂ : s₂ = s₁.setFile g
      { s₁.fileTable g with fdPos := add32 (s₁.fileTable g).fdPos chunk })
    (hfit : (s.inode a).iSize + chunk < 2 ^ 32)
    (hpos : (s.fileTable g).fdPos = sub32 (s.inode a).iSize 1) :
    Appended g a s s₂ ∧ (s₂.inode a).iSize = (s.inode a).iSize + chunk ∧
      (s₂.fileTable g).fdPos = sub32 (s₂.inode a).iSize 1 := by
  -- Size and position move by the same number of bytes.
  have hsize : (s₂.inode a).iSize = (s.inode a).iSize + chunk := by
    rw [h₂, h₁]
    show (Function.update s.inode a _ a).iSize = _
    rw [Function.update_self]
    exact Nat.mod_eq_of_lt hfit
  refine ⟨⟨?_, ?_, ?_, by omega⟩, hsize, ?_⟩
  · intro x hx
    rw [h₂, setFile_of_ne _ hx, h₁]
    rfl
  · rw [h₂, setFile_self, h₁]
    rfl
  · intro b hb
    rw [h₂, h₁]
    show (Function.update s.inode a _ b).iSize = _
    rw [Function.update_of_ne hb]
  · rw [hsize, h₂, setFile_self, h₁]
    show add32 (s.fileTable g).fdPos chunk = _
    rw [hpos, add32, sub32, sub32]
    omega

/-- The loop of `file_write`. The position stays one byte behind the size, and
    the array of blocks keeps the size small. -/
theorem writeChunks_pos {g a count : Nat} {src : Nat → Byte} {all : Nat → Nat} {n k : Nat}
    {first : Bool} {u : Unit} (ha : (s.fileTable g).fdInode = some a)
    (hpos : (s.fileTable g).fdPos = sub32 (s.inode a).iSize 1)
    (h : (writeChunks t g src count all n k first).run s = .ok (u, s')) :
    Appended g a s s' ∧ (s'.fileTable g).fdPos = sub32 (s'.inode a).iSize 1 ∧
      (0 < n → k < count → 0 < (s'.inode a).iSize) := by
  induction n generalizing k first s with
  | zero =>
      rcases pure_ok h with ⟨-, rfl⟩
      exact ⟨refl _, hpos, fun hc => absurd hc (Nat.lt_irrefl 0)⟩
  | succ n ih =>
      unfold writeChunks at h
      by_cases hk : k < count
      · rw [if_pos hk] at h
        rcases run_bind_ok.mp h with ⟨⟨b, i⟩, s₁, h₁, k₁⟩
        rcases fileInode_run h₁ with ⟨rfl, hb, hi⟩
        dsimp only at k₁ hb hi
        rw [hi, Option.some.inj (hb.symm.trans ha)] at k₁
        rcases run_bind_ok.mp k₁ with ⟨_, s₂, h₂, k₂⟩
        rcases check_ok h₂ with ⟨hsmall, rfl⟩
        rcases run_bind_ok.mp k₂ with ⟨buf, s₃, h₃, k₃⟩
        rcases run_bind_ok.mp k₃ with ⟨_, s₄, h₄, k₄⟩
        have hz : Sized s₂ s₄ := IsTrans.trans _ _ _ (quiet_chunkBuf _ _ _ _ _ h₃).sized
          (storing_ideWrite storing_sized _ _ _ _ _ _ h₄)
        rcases run_bind_ok.mp k₄ with ⟨⟨b', i'⟩, s₅, h₅, k₅⟩
        rcases fileInode_run h₅ with ⟨rfl, hb', -⟩
        dsimp only at k₅ hb'
        rw [hz.fileTable] at hb'
        rw [Option.some.inj (hb'.symm.trans ha)] at k₅
        rcases run_bind_ok.mp k₅ with ⟨_, s₆, h₆, k₆⟩
        rcases run_bind_ok.mp k₆ with ⟨_, s₇, h₇, k₇⟩
        have hs₆ := setInodeAt_run h₆
        have hs₇ := modify_ok h₇
        have hsec : sectorSize = 512 := rfl
        rw [hsec] at hsmall k₇ hs₆ hs₇
        generalize hchunk : min (count - k) (512 - (s₂.inode a).iSize % 512) = chunk at k₇ hs₆ hs₇
        have hpos₅ : (s₅.fileTable g).fdPos = sub32 (s₅.inode a).iSize 1 := by
          rw [hz.fileTable, hz.size]
          exact hpos
        -- Size and position grow by the same chunk, so their distance stays.
        rcases appended_chunk hs₆ hs₇ (by rw [hz.size]; omega) hpos₅ with ⟨happ, hsize, hpos₇⟩
        have happ' : Appended g a s₂ s₇ := IsTrans.trans _ _ _ hz.appended happ
        rcases ih (happ'.slot.trans ha) hpos₇ k₇ with ⟨hrest, hend, -⟩
        refine ⟨IsTrans.trans _ _ _ happ' hrest, hend, fun _ _ => ?_⟩
        have := hrest.grown
        omega
      · rw [if_neg hk] at h
        rcases pure_ok h with ⟨-, rfl⟩
        exact ⟨refl _, hpos, fun _ hc => absurd hc hk⟩

/-- `file_write` once the blocks are known. It is one byte behind the size at
    the end, whatever the size is. -/
theorem writeFile_pos {g a count : Nat} {src : Nat → Byte} {all : Nat → Nat} {r : Int}
    (ha : (s.fileTable g).fdInode = some a)
    (h : (writeFile t g src count all).run s = .ok (r, s')) :
    Appended g a s s' ∧ (s'.fileTable g).fdPos = sub32 (s'.inode a).iSize 1 ∧
      (0 < count → 0 < (s'.inode a).iSize) := by
  rcases run_bind_ok.mp h with ⟨⟨b, i⟩, s₁, h₁, k₁⟩
  rcases fileInode_run h₁ with ⟨rfl, hb, hi⟩
  dsimp only at k₁ hb hi
  rw [hi, Option.some.inj (hb.symm.trans ha)] at k₁
  rcases run_bind_ok.mp k₁ with ⟨_, s₂, h₂, k₂⟩
  have hs₂ := modify_ok h₂
  have happ₂ : Appended g a s₁ s₂ := by
    rw [hs₂]
    refine ⟨fun x hx => setFile_of_ne _ hx _, ?_, fun _ _ => rfl, Nat.le_refl _⟩
    rw [setFile_self]
  -- The position is set to the end before the loop.
  have hpos₂ : (s₂.fileTable g).fdPos = sub32 (s₂.inode a).iSize 1 := by
    rw [hs₂, setFile_self]
    rfl
  rcases run_bind_ok.mp k₂ with ⟨_, s₃, h₃, k₃⟩
  rcases writeChunks_pos (happ₂.slot.trans ha) hpos₂ h₃ with ⟨happ₃, hpos₃, hgrown⟩
  rcases run_bind_ok.mp k₃ with ⟨⟨b', i'⟩, s₄, h₄, k₄⟩
  rcases fileInode_run h₄ with ⟨rfl, -, -⟩
  rcases run_bind_ok.mp k₄ with ⟨_, s₅, h₅, k₅⟩
  rcases pure_ok k₅ with ⟨-, rfl⟩
  have hz : Sized s₄ s' := storing_inodeSync storing_sized _ _ _ _ _ h₅
  refine ⟨IsTrans.trans _ _ _ happ₂ (IsTrans.trans _ _ _ happ₃ hz.appended), ?_, ?_⟩
  · rw [hz.fileTable, hz.size]
    exact hpos₃
  · intro hc
    rw [hz.size]
    exact hgrown hc hc

/-- `file_write` changes neither sizes nor positions, or ends one byte behind
    the size. -/
theorem fileWrite_pos {g a count : Nat} {src : Nat → Byte} {r : Int}
    (ha : (s.fileTable g).fdInode = some a)
    (h : (fileWrite t g src count).run s = .ok (r, s')) :
    Sized s s' ∨ (Appended g a s s' ∧ (s'.fileTable g).fdPos = sub32 (s'.inode a).iSize 1 ∧
      (0 < count → 0 < (s'.inode a).iSize)) := by
  rcases run_bind_ok.mp h with ⟨⟨b, i⟩, s₁, h₁, k₁⟩
  rcases fileInode_run h₁ with ⟨rfl, -, -⟩
  dsimp only at k₁
  -- Every way out in front of the loop leaves sizes and positions alone.
  by_cases hbig : sectorSize * 140 < add32 i.iSize count
  · rw [if_pos hbig] at k₁
    rcases pure_ok k₁ with ⟨-, rfl⟩
    exact Or.inl (refl _)
  rw [if_neg hbig] at k₁
  rcases run_bind_ok.mp k₁ with ⟨ok, s₂, h₂, k₂⟩
  have hz₂ := (quiet_mallocBuffers _ _ _ h₂).sized
  by_cases hok : ok = true
  · rw [if_pos hok] at k₂
    rcases run_bind_ok.mp k₂ with ⟨table, s₃, h₃, k₃⟩
    rcases run_bind_ok.mp k₃ with ⟨lba, s₄, h₄, k₄⟩
    have hz₄ : Sized s₁ s₄ := IsTrans.trans _ _ _ hz₂ (IsTrans.trans _ _ _
      (quiet_unset _ _ _ h₃).sized
      (storing_writeFirstBlock storing_sized (fun _ _ _ _ => rfl) t g _ _ _ h₄))
    cases lba with
    | none =>
        rcases pure_ok k₄ with ⟨-, rfl⟩
        exact Or.inl hz₄
    | some lba =>
        rcases run_bind_ok.mp k₄ with ⟨all, s₅, h₅, k₅⟩
        have hz₅ : Sized s₁ s₅ := IsTrans.trans _ _ _ hz₄
          (storing_collectBlocks storing_sized (fun _ _ _ _ => rfl) t g count table lba _ _ _ h₅)
        cases all with
        | none =>
            rcases pure_ok k₅ with ⟨-, rfl⟩
            exact Or.inl hz₅
        | some all =>
            have ha₅ : (s₅.fileTable g).fdInode = some a := by
              rw [hz₅.fileTable]
              exact ha
            rcases writeFile_pos ha₅ k₅ with ⟨happ, hpos, hgrown⟩
            exact Or.inr ⟨IsTrans.trans _ _ _ hz₅.appended happ, hpos, hgrown⟩
  · rw [if_neg hok] at k₂
    rcases pure_ok k₂ with ⟨-, rfl⟩
    exact Or.inl hz₂

/-- `sys_write`, but for a write of no bytes to an empty file. -/
theorem sysWrite_pos {fd r : Int} {src : Nat → Byte} {count : Nat} (hinv : PosInv s)
    (hsome : ∀ a, 0 ≤ fd → fd ≠ 1 → count = 0 →
      (s.fileTable (s.fdTable t fd.toNat).toNat).fdInode = some a →
      (s.fileTable (s.fdTable t fd.toNat).toNat).fdFlag &&& oWronly ≠ 0 ∨
        (s.fileTable (s.fdTable t fd.toNat).toNat).fdFlag &&& oRdwr ≠ 0 → (s.inode a).iSize ≠ 0)
    (h : (sysWrite t fd src count).run s = .ok (r, s')) : PosInv s' := by
  have hm := moved_sysWrite t fd src count _ _ _ h
  unfold sysWrite at h
  by_cases hfd : fd < 0
  · rw [if_pos hfd] at h
    rcases pure_ok h with ⟨-, rfl⟩
    exact hinv
  rw [if_neg hfd] at h
  by_cases hone : fd = 1
  · rw [if_pos hone] at h
    rcases run_bind_ok.mp h with ⟨_, s₁, h₁, k₁⟩
    rcases check_ok h₁ with ⟨-, rfl⟩
    rcases pure_ok k₁ with ⟨-, rfl⟩
    exact hinv
  rw [if_neg hone] at h
  rcases run_bind_ok.mp h with ⟨g, s₁, h₁, k₁⟩
  rcases fdLocal2global_run h₁ with ⟨rfl, hg, hlt⟩
  rcases run_bind_ok.mp k₁ with ⟨flag, s₂, h₂, k₂⟩
  rcases read_ok h₂ with ⟨rfl, rfl⟩
  rw [← hg] at hsome
  by_cases hflag : (s₂.fileTable g).fdFlag &&& oWronly ≠ 0 ∨ (s₂.fileTable g).fdFlag &&& oRdwr ≠ 0
  · rw [if_pos hflag] at k₂
    -- There is an inode in the slot, since its size is looked at first.
    have hslot : ∃ a, (s₂.fileTable g).fdInode = some a := by
      rcases run_bind_ok.mp k₂ with ⟨x, s₃, h₃, -⟩
      exact ⟨x.1, (fileInode_run h₃).2.1⟩
    rcases hslot with ⟨a, ha⟩
    rcases fileWrite_pos ha k₂ with hz | ⟨happ, hpos, hgrown⟩
    · exact hz.pos hinv hm
    · have hpositive : 0 < (s'.inode a).iSize := by
        by_cases hcount : 0 < count
        · exact hgrown hcount
        · have := hsome a (by omega) hone (by omega) ha hflag
          have := happ.grown
          omega
      refine hinv.moved hm (fun x b hx hb => ?_)
      by_cases hxg : x = g
      · rw [hxg] at hb ⊢
        rw [hpos, ← Option.some.inj (ha.symm.trans hb), sub32]
        omega
      · rw [happ.others x hxg]
        have hin := (hinv.slots x b hx hb).2
        -- Another slot may point to the same file.
        by_cases hba : b = a
        · rw [hba] at hin ⊢
          exact Nat.le_trans hin happ.grown
        · rw [happ.sizes b hba]
          exact hin
  · rw [if_neg hflag] at k₂
    rcases pure_ok k₂ with ⟨-, rfl⟩
    exact hinv

end Moves

section Positions

/-- A call on regular files. A directory is not a regular file, so the one in
    which a file is created is not open as a file. -/
def RegularCall (w : FsWorld) : FsCall → Prop
  | .open t pathname flags => flags &&& oCreat ≠ 0 →
      ∀ x s, (openPath t pathname).run w.fs = .ok (x, s) → ∀ g, g < maxFileOpen →
        (w.fs.fileTable g).fdInode ≠ some x.2.1.parentDir.inode
  | .close _ _ | .write _ _ _ _ | .read _ _ _ _ | .lseek _ _ _ _ => True
  | _ => False

/-- A write of no bytes to an empty file that is open for writing. -/
def emptyWrite (w : FsWorld) : FsCall → Prop
  | .write t fd _ count =>
      0 ≤ fd ∧ fd ≠ 1 ∧ count = 0 ∧
        ((w.fs.fileTable (w.fs.fdTable t fd.toNat).toNat).fdFlag &&& oWronly ≠ 0 ∨
          (w.fs.fileTable (w.fs.fdTable t fd.toNat).toNat).fdFlag &&& oRdwr ≠ 0) ∧
        ∃ a, (w.fs.fileTable (w.fs.fdTable t fd.toNat).toNat).fdInode = some a ∧
          (w.fs.inode a).iSize = 0
  | _ => False

/-- What every call of a run has to meet. -/
def WritesSome (w : FsWorld) (e : FsCall) : Prop := RegularCall w e ∧ ¬ emptyWrite w e

variable {w w' : FsWorld} {e : FsCall}

theorem fsInit_pos (h : fsInit w) : PosInv w.fs := by
  refine ⟨fun a ha => ((fsInit_ledger h).there a ha).2, fun g a hg ha => ?_⟩
  -- No slot is taken yet.
  rcases h with ⟨⟨t, s, u, -, hrun⟩, -⟩
  have hpos := slotRefs_pos hg ha
  rw [(filesysInit_files hrun).2 a] at hpos
  cases hpos

/-- A call that meets the condition keeps the positions in the files. -/
theorem PosInv.step (h : PosInv w.fs) (he : WritesSome w e) (hs : fsStep w e = .ok w') :
    PosInv w'.fs := by
  rcases he with ⟨hcall, hsome⟩
  cases e with
  | «open» t p flags =>
      rcases call_ok hs with ⟨r, hrun, -⟩
      exact sysOpen_pos h hcall hrun
  | close t fd =>
      rcases call_ok hs with ⟨r, hrun, -⟩
      exact sysClose_pos h hrun
  | write t fd buf count =>
      rcases call_ok hs with ⟨r, hrun, -⟩
      -- The condition of the step: not a write of no byte to an empty file.
      refine sysWrite_pos h (fun a h0 h1 hcount ha hflag hzero => ?_) hrun
      exact hsome ⟨h0, h1, hcount, hflag, a, ha, hzero⟩
  | read t fd buf count =>
      rcases call_ok hs with ⟨r, hrun, -⟩
      exact sysRead_pos h hrun
  | lseek t fd offset whence =>
      rcases call_ok hs with ⟨r, hrun, -⟩
      exact sysLseek_pos h hrun
  -- The other calls are not among those that the property speaks of.
  | mkdir t p => exact hcall.elim
  | unlink t p => exact hcall.elim
  | rmdir t p => exact hcall.elim
  | stat t p => exact hcall.elim
  | chdir t p => exact hcall.elim
  | getcwd t size => exact hcall.elim
  | opendir t p => exact hcall.elim
  | closedir k => exact hcall.elim

/-- In every run whose calls meet the condition, no open file has a position
    past its size, and what `file_read` takes to be left of the file is what is
    left. -/
theorem position_in_file (h : (fsCallSystem.restrict WritesSome).Reachable w) (g a : Nat)
    (hg : g < maxFileOpen) (ha : (w.fs.fileTable g).fdInode = some a) :
    (w.fs.fileTable g).fdPos ≤ (w.fs.inode a).iSize ∧
      sub32 (w.fs.inode a).iSize (w.fs.fileTable g).fdPos =
        ((w.fs.inode a).iSize - (w.fs.fileTable g).fdPos) % 2 ^ 32 := by
  have hinv : PosInv w.fs := by
    refine System.invariant_of_step (fsCallSystem.restrict WritesSome) (fun w => PosInv w.fs)
      (fun w hw => fsInit_pos hw) (fun w e w' hw he hs => hw.step he.2 hs) w h
  have hin := (hinv.slots g a hg ha).2
  refine ⟨hin, ?_⟩
  rw [sub32]
  omega

end Positions

section Example

/-- No file is open, so a file may be created anywhere. -/
theorem regularCall_fresh (p : Str) (flags : Nat) : RegularCall freshDisk (.open 1 p flags) := by
  intro _ x s _ g hg ha
  have hnone : ∀ g, g < maxFileOpen → (freshDisk.fs.fileTable g).fdInode = none := by
    decide +kernel
  rw [hnone g hg] at ha
  cases ha

/-- A process creates `/d` for writing and writes no bytes. The position is
    then four gigabytes past the end, and one byte is left to read. -/
theorem empty_write_past_end :
    (fsCallSystem.restrict RegularCall).Reachable
        (fsCallSystem.after freshDisk [.open 1 pathD 5, .write 1 3 (fun _ => 0) 0]) ∧
      ¬ ∀ g a, g < maxFileOpen →
        ((fsCallSystem.after freshDisk
          [.open 1 pathD 5, .write 1 3 (fun _ => 0) 0]).fs.fileTable g).fdInode = some a →
        ((fsCallSystem.after freshDisk
          [.open 1 pathD 5, .write 1 3 (fun _ => 0) 0]).fs.fileTable g).fdPos ≤
        ((fsCallSystem.after freshDisk
          [.open 1 pathD 5, .write 1 3 (fun _ => 0) 0]).fs.inode a).iSize := by
  have hrun : fsCallSystem.Runs freshDisk [.open 1 pathD 5, .write 1 3 (fun _ => 0) 0] := by
    decide +kernel
  have hcond : fsCallSystem.Meets RegularCall freshDisk
      [.open 1 pathD 5, .write 1 3 (fun _ => 0) 0] :=
    ⟨regularCall_fresh pathD 5, trivial, trivial⟩
  refine ⟨(fsCallSystem.restrict RegularCall).reachable_after _ (.init _ freshDisk_init)
    (fsCallSystem.runs_restrict RegularCall hrun hcond), fun hall => ?_⟩
  exact absurd (hall 3 1 (by decide) (by decide +kernel)) (by decide +kernel)

/-- A process creates `/d` for writing, writes three bytes and goes back to the
    second. -/
theorem position_in_file_written :
    ((fsCallSystem.after freshDisk
      [.open 1 pathD 5, .write 1 3 (fun _ => 7) 3, .lseek 1 3 1 1]).fs.fileTable 3).fdPos ≤
    ((fsCallSystem.after freshDisk
      [.open 1 pathD 5, .write 1 3 (fun _ => 7) 3, .lseek 1 3 1 1]).fs.inode 1).iSize := by
  have hrun : fsCallSystem.Runs freshDisk
      [.open 1 pathD 5, .write 1 3 (fun _ => 7) 3, .lseek 1 3 1 1] := by
    decide +kernel
  have hcond : fsCallSystem.Meets WritesSome freshDisk
      [.open 1 pathD 5, .write 1 3 (fun _ => 7) 3, .lseek 1 3 1 1] :=
    ⟨⟨regularCall_fresh pathD 5, id⟩, ⟨trivial, fun h => absurd h.2.2.1 (by decide)⟩,
      ⟨trivial, id⟩, trivial⟩
  have hreach : (fsCallSystem.restrict WritesSome).Reachable (fsCallSystem.after freshDisk
      [.open 1 pathD 5, .write 1 3 (fun _ => 7) 3, .lseek 1 3 1 1]) :=
    (fsCallSystem.restrict WritesSome).reachable_after _ (.init _ freshDisk_init)
      (fsCallSystem.runs_restrict WritesSome hrun hcond)
  have hslot : ((fsCallSystem.after freshDisk
      [.open 1 pathD 5, .write 1 3 (fun _ => 7) 3, .lseek 1 3 1 1]).fs.fileTable 3).fdInode =
      some 1 := by
    decide +kernel
  exact (position_in_file hreach 3 1 (by decide) hslot).1

end Example

end ForikOS
