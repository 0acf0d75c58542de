import ForikOS.Theory.OpenCount

/-!
# Opens That Wait for the Disk

Any number of tasks are in `file_open` and `inode_open` at once.

A task that has to read an inode from the disk waits for it, and other tasks
go on. `file_open` has chosen its slot before the wait and fills it after.
`inode_open` has looked for the inode before the wait and puts it on the list
after. So two calls that wait at the same time can choose one slot, and can
make two objects for one inode.

What the new object is numbered is up to the record on the disk, and the list
is searched by that number. A call that starts while others wait collides with
none of them if it is for another inode, whose record holds its own number, and
finds another slot free. In every run in which all calls start like that, slots
and inodes stay apart.

## Main definitions

* `OpenState`, `OpenEvent`, `openSystem`: Tasks in the middle of their calls.
* `SlotsApart`, `InodesApart`: No collision has happened.
* `NoCollision`: The condition on a call when it starts.
* `openEnd`: What a call does after its wait.
* `OpensInv`: The invariant.

## Theorems

* `prog_resume`: A call up to its wait.
* `openEnd_run`: A call after its wait.
* `opens_apart`: Every run whose calls meet the condition has no collision.
* `opens_collide`: A run that has both.
-/

namespace ForikOS

open Prog

/-- The calls that open something. -/
inductive OpenCall
  | file (inodeNo flag : Nat)
  | inode (inodeNo : Nat)

/-- The inode a call is for. -/
def OpenCall.inodeNo : OpenCall → Nat
  | .file n _ => n
  | .inode n => n

/-- A call by task `t`. -/
def OpenCall.prog (t : Nat) : OpenCall → FsM Int
  | .file n flag => fileOpen t n flag
  | .inode n => do
      let a ← inodeOpen t n
      pure (a : Int)

/-- The slot a call chooses when it starts. -/
def OpenCall.slot (s : Fs) : OpenCall → Option Nat
  | .file _ _ => freeSlotFrom s.fileTable (maxFileOpen - 3) 3
  | .inode _ => none

/-- A call that waits: what was called, the slot it chose, and the rest. -/
structure WaitingOpen where
  call : OpenCall
  slot : Option Nat
  rest : FsM Int

/-- The file system, and the call each task waits in. -/
structure OpenState where
  fs : Fs
  waiting : Nat → Option WaitingOpen

/-- A task starts a call, goes on with it, or closes what it has opened. -/
inductive OpenEvent
  | start (t : Nat) (c : OpenCall)
  | wake (t : Nat)
  | close (t fd : Nat)
  | closeInode (t a : Nat)

/-- A task runs up to its next wait. -/
def resumeOpen (s : OpenState) (t : Nat) (c : OpenCall) (slot : Option Nat) (x : FsM Int) :
    Except FsFault OpenState := do
  let r ← x.resume s.fs
  match r.2 with
  | .inl _ => .ok ⟨r.1, Function.update s.waiting t none⟩
  | .inr rest => .ok ⟨r.1, Function.update s.waiting t (some ⟨c, slot, rest⟩)⟩

/-- The step of an event. Closing does not wait. -/
def openStep (s : OpenState) : OpenEvent → Except FsFault OpenState
  | .start t c => resumeOpen s t c (c.slot s.fs) (c.prog t)
  | .wake t =>
      match s.waiting t with
      | some w => resumeOpen s t w.call w.slot w.rest
      | none => .ok s
  | .close t fd => do
      let r ← (sysClose t fd).run s.fs
      .ok { s with fs := r.2 }
  | .closeInode t a => do
      let r ← (inodeClose t a).run s.fs
      .ok { s with fs := r.2 }

/-- A task makes one call at a time, and closes entries of its own
    `fd_table`. -/
def openEnabled (s : OpenState) : OpenEvent → Prop
  | .start t _ => s.waiting t = none
  | .wake t => s.waiting t ≠ none
  | .close t fd => s.waiting t = none ∧ fd < maxFilesOpenPerProc
  | .closeInode t _ => s.waiting t = none

/-- The file system is mounted, and no task has opened a file. -/
def openInit (s : OpenState) : Prop :=
  (∃ t fs u, (filesysInit t).run fs = .ok (u, s.fs)) ∧ s.waiting = (fun _ => none) ∧
    ∀ t k, IsFd k → s.fs.fdTable t k = -1

/-- Tasks that open and close. -/
def openSystem : System OpenState OpenEvent FsFault where
  init := openInit
  enabled := openEnabled
  step := openStep

/-- No two descriptors refer to one slot of `file_table`. -/
def SlotsApart (s : Fs) : Prop :=
  ∀ t k t' k', IsFd k → IsFd k' → s.fdTable t k ≠ -1 → s.fdTable t k = s.fdTable t' k' →
    t = t' ∧ k = k'

/-- No two objects on `open_inodes` are the same inode. -/
def InodesApart (s : Fs) : Prop :=
  s.part.openInodes.Nodup ∧ ∀ a b, a ∈ s.part.openInodes → b ∈ s.part.openInodes →
    (s.inode a).iNo = (s.inode b).iNo → a = b

/-- A call starts for an inode whose record on the disk holds its number and
    that no other call waits for, and with a slot no other call has chosen. -/
def NoCollision (s : OpenState) : OpenEvent → Prop
  | .start _ c => (diskInode s.fs c.inodeNo).iNo = c.inodeNo ∧
      ∀ t w, s.waiting t = some w →
        w.call.inodeNo ≠ c.inodeNo ∧ ∀ g, c.slot s.fs = some g → w.slot ≠ some g
  | .wake _ => True
  | .close _ _ => True
  | .closeInode _ _ => True

/-- `inode_open` after the wait, for the new object at `a`. -/
def fetchEnd (a : Nat) (pos : InodePosition) : FsM Nat := do
  let buf ← Prog.read (fun s => sectors s.disk pos.secLba pos.sects)
  setInodeAt a (fun _ => { decodeInode buf pos.offSize with iOpenCnts := 1 })
  Prog.modify (fun s => s.setOpenInodes (a :: s.part.openInodes))
  pure a

/-- What is left of a call once the inode is open. -/
def ending (t : Nat) (c : OpenCall) (slot : Option Nat) (a : Nat) : FsM Int :=
  match c, slot with
  | .file _ flag, some g => fileOpened t g a flag
  | .file _ _, none => pure (-1)
  | .inode _, _ => pure (a : Int)

/-- What is left of a call after its wait. -/
def openEnd (t : Nat) (c : OpenCall) (slot : Option Nat) (a : Nat) (pos : InodePosition) : FsM Int := do
  let a ← fetchEnd a pos
  ending t c slot a

section Waits

theorem waitless_inodeAt (t a : Nat) : (inodeAt t a).Waitless :=
  waitless_bind (waitless_read _) (fun _ => waitless_bind waitless_check (fun _ => waitless_read _))

theorem waitless_setInodeAt (a : Nat) (f : Inode → Inode) : (setInodeAt a f).Waitless :=
  waitless_modify _

theorem waitless_malloc : malloc.Waitless :=
  waitless_bind (waitless_read _) (fun _ => waitless_bind (waitless_modify _) (fun _ => trivial))

theorem waitless_mallocUnchecked : mallocUnchecked.Waitless :=
  waitless_bind waitless_malloc (fun _ => waitless_check)

theorem waitless_newInode (h : Home) : (newInode h).Waitless :=
  waitless_bind (waitless_read _) (fun _ => waitless_bind (waitless_modify _) (fun _ => trivial))

theorem waitless_inodeLocate (n : Nat) : (inodeLocate n).Waitless :=
  waitless_bind waitless_check (fun _ => waitless_bind (waitless_read _) (fun _ => trivial))

theorem waitless_findOpenInode (t n : Nat) (l : List Nat) : (findOpenInode t n l).Waitless := by
  induction l with
  | nil => exact trivial
  | cons a l ih => exact waitless_bind (waitless_inodeAt t a) (fun _ => waitless_ite trivial ih)

theorem waitless_pcbFdInstall (t g : Nat) : (pcbFdInstall t g).Waitless := by
  refine waitless_bind (waitless_read _) (fun fd => ?_)
  cases fd with
  | none => exact trivial
  | some k => exact waitless_bind (waitless_modify _) (fun _ => trivial)

theorem waitless_ending (t : Nat) (c : OpenCall) (slot : Option Nat) (a : Nat) :
    (ending t c slot a).Waitless := by
  cases c with
  | inode n => exact trivial
  | file n flag =>
      cases slot with
      | none => exact trivial
      | some g =>
          refine waitless_bind (waitless_modify _) (fun _ => waitless_ite ?_ (waitless_pcbFdInstall t g))
          refine waitless_bind (waitless_inodeAt t a) (fun i => waitless_ite trivial ?_)
          exact waitless_bind (waitless_setInodeAt a _) (fun _ => waitless_pcbFdInstall t g)

theorem waitless_openEnd (t : Nat) (c : OpenCall) (slot : Option Nat) (a : Nat)
    (pos : InodePosition) : (openEnd t c slot a pos).Waitless := by
  refine waitless_bind (waitless_bind (waitless_read _) (fun _ => ?_))
    (fun a => waitless_ending t c slot a)
  exact waitless_bind (waitless_setInodeAt a _) (fun _ =>
    waitless_bind (waitless_modify _) (fun _ => trivial))

end Waits

variable {s s' : Fs} {t : Nat}

/-- `inode_open` up to its wait: the inode is open already, or there is a new
    object and the disk is asked. -/
theorem inodeOpen_resume {n : Nat} {r : Fs × (Nat ⊕ FsM Nat)}
    (h : (inodeOpen t n).resume s = .ok r) :
    (∃ a i, a ∈ s.part.openInodes ∧ (s.inode a).iNo = n ∧ i.iNo = n ∧ r = (s.setInode a i, .inl a)) ∨
      ((∀ a, a ∈ s.part.openInodes → (s.inode a).iNo ≠ n) ∧
        r.2 = .inr (fetchEnd s.nextInode (inodePos s.part.sb n)) ∧
        Quiet ({ s with nextInode := s.nextInode + 1 }.setHome s.nextInode .kernel) r.1) := by
  rcases (resume_bind_ok (waitless_read _)).mp h with ⟨l, s₁, h₁, k₁⟩
  rcases read_ok h₁ with ⟨rfl, rfl⟩
  rcases (resume_bind_ok (waitless_findOpenInode t n _)).mp k₁ with ⟨found, s₂, h₂, k₂⟩
  rcases findOpenInode_run h₂ with ⟨rfl, hfound⟩
  cases found with
  | some a =>
      left
      refine ⟨a, { s₂.inode a with iOpenCnts := add32 (s₂.inode a).iOpenCnts 1 }, hfound.1,
        hfound.2.1, hfound.2.1, ?_⟩
      rcases (resume_bind_ok (waitless_setInodeAt a _)).mp k₂ with ⟨_, s₃, h₃, k₃⟩
      rw [setInodeAt_run h₃] at k₃
      cases k₃
      rfl
  | none =>
      right
      rcases (resume_bind_ok (waitless_inodeLocate n)).mp k₂ with ⟨pos, s₃, h₃, k₃⟩
      rcases inodeLocate_run h₃ with ⟨-, rfl, rfl⟩
      rcases (resume_bind_ok waitless_mallocUnchecked).mp k₃ with ⟨_, s₄, h₄, k₄⟩
      have hq₄ : s₄ = _ := quiet_mallocUnchecked _ _ _ h₄
      rcases (resume_bind_ok (waitless_newInode .kernel)).mp k₄ with ⟨a, s₅, h₅, k₅⟩
      rcases newInode_run h₅ with ⟨ha, hs₅⟩
      rcases (resume_bind_ok waitless_mallocUnchecked).mp k₅ with ⟨_, s₆, h₆, k₆⟩
      have hq₆ : s₆ = _ := quiet_mallocUnchecked _ _ _ h₆
      -- The transfer is where the call waits, with the end of the fetch left to do.
      have hread : (ideRead (inodePos s₃.part.sb n).secLba (inodePos s₃.part.sb n).sects).resume s₆ =
          (if (inodePos s₃.part.sb n).secLba ≤ maxLba ∧ 0 < (inodePos s₃.part.sb n).sects then
            .ok (s₆, .inr (Prog.read (fun s => sectors s.disk (inodePos s₃.part.sb n).secLba
              (inodePos s₃.part.sb n).sects))) else .error (.assertion .ideRead)) := by
        rw [ideRead, assert, check]
        by_cases hc : (inodePos s₃.part.sb n).secLba ≤ maxLba ∧ 0 < (inodePos s₃.part.sb n).sects
        · rw [if_pos hc, if_pos hc]
          rfl
        · rw [if_neg hc, if_neg hc]
          rfl
      rw [resume_bind, hread] at k₆
      by_cases hc : (inodePos s₃.part.sb n).secLba ≤ maxLba ∧ 0 < (inodePos s₃.part.sb n).sects
      · rw [if_pos hc] at k₆
        cases k₆
        refine ⟨hfound, ?_, ?_⟩
        · rw [show s₃.nextInode = a by rw [ha, hq₄]]
          rfl
        · show Quiet _ s₆
          rw [hq₆, hs₅, ha, hq₄]
          rfl
      · rw [if_neg hc] at k₆
        cases k₆

/-- A call up to its wait. It ends at once if no slot is free, or if the inode
    is open already. Otherwise there is a new object, and the disk is asked. -/
theorem prog_resume {c : OpenCall} {r : Fs × (Int ⊕ FsM Int)}
    (h : (c.prog t).resume s = .ok r) :
    (∃ x, r = (s, .inl x)) ∨
      (∃ a i x, a ∈ s.part.openInodes ∧ (s.inode a).iNo = c.inodeNo ∧ i.iNo = c.inodeNo ∧
        (ending t c (c.slot s) a).run (s.setInode a i) = .ok (x, r.1) ∧ r.2 = .inl x) ∨
      ((∀ a, a ∈ s.part.openInodes → (s.inode a).iNo ≠ c.inodeNo) ∧
        r.2 = .inr (openEnd t c (c.slot s) s.nextInode (inodePos s.part.sb c.inodeNo)) ∧
        Quiet ({ s with nextInode := s.nextInode + 1 }.setHome s.nextInode .kernel) r.1) := by
  -- A `file_open` looks for a slot first, and ends there if the table is full.
  have hcall : (∃ x, r = (s, .inl x)) ∨
      (inodeOpen t c.inodeNo >>= ending t c (c.slot s)).resume s = .ok r := by
    cases c with
    | inode n => exact Or.inr h
    | file n flag =>
        rcases (resume_bind_ok (waitless_read _)).mp h with ⟨slot, s₁, h₁, k₁⟩
        rcases read_ok h₁ with ⟨hslot, rfl⟩
        rw [OpenCall.slot, ← hslot]
        cases slot with
        | none =>
            cases k₁
            exact Or.inl ⟨-1, rfl⟩
        | some g => exact Or.inr k₁
  rcases hcall with hfull | hcall
  · exact Or.inl hfull
  · right
    rw [resume_bind] at hcall
    rcases bind_eq_ok.mp hcall with ⟨r₁, h₁, k₁⟩
    rcases inodeOpen_resume h₁ with ⟨a, i, ha, hn, hi, rfl⟩ | ⟨hnone, hrest, hq⟩
    · left
      dsimp only at k₁
      rw [resume_of_waitless (waitless_ending t c _ a)] at k₁
      rcases bind_eq_ok.mp k₁ with ⟨y, hy, ky⟩
      cases ky
      exact ⟨a, i, y.1, ha, hn, hi, hy, rfl⟩
    · right
      rw [hrest] at k₁
      cases k₁
      exact ⟨hnone, rfl, hq⟩

/-- What a call does once its inode is open: it fills its slot, and a
    descriptor may refer to it then. -/
structure Ends (t : Nat) (slot : Option Nat) (s s' : Fs) : Prop where
  part : s'.part = s.part
  disk : s'.disk = s.disk
  next : s'.nextInode = s.nextInode
  iNo : ∀ a, (s'.inode a).iNo = (s.inode a).iNo
  rest : ∀ g, slot ≠ some g → s'.fileTable g = s.fileTable g
  fd : s'.fdTable = s.fdTable ∨ ∃ k g a, slot = some g ∧ IsFd k ∧ s.fdTable t k = -1 ∧
    s'.fdTable = (s.setFd t k g).fdTable ∧ (s'.fileTable g).fdInode = some a

theorem ends_refl (slot : Option Nat) (s : Fs) : Ends t slot s s :=
  ⟨rfl, rfl, rfl, fun _ => rfl, fun _ _ => rfl, Or.inl rfl⟩

/-- The slot is filled, and `pcb_fd_install` is called. -/
theorem ends_install {g a flag : Nat} {j : Inode} {r : Int} {s₁ : Fs}
    (hj : j.iNo = (s.inode a).iNo) (hs₁ : s₁ = (s.setFile g ⟨0, flag, some a⟩).setInode a j)
    (h : (pcbFdInstall t g).run s₁ = .ok (r, s')) : Ends t (some g) s s' := by
  have hiNo : ∀ b, (s₁.inode b).iNo = (s.inode b).iNo := by
    intro b
    rw [hs₁]
    show (Function.update s.inode a j b).iNo = _
    by_cases hb : b = a
    · rw [hb, Function.update_self, hj]
    · rw [Function.update_of_ne hb]
  have hrest : ∀ x, some g ≠ some x → s₁.fileTable x = s.fileTable x := by
    intro x hx
    rw [hs₁]
    exact setFile_of_ne _ (fun hc => hx (congrArg some hc.symm)) _
  have hfd : s₁.fdTable = s.fdTable := by rw [hs₁]; rfl
  rcases pcbFdInstall_run h with ⟨-, rfl⟩ | ⟨k, -, hk3, hk8, hfree, rfl⟩
  · exact ⟨by rw [hs₁]; rfl, by rw [hs₁]; rfl, by rw [hs₁]; rfl, hiNo, hrest, Or.inl hfd⟩
  · refine ⟨by rw [hs₁]; rfl, by rw [hs₁]; rfl, by rw [hs₁]; rfl, hiNo, hrest,
      Or.inr ⟨k, g, a, rfl, ⟨hk3, hk8⟩, ?_, ?_, ?_⟩⟩
    · rw [← hfd]
      exact hfree
    · rw [Fs.setFd, Fs.setFd, hfd]
    · rw [hs₁]
      show (Function.update s.fileTable g _ g).fdInode = _
      rw [Function.update_self]

/-- What is left of a call once the inode is open. -/
theorem ending_ends {c : OpenCall} {slot : Option Nat} {a : Nat} {r : Int}
    (h : (ending t c slot a).run s = .ok (r, s')) : Ends t slot s s' := by
  cases c with
  | inode n =>
      rcases pure_ok h with ⟨-, rfl⟩
      exact ends_refl slot s'
  | file n flag =>
      cases slot with
      | none =>
          rcases pure_ok h with ⟨-, rfl⟩
          exact ends_refl none s'
      | some g =>
          rcases run_bind_ok.mp h with ⟨_, s₁, h₁, k₁⟩
          have hs₁ := modify_ok h₁
          -- Filling the slot leaves the inodes alone.
          have hsame : s₁ = (s.setFile g ⟨0, flag, some a⟩).setInode a (s.inode a) := by
            rw [hs₁, Fs.setInode]
            show _ = { s.setFile g ⟨0, flag, some a⟩ with
              inode := Function.update s.inode a (s.inode a) }
            rw [Function.update_eq_self]
            rfl
          by_cases hw : flag = oWronly ∨ flag = oRdwr
          · rw [if_pos hw] at k₁
            rcases run_bind_ok.mp k₁ with ⟨i, s₂, h₂, k₂⟩
            rcases inodeAt_run h₂ with ⟨-, rfl, rfl⟩
            by_cases hd : (s₂.inode a).writeDeny = true
            · rw [if_pos hd] at k₂
              rcases pure_ok k₂ with ⟨-, rfl⟩
              rw [hs₁]
              exact ⟨rfl, rfl, rfl, fun _ => rfl,
                fun x hx => setFile_of_ne _ (fun hc => hx (congrArg some hc.symm)) _, Or.inl rfl⟩
            · rw [if_neg hd] at k₂
              rcases run_bind_ok.mp k₂ with ⟨_, s₃, h₃, k₃⟩
              have hs₃ : s₃ = (s.setFile g ⟨0, flag, some a⟩).setInode a
                  { s.inode a with writeDeny := true } := by
                rw [setInodeAt_run h₃, hs₁]
                rfl
              refine ends_install ?_ hs₃ k₃
              rfl
          · rw [if_neg hw] at k₁
            exact ends_install rfl hsame k₁

/-- `inode_open` after the wait: the object at `a` holds the record, and is on
    the list. -/
theorem openEnd_run {c : OpenCall} {slot : Option Nat} {a n : Nat} {r : Int}
    (h : (openEnd t c slot a (inodePos s.part.sb n)).run s = .ok (r, s')) :
    ∃ i, i.iNo = (diskInode s n).iNo ∧
      Ends t slot ((s.setInode a i).setOpenInodes (a :: s.part.openInodes)) s' := by
  rcases run_bind_ok.mp h with ⟨b, s₁, h₁, k₁⟩
  rcases run_bind_ok.mp h₁ with ⟨buf, s₂, h₂, k₂⟩
  rcases read_ok h₂ with ⟨rfl, rfl⟩
  rcases run_bind_ok.mp k₂ with ⟨_, s₃, h₃, k₃⟩
  rcases run_bind_ok.mp k₃ with ⟨_, s₄, h₄, k₄⟩
  rcases pure_ok k₄ with ⟨rfl, rfl⟩
  have hs := modify_ok h₄
  rw [setInodeAt_run h₃] at hs
  have he := ending_ends k₁
  rw [hs] at he
  exact ⟨{ decodeInode (sectors s₂.disk (inodePos s₂.part.sb n).secLba (inodePos s₂.part.sb n).sects)
    (inodePos s₂.part.sb n).offSize with iOpenCnts := 1 },
    (decodeInode_sectors s₂.disk s₂.part.sb n).iNo, he⟩

section Tables

variable {s : OpenState} {fs : Fs} {t : Nat}

/-- The part of the invariant about `file_table` and the descriptors. -/
structure TableInv (s : OpenState) : Prop where
  slots : SlotsApart s.fs
  taken : ∀ t k, IsFd k → s.fs.fdTable t k ≠ -1 →
    ∃ g a : Nat, s.fs.fdTable t k = g ∧ (s.fs.fileTable g).fdInode = some a
  free : ∀ t w g, s.waiting t = some w → w.slot = some g → (s.fs.fileTable g).fdInode = none
  apart : ∀ t t' w w' g, t ≠ t' → s.waiting t = some w → s.waiting t' = some w' →
    w.slot = some g → w'.slot ≠ some g

theorem waiting_stop {w : WaitingOpen} {t' : Nat}
    (h : Function.update s.waiting t none t' = some w) : t' ≠ t ∧ s.waiting t' = some w := by
  by_cases ht : t' = t
  · rw [ht, Function.update_self] at h
    cases h
  · rw [Function.update_of_ne ht] at h
    exact ⟨ht, h⟩

theorem waiting_start {w w₀ : WaitingOpen} {t' : Nat}
    (h : Function.update s.waiting t (some w₀) t' = some w) :
    (t' = t ∧ w = w₀) ∨ (t' ≠ t ∧ s.waiting t' = some w) := by
  by_cases ht : t' = t
  · rw [ht, Function.update_self, Option.some.injEq] at h
    exact Or.inl ⟨ht, h.symm⟩
  · rw [Function.update_of_ne ht] at h
    exact Or.inr ⟨ht, h⟩

namespace TableInv

theorem congr (h : TableInv s) (hft : fs.fileTable = s.fs.fileTable)
    (hfd : fs.fdTable = s.fs.fdTable) : TableInv ⟨fs, s.waiting⟩ := by
  refine ⟨?_, ?_, ?_, h.apart⟩
  · unfold SlotsApart
    rw [hfd]
    exact h.slots
  · dsimp only
    rw [hfd, hft]
    exact h.taken
  · dsimp only
    rw [hft]
    exact h.free

/-- A task waits no more. -/
theorem stop (h : TableInv s) (t : Nat) :
    TableInv ⟨s.fs, Function.update s.waiting t none⟩ := by
  refine ⟨h.slots, h.taken, ?_, ?_⟩
  · intro t' w g hw hg
    exact h.free t' w g (waiting_stop hw).2 hg
  · intro t' t'' w w' g hne hw hw' hg
    exact h.apart t' t'' w w' g hne (waiting_stop hw).2 (waiting_stop hw').2 hg

/-- A task begins to wait, with a slot that is free and that no other task has
    chosen. -/
theorem wait (h : TableInv s) {w₀ : WaitingOpen}
    (hfree : ∀ g, w₀.slot = some g → (s.fs.fileTable g).fdInode = none)
    (hapart : ∀ t' w g, s.waiting t' = some w → w₀.slot = some g → w.slot ≠ some g) :
    TableInv ⟨s.fs, Function.update s.waiting t (some w₀)⟩ := by
  refine ⟨h.slots, h.taken, ?_, ?_⟩
  · intro t' w g hw hg
    rcases waiting_start hw with ⟨-, rfl⟩ | ⟨-, hw⟩
    · exact hfree g hg
    · exact h.free t' w g hw hg
  · intro t' t'' w w' g hne hw hw' hg hg'
    rcases waiting_start hw with ⟨rfl, rfl⟩ | ⟨-, hw⟩
    · rcases waiting_start hw' with ⟨rfl, -⟩ | ⟨-, hw'⟩
      · exact hne rfl
      · exact hapart t'' w' g hw' hg hg'
    · rcases waiting_start hw' with ⟨-, hw₀⟩ | ⟨-, hw'⟩
      · rw [hw₀] at hg'
        exact hapart t' w g hw hg' hg
      · exact h.apart t' t'' w w' g hne hw hw' hg hg'

/-- A call fills the slot it has chosen. -/
theorem ends (h : TableInv s) {slot : Option Nat} (he : Ends t slot s.fs fs)
    (hfree : ∀ g, slot = some g → (s.fs.fileTable g).fdInode = none)
    (hapart : ∀ t' w g, s.waiting t' = some w → slot = some g → w.slot ≠ some g) :
    TableInv ⟨fs, s.waiting⟩ := by
  -- A descriptor that was set refers to a slot that was taken, so not to this one.
  have hold : ∀ t' k, IsFd k → s.fs.fdTable t' k ≠ -1 → ∃ g a : Nat, s.fs.fdTable t' k = g ∧
      slot ≠ some g ∧ (fs.fileTable g).fdInode = some a := by
    intro t' k hk hne
    rcases h.taken t' k hk hne with ⟨g, a, hg, ha⟩
    have hslot : slot ≠ some g := by
      intro hc
      rw [hfree g hc] at ha
      cases ha
    exact ⟨g, a, hg, hslot, by rw [he.rest g hslot]; exact ha⟩
  have hwaits : ∀ t' w g, s.waiting t' = some w → w.slot = some g →
      (fs.fileTable g).fdInode = none := by
    intro t' w g hw hg
    rw [he.rest g (fun hc => hapart t' w g hw hc hg)]
    exact h.free t' w g hw hg
  rcases he.fd with hfd | ⟨k₀, g₀, a₀, hslot, hk₀, hwas, hfd, ha₀⟩
  · refine ⟨?_, ?_, hwaits, h.apart⟩
    · unfold SlotsApart
      rw [hfd]
      exact h.slots
    · dsimp only
      rw [hfd]
      intro t' k hk hne
      rcases hold t' k hk hne with ⟨g, a, hg, -, ha⟩
      exact ⟨g, a, hg, ha⟩
  · have hcases : ∀ t' k, (t' = t ∧ k = k₀ ∧ fs.fdTable t' k = g₀) ∨
        (¬ (t' = t ∧ k = k₀) ∧ fs.fdTable t' k = s.fs.fdTable t' k) := by
      intro t' k
      rw [hfd]
      show _ ∨ (_ ∧ (s.fs.setFd t k₀ g₀).fdTable t' k = _)
      by_cases hk : t' = t ∧ k = k₀
      · exact Or.inl ⟨hk.1, hk.2, by rw [hk.1, hk.2, setFd_self]⟩
      · exact Or.inr ⟨hk, setFd_of_ne _ hk _⟩
    refine ⟨?_, ?_, hwaits, h.apart⟩
    · intro t₁ k₁ t₂ k₂ hk₁ hk₂ hne heq
      rcases hcases t₁ k₁ with ⟨rfl, rfl, h₁⟩ | ⟨hn₁, h₁⟩
      · rcases hcases t₂ k₂ with ⟨rfl, rfl, -⟩ | ⟨-, h₂⟩
        · exact ⟨rfl, rfl⟩
        · dsimp only at hne heq
          rw [heq, h₂] at hne
          rcases hold t₂ k₂ hk₂ hne with ⟨g, a, hg, hng, -⟩
          rw [h₁, h₂, hg] at heq
          exact absurd (by rw [hslot, Int.ofNat_inj.mp heq]) hng
      · dsimp only at hne heq
        rw [h₁] at hne
        rcases hcases t₂ k₂ with ⟨rfl, rfl, h₂⟩ | ⟨-, h₂⟩
        · rcases hold t₁ k₁ hk₁ hne with ⟨g, a, hg, hng, -⟩
          rw [h₁, h₂, hg] at heq
          exact absurd (by rw [hslot, Int.ofNat_inj.mp heq]) hng
        · rw [h₁, h₂] at heq
          exact h.slots t₁ k₁ t₂ k₂ hk₁ hk₂ hne heq
    · intro t' k hk hne
      dsimp only at hne ⊢
      rcases hcases t' k with ⟨-, -, h'⟩ | ⟨-, h'⟩
      · exact ⟨g₀, a₀, h', ha₀⟩
      · rw [h'] at hne ⊢
        rcases hold t' k hk hne with ⟨g, a, hg, -, ha⟩
        exact ⟨g, a, hg, ha⟩

/-- A descriptor is closed, and the slot it refers to is free. -/
theorem close (h : TableInv s) {k₀ g₀ : Nat} (hk₀ : IsFd k₀) (hwas : s.fs.fdTable t k₀ = g₀)
    (hfree : (fs.fileTable g₀).fdInode = none)
    (hrest : ∀ x, x ≠ g₀ → fs.fileTable x = s.fs.fileTable x)
    (hfd : fs.fdTable = (s.fs.setFd t k₀ (-1)).fdTable) : TableInv ⟨fs, s.waiting⟩ := by
  -- A descriptor that is left over is not the one that was closed.
  have hkept : ∀ t' k, fs.fdTable t' k ≠ -1 →
      ¬ (t' = t ∧ k = k₀) ∧ fs.fdTable t' k = s.fs.fdTable t' k := by
    intro t' k hne
    rw [hfd] at hne ⊢
    by_cases hk : t' = t ∧ k = k₀
    · rw [hk.1, hk.2, setFd_self] at hne
      exact absurd rfl hne
    · exact ⟨hk, setFd_of_ne _ hk _⟩
  refine ⟨?_, ?_, ?_, h.apart⟩
  · intro t₁ k₁ t₂ k₂ hk₁ hk₂ hne heq
    have h₂ := (hkept t₂ k₂ (heq ▸ hne)).2
    rcases hkept t₁ k₁ hne with ⟨-, h₁⟩
    dsimp only at hne heq
    rw [h₁] at hne
    rw [h₁, h₂] at heq
    exact h.slots t₁ k₁ t₂ k₂ hk₁ hk₂ hne heq
  · intro t' k hk hne
    rcases hkept t' k hne with ⟨hother, h'⟩
    dsimp only at hne ⊢
    rw [h'] at hne ⊢
    rcases h.taken t' k hk hne with ⟨g, a, hg, ha⟩
    have hgg : g ≠ g₀ := by
      intro hc
      rw [hc] at hg
      exact hother (h.slots t' k t k₀ hk hk₀ hne (hg.trans hwas.symm))
    exact ⟨g, a, hg, by rw [hrest g hgg]; exact ha⟩
  · intro t' w g hw hg
    dsimp only
    by_cases hgg : g = g₀
    · rw [hgg]
      exact hfree
    · rw [hrest g hgg]
      exact h.free t' w g hw hg

end TableInv

end Tables

section Lists

variable {s : OpenState} {fs : Fs} {t : Nat} {obj : Nat → Nat}

/-- What is known of a call that waits with the object at `a`. -/
structure Fetching (s : Fs) (t : Nat) (w : WaitingOpen) (a : Nat) : Prop where
  rest : w.rest = openEnd t w.call w.slot a (inodePos s.part.sb w.call.inodeNo)
  made : a < s.nextInode
  unlisted : a ∉ s.part.openInodes
  alone : ∀ b, b ∈ s.part.openInodes → (s.inode b).iNo ≠ w.call.inodeNo
  record : (diskInode s w.call.inodeNo).iNo = w.call.inodeNo

/-- The part of the invariant about `open_inodes`, where task `t` waits with
    the object at `obj t`. -/
structure ListInv (obj : Nat → Nat) (s : OpenState) : Prop where
  inodes : InodesApart s.fs
  listed : ∀ a, a ∈ s.fs.part.openInodes → a < s.fs.nextInode
  fetching : ∀ t w, s.waiting t = some w → Fetching s.fs t w (obj t)
  apart : ∀ t t' w w', t ≠ t' → s.waiting t = some w → s.waiting t' = some w' →
    obj t ≠ obj t' ∧ w.call.inodeNo ≠ w'.call.inodeNo

/-- Inodes are taken off the list, and no number on it changes. -/
structure Shrinks (s s' : Fs) : Prop where
  sb : s'.part.sb = s.part.sb
  disk : s'.disk = s.disk
  next : s.nextInode ≤ s'.nextInode
  sub : s'.part.openInodes.Sublist s.part.openInodes
  iNo : ∀ a, a ∈ s'.part.openInodes → (s'.inode a).iNo = (s.inode a).iNo

theorem Shrinks.diskInode_eq {s s' : Fs} (h : Shrinks s s') (n : Nat) :
    diskInode s' n = diskInode s n := by
  rw [diskInode, diskInode, h.sb, h.disk]

theorem Ends.shrinks {slot : Option Nat} {s s' : Fs} (h : Ends t slot s s') : Shrinks s s' := by
  refine ⟨by rw [h.part], h.disk, Nat.le_of_eq h.next.symm, ?_, fun a _ => h.iNo a⟩
  rw [h.part]

/-- An inode is closed. -/
theorem inodeClose_shrinks {a : Nat} {s s' : Fs} {u : Unit}
    (hlisted : ∀ b, b ∈ s.part.openInodes → b < s.nextInode)
    (h : (inodeClose t a).run s = .ok (u, s')) : Shrinks s s' := by
  have hlook := looked_inodeClose _ _ _ _ _ h
  have hsub : s'.part.openInodes.Sublist s.part.openInodes := by
    rcases run_bind_ok.mp h with ⟨i, s₁, h₁, k₁⟩
    rcases inodeAt_run h₁ with ⟨-, rfl, rfl⟩
    rcases run_bind_ok.mp k₁ with ⟨_, s₂, h₂, k₂⟩
    have hopen : s₂.part.openInodes = s₁.part.openInodes := by rw [setInodeAt_run h₂]; rfl
    by_cases hz : sub32 (s₁.inode a).iOpenCnts 1 = 0
    · rw [if_pos hz] at k₂
      rcases run_bind_ok.mp k₂ with ⟨_, s₃, h₃, k₃⟩
      rcases read_ok h₃ with ⟨-, rfl⟩
      rcases run_bind_ok.mp k₃ with ⟨_, s₄, h₄, k₄⟩
      rcases check_ok h₄ with ⟨-, rfl⟩
      rcases run_bind_ok.mp k₄ with ⟨_, s₅, h₅, k₅⟩
      rcases read_ok h₅ with ⟨-, rfl⟩
      rcases run_bind_ok.mp k₅ with ⟨_, s₆, h₆, k₆⟩
      rcases check_ok h₆ with ⟨-, rfl⟩
      rw [modify_ok k₆, ← hopen]
      exact List.erase_sublist
    · rw [if_neg hz] at k₂
      rcases pure_ok k₂ with ⟨-, rfl⟩
      rw [hopen]
  exact ⟨hlook.sb, hlook.disk, hlook.next, hsub,
    fun b hb => (hlook.old b (hlisted b (hsub.subset hb))).iNo⟩

/-- A file is closed. -/
theorem fileClose_shrinks {g : Nat} {s s' : Fs} {r : Int}
    (hlisted : ∀ b, b ∈ s.part.openInodes → b < s.nextInode)
    (h : (fileClose t g).run s = .ok (r, s')) : Shrinks s s' := by
  rcases fileClose_steps h with ⟨a, s₁, -, hclose, rfl⟩
  have hsh := inodeClose_shrinks (s := s.setInode a { s.inode a with writeDeny := false }) hlisted
    hclose
  refine ⟨hsh.sb, hsh.disk, hsh.next, hsh.sub, fun b hb => (hsh.iNo b hb).trans ?_⟩
  show (Function.update s.inode a _ b).iNo = _
  by_cases hb : b = a
  · rw [hb, Function.update_self]
  · rw [Function.update_of_ne hb]

namespace ListInv

theorem shrinks (h : ListInv obj s) (hs : Shrinks s.fs fs) : ListInv obj ⟨fs, s.waiting⟩ := by
  refine ⟨⟨hs.sub.nodup h.inodes.1, ?_⟩, ?_, ?_, h.apart⟩
  · intro a b ha hb heq
    dsimp only at ha hb heq
    rw [hs.iNo a ha, hs.iNo b hb] at heq
    exact h.inodes.2 a b (hs.sub.subset ha) (hs.sub.subset hb) heq
  · exact fun a ha => Nat.lt_of_lt_of_le (h.listed a (hs.sub.subset ha)) hs.next
  · intro t' w hw
    have hf := h.fetching t' w hw
    refine ⟨?_, Nat.lt_of_lt_of_le hf.made hs.next, ?_, ?_, ?_⟩
    · dsimp only
      rw [hs.sb]
      exact hf.rest
    · exact fun hc => hf.unlisted (hs.sub.subset hc)
    · intro b hb
      rw [hs.iNo b hb]
      exact hf.alone b (hs.sub.subset hb)
    · rw [hs.diskInode_eq]
      exact hf.record

/-- A task waits no more. -/
theorem stop (h : ListInv obj s) (t : Nat) :
    ListInv obj ⟨s.fs, Function.update s.waiting t none⟩ := by
  refine ⟨h.inodes, h.listed, ?_, ?_⟩
  · exact fun t' w hw => h.fetching t' w (waiting_stop hw).2
  · exact fun t' t'' w w' hne hw hw' => h.apart t' t'' w w' hne (waiting_stop hw).2
      (waiting_stop hw').2

/-- A task begins to wait, for an inode that is not open and that no other
    task waits for. -/
theorem wait (h : ListInv obj s) {w₀ : WaitingOpen} {a : Nat} (hf : Fetching s.fs t w₀ a)
    (hapart : ∀ t' w, s.waiting t' = some w → obj t' ≠ a ∧ w.call.inodeNo ≠ w₀.call.inodeNo) :
    ListInv (Function.update obj t a) ⟨s.fs, Function.update s.waiting t (some w₀)⟩ := by
  refine ⟨h.inodes, h.listed, ?_, ?_⟩
  · intro t' w hw
    rcases waiting_start hw with ⟨rfl, rfl⟩ | ⟨ht, hw⟩
    · rw [Function.update_self]
      exact hf
    · rw [Function.update_of_ne ht]
      exact h.fetching t' w hw
  · intro t' t'' w w' hne hw hw'
    rcases waiting_start hw with ⟨rfl, rfl⟩ | ⟨ht, hw⟩
    · rcases waiting_start hw' with ⟨rfl, -⟩ | ⟨ht', hw'⟩
      · exact absurd rfl hne
      · rw [Function.update_self, Function.update_of_ne ht']
        exact ⟨(hapart t'' w' hw').1.symm, (hapart t'' w' hw').2.symm⟩
    · rcases waiting_start hw' with ⟨ht', hw₀⟩ | ⟨ht', hw'⟩
      · rw [ht', Function.update_self, Function.update_of_ne ht, hw₀]
        exact hapart t' w hw
      · rw [Function.update_of_ne ht, Function.update_of_ne ht']
        exact h.apart t' t'' w w' hne hw hw'

/-- The object a task waits with is put on the list, with the number the task
    has asked for. -/
theorem push (h : ListInv obj s) {w : WaitingOpen} {i : Inode} (hw : s.waiting t = some w)
    (hi : i.iNo = w.call.inodeNo) :
    ListInv obj ⟨(s.fs.setInode (obj t) i).setOpenInodes (obj t :: s.fs.part.openInodes),
      Function.update s.waiting t none⟩ := by
  have hf := h.fetching t w hw
  -- The record has the number that was asked for, and no listed inode has it.
  have hself : Function.update s.fs.inode (obj t) i (obj t) = i := Function.update_self _ _ _
  have hother : ∀ b, b ∈ s.fs.part.openInodes →
      Function.update s.fs.inode (obj t) i b = s.fs.inode b :=
    fun b hb => Function.update_of_ne (fun hc : b = obj t => hf.unlisted (hc ▸ hb)) _ _
  refine ⟨⟨List.nodup_cons.mpr ⟨hf.unlisted, h.inodes.1⟩, ?_⟩, ?_, ?_, ?_⟩
  · intro a b ha hb heq
    change (Function.update s.fs.inode (obj t) i a).iNo
      = (Function.update s.fs.inode (obj t) i b).iNo at heq
    -- The two cases of one new and one old inode contradict that it is alone.
    rcases List.mem_cons.mp ha with ha' | ha' <;> rcases List.mem_cons.mp hb with hb' | hb'
    · rw [ha', hb']
    · rw [ha', hself, hother b hb', hi] at heq
      exact absurd heq.symm (hf.alone b hb')
    · rw [hb', hself, hother a ha', hi] at heq
      exact absurd heq (hf.alone a ha')
    · rw [hother a ha', hother b hb'] at heq
      exact h.inodes.2 a b ha' hb' heq
  · intro a ha
    rcases List.mem_cons.mp ha with ha' | ha'
    · rw [ha']
      exact hf.made
    · exact h.listed a ha'
  · -- Another task that waits has another object and asks for another number.
    intro t' w' hw'
    rcases waiting_stop hw' with ⟨ht, hw'⟩
    have hf' := h.fetching t' w' hw'
    have hne := h.apart t' t w' w ht hw' hw
    refine ⟨hf'.rest, hf'.made, ?_, ?_, hf'.record⟩
    · intro hc
      rcases List.mem_cons.mp hc with hc | hc
      · exact hne.1 hc
      · exact hf'.unlisted hc
    · intro b hb
      show (Function.update s.fs.inode (obj t) i b).iNo ≠ _
      rcases List.mem_cons.mp hb with hb' | hb'
      · rw [hb', hself, hi]
        exact hne.2.symm
      · rw [hother b hb']
        exact hf'.alone b hb'
  · exact fun t' t'' w w' hne hw hw' => h.apart t' t'' w w' hne (waiting_stop hw).2
      (waiting_stop hw').2

end ListInv

end Lists

section Steps

variable {s s' : OpenState} {t : Nat}

/-- The invariant. -/
def OpensInv (s : OpenState) : Prop := TableInv s ∧ ∃ obj, ListInv obj s

theorem resumeOpen_cases {c : OpenCall} {slot : Option Nat} {x : FsM Int}
    (h : resumeOpen s t c slot x = .ok s') :
    ∃ r, x.resume s.fs = .ok r ∧
      ((∃ y, r.2 = .inl y ∧ s' = ⟨r.1, Function.update s.waiting t none⟩) ∨
        ∃ k, r.2 = .inr k ∧ s' = ⟨r.1, Function.update s.waiting t (some ⟨c, slot, k⟩)⟩) := by
  rcases bind_eq_ok.mp h with ⟨r, hr, hs⟩
  refine ⟨r, hr, ?_⟩
  cases hy : r.2 with
  | inl y =>
      rw [hy] at hs
      cases hs
      exact Or.inl ⟨y, rfl, rfl⟩
  | inr k =>
      rw [hy] at hs
      cases hs
      exact Or.inr ⟨k, rfl, rfl⟩

theorem slot_free {c : OpenCall} {fs : Fs} {g : Nat} (h : c.slot fs = some g) :
    (fs.fileTable g).fdInode = none := by
  cases c with
  | inode n => cases h
  | file n flag => exact ((freeSlotFrom_first _).of_some h).2.2

/-- A call starts. -/
theorem start_opens {c : OpenCall} (h : OpensInv s) (hcond : NoCollision s (.start t c))
    (hs : openStep s (.start t c) = .ok s') : OpensInv s' := by
  rcases h with ⟨htab, obj, hlist⟩
  rcases hcond with ⟨hrec, hc⟩
  rcases resumeOpen_cases hs with ⟨r, hr, hend⟩
  have hchosen : ∀ t' w g, s.waiting t' = some w → c.slot s.fs = some g → w.slot ≠ some g :=
    fun t' w g hw hg => (hc t' w hw).2 g hg
  -- The call ends without a change, finds the inode open, or goes to the disk.
  rcases prog_resume hr with ⟨x, rfl⟩ | ⟨a, i, x, ha, hn, hi, hrun, hx⟩ | ⟨hnone, hrest, hq⟩
  · rcases hend with ⟨y, -, rfl⟩ | ⟨k, hk, -⟩
    · exact ⟨htab.stop t, obj, hlist.stop t⟩
    · cases hk
  · have he := ending_ends hrun
    have hset : Shrinks s.fs (s.fs.setInode a i) := by
      refine ⟨rfl, rfl, Nat.le_refl _, List.Sublist.refl _, fun b _ => ?_⟩
      show (Function.update s.fs.inode a i b).iNo = _
      by_cases hb : b = a
      · rw [hb, Function.update_self, hi, hn]
      · rw [Function.update_of_ne hb]
    rcases hend with ⟨y, -, rfl⟩ | ⟨k, hk, -⟩
    · have htab₁ : TableInv ⟨s.fs.setInode a i, s.waiting⟩ := htab.congr rfl rfl
      refine ⟨(htab₁.ends he (fun g hg => slot_free hg) hchosen).stop t, obj, ?_⟩
      exact ((hlist.shrinks hset).shrinks he.shrinks).stop t
    · rw [hx] at hk
      cases hk
  · unfold Quiet at hq
    have hsh : Shrinks s.fs r.1 := by
      rw [hq]
      exact ⟨rfl, rfl, Nat.le_succ _, List.Sublist.refl _, fun _ _ => rfl⟩
    have hlist₁ := hlist.shrinks hsh
    have htab₁ : TableInv ⟨r.1, s.waiting⟩ := by
      refine htab.congr ?_ ?_
      · rw [hq]
        rfl
      · rw [hq]
        rfl
    have hsame : (∀ b, r.1.inode b = s.fs.inode b) ∧ r.1.part = s.fs.part ∧
        r.1.nextInode = s.fs.nextInode + 1 ∧ r.1.fileTable = s.fs.fileTable := by
      rw [hq]
      exact ⟨fun _ => rfl, rfl, rfl, rfl⟩
    rcases hsame with ⟨hinode, hpart, hnext, hft⟩
    rcases hend with ⟨y, hy, -⟩ | ⟨k, hk, rfl⟩
    · rw [hrest] at hy
      cases hy
    · rw [hrest, Sum.inr.injEq] at hk
      refine ⟨htab₁.wait ?_ hchosen, _, hlist₁.wait (a := s.fs.nextInode) ?_ ?_⟩
      · intro g hg
        dsimp only
        rw [hft]
        exact slot_free hg
      · refine ⟨?_, ?_, ?_, ?_, ?_⟩
        · dsimp only
          rw [hpart]
          exact hk.symm
        · dsimp only
          omega
        · intro hmem
          dsimp only at hmem
          rw [hpart] at hmem
          exact Nat.lt_irrefl _ (hlist.listed _ hmem)
        · dsimp only
          rw [hpart]
          intro b hb
          rw [hinode]
          exact hnone b hb
        · dsimp only
          rw [hsh.diskInode_eq]
          exact hrec
      · -- The condition: no other task waits for the same number.
        intro t' w hw
        exact ⟨Nat.ne_of_lt (hlist.fetching t' w hw).made, (hc t' w hw).1⟩

/-- A call goes on after its wait. -/
theorem wake_opens (h : OpensInv s) (hs : openStep s (.wake t) = .ok s') : OpensInv s' := by
  rcases h with ⟨htab, obj, hlist⟩
  cases hw : s.waiting t with
  | none =>
      rw [openStep, hw] at hs
      cases hs
      exact ⟨htab, obj, hlist⟩
  | some w =>
      rw [openStep, hw] at hs
      have hf := hlist.fetching t w hw
      rcases resumeOpen_cases hs with ⟨r, hr, hend⟩
      rw [hf.rest, resume_of_waitless (waitless_openEnd _ _ _ _ _)] at hr
      rcases bind_eq_ok.mp hr with ⟨y, hy, ky⟩
      cases ky
      rcases hend with ⟨z, -, rfl⟩ | ⟨k, hk, -⟩
      · rcases openEnd_run hy with ⟨i, hi, he⟩
        have hpush := hlist.push hw (hi.trans hf.record)
        have htab₁ : TableInv ⟨(s.fs.setInode (obj t) i).setOpenInodes
            (obj t :: s.fs.part.openInodes), Function.update s.waiting t none⟩ :=
          (htab.stop t).congr rfl rfl
        refine ⟨htab₁.ends he (fun g hg => htab.free t w g hw hg) ?_, obj, hpush.shrinks he.shrinks⟩
        intro t' w' g hw' hg
        rcases waiting_stop hw' with ⟨hne, hw'⟩
        exact htab.apart t t' w w' g hne.symm hw hw' hg
      · cases hk

/-- A descriptor or an inode is closed. -/
theorem close_opens {fd : Nat} (h : OpensInv s) (hfd : fd < maxFilesOpenPerProc)
    (hs : openStep s (.close t fd) = .ok s') : OpensInv s' := by
  rcases h with ⟨htab, obj, hlist⟩
  rcases bind_eq_ok.mp hs with ⟨r, hr, hs⟩
  cases hs
  rcases sysClose_steps hr with ⟨-, hsame⟩ | ⟨hgt, g, s₁, hg, hlt, hclose, hfs⟩
  · rw [hsame]
    exact ⟨htab, obj, hlist⟩
  · have hsh := fileClose_shrinks hlist.listed hclose
    rcases fileClose_steps hclose with ⟨a, s₂, -, hinode, hs₁⟩
    rcases fileClose_slot hinode hs₁ with ⟨hfree, hrest, hfds⟩
    rw [Int.toNat_natCast] at hg hfs
    rw [hfs]
    have hisFd : IsFd fd := ⟨by omega, hfd⟩
    refine ⟨htab.close hisFd hg hfree hrest ?_, obj, ?_⟩
    · rw [Fs.setFd, Fs.setFd, hfds]
    · exact hlist.shrinks ⟨hsh.sb, hsh.disk, hsh.next, hsh.sub, hsh.iNo⟩

theorem closeInode_opens {a : Nat} (h : OpensInv s)
    (hs : openStep s (.closeInode t a) = .ok s') : OpensInv s' := by
  rcases h with ⟨htab, obj, hlist⟩
  rcases bind_eq_ok.mp hs with ⟨r, hr, hs⟩
  cases hs
  have hlook := looked_inodeClose _ _ _ _ _ hr
  exact ⟨htab.congr hlook.fileTable hlook.fdTable, obj,
    hlist.shrinks (inodeClose_shrinks hlist.listed hr)⟩

theorem openInit_opens (h : openInit s) : OpensInv s := by
  rcases h with ⟨⟨t, fs, u, hrun⟩, hwait, hfds⟩
  rcases filesysInit_files hrun with ⟨hl, -⟩
  have hnone : ∀ t w, s.waiting t ≠ some w := by
    intro t w hw
    rw [hwait] at hw
    cases hw
  refine ⟨⟨?_, ?_, ?_, ?_⟩, id, ⟨hl.nodup, ?_⟩, fun a ha => (hl.there a ha).2, ?_, ?_⟩
  · exact fun t k _ _ hk _ hne _ => absurd (hfds t k hk) hne
  · exact fun t k hk hne => absurd (hfds t k hk) hne
  · exact fun t w _ hw => absurd hw (hnone t w)
  · exact fun t _ w _ _ _ hw => absurd hw (hnone t w)
  · -- The root directory is the only inode on the list.
    have hroot : ∀ a, a ∈ s.fs.part.openInodes → a = s.fs.rootDir := by
      intro a ha
      by_contra hne
      have hpos := (hl.listed a).mp ha
      rw [bump_of_ne hne] at hpos
      exact Nat.lt_irrefl 0 hpos
    exact fun a b ha hb _ => (hroot a ha).trans (hroot b hb).symm
  · exact fun t w hw => absurd hw (hnone t w)
  · exact fun t _ w _ _ hw => absurd hw (hnone t w)

/-- In every run whose calls start without a collision, no two descriptors
    refer to one slot, and no inode is open twice. -/
theorem opens_apart (h : (openSystem.restrict NoCollision).Reachable s) :
    SlotsApart s.fs ∧ InodesApart s.fs := by
  have hinv : OpensInv s := by
    refine System.invariant_of_step (openSystem.restrict NoCollision) OpensInv ?_ ?_ s h
    · exact fun s hs => openInit_opens hs
    · intro s e s' hinv he hs
      cases e with
      | start t c => exact start_opens hinv he.2 hs
      | wake t => exact wake_opens hinv hs
      | close t fd => exact close_opens hinv he.1.2 hs
      | closeInode t a => exact closeInode_opens hinv hs
  exact ⟨hinv.1.slots, hinv.2.choose_spec.inodes⟩

end Steps

section Example

instance (s : OpenState) (t : Nat) : Decidable (s.waiting t = none) :=
  decidable_of_iff _ Option.isNone_iff_eq_none

instance (s : OpenState) (e : OpenEvent) : Decidable (openSystem.enabled s e) :=
  match e with
  | .start _ _ => inferInstanceAs (Decidable (_ = _))
  | .wake _ => inferInstanceAs (Decidable (¬ _))
  | .close _ _ => inferInstanceAs (Decidable (_ ∧ _))
  | .closeInode _ _ => inferInstanceAs (Decidable (_ = _))

/-- A machine whose disk has the file `/a` on it, before `filesys_init`. -/
def diskWithA : Fs :=
  { blankFs 2048 10000 (· != 0) with
    disk := ((sysOpen 0 pathA 4).after ((filesysInit 0).after (blankFs 2048 10000 (· != 0)))).disk }

/-- The disk is mounted. -/
def mountedWithA : OpenState := ⟨(filesysInit 0).after diskWithA, fun _ => none⟩

theorem mountedWithA_init : openSystem.init mountedWithA := by
  have hok : ((filesysInit 0).run diskWithA).isOk = true := by decide +kernel
  rcases after_ok hok with ⟨u, hu⟩
  have hmounted : mountedWithA.fs = (filesysInit 0).after diskWithA := by rw [mountedWithA]
  rw [← hmounted] at hu
  refine ⟨⟨0, diskWithA, u, hu⟩, ?_, fun t k _ => ?_⟩
  · rw [mountedWithA]
  · rw [(filesysInit_before hu).2.2]
    rfl

/-- Two tasks open `/a`, and the second one starts while the first one waits.
    Both get slot 3, and the inode is on the list twice. -/
theorem opens_collide :
    openSystem.Reachable (openSystem.after mountedWithA
        [.start 1 (.file 1 0), .start 2 (.file 1 0), .wake 1, .wake 2]) ∧
      ¬ SlotsApart (openSystem.after mountedWithA
        [.start 1 (.file 1 0), .start 2 (.file 1 0), .wake 1, .wake 2]).fs ∧
      ¬ InodesApart (openSystem.after mountedWithA
        [.start 1 (.file 1 0), .start 2 (.file 1 0), .wake 1, .wake 2]).fs := by
  refine ⟨openSystem.reachable_after _ (.init _ mountedWithA_init) (by decide +kernel), ?_, ?_⟩
  · intro h
    have heq := h 1 3 2 3 ⟨by decide, by decide⟩ ⟨by decide, by decide⟩ (by decide +kernel)
      (by decide +kernel)
    exact absurd heq.1 (by decide)
  · intro h
    have heq := h.2 1 2 (by decide +kernel) (by decide +kernel) (by decide +kernel)
    exact absurd heq (by decide)

/-- While a task waits for the inode of `/a`, another one opens the root
    directory. -/
theorem opens_apart_root :
    SlotsApart (openSystem.after mountedWithA
        [.start 1 (.file 1 0), .start 2 (.inode 0), .wake 1]).fs ∧
      InodesApart (openSystem.after mountedWithA
        [.start 1 (.file 1 0), .start 2 (.inode 0), .wake 1]).fs := by
  have hrun : openSystem.Runs mountedWithA [.start 1 (.file 1 0), .start 2 (.inode 0), .wake 1] := by
    decide +kernel
  have hfirst : NoCollision mountedWithA (.start 1 (.file 1 0)) :=
    ⟨by decide +kernel, fun t w hw => by cases hw⟩
  have hsecond : NoCollision (openSystem.next mountedWithA (.start 1 (.file 1 0)))
      (.start 2 (.inode 0)) := by
    refine ⟨by decide +kernel, fun t w hw => ?_⟩
    rcases resumeOpen_cases (openSystem.step_next hrun.2.1) with ⟨r, -, ⟨y, -, hs⟩ | ⟨k, -, hs⟩⟩
    · rw [hs] at hw
      exact absurd (waiting_stop hw).2 (by simp only [mountedWithA, reduceCtorEq, not_false_eq_true])
    · rw [hs] at hw
      rcases waiting_start hw with ⟨-, rfl⟩ | ⟨-, hw⟩
      · refine ⟨?_, fun g hg => ?_⟩
        · exact Nat.one_ne_zero
        · cases hg
      · cases hw
  have hcond : openSystem.Meets NoCollision mountedWithA
      [.start 1 (.file 1 0), .start 2 (.inode 0), .wake 1] :=
    ⟨hfirst, hsecond, trivial, trivial⟩
  exact opens_apart ((openSystem.restrict NoCollision).reachable_after _
    (.init _ mountedWithA_init) (openSystem.runs_restrict NoCollision hrun hcond))

end Example

end ForikOS
