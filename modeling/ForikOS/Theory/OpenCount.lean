import ForikOS.Theory.Descriptors
import ForikOS.Theory.FsCalls
import Mathlib.Algebra.Order.BigOperators.Group.Finset

/-!
# Counts That Add Up

The count of an open inode should be the number of those that can still close
it: the slots of `file_table` that point to it and the directory handles on
it, and one for `root_dir`.

A conservation law carries the whole module. Whatever a call does to slots and
handles, it does to the ledger, and what is left over is at most one directory
(`fsStep_accounts`). There is one call with something left over: `sys_open` of
a file that is there closes the directory of the file on every way out but the
one that succeeds. Below the root directory nobody closes it any more.

The same law settles where inodes lie. The list and the slots hold only inodes
that are not freed, `inode_open` takes its memory from the kernel's heap, and
`file_create` from the heap of the caller, so an inode that everybody sees may
lie where nobody else can follow it.

## Main definitions

* `dirRefs`, `FsWorld.refs`: Who can still close an inode.
* `leavesParent`: The call leaves a directory open.
* `CountsBalanced`: The counts add up.
* `makesOwn`: The call puts an inode into the heap of a process.
* `InKernelMemory`: Every inode that is listed lies in the kernel's heap.

## Theorems

* `fsStep_accounts`: What a call does to slots and handles it does to counts.
* `open_counts_balance`: The counts add up in every run without such a call.
* `open_leaves_parent`: A run in which they do not.
* `shared_inodes_in_kernel`: Inodes lie in the kernel's heap in every run in
  which no process creates a file.
* `create_links_own_inode`: A run in which one does.
-/

namespace ForikOS

open Prog

/-- The handle on an inode that a directory is; `root_dir` is none. -/
def handleOn (d : Dir) (b : Nat) : Nat := if d.isRoot = false ∧ d.inode = b then 1 else 0

/-- The handles on an inode. -/
def dirRefs : List (Nat × Dir) → Nat → Nat
  | [], _ => 0
  | x :: l, b => handleOn x.2 b + dirRefs l b

/-- Who can still close an inode: slots and handles. -/
def FsWorld.refs (w : FsWorld) (b : Nat) : Nat := slotRefs w.fs b + dirRefs w.dirs b

theorem holdDir_eq (c : Nat → Nat) (d : Dir) (b : Nat) : holdDir c d b = c b + handleOn d b := by
  unfold holdDir handleOn
  by_cases hd : d.isRoot = true
  · rw [if_pos hd, if_neg (fun hc => by rw [hd] at hc; exact absurd hc.1 (by decide))]
    rfl
  · rw [if_neg hd]
    by_cases hb : d.inode = b
    · rw [if_pos ⟨Bool.not_eq_true _ ▸ hd, hb⟩, ← hb, bump_self]
    · rw [if_neg (fun hc => hb hc.2), bump_of_ne (Ne.symm hb)]
      rfl

theorem handleOn_le (d : Dir) (b : Nat) : handleOn d b ≤ 1 := by
  unfold handleOn
  split <;> omega

theorem dirRefs_le (l : List (Nat × Dir)) (b : Nat) : dirRefs l b ≤ l.length := by
  induction l with
  | nil => exact Nat.le_refl _
  | cons x l ih =>
      have := handleOn_le x.2 b
      rw [dirRefs, List.length_cons]
      omega

/-- A handle that is taken out of the list. -/
theorem dirRefs_eraseIdx {l : List (Nat × Dir)} {k t : Nat} {d : Dir} (h : l[k]? = some (t, d))
    (b : Nat) : dirRefs l b = dirRefs (l.eraseIdx k) b + handleOn d b := by
  induction l generalizing k with
  | nil => cases h
  | cons x l ih =>
      cases k with
      | zero =>
          rw [List.getElem?_cons_zero, Option.some.injEq] at h
          rw [List.eraseIdx_cons_zero, dirRefs, h]
          exact Nat.add_comm _ _
      | succ k =>
          rw [List.getElem?_cons_succ] at h
          rw [List.eraseIdx_cons_succ, dirRefs, dirRefs, ih h]
          omega

theorem slotRefs_le (s : Fs) (b : Nat) : slotRefs s b ≤ maxFileOpen := by
  refine Nat.le_trans (Finset.sum_le_card_nsmul _ _ 1 (fun g _ => ?_)) ?_
  · split <;> omega
  · rw [Finset.card_range]
    exact Nat.le_of_eq (Nat.mul_one _)

theorem slotRefs_framed {s s' : Fs} (h : Framed s s') (b : Nat) : slotRefs s' b = slotRefs s b := by
  refine Finset.sum_congr rfl (fun g _ => ?_)
  rw [(h.slots g).1]

/-- What `sys_open` leaves open beside the file. -/
def leavesParent (w : FsWorld) : FsCall → Bool
  | .open t pathname flags =>
      match (openPath t pathname).run w.fs with
      | .ok ((n, r, atEnd), _) =>
          atEnd && decide (r.fileType ≠ .directory) && decide (n ≠ minusOne) &&
            decide (flags &&& oCreat = 0) && !r.parentDir.isRoot
      | .error _ => false
  | _ => false

theorem leavesParent_of_finds {w : FsWorld} {t n flags : Nat} {p : Str} {r : PathSearchRecord}
    (h : Finds t p w.fs n r) (hflags : flags &&& oCreat = 0) (hroot : r.parentDir.isRoot = false) :
    leavesParent w (.open t p flags) = true := by
  rcases h with ⟨s', hrun, hdir, hn⟩
  rw [leavesParent, hrun]
  dsimp only
  rw [decide_eq_true hdir, decide_eq_true hn, decide_eq_true hflags, hroot]
  rfl

section Accounts

variable {c : Nat → Nat} {w w' : FsWorld} {α : Type}

/-- What a call that opens and closes nothing does to counts and references. -/
theorem call_accounts {x : FsM α} (hf : Within Framed x)
    (hx : Triple (Ledger c) x (fun _ => Ledger c)) (hl : Ledger c w.fs)
    (hs : w.call x = .ok w') : Ledger c w'.fs ∧ ∀ b, w'.refs b = w.refs b := by
  rcases call_ok hs with ⟨a, hrun, hdirs⟩
  refine ⟨hx _ _ _ hl hrun, fun b => ?_⟩
  rw [FsWorld.refs, FsWorld.refs, slotRefs_framed (hf _ _ _ hrun) b, hdirs]

/-- `sys_open` counts the file, and a directory that it leaves open. -/
theorem open_accounts {t flags : Nat} {p : Str} (hl : Ledger c w.fs)
    (hroom : ∀ b, c b + 2 < 2 ^ 32) (hs : fsStep w (.open t p flags) = .ok w') :
    ∃ d c', Ledger c' w'.fs ∧ (∀ b, c' b + w.refs b = holdDir c d b + w'.refs b) ∧
      (leavesParent w (.open t p flags) = false → d.isRoot = true) := by
  rcases call_ok hs with ⟨r, hrun, hdirs⟩
  rcases sysOpen_opens hl hroom hrun with ⟨d, e, ho, hleft⟩
  refine ⟨d, _, ho.ledger, fun b => ?_, fun hno => ?_⟩
  · have := ho.refs b
    rw [FsWorld.refs, FsWorld.refs, hdirs]
    omega
  · rcases hleft with hroot | ⟨n, rec, hfinds, hflags, rfl⟩
    · exact hroot
    · by_contra hroot
      rw [leavesParent_of_finds hfinds hflags (Bool.not_eq_true _ ▸ hroot)] at hno
      cases hno

/-- `sys_close` takes the slot's inode off the ledger. -/
theorem close_accounts {t : Nat} {fd : Int} (hl : Ledger c w.fs) (hrefs : ∀ b, w.refs b ≤ c b)
    (hroom : ∀ b, c b + 0 < 2 ^ 32) (hs : fsStep w (.close t fd) = .ok w') :
    ∃ c', Ledger c' w'.fs ∧ ∀ b, c' b + w.refs b = c b + w'.refs b := by
  rcases call_ok hs with ⟨r, hrun, hdirs⟩
  have hslots : ∀ b, slotRefs w.fs b ≤ c b := fun b =>
    Nat.le_trans (Nat.le_add_right _ _) (hrefs b)
  rcases sysClose_run hl hroom hslots hrun with ⟨-, hsame⟩ | ⟨-, g, a, hc⟩
  · refine ⟨c, hsame ▸ hl, fun b => ?_⟩
    rw [FsWorld.refs, FsWorld.refs, hdirs, hsame]
  · refine ⟨drop c a, hc.ledger, fun b => ?_⟩
    have heq := hc.slotRefs_eq b
    have hpos := Nat.lt_of_lt_of_le (slotRefs_pos hc.lt hc.slot) (hslots a)
    rw [FsWorld.refs, FsWorld.refs, hdirs, heq]
    unfold oneMore
    by_cases hba : b = a
    · rw [if_pos hba, hba, drop_self]
      omega
    · rw [if_neg hba, drop_of_ne hba]
      omega

/-- `sys_opendir` adds the handle that it returns. -/
theorem opendir_accounts {t : Nat} {p : Str} (hl : Ledger c w.fs) (hroom : ∀ b, c b + 2 < 2 ^ 32)
    (hs : fsStep w (.opendir t p) = .ok w') :
    ∃ c', Ledger c' w'.fs ∧ ∀ b, c' b + w.refs b = c b + w'.refs b := by
  rcases opendir_ok hs with ⟨r, hrun, hdirs⟩
  have hft := (looked_sysOpendir t p _ _ _ hrun).fileTable
  refine ⟨_, sysOpendir_ledger hroom _ _ _ hl hrun, fun b => ?_⟩
  rw [FsWorld.refs, FsWorld.refs, slotRefs_congr hft b, hdirs]
  cases r with
  | none => rfl
  | some d =>
      rw [holdDir?, addHandle, dirRefs, holdDir_eq]
      dsimp only
      omega

/-- `sys_closedir` takes the handle off, which is one of the holders. -/
theorem closedir_accounts {k : Nat} (hl : Ledger c w.fs) (hrefs : ∀ b, w.refs b ≤ c b)
    (hroom : ∀ b, c b + 1 < 2 ^ 32) (hs : fsStep w (.closedir k) = .ok w') :
    ∃ c', Ledger c' w'.fs ∧ ∀ b, c' b + w.refs b = c b + w'.refs b := by
  rcases closedir_ok hs with rfl | ⟨t, d, u, hk, hrun, hdirs⟩
  · exact ⟨c, hl, fun b => rfl⟩
  · have hft := (looked_sysClosedir t d _ _ _ hrun).fileTable
    have hsame : ∀ b, w.refs b = w'.refs b + handleOn d b := fun b => by
      rw [FsWorld.refs, FsWorld.refs, slotRefs_congr hft b, hdirs, dirRefs_eraseIdx hk b,
        Nat.add_assoc]
    -- The ledger is one with the handle taken off, and the handle.
    have hsplit : c = holdDir (fun b => c b - handleOn d b) d := by
      funext b
      have h1 := hrefs b
      have h2 := hsame b
      rw [holdDir_eq]
      omega
    rw [hsplit] at hl
    refine ⟨fun b => c b - handleOn d b, sysClosedir_ledger (fun b => ?_) _ _ _ hl hrun, fun b => ?_⟩
    · have := hroom b
      omega
    · have h1 := hrefs b
      have h2 := hsame b
      dsimp only
      omega

/-- What a call does to slots and handles it does to the ledger, but for a
    directory that `sys_open` leaves open. -/
theorem fsStep_accounts {e : FsCall} (hl : Ledger c w.fs) (hrefs : ∀ b, w.refs b ≤ c b)
    (hroom : ∀ b, c b + 3 < 2 ^ 32) (hs : fsStep w e = .ok w') :
    ∃ d c', Ledger c' w'.fs ∧ (∀ b, c' b + w.refs b = holdDir c d b + w'.refs b) ∧
      (leavesParent w e = false → d.isRoot = true) := by
  have hroom₂ := room_le hroom (show 2 ≤ 3 by omega)
  have hroom₁ := room_le hroom (show 1 ≤ 3 by omega)
  -- A call that leaves nothing open but what it accounts for.
  have hsettled : (∃ c', Ledger c' w'.fs ∧ ∀ b, c' b + w.refs b = c b + w'.refs b) →
      ∃ d c', Ledger c' w'.fs ∧ (∀ b, c' b + w.refs b = holdDir c d b + w'.refs b) ∧
        (leavesParent w e = false → d.isRoot = true) := by
    intro h
    rcases h with ⟨c', hl', hsame⟩
    exact ⟨⟨0, true⟩, c', hl', hsame, fun _ => rfl⟩
  -- A call that opens and closes nothing.
  have hcall : ∀ {α : Type} {x : FsM α}, Within Framed x →
      Triple (Ledger c) x (fun _ => Ledger c) → w.call x = .ok w' →
      ∃ d c', Ledger c' w'.fs ∧ (∀ b, c' b + w.refs b = holdDir c d b + w'.refs b) ∧
        (leavesParent w e = false → d.isRoot = true) := by
    intro α x hf hx hs
    rcases call_accounts hf hx hl hs with ⟨hl', hsame⟩
    exact hsettled ⟨c, hl', fun b => by rw [hsame b]⟩
  cases e with
  | «open» t p flags => exact open_accounts hl hroom₂ hs
  | close t fd => exact hsettled (close_accounts hl hrefs (room_le hroom (Nat.zero_le 3)) hs)
  | write t fd buf count =>
      exact hcall (framed_of_moved (moved_sysWrite t fd buf count))
        (ledger_of_moved (moved_sysWrite t fd buf count)) hs
  | read t fd buf count =>
      exact hcall (framed_of_moved (moved_sysRead t fd buf count))
        (ledger_of_moved (moved_sysRead t fd buf count)) hs
  | lseek t fd offset whence =>
      exact hcall (framed_of_moved (moved_sysLseek t fd offset whence))
        (ledger_of_moved (moved_sysLseek t fd offset whence)) hs
  | mkdir t p => exact hcall (framed_sysMkdir t p) (sysMkdir_ledger hroom₁) hs
  | unlink t p => exact hcall (framed_sysUnlink t p) (sysUnlink_ledger hroom₂) hs
  | rmdir t p => exact hcall (framed_sysRmdir t p) (sysRmdir_ledger hroom) hs
  | stat t p =>
      exact hcall (framed_of_looked (looked_sysStat t p)) (sysStat_ledger hroom₂) hs
  | chdir t p => exact hcall (framed_sysChdir t p) (sysChdir_ledger hroom₁) hs
  | getcwd t size =>
      exact hcall (framed_of_looked (looked_sysGetcwd t size)) (sysGetcwd_ledger hroom₁) hs
  | opendir t p => exact hsettled (opendir_accounts hl hroom₂ hs)
  | closedir k => exact hsettled (closedir_accounts hl hrefs hroom₁ hs)

end Accounts

/-- `root_dir` is the same, and no inode lies in the heap of a process that did
    not before. -/
structure Own (s s' : Fs) : Prop where
  isUser : s'.isUser = s.isUser
  rootDir : s'.rootDir = s.rootDir
  own : ∀ a u, s'.home a = .process u → s.home a = .process u

/-- The same, unless task `t` is a process. -/
structure OwnBut (t : Nat) (s s' : Fs) : Prop where
  isUser : s'.isUser = s.isUser
  rootDir : s'.rootDir = s.rootDir
  own : s.isUser t = false → ∀ a u, s'.home a = .process u → s.home a = .process u

instance : IsPreorder Fs Own where
  refl _ := ⟨rfl, rfl, fun _ _ h => h⟩
  trans _ _ _ h h' := ⟨h'.isUser.trans h.isUser, h'.rootDir.trans h.rootDir,
    fun a u ha => h.own a u (h'.own a u ha)⟩

instance (t : Nat) : IsPreorder Fs (OwnBut t) where
  refl _ := ⟨rfl, rfl, fun _ _ _ h => h⟩
  trans _ _ _ h h' := ⟨h'.isUser.trans h.isUser, h'.rootDir.trans h.rootDir,
    fun ht a u ha => h.own ht a u (h'.own (by rw [h.isUser]; exact ht) a u ha)⟩

section Own

theorem Own.but {s s' : Fs} (h : Own s s') (t : Nat) : OwnBut t s s' :=
  ⟨h.isUser, h.rootDir, fun _ => h.own⟩

theorem Framed.ownHomes {s s' : Fs} (h : Framed s s') : Own s s' :=
  ⟨h.kept.isUser, h.rootDir, h.own⟩

theorem opening_own : Opening Own := by
  refine ⟨fun s s' h => h.framed.ownHomes,
    fun _ _ _ => ⟨rfl, rfl, fun _ _ h => h⟩, fun _ _ _ _ => ⟨rfl, rfl, fun _ _ h => h⟩,
    fun _ _ _ _ => ⟨rfl, rfl, fun _ _ h => h⟩, fun _ _ => ⟨rfl, rfl, fun _ _ h => h⟩,
    fun s a => ⟨rfl, rfl, fun b u hb => ?_⟩⟩
  change Function.update s.home a Home.freed b = .process u at hb
  by_cases hba : b = a
  · rw [hba, Function.update_self] at hb
    cases hb
  · rwa [Function.update_of_ne hba] at hb

theorem opening_ownBut (t : Nat) : Opening (OwnBut t) :=
  ⟨fun s s' h => (opening_own.looked s s' h).but t,
    fun s g f => (opening_own.file s g f).but t, fun s u k g => (opening_own.fd s u k g).but t,
    fun s a i h => (opening_own.inode s a i h).but t, fun s l => (opening_own.openInodes s l).but t,
    fun s a => (opening_own.free s a).but t⟩

theorem making_ownBut (t n : Nat) : Making t n (OwnBut t) := by
  refine ⟨storing_stored.mono (fun _ _ h => h.framed.ownHomes.but t), fun s i => ?_,
    fun s => ⟨rfl, rfl, fun _ _ _ h => h⟩⟩
  refine ⟨rfl, rfl, fun ht b u hb => ?_⟩
  change Function.update s.home s.nextInode (callerHome s t) b = .process u at hb
  by_cases hba : b = s.nextInode
  · rw [hba, Function.update_self, callerHome, if_neg (by rw [ht]; decide)] at hb
    cases hb
  · rwa [Function.update_of_ne hba] at hb

/-- A process creates a file, whose inode lies in its own heap. -/
def makesOwn (w : FsWorld) : FsCall → Bool
  | .open t pathname flags =>
      match (openPath t pathname).run w.fs with
      | .ok ((n, r, atEnd), _) =>
          w.fs.isUser t && (atEnd && decide (r.fileType ≠ .directory) && decide (n = minusOne) &&
            decide (flags &&& oCreat ≠ 0))
      | .error _ => false
  | _ => false

theorem sysOpen_own {w : FsWorld} {t flags : Nat} {p : Str} {r : Int} {s' : Fs}
    (hr : (sysOpen t p flags).run w.fs = .ok (r, s')) :
    OwnBut t w.fs s' ∧ (makesOwn w (.open t p flags) = false → Own w.fs s') := by
  rcases sysOpen_cases hr with ⟨-, hlook, -⟩ | ⟨n, rec, s₁, hpath, -, -, -, hopen⟩ |
    ⟨rec, s₁, s₂, u, hpath, hdir, hflags, hcreate, hclose⟩
  · have ho := opening_own.looked _ _ hlook
    exact ⟨ho.but t, fun _ => ho⟩
  · have ho : Own w.fs s' := IsTrans.trans _ _ _
      (opening_own.looked _ _ (looked_openPath _ _ _ _ _ hpath))
      (opening_fileOpen opening_own _ _ _ _ _ _ hopen)
    exact ⟨ho.but t, fun _ => ho⟩
  · have hbut : OwnBut t w.fs s' := IsTrans.trans _ _ _
      ((opening_ownBut t).looked _ _ (looked_openPath _ _ _ _ _ hpath))
      (IsTrans.trans _ _ _ (opening_fileCreate (opening_ownBut t) (making_ownBut t)
        (within_mono stored_inodeBitmapAlloc (fun _ _ h => h.framed.ownHomes.but t)) _ _ _ _ _ _ hcreate)
        ((opening_ownBut t).looked _ _ (looked_dirClose _ _ _ _ _ hclose)))
    refine ⟨hbut, fun hno => ⟨hbut.isUser, hbut.rootDir, hbut.own ?_⟩⟩
    -- Only a kernel thread gets here.
    rw [makesOwn, hpath] at hno
    dsimp only at hno
    rw [decide_eq_true hdir, decide_eq_true hflags, decide_eq_true rfl] at hno
    simpa only [Bool.and_true] using hno

variable {w w' : FsWorld}

/-- What a call does to `root_dir` and to the place of inodes. -/
theorem fsStep_own {e : FsCall} (hs : fsStep w e = .ok w') :
    w'.fs.rootDir = w.fs.rootDir ∧ (makesOwn w e = false → Own w.fs w'.fs) := by
  -- Calls that make no inode move no object.
  have hcall : ∀ {α : Type} {x : FsM α}, Within Framed x → w.call x = .ok w' →
      w'.fs.rootDir = w.fs.rootDir ∧ (makesOwn w e = false → Own w.fs w'.fs) := by
    intro α x hf hs
    rcases call_ok hs with ⟨a, hrun, -⟩
    have ho := (hf _ _ _ hrun).ownHomes
    exact ⟨ho.rootDir, fun _ => ho⟩
  cases e with
  | «open» t p flags =>
      rcases call_ok hs with ⟨r, hrun, -⟩
      rcases sysOpen_own hrun with ⟨hbut, hown⟩
      exact ⟨hbut.rootDir, hown⟩
  | close t fd =>
      rcases call_ok hs with ⟨r, hrun, -⟩
      have ho := opening_sysClose opening_own _ _ _ _ _ hrun
      exact ⟨ho.rootDir, fun _ => ho⟩
  | write t fd buf count => exact hcall (framed_of_moved (moved_sysWrite t fd buf count)) hs
  | read t fd buf count => exact hcall (framed_of_moved (moved_sysRead t fd buf count)) hs
  | lseek t fd offset whence => exact hcall (framed_of_moved (moved_sysLseek t fd offset whence)) hs
  | mkdir t p => exact hcall (framed_sysMkdir t p) hs
  | unlink t p => exact hcall (framed_sysUnlink t p) hs
  | rmdir t p => exact hcall (framed_sysRmdir t p) hs
  | stat t p => exact hcall (framed_of_looked (looked_sysStat t p)) hs
  | chdir t p => exact hcall (framed_sysChdir t p) hs
  | getcwd t size => exact hcall (framed_of_looked (looked_sysGetcwd t size)) hs
  | opendir t p =>
      rcases opendir_ok hs with ⟨r, hrun, -⟩
      have ho := (looked_sysOpendir t p _ _ _ hrun).framed.ownHomes
      exact ⟨ho.rootDir, fun _ => ho⟩
  | closedir k =>
      rcases closedir_ok hs with rfl | ⟨t, d, u, hk, hrun, -⟩
      · exact ⟨rfl, fun _ => refl _⟩
      · have ho := (looked_sysClosedir t d _ _ _ hrun).framed.ownHomes
        exact ⟨ho.rootDir, fun _ => ho⟩

end Own

/-- The count of every inode but that of the root directory is the number of
    slots and handles on it, and there is one. -/
def CountsBalanced (w : FsWorld) : Prop :=
  ∀ a, a ∈ w.fs.part.openInodes → a ≠ w.fs.rootDir →
    (w.fs.inode a).iOpenCnts = slotRefs w.fs a + dirRefs w.dirs a ∧
      0 < slotRefs w.fs a + dirRefs w.dirs a

/-- The condition on a call: `sys_open` does not leave a directory open. The
    memory does not hold as many handles as a count can count. -/
def Tidy (w : FsWorld) (e : FsCall) : Prop :=
  leavesParent w e = false ∧ w.dirs.length + 64 < 2 ^ 32

/-- The holders are the slots, the handles and `root_dir`. -/
def balance (w : FsWorld) (b : Nat) : Nat := w.refs b + oneMore w.fs.rootDir b

theorem fsInit_ledger {w : FsWorld} (h : fsInit w) :
    Ledger (balance w) w.fs := by
  rcases h with ⟨⟨t, s, u, -, hrun⟩, hdirs⟩
  rcases filesysInit_files hrun with ⟨hl, hzero⟩
  have hbal : balance w = bump (fun _ => 0) w.fs.rootDir := by
    rw [bump_eq]
    funext b
    rw [balance, FsWorld.refs, hzero b, hdirs]
    rfl
  rw [hbal]
  exact hl

/-- A call that meets the condition keeps the balance. -/
theorem fsStep_balance {w w' : FsWorld} {e : FsCall} (hl : Ledger (balance w) w.fs)
    (htidy : Tidy w e) (hs : fsStep w e = .ok w') : Ledger (balance w') w'.fs := by
  have hmax : maxFileOpen = 32 := rfl
  have hroom : ∀ b, balance w b + 3 < 2 ^ 32 := fun b => by
    have h1 := slotRefs_le w.fs b
    have h2 := dirRefs_le w.dirs b
    have h3 := oneMore_le w.fs.rootDir b
    have h4 := htidy.2
    rw [balance, FsWorld.refs]
    omega
  rcases fsStep_accounts hl (fun b => Nat.le_add_right _ _) hroom hs with ⟨d, c', hl', heq, hroot⟩
  have hsame : balance w' = c' := by
    funext b
    have h1 := heq b
    rw [holdDir, if_pos (hroot htidy.1), balance] at h1
    rw [balance, (fsStep_own hs).1]
    omega
  rw [hsame]
  exact hl'

/-- In every run whose calls meet the condition, the counts add up. -/
theorem open_counts_balance {w : FsWorld} (h : (fsCallSystem.restrict Tidy).Reachable w) :
    CountsBalanced w := by
  have hinv : Ledger (balance w) w.fs :=
    System.invariant_of_step (fsCallSystem.restrict Tidy) (fun w => Ledger (balance w) w.fs)
      (fun w hw => fsInit_ledger hw) (fun w e w' hw he hs => fsStep_balance hw he.2 hs) w h
  intro a ha hroot
  have hcnt := hinv.count a ha
  have hpos := (hinv.listed a).mp ha
  rw [balance, oneMore, if_neg hroot, Nat.add_zero] at hcnt hpos
  exact ⟨hcnt, hpos⟩

section Example

/-- A partition that has just been formatted; task 1 is a process. -/
def freshDisk : FsWorld := ⟨(filesysInit 0).after (blankFs 2048 10000 (· == 1)), []⟩

theorem freshDisk_init : fsCallSystem.init freshDisk := by
  have hok : ((filesysInit 0).run (blankFs 2048 10000 (· == 1))).isOk = true := by decide +kernel
  rcases after_ok hok with ⟨u, hu⟩
  exact ⟨⟨0, _, u, fun _ => rfl, hu⟩, rfl⟩

/-- The path `/d`. -/
def pathD : Str := [0x2f, 0x64]

/-- The path `/d/f`. -/
def pathDF : Str := [0x2f, 0x64, 0x2f, 0x66]

instance (w : FsWorld) (e : FsCall) : Decidable (Tidy w e) :=
  inferInstanceAs (Decidable (_ ∧ _))

/-- A process makes `/d`, creates `/d/f` and opens it once more. -/
def openBelow : List FsCall := [.mkdir 1 pathD, .open 1 pathDF 4, .open 1 pathDF 0]

/-- The inode of `/d` is then open, and nobody can close it. -/
theorem open_leaves_parent :
    fsCallSystem.Reachable (fsCallSystem.after freshDisk openBelow) ∧
      ¬ CountsBalanced (fsCallSystem.after freshDisk openBelow) := by
  constructor
  · refine fsCallSystem.reachable_after _ (.init _ freshDisk_init) ?_
    decide +kernel
  · intro hbal
    have hmem : 3 ∈ (fsCallSystem.after freshDisk openBelow).fs.part.openInodes := by decide +kernel
    have hne : 3 ≠ (fsCallSystem.after freshDisk openBelow).fs.rootDir := by decide +kernel
    have hzero : slotRefs (fsCallSystem.after freshDisk openBelow).fs 3
        + dirRefs (fsCallSystem.after freshDisk openBelow).dirs 3 = 0 := by
      decide +kernel
    have hpos := (hbal 3 hmem hne).2
    rw [hzero] at hpos
    cases hpos

/-- A process makes `/d`, creates `/d/f` and opens `/d` as a directory. -/
theorem open_counts_balance_opendir :
    CountsBalanced (fsCallSystem.after freshDisk
      [.mkdir 1 pathD, .open 1 pathDF 4, .opendir 1 pathD]) := by
  have hrun : fsCallSystem.Runs freshDisk [.mkdir 1 pathD, .open 1 pathDF 4, .opendir 1 pathD] := by
    decide +kernel
  have htidy : fsCallSystem.Meets Tidy freshDisk
      [.mkdir 1 pathD, .open 1 pathDF 4, .opendir 1 pathD] := by
    decide +kernel
  exact open_counts_balance ((fsCallSystem.restrict Tidy).reachable_after _ (.init _ freshDisk_init)
    (fsCallSystem.runs_restrict Tidy hrun htidy))

end Example

/-- Every inode that is listed or that a slot points to lies in the kernel's
    heap. -/
def InKernelMemory (w : FsWorld) : Prop :=
  (∀ a, a ∈ w.fs.part.openInodes → w.fs.home a = .kernel) ∧
    ∀ g a, g < maxFileOpen → (w.fs.fileTable g).fdInode = some a → w.fs.home a = .kernel

/-- The condition on a call: no process creates a file, and no count is about
    to wrap around. -/
def Shared (w : FsWorld) (e : FsCall) : Prop :=
  makesOwn w e = false ∧ ∀ a, a ∈ w.fs.part.openInodes → (w.fs.inode a).iOpenCnts + 8 < 2 ^ 32

/-- The holders are counted, slots and handles among them, and no inode lies in
    the heap of a process. -/
structure SharedInv (c : Nat → Nat) (w : FsWorld) : Prop where
  ledger : Ledger c w.fs
  refs : ∀ b, w.refs b ≤ c b
  shared : ∀ a u, w.fs.home a ≠ .process u

section Shared

variable {c : Nat → Nat} {w w' : FsWorld}

/-- The references of a call that keeps the accounts are still held. -/
theorem accounts_refs {c' : Nat → Nat} {d : Dir} (hrefs : ∀ b, w.refs b ≤ c b)
    (heq : ∀ b, c' b + w.refs b = holdDir c d b + w'.refs b) (b : Nat) : w'.refs b ≤ c' b := by
  have h1 := heq b
  have h2 := hrefs b
  have h3 := le_holdDir c d b
  omega

theorem SharedInv.step {e : FsCall} (h : SharedInv c w) (hcond : Shared w e)
    (hs : fsStep w e = .ok w') : ∃ c', SharedInv c' w' := by
  have hroom : ∀ b, c b + 3 < 2 ^ 32 := fun b => by
    have := h.ledger.room hcond.2 b
    omega
  rcases fsStep_accounts h.ledger h.refs hroom hs with ⟨d, c', hl', heq, -⟩
  refine ⟨c', hl', accounts_refs h.refs heq, fun a u ha => ?_⟩
  exact h.shared a u (((fsStep_own hs).2 hcond.1).own a u ha)

theorem SharedInv.listed (h : SharedInv c w) {a : Nat} (ha : a ∈ w.fs.part.openInodes) :
    w.fs.home a = .kernel := by
  cases hhome : w.fs.home a with
  | freed => exact absurd hhome (h.ledger.there a ha).1
  | kernel => rfl
  | process u => exact absurd hhome (h.shared a u)

theorem SharedInv.inKernelMemory (h : SharedInv c w) : InKernelMemory w := by
  refine ⟨fun a ha => h.listed ha, fun g a hg hga => h.listed ((h.ledger.listed a).mpr ?_)⟩
  exact Nat.lt_of_lt_of_le (slotRefs_pos hg hga) (Nat.le_trans (Nat.le_add_right _ _) (h.refs a))

theorem inodeAt_error {t a : Nat} {s : Fs} {e : FsFault}
    (h : (inodeAt t a).run s = .error e) : e = .wild := by
  rcases run_bind_error.mp h with h₁ | ⟨seen, s₁, h₁, k₁⟩
  · cases h₁
  · rcases run_bind_error.mp k₁ with h₂ | ⟨u, s₂, h₂, k₂⟩
    · exact (check_error h₂).2
    · cases k₂

/-- Where no inode lies in the heap of a process, `inode_close` frees nothing
    that is not the kernel's. -/
theorem inodeClose_frees {s : Fs} (h : ∀ a u, s.home a ≠ .process u) (t a : Nat) :
    (inodeClose t a).run s ≠ .error (.assertion .sysFree) := by
  intro hr
  rcases run_bind_error.mp hr with h₁ | ⟨i, s₁, h₁, k₁⟩
  · cases inodeAt_error h₁
  rcases inodeAt_run h₁ with ⟨hsees, rfl, rfl⟩
  rcases run_bind_error.mp k₁ with h₂ | ⟨u, s₂, h₂, k₂⟩
  · cases h₂
  have hhome : s₂.home = s₁.home := by
    rw [setInodeAt_run h₂]
    rfl
  by_cases hz : sub32 (s₁.inode a).iOpenCnts 1 = 0
  · rw [if_pos hz] at k₂
    rcases run_bind_error.mp k₂ with h₃ | ⟨linked, s₃, h₃, k₃⟩
    · cases h₃
    rcases read_ok h₃ with ⟨-, rfl⟩
    rcases run_bind_error.mp k₃ with h₄ | ⟨u', s₄, h₄, k₄⟩
    · cases (check_error h₄).2
    rcases check_ok h₄ with ⟨-, rfl⟩
    rcases run_bind_error.mp k₄ with h₅ | ⟨home, s₅, h₅, k₅⟩
    · cases h₅
    rcases read_ok h₅ with ⟨rfl, rfl⟩
    rcases run_bind_error.mp k₅ with h₆ | ⟨u'', s₆, h₆, k₆⟩
    · -- Who follows the pointer sees the inode, so it is the kernel's.
      refine (check_error h₆).1 ?_
      rw [hhome]
      exact hsees.resolve_right (h a t)
    · cases k₆
  · rw [if_neg hz] at k₂
    cases k₂

/-- `filesys_init` puts no inode into the heap of a process, and leaves the
    working directories and the descriptors alone. -/
theorem filesysInit_before {t : Nat} {s s' : Fs} {u : Unit}
    (h : (filesysInit t).run s = .ok (u, s')) :
    (∀ a u', s'.home a = .process u' → s.home a = .process u') ∧ s'.cwdInodeNr = s.cwdInodeNr ∧
      s'.fdTable = s.fdTable := by
  have hquiet : ∀ {α : Type} {x : FsM α}, Within Quiet x → Within Moved x := moved_of_quiet
  rcases run_bind_ok.mp h with ⟨_, s₁, h₁, k₁⟩
  rcases run_bind_ok.mp k₁ with ⟨_, s₂, h₂, k₂⟩
  rcases run_bind_ok.mp k₂ with ⟨_, s₃, h₃, k₃⟩
  rcases run_bind_ok.mp k₃ with ⟨_, s₄, h₄, k₄⟩
  have hpanic : Within Quiet mallocOrPanic := within_bind quiet_malloc (fun _ => within_check)
  have hformat : Within Moved partitionFormat := by
    refine within_read_bind (fun part => ?_)
    have hw : ∀ lba n buf, Within Moved (ideWrite lba n buf) := storing_ideWrite storing_moved.any
    exact within_bind (hw _ _ _) (fun _ => within_bind (hquiet quiet_mallocUnchecked) (fun _ =>
      within_bind (hw _ _ _) (fun _ => within_bind (hw _ _ _) (fun _ => within_bind (hw _ _ _)
        (fun _ => hw _ _ _)))))
  have hnew : Within Moved formatNew :=
    within_read_bind (fun part => within_bind (hquiet (quiet_ideRead _ _)) (fun _ =>
      within_ite within_pure hformat))
  -- Formatting writes the disk, and reading the tables fills the partition.
  have hm₂ : Moved s s₂ := IsTrans.trans _ _ _ (hquiet hpanic _ _ _ h₁) (hnew _ _ _ h₂)
  have hm₃ : s₃.home = s₂.home ∧ s₃.cwdInodeNr = s₂.cwdInodeNr ∧ s₃.fdTable = s₂.fdTable := by
    rcases run_bind_ok.mp h₃ with ⟨part, r₁, g₁, j₁⟩
    rcases read_ok g₁ with ⟨-, rfl⟩
    rcases run_bind_ok.mp j₁ with ⟨_, r₂, g₂, j₂⟩
    rcases run_bind_ok.mp j₂ with ⟨_, r₃, g₃, j₃⟩
    rcases run_bind_ok.mp j₃ with ⟨_, r₄, g₄, j₄⟩
    rcases run_bind_ok.mp j₄ with ⟨_, r₅, g₅, j₅⟩
    rcases run_bind_ok.mp j₅ with ⟨_, r₆, g₆, j₆⟩
    rcases run_bind_ok.mp j₆ with ⟨_, r₇, g₇, j₇⟩
    rcases run_bind_ok.mp j₇ with ⟨_, r₈, g₈, j₈⟩
    have hs := IsTrans.trans _ _ _ (quiet_mallocUnchecked _ _ _ g₂) (IsTrans.trans _ _ _
      (hpanic _ _ _ g₃) (IsTrans.trans _ _ _ (quiet_ideRead _ _ _ _ _ g₄) (IsTrans.trans _ _ _
        (hpanic _ _ _ g₅) (IsTrans.trans _ _ _ (quiet_ideRead _ _ _ _ _ g₆) (IsTrans.trans _ _ _
          (hpanic _ _ _ g₇) (quiet_ideRead _ _ _ _ _ g₈))))))
    have hm := storing_moved.quiet _ _ hs
    rw [modify_ok j₈]
    exact ⟨hm.home, hm.cwd, hm.fdTable⟩
  rcases run_bind_ok.mp h₄ with ⟨n, r₁, g₁, j₁⟩
  rcases read_ok g₁ with ⟨-, rfl⟩
  rcases run_bind_ok.mp j₁ with ⟨b, r₂, g₂, j₂⟩
  have hlook := looked_inodeOpen _ _ _ _ _ g₂
  rw [modify_ok k₄, modify_ok j₂]
  refine ⟨fun a u' ha => ?_, ?_, ?_⟩
  · have hbefore := hlook.own a u' ha
    rwa [hm₃.1, hm₂.home] at hbefore
  · show r₂.cwdInodeNr = _
    rw [hlook.cwd, hm₃.2.1, hm₂.cwd]
  · show r₂.fdTable = _
    rw [hlook.fdTable, hm₃.2.2, hm₂.fdTable]

/-- In every run whose calls meet the condition, every inode that a task can
    come across lies in the kernel's heap, so every task can follow it, and
    `inode_close` gives back nothing else. -/
theorem shared_inodes_in_kernel (h : (fsCallSystem.restrict Shared).Reachable w) :
    InKernelMemory w ∧ (∀ t a, a ∈ w.fs.part.openInodes → w.fs.Sees t a) ∧
      ∀ t a, (inodeClose t a).run w.fs ≠ .error (.assertion .sysFree) := by
  have hinv : ∃ c, SharedInv c w := by
    refine System.invariant_of_step (fsCallSystem.restrict Shared) (fun w => ∃ c, SharedInv c w)
      (fun w hw => ?_) (fun w e w' ⟨c, hc⟩ he hs => hc.step he.2 hs) w h
    refine ⟨_, fsInit_ledger hw, fun b => Nat.le_add_right _ _, ?_⟩
    rcases hw with ⟨⟨t, s, u, hnone, hrun⟩, -⟩
    intro a u' ha
    have hbefore := (filesysInit_before hrun).1 a u' ha
    rw [hnone a] at hbefore
    cases hbefore
  rcases hinv with ⟨c, hc⟩
  exact ⟨hc.inKernelMemory, fun t a ha => Or.inl (hc.listed ha), inodeClose_frees hc.shared⟩

end Shared

section Example

/-- A process creates `/d`. Its inode is listed, and no other task can follow
    it; the process itself stops in `sys_free` when it closes the file. -/
theorem create_links_own_inode :
    fsCallSystem.Reachable (fsCallSystem.after freshDisk [.open 1 pathD 4]) ∧
      ¬ InKernelMemory (fsCallSystem.after freshDisk [.open 1 pathD 4]) ∧
      ((sysClose 1 3).run (fsCallSystem.after freshDisk [.open 1 pathD 4]).fs).isOk = false := by
  refine ⟨fsCallSystem.reachable_after _ (.init _ freshDisk_init) (by decide +kernel), ?_,
    by decide +kernel⟩
  intro hmem
  have hlisted : 1 ∈ (fsCallSystem.after freshDisk [.open 1 pathD 4]).fs.part.openInodes := by
    decide +kernel
  have hhome : (fsCallSystem.after freshDisk [.open 1 pathD 4]).fs.home 1 = .process 1 := by
    decide +kernel
  have hk := hmem.1 1 hlisted
  rw [hhome] at hk
  cases hk

/-- A thread creates `/d`, and then a process opens it. -/
theorem shared_inodes_in_kernel_thread :
    InKernelMemory (fsCallSystem.after freshDisk [.open 0 pathD 4, .open 1 pathD 0]) := by
  have hrun : fsCallSystem.Runs freshDisk [.open 0 pathD 4, .open 1 pathD 0] := by decide +kernel
  have h0 : ∀ a ∈ freshDisk.fs.part.openInodes,
      (freshDisk.fs.inode a).iOpenCnts + 8 < 2 ^ 32 := by
    decide +kernel
  have h1 : ∀ a ∈ (fsCallSystem.next freshDisk (.open 0 pathD 4)).fs.part.openInodes,
      ((fsCallSystem.next freshDisk (.open 0 pathD 4)).fs.inode a).iOpenCnts + 8 < 2 ^ 32 := by
    decide +kernel
  have hcond : fsCallSystem.Meets Shared freshDisk [.open 0 pathD 4, .open 1 pathD 0] :=
    ⟨⟨by decide +kernel, h0⟩, ⟨by decide +kernel, h1⟩, True.intro⟩
  exact (shared_inodes_in_kernel ((fsCallSystem.restrict Shared).reachable_after _
    (.init _ freshDisk_init) (fsCallSystem.runs_restrict Shared hrun hcond))).1

end Example

end ForikOS
