import ForikOS.Theory.FileTable
import ForikOS.Core.Fork

/-!
# Descriptors Across Processes

Any number of processes open, close, fork and exit, in any order.

`sys_fork` copies `fd_table`, so two processes come to refer to one slot of
`file_table`, and it counts the child as one more holder of the inode. The
slot itself has no count: `file_close` lets go of the inode once and clears
the slot, whoever else refers to it. A descriptor of another process then
refers to a free slot, and later to the next file that is opened there.

Descriptors stay valid in every run in which no slot is closed while another
descriptor refers to it, and in which a process does not fork with a file open
that it has created itself, whose inode lies in its own heap.

## Main definitions

* `FileWorld`, `FileCall`, `fileSystem`: The processes and their calls.
* `DescriptorsValid`: Every descriptor refers to the file it was opened for.
* `Unshared`, `Calm`: The condition on a call.

## Theorems

* `updateInodeOpenCnts_ledger`: A fork is one more holder for each descriptor.
* `closeFilesFrom_inv`: What an exit keeps.
* `fileStep_inv`: Every call that meets the condition keeps the invariant.
* `descriptors_valid`: Every run whose calls meet it keeps descriptors valid.
* `close_invalidates_parent`: A run that does not.
* `sysFork_fs`: A fork does to the file system what the step here says.
-/

namespace ForikOS

open Prog

/-- The file system, the processes that are alive, and for each descriptor the
    file it was opened or inherited for. -/
structure FileWorld where
  fs : Fs
  live : List Nat
  opened : Nat → Nat → Option Nat

/-- The calls. A fork says which page the child's PCB is in. -/
inductive FileCall
  | open (t : Nat) (pathname : Str) (flags : Nat)
  | close (t : Nat) (fd : Int)
  | fork (parent child : Nat)
  | exit (t : Nat)

/-- The number of the file a descriptor refers to. -/
def fileOf (s : Fs) (t k : Nat) : Option Nat :=
  (s.fileTable (s.fdTable t k).toNat).fdInode.map (fun a => (s.inode a).iNo)

/-- One call. -/
def fileStep (w : FileWorld) : FileCall → Except (FsFault ⊕ Func) FileWorld
  | .open t pathname flags =>
      match (sysOpen t pathname flags).run w.fs with
      | .error e => .error (.inl e)
      | .ok (r, fs) =>
          if r < 0 then
            .ok { w with fs := fs }
          else
            .ok { w with
              fs := fs
              opened := Function.update w.opened t
                (Function.update (w.opened t) r.toNat (fileOf fs t r.toNat)) }
  | .close t fd =>
      match (sysClose t fd).run w.fs with
      | .error e => .error (.inl e)
      | .ok (_, fs) => .ok { w with fs := fs }
  | .fork parent child =>
      match updateInodeOpenCnts (inheritFds w.fs child parent) parent child with
      | .error f => .error (.inr f)
      | .ok fs => .ok ⟨fs, child :: w.live, Function.update w.opened child (w.opened parent)⟩
  | .exit t =>
      match (closeFiles t).run w.fs with
      | .error e => .error (.inl e)
      | .ok (_, fs) => .ok { w with fs := fs, live := w.live.filter (· ≠ t) }

/-- Who calls is alive. Only a process can fork, and its child is new. -/
def fileEnabled (w : FileWorld) : FileCall → Prop
  | .open t _ _ => t ∈ w.live
  | .close t _ => t ∈ w.live
  | .fork parent child => parent ∈ w.live ∧ w.fs.isUser parent = true ∧ child ∉ w.live
  | .exit t => t ∈ w.live

/-- The descriptors behind the standard streams. -/
def IsFd (k : Nat) : Prop := 3 ≤ k ∧ k < maxFilesOpenPerProc

/-- The file system is mounted, and no task has a file open. -/
def fileInit (w : FileWorld) : Prop :=
  (∃ t s u, (filesysInit t).run s = .ok (u, w.fs)) ∧
    ∀ t, t ∈ w.live → ∀ k, IsFd k → w.fs.fdTable t k = -1

/-- Processes that open, close, fork and exit. -/
def fileSystem : System FileWorld FileCall (FsFault ⊕ Func) where
  init := fileInit
  enabled := fileEnabled
  step := fileStep

/-- A descriptor refers to a slot with an inode the process sees, and that is
    the file the descriptor is for. -/
def Denotes (w : FileWorld) (t k : Nat) : Prop :=
  ∃ g a : Nat, g < maxFileOpen ∧ w.fs.fdTable t k = g ∧ (w.fs.fileTable g).fdInode = some a ∧
    w.fs.Sees t a ∧ w.opened t k = some (w.fs.inode a).iNo

/-- Every descriptor of a process that is alive refers to the file it was
    opened for. -/
def DescriptorsValid (w : FileWorld) : Prop :=
  ∀ t, t ∈ w.live → ∀ k, IsFd k → w.fs.fdTable t k ≠ -1 → Denotes w t k

/-- No other descriptor refers to the slot that a descriptor refers to. -/
def Unshared (w : FileWorld) (t k : Nat) : Prop :=
  w.fs.fdTable t k ≠ -1 → ∀ t', t' ∈ w.live → ∀ k', IsFd k' → (t', k') ≠ (t, k) →
    w.fs.fdTable t' k' ≠ w.fs.fdTable t k

/-- The condition on a call: nothing shared is closed, a descriptor lies in
    `fd_table`, and no file whose inode lies in the heap of a process is
    inherited. No open count is about to wrap around. -/
def Calm (w : FileWorld) (e : FileCall) : Prop :=
  (∀ a, a ∈ w.fs.part.openInodes → (w.fs.inode a).iOpenCnts + 8 < 2 ^ 32) ∧
    match e with
    | .open _ _ _ => True
    | .close t fd => 2 < fd → fd < maxFilesOpenPerProc ∧ Unshared w t fd.toNat
    | .fork parent _ => ∀ k, IsFd k → ∀ g a : Nat, w.fs.fdTable parent k = g →
        (w.fs.fileTable g).fdInode = some a → w.fs.home a = .kernel
    | .exit t => ∀ k, IsFd k → Unshared w t k

/-- The holders are counted, and descriptors are valid. -/
structure FilesInv (c : Nat → Nat) (w : FileWorld) : Prop where
  ledger : Ledger c w.fs
  refs : ∀ a, slotRefs w.fs a ≤ c a
  valid : DescriptorsValid w

/-- A descriptor that has not changed still denotes its file, if its slot has
    not changed and its inode is not freed. -/
theorem Denotes.kept {w w' : FileWorld} {c c' : Nat → Nat} {t k : Nat} (h : Denotes w t k)
    (hl : Ledger c w.fs) (hrefs : ∀ a, slotRefs w.fs a ≤ c a) (hl' : Ledger c' w'.fs)
    (hrefs' : ∀ a, slotRefs w'.fs a ≤ c' a) (hk : Kept w.fs w'.fs)
    (hfd : w'.fs.fdTable t k = w.fs.fdTable t k) (hop : w'.opened t k = w.opened t k)
    (hslot : ∀ g a : Nat, w.fs.fdTable t k = g → (w.fs.fileTable g).fdInode = some a →
      (w'.fs.fileTable g).fdInode = some a) : Denotes w' t k := by
  rcases h with ⟨g, a, hg, hfg, hga, hsees, hname⟩
  have hga' := hslot g a hfg hga
  have hlisted := (hl.listed a).mpr (Nat.lt_of_lt_of_le (slotRefs_pos hg hga) (hrefs a))
  have hlisted' := (hl'.listed a).mpr (Nat.lt_of_lt_of_le (slotRefs_pos hg hga') (hrefs' a))
  have hlt := (hl.there a hlisted).2
  refine ⟨g, a, hg, hfd.trans hfg, hga', ?_, ?_⟩
  · rcases hk.home a hlt with heq | hfreed
    · rw [Fs.Sees, heq]
      exact hsees
    · exact absurd hfreed (hl'.there a hlisted').1
  · rw [hop, hname, hk.iNo a hlt]

/-- The condition bounds the ledger. -/
theorem Ledger.room {c : Nat → Nat} {s : Fs} (h : Ledger c s)
    (hcnt : ∀ a, a ∈ s.part.openInodes → (s.inode a).iOpenCnts + 8 < 2 ^ 32) (a : Nat) :
    c a + 8 < 2 ^ 32 := by
  by_cases ha : a ∈ s.part.openInodes
  · rw [← h.count a ha]
    exact hcnt a ha
  · rw [h.zero_of_not_listed ha]
    omega

section Steps

variable {c : Nat → Nat} {w : FileWorld}

/-- Opening a file keeps the invariant. -/
theorem open_inv {t : Nat} {p : Str} {flags : Nat} {w' : FileWorld} (h : FilesInv c w)
    (hroom : ∀ b, c b + 2 < 2 ^ 32) (hs : fileStep w (.open t p flags) = .ok w') :
    ∃ c', FilesInv c' w' := by
  rw [fileStep] at hs
  cases hrun : (sysOpen t p flags).run w.fs with
  | error e =>
      rw [hrun] at hs
      cases hs
  | ok x =>
      rcases x with ⟨r, fs⟩
      rw [hrun] at hs
      dsimp only at hs
      rcases sysOpen_opens h.ledger hroom hrun with ⟨d, e, ho, -⟩
      have hk := kept_sysOpen _ _ _ _ _ _ hrun
      -- What the new slot refers to is paid by what the call has opened.
      have hrefs : ∀ b, slotRefs fs b ≤ holdDir c d b + e b := fun b => by
        have h1 := ho.refs b
        have h2 := h.refs b
        have h3 := le_holdDir c d b
        omega
      -- A descriptor that the call has not touched denotes what it did.
      have hold : ∀ {w'' : FileWorld} {t' k' : Nat}, w''.fs = fs → t' ∈ w.live → IsFd k' →
          w.fs.fdTable t' k' ≠ -1 → fs.fdTable t' k' = w.fs.fdTable t' k' →
          w''.opened t' k' = w.opened t' k' → Denotes w'' t' k' := by
        intro w'' t' k' hfs ht' hk' hne hfd hop
        subst hfs
        exact (h.valid t' ht' k' hk' hne).kept h.ledger h.refs ho.ledger hrefs hk hfd hop
          (fun g a _ hga => ho.slots g a hga)
      refine ⟨fun b => holdDir c d b + e b, ?_⟩
      -- Either the call has failed and no descriptor is new, or exactly one is.
      rcases ho.fd with ⟨rfl, hfd⟩ | ⟨k, g, a, rfl, h3, h8, hfree, hfd, hlt, hslot, hsees, -⟩
      · rw [if_pos (by omega), Except.ok.injEq] at hs
        subst hs
        refine ⟨ho.ledger, hrefs, fun t' ht' k' hk' hne => ?_⟩
        dsimp only at hne ht'
        rw [hfd] at hne
        exact hold rfl ht' hk' hne (by rw [hfd]) rfl
      · rw [if_neg (by omega), Except.ok.injEq] at hs
        subst hs
        refine ⟨ho.ledger, hrefs, fun t' ht' k' hk' hne => ?_⟩
        by_cases hsame : t' = t ∧ k' = k
        · rcases hsame with ⟨rfl, rfl⟩
          have hg : fs.fdTable t' k' = g := by
            rw [hfd, Fs.setFd]
            dsimp only
            rw [Function.update_self, Function.update_self]
          refine ⟨g, a, hlt, hg, hslot, hsees, ?_⟩
          dsimp only
          rw [Function.update_self, Int.toNat_natCast, Function.update_self, fileOf, hg,
            Int.toNat_natCast, hslot]
          rfl
        · -- Every other descriptor is as before.
          have hother : fs.fdTable t' k' = w.fs.fdTable t' k' := by
            rw [hfd, Fs.setFd]
            dsimp only
            by_cases ht : t' = t
            · rw [ht, Function.update_self, Function.update_of_ne (fun hc => hsame ⟨ht, hc⟩)]
            · rw [Function.update_of_ne ht]
          refine hold rfl ht' hk' (by rw [← hother]; exact hne) hother ?_
          dsimp only
          by_cases ht : t' = t
          · rw [ht, Function.update_self, Int.toNat_natCast,
              Function.update_of_ne (fun hc => hsame ⟨ht, hc⟩)]
          · rw [Function.update_of_ne ht]

/-- Closing a descriptor that is not shared keeps the invariant. -/
theorem close_inv {t : Nat} {fd r : Int} {s' : Fs} (h : FilesInv c w) (hroom : ∀ b, c b < 2 ^ 32)
    (hcalm : 2 < fd → Unshared w t fd.toNat) (hr : (sysClose t fd).run w.fs = .ok (r, s')) :
    ∃ c', FilesInv c' { w with fs := s' } ∧ (∀ b, c' b ≤ c b) ∧
      (2 < fd → s'.fdTable = (w.fs.setFd t fd.toNat (-1)).fdTable) ∧
      (fd ≤ 2 → s'.fdTable = w.fs.fdTable) := by
  rcases sysClose_run h.ledger hroom h.refs hr with ⟨hle, rfl⟩ | ⟨hgt, g, a, hc⟩
  · exact ⟨c, h, fun _ => Nat.le_refl _, fun hc => absurd hc (by omega), fun _ => rfl⟩
  · refine ⟨drop c a, ⟨hc.ledger, hc.refs h.refs, fun t' ht' k' hk' hne => ?_⟩, fun b => ?_,
      fun _ => hc.fdTable, fun hle => absurd hgt (by omega)⟩
    · have hfd : s'.fdTable t' k' = (w.fs.setFd t fd.toNat (-1)).fdTable t' k' := by rw [hc.fdTable]
      have hother : (t', k') ≠ (t, fd.toNat) := by
        intro hcontra
        rw [Prod.mk.injEq] at hcontra
        rw [hcontra.1, hcontra.2] at hfd
        apply hne
        rw [hcontra.1, hcontra.2]
        show s'.fdTable t fd.toNat = -1
        rw [hfd, Fs.setFd]
        dsimp only
        rw [Function.update_self, Function.update_self]
      have hsame : s'.fdTable t' k' = w.fs.fdTable t' k' := by
        rw [hfd, Fs.setFd]
        dsimp only
        by_cases ht : t' = t
        · rw [ht, Function.update_self,
            Function.update_of_ne (fun hk => hother (by rw [ht, hk]))]
        · rw [Function.update_of_ne ht]
      have hne' : w.fs.fdTable t' k' ≠ -1 := by
        rw [← hsame]
        exact hne
      refine (h.valid t' ht' k' hk' hne').kept h.ledger h.refs hc.ledger (hc.refs h.refs)
        (opening_sysClose opening_kept _ _ _ _ _ hr) hsame rfl (fun x b hx hxb => ?_)
      -- The slot of another descriptor is another slot.
      have hxg : x ≠ g := by
        rintro rfl
        have hopen : w.fs.fdTable t fd.toNat ≠ -1 := by
          rw [hc.fd]
          omega
        exact hcalm hgt hopen t' ht' k' hk' hother (hx.trans hc.fd.symm)
      show (s'.fileTable x).fdInode = some b
      rw [hc.rest x hxg]
      exact hxb
    · by_cases hb : b = a
      · rw [hb, drop_self]
        omega
      · rw [drop_of_ne hb]

/-- An exit closes one descriptor after another. -/
theorem closeFilesFrom_inv {t : Nat} (n k : Nat) {u : Unit} {s' : Fs} (h : FilesInv c w)
    (hroom : ∀ b, c b < 2 ^ 32) (hcalm : ∀ k', IsFd k' → Unshared w t k') (hk : 3 ≤ k)
    (hn : k + n ≤ maxFilesOpenPerProc) (hr : (closeFilesFrom t n k).run w.fs = .ok (u, s')) :
    ∃ c', FilesInv c' { w with fs := s' } := by
  induction n generalizing k c w with
  | zero =>
      rcases pure_ok hr with ⟨-, rfl⟩
      exact ⟨c, h⟩
  | succ n ih =>
      rcases run_bind_ok.mp hr with ⟨g, s₁, h₁, k₁⟩
      rcases read_ok h₁ with ⟨rfl, rfl⟩
      by_cases hg : w.fs.fdTable t k ≠ -1
      · rw [if_pos hg] at k₁
        rcases run_bind_ok.mp k₁ with ⟨ret, s₂, h₂, k₂⟩
        have hgt : (2 : Int) < k := by omega
        rcases close_inv h hroom (fun _ => by
          rw [Int.toNat_natCast]
          exact hcalm k ⟨hk, by omega⟩) h₂ with ⟨c₂, hinv, hle, hfds, -⟩
        have hfd := hfds hgt
        rw [Int.toNat_natCast] at hfd
        refine ih (w := { w with fs := s₂ }) (k + 1) hinv
          (fun b => Nat.lt_of_le_of_lt (hle b) (hroom b)) ?_ (by omega) (by omega) k₂
        -- The other descriptors are as before, so what was not shared is not.
        intro k' hk' hopen t'' ht'' k'' hk'' hne
        dsimp only at hopen ⊢
        have hat : ∀ x y, s₂.fdTable x y = if x = t ∧ y = k then -1 else w.fs.fdTable x y := by
          intro x y
          rw [hfd, Fs.setFd]
          dsimp only
          by_cases hx : x = t
          · rw [hx, Function.update_self]
            by_cases hy : y = k
            · rw [hy, Function.update_self, if_pos ⟨rfl, rfl⟩]
            · rw [Function.update_of_ne hy, if_neg (fun hc => hy hc.2)]
          · rw [Function.update_of_ne hx, if_neg (fun hc => hx hc.1)]
        rw [hat] at hopen
        rw [hat, hat]
        by_cases hkk : t = t ∧ k' = k
        · rw [if_pos hkk] at hopen
          exact absurd rfl hopen
        · rw [if_neg hkk] at hopen ⊢
          by_cases hself : t'' = t ∧ k'' = k
          · rw [if_pos hself]
            exact hopen.symm
          · rw [if_neg hself]
            exact hcalm k' hk' hopen t'' ht'' k'' hk'' hne
      · rw [if_neg hg] at k₁
        exact ih (k + 1) h hroom hcalm (by omega) (by omega) k₁

/-- What `update_inode_open_cnts` leaves alone. -/
structure OnlyCounts (s s' : Fs) : Prop where
  fileTable : s'.fileTable = s.fileTable
  fdTable : s'.fdTable = s.fdTable
  home : s'.home = s.home
  nextInode : s'.nextInode = s.nextInode
  isUser : s'.isUser = s.isUser
  openInodes : s'.part.openInodes = s.part.openInodes
  iNo : ∀ a, (s'.inode a).iNo = (s.inode a).iNo

/-- A fork is one more holder for each descriptor. -/
theorem updateInodeOpenCntsFrom_ledger {cur t n k : Nat} {s s' : Fs} (h : Ledger c s)
    (hroom : ∀ b, c b + n < 2 ^ 32)
    (hfds : ∀ j, k ≤ j → j < k + n → s.fdTable t j ≠ -1 → ∀ a,
      (s.fileTable (s.fdTable t j).toNat).fdInode = some a → a ∈ s.part.openInodes)
    (hr : updateInodeOpenCntsFrom cur t n k s = .ok s') :
    ∃ c', Ledger c' s' ∧ (∀ b, c b ≤ c' b) ∧ OnlyCounts s s' := by
  -- The ledger grows by one entry for each descriptor the loop passes.
  induction n generalizing k c s with
  | zero =>
      rw [updateInodeOpenCntsFrom, Except.ok.injEq] at hr
      rw [← hr]
      exact ⟨c, h, fun _ => Nat.le_refl _, rfl, rfl, rfl, rfl, rfl, rfl, fun _ => rfl⟩
  | succ n ih =>
      rw [updateInodeOpenCntsFrom] at hr
      rcases bind_eq_ok.mp hr with ⟨_, -, hr⟩
      by_cases hfd : s.fdTable t k ≠ -1
      · rw [if_pos hfd] at hr
        cases hslot : (s.fileTable (s.fdTable t k).toNat).fdInode with
        | none =>
            rw [hslot] at hr
            cases hr
        | some a =>
            rw [hslot] at hr
            rcases bind_eq_ok.mp hr with ⟨_, -, hr⟩
            rcases bind_eq_ok.mp hr with ⟨s₁, hone, hr⟩
            rw [Except.ok.injEq] at hone
            have hlisted := hfds k (Nat.le_refl _) (by omega) hfd a hslot
            have hl₁ : Ledger (bump c a) s₁ := by
              rw [← hone]
              exact h.hit hlisted (by have := hroom a; omega)
            -- Only the count of the one inode has changed.
            have honly : OnlyCounts s s₁ := by
              rw [← hone]
              refine ⟨rfl, rfl, rfl, rfl, rfl, rfl, fun b => ?_⟩
              show (Function.update s.inode a _ b).iNo = _
              by_cases hb : b = a
              · rw [hb, Function.update_self]
              · rw [Function.update_of_ne hb]
            rcases ih hl₁ (fun b => by
                have := bump_le c a b
                have := hroom b
                omega) (fun j h1 h2 hj b hb => by
                  rw [honly.fdTable] at hj
                  rw [honly.fdTable, honly.fileTable] at hb
                  rw [honly.openInodes]
                  exact hfds j (by omega) (by omega) hj b hb) hr with ⟨c', hl', hle, ho⟩
            exact ⟨c', hl', fun b => Nat.le_trans (le_bump c a b) (hle b),
              ho.fileTable.trans honly.fileTable, ho.fdTable.trans honly.fdTable,
              ho.home.trans honly.home, ho.nextInode.trans honly.nextInode,
              ho.isUser.trans honly.isUser, ho.openInodes.trans honly.openInodes,
              fun b => (ho.iNo b).trans (honly.iNo b)⟩
      · rw [if_neg hfd, ok_bind] at hr
        exact ih h (fun b => by have := hroom b; omega)
          (fun j h1 h2 => hfds j (by omega) (by omega)) hr

/-- A fork keeps the invariant, if the child sees what it inherits. -/
theorem fork_inv {parent child : Nat} {w' : FileWorld} (h : FilesInv c w)
    (hroom : ∀ b, c b + 8 < 2 ^ 32) (hlive : parent ∈ w.live)
    (hcalm : ∀ k, IsFd k → ∀ g a : Nat, w.fs.fdTable parent k = g →
      (w.fs.fileTable g).fdInode = some a → w.fs.home a = .kernel)
    (hs : fileStep w (.fork parent child) = .ok w') : ∃ c', FilesInv c' w' := by
  have hmax : maxFilesOpenPerProc = 8 := rfl
  rw [fileStep] at hs
  cases hupd : updateInodeOpenCnts (inheritFds w.fs child parent) parent child with
  | error f =>
      rw [hupd] at hs
      cases hs
  | ok fs =>
      rw [hupd, Except.ok.injEq] at hs
      have hl₀ : Ledger c (inheritFds w.fs child parent) :=
        h.ledger.congr rfl (Nat.le_refl _) (fun _ _ => rfl) (fun _ _ => rfl)
      -- The child starts with the descriptors of its parent.
      have hchild : (inheritFds w.fs child parent).fdTable child = w.fs.fdTable parent :=
        Function.update_self _ _ _
      rcases updateInodeOpenCntsFrom_ledger hl₀ (fun b => by have := hroom b; omega)
        (fun j h1 h2 hj a ha => by
          rw [hchild] at hj ha
          rcases h.valid parent hlive j ⟨h1, by omega⟩ hj with ⟨g, b, hg, hfg, hgb, -, -⟩
          rw [hfg, Int.toNat_natCast] at ha
          rw [show (inheritFds w.fs child parent).fileTable = w.fs.fileTable from rfl] at ha
          exact (h.ledger.listed a).mpr
            (Nat.lt_of_lt_of_le (slotRefs_pos hg ha) (h.refs a))) hupd with ⟨c', hl', hle, ho⟩
      have hrefs : ∀ b, slotRefs fs b ≤ c' b := fun b => by
        rw [slotRefs_congr ho.fileTable b]
        exact Nat.le_trans (h.refs b) (hle b)
      subst hs
      refine ⟨c', hl', hrefs, fun t' ht' k' hk' hne => ?_⟩
      dsimp only at hne
      rw [ho.fdTable] at hne
      by_cases ht : t' = child
      · -- The child sees the inode, as it is one of the kernel.
        rw [ht, hchild] at hne
        rcases h.valid parent hlive k' hk' hne with ⟨g, a, hg, hfg, hga, -, hname⟩
        refine ⟨g, a, hg, ?_, ?_, Or.inl ?_, ?_⟩
        · dsimp only
          rw [ho.fdTable, ht, hchild, hfg]
        · dsimp only
          rw [ho.fileTable]
          exact hga
        · dsimp only
          rw [ho.home]
          exact hcalm k' hk' g a hfg hga
        · dsimp only
          rw [ht, Function.update_self, hname, ho.iNo]
          rfl
      · -- The other tasks keep their tables.
        have hold : (inheritFds w.fs child parent).fdTable t' = w.fs.fdTable t' :=
          Function.update_of_ne ht _ _
        rw [hold] at hne
        have ht'' : t' ∈ w.live := (List.mem_cons.mp ht').resolve_left ht
        rcases h.valid t' ht'' k' hk' hne with ⟨g, a, hg, hfg, hga, hsees, hname⟩
        refine ⟨g, a, hg, ?_, ?_, ?_, ?_⟩
        · dsimp only
          rw [ho.fdTable, hold, hfg]
        · dsimp only
          rw [ho.fileTable]
          exact hga
        · dsimp only
          rw [Fs.Sees, ho.home]
          exact hsees
        · dsimp only
          rw [Function.update_of_ne ht, hname, ho.iNo]
          rfl

/-- Every call that meets the condition keeps the invariant. -/
theorem fileStep_inv {e : FileCall} {w' : FileWorld} (h : ∃ c, FilesInv c w)
    (he : fileEnabled w e) (hcalm : Calm w e) (hs : fileStep w e = .ok w') :
    ∃ c, FilesInv c w' := by
  rcases h with ⟨c, h⟩
  -- Every call has room for its counts, and descriptors go away only in `close` and `exit`.
  have hroom := h.ledger.room hcalm.1
  cases e with
  | «open» t p flags => exact open_inv h (fun b => by have := hroom b; omega) hs
  | close t fd =>
      rw [fileStep] at hs
      cases hrun : (sysClose t fd).run w.fs with
      | error f =>
          rw [hrun] at hs
          cases hs
      | ok x =>
          rw [hrun, Except.ok.injEq] at hs
          rcases close_inv h (fun b => by have := hroom b; omega)
            (fun hgt => (hcalm.2 hgt).2) hrun with ⟨c', hinv, -⟩
          rw [← hs]
          exact ⟨c', hinv⟩
  | fork parent child => exact fork_inv h hroom he.1 hcalm.2 hs
  | exit t =>
      rw [fileStep] at hs
      cases hrun : (closeFiles t).run w.fs with
      | error f =>
          rw [hrun] at hs
          cases hs
      | ok x =>
          rw [hrun, Except.ok.injEq] at hs
          rcases closeFilesFrom_inv _ 3 h (fun b => by have := hroom b; omega) hcalm.2 (Nat.le_refl _)
            (Nat.le_refl _) hrun with ⟨c', hinv⟩
          rw [← hs]
          exact ⟨c', hinv.ledger, hinv.refs, fun t' ht' => hinv.valid t' (List.mem_of_mem_filter ht')⟩

end Steps

/-- A partition that has just been mounted has no open inode. -/
theorem mountPartition_run {s s' : Fs} {u : Unit} (h : mountPartition.run s = .ok (u, s')) :
    s'.part.openInodes = [] := by
  rcases run_bind_ok.mp h with ⟨_, s₁, _, k₁⟩
  rcases run_bind_ok.mp k₁ with ⟨_, s₂, _, k₂⟩
  rcases run_bind_ok.mp k₂ with ⟨_, s₃, _, k₃⟩
  rcases run_bind_ok.mp k₃ with ⟨_, s₄, _, k₄⟩
  rcases run_bind_ok.mp k₄ with ⟨_, s₅, _, k₅⟩
  rcases run_bind_ok.mp k₅ with ⟨_, s₆, _, k₆⟩
  rcases run_bind_ok.mp k₆ with ⟨_, s₇, _, k₇⟩
  rcases run_bind_ok.mp k₇ with ⟨_, s₈, _, k₈⟩
  rw [modify_ok k₈]

/-- After `filesys_init` the root directory is the only open inode, and no
    slot is taken. -/
theorem filesysInit_files {t : Nat} {s s' : Fs} {u : Unit}
    (h : (filesysInit t).run s = .ok (u, s')) :
    Ledger (bump (fun _ => 0) s'.rootDir) s' ∧ ∀ a, slotRefs s' a = 0 := by
  rcases run_bind_ok.mp h with ⟨_, s₁, _, k₁⟩
  rcases run_bind_ok.mp k₁ with ⟨_, s₂, _, k₂⟩
  rcases run_bind_ok.mp k₂ with ⟨_, s₃, h₃, k₃⟩
  have hopen := mountPartition_run h₃
  have hl₃ : Ledger (fun _ => 0) s₃ := by
    refine ⟨?_, ?_, ?_, ?_⟩ <;> rw [hopen]
    · exact fun a ha => absurd ha List.not_mem_nil
    · exact List.nodup_nil
    · exact fun a ha => absurd ha List.not_mem_nil
    · exact fun a => ⟨fun ha => absurd ha List.not_mem_nil, fun hc => absurd hc (by omega)⟩
  rcases run_bind_ok.mp k₃ with ⟨_, s₄, h₄, k₄⟩
  rcases run_bind_ok.mp h₄ with ⟨n, s₅, h₅, k₅⟩
  rcases read_ok h₅ with ⟨-, rfl⟩
  rcases run_bind_ok.mp k₅ with ⟨a, s₆, h₆, k₆⟩
  have hl₆ := (inodeOpen_ledger hl₃ (fun _ => by omega) h₆).1
  have hs₄ := modify_ok k₆
  rw [modify_ok k₄, hs₄]
  refine ⟨hl₆.congr rfl (Nat.le_refl _) (fun _ _ => rfl) (fun _ _ => rfl), fun b => ?_⟩
  refine Finset.sum_eq_zero (fun g hg => ?_)
  rw [if_neg]
  dsimp only
  rw [if_pos (Finset.mem_range.mp hg)]
  simp only [reduceCtorEq, not_false_eq_true]

/-- In every run whose calls meet the condition, every descriptor of every
    process refers to the file it was opened for. -/
theorem descriptors_valid {w : FileWorld} (h : (fileSystem.restrict Calm).Reachable w) :
    DescriptorsValid w := by
  have hinv : ∃ c, FilesInv c w := by
    refine System.invariant_of_step (fileSystem.restrict Calm) (fun w => ∃ c, FilesInv c w) ?_ ?_
      w h
    · rintro w ⟨⟨t, s, u, hrun⟩, hfds⟩
      rcases filesysInit_files hrun with ⟨hl, hzero⟩
      exact ⟨_, hl, fun a => by rw [hzero a]; exact Nat.zero_le _,
        fun t' ht' k hk hne => absurd (hfds t' ht' k hk) hne⟩
    · exact fun w e w' hw he hs => fileStep_inv hw he.1 he.2 hs
  exact hinv.choose_spec.valid

section Kernel

variable {k k' : Kernel} {child parent : Word} {done : Bool}

theorem copyPcbVaddrbitmapStack0_fs
    (h : copyPcbVaddrbitmapStack0 k child parent = .ok (k', done)) :
    k'.fs = inheritFds k.fs child.toNat parent.toNat := by
  rw [copyPcbVaddrbitmapStack0] at h
  rcases bind_eq_ok.mp h with ⟨⟨pool, pid⟩, -, h⟩
  rcases bind_eq_ok.mp h with ⟨⟨m, vaddrBtmp⟩, -, h⟩
  dsimp only at h
  by_cases hz : vaddrBtmp = 0
  · rw [if_pos hz, Except.ok.injEq, Prod.mk.injEq] at h
    rw [← h.1]
    rfl
  · rw [if_neg hz] at h
    rcases bind_eq_ok.mp h with ⟨m', -, h⟩
    rcases bind_eq_ok.mp h with ⟨_, -, h⟩
    rw [Except.ok.injEq, Prod.mk.injEq] at h
    rw [← h.1]
    rfl

theorem copyProcess_fs (h : copyProcess k child parent = .ok (k', done)) :
    (done = false ∧ (k'.fs = k.fs ∨ k'.fs = inheritFds k.fs child.toNat parent.toNat)) ∨
      (done = true ∧ updateInodeOpenCnts (inheritFds k.fs child.toNat parent.toNat)
        parent.toNat child.toNat = .ok k'.fs) := by
  rw [copyProcess] at h
  rcases bind_eq_ok.mp h with ⟨⟨m, bufPage⟩, -, h⟩
  dsimp only at h
  -- The early returns come before or after the descriptors are inherited, and always before the
  -- counts.
  by_cases hz : bufPage = 0
  · rw [if_pos hz, Except.ok.injEq, Prod.mk.injEq] at h
    exact Or.inl ⟨h.2.symm, Or.inl (by rw [← h.1])⟩
  rw [if_neg hz] at h
  rcases bind_eq_ok.mp h with ⟨⟨k₁, copied⟩, hcopy, h⟩
  have hfs := copyPcbVaddrbitmapStack0_fs hcopy
  dsimp only at h hfs
  by_cases hc : copied = false
  · rw [if_pos hc, Except.ok.injEq, Prod.mk.injEq] at h
    exact Or.inl ⟨h.2.symm, Or.inr (by rw [← h.1, hfs])⟩
  rw [if_neg hc] at h
  rcases bind_eq_ok.mp h with ⟨⟨m₁, pgdir⟩, -, h⟩
  dsimp only at h
  by_cases hp : pgdir = 0
  · rw [if_pos hp, Except.ok.injEq, Prod.mk.injEq] at h
    exact Or.inl ⟨h.2.symm, Or.inr (by rw [← h.1]; exact hfs)⟩
  rw [if_neg hp] at h
  rcases bind_eq_ok.mp h with ⟨m₂, -, h⟩
  rcases bind_eq_ok.mp h with ⟨fs, hupd, h⟩
  rcases bind_eq_ok.mp h with ⟨m₃, -, h⟩
  rw [Except.ok.injEq, Prod.mk.injEq] at h
  refine Or.inr ⟨h.2.symm, ?_⟩
  rw [← h.1, ← hfs]
  exact hupd

/-- What a fork does to the files. A fork that fails has at most copied the
    descriptors to the page that was to be the child's PCB. -/
theorem sysFork_fs {pid : Int} (h : sysFork k = .ok (k', pid)) :
    k'.fs = k.fs ∨ ∃ child : Word, k'.fs = inheritFds k.fs child.toNat k.cur.toNat ∨
      updateInodeOpenCnts (inheritFds k.fs child.toNat k.cur.toNat) k.cur.toNat child.toNat
        = .ok k'.fs := by
  rw [sysFork] at h
  rcases bind_eq_ok.mp h with ⟨⟨m, child⟩, -, h⟩
  dsimp only at h
  by_cases hz : child = 0
  · rw [if_pos hz, Except.ok.injEq, Prod.mk.injEq] at h
    exact Or.inl (by rw [← h.1])
  rw [if_neg hz] at h
  rcases bind_eq_ok.mp h with ⟨_, -, h⟩
  rcases bind_eq_ok.mp h with ⟨⟨k₁, done⟩, hcopy, h⟩
  dsimp only at h
  rcases copyProcess_fs hcopy with ⟨hd, hfs⟩ | ⟨hd, hfs⟩
  · rw [if_pos hd, Except.ok.injEq, Prod.mk.injEq] at h
    rw [← h.1]
    rcases hfs with hfs | hfs
    · exact Or.inl hfs
    · exact Or.inr ⟨child, Or.inl hfs⟩
  · rw [if_neg (by rw [hd]; decide)] at h
    rcases bind_eq_ok.mp h with ⟨_, -, h⟩
    rcases bind_eq_ok.mp h with ⟨_, -, h⟩
    rw [Except.ok.injEq, Prod.mk.injEq] at h
    rw [← h.1]
    exact Or.inr ⟨child, Or.inr hfs⟩

end Kernel

section Example

instance (w : FileWorld) (e : FileCall) : Decidable (fileSystem.enabled w e) :=
  match e with
  | .open t _ _ => inferInstanceAs (Decidable (t ∈ w.live))
  | .close t _ => inferInstanceAs (Decidable (t ∈ w.live))
  | .fork _ _ => inferInstanceAs (Decidable (_ ∧ _ ∧ ¬ _))
  | .exit t => inferInstanceAs (Decidable (t ∈ w.live))

/-- A partition that has just been formatted, a kernel thread and a process. -/
def twoTasks : FileWorld where
  fs := (filesysInit 0).after (blankFs 2048 10000 (· == 1))
  live := [0, 1]
  opened _ _ := none

/-- The path `/a`. -/
def pathA : Str := [0x2f, 0x61]

theorem twoTasks_init : fileSystem.init twoTasks := by
  have hok : ((filesysInit 0).run (blankFs 2048 10000 (· == 1))).isOk = true := by decide +kernel
  rcases after_ok hok with ⟨u, hu⟩
  refine ⟨⟨0, _, u, hu⟩, fun t ht k hk => ?_⟩
  have hk' : k < 8 := hk.2
  have hall : ∀ t ∈ twoTasks.live, ∀ k < 8, twoTasks.fs.fdTable t k = -1 := by decide +kernel
  exact hall t ht k hk'

/-- The thread makes `/a`, the process opens it and forks, and the child
    closes the descriptor it has inherited. -/
def closeShared : List FileCall :=
  [.open 0 pathA 4, .close 0 3, .open 1 pathA 0, .fork 1 2, .close 2 3]

/-- The descriptor of the parent then refers to a free slot. -/
theorem close_invalidates_parent :
    fileSystem.Reachable (fileSystem.after twoTasks closeShared) ∧
      ¬ DescriptorsValid (fileSystem.after twoTasks closeShared) := by
  constructor
  · refine fileSystem.reachable_after _ (.init _ twoTasks_init) ?_
    decide +kernel
  · intro hvalid
    have hlive : 1 ∈ (fileSystem.after twoTasks closeShared).live := by decide +kernel
    have hfd : (fileSystem.after twoTasks closeShared).fs.fdTable 1 3 = 3 := by decide +kernel
    have hslot : ((fileSystem.after twoTasks closeShared).fs.fileTable 3).fdInode = none := by
      decide +kernel
    rcases hvalid 1 hlive 3 ⟨by decide, by decide⟩ (by rw [hfd]; decide) with
      ⟨g, a, -, hg, ha, -⟩
    rw [hfd] at hg
    have hg' : g = 3 := by omega
    rw [hg', hslot] at ha
    cases ha

/-- The thread makes `/a`, and then the process opens it. -/
theorem descriptors_valid_two_opens :
    DescriptorsValid (fileSystem.after twoTasks [.open 0 pathA 4, .open 1 pathA 0]) := by
  have hrun : fileSystem.Runs twoTasks [.open 0 pathA 4, .open 1 pathA 0] := by decide +kernel
  have h0 : ∀ a ∈ twoTasks.fs.part.openInodes,
      (twoTasks.fs.inode a).iOpenCnts + 8 < 2 ^ 32 := by
    decide +kernel
  have h1 : ∀ a ∈ (fileSystem.next twoTasks (.open 0 pathA 4)).fs.part.openInodes,
      ((fileSystem.next twoTasks (.open 0 pathA 4)).fs.inode a).iOpenCnts + 8 < 2 ^ 32 := by
    decide +kernel
  have hcalm : fileSystem.Meets Calm twoTasks [.open 0 pathA 4, .open 1 pathA 0] :=
    ⟨⟨h0, True.intro⟩, ⟨h1, True.intro⟩, True.intro⟩
  exact descriptors_valid ((fileSystem.restrict Calm).reachable_after _ (.init _ twoTasks_init)
    (fileSystem.runs_restrict Calm hrun hcalm))

end Example

end ForikOS
