import ForikOS.Theory.Exec
import ForikOS.Theory.FileRead

/-!
# Reading at an Offset

`sys_lseek` from the beginning of a file and `sys_read`, as `load` calls them one
after the other.

Neither changes the file, so the state in between is that after `sys_open` but
for the position. `sys_lseek` moves to an offset that is in the file, and refuses
any other: then the position stays where it was, and the next `sys_read` reads
from there. `sys_read` returns as many bytes as were asked for exactly if the file
has as many from the position on.

## Main definitions

* `Reading`: The state of the file system while a file is read.

## Theorems

* `sysLseek_reading`: A position in the file is taken.
* `sysRead_reading`: What is read at the position.
-/

namespace ForikOS

open Prog

/-- The file at `a` is read through slot `g`: since `s₀` only the position has
    changed, and there is memory for `c` buffers. -/
structure Reading (g a c : Nat) (s₀ s : Fs) : Prop where
  rest : s = { s₀ with mallocs := s.mallocs, fileTable := s.fileTable }
  slot : (s.fileTable g).fdInode = some a
  mallocs : ∀ i, i < c → s.mallocs i = true
  pos : (s.fileTable g).fdPos ≤ (s₀.inode a).iSize

namespace Reading

variable {t g a c : Nat} {s₀ s s' : Fs}

theorem inode (h : Reading g a c s₀ s) : s.inode = s₀.inode := by rw [h.rest]

theorem disk (h : Reading g a c s₀ s) : s.disk = s₀.disk := by rw [h.rest]

theorem slotOf_eq (h : Reading g a c s₀ s) (t : Nat) (fd : Int) : slotOf t fd s = slotOf t fd s₀ := by
  rw [slotOf, h.rest, slotOf]

/-- The file is still well formed. -/
theorem fileOn (h : Reading g a c s₀ s) (h₀ : FileOn t g a s₀) : FileOn t g a s := by
  have hpart : s.part = s₀.part := by rw [h.rest]
  have hhome : s.home = s₀.home := by rw [h.rest]
  refine ⟨⟨h.slot, ?_⟩, by rw [hpart]; exact h₀.volume, ?_, ?_⟩
  · rw [Fs.Sees, hhome]
    exact h₀.file.sees
  · rw [h.disk, h.inode]
    exact h₀.wf
  · rw [h.disk, h.inode, hpart]
    exact h₀.taken

/-- The position has changed. -/
theorem moved (h : Reading g a c s₀ s) {n : Nat} (hn : n ≤ (s₀.inode a).iSize) :
    Reading g a c s₀ (s.setFile g { s.fileTable g with fdPos := n }) := by
  refine ⟨?_, ?_, h.mallocs, ?_⟩
  · conv_lhs => rw [h.rest]
    rfl
  · rw [setFile_self]
    exact h.slot
  · rw [setFile_self]
    exact hn

theorem twoMallocs (h : Reading g a (c + 2) s₀ s) :
    Reading g a c s₀ (ForikOS.twoMallocs s) := by
  refine ⟨?_, h.slot, fun i hi => h.mallocs (i + 2) (by omega), h.pos⟩
  conv_lhs => rw [ForikOS.twoMallocs, h.rest]
  rfl

/-- Fewer buffers are needed. -/
theorem less {c' : Nat} (h : Reading g a c s₀ s) (hc : c' ≤ c) : Reading g a c' s₀ s :=
  ⟨h.rest, h.slot, fun i hi => h.mallocs i (Nat.lt_of_lt_of_le hi hc), h.pos⟩

end Reading

section Calls

variable {t g a c count : Nat} {fd r : Int} {s₀ s s' : Fs} {dst buf : Nat → Byte}

theorem toInt32_of_lt {n : Nat} (h : n < 2 ^ 31) : toInt32 n = n := by
  rw [toInt32, BitVec.toInt_eq_toNat_bmod, BitVec.toNat_ofNat, Int.bmod_def]
  omega

/-- `sys_lseek` takes an offset that is in the file. -/
theorem sysLseek_reading (h : Reading g a c s₀ s) (hfd : 3 ≤ fd) (hslot : slotOf t fd s₀ = g)
    (hsize : (s₀.inode a).iSize < 2 ^ 31) {off : Nat}
    (hrun : (sysLseek t fd (toInt32 off) 1).run s = .ok (r, s')) :
    Reading g a c s₀ s' ∧ (off < (s₀.inode a).iSize → (s'.fileTable g).fdPos = off) := by
  unfold sysLseek at hrun
  rw [if_neg (by omega)] at hrun
  rcases run_bind_ok.mp hrun with ⟨_, s₁, h₁, k₁⟩
  rcases assert_run h₁ with ⟨-, rfl⟩
  rcases run_bind_ok.mp k₁ with ⟨g', s₂, h₂, k₂⟩
  rcases fdLocal2global_run h₂ with ⟨rfl, hg', -⟩
  rw [← slotOf, h.slotOf_eq, hslot] at hg'
  subst hg'
  rcases run_bind_ok.mp k₂ with ⟨pos, s₃, h₃, k₃⟩
  rcases read_ok h₃ with ⟨rfl, rfl⟩
  rcases run_bind_ok.mp k₃ with ⟨⟨a', i⟩, s₄, h₄, k₄⟩
  rcases fileInode_run h₄ with ⟨rfl, ha, hi⟩
  dsimp only at k₄ ha hi
  rw [h.slot, Option.some.injEq] at ha
  subst ha
  have hnew : seekPos (s₄.fileTable g').fdPos i.iSize (toInt32 off) 1 = toInt32 off := if_pos rfl
  rw [hnew] at k₄
  rw [hi] at k₄
  rw [← h.inode] at hsize ⊢
  -- The test of `sys_lseek` is that of a signed number against the last offset.
  by_cases hout : toInt32 off < 0 ∨ (toInt32 (s₄.inode a).iSize - 1).bmod (2 ^ 32) < toInt32 off
  · rw [if_pos hout] at k₄
    rcases pure_ok k₄ with ⟨-, rfl⟩
    refine ⟨h, fun hlt => absurd hout ?_⟩
    rw [toInt32_of_lt hsize, toInt32_of_lt (by omega), Int.bmod_def]
    omega
  · rw [if_neg hout] at k₄
    rcases run_bind_ok.mp k₄ with ⟨_, s₅, h₅, k₅⟩
    rcases pure_ok k₅ with ⟨-, rfl⟩
    rw [modify_ok h₅]
    refine ⟨h.moved (by rw [← h.inode]; exact toNat_le_of_seek (by omega)), fun hlt => ?_⟩
    rw [setFile_self, toInt32_of_lt (by omega)]
    rfl

/-- `sys_read` returns what was asked for if the file has it. -/
theorem sysRead_reading (h : Reading g a (c + 2) s₀ s) (h₀ : FileOn t g a s₀) (hfd : 3 ≤ fd)
    (hslot : slotOf t fd s₀ = g) (hsize : 0 < (s₀.inode a).iSize ∨ 0 < count)
    (hword : (s.fileTable g).fdPos + count < 2 ^ 32)
    (hrun : (sysRead t fd (some dst) count).run s = .ok ((r, buf), s')) :
    Reading g a c s₀ s' ∧
      ((s.fileTable g).fdPos + count ≤ (s₀.inode a).iSize → r = count ∧
        ∀ k, k < count → buf k = fileByte s₀.disk (s₀.inode a) ((s.fileTable g).fdPos + k)) ∧
      (r = count → 0 < count → (s.fileTable g).fdPos + count ≤ (s₀.inode a).iSize) := by
  unfold sysRead sysReadTo at hrun
  dsimp only at hrun
  rw [if_neg (by omega), if_neg (by omega)] at hrun
  rcases run_bind_ok.mp hrun with ⟨g', s₁, hfdrun, hread⟩
  rcases fdLocal2global_run hfdrun with ⟨rfl, hg', -⟩
  rw [← slotOf, h.slotOf_eq, hslot] at hg'
  subst hg'
  have hon := h.fileOn h₀
  have hpos := h.pos
  rw [← h.inode] at hpos hsize ⊢
  rw [← h.disk]
  -- At the end of the file `sys_read` returns -1, elsewhere it reads as much as
  -- there is.
  by_cases hend : (s₁.fileTable g').fdPos = (s₁.inode a).iSize ∧ 0 < count
  · rw [(leads_fileRead_end hon.file hend.1 hend.2 hword dst).1] at hread
    rcases pure_ok hread with ⟨hr, rfl⟩
    rw [Prod.mk.injEq] at hr
    exact ⟨h.less (Nat.le_add_right c 2), fun hle => absurd hle (by omega), fun hc => absurd hc (by omega)⟩
  · have hlaid : Laid s₁.disk (s₁.inode a) ((s₁.inode a).iSize / 512) := by
      rcases hon.wf with hnone | hlaid
      · have h0 := hnone.1
        exact absurd hend (by omega)
      · exact hlaid
    have hlt := hlaid.last_lt
    rw [(leads_fileRead_min hon.file (by omega) hpos (by omega) hword dst).1] at hread
    generalize hm : min count ((s₁.inode a).iSize - (s₁.fileTable g').fdPos) = m at hread
    have hend32 : add32 (s₁.fileTable g').fdPos m = (s₁.fileTable g').fdPos + m := by
      rw [add32, Nat.mod_eq_of_lt (by omega)]
    by_cases hfits : ((s₁.fileTable g').fdPos + m) / 512 < 139
    · rcases run_readFile ⟨hlaid, hon.taken⟩ ⟨h.mallocs 0 (by omega), h.mallocs 1 (by omega)⟩
        (show ((s₁.fileTable g').fdPos + m) / 512 ≤ _ by omega) hfits dst with ⟨s₂, hrun₂, hadv⟩
      rw [hrun₂, Except.ok.injEq, Prod.mk.injEq, Prod.mk.injEq] at hread
      rcases hread with ⟨⟨rfl, rfl⟩, rfl⟩
      refine ⟨?_, fun hle => ⟨by omega, fun k hk => ?_⟩, fun hr hpos' => by omega⟩
      · rw [hadv]
        exact h.twoMallocs.moved (by rw [← h.inode]; show (s₁.fileTable g').fdPos + m ≤ _; omega)
      · exact if_pos (by omega)
    · -- The last block of the largest file cannot be read.
      have hlast : ¬ ((s₁.fileTable g').fdPos / 512 < 139 ∧
          add32 (s₁.fileTable g').fdPos m / 512 < 139) := by
        rw [hend32]
        omega
      have hstop := (stops_readFile (g := g') (h.mallocs 1 (by omega)) (s₁.inode a) hlast dst).1
      rw [hstop] at hread
      cases hread

end Calls

end ForikOS
