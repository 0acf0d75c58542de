import ForikOS.Core.Memory
import Mathlib.Data.Nat.Bitwise

/-!
# The Page Tables Seen Through Themselves

The code reaches the entry for a virtual address through the last entry of
the page directory, which maps the directory itself. The walk of the
processor then takes the directory for a page table, or for a page, and
arrives one or two levels early.

All masks and shifts are turned into division and remainder first, since the
arithmetic of the walk is about the digits of an address.

## Main definitions

* `SelfMap`: The last entry of the directory maps the directory.

## Theorems

* `pdeIdx_eq`, `pteIdx_eq`, `wordIdx_eq`: The digits of an address.
* `load_pdePtr`, `store_pdePtr`: The directory entry of an address.
* `load_ptePtr`, `store_ptePtr`: The table entry of an address.
-/

namespace ForikOS

theorem pdeIdx_eq (v : Word) : pdeIdx v = v.toNat / 2 ^ 22 := by
  have hv := v.isLt
  have hmask : (0xffc00000 : Word).toNat >>> 22 = 2 ^ 10 - 1 := by decide
  rw [pdeIdx, BitVec.toNat_ushiftRight, BitVec.toNat_and, Nat.shiftRight_and_distrib, hmask,
    Nat.and_two_pow_sub_one_eq_mod, Nat.shiftRight_eq_div_pow]
  omega

theorem pteIdx_eq (v : Word) : pteIdx v = v.toNat / 2 ^ 12 % 2 ^ 10 := by
  have hmask : (0x003ff000 : Word).toNat >>> 12 = 2 ^ 10 - 1 := by decide
  rw [pteIdx, BitVec.toNat_ushiftRight, BitVec.toNat_and, Nat.shiftRight_and_distrib, hmask,
    Nat.and_two_pow_sub_one_eq_mod, Nat.shiftRight_eq_div_pow]

theorem toNat_low (v : Word) : (v &&& 0xfff).toNat = v.toNat % 2 ^ 12 := by
  have hmask : (0xfff : Word).toNat = 2 ^ 12 - 1 := by decide
  rw [BitVec.toNat_and, hmask, Nat.and_two_pow_sub_one_eq_mod]

theorem wordIdx_eq (v : Word) : wordIdx v = v.toNat % 2 ^ 12 / 4 := by
  rw [wordIdx, toNat_low]

/-- Masking the high bits of a word leaves a multiple of the page size. -/
theorem toNat_high (e : Word) : (e &&& 0xfffff000).toNat = e.toNat / 2 ^ 12 * 2 ^ 12 := by
  have he := e.isLt
  have hlow : (e &&& 0xfffff000).toNat % 2 ^ 12 = 0 := by
    have hmask : (0xfffff000 : Word) &&& 0xfff = 0#32 := by decide
    rw [← toNat_low, BitVec.and_assoc, hmask, BitVec.and_zero]
    rfl
  have hdiv : (e &&& 0xfffff000).toNat / 2 ^ 12 = e.toNat / 2 ^ 12 := by
    have hmask : (0xfffff000 : Word).toNat >>> 12 = 2 ^ 20 - 1 := by decide
    rw [← Nat.shiftRight_eq_div_pow, BitVec.toNat_and, Nat.shiftRight_and_distrib, hmask,
      Nat.and_two_pow_sub_one_eq_mod, Nat.shiftRight_eq_div_pow]
    omega
  omega

theorem frameOf_eq (e : Word) : frameOf e = e.toNat / 2 ^ 12 := by
  rw [frameOf, toNat_high]
  omega

theorem isPresent_eq (e : Word) : isPresent e = decide (e.toNat % 2 = 1) := by
  have hmask : (1 : Word).toNat = 2 ^ 1 - 1 := by decide
  have hlow : (e &&& 1).toNat = e.toNat % 2 := by
    rw [BitVec.toNat_and, hmask, Nat.and_two_pow_sub_one_eq_mod, Nat.pow_one]
  have hzero : (e &&& 1) = 0 ↔ e.toNat % 2 = 0 := by
    rw [← hlow]
    exact BitVec.toNat_inj.symm
  by_cases h : e.toNat % 2 = 1
  · rw [isPresent, decide_eq_true h, bne_iff_ne, ne_eq, hzero]
    omega
  · rw [isPresent, decide_eq_false h, ← Bool.not_eq_true, bne_iff_ne, ne_eq, hzero]
    omega

/-- An entry for the address of a page: the address plus the three
    attributes. -/
theorem toNat_entryFor {phy : Word} (h : phy.toNat % 2 ^ 12 = 0) :
    (entryFor phy).toNat = phy.toNat + 7 := by
  have hor : entryFor phy = phy ||| 7 := by
    rw [entryFor, BitVec.or_assoc, BitVec.or_assoc]
    rfl
  have hsplit : phy.toNat = 2 ^ 12 * (phy.toNat / 2 ^ 12) := by omega
  rw [hor, BitVec.toNat_or, hsplit]
  exact (Nat.two_pow_add_eq_or_of_lt (by decide) _).symm

theorem isPresent_entryFor {phy : Word} (h : phy.toNat % 2 ^ 12 = 0) :
    isPresent (entryFor phy) = true := by
  rw [isPresent_eq, toNat_entryFor h]
  exact decide_eq_true (by omega)

theorem frameOf_entryFor {phy : Word} (h : phy.toNat % 2 ^ 12 = 0) :
    frameOf (entryFor phy) = phy.toNat / 2 ^ 12 := by
  rw [frameOf_eq, toNat_entryFor h]
  omega

theorem isPresent_clear (e : Word) : isPresent (e &&& ~~~1) = false := by
  have hmask : (~~~1 : Word) &&& 1 = 0#32 := by decide
  rw [isPresent, BitVec.and_assoc, hmask, BitVec.and_zero]
  rfl

theorem toNat_ptePtr (v : Word) :
    (ptePtr v).toNat = 0xffc00000 + v.toNat / 2 ^ 22 * 2 ^ 12 + v.toNat / 2 ^ 12 % 2 ^ 10 * 4 := by
  have hv := v.isLt
  have hshift : ((v &&& 0xffc00000) >>> 10).toNat = v.toNat / 2 ^ 22 * 2 ^ 12 := by
    have hlow : ((v &&& 0xffc00000) >>> 10) = (v >>> 10) &&& 0x003ff000 := by
      rw [BitVec.ushiftRight_and_distrib]
      rfl
    have hdiv := pteIdx_eq (v >>> 10)
    have hmod : ((v >>> 10) &&& 0x003ff000).toNat % 2 ^ 12 = 0 := by
      have hmask : (0x003ff000 : Word) &&& 0xfff = 0#32 := by decide
      rw [← toNat_low, BitVec.and_assoc, hmask, BitVec.and_zero]
      rfl
    rw [pteIdx, BitVec.toNat_ushiftRight, Nat.shiftRight_eq_div_pow, BitVec.toNat_ushiftRight,
      Nat.shiftRight_eq_div_pow] at hdiv
    rw [hlow]
    omega
  have hidx : (BitVec.ofNat 32 (pteIdx v) * 4).toNat = v.toNat / 2 ^ 12 % 2 ^ 10 * 4 := by
    rw [pteIdx_eq, BitVec.toNat_mul, BitVec.toNat_ofNat]
    show v.toNat / 2 ^ 12 % 2 ^ 10 % 2 ^ 32 * 4 % 2 ^ 32 = _
    omega
  have hbase : (0xffc00000 : Word).toNat = 0xffc00000 := rfl
  rw [ptePtr, BitVec.toNat_add, BitVec.toNat_add, hshift, hidx, hbase]
  omega

theorem toNat_pdePtr (v : Word) : (pdePtr v).toNat = 0xfffff000 + v.toNat / 2 ^ 22 * 4 := by
  have hv := v.isLt
  have hidx : (BitVec.ofNat 32 (pdeIdx v) * 4).toNat = v.toNat / 2 ^ 22 * 4 := by
    rw [pdeIdx_eq, BitVec.toNat_mul, BitVec.toNat_ofNat]
    show v.toNat / 2 ^ 22 % 2 ^ 32 * 4 % 2 ^ 32 = _
    omega
  have hbase : (0xfffff000 : Word).toNat = 0xfffff000 := rfl
  rw [pdePtr, BitVec.toNat_add, hidx, hbase]
  omega

/-- The last entry of the page directory maps the directory itself. -/
structure SelfMap (m : Machine) : Prop where
  present : isPresent (m.phys m.cr3 1023) = true
  frame : frameOf (m.phys m.cr3 1023) = m.cr3

/-- The walk of a directory entry's address ends in the directory. -/
theorem walk_pdePtr {m : Machine} (h : SelfMap m) (v : Word) :
    walk m (pdePtr v) = some m.cr3 ∧ wordIdx (pdePtr v) = pdeIdx v := by
  have hv := v.isLt
  have hd : pdeIdx (pdePtr v) = 1023 := by
    rw [pdeIdx_eq, toNat_pdePtr]
    omega
  have ht : pteIdx (pdePtr v) = 1023 := by
    rw [pteIdx_eq, toNat_pdePtr]
    omega
  constructor
  · simp only [walk, hd, ht, h.present, if_true, h.frame]
  · rw [wordIdx_eq, toNat_pdePtr, pdeIdx_eq]
    omega

/-- The walk of a table entry's address ends in the table. -/
theorem walk_ptePtr {m : Machine} (h : SelfMap m) {v : Word}
    (hp : isPresent (m.phys m.cr3 (pdeIdx v)) = true) :
    walk m (ptePtr v) = some (frameOf (m.phys m.cr3 (pdeIdx v))) ∧
      wordIdx (ptePtr v) = pteIdx v := by
  have hv := v.isLt
  have hd : pdeIdx (ptePtr v) = 1023 := by
    rw [pdeIdx_eq, toNat_ptePtr]
    omega
  have ht : pteIdx (ptePtr v) = pdeIdx v := by
    rw [pteIdx_eq, toNat_ptePtr, pdeIdx_eq]
    omega
  constructor
  · simp only [walk, hd, ht, h.present, if_true, h.frame, hp]
  · rw [wordIdx_eq, toNat_ptePtr, pteIdx_eq]
    omega

theorem load_pdePtr {m : Machine} (h : SelfMap m) (v : Word) :
    load m (pdePtr v) = .ok (m.phys m.cr3 (pdeIdx v)) := by
  have hw := walk_pdePtr h v
  simp only [load, hw.1, hw.2]

theorem store_pdePtr {m : Machine} (h : SelfMap m) (v w : Word) :
    store m (pdePtr v) w = .ok (m.setWord m.cr3 (pdeIdx v) w) := by
  have hw := walk_pdePtr h v
  simp only [store, hw.1, hw.2]

theorem load_ptePtr {m : Machine} (h : SelfMap m) {v : Word}
    (hp : isPresent (m.phys m.cr3 (pdeIdx v)) = true) :
    load m (ptePtr v) = .ok (m.phys (frameOf (m.phys m.cr3 (pdeIdx v))) (pteIdx v)) := by
  have hw := walk_ptePtr h hp
  simp only [load, hw.1, hw.2]

theorem store_ptePtr {m : Machine} (h : SelfMap m) {v : Word} (w : Word)
    (hp : isPresent (m.phys m.cr3 (pdeIdx v)) = true) :
    store m (ptePtr v) w
      = .ok (m.setWord (frameOf (m.phys m.cr3 (pdeIdx v))) (pteIdx v) w) := by
  have hw := walk_ptePtr h hp
  simp only [store, hw.1, hw.2]

@[simp] theorem setWord_phys_self (m : Machine) (f i : Nat) (w : Word) :
    (m.setWord f i w).phys f i = w := by
  show Function.update m.phys f (Function.update (m.phys f) i w) f i = w
  rw [Function.update_self, Function.update_self]

theorem setWord_phys_of_ne {m : Machine} {f i g j : Nat} (w : Word) (h : g ≠ f ∨ j ≠ i) :
    (m.setWord f i w).phys g j = m.phys g j := by
  show Function.update m.phys f (Function.update (m.phys f) i w) g j = m.phys g j
  by_cases hg : g = f
  · subst hg
    rw [Function.update_self, Function.update_of_ne (h.resolve_left (fun hc => hc rfl))]
  · rw [Function.update_of_ne hg]

end ForikOS
