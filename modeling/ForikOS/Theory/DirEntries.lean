import Mathlib.Data.List.TakeWhile
import ForikOS.Theory.DirSlots

/-!
# Filling a Slot of a Directory

What a new entry does to a directory, wherever it goes.

One slot holds the new entry, and the slots next to it either were there
before or are cleared. What `search_dir_entry` finds depends on the slots
alone, so every name but the new one and the empty one is found where it was.
The empty name stands in every cleared slot, so it comes and goes with them.

`strcmp` is not told how long the name of an entry is. It stays in the slot
since the last byte of a slot is zero, in those that are free and in those of
a file or a directory.

## Main definitions

* `SameEntry`: The fields of two entries.
* `NewEntry`: An entry with a name, as `create_dir_entry` leaves it.
* `Typed`: The entries of a directory are files and directories.
* `HasRoom`: A block is missing, or has a free slot.
* `Inserted`: One slot has been filled.

## Theorems

* `decodeEntry_entryBytes`: An entry that has been written is read back.
* `Inserted.matches_iff`: What `strcmp` says afterwards.
* `Inserted.found_new`, `Inserted.found_other`: What is found afterwards.
-/

namespace ForikOS

open Prog

/-- The fields of an entry. The name is 16 bytes long. -/
structure SameEntry (e e' : DirEntry) : Prop where
  filename : ∀ k, k < 16 → e.filename k = e'.filename k
  iNo : e.iNo = e'.iNo
  fType : e.fType = e'.fType

/-- An entry with a name, for a file or a directory. -/
structure NewEntry (e : DirEntry) (name : Str) : Prop where
  named : entryName e = some name
  nonempty : name ≠ []
  iNo : e.iNo < 2 ^ 32
  fType : e.fType = .regular ∨ e.fType = .directory

/-- The entries of a directory are files and directories. -/
def Typed (disk : Nat → Byte) (i : Inode) : Prop :=
  ∀ k j, LiveSlot disk i k j →
    (slotAt disk i k j).fType = .regular ∨ (slotAt disk i k j).fType = .directory

/-- Block `k` is missing, or has a free slot. -/
def HasRoom (disk : Nat → Byte) (i : Inode) (k : Nat) : Prop :=
  inodeBlocks disk i k = 0 ∨ ∃ j, Slot disk i k j ∧ ¬ LiveSlot disk i k j

/-- Slot `j₀` of block `k₀` has been filled with `e`, and nothing else has
    happened to the slots. -/
structure Inserted (a k₀ j₀ : Nat) (e : DirEntry) (s s' : Fs) : Prop where
  slot : Slot s'.disk (s'.inode a) k₀ j₀
  entry : ∀ b, b < dirEntrySize →
    blockBytes s'.disk (s'.inode a) k₀ (dirEntrySize * j₀ + b) = entryBytes e b
  blocks : ∀ k, k < 140 → inodeBlocks s.disk (s.inode a) k ≠ 0 ∨ k ≠ k₀ →
    inodeBlocks s'.disk (s'.inode a) k = inodeBlocks s.disk (s.inode a) k
  kept : ∀ k j b, Slot s.disk (s.inode a) k j → ¬ (k = k₀ ∧ j = j₀) → b < dirEntrySize →
    blockBytes s'.disk (s'.inode a) k (dirEntrySize * j + b) =
      blockBytes s.disk (s.inode a) k (dirEntrySize * j + b)
  free : ¬ LiveSlot s.disk (s.inode a) k₀ j₀
  cleared : inodeBlocks s.disk (s.inode a) k₀ = 0 → ∀ j b, j < entriesPerSec → j ≠ j₀ →
    b < dirEntrySize → blockBytes s'.disk (s'.inode a) k₀ (dirEntrySize * j + b) = 0

section Entries

variable {b b' : Nat → Byte} {off off' : Nat} {e : DirEntry} {name : Str}

theorem SameEntry.symm {e e' : DirEntry} (h : SameEntry e e') : SameEntry e' e :=
  ⟨fun k hk => (h.filename k hk).symm, h.iNo.symm, h.fType.symm⟩

theorem SameEntry.refl (e : DirEntry) : SameEntry e e := ⟨fun _ _ => rfl, rfl, rfl⟩

/-- A name ends at the first zero. -/
theorem NewEntry.no_zero (h : NewEntry e name) : (0 : Byte) ∉ name := by
  have hnamed := h.named
  rw [entryName] at hnamed
  by_cases hz : (0 : Byte) ∈ (List.range 16).map e.filename
  · rw [if_pos hz, Option.some.injEq] at hnamed
    intro hmem
    rw [← hnamed] at hmem
    have hnonzero := List.mem_takeWhile_imp hmem
    exact absurd hnonzero (by decide)
  · rw [if_neg hz] at hnamed
    cases hnamed

/-- The entry in 24 bytes. -/
theorem decodeEntry_congr (h : ∀ x, x < dirEntrySize → b' (off' + x) = b (off + x)) :
    SameEntry (decodeEntry b' off') (decodeEntry b off) := by
  have hsize : dirEntrySize = 24 := rfl
  have hword : ∀ o, o + 4 ≤ 24 → le32 b' (off' + o) = le32 b (off + o) := by
    intro o ho
    refine le32_congr (fun j hj => ?_)
    rw [Nat.add_assoc, Nat.add_assoc]
    exact h (o + j) (by omega)
  refine ⟨fun k hk => h k (by omega), hword 16 (by omega), ?_⟩
  exact congrArg FileType.ofNat (hword 20 (by omega))

/-- An entry that has been written is read back. -/
theorem decodeEntry_entryBytes (h : ∀ x, x < dirEntrySize → b (off + x) = entryBytes e x)
    (hno : e.iNo < 2 ^ 32) (htype : e.fType = .regular ∨ e.fType = .directory) :
    SameEntry (decodeEntry b off) e := by
  have hsize : dirEntrySize = 24 := rfl
  have hnumber : le32 b (off + 16) = e.iNo % 2 ^ 32 := by
    refine le32_byteOf (fun j hj => ?_)
    rw [Nat.add_assoc, h (16 + j) (by omega), entryBytes, if_neg (by omega), if_pos (by omega),
      Nat.add_sub_cancel_left]
  have hkind : le32 b (off + 20) = e.fType.toNat % 2 ^ 32 := by
    refine le32_byteOf (fun j hj => ?_)
    rw [Nat.add_assoc, h (20 + j) (by omega), entryBytes, if_neg (by omega), if_neg (by omega),
      Nat.add_sub_cancel_left]
  refine ⟨fun k hk => ?_, ?_, ?_⟩
  · have hbyte := h k (by omega)
    rw [entryBytes, if_pos hk] at hbyte
    exact hbyte
  · rw [Nat.mod_eq_of_lt hno] at hnumber
    exact hnumber
  · show FileType.ofNat (le32 b (off + 20)) = e.fType
    rw [hkind]
    rcases htype with htype | htype
    · rw [htype]
      rfl
    · rw [htype]
      rfl

theorem entryName_congr {e e' : DirEntry} (h : SameEntry e e') : entryName e = entryName e' := by
  have hmap : (List.range 16).map e.filename = (List.range 16).map e'.filename :=
    List.map_congr_left (fun k hk => h.filename k (List.mem_range.mp hk))
  rw [entryName, entryName, hmap]

/-- `strcmp` stops at a zero, and looks at nothing behind it. -/
theorem strEq_congr {n z : Nat} (h : ∀ x, x < n → b' (off' + x) = b (off + x)) (hz : z < n)
    (hzero : b (off + z) = 0) (h0 : (0 : Byte) ∉ name) :
    strEq b' off' name = true ↔ strEq b off name = true := by
  have hzero' : b' (off' + z) = 0 := (h z hz).trans hzero
  constructor
  · intro hs
    have hlen : name.length ≤ z := Nat.le_of_not_lt (fun hlt => strEq_byte hs h0 hlt hzero')
    rw [strEq_iff] at hs ⊢
    refine ⟨fun k hk => ?_, ?_⟩
    · rw [← h k (by omega)]
      exact hs.1 k hk
    · rw [← h _ (by omega)]
      exact hs.2
  · intro hs
    have hlen : name.length ≤ z := Nat.le_of_not_lt (fun hlt => strEq_byte hs h0 hlt hzero)
    rw [strEq_iff] at hs ⊢
    refine ⟨fun k hk => ?_, ?_⟩
    · rw [h k (by omega)]
      exact hs.1 k hk
    · rw [h _ (by omega)]
      exact hs.2

/-- A slot that is in use ends in a zero, and so does one that is cleared. -/
theorem slot_zero {disk : Nat → Byte} {i : Inode} {k j : Nat} (htyped : Typed disk i)
    (hfree : FreeZero disk i) (h : Slot disk i k j) :
    blockBytes disk i k (dirEntrySize * j + 23) = 0 := by
  by_cases hunknown : (slotAt disk i k j).fType = .unknown
  · exact hfree k j 23 h hunknown (by decide)
  · have hlt : le32 (blockBytes disk i k) (dirEntrySize * j + 20) < 3 := by
      have htype := htyped k j ⟨h, hunknown⟩
      have hof : FileType.ofNat (le32 (blockBytes disk i k) (dirEntrySize * j + 20)) = .regular ∨
          FileType.ofNat (le32 (blockBytes disk i k) (dirEntrySize * j + 20)) = .directory := htype
      revert hof
      generalize le32 (blockBytes disk i k) (dirEntrySize * j + 20) = n
      intro hof
      match n with
      | 0 | 1 | 2 => omega
      | _ + 3 =>
          rcases hof with hof | hof
          · cases hof
          · cases hof
    rw [le32] at hlt
    have hbyte : (blockBytes disk i k (dirEntrySize * j + 20 + 3)).toNat = 0 := by omega
    exact BitVec.eq_of_toNat_eq hbyte

end Entries

namespace Inserted

variable {a k₀ j₀ : Nat} {e : DirEntry} {name other : Str} {s s' : Fs}

/-- What stands in the slot. -/
theorem same_entry (h : Inserted a k₀ j₀ e s s') (he : NewEntry e name) :
    SameEntry (slotAt s'.disk (s'.inode a) k₀ j₀) e :=
  decodeEntry_entryBytes h.entry he.iNo he.fType

/-- The slots there were. -/
theorem slot_kept (h : Inserted a k₀ j₀ e s s') {k j : Nat} (hs : Slot s.disk (s.inode a) k j) :
    Slot s'.disk (s'.inode a) k j := by
  refine ⟨hs.block, hs.entry, ?_⟩
  rw [h.blocks k hs.block (Or.inl hs.there)]
  exact hs.there

/-- A slot that is there now holds the new entry, was there before, or is a
    cleared one next to the new entry. -/
theorem slot_cases (h : Inserted a k₀ j₀ e s s') {k j : Nat}
    (hs : Slot s'.disk (s'.inode a) k j) : (k = k₀ ∧ j = j₀) ∨
      (¬ (k = k₀ ∧ j = j₀) ∧ Slot s.disk (s.inode a) k j) ∨
      (k = k₀ ∧ j ≠ j₀ ∧ inodeBlocks s.disk (s.inode a) k₀ = 0) := by
  by_cases hnew : k = k₀ ∧ j = j₀
  · exact Or.inl hnew
  by_cases hold : inodeBlocks s.disk (s.inode a) k ≠ 0
  · exact Or.inr (Or.inl ⟨hnew, hs.block, hs.entry, hold⟩)
  · have hk : k = k₀ := by
      by_contra hk
      have hblock := h.blocks k hs.block (Or.inr hk)
      exact hs.there (hblock.trans (not_not.mp hold))
    rw [hk] at hold hnew
    exact Or.inr (Or.inr ⟨hk, fun hj => hnew ⟨rfl, hj⟩, not_not.mp hold⟩)

theorem slotAt_kept (h : Inserted a k₀ j₀ e s s') {k j : Nat} (hs : Slot s.disk (s.inode a) k j)
    (hne : ¬ (k = k₀ ∧ j = j₀)) :
    SameEntry (slotAt s'.disk (s'.inode a) k j) (slotAt s.disk (s.inode a) k j) :=
  decodeEntry_congr (fun b hb => h.kept k j b hs hne hb)

/-- `strcmp` finds a name in the new slot if it is the new one, and in the
    others where it has been before. -/
theorem matches_iff (h : Inserted a k₀ j₀ e s s') (he : NewEntry e name)
    (htyped : Typed s.disk (s.inode a)) (hfree : FreeZero s.disk (s.inode a))
    (h0 : (0 : Byte) ∉ other) (hne : other ≠ []) {k j : Nat} :
    Matches s'.disk (s'.inode a) other k j ↔ (k = k₀ ∧ j = j₀ ∧ other = name) ∨
      (¬ (k = k₀ ∧ j = j₀) ∧ Matches s.disk (s.inode a) other k j) := by
  have hnamed : entryName (slotAt s'.disk (s'.inode a) k₀ j₀) = some name :=
    (entryName_congr (h.same_entry he)).trans he.named
  have hbytes : ∀ k j, Slot s.disk (s.inode a) k j → ¬ (k = k₀ ∧ j = j₀) →
      (strEq (blockBytes s'.disk (s'.inode a) k) (dirEntrySize * j) other = true ↔
        strEq (blockBytes s.disk (s.inode a) k) (dirEntrySize * j) other = true) :=
    fun k j hs hnew => strEq_congr (fun b hb => h.kept k j b hs hnew hb)
      (by decide : 23 < dirEntrySize) (slot_zero htyped hfree hs) h0
  constructor
  · intro hmatch
    rcases h.slot_cases hmatch.toSlot with ⟨rfl, rfl⟩ | ⟨hnew, hs⟩ | ⟨rfl, hj, hz⟩
    · rw [matches_iff_named h.slot hnamed h0, hnamed, Option.some.injEq] at hmatch
      exact Or.inl ⟨rfl, rfl, hmatch.symm⟩
    · exact Or.inr ⟨hnew, hs, (hbytes k j hs hnew).mp hmatch.same⟩
    · -- Nothing but the empty name stands in a cleared slot.
      have hfirst := h.cleared hz j 0 hmatch.entry hj (by decide)
      exact absurd hfirst (strEq_byte hmatch.same h0 (List.length_pos_iff.mpr hne))
  · rintro (⟨rfl, rfl, rfl⟩ | ⟨hnew, hmatch⟩)
    · exact (matches_iff_named h.slot hnamed h0).mpr hnamed
    · exact ⟨h.slot_kept hmatch.toSlot, (hbytes k j hmatch.toSlot hnew).mpr hmatch.same⟩

/-- The new name is found in the new slot. -/
theorem found_new (h : Inserted a k₀ j₀ e s s') (he : NewEntry e name)
    (htyped : Typed s.disk (s.inode a)) (hfree : FreeZero s.disk (s.inode a))
    (hnew : ∀ k j, ¬ Matches s.disk (s.inode a) name k j)
    {r : Option DirEntry} (hr : FirstMatch s'.disk (s'.inode a) name r) :
    ∃ e', r = some e' ∧ SameEntry e' e := by
  have hiff : ∀ k j, Matches s'.disk (s'.inode a) name k j ↔ (k = k₀ ∧ j = j₀ ∧ name = name) ∨
      (¬ (k = k₀ ∧ j = j₀) ∧ Matches s.disk (s.inode a) name k j) :=
    fun k j => h.matches_iff he htyped hfree he.no_zero he.nonempty
  cases r with
  | none => exact absurd ((hiff k₀ j₀).mpr (Or.inl ⟨rfl, rfl, rfl⟩)) (hr k₀ j₀)
  | some e' =>
      rcases hr with ⟨k, j, hmatch, rfl, -⟩
      rcases (hiff k j).mp hmatch with ⟨rfl, rfl, -⟩ | ⟨-, hold⟩
      · exact ⟨_, rfl, h.same_entry he⟩
      · exact absurd hold (hnew k j)

/-- Every other name but the empty one is found where it was. -/
theorem found_other (h : Inserted a k₀ j₀ e s s') (he : NewEntry e name)
    (htyped : Typed s.disk (s.inode a)) (hfree : FreeZero s.disk (s.inode a))
    (h0 : (0 : Byte) ∉ other) (hne : other ≠ []) (hother : other ≠ name)
    {r r' : Option DirEntry} (hr : FirstMatch s.disk (s.inode a) other r)
    (hr' : FirstMatch s'.disk (s'.inode a) other r') : Option.Rel SameEntry r' r := by
  -- The other name matches at the same slots before and after.
  have hiff : ∀ k j, Matches s'.disk (s'.inode a) other k j ↔
      Matches s.disk (s.inode a) other k j := by
    intro k j
    rw [h.matches_iff he htyped hfree h0 hne]
    constructor
    · rintro (⟨-, -, heq⟩ | ⟨-, hmatch⟩)
      · exact absurd heq hother
      · exact hmatch
    · -- The slot was free before, so the name was not in it.
      intro hmatch
      refine Or.inr ⟨?_, hmatch⟩
      rintro ⟨rfl, rfl⟩
      exact h.free (hmatch.live hfree h0 hne)
  cases r with
  | none =>
      cases r' with
      | none => exact Option.Rel.none
      | some e' =>
          rcases hr' with ⟨k, j, hmatch, -, -⟩
          exact absurd ((hiff k j).mp hmatch) (hr k j)
  | some e₁ =>
      rcases hr with ⟨k, j, hmatch, rfl, hfirst⟩
      cases r' with
      | none => exact absurd ((hiff k j).mpr hmatch) (hr' k j)
      | some e' =>
          rcases hr' with ⟨k', j', hmatch', rfl, hfirst'⟩
          -- Both are the first match, so neither stands before the other.
          have hle := hfirst k' j' ((hiff k' j').mp hmatch')
          have hle' := hfirst' k j ((hiff k j).mpr hmatch)
          rw [SlotBefore] at hle hle'
          obtain rfl : k' = k := by omega
          obtain rfl : j' = j := by omega
          refine Option.Rel.some (h.slotAt_kept hmatch.toSlot ?_)
          rintro ⟨rfl, rfl⟩
          exact h.free (hmatch.live hfree h0 hne)

end Inserted

section Disks

variable {disk : Nat → Byte} {i : Inode} {k : Nat}

/-- A byte of a block is a byte of the disk. -/
theorem blockBytes_byte {x : Nat} (hx : x < 512) :
    blockBytes disk i k x = disk (inodeBlocks disk i k * 512 + x) :=
  if_pos (show x < 1 * 512 by omega)

/-- The bytes of a slot lie in its block. -/
theorem slot_byte {j b : Nat} (hj : j < entriesPerSec) (hb : b < dirEntrySize) :
    dirEntrySize * j + b < 504 := by
  have hsize : dirEntrySize = 24 := rfl
  have hcnt : entriesPerSec = 21 := rfl
  rw [hsize] at hb ⊢
  omega

/-- The same slot of the inode and the same table lead to the same block. -/
theorem inodeBlocks_congr {disk' : Nat → Byte} {i' : Inode}
    (hi : k < 12 → i'.iSectors k = i.iSectors k) (h12 : i'.iSectors 12 = i.iSectors 12)
    (hd : i.iSectors 12 ≠ 0 → ∀ x, x / 512 = i.iSectors 12 → disk' x = disk x) :
    inodeBlocks disk' i' k = inodeBlocks disk i k := by
  by_cases hk : k < 12
  · rw [inodeBlocks_direct hk, inodeBlocks_direct hk, hi hk]
  by_cases hz : i.iSectors 12 = 0
  · rw [inodeBlocks_noTable hz hk, inodeBlocks_noTable (h12.trans hz) hk]
  · have hz' : i'.iSectors 12 ≠ 0 := by rwa [h12]
    rw [inodeBlocks_indirect hz hk, inodeBlocks_indirect hz' hk, h12, sectors_congr (hd hz)]

end Disks

end ForikOS
