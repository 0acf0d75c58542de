import ForikOS.Theory.Search
import ForikOS.Theory.FileBlocks

/-!
# The Slots of a Directory

A directory as the functions of `fs/dir.c` find it: an inode in memory, whose
direct blocks and whose table of indirect blocks lead to blocks on the disk,
with room for 21 entries each.

Nothing is said here about what the entries are. The functions that walk over
the slots read the blocks one after the other, and need only that the addresses
are on the disk and that the size of an entry is what it is.

## Main definitions

* `inodeBlocks`, `slotAt`: The blocks and the slots.
* `Slot`, `LiveSlot`: The slots there are, and those in use.
* `DirAt`: A directory a task can work on.
* `Matches`, `FirstMatch`: What `search_dir_entry` compares and returns.
* `largeDir`: A directory that has just outgrown its direct blocks.

## Theorems

* `run_inodeBlocks`: Reading the addresses of the blocks.
* `run_dirBlock`: Reading a block.
* `matches_iff_named`: A name matches the slot that bears it.
* `run_searchSlots`, `run_searchDir`: The first slot with a name is returned.
-/

namespace ForikOS

open Prog

/-- The blocks of a directory, direct ones first. -/
def inodeBlocks (disk : Nat → Byte) (i : Inode) : Nat → Nat :=
  allBlocks i (if i.iSectors 12 ≠ 0 then indirectBlocks (sectors disk (i.iSectors 12) 1)
    else fun _ => 0)

/-- What is in block `k` of a directory. -/
def blockBytes (disk : Nat → Byte) (i : Inode) (k : Nat) : Nat → Byte :=
  sectors disk (inodeBlocks disk i k) 1

/-- Slot `j` of block `k`. -/
def slotAt (disk : Nat → Byte) (i : Inode) (k j : Nat) : DirEntry :=
  decodeEntry (blockBytes disk i k) (dirEntrySize * j)

/-- The directory has a block `k`, and the block a slot `j`. -/
structure Slot (disk : Nat → Byte) (i : Inode) (k j : Nat) : Prop where
  block : k < 140
  entry : j < entriesPerSec
  there : inodeBlocks disk i k ≠ 0

/-- A slot with an entry in it. -/
structure LiveSlot (disk : Nat → Byte) (i : Inode) (k j : Nat) : Prop extends Slot disk i k j where
  used : (slotAt disk i k j).fType ≠ .unknown

/-- The slots that are not in use are cleared. -/
def FreeZero (disk : Nat → Byte) (i : Inode) : Prop :=
  ∀ k j b, Slot disk i k j → (slotAt disk i k j).fType = .unknown → b < dirEntrySize →
    blockBytes disk i k (dirEntrySize * j + b) = 0

/-- A directory with its inode at an address where the task finds it, and its
    blocks on the disk. -/
structure DirAt (t a : Nat) (s : Fs) : Prop where
  sees : s.Sees t a
  entrySize : s.part.sb.dirEntrySize = dirEntrySize
  table : (s.inode a).iSectors 12 ≤ maxLba
  blocks : ∀ k, k < 140 → inodeBlocks s.disk (s.inode a) k ≤ maxLba

section Blocks

variable {disk : Nat → Byte} {i : Inode} {k : Nat}

theorem inodeBlocks_direct (hk : k < 12) : inodeBlocks disk i k = i.iSectors k := if_pos hk

/-- Without a table there are no blocks behind the direct ones. -/
theorem inodeBlocks_noTable (h12 : i.iSectors 12 = 0) (hk : ¬ k < 12) :
    inodeBlocks disk i k = 0 := by
  rw [inodeBlocks, allBlocks, if_neg hk, if_neg (not_not.mpr h12)]

theorem inodeBlocks_indirect (h12 : i.iSectors 12 ≠ 0) (hk : ¬ k < 12) :
    inodeBlocks disk i k = indirectBlocks (sectors disk (i.iSectors 12) 1) (k - 12) := by
  rw [inodeBlocks, allBlocks, if_neg hk, if_pos h12]

end Blocks

section Runs

variable {s : Fs} {t a : Nat}

/-- Reading the addresses of the blocks. -/
theorem run_inodeBlocks {i : Inode} (h : i.iSectors 12 ≤ maxLba) :
    (readAllBlocks i).run s = .ok (inodeBlocks s.disk i, s) := by
  rw [readAllBlocks, inodeBlocks]
  by_cases h12 : i.iSectors 12 ≠ 0
  · rw [if_pos h12, if_pos h12, run_bind_of (run_ideRead h (by omega) s), run_pure]
  · rw [if_neg h12, if_neg h12, run_pure]

/-- Reading one block. -/
theorem run_dirBlock (h : DirAt t a s) {k : Nat} (hk : k < 140) :
    (ideRead (inodeBlocks s.disk (s.inode a) k) 1).run s =
      .ok (blockBytes s.disk (s.inode a) k, s) :=
  run_ideRead (h.blocks k hk) (by omega) s

end Runs

/-- `strcmp` says that the name stands in the slot. -/
structure Matches (disk : Nat → Byte) (i : Inode) (name : Str) (k j : Nat) : Prop
    extends Slot disk i k j where
  same : strEq (blockBytes disk i k) (dirEntrySize * j) name = true

/-- The order in which the slots are looked at. -/
def SlotBefore (k j k' j' : Nat) : Prop := k < k' ∨ k = k' ∧ j < j'

theorem strEq_byte {b : Nat → Byte} {off k : Nat} {name : Str} (h : strEq b off name = true)
    (h0 : (0 : Byte) ∉ name) (hk : k < name.length) : b (off + k) ≠ 0 := by
  intro hz
  have hbyte := (strEq_iff.mp h).1 k hk
  rw [hz, List.getD_eq_getElem?_getD, List.getElem?_eq_getElem hk, Option.getD_some] at hbyte
  exact h0 (hbyte ▸ List.getElem_mem hk)

/-- A name stands in a slot that is in use. -/
theorem Matches.live {disk : Nat → Byte} {i : Inode} {name : Str} {k j : Nat}
    (h : Matches disk i name k j) (hfree : FreeZero disk i) (h0 : (0 : Byte) ∉ name)
    (hne : name ≠ []) : LiveSlot disk i k j := by
  refine ⟨h.toSlot, fun hunknown => ?_⟩
  have hzero := hfree k j 0 h.toSlot hunknown (by decide)
  exact strEq_byte h.same h0 (List.length_pos_iff.mpr hne) hzero

/-- Where the slot ends its name, `strcmp` compares the names. -/
theorem matches_iff_named {disk : Nat → Byte} {i : Inode} {name name' : Str} {k j : Nat}
    (hslot : Slot disk i k j) (hname' : entryName (slotAt disk i k j) = some name')
    (h0 : (0 : Byte) ∉ name) :
    Matches disk i name k j ↔ entryName (slotAt disk i k j) = some name := by
  by_cases hlen : name.length < 16
  · rw [slotAt, entryName_iff_strEq h0 hlen]
    exact ⟨fun h => h.same, fun h => ⟨hslot, h⟩⟩
  · have hzero : (0 : Byte) ∈ (List.range 16).map (slotAt disk i k j).filename := by
      by_contra hnone
      rw [entryName, if_neg hnone] at hname'
      cases hname'
    constructor
    · intro h
      rcases List.mem_map.mp hzero with ⟨b, hb, hbz⟩
      have hlt : b < 16 := List.mem_range.mp hb
      exact absurd hbz (strEq_byte h.same h0 (by omega))
    · intro h
      rcases (entryName_eq_some_iff h0).mp h with ⟨rest, hrest⟩
      have hsize := congrArg List.length hrest
      rw [List.length_map, List.length_range, List.length_append, List.length_cons] at hsize
      omega

/-- What `search_dir_entry` returns: the first slot with the name. -/
def FirstMatch (disk : Nat → Byte) (i : Inode) (name : Str) : Option DirEntry → Prop
  | none => ∀ k j, ¬ Matches disk i name k j
  | some e => ∃ k j, Matches disk i name k j ∧ e = slotAt disk i k j ∧
      ∀ k' j', Matches disk i name k' j' → ¬ SlotBefore k' j' k j

section Search

variable {s : Fs} {t : Nat} {name : Str}

/-- The loop over the blocks, from block `k₀` on. -/
theorem run_searchSlots {a : Nat} (hd : DirAt t a s) {n k₀ : Nat} (hn : k₀ + n = 140)
    (hbefore : ∀ k j, k < k₀ → ¬ Matches s.disk (s.inode a) name k j) :
    ∃ found, (searchBlocks (inodeBlocks s.disk (s.inode a)) name n k₀).run s = .ok (found, s) ∧
      FirstMatch s.disk (s.inode a) name found := by
  induction n generalizing k₀ with
  | zero =>
      refine ⟨none, rfl, fun k j hmatch => hbefore k j ?_ hmatch⟩
      have := hmatch.block
      omega
  | succ n ih =>
      -- A block without the name is one more block that has been passed.
      have hnext : (∀ j, ¬ Matches s.disk (s.inode a) name k₀ j) →
          ∃ found, (searchBlocks (inodeBlocks s.disk (s.inode a)) name n (k₀ + 1)).run s =
            .ok (found, s) ∧ FirstMatch s.disk (s.inode a) name found := by
        intro hhere
        refine ih (by omega) (fun k j hk hmatch => ?_)
        by_cases hkk : k = k₀
        · rw [hkk] at hmatch
          exact hhere j hmatch
        · exact hbefore k j (by omega) hmatch
      rw [searchBlocks]
      by_cases hz : inodeBlocks s.disk (s.inode a) k₀ = 0
      · rw [if_pos hz]
        exact hnext (fun j hmatch => hmatch.there hz)
      rw [if_neg hz, run_bind_of (run_dirBlock hd (by omega))]
      have hfirst := findEntry_first (blockBytes s.disk (s.inode a) k₀) name
      cases hfind : findEntry (blockBytes s.disk (s.inode a) k₀) name entriesPerSec 0 with
      | none =>
          refine hnext (fun j hmatch => ?_)
          have hj := hmatch.entry
          exact hfirst.of_none hfind (Nat.zero_le j) (by omega) hmatch.same
      | some j =>
          rcases hfirst.of_some hfind with ⟨-, hj, heq⟩
          refine ⟨some _, rfl, k₀, j, ⟨⟨by omega, by omega, hz⟩, heq⟩, rfl, fun k' j' hmatch => ?_⟩
          rintro (hlt | ⟨rfl, hlt⟩)
          · exact hbefore k' j' hlt hmatch
          · exact hfirst.before hfind (Nat.zero_le j') hlt hmatch.same

/-- `search_dir_entry` with memory for its buffers. -/
theorem run_searchDir {d : Dir} (hd : DirAt t d.inode s) (hm : Memory s) (name : Str) :
    ∃ found, (searchDirEntry t d name).run s = .ok (found, s) ∧
      FirstMatch s.disk (s.inode d.inode) name found := by
  rw [searchDirEntry, run_bind_of hm.run_malloc, if_pos rfl, run_bind_of (run_inodeAt hd.sees),
    run_bind_of (run_inodeBlocks hd.table), run_bind_of hm.run_mallocUnchecked,
    run_bind_of (run_sbDirEntrySize hd.entrySize)]
  exact run_searchSlots hd rfl (fun k _ hk => absurd hk (Nat.not_lt_zero k))

end Search

section LargeDir

/-- Entry `q` of a root directory with many files, in the order they have been
    created. -/
def largeEntry (q : Nat) : DirEntry :=
  if q = 0 then newDirEntry dotName 0 .directory
  else if q = 1 then newDirEntry dotdotName 0 .directory
  else newDirEntry [BitVec.ofNat 8 (97 + q / 16), BitVec.ofNat 8 (97 + q % 16)] q .regular

/-- The twelve direct blocks of that directory are full, the table has one
    block, and the block one entry. -/
def largeDisk (x : Nat) : Byte :=
  if x / 512 = 624 then
    if x % 512 < 4 then byteOf 625 (x % 512) else 0
  else if x / 512 = 625 then
    if x % 512 < 24 then entryBytes (largeEntry 252) (x % 512) else 0
  else if 612 ≤ x / 512 ∧ x / 512 < 624 then
    if x % 512 < 504 then
      entryBytes (largeEntry (21 * (x / 512 - 612) + x % 512 / 24)) (x % 512 % 24)
    else 0
  else 0

/-- A machine with that directory, and with blocks left. -/
def largeDir : Fs :=
  { smallTree with
    disk := largeDisk
    part := { smallTree.part with
      blockBitmap := ⟨512, fun k => if k = 0 then 0xff else if k = 1 then 0x3f else 0⟩ }
    inode := fun _ => ⟨0, 253 * 24, 1, false, fun k => if k < 13 then 612 + k else 0⟩ }

/-- What is on that disk. -/
structure LargeDirFacts : Prop where
  blocks : ∀ k : Fin 140, inodeBlocks largeDisk (largeDir.inode 0) k =
    if k.val < 12 then 612 + k.val else if k.val = 12 then 625 else 0
  entries : ∀ k : Fin 13, ∀ j : Fin 21, 21 * k.val + j.val < 253 →
    (slotAt largeDisk (largeDir.inode 0) k j).iNo =
      if 21 * k.val + j.val < 2 then 0 else 21 * k.val + j.val
  free : ∀ k : Fin 13, ∀ j : Fin 21,
    (slotAt largeDisk (largeDir.inode 0) k j).fType = .unknown ↔ 253 ≤ 21 * k.val + j.val
  cleared : ∀ j : Fin 21, ∀ b : Fin 24, 1 ≤ j.val →
    blockBytes largeDisk (largeDir.inode 0) 12 (dirEntrySize * j + b) = 0
  named : ∀ k : Fin 13, ∀ j : Fin 21, 21 * k.val + j.val < 253 →
    (entryName (slotAt largeDisk (largeDir.inode 0) k j)).isSome = true ∧
      entryName (slotAt largeDisk (largeDir.inode 0) k j) ≠ some []

set_option maxRecDepth 20000 in
theorem largeDir_facts : LargeDirFacts := by
  constructor <;> decide +kernel

theorem largeDir_volume : Volume largeDir.part := by
  refine ⟨⟨by decide, by decide⟩, by decide, by decide, by decide, by decide, fun k hk _ => ?_,
    by decide⟩
  have hlen : largeDir.part.blockBitmap.btmpBytesLen = 512 := rfl
  have hdata : largeDir.part.sb.dataStartLba = 612 := by decide
  have hmax : maxLba = 163839 := rfl
  omega

theorem largeDir_at : DirAt 0 0 largeDir := by
  refine ⟨Or.inl rfl, rfl, by decide, fun k hk => ?_⟩
  have hmax : maxLba = 163839 := rfl
  have hblock := largeDir_facts.blocks ⟨k, hk⟩
  have hdisk : largeDir.disk = largeDisk := rfl
  rw [hdisk, hblock]
  dsimp only
  split
  · omega
  · split <;> omega

theorem largeDir_slot {k j : Nat} (h : Slot largeDir.disk (largeDir.inode 0) k j) :
    k < 13 ∧ j < 21 := by
  have hj : j < 21 := h.entry
  have hne : inodeBlocks largeDisk (largeDir.inode 0) k ≠ 0 := h.there
  refine ⟨?_, hj⟩
  by_contra hk
  rw [largeDir_facts.blocks ⟨k, h.block⟩, if_neg (by dsimp only; omega),
    if_neg (by dsimp only; omega)] at hne
  exact hne rfl

end LargeDir

end ForikOS
