import ForikOS.Core.FormatScan
import ForikOS.Theory.Format
import ForikOS.Theory.InodeTable

/-!
# The Partitions That Get Formatted

The scan of `filesys_init` formats the partitions of the slave disk of the first
channel, and of no other: `part_idx` is 12 when that disk has been scanned, and
nothing sets it back.

Partitions that lie apart do not get in each other's way. A call of
`partition_format` writes inside its partition only (`partitionFormat_inside`),
so formatting a set of partitions and then another one is formatting both
(`Formats.trans`). The loop over the partitions of a disk is an induction on its
rounds (`scanParts_run`).

## Main definitions

* `HasMagic`: The superblock sector of a partition has the magic number.
* `IsSlot`: A place for a partition that the scan is for.
* `LaidOut`: The partitions lie on their disks, apart from each other.
* `Formats`: What formatting a set of partitions does.
* `slot`, `PointsTo`: The twelve partitions of a disk.
* `AllFormatted`: Every partition has been formatted, none twice.

## Theorems

* `partitionFormat_inside`: What `partition_format` writes.
* `checkPart_run`, `scanParts_run`: What the scan does.
* `run_checkPart`, `run_scanParts`: It gets to its end.
* `formatDisks_run`: Which partitions get formatted.
* `all_formatted_iff`: When every partition gets formatted.
-/

namespace ForikOS

open Prog

/-- The superblock sector of a partition has the magic number. -/
def HasMagic (disk : Nat → Byte) (part : PartRec) : Prop :=
  le32 disk ((part.startLba + 1) * sectorSize) = 0x19590318

/-- A byte of a partition. -/
def PartRec.Has (part : PartRec) (x : Nat) : Prop :=
  part.startLba * sectorSize ≤ x ∧ x < (part.startLba + part.secCnt) * sectorSize

/-- A place for a partition of the slave disk of one of `n` channels. -/
def IsSlot (n : Nat) (t : PartTag) : Prop :=
  t.hd % 2 = 1 ∧ t.hd < 2 * n ∧ t.idx < if t.logical then 8 else 4

/-- The partitions lie on their disks, have room for the metadata and do not
    overlap. -/
structure LaidOut (s : Scan) (n : Nat) : Prop where
  disk : ∀ t, IsSlot n t → (s.part t).secCnt ≠ 0 → (s.part t).myDisk = t.hd
  room : ∀ t, IsSlot n t → (s.part t).secCnt ≠ 0 → 613 ≤ (s.part t).secCnt
  inside : ∀ t, IsSlot n t → (s.part t).secCnt ≠ 0 →
    (s.part t).startLba + (s.part t).secCnt ≤ maxLba + 1
  apart : ∀ t t', IsSlot n t → IsSlot n t' → t ≠ t' → t.hd = t'.hd → ∀ x,
    (s.part t).Has x → ¬ (s.part t').Has x

/-- What formatting a set of partitions does: all of them have the magic number,
    and no byte outside of those that did not have it is changed. -/
structure Formats (s : Scan) (T : PartTag → Prop) (w w' : Disks) : Prop where
  magic : ∀ t, T t → (s.part t).secCnt ≠ 0 → HasMagic (w'.disks t.hd) (s.part t)
  rest : ∀ d x, (∀ t, T t → t.hd = d → (s.part t).secCnt ≠ 0 →
    ¬ HasMagic (w.disks d) (s.part t) → ¬ (s.part t).Has x) → w'.disks d x = w.disks d x
  memory : (∀ i, w.fs.mallocs i = true) → ∀ i, w'.fs.mallocs i = true

section Format

variable {s s' : Fs} {u : Unit}

theorem mallocUnchecked_run (h : mallocUnchecked.run s = .ok (u, s')) :
    s' = { s with mallocs := fun i => s.mallocs (i + 1) } := by
  rcases run_bind_ok.mp h with ⟨ok, s₁, hmalloc, hcheck⟩
  rw [(check_ok hcheck).2]
  cases hmalloc
  rfl

theorem setDisk_mallocs (s : Fs) (off n : Nat) (buf : Nat → Byte) :
    (s.setDisk off n buf).mallocs = s.mallocs :=
  rfl

/-- What is written inside a partition leaves the rest of the disk unchanged. -/
theorem disk_of_outside {part : PartRec} {lba n x : Nat} {buf : Nat → Byte} (hx : ¬ part.Has x)
    (hlo : part.startLba ≤ lba) (hhi : lba + n ≤ part.startLba + part.secCnt) :
    (s.setDisk (lba * sectorSize) (n * sectorSize) buf).disk x = s.disk x := by
  refine disk_of_setDisk ?_
  by_contra hc
  push Not at hc
  refine hx ⟨?_, ?_⟩
  · rw [sectorSize]
    omega
  · rw [sectorSize]
    omega

/-- The bytes of a new superblock begin with the magic number. -/
theorem hasMagic_sbBytes {disk : Nat → Byte} {part : PartRec} {sb : SuperBlock}
    (hmagic : sb.magic = 0x19590318)
    (h : ∀ k, k < 4 → disk ((part.startLba + 1) * sectorSize + k) = sbBytes sb k) :
    HasMagic disk part := by
  have hword : le32 disk ((part.startLba + 1) * sectorSize) = sb.magic % 2 ^ 32 := by
    refine le32_byteOf fun j hj => ?_
    rw [h j hj, sbBytes, Nat.div_eq_of_lt hj, Nat.mod_eq_of_lt hj]
    rfl
  rw [HasMagic, hword, hmagic]
  exact Nat.mod_eq_of_lt (by decide)

/-- `partition_format` writes inside the partition, and the superblock with the
    magic number. -/
theorem partitionFormat_inside (part : PartRec) (hstart : s.part.startLba = part.startLba)
    (hcnt : s.part.secCnt = part.secCnt) (hmin : 613 ≤ part.secCnt)
    (hdisk : part.startLba + part.secCnt ≤ maxLba + 1)
    (h : partitionFormat.run s = .ok (u, s')) :
    HasMagic s'.disk part ∧ (∀ x, ¬ part.Has x → s'.disk x = s.disk x) ∧
      s'.mallocs = fun i => s.mallocs (i + 1) := by
  have hlast : maxLba = 163839 := rfl
  rcases @formatSb_layout part.startLba part.secCnt hmin (by omega) (by omega) with
    ⟨hsects, hbmap, himap, htable, hdata⟩
  have hlen := formatBits_eq hmin (by omega)
  have hsb : add32 part.startLba 1 = part.startLba + 1 := by
    rw [add32]
    omega
  rcases formatSb_sects part.startLba part.secCnt with ⟨hinodes, hrecords⟩
  rcases run_bind_ok.mp h with ⟨p, s₁, hpart, h₁⟩
  rcases read_ok hpart with ⟨rfl, rfl⟩
  rw [hstart, hcnt] at h₁
  rcases run_bind_ok.mp h₁ with ⟨_, s₂, hw₂, h₂⟩
  rcases run_bind_ok.mp h₂ with ⟨_, s₃, hmalloc, h₃⟩
  rcases run_bind_ok.mp h₃ with ⟨_, s₄, hw₄, h₄⟩
  rcases run_bind_ok.mp h₄ with ⟨_, s₅, hw₅, h₅⟩
  rcases run_bind_ok.mp h₅ with ⟨_, s₆, hw₆, hw₇⟩
  have e₂ := (ideWrite_run hw₂).2
  have e₃ := mallocUnchecked_run hmalloc
  have e₄ := (ideWrite_run hw₄).2
  have e₅ := (ideWrite_run hw₅).2
  have e₆ := (ideWrite_run hw₆).2
  have e₇ := (ideWrite_run hw₇).2
  rw [hsb] at e₂
  -- Everything but the superblock lies behind it.
  have hbehind : ∀ x, x < (part.startLba + 2) * sectorSize → s'.disk x = s₂.disk x := by
    intro x hx
    rw [sectorSize] at hx
    rw [e₇, disk_of_setDisk (by omega), e₆, disk_of_setDisk (by omega), e₅,
      disk_of_setDisk (by omega), e₄, disk_of_setDisk (by omega), e₃]
  refine ⟨@hasMagic_sbBytes _ _ (formatSb part.startLba part.secCnt) rfl fun k hk => ?_,
    fun x hx => ?_, ?_⟩
  · have hbelow : (part.startLba + 1) * sectorSize + k < (part.startLba + 2) * sectorSize := by
      rw [sectorSize]
      omega
    rw [hbehind _ hbelow, e₂]
    exact (if_pos ⟨Nat.le_add_right _ _, by rw [sectorSize]; omega⟩).trans
      (congrArg (sbBytes _) (Nat.add_sub_cancel_left _ _))
  · rw [e₇, disk_of_outside hx (by omega) (by omega), e₆,
      disk_of_outside hx (by omega) (by omega), e₅, disk_of_outside hx (by omega) (by omega), e₄,
      disk_of_outside hx (by omega) (by omega), e₃]
    show s₂.disk x = _
    rw [e₂, disk_of_outside hx (by omega) (by omega)]
  · rw [e₇, setDisk_mallocs, e₆, setDisk_mallocs, e₅, setDisk_mallocs, e₄, setDisk_mallocs, e₃, e₂]
    rfl

end Format

theorem run_mallocOrPanic {s : Fs} (h : s.mallocs 0 = true) :
    mallocOrPanic.run s = .ok ((), { s with mallocs := fun i => s.mallocs (i + 1) }) := by
  rw [mallocOrPanic, run_bind_of (run_malloc h), run_assert rfl]

section Check

variable {s : Scan} {n : Nat} {t : PartTag} {w w' : Disks}

theorem onDisk_ok {α : Type} {hd : Nat} {part : PartRec} {x : FsM α} {a : α}
    (h : w.onDisk hd part x = .ok (a, w')) :
    ∃ fs, x.run { w.fs with
        disk := w.disks hd
        part := { w.fs.part with startLba := part.startLba, secCnt := part.secCnt } } =
      .ok (a, fs) ∧ w' = ⟨Function.update w.disks hd fs.disk, fs⟩ := by
  rcases bind_eq_ok.mp h with ⟨⟨b, fs⟩, hrun, hret⟩
  cases hret
  exact ⟨fs, hrun, rfl⟩

theorem run_onDisk {α : Type} {hd : Nat} {part : PartRec} {x : FsM α} {a : α} {fs : Fs}
    (h : x.run { w.fs with
        disk := w.disks hd
        part := { w.fs.part with startLba := part.startLba, secCnt := part.secCnt } } =
      .ok (a, fs)) : w.onDisk hd part x = .ok (a, ⟨Function.update w.disks hd fs.disk, fs⟩) := by
  rw [Disks.onDisk, h]
  rfl

/-- The magic number in a superblock that has been read. -/
theorem magic_sectors {disk : Nat → Byte} {part : PartRec} {lba : Nat}
    (hlba : lba = part.startLba + 1) :
    (decodeSb (sectors disk lba 1)).magic = 0x19590318 ↔ HasMagic disk part := by
  have hword : (decodeSb (sectors disk lba 1)).magic =
      le32 disk ((part.startLba + 1) * sectorSize) := by
    refine le32_congr fun j hj => ?_
    rw [Nat.zero_add, hlba]
    exact if_pos (by rw [sectorSize]; omega)
  rw [hword, HasMagic]

/-- The sector of the superblock lies on the disk. -/
theorem LaidOut.superblock (h : LaidOut s n) (ht : IsSlot n t) (hz : (s.part t).secCnt ≠ 0) :
    add32 (s.part t).startLba 1 = (s.part t).startLba + 1 ∧ (s.part t).startLba + 1 ≤ maxLba := by
  have hlast : maxLba = 163839 := rfl
  have hroom := h.room t ht hz
  have hin := h.inside t ht hz
  rw [add32]
  omega

/-- What the scan does about one partition. -/
theorem checkPart_run (h : LaidOut s n) (ht : IsSlot n t) (hrun : checkPart s t w = .ok w') :
    Formats s (· = t) w w' := by
  unfold checkPart at hrun
  by_cases hz : (s.part t).secCnt ≠ 0
  · rw [if_pos hz] at hrun
    rcases h.superblock ht hz with ⟨hsb, -⟩
    rcases bind_eq_ok.mp hrun with ⟨⟨sbBuf, w₁⟩, hread, h₁⟩
    rcases onDisk_ok hread with ⟨fs₁, hide, rfl⟩
    rcases ideRead_run hide with ⟨-, rfl, rfl⟩
    dsimp only at h₁
    rw [Function.update_eq_self] at h₁
    -- `filesys_init` formats a partition only if the magic number is not there.
    by_cases hmagic : HasMagic (w.disks t.hd) (s.part t)
    · rw [if_pos ((magic_sectors hsb).mpr hmagic)] at h₁
      cases h₁
      refine ⟨?_, fun d x _ => rfl, fun hmem => hmem⟩
      rintro _ rfl -
      exact hmagic
    · rw [if_neg fun hc => hmagic ((magic_sectors hsb).mp hc)] at h₁
      rcases bind_eq_ok.mp h₁ with ⟨⟨u, w₂⟩, hfmt, h₂⟩
      cases h₂
      rw [h.disk t ht hz] at hfmt
      rcases onDisk_ok hfmt with ⟨fs₂, hpf, rfl⟩
      rcases partitionFormat_inside (s.part t) rfl rfl (h.room t ht hz) (h.inside t ht hz) hpf with
        ⟨hnew, hout, hmallocs⟩
      refine ⟨?_, fun d x hx => ?_, fun hmem i => ?_⟩
      · rintro _ rfl -
        show HasMagic (Function.update w.disks _ fs₂.disk _) _
        rw [Function.update_self]
        exact hnew
      · show Function.update w.disks t.hd fs₂.disk d x = _
        -- The other disks, and the rest of this one.
        by_cases hd : d = t.hd
        · subst hd
          rw [Function.update_self]
          exact hout x (hx t rfl rfl hz hmagic)
        · rw [Function.update_of_ne hd]
      · show fs₂.mallocs i = true
        rw [hmallocs]
        exact hmem (i + 1)
  · rw [if_neg hz] at hrun
    cases hrun
    refine ⟨?_, fun d x _ => rfl, fun hmem => hmem⟩
    rintro _ rfl hne
    exact absurd hne hz

/-- Nothing stops it. -/
theorem run_checkPart (h : LaidOut s n) (ht : IsSlot n t) (hmem : ∀ i, w.fs.mallocs i = true) :
    ∃ w', checkPart s t w = .ok w' := by
  unfold checkPart
  by_cases hz : (s.part t).secCnt ≠ 0
  · rw [if_pos hz]
    rcases h.superblock ht hz with ⟨hsb, hlba⟩
    rw [← hsb] at hlba
    have hread := run_ideRead hlba Nat.one_pos
    rw [run_onDisk (hread _), ok_bind]
    dsimp only
    by_cases hmagic : HasMagic (w.disks t.hd) (s.part t)
    · rw [if_pos ((magic_sectors hsb).mpr hmagic)]
      exact ⟨_, rfl⟩
    · rw [if_neg fun hc => hmagic ((magic_sectors hsb).mp hc)]
      rcases @run_partitionFormat { w.fs with
        disk := Function.update w.disks t.hd (w.disks t.hd) (s.part t).myDisk
        part := { w.fs.part with
          startLba := (s.part t).startLba
          secCnt := (s.part t).secCnt } } (h.room t ht hz) (h.inside t ht hz) (hmem 0) with
        ⟨fs, hfmt⟩
      rw [run_onDisk hfmt, ok_bind]
      exact ⟨_, rfl⟩
  · rw [if_neg hz]
    exact ⟨w, rfl⟩

end Check

section Sets

variable {s : Scan} {n : Nat} {T T' : PartTag → Prop} {w w₁ w' : Disks}

/-- The superblock sector lies in the partition. -/
theorem LaidOut.has_superblock {t : PartTag} (h : LaidOut s n) (ht : IsSlot n t)
    (hz : (s.part t).secCnt ≠ 0) {k : Nat} (hk : k < 4) :
    (s.part t).Has (((s.part t).startLba + 1) * sectorSize + k) := by
  have hroom := h.room t ht hz
  rw [PartRec.Has, sectorSize]
  omega

/-- Other partitions leave a partition unchanged. -/
theorem Formats.hasMagic_iff (hf : Formats s T w w') (h : LaidOut s n) (hT : ∀ t, T t → IsSlot n t)
    {t : PartTag} (ht : IsSlot n t) (hz : (s.part t).secCnt ≠ 0) (hnot : ¬ T t) :
    HasMagic (w'.disks t.hd) (s.part t) ↔ HasMagic (w.disks t.hd) (s.part t) := by
  have hword : le32 (w'.disks t.hd) (((s.part t).startLba + 1) * sectorSize) =
      le32 (w.disks t.hd) (((s.part t).startLba + 1) * sectorSize) := by
    refine le32_congr fun j hj => hf.rest _ _ fun t' ht' hd _ _ => ?_
    exact h.apart t t' ht (hT t' ht') (fun hc => hnot (hc ▸ ht')) hd.symm _
      (h.has_superblock ht hz hj)
  rw [HasMagic, HasMagic, hword]

theorem Formats.refl (w : Disks) : Formats s (fun _ => False) w w :=
  ⟨fun _ ht => ht.elim, fun _ _ _ => rfl, fun hmem => hmem⟩

/-- Formatting one set of partitions and then another. -/
theorem Formats.trans (h₁ : Formats s T w w₁) (h₂ : Formats s T' w₁ w') (h : LaidOut s n)
    (hT : ∀ t, T t → IsSlot n t) (hT' : ∀ t, T' t → IsSlot n t) (hne : ∀ t, T t → ¬ T' t) :
    Formats s (fun t => T t ∨ T' t) w w' where
  magic t ht hz := by
    rcases ht with ht | ht
    · exact (h₂.hasMagic_iff h hT' (hT t ht) hz (hne t ht)).mpr (h₁.magic t ht hz)
    · exact h₂.magic t ht hz
  rest d x hx := by
    -- The first set leaves open whether a partition of the second has the magic
    -- number.
    rw [h₂.rest d x fun t ht hd hz hmagic => ?_, h₁.rest d x fun t ht => hx t (.inl ht)]
    subst hd
    refine hx t (.inr ht) rfl hz fun hc => hmagic ?_
    exact (h₁.hasMagic_iff h hT (hT' t ht) hz fun hc' => hne t hc' ht).mpr hc
  memory hmem := h₂.memory (h₁.memory hmem)

theorem Formats.congr (hf : Formats s T w w') (hiff : ∀ t, T t ↔ T' t) : Formats s T' w w' := by
  rw [show T' = T from funext fun t => propext (hiff t).symm]
  exact hf

end Sets

section Loops

variable {s : Scan} {n c : Nat} {w w' : Disks}

/-- Partition `i` of a disk: the primary ones come first. -/
def slot (hd i : Nat) : PartTag := if i < 4 then ⟨hd, false, i⟩ else ⟨hd, true, i - 4⟩

theorem isSlot_slot (hc : c < n) {i : Nat} (hi : i < 12) : IsSlot n (slot (2 * c + 1) i) := by
  unfold slot
  by_cases h4 : i < 4
  · rw [if_pos h4]
    refine ⟨?_, ?_, h4⟩ <;> dsimp only <;> omega
  · rw [if_neg h4]
    refine ⟨?_, ?_, ?_⟩
    · dsimp only
      omega
    · dsimp only
      omega
    · show i - 4 < 8
      omega

theorem slot_hd (hd i : Nat) : (slot hd i).hd = hd := by
  unfold slot
  by_cases h4 : i < 4
  · rw [if_pos h4]
  · rw [if_neg h4]

/-- The partitions of a disk are different ones. -/
theorem slot_inj {hd i j : Nat} (h : slot hd i = slot hd j) : i = j := by
  unfold slot at h
  by_cases hi : i < 4
  · by_cases hj : j < 4
    · rw [if_pos hi, if_pos hj, PartTag.mk.injEq] at h
      exact h.2.2
    · rw [if_pos hi, if_neg hj, PartTag.mk.injEq] at h
      exact absurd h.2.1 (by decide)
  · by_cases hj : j < 4
    · rw [if_neg hi, if_pos hj, PartTag.mk.injEq] at h
      exact absurd h.2.1 (by decide)
    · rw [if_neg hi, if_neg hj, PartTag.mk.injEq] at h
      omega

/-- Every place on a slave disk is one of its twelve. -/
theorem exists_slot {t : PartTag} (ht : IsSlot n t) : ∃ i < 12, t = slot t.hd i := by
  rcases t with ⟨hd, logical, idx⟩
  have hidx : idx < if logical then 8 else 4 := ht.2.2
  cases logical with
  | false =>
      have hlt : idx < 4 := hidx
      refine ⟨idx, by omega, ?_⟩
      rw [slot, if_pos hlt]
  | true =>
      have hlt : idx < 8 := hidx
      refine ⟨idx + 4, by omega, ?_⟩
      rw [slot, if_neg (by omega), Nat.add_sub_cancel]

/-- What `part` points to before round `i`; it is set anew before the first logical
    partition. -/
def PointsTo (hd i : Nat) (t : PartTag) : Prop := t.hd = hd ∧ (i ≠ 4 → t = slot hd i)

theorem PointsTo.here {hd i : Nat} {t : PartTag} (h : PointsTo hd i t) :
    (if i = 4 then (⟨t.hd, true, 0⟩ : PartTag) else t) = slot hd i := by
  by_cases h4 : i = 4
  · rw [if_pos h4, h.1, h4]
    rfl
  · rw [if_neg h4]
    exact h.2 h4

theorem PointsTo.next (hd i : Nat) :
    PointsTo hd (i + 1) { slot hd i with idx := (slot hd i).idx + 1 } := by
  refine ⟨slot_hd hd i, fun h4 => ?_⟩
  unfold slot
  by_cases hi : i < 4
  · rw [if_pos hi, if_pos (by omega)]
  · rw [if_neg hi, if_neg (by omega), PartTag.mk.injEq]
    refine ⟨rfl, rfl, ?_⟩
    dsimp only
    omega

/-- The rest of the loop over the partitions of a disk. -/
theorem scanParts_run (h : LaidOut s n) (hc : c < n) {m i k : Nat} {t : PartTag} (hi : i ≤ 12)
    (ht : PointsTo (2 * c + 1) i t) (hrun : scanParts s m i t w = .ok (k, w')) :
    k = 12 ∧ Formats s (fun t => ∃ j, i ≤ j ∧ j < 12 ∧ t = slot (2 * c + 1) j) w w' := by
  -- On the rounds left; `t` is what the pointer `part` has arrived at.
  induction m generalizing i t w with
  | zero => cases hrun
  | succ m ih =>
      rw [scanParts] at hrun
      by_cases hlt : i < 12
      · rw [if_pos hlt] at hrun
        dsimp only at hrun
        rw [ht.here] at hrun
        rcases bind_eq_ok.mp hrun with ⟨w₁, hcheck, hrest⟩
        have hhere := checkPart_run h (isSlot_slot hc hlt) hcheck
        rcases ih hlt (PointsTo.next _ i) hrest with ⟨hk, hlater⟩
        refine ⟨hk, (hhere.trans hlater h ?_ ?_ ?_).congr fun t => ?_⟩
        · rintro _ rfl
          exact isSlot_slot hc hlt
        · rintro _ ⟨j, -, hj, rfl⟩
          exact isSlot_slot hc hj
        · rintro _ rfl ⟨j, hj, -, heq⟩
          have := slot_inj heq
          omega
        · constructor
          · rintro (rfl | ⟨j, hj, hj', rfl⟩)
            · exact ⟨i, Nat.le_refl i, hlt, rfl⟩
            · exact ⟨j, Nat.le_of_succ_le hj, hj', rfl⟩
          · rintro ⟨j, hj, hj', rfl⟩
            rcases Nat.eq_or_lt_of_le hj with rfl | hj
            · exact .inl rfl
            · exact .inr ⟨j, hj, hj', rfl⟩
      · rw [if_neg hlt] at hrun
        cases hrun
        refine ⟨by omega, (Formats.refl _).congr fun t => ⟨False.elim, ?_⟩⟩
        rintro ⟨j, hj, hj', -⟩
        omega

/-- It gets to its end. -/
theorem run_scanParts (h : LaidOut s n) (hc : c < n) {m i : Nat} {t : PartTag} (hi : i ≤ 12)
    (hm : 12 < m + i) (ht : PointsTo (2 * c + 1) i t) (hmem : ∀ i, w.fs.mallocs i = true) :
    ∃ r, scanParts s m i t w = .ok r := by
  induction m generalizing i t w with
  | zero => omega
  | succ m ih =>
      rw [scanParts]
      by_cases hlt : i < 12
      · rw [if_pos hlt]
        dsimp only
        rw [ht.here]
        rcases run_checkPart h (isSlot_slot hc hlt) hmem with ⟨w₁, hcheck⟩
        rw [hcheck, ok_bind]
        exact ih hlt (by omega) (PointsTo.next _ i)
          ((checkPart_run h (isSlot_slot hc hlt) hcheck).memory hmem)
      · rw [if_neg hlt]
        exact ⟨_, rfl⟩

/-- Once `part_idx` is 12, the channels that are left are not looked at. -/
theorem scanDisks_done (s : Scan) (m channelNo : Nat) (w : Disks) :
    scanDisks s m channelNo 12 w = .ok w := by
  induction m generalizing channelNo with
  | zero => rfl
  | succ m ih => exact ih (channelNo + 1)

/-- The scan: only the slave disk of the first channel is looked at. -/
theorem scanDisks_run (h : LaidOut s n) (hrun : scanDisks s n 0 0 w = .ok w') :
    Formats s (fun t => IsSlot n t ∧ t.hd = 1) w w' := by
  cases n with
  | zero =>
      cases hrun
      refine (Formats.refl w).congr fun t => ⟨False.elim, fun ht => ?_⟩
      exact absurd ht.1.2.1 (Nat.not_lt_zero _)
  | succ n =>
      rcases bind_eq_ok.mp hrun with ⟨⟨_, _⟩, hskip, hrun₁⟩
      cases hskip
      rcases bind_eq_ok.mp hrun₁ with ⟨⟨k, w₁⟩, hparts, hrest⟩
      rcases scanParts_run h (Nat.succ_pos n) (Nat.zero_le 12)
        (⟨rfl, fun _ => rfl⟩ : PointsTo (2 * 0 + 1) 0 _) hparts with ⟨rfl, hf⟩
      -- The index is not set back to 0, so no other disk is looked at.
      dsimp only at hrest
      rw [scanDisks_done] at hrest
      cases hrest
      refine hf.congr fun t => ⟨?_, fun ht => ?_⟩
      · rintro ⟨j, -, hj, rfl⟩
        exact ⟨isSlot_slot (Nat.succ_pos n) hj, slot_hd _ j⟩
      · rcases exists_slot ht.1 with ⟨i, hi, heq⟩
        rw [ht.2] at heq
        exact ⟨i, Nat.zero_le i, hi, heq⟩

theorem run_scanDisks (h : LaidOut s n) (hmem : ∀ i, w.fs.mallocs i = true) :
    ∃ w', scanDisks s n 0 0 w = .ok w' := by
  cases n with
  | zero => exact ⟨w, rfl⟩
  | succ n =>
      rcases run_scanParts (m := 13) h (Nat.succ_pos n) (Nat.zero_le 12) (by decide)
        (⟨rfl, fun _ => rfl⟩ : PointsTo (2 * 0 + 1) 0 ⟨2 * 0 + 1, false, 0⟩) hmem with
        ⟨⟨k, w₁⟩, hparts⟩
      have hk := (scanParts_run h (Nat.succ_pos n) (Nat.zero_le 12)
        (⟨rfl, fun _ => rfl⟩ : PointsTo (2 * 0 + 1) 0 _) hparts).1
      refine ⟨w₁, ?_⟩
      show (scanParts s 13 0 ⟨2 * 0 + 1, false, 0⟩ w >>= _) = _
      rw [hparts, ok_bind, hk]
      exact scanDisks_done s n _ w₁

theorem formatDisks_run (h : LaidOut s n) (hrun : formatDisks s n w = .ok w') :
    Formats s (fun t => IsSlot n t ∧ t.hd = 1) w w' := by
  rcases bind_eq_ok.mp hrun with ⟨⟨u, fs⟩, hmalloc, hscan⟩
  have hf := scanDisks_run h hscan
  refine ⟨hf.magic, hf.rest, fun hmem => hf.memory ?_⟩
  rw [run_mallocOrPanic (hmem 0)] at hmalloc
  cases hmalloc
  exact fun i => hmem (i + 1)

theorem run_formatDisks (h : LaidOut s n) (hmem : ∀ i, w.fs.mallocs i = true) :
    ∃ w', formatDisks s n w = .ok w' := by
  rw [formatDisks, run_mallocOrPanic (hmem 0), ok_bind]
  exact run_scanDisks h (fun i => hmem (i + 1))

end Loops

/-- Every partition has been formatted, and none that had the magic number
    before has been touched. -/
def AllFormatted (s : Scan) (n : Nat) (w w' : Disks) : Prop :=
  ∀ t, IsSlot n t → (s.part t).secCnt ≠ 0 → HasMagic (w'.disks t.hd) (s.part t) ∧
    (HasMagic (w.disks t.hd) (s.part t) → ∀ x, (s.part t).Has x →
      w'.disks t.hd x = w.disks t.hd x)

/-- The scan comes to its end if there is memory, and then every partition is
    formatted exactly if those of the slave disks after the first had a file system
    already. -/
theorem all_formatted_iff (s : Scan) (channelCnt : Nat) (w : Disks) (h : LaidOut s channelCnt) :
    (∀ w', formatDisks s channelCnt w = .ok w' →
      (AllFormatted s channelCnt w w' ↔ ∀ t, IsSlot channelCnt t → t.hd ≠ 1 →
        (s.part t).secCnt ≠ 0 → HasMagic (w.disks t.hd) (s.part t))) ∧
    ((∀ i, w.fs.mallocs i = true) → ∃ w', formatDisks s channelCnt w = .ok w') := by
  refine ⟨fun w' hrun => ?_, run_formatDisks h⟩
  have hf := formatDisks_run h hrun
  constructor
  · intro hall t ht hd hz
    exact (hf.hasMagic_iff h (fun _ ht => ht.1) ht hz (fun hc => hd hc.2)).mp (hall t ht hz).1
  · intro hrest t ht hz
    refine ⟨?_, fun hmagic x hx => hf.rest _ _ fun t' ht' hd hz' hmagic' => ?_⟩
    · by_cases hd : t.hd = 1
      · exact hf.magic t ⟨ht, hd⟩ hz
      · exact (hf.hasMagic_iff h (fun _ ht => ht.1) ht hz (fun hc => hd hc.2)).mpr
          (hrest t ht hd hz)
    · refine h.apart t t' ht ht'.1 (fun hc => ?_) hd.symm x hx
      subst hc
      exact hmagic' hmagic

section TwoDisks

/-- A partition on the slave disk of each of two channels. -/
def twoDisks : Scan :=
  { Scan.init with
    primParts := fun hd i => if (hd = 1 ∨ hd = 3) ∧ i = 0 then ⟨2048, 10000, hd, 1⟩ else ⟨0, 0, 0, 0⟩ }

/-- Disks without a file system. -/
def blankDisks : Disks := ⟨fun _ _ => 0, blankFs 0 0 fun _ => false⟩

/-- There are no other partitions. -/
theorem part_twoDisks (t : PartTag) :
    twoDisks.part t = ⟨2048, 10000, t.hd, 1⟩ ∧ t = ⟨t.hd, false, 0⟩ ∨
      twoDisks.part t = ⟨0, 0, 0, 0⟩ := by
  rcases t with ⟨hd, logical, idx⟩
  cases logical with
  | false =>
      by_cases h : (hd = 1 ∨ hd = 3) ∧ idx = 0
      · refine .inl ⟨if_pos h, ?_⟩
        rw [h.2]
      · exact .inr (if_neg h)
  | true => exact .inr rfl

theorem laidOut_twoDisks (n : Nat) : LaidOut twoDisks n where
  disk t _ hz := by
    rcases part_twoDisks t with ⟨hp, -⟩ | hp
    · rw [hp]
    · exact absurd (by rw [hp]) hz
  room t _ hz := by
    rcases part_twoDisks t with ⟨hp, -⟩ | hp
    · rw [hp]
      show 613 ≤ 10000
      decide
    · exact absurd (by rw [hp]) hz
  inside t _ hz := by
    rcases part_twoDisks t with ⟨hp, -⟩ | hp
    · rw [hp]
      show 2048 + 10000 ≤ maxLba + 1
      decide
    · exact absurd (by rw [hp]) hz
  apart t t' _ _ hne hd x hx hx' := by
    rcases part_twoDisks t with ⟨-, heq⟩ | hp
    · rcases part_twoDisks t' with ⟨-, heq'⟩ | hp'
      · rw [hd, ← heq'] at heq
        exact hne heq
      · rw [hp'] at hx'
        exact absurd hx'.2 (by rw [Nat.zero_add, Nat.zero_mul]; exact Nat.not_lt_zero x)
    · rw [hp] at hx
      exact absurd hx.2 (by rw [Nat.zero_add, Nat.zero_mul]; exact Nat.not_lt_zero x)

/-- With one channel every partition is formatted. -/
theorem all_formatted_iff_one :
    ∃ w', formatDisks twoDisks 1 blankDisks = .ok w' ∧ AllFormatted twoDisks 1 blankDisks w' := by
  rcases all_formatted_iff twoDisks 1 blankDisks (laidOut_twoDisks 1) with ⟨hiff, hends⟩
  rcases hends fun _ => rfl with ⟨w', hrun⟩
  refine ⟨w', hrun, (hiff w' hrun).mpr fun t ht hd _ => absurd ?_ hd⟩
  have hodd := ht.1
  have hlt := ht.2.1
  omega

/-- With two channels the partition of the second one is forgotten. -/
theorem second_disk_unformatted :
    ∃ w', formatDisks twoDisks 2 blankDisks = .ok w' ∧ ¬ AllFormatted twoDisks 2 blankDisks w' := by
  rcases run_formatDisks (w := blankDisks) (laidOut_twoDisks 2) fun _ => rfl with ⟨w', hrun⟩
  refine ⟨w', hrun, fun hall => ?_⟩
  have ht : IsSlot 2 ⟨3, false, 0⟩ := ⟨rfl, by decide, by decide⟩
  have hz : (twoDisks.part ⟨3, false, 0⟩).secCnt ≠ 0 := by decide
  have hf := formatDisks_run (laidOut_twoDisks 2) hrun
  have hmagic : HasMagic (blankDisks.disks 3) (twoDisks.part ⟨3, false, 0⟩) :=
    (hf.hasMagic_iff (laidOut_twoDisks 2) (fun _ ht => ht.1) ht hz (fun hc => absurd hc.2
      (by decide))).mp (hall _ ht hz).1
  have hzero : le32 (fun _ => 0) ((2048 + 1) * sectorSize) = 0x19590318 := hmagic
  exact absurd hzero (by decide)

end TwoDisks

end ForikOS
