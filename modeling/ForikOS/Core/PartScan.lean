import ForikOS.Core.FsState

/-!
# The Partitions of the Disks

`partition_scan` and the part of `ide_init` of `device/ide.c` that scans the
disks.

`partition_scan` reads a table of four partitions and goes on to the table of
each extended one. Where that table lies is relative to the first extended
partition that has been found: its address is in `ext_lba_base`, a variable of
the whole file that is zero in the beginning. The partitions are numbered by
two more such variables. A disk may have its tables refer to each other in a
circle, so the scan is given the number of nested calls the stack has room for.

A disk is the sequence of its bytes; disk `2c + d` is device `d` of channel `c`.
The memory for a sector is taken to be there, as the code does, and what
`identify_disk` prints is left out.

## Main definitions

* `PartitionTableEntry`, `tableEntry`: A table of partitions on the disk.
* `PartRec`, `PartTag`: A partition that has been found, and its place.
* `Scan`: The variables.
* `scanEntry`, `scanTable`, `partitionScan`: `partition_scan`.
* `initDevice`, `initChannels`, `ideInitScan`: `ide_init`.
* `recorded`: The partitions of a disk in the list.
-/

namespace ForikOS

/-- What can stop a scan: an assertion, an access outside an array, or the end
    of the stack. -/
inductive ScanFault
  | assertion
  | wild
  | stack
  deriving DecidableEq, Repr

/-- The fields of `struct partition_table_entry` the scan looks at. -/
structure PartitionTableEntry where
  fsType : Nat
  startLba : Nat
  secCnt : Nat
  deriving DecidableEq

/-- Entry `idx` of the table in a boot sector. -/
def tableEntry (bs : Nat → Byte) (idx : Nat) : PartitionTableEntry where
  fsType := (bs (446 + 16 * idx + 4)).toNat
  startLba := le32 bs (446 + 16 * idx + 8)
  secCnt := le32 bs (446 + 16 * idx + 12)

/-- The fields of `struct partition` the scan sets. The name is that of the
    disk with the suffix. -/
structure PartRec where
  startLba : Nat
  secCnt : Nat
  myDisk : Nat
  suffix : Nat
  deriving DecidableEq

/-- An element of `prim_parts` or `logic_parts` of a disk. -/
structure PartTag where
  hd : Nat
  logical : Bool
  idx : Nat
  deriving DecidableEq

/-- The variables of the scan: `ext_lba_base`, `p_no`, `l_no`, the partitions of
    each disk and `partition_list`. -/
structure Scan where
  extLbaBase : Nat
  pNo : Nat
  lNo : Nat
  primParts : Nat → Nat → PartRec
  logicParts : Nat → Nat → PartRec
  partitionList : List PartTag

namespace Scan

/-- The next primary partition of a disk. -/
def addPrim (s : Scan) (hd : Nat) (r : PartRec) : Scan :=
  { s with
    primParts := Function.update s.primParts hd (Function.update (s.primParts hd) s.pNo r)
    partitionList := s.partitionList ++ [⟨hd, false, s.pNo⟩]
    pNo := s.pNo + 1 }

/-- The next logical partition of a disk. -/
def addLogic (s : Scan) (hd : Nat) (r : PartRec) : Scan :=
  { s with
    logicParts := Function.update s.logicParts hd (Function.update (s.logicParts hd) s.lNo r)
    partitionList := s.partitionList ++ [⟨hd, true, s.lNo⟩]
    lNo := s.lNo + 1 }

/-- The partition at a place. -/
def part (s : Scan) (t : PartTag) : PartRec :=
  if t.logical then s.logicParts t.hd t.idx else s.primParts t.hd t.idx

/-- Before the first scan. -/
def init : Scan where
  extLbaBase := 0
  pNo := 0
  lNo := 0
  primParts _ _ := ⟨0, 0, 0, 0⟩
  logicParts _ _ := ⟨0, 0, 0, 0⟩
  partitionList := []

end Scan

/-- `partition_scan` records a partition of the table at `extLba`. After eight
    logical ones it returns. -/
def recordPart (hd extLba : Nat) (p : PartitionTableEntry) (s : Scan) :
    Except ScanFault (Scan × Bool) :=
  if extLba = 0 then do
    -- The slot has to exist; the assertion behind `p_no++` sees to it.
    ensure (s.pNo < 4) .wild
    let s := s.addPrim hd ⟨add32 extLba p.startLba, p.secCnt, hd, s.pNo + 1⟩
    ensure (s.pNo < 4) .assertion
    .ok (s, false)
  else do
    ensure (s.lNo < 8) .wild
    let s := s.addLogic hd ⟨add32 extLba p.startLba, p.secCnt, hd, s.lNo + 5⟩
    .ok (s, decide (8 ≤ s.lNo))

/-- One entry of the table at `extLba`, and whether `partition_scan` returns
    after it. `scan` is the call for an extended partition. -/
def scanEntry (scan : Nat → Scan → Except ScanFault Scan) (hd extLba : Nat)
    (p : PartitionTableEntry) (s : Scan) : Except ScanFault (Scan × Bool) :=
  if p.fsType = 5 then
    -- An entry of an EBR counts from the first extended partition, one of the MBR from 0.
    if s.extLbaBase ≠ 0 then do
      let s ← scan (add32 p.startLba s.extLbaBase) s
      .ok (s, false)
    else do
      let s ← scan p.startLba { s with extLbaBase := p.startLba }
      .ok (s, false)
  else if p.fsType ≠ 0 then
    recordPart hd extLba p s
  else
    .ok (s, false)

/-- The loop of `partition_scan` over `n` entries from `partIdx` on. -/
def scanTable (scan : Nat → Scan → Except ScanFault Scan) (hd extLba : Nat) (bs : Nat → Byte) :
    Nat → Nat → Scan → Except ScanFault Scan
  | 0, _, s => .ok s
  | n + 1, partIdx, s => do
      let (s, done) ← scanEntry scan hd extLba (tableEntry bs partIdx) s
      if done = true then .ok s else scanTable scan hd extLba bs n (partIdx + 1) s

/-- `partition_scan` of a table, with room for `depth` nested calls. -/
def partitionScan (disk : Nat → Nat → Byte) (hd : Nat) :
    Nat → Nat → Scan → Except ScanFault Scan
  | 0, _, _ => .error .stack
  | depth + 1, extLba, s => do
      ensure (extLba ≤ maxLba) .assertion
      scanTable (partitionScan disk hd depth) hd extLba
        (fun k => disk hd (extLba * sectorSize + k)) 4 0 s

/-- `ide_init` for one device. The first of a channel is not scanned. -/
def initDevice (disk : Nat → Nat → Byte) (depth channelNo devNo : Nat) (s : Scan) :
    Except ScanFault Scan := do
  let s ← if devNo ≠ 0 then partitionScan disk (2 * channelNo + devNo) depth 0 s else .ok s
  -- `ext_lba_base` keeps its value.
  .ok { s with pNo := 0, lNo := 0 }

/-- `ide_init` for `n` channels from `channelNo` on. -/
def initChannels (disk : Nat → Nat → Byte) (depth : Nat) :
    Nat → Nat → Scan → Except ScanFault Scan
  | 0, _, s => .ok s
  | n + 1, channelNo, s => do
      ensure (channelNo < 2) .wild
      let s ← initDevice disk depth channelNo 0 s
      let s ← initDevice disk depth channelNo 1 s
      initChannels disk depth n (channelNo + 1) s

/-- `ide_init` with `hdCnt` disks. -/
def ideInitScan (disk : Nat → Nat → Byte) (depth hdCnt : Nat) : Except ScanFault Scan := do
  ensure (0 < hdCnt) .assertion
  initChannels disk depth ((hdCnt + 1) / 2) 0 .init

/-- The partitions of a disk in the list: where they start, how long they are,
    and the number in their name. -/
def recorded (hd : Nat) (s : Scan) : List (Nat × Nat × Nat) :=
  (s.partitionList.filter (fun t => t.hd = hd)).map
    (fun t => ((s.part t).startLba, (s.part t).secCnt, (s.part t).suffix))

end ForikOS
