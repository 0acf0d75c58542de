import ForikOS.Theory.PartScan

/-!
# Partition Tables in the Usual Layout

The first sector has up to three primary partitions and one extended one. The
extended partition begins with a table whose first entry is a logical partition,
relative to that table, and whose second entry is the next table, relative to
the extended partition; the other two are empty. So the tables form a chain.

`partition_scan` follows the chain by calling itself, and goes on with the first
sector afterwards. On a disk with such tables and at most eight logical
partitions it records what the tables describe, in the order in which it comes
to it. The induction is on the chain; what it carries is how much has been
recorded (`Extends`).

## Main definitions

* `Found`: A partition as the tables describe it.
* `LogicalTable`, `EbrChain`: The tables of the logical partitions.
* `MbrFormed`, `mbrFound`: The first sector, and what it describes.
* `numbered`, `ListedAfter`: What is to be recorded.

## Theorems

* `Extends.trans`: One part of a scan after another.
* `chain_scan`: The scan of a chain.
* `mbr_scan`: The scan of the first sector.
* `wellFormed_scan`: The scan of a disk with usual tables.
-/

namespace ForikOS

/-- A partition: whether it is logical, where it starts, and how long it is. -/
structure Found where
  logical : Bool
  startLba : Nat
  secCnt : Nat
  deriving DecidableEq

/-- Entry `i` of the table in a sector of a disk. -/
def entryAt (d : Nat → Byte) (lba i : Nat) : PartitionTableEntry :=
  tableEntry (fun k => d (lba * sectorSize + k)) i

/-- The logical partition of a table, if it has one. -/
def logicalAt (d : Nat → Byte) (lba : Nat) : List Found :=
  if (entryAt d lba 0).fsType = 0 then []
  else [⟨true, lba + (entryAt d lba 0).startLba, (entryAt d lba 0).secCnt⟩]

/-- The table of a logical partition in the usual layout. -/
structure LogicalTable (d : Nat → Byte) (lba : Nat) : Prop where
  there : lba ≤ maxLba
  first : (entryAt d lba 0).fsType ≠ 5
  fits : (entryAt d lba 0).fsType ≠ 0 → lba + (entryAt d lba 0).startLba < 2 ^ 32
  third : (entryAt d lba 2).fsType = 0
  fourth : (entryAt d lba 3).fsType = 0

/-- The tables from sector `lba` on, in the extended partition at `base`, and
    the logical partitions they describe. -/
inductive EbrChain (d : Nat → Byte) (base : Nat) : Nat → List Found → Prop
  | last (lba : Nat) : LogicalTable d lba → (entryAt d lba 1).fsType = 0 →
      EbrChain d base lba (logicalAt d lba)
  | link (lba : Nat) (l : List Found) : LogicalTable d lba → (entryAt d lba 1).fsType = 5 →
      EbrChain d base (base + (entryAt d lba 1).startLba) l →
      EbrChain d base lba (logicalAt d lba ++ l)

/-- An entry for a partition that is not an extended one. -/
def IsPart (p : PartitionTableEntry) : Prop := p.fsType ≠ 5 ∧ p.fsType ≠ 0

instance (p : PartitionTableEntry) : Decidable (IsPart p) :=
  inferInstanceAs (Decidable (_ ∧ _))

/-- The first sector has at most three primary partitions and at most one
    extended one, whose tables describe the logical partitions `ext`, at most
    eight. -/
structure MbrFormed (d : Nat → Byte) (ext : List Found) : Prop where
  prims : ((List.range 4).filter (fun i => decide (IsPart (tableEntry d i)))).length ≤ 3
  one : ∀ i j, i < 4 → j < 4 → (tableEntry d i).fsType = 5 → (tableEntry d j).fsType = 5 → i = j
  start : ∀ i, i < 4 → (tableEntry d i).fsType = 5 → (tableEntry d i).startLba ≠ 0
  chain : ∀ i, i < 4 → (tableEntry d i).fsType = 5 →
    EbrChain d (tableEntry d i).startLba (tableEntry d i).startLba ext
  few : ext.length ≤ 8

/-- What an entry of the first sector describes. -/
def entryFound (d : Nat → Byte) (ext : List Found) (i : Nat) : List Found :=
  if (tableEntry d i).fsType = 5 then ext
  else if (tableEntry d i).fsType = 0 then []
  else [⟨false, (tableEntry d i).startLba, (tableEntry d i).secCnt⟩]

/-- The partitions of a disk in the order in which they are found. -/
def mbrFound (d : Nat → Byte) (ext : List Found) : List Found :=
  (List.range 4).flatMap (entryFound d ext)

/-- Partitions with the places they are recorded in, from `p` primary and `q`
    logical ones on. -/
def numbered (hd : Nat) : List Found → Nat → Nat → List (PartTag × PartRec)
  | [], _, _ => []
  | f :: l, p, q =>
      if f.logical = true then
        (⟨hd, true, q⟩, ⟨f.startLba, f.secCnt, hd, q + 5⟩) :: numbered hd l p (q + 1)
      else
        (⟨hd, false, p⟩, ⟨f.startLba, f.secCnt, hd, p + 1⟩) :: numbered hd l (p + 1) q

/-- The partitions have been appended to `partition_list`, each in its place. -/
def ListedAfter (hd : Nat) (l : List Found) (s t : Scan) : Prop :=
  t.partitionList = s.partitionList ++ (numbered hd l s.pNo s.lNo).map Prod.fst ∧
    ∀ x, x ∈ numbered hd l s.pNo s.lNo → t.part x.1 = x.2

section Numbered

variable {hd : Nat} {l l' : List Found} {p q : Nat}

/-- How many are primary, and how many are logical. -/
def prims (l : List Found) : Nat := l.countP (fun f => !f.logical)

def logics (l : List Found) : Nat := l.countP (fun f => f.logical)

theorem count_logical {f : Found} (hf : f.logical = true) (l : List Found) :
    prims (f :: l) = prims l ∧ logics (f :: l) = logics l + 1 := by
  rw [prims, logics, List.countP_cons_of_neg (by rw [hf]; decide), List.countP_cons_of_pos hf]
  exact ⟨rfl, rfl⟩

theorem count_primary {f : Found} (hf : f.logical = false) (l : List Found) :
    prims (f :: l) = prims l + 1 ∧ logics (f :: l) = logics l := by
  rw [prims, logics, List.countP_cons_of_pos (by rw [hf]; decide),
    List.countP_cons_of_neg (by rw [hf]; decide)]
  exact ⟨rfl, rfl⟩

theorem numbered_append (l l' : List Found) (p q : Nat) :
    numbered hd (l ++ l') p q =
      numbered hd l p q ++ numbered hd l' (p + prims l) (q + logics l) := by
  induction l generalizing p q with
  | nil => rfl
  | cons f l ih =>
      rw [List.cons_append, numbered, numbered]
      cases hf : f.logical with
      | true =>
          rw [if_pos rfl, if_pos rfl, ih, List.cons_append, (count_logical hf l).1,
            (count_logical hf l).2, Nat.add_right_comm q 1, Nat.add_assoc q]
      | false =>
          rw [if_neg Bool.false_ne_true, if_neg Bool.false_ne_true, ih, List.cons_append,
            (count_primary hf l).1, (count_primary hf l).2, Nat.add_right_comm p 1, Nat.add_assoc p]

/-- The places are taken one after another. -/
theorem mem_numbered {x : PartTag × PartRec} (h : x ∈ numbered hd l p q) :
    x.1.hd = hd ∧ (x.1.logical = false → x.1.idx < p + prims l) ∧
      (x.1.logical = true → x.1.idx < q + logics l) := by
  induction l generalizing p q with
  | nil => cases h
  | cons f l ih =>
      rw [numbered] at h
      cases hf : f.logical with
      | true =>
          rw [if_pos hf] at h
          rw [(count_logical hf l).1, (count_logical hf l).2]
          rcases List.mem_cons.mp h with rfl | h
          · refine ⟨rfl, fun hc => (Bool.false_ne_true hc.symm).elim, fun _ => ?_⟩
            dsimp only
            omega
          · rcases ih h with ⟨h1, h2, h3⟩
            exact ⟨h1, h2, fun hx => by have := h3 hx; omega⟩
      | false =>
          rw [hf, if_neg Bool.false_ne_true] at h
          rw [(count_primary hf l).1, (count_primary hf l).2]
          rcases List.mem_cons.mp h with rfl | h
          · refine ⟨rfl, fun _ => ?_, fun hc => (Bool.false_ne_true hc).elim⟩
            dsimp only
            omega
          · rcases ih h with ⟨h1, h2, h3⟩
            exact ⟨h1, fun hx => by have := h2 hx; omega, h3⟩

end Numbered

/-- A part of a scan has recorded `l`, and left what was recorded before. -/
structure Extends (hd : Nat) (l : List Found) (s t : Scan) : Prop where
  listedAfter : ListedAfter hd l s t
  pNo : t.pNo = s.pNo + prims l
  lNo : t.lNo = s.lNo + logics l
  prim : ∀ i, i < s.pNo → t.primParts hd i = s.primParts hd i
  logic : ∀ i, i < s.lNo → t.logicParts hd i = s.logicParts hd i

section Extends

variable {hd : Nat} {l l' : List Found} {s t u : Scan}

/-- A change of the base records nothing. -/
theorem extends_base (hd : Nat) (s : Scan) (b : Nat) :
    Extends hd [] s { s with extLbaBase := b } where
  listedAfter := ⟨(List.append_nil _).symm, fun _ hx => absurd hx List.not_mem_nil⟩
  pNo := rfl
  lNo := rfl
  prim _ _ := rfl
  logic _ _ := rfl

theorem extends_prim (hd : Nat) (s : Scan) (a c : Nat) :
    Extends hd [⟨false, a, c⟩] s (s.addPrim hd ⟨a, c, hd, s.pNo + 1⟩) where
  listedAfter := by
    refine ⟨rfl, fun x hx => ?_⟩
    rw [numbered, if_neg Bool.false_ne_true, numbered, List.mem_singleton] at hx
    rw [hx]
    show Function.update s.primParts hd _ hd s.pNo = _
    rw [Function.update_self, Function.update_self]
  pNo := rfl
  lNo := rfl
  prim i hi := by
    show Function.update s.primParts hd _ hd i = _
    rw [Function.update_self, Function.update_of_ne (Nat.ne_of_lt hi)]
  logic _ _ := rfl

theorem extends_logic (hd : Nat) (s : Scan) (a c : Nat) :
    Extends hd [⟨true, a, c⟩] s (s.addLogic hd ⟨a, c, hd, s.lNo + 5⟩) where
  listedAfter := by
    refine ⟨rfl, fun x hx => ?_⟩
    rw [numbered, if_pos rfl, numbered, List.mem_singleton] at hx
    rw [hx]
    show Function.update s.logicParts hd _ hd s.lNo = _
    rw [Function.update_self, Function.update_self]
  pNo := rfl
  lNo := rfl
  prim _ _ := rfl
  logic i hi := by
    show Function.update s.logicParts hd _ hd i = _
    rw [Function.update_self, Function.update_of_ne (Nat.ne_of_lt hi)]

/-- One part of a scan after another. -/
theorem Extends.trans (h : Extends hd l s t) (h' : Extends hd l' t u) :
    Extends hd (l ++ l') s u where
  listedAfter := by
    rw [ListedAfter, numbered_append, ← h.pNo, ← h.lNo, List.map_append]
    refine ⟨by rw [h'.listedAfter.1, h.listedAfter.1, List.append_assoc], fun x hx => ?_⟩
    -- A partition of the first part is not overwritten by the second, whose numbers are higher.
    rcases List.mem_append.mp hx with hx | hx
    · rcases mem_numbered hx with ⟨hhd, hprim, hlogic⟩
      rw [← h.pNo] at hprim
      rw [← h.lNo] at hlogic
      rw [← h.listedAfter.2 x hx, Scan.part, Scan.part, hhd]
      cases hx1 : x.1.logical with
      | true =>
          rw [if_pos rfl, if_pos rfl]
          exact h'.logic _ (hlogic hx1)
      | false =>
          rw [if_neg Bool.false_ne_true, if_neg Bool.false_ne_true]
          exact h'.prim _ (hprim hx1)
    · exact h'.listedAfter.2 x hx
  pNo := by
    rw [h'.pNo, h.pNo, prims, prims, prims, List.countP_append]
    omega
  lNo := by
    rw [h'.lNo, h.lNo, logics, logics, logics, List.countP_append]
    omega
  prim i hi := by rw [h'.prim i (by rw [h.pNo]; omega), h.prim i hi]
  logic i hi := by rw [h'.logic i (by rw [h.lNo]; omega), h.logic i hi]

theorem extends_nil (hd : Nat) (s : Scan) : Extends hd [] s s := extends_base hd s s.extLbaBase

end Extends

section Scan

variable {disk : Nat → Nat → Byte} {hd base lba depth : Nat} {l : List Found} {s : Scan}
  {scan : Nat → Scan → Except ScanFault Scan} {p : PartitionTableEntry}

theorem scanEntry_empty (h : p.fsType = 0) : scanEntry scan hd lba p s = .ok (s, false) := by
  rw [scanEntry, if_neg (by omega), if_neg (by omega)]

/-- A logical partition is recorded while there is room. The eighth is the
    last of its table. -/
theorem scanEntry_logical (hp : IsPart p) (hlba : lba ≠ 0) (hroom : s.lNo < 8) :
    scanEntry scan hd lba p s = .ok
      (s.addLogic hd ⟨add32 lba p.startLba, p.secCnt, hd, s.lNo + 5⟩, decide (8 ≤ s.lNo + 1)) := by
  rw [scanEntry, if_neg hp.1, if_pos hp.2, recordPart, if_neg hlba, ensure_pos hroom, ok_bind]
  rfl

theorem scanEntry_primary (hp : IsPart p) (hfits : p.startLba < 2 ^ 32)
    (hroom : s.pNo + 1 < 4) :
    scanEntry scan hd 0 p s = .ok (s.addPrim hd ⟨p.startLba, p.secCnt, hd, s.pNo + 1⟩, false) := by
  have hadd : add32 0 p.startLba = p.startLba := by
    rw [add32, Nat.zero_add, Nat.mod_eq_of_lt hfits]
  rw [scanEntry, if_neg hp.1, if_pos hp.2, recordPart, if_pos rfl, ensure_pos (by omega), ok_bind,
    hadd]
  show (ensure (s.pNo + 1 < 4) ScanFault.assertion >>= fun _ => _) = _
  rw [ensure_pos hroom, ok_bind]

/-- An extended partition inside the extended partition. -/
theorem scanEntry_link {t : Scan} (h5 : p.fsType = 5) (hbase : s.extLbaBase ≠ 0)
    (hscan : scan (add32 p.startLba s.extLbaBase) s = .ok t) :
    scanEntry scan hd lba p s = .ok (t, false) := by
  rw [scanEntry, if_pos h5, if_pos hbase, hscan]
  rfl

/-- The extended partition of the first sector. -/
theorem scanEntry_first {t : Scan} (h5 : p.fsType = 5) (hbase : s.extLbaBase = 0)
    (hscan : scan p.startLba { s with extLbaBase := p.startLba } = .ok t) :
    scanEntry scan hd lba p s = .ok (t, false) := by
  rw [scanEntry, if_pos h5, if_neg (not_not.mpr hbase), hscan]
  rfl

theorem scanTable_next {bs : Nat → Byte} {n k : Nat} {t : Scan}
    (h : scanEntry scan hd lba (tableEntry bs k) s = .ok (t, false)) :
    scanTable scan hd lba bs (n + 1) k s = scanTable scan hd lba bs n (k + 1) t := by
  rw [scanTable, h, ok_bind]
  rfl

theorem scanTable_done {bs : Nat → Byte} {n k : Nat} {t : Scan}
    (h : scanEntry scan hd lba (tableEntry bs k) s = .ok (t, true)) :
    scanTable scan hd lba bs (n + 1) k s = .ok t := by
  rw [scanTable, h, ok_bind]
  rfl

theorem startLba_lt (bs : Nat → Byte) (i : Nat) : (tableEntry bs i).startLba < 2 ^ 32 := by
  show le32 bs _ < _
  rw [le32]
  have hbyte : ∀ b : Byte, b.toNat < 256 := fun b => b.isLt
  have := hbyte (bs (446 + 16 * i + 8))
  have := hbyte (bs (446 + 16 * i + 8 + 1))
  have := hbyte (bs (446 + 16 * i + 8 + 2))
  have := hbyte (bs (446 + 16 * i + 8 + 3))
  omega

/-- The first entry of a table in the usual layout: a logical partition, after
    which the scan goes on unless it was the eighth, or none. -/
theorem scanEntry_ebr {d : Nat → Byte} (hlba : lba ≠ 0) (ht : LogicalTable d lba)
    (hopen : s.lNo < 8) :
    ∃ t, (∀ scan, scanEntry scan hd lba (entryAt d lba 0) s = .ok (t, decide (8 ≤ t.lNo))) ∧
      Extends hd (logicalAt d lba) s t ∧ t.extLbaBase = s.extLbaBase ∧
      t.lNo = s.lNo + (logicalAt d lba).length := by
  by_cases h0 : (entryAt d lba 0).fsType = 0
  · rw [logicalAt, if_pos h0]
    refine ⟨s, fun scan => ?_, extends_nil hd s, rfl, rfl⟩
    rw [decide_eq_false (by omega)]
    exact scanEntry_empty h0
  · have hadd : add32 lba (entryAt d lba 0).startLba = lba + (entryAt d lba 0).startLba := by
      rw [add32, Nat.mod_eq_of_lt (ht.fits h0)]
    rw [logicalAt, if_neg h0, ← hadd]
    exact ⟨_, fun scan => scanEntry_logical ⟨ht.first, h0⟩ hlba hopen,
      extends_logic hd s _ _, rfl, rfl⟩

/-- The rest of such a table behind the second entry is empty. -/
theorem scanTable_rest {d : Nat → Byte} (ht : LogicalTable d lba) :
    scanTable scan hd lba (fun k => d (lba * sectorSize + k)) 2 2 s = .ok s := by
  refine scanTable_empty (fun i h1 h2 => ?_)
  rcases (show i = 2 ∨ i = 3 by omega) with rfl | rfl
  · exact ht.third
  · exact ht.fourth

/-- The scan of a chain of tables, from any of them on. -/
theorem chain_scan (hbase : base ≠ 0) (hlba : lba ≠ 0) (h : EbrChain (disk hd) base lba l)
    (hs : s.extLbaBase = base) (hopen : s.lNo < 8) (hroom : s.lNo + l.length ≤ 8) :
    ∃ n t, Extends hd l s t ∧ t.extLbaBase = base ∧
      ∀ depth, n ≤ depth → partitionScan disk hd depth lba s = .ok t := by
  -- The induction is on the chain. Each table needs one call more.
  induction h generalizing s with
  | last lba ht hend =>
      rcases scanEntry_ebr hlba ht hopen with ⟨t, hentry, hext, hkeep, -⟩
      refine ⟨1, t, hext, hkeep.trans hs, fun depth hdepth => ?_⟩
      rcases Nat.exists_eq_add_of_le' hdepth with ⟨m, rfl⟩
      rw [partitionScan, ensure_pos ht.there, ok_bind]
      by_cases hfull : 8 ≤ t.lNo
      · rw [decide_eq_true hfull] at hentry
        exact scanTable_done (hentry _)
      · rw [decide_eq_false hfull] at hentry
        rw [scanTable_next (hentry _), scanTable_next (scanEntry_empty hend)]
        exact scanTable_rest ht
  | link lba l ht hnext hrest ih =>
      rw [List.length_append] at hroom
      rcases scanEntry_ebr hlba ht hopen with ⟨t, hentry, hext, hkeep, hlno⟩
      by_cases hfull : 8 ≤ t.lNo
      · -- The eighth logical partition: the tables behind have none.
        have hnil : l = [] := List.length_eq_zero_iff.mp (by omega)
        refine ⟨1, t, ?_, hkeep.trans hs, fun depth hdepth => ?_⟩
        · rw [hnil, List.append_nil]
          exact hext
        · rcases Nat.exists_eq_add_of_le' hdepth with ⟨m, rfl⟩
          rw [partitionScan, ensure_pos ht.there, ok_bind]
          rw [decide_eq_true hfull] at hentry
          exact scanTable_done (hentry _)
      · rw [decide_eq_false hfull] at hentry
        rcases ih (by omega) (hkeep.trans hs) (by omega) (by omega) with ⟨n, u, hext', hbase', hscan⟩
        refine ⟨n + 1, u, hext.trans hext', hbase', fun depth hdepth => ?_⟩
        rcases Nat.exists_eq_add_of_le' hdepth with ⟨m, rfl⟩
        have hu := hscan (m + n) (Nat.le_add_left n m)
        have hthere := partitionScan_le hu
        have hmax : maxLba < 2 ^ 32 := by decide
        have hadd : add32 (entryAt (disk hd) lba 1).startLba t.extLbaBase =
            base + (entryAt (disk hd) lba 1).startLba := by
          rw [hkeep, hs, add32, Nat.add_comm, Nat.mod_eq_of_lt (by omega)]
        have hsecond : scanEntry (partitionScan disk hd (m + n)) hd lba (entryAt (disk hd) lba 1) t =
            .ok (u, false) :=
          scanEntry_link hnext (by rw [hkeep, hs]; exact hbase) (by rw [hadd]; exact hu)
        rw [← Nat.add_assoc, partitionScan, ensure_pos ht.there, ok_bind, scanTable_next (hentry _),
          scanTable_next hsecond]
        exact scanTable_rest ht

/-- The tables of a chain describe logical partitions only. -/
theorem chain_prims {d : Nat → Byte} (h : EbrChain d base lba l) : prims l = 0 := by
  have hone : ∀ lba, prims (logicalAt d lba) = 0 := by
    intro lba
    by_cases h0 : (entryAt d lba 0).fsType = 0
    · rw [logicalAt, if_pos h0]
      rfl
    · rw [logicalAt, if_neg h0]
      rfl
  induction h with
  | last lba _ _ => exact hone lba
  | link lba l _ _ _ ih =>
      have hl : prims (logicalAt d lba ++ l) = prims (logicalAt d lba) + prims l :=
        List.countP_append
      rw [hl, hone, ih]

/-- The partitions `n` entries of the first sector from `k` on describe. -/
def foundFrom (d : Nat → Byte) (ext : List Found) (n k : Nat) : List Found :=
  (List.range' k n).flatMap (entryFound d ext)

theorem foundFrom_succ (d : Nat → Byte) (ext : List Found) (n k : Nat) :
    foundFrom d ext (n + 1) k = entryFound d ext k ++ foundFrom d ext n (k + 1) := rfl

/-- The scan of the first sector from entry `k` on. -/
theorem mbr_scan {ext : List Found} {n k : Nat} (h : MbrFormed (disk hd) ext) (hn : k + n ≤ 4)
    (hprims : s.pNo + prims (foundFrom (disk hd) [] n k) ≤ 3)
    (hext : (s.extLbaBase = 0 ∧ s.lNo = 0) ∨
      ∀ i, k ≤ i → i < k + n → (tableEntry (disk hd) i).fsType ≠ 5) :
    ∃ m t, Extends hd (foundFrom (disk hd) ext n k) s t ∧ ∀ depth, m ≤ depth →
      scanTable (partitionScan disk hd depth) hd 0 (disk hd) n k s = .ok t := by
  -- The induction is on the entries that are left.
  induction n generalizing k s with
  | zero => exact ⟨0, s, extends_nil hd s, fun _ _ => rfl⟩
  | succ n ih =>
      have hcount : prims (entryFound (disk hd) [] k ++ foundFrom (disk hd) [] n (k + 1)) =
          prims (entryFound (disk hd) [] k) + prims (foundFrom (disk hd) [] n (k + 1)) :=
        List.countP_append
      rw [foundFrom_succ, hcount] at hprims
      rw [foundFrom_succ]
      by_cases h5 : (tableEntry (disk hd) k).fsType = 5
      · -- The extended partition: no other one follows.
        rcases hext with ⟨hbase, hlno⟩ | hno
        · have hstart := h.start k (by omega) h5
          have hfew := h.few
          have hopen : s.lNo < 8 ∧ s.lNo + ext.length ≤ 8 := by omega
          rcases chain_scan hstart hstart (h.chain k (by omega) h5)
            (s := { s with extLbaBase := (tableEntry (disk hd) k).startLba }) rfl hopen.1
            hopen.2 with ⟨m₁, t, hext₁, -, hscan₁⟩
          have hpno : t.pNo = s.pNo := by
            rw [hext₁.pNo, chain_prims (h.chain k (by omega) h5)]
            rfl
          have hrest : ∀ i, k + 1 ≤ i → i < k + 1 + n → (tableEntry (disk hd) i).fsType ≠ 5 := by
            intro i h1 h2 hi5
            have := h.one k i (by omega) (by omega) h5 hi5
            omega
          rcases ih (s := t) (by omega) (by omega) (Or.inr hrest) with ⟨m₂, u, hext₂, hscan₂⟩
          have hfound : entryFound (disk hd) ext k = ext := if_pos h5
          rw [hfound]
          refine ⟨m₁ + m₂, u, ((extends_base hd s _).trans hext₁).trans hext₂,
            fun depth hdepth => ?_⟩
          rw [scanTable_next (scanEntry_first h5 hbase (hscan₁ depth (by omega)))]
          exact hscan₂ depth (by omega)
        · exact absurd h5 (hno k (Nat.le_refl k) (by omega))
      · have hrest : ∀ t : Scan, t.extLbaBase = s.extLbaBase → t.lNo = s.lNo →
            (t.extLbaBase = 0 ∧ t.lNo = 0) ∨
              ∀ i, k + 1 ≤ i → i < k + 1 + n → (tableEntry (disk hd) i).fsType ≠ 5 := by
          intro t hb hl
          rw [hb, hl]
          exact hext.imp_right (fun hno i h1 h2 => hno i (by omega) (by omega))
        -- An empty entry is passed over, any other is a primary partition.
        by_cases h0 : (tableEntry (disk hd) k).fsType = 0
        · have hfound : ∀ e, entryFound (disk hd) e k = [] :=
            fun e => (if_neg h5).trans (if_pos h0)
          rw [hfound] at hprims ⊢
          have hzero : prims ([] : List Found) = 0 := rfl
          rcases ih (by omega) (by omega) (hrest s rfl rfl) with ⟨m, u, hext', hscan⟩
          refine ⟨m, u, hext', fun depth hdepth => ?_⟩
          rw [scanTable_next (scanEntry_empty h0)]
          exact hscan depth hdepth
        · have hfound : ∀ e, entryFound (disk hd) e k =
              [⟨false, (tableEntry (disk hd) k).startLba, (tableEntry (disk hd) k).secCnt⟩] :=
            fun e => (if_neg h5).trans (if_neg h0)
          rw [hfound] at hprims ⊢
          have hone : prims [(⟨false, (tableEntry (disk hd) k).startLba,
              (tableEntry (disk hd) k).secCnt⟩ : Found)] = 1 := rfl
          rw [hone] at hprims
          have hentry : ∀ scan, scanEntry scan hd 0 (tableEntry (disk hd) k) s = _ := fun scan =>
            scanEntry_primary ⟨h5, h0⟩ (startLba_lt _ k) (by omega)
          rcases ih (s := s.addPrim hd ⟨(tableEntry (disk hd) k).startLba,
            (tableEntry (disk hd) k).secCnt, hd, s.pNo + 1⟩) (by omega)
            (by show s.pNo + 1 + _ ≤ 3; omega) (hrest _ rfl rfl) with ⟨m, u, hext', hscan⟩
          refine ⟨m, u, (extends_prim hd s _ _).trans hext', fun depth hdepth => ?_⟩
          rw [scanTable_next (hentry _)]
          exact hscan depth hdepth

end Scan

section Disk

variable {disk : Nat → Nat → Byte} {hd : Nat} {ext : List Found} {s : Scan}

/-- There are as many primary partitions as entries for one. -/
theorem prims_mbrFound (d : Nat → Byte) :
    prims (mbrFound d []) =
      ((List.range 4).filter (fun i => decide (IsPart (tableEntry d i)))).length := by
  have hone : ∀ i, prims (entryFound d [] i) = if IsPart (tableEntry d i) then 1 else 0 := by
    intro i
    rw [entryFound]
    by_cases h5 : (tableEntry d i).fsType = 5
    · rw [if_pos h5, if_neg (fun h => h.1 h5)]
      rfl
    · by_cases h0 : (tableEntry d i).fsType = 0
      · rw [if_neg h5, if_pos h0, if_neg (fun h => h.2 h0)]
        rfl
      · rw [if_neg h5, if_neg h0, if_pos ⟨h5, h0⟩]
        rfl
  have hall : ∀ l : List Nat, prims (l.flatMap (entryFound d [])) =
      (l.filter (fun i => decide (IsPart (tableEntry d i)))).length := by
    intro l
    induction l with
    | nil => rfl
    | cons i l ih =>
        have hsplit : prims (entryFound d [] i ++ l.flatMap (entryFound d [])) =
            prims (entryFound d [] i) + prims (l.flatMap (entryFound d [])) := List.countP_append
        rw [List.flatMap_cons, hsplit, ih, hone, List.filter_cons]
        by_cases hp : IsPart (tableEntry d i)
        · rw [if_pos hp, if_pos (decide_eq_true hp), List.length_cons, Nat.add_comm]
        · rw [if_neg hp, if_neg (by rw [decide_eq_false hp]; decide), Nat.zero_add]
  exact hall _

/-- On the first disk with usual tables `partition_scan` appends what the tables
    describe to `partition_list`, in the order in which it comes to it. -/
theorem wellFormed_scan (h : MbrFormed (disk hd) ext) (hbase : s.extLbaBase = 0)
    (hp : s.pNo = 0) (hl : s.lNo = 0) :
    ∃ m t, (∀ depth, m ≤ depth → partitionScan disk hd depth 0 s = .ok t) ∧
      ListedAfter hd (mbrFound (disk hd) ext) s t := by
  have hcount := h.prims
  rw [← prims_mbrFound] at hcount
  rcases mbr_scan (n := 4) (k := 0) h (by omega) (by rw [hp, Nat.zero_add]; exact hcount)
    (Or.inl ⟨hbase, hl⟩) with ⟨m, t, hext, hscan⟩
  refine ⟨m + 1, t, fun depth hdepth => ?_, hext.listedAfter⟩
  rcases Nat.exists_eq_add_of_le' hdepth with ⟨n, rfl⟩
  rw [← Nat.add_assoc, partitionScan, ensure_pos (Nat.zero_le _), ok_bind, bootSector_eq]
  exact hscan (n + m) (Nat.le_add_left m n)

end Disk

section Sample

/-- Byte `k` of an entry. -/
def entryByte (p : PartitionTableEntry) (k : Nat) : Byte :=
  if k = 4 then byteOf p.fsType 0
  else if 8 ≤ k ∧ k < 12 then byteOf p.startLba (k - 8)
  else if 12 ≤ k then byteOf p.secCnt (k - 12)
  else 0

/-- The tables of the sample disk: a primary partition and two logical ones. -/
def sampleTable (lba i : Nat) : PartitionTableEntry :=
  if lba = 0 ∧ i = 0 then ⟨0x83, 2048, 30202⟩
  else if lba = 0 ∧ i = 3 then ⟨5, 32768, 130528⟩
  else if lba = 32768 ∧ i = 0 then ⟨0x66, 2048, 29683⟩
  else if lba = 32768 ∧ i = 1 then ⟨5, 32768, 31212⟩
  else if lba = 65536 ∧ i = 0 then ⟨0x66, 2048, 29164⟩
  else ⟨0, 0, 0⟩

/-- The sample disk. -/
def sampleDisk (k : Nat) : Byte :=
  let off := k % sectorSize
  if 446 ≤ off ∧ off < 510 then
    entryByte (sampleTable (k / sectorSize) ((off - 446) / 16)) ((off - 446) % 16)
  else 0

/-- Its logical partitions. -/
def sampleLogical : List Found := [⟨true, 34816, 29683⟩, ⟨true, 67584, 29164⟩]

theorem sampleDisk_chain : EbrChain sampleDisk 32768 32768 sampleLogical := by
  have hlast : EbrChain sampleDisk 32768 65536 (logicalAt sampleDisk 65536) :=
    .last 65536 ⟨by decide, by decide, by decide, by decide, by decide⟩ (by decide)
  exact .link 32768 _ ⟨by decide, by decide, by decide, by decide, by decide⟩ (by decide) hlast

theorem sampleDisk_extended :
    ∀ i, i < 4 → (tableEntry sampleDisk i).fsType = 5 → i = 3 := by decide

theorem sampleDisk_formed : MbrFormed sampleDisk sampleLogical where
  prims := by decide
  one i j hi hj h5 h5' := by
    rw [sampleDisk_extended i hi h5, sampleDisk_extended j hj h5']
  start := by decide
  chain i hi h5 := by
    rw [sampleDisk_extended i hi h5]
    exact sampleDisk_chain
  few := by decide

/-- The partitions of the sample disk are `sdb1`, `sdb5` and `sdb6`. -/
theorem wellFormed_scan_sample :
    ∃ m t, (∀ depth, m ≤ depth →
        partitionScan (fun _ => sampleDisk) 1 depth 0 .init = .ok t) ∧
      ListedAfter 1 [⟨false, 2048, 30202⟩, ⟨true, 34816, 29683⟩, ⟨true, 67584, 29164⟩] .init t :=
  @wellFormed_scan (fun _ => sampleDisk) 1 sampleLogical .init sampleDisk_formed rfl rfl rfl

end Sample

end ForikOS
