import ForikOS.Theory.PartTables

/-!
# Which Disks a Scan Survives

`partition_scan` follows the links it finds on the disk. Nothing bounds how deep
it calls itself, the assertion behind the fourth primary partition allows only
three, and the return after the eighth logical partition leaves one table, while
the scan goes on in the tables that led to it, where a ninth is written behind
the array.

Which disks are scanned to the end is said here of the tables alone. `Walk` goes
through them in the order of the scan and counts the logical partitions; it is
finite, and has no rule for a ninth. A scan that completes is such a walk, and a
walk is a scan that completes if there is room for its nested calls.

## Main definitions

* `extBase`, `linkAt`: Where the table of an extended partition lies.
* `IsTable`: The sectors that are tables.
* `Walk`: A walk through the tables.
* `Survives`: The disks that can be scanned.

## Theorems

* `walk_scan`, `mbr_walk_scan`: A walk is a scan.
* `scan_walk`, `mbr_scan_walk`: A scan is a walk.
* `scan_survives_iff`: The disks whose scan completes.
* `four_primaries_panic`: A disk with four primary partitions.
-/

namespace ForikOS

/-- The first extended partition of the first sector. -/
def firstExt (d : Nat → Byte) : Option Nat :=
  (List.range 4).find? (fun i => (tableEntry d i).fsType = 5)

/-- What the links are relative to: `b`, the base before the scan, or else the
    first extended partition. -/
def extBase (d : Nat → Byte) (b : Nat) : Nat :=
  if b ≠ 0 then b
  else match firstExt d with
    | none => 0
    | some i => (tableEntry d i).startLba

/-- Where the extended partition in entry `i` of a table has its table. -/
def linkAt (d : Nat → Byte) (b lba i : Nat) : Nat :=
  if b = 0 ∧ lba = 0 ∧ firstExt d = some i then extBase d b
  else extBase d b + (entryAt d lba i).startLba

/-- The sectors that hold tables: the first, and those the tables link to. -/
inductive IsTable (d : Nat → Byte) (b : Nat) : Nat → Prop
  | first : IsTable d b 0
  | link (lba i : Nat) : IsTable d b lba → i < 4 → (entryAt d lba i).fsType = 5 →
      IsTable d b (linkAt d b lba i)

/-- A walk through the table at `lba` from entry `i` on and the tables behind
    it, with `n` logical partitions before and `n'` after. The eighth is the
    last of its table, and there is no ninth. -/
inductive Walk (d : Nat → Byte) (b : Nat) : Nat → Nat → Nat → Nat → Prop
  | done (lba n : Nat) : Walk d b lba 4 n n
  | empty (lba i n n' : Nat) : i < 4 → (entryAt d lba i).fsType = 0 →
      Walk d b lba (i + 1) n n' → Walk d b lba i n n'
  | primary (i n n' : Nat) : i < 4 → IsPart (entryAt d 0 i) →
      Walk d b 0 (i + 1) n n' → Walk d b 0 i n n'
  | logical (lba i n n' : Nat) : i < 4 → lba ≠ 0 → IsPart (entryAt d lba i) → n < 7 →
      Walk d b lba (i + 1) (n + 1) n' → Walk d b lba i n n'
  | eighth (lba i : Nat) : i < 4 → lba ≠ 0 → IsPart (entryAt d lba i) → Walk d b lba i 7 8
  | link (lba i n m n' : Nat) : i < 4 → (entryAt d lba i).fsType = 5 →
      Walk d b (linkAt d b lba i) 0 n m → Walk d b lba (i + 1) m n' → Walk d b lba i n n'

/-- Not all four entries of the first sector are primary partitions, the first
    extended partition does not start there, and there is a walk through the
    tables. -/
structure Survives (d : Nat → Byte) (b : Nat) : Prop where
  prims : ∃ i, i < 4 ∧ ¬ IsPart (tableEntry d i)
  base : ∀ i, i < 4 → (tableEntry d i).fsType = 5 → extBase d b ≠ 0
  walk : ∃ n, Walk d b 0 0 0 n

section Links

variable {d : Nat → Byte} {b lba i : Nat}

theorem entryAt_first (d : Nat → Byte) (i : Nat) : entryAt d 0 i = tableEntry d i := by
  rw [entryAt, bootSector_eq (fun _ => d) 0]

/-- Links do not lead back to the first sector. -/
theorem linkAt_ne_zero (hbase : extBase d b ≠ 0) : linkAt d b lba i ≠ 0 := by
  unfold linkAt
  split <;> omega

theorem linkAt_inner (hlba : lba ≠ 0) :
    linkAt d b lba i = extBase d b + (entryAt d lba i).startLba := by
  rw [linkAt, if_neg (fun h => hlba h.2.1)]

theorem firstExt_eq_some (h5 : (tableEntry d i).fsType = 5) (hi : i < 4)
    (hbefore : ∀ j, j < i → (tableEntry d j).fsType ≠ 5) : firstExt d = some i := by
  rw [firstExt, List.find?_range_eq_some]
  refine ⟨decide_eq_true h5, List.mem_range.mpr hi, fun j hj => ?_⟩
  rw [decide_eq_false (hbefore j hj)]
  rfl

/-- An address that is a sector is not wrapped around. -/
theorem add32_link {x base : Nat} (h : base + x ≤ maxLba) : add32 x base = base + x := by
  have hmax : maxLba < 2 ^ 32 := by decide
  rw [add32, Nat.add_comm, Nat.mod_eq_of_lt (by omega)]

end Links

section Walks

variable {disk : Nat → Nat → Byte} {hd b lba i n n' : Nat} {s : Scan}

/-- A walk through a table of logical partitions is a scan. -/
theorem walk_scan (hbase : extBase (disk hd) b ≠ 0)
    (hthere : ∀ lba, IsTable (disk hd) b lba → lba ≤ maxLba)
    (h : Walk (disk hd) b lba i n n') (hlba : lba ≠ 0) (hr : IsTable (disk hd) b lba)
    (hs : s.extLbaBase = extBase (disk hd) b) (hn : s.lNo = n) :
    ∃ m t, t.extLbaBase = extBase (disk hd) b ∧ t.lNo = n' ∧ t.pNo = s.pNo ∧
      ∀ depth, m ≤ depth → scanTable (partitionScan disk hd depth) hd lba
        (fun k => disk hd (lba * sectorSize + k)) (4 - i) i s = .ok t := by
  -- On the walk: it has one step for each kind of entry.
  induction h generalizing s with
  | done lba n => exact ⟨0, s, hs, hn, rfl, fun _ _ => rfl⟩
  | empty lba i n n' hi h0 _ ih =>
      rcases ih hlba hr hs hn with ⟨m, t, hb, hl, hp, hscan⟩
      refine ⟨m, t, hb, hl, hp, fun depth hdepth => ?_⟩
      rw [show 4 - i = 4 - (i + 1) + 1 by omega, scanTable_next (scanEntry_empty h0)]
      exact hscan depth hdepth
  | primary i n n' _ _ _ _ => exact absurd rfl hlba
  | logical lba i n n' hi _ hpart hroom _ ih =>
      have hopen : s.lNo < 8 := by omega
      have hentry : ∀ scan, scanEntry scan hd lba (entryAt (disk hd) lba i) s = _ := fun scan =>
        scanEntry_logical hpart hlba hopen
      rw [decide_eq_false (by omega)] at hentry
      rcases ih (s := s.addLogic hd ⟨add32 lba (entryAt (disk hd) lba i).startLba,
        (entryAt (disk hd) lba i).secCnt, hd, s.lNo + 5⟩) hlba hr hs
        (congrArg (fun k => k + 1) hn) with ⟨m, t, hb, hl, hp, hscan⟩
      refine ⟨m, t, hb, hl, hp, fun depth hdepth => ?_⟩
      rw [show 4 - i = 4 - (i + 1) + 1 by omega, scanTable_next (hentry _)]
      exact hscan depth hdepth
  | eighth lba i hi _ hpart =>
      have hopen : s.lNo < 8 := by omega
      have hentry : ∀ scan, scanEntry scan hd lba (entryAt (disk hd) lba i) s = _ := fun scan =>
        scanEntry_logical hpart hlba hopen
      rw [decide_eq_true (by omega)] at hentry
      refine ⟨0, s.addLogic hd ⟨add32 lba (entryAt (disk hd) lba i).startLba,
        (entryAt (disk hd) lba i).secCnt, hd, s.lNo + 5⟩, hs, congrArg (fun k => k + 1) hn, rfl,
        fun depth _ => ?_⟩
      rw [show 4 - i = 4 - (i + 1) + 1 by omega, scanTable_done (hentry _)]
  | link lba i n m n' hi h5 _ _ ih₁ ih₂ =>
      have hinner : linkAt (disk hd) b lba i = _ := linkAt_inner hlba
      have hr' : IsTable (disk hd) b (linkAt (disk hd) b lba i) := .link lba i hr hi h5
      have hle := hthere _ hr'
      rcases ih₁ (linkAt_ne_zero hbase) hr' hs hn with ⟨m₁, t, hb, hl, hp, hscan₁⟩
      rcases ih₂ hlba hr hb hl with ⟨m₂, u, hb', hl', hp', hscan₂⟩
      -- Enough nested calls for the table behind the link and for the rest.
      refine ⟨m₁ + 1 + m₂, u, hb', hl', hp'.trans hp, fun depth hdepth => ?_⟩
      have hcall : partitionScan disk hd depth (linkAt (disk hd) b lba i) s = .ok t := by
        rcases Nat.exists_eq_add_of_le' (show 1 ≤ depth by omega) with ⟨k, rfl⟩
        rw [partitionScan, ensure_pos hle, ok_bind]
        exact hscan₁ k (by omega)
      have hentry : scanEntry (partitionScan disk hd depth) hd lba (entryAt (disk hd) lba i) s =
          .ok (t, false) := by
        refine scanEntry_link h5 (by rw [hs]; exact hbase) ?_
        rw [hinner] at hle hcall
        rw [hs, add32_link hle]
        exact hcall
      rw [show 4 - i = 4 - (i + 1) + 1 by omega, scanTable_next hentry]
      exact hscan₂ depth (by omega)

/-- The base while the first sector is scanned, before entry `k`: zero up to the
    first extended partition. -/
def BaseReady (d : Nat → Byte) (b k : Nat) (s : Scan) : Prop :=
  (s.extLbaBase = extBase d b ∧ (b ≠ 0 ∨ ∃ j, j < k ∧ (tableEntry d j).fsType = 5)) ∨
    (s.extLbaBase = 0 ∧ b = 0 ∧ ∀ j, j < k → (tableEntry d j).fsType ≠ 5)

theorem BaseReady.next {d : Nat → Byte} {k : Nat} {t : Scan} (h : BaseReady d b k s)
    (hno : (tableEntry d k).fsType ≠ 5) (ht : t.extLbaBase = s.extLbaBase) :
    BaseReady d b (k + 1) t := by
  rcases h with ⟨hb, hfound⟩ | ⟨hb, hzero, hbefore⟩
  · exact Or.inl ⟨ht.trans hb, hfound.imp_right (fun ⟨j, hj, h5⟩ => ⟨j, by omega, h5⟩)⟩
  · refine Or.inr ⟨ht.trans hb, hzero, fun j hj => ?_⟩
    rcases Nat.lt_succ_iff_lt_or_eq.mp hj with hj | rfl
    · exact hbefore j hj
    · exact hno

theorem BaseReady.found {d : Nat → Byte} {k : Nat} {t : Scan} (h5 : (tableEntry d k).fsType = 5)
    (ht : t.extLbaBase = extBase d b) : BaseReady d b (k + 1) t :=
  Or.inl ⟨ht, Or.inr ⟨k, Nat.lt_succ_self k, h5⟩⟩

/-- What `partition_scan` calls itself with for an extended partition of the
    first sector. -/
theorem BaseReady.call {d : Nat → Byte} {k : Nat} {scan : Nat → Scan → Except ScanFault Scan}
    (h : BaseReady d b k s) (hk : k < 4) (h5 : (tableEntry d k).fsType = 5)
    (hbase : extBase d b ≠ 0) (hle : linkAt d b 0 k ≤ maxLba) :
    scanEntry scan hd 0 (tableEntry d k) s =
      scan (linkAt d b 0 k) { s with extLbaBase := extBase d b } >>= fun t => .ok (t, false) := by
  rw [scanEntry, if_pos h5]
  rcases h with ⟨hb, hfound⟩ | ⟨hb, hzero, hbefore⟩
  · have hlink : linkAt d b 0 k = extBase d b + (tableEntry d k).startLba := by
      rw [linkAt, if_neg, entryAt_first]
      rintro ⟨hb0, -, hfirst⟩
      rcases hfound with hb1 | ⟨j, hj, hj5⟩
      · exact hb1 hb0
      · rw [firstExt, List.find?_range_eq_some] at hfirst
        have hnot := hfirst.2.2 j hj
        rw [decide_eq_true hj5] at hnot
        cases hnot
    rw [hlink] at hle ⊢
    rw [if_pos (by rw [hb]; exact hbase), hb, add32_link hle, ← hb]
  · -- The base is not set yet, so this is the first extended partition.
    have hfirst := firstExt_eq_some h5 hk hbefore
    have hstart : extBase d b = (tableEntry d k).startLba := by
      rw [extBase, if_neg (not_not.mpr hzero), hfirst]
    have hlink : linkAt d b 0 k = (tableEntry d k).startLba := by
      rw [linkAt, if_pos ⟨hzero, rfl, hfirst⟩, hstart]
    rw [if_neg (not_not.mpr hb), hlink, hstart]

/-- The primary partitions found so far are among the entries that have been
    looked at. -/
def PrimsReady (d : Nat → Byte) (k : Nat) (s : Scan) : Prop :=
  s.pNo ≤ k ∧ (s.pNo = k → ∀ j, j < k → IsPart (tableEntry d j))

theorem PrimsReady.next {d : Nat → Byte} {k : Nat} {t : Scan} (h : PrimsReady d k s)
    (ht : t.pNo = s.pNo) : PrimsReady d (k + 1) t :=
  ⟨by rw [ht]; have := h.1; omega, fun hc => by rw [ht] at hc; have := h.1; omega⟩

theorem PrimsReady.add {d : Nat → Byte} {k : Nat} {r : PartRec} (h : PrimsReady d k s)
    (hpart : IsPart (tableEntry d k)) : PrimsReady d (k + 1) (s.addPrim hd r) := by
  refine ⟨Nat.succ_le_succ h.1, fun hc j hj => ?_⟩
  rcases Nat.lt_succ_iff_lt_or_eq.mp hj with hj | rfl
  · exact h.2 (Nat.succ.inj hc) j hj
  · exact hpart

/-- There is room for another one, unless all four entries are primary
    partitions. -/
theorem PrimsReady.room {d : Nat → Byte} {k : Nat} (h : PrimsReady d k s) (hk : k < 4)
    (hpart : IsPart (tableEntry d k)) (hprims : ∃ i, i < 4 ∧ ¬ IsPart (tableEntry d i)) :
    s.pNo + 1 < 4 := by
  by_contra hc
  have h1 := h.1
  rcases hprims with ⟨i, hi, hnot⟩
  rcases Nat.lt_or_ge i k with hik | hik
  · exact hnot (h.2 (by omega) i hik)
  · have hki : i = k := by omega
    exact hnot (hki ▸ hpart)

/-- A walk through the first sector is a scan. -/
theorem mbr_walk_scan (hsurv : Survives (disk hd) b)
    (hthere : ∀ lba, IsTable (disk hd) b lba → lba ≤ maxLba) {k : Nat}
    (h : Walk (disk hd) b 0 k n n') (hb : BaseReady (disk hd) b k s)
    (hp : PrimsReady (disk hd) k s) (hn : s.lNo = n) :
    ∃ m t, ∀ depth, m ≤ depth →
      scanTable (partitionScan disk hd depth) hd 0 (disk hd) (4 - k) k s = .ok t := by
  -- The walk stays in the first sector: a link is a walk of its own.
  generalize hlba : 0 = lba at h
  induction h generalizing s with
  | done lba n => exact ⟨0, s, fun _ _ => rfl⟩
  | empty lba i n n' hi h0 _ ih =>
      subst hlba
      rw [entryAt_first] at h0
      rcases ih (hb.next (by omega) rfl) (hp.next rfl) hn rfl with ⟨m, t, hscan⟩
      refine ⟨m, t, fun depth hdepth => ?_⟩
      rw [show 4 - i = 4 - (i + 1) + 1 by omega, scanTable_next (scanEntry_empty h0)]
      exact hscan depth hdepth
  | primary i n n' hi hpart _ ih =>
      rw [entryAt_first] at hpart
      have hroom := hp.room hi hpart hsurv.prims
      have hentry : ∀ scan, scanEntry scan hd 0 (tableEntry (disk hd) i) s = _ := fun scan =>
        scanEntry_primary hpart (startLba_lt _ i) hroom
      rcases ih (s := s.addPrim hd ⟨(tableEntry (disk hd) i).startLba,
        (tableEntry (disk hd) i).secCnt, hd, s.pNo + 1⟩) (hb.next hpart.1 rfl) (hp.add hpart) hn
        rfl with ⟨m, t, hscan⟩
      refine ⟨m, t, fun depth hdepth => ?_⟩
      rw [show 4 - i = 4 - (i + 1) + 1 by omega, scanTable_next (hentry _)]
      exact hscan depth hdepth
  | logical lba i n n' _ hne _ _ _ _ => exact absurd hlba.symm hne
  | eighth lba i _ hne _ => exact absurd hlba.symm hne
  | link lba i n m n' hi h5 hwalk _ _ ih₂ =>
      subst hlba
      have hr : IsTable (disk hd) b (linkAt (disk hd) b 0 i) := .link 0 i .first hi h5
      rw [entryAt_first] at h5
      have hbase := hsurv.base i hi h5
      have hle := hthere _ hr
      rcases walk_scan (s := { s with extLbaBase := extBase (disk hd) b }) hbase hthere hwalk
        (linkAt_ne_zero hbase) hr rfl hn with ⟨m₁, t, hb', hl, hp', hscan₁⟩
      rcases ih₂ (BaseReady.found h5 hb') (hp.next hp') hl rfl with ⟨m₂, u, hscan₂⟩
      refine ⟨m₁ + 1 + m₂, u, fun depth hdepth => ?_⟩
      have hcall : partitionScan disk hd depth (linkAt (disk hd) b 0 i)
          { s with extLbaBase := extBase (disk hd) b } = .ok t := by
        rcases Nat.exists_eq_add_of_le' (show 1 ≤ depth by omega) with ⟨k, rfl⟩
        rw [partitionScan, ensure_pos hle, ok_bind]
        exact hscan₁ k (by omega)
      have hentry : scanEntry (partitionScan disk hd depth) hd 0 (tableEntry (disk hd) i) s =
          .ok (t, false) := by
        rw [hb.call hi h5 hbase hle, hcall]
        rfl
      rw [show 4 - i = 4 - (i + 1) + 1 by omega, scanTable_next hentry]
      exact hscan₂ depth (by omega)

end Walks

section Scans

variable {disk : Nat → Nat → Byte} {hd b lba depth : Nat} {s t : Scan}

/-- What a completed step of a scan was. -/
theorem scanTable_cases {scan : Nat → Scan → Except ScanFault Scan} {bs : Nat → Byte} {n k : Nat}
    (h : scanTable scan hd lba bs (n + 1) k s = .ok t) :
    scanEntry scan hd lba (tableEntry bs k) s = .ok (t, true) ∨
      ∃ u, scanEntry scan hd lba (tableEntry bs k) s = .ok (u, false) ∧
        scanTable scan hd lba bs n (k + 1) u = .ok t := by
  rcases bind_eq_ok.mp h with ⟨⟨u, done⟩, hx, h⟩
  cases done with
  | true =>
      cases h
      exact Or.inl hx
  | false => exact Or.inr ⟨u, hx, h⟩

/-- A ninth logical partition is written behind the array. -/
theorem logical_room {scan : Nat → Scan → Except ScanFault Scan} {p : PartitionTableEntry}
    {x : Scan × Bool} (hp : IsPart p) (hlba : lba ≠ 0)
    (h : scanEntry scan hd lba p s = .ok x) : s.lNo < 8 := by
  rw [scanEntry, if_neg hp.1, if_pos hp.2, recordPart, if_neg hlba] at h
  rcases bind_eq_ok.mp h with ⟨_, hroom, -⟩
  exact ensure_eq_ok.mp hroom

/-- A fourth primary partition fails the assertion. -/
theorem primary_room {scan : Nat → Scan → Except ScanFault Scan} {p : PartitionTableEntry}
    {x : Scan × Bool} (hp : IsPart p) (h : scanEntry scan hd 0 p s = .ok x) : s.pNo + 1 < 4 := by
  rw [scanEntry, if_neg hp.1, if_pos hp.2, recordPart, if_pos rfl] at h
  rcases bind_eq_ok.mp h with ⟨_, -, h⟩
  rcases bind_eq_ok.mp h with ⟨_, hroom, -⟩
  exact ensure_eq_ok.mp hroom

/-- A walk through the table at an address, and where it leaves the base. -/
def WalksAt (d : Nat → Byte) (b lba i : Nat) (s t : Scan) : Prop :=
  Walk d b lba i s.lNo t.lNo ∧ t.extLbaBase = extBase d b

/-- The scan of a table of logical partitions is a walk, if the calls for the
    tables behind it are. -/
theorem scanTable_walk {scan : Nat → Scan → Except ScanFault Scan} {n k : Nat}
    (hbase : extBase (disk hd) b ≠ 0) (hthere : ∀ lba, IsTable (disk hd) b lba → lba ≤ maxLba)
    (hscan : ∀ lba s t, lba ≠ 0 → IsTable (disk hd) b lba →
      s.extLbaBase = extBase (disk hd) b → scan lba s = .ok t → WalksAt (disk hd) b lba 0 s t)
    (hlba : lba ≠ 0) (hr : IsTable (disk hd) b lba) (hk : k + n = 4)
    (hs : s.extLbaBase = extBase (disk hd) b)
    (h : scanTable scan hd lba (fun k => disk hd (lba * sectorSize + k)) n k s = .ok t) :
    WalksAt (disk hd) b lba k s t := by
  induction n generalizing k s with
  | zero =>
      have hk4 : k = 4 := by omega
      cases h
      rw [hk4]
      exact ⟨.done lba _, hs⟩
  | succ n ih =>
      have hi : k < 4 := by omega
      -- As `partition_scan` distinguishes them: an extended partition, an empty
      -- entry, and a partition.
      by_cases h5 : (entryAt (disk hd) lba k).fsType = 5
      · have hr' : IsTable (disk hd) b (linkAt (disk hd) b lba k) := .link lba k hr hi h5
        have hle := hthere _ hr'
        have hcall : ∀ x, scanEntry scan hd lba (entryAt (disk hd) lba k) s = .ok x →
            ∃ u, scan (linkAt (disk hd) b lba k) s = .ok u ∧ x = (u, false) := by
          intro x hx
          rw [linkAt_inner hlba] at hle ⊢
          rw [scanEntry, if_pos h5, if_pos (by rw [hs]; exact hbase), hs, add32_link hle] at hx
          rcases bind_eq_ok.mp hx with ⟨u, hu, hx⟩
          cases hx
          exact ⟨u, hu, rfl⟩
        rcases scanTable_cases h with hx | ⟨u, hx, hrest⟩
        · rcases hcall _ hx with ⟨u, -, hc⟩
          cases hc
        · rcases hcall _ hx with ⟨v, hv, hc⟩
          cases hc
          have hin := hscan _ _ _ (linkAt_ne_zero hbase) hr' hs hv
          have hout := ih (by omega) hin.2 hrest
          exact ⟨.link lba k _ _ _ hi h5 hin.1 hout.1, hout.2⟩
      by_cases h0 : (entryAt (disk hd) lba k).fsType = 0
      · rw [scanTable_next (scanEntry_empty h0)] at h
        have hout := ih (by omega) hs h
        exact ⟨.empty lba k _ _ hi h0 hout.1, hout.2⟩
      · have hpart : IsPart (entryAt (disk hd) lba k) := ⟨h5, h0⟩
        have hroom : s.lNo < 8 := by
          rcases scanTable_cases h with hx | ⟨u, hx, -⟩
          · exact logical_room hpart hlba hx
          · exact logical_room hpart hlba hx
        have hentry : scanEntry scan hd lba (entryAt (disk hd) lba k) s = _ :=
          scanEntry_logical hpart hlba hroom
        by_cases hfull : 8 ≤ s.lNo + 1
        · rw [decide_eq_true hfull] at hentry
          rw [scanTable_done hentry] at h
          cases h
          have h7 : s.lNo = 7 := by omega
          refine ⟨?_, hs⟩
          show Walk _ _ _ _ s.lNo (s.lNo + 1)
          rw [h7]
          exact .eighth lba k hi hlba hpart
        · rw [decide_eq_false hfull] at hentry
          rw [scanTable_next hentry] at h
          have hout := ih (by omega) (by exact hs) h
          exact ⟨.logical lba k _ _ hi hlba hpart (by omega) hout.1, hout.2⟩

/-- A scan of such a table is a walk through it. -/
theorem scan_walk (hbase : extBase (disk hd) b ≠ 0)
    (hthere : ∀ lba, IsTable (disk hd) b lba → lba ≤ maxLba) (hlba : lba ≠ 0)
    (hr : IsTable (disk hd) b lba) (hs : s.extLbaBase = extBase (disk hd) b)
    (h : partitionScan disk hd depth lba s = .ok t) : WalksAt (disk hd) b lba 0 s t := by
  induction depth generalizing lba s t with
  | zero => cases h
  | succ depth ih =>
      rcases bind_eq_ok.mp h with ⟨_, -, h⟩
      exact scanTable_walk hbase hthere (fun _ _ _ h0 hr hs hx => ih h0 hr hs hx) hlba hr rfl hs h

/-- Where the first extended partition starts in the first sector, the scan
    comes back there for ever. -/
theorem scan_zero_fails {i : Nat} (hbase : s.extLbaBase = 0) (hfirst : firstExt (disk hd) = some i)
    (hzero : (tableEntry (disk hd) i).startLba = 0) : partitionScan disk hd depth 0 s ≠ .ok t := by
  rw [firstExt, List.find?_range_eq_some] at hfirst
  rcases hfirst with ⟨h5, hi, hbefore⟩
  rw [List.mem_range] at hi
  induction depth generalizing s t with
  | zero =>
      intro h
      cases h
  | succ depth ih =>
      intro h
      rcases bind_eq_ok.mp h with ⟨_, -, h⟩
      rw [bootSector_eq] at h
      -- The entries up to the extended one, which leads back to this sector.
      have hloop : ∀ n k (s : Scan), k ≤ i → k + n = 4 → s.extLbaBase = 0 →
          scanTable (partitionScan disk hd depth) hd 0 (disk hd) n k s ≠ .ok t := by
        intro n
        induction n with
        | zero =>
            intro k s hki hk _ _
            omega
        | succ n ihn =>
            intro k s hki hk hs h
            rcases scanTable_succ h with ⟨u, hx, hrest⟩
            by_cases hlt : k < i
            · have hno : (tableEntry (disk hd) k).fsType ≠ 5 := by
                intro hc
                have hnot := hbefore k hlt
                rw [decide_eq_true hc] at hnot
                cases hnot
              exact ihn (k + 1) u hlt (by omega) ((scanEntry_nonExtended hno hx).trans hs) hrest
            · have hki' : k = i := by omega
              rw [hki', scanEntry, if_pos (of_decide_eq_true h5), if_neg (not_not.mpr hs),
                hzero] at hx
              rcases bind_eq_ok.mp hx with ⟨v, hv, -⟩
              exact ih rfl hv
      exact hloop 4 0 s (Nat.zero_le i) rfl hbase h

/-- The scan of the first sector is a walk through it, and does not find four
    primary partitions. -/
theorem mbr_scan_walk {n k : Nat}
    (hbase : ∀ i, i < 4 → (tableEntry (disk hd) i).fsType = 5 → extBase (disk hd) b ≠ 0)
    (hthere : ∀ lba, IsTable (disk hd) b lba → lba ≤ maxLba) (hb : BaseReady (disk hd) b k s)
    (hk : k + n = 4)
    (h : scanTable (partitionScan disk hd depth) hd 0 (disk hd) n k s = .ok t) :
    Walk (disk hd) b 0 k s.lNo t.lNo ∧
      ((∀ i, k ≤ i → i < 4 → IsPart (tableEntry (disk hd) i)) → k = 4 ∨ s.pNo + n < 4) := by
  induction n generalizing k s with
  | zero =>
      have hk4 : k = 4 := by omega
      cases h
      rw [hk4]
      exact ⟨.done 0 _, fun _ => Or.inl rfl⟩
  | succ n ih =>
      have hi : k < 4 := by omega
      rcases scanTable_succ h with ⟨u, hx, hrest⟩
      -- A link: the scan of the table is a walk through what hangs on it.
      by_cases h5 : (tableEntry (disk hd) k).fsType = 5
      · have h5' : (entryAt (disk hd) 0 k).fsType = 5 := by rw [entryAt_first]; exact h5
        have hr : IsTable (disk hd) b (linkAt (disk hd) b 0 k) := .link 0 k .first hi h5'
        have hne := hbase k hi h5
        rw [hb.call hi h5 hne (hthere _ hr)] at hx
        rcases bind_eq_ok.mp hx with ⟨v, hv, hx⟩
        cases hx
        have hin := scan_walk hne hthere (linkAt_ne_zero hne) hr rfl hv
        have hout := ih (BaseReady.found h5 hin.2) (by omega) hrest
        exact ⟨.link 0 k _ _ _ hi h5' hin.1 hout.1,
          fun hall => absurd h5 (hall k (Nat.le_refl k) hi).1⟩
      by_cases h0 : (tableEntry (disk hd) k).fsType = 0
      · rw [scanEntry_empty h0] at hx
        cases hx
        have hout := ih (hb.next h5 rfl) (by omega) hrest
        exact ⟨.empty 0 k _ _ hi (by rw [entryAt_first]; exact h0) hout.1,
          fun hall => absurd h0 (hall k (Nat.le_refl k) hi).2⟩
      · have hpart : IsPart (tableEntry (disk hd) k) := ⟨h5, h0⟩
        -- There is room, or the scan would have failed here.
        have hroom := primary_room hpart hx
        rw [scanEntry_primary hpart (startLba_lt _ k) hroom] at hx
        cases hx
        have hout := ih (s := s.addPrim hd ⟨(tableEntry (disk hd) k).startLba,
          (tableEntry (disk hd) k).secCnt, hd, s.pNo + 1⟩) (hb.next h5 rfl) (by omega) hrest
        refine ⟨.primary k _ _ hi (by rw [entryAt_first]; exact hpart) hout.1, fun hall => Or.inr ?_⟩
        rcases hout.2 (fun i h1 h2 => hall i (by omega) h2) with hk4 | hlt
        · omega
        · have hpno : (s.addPrim hd ⟨(tableEntry (disk hd) k).startLba,
            (tableEntry (disk hd) k).secCnt, hd, s.pNo + 1⟩).pNo = s.pNo + 1 := rfl
          rw [hpno] at hlt
          omega

end Scans

section Survival

variable {disk : Nat → Nat → Byte} {hd : Nat} {s : Scan}

/-- Before the first sector is scanned. -/
theorem baseReady_start (d : Nat → Byte) (s : Scan) : BaseReady d s.extLbaBase 0 s := by
  by_cases hb : s.extLbaBase = 0
  · exact Or.inr ⟨hb, hb, fun j hj => absurd hj (Nat.not_lt_zero j)⟩
  · refine Or.inl ⟨?_, Or.inl hb⟩
    rw [extBase, if_pos hb]

/-- A disk all of whose tables are there is scanned to the end, with enough room
    for nested calls, exactly if not all entries of the first sector are primary
    partitions, no extended partition starts there, and there is a walk through
    the tables. -/
theorem scan_survives_iff (hp : s.pNo = 0) (hl : s.lNo = 0)
    (hthere : ∀ lba, IsTable (disk hd) s.extLbaBase lba → lba ≤ maxLba) :
    (∃ depth t, partitionScan disk hd depth 0 s = .ok t) ↔
      Survives (disk hd) s.extLbaBase := by
  constructor
  · rintro ⟨depth, t, h⟩
    -- An extended partition at sector 0 would make the scan call itself for ever.
    have hbase : ∀ i, i < 4 → (tableEntry (disk hd) i).fsType = 5 →
        extBase (disk hd) s.extLbaBase ≠ 0 := by
      intro i hi h5 hzero
      rw [extBase] at hzero
      by_cases hb : s.extLbaBase ≠ 0
      · rw [if_pos hb] at hzero
        exact hb hzero
      · rw [if_neg hb] at hzero
        have hsome : (firstExt (disk hd)).isSome = true :=
          List.find?_isSome.mpr ⟨i, List.mem_range.mpr hi, decide_eq_true h5⟩
        rcases Option.isSome_iff_exists.mp hsome with ⟨j, hj⟩
        rw [hj] at hzero
        exact scan_zero_fails (not_not.mp hb) hj hzero h
    cases depth with
    | zero => cases h
    | succ depth =>
        rcases bind_eq_ok.mp h with ⟨_, -, h⟩
        rw [bootSector_eq] at h
        rcases mbr_scan_walk hbase hthere (baseReady_start _ s) rfl h with ⟨hwalk, hprims⟩
        rw [hl] at hwalk
        refine ⟨?_, hbase, _, hwalk⟩
        by_contra hno
        have hall : ∀ i, 0 ≤ i → i < 4 → IsPart (tableEntry (disk hd) i) := by
          intro i _ hi
          by_contra hnot
          exact hno ⟨i, hi, hnot⟩
        have := hprims hall
        omega
  · intro h
    rcases h.walk with ⟨n, hwalk⟩
    rcases mbr_walk_scan h hthere hwalk (baseReady_start _ s)
      ⟨by omega, fun _ j hj => absurd hj (Nat.not_lt_zero j)⟩ hl with ⟨m, t, hscan⟩
    refine ⟨m + 1, t, ?_⟩
    rw [partitionScan, ensure_pos (Nat.zero_le _), ok_bind, bootSector_eq]
    exact hscan m (Nat.le_refl m)

end Survival

section Disks

/-- The tables of the sample disk are in three sectors. -/
theorem sampleDisk_isTable {lba : Nat} (h : IsTable sampleDisk 0 lba) :
    lba = 0 ∨ lba = 32768 ∨ lba = 65536 := by
  induction h with
  | first => exact Or.inl rfl
  | link lba i _ hi h5 ih =>
      rcases ih with rfl | rfl | rfl
      · have h3 : i = 3 := sampleDisk_extended i hi (by rw [← entryAt_first]; exact h5)
        rw [h3]
        exact Or.inr (Or.inl (by decide))
      · have h1 : i = 1 :=
          (by decide : ∀ i, i < 4 → (entryAt sampleDisk 32768 i).fsType = 5 → i = 1) i hi h5
        rw [h1]
        exact Or.inr (Or.inr (by decide))
      · exact absurd h5
          ((by decide : ∀ i, i < 4 → (entryAt sampleDisk 65536 i).fsType ≠ 5) i hi)

theorem sampleDisk_walk : Walk sampleDisk 0 0 0 0 2 := by
  have hend : ∀ lba n, (entryAt sampleDisk lba 2).fsType = 0 → (entryAt sampleDisk lba 3).fsType = 0 →
      Walk sampleDisk 0 lba 2 n n := fun lba n h2 h3 =>
    .empty lba 2 n n (by decide) h2 (.empty lba 3 n n (by decide) h3 (.done lba n))
  have hsecond : Walk sampleDisk 0 65536 0 1 2 :=
    .logical 65536 0 1 2 (by decide) (by decide) (by decide) (by decide)
      (.empty 65536 1 2 2 (by decide) (by decide) (hend 65536 2 (by decide) (by decide)))
  have hfirst : Walk sampleDisk 0 32768 0 0 2 :=
    .logical 32768 0 0 2 (by decide) (by decide) (by decide) (by decide)
      (.link 32768 1 1 2 2 (by decide) (by decide) hsecond (hend 32768 2 (by decide) (by decide)))
  exact .primary 0 0 2 (by decide) (by decide) (.empty 0 1 0 2 (by decide) (by decide)
    (.empty 0 2 0 2 (by decide) (by decide)
      (.link 0 3 0 2 2 (by decide) (by decide) hfirst (.done 0 2))))

theorem sampleDisk_survives : Survives sampleDisk 0 where
  prims := ⟨1, by decide, by decide⟩
  base _ _ _ := by decide
  walk := ⟨2, sampleDisk_walk⟩

/-- The sample disk is scanned to the end. -/
theorem scan_survives_iff_sample :
    ∃ depth t, partitionScan (fun _ => sampleDisk) 1 depth 0 .init = .ok t := by
  refine (@scan_survives_iff (fun _ => sampleDisk) 1 .init rfl rfl (fun lba hr => ?_)).mpr
    sampleDisk_survives
  rcases sampleDisk_isTable hr with rfl | rfl | rfl
  · decide
  · decide
  · decide

/-- A disk with a full table of four primary partitions. -/
def fourPrimaries (k : Nat) : Byte :=
  if 446 ≤ k ∧ k < 510 then entryByte ⟨0x83, 2048, 1000⟩ ((k - 446) % 16) else 0

theorem fourPrimaries_parts : ∀ i, i < 4 → IsPart (tableEntry fourPrimaries i) := by decide

/-- The scan of a full table of four primary partitions never completes: the
    fourth one fails the assertion. -/
theorem four_primaries_panic :
    (∀ lba, IsTable fourPrimaries 0 lba → lba ≤ maxLba) ∧
      ∀ depth t, partitionScan (fun _ => fourPrimaries) 1 depth 0 .init ≠ .ok t := by
  have hno : ∀ i, i < 4 → (tableEntry fourPrimaries i).fsType ≠ 5 :=
    fun i hi => (fourPrimaries_parts i hi).1
  have hreached : ∀ lba, IsTable fourPrimaries 0 lba → lba = 0 := by
    intro lba hr
    induction hr with
    | first => rfl
    | link lba i _ hi h5 ih =>
        rw [ih, entryAt_first] at h5
        exact absurd h5 (hno i hi)
  have hthere : ∀ lba, IsTable fourPrimaries 0 lba → lba ≤ maxLba := by
    intro lba hr
    rw [hreached lba hr]
    exact Nat.zero_le _
  refine ⟨hthere, fun depth t h => ?_⟩
  cases depth with
  | zero => cases h
  | succ depth =>
      rcases bind_eq_ok.mp h with ⟨_, -, h⟩
      rw [bootSector_eq (fun _ => fourPrimaries) 1] at h
      have hprims := (mbr_scan_walk (b := 0) (n := 4) (k := 0)
        (fun i hi h5 => absurd h5 (hno i hi)) hthere (baseReady_start _ .init) rfl h).2
        (fun i _ hi => fourPrimaries_parts i hi)
      revert hprims
      decide

end Disks

end ForikOS
