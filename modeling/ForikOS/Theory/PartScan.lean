import ForikOS.Core.PartScan
import ForikOS.Lib.Agree

/-!
# One Disk Is Scanned After Another

`ide_init` resets the numbers of the partitions between two disks, and leaves
`ext_lba_base` as it is. So the scan of a second disk with an extended partition
takes it for one inside the extended partition of the first disk, and looks for
its table at the wrong place.

Two scans of the same contents are compared, on different disks and with
different lists before. As long as the base is the same, or is not looked at,
they find the same partitions. The base is looked at only for an extended
partition in the first sector, and it is zero until there was one; so at least
one of two disks without an extended partition is enough. It is also necessary,
in that whatever one of the disks holds, there are contents of the other for
which the second scan panics.

## Main definitions

* `NoExtended`: The table in the first sector has no extended partition.
* `Alike`: Two scans have found the same on their disks.
* `Independent`: The partitions of the second disk are those it has as the
  first.
* `extDisk`: A disk whose extended partition starts at the last sector.

## Theorems

* `partitionScan_agree`: Scans from the same base find the same.
* `partitionScan_noExtended`: Without an extended partition the base does not
  matter.
* `partitionScan_other`: A scan leaves other disks alone.
* `scan_independent`: When the second disk is scanned as if it were the first.
* `scan_after_extended`: Two disks with an extended partition.
-/

namespace ForikOS

/-- None of the four partitions in the first sector is an extended one. -/
def NoExtended (d : Nat → Byte) : Prop := ∀ i, i < 4 → (tableEntry d i).fsType ≠ 5

instance (d : Nat → Byte) : Decidable (NoExtended d) :=
  inferInstanceAs (Decidable (∀ i, i < 4 → _))

/-- What two records say, but for the disk. -/
def SameRec (r r' : PartRec) : Prop :=
  r.startLba = r'.startLba ∧ r.secCnt = r'.secCnt ∧ r.suffix = r'.suffix

/-- The places of a disk in a list. -/
def places (hd : Nat) (l : List PartTag) : List (Bool × Nat) :=
  (l.filter (fun t => t.hd = hd)).map (fun t => (t.logical, t.idx))

/-- Two scans have found the same on a disk each. -/
structure Alike (hd hd' : Nat) (s s' : Scan) : Prop where
  pNo : s.pNo = s'.pNo
  lNo : s.lNo = s'.lNo
  prim : ∀ i, SameRec (s.primParts hd i) (s'.primParts hd' i)
  logic : ∀ i, SameRec (s.logicParts hd i) (s'.logicParts hd' i)
  places : places hd s.partitionList = places hd' s'.partitionList

section Alike

variable {hd hd' : Nat} {s s' : Scan}

theorem recorded_eq (hd : Nat) (s : Scan) : recorded hd s = (places hd s.partitionList).map (fun t =>
    let r := if t.1 then s.logicParts hd t.2 else s.primParts hd t.2
    (r.startLba, r.secCnt, r.suffix)) := by
  rw [recorded, places, List.map_map]
  refine List.map_congr_left (fun t ht => ?_)
  have hhd : t.hd = hd := of_decide_eq_true (List.mem_filter.mp ht).2
  dsimp only [Function.comp, Scan.part]
  rw [hhd]

/-- What has been found is recorded alike. -/
theorem Alike.recorded_eq (h : Alike hd hd' s s') : recorded hd s = recorded hd' s' := by
  rw [ForikOS.recorded_eq, ForikOS.recorded_eq, h.places]
  refine List.map_congr_left (fun t _ => ?_)
  dsimp only
  cases t.1 with
  | true =>
      rcases h.logic t.2 with ⟨h1, h2, h3⟩
      rw [if_pos rfl, if_pos rfl, h1, h2, h3]
  | false =>
      rcases h.prim t.2 with ⟨h1, h2, h3⟩
      rw [if_neg Bool.false_ne_true, if_neg Bool.false_ne_true, h1, h2, h3]

theorem places_append_self (hd : Nat) (l : List PartTag) (b : Bool) (i : Nat) :
    places hd (l ++ [⟨hd, b, i⟩]) = places hd l ++ [(b, i)] := by
  rw [places, List.filter_append, List.map_append, List.filter_cons, if_pos (decide_eq_true rfl)]
  rfl

theorem places_append_other {hd hd' : Nat} (h : hd ≠ hd') (l : List PartTag) (b : Bool) (i : Nat) :
    places hd' (l ++ [⟨hd, b, i⟩]) = places hd' l := by
  rw [places, List.filter_append, List.filter_cons, if_neg (by simpa using h), List.filter_nil,
    List.append_nil]
  rfl

theorem sameRec_update {f g : Nat → PartRec} (h : ∀ i, SameRec (f i) (g i)) {r r' : PartRec}
    (hr : SameRec r r') (k i : Nat) : SameRec (Function.update f k r i) (Function.update g k r' i) := by
  by_cases hi : i = k
  · rw [hi, Function.update_self, Function.update_self]
    exact hr
  · rw [Function.update_of_ne hi, Function.update_of_ne hi]
    exact h i

theorem Alike.addPrim (h : Alike hd hd' s s') {r r' : PartRec} (hr : SameRec r r') :
    Alike hd hd' (s.addPrim hd r) (s'.addPrim hd' r') where
  pNo := congrArg (· + 1) h.pNo
  lNo := h.lNo
  prim i := by
    dsimp only [Scan.addPrim]
    rw [Function.update_self, Function.update_self, h.pNo]
    exact sameRec_update h.prim hr _ i
  logic := h.logic
  places := by
    dsimp only [Scan.addPrim]
    rw [places_append_self, places_append_self, h.places, h.pNo]

theorem Alike.addLogic (h : Alike hd hd' s s') {r r' : PartRec} (hr : SameRec r r') :
    Alike hd hd' (s.addLogic hd r) (s'.addLogic hd' r') where
  pNo := h.pNo
  lNo := congrArg (· + 1) h.lNo
  prim := h.prim
  logic i := by
    dsimp only [Scan.addLogic]
    rw [Function.update_self, Function.update_self, h.lNo]
    exact sameRec_update h.logic hr _ i
  places := by
    dsimp only [Scan.addLogic]
    rw [places_append_self, places_append_self, h.places, h.lNo]

theorem recordPart_agree (h : Alike hd hd' s s') (extLba : Nat) (p : PartitionTableEntry) :
    Agree (fun x y => Alike hd hd' x.1 y.1 ∧ x.2 = y.2 ∧ x.1.extLbaBase = s.extLbaBase ∧
      y.1.extLbaBase = s'.extLbaBase) (recordPart hd extLba p s) (recordPart hd' extLba p s') := by
  have hnum : ∀ k, SameRec ⟨add32 extLba p.startLba, p.secCnt, hd, k⟩
      ⟨add32 extLba p.startLba, p.secCnt, hd', k⟩ := fun _ => ⟨rfl, rfl, rfl⟩
  unfold recordPart
  by_cases hz : extLba = 0
  · rw [if_pos hz, if_pos hz]
    have hadd := h.addPrim (hnum (s.pNo + 1))
    rw [← h.pNo]
    refine agree_ensure_bind Iff.rfl (fun _ => ?_)
    dsimp only
    refine agree_ensure_bind (by rw [hadd.pNo]) (fun _ => ?_)
    exact agree_ok ⟨hadd, rfl, rfl, rfl⟩
  · rw [if_neg hz, if_neg hz]
    have hadd := h.addLogic (hnum (s.lNo + 5))
    rw [← h.lNo]
    refine agree_ensure_bind Iff.rfl (fun _ => ?_)
    dsimp only
    refine agree_ok ⟨hadd, ?_, rfl, rfl⟩
    rw [hadd.lNo]

end Alike

section Tables

variable {hd hd' : Nat} {scan scan' : Nat → Scan → Except ScanFault Scan} {bs : Nat → Byte}

/-- The same, from the same base. -/
def AlikeFrom (hd hd' : Nat) (s s' : Scan) : Prop :=
  Alike hd hd' s s' ∧ s.extLbaBase = s'.extLbaBase

/-- A table is scanned alike if the tables inside are. -/
theorem scanTable_agree (hscan : ∀ lba s s', AlikeFrom hd hd' s s' →
      Agree (AlikeFrom hd hd') (scan lba s) (scan' lba s'))
    (extLba : Nat) (n k : Nat) {s s' : Scan} (h : AlikeFrom hd hd' s s') :
    Agree (AlikeFrom hd hd') (scanTable scan hd extLba bs n k s)
      (scanTable scan' hd' extLba bs n k s') := by
  induction n generalizing k s s' with
  | zero => exact h
  | succ n ih =>
      -- One entry: a nested table, a partition that is recorded, or nothing.
      have hentry : Agree (fun x y => AlikeFrom hd hd' x.1 y.1 ∧ x.2 = y.2)
          (scanEntry scan hd extLba (tableEntry bs k) s)
          (scanEntry scan' hd' extLba (tableEntry bs k) s') := by
        unfold scanEntry
        by_cases h5 : (tableEntry bs k).fsType = 5
        · rw [if_pos h5, if_pos h5, ← h.2]
          by_cases hz : s.extLbaBase ≠ 0
          · rw [if_pos hz, if_pos hz]
            exact agree_bind (hscan _ _ _ h) (fun a b hab => ⟨hab, rfl⟩)
          · rw [if_neg hz, if_neg hz]
            refine agree_bind (hscan _ _ _ ⟨?_, rfl⟩) (fun a b hab => ⟨hab, rfl⟩)
            exact ⟨h.1.pNo, h.1.lNo, h.1.prim, h.1.logic, h.1.places⟩
        · rw [if_neg h5, if_neg h5]
          by_cases h0 : (tableEntry bs k).fsType ≠ 0
          · rw [if_pos h0, if_pos h0]
            refine (recordPart_agree h.1 extLba (tableEntry bs k)).mono ?_
            rintro x y ⟨h1, h2, h3, h4⟩
            exact ⟨⟨h1, h3.trans (h.2.trans h4.symm)⟩, h2⟩
          · rw [if_neg h0, if_neg h0]
            exact ⟨h, rfl⟩
      refine agree_bind hentry (fun x y hxy => ?_)
      dsimp only
      rw [← hxy.2]
      by_cases hdone : x.2 = true
      · rw [if_pos hdone, if_pos hdone]
        exact hxy.1
      · rw [if_neg hdone, if_neg hdone]
        exact ih (k + 1) hxy.1

/-- Scans of the same contents from the same base find the same. -/
theorem partitionScan_agree {disk disk' : Nat → Nat → Byte} (hdisk : disk hd = disk' hd')
    (depth extLba : Nat) {s s' : Scan} (h : AlikeFrom hd hd' s s') :
    Agree (AlikeFrom hd hd') (partitionScan disk hd depth extLba s)
      (partitionScan disk' hd' depth extLba s') := by
  induction depth generalizing extLba s s' with
  | zero => exact agree_error _
  | succ depth ih =>
      refine agree_ensure_bind Iff.rfl (fun _ => ?_)
      rw [hdisk]
      exact scanTable_agree (fun lba _ _ hs => ih lba hs) extLba 4 0 h

/-- A table without an extended partition is scanned alike from any base. -/
theorem scanTable_noExtended (extLba : Nat) (n k : Nat)
    (hno : ∀ i, k ≤ i → i < k + n → (tableEntry bs i).fsType ≠ 5) {s s' : Scan}
    (h : Alike hd hd' s s') :
    Agree (fun x y => Alike hd hd' x y ∧ x.extLbaBase = s.extLbaBase)
      (scanTable scan hd extLba bs n k s) (scanTable scan' hd' extLba bs n k s') := by
  induction n generalizing k s s' with
  | zero => exact ⟨h, rfl⟩
  | succ n ih =>
      -- An entry that is not extended is recorded, or skipped, alike in both scans.
      have hentry : Agree (fun x y => Alike hd hd' x.1 y.1 ∧ x.2 = y.2 ∧
            x.1.extLbaBase = s.extLbaBase)
          (scanEntry scan hd extLba (tableEntry bs k) s)
          (scanEntry scan' hd' extLba (tableEntry bs k) s') := by
        have h5 := hno k (Nat.le_refl k) (by omega)
        unfold scanEntry
        rw [if_neg h5, if_neg h5]
        by_cases h0 : (tableEntry bs k).fsType ≠ 0
        · rw [if_pos h0, if_pos h0]
          refine (recordPart_agree h extLba (tableEntry bs k)).mono ?_
          rintro x y ⟨h1, h2, h3, -⟩
          exact ⟨h1, h2, h3⟩
        · rw [if_neg h0, if_neg h0]
          exact ⟨h, rfl, rfl⟩
      refine agree_bind hentry (fun x y hxy => ?_)
      dsimp only
      rw [← hxy.2.1, ← hxy.2.2]
      by_cases hdone : x.2 = true
      · rw [if_pos hdone, if_pos hdone]
        exact ⟨hxy.1, rfl⟩
      · rw [if_neg hdone, if_neg hdone]
        exact ih (k + 1) (fun i h1 h2 => hno i (by omega) (by omega)) hxy.1

/-- Without an extended partition in its first sector, a disk is scanned alike
    from any base. -/
theorem partitionScan_noExtended {disk disk' : Nat → Nat → Byte} (hdisk : disk hd = disk' hd')
    (hno : NoExtended (disk hd)) (depth : Nat) {s s' : Scan} (h : Alike hd hd' s s') :
    Agree (fun x y => Alike hd hd' x y ∧ x.extLbaBase = s.extLbaBase)
      (partitionScan disk hd depth 0 s) (partitionScan disk' hd' depth 0 s') := by
  cases depth with
  | zero => exact agree_error _
  | succ depth =>
      refine agree_ensure_bind Iff.rfl (fun _ => ?_)
      rw [← hdisk]
      refine scanTable_noExtended 0 4 0 (fun i _ hi => ?_) h
      have hsame : (fun k => disk hd (0 * sectorSize + k)) = disk hd := by
        funext k
        rw [Nat.zero_mul, Nat.zero_add]
      rw [hsame]
      exact hno i (by omega)

end Tables

/-- What every step of a scan does to the variables. -/
structure Scanning (hd : Nat) (R : Scan → Scan → Prop) : Prop where
  base : ∀ s lba, s.extLbaBase = 0 → R s { s with extLbaBase := lba }
  prim : ∀ s r, R s (s.addPrim hd r)
  logic : ∀ s r, R s (s.addLogic hd r)

section Scanning

variable {hd : Nat} {R : Scan → Scan → Prop} {bs : Nat → Byte}
  {scan : Nat → Scan → Except ScanFault Scan} {s t : Scan}

theorem recordPart_scans (hR : Scanning hd R) {extLba : Nat} {p : PartitionTableEntry}
    {x : Scan × Bool} (h : recordPart hd extLba p s = .ok x) : R s x.1 := by
  unfold recordPart at h
  by_cases hz : extLba = 0
  · rw [if_pos hz] at h
    rcases bind_eq_ok.mp h with ⟨_, -, h⟩
    rcases bind_eq_ok.mp h with ⟨_, -, h⟩
    cases h
    exact hR.prim _ _
  · rw [if_neg hz] at h
    rcases bind_eq_ok.mp h with ⟨_, -, h⟩
    cases h
    exact hR.logic _ _

variable [IsPreorder Scan R]

theorem scanEntry_scans (hR : Scanning hd R)
    (hscan : ∀ lba s t, scan lba s = .ok t → R s t) {extLba : Nat} {p : PartitionTableEntry}
    {x : Scan × Bool} (h : scanEntry scan hd extLba p s = .ok x) : R s x.1 := by
  unfold scanEntry at h
  by_cases h5 : p.fsType = 5
  · rw [if_pos h5] at h
    by_cases hz : s.extLbaBase ≠ 0
    · rw [if_pos hz] at h
      rcases bind_eq_ok.mp h with ⟨t, hs, h⟩
      cases h
      exact hscan _ _ _ hs
    · rw [if_neg hz] at h
      rcases bind_eq_ok.mp h with ⟨t, hs, h⟩
      cases h
      exact IsTrans.trans _ _ _ (hR.base s _ (not_not.mp hz)) (hscan _ _ _ hs)
  · rw [if_neg h5] at h
    by_cases h0 : p.fsType ≠ 0
    · rw [if_pos h0] at h
      exact recordPart_scans hR h
    · rw [if_neg h0] at h
      cases h
      exact refl s

theorem scanTable_scans (hR : Scanning hd R)
    (hscan : ∀ lba s t, scan lba s = .ok t → R s t) {extLba n k : Nat}
    (h : scanTable scan hd extLba bs n k s = .ok t) : R s t := by
  induction n generalizing k s with
  | zero =>
      cases h
      exact refl _
  | succ n ih =>
      rcases bind_eq_ok.mp h with ⟨x, hx, h⟩
      have hstep := scanEntry_scans hR hscan hx
      dsimp only at h
      by_cases hdone : x.2 = true
      · rw [if_pos hdone] at h
        cases h
        exact hstep
      · rw [if_neg hdone] at h
        exact IsTrans.trans _ _ _ hstep (ih h)

/-- A completed scan is made of such steps. -/
theorem partitionScan_scans (hR : Scanning hd R) {disk : Nat → Nat → Byte} {depth extLba : Nat}
    (h : partitionScan disk hd depth extLba s = .ok t) : R s t := by
  induction depth generalizing extLba s t with
  | zero => cases h
  | succ depth ih =>
      rcases bind_eq_ok.mp h with ⟨_, -, h⟩
      exact scanTable_scans hR (fun _ _ _ hs => ih hs) h

end Scanning

/-- Nothing has been found on a disk. -/
structure Untouched (hd : Nat) (s s' : Scan) : Prop where
  prim : s'.primParts hd = s.primParts hd
  logic : s'.logicParts hd = s.logicParts hd
  places : places hd s'.partitionList = places hd s.partitionList

instance (hd : Nat) : IsPreorder Scan (Untouched hd) where
  refl _ := ⟨rfl, rfl, rfl⟩
  trans _ _ _ h h' := ⟨h'.prim.trans h.prim, h'.logic.trans h.logic, h'.places.trans h.places⟩

/-- A base that has been found stays. -/
def KeepsBase (s s' : Scan) : Prop := s.extLbaBase ≠ 0 → s'.extLbaBase = s.extLbaBase

instance : IsPreorder Scan KeepsBase where
  refl _ := fun _ => rfl
  trans _ _ _ h h' := fun hz => (h' (by rwa [h hz])).trans (h hz)

section Frame

variable {disk : Nat → Nat → Byte} {hd depth extLba : Nat} {s t : Scan}

/-- A scan leaves other disks alone. -/
theorem partitionScan_other {hd' : Nat} (hne : hd ≠ hd')
    (h : partitionScan disk hd depth extLba s = .ok t) : Untouched hd' s t := by
  refine partitionScan_scans (R := Untouched hd')
    ⟨fun _ _ _ => ⟨rfl, rfl, rfl⟩, fun s r => ?_, fun s r => ?_⟩ h
  · exact ⟨Function.update_of_ne hne.symm _ _, rfl, places_append_other hne _ _ _⟩
  · exact ⟨rfl, Function.update_of_ne hne.symm _ _, places_append_other hne _ _ _⟩

theorem scanning_keepsBase (hd : Nat) : Scanning hd KeepsBase :=
  ⟨fun _ _ hz hne => absurd hz hne, fun _ _ _ => rfl, fun _ _ _ => rfl⟩

theorem partitionScan_base (h : partitionScan disk hd depth extLba s = .ok t) : KeepsBase s t :=
  partitionScan_scans (scanning_keepsBase hd) h

theorem partitionScan_le (h : partitionScan disk hd depth extLba s = .ok t) : extLba ≤ maxLba := by
  cases depth with
  | zero => cases h
  | succ depth =>
      rcases bind_eq_ok.mp h with ⟨_, hle, -⟩
      exact ensure_eq_ok.mp hle

end Frame

section Base

variable {disk : Nat → Nat → Byte} {hd depth n k : Nat} {bs : Nat → Byte} {s t : Scan}

/-- One entry of the first table is scanned, and then the others: no table is
    left early there. -/
theorem scanTable_succ {scan : Nat → Scan → Except ScanFault Scan}
    (h : scanTable scan hd 0 bs (n + 1) k s = .ok t) :
    ∃ s₁, scanEntry scan hd 0 (tableEntry bs k) s = .ok (s₁, false) ∧
      scanTable scan hd 0 bs n (k + 1) s₁ = .ok t := by
  rcases bind_eq_ok.mp h with ⟨⟨s₁, done⟩, hx, h⟩
  -- An entry of the MBR never ends the scan of its table.
  have hdone : done = false := by
    unfold scanEntry recordPart at hx
    rw [if_pos rfl] at hx
    by_cases h5 : (tableEntry bs k).fsType = 5
    · rw [if_pos h5] at hx
      by_cases hz : s.extLbaBase ≠ 0
      · rw [if_pos hz] at hx
        rcases bind_eq_ok.mp hx with ⟨_, -, hx⟩
        cases hx
        rfl
      · rw [if_neg hz] at hx
        rcases bind_eq_ok.mp hx with ⟨_, -, hx⟩
        cases hx
        rfl
    · rw [if_neg h5] at hx
      by_cases h0 : (tableEntry bs k).fsType ≠ 0
      · rw [if_pos h0] at hx
        rcases bind_eq_ok.mp hx with ⟨_, -, hx⟩
        rcases bind_eq_ok.mp hx with ⟨_, -, hx⟩
        cases hx
        rfl
      · rw [if_neg h0] at hx
        cases hx
        rfl
  rw [hdone] at hx h
  exact ⟨s₁, hx, h⟩

/-- Only an extended partition can change the base. -/
theorem scanEntry_nonExtended {scan : Nat → Scan → Except ScanFault Scan} {extLba : Nat}
    {p : PartitionTableEntry} {x : Scan × Bool} (h5 : p.fsType ≠ 5)
    (h : scanEntry scan hd extLba p s = .ok x) : x.1.extLbaBase = s.extLbaBase := by
  unfold scanEntry recordPart at h
  rw [if_neg h5] at h
  by_cases h0 : p.fsType ≠ 0
  · rw [if_pos h0] at h
    by_cases hz : extLba = 0
    · rw [if_pos hz] at h
      rcases bind_eq_ok.mp h with ⟨_, -, h⟩
      rcases bind_eq_ok.mp h with ⟨_, -, h⟩
      cases h
      rfl
    · rw [if_neg hz] at h
      rcases bind_eq_ok.mp h with ⟨_, -, h⟩
      cases h
      rfl
  · rw [if_neg h0] at h
    cases h
    rfl

theorem scanEntry_keepsBase {p : PartitionTableEntry} {x : Scan × Bool}
    (h : scanEntry (partitionScan disk hd depth) hd 0 p s = .ok x) : KeepsBase s x.1 :=
  scanEntry_scans (scanning_keepsBase hd) (fun _ _ _ hs => partitionScan_base hs) h

/-- Where a base has been found, every extended partition of the first table is
    taken to lie behind it. -/
theorem scanTable_behind (hbase : s.extLbaBase ≠ 0)
    (h : scanTable (partitionScan disk hd depth) hd 0 bs n k s = .ok t) (i : Nat) (hk : k ≤ i)
    (hi : i < k + n) (h5 : (tableEntry bs i).fsType = 5) :
    add32 (tableEntry bs i).startLba s.extLbaBase ≤ maxLba := by
  induction n generalizing k s with
  | zero => omega
  | succ n ih =>
      rcases scanTable_succ h with ⟨s₁, hx, hrest⟩
      by_cases hik : i = k
      · unfold scanEntry at hx
        rw [← hik, if_pos h5, if_pos hbase] at hx
        rcases bind_eq_ok.mp hx with ⟨_, hs, -⟩
        exact partitionScan_le hs
      · have hkeep := scanEntry_keepsBase hx hbase
        have h' := ih (by rw [hkeep]; exact hbase) hrest (by omega) (by omega)
        rwa [hkeep] at h'

/-- The first extended partition is the base from then on. -/
def BaseFound (d : Nat → Byte) (depth : Nat) (t : Scan) : Prop :=
  2 ≤ depth ∧ ∃ i, i < 4 ∧ (tableEntry d i).fsType = 5 ∧ (tableEntry d i).startLba ≠ 0 ∧
    (tableEntry d i).startLba ≤ maxLba ∧ t.extLbaBase = (tableEntry d i).startLba

theorem scanTable_finds (ih : ∀ s t, s.extLbaBase = 0 → partitionScan disk hd depth 0 s = .ok t →
      BaseFound bs depth t)
    (hbase : s.extLbaBase = 0) (h : scanTable (partitionScan disk hd depth) hd 0 bs n k s = .ok t)
    (hn : k + n ≤ 4) (hext : ∃ i, k ≤ i ∧ i < k + n ∧ (tableEntry bs i).fsType = 5) :
    BaseFound bs (depth + 1) t := by
  induction n generalizing k s with
  | zero =>
      rcases hext with ⟨i, h1, h2, -⟩
      omega
  | succ n ihn =>
      rcases scanTable_succ h with ⟨s₁, hx, hrest⟩
      -- The first extended entry starts a scan below it; every entry in front leaves the base at
      -- 0.
      by_cases h5 : (tableEntry bs k).fsType = 5
      · unfold scanEntry at hx
        rw [if_pos h5, if_neg (not_not.mpr hbase)] at hx
        rcases bind_eq_ok.mp hx with ⟨s₂, hs, hx⟩
        cases hx
        have hkeeps : KeepsBase s₁ t := scanTable_scans (scanning_keepsBase hd)
          (fun _ _ _ hs => partitionScan_base hs) hrest
        -- An extended entry that starts at sector 0 sends the scan to the same table again.
        by_cases hz : (tableEntry bs k).startLba = 0
        · rw [hz] at hs
          rcases ih _ _ rfl hs with ⟨hdepth, i, hi, hi5, hi0, hile, hbase₁⟩
          refine ⟨by omega, i, hi, hi5, hi0, hile, ?_⟩
          rw [hkeeps (by rw [hbase₁]; exact hi0), hbase₁]
        · have hbase₁ := partitionScan_base hs hz
          refine ⟨?_, k, by omega, h5, hz, partitionScan_le hs, ?_⟩
          · cases depth with
            | zero => cases hs
            | succ depth => omega
          · rw [hkeeps (by rw [hbase₁]; exact hz), hbase₁]
      · have hkeep : s₁.extLbaBase = 0 := (scanEntry_nonExtended h5 hx).trans hbase
        refine ihn hkeep hrest (by omega) ?_
        rcases hext with ⟨i, h1, h2, hi5⟩
        have hik : i ≠ k := fun hc => h5 (by rw [← hc]; exact hi5)
        exact ⟨i, by omega, by omega, hi5⟩

theorem bootSector_eq (disk : Nat → Nat → Byte) (hd : Nat) :
    (fun k => disk hd (0 * sectorSize + k)) = disk hd := by
  funext k
  rw [Nat.zero_mul, Nat.zero_add]

/-- A disk with an extended partition in its first sector sets the base. -/
theorem partitionScan_finds (hbase : s.extLbaBase = 0) (hext : ¬ NoExtended (disk hd))
    (h : partitionScan disk hd depth 0 s = .ok t) : BaseFound (disk hd) depth t := by
  induction depth generalizing s t with
  | zero => cases h
  | succ depth ih =>
      rcases bind_eq_ok.mp h with ⟨_, -, h⟩
      rw [bootSector_eq] at h
      refine scanTable_finds (fun s t hs hr => ih hs hr) hbase h (Nat.le_refl 4) ?_
      by_contra hno
      exact hext (fun i hi h5 => hno ⟨i, Nat.zero_le i, by omega, h5⟩)

/-- After the base has been found elsewhere, a completed scan has every
    extended partition of the first table behind it. -/
theorem partitionScan_behind (hbase : s.extLbaBase ≠ 0)
    (h : partitionScan disk hd depth 0 s = .ok t) (i : Nat) (hi : i < 4)
    (h5 : (tableEntry (disk hd) i).fsType = 5) :
    add32 (tableEntry (disk hd) i).startLba s.extLbaBase ≤ maxLba := by
  cases depth with
  | zero => cases h
  | succ depth =>
      rcases bind_eq_ok.mp h with ⟨_, -, h⟩
      rw [bootSector_eq] at h
      exact scanTable_behind hbase h i (Nat.zero_le i) (by omega) h5

end Base

section Init

variable {disk : Nat → Nat → Byte} {depth : Nat}

/-- `ide_init` resets the numbers after a disk. -/
def Scan.reset (s : Scan) : Scan := { s with pNo := 0, lNo := 0 }

/-- With two disks, disk 1 is scanned. -/
theorem ideInitScan_one (disk : Nat → Nat → Byte) (depth : Nat) :
    ideInitScan disk depth 2 = (partitionScan disk 1 depth 0 .init).map Scan.reset := by
  show (initDevice disk depth 0 1 .init >>= fun s => .ok s) = _
  unfold initDevice
  cases partitionScan disk 1 depth 0 .init with
  | error e => rfl
  | ok s => rfl

/-- With three or four, disk 3 is scanned after it. -/
theorem ideInitScan_two (disk : Nat → Nat → Byte) (depth : Nat) {hdCnt : Nat}
    (h : (hdCnt + 1) / 2 = 2) : ideInitScan disk depth hdCnt =
      (partitionScan disk 1 depth 0 .init >>= fun s =>
        (partitionScan disk 3 depth 0 s.reset).map Scan.reset) := by
  unfold ideInitScan
  rw [ensure_pos (by omega), ok_bind, h]
  show (initDevice disk depth 0 1 .init >>= fun s => initDevice disk depth 1 1 s.reset
    >>= fun s => .ok s) = _
  unfold initDevice
  cases partitionScan disk 1 depth 0 .init with
  | error e => rfl
  | ok s =>
      show ((partitionScan disk 3 depth 0 s.reset >>= _) >>= _) = Except.map _ _
      cases partitionScan disk 3 depth 0 s.reset with
      | error e => rfl
      | ok t => rfl

/-- If the scan of disk 1 completes, disk 3 has the same partitions after it as
    the same contents have on the first disk that is scanned. -/
def Independent (depth : Nat) (disk : Nat → Nat → Byte) : Prop :=
  ∀ hdCnt, (hdCnt + 1) / 2 = 2 → (∃ s, ideInitScan disk depth 2 = .ok s) →
    (ideInitScan disk depth hdCnt).map (recorded 3) =
      (ideInitScan (fun _ => disk 3) depth 2).map (recorded 1)

/-- A scan of nothing yet is one of nothing on another disk. -/
theorem alike_reset {s : Scan} (h : Untouched 3 .init s) : Alike 3 1 s.reset .init where
  pNo := rfl
  lNo := rfl
  prim i := by
    show SameRec (s.primParts 3 i) _
    rw [h.prim]
    exact ⟨rfl, rfl, rfl⟩
  logic i := by
    show SameRec (s.logicParts 3 i) _
    rw [h.logic]
    exact ⟨rfl, rfl, rfl⟩
  places := h.places

theorem map_map_recorded (x : Except ScanFault Scan) (hd : Nat) :
    (x.map Scan.reset).map (recorded hd) = x.map (recorded hd) := by
  cases x with
  | error e => rfl
  | ok s => rfl

theorem independent_iff : Independent depth disk ↔
    ∀ s, partitionScan disk 1 depth 0 .init = .ok s →
      (partitionScan disk 3 depth 0 s.reset).map (recorded 3) =
        (partitionScan (fun _ => disk 3) 1 depth 0 .init).map (recorded 1) := by
  unfold Independent
  constructor
  · intro h s hs
    have h4 := h 4 rfl ⟨s.reset, by rw [ideInitScan_one, hs]; rfl⟩
    rw [ideInitScan_two disk depth rfl, hs, ideInitScan_one, map_map_recorded] at h4
    rw [← h4]
    exact (map_map_recorded _ 3).symm
  · rintro h hdCnt hcnt ⟨s', hs'⟩
    rw [ideInitScan_two disk depth hcnt, ideInitScan_one, map_map_recorded]
    cases hs : partitionScan disk 1 depth 0 .init with
    | error e =>
        rw [ideInitScan_one, hs] at hs'
        cases hs'
    | ok s =>
        rw [← h s hs]
        exact map_map_recorded _ 3

/-- One disk without an extended partition is enough. -/
theorem independent_of_noExtended (h : NoExtended (disk 1) ∨ NoExtended (disk 3)) :
    Independent depth disk := by
  refine independent_iff.mpr (fun s hs => ?_)
  have hother : Untouched 3 .init s := partitionScan_other (by decide) hs
  have halike := alike_reset hother
  rcases h with hno | hno
  · have hself : Alike 1 1 .init .init := ⟨rfl, rfl, fun _ => ⟨rfl, rfl, rfl⟩, fun _ => ⟨rfl, rfl, rfl⟩, rfl⟩
    have hbase : s.extLbaBase = 0 := by
      have hag := partitionScan_noExtended (rfl : disk 1 = disk 1) hno depth hself
      rw [hs] at hag
      exact hag.2
    have hag : Agree (AlikeFrom 3 1) (partitionScan disk 3 depth 0 s.reset)
        (partitionScan (fun _ => disk 3) 1 depth 0 .init) :=
      partitionScan_agree (by rfl) depth 0 ⟨halike, hbase⟩
    exact hag.map_eq (fun _ _ hab => hab.1.recorded_eq)
  · have hag : Agree (fun x y => Alike 3 1 x y ∧ x.extLbaBase = s.reset.extLbaBase)
        (partitionScan disk 3 depth 0 s.reset) (partitionScan (fun _ => disk 3) 1 depth 0 .init) :=
      partitionScan_noExtended (by rfl) hno depth halike
    exact hag.map_eq (fun _ _ hab => hab.1.recorded_eq)

end Init

section Extended

/-- The disk has one partition, an extended one that starts at the last sector
    and is empty. -/
def extDisk (k : Nat) : Byte :=
  if k = 450 then 5 else if 454 ≤ k ∧ k < 458 then byteOf maxLba (k - 454) else 0

theorem extDisk_entry : tableEntry extDisk 0 = ⟨5, maxLba, 0⟩ := by decide

theorem extDisk_rest : ∀ i, i < 4 → 0 < i → (tableEntry extDisk i).fsType = 0 := by decide

theorem extDisk_inner :
    ∀ i, i < 4 → (tableEntry (fun k => extDisk (maxLba * sectorSize + k)) i).fsType = 0 := by
  decide

variable {disk : Nat → Nat → Byte} {hd depth : Nat} {s : Scan}

/-- A table without partitions. -/
theorem scanTable_empty {scan : Nat → Scan → Except ScanFault Scan} {bs : Nat → Byte}
    {extLba n k : Nat} (h : ∀ i, k ≤ i → i < k + n → (tableEntry bs i).fsType = 0) :
    scanTable scan hd extLba bs n k s = .ok s := by
  induction n generalizing k with
  | zero => rfl
  | succ n ih =>
      have h0 := h k (Nat.le_refl k) (by omega)
      have hentry : scanEntry scan hd extLba (tableEntry bs k) s = .ok (s, false) := by
        unfold scanEntry
        rw [h0]
        rfl
      rw [scanTable, hentry, ok_bind]
      exact ih (fun i h1 h2 => h i (by omega) (by omega))

/-- Its scan records nothing and leaves the base behind. -/
theorem extDisk_scan (hdisk : disk hd = extDisk) (hbase : s.extLbaBase = 0) (depth : Nat) :
    partitionScan disk hd (depth + 2) 0 s = .ok { s with extLbaBase := maxLba } := by
  have hinner : partitionScan disk hd (depth + 1) maxLba { s with extLbaBase := maxLba } =
      .ok { s with extLbaBase := maxLba } := by
    rw [partitionScan, ensure_pos (Nat.le_refl _), ok_bind, hdisk]
    exact scanTable_empty (fun i _ hi => extDisk_inner i (by omega))
  have hentry : scanEntry (partitionScan disk hd (depth + 1)) hd 0 (tableEntry extDisk 0) s =
      .ok ({ s with extLbaBase := maxLba }, false) := by
    rw [extDisk_entry]
    unfold scanEntry
    rw [if_pos rfl, if_neg (not_not.mpr hbase), hinner]
    rfl
  rw [partitionScan, ensure_pos (Nat.zero_le _), ok_bind, bootSector_eq, hdisk, scanTable, hentry,
    ok_bind]
  exact scanTable_empty (fun i h1 h2 => extDisk_rest i (by omega) (by omega))

/-- A partition that starts behind a base is beyond the last sector if one of
    the two is the last sector. -/
theorem maxLba_lt_add32 {x : Nat} (h0 : x ≠ 0) (hx : x ≤ maxLba) :
    maxLba < add32 x maxLba ∧ maxLba < add32 maxLba x := by
  have hmax : maxLba = 163839 := rfl
  unfold add32
  omega

/-- Where the second scan completes alone and not after the first, the disks are
    not independent. -/
theorem not_independent {s t : Scan} (hs : partitionScan disk 1 depth 0 .init = .ok s)
    (ht : partitionScan (fun _ => disk 3) 1 depth 0 .init = .ok t)
    (hno : ∀ t', partitionScan disk 3 depth 0 s.reset ≠ .ok t') : ¬ Independent depth disk := by
  intro hind
  have h := independent_iff.mp hind s hs
  rw [ht] at h
  cases hr : partitionScan disk 3 depth 0 s.reset with
  | error e =>
      rw [hr] at h
      cases h
  | ok t' => exact hno t' hr

theorem completes_iff : (∃ s, ideInitScan disk depth 2 = .ok s) ↔
    ∃ s, partitionScan disk 1 depth 0 .init = .ok s := by
  rw [ideInitScan_one]
  cases partitionScan disk 1 depth 0 .init with
  | error e =>
      constructor
      · rintro ⟨_, h⟩
        cases h
      · rintro ⟨_, h⟩
        cases h
  | ok s => exact ⟨fun _ => ⟨s, rfl⟩, fun _ => ⟨s.reset, rfl⟩⟩

/-- Whatever is on the second disk, with an extended partition on it there is a
    first disk that keeps it from being scanned. -/
theorem exists_first {d : Nat → Byte} (hd : ∃ s, ideInitScan (fun _ => d) depth 2 = .ok s)
    (hext : ¬ NoExtended d) : ∃ disk : Nat → Nat → Byte, disk 3 = d ∧
      (∃ s, ideInitScan disk depth 2 = .ok s) ∧ ¬ Independent depth disk := by
  rcases completes_iff.mp hd with ⟨t, ht⟩
  rcases partitionScan_finds rfl hext ht with ⟨hdepth, i, hi, h5, h0, hle, -⟩
  rcases Nat.exists_eq_add_of_le' hdepth with ⟨n, rfl⟩
  have hfirst : partitionScan (fun a => if a = 3 then d else extDisk) 1 (n + 2) 0 .init =
      .ok { Scan.init with extLbaBase := maxLba } := extDisk_scan (if_neg (by decide)) rfl n
  refine ⟨fun a => if a = 3 then d else extDisk, if_pos rfl, completes_iff.mpr ⟨_, hfirst⟩, ?_⟩
  refine not_independent hfirst ht (fun t' ht' => ?_)
  have hbehind := partitionScan_behind (show maxLba ≠ 0 by decide) ht' i hi h5
  exact absurd (maxLba_lt_add32 h0 hle).1 (Nat.not_lt.mpr hbehind)

/-- Whatever is on the first disk, with an extended partition on it there is a
    second disk that is not scanned after it. -/
theorem exists_second {d : Nat → Byte} (hd : ∃ s, ideInitScan (fun _ => d) depth 2 = .ok s)
    (hext : ¬ NoExtended d) : ∃ disk : Nat → Nat → Byte, disk 1 = d ∧
      (∃ s, ideInitScan (fun _ => disk 3) depth 2 = .ok s) ∧ ¬ Independent depth disk := by
  -- Counted from the base that the first disk left, the extended partition of the second one is
  -- past the end of the disk.
  rcases completes_iff.mp hd with ⟨s, hs⟩
  rcases partitionScan_finds rfl hext hs with ⟨hdepth, i, hi, h5, h0, hle, hbase⟩
  rcases Nat.exists_eq_add_of_le' hdepth with ⟨n, rfl⟩
  have hself : AlikeFrom 1 1 .init .init :=
    ⟨⟨rfl, rfl, fun _ => ⟨rfl, rfl, rfl⟩, fun _ => ⟨rfl, rfl, rfl⟩, rfl⟩, rfl⟩
  have hag : Agree (AlikeFrom 1 1)
      (partitionScan (fun a => if a = 3 then extDisk else d) 1 (n + 2) 0 .init)
      (partitionScan (fun _ => d) 1 (n + 2) 0 .init) := partitionScan_agree (by rfl) (n + 2) 0 hself
  rcases hag.ok_left hs with ⟨s', hs', halike⟩
  have hbase' : s'.extLbaBase = (tableEntry d i).startLba := halike.2.trans hbase
  have hsecond : partitionScan (fun _ => extDisk) 1 (n + 2) 0 .init =
      .ok { Scan.init with extLbaBase := maxLba } := extDisk_scan rfl rfl n
  refine ⟨fun a => if a = 3 then extDisk else d, if_neg (by decide),
    completes_iff.mpr ⟨_, hsecond⟩, ?_⟩
  refine not_independent hs' hsecond (fun t' ht' => ?_)
  have hne : s'.reset.extLbaBase ≠ 0 := by
    show s'.extLbaBase ≠ 0
    rw [hbase']
    exact h0
  have hbehind : add32 (tableEntry extDisk 0).startLba s'.extLbaBase ≤ maxLba :=
    partitionScan_behind hne ht' 0 (by decide)
      (congrArg PartitionTableEntry.fsType extDisk_entry)
  rw [extDisk_entry] at hbehind
  exact absurd (maxLba_lt_add32 h0 hle).2 (Nat.not_lt.mpr (by rw [← hbase']; exact hbehind))

/-- The second disk is scanned as if it were the first as long as one of the two
    has no extended partition in its first sector. With an extended partition on
    either disk, the other can be one for which it is not. -/
theorem scan_independent (depth : Nat) :
    (∀ disk, NoExtended (disk 1) ∨ NoExtended (disk 3) → Independent depth disk) ∧
    (∀ d, (∃ s, ideInitScan (fun _ => d) depth 2 = .ok s) → ¬ NoExtended d →
      ∃ disk, disk 3 = d ∧ (∃ s, ideInitScan disk depth 2 = .ok s) ∧ ¬ Independent depth disk) ∧
    (∀ d, (∃ s, ideInitScan (fun _ => d) depth 2 = .ok s) → ¬ NoExtended d →
      ∃ disk, disk 1 = d ∧ (∃ s, ideInitScan (fun _ => disk 3) depth 2 = .ok s) ∧
        ¬ Independent depth disk) :=
  ⟨fun _ h => independent_of_noExtended h, fun _ hd hext => exists_first hd hext,
    fun _ hd hext => exists_second hd hext⟩

/-- `scan_independent` for an empty disk before one with an extended
    partition. -/
theorem scan_independent_blank :
    Independent 2 (fun hd => if hd = 3 then extDisk else fun _ => 0) :=
  (scan_independent 2).1 _ (Or.inl (by decide))

/-- Two such disks: each is scanned alone, and together they stop the machine. -/
theorem scan_after_extended :
    (∃ s, ideInitScan (fun _ => extDisk) 2 2 = .ok s) ∧
      ideInitScan (fun _ => extDisk) 2 4 = .error .assertion ∧
      ¬ Independent 2 (fun _ => extDisk) := by
  have hscan : partitionScan (fun _ => extDisk) 1 2 0 .init =
      .ok { Scan.init with extLbaBase := maxLba } := extDisk_scan rfl rfl 0
  have hno : ∀ t', partitionScan (fun _ => extDisk) 3 2 0
      (Scan.reset { Scan.init with extLbaBase := maxLba }) ≠ .ok t' := by
    intro t' ht'
    have hbehind := partitionScan_behind (show maxLba ≠ 0 by decide) ht' 0 (by decide)
      (congrArg PartitionTableEntry.fsType extDisk_entry)
    revert hbehind
    rw [extDisk_entry]
    decide
  exact ⟨completes_iff.mpr ⟨_, hscan⟩, rfl, not_independent hscan hscan hno⟩

end Extended

end ForikOS
