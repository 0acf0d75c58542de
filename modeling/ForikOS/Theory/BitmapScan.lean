import ForikOS.Theory.Bitmap
import Mathlib.Order.Bounds.Basic

/-!
# What bitmap_scan Returns

Whether the answer of `bitmap_scan` is the one its callers rely on: the first
run of clear bits that fits, or `-1` if none does, and in either case an answer
about the bitmap and not about the memory behind it.

The last loop reads the bit behind the bitmap. Where a run fits it ends before
that bit is reached, so first fit holds without a condition. Where none fits
there are two ways to go wrong. A bitmap without a clear bit fails the
assertion in front of the test that would have returned `-1`, and if the last
`cnt - 1` bits are clear, the bit behind the bitmap decides whether they count
as a run.

## Main definitions

* `SameBitmap`: Two memories that hold the same bitmap.
* `ReportsFailure`: The answer is `-1`, whatever lies behind the bitmap.
* `TailClear`: The last `cnt - 1` bits are clear.

## Theorems

* `bitmapScan_first_fit`: Where a run fits, the first one is returned, and
  marking it changes its bits and no others.
* `bitmapScan_behind`: A run that needs the bit behind the bitmap is found.
* `scan_failure_iff`: When `-1` is returned for want of a run.
* `bitmapScanWord_eq`: The variables of 32 bits are wide enough.
-/

namespace ForikOS

/-- Two memories hold the same bitmap. What lies behind it may differ. -/
structure SameBitmap (b b' : Bitmap) : Prop where
  len : b'.btmpBytesLen = b.btmpBytesLen
  bits : ∀ i, i < b.btmpBytesLen → b'.bits i = b.bits i

/-- `bitmap_scan` returns `-1`, whatever lies behind the bitmap. -/
def ReportsFailure (b : Bitmap) (cnt : Nat) : Prop :=
  ∀ b', SameBitmap b b' → bitmapScan b' cnt = .ok none

/-- The last `cnt - 1` bits of the bitmap are clear. -/
def TailClear (b : Bitmap) (cnt : Nat) : Prop :=
  cnt - 1 ≤ b.btmpBytesLen * 8 ∧ ClearRun b (cnt - 1) (b.btmpBytesLen * 8 - (cnt - 1))

namespace SameBitmap

variable {b b' : Bitmap}

theorem symm (h : SameBitmap b b') : SameBitmap b' b where
  len := h.len.symm
  bits i hi := (h.bits i (by rw [← h.len]; exact hi)).symm

theorem test (h : SameBitmap b b') {i : Nat} (hi : i < b.btmpBytesLen * 8) :
    bitmapScanTest b' i = bitmapScanTest b i := by
  rw [bitmapScanTest_eq, bitmapScanTest_eq, h.bits (i / 8) (by omega)]

theorem freeRun (h : SameBitmap b b') {cnt s : Nat} (hs : FreeRun b cnt s) : FreeRun b' cnt s := by
  refine ⟨by rw [h.len]; exact hs.1, fun i h1 h2 => ?_⟩
  have hin : i < b.btmpBytesLen * 8 := Nat.lt_of_lt_of_le h2 hs.1
  rw [h.test hin]
  exact hs.2 i h1 h2

end SameBitmap

section FirstFit

variable {b : Bitmap} {cnt : Nat}

/-- The scan returns the least start of a run that fits, for every memory that
    holds the bitmap. -/
theorem bitmapScan_least (hcnt : 1 ≤ cnt) {s : Nat} (hs : IsLeast {s | FreeRun b cnt s} s)
    {b' : Bitmap} (hsame : SameBitmap b b') : bitmapScan b' cnt = .ok (some s) := by
  rcases bitmapScan_fit hcnt (hsame.freeRun hs.1) with ⟨s', hscan, hfree, hfirst⟩
  have hle : s ≤ s' := hs.2 (hsame.symm.freeRun hfree)
  have hge : s' ≤ s := hfirst s (hsame.freeRun hs.1)
  rw [hscan, Nat.le_antisymm hge hle]

end FirstFit

/-- First fit: where a run of `cnt` clear bits lies in the bitmap, the least
    start of one is returned, whatever lies behind the bitmap. Setting the bits
    of the run changes these bits, in a bitmap of the same length. -/
theorem bitmapScan_first_fit (b : Bitmap) (cnt : Nat) (hcnt : 1 ≤ cnt)
    (hrun : ∃ s, FreeRun b cnt s) :
    ∃ s, IsLeast {s | FreeRun b cnt s} s ∧
      (∀ b', SameBitmap b b' → bitmapScan b' cnt = .ok (some s)) ∧
      (bitmapSetRange b s true cnt).btmpBytesLen = b.btmpBytesLen ∧
      ∀ i, bitmapScanTest (bitmapSetRange b s true cnt) i ≠ bitmapScanTest b i ↔
        s ≤ i ∧ i < s + cnt := by
  rcases hrun with ⟨s₀, hs₀⟩
  rcases bitmapScan_fit hcnt hs₀ with ⟨s, -, hfree, hfirst⟩
  have hleast : IsLeast {s | FreeRun b cnt s} s := ⟨hfree, fun s' hs' => hfirst s' hs'⟩
  refine ⟨s, hleast, fun b' => bitmapScan_least hcnt hleast, bitmapSetRange_len b s true cnt, ?_⟩
  intro i
  rw [bitmapScanTest_setRange]
  by_cases hi : s ≤ i ∧ i < s + cnt
  · -- The bits of the run were clear.
    rw [if_pos hi, hfree.2 i hi.1 hi.2]
    exact ⟨fun _ => hi, fun _ => Bool.noConfusion⟩
  · rw [if_neg hi]
    exact ⟨fun hc => absurd rfl hc, fun hc => absurd hc hi⟩

/-- Three bits are asked for, and the two at the beginning are too few. -/
theorem bitmapScan_first_fit_gap :
    ∃ s, IsLeast {s | FreeRun ⟨2, fun _ => 0xc4⟩ 3 s} s ∧
      (∀ b', SameBitmap ⟨2, fun _ => 0xc4⟩ b' → bitmapScan b' 3 = .ok (some s)) ∧
      (bitmapSetRange ⟨2, fun _ => 0xc4⟩ s true 3).btmpBytesLen = 2 ∧
      ∀ i, bitmapScanTest (bitmapSetRange ⟨2, fun _ => 0xc4⟩ s true 3) i ≠
          bitmapScanTest ⟨2, fun _ => 0xc4⟩ i ↔ s ≤ i ∧ i < s + 3 := by
  refine bitmapScan_first_fit ⟨2, fun _ => 0xc4⟩ 3 (by decide) ⟨3, by decide, fun i h1 h2 => ?_⟩
  rcases (by omega : i = 3 ∨ i = 4 ∨ i = 5) with h | h | h <;> rw [h] <;> decide

section Failure

variable {b : Bitmap} {cnt : Nat}

/-- A bitmap without a clear bit fails the assertion. -/
theorem bitmapScan_full (h : Full b) (cnt : Nat) : bitmapScan b cnt = .error .bitmapScan := by
  have hstop : ¬ scanBytes b b.btmpBytesLen 0 < b.btmpBytesLen := by
    intro hlt
    have hstart := scanStart_spec hlt
    have hpos : 0 < freeCount b := Finset.card_pos.mpr
      ⟨_, Finset.mem_filter.mpr ⟨Finset.mem_range.mpr hstart.1, hstart.2.1⟩⟩
    unfold Full at h
    omega
  unfold bitmapScan ensure
  rw [if_neg hstop]
  rfl

theorem SameBitmap.full_iff {b' : Bitmap} (h : SameBitmap b b') : Full b' ↔ Full b := by
  have hfilter : (Finset.range (b'.btmpBytesLen * 8)).filter (fun i => bitmapScanTest b' i = false) =
      (Finset.range (b.btmpBytesLen * 8)).filter (fun i => bitmapScanTest b i = false) := by
    ext i
    rw [Finset.mem_filter, Finset.mem_filter, h.len, Finset.mem_range]
    exact and_congr_right (fun hi => by rw [h.test hi])
  unfold Full freeCount
  rw [hfilter]

/-- Without a run in the bitmap, what the scan returns ends one bit behind it. -/
theorem bitmapScan_end (hcnt : 1 ≤ cnt) (hno : ∀ s, ¬ FreeRun b cnt s) {s : Nat}
    (h : bitmapScan b cnt = .ok (some s)) : TailClear b cnt := by
  rcases bind_eq_ok.mp h with ⟨u, hu, hr⟩
  rw [Except.ok.injEq] at hr
  have hwithin := scanRest_within hr
  have hfound := (bitmapScan_found hcnt h).1
  have hend : s + cnt = b.btmpBytesLen * 8 + 1 := by
    by_contra hc
    exact hno s ⟨by omega, hfound⟩
  have hs : b.btmpBytesLen * 8 - (cnt - 1) = s := by omega
  refine ⟨by omega, fun i h1 h2 => ?_⟩
  rw [hs] at h1 h2
  exact hfound i h1 (by omega)

/-- A run that ends with the bit behind the bitmap is returned. -/
theorem bitmapScan_behind (hcnt : 1 ≤ cnt) (hfull : ¬ Full b) (hno : ∀ s, ¬ FreeRun b cnt s)
    (htail : TailClear b cnt) (hbit : bitmapScanTest b (b.btmpBytesLen * 8) = false) :
    ∃ s, bitmapScan b cnt = .ok (some s) := by
  have hfree : 0 < freeCount b := Nat.pos_of_ne_zero hfull
  rcases exists_clear hfree with ⟨i, hi, hclear⟩
  have hlt := scanBytes_lt hi hclear
  have hone : cnt ≠ 1 := by
    intro hc
    refine hno i ⟨by omega, fun j h1 h2 => ?_⟩
    have hj : j = i := by omega
    rw [hj]
    exact hclear
  have hstart := scanStart_spec hlt
  rw [bitmapScan_of_free hfree, bitmapScanRest]
  dsimp only at hstart ⊢
  rw [if_neg (Nat.ne_of_lt hlt), if_neg hone]
  generalize scanBytes b b.btmpBytesLen 0 * 8
    + scanBits (b.bits (scanBytes b b.btmpBytesLen 0)) 8 0 = start at *
  -- The last loop goes on to the bit behind the bitmap, where the run ends.
  have hspec := scanRun_spec b cnt (b.btmpBytesLen * 8 - start) (start + 1) 1 (by omega) (by omega)
    (fun j h1 h2 => by
      have hj : j = start := by omega
      rw [hj]
      exact hstart.2.1)
    (fun s hs hrun => by
      have hfalse := hrun s (by omega) (by omega)
      rw [hstart.2.2 s (by omega)] at hfalse
      cases hfalse)
  cases hres : scanRun b cnt (b.btmpBytesLen * 8 - start) (start + 1) 1 with
  | some s => exact ⟨s, rfl⟩
  | none =>
      have htoo := hspec.2 hres (b.btmpBytesLen * 8 - (cnt - 1)) (fun j h1 h2 => by
        by_cases hj : j = b.btmpBytesLen * 8
        · rw [hj]
          exact hbit
        · exact htail.2 j h1 (by have := htail.1; omega))
      have hfits := htail.1
      omega

/-- The bitmap with zeros behind it. -/
def zerosBehind (b : Bitmap) : Bitmap :=
  { b with bits := fun i => if i < b.btmpBytesLen then b.bits i else 0 }

theorem sameBitmap_zerosBehind (b : Bitmap) : SameBitmap b (zerosBehind b) where
  len := rfl
  bits _ hi := if_pos hi

theorem zerosBehind_bit (b : Bitmap) :
    bitmapScanTest (zerosBehind b) (b.btmpBytesLen * 8) = false := by
  have hbyte : (zerosBehind b).bits (b.btmpBytesLen * 8 / 8) = 0 := if_neg (by omega)
  rw [bitmapScanTest_eq, hbyte]
  exact BitVec.getLsbD_zero

end Failure

/-- Where no run of `cnt` clear bits lies in the bitmap, `bitmap_scan` reports
    that exactly if some bit is clear and the last `cnt - 1` are not all. -/
theorem scan_failure_iff (b : Bitmap) (cnt : Nat) (hcnt : 1 ≤ cnt)
    (hno : ∀ s, ¬ FreeRun b cnt s) :
    ReportsFailure b cnt ↔ ¬ Full b ∧ ¬ TailClear b cnt := by
  constructor
  · intro h
    have hfull : ¬ Full b := by
      intro hc
      have hself := h b ⟨rfl, fun _ _ => rfl⟩
      rw [bitmapScan_full hc] at hself
      cases hself
    refine ⟨hfull, fun htail => ?_⟩
    -- With a zero behind the bitmap its end counts as a run.
    have hsame := sameBitmap_zerosBehind b
    have htail' : TailClear (zerosBehind b) cnt := by
      refine ⟨htail.1, fun i h1 h2 => ?_⟩
      have hlen : (zerosBehind b).btmpBytesLen = b.btmpBytesLen := rfl
      rw [hlen] at h1 h2
      rw [hsame.test (by have := htail.1; omega)]
      exact htail.2 i h1 h2
    rcases bitmapScan_behind hcnt (mt hsame.full_iff.mp hfull)
      (fun s hs => hno s (hsame.symm.freeRun hs)) htail' (zerosBehind_bit b) with ⟨s, hs⟩
    rw [h _ hsame] at hs
    cases hs
  · rintro ⟨hfull, htail⟩ b' hsame
    have hfull' : ¬ Full b' := mt hsame.full_iff.mp hfull
    rw [bitmapScan_of_free (Nat.pos_of_ne_zero hfull')]
    cases hres : bitmapScanRest b' cnt with
    | none => rfl
    | some s =>
        have hscan : bitmapScan b' cnt = .ok (some s) := by
          rw [bitmapScan_of_free (Nat.pos_of_ne_zero hfull'), hres]
        have htail' := bitmapScan_end hcnt (fun s hs => hno s (hsame.symm.freeRun hs)) hscan
        refine absurd ⟨?_, fun i h1 h2 => ?_⟩ htail
        · rw [← hsame.len]
          exact htail'.1
        · have hfits := htail'.1
          rw [hsame.len] at hfits
          have hin : i < b.btmpBytesLen * 8 := by omega
          rw [← hsame.test hin]
          refine htail'.2 i ?_ ?_ <;> rw [hsame.len] <;> assumption

/-- One clear bit in the middle, and two bits asked for. -/
theorem scan_failure_middle : ReportsFailure ⟨1, fun _ => 0xef⟩ 2 := by
  refine (scan_failure_iff ⟨1, fun _ => 0xef⟩ 2 (by decide) (fun s hs => ?_)).mpr ⟨?_, fun h => ?_⟩
  · -- Of two bits in a row one is not the clear bit.
    have hlen : s + 2 ≤ 8 := hs.1
    have hset : ∀ s, s < 7 → bitmapScanTest ⟨1, fun _ => 0xef⟩ s = true ∨
        bitmapScanTest ⟨1, fun _ => 0xef⟩ (s + 1) = true := by decide
    rcases hset s (by omega) with h | h
    · exact absurd (hs.2 s (by omega) (by omega)) (by rw [h]; decide)
    · exact absurd (hs.2 (s + 1) (by omega) (by omega)) (by rw [h]; decide)
  · unfold Full
    decide
  · have h7 : bitmapScanTest ⟨1, fun _ => 0xef⟩ 7 = false := h.2 7 (by decide) (by decide)
    revert h7
    decide

/-- A full bitmap stops the machine, and a clear bit at the end of a bitmap
    makes a run of two with a clear bit behind it. -/
theorem scan_past_end :
    ¬ (∀ b cnt, 1 ≤ cnt → (∀ s, ¬ FreeRun b cnt s) → ReportsFailure b cnt) ∧
      bitmapScan ⟨1, fun _ => 0xff⟩ 1 = .error .bitmapScan ∧
      bitmapScan ⟨1, fun i => if i = 0 then 0x7f else 0⟩ 2 = .ok (some 7) := by
  refine ⟨fun h => ?_, rfl, rfl⟩
  have hno : ∀ s, ¬ FreeRun ⟨1, fun _ => 0xff⟩ 1 s := by
    intro s hs
    have hlen : s + 1 ≤ 8 := hs.1
    have hset : ∀ s, s < 8 → bitmapScanTest ⟨1, fun _ => 0xff⟩ s = true := by decide
    exact absurd (hs.2 s (by omega) (by omega)) (by rw [hset s (by omega)]; decide)
  have hfail := h _ 1 (by decide) hno _ ⟨rfl, fun _ _ => rfl⟩
  cases hfail

section Words

variable {b : Bitmap} {cnt : BitVec 32}

/-- The answer in the 32 bits that are returned. -/
def scanReturn : Option Nat → BitVec 32
  | none => -1
  | some s => BitVec.ofNat 32 s

/-- The last loop, as long as the bits it goes through can be counted. -/
theorem scanRunWord_eq {bitLeft : Nat} {nextBit count : BitVec 32}
    (hnext : nextBit.toNat + bitLeft < 2 ^ 32) (hcount : count.toNat ≤ nextBit.toNat) :
    scanRunWord b cnt bitLeft nextBit count =
      scanReturn (scanRun b cnt.toNat bitLeft nextBit.toNat count.toNat) := by
  induction bitLeft generalizing nextBit count with
  | zero => rfl
  | succ n ih =>
      have hone : (1 : BitVec 32).toNat = 1 := rfl
      obtain ⟨c, hc⟩ : ∃ c, c = if bitmapScanTest b nextBit.toNat then (0 : BitVec 32) else count + 1 :=
        ⟨_, rfl⟩
      have hcnat : c.toNat = if bitmapScanTest b nextBit.toNat then 0 else count.toNat + 1 := by
        rw [hc]
        split
        · rfl
        · rw [BitVec.toNat_add, hone, Nat.mod_eq_of_lt (by omega)]
      have hle : c.toNat ≤ nextBit.toNat + 1 := by
        rw [hcnat]
        split <;> omega
      have hsucc : (nextBit + 1).toNat = nextBit.toNat + 1 := by
        rw [BitVec.toNat_add, hone, Nat.mod_eq_of_lt (by omega)]
      unfold scanRunWord scanRun
      dsimp only
      rw [← hc, ← hcnat]
      -- The run cannot be longer than the bits so far, so its start does not wrap around.
      by_cases hfound : c = cnt
      · rw [if_pos hfound, if_pos (congrArg BitVec.toNat hfound), scanReturn, ← hfound]
        refine BitVec.eq_of_toNat_eq ?_
        rw [BitVec.toNat_add, BitVec.toNat_sub, BitVec.toNat_ofNat, hone]
        omega
      · rw [if_neg hfound, if_neg (fun h => hfound (BitVec.eq_of_toNat_eq h)), ← hsucc]
        exact ih (by omega) (by omega)

/-- For a bitmap of less than 2 ^ 28 bytes nothing wraps around, and `bitmap_scan`
    is what it is on natural numbers. -/
theorem bitmapScanWord_eq (hlen : b.btmpBytesLen < 2 ^ 28) :
    bitmapScanWord b cnt = (bitmapScan b cnt.toNat).map scanReturn := by
  unfold bitmapScanWord bitmapScan
  by_cases h : scanBytes b b.btmpBytesLen 0 < b.btmpBytesLen
  · have hstart := (scanStart_spec h).1
    have hcnt : cnt = 1 ↔ cnt.toNat = 1 :=
      ⟨fun hc => by rw [hc]; rfl, fun hc => BitVec.eq_of_toNat_eq hc⟩
    have hone : (1 : BitVec 32).toNat = 1 := rfl
    have height : ∀ x : Nat, BitVec.ofNat 32 x * 8 = BitVec.ofNat 32 (x * 8) :=
      fun x => (BitVec.ofNat_mul x 8).symm
    dsimp only [bitmapScanRest] at hstart ⊢
    rw [ensure_pos h, ok_bind, if_neg (Nat.ne_of_lt h), height, height,
      ← BitVec.ofNat_add]
    -- Neither the first clear bit nor the number of bits takes more than 31 bits.
    generalize scanBytes b b.btmpBytesLen 0 * 8 +
      scanBits (b.bits (scanBytes b b.btmpBytesLen 0)) 8 0 = start at hstart ⊢
    have hnat : (BitVec.ofNat 32 start).toNat = start := by
      rw [BitVec.toNat_ofNat, Nat.mod_eq_of_lt (by omega)]
    have hnext : (BitVec.ofNat 32 start + 1).toNat = start + 1 := by
      rw [BitVec.toNat_add, hnat, hone, Nat.mod_eq_of_lt (by omega)]
    have hleft : (BitVec.ofNat 32 (b.btmpBytesLen * 8) - BitVec.ofNat 32 start).toNat =
        b.btmpBytesLen * 8 - start := by
      rw [BitVec.toNat_sub, hnat, BitVec.toNat_ofNat]
      omega
    by_cases hc : cnt = 1
    · rw [if_pos hc, if_pos (hcnt.mp hc)]
      rfl
    · rw [if_neg hc, if_neg (fun h => hc (hcnt.mpr h)), hleft,
        scanRunWord_eq (by omega) (by rw [hone]; omega), hnext, hone]
      rfl
  · have hstop : ∀ {α : Type} (g : Unit → Except Func α),
        (ensure (scanBytes b b.btmpBytesLen 0 < b.btmpBytesLen) .bitmapScan >>= g) =
          .error .bitmapScan := fun g => by
      rw [ensure, if_neg h]
      rfl
    dsimp only
    rw [hstop, hstop]
    rfl

end Words

end ForikOS
