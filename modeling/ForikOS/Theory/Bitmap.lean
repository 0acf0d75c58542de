import ForikOS.Core.Bitmap
import Mathlib.Data.Finset.Card
import Mathlib.Data.Finset.Range

/-!
# First Fit

What the bitmap operations do to single bits, and that `bitmap_scan` finds
the first run of clear bits that is long enough.

Everything is stated about `bitmapScanTest`. Two bitmaps of one length that
agree on every bit are equal, `bitmap_ext`, so a statement about bits is also
a statement about the bytes in memory.

The scan does not look for a run that ends inside the bitmap: its last loop
reads one bit too many. What saves the callers is the order of the search. A
run that ends inside is met before the bit past the end, so where one exists
the answer is inside, and where the answer is not inside none exists.

## Main definitions

* `ClearRun`: Clear bits in a row, anywhere in memory.
* `FreeRun`: Clear bits in a row inside the bitmap.
* `freeCount`: How many bits of the bitmap are clear.
* `Full`: No bit is clear.

## Theorems

* `bitmapScanTest_set`: Writing a bit changes that bit only.
* `bitmap_ext`: A bitmap is its bits.
* `scanRun_spec`: The last loop returns the first run, if it gets that far.
* `bitmapScan_fit`: Where a run fits the scan returns the first that does.
* `bitmapScan_one`: Asked for one bit the scan returns the first clear one.
* `scanRest_cases`, `scanRest_within`: The scan without its assertion.
-/

namespace ForikOS

/-- Bits `start` to `start + cnt - 1` are clear. -/
def ClearRun (b : Bitmap) (cnt start : Nat) : Prop :=
  ∀ i, start ≤ i → i < start + cnt → bitmapScanTest b i = false

/-- A run of clear bits inside the bitmap. -/
def FreeRun (b : Bitmap) (cnt start : Nat) : Prop :=
  start + cnt ≤ b.btmpBytesLen * 8 ∧ ClearRun b cnt start

/-- The number of clear bits of the bitmap. -/
def freeCount (b : Bitmap) : Nat :=
  ((Finset.range (b.btmpBytesLen * 8)).filter (fun i => bitmapScanTest b i = false)).card

theorem and_mask_ne_zero (x : BitVec 8) {k : Nat} (hk : k < 8) :
    ((x &&& (1#8 <<< k)) != 0) = x.getLsbD k := by
  rw [← BitVec.twoPow_eq, BitVec.and_twoPow]
  have hpow : BitVec.twoPow 8 k ≠ 0#8 := by
    intro hc
    have hbit := BitVec.getLsbD_twoPow (w := 8) k k
    rw [hc, BitVec.getLsbD_zero] at hbit
    simp only [hk, decide_true, Bool.and_true, Bool.false_eq_true] at hbit
  cases hx : x.getLsbD k with
  | true => exact bne_iff_ne.mpr hpow
  | false => rfl

theorem bitmapScanTest_eq (b : Bitmap) (i : Nat) :
    bitmapScanTest b i = (b.bits (i / 8)).getLsbD (i % 8) :=
  and_mask_ne_zero _ (Nat.mod_lt i (by omega))

@[simp] theorem bitmapSet_len (b : Bitmap) (i : Nat) (v : Bool) :
    (bitmapSet b i v).btmpBytesLen = b.btmpBytesLen := rfl

/-- Writing a bit changes that bit only. -/
theorem bitmapScanTest_set (b : Bitmap) (i j : Nat) (v : Bool) :
    bitmapScanTest (bitmapSet b i v) j = if j = i then v else bitmapScanTest b j := by
  rw [bitmapScanTest_eq, bitmapScanTest_eq]
  have hi : i % 8 < 8 := Nat.mod_lt i (by omega)
  have hj : j % 8 < 8 := Nat.mod_lt j (by omega)
  have hpow := BitVec.getLsbD_twoPow (w := 8) (i % 8) (j % 8)
  simp only [bitmapSet, ← BitVec.twoPow_eq]
  by_cases hbyte : j / 8 = i / 8
  · rw [hbyte, Function.update_self]
    by_cases hbit : j = i
    · rw [if_pos hbit, hbit]
      rw [hbit] at hpow
      cases v <;> simp only [if_true, Bool.false_eq_true, if_false, BitVec.getLsbD_or,
        BitVec.getLsbD_and, BitVec.getLsbD_not, hpow, hi, decide_true, Bool.and_self, Bool.or_true,
        Bool.not_true, Bool.and_false]
    · rw [if_neg hbit]
      have hne : i % 8 ≠ j % 8 := by omega
      cases v <;> simp only [if_true, Bool.false_eq_true, if_false, BitVec.getLsbD_or,
        BitVec.getLsbD_and, BitVec.getLsbD_not, hpow, hi, hj, hne, decide_true, decide_false,
        Bool.and_false, Bool.or_false, Bool.not_false, Bool.and_true]
  · rw [Function.update_of_ne hbyte, if_neg (fun hc => hbyte (by rw [hc]))]

/-- A bitmap is its bits. -/
theorem bitmap_ext {a b : Bitmap} (hlen : a.btmpBytesLen = b.btmpBytesLen)
    (h : ∀ i, bitmapScanTest a i = bitmapScanTest b i) : a = b := by
  have hbits : a.bits = b.bits := by
    funext n
    refine BitVec.eq_of_getLsbD_eq (fun k hk => ?_)
    have hn := h (n * 8 + k)
    rw [bitmapScanTest_eq, bitmapScanTest_eq] at hn
    have hdiv : (n * 8 + k) / 8 = n := by omega
    have hmod : (n * 8 + k) % 8 = k := by omega
    rwa [hdiv, hmod] at hn
  cases a
  cases b
  simp only [Bitmap.mk.injEq]
  exact ⟨hlen, hbits⟩

@[simp] theorem bitmapSetRange_len (b : Bitmap) (s : Nat) (v : Bool) (n : Nat) :
    (bitmapSetRange b s v n).btmpBytesLen = b.btmpBytesLen := by
  induction n with
  | zero => rfl
  | succ n ih => exact ih

/-- Marking a run changes the bits of that run only. -/
theorem bitmapScanTest_setRange (b : Bitmap) (s : Nat) (v : Bool) (n j : Nat) :
    bitmapScanTest (bitmapSetRange b s v n) j
      = if s ≤ j ∧ j < s + n then v else bitmapScanTest b j := by
  induction n with
  | zero => exact (if_neg (by omega)).symm
  | succ n ih =>
      rw [bitmapSetRange, bitmapScanTest_set, ih]
      by_cases hj : j = s + n
      · rw [if_pos hj, if_pos (by omega)]
      · rw [if_neg hj]
        by_cases hin : s ≤ j ∧ j < s + n
        · rw [if_pos hin, if_pos (by omega)]
        · rw [if_neg hin, if_neg (by omega)]

/-- Marking a clear run and clearing it again changes nothing. -/
theorem bitmapSetRange_undo {b : Bitmap} {s n : Nat} (h : ClearRun b n s) :
    bitmapSetRange (bitmapSetRange b s true n) s false n = b := by
  refine bitmap_ext (by simp only [bitmapSetRange_len]) (fun j => ?_)
  rw [bitmapScanTest_setRange, bitmapScanTest_setRange]
  by_cases hj : s ≤ j ∧ j < s + n
  · rw [if_pos hj, h j hj.1 hj.2]
  · rw [if_neg hj, if_neg hj]

/-- Setting a clear bit and clearing it again changes nothing. -/
theorem bitmapSet_undo {b : Bitmap} {k : Nat} (hclear : bitmapScanTest b k = false) :
    bitmapSet (bitmapSet b k true) k false = b := by
  have hrun : ClearRun b 1 k := by
    intro i h₁ h₂
    rw [show i = k by omega]
    exact hclear
  exact bitmapSetRange_undo hrun

theorem bitmapScanTest_init {b : Bitmap} {i : Nat} (hi : i < b.btmpBytesLen * 8) :
    bitmapScanTest (bitmapInit b) i = false := by
  rw [bitmapScanTest_eq]
  show (if i / 8 < b.btmpBytesLen then 0#8 else b.bits (i / 8)).getLsbD (i % 8) = false
  rw [if_pos (by omega), BitVec.getLsbD_zero]

/-- The first loop stops at the first byte with a clear bit. -/
theorem scanBytes_spec (b : Bitmap) (n idx : Nat) :
    idx ≤ scanBytes b n idx ∧ scanBytes b n idx ≤ idx + n ∧
      (∀ k, idx ≤ k → k < scanBytes b n idx → b.bits k = 0xff) ∧
      (scanBytes b n idx < idx + n → b.bits (scanBytes b n idx) ≠ 0xff) := by
  induction n generalizing idx with
  | zero =>
      simp only [scanBytes]
      exact ⟨by omega, by omega, fun k h1 h2 => absurd h2 (by omega), fun h => absurd h (by omega)⟩
  | succ n ih =>
      simp only [scanBytes]
      by_cases hff : b.bits idx = 0xff
      · rw [if_pos hff]
        have hrec := ih (idx + 1)
        refine ⟨by omega, by omega, ?_, fun h => hrec.2.2.2 (by omega)⟩
        intro k h1 h2
        by_cases hk : k = idx
        · rw [hk]
          exact hff
        · exact hrec.2.2.1 k (by omega) h2
      · rw [if_neg hff]
        exact ⟨by omega, by omega, fun k h1 h2 => absurd h2 (by omega), fun _ => hff⟩

/-- The second loop stops at the first clear bit of the byte. -/
theorem scanBits_spec (byte : BitVec 8) (n k : Nat) (hn : k + n = 8) :
    k ≤ scanBits byte n k ∧ scanBits byte n k ≤ 8 ∧
      (∀ i, k ≤ i → i < scanBits byte n k → byte.getLsbD i = true) ∧
      (scanBits byte n k < 8 → byte.getLsbD (scanBits byte n k) = false) := by
  induction n generalizing k with
  | zero =>
      simp only [scanBits]
      exact ⟨by omega, by omega, fun i h1 h2 => absurd h2 (by omega), fun h => absurd h (by omega)⟩
  | succ n ih =>
      have hbit := and_mask_ne_zero byte (k := k) (by omega)
      rw [BitVec.and_comm] at hbit
      simp only [scanBits]
      -- The scan goes on over a set bit and stops at a clear one.
      by_cases hset : (1#8 <<< k) &&& byte ≠ 0
      · rw [if_pos hset]
        have hrec := ih (k + 1) (by omega)
        have htrue : byte.getLsbD k = true := by
          rw [← hbit, bne_iff_ne]
          exact hset
        refine ⟨by omega, hrec.2.1, ?_, hrec.2.2.2⟩
        intro i h1 h2
        by_cases hi : i = k
        · rw [hi]
          exact htrue
        · exact hrec.2.2.1 i (by omega) h2
      · rw [if_neg hset]
        have hfalse : byte.getLsbD k = false := by
          rw [← hbit, ← Bool.not_eq_true, bne_iff_ne]
          exact hset
        exact ⟨by omega, by omega, fun i h1 h2 => absurd h2 (by omega), fun _ => hfalse⟩

theorem scanBits_lt {byte : BitVec 8} (h : byte ≠ 0xff) : scanBits byte 8 0 < 8 := by
  have hspec := scanBits_spec byte 8 0 (by omega)
  by_contra hc
  refine h (BitVec.eq_of_getLsbD_eq (fun i hi => ?_))
  have hset := hspec.2.2.1 i (by omega) (by omega)
  have hff : (0xff : BitVec 8) = BitVec.allOnes 8 := by decide
  rw [hset, hff, BitVec.getLsbD_allOnes, decide_eq_true hi]

/-- The first two loops together find the first clear bit. -/
theorem scanStart_spec {b : Bitmap} (h : scanBytes b b.btmpBytesLen 0 < b.btmpBytesLen) :
    let s := scanBytes b b.btmpBytesLen 0 * 8 + scanBits (b.bits (scanBytes b b.btmpBytesLen 0)) 8 0
    s < b.btmpBytesLen * 8 ∧ bitmapScanTest b s = false ∧
      ∀ i, i < s → bitmapScanTest b i = true := by
  have hbytes := scanBytes_spec b b.btmpBytesLen 0
  generalize scanBytes b b.btmpBytesLen 0 = r at *
  have hne := hbytes.2.2.2 (by omega)
  have hlt := scanBits_lt hne
  have hbits := scanBits_spec (b.bits r) 8 0 (by omega)
  generalize scanBits (b.bits r) 8 0 = k at *
  refine ⟨by omega, ?_, ?_⟩
  · rw [bitmapScanTest_eq, show (r * 8 + k) / 8 = r by omega, show (r * 8 + k) % 8 = k by omega]
    exact hbits.2.2.2 hlt
  · intro i hi
    rw [bitmapScanTest_eq]
    by_cases hr : i / 8 = r
    · rw [hr]
      exact hbits.2.2.1 (i % 8) (by omega) (by omega)
    · have hff : (0xff : BitVec 8) = BitVec.allOnes 8 := by decide
      rw [hbytes.2.2.1 (i / 8) (by omega) (by omega), hff, BitVec.getLsbD_allOnes]
      exact decide_eq_true (Nat.mod_lt i (by omega))

/-- The last loop returns the first run of `cnt` clear bits, or there is none
    that ends before the loop does. `count` clear bits end at `nextBit`, and no
    run starts before them. -/
theorem scanRun_spec (b : Bitmap) (cnt bitLeft nextBit count : Nat) (hc : count < cnt)
    (hn : count ≤ nextBit) (hrun : ClearRun b count (nextBit - count))
    (hfirst : ∀ s, s < nextBit - count → ¬ ClearRun b cnt s) :
    (∀ s, scanRun b cnt bitLeft nextBit count = some s →
      ClearRun b cnt s ∧ s + cnt ≤ nextBit + bitLeft ∧ ∀ s', s' < s → ¬ ClearRun b cnt s') ∧
    (scanRun b cnt bitLeft nextBit count = none →
      ∀ s, ClearRun b cnt s → nextBit + bitLeft < s + cnt) := by
  induction bitLeft generalizing nextBit count with
  | zero =>
      refine ⟨fun s h => absurd h (by simp only [scanRun, reduceCtorEq, not_false_eq_true]), ?_⟩
      intro _ s hs
      have hge : nextBit - count ≤ s := by
        by_contra hlt
        exact hfirst s (by omega) hs
      omega
  | succ bitLeft ih =>
      rw [scanRun]
      cases hbit : bitmapScanTest b nextBit with
      | true =>
          simp only [if_true]
          rw [if_neg (by omega)]
          -- A run cannot contain the set bit, so the first one starts after it.
          have hfirst' : ∀ s, s < nextBit + 1 - 0 → ¬ ClearRun b cnt s := by
            intro s hs hs'
            by_cases hold : s < nextBit - count
            · exact hfirst s hold hs'
            · have hfalse := hs' nextBit (by omega) (by omega)
              rw [hbit] at hfalse
              cases hfalse
          have hrec := ih (nextBit + 1) 0 (by omega) (by omega)
            (fun i h1 h2 => absurd h2 (by omega)) hfirst'
          rw [show nextBit + (bitLeft + 1) = nextBit + 1 + bitLeft by omega]
          exact hrec
      | false =>
          simp only [Bool.false_eq_true, if_false]
          have hlonger : ClearRun b (count + 1) (nextBit - count) := by
            intro i h1 h2
            by_cases hi : i = nextBit
            · rw [hi]
              exact hbit
            · exact hrun i h1 (by omega)
          by_cases hdone : count + 1 = cnt
          · rw [if_pos hdone, show nextBit + 1 - cnt = nextBit - count by omega]
            refine ⟨?_, fun h => absurd h (by simp only [reduceCtorEq, not_false_eq_true])⟩
            intro s hs
            rw [Option.some.injEq] at hs
            rw [← hs, ← hdone]
            refine ⟨hlonger, by omega, ?_⟩
            rw [hdone]
            exact hfirst
          · rw [if_neg hdone]
            have hsub : nextBit + 1 - (count + 1) = nextBit - count := by omega
            have hrec := ih (nextBit + 1) (count + 1) (by omega) (by omega)
              (by rw [hsub]; exact hlonger) (by rw [hsub]; exact hfirst)
            rw [show nextBit + (bitLeft + 1) = nextBit + 1 + bitLeft by omega]
            exact hrec

/-- A clear bit inside the bitmap keeps the first loop inside it. -/
theorem scanBytes_lt {b : Bitmap} {i : Nat} (hi : i < b.btmpBytesLen * 8)
    (hclear : bitmapScanTest b i = false) : scanBytes b b.btmpBytesLen 0 < b.btmpBytesLen := by
  have hspec := scanBytes_spec b b.btmpBytesLen 0
  by_contra hc
  have hff := hspec.2.2.1 (i / 8) (by omega) (by omega)
  rw [bitmapScanTest_eq, hff, show (0xff : BitVec 8) = BitVec.allOnes 8 by decide,
    BitVec.getLsbD_allOnes, decide_eq_true (Nat.mod_lt i (by omega))] at hclear
  cases hclear

/-- Where a run fits, `bitmap_scan` returns the first that does. -/
theorem bitmapScan_fit {b : Bitmap} {cnt : Nat} (hcnt : 1 ≤ cnt) {s₀ : Nat}
    (h : FreeRun b cnt s₀) :
    ∃ s, bitmapScan b cnt = .ok (some s) ∧ FreeRun b cnt s ∧ ∀ s', FreeRun b cnt s' → s ≤ s' := by
  have hlt : scanBytes b b.btmpBytesLen 0 < b.btmpBytesLen := by
    have hlen := h.1
    exact scanBytes_lt (i := s₀) (by omega) (h.2 s₀ (by omega) (by omega))
  have hstart := scanStart_spec hlt
  simp only [bitmapScan, ensure, hlt, if_true, bind, Except.bind, bitmapScanRest, Nat.ne_of_lt hlt,
    if_false, Except.ok.injEq]
  generalize scanBytes b b.btmpBytesLen 0 * 8 + scanBits (b.bits (scanBytes b b.btmpBytesLen 0)) 8 0
    = start at *
  -- All bits in front of the start are set, so no run begins there.
  have hfirst : ∀ s, s < start → ¬ ClearRun b cnt s := by
    intro s hs hrun
    have hfalse := hrun s (by omega) (by omega)
    rw [hstart.2.2 s hs] at hfalse
    cases hfalse
  by_cases hone : cnt = 1
  · rw [if_pos hone]
    refine ⟨start, rfl, ⟨by omega, ?_⟩, ?_⟩
    · intro i h1 h2
      rw [show i = start by omega]
      exact hstart.2.1
    · intro s' hs'
      by_contra hc
      exact hfirst s' (by omega) hs'.2
  · -- The start counts as the first bit of the run, and the scan goes on behind it.
    rw [if_neg hone]
    have hspec := scanRun_spec b cnt (b.btmpBytesLen * 8 - start) (start + 1) 1 (by omega)
      (by omega) (by
        intro i h1 h2
        rw [show i = start by omega]
        exact hstart.2.1) (by
        rw [Nat.add_sub_cancel]
        exact hfirst)
    have hlen := h.1
    cases hres : scanRun b cnt (b.btmpBytesLen * 8 - start) (start + 1) 1 with
    | none =>
        -- The scan passed by no run, and there is one.
        have hend := hspec.2 hres s₀ h.2
        omega
    | some s =>
        have hfound := hspec.1 s hres
        have hle : ∀ s', ClearRun b cnt s' → s ≤ s' := by
          intro s' hs'
          by_contra hc
          exact hfound.2.2 s' (by omega) hs'
        have hin := hle s₀ h.2
        exact ⟨s, rfl, ⟨by omega, hfound.1⟩, fun s' hs' => hle s' hs'.2⟩

/-- Asked for one bit, `bitmap_scan` returns the first clear one, or stops the
    machine. -/
theorem bitmapScan_one {b : Bitmap} {r : Option Nat} (h : bitmapScan b 1 = .ok r) :
    ∃ s, r = some s ∧ s < b.btmpBytesLen * 8 ∧ bitmapScanTest b s = false ∧
      ∀ i, i < s → bitmapScanTest b i = true := by
  rcases bind_eq_ok.mp h with ⟨u, hu, hr⟩
  have hlt := ensure_eq_ok.mp hu
  have hstart := scanStart_spec hlt
  refine ⟨_, ?_, hstart⟩
  rw [Except.ok.injEq] at hr
  rw [← hr]
  simp only [bitmapScanRest, Nat.ne_of_lt hlt, if_false, if_true]

/-- What `bitmap_scan` returns is a run of clear bits, which may end one bit
    after the bitmap. -/
theorem bitmapScan_found {b : Bitmap} {cnt s : Nat} (hcnt : 1 ≤ cnt)
    (h : bitmapScan b cnt = .ok (some s)) : ClearRun b cnt s ∧ s ≤ b.btmpBytesLen * 8 := by
  -- One bit is found by the first scan; more bits are counted from there on.
  by_cases hone : cnt = 1
  · rw [hone] at h ⊢
    rcases bitmapScan_one h with ⟨s', hs', hlt, hclear, -⟩
    rw [Option.some.inj hs']
    refine ⟨fun i h1 h2 => ?_, by omega⟩
    rw [show i = s' by omega]
    exact hclear
  · rcases bind_eq_ok.mp h with ⟨u, hu, hr⟩
    have hlt := ensure_eq_ok.mp hu
    have hstart := scanStart_spec hlt
    rw [Except.ok.injEq, bitmapScanRest] at hr
    dsimp only at hr
    rw [if_neg (Nat.ne_of_lt hlt), if_neg hone] at hr
    generalize scanBytes b b.btmpBytesLen 0 * 8
      + scanBits (b.bits (scanBytes b b.btmpBytesLen 0)) 8 0 = start at *
    have hspec := scanRun_spec b cnt (b.btmpBytesLen * 8 - start) (start + 1) 1 (by omega)
      (by omega) (by
        intro i h1 h2
        rw [show i = start by omega]
        exact hstart.2.1) (by
        intro s' hs' hrun
        have hfalse := hrun s' (by omega) (by omega)
        rw [hstart.2.2 s' (by omega)] at hfalse
        cases hfalse)
    have hfound := hspec.1 s hr
    exact ⟨hfound.1, by omega⟩

theorem exists_clear {b : Bitmap} (h : 0 < freeCount b) :
    ∃ s, s < b.btmpBytesLen * 8 ∧ bitmapScanTest b s = false := by
  rcases Finset.card_pos.mp h with ⟨s, hs⟩
  rw [Finset.mem_filter, Finset.mem_range] at hs
  exact ⟨s, hs⟩

/-- With a clear bit the assertion of `bitmap_scan` holds. -/
theorem bitmapScan_of_free {b : Bitmap} (h : 0 < freeCount b) (cnt : Nat) :
    bitmapScan b cnt = .ok (bitmapScanRest b cnt) := by
  rcases exists_clear h with ⟨i, hi, hclear⟩
  rw [bitmapScan, ensure_pos (scanBytes_lt hi hclear), ok_bind]

theorem freeCount_init (b : Bitmap) : freeCount (bitmapInit b) = b.btmpBytesLen * 8 := by
  rw [freeCount, Finset.filter_true_of_mem, Finset.card_range]
  · rfl
  · intro i hi
    exact bitmapScanTest_init (Finset.mem_range.mp hi)

/-- Setting a clear bit leaves one clear bit less. -/
theorem freeCount_set {b : Bitmap} {s : Nat} (hs : s < b.btmpBytesLen * 8)
    (hclear : bitmapScanTest b s = false) : freeCount (bitmapSet b s true) + 1 = freeCount b := by
  have hmem : s ∈ (Finset.range (b.btmpBytesLen * 8)).filter
      (fun i => bitmapScanTest b i = false) := by
    rw [Finset.mem_filter, Finset.mem_range]
    exact ⟨hs, hclear⟩
  have herase : (Finset.range (b.btmpBytesLen * 8)).filter
      (fun i => bitmapScanTest (bitmapSet b s true) i = false)
        = ((Finset.range (b.btmpBytesLen * 8)).filter
          (fun i => bitmapScanTest b i = false)).erase s := by
    ext i
    rw [Finset.mem_erase, Finset.mem_filter, Finset.mem_filter, bitmapScanTest_set]
    by_cases hi : i = s
    · simp only [hi, if_true, Bool.true_eq_false, and_false, ne_eq, not_true_eq_false, false_and]
    · simp only [hi, if_false, ne_eq, not_false_eq_true, true_and]
  rw [freeCount, freeCount, bitmapSet_len, herase]
  exact Finset.card_erase_add_one hmem

/-- No bit of a bitmap is clear. -/
def Full (b : Bitmap) : Prop := freeCount b = 0

theorem bitmapSet_ne {b : Bitmap} {k : Nat} (hclear : bitmapScanTest b k = false) :
    bitmapSet b k true ≠ b := by
  intro h
  have hset := bitmapScanTest_set b k k true
  rw [h, hclear, if_pos rfl] at hset
  cases hset

/-- Without its assertion `bitmap_scan` finds a clear bit or returns `-1`. -/
theorem scanRest_cases (b : Bitmap) : (Full b ∧ bitmapScanRest b 1 = none) ∨
    ∃ k, k < b.btmpBytesLen * 8 ∧ bitmapScanTest b k = false ∧ bitmapScanRest b 1 = some k := by
  by_cases hlt : scanBytes b b.btmpBytesLen 0 < b.btmpBytesLen
  · have hspec := scanStart_spec hlt
    refine Or.inr ⟨_, hspec.1, hspec.2.1, ?_⟩
    rw [bitmapScanRest, if_neg (by omega), if_pos rfl]
  · have hbound := (scanBytes_spec b b.btmpBytesLen 0).2.1
    refine Or.inl ⟨?_, ?_⟩
    · by_contra hfull
      rcases exists_clear (Nat.pos_of_ne_zero hfull) with ⟨i, hi, hclear⟩
      exact hlt (scanBytes_lt hi hclear)
    · rw [bitmapScanRest, if_pos (by omega)]

theorem full_iff (b : Bitmap) : Full b ↔ bitmapScanRest b 1 = none := by
  rcases scanRest_cases b with ⟨hfull, hnone⟩ | ⟨k, hk, hclear, hsome⟩
  · exact ⟨fun _ => hnone, fun _ => hfull⟩
  · refine ⟨fun hfull => ?_, fun hnone => ?_⟩
    · have hpos : 0 < freeCount b :=
        Finset.card_pos.mpr ⟨k, Finset.mem_filter.mpr ⟨Finset.mem_range.mpr hk, hclear⟩⟩
      rw [Full] at hfull
      omega
    · rw [hnone] at hsome
      cases hsome

/-- However many bits are asked for, the last loop stays in its range. -/
theorem scanRun_le {b : Bitmap} {cnt bitLeft nextBit count s : Nat} (hn : count ≤ nextBit)
    (h : scanRun b cnt bitLeft nextBit count = some s) : s + cnt ≤ nextBit + bitLeft := by
  induction bitLeft generalizing nextBit count with
  | zero => cases h
  | succ bitLeft ih =>
      rw [scanRun] at h
      have hcount : (if bitmapScanTest b nextBit then 0 else count + 1) ≤ nextBit + 1 := by
        split <;> omega
      by_cases hdone : (if bitmapScanTest b nextBit then 0 else count + 1) = cnt
      · rw [if_pos hdone, Option.some.injEq] at h
        omega
      · rw [if_neg hdone] at h
        have hrec := ih hcount h
        omega

/-- What the scan finds ends inside the bitmap or one bit after it. -/
theorem scanRest_within {b : Bitmap} {cnt s : Nat} (h : bitmapScanRest b cnt = some s) :
    s + cnt ≤ b.btmpBytesLen * 8 + 1 := by
  have hbound := (scanBytes_spec b b.btmpBytesLen 0).2.1
  rw [bitmapScanRest] at h
  dsimp only at h
  by_cases hend : scanBytes b b.btmpBytesLen 0 = b.btmpBytesLen
  · rw [if_pos hend] at h
    cases h
  · have hstart := scanStart_spec (b := b) (by omega)
    rw [if_neg hend] at h
    by_cases hone : cnt = 1
    · rw [if_pos hone, Option.some.injEq] at h
      omega
    · rw [if_neg hone] at h
      have hle := scanRun_le (by omega) h
      omega

/-- What the scan finds starts with a clear bit of the bitmap. -/
theorem scanRest_start {b : Bitmap} {cnt s : Nat} (hcnt : 1 ≤ cnt)
    (h : bitmapScanRest b cnt = some s) :
    s < b.btmpBytesLen * 8 ∧ bitmapScanTest b s = false := by
  have hbound := (scanBytes_spec b b.btmpBytesLen 0).2.1
  have hlt : scanBytes b b.btmpBytesLen 0 < b.btmpBytesLen := by
    by_contra hc
    rw [bitmapScanRest, if_pos (by omega)] at h
    cases h
  have hscan : bitmapScan b cnt = .ok (some s) := by
    rw [bitmapScan, ensure_pos hlt, ok_bind, h]
  have hclear := (bitmapScan_found hcnt hscan).1 s (Nat.le_refl s) (by omega)
  refine ⟨?_, hclear⟩
  by_cases hone : cnt = 1
  · rw [hone] at hscan
    rcases bitmapScan_one hscan with ⟨s', hs', hin, -⟩
    rw [Option.some.inj hs']
    exact hin
  · have hle := scanRest_within h
    omega

/-- A bitmap of zeros with a number of bits set at its beginning. -/
theorem freeCount_range {len n : Nat} (h : n ≤ len * 8) :
    freeCount (bitmapSetRange ⟨len, fun _ => 0⟩ 0 true n) + n = len * 8 := by
  induction n with
  | zero =>
      have hall : ∀ k ∈ Finset.range (len * 8),
          bitmapScanTest (bitmapSetRange ⟨len, fun _ => 0⟩ 0 true 0) k = false := by
        intro k _
        rw [bitmapScanTest_eq]
        exact BitVec.getLsbD_zero
      rw [freeCount, bitmapSetRange_len, Finset.filter_true_of_mem hall, Finset.card_range,
        Nat.add_zero]
  | succ n ih =>
      have hlen : (bitmapSetRange (⟨len, fun _ => 0⟩ : Bitmap) 0 true n).btmpBytesLen = len :=
        bitmapSetRange_len _ _ _ _
      have hclear : bitmapScanTest (bitmapSetRange (⟨len, fun _ => 0⟩ : Bitmap) 0 true n) n =
          false := by
        rw [bitmapScanTest_setRange, if_neg (by omega), bitmapScanTest_eq]
        exact BitVec.getLsbD_zero
      have hset := freeCount_set (by rw [hlen]; omega) hclear
      have hrest := ih (by omega)
      rw [bitmapSetRange, Nat.zero_add]
      omega

end ForikOS
