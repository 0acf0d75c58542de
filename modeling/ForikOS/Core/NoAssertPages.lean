import ForikOS.Core.Memory

/-!
# The Page Allocator Without Assertions

`malloc_page` of `mm/memory.c` and what it calls, where `NDEBUG` is defined and
`ASSERT` is nothing.

Four assertions are gone: the one in `bitmap_scan`, which now returns `-1` for
a full bitmap, those of `page_table_add` on the entry it writes, the one of
`vaddr_get` on the address of a process, and the bound of `malloc_page` on the
number of pages. `PANIC` is a call in every build, so a present entry in a
table that was there still stops the machine. The words of memory, the paging
hardware and the bitmaps are those of the other build.

## Main definitions

* `palloc`: One frame of a pool, or null.
* `pageTableAdd`: One mapping.
* `vaddrGet`: A run of virtual pages, or null.
* `mallocPage`: The allocator.
-/

namespace ForikOS.NoAssert

/-- `palloc`. -/
def palloc (p : Pool) : Pool × Word :=
  match bitmapScanRest p.poolBitmap 1 with
  | none => (p, 0)
  | some bitIdx =>
      ({ p with poolBitmap := bitmapSet p.poolBitmap bitIdx true },
        BitVec.ofNat 32 bitIdx * pgSize + p.phyAddrStart)

/-- `page_table_add`. The frame of a new page table is not looked at before it
    is entered. -/
def pageTableAdd (m : Machine) (vaddr pagePhyaddr : Word) : Except Func Machine := do
  let pde ← load m (pdePtr vaddr)
  if isPresent pde then
    let pte ← load m (ptePtr vaddr)
    if isPresent pte then
      .error .pageTableAdd
    else
      store m (ptePtr vaddr) (entryFor pagePhyaddr)
  else
    let (p, pdePhyaddr) := palloc m.kernelPool
    let m := m.setPool p .kernel
    let m ← store m (pdePtr vaddr) (entryFor pdePhyaddr)
    let m ← clearPage m (ptePtr vaddr &&& 0xfffff000)
    store m (ptePtr vaddr) (entryFor pagePhyaddr)

/-- `vaddr_get`. -/
def vaddrGet (m : Machine) (pf : PoolFlags) (pgCnt : Nat) : Except Func (Machine × Word) :=
  match pf with
  | .kernel =>
      match bitmapScanRest m.kernelVaddr.vaddrBitmap pgCnt with
      | none => .ok (m, 0)
      | some bitIdxStart =>
          let b := bitmapSetRange m.kernelVaddr.vaddrBitmap bitIdxStart true pgCnt
          .ok (m.setVaddrBitmap b,
            m.kernelVaddr.vaddrStart + BitVec.ofNat 32 bitIdxStart * pgSize)
  | .user => do
      let b ← userBitmap m
      match bitmapScanRest b pgCnt with
      | none => .ok (m, 0)
      | some bitIdxStart =>
          let m ← userBitmapSetRange bitIdxStart true pgCnt m
          .ok (m, m.cur.vaddrStart + BitVec.ofNat 32 bitIdxStart * pgSize)

/-- The loop of `malloc_page`. The answer is whether every page got a frame. -/
def mallocLoop (pf : PoolFlags) : Nat → Machine → Word → Except Func (Machine × Bool)
  | 0, m, _ => .ok (m, true)
  | cnt + 1, m, vaddr => do
      let (p, pagePhyaddr) := palloc (m.pool pf)
      let m := m.setPool p pf
      if pagePhyaddr = 0 then
        .ok (m, false)
      else
        let m ← pageTableAdd m vaddr pagePhyaddr
        mallocLoop pf cnt m (vaddr + pgSize)

/-- `malloc_page`. -/
def mallocPage (m : Machine) (pf : PoolFlags) (pgCnt : Nat) : Except Func (Machine × Word) := do
  let (m, vaddrStart) ← vaddrGet m pf pgCnt
  if vaddrStart = 0 then
    .ok (m, 0)
  else
    let (m, done) ← mallocLoop pf pgCnt m vaddrStart
    .ok (m, if done then vaddrStart else 0)

end ForikOS.NoAssert
