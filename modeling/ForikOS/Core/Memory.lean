import ForikOS.Core.Bitmap

/-!
# Paging and the Page Allocator

The page allocator of `mm/memory.c`, over the paging hardware it programs.

Physical memory is a family of page frames of 1024 words. The code never
touches a page table by its physical address: it goes through the last entry
of the page directory, which maps the directory itself, so every read and
write of an entry is a read or write of a virtual address, translated by the
table that is being changed. The model does the same. `walk` is the two-level
walk of the processor, `load` and `store` translate with it and stop on a
page that is not present, and `ptePtr` and `pdePtr` are the addresses the code
computes.

The translation cache is left out, so every access sees the tables as they are.
For an entry that goes from absent to present this is what the processor does,
which does not cache absent entries. Behind a change in the other direction
`page_table_pte_remove` has an `invlpg`, but with the address of its own variable
as the operand, so the page that was removed may stay in the cache until CR3 is
loaded again. What a program does with such a page is not modelled.

The two pool bitmaps and the bitmap of kernel addresses lie below the first
megabyte, outside every pool, and are fields of the state. The bitmap of a
process lies in kernel pages and is read through its address. A null pointer
is the word zero. The pool locks have no effect on a single caller and are
left out.

## Main definitions

* `Machine`: Physical memory, CR3, the pools and the current process.
* `walk`, `load`, `store`: The paging hardware.
* `ptePtr`, `pdePtr`: The addresses of the entries for a virtual address.
* `palloc`, `pfree`: One frame of a pool.
* `pageTableAdd`, `pageTablePteRemove`: One mapping.
* `vaddrGet`, `vaddrRemove`: A run of virtual pages.
* `mallocPage`, `mfreePage`: The allocator.
* `memPoolInit`: The pools for a given amount of memory.
-/

namespace ForikOS

/-- A 32-bit machine word. -/
abbrev Word := BitVec 32

/-- Membership in the lists of PCBs is decided with this instance. -/
instance : LawfulBEq Word := inferInstance

/-- `PG_SIZE`. -/
def pgSize : Word := 4096

/-- `K_HEAP_START`. -/
def kHeapStart : Word := 0xc0100000

/-- `struct pool`. -/
structure Pool where
  poolBitmap : Bitmap
  phyAddrStart : Word
  poolSize : Word

/-- `struct virtual_addr` of the kernel. -/
structure VirtualAddr where
  vaddrBitmap : Bitmap
  vaddrStart : Word

/-- `enum pool_flags`. -/
inductive PoolFlags
  | kernel
  | user
  deriving DecidableEq, Repr

/-- What the allocator reads in the PCB: the page directory, null for a kernel
    thread, and the bitmap of user addresses by its address and length. -/
structure ProcMem where
  pgdir : Word
  bits : Word
  btmpBytesLen : Nat
  vaddrStart : Word

/-- The machine: frames of words, the frame CR3 points to, the two pools, the
    kernel addresses and the current process. -/
structure Machine where
  phys : Nat → Nat → Word
  cr3 : Nat
  kernelPool : Pool
  userPool : Pool
  kernelVaddr : VirtualAddr
  cur : ProcMem

/-- `PDE_IDX`. -/
def pdeIdx (v : Word) : Nat := ((v &&& 0xffc00000) >>> 22).toNat

/-- `PTE_IDX`. -/
def pteIdx (v : Word) : Nat := ((v &&& 0x003ff000) >>> 12).toNat

/-- The word of its page an address lies in. -/
def wordIdx (v : Word) : Nat := (v &&& 0xfff).toNat / 4

/-- The present bit of an entry. -/
def isPresent (e : Word) : Bool := (e &&& 1) != 0

/-- The frame an entry points to. -/
def frameOf (e : Word) : Nat := (e &&& 0xfffff000).toNat / 4096

/-- An entry for a page with the attributes `PG_US_U | PG_RW_W | PG_P_1`. -/
def entryFor (phy : Word) : Word := phy ||| 4 ||| 2 ||| 1

namespace Machine

/-- Write one word of physical memory. -/
def setWord (m : Machine) (f i : Nat) (w : Word) : Machine :=
  { m with phys := Function.update m.phys f (Function.update (m.phys f) i w) }

/-- Write a whole frame. -/
def setFrame (m : Machine) (f : Nat) (page : Nat → Word) : Machine :=
  { m with phys := Function.update m.phys f page }

/-- `pf & PF_KERNEL ? &kernel_pool : &user_pool`. -/
def pool (m : Machine) : PoolFlags → Pool
  | .kernel => m.kernelPool
  | .user => m.userPool

/-- Write back a pool. -/
def setPool (m : Machine) (p : Pool) : PoolFlags → Machine
  | .kernel => { m with kernelPool := p }
  | .user => { m with userPool := p }

/-- Write back the bitmap of kernel addresses. -/
def setVaddrBitmap (m : Machine) (b : Bitmap) : Machine :=
  { m with kernelVaddr := { m.kernelVaddr with vaddrBitmap := b } }

end Machine

/-- The two-level walk of the processor: the frame an address is mapped to. -/
def walk (m : Machine) (v : Word) : Option Nat :=
  let pde := m.phys m.cr3 (pdeIdx v)
  if isPresent pde then
    let pte := m.phys (frameOf pde) (pteIdx v)
    if isPresent pte then some (frameOf pte) else none
  else
    none

/-- Read the word at a virtual address. -/
def load (m : Machine) (v : Word) : Except Func Word :=
  match walk m v with
  | none => .error .pageFault
  | some f => .ok (m.phys f (wordIdx v))

/-- Write the word at a virtual address. -/
def store (m : Machine) (v w : Word) : Except Func Machine :=
  match walk m v with
  | none => .error .pageFault
  | some f => .ok (m.setWord f (wordIdx v) w)

/-- `memset(v, 0, PG_SIZE)` for the address of a page. -/
def clearPage (m : Machine) (v : Word) : Except Func Machine :=
  match walk m v with
  | none => .error .pageFault
  | some f => .ok (m.setFrame f (fun _ => 0))

/-- `memset(v, 0, n * PG_SIZE)` for the address of a page. -/
def clearPages : Nat → Machine → Word → Except Func Machine
  | 0, m, _ => .ok m
  | n + 1, m, v => do
      let m ← clearPage m v
      clearPages n m (v + pgSize)

/-- `pte_ptr`. -/
def ptePtr (v : Word) : Word :=
  (0xffc00000 : Word) + ((v &&& 0xffc00000) >>> 10) + BitVec.ofNat 32 (pteIdx v) * 4

/-- `pde_ptr`. -/
def pdePtr (v : Word) : Word :=
  (0xfffff000 : Word) + BitVec.ofNat 32 (pdeIdx v) * 4

/-- `palloc`. -/
def palloc (p : Pool) : Except Func (Pool × Word) := do
  match ← bitmapScan p.poolBitmap 1 with
  | none => .ok (p, 0)
  | some bitIdx =>
      .ok ({ p with poolBitmap := bitmapSet p.poolBitmap bitIdx true },
        BitVec.ofNat 32 bitIdx * pgSize + p.phyAddrStart)

/-- `page_table_add`. A missing page table is taken from the kernel pool. -/
def pageTableAdd (m : Machine) (vaddr pagePhyaddr : Word) : Except Func Machine := do
  let pde ← load m (pdePtr vaddr)
  if isPresent pde then
    let pte ← load m (ptePtr vaddr)
    ensure (isPresent pte = false) .pageTableAdd
    store m (ptePtr vaddr) (entryFor pagePhyaddr)
  else
    -- The source does not test what `palloc` returns for the table.
    let (p, pdePhyaddr) ← palloc m.kernelPool
    let m := m.setPool p .kernel
    let m ← store m (pdePtr vaddr) (entryFor pdePhyaddr)
    -- The new table is reached through the entry that was just written.
    let m ← clearPage m (ptePtr vaddr &&& 0xfffff000)
    let pte ← load m (ptePtr vaddr)
    ensure (isPresent pte = false) .pageTableAdd
    store m (ptePtr vaddr) (entryFor pagePhyaddr)

/-- The byte at a virtual address. -/
def loadByte (m : Machine) (v : Word) : Except Func (BitVec 8) := do
  let w ← load m v
  .ok ((w >>> ((v &&& 3).toNat * 8)).setWidth 8)

/-- Write the byte at a virtual address. -/
def storeByte (m : Machine) (v : Word) (byte : BitVec 8) : Except Func Machine := do
  let w ← load m v
  let shift := (v &&& 3).toNat * 8
  store m v ((w &&& ~~~(0xff#32 <<< shift)) ||| (byte.setWidth 32 <<< shift))

/-- The bitmap of the current process, read through its address. -/
def userBitmap (m : Machine) : Except Func Bitmap := do
  let addr (i : Nat) : Word := m.cur.bits + BitVec.ofNat 32 i
  -- The bytes lie in kernel pages, each of which has to be mapped.
  ensure (∀ i, i < m.cur.btmpBytesLen → (walk m (addr i)).isSome) .pageFault
  .ok { btmpBytesLen := m.cur.btmpBytesLen
        bits := fun i => match loadByte m (addr i) with
          | .ok byte => byte
          | .error _ => 0 }

/-- `bitmap_set` on the bitmap of the current process, `n` bits in a row. -/
def userBitmapSetRange (start : Nat) (value : Bool) : Nat → Machine → Except Func Machine
  | 0, m => .ok m
  | n + 1, m => do
      let m ← userBitmapSetRange start value n m
      let addr := m.cur.bits + BitVec.ofNat 32 ((start + n) / 8)
      let byte ← loadByte m addr
      let mask := 1#8 <<< ((start + n) % 8)
      storeByte m addr (if value then byte ||| mask else byte &&& ~~~mask)

/-- `vaddr_get`. -/
def vaddrGet (m : Machine) (pf : PoolFlags) (pgCnt : Nat) : Except Func (Machine × Word) :=
  match pf with
  | .kernel => do
      match ← bitmapScan m.kernelVaddr.vaddrBitmap pgCnt with
      | none => .ok (m, 0)
      | some bitIdxStart =>
          let b := bitmapSetRange m.kernelVaddr.vaddrBitmap bitIdxStart true pgCnt
          .ok (m.setVaddrBitmap b,
            m.kernelVaddr.vaddrStart + BitVec.ofNat 32 bitIdxStart * pgSize)
  | .user => do
      let b ← userBitmap m
      match ← bitmapScan b pgCnt with
      | none => .ok (m, 0)
      | some bitIdxStart =>
          let m ← userBitmapSetRange bitIdxStart true pgCnt m
          let vaddrStart := m.cur.vaddrStart + BitVec.ofNat 32 bitIdxStart * pgSize
          -- Too late to take the bits back: the assertion stops the machine.
          ensure (vaddrStart < 0xc0000000 - pgSize) .vaddrGet
          .ok (m, vaddrStart)

/-- The loop of `malloc_page`: a frame for each page. The answer is whether
    every page got one; a frame and its mapping stay when a later one fails. -/
def mallocLoop (pf : PoolFlags) : Nat → Machine → Word → Except Func (Machine × Bool)
  | 0, m, _ => .ok (m, true)
  | cnt + 1, m, vaddr => do
      let (p, pagePhyaddr) ← palloc (m.pool pf)
      let m := m.setPool p pf
      if pagePhyaddr = 0 then
        -- What the earlier rounds took is not given back.
        .ok (m, false)
      else
        let m ← pageTableAdd m vaddr pagePhyaddr
        mallocLoop pf cnt m (vaddr + pgSize)

/-- `malloc_page`. -/
def mallocPage (m : Machine) (pf : PoolFlags) (pgCnt : Nat) : Except Func (Machine × Word) := do
  ensure (0 < pgCnt ∧ pgCnt < 3840) .mallocPage
  let (m, vaddrStart) ← vaddrGet m pf pgCnt
  if vaddrStart = 0 then
    .ok (m, 0)
  else
    let (m, done) ← mallocLoop pf pgCnt m vaddrStart
    .ok (m, if done then vaddrStart else 0)

/-- `get_kernel_pages`. -/
def getKernelPages (m : Machine) (pgCnt : Nat) : Except Func (Machine × Word) := do
  let (m, vaddr) ← mallocPage m .kernel pgCnt
  if vaddr = 0 then
    .ok (m, vaddr)
  else
    let m ← clearPages pgCnt m vaddr
    .ok (m, vaddr)

/-- `addr_v2p`. -/
def addrV2p (m : Machine) (vaddr : Word) : Except Func Word := do
  let pte ← load m (ptePtr vaddr)
  .ok ((pte &&& 0xfffff000) + (vaddr &&& 0x00000fff))

/-- `pfree`. -/
def pfree (m : Machine) (pgPhyAddr : Word) : Machine :=
  -- The pool is told from the address; the user pool lies above.
  let pf := if m.userPool.phyAddrStart ≤ pgPhyAddr then .user else .kernel
  let p := m.pool pf
  let bitIdx := ((pgPhyAddr - p.phyAddrStart) / pgSize).toNat
  m.setPool { p with poolBitmap := bitmapSet p.poolBitmap bitIdx false } pf

/-- `page_table_pte_remove`. -/
def pageTablePteRemove (m : Machine) (vaddr : Word) : Except Func Machine := do
  let pte ← load m (ptePtr vaddr)
  store m (ptePtr vaddr) (pte &&& ~~~1)

/-- `vaddr_remove`. -/
def vaddrRemove (m : Machine) (pf : PoolFlags) (vaddr : Word) (pgCnt : Nat) :
    Except Func Machine :=
  match pf with
  | .kernel =>
      let bitIdxStart := ((vaddr - m.kernelVaddr.vaddrStart) / pgSize).toNat
      .ok (m.setVaddrBitmap (bitmapSetRange m.kernelVaddr.vaddrBitmap bitIdxStart false pgCnt))
  | .user =>
      let bitIdxStart := ((vaddr - m.cur.vaddrStart) / pgSize).toNat
      userBitmapSetRange bitIdxStart false pgCnt m

/-- The loops of `mfree_page`, which differ in the frames they accept. -/
def mfreeLoop (belongs : Word → Bool) : Nat → Machine → Word → Except Func Machine
  | 0, m, _ => .ok m
  | cnt + 1, m, vaddr => do
      let pgPhyAddr ← addrV2p m vaddr
      ensure (pgPhyAddr % pgSize = 0 ∧ belongs pgPhyAddr = true) .mfreePage
      let m ← pageTablePteRemove (pfree m pgPhyAddr) vaddr
      mfreeLoop belongs cnt m (vaddr + pgSize)

/-- `mfree_page`. -/
def mfreePage (m : Machine) (pf : PoolFlags) (vaddr : Word) (pgCnt : Nat) :
    Except Func Machine := do
  ensure (1 ≤ pgCnt ∧ vaddr % pgSize = 0) .mfreePage
  let pgPhyAddr ← addrV2p m vaddr
  ensure (pgPhyAddr % pgSize = 0 ∧ 0x102000 ≤ pgPhyAddr) .mfreePage
  let kp := m.kernelPool.phyAddrStart
  let up := m.userPool.phyAddrStart
  -- The first frame decides which of the two loops runs.
  let belongs (a : Word) : Bool := if up ≤ pgPhyAddr then up ≤ a else kp ≤ a && a < up
  let m ← mfreeLoop belongs pgCnt m vaddr
  -- The bitmap is that of `pf`, whichever pool the frames were from.
  vaddrRemove m pf vaddr pgCnt

/-- The pages `mem_pool_init` counts, in sixteen bits. -/
def allFreePages (allMem : Word) : BitVec 16 :=
  ((allMem - (pgSize * 256 + 0x100000)) / pgSize).setWidth 16

/-- `mem_pool_init` for `allMem` bytes of memory. -/
def memPoolInit (m : Machine) (allMem : Word) : Machine :=
  -- 256 pages of page tables, and the first megabyte.
  let usedMem : Word := pgSize * 256 + 0x100000
  let kernelFreePages : BitVec 16 := allFreePages allMem / 2
  let userFreePages : BitVec 16 := allFreePages allMem - kernelFreePages
  let kbmLength := (kernelFreePages / 8).toNat
  let ubmLength := (userFreePages / 8).toNat
  let bitmap (len : Nat) (b : Bitmap) : Bitmap := bitmapInit { b with btmpBytesLen := len }
  { m with
    kernelPool :=
      { poolBitmap := bitmap kbmLength m.kernelPool.poolBitmap
        phyAddrStart := usedMem
        poolSize := kernelFreePages.setWidth 32 * pgSize }
    userPool :=
      { poolBitmap := bitmap ubmLength m.userPool.poolBitmap
        phyAddrStart := usedMem + kernelFreePages.setWidth 32 * pgSize
        poolSize := userFreePages.setWidth 32 * pgSize }
    -- The bitmap of addresses is as long as that of the kernel pool.
    kernelVaddr :=
      { vaddrBitmap := bitmap kbmLength m.kernelVaddr.vaddrBitmap
        vaddrStart := kHeapStart } }

end ForikOS
