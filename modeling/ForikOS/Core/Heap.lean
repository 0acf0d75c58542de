import ForikOS.Core.List
import ForikOS.Core.Sync

/-!
# The Kernel Heap

`sys_malloc` and `sys_free` of `mm/memory.c`, as kernel threads call them, and
`sys_free` as a process calls it.

The heap keeps everything in the memory it manages: an arena starts with its
header of three words, a free block holds the two links of the free list, and
the seven descriptors with the heads of the lists are a static array at some
address `d` below the heap. So the state is a memory of words, addressed by
bytes, together with the page runs that `malloc_page` has handed out and the
allocations that clients hold.

`malloc_page` and `mfree_page` are the interface to the page allocator. The
address `malloc_page` returns is an input of the call, null when it fails;
`mfree_page` takes a run back. Clients write into what they were given, and
other code writes outside the heap, so memory also changes between calls.

## Main definitions

* `descAt`, `freeListAt`: The descriptor array.
* `arena2block`, `block2arena`, `blockDescInit`: The functions of that name.
* `newArena`, `takeBlock`: The two halves of `sys_malloc` for small sizes.
* `sysMalloc`, `sysFree`: The heap.
* `sysFreeUser`: `sys_free` in a process, which may pass any address.
* `heapSystem`: Runs of calls and of writes by clients.
-/

namespace ForikOS

/-- `K_HEAP_START` as an address. -/
def heapStart : Nat := 0xc0100000

/-- `&descs[k]` for the array at `d`; a descriptor has 24 bytes. -/
def descAt (d k : Nat) : Nat := d + 24 * k

/-- `&desc->free_list`. -/
def freeListAt (desc : Nat) : Nat := desc + 8

/-- Memory and the page runs in use, each with its first address and its
    number of pages. -/
structure Heap where
  mem : Nat → Nat
  runs : List (Nat × Nat)

/-- `memset(a, 0, n)`. -/
def memsetZero (mem : Nat → Nat) (a n : Nat) : Nat → Nat :=
  fun x => if a ≤ x ∧ x < a + n then 0 else mem x

/-- `arena2block`: the header has 12 bytes. -/
def arena2block (mem : Nat → Nat) (a idx : Nat) : Nat := a + 12 + idx * mem (mem a)

/-- `block2arena`. -/
def block2arena (b : Nat) : Nat := b &&& 0xfffff000

/-- The loop of `block_desc_init`. -/
def blockDescLoop : Nat → (Nat → Nat) → Nat → Nat → Nat → Nat
  | 0, mem, _, _ => mem
  | n + 1, mem, desc, blockSize =>
      let mem := Function.update mem desc blockSize
      -- How many blocks fit into a page behind the header.
      let mem := Function.update mem (desc + 4) ((4096 - 12) / blockSize)
      let mem := listInit mem (freeListAt desc)
      blockDescLoop n mem (desc + 24) (blockSize * 2)

/-- `block_desc_init`. -/
def blockDescInit (mem : Nat → Nat) (d : Nat) : Nat → Nat := blockDescLoop 7 mem d 16

/-- The search of `sys_malloc` for the first descriptor with blocks that are
    large enough. -/
def pickDesc (mem : Nat → Nat) (d size : Nat) : Nat → Nat → Nat
  | 0, descIdx => descIdx
  | n + 1, descIdx =>
      if size ≤ mem (descAt d descIdx) then descIdx else pickDesc mem d size n (descIdx + 1)

/-- `elem_find`, which has to end for the code to go on. -/
def elemFound (mem : Nat → Nat) (l e : Nat) : Except Func Bool :=
  match elemFind mem l e with
  | none => .error .elemFind
  | some found => .ok found

/-- The loop that puts the blocks of a new arena on the free list. -/
def splitArena (a : Nat) : Nat → Nat → (Nat → Nat) → Except Func (Nat → Nat)
  | 0, _, mem => .ok mem
  | n + 1, blockIdx, mem => do
      let b := arena2block mem a blockIdx
      let found ← elemFound mem (freeListAt (mem a)) b
      ensure (found = false) .sysMalloc
      splitArena a n (blockIdx + 1) (listAppend mem (freeListAt (mem a)) b)

/-- A new arena in the page `pg` for the blocks of a descriptor. -/
def newArena (h : Heap) (desc pg : Nat) : Except Func Heap := do
  let mem := memsetZero h.mem pg 4096
  -- The header: `desc`, `cnt` and `large`.
  let mem := Function.update mem pg desc
  let mem := Function.update mem (pg + 8) 0
  let mem := Function.update mem (pg + 4) (mem (desc + 4))
  let mem ← splitArena pg (mem (desc + 4)) 0 mem
  .ok { mem := mem, runs := (pg, 1) :: h.runs }

/-- Take the first free block of a descriptor. -/
def takeBlock (h : Heap) (desc : Nat) : Heap × Nat :=
  let (mem, b) := listPop h.mem (freeListAt desc)
  let mem := memsetZero mem b (mem desc)
  -- One free block fewer in its arena; `cnt` has 32 bits.
  let a := block2arena b
  let mem := Function.update mem (a + 4) ((mem (a + 4) + (2 ^ 32 - 1)) % 2 ^ 32)
  ({ h with mem := mem }, b)

/-- The number of pages `sys_malloc` asks for when the size is above 1024. -/
def largePages (size : Nat) : Nat := (size + 12 + 4096 - 1) % 2 ^ 32 / 4096

/-- `sys_malloc(size)` by a kernel thread; `pg` is what `malloc_page` returns
    if it is called. -/
def sysMalloc (d poolSize : Nat) (h : Heap) (size pg : Nat) : Except Func (Heap × Nat) :=
  if ¬ (0 < size ∧ size < poolSize) then
    .ok (h, 0)
  else if 1024 < size then
    if pg = 0 then
      .ok (h, 0)
    else
      -- A large block: whole pages, with the header in front.
      let mem := memsetZero h.mem pg (largePages size * 4096)
      let mem := Function.update mem pg 0
      let mem := Function.update mem (pg + 4) (largePages size)
      let mem := Function.update mem (pg + 8) 1
      .ok ({ mem := mem, runs := (pg, largePages size) :: h.runs }, pg + 12)
  else
    let desc := descAt d (pickDesc h.mem d size 7 0)
    if listEmpty h.mem (freeListAt desc) then
      if pg = 0 then
        .ok (h, 0)
      else do
        -- The list has no block left.
        let h ← newArena h desc pg
        .ok (takeBlock h desc)
    else
      .ok (takeBlock h desc)

/-- `mfree_page` takes back a run it handed out. -/
def freeRun (h : Heap) (a n : Nat) : Except Func Heap := do
  ensure ((a, n) ∈ h.runs) .mfreePage
  .ok { h with runs := h.runs.erase (a, n) }

/-- The loop that takes the blocks of an arena off the free list. -/
def dissolveArena (a : Nat) : Nat → Nat → (Nat → Nat) → Except Func (Nat → Nat)
  | 0, _, mem => .ok mem
  | n + 1, blockIdx, mem => do
      let b := arena2block mem a blockIdx
      let found ← elemFound mem (freeListAt (mem a)) b
      ensure (found = true) .sysFree
      dissolveArena a n (blockIdx + 1) (listRemove mem b)

/-- `sys_free(ptr)` by a kernel thread. -/
def sysFree (h : Heap) (ptr : Nat) : Except Func Heap := do
  ensure (ptr ≠ 0) .sysFree
  ensure (heapStart ≤ ptr) .sysFree
  let a := block2arena ptr
  ensure (h.mem (a + 8) = 0 ∨ h.mem (a + 8) = 1) .sysFree
  if h.mem a = 0 ∧ h.mem (a + 8) = 1 then
    -- A large block goes back page by page.
    freeRun h a (h.mem (a + 4))
  else
    let mem := listAppend h.mem (freeListAt (h.mem a)) ptr
    let mem := Function.update mem (a + 4) ((mem (a + 4) + 1) % 2 ^ 32)
    -- All blocks of the arena are free, so its page goes back as well.
    if mem (a + 4) = mem (mem a + 4) then
      let mem ← dissolveArena a (mem (mem a + 4)) 0 mem
      freeRun { h with mem := mem } a 1
    else
      .ok { h with mem := mem }

/-- `sys_free(ptr)` by a process. -/
def sysFreeUser (h : Heap) (ptr : Nat) : Except Func Heap := do
  ensure (ptr ≠ 0) .sysFree
  let a := block2arena ptr
  ensure (h.mem (a + 8) = 0 ∨ h.mem (a + 8) = 1) .sysFree
  if h.mem a = 0 ∧ h.mem (a + 8) = 1 then
    freeRun h a (h.mem (a + 4))
  else
    let mem := listAppend h.mem (freeListAt (h.mem a)) ptr
    let mem := Function.update mem (a + 4) ((mem (a + 4) + 1) % 2 ^ 32)
    if mem (a + 4) = mem (mem a + 4) then
      let mem ← dissolveArena a (mem (mem a + 4)) 0 mem
      freeRun { h with mem := mem } a 1
    else
      .ok { h with mem := mem }

/-- The heap and the allocations its clients hold, each with the size that was
    asked for. -/
structure HeapState where
  heap : Heap
  live : List (Nat × Nat)

/-- Calls, and writes of one word by code outside the heap. -/
inductive HeapEvent
  | malloc (size pg : Nat)
  | free (ptr : Nat)
  | write (x v : Nat)

/-- The step of an event. -/
def heapStep (d poolSize : Nat) (s : HeapState) : HeapEvent → Except Func HeapState
  | .malloc size pg => do
      let (h, ptr) ← sysMalloc d poolSize s.heap size pg
      .ok { heap := h, live := if ptr = 0 then s.live else (ptr, size) :: s.live }
  | .free ptr => do
      let h ← sysFree s.heap ptr
      .ok { heap := h, live := s.live.filter (fun a => a.1 ≠ ptr) }
  | .write x v => .ok { s with heap := { s.heap with mem := Function.update s.heap.mem x v } }

/-- The pages from `pg` on are free and lie in the kernel heap. -/
def FreshRun (h : Heap) (pg n : Nat) : Prop :=
  pg % 4096 = 0 ∧ heapStart ≤ pg ∧ pg + n * 4096 ≤ 2 ^ 32 ∧
    ∀ r, r ∈ h.runs → pg + n * 4096 ≤ r.1 ∨ r.1 + r.2 * 4096 ≤ pg

/-- `malloc_page` fails or hands out pages that are not in use; what is freed
    was returned by `sys_malloc` and not freed since; code outside the heap
    writes inside allocations, or outside all pages of the heap. -/
def heapEnabled (d : Nat) (s : HeapState) : HeapEvent → Prop
  | .malloc size pg => size < 2 ^ 32 ∧
      (pg = 0 ∨ FreshRun s.heap pg (if 1024 < size then largePages size else 1))
  | .free ptr => ∃ size, (ptr, size) ∈ s.live
  | .write x _ => (∃ a, a ∈ s.live ∧ a.1 ≤ x ∧ x < a.1 + a.2) ∨
      ((∀ r, r ∈ s.heap.runs → ¬ (r.1 ≤ x ∧ x < r.1 + r.2 * 4096)) ∧
        ¬ (d ≤ x ∧ x < d + 168))

/-- After `block_desc_init`, with nothing allocated. -/
def heapInit (d : Nat) (s : HeapState) : Prop :=
  ∃ mem, s = { heap := { mem := blockDescInit mem d, runs := [] }, live := [] }

/-- Runs of calls and of writes, with the descriptors at `d`. -/
def heapSystem (d poolSize : Nat) : System HeapState HeapEvent Func where
  init := heapInit d
  enabled := heapEnabled d
  step := heapStep d poolSize

end ForikOS
