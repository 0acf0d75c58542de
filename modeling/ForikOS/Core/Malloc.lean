import ForikOS.Core.UserHeap

/-!
# The Heap over the Page Allocator

`sys_malloc` and `sys_free` of `mm/memory.c` with the `malloc_page` and
`mfree_page` they call, for a kernel thread and for a process.

In the heap the address that `malloc_page` returns is an input of the call.
Here it is what the page allocator answers. `sys_malloc` asks it before it
changes anything of its own, and `sys_free` gives a run back after everything
else, so a call is the one followed by the other.

The words of the heap and the machine are kept apart: the frames behind the
pages of a heap hold no page table and no bitmap.

## Main definitions

* `pagesAsked`: How many pages `sys_malloc` asks for, if any.
* `mallocFor`: `sys_malloc` with its call of `malloc_page`.
* `freedRun`, `freeFor`: `sys_free` with its call of `mfree_page`.
* `MallocState`, `mallocStep`: Calls of one caller, among what others do.
-/

namespace ForikOS

/-- The `page_cnt` with which `sys_malloc(size)` calls `malloc_page`, if it
    does: for a size above 1024 the pages of the block, else one page, if there
    is no free block. -/
def pagesAsked (d poolSize : Nat) (h : Heap) (size : Nat) : Option Nat :=
  if ¬ (0 < size ∧ size < poolSize) then
    none
  else if 1024 < size then
    some (largePages size)
  else if listEmpty h.mem (freeListAt (descAt d (pickDesc h.mem d size 7 0))) then
    some 1
  else
    none

/-- `sys_malloc(size)`, by a kernel thread or a process with its descriptors
    at `d`. -/
def mallocFor (pf : PoolFlags) (d poolSize : Nat) (m : Machine) (h : Heap) (size : Nat) :
    Except Func (Machine × Heap × Nat) :=
  match pagesAsked d poolSize h size with
  | none => do
      let (h, ptr) ← sysMalloc d poolSize h size 0
      .ok (m, h, ptr)
  -- The address is an input of the heap, and null when `malloc_page` fails.
  | some pageCnt => do
      let (m, a) ← mallocPage m pf pageCnt
      let (h, ptr) ← sysMalloc d poolSize h size a.toNat
      .ok (m, h, ptr)

/-- The run that `sys_free` has handed to `mfree_page`. -/
def freedRun (h h' : Heap) : Option (Nat × Nat) := h.runs.find? (fun r => !h'.runs.contains r)

/-- What `sys_free(ptr)` does to the heap. -/
def sysFreeBy : PoolFlags → Heap → Nat → Except Func Heap
  | .kernel => sysFree
  | .user => sysFreeUser

/-- `sys_free(ptr)`, by a kernel thread or a process. -/
def freeFor (pf : PoolFlags) (m : Machine) (h : Heap) (ptr : Nat) :
    Except Func (Machine × Heap) := do
  let h' ← sysFreeBy pf h ptr
  match freedRun h h' with
  | none => .ok (m, h')
  | some r => do
      let m ← mfreePage m pf (BitVec.ofNat 32 r.1) r.2
      .ok (m, h')

/-- The machine, and the heap of one caller with its allocations. -/
structure MallocState where
  mem : Machine
  heap : HeapState

/-- Calls and writes of the caller, and whatever the rest of the system does to
    the machine meanwhile. -/
inductive MallocEvent
  | malloc (size : Nat)
  | free (ptr : Nat)
  | write (x v : Nat)
  | others (m : Machine)

/-- The step of an event. -/
def mallocStep (pf : PoolFlags) (d poolSize : Nat) (s : MallocState) :
    MallocEvent → Except Func MallocState
  | .malloc size => do
      let (m, h, ptr) ← mallocFor pf d poolSize s.mem s.heap.heap size
      .ok
        { mem := m
          heap :=
            { heap := h
              live := if ptr = 0 then s.heap.live else (ptr, size) :: s.heap.live } }
  | .free ptr => do
      let (m, h) ← freeFor pf s.mem s.heap.heap ptr
      .ok { mem := m, heap := { heap := h, live := s.heap.live.filter (fun a => a.1 ≠ ptr) } }
  | .write x v =>
      .ok { s with heap := { s.heap with
        heap := { s.heap.heap with mem := Function.update s.heap.heap.mem x v } } }
  | .others m => .ok { s with mem := m }

end ForikOS
