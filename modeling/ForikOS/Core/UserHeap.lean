import ForikOS.Core.Fork
import ForikOS.Core.Heap

/-!
# The Heaps of Processes

`sys_malloc` and `sys_free` as processes call them, and what `sys_fork` and
`process_execute` do to the heap of a process.

A process keeps its free blocks in the descriptors `u_block_desc` of its PCB.
The PCB is kernel memory, which all address spaces share. The arenas and the
free blocks are user memory, which every process has its own. A call works on
the words its process sees, so it can follow a pointer from an arena into the
PCB of any process.

`sys_fork` copies the user memory with all arenas in it, and gives the child
empty lists of its own with `block_desc_init`. A process is named here by the
address of its `u_block_desc`.

As in the kernel heap, what `malloc_page` returns is an input of the call. The
addresses it hands out are those of the calling process.

## Main definitions

* `UserHeaps`: Kernel memory, and the user memory and allocations of each
  process.
* `procHeap`, `setProcHeap`: The heap one process sees.
* `procCall`: A call, or a write by the program.
* `userHeapSystem`: Runs of processes that are created, fork and call.
-/

namespace ForikOS

/-- Where kernel memory begins in every address space. -/
def kernelBase : Nat := 0xc0000000

/-- Kernel memory, the processes, and for each its user memory, the pages of
    its heap and the allocations its program holds. -/
structure UserHeaps where
  kernel : Nat → Nat
  procs : List Nat
  user : Nat → Nat → Nat
  runs : Nat → List (Nat × Nat)
  live : Nat → List (Nat × Nat)

/-- The heap as process `p` sees it. -/
def procHeap (s : UserHeaps) (p : Nat) : HeapState where
  heap :=
    { mem := fun x => if x < kernelBase then s.user p x else s.kernel x
      runs := s.runs p }
  live := s.live p

/-- Process `p` changes what it sees. -/
def setProcHeap (s : UserHeaps) (p : Nat) (h : HeapState) : UserHeaps where
  kernel := fun x => if x < kernelBase then s.kernel x else h.heap.mem x
  procs := s.procs
  user := Function.update s.user p (fun x => if x < kernelBase then h.heap.mem x else s.user p x)
  runs := Function.update s.runs p h.heap.runs
  live := Function.update s.live p h.live

/-- A call of process `p`, or a write by its program. -/
def procCall (poolSize p : Nat) (s : HeapState) : HeapEvent → Except Func HeapState
  | .malloc size pg => do
      let (h, ptr) ← sysMalloc p poolSize s.heap size pg
      .ok { heap := h, live := if ptr = 0 then s.live else (ptr, size) :: s.live }
  | .free ptr => do
      let h ← sysFreeUser s.heap ptr
      .ok { heap := h, live := s.live.filter (fun a => a.1 ≠ ptr) }
  | .write x v => .ok { s with heap := { s.heap with mem := Function.update s.heap.mem x v } }

/-- A process with empty lists, and with the given user memory. -/
def addProc (s : UserHeaps) (p : Nat) (user : Nat → Nat) (runs live : List (Nat × Nat)) :
    UserHeaps where
  -- `u_block_desc` is in the PCB.
  kernel := blockDescInit s.kernel p
  procs := p :: s.procs
  user := Function.update s.user p user
  runs := Function.update s.runs p runs
  live := Function.update s.live p live

/-- What happens to the heaps. -/
inductive UserEvent
  | create (p : Nat) (user : Nat → Nat)
  | fork (parent child : Nat)
  | call (p : Nat) (e : HeapEvent)

/-- The step of an event. A child starts with the pages of its parent. -/
def userStep (poolSize : Nat) (s : UserHeaps) : UserEvent → Except Func UserHeaps
  | .create p user => .ok (addProc s p user [] [])
  | .fork parent child =>
      .ok (addProc s child (s.user parent) (s.runs parent) (s.live parent))
  | .call p e => do
      let h ← procCall poolSize p (procHeap s p) e
      .ok (setProcHeap s p h)

/-- The descriptors at `p` lie in kernel memory, apart from those of the
    processes there are. -/
def FreshPcb (s : UserHeaps) (p : Nat) : Prop :=
  kernelBase ≤ p ∧ p + 168 ≤ 2 ^ 32 ∧ ∀ q, q ∈ s.procs → p + 168 ≤ q ∨ q + 168 ≤ p

/-- The pages from `pg` on are free and lie in user memory. -/
def FreshUserRun (h : Heap) (pg n : Nat) : Prop :=
  pg % 4096 = 0 ∧ userVaddrStart ≤ pg ∧ pg + n * 4096 ≤ kernelBase ∧
    ∀ r, r ∈ h.runs → pg + n * 4096 ≤ r.1 ∨ r.1 + r.2 * 4096 ≤ pg

/-- `malloc_page` fails or hands out pages that are not in use; a process may
    pass any address to `sys_free`, and write to all of its user memory. -/
def callEnabled (h : Heap) : HeapEvent → Prop
  | .malloc size pg => size < 2 ^ 32 ∧
      (pg = 0 ∨ FreshUserRun h pg (if 1024 < size then largePages size else 1))
  | .free _ => True
  | .write x _ => x < kernelBase

/-- PCBs are placed where none is, and processes that exist fork and call. -/
def userEnabled (s : UserHeaps) : UserEvent → Prop
  | .create p _ => FreshPcb s p
  | .fork parent child => parent ∈ s.procs ∧ FreshPcb s child
  | .call p e => p ∈ s.procs ∧ callEnabled (procHeap s p).heap e

/-- Runs of any number of processes, from before the first one. -/
def userHeapSystem (poolSize : Nat) : System UserHeaps UserEvent Func where
  init := fun s => s.procs = []
  enabled := userEnabled
  step := userStep poolSize

end ForikOS
