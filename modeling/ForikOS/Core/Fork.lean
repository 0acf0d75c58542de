import ForikOS.Core.FsState
import ForikOS.Core.Memory
import ForikOS.Core.Thread

/-!
# Fork

`sys_fork` of `user/fork.c` with the parts of `user/process.c` and
`mm/memory.c` it calls.

The child gets a page for its PCB, pages for its own bitmap of user
addresses, and a page directory whose kernel half is copied from the active
one. The pages of the parent are then copied one at a time. A page is not
visible in both address spaces at once, so its contents go through a kernel
page: read under the parent's directory, written under the child's, with CR3
switched in between. Every access of the model goes through `walk`, under
whichever directory is active at that moment.

PCBs are records found by their address. The copy of the kernel stack in the
PCB page, the stack frame that `build_child_stack` puts there and the
descriptors of the user heap are not read by anything in the model and are
left out.

## Main definitions

* `Pcb`, `Kernel`: The state.
* `memcpyIn`, `memcpyPages`: `memcpy` through the paging hardware.
* `createPageDir`, `pageDirActivate`: The functions of `user/process.c`.
* `getAPageWithoutOpvaddrbitmap`: A page at a given address.
* `copyPcbVaddrbitmapStack0`, `copyBodyStack3`, `updateInodeOpenCnts`,
  `copyProcess`, `sysFork`: The functions of `user/fork.c`.
-/

namespace ForikOS

/-- The fields of `struct task_struct` that `sys_fork` reads or sets, but for
    `fd_table`, which is part of the file system. -/
structure Pcb where
  pid : Nat
  parentPid : Int
  status : TaskStatus
  name : Str
  priority : UInt8
  ticks : UInt8
  elapsedTicks : UInt32
  mem : ProcMem

/-- The kernel: memory, the pids, the file system, the PCBs by their address,
    the running process and the two lists of tasks. -/
structure Kernel where
  mem : Machine
  pidPool : Bitmap
  fs : Fs
  pcb : Word → Pcb
  cur : Word
  threadReadyList : List Word
  threadAllList : List Word

namespace Kernel

/-- Change one PCB. -/
def setPcb (k : Kernel) (a : Word) (v : Pcb) : Kernel := { k with pcb := Function.update k.pcb a v }

end Kernel

/-- `memcpy` of `n` words that lie in one page on either side. -/
def memcpyIn (m : Machine) (dst src : Word) (n : Nat) : Except Func Machine :=
  match walk m src, walk m dst with
  | some fs, some fd =>
      .ok (m.setFrame fd (fun i =>
        if wordIdx dst ≤ i ∧ i < wordIdx dst + n then m.phys fs (wordIdx src + (i - wordIdx dst))
        else m.phys fd i))
  | _, _ => .error .pageFault

/-- `memcpy` of `n` whole pages. -/
def memcpyPages : Nat → Machine → Word → Word → Except Func Machine
  | 0, m, _, _ => .ok m
  | n + 1, m, dst, src => do
      let m ← memcpyIn m dst src 1024
      memcpyPages n m (dst + pgSize) (src + pgSize)

/-- `create_page_dir`: the kernel half of the active directory, and an entry
    for the new directory itself. -/
def createPageDir (m : Machine) : Except Func (Machine × Word) := do
  let (m, pageDirVaddr) ← getKernelPages m 1
  if pageDirVaddr = 0 then
    .ok (m, 0)
  else
    -- The entries from 768 on.
    let m ← memcpyIn m (pageDirVaddr + 0x300 * 4) (0xfffff000 + 0x300 * 4) 256
    -- The last entry points to the directory itself.
    let newPageDirPhyAddr ← addrV2p m pageDirVaddr
    let m ← store m (pageDirVaddr + 1023 * 4) (entryFor newPageDirPhyAddr)
    .ok (m, pageDirVaddr)

/-- `page_dir_activate`. -/
def pageDirActivate (m : Machine) (pgdir : Word) : Except Func Machine := do
  -- A kernel thread runs in the directory the loader made.
  let pagedirPhyAddr ← if pgdir ≠ 0 then addrV2p m pgdir else .ok 0x100000
  .ok { m with cr3 := frameOf pagedirPhyAddr }

/-- `get_a_page_without_opvaddrbitmap`. -/
def getAPageWithoutOpvaddrbitmap (m : Machine) (pf : PoolFlags) (vaddr : Word) :
    Except Func (Machine × Word) := do
  let (p, pagePhyaddr) ← palloc (m.pool pf)
  let m := m.setPool p pf
  if pagePhyaddr = 0 then
    .ok (m, 0)
  else
    let m ← pageTableAdd m vaddr pagePhyaddr
    .ok (m, vaddr)

/-- `USER_VADDR_START`. -/
def userVaddrStart : Nat := 0x8048000

/-- `btmp_bytes_len` of a process. -/
def userBitmapLen : Nat := (0xc0000000 - userVaddrStart) / 4096 / 8

/-- The pages the bitmap of a process takes. -/
def bitmapPgCnt : Nat := (userBitmapLen + 4096 - 1) / 4096

/-- `fork_pid`. -/
def forkPid (b : Bitmap) : Except Func (Bitmap × Nat) := allocatePid b

/-- The bytes of `"init"`. -/
def initName : Str := [0x69, 0x6e, 0x69, 0x74]

/-- The bytes of `"_fork"`. -/
def forkSuffix : Str := [0x5f, 0x66, 0x6f, 0x72, 0x6b]

/-- The file system when the child has got the parent's descriptors and working
    directory. -/
def inheritFds (s : Fs) (child parent : Nat) : Fs :=
  { s with
    fdTable := Function.update s.fdTable child (s.fdTable parent)
    cwdInodeNr := Function.update s.cwdInodeNr child (s.cwdInodeNr parent)
    isUser := Function.update s.isUser child true }

/-- `copy_pcb_vaddrbitmap_stack0`: whether it succeeds. -/
def copyPcbVaddrbitmapStack0 (k : Kernel) (child parent : Word) : Except Func (Kernel × Bool) := do
  let fs := inheritFds k.fs child.toNat parent.toNat
  let (pool, pid) ← forkPid k.pidPool
  let v := k.pcb parent
  let c : Pcb := { v with
    pid := pid
    elapsedTicks := 0
    status := .ready
    ticks := v.priority
    parentPid := v.pid }
  -- `memcpy` of the whole PCB, then the fields of the child.
  let k := { k with fs := fs, pidPool := pool }.setPcb child c
  let (m, vaddrBtmp) ← getKernelPages k.mem bitmapPgCnt
  let k := { k with mem := m }
  if vaddrBtmp = 0 then
    .ok (k, false)
  else
    let m ← memcpyPages bitmapPgCnt k.mem vaddrBtmp c.mem.bits
    -- For debugging, says the source; it stops the third fork in a row.
    ensure (c.name.length < 11) .copyPcb
    .ok ({ k with mem := m }.setPcb child
      { c with name := c.name ++ forkSuffix, mem := { c.mem with bits := vaddrBtmp } }, true)

/-- One page of `copy_body_stack3`. -/
def copyPage (m : Machine) (child parent : ProcMem) (bufPage progVaddr : Word) :
    Except Func Machine := do
  let m ← memcpyIn m bufPage progVaddr 1024
  let m ← pageDirActivate m child.pgdir
  -- The result is not tested.
  let (m, _) ← getAPageWithoutOpvaddrbitmap m .user progVaddr
  let m ← memcpyIn m progVaddr bufPage 1024
  pageDirActivate m parent.pgdir

/-- The inner loop of `copy_body_stack3`, over the bits of one byte. -/
def copyBits (child parent : ProcMem) (bufPage : Word) (idxByte : Nat) :
    Nat → Nat → Machine → Except Func Machine
  | 0, _, m => .ok m
  | n + 1, idxBit, m => do
      let byte ← loadByte m (parent.bits + BitVec.ofNat 32 idxByte)
      let m ← if (1#8 <<< idxBit) &&& byte ≠ 0 then
          copyPage m child parent bufPage
            (BitVec.ofNat 32 (idxByte * 8 + idxBit) * pgSize + parent.vaddrStart)
        else
          .ok m
      copyBits child parent bufPage idxByte n (idxBit + 1) m

/-- The outer loop of `copy_body_stack3`, over the bytes of the bitmap. -/
def copyBytes (child parent : ProcMem) (bufPage : Word) :
    Nat → Nat → Machine → Except Func Machine
  | 0, _, m => .ok m
  | n + 1, idxByte, m => do
      let byte ← loadByte m (parent.bits + BitVec.ofNat 32 idxByte)
      let m ← if byte ≠ 0 then copyBits child parent bufPage idxByte 8 0 m else .ok m
      copyBytes child parent bufPage n (idxByte + 1) m

/-- `copy_body_stack3`. -/
def copyBodyStack3 (m : Machine) (child parent : ProcMem) (bufPage : Word) : Except Func Machine :=
  copyBytes child parent bufPage parent.btmpBytesLen 0 m

/-- `update_inode_open_cnts` of task `t`, called by `cur`, from descriptor
    `localFd` on. -/
def updateInodeOpenCntsFrom (cur t : Nat) : Nat → Nat → Fs → Except Func Fs
  | 0, _, s => .ok s
  | n + 1, localFd, s => do
      let globalFd := s.fdTable t localFd
      ensure (globalFd < maxFileOpen) .updateInodeOpenCnts
      let s ← if globalFd ≠ -1 then
          match (s.fileTable globalFd.toNat).fdInode with
          -- `fd_inode` is NULL.
          | none => .error .pageFault
          | some a => do
              ensure (s.Sees cur a) .pageFault
              .ok (s.setInode a { s.inode a with iOpenCnts := add32 (s.inode a).iOpenCnts 1 })
        else
          .ok s
      updateInodeOpenCntsFrom cur t n (localFd + 1) s

/-- `update_inode_open_cnts`. -/
def updateInodeOpenCnts (s : Fs) (cur t : Nat) : Except Func Fs :=
  updateInodeOpenCntsFrom cur t (maxFilesOpenPerProc - 3) 3 s

/-- `copy_process`: whether it succeeds. -/
def copyProcess (k : Kernel) (child parent : Word) : Except Func (Kernel × Bool) := do
  let (m, bufPage) ← getKernelPages k.mem 1
  let k := { k with mem := m }
  if bufPage = 0 then
    -- Nothing that was taken is given back, here or below.
    .ok (k, false)
  else
    let (k, done) ← copyPcbVaddrbitmapStack0 k child parent
    if done = false then
      .ok (k, false)
    else
      let (m, pgdir) ← createPageDir k.mem
      let c := k.pcb child
      let k := { k with mem := m }.setPcb child { c with mem := { c.mem with pgdir := pgdir } }
      if pgdir = 0 then
        .ok (k, false)
      else
        let m ← copyBodyStack3 k.mem (k.pcb child).mem (k.pcb parent).mem bufPage
        let fs ← updateInodeOpenCnts k.fs parent.toNat child.toNat
        let m ← mfreePage m .kernel bufPage 1
        .ok ({ k with mem := m, fs := fs }, true)

/-- `sys_fork`: the pid of the child, or `-1`. -/
def sysFork (k : Kernel) : Except Func (Kernel × Int) := do
  let parent := k.cur
  let (m, child) ← getKernelPages k.mem 1
  let k := { k with mem := m }
  if child = 0 then
    .ok (k, -1)
  else
    ensure ((k.pcb parent).mem.pgdir ≠ 0) .sysFork
    let (k, done) ← copyProcess k child parent
    if done = false then
      .ok (k, -1)
    else
      -- `child_thread` enters both lists at the tail.
      ensure (child ∉ k.threadReadyList) .sysFork
      ensure (child ∉ k.threadAllList) .sysFork
      .ok ({ k with
        threadReadyList := k.threadReadyList ++ [child]
        threadAllList := k.threadAllList ++ [child] }, (k.pcb child).pid)

end ForikOS
