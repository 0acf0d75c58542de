import ForikOS.Core.FileSys
import ForikOS.Core.Fork

/-!
# Loading a Program

`load` of `user/exec.c` with `segment_load`, and `get_a_page` of `mm/memory.c`.

`load` reads the header of an executable file and then its program headers,
one after another, and loads the segments they describe. Where a segment goes
is up to the file. `segment_load` sees to it that every page the segment takes
is mapped, and has `sys_read` copy the bytes there. A page that is present
already is used as it is, whatever it is for.

What the loading does to memory is kept in a log: the bits it sets in the
bitmap of the process, the pages it maps, what their frames held, and where it
copies bytes to, with the program headers it finds. The log is not part of the
program. A read that a fault stops in the middle may have written any part of
its buffer, so it is logged with all of it.

The file system takes its buffers from the heap of the process that calls it,
which is the one that is being loaded. They have at most 1024 bytes, so each is
a block in an arena of one page. `sys_malloc` takes a page for an arena if there
is no free block, `sys_free` gives one back if nothing in it is used, and what
is read from the disk comes by the buffers. Which of this happens in a call
depends on all blocks that the process has. Here it is the `work` of the call, in
front of it and behind it: any sequence of such steps. If a segment is loaded
over an arena, the bytes of the file become the links of free blocks. What the
allocator does from then on is not modelled: the machine may stop any time.

The header of the file and the program header lie on the kernel stack. The
object that `inode_open` makes lies in the heap of the kernel, which is not part
of the process. Of `sys_execv` the arguments and the new stack frame are left
out. The new name is what is at the path once the program is loaded.

## Main definitions

* `Exec`: The kernel, the arenas of the process and the log.
* `LoadEvent`: What is logged.
* `BufferWork`: What a call does for its buffers.
* `Elf32Ehdr`, `Elf32Phdr`: The header of the file and a program header.
* `getAPage`: A page at a given address.
* `Exec.segmentLoad`, `Exec.load`, `sysExecv`: The functions of `user/exec.c`.
-/

namespace ForikOS

/-- The fields of `struct Elf32_Phdr` that `load` reads. -/
structure Elf32Phdr where
  pType : Nat
  pOffset : Nat
  pVaddr : Word
  pFilesz : Word
  deriving DecidableEq

/-- What the loading has found and done. -/
inductive LoadEvent
  | header (ph : Elf32Phdr)
  | setBit (bitIdx : Nat)
  /-- A page of a segment, with what is in its frame. -/
  | mapped (vaddr : Word) (held : Nat → Word)
  /-- A page for an arena. -/
  | arena (vaddr : Word)
  | copied (dst : Word) (n : Nat)
  /-- Bytes of a segment are about to be copied over an arena. -/
  | overHeap
  /-- The allocator has gone wrong. -/
  | lost

/-- What happens to the heap of the process. -/
inductive BufferWork
  /-- `sys_malloc` makes an arena. -/
  | take
  /-- `sys_free` gives back the arena in a page. -/
  | give (page : Nat)
  /-- A byte of a buffer or of an arena is written. -/
  | fill (dst : Word) (c : Byte)
  /-- The allocator follows a link that is none. -/
  | stray
  deriving DecidableEq

/-- The kernel, the pages in which the process has arenas, whether one of them
    has been overwritten, what the calls to come do for their buffers, and what
    has been logged, the last first. -/
structure Exec where
  kernel : Kernel
  arenas : List Nat
  damaged : Bool
  work : List (List BufferWork)
  log : List LoadEvent

/-- Programs over the kernel and the log. -/
abbrev ExecM := Prog Exec Func

namespace Exec

/-- Change the memory. -/
def setMem (s : Exec) (m : Machine) : Exec := { s with kernel := { s.kernel with mem := m } }

/-- Change the file system. -/
def setFs (s : Exec) (fs : Fs) : Exec := { s with kernel := { s.kernel with fs := fs } }

/-- Change the arenas. -/
def setArenas (s : Exec) (l : List Nat) : Exec := { s with arenas := l }

/-- Something is logged. -/
def push (s : Exec) (e : LoadEvent) : Exec := { s with log := e :: s.log }

/-- Log an event. -/
def record (e : LoadEvent) : ExecM Unit := Prog.modify (fun s => s.push e)

/-- A function of the allocator or the paging hardware. -/
def onMem {α : Type} (f : Machine → Except Func (Machine × α)) : ExecM α := do
  let m ← Prog.read (fun s => s.kernel.mem)
  match f m with
  | .error e => Prog.fail e
  | .ok (m, a) => do
      Prog.modify (fun s => s.setMem m)
      pure a

/-- One step of the work for the buffers. -/
def bufferStep : BufferWork → ExecM Unit
  | .take => do
      let a ← onMem (fun m => mallocPage m .user 1)
      if a = 0 then
        pure ()
      else do
        record (.arena a)
        Prog.modify (fun s => s.setArenas (a.toNat / 4096 :: s.arenas))
  | .give page => do
      let arenas ← Prog.read (fun s => s.arenas)
      if page ∈ arenas then do
        Prog.modify (fun s => s.setArenas (arenas.filter (· ≠ page)))
        onMem (fun m => (mfreePage m .user (BitVec.ofNat 32 (page * 4096)) 1).map (·, ()))
      else
        pure ()
  | .fill dst c => do
      let arenas ← Prog.read (fun s => s.arenas)
      if dst.toNat / 4096 ∈ arenas then do
        record (.copied dst 1)
        onMem (fun m => (storeByte m dst c).map (·, ()))
      else
        pure ()
  | .stray => do
      let damaged ← Prog.read (fun s => s.damaged)
      if damaged = true then do
        record .lost
        Prog.fail .load
      else
        pure ()

/-- The steps one after another. -/
def bufferSteps : List BufferWork → ExecM Unit
  | [] => pure ()
  | w :: ws => do
      bufferStep w
      bufferSteps ws

/-- What the next call does for its buffers, in front of it or behind it. -/
def buffers : ExecM Unit := do
  let work ← Prog.read (fun s => s.work)
  Prog.modify (fun s => { s with work := work.tail })
  bufferSteps (work.headD [])

/-- A call of the file system by the running process, whose number is the
    address of its PCB. -/
def onFs {α : Type} (x : Nat → FsM α) : ExecM α := do
  buffers
  let k ← Prog.read (fun s => s.kernel)
  match (x k.cur.toNat).run k.fs with
  | .error _ => Prog.fail .load
  | .ok (a, fs) => do
      Prog.modify (fun s => s.setFs fs)
      buffers
      pure a

end Exec

open Exec

/-- `get_a_page` sets the bit of the page in the bitmap of its owner. The index
    is a signed number. -/
def setVaddrBit (pf : PoolFlags) (vaddr : Word) : ExecM Unit := do
  let m ← Prog.read (fun s => s.kernel.mem)
  if m.cur.pgdir ≠ 0 ∧ pf = .user then do
    let bitIdx := (vaddr - m.cur.vaddrStart) / pgSize
    Prog.check (0 ≤ bitIdx.toInt) .getAPage
    record (.setBit bitIdx.toNat)
    onMem (fun m => (userBitmapSetRange bitIdx.toNat true 1 m).map (·, ()))
  else if m.cur.pgdir = 0 ∧ pf = .kernel then do
    let bitIdx := (vaddr - m.kernelVaddr.vaddrStart) / pgSize
    Prog.check (0 < bitIdx.toInt) .getAPage
    onMem (fun m =>
      .ok (m.setVaddrBitmap (bitmapSetRange m.kernelVaddr.vaddrBitmap bitIdx.toNat true 1), ()))
  else
    Prog.fail .getAPage

/-- `palloc` from a pool. -/
def pallocFrom (pf : PoolFlags) (m : Machine) : Except Func (Machine × Word) := do
  let (p, pagePhyaddr) ← palloc (m.pool pf)
  .ok (m.setPool p pf, pagePhyaddr)

/-- `get_a_page`. -/
def getAPage (pf : PoolFlags) (vaddr : Word) : ExecM Word := do
  -- The bit stays set if there is no frame.
  setVaddrBit pf vaddr
  let pagePhyaddr ← onMem (pallocFrom pf)
  if pagePhyaddr = 0 then
    pure 0
  else do
    let held ← Prog.read (fun s => s.kernel.mem.phys (pagePhyaddr.toNat / 4096))
    record (.mapped vaddr held)
    onMem (fun m => (pageTableAdd m vaddr pagePhyaddr).map (·, ()))
    pure vaddr

namespace Exec

/-- The pages a segment takes. -/
def occupyPages (filesz vaddr : Word) : Word :=
  let sizeInFirstPage := pgSize - (vaddr &&& 0x00000fff)
  if sizeInFirstPage < filesz then (filesz - sizeInFirstPage + pgSize - 1) / pgSize + 1
  else 1

/-- Whether a page is present. The entry of the page table is looked at only
    if there is a page table. -/
def pagePresent (vaddrPage : Word) (m : Machine) : Except Func (Machine × Bool) := do
  let pde ← ForikOS.load m (pdePtr vaddrPage)
  if isPresent pde then do
    let pte ← ForikOS.load m (ptePtr vaddrPage)
    .ok (m, isPresent pte)
  else
    .ok (m, false)

/-- The loop of `segment_load` over the pages: `n` of them from `vaddrPage`
    on. -/
def mapPages : Nat → Word → ExecM Bool
  | 0, _ => pure true
  | n + 1, vaddrPage => do
      -- A page that is there is used, whatever it is for.
      let present ← onMem (pagePresent vaddrPage)
      if present = true then
        mapPages n (vaddrPage + pgSize)
      else do
        let page ← getAPage .user vaddrPage
        if page = 0 then pure false else mapPages n (vaddrPage + pgSize)

/-- `n` bytes of a buffer are copied to a virtual address. -/
def storeBytes (dst : Word) (buf : Nat → Byte) : Nat → Machine → Except Func Machine
  | 0, m => .ok m
  | n + 1, m => do
      let m ← storeBytes dst buf n m
      storeByte m (dst + BitVec.ofNat 32 n) (buf n)

/-- The buffer of a `sys_read` at a virtual address. -/
def bufferAt (vaddr : Word) : Option (Nat → Byte) :=
  if vaddr = 0 then none else some (fun _ => 0)

/-- Whether one of the bytes at an address lies in an arena. -/
def overArena (arenas : List Nat) (vaddr : Word) (n : Nat) : Bool :=
  arenas.any (fun q =>
    decide (0 < n ∧ vaddr.toNat < (q + 1) * 4096 ∧ q * 4096 < vaddr.toNat + n))

/-- From here on the links in an arena may be bytes of the file. -/
def spoilArenas (vaddr : Word) (n : Nat) : ExecM Unit := do
  let arenas ← Prog.read (fun s => s.arenas)
  if overArena arenas vaddr n = true then do
    record .overHeap
    Prog.modify (fun s => { s with damaged := true })
  else
    pure ()

/-- `sys_read` into memory at a virtual address. -/
def readTo (fd : Int) (vaddr filesz : Word) : ExecM Unit := do
  buffers
  let k ← Prog.read (fun s => s.kernel)
  match (sysRead k.cur.toNat fd (bufferAt vaddr) filesz.toNat).run k.fs with
  | .error _ => do
      record (.copied vaddr filesz.toNat)
      Prog.fail .load
  | .ok ((n, buf), fs) => do
      Prog.modify (fun s => s.setFs fs)
      spoilArenas vaddr n.toNat
      record (.copied vaddr n.toNat)
      onMem (fun m => (storeBytes vaddr buf n.toNat m).map (·, ()))
      buffers

/-- `segment_load`. -/
def segmentLoad (fd : Int) (offset : Nat) (filesz vaddr : Word) : ExecM Bool := do
  let vaddrFirstPage := vaddr &&& 0xfffff000
  let done ← mapPages (occupyPages filesz vaddr).toNat vaddrFirstPage
  if done = true then do
    -- Neither the position nor the number of bytes is checked.
    let _ ← onFs (fun t => sysLseek t fd (toInt32 offset) 1)
    readTo fd vaddr filesz
    pure true
  else
    pure false

/-- The little-endian half word at an offset. -/
def le16 (b : Nat → Byte) (off : Nat) : Nat := (b off).toNat + 256 * (b (off + 1)).toNat

/-- The fields of `struct Elf32_Ehdr` that `load` reads. -/
structure Elf32Ehdr where
  eIdent : Nat → Byte
  eType : Nat
  eMachine : Nat
  eVersion : Nat
  eEntry : Nat
  ePhoff : Nat
  ePhentsize : Nat
  ePhnum : Nat

/-- `sizeof(struct Elf32_Ehdr)`. -/
def ehdrSize : Nat := 52

/-- `sizeof(struct Elf32_Phdr)`. -/
def phdrSize : Nat := 32

/-- The header of a file in a buffer. -/
def decodeEhdr (b : Nat → Byte) : Elf32Ehdr where
  eIdent := b
  eType := le16 b 16
  eMachine := le16 b 18
  eVersion := le32 b 20
  eEntry := le32 b 24
  ePhoff := le32 b 28
  ePhentsize := le16 b 42
  ePhnum := le16 b 44

/-- A program header in a buffer. -/
def decodePhdr (b : Nat → Byte) : Elf32Phdr where
  pType := le32 b 0
  pOffset := le32 b 4
  pVaddr := BitVec.ofNat 32 (le32 b 8)
  pFilesz := BitVec.ofNat 32 (le32 b 16)

/-- The bytes of `"\177ELF\1\1\1"`. -/
def elfIdent : Str := [0x7f, 0x45, 0x4c, 0x46, 1, 1, 1]

/-- The checks of `load` on the header. -/
def ehdrOk (h : Elf32Ehdr) : Bool :=
  (List.range 7).all (fun k => h.eIdent k == elfIdent.getD k 0) && decide (h.eType = 2) &&
    decide (h.eMachine = 3) && decide (h.eVersion = 1) && decide (h.ePhentsize = phdrSize)

/-- `PT_LOAD`. -/
def ptLoad : Nat := 1

/-- The loop of `load` over the program headers: `n` of them from an offset on.
    The answer is whether all is loaded. -/
def loadHeaders (fd : Int) : Nat → Nat → ExecM Bool
  | 0, _ => pure true
  | n + 1, progHeaderOffset => do
      -- An offset that is refused leaves the position where it is.
      let _ ← onFs (fun t => sysLseek t fd (toInt32 progHeaderOffset) 1)
      let (count, buf) ← onFs (fun t => sysRead t fd (some (fun _ => 0)) phdrSize)
      if count ≠ phdrSize then
        pure false
      else do
        record (.header (decodePhdr buf))
        if (decodePhdr buf).pType = ptLoad then do
          let done ← segmentLoad fd (decodePhdr buf).pOffset (decodePhdr buf).pFilesz
            (decodePhdr buf).pVaddr
          if done = true then loadHeaders fd n (add32 progHeaderOffset phdrSize) else pure false
        else
          loadHeaders fd n (add32 progHeaderOffset phdrSize)

/-- `load` once the file is open. -/
def loadOpened (fd : Int) : ExecM Int := do
  let (count, buf) ← onFs (fun t => sysRead t fd (some (fun _ => 0)) ehdrSize)
  if count ≠ ehdrSize then
    pure (-1)
  else if ehdrOk (decodeEhdr buf) = false then
    pure (-1)
  else do
    let done ← loadHeaders fd (decodeEhdr buf).ePhnum (decodeEhdr buf).ePhoff
    pure (if done = true then toInt32 (decodeEhdr buf).eEntry else -1)

/-- `load`. -/
def load (pathname : Str) : ExecM Int := do
  let fd ← onFs (fun t => sysOpen t pathname 0)
  if fd = -1 then
    pure (-1)
  else do
    let ret ← loadOpened fd
    let _ ← onFs (fun t => sysClose t fd)
    pure ret

end Exec

/-- `TASK_NAME_LEN`. -/
def taskNameLen : Nat := 16

/-- The bytes `memcpy` finds at a virtual address. -/
def loadBytes (m : Machine) (src : Word) : Nat → Except Func Str
  | 0 => .ok []
  | n + 1 => do
      let l ← loadBytes m src n
      let b ← loadByte m (src + BitVec.ofNat 32 n)
      .ok (l ++ [b])

/-- The name in the bytes of a PCB whose last byte is cleared. -/
def nameIn (found : Str) : Str := (found.take (taskNameLen - 1)).takeWhile (· ≠ 0)

/-- `sys_execv` renames the running process. -/
def renameCur (path : Word) (k : Kernel) : Except Func Kernel := do
  let found ← loadBytes k.mem path taskNameLen
  .ok (k.setPcb k.cur { k.pcb k.cur with name := nameIn found })

/-- `sys_execv` of the path at an address. It returns only if the program could
    not be loaded. -/
def sysExecv (pathname : Str) (path : Word) : ExecM Int := do
  let entryPoint ← Exec.load pathname
  if entryPoint = -1 then
    pure (-1)
  else do
    let k ← Prog.read (fun s => s.kernel)
    match renameCur path k with
    | .error e => Prog.fail e
    | .ok k => do
        Prog.modify (fun s => { s with kernel := k })
        pure 0

end ForikOS
