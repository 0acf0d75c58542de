import ForikOS.Core.Memory

/-!
# Contexts and Kernel Stacks

How the processor gets from one task to another and back: `switch_to` of
`thread/switch.asm`, the interrupt entries and `intr_exit` of
`kernel/kernel.asm`, and the functions in C that lay out the stack of a task
that has never run, `thread_create`, `build_child_stack` and `start_process`,
with the frame that `sys_execv` changes.

A task has one page. The PCB is at its beginning, with `self_kstack` as the
first word, and the stack the task uses in the kernel grows down from its end.
So memory is a family of pages of words here, like physical memory, but found
by the address of the page. All of it is in the kernel's half, which is the same
in every address space.

The instructions are written one after the other, as in the source. A code
address is a number like any other, and what is at it is not part of the model:
a handler is what happens between the entry and the exit.

A return to a program clears the segment registers that hold a selector of the
kernel, as the processor does.

## Main definitions

* `Reg`, `Cpu`: The registers, and the processor with the stacks.
* `stackSlot`: The address of a word of a page.
* `interrupt`: What the processor does before the first instruction.
* `vectorEntry`, `intrExit`: An interrupt.
* `syscallHandler`, `syscallReturn`: A system call.
* `switchTo`: Another task runs.
* `threadCreate`, `buildChildStack`, `startProcess`, `execFrame`: The stack of a
  task before it runs.
-/

namespace ForikOS

/-- The registers. -/
inductive Reg
  | eax | ebx | ecx | edx | esi | edi | ebp | esp | eip | eflags | cs | ss | ds | es | fs | gs
  deriving DecidableEq, Repr

/-- What is in the registers. -/
abbrev Regs := Reg → Word

/-- The processor, the pages of the tasks by their address, and `tss.esp0`. -/
structure Cpu where
  regs : Regs
  mem : Word → Nat → Word
  esp0 : Word

/-- The page an address is in. -/
def pageBase (v : Word) : Word := v &&& 0xfffff000

/-- `SELECTOR_K_CODE`. -/
def selectorKCode : Word := 0x08

/-- `SELECTOR_K_STACK`, which is `tss.ss0`. -/
def selectorKStack : Word := 0x10

/-- `SELECTOR_U_CODE`. -/
def selectorUCode : Word := 0x2b

/-- `SELECTOR_U_DATA`. -/
def selectorUData : Word := 0x33

/-- `EFLAGS_IF_1`. -/
def eflagsIf : Word := 0x200

/-- A page begins at the address. -/
def PageAligned (t : Word) : Prop := t.toNat % 4096 = 0

instance (t : Word) : Decidable (PageAligned t) := inferInstanceAs (Decidable (_ = _))

/-- The address of word `k` of the page at `t`. -/
def stackSlot (t : Word) (k : Nat) : Word := t + BitVec.ofNat 32 (4 * k)

/-- The privilege level in a selector. -/
def rpl (sel : Word) : Word := sel &&& 3

/-- A segment register after a return to a program: the descriptors 1 to 4 are
    the kernel's. -/
def returnedSeg (sel : Word) : Word :=
  if 1 ≤ sel >>> 3 ∧ sel >>> 3 ≤ 4 then 0 else sel

namespace Cpu

/-- Change a register. -/
def set (c : Cpu) (r : Reg) (w : Word) : Cpu := { c with regs := Function.update c.regs r w }

/-- Read a word. -/
def load (c : Cpu) (v : Word) : Word := c.mem (pageBase v) (wordIdx v)

/-- Write a word. -/
def store (c : Cpu) (v w : Word) : Cpu :=
  let page := Function.update (c.mem (pageBase v)) (wordIdx v) w
  { c with mem := Function.update c.mem (pageBase v) page }

/-- `push`. -/
def push (c : Cpu) (w : Word) : Cpu :=
  (c.set .esp (c.regs .esp - 4)).store (c.regs .esp - 4) w

/-- `push` of one register after the other. -/
def pushRegs (c : Cpu) (rs : List Reg) : Cpu := rs.foldl (fun c r => c.push (c.regs r)) c

/-- `pop`. -/
def pop (c : Cpu) (r : Reg) : Cpu :=
  (c.set .esp (c.regs .esp + 4)).set r (c.load (c.regs .esp))

/-- `pop` into one register after the other. -/
def popRegs (c : Cpu) (rs : List Reg) : Cpu := rs.foldl pop c

/-- `add esp, n`. -/
def dropBytes (c : Cpu) (n : Word) : Cpu := c.set .esp (c.regs .esp + n)

/-- `pushad`. -/
def pushad (c : Cpu) : Cpu :=
  let temp := c.regs .esp
  let c := c.pushRegs [.eax, .ecx, .edx, .ebx]
  let c := c.push temp
  c.pushRegs [.ebp, .esi, .edi]

/-- `popad`, which passes over `esp`. -/
def popad (c : Cpu) : Cpu :=
  let c := c.popRegs [.edi, .esi, .ebp]
  let c := c.dropBytes 4
  c.popRegs [.ebx, .edx, .ecx, .eax]

/-- `call`, with the address behind it. -/
def call (c : Cpu) (target ret : Word) : Cpu := (c.push ret).set .eip target

/-- `ret`. -/
def ret (c : Cpu) : Cpu := c.pop .eip

/-- `iretd`. -/
def iretd (c : Cpu) : Cpu :=
  let cpl := rpl (c.regs .cs)
  let c := c.popRegs [.eip, .cs, .eflags]
  -- To a program: its stack comes from the frame too, and segment registers of the kernel are
  -- cleared.
  if cpl < rpl (c.regs .cs) then
    let c' := (c.set .esp (c.load (c.regs .esp))).set .ss (c.load (c.regs .esp + 4))
    [.ds, .es, .fs, .gs].foldl (fun c r => c.set r (returnedSeg (c.regs r))) c'
  else
    c

end Cpu

/-- What the processor does at an interrupt. From a program it goes to the stack
    that `tss` names first. The gates are interrupt gates. -/
def interrupt (c : Cpu) (gate : Word) : Cpu :=
  let old := c.regs
  -- In the kernel the stack in use goes on.
  let c := if rpl (old .cs) = 3 then
      (((c.set .esp c.esp0).set .ss selectorKStack).push (old .ss)).push (old .esp)
    else c
  let c := c.pushRegs [.eflags, .cs, .eip]
  ((c.set .eip gate).set .cs selectorKCode).set .eflags (old .eflags &&& ~~~eflagsIf)

/-- The macro `VECTOR`, up to the first instruction of the handler. The error
    code is pushed by the processor, or it is 0 and the macro pushes it. -/
def vectorEntry (c : Cpu) (errCode vecNo handler ret : Word) : Cpu :=
  let c := c.push errCode
  let c := c.pushRegs [.ds, .es, .fs, .gs]
  let c := c.pushad
  -- `mov al, 0x20`, the command for both controllers.
  let c := c.set .eax ((c.regs .eax &&& 0xffffff00) ||| 0x20)
  let c := c.push vecNo
  c.call handler ret

/-- `intr_exit`. -/
def intrExit (c : Cpu) : Cpu :=
  let c := c.dropBytes 4
  let c := c.popad
  let c := c.popRegs [.gs, .fs, .es, .ds]
  let c := c.dropBytes 4
  c.iretd

/-- `syscall_handler`, up to the first instruction of the function. -/
def syscallHandler (c : Cpu) (syscallTable : Word → Word) (ret : Word) : Cpu :=
  let c := c.push 0
  let c := c.pushRegs [.ds, .es, .fs, .gs]
  let c := c.pushad
  let c := c.push 0x80
  let c := c.pushRegs [.edx, .ecx, .ebx]
  c.call (syscallTable (c.regs .eax)) ret

/-- The rest of `syscall_handler`, behind the call. -/
def syscallReturn (c : Cpu) : Cpu :=
  let c := c.dropBytes 12
  -- Over the `eax` that `pushad` saved.
  let c := c.store (c.regs .esp + 8 * 4) (c.regs .eax)
  intrExit c

/-- `switch_to`, whose arguments are behind the address it returns to. -/
def switchTo (c : Cpu) : Cpu :=
  let c := c.pushRegs [.esi, .edi, .ebx, .ebp]
  -- `cur`, whose first word is `self_kstack`.
  let c := c.set .eax (c.load (c.regs .esp + 20))
  let c := c.store (c.regs .eax) (c.regs .esp)
  -- `next`: from here on the stack is another one.
  let c := c.set .eax (c.load (c.regs .esp + 24))
  let c := c.set .esp (c.load (c.regs .eax))
  let c := c.popRegs [.ebp, .ebx, .edi, .esi]
  c.ret

/-- `running_thread`. -/
def runningThread (c : Cpu) : Word := pageBase (c.regs .esp)

/-- `self_kstack` in `init_thread`. -/
def initKstack (c : Cpu) (pthread : Word) : Cpu := c.store pthread (pthread + pgSize)

/-- `thread_create`. The sizes are subtracted from a pointer to words. -/
def threadCreate (c : Cpu) (pthread function funcArg kernelThread : Word) : Cpu :=
  let c := c.store pthread (c.load pthread - 4 * 76)
  let c := c.store pthread (c.load pthread - 4 * 32)
  -- `struct thread_stack`, whose `eip` is where `switch_to` returns to.
  let kthreadStack := c.load pthread
  let c := c.store (kthreadStack + 16) kernelThread
  let c := c.store (kthreadStack + 24) function
  let c := c.store (kthreadStack + 28) funcArg
  let c := c.store kthreadStack 0
  let c := c.store (kthreadStack + 4) 0
  let c := c.store (kthreadStack + 12) 0
  c.store (kthreadStack + 8) 0

/-- The copy of the page of the parent in `copy_pcb_vaddrbitmap_stack0`. -/
def copyStack0 (c : Cpu) (child parent : Word) : Cpu :=
  { c with mem := Function.update c.mem child (c.mem parent) }

/-- `build_child_stack`. -/
def buildChildStack (c : Cpu) (child intrExitAddr : Word) : Cpu :=
  let intr0Stack := child + pgSize - 76
  -- `eax` of the child is 0, what `fork` returns there.
  let c := c.store (intr0Stack + 32) 0
  -- The return address of `switch_to`, and below it the four registers.
  let c := c.store (intr0Stack - 4) intrExitAddr
  let c := c.store (intr0Stack - 20) 0
  let c := c.store (intr0Stack - 16) 0
  let c := c.store (intr0Stack - 12) 0
  let c := c.store (intr0Stack - 8) 0
  c.store child (intr0Stack - 20)

/-- The registers that `start_process` gives a program. -/
def startRegs (function esp : Word) : Regs
  | .esp => esp
  | .eip => function
  | .eflags => 0x202
  | .cs => selectorUCode
  | .ss | .ds | .es | .fs => selectorUData
  | _ => 0

/-- The fields of `struct intr_stack` but for `vec_no`, `esp_dummy` and
    `err_code`. -/
def storeFrame (c : Cpu) (stack : Word) (r : Regs) : Cpu :=
  let c := c.store (stack + 4) (r .edi)
  let c := c.store (stack + 8) (r .esi)
  let c := c.store (stack + 12) (r .ebp)
  let c := c.store (stack + 20) (r .ebx)
  let c := c.store (stack + 24) (r .edx)
  let c := c.store (stack + 28) (r .ecx)
  let c := c.store (stack + 32) (r .eax)
  let c := c.store (stack + 36) (r .gs)
  let c := c.store (stack + 40) (r .fs)
  let c := c.store (stack + 44) (r .es)
  let c := c.store (stack + 48) (r .ds)
  let c := c.store (stack + 56) (r .eip)
  let c := c.store (stack + 60) (r .cs)
  let c := c.store (stack + 64) (r .eflags)
  let c := c.store (stack + 68) (r .esp)
  c.store (stack + 72) (r .ss)

/-- `start_process`, where `esp` is the end of the page that `get_a_page`
    returns. -/
def startProcess (c : Cpu) (function esp : Word) : Cpu :=
  let cur := runningThread c
  let c := c.store cur (c.load cur + 4 * 32)
  let procStack := c.load cur
  let c := c.store (procStack + 16) 0
  let c := storeFrame c procStack (startRegs function esp)
  intrExit (c.set .esp procStack)

/-- The end of `sys_execv`. -/
def execFrame (c : Cpu) (argv argc entryPoint : Word) : Cpu :=
  let intr0Stack := runningThread c + pgSize - 76
  let c := c.store (intr0Stack + 20) argv
  let c := c.store (intr0Stack + 28) argc
  let c := c.store (intr0Stack + 56) entryPoint
  let c := c.store (intr0Stack + 68) 0xc0000000
  intrExit (c.set .esp intr0Stack)

end ForikOS
