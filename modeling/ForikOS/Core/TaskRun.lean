import ForikOS.Core.Context
import ForikOS.Lib.System

/-!
# Tasks on One Processor

Everything that moves the processor between programs and the kernel and between
the tasks, in any order. The instructions are the ones of `Core/Context`.

Between those moves a program runs, or the C code of the kernel does. Of that
code the model has what C promises about stacks: it keeps to the free part of
the stack it runs on, and to no other stack. What it does besides is arbitrary.
It may write PCBs, which are below the stacks, but not a `self_kstack`.

That a program leaves the stacks and PCBs alone is an assumption about programs.
The pages of the kernel are mapped with `PG_US_U`, so nothing enforces it.

Interrupts come in programs and in the kernel, so there may be several frames on
one stack. `frames` remembers where they begin.

What a task is for is said by `Vcpus`. Every task has a processor of its own,
with all the registers and a stack, and only one of them runs at a time. A
processor that is interrupted remembers its registers. One that calls
`switch_to` keeps those that C keeps for a caller. No step of one of them
changes another.

## Main definitions

* `Tasks`, `TaskEvent`, `taskSystem`: The processor that the tasks share.
* `Vcpu`, `Vcpus`, `vcpuSystem`: One processor for each task.
-/

namespace ForikOS

/-- The processor and the tasks. -/
structure Tasks where
  cpu : Cpu
  /-- The task that runs. -/
  cur : Word
  /-- The PCBs. -/
  tasks : List Word
  /-- Whether `pgdir` is set. -/
  pgdir : Word → Bool
  /-- The frames of the entries that have not been left, the last one first. -/
  frames : Word → List Nat

/-- What happens on the processor. -/
inductive TaskEvent
  /-- Instructions of a program, up to these registers. -/
  | program (r : Regs)
  /-- C code of the kernel. -/
  | kernel (c : Cpu)
  | intr (gate errCode vecNo handler ret : Word)
  | intrExit
  | syscall (gate : Word) (syscallTable : Word → Word) (ret : Word)
  | syscallReturn
  /-- The end of `schedule`. -/
  | schedule (next ret : Word)
  /-- `thread_start`, or `process_execute` where `pgdir` is set. -/
  | threadStart (t function funcArg kernelThread : Word) (pgdir : Bool)
  | fork (child intrExitAddr : Word)
  | startProcess (function esp : Word)
  | execv (argv argc entryPoint : Word)
  /-- `thread_exit` of the running task. -/
  | threadExit (next ret : Word)
  /-- `thread_exit` of another task. -/
  | reap (t : Word)

namespace Tasks

/-- Where the free part of the stack of a task ends. -/
def top (s : Tasks) (t : Word) : Nat := (s.frames t).headD 1024

/-- `process_activate`, and the call of `switch_to`. -/
def switchCall (s : Tasks) (next ret : Word) : Cpu :=
  let cur := runningThread s.cpu
  let c := if s.pgdir next then { s.cpu with esp0 := next + pgSize } else s.cpu
  switchTo (((c.push next).push cur).call 0 ret)

end Tasks

/-- One event. -/
def taskStep (s : Tasks) : TaskEvent → Except Empty Tasks
  | .program r => .ok { s with cpu := { s.cpu with regs := r } }
  | .kernel c => .ok { s with cpu := c }
  | .intr gate errCode vecNo handler ret =>
      let c := vectorEntry (interrupt s.cpu gate) errCode vecNo handler ret
      -- The frame begins above the return address.
      let frame := wordIdx (c.regs .esp) + 1
      .ok { s with cpu := c, frames := Function.update s.frames s.cur (frame :: s.frames s.cur) }
  | .intrExit =>
      .ok { s with
        cpu := intrExit s.cpu
        frames := Function.update s.frames s.cur (s.frames s.cur).tail }
  | .syscall gate syscallTable ret =>
      let c := syscallHandler (interrupt s.cpu gate) syscallTable ret
      -- Above the return address and three arguments.
      let frame := wordIdx (c.regs .esp) + 4
      .ok { s with cpu := c, frames := Function.update s.frames s.cur (frame :: s.frames s.cur) }
  | .syscallReturn =>
      .ok { s with
        cpu := syscallReturn s.cpu
        frames := Function.update s.frames s.cur (s.frames s.cur).tail }
  | .schedule next ret => .ok { s with cpu := s.switchCall next ret, cur := next }
  | .threadStart t function funcArg kernelThread pgdir =>
      .ok { s with
        cpu := threadCreate (initKstack s.cpu t) t function funcArg kernelThread
        tasks := t :: s.tasks
        pgdir := Function.update s.pgdir t pgdir
        frames := Function.update s.frames t [] }
  | .fork child intrExitAddr =>
      .ok { s with
        cpu := buildChildStack (copyStack0 s.cpu child s.cur) child intrExitAddr
        tasks := child :: s.tasks
        pgdir := Function.update s.pgdir child true
        -- The frame of the parent has been copied with its page.
        frames := Function.update s.frames child (s.frames s.cur) }
  | .startProcess function esp => .ok { s with cpu := startProcess s.cpu function esp }
  | .execv argv argc entryPoint =>
      .ok { s with
        cpu := execFrame s.cpu argv argc entryPoint
        frames := Function.update s.frames s.cur [] }
  | .threadExit next ret =>
      .ok { s with
        cpu := s.switchCall next ret
        cur := next
        tasks := s.tasks.filter (· ≠ s.cur) }
  | .reap t => .ok { s with tasks := s.tasks.filter (· ≠ t) }

/-- The segment registers of a program have nothing of the kernel's. -/
structure ProgramRegs (r : Regs) : Prop where
  cs : rpl (r .cs) = 3
  data : ∀ sel ∈ [Reg.ds, .es, .fs, .gs], returnedSeg (r sel) = r sel

/-- The running task is in the kernel, with room for `n` words on its stack. -/
def InKernel (s : Tasks) (n : Nat) : Prop :=
  rpl (s.cpu.regs .cs) = 0 ∧ ∃ k, 0 < k ∧ k + n < 1024 ∧ s.cpu.regs .esp = stackSlot s.cur (k + n)

/-- The running task is in a system call, and nothing interrupted it there. -/
def InSyscall (s : Tasks) : Prop :=
  rpl (s.cpu.regs .cs) = 0 ∧ s.frames s.cur = [1005] ∧ rpl (s.cpu.mem s.cur 1020) = 3

/-- What C promises about the stacks. -/
structure KernelCode (s : Tasks) (c : Cpu) : Prop where
  cs : c.regs .cs = s.cpu.regs .cs
  ss : c.regs .ss = s.cpu.regs .ss
  esp0 : c.esp0 = s.cpu.esp0
  esp : ∃ k, 0 < k ∧ k < 1024 ∧ k ≤ s.top s.cur ∧ c.regs .esp = stackSlot s.cur k
  own : ∀ k, s.top s.cur < k → k < 1024 → c.mem s.cur k = s.cpu.mem s.cur k
  kstack : ∀ t ∈ s.tasks, t ≠ s.cur → c.mem t 0 = s.cpu.mem t 0
  others : ∀ t ∈ s.tasks, t ≠ s.cur → ∀ k, wordIdx (s.cpu.mem t 0) ≤ k → k < 1024 →
    c.mem t k = s.cpu.mem t k

/-- Where an event may happen. -/
def taskEnabled (s : Tasks) : TaskEvent → Prop
  | .program r => rpl (s.cpu.regs .cs) = 3 ∧ ProgramRegs r
  | .kernel c => rpl (s.cpu.regs .cs) = 0 ∧ KernelCode s c
  | .intr .. => rpl (s.cpu.regs .cs) = 3 ∨ InKernel s 18
  | .intrExit => rpl (s.cpu.regs .cs) = 0 ∧ ∃ b ∈ (s.frames s.cur).head?, s.cpu.regs .esp = stackSlot s.cur b
  | .syscall .. => rpl (s.cpu.regs .cs) = 3
  | .syscallReturn => InSyscall s ∧ s.cpu.regs .esp = stackSlot s.cur 1002
  | .schedule next _ => InKernel s 7 ∧ next ∈ s.tasks
  | .threadStart t .. => rpl (s.cpu.regs .cs) = 0 ∧ t ∉ s.tasks ∧ PageAligned t
  | .fork child _ => InSyscall s ∧ child ∉ s.tasks ∧ PageAligned child
  | .startProcess .. =>
      rpl (s.cpu.regs .cs) = 0 ∧ s.frames s.cur = [] ∧ s.pgdir s.cur = true ∧
        ∃ k, 0 < k ∧ k + 51 ≤ 1024 ∧ s.cpu.mem s.cur 0 = stackSlot s.cur k
  | .execv .. => InSyscall s
  | .threadExit next _ => InKernel s 7 ∧ next ∈ s.tasks ∧ next ≠ s.cur
  | .reap t => rpl (s.cpu.regs .cs) = 0 ∧ t ≠ s.cur

/-- The beginning: the main thread alone, in the kernel. -/
structure TaskInit (s : Tasks) : Prop where
  aligned : PageAligned s.cur
  tasks : s.tasks = [s.cur]
  pgdir : s.pgdir s.cur = false
  frames : s.frames s.cur = []
  cs : s.cpu.regs .cs = selectorKCode
  ss : s.cpu.regs .ss = selectorKStack
  esp : ∃ k, 0 < k ∧ k < 1024 ∧ s.cpu.regs .esp = stackSlot s.cur k

/-- The processor that the tasks share. -/
def taskSystem : System Tasks TaskEvent Empty where
  init := TaskInit
  enabled := taskEnabled
  step := taskStep

/-! ## One processor for each task -/

/-- A processor for one task. -/
structure Vcpu where
  regs : Regs
  /-- The stack in the kernel. -/
  stack : Nat → Word
  /-- The registers of what was interrupted, the last one first. -/
  suspended : List Regs

/-- The processors of all tasks, of which one runs. -/
structure Vcpus where
  cur : Word
  cpus : Word → Option Vcpu

/-- What a processor of a task does. -/
inductive VcpuEvent
  /-- Code, which leaves these registers and this stack. -/
  | run (r : Regs) (stack : Nat → Word)
  /-- An interrupt: the handler begins with these registers and this stack. -/
  | enter (r : Regs) (stack : Nat → Word)
  /-- The return from it. -/
  | leave
  /-- A system call with the function that its number selects. -/
  | call (r : Regs) (stack : Nat → Word) (syscallTable : Word → Word)
  /-- The return from it, with a result. -/
  | return (result : Word)
  /-- The running processor waits, with what is on its stack, and `next` runs with
      these registers. -/
  | switch (next ret : Word) (stack : Nat → Word) (r : Regs)
  /-- A new processor, which begins with a call of `kernel_thread`. -/
  | create (t function funcArg kernelThread : Word) (v : Vcpu)
  /-- A copy of what was interrupted for a new processor. -/
  | fork (t : Word) (v : Vcpu)
  /-- A program begins. -/
  | start (function esp : Word)
  /-- Another program begins in the place of the one that was interrupted. -/
  | exec (argv argc entryPoint : Word)
  /-- The running processor goes away, and another one runs. -/
  | exit (next : Word) (r : Regs)
  /-- Another processor goes away. -/
  | drop (t : Word)

/-- What a caller finds as it was: the registers that C keeps for it, and the
    place on the stack and in the code. -/
def KeptRegs (r r' : Regs) : Prop :=
  ∀ x ∈ [Reg.ebx, .esi, .edi, .ebp, .esp, .eip], r x = r' x

/-- The registers a task continues with behind a call of `switch_to`, whose
    arguments are on the stack then. -/
def callerRegs (r : Regs) (ret : Word) : Regs :=
  Function.update (Function.update r .eip ret) .esp (r .esp - 8)

/-- The registers that `sys_execv` gives a program. -/
def execRegs (r : Regs) (argv argc entryPoint : Word) : Regs :=
  Function.update (Function.update (Function.update (Function.update r .ebx argv) .ecx argc)
    .eip entryPoint) .esp 0xc0000000

/-- A processor waits, behind a call of `switch_to`. -/
def Vcpu.wait (v : Vcpu) (ret : Word) (stack : Nat → Word) : Vcpu :=
  { v with regs := callerRegs v.regs ret, stack := stack }

namespace Vcpus

/-- The running processor changes. -/
def setCur (a : Vcpus) (v : Vcpu) : Vcpus :=
  { a with cpus := Function.update a.cpus a.cur (some v) }

/-- Another processor runs, with these registers. -/
def resume (a : Vcpus) (next : Word) (r : Regs) : Vcpus where
  cur := next
  cpus := Function.update a.cpus next ((a.cpus next).map fun v => { v with regs := r })

end Vcpus

/-- One step of a processor. -/
def vcpuStep (a : Vcpus) (e : VcpuEvent) : Except Empty Vcpus :=
  match a.cpus a.cur with
  | none => .ok a
  | some v =>
      match e with
      | .run r stack => .ok (a.setCur { v with regs := r, stack := stack })
      | .enter r stack | .call r stack _ =>
          .ok (a.setCur { regs := r, stack := stack, suspended := v.regs :: v.suspended })
      | .leave =>
          .ok (a.setCur { v with regs := v.suspended.headD v.regs, suspended := v.suspended.tail })
      | .return result =>
          let r := Function.update (v.suspended.headD v.regs) .eax result
          .ok (a.setCur { v with regs := r, suspended := v.suspended.tail })
      | .switch next ret stack r => .ok ((a.setCur (v.wait ret stack)).resume next r)
      | .create t _ _ _ v' | .fork t v' =>
          .ok { a with cpus := Function.update a.cpus t (some v') }
      | .start function esp => .ok (a.setCur { v with regs := startRegs function esp })
      | .exec argv argc entryPoint =>
          let r := execRegs (v.suspended.headD v.regs) argv argc entryPoint
          .ok (a.setCur { v with regs := r, suspended := v.suspended.tail })
      | .exit next r => .ok ({ a with cpus := Function.update a.cpus a.cur none }.resume next r)
      | .drop t => .ok { a with cpus := Function.update a.cpus t none }

/-- Where a step may happen, and with what. -/
def vcpuEnabled (a : Vcpus) (e : VcpuEvent) : Prop :=
  match a.cpus a.cur with
  | none => False
  | some v =>
      match e with
      | .run r _ => rpl (r .cs) = rpl (v.regs .cs)
      | .enter r _ => rpl (r .cs) = 0
      | .leave => v.suspended ≠ []
      | .call r stack syscallTable =>
          rpl (v.regs .cs) = 3 ∧ rpl (r .cs) = 0 ∧ r .eip = syscallTable (v.regs .eax) ∧
            r .esp = stackSlot a.cur 1001 ∧ stack 1002 = v.regs .ebx ∧ stack 1003 = v.regs .ecx ∧
            stack 1004 = v.regs .edx
      | .return _ => ∃ r, v.suspended = [r] ∧ rpl (r .cs) = 3
      | .switch next ret stack r =>
          (∀ k, wordIdx (v.regs .esp) ≤ k → k < 1024 → stack k = v.stack k) ∧
            ∃ w, (a.setCur (v.wait ret stack)).cpus next = some w ∧ KeptRegs r w.regs
      | .create t function funcArg kernelThread v' =>
          a.cpus t = none ∧ v'.suspended = [] ∧ v'.regs .eip = kernelThread ∧
            v'.regs .esp = stackSlot t 921 ∧ v'.stack 922 = function ∧ v'.stack 923 = funcArg
      | .fork t v' =>
          a.cpus t = none ∧ ∃ r, v.suspended = [r] ∧ rpl (r .cs) = 3 ∧
            v'.suspended = [Function.update r .eax 0] ∧ v'.regs .esp = stackSlot t 1005
      | .start .. => v.suspended = []
      | .exec .. => ∃ r, v.suspended = [r] ∧ rpl (r .cs) = 3
      | .exit next r => next ≠ a.cur ∧ ∃ v', a.cpus next = some v' ∧ KeptRegs r v'.regs
      | .drop t => t ≠ a.cur

/-- One processor for each task. -/
def vcpuSystem : System Vcpus VcpuEvent Empty where
  init := fun a => ∃ v, a.cpus = Function.update (fun _ => none) a.cur (some v) ∧ v.suspended = []
  enabled := vcpuEnabled
  step := vcpuStep

end ForikOS
