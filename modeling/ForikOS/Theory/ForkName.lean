import ForikOS.Core.Exec
import ForikOS.Theory.Exec
import ForikOS.Theory.Fork
import Mathlib.Data.List.TakeWhile

/-!
# The Name of a Child

Every `sys_fork` appends a suffix of five bytes to the name of the child, and
asserts before that there is room for it. Nothing shortens the name but
`sys_execv`, so whether a process can be forked depends on how many forks lie
between it and the last program that was loaded on the way to it.

A chain is the history of one process: it starts as `init`, it goes on as a
child of what it was, and it is renamed after the program it loads. What happens
between these steps is left open, since nothing else writes a name. A name
always fits into its sixteen bytes. But the assertion fails as soon as the name
has eleven bytes, which for a descendant of `init` is the third fork in a row.

## Main definitions

* `ForkStep`: A fork, or a program that is loaded.
* `nameLength`: The length of the name these steps lead to.
* `ForkChain`: The history of a process.
* `ForkRoom`: There are memory, pids and valid descriptors.
* `ForksWell`: The name fits, and `sys_fork` returns a pid.

## Theorems

* `keepsPcbs_load`: `load` changes no PCB.
* `ForkChain.name_eq`: The name at the end of a chain.
* `sysFork_long_name`: A long name fails the assertion.
* `fork_at_depth`: A process can be forked if and only if its name is short.
* `third_fork_panics`: Three forks in a row.
-/

namespace ForikOS

open Prog Exec

/-- Nothing about the processes changes. -/
def SamePcbs (s s' : Exec) : Prop :=
  s'.kernel.pcb = s.kernel.pcb ∧ s'.kernel.cur = s.kernel.cur

instance : IsPreorder Exec SamePcbs where
  refl _ := ⟨rfl, rfl⟩
  trans _ _ _ h h' := ⟨h'.1.trans h.1, h'.2.trans h.2⟩

section Load

/-- `load` changes no PCB. -/
theorem keepsPcbs_load (pathname : Str) : Within SamePcbs (Exec.load pathname) :=
  changing_load ⟨fun _ _ => ⟨rfl, rfl⟩, fun _ _ => ⟨rfl, rfl⟩, fun _ _ => ⟨rfl, rfl⟩,
    fun _ _ => ⟨rfl, rfl⟩, fun _ _ => ⟨rfl, rfl⟩, fun _ => ⟨rfl, rfl⟩⟩ pathname

/-- The name of the caller after `sys_execv`. -/
theorem sysExecv_name {pathname : Str} {path : Word} {s s' : Exec}
    (h : (sysExecv pathname path).run s = .ok (0, s')) :
    ∃ found, loadBytes s'.kernel.mem path taskNameLen = .ok found ∧
      (s'.kernel.pcb s.kernel.cur).name = nameIn found := by
  rcases run_bind_ok.mp h with ⟨entryPoint, s₁, hload, h⟩
  rw [← (keepsPcbs_load _ _ _ _ hload).2]
  by_cases hfail : entryPoint = -1
  · rw [if_pos hfail] at h
    cases (pure_ok h).1
  · rw [if_neg hfail, run_bind_of (run_read _ s₁)] at h
    cases hname : renameCur path s₁.kernel with
    | error e =>
        rw [hname] at h
        cases h
    | ok k =>
        rw [hname] at h
        rcases bind_eq_ok.mp hname with ⟨found, hfound, hk⟩
        cases h
        cases hk
        refine ⟨found, hfound, ?_⟩
        dsimp only [Kernel.setPcb]
        rw [Function.update_self]

end Load

/-- What changes the name of a process. -/
inductive ForkStep
  | fork
  | exec (found : Str)

/-- The name after some steps, the last first. -/
def nameAfter : List ForkStep → Str
  | [] => initName
  | .fork :: l => nameAfter l ++ forkSuffix
  | .exec found :: _ => nameIn found

/-- Its length: that of the name of the program, and five bytes for each fork
    since. -/
def nameLength : List ForkStep → Nat
  | [] => 4
  | .fork :: l => nameLength l + 5
  | .exec found :: _ => (nameIn found).length

/-- The process with a pid goes on, under the name it had. -/
def GoesOn (k : Kernel) (a : Word) (k' : Kernel) : Prop :=
  (k'.pcb k'.cur).pid = (k.pcb a).pid ∧ (k'.pcb k'.cur).name = (k.pcb a).name

/-- The history of the running process, the last step first. -/
inductive ForkChain : List ForkStep → Kernel → Prop
  | init {k : Kernel} (h : (k.pcb k.cur).name = initName) : ForkChain [] k
  | fork {l : List ForkStep} {k k' k'' : Kernel} {r : Int} {child : Word} (h : ForkChain l k)
      (hrun : sysFork k = .ok (k', r)) (hr : r ≠ -1)
      (hchild : k'.threadAllList.getLast? = some child) (hgo : GoesOn k' child k'') :
      ForkChain (.fork :: l) k''
  | exec {l : List ForkStep} {k'' : Kernel} {s s' : Exec} {pathname found : Str} {path : Word}
      (h : ForkChain l s.kernel) (hrun : (sysExecv pathname path).run s = .ok (0, s'))
      (hfound : loadBytes s'.kernel.mem path taskNameLen = .ok found)
      (hgo : GoesOn s'.kernel s.kernel.cur k'') : ForkChain (.exec found :: l) k''

/-- There are memory and pids for a child, and the PCB of the running process,
    its descriptors and the lists are in order. -/
structure ForkRoom (k : Kernel) : Prop where
  cur : ∃ i, k.cur = pageAddr i ∧ i < kernelPages k.mem ∧ isPresent (kernelPte k.mem i) = true
  memory : Forkable k.mem (k.pcb k.cur).mem
  pids : 0 < freeCount k.pidPool
  fds : FdsOpen k.fs k.cur.toNat
  lists : ListedMapped k

/-- A string and its terminator fit into the name of a PCB. -/
def NameFits (name : Str) : Prop := (0 : Byte) ∉ name ∧ name.length < taskNameLen

/-- The name is well-formed, and `sys_fork` returns the pid of a child. -/
def ForksWell (k : Kernel) : Prop :=
  NameFits (k.pcb k.cur).name ∧ ∃ k' r, sysFork k = .ok (k', r) ∧ r ≠ -1

section Name

variable {l : List ForkStep} {k : Kernel}

theorem length_nameAfter (l : List ForkStep) : (nameAfter l).length = nameLength l := by
  induction l with
  | nil => rfl
  | cons e l ih =>
      cases e with
      | fork => rw [nameAfter, List.length_append, ih, nameLength, forkSuffix]; rfl
      | exec found => rfl

theorem nameIn_fits (found : Str) : NameFits (nameIn found) := by
  constructor
  · intro h0
    have h := List.mem_takeWhile_imp h0
    revert h
    decide
  · have h := (List.takeWhile_sublist (· ≠ 0) (l := found.take (taskNameLen - 1))).length_le
    rw [List.length_take] at h
    have h15 : taskNameLen - 1 = 15 := rfl
    have h16 : taskNameLen = 16 := rfl
    unfold nameIn
    omega

/-- The copy of the PCB has the longer name. -/
theorem copyPcb_name {k' : Kernel} {child parent : Word}
    (h : copyPcbVaddrbitmapStack0 k child parent = .ok (k', true)) :
    (k.pcb parent).name.length < 11 ∧
      (k'.pcb child).name = (k.pcb parent).name ++ forkSuffix := by
  rcases bind_eq_ok.mp h with ⟨⟨pool, pid⟩, -, h⟩
  rcases bind_eq_ok.mp h with ⟨⟨m, vaddrBtmp⟩, -, h⟩
  dsimp only at h
  by_cases hz : vaddrBtmp = 0
  · rw [if_pos hz] at h
    cases h
  · rw [if_neg hz] at h
    rcases bind_eq_ok.mp h with ⟨m', -, h⟩
    rcases bind_eq_ok.mp h with ⟨_, hshort, h⟩
    refine ⟨ensure_eq_ok.mp hshort, ?_⟩
    cases h
    dsimp only [Kernel.setPcb]
    rw [Function.update_self]

theorem copyProcess_name {k' : Kernel} {child parent : Word}
    (h : copyProcess k child parent = .ok (k', true)) :
    (k.pcb parent).name.length < 11 ∧
      (k'.pcb child).name = (k.pcb parent).name ++ forkSuffix := by
  rcases bind_eq_ok.mp h with ⟨⟨m, bufPage⟩, -, h⟩
  dsimp only at h
  by_cases hz : bufPage = 0
  · rw [if_pos hz] at h
    cases h
  · rw [if_neg hz] at h
    rcases bind_eq_ok.mp h with ⟨⟨k₁, done⟩, hcopy, h⟩
    cases done with
    | false => cases h
    | true =>
        -- What follows writes the page directory, the open counts and the stack, not the name.
        have hname := copyPcb_name hcopy
        rw [if_neg (fun hc => Bool.noConfusion hc)] at h
        rcases bind_eq_ok.mp h with ⟨⟨m₁, pgdir⟩, -, h⟩
        dsimp only at h
        by_cases hp : pgdir = 0
        · rw [if_pos hp] at h
          cases h
        · rw [if_neg hp] at h
          rcases bind_eq_ok.mp h with ⟨m₂, -, h⟩
          rcases bind_eq_ok.mp h with ⟨fs, -, h⟩
          rcases bind_eq_ok.mp h with ⟨m₃, -, h⟩
          cases h
          dsimp only [Kernel.setPcb]
          rw [Function.update_self]
          exact hname

/-- The name of the child of a process with a short name. -/
theorem sysFork_name {k' : Kernel} {r : Int} {child : Word} (hrun : sysFork k = .ok (k', r)) (hr : r ≠ -1)
    (hchild : k'.threadAllList.getLast? = some child) :
    (k.pcb k.cur).name.length < 11 ∧ (k'.pcb child).name = (k.pcb k.cur).name ++ forkSuffix := by
  rcases bind_eq_ok.mp hrun with ⟨⟨m, page⟩, -, h⟩
  dsimp only at h
  by_cases hz : page = 0
  · rw [if_pos hz] at h
    cases h
    exact absurd rfl hr
  · rw [if_neg hz] at h
    rcases bind_eq_ok.mp h with ⟨_, -, h⟩
    rcases bind_eq_ok.mp h with ⟨⟨k₁, done⟩, hcopy, h⟩
    cases done with
    | false =>
        cases h
        exact absurd rfl hr
    | true =>
        have hname := copyProcess_name hcopy
        rw [if_neg (fun hc => Bool.noConfusion hc)] at h
        rcases bind_eq_ok.mp h with ⟨_, -, h⟩
        rcases bind_eq_ok.mp h with ⟨_, -, h⟩
        cases h
        rw [List.getLast?_concat, Option.some.injEq] at hchild
        rw [← hchild]
        exact hname

/-- The name at the end of a chain. -/
theorem ForkChain.name_eq (h : ForkChain l k) : (k.pcb k.cur).name = nameAfter l := by
  induction h with
  | init h => exact h
  | fork _ hrun hr hchild hgo ih =>
      rw [hgo.2, (sysFork_name hrun hr hchild).2, ih]
      rfl
  | exec _ hrun hfound hgo =>
      rcases sysExecv_name hrun with ⟨found', hfound', hname⟩
      rw [hfound, Except.ok.injEq] at hfound'
      rw [hgo.2, hname, ← hfound']
      rfl

/-- A name always fits into its sixteen bytes. -/
theorem ForkChain.fits (h : ForkChain l k) : NameFits (k.pcb k.cur).name := by
  induction h with
  | init h =>
      rw [h]
      exact ⟨by decide, by decide⟩
  | fork _ hrun hr hchild hgo ih =>
      rcases sysFork_name hrun hr hchild with ⟨hshort, hname⟩
      rw [hgo.2, hname]
      refine ⟨fun h0 => ?_, ?_⟩
      · rcases List.mem_append.mp h0 with h0 | h0
        · exact ih.1 h0
        · revert h0
          decide
      · rw [List.length_append, show forkSuffix.length = 5 from rfl, show taskNameLen = 16 from rfl]
        omega
  | exec _ hrun _ hgo =>
      rcases sysExecv_name hrun with ⟨found, -, hname⟩
      rw [hgo.2, hname]
      exact nameIn_fits found

/-- With memory and pids enough, a name of eleven bytes or more fails the
    assertion. -/
theorem sysFork_long_name (hroom : ForkRoom k) (hlong : 11 ≤ (k.pcb k.cur).name.length) :
    sysFork k = .error .copyPcb := by
  -- There is room for everything that is taken in front of the assertion, so it is reached.
  have hle := hroom.memory.map.layout.pages_le
  rcases fork_memory hroom.memory with
    ⟨mA, mB, mC, m', m₁, m₂, m₃, a, b, cp, ba, sb, da, D, B, hA, hB, hC, hcopy, -, -, -, hend⟩
  have hcp := hend.pcb.pcb.1
  have hba := hend.pcb.buf.1
  have hsb := hend.pcb.bits.1
  have ha := hend.dir.1.1
  have hpages := hend.pages
  have hpgdir : (k.pcb k.cur).mem.pgdir ≠ 0 := by
    rw [hend.dir.2]
    exact pageAddr_ne_zero (by omega)
  -- `allocate_pid` finds a number as well.
  rcases exists_clear hroom.pids with ⟨i, hi, hclear⟩
  have hfree : FreeRun k.pidPool 1 i := by
    refine ⟨by omega, fun j h1 h2 => ?_⟩
    rw [show j = i by omega]
    exact hclear
  rcases bitmapScan_fit (Nat.le_refl 1) hfree with ⟨j, hj, -⟩
  have hpid : forkPid k.pidPool = .ok (bitmapSet k.pidPool j true, j + 1) := by
    rw [forkPid, allocatePid, hj, ok_bind]
  -- The run of `sys_fork` up to the assertion, which does not hold of this name.
  rw [sysFork, hA, ok_bind]
  dsimp only
  rw [if_neg (pageAddr_ne_zero (by omega)), ensure_pos hpgdir, ok_bind, copyProcess]
  dsimp only
  rw [hB, ok_bind]
  dsimp only
  rw [if_neg (pageAddr_ne_zero (by omega)), copyPcbVaddrbitmapStack0]
  dsimp only
  rw [hpid, ok_bind]
  dsimp only [Kernel.setPcb]
  rw [hC, ok_bind]
  dsimp only
  rw [if_neg (pageAddr_ne_zero (by omega)), hcopy, ok_bind, ensure, if_neg (by omega)]
  rfl

/-- A short name passes it. -/
theorem sysFork_short_name (hroom : ForkRoom k) (hshort : (k.pcb k.cur).name.length < 11) :
    ∃ k' r, sysFork k = .ok (k', r) ∧ r ≠ -1 := by
  have h := fork_copies_address_space k hroom.cur hshort hroom.memory
  rcases h.2 hroom.pids hroom.fds hroom.lists with ⟨k', r, hrun⟩
  exact ⟨k', r, hrun, (h.1 k' r hrun).1⟩

/-- A process can be forked, at any depth, if and only if its name is short:
    that of the program it runs, and five bytes for each fork since that program
    was loaded, are at most ten. -/
theorem fork_at_depth (h : ForkChain l k) (hroom : ForkRoom k) :
    ForksWell k ↔ nameLength l < 11 := by
  have hlen : (k.pcb k.cur).name.length = nameLength l := by
    rw [h.name_eq, length_nameAfter]
  rw [← hlen]
  constructor
  · rintro ⟨-, k', r, hrun, -⟩
    by_contra hlong
    rw [sysFork_long_name hroom (by omega)] at hrun
    cases hrun
  · exact fun hshort => ⟨h.fits, sysFork_short_name hroom hshort⟩

end Name

section Example

/-- The kernel with one process, under some pid and name. -/
def namedKernel (pid : Nat) (name : Str) : Kernel :=
  { stackKernel with pcb := fun a => { stackKernel.pcb a with pid := pid, name := name } }

theorem namedKernel_room (pid : Nat) (name : Str) : ForkRoom (namedKernel pid name) where
  cur := by
    have hpages := stackMachine_pages
    refine ⟨0, rfl, ?_, ?_⟩
    · show 0 < kernelPages stackMachine
      omega
    · show isPresent (kernelPte stackMachine 0) = true
      rw [stackMachine_present (by omega)]
      rfl
  memory := stackMachine_forkable
  pids := by
    show 0 < freeCount (bitmapInit _)
    rw [freeCount_init]
    decide
  fds := fun _ _ _ => Or.inl rfl
  lists := stackKernel_listed

variable {l : List ForkStep} {name : Str} {pid : Nat}

/-- The child goes on with the same memory. -/
theorem ForkChain.forked (h : ForkChain l (namedKernel pid name)) (hshort : name.length < 11) :
    ∃ pid', ForkChain (.fork :: l) (namedKernel pid' (name ++ forkSuffix)) := by
  have hroom := namedKernel_room pid name
  have hfork := fork_copies_address_space _ hroom.cur hshort hroom.memory
  rcases hfork.2 hroom.pids hroom.fds hroom.lists with ⟨k', r, hrun⟩
  rcases hfork.1 k' r hrun with ⟨hr, child, D, hall, hpid, -⟩
  have hchild : k'.threadAllList.getLast? = some child := by
    rw [hall, List.getLast?_concat]
  exact ⟨(k'.pcb child).pid, h.fork hrun hr hchild ⟨rfl, (sysFork_name hrun hr hchild).2.symm⟩⟩

theorem initKernel_chain : ForkChain [] (namedKernel 1 initName) := .init rfl

/-- `fork_at_depth` for a child of `init`. -/
theorem fork_at_depth_child : ∃ k, ForkChain [.fork] k ∧ ForksWell k := by
  rcases initKernel_chain.forked (by decide) with ⟨pid, h⟩
  exact ⟨_, h, (fork_at_depth h (namedKernel_room _ _)).mpr (by decide)⟩

/-- `init` has a child, and the child has one; its name is `init_fork_fork`.
    There is no lack of memory or pids, and `sys_fork` stops the machine. -/
theorem third_fork_panics : ∃ k, ForkChain [.fork, .fork] k ∧ ForkRoom k ∧
    sysFork k = .error .copyPcb ∧ ¬ ForksWell k := by
  rcases initKernel_chain.forked (by decide) with ⟨pid, h₁⟩
  rcases h₁.forked (by decide) with ⟨pid', h₂⟩
  have hroom := namedKernel_room pid' (initName ++ forkSuffix ++ forkSuffix)
  have hstop : sysFork (namedKernel pid' (initName ++ forkSuffix ++ forkSuffix)) = .error .copyPcb :=
    sysFork_long_name hroom (show 11 ≤ (initName ++ forkSuffix ++ forkSuffix).length by decide)
  refine ⟨_, h₂, hroom, hstop, ?_⟩
  rintro ⟨-, k', r, hrun, -⟩
  rw [hstop] at hrun
  cases hrun

end Example

end ForikOS
