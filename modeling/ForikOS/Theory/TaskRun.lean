import ForikOS.Core.TaskRun
import ForikOS.Theory.Context
import ForikOS.Lib.Simulation

/-!
# Virtual Processors

Switching tasks gives every task a processor of its own. The proof is a
simulation. What the running task has is in the processor, and what a waiting
task has is on its stack: six registers where `switch_to` left them, and the
registers of everything that was interrupted in the frames above.

## Main definitions

* `FrameAt`, `FramesAt`: The registers that the frames on a stack stand for.
* `RunsAs`, `WaitsAs`: A running and a waiting task.
* `Shares`: The processor and the processors it stands for.

## Theorems

* `intrExit_frame`: `intr_exit` restores what is in the frame.
* `taskSystem_simulates`: The shared processor does what the processors of the
  tasks do.
* `runningThread_cur`: `running_thread` is right everywhere in the kernel.
-/

namespace ForikOS

/-! ## Frames -/

/-- The frame at word `b` stands for the registers `r`. -/
def FrameAt (pgdir : Bool) (page : Nat → Word) (t : Word) (b : Nat) (r : Regs) : Prop :=
  ∃ espDummy errCode,
    if rpl (r .cs) = 3 then
      pgdir = true ∧ b = 1005 ∧ ProgramRegs r ∧
        HoldsWords page (b + 1) (frameWords r espDummy errCode ++ [r .esp, r .ss])
    else
      r .cs = selectorKCode ∧ r .ss = selectorKStack ∧ b + 17 < 1024 ∧ r .esp = stackSlot t (b + 17) ∧
        HoldsWords page (b + 1) (frameWords r espDummy errCode)

/-- The words behind the frame at `b`. -/
def frameEnd (b : Nat) (r : Regs) : Nat := if rpl (r .cs) = 3 then b + 19 else b + 17

/-- The frames on a stack, the last one first, stand for these registers. -/
def FramesAt (pgdir : Bool) (page : Nat → Word) (t : Word) : List Nat → List Regs → Prop
  | [], [] => True
  | b :: bs, r :: rs =>
      0 < b ∧ FrameAt pgdir page t b r ∧ frameEnd b r ≤ bs.headD 1024 ∧
        FramesAt pgdir page t bs rs
  | _, _ => False

section

variable {pgdir : Bool} {page page' : Nat → Word} {t : Word} {b : Nat} {r : Regs}
  {bs : List Nat} {rs : List Regs}

theorem rpl_selectorKCode : rpl selectorKCode = 0 := by decide

theorem FrameAt.congr (h : FrameAt pgdir page t b r)
    (hp : ∀ k, b < k → k < 1024 → page' k = page k) : FrameAt pgdir page' t b r := by
  rcases h with ⟨d, e, h⟩
  refine ⟨d, e, ?_⟩
  split at h
  · rename_i hcs
    rw [if_pos hcs]
    rcases h with ⟨hpg, rfl, hr, hw⟩
    refine ⟨hpg, rfl, hr, hw.congr fun k hk hk' => hp k (by omega) ?_⟩
    simp only [frameWords, List.length_append, List.length_cons, List.length_nil] at hk'
    omega
  · rename_i hcs3
    rw [if_neg hcs3]
    rcases h with ⟨hcs, hss, hb, hesp, hw⟩
    refine ⟨hcs, hss, hb, hesp, hw.congr fun k hk hk' => hp k (by omega) ?_⟩
    simp only [frameWords, List.length_cons, List.length_nil] at hk'
    omega

theorem frameEnd_le : b < frameEnd b r := by
  unfold frameEnd
  split <;> omega

/-- Frames only depend on the words behind the beginning of the last one. -/
theorem FramesAt.congr (h : FramesAt pgdir page t bs rs)
    (hp : ∀ k, bs.headD 1024 < k → k < 1024 → page' k = page k) :
    FramesAt pgdir page' t bs rs := by
  induction bs generalizing rs with
  | nil => cases rs with
    | nil => exact trivial
    | cons r rs => exact h.elim
  | cons b bs ih =>
      cases rs with
      | nil => exact h.elim
      | cons r rs =>
          rcases h with ⟨h₀, hf, he, hrest⟩
          rw [List.headD_cons] at hp
          refine ⟨h₀, hf.congr hp, he, ih hrest fun k hk hk' => hp k ?_ hk'⟩
          exact Nat.lt_trans (Nat.lt_of_lt_of_le frameEnd_le he) hk

theorem FramesAt.head_le (h : FramesAt pgdir page t bs rs) : bs.headD 1024 ≤ 1024 := by
  cases bs with
  | nil => exact Nat.le_refl _
  | cons b bs =>
      cases rs with
      | nil => exact h.elim
      | cons r rs =>
          rcases h with ⟨_, ⟨d, e, hf⟩, _⟩
          rw [List.headD_cons]
          split at hf <;> omega

/-- The last frame is on the page. -/
theorem FramesAt.head_lt (h : FramesAt pgdir page t bs rs) (hne : bs ≠ []) :
    bs.headD 1024 < 1024 := by
  cases bs with
  | nil => exact absurd rfl hne
  | cons b bs =>
      cases rs with
      | nil => exact h.elim
      | cons r rs =>
          rcases h with ⟨_, ⟨d, e, hf⟩, _⟩
          rw [List.headD_cons]
          split at hf <;> omega

end

/-- `intr_exit` goes back to a program with the registers in the frame. -/
theorem intrExit_program {c : Cpu} {t d e : Word} {b : Nat} {r : Regs} (ht : PageAligned t)
    (hb : b + 19 ≤ 1024) (hcs : c.regs .cs = selectorKCode) (hesp : c.regs .esp = stackSlot t b)
    (hr : ProgramRegs r)
    (hw : HoldsWords (c.mem t) (b + 1) (frameWords r d e ++ [r .esp, r .ss])) :
    intrExit c = { c with regs := r } := by
  rcases intrExit_popped ht (by omega) hesp hw.left with ⟨c', hexit, hp⟩
  -- The frame is that of a program, so `iretd` takes its stack from it as well.
  have hlt : rpl (c'.regs .cs) < rpl (r .cs) := by
    rw [hp.kept .cs (by decide) (by decide), hcs, rpl_selectorKCode, hr.cs]
    decide
  simp only [frameWords, List.cons_append, List.nil_append, holds_cons, Nat.add_assoc,
    Nat.reduceAdd] at hw
  rcases hw with ⟨-, -, -, -, -, -, -, -, -, -, -, -, -, h14, h15, h16, h17, h18, -⟩
  have hw' : HoldsWords (c'.mem t) (b + 14) [r .eip, r .cs, r .eflags, r .esp, r .ss] := by
    rw [hp.mem]
    simp [Nat.add_assoc, h14, h15, h16, h17, h18]
  rw [hexit, iretd_program ht (by omega) hp.esp hw' hlt]
  -- The data segments are those of a program, so the return leaves them alone.
  have hregs : (fun x => if x ∈ [Reg.eip, .cs, .eflags, .esp, .ss] then r x
      else if x ∈ [Reg.ds, .es, .fs, .gs] then returnedSeg (c'.regs x) else c'.regs x) = r := by
    funext x
    split
    · rfl
    · split
      · rename_i hx
        rw [hp.loaded x (by revert hx; cases x <;> decide), hr.data x hx]
      · rename_i hx hx'
        exact hp.loaded x (by revert hx hx'; cases x <;> decide)
  rw [hregs, hp.mem, hp.esp0]

/-- `intr_exit` restores what is in the frame. -/
theorem intrExit_frame {c : Cpu} {t : Word} {b : Nat} {r : Regs} {pgdir : Bool}
    (ht : PageAligned t) (hcs : c.regs .cs = selectorKCode) (hss : c.regs .ss = selectorKStack)
    (hesp : c.regs .esp = stackSlot t b) (hf : FrameAt pgdir (c.mem t) t b r) :
    intrExit c = { c with regs := r } := by
  rcases hf with ⟨d, e, hf⟩
  split at hf
  · rcases hf with ⟨-, rfl, hr, hw⟩
    exact intrExit_program ht (by decide) hcs hesp hr hw
  · -- Back into the kernel: `iretd` pops three words, and the stack segment is the one in use.
    rcases hf with ⟨hk, hs, hb, hr, hw⟩
    rcases intrExit_popped ht (by omega) hesp hw with ⟨c', hexit, hp⟩
    have hlt : ¬rpl (c'.regs .cs) < rpl (r .cs) := by
      rw [hp.kept .cs (by decide) (by decide), hcs, hk]
      exact Nat.lt_irrefl _
    simp only [frameWords, holds_cons, Nat.add_assoc, Nat.reduceAdd] at hw
    rcases hw with ⟨-, -, -, -, -, -, -, -, -, -, -, -, -, h14, h15, h16, -⟩
    have hw' : HoldsWords (c'.mem t) (b + 14) [r .eip, r .cs, r .eflags] := by
      rw [hp.mem]
      simp [Nat.add_assoc, h14, h15, h16]
    have hi := iretd_kernel ht (by omega) hp.esp hw' hlt
    -- `esp` is what is left, three registers come from `iretd`, the others were popped before.
    have hregs : c'.iretd.regs = r := by
      funext x
      by_cases hx : x = .esp
      · rw [hx, hi.esp, hr]
      · by_cases hx' : x ∈ [Reg.eip, .cs, .eflags]
        · exact hi.loaded x hx'
        · rw [hi.kept x hx' hx]
          by_cases hx'' : x = .ss
          · rw [hx'', hp.kept .ss (by decide) (by decide), hss, hs]
          · exact hp.loaded x (by revert hx hx' hx''; cases x <;> decide)
    rw [hexit]
    rw [← hregs, ← hi.mem.trans hp.mem, ← hi.esp0.trans hp.esp0]

/-- Another word at the place of `eax` in the frame of a program. -/
theorem frame_setEax {page : Nat → Word} {r : Regs} {d e : Word}
    (hw : HoldsWords page 1006 (frameWords r d e ++ [r .esp, r .ss])) (w : Word) :
    HoldsWords (Function.update page 1013 w) 1006 (frameWords (Function.update r .eax w) d e ++
      [Function.update r .eax w .esp, Function.update r .eax w .ss]) := by
  simp only [frameWords, List.cons_append, List.nil_append, holds_cons, Nat.reduceAdd] at hw ⊢
  simp [hw]

theorem ProgramRegs.setEax {r : Regs} (h : ProgramRegs r) (w : Word) :
    ProgramRegs (Function.update r .eax w) where
  cs := by rw [Function.update_of_ne (by decide), h.cs]
  data := fun sel hsel => by
    have hne : sel ≠ .eax := by
      rintro rfl
      revert hsel
      decide
    rw [Function.update_of_ne hne, h.data sel hsel]

/-! ## What the processor stands for -/

/-- The stack of a task that waits. `switch_to` left six registers there. -/
structure WaitsAt (pgdir : Bool) (page : Nat → Word) (t : Word) (bs : List Nat) (v : Vcpu)
    (k : Nat) : Prop where
  pos : 0 < k
  lt : k + 5 < 1024
  top : k + 5 ≤ bs.headD 1024
  kstack : page 0 = stackSlot t k
  ebp : page k = v.regs .ebp
  ebx : page (k + 1) = v.regs .ebx
  edi : page (k + 2) = v.regs .edi
  esi : page (k + 3) = v.regs .esi
  eip : page (k + 4) = v.regs .eip
  esp : v.regs .esp = stackSlot t (k + 5)
  stack : ∀ j, k + 5 ≤ j → j < 1024 → v.stack j = page j
  frames : FramesAt pgdir page t bs v.suspended

/-- A task that waits. -/
def WaitsAs (s : Tasks) (t : Word) (v : Vcpu) : Prop :=
  ∃ k, WaitsAt (s.pgdir t) (s.cpu.mem t) t (s.frames t) v k

/-- The running task in the kernel: what is in use of its stack. -/
structure RunsKernel (s : Tasks) (v : Vcpu) (k : Nat) : Prop where
  cs : s.cpu.regs .cs = selectorKCode
  ss : s.cpu.regs .ss = selectorKStack
  pos : 0 < k
  lt : k < 1024
  top : k ≤ s.top s.cur
  esp : s.cpu.regs .esp = stackSlot s.cur k
  stack : ∀ j, k ≤ j → j < 1024 → v.stack j = s.cpu.mem s.cur j

/-- The running task in its program. -/
structure RunsProgram (s : Tasks) : Prop where
  regs : ProgramRegs s.cpu.regs
  pgdir : s.pgdir s.cur = true
  frames : s.frames s.cur = []

/-- The running task. -/
structure RunsAs (s : Tasks) (v : Vcpu) : Prop where
  regs : s.cpu.regs = v.regs
  frames : FramesAt (s.pgdir s.cur) (s.cpu.mem s.cur) s.cur (s.frames s.cur) v.suspended
  mode : RunsProgram s ∨ ∃ k, RunsKernel s v k

/-- The processor is what it should be for the task that runs, and so is the
    stack of every task that waits. -/
structure Shares (s : Tasks) (a : Vcpus) : Prop where
  cur : a.cur = s.cur
  mem : s.cur ∈ s.tasks
  aligned : ∀ t ∈ s.tasks, PageAligned t
  none : ∀ t ∉ s.tasks, a.cpus t = none
  running : ∃ v, a.cpus s.cur = some v ∧ RunsAs s v
  waiting : ∀ t ∈ s.tasks, t ≠ s.cur → ∃ v, a.cpus t = some v ∧ WaitsAs s t v
  esp0 : s.pgdir s.cur = true → s.cpu.esp0 = stackSlot s.cur 1024

section

variable {pgdir : Bool} {page page' : Nat → Word} {t : Word} {bs : List Nat} {v : Vcpu} {k : Nat}

/-- Nothing below the stack of a waiting task matters but `self_kstack`. -/
theorem WaitsAt.congr (ht : PageAligned t) (h : WaitsAt pgdir page t bs v k)
    (h₀ : page' 0 = page 0) (hp : ∀ j, wordIdx (page 0) ≤ j → j < 1024 → page' j = page j) :
    WaitsAt pgdir page' t bs v k := by
  have hidx : wordIdx (page 0) = k := by
    rw [h.kstack, wordIdx_stackSlot ht (Nat.lt_of_le_of_lt (Nat.le_add_right k 5) h.lt)]
  have hlt := h.lt
  have htop := h.top
  rw [hidx] at hp
  exact {
    h with
    kstack := h₀.trans h.kstack
    ebp := (hp k (by omega) (by omega)).trans h.ebp
    ebx := (hp (k + 1) (by omega) (by omega)).trans h.ebx
    edi := (hp (k + 2) (by omega) (by omega)).trans h.edi
    esi := (hp (k + 3) (by omega) (by omega)).trans h.esi
    eip := (hp (k + 4) (by omega) (by omega)).trans h.eip
    stack := fun j hj hj' => (h.stack j hj hj').trans (hp j (by omega) hj').symm
    frames := h.frames.congr fun j hj hj' => hp j (by omega) hj' }

end

/-- The list of the tasks is nothing to the running one. -/
theorem RunsAs.setTasks {s : Tasks} {v : Vcpu} (h : RunsAs s v) (ts : List Word) :
    RunsAs { s with tasks := ts } v := by
  refine ⟨h.regs, h.frames, ?_⟩
  rcases h.mode with hp | ⟨k, hk⟩
  · exact Or.inl ⟨hp.regs, hp.pgdir, hp.frames⟩
  · exact Or.inr ⟨k, hk.cs, hk.ss, hk.pos, hk.lt, hk.top, hk.esp, hk.stack⟩

/-- The stacks of the tasks that wait are as they were. -/
def KeepsWaiting (s s' : Tasks) : Prop :=
  ∀ t ∈ s.tasks, t ≠ s.cur → s'.cpu.mem t 0 = s.cpu.mem t 0 ∧
    ∀ j, wordIdx (s.cpu.mem t 0) ≤ j → j < 1024 → s'.cpu.mem t j = s.cpu.mem t j

theorem keepsWaiting_of_mem {s s' : Tasks} (h : ∀ t, t ≠ s.cur → s'.cpu.mem t = s.cpu.mem t) :
    KeepsWaiting s s' := by
  intro t _ hne
  rw [h t hne]
  exact ⟨rfl, fun _ _ _ => rfl⟩

theorem WaitsAs.keep {s s' : Tasks} {t : Word} {v : Vcpu} (ht : PageAligned t)
    (h : WaitsAs s t v) (hpg : s'.pgdir t = s.pgdir t) (hfr : s'.frames t = s.frames t)
    (h₀ : s'.cpu.mem t 0 = s.cpu.mem t 0)
    (hp : ∀ j, wordIdx (s.cpu.mem t 0) ≤ j → j < 1024 → s'.cpu.mem t j = s.cpu.mem t j) :
    WaitsAs s' t v := by
  rcases h with ⟨k, h⟩
  refine ⟨k, ?_⟩
  rw [hpg, hfr]
  exact h.congr ht h₀ hp

namespace Shares

variable {s s' : Tasks} {a : Vcpus} {v v' : Vcpu}

theorem aligned_cur (h : Shares s a) : PageAligned s.cur := h.aligned _ h.mem

/-- A step of the running task on its own stack. -/
theorem own (h : Shares s a) (hcur : s'.cur = s.cur) (htasks : s'.tasks = s.tasks)
    (hpg : s'.pgdir = s.pgdir) (hfr : ∀ t, t ≠ s.cur → s'.frames t = s.frames t)
    (he : s'.cpu.esp0 = s.cpu.esp0) (hkeep : KeepsWaiting s s') (hrun : RunsAs s' v') :
    Shares s' (a.setCur v') := by
  have hac := h.cur
  refine ⟨hac.trans hcur.symm, ?_, ?_, ?_, ⟨v', ?_, hrun⟩, ?_, ?_⟩
  · rw [hcur, htasks]
    exact h.mem
  · rw [htasks]
    exact h.aligned
  · intro t ht
    rw [htasks] at ht
    have hne : t ≠ a.cur := by
      rintro rfl
      exact ht (hac ▸ h.mem)
    exact (Function.update_of_ne hne ..).trans (h.none t ht)
  · rw [hcur, ← hac]
    exact Function.update_self ..
  · -- A waiting task has its own page, which the running one has kept.
    intro t ht hne
    rw [htasks] at ht
    rw [hcur] at hne
    rcases h.waiting t ht hne with ⟨w, hw, hwait⟩
    rcases hkeep t ht hne with ⟨h₀, hp⟩
    refine ⟨w, (Function.update_of_ne (hac ▸ hne) ..).trans hw, ?_⟩
    exact hwait.keep (h.aligned t ht) (congrFun hpg t) (hfr t hne) h₀ hp
  · rw [hcur, hpg, he]
    exact h.esp0

/-! ### The running task -/

theorem runsProgram (hrun : RunsAs s v) (hcs : rpl (s.cpu.regs .cs) = 3) : RunsProgram s := by
  rcases hrun.mode with hp | ⟨k, hk⟩
  · exact hp
  · rw [hk.cs, rpl_selectorKCode] at hcs
    cases hcs

theorem runsKernel (hrun : RunsAs s v) (hcs : rpl (s.cpu.regs .cs) = 0) :
    ∃ k, RunsKernel s v k := by
  rcases hrun.mode with hp | hk
  · rw [hp.regs.cs] at hcs
    cases hcs
  · exact hk

/-- A program runs. -/
theorem program (h : Shares s a) {r : Regs} (he : taskEnabled s (.program r))
    (hs : taskStep s (.program r) = .ok s') :
    ∃ d a', vcpuEnabled a d ∧ vcpuStep a d = .ok a' ∧ Shares s' a' := by
  rcases h.running with ⟨v, hv, hrun⟩
  rcases he with ⟨hcs, hr⟩
  cases hs
  have hp := runsProgram hrun hcs
  have hv' : a.cpus a.cur = some v := h.cur ▸ hv
  refine ⟨.run r v.stack, a.setCur { v with regs := r }, ?_, ?_, ?_⟩
  · rw [vcpuEnabled, hv']
    dsimp only
    rw [← hrun.regs, hcs, hr.cs]
  · rw [vcpuStep, hv']
  · refine h.own rfl rfl rfl (fun _ _ => rfl) rfl (keepsWaiting_of_mem fun _ _ => rfl) ?_
    exact ⟨rfl, hrun.frames, Or.inl ⟨hr, hp.pgdir, hp.frames⟩⟩

/-- C code of the kernel runs. -/
theorem kernel (h : Shares s a) {c : Cpu} (he : taskEnabled s (.kernel c))
    (hs : taskStep s (.kernel c) = .ok s') :
    ∃ d a', vcpuEnabled a d ∧ vcpuStep a d = .ok a' ∧ Shares s' a' := by
  rcases h.running with ⟨v, hv, hrun⟩
  rcases he with ⟨hcs, hc⟩
  cases hs
  rcases runsKernel hrun hcs with ⟨k, hk⟩
  rcases hc.esp with ⟨k', hk₀, hk', htop, hesp⟩
  have hv' : a.cpus a.cur = some v := h.cur ▸ hv
  refine ⟨.run c.regs (c.mem s.cur), a.setCur { v with regs := c.regs, stack := c.mem s.cur },
    ?_, ?_, ?_⟩
  · rw [vcpuEnabled, hv']
    dsimp only
    rw [← hrun.regs, hc.cs]
  · rw [vcpuStep, hv']
  · refine h.own rfl rfl rfl (fun _ _ => rfl) hc.esp0 ?_ ?_
    · intro t ht hne
      exact ⟨hc.kstack t ht hne, hc.others t ht hne⟩
    · refine ⟨rfl, hrun.frames.congr hc.own, Or.inr ⟨k', ?_⟩⟩
      exact ⟨hc.cs.trans hk.cs, hc.ss.trans hk.ss, hk₀, hk', htop, hesp, fun _ _ _ => rfl⟩

/-! ### Into the kernel and out of it -/

theorem top_le (hrun : RunsAs s v) : s.top s.cur ≤ 1024 := hrun.frames.head_le

/-- A new frame, below everything that is in use. -/
theorem entered (h : Shares s a) (hrun : RunsAs s v) {c : Cpu} {b k : Nat}
    (hother : ∀ t, t ≠ s.cur → c.mem t = s.cpu.mem t) (hesp₀ : c.esp0 = s.cpu.esp0)
    (hcs : c.regs .cs = selectorKCode) (hss : c.regs .ss = selectorKStack)
    (hesp : c.regs .esp = stackSlot s.cur k) (hk : 0 < k) (hkb : k < b)
    (hf : FrameAt (s.pgdir s.cur) (c.mem s.cur) s.cur b v.regs)
    (hend : frameEnd b v.regs ≤ s.top s.cur)
    (hkeep : ∀ j, s.top s.cur < j → j < 1024 → c.mem s.cur j = s.cpu.mem s.cur j) :
    Shares { s with
        cpu := c
        frames := Function.update s.frames s.cur (b :: s.frames s.cur) }
      (a.setCur { regs := c.regs, stack := c.mem s.cur, suspended := v.regs :: v.suspended }) := by
  have hb : b < 1024 := Nat.lt_of_lt_of_le (Nat.lt_of_lt_of_le frameEnd_le hend) (top_le hrun)
  refine h.own rfl rfl rfl (fun t ht => Function.update_of_ne ht ..) hesp₀
    (keepsWaiting_of_mem hother) ⟨rfl, ?_, Or.inr ⟨k, ?_⟩⟩
  · dsimp only
    rw [Function.update_self]
    exact ⟨Nat.lt_trans hk hkb, hf, hend, hrun.frames.congr hkeep⟩
  · refine ⟨hcs, hss, hk, Nat.lt_trans hkb hb, ?_, hesp, fun _ _ _ => rfl⟩
    unfold Tasks.top
    dsimp only
    rw [Function.update_self]
    exact Nat.le_of_lt hkb

/-- An interrupt. -/
theorem intr (h : Shares s a) {gate errCode vecNo handler ret : Word}
    (he : taskEnabled s (.intr gate errCode vecNo handler ret))
    (hs : taskStep s (.intr gate errCode vecNo handler ret) = .ok s') :
    ∃ d a', vcpuEnabled a d ∧ vcpuStep a d = .ok a' ∧ Shares s' a' := by
  rcases h.running with ⟨v, hv, hrun⟩
  have hv' : a.cpus a.cur = some v := h.cur ▸ hv
  have ht := h.aligned_cur
  -- Whatever is interrupted, its registers are in the new frame.
  have hstep : ∀ {c : Cpu} {b : Nat}, c = vectorEntry (interrupt s.cpu gate) errCode vecNo handler
      ret → wordIdx (c.regs .esp) + 1 = b → rpl (c.regs .cs) = 0 →
      Shares { s with
          cpu := c
          frames := Function.update s.frames s.cur (b :: s.frames s.cur) }
        (a.setCur { regs := c.regs, stack := c.mem s.cur, suspended := v.regs :: v.suspended }) →
      ∃ d a', vcpuEnabled a d ∧ vcpuStep a d = .ok a' ∧ Shares s' a' := by
    intro c b hc hb hcs hsh
    have hs' : s' = { s with
        cpu := c
        frames := Function.update s.frames s.cur (b :: s.frames s.cur) } := by
      rw [← hb, hc]
      exact (Except.ok.inj hs).symm
    rw [← hs'] at hsh
    refine ⟨.enter c.regs (c.mem s.cur), _, ?_, ?_, hsh⟩
    · rw [vcpuEnabled, hv']
      exact hcs
    · rw [vcpuStep, hv']
  by_cases hcs : rpl (s.cpu.regs .cs) = 3
  · have hp := runsProgram hrun hcs
    rcases intr_program ht gate errCode vecNo handler ret hcs (h.esp0 hp.pgdir) with
      ⟨d, hmem, hesp₀, hesp, hkcs, hkss⟩
    have hidx : wordIdx ((vectorEntry (interrupt s.cpu gate) errCode vecNo handler ret).regs .esp)
        + 1 = 1005 := by rw [hesp, wordIdx_stackSlot ht (by decide)]
    refine hstep rfl hidx (by rw [hkcs, rpl_selectorKCode]) ?_
    have htop : s.top s.cur = 1024 := by rw [Tasks.top, hp.frames, List.headD_nil]
    refine h.entered hrun (k := 1004) ?_ hesp₀ hkcs hkss hesp (by decide) (by decide) ?_ ?_ ?_
    · intro t hne
      rw [hmem, poke_of_ne hne]
    · refine ⟨d, errCode, ?_⟩
      rw [← hrun.regs, if_pos hcs, hmem]
      refine ⟨hp.pgdir, rfl, hp.regs, ?_⟩
      exact (poke_holds _ _ _ ([ret, vecNo] ++ _)).drop
    · rw [htop, ← hrun.regs, frameEnd, if_pos hcs]
    · intro j hj hj'
      rw [htop] at hj
      omega
  · rcases he.resolve_left hcs with ⟨hcs₀, k, hk, hk', hesp'⟩
    rcases runsKernel hrun hcs₀ with ⟨k', hr⟩
    obtain rfl : k' = k + 18 := stackSlot_inj (Nat.le_of_lt hr.lt) (Nat.le_of_lt hk')
      (hr.esp.symm.trans hesp')
    rcases intr_kernel ht gate errCode vecNo handler ret hcs hesp' (Nat.le_of_lt hk') with
      ⟨d, hmem, hesp₀, hesp, hkcs, hkss⟩
    have hidx : wordIdx ((vectorEntry (interrupt s.cpu gate) errCode vecNo handler ret).regs .esp)
        + 1 = k + 1 := by rw [hesp, wordIdx_stackSlot ht (by omega)]
    refine hstep rfl hidx (by rw [hkcs, rpl_selectorKCode]) ?_
    refine h.entered hrun (k := k) ?_ hesp₀ hkcs (hkss.trans hr.ss) hesp hk (by omega) ?_ ?_ ?_
    · intro t hne
      rw [hmem, poke_of_ne hne]
    · refine ⟨d, errCode, ?_⟩
      rw [← hrun.regs, if_neg hcs, hmem]
      refine ⟨hr.cs, hr.ss, by omega, hr.esp, ?_⟩
      exact (poke_holds _ _ _ ([ret, vecNo] ++ _)).drop
    · rw [← hrun.regs, frameEnd, if_neg hcs]
      exact hr.top
    · intro j hj hj'
      have htop := hr.top
      rw [hmem, poke_of_le]
      simp only [frameWords, List.length_cons, List.length_nil]
      omega

/-- A system call. -/
theorem syscall (h : Shares s a) {gate ret : Word} {syscallTable : Word → Word}
    (he : taskEnabled s (.syscall gate syscallTable ret))
    (hs : taskStep s (.syscall gate syscallTable ret) = .ok s') :
    ∃ d a', vcpuEnabled a d ∧ vcpuStep a d = .ok a' ∧ Shares s' a' := by
  rcases h.running with ⟨v, hv, hrun⟩
  have hv' : a.cpus a.cur = some v := h.cur ▸ hv
  have ht := h.aligned_cur
  have hcs : rpl (s.cpu.regs .cs) = 3 := he
  have hp := runsProgram hrun hcs
  rcases syscall_program ht gate syscallTable ret hcs (h.esp0 hp.pgdir) with
    ⟨d, hmem, hesp₀, hesp, hkcs, hkss, heip⟩
  have hidx : wordIdx ((syscallHandler (interrupt s.cpu gate) syscallTable ret).regs .esp)
      + 4 = 1005 := by rw [hesp, wordIdx_stackSlot ht (by decide)]
  have htop : s.top s.cur = 1024 := by rw [Tasks.top, hp.frames, List.headD_nil]
  -- What the gate and the handler push: the frame of the program, and below it the arguments.
  have hholds := poke_holds s.cpu.mem s.cur 1001
    ([ret, s.cpu.regs .ebx, s.cpu.regs .ecx, s.cpu.regs .edx, 0x80] ++
      (frameWords s.cpu.regs d 0 ++ [s.cpu.regs .esp, s.cpu.regs .ss]))
  rw [← hmem] at hholds
  have hargs := hholds.left
  simp only [holds_cons, Nat.reduceAdd] at hargs
  rcases hargs with ⟨-, hebx, hecx, hedx, -⟩
  generalize hc : syscallHandler (interrupt s.cpu gate) syscallTable ret = c at *
  have hs' : s' = { s with
      cpu := c
      frames := Function.update s.frames s.cur (1005 :: s.frames s.cur) } := by
    rw [← hidx, ← hc]
    exact (Except.ok.inj hs).symm
  refine ⟨.call c.regs (c.mem s.cur) syscallTable,
    a.setCur { regs := c.regs, stack := c.mem s.cur, suspended := v.regs :: v.suspended },
    ?_, ?_, ?_⟩
  · rw [vcpuEnabled, hv']
    dsimp only
    rw [← hrun.regs, h.cur]
    exact ⟨hcs, by rw [hkcs, rpl_selectorKCode], heip, hesp, hebx, hecx, hedx⟩
  · rw [vcpuStep, hv']
  · rw [hs']
    refine h.entered hrun (k := 1001) ?_ hesp₀ hkcs hkss hesp (by decide) (by decide) ?_ ?_ ?_
    · intro t hne
      rw [hmem, poke_of_ne hne]
    · refine ⟨d, 0, ?_⟩
      rw [← hrun.regs, if_pos hcs]
      exact ⟨hp.pgdir, rfl, hp.regs, hholds.drop⟩
    · rw [htop, ← hrun.regs, frameEnd, if_pos hcs]
    · intro j hj hj'
      rw [htop] at hj
      omega

/-- The last frame is left: what was interrupted runs again. -/
theorem left (h : Shares s a) (hrun : RunsAs s v) {b : Nat} {bs : List Nat} {r q : Regs}
    {rs : List Regs} (hbs : s.frames s.cur = b :: bs) (hrs : v.suspended = r :: rs)
    (hcs : q .cs = r .cs) (hss : q .ss = r .ss) (hesp : q .esp = r .esp)
    (hdata : ∀ sel ∈ [Reg.ds, .es, .fs, .gs], q sel = r sel) {c : Cpu} (hregs : c.regs = q)
    (hesp₀ : c.esp0 = s.cpu.esp0) (hother : ∀ t, t ≠ s.cur → c.mem t = s.cpu.mem t)
    (hkeep : ∀ j, frameEnd b r ≤ j → j < 1024 → c.mem s.cur j = s.cpu.mem s.cur j)
    {stack : Nat → Word}
    (hstack : ∀ j, frameEnd b r ≤ j → j < 1024 → stack j = s.cpu.mem s.cur j) :
    Shares { s with cpu := c, frames := Function.update s.frames s.cur (s.frames s.cur).tail }
      (a.setCur { regs := q, stack := stack, suspended := rs }) := by
  have hfr := hrun.frames
  rw [hbs, hrs] at hfr
  rcases hfr with ⟨hb, ⟨d, e, hf⟩, hend, hrest⟩
  have htail : (s.frames s.cur).tail = bs := by rw [hbs, List.tail_cons]
  rw [htail]
  have hrest' : FramesAt (s.pgdir s.cur) (c.mem s.cur) s.cur bs rs :=
    hrest.congr fun j hj hj' => hkeep j (by omega) hj'
  refine h.own rfl rfl rfl (fun t ht => Function.update_of_ne ht ..) hesp₀
    (keepsWaiting_of_mem hother) ⟨hregs, ?_, ?_⟩
  · dsimp only
    rw [Function.update_self]
    exact hrest'
  · split at hf
    · -- Back to the program. There is nothing else on the stack.
      rename_i hcs3
      rcases hf with ⟨hpg, rfl, hr, hw⟩
      rw [frameEnd, if_pos hcs3] at hend
      have hnil : bs = [] := by
        by_contra hne
        have := hrest.head_lt hne
        omega
      refine Or.inl ⟨⟨?_, fun sel hsel => ?_⟩, hpg, ?_⟩
      · rw [hregs, hcs, hcs3]
      · rw [hregs, hdata sel hsel, hr.data sel hsel]
      · dsimp only
        rw [Function.update_self, hnil]
    · rename_i hcs3
      rcases hf with ⟨hk, hs, hlt, hr, hw⟩
      rw [frameEnd, if_neg hcs3] at hend
      have hend' : frameEnd b r = b + 17 := if_neg hcs3
      refine Or.inr ⟨b + 17, ?_, ?_, by omega, hlt, ?_, ?_, fun j hj hj' => ?_⟩
      · rw [hregs, hcs, hk]
      · rw [hregs, hss, hs]
      · unfold Tasks.top
        dsimp only
        rw [Function.update_self]
        exact hend
      · rw [hregs, hesp, hr]
      · exact (hstack j (hend' ▸ hj) hj').trans (hkeep j (hend' ▸ hj) hj').symm

/-- The return from an interrupt. -/
theorem intrExit (h : Shares s a) (he : taskEnabled s .intrExit)
    (hs : taskStep s .intrExit = .ok s') :
    ∃ d a', vcpuEnabled a d ∧ vcpuStep a d = .ok a' ∧ Shares s' a' := by
  rcases h.running with ⟨v, hv, hrun⟩
  have hv' : a.cpus a.cur = some v := h.cur ▸ hv
  rcases he with ⟨hcs, b, hb, hesp⟩
  rcases runsKernel hrun hcs with ⟨k, hk⟩
  -- There is a frame, so something is suspended in the virtual processor as well.
  cases hbs : s.frames s.cur with
  | nil =>
      rw [hbs] at hb
      cases hb
  | cons b' bs =>
      rw [hbs] at hb
      cases hb
      have hfr := hrun.frames
      rw [hbs] at hfr
      cases hrs : v.suspended with
      | nil =>
          rw [hrs] at hfr
          exact hfr.elim
      | cons r rs =>
          rw [hrs] at hfr
          have hexit := intrExit_frame h.aligned_cur hk.cs hk.ss hesp hfr.2.1
          cases hs
          refine ⟨.leave, a.setCur { v with regs := r, suspended := rs }, ?_, ?_, ?_⟩
          · rw [vcpuEnabled, hv']
            dsimp only
            rw [hrs]
            exact List.cons_ne_nil r rs
          · rw [vcpuStep, hv']
            dsimp only
            rw [hrs]
            rfl
          · -- The stack pointer is at this frame, and above it nothing has changed.
            have hb' : b < frameEnd b r := frameEnd_le
            have hkb : k = b := stackSlot_inj (Nat.le_of_lt hk.lt)
              (Nat.le_of_lt (Nat.lt_of_lt_of_le hb' (hfr.2.2.1.trans hfr.2.2.2.head_le)))
              (hk.esp.symm.trans hesp)
            rw [hexit]
            refine h.left (c := { s.cpu with regs := r }) hrun hbs hrs rfl rfl rfl (fun _ _ => rfl)
              rfl rfl (fun _ _ => rfl) (fun _ _ _ => rfl) fun j hj hj' => ?_
            exact hk.stack j (by omega) hj'

/-- In a system call there is the frame of the program, and nothing else. -/
theorem inSyscall_frame (hrun : RunsAs s v) (h : InSyscall s) :
    ∃ r d e, v.suspended = [r] ∧ s.pgdir s.cur = true ∧ ProgramRegs r ∧
      HoldsWords (s.cpu.mem s.cur) 1006 (frameWords r d e ++ [r .esp, r .ss]) := by
  rcases h with ⟨-, hbs, hcs3⟩
  have hfr := hrun.frames
  rw [hbs] at hfr
  cases hrs : v.suspended with
  | nil =>
      rw [hrs] at hfr
      exact hfr.elim
  | cons r rs =>
      rw [hrs] at hfr
      rcases hfr with ⟨-, ⟨d, e, hf⟩, -, hrest⟩
      have hnil : rs = [] := by
        cases rs with
        | nil => rfl
        | cons r' rs => exact hrest.elim
      split at hf
      · rcases hf with ⟨hpg, -, hr, hw⟩
        exact ⟨r, d, e, by rw [hnil], hpg, hr, hw⟩
      · -- The selector in the frame is a program's.
        rename_i hne
        rcases hf with ⟨-, -, -, -, hw⟩
        have hsel : s.cpu.mem s.cur 1020 = r .cs := hw 14 (by simp [frameWords])
        rw [hsel] at hcs3
        exact absurd hcs3 hne

/-- The return from a system call, which leaves the result in the frame. -/
theorem syscallReturn (h : Shares s a) (he : taskEnabled s .syscallReturn)
    (hs : taskStep s .syscallReturn = .ok s') :
    ∃ d a', vcpuEnabled a d ∧ vcpuStep a d = .ok a' ∧ Shares s' a' := by
  rcases h.running with ⟨v, hv, hrun⟩
  have hv' : a.cpus a.cur = some v := h.cur ▸ hv
  have ht := h.aligned_cur
  rcases he with ⟨hin, hesp⟩
  rcases inSyscall_frame hrun hin with ⟨r, d, e, hrs, hpg, hr, hw⟩
  rcases runsKernel hrun hin.1 with ⟨k, hk⟩
  have hk' : k = 1002 := stackSlot_inj (Nat.le_of_lt hk.lt) (by decide) (hk.esp.symm.trans hesp)
  obtain ⟨m, hm⟩ : ∃ m, m = poke s.cpu.mem s.cur 1013 [s.cpu.regs .eax] := ⟨_, rfl⟩
  -- The result goes to the place of `eax`.
  have hstore : ForikOS.syscallReturn s.cpu =
      ForikOS.intrExit ⟨(s.cpu.set .esp (stackSlot s.cur 1005)).regs, m, s.cpu.esp0⟩ := by
    have hdrop : stackSlot s.cur 1002 + 12 = stackSlot s.cur 1005 := stackSlot_add s.cur 1002 3
    have hplace : stackSlot s.cur 1005 + 8 * 4 = stackSlot s.cur 1013 := stackSlot_add s.cur 1005 8
    unfold ForikOS.syscallReturn
    dsimp only
    rw [Cpu.dropBytes, hesp, hdrop, set_regs_self, hplace, set_regs_ne (by decide),
      store_stackSlot ht (by decide), hm]
    rfl
  have hw' := frame_setEax hw (s.cpu.regs .eax)
  rw [← poke_single s.cpu.mem, ← hm] at hw'
  have hcs : (s.cpu.set .esp (stackSlot s.cur 1005)).regs .cs = selectorKCode := by
    rw [set_regs_ne (by decide), hk.cs]
  rw [intrExit_program (c := ⟨_, m, s.cpu.esp0⟩) ht (by decide) hcs set_regs_self (hr.setEax _)
    hw'] at hstore
  cases hs
  refine ⟨.return (s.cpu.regs .eax),
    a.setCur { v with regs := Function.update r .eax (s.cpu.regs .eax), suspended := [] },
    ?_, ?_, ?_⟩
  · rw [vcpuEnabled, hv']
    exact ⟨r, hrs, hr.cs⟩
  · rw [vcpuStep, hv']
    dsimp only
    rw [hrs]
    rfl
  · rw [hstore]
    refine h.left (q := Function.update r .eax (s.cpu.regs .eax)) (c := ⟨_, m, s.cpu.esp0⟩) hrun
      hin.2.1 hrs rfl rfl rfl ?_ rfl rfl ?_ ?_ ?_
    · intro sel hsel
      exact Function.update_of_ne (by rintro rfl; revert hsel; decide) ..
    · intro t hne
      rw [hm]
      exact poke_of_ne hne
    · intro j hj hj'
      rw [frameEnd, if_pos hr.cs] at hj
      omega
    · intro j hj hj'
      rw [frameEnd, if_pos hr.cs] at hj
      omega

/-! ### From task to task -/

/-- The task that calls `switch_to` waits then. -/
structure Parked (s : Tasks) (v : Vcpu) (ret : Word) (m : Word → Nat → Word) (k : Nat) :
    Prop where
  other : ∀ t, t ≠ s.cur → m t = s.cpu.mem t
  keep : ∀ j, k + 7 ≤ j → j < 1024 → m s.cur j = s.cpu.mem s.cur j
  waits : WaitsAt (s.pgdir s.cur) (m s.cur) s.cur (s.frames s.cur)
    (v.wait ret (m s.cur)) k

/-- What is on the stacks when `switch_to` leaves one for another. -/
def switchMem (s : Tasks) (next ret : Word) (k : Nat) : Word → Nat → Word :=
  poke (poke s.cpu.mem s.cur k [s.cpu.regs .ebp, s.cpu.regs .ebx, s.cpu.regs .edi,
    s.cpu.regs .esi, ret, s.cur, next]) s.cur 0 [stackSlot s.cur k]

theorem parked (hrun : RunsAs s v) {k : Nat} (hr : RunsKernel s v (k + 7)) (hk : 0 < k)
    (next ret : Word) : Parked s v ret (switchMem s next ret k) k := by
  have hlt := hr.lt
  have htop := hr.top
  have hother : ∀ t, t ≠ s.cur → switchMem s next ret k t = s.cpu.mem t := by
    intro t hne
    rw [switchMem, poke_of_ne hne, poke_of_ne hne]
  have habove : ∀ j, 0 < j → switchMem s next ret k s.cur j =
      poke s.cpu.mem s.cur k [s.cpu.regs .ebp, s.cpu.regs .ebx, s.cpu.regs .edi,
        s.cpu.regs .esi, ret, s.cur, next] s.cur j :=
    fun j hj => poke_of_le (by
      rw [List.length_singleton]
      omega)
  have hkeep : ∀ j, k + 7 ≤ j → switchMem s next ret k s.cur j = s.cpu.mem s.cur j := by
    intro j hj
    rw [habove j (by omega)]
    exact poke_of_le (by simpa using hj)
  -- Seven words are pushed below what was in use: three by the call, four by `switch_to`.
  have hw := poke_holds s.cpu.mem s.cur k [s.cpu.regs .ebp, s.cpu.regs .ebx, s.cpu.regs .edi,
    s.cpu.regs .esi, ret, s.cur, next]
  simp only [holds_cons, Nat.add_assoc, Nat.reduceAdd] at hw
  rcases hw with ⟨h0, h1, h2, h3, h4, -⟩
  have hesp : s.cpu.regs .esp - 8 = stackSlot s.cur (k + 5) := by
    rw [hr.esp]
    exact stackSlot_sub s.cur (k + 5) 2
  refine ⟨hother, fun j hj _ => hkeep j hj, ?_⟩
  rw [Vcpu.wait, ← hrun.regs]
  exact {
    pos := hk
    lt := by omega
    top := by
      unfold Tasks.top at htop
      omega
    kstack := by rw [switchMem, poke_single, Function.update_self]
    ebp := (habove k hk).trans h0
    ebx := (habove (k + 1) (by omega)).trans h1
    edi := (habove (k + 2) (by omega)).trans h2
    esi := (habove (k + 3) (by omega)).trans h3
    eip := (habove (k + 4) (by omega)).trans h4
    esp := hesp
    stack := fun _ _ _ => rfl
    frames := hrun.frames.congr fun j hj hj' => hkeep j (by
      unfold Tasks.top at htop
      omega) }

/-- `process_activate` and the call of `switch_to`. -/
theorem switchCall_stackSlot (h : Shares s a) {k j : Nat}
    (hr : RunsKernel s v (k + 7)) (hk : 0 < k) {next ret : Word} (hnext : PageAligned next)
    (hj : j + 5 ≤ 1024) (hself : switchMem s next ret k next 0 = stackSlot next j) :
    let c := s.switchCall next ret
    c.mem = switchMem s next ret k ∧
      c.esp0 = (if s.pgdir next then stackSlot next 1024 else s.cpu.esp0) ∧
      c.regs .esp = stackSlot next (j + 5) ∧
      (∀ r ∈ [Reg.ebp, .ebx, .edi, .esi, .eip],
        c.regs r = switchRegs (switchMem s next ret k next) j r) ∧
      c.regs .cs = s.cpu.regs .cs ∧ c.regs .ss = s.cpu.regs .ss := by
  have ht := h.aligned_cur
  have hlt := hr.lt
  have hcur : runningThread s.cpu = s.cur := by
    rw [runningThread, hr.esp, pageBase_stackSlot ht hlt]
  -- `process_activate` writes `esp0` and nothing else, and only for a process.
  obtain ⟨c, hc⟩ : ∃ c, c = if s.pgdir next then { s.cpu with esp0 := next + pgSize } else s.cpu :=
    ⟨_, rfl⟩
  have hcregs : c.regs = s.cpu.regs := by
    rw [hc]
    split <;> rfl
  have hcmem : c.mem = s.cpu.mem := by
    rw [hc]
    split <;> rfl
  have hpush : ((c.push next).push s.cur).call 0 ret = (c.pushes [next, s.cur, ret]).set .eip 0 :=
    rfl
  have hesp : c.regs .esp = stackSlot s.cur (k + 4 + 3) := by rw [hcregs, hr.esp]
  have hslot := pushes_count (c := c) [next, s.cur, ret] (n := 3) ht rfl (by omega) hesp
  rw [hcmem] at hslot
  obtain ⟨c', hc'⟩ : ∃ c', c' = (c.pushes [next, s.cur, ret]).set .eip 0 := ⟨_, rfl⟩
  have hregs' : ∀ r, r ≠ .eip → r ≠ .esp → c'.regs r = s.cpu.regs r := by
    intro r heip hesp'
    rw [hc', set_regs_ne heip, pushes_regs hesp', hcregs]
  have hesp' : c'.regs .esp = stackSlot s.cur (k + 4) := by
    rw [hc', set_regs_ne (by decide), hslot, onStack_esp]
  have hmem' : c'.mem = poke s.cpu.mem s.cur (k + 4) (ret :: s.cur :: [next]) := by
    rw [hc', set_mem, hslot, onStack_mem]
    rfl
  have hesp₀ : c'.esp0 = if s.pgdir next then stackSlot next 1024 else s.cpu.esp0 := by
    rw [hc', set_esp0, pushes_esp0, hc]
    split <;> rfl
  -- The rest is `switch_to` with its two arguments and the return address on the stack.
  have hsw := switchTo_stackSlot ht hnext hk (by omega) hj hesp' hmem'
  simp only [List.append_nil, hregs' .ebp (by decide) (by decide),
    hregs' .ebx (by decide) (by decide), hregs' .edi (by decide) (by decide),
    hregs' .esi (by decide) (by decide)] at hsw
  have hcall : s.switchCall next ret = switchTo c' := by
    rw [hc', Tasks.switchCall, hcur, ← hpush, hc]
  rcases hsw hself with ⟨h1, h2, h3, h4, h5, h6⟩
  rw [hcall]
  refine ⟨h1, h2.trans hesp₀, h3, h4, ?_, ?_⟩
  · rw [h5, hregs' .cs (by decide) (by decide)]
  · rw [h6, hregs' .ss (by decide) (by decide)]

/-- A task that waited goes on where it was. -/
theorem resumed {w : Vcpu} {t : Word} {j : Nat}
    (hw : WaitsAt (s.pgdir t) (s.cpu.mem t) t (s.frames t) w j) (hcur : s.cur = t)
    (hcs : s.cpu.regs .cs = selectorKCode) (hss : s.cpu.regs .ss = selectorKStack)
    (hesp : s.cpu.regs .esp = stackSlot t (j + 5))
    (hregs : ∀ r ∈ [Reg.ebp, .ebx, .edi, .esi, .eip],
      s.cpu.regs r = switchRegs (s.cpu.mem t) j r) :
    RunsAs s { w with regs := s.cpu.regs } ∧ KeptRegs s.cpu.regs w.regs := by
  subst hcur
  refine ⟨⟨rfl, hw.frames, Or.inr ⟨j + 5, ?_⟩⟩, ?_⟩
  · exact ⟨hcs, hss, by omega, hw.lt, hw.top, hesp, hw.stack⟩
  · intro x hx
    simp only [List.mem_cons, List.not_mem_nil, or_false] at hx
    rcases hx with rfl | rfl | rfl | rfl | rfl | rfl
    · exact (hregs .ebx (by decide)).trans hw.ebx
    · exact (hregs .esi (by decide)).trans hw.esi
    · exact (hregs .edi (by decide)).trans hw.edi
    · exact (hregs .ebp (by decide)).trans hw.ebp
    · exact hesp.trans hw.esp.symm
    · exact (hregs .eip (by decide)).trans hw.eip

/-- The place on the stack, where there is room. -/
theorem inKernel (hrun : RunsAs s v) {n : Nat} (h : InKernel s n) :
    ∃ k, 0 < k ∧ RunsKernel s v (k + n) := by
  rcases h with ⟨hcs, k, hk, hlt, hesp⟩
  rcases runsKernel hrun hcs with ⟨k', hr⟩
  obtain rfl : k' = k + n := stackSlot_inj (Nat.le_of_lt hr.lt) (Nat.le_of_lt hlt)
    (hr.esp.symm.trans hesp)
  exact ⟨k, hk, hr⟩

/-- What `schedule` and `thread_exit` have in common: the task that leaves waits,
    and the other one runs with what it waited with. -/
theorem switched (h : Shares s a) {k : Nat} (hr : RunsKernel s v (k + 7))
    (hk : 0 < k) {next ret : Word} (hnext : next ∈ s.tasks) {w : Vcpu} {j : Nat}
    (hw : WaitsAt (s.pgdir next) (switchMem s next ret k next) next (s.frames next) w j) :
    let s₁ := { s with cpu := s.switchCall next ret, cur := next }
    s₁.cpu.mem = switchMem s next ret k ∧ RunsAs s₁ { w with regs := s₁.cpu.regs } ∧
      KeptRegs s₁.cpu.regs w.regs ∧ (s.pgdir next = true → s₁.cpu.esp0 = stackSlot next 1024) := by
  rcases h.switchCall_stackSlot hr hk (h.aligned next hnext) (Nat.le_of_lt hw.lt) hw.kstack with
    ⟨hmem, hesp₀, hesp, hregs, hcs, hss⟩
  intro s₁
  have hres := resumed (s := s₁) (t := next) (hmem ▸ hw) rfl (hcs.trans hr.cs)
    (hss.trans hr.ss) hesp (hmem ▸ hregs)
  refine ⟨hmem, hres.1, hres.2, fun hpg => ?_⟩
  rw [hesp₀, if_pos hpg]

/-- What the other task waits with, where the one that leaves waits too. -/
theorem waits_next (h : Shares s a) {ret next : Word} {k : Nat} {m : Word → Nat → Word}
    (hp : Parked s v ret m k) (hnext : next ∈ s.tasks) :
    ∃ w j, (a.setCur (v.wait ret (m s.cur))).cpus next = some w ∧
      WaitsAt (s.pgdir next) (m next) next (s.frames next) w j := by
  have hac := h.cur
  by_cases hne : next = s.cur
  · subst hne
    refine ⟨_, k, ?_, hp.waits⟩
    rw [← hac]
    exact Function.update_self ..
  · rcases h.waiting next hnext hne with ⟨w, hw, j, hj⟩
    refine ⟨w, j, (Function.update_of_ne (hac ▸ hne) ..).trans hw, ?_⟩
    rw [hp.other next hne]
    exact hj

/-- `schedule`. -/
theorem schedule (h : Shares s a) {next ret : Word} (he : taskEnabled s (.schedule next ret))
    (hs : taskStep s (.schedule next ret) = .ok s') :
    ∃ d a', vcpuEnabled a d ∧ vcpuStep a d = .ok a' ∧ Shares s' a' := by
  rcases h.running with ⟨v, hv, hrun⟩
  have hac := h.cur
  have hv' : a.cpus a.cur = some v := hac ▸ hv
  have ht := h.aligned_cur
  rcases he with ⟨hin, hnext⟩
  rcases inKernel hrun hin with ⟨k, hk, hr⟩
  have hp := parked hrun hr hk next ret
  rcases h.waits_next hp hnext with ⟨w, j, hwcpu, hwait⟩
  rcases h.switched hr hk hnext hwait with ⟨hmem, hres, hkept, hesp₀⟩
  cases hs
  -- The virtual processor of `next` gets what the shared one has now.
  refine ⟨.switch next ret (switchMem s next ret k s.cur) (s.switchCall next ret).regs, _,
    ?_, by rw [vcpuStep, hv'], ?_⟩
  · rw [vcpuEnabled, hv']
    refine ⟨fun j' hj hj' => ?_, ?_⟩
    · rw [← hrun.regs, hr.esp, wordIdx_stackSlot ht hr.lt] at hj
      rw [hp.keep j' hj hj', hr.stack j' hj hj']
    · exact ⟨w, hwcpu, hkept⟩
  · refine ⟨rfl, hnext, h.aligned, ?_, ⟨_, ?_, hres⟩, ?_, hesp₀⟩
    · intro t hmem'
      have hne : t ≠ next := by
        rintro rfl
        exact hmem' hnext
      have hne' : t ≠ a.cur := by
        rintro rfl
        exact hmem' (hac ▸ h.mem)
      exact (Function.update_of_ne hne ..).trans
        ((Function.update_of_ne hne' ..).trans (h.none t hmem'))
    · exact (Function.update_self ..).trans (by rw [hwcpu]; rfl)
    · -- The task that leaves waits from now on; all others have kept their pages.
      intro t hmem' hne
      by_cases htc : t = s.cur
      · subst htc
        have hself : (a.setCur (v.wait ret (switchMem s next ret k s.cur))).cpus s.cur =
            some (v.wait ret (switchMem s next ret k s.cur)) := by
          rw [← hac]
          exact Function.update_self ..
        refine ⟨_, (Function.update_of_ne hne ..).trans hself, k, ?_⟩
        dsimp only
        rw [hmem]
        exact hp.waits
      · rcases h.waiting t hmem' htc with ⟨u, hu, hwait'⟩
        refine ⟨u, (Function.update_of_ne hne ..).trans
          ((Function.update_of_ne (hac ▸ htc) ..).trans hu), ?_⟩
        have hmt : (s.switchCall next ret).mem t = s.cpu.mem t := by
          dsimp only at hmem
          rw [hmem, hp.other t htc]
        exact hwait'.keep (h.aligned t hmem') rfl rfl (congrFun hmt 0) fun j _ _ => congrFun hmt j

/-- `thread_exit` of the running task. -/
theorem threadExit (h : Shares s a) {next ret : Word}
    (he : taskEnabled s (.threadExit next ret)) (hs : taskStep s (.threadExit next ret) = .ok s') :
    ∃ d a', vcpuEnabled a d ∧ vcpuStep a d = .ok a' ∧ Shares s' a' := by
  rcases h.running with ⟨v, hv, hrun⟩
  have hac := h.cur
  have hv' : a.cpus a.cur = some v := hac ▸ hv
  rcases he with ⟨hin, hnext, hne⟩
  rcases inKernel hrun hin with ⟨k, hk, hr⟩
  have hp := parked hrun hr hk next ret
  rcases h.waiting next hnext hne with ⟨w, hw, j, hwait⟩
  -- The page of `next` is not that of the task that ends.
  rw [← hp.other next hne] at hwait
  rcases h.switched hr hk hnext hwait with ⟨hmem, hres, hkept, hesp₀⟩
  have hmemIff : ∀ t, t ∈ s.tasks.filter (· ≠ s.cur) ↔ t ∈ s.tasks ∧ t ≠ s.cur := by
    intro t
    rw [List.mem_filter, decide_eq_true_eq]
  cases hs
  refine ⟨.exit next (s.switchCall next ret).regs, _, ?_, by rw [vcpuStep, hv'], ?_⟩
  · rw [vcpuEnabled, hv']
    exact ⟨hac ▸ hne, w, hw, hkept⟩
  · refine ⟨rfl, (hmemIff next).mpr ⟨hnext, hne⟩, fun t ht => h.aligned t ((hmemIff t).mp ht).1,
      ?_, ⟨{ w with regs := (s.switchCall next ret).regs }, ?_, ?_⟩, ?_, hesp₀⟩
    · intro t hmem'
      have hne' : t ≠ next := by
        rintro rfl
        exact hmem' ((hmemIff _).mpr ⟨hnext, hne⟩)
      refine (Function.update_of_ne hne' ..).trans ?_
      dsimp only
      rw [hac]
      by_cases htc : t = s.cur
      · rw [htc, Function.update_self]
      · rw [Function.update_of_ne htc]
        exact h.none t fun hmem => hmem' ((hmemIff t).mpr ⟨hmem, htc⟩)
    · have hself : Function.update a.cpus a.cur Option.none next = some w := by
        rw [hac, Function.update_of_ne hne, hw]
      refine (Function.update_self ..).trans ?_
      dsimp only
      rw [hself, Option.map_some]
    · exact hres.setTasks _
    · intro t hmem' hne'
      rcases (hmemIff t).mp hmem' with ⟨htm, htc⟩
      rcases h.waiting t htm htc with ⟨u, hu, hwait'⟩
      refine ⟨u, (Function.update_of_ne hne' ..).trans
        ((Function.update_of_ne (hac ▸ htc) ..).trans hu), ?_⟩
      have hmt : (s.switchCall next ret).mem t = s.cpu.mem t := by
        rw [hmem, hp.other t htc]
      exact hwait'.keep (h.aligned t htm) rfl rfl (congrFun hmt 0) fun j _ _ => congrFun hmt j

/-- `thread_exit` of another task. -/
theorem reap (h : Shares s a) {t : Word} (he : taskEnabled s (.reap t))
    (hs : taskStep s (.reap t) = .ok s') :
    ∃ d a', vcpuEnabled a d ∧ vcpuStep a d = .ok a' ∧ Shares s' a' := by
  rcases h.running with ⟨v, hv, hrun⟩
  have hac := h.cur
  have hv' : a.cpus a.cur = some v := hac ▸ hv
  have hne : t ≠ s.cur := he.2
  have hmemIff : ∀ u, u ∈ s.tasks.filter (· ≠ t) ↔ u ∈ s.tasks ∧ u ≠ t := by
    intro u
    rw [List.mem_filter, decide_eq_true_eq]
  cases hs
  refine ⟨.drop t, _, ?_, by rw [vcpuStep, hv'], ?_⟩
  · rw [vcpuEnabled, hv']
    exact hac ▸ hne
  · refine ⟨hac, (hmemIff _).mpr ⟨h.mem, hne.symm⟩, fun u hu => h.aligned u ((hmemIff u).mp hu).1,
      ?_, ⟨v, (Function.update_of_ne hne.symm ..).trans hv, hrun.setTasks _⟩,
      ?_, h.esp0⟩
    · intro u hu
      dsimp only
      by_cases hut : u = t
      · rw [hut, Function.update_self]
      · rw [Function.update_of_ne hut]
        exact h.none u fun hmem => hu ((hmemIff u).mpr ⟨hmem, hut⟩)
    · -- The tasks that remain are not `t`, and wait as before.
      intro u hu huc
      rcases (hmemIff u).mp hu with ⟨hum, hut⟩
      rcases h.waiting u hum huc with ⟨w, hw, hwait⟩
      exact ⟨w, (Function.update_of_ne hut ..).trans hw, hwait⟩

/-! ### New tasks -/

/-- A new task that waits. -/
theorem added (h : Shares s a) {t : Word} (ht : t ∉ s.tasks) (hta : PageAligned t)
    {page : Nat → Word} {pg : Bool} {bs : List Nat} {w : Vcpu} {k : Nat}
    (hw : WaitsAt pg page t bs w k) :
    Shares { s with
        cpu := s.cpu.withPage t page
        tasks := t :: s.tasks
        pgdir := Function.update s.pgdir t pg
        frames := Function.update s.frames t bs }
      { a with cpus := Function.update a.cpus t (some w) } := by
  have hmem : ∀ u, u ≠ t → (s.cpu.withPage t page).mem u = s.cpu.mem u :=
    fun u hu => Function.update_of_ne hu ..
  have hct : s.cur ≠ t := fun heq => ht (heq ▸ h.mem)
  have hcpg : Function.update s.pgdir t pg s.cur = s.pgdir s.cur := Function.update_of_ne hct ..
  have hcfr : Function.update s.frames t bs s.cur = s.frames s.cur := Function.update_of_ne hct ..
  -- The running task is another one, and all that is said of it is about its own page.
  rcases h.running with ⟨v, hv, hrun⟩
  refine ⟨h.cur, List.mem_cons_of_mem _ h.mem, ?_, ?_,
    ⟨v, (Function.update_of_ne hct ..).trans hv, hrun.regs, ?_, ?_⟩, ?_, ?_⟩
  · intro u hu
    rcases List.mem_cons.mp hu with rfl | hu
    · exact hta
    · exact h.aligned u hu
  · intro u hu
    rw [List.mem_cons, not_or] at hu
    exact (Function.update_of_ne hu.1 ..).trans (h.none u hu.2)
  · dsimp only
    rw [hcpg, hcfr, hmem _ hct]
    exact hrun.frames
  · rcases hrun.mode with hp | ⟨k', hk'⟩
    · exact Or.inl ⟨hp.regs, hcpg.trans hp.pgdir, hcfr.trans hp.frames⟩
    · refine Or.inr ⟨k', hk'.cs, hk'.ss, hk'.pos, hk'.lt, ?_, hk'.esp, ?_⟩
      · unfold Tasks.top
        dsimp only
        rw [hcfr]
        exact hk'.top
      · dsimp only
        rw [hmem _ hct]
        exact hk'.stack
  · -- The new task waits as it was made, and the others wait as before.
    intro u hu huc
    dsimp only at huc
    by_cases hut : u = t
    · subst hut
      refine ⟨w, Function.update_self .., k, ?_⟩
      dsimp only [Cpu.withPage]
      rw [Function.update_self, Function.update_self, Function.update_self]
      exact hw
    · have hu' : u ∈ s.tasks := (List.mem_cons.mp hu).resolve_left hut
      rcases h.waiting u hu' huc with ⟨w', hw', hwait⟩
      refine ⟨w', (Function.update_of_ne hut ..).trans hw', ?_⟩
      exact hwait.keep (h.aligned u hu') (Function.update_of_ne hut ..)
        (Function.update_of_ne hut ..) (congrFun (hmem u hut) 0)
        fun j _ _ => congrFun (hmem u hut) j
  · intro hpg
    dsimp only at hpg
    rw [hcpg] at hpg
    exact h.esp0 hpg

/-- `thread_start`, and `process_execute`. -/
theorem threadStart (h : Shares s a) {t function funcArg kernelThread : Word} {pg : Bool}
    (he : taskEnabled s (.threadStart t function funcArg kernelThread pg))
    (hs : taskStep s (.threadStart t function funcArg kernelThread pg) = .ok s') :
    ∃ d a', vcpuEnabled a d ∧ vcpuStep a d = .ok a' ∧ Shares s' a' := by
  rcases h.running with ⟨v, hv, hrun⟩
  have hv' : a.cpus a.cur = some v := h.cur ▸ hv
  rcases he with ⟨-, ht, hta⟩
  rcases threadCreate_page (c := s.cpu) hta function funcArg kernelThread with
    ⟨page, hpage, hkstack, hw⟩
  simp only [holds_cons, Nat.reduceAdd] at hw
  rcases hw with ⟨h0, h1, h2, h3, h4, h5, h6, h7, -⟩
  -- The registers that `switch_to` will load from the `thread_stack`, the entry as return
  -- address.
  let r : Regs := fun x => if x = .esp then stackSlot t 921 else if x = .eip then kernelThread else 0
  -- The new task waits on a page of its own that nothing has suspended.
  have hwait : WaitsAt pg page t [] ⟨r, page, []⟩ 916 := {
    pos := by decide
    lt := by decide
    top := by decide
    kstack := hkstack
    ebp := h0
    ebx := h1
    edi := h2
    esi := h3
    eip := h4
    esp := rfl
    stack := fun _ _ _ => rfl
    frames := trivial }
  have hadd := h.added ht hta hwait
  rw [← hpage] at hadd
  cases hs
  refine ⟨.create t function funcArg kernelThread ⟨r, page, []⟩, _, ?_, by rw [vcpuStep, hv'],
    hadd⟩
  rw [vcpuEnabled, hv']
  exact ⟨h.none t ht, rfl, rfl, rfl, h6, h7⟩

/-- `sys_fork`: the child waits in front of `intr_exit`, with the frame of the
    parent. -/
theorem fork (h : Shares s a) {child intrExitAddr : Word}
    (he : taskEnabled s (.fork child intrExitAddr))
    (hs : taskStep s (.fork child intrExitAddr) = .ok s') :
    ∃ d a', vcpuEnabled a d ∧ vcpuStep a d = .ok a' ∧ Shares s' a' := by
  rcases h.running with ⟨v, hv, hrun⟩
  have hv' : a.cpus a.cur = some v := h.cur ▸ hv
  rcases he with ⟨hin, ht, hta⟩
  rcases inSyscall_frame hrun hin with ⟨r, d, e, hrs, hpg, hr, hw⟩
  have hcopy : copyStack0 s.cpu child s.cur = s.cpu.withPage child (s.cpu.mem s.cur) := rfl
  rcases buildChildStack_page (c := s.cpu) hta (s.cpu.mem s.cur) intrExitAddr with
    ⟨page, hpage, hkstack, hw', habove⟩
  simp only [holds_cons, Nat.reduceAdd] at hw'
  rcases hw' with ⟨h0, h1, h2, h3, h4, -⟩
  -- What `switch_to` will load when the child runs for the first time.
  let r' : Regs := fun x => if x = .esp then stackSlot child 1005 else
    if x = .eip then intrExitAddr else 0
  have hframe : FrameAt true page child 1005 (Function.update r .eax 0) := by
    refine ⟨d, e, ?_⟩
    rw [if_pos (hr.setEax 0).cs]
    refine ⟨rfl, rfl, hr.setEax 0, ?_⟩
    exact (frame_setEax hw 0).congr fun k hk _ => habove k (by omega)
  -- The child waits in front of the way back to its program, where `eax` is zero.
  have hwait : WaitsAt true page child [1005] ⟨r', page, [Function.update r .eax 0]⟩ 1000 := {
    pos := by decide
    lt := by decide
    top := by decide
    kstack := hkstack
    ebp := h0
    ebx := h1
    edi := h2
    esi := h3
    eip := h4
    esp := rfl
    stack := fun _ _ _ => rfl
    frames := ⟨by decide, hframe, by
      rw [frameEnd, if_pos (hr.setEax 0).cs]
      exact Nat.le_refl _, trivial⟩ }
  have hadd := h.added ht hta hwait
  rw [← hpage, ← hcopy, ← hin.2.1] at hadd
  cases hs
  refine ⟨.fork child ⟨r', page, [Function.update r .eax 0]⟩, _, ?_, by rw [vcpuStep, hv'], hadd⟩
  rw [vcpuEnabled, hv']
  exact ⟨h.none child ht, r, hrs, hr.cs, rfl, rfl⟩

/-! ### New programs -/

/-- A program begins on an empty stack. -/
theorem began (h : Shares s a) {r : Regs} (hr : ProgramRegs r) (hpg : s.pgdir s.cur = true)
    {c : Cpu} (hregs : c.regs = r) (hesp₀ : c.esp0 = s.cpu.esp0)
    (hother : ∀ t, t ≠ s.cur → c.mem t = s.cpu.mem t) {frames : Word → List Nat}
    (hfr : frames s.cur = []) (hframes : ∀ t, t ≠ s.cur → frames t = s.frames t)
    (stack : Nat → Word) :
    Shares { s with cpu := c, frames := frames }
      (a.setCur { regs := r, stack := stack, suspended := [] }) := by
  refine h.own rfl rfl rfl hframes hesp₀ (keepsWaiting_of_mem hother) ⟨hregs, ?_, Or.inl ?_⟩
  · dsimp only
    rw [hfr]
    exact trivial
  · exact ⟨hregs ▸ hr, hpg, hfr⟩

theorem programRegs_startRegs (function esp : Word) : ProgramRegs (startRegs function esp) := by
  have hcode : rpl selectorUCode = 3 := by decide
  have hdata : returnedSeg selectorUData = selectorUData := by decide
  have hnull : returnedSeg 0 = 0 := by decide
  refine ⟨hcode, fun sel hsel => ?_⟩
  simp only [List.mem_cons, List.not_mem_nil, or_false] at hsel
  rcases hsel with rfl | rfl | rfl | rfl
  · exact hdata
  · exact hdata
  · exact hdata
  · exact hnull

/-- `start_process`. -/
theorem startProcess (h : Shares s a) {function esp : Word}
    (he : taskEnabled s (.startProcess function esp))
    (hs : taskStep s (.startProcess function esp) = .ok s') :
    ∃ d a', vcpuEnabled a d ∧ vcpuStep a d = .ok a' ∧ Shares s' a' := by
  rcases h.running with ⟨v, hv, hrun⟩
  have hv' : a.cpus a.cur = some v := h.cur ▸ hv
  have ht := h.aligned_cur
  rcases he with ⟨hcs, hbs, hpg, k, hk, hlt, hkstack⟩
  rcases runsKernel hrun hcs with ⟨k', hr⟩
  have hcur : runningThread s.cpu = s.cur := by rw [runningThread, hr.esp, pageBase_stackSlot ht hr.lt]
  have hnil : v.suspended = [] := by
    have hfr := hrun.frames
    rw [hbs] at hfr
    cases hsu : v.suspended with
    | nil => rfl
    | cons r rs =>
        rw [hsu] at hfr
        exact hfr.elim
  have hadd : stackSlot s.cur k + 4 * 32 = stackSlot s.cur (k + 32) := stackSlot_add s.cur k 32
  have hdummy : stackSlot s.cur (k + 32) + 16 = stackSlot s.cur (k + 32 + 4) := stackSlot_add s.cur (k + 32) 4
  -- `self_kstack` goes up behind the `thread_stack`, and the frame is made there.
  obtain ⟨page₀, hpage₀⟩ : ∃ page₀, page₀ =
      Function.update (Function.update (s.cpu.mem s.cur) 0 (stackSlot s.cur (k + 32))) (k + 32 + 4) 0 :=
    ⟨_, rfl⟩
  rcases storeFrame_page (c := s.cpu) ht page₀ (k := k + 32) (by omega)
    (startRegs function esp) with ⟨page, d, e, hpage, hw⟩
  have hrunStart : ForikOS.startProcess s.cpu function esp =
      ForikOS.intrExit ((s.cpu.withPage s.cur page).set .esp (stackSlot s.cur (k + 32))) := by
    unfold ForikOS.startProcess
    dsimp only
    rw [hcur, load_kstack ht, hkstack, hadd, store_kstack ht, load_pcb ht, Function.update_self,
      hdummy, store_withPage ht (by omega), ← hpage₀, hpage]
  have hcs' : ((s.cpu.withPage s.cur page).set .esp (stackSlot s.cur (k + 32))).regs .cs =
      selectorKCode := (set_regs_ne (by decide)).trans hr.cs
  have hpages : ((s.cpu.withPage s.cur page).set .esp (stackSlot s.cur (k + 32))).mem s.cur = page :=
    Function.update_self ..
  -- The frame is that of a program that an interrupt has left, so `intr_exit` enters it.
  rw [intrExit_program ht (by omega) hcs' set_regs_self (programRegs_startRegs function esp)
    (hpages.symm ▸ hw)] at hrunStart
  cases hs
  refine ⟨.start function esp, a.setCur { v with regs := startRegs function esp }, ?_,
    by rw [vcpuStep, hv'], ?_⟩
  · rw [vcpuEnabled, hv']
    exact hnil
  · rw [hrunStart, hnil]
    exact h.began (c := { s.cpu.withPage s.cur page with regs := startRegs function esp })
      (programRegs_startRegs function esp) hpg rfl rfl
      (fun t hne => Function.update_of_ne hne ..) hbs (fun _ _ => rfl) v.stack

theorem programRegs_execRegs {r : Regs} (hr : ProgramRegs r) (argv argc entryPoint : Word) :
    ProgramRegs (execRegs r argv argc entryPoint) := by
  unfold execRegs
  refine ⟨?_, fun sel hsel => ?_⟩
  · simp [hr.cs]
  · have hdata := hr.data sel hsel
    simp only [List.mem_cons, List.not_mem_nil, or_false] at hsel
    rcases hsel with rfl | rfl | rfl | rfl <;> simpa using hdata

/-- `sys_execv`, in the frame of the program it replaces. -/
theorem execv (h : Shares s a) {argv argc entryPoint : Word}
    (he : taskEnabled s (.execv argv argc entryPoint))
    (hs : taskStep s (.execv argv argc entryPoint) = .ok s') :
    ∃ d a', vcpuEnabled a d ∧ vcpuStep a d = .ok a' ∧ Shares s' a' := by
  rcases h.running with ⟨v, hv, hrun⟩
  have hv' : a.cpus a.cur = some v := h.cur ▸ hv
  have ht := h.aligned_cur
  have hin : InSyscall s := he
  rcases inSyscall_frame hrun hin with ⟨r, d, e, hrs, hpg, hr, hw⟩
  rcases runsKernel hrun hin.1 with ⟨k, hk⟩
  have hcur : runningThread s.cpu = s.cur := by rw [runningThread, hk.esp, pageBase_stackSlot ht hk.lt]
  have h1005 : s.cur + pgSize - 76 = stackSlot s.cur 1005 := stackSlot_sub s.cur 1005 19
  have h5 : stackSlot s.cur 1005 + 20 = stackSlot s.cur 1010 := stackSlot_add s.cur 1005 5
  have h7 : stackSlot s.cur 1005 + 28 = stackSlot s.cur 1012 := stackSlot_add s.cur 1005 7
  have h14 : stackSlot s.cur 1005 + 56 = stackSlot s.cur 1019 := stackSlot_add s.cur 1005 14
  have h17 : stackSlot s.cur 1005 + 68 = stackSlot s.cur 1022 := stackSlot_add s.cur 1005 17
  -- The page of the task with the four words that `sys_execv` writes into the frame.
  obtain ⟨page, hpage⟩ : ∃ page, page = Function.update (Function.update (Function.update
      (Function.update (s.cpu.mem s.cur) 1010 argv) 1012 argc) 1019 entryPoint) 1022 0xc0000000 :=
    ⟨_, rfl⟩
  have hrunExec : execFrame s.cpu argv argc entryPoint =
      ForikOS.intrExit ((s.cpu.withPage s.cur page).set .esp (stackSlot s.cur 1005)) := by
    have hfirst : (s.cpu.withPage s.cur (s.cpu.mem s.cur)).store (stackSlot s.cur 1010) argv =
        s.cpu.withPage s.cur (Function.update (s.cpu.mem s.cur) 1010 argv) :=
      store_withPage ht (by decide) argv
    rw [withPage_self] at hfirst
    unfold execFrame
    dsimp only
    rw [hcur, h1005, h5, h7, h14, h17, hfirst, store_withPage ht (by decide),
      store_withPage ht (by decide), store_withPage ht (by decide), ← hpage]
  have hcs' : ((s.cpu.withPage s.cur page).set .esp (stackSlot s.cur 1005)).regs .cs =
      selectorKCode := (set_regs_ne (by decide)).trans hk.cs
  have hpages : ((s.cpu.withPage s.cur page).set .esp (stackSlot s.cur 1005)).mem s.cur = page :=
    Function.update_self ..
  have hr' := programRegs_execRegs hr argv argc entryPoint
  have hw' : HoldsWords page 1006 (frameWords (execRegs r argv argc entryPoint) d e ++
      [execRegs r argv argc entryPoint .esp, execRegs r argv argc entryPoint .ss]) := by
    rw [hpage]
    simp only [frameWords, List.cons_append, List.nil_append, holds_cons, Nat.reduceAdd] at hw ⊢
    simp [execRegs, hw]
  -- The way out is that of a system call, so it ends in the new program.
  rw [intrExit_program ht (by decide) hcs' set_regs_self hr' (hpages.symm ▸ hw')] at hrunExec
  cases hs
  refine ⟨.exec argv argc entryPoint,
    a.setCur ⟨execRegs r argv argc entryPoint, v.stack, []⟩, ?_, ?_, ?_⟩
  · rw [vcpuEnabled, hv']
    exact ⟨r, hrs, hr.cs⟩
  · rw [vcpuStep, hv']
    dsimp only
    rw [hrs]
    rfl
  · rw [hrunExec]
    exact h.began (c := { s.cpu.withPage s.cur page with regs := execRegs r argv argc entryPoint })
      hr' hpg rfl rfl (fun t hne => Function.update_of_ne hne ..)
      (Function.update_self ..) (fun t hne => Function.update_of_ne hne ..) v.stack

/-! ### Any event -/

/-- One event of the shared processor is one step of the processor of a task. -/
theorem step (h : Shares s a) {e : TaskEvent} (he : taskEnabled s e)
    (hs : taskStep s e = .ok s') :
    ∃ d a', vcpuEnabled a d ∧ vcpuStep a d = .ok a' ∧ Shares s' a' := by
  cases e with
  | program r => exact h.program he hs
  | kernel c => exact h.kernel he hs
  | intr gate errCode vecNo handler ret => exact h.intr he hs
  | intrExit => exact h.intrExit he hs
  | syscall gate syscallTable ret => exact h.syscall he hs
  | syscallReturn => exact h.syscallReturn he hs
  | schedule next ret => exact h.schedule he hs
  | threadStart t function funcArg kernelThread pgdir => exact h.threadStart he hs
  | fork child intrExitAddr => exact h.fork he hs
  | startProcess function esp => exact h.startProcess he hs
  | execv argv argc entryPoint => exact h.execv he hs
  | threadExit next ret => exact h.threadExit he hs
  | reap t => exact h.reap he hs

/-- The main thread alone. -/
theorem init (h : TaskInit s) :
    ∃ a, vcpuSystem.init a ∧ Shares s a := by
  rcases h.esp with ⟨k, hk, hlt, hesp⟩
  -- The only processor has what the shared one has, and nothing is suspended in it.
  let v : Vcpu := ⟨s.cpu.regs, s.cpu.mem s.cur, []⟩
  refine ⟨⟨s.cur, Function.update (fun _ => Option.none) s.cur (some v)⟩, ⟨v, rfl, rfl⟩, ?_⟩
  have hself : Function.update (fun _ => Option.none) s.cur (some v) s.cur = some v :=
    Function.update_self ..
  refine ⟨rfl, ?_, ?_, ?_, ⟨v, hself, rfl, ?_, Or.inr ⟨k, ?_⟩⟩, ?_, ?_⟩
  · rw [h.tasks]
    exact List.mem_singleton_self _
  · intro t ht
    rw [h.tasks, List.mem_singleton] at ht
    exact ht ▸ h.aligned
  · intro t ht
    rw [h.tasks, List.mem_singleton] at ht
    have hother : Function.update (fun _ => Option.none) s.cur (some v) t = Option.none :=
      Function.update_of_ne ht ..
    exact hother
  · rw [h.frames]
    exact trivial
  · refine ⟨h.cs, h.ss, hk, hlt, ?_, hesp, fun _ _ _ => rfl⟩
    rw [Tasks.top, h.frames]
    exact Nat.le_of_lt hlt
  · intro t ht hne
    rw [h.tasks, List.mem_singleton] at ht
    exact absurd ht hne
  · intro hpg
    rw [h.pgdir] at hpg
    cases hpg

end Shares

/-! ## The results -/

/-- The shared processor does what the processors of the tasks do. -/
theorem taskSystem_simulates : taskSystem.Simulates vcpuSystem Shares where
  init := fun _ h => Shares.init h
  step := fun _ _ _ _ h he hs => Or.inl (h.step he hs)

/-- What the tasks reach stands for something their own processors reach. -/
theorem shares_reachable {s : Tasks} (h : taskSystem.Reachable s) :
    ∃ a, vcpuSystem.Reachable a ∧ Shares s a := by
  have hsim : taskSystem.Simulates vcpuSystem Shares := {
    init := fun _ hi => Shares.init hi
    step := fun _ _ _ _ hsh he hs => Or.inl (hsh.step he hs) }
  exact hsim.reachable h

/-- `running_thread` is right everywhere in the kernel, if the C code there keeps
    to its page: the stack pointer is then in the page of the running task, above
    its first word and not above the last frame. -/
theorem runningThread_cur {s : Tasks} (h : taskSystem.Reachable s)
    (hcs : rpl (s.cpu.regs .cs) = 0) :
    runningThread s.cpu = s.cur ∧ 0 < wordIdx (s.cpu.regs .esp) ∧
      wordIdx (s.cpu.regs .esp) ≤ s.top s.cur := by
  rcases shares_reachable h with ⟨a, -, hsh⟩
  rcases hsh.running with ⟨v, -, hrun⟩
  rcases Shares.runsKernel hrun hcs with ⟨k, hk⟩
  have ht := hsh.aligned_cur
  rw [runningThread, hk.esp, pageBase_stackSlot ht hk.lt, wordIdx_stackSlot ht hk.lt]
  exact ⟨rfl, hk.pos, hk.top⟩

/-- The main thread with an almost empty stack. -/
def mainTasks : Tasks where
  cpu := ⟨fun r => if r = .cs then selectorKCode else if r = .ss then selectorKStack
    else if r = .esp then 0xc009eff0 else 0, fun _ _ => 0, 0⟩
  cur := 0xc009e000
  tasks := [0xc009e000]
  pgdir := fun _ => false
  frames := fun _ => []

theorem mainTasks_init : TaskInit mainTasks :=
  ⟨by decide, rfl, rfl, rfl, rfl, rfl, 1020, by decide, by decide, by decide⟩

/-- A thread is created, and the main thread switches to it. -/
def mainSwitches : List TaskEvent :=
  [.threadStart 0xc0100000 0xc0001500 0 0xc0001200 false, .schedule 0xc0100000 0xc0001300]

/-- `runningThread_cur` in the new thread, which is about to begin. -/
theorem runningThread_switched :
    let s := taskSystem.after mainTasks mainSwitches
    runningThread s.cpu = 0xc0100000 ∧ s.cpu.regs .eip = 0xc0001200 ∧
      0 < wordIdx (s.cpu.regs .esp) ∧ wordIdx (s.cpu.regs .esp) ≤ s.top 0xc0100000 := by
  intro s
  have hreach : taskSystem.Reachable s :=
    taskSystem.reachable_after _ (.init _ mainTasks_init)
      ⟨⟨by decide, by decide, by decide⟩, rfl,
        ⟨⟨by decide +kernel, 1013, by decide, by decide, by decide +kernel⟩, by decide +kernel⟩,
        rfl, trivial⟩
  have hrun := runningThread_cur hreach (by decide +kernel)
  exact ⟨hrun.1, by decide +kernel, hrun.2⟩

end ForikOS
