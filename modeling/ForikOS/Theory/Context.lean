import ForikOS.Core.Context
import ForikOS.Lib.Stack
import ForikOS.Theory.Paging

/-!
# Stacks and Frames

The stack of a task is one page, and its words are numbered from the PCB on, so
the instructions that move the stack pointer count words.
-/

namespace ForikOS

theorem stackSlot_zero (t : Word) : stackSlot t 0 = t := by
  rw [stackSlot, Nat.mul_zero]
  exact BitVec.add_zero t

@[simp] theorem stackSlot_add_four (t : Word) (k : Nat) : stackSlot t k + 4 = stackSlot t (k + 1) := by
  unfold stackSlot
  bv_omega

@[simp] theorem stackSlot_sub_four (t : Word) (k : Nat) : stackSlot t (k + 1) - 4 = stackSlot t k := by
  unfold stackSlot
  bv_omega

/-- The address of a word that is `n` words further up. -/
theorem stackSlot_add (t : Word) (k n : Nat) :
    stackSlot t k + BitVec.ofNat 32 (4 * n) = stackSlot t (k + n) := by
  rw [stackSlot, stackSlot, Nat.mul_add, BitVec.ofNat_add, BitVec.add_assoc]

theorem stackSlot_sub (t : Word) (k n : Nat) :
    stackSlot t (k + n) - BitVec.ofNat 32 (4 * n) = stackSlot t k := by
  rw [← stackSlot_add, BitVec.add_sub_cancel]

theorem stackSlot_toNat {t : Word} (h : PageAligned t) {k : Nat} (hk : k < 1024) :
    (stackSlot t k).toNat = t.toNat + 4 * k := by
  have ht := t.isLt
  unfold PageAligned at h
  rw [stackSlot, BitVec.toNat_add, BitVec.toNat_ofNat]
  omega

theorem stackSlot_inj {t : Word} {j k : Nat} (hj : j ≤ 1024) (hk : k ≤ 1024)
    (h : stackSlot t j = stackSlot t k) : j = k := by
  have h' := congrArg BitVec.toNat h
  have ht := t.isLt
  rw [stackSlot, stackSlot, BitVec.toNat_add, BitVec.toNat_add, BitVec.toNat_ofNat, BitVec.toNat_ofNat] at h'
  omega

theorem wordIdx_stackSlot {t : Word} (h : PageAligned t) {k : Nat} (hk : k < 1024) :
    wordIdx (stackSlot t k) = k := by
  rw [wordIdx_eq, stackSlot_toNat h hk]
  unfold PageAligned at h
  omega

theorem pageBase_stackSlot {t : Word} (h : PageAligned t) {k : Nat} (hk : k < 1024) :
    pageBase (stackSlot t k) = t := by
  apply BitVec.eq_of_toNat_eq
  rw [pageBase, toNat_high, stackSlot_toNat h hk]
  unfold PageAligned at h
  omega

/-! ## Single instructions -/

namespace Cpu

/-- The processor at word `k` of a stack, with other words in memory. -/
def onStack (c : Cpu) (t : Word) (k : Nat) (m : Word → Nat → Word) : Cpu :=
  { c with regs := Function.update c.regs .esp (stackSlot t k), mem := m }

/-- Pushes one after the other. -/
def pushes (c : Cpu) (ws : List Word) : Cpu := ws.foldl push c

end Cpu

section

variable {c : Cpu} {t w : Word} {k : Nat} {r : Reg} {rs : List Reg} {ws : List Word}

@[simp] theorem set_regs_self : (c.set r w).regs r = w := Function.update_self ..

@[simp] theorem set_regs_ne {x : Reg} (h : x ≠ r) : (c.set r w).regs x = c.regs x :=
  Function.update_of_ne h ..

@[simp] theorem set_mem : (c.set r w).mem = c.mem := rfl

@[simp] theorem set_esp0 : (c.set r w).esp0 = c.esp0 := rfl

@[simp] theorem onStack_esp {m : Word → Nat → Word} : (c.onStack t k m).regs .esp = stackSlot t k := by
  simp only [Cpu.onStack, Function.update_self]

@[simp] theorem onStack_regs {m : Word → Nat → Word} (h : r ≠ .esp) :
    (c.onStack t k m).regs r = c.regs r :=
  Function.update_of_ne h ..

@[simp] theorem onStack_mem {m : Word → Nat → Word} : (c.onStack t k m).mem = m := rfl

theorem load_stackSlot (ht : PageAligned t) (hk : k < 1024) : c.load (stackSlot t k) = c.mem t k := by
  rw [Cpu.load, pageBase_stackSlot ht hk, wordIdx_stackSlot ht hk]

theorem store_stackSlot (ht : PageAligned t) (hk : k < 1024) :
    c.store (stackSlot t k) w = { c with mem := poke c.mem t k [w] } := by
  rw [Cpu.store, pageBase_stackSlot ht hk, wordIdx_stackSlot ht hk]
  rfl

theorem push_stackSlot (ht : PageAligned t) (hk : k < 1024) (h : c.regs .esp = stackSlot t (k + 1)) :
    c.push w = c.onStack t k (poke c.mem t k [w]) := by
  rw [Cpu.push, h, stackSlot_sub_four, store_stackSlot ht hk]
  rfl

theorem pop_stackSlot (ht : PageAligned t) (hk : k < 1024) (h : c.regs .esp = stackSlot t k) :
    c.pop r = (c.set .esp (stackSlot t (k + 1))).set r (c.mem t k) := by
  rw [Cpu.pop, h, stackSlot_add_four, load_stackSlot ht hk]

theorem push_regs (h : r ≠ .esp) : (c.push w).regs r = c.regs r :=
  Function.update_of_ne h ..

theorem push_set (h : r ≠ .esp) {v : Word} : (c.set r w).push v = (c.push v).set r w := by
  have hesp : (c.set r w).regs .esp = c.regs .esp := set_regs_ne h.symm
  rw [Cpu.push, hesp]
  unfold Cpu.push Cpu.store Cpu.set
  dsimp only
  rw [Function.update_comm h]

/-! ## Sequences -/

theorem pushes_cons : (c.push w).pushes ws = c.pushes (w :: ws) := rfl

theorem pushes_pushes {vs : List Word} : (c.pushes ws).pushes vs = c.pushes (ws ++ vs) := by
  rw [Cpu.pushes, Cpu.pushes, Cpu.pushes, List.foldl_append]

theorem pushes_push : (c.pushes ws).push w = c.pushes (ws ++ [w]) := by
  rw [← pushes_pushes]
  rfl

@[simp] theorem pushes_regs (h : r ≠ .esp) : (c.pushes ws).regs r = c.regs r := by
  induction ws generalizing c with
  | nil => rfl
  | cons w ws ih => exact ih.trans (push_regs h)

@[simp] theorem pushes_esp0 : (c.pushes ws).esp0 = c.esp0 := by
  induction ws generalizing c with
  | nil => rfl
  | cons w ws ih => exact ih

theorem pushes_set (h : r ≠ .esp) : (c.set r w).pushes ws = (c.pushes ws).set r w := by
  induction ws generalizing c with
  | nil => rfl
  | cons v ws ih => rw [← pushes_cons, push_set h, ih, pushes_cons]

theorem pushRegs_eq (h : .esp ∉ rs) : c.pushRegs rs = c.pushes (rs.map c.regs) := by
  induction rs generalizing c with
  | nil => rfl
  | cons r rs ih =>
      rw [List.mem_cons, not_or] at h
      have hmap : rs.map (c.push (c.regs r)).regs = rs.map c.regs :=
        List.map_congr_left fun x hx => push_regs fun hxe => h.2 (hxe ▸ hx)
      exact (ih h.2).trans (by rw [hmap, pushes_cons, List.map_cons])

/-- What pushes leave, where there are words pushed already. -/
theorem pushes_stackSlot {b : Nat} (vs : List Word) {m : Word → Nat → Word} (ht : PageAligned t)
    (hb : b + ws.length ≤ 1024) (h : c.regs .esp = stackSlot t (b + ws.length))
    (hm : c.mem = poke m t (b + ws.length) vs) :
    c.pushes ws = c.onStack t b (poke m t b (ws.reverse ++ vs)) := by
  induction ws generalizing c vs with
  | nil =>
      rw [List.length_nil, Nat.add_zero] at h hm
      rw [List.reverse_nil, List.nil_append, ← hm, Cpu.onStack, ← h, Function.update_eq_self]
      rfl
  | cons w ws ih =>
      rw [List.length_cons, ← Nat.add_assoc] at h hm
      rw [List.length_cons] at hb
      have hpoke : poke (poke m t (b + ws.length + 1) vs) t (b + ws.length) [w] =
          poke m t (b + ws.length) (w :: vs) := rfl
      rw [← pushes_cons, push_stackSlot ht (by omega) h, hm, hpoke,
        ih (w :: vs) (by omega) onStack_esp onStack_mem, List.reverse_cons,
        List.append_assoc, Cpu.onStack, Cpu.onStack, Function.update_idem]
      rfl

/-- What `n` pushes leave. -/
theorem pushes_count {b n : Nat} (ws : List Word) (ht : PageAligned t) (hlen : ws.length = n)
    (hb : b + n ≤ 1024) (h : c.regs .esp = stackSlot t (b + n)) :
    c.pushes ws = c.onStack t b (poke c.mem t b ws.reverse) := by
  subst hlen
  have hp := pushes_stackSlot [] ht hb h rfl
  rwa [List.append_nil] at hp

end

/-- From `c` on, the registers `rs` have been popped, with what `g` has for them,
    and the stack pointer is at word `k`. -/
structure Popped (g : Regs) (t : Word) (rs : List Reg) (k : Nat) (c c' : Cpu) : Prop where
  regs : .esp ∉ rs
  mem : c'.mem = c.mem
  esp0 : c'.esp0 = c.esp0
  esp : c'.regs .esp = stackSlot t k
  loaded : ∀ r ∈ rs, c'.regs r = g r
  kept : ∀ r, r ∉ rs → r ≠ .esp → c'.regs r = c.regs r

namespace Popped

variable {g : Regs} {t : Word} {rs : List Reg} {k : Nat} {c c' : Cpu}

theorem start (h : c.regs .esp = stackSlot t k) : Popped g t [] k c c :=
  ⟨List.not_mem_nil, rfl, rfl, h, fun _ hr => absurd hr List.not_mem_nil, fun _ _ _ => rfl⟩

theorem pop {x : Reg} (h : Popped g t rs k c c') (ht : PageAligned t) (hk : k < 1024)
    (hx : x ≠ .esp) (hw : c.mem t k = g x) : Popped g t (rs ++ [x]) (k + 1) c (c'.pop x) := by
  have hpop : c'.pop x = (c'.set .esp (stackSlot t (k + 1))).set x (g x) := by
    rw [pop_stackSlot ht hk h.esp, h.mem, hw]
  rw [hpop]
  refine ⟨?_, h.mem, h.esp0, ?_, fun r hr => ?_, fun r hr hesp => ?_⟩
  · rw [List.mem_append, List.mem_singleton]
    exact not_or.mpr ⟨h.regs, hx.symm⟩
  · rw [set_regs_ne hx.symm, set_regs_self]
  · by_cases hrx : r = x
    · rw [hrx, set_regs_self]
    · have hmem : r ∈ rs := by
        rw [List.mem_append, List.mem_singleton] at hr
        exact hr.resolve_right hrx
      have hesp : r ≠ .esp := fun hesp => h.regs (hesp ▸ hmem)
      rw [set_regs_ne hrx, set_regs_ne hesp, h.loaded r hmem]
  · rw [List.mem_append, List.mem_singleton, not_or] at hr
    rw [set_regs_ne hr.2, set_regs_ne hesp, h.kept r hr.1 hesp]

/-- More registers. -/
theorem popRegs (xs : List Reg) (h : Popped g t rs k c c') (ht : PageAligned t)
    (hk : k + xs.length ≤ 1024) (hxs : .esp ∉ xs) (hw : HoldsWords (c.mem t) k (xs.map g)) :
    Popped g t (rs ++ xs) (k + xs.length) c (c'.popRegs xs) := by
  induction xs generalizing c' rs k with
  | nil =>
      rw [List.append_nil]
      exact h
  | cons x xs ih =>
      rw [List.mem_cons, not_or] at hxs
      rw [List.length_cons] at hk
      rw [List.map_cons, holds_cons] at hw
      have hnext := ih (h.pop ht (by omega) (Ne.symm hxs.1) hw.1) (by omega) hxs.2 hw.2
      rw [List.append_assoc] at hnext
      rw [List.length_cons, Nat.add_comm xs.length, ← Nat.add_assoc]
      exact hnext

/-- A word that is passed over. -/
theorem skip (h : Popped g t rs k c c') : Popped g t rs (k + 1) c (c'.dropBytes 4) := by
  have hdrop : c'.dropBytes 4 = c'.set .esp (stackSlot t (k + 1)) := by
    rw [Cpu.dropBytes, h.esp, stackSlot_add_four]
  rw [hdrop]
  refine ⟨h.regs, h.mem, h.esp0, set_regs_self, fun r hr => ?_, fun r hr hesp => ?_⟩
  · have hesp : r ≠ .esp := fun hesp => h.regs (hesp ▸ hr)
    rw [set_regs_ne hesp, h.loaded r hr]
  · rw [set_regs_ne hesp, h.kept r hr hesp]

end Popped

/-! ## Into the kernel -/

section

variable {c : Cpu} {t : Word} {b : Nat}

/-- What `intr_exit` finds behind the number of the interrupt. -/
def frameWords (r : Regs) (espDummy errCode : Word) : List Word :=
  [r .edi, r .esi, r .ebp, espDummy, r .ebx, r .edx, r .ecx, r .eax, r .gs, r .fs, r .es, r .ds,
    errCode, r .eip, r .cs, r .eflags]

/-- The words that `pushad` and the pushes before it leave, the last one first. -/
def savedWords (r : Regs) (espDummy errCode : Word) : List Word :=
  [errCode, r .ds, r .es, r .fs, r .gs, r .eax, r .ecx, r .edx, r .ebx, espDummy, r .ebp, r .esi,
    r .edi]

theorem pushes_pushRegs {ws : List Word} {rs : List Reg} (hrs : .esp ∉ rs) :
    (c.pushes ws).pushRegs rs = c.pushes (ws ++ rs.map c.regs) := by
  have hmap : rs.map (c.pushes ws).regs = rs.map c.regs :=
    List.map_congr_left fun x hx => pushes_regs fun hxe => hrs (hxe ▸ hx)
  rw [pushRegs_eq hrs, hmap, pushes_pushes]

theorem saveAll_eq (c : Cpu) (errCode : Word) : ∃ espDummy,
    ((c.push errCode).pushRegs [.ds, .es, .fs, .gs]).pushad =
      c.pushes (savedWords c.regs espDummy errCode) := by
  have herr : c.push errCode = c.pushes [errCode] := rfl
  refine ⟨(c.pushes [errCode, c.regs .ds, c.regs .es, c.regs .fs, c.regs .gs]).regs .esp, ?_⟩
  unfold Cpu.pushad
  dsimp only
  rw [herr, pushes_pushRegs (by decide), pushes_pushRegs (by decide), pushes_push,
    pushes_pushRegs (by decide)]
  rfl

theorem vectorEntry_eq (c : Cpu) (errCode vecNo handler ret : Word) : ∃ espDummy,
    vectorEntry c errCode vecNo handler ret =
      ((c.pushes (savedWords c.regs espDummy errCode ++ [vecNo, ret])).set .eax
        ((c.regs .eax &&& 0xffffff00) ||| 0x20)).set .eip handler := by
  rcases saveAll_eq c errCode with ⟨d, hd⟩
  refine ⟨d, ?_⟩
  unfold vectorEntry Cpu.call
  dsimp only
  rw [hd, pushes_regs (by decide), push_set (by decide), push_set (by decide), pushes_push,
    pushes_push, List.append_assoc]
  rfl

theorem syscallHandler_eq (c : Cpu) (syscallTable : Word → Word) (ret : Word) : ∃ espDummy,
    syscallHandler c syscallTable ret =
      (c.pushes (savedWords c.regs espDummy 0 ++
        [0x80, c.regs .edx, c.regs .ecx, c.regs .ebx, ret])).set .eip
          (syscallTable (c.regs .eax)) := by
  rcases saveAll_eq c 0 with ⟨d, hd⟩
  refine ⟨d, ?_⟩
  unfold syscallHandler Cpu.call
  dsimp only
  rw [hd, pushes_push, pushes_pushRegs (by decide), pushes_push, pushes_regs (by decide),
    List.append_assoc, List.append_assoc]
  rfl

/-- Setting what an interrupt gate sets. -/
def Cpu.setGate (c : Cpu) (gate eflags : Word) : Cpu :=
  ((c.set .eip gate).set .cs selectorKCode).set .eflags (eflags &&& ~~~eflagsIf)

theorem interrupt_program (gate : Word) (h : rpl (c.regs .cs) = 3) :
    interrupt c gate =
      (((c.set .esp c.esp0).set .ss selectorKStack).pushes [c.regs .ss, c.regs .esp,
        c.regs .eflags, c.regs .cs, c.regs .eip]).setGate gate (c.regs .eflags) := by
  have hpush : ∀ (c' : Cpu) (v w : Word), (c'.push v).push w = c'.pushes [v, w] := fun _ _ _ => rfl
  unfold interrupt
  dsimp only
  rw [if_pos h, hpush, pushes_pushRegs (by decide)]
  simp only [List.map_cons, List.map_nil, List.cons_append, List.nil_append]
  rw [set_regs_ne (by decide), set_regs_ne (by decide), set_regs_ne (by decide),
    set_regs_ne (by decide), set_regs_ne (by decide), set_regs_ne (by decide), Cpu.setGate]

theorem interrupt_kernel (gate : Word) (h : rpl (c.regs .cs) ≠ 3) :
    interrupt c gate = (c.pushes [c.regs .eflags, c.regs .cs, c.regs .eip]).setGate gate
      (c.regs .eflags) := by
  unfold interrupt
  dsimp only
  rw [if_neg h, pushRegs_eq (by decide)]
  rfl

theorem setGate_pushes {gate eflags : Word} {ws : List Word} :
    (c.setGate gate eflags).pushes ws = (c.pushes ws).setGate gate eflags := by
  rw [Cpu.setGate, pushes_set (by decide), pushes_set (by decide), pushes_set (by decide)]
  rfl

/-- The data registers are still the ones of what is interrupted. -/
theorem interrupt_regs {gate : Word} {r : Reg} (hr : r ∉ [Reg.esp, .ss, .eip, .cs, .eflags]) :
    (interrupt c gate).regs r = c.regs r := by
  simp only [List.mem_cons, List.not_mem_nil, or_false, not_or] at hr
  rcases hr with ⟨h1, h2, h3, h4, h5⟩
  by_cases h : rpl (c.regs .cs) = 3
  · rw [interrupt_program gate h, Cpu.setGate, set_regs_ne h5, set_regs_ne h4, set_regs_ne h3,
      pushes_regs h1, set_regs_ne h2, set_regs_ne h1]
  · rw [interrupt_kernel gate h, Cpu.setGate, set_regs_ne h5, set_regs_ne h4, set_regs_ne h3,
      pushes_regs h1]

theorem savedWords_interrupt {gate d e : Word} :
    savedWords (interrupt c gate).regs d e = savedWords c.regs d e := by
  unfold savedWords
  iterate 11 rw [interrupt_regs (by decide)]

/-- From a program, an interrupt begins on the empty stack of the task. -/
theorem intr_program (ht : PageAligned t) (gate errCode vecNo handler ret : Word)
    (h : rpl (c.regs .cs) = 3) (h₀ : c.esp0 = stackSlot t 1024) :
    ∃ espDummy,
      let c' := vectorEntry (interrupt c gate) errCode vecNo handler ret
      c'.mem = poke c.mem t 1004 (ret :: vecNo ::
        (frameWords c.regs espDummy errCode ++ [c.regs .esp, c.regs .ss])) ∧
      c'.esp0 = c.esp0 ∧ c'.regs .esp = stackSlot t 1004 ∧ c'.regs .cs = selectorKCode ∧
      c'.regs .ss = selectorKStack := by
  rcases vectorEntry_eq (interrupt c gate) errCode vecNo handler ret with ⟨d, hd⟩
  refine ⟨d, ?_⟩
  have hesp : ((c.set .esp c.esp0).set .ss selectorKStack).regs .esp = stackSlot t (1004 + 20) := by
    rw [set_regs_ne (by decide), set_regs_self]
    exact h₀
  dsimp only
  rw [hd, savedWords_interrupt, interrupt_program gate h, setGate_pushes, pushes_pushes,
    pushes_count (n := 20) _ ht (by rfl) (by decide) hesp]
  refine ⟨rfl, rfl, rfl, rfl, ?_⟩
  simp [Cpu.setGate]

/-- In the kernel, it begins on the stack that is in use. -/
theorem intr_kernel (ht : PageAligned t) (gate errCode vecNo handler ret : Word)
    (h : rpl (c.regs .cs) ≠ 3) (hesp : c.regs .esp = stackSlot t (b + 18)) (hb : b + 18 ≤ 1024) :
    ∃ espDummy,
      let c' := vectorEntry (interrupt c gate) errCode vecNo handler ret
      c'.mem = poke c.mem t b (ret :: vecNo :: frameWords c.regs espDummy errCode) ∧
      c'.esp0 = c.esp0 ∧ c'.regs .esp = stackSlot t b ∧ c'.regs .cs = selectorKCode ∧
      c'.regs .ss = c.regs .ss := by
  rcases vectorEntry_eq (interrupt c gate) errCode vecNo handler ret with ⟨d, hd⟩
  refine ⟨d, ?_⟩
  dsimp only
  rw [hd, savedWords_interrupt, interrupt_kernel gate h, setGate_pushes, pushes_pushes,
    pushes_count (n := 18) _ ht (by rfl) hb hesp]
  refine ⟨rfl, rfl, rfl, rfl, ?_⟩
  simp [Cpu.setGate]

/-- A system call has its parameters behind the address it returns to. -/
theorem syscall_program (ht : PageAligned t) (gate : Word) (syscallTable : Word → Word)
    (ret : Word) (h : rpl (c.regs .cs) = 3) (h₀ : c.esp0 = stackSlot t 1024) :
    ∃ espDummy,
      let c' := syscallHandler (interrupt c gate) syscallTable ret
      c'.mem = poke c.mem t 1001 ([ret, c.regs .ebx, c.regs .ecx, c.regs .edx, 0x80] ++
        (frameWords c.regs espDummy 0 ++ [c.regs .esp, c.regs .ss])) ∧
      c'.esp0 = c.esp0 ∧ c'.regs .esp = stackSlot t 1001 ∧ c'.regs .cs = selectorKCode ∧
      c'.regs .ss = selectorKStack ∧ c'.regs .eip = syscallTable (c.regs .eax) := by
  rcases syscallHandler_eq (interrupt c gate) syscallTable ret with ⟨d, hd⟩
  refine ⟨d, ?_⟩
  have hesp : ((c.set .esp c.esp0).set .ss selectorKStack).regs .esp = stackSlot t (1001 + 23) := by
    rw [set_regs_ne (by decide), set_regs_self]
    exact h₀
  dsimp only
  rw [hd, savedWords_interrupt, interrupt_regs (by decide), interrupt_regs (by decide),
    interrupt_regs (by decide), interrupt_regs (by decide), interrupt_program gate h,
    setGate_pushes, pushes_pushes, pushes_count (n := 23) _ ht (by rfl) (by decide) hesp]
  refine ⟨rfl, rfl, rfl, rfl, ?_, rfl⟩
  simp [Cpu.setGate]

/-! ## Out of the kernel -/

/-- What `intr_exit` has loaded before it leaves the kernel. -/
theorem intrExit_popped {g : Regs} {d e : Word} (ht : PageAligned t) (hb : b + 17 ≤ 1024)
    (h : c.regs .esp = stackSlot t b) (hw : HoldsWords (c.mem t) (b + 1) (frameWords g d e)) :
    ∃ c', intrExit c = c'.iretd ∧ Popped g t
      [.edi, .esi, .ebp, .ebx, .edx, .ecx, .eax, .gs, .fs, .es, .ds] (b + 14) c c' := by
  simp only [frameWords, holds_cons, Nat.add_assoc, Nat.reduceAdd] at hw
  rcases hw with ⟨h1, h2, h3, -, h5, h6, h7, h8, h9, h10, h11, h12, -⟩
  have hp := (Popped.start (g := g) h).skip
  have hp := hp.popRegs [.edi, .esi, .ebp] ht (by simp; omega) (by decide)
    (by simp [h1, h2, h3, Nat.add_assoc])
  have hp := hp.skip.popRegs [.ebx, .edx, .ecx, .eax] ht (by simp; omega) (by decide)
    (by simp [h5, h6, h7, h8, Nat.add_assoc])
  have hp := hp.popRegs [.gs, .fs, .es, .ds] ht (by simp; omega) (by decide)
    (by simp [h9, h10, h11, h12, Nat.add_assoc])
  exact ⟨_, rfl, hp.skip⟩

end

/-- `iretd` inside the kernel. -/
theorem iretd_kernel {c : Cpu} {g : Regs} {t : Word} {k : Nat} (ht : PageAligned t)
    (hk : k + 3 ≤ 1024) (h : c.regs .esp = stackSlot t k)
    (hw : HoldsWords (c.mem t) k [g .eip, g .cs, g .eflags])
    (hcs : ¬rpl (c.regs .cs) < rpl (g .cs)) :
    Popped g t [.eip, .cs, .eflags] (k + 3) c c.iretd := by
  have hp := (Popped.start h).popRegs [.eip, .cs, .eflags] ht hk (by decide) hw
  have hcs' := hp.loaded .cs (by decide)
  unfold Cpu.iretd
  dsimp only
  rw [hcs', if_neg hcs]
  exact hp

/-- `iretd` to a program. -/
theorem iretd_program {c : Cpu} {g : Regs} {t : Word} {k : Nat} (ht : PageAligned t)
    (hk : k + 5 ≤ 1024) (h : c.regs .esp = stackSlot t k)
    (hw : HoldsWords (c.mem t) k [g .eip, g .cs, g .eflags, g .esp, g .ss])
    (hcs : rpl (c.regs .cs) < rpl (g .cs)) :
    c.iretd = { c with
      regs := fun r =>
        if r ∈ [Reg.eip, .cs, .eflags, .esp, .ss] then g r
        else if r ∈ [Reg.ds, .es, .fs, .gs] then returnedSeg (c.regs r)
        else c.regs r } := by
  -- Three words are popped in any case, and two more on the way to a program.
  have hsplit : HoldsWords (c.mem t) k
      ([Reg.eip, .cs, .eflags].map g ++ [g .esp, g .ss]) := hw
  have hwl := hsplit.left
  have hp := (Popped.start h).popRegs [.eip, .cs, .eflags] ht (by simp; omega) (by decide)
    hwl
  have hcs' := hp.loaded .cs (by decide)
  simp only [holds_cons, Nat.add_assoc, Nat.reduceAdd] at hw
  rcases hw with ⟨-, -, -, h3, h4, -⟩
  unfold Cpu.iretd
  dsimp only
  rw [hcs', if_pos hcs]
  generalize c.popRegs [.eip, .cs, .eflags] = c' at hp
  have hesp : c'.load (c'.regs .esp) = g .esp := by
    rw [hp.esp, load_stackSlot ht (by simp; omega), hp.mem]
    exact h3
  have hss : c'.load (c'.regs .esp + 4) = g .ss := by
    rw [hp.esp, stackSlot_add_four, load_stackSlot ht (by simp; omega), hp.mem]
    exact h4
  have hdata : ∀ r ∈ [Reg.ds, .es, .fs, .gs], c'.regs r = c.regs r := by
    intro r hr
    apply hp.kept r <;> revert r <;> decide
  rw [hesp, hss]
  unfold Cpu.set
  simp only [List.foldl_cons, List.foldl_nil, Cpu.mk.injEq]
  refine ⟨?_, hp.mem, hp.esp0⟩
  have hloaded := hp.loaded
  have hkept := fun r hr hesp => hp.kept r hr hesp
  funext r
  cases r <;>
    simp only [Function.update_apply, reduceCtorEq, if_false, if_true, List.mem_cons,
      List.not_mem_nil, or_false, or_true, or_self] <;>
    first
    | rfl
    | (rw [hdata _ (by decide)])
    | exact hloaded _ (by decide)
    | exact hkept _ (by decide) (by decide)

/-! ## From task to task -/

/-- The registers that `switch_to` takes from the stack of a task. -/
def switchRegs (page : Nat → Word) (j : Nat) : Regs
  | .ebp => page j
  | .ebx => page (j + 1)
  | .edi => page (j + 2)
  | .esi => page (j + 3)
  | .eip => page (j + 4)
  | _ => 0

/-- `switch_to` leaves four registers below the address it returns to, remembers
    the place in the PCB, and takes the same from the other stack. -/
theorem switchTo_stackSlot {c : Cpu} {t next ret : Word} {j k : Nat} {m : Word → Nat → Word}
    {vs : List Word} (ht : PageAligned t) (hnext : PageAligned next) (hk : 0 < k)
    (hk' : k + 7 ≤ 1024) (hj : j + 5 ≤ 1024) (h : c.regs .esp = stackSlot t (k + 4))
    (hm : c.mem = poke m t (k + 4) (ret :: t :: next :: vs)) :
    let ws := [c.regs .ebp, c.regs .ebx, c.regs .edi, c.regs .esi, ret, t, next] ++ vs
    let m' := poke (poke m t k ws) t 0 [stackSlot t k]
    m' next 0 = stackSlot next j →
      (switchTo c).mem = m' ∧ (switchTo c).esp0 = c.esp0 ∧
      (switchTo c).regs .esp = stackSlot next (j + 5) ∧
      (∀ r ∈ [Reg.ebp, .ebx, .edi, .esi, .eip],
        (switchTo c).regs r = switchRegs (m' next) j r) ∧
      (switchTo c).regs .cs = c.regs .cs ∧ (switchTo c).regs .ss = c.regs .ss := by
  intro ws m' hself
  have hpush : c.pushRegs [.esi, .edi, .ebx, .ebp] = c.onStack t k (poke m t k ws) := by
    rw [pushRegs_eq (by decide), pushes_stackSlot (b := k) _ ht (by simp; omega) h hm]
    rfl
  have hw : HoldsWords (poke m t k ws t) k ws := poke_holds m t k ws
  have hcur : poke m t k ws t (k + 5) = t := hw 5 (by simp [ws])
  have hnx : m' t (k + 6) = next := by
    have hk6 : 0 + [stackSlot t k].length ≤ k + 6 := by simp
    rw [← show poke m t k ws t (k + 6) = next from hw 6 (by simp [ws])]
    exact poke_of_le hk6
  have hcur' : stackSlot t k + 20 = stackSlot t (k + 5) := stackSlot_add t k 5
  have hnx' : stackSlot t k + 24 = stackSlot t (k + 6) := stackSlot_add t k 6
  unfold switchTo
  dsimp only
  rw [hpush, onStack_esp, hcur', load_stackSlot ht (by omega), onStack_mem, hcur, set_regs_self,
    set_regs_ne (by decide), onStack_esp]
  -- The store goes to the first word of the PCB, which no push has reached.
  have hstore : ((c.onStack t k (poke m t k ws)).set .eax t).store t (stackSlot t k) =
      (c.onStack t k m').set .eax t := by
    have hs := store_stackSlot (c := (c.onStack t k (poke m t k ws)).set .eax t) (w := stackSlot t k) ht
      (k := 0) (by decide)
    rw [stackSlot_zero] at hs
    exact hs
  have hload : ∀ c' : Cpu, c'.load next = c'.mem next 0 := by
    intro c'
    have hl := load_stackSlot (c := c') hnext (k := 0) (by decide)
    rwa [stackSlot_zero] at hl
  rw [hstore, set_regs_ne (by decide), onStack_esp, hnx', load_stackSlot ht (by omega), set_mem,
    onStack_mem, hnx, set_regs_self, hload, set_mem, set_mem, onStack_mem, hself]
  -- From here on, the other stack.
  generalize hc₁ : ((((c.onStack t k m').set .eax t).set .eax next).set .esp (stackSlot next j)) = c₁
  have hesp : c₁.regs .esp = stackSlot next j := by rw [← hc₁, set_regs_self]
  have hp := (Popped.start (g := switchRegs (m' next) j) hesp).popRegs
    [.ebp, .ebx, .edi, .esi, .eip] hnext hj (by decide) (by
      rw [← hc₁]
      simp [switchRegs, Nat.add_assoc])
  have hret : (c₁.popRegs [.ebp, .ebx, .edi, .esi]).ret =
      c₁.popRegs [.ebp, .ebx, .edi, .esi, .eip] := rfl
  rw [hret]
  refine ⟨hp.mem.trans ?_, hp.esp0.trans ?_, hp.esp, hp.loaded, ?_, ?_⟩
  · rw [← hc₁]
    rfl
  · rw [← hc₁]
    rfl
  · rw [hp.kept .cs (by decide) (by decide), ← hc₁]
    rfl
  · rw [hp.kept .ss (by decide) (by decide), ← hc₁]
    rfl

/-! ## Stacks of new tasks -/

section

variable {c : Cpu} {t : Word}

/-- The processor with other words on one page. -/
def Cpu.withPage (c : Cpu) (t : Word) (page : Nat → Word) : Cpu :=
  { c with mem := Function.update c.mem t page }

theorem withPage_self : c.withPage t (c.mem t) = c := by
  rw [Cpu.withPage, Function.update_eq_self]

theorem store_withPage (ht : PageAligned t) {p : Nat → Word} {k : Nat} (hk : k < 1024)
    (w : Word) :
    (c.withPage t p).store (stackSlot t k) w = c.withPage t (Function.update p k w) := by
  rw [store_stackSlot ht hk]
  unfold Cpu.withPage
  simp only [poke, Function.update_self, Function.update_idem]

theorem load_withPage (ht : PageAligned t) {p : Nat → Word} {k : Nat} (hk : k < 1024) :
    (c.withPage t p).load (stackSlot t k) = p k := by
  rw [load_stackSlot ht hk]
  exact congrFun (Function.update_self ..) k

theorem store_pcb (ht : PageAligned t) {p : Nat → Word} (w : Word) :
    (c.withPage t p).store t w = c.withPage t (Function.update p 0 w) := by
  have hs := store_withPage (c := c) (p := p) ht (k := 0) (by decide) w
  rwa [stackSlot_zero] at hs

theorem load_pcb (ht : PageAligned t) {p : Nat → Word} :
    (c.withPage t p).load t = p 0 := by
  have hl := load_withPage (c := c) (p := p) ht (k := 0) (by decide)
  rwa [stackSlot_zero] at hl

/-- The first word of the PCB is `self_kstack`. -/
theorem store_kstack (ht : PageAligned t) (w : Word) :
    c.store t w = c.withPage t (Function.update (c.mem t) 0 w) := by
  have hs := store_pcb (c := c) (p := c.mem t) ht w
  rwa [withPage_self] at hs

theorem load_kstack (ht : PageAligned t) : c.load t = c.mem t 0 := by
  have hl := load_pcb (c := c) (p := c.mem t) ht
  rwa [withPage_self] at hl

/-- The stack that `thread_create` lays out. -/
theorem threadCreate_page (ht : PageAligned t) (function funcArg kernelThread : Word) :
    ∃ page, threadCreate (initKstack c t) t function funcArg kernelThread = c.withPage t page ∧
      page 0 = stackSlot t 916 ∧
      HoldsWords page 916 [0, 0, 0, 0, kernelThread, c.mem t 921, function, funcArg] := by
  have h948 : stackSlot t 1024 - 4 * 76 = stackSlot t 948 := stackSlot_sub t 948 76
  have h916 : stackSlot t 948 - 4 * 32 = stackSlot t 916 := stackSlot_sub t 916 32
  have hinit : initKstack c t = c.withPage t (Function.update (c.mem t) 0 (stackSlot t 1024)) :=
    store_kstack ht (stackSlot t 1024)
  have h4 : stackSlot t 916 + 16 = stackSlot t 920 := stackSlot_add t 916 4
  have h6 : stackSlot t 916 + 24 = stackSlot t 922 := stackSlot_add t 916 6
  have h7 : stackSlot t 916 + 28 = stackSlot t 923 := stackSlot_add t 916 7
  have h1 : stackSlot t 916 + 4 = stackSlot t 917 := stackSlot_add t 916 1
  have h3 : stackSlot t 916 + 12 = stackSlot t 919 := stackSlot_add t 916 3
  have h2 : stackSlot t 916 + 8 = stackSlot t 918 := stackSlot_add t 916 2
  have hrun : threadCreate (initKstack c t) t function funcArg kernelThread =
      threadCreate (initKstack c t) t function funcArg kernelThread := rfl
  conv_rhs at hrun =>
    unfold threadCreate
    dsimp only
    rw [hinit, load_pcb ht, Function.update_self, h948, store_pcb ht, load_pcb ht,
      Function.update_self, h916, store_pcb ht, load_pcb ht, Function.update_self, h4, h6, h7, h1,
      h3, h2, store_withPage ht (by decide), store_withPage ht (by decide),
      store_withPage ht (by decide), store_withPage ht (by decide),
      store_withPage ht (by decide), store_withPage ht (by decide),
      store_withPage ht (by decide)]
  exact ⟨_, hrun, by simp, by simp⟩

/-- The stack that `build_child_stack` makes of a copy. -/
theorem buildChildStack_page (ht : PageAligned t) (page₀ : Nat → Word) (intrExitAddr : Word) :
    ∃ page, buildChildStack (c.withPage t page₀) t intrExitAddr = c.withPage t page ∧
      page 0 = stackSlot t 1000 ∧ HoldsWords page 1000 [0, 0, 0, 0, intrExitAddr] ∧
      ∀ k, 1005 ≤ k → page k = Function.update page₀ 1013 0 k := by
  have h1005 : t + pgSize - 76 = stackSlot t 1005 := stackSlot_sub t 1005 19
  have h8 : stackSlot t 1005 + 32 = stackSlot t 1013 := stackSlot_add t 1005 8
  have h1 : stackSlot t 1005 - 4 = stackSlot t 1004 := stackSlot_sub t 1004 1
  have h5 : stackSlot t 1005 - 20 = stackSlot t 1000 := stackSlot_sub t 1000 5
  have h4 : stackSlot t 1005 - 16 = stackSlot t 1001 := stackSlot_sub t 1001 4
  have h3 : stackSlot t 1005 - 12 = stackSlot t 1002 := stackSlot_sub t 1002 3
  have h2 : stackSlot t 1005 - 8 = stackSlot t 1003 := stackSlot_sub t 1003 2
  have hrun : buildChildStack (c.withPage t page₀) t intrExitAddr =
      buildChildStack (c.withPage t page₀) t intrExitAddr := rfl
  conv_rhs at hrun =>
    unfold buildChildStack
    dsimp only
    rw [h1005, h8, h1, h5, h4, h3, h2, store_withPage ht (by decide),
      store_withPage ht (by decide), store_withPage ht (by decide),
      store_withPage ht (by decide), store_withPage ht (by decide),
      store_withPage ht (by decide), store_pcb ht]
  refine ⟨_, hrun, Function.update_self .., by simp, fun k hk => ?_⟩
  iterate 6 rw [Function.update_of_ne (by omega)]

/-- The frame that `start_process` writes. -/
theorem storeFrame_page (ht : PageAligned t) (page₀ : Nat → Word) {k : Nat} (hk : k + 19 ≤ 1024)
    (r : Regs) :
    ∃ page d e, storeFrame (c.withPage t page₀) (stackSlot t k) r = c.withPage t page ∧
      HoldsWords page (k + 1) (frameWords r d e ++ [r .esp, r .ss]) := by
  have hadd : ∀ n, stackSlot t k + BitVec.ofNat 32 (4 * n) = stackSlot t (k + n) := stackSlot_add t k
  have hrun : storeFrame (c.withPage t page₀) (stackSlot t k) r =
      storeFrame (c.withPage t page₀) (stackSlot t k) r := rfl
  -- One store after the other, each into the same page.
  conv_rhs at hrun =>
    unfold storeFrame
    dsimp only
    rw [show stackSlot t k + 4 = stackSlot t (k + 1) from hadd 1, store_withPage ht (by omega)]
    rw [show stackSlot t k + 8 = stackSlot t (k + 2) from hadd 2, store_withPage ht (by omega)]
    rw [show stackSlot t k + 12 = stackSlot t (k + 3) from hadd 3, store_withPage ht (by omega)]
    rw [show stackSlot t k + 20 = stackSlot t (k + 5) from hadd 5, store_withPage ht (by omega)]
    rw [show stackSlot t k + 24 = stackSlot t (k + 6) from hadd 6, store_withPage ht (by omega)]
    rw [show stackSlot t k + 28 = stackSlot t (k + 7) from hadd 7, store_withPage ht (by omega)]
    rw [show stackSlot t k + 32 = stackSlot t (k + 8) from hadd 8, store_withPage ht (by omega)]
    rw [show stackSlot t k + 36 = stackSlot t (k + 9) from hadd 9, store_withPage ht (by omega)]
    rw [show stackSlot t k + 40 = stackSlot t (k + 10) from hadd 10, store_withPage ht (by omega)]
    rw [show stackSlot t k + 44 = stackSlot t (k + 11) from hadd 11, store_withPage ht (by omega)]
    rw [show stackSlot t k + 48 = stackSlot t (k + 12) from hadd 12, store_withPage ht (by omega)]
    rw [show stackSlot t k + 56 = stackSlot t (k + 14) from hadd 14, store_withPage ht (by omega)]
    rw [show stackSlot t k + 60 = stackSlot t (k + 15) from hadd 15, store_withPage ht (by omega)]
    rw [show stackSlot t k + 64 = stackSlot t (k + 16) from hadd 16, store_withPage ht (by omega)]
    rw [show stackSlot t k + 68 = stackSlot t (k + 17) from hadd 17, store_withPage ht (by omega)]
    rw [show stackSlot t k + 72 = stackSlot t (k + 18) from hadd 18, store_withPage ht (by omega)]
  refine ⟨_, page₀ (k + 4), page₀ (k + 13), hrun, ?_⟩
  simp [frameWords, Nat.add_assoc]

end

end ForikOS
