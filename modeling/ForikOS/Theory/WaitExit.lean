import ForikOS.Core.WaitExit
import ForikOS.Theory.Switch
import ForikOS.Theory.Bitmap

/-!
# The Process ProcTree

Pids, parents, and what `sys_wait` and `sys_exit` make of them, over every
interleaving of the calls.

A task that has begun to exit has given its children away and gets no new
ones, so no task refers to its pid when it is reaped and the pid is free for
another process. This is the fact the other ones rest on, and it holds between
the two steps of `sys_exit` as well as after them. `ProcTree` states it over plain
lists and functions, like `Linked` does for the scheduler, with one lemma for
each way the tree changes.

A parent that waits is woken when its child hangs. But a child that hangs
already is also handed to `init` when its parent exits, and the exiting task
wakes its own parent only. If this is `init` as well, it is woken at the end of
the same call, and until then it waits while a child of it hangs
(`WakeupComes`). Otherwise it is not woken. `NoMissedChild` therefore holds in
the runs in which no task exits that has a hanging child while `init` waits.

`exit_status` has eight bits, so a status comes through to `sys_wait` if it
fits into them.

## Main definitions

* `ProcTree`: Pids are unique, parents exist, and who is leaving has no children.
* `ProcInv`: The invariant of the process table.
* `NoMissedChild`, `Heeded`: No task waits while a child of it hangs.
* `WakeupComes`, `HandedOn`: Such a task is about to be woken.
* `History`, `Delivered`: What `sys_wait` has returned.

## Theorems

* `ProcTree.fork`, `ProcTree.adopt`, `ProcTree.reap`: The ways the tree changes.
* `procStep_inv`: Every call keeps the invariant.
* `process_table`: The pids and the parents in every reachable state.
* `no_missed_child`: Runs in which no hanging child is missed.
* `exit_status_delivered`: What is returned is what was passed.
-/

namespace ForikOS

variable {T S P : Type} [DecidableEq T] [DecidableEq S]

/-- Pids are unique and taken in the pool, every parent is there, `init` has no
    parent, and a task that is gone has a parent but no children. -/
structure ProcTree (all : List T) (pid : T → Nat) (parent : T → Int) (pool : Bitmap)
    (gone : T → Prop) : Prop where
  pids : ∀ t u, t ∈ all → u ∈ all → pid t = pid u → t = u
  bit : ∀ t, t ∈ all → 1 ≤ pid t ∧ bitmapScanTest pool (pid t - 1) = true
  parent_mem : ∀ t, t ∈ all → parent t ≠ -1 → ∃ p, p ∈ all ∧ (pid p : Int) = parent t
  init_mem : ∃ i, i ∈ all ∧ pid i = 1 ∧ parent i = -1
  leaving : ∀ t, t ∈ all → gone t → parent t ≠ -1 ∧ ∀ c, c ∈ all → parent c ≠ pid t

namespace ProcTree

variable {all : List T} {pid : T → Nat} {parent : T → Int} {pool : Bitmap} {gone : T → Prop}

omit [DecidableEq T] in
/-- A task with a parent is not `init`. -/
theorem pid_ne_one (h : ProcTree all pid parent pool gone) {t : T} (ht : t ∈ all)
    (hp : parent t ≠ -1) : pid t ≠ 1 := by
  intro hc
  rcases h.init_mem with ⟨i, hi, hpid, hno⟩
  rw [h.pids t i ht hi (hc.trans hpid.symm)] at hp
  exact hp hno

omit [DecidableEq T] in
theorem mono (h : ProcTree all pid parent pool gone) {gone' : T → Prop}
    (hg : ∀ t, t ∈ all → gone' t → gone t) : ProcTree all pid parent pool gone' :=
  { h with leaving := fun t ht hgone => h.leaving t ht (hg t ht hgone) }

/-- A new task with a pid that was free, whose parent is not gone. -/
theorem fork (h : ProcTree all pid parent pool gone) {t cur : T} {i : Nat} (hnew : t ∉ all)
    (hfree : bitmapScanTest pool i = false) (hcur : cur ∈ all) (hhere : ¬ gone cur)
    {gone' : T → Prop} (hg : ∀ u, gone' u → u ≠ t ∧ gone u) :
    ProcTree (all ++ [t]) (Function.update pid t (i + 1)) (Function.update parent t (pid cur))
      (bitmapSet pool i true) gone' := by
  have hne : ∀ u, u ∈ all → u ≠ t := fun u hu hc => hnew (hc ▸ hu)
  have hmem : ∀ u, u ∈ all ++ [t] ↔ u ∈ all ∨ u = t := by
    intro u
    rw [List.mem_append, List.mem_singleton]
  have hold : ∀ u, u ∈ all → Function.update pid t (i + 1) u = pid u :=
    fun u hu => Function.update_of_ne (hne u hu) _ _
  have holdp : ∀ u, u ∈ all → Function.update parent t (pid cur) u = parent u :=
    fun u hu => Function.update_of_ne (hne u hu) _ _
  -- The bit of the new pid was clear, and those of the tasks are set.
  have hother : ∀ u, u ∈ all → pid u ≠ i + 1 := by
    intro u hu hc
    have hset := (h.bit u hu).2
    rw [hc, Nat.add_sub_cancel, hfree] at hset
    cases hset
  refine ⟨?_, ?_, ?_, ?_, ?_⟩
  · intro u v hu hv heq
    rcases (hmem u).mp hu with hu' | hut <;> rcases (hmem v).mp hv with hv' | hvt
    · rw [hold u hu', hold v hv'] at heq
      exact h.pids u v hu' hv' heq
    · rw [hold u hu', hvt, Function.update_self] at heq
      exact absurd heq (hother u hu')
    · rw [hold v hv', hut, Function.update_self] at heq
      exact absurd heq.symm (hother v hv')
    · rw [hut, hvt]
  · intro u hu
    rw [bitmapScanTest_set]
    rcases (hmem u).mp hu with hu | rfl
    · rw [hold u hu]
      refine ⟨(h.bit u hu).1, ?_⟩
      by_cases hc : pid u - 1 = i
      · rw [if_pos hc]
      · rw [if_neg hc]
        exact (h.bit u hu).2
    · rw [Function.update_self, Nat.add_sub_cancel, if_pos rfl]
      exact ⟨by omega, rfl⟩
  · intro u hu hpar
    rcases (hmem u).mp hu with hu | rfl
    · rw [holdp u hu] at hpar ⊢
      rcases h.parent_mem u hu hpar with ⟨p, hp, heq⟩
      exact ⟨p, (hmem p).mpr (Or.inl hp), by rw [hold p hp, heq]⟩
    · exact ⟨cur, (hmem cur).mpr (Or.inl hcur), by rw [hold cur hcur, Function.update_self]⟩
  · rcases h.init_mem with ⟨j, hj, hpid, hno⟩
    exact ⟨j, (hmem j).mpr (Or.inl hj), by rw [hold j hj, hpid], by rw [holdp j hj, hno]⟩
  · intro u hu hgone
    rcases hg u hgone with ⟨hut, hgu⟩
    have hu' := ((hmem u).mp hu).resolve_right hut
    rw [hold u hu', holdp u hu']
    refine ⟨(h.leaving u hu' hgu).1, fun c hc => ?_⟩
    rcases (hmem c).mp hc with hc | rfl
    · rw [holdp c hc]
      exact (h.leaving u hu' hgu).2 c hc
    · rw [Function.update_self]
      intro heq
      have hcu : cur = u := h.pids cur u hcur hu' (by exact_mod_cast heq)
      exact hhere (hcu ▸ hgu)

/-- The children of a task that has a parent go to `init`, and the task is
    gone. -/
theorem adopt (h : ProcTree all pid parent pool gone) {cur : T} (hcur : cur ∈ all)
    (hpar : parent cur ≠ -1) {gone' : T → Prop} (hg : ∀ u, gone' u → u = cur ∨ gone u) :
    ProcTree all pid (fun t => if t ∈ all ∧ parent t = pid cur then 1 else parent t) pool gone' := by
  -- The new parent is init, which is not the task that leaves.
  have hone : ∀ u, u ∈ all → parent u ≠ -1 → (1 : Int) ≠ pid u := fun u hu hp hc =>
    h.pid_ne_one hu hp (by exact_mod_cast hc.symm)
  have hkept : ∀ u, parent u ≠ -1 → (if u ∈ all ∧ parent u = pid cur then (1 : Int)
      else parent u) ≠ -1 := by
    intro u hu
    by_cases hc : u ∈ all ∧ parent u = pid cur
    · rw [if_pos hc]
      omega
    · rw [if_neg hc]
      exact hu
  refine ⟨h.pids, h.bit, ?_, ?_, ?_⟩
  · intro u hu hp
    by_cases hc : u ∈ all ∧ parent u = pid cur
    · rw [if_pos hc]
      rcases h.init_mem with ⟨i, hi, hpid, -⟩
      exact ⟨i, hi, by rw [hpid]; rfl⟩
    · rw [if_neg hc] at hp ⊢
      exact h.parent_mem u hu hp
  · rcases h.init_mem with ⟨i, hi, hpid, hno⟩
    refine ⟨i, hi, hpid, ?_⟩
    rw [if_neg (fun hc => by rw [hno] at hc; omega)]
    exact hno
  · intro u hu hgone
    have hup : parent u ≠ -1 := by
      rcases hg u hgone with rfl | hgu
      · exact hpar
      · exact (h.leaving u hu hgu).1
    refine ⟨hkept u hup, fun c hc => ?_⟩
    by_cases hadopt : c ∈ all ∧ parent c = pid cur
    · rw [if_pos hadopt]
      exact hone u hu hup
    · rw [if_neg hadopt]
      rcases hg u hgone with rfl | hgu
      · exact fun heq => hadopt ⟨hc, heq⟩
      · exact (h.leaving u hu hgu).2 c hc

/-- A task that is gone leaves the list, and its pid is free. -/
theorem reap (h : ProcTree all pid parent pool gone) (hnd : all.Nodup) {c : T} (hc : c ∈ all)
    (hgone : gone c) : ProcTree (all.erase c) pid parent (releasePid pool (pid c)) gone := by
  have hmem : ∀ u, u ∈ all.erase c ↔ u ≠ c ∧ u ∈ all := fun u => hnd.mem_erase_iff
  have hleave := h.leaving c hc hgone
  refine ⟨?_, ?_, ?_, ?_, ?_⟩
  · exact fun u v hu hv => h.pids u v ((hmem u).mp hu).2 ((hmem v).mp hv).2
  · intro u hu
    rcases (hmem u).mp hu with ⟨hne, hu⟩
    have h1 := (h.bit u hu).1
    have h2 := (h.bit c hc).1
    refine ⟨h1, ?_⟩
    rw [releasePid, bitmapScanTest_set, if_neg]
    · exact (h.bit u hu).2
    · exact fun heq => hne (h.pids u c hu hc (by omega))
  · intro u hu hp
    have hu' := ((hmem u).mp hu).2
    rcases h.parent_mem u hu' hp with ⟨p, hpm, heq⟩
    refine ⟨p, (hmem p).mpr ⟨?_, hpm⟩, heq⟩
    intro hpc
    rw [hpc] at heq
    exact hleave.2 u hu' heq.symm
  · rcases h.init_mem with ⟨i, hi, hpid, hno⟩
    refine ⟨i, (hmem i).mpr ⟨?_, hi⟩, hpid, hno⟩
    rintro rfl
    exact hleave.1 hno
  · intro u hu hgu
    have hu' := ((hmem u).mp hu).2
    exact ⟨(h.leaving u hu' hgu).1, fun d hd => (h.leaving u hu' hgu).2 d ((hmem d).mp hd).2⟩

end ProcTree

/-- A task that has begun to exit, or has exited. -/
def Gone (k : Procs T S P) (t : T) : Prop := k.call t = .exiting ∨ k.status t = .hanging

/-- The invariant of the process table. -/
structure ProcInv (k : Procs T S P) : Prop where
  sched : SchedInv k.sched
  tree : ProcTree k.all k.pid k.parentPid k.pidPool (Gone k)

omit [DecidableEq S] in
theorem allocatePid_ok {b b' : Bitmap} {pid : Nat} (h : allocatePid b = .ok (b', pid)) :
    ∃ i, bitmapScanTest b i = false ∧ b' = bitmapSet b i true ∧ pid = i + 1 := by
  rw [allocatePid] at h
  rcases bind_eq_ok.mp h with ⟨r, hscan, h⟩
  rcases bitmapScan_one hscan with ⟨i, hr, -, hclear, -⟩
  rw [hr, Except.ok.injEq, Prod.mk.injEq] at h
  exact ⟨i, hclear, h.1.symm, h.2.symm⟩

/-- A step of the scheduler changes nothing else. -/
theorem schedOnly_ok {k k' : Procs T S P} (e : SchedEvent T S P) (h : SchedInv k.sched)
    (he : schedEnabled k.sched e) (hs : SwitchOnly e) (hr : schedOnly k e = .ok k') :
    ∃ sched, k' = { k with sched := sched } ∧ SchedInv sched ∧ SameTasks k.sched sched := by
  rw [schedOnly] at hr
  rcases bind_eq_ok.mp hr with ⟨sched, hstep, hr⟩
  rw [Except.ok.injEq] at hr
  exact ⟨sched, hr.symm, schedStep_keeps h he hstep, schedStep_sameTasks h he hs hstep⟩

omit [DecidableEq S] in
/-- What `sys_fork` does to the process table. -/
theorem procFork_ok {k k' : Procs T S P} {t : T} {pg : P} (h : SchedInv k.sched)
    (hnew : t ∉ k.all) (hr : procFork k t pg = .ok k') :
    ∃ sched i, bitmapScanTest k.pidPool i = false ∧ SchedInv sched ∧
      sched.threadAllList = k.all ++ [t] ∧
      statusOf sched = Function.update k.status t .ready ∧
      k' = { k with
        sched := sched
        pidPool := bitmapSet k.pidPool i true
        pid := Function.update k.pid t (i + 1)
        parentPid := Function.update k.parentPid t (k.pid k.cur)
        name := Function.update k.name t (k.name k.cur ++ forkSuffix)
        exitStatus := Function.update k.exitStatus t (k.exitStatus k.cur)
        call := Function.update k.call t .none
        life := Function.update k.life t k.nextLife
        nextLife := k.nextLife + 1 } := by
  rw [procFork] at hr
  rcases bind_eq_ok.mp hr with ⟨⟨pool, pid⟩, halloc, hr⟩
  rcases bind_eq_ok.mp hr with ⟨_, -, hr⟩
  rcases bind_eq_ok.mp hr with ⟨sched, hfork, hr⟩
  rcases allocatePid_ok halloc with ⟨i, hclear, hpool, hpid⟩
  rw [Except.ok.injEq, hpool, hpid] at hr
  -- `enterLists` keeps the scheduler in order, and it is run only once.
  rcases enterLists_inv (f := .sysFork) (v := { k.sched.task k.sched.cur with
      status := .ready
      ticks := (k.sched.task k.sched.cur).priority
      elapsedTicks := 0
      pgdir := some pg }) h hnew rfl with ⟨sched', hok, hinv⟩
  have heq : sched = sched' := by
    rw [forkTail] at hfork
    rw [hfork, Except.ok.injEq] at hok
    exact hok
  rw [forkTail, enterLists] at hfork
  rcases bind_eq_ok.mp hfork with ⟨_, _, hfork⟩
  rcases bind_eq_ok.mp hfork with ⟨_, _, hfork⟩
  rw [Except.ok.injEq] at hfork
  refine ⟨sched, i, hclear, heq ▸ hinv, by rw [← hfork]; rfl, ?_, hr.symm⟩
  rw [← hfork]
  exact statusOf_setTask _ _ _

/-- The statuses after the parent of an exiting task has been woken. -/
def wakeIfWaiting (st : T → TaskStatus) (p : T) : T → TaskStatus :=
  if st p = .waiting then Function.update st p .ready else st

theorem wakeIfWaiting_hanging (st : T → TaskStatus) (p t : T) :
    wakeIfWaiting st p t = .hanging ↔ st t = .hanging := by
  rw [wakeIfWaiting]
  by_cases hw : st p = .waiting
  · rw [if_pos hw]
    by_cases ht : t = p
    · rw [ht, Function.update_self, hw]
      simp only [reduceCtorEq]
    · rw [Function.update_of_ne ht]
  · rw [if_neg hw]

theorem wakeIfWaiting_waiting (st : T → TaskStatus) (p t : T) :
    wakeIfWaiting st p t = .waiting ↔ st t = .waiting ∧ t ≠ p := by
  rw [wakeIfWaiting]
  by_cases hw : st p = .waiting
  · rw [if_pos hw]
    by_cases ht : t = p
    · rw [ht, Function.update_self]
      simp only [reduceCtorEq, ne_eq, not_true_eq_false, and_false]
    · rw [Function.update_of_ne ht]
      exact ⟨fun h => ⟨h, ht⟩, fun h => h.1⟩
  · rw [if_neg hw]
    refine ⟨fun h => ⟨h, ?_⟩, fun h => h.1⟩
    rintro rfl
    exact hw h

omit [DecidableEq T] [DecidableEq S] in
/-- `pid2thread` finds a task with the pid. -/
theorem pid2thread_some {k : Procs T S P} {pid : Int} {t : T} (h : pid2thread k pid = some t) :
    t ∈ k.all ∧ (k.pid t : Int) = pid := by
  refine ⟨List.mem_of_find?_eq_some h, ?_⟩
  have := List.find?_some h
  exact of_decide_eq_true this

omit [DecidableEq S] in
theorem wakeParent_ok {k : Procs T S P} {parent : T} {sched : Sched T S P} (h : SchedInv k.sched)
    (hmem : parent ∈ k.all) (hs : wakeParent k parent = .ok sched) :
    SchedInv sched ∧ sched.cur = k.cur ∧ sched.threadAllList = k.all ∧
      sched.idleThread = k.sched.idleThread ∧ statusOf sched = wakeIfWaiting k.status parent := by
  rw [wakeParent] at hs
  rw [wakeIfWaiting]
  by_cases hw : k.status parent = .waiting
  · rw [if_pos hw] at hs ⊢
    have hnb : statusOf k.sched parent ≠ .blocked := by
      show k.status parent ≠ .blocked
      rw [hw]
      exact fun hc => by cases hc
    rcases threadUnblock_inv h hmem (Or.inr (Or.inl hw)) (h.linked.not_waiting hnb) with
      ⟨sched', hok, hinv⟩
    rw [hs, Except.ok.injEq] at hok
    have heq := (threadUnblock_ok hs).2
    refine ⟨hok ▸ hinv, by rw [heq]; rfl, by rw [heq]; rfl, by rw [heq]; rfl, ?_⟩
    rw [heq, statusOf_setStatus]
    rfl
  · rw [if_neg hw, Except.ok.injEq] at hs
    rw [if_neg hw, ← hs]
    exact ⟨h, rfl, rfl, rfl, rfl⟩

omit [DecidableEq S] in
/-- What the rest of `sys_exit` does: the parent is woken if it waits, and the
    task hangs. -/
theorem sysExitEnd_ok {k k' : Procs T S P} (h : SchedInv k.sched)
    (hcur : k.cur ≠ k.sched.idleThread) (hr : sysExitEnd k = .ok k') :
    ∃ parent sched, parent ∈ k.all ∧ (k.pid parent : Int) = k.parentPid k.cur ∧
      SchedInv sched ∧ sched.threadAllList = k.all ∧
      Calmly (Function.update (wakeIfWaiting k.status parent) k.cur .hanging) (statusOf sched) ∧
      k' = { k.setCall k.cur .none with sched := sched } := by
  rw [sysExitEnd] at hr
  cases hp : pid2thread k (k.parentPid k.cur) with
  | none =>
      rw [hp] at hr
      cases hr
  | some parent =>
      rw [hp] at hr
      rcases pid2thread_some hp with ⟨hmem, hpid⟩
      dsimp only at hr
      rcases bind_eq_ok.mp hr with ⟨sched₁, hs₁, hr⟩
      rcases bind_eq_ok.mp hr with ⟨sched₂, hs₂, hr⟩
      rw [Except.ok.injEq] at hr
      rcases wakeParent_ok h hmem hs₁ with ⟨hinv, hc, hall, hidle, hst⟩
      -- The process that hangs is not idle, so idle is not taken out of the lists.
      have hidle' : sched₁.cur = sched₁.idleThread → TaskStatus.hanging = .blocked := by
        intro heq
        rw [hc, hidle] at heq
        exact absurd heq hcur
      have hlinked := hinv.linked.block hinv.cur_running (Or.inr (Or.inr rfl)) hidle'
      rcases threadBlock_status hlinked hs₂ with ⟨hall₂, -, hcalm⟩
      rcases threadBlock_inv hinv (Or.inr (Or.inr rfl)) hidle' with ⟨sched₃, hok, hinv₂⟩
      rw [hs₂, Except.ok.injEq] at hok
      rw [hst, hc] at hcalm
      exact ⟨parent, sched₂, hmem, hpid, hok ▸ hinv₂, hall₂.trans hall, hcalm, hr.symm⟩

omit [DecidableEq S] in
/-- The three ways a round of `sys_wait` ends. -/
theorem waitRound_ok {k k' : Procs T S P} (h : SchedInv k.sched)
    (hcur : k.cur ≠ k.sched.idleThread) (hr : waitRound k = .ok k') :
    (∃ child, child ∈ k.all ∧ k.parentPid child = k.pid k.cur ∧ k.status child = .hanging ∧
      k' = { k with
        sched := { threadExit { k.sched with intr := .off } child with intr := .on }
        pidPool := releasePid k.pidPool (k.pid child)
        call := Function.update k.call k.cur .none
        waits := ⟨k.life child, k.pid k.cur, k.parentPid child, k.pid child,
          (k.exitStatus child).signExtend 32⟩ :: k.waits }) ∨
    k' = { k.setCall k.cur .none with sched := { k.sched with intr := .on } } ∨
    ∃ sched, (∀ t, t ∈ k.all → k.parentPid t = k.pid k.cur → k.status t ≠ .hanging) ∧
      SchedInv sched ∧ sched.threadAllList = k.all ∧
      Calmly (Function.update k.status k.cur .waiting) (statusOf sched) ∧
      k' = { k.setCall k.cur .waiting with sched := sched } := by
  unfold waitRound at hr
  dsimp only at hr
  set k₁ : Procs T S P := { k with sched := { k.sched with intr := .off } } with hk₁
  have h₁ : SchedInv k₁.sched := ⟨h.linked, h.cur_mem, h.cur_running, h.running_cur, h.idle_calm⟩
  cases hf : findHangingChild k₁ (k₁.pid k₁.cur) with
  | some child =>
      rw [hf, Except.ok.injEq] at hr
      -- A child hangs, and it is taken.
      have hb := List.find?_some hf
      have hc : k.parentPid child = k.pid k.cur ∧ k.status child = .hanging :=
        of_decide_eq_true hb
      exact Or.inl ⟨child, List.mem_of_find?_eq_some hf, hc.1, hc.2, hr.symm⟩
  | none =>
      rw [hf] at hr
      dsimp only at hr
      cases hf' : findChild k₁ (k₁.pid k₁.cur) with
      | none =>
          rw [hf', Except.ok.injEq] at hr
          -- There is no child at all.
          exact Or.inr (Or.inl hr.symm)
      | some child =>
          rw [hf'] at hr
          -- There are children, and none of them hangs: the caller waits.
          rcases bind_eq_ok.mp hr with ⟨sched, hs, hr⟩
          rw [Except.ok.injEq] at hr
          have hidle : k₁.sched.cur = k₁.sched.idleThread → TaskStatus.waiting = .blocked :=
            fun heq => absurd heq hcur
          have hlinked := h₁.linked.block h₁.cur_running (Or.inr (Or.inl rfl)) hidle
          rcases threadBlock_status hlinked hs with ⟨hall, -, hcalm⟩
          rcases threadBlock_inv h₁ (Or.inr (Or.inl rfl)) hidle with ⟨sched', hok, hinv⟩
          rw [hs, Except.ok.injEq] at hok
          refine Or.inr (Or.inr ⟨sched, fun t ht hpar hhang => ?_, hok ▸ hinv, hall, hcalm, hr.symm⟩)
          exact (List.find?_eq_none.mp hf t ht) (decide_eq_true ⟨hpar, hhang⟩)

section Steps

variable {k k' : Procs T S P}

omit [DecidableEq T] [DecidableEq S] in
/-- The scheduler's steps keep who is gone. -/
theorem ProcInv.switch {sched : Sched T S P} (h : ProcInv k) (hinv : SchedInv sched)
    (hs : SameTasks k.sched sched) : ProcInv { k with sched := sched } := by
  refine ⟨hinv, ?_⟩
  have hall : ({ k with sched := sched } : Procs T S P).all = k.all := hs.all
  rw [hall]
  refine h.tree.mono (fun t _ hgone => hgone.imp id (fun hh => ?_))
  exact (hs.calmly.eq_iff not_active_hanging t).mp hh

omit [DecidableEq T] [DecidableEq S] in
/-- A process that runs its own code is not gone. -/
theorem not_gone_cur (h : ProcInv k) (hu : InUserMode k) : ¬ Gone k k.cur := by
  rintro (hc | hc)
  · rw [hu.1] at hc
    cases hc
  · rw [show k.status k.cur = .running from h.sched.cur_running] at hc
    cases hc

omit [DecidableEq S] in
theorem procFork_inv {t : T} {pg : P} (h : ProcInv k) (hu : InUserMode k) (hnew : t ∉ k.all)
    (hr : procFork k t pg = .ok k') : ProcInv k' := by
  rcases procFork_ok h.sched hnew hr with ⟨sched, i, hclear, hinv, hall, hst, rfl⟩
  have hcur : k.cur ∈ k.all := h.sched.cur_mem
  refine ⟨hinv, ?_⟩
  show ProcTree sched.threadAllList _ _ _ _
  rw [hall]
  refine h.tree.fork hnew hclear hcur (not_gone_cur h hu) (fun u hgone => ?_)
  by_cases hut : u = t
  · rcases hgone with hc | hc
    · change Function.update k.call t .none u = .exiting at hc
      rw [hut, Function.update_self] at hc
      cases hc
    · change statusOf sched u = .hanging at hc
      rw [hst, hut, Function.update_self] at hc
      cases hc
  · refine ⟨hut, hgone.imp (fun hc => ?_) (fun hc => ?_)⟩
    · change Function.update k.call t .none u = .exiting at hc
      rwa [Function.update_of_ne hut] at hc
    · change statusOf sched u = .hanging at hc
      rwa [hst, Function.update_of_ne hut] at hc

omit [DecidableEq S] in
theorem sysExitBegin_ok {status : BitVec 32} (hr : sysExitBegin k status = .ok k') :
    k.parentPid k.cur ≠ -1 ∧ k' = { k with
      sched := { k.sched with intr := .off }
      exitStatus := Function.update k.exitStatus k.cur (status.setWidth 8)
      exits := ⟨k.life k.cur, k.pid k.cur, status⟩ :: k.exits
      parentPid := fun t => if t ∈ k.all ∧ k.parentPid t = k.pid k.cur then 1 else k.parentPid t
      call := Function.update k.call k.cur .exiting } := by
  rw [sysExitBegin] at hr
  rcases bind_eq_ok.mp hr with ⟨_, hne, hr⟩
  rw [ensure_eq_ok] at hne
  rw [Except.ok.injEq] at hr
  exact ⟨hne, hr.symm⟩

omit [DecidableEq S] in
theorem sysExitBegin_inv {status : BitVec 32} (h : ProcInv k)
    (hr : sysExitBegin k status = .ok k') : ProcInv k' := by
  rcases sysExitBegin_ok hr with ⟨hne, rfl⟩
  have hinv : SchedInv { k.sched with intr := .off } :=
    ⟨h.sched.linked, h.sched.cur_mem, h.sched.cur_running, h.sched.running_cur,
      h.sched.idle_calm⟩
  refine ⟨hinv, h.tree.adopt h.sched.cur_mem hne (fun u hgone => ?_)⟩
  by_cases hu : u = k.cur
  · exact Or.inl hu
  · refine Or.inr (hgone.imp (fun hc => ?_) id)
    change Function.update k.call k.cur .exiting u = .exiting at hc
    rwa [Function.update_of_ne hu] at hc

omit [DecidableEq S] in
theorem sysExitEnd_inv (h : ProcInv k) (hcall : k.call k.cur = .exiting)
    (hcur : k.cur ≠ k.sched.idleThread) (hr : sysExitEnd k = .ok k') : ProcInv k' := by
  rcases sysExitEnd_ok h.sched hcur hr with ⟨parent, sched, -, -, hinv, hall, hcalm, rfl⟩
  refine ⟨hinv, ?_⟩
  show ProcTree sched.threadAllList _ _ _ _
  rw [hall]
  refine h.tree.mono (fun u _ hgone => ?_)
  by_cases hu : u = k.cur
  · rw [hu]
    exact Or.inl hcall
  · refine hgone.imp (fun hc => ?_) (fun hc => ?_)
    · change Function.update k.call k.cur .none u = .exiting at hc
      rwa [Function.update_of_ne hu] at hc
    · have hh := (hcalm.eq_iff not_active_hanging u).mp hc
      rw [Function.update_of_ne hu] at hh
      exact (wakeIfWaiting_hanging _ _ _).mp hh

omit [DecidableEq S] in
theorem waitRound_inv (h : ProcInv k) (hcur : k.cur ≠ k.sched.idleThread)
    (hr : waitRound k = .ok k') : ProcInv k' := by
  have hinv : ∀ {sched : Sched T S P}, SchedInv sched → ∀ i, SchedInv { sched with intr := i } :=
    fun hs _ => ⟨hs.linked, hs.cur_mem, hs.cur_running, hs.running_cur, hs.idle_calm⟩
  -- The call a task is in matters only if it is `exiting`.
  have hcall : ∀ {c : InCall} {u : T}, c ≠ .exiting →
      Function.update k.call k.cur c u = .exiting → k.call u = .exiting := by
    intro c u hc hu
    by_cases huc : u = k.cur
    · rw [huc, Function.update_self] at hu
      exact absurd hu hc
    · rwa [Function.update_of_ne huc] at hu
  rcases waitRound_ok h.sched hcur hr with ⟨child, hmem, -, hhang, rfl⟩ | rfl |
    ⟨sched, -, hinv', hall, hcalm, rfl⟩
  · have hexit : SchedInv (threadExit { k.sched with intr := .off } child) :=
      threadExit_inv (hinv h.sched .off) hhang
    refine ⟨hinv hexit .on, ?_⟩
    refine (h.tree.reap h.sched.linked.all_nodup hmem (Or.inr hhang)).mono (fun u hu hgone => ?_)
    refine hgone.imp (hcall (by decide)) (fun hc => ?_)
    have hne : u ≠ child := (h.sched.linked.all_nodup.mem_erase_iff.mp hu).1
    change statusOf (Sched.setStatus { k.sched with intr := .off } child .died) u = .hanging at hc
    rw [statusOf_setStatus, Function.update_of_ne hne] at hc
    exact hc
  · refine ⟨hinv h.sched .on, h.tree.mono (fun u _ hgone => hgone.imp (hcall (by decide)) id)⟩
  · refine ⟨hinv', ?_⟩
    show ProcTree sched.threadAllList _ _ _ _
    rw [hall]
    refine h.tree.mono (fun u _ hgone => hgone.imp (hcall (by decide)) (fun hc => ?_))
    have hh := (hcalm.eq_iff not_active_hanging u).mp hc
    by_cases hu : u = k.cur
    · rw [hu, Function.update_self] at hh
      cases hh
    · rwa [Function.update_of_ne hu] at hh

/-- The events of the scheduler. -/
def ProcEvent.sched? : ProcEvent T S P → Option (SchedEvent T S P)
  | .timer => some .timer
  | .idle => some (.block .blocked)
  | .yield => some .yield
  | .down s => some (.down s)
  | .resume => some .resume
  | .up s => some (.up s)
  | _ => none

/-- A step of the scheduler, in the table. -/
theorem procStep_switch {e : ProcEvent T S P} {e' : SchedEvent T S P} (h : SchedInv k.sched)
    (he : procEnabled k e) (hs : e.sched? = some e') (hr : procStep k e = .ok k') :
    ∃ sched, k' = { k with sched := sched } ∧ SchedInv sched ∧ SameTasks k.sched sched := by
  cases e with
  | timer =>
      cases hs
      exact schedOnly_ok .timer h he trivial hr
  | idle =>
      cases hs
      -- The idle thread blocks itself, which needs that it is not inside `sema_down`.
      refine schedOnly_ok (.block .blocked) h ⟨?_, Or.inl rfl, fun _ => rfl⟩ rfl hr
      rw [show k.sched.cur = k.sched.idleThread from he]
      exact h.idle_calm
  | yield =>
      cases hs
      exact schedOnly_ok .yield h ⟨he.1, he.2.1⟩ trivial hr
  | down s =>
      cases hs
      exact schedOnly_ok (.down s) h ⟨he.1, he.2.1⟩ trivial hr
  | resume =>
      cases hs
      exact schedOnly_ok .resume h he trivial hr
  | up s =>
      cases hs
      exact schedOnly_ok (.up s) h he.1 trivial hr
  | fork t pg => cases hs
  | exec found => cases hs
  | exit status => cases hs
  | exitEnd => cases hs
  | wait => cases hs

omit [DecidableEq T] [DecidableEq S] in
theorem wait_not_idle (he : procEnabled k .wait) : k.cur ≠ k.sched.idleThread := by
  rcases he with hu | hw
  · exact hu.2.2.2.2
  · exact hw.2.2

/-- Every call keeps the invariant. -/
theorem procStep_inv {e : ProcEvent T S P} (h : ProcInv k) (he : procEnabled k e)
    (hr : procStep k e = .ok k') : ProcInv k' := by
  cases hs : e.sched? with
  | some e' =>
      rcases procStep_switch h.sched he hs hr with ⟨sched, rfl, hinv, hsame⟩
      exact h.switch hinv hsame
  | none =>
      cases e with
      | fork t pg => exact procFork_inv h he.1 he.2 hr
      | exec found =>
          cases hr
          exact ⟨h.sched, h.tree⟩
      | exit status => exact sysExitBegin_inv h hr
      | exitEnd => exact sysExitEnd_inv h he.1 he.2.2 hr
      | wait => exact waitRound_inv h (wait_not_idle he) hr
      | timer => cases hs
      | idle => cases hs
      | yield => cases hs
      | down s => cases hs
      | resume => cases hs
      | up s => cases hs

end Steps

omit [DecidableEq T] [DecidableEq S] in
/-- No task is waiting or hanging after `thread_init`. -/
theorem schedInit_active {k : Sched T S P} (h : schedInit k) {t : T} (ht : t ∈ k.threadAllList) :
    Active (statusOf k t) := by
  rcases h with ⟨init, main, idle, -, -, -, -, hall, -, -, hi, hd, hm, -⟩
  rw [hall] at ht
  rcases List.mem_cons.mp ht with rfl | ht
  · exact Or.inr (Or.inl hi)
  rcases List.mem_cons.mp ht with rfl | ht
  · exact Or.inl hm
  · rw [List.mem_singleton.mp ht]
    exact Or.inr (Or.inl hd)

omit [DecidableEq T] [DecidableEq S] in
theorem procInit_not_gone {k : Procs T S P} (h : procInit k) {t : T} (ht : t ∈ k.all) :
    ¬ Gone k t := by
  rcases h with ⟨init, main, idle, -, -, -, hsched, -, -, -, -, -, -, hcall, -⟩
  rintro (hc | hc)
  · rw [hcall] at hc
    cases hc
  · have hact : Active (k.status t) := schedInit_active hsched ht
    rw [hc] at hact
    exact not_active_hanging hact

omit [DecidableEq T] [DecidableEq S] in
/-- The state `thread_init` leaves satisfies the invariant. -/
theorem procInit_inv {k : Procs T S P} (h : procInit k) : ProcInv k := by
  have hgone := fun t ht => procInit_not_gone h (t := t) ht
  rcases h with ⟨init, main, idle, -, -, -, hsched, hall, hp1, hp2, hp3, -, hpar, -, ⟨b, hlen, hpool⟩, -⟩
  have hmem : ∀ t, t ∈ k.all → t = init ∨ t = main ∨ t = idle := by
    intro t ht
    rw [hall] at ht
    simpa only [List.mem_cons, List.not_mem_nil, or_false] using ht
  refine ⟨schedInit_inv hsched, ?_, ?_, ?_, ?_, ?_⟩
  · intro t u ht hu heq
    rcases hmem t ht with rfl | rfl | rfl <;> rcases hmem u hu with rfl | rfl | rfl <;>
      first | rfl | omega
  · intro t ht
    have hpid : 1 ≤ k.pid t ∧ k.pid t ≤ 3 := by
      rcases hmem t ht with rfl | rfl | rfl
      · omega
      · omega
      · omega
    refine ⟨hpid.1, ?_⟩
    rw [hpool, bitmapScanTest_setRange, if_pos (by omega)]
  · exact fun t _ hne => absurd (hpar t) hne
  · exact ⟨init, by rw [hall]; exact List.mem_cons_self, hp1, hpar init⟩
  · exact fun t ht hg => absurd hg (hgone t ht)

/-- In every reachable state the invariant of the process table holds. -/
theorem procs_inv {k : Procs T S P} (h : (procSystem T S P).Reachable k) : ProcInv k :=
  System.invariant_of_step _ ProcInv (fun _ hk => procInit_inv hk)
    (fun _ _ _ hinv he hr => procStep_inv hinv he hr) k h

omit [DecidableEq T] [DecidableEq S] in
/-- A parent that is there is found. -/
theorem pid2thread_ne_none {k : Procs T S P} {p : T} {pid : Int} (hp : p ∈ k.all)
    (hpid : (k.pid p : Int) = pid) : pid2thread k pid ≠ none := by
  intro hc
  exact List.find?_eq_none.mp hc p hp (decide_eq_true hpid)

/-- In every reachable state pids are unique and taken in the pool, every
    parent is there, and `sys_exit` finds the parent of the exiting task. -/
theorem process_table (k : Procs T S P) (h : (procSystem T S P).Reachable k) :
    (∀ t u, t ∈ k.all → u ∈ k.all → k.pid t = k.pid u → t = u) ∧
    (∀ t, t ∈ k.all → 1 ≤ k.pid t ∧ bitmapScanTest k.pidPool (k.pid t - 1) = true) ∧
    (∀ t, t ∈ k.all → k.parentPid t ≠ -1 → ∃ p, p ∈ k.all ∧ (k.pid p : Int) = k.parentPid t) ∧
    (k.call k.cur = .exiting → pid2thread k (k.parentPid k.cur) ≠ none) := by
  have hinv := procs_inv h
  refine ⟨hinv.tree.pids, hinv.tree.bit, hinv.tree.parent_mem, fun hcall => ?_⟩
  have hmem : k.cur ∈ k.all := hinv.sched.cur_mem
  have hpar := (hinv.tree.leaving k.cur hmem (Or.inl hcall)).1
  rcases hinv.tree.parent_mem k.cur hmem hpar with ⟨p, hp, hpid⟩
  exact pid2thread_ne_none hp hpid

section Runs

instance (k : Procs T S P) : Decidable (InUserMode k) :=
  inferInstanceAs (Decidable (_ ∧ _ ∧ _ ∧ _ ∧ _))

instance (k : Procs T S P) (e : ProcEvent T S P) :
    Decidable ((procSystem T S P).enabled k e) :=
  match e with
  | .timer => inferInstanceAs (Decidable (k.sched.intr = .on))
  | .idle => inferInstanceAs (Decidable (k.cur = k.sched.idleThread))
  | .yield => inferInstanceAs (Decidable (_ ∧ _ ∧ _))
  | .down _ => inferInstanceAs (Decidable (_ ∧ _ ∧ _))
  | .resume => inferInstanceAs (Decidable (k.sched.inSemaDown k.cur ≠ none))
  | .up _ => inferInstanceAs (Decidable (_ ∧ _))
  | .fork t _ => inferInstanceAs (Decidable (InUserMode k ∧ t ∉ k.all))
  | .exec _ => inferInstanceAs (Decidable (InUserMode k))
  | .exit _ => inferInstanceAs (Decidable (InUserMode k))
  | .exitEnd => inferInstanceAs (Decidable (_ ∧ _ ∧ _))
  | .wait => inferInstanceAs (Decidable (InUserMode k ∨ (_ ∧ _ ∧ _)))

/-- The process table after `thread_init`. The tasks 0, 1 and 2 are `init`, the
    main thread and the idle task. -/
def bootProcs : Procs Nat Nat Nat where
  sched := { bootSched with
    task := fun t => { bootSched.task t with pgdir := if t = 0 then some 0 else none } }
  pid t := t + 1
  parentPid _ := -1
  name _ := initName
  exitStatus _ := 0
  pidPool := bitmapSetRange (bitmapInit ⟨128, fun _ => 0⟩) 0 true 3
  call _ := .none
  life t := t
  nextLife := 3
  exits := []
  waits := []

theorem bootProcs_init : procInit bootProcs := by
  refine ⟨0, 1, 2, by decide, by decide, by decide, ?_, rfl, rfl, rfl, rfl, rfl, fun _ => rfl,
    fun _ => rfl, ⟨_, rfl, rfl⟩, ?_, fun t u _ _ heq => heq, rfl, rfl⟩
  · exact ⟨0, 1, 2, by decide, by decide, by decide, rfl, rfl, rfl, rfl, rfl, rfl, rfl,
      fun _ => rfl, fun _ => rfl⟩
  · intro t ht
    have hmem : t ∈ [0, 1, 2] := ht
    simp only [List.mem_cons, List.not_mem_nil, or_false] at hmem
    show t < 3
    omega

/-- `init` has forked: `process_table` of the new process. -/
theorem process_table_forked :
    let k := (procSystem Nat Nat Nat).after bootProcs [.yield, .fork 10 1]
    k.pid 10 = 4 ∧ bitmapScanTest k.pidPool 3 = true ∧ ∃ p, p ∈ k.all ∧ (k.pid p : Int) = 1 := by
  intro k
  have hr : (procSystem Nat Nat Nat).Reachable k :=
    (procSystem Nat Nat Nat).reachable_after _ (.init _ bootProcs_init) (by decide +kernel)
  rcases process_table k hr with ⟨-, hbit, hpar, -⟩
  have hmem : 10 ∈ k.all := by decide +kernel
  have hpid : k.pid 10 = 4 := by decide +kernel
  have hparent : k.parentPid 10 = 1 := by decide +kernel
  refine ⟨hpid, ?_, ?_⟩
  · have hset := (hbit 10 hmem).2
    rwa [hpid] at hset
  · have hex := hpar 10 hmem (by rw [hparent]; decide)
    rwa [hparent] at hex

end Runs

/-- No task waits in `sys_wait` while a child of it hangs. -/
def NoMissedChild (k : Procs T S P) : Prop :=
  ∀ p, p ∈ k.all → ∀ c, c ∈ k.all → k.status p = .waiting → k.parentPid c = k.pid p →
    k.status c ≠ .hanging

/-- A child is inside `sys_exit`, and wakes its parent at the end. -/
def AboutToWake (k : Procs T S P) (p : T) : Prop :=
  ∃ x, x ∈ k.all ∧ k.call x = .exiting ∧ k.parentPid x = k.pid p

/-- A task that waits while a child of it hangs is about to be woken. -/
def WakeupComes (k : Procs T S P) : Prop :=
  ∀ p, p ∈ k.all → ∀ c, c ∈ k.all → k.status p = .waiting → k.parentPid c = k.pid p →
    k.status c = .hanging → AboutToWake k p

/-- A task with a hanging child does not exit while `init` waits. -/
def Heeded (k : Procs T S P) : ProcEvent T S P → Prop
  | .exit _ => ∀ c, c ∈ k.all → k.parentPid c = k.pid k.cur → k.status c = .hanging →
      ∀ i, i ∈ k.all → k.pid i = 1 → k.status i ≠ .waiting
  | _ => True

/-- It does so only if `init` is its own parent, which it then wakes. -/
def HandedOn (k : Procs T S P) : ProcEvent T S P → Prop
  | .exit status => k.parentPid k.cur = 1 ∨ Heeded k (.exit status)
  | _ => True

section NoMissed

variable {k k' : Procs T S P} {own : Prop}

/-- The two of them: a child that is about to wake its parent may count or
    not. -/
def NoMissedBut (own : Prop) (k : Procs T S P) : Prop :=
  ∀ p, p ∈ k.all → ∀ c, c ∈ k.all → k.status p = .waiting → k.parentPid c = k.pid p →
    k.status c = .hanging → own ∧ AboutToWake k p

omit [DecidableEq S] in
theorem exitEnd_noMissed (hinv : ProcInv k) (h : NoMissedBut own k)
    (hcur : k.cur ≠ k.sched.idleThread) (hr : sysExitEnd k = .ok k') : NoMissedBut own k' := by
  rcases sysExitEnd_ok hinv.sched hcur hr with ⟨parent, sched, hmem, hpid, -, hall, hcalm, rfl⟩
  intro p hp c hc hw hpar hhang
  change p ∈ sched.threadAllList at hp
  change c ∈ sched.threadAllList at hc
  rw [hall] at hp hc
  have hw' := (hcalm.eq_iff not_active_waiting p).mp hw
  have hh' := (hcalm.eq_iff not_active_hanging c).mp hhang
  have hpc : p ≠ k.cur := by
    rintro rfl
    rw [Function.update_self] at hw'
    cases hw'
  rw [Function.update_of_ne hpc, wakeIfWaiting_waiting] at hw'
  -- The parent of the exiting task no longer waits.
  have hown : k.parentPid k.cur ≠ k.pid p := by
    intro heq
    refine hw'.2 (hinv.tree.pids p parent hp hmem ?_)
    rw [← hpid] at heq
    exact_mod_cast heq.symm
  have hcc : c ≠ k.cur := by
    rintro rfl
    exact hown hpar
  rw [Function.update_of_ne hcc, wakeIfWaiting_hanging] at hh'
  rcases h p hp c hc hw'.1 hpar hh' with ⟨ho, x, hx, hexit, hxpar⟩
  have hxc : x ≠ k.cur := by
    rintro rfl
    exact hown hxpar
  refine ⟨ho, x, ?_, ?_, hxpar⟩
  · show x ∈ sched.threadAllList
    rw [hall]
    exact hx
  · show Function.update k.call k.cur .none x = .exiting
    rw [Function.update_of_ne hxc]
    exact hexit

omit [DecidableEq S] in
theorem wait_noMissed (hinv : ProcInv k) (h : NoMissedBut own k)
    (hcur : k.cur ≠ k.sched.idleThread) (hcall : k.call k.cur ≠ .exiting)
    (hr : waitRound k = .ok k') : NoMissedBut own k' := by
  have hrun : k.status k.cur = .running := hinv.sched.cur_running
  -- A task that is about to wake its parent is another one, and stays so.
  have hother : ∀ (c : InCall) x, k.call x = .exiting →
      Function.update k.call k.cur c x = .exiting := by
    intro c x hx
    have hne : x ≠ k.cur := fun hc => hcall (hc ▸ hx)
    rw [Function.update_of_ne hne]
    exact hx
  rcases waitRound_ok hinv.sched hcur hr with ⟨child, hmem, hchild, hhang, rfl⟩ | rfl |
    ⟨sched, hnone, -, hall, hcalm, rfl⟩
  · intro p hp c hc hw hpar hh
    have hp' := hinv.sched.linked.all_nodup.mem_erase_iff.mp hp
    have hc' := hinv.sched.linked.all_nodup.mem_erase_iff.mp hc
    have hst : ∀ u, u ≠ child →
        statusOf (Sched.setStatus { k.sched with intr := .off } child .died) u = k.status u := by
      intro u hu
      rw [statusOf_setStatus, Function.update_of_ne hu]
      rfl
    have hw' : k.status p = .waiting := (hst p hp'.1).symm.trans hw
    rcases h p hp'.2 c hc'.2 hw' hpar ((hst c hc'.1).symm.trans hh) with ⟨ho, x, hx, hexit, hxpar⟩
    -- The parent of the reaped child runs.
    have hxc : x ≠ child := by
      rintro rfl
      rw [hchild] at hxpar
      have hpc : k.cur = p :=
        hinv.tree.pids k.cur p hinv.sched.cur_mem hp'.2 (by exact_mod_cast hxpar)
      rw [← hpc, hrun] at hw'
      cases hw'
    exact ⟨ho, x, hinv.sched.linked.all_nodup.mem_erase_iff.mpr ⟨hxc, hx⟩, hother _ x hexit, hxpar⟩
  · intro p hp c hc hw hpar hh
    rcases h p hp c hc hw hpar hh with ⟨ho, x, hx, hexit, hxpar⟩
    exact ⟨ho, x, hx, hother _ x hexit, hxpar⟩
  · intro p hp c hc hw hpar hh
    change p ∈ sched.threadAllList at hp
    change c ∈ sched.threadAllList at hc
    rw [hall] at hp hc
    have hw' := (hcalm.eq_iff not_active_waiting p).mp hw
    have hh' := (hcalm.eq_iff not_active_hanging c).mp hh
    have hcc : c ≠ k.cur := by
      rintro rfl
      rw [Function.update_self] at hh'
      cases hh'
    rw [Function.update_of_ne hcc] at hh'
    by_cases hpc : p = k.cur
    · exact absurd hh' (hnone c hc (hpc ▸ hpar))
    · rw [Function.update_of_ne hpc] at hw'
      rcases h p hp c hc hw' hpar hh' with ⟨ho, x, hx, hexit, hxpar⟩
      refine ⟨ho, x, ?_, hother _ x hexit, hxpar⟩
      show x ∈ sched.threadAllList
      rw [hall]
      exact hx

omit [DecidableEq S] in
theorem fork_noMissed {t : T} {pg : P} (hinv : ProcInv k) (h : NoMissedBut own k)
    (hnew : t ∉ k.all) (hr : procFork k t pg = .ok k') : NoMissedBut own k' := by
  rcases procFork_ok hinv.sched hnew hr with ⟨sched, i, -, -, hall, hst, rfl⟩
  intro p hp c hc hw hpar hh
  change statusOf sched p = .waiting at hw
  change statusOf sched c = .hanging at hh
  rw [hst] at hw hh
  -- The child is ready, so it neither waits nor hangs.
  have hpt : p ≠ t := by
    rintro rfl
    rw [Function.update_self] at hw
    cases hw
  have hct : c ≠ t := by
    rintro rfl
    rw [Function.update_self] at hh
    cases hh
  have hin : ∀ u, u ∈ sched.threadAllList → u ≠ t → u ∈ k.all := by
    intro u hu hut
    rw [hall] at hu
    exact (List.mem_append.mp hu).resolve_right (fun hc => hut (List.mem_singleton.mp hc))
  rw [Function.update_of_ne hpt] at hw
  rw [Function.update_of_ne hct] at hh
  change Function.update k.parentPid t _ c = (Function.update k.pid t _ p : Nat) at hpar
  rw [Function.update_of_ne hpt, Function.update_of_ne hct] at hpar
  rcases h p (hin p hp hpt) c (hin c hc hct) hw hpar hh with ⟨ho, x, hx, hexit, hxpar⟩
  have hxt : x ≠ t := fun heq => hnew (heq ▸ hx)
  refine ⟨ho, x, ?_, ?_, ?_⟩
  · show x ∈ sched.threadAllList
    rw [hall]
    exact List.mem_append.mpr (Or.inl hx)
  · show Function.update k.call t .none x = .exiting
    rw [Function.update_of_ne hxt]
    exact hexit
  · show Function.update k.parentPid t _ x = (Function.update k.pid t _ p : Nat)
    rw [Function.update_of_ne hxt, Function.update_of_ne hpt]
    exact hxpar

omit [DecidableEq S] in
/-- `init` gets the children. Either none of them hangs, or it does not wait,
    or it is about to be woken by the task that exits. -/
theorem exitBegin_noMissed {status : BitVec 32} (hinv : ProcInv k) (h : NoMissedBut own k)
    (hheed : (own ∧ k.parentPid k.cur = 1) ∨ Heeded k (.exit status))
    (hr : sysExitBegin k status = .ok k') : NoMissedBut own k' := by
  rcases sysExitBegin_ok hr with ⟨-, rfl⟩
  intro p hp c hc hw hpar hh
  change (if c ∈ k.all ∧ k.parentPid c = k.pid k.cur then (1 : Int) else k.parentPid c) = k.pid p
    at hpar
  by_cases hadopt : c ∈ k.all ∧ k.parentPid c = k.pid k.cur
  · rw [if_pos hadopt] at hpar
    rcases hheed with ⟨ho, hone⟩ | hheed
    · refine ⟨ho, k.cur, hinv.sched.cur_mem, Function.update_self _ _ _, ?_⟩
      show (if _ then (1 : Int) else k.parentPid k.cur) = (k.pid p : Int)
      rw [hone, ite_self]
      exact hpar
    · exact absurd hw (hheed c hc hadopt.2 hh p hp (by exact_mod_cast hpar.symm))
  · rw [if_neg hadopt] at hpar
    rcases h p hp c hc hw hpar hh with ⟨ho, x, hx, hexit, hxpar⟩
    -- Its parent waits, so it is no child of the task that exits.
    have hxcur : k.parentPid x ≠ k.pid k.cur := by
      intro heq
      rw [heq] at hxpar
      have hpc : k.cur = p := hinv.tree.pids k.cur p hinv.sched.cur_mem hp (by exact_mod_cast hxpar)
      have hw' : k.status p = .waiting := hw
      rw [← hpc, show k.status k.cur = .running from hinv.sched.cur_running] at hw'
      cases hw'
    refine ⟨ho, x, hx, ?_, ?_⟩
    · show Function.update k.call k.cur .exiting x = .exiting
      by_cases hxc : x = k.cur
      · rw [hxc, Function.update_self]
      · rw [Function.update_of_ne hxc]
        exact hexit
    · show (if x ∈ k.all ∧ k.parentPid x = k.pid k.cur then (1 : Int) else k.parentPid x)
        = (k.pid p : Int)
      rw [if_neg (fun hc => hxcur hc.2)]
      exact hxpar

/-- A call that meets the condition leaves no hanging child behind. -/
theorem procStep_noMissed {e : ProcEvent T S P} (hinv : ProcInv k) (h : NoMissedBut own k)
    (he : procEnabled k e) (hheed : (own ∧ HandedOn k e) ∨ Heeded k e)
    (hr : procStep k e = .ok k') : NoMissedBut own k' := by
  cases hs : e.sched? with
  | some e' =>
      -- The scheduler changes no parent, and no task to waiting or hanging.
      rcases procStep_switch hinv.sched he hs hr with ⟨sched, rfl, -, hsame⟩
      intro p hp c hc hw hpar hh
      change p ∈ sched.threadAllList at hp
      change c ∈ sched.threadAllList at hc
      rw [hsame.all] at hp hc
      rcases h p hp c hc ((hsame.calmly.eq_iff not_active_waiting p).mp hw) hpar
        ((hsame.calmly.eq_iff not_active_hanging c).mp hh) with ⟨ho, x, hx, hexit, hxpar⟩
      refine ⟨ho, x, ?_, hexit, hxpar⟩
      show x ∈ sched.threadAllList
      rw [hsame.all]
      exact hx
  | none =>
      cases e with
      | fork t pg => exact fork_noMissed hinv h he.2 hr
      | exec found =>
          cases hr
          exact h
      | exit status =>
          -- The one step that can hand a hanging child to `init` while it waits.
          refine exitBegin_noMissed hinv h ?_ hr
          rcases hheed with ⟨ho, hone | hheed⟩ | hheed
          · exact Or.inl ⟨ho, hone⟩
          · exact Or.inr hheed
          · exact Or.inr hheed
      | exitEnd => exact exitEnd_noMissed hinv h he.2.2 hr
      | wait =>
          refine wait_noMissed hinv h (wait_not_idle he) ?_ hr
          rcases he with hu | hw
          · rw [hu.1]
            decide
          · rw [hw.1]
            decide
      | timer => cases hs
      | idle => cases hs
      | yield => cases hs
      | down s => cases hs
      | resume => cases hs
      | up s => cases hs

/-- In every run whose steps meet the condition no hanging child is missed. -/
theorem procs_noMissed (own : Prop) {allow : Procs T S P → ProcEvent T S P → Prop}
    (hallow : ∀ k e, allow k e → (own ∧ HandedOn k e) ∨ Heeded k e)
    (h : ((procSystem T S P).restrict allow).Reachable k) : NoMissedBut own k := by
  have hboth : ProcInv k ∧ NoMissedBut own k := by
    refine System.invariant_of_step _ (fun k => ProcInv k ∧ NoMissedBut own k) ?_ ?_ k h
    · intro k₀ hk₀
      exact ⟨procInit_inv hk₀, fun p _ c hc _ _ hh => absurd (Or.inr hh) (procInit_not_gone hk₀ hc)⟩
    · rintro k₁ e k₂ ⟨hinv, hno⟩ he hr
      exact ⟨procStep_inv hinv he.1 hr, procStep_noMissed hinv hno he.1 (hallow _ _ he.2) hr⟩
  exact hboth.2

end NoMissed

/-- In every run in which a task with a hanging child exits while `init` waits
    only if `init` is its parent, a task that waits while a child of it hangs is
    about to be woken, by a child that is inside `sys_exit`. In every run in
    which no such task exits at all, no task ever waits while a child of it
    hangs. -/
theorem no_missed_child (k : Procs T S P) :
    (((procSystem T S P).restrict HandedOn).Reachable k → WakeupComes k) ∧
      (((procSystem T S P).restrict Heeded).Reachable k → NoMissedChild k) := by
  constructor
  · intro h p hp c hc hw hpar hh
    exact (procs_noMissed True (fun _ _ he => Or.inl ⟨trivial, he⟩) h p hp c hc hw hpar hh).2
  · intro h p hp c hc hw hpar hh
    exact (procs_noMissed False (fun _ _ he => Or.inr he) h p hp c hc hw hpar hh).1

section Runs

/-- `"/sh"`. -/
def shellPath : Str := [0x2f, 0x73, 0x68]

/-- `init` (0) forks 10 and waits. 10 loads a program, forks 11 and waits, and
    11 forks 12. Then 12 exits while 11 does not wait, and 11 exits. -/
def adoptHanging : List (ProcEvent Nat Nat Nat) :=
  [.yield, .fork 10 1, .wait, .idle, .yield, .exec shellPath, .fork 11 2, .wait, .yield, .fork 12 3,
    .yield, .yield, .exit 0, .exitEnd, .exit 0, .exitEnd]

/-- `init` is then the parent of 12, which hangs, and still waits. Nobody is
    about to wake it. -/
theorem init_misses_hanging_child :
    (procSystem Nat Nat Nat).Reachable ((procSystem Nat Nat Nat).after bootProcs adoptHanging) ∧
      ¬ NoMissedChild ((procSystem Nat Nat Nat).after bootProcs adoptHanging) ∧
      ¬ WakeupComes ((procSystem Nat Nat Nat).after bootProcs adoptHanging) := by
  set k := (procSystem Nat Nat Nat).after bootProcs adoptHanging with hk
  have hmem : 0 ∈ k.all ∧ 12 ∈ k.all := by
    rw [hk]
    decide +kernel
  have hmissed : k.status 0 = .waiting ∧ k.parentPid 12 = k.pid 0 ∧ k.status 12 = .hanging := by
    rw [hk]
    decide +kernel
  have hnobody : ∀ x, x ∈ k.all → k.call x ≠ .exiting := by
    rw [hk]
    decide +kernel
  refine ⟨(procSystem Nat Nat Nat).reachable_after _ (.init _ bootProcs_init) (by decide +kernel),
    fun hno => hno 0 hmem.1 12 hmem.2 hmissed.1 hmissed.2.1 hmissed.2.2, fun hcomes => ?_⟩
  rcases hcomes 0 hmem.1 12 hmem.2 hmissed.1 hmissed.2.1 hmissed.2.2 with ⟨x, hx, hexit, -⟩
  exact hnobody x hx hexit

/-- `init` forks and waits, and the child exits. -/
def exitToWaiting (status : BitVec 32) : List (ProcEvent Nat Nat Nat) :=
  [.yield, .fork 10 1, .wait, .idle, .yield, .exit status, .exitEnd]

instance (k : Procs T S P) (e : ProcEvent T S P) : Decidable (Heeded k e) :=
  match e with
  | .exit _ => inferInstanceAs (Decidable (∀ c, c ∈ k.all → _ → _ → ∀ i, i ∈ k.all → _ → _))
  | .timer | .idle | .yield | .down _ | .resume | .up _ | .fork _ _ | .exec _ | .exitEnd | .wait =>
      isTrue trivial

instance (k : Procs T S P) (e : ProcEvent T S P) : Decidable (HandedOn k e) :=
  match e with
  | .exit status => inferInstanceAs (Decidable (k.parentPid k.cur = 1 ∨ Heeded k (.exit status)))
  | .timer | .idle | .yield | .down _ | .resume | .up _ | .fork _ _ | .exec _ | .exitEnd | .wait =>
      isTrue trivial

/-- `init` (0) forks 10 and waits, 10 forks 11, and 11 exits while 10 does not
    wait. Then 10 exits. -/
def adoptFromChild : List (ProcEvent Nat Nat Nat) :=
  [.yield, .fork 10 1, .wait, .idle, .yield, .fork 11 2, .yield, .yield, .exit 0, .exitEnd,
    .exit 0]

/-- `init` has got the hanging 11 and is woken by 10; in a shorter run it is
    woken by a child that has no children. -/
theorem no_missed_child_woken :
    WakeupComes ((procSystem Nat Nat Nat).after bootProcs adoptFromChild) ∧
      NoMissedChild ((procSystem Nat Nat Nat).after bootProcs (exitToWaiting 7)) := by
  constructor
  · refine (no_missed_child _).1 (((procSystem Nat Nat Nat).restrict HandedOn).reachable_after _
      (.init _ bootProcs_init) ?_)
    exact (procSystem Nat Nat Nat).runs_restrict HandedOn (by decide +kernel) (by decide +kernel)
  · refine (no_missed_child _).2 (((procSystem Nat Nat Nat).restrict Heeded).reachable_after _
      (.init _ bootProcs_init) ?_)
    exact (procSystem Nat Nat Nat).runs_restrict Heeded (by decide +kernel) (by decide +kernel)

end Runs

/-- A status that comes through the eight bits of `exit_status`. -/
def FitsStatus (s : BitVec 32) : Prop := -128 ≤ s.toInt ∧ s.toInt ≤ 127

theorem FitsStatus.signExtend {s : BitVec 32} (h : FitsStatus s) : (s.setWidth 8).signExtend 32 = s := by
  apply BitVec.eq_of_toInt_eq
  rw [BitVec.toInt_signExtend_of_le (by omega), BitVec.toInt_setWidth]
  have hlt := s.isLt
  rw [FitsStatus, BitVec.toInt_eq_toNat_cond] at h
  rw [BitVec.toInt_eq_toNat_cond, Int.bmod_def]
  split at h <;> split <;> omega

/-- The history of a run, over plain lists and functions: every process that is
    gone has exited once, and every process that has been returned is no
    longer there and was returned with what it had passed. -/
structure History (all : List T) (life : T → Nat) (next : Nat) (pid : T → Nat)
    (est : T → BitVec 8) (gone : T → Prop) (exits : List ExitRecord) (waits : List WaitRecord) :
    Prop where
  lives : ∀ t u, t ∈ all → u ∈ all → life t = life u → t = u
  life_lt : ∀ t, t ∈ all → life t < next
  exits_lt : ∀ x, x ∈ exits → x.life < next
  exits_nodup : (exits.map ExitRecord.life).Nodup
  here : ∀ t, t ∈ all → ¬ gone t → ∀ x, x ∈ exits → x.life ≠ life t
  exited : ∀ t, t ∈ all → gone t →
    ∃ x, x ∈ exits ∧ x.life = life t ∧ x.pid = pid t ∧ est t = x.status.setWidth 8
  reaped : ∀ w, w ∈ waits → w.life < next ∧ ∀ t, t ∈ all → life t ≠ w.life
  waits_nodup : (waits.map WaitRecord.life).Nodup
  returned : ∀ w, w ∈ waits → w.parentPid = w.caller ∧ ∃ x, x ∈ exits ∧ x.life = w.life ∧
    w.result = x.pid ∧ w.status = (x.status.setWidth 8).signExtend 32

namespace History

variable {all : List T} {life : T → Nat} {next : Nat} {pid : T → Nat} {est : T → BitVec 8}
  {gone : T → Prop} {exits : List ExitRecord} {waits : List WaitRecord}

omit [DecidableEq T] in
theorem congr (h : History all life next pid est gone exits waits) {gone' : T → Prop}
    (hg : ∀ t, t ∈ all → (gone' t ↔ gone t)) :
    History all life next pid est gone' exits waits :=
  { h with
    here := fun t ht hn => h.here t ht (fun hc => hn ((hg t ht).mpr hc))
    exited := fun t ht hn => h.exited t ht ((hg t ht).mp hn) }

/-- A new process. -/
theorem fork (h : History all life next pid est gone exits waits) {t : T} (hnew : t ∉ all)
    {i : Nat} {x : BitVec 8} {gone' : T → Prop} (ht : ¬ gone' t)
    (hg : ∀ u, u ∈ all → (gone' u ↔ gone u)) :
    History (all ++ [t]) (Function.update life t next) (next + 1) (Function.update pid t i)
      (Function.update est t x) gone' exits waits := by
  have hmem : ∀ u, u ∈ all ++ [t] → u ∈ all ∨ u = t := by
    intro u hu
    rwa [List.mem_append, List.mem_singleton] at hu
  have hne : ∀ u, u ∈ all → u ≠ t := fun u hu hc => hnew (hc ▸ hu)
  have hold : ∀ u, u ∈ all → Function.update life t next u = life u :=
    fun u hu => Function.update_of_ne (hne u hu) _ _
  refine ⟨?_, ?_, ?_, h.exits_nodup, ?_, ?_, ?_, h.waits_nodup, h.returned⟩
  · intro u v hu hv heq
    -- The new life is the next one, so it is different from all others.
    rcases hmem u hu with hu' | hut <;> rcases hmem v hv with hv' | hvt
    · rw [hold u hu', hold v hv'] at heq
      exact h.lives u v hu' hv' heq
    · rw [hold u hu', hvt, Function.update_self] at heq
      have := h.life_lt u hu'
      omega
    · rw [hold v hv', hut, Function.update_self] at heq
      have := h.life_lt v hv'
      omega
    · rw [hut, hvt]
  · intro u hu
    rcases hmem u hu with hu' | rfl
    · rw [hold u hu']
      have := h.life_lt u hu'
      omega
    · rw [Function.update_self]
      omega
  · intro y hy
    have := h.exits_lt y hy
    omega
  · intro u hu hn y hy
    rcases hmem u hu with hu' | rfl
    · rw [hold u hu']
      exact h.here u hu' (fun hc => hn ((hg u hu').mpr hc)) y hy
    · rw [Function.update_self]
      have := h.exits_lt y hy
      omega
  · intro u hu hgu
    rcases hmem u hu with hu' | rfl
    · rcases h.exited u hu' ((hg u hu').mp hgu) with ⟨y, hy, h1, h2, h3⟩
      refine ⟨y, hy, ?_, ?_, ?_⟩
      · rw [hold u hu', h1]
      · rw [Function.update_of_ne (hne u hu'), h2]
      · rw [Function.update_of_ne (hne u hu'), h3]
    · exact absurd hgu ht
  · intro w hw
    have hlt := (h.reaped w hw).1
    refine ⟨by omega, fun u hu => ?_⟩
    rcases hmem u hu with hu' | rfl
    · rw [hold u hu']
      exact (h.reaped w hw).2 u hu'
    · rw [Function.update_self]
      omega

/-- A process exits. -/
theorem exit (h : History all life next pid est gone exits waits) {cur : T} (hcur : cur ∈ all)
    (hhere : ¬ gone cur) (s : BitVec 32) {gone' : T → Prop}
    (hg : ∀ u, u ∈ all → (gone' u ↔ u = cur ∨ gone u)) :
    History all life next pid (Function.update est cur (s.setWidth 8)) gone'
      (⟨life cur, pid cur, s⟩ :: exits) waits := by
  refine ⟨h.lives, h.life_lt, ?_, ?_, ?_, ?_, h.reaped, h.waits_nodup, ?_⟩
  · intro y hy
    rcases List.mem_cons.mp hy with rfl | hy'
    · exact h.life_lt cur hcur
    · exact h.exits_lt y hy'
  · refine List.nodup_cons.mpr ⟨?_, h.exits_nodup⟩
    rw [List.mem_map]
    rintro ⟨y, hy, heq⟩
    exact h.here cur hcur hhere y hy heq
  · intro u hu hn y hy
    have hn' : u ≠ cur ∧ ¬ gone u := by
      rw [hg u hu] at hn
      exact not_or.mp hn
    rcases List.mem_cons.mp hy with rfl | hy'
    · exact fun heq => hn'.1 (h.lives cur u hcur hu heq).symm
    · exact h.here u hu hn'.2 y hy'
  · -- The process that exits has the new entry; the others keep theirs.
    intro u hu hgu
    by_cases huc : u = cur
    · rw [huc]
      exact ⟨_, List.mem_cons_self, rfl, rfl, Function.update_self _ _ _⟩
    · rcases h.exited u hu (((hg u hu).mp hgu).resolve_left huc) with ⟨y, hy, h1, h2, h3⟩
      exact ⟨y, List.mem_cons_of_mem _ hy, h1, h2, by rw [Function.update_of_ne huc, h3]⟩
  · intro w hw
    rcases h.returned w hw with ⟨hpar, y, hy, hrest⟩
    exact ⟨hpar, y, List.mem_cons_of_mem _ hy, hrest⟩

/-- A process that is gone is returned to its parent. -/
theorem reap (h : History all life next pid est gone exits waits) (hnd : all.Nodup) {c : T}
    (hc : c ∈ all) (hgone : gone c) {caller : Nat} {parent : Int} (hpar : parent = caller)
    {gone' : T → Prop} (hg : ∀ u, u ∈ all.erase c → (gone' u ↔ gone u)) :
    History (all.erase c) life next pid est gone' exits
      (⟨life c, caller, parent, pid c, (est c).signExtend 32⟩ :: waits) := by
  have hmem : ∀ u, u ∈ all.erase c → u ≠ c ∧ u ∈ all := fun u hu => hnd.mem_erase_iff.mp hu
  refine ⟨?_, ?_, h.exits_lt, h.exits_nodup, ?_, ?_, ?_, ?_, ?_⟩
  · exact fun u v hu hv => h.lives u v (hmem u hu).2 (hmem v hv).2
  · exact fun u hu => h.life_lt u (hmem u hu).2
  · exact fun u hu hn => h.here u (hmem u hu).2 (fun hgu => hn ((hg u hu).mpr hgu))
  · exact fun u hu hgu => h.exited u (hmem u hu).2 ((hg u hu).mp hgu)
  · intro w hw
    rcases List.mem_cons.mp hw with rfl | hw'
    · refine ⟨h.life_lt c hc, fun u hu heq => ?_⟩
      exact (hmem u hu).1 (h.lives u c (hmem u hu).2 hc heq)
    · exact ⟨(h.reaped w hw').1, fun u hu => (h.reaped w hw').2 u (hmem u hu).2⟩
  · refine List.nodup_cons.mpr ⟨?_, h.waits_nodup⟩
    rw [List.mem_map]
    rintro ⟨w, hw, heq⟩
    exact (h.reaped w hw).2 c hc heq.symm
  · intro w hw
    rcases List.mem_cons.mp hw with rfl | hw'
    · rcases h.exited c hc hgone with ⟨y, hy, h1, h2, h3⟩
      exact ⟨hpar, y, hy, h1, h2.symm, by rw [h3]⟩
    · exact h.returned w hw'

end History

/-- The history of the process table. -/
def ProcHistory (k : Procs T S P) : Prop :=
  History k.all k.life k.nextLife k.pid k.exitStatus (Gone k) k.exits k.waits

section Delivery

variable {k k' : Procs T S P}

omit [DecidableEq S] in
theorem exitEnd_history (hinv : ProcInv k) (h : ProcHistory k) (hcall : k.call k.cur = .exiting)
    (hcur : k.cur ≠ k.sched.idleThread) (hr : sysExitEnd k = .ok k') : ProcHistory k' := by
  rcases sysExitEnd_ok hinv.sched hcur hr with ⟨parent, sched, -, -, -, hall, hcalm, rfl⟩
  show History sched.threadAllList _ _ _ _ _ _ _
  rw [hall]
  refine History.congr h (fun u _ => ?_)
  have hst := hcalm.eq_iff not_active_hanging u
  show Function.update k.call k.cur .none u = .exiting ∨ statusOf sched u = .hanging ↔ _
  rw [hst]
  by_cases hu : u = k.cur
  · rw [hu, Function.update_self, Function.update_self]
    exact ⟨fun _ => Or.inl hcall, fun _ => Or.inr rfl⟩
  · rw [Function.update_of_ne hu, Function.update_of_ne hu, wakeIfWaiting_hanging]
    rfl

omit [DecidableEq S] in
theorem exitBegin_history {status : BitVec 32} (hinv : ProcInv k) (h : ProcHistory k)
    (hu : InUserMode k) (hr : sysExitBegin k status = .ok k') : ProcHistory k' := by
  rcases sysExitBegin_ok hr with ⟨-, rfl⟩
  refine History.exit h hinv.sched.cur_mem (not_gone_cur hinv hu) status (fun u _ => ?_)
  show Function.update k.call k.cur .exiting u = .exiting ∨ k.status u = .hanging ↔ _
  by_cases huc : u = k.cur
  · rw [huc, Function.update_self]
    exact ⟨fun _ => Or.inl rfl, fun _ => Or.inl rfl⟩
  · rw [Function.update_of_ne huc]
    exact ⟨Or.inr, fun hc => hc.resolve_left huc⟩

omit [DecidableEq S] in
theorem fork_history {t : T} {pg : P} (hinv : ProcInv k) (h : ProcHistory k) (hnew : t ∉ k.all)
    (hr : procFork k t pg = .ok k') : ProcHistory k' := by
  rcases procFork_ok hinv.sched hnew hr with ⟨sched, i, -, -, hall, hst, rfl⟩
  show History sched.threadAllList _ _ _ _ _ _ _
  rw [hall]
  have hgone : ∀ u, (Function.update k.call t .none u = .exiting ∨ statusOf sched u = .hanging) ↔
      (Function.update k.call t .none u = .exiting ∨
        Function.update k.status t .ready u = .hanging) := by
    intro u
    rw [hst]
  refine History.fork h hnew ?_ (fun u hu => ?_)
  · intro hc
    have hc' := (hgone t).mp hc
    rw [Function.update_self, Function.update_self] at hc'
    rcases hc' with hc' | hc' <;> cases hc'
  · have hut : u ≠ t := fun heq => hnew (heq ▸ hu)
    refine (hgone u).trans ?_
    rw [Function.update_of_ne hut, Function.update_of_ne hut]
    rfl

omit [DecidableEq S] in
theorem wait_history (hinv : ProcInv k) (h : ProcHistory k) (hcur : k.cur ≠ k.sched.idleThread)
    (hcall : k.call k.cur ≠ .exiting) (hr : waitRound k = .ok k') : ProcHistory k' := by
  have hupd : ∀ {c : InCall} (u : T), c ≠ .exiting →
      (Function.update k.call k.cur c u = .exiting ↔ k.call u = .exiting) := by
    intro c u hc
    by_cases hu : u = k.cur
    · rw [hu, Function.update_self]
      exact ⟨fun heq => absurd heq hc, fun heq => absurd heq hcall⟩
    · rw [Function.update_of_ne hu]
  have hrun : k.status k.cur = .running := hinv.sched.cur_running
  rcases waitRound_ok hinv.sched hcur hr with ⟨child, hmem, hpar, hhang, rfl⟩ | rfl |
    ⟨sched, -, -, hall, hcalm, rfl⟩
  · -- A child that hangs is taken: it leaves the list of tasks, and the record keeps its status.
    refine History.reap h hinv.sched.linked.all_nodup hmem (Or.inr hhang) hpar (fun u hu => ?_)
    have hne := (hinv.sched.linked.all_nodup.mem_erase_iff.mp hu).1
    show _ ∨ statusOf (Sched.setStatus { k.sched with intr := .off } child .died) u = .hanging ↔ _
    rw [statusOf_setStatus, Function.update_of_ne hne]
    exact or_congr (hupd u (by decide)) Iff.rfl
  · exact History.congr h (fun u _ => or_congr (hupd u (by decide)) Iff.rfl)
  · show History sched.threadAllList _ _ _ _ _ _ _
    rw [hall]
    refine History.congr h (fun u _ => or_congr (hupd u (by decide)) ?_)
    refine (hcalm.eq_iff not_active_hanging u).trans ?_
    by_cases hu : u = k.cur
    · rw [hu, Function.update_self, hrun]
      simp only [reduceCtorEq]
    · rw [Function.update_of_ne hu]

/-- Every call keeps the history. -/
theorem procStep_history {e : ProcEvent T S P} (hinv : ProcInv k) (h : ProcHistory k)
    (he : procEnabled k e) (hr : procStep k e = .ok k') : ProcHistory k' := by
  cases hs : e.sched? with
  | some e' =>
      rcases procStep_switch hinv.sched he hs hr with ⟨sched, rfl, -, hsame⟩
      show History sched.threadAllList _ _ _ _ _ _ _
      rw [hsame.all]
      exact History.congr h (fun u _ => or_congr Iff.rfl
        (hsame.calmly.eq_iff not_active_hanging u))
  | none =>
      cases e with
      | fork t pg => exact fork_history hinv h he.2 hr
      | exec found =>
          cases hr
          exact h
      | exit status => exact exitBegin_history hinv h he hr
      | exitEnd => exact exitEnd_history hinv h he.1 he.2.2 hr
      | wait =>
          -- A thread that waits again or for the first time is not one that has called
          -- `sys_exit`.
          refine wait_history hinv h (wait_not_idle he) ?_ hr
          rcases he with hu | hw
          · rw [hu.1]
            exact fun hc => by cases hc
          · rw [hw.1]
            exact fun hc => by cases hc
      | timer => cases hs
      | idle => cases hs
      | yield => cases hs
      | down s => cases hs
      | resume => cases hs
      | up s => cases hs

omit [DecidableEq T] [DecidableEq S] in
theorem procInit_history (h : procInit k) : ProcHistory k := by
  have hgone := fun t ht => procInit_not_gone h (t := t) ht
  rcases h with ⟨init, main, idle, -, -, -, -, -, -, -, -, -, -, -, -, hlt, hlives, hexits, hwaits⟩
  unfold ProcHistory
  rw [hexits, hwaits]
  refine ⟨hlives, hlt, ?_, List.nodup_nil, ?_, fun t ht hg => absurd hg (hgone t ht), ?_,
    List.nodup_nil, ?_⟩
  · exact fun x hx => absurd hx List.not_mem_nil
  · exact fun t _ _ x hx => absurd hx List.not_mem_nil
  · exact fun w hw => absurd hw List.not_mem_nil
  · exact fun w hw => absurd hw List.not_mem_nil

end Delivery

/-- No process is returned twice. The task that `sys_wait` returned a process to
    was its parent then, and the pid and the status it got are those of the
    one call of `sys_exit` by that process. -/
def Delivered (k : Procs T S P) : Prop :=
  (k.waits.map WaitRecord.life).Nodup ∧ (k.exits.map ExitRecord.life).Nodup ∧
    ∀ w, w ∈ k.waits → w.parentPid = w.caller ∧
      ∃ x, x ∈ k.exits ∧ x.life = w.life ∧ w.result = x.pid ∧ w.status = x.status

/-- A process exits with a status that fits. -/
def FittingExit (_ : Procs T S P) : ProcEvent T S P → Prop
  | .exit s => FitsStatus s
  | _ => True

/-- The statuses passed so far fit. -/
def ExitsFit (k : Procs T S P) : Prop := ∀ x, x ∈ k.exits → FitsStatus x.status

theorem procStep_exitsFit {k k' : Procs T S P} {e : ProcEvent T S P} (hinv : ProcInv k)
    (h : ExitsFit k) (he : procEnabled k e) (hf : FittingExit k e) (hr : procStep k e = .ok k') :
    ExitsFit k' := by
  cases hs : e.sched? with
  -- The scheduler does not touch the record of exits.
  | some e' =>
      rcases procStep_switch hinv.sched he hs hr with ⟨sched, rfl, -, -⟩
      exact h
  | none =>
      cases e with
      | fork t pg =>
          rcases procFork_ok hinv.sched he.2 hr with ⟨sched, i, -, -, -, -, rfl⟩
          exact h
      | exec found =>
          cases hr
          exact h
      | exit status =>
          rcases sysExitBegin_ok hr with ⟨-, rfl⟩
          -- The status that `sys_exit` adds is the one the condition speaks of.
          intro x hx
          rcases List.mem_cons.mp hx with rfl | hx'
          · exact hf
          · exact h x hx'
      | exitEnd =>
          rcases sysExitEnd_ok hinv.sched he.2.2 hr with ⟨parent, sched, -, -, -, -, -, rfl⟩
          exact h
      | wait =>
          rcases waitRound_ok hinv.sched (wait_not_idle he) hr with ⟨child, -, -, -, rfl⟩ | rfl |
            ⟨sched, -, -, -, -, rfl⟩
          · exact h
          · exact h
          · exact h
      | timer => cases hs
      | idle => cases hs
      | yield => cases hs
      | down s => cases hs
      | resume => cases hs
      | up s => cases hs

/-- In every run in which the statuses passed to `sys_exit` fit into eight
    bits, `sys_wait` returns every process at most once, to its parent, with
    its pid and with the status it passed. -/
theorem exit_status_delivered (k : Procs T S P)
    (h : ((procSystem T S P).restrict FittingExit).Reachable k) : Delivered k := by
  have hall : ProcInv k ∧ ProcHistory k ∧ ExitsFit k := by
    refine System.invariant_of_step _ (fun k => ProcInv k ∧ ProcHistory k ∧ ExitsFit k) ?_ ?_ k h
    · intro k₀ hk₀
      refine ⟨procInit_inv hk₀, procInit_history hk₀, ?_⟩
      rcases hk₀ with ⟨init, main, idle, -, -, -, -, -, -, -, -, -, -, -, -, -, -, hexits, -⟩
      intro x hx
      rw [hexits] at hx
      exact absurd hx List.not_mem_nil
    · rintro k₁ e k₂ ⟨hinv, hist, hfit⟩ he hr
      exact ⟨procStep_inv hinv he.1 hr, procStep_history hinv hist he.1 hr,
        procStep_exitsFit hinv hfit he.1 he.2 hr⟩
  rcases hall with ⟨-, hist, hfit⟩
  refine ⟨hist.waits_nodup, hist.exits_nodup, fun w hw => ?_⟩
  rcases hist.returned w hw with ⟨hpar, x, hx, h1, h2, h3⟩
  exact ⟨hpar, x, hx, h1, h2, by rw [h3, (hfit x hx).signExtend]⟩

section Runs

instance (s : BitVec 32) : Decidable (FitsStatus s) := inferInstanceAs (Decidable (_ ∧ _))

instance (k : Procs T S P) (e : ProcEvent T S P) : Decidable (FittingExit k e) :=
  match e with
  | .exit s => inferInstanceAs (Decidable (FitsStatus s))
  | .timer | .idle | .yield | .down _ | .resume | .up _ | .fork _ _ | .exec _ | .exitEnd | .wait =>
      isTrue trivial

/-- A child exits with 7, and `init` gets it. -/
theorem exit_status_delivered_seven :
    Delivered ((procSystem Nat Nat Nat).after bootProcs (exitToWaiting 7 ++ [.wait])) := by
  refine exit_status_delivered _ (((procSystem Nat Nat Nat).restrict FittingExit).reachable_after _
    (.init _ bootProcs_init) ?_)
  exact (procSystem Nat Nat Nat).runs_restrict FittingExit (by decide +kernel) (by decide +kernel)

/-- A child exits with 128, and `init` gets -128. -/
theorem exit_status_truncated :
    (procSystem Nat Nat Nat).Reachable
        ((procSystem Nat Nat Nat).after bootProcs (exitToWaiting 128 ++ [.wait])) ∧
      ¬ Delivered ((procSystem Nat Nat Nat).after bootProcs (exitToWaiting 128 ++ [.wait])) := by
  set k := (procSystem Nat Nat Nat).after bootProcs (exitToWaiting 128 ++ [.wait]) with hk
  constructor
  · exact (procSystem Nat Nat Nat).reachable_after _ (.init _ bootProcs_init) (by decide +kernel)
  · rintro ⟨-, -, hall⟩
    have hwaits : k.waits.map WaitRecord.status = [BitVec.ofInt 32 (-128)] := by decide +kernel
    have hexits : k.exits.map ExitRecord.status = [128] := by decide +kernel
    have hlen : k.waits ≠ [] := by
      intro hc
      rw [hc] at hwaits
      cases hwaits
    have hw := hall _ (List.head_mem hlen)
    rcases hw with ⟨-, x, hx, -, -, hstatus⟩
    have h1 : (k.waits.head hlen).status ∈ [BitVec.ofInt 32 (-128)] := by
      rw [← hwaits]
      exact List.mem_map_of_mem (List.head_mem hlen)
    have h2 : x.status ∈ [(128 : BitVec 32)] := by
      rw [← hexits]
      exact List.mem_map_of_mem hx
    rw [hstatus, List.mem_singleton.mp h2] at h1
    exact absurd h1 (by decide)

end Runs

end ForikOS
