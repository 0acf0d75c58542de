import ForikOS.Core.Thread
import Mathlib.Data.List.Nodup
import Mathlib.Data.List.Perm.Basic

/-!
# The Scheduler Invariant

One tag links a task into the ready list and into the waiters of every
semaphore, and some ten operations move it. What keeps them in step is a
relation between the statuses and the lists, `Linked`: the ready list holds
the ready tasks, each once; a waiter is blocked, waits for one semaphore, and
is not the idle task.

`Linked` takes the statuses and lists as arguments rather than a state, so a
lemma about moving one tag says nothing about the fields it leaves alone.
There is one such lemma for each way a tag moves, and every operation of the
scheduler is a composition of them.

The processor changes hands in the middle of `schedule`, and at that point no
task is running. `Parked` is the invariant there and `SchedInv` the one
between steps. `schedule_parked` takes the first to the second: with an empty
ready list the idle task is neither ready nor running, so it is blocked, and
the `thread_unblock` that wakes it cannot fail.

The functions of the scheduler never fail an assertion. The semaphore operations
and the creation of tasks have assertions of their own, which are about other
things; where one of those fails the machine stops, and the step has no next
state.

## Main definitions

* `statusOf`: The statuses of all tasks.
* `Linked`: The statuses agree with the lists.
* `Parked`: The invariant while no task is running.
* `SchedInv`: The invariant between steps.
* `InScheduler`: The functions whose assertions are at stake.

## Theorems

* `schedule_parked`: Choosing the next task restores the invariant.
* `schedStep_inv`: A step keeps the invariant or fails elsewhere.
* `scheduler_invariant`: The invariant and its consequences in every
  reachable state.
-/

namespace ForikOS

variable {T S P : Type} [DecidableEq T] [DecidableEq S]

/-- The statuses of all tasks. -/
def statusOf (k : Sched T S P) : T → TaskStatus := fun t => (k.task t).status

/-- The lists of waiters of all semaphores. -/
def waitersOf (k : Sched T S P) : S → List T := fun s => (k.sema s).waiters

/-- The three statuses `thread_block` gives. -/
def IsBlocked (st : TaskStatus) : Prop := st = .blocked ∨ st = .waiting ∨ st = .hanging

/-- The statuses of the tasks agree with the lists their tags are in. -/
structure Linked (st : T → TaskStatus) (all ready : List T) (w : S → List T) (idle : T) :
    Prop where
  all_nodup : all.Nodup
  ready_nodup : ready.Nodup
  mem_ready : ∀ t, t ∈ ready ↔ t ∈ all ∧ st t = .ready
  waiters_nodup : ∀ s, (w s).Nodup
  waiters_blocked : ∀ s t, t ∈ w s → t ∈ all ∧ st t = .blocked ∧ t ≠ idle
  waiters_unique : ∀ s s' t, t ∈ w s → t ∈ w s' → s = s'
  idle_mem : idle ∈ all
  idle_status : st idle = .running ∨ st idle = .ready ∨ st idle = .blocked

namespace Linked

variable {st : T → TaskStatus} {all ready : List T} {w : S → List T} {idle t : T}

omit [DecidableEq T] [DecidableEq S] in
/-- A task that is not blocked waits for no semaphore. -/
theorem not_waiting (h : Linked st all ready w idle) (ht : st t ≠ .blocked) (s : S) :
    t ∉ w s := by
  intro hc
  exact ht (h.waiters_blocked s t hc).2.1

omit [DecidableEq T] [DecidableEq S] in
/-- A task that is not ready is not in the ready list. -/
theorem not_mem_ready (h : Linked st all ready w idle) (ht : st t ≠ .ready) : t ∉ ready := by
  intro hc
  exact ht ((h.mem_ready t).mp hc).2

omit [DecidableEq S] in
/-- The running task blocks, joining no list. -/
theorem block (h : Linked st all ready w idle) (hrun : st t = .running) {new : TaskStatus}
    (hnew : IsBlocked new) (hidle : t = idle → new = .blocked) :
    Linked (Function.update st t new) all ready w idle := by
  have hnr : new ≠ .ready := by
    rcases hnew with h | h | h <;> rw [h] <;> exact fun hc => by cases hc
  refine { h with mem_ready := ?_, waiters_blocked := ?_, idle_status := ?_ }
  · intro u
    by_cases hu : u = t
    · rw [hu, Function.update_self]
      have hnot := h.not_mem_ready (t := t) (by rw [hrun]; exact fun hc => by cases hc)
      exact ⟨fun hc => absurd hc hnot, fun hc => absurd hc.2 hnr⟩
    · rw [Function.update_of_ne hu]
      exact h.mem_ready u
  · intro s u hu
    have hut : u ≠ t := by
      rintro rfl
      exact h.not_waiting (by rw [hrun]; exact fun hc => by cases hc) s hu
    rw [Function.update_of_ne hut]
    exact h.waiters_blocked s u hu
  · by_cases hi : idle = t
    · rw [hi, Function.update_self]
      exact Or.inr (Or.inr (hidle hi.symm))
    · rw [Function.update_of_ne hi]
      exact h.idle_status

/-- The running task joins the waiters of a semaphore and blocks. -/
theorem wait (h : Linked st all ready w idle) (hrun : st t = .running) (hmem : t ∈ all)
    (hidle : t ≠ idle) (s : S) :
    Linked (Function.update st t .blocked) all ready (Function.update w s (w s ++ [t])) idle := by
  have hb := h.block hrun (Or.inl rfl) (fun _ => rfl)
  have hnot : ∀ s, t ∉ w s := h.not_waiting (by rw [hrun]; exact fun hc => by cases hc)
  refine { hb with waiters_nodup := ?_, waiters_blocked := ?_, waiters_unique := ?_ }
  · -- The lists stay without repetition, as the caller was in none.
    intro s'
    by_cases hs : s' = s
    · rw [hs, Function.update_self]
      refine List.nodup_append.mpr ⟨h.waiters_nodup s, List.nodup_singleton t, ?_⟩
      rintro a ha b hb rfl
      rw [List.mem_singleton] at hb
      exact hnot s (hb ▸ ha)
    · rw [Function.update_of_ne hs]
      exact h.waiters_nodup s'
  · intro s' u hu
    by_cases hut : u = t
    · rw [hut, Function.update_self]
      exact ⟨hmem, rfl, hidle⟩
    · refine hb.waiters_blocked s' u ?_
      by_cases hs : s' = s
      · rw [hs, Function.update_self, List.mem_append, List.mem_singleton] at hu
        rw [hs]
        exact hu.resolve_right hut
      · rwa [Function.update_of_ne hs] at hu
  · -- Only the new waiter is in a list it was not in before, and it was in none.
    have hcase : ∀ s' u, u ∈ Function.update w s (w s ++ [t]) s' → u ∈ w s' ∨ (u = t ∧ s' = s) := by
      intro s' u hu
      by_cases hs : s' = s
      · rw [hs, Function.update_self, List.mem_append, List.mem_singleton] at hu
        rw [hs]
        exact hu.imp_right (fun hc => ⟨hc, rfl⟩)
      · rw [Function.update_of_ne hs] at hu
        exact Or.inl hu
    intro s₁ s₂ u h1 h2
    rcases hcase s₁ u h1 with m1 | ⟨hu1, e1⟩
    · rcases hcase s₂ u h2 with m2 | ⟨hu2, _⟩
      · exact h.waiters_unique s₁ s₂ u m1 m2
      · exact absurd (hu2 ▸ m1) (hnot s₁)
    · rcases hcase s₂ u h2 with m2 | ⟨_, e2⟩
      · exact absurd (hu1 ▸ m2) (hnot s₂)
      · rw [e1, e2]

omit [DecidableEq S] in
/-- A task outside the ready list that waits for nothing is put in it. -/
theorem makeReady (h : Linked st all ready w idle) {ready' : List T} (hmem : t ∈ all)
    (hst : st t ≠ .ready) (hw : ∀ s, t ∉ w s) (hperm : ready'.Perm (t :: ready)) :
    Linked (Function.update st t .ready) all ready' w idle := by
  have hnot := h.not_mem_ready hst
  refine { h with ready_nodup := ?_, mem_ready := ?_, waiters_blocked := ?_, idle_status := ?_ }
  · exact hperm.nodup_iff.mpr (List.nodup_cons.mpr ⟨hnot, h.ready_nodup⟩)
  · intro u
    rw [hperm.mem_iff, List.mem_cons]
    by_cases hu : u = t
    · rw [hu, Function.update_self]
      exact ⟨fun _ => ⟨hmem, rfl⟩, fun _ => Or.inl rfl⟩
    · rw [Function.update_of_ne hu, ← h.mem_ready u]
      simp only [hu, false_or]
  · intro s u hu
    have hut : u ≠ t := fun hc => hw s (hc ▸ hu)
    rw [Function.update_of_ne hut]
    exact h.waiters_blocked s u hu
  · by_cases hi : idle = t
    · rw [hi, Function.update_self]
      exact Or.inr (Or.inl rfl)
    · rw [Function.update_of_ne hi]
      exact h.idle_status

omit [DecidableEq T] in
/-- The first waiter of a semaphore leaves its list and is in no other. -/
theorem pop (h : Linked st all ready w idle) {s : S} {rest : List T} (hw : w s = t :: rest) :
    Linked st all ready (Function.update w s rest) idle ∧
      ∀ s', t ∉ Function.update w s rest s' := by
  -- No list of waiters has got anything new.
  have hsub : ∀ s' u, u ∈ Function.update w s rest s' → u ∈ w s' := by
    intro s' u hu
    by_cases hs : s' = s
    · rw [hs, Function.update_self] at hu
      rw [hs, hw]
      exact List.mem_cons_of_mem t hu
    · rwa [Function.update_of_ne hs] at hu
  have hnd := h.waiters_nodup s
  rw [hw, List.nodup_cons] at hnd
  constructor
  · refine { h with waiters_nodup := ?_, waiters_blocked := ?_, waiters_unique := ?_ }
    · intro s'
      by_cases hs : s' = s
      · rw [hs, Function.update_self]
        exact hnd.2
      · rw [Function.update_of_ne hs]
        exact h.waiters_nodup s'
    · exact fun s' u hu => h.waiters_blocked s' u (hsub s' u hu)
    · exact fun s₁ s₂ u h1 h2 => h.waiters_unique s₁ s₂ u (hsub s₁ u h1) (hsub s₂ u h2)
  · intro s' hu
    have hs : s' = s := h.waiters_unique s' s t (hsub s' t hu) (by rw [hw]; exact List.mem_cons_self)
    rw [hs, Function.update_self] at hu
    exact hnd.1 hu

omit [DecidableEq S] in
/-- The head of the ready list gets the processor. -/
theorem dispatch {rest : List T} (h : Linked st all (t :: rest) w idle) :
    Linked (Function.update st t .running) all rest w idle := by
  have hnd := List.nodup_cons.mp h.ready_nodup
  have hready : st t = .ready := ((h.mem_ready t).mp List.mem_cons_self).2
  refine { h with ready_nodup := hnd.2, mem_ready := ?_, waiters_blocked := ?_, idle_status := ?_ }
  · intro u
    by_cases hu : u = t
    · rw [hu, Function.update_self]
      exact ⟨fun hc => absurd hc hnd.1, fun hc => by cases hc.2⟩
    · rw [Function.update_of_ne hu, ← h.mem_ready u, List.mem_cons]
      simp only [hu, false_or]
  · intro s u hu
    have hut : u ≠ t := by
      rintro rfl
      exact h.not_waiting (by rw [hready]; exact fun hc => by cases hc) s hu
    rw [Function.update_of_ne hut]
    exact h.waiters_blocked s u hu
  · by_cases hi : idle = t
    · rw [hi, Function.update_self]
      exact Or.inl rfl
    · rw [Function.update_of_ne hi]
      exact h.idle_status

omit [DecidableEq S] in
/-- A new task enters the ready list and the list of all tasks. -/
theorem enter (h : Linked st all ready w idle) (hnew : t ∉ all) :
    Linked (Function.update st t .ready) (all ++ [t]) (ready ++ [t]) w idle := by
  have hnr : t ∉ ready := fun hc => hnew ((h.mem_ready t).mp hc).1
  -- At the end of a list it was not in, the new thread leaves the list without duplicates.
  have happ : ∀ l : List T, l.Nodup → t ∉ l → (l ++ [t]).Nodup := by
    intro l hl ht
    refine List.nodup_append.mpr ⟨hl, List.nodup_singleton t, ?_⟩
    rintro a ha b hb rfl
    rw [List.mem_singleton] at hb
    exact ht (hb ▸ ha)
  refine ⟨happ all h.all_nodup hnew, happ ready h.ready_nodup hnr, ?_, h.waiters_nodup, ?_,
    h.waiters_unique, List.mem_append.mpr (Or.inl h.idle_mem), ?_⟩
  · intro u
    rw [List.mem_append, List.mem_append, List.mem_singleton]
    by_cases hu : u = t
    · rw [hu, Function.update_self]
      simp only [or_true, and_self]
    · rw [Function.update_of_ne hu, h.mem_ready u]
      simp only [hu, or_false]
  · intro s u hu
    have hb := h.waiters_blocked s u hu
    have hut : u ≠ t := fun hc => hnew (hc ▸ hb.1)
    rw [Function.update_of_ne hut]
    exact ⟨List.mem_append.mpr (Or.inl hb.1), hb.2⟩
  · have hi : idle ≠ t := fun hc => hnew (hc ▸ h.idle_mem)
    rw [Function.update_of_ne hi]
    exact h.idle_status

omit [DecidableEq S] in
/-- A hanging task leaves the list of all tasks. -/
theorem leave (h : Linked st all ready w idle) (hst : st t = .hanging) :
    Linked (Function.update st t .died) (all.erase t) ready w idle := by
  -- The idle task never hangs.
  have hi : idle ≠ t := by
    rintro rfl
    rcases h.idle_status with hc | hc | hc <;> rw [hst] at hc <;> cases hc
  have hmem : ∀ u, u ∈ all.erase t ↔ u ≠ t ∧ u ∈ all := fun u => h.all_nodup.mem_erase_iff
  refine ⟨h.all_nodup.erase t, h.ready_nodup, ?_, h.waiters_nodup, ?_, h.waiters_unique,
    (hmem idle).mpr ⟨hi, h.idle_mem⟩, ?_⟩
  · intro u
    rw [hmem u]
    by_cases hu : u = t
    · rw [hu, Function.update_self]
      have hnot := h.not_mem_ready (t := t) (by rw [hst]; exact fun hc => by cases hc)
      exact ⟨fun hc => absurd hc hnot, fun hc => by cases hc.2⟩
    · rw [Function.update_of_ne hu, h.mem_ready u]
      simp only [ne_eq, hu, not_false_eq_true, true_and]
  · intro s u hu
    have hb := h.waiters_blocked s u hu
    have hut : u ≠ t := by
      rintro rfl
      rw [hst] at hb
      cases hb.2.1
    rw [Function.update_of_ne hut, hmem u]
    exact ⟨⟨hut, hb.1⟩, hb.2⟩
  · rw [Function.update_of_ne hi]
    exact h.idle_status

end Linked

/-- The lists and statuses of a state agree. -/
def LinkedState (k : Sched T S P) : Prop :=
  Linked (statusOf k) k.threadAllList k.threadReadyList (waitersOf k) k.idleThread

/-- In the middle of `schedule`: interrupts are off and no task is running. -/
structure Parked (k : Sched T S P) : Prop where
  linked : LinkedState k
  intr_off : k.intr = .off
  none_running : ∀ t, t ∈ k.threadAllList → statusOf k t ≠ .running
  idle_calm : k.inSemaDown k.idleThread = none

/-- Between steps: exactly the current task is running. -/
structure SchedInv (k : Sched T S P) : Prop where
  linked : LinkedState k
  cur_mem : k.cur ∈ k.threadAllList
  cur_running : statusOf k k.cur = .running
  running_cur : ∀ t, t ∈ k.threadAllList → statusOf k t = .running → t = k.cur
  idle_calm : k.inSemaDown k.idleThread = none

/-- The functions whose assertions are at stake. -/
def InScheduler (f : Func) : Prop :=
  f = .schedule ∨ f = .threadBlock ∨ f = .threadUnblock ∨ f = .threadYield

omit [DecidableEq S] in
@[simp] theorem statusOf_setTask (k : Sched T S P) (t : T) (v : Task P) :
    statusOf (k.setTask t v) = Function.update (statusOf k) t v.status := by
  funext u
  by_cases hu : u = t
  · simp only [statusOf, Sched.setTask, hu, Function.update_self]
  · simp only [statusOf, Sched.setTask, Function.update_of_ne hu]

omit [DecidableEq S] in
@[simp] theorem statusOf_setStatus (k : Sched T S P) (t : T) (st : TaskStatus) :
    statusOf (k.setStatus t st) = Function.update (statusOf k) t st :=
  statusOf_setTask k t _

omit [DecidableEq T] in
@[simp] theorem waitersOf_update (k : Sched T S P) (s : S) (p : Semaphore T) :
    waitersOf { k with sema := Function.update k.sema s p } =
      Function.update (waitersOf k) s p.waiters := by
  funext s'
  by_cases hs : s' = s
  · simp only [waitersOf, hs, Function.update_self]
  · simp only [waitersOf, Function.update_of_ne hs]

omit [DecidableEq T] [DecidableEq S] in
/-- A state is linked when its own statuses and lists are. -/
theorem linkedState_of {k : Sched T S P} {st : T → TaskStatus} {all ready : List T}
    {w : S → List T} {idle : T} (h : Linked st all ready w idle) (hst : statusOf k = st)
    (hall : k.threadAllList = all) (hready : k.threadReadyList = ready) (hw : waitersOf k = w)
    (hidle : k.idleThread = idle) : LinkedState k := by
  unfold LinkedState
  rw [hst, hall, hready, hw, hidle]
  exact h

omit [DecidableEq S] in
/-- `thread_unblock` succeeds on a blocked task, which goes to the head of the
    ready list. -/
theorem threadUnblock_blocked {k : Sched T S P} {t : T} (h : LinkedState k)
    (hst : IsBlocked (statusOf k t)) :
    threadUnblock k t
      = .ok ({ k with threadReadyList := t :: k.threadReadyList }.setStatus t .ready) := by
  have hnr : (k.task t).status ≠ .ready := by
    rcases hst with hc | hc | hc <;> (rw [statusOf] at hc; rw [hc]; exact fun hr => by cases hr)
  have hnot : t ∉ k.threadReadyList := h.not_mem_ready hnr
  have hst' : (k.task t).status = .blocked ∨ (k.task t).status = .waiting ∨
      (k.task t).status = .hanging := hst
  simp only [threadUnblock, ensure, hst', bind, Except.bind, ne_eq, hnr, not_false_eq_true,
    if_true, hnot]

omit [DecidableEq S] in
/-- Choosing the head of a non-empty ready list restores the invariant. -/
theorem scheduleIn_parked {k : Sched T S P} (h : Parked k) (hne : k.threadReadyList ≠ []) :
    ∃ k', scheduleIn k = .ok k' ∧ SchedInv k' := by
  cases hr : k.threadReadyList with
  | nil => exact absurd hr hne
  | cons next rest =>
      have hl : Linked (statusOf k) k.threadAllList (next :: rest) (waitersOf k) k.idleThread := by
        rw [← hr]
        exact h.linked
      have hmem : next ∈ k.threadAllList := ((hl.mem_ready next).mp List.mem_cons_self).1
      -- The first one in the line is taken off it and runs.
      have hstep : ∃ k', scheduleIn k = .ok k' ∧ k'.cur = next ∧
          statusOf k' = Function.update (statusOf k) next .running ∧
          k'.threadAllList = k.threadAllList ∧ k'.threadReadyList = rest ∧
          waitersOf k' = waitersOf k ∧ k'.idleThread = k.idleThread ∧
          k'.inSemaDown = k.inSemaDown := by
        have hin : scheduleIn k = .ok
            { processActivate ({ k with threadReadyList := rest }.setStatus next .running) next with
              cur := next, intr := k.oldStatus next } := by
          unfold scheduleIn
          rw [hr]
          rfl
        refine ⟨_, hin, rfl, ?_, rfl, rfl, rfl, rfl, rfl⟩
        exact statusOf_setStatus { k with threadReadyList := rest } next .running
      rcases hstep with ⟨k', hk', hcur, hst, hall, hrest, hw, hidle, hdown⟩
      refine ⟨k', hk', linkedState_of hl.dispatch hst hall hrest hw hidle, ?_, ?_, ?_, ?_⟩
      · rw [hcur, hall]
        exact hmem
      · rw [hcur, hst, Function.update_self]
      · intro t ht hrun
        by_contra hne'
        rw [hst, Function.update_of_ne (hcur ▸ hne')] at hrun
        exact h.none_running t (hall ▸ ht) hrun
      · rw [hdown, hidle]
        exact h.idle_calm

omit [DecidableEq S] in
/-- The rest of `schedule` once the caller is off the processor. With nothing
    ready the idle task is blocked, so waking it succeeds. -/
theorem schedule_parked {k : Sched T S P} (h : Parked k) (hcur : statusOf k k.cur ≠ .running) :
    ∃ k', schedule k = .ok k' ∧ SchedInv k' := by
  have hout : scheduleOut k = .ok k := by
    have : (k.task k.cur).status ≠ .running := hcur
    simp only [scheduleOut, this, if_false]
  by_cases hr : k.threadReadyList = []
  · -- With nothing ready the idle task is neither running nor ready.
    have hblocked : statusOf k k.idleThread = .blocked := by
      rcases h.linked.idle_status with hc | hc | hc
      · exact absurd hc (h.none_running _ h.linked.idle_mem)
      · have := (h.linked.mem_ready k.idleThread).mpr ⟨h.linked.idle_mem, hc⟩
        rw [hr] at this
        exact absurd this List.not_mem_nil
      · exact hc
    have hidle : ∀ s, k.idleThread ∉ waitersOf k s := by
      intro s hc
      exact (h.linked.waiters_blocked s _ hc).2.2 rfl
    have hunb := threadUnblock_blocked h.linked (Or.inl hblocked)
    have hready := h.linked.makeReady h.linked.idle_mem
      (by rw [hblocked]; exact fun hc => by cases hc) hidle (List.Perm.refl _)
    have hp : Parked ({ k with threadReadyList := k.idleThread :: k.threadReadyList }.setStatus
        k.idleThread .ready) := by
      refine ⟨linkedState_of hready (statusOf_setStatus _ _ _) rfl rfl rfl rfl, h.intr_off, ?_,
        h.idle_calm⟩
      intro t ht
      rw [statusOf_setStatus]
      by_cases hti : t = k.idleThread
      · rw [hti, Function.update_self]
        exact fun hc => by cases hc
      · rw [Function.update_of_ne hti]
        exact h.none_running t ht
    rcases scheduleIn_parked hp (List.cons_ne_nil _ _) with ⟨k', hk', hinv⟩
    refine ⟨k', ?_, hinv⟩
    simp only [schedule, ensure, h.intr_off, if_true, bind, Except.bind, hout, hr, hunb]
    rw [← hk', hr, h.intr_off]
  · rcases scheduleIn_parked h hr with ⟨k', hk', hinv⟩
    refine ⟨k', ?_, hinv⟩
    simp only [schedule, ensure, h.intr_off, if_true, bind, Except.bind, hout, hr, if_false]
    exact hk'

omit [DecidableEq S] in
/-- `schedule` on a running task whose time slice is over. The task itself is
    then in the ready list, so there is no need for the idle task. -/
theorem schedule_running {k : Sched T S P} (h : SchedInv k) (hoff : k.intr = .off) :
    ∃ k', schedule k = .ok k' ∧ SchedInv k' := by
  have hrun : (k.task k.cur).status = .running := h.cur_running
  have hne : statusOf k k.cur ≠ .ready := by
    rw [h.cur_running]
    exact fun hc => by cases hc
  have hnb : statusOf k k.cur ≠ .blocked := by
    rw [h.cur_running]
    exact fun hc => by cases hc
  have hnot : k.cur ∉ k.threadReadyList := h.linked.not_mem_ready hne
  set v : Task P := { k.task k.cur with ticks := (k.task k.cur).priority, status := .ready } with hv
  set k₁ := { k with threadReadyList := k.threadReadyList ++ [k.cur] }.setTask k.cur v with hk₁
  -- The running thread goes to the end of the ready list.
  have hout : scheduleOut k = .ok k₁ := by
    simp only [scheduleOut, hrun, if_true, ensure, hnot, not_false_eq_true, bind, Except.bind]
    rfl
  have hst : statusOf k₁ = Function.update (statusOf k) k.cur .ready := statusOf_setTask _ _ _
  have hl := h.linked.makeReady h.cur_mem hne (h.linked.not_waiting hnb)
    (List.perm_append_singleton k.cur k.threadReadyList)
  -- In between no thread is marked running, which is what the choice of the next one starts from.
  have hp : Parked k₁ := by
    refine ⟨linkedState_of hl hst rfl rfl rfl rfl, hoff, ?_, h.idle_calm⟩
    intro t ht
    rw [hst]
    by_cases htc : t = k.cur
    · rw [htc, Function.update_self]
      exact fun hc => by cases hc
    · rw [Function.update_of_ne htc]
      exact fun hc => htc (h.running_cur t ht hc)
  have hready : k₁.threadReadyList ≠ [] := List.append_ne_nil_of_right_ne_nil _ (List.cons_ne_nil _ _)
  rcases scheduleIn_parked hp hready with ⟨k', hk', hinv⟩
  refine ⟨k', ?_, hinv⟩
  simp only [schedule, ensure, hoff, if_true, bind, Except.bind, hout, hready, if_false]
  exact hk'

omit [DecidableEq S] in
/-- The current task gives up the processor with a new status that is not
    `running`. `thread_block` and `thread_yield` both end this way. -/
theorem schedule_left {k : Sched T S P} {st : TaskStatus} (hst : st ≠ .running)
    (hl : Linked (Function.update (statusOf k) k.cur st) k.threadAllList k.threadReadyList
      (waitersOf k) k.idleThread)
    (hrun : ∀ t, t ∈ k.threadAllList → statusOf k t = .running → t = k.cur)
    (hcalm : k.inSemaDown k.idleThread = none) (hoff : k.intr = .off) :
    ∃ k', schedule (k.setStatus k.cur st) = .ok k' ∧ SchedInv k' := by
  have hs : statusOf (k.setStatus k.cur st) = Function.update (statusOf k) k.cur st :=
    statusOf_setStatus _ _ _
  refine schedule_parked ⟨linkedState_of hl hs rfl rfl rfl rfl, hoff, ?_, hcalm⟩ ?_
  · intro t ht
    rw [hs]
    by_cases htc : t = k.cur
    · rw [htc, Function.update_self]
      exact hst
    · rw [Function.update_of_ne htc]
      exact fun hc => htc (hrun t ht hc)
  · rw [hs]
    show Function.update (statusOf k) k.cur st k.cur ≠ .running
    rw [Function.update_self]
    exact hst

omit [DecidableEq S] in
/-- `thread_block`, from a state in which the lists already count the current
    task as blocked. -/
theorem threadBlock_left {k : Sched T S P} {st : TaskStatus} (hst : IsBlocked st)
    (hl : Linked (Function.update (statusOf k) k.cur st) k.threadAllList k.threadReadyList
      (waitersOf k) k.idleThread)
    (hrun : ∀ t, t ∈ k.threadAllList → statusOf k t = .running → t = k.cur)
    (hcalm : k.inSemaDown k.idleThread = none) :
    ∃ k', threadBlock k st = .ok k' ∧ SchedInv k' := by
  have hnr : st ≠ .running := by
    rcases hst with hc | hc | hc <;> (rw [hc]; exact fun hr => by cases hr)
  rcases schedule_left (k := { k with
    intr := .off, oldStatus := Function.update k.oldStatus k.cur k.intr }) hnr hl hrun hcalm rfl with
    ⟨k', hk', hinv⟩
  refine ⟨k', ?_, hinv⟩
  have hst' : st = .blocked ∨ st = .waiting ∨ st = .hanging := hst
  simp only [threadBlock, ensure, hst', if_true, bind, Except.bind]
  exact hk'

omit [DecidableEq S] in
theorem threadBlock_inv {k : Sched T S P} {st : TaskStatus} (h : SchedInv k)
    (hst : IsBlocked st) (hidle : k.cur = k.idleThread → st = .blocked) :
    ∃ k', threadBlock k st = .ok k' ∧ SchedInv k' :=
  threadBlock_left hst (h.linked.block h.cur_running hst hidle) h.running_cur h.idle_calm

omit [DecidableEq S] in
theorem threadYield_inv {k : Sched T S P} (h : SchedInv k) :
    ∃ k', threadYield k = .ok k' ∧ SchedInv k' := by
  have hne : statusOf k k.cur ≠ .ready := by
    rw [h.cur_running]
    exact fun hc => by cases hc
  have hnb : statusOf k k.cur ≠ .blocked := by
    rw [h.cur_running]
    exact fun hc => by cases hc
  have hnot : k.cur ∉ k.threadReadyList := h.linked.not_mem_ready hne
  have hl := h.linked.makeReady h.cur_mem hne (h.linked.not_waiting hnb)
    (List.perm_append_singleton k.cur k.threadReadyList)
  rcases schedule_left (k := { k with
    intr := .off, oldStatus := Function.update k.oldStatus k.cur k.intr,
    threadReadyList := k.threadReadyList ++ [k.cur] }) (fun hc => by cases hc) hl h.running_cur
    h.idle_calm rfl with ⟨k', hk', hinv⟩
  refine ⟨k', ?_, hinv⟩
  simp only [threadYield, ensure, hnot, not_false_eq_true, if_true, bind, Except.bind]
  exact hk'

omit [DecidableEq S] in
/-- Writing a PCB without changing its status is invisible to the lists. -/
theorem SchedInv.setTask {k : Sched T S P} (h : SchedInv k) (t : T) (v : Task P)
    (hv : v.status = statusOf k t) : SchedInv (k.setTask t v) := by
  have hs : statusOf (k.setTask t v) = statusOf k := by
    rw [statusOf_setTask, hv, Function.update_eq_self]
  refine ⟨linkedState_of h.linked hs rfl rfl rfl rfl, h.cur_mem, ?_, ?_, h.idle_calm⟩
  · rw [hs]
    exact h.cur_running
  · rw [hs]
    exact h.running_cur

omit [DecidableEq S] in
theorem intrTimerHandler_inv {k : Sched T S P} (h : SchedInv k) :
    ∃ k', intrTimerHandler k = .ok k' ∧ SchedInv k' := by
  unfold intrTimerHandler
  dsimp only
  by_cases ht : (k.task k.cur).ticks = 0
  · rw [if_pos ht]
    -- The tick is counted in the PCB before the processor changes hands.
    have hk := h.setTask k.cur
      { k.task k.cur with elapsedTicks := (k.task k.cur).elapsedTicks + 1 } rfl
    exact schedule_running ⟨hk.linked, hk.cur_mem, hk.cur_running, hk.running_cur, h.idle_calm⟩ rfl
  · rw [if_neg ht]
    exact ⟨_, rfl, h.setTask k.cur _ rfl⟩

omit [DecidableEq S] in
theorem threadUnblock_inv {k : Sched T S P} {t : T} (h : SchedInv k) (hmem : t ∈ k.threadAllList)
    (hst : IsBlocked (statusOf k t)) (hw : ∀ s, t ∉ waitersOf k s) :
    ∃ k', threadUnblock k t = .ok k' ∧ SchedInv k' := by
  have hne : statusOf k t ≠ .ready := by
    rcases hst with hc | hc | hc <;> (rw [hc]; exact fun hr => by cases hr)
  have htc : k.cur ≠ t := by
    rintro rfl
    rcases hst with hc | hc | hc <;> (rw [h.cur_running] at hc; cases hc)
  refine ⟨_, threadUnblock_blocked h.linked hst, ?_⟩
  have hl := h.linked.makeReady hmem hne hw (List.Perm.refl _)
  refine ⟨linkedState_of hl (statusOf_setStatus _ _ _) rfl rfl rfl rfl, h.cur_mem, ?_, ?_,
    h.idle_calm⟩
  · rw [statusOf_setStatus]
    exact (Function.update_of_ne htc _ _).trans h.cur_running
  · intro u hu hrun
    rw [statusOf_setStatus] at hrun
    by_cases hut : u = t
    · rw [hut, Function.update_self] at hrun
      cases hrun
    · rw [Function.update_of_ne hut] at hrun
      exact h.running_cur u hu hrun

omit [DecidableEq S] in
/-- A fresh PCB enters the lists; neither assertion about them fails. -/
theorem enterLists_inv {k : Sched T S P} {f : Func} {t : T} {v : Task P} (h : SchedInv k)
    (hnew : t ∉ k.threadAllList) (hv : v.status = .ready) :
    ∃ k', enterLists k f t v = .ok k' ∧ SchedInv k' := by
  have hnr : t ∉ k.threadReadyList := fun hc => hnew ((h.linked.mem_ready t).mp hc).1
  have htc : k.cur ≠ t := fun hc => hnew (hc ▸ h.cur_mem)
  have hs : statusOf (k.setTask t v) = Function.update (statusOf k) t .ready := by
    rw [statusOf_setTask, hv]
  -- Both assertions hold, as a new thread is in neither list.
  have hstep : enterLists k f t v = .ok { k.setTask t v with
      threadReadyList := k.threadReadyList ++ [t]
      threadAllList := k.threadAllList ++ [t]
      oldStatus := Function.update k.oldStatus t .on
      inSemaDown := Function.update k.inSemaDown t none } := by
    simp only [enterLists, ensure, hnr, hnew, not_false_eq_true, if_true, bind, Except.bind]
  refine ⟨_, hstep, linkedState_of (h.linked.enter hnew) hs rfl rfl rfl rfl,
    List.mem_append.mpr (Or.inl h.cur_mem), ?_, ?_, ?_⟩
  · show statusOf (k.setTask t v) k.cur = .running
    rw [hs, Function.update_of_ne htc]
    exact h.cur_running
  · intro u hu hrun
    have hrun' : statusOf (k.setTask t v) u = .running := hrun
    by_cases hut : u = t
    · rw [hs, hut, Function.update_self] at hrun'
      cases hrun'
    · rw [hs, Function.update_of_ne hut] at hrun'
      rcases List.mem_append.mp hu with hu | hu
      · exact h.running_cur u hu hrun'
      · exact absurd (List.mem_singleton.mp hu) hut
  · have hti : k.idleThread ≠ t := fun hc => hnew (hc ▸ h.linked.idle_mem)
    exact (Function.update_of_ne hti _ _).trans h.idle_calm

omit [DecidableEq S] in
/-- A hanging child leaves. It is not in the ready list, so the first removal
    is never made. -/
theorem threadExit_inv {k : Sched T S P} {t : T} (h : SchedInv k)
    (hst : statusOf k t = .hanging) : SchedInv (threadExit k t) := by
  have hnr : t ∉ k.threadReadyList := h.linked.not_mem_ready (by
    rw [hst]
    exact fun hc => by cases hc)
  have htc : k.cur ≠ t := by
    rintro rfl
    rw [h.cur_running] at hst
    cases hst
  have hs : statusOf (threadExit k t) = Function.update (statusOf k) t .died :=
    statusOf_setStatus _ _ _
  have hready : (threadExit k t).threadReadyList = k.threadReadyList := if_neg hnr
  have hmem : ∀ u, u ∈ k.threadAllList.erase t ↔ u ≠ t ∧ u ∈ k.threadAllList :=
    fun u => h.linked.all_nodup.mem_erase_iff
  refine ⟨linkedState_of (h.linked.leave hst) hs rfl hready rfl rfl,
    (hmem k.cur).mpr ⟨htc, h.cur_mem⟩, ?_, ?_, h.idle_calm⟩
  · rw [hs]
    exact (Function.update_of_ne htc _ _).trans h.cur_running
  · intro u hu hrun
    have hu' := (hmem u).mp hu
    rw [hs, Function.update_of_ne hu'.1] at hrun
    exact h.running_cur u hu'.2 hrun

/-- A round of the loop in `sema_down` keeps the invariant, or an assertion of
    `sema_down` itself fails. -/
theorem semaDownLoop_inv {k : Sched T S P} (s : S) (old : IntrStatus) (h : SchedInv k)
    (hidle : k.cur ≠ k.idleThread) :
    (∃ k', semaDownLoop k s old = .ok k' ∧ SchedInv k') ∨
      semaDownLoop k s old = .error .semaDown := by
  have hnot : k.cur ∉ (k.sema s).waiters := h.linked.not_waiting (by
    rw [h.cur_running]
    exact fun hc => by cases hc) s
  unfold semaDownLoop semaDownIter
  -- With value 0 the thread goes to sleep; with 1 it passes; more than 1 stops at the assertion.
  by_cases hz : (k.sema s).value = 0
  · left
    simp only [hz, if_true, ensure, hnot, not_false_eq_true, bind, Except.bind]
    refine threadBlock_left (Or.inl rfl) ?_ h.running_cur
      ((Function.update_of_ne hidle.symm _ _).trans h.idle_calm)
    have hw := h.linked.wait h.cur_running h.cur_mem hidle s
    have hq := waitersOf_update k s { value := 0, waiters := (k.sema s).waiters ++ [k.cur] }
    exact hq ▸ hw
  · by_cases h1 : (k.sema s).value - 1 = 0
    · left
      simp only [hz, if_false, ensure, h1, if_true, bind, Except.bind]
      refine ⟨_, rfl, linkedState_of h.linked rfl rfl rfl ?_ rfl, h.cur_mem, h.cur_running,
        h.running_cur, (Function.update_of_ne hidle.symm _ _).trans h.idle_calm⟩
      have hq := waitersOf_update k s { value := 0, waiters := (k.sema s).waiters }
      have he : Function.update (waitersOf k) s (k.sema s).waiters = waitersOf k :=
        Function.update_eq_self s (waitersOf k)
      exact hq.trans he
    · right
      simp only [hz, if_false, ensure, h1, bind, Except.bind]

omit [DecidableEq T] in
theorem semaUp_zero {p : Semaphore T} (hz : p.value = 0) :
    semaUp p = .ok ({ value := 1, waiters := p.waiters.tail }, p.waiters.head?) := by
  have h1 : (0 : UInt8) + 1 = 1 := by decide
  simp only [semaUp, ensure, hz, h1, if_true, bind, Except.bind]

/-- `sema_up` keeps the invariant, or an assertion of `sema_up` itself fails. -/
theorem semaUpCall_inv {k : Sched T S P} {s : S} (h : SchedInv k) :
    (∃ k', semaUpCall k s = .ok k' ∧ SchedInv k') ∨ semaUpCall k s = .error .semaUp := by
  by_cases hz : (k.sema s).value = 0
  · left
    simp only [semaUpCall, semaUp_zero hz, bind, Except.bind]
    have hq := waitersOf_update k s { value := 1, waiters := (k.sema s).waiters.tail }
    -- Without a waiter only the value changes; the first waiter becomes ready.
    cases hw : (k.sema s).waiters with
    | nil =>
        rw [hw] at hq
        have he : Function.update (waitersOf k) s [] = waitersOf k := by
          rw [← hw]
          exact Function.update_eq_self s (waitersOf k)
        exact ⟨_, rfl, linkedState_of h.linked rfl rfl rfl (hq.trans he) rfl, h.cur_mem,
          h.cur_running, h.running_cur, h.idle_calm⟩
    | cons t rest =>
        rw [hw] at hq
        have hpop := h.linked.pop (s := s) hw
        have hb := h.linked.waiters_blocked s t (by
          rw [waitersOf, hw]
          exact List.mem_cons_self)
        refine threadUnblock_inv ⟨linkedState_of hpop.1 rfl rfl rfl hq rfl, h.cur_mem,
          h.cur_running, h.running_cur, h.idle_calm⟩ hb.1 (Or.inl hb.2.1) ?_
        intro s'
        rw [hq]
        exact hpop.2 s'
  · right
    simp only [semaUpCall, semaUp, ensure, hz, if_false, bind, Except.bind]

/-- A step from the invariant keeps it, or stops on an assertion outside the
    scheduler. -/
theorem schedStep_inv {k : Sched T S P} {e : SchedEvent T S P} (h : SchedInv k)
    (he : schedEnabled k e) :
    (∃ k', schedStep k e = .ok k' ∧ SchedInv k') ∨
      ∃ f, schedStep k e = .error f ∧ ¬ InScheduler f := by
  have hdown : ¬ InScheduler .semaDown := by
    rintro (hc | hc | hc | hc) <;> cases hc
  have hup : ¬ InScheduler .semaUp := by
    rintro (hc | hc | hc | hc) <;> cases hc
  cases e with
  | timer => exact Or.inl (intrTimerHandler_inv h)
  | block st => exact Or.inl (threadBlock_inv h he.2.1 he.2.2)
  | unblock t => exact Or.inl (threadUnblock_inv h he.2.1 he.2.2.1 he.2.2.2)
  | yield => exact Or.inl (threadYield_inv h)
  | down s =>
      -- The assertion that can fail is one of sema_down, not of the scheduler.
      rcases semaDownLoop_inv (k := { k with intr := .off }) s k.intr
        ⟨h.linked, h.cur_mem, h.cur_running, h.running_cur, h.idle_calm⟩ he.2 with hok | herr
      · exact Or.inl hok
      · exact Or.inr ⟨_, herr, hdown⟩
  | resume =>
      cases hin : k.inSemaDown k.cur with
      | none => exact absurd hin he
      | some p =>
          have hcur : k.cur ≠ k.idleThread := by
            intro hc
            rw [hc, h.idle_calm] at hin
            cases hin
          have hstep : schedStep k .resume = semaDownLoop k p.1 p.2 := by
            simp only [schedStep, hin]
          rw [hstep]
          rcases semaDownLoop_inv p.1 p.2 h hcur with hok | herr
          · exact Or.inl hok
          · exact Or.inr ⟨_, herr, hdown⟩
  | up s =>
      rcases semaUpCall_inv (s := s) h with hok | herr
      · exact Or.inl hok
      · exact Or.inr ⟨_, herr, hup⟩
  | start t prio => exact Or.inl (enterLists_inv h he.2.2 rfl)
  | fork t pg => exact Or.inl (enterLists_inv h he.2.2 rfl)
  | exit t => exact Or.inl ⟨_, rfl, threadExit_inv h he.2.2.2⟩

omit [DecidableEq T] [DecidableEq S] in
/-- The state `thread_init` leaves satisfies the invariant. -/
theorem schedInit_inv {k : Sched T S P} (h : schedInit k) : SchedInv k := by
  rcases h with ⟨init, main, idle, him, hii, hmi, hready, hall, hcur, hidle, hsi, hsd, hsm,
    hdown, hw⟩
  have hnone : ∀ s, waitersOf k s = [] := hw
  -- The three tasks: init is ready, main runs, and idle is ready.
  have hmem : ∀ t, t ∈ k.threadAllList ↔ t = init ∨ t = main ∨ t = idle := by
    intro t
    rw [hall]
    simp only [List.mem_cons, List.not_mem_nil, or_false]
  have hst : statusOf k init = .ready ∧ statusOf k main = .running ∧ statusOf k idle = .ready :=
    ⟨hsi, hsm, hsd⟩
  refine ⟨⟨?_, ?_, ?_, ?_, ?_, ?_, ?_, ?_⟩, ?_, ?_, ?_, hdown _⟩
  · rw [hall]
    simp only [List.nodup_cons, List.mem_cons, List.not_mem_nil, or_false, not_or]
    exact ⟨⟨him, hii⟩, hmi, not_false, List.nodup_nil⟩
  · rw [hready]
    simp only [List.nodup_cons, List.mem_cons, List.not_mem_nil, or_false]
    exact ⟨hii, not_false, List.nodup_nil⟩
  · intro t
    rw [hmem t, hready, List.mem_cons, List.mem_singleton]
    constructor
    · rintro (rfl | rfl)
      · exact ⟨Or.inl rfl, hst.1⟩
      · exact ⟨Or.inr (Or.inr rfl), hst.2.2⟩
    · rintro ⟨rfl | rfl | rfl, ht⟩
      · exact Or.inl rfl
      · rw [hst.2.1] at ht
        cases ht
      · exact Or.inr rfl
  · intro s
    rw [hnone s]
    exact List.nodup_nil
  · intro s t ht
    rw [hnone s] at ht
    exact absurd ht List.not_mem_nil
  · intro s s' t ht
    rw [hnone s] at ht
    exact absurd ht List.not_mem_nil
  · rw [hidle, hmem idle]
    exact Or.inr (Or.inr rfl)
  · rw [hidle]
    exact Or.inr (Or.inl hst.2.2)
  · rw [hcur, hmem main]
    exact Or.inr (Or.inl rfl)
  · rw [hcur]
    exact hst.2.1
  · intro t ht hrun
    rcases (hmem t).mp ht with rfl | rfl | rfl
    · rw [hst.1] at hrun
      cases hrun
    · exact hcur.symm
    · rw [hst.2.2] at hrun
      cases hrun

/-- A step that does not stop keeps the invariant. -/
theorem schedStep_keeps {k k' : Sched T S P} {e : SchedEvent T S P} (h : SchedInv k)
    (he : schedEnabled k e) (hs : schedStep k e = .ok k') : SchedInv k' := by
  rcases schedStep_inv h he with ⟨k'', hok, hinv⟩ | ⟨f, herr, -⟩
  · rw [hs, Except.ok.injEq] at hok
    exact hok ▸ hinv
  · rw [hs] at herr
    cases herr

/-- Every state reachable after `thread_init` satisfies the invariant. -/
theorem reachable_inv {k : Sched T S P} (h : (schedSystem T S P).Reachable k) : SchedInv k :=
  System.invariant_of_step _ SchedInv (fun _ hk => schedInit_inv hk)
    (fun _ _ _ hinv he hs => schedStep_keeps hinv he hs) k h

/-- In every state reachable after `thread_init`, by any interleaving of the
    events: exactly the current task is running; the ready list holds the ready
    tasks, each once; no tag is linked twice, whether in one list or in two;
    waiters are blocked; the idle task is blocked when the ready list is empty
    and it is not running; and no assertion of the scheduler fails. -/
theorem scheduler_invariant (k : Sched T S P) (h : (schedSystem T S P).Reachable k) :
    (k.cur ∈ k.threadAllList ∧ ∀ t, t ∈ k.threadAllList →
      ((k.task t).status = .running ↔ t = k.cur)) ∧
    (k.threadReadyList.Nodup ∧ ∀ t, t ∈ k.threadReadyList ↔
      t ∈ k.threadAllList ∧ (k.task t).status = .ready) ∧
    (∀ s, (k.sema s).waiters.Nodup) ∧
    (∀ s t, t ∈ (k.sema s).waiters → t ∉ k.threadReadyList ∧
      ∀ s', t ∈ (k.sema s').waiters → s = s') ∧
    (∀ s t, t ∈ (k.sema s).waiters → t ∈ k.threadAllList ∧ (k.task t).status = .blocked) ∧
    (k.threadReadyList = [] → k.cur ≠ k.idleThread → (k.task k.idleThread).status = .blocked) ∧
    ∀ e f, schedEnabled k e → schedStep k e = .error f → ¬ InScheduler f := by
  have hinv := reachable_inv h
  have hl := hinv.linked
  refine ⟨⟨hinv.cur_mem, ?_⟩, ⟨hl.ready_nodup, hl.mem_ready⟩, hl.waiters_nodup, ?_, ?_, ?_, ?_⟩
  · intro t ht
    constructor
    · exact hinv.running_cur t ht
    · rintro rfl
      exact hinv.cur_running
  · intro s t ht
    have hb := hl.waiters_blocked s t ht
    refine ⟨hl.not_mem_ready ?_, fun s' ht' => hl.waiters_unique s s' t ht ht'⟩
    rw [hb.2.1]
    exact fun hc => by cases hc
  · intro s t ht
    have hb := hl.waiters_blocked s t ht
    exact ⟨hb.1, hb.2.1⟩
  · intro hr hne
    -- Not running and not ready, so blocked.
    rcases hl.idle_status with hc | hc | hc
    · exact absurd (hinv.running_cur _ hl.idle_mem hc).symm hne
    · have hm := (hl.mem_ready k.idleThread).mpr ⟨hl.idle_mem, hc⟩
      rw [hr] at hm
      exact absurd hm List.not_mem_nil
    · exact hc
  · intro e f he hf
    rcases schedStep_inv hinv he with ⟨k', hk', _⟩ | ⟨f', hf', hnot⟩
    · rw [hf] at hk'
      cases hk'
    · rw [hf] at hf'
      cases hf'
      exact hnot

/-- What `thread_init` leaves, with `init`, the main thread and the idle task
    numbered in this order and every semaphore at zero. -/
def bootSched : Sched Nat Nat Nat where
  task := fun t =>
    { status := if t = 1 then .running else .ready
      priority := 31
      ticks := 31
      elapsedTicks := 0
      pgdir := none }
  cur := 1
  idleThread := 2
  threadReadyList := [0, 2]
  threadAllList := [0, 1, 2]
  sema := fun _ => semaInit 0
  intr := .on
  oldStatus := fun _ => .on
  inSemaDown := fun _ => none
  cr3 := none
  esp0 := 1

theorem bootSched_init : schedInit bootSched :=
  ⟨0, 1, 2, by decide, by decide, by decide, rfl, rfl, rfl, rfl, rfl, rfl, rfl, fun _ => rfl,
    fun _ => rfl⟩

/-- The main thread and `init` wait for semaphores, and the idle task runs. An
    interrupt handler wakes the main thread, which waits again. So the idle task
    is woken, and blocks itself once more after the next interrupt. -/
def idleWoken : List (SchedEvent Nat Nat Nat) :=
  [.down 7, .down 8, .up 7, .block .blocked, .resume, .down 7, .up 7, .block .blocked]

/-- `scheduler_invariant` after this run. -/
theorem scheduler_invariant_idle_woken :
    let k := (schedSystem Nat Nat Nat).after bootSched idleWoken
    k.cur = 1 ∧ (k.sema 8).waiters = [0] ∧ 0 ∉ k.threadReadyList ∧
      (k.task 2).status = .blocked := by
  intro k
  have hreach : (schedSystem Nat Nat Nat).Reachable k :=
    (schedSystem Nat Nat Nat).reachable_after _ (System.Reachable.init _ bootSched_init)
      ⟨⟨rfl, by decide⟩, rfl, ⟨rfl, by decide⟩, rfl, rfl, rfl, ⟨rfl, Or.inl rfl, fun _ => rfl⟩, rfl,
        (by exact fun hc => by cases hc), rfl, ⟨rfl, by decide⟩, rfl, rfl, rfl,
        ⟨rfl, Or.inl rfl, fun _ => rfl⟩, rfl, trivial⟩
  have hcur : k.cur = 1 := rfl
  have hw : (k.sema 8).waiters = [0] := rfl
  have hall := scheduler_invariant k hreach
  refine ⟨hcur, hw, (hall.2.2.2.1 8 0 (by rw [hw]; exact List.mem_singleton_self 0)).1, ?_⟩
  exact hall.2.2.2.2.2.1 rfl (by rw [hcur]; decide)

end ForikOS
