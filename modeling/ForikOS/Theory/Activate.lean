import ForikOS.Core.Activate
import ForikOS.Theory.Switch

/-!
# The Active Address Space

A process runs in its own address space and enters the kernel on its own stack.

`schedule` loads the page directory in the PCB of the task it turns to. So a
process is in its own address space as long as `pgdir` is what it should be
whenever the process is switched in. Between the statements that clear `pgdir`
and put it back it is not: a process that waits for the lock of the kernel's
pool there comes back with the kernel's page directory, and keeps it when
`pgdir` has been put back.

## Main definitions

* `Loaded`, `Stays`: The two things a step of the scheduler does.
* `GivesUp`: The steps in which the current task is switched out.
* `OwnSpace`: The process that runs is in its own address space.
* `Steady`: No process is switched out with a cleared `pgdir`.
* `SpaceInv`: The invariant of the runs that are steady.

## Theorems

* `schedule_loaded`: `schedule` loads what the PCB says.
* `schedStep_loads`: A step of the scheduler loads or leaves alone.
* `spaceStep_inv`: A steady step keeps the invariant.
* `own_space`: Every steady run stays in its own address spaces.
* `own_space_lost`: A run that is not steady.
-/

namespace ForikOS

variable {T S P : Type} [DecidableEq T] [DecidableEq S]

/-- The page directory in a PCB. -/
def pgdirOf (k : Sched T S P) : T → Option P := fun t => (k.task t).pgdir

/-- The current task has just been activated. -/
structure Loaded (k : Sched T S P) : Prop where
  cr3 : k.cr3 = pgdirOf k k.cur
  esp0 : (pgdirOf k k.cur).isSome = true → k.esp0 = k.cur

/-- The processor does not change hands. -/
structure Stays (k k' : Sched T S P) : Prop where
  cur : k'.cur = k.cur
  cr3 : k'.cr3 = k.cr3
  esp0 : k'.esp0 = k.esp0

omit [DecidableEq S] in
theorem pgdirOf_setTask (k : Sched T S P) (t : T) (v : Task P) :
    pgdirOf (k.setTask t v) = Function.update (pgdirOf k) t v.pgdir := by
  funext u
  by_cases hu : u = t
  · rw [hu, Function.update_self]
    show (Function.update k.task t v t).pgdir = v.pgdir
    rw [Function.update_self]
  · rw [Function.update_of_ne hu]
    show (Function.update k.task t v u).pgdir = (k.task u).pgdir
    rw [Function.update_of_ne hu]

omit [DecidableEq S] in
/-- Nothing the scheduler writes into a PCB is a page directory. -/
theorem pgdirOf_setTask_same (k : Sched T S P) (t : T) (v : Task P)
    (hv : v.pgdir = (k.task t).pgdir) : pgdirOf (k.setTask t v) = pgdirOf k := by
  rw [pgdirOf_setTask, hv]
  exact Function.update_eq_self t (pgdirOf k)

omit [DecidableEq S] in
theorem scheduleOut_pgdir {k k' : Sched T S P} (h : scheduleOut k = .ok k') :
    pgdirOf k' = pgdirOf k := by
  rw [scheduleOut] at h
  by_cases hrun : (k.task k.cur).status = .running
  · rw [if_pos hrun] at h
    rcases bind_eq_ok.mp h with ⟨_, _, h⟩
    rw [Except.ok.injEq] at h
    rw [← h]
    exact pgdirOf_setTask_same { k with threadReadyList := k.threadReadyList ++ [k.cur] } _ _ rfl
  · rw [if_neg hrun, Except.ok.injEq] at h
    rw [← h]

omit [DecidableEq S] in
theorem threadUnblock_pgdir {k k' : Sched T S P} {t : T} (h : threadUnblock k t = .ok k') :
    pgdirOf k' = pgdirOf k ∧ Stays k k' := by
  rw [(threadUnblock_ok h).2]
  exact ⟨pgdirOf_setTask_same { k with threadReadyList := t :: k.threadReadyList } _ _ rfl,
    rfl, rfl, rfl⟩

omit [DecidableEq S] in
theorem scheduleIn_loaded {k k' : Sched T S P} (h : scheduleIn k = .ok k') :
    pgdirOf k' = pgdirOf k ∧ Loaded k' := by
  rw [scheduleIn] at h
  cases hl : k.threadReadyList with
  | nil =>
      rw [hl] at h
      cases h
  | cons next rest =>
      rw [hl, Except.ok.injEq] at h
      rw [← h]
      refine ⟨?_, rfl, fun hs => ?_⟩
      · exact pgdirOf_setTask_same { k with threadReadyList := rest } next _ rfl
      · exact if_pos hs

omit [DecidableEq S] in
/-- `schedule` loads what the PCB of the next task says. -/
theorem schedule_loaded {k k' : Sched T S P} (h : schedule k = .ok k') :
    pgdirOf k' = pgdirOf k ∧ Loaded k' := by
  rw [schedule] at h
  rcases bind_eq_ok.mp h with ⟨_, _, h⟩
  rcases bind_eq_ok.mp h with ⟨k₁, hout, h⟩
  have h₁ := scheduleOut_pgdir hout
  by_cases hempty : k₁.threadReadyList = []
  · rw [if_pos hempty] at h
    rcases bind_eq_ok.mp h with ⟨k₂, hun, h⟩
    have h₂ := (threadUnblock_pgdir hun).1
    have h₃ := scheduleIn_loaded h
    exact ⟨h₃.1.trans (h₂.trans h₁), h₃.2⟩
  · rw [if_neg hempty, ok_bind] at h
    have h₃ := scheduleIn_loaded h
    exact ⟨h₃.1.trans h₁, h₃.2⟩

omit [DecidableEq S] in
theorem threadBlock_loaded {k k' : Sched T S P} {st : TaskStatus} (h : threadBlock k st = .ok k') :
    pgdirOf k' = pgdirOf k ∧ Loaded k' := by
  rw [threadBlock] at h
  rcases bind_eq_ok.mp h with ⟨_, _, h⟩
  have hs := schedule_loaded h
  exact ⟨hs.1.trans (pgdirOf_setTask_same _ _ _ rfl), hs.2⟩

omit [DecidableEq S] in
theorem threadYield_loaded {k k' : Sched T S P} (h : threadYield k = .ok k') :
    pgdirOf k' = pgdirOf k ∧ Loaded k' := by
  rw [threadYield] at h
  rcases bind_eq_ok.mp h with ⟨_, _, h⟩
  have hs := schedule_loaded h
  exact ⟨hs.1.trans (pgdirOf_setTask_same _ _ _ rfl), hs.2⟩

/-- The steps in which the current task is switched out. -/
def GivesUp (k : Sched T S P) : SchedEvent T S P → Prop
  | .timer => (k.task k.cur).ticks = 0
  | .block _ => True
  | .yield => True
  | .down s => (k.sema s).value = 0
  | .resume => ∃ s old, k.inSemaDown k.cur = some (s, old) ∧ (k.sema s).value = 0
  | _ => False

theorem semaDownLoop_loads {k k' : Sched T S P} {s : S} {old : IntrStatus}
    (h : semaDownLoop k s old = .ok k') :
    pgdirOf k' = pgdirOf k ∧
      (((k.sema s).value = 0 ∧ Loaded k') ∨ ((k.sema s).value ≠ 0 ∧ Stays k k')) := by
  unfold semaDownLoop semaDownIter at h
  by_cases hz : (k.sema s).value = 0
  · rw [if_pos hz] at h
    rcases bind_eq_ok.mp h with ⟨⟨p, blocks⟩, hp, h⟩
    rcases bind_eq_ok.mp hp with ⟨_, _, hp⟩
    rw [Except.ok.injEq, Prod.mk.injEq] at hp
    rw [← hp.1, ← hp.2] at h
    dsimp only at h
    rw [if_pos rfl] at h
    have hb := threadBlock_loaded h
    exact ⟨hb.1, Or.inl ⟨hz, hb.2⟩⟩
  · rw [if_neg hz] at h
    rcases bind_eq_ok.mp h with ⟨⟨p, blocks⟩, hp, h⟩
    rcases bind_eq_ok.mp hp with ⟨_, _, hp⟩
    rw [Except.ok.injEq, Prod.mk.injEq] at hp
    rw [← hp.1, ← hp.2] at h
    dsimp only at h
    rw [if_neg Bool.false_ne_true, Except.ok.injEq] at h
    rw [← h]
    exact ⟨rfl, Or.inr ⟨hz, rfl, rfl, rfl⟩⟩

theorem semaUpCall_stays {k k' : Sched T S P} {s : S} (h : semaUpCall k s = .ok k') :
    pgdirOf k' = pgdirOf k ∧ Stays k k' := by
  rw [semaUpCall] at h
  rcases bind_eq_ok.mp h with ⟨⟨p, woken⟩, _, h⟩
  cases hw : woken with
  | none =>
      rw [hw, Except.ok.injEq] at h
      rw [← h]
      exact ⟨rfl, rfl, rfl, rfl⟩
  | some t =>
      rw [hw] at h
      have hs := threadUnblock_pgdir h
      exact ⟨hs.1, hs.2.cur, hs.2.cr3, hs.2.esp0⟩

omit [DecidableEq S] in
theorem intrTimerHandler_loads {k k' : Sched T S P} (h : intrTimerHandler k = .ok k') :
    pgdirOf k' = pgdirOf k ∧
      (((k.task k.cur).ticks = 0 ∧ Loaded k') ∨ ((k.task k.cur).ticks ≠ 0 ∧ Stays k k')) := by
  unfold intrTimerHandler at h
  dsimp only at h
  by_cases ht : (k.task k.cur).ticks = 0
  · rw [if_pos ht] at h
    have hs := schedule_loaded h
    refine ⟨hs.1.trans ?_, Or.inl ⟨ht, hs.2⟩⟩
    exact pgdirOf_setTask_same k k.cur { k.task k.cur with
      elapsedTicks := (k.task k.cur).elapsedTicks + 1 } rfl
  · rw [if_neg ht, Except.ok.injEq] at h
    rw [← h]
    exact ⟨pgdirOf_setTask_same k k.cur _ rfl, Or.inr ⟨ht, rfl, rfl, rfl⟩⟩

omit [DecidableEq S] in
/-- A new task brings its page directory, and nothing else changes. -/
theorem enterLists_stays {k k' : Sched T S P} {f : Func} {t : T} {v : Task P}
    (h : enterLists k f t v = .ok k') :
    (∀ u, u ≠ t → pgdirOf k' u = pgdirOf k u) ∧ Stays k k' := by
  rw [enterLists] at h
  rcases bind_eq_ok.mp h with ⟨_, _, h⟩
  rcases bind_eq_ok.mp h with ⟨_, _, h⟩
  rw [Except.ok.injEq] at h
  rw [← h]
  refine ⟨fun u hu => ?_, rfl, rfl, rfl⟩
  show pgdirOf (k.setTask t v) u = pgdirOf k u
  rw [pgdirOf_setTask, Function.update_of_ne hu]

/-- The task an event of the scheduler puts into the lists. -/
def newTask : SchedEvent T S P → Option T
  | .start t _ => some t
  | .fork t _ => some t
  | _ => none

/-- A step of the scheduler loads the page directory of the next task, or
    leaves the processor alone. It changes no page directory of a task that was
    there. -/
theorem schedStep_loads {k k' : Sched T S P} {e : SchedEvent T S P} (h : schedStep k e = .ok k') :
    (∀ u, newTask e ≠ some u → pgdirOf k' u = pgdirOf k u) ∧
      ((GivesUp k e ∧ Loaded k') ∨ (¬ GivesUp k e ∧ Stays k k')) := by
  cases e with
  | timer =>
      have hs := intrTimerHandler_loads h
      exact ⟨fun u _ => by rw [hs.1], hs.2⟩
  | block st =>
      have hs := threadBlock_loaded h
      exact ⟨fun u _ => by rw [hs.1], Or.inl ⟨trivial, hs.2⟩⟩
  | unblock t =>
      have hs := threadUnblock_pgdir h
      exact ⟨fun u _ => by rw [hs.1], Or.inr ⟨id, hs.2⟩⟩
  | yield =>
      have hs := threadYield_loaded h
      exact ⟨fun u _ => by rw [hs.1], Or.inl ⟨trivial, hs.2⟩⟩
  | down s =>
      have hs := semaDownLoop_loads h
      refine ⟨fun u _ => ?_, hs.2.imp id (fun hc => ⟨hc.1, hc.2.cur, hc.2.cr3, hc.2.esp0⟩)⟩
      rw [hs.1]
      rfl
  | resume =>
      -- A task that resumes goes on with the loop of sema_down, if it is in one.
      cases hin : k.inSemaDown k.cur with
      | none =>
          simp only [schedStep, hin, Except.ok.injEq] at h
          rw [← h]
          refine ⟨fun _ _ => rfl, Or.inr ⟨?_, rfl, rfl, rfl⟩⟩
          rintro ⟨s, old, hc, -⟩
          rw [hin] at hc
          cases hc
      | some p =>
          simp only [schedStep, hin] at h
          have hs := semaDownLoop_loads h
          refine ⟨fun u _ => by rw [hs.1], hs.2.imp (fun hc => ⟨⟨p.1, p.2, hin, hc.1⟩, hc.2⟩)
            (fun hc => ⟨?_, hc.2⟩)⟩
          rintro ⟨s, old, heq, hz⟩
          rw [hin, Option.some.injEq] at heq
          rw [heq] at hc
          exact hc.1 hz
  | up s =>
      have hs := semaUpCall_stays h
      exact ⟨fun u _ => by rw [hs.1], Or.inr ⟨id, hs.2⟩⟩
  | start t prio =>
      have hs := enterLists_stays h
      exact ⟨fun u hu => hs.1 u (fun hc => hu (by rw [hc]; rfl)), Or.inr ⟨id, hs.2⟩⟩
  | fork t pg =>
      have hs := enterLists_stays h
      exact ⟨fun u hu => hs.1 u (fun hc => hu (by rw [hc]; rfl)), Or.inr ⟨id, hs.2⟩⟩
  | exit t =>
      -- Of the task, only the status is written.
      change Except.ok (threadExit k t) = .ok k' at h
      rw [Except.ok.injEq] at h
      rw [← h]
      refine ⟨fun u _ => ?_, Or.inr ⟨id, rfl, rfl, rfl⟩⟩
      exact congrFun (pgdirOf_setTask_same { k with intr := .off } t
        { k.task t with status := .died } rfl) u

/-- A process that is in none of the places runs in its own address space, and
    enters the kernel at the top of its PCB page. -/
def OwnSpace (k : Spaces T S P) : Prop :=
  ∀ p, AtRest k k.sched.cur → pgdirOf k.sched k.sched.cur = some p →
    k.sched.cr3 = some p ∧ k.sched.esp0 = k.sched.cur

/-- No process is switched out while its `pgdir` is cleared. -/
def Steady (k : Spaces T S P) : SpaceEvent T S P → Prop
  | .sched e => ∀ p, k.curPagedirBak k.sched.cur = some (some p) → ¬ GivesUp k.sched e
  | _ => True

/-- The invariant of steady runs. A process whose `pgdir` is cleared is the
    current task, and still runs in its own address space. -/
structure SpaceInv (k : Spaces T S P) : Prop where
  sched : SchedInv k.sched
  cleared : ∀ t, k.curPagedirBak t ≠ none → pgdirOf k.sched t = none
  apart : ∀ t, k.curPagedirBak t ≠ none → k.copying t = none
  alone : ∀ t p, k.curPagedirBak t = some (some p) → t = k.sched.cur
  window : ∀ p, k.curPagedirBak k.sched.cur = some (some p) →
    k.sched.cr3 = some p ∧ k.sched.esp0 = k.sched.cur
  rest : (∀ p, k.curPagedirBak k.sched.cur ≠ some (some p)) → k.copying k.sched.cur = none →
    k.sched.cr3 = pgdirOf k.sched k.sched.cur
  stack : (pgdirOf k.sched k.sched.cur).isSome = true → k.sched.esp0 = k.sched.cur

section Steps

variable {k k' : Spaces T S P}

omit [DecidableEq T] [DecidableEq S] in
theorem SpaceInv.ownSpace (h : SpaceInv k) : OwnSpace k := by
  intro p hrest hp
  refine ⟨?_, h.stack (by rw [hp]; rfl)⟩
  rw [h.rest (fun q hq => by rw [hrest.1] at hq; cases hq) hrest.2, hp]

omit [DecidableEq S] in
theorem setPgdir_inv {t : T} {p : Option P} (h : SchedInv k.sched) :
    SchedInv (k.sched.setPgdir t p) :=
  h.setTask t _ rfl

omit [DecidableEq S] in
theorem clearPgdir_inv (h : SpaceInv k) (hrest : AtRest k k.sched.cur) :
    SpaceInv (clearPgdir k) := by
  have hpg : pgdirOf (clearPgdir k).sched = Function.update (pgdirOf k.sched) k.sched.cur none :=
    pgdirOf_setTask _ _ _
  have hbak : (clearPgdir k).curPagedirBak = Function.update k.curPagedirBak k.sched.cur
    (some (pgdirOf k.sched k.sched.cur)) := rfl
  have hcur : (clearPgdir k).sched.cur = k.sched.cur := rfl
  have hload := h.rest (fun q hq => by rw [hrest.1] at hq; cases hq) hrest.2
  refine ⟨setPgdir_inv h.sched, ?_, ?_, ?_, ?_, ?_, ?_⟩
  · intro t ht
    rw [hpg]
    rw [hbak] at ht
    by_cases htc : t = k.sched.cur
    · rw [htc, Function.update_self]
    · rw [Function.update_of_ne htc] at ht ⊢
      exact h.cleared t ht
  · intro t ht
    rw [hbak] at ht
    by_cases htc : t = k.sched.cur
    · rw [htc]
      exact hrest.2
    · rw [Function.update_of_ne htc] at ht
      exact h.apart t ht
  · intro t p ht
    rw [hbak] at ht
    by_cases htc : t = k.sched.cur
    · exact htc
    · rw [Function.update_of_ne htc] at ht
      exact h.alone t p ht
  · intro p hp
    rw [hbak, hcur, Function.update_self, Option.some.injEq] at hp
    exact ⟨hload.trans hp, h.stack (by rw [hp]; rfl)⟩
  · intro hne _
    rw [hbak, hcur, Function.update_self] at hne
    rw [hpg, hcur, Function.update_self]
    -- The task is a kernel thread, and its page directory was null before.
    show k.sched.cr3 = none
    cases hp : pgdirOf k.sched k.sched.cur with
    | none => rw [hload, hp]
    | some p => exact absurd (by rw [hp]) (hne p)
  · intro hs
    rw [hpg, hcur, Function.update_self] at hs
    cases hs

omit [DecidableEq S] in
theorem restorePgdir_inv (h : SpaceInv k) : SpaceInv (restorePgdir k) := by
  rw [restorePgdir]
  cases hb : k.curPagedirBak k.sched.cur with
  -- Nothing was put aside: the pointer has not been touched.
  | none => exact h
  | some bak =>
      have hpg : pgdirOf (k.sched.setPgdir k.sched.cur bak)
          = Function.update (pgdirOf k.sched) k.sched.cur bak := pgdirOf_setTask _ _ _
      refine ⟨setPgdir_inv h.sched, ?_, ?_, ?_, ?_, ?_, ?_⟩
      · intro t ht
        dsimp only at ht ⊢
        by_cases htc : t = k.sched.cur
        · rw [htc, Function.update_self] at ht
          exact absurd rfl ht
        · rw [Function.update_of_ne htc] at ht
          rw [hpg, Function.update_of_ne htc]
          exact h.cleared t ht
      · intro t ht
        dsimp only at ht ⊢
        by_cases htc : t = k.sched.cur
        · rw [htc, Function.update_self] at ht
          exact absurd rfl ht
        · rw [Function.update_of_ne htc] at ht
          exact h.apart t ht
      · intro t p ht
        dsimp only at ht
        by_cases htc : t = k.sched.cur
        · exact htc
        · rw [Function.update_of_ne htc] at ht
          exact h.alone t p ht
      · intro p hp
        change Function.update k.curPagedirBak k.sched.cur none k.sched.cur = some (some p) at hp
        rw [Function.update_self] at hp
        cases hp
      · -- The register agrees with the pointer again: with the directory that was
        -- put aside, or with none for a thread of the kernel.
        intro _ hcopy
        show k.sched.cr3 = pgdirOf (k.sched.setPgdir k.sched.cur bak) k.sched.cur
        rw [hpg, Function.update_self]
        cases bak with
        | some p => exact (h.window p hb).1
        | none =>
            have hload := h.rest (fun q hq => by rw [hb] at hq; cases hq) hcopy
            rw [hload]
            exact h.cleared _ (by rw [hb]; exact fun hc => by cases hc)
      · intro hs
        change (pgdirOf (k.sched.setPgdir k.sched.cur bak) k.sched.cur).isSome = true at hs
        rw [hpg, Function.update_self] at hs
        cases bak with
        | some p => exact (h.window p hb).2
        | none => cases hs

omit [DecidableEq S] in
theorem copyBegin_inv {pg : P} (h : SpaceInv k) (hrest : AtRest k k.sched.cur) :
    SpaceInv (copyBegin k pg) := by
  have hinv : SchedInv (copyBegin k pg).sched :=
    ⟨h.sched.linked, h.sched.cur_mem, h.sched.cur_running, h.sched.running_cur,
      h.sched.idle_calm⟩
  refine ⟨hinv, h.cleared, ?_, h.alone, ?_, ?_, h.stack⟩
  · intro t ht
    change Function.update k.copying k.sched.cur (some pg) t = none
    have htc : t ≠ k.sched.cur := by
      rintro rfl
      exact ht hrest.1
    rw [Function.update_of_ne htc]
    exact h.apart t ht
  · intro p hp
    change k.curPagedirBak k.sched.cur = some (some p) at hp
    rw [hrest.1] at hp
    cases hp
  · intro _ hcopy
    change Function.update k.copying k.sched.cur (some pg) k.sched.cur = none at hcopy
    rw [Function.update_self] at hcopy
    cases hcopy

omit [DecidableEq S] in
theorem copyEnd_inv (h : SpaceInv k) (hcopy : k.copying k.sched.cur ≠ none) :
    SpaceInv (copyEnd k) := by
  have hinv : SchedInv (copyEnd k).sched :=
    ⟨h.sched.linked, h.sched.cur_mem, h.sched.cur_running, h.sched.running_cur,
      h.sched.idle_calm⟩
  refine ⟨hinv, h.cleared, ?_, h.alone, ?_, fun _ _ => rfl, h.stack⟩
  · intro t ht
    change Function.update k.copying k.sched.cur none t = none
    by_cases htc : t = k.sched.cur
    · rw [htc, Function.update_self]
    · rw [Function.update_of_ne htc]
      exact h.apart t ht
  · intro p hp
    change k.curPagedirBak k.sched.cur = some (some p) at hp
    exact absurd (h.apart k.sched.cur (by rw [hp]; exact fun hc => by cases hc)) hcopy

omit [DecidableEq T] [DecidableEq S] in
/-- The scheduler makes a step in which the processor does not change hands. -/
theorem SpaceInv.stay {sched : Sched T S P} (h : SpaceInv k) (hinv : SchedInv sched)
    (hst : Stays k.sched sched) (hpg : ∀ u, u ∈ k.sched.threadAllList ∨ k.curPagedirBak u ≠ none →
      pgdirOf sched u = pgdirOf k.sched u) : SpaceInv { k with sched := sched } := by
  -- The same task runs, with the directory it had.
  have hcur : pgdirOf sched sched.cur = pgdirOf k.sched k.sched.cur := by
    rw [hst.cur]
    exact hpg _ (Or.inl h.sched.cur_mem)
  refine ⟨hinv, ?_, h.apart, ?_, ?_, ?_, ?_⟩
  · intro t ht
    show pgdirOf sched t = none
    rw [hpg t (Or.inr ht)]
    exact h.cleared t ht
  · intro t p ht
    show t = sched.cur
    rw [hst.cur]
    exact h.alone t p ht
  · intro p hp
    show sched.cr3 = some p ∧ sched.esp0 = sched.cur
    change k.curPagedirBak sched.cur = some (some p) at hp
    rw [hst.cur] at hp
    rw [hst.cr3, hst.esp0, hst.cur]
    exact h.window p hp
  · intro hne hcopy
    show sched.cr3 = pgdirOf sched sched.cur
    change ∀ p, k.curPagedirBak sched.cur ≠ some (some p) at hne
    change k.copying sched.cur = none at hcopy
    rw [hst.cur] at hne hcopy
    rw [hst.cr3, hcur]
    exact h.rest hne hcopy
  · intro hs
    show sched.esp0 = sched.cur
    change (pgdirOf sched sched.cur).isSome = true at hs
    rw [hcur] at hs
    rw [hst.esp0, hst.cur]
    exact h.stack hs

omit [DecidableEq T] [DecidableEq S] in
/-- The processor changes hands while no process has its `pgdir` cleared. -/
theorem SpaceInv.load {sched : Sched T S P} (h : SpaceInv k) (hinv : SchedInv sched)
    (hload : Loaded sched) (hpg : ∀ u, pgdirOf sched u = pgdirOf k.sched u)
    (hno : ∀ p, k.curPagedirBak k.sched.cur ≠ some (some p)) :
    SpaceInv { k with sched := sched } := by
  have hnone : ∀ t p, k.curPagedirBak t ≠ some (some p) := by
    intro t p ht
    have htc := h.alone t p ht
    rw [htc] at ht
    exact hno p ht
  refine ⟨hinv, ?_, h.apart, ?_, ?_, fun _ _ => hload.cr3, hload.esp0⟩
  · intro t ht
    show pgdirOf sched t = none
    rw [hpg t]
    exact h.cleared t ht
  · exact fun t p ht => absurd ht (hnone t p)
  · exact fun p hp => absurd hp (hnone _ p)

omit [DecidableEq S] in
/-- A new task is in none of the places. -/
theorem SpaceInv.enter (h : SpaceInv k) {t : T} (ht : t ≠ k.sched.cur) : SpaceInv (k.enter t) := by
  -- A new thread is in the middle of nothing, so all that is claimed is about the others.
  have hb : ∀ u x, Function.update k.curPagedirBak t none u = some x →
      k.curPagedirBak u = some x := by
    intro u x hu
    by_cases hut : u = t
    · rw [hut, Function.update_self] at hu
      cases hu
    · rwa [Function.update_of_ne hut] at hu
  have hb' : ∀ u, Function.update k.curPagedirBak t none u ≠ none → u ≠ t ∧
      k.curPagedirBak u ≠ none := by
    intro u hu
    by_cases hut : u = t
    · rw [hut, Function.update_self] at hu
      exact absurd rfl hu
    · rw [Function.update_of_ne hut] at hu
      exact ⟨hut, hu⟩
  refine ⟨h.sched, fun u hu => h.cleared u (hb' u hu).2, ?_, fun u p hu => h.alone u p (hb u _ hu),
    fun p hp => h.window p (hb _ _ hp), ?_, h.stack⟩
  · intro u hu
    change Function.update k.copying t none u = none
    rw [Function.update_of_ne (hb' u hu).1]
    exact h.apart u (hb' u hu).2
  · intro hne hcopy
    change ∀ p, Function.update k.curPagedirBak t none k.sched.cur ≠ some (some p) at hne
    change Function.update k.copying t none k.sched.cur = none at hcopy
    rw [Function.update_of_ne ht.symm] at hne hcopy
    exact h.rest hne hcopy

omit [DecidableEq S] in
/-- A task enters the lists with its page directory. -/
theorem SpaceInv.enterLists {f : Func} {t : T} {v : Task P} {sched : Sched T S P} (h : SpaceInv k)
    (hnew : t ∉ k.sched.threadAllList) (hv : v.status = .ready)
    (hr : ForikOS.enterLists k.sched f t v = .ok sched) :
    SpaceInv ({ k with sched := sched }.enter t) := by
  have htc : t ≠ k.sched.cur := fun hc => hnew (hc ▸ h.sched.cur_mem)
  rcases enterLists_inv (f := f) h.sched hnew hv with ⟨sched', hok, hinv⟩
  rw [hr, Except.ok.injEq] at hok
  have hs := enterLists_stays hr
  refine (h.enter htc).stay (hok ▸ hinv) hs.2 (fun u hu => hs.1 u ?_)
  rintro rfl
  rcases hu with hu | hu
  · exact hnew hu
  · exact hu (Function.update_self _ _ _)

/-- The steps of the scheduler. -/
theorem schedEvent_inv {e : SchedEvent T S P} (h : SpaceInv k) (he : schedEnabled k.sched e)
    (hsteady : Steady k (.sched e)) (hr : spaceStep k (.sched e) = .ok k') : SpaceInv k' := by
  rcases bind_eq_ok.mp hr with ⟨sched, hstep, hr⟩
  have hinv : SchedInv sched := schedStep_keeps h.sched he hstep
  -- Without a new task, a step loads what the running task has, or loads nothing.
  have hplain : newTask e = none → SpaceInv { k with sched := sched } := by
    intro hnone
    have hl := schedStep_loads hstep
    have hpg : ∀ u, pgdirOf sched u = pgdirOf k.sched u := fun u => hl.1 u (by rw [hnone]; simp)
    rcases hl.2 with ⟨hgive, hload⟩ | ⟨-, hstay⟩
    · exact h.load hinv hload hpg (fun p hp => hsteady p hp hgive)
    · exact h.stay hinv hstay (fun u _ => hpg u)
  cases e with
  | start t prio =>
      dsimp only at hr
      rw [Except.ok.injEq] at hr
      rw [← hr]
      exact h.enterLists he.2.2 rfl hstep
  | fork t pg =>
      dsimp only at hr
      rw [Except.ok.injEq] at hr
      rw [← hr]
      exact h.enterLists he.2.2 rfl hstep
  | timer | block st | unblock t | yield | down s | resume | up s | exit t =>
      dsimp only at hr
      rw [Except.ok.injEq] at hr
      rw [← hr]
      exact hplain rfl

/-- A steady step keeps the invariant. -/
theorem spaceStep_inv {e : SpaceEvent T S P} (h : SpaceInv k) (he : spaceEnabled k e)
    (hsteady : Steady k e) (hr : spaceStep k e = .ok k') : SpaceInv k' := by
  cases e with
  | sched e => exact schedEvent_inv h he.1 hsteady hr
  | execute t pg =>
      rcases bind_eq_ok.mp hr with ⟨sched, hstep, hr⟩
      rw [Except.ok.injEq] at hr
      rw [← hr]
      exact h.enterLists he.2.2.1 rfl hstep
  | clear =>
      rw [spaceStep, Except.ok.injEq] at hr
      rw [← hr]
      exact clearPgdir_inv h he.2
  | restore =>
      rw [spaceStep, Except.ok.injEq] at hr
      rw [← hr]
      exact restorePgdir_inv h
  | copyBegin pg =>
      rw [spaceStep, Except.ok.injEq] at hr
      rw [← hr]
      exact copyBegin_inv h he.2.1
  | copyEnd =>
      rw [spaceStep, Except.ok.injEq] at hr
      rw [← hr]
      exact copyEnd_inv h he.2

end Steps

omit [DecidableEq T] [DecidableEq S] in
theorem spaceInit_inv {k : Spaces T S P} (h : spaceInit k) : SpaceInv k := by
  rcases h with ⟨hsched, hcr3, hpg, hrest⟩
  have hbak : ∀ t, k.curPagedirBak t = none := fun t => (hrest t).1
  refine ⟨schedInit_inv hsched, ?_, ?_, ?_, ?_, ?_, ?_⟩
  · exact fun t ht => absurd (hbak t) ht
  · exact fun t _ => (hrest t).2
  · intro t p ht
    rw [hbak] at ht
    cases ht
  · intro p hp
    rw [hbak] at hp
    cases hp
  · intro _ _
    rw [hcr3]
    exact hpg.symm
  · intro hs
    change (k.sched.task k.sched.cur).pgdir.isSome = true at hs
    rw [hpg] at hs
    cases hs

/-- In every run in which no process is switched out while its `pgdir` is
    cleared, the process that runs is in its own address space. -/
theorem own_space (k : Spaces T S P) (h : ((spaceSystem T S P).restrict Steady).Reachable k) :
    OwnSpace k := by
  have hinv : SpaceInv k :=
    System.invariant_of_step ((spaceSystem T S P).restrict Steady) SpaceInv
      (fun _ hk => spaceInit_inv hk) (fun _ _ _ hi he hr => spaceStep_inv hi he.1 he.2 hr) k h
  exact hinv.ownSpace

section Runs

instance (k : Spaces T S P) (t : T) : Decidable (AtRest k t) :=
  inferInstanceAs (Decidable (_ ∧ _))

/-- The events in the runs below that are not `thread_unblock` can be tested. -/
noncomputable instance (k : Sched T S P) (e : SchedEvent T S P) : Decidable (schedEnabled k e) :=
  match e with
  | .timer => inferInstanceAs (Decidable (k.intr = .on))
  | .resume => inferInstanceAs (Decidable (k.inSemaDown k.cur ≠ none))
  | .block _ => inferInstanceAs (Decidable (_ ∧ (_ ∨ _ ∨ _) ∧ (_ → _)))
  | .unblock _ => Classical.propDecidable _
  | .yield => inferInstanceAs (Decidable (_ ∧ _))
  | .down _ => inferInstanceAs (Decidable (_ ∧ _))
  | .up _ => inferInstanceAs (Decidable (k.inSemaDown k.cur = none))
  | .start _ _ => inferInstanceAs (Decidable (_ ∧ _ ∧ _))
  | .fork _ _ => inferInstanceAs (Decidable (_ ∧ _ ∧ _))
  | .exit _ => inferInstanceAs (Decidable (_ ∧ _ ∧ _ ∧ _))

instance (e : SchedEvent T S P) : Decidable (OnlyLocks e) := by
  cases e <;> unfold OnlyLocks <;> infer_instance

noncomputable instance (k : Spaces T S P) (e : SpaceEvent T S P) :
    Decidable ((spaceSystem T S P).enabled k e) :=
  match e with
  | .sched e => inferInstanceAs (Decidable (schedEnabled k.sched e ∧
      (AtRest k k.sched.cur ∨ OnlyLocks e)))
  | .execute _ _ => inferInstanceAs (Decidable (_ ∧ _ ∧ _ ∧ AtRest k k.sched.cur))
  | .clear => inferInstanceAs (Decidable (_ ∧ AtRest k k.sched.cur))
  | .restore => inferInstanceAs (Decidable (_ ∧ _))
  | .copyBegin _ => inferInstanceAs (Decidable (_ ∧ AtRest k k.sched.cur ∧ _))
  | .copyEnd => inferInstanceAs (Decidable (_ ∧ _))

/-- The state after `thread_init`, where semaphore 7 is that of the lock of the
    kernel's pool. -/
def bootSpaces : Spaces Nat Nat Nat where
  sched := { bootSched with
    task := fun t => { bootSched.task t with pgdir := if t = 0 then some 0 else none }
    sema := Function.update bootSched.sema 7 (semaInit 1) }
  curPagedirBak _ := none
  copying _ := none

theorem bootSpaces_init : spaceInit bootSpaces := by
  refine ⟨⟨0, 1, 2, by decide, by decide, by decide, rfl, rfl, rfl, rfl, rfl, rfl, rfl,
    fun _ => rfl, fun s => ?_⟩, rfl, rfl, fun _ => ⟨rfl, rfl⟩⟩
  show (Function.update bootSched.sema 7 (semaInit 1) s).waiters = []
  by_cases hs : s = 7
  · rw [hs, Function.update_self]
    rfl
  · rw [Function.update_of_ne hs]
    rfl

/-- A process opens an inode while nobody holds the lock. -/
theorem own_space_inode_open :
    OwnSpace ((spaceSystem Nat Nat Nat).after bootSpaces
      [.sched .yield, .clear, .sched (.down 7), .sched (.up 7), .restore]) := by
  have hfree : (((spaceSystem Nat Nat Nat).next ((spaceSystem Nat Nat Nat).next bootSpaces
      (.sched .yield)) .clear).sched.sema 7).value ≠ 0 := by
    decide +kernel
  refine own_space _ (((spaceSystem Nat Nat Nat).restrict Steady).reachable_after _
    (.init _ bootSpaces_init) ?_)
  refine (spaceSystem Nat Nat Nat).runs_restrict Steady (by decide +kernel) ⟨?_, ?_, ?_, ?_, ?_, ?_⟩
  · intro p hp
    cases hp
  · exact True.intro
  · exact fun p _ hgive => hfree hgive
  · exact fun p _ hgive => hgive
  · exact True.intro
  · exact True.intro

/-- The main thread is interrupted while it holds the lock. The process clears
    its `pgdir`, waits for the lock, gets it when the main thread has given it
    back, and puts `pgdir` back. -/
def waitWithoutPgdir : List (SpaceEvent Nat Nat Nat) :=
  .sched (.down 7) :: List.replicate 32 (.sched .timer) ++
    [.clear, .sched (.down 7), .sched (.block .blocked), .sched (.up 7)] ++
    List.replicate 32 (.sched .timer) ++ [.sched .resume, .sched (.up 7), .restore]

/-- The process then runs in the address space of the kernel. -/
theorem own_space_lost :
    (spaceSystem Nat Nat Nat).Reachable ((spaceSystem Nat Nat Nat).after bootSpaces waitWithoutPgdir) ∧
      ¬ OwnSpace ((spaceSystem Nat Nat Nat).after bootSpaces waitWithoutPgdir) := by
  constructor
  · exact (spaceSystem Nat Nat Nat).reachable_after _ (.init _ bootSpaces_init) (by decide +kernel)
  · intro hown
    have hlost : ((spaceSystem Nat Nat Nat).after bootSpaces waitWithoutPgdir).sched.cr3 = none := by
      decide +kernel
    have hcr3 := (hown 0 (by decide +kernel) (by decide +kernel)).1
    rw [hlost] at hcr3
    cases hcr3

end Runs

end ForikOS
