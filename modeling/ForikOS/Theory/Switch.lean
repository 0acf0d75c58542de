import ForikOS.Theory.Scheduler

/-!
# What a Switch Leaves Alone

The scheduler moves tasks between the statuses of those that run or will run.
It never makes a task wait or hang, and never wakes one that does: only the
calls that name such a task do. So what the process table says about waiting
and hanging tasks is not changed by the timer or by a lock.

## Main definitions

* `Active`: The statuses the scheduler moves tasks between.
* `Calmly`: Statuses that differ for active tasks only.
* `SameTasks`: What the scheduler leaves alone.

## Theorems

* `schedule_calmly`: `schedule` moves active tasks only.
* `threadBlock_status`: The current task gets its status, and no other task is
  woken.
* `schedStep_sameTasks`: The timer, the idle task, and locks.
-/

namespace ForikOS

variable {T S P : Type} [DecidableEq T] [DecidableEq S]

/-- The statuses the scheduler moves tasks between. -/
def Active (st : TaskStatus) : Prop := st = .running ∨ st = .ready ∨ st = .blocked

/-- Statuses that differ for active tasks only. -/
def Calmly (st st' : T → TaskStatus) : Prop :=
  ∀ t, st' t = st t ∨ (Active (st t) ∧ Active (st' t))

omit [DecidableEq T] in
theorem Calmly.refl (st : T → TaskStatus) : Calmly st st := fun _ => Or.inl rfl

omit [DecidableEq T] in
theorem Calmly.trans {st st' st'' : T → TaskStatus} (h : Calmly st st') (h' : Calmly st' st'') :
    Calmly st st'' := by
  intro t
  rcases h t with h1 | h1 <;> rcases h' t with h2 | h2
  · exact Or.inl (h2.trans h1)
  · rw [h1] at h2
    exact Or.inr h2
  · rw [h2]
    exact Or.inr h1
  · exact Or.inr ⟨h1.1, h2.2⟩

theorem Calmly.update {st : T → TaskStatus} {t : T} {new : TaskStatus} (h : Active (st t))
    (hnew : Active new) : Calmly st (Function.update st t new) := by
  intro u
  by_cases hu : u = t
  · rw [hu, Function.update_self]
    exact Or.inr ⟨h, hnew⟩
  · rw [Function.update_of_ne hu]
    exact Or.inl rfl

omit [DecidableEq T] in
/-- A status that is not active is there before exactly if it is there after. -/
theorem Calmly.eq_iff {st st' : T → TaskStatus} (h : Calmly st st') {x : TaskStatus}
    (hx : ¬ Active x) (t : T) : st' t = x ↔ st t = x := by
  rcases h t with heq | ⟨h1, h2⟩
  · rw [heq]
  · constructor
    · intro hc
      rw [hc] at h2
      exact absurd h2 hx
    · intro hc
      rw [hc] at h1
      exact absurd h1 hx

theorem not_active_hanging : ¬ Active .hanging := by
  rintro (h | h | h) <;> cases h

theorem not_active_waiting : ¬ Active .waiting := by
  rintro (h | h | h) <;> cases h

/-- What the scheduler leaves alone. -/
structure SameTasks (k k' : Sched T S P) : Prop where
  all : k'.threadAllList = k.threadAllList
  idle : k'.idleThread = k.idleThread
  calmly : Calmly (statusOf k) (statusOf k')

omit [DecidableEq T] [DecidableEq S] in
theorem SameTasks.refl (k : Sched T S P) : SameTasks k k := ⟨rfl, rfl, Calmly.refl _⟩

omit [DecidableEq T] [DecidableEq S] in
theorem SameTasks.trans {k k' k'' : Sched T S P} (h : SameTasks k k') (h' : SameTasks k' k'') :
    SameTasks k k'' :=
  ⟨h'.all.trans h.all, h'.idle.trans h.idle, h.calmly.trans h'.calmly⟩

/-- The tasks the scheduler can turn to are active. -/
structure ReadyActive (k : Sched T S P) : Prop where
  ready : ∀ t, t ∈ k.threadReadyList → Active (statusOf k t)
  idle : Active (statusOf k k.idleThread)

omit [DecidableEq T] [DecidableEq S] in
theorem Linked.readyActive {k : Sched T S P} (h : LinkedState k) : ReadyActive k :=
  ⟨fun t ht => Or.inr (Or.inl ((h.mem_ready t).mp ht).2), h.idle_status⟩

omit [DecidableEq S] in
/-- An active task becomes ready. -/
theorem ReadyActive.makeReady {k k' : Sched T S P} {t : T} (h : ReadyActive k)
    (hst : statusOf k' = Function.update (statusOf k) t .ready)
    (hready : ∀ u, u ∈ k'.threadReadyList → u = t ∨ u ∈ k.threadReadyList)
    (hidle : k'.idleThread = k.idleThread) : ReadyActive k' := by
  have hact : ∀ u, (u = t ∨ Active (statusOf k u)) → Active (statusOf k' u) := by
    intro u hu
    rw [hst]
    by_cases hut : u = t
    · rw [hut, Function.update_self]
      exact Or.inr (Or.inl rfl)
    · rw [Function.update_of_ne hut]
      exact hu.resolve_left hut
  refine ⟨fun u hu => hact u ((hready u hu).imp id (h.ready u)), ?_⟩
  rw [hidle]
  exact hact _ (Or.inr h.idle)

omit [DecidableEq S] in
theorem threadUnblock_ok {k k' : Sched T S P} {t : T} (h : threadUnblock k t = .ok k') :
    IsBlocked (statusOf k t) ∧
      k' = { k with threadReadyList := t :: k.threadReadyList }.setStatus t .ready := by
  rw [threadUnblock] at h
  rcases bind_eq_ok.mp h with ⟨_, hst, h⟩
  rw [ensure_eq_ok] at hst
  have hnr : (k.task t).status ≠ .ready := by
    rcases hst with hc | hc | hc <;> (rw [hc]; exact fun hr => by cases hr)
  rw [if_pos hnr] at h
  rcases bind_eq_ok.mp h with ⟨_, _, h⟩
  rw [Except.ok.injEq] at h
  exact ⟨hst, h.symm⟩

omit [DecidableEq S] in
theorem scheduleOut_calmly {k k' : Sched T S P} (h : ReadyActive k)
    (hr : scheduleOut k = .ok k') : SameTasks k k' ∧ ReadyActive k' := by
  rw [scheduleOut] at hr
  by_cases hrun : (k.task k.cur).status = .running
  · rw [if_pos hrun] at hr
    rcases bind_eq_ok.mp hr with ⟨_, _, hr⟩
    rw [Except.ok.injEq] at hr
    have hst : statusOf k' = Function.update (statusOf k) k.cur .ready := by
      rw [← hr, statusOf_setTask]
      rfl
    refine ⟨⟨by rw [← hr]; rfl, by rw [← hr]; rfl, ?_⟩, ?_⟩
    · rw [hst]
      exact Calmly.update (Or.inl hrun) (Or.inr (Or.inl rfl))
    · refine h.makeReady hst (fun u hu => ?_) (by rw [← hr]; rfl)
      rw [← hr] at hu
      rcases List.mem_append.mp hu with hu | hu
      · exact Or.inr hu
      · exact Or.inl (List.mem_singleton.mp hu)
  · rw [if_neg hrun, Except.ok.injEq] at hr
    rw [← hr]
    exact ⟨SameTasks.refl k, h⟩

omit [DecidableEq S] in
theorem scheduleIn_calmly {k k' : Sched T S P} (h : ReadyActive k)
    (hr : scheduleIn k = .ok k') : SameTasks k k' := by
  rw [scheduleIn] at hr
  cases hl : k.threadReadyList with
  | nil =>
      rw [hl] at hr
      cases hr
  | cons next rest =>
      rw [hl, Except.ok.injEq] at hr
      have hst : statusOf k' = Function.update (statusOf k) next .running := by
        rw [← hr]
        exact statusOf_setStatus { k with threadReadyList := rest } next .running
      refine ⟨by rw [← hr]; rfl, by rw [← hr]; rfl, ?_⟩
      rw [hst]
      exact Calmly.update (h.ready next (by rw [hl]; exact List.mem_cons_self)) (Or.inl rfl)

omit [DecidableEq S] in
/-- `schedule` moves active tasks only. -/
theorem schedule_calmly {k k' : Sched T S P} (h : ReadyActive k) (hr : schedule k = .ok k') :
    SameTasks k k' := by
  rw [schedule] at hr
  rcases bind_eq_ok.mp hr with ⟨_, _, hr⟩
  rcases bind_eq_ok.mp hr with ⟨k₁, hout, hr⟩
  have h₁ := scheduleOut_calmly h hout
  -- With nothing ready the idle task becomes ready in between.
  by_cases hempty : k₁.threadReadyList = []
  · rw [if_pos hempty] at hr
    rcases bind_eq_ok.mp hr with ⟨k₂, hun, hr⟩
    have hk₂ := (threadUnblock_ok hun).2
    have hst : statusOf k₂ = Function.update (statusOf k₁) k₁.idleThread .ready := by
      rw [hk₂, statusOf_setStatus]
      rfl
    have h₂ : SameTasks k₁ k₂ := by
      refine ⟨by rw [hk₂]; rfl, by rw [hk₂]; rfl, ?_⟩
      rw [hst]
      exact Calmly.update h₁.2.idle (Or.inr (Or.inl rfl))
    have hact : ReadyActive k₂ := by
      refine h₁.2.makeReady hst (fun u hu => ?_) (by rw [hk₂]; rfl)
      rw [hk₂] at hu
      exact List.mem_cons.mp hu
    exact (h₁.1.trans h₂).trans (scheduleIn_calmly hact hr)
  · rw [if_neg hempty, ok_bind] at hr
    exact h₁.1.trans (scheduleIn_calmly h₁.2 hr)

omit [DecidableEq S] in
/-- `thread_block` gives the current task its status. No other task is woken
    that waits or hangs, and none is made to. -/
theorem threadBlock_status {k k' : Sched T S P} {st : TaskStatus}
    (h : Linked (Function.update (statusOf k) k.cur st) k.threadAllList k.threadReadyList
      (waitersOf k) k.idleThread)
    (hr : threadBlock k st = .ok k') :
    k'.threadAllList = k.threadAllList ∧ k'.idleThread = k.idleThread ∧
      Calmly (Function.update (statusOf k) k.cur st) (statusOf k') := by
  rw [threadBlock] at hr
  rcases bind_eq_ok.mp hr with ⟨_, _, hr⟩
  set k₁ := ({ k with intr := .off, oldStatus := Function.update k.oldStatus k.cur k.intr } :
    Sched T S P).setStatus k.cur st with hk₁
  have hst : statusOf k₁ = Function.update (statusOf k) k.cur st := statusOf_setStatus _ _ _
  have hact : ReadyActive k₁ :=
    Linked.readyActive (linkedState_of h hst rfl rfl rfl rfl)
  have hs := schedule_calmly hact hr
  exact ⟨hs.all, hs.idle, hst ▸ hs.calmly⟩

omit [DecidableEq T] [DecidableEq S] in
theorem SchedInv.cur_active {k : Sched T S P} (h : SchedInv k) : Active (statusOf k k.cur) :=
  Or.inl h.cur_running

omit [DecidableEq S] in
theorem intrTimerHandler_sameTasks {k k' : Sched T S P} (h : SchedInv k)
    (hr : intrTimerHandler k = .ok k') : SameTasks k k' := by
  unfold intrTimerHandler at hr
  dsimp only at hr
  have hsame : ∀ v : Task P, v.status = (k.task k.cur).status →
      statusOf (k.setTask k.cur v) = statusOf k := by
    intro v hv
    rw [statusOf_setTask, hv]
    exact Function.update_eq_self k.cur (statusOf k)
  by_cases ht : (k.task k.cur).ticks = 0
  · rw [if_pos ht] at hr
    set k₁ : Sched T S P := { k.setTask k.cur
      { k.task k.cur with elapsedTicks := (k.task k.cur).elapsedTicks + 1 } with
        intr := .off, oldStatus := Function.update k.oldStatus k.cur .on } with hk₁
    have hst : statusOf k₁ = statusOf k := hsame _ rfl
    have hact : ReadyActive k₁ := Linked.readyActive (linkedState_of h.linked hst rfl rfl rfl rfl)
    have hs := schedule_calmly hact hr
    exact ⟨hs.all, hs.idle, hst ▸ hs.calmly⟩
  · rw [if_neg ht, Except.ok.injEq] at hr
    rw [← hr]
    refine ⟨rfl, rfl, ?_⟩
    refine fun t => Or.inl ?_
    exact congrFun (hsame { k.task k.cur with
      elapsedTicks := (k.task k.cur).elapsedTicks + 1, ticks := (k.task k.cur).ticks - 1 } rfl) t

omit [DecidableEq S] in
theorem threadYield_sameTasks {k k' : Sched T S P} (h : SchedInv k)
    (hr : threadYield k = .ok k') : SameTasks k k' := by
  rw [threadYield] at hr
  rcases bind_eq_ok.mp hr with ⟨_, _, hr⟩
  set k₁ : Sched T S P := ({ k with
    intr := .off
    oldStatus := Function.update k.oldStatus k.cur k.intr
    threadReadyList := k.threadReadyList ++ [k.cur] } : Sched T S P).setStatus k.cur .ready with hk₁
  have hst : statusOf k₁ = Function.update (statusOf k) k.cur .ready := statusOf_setStatus _ _ _
  have hact : ReadyActive k₁ := by
    refine (Linked.readyActive h.linked).makeReady hst (fun u hu => ?_) rfl
    rcases List.mem_append.mp hu with hu | hu
    · exact Or.inr hu
    · exact Or.inl (List.mem_singleton.mp hu)
  have hs := schedule_calmly hact hr
  refine ⟨hs.all, hs.idle, Calmly.trans ?_ hs.calmly⟩
  rw [hst]
  exact Calmly.update h.cur_active (Or.inr (Or.inl rfl))

omit [DecidableEq S] in
/-- A task that is blocked is still one the scheduler can turn to. -/
theorem threadBlock_sameTasks {k k' : Sched T S P}
    (h : Linked (Function.update (statusOf k) k.cur .blocked) k.threadAllList k.threadReadyList
      (waitersOf k) k.idleThread)
    (hcur : Active (statusOf k k.cur)) (hr : threadBlock k .blocked = .ok k') :
    SameTasks k k' := by
  rcases threadBlock_status h hr with ⟨hall, hidle, hc⟩
  exact ⟨hall, hidle, (Calmly.update hcur (Or.inr (Or.inr rfl))).trans hc⟩

theorem semaDownLoop_sameTasks {k k' : Sched T S P} {s : S} {old : IntrStatus} (h : SchedInv k)
    (hidle : k.cur ≠ k.idleThread) (hr : semaDownLoop k s old = .ok k') : SameTasks k k' := by
  unfold semaDownLoop semaDownIter at hr
  by_cases hz : (k.sema s).value = 0
  · rw [if_pos hz] at hr
    rcases bind_eq_ok.mp hr with ⟨⟨p, blocks⟩, hp, hr⟩
    rcases bind_eq_ok.mp hp with ⟨_, _, hp⟩
    rw [Except.ok.injEq, Prod.mk.injEq] at hp
    rw [← hp.1, ← hp.2] at hr
    dsimp only at hr
    rw [if_pos rfl] at hr
    have hw := h.linked.wait h.cur_running h.cur_mem hidle s
    have hq := waitersOf_update k s { k.sema s with waiters := (k.sema s).waiters ++ [k.cur] }
    have hs := threadBlock_sameTasks (k := { k with
      sema := Function.update k.sema s { k.sema s with waiters := (k.sema s).waiters ++ [k.cur] }
      inSemaDown := Function.update k.inSemaDown k.cur (some (s, old)) }) (hq ▸ hw) h.cur_active hr
    exact ⟨hs.all, hs.idle, hs.calmly⟩
  · rw [if_neg hz] at hr
    rcases bind_eq_ok.mp hr with ⟨⟨p, blocks⟩, hp, hr⟩
    rcases bind_eq_ok.mp hp with ⟨_, _, hp⟩
    rw [Except.ok.injEq, Prod.mk.injEq] at hp
    rw [← hp.1, ← hp.2] at hr
    dsimp only at hr
    rw [if_neg Bool.false_ne_true, Except.ok.injEq] at hr
    rw [← hr]
    exact ⟨rfl, rfl, Calmly.refl _⟩

theorem semaUpCall_sameTasks {k k' : Sched T S P} {s : S} (h : SchedInv k)
    (hr : semaUpCall k s = .ok k') : SameTasks k k' := by
  rw [semaUpCall] at hr
  rcases bind_eq_ok.mp hr with ⟨⟨p, woken⟩, hp, hr⟩
  rw [semaUp] at hp
  rcases bind_eq_ok.mp hp with ⟨_, _, hp⟩
  rcases bind_eq_ok.mp hp with ⟨_, _, hp⟩
  rw [Except.ok.injEq, Prod.mk.injEq] at hp
  cases hw : woken with
  | none =>
      rw [hw, Except.ok.injEq] at hr
      rw [← hr]
      exact ⟨rfl, rfl, Calmly.refl _⟩
  | some t =>
      rw [hw] at hr
      -- The first waiter is blocked, so it is an active task that is woken.
      have hmem : t ∈ (k.sema s).waiters := List.mem_of_head? (hp.2.trans hw)
      have hblocked := (h.linked.waiters_blocked s t hmem).2.1
      have hk := (threadUnblock_ok hr).2
      refine ⟨by rw [hk]; rfl, by rw [hk]; rfl, ?_⟩
      rw [hk, statusOf_setStatus]
      exact Calmly.update (Or.inr (Or.inr hblocked)) (Or.inr (Or.inl rfl))

/-- The events that name no task that waits or hangs. -/
def SwitchOnly : SchedEvent T S P → Prop
  | .timer => True
  | .block st => st = .blocked
  | .yield => True
  | .down _ => True
  | .resume => True
  | .up _ => True
  | _ => False

/-- The timer, the idle task, and locks. -/
theorem schedStep_sameTasks {k k' : Sched T S P} {e : SchedEvent T S P} (h : SchedInv k)
    (he : schedEnabled k e) (hs : SwitchOnly e) (hr : schedStep k e = .ok k') : SameTasks k k' := by
  cases e with
  | timer => exact intrTimerHandler_sameTasks h hr
  | block st =>
      rw [SwitchOnly] at hs
      subst hs
      exact threadBlock_sameTasks (h.linked.block h.cur_running (Or.inl rfl) (fun _ => rfl))
        h.cur_active hr
  | yield => exact threadYield_sameTasks h hr
  | down s =>
      have hs := semaDownLoop_sameTasks (k := { k with intr := .off })
        ⟨h.linked, h.cur_mem, h.cur_running, h.running_cur, h.idle_calm⟩ he.2 hr
      exact ⟨hs.all, hs.idle, hs.calmly⟩
  | resume =>
      -- The idle task never waits for a semaphore, so it is not the one that goes on.
      cases hin : k.inSemaDown k.cur with
      | none => exact absurd hin he
      | some p =>
          have hcur : k.cur ≠ k.idleThread := by
            intro hc
            rw [hc, h.idle_calm] at hin
            cases hin
          have hstep : schedStep k .resume = semaDownLoop k p.1 p.2 := by
            simp only [schedStep, hin]
          rw [hstep] at hr
          exact semaDownLoop_sameTasks h hcur hr
  | up s => exact semaUpCall_sameTasks h hr
  | unblock t => exact absurd hs id
  | start t prio => exact absurd hs id
  | fork t pg => exact absurd hs id
  | exit t => exact absurd hs id

end ForikOS
