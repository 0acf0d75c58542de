import ForikOS.Theory.Scheduler

/-!
# No Wakeup Is Lost

`sema_up` wakes one waiter and raises the value, but it does not give the
semaphore to the thread it wakes. Between the two a third thread may come and
take it, and then the woken thread finds zero again and queues at the tail.
So a raised value does not say whose it is, and a thread may be in neither the
list of waiters nor past the loop.

What holds is that the value is never up with threads waiting and nobody on
the way to look at it. A woken thread keeps `inSemaDown` until it runs the
loop test, and it can leave the ready list only by running. `Waits` states
this for every semaphore at once. The step that raises the value makes its own
witness, the thread it pops; the steps that could spoil a witness are the two
ends of the loop test, and both leave the value at zero.

A thread inside the loop runs with interrupts off, so nothing comes between
its getting the processor and the test. That is kept too: what such a thread
restores when it is switched back in is `INTR_OFF`.

Everything else is scheduling, which neither touches a semaphore nor blocks a
thread other than the current one. `Wakeful` is what those steps have in common.

## Main definitions

* `Awake`: A task is ready or running.
* `Woken`: A task that has left the waiters and will test the value again.
* `Waits`: What the semaphores and the tasks inside `sema_down` keep.
* `Wakeful`: A step that changes no semaphore and puts no task to sleep.

## Theorems

* `schedule_wakeful`: Switching tasks is wakeful.
* `Waits.leave`: The current task may change its own status outside
  `sema_down`.
* `semaStep_waits`: A step keeps the invariant of the semaphores.
* `waiters_left_by_up`: Only `sema_up` takes a thread out of the waiters.
* `no_lost_wakeup`: In every reachable state a raised semaphore with waiters
  has a woken thread that will test it.
-/

namespace ForikOS

variable {T S P : Type} [DecidableEq T] [DecidableEq S]

/-- The task is ready or running. -/
def Awake (k : Sched T S P) (t : T) : Prop := statusOf k t = .ready ∨ statusOf k t = .running

/-- The task is inside the loop of `sema_down` and not asleep, so it will test
    the value again. -/
structure Woken (k : Sched T S P) (s : S) (t : T) : Prop where
  mem : t ∈ k.threadAllList
  down : ∃ old, k.inSemaDown t = some (s, old)
  awake : Awake k t

/-- Waiters are inside `sema_down`, a raised semaphore that has waiters also
    has a woken thread, and the loop of `sema_down` runs with interrupts off. -/
structure Waits (k : Sched T S P) : Prop where
  waiting : ∀ s t, t ∈ (k.sema s).waiters → ∃ old, k.inSemaDown t = some (s, old)
  woken : ∀ s, (k.sema s).value ≠ 0 → (k.sema s).waiters ≠ [] → ∃ t, Woken k s t
  quiet : ∀ t, k.inSemaDown t ≠ none → k.oldStatus t = .off
  masked : k.inSemaDown k.cur ≠ none → k.intr = .off

/-- The invariant of the scheduler and of the semaphores. -/
structure SemaInv (k : Sched T S P) : Prop where
  sched : SchedInv k
  waits : Waits k

/-- No semaphore changes, no task is put to sleep, and the processor is either
    left alone or handed to a task with the interrupt status it left with. -/
structure Wakeful (k k' : Sched T S P) : Prop where
  sema : k'.sema = k.sema
  down : k'.inSemaDown = k.inSemaDown
  all : k'.threadAllList = k.threadAllList
  old : k'.oldStatus = k.oldStatus
  awake : ∀ t, Awake k t → Awake k' t
  intr : (k'.cur = k.cur ∧ k'.intr = k.intr) ∨ k'.intr = k'.oldStatus k'.cur

namespace Wakeful

omit [DecidableEq T] [DecidableEq S] in
theorem refl (k : Sched T S P) : Wakeful k k :=
  ⟨rfl, rfl, rfl, rfl, fun _ h => h, Or.inl ⟨rfl, rfl⟩⟩

omit [DecidableEq T] [DecidableEq S] in
theorem trans {k₁ k₂ k₃ : Sched T S P} (h : Wakeful k₁ k₂) (h' : Wakeful k₂ k₃) : Wakeful k₁ k₃ := by
  refine ⟨h'.sema.trans h.sema, h'.down.trans h.down, h'.all.trans h.all, h'.old.trans h.old,
    fun t ht => h'.awake t (h.awake t ht), ?_⟩
  rcases h'.intr with ⟨hc, hi⟩ | hi
  · rw [hc, hi, h'.old]
    exact h.intr
  · exact Or.inr hi

omit [DecidableEq T] [DecidableEq S] in
theorem woken {k k' : Sched T S P} (h : Wakeful k k') {s : S} {t : T} (hw : Woken k s t) :
    Woken k' s t := by
  refine ⟨?_, ?_, h.awake t hw.awake⟩
  · rw [h.all]
    exact hw.mem
  · rw [h.down]
    exact hw.down

omit [DecidableEq T] [DecidableEq S] in
theorem waits {k k' : Sched T S P} (h : Wakeful k k') (hi : Waits k) : Waits k' := by
  refine ⟨?_, ?_, ?_, ?_⟩
  · rw [h.sema, h.down]
    exact hi.waiting
  · intro s hv hne
    rw [h.sema] at hv hne
    rcases hi.woken s hv hne with ⟨t, ht⟩
    exact ⟨t, h.woken ht⟩
  · rw [h.down, h.old]
    exact hi.quiet
  · intro hin
    rw [h.down] at hin
    rcases h.intr with ⟨hc, hintr⟩ | hintr
    · rw [hintr]
      rw [hc] at hin
      exact hi.masked hin
    · rw [hintr, h.old]
      exact hi.quiet _ hin

end Wakeful

omit [DecidableEq S] in
/-- Giving a task an awake status puts nobody to sleep. -/
theorem awake_setTask {k : Sched T S P} {t u : T} {v : Task P}
    (hv : v.status = .ready ∨ v.status = .running) (hu : Awake k u) : Awake (k.setTask t v) u := by
  unfold Awake
  rw [statusOf_setTask]
  by_cases hut : u = t
  · rw [hut, Function.update_self]
    exact hv
  · rw [Function.update_of_ne hut]
    exact hu

omit [DecidableEq S] in
theorem threadUnblock_wakeful {k k' : Sched T S P} {t : T} (h : threadUnblock k t = .ok k') :
    Wakeful k k' := by
  rcases bind_eq_ok.mp h with ⟨_, _, h⟩
  split at h
  · rcases bind_eq_ok.mp h with ⟨_, _, h⟩
    cases h
    exact ⟨rfl, rfl, rfl, rfl, fun u hu => awake_setTask (k := k) (Or.inl rfl) hu,
      Or.inl ⟨rfl, rfl⟩⟩
  · cases h
    exact Wakeful.refl k

omit [DecidableEq S] in
/-- A task is ready after it is unblocked. -/
theorem threadUnblock_ready {k k' : Sched T S P} {t : T} (h : threadUnblock k t = .ok k') :
    statusOf k' t = .ready := by
  rcases bind_eq_ok.mp h with ⟨_, _, h⟩
  split at h
  · rcases bind_eq_ok.mp h with ⟨_, _, h⟩
    cases h
    rw [statusOf_setStatus, Function.update_self]
  · rename_i hr
    cases h
    exact not_not.mp hr

omit [DecidableEq S] in
theorem scheduleOut_wakeful {k k' : Sched T S P} (h : scheduleOut k = .ok k') : Wakeful k k' := by
  simp only [scheduleOut] at h
  split at h
  · rcases bind_eq_ok.mp h with ⟨_, _, h⟩
    cases h
    exact ⟨rfl, rfl, rfl, rfl, fun u hu => awake_setTask (k := k) (Or.inl rfl) hu,
      Or.inl ⟨rfl, rfl⟩⟩
  · cases h
    exact Wakeful.refl k

omit [DecidableEq S] in
theorem scheduleIn_wakeful {k k' : Sched T S P} (h : scheduleIn k = .ok k') : Wakeful k k' := by
  unfold scheduleIn at h
  cases hr : k.threadReadyList with
  | nil =>
      rw [hr] at h
      cases h
  | cons next rest =>
      rw [hr] at h
      cases h
      exact ⟨rfl, rfl, rfl, rfl, fun u hu => awake_setTask (k := k) (Or.inr rfl) hu, Or.inr rfl⟩

omit [DecidableEq S] in
/-- Switching tasks puts nobody to sleep: the caller either goes back to the
    ready list or has changed its own status before. -/
theorem schedule_wakeful {k k' : Sched T S P} (h : schedule k = .ok k') : Wakeful k k' := by
  rcases bind_eq_ok.mp h with ⟨_, _, h⟩
  rcases bind_eq_ok.mp h with ⟨k₁, hout, h⟩
  refine (scheduleOut_wakeful hout).trans ?_
  -- With nothing ready the idle task is woken first.
  split at h
  · rcases bind_eq_ok.mp h with ⟨k₂, hidle, hin⟩
    exact (threadUnblock_wakeful hidle).trans (scheduleIn_wakeful hin)
  · exact scheduleIn_wakeful h

namespace Waits

omit [DecidableEq S] in
/-- The current task may do what it likes to its own PCB outside `sema_down`:
    it is no waiter and no witness. -/
theorem leave {k k' : Sched T S P} {v : Task P} (hi : Waits k) (hcur : k.inSemaDown k.cur = none)
    (htask : k'.task = Function.update k.task k.cur v) (hsema : k'.sema = k.sema)
    (hdown : k'.inSemaDown = k.inSemaDown) (hall : k'.threadAllList = k.threadAllList)
    (hold : ∀ t, t ≠ k.cur → k'.oldStatus t = k.oldStatus t) (hc : k'.cur = k.cur) : Waits k' := by
  -- A thread inside `sema_down` is not the one that leaves the processor.
  have hne : ∀ t, k.inSemaDown t ≠ none → t ≠ k.cur := by
    rintro t ht rfl
    exact ht hcur
  refine ⟨?_, ?_, ?_, ?_⟩
  · rw [hsema, hdown]
    exact hi.waiting
  · intro s hv hne'
    rw [hsema] at hv hne'
    rcases hi.woken s hv hne' with ⟨t, ht⟩
    have htc : t ≠ k.cur := by
      rcases ht.down with ⟨old, ho⟩
      refine hne t ?_
      rw [ho]
      exact fun hx => by cases hx
    refine ⟨t, hall ▸ ht.mem, hdown ▸ ht.down, ?_⟩
    -- The woken thread is another one than `cur`, so it is still awake.
    have hst : statusOf k' t = statusOf k t := by
      unfold statusOf
      rw [htask, Function.update_of_ne htc]
    unfold Awake
    rw [hst]
    exact ht.awake
  · intro t ht
    rw [hdown] at ht
    rw [hold t (hne t ht)]
    exact hi.quiet t ht
  · intro hin
    rw [hdown, hc] at hin
    exact absurd hcur hin

omit [DecidableEq T] in
/-- A step on the semaphore `s` has only `s` to account for, as long as the
    other semaphores keep their witnesses. -/
theorem other {k k' : Sched T S P} {s : S} {p : Semaphore T} (hi : Waits k)
    (hsema : k'.sema = Function.update k.sema s p)
    (hdown : ∀ s' t, s' ≠ s → t ∈ (k.sema s').waiters → k'.inSemaDown t = k.inSemaDown t)
    (hwoken : ∀ s' t, s' ≠ s → Woken k s' t → Woken k' s' t)
    (hwait : ∀ t, t ∈ p.waiters → ∃ old, k'.inSemaDown t = some (s, old))
    (hself : p.value ≠ 0 → p.waiters ≠ [] → ∃ t, Woken k' s t)
    (hquiet : ∀ t, k'.inSemaDown t ≠ none → k'.oldStatus t = .off)
    (hmask : k'.inSemaDown k'.cur ≠ none → k'.intr = .off) : Waits k' := by
  refine ⟨?_, ?_, hquiet, hmask⟩
  · intro s' t ht
    rw [hsema] at ht
    -- At the semaphore of the step the new facts hold, elsewhere the old ones.
    by_cases hs : s' = s
    · rw [hs, Function.update_self] at ht
      rw [hs]
      exact hwait t ht
    · rw [Function.update_of_ne hs] at ht
      rw [hdown s' t hs ht]
      exact hi.waiting s' t ht
  · intro s' hv hne
    rw [hsema] at hv hne
    by_cases hs : s' = s
    · rw [hs, Function.update_self] at hv hne
      rw [hs]
      exact hself hv hne
    · rw [Function.update_of_ne hs] at hv hne
      rcases hi.woken s' hv hne with ⟨t, ht⟩
      exact ⟨t, hwoken s' t hs ht⟩

end Waits

omit [DecidableEq S] in
theorem intrTimerHandler_waits {k k' : Sched T S P} (hi : Waits k) (hon : k.intr = .on)
    (h : intrTimerHandler k = .ok k') : Waits k' := by
  -- With interrupts on the current task is outside `sema_down`.
  have hcur : k.inSemaDown k.cur = none := by
    by_contra hc
    rw [hi.masked hc] at hon
    cases hon
  simp only [intrTimerHandler] at h
  split at h
  · exact (schedule_wakeful h).waits
      (hi.leave hcur rfl rfl rfl rfl (fun t ht => Function.update_of_ne ht _ _) rfl)
  · cases h
    exact hi.leave hcur rfl rfl rfl rfl (fun _ _ => rfl) rfl

omit [DecidableEq S] in
theorem threadBlock_waits {k k' : Sched T S P} {st : TaskStatus} (hi : Waits k)
    (hcur : k.inSemaDown k.cur = none) (h : threadBlock k st = .ok k') : Waits k' := by
  rcases bind_eq_ok.mp h with ⟨_, _, h⟩
  exact (schedule_wakeful h).waits
    (hi.leave hcur rfl rfl rfl rfl (fun t ht => Function.update_of_ne ht _ _) rfl)

omit [DecidableEq S] in
theorem threadYield_waits {k k' : Sched T S P} (hi : Waits k)
    (hcur : k.inSemaDown k.cur = none) (h : threadYield k = .ok k') : Waits k' := by
  rcases bind_eq_ok.mp h with ⟨_, _, h⟩
  exact (schedule_wakeful h).waits
    (hi.leave hcur rfl rfl rfl rfl (fun t ht => Function.update_of_ne ht _ _) rfl)

omit [DecidableEq T] [DecidableEq S] in
/-- The current task waits for nothing. -/
theorem SchedInv.cur_not_waiting {k : Sched T S P} (h : SchedInv k) (s : S) :
    k.cur ∉ (k.sema s).waiters :=
  h.linked.not_waiting (by
    rw [h.cur_running]
    exact fun hc => by cases hc) s

omit [DecidableEq T] [DecidableEq S] in
/-- The current task is a witness for no semaphore but the one it waits for. -/
theorem woken_ne_cur {k : Sched T S P} {s s' : S} {t : T}
    (hcur : ∀ s' old', k.inSemaDown k.cur = some (s', old') → s' = s) (hs : s' ≠ s)
    (hw : Woken k s' t) : t ≠ k.cur := by
  rintro rfl
  rcases hw.down with ⟨old', ho⟩
  exact hs (hcur s' old' ho)

/-- At value zero the current task joins the waiters and blocks. -/
theorem semaDownLoop_joins {k k' : Sched T S P} {s : S} {old : IntrStatus} (hk : SchedInv k)
    (hi : Waits k) (hoff : k.intr = .off)
    (hcur : ∀ s' old', k.inSemaDown k.cur = some (s', old') → s' = s) (hz : (k.sema s).value = 0)
    (h : threadBlock
      { k with
        sema := Function.update k.sema s
          { k.sema s with waiters := (k.sema s).waiters ++ [k.cur] }
        inSemaDown := Function.update k.inSemaDown k.cur (some (s, old)) } .blocked = .ok k') :
    Waits k' := by
  rcases bind_eq_ok.mp h with ⟨_, _, h⟩
  refine (schedule_wakeful h).waits ?_
  -- The caller was in no list, so nobody else has its place.
  have hnot := hk.cur_not_waiting
  refine hi.other (s := s) rfl ?_ ?_ ?_ (fun hv => absurd hz hv) ?_ (fun _ => rfl)
  · intro s' t _ ht
    have hne : t ≠ k.cur := fun hc => hnot s' (hc ▸ ht)
    exact Function.update_of_ne hne _ _
  · intro s' t hs hw
    have hne := woken_ne_cur hcur hs hw
    refine ⟨hw.mem, ?_, ?_⟩
    · show ∃ o, Function.update k.inSemaDown k.cur (some (s, old)) t = some (s', o)
      rw [Function.update_of_ne hne]
      exact hw.down
    · unfold Awake
      rw [statusOf_setStatus, Function.update_of_ne hne]
      exact hw.awake
  · intro t ht
    show ∃ o, Function.update k.inSemaDown k.cur (some (s, old)) t = some (s, o)
    rcases List.mem_append.mp ht with ht | ht
    · have hne : t ≠ k.cur := fun hc => hnot s (hc ▸ ht)
      rw [Function.update_of_ne hne]
      exact hi.waiting s t ht
    · rw [List.mem_singleton.mp ht, Function.update_self]
      exact ⟨old, rfl⟩
  · -- What the caller will restore is the status it blocks with.
    intro t ht
    show Function.update k.oldStatus k.cur k.intr t = .off
    by_cases htc : t = k.cur
    · rw [htc, Function.update_self]
      exact hoff
    · rw [Function.update_of_ne htc]
      refine hi.quiet t ?_
      have hd : Function.update k.inSemaDown k.cur (some (s, old)) t ≠ none := ht
      rwa [Function.update_of_ne htc] at hd

/-- Otherwise it takes the semaphore and leaves the loop. -/
theorem semaDownLoop_takes {k : Sched T S P} {s : S} {p : Semaphore T} {old : IntrStatus}
    (hk : SchedInv k) (hi : Waits k)
    (hcur : ∀ s' old', k.inSemaDown k.cur = some (s', old') → s' = s) (hz : p.value = 0)
    (hw : p.waiters = (k.sema s).waiters) :
    Waits { k with
      sema := Function.update k.sema s p
      inSemaDown := Function.update k.inSemaDown k.cur none
      intr := old } := by
  -- The caller leaves `sema_down`; whoever waits or is woken is another task.
  have hnot := hk.cur_not_waiting
  refine hi.other (s := s) rfl ?_ ?_ ?_ (fun hv => absurd hz hv) ?_ ?_
  · intro s' t _ ht
    have hne : t ≠ k.cur := fun hc => hnot s' (hc ▸ ht)
    exact Function.update_of_ne hne _ _
  · intro s' t hs ht
    refine ⟨ht.mem, ?_, ht.awake⟩
    show ∃ o, Function.update k.inSemaDown k.cur none t = some (s', o)
    rw [Function.update_of_ne (woken_ne_cur hcur hs ht)]
    exact ht.down
  · intro t ht
    rw [hw] at ht
    have hne : t ≠ k.cur := fun hc => hnot s (hc ▸ ht)
    show ∃ o, Function.update k.inSemaDown k.cur none t = some (s, o)
    rw [Function.update_of_ne hne]
    exact hi.waiting s t ht
  · intro t ht
    have hd : Function.update k.inSemaDown k.cur none t ≠ none := ht
    by_cases htc : t = k.cur
    · rw [htc, Function.update_self] at hd
      exact absurd rfl hd
    · rw [Function.update_of_ne htc] at hd
      exact hi.quiet t hd
  · intro hin
    have hd : Function.update k.inSemaDown k.cur none k.cur ≠ none := hin
    rw [Function.update_self] at hd
    exact absurd rfl hd

/-- A round of the loop in `sema_down`. Whether the caller gets the semaphore
    or joins the waiters, the value is zero afterwards. -/
theorem semaDownLoop_waits {k k' : Sched T S P} {s : S} {old : IntrStatus} (hk : SchedInv k)
    (hi : Waits k) (hoff : k.intr = .off)
    (hcur : ∀ s' old', k.inSemaDown k.cur = some (s', old') → s' = s)
    (h : semaDownLoop k s old = .ok k') : Waits k' := by
  rcases bind_eq_ok.mp h with ⟨⟨p, blocks⟩, hiter, h⟩
  unfold semaDownIter at hiter
  split at hiter
  · rename_i hz
    rcases bind_eq_ok.mp hiter with ⟨_, _, hiter⟩
    cases hiter
    exact semaDownLoop_joins hk hi hoff hcur hz h
  · rcases bind_eq_ok.mp hiter with ⟨_, hone, hiter⟩
    cases hiter
    cases h
    exact semaDownLoop_takes hk hi hcur (ensure_eq_ok.mp hone) rfl

/-- `sema_up` raises the value and makes its own witness: the thread it pops. -/
theorem semaUpCall_waits {k k' : Sched T S P} {s : S} (hk : SchedInv k) (hi : Waits k)
    (h : semaUpCall k s = .ok k') : Waits k' := by
  rcases bind_eq_ok.mp h with ⟨⟨p, woken⟩, hup, h⟩
  rcases bind_eq_ok.mp hup with ⟨_, _, hup⟩
  rcases bind_eq_ok.mp hup with ⟨_, _, hup⟩
  cases hup
  cases hw : (k.sema s).waiters with
  | nil =>
      rw [hw] at h
      cases h
      refine hi.other (s := s) rfl (fun _ _ _ _ => rfl)
        (fun _ _ _ ht => ⟨ht.mem, ht.down, ht.awake⟩) ?_ ?_ hi.quiet hi.masked
      · intro t ht
        exact absurd ht List.not_mem_nil
      · -- Nobody waits, so nobody has to be woken.
        intro _ hne
        exact absurd rfl hne
  | cons t rest =>
      rw [hw] at h
      have hun : threadUnblock { k with
          sema := Function.update k.sema s { value := (k.sema s).value + 1, waiters := rest } } t
          = .ok k' := h
      have hmem : t ∈ (k.sema s).waiters := by
        rw [hw]
        exact List.mem_cons_self
      have hwake := threadUnblock_wakeful hun
      have hb := hk.linked.waiters_blocked s t hmem
      refine hi.other (s := s) hwake.sema ?_ ?_ ?_ ?_ ?_ ?_
      · intro s' u _ _
        rw [hwake.down]
      · intro s' u _ hu
        exact hwake.woken ⟨hu.mem, hu.down, hu.awake⟩
      · intro u hu
        rw [hwake.down]
        refine hi.waiting s u ?_
        rw [hw]
        exact List.mem_cons_of_mem t hu
      · intro _ _
        -- The popped thread is ready, and it is still inside sema_down.
        refine ⟨t, ?_, ?_, Or.inl (threadUnblock_ready hun)⟩
        · rw [hwake.all]
          exact hb.1
        · rw [hwake.down]
          exact hi.waiting s t hmem
      · rw [hwake.down, hwake.old]
        exact hi.quiet
      · intro hin
        rw [hwake.down] at hin
        rcases hwake.intr with ⟨hc, hintr⟩ | hintr
        · rw [hc] at hin
          rw [hintr]
          exact hi.masked hin
        · rw [hintr, hwake.old]
          exact hi.quiet _ hin

omit [DecidableEq S] in
/-- A new task is in no semaphore, and no woken thread is new. -/
theorem enterLists_waits {k k' : Sched T S P} {f : Func} {t : T} {v : Task P} (hk : SchedInv k)
    (hi : Waits k) (hnew : t ∉ k.threadAllList) (hv : v.status = .ready)
    (h : enterLists k f t v = .ok k') : Waits k' := by
  rcases bind_eq_ok.mp h with ⟨_, _, h⟩
  rcases bind_eq_ok.mp h with ⟨_, _, h⟩
  cases h
  -- Nothing is known of the new task, and all others are not it.
  have hne : ∀ u, u ∈ k.threadAllList → u ≠ t := by
    rintro u hu rfl
    exact hnew hu
  refine ⟨?_, ?_, ?_, ?_⟩
  · intro s u hu
    have hmem := (hk.linked.waiters_blocked s u hu).1
    show ∃ old, Function.update k.inSemaDown t none u = some (s, old)
    rw [Function.update_of_ne (hne u hmem)]
    exact hi.waiting s u hu
  · intro s hval hw
    rcases hi.woken s hval hw with ⟨u, hu⟩
    refine ⟨u, List.mem_append.mpr (Or.inl hu.mem), ?_, awake_setTask (Or.inl hv) hu.awake⟩
    show ∃ old, Function.update k.inSemaDown t none u = some (s, old)
    rw [Function.update_of_ne (hne u hu.mem)]
    exact hu.down
  · intro u hu
    have hd : Function.update k.inSemaDown t none u ≠ none := hu
    show Function.update k.oldStatus t .on u = .off
    by_cases hut : u = t
    · rw [hut, Function.update_self] at hd
      exact absurd rfl hd
    · rw [Function.update_of_ne hut] at hd
      rw [Function.update_of_ne hut]
      exact hi.quiet u hd
  · intro hin
    have hd : Function.update k.inSemaDown t none k.cur ≠ none := hin
    rw [Function.update_of_ne (hne k.cur hk.cur_mem)] at hd
    exact hi.masked hd

omit [DecidableEq S] in
/-- The task that leaves is hanging, so it is not the woken one. -/
theorem threadExit_waits {k : Sched T S P} {t : T} (hk : SchedInv k) (hi : Waits k)
    (hst : statusOf k t = .hanging) : Waits (threadExit k t) := by
  refine ⟨hi.waiting, ?_, hi.quiet, fun _ => rfl⟩
  intro s hv hne
  rcases hi.woken s hv hne with ⟨u, hu⟩
  have hut : u ≠ t := by
    rintro rfl
    rcases hu.awake with hc | hc <;> (rw [hst] at hc; cases hc)
  refine ⟨u, hk.linked.all_nodup.mem_erase_iff.mpr ⟨hut, hu.mem⟩, hu.down, ?_⟩
  have hs : statusOf (threadExit k t) = Function.update (statusOf k) t .died :=
    statusOf_setStatus _ _ _
  unfold Awake
  rw [hs, Function.update_of_ne hut]
  exact hu.awake

/-- A step keeps the invariant of the semaphores. -/
theorem semaStep_waits {k k' : Sched T S P} {e : SchedEvent T S P} (hk : SchedInv k)
    (hi : Waits k) (he : schedEnabled k e) (h : schedStep k e = .ok k') : Waits k' := by
  cases e with
  | timer => exact intrTimerHandler_waits hi he h
  | block st => exact threadBlock_waits hi he.1 h
  | unblock t => exact (threadUnblock_wakeful h).waits hi
  | yield => exact threadYield_waits hi he.1 h
  | down s =>
      -- The caller is in no `sema_down` yet, and interrupts are masked first.
      have hcur : k.inSemaDown k.cur = none := he.1
      have hk' : SchedInv { k with intr := .off } :=
        ⟨hk.linked, hk.cur_mem, hk.cur_running, hk.running_cur, hk.idle_calm⟩
      have hi' : Waits { k with intr := .off } :=
        ⟨hi.waiting, fun s hv hne =>
          (hi.woken s hv hne).imp (fun t ht => ⟨ht.mem, ht.down, ht.awake⟩), hi.quiet,
          fun _ => rfl⟩
      refine semaDownLoop_waits hk' hi' rfl ?_ h
      intro s' old' ho
      rw [show k.inSemaDown k.cur = some (s', old') from ho] at hcur
      cases hcur
  | resume =>
      cases hin : k.inSemaDown k.cur with
      | none => exact absurd hin he
      | some p =>
          -- The loop goes on for the semaphore at which the caller has waited.
          have hstep : schedStep k .resume = semaDownLoop k p.1 p.2 := by
            simp only [schedStep, hin]
          rw [hstep] at h
          refine semaDownLoop_waits hk hi (hi.masked he) ?_ h
          intro s' old' ho
          rw [hin] at ho
          cases ho
          rfl
  | up s => exact semaUpCall_waits hk hi h
  | start t prio => exact enterLists_waits hk hi he.2.2 rfl h
  | fork t pg => exact enterLists_waits hk hi he.2.2 rfl h
  | exit t =>
      cases h
      exact threadExit_waits hk hi he.2.2.2

theorem semaReachable_inv {k : Sched T S P} (h : (schedSystem T S P).Reachable k) : SemaInv k := by
  refine System.invariant_of_step _ SemaInv ?_ ?_ k h
  · intro k hk
    refine ⟨schedInit_inv hk, ?_⟩
    rcases hk with ⟨_, _, _, _, _, _, _, _, _, _, _, _, _, hdown, hw⟩
    refine ⟨?_, ?_, ?_, ?_⟩
    · intro s t ht
      rw [hw s] at ht
      exact absurd ht List.not_mem_nil
    · intro s _ hne
      exact absurd (hw s) hne
    · intro t ht
      exact absurd (hdown t) ht
    · intro hin
      exact absurd (hdown k.cur) hin
  · intro k e k' hi he hs
    exact ⟨schedStep_keeps hi.sched he hs, semaStep_waits hi.sched hi.waits he hs⟩

omit [DecidableEq S] in
theorem intrTimerHandler_sema {k k' : Sched T S P} (h : intrTimerHandler k = .ok k') :
    k'.sema = k.sema := by
  simp only [intrTimerHandler] at h
  split at h
  · exact (schedule_wakeful h).sema
  · cases h
    rfl

theorem semaDownLoop_waiters {k k' : Sched T S P} {s s' : S} {old : IntrStatus} {t : T}
    (h : semaDownLoop k s old = .ok k') (ht : t ∈ (k.sema s').waiters) :
    t ∈ (k'.sema s').waiters := by
  have hkeep : ∀ p : Semaphore T, (∀ u, u ∈ (k.sema s).waiters → u ∈ p.waiters) →
      t ∈ (Function.update k.sema s p s').waiters := by
    intro p hp
    by_cases hs : s' = s
    · rw [hs, Function.update_self]
      exact hp t (hs ▸ ht)
    · rw [Function.update_of_ne hs]
      exact ht
  rcases bind_eq_ok.mp h with ⟨⟨p, blocks⟩, hiter, h⟩
  unfold semaDownIter at hiter
  split at hiter
  · rcases bind_eq_ok.mp hiter with ⟨_, _, hiter⟩
    cases hiter
    rcases bind_eq_ok.mp h with ⟨_, _, h⟩
    rw [(schedule_wakeful h).sema]
    exact hkeep _ (fun u hu => List.mem_append.mpr (Or.inl hu))
  · rcases bind_eq_ok.mp hiter with ⟨_, _, hiter⟩
    cases hiter
    cases h
    exact hkeep _ (fun u hu => hu)

/-- Only `sema_up` takes a thread out of the waiters. -/
theorem waiters_left_by_up {k k' : Sched T S P} {e : SchedEvent T S P} {s : S} {t : T}
    (h : schedStep k e = .ok k') (ht : t ∈ (k.sema s).waiters) (ht' : t ∉ (k'.sema s).waiters) :
    e = .up s := by
  -- Every event but two leaves the semaphores alone. sema_down only adds.
  have hsame : k'.sema = k.sema → e = .up s := by
    intro hs
    rw [hs] at ht'
    exact absurd ht ht'
  cases e with
  | timer => exact hsame (intrTimerHandler_sema h)
  | block st =>
      rcases bind_eq_ok.mp h with ⟨_, _, h⟩
      exact hsame (schedule_wakeful h).sema
  | unblock u => exact hsame (threadUnblock_wakeful h).sema
  | yield =>
      rcases bind_eq_ok.mp h with ⟨_, _, h⟩
      exact hsame (schedule_wakeful h).sema
  | down s' => exact absurd (semaDownLoop_waiters h ht) ht'
  | resume =>
      simp only [schedStep] at h
      split at h
      · cases h
        exact absurd ht ht'
      · exact absurd (semaDownLoop_waiters h ht) ht'
  | up s' =>
      by_cases hs : s = s'
      · rw [hs]
      · -- The other semaphores keep their lists.
        exfalso
        apply ht'
        rcases bind_eq_ok.mp h with ⟨⟨p, woken⟩, _, h⟩
        have hsema : k'.sema = Function.update k.sema s' p := by
          cases woken with
          | none =>
              cases h
              rfl
          | some u => exact (threadUnblock_wakeful h).sema
        rw [hsema, Function.update_of_ne hs]
        exact ht
  | start u prio =>
      rcases bind_eq_ok.mp h with ⟨_, _, h⟩
      rcases bind_eq_ok.mp h with ⟨_, _, h⟩
      cases h
      exact absurd ht ht'
  | fork u pg =>
      rcases bind_eq_ok.mp h with ⟨_, _, h⟩
      rcases bind_eq_ok.mp h with ⟨_, _, h⟩
      cases h
      exact absurd ht ht'
  | exit u =>
      cases h
      exact absurd ht ht'

omit [DecidableEq T] [DecidableEq S] in
/-- A task inside `sema_down` that has the processor does nothing before the
    loop test. -/
theorem Waits.only_resume {k : Sched T S P} (hi : Waits k) (hin : k.inSemaDown k.cur ≠ none)
    {e : SchedEvent T S P} (he : schedEnabled k e) : e = .resume := by
  cases e with
  | timer =>
      have hon : k.intr = .on := he
      rw [hi.masked hin] at hon
      cases hon
  | resume => rfl
  | up s => exact absurd he hin
  | _ => exact absurd he.1 hin

/-- In every state reachable by any interleaving, for every semaphore: if its
    value is one and threads wait for it, then some thread inside the loop of
    `sema_down` has left the waiters, is ready or running, and tests the value
    before it does anything else; so it cannot be that every thread in
    `sema_down` is blocked. A thread inside the loop that is not in the list
    was taken out of it by `sema_up`. A `sema_up` at a value other than zero
    stops the machine. -/
theorem no_lost_wakeup (k : Sched T S P) (h : (schedSystem T S P).Reachable k) (s : S) :
    ((k.sema s).value = 1 → (k.sema s).waiters ≠ [] →
      ∃ t old, k.inSemaDown t = some (s, old) ∧ t ∉ (k.sema s).waiters ∧
        ((k.task t).status = .ready ∨ (k.task t).status = .running) ∧
        (k.cur = t → ∀ e, schedEnabled k e → e = .resume)) ∧
    ¬ ((k.sema s).value = 1 ∧ (k.sema s).waiters ≠ [] ∧
      ∀ t old, k.inSemaDown t = some (s, old) → (k.task t).status = .blocked) ∧
    ∀ e k' t, schedEnabled k e → schedStep k e = .ok k' → t ∈ (k.sema s).waiters →
      t ∉ (k'.sema s).waiters → e = .up s := by
  have hinv := semaReachable_inv h
  have hone : ∀ v : UInt8, v = 1 → v ≠ 0 := by
    rintro v rfl
    decide
  refine ⟨?_, ?_, ?_⟩
  · -- The invariant has a woken thread; it is not a waiter any more, for it is awake.
    intro hv hne
    rcases hinv.waits.woken s (hone _ hv) hne with ⟨t, hmem, ⟨old, ho⟩, haw⟩
    refine ⟨t, old, ho, ?_, haw, ?_⟩
    · refine hinv.sched.linked.not_waiting ?_ s
      rcases haw with hc | hc <;> rw [hc] <;> exact fun hx => by cases hx
    · rintro rfl e he
      refine hinv.waits.only_resume ?_ he
      rw [ho]
      exact fun hx => by cases hx
  · -- The woken thread is inside `sema_down` and would be blocked as well.
    rintro ⟨hv, hne, hall⟩
    rcases hinv.waits.woken s (hone _ hv) hne with ⟨t, _, ⟨old, ho⟩, haw⟩
    have hb : statusOf k t = .blocked := hall t old ho
    rcases haw with hc | hc <;> (rw [hb] at hc; cases hc)
  · intro e k' t _ hs ht ht'
    exact waiters_left_by_up hs ht ht'

/-- `no_lost_wakeup` after two threads have gone to wait for a semaphore and an
    interrupt handler has raised it while the idle task ran. -/
theorem no_lost_wakeup_two_wait :
    ∃ k, (schedSystem Nat Nat Nat).Reachable k ∧ (k.sema 7).value = 1 ∧ (k.sema 7).waiters = [0] ∧
      ∃ t old, k.inSemaDown t = some (7, old) ∧ t ∉ (k.sema 7).waiters ∧
        ((k.task t).status = .ready ∨ (k.task t).status = .running) := by
  have hreach := (schedSystem Nat Nat Nat).reachable_after [.down 7, .down 7, .up 7]
    (System.Reachable.init _ bootSched_init)
    ⟨⟨rfl, by decide⟩, rfl, ⟨rfl, by decide⟩, rfl, rfl, rfl, trivial⟩
  refine ⟨_, hreach, rfl, rfl, ?_⟩
  rcases (no_lost_wakeup _ hreach 7).1 rfl (by
    exact fun hc => by cases hc) with ⟨t, old, ho, hnot, hst, _⟩
  exact ⟨t, old, ho, hnot, hst⟩

end ForikOS
