import ForikOS.Theory.Switch
import ForikOS.Theory.Semaphore
import ForikOS.Lib.Progress
import Mathlib.Algebra.Order.BigOperators.Group.List
import Mathlib.Algebra.Order.Ring.Nat

/-!
# How Long a Ready Task Waits

The tasks stand in a line: the current task, then the ready list. A task whose
slice is over goes to its end, and so do new tasks. But `thread_unblock` puts
the task it wakes at the head of the ready list, in front of all that wait there
already, and tasks block and are woken as often as they like. So how far a task
is from the head of the line says nothing about how long it waits.

What says it are the ticks. A task gets new ones only when its slice is over,
and then it is behind everybody who waits at that time. Until it has had its
turn, a ready task `t` can be kept waiting by each other task for no more than
the ticks that one has left, however often it blocks and is woken meanwhile, and
not at all by those that are behind `t`. The sum of that is `ahead`. No event
adds to it, and each timer interrupt takes one off.

So `thread_unblock` is unfair, but nobody starves: a ready task gets the
processor before the timer has interrupted `ahead` times, in every run.

## Main definitions

* `line`, `behind`: The current task and the ready list, and the end of it.
* `slice`, `share`, `ahead`: What tasks can take before a task has its turn.
* `tick`: What an event takes off that.

## Theorems

* `schedule_line`: `schedule` takes the current task off the line.
* `schedStep_ahead`: What an event does to a ready task.
* `ready_runs`: Every ready task gets the processor.
-/

namespace ForikOS

variable {T S P : Type} [DecidableEq T] [DecidableEq S]

/-- The current task and, behind it, the ready list. -/
def line (k : Sched T S P) : List T := k.cur :: k.threadReadyList

/-- Those who stand behind the first `t` in a list. -/
def behind (t : T) : List T → List T
  | [] => []
  | u :: l => if u = t then l else behind t l

/-- The timer interrupts until a task's slice is over, the one that ends it
    included. -/
def slice (k : Sched T S P) (t : T) : Nat := (k.task t).ticks.toNat + 1

/-- What `u` can take before `t` has its turn. -/
def share (k : Sched T S P) (t u : T) : Nat :=
  if u = t ∨ u ∈ behind t (line k) then 0 else slice k u

/-- The timer interrupts there can be before `t` has its turn. -/
def ahead (k : Sched T S P) (t : T) : Nat := (k.threadAllList.map (share k t)).sum

/-- A timer interrupt, and nothing else, is a tick. -/
def tick (_ : Sched T S P) : SchedEvent T S P → Nat
  | .timer => 1
  | _ => 0

section Line

omit [DecidableEq S]

theorem behind_append {t : T} {l : List T} (h : t ∈ l) (m : List T) :
    behind t (l ++ m) = behind t l ++ m := by
  induction l with
  | nil => exact absurd h List.not_mem_nil
  | cons u l ih =>
      rw [List.cons_append, behind, behind]
      by_cases hu : u = t
      · rw [if_pos hu, if_pos hu]
      · have ht : t ∈ l := (List.mem_cons.mp h).resolve_left (fun hc => hu hc.symm)
        rw [if_neg hu, if_neg hu, ih ht]

theorem behind_cons {t u : T} (hu : u ≠ t) (l : List T) : behind t (u :: l) = behind t l := by
  rw [behind, if_neg hu]

theorem mem_of_behind {t u : T} {l : List T} (h : u ∈ behind t l) : u ∈ l := by
  induction l with
  | nil => exact h
  | cons v l ih =>
      rw [behind] at h
      by_cases hv : v = t
      · rw [if_pos hv] at h
        exact List.mem_cons_of_mem v h
      · rw [if_neg hv] at h
        exact List.mem_cons_of_mem v (ih h)

/-- A task takes no more than before, if it is behind, or has no more ticks. -/
theorem share_le {k k' : Sched T S P} {t u : T} {m : List T}
    (hb : behind t (line k') = behind t (line k) ++ m) (hs : u ∈ m ∨ slice k' u ≤ slice k u) :
    share k' t u ≤ share k t u := by
  rw [share, share, hb]
  by_cases hu : u = t ∨ u ∈ behind t (line k)
  · rw [if_pos (hu.imp_right (List.mem_append_left m))]
    exact Nat.zero_le _
  · rw [if_neg hu]
    by_cases hm : u ∈ m
    · rw [if_pos (Or.inr (List.mem_append_right _ hm))]
      exact Nat.zero_le _
    · have hu' : ¬ (u = t ∨ u ∈ behind t (line k) ++ m) := by
        rw [List.mem_append]
        tauto
      rw [if_neg hu']
      exact hs.resolve_left hm

/-- The sum over the same tasks. -/
theorem ahead_le {k k' : Sched T S P} {t : T} (hall : k'.threadAllList = k.threadAllList)
    (h : ∀ u ∈ k.threadAllList, share k' t u ≤ share k t u) : ahead k' t ≤ ahead k t := by
  rw [ahead, ahead, hall]
  exact List.sum_le_sum h

theorem ahead_lt {k k' : Sched T S P} {t u : T} (hall : k'.threadAllList = k.threadAllList)
    (h : ∀ u ∈ k.threadAllList, share k' t u ≤ share k t u) (hu : u ∈ k.threadAllList)
    (hlt : share k' t u < share k t u) : ahead k' t + 1 ≤ ahead k t := by
  rw [ahead, ahead, hall]
  exact List.sum_lt_sum _ _ h ⟨u, hu, hlt⟩

/-- A status is no part of a slice. -/
theorem slice_setStatus (k : Sched T S P) (t : T) (st : TaskStatus) (u : T) :
    slice (k.setStatus t st) u = slice k u := by
  by_cases hu : u = t
  · rw [hu]
    simp only [slice, Sched.setStatus, Sched.setTask, Function.update_self]
  · simp only [slice, Sched.setStatus, Sched.setTask, Function.update_of_ne hu]

theorem slice_setTask {k : Sched T S P} {t u : T} (hu : u ≠ t) (v : Task P) :
    slice (k.setTask t v) u = slice k u := by
  simp only [slice, Sched.setTask, Function.update_of_ne hu]

/-- A step that took the current task off the line and added `m` to its end. -/
structure MovesUp (k k' : Sched T S P) (m : List T) : Prop where
  line : line k' = k.threadReadyList ++ m
  all : k'.threadAllList = k.threadAllList
  slice : ∀ u, u ∈ m ∨ slice k' u = slice k u

namespace MovesUp

variable {k k₁ k' : Sched T S P} {m : List T} {t : T}

omit [DecidableEq T] in
theorem mem (h : MovesUp k k' m) (ht : t ∈ k.threadReadyList) : t ∈ ForikOS.line k' := by
  rw [h.line]
  exact List.mem_append_left m ht

theorem behind (h : MovesUp k k' m) (ht : t ∈ k.threadReadyList) (hne : k.cur ≠ t) :
    behind t (ForikOS.line k') = behind t (ForikOS.line k) ++ m := by
  rw [h.line, behind_append ht, ForikOS.line, behind_cons hne]

theorem share_le (h : MovesUp k k' m) (ht : t ∈ k.threadReadyList) (hne : k.cur ≠ t) (u : T) :
    share k' t u ≤ share k t u :=
  ForikOS.share_le (h.behind ht hne) ((h.slice u).imp_right Nat.le_of_eq)

theorem ahead_le (h : MovesUp k k' m) (ht : t ∈ k.threadReadyList) (hne : k.cur ≠ t) :
    t ∈ ForikOS.line k' ∧ ahead k' t ≤ ahead k t :=
  ⟨h.mem ht, ForikOS.ahead_le h.all (fun u _ => h.share_le ht hne u)⟩

omit [DecidableEq T] in
/-- What is done to the current task before it leaves does not show. -/
theorem of_left (h : MovesUp k₁ k' m) (m₀ : List T)
    (hready : k₁.threadReadyList = k.threadReadyList ++ m₀)
    (hall : k₁.threadAllList = k.threadAllList)
    (hs : ∀ u, u ∈ m ∨ ForikOS.slice k₁ u = ForikOS.slice k u) : MovesUp k k' (m₀ ++ m) := by
  refine ⟨?_, h.all.trans hall, fun u => ?_⟩
  · rw [h.line, hready, List.append_assoc]
  · rw [List.mem_append]
    rcases h.slice u with hu | hu
    · exact Or.inl (Or.inr hu)
    · exact (hs u).imp Or.inr hu.trans

end MovesUp

/-- The head of the ready list becomes the current task, so the ready list
    becomes the line. -/
theorem scheduleIn_line {k k' : Sched T S P} (h : scheduleIn k = .ok k') :
    line k' = k.threadReadyList ∧ k'.threadAllList = k.threadAllList ∧
      ∀ u, slice k' u = slice k u := by
  rw [scheduleIn] at h
  cases hr : k.threadReadyList with
  | nil =>
      rw [hr] at h
      cases h
  | cons next rest =>
      rw [hr, Except.ok.injEq] at h
      refine ⟨by rw [← h]; rfl, by rw [← h]; rfl, fun u => ?_⟩
      rw [← h]
      exact slice_setStatus { k with threadReadyList := rest } next .running u

/-- A task that is still running goes to the end of the line, with new ticks. -/
theorem scheduleOut_line {k k' : Sched T S P} (h : scheduleOut k = .ok k') :
    ∃ m, k'.threadReadyList = k.threadReadyList ++ m ∧ k'.threadAllList = k.threadAllList ∧
      (∀ u, u ∈ m ∨ slice k' u = slice k u) ∧ (statusOf k k.cur = .running → k.cur ∈ m) := by
  rw [scheduleOut] at h
  by_cases hrun : (k.task k.cur).status = .running
  · rw [if_pos hrun] at h
    rcases bind_eq_ok.mp h with ⟨_, _, h⟩
    rw [Except.ok.injEq] at h
    refine ⟨[k.cur], by rw [← h]; rfl, by rw [← h]; rfl, fun u => ?_,
      fun _ => List.mem_singleton_self _⟩
    by_cases hu : u = k.cur
    · exact Or.inl (List.mem_singleton.mpr hu)
    · right
      rw [← h]
      exact slice_setTask (k := { k with threadReadyList := k.threadReadyList ++ [k.cur] }) hu _
  · rw [if_neg hrun, Except.ok.injEq] at h
    rw [← h]
    exact ⟨[], (List.append_nil _).symm, rfl, fun u => Or.inr rfl, fun hc => absurd hc hrun⟩

/-- With a task ready `schedule` does not turn to the idle task, and takes the
    current task off the line. -/
theorem schedule_line {k k' : Sched T S P} (hne : k.threadReadyList ≠ [])
    (h : schedule k = .ok k') :
    ∃ m, MovesUp k k' m ∧ (statusOf k k.cur = .running → k.cur ∈ m) := by
  rw [schedule] at h
  rcases bind_eq_ok.mp h with ⟨_, _, h⟩
  rcases bind_eq_ok.mp h with ⟨k₁, hout, h⟩
  rcases scheduleOut_line hout with ⟨m, hm, hall, hs, hrun⟩
  have hready : k₁.threadReadyList ≠ [] := by
    rw [hm]
    exact List.append_ne_nil_of_left_ne_nil hne m
  rw [if_neg hready, ok_bind] at h
  have hin := scheduleIn_line h
  refine ⟨m, ⟨hin.1.trans hm, hin.2.1.trans hall, fun u => ?_⟩, hrun⟩
  rw [hin.2.2 u]
  exact hs u

theorem threadBlock_line {k k' : Sched T S P} {st : TaskStatus} (hne : k.threadReadyList ≠ [])
    (h : threadBlock k st = .ok k') : ∃ m, MovesUp k k' m := by
  rw [threadBlock] at h
  rcases bind_eq_ok.mp h with ⟨_, _, h⟩
  rcases schedule_line (by exact hne) h with ⟨m, hm, _⟩
  exact ⟨[] ++ m, hm.of_left [] (List.append_nil _).symm rfl
    (fun u => Or.inr (slice_setStatus _ _ st u))⟩

/-- `thread_yield` puts the current task at the end of the list by itself, as a
    ready task, which `schedule` does not put there again. -/
theorem threadYield_line {k k' : Sched T S P} (h : threadYield k = .ok k') :
    ∃ m, MovesUp k k' m := by
  rw [threadYield] at h
  rcases bind_eq_ok.mp h with ⟨_, _, h⟩
  have hne : k.threadReadyList ++ [k.cur] ≠ [] :=
    List.append_ne_nil_of_right_ne_nil _ (List.cons_ne_nil _ _)
  rcases schedule_line (by exact hne) h with ⟨m, hm, _⟩
  exact ⟨[k.cur] ++ m, hm.of_left [k.cur] rfl rfl (fun u => Or.inr (slice_setStatus _ _ .ready u))⟩

/-- The tick that finds the slice over puts the current task behind all others. -/
theorem intrTimerHandler_line {k k' : Sched T S P} (hne : k.threadReadyList ≠ [])
    (hrun : statusOf k k.cur = .running) (hz : (k.task k.cur).ticks = 0)
    (h : intrTimerHandler k = .ok k') : ∃ m, MovesUp k k' m ∧ k.cur ∈ m := by
  rw [intrTimerHandler] at h
  dsimp only at h
  rw [if_pos hz] at h
  rcases schedule_line (by exact hne) h with ⟨m, hm, hcur⟩
  have hmem : k.cur ∈ m := by
    refine hcur ?_
    simp only [statusOf, Sched.setTask, Function.update_self]
    exact hrun
  refine ⟨[] ++ m, hm.of_left [] (List.append_nil _).symm rfl (fun u => ?_), hmem⟩
  by_cases hu : u = k.cur
  · exact Or.inl (hu ▸ hmem)
  · exact Or.inr (slice_setTask hu _)

/-- The current task is in front of all others. -/
theorem share_cur {k : Sched T S P} {t : T} (hne : k.cur ≠ t) (hcur : k.cur ∉ k.threadReadyList) :
    share k t k.cur = slice k k.cur := by
  have hb : k.cur ∉ behind t (line k) := by
    rw [line, behind_cons hne]
    exact fun hc => hcur (mem_of_behind hc)
  rw [share, if_neg]
  rintro (hc | hc)
  · exact hne hc
  · exact hb hc

/-- A tick takes one off what the current task can take. -/
theorem intrTimerHandler_ahead {k k' : Sched T S P} {t : T} (hinv : SchedInv k)
    (ht : t ∈ k.threadReadyList) (hne : k.cur ≠ t) (hcur : k.cur ∉ k.threadReadyList)
    (h : intrTimerHandler k = .ok k') : t ∈ line k' ∧ ahead k' t + 1 ≤ ahead k t := by
  have hfront := share_cur hne hcur
  by_cases hz : (k.task k.cur).ticks = 0
  · -- The slice is over, and the current task is behind `t` now.
    rcases intrTimerHandler_line (List.ne_nil_of_mem ht) hinv.cur_running hz h with ⟨m, hm, hmem⟩
    refine ⟨hm.mem ht, ahead_lt hm.all (fun u _ => hm.share_le ht hne u) hinv.cur_mem ?_⟩
    have hback : k.cur ∈ behind t (line k') := by
      rw [hm.behind ht hne]
      exact List.mem_append_right _ hmem
    rw [hfront, share, if_pos (Or.inr hback), slice]
    omega
  · -- The line stays as it is.
    rw [intrTimerHandler] at h
    dsimp only at h
    rw [if_neg hz, Except.ok.injEq] at h
    have hpos : 0 < (k.task k.cur).ticks.toNat := by
      rcases Nat.eq_zero_or_pos (k.task k.cur).ticks.toNat with h0 | h0
      · exact absurd (UInt8.toNat_inj.mp h0) hz
      · exact h0
    have hslice : slice k' k.cur + 1 = slice k k.cur := by
      have hle : (1 : UInt8) ≤ (k.task k.cur).ticks := UInt8.le_iff_toNat_le.mpr hpos
      rw [← h]
      simp only [slice, Sched.setTask, Function.update_self]
      rw [UInt8.toNat_sub_of_le _ _ hle]
      show (k.task k.cur).ticks.toNat - 1 + 1 + 1 = _
      omega
    have hline : line k' = line k := by
      rw [← h]
      rfl
    have hshare : ∀ u, share k' t u ≤ share k t u := by
      intro u
      refine share_le (m := []) (by rw [hline, List.append_nil]) (Or.inr ?_)
      by_cases hu : u = k.cur
      · rw [hu]
        omega
      · rw [← h, slice_setTask hu]
    refine ⟨by rw [hline]; exact List.mem_cons_of_mem k.cur ht, ?_⟩
    refine ahead_lt (by rw [← h]; rfl) (fun u _ => hshare u) hinv.cur_mem ?_
    have hcur' : share k' t k.cur = slice k' k.cur := by
      have hk : k'.cur = k.cur := by
        rw [← h]
        rfl
      rw [← hk]
      refine share_cur (hk ▸ hne) ?_
      rw [hk, ← h]
      exact hcur
    omega

/-- A task that is woken is in front of `t`, and could have taken its ticks
    before. -/
theorem threadUnblock_ahead {k k' : Sched T S P} {t u : T} (ht : t ∈ k.threadReadyList)
    (hne : k.cur ≠ t) (hut : u ≠ t) (h : threadUnblock k u = .ok k') :
    t ∈ line k' ∧ ahead k' t ≤ ahead k t := by
  have hk := (threadUnblock_ok h).2
  have hl : line k' = k.cur :: u :: k.threadReadyList := by
    rw [hk]
    rfl
  have hb : behind t (line k') = behind t (line k) ++ [] := by
    rw [hl, line, behind_cons hne, behind_cons hut, behind_cons hne, List.append_nil]
  refine ⟨?_, ahead_le (by rw [hk]; rfl) (fun v _ => share_le hb (Or.inr ?_))⟩
  · rw [hl]
    exact List.mem_cons_of_mem _ (List.mem_cons_of_mem _ ht)
  · rw [hk]
    exact Nat.le_of_eq
      (slice_setStatus { k with threadReadyList := u :: k.threadReadyList } u .ready v)

/-- A new task is behind all others, and takes nothing. -/
theorem enterLists_ahead {k k' : Sched T S P} {f : Func} {t u : T} {v : Task P}
    (ht : t ∈ k.threadReadyList) (hu : u ∉ k.threadAllList) (h : enterLists k f u v = .ok k') :
    t ∈ line k' ∧ ahead k' t ≤ ahead k t := by
  rw [enterLists] at h
  rcases bind_eq_ok.mp h with ⟨_, _, h⟩
  rcases bind_eq_ok.mp h with ⟨_, _, h⟩
  rw [Except.ok.injEq] at h
  have hmem : t ∈ line k := List.mem_cons_of_mem k.cur ht
  have hl : line k' = line k ++ [u] := by
    rw [← h]
    rfl
  have hb : behind t (line k') = behind t (line k) ++ [u] := by
    rw [hl, behind_append hmem]
  have hold : ∀ w ∈ k.threadAllList, share k' t w ≤ share k t w := by
    intro w hw
    have hwu : w ≠ u := fun hc => hu (hc ▸ hw)
    refine share_le hb (Or.inr ?_)
    rw [← h]
    exact Nat.le_of_eq (slice_setTask hwu v)
  -- The new thread stands behind `t`, so nothing of it runs in front of `t`.
  have hnew : share k' t u = 0 := by
    rw [share, hb, if_pos (Or.inr (List.mem_append_right _ (List.mem_singleton_self u)))]
  have hall : k'.threadAllList = k.threadAllList ++ [u] := by
    rw [← h]
  constructor
  · rw [hl]
    exact List.mem_append_left _ hmem
  · rw [ahead, ahead, hall, List.map_append, List.sum_append, List.map_singleton,
      List.sum_singleton, hnew, Nat.add_zero]
    exact List.sum_le_sum hold

/-- What a task that is gone could have taken is not taken. -/
theorem threadExit_ahead {k : Sched T S P} {t u : T} (ht : t ∈ k.threadReadyList)
    (hu : u ∉ k.threadReadyList) :
    t ∈ line (threadExit k u) ∧ ahead (threadExit k u) t ≤ ahead k t := by
  have hl : line (threadExit k u) = line k := congrArg (List.cons k.cur) (if_neg hu)
  have hshare : ∀ w, share (threadExit k u) t w = share k t w := by
    intro w
    have hs : slice (threadExit k u) w = slice k w :=
      slice_setStatus { k with intr := .off } u .died w
    rw [share, share, hl, hs]
  constructor
  · rw [hl]
    exact List.mem_cons_of_mem k.cur ht
  · rw [ahead, ahead, List.map_congr_left (fun w _ => hshare w)]
    exact ((List.erase_sublist (a := u) (l := k.threadAllList)).map _).sum_le_sum
      (fun _ _ => Nat.zero_le _)

end Line

/-- A round of the loop in `sema_down` gives the processor up, or it takes the
    semaphore and leaves the line alone. -/
theorem semaDownLoop_ahead {k k' : Sched T S P} {s : S} {old : IntrStatus} {t : T}
    (ht : t ∈ k.threadReadyList) (hne : k.cur ≠ t) (h : semaDownLoop k s old = .ok k') :
    t ∈ line k' ∧ ahead k' t ≤ ahead k t := by
  rw [semaDownLoop] at h
  rcases bind_eq_ok.mp h with ⟨⟨p, blocks⟩, _, h⟩
  dsimp only at h
  cases blocks with
  | true =>
      rw [if_pos rfl] at h
      rcases threadBlock_line (by exact List.ne_nil_of_mem ht) h with ⟨m, hm⟩
      exact hm.ahead_le ht hne
  | false =>
      rw [if_neg Bool.false_ne_true, Except.ok.injEq] at h
      rw [← h]
      exact ⟨List.mem_cons_of_mem k.cur ht, Nat.le_refl _⟩

/-- `sema_up` wakes the first waiter, if there is one. -/
theorem semaUpCall_ahead {k k' : Sched T S P} {s : S} {t : T} (ht : t ∈ k.threadReadyList)
    (hne : k.cur ≠ t) (hw : t ∉ (k.sema s).waiters) (h : semaUpCall k s = .ok k') :
    t ∈ line k' ∧ ahead k' t ≤ ahead k t := by
  rw [semaUpCall] at h
  rcases bind_eq_ok.mp h with ⟨⟨p, w⟩, hup, h⟩
  rw [semaUp] at hup
  rcases bind_eq_ok.mp hup with ⟨_, _, hup⟩
  rcases bind_eq_ok.mp hup with ⟨_, _, hup⟩
  rw [Except.ok.injEq, Prod.mk.injEq] at hup
  rw [← hup.2] at h
  cases hq : (k.sema s).waiters with
  | nil =>
      rw [hq] at h
      rw [← Except.ok.inj h]
      exact ⟨List.mem_cons_of_mem k.cur ht, Nat.le_refl _⟩
  | cons u rest =>
      rw [hq] at h
      have hut : u ≠ t := by
        rintro rfl
        exact hw (by rw [hq]; exact List.mem_cons_self)
      exact threadUnblock_ahead (k := { k with sema := Function.update k.sema s p }) ht hne hut h

/-- No event adds to what a ready task may have to wait for, and a timer
    interrupt takes one off. -/
theorem schedStep_ahead {k k' : Sched T S P} {e : SchedEvent T S P} {t : T} (hinv : SchedInv k)
    (ht : t ∈ k.threadReadyList) (he : schedEnabled k e) (h : schedStep k e = .ok k') :
    t ∈ line k' ∧ ahead k' t + tick k e ≤ ahead k t := by
  have hready : statusOf k t = .ready := ((hinv.linked.mem_ready t).mp ht).2
  have hcur : k.cur ∉ k.threadReadyList := hinv.linked.not_mem_ready (by
    rw [hinv.cur_running]
    exact fun hc => by cases hc)
  have hne : k.cur ≠ t := fun hc => hcur (hc ▸ ht)
  have hnil : k.threadReadyList ≠ [] := List.ne_nil_of_mem ht
  -- `t` is in the line and stays there, and no event puts a task in front of it.
  cases e with
  | timer => exact intrTimerHandler_ahead hinv ht hne hcur h
  | block st =>
      rcases threadBlock_line hnil h with ⟨m, hm⟩
      exact hm.ahead_le ht hne
  | unblock u =>
      refine threadUnblock_ahead ht hne ?_ h
      rintro rfl
      rcases he.2.2.1 with hc | hc | hc <;> (rw [statusOf, hc] at hready; cases hready)
  | yield =>
      rcases threadYield_line h with ⟨m, hm⟩
      exact hm.ahead_le ht hne
  | down s => exact semaDownLoop_ahead (k := { k with intr := .off }) ht hne h
  | resume =>
      cases hin : k.inSemaDown k.cur with
      | none => exact absurd hin he
      | some p =>
          have hstep : schedStep k .resume = semaDownLoop k p.1 p.2 := by
            simp only [schedStep, hin]
          rw [hstep] at h
          exact semaDownLoop_ahead ht hne h
  | up s =>
      refine semaUpCall_ahead ht hne (hinv.linked.not_waiting ?_ s) h
      rw [hready]
      exact fun hc => by cases hc
  | start u prio => exact enterLists_ahead ht he.2.2 h
  | fork u pg => exact enterLists_ahead ht he.2.2 h
  | exit u =>
      rw [← Except.ok.inj h]
      refine threadExit_ahead ht (hinv.linked.not_mem_ready ?_)
      rw [statusOf, he.2.2.2]
      exact fun hc => by cases hc

/-- A task in the line stays in it until it is the current task. -/
theorem line_step (t : T) (k : Sched T S P) (e : SchedEvent T S P) (k' : Sched T S P)
    (h : SchedInv k ∧ t ∈ line k) (hne : k.cur ≠ t) (he : schedEnabled k e)
    (hstep : schedStep k e = .ok k') :
    (SchedInv k' ∧ t ∈ line k') ∧ ahead k' t + tick k e ≤ ahead k t := by
  have hready : t ∈ k.threadReadyList :=
    (List.mem_cons.mp h.2).resolve_left (fun hc => hne hc.symm)
  have ha := schedStep_ahead h.1 hready he hstep
  exact ⟨⟨schedStep_keeps h.1 he hstep, ha.1⟩, ha.2⟩

omit [DecidableEq S] in
/-- While a task waits, the current task has something left to take. -/
theorem ahead_pos (t : T) (k : Sched T S P) (h : SchedInv k ∧ t ∈ line k) (hne : k.cur ≠ t) :
    0 < ahead k t := by
  have hcur : k.cur ∉ k.threadReadyList := h.1.linked.not_mem_ready (by
    rw [h.1.cur_running]
    exact fun hc => by cases hc)
  have hle : share k t k.cur ≤ ahead k t :=
    List.single_le_sum (fun _ _ => Nat.zero_le _) _ (List.mem_map_of_mem h.1.cur_mem)
  rw [share_cur hne hcur, slice] at hle
  omega

/-- A ready task gets the processor in every run from there in which the timer
    interrupts `ahead` times, whoever is woken meanwhile. -/
theorem ready_runs {k : Sched T S P} {t : T} {es : List (SchedEvent T S P)}
    (hk : (schedSystem T S P).Reachable k) (ht : t ∈ k.threadReadyList)
    (hr : (schedSystem T S P).Runs k es) (hticks : ahead k t ≤ (schedSystem T S P).total tick k es) :
    ∃ es₁ es₂, es = es₁ ++ es₂ ∧ ((schedSystem T S P).after k es₁).cur = t := by
  have hline : SchedInv k ∧ t ∈ line k :=
    ⟨reachable_inv hk, List.mem_cons_of_mem k.cur ht⟩
  have hp : (schedSystem T S P).Passes (fun k => k.cur = t) k es :=
    (schedSystem T S P).passes_of_rank (line_step t) (ahead_pos t) hline hr hticks
  exact (schedSystem T S P).passes_iff.mp hp

/-- What `thread_init` leaves, at the end of everybody's slice. -/
def lateSched : Sched Nat Nat Nat :=
  { bootSched with task := fun t => { bootSched.task t with ticks := 0 } }

/-- `ready_runs` for the idle task, when the main thread waits for a semaphore
    and the task that runs raises it: the main thread goes first. -/
theorem ready_runs_idle :
    ∃ es₁ es₂, [SchedEvent.up 7, .timer, .resume, .timer] = es₁ ++ es₂ ∧
      ((schedSystem Nat Nat Nat).after ((schedSystem Nat Nat Nat).next lateSched (.down 7))
        es₁).cur = 2 := by
  have hinit : (schedSystem Nat Nat Nat).Reachable lateSched :=
    .init _ ⟨0, 1, 2, by decide, by decide, by decide, rfl, rfl, rfl, rfl, rfl, rfl, rfl,
      fun _ => rfl, fun _ => rfl⟩
  have hk := System.reachable_after _ [SchedEvent.down 7] hinit ⟨⟨rfl, by decide⟩, rfl, trivial⟩
  refine ready_runs hk ?_ ?_ ?_
  · exact List.mem_singleton_self 2
  · exact ⟨rfl, rfl, rfl, rfl, Option.some_ne_none _, rfl, rfl, rfl, trivial⟩
  · decide

end ForikOS
