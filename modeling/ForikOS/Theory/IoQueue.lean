import ForikOS.Core.IoQueue
import Mathlib.Data.List.Nodup

/-!
# The I/O Queue Loses Nothing

A thread sleeps in `ioq_wait` with the queue's lock in its hands, and it is
woken by threads that never take that lock. What makes this safe is that the
lock is held by sleepers and by nobody else: between events a thread holds it
exactly when it is in `ioq_wait` or has just been woken there. So at most one
thread is recorded in the two waiter fields together, a thread that has just
got the lock finds both of them empty, and a recorded thread is blocked. Those
are the assertions of `ioq_wait` and of `wakeup`.

The ring is touched in one place each, right after its test and with nothing
in between, so the bytes returned followed by the bytes in the ring are always
the bytes stored.

What the lock does not give is the test. `ioq_getchar` looks at the ring before
`lock_acquire`, which may sleep while bytes arrive, and goes to sleep again in
`ioq_wait` without looking. `Fed` is what should hold: a recorded consumer
means an empty ring, or a writer that has not finished and will wake it. It is
kept by every event but one, a reader that comes out of `lock_acquire` into a
ring that is no longer empty; and that event always breaks it.

## Main definitions

* `Holds`: Where a thread stands with the lock in its hands.
* `IoqInv`: The invariant of the queue.
* `InPutchar`: Some thread is inside `ioq_putchar`.
* `Fed`: A recorded consumer means an empty ring or an unfinished writer.
* `SleepsOnInput`: A reader sleeps although there is input.
* `TakesStale`: A reader gets the lock it slept for, with input in the ring.

## Theorems

* `wakeup_spec`, `ioqSemaDown_spec`, `ioqRelease_spec`, `ioqLoop_spec`: What
  each part of a call does.
* `ioqStep_spec`: No event fails, and every event keeps the invariant.
* `ioqueue_fifo`: The queue is a lossless first-in first-out buffer.
* `consumer_fed`: Without a stale reader no consumer sleeps on input.
-/

namespace ForikOS

variable {T : Type} [DecidableEq T]

/-- The thread has the queue's lock: it sleeps in `ioq_wait`, or was woken
    there and has not run since. -/
def Holds (pc : IoqPc) : Prop := ∃ c, pc = .waiting c ∨ pc = .waitWoken c

/-- The thread is outside the lock and in no list. -/
def Loose (pc : IoqPc) : Prop := pc = .rest ∨ ∃ c, pc = .running c ∨ pc = .lockWoken c

/-- The bytes in the ring, oldest first. -/
def ioqBytes (q : IoQueue T) : List UInt8 := ringList bufsize q.buf q.tail q.head

/-- The lock is free and unused, or taken once. -/
def LockSound (l : Lock T) : Prop :=
  (l.holder = none ∧ l.semaphore.value = 1 ∧ l.holderRepeatNr = 0) ∨
    (l.holder ≠ none ∧ l.semaphore.value = 0 ∧ l.holderRepeatNr = 1)

/-- The invariant of the queue. -/
structure IoqInv (s : IoqState T) : Prop where
  head_lt : s.ioq.head < bufsize
  tail_lt : s.ioq.tail < bufsize
  fifo : s.returned ++ ioqBytes s.ioq = s.stored
  lock : LockSound s.ioq.lock
  holder : ∀ t, s.ioq.lock.holder = some t ↔ Holds (s.pc t)
  waiter : ∀ side t, ioqWaiter s.ioq side = some t ↔ ∃ c, c.side = side ∧ s.pc t = .waiting c
  nodup : s.ioq.lock.semaphore.waiters.Nodup
  waiters : ∀ t, t ∈ s.ioq.lock.semaphore.waiters ↔ ∃ c, s.pc t = .locking c

/-- The call a thread is in. -/
def callOf : IoqPc → Option IoqCall
  | .rest => none
  | .running c | .locking c | .lockWoken c | .waiting c | .waitWoken c => some c

/-- Some thread is inside `ioq_putchar`. -/
def InPutchar (s : IoqState T) : Prop := ∃ u byte, callOf (s.pc u) = some (.putchar byte)

/-- A recorded consumer means an empty ring, or a writer that has not finished
    and will wake it. -/
def Fed (s : IoqState T) : Prop := s.ioq.consumer ≠ none → ioqEmpty s.ioq ∨ InPutchar s

/-- A reader sleeps in `ioq_wait` with input in the ring and no writer on the
    way. -/
def SleepsOnInput (s : IoqState T) : Prop :=
  ∃ t, s.ioq.consumer = some t ∧ s.pc t = .waiting .getchar ∧ ¬ ioqEmpty s.ioq ∧ ¬ InPutchar s

/-- A reader gets the lock it slept for, with input in the ring and no writer
    on the way. -/
def TakesStale (s : IoqState T) : IoqEvent T → Prop
  | .call _ _ => False
  | .run t => s.pc t = .lockWoken .getchar ∧ s.ioq.lock.semaphore.value = 1 ∧
      ¬ ioqEmpty s.ioq ∧ ¬ InPutchar s

theorem Loose.not_holds {pc : IoqPc} (h : Loose pc) : ¬ Holds pc := by
  rintro ⟨c, hc⟩
  rcases h with rfl | ⟨c', rfl | rfl⟩ <;> rcases hc with hc | hc <;> cases hc

theorem Loose.not_locking {pc : IoqPc} (h : Loose pc) : ¬ ∃ c, pc = .locking c := by
  rintro ⟨c, rfl⟩
  rcases h with hc | ⟨c', hc | hc⟩ <;> cases hc

theorem not_holds_locking (c : IoqCall) : ¬ Holds (.locking c) := by
  rintro ⟨c', hc | hc⟩ <;> cases hc

theorem Holds.of_waiting (c : IoqCall) : Holds (.waiting c) := ⟨c, Or.inl rfl⟩

theorem Holds.of_waitWoken (c : IoqCall) : Holds (.waitWoken c) := ⟨c, Or.inr rfl⟩

namespace IoqInv

omit [DecidableEq T] in
/-- A recorded thread has the lock. -/
theorem waiter_holds {s : IoqState T} (h : IoqInv s) {side : IoqSide} {t : T}
    (hw : ioqWaiter s.ioq side = some t) : s.ioq.lock.holder = some t := by
  rcases (h.waiter side t).mp hw with ⟨c, _, hc⟩
  rw [h.holder t, hc]
  exact Holds.of_waiting c

omit [DecidableEq T] in
/-- With the lock free nobody is recorded. -/
theorem waiter_none {s : IoqState T} (h : IoqInv s) (hfree : s.ioq.lock.holder = none)
    (side : IoqSide) : ioqWaiter s.ioq side = none := by
  cases hw : ioqWaiter s.ioq side with
  | none => rfl
  | some t =>
      rw [h.waiter_holds hw] at hfree
      cases hfree

/-- A thread outside the lock moves to another place outside it. -/
theorem goto {s : IoqState T} (h : IoqInv s) {t : T} {p : IoqPc} (ht : Loose (s.pc t))
    (hpc : Loose p) : IoqInv (s.goto t p) := by
  have hself : ∀ u, u = t → (s.goto t p).pc u = p := by
    rintro u rfl
    exact Function.update_self _ _ _
  have hother : ∀ u, u ≠ t → (s.goto t p).pc u = s.pc u :=
    fun u hu => Function.update_of_ne hu _ _
  -- Neither place is one that the lock or a queue knows of, so no clause sees the move.
  refine ⟨h.head_lt, h.tail_lt, h.fifo, h.lock, ?_, ?_, h.nodup, ?_⟩
  · intro u
    refine (h.holder u).trans ?_
    by_cases hu : u = t
    · rw [hself u hu, hu]
      exact iff_of_false ht.not_holds hpc.not_holds
    · rw [hother u hu]
  · intro side u
    refine (h.waiter side u).trans ?_
    by_cases hu : u = t
    · rw [hself u hu, hu]
      refine iff_of_false ?_ ?_
      · rintro ⟨c, _, hc⟩
        exact ht.not_holds (hc ▸ Holds.of_waiting c)
      · rintro ⟨c, _, hc⟩
        exact hpc.not_holds (hc ▸ Holds.of_waiting c)
    · rw [hother u hu]
  · intro u
    refine (h.waiters u).trans ?_
    by_cases hu : u = t
    · rw [hself u hu, hu]
      exact iff_of_false ht.not_locking hpc.not_locking
    · rw [hother u hu]

end IoqInv

omit [DecidableEq T] in
theorem ioqWaiter_setWaiter (q : IoQueue T) (w : Option T) (side side' : IoqSide) :
    ioqWaiter (setWaiter q w side) side' = if side' = side then w else ioqWaiter q side' := by
  cases side <;> cases side' <;> rfl

omit [DecidableEq T] in
theorem setWaiter_lock (q : IoQueue T) (w : Option T) (side : IoqSide) :
    (setWaiter q w side).lock = q.lock := by
  cases side <;> rfl

omit [DecidableEq T] in
theorem setWaiter_ring (q : IoQueue T) (w : Option T) (side : IoqSide) :
    (setWaiter q w side).buf = q.buf ∧ (setWaiter q w side).head = q.head ∧
      (setWaiter q w side).tail = q.tail := by
  cases side <;> exact ⟨rfl, rfl, rfl⟩

/-- `wakeup` of a recorded thread succeeds: the thread is blocked in
    `ioq_wait`. -/
theorem wakeup_spec {s : IoqState T} (h : IoqInv s) {side : IoqSide}
    (hne : ioqWaiter s.ioq side ≠ none) :
    ∃ u c, s.pc u = .waiting c ∧
      wakeup s side = .ok ({ s with ioq := setWaiter s.ioq none side }.goto u (.waitWoken c)) ∧
      IoqInv ({ s with ioq := setWaiter s.ioq none side }.goto u (.waitWoken c)) := by
  cases hw : ioqWaiter s.ioq side with
  | none => exact absurd hw hne
  | some u =>
      rcases (h.waiter side u).mp hw with ⟨c, hside, hpc⟩
      have hlock := setWaiter_lock s.ioq none side
      have hring := setWaiter_ring s.ioq none side
      refine ⟨u, c, hpc, ?_, ?_⟩
      · unfold wakeup IoqState.unblock
        rw [hw]
        simp only [hpc]
        rfl
      · refine ⟨?_, ?_, ?_, ?_, ?_, ?_, ?_, ?_⟩
        · exact hring.2.1 ▸ h.head_lt
        · exact hring.2.2 ▸ h.tail_lt
        · show s.returned ++ ioqBytes (setWaiter s.ioq none side) = s.stored
          rw [ioqBytes, hring.1, hring.2.1, hring.2.2]
          exact h.fifo
        · exact hlock ▸ h.lock
        · intro v
          show (setWaiter s.ioq none side).lock.holder = some v ↔
            Holds (Function.update s.pc u (.waitWoken c) v)
          rw [hlock, h.holder v]
          by_cases hv : v = u
          · rw [hv, Function.update_self, hpc]
            exact iff_of_true (Holds.of_waiting c) (Holds.of_waitWoken c)
          · rw [Function.update_of_ne hv]
        · intro side' v
          show ioqWaiter (setWaiter s.ioq none side) side' = some v ↔
            ∃ c', c'.side = side' ∧ Function.update s.pc u (.waitWoken c) v = .waiting c'
          rw [ioqWaiter_setWaiter]
          by_cases hv : v = u
          · rw [hv, Function.update_self]
            refine iff_of_false ?_ (by rintro ⟨_, _, hc⟩; cases hc)
            -- A thread is recorded in the field of its own call only.
            split
            · exact fun hc => by cases hc
            · rename_i hs
              intro hc
              rcases (h.waiter side' u).mp hc with ⟨c', hside', hpc'⟩
              rw [hpc] at hpc'
              cases hpc'
              exact hs (hside'.symm.trans hside)
          · rw [Function.update_of_ne hv, ← h.waiter side' v]
            split
            · rename_i hs
              rw [hs, hw]
              exact iff_of_false (fun hc => by cases hc) (fun hc => by cases hc; exact hv rfl)
            · rfl
        · exact hlock ▸ h.nodup
        · intro v
          show v ∈ (setWaiter s.ioq none side).lock.semaphore.waiters ↔
            ∃ c', Function.update s.pc u (.waitWoken c) v = .locking c'
          rw [hlock, h.waiters v]
          by_cases hv : v = u
          · rw [hv, Function.update_self, hpc]
            exact iff_of_false (by rintro ⟨_, hc⟩; cases hc) (by rintro ⟨_, hc⟩; cases hc)
          · rw [Function.update_of_ne hv]

/-- The state after `t` has joined the waiters of the lock. -/
def joinLock (s : IoqState T) (t : T) (c : IoqCall) : IoqState T :=
  let sema := s.ioq.lock.semaphore
  { s with ioq := { s.ioq with lock := { s.ioq.lock with
    semaphore := { sema with waiters := sema.waiters ++ [t] } } } }.goto t (.locking c)

/-- The state after `t` has taken the lock and gone to sleep in `ioq_wait`. -/
def sleepLocked (s : IoqState T) (t : T) (c : IoqCall) : IoqState T :=
  let lock := { holder := some t
                semaphore := { s.ioq.lock.semaphore with value := 0 }
                holderRepeatNr := 1 }
  { s with ioq := setWaiter { s.ioq with lock := lock } (some t) c.side }.goto t (.waiting c)

theorem joinLock_inv {s : IoqState T} (h : IoqInv s) {t : T} {c : IoqCall}
    (hpc : Loose (s.pc t)) : IoqInv (joinLock s t c) := by
  have hnot : t ∉ s.ioq.lock.semaphore.waiters :=
    fun hc => hpc.not_locking ((h.waiters t).mp hc)
  -- Only `t` changes its place, and it goes to the end of the waiters of the lock.
  refine ⟨h.head_lt, h.tail_lt, h.fifo, h.lock, ?_, ?_, ?_, ?_⟩
  · intro u
    refine (h.holder u).trans ?_
    show _ ↔ Holds (Function.update s.pc t (.locking c) u)
    by_cases hu : u = t
    · rw [hu, Function.update_self]
      exact iff_of_false hpc.not_holds (not_holds_locking c)
    · rw [Function.update_of_ne hu]
  · intro side u
    refine (h.waiter side u).trans ?_
    show _ ↔ ∃ c', c'.side = side ∧ Function.update s.pc t (.locking c) u = .waiting c'
    by_cases hu : u = t
    · rw [hu, Function.update_self]
      refine iff_of_false ?_ (by rintro ⟨_, _, hc⟩; cases hc)
      rintro ⟨c', _, hc⟩
      exact hpc.not_holds (hc ▸ Holds.of_waiting c')
    · rw [Function.update_of_ne hu]
  · refine List.nodup_append.mpr ⟨h.nodup, List.nodup_singleton t, ?_⟩
    rintro a ha b hb rfl
    exact hnot (List.mem_singleton.mp hb ▸ ha)
  · intro u
    show u ∈ s.ioq.lock.semaphore.waiters ++ [t] ↔
      ∃ c', Function.update s.pc t (.locking c) u = .locking c'
    rw [List.mem_append, List.mem_singleton]
    by_cases hu : u = t
    · rw [hu, Function.update_self]
      exact iff_of_true (Or.inr rfl) ⟨c, rfl⟩
    · rw [Function.update_of_ne hu, ← h.waiters u]
      simp only [hu, or_false]

theorem sleepLocked_inv {s : IoqState T} (h : IoqInv s) {t : T} {c : IoqCall}
    (hpc : Loose (s.pc t)) (hfree : s.ioq.lock.holder = none) : IoqInv (sleepLocked s t c) := by
  have hring := setWaiter_ring { s.ioq with lock :=
    { holder := some t
      semaphore := { s.ioq.lock.semaphore with value := 0 }
      holderRepeatNr := 1 } } (some t) c.side
  have hlock : (sleepLocked s t c).ioq.lock =
      { holder := some t
        semaphore := { s.ioq.lock.semaphore with value := 0 }
        holderRepeatNr := 1 } := setWaiter_lock _ _ _
  have hnone : ∀ u, u ≠ t → ¬ Holds (s.pc u) := by
    intro u _ hc
    rw [(h.holder u).mpr hc] at hfree
    cases hfree
  refine ⟨?_, ?_, ?_, ?_, ?_, ?_, ?_, ?_⟩
  · exact hring.2.1 ▸ h.head_lt
  · exact hring.2.2 ▸ h.tail_lt
  · show s.returned ++ ioqBytes (setWaiter _ (some t) c.side) = s.stored
    rw [ioqBytes, hring.1, hring.2.1, hring.2.2]
    exact h.fifo
  · rw [hlock]
    exact Or.inr ⟨fun hc => (by cases hc), rfl, rfl⟩
  · intro u
    rw [hlock]
    show some t = some u ↔ Holds (Function.update s.pc t (.waiting c) u)
    by_cases hu : u = t
    · rw [hu, Function.update_self]
      exact iff_of_true rfl (Holds.of_waiting c)
    · rw [Function.update_of_ne hu]
      exact iff_of_false (fun hc => hu (Option.some.inj hc).symm) (hnone u hu)
  · intro side u
    show ioqWaiter (setWaiter _ (some t) c.side) side = some u ↔
      ∃ c', c'.side = side ∧ Function.update s.pc t (.waiting c) u = .waiting c'
    -- With the lock free both fields were empty.
    have hold : ioqWaiter { s.ioq with lock :=
        { holder := some t
          semaphore := { s.ioq.lock.semaphore with value := 0 }
          holderRepeatNr := 1 } } side = none := h.waiter_none hfree side
    rw [ioqWaiter_setWaiter, hold]
    by_cases hu : u = t
    · rw [hu, Function.update_self]
      by_cases hs : side = c.side
      · rw [if_pos hs]
        exact iff_of_true rfl ⟨c, hs.symm, rfl⟩
      · rw [if_neg hs]
        refine iff_of_false (fun hc => by cases hc) ?_
        rintro ⟨c', hc', he⟩
        cases he
        exact hs hc'.symm
    · rw [Function.update_of_ne hu]
      refine iff_of_false ?_ ?_
      · split
        · exact fun hc => hu (Option.some.inj hc).symm
        · exact fun hc => by cases hc
      · rintro ⟨c', _, hc⟩
        exact hnone u hu (hc ▸ Holds.of_waiting c')
  · rw [hlock]
    exact h.nodup
  · intro u
    rw [hlock]
    refine (h.waiters u).trans ?_
    show _ ↔ ∃ c', Function.update s.pc t (.waiting c) u = .locking c'
    by_cases hu : u = t
    · rw [hu, Function.update_self]
      exact iff_of_false hpc.not_locking (by rintro ⟨_, hc⟩; cases hc)
    · rw [Function.update_of_ne hu]

/-- The way into `ioq_wait`: the thread joins the waiters of the lock, or takes
    the lock and sleeps in `ioq_wait`. No assertion on the way fails. -/
theorem ioqSemaDown_spec {s : IoqState T} (h : IoqInv s) {t : T} {c : IoqCall}
    (hpc : s.pc t = .running c) :
    (s.ioq.lock.semaphore.value = 0 ∧ ioqSemaDown s t c = .ok (joinLock s t c)) ∨
      (s.ioq.lock.holder = none ∧ s.ioq.lock.semaphore.value = 1 ∧
        ioqSemaDown s t c = .ok (sleepLocked s t c)) := by
  have hloose : Loose (s.pc t) := Or.inr ⟨c, Or.inl hpc⟩
  rcases h.lock with ⟨hfree, hv, hrep⟩ | ⟨_, hv, _⟩
  · right
    -- Nobody sleeps on the queue while the lock is free, so the assertion of `ioq_wait` holds.
    have hwait := h.waiter_none hfree c.side
    refine ⟨hfree, hv, ?_⟩
    have hiter : semaDownIter t s.ioq.lock.semaphore
        = .ok ({ s.ioq.lock.semaphore with value := 0 }, false) := by
      have h1 : ((1 : UInt8) = 0) = False := by decide
      have h2 : (1 : UInt8) - 1 = 0 := by decide
      simp only [semaDownIter, hv, h1, if_false, h2, ensure, if_true, ok_bind]
    have hside : ∀ l, ioqWaiter { s.ioq with lock := l } c.side = none := by
      intro l
      rw [← hwait]
      cases c <;> rfl
    simp only [ioqSemaDown, hiter, ok_bind, hrep, ensure, if_true, ioqWait, hside]
    rfl
  · left
    have hnot : t ∉ s.ioq.lock.semaphore.waiters :=
      fun hc => hloose.not_locking ((h.waiters t).mp hc)
    refine ⟨hv, ?_⟩
    simp only [ioqSemaDown, semaDownIter, hv, if_true, ensure, hnot, not_false_eq_true, ok_bind]
    simp only [joinLock, hv]

/-- Moving a thread along the call it is in changes nobody's call. -/
theorem callOf_update {p : T → IoqPc} {t : T} {x : IoqPc} (hx : callOf x = callOf (p t)) (v : T) :
    callOf (Function.update p t x v) = callOf (p v) := by
  by_cases hv : v = t
  · rw [hv, Function.update_self, hx]
  · rw [Function.update_of_ne hv]

/-- The lock given back, with the waiters it leaves. -/
def freeLock (s : IoqState T) (waiters : List T) : IoqState T :=
  { s with ioq := { s.ioq with lock :=
    { holder := none, semaphore := { value := 1, waiters := waiters }, holderRepeatNr := 0 } } }

/-- The woken sleeper `t` runs and gives the lock back. -/
theorem freeLock_inv {s : IoqState T} (h : IoqInv s) {t : T} {c : IoqCall}
    (hpc : s.pc t = .waitWoken c) :
    IoqInv (freeLock (s.goto t (.running c)) s.ioq.lock.semaphore.waiters) := by
  have hloose : Loose (.running c) := Or.inr ⟨c, Or.inl rfl⟩
  have ht : s.ioq.lock.holder = some t := (h.holder t).mpr (hpc ▸ Holds.of_waitWoken c)
  refine ⟨h.head_lt, h.tail_lt, h.fifo, Or.inl ⟨rfl, rfl, rfl⟩, ?_, ?_, h.nodup, ?_⟩
  · intro u
    show none = some u ↔ Holds (Function.update s.pc t (.running c) u)
    refine iff_of_false (fun hc => by cases hc) ?_
    by_cases hu : u = t
    · rw [hu, Function.update_self]
      exact hloose.not_holds
    · rw [Function.update_of_ne hu, ← h.holder u, ht]
      exact fun hc => hu (Option.some.inj hc).symm
  · intro side u
    refine (h.waiter side u).trans ?_
    show _ ↔ ∃ c', c'.side = side ∧ Function.update s.pc t (.running c) u = .waiting c'
    by_cases hu : u = t
    · rw [hu, Function.update_self, hpc]
      exact iff_of_false (by rintro ⟨_, _, hc⟩; cases hc) (by rintro ⟨_, _, hc⟩; cases hc)
    · rw [Function.update_of_ne hu]
  · intro u
    refine (h.waiters u).trans ?_
    show _ ↔ ∃ c', Function.update s.pc t (.running c) u = .locking c'
    by_cases hu : u = t
    · rw [hu, Function.update_self, hpc]
      exact iff_of_false (by rintro ⟨_, hc⟩; cases hc) (by rintro ⟨_, hc⟩; cases hc)
    · rw [Function.update_of_ne hu]

/-- The state after the first waiter of the lock has been woken. -/
def popLock (s : IoqState T) (u : T) (c : IoqCall) (rest : List T) : IoqState T :=
  { s with ioq := { s.ioq with lock := { s.ioq.lock with
    semaphore := { s.ioq.lock.semaphore with waiters := rest } } } }.goto u (.lockWoken c)

theorem popLock_inv {s : IoqState T} (h : IoqInv s) {u : T} {c : IoqCall} {rest : List T}
    (hpc : s.pc u = .locking c) (hw : s.ioq.lock.semaphore.waiters = u :: rest) :
    IoqInv (popLock s u c rest) := by
  have hnd := h.nodup
  rw [hw, List.nodup_cons] at hnd
  -- The first waiter leaves the list and is not the holder yet: it will try again.
  have hloose : Loose (.lockWoken c) := Or.inr ⟨c, Or.inr rfl⟩
  refine ⟨h.head_lt, h.tail_lt, h.fifo, h.lock, ?_, ?_, hnd.2, ?_⟩
  · intro v
    refine (h.holder v).trans ?_
    show _ ↔ Holds (Function.update s.pc u (.lockWoken c) v)
    by_cases hv : v = u
    · rw [hv, Function.update_self, hpc]
      exact iff_of_false (not_holds_locking c) hloose.not_holds
    · rw [Function.update_of_ne hv]
  · intro side v
    refine (h.waiter side v).trans ?_
    show _ ↔ ∃ c', c'.side = side ∧ Function.update s.pc u (.lockWoken c) v = .waiting c'
    by_cases hv : v = u
    · rw [hv, Function.update_self, hpc]
      exact iff_of_false (by rintro ⟨_, _, hc⟩; cases hc) (by rintro ⟨_, _, hc⟩; cases hc)
    · rw [Function.update_of_ne hv]
  · intro v
    show v ∈ rest ↔ ∃ c', Function.update s.pc u (.lockWoken c) v = .locking c'
    by_cases hv : v = u
    · rw [hv, Function.update_self]
      exact iff_of_false hnd.1 (by rintro ⟨_, hc⟩; cases hc)
    · rw [Function.update_of_ne hv, ← h.waiters v, hw, List.mem_cons]
      simp only [hv, false_or]

/-- `lock_release` by a woken sleeper succeeds and touches neither the ring nor
    the waiter fields. -/
theorem ioqRelease_spec {s : IoqState T} (h : IoqInv s) {t : T} {c : IoqCall}
    (hpc : s.pc t = .waitWoken c) :
    ∃ s', ioqRelease (s.goto t (.running c)) t = .ok s' ∧ IoqInv s' ∧ s'.pc t = .running c ∧
      s'.ioq.consumer = s.ioq.consumer ∧ s'.ioq.head = s.ioq.head ∧ s'.ioq.tail = s.ioq.tail ∧
      ∀ v, callOf (s'.pc v) = callOf (s.pc v) := by
  have ht : s.ioq.lock.holder = some t := (h.holder t).mpr (hpc ▸ Holds.of_waitWoken c)
  have hlock : s.ioq.lock.semaphore.value = 0 ∧ s.ioq.lock.holderRepeatNr = 1 := by
    rcases h.lock with ⟨hc, _, _⟩ | hc
    · rw [ht] at hc
      cases hc
    · exact hc.2
  have h1 : ¬ (1 : UInt32) < 1 := by decide
  have h2 : (0 : UInt8) + 1 = 1 := by decide
  simp only [ioqRelease, IoqState.goto, ht, hlock, ensure, if_true, ok_bind, h1, if_false, semaUp,
    h2]
  cases hw : s.ioq.lock.semaphore.waiters with
  | nil =>
      have hinv := freeLock_inv h hpc
      rw [hw] at hinv
      refine ⟨_, rfl, hinv, Function.update_self _ _ _, rfl, rfl, rfl, ?_⟩
      exact callOf_update (by rw [hpc]; rfl)
  | cons u rest =>
      have hmem : u ∈ s.ioq.lock.semaphore.waiters := hw ▸ List.mem_cons_self
      rcases (h.waiters u).mp hmem with ⟨c', hu⟩
      have hut : u ≠ t := by
        rintro rfl
        rw [hpc] at hu
        cases hu
      -- Waking `u` and then freeing the lock is the same as freeing it first.
      have hpop := popLock_inv h hu hw
      have hpc' : (popLock s u c' rest).pc t = .waitWoken c :=
        (Function.update_of_ne hut.symm _ _).trans hpc
      have hinv := freeLock_inv hpop hpc'
      have hcomm : (freeLock (s.goto t (.running c)) rest).goto u (.lockWoken c') =
          freeLock ((popLock s u c' rest).goto t (.running c)) rest := by
        unfold freeLock popLock IoqState.goto
        rw [Function.update_comm hut]
      have hpcu : (freeLock (s.goto t (.running c)) rest).pc u = .locking c' :=
        (Function.update_of_ne hut _ _).trans hu
      refine ⟨freeLock ((popLock s u c' rest).goto t (.running c)) rest, ?_, hinv,
        Function.update_self _ _ _, rfl, rfl, rfl, ?_⟩
      · rw [← hcomm]
        show (freeLock (s.goto t (.running c)) rest).unblock u = _
        rw [IoqState.unblock, hpcu]
      · intro v
        have hrun := callOf_update (p := (popLock s u c' rest).pc) (x := .running c)
          (by rw [hpc']; rfl) v
        have hwoken := callOf_update (p := s.pc) (x := .lockWoken c') (by rw [hu]; rfl) v
        exact hrun.trans hwoken

omit [DecidableEq T] in
/-- Who is inside `ioq_putchar` depends on the calls alone. -/
theorem inPutchar_of {s s' : IoqState T} (h : InPutchar s)
    (hcalls : ∀ u byte, callOf (s.pc u) = some (.putchar byte) → callOf (s'.pc u) = callOf (s.pc u)) :
    InPutchar s' := by
  rcases h with ⟨u, byte, hu⟩
  exact ⟨u, byte, (hcalls u byte hu).trans hu⟩

/-- Going to wait keeps the consumer fed, provided a reader that gets the lock
    at once saw an empty ring, or a writer is on the way. -/
theorem ioqSemaDown_fed {s : IoqState T} (h : IoqInv s) {t : T} {c : IoqCall}
    (hpc : s.pc t = .running c) :
    ∃ s', ioqSemaDown s t c = .ok s' ∧ IoqInv s' ∧
      (Fed s → (s.ioq.lock.semaphore.value = 1 → c = .getchar → ioqEmpty s.ioq ∨ InPutchar s) →
        Fed s') := by
  have hloose : Loose (s.pc t) := Or.inr ⟨c, Or.inl hpc⟩
  rcases ioqSemaDown_spec h hpc with ⟨_, hstep⟩ | ⟨hfree, hv, hstep⟩
  · refine ⟨_, hstep, joinLock_inv h hloose, ?_⟩
    intro hfed _ hne
    refine (hfed hne).imp_right (fun hp => inPutchar_of hp (fun u _ _ => ?_))
    exact callOf_update (by rw [hpc]; rfl) u
  · refine ⟨_, hstep, sleepLocked_inv h hloose hfree, ?_⟩
    intro hfed hcond hne
    have hstart : ioqEmpty s.ioq ∨ InPutchar s := by
      cases c with
      | getchar => exact hcond hv rfl
      | putchar byte => exact hfed hne
    refine hstart.imp ?_ (fun hp => inPutchar_of hp (fun u _ _ => ?_))
    · intro hempty
      have hring := setWaiter_ring { s.ioq with lock :=
        { holder := some t
          semaphore := { s.ioq.lock.semaphore with value := 0 }
          holderRepeatNr := 1 } } (some t) c.side
      unfold ioqEmpty sleepLocked
      exact hring.2.1.trans (hempty.trans hring.2.2.symm)
    · exact callOf_update (by rw [hpc]; rfl) u

/-- A thread on the processor never has the lock already. -/
theorem ioqAcquire_eq {s : IoqState T} (h : IoqInv s) {t : T} {c : IoqCall}
    (hpc : s.pc t = .running c) : ioqAcquire s t c = ioqSemaDown s t c := by
  have hloose : Loose (s.pc t) := Or.inr ⟨c, Or.inl hpc⟩
  have hne : s.ioq.lock.holder ≠ some t := fun hc => hloose.not_holds ((h.holder t).mp hc)
  simp only [ioqAcquire, hne, ne_eq, not_false_eq_true, if_true]

/-- The ring after the oldest byte has been taken. -/
def getByte (s : IoqState T) : IoqState T :=
  { s with
    ioq := { s.ioq with tail := nextPos s.ioq.tail }
    returned := s.returned ++ [s.ioq.buf s.ioq.tail] }

/-- The ring after a byte has been added. -/
def putByte (s : IoqState T) (byte : UInt8) : IoqState T :=
  { s with
    ioq := { s.ioq with
      buf := Function.update s.ioq.buf s.ioq.head byte
      head := nextPos s.ioq.head }
    stored := s.stored ++ [byte] }

omit [DecidableEq T] in
theorem getByte_inv {s : IoqState T} (h : IoqInv s) (hne : ¬ ioqEmpty s.ioq) :
    IoqInv (getByte s) := by
  refine ⟨h.head_lt, ringNext_lt (by decide) _, ?_, h.lock, h.holder, ?_, h.nodup, h.waiters⟩
  · have hread := ringList_read h.head_lt h.tail_lt hne s.ioq.buf
    show (s.returned ++ [s.ioq.buf s.ioq.tail]) ++
      ringList bufsize s.ioq.buf (nextPos s.ioq.tail) s.ioq.head = s.stored
    rw [List.append_assoc, List.singleton_append, nextPos, ← hread]
    exact h.fifo
  · intro side u
    refine Iff.trans ?_ (h.waiter side u)
    cases side <;> rfl

omit [DecidableEq T] in
theorem putByte_inv {s : IoqState T} (h : IoqInv s) (hroom : ¬ ioqFull s.ioq) (byte : UInt8) :
    IoqInv (putByte s byte) := by
  refine ⟨ringNext_lt (by decide) _, h.tail_lt, ?_, h.lock, h.holder, ?_, h.nodup, h.waiters⟩
  · have hwrite := ringList_write h.head_lt h.tail_lt hroom s.ioq.buf byte
    show s.returned ++ ringList bufsize (Function.update s.ioq.buf s.ioq.head byte) s.ioq.tail
      (nextPos s.ioq.head) = s.stored ++ [byte]
    rw [nextPos, hwrite, ← List.append_assoc, ← h.fifo]
    rfl
  · intro side u
    refine Iff.trans ?_ (h.waiter side u)
    cases side <;> rfl

/-- The end of both functions: wake the other side if it is recorded, and
    return. -/
theorem wakeupAny_spec {s : IoqState T} (h : IoqInv s) {t : T} {c : IoqCall}
    (hpc : s.pc t = .running c) (side : IoqSide) :
    ∃ s', wakeupAny s side = .ok s' ∧
      IoqInv (s'.goto t .rest) ∧ ioqWaiter s'.ioq side = none ∧
      (∀ side', side' ≠ side → ioqWaiter s'.ioq side' = ioqWaiter s.ioq side') ∧
      ∀ u, u ≠ t → callOf ((s'.goto t .rest).pc u) = callOf (s.pc u) := by
  have hrest : ∀ s' : IoqState T, ∀ u, u ≠ t → (s'.goto t .rest).pc u = s'.pc u :=
    fun s' u hu => Function.update_of_ne hu _ _
  -- Without a waiter nothing is done; with one, that thread goes on and `t` is another one.
  by_cases hw : ioqWaiter s.ioq side = none
  · refine ⟨s, ?_, h.goto (Or.inr ⟨c, Or.inl hpc⟩) (Or.inl rfl), hw, fun _ _ => rfl, ?_⟩
    · simp only [wakeupAny, hw, ne_eq, not_true_eq_false, if_false]
    · intro u hu
      rw [hrest s u hu]
  · rcases wakeup_spec h hw with ⟨u, c', hu, hstep, hinv⟩
    have hut : t ≠ u := by
      rintro rfl
      rw [hpc] at hu
      cases hu
    have hpc' : ({ s with ioq := setWaiter s.ioq none side }.goto u (.waitWoken c')).pc t
        = .running c := (Function.update_of_ne hut _ _).trans hpc
    refine ⟨_, ?_, hinv.goto (Or.inr ⟨c, Or.inl hpc'⟩) (Or.inl rfl), ?_, ?_, ?_⟩
    · rw [wakeupAny, if_pos hw]
      exact hstep
    · exact (ioqWaiter_setWaiter _ _ _ _).trans (if_pos rfl)
    · intro side' hs
      exact (ioqWaiter_setWaiter _ _ _ _).trans (if_neg hs)
    · intro v hv
      rw [hrest _ v hv]
      exact callOf_update (by rw [hu]; rfl) v

/-- `ioq_getchar` from its loop test on: it never fails, and it sleeps as a
    consumer only after it saw an empty ring. -/
theorem ioqGetchar_spec {s : IoqState T} (h : IoqInv s) {t : T}
    (hpc : s.pc t = .running .getchar) :
    ∃ s', ioqGetchar s t = .ok s' ∧ IoqInv s' ∧ (Fed s → Fed s') := by
  by_cases hempty : ioqEmpty s.ioq
  · rcases ioqSemaDown_fed h hpc with ⟨s', hstep, hinv, hfed⟩
    refine ⟨s', ?_, hinv, fun hf => hfed hf (fun _ _ => Or.inl hempty)⟩
    rw [ioqGetchar, if_pos hempty, ioqAcquire_eq h hpc]
    exact hstep
  · rcases wakeupAny_spec (getByte_inv h hempty) (t := t) (c := .getchar) hpc .producer with
      ⟨s', hstep, hinv, _, hkeep, hcalls⟩
    refine ⟨s'.goto t .rest, ?_, hinv, ?_⟩
    · rw [ioqGetchar, if_neg hempty]
      exact bind_eq_ok.mpr ⟨s', hstep, rfl⟩
    · -- The ring was not empty, so only an unfinished writer can vouch for a consumer.
      intro hf hne
      have hcons : s'.ioq.consumer = s.ioq.consumer := hkeep .consumer (by decide)
      have hne' : s.ioq.consumer ≠ none := by
        rw [← hcons]
        exact hne
      refine Or.inr (inPutchar_of ((hf hne').resolve_left hempty) ?_)
      intro u byte hu
      refine hcalls u ?_
      rintro rfl
      rw [hpc] at hu
      cases hu

/-- `ioq_putchar` from its loop test on: it never fails, and it leaves no
    consumer recorded when it is done. -/
theorem ioqPutchar_spec {s : IoqState T} (h : IoqInv s) {t : T} {byte : UInt8}
    (hpc : s.pc t = .running (.putchar byte)) :
    ∃ s', ioqPutchar s t byte = .ok s' ∧ IoqInv s' ∧ (Fed s → Fed s') := by
  by_cases hfull : ioqFull s.ioq
  · rcases ioqSemaDown_fed h hpc with ⟨s', hstep, hinv, hfed⟩
    refine ⟨s', ?_, hinv, fun hf => hfed hf (fun _ hc => by cases hc)⟩
    rw [ioqPutchar, if_pos hfull, ioqAcquire_eq h hpc]
    exact hstep
  · rcases wakeupAny_spec (putByte_inv h hfull byte) (t := t) (c := .putchar byte) hpc .consumer with
      ⟨s', hstep, hinv, hnone, _, _⟩
    refine ⟨s'.goto t .rest, ?_, hinv, ?_⟩
    · rw [ioqPutchar, if_neg hfull]
      exact bind_eq_ok.mpr ⟨s', hstep, rfl⟩
    · intro _ hne
      exact absurd hnone hne

theorem ioqLoop_spec {s : IoqState T} (h : IoqInv s) {t : T} {c : IoqCall}
    (hpc : s.pc t = .running c) :
    ∃ s', ioqLoop s t c = .ok s' ∧ IoqInv s' ∧ (Fed s → Fed s') := by
  cases c with
  | getchar => exact ioqGetchar_spec h hpc
  | putchar byte => exact ioqPutchar_spec h hpc

/-- No event fails an assertion, every event keeps the invariant, and only a
    stale reader leaves a consumer unfed. -/
theorem ioqStep_spec {s : IoqState T} (h : IoqInv s) {e : IoqEvent T} (he : ioqEnabled s e) :
    ∃ s', ioqStep s e = .ok s' ∧ IoqInv s' ∧ (Fed s → ¬ TakesStale s e → Fed s') := by
  cases e with
  | call t c =>
      -- A call begins at the loop test, so it has seen the ring as it is.
      have hrest : s.pc t = .rest := he
      have hpc : (s.goto t (.running c)).pc t = .running c := Function.update_self _ _ _
      have hinv := h.goto (t := t) (p := .running c) (Or.inl hrest) (Or.inr ⟨c, Or.inl rfl⟩)
      rcases ioqLoop_spec hinv hpc with ⟨s', hstep, hinv', hfed⟩
      refine ⟨s', hstep, hinv', fun hf _ => hfed (fun hne => ?_)⟩
      refine (hf hne).imp_right (fun hp => inPutchar_of hp (fun u byte hu => ?_))
      have hut : u ≠ t := by
        rintro rfl
        rw [hrest] at hu
        cases hu
      exact congrArg callOf (Function.update_of_ne hut _ _)
  | run t =>
      rcases he with ⟨c, hw | hw⟩
      · -- Out of `lock_acquire`: the ring is not looked at again.
        have hpc : (s.goto t (.running c)).pc t = .running c := Function.update_self _ _ _
        have hinv := h.goto (t := t) (p := .running c) (Or.inr ⟨c, Or.inr hw⟩)
          (Or.inr ⟨c, Or.inl rfl⟩)
        have hcalls : ∀ u, callOf ((s.goto t (.running c)).pc u) = callOf (s.pc u) :=
          callOf_update (by rw [hw]; rfl)
        have hput : InPutchar s → InPutchar (s.goto t (.running c)) :=
          fun hp => inPutchar_of hp (fun u _ _ => hcalls u)
        rcases ioqSemaDown_fed hinv hpc with ⟨s', hstep, hinv', hfed⟩
        refine ⟨s', ?_, hinv', ?_⟩
        · simp only [ioqStep, hw]
          exact hstep
        · intro hf hstale
          refine hfed (fun hne => (hf hne).imp_right hput) ?_
          rintro hv rfl
          by_contra hc
          rw [not_or] at hc
          exact hstale ⟨hw, hv, hc.1, fun hp => hc.2 (hput hp)⟩
      · -- Out of `ioq_wait`: the lock is released and the loop test comes next.
        rcases ioqRelease_spec h hw with ⟨s₁, hrel, hinv, hpc, hcons, hhead, htail, hcalls⟩
        rcases ioqLoop_spec hinv hpc with ⟨s', hstep, hinv', hfed⟩
        refine ⟨s', ?_, hinv', ?_⟩
        · simp only [ioqStep, hw]
          exact bind_eq_ok.mpr ⟨s₁, hrel, hstep⟩
        · intro hf _
          refine hfed (fun hne => ?_)
          rw [hcons] at hne
          refine (hf hne).imp ?_ (fun hp => inPutchar_of hp (fun u _ _ => hcalls u))
          intro hempty
          unfold ioqEmpty
          rw [hhead, htail]
          exact hempty

theorem ioqInit_inv {s : IoqState T} (h : (ioqSystem T).init s) : IoqInv s := by
  rcases h with ⟨buf, rfl⟩
  have hloose : ∀ t : T, Loose ((fun _ => IoqPc.rest) t) := fun _ => Or.inl rfl
  have hpos : 0 < bufsize := by decide
  have hempty : ringList bufsize buf 0 0 = [] := (ringList_eq_nil hpos hpos buf).mpr rfl
  refine ⟨hpos, hpos, ?_, Or.inl ⟨rfl, rfl, rfl⟩, ?_, ?_, List.nodup_nil, ?_⟩
  · show [] ++ ringList bufsize buf 0 0 = []
    rw [hempty, List.append_nil]
  · intro t
    exact iff_of_false (fun hc => by cases hc) (hloose t).not_holds
  · intro side t
    refine iff_of_false ?_ (by rintro ⟨_, _, hc⟩; cases hc)
    cases side <;> exact fun hc => by cases hc
  · intro t
    exact iff_of_false List.not_mem_nil (hloose t).not_locking

theorem ioqReachable_inv {s : IoqState T} (h : (ioqSystem T).Reachable s) : IoqInv s := by
  refine System.invariant_of_step _ IoqInv (fun s hs => ioqInit_inv hs) ?_ s h
  intro s e s' hinv he hstep
  rcases ioqStep_spec hinv he with ⟨s'', hs'', hinv', _⟩
  have hsame : Except.ok s'' = Except.ok (ε := Func) s' := hs''.symm.trans hstep
  cases hsame
  exact hinv'

/-- For any number of threads and any order in which they are switched where
    they block: the bytes returned are a prefix of the bytes stored, the bytes
    in the ring are the others in order, at most 63 of them, and no assertion
    fails, neither in `ioq_wait` and `wakeup` nor anywhere else. -/
theorem ioqueue_fifo (s : IoqState T) (h : (ioqSystem T).Reachable s) :
    s.returned <+: s.stored ∧ s.returned ++ ioqBytes s.ioq = s.stored ∧
      (ioqBytes s.ioq).length ≤ 63 ∧
      ∀ e, ioqEnabled s e → ∃ s', ioqStep s e = .ok s' := by
  have hinv := ioqReachable_inv h
  refine ⟨⟨_, hinv.fifo⟩, hinv.fifo, ?_, ?_⟩
  · exact Nat.le_of_lt_succ (ringList_length_lt (by decide) _)
  · intro e he
    rcases ioqStep_spec hinv he with ⟨s', hs', _, _⟩
    exact ⟨s', hs'⟩

/-- A queue as `ioqueue_init` leaves it, with threads numbered. -/
def freshIoq : IoqState Nat :=
  { ioq := ioqueueInit (fun _ => 0), pc := fun _ => .rest, stored := [], returned := [] }

theorem freshIoq_init : (ioqSystem Nat).init freshIoq := ⟨_, rfl⟩

/-- Two readers wait, one for input and one for the lock; a writer stores two
    bytes, and both readers run. -/
def staleRun : List (IoqEvent Nat) :=
  [.call 0 .getchar, .call 1 .getchar, .call 2 (.putchar 7), .call 2 (.putchar 8), .run 0, .run 1]

theorem staleRun_runs : (ioqSystem Nat).Runs freshIoq staleRun :=
  ⟨rfl, rfl, rfl, rfl, rfl, rfl, rfl, rfl, ⟨.getchar, Or.inr rfl⟩, rfl, ⟨.getchar, Or.inl rfl⟩, rfl,
    trivial⟩

/-- `ioqueue_fifo` after the first reader has taken the first byte. -/
theorem ioqueue_fifo_one_taken :
    ∃ s, (ioqSystem Nat).Reachable s ∧ s.stored = [7, 8] ∧ s.returned = [7] ∧
      ioqBytes s.ioq = [8] ∧ s.returned <+: s.stored := by
  have hreach := (ioqSystem Nat).reachable_after staleRun
    (System.Reachable.init _ freshIoq_init) staleRun_runs
  exact ⟨_, hreach, rfl, rfl, rfl, (ioqueue_fifo _ hreach).1⟩

/-- A stale reader goes to sleep on the input it should have taken. -/
theorem takesStale_sleeps {s s' : IoqState T} (h : IoqInv s) {e : IoqEvent T}
    (hstale : TakesStale s e) (hstep : ioqStep s e = .ok s') : SleepsOnInput s' := by
  cases e with
  | call t c => exact hstale.elim
  | run t =>
      rcases hstale with ⟨hw, hv, hne, hput⟩
      have hpc : (s.goto t (.running .getchar)).pc t = .running .getchar :=
        Function.update_self _ _ _
      have hinv := h.goto (t := t) (p := .running .getchar) (Or.inr ⟨_, Or.inr hw⟩)
        (Or.inr ⟨_, Or.inl rfl⟩)
      have hrun : ioqSemaDown (s.goto t (.running .getchar)) t .getchar = .ok s' := by
        simp only [ioqStep, hw] at hstep
        exact hstep
      rcases ioqSemaDown_spec hinv hpc with ⟨hz, _⟩ | ⟨_, _, hok⟩
      · have hz' : s.ioq.lock.semaphore.value = 0 := hz
        rw [hv] at hz'
        exact absurd hz' (by decide)
      · rw [hok] at hrun
        cases hrun
        refine ⟨t, rfl, Function.update_self _ _ _, hne, ?_⟩
        -- No thread has changed its call.
        intro hp
        apply hput
        refine inPutchar_of hp (fun u _ _ => ?_)
        have hsleep := callOf_update (p := (s.goto t (.running .getchar)).pc)
          (x := .waiting .getchar) (by rw [hpc]; rfl) u
        have hgo := callOf_update (p := s.pc) (x := .running .getchar) (by rw [hw]; rfl) u
        exact (hsleep.trans hgo).symm

theorem fedReachable_inv {s : IoqState T}
    (h : ((ioqSystem T).restrict (fun s e => ¬ TakesStale s e)).Reachable s) :
    IoqInv s ∧ Fed s := by
  refine System.invariant_of_step _ (fun s => IoqInv s ∧ Fed s) ?_ ?_ s h
  · intro s hs
    refine ⟨ioqInit_inv hs, ?_⟩
    rcases hs with ⟨buf, rfl⟩
    intro hne
    exact absurd rfl hne
  · rintro s e s' ⟨hinv, hfed⟩ he hstep
    rcases ioqStep_spec hinv he.1 with ⟨s'', hs'', hinv', hfed'⟩
    have hsame : Except.ok s'' = Except.ok (ε := Func) s' := hs''.symm.trans hstep
    cases hsame
    exact ⟨hinv', hfed' hfed he.2⟩

/-- In every run in which no reader that slept for the lock gets it with input
    in the ring and no writer on the way, no reader sleeps on input in any
    state reached. From such a state the first reader that does get the lock
    so goes to sleep on input. -/
theorem consumer_fed (s : IoqState T)
    (h : ((ioqSystem T).restrict (fun s e => ¬ TakesStale s e)).Reachable s) :
    ¬ SleepsOnInput s ∧
      ∀ e s', ioqEnabled s e → TakesStale s e → ioqStep s e = .ok s' → SleepsOnInput s' := by
  rcases fedReachable_inv h with ⟨hinv, hfed⟩
  constructor
  · rintro ⟨t, hcons, _, hne, hput⟩
    have hsome : s.ioq.consumer ≠ none := by
      rw [hcons]
      exact fun hc => by cases hc
    exact (hfed hsome).elim hne hput
  · intro e s' _ hstale hstep
    exact takesStale_sleeps hinv hstale hstep

/-- `consumer_fed` with one reader asleep on an empty ring. -/
theorem consumer_fed_one_reader :
    ∃ s, ((ioqSystem Nat).restrict (fun s e => ¬ TakesStale s e)).Reachable s ∧
      s.ioq.consumer = some 0 ∧ s.pc 0 = .waiting .getchar ∧ ¬ SleepsOnInput s := by
  have hreach := ((ioqSystem Nat).restrict (fun s e => ¬ TakesStale s e)).reachable_after
    [.call 0 .getchar] (System.Reachable.init _ freshIoq_init)
    ⟨⟨rfl, fun hc => hc⟩, rfl, trivial⟩
  exact ⟨_, hreach, rfl, rfl, (consumer_fed _ hreach).1⟩

/-- The second of two readers comes out of `lock_acquire` and sleeps, with a
    byte in the ring and no writer to wake it. -/
theorem reader_sleeps_on_input : ∃ s, (ioqSystem Nat).Reachable s ∧ SleepsOnInput s := by
  have hreach := (ioqSystem Nat).reachable_after staleRun
    (System.Reachable.init _ freshIoq_init) staleRun_runs
  refine ⟨_, hreach, 1, rfl, rfl, (by decide), ?_⟩
  rintro ⟨u, byte, hu⟩
  -- The writer and the first reader have returned.
  match u with
  | 0 => cases hu
  | 1 => cases hu
  | 2 => cases hu
  | n + 3 => cases hu

end ForikOS
