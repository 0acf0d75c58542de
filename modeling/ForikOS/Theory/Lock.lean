import ForikOS.Core.Sync
import Mathlib.Data.List.Nodup

/-!
# Lock Safety

Mutual exclusion for `lock_acquire` and `lock_release`, for any number of
threads switched at any statement.

The holder is read without protection and cleared before the semaphore is
raised, so no single field says who is inside. `LockInv` ties the four fields
to the statement each thread is at. Either the lock is free, and every thread
is `Away`: outside, or somewhere before the point where `sema_down` succeeds.
Or exactly one thread owns the semaphore, every other thread is away, and
`OwnerAt` says what the owner has made of the holder and the counter so far.
An away thread never finds itself recorded as holder, because only the owner
writes the holder and clears it again before it stops owning.

`lockEventStep_inv` says that an enabled event never fails an assertion and
keeps the invariant; everything else is read off it.

The counter is a `uint32_t`. A thread that nests deeper than the counter can
count makes it wrap, and the lock then forgets how often it was taken. The
statements are therefore about runs that call `lock_acquire` below that
depth, and `nesting_wraps` is the run that shows the bound is needed.

## Main definitions

* `Away`: A thread that does not own the semaphore.
* `OwnerAt`: What the owner has done to the lock at each statement.
* `WaitersOk`: The waiters are the blocked threads, each once.
* `LockInv`: The lock is free, or owned by exactly one thread.
* `StrictlyInside`: A thread between its acquire and the end of its hold.
* `Releasing`: The statements of `lock_release` at depth one.
* `BelowLimit`: A call of `lock_acquire` the counter can still count.

## Theorems

* `lockEventStep_inv`: An enabled event completes and keeps the invariant.
* `lockStep_others`: A statement moves another thread only by waking it.
* `lockStep_entering`, `lockStep_leaving`: The way in and the way out.
* `lock_reachable_inv`: The invariant holds in every reachable state.
* `lock_safety`: Mutual exclusion, the holder, the counter and no failures.
* `nested_reachable`: One thread can nest to any depth.
* `nesting_wraps`: At depth `2 ^ 32` the counter no longer is the depth.
-/

namespace ForikOS

variable {T : Type} [DecidableEq T]

/-- A thread that does not own the semaphore: it has acquired nothing, and is
    at most waiting for `sema_down` to succeed. -/
def Away (s : LockState T) (t : T) : Prop :=
  s.depth t = 0 ∧ (s.pc t = .rest ∨ s.pc t = .testHolder ∨ s.pc t = .down ∨ s.pc t = .waiting)

/-- What the owner has made of the holder and the counter, by the statement
    it is at. -/
def OwnerAt (lock : Lock T) (o : T) (d : Nat) : LockPc → Prop
  | .setHolder => d = 0 ∧ lock.holder = none ∧ lock.holderRepeatNr = 0
  | .checkRepeat => d = 0 ∧ lock.holder = some o ∧ lock.holderRepeatNr = 0
  | .setRepeat => d = 0 ∧ lock.holder = some o ∧ lock.holderRepeatNr = 0
  | .rest => 0 < d ∧ lock.holder = some o ∧ lock.holderRepeatNr.toNat = d
  | .testHolder => 0 < d ∧ d + 1 < 2 ^ 32 ∧ lock.holder = some o ∧ lock.holderRepeatNr.toNat = d
  | .incRepeat => 0 < d ∧ d + 1 < 2 ^ 32 ∧ lock.holder = some o ∧ lock.holderRepeatNr.toNat = d
  | .checkHolder => 0 < d ∧ lock.holder = some o ∧ lock.holderRepeatNr.toNat = d
  | .testRepeat => 0 < d ∧ lock.holder = some o ∧ lock.holderRepeatNr.toNat = d
  | .decRepeat => 1 < d ∧ lock.holder = some o ∧ lock.holderRepeatNr.toNat = d
  | .checkOne => d = 1 ∧ lock.holder = some o ∧ lock.holderRepeatNr.toNat = 1
  | .clearHolder => d = 1 ∧ lock.holder = some o ∧ lock.holderRepeatNr.toNat = 1
  | .clearRepeat => d = 1 ∧ lock.holder = none
  | .up => d = 1 ∧ lock.holder = none ∧ lock.holderRepeatNr = 0
  | .down => False
  | .waiting => False

/-- The waiters are exactly the threads blocked in `sema_down`, each once. -/
def WaitersOk (s : LockState T) : Prop :=
  s.lock.semaphore.waiters.Nodup ∧ ∀ t, t ∈ s.lock.semaphore.waiters ↔ s.pc t = .waiting

/-- The lock is free and every thread away, or one thread owns it. -/
inductive LockInv (s : LockState T) : Prop
  | free : WaitersOk s → s.lock.semaphore.value = 1 → s.lock.holder = none →
      s.lock.holderRepeatNr = 0 → (∀ t, Away s t) → LockInv s
  | held (o : T) : WaitersOk s → s.lock.semaphore.value = 0 →
      OwnerAt s.lock o (s.depth o) (s.pc o) → (∀ t, t ≠ o → Away s t) → LockInv s

/-- A call of `lock_acquire` that the counter can still count. -/
def BelowLimit (s : LockState T) : LockEvent T → Prop
  | .acquire t => s.depth t + 1 < 2 ^ 32
  | .release _ => True
  | .run _ => True

/-- The thread has returned from its outermost `lock_acquire` and has not yet
    cleared the holder in the matching `lock_release`. -/
def StrictlyInside (s : LockState T) (t : T) : Prop :=
  0 < s.depth t ∧ s.pc t ≠ .clearRepeat ∧ s.pc t ≠ .up

omit [DecidableEq T] in
/-- A thread that did not move is still away. -/
theorem away_congr {s s' : LockState T} {u : T}
    (hpc : s'.pc u = s.pc u) (hd : s'.depth u = s.depth u) (h : Away s u) : Away s' u := by
  unfold Away at h ⊢
  rw [hpc, hd]
  exact h

omit [DecidableEq T] in
/-- Owning the semaphore and being away exclude each other. -/
theorem away_ne_owner {s : LockState T} {t o : T} (ht : Away s t)
    (ho : OwnerAt s.lock o (s.depth o) (s.pc o)) : t ≠ o := by
  rintro rfl
  rcases ht with ⟨hd, hpc | hpc | hpc | hpc⟩ <;> rw [hd, hpc] at ho
  · exact absurd ho.1 (by decide)
  · exact absurd ho.1 (by decide)
  · exact ho
  · exact ho

/-- Moving a thread that neither was nor becomes blocked keeps the waiters. -/
theorem waitersOk_of_move {s s' : LockState T} {t : T} {pc : LockPc} (hw : WaitersOk s)
    (hsema : s'.lock.semaphore.waiters = s.lock.semaphore.waiters)
    (hpc : s'.pc = Function.update s.pc t pc)
    (hold : s.pc t ≠ .waiting) (hnew : pc ≠ .waiting) : WaitersOk s' := by
  refine ⟨by rw [hsema]; exact hw.1, fun u => ?_⟩
  rw [hsema, hpc]
  by_cases hu : u = t
  · rw [hu, Function.update_self, hw.2 t]
    exact ⟨fun h => absurd h hold, fun h => absurd h hnew⟩
  · rw [Function.update_of_ne hu]
    exact hw.2 u

/-- The owner moves on: it is enough to say what it has now done. -/
theorem held_of_move {s s' : LockState T} {o : T} {pc : LockPc}
    (hw : WaitersOk s) (hv : s.lock.semaphore.value = 0) (hothers : ∀ t, t ≠ o → Away s t)
    (hsema : s'.lock.semaphore = s.lock.semaphore) (hpc : s'.pc = Function.update s.pc o pc)
    (hdepth : ∀ t, t ≠ o → s'.depth t = s.depth t)
    (hold : s.pc o ≠ .waiting) (hnew : pc ≠ .waiting)
    (hown : OwnerAt s'.lock o (s'.depth o) pc) : LockInv s' := by
  refine LockInv.held o (waitersOk_of_move hw (by rw [hsema]) hpc hold hnew)
    (by rw [hsema]; exact hv) ?_ ?_
  · rw [hpc, Function.update_self]
    exact hown
  · intro t ht
    refine away_congr ?_ (hdepth t ht) (hothers t ht)
    rw [hpc, Function.update_of_ne ht]

/-- An away thread moves between the statements before `sema_down` succeeds. -/
theorem lockInv_of_away_move {s s' : LockState T} {t : T} {pc : LockPc} (h : LockInv s)
    (ht : Away s t) (hlock : s'.lock = s.lock) (hdepth : s'.depth = s.depth)
    (hpc : s'.pc = Function.update s.pc t pc) (hold : s.pc t ≠ .waiting)
    (hnew : pc = .rest ∨ pc = .testHolder ∨ pc = .down) : LockInv s' := by
  have hnw : pc ≠ .waiting := by
    rcases hnew with h | h | h <;> rw [h] <;> decide
  -- Where the thread goes it is still away from the lock.
  have haway : ∀ u, Away s u → Away s' u := by
    intro u hu
    by_cases hut : u = t
    · refine ⟨by rw [hdepth, hut]; exact ht.1, ?_⟩
      rw [hpc, hut, Function.update_self]
      rcases hnew with h | h | h <;> simp only [h, true_or, or_true]
    · exact away_congr (by rw [hpc, Function.update_of_ne hut]) (by rw [hdepth]) hu
  cases h with
  | free hw hv hh hr hall =>
      refine LockInv.free (waitersOk_of_move hw (by rw [hlock]) hpc hold hnw) ?_ ?_ ?_ ?_
      · rw [hlock]; exact hv
      · rw [hlock]; exact hh
      · rw [hlock]; exact hr
      · exact fun u => haway u (hall u)
  | held o hw hv hown hothers =>
      have hto : o ≠ t := (away_ne_owner ht hown).symm
      refine LockInv.held o (waitersOk_of_move hw (by rw [hlock]) hpc hold hnw) ?_ ?_ ?_
      · rw [hlock]; exact hv
      · rw [hlock, hdepth, hpc, Function.update_of_ne hto]
        exact hown
      · exact fun u hu => haway u (hothers u hu)

/-- At value zero a thread that is not yet waiting joins the waiters. -/
theorem semaDownIter_taken {t : T} {p : Semaphore T} (hv : p.value = 0) (ht : t ∉ p.waiters) :
    semaDownIter t p = .ok ({ p with waiters := p.waiters ++ [t] }, true) := by
  simp only [semaDownIter, hv, if_true, ensure, ht, not_false_eq_true, bind, Except.bind]

/-- At value one a thread takes the semaphore. -/
theorem semaDownIter_free {t : T} {p : Semaphore T} (hv : p.value = 1) :
    semaDownIter t p = .ok ({ p with value := 0 }, false) := by
  have h10 : (1 : UInt8) ≠ 0 := by decide
  have hone : (1 : UInt8) - 1 = 0 := by decide
  simp only [semaDownIter, hv, if_neg h10, ensure, hone, if_true, bind, Except.bind]

omit [DecidableEq T] in
/-- At value zero raising the semaphore succeeds. -/
theorem semaUp_taken {p : Semaphore T} (hv : p.value = 0) :
    semaUp p = .ok ({ value := 1, waiters := p.waiters.tail }, p.waiters.head?) := by
  have hone : (0 : UInt8) + 1 = 1 := by decide
  simp only [semaUp, hv, ensure, hone, if_true, bind, Except.bind]

/-- An away thread at the loop test of a semaphore that is taken joins the
    waiters. -/
theorem lockStep_down_taken {s : LockState T} {t o : T} (hpc : s.pc t = .down) (hto : t ≠ o)
    (hw : WaitersOk s) (hv : s.lock.semaphore.value = 0)
    (hown : OwnerAt s.lock o (s.depth o) (s.pc o)) (hothers : ∀ u, u ≠ o → Away s u) :
    ∃ s', lockStep s t = .ok s' ∧ LockInv s' := by
  have hnot : t ∉ s.lock.semaphore.waiters := by
    rw [hw.2 t, hpc]
    decide
  have hstep : lockStep s t = .ok ({ s with lock := { s.lock with semaphore :=
      { s.lock.semaphore with waiters := s.lock.semaphore.waiters ++ [t] } } }.goto t .waiting) := by
    simp only [lockStep, hpc, semaDownIter_taken hv hnot, bind, Except.bind, if_true]
  refine ⟨_, hstep, LockInv.held o ⟨?_, fun u => ?_⟩ hv ?_ ?_⟩
  · exact List.nodup_append.mpr ⟨hw.1, List.nodup_singleton t, by
      rintro a ha b hb rfl
      rw [List.mem_singleton] at hb
      exact hnot (hb ▸ ha)⟩
  · simp only [LockState.goto, List.mem_append, List.mem_singleton, hw.2 u]
    by_cases hu : u = t
    · simp only [hu, or_true, Function.update_self]
    · rw [Function.update_of_ne hu]
      simp only [hu, or_false]
  · simp only [LockState.goto, Function.update_of_ne hto.symm]
    -- The owner's part of the lock is not the list of waiters.
    cases hpo : s.pc o <;> simp only [hpo, OwnerAt] at hown ⊢ <;> exact hown
  · intro u hu
    by_cases hut : u = t
    · refine ⟨by rw [hut]; exact (hothers t hto).1, ?_⟩
      simp only [LockState.goto, hut, Function.update_self, or_true]
    · exact away_congr (s := s) (by simp only [LockState.goto, Function.update_of_ne hut]) rfl
        (hothers u hu)

/-- An away thread at the loop test of a free semaphore becomes the owner. -/
theorem lockStep_down_free {s : LockState T} {t : T} (hpc : s.pc t = .down)
    (hw : WaitersOk s) (hv : s.lock.semaphore.value = 1) (hh : s.lock.holder = none)
    (hr : s.lock.holderRepeatNr = 0) (hall : ∀ u, Away s u) :
    ∃ s', lockStep s t = .ok s' ∧ LockInv s' := by
  have hstep : lockStep s t = .ok ({ s with lock := { s.lock with semaphore :=
      { s.lock.semaphore with value := 0 } } }.goto t .setHolder) := by
    simp only [lockStep, hpc, semaDownIter_free hv, bind, Except.bind, Bool.false_eq_true, if_false]
  refine ⟨_, hstep, LockInv.held t ?_ rfl ?_ ?_⟩
  · exact waitersOk_of_move hw rfl rfl (by rw [hpc]; decide) (by decide)
  · simp only [LockState.goto, Function.update_self, OwnerAt]
    exact ⟨(hall t).1, hh, hr⟩
  · intro u hu
    exact away_congr (s := s) (by simp only [LockState.goto, Function.update_of_ne hu]) rfl (hall u)

/-- A thread that does not own the semaphore executes its next statement. -/
theorem lockStep_away {s : LockState T} {t : T} (h : LockInv s) (ht : Away s t)
    (hrest : s.pc t ≠ .rest) (hwait : s.pc t ≠ .waiting) :
    ∃ s', lockStep s t = .ok s' ∧ LockInv s' := by
  rcases ht.2 with hpc | hpc | hpc | hpc
  · exact absurd hpc hrest
  · -- Only the owner is ever recorded as holder.
    have hne : s.lock.holder ≠ some t := by
      cases h with
      | free _ _ hh _ _ => rw [hh]; exact fun hc => by cases hc
      | held o _ _ hown _ =>
          have hto := away_ne_owner ht hown
          intro hc
          cases hpo : s.pc o <;> simp only [hpo, OwnerAt, hc, Option.some.injEq, reduceCtorEq,
            false_and, and_false] at hown
          all_goals exact hto (by tauto)
    refine ⟨s.goto t .down, by simp only [lockStep, hpc, ne_eq, hne, not_false_eq_true, if_true],
      lockInv_of_away_move h ht rfl rfl rfl hwait (Or.inr (Or.inr rfl))⟩
  · cases h with
    | free hw hv hh hr hall => exact lockStep_down_free hpc hw hv hh hr hall
    | held o hw hv hown hothers =>
        exact lockStep_down_taken hpc (away_ne_owner ht hown) hw hv hown hothers
  · exact absurd hpc hwait

/-- The owner raises the semaphore: the lock is free, and the popped thread
    is back at the loop test. -/
theorem lockStep_up {s : LockState T} {o : T} (hpc : s.pc o = .up) (hw : WaitersOk s)
    (hv : s.lock.semaphore.value = 0) (hd : s.depth o = 1) (hh : s.lock.holder = none)
    (hr : s.lock.holderRepeatNr = 0) (hothers : ∀ t, t ≠ o → Away s t) :
    ∃ s', lockStep s o = .ok s' ∧ LockInv s' := by
  cases hq : s.lock.semaphore.waiters with
  -- Nobody waits, and the lock is free.
  | nil =>
      have hstep : lockStep s o = .ok ({ s with lock := { s.lock with semaphore :=
          { value := 1, waiters := [] } } }.finish o (s.depth o - 1)) := by
        simp only [lockStep, hpc, semaUp_taken hv, hq, bind, Except.bind, List.tail_nil,
          List.head?_nil]
      refine ⟨_, hstep, LockInv.free (waitersOk_of_move hw ?_ rfl ?_ ?_) rfl hh hr (fun t => ?_)⟩
      · simp only [LockState.finish, hq]
      · rw [hpc]; decide
      · decide
      · by_cases hto : t = o
        · simp only [Away, LockState.finish, hto, Function.update_self, hd, Nat.sub_self, true_or,
            and_self]
        · exact away_congr (s := s) (by simp only [LockState.finish, Function.update_of_ne hto])
            (by simp only [LockState.finish, Function.update_of_ne hto]) (hothers t hto)
  | cons w rest =>
      -- The first waiter is woken, and the lock is free until it runs.
      have hww : s.pc w = .waiting := (hw.2 w).mp (by rw [hq]; exact List.mem_cons_self)
      have hwo : w ≠ o := by
        intro hc
        rw [hc, hpc] at hww
        cases hww
      have hstep : lockStep s o = .ok (({ s with lock := { s.lock with semaphore :=
          { value := 1, waiters := rest } } }.goto w .down).finish o (s.depth o - 1)) := by
        simp only [lockStep, hpc, semaUp_taken hv, hq, bind, Except.bind, List.tail_cons,
          List.head?_cons, LockState.goto]
      have hnd : w ∉ rest ∧ rest.Nodup := by
        have := hw.1
        rw [hq] at this
        exact List.nodup_cons.mp this
      refine ⟨_, hstep, LockInv.free ⟨hnd.2, fun t => ?_⟩ rfl hh hr (fun t => ?_)⟩
      · -- Only the popped thread stops waiting.
        have hmem := hw.2 t
        rw [hq, List.mem_cons] at hmem
        simp only [LockState.goto, LockState.finish]
        by_cases hto : t = o
        · rw [hto, Function.update_self]
          rw [hto, hpc] at hmem
          exact ⟨fun hc => absurd (hmem.mp (Or.inr hc)) (by decide), fun hc => by cases hc⟩
        · rw [Function.update_of_ne hto]
          by_cases htw : t = w
          · rw [htw, Function.update_self]
            exact ⟨fun hc => absurd hc hnd.1, fun hc => by cases hc⟩
          · rw [Function.update_of_ne htw, ← hmem]
            simp only [htw, false_or]
      · by_cases hto : t = o
        · simp only [Away, LockState.goto, LockState.finish, hto, Function.update_self, hd,
            Nat.sub_self, true_or, and_self]
        · by_cases htw : t = w
          · simp only [Away, LockState.goto, LockState.finish, Function.update_of_ne hto]
            rw [htw, Function.update_self]
            exact ⟨(hothers w hwo).1, Or.inr (Or.inr (Or.inl rfl))⟩
          · exact away_congr (s := s)
              (by simp only [LockState.goto, LockState.finish, Function.update_of_ne hto,
                Function.update_of_ne htw])
              (by simp only [LockState.goto, LockState.finish, Function.update_of_ne hto])
              (hothers t hto)

/-- The owner executes its next statement. -/
theorem lockStep_owner {s : LockState T} {o : T} (hrest : s.pc o ≠ .rest) (hw : WaitersOk s)
    (hv : s.lock.semaphore.value = 0) (hown : OwnerAt s.lock o (s.depth o) (s.pc o))
    (hothers : ∀ t, t ≠ o → Away s t) : ∃ s', lockStep s o = .ok s' ∧ LockInv s' := by
  have hgoto : ∀ (pc : LockPc) (lock : Lock T), lock.semaphore = s.lock.semaphore →
      s.pc o ≠ .waiting → pc ≠ .waiting → OwnerAt lock o (s.depth o) pc →
      LockInv ({ s with lock := lock }.goto o pc) := fun pc lock hs hold hnew ho =>
    held_of_move hw hv hothers hs rfl (fun _ _ => rfl) hold hnew ho
  have hfinish : ∀ (lock : Lock T) (d : Nat), lock.semaphore = s.lock.semaphore →
      s.pc o ≠ .waiting → OwnerAt lock o d .rest →
      LockInv ({ s with lock := lock }.finish o d) := fun lock d hs hold ho =>
    held_of_move hw hv hothers hs rfl
      (fun t ht => Function.update_of_ne ht _ _) hold (by decide)
      (by simp only [LockState.finish, Function.update_self]; exact ho)
  cases hpc : s.pc o with
  | rest => exact absurd hpc hrest
  | down => rw [hpc] at hown; exact absurd hown id
  | waiting => rw [hpc] at hown; exact absurd hown id
  | testHolder =>
      rw [hpc] at hown
      rcases hown with ⟨hd, hlim, hh, hr⟩
      refine ⟨_, by simp only [lockStep, hpc, hh, ne_eq, not_true_eq_false, if_false]; rfl, ?_⟩
      exact hgoto .incRepeat s.lock rfl (by rw [hpc]; decide) (by decide) ⟨hd, hlim, hh, hr⟩
  | setHolder =>
      rw [hpc] at hown
      refine ⟨_, by simp only [lockStep, hpc]; rfl, ?_⟩
      exact hgoto .checkRepeat { s.lock with holder := some o } rfl (by rw [hpc]; decide)
        (by decide) ⟨hown.1, rfl, hown.2.2⟩
  | checkRepeat =>
      rw [hpc] at hown
      refine ⟨_, by simp only [lockStep, hpc, hown.2.2, ensure, if_true, bind, Except.bind]; rfl, ?_⟩
      exact hgoto .setRepeat s.lock rfl (by rw [hpc]; decide) (by decide) hown
  | setRepeat =>
      rw [hpc] at hown
      refine ⟨_, by simp only [lockStep, hpc]; rfl, ?_⟩
      refine hfinish { s.lock with holderRepeatNr := 1 } _ rfl (by rw [hpc]; decide)
        ⟨by omega, hown.2.1, ?_⟩
      rw [hown.1]
      rfl
  | incRepeat =>
      rw [hpc] at hown
      rcases hown with ⟨hd, hlim, hh, hr⟩
      refine ⟨_, by simp only [lockStep, hpc]; rfl, ?_⟩
      refine hfinish { s.lock with holderRepeatNr := s.lock.holderRepeatNr + 1 } _ rfl
        (by rw [hpc]; decide) ⟨by omega, hh, ?_⟩
      -- The counter is below its limit, so the increment does not wrap.
      rw [UInt32.toNat_add, hr]
      exact Nat.mod_eq_of_lt hlim
  | checkHolder =>
      rw [hpc] at hown
      refine ⟨_, by simp only [lockStep, hpc, hown.2.1, ensure, if_true, bind, Except.bind]; rfl, ?_⟩
      exact hgoto .testRepeat s.lock rfl (by rw [hpc]; decide) (by decide) hown
  | testRepeat =>
      rw [hpc] at hown
      rcases hown with ⟨hd, hh, hr⟩
      have hlt : 1 < s.lock.holderRepeatNr ↔ 1 < s.depth o := by
        rw [UInt32.lt_iff_toNat_lt, hr]
        rfl
      by_cases hone : 1 < s.depth o
      · refine ⟨_, by simp only [lockStep, hpc, hlt.mpr hone, if_true]; rfl, ?_⟩
        exact hgoto .decRepeat s.lock rfl (by rw [hpc]; decide) (by decide) ⟨hone, hh, hr⟩
      · refine ⟨_, by simp only [lockStep, hpc, if_neg (mt hlt.mp hone)]; rfl, ?_⟩
        exact hgoto .checkOne s.lock rfl (by rw [hpc]; decide) (by decide)
          ⟨by omega, hh, by omega⟩
  | decRepeat =>
      rw [hpc] at hown
      rcases hown with ⟨hd, hh, hr⟩
      refine ⟨_, by simp only [lockStep, hpc]; rfl, ?_⟩
      refine hfinish { s.lock with holderRepeatNr := s.lock.holderRepeatNr - 1 } _ rfl
        (by rw [hpc]; decide) ⟨by omega, hh, ?_⟩
      have hle : (1 : UInt32) ≤ s.lock.holderRepeatNr := by
        rw [UInt32.le_iff_toNat_le, hr]
        exact Nat.le_of_lt hd
      rw [UInt32.toNat_sub_of_le _ _ hle, hr]
      rfl
  | checkOne =>
      rw [hpc] at hown
      have hone : s.lock.holderRepeatNr = 1 := by
        apply UInt32.toNat_inj.mp
        rw [hown.2.2]
        rfl
      refine ⟨_, by simp only [lockStep, hpc, hone, ensure, if_true, bind, Except.bind]; rfl, ?_⟩
      exact hgoto .clearHolder s.lock rfl (by rw [hpc]; decide) (by decide) hown
  | clearHolder =>
      rw [hpc] at hown
      refine ⟨_, by simp only [lockStep, hpc]; rfl, ?_⟩
      exact hgoto .clearRepeat { s.lock with holder := none } rfl (by rw [hpc]; decide)
        (by decide) ⟨hown.1, rfl⟩
  | clearRepeat =>
      rw [hpc] at hown
      refine ⟨_, by simp only [lockStep, hpc]; rfl, ?_⟩
      exact hgoto .up { s.lock with holderRepeatNr := 0 } rfl (by rw [hpc]; decide)
        (by decide) ⟨hown.1, hown.2, rfl⟩
  | up =>
      rw [hpc] at hown
      exact lockStep_up hpc hw hv hown.1 hown.2.1 hown.2.2 hothers

/-- Every thread is away or the owner. -/
theorem away_or_owner {s : LockState T} (h : LockInv s) (t : T) :
    Away s t ∨ (WaitersOk s ∧ s.lock.semaphore.value = 0 ∧
      OwnerAt s.lock t (s.depth t) (s.pc t) ∧ ∀ u, u ≠ t → Away s u) := by
  cases h with
  | free _ _ _ _ hall => exact Or.inl (hall t)
  | held o hw hv hown hothers =>
      by_cases hto : t = o
      · rw [hto]
        exact Or.inr ⟨hw, hv, hown, hothers⟩
      · exact Or.inl (hothers t hto)

/-- An enabled event whose nesting the counter can count never fails an
    assertion, and keeps the invariant. -/
theorem lockEventStep_inv {s : LockState T} (h : LockInv s) (e : LockEvent T)
    (he : lockEnabled s e) (hlim : BelowLimit s e) :
    ∃ s', lockEventStep s e = .ok s' ∧ LockInv s' := by
  cases e with
  | acquire t =>
      have hpc : s.pc t = .rest := he
      refine ⟨s.goto t .testHolder, rfl, ?_⟩
      rcases away_or_owner h t with ht | ⟨hw, hv, hown, hothers⟩
      · exact lockInv_of_away_move h ht rfl rfl rfl (by rw [hpc]; decide) (Or.inr (Or.inl rfl))
      · rw [hpc] at hown
        exact held_of_move hw hv hothers rfl rfl (fun _ _ => rfl) (by rw [hpc]; decide)
          (by decide) ⟨hown.1, hlim, hown.2⟩
  | release t =>
      rcases he with ⟨hpc, hd⟩
      refine ⟨s.goto t .checkHolder, rfl, ?_⟩
      rcases away_or_owner h t with ht | ⟨hw, hv, hown, hothers⟩
      · have := ht.1
        omega
      · rw [hpc] at hown
        exact held_of_move hw hv hothers rfl rfl (fun _ _ => rfl) (by rw [hpc]; decide)
          (by decide) hown
  | run t =>
      rcases away_or_owner h t with ht | ⟨hw, hv, hown, hothers⟩
      · exact lockStep_away h ht he.1 he.2
      · exact lockStep_owner he.1 hw hv hown hothers

/-- A statement of one thread moves another only by waking it. -/
theorem lockStep_others {s s' : LockState T} {t u : T} (hw : WaitersOk s)
    (h : lockStep s t = .ok s') (hu : u ≠ t) :
    s'.depth u = s.depth u ∧ (s'.pc u = s.pc u ∨ (s.pc u = .waiting ∧ s'.pc u = .down)) := by
  have hgoto : ∀ (r : LockState T) pc, (r.goto t pc).pc u = r.pc u :=
    fun r pc => Function.update_of_ne hu _ _
  have hpcf : ∀ (r : LockState T) d, (r.finish t d).pc u = r.pc u :=
    fun r d => Function.update_of_ne hu _ _
  have hdf : ∀ (r : LockState T) d, (r.finish t d).depth u = r.depth u :=
    fun r d => Function.update_of_ne hu _ _
  cases hpc : s.pc t <;> simp only [lockStep, hpc] at h
  case rest | waiting =>
    cases h
    exact ⟨rfl, Or.inl rfl⟩
  case testHolder | testRepeat =>
    split at h <;> cases h <;> exact ⟨rfl, Or.inl (hgoto _ _)⟩
  case down =>
    rcases bind_eq_ok.mp h with ⟨⟨p, blocks⟩, _, h⟩
    cases blocks <;> cases h <;> exact ⟨rfl, Or.inl (hgoto _ _)⟩
  case setHolder | clearHolder | clearRepeat =>
    cases h
    exact ⟨rfl, Or.inl (hgoto _ _)⟩
  case checkRepeat | checkHolder | checkOne =>
    rcases bind_eq_ok.mp h with ⟨_, _, h⟩
    cases h
    exact ⟨rfl, Or.inl (hgoto _ _)⟩
  case setRepeat | incRepeat | decRepeat =>
    cases h
    exact ⟨hdf _ _, Or.inl (hpcf _ _)⟩
  -- Only raising the semaphore touches another thread, the first waiter.
  case up =>
    rcases bind_eq_ok.mp h with ⟨⟨p, woken⟩, hup, h⟩
    rcases bind_eq_ok.mp hup with ⟨_, _, hup⟩
    rcases bind_eq_ok.mp hup with ⟨_, _, hup⟩
    cases hup
    cases h
    refine ⟨?_, ?_⟩
    · rw [hdf]
      cases s.lock.semaphore.waiters <;> rfl
    · rw [hpcf]
      cases hq : s.lock.semaphore.waiters with
      | nil => exact Or.inl rfl
      | cons w rest =>
          by_cases huw : u = w
          · refine Or.inr ⟨(hw.2 u).mp ?_, ?_⟩
            · rw [hq, huw]
              exact List.mem_cons_self
            · rw [huw]
              exact Function.update_self _ _ _
          · exact Or.inl (Function.update_of_ne huw _ _)

/-- The statements of `lock_release` on the way to raising the semaphore. -/
def Releasing (pc : LockPc) : Prop :=
  pc = .checkHolder ∨ pc = .testRepeat ∨ pc = .checkOne ∨ pc = .clearHolder ∨
    pc = .clearRepeat ∨ pc = .up

/-- A thread at depth zero is on its way in, and when it gets there its depth
    is one. -/
theorem lockStep_entering {s s' : LockState T} {t : T} (hi : LockInv s) (hd : s.depth t = 0)
    (hrest : s.pc t ≠ .rest) (hwait : s.pc t ≠ .waiting) (h : lockStep s t = .ok s') :
    (s'.pc t = .rest ∧ s'.depth t = 1) ∨ (s'.pc t ≠ .rest ∧ s'.depth t = 0) := by
  have hgoto : ∀ (r : LockState T) pc, (r.goto t pc).pc t = pc :=
    fun r pc => Function.update_self _ _ _
  rcases away_or_owner hi t with ht | ⟨_, _, hown, _⟩
  · rcases ht.2 with hpc | hpc | hpc | hpc
    · exact absurd hpc hrest
    · simp only [lockStep, hpc] at h
      split at h <;> cases h <;> exact Or.inr ⟨by rw [hgoto]; decide, hd⟩
    · simp only [lockStep, hpc] at h
      rcases bind_eq_ok.mp h with ⟨⟨p, blocks⟩, _, h⟩
      cases blocks <;> cases h <;> exact Or.inr ⟨by rw [hgoto]; decide, hd⟩
    · exact absurd hpc hwait
  · cases hpc : s.pc t <;> rw [hpc, hd] at hown <;> simp only [lockStep, hpc] at h
    case setHolder =>
      cases h
      exact Or.inr ⟨by rw [hgoto]; decide, hd⟩
    case checkRepeat =>
      rcases bind_eq_ok.mp h with ⟨_, _, h⟩
      cases h
      exact Or.inr ⟨by rw [hgoto]; decide, hd⟩
    case setRepeat =>
      cases h
      refine Or.inl ⟨Function.update_self _ _ _, ?_⟩
      exact (Function.update_self _ _ _).trans (by rw [hd])
    -- Every other statement belongs to an owner that has got in already.
    case down | waiting => exact hown.elim
    all_goals exact absurd hown.1 (by decide)

/-- A thread at depth one that releases is at depth zero when it is done. -/
theorem lockStep_leaving {s s' : LockState T} {t : T} (hi : LockInv s) (hd : s.depth t = 1)
    (hrel : Releasing (s.pc t)) (h : lockStep s t = .ok s') :
    (s'.pc t = .rest ∧ s'.depth t = 0) ∨ (Releasing (s'.pc t) ∧ s'.depth t = 1) := by
  have hgoto : ∀ (r : LockState T) pc, (r.goto t pc).pc t = pc :=
    fun r pc => Function.update_self _ _ _
  have hown : OwnerAt s.lock t (s.depth t) (s.pc t) := by
    rcases away_or_owner hi t with ht | ⟨_, _, hown, _⟩
    · rw [ht.1] at hd
      cases hd
    · exact hown
  unfold Releasing
  rcases hrel with hpc | hpc | hpc | hpc | hpc | hpc <;> rw [hpc, hd] at hown <;>
    simp only [lockStep, hpc] at h
  · rcases bind_eq_ok.mp h with ⟨_, _, h⟩
    cases h
    exact Or.inr ⟨by simp only [hgoto, true_or, or_true], hd⟩
  · -- At depth one the counter is one, so the semaphore will be raised.
    have hle : ¬ 1 < s.lock.holderRepeatNr := by
      rw [UInt32.lt_iff_toNat_lt, hown.2.2]
      decide
    rw [if_neg hle] at h
    cases h
    exact Or.inr ⟨by simp only [hgoto, true_or, or_true], hd⟩
  · rcases bind_eq_ok.mp h with ⟨_, _, h⟩
    cases h
    exact Or.inr ⟨by simp only [hgoto, true_or, or_true], hd⟩
  · cases h
    exact Or.inr ⟨by simp only [hgoto, true_or, or_true], hd⟩
  · cases h
    exact Or.inr ⟨by simp only [hgoto, or_true], hd⟩
  · rcases bind_eq_ok.mp h with ⟨⟨p, woken⟩, _, h⟩
    cases h
    refine Or.inl ⟨Function.update_self _ _ _, ?_⟩
    refine (Function.update_self _ _ _).trans ?_
    cases woken <;> exact congrArg (· - 1) hd

/-- The invariant holds in every state reached below the counter's limit. -/
theorem lock_reachable_inv (s : LockState T)
    (h : ((lockSystem T).restrict BelowLimit).Reachable s) : LockInv s := by
  refine System.invariant_of_step _ LockInv ?_ ?_ s h
  · rintro s rfl
    refine LockInv.free ⟨List.nodup_nil, fun t => ?_⟩ rfl rfl rfl (fun t => ⟨rfl, Or.inl rfl⟩)
    simp only [lockInit, semaInit, List.not_mem_nil, reduceCtorEq]
  · intro s e s' hinv he hs
    rcases lockEventStep_inv hinv e he.1 he.2 with ⟨s1, hs1, hinv1⟩
    have heq : Except.ok s1 = Except.ok s' := hs1.symm.trans hs
    rw [Except.ok.injEq] at heq
    rw [← heq]
    exact hinv1

omit [DecidableEq T] in
/-- Strictly inside, the owner is recorded with its depth. -/
theorem ownerAt_inside {s : LockState T} {t : T} (ht : StrictlyInside s t)
    (hown : OwnerAt s.lock t (s.depth t) (s.pc t)) :
    s.lock.holder = some t ∧ s.lock.holderRepeatNr.toNat = s.depth t := by
  rcases ht with ⟨hd, hnc, hnu⟩
  cases hpc : s.pc t <;> rw [hpc] at hown <;> simp only [OwnerAt] at hown
  case clearRepeat => exact absurd hpc hnc
  case up => exact absurd hpc hnu
  case setHolder => exact absurd hown.1 (Nat.ne_of_gt hd)
  all_goals
    refine ⟨by tauto, ?_⟩
    omega

/-- Lock safety, as long as no thread nests deeper than the counter counts:
    at most one thread holds the lock, the holder and the counter describe
    it, the semaphore stays binary, and no assertion fails. -/
theorem lock_safety (s : LockState T)
    (h : ((lockSystem T).restrict BelowLimit).Reachable s) :
    (∀ t u, 0 < s.depth t → 0 < s.depth u → t = u) ∧
    (∀ t, StrictlyInside s t →
      s.lock.holder = some t ∧ s.lock.holderRepeatNr.toNat = s.depth t) ∧
    (s.lock.semaphore.value = 0 ∨ s.lock.semaphore.value = 1) ∧
    (∀ e, lockEnabled s e → BelowLimit s e → ∃ s', lockEventStep s e = .ok s') := by
  have hinv := lock_reachable_inv s h
  refine ⟨?_, ?_, ?_, ?_⟩
  · intro t u ht hu
    -- A thread is away from the lock or owns it, and beside an owner all are away.
    rcases away_or_owner hinv t with hta | ⟨_, _, _, hothers⟩
    · have := hta.1
      omega
    · by_contra hne
      have := (hothers u (fun hc => hne hc.symm)).1
      omega
  · intro t ht
    rcases away_or_owner hinv t with hta | ⟨_, _, hown, _⟩
    · have := hta.1
      have := ht.1
      omega
    · exact ownerAt_inside ht hown
  · cases hinv with
    | free _ hv _ _ _ => exact Or.inr hv
    | held _ _ hv _ _ => exact Or.inl hv
  · intro e he hlim
    rcases lockEventStep_inv hinv e he hlim with ⟨s', hs', _⟩
    exact ⟨s', hs'⟩

/-- One thread alone with the lock. -/
def alone (lock : Lock Unit) (pc : LockPc) (d : Nat) : LockState Unit :=
  { lock := lock, pc := fun _ => pc, depth := fun _ => d }

/-- The lock after one thread has taken it `n` times. -/
def nestedLock (n : Nat) : Lock Unit where
  holder := if n = 0 then none else some ()
  semaphore := { value := if n = 0 then 1 else 0, waiters := [] }
  holderRepeatNr := UInt32.ofNat n

@[simp] theorem alone_goto (lock : Lock Unit) (pc pc' : LockPc) (d : Nat) :
    (alone lock pc d).goto () pc' = alone lock pc' d := by
  simp only [alone, LockState.goto, LockState.mk.injEq, true_and, and_true]
  funext u
  cases u
  rw [Function.update_self]

@[simp] theorem alone_finish (lock : Lock Unit) (pc : LockPc) (d d' : Nat) :
    (alone lock pc d).finish () d' = alone lock .rest d' := by
  simp only [alone, LockState.finish, LockState.mk.injEq, true_and]
  constructor <;>
  · funext u
    cases u
    rw [Function.update_self]

/-- The thread executes its next statement. -/
theorem alone_run {P : LockState Unit → LockEvent Unit → Prop} (hrun : ∀ s, P s (.run ()))
    {lock : Lock Unit} {pc : LockPc} {d : Nat} {s' : LockState Unit} (hrest : pc ≠ .rest)
    (hwait : pc ≠ .waiting) (hs : lockStep (alone lock pc d) () = .ok s')
    (h : ((lockSystem Unit).restrict P).Reachable (alone lock pc d)) :
    ((lockSystem Unit).restrict P).Reachable s' :=
  System.Reachable.step _ (LockEvent.run ()) s' h ⟨⟨hrest, hwait⟩, hrun _⟩ hs

/-- The first acquire, from the free lock to depth one. -/
theorem alone_first {P : LockState Unit → LockEvent Unit → Prop} (hrun : ∀ s, P s (.run ()))
    (h : ((lockSystem Unit).restrict P).Reachable (alone (nestedLock 0) .testHolder 0)) :
    ((lockSystem Unit).restrict P).Reachable (alone (nestedLock 1) .rest 1) := by
  let taken : Lock Unit := { nestedLock 0 with semaphore := { value := 0, waiters := [] } }
  let named : Lock Unit := { taken with holder := some () }
  have h1 : ((lockSystem Unit).restrict P).Reachable (alone (nestedLock 0) .down 0) :=
    alone_run hrun (by decide) (by decide) (by rw [← alone_goto _ .testHolder]; rfl) h
  have h2 : ((lockSystem Unit).restrict P).Reachable (alone taken .setHolder 0) :=
    alone_run hrun (by decide) (by decide) (by rw [← alone_goto _ .down]; rfl) h1
  have h3 : ((lockSystem Unit).restrict P).Reachable (alone named .checkRepeat 0) :=
    alone_run hrun (by decide) (by decide) (by rw [← alone_goto _ .setHolder]; rfl) h2
  have h4 : ((lockSystem Unit).restrict P).Reachable (alone named .setRepeat 0) :=
    alone_run hrun (by decide) (by decide) (by rw [← alone_goto _ .checkRepeat]; rfl) h3
  exact alone_run hrun (by decide) (by decide) (by rw [← alone_finish _ .setRepeat 0]; rfl) h4

/-- A thread can nest to any depth, as far as the condition on its calls
    allows: the first acquire takes the semaphore, each further one finds the
    thread recorded as holder and only counts. -/
theorem nested_reachable (P : LockState Unit → LockEvent Unit → Prop)
    (hrun : ∀ s, P s (.run ())) (n : Nat)
    (hacq : ∀ m, m < n → P (alone (nestedLock m) .rest m) (.acquire ())) :
    ((lockSystem Unit).restrict P).Reachable (alone (nestedLock n) .rest n) := by
  induction n with
  | zero => exact System.Reachable.init _ rfl
  | succ m ih =>
      have hm := ih (fun k hk => hacq k (by omega))
      have h1 : ((lockSystem Unit).restrict P).Reachable (alone (nestedLock m) .testHolder m) :=
        System.Reachable.step _ (LockEvent.acquire ()) _ hm ⟨rfl, hacq m (by omega)⟩
          (by rw [← alone_goto _ .rest]; rfl)
      cases m with
      | zero => exact alone_first hrun h1
      | succ k =>
          have h2 : ((lockSystem Unit).restrict P).Reachable
              (alone (nestedLock (k + 1)) .incRepeat (k + 1)) :=
            alone_run hrun (by decide) (by decide) (by rw [← alone_goto _ .testHolder]; rfl) h1
          refine alone_run hrun (by decide) (by decide) ?_ h2
          have hnr : UInt32.ofNat (k + 1 + 1) = UInt32.ofNat (k + 1) + 1 := by
            rw [UInt32.ofNat_add]
            rfl
          have hlock : nestedLock (k + 1 + 1) = { nestedLock (k + 1) with
              holderRepeatNr := (nestedLock (k + 1)).holderRepeatNr + 1 } := by
            simp only [nestedLock, hnr, Nat.succ_ne_zero, if_false]
          rw [← alone_finish _ .incRepeat (k + 1), hlock]
          rfl

/-- At depth `2 ^ 32` the thread is inside and the counter reads zero. -/
theorem nesting_wraps : ∃ s : LockState Unit, (lockSystem Unit).Reachable s ∧
    StrictlyInside s () ∧ s.lock.holderRepeatNr.toNat ≠ s.depth () := by
  refine ⟨alone (nestedLock (2 ^ 32)) .rest (2 ^ 32), ?_, ?_, ?_⟩
  · exact System.reachable_of_restrict _ (fun _ _ => True) _
      (nested_reachable _ (fun _ => trivial) _ (fun _ _ => trivial))
  · exact ⟨by decide, by decide, by decide⟩
  · decide

/-- `lock_safety` at a thread that has acquired the lock twice. -/
theorem lock_safety_nested_twice :
    (alone (nestedLock 2) .rest 2).lock.holder = some () ∧
      (alone (nestedLock 2) .rest 2).lock.holderRepeatNr.toNat = 2 :=
  (lock_safety (alone (nestedLock 2) .rest 2) (nested_reachable BelowLimit (fun _ => trivial) 2
    (fun m hm => show m + 1 < 2 ^ 32 by omega))).2.1 () ⟨by decide, by decide, by decide⟩

end ForikOS
