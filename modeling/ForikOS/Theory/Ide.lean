import ForikOS.Core.Ide
import ForikOS.Theory.Lock

/-!
# The Disk Completion Protocol

The handshake between a transfer and the disk is spread over a flag, a
semaphore and a lock, and the interrupt may come at any statement, also when
nobody asked for it. It works because a command is outstanding for one thread
at a time. That thread has the channel's lock, so nobody else gets to
`cmd_out` or to the `sema_down`.

`InFlight` are the statements between the two. While a thread is at one of
them, either the interrupt is still expected and `disk_done` is down, or it
has come and `disk_done` is up; the flag is cleared in the same step that
raises the semaphore, so the second interrupt finds the flag down. When nobody
is in flight the flag and the semaphore are both down. `ChannelOk` is this
alternative, and the two kinds of transfer differ only in which of their
statements are in flight.

## Main definitions

* `InFlight`: The statements between a command and the end of its wait.
* `PlaceOk`: Where a thread is in the driver and where it is in the lock.
* `ChannelOk`: What the flag, the semaphore and the counters say.
* `IdeInv`: The invariant.

## Theorems

* `IdeInv.inside_unique`: At most one thread is past the lock.
* `ideRun_inv`, `intrHdHandler_inv`: A statement and an interrupt keep the
  invariant.
* `disk_completion`: The protocol in every reachable state.
-/

namespace ForikOS

variable {T : Type} [DecidableEq T]

/-- A command has been given and not yet waited for. -/
def InFlight : IdePc → Prop
  | .command _ | .down _ | .waiting _ => True
  | .busyWait j | .transfer j => j.op = .write
  | _ => False

/-- Where a thread is in the driver, against its statement and its depth in
    the lock. -/
def PlaceOk (l : LockPc) (d : Nat) : IdePc → Prop
  | .rest => l = .rest ∧ d = 0
  | .locking _ => l ≠ .rest ∧ d = 0
  | .unlocking _ => Releasing l ∧ d = 1
  | _ => l = .rest ∧ d = 1

/-- The command of `t` is outstanding: the interrupt is expected, or it has
    come and raised the semaphore. -/
structure Outstanding (s : IdeState T) (t : T) : Prop where
  inFlight : InFlight (s.pc t)
  issuer : s.issuer = some t
  count : s.cmds = s.downs + 1
  answer : (s.expectingIntr = true ∧ s.diskDone.value = 0) ∨
    (s.expectingIntr = false ∧ s.diskDone.value = 1 ∧ s.diskDone.waiters = [])
  waiters : s.diskDone.waiters = [] ∧ (∀ j, s.pc t ≠ .waiting j) ∨
    s.diskDone.waiters = [t] ∧ ∃ j, s.pc t = .waiting j

/-- No command is outstanding. -/
structure Settled (s : IdeState T) : Prop where
  noFlight : ∀ t, ¬ InFlight (s.pc t)
  count : s.cmds = s.downs
  quiet : s.expectingIntr = false
  value : s.diskDone.value = 0
  waiters : s.diskDone.waiters = []

/-- One command is outstanding, or none. -/
def ChannelOk (s : IdeState T) : Prop := (∃ t, Outstanding s t) ∨ Settled s

/-- The invariant of the channel. -/
structure IdeInv (s : IdeState T) : Prop where
  lock : LockInv s.lock
  place : ∀ t, PlaceOk (s.lock.pc t) (s.lock.depth t) (s.pc t)
  channel : ChannelOk s

theorem InFlight.place {l : LockPc} {d : Nat} {pc : IdePc} (hf : InFlight pc)
    (hp : PlaceOk l d pc) : l = .rest ∧ d = 1 := by
  cases pc <;> first | exact hf.elim | exact hp

namespace IdeInv

/-- At most one thread is past the lock. -/
theorem inside_unique {s : IdeState T} (h : IdeInv s) {t u : T} (ht : s.lock.depth t = 1)
    (hu : s.lock.depth u = 1) : t = u := by
  rcases away_or_owner h.lock t with hta | ⟨_, _, _, hothers⟩
  · rw [hta.1] at ht
    cases ht
  · by_contra hne
    have hd := (hothers u (fun hc => hne hc.symm)).1
    rw [hd] at hu
    cases hu

/-- A thread past the lock and outside its functions is the holder. -/
theorem inside_holder {s : IdeState T} (h : IdeInv s) {t : T} (hrest : s.lock.pc t = .rest)
    (hd : s.lock.depth t = 1) : s.lock.lock.holder = some t := by
  rcases away_or_owner h.lock t with hta | ⟨_, _, hown, _⟩
  · rw [hta.1] at hd
    cases hd
  · rw [hrest] at hown
    exact hown.2.1

end IdeInv

/-- A thread moves between two statements on the same side of `InFlight`, and
    the channel stays as it is. -/
theorem ChannelOk.move {s s' : IdeState T} {t : T} {pc : IdePc} (h : ChannelOk s)
    (hpc : s'.pc = Function.update s.pc t pc) (hflight : InFlight pc ↔ InFlight (s.pc t))
    (hold : ∀ j, s.pc t ≠ .waiting j) (hnew : ∀ j, pc ≠ .waiting j)
    (hexp : s'.expectingIntr = s.expectingIntr) (hsema : s'.diskDone = s.diskDone)
    (hcmds : s'.cmds = s.cmds) (hdowns : s'.downs = s.downs) (hissuer : s'.issuer = s.issuer) :
    ChannelOk s' := by
  have hself : s'.pc t = pc := by
    rw [hpc, Function.update_self]
  have hother : ∀ u, u ≠ t → s'.pc u = s.pc u := by
    intro u hu
    rw [hpc, Function.update_of_ne hu]
  have hall : ∀ u, InFlight (s'.pc u) ↔ InFlight (s.pc u) := by
    intro u
    by_cases hu : u = t
    · rw [hu, hself]
      exact hflight
    · rw [hother u hu]
  have hwait : ∀ u j, s'.pc u = .waiting j ↔ s.pc u = .waiting j := by
    intro u j
    by_cases hu : u = t
    · rw [hu, hself]
      exact iff_of_false (hnew j) (hold j)
    · rw [hother u hu]
  -- Both cases carry over, as nobody has moved over the bound of InFlight.
  rcases h with ⟨u, ho⟩ | hq
  · refine Or.inl ⟨u, (hall u).mpr ho.inFlight, by rw [hissuer, ho.issuer], ?_, ?_, ?_⟩
    · rw [hcmds, hdowns, ho.count]
    · rw [hexp, hsema]
      exact ho.answer
    · rw [hsema]
      refine ho.waiters.imp ?_ ?_
      · rintro ⟨hw, hn⟩
        exact ⟨hw, fun j hc => hn j ((hwait u j).mp hc)⟩
      · rintro ⟨hw, j, hj⟩
        exact ⟨hw, j, (hwait u j).mpr hj⟩
  · refine Or.inr ⟨fun u hc => hq.noFlight u ((hall u).mp hc), ?_, ?_, ?_, ?_⟩
    · rw [hcmds, hdowns, hq.count]
    · rw [hexp, hq.quiet]
    · rw [hsema, hq.value]
    · rw [hsema, hq.waiters]

/-- A thread past the lock moves to another statement there. -/
theorem IdeInv.placeMove {s : IdeState T} (h : IdeInv s) {t : T} {pc : IdePc}
    (hpc : PlaceOk (s.lock.pc t) (s.lock.depth t) pc) (u : T) :
    PlaceOk (s.lock.pc u) (s.lock.depth u) (Function.update s.pc t pc u) := by
  by_cases hu : u = t
  · rw [hu, Function.update_self]
    exact hpc
  · rw [Function.update_of_ne hu]
    exact h.place u

/-- A statement that leaves the channel alone. -/
theorem IdeInv.quietMove {s : IdeState T} (h : IdeInv s) {t : T} {pc : IdePc} {regs : IdeRegs}
    (hplace : PlaceOk (s.lock.pc t) (s.lock.depth t) pc)
    (hflight : InFlight pc ↔ InFlight (s.pc t)) (hold : ∀ j, s.pc t ≠ .waiting j)
    (hnew : ∀ j, pc ≠ .waiting j) : IdeInv ({ s with regs := regs }.goto t pc) :=
  ⟨h.lock, h.placeMove hplace, h.channel.move rfl hflight hold hnew rfl rfl rfl rfl rfl⟩

/-- A thread woken inside `lock_acquire` is still on its way in. -/
theorem PlaceOk.woken {d : Nat} {pc : IdePc} (h : PlaceOk .waiting d pc) : PlaceOk .down d pc := by
  cases pc
  case locking j => exact ⟨by decide, h.2⟩
  case unlocking j =>
    rcases h.1 with hc | hc | hc | hc | hc | hc <;> cases hc
  all_goals exact absurd h.1 (by decide)

/-- A statement of `lock_acquire` or `lock_release`. -/
theorem ideLock_inv {s s' : IdeState T} (h : IdeInv s) {t : T} {after : IdePc}
    (hrest : s.lock.pc t ≠ .rest) (hwait : s.lock.pc t ≠ .waiting)
    (hmine : ∀ j, s.pc t ≠ .waiting j) (hafter : ∀ j, after ≠ .waiting j)
    (hflight : InFlight after ↔ InFlight (s.pc t))
    (hplace : ∀ l, lockStep s.lock t = .ok l →
      PlaceOk (l.pc t) (l.depth t) (if l.pc t = .rest then after else s.pc t))
    (hstep : ideLock s t after = .ok s') : IdeInv s' := by
  rcases bind_eq_ok.mp hstep with ⟨l, hl, hs'⟩
  rw [Except.ok.injEq] at hs'
  have hlock : LockInv l := by
    rcases lockEventStep_inv h.lock (.run t) ⟨hrest, hwait⟩ trivial with ⟨l', hl', hinv⟩
    have hsame : Except.ok l' = Except.ok (ε := Func) l := hl'.symm.trans hl
    cases hsame
    exact hinv
  have hwaiters : WaitersOk s.lock := by
    cases h.lock with
    | free hw _ _ _ _ => exact hw
    | held _ hw _ _ _ => exact hw
  -- The other threads stay where they are, or are woken inside lock_acquire.
  have hothers : ∀ u, u ≠ t → PlaceOk (l.pc u) (l.depth u) (s.pc u) := by
    intro u hu
    rcases lockStep_others hwaiters hl hu with ⟨hd, hp | ⟨hw, hp⟩⟩
    · rw [hd, hp]
      exact h.place u
    · rw [hd, hp]
      exact PlaceOk.woken (hw ▸ h.place u)
  have hself := hplace l hl
  -- The last statement of the call lets the thread go on behind it.
  by_cases hdone : l.pc t = .rest
  · rw [if_pos hdone] at hself hs'
    rw [← hs']
    refine ⟨hlock, ?_, h.channel.move rfl hflight hmine hafter rfl rfl rfl rfl rfl⟩
    intro u
    show PlaceOk (l.pc u) (l.depth u) (Function.update s.pc t after u)
    by_cases hu : u = t
    · rw [hu, Function.update_self]
      exact hself
    · rw [Function.update_of_ne hu]
      exact hothers u hu
  · rw [if_neg hdone] at hself hs'
    rw [← hs']
    refine ⟨hlock, ?_, ?_⟩
    · intro u
      by_cases hu : u = t
      · rw [hu]
        exact hself
      · exact hothers u hu
    · exact h.channel.move (Function.update_eq_self t s.pc).symm Iff.rfl hmine hmine rfl rfl rfl rfl
        rfl

theorem ideLocking_inv {s s' : IdeState T} (h : IdeInv s) {t : T} {j : IdeJob}
    (hpc : s.pc t = .locking j) (hwait : s.lock.pc t ≠ .waiting)
    (hstep : ideLock s t (.disk j) = .ok s') : IdeInv s' := by
  have hp := h.place t
  rw [hpc] at hp
  refine ideLock_inv h hp.1 hwait ?_ (fun j hc => by cases hc) ?_ ?_ hstep
  · intro j' hc
    rw [hpc] at hc
    cases hc
  · rw [hpc]
    exact Iff.rfl
  · intro l hl
    rcases lockStep_entering h.lock hp.2 hp.1 hwait hl with ⟨hr, hd⟩ | ⟨hr, hd⟩
    · rw [if_pos hr]
      exact ⟨hr, hd⟩
    · rw [if_neg hr, hpc]
      exact ⟨hr, hd⟩

theorem ideUnlocking_inv {s s' : IdeState T} (h : IdeInv s) {t : T} {j : IdeJob}
    (hpc : s.pc t = .unlocking j) (hstep : ideLock s t .rest = .ok s') : IdeInv s' := by
  have hp := h.place t
  rw [hpc] at hp
  have hlpc : s.lock.pc t ≠ .rest ∧ s.lock.pc t ≠ .waiting := by
    rcases hp.1 with hc | hc | hc | hc | hc | hc <;> rw [hc] <;> decide
  refine ideLock_inv h hlpc.1 hlpc.2 ?_ (fun j hc => by cases hc) ?_ ?_ hstep
  · intro j' hc
    rw [hpc] at hc
    cases hc
  · rw [hpc]
    exact Iff.rfl
  · intro l hl
    rcases lockStep_leaving h.lock hp.2 hp.1 hl with ⟨hr, hd⟩ | ⟨hr, hd⟩
    · rw [if_pos hr]
      exact ⟨hr, hd⟩
    · have hne : l.pc t ≠ .rest := by
        rcases hr with hc | hc | hc | hc | hc | hc <;> rw [hc] <;> decide
      rw [if_neg hne, hpc]
      exact ⟨hr, hd⟩

/-- The call of `lock_acquire` or of `lock_release`. -/
theorem ideEnter_inv {s : IdeState T} (h : IdeInv s) {t : T} {e : LockEvent T} {l : LockState T}
    {pc : IdePc} (he : lockEnabled s.lock e) (hlim : BelowLimit s.lock e)
    (hl : lockEventStep s.lock e = .ok l) {lpc : LockPc} (hlpc : l = s.lock.goto t lpc)
    (hplace : PlaceOk lpc (s.lock.depth t) pc) (hflight : ¬ InFlight pc)
    (hold : ¬ InFlight (s.pc t)) (hnew : ∀ j, pc ≠ .waiting j) :
    IdeInv ({ s with lock := l }.goto t pc) := by
  have hlock : LockInv l := by
    rcases lockEventStep_inv h.lock e he hlim with ⟨l', hl', hinv⟩
    rw [hl] at hl'
    cases hl'
    exact hinv
  have hmine : ∀ j, s.pc t ≠ .waiting j := by
    intro j hc
    rw [hc] at hold
    exact hold trivial
  refine ⟨hlock, ?_, h.channel.move rfl (iff_of_false hflight hold) hmine hnew rfl rfl rfl rfl rfl⟩
  intro u
  rw [hlpc]
  show PlaceOk (Function.update s.lock.pc t lpc u) (s.lock.depth u) (Function.update s.pc t pc u)
  by_cases hu : u = t
  · rw [hu, Function.update_self, Function.update_self]
    exact hplace
  · rw [Function.update_of_ne hu, Function.update_of_ne hu]
    exact h.place u

/-- `cmd_out` sets the flag: the caller has the lock and no command was
    outstanding. -/
theorem ideExpect_inv {s : IdeState T} (h : IdeInv s) {t : T} {j : IdeJob}
    (hpc : s.pc t = .expect j) :
    IdeInv ({ s with
      expectingIntr := true, cmds := s.cmds + 1, issuer := some t }.goto t (.command j)) := by
  have hp := h.place t
  rw [hpc] at hp
  have hq : Settled s := by
    rcases h.channel with ⟨u, ho⟩ | hq
    · -- A thread in flight would be past the lock as well.
      have hut := h.inside_unique (ho.inFlight.place (h.place u)).2 hp.2
      rw [hut] at ho
      have hf := ho.inFlight
      rw [hpc] at hf
      exact hf.elim
    · exact hq
  have hself : Function.update s.pc t (.command j) t = .command j := Function.update_self _ _ _
  refine ⟨h.lock, h.placeMove hp, Or.inl ⟨t, ?_, rfl, ?_, Or.inl ⟨rfl, hq.value⟩, Or.inl ⟨hq.waiters, ?_⟩⟩⟩
  · show InFlight (Function.update s.pc t (.command j) t)
    rw [hself]
    exact trivial
  · show s.cmds + 1 = s.downs + 1
    rw [hq.count]
  · intro j' hc
    have hc' : Function.update s.pc t (.command j) t = .waiting j' := hc
    rw [hself] at hc'
    cases hc'

/-- A thread in flight is the one whose command is outstanding. -/
theorem IdeInv.outstanding {s : IdeState T} (h : IdeInv s) {t : T} (hf : InFlight (s.pc t)) :
    Outstanding s t := by
  rcases h.channel with ⟨u, ho⟩ | hq
  · have hut := h.inside_unique (ho.inFlight.place (h.place u)).2 (hf.place (h.place t)).2
    rw [← hut]
    exact ho
  · exact absurd hf (hq.noFlight t)

/-- The caller of `sema_down` blocks: the interrupt is still expected. -/
theorem ideDown_blocks {s : IdeState T} (h : IdeInv s) {t : T} {j : IdeJob}
    (hpc : s.pc t = .down j) (hv : s.diskDone.value = 0) :
    ∃ s', ideDown s t j = .ok s' ∧ IdeInv s' := by
  have ho := h.outstanding (t := t) (by rw [hpc]; exact trivial)
  have hp := h.place t
  rw [hpc] at hp
  -- The one thread with an outstanding command is `t`, and it does not wait yet.
  have hw : s.diskDone.waiters = [] := by
    rcases ho.waiters with ⟨hw, _⟩ | ⟨_, j', hc⟩
    · exact hw
    · rw [hpc] at hc
      cases hc
  have hexp : s.expectingIntr = true := by
    rcases ho.answer with ⟨he, _⟩ | ⟨_, hone, _⟩
    · exact he
    · rw [hv] at hone
      cases hone
  have hnot : t ∉ s.diskDone.waiters := by
    rw [hw]
    exact List.not_mem_nil
  have hplace : PlaceOk (s.lock.pc t) (s.lock.depth t) (.waiting j) := hp
  have hself : Function.update s.pc t (.waiting j) t = .waiting j := Function.update_self _ _ _
  refine ⟨{ s with diskDone := { s.diskDone with waiters := s.diskDone.waiters ++ [t] } }.goto t
    (.waiting j), ?_, h.lock, h.placeMove hplace, Or.inl ⟨t, ?_, ho.issuer, ho.count,
      Or.inl ⟨hexp, hv⟩, Or.inr ⟨?_, j, hself⟩⟩⟩
  · simp only [ideDown, semaDownIter_taken hv hnot, ok_bind, if_true]
  · show InFlight (Function.update s.pc t (.waiting j) t)
    rw [hself]
    exact trivial
  · show s.diskDone.waiters ++ [t] = [t]
    rw [hw, List.nil_append]

/-- The caller of `sema_down` gets through: its command is answered. -/
theorem ideDown_passes {s : IdeState T} (h : IdeInv s) {t : T} {j : IdeJob}
    (hpc : s.pc t = .down j) (hv : s.diskDone.value = 1) :
    ∃ s', ideDown s t j = .ok s' ∧ IdeInv s' := by
  have hf : InFlight (s.pc t) := by
    rw [hpc]
    exact trivial
  have ho := h.outstanding hf
  have hp := h.place t
  rw [hpc] at hp
  have hexp : s.expectingIntr = false ∧ s.diskDone.waiters = [] := by
    rcases ho.answer with ⟨_, hz⟩ | ⟨he, _, hw⟩
    · rw [hv] at hz
      cases hz
    · exact ⟨he, hw⟩
  -- Whatever statement follows, it is outside the flight, and so is every other thread.
  have hdone : ∀ pc, ¬ InFlight pc → PlaceOk (s.lock.pc t) (s.lock.depth t) pc →
      IdeInv ({ s with
        diskDone := { s.diskDone with value := 0 }, downs := s.downs + 1 }.goto t pc) := by
    intro pc hnf hplace
    refine ⟨h.lock, h.placeMove hplace, Or.inr ⟨?_, ho.count, hexp.1, rfl, hexp.2⟩⟩
    intro u hc
    have hc' : InFlight (Function.update s.pc t pc u) := hc
    by_cases hu : u = t
    · rw [hu, Function.update_self] at hc'
      exact hnf hc'
    · rw [Function.update_of_ne hu] at hc'
      exact hu (h.inside_unique (hc'.place (h.place u)).2 hp.2)
  cases hop : j.op with
  | read =>
      refine ⟨_, ?_, hdone (.busyWait j) (fun hc => by rw [InFlight, hop] at hc; cases hc) hp⟩
      simp only [ideDown, semaDownIter_free hv, ok_bind, hop, Bool.false_eq_true, if_false]
  | write =>
      refine ⟨_, ?_, hdone (.advance j) (fun hc => hc) hp⟩
      simp only [ideDown, semaDownIter_free hv, ok_bind, hop, Bool.false_eq_true, if_false]

theorem ideDown_inv {s : IdeState T} (h : IdeInv s) {t : T} {j : IdeJob}
    (hpc : s.pc t = .down j) : ∃ s', ideDown s t j = .ok s' ∧ IdeInv s' := by
  have ho := h.outstanding (t := t) (by rw [hpc]; exact trivial)
  rcases ho.answer with ⟨_, hv⟩ | ⟨_, hv, _⟩
  · exact ideDown_blocks h hpc hv
  · exact ideDown_passes h hpc hv

/-- The interrupt: it finds the semaphore down whenever it is expected, and
    the thread it wakes is blocked. -/
theorem intrHdHandler_inv {s : IdeState T} (h : IdeInv s) :
    ∃ s', intrHdHandler s = .ok s' ∧ IdeInv s' := by
  by_cases hexp : s.expectingIntr = true
  · rcases h.channel with ⟨t, ho⟩ | hq
    · have hv : s.diskDone.value = 0 := by
        rcases ho.answer with ⟨_, hv⟩ | ⟨he, _⟩
        · exact hv
        · rw [hexp] at he
          cases he
      -- The issuer may not have come to `sema_down` yet; else it is the one that is woken.
      rcases ho.waiters with ⟨hw, hn⟩ | ⟨hw, j, hj⟩
      · refine ⟨{ s with expectingIntr := false, diskDone := { value := 1, waiters := [] } }, ?_,
          h.lock, h.place, Or.inl ⟨t, ho.inFlight, ho.issuer, ho.count, Or.inr ⟨rfl, rfl, rfl⟩,
            Or.inl ⟨rfl, hn⟩⟩⟩
        simp only [intrHdHandler, hexp, if_true, semaUp_taken hv, ok_bind, hw, List.tail_nil,
          List.head?_nil]
      · have hp := h.place t
        rw [hj] at hp
        have hplace : PlaceOk (s.lock.pc t) (s.lock.depth t) (.down j) := hp
        have hself : Function.update s.pc t (.down j) t = .down j := Function.update_self _ _ _
        refine ⟨{ s with expectingIntr := false, diskDone := { value := 1, waiters := [] } }.goto t
          (.down j), ?_, h.lock, h.placeMove hplace, Or.inl ⟨t, ?_, ho.issuer, ho.count,
            Or.inr ⟨rfl, rfl, rfl⟩, Or.inl ⟨rfl, ?_⟩⟩⟩
        · simp only [intrHdHandler, hexp, if_true, semaUp_taken hv, ok_bind, hw, List.tail_cons,
            List.head?_cons, hj]
        · show InFlight (Function.update s.pc t (.down j) t)
          rw [hself]
          exact trivial
        · intro j' hc
          have hc' : Function.update s.pc t (.down j) t = .waiting j' := hc
          rw [hself] at hc'
          cases hc'
    · rw [hq.quiet] at hexp
      cases hexp
  · refine ⟨s, ?_, h⟩
    simp only [intrHdHandler, hexp, Bool.false_eq_true, if_false]

/-- The next statement of a thread keeps the invariant. -/
theorem ideRun_inv {s s' : IdeState T} (h : IdeInv s) {t : T} {ready : Bool}
    (hwait : s.lock.pc t ≠ .waiting) (hstep : ideRun s t ready = .ok s') : IdeInv s' := by
  have hp := h.place t
  -- The statements that leave the channel alone differ in where they lead.
  have hquiet : ∀ {pc : IdePc} {regs : IdeRegs},
      PlaceOk (s.lock.pc t) (s.lock.depth t) pc → (InFlight pc ↔ InFlight (s.pc t)) →
      (∀ j, s.pc t ≠ .waiting j) → (∀ j, pc ≠ .waiting j) →
      IdeInv ({ s with regs := regs }.goto t pc) :=
    fun hpl hfl hold hnew => h.quietMove hpl hfl hold hnew
  cases hpc : s.pc t with
  | rest =>
      simp only [ideRun, hpc] at hstep
      cases hstep
      exact h
  | locking j =>
      simp only [ideRun, hpc] at hstep
      exact ideLocking_inv h hpc hwait hstep
  | disk j =>
      simp only [ideRun, hpc] at hstep
      rw [hpc] at hp hquiet
      cases hstep
      exact hquiet hp Iff.rfl (fun _ hc => by cases hc) (fun _ hc => by cases hc)
  | loop j =>
      simp only [ideRun, hpc] at hstep
      rw [hpc] at hp
      split at hstep
      · rw [hpc] at hquiet
        cases hstep
        exact hquiet hp Iff.rfl (fun _ hc => by cases hc) (fun _ hc => by cases hc)
      · rcases bind_eq_ok.mp hstep with ⟨l, hl, hs'⟩
        cases hs'
        cases hl
        have hd : 0 < s.lock.depth t := by
          rw [hp.2]
          exact Nat.one_pos
        exact ideEnter_inv h (e := .release t) ⟨hp.1, hd⟩ trivial rfl rfl ⟨Or.inl rfl, hp.2⟩
          (fun hc => hc) (by rw [hpc]; exact fun hc => hc) (fun _ hc => by cases hc)
  | sector j =>
      simp only [ideRun, hpc] at hstep
      rw [hpc] at hp hquiet
      rcases bind_eq_ok.mp hstep with ⟨regs, _, hs'⟩
      cases hs'
      exact hquiet hp Iff.rfl (fun _ hc => by cases hc) (fun _ hc => by cases hc)
  | expect j =>
      simp only [ideRun, hpc] at hstep
      cases hstep
      exact ideExpect_inv h hpc
  | command j =>
      simp only [ideRun, hpc] at hstep
      rw [hpc] at hp hquiet
      cases hop : j.op with
      | read =>
          rw [hop] at hstep
          cases hstep
          exact hquiet hp Iff.rfl (fun _ hc => by cases hc) (fun _ hc => by cases hc)
      | write =>
          rw [hop] at hstep
          cases hstep
          exact hquiet hp (iff_of_true hop trivial) (fun _ hc => by cases hc)
            (fun _ hc => by cases hc)
  | down j =>
      simp only [ideRun, hpc] at hstep
      rcases ideDown_inv h hpc with ⟨s₁, hs₁, hinv⟩
      rw [hstep] at hs₁
      cases hs₁
      exact hinv
  | waiting j =>
      simp only [ideRun, hpc] at hstep
      cases hstep
      exact h
  | busyWait j =>
      simp only [ideRun, hpc] at hstep
      rw [hpc] at hp hquiet
      rcases bind_eq_ok.mp hstep with ⟨_, _, hs'⟩
      cases hs'
      exact hquiet hp Iff.rfl (fun _ hc => by cases hc) (fun _ hc => by cases hc)
  | transfer j =>
      simp only [ideRun, hpc] at hstep
      rw [hpc] at hp hquiet
      cases hop : j.op with
      | read =>
          rw [hop] at hstep
          cases hstep
          refine hquiet hp (iff_of_false (fun hc => hc) ?_) (fun _ hc => by cases hc)
            (fun _ hc => by cases hc)
          intro hc
          rw [InFlight, hop] at hc
          cases hc
      | write =>
          rw [hop] at hstep
          cases hstep
          exact hquiet hp (iff_of_true trivial hop) (fun _ hc => by cases hc)
            (fun _ hc => by cases hc)
  | advance j =>
      simp only [ideRun, hpc] at hstep
      rw [hpc] at hp hquiet
      cases hstep
      exact hquiet hp Iff.rfl (fun _ hc => by cases hc) (fun _ hc => by cases hc)
  | unlocking j =>
      simp only [ideRun, hpc] at hstep
      exact ideUnlocking_inv h hpc hstep

theorem ideInit_inv {s : IdeState T} (h : ideInit s) : IdeInv s := by
  rcases h with ⟨hlock, hexp, hsema, hpc, hcmds, hdowns, _⟩
  refine ⟨?_, ?_, Or.inr ⟨?_, ?_, hexp, ?_, ?_⟩⟩
  · refine lock_reachable_inv _ (System.Reachable.init _ ?_)
    exact hlock
  · intro t
    rw [hlock, hpc t]
    exact ⟨rfl, rfl⟩
  · intro t
    rw [hpc t]
    exact fun hc => hc
  · rw [hcmds, hdowns]
  · rw [hsema]
    rfl
  · rw [hsema]
    rfl

theorem ideReachable_inv {s : IdeState T} (h : (ideSystem T).Reachable s) : IdeInv s := by
  refine System.invariant_of_step _ IdeInv (fun s hs => ideInit_inv hs) ?_ s h
  intro s e s' hinv he hstep
  cases e with
  | call t j =>
      rcases bind_eq_ok.mp hstep with ⟨_, _, hstep⟩
      rcases bind_eq_ok.mp hstep with ⟨_, _, hstep⟩
      rcases bind_eq_ok.mp hstep with ⟨l, hl, hs'⟩
      cases hs'
      cases hl
      have hrest : s.pc t = .rest := he
      have hp := hinv.place t
      rw [hrest] at hp
      have hlim : s.lock.depth t + 1 < 2 ^ 32 := by
        rw [hp.2]
        decide
      exact ideEnter_inv hinv (e := .acquire t) hp.1 hlim rfl rfl ⟨by decide, hp.2⟩ (fun hc => hc)
        (by rw [hrest]; exact fun hc => hc) (fun _ hc => by cases hc)
  | run t ready => exact ideRun_inv hinv he.2.2 hstep
  | intr =>
      rcases intrHdHandler_inv hinv with ⟨s₁, hs₁, hinv'⟩
      have hsame : Except.ok s₁ = Except.ok (ε := Func) s' := hs₁.symm.trans hstep
      cases hsame
      exact hinv'

/-- For any number of threads reading and writing the disks of a channel, and
    interrupts at any time: `disk_done` stays binary; no assertion fails in the
    interrupt handler; at most one command more has been given than waited
    for, and then the thread that gave it holds the channel's lock; a raised
    `disk_done` means that no interrupt is expected; and a thread that waits on
    `disk_done` is the one that gave the latest command. -/
theorem disk_completion (s : IdeState T) (h : (ideSystem T).Reachable s) :
    (s.diskDone.value = 0 ∨ s.diskDone.value = 1) ∧
    (∃ s', ideStep s .intr = .ok s') ∧
    (s.cmds = s.downs ∨ s.cmds = s.downs + 1) ∧
    (s.cmds = s.downs + 1 → ∃ t, s.issuer = some t ∧ s.lock.lock.holder = some t) ∧
    (s.diskDone.value = 1 → s.expectingIntr = false) ∧
    ∀ t j, s.pc t = .down j ∨ s.pc t = .waiting j → s.issuer = some t := by
  have hinv := ideReachable_inv h
  have hintr : ∃ s', ideStep s .intr = .ok s' := by
    rcases intrHdHandler_inv hinv with ⟨s', hs', _⟩
    exact ⟨s', hs'⟩
  have hlatest : ∀ t j, s.pc t = .down j ∨ s.pc t = .waiting j → s.issuer = some t := by
    rintro t j (hpc | hpc)
    · exact (hinv.outstanding (by rw [hpc]; exact trivial)).issuer
    · exact (hinv.outstanding (by rw [hpc]; exact trivial)).issuer
  -- There is one outstanding command, or the channel is quiet.
  rcases hinv.channel with ⟨t, ho⟩ | hq
  · have hplace := ho.inFlight.place (hinv.place t)
    refine ⟨?_, hintr, Or.inr ho.count, ?_, ?_, hlatest⟩
    · exact ho.answer.imp (fun hc => hc.2) (fun hc => hc.2.1)
    · exact fun _ => ⟨t, ho.issuer, hinv.inside_holder hplace.1 hplace.2⟩
    · intro hv
      rcases ho.answer with ⟨_, hz⟩ | ⟨he, _⟩
      · rw [hv] at hz
        cases hz
      · exact he
  · refine ⟨Or.inl hq.value, hintr, Or.inl hq.count, ?_, fun _ => hq.quiet, hlatest⟩
    intro hc
    have hcount := hq.count
    omega

/-- A channel with nobody using it, with threads numbered. -/
def freshIde : IdeState Nat where
  lock := { lock := lockInit, pc := fun _ => .rest, depth := fun _ => 0 }
  expectingIntr := false
  diskDone := semaInit 0
  regs := { sectCnt := 0, lbaL := 0, lbaM := 0, lbaH := 0, dev := 0, cmd := 0 }
  pc := fun _ => .rest
  cmds := 0
  downs := 0
  issuer := none

/-- A read of 300 sectors by thread 0 up to the wait for its first command,
    with a spurious interrupt on the way. -/
def firstWait : List (IdeEvent Nat) :=
  .call 0 { op := .read, devNo := 1, lba := 5, secCnt := 300, secsDone := 0, secsOp := 0 } ::
    .intr :: List.replicate 11 (.run 0 true)

/-- `disk_completion` with a reader waiting for the disk. -/
theorem disk_completion_first_wait :
    ∃ s, (ideSystem Nat).Reachable s ∧ s.diskDone.waiters = [0] ∧ s.cmds = s.downs + 1 ∧
      ∃ t, s.issuer = some t ∧ s.lock.lock.holder = some t := by
  have hruns : (ideSystem Nat).Runs freshIde firstWait := by
    decide +kernel
  have hreach := (ideSystem Nat).reachable_after firstWait
    (System.Reachable.init _ ⟨rfl, rfl, rfl, fun _ => rfl, rfl, rfl, rfl⟩) hruns
  have hcount : ((ideSystem Nat).after freshIde firstWait).cmds
      = ((ideSystem Nat).after freshIde firstWait).downs + 1 := by
    decide +kernel
  exact ⟨_, hreach, by decide +kernel, hcount, (disk_completion _ hreach).2.2.2.1 hcount⟩

end ForikOS
