import ForikOS.Theory.Console
import ForikOS.Theory.Lock

/-!
# Whole Strings on the Screen

However the threads are switched, the screen shows whole strings, one behind the
other, and of the string that is being put the part that has been put. It takes
the lock for that, and the lock is the one of `Theory/Lock`: a thread that puts
characters is the one that holds it, so it is the only one.

No step fails. No assertion of the lock does, and no character falls outside
the video memory.

## Main definitions

* `ConsolePlace`: Where a thread is in the two functions of the lock.
* `ConsoleText`: What the screen shows.
* `ConsoleInv`: The invariant.

## Theorems

* `putting_unique`: Only one thread puts characters.
* `consoleStep_inv`: Every event completes and keeps the invariant.
* `console_whole`: The screen, in any order of events.
-/

namespace ForikOS

variable {T : Type} [DecidableEq T]

/-- Where a thread is in the two functions of the lock. -/
def ConsolePlace (l : LockPc) (d : Nat) : ConsolePc → Prop
  | .rest => l = .rest ∧ d = 0
  | .acquiring _ => l ≠ .rest ∧ d = 0
  | .putting _ _ => l = .rest ∧ d = 1
  | .releasing _ => Releasing l ∧ d = 1

/-- The string a thread has been given has no backspace, and it has not put more
    of it than there is. -/
def StringOk : ConsolePc → Prop
  | .acquiring str => 0x08 ∉ str
  | .putting str n => 0x08 ∉ str ∧ n ≤ str.length
  | _ => True

/-- The strings that have been put, and what has been put of another one. -/
def ConsoleText (s : ConsoleState T) : Prop :=
  (∃ t str n, s.pc t = .putting str n ∧
    Shows s.con (typedText .empty (s.log.flatten ++ str.take n))) ∨
  (∀ t str n, s.pc t ≠ .putting str n) ∧ Shows s.con (typedText .empty s.log.flatten)

/-- The invariant. -/
structure ConsoleInv (s : ConsoleState T) : Prop where
  lock : LockInv s.lock
  place : ∀ t, ConsolePlace (s.lock.pc t) (s.lock.depth t) (s.pc t)
  strings : ∀ t, StringOk (s.pc t)
  text : ConsoleText s

/-- Only one thread puts characters. -/
theorem putting_unique {l : LockState T} (h : LockInv l) {t u : T} (ht : l.depth t = 1)
    (hu : l.depth u = 1) : t = u := by
  rcases away_or_owner h t with hta | ⟨_, _, _, hothers⟩
  · rw [hta.1] at ht
    cases ht
  · by_contra hne
    have hd := (hothers u (fun hc => hne hc.symm)).1
    rw [hd] at hu
    cases hu

/-- A thread woken inside `lock_acquire` is still on its way in. -/
theorem ConsolePlace.woken {d : Nat} {pc : ConsolePc} (h : ConsolePlace .waiting d pc) :
    ConsolePlace .down d pc := by
  cases pc with
  | acquiring str => exact ⟨by decide, h.2⟩
  | releasing str =>
      rcases h.1 with hc | hc | hc | hc | hc | hc <;> cases hc
  | rest => exact absurd h.1 (by decide)
  | putting str n => exact absurd h.1 (by decide)

@[simp]
theorem ConsoleState.goto_self (s : ConsoleState T) (t : T) (pc : ConsolePc) :
    (s.goto t pc).pc t = pc :=
  Function.update_self ..

@[simp]
theorem ConsoleState.goto_of_ne (s : ConsoleState T) {t u : T} {pc : ConsolePc} (h : u ≠ t) :
    (s.goto t pc).pc u = s.pc u :=
  Function.update_of_ne h ..

namespace ConsoleInv

variable {s : ConsoleState T} {t : T}

/-- An event of the lock completes, and the other threads keep their places. -/
theorem lockStep (h : ConsoleInv s) {e : LockEvent T} (he : lockEnabled s.lock e)
    (hlim : BelowLimit s.lock e) (hmine : e = .acquire t ∨ e = .release t ∨ e = .run t) :
    ∃ l, lockEventStep s.lock e = .ok l ∧ LockInv l ∧
      ∀ u, u ≠ t → ConsolePlace (l.pc u) (l.depth u) (s.pc u) := by
  rcases lockEventStep_inv h.lock e he hlim with ⟨l, hl, hinv⟩
  refine ⟨l, hl, hinv, fun u hu => ?_⟩
  rcases hmine with rfl | rfl | rfl
  · cases hl
    have hpc : (s.lock.goto t .testHolder).pc u = s.lock.pc u := Function.update_of_ne hu ..
    rw [hpc]
    exact h.place u
  · cases hl
    have hpc : (s.lock.goto t .checkHolder).pc u = s.lock.pc u := Function.update_of_ne hu ..
    rw [hpc]
    exact h.place u
  · have hw : WaitersOk s.lock := by
      cases h.lock with
      | free hw _ _ _ _ => exact hw
      | held _ hw _ _ _ => exact hw
    rcases lockStep_others hw hl hu with ⟨hd, hp | ⟨hwait, hp⟩⟩
    · rw [hd, hp]
      exact h.place u
    · rw [hd, hp]
      exact ConsolePlace.woken (hwait ▸ h.place u)

/-- A thread moves to another place: apart from the screen, only the lock and
    its own place are to be looked at. -/
theorem moved (h : ConsoleInv s) (s' : ConsoleState T) {pc : ConsolePc} (hpc : s'.pc = s.pc)
    (hinv : LockInv s'.lock)
    (hothers : ∀ u, u ≠ t → ConsolePlace (s'.lock.pc u) (s'.lock.depth u) (s.pc u))
    (hself : ConsolePlace (s'.lock.pc t) (s'.lock.depth t) pc) (hok : StringOk pc)
    (htext : ConsoleText (s'.goto t pc)) : ConsoleInv (s'.goto t pc) := by
  refine ⟨hinv, fun u => ?_, fun u => ?_, htext⟩
  · by_cases hu : u = t
    · rw [hu, s'.goto_self]
      exact hself
    · rw [s'.goto_of_ne hu, hpc]
      exact hothers u hu
  · by_cases hu : u = t
    · rw [hu, s'.goto_self]
      exact hok
    · rw [s'.goto_of_ne hu, hpc]
      exact h.strings u

/-- A thread that moves between two places where it puts nothing. -/
theorem quiet (h : ConsoleInv s) {l : LockState T} {pc : ConsolePc} (hinv : LockInv l)
    (hothers : ∀ u, u ≠ t → ConsolePlace (l.pc u) (l.depth u) (s.pc u))
    (hself : ConsolePlace (l.pc t) (l.depth t) pc) (hok : StringOk pc)
    (hold : ∀ str n, s.pc t ≠ .putting str n) (hnew : ∀ str n, pc ≠ .putting str n) :
    ConsoleInv ({ s with lock := l }.goto t pc) := by
  refine h.moved { s with lock := l } rfl hinv hothers hself hok ?_
  rcases h.text with ⟨u, str, n, hu, hshow⟩ | ⟨hnone, hshow⟩
  · have hne : u ≠ t := fun heq => hold str n (heq ▸ hu)
    exact Or.inl ⟨u, str, n, (ConsoleState.goto_of_ne _ hne).trans hu, hshow⟩
  · refine Or.inr ⟨fun u str n hu => ?_, hshow⟩
    by_cases hut : u = t
    · rw [hut, ConsoleState.goto_self] at hu
      exact hnew str n hu
    · rw [ConsoleState.goto_of_ne _ hut] at hu
      exact hnone u str n hu

/-- What the screen shows while a thread puts characters. -/
theorem shown (h : ConsoleInv s) {str : Str} {n : Nat} (hpc : s.pc t = .putting str n) :
    Shows s.con (typedText .empty (s.log.flatten ++ str.take n)) := by
  rcases h.text with ⟨u, str', n', hu, hshow⟩ | ⟨hnone, _⟩
  · have hpt := h.place t
    have hpu := h.place u
    rw [hpc] at hpt
    rw [hu] at hpu
    obtain rfl : u = t := putting_unique h.lock hpu.2 hpt.2
    rw [hpc] at hu
    cases hu
    exact hshow
  · exact absurd hpc (hnone t str n)

/-- A thread gets the lock. -/
theorem enter (h : ConsoleInv s) {l : LockState T} {str : Str}
    (hpc : s.pc t = .acquiring str) (hinv : LockInv l)
    (hothers : ∀ u, u ≠ t → ConsolePlace (l.pc u) (l.depth u) (s.pc u))
    (hself : ConsolePlace (l.pc t) (l.depth t) (.putting str 0)) (hstr : 0x08 ∉ str) :
    ConsoleInv ({ s with lock := l }.goto t (.putting str 0)) := by
  refine h.moved { s with lock := l } rfl hinv hothers hself ⟨hstr, Nat.zero_le _⟩
    (Or.inl ⟨t, str, 0, ConsoleState.goto_self .., ?_⟩)
  rw [List.take_zero, List.append_nil]
  rcases h.text with ⟨u, str', n', hu, _⟩ | ⟨_, hshow⟩
  · -- Another thread would be past the lock as well.
    have hne : u ≠ t := by
      rintro rfl
      rw [hpc] at hu
      cases hu
    have hpu := hothers u hne
    rw [hu] at hpu
    exact absurd (putting_unique hinv hpu.2 hself.2) hne
  · exact hshow

/-- Another character. -/
theorem putsChar (h : ConsoleInv s) {str : Str} {n : Nat} {cl : Byte} {con : Console}
    (hpc : s.pc t = .putting str n) (hget : str[n]? = some cl)
    (hshow : Shows con (typedChar (typedText .empty (s.log.flatten ++ str.take n)) cl)) :
    ConsoleInv ({ s with con := con }.goto t (.putting str (n + 1))) := by
  have hp := h.place t
  have hs := h.strings t
  rw [hpc] at hp hs
  have hlt : n < str.length := (List.getElem?_eq_some_iff.mp hget).1
  refine h.moved { s with con := con } rfl h.lock (fun u _ => h.place u) hp ⟨hs.1, hlt⟩
    (Or.inl ⟨t, str, n + 1, ConsoleState.goto_self .., ?_⟩)
  have htake : str.take (n + 1) = str.take n ++ [cl] := by
    rw [List.take_add_one, hget]
    rfl
  rw [htake, ← List.append_assoc, typedText, List.foldl_append]
  exact hshow

/-- The end of the string. -/
theorem finish (h : ConsoleInv s) {l : LockState T} {str : Str} {n : Nat}
    (hpc : s.pc t = .putting str n) (hget : str[n]? = none) (hinv : LockInv l)
    (hothers : ∀ u, u ≠ t → ConsolePlace (l.pc u) (l.depth u) (s.pc u))
    (hself : ConsolePlace (l.pc t) (l.depth t) (.releasing str)) :
    ConsoleInv ({ s with lock := l, log := s.log ++ [str] }.goto t (.releasing str)) := by
  have hshow := h.shown hpc
  refine h.moved { s with lock := l, log := s.log ++ [str] } rfl hinv hothers hself trivial
    (Or.inr ⟨fun u str' n' hu => ?_, ?_⟩)
  · by_cases hut : u = t
    · rw [hut, ConsoleState.goto_self] at hu
      cases hu
    · -- Two threads would have been past the lock.
      rw [ConsoleState.goto_of_ne _ hut] at hu
      have hpu := h.place u
      have hpt := h.place t
      rw [hu] at hpu
      rw [hpc] at hpt
      exact hut (putting_unique h.lock hpu.2 hpt.2)
  · have hall : str.take n = str :=
      List.take_of_length_le (List.getElem?_eq_none_iff.mp hget)
    have hlog : (s.log ++ [str]).flatten = s.log.flatten ++ str := by
      rw [List.flatten_append, List.flatten_singleton]
    rw [hall] at hshow
    show Shows s.con (typedText .empty (s.log ++ [str]).flatten)
    rw [hlog]
    exact hshow

end ConsoleInv

/-- Every event completes and keeps the invariant. -/
theorem consoleStep_inv {s : ConsoleState T} (h : ConsoleInv s) (e : ConsoleEvent T)
    (he : consoleEnabled s e) : ∃ s', consoleStep s e = .ok s' ∧ ConsoleInv s' := by
  -- The cases are those of `consoleStep`: where the thread is decides what it does.
  cases e with
  | call t str =>
      -- The thread does not have the lock, so one more acquisition is below the limit.
      rcases he with ⟨hrest, hstr⟩
      have hpc : s.pc t = .rest := by
        cases hp : s.pc t with
        | rest => rfl
        | _ => rw [hp] at hrest; cases hrest
      have hp := h.place t
      rw [hpc] at hp
      have hlim : BelowLimit s.lock (.acquire t) := by
        show s.lock.depth t + 1 < 2 ^ 32
        rw [hp.2]
        decide
      rcases h.lockStep (t := t) (e := .acquire t) hp.1 hlim (Or.inl rfl) with ⟨l, hl, hinv, hothers⟩
      refine ⟨{ s with lock := l }.goto t (.acquiring str), ?_, ?_⟩
      · rw [consoleStep, ConsoleState.lockStep, hl]
        rfl
      · cases hl
        refine h.quiet hinv hothers ⟨?_, hp.2⟩ hstr ?_ (fun _ _ hc => by cases hc)
        · show Function.update s.lock.pc t .testHolder t ≠ .rest
          rw [Function.update_self]
          decide
        · intro str' n hc
          rw [hpc] at hc
          cases hc
  | run t =>
      rcases he with ⟨hrest, hwait⟩
      have hp := h.place t
      have hs := h.strings t
      cases hpc : s.pc t with
      | rest =>
          rw [hpc] at hrest
          exact absurd rfl hrest
      | acquiring str =>
          rw [hpc] at hp hs
          rcases h.lockStep (t := t) (e := .run t) ⟨hp.1, hwait⟩ trivial (Or.inr (Or.inr rfl))
            with ⟨l, hl, hinv, hothers⟩
          have hstep : consoleStep s (.run t) = .ok (if l.pc t = .rest then
              { s with lock := l }.goto t (.putting str 0) else { s with lock := l }) := by
            rw [consoleStep, hpc]
            dsimp only
            rw [ConsoleState.lockStep, hl]
            rfl
          refine ⟨_, hstep, ?_⟩
          -- It has the lock once it is back from `lock_acquire`.
          rcases lockStep_entering h.lock hp.2 hp.1 hwait hl with ⟨hr, hd⟩ | ⟨hr, hd⟩
          · rw [if_pos hr]
            exact h.enter hpc hinv hothers ⟨hr, hd⟩ hs
          · rw [if_neg hr]
            -- A thread that is still waiting moves to the place where it is.
            have hsame : { s with lock := l } = { s with lock := l }.goto t (.acquiring str) := by
              rw [ConsoleState.goto, ← hpc, Function.update_eq_self]
            rw [hsame]
            refine h.quiet hinv hothers ⟨hr, hd⟩ hs ?_ (fun _ _ hc => by cases hc)
            intro str' n hc
            rw [hpc] at hc
            cases hc
      | putting str n =>
          rw [hpc] at hp hs
          -- The string goes on, or it has ended and the lock is released.
          cases hget : str[n]? with
          | some cl =>
              have hcl : cl ≠ 0x08 := fun hc => hs.1 (hc ▸ List.mem_of_getElem? hget)
              have hbs : cl = 0x08 → (typedText .empty (s.log.flatten ++ str.take n)).cur ≠ [] :=
                fun hc => absurd hc hcl
              rcases putChar_shows (h.shown hpc) hbs with ⟨con, hput, hshow⟩
              have hstep : consoleStep s (.run t) =
                  .ok ({ s with con := con }.goto t (.putting str (n + 1))) := by
                rw [consoleStep, hpc]
                dsimp only
                rw [hget]
                dsimp only
                rw [hput]
              exact ⟨_, hstep, h.putsChar hpc hget hshow⟩
          | none =>
              rcases h.lockStep (t := t) (e := .release t) ⟨hp.1, hp.2 ▸ Nat.one_pos⟩ trivial
                (Or.inr (Or.inl rfl)) with ⟨l, hl, hinv, hothers⟩
              have hstep : consoleStep s (.run t) =
                  .ok ({ s with lock := l, log := s.log ++ [str] }.goto t (.releasing str)) := by
                rw [consoleStep, hpc]
                dsimp only
                rw [hget]
                dsimp only
                rw [ConsoleState.lockStep, hl]
                rfl
              refine ⟨_, hstep, h.finish hpc hget hinv hothers ⟨?_, ?_⟩⟩
              · cases hl
                exact Or.inl (Function.update_self ..)
              · cases hl
                exact hp.2
      | releasing str =>
          rw [hpc] at hp hs
          have hne : s.lock.pc t ≠ .rest := by
            rcases hp.1 with hc | hc | hc | hc | hc | hc <;> rw [hc] <;> decide
          rcases h.lockStep (t := t) (e := .run t) ⟨hne, hwait⟩ trivial (Or.inr (Or.inr rfl))
            with ⟨l, hl, hinv, hothers⟩
          have hstep : consoleStep s (.run t) = .ok (if l.pc t = .rest then
              { s with lock := l }.goto t .rest else { s with lock := l }) := by
            rw [consoleStep, hpc]
            dsimp only
            rw [ConsoleState.lockStep, hl]
            rfl
          have hold : ∀ str' n, s.pc t ≠ .putting str' n := by
            intro str' n hc
            rw [hpc] at hc
            cases hc
          refine ⟨_, hstep, ?_⟩
          -- As long as it is inside `lock_release` it stays where it is.
          rcases lockStep_leaving h.lock hp.2 hp.1 hl with ⟨hr, hd⟩ | ⟨hr, hd⟩
          · rw [if_pos hr]
            exact h.quiet hinv hothers ⟨hr, hd⟩ trivial hold (fun _ _ hc => by cases hc)
          · have hr' : l.pc t ≠ .rest := by
              rcases hr with hc | hc | hc | hc | hc | hc <;> rw [hc] <;> decide
            have hsame : { s with lock := l } = { s with lock := l }.goto t (.releasing str) := by
              rw [ConsoleState.goto, ← hpc, Function.update_eq_self]
            rw [if_neg hr', hsame]
            exact h.quiet hinv hothers ⟨hr, hd⟩ hs hold (fun _ _ hc => by cases hc)

theorem consoleInv_reachable {s : ConsoleState T} (h : (consoleSystem T).Reachable s) :
    ConsoleInv s := by
  refine System.invariant_of_step _ ConsoleInv ?_ ?_ s h
  · rintro s ⟨hlock, ⟨c, hcon⟩, hpc, hlog⟩
    refine ⟨?_, fun t => ?_, fun t => ?_, Or.inr ⟨fun t str n hc => ?_, ?_⟩⟩
    · rw [hlock]
      refine LockInv.free ⟨List.nodup_nil, fun t => ?_⟩ rfl rfl rfl (fun t => ⟨rfl, Or.inl rfl⟩)
      simp only [lockInit, semaInit, List.not_mem_nil, reduceCtorEq]
    · rw [hpc t, hlock]
      exact ⟨rfl, rfl⟩
    · rw [hpc t]
      exact trivial
    · rw [hpc t] at hc
      cases hc
    · rw [hlog, hcon]
      exact clsScreen_shows c
  · intro s e s' hinv he hs
    rcases consoleStep_inv hinv e he with ⟨s₁, hs₁, hinv₁⟩
    have heq : Except.ok s₁ = Except.ok s' := hs₁.symm.trans hs
    cases heq
    exact hinv₁

/-- The screen, in any order of events: whole strings, and of the one that the
    holder of the lock is putting, what it has put. No event fails. -/
theorem console_whole {s : ConsoleState T} (h : (consoleSystem T).Reachable s) :
    ((∃ t str n, s.pc t = .putting str n ∧ s.lock.lock.holder = some t ∧
        Shows s.con (typedText .empty (s.log.flatten ++ str.take n))) ∨
      (∀ t str n, s.pc t ≠ .putting str n) ∧ Shows s.con (typedText .empty s.log.flatten)) ∧
    ∀ e, consoleEnabled s e → ∃ s', consoleStep s e = .ok s' := by
  have hinv := consoleInv_reachable h
  refine ⟨?_, fun e he => ?_⟩
  · rcases hinv.text with ⟨t, str, n, hpc, hshow⟩ | hquiet
    · refine Or.inl ⟨t, str, n, hpc, ?_, hshow⟩
      have hp := hinv.place t
      rw [hpc] at hp
      rcases away_or_owner hinv.lock t with hta | ⟨_, _, hown, _⟩
      · have hd := hta.1
        rw [hp.2] at hd
        cases hd
      · rw [hp.1] at hown
        exact hown.2.1
    · exact Or.inr hquiet
  · rcases consoleStep_inv hinv e he with ⟨s', hs', _⟩
    exact ⟨s', hs'⟩

/-- Two threads in front of a clear screen. -/
def clearConsole : ConsoleState Bool where
  lock := { lock := lockInit, pc := fun _ => .rest, depth := fun _ => 0 }
  con := clsScreen ⟨fun _ => 0, 0⟩
  pc := fun _ => .rest
  log := []

/-- One thread gets the lock and puts the first of two characters; the other one
    has been called meanwhile, and waits for the lock. -/
def twoStrings : List (ConsoleEvent Bool) :=
  [.call true [0x61, 0x62], .run true, .call false [0x63], .run true, .run true, .run true,
    .run true, .run false, .run true, .run false]

/-- The screen shows the one character. -/
theorem console_whole_interleaved :
    let s := (consoleSystem Bool).after clearConsole twoStrings
    s.pc true = .putting [0x61, 0x62] 1 ∧ s.pc false = .acquiring [0x63] ∧
      s.lock.pc false = .waiting ∧ Shows s.con (typedText .empty [0x61]) ∧
      ∃ s', consoleStep s (.run true) = .ok s' := by
  intro s
  have hreach : (consoleSystem Bool).Reachable s :=
    (consoleSystem Bool).reachable_after _ (.init _ ⟨rfl, ⟨_, rfl⟩, fun _ => rfl, rfl⟩)
      ⟨⟨rfl, by decide⟩, rfl, ⟨by decide, by decide⟩, rfl, ⟨rfl, by decide⟩, rfl,
        ⟨by decide, by decide⟩, rfl, ⟨by decide, by decide⟩, rfl, ⟨by decide, by decide⟩, rfl,
        ⟨by decide, by decide⟩, rfl, ⟨by decide, by decide⟩, rfl, ⟨by decide, by decide⟩, rfl,
        ⟨by decide, by decide⟩, rfl, trivial⟩
  have htrue : s.pc true = .putting [0x61, 0x62] 1 := rfl
  have hfalse : s.pc false = .acquiring [0x63] := rfl
  refine ⟨htrue, hfalse, rfl, ?_, ?_⟩
  · rcases (console_whole hreach).1 with ⟨t, str, n, hpc, -, hshow⟩ | ⟨hnone, -⟩
    · cases t with
      | false =>
          rw [hfalse] at hpc
          cases hpc
      | true =>
          rw [htrue] at hpc
          cases hpc
          exact hshow
    · exact absurd htrue (hnone true _ _)
  · exact (console_whole hreach).2 _ ⟨by rw [htrue]; decide, by decide⟩

end ForikOS
