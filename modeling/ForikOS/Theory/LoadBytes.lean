import ForikOS.Theory.Exec
import ForikOS.Theory.UserBytes

/-!
# The Bytes of a Process That Is Loaded

What each step of `load` does to the bytes of the process.

Of the pages of the process, some are arenas of its heap. What is in them is
the business of the allocator: they come and go as the file system takes its
buffers, and the buffers are written. No other page is touched by that. A page
that becomes an arena was not mapped before, and one that is given back is not
mapped afterwards.

So outside the arenas the process has a byte at an address if it had the byte
before, or if `get_a_page` has mapped the page and the frame held the byte. Only
what `sys_read` copies is something else. Which frame that is, and what the
buffers have left in it, makes no difference to this.

## Main definitions

* `byteOwn`: The byte at an address outside the arenas.
* `HeldIn`: The byte was in a frame that has been mapped.
* `ArenasMapped`: The arenas are pages of the process.
* `usedHeaders`: The program headers in a log.
* `Since`: What has been done to the bytes between two states.

## Theorems

* `bufferStep_since`, `buffers_since`, `onFs_ok`: The buffers of a call.
* `getAPage_since`, `mapPages_since`: The pages of a segment.
-/

namespace ForikOS

open Prog Exec

/-- The byte at an address, if its page is mapped and not an arena. -/
def byteOwn (s : Exec) (x : Nat) : Option Byte :=
  if x / 4096 ∈ s.arenas then none else byteIn s.kernel.mem x

/-- The page of an address has been mapped, and its frame held the byte. -/
def HeldIn (log : List LoadEvent) (x : Nat) (c : Byte) : Prop :=
  ∃ v held, .mapped v held ∈ log ∧ v.toNat / 4096 = x / 4096 ∧
    byteOfWord (held (x % 4096 / 4)) x = c

/-- The arenas are pages of the process. -/
def ArenasMapped (s : Exec) : Prop :=
  ∀ q, q ∈ s.arenas → userPage₀ ≤ q ∧ q < 0xc0000 ∧
    (frameAt s.kernel.mem s.kernel.mem.cr3 q).isSome = true

/-- The program header that has been found. -/
def headerIn : LoadEvent → Option Elf32Phdr
  | .header ph => some ph
  | _ => none

/-- The program headers in a log, in the order in which they were found. -/
def usedHeaders (log : List LoadEvent) : List Elf32Phdr := (log.filterMap headerIn).reverse

/-- Neither a program header nor a page of a segment. -/
def Aside : LoadEvent → Prop
  | .header _ | .mapped _ _ => False
  | _ => True

/-- The pages of the process and its arenas are in order, the program headers `hs`
    have been found, and at all addresses but those in `T` the bytes outside the
    arenas are those that were there or have come with a page. -/
structure Since (a b : Nat) (T : Nat → Prop) (hs : List Elf32Phdr) (s s' : Exec) : Prop where
  own : OwnPages s'.kernel.mem a b
  arenas : ArenasMapped s'
  cur : s'.kernel.cur = s.kernel.cur
  log : ∃ new, s'.log = new ++ s.log ∧ usedHeaders new = hs ∧
    ∀ x c, x < 0xc0000000 → ¬ T x →
      (byteOwn s' x = some c ↔ byteOwn s x = some c ∨ HeldIn new x c)

/-- Nothing is written. -/
def Nowhere (_ : Nat) : Prop := False

section Log

variable {log log' : List LoadEvent} {x : Nat} {c : Byte}

theorem usedHeaders_append (log log' : List LoadEvent) :
    usedHeaders (log ++ log') = usedHeaders log' ++ usedHeaders log := by
  rw [usedHeaders, List.filterMap_append, List.reverse_append, usedHeaders, usedHeaders]

theorem heldIn_append : HeldIn (log ++ log') x c ↔ HeldIn log x c ∨ HeldIn log' x c := by
  constructor
  · rintro ⟨v, held, hmem, hx⟩
    rcases List.mem_append.mp hmem with hmem | hmem
    · exact Or.inl ⟨v, held, hmem, hx⟩
    · exact Or.inr ⟨v, held, hmem, hx⟩
  · rintro (⟨v, held, hmem, hx⟩ | ⟨v, held, hmem, hx⟩)
    · exact ⟨v, held, List.mem_append_left _ hmem, hx⟩
    · exact ⟨v, held, List.mem_append_right _ hmem, hx⟩

theorem usedHeaders_aside (h : ∀ e, e ∈ log → Aside e) : usedHeaders log = [] := by
  rw [usedHeaders, List.reverse_eq_nil_iff, List.filterMap_eq_nil_iff]
  intro e he
  cases e with
  | header ph => exact (h _ he).elim
  | setBit _ | mapped _ _ | arena _ | copied _ _ | overHeap | lost => rfl

theorem not_heldIn_aside (h : ∀ e, e ∈ log → Aside e) : ¬ HeldIn log x c := by
  rintro ⟨v, held, hmem, -⟩
  exact h _ hmem

theorem aside_nil : ∀ e, e ∈ ([] : List LoadEvent) → Aside e :=
  fun _ he => absurd he List.not_mem_nil

theorem aside_one {e : LoadEvent} (h : Aside e) : ∀ e', e' ∈ [e] → Aside e' := by
  intro e' he'
  rw [List.mem_singleton.mp he']
  exact h

end Log

namespace Since

variable {a b : Nat} {T T' : Nat → Prop} {hs hs' : List Elf32Phdr} {s s₁ s' : Exec} {x : Nat}
  {c : Byte}

/-- A change that is logged as nothing that matters. -/
theorem aside (new : List LoadEvent) (hown : OwnPages s'.kernel.mem a b) (harenas : ArenasMapped s')
    (hcur : s'.kernel.cur = s.kernel.cur) (hlog : s'.log = new ++ s.log)
    (hnew : ∀ e, e ∈ new → Aside e)
    (hbyte : ∀ x, x < 0xc0000000 → ¬ T x → byteOwn s' x = byteOwn s x) :
    Since a b T [] s s' := by
  refine ⟨hown, harenas, hcur, new, hlog, usedHeaders_aside hnew, fun x c hx hT => ?_⟩
  rw [hbyte x hx hT]
  exact ⟨Or.inl, fun h => h.resolve_right (not_heldIn_aside hnew)⟩

theorem refl (hown : OwnPages s.kernel.mem a b) (harenas : ArenasMapped s) :
    Since a b T [] s s :=
  .aside [] hown harenas rfl rfl aside_nil (fun _ _ _ => rfl)

theorem trans (h : Since a b T hs s s₁) (h' : Since a b T hs' s₁ s') :
    Since a b T (hs ++ hs') s s' := by
  rcases h.log with ⟨new, hlog, hused, hbyte⟩
  rcases h'.log with ⟨new', hlog', hused', hbyte'⟩
  refine ⟨h'.own, h'.arenas, h'.cur.trans h.cur, new' ++ new, ?_, ?_, fun x c hx hT => ?_⟩
  · rw [hlog', hlog, List.append_assoc]
  · rw [usedHeaders_append, hused, hused']
  · rw [hbyte' x c hx hT, hbyte x c hx hT, heldIn_append, or_assoc, or_comm (a := HeldIn new x c)]

theorem mono (h : Since a b T hs s s') (hT : ∀ x, T x → T' x) : Since a b T' hs s s' := by
  rcases h.log with ⟨new, hlog, hused, hbyte⟩
  exact ⟨h.own, h.arenas, h.cur, new, hlog, hused, fun x c hx hT' =>
    hbyte x c hx (fun hx => hT' (hT x hx))⟩

/-- Nothing is written in between. -/
theorem ofNowhere (h : Since a b Nowhere hs s s') : Since a b T hs s s' :=
  h.mono (fun _ hx => hx.elim)

/-- A byte that is not written is kept. -/
theorem kept (h : Since a b T hs s s') (hx : x < 0xc0000000) (hT : ¬ T x)
    (hc : byteOwn s x = some c) : byteOwn s' x = some c := by
  rcases h.log with ⟨new, -, -, hbyte⟩
  exact (hbyte x c hx hT).mpr (Or.inl hc)

/-- What has been logged before is still in the log. -/
theorem spared (h : Since a b T hs s s') (hspared : ArenasSpared s'.log) : ArenasSpared s.log := by
  rcases h.log with ⟨new, hlog, -⟩
  intro e he
  refine hspared e ?_
  rw [hlog]
  exact List.mem_append_right new he

end Since

section Runs

variable {α : Type} {s s' : Exec} {x : α}

theorem onMem_ok {f : Machine → Except Func (Machine × α)} (h : (onMem f).run s = .ok (x, s')) :
    ∃ m, f s.kernel.mem = .ok (m, x) ∧ s' = s.setMem m := by
  rcases run_bind_ok.mp h with ⟨m, s₁, h₁, k₁⟩
  rcases read_ok h₁ with ⟨rfl, rfl⟩
  cases hf : f s₁.kernel.mem with
  | error e =>
      rw [hf] at k₁
      cases k₁
  | ok r =>
      rw [hf] at k₁
      rcases run_bind_ok.mp k₁ with ⟨_, s₂, h₂, k₂⟩
      rcases pure_ok k₂ with ⟨rfl, rfl⟩
      exact ⟨r.1, rfl, modify_ok h₂⟩

theorem map_ok {y : Except Func Machine} {m : Machine} {u : Unit}
    (h : y.map (·, ()) = .ok (m, u)) : y = .ok m := by
  cases y with
  | error e => cases h
  | ok m' =>
      cases h
      rfl

end Runs

section Own

variable {s s' : Exec} {m m' : Machine} {a b x : Nat} {T : Nat → Prop}

/-- The byte at an address whose page stays where it is. -/
theorem KeepsBytes.byteIn_eq (h : KeepsBytes m m' a b T) (hx : x < 0xc0000000) (hT : ¬ T x)
    (hpage : frameAt m' m'.cr3 (x / 4096) = frameAt m m.cr3 (x / 4096)) :
    ForikOS.byteIn m' x = ForikOS.byteIn m x := by
  rw [ForikOS.byteIn, ForikOS.byteIn, hpage]
  cases hw : frameAt m m.cr3 (x / 4096) with
  | none => rfl
  | some w => rw [Option.map_some, Option.map_some, h.at_page hx hT (hpage.trans hw)]

theorem byteOwn_of_mem (h : x / 4096 ∈ s.arenas) : byteOwn s x = none := if_pos h

theorem byteOwn_of_not_mem (h : x / 4096 ∉ s.arenas) : byteOwn s x = byteIn s.kernel.mem x :=
  if_neg h

/-- A page that is not mapped has no bytes. -/
theorem byteOwn_of_absent (h : frameAt s.kernel.mem s.kernel.mem.cr3 (x / 4096) = none) :
    byteOwn s x = none := by
  rw [byteOwn, byteIn, h, Option.map_none, ite_self]

/-- The byte outside the arenas is a byte of the process. -/
theorem byteIn_of_byteOwn {c : Byte} (h : byteOwn s x = some c) :
    byteIn s.kernel.mem x = some c := by
  by_cases hx : x / 4096 ∈ s.arenas
  · rw [byteOwn_of_mem hx] at h
    cases h
  · rw [byteOwn_of_not_mem hx] at h
    exact h

/-- The same pages are arenas, and they are still mapped. -/
theorem ArenasMapped.same (h : ArenasMapped s) (harenas : s'.arenas = s.arenas)
    (hsame : SamePages s.kernel.mem s'.kernel.mem) : ArenasMapped s' := by
  intro q hq
  rw [harenas] at hq
  rcases h q hq with ⟨hlow, hhigh, hsome⟩
  exact ⟨hlow, hhigh, by rw [hsame q hhigh]; exact hsome⟩

/-- Bytes are written in pages that stay. -/
theorem Since.written (new : List LoadEvent) (harenas : ArenasMapped s)
    (hkeep : KeepsBytes s.kernel.mem s'.kernel.mem a b T)
    (hsame : SamePages s.kernel.mem s'.kernel.mem) (hsa : s'.arenas = s.arenas)
    (hcur : s'.kernel.cur = s.kernel.cur) (hlog : s'.log = new ++ s.log)
    (hnew : ∀ e, e ∈ new → Aside e) : Since a b T [] s s' := by
  refine .aside new hkeep.own (harenas.same hsa hsame) hcur hlog hnew (fun x hx hT => ?_)
  rw [byteOwn, hsa, hkeep.byteIn_eq hx hT (hsame _ (by omega)), byteOwn]

end Own

section Buffers

variable {α : Type} {s s' : Exec} {a b : Nat}

/-- A page becomes an arena. It had no bytes. -/
theorem Since.take {m : Machine} {v : Word} (hown : OwnPages s.kernel.mem a b)
    (harenas : ArenasMapped s) (hrun : mallocPage s.kernel.mem .user 1 = .ok (m, v)) :
    Since a b Nowhere [] s
      (((s.setMem m).push (.arena v)).setArenas (v.toNat / 4096 :: s.arenas)) := by
  rcases hown.mallocPage hrun with ⟨-, hlow, hhigh, hnone, hkeep, w, hnew⟩
  refine .aside [.arena v] hkeep.own (fun q hq => ?_) rfl rfl (aside_one trivial)
    (fun x hx hT => ?_)
  · show _ ∧ _ ∧ (frameAt m m.cr3 q).isSome = true
    rcases List.mem_cons.mp hq with rfl | hq
    · exact ⟨hlow, hhigh, by rw [hnew _ hhigh, if_pos rfl]; rfl⟩
    · rcases harenas q hq with ⟨hq₀, hq₁, hsome⟩
      rcases Option.isSome_iff_exists.mp hsome with ⟨w', hw'⟩
      exact ⟨hq₀, hq₁, by rw [hkeep.frame q w' hq₁ hw']; rfl⟩
  · by_cases hpage : x / 4096 = v.toNat / 4096
    · rw [byteOwn_of_mem (hpage ▸ List.mem_cons_self), byteOwn_of_absent (hpage ▸ hnone)]
    · have hmem : x / 4096 ∈ v.toNat / 4096 :: s.arenas ↔ x / 4096 ∈ s.arenas := by
        rw [List.mem_cons, or_iff_right hpage]
      have hsame : frameAt m m.cr3 (x / 4096) =
          frameAt s.kernel.mem s.kernel.mem.cr3 (x / 4096) := by
        rw [hnew _ (by omega), if_neg hpage]
      have hbyte : byteIn m x = byteIn s.kernel.mem x := hkeep.byteIn_eq hx hT hsame
      show (if x / 4096 ∈ v.toNat / 4096 :: s.arenas then none else byteIn m x) = _
      rw [if_congr hmem rfl hbyte, byteOwn]

/-- An arena is given back. It has no bytes then. -/
theorem Since.give {m : Machine} {q : Nat} (hown : OwnPages s.kernel.mem a b)
    (harenas : ArenasMapped s) (hq : q ∈ s.arenas)
    (hrun : mfreePage s.kernel.mem .user (BitVec.ofNat 32 (q * 4096)) 1 = .ok m) :
    Since a b Nowhere [] s ((s.setArenas (s.arenas.filter (· ≠ q))).setMem m) := by
  rcases harenas q hq with ⟨hlow, hhigh, hsome⟩
  rcases hown.mfreePage hlow hhigh hsome hrun with ⟨hown', -, -, hlost, hphys⟩
  have hmem : ∀ q', q' ∈ s.arenas.filter (· ≠ q) ↔ q' ∈ s.arenas ∧ q' ≠ q := by
    intro q'
    rw [List.mem_filter, decide_eq_true_eq]
  refine .aside [] hown' (fun q' hq' => ?_) rfl rfl aside_nil (fun x hx hT => ?_)
  · rcases (hmem q').mp hq' with ⟨hq', hne⟩
    rcases harenas q' hq' with ⟨hlow', hhigh', hsome'⟩
    refine ⟨hlow', hhigh', ?_⟩
    show (frameAt m m.cr3 q').isSome = true
    rw [hlost q' hhigh', if_neg hne]
    exact hsome'
  · -- The page of the arena is not mapped any more; every other page keeps its bytes.
    by_cases hpage : x / 4096 = q
    · rw [byteOwn_of_mem (s := s) (hpage ▸ hq)]
      refine byteOwn_of_absent ?_
      show frameAt m m.cr3 (x / 4096) = none
      rw [hlost _ (by omega), if_pos hpage]
    · have hmem' : x / 4096 ∈ s.arenas.filter (· ≠ q) ↔ x / 4096 ∈ s.arenas := by
        rw [hmem, and_iff_left hpage]
      have hbyte : byteIn m x = byteIn s.kernel.mem x := by
        rw [byteIn, hlost _ (by omega), if_neg hpage, byteIn]
        cases hw : frameAt s.kernel.mem s.kernel.mem.cr3 (x / 4096) with
        | none => rfl
        | some w => rw [Option.map_some, Option.map_some, hphys w (hown.frame_ge (by omega) hw)]
      show (if x / 4096 ∈ s.arenas.filter (· ≠ q) then none else byteIn m x) = _
      rw [if_congr hmem' rfl hbyte, byteOwn]

/-- A byte of an arena is written. -/
theorem Since.fill {m : Machine} {dst : Word} {c : Byte} (hown : OwnPages s.kernel.mem a b)
    (harenas : ArenasMapped s) (hdst : dst.toNat / 4096 ∈ s.arenas)
    (hrun : storeByte s.kernel.mem dst c = .ok m) :
    Since a b Nowhere [] s ((s.push (.copied dst 1)).setMem m) := by
  have hhigh := (harenas _ hdst).2.1
  rcases hown.storeByte (by omega) hrun with ⟨hkeep, hsame, -⟩
  have hwritten : Since a b (· = dst.toNat) [] s ((s.push (.copied dst 1)).setMem m) :=
    .written [.copied dst 1] harenas hkeep hsame rfl rfl rfl (aside_one trivial)
  refine .aside [.copied dst 1] hwritten.own hwritten.arenas rfl rfl (aside_one trivial)
    (fun x hx _ => ?_)
  by_cases hpage : x / 4096 ∈ s.arenas
  · rw [byteOwn_of_mem hpage]
    exact byteOwn_of_mem hpage
  · have hbyte : byteIn m x = byteIn s.kernel.mem x := by
      refine hkeep.byteIn_eq hx ?_ (hsame _ (by omega))
      rintro rfl
      exact hpage hdst
    rw [byteOwn_of_not_mem hpage, ← hbyte]
    exact byteOwn_of_not_mem hpage

/-- What is done for the buffers is done to the arenas. -/
theorem bufferStep_since {w : BufferWork} {u : Unit} (hown : OwnPages s.kernel.mem a b)
    (harenas : ArenasMapped s) (hrun : (bufferStep w).run s = .ok (u, s')) :
    Since a b Nowhere [] s s' ∧ s'.kernel.fs = s.kernel.fs := by
  cases w with
  | take =>
      rcases run_bind_ok.mp hrun with ⟨v, s₁, h₁, k₁⟩
      rcases onMem_ok h₁ with ⟨m, hm, rfl⟩
      -- The run has been completed, so there was a page.
      have hne := (hown.mallocPage hm).1
      rw [if_neg hne] at k₁
      rcases run_bind_ok.mp k₁ with ⟨_, s₂, h₂, k₂⟩
      rw [modify_ok k₂, modify_ok h₂]
      exact ⟨.take hown harenas hm, rfl⟩
  | give page =>
      rcases run_bind_ok.mp hrun with ⟨arenas, s₁, h₁, k₁⟩
      rcases read_ok h₁ with ⟨rfl, rfl⟩
      by_cases hin : page ∈ s₁.arenas
      · rw [if_pos hin] at k₁
        rcases run_bind_ok.mp k₁ with ⟨_, s₂, h₂, k₂⟩
        rcases onMem_ok k₂ with ⟨m, hm, rfl⟩
        rw [modify_ok h₂] at hm ⊢
        exact ⟨.give hown harenas hin (map_ok hm), rfl⟩
      · rw [if_neg hin] at k₁
        rcases pure_ok k₁ with ⟨-, rfl⟩
        exact ⟨.refl hown harenas, rfl⟩
  | fill dst c =>
      rcases run_bind_ok.mp hrun with ⟨arenas, s₁, h₁, k₁⟩
      rcases read_ok h₁ with ⟨rfl, rfl⟩
      by_cases hin : dst.toNat / 4096 ∈ s₁.arenas
      · rw [if_pos hin] at k₁
        rcases run_bind_ok.mp k₁ with ⟨_, s₂, h₂, k₂⟩
        rcases onMem_ok k₂ with ⟨m, hm, rfl⟩
        rw [modify_ok h₂] at hm ⊢
        exact ⟨.fill hown harenas hin (map_ok hm), rfl⟩
      · rw [if_neg hin] at k₁
        rcases pure_ok k₁ with ⟨-, rfl⟩
        exact ⟨.refl hown harenas, rfl⟩
  | stray =>
      rcases run_bind_ok.mp hrun with ⟨damaged, s₁, h₁, k₁⟩
      rcases read_ok h₁ with ⟨rfl, rfl⟩
      by_cases hd : s₁.damaged = true
      · rw [if_pos hd] at k₁
        rcases run_bind_ok.mp k₁ with ⟨_, s₂, -, k₂⟩
        cases k₂
      · rw [if_neg hd] at k₁
        rcases pure_ok k₁ with ⟨-, rfl⟩
        exact ⟨.refl hown harenas, rfl⟩

theorem bufferSteps_since {ws : List BufferWork} {u : Unit} (hown : OwnPages s.kernel.mem a b)
    (harenas : ArenasMapped s) (hrun : (bufferSteps ws).run s = .ok (u, s')) :
    Since a b Nowhere [] s s' ∧ s'.kernel.fs = s.kernel.fs := by
  induction ws generalizing s with
  | nil =>
      rcases pure_ok hrun with ⟨-, rfl⟩
      exact ⟨.refl hown harenas, rfl⟩
  | cons w ws ih =>
      rcases run_bind_ok.mp hrun with ⟨_, s₁, h₁, k₁⟩
      rcases bufferStep_since hown harenas h₁ with ⟨hsince, hfs⟩
      rcases ih hsince.own hsince.arenas k₁ with ⟨hsince', hfs'⟩
      exact ⟨hsince.trans hsince', hfs'.trans hfs⟩

theorem buffers_since {u : Unit} (hown : OwnPages s.kernel.mem a b) (harenas : ArenasMapped s)
    (hrun : buffers.run s = .ok (u, s')) :
    Since a b Nowhere [] s s' ∧ s'.kernel.fs = s.kernel.fs := by
  rcases run_bind_ok.mp hrun with ⟨work, s₁, h₁, k₁⟩
  rcases read_ok h₁ with ⟨rfl, rfl⟩
  rcases run_bind_ok.mp k₁ with ⟨_, s₂, h₂, k₂⟩
  have hs₂ : s₂ = { s₁ with work := s₁.work.tail } := modify_ok h₂
  subst hs₂
  have hwork : Since a b Nowhere [] s₁ { s₁ with work := s₁.work.tail } :=
    .aside [] hown harenas rfl rfl aside_nil (fun _ _ _ => rfl)
  rcases bufferSteps_since hwork.own hwork.arenas k₂ with ⟨hsince, hfs⟩
  exact ⟨hwork.trans hsince, hfs⟩

/-- The file system has changed. -/
theorem Since.setFs {T : Nat → Prop} (hown : OwnPages s.kernel.mem a b) (harenas : ArenasMapped s)
    (fs : Fs) : Since a b T [] s (s.setFs fs) :=
  .aside [] hown harenas rfl rfl aside_nil (fun _ _ _ => rfl)

/-- A call of the file system with its buffers. -/
theorem onFs_ok {f : Nat → FsM α} {x : α} (hown : OwnPages s.kernel.mem a b)
    (harenas : ArenasMapped s) (hrun : (onFs f).run s = .ok (x, s')) :
    (f s.kernel.cur.toNat).run s.kernel.fs = .ok (x, s'.kernel.fs) ∧
      Since a b Nowhere [] s s' := by
  rcases run_bind_ok.mp hrun with ⟨_, s₁, h₁, k₁⟩
  rcases buffers_since hown harenas h₁ with ⟨hsince₁, hfs₁⟩
  rcases run_bind_ok.mp k₁ with ⟨k, s₂, h₂, k₂⟩
  rcases read_ok h₂ with ⟨rfl, rfl⟩
  rw [← hsince₁.cur, ← hfs₁]
  cases hf : (f s₂.kernel.cur.toNat).run s₂.kernel.fs with
  | error e =>
      rw [hf] at k₂
      cases k₂
  | ok r =>
      rw [hf] at k₂
      rcases run_bind_ok.mp k₂ with ⟨_, s₃, h₃, k₃⟩
      rw [modify_ok h₃] at k₃
      rcases run_bind_ok.mp k₃ with ⟨_, s₄, h₄, k₄⟩
      rcases pure_ok k₄ with ⟨rfl, rfl⟩
      have hset : Since a b Nowhere [] s₂ (s₂.setFs r.2) :=
        .setFs hsince₁.own hsince₁.arenas r.2
      rcases buffers_since hset.own hset.arenas h₄ with ⟨hsince₂, hfs₂⟩
      rw [hfs₂]
      exact ⟨rfl, (hsince₁.trans hset).trans hsince₂⟩

end Buffers

section Pages

variable {s s' : Exec} {a b : Nat} {v : Word}

/-- The bit of a page is set in the bitmap of the process. -/
theorem setVaddrBit_since {u : Unit} (hown : OwnPages s.kernel.mem a b) (harenas : ArenasMapped s)
    (hv : UserAddr v.toNat) (hrun : (setVaddrBit .user v).run s = .ok (u, s')) :
    Since a b Nowhere [] s s' ∧ s'.kernel.fs = s.kernel.fs ∧ s'.arenas = s.arenas ∧
      SamePages s.kernel.mem s'.kernel.mem := by
  rcases run_bind_ok.mp hrun with ⟨m, s₁, h₁, k₁⟩
  rcases read_ok h₁ with ⟨rfl, rfl⟩
  -- The process has a page directory, so the first branch is taken.
  by_cases hc : s₁.kernel.mem.cur.pgdir ≠ 0 ∧ PoolFlags.user = .user
  · rw [if_pos hc] at k₁
    rcases run_bind_ok.mp k₁ with ⟨_, s₂, h₂, k₂⟩
    rcases check_ok h₂ with ⟨-, rfl⟩
    rcases run_bind_ok.mp k₂ with ⟨_, s₃, h₃, k₃⟩
    rcases onMem_ok k₃ with ⟨m', hset, rfl⟩
    have hstart : (BitVec.ofNat 32 userVaddrStart).toNat = userVaddrStart := by decide
    have hp : IsProcess s₂.kernel.mem.cur :=
      ⟨hc.1, by rw [hown.space.start, hstart], hown.space.len⟩
    have hidx := bitIdx_lt hp hv
    rw [hown.space.len, ← userPages] at hidx
    rcases hown.space.writeRange true (n := 1) (Nat.succ_le_of_lt hidx) with ⟨m₁, hm₁, hw, -⟩
    have hs₃ : s₃ = s₂.push _ := modify_ok h₃
    rw [hs₃] at hset ⊢
    have hset' := map_ok hset
    rw [show (s₂.push _).kernel.mem = s₂.kernel.mem from rfl, hm₁, Except.ok.injEq] at hset'
    subst hset'
    rcases hown.written hw with ⟨hkeep, hsame⟩
    exact ⟨.written [.setBit _] harenas hkeep hsame rfl rfl rfl (aside_one trivial), rfl,
      rfl, hsame⟩
  · rw [if_neg hc, if_neg (fun hc => absurd hc.2 (by decide))] at k₁
    cases k₁

/-- A page is mapped. It has the bytes that its frame held. -/
theorem Since.map {p : Pool} {phy : Word} {m : Machine} (hown : OwnPages s.kernel.mem a b)
    (harenas : ArenasMapped s) (hlt : v.toNat < 0xc0000000)
    (hnone : frameAt s.kernel.mem s.kernel.mem.cr3 (v.toNat / 4096) = none)
    (hpalloc : palloc s.kernel.mem.userPool = .ok (p, phy))
    (hadd : pageTableAdd (s.kernel.mem.setPool p .user) v phy = .ok m) :
    Since a b Nowhere [] s
      ((s.push (.mapped v (s.kernel.mem.phys (phy.toNat / 4096)))).setMem m) := by
  have hspace : UserSpace (s.kernel.mem.setPool p .user) a b := by
    rcases palloc_ok hpalloc with ⟨j, -, -, rfl, -⟩
    exact hown.space.setUserBits (bitmapSet_len _ _ _)
  have hmap := pageTableAdd_ok hspace hlt hnone hadd
  have hcur : m.cur = s.kernel.mem.cur := (pageTableAdd_cur hadd).trans rfl
  rcases hown.mapped (by omega) hnone hpalloc rfl hmap hcur with ⟨hkeep, hnew⟩
  refine ⟨hkeep.own, fun q hq => ?_, rfl,
    [.mapped v (s.kernel.mem.phys (phy.toNat / 4096))], rfl, rfl, fun x c hx hT => ?_⟩
  · rcases harenas q hq with ⟨hq₀, hq₁, hsome⟩
    rcases Option.isSome_iff_exists.mp hsome with ⟨w, hw⟩
    refine ⟨hq₀, hq₁, ?_⟩
    show (frameAt m m.cr3 q).isSome = true
    rw [hkeep.frame q w hq₁ hw]
    rfl
  · have hheld : HeldIn [.mapped v (s.kernel.mem.phys (phy.toNat / 4096))] x c ↔
        v.toNat / 4096 = x / 4096 ∧
          byteOfWord (s.kernel.mem.phys (phy.toNat / 4096) (x % 4096 / 4)) x = c := by
      constructor
      · rintro ⟨v', held, hmem, hx⟩
        cases List.mem_singleton.mp hmem
        exact hx
      · exact fun hx => ⟨v, _, List.mem_singleton_self _, hx⟩
    rw [hheld]
    by_cases hpage : x / 4096 = v.toNat / 4096
    · -- The page was absent, so it is no arena.
      have hno : x / 4096 ∉ s.arenas := by
        intro hin
        have hsome := (harenas _ hin).2.2
        rw [hpage, hnone] at hsome
        cases hsome
      have hframe : frameAt m m.cr3 (x / 4096) = some (phy.toNat / 4096) := by
        rw [hnew _ (by omega), if_pos hpage]
      rw [byteOwn_of_absent (s := s) (hpage ▸ hnone), byteOwn_of_not_mem (by exact hno)]
      show byteIn m x = some c ↔ _
      rw [byteIn, hframe, Option.map_some, hkeep.at_page hx hT hframe, Option.some.injEq]
      constructor
      · exact fun h => Or.inr ⟨hpage.symm, h⟩
      · rintro (h | h)
        · cases h
        · exact h.2
    · have hbyte : byteIn m x = byteIn s.kernel.mem x :=
        hkeep.byteIn_eq hx hT (by rw [hnew _ (by omega), if_neg hpage])
      have hown' : byteOwn ((s.push (.mapped v (s.kernel.mem.phys (phy.toNat / 4096)))).setMem m) x =
          byteOwn s x := by
        rw [byteOwn, byteOwn, ← hbyte]
        rfl
      rw [hown']
      exact ⟨Or.inl, fun h => h.resolve_right (fun h => hpage h.1.symm)⟩

/-- `get_a_page` for a page that is not mapped. -/
theorem getAPage_since {page : Word} (hown : OwnPages s.kernel.mem a b) (harenas : ArenasMapped s)
    (hv : UserAddr v.toNat)
    (hnone : frameAt s.kernel.mem s.kernel.mem.cr3 (v.toNat / 4096) = none) (hpage : page ≠ 0)
    (hrun : (getAPage .user v).run s = .ok (page, s')) :
    Since a b Nowhere [] s s' ∧ s'.kernel.fs = s.kernel.fs := by
  have hlt : v.toNat < 0xc0000000 := hv.2
  rcases run_bind_ok.mp hrun with ⟨_, s₁, h₁, k₁⟩
  rcases setVaddrBit_since hown harenas hv h₁ with ⟨hbit, hfs, -, hsame⟩
  rcases run_bind_ok.mp k₁ with ⟨phy, s₂, h₂, k₂⟩
  rcases onMem_ok h₂ with ⟨m₂, hfrom, rfl⟩
  rcases bind_eq_ok.mp hfrom with ⟨⟨p, phy'⟩, hpalloc, hret⟩
  dsimp only at hret
  rw [Except.ok.injEq, Prod.mk.injEq] at hret
  rcases hret with ⟨rfl, rfl⟩
  by_cases hphy : phy' = 0
  · rw [if_pos hphy] at k₂
    exact absurd (pure_ok k₂).1.symm (fun hc => hpage hc.symm)
  · rw [if_neg hphy] at k₂
    rcases run_bind_ok.mp k₂ with ⟨held, s₃, h₃, k₃⟩
    rcases read_ok h₃ with ⟨rfl, rfl⟩
    rcases run_bind_ok.mp k₃ with ⟨_, s₄, h₄, k₄⟩
    rcases run_bind_ok.mp k₄ with ⟨_, s₅, h₅, k₅⟩
    rcases pure_ok k₅ with ⟨-, rfl⟩
    rcases onMem_ok h₅ with ⟨m₅, hadd, rfl⟩
    rw [modify_ok h₄] at hadd ⊢
    -- Setting the bit has mapped nothing, so the page is still absent.
    have hnone₁ : frameAt s₁.kernel.mem s₁.kernel.mem.cr3 (v.toNat / 4096) = none := by
      rw [hsame _ (by omega), hnone]
    exact ⟨hbit.trans (.map hbit.own hbit.arenas hlt hnone₁ hpalloc (map_ok hadd)), hfs⟩

theorem pagePresent_ok {m m' : Machine} {present : Bool} (h : SelfMap m)
    (hrun : pagePresent v m = .ok (m', present)) :
    m' = m ∧ present = (frameAt m m.cr3 (v.toNat / 4096)).isSome := by
  have hd : pdeIdx v = v.toNat / 4096 / 1024 := by
    rw [pdeIdx_eq]
    omega
  have ht : pteIdx v = v.toNat / 4096 % 1024 := by
    rw [pteIdx_eq]
    omega
  rw [pagePresent, load_pdePtr h, ok_bind] at hrun
  rw [frameAt, ← hd, ← ht]
  -- The page table is looked at only if the directory has it.
  by_cases hp : isPresent (m.phys m.cr3 (pdeIdx v)) = true
  · rw [if_pos hp, load_ptePtr h hp, ok_bind, Except.ok.injEq, Prod.mk.injEq] at hrun
    rw [if_pos hp]
    refine ⟨hrun.1.symm, ?_⟩
    rw [← hrun.2]
    by_cases hp' : isPresent (m.phys (frameOf (m.phys m.cr3 (pdeIdx v))) (pteIdx v)) = true
    · rw [if_pos hp', hp']
      rfl
    · rw [if_neg hp', Bool.eq_false_iff.mpr hp']
      rfl
  · rw [if_neg hp, Except.ok.injEq, Prod.mk.injEq] at hrun
    rw [if_neg hp]
    exact ⟨hrun.1.symm, hrun.2.symm⟩

/-- The pages of a segment have been mapped. -/
theorem mapPages_since {n : Nat} (hown : OwnPages s.kernel.mem a b) (harenas : ArenasMapped s)
    (hv : userVaddrStart ≤ v.toNat ∧ v.toNat + n * 4096 ≤ 0xc0000000)
    (hrun : (mapPages n v).run s = .ok (true, s')) :
    Since a b Nowhere [] s s' ∧ s'.kernel.fs = s.kernel.fs := by
  induction n generalizing s s' v with
  | zero =>
      rcases pure_ok hrun with ⟨-, rfl⟩
      exact ⟨.refl hown harenas, rfl⟩
  | succ n ih =>
      have hpg : pgSize.toNat = 4096 := by decide
      have hnext : (v + pgSize).toNat = v.toNat + 4096 ∨ n = 0 := by
        rw [BitVec.toNat_add, hpg]
        omega
      -- The address behind the last page may be the end of the address space.
      have hrest : ∀ {t t' : Exec}, OwnPages t.kernel.mem a b → ArenasMapped t →
          (mapPages n (v + pgSize)).run t = .ok (true, t') →
            Since a b Nowhere [] t t' ∧ t'.kernel.fs = t.kernel.fs := by
        intro t t' hown harenas hrun
        by_cases hn : n = 0
        · subst hn
          rcases pure_ok hrun with ⟨-, rfl⟩
          exact ⟨.refl hown harenas, rfl⟩
        · exact ih hown harenas (by omega) hrun
      rcases run_bind_ok.mp hrun with ⟨present, s₁, h₁, k₁⟩
      rcases onMem_ok h₁ with ⟨m₁, hpresent, rfl⟩
      rcases pagePresent_ok hown.space.map.half.self hpresent with ⟨rfl, hsome⟩
      by_cases hp : present = true
      · rw [if_pos hp] at k₁
        exact hrest (t := s.setMem s.kernel.mem) hown harenas k₁
      · rw [if_neg hp] at k₁
        rcases run_bind_ok.mp k₁ with ⟨page, s₂, h₂, k₂⟩
        by_cases hpage : page = 0
        · rw [if_pos hpage] at k₂
          exact absurd (pure_ok k₂).1 (by decide)
        · rw [if_neg hpage] at k₂
          have hnone : frameAt s.kernel.mem s.kernel.mem.cr3 (v.toNat / 4096) = none := by
            rw [← Option.not_isSome_iff_eq_none, ← hsome]
            exact hp
          rcases getAPage_since (s := s.setMem s.kernel.mem) hown harenas ⟨hv.1, by omega⟩ hnone
            hpage h₂ with ⟨hsince, hfs⟩
          rcases hrest hsince.own hsince.arenas k₂ with ⟨hsince', hfs'⟩
          exact ⟨hsince.trans hsince', hfs'.trans hfs⟩

end Pages

end ForikOS
