import ForikOS.Core.Shell
import ForikOS.Theory.CString

/-!
# Reading a Line

`readline` edits a line. The keys are folded over the text that has been typed:
a backspace takes the last byte away, ctrl-u all of them, ctrl-l none, and every
other key adds a byte.

Between two keys the text lies in front of the cursor, and what is at the cursor
and behind it does not matter: a key is stored there before it is looked at, and
bytes that are taken away stay behind. The test for the empty line looks at the
first byte of the line. That is the key itself when the line is empty, and else
a byte of the text, which has no backspace in it.

The screen follows the same fold. What is shown behind the prompt is the text.

## Main definitions

* `editKey`, `edited`: The text after a key, and after all keys.
* `display`: What is shown behind the prompt.
* `Pending`: The line between two keys.

## Theorems

* `Pending.store`: A key at the cursor.
* `erase_spec`: ctrl-u.
* `key_spec`: Any key but the last.
* `loop_spec`: The keys that remain.
* `readline_edits`: `readline` leaves the edited text.
-/

namespace ForikOS

/-- The text after a key. -/
def editKey (text : Str) (c : Byte) : Str :=
  if c = backspace then text.dropLast
  else if c = ctrlU then []
  else if c = ctrlL then text
  else text ++ [c]

/-- The text after all keys. -/
def edited (keys : Str) : Str := keys.foldl editKey []

/-- What is shown behind the prompt after a call. -/
def display (shown : Str) : Echo → Str
  | .putchar c => if c = backspace then shown.dropLast else shown ++ [c]
  | .clear => []
  | .prompt => shown
  | .text s => shown ++ s
  | .noEnterKey => shown

/-- The text lies in memory up to the cursor, nothing in front of it has been
    written, and the text is on the screen. -/
structure Pending (buf : Nat) (mem : Nat → Byte) (l : Line) (text : Str) : Prop where
  pos : l.pos = buf + text.length
  cells : CellsAt l.mem buf text
  ordinary : ∀ c, c ∈ text → c ≠ 0 ∧ c ≠ backspace
  frame : ∀ x, x < buf → l.mem x = mem x
  shown : l.echo.foldl display [] = text

section Keys

variable {buf : Nat} {mem : Nat → Byte} {l : Line} {text : Str}

/-- A byte at the cursor. -/
theorem Pending.store (h : Pending buf mem l text) (c : Byte) : Pending buf mem (l.store c) text where
  pos := h.pos
  cells := h.cells.update (Or.inr (Nat.le_of_eq h.pos.symm)) c
  ordinary := h.ordinary
  frame x hx := by
    have hpos := h.pos
    exact (Function.update_of_ne (by omega) _ _).trans (h.frame x hx)
  shown := h.shown

/-- The byte in front of the cursor is taken away. -/
theorem Pending.back {c : Byte} (h : Pending buf mem l (text ++ [c])) :
    Pending buf mem ({ l with pos := l.pos - 1 }.write (.putchar backspace)) text where
  pos := by
    have hpos := h.pos
    rw [List.length_append, List.length_singleton] at hpos
    exact (congrArg (fun n => n - 1) hpos).trans (Nat.add_sub_cancel (buf + text.length) 1)
  cells := (cellsAt_append.mp h.cells).1
  ordinary d hd := h.ordinary d (List.mem_append_left _ hd)
  frame := h.frame
  shown := by
    simp only [Line.write, List.foldl_append, h.shown, List.foldl_cons, List.foldl_nil, display,
      if_true, List.dropLast_concat]

/-- The loop for ctrl-u takes all bytes away. -/
theorem erase_spec {fuel : Nat} (h : Pending buf mem l text) (hfuel : text.length < fuel) :
    ∃ l', Line.erase buf fuel l = some l' ∧ Pending buf mem l' [] := by
  -- The text gets shorter from behind.
  induction fuel generalizing l text with
  | zero => exact absurd hfuel (Nat.not_lt_zero _)
  | succ fuel ih =>
      have hpos := h.pos
      unfold Line.erase
      rcases List.eq_nil_or_concat text with rfl | ⟨s, c, hs⟩
      · -- The cursor is back at the beginning.
        rw [List.length_nil, Nat.add_zero] at hpos
        rw [if_neg (fun hne => hne hpos.symm)]
        exact ⟨l, rfl, h⟩
      · rw [List.concat_eq_append] at hs
        rw [hs, List.length_append, List.length_singleton] at hpos hfuel
        rw [if_pos (by omega)]
        exact ih (hs ▸ h.store 0 : Pending buf mem (l.store 0) (s ++ [c])).back (by omega)

/-- A key that does not end the line. -/
theorem key_spec {c : Byte} (h : Pending buf mem l text) (hc : c ≠ 0) (hlen : text.length < 2 ^ 32) :
    ∃ l', Line.key buf buf (l.store c) = some l' ∧ Pending buf mem l' (editKey text c) := by
  have hstore := h.store c
  have hcur : (l.store c).mem (l.store c).pos = c := Function.update_self _ _ _
  unfold Line.key editKey
  rw [hcur]
  by_cases hback : c = backspace
  · rw [if_pos hback, if_pos hback]
    rcases List.eq_nil_or_concat text with rfl | ⟨s, d, hs⟩
    · -- The first byte of an empty line is the key itself.
      have hfirst : (l.store c).mem buf = backspace := by
        have hpos : (l.store c).pos = buf := hstore.pos
        rw [← hpos, hcur, hback]
      rw [if_neg (fun hne => hne hfirst)]
      exact ⟨_, rfl, hstore⟩
    · rw [List.concat_eq_append] at hs
      subst hs
      have hfirst : (l.store c).mem buf ≠ backspace := by
        cases s with
        | nil => exact hstore.cells.1 ▸ (h.ordinary d (List.mem_singleton_self d)).2
        | cons e s => exact hstore.cells.1 ▸ (h.ordinary e List.mem_cons_self).2
      rw [if_pos hfirst, List.dropLast_concat]
      exact ⟨_, rfl, hstore.back⟩
  · rw [if_neg hback, if_neg hback]
    by_cases hl : c = ctrlL
    · have hu : c ≠ ctrlU := by
        rw [hl]
        decide
      rw [if_pos hl, if_neg hu, if_pos hl]
      -- The zero at the cursor ends the text, so that it can be printed.
      have hzero := hstore.store 0
      have hterm : TermAt ((l.store c).store 0).mem buf text := by
        refine ⟨hzero.cells, ?_, fun hmem => (h.ordinary 0 hmem).1 rfl⟩
        rw [← hzero.pos]
        exact Function.update_self _ _ _
      have htext : stringAt ((((l.store c).store 0).write .clear).write .prompt).mem buf =
        some text := stringAt_eq hterm hlen
      dsimp only
      rw [htext, Option.map_some]
      refine ⟨_, rfl, hzero.pos, hzero.cells, hzero.ordinary, hzero.frame, ?_⟩
      simp only [Line.write, List.foldl_append, List.foldl_cons, List.foldl_nil, display,
        List.nil_append]
    · rw [if_neg hl, if_neg hl]
      by_cases hu : c = ctrlU
      · rw [if_pos hu, if_pos hu]
        exact erase_spec hstore hlen
      · -- The byte is there already, and the cursor passes over it.
        rw [if_neg hu, if_neg hu]
        refine ⟨_, rfl, ?_, ?_, fun d hd => ?_, hstore.frame, ?_⟩
        · have hpos := hstore.pos
          rw [List.length_append, List.length_singleton]
          exact congrArg (fun n => n + 1) hpos
        · refine cellsAt_append.mpr ⟨hstore.cells, ?_, trivial⟩
          rw [← hstore.pos]
          exact hcur
        · rcases List.mem_append.mp hd with hd | hd
          · exact h.ordinary d hd
          · rw [List.mem_singleton.mp hd]
            exact ⟨hc, hback⟩
        · simp only [Line.write, List.foldl_append, hstore.shown, List.foldl_cons, List.foldl_nil,
            display, if_neg hback]

end Keys

section Lines

variable {buf : Nat} {mem : Nat → Byte} {l : Line} {text keys : Str} {count : Word} {enter : Byte}

/-- The text has room at a key, so the test of the loop holds. -/
theorem Pending.fits (h : Pending buf mem l text) (hroom : (text.length : Int) < count.toInt) :
    (l.pos : Int) - buf < count.toInt := by
  have hpos := h.pos
  omega

/-- The keys that remain, up to the one that ends the line. -/
theorem loop_spec (h : Pending buf mem l text)
    (hkeys : ∀ c, c ∈ keys → c ≠ 0 ∧ c ≠ newline ∧ c ≠ carriageReturn)
    (henter : enter = newline ∨ enter = carriageReturn)
    (hroom : ∀ ks, ks <+: keys → ((ks.foldl editKey text).length : Int) < count.toInt) (rest : Str) :
    ∃ r, Line.loop buf buf count (keys ++ enter :: rest) l = some r ∧ r.2 = rest ∧
      TermAt r.1.mem buf (keys.foldl editKey text) ∧ (∀ x, x < buf → r.1.mem x = mem x) ∧
      r.1.echo.foldl display [] = keys.foldl editKey text ++ [newline] := by
  have hcount := BitVec.toInt_lt (x := count)
  -- The text at each key is the fold over the keys before it.
  induction keys generalizing l text with
  | nil =>
      have hstore := h.store enter
      have hcur : (l.store enter).mem (l.store enter).pos = enter := Function.update_self _ _ _
      have hzero := hstore.store 0
      rw [List.nil_append, Line.loop]
      rw [if_pos (hstore.fits (hroom [] (List.prefix_refl []))), hcur, if_pos henter]
      refine ⟨_, rfl, rfl, ⟨hzero.cells, ?_, fun hmem => (h.ordinary 0 hmem).1 rfl⟩, hzero.frame, ?_⟩
      · rw [List.foldl_nil, ← hzero.pos]
        exact Function.update_self _ _ _
      · have hnewline : newline ≠ backspace := by decide
        simp only [Line.write, List.foldl_append, hzero.shown, List.foldl_cons, List.foldl_nil,
          display, if_neg hnewline]
  | cons c keys ih =>
      have hkey := hkeys c List.mem_cons_self
      have hnow := hroom [] List.nil_prefix
      have hcur : (l.store c).mem (l.store c).pos = c := Function.update_self _ _ _
      rw [List.foldl_nil] at hnow
      rcases key_spec h hkey.1 (by omega) with ⟨l', hrun, hpending⟩
      rw [List.cons_append, Line.loop]
      rw [if_pos ((h.store c).fits hnow), hcur, if_neg (not_or.mpr hkey.2), hrun, Option.bind_some]
      refine ih hpending (fun d hd => hkeys d (List.mem_cons_of_mem c hd)) (fun ks hks => ?_)
      exact hroom (c :: ks) (List.cons_prefix_cons.mpr ⟨rfl, hks⟩)

/-- `readline` leaves the text that the keys before the first enter key make,
    and a zero behind it, and it writes nothing in front of the buffer. The
    buffer is `cmd_line`, as in the only call. -/
theorem readline_edits (buf : Nat) (hbuf : buf ≠ 0) (count : Word) (mem : Nat → Byte)
    (keys rest : Str) (enter : Byte) (henter : enter = newline ∨ enter = carriageReturn)
    (hkeys : ∀ c, c ∈ keys → c ≠ 0 ∧ c ≠ newline ∧ c ≠ carriageReturn)
    (hroom : ∀ ks, ks <+: keys → ((edited ks).length : Int) < count.toInt) :
    ∃ r, readline buf mem buf count (keys ++ enter :: rest) = some r ∧ r.2 = rest ∧
      TermAt r.1.mem buf (edited keys) ∧ ∀ x, x < buf → r.1.mem x = mem x := by
  have hstart : Pending buf mem ⟨mem, buf, []⟩ [] :=
    ⟨rfl, trivial, fun c hc => absurd hc List.not_mem_nil, fun _ _ => rfl, rfl⟩
  have hpos : 0 < count.toInt := hroom [] List.nil_prefix
  rcases loop_spec hstart hkeys henter hroom rest with ⟨r, hrun, hrest, hterm, hframe, -⟩
  rw [readline, if_pos ⟨hbuf, hpos⟩]
  exact ⟨r, hrun, hrest, hterm, hframe⟩

/-- A backspace, the byte `b` and the enter key. -/
theorem readline_edits_back :
    ∃ r, readline 1 (fun _ => 0) 1 2 ([backspace, 0x62] ++ newline :: []) = some r ∧ r.2 = [] ∧
      TermAt r.1.mem 1 (edited [backspace, 0x62]) ∧ ∀ x, x < 1 → r.1.mem x = 0 := by
  refine readline_edits 1 (by decide) 2 _ _ [] newline (Or.inl rfl) (by decide) (fun ks hks => ?_)
  simp only [List.prefix_cons_iff, List.prefix_nil] at hks
  rcases hks with rfl | ⟨t, rfl, rfl | ⟨u, rfl, rfl⟩⟩
  all_goals decide

/-- The screen shows the text, and the cursor goes to the next line. -/
theorem readline_shown (buf : Nat) (hbuf : buf ≠ 0) (count : Word) (mem : Nat → Byte)
    (keys rest : Str) (enter : Byte) (henter : enter = newline ∨ enter = carriageReturn)
    (hkeys : ∀ c, c ∈ keys → c ≠ 0 ∧ c ≠ newline ∧ c ≠ carriageReturn)
    (hroom : ∀ ks, ks <+: keys → ((edited ks).length : Int) < count.toInt) :
    ∃ r, readline buf mem buf count (keys ++ enter :: rest) = some r ∧
      r.1.echo.foldl display [] = edited keys ++ [newline] := by
  have hstart : Pending buf mem ⟨mem, buf, []⟩ [] :=
    ⟨rfl, trivial, fun c hc => absurd hc List.not_mem_nil, fun _ _ => rfl, rfl⟩
  have hpos : 0 < count.toInt := hroom [] List.nil_prefix
  rcases loop_spec hstart hkeys henter hroom rest with ⟨r, hrun, -, -, -, hshown⟩
  rw [readline, if_pos ⟨hbuf, hpos⟩]
  exact ⟨r, hrun, hshown⟩

end Lines

end ForikOS
