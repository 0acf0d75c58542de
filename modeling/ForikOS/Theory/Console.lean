import ForikOS.Core.Console
import ForikOS.Lib.Transcript
import ForikOS.Theory.Itoa

/-!
# The Screen Is a Window

What is on the screen is the end of the text that was put there: its last 25
lines, at most, each in a row of its own, with a new line behind every 80th
character. The cursor is behind the last character.

A backspace takes back the last character of the line. On an empty line there is
none to take back, and the source does not look: it goes to the end of the row
above, and from the first place of the screen to a place that is not in the
video memory.

## Main definitions

* `typedChar`, `typedText`: What a character and a text are to the transcript.
* `Shows`: The screen shows a transcript.
* `RubsOut`: Every backspace of a text has something to take back.

## Theorems

* `repMovsd_eq`, `cls_eq`: The two loops.
* `newline_room`, `newline_full`: The end of a line.
* `putChar_shows`: Any character.
* `putStr_shows`: Any text.
* `putChar_home`: A backspace in the first place is a fault.
* `putInt_eq`: A number is put as its numeral in base 16.
-/

namespace ForikOS

/-! ## The loops -/

/-- Moving down to lower addresses leaves a copy. -/
theorem repMovsd_eq (n : Nat) {esi edi : Nat} (h : edi ≤ esi) (vram : Nat → Byte) (i : Nat) :
    repMovsd n esi edi vram i =
      if edi ≤ i ∧ i < edi + 4 * n then vram (esi + (i - edi)) else vram i := by
  induction n generalizing esi edi vram with
  | zero =>
      rw [repMovsd, if_neg]
      omega
  | succ n ih =>
      rw [repMovsd, ih (Nat.add_le_add_right h 4)]
      -- What is read later is above what has been written.
      have hsrc : ∀ k, edi + 4 ≤ k → ¬(edi ≤ k ∧ k < edi + 4) := by omega
      by_cases hlow : edi ≤ i ∧ i < edi + 4
      · rw [if_neg (by omega), if_pos hlow, if_pos (by omega)]
      · by_cases hi : edi + 4 ≤ i ∧ i < edi + 4 + 4 * n
        · have hidx : esi + 4 + (i - (edi + 4)) = esi + (i - edi) := by omega
          have hall : edi ≤ i ∧ i < edi + 4 * (n + 1) := by omega
          rw [if_pos hi, hidx, if_neg (hsrc (esi + (i - edi)) (by omega)), if_pos hall]
        · rw [if_neg hi, if_neg hlow, if_neg (by omega)]

/-- Blanks, and everything else as before. -/
theorem cls_eq (n ebx : Nat) (vram : Nat → Byte) (i : Nat) :
    Console.cls n ebx vram i =
      if ebx ≤ i ∧ i < ebx + 2 * n then (if (i - ebx) % 2 = 0 then 0x20 else 0x07)
      else vram i := by
  induction n generalizing ebx vram with
  | zero =>
      rw [Console.cls, if_neg]
      omega
  | succ n ih =>
      rw [Console.cls, ih]
      by_cases hi : ebx + 2 ≤ i ∧ i < ebx + 2 + 2 * n
      · have hmod : (i - (ebx + 2)) % 2 = (i - ebx) % 2 := by omega
        have hall : ebx ≤ i ∧ i < ebx + 2 * (n + 1) := by omega
        rw [if_pos hi, hmod, if_pos hall]
      · rw [if_neg hi]
        by_cases h1 : i = ebx + 1
        · rw [h1, Function.update_self, if_pos (by omega), if_neg (by omega)]
        · rw [Function.update_of_ne h1]
          by_cases h0 : i = ebx
          · rw [h0, Function.update_self, if_pos (by omega), if_pos (by omega)]
          · rw [Function.update_of_ne h0, if_neg (by omega)]

/-! ## The screen and the transcript -/

/-- What a character is to the transcript. -/
def typedChar (t : Transcript Byte) (cl : Byte) : Transcript Byte :=
  if cl = 0x0d ∨ cl = 0x0a then t.newline
  else if cl = 0x08 then ⟨t.done, t.cur.dropLast⟩
  else t.put 80 cl

/-- What a text is to the transcript. -/
def typedText (t : Transcript Byte) (str : Str) : Transcript Byte := str.foldl typedChar t

/-- The characters on the screen are the ones in the window, light grey on black. -/
def CellsShow (vram : Nat → Byte) (t : Transcript Byte) : Prop :=
  ∀ i j, i < 25 → j < 80 →
    vram (2 * (80 * i + j)) = t.cell 25 0x20 i j ∧ vram (2 * (80 * i + j) + 1) = 0x07

/-- The screen shows a transcript. -/
structure Shows (c : Console) (t : Transcript Byte) : Prop where
  fits : t.cur.length < 80
  cursor : c.cursor.toNat = 80 * t.row 25 + t.cur.length
  cells : CellsShow c.vram t

section

variable {c : Console} {t : Transcript Byte} {bx : BitVec 16}

theorem row_lt (t : Transcript Byte) : t.row 25 < 25 := by
  unfold Transcript.row Transcript.above
  rw [Transcript.lines_length]
  omega

/-- `jl` behind `cmp bx, 2000`, where nothing is negative. -/
theorem slt_2000 (h : bx.toNat < 0x8000) : bx.slt 2000 = decide (bx.toNat < 2000) := by
  have hint : bx.toInt = bx.toNat := BitVec.toInt_eq_toNat_of_lt (by omega)
  have hk : (2000 : BitVec 16).toInt = 2000 := by decide
  rw [BitVec.slt, hint, hk]
  exact decide_eq_decide.mpr Nat.cast_lt_ofNat

/-- With room below, the next row is empty already. -/
theorem newline_room (hc : CellsShow c.vram t) (h : t.lines.length < 25)
    (hbx : bx.toNat = 80 * (t.row 25 + 1)) : Shows (setCursor c bx) t.newline := by
  refine ⟨Nat.zero_lt_succ 79, ?_, fun i j hi hj => ?_⟩
  · have hrow : t.newline.row 25 = t.row 25 + 1 := by
      rw [Transcript.lines_length] at h
      unfold Transcript.row Transcript.above Transcript.newline
      rw [Transcript.lines_length, Transcript.lines_length, List.length_append,
        List.length_singleton]
      omega
    rw [hrow]
    exact hbx
  · rw [Transcript.cell_newline_room h]
    exact hc i j hi hj

/-- Without, the rows move up. -/
theorem newline_full (hc : CellsShow c.vram t) (h : 25 ≤ t.lines.length) :
    Shows (rollScreen c) t.newline := by
  refine ⟨Nat.zero_lt_succ 79, ?_, fun i j hi hj => ?_⟩
  · have hrow : t.newline.row 25 = 24 := by
      rw [Transcript.lines_length] at h
      unfold Transcript.row Transcript.above Transcript.newline
      rw [Transcript.lines_length, List.length_append, List.length_singleton]
      omega
    rw [hrow]
    rfl
  · have hvram : ∀ k, (rollScreen c).vram k = if 3840 ≤ k ∧ k < 4000 then
        (if (k - 3840) % 2 = 0 then 0x20 else 0x07)
        else if k < 3840 then c.vram (k + 160) else c.vram k := by
      intro k
      unfold rollScreen setCursor
      dsimp only
      rw [cls_eq, repMovsd_eq 960 (Nat.zero_le _), Nat.sub_zero, Nat.add_comm 0xa0]
      by_cases hlast : 3840 ≤ k ∧ k < 4000
      · rw [if_pos hlast, if_pos hlast]
      · rw [if_neg hlast, if_neg hlast]
        exact if_congr (by omega) rfl rfl
    rw [hvram, hvram]
    by_cases hlast : i = 24
    · -- The last row is blank.
      rw [hlast, if_pos (by omega), if_pos (by omega), if_pos (by omega), if_neg (by omega)]
      exact ⟨(Transcript.cell_newline_last h (by decide)).symm, rfl⟩
    · have hc' := hc (i + 1) j (by omega) hj
      have hidx : 2 * (80 * i + j) + 160 = 2 * (80 * (i + 1) + j) := by omega
      rw [if_neg (by omega), if_pos (by omega), if_neg (by omega), if_pos (by omega),
        Transcript.cell_newline_full h, Nat.add_right_comm, hidx]
      exact hc'

/-- A line feed, and a line that is full in the last row. -/
theorem isLineFeed_shows (hc : CellsShow c.vram t)
    (hbx : bx.toNat = 80 * t.row 25 + t.cur.length)
    (hfits : t.cur.length < 80 ∨ t.cur.length = 80 ∧ t.row 25 = 24) :
    Shows (isLineFeed c bx) t.newline := by
  have hrow := row_lt t
  have hmod : (bx % 80).toNat = bx.toNat % 80 := BitVec.toNat_umod
  have hnext : (bx - bx % 80 + 80).toNat = bx.toNat / 80 * 80 + 80 := by
    rw [BitVec.toNat_add, BitVec.toNat_sub, hmod]
    have h80 : (80 : BitVec 16).toNat = 80 := rfl
    rw [h80]
    omega
  unfold isLineFeed
  dsimp only
  rw [slt_2000 (by rw [hnext, hbx]; omega), hnext]
  -- On a full screen the next line is behind the last cell, and the screen scrolls.
  by_cases hroom : t.lines.length < 25
  · have hrow' : t.row 25 < 24 := by
      rw [Transcript.lines_length] at hroom
      unfold Transcript.row
      omega
    rcases hfits with hlt | ⟨-, h24⟩
    · have hdiv : bx.toNat / 80 = t.row 25 := by omega
      rw [hdiv, if_pos (by rw [decide_eq_true_eq]; omega)]
      exact newline_room hc hroom (by rw [hnext, hdiv]; omega)
    · omega
  · have hfull : 25 ≤ t.lines.length := Nat.le_of_not_lt hroom
    have hrow' : t.row 25 = 24 := by
      rw [Transcript.lines_length] at hfull
      unfold Transcript.row Transcript.above
      rw [Transcript.lines_length]
      omega
    rw [if_neg (by rw [decide_eq_true_eq]; omega)]
    exact newline_full hc hfull

/-! ## Characters -/

theorem gsStore_some {off : BitVec 16} {b : Byte} (h : off.toNat < 0x8000) :
    c.gsStore off b = some { c with vram := Function.update c.vram off.toNat b } :=
  if_pos h

/-- A character and its attribute, at a place of the screen. -/
def place (c : Console) (k : Nat) (cl : Byte) : Console :=
  { c with vram := Function.update (Function.update c.vram (2 * k) cl) (2 * k + 1) 0x07 }

theorem place_eq {α : Type} {cl : Byte} {k : Nat} (hk : k < 2000) (hbx : bx.toNat = k)
    (f : Console → BitVec 16 → Option α) :
    (do
      let c ← c.gsStore (bx <<< 1) cl
      let c ← c.gsStore (bx <<< 1 + 1) 0x07
      f c ((bx <<< 1 + 1) >>> 1)) = f (place c k cl) bx := by
  have h2 : (bx <<< 1).toNat = 2 * k := by
    rw [BitVec.toNat_shiftLeft, hbx, Nat.shiftLeft_eq]
    omega
  have h3 : (bx <<< 1 + 1).toNat = 2 * k + 1 := by
    rw [BitVec.toNat_add, h2]
    have h1 : (1 : BitVec 16).toNat = 1 := rfl
    rw [h1]
    omega
  have h4 : (bx <<< 1 + 1) >>> 1 = bx := by
    apply BitVec.eq_of_toNat_eq
    rw [BitVec.toNat_ushiftRight, h3, Nat.shiftRight_eq_div_pow, hbx]
    omega
  rw [gsStore_some (by rw [h2]; omega)]
  dsimp only [Option.bind_eq_bind, Option.bind_some]
  rw [gsStore_some (by rw [h3]; omega), h2, h3, h4]
  rfl

/-- A character at a place of the screen, and nothing else. -/
theorem place_vram {k : Nat} (cl : Byte) (i : Nat) :
    (place c k cl).vram (2 * i) = (if i = k then cl else c.vram (2 * i)) ∧
      (place c k cl).vram (2 * i + 1) = (if i = k then 0x07 else c.vram (2 * i + 1)) := by
  unfold place
  dsimp only
  by_cases hi : i = k
  · rw [if_pos hi, if_pos hi, hi, Function.update_of_ne (by omega), Function.update_self,
      Function.update_self]
    exact ⟨rfl, rfl⟩
  · rw [if_neg hi, if_neg hi, Function.update_of_ne (by omega), Function.update_of_ne (by omega),
      Function.update_of_ne (by omega), Function.update_of_ne (by omega)]
    exact ⟨rfl, rfl⟩

/-- A place and its row and column. -/
theorem place_iff {i j r k : Nat} (hj : j < 80) (hk : k < 80) :
    80 * i + j = 80 * r + k ↔ i = r ∧ j = k := by
  omega

theorem place_shows (h : Shows c t) (cl : Byte) :
    CellsShow (place c (80 * t.row 25 + t.cur.length) cl).vram (t.extend cl) := by
  intro i j hi hj
  rcases place_vram (c := c) (k := 80 * t.row 25 + t.cur.length) cl (80 * i + j)
    with ⟨hcode, hattr⟩
  rcases h.cells i j hi hj with ⟨hcode', hattr'⟩
  rw [hcode, hattr, Transcript.cell_extend (by decide), hcode', hattr', ite_self]
  exact ⟨if_congr (place_iff hj h.fits) rfl rfl, rfl⟩

/-- A character that is only put there. -/
theorem putOther_shows (h : Shows c t) {cl : Byte} (hcr : cl ≠ 0x0d) (hlf : cl ≠ 0x0a)
    (hbs : cl ≠ 0x08) : ∃ c', putChar c cl = some c' ∧ Shows c' (t.put 80 cl) := by
  have hfits := h.fits
  have hrow := row_lt t
  have hcur := h.cursor
  have hcells := place_shows h cl
  have hrow' : (t.extend cl).row 25 = t.row 25 := by
    unfold Transcript.row Transcript.above Transcript.extend
    rw [Transcript.lines_length, Transcript.lines_length]
  have hlen : (t.extend cl).cur.length = t.cur.length + 1 := by
    rw [Transcript.extend, List.length_append, List.length_singleton]
  have hnext : (c.cursor + 1).toNat = 80 * t.row 25 + t.cur.length + 1 := by
    rw [BitVec.toNat_add, hcur]
    have h1 : (1 : BitVec 16).toNat = 1 := rfl
    rw [h1]
    omega
  have hput : putChar c cl =
      let c' := place c (80 * t.row 25 + t.cur.length) cl
      if (c.cursor + 1).slt 2000 then some (setCursor c' (c.cursor + 1))
      else some (isLineFeed c' (c.cursor + 1)) := by
    unfold putChar
    dsimp only
    rw [if_neg hcr, if_neg hlf, if_neg hbs]
    exact place_eq (by omega) hcur
      (fun c' bx => if (bx + 1).slt 2000 then some (setCursor c' (bx + 1))
        else some (isLineFeed c' (bx + 1)))
  rw [hput, slt_2000 (by rw [hnext]; omega), hnext]
  dsimp only
  unfold Transcript.put
  -- Either the line has room, or it is full: then the screen scrolls if it is the last one.
  by_cases hfull : t.cur.length + 1 < 80
  · rw [if_pos (by rw [decide_eq_true_eq]; omega), if_pos hfull]
    refine ⟨_, rfl, by rw [hlen]; exact hfull, ?_, hcells⟩
    rw [hrow', hlen]
    exact hnext
  · rw [if_neg hfull]
    by_cases hlast : t.row 25 = 24
    · rw [if_neg (by rw [decide_eq_true_eq]; omega)]
      refine ⟨_, rfl, isLineFeed_shows hcells ?_ (Or.inr ⟨by omega, by rw [hrow']; exact hlast⟩)⟩
      rw [hnext, hrow', hlen]
      omega
    · rw [if_pos (by rw [decide_eq_true_eq]; omega)]
      refine ⟨_, rfl, newline_room hcells ?_ ?_⟩
      · have hdone : (t.extend cl).done.length = t.done.length := rfl
        rw [Transcript.lines_length, hdone]
        unfold Transcript.row Transcript.above at hlast hrow
        rw [Transcript.lines_length] at hlast hrow
        omega
      · rw [hnext, hrow']
        omega

/-- A backspace takes back the last character of the line. -/
theorem backspace_shows (h : Shows c t) (hne : t.cur ≠ []) :
    ∃ c', putChar c 0x08 = some c' ∧ Shows c' ⟨t.done, t.cur.dropLast⟩ := by
  -- The text that is left; the old one is this with a character more.
  obtain ⟨t', ht'⟩ : ∃ t' : Transcript Byte, t' = ⟨t.done, t.cur.dropLast⟩ := ⟨_, rfl⟩
  have hext : t = t'.extend (t.cur.getLast hne) := by
    rw [ht', Transcript.extend, List.dropLast_append_getLast hne]
  have hrow : t.row 25 = t'.row 25 := by
    rw [ht']
    unfold Transcript.row Transcript.above
    rw [Transcript.lines_length, Transcript.lines_length]
  have hlen : t.cur.length = t'.cur.length + 1 := by
    have hpos := List.length_pos_of_ne_nil hne
    rw [ht', List.length_dropLast]
    omega
  have hfits := h.fits
  have hrow₂ := row_lt t'
  have hback : (c.cursor - 1).toNat = 80 * t'.row 25 + t'.cur.length := by
    have h1 : (1 : BitVec 16).toNat = 1 := rfl
    have hcur := h.cursor
    rw [BitVec.toNat_sub, h1]
    omega
  have hput : putChar c 0x08 =
      some (setCursor (place c (80 * t'.row 25 + t'.cur.length) 0x20) (c.cursor - 1)) := by
    unfold putChar
    dsimp only
    rw [if_neg (by decide), if_neg (by decide), if_pos rfl]
    exact place_eq (by omega) hback (fun c' bx => some (setCursor c' bx))
  rw [← ht']
  refine ⟨_, hput, by omega, hback, fun i j hi hj => ?_⟩
  rcases place_vram (c := c) (k := 80 * t'.row 25 + t'.cur.length) 0x20 (80 * i + j)
    with ⟨hcode, hattr⟩
  rcases h.cells i j hi hj with ⟨hcode', hattr'⟩
  rw [hext, Transcript.cell_extend (by decide)] at hcode'
  have hiff := place_iff (i := i) (r := t'.row 25) (k := t'.cur.length) hj (by omega)
  refine ⟨hcode.trans ?_, hattr.trans (by rw [hattr', ite_self])⟩
  -- The cell of the cursor gets a blank, which is what is shown behind the end of a line.
  by_cases hplace : i = t'.row 25 ∧ j = t'.cur.length
  · rw [if_pos (hiff.mpr hplace), hplace.1, hplace.2, Transcript.cell_end (by decide)]
  · rw [if_neg fun heq => hplace (hiff.mp heq), hcode', if_neg hplace]

/-- A backspace in the first place of the screen is a fault. -/
theorem putChar_home (h : c.cursor = 0) : putChar c 0x08 = none := by
  unfold putChar
  dsimp only
  rw [if_neg (by decide), if_neg (by decide), if_pos rfl, h]
  rfl

/-- A character and the transcript. -/
theorem putChar_shows (h : Shows c t) {cl : Byte} (hbs : cl = 0x08 → t.cur ≠ []) :
    ∃ c', putChar c cl = some c' ∧ Shows c' (typedChar t cl) := by
  unfold typedChar
  by_cases hnl : cl = 0x0d ∨ cl = 0x0a
  · rw [if_pos hnl]
    have hput : putChar c cl = some (isLineFeed c c.cursor) := by
      unfold putChar
      dsimp only
      by_cases hcr : cl = 0x0d
      · rw [if_pos hcr]
        rfl
      · rw [if_neg hcr, if_pos (hnl.resolve_left hcr)]
        rfl
    exact ⟨_, hput, isLineFeed_shows h.cells h.cursor (Or.inl h.fits)⟩
  · rw [if_neg hnl]
    rw [not_or] at hnl
    by_cases hb : cl = 0x08
    · rw [if_pos hb, hb]
      exact backspace_shows h (hbs hb)
    · rw [if_neg hb]
      exact putOther_shows h hnl.1 hnl.2 hb

end

/-! ## Strings -/

/-- Every backspace has something to take back. -/
def RubsOut : Transcript Byte → Str → Prop
  | _, [] => True
  | t, cl :: str => (cl = 0x08 → t.cur ≠ []) ∧ RubsOut (typedChar t cl) str

/-- A string and the transcript. -/
theorem putStr_shows {c : Console} {t : Transcript Byte} (h : Shows c t) {str : Str}
    (hr : RubsOut t str) : ∃ c', putStr c str = some c' ∧ Shows c' (typedText t str) := by
  induction str generalizing c t with
  | nil => exact ⟨c, rfl, h⟩
  | cons cl str ih =>
      rcases putChar_shows h hr.1 with ⟨c₁, hput, h₁⟩
      rcases ih h₁ hr.2 with ⟨c₂, hput₂, h₂⟩
      refine ⟨c₂, ?_, h₂⟩
      rw [putStr, hput]
      exact hput₂

/-- Any screen, once it is cleared. -/
theorem clsScreen_shows (c : Console) : Shows (clsScreen c) .empty := by
  refine ⟨by decide, rfl, fun i j hi hj => ?_⟩
  unfold clsScreen setCursor
  dsimp only
  rw [cls_eq, cls_eq, if_pos (by omega), if_pos (by omega), if_pos (by omega), if_neg (by omega)]
  refine ⟨?_, rfl⟩
  exact Transcript.cell_empty.symm

theorem putStr_shows_clear : ∃ c', putStr (clsScreen ⟨fun _ => 0, 0⟩) [0x61, 0x08, 0x0a] = some c' ∧
    Shows c' (typedText .empty [0x61, 0x08, 0x0a]) :=
  putStr_shows (clsScreen_shows _) ⟨by decide, by decide, by decide, trivial⟩

/-! ## Numbers -/

/-- One digit. -/
theorem hexDigit_eq (eax : Word) :
    (if 9 < (eax &&& 0x0000000f).toInt then (eax &&& 0x0000000f) - 10 + 0x41
      else (eax &&& 0x0000000f) + 0x30).setWidth 8 = symbolOf (eax.toNat % 16) := by
  have hm : (eax &&& 0x0000000f).toNat = eax.toNat % 16 := by
    rw [BitVec.toNat_and]
    exact Nat.and_two_pow_sub_one_eq_mod eax.toNat 4
  have hlt : (eax &&& 0x0000000f).toNat < 16 := by
    rw [hm]
    exact Nat.mod_lt _ (by decide)
  have hint : (eax &&& 0x0000000f).toInt = (eax &&& 0x0000000f).toNat :=
    BitVec.toInt_eq_toNat_of_lt (by omega)
  rw [← hm, ← symbolOf_word (by omega), hint]
  have h10 : (eax &&& 0x0000000f) < 10 ↔ (eax &&& 0x0000000f).toNat < 10 := Iff.rfl
  by_cases h : (eax &&& 0x0000000f).toNat < 10
  · rw [if_neg (by omega), if_pos (h10.mpr h)]
  · rw [if_pos (by omega), if_neg (h10.not.mpr h)]

theorem hexDigits_append (n : Nat) (eax : Word) (buffer : List Byte) :
    hexDigits n eax buffer = hexDigits n eax [] ++ buffer := by
  induction n generalizing eax buffer with
  | zero => rfl
  | succ n ih =>
      rw [hexDigits, hexDigits, ih, ih _ [_], List.append_assoc]
      rfl

/-- The digits, with the last one apart. -/
theorem hexDigits_succ (n : Nat) (eax : Word) :
    hexDigits (n + 1) eax [] = hexDigits n (eax >>> 4) [] ++ [symbolOf (eax.toNat % 16)] := by
  rw [hexDigits, hexDigits_append, hexDigit_eq]

theorem toNat_shift_four (eax : Word) : (eax >>> 4).toNat = eax.toNat / 16 := by
  rw [BitVec.toNat_ushiftRight, Nat.shiftRight_eq_div_pow]

/-- The first loop leaves the number, with zeros in front. -/
theorem hexDigits_value (n : Nat) (eax : Word) (h : eax.toNat < 16 ^ n) :
    valueOf readSymbol 16 (hexDigits n eax []) = eax.toNat := by
  induction n generalizing eax with
  | zero =>
      rw [Nat.pow_zero] at h
      rw [hexDigits]
      exact (Nat.lt_one_iff.mp h).symm
  | succ n ih =>
      have hlt : (eax >>> 4).toNat < 16 ^ n := by
        rw [toNat_shift_four]
        exact Nat.div_lt_of_lt_mul (by rwa [Nat.pow_succ, Nat.mul_comm] at h)
      have hmod : eax.toNat % 16 < 36 := Nat.lt_trans (Nat.mod_lt _ (by decide)) (by decide)
      rw [hexDigits_succ, valueOf_snoc, ih _ hlt, readSymbol_symbolOf hmod, toNat_shift_four]
      exact Nat.div_add_mod' eax.toNat 16

theorem hexDigits_symbols (n : Nat) (eax : Word) :
    ∀ cl ∈ hexDigits n eax [], ∃ d, d < 16 ∧ symbolOf d = cl := by
  induction n generalizing eax with
  | zero =>
      intro cl hcl
      cases hcl
  | succ n ih =>
      intro cl hcl
      rw [hexDigits_succ, List.mem_append, List.mem_singleton] at hcl
      rcases hcl with hcl | rfl
      · exact ih _ cl hcl
      · exact ⟨_, Nat.mod_lt _ (by decide), rfl⟩

/-- Zeros in front are passed over, but for the last digit of all. -/
theorem skipPrefix0_canonical (s : List Byte)
    (hs : ∀ cl ∈ s, ∃ d, d < 16 ∧ symbolOf d = cl) :
    CanonicalNumeral symbolOf 16 (skipPrefix0 s) ∧
      valueOf readSymbol 16 (skipPrefix0 s) = valueOf readSymbol 16 s := by
  induction s with
  | nil =>
      refine ⟨⟨by decide, fun cl hcl => ?_, fun _ => rfl⟩, rfl⟩
      rw [skipPrefix0, List.mem_singleton] at hcl
      exact ⟨0, by decide, hcl.symm⟩
  | cons cl s ih =>
      rw [skipPrefix0]
      by_cases h0 : cl = 0x30
      · rw [if_pos h0, h0]
        exact ih fun x hx => hs x (List.mem_cons_of_mem _ hx)
      · rw [if_neg h0]
        refine ⟨⟨List.cons_ne_nil cl s, hs, fun hhead => ?_⟩, rfl⟩
        rw [List.head?_cons, Option.some.injEq] at hhead
        exact absurd hhead h0

/-- `put_int` puts the numeral of a number in base 16. -/
theorem putInt_eq (c : Console) (num : Word) :
    putInt c num = putStr c (numeralOf symbolOf 16 num.toNat) := by
  rcases skipPrefix0_canonical _ (hexDigits_symbols 8 num) with ⟨hcanon, hvalue⟩
  rw [hexDigits_value 8 num num.isLt] at hvalue
  have hread : ∀ d, d < 16 → readSymbol (symbolOf d) = d :=
    fun d hd => readSymbol_symbolOf (Nat.lt_trans hd (by decide))
  have hnum := numeralOf_valueOf (by decide) hread hcanon
  rw [hvalue] at hnum
  rw [putInt, hnum]

end ForikOS
