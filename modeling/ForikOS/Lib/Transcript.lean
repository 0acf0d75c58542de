import Mathlib.Data.List.GetD

/-!
# Text Behind a Window

A text that only grows at its end, in lines of a certain width, and a window of
a certain height onto its last lines.

A line that is full ends, so there are two ways to the next line. Both are
`newline`, and what it does to the window is one fact: the lines keep their
places while the window has room, and move up by one when it has none.

## Main definitions

* `Transcript`: The finished lines, and the line that is being written.
* `Transcript.put`, `Transcript.newline`: The text grows.
* `Transcript.cell`: What is to be seen at a place of the window.

## Theorems

* `Transcript.cell_newline_room`, `Transcript.cell_newline_full`: What is to be
  seen behind the end of a line.
* `Transcript.cell_extend`: What is to be seen behind another character.
* `Transcript.cell_end`: What is to be seen behind the end.
-/

namespace ForikOS

/-- The finished lines, and the line that is being written. -/
structure Transcript (α : Type) where
  done : List (List α)
  cur : List α
  deriving DecidableEq

namespace Transcript

variable {α : Type} {t : Transcript α} {height width i j : Nat} {blank a : α}

/-- Nothing. -/
def empty : Transcript α := ⟨[], []⟩

/-- All lines. -/
def lines (t : Transcript α) : List (List α) := t.done ++ [t.cur]

/-- The line ends. -/
def newline (t : Transcript α) : Transcript α := ⟨t.done ++ [t.cur], []⟩

/-- A character in the line. -/
def extend (t : Transcript α) (a : α) : Transcript α := ⟨t.done, t.cur ++ [a]⟩

/-- A character, which may fill the line. -/
def put (width : Nat) (t : Transcript α) (a : α) : Transcript α :=
  if t.cur.length + 1 < width then t.extend a else (t.extend a).newline

/-- How many lines are above the window. -/
def above (height : Nat) (t : Transcript α) : Nat := t.lines.length - height

/-- The row of the line that is being written. -/
def row (height : Nat) (t : Transcript α) : Nat := t.done.length - t.above height

/-- What is to be seen at a place of the window. -/
def cell (height : Nat) (blank : α) (t : Transcript α) (row col : Nat) : α :=
  (t.lines.getD (t.above height + row) []).getD col blank

theorem lines_length : t.lines.length = t.done.length + 1 := by
  rw [lines, List.length_append, List.length_singleton]

theorem getD_snoc {β : Type} (xs : List β) (x d : β) (k : Nat) :
    (xs ++ [x]).getD k d = if k = xs.length then x else xs.getD k d := by
  rcases Nat.lt_trichotomy k xs.length with hk | hk | hk
  · rw [List.getD_append _ _ _ _ hk, if_neg (Nat.ne_of_lt hk)]
  · rw [List.getD_append_right _ _ _ _ (Nat.le_of_eq hk.symm), if_pos hk, hk, Nat.sub_self,
      List.getD_cons_zero]
  · have hlen : (xs ++ [x]).length ≤ k := by
      rw [List.length_append, List.length_singleton]
      omega
    rw [List.getD_eq_default _ _ hlen, if_neg (Nat.ne_of_gt hk),
      List.getD_eq_default _ _ (Nat.le_of_lt hk)]

/-- An empty line is as good as none. -/
theorem newline_getD (k : Nat) : t.newline.lines.getD k [] = t.lines.getD k [] := by
  have hlines : t.newline.lines = t.lines ++ [[]] := rfl
  rw [hlines, getD_snoc]
  split
  · rename_i hk
    rw [hk, List.getD_eq_default _ _ (Nat.le_refl _)]
  · rfl

/-- The lines keep their places while there is room below. -/
theorem cell_newline_room (h : t.lines.length < height) :
    t.newline.cell height blank i j = t.cell height blank i j := by
  have hlen : t.newline.lines.length = t.lines.length + 1 := by
    rw [lines_length, newline, List.length_append, List.length_singleton, lines_length]
  rw [cell, cell, newline_getD, above, above, hlen]
  have h0 : t.lines.length - height = 0 := by omega
  have h1 : t.lines.length + 1 - height = 0 := by omega
  rw [h0, h1]

/-- Otherwise they move up. -/
theorem cell_newline_full (h : height ≤ t.lines.length) :
    t.newline.cell height blank i j = t.cell height blank (i + 1) j := by
  have hlen : t.newline.lines.length = t.lines.length + 1 := by
    rw [lines_length, newline, List.length_append, List.length_singleton, lines_length]
  rw [cell, cell, newline_getD, above, above, hlen]
  have hidx : t.lines.length + 1 - height + i = t.lines.length - height + (i + 1) := by omega
  rw [hidx]

/-- The last row is empty then. -/
theorem cell_newline_last (h : height ≤ t.lines.length) (hpos : 0 < height) :
    t.newline.cell height blank (height - 1) j = blank := by
  rw [cell_newline_full h, cell, above]
  have hlast : t.lines.getD (t.lines.length - height + (height - 1 + 1)) [] = [] :=
    List.getD_eq_default _ _ (by omega)
  rw [hlast, List.getD_nil]

/-- Another character is seen at the end of the last line. -/
theorem cell_extend (hpos : 0 < height) : (t.extend a).cell height blank i j =
    if i = t.row height ∧ j = t.cur.length then a else t.cell height blank i j := by
  have hlen : (t.extend a).lines.length = t.lines.length := by
    rw [lines_length, lines_length, extend]
  have habove : t.above height ≤ t.done.length := by
    rw [above, lines_length]
    omega
  have hrow : t.above height + i = t.done.length ↔ i = t.row height := by
    unfold row
    omega
  rw [cell, above, hlen, ← above, cell]
  have hnew : (t.extend a).lines = t.done ++ [t.cur ++ [a]] := rfl
  have hold : t.lines = t.done ++ [t.cur] := rfl
  rw [hnew, hold, getD_snoc, getD_snoc]
  by_cases hi : t.above height + i = t.done.length
  · rw [if_pos hi, if_pos hi, getD_snoc]
    have hi' : i = t.row height := hrow.mp hi
    by_cases hj : j = t.cur.length
    · rw [if_pos hj, if_pos ⟨hi', hj⟩]
    · rw [if_neg hj, if_neg fun h => hj h.2]
  · rw [if_neg hi, if_neg hi, if_neg fun h => hi (hrow.mpr h.1)]

/-- Nothing is to be seen behind the end. -/
theorem cell_end (hpos : 0 < height) :
    t.cell height blank (t.row height) t.cur.length = blank := by
  have hidx : t.above height + t.row height = t.done.length := by
    unfold row above
    rw [lines_length]
    omega
  rw [cell, hidx, lines, getD_snoc, if_pos rfl, List.getD_eq_default _ _ (Nat.le_refl _)]

theorem cell_empty : (empty : Transcript α).cell height blank i j = blank := by
  have hempty : ∀ k, ([[]] : List (List α)).getD k [] = [] := by
    intro k
    cases k <;> rfl
  rw [cell]
  unfold empty lines
  rw [List.nil_append, hempty, List.getD_nil]

end Transcript

end ForikOS
