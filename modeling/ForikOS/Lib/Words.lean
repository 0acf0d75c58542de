import Mathlib.Data.List.Basic
import Mathlib.Data.List.Pairwise

/-!
# Words

The words of a sequence: its maximal parts without a separator.

A sequence begins with a separator, which does not belong to a word, or with a
word, which goes on up to the next separator or to the end. These are the cases
in which something that reads a sequence from left to right sees it.

What the words are can be said without reading: a part of the sequence that has
no separator in it, but one on either side unless it is at the end there. The
list of the words has all such parts, in the order of their positions.

## Main definitions

* `wordsOf`: The words of a sequence.
* `WordAt`, `AreWords`: What they are.

## Theorems

* `wordsOf_separator`: A separator in front.
* `wordsOf_word`, `wordsOf_word_append`: A word in front.
* `separator_induction`: Induction on the separators.
* `AreWords.unique`, `areWords_wordsOf`: The words are the maximal parts without a
  separator.
-/

namespace ForikOS

variable {α : Type} {sep : α} {w s x y : List α} {i : Nat}

/-- What lies between the separators, without the empty pieces. -/
def wordsOf [DecidableEq α] (sep : α) (s : List α) : List (List α) :=
  (s.splitOn sep).filter (fun w => !w.isEmpty)

/-- A part of the sequence from position `i` on that is not empty and has no
    separator in it, but one or the end of the sequence on either side. -/
structure WordAt (sep : α) (s : List α) (i : Nat) (w : List α) : Prop where
  nonempty : w ≠ []
  free : sep ∉ w
  maximal : ∃ x y, s = x ++ (w ++ y) ∧ x.length = i ∧ (x = [] ∨ ∃ x', x = x' ++ [sep]) ∧
    (y = [] ∨ ∃ y', y = sep :: y')

/-- All such parts of the sequence, in the order of their positions. -/
def AreWords (sep : α) (s : List α) (ws : List (List α)) : Prop :=
  ∃ ps : List (Nat × List α), ps.map Prod.snd = ws ∧ ps.Pairwise (fun a b => a.1 < b.1) ∧
    ∀ i w, (i, w) ∈ ps ↔ WordAt sep s i w

/-- A sequence has no separator, or it has a first one. -/
theorem separator_induction (sep : α) {motive : List α → Prop} (one : ∀ x, sep ∉ x → motive x)
    (more : ∀ x y, sep ∉ x → motive y → motive (x ++ sep :: y)) (s : List α) : motive s := by
  induction hn : s.length using Nat.strongRecOn generalizing s with
  | _ n ih =>
      by_cases hs : sep ∈ s
      · rcases List.eq_append_cons_of_mem hs with ⟨x, y, rfl, hx⟩
        refine more x y hx (ih y.length ?_ y rfl)
        rw [← hn, List.length_append, List.length_cons]
        omega
      · exact one s hs

section Maximal

/-- A sequence without a separator is its only word, unless it is empty. -/
theorem wordAt_iff_of_not_mem (hs : sep ∉ s) : WordAt sep s i w ↔ w ≠ [] ∧ i = 0 ∧ w = s := by
  constructor
  · intro h
    obtain ⟨x, y, rfl, rfl, hx, hy⟩ := h.maximal
    rw [List.mem_append, List.mem_append, not_or, not_or] at hs
    have hx : x = [] := by
      rcases hx with hx | ⟨x', rfl⟩
      · exact hx
      · exact absurd (List.mem_append_right x' (List.mem_singleton_self sep)) hs.1
    have hy : y = [] := by
      rcases hy with hy | ⟨y', rfl⟩
      · exact hy
      · exact absurd List.mem_cons_self hs.2.2
    rw [hx, hy, List.nil_append, List.append_nil]
    exact ⟨h.nonempty, rfl, rfl⟩
  · rintro ⟨hw, rfl, rfl⟩
    exact ⟨hw, hs, [], [], (List.append_nil w).symm, rfl, Or.inl rfl, Or.inl rfl⟩

/-- What is in front of the first separator. -/
theorem eq_of_append_separator {x' y' : List α} (hx : sep ∉ x) (hx' : sep ∉ x')
    (h : x ++ sep :: y = x' ++ sep :: y') : x = x' := by
  induction x generalizing x' with
  | nil =>
      cases x' with
      | nil => rfl
      | cons c x' =>
          rw [List.nil_append, List.cons_append, List.cons.injEq] at h
          exact absurd (h.1 ▸ List.mem_cons_self) hx'
  | cons c x ih =>
      cases x' with
      | nil =>
          rw [List.nil_append, List.cons_append, List.cons.injEq] at h
          exact absurd (h.1 ▸ List.mem_cons_self) hx
      | cons d x' =>
          rw [List.cons_append, List.cons_append, List.cons.injEq] at h
          rw [List.mem_cons, not_or] at hx hx'
          rw [h.1, ih hx.2 hx'.2 h.2]

/-- The words in front of the first separator, and those behind it. -/
theorem wordAt_append (hx : sep ∉ x) : WordAt sep (x ++ sep :: y) i w ↔
    WordAt sep x i w ∨ ∃ j, i = x.length + 1 + j ∧ WordAt sep y j w := by
  constructor
  · intro h
    rcases h.maximal with ⟨u, v, heq, rfl, hu, hv⟩
    rcases List.append_eq_append_iff.mp heq with ⟨a, rfl, ha⟩ | ⟨c, hc, hw⟩
    · -- The separator is in front of the word, and it is the one next to it or not.
      right
      cases a with
      | nil =>
          rw [List.nil_append] at ha
          cases hw : w with
          | nil => exact absurd hw h.nonempty
          | cons d w' =>
              rw [hw, List.cons_append, List.cons.injEq] at ha
              exact absurd (by rw [hw, ha.1]; exact List.mem_cons_self) h.free
      | cons d a =>
          rw [List.cons_append, List.cons.injEq] at ha
          refine ⟨a.length, ?_, h.nonempty, h.free, a, v, ha.2, rfl, ?_, hv⟩
          · rw [List.length_append, List.length_cons]
            omega
          · rcases List.eq_nil_or_concat' a with rfl | ⟨a', e, rfl⟩
            · exact Or.inl rfl
            · rcases hu with hu | ⟨u', hu⟩
              · exact absurd hu (List.append_ne_nil_of_right_ne_nil _ (List.cons_ne_nil _ _))
              · have hlast := congrArg List.getLast? hu
                rw [← List.cons_append, ← List.append_assoc, List.getLast?_concat,
                  List.getLast?_concat, Option.some.injEq] at hlast
                exact Or.inr ⟨a', by rw [hlast]⟩
    · -- The word is in front of the separator, where there is no other.
      left
      have hnil : u = [] := by
        rcases hu with hu | ⟨u', rfl⟩
        · exact hu
        · rw [hc] at hx
          exact absurd (List.mem_append_left _ (List.mem_append_right _
            (List.mem_singleton_self sep))) hx
      rw [hnil, List.nil_append] at hc
      rw [hnil]
      have hword : w = x := by
        rcases hv with rfl | ⟨v', rfl⟩
        · rw [List.append_nil] at hw
          exact absurd (by rw [hw]; exact List.mem_append_right _ List.mem_cons_self) h.free
        · exact eq_of_append_separator h.free hx (by rw [hw, hc])
      exact (wordAt_iff_of_not_mem hx).mpr ⟨h.nonempty, rfl, hword⟩
  · rintro (h | ⟨j, rfl, h⟩)
    · rcases (wordAt_iff_of_not_mem hx).mp h with ⟨hw, rfl, rfl⟩
      exact ⟨hw, hx, [], sep :: y, rfl, rfl, Or.inl rfl, Or.inr ⟨y, rfl⟩⟩
    · rcases h.maximal with ⟨u, v, rfl, rfl, hu, hv⟩
      refine ⟨h.nonempty, h.free, x ++ sep :: u, v, ?_, ?_, Or.inr ?_, hv⟩
      · rw [List.append_assoc, List.cons_append]
      · rw [List.length_append, List.length_cons]
        omega
      · rcases hu with rfl | ⟨u', rfl⟩
        · exact ⟨x, rfl⟩
        · exact ⟨x ++ sep :: u', by rw [List.append_assoc, List.cons_append]⟩

/-- There is one list of words. -/
theorem AreWords.unique {ws ws' : List (List α)} (h : AreWords sep s ws) (h' : AreWords sep s ws') :
    ws = ws' := by
  rcases h with ⟨ps, rfl, hsorted, hmem⟩
  rcases h' with ⟨qs, rfl, hsorted', hmem'⟩
  have hnodup : ∀ {rs : List (Nat × List α)}, rs.Pairwise (fun a b => a.1 < b.1) → rs.Nodup := by
    intro rs hrs
    refine List.Pairwise.imp ?_ hrs
    rintro a b hlt rfl
    exact Nat.lt_irrefl _ hlt
  have hperm : ps.Perm qs := (List.perm_ext_iff_of_nodup (hnodup hsorted) (hnodup hsorted')).mpr
    (fun a => (hmem a.1 a.2).trans (hmem' a.1 a.2).symm)
  rw [hperm.eq_of_pairwise (fun a b _ _ h1 h2 => absurd h1 (Nat.lt_asymm h2)) hsorted hsorted']

end Maximal

section Words

variable [DecidableEq α]

theorem wordsOf_nil (sep : α) : wordsOf sep [] = [] := rfl

theorem wordsOf_append (sep : α) (s t : List α) :
    wordsOf sep (s ++ sep :: t) = wordsOf sep s ++ wordsOf sep t := by
  rw [wordsOf, List.splitOn_append_cons_self, List.filter_append]
  rfl

theorem wordsOf_separator (sep : α) (s : List α) : wordsOf sep (sep :: s) = wordsOf sep s :=
  wordsOf_append sep [] s

/-- A sequence without a separator is one word. -/
theorem wordsOf_word (hw : w ≠ []) (hsep : sep ∉ w) : wordsOf sep w = [w] := by
  rw [wordsOf, List.splitOn_eq_singleton hsep]
  exact List.filter_cons_of_pos (by simpa using hw)

theorem wordsOf_word_append (hw : w ≠ []) (hsep : sep ∉ w) (s : List α) :
    wordsOf sep (w ++ sep :: s) = w :: wordsOf sep s := by
  rw [wordsOf_append, wordsOf_word hw hsep]
  rfl

/-- The words of a sequence without a separator. -/
theorem areWords_of_not_mem (hs : sep ∉ s) : AreWords sep s (wordsOf sep s) := by
  by_cases hnil : s = []
  · refine ⟨[], by rw [hnil]; rfl, List.Pairwise.nil, fun i w => ?_⟩
    rw [wordAt_iff_of_not_mem hs, hnil]
    exact iff_of_false List.not_mem_nil (fun h => h.1 h.2.2)
  · refine ⟨[(0, s)], (wordsOf_word hnil hs).symm, List.pairwise_singleton _ _, fun i w => ?_⟩
    rw [wordAt_iff_of_not_mem hs, List.mem_singleton, Prod.mk.injEq]
    exact ⟨fun h => ⟨h.2 ▸ hnil, h⟩, fun h => h.2⟩

/-- The words are the maximal parts of a sequence without a separator. -/
theorem areWords_wordsOf (sep : α) (s : List α) : AreWords sep s (wordsOf sep s) := by
  induction s using separator_induction sep with
  | one x hx => exact areWords_of_not_mem hx
  | more x y hx ih =>
      rcases areWords_of_not_mem hx with ⟨ps, hps, hsorted, hmem⟩
      rcases ih with ⟨qs, hqs, hsorted', hmem'⟩
      -- The positions behind the separator are counted from there.
      refine ⟨ps ++ qs.map (fun q => (x.length + 1 + q.1, q.2)), ?_, ?_, fun i w => ?_⟩
      · rw [wordsOf_append, List.map_append, hps, List.map_map, ← hqs]
        rfl
      · refine List.pairwise_append.mpr ⟨hsorted, List.pairwise_map.mpr (hsorted'.imp ?_), ?_⟩
        · intro a b hlt
          exact Nat.add_lt_add_left hlt _
        · rintro ⟨j, v⟩ hp b hb
          rcases List.mem_map.mp hb with ⟨q, -, rfl⟩
          have hzero := ((wordAt_iff_of_not_mem hx).mp ((hmem j v).mp hp)).2.1
          dsimp only
          omega
      · rw [wordAt_append hx, List.mem_append, hmem, List.mem_map]
        refine or_congr_right ⟨?_, ?_⟩
        · rintro ⟨⟨j, v⟩, hq, heq⟩
          rw [Prod.mk.injEq] at heq
          exact ⟨j, heq.1.symm, heq.2 ▸ (hmem' j v).mp hq⟩
        · rintro ⟨j, rfl, hw⟩
          exact ⟨(j, w), (hmem' j w).mpr hw, rfl⟩

end Words

end ForikOS
