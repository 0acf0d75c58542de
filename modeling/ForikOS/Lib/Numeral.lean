import Mathlib.Data.Nat.Digits.Defs
import Mathlib.Data.Nat.Digits.Lemmas

/-!
# Numerals

The numeral of a number in a base: its digits, the most significant one first,
each written as a symbol. Zero is the only number whose numeral begins with the
symbol of zero.

The symbols are arbitrary, as long as the digits below the base can be told
apart: there is a function that reads them. Then a numeral can be read, and
among the sequences of symbols without a zero in front the numeral is the only
one that is read as its number.

## Main definitions

* `numeralOf`: The numeral of a number.
* `valueOf`: What a sequence of symbols is read as.
* `CanonicalNumeral`: A sequence of symbols without a zero in front.

## Theorems

* `numeralOf_eq`: The last digit comes off the end.
* `valueOf_numeralOf`: A numeral is read as its number.
* `numeralOf_inj`: Two numbers have two numerals.
* `numeralOf_canonical`, `numeralOf_valueOf`: It is the canonical sequence that
  is read so.
-/

namespace ForikOS

variable {α : Type}

/-- The numeral of `n`, the most significant digit first. -/
def numeralOf (symbol : Nat → α) (base n : Nat) : List α :=
  if n = 0 then [symbol 0] else (Nat.digits base n).reverse.map symbol

/-- Read symbols from left to right. -/
def valueOf (read : α → Nat) (base : Nat) (s : List α) : Nat :=
  s.foldl (fun v c => v * base + read c) 0

/-- Symbols of digits, of which the first is not a zero unless it is the only
    one. -/
structure CanonicalNumeral (symbol : Nat → α) (base : Nat) (s : List α) : Prop where
  nonempty : s ≠ []
  symbols : ∀ c, c ∈ s → ∃ d, d < base ∧ symbol d = c
  leading : s.head? = some (symbol 0) → s = [symbol 0]

section Numerals

variable {symbol : Nat → α} {base : Nat}

/-- The last digit comes off the end. -/
theorem numeralOf_eq (symbol : Nat → α) (hbase : 1 < base) (n : Nat) : numeralOf symbol base n =
    (if n / base ≠ 0 then numeralOf symbol base (n / base) else []) ++ [symbol (n % base)] := by
  unfold numeralOf
  by_cases hn : n = 0
  · rw [if_pos hn, hn, Nat.zero_div, if_neg (fun h => h rfl), Nat.zero_mod, List.nil_append]
  · rw [if_neg hn, Nat.digits_def' hbase (Nat.pos_of_ne_zero hn), List.reverse_cons,
      List.map_append, List.map_singleton]
    by_cases hi : n / base = 0
    · rw [hi, Nat.digits_zero, if_neg (fun h => h rfl)]
      rfl
    · rw [if_pos hi, if_neg hi]

theorem numeralOf_ne_nil (hbase : 1 < base) (n : Nat) : numeralOf symbol base n ≠ [] := by
  rw [numeralOf_eq symbol hbase]
  exact List.append_ne_nil_of_right_ne_nil _ (List.cons_ne_nil _ _)

theorem mem_numeralOf (hbase : 1 < base) {n : Nat} {c : α} (h : c ∈ numeralOf symbol base n) :
    ∃ d, d < base ∧ symbol d = c := by
  unfold numeralOf at h
  by_cases hn : n = 0
  · rw [if_pos hn, List.mem_singleton] at h
    exact ⟨0, Nat.zero_lt_of_lt hbase, h.symm⟩
  · rw [if_neg hn, List.mem_map] at h
    rcases h with ⟨d, hd, hc⟩
    exact ⟨d, Nat.digits_lt_base hbase (List.mem_reverse.mp hd), hc⟩

/-- Only the symbols of digits below the base matter. -/
theorem numeralOf_congr {symbol' : Nat → α} (hbase : 1 < base)
    (h : ∀ d, d < base → symbol d = symbol' d) (n : Nat) :
    numeralOf symbol base n = numeralOf symbol' base n := by
  unfold numeralOf
  by_cases hn : n = 0
  · rw [if_pos hn, if_pos hn, h 0 (Nat.zero_lt_of_lt hbase)]
  · rw [if_neg hn, if_neg hn]
    exact List.map_congr_left (fun d hd => h d (Nat.digits_lt_base hbase (List.mem_reverse.mp hd)))

variable {read : α → Nat}

theorem valueOf_snoc (s : List α) (c : α) :
    valueOf read base (s ++ [c]) = valueOf read base s * base + read c := by
  rw [valueOf, List.foldl_append]
  rfl

/-- A numeral is read as its number. -/
theorem valueOf_numeralOf (hbase : 1 < base) (hread : ∀ d, d < base → read (symbol d) = d)
    (n : Nat) : valueOf read base (numeralOf symbol base n) = n := by
  -- The digits in front of the last are those of a smaller number.
  induction n using Nat.strongRecOn with
  | _ n ih =>
      have hlast := hread (n % base) (Nat.mod_lt n (Nat.zero_lt_of_lt hbase))
      have hsplit := Nat.div_add_mod' n base
      rw [numeralOf_eq symbol hbase, valueOf_snoc, hlast]
      by_cases hi : n / base = 0
      · rw [if_neg (fun h => h hi)]
        rw [hi] at hsplit
        exact hsplit
      · have hpos : 0 < n := Nat.pos_of_ne_zero (fun hn => hi (by rw [hn, Nat.zero_div]))
        rw [if_pos hi, ih (n / base) (Nat.div_lt_self hpos hbase)]
        exact hsplit

theorem numeralOf_inj (hbase : 1 < base) (hread : ∀ d, d < base → read (symbol d) = d)
    {n n' : Nat} (h : numeralOf symbol base n = numeralOf symbol base n') : n = n' := by
  rw [← valueOf_numeralOf hbase hread n, h, valueOf_numeralOf hbase hread n']

/-- The digit of a symbol is the only one. -/
theorem symbol_eq_zero (hread : ∀ d, d < base → read (symbol d) = d) {d : Nat} (hd : d < base)
    (h : symbol d = symbol 0) : d = 0 := by
  have hzero := hread 0 (Nat.zero_lt_of_lt hd)
  rw [← h, hread d hd] at hzero
  exact hzero

/-- The first digit of a number is not a zero, unless the number is. -/
theorem numeralOf_canonical (hbase : 1 < base) (hread : ∀ d, d < base → read (symbol d) = d)
    (n : Nat) : CanonicalNumeral symbol base (numeralOf symbol base n) := by
  refine ⟨numeralOf_ne_nil hbase n, fun c hc => mem_numeralOf hbase hc, fun h => ?_⟩
  unfold numeralOf at h ⊢
  by_cases hn : n = 0
  · rw [if_pos hn]
  · rw [if_neg hn, List.head?_map, List.head?_reverse,
      List.getLast?_eq_some_getLast (Nat.digits_ne_nil_iff_ne_zero.mpr hn), Option.map_some,
      Option.some.injEq] at h
    have hlt := Nat.digits_lt_base hbase
      (List.getLast_mem (Nat.digits_ne_nil_iff_ne_zero.mpr hn : Nat.digits base n ≠ []))
    exact absurd (symbol_eq_zero hread hlt h) (Nat.getLast_digit_ne_zero base hn)

/-- A sequence without a zero in front is the numeral of what it is read as. -/
theorem numeralOf_valueOf (hbase : 1 < base) (hread : ∀ d, d < base → read (symbol d) = d)
    {s : List α} (hs : CanonicalNumeral symbol base s) :
    numeralOf symbol base (valueOf read base s) = s := by
  -- One symbol, or a canonical sequence and the last symbol.
  induction s using List.reverseRecOn with
  | nil => exact absurd rfl hs.nonempty
  | append_singleton s c ih =>
      rcases hs.symbols c (List.mem_append_right s (List.mem_singleton_self c)) with ⟨d, hd, rfl⟩
      have hdiv : (valueOf read base s * base + d) / base = valueOf read base s := by
        rw [Nat.add_comm, Nat.add_mul_div_right _ _ (Nat.zero_lt_of_lt hbase), Nat.div_eq_of_lt hd,
          Nat.zero_add]
      have hmod : (valueOf read base s * base + d) % base = d := by
        rw [Nat.mul_add_mod', Nat.mod_eq_of_lt hd]
      rw [valueOf_snoc, hread d hd, numeralOf_eq symbol hbase, hdiv, hmod]
      by_cases hnil : s = []
      · rw [hnil]
        rfl
      · -- More than one symbol, so the first is not a zero.
        have hhead : s.head? ≠ some (symbol 0) := by
          intro h
          have hone := hs.leading (by rw [List.head?_append_of_ne_nil _ hnil]; exact h)
          rcases List.append_eq_singleton_iff.mp hone with ⟨hc, -⟩ | ⟨-, hc⟩
          · exact hnil hc
          · cases hc
        have hfront := ih ⟨hnil, fun c hc => hs.symbols c (List.mem_append_left _ hc),
          fun h => absurd h hhead⟩
        have hvalue : valueOf read base s ≠ 0 := by
          intro hzero
          rw [hzero] at hfront
          exact hhead (by rw [← hfront]; rfl)
        rw [hfront, if_pos hvalue]

end Numerals

end ForikOS
