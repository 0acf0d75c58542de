import ForikOS.Core.Stdio
import ForikOS.Lib.Numeral
import ForikOS.Lib.Terminated

/-!
# Numbers in Formatted Output

`itoa` has no place to store digits in. It calls itself for all digits but the
last, which come first, and then writes the last one where the call has left
the position. So every call appends a numeral, and the numeral of a number is
that of its quotient by the base with one more symbol behind it.

For `%d` a negative number is subtracted from zero. The result is an unsigned
word for `itoa`, which is the absolute value of every negative number, also of
the least one. That one is its own opposite, and its word is 2 to the 31.

## Main definitions

* `symbolOf`, `readSymbol`: The symbols of the digits, up to base 36.
* `signedNumeral`, `readSigned`: Numerals with a sign.
* `TextAppended`: Some text is written behind what is there.

## Theorems

* `itoa_appends`: `itoa` appends the numeral of a number.
* `convert_int`: `%d` appends the numeral of its argument.
* `numbers_exact`: The numerals are canonical, and can be read again.
-/

namespace ForikOS

/-- The symbol of a digit: `0` to `9`, and then `A` to `Z`. -/
def symbolOf (d : Nat) : Byte :=
  if d < 10 then BitVec.ofNat 8 (0x30 + d) else BitVec.ofNat 8 (0x41 + (d - 10))

/-- The digit of a symbol. -/
def readSymbol (c : Byte) : Nat :=
  if c.toNat < 0x41 then c.toNat - 0x30 else c.toNat - 0x41 + 10

/-- The decimal numeral of an integer, with a minus sign for a negative one. -/
def signedNumeral (v : Int) : Str :=
  (if v < 0 then [0x2d] else []) ++ numeralOf symbolOf 10 v.natAbs

/-- Read a decimal numeral with or without a minus sign. -/
def readSigned (s : Str) : Int :=
  if s.head? = some 0x2d then -(valueOf readSymbol 10 s.tail : Int) else valueOf readSymbol 10 s

/-- A text is written at the position, which is behind it then, and nothing else
    is written. -/
structure TextAppended (o o' : Out) (s : Str) : Prop where
  ptr : o'.ptr = o.ptr + s.length
  cells : CellsAt o'.str o.ptr s
  frame : ∀ x, x < o.ptr ∨ o.ptr + s.length ≤ x → o'.str x = o.str x

section TextAppended

variable {o o' o'' : Out} {s t : Str}

theorem TextAppended.refl (o : Out) : TextAppended o o [] := ⟨rfl, trivial, fun _ _ => rfl⟩

theorem textAppended_put (o : Out) (c : Byte) : TextAppended o (o.put c) [c] :=
  ⟨rfl, ⟨Function.update_self _ _ _, trivial⟩, fun x hx => Function.update_of_ne
    (by rw [List.length_singleton] at hx; omega) _ _⟩

/-- One text behind another. -/
theorem TextAppended.trans (h : TextAppended o o' s) (h' : TextAppended o' o'' t) :
    TextAppended o o'' (s ++ t) := by
  have hptr := h.ptr
  have hlen : (s ++ t).length = s.length + t.length := List.length_append
  refine ⟨?_, cellsAt_append.mpr ⟨h.cells.congr (fun x _ hx => h'.frame x (Or.inl ?_)), ?_⟩,
    fun x hx => ?_⟩
  · rw [h'.ptr, hlen]
    omega
  · omega
  · rw [← hptr]
    exact h'.cells
  · rw [hlen] at hx
    rw [h'.frame x (by omega), h.frame x (by omega)]

end TextAppended

section Symbols

theorem readSymbol_symbolOf {d : Nat} (hd : d < 36) : readSymbol (symbolOf d) = d := by
  revert d
  decide

/-- The symbols are letters and decimal digits. -/
theorem symbolOf_range {d : Nat} (hd : d < 36) : 0x30 ≤ (symbolOf d).toNat := by
  revert d
  decide

/-- The two cases of `itoa`. -/
theorem symbolOf_word {m : Word} (hm : m.toNat < 36) :
    (if m < 10 then (m + 0x30).setWidth 8 else (m - 10 + 0x41).setWidth 8) = symbolOf m.toNat := by
  have hall : ∀ d, d < 36 → (if (BitVec.ofNat 32 d) < 10 then (BitVec.ofNat 32 d + 0x30).setWidth 8
    else (BitVec.ofNat 32 d - 10 + 0x41).setWidth 8) = symbolOf d := by decide
  have hword := hall m.toNat hm
  rwa [BitVec.ofNat_toNat, BitVec.setWidth_eq] at hword

end Symbols

section Itoa

/-- `itoa` appends the numeral of a number. -/
theorem itoa_appends {base : Byte} (hbase : 1 < base.toNat) (hbase' : base.toNat ≤ 36)
    {value : Word} {fuel : Nat} (hfuel : value.toNat < 2 ^ fuel) (hpos : 0 < fuel) (o : Out) :
    ∃ o', itoa base fuel value o = some o' ∧
      TextAppended o o' (numeralOf symbolOf base.toNat value.toNat) := by
  -- Every call has at most half of the number left.
  induction fuel generalizing value with
  | zero => exact absurd hpos (Nat.lt_irrefl 0)
  | succ fuel ih =>
      have hwidth : (base.setWidth 32).toNat = base.toNat := by
        rw [BitVec.toNat_setWidth, Nat.mod_eq_of_lt (by omega)]
      have hmod : (value % base.setWidth 32).toNat = value.toNat % base.toNat := by
        rw [BitVec.toNat_umod, hwidth]
      have hdiv : (value / base.setWidth 32).toNat = value.toNat / base.toNat := by
        rw [BitVec.toNat_udiv, hwidth]
      have hsmall : (value % base.setWidth 32).toNat < 36 := by
        have hlt := Nat.mod_lt value.toNat (Nat.zero_lt_of_lt hbase)
        omega
      have hput : ∀ o' : Out, (if value % base.setWidth 32 < 10
          then o'.put ((value % base.setWidth 32 + 0x30).setWidth 8)
          else o'.put ((value % base.setWidth 32 - 10 + 0x41).setWidth 8)) =
          o'.put (symbolOf (value.toNat % base.toNat)) := by
        intro o'
        rw [← hmod, ← symbolOf_word hsmall]
        split <;> rfl
      have hzero : value / base.setWidth 32 ≠ 0 ↔ value.toNat / base.toNat ≠ 0 := by
        rw [← hdiv, ne_eq, ne_eq, ← BitVec.toNat_inj]
        rfl
      rw [itoa, numeralOf_eq symbolOf hbase]
      simp only [hput, hzero]
      by_cases hi : value.toNat / base.toNat = 0
      · -- No digit is in front of the first one.
        rw [if_neg (fun hne => hne hi), if_neg (fun hne => hne hi), List.nil_append]
        exact ⟨_, rfl, textAppended_put o _⟩
      · rw [if_pos hi, if_pos hi, ← hdiv]
        have hhalf : (value / base.setWidth 32).toNat < 2 ^ fuel := by
          rw [hdiv, Nat.div_lt_iff_lt_mul (Nat.zero_lt_of_lt hbase)]
          exact hfuel.trans_le (Nat.mul_le_mul_left (2 ^ fuel) hbase)
        have hfuel' : 0 < fuel := by
          refine Nat.pos_of_ne_zero (fun hf => hi ?_)
          rw [hf, Nat.pow_zero, Nat.lt_one_iff] at hhalf
          rw [← hdiv, hhalf]
        rcases ih hhalf hfuel' with ⟨o', hrun, happ⟩
        rw [hrun]
        exact ⟨_, rfl, happ.trans (textAppended_put o' _)⟩

/-- The number behind the minus sign. -/
theorem toNat_of_neg {v : Word} (h : v.toInt < 0) : (0 - v).toNat = v.toInt.natAbs := by
  have hlt := v.isLt
  have hzero : (0 : Word).toNat = 0 := rfl
  -- From 2 to the 31 on the word is read as negative, and that one stays where it is.
  rw [BitVec.toInt_eq_toNat_cond] at h ⊢
  rw [BitVec.toNat_sub, hzero]
  split at h
  · omega
  · rw [if_neg ‹_›]
    omega

theorem toNat_of_nonneg {v : Word} (h : ¬v.toInt < 0) : v.toNat = v.toInt.natAbs := by
  have hlt := v.isLt
  rw [BitVec.toInt_eq_toNat_cond] at h ⊢
  split at h
  · rw [if_pos ‹_›]
    omega
  · omega

/-- `%d` appends the numeral of its argument. -/
theorem convert_int (mem : Nat → Byte) (stack : Nat → Word) (f : Formatter) :
    ∃ out, convert mem stack 0x64 f = some ⟨out, f.indexPtr + 1, f.ap + 1⟩ ∧
      TextAppended f.out out (signedNumeral (stack (f.ap + 1)).toInt) := by
  have hten : 1 < (10 : Byte).toNat ∧ (10 : Byte).toNat ≤ 36 := by decide
  have hfuel : ∀ v : Word, v.toNat < 2 ^ (2 ^ 32) := fun v =>
    v.isLt.trans_le (Nat.pow_le_pow_right (by decide) (by decide))
  generalize hv : stack (f.ap + 1) = v
  dsimp only [convert]
  rw [if_neg (by decide), if_neg (by decide), if_pos rfl, hv, signedNumeral]
  by_cases hneg : v.toInt < 0
  · rcases itoa_appends hten.1 hten.2 (hfuel (0 - v)) (by decide) (f.out.put 0x2d) with
      ⟨o', hrun, happ⟩
    rw [if_pos hneg, if_pos hneg, hrun, ← toNat_of_neg hneg]
    exact ⟨o', rfl, (textAppended_put f.out 0x2d).trans happ⟩
  · rcases itoa_appends hten.1 hten.2 (hfuel v) (by decide) f.out with ⟨o', hrun, happ⟩
    rw [if_neg hneg, if_neg hneg, hrun, ← toNat_of_nonneg hneg]
    exact ⟨o', rfl, happ⟩

/-- A numeral with a sign is read as its integer. -/
theorem readSigned_signedNumeral (v : Int) : readSigned (signedNumeral v) = v := by
  have hread : ∀ d, d < 10 → readSymbol (symbolOf d) = d := fun d hd =>
    readSymbol_symbolOf (by omega)
  have hvalue := valueOf_numeralOf (by decide : 1 < 10) hread v.natAbs
  unfold signedNumeral readSigned
  by_cases hneg : v < 0
  · rw [if_pos hneg, List.singleton_append, List.head?_cons, if_pos rfl, List.tail_cons, hvalue]
    omega
  · -- A digit is not a minus sign.
    have hhead : (numeralOf symbolOf 10 v.natAbs).head? ≠ some 0x2d := by
      intro h
      rcases mem_numeralOf (by decide) (List.mem_of_mem_head? h) with ⟨d, hd, hc⟩
      have hrange := symbolOf_range (by omega : d < 36)
      rw [hc] at hrange
      exact absurd hrange (by decide)
    rw [if_neg hneg, List.nil_append, if_neg hhead, hvalue]
    omega

/-- For every base from 2 to 36 `itoa` appends the canonical numeral of its
    argument, from which the argument can be read, within 32 nested calls. `%d`
    appends the numeral of an integer with its sign. -/
theorem numbers_exact (base : Byte) (hbase : 2 ≤ base.toNat) (hbase' : base.toNat ≤ 36)
    (value : Word) (fuel : Nat) (hfuel : 32 ≤ fuel) :
    (∀ o, ∃ o', itoa base fuel value o = some o' ∧
      TextAppended o o' (numeralOf symbolOf base.toNat value.toNat)) ∧
    CanonicalNumeral symbolOf base.toNat (numeralOf symbolOf base.toNat value.toNat) ∧
    valueOf readSymbol base.toNat (numeralOf symbolOf base.toNat value.toNat) = value.toNat ∧
    (∀ value' : Word, numeralOf symbolOf base.toNat value'.toNat =
      numeralOf symbolOf base.toNat value.toNat → value' = value) ∧
    ∀ mem stack f, (∃ out, convert mem stack 0x64 f = some ⟨out, f.indexPtr + 1, f.ap + 1⟩ ∧
        TextAppended f.out out (signedNumeral (stack (f.ap + 1)).toInt)) ∧
      readSigned (signedNumeral (stack (f.ap + 1)).toInt) = (stack (f.ap + 1)).toInt := by
  have hread : ∀ d, d < base.toNat → readSymbol (symbolOf d) = d := fun d hd =>
    readSymbol_symbolOf (by omega)
  have hroom : value.toNat < 2 ^ fuel :=
    value.isLt.trans_le (Nat.pow_le_pow_right (by decide) hfuel)
  refine ⟨fun o => itoa_appends hbase hbase' hroom (by omega) o,
    numeralOf_canonical hbase hread value.toNat, valueOf_numeralOf hbase hread value.toNat,
    fun value' h => ?_, fun mem stack f => ⟨convert_int mem stack f, readSigned_signedNumeral _⟩⟩
  exact BitVec.eq_of_toNat_eq (numeralOf_inj hbase hread h)

/-- The largest word in base 36. -/
theorem numbers_exact_36 :
    (∀ o, ∃ o', itoa 36 32 0xffffffff o = some o' ∧
      TextAppended o o' (numeralOf symbolOf 36 0xffffffff)) ∧
    CanonicalNumeral symbolOf 36 (numeralOf symbolOf 36 0xffffffff) ∧
    valueOf readSymbol 36 (numeralOf symbolOf 36 0xffffffff) = 0xffffffff ∧
    (∀ value' : Word, numeralOf symbolOf 36 value'.toNat = numeralOf symbolOf 36 0xffffffff →
      value' = 0xffffffff) ∧
    ∀ mem stack f, (∃ out, convert mem stack 0x64 f = some ⟨out, f.indexPtr + 1, f.ap + 1⟩ ∧
        TextAppended f.out out (signedNumeral (stack (f.ap + 1)).toInt)) ∧
      readSigned (signedNumeral (stack (f.ap + 1)).toInt) = (stack (f.ap + 1)).toInt :=
  numbers_exact 36 (by decide) (by decide) 0xffffffff 32 (Nat.le_refl 32)

end Itoa

end ForikOS
