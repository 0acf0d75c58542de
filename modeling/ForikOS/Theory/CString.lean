import ForikOS.Core.CString
import ForikOS.Lib.Terminated
import Mathlib.Data.List.GetD

/-!
# What the String Functions Do

The functions of `lib/string.c` as functions on lists of bytes. A string in an
array is `TermAt`; what a function writes is said by the strings there are
afterwards and by the cells that are left alone.

The strings have fewer bytes than there are addresses. Every loop is followed
over the list of the bytes it has in front of it.

## Theorems

* `strlen_eq`, `stringAt_eq`: The length, and the string itself.
* `strcpy_spec`: The copy, and what it leaves alone.
* `strcat_spec`: A string behind another.
* `strcmp_eq_zero`: Equal strings.
* `strrchr_last`: The last slash, or the last of any other byte below 128.
-/

namespace ForikOS

variable {str dst src a b : Nat → Byte} {p q fuel : Nat} {s t : Str}

theorem strEnd_eq (h : TermAt str p s) (hfuel : s.length < fuel) :
    strEnd str fuel p = some (p + s.length) := by
  induction s generalizing p fuel with
  | nil =>
      obtain ⟨fuel, rfl⟩ := Nat.exists_eq_add_one.mpr (Nat.zero_lt_of_lt hfuel)
      rw [strEnd, if_pos (termAt_nil.mp h)]
      rfl
  | cons c s ih =>
      obtain ⟨fuel, rfl⟩ := Nat.exists_eq_add_one.mpr (Nat.zero_lt_of_lt hfuel)
      rcases termAt_cons.mp h with ⟨hc, hne, hrest⟩
      rw [List.length_cons] at hfuel ⊢
      rw [strEnd, if_neg (by rw [hc]; exact hne), ih hrest (by omega)]
      congr 1
      omega

/-- `strlen` is the length of the string. -/
theorem strlen_eq (h : TermAt str p s) (hlen : s.length < 2 ^ 32) : strlen str p = some s.length := by
  rw [strlen, strEnd_eq h hlen, Option.map_some, Nat.add_sub_cancel_left]

/-- What is printed of a string. -/
theorem stringAt_eq (h : TermAt str p s) (hlen : s.length < 2 ^ 32) : stringAt str p = some s := by
  rw [stringAt, strlen_eq h hlen, Option.map_some, h.cells.map_range]

theorem copyLoop_spec (dst : Nat → Byte) (p : Nat) (h : TermAt src q s) (hfuel : s.length < fuel) :
    ∃ dst', copyLoop src fuel q dst p = some dst' ∧ TermAt dst' p s ∧
      ∀ x, x < p ∨ p + s.length < x → dst' x = dst x := by
  induction s generalizing p q fuel dst with
  | nil =>
      obtain ⟨fuel, rfl⟩ := Nat.exists_eq_add_one.mpr (Nat.zero_lt_of_lt hfuel)
      have hzero := termAt_nil.mp h
      refine ⟨_, if_pos hzero, termAt_nil.mpr ?_, fun x hx => ?_⟩
      · rw [Function.update_self]
        exact hzero
      · rw [List.length_nil] at hx
        exact Function.update_of_ne (by omega) _ _
  | cons c s ih =>
      obtain ⟨fuel, rfl⟩ := Nat.exists_eq_add_one.mpr (Nat.zero_lt_of_lt hfuel)
      rcases termAt_cons.mp h with ⟨hc, hne, hrest⟩
      rw [List.length_cons] at hfuel
      rw [copyLoop, if_neg (by rw [hc]; exact hne)]
      have hrest' : s.length < fuel := by omega
      rcases ih (Function.update dst p (src q)) (p + 1) hrest hrest' with
        ⟨dst', hrun, hterm, hframe⟩
      refine ⟨dst', hrun, termAt_cons.mpr ⟨?_, hne, hterm⟩, fun x hx => ?_⟩
      · rw [hframe p (Or.inl (Nat.lt_succ_self p)), Function.update_self]
        exact hc
      · rw [List.length_cons] at hx
        rw [hframe x (by omega)]
        exact Function.update_of_ne (by omega) _ _

/-- `strcpy` copies the string with its terminator, and writes nothing else. -/
theorem strcpy_spec (dst : Nat → Byte) (p : Nat) (h : TermAt src q s) (hlen : s.length < 2 ^ 32) :
    ∃ dst', strcpy dst p src q = some dst' ∧ TermAt dst' p s ∧
      ∀ x, x < p ∨ p + s.length < x → dst' x = dst x :=
  copyLoop_spec dst p h hlen

/-- `strcat` puts the second string behind the first, and writes nothing
    else. -/
theorem strcat_spec (hd : TermAt dst p s) (hs : TermAt src q t) (hlen : s.length < 2 ^ 32)
    (hlen' : t.length < 2 ^ 32) :
    ∃ dst', strcat dst p src q = some dst' ∧ TermAt dst' p (s ++ t) ∧
      ∀ x, x < p + s.length ∨ p + s.length + t.length < x → dst' x = dst x := by
  rcases copyLoop_spec dst (p + s.length) hs hlen' with ⟨dst', hrun, hterm, hframe⟩
  refine ⟨dst', ?_, termAt_append.mpr ⟨⟨?_, hd.nonzero⟩, hterm⟩, hframe⟩
  · rw [strcat, strEnd_eq hd hlen, Option.bind_some, hrun]
  · exact hd.cells.congr (fun x _ hx => hframe x (Or.inl hx))

/-- The comparison of two bytes: zero if they are equal. -/
theorem sign_eq_zero (c d : Byte) :
    (if c.toInt < d.toInt then -1 else if d.toInt < c.toInt then 1 else 0) = (0 : Int) ↔ c = d := by
  rw [← BitVec.toInt_inj]
  by_cases hlt : c.toInt < d.toInt
  · rw [if_pos hlt]
    omega
  · rw [if_neg hlt]
    by_cases hgt : d.toInt < c.toInt
    · rw [if_pos hgt]
      omega
    · rw [if_neg hgt]
      omega

theorem compareLoop_spec (ha : TermAt a p s) (hb : TermAt b q t) (hfuel : s.length < fuel) :
    ∃ r, compareLoop a b fuel p q = some r ∧ (r = 0 ↔ s = t) := by
  induction s generalizing p q t fuel with
  | nil =>
      obtain ⟨fuel, rfl⟩ := Nat.exists_eq_add_one.mpr (Nat.zero_lt_of_lt hfuel)
      have hzero := termAt_nil.mp ha
      rw [compareLoop, if_neg (fun hc => hc.1 hzero), hzero]
      refine ⟨_, rfl, (sign_eq_zero 0 (b q)).trans ?_⟩
      cases t with
      | nil => exact ⟨fun _ => rfl, fun _ => (termAt_nil.mp hb).symm⟩
      | cons d t =>
          have hd := termAt_cons.mp hb
          exact ⟨fun hc => absurd (hd.1.symm.trans hc.symm) hd.2.1, fun hc => by cases hc⟩
  | cons c s ih =>
      obtain ⟨fuel, rfl⟩ := Nat.exists_eq_add_one.mpr (Nat.zero_lt_of_lt hfuel)
      rw [List.length_cons] at hfuel
      rcases termAt_cons.mp ha with ⟨hc, hne, hrest⟩
      by_cases hsame : c = b q
      · -- The loop goes on, and the second string has not ended either.
        rw [compareLoop, if_pos ⟨by rw [hc]; exact hne, hc.trans hsame⟩]
        cases t with
        | nil => exact absurd (hsame.trans (termAt_nil.mp hb)) hne
        | cons d t =>
            have hd := termAt_cons.mp hb
            have hrest' : s.length < fuel := by omega
            rcases ih hrest hd.2.2 hrest' with ⟨r, hrun, hr⟩
            refine ⟨r, hrun, hr.trans ?_⟩
            rw [List.cons.injEq, hsame, hd.1]
            exact (and_iff_right rfl).symm
      · rw [compareLoop, if_neg (fun hand => hsame (hc.symm.trans hand.2)), hc]
        refine ⟨_, rfl, (sign_eq_zero c (b q)).trans ⟨fun h => absurd h hsame, fun h => ?_⟩⟩
        subst h
        exact absurd (termAt_cons.mp hb).1.symm hsame

/-- `strcmp` returns zero for equal strings only. -/
theorem strcmp_eq_zero (ha : TermAt a p s) (hb : TermAt b q t) (hlen : s.length < 2 ^ 32) :
    ∃ r, strcmp a p b q = some r ∧ (r = 0 ↔ s = t) :=
  compareLoop_spec ha hb hlen

/-- A string constant in its array. -/
theorem termAt_literal (h : 0 ∉ s) : TermAt (literal s) 0 s := by
  have hcells : ∀ k, CellsAt (literal s) k (s.drop k) := by
    intro k
    induction hn : s.length - k generalizing k with
    | zero =>
        rw [List.drop_eq_nil_of_le (by omega)]
        trivial
    | succ n ih =>
        have hk : k < s.length := by omega
        rw [List.drop_eq_getElem_cons hk]
        exact ⟨List.getD_eq_getElem s 0 hk, ih (k + 1) (by omega)⟩
  have hall := hcells 0
  rw [List.drop_zero] at hall
  refine ⟨hall, ?_, h⟩
  rw [Nat.zero_add]
  exact List.getD_eq_default s 0 (Nat.le_refl _)

theorem lastLoop_spec {ch : Byte} (hch : ch.toNat < 128) (h : TermAt str p s) (hfuel : s.length < fuel)
    (last : Option Nat) :
    (ch ∉ s → lastLoop str ch fuel p last = some last) ∧
      ∀ pre post, s = pre ++ ch :: post → ch ∉ post →
        lastLoop str ch fuel p last = some (some (p + pre.length)) := by
  induction s generalizing p fuel last with
  | nil =>
      obtain ⟨fuel, rfl⟩ := Nat.exists_eq_add_one.mpr (Nat.zero_lt_of_lt hfuel)
      rw [lastLoop, if_pos (termAt_nil.mp h)]
      exact ⟨fun _ => rfl, fun pre post hs => by simp at hs⟩
  | cons c s ih =>
      obtain ⟨fuel, rfl⟩ := Nat.exists_eq_add_one.mpr (Nat.zero_lt_of_lt hfuel)
      rw [List.length_cons] at hfuel
      rcases termAt_cons.mp h with ⟨hc, hne, hrest⟩
      -- Below 128 the sign does not show.
      have hsame : (c.toInt = (ch.toNat : Int)) ↔ c = ch := by
        rw [← BitVec.toNat_inj, BitVec.toInt]
        have hclt := c.isLt
        split <;> omega
      rw [lastLoop, if_neg (by rw [hc]; exact hne), hc]
      constructor
      · intro hnot
        rw [List.mem_cons, not_or] at hnot
        rw [if_neg (fun heq => hnot.1 (hsame.mp heq).symm)]
        exact (ih hrest (by omega) last).1 hnot.2
      · intro pre post hs hpost
        cases pre with
        | nil =>
            rw [List.nil_append, List.cons.injEq] at hs
            rw [if_pos (hsame.mpr hs.1)]
            exact (ih hrest (by omega) (some p)).1 (hs.2 ▸ hpost)
        | cons d pre =>
            rw [List.cons_append, List.cons.injEq] at hs
            rw [(ih hrest (by omega) _).2 pre post hs.2 hpost, List.length_cons]
            congr 2
            omega

/-- `strrchr` finds the last occurrence. -/
theorem strrchr_last {ch : Byte} {pre post : Str} (hch : ch.toNat < 128)
    (h : TermAt str p (pre ++ ch :: post)) (hlen : (pre ++ ch :: post).length < 2 ^ 32)
    (hpost : ch ∉ post) : strrchr str p ch = some (some (p + pre.length)) :=
  (lastLoop_spec hch h hlen none).2 pre post rfl hpost

end ForikOS
