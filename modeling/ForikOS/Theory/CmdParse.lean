import ForikOS.Core.Shell
import ForikOS.Theory.CString
import ForikOS.Lib.Words

/-!
# Splitting the Command Line

`cmd_parse` stores the address of every word and cuts the line behind it. One
round of its loop takes one word off what is left of the line. It writes behind
the words it has stored before, and where it finds a zero it leaves a zero, so
those words stay what they are.

The number of arguments is compared with the limit when the argument is stored
already, and the eighteenth is the first that fails. A line of seventeen words
is therefore accepted, and a longer one is refused after two arguments have been
written behind the array.

## Main definitions

* `SplitsLine`: What `cmd_parse` is to do with a line.

## Theorems

* `cmdParseLoop_word`, `cmdParseLoop_end`: One round of the loop.
* `cmdParseLoop_few`, `cmdParseLoop_many`: The rounds that remain.
* `cmdParse_splits_iff`: The lines that are split as they should be.
-/

namespace ForikOS

/-- What `cmd_parse` is to do with a line: its words become the arguments and the
    rest of the array is null, a line with too many words is refused, and nothing
    is written behind the array. -/
structure SplitsLine (token : Byte) (line : Str) (argv : Nat → Option Nat) (r : Parsed) : Prop where
  count : (wordsOf token line).length ≤ maxArgNr → r.ret = (wordsOf token line).length
  args : (wordsOf token line).length ≤ maxArgNr →
    ∀ i w, (wordsOf token line)[i]? = some w → ∃ q, r.argv i = some q ∧ TermAt r.cmdStr q w
  null : ∀ i, (wordsOf token line).length ≤ i → i < maxArgNr → r.argv i = none
  refused : maxArgNr < (wordsOf token line).length → r.ret = -1
  frame : ∀ i, maxArgNr ≤ i → r.argv i = argv i

section Scan

variable {cmdStr : Nat → Byte} {token : Byte} {fuel p : Nat} {s : Str}

/-- The separators in front of a word are passed over. -/
theorem skipToken_spec (htoken : token ≠ 0) (h : TermAt cmdStr p s) (hfuel : s.length < fuel) :
    ∃ q t, skipToken cmdStr token fuel p = some q ∧ TermAt cmdStr q t ∧ p ≤ q ∧
      t.length ≤ s.length ∧ t.head? ≠ some token ∧ wordsOf token s = wordsOf token t := by
  induction s generalizing p fuel with
  | nil =>
      obtain ⟨fuel, rfl⟩ := Nat.exists_eq_add_one.mpr (Nat.zero_lt_of_lt hfuel)
      have hne : cmdStr p ≠ token := fun hc => htoken (hc.symm.trans (termAt_nil.mp h))
      refine ⟨p, [], ?_, h, Nat.le_refl p, Nat.le_refl _, by simp, rfl⟩
      rw [skipToken, if_neg hne]
  | cons c s ih =>
      obtain ⟨fuel, rfl⟩ := Nat.exists_eq_add_one.mpr (Nat.zero_lt_of_lt hfuel)
      have hcons := termAt_cons.mp h
      rw [List.length_cons] at hfuel
      rw [skipToken, hcons.1]
      by_cases hc : c = token
      · rw [if_pos hc]
        rcases ih hcons.2.2 (Nat.lt_of_succ_lt_succ hfuel) with
          ⟨q, t, hrun, hterm, hle, hlen, hhead, hwords⟩
        refine ⟨q, t, hrun, hterm, by omega, by rw [List.length_cons]; omega, hhead, ?_⟩
        rw [hc, wordsOf_separator, hwords]
      · rw [if_neg hc]
        exact ⟨p, c :: s, rfl, h, Nat.le_refl p, Nat.le_refl _, by simpa using hc, rfl⟩

/-- A word goes up to a separator or to the end of the line. -/
theorem skipWord_spec (h : TermAt cmdStr p s) (hfuel : s.length < fuel) :
    ∃ w t, s = w ++ t ∧ token ∉ w ∧ (t = [] ∨ t.head? = some token) ∧
      skipWord cmdStr token fuel p = some (p + w.length) := by
  induction s generalizing p fuel with
  | nil =>
      obtain ⟨fuel, rfl⟩ := Nat.exists_eq_add_one.mpr (Nat.zero_lt_of_lt hfuel)
      refine ⟨[], [], rfl, List.not_mem_nil, Or.inl rfl, ?_⟩
      rw [skipWord, if_neg (fun hc => hc.1 (termAt_nil.mp h))]
      rfl
  | cons c s ih =>
      obtain ⟨fuel, rfl⟩ := Nat.exists_eq_add_one.mpr (Nat.zero_lt_of_lt hfuel)
      have hcons := termAt_cons.mp h
      rw [List.length_cons] at hfuel
      rw [skipWord, hcons.1]
      by_cases hc : c = token
      · rw [if_neg (fun h => h.2 hc)]
        exact ⟨[], c :: s, rfl, List.not_mem_nil, Or.inr (congrArg some hc), rfl⟩
      · rw [if_pos ⟨hcons.2.1, hc⟩]
        rcases ih hcons.2.2 (Nat.lt_of_succ_lt_succ hfuel) with ⟨w, t, rfl, hw, hend, hrun⟩
        refine ⟨c :: w, t, rfl, ?_, hend, ?_⟩
        · rw [List.mem_cons, not_or]
          exact ⟨fun h => hc h.symm, hw⟩
        · rw [hrun, List.length_cons]
          congr 1
          omega

end Scan

section Loop

variable {cmdStr : Nat → Byte} {token : Byte} {fuel next : Nat} {s w : Str} {ws : List Str}

/-- A line without a word ends the loop. -/
theorem cmdParseLoop_end (htoken : token ≠ 0) (h : TermAt cmdStr next s) (hlen : s.length < 2 ^ 32)
    (hwords : wordsOf token s = []) (hfuel : 0 < fuel) (argv : Nat → Option Nat) (argc : Nat) :
    cmdParseLoop token fuel cmdStr argv next argc = some ⟨argc, cmdStr, argv⟩ := by
  obtain ⟨fuel, rfl⟩ := Nat.exists_eq_add_one.mpr hfuel
  rw [cmdParseLoop]
  by_cases hzero : cmdStr next = 0
  · rw [if_pos hzero]
  · rw [if_neg hzero]
    rcases skipToken_spec htoken h hlen with ⟨q, t, hrun, hterm, -, -, hhead, heq⟩
    -- Behind the separators there is nothing.
    have hnil : t = [] := by
      rcases @skipWord_spec _ token _ _ _ hterm (Nat.lt_succ_self _) with ⟨w, u, rfl, hw, hend, -⟩
      by_cases hwnil : w = []
      · rcases hend with rfl | hu
        · rw [hwnil]
          rfl
        · rw [hwnil] at hhead
          exact absurd hu hhead
      · rcases hend with rfl | hu
        · rw [heq, List.append_nil, wordsOf_word hwnil hw] at hwords
          cases hwords
        · obtain ⟨u, rfl⟩ := List.head?_eq_some_iff.mp hu
          rw [heq, wordsOf_word_append hwnil hw] at hwords
          cases hwords
    rw [hrun, Option.bind_some, if_pos (by rw [hnil] at hterm; exact termAt_nil.mp hterm)]

/-- The word that the scan is at, cut off. At the end of the line nothing is
    written, as the word has its zero already. -/
theorem skipWord_cut {q : Nat} {t : Str} (htoken : token ≠ 0) (h : TermAt cmdStr q t)
    (hlen : t.length < 2 ^ 32) (hhead : t.head? ≠ some token) (hwords : wordsOf token t = w :: ws) :
    ∃ e cut rest u, skipWord cmdStr token (2 ^ 32) q = some e ∧
      (if cmdStr e ≠ 0 then Function.update cmdStr e 0 else cmdStr) = cut ∧
      (if cmdStr e ≠ 0 then e + 1 else e) = rest ∧
      TermAt cut q w ∧ TermAt cut rest u ∧ wordsOf token u = ws ∧ u.length < t.length ∧
      q + w.length ≤ rest ∧ (∀ x, x < q → cut x = cmdStr x) ∧ ∀ x, cmdStr x = 0 → cut x = 0 := by
  rcases @skipWord_spec _ token _ _ _ h hlen with ⟨v, u, rfl, hv, hend, hrun⟩
  -- The word has a character, or there would be no word or a separator first.
  have hvnil : v ≠ [] := by
    rintro rfl
    rcases hend with rfl | hu
    · cases hwords
    · exact hhead hu
  have hpos := List.length_pos_of_ne_nil hvnil
  rcases hend with rfl | hu
  · -- The word is the last one, and its zero is that of the line.
    rw [List.append_nil, wordsOf_word hvnil hv] at hwords
    obtain ⟨rfl, rfl⟩ := List.cons.inj hwords
    rw [List.append_nil] at h
    have hzero : ¬cmdStr (q + v.length) ≠ 0 := fun hc => hc h.ends
    refine ⟨q + v.length, cmdStr, q + v.length, [], hrun, if_neg hzero, if_neg hzero, h,
      termAt_nil.mpr h.ends, rfl, ?_, Nat.le_refl _, fun _ _ => rfl, fun _ hx => hx⟩
    rw [List.append_nil]
    exact hpos
  · -- The separator behind the word becomes its zero.
    obtain ⟨u, rfl⟩ := List.head?_eq_some_iff.mp hu
    rw [wordsOf_word_append hvnil hv] at hwords
    obtain ⟨rfl, rfl⟩ := List.cons.inj hwords
    have hsep := termAt_cons.mp (termAt_append.mp h).2
    have hne : cmdStr (q + v.length) ≠ 0 := by
      rw [hsep.1]
      exact htoken
    refine ⟨q + v.length, _, _, u, hrun, if_pos hne, if_pos hne, h.cut,
      hsep.2.2.congr (fun x hx _ => Function.update_of_ne (by omega) _ _), rfl, ?_, by omega,
      fun x hx => Function.update_of_ne (by omega) _ _, fun x hx => ?_⟩
    · rw [List.length_append, List.length_cons]
      omega
    · rw [Function.update_apply]
      split
      · rfl
      · exact hx

/-- One round of the loop takes the first word. The string is written only where
    the round has passed, and a zero stays a zero. -/
theorem cmdParseLoop_word (htoken : token ≠ 0) (h : TermAt cmdStr next s) (hlen : s.length < 2 ^ 32)
    (hwords : wordsOf token s = w :: ws) (fuel : Nat) (argv : Nat → Option Nat) (argc : Nat) :
    ∃ q cut rest t, cmdParseLoop token (fuel + 1) cmdStr argv next argc =
        (if maxArgNr < argc then some ⟨-1, cut, Function.update argv argc (some q)⟩
        else cmdParseLoop token fuel cut (Function.update argv argc (some q)) rest (argc + 1)) ∧
      TermAt cut q w ∧ TermAt cut rest t ∧ wordsOf token t = ws ∧ t.length < s.length ∧
      q + w.length ≤ rest ∧ next ≤ rest ∧ (∀ x, x < next → cut x = cmdStr x) ∧
      ∀ x, cmdStr x = 0 → cut x = 0 := by
  rcases skipToken_spec htoken h hlen with ⟨q, t, hrun, hterm, hle, hshort, hhead, heq⟩
  rw [heq] at hwords
  rcases skipWord_cut htoken hterm (by omega) hhead hwords with
    ⟨e, cut, rest, u, hword, hcut, hrest, hw, hu, hws, hulen, hroom, hframe, hzeros⟩
  have hfirst : cmdStr next ≠ 0 := by
    intro hzero
    rw [h.unique (termAt_nil.mpr hzero), wordsOf_nil] at heq
    rw [← heq] at hwords
    cases hwords
  have hsome : cmdStr q ≠ 0 := by
    intro hzero
    rw [hterm.unique (termAt_nil.mpr hzero), wordsOf_nil] at hwords
    cases hwords
  refine ⟨q, cut, rest, u, ?_, hw, hu, hws, by omega, hroom, by omega,
    fun x hx => hframe x (by omega), hzeros⟩
  rw [cmdParseLoop, if_neg hfirst, hrun, Option.bind_some, if_neg hsome, hword, Option.bind_some,
    hcut, hrest]

/-- The rounds that remain, when the last of them is not refused. -/
theorem cmdParseLoop_few (htoken : token ≠ 0) (h : TermAt cmdStr next s) (hlen : s.length < 2 ^ 32)
    (hfuel : s.length < fuel) (hwords : wordsOf token s = ws) (argv : Nat → Option Nat) (argc : Nat)
    (hcount : argc + ws.length ≤ maxArgNr + 1) :
    ∃ r, cmdParseLoop token fuel cmdStr argv next argc = some r ∧
      r.ret = ((argc + ws.length : Nat) : Int) ∧
      (∀ i w, ws[i]? = some w → ∃ q, r.argv (argc + i) = some q ∧ TermAt r.cmdStr q w) ∧
      (∀ i, i < argc ∨ argc + ws.length ≤ i → r.argv i = argv i) ∧
      (∀ x, x < next → r.cmdStr x = cmdStr x) ∧ ∀ x, cmdStr x = 0 → r.cmdStr x = 0 := by
  -- Every round takes one of the words.
  induction ws generalizing cmdStr next s fuel argv argc with
  | nil =>
      refine ⟨_, cmdParseLoop_end htoken h hlen hwords (Nat.zero_lt_of_lt hfuel) argv argc, rfl, ?_,
        fun _ _ => rfl, fun _ _ => rfl, fun _ hx => hx⟩
      intro i w hi
      cases hi
  | cons w ws ih =>
      obtain ⟨fuel, rfl⟩ := Nat.exists_eq_add_one.mpr (Nat.zero_lt_of_lt hfuel)
      rw [List.length_cons] at hcount
      rcases cmdParseLoop_word htoken h hlen hwords fuel argv argc with
        ⟨q, cut, rest, t, hrun, hw, ht, hws, htlen, hroom, hnext, hframe, hzeros⟩
      have hfuel' : t.length < fuel := by omega
      rcases ih ht (by omega) hfuel' hws (Function.update argv argc (some q)) (argc + 1)
        (by omega) with ⟨r, hrest, hret, hargs, hargv, hmem, hkept⟩
      rw [hrun, if_neg (by omega), hrest]
      refine ⟨r, rfl, by rw [hret, List.length_cons]; congr 1; omega, ?_, ?_, ?_, ?_⟩
      · intro i v hi
        cases i with
        | zero =>
            obtain rfl := Option.some.inj hi
            refine ⟨q, ?_, ?_⟩
            · rw [Nat.add_zero, hargv argc (Or.inl (Nat.lt_succ_self argc)), Function.update_self]
            · -- The rest of the line is read behind the word, and its zero stays.
              exact ⟨hw.cells.congr (fun x _ hx => hmem x (by omega)), hkept _ hw.ends, hw.nonzero⟩
        | succ i =>
            rcases hargs i v hi with ⟨p, hp, hterm⟩
            exact ⟨p, by rw [← hp]; congr 1; omega, hterm⟩
      · intro i hi
        rw [List.length_cons] at hi
        rw [hargv i (by omega), Function.update_of_ne (by omega)]
      · intro x hx
        rw [hmem x (by omega), hframe x hx]
      · exact fun x hx => hkept x (hzeros x hx)

/-- The eighteenth argument is stored and then refused. -/
theorem cmdParseLoop_many (htoken : token ≠ 0) (h : TermAt cmdStr next s) (hlen : s.length < 2 ^ 32)
    (hfuel : s.length < fuel) (hwords : wordsOf token s = ws) (argv : Nat → Option Nat) (argc : Nat)
    (hargc : argc ≤ maxArgNr + 1) (hcount : maxArgNr + 1 < argc + ws.length) :
    ∃ r q, cmdParseLoop token fuel cmdStr argv next argc = some r ∧ r.ret = -1 ∧
      r.argv (maxArgNr + 1) = some q := by
  induction ws generalizing cmdStr next s fuel argv argc with
  | nil =>
      rw [List.length_nil] at hcount
      omega
  | cons w ws ih =>
      obtain ⟨fuel, rfl⟩ := Nat.exists_eq_add_one.mpr (Nat.zero_lt_of_lt hfuel)
      rw [List.length_cons] at hcount
      rcases cmdParseLoop_word htoken h hlen hwords fuel argv argc with
        ⟨q, cut, rest, t, hrun, -, ht, hws, htlen, -, -, -, -⟩
      rw [hrun]
      by_cases hlast : maxArgNr < argc
      · have hargc : argc = maxArgNr + 1 := by omega
        rw [if_pos hlast, ← hargc]
        exact ⟨_, q, rfl, rfl, Function.update_self argc (some q) argv⟩
      · rw [if_neg hlast]
        have hfuel' : t.length < fuel := by omega
        exact ih ht (by omega) hfuel' hws _ (argc + 1) (by omega) (by omega)

end Loop

section Parse

variable {cmd : Nat → Byte} {token : Byte} {cmdStr : Nat} {line : Str}

/-- The arguments that are cleared, and the others. -/
theorem clearArgs_apply (argv : Nat → Option Nat) (n i : Nat) :
    clearArgs argv n i = if i < n then none else argv i := by
  induction n with
  | zero => rfl
  | succ n ih =>
      rw [clearArgs, Function.update_apply, ih]
      by_cases hi : i = n
      · rw [if_pos hi, if_pos (by omega)]
      · rw [if_neg hi]
        by_cases hlt : i < n
        · rw [if_pos hlt, if_pos (by omega)]
        · rw [if_neg hlt, if_neg (by omega)]

/-- A line of sixteen words or less. -/
theorem cmdParse_few (htoken : token ≠ 0) (h : TermAt cmd cmdStr line) (hlen : line.length < 2 ^ 32)
    (hcount : (wordsOf token line).length ≤ maxArgNr) (argv : Nat → Option Nat) :
    ∃ r, cmdParse cmd cmdStr argv token = some r ∧ SplitsLine token line argv r := by
  rcases cmdParseLoop_few htoken h hlen hlen rfl (clearArgs argv maxArgNr) 0 (by omega) with ⟨r, hrun, hret, hargs, hargv, -, -⟩
  refine ⟨r, hrun, fun _ => by rw [hret, Nat.zero_add], fun _ i w hi => ?_, fun i h1 h2 => ?_,
    fun hmany => absurd hcount (Nat.not_le_of_lt hmany), fun i hi => ?_⟩
  · have harg := hargs i w hi
    rwa [Nat.zero_add] at harg
  · rw [hargv i (Or.inr (by omega)), clearArgs_apply, if_pos h2]
  · rw [hargv i (Or.inr (by omega)), clearArgs_apply, if_neg (by omega)]

/-- A line of more words: the seventeenth is not refused, the eighteenth is
    written behind the array. -/
theorem cmdParse_many (htoken : token ≠ 0) (h : TermAt cmd cmdStr line) (hlen : line.length < 2 ^ 32)
    (hcount : maxArgNr < (wordsOf token line).length) :
    ∃ argv, ∀ r, cmdParse cmd cmdStr argv token = some r → ¬SplitsLine token line argv r := by
  refine ⟨fun _ => none, fun r hr hsplit => ?_⟩
  unfold cmdParse at hr
  by_cases hone : (wordsOf token line).length = maxArgNr + 1
  · -- With one word too many the test has not been made yet.
    rcases cmdParseLoop_few htoken h hlen hlen rfl (clearArgs (fun _ => none) maxArgNr) 0
      (by omega) with ⟨r', hrun, hret, -⟩
    obtain rfl := Option.some.inj (hrun.symm.trans hr)
    have hrefused := hsplit.refused hcount
    omega
  · -- With two it comes after the store.
    rcases cmdParseLoop_many htoken h hlen hlen rfl (clearArgs (fun _ => none) maxArgNr) 0
      (Nat.zero_le _) (by omega) with ⟨r', q, hrun, -, hq⟩
    obtain rfl := Option.some.inj (hrun.symm.trans hr)
    rw [hsplit.frame _ (Nat.le_succ _)] at hq
    cases hq

/-- `cmd_parse` splits a line as it should, whatever the array of arguments has
    held, if and only if the line has no more than sixteen words. -/
theorem cmdParse_splits_iff (htoken : token ≠ 0) (h : TermAt cmd cmdStr line)
    (hlen : line.length < 2 ^ 32) :
    (∀ argv, ∃ r, cmdParse cmd cmdStr argv token = some r ∧ SplitsLine token line argv r) ↔
      (wordsOf token line).length ≤ maxArgNr := by
  constructor
  · intro hall
    by_contra hcount
    rcases cmdParse_many htoken h hlen (Nat.lt_of_not_le hcount) with ⟨argv, hfail⟩
    rcases hall argv with ⟨r, hrun, hsplit⟩
    exact hfail r hrun hsplit
  · exact cmdParse_few htoken h hlen

/-- The line `a b`. -/
theorem cmdParse_splits_iff_two :
    (∀ argv, ∃ r, cmdParse (literal [0x61, 0x20, 0x62]) 0 argv 0x20 = some r ∧
      SplitsLine 0x20 [0x61, 0x20, 0x62] argv r) ↔
      (wordsOf 0x20 ([0x61, 0x20, 0x62] : Str)).length ≤ maxArgNr :=
  cmdParse_splits_iff (by decide) (termAt_literal (by decide)) (by decide)

/-- Seventeen words and seventeen spaces. -/
def seventeenWords : Str := (List.replicate 17 [0x61, 0x20]).flatten

/-- A line of seventeen words is accepted. -/
theorem seventeen_words_accepted :
    ¬∀ argv, ∃ r, cmdParse (literal seventeenWords) 0 argv 0x20 = some r ∧
      SplitsLine 0x20 seventeenWords argv r := by
  intro hall
  have htoken : (0x20 : Byte) ≠ 0 := by decide
  have hterm : TermAt (literal seventeenWords) 0 seventeenWords := termAt_literal (by decide)
  rcases cmdParse_many htoken hterm (by decide) (by decide) with ⟨argv, hfail⟩
  rcases hall argv with ⟨r, hrun, hsplit⟩
  exact hfail r hrun hsplit

end Parse

end ForikOS
