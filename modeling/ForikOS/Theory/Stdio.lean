import ForikOS.Theory.CString
import ForikOS.Theory.Itoa

/-!
# What vsprintf Writes

A format is a list of pieces, and every piece adds its text to the destination.
Ordinary characters, `%c`, `%d` and `%x` add bytes that are not zero and write
nothing else. `%s` copies a string with its zero, which the next piece writes
over.

So the text always ends up at the start of the destination, but only a `%s` at
the end of the format leaves a zero behind it. After any other piece the byte
behind the text is what the destination has held there before, and the length
that `vsprintf` then counts is that of the text only if that byte was a zero.
The destination of `printf` begins with zeros.

## Main definitions

* `numeral`: The digits of a number in a base.
* `Piece`, `PiecesAt`: The pieces of a format, and their arguments on the stack.
* `EndsInString`: The last piece is a `%s`.
* `Written`: What the destination holds after some pieces.

## Theorems

* `itoa_spec`: `itoa` adds the digits of a number.
* `convert_spec`: A conversion adds its text.
* `vsprintfLoop_spec`: The pieces that remain.
* `vsprintf_text_iff`: When `vsprintf` leaves the text and returns its length.
* `printf_text`: `printf` always writes the text.
-/

namespace ForikOS

/-- A digit, up to base sixteen. -/
def digit (d : Nat) : Byte :=
  ([0x30, 0x31, 0x32, 0x33, 0x34, 0x35, 0x36, 0x37, 0x38, 0x39,
    0x41, 0x42, 0x43, 0x44, 0x45, 0x46] : Str).getD d 0

/-- The digits of a number, the first one first. -/
def numeral (base n : Nat) : Str :=
  if n = 0 then [digit 0] else (Nat.digits base n).reverse.map digit

/-- An argument with the conversion that is for it. -/
inductive Arg
  | string (s : Str)
  | char (c : Byte)
  | int (v : Word)
  | hex (v : Word)

namespace Arg

/-- The letter behind the percent sign. -/
def letter : Arg → Byte
  | string _ => 0x73
  | char _ => 0x63
  | int _ => 0x64
  | hex _ => 0x78

/-- What is to be written. -/
def text : Arg → Str
  | string s => s
  | char c => [c]
  | int v => (if v.toInt < 0 then [0x2d] else []) ++ numeral 10 v.toInt.natAbs
  | hex v => numeral 16 v.toNat

/-- A word on the stack is the argument. A character is not a zero. -/
def At (mem : Nat → Byte) (w : Word) : Arg → Prop
  | string s => TermAt mem w.toNat s
  | char c => c ≠ 0 ∧ w.setWidth 8 = c
  | int v => w = v
  | hex v => w = v

end Arg

/-- A piece of a format. -/
inductive Piece
  | char (c : Byte)
  | arg (a : Arg)

namespace Piece

/-- The piece in the format. -/
def format : Piece → Str
  | char c => [c]
  | arg a => [percent, a.letter]

/-- The piece in the text. -/
def text : Piece → Str
  | char c => [c]
  | arg a => a.text

end Piece

/-- The format of the pieces. -/
def formatOf (ps : List Piece) : Str := ps.flatMap Piece.format

/-- The text of the pieces. -/
def textOf (ps : List Piece) : Str := ps.flatMap Piece.text

/-- The characters are ordinary ones, and the arguments are on the stack behind
    `ap`. -/
def PiecesAt (mem : Nat → Byte) (stack : Nat → Word) : Nat → List Piece → Prop
  | _, [] => True
  | ap, .char c :: ps => (c ≠ 0 ∧ c ≠ percent) ∧ PiecesAt mem stack ap ps
  | ap, .arg a :: ps => a.At mem (stack (ap + 1)) ∧ PiecesAt mem stack (ap + 1) ps

/-- The last piece is a `%s`. -/
def EndsInString (ps : List Piece) : Prop := ∃ s, ps.getLast? = some (.arg (.string s))

/-- Some text is written, and what is behind it is not, up to the zero of a
    string: `zero` says that the last piece was one. -/
structure Written (str : Nat → Byte) (o : Out) (text : Str) (zero : Prop) : Prop where
  ptr : o.ptr = text.length
  cells : CellsAt o.str 0 text
  nonzero : 0 ∉ text
  frame : ∀ x, text.length < x → o.str x = str x
  ends : o.str text.length = 0 ↔ zero ∨ str text.length = 0

section Digits

theorem digit_eq {d : Nat} (hd : d < 16) : digit d = symbolOf d := by
  revert d
  decide

/-- Up to base sixteen the digits are those that `itoa` writes. -/
theorem numeral_eq {base : Nat} (hbase : 1 < base) (hbase' : base ≤ 16) (n : Nat) :
    numeral base n = numeralOf symbolOf base n :=
  numeralOf_congr hbase (fun _ hd => digit_eq (hd.trans_le hbase')) n

/-- No symbol of a digit is a zero byte. -/
theorem zero_not_mem_numeralOf {base : Nat} (hbase : 1 < base) (hbase' : base ≤ 36) (n : Nat) :
    0 ∉ numeralOf symbolOf base n := by
  intro hmem
  rcases mem_numeralOf hbase hmem with ⟨d, hd, hzero⟩
  have hrange := symbolOf_range (hd.trans_le hbase')
  rw [hzero] at hrange
  exact absurd hrange (by decide)

end Digits

section Pieces

variable {str : Nat → Byte} {o : Out} {text : Str} {zero : Prop}

/-- A text that is not empty and has no zero in it. -/
theorem Written.append (h : Written str o text zero) {o' : Out} {s : Str}
    (happ : TextAppended o o' s) (hs : s ≠ []) (h0 : 0 ∉ s) :
    Written str o' (text ++ s) False := by
  have hptr := h.ptr
  have hpos := List.length_pos_of_ne_nil hs
  have hlen : (text ++ s).length = text.length + s.length := List.length_append
  have hbehind : ∀ x, text.length + s.length ≤ x → o'.str x = str x := by
    intro x hx
    rw [happ.frame x (by omega), h.frame x (by omega)]
  refine ⟨?_, cellsAt_append.mpr ⟨h.cells.congr (fun x _ hx => happ.frame x (Or.inl ?_)), ?_⟩, ?_,
    fun x hx => hbehind x (by omega), ?_⟩
  · rw [happ.ptr, hlen, hptr]
  · omega
  · rw [Nat.zero_add, ← hptr]
    exact happ.cells
  · rw [List.mem_append, not_or]
    exact ⟨h.nonzero, h0⟩
  · rw [hbehind _ hlen.ge, false_or]

/-- A byte that is not a zero. -/
theorem Written.put (h : Written str o text zero) {c : Byte} (hc : c ≠ 0) :
    Written str (o.put c) (text ++ [c]) False :=
  h.append (textAppended_put o c) (List.cons_ne_nil c [])
    (fun h0 => hc (List.mem_singleton.mp h0).symm)

/-- `itoa` adds the digits of a number. -/
theorem itoa_spec {base : Byte} (hbase : 1 < base.toNat) (hbase' : base.toNat ≤ 16) (value : Word)
    (h : Written str o text zero) : ∃ o', itoa base (2 ^ 32) value o = some o' ∧
      Written str o' (text ++ numeral base.toNat value.toNat) False := by
  have hroom : value.toNat < 2 ^ (2 ^ 32) :=
    value.isLt.trans_le (Nat.pow_le_pow_right (by decide) (by decide))
  rcases itoa_appends hbase (hbase'.trans (by decide)) hroom (by decide) o with ⟨o', hrun, happ⟩
  rw [numeral_eq hbase hbase']
  exact ⟨o', hrun, h.append happ (numeralOf_ne_nil hbase _)
    (zero_not_mem_numeralOf hbase (hbase'.trans (by decide)) _)⟩

/-- A string that is copied with its zero. -/
theorem Written.copy (h : Written str o text zero) {str' : Nat → Byte} {s : Str}
    (hterm : TermAt str' o.ptr s)
    (hframe : ∀ x, x < o.ptr ∨ o.ptr + s.length < x → str' x = o.str x) :
    Written str ⟨str', o.ptr + s.length⟩ (text ++ s) True := by
  have hptr := h.ptr
  have hlen : (text ++ s).length = text.length + s.length := List.length_append
  refine ⟨?_, ?_, ?_, fun x hx => ?_, ?_⟩
  · rw [hlen, ← h.ptr]
  · refine cellsAt_append.mpr ⟨h.cells.congr (fun x _ hx => hframe x (Or.inl ?_)), ?_⟩
    · omega
    · rw [Nat.zero_add, ← h.ptr]
      exact hterm.cells
  · rw [List.mem_append, not_or]
    exact ⟨h.nonzero, hterm.nonzero⟩
  · exact (hframe x (Or.inr (by omega))).trans (h.frame x (by omega))
  · rw [hlen, ← h.ptr]
    exact iff_of_true hterm.ends (Or.inl trivial)

variable {mem : Nat → Byte} {stack : Nat → Word} {i ap : Nat}

/-- A conversion reads its argument and adds its text. -/
theorem convert_spec {a : Arg} (h : Written str o text zero) (ha : a.At mem (stack (ap + 1)))
    (hlen : a.text.length < 2 ^ 32) :
    ∃ o', convert mem stack a.letter ⟨o, i, ap⟩ = some ⟨o', i + 1, ap + 1⟩ ∧
      Written str o' (text ++ a.text) (∃ s, a = .string s) := by
  have hten : 1 < (10 : Byte).toNat ∧ (10 : Byte).toNat ≤ 16 := by decide
  have hsixteen : 1 < (16 : Byte).toNat ∧ (16 : Byte).toNat ≤ 16 := by decide
  cases a with
  | string s =>
      have hterm : TermAt mem (stack (ap + 1)).toNat s := ha
      have hlast : (∃ t, Arg.string s = .string t) ↔ True := iff_true_intro ⟨s, rfl⟩
      rcases strcpy_spec o.str o.ptr hterm hlen with ⟨str', hrun, hcopy, hframe⟩
      dsimp only [convert, Arg.letter]
      rw [if_pos rfl, hrun, Option.bind_some, strlen_eq hterm hlen, hlast]
      exact ⟨_, rfl, h.copy hcopy hframe⟩
  | char c =>
      have hlast : (∃ t, Arg.char c = .string t) ↔ False := by simp
      dsimp only [convert, Arg.letter]
      rw [if_neg (by decide), if_pos rfl, ha.2, hlast]
      exact ⟨_, rfl, h.put ha.1⟩
  | int v =>
      have hlast : (∃ t, Arg.int v = .string t) ↔ False := by simp
      have hv : stack (ap + 1) = v := ha
      dsimp only [convert, Arg.letter, Arg.text]
      rw [if_neg (by decide), if_neg (by decide), if_pos rfl, hv, hlast]
      -- The least number is its own opposite, and its word is that of 2 ^ 31.
      by_cases hneg : v.toInt < 0
      · have hminus : (0x2d : Byte) ≠ 0 := by decide
        rcases itoa_spec hten.1 hten.2 (0 - v) (h.put hminus) with ⟨o', hrun, hwritten⟩
        rw [if_pos hneg, if_pos hneg, hrun, ← List.append_assoc, ← toNat_of_neg hneg]
        exact ⟨_, rfl, hwritten⟩
      · rcases itoa_spec hten.1 hten.2 v h with ⟨o', hrun, hwritten⟩
        rw [if_neg hneg, if_neg hneg, hrun, List.nil_append, ← toNat_of_nonneg hneg]
        exact ⟨_, rfl, hwritten⟩
  | hex v =>
      have hlast : (∃ t, Arg.hex v = .string t) ↔ False := by simp
      have hv : stack (ap + 1) = v := ha
      rcases itoa_spec hsixteen.1 hsixteen.2 v h with ⟨o', hrun, hwritten⟩
      dsimp only [convert, Arg.letter, Arg.text]
      rw [if_neg (by decide), if_neg (by decide), if_neg (by decide), if_pos rfl, hv, hrun, hlast]
      exact ⟨_, rfl, hwritten⟩

theorem endsInString_cons (p : Piece) (ps : List Piece) :
    EndsInString (p :: ps) ↔ EndsInString ps ∨ ps = [] ∧ ∃ s, p = .arg (.string s) := by
  unfold EndsInString
  cases ps with
  | nil => simp
  | cons q qs => simp only [List.getLast?_cons_cons, List.cons_ne_nil, false_and, or_false]

theorem Written.congr {zero' : Prop} (h : Written str o text zero) (hz : zero ↔ zero') :
    Written str o text zero' :=
  { h with ends := by rw [h.ends, hz] }

/-- The pieces that remain. -/
theorem vsprintfLoop_spec {ps : List Piece} {fuel : Nat} (h : Written str o text zero)
    (hargs : PiecesAt mem stack ap ps) (hformat : TermAt mem i (formatOf ps))
    (hfuel : (formatOf ps).length < fuel) (hlen : (textOf ps).length < 2 ^ 32) :
    ∃ o', vsprintfLoop mem stack fuel ⟨o, i, ap⟩ = some o' ∧
      Written str o' (text ++ textOf ps) (EndsInString ps ∨ ps = [] ∧ zero) := by
  -- Every round takes one piece off the format.
  induction ps generalizing i ap o text zero fuel with
  | nil =>
      obtain ⟨fuel, rfl⟩ := Nat.exists_eq_add_one.mpr (Nat.zero_lt_of_lt hfuel)
      have hzero : zero ↔ EndsInString [] ∨ ([] : List Piece) = [] ∧ zero := by simp [EndsInString]
      rw [vsprintfLoop, if_pos (termAt_nil.mp hformat)]
      refine ⟨o, rfl, ?_⟩
      rw [textOf, List.flatMap_nil, List.append_nil]
      exact h.congr hzero
  | cons p ps ih =>
      obtain ⟨fuel, rfl⟩ := Nat.exists_eq_add_one.mpr (Nat.zero_lt_of_lt hfuel)
      have hsplit : textOf (p :: ps) = p.text ++ textOf ps := rfl
      rw [hsplit, List.length_append] at hlen
      rw [hsplit, ← List.append_assoc, vsprintfLoop]
      cases p with
      | char c =>
          -- The character is copied, and no argument is read.
          have hcons : TermAt mem i (c :: formatOf ps) := hformat
          have hfuel' : (formatOf ps).length < fuel := Nat.lt_of_succ_lt_succ hfuel
          rcases termAt_cons.mp hcons with ⟨hc, hne, hrest⟩
          rcases ih (h.put hne) hargs.2 hrest hfuel' (by omega) with ⟨o', hrun, hwritten⟩
          rw [hc, if_neg hne, if_pos hargs.1.2, hrun]
          refine ⟨o', rfl, hwritten.congr ?_⟩
          rw [endsInString_cons]
          simp
      | arg a =>
          -- The percent sign leads to the `switch`, with the letter behind it.
          have hcons : TermAt mem i (percent :: a.letter :: formatOf ps) := hformat
          have hfuel' : (formatOf ps).length < fuel :=
            Nat.lt_of_succ_lt (Nat.lt_of_succ_lt_succ hfuel)
          have htext : a.text.length + (textOf ps).length < 2 ^ 32 := hlen
          rcases termAt_cons.mp hcons with ⟨hpercent, hne, hletter⟩
          rcases termAt_cons.mp hletter with ⟨hc, -, hrest⟩
          rcases @convert_spec _ _ _ _ _ _ (i + 1) _ _ h hargs.1 (by omega) with
            ⟨o₁, hconvert, hone⟩
          rcases ih hone hargs.2 hrest hfuel' (by omega) with ⟨o', hrun, hwritten⟩
          rw [hpercent, if_neg hne, if_neg (fun hc => hc rfl), hc, hconvert, Option.bind_some, hrun]
          refine ⟨o', rfl, hwritten.congr ?_⟩
          rw [endsInString_cons]
          simp

/-- The text is in the destination, and the length is counted there. -/
theorem vsprintf_written {ps : List Piece} {format : Nat} (hargs : PiecesAt mem stack ap ps)
    (hformat : TermAt mem format (formatOf ps)) (hshort : (formatOf ps).length < 2 ^ 32)
    (hlen : (textOf ps).length < 2 ^ 32) (str : Nat → Byte) :
    ∃ o, vsprintf mem stack str format ap = (strlen o.str 0).map (fun n => (n, o.str)) ∧
      Written str o (textOf ps) (EndsInString ps) := by
  have hstart : Written str ⟨str, 0⟩ [] False :=
    ⟨rfl, trivial, List.not_mem_nil, fun _ _ => rfl, (false_or _).to_iff.symm⟩
  rcases vsprintfLoop_spec hstart hargs hformat hshort hlen with ⟨o, hrun, hwritten⟩
  rw [List.nil_append] at hwritten
  rw [vsprintf, hrun, Option.bind_some]
  exact ⟨o, rfl, hwritten.congr (by rw [and_false, or_false])⟩

/-- Where the text is terminated. -/
theorem Written.termAt (h : Written str o text zero) (hzero : zero ∨ str text.length = 0) :
    TermAt o.str 0 text :=
  ⟨h.cells, by rw [Nat.zero_add]; exact h.ends.mpr hzero, h.nonzero⟩

/-- `vsprintf` leaves the text with a zero behind it and returns its length if
    and only if the format ends with a `%s`, or the destination has held a zero
    where the text ends. -/
theorem vsprintf_text_iff {ps : List Piece} {format : Nat} (hargs : PiecesAt mem stack ap ps)
    (hformat : TermAt mem format (formatOf ps)) (hshort : (formatOf ps).length < 2 ^ 32)
    (hlen : (textOf ps).length < 2 ^ 32) (str : Nat → Byte) :
    (∃ str', vsprintf mem stack str format ap = some ((textOf ps).length, str') ∧
      TermAt str' 0 (textOf ps)) ↔ EndsInString ps ∨ str (textOf ps).length = 0 := by
  rcases vsprintf_written hargs hformat hshort hlen str with ⟨o, hrun, hwritten⟩
  rw [hrun]
  constructor
  · -- A terminated text has its zero in the destination, whoever has written it.
    rintro ⟨str', hres, hterm⟩
    rcases Option.map_eq_some_iff.mp hres with ⟨n, -, heq⟩
    rw [← (Prod.mk.inj heq).2] at hterm
    have hends := hterm.ends
    rw [Nat.zero_add] at hends
    exact hwritten.ends.mp hends
  · intro hzero
    have hterm := hwritten.termAt hzero
    rw [strlen_eq hterm hlen, Option.map_some]
    exact ⟨o.str, rfl, hterm⟩

/-- The format `a` and a destination with zeros. -/
theorem vsprintf_text_iff_zeros :
    (∃ str', vsprintf (literal [0x61]) (fun _ => 0) (fun _ => 0) 0 0 =
      some ((textOf [.char 0x61]).length, str') ∧ TermAt str' 0 (textOf [.char 0x61])) ↔
      EndsInString [.char 0x61] ∨ (fun _ => 0 : Nat → Byte) (textOf [.char 0x61]).length = 0 := by
  have hargs : PiecesAt (literal [0x61]) (fun _ => 0) 0 [.char 0x61] :=
    ⟨⟨by decide, by decide⟩, trivial⟩
  have hformat : TermAt (literal [0x61]) 0 (formatOf [.char 0x61]) := termAt_literal (by decide)
  exact vsprintf_text_iff hargs hformat (by decide) (by decide) (fun _ => 0)

/-- The format `a`, and a destination that holds `xx`. -/
theorem vsprintf_unterminated :
    PiecesAt (literal [0x61]) (fun _ => 0) 0 [.char 0x61] ∧
    TermAt (literal [0x61]) 0 (formatOf [.char 0x61]) ∧
    ¬∃ str', vsprintf (literal [0x61]) (fun _ => 0) (literal [0x78, 0x78]) 0 0 =
      some ((textOf [.char 0x61]).length, str') ∧ TermAt str' 0 (textOf [.char 0x61]) := by
  have hargs : PiecesAt (literal [0x61]) (fun _ => 0) 0 [.char 0x61] :=
    ⟨⟨by decide, by decide⟩, trivial⟩
  have hformat : TermAt (literal [0x61]) 0 (formatOf [.char 0x61]) := termAt_literal (by decide)
  refine ⟨hargs, hformat, ?_⟩
  rcases vsprintf_written hargs hformat (by decide) (by decide) (literal [0x78, 0x78]) with
    ⟨o, hrun, hwritten⟩
  rintro ⟨str', hres, hterm⟩
  rcases Option.map_eq_some_iff.mp (hrun.symm.trans hres) with ⟨n, -, heq⟩
  rw [← (Prod.mk.inj heq).2] at hterm
  rcases hwritten.ends.mp hterm.ends with ⟨s, hs⟩ | hzero
  · cases hs
  · exact absurd hzero (by decide)

/-- `printf` writes the text, whatever the last piece is. -/
theorem printf_text {ps : List Piece} {format : Nat} (hargs : PiecesAt mem stack format ps)
    (hformat : TermAt mem (stack format).toNat (formatOf ps))
    (hshort : (formatOf ps).length < 2 ^ 32) (hlen : (textOf ps).length < 1024) :
    printf mem stack format = some (textOf ps) := by
  have hroom : (textOf ps).length < 2 ^ 32 := by omega
  rcases vsprintf_written hargs hformat hshort hroom (fun _ => 0) with ⟨o, hrun, hwritten⟩
  have hterm := hwritten.termAt (Or.inr rfl)
  rw [printf, hrun, strlen_eq hterm hroom, Option.map_some, Option.bind_some,
    stringAt_eq hterm hroom]

end Pieces

end ForikOS
