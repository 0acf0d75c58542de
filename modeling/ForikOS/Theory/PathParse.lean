import ForikOS.Core.PathParse
import ForikOS.Lib.Terminated
import ForikOS.Theory.CString
import ForikOS.Theory.PathName

/-!
# The Components That path_parse Writes

What a caller gets that calls `path_parse` again and again, and what
`path_depth_cnt` counts, for a path in memory.

A call goes over the slashes where it begins, stores the bytes up to the next
slash or the end, and returns where it has stopped. It returns null at the end,
also when it has stored a component. Where it returns an address there is a
slash, and it has stored a component before, since the slashes in front of it
are gone: so the first byte of the array is not zero there, whatever the array
has held before, and a caller that looks at it goes on.

Only a path without a component leaves the array as it was. That is the one
case in which `path_depth_cnt` depends on what was in its array.

## Main definitions

* `PathPtr.calls`: What the calls store.
* `SlashesAdded`: Slashes that do not matter.

## Theorems

* `PathPtr.pathParse_spec`: `path_parse` is what it is on lists.
* `PathPtr.calls_spec`: The calls store the components.
* `PathPtr.pathDepthCnt_spec`: `path_depth_cnt` counts them.
* `path_iteration`: Both, for a path with any number of slashes.
-/

namespace ForikOS

/-- Slashes are added to a path: in front of it, behind it, or next to one. -/
inductive SlashesAdded (path : Str) : Str → Prop
  | refl : SlashesAdded path path
  | front {q : Str} (h : SlashesAdded path q) : SlashesAdded path (slash :: q)
  | behind {q : Str} (h : SlashesAdded path q) : SlashesAdded path (q ++ [slash])
  | next {x y : Str} (h : SlashesAdded path (x ++ slash :: y)) :
      SlashesAdded path (x ++ slash :: slash :: y)

/-- The components do not change. -/
theorem SlashesAdded.components {path q : Str} (h : SlashesAdded path q) :
    components q = components path := by
  induction h with
  | refl => rfl
  | front _ ih => rw [components_slash, ih]
  | behind _ ih => rw [components_append_slash, components_nil, List.append_nil, ih]
  | next _ ih =>
      rw [components_append_slash] at ih
      rw [components_append_slash, components_slash, ih]

namespace PathPtr

/-- Call `path_parse` with the pointer that it has returned and a cleared array,
    up to a null pointer or an empty name. The answer is what each of the calls
    has stored. -/
def calls (mem : Nat → Byte) : Nat → Nat → (Nat → Byte) → Option (List Str)
  | 0, _, _ => none
  | fuel + 1, pathname, name =>
      (pathParse mem pathname name).bind (fun r =>
        let written := (List.range r.stored).map r.name
        match r.pathname with
        | none => some [written]
        | some pathname =>
            if r.name 0 = 0 then some [written]
            else (calls mem fuel pathname (clear r.name)).map (fun ws => written :: ws))

/-- A pointer to a string, or null for none. -/
def PointsAt (mem : Nat → Byte) : Option Nat → Option Str → Prop
  | none, none => True
  | some p, some s => TermAt mem p s
  | _, _ => False

section Parse

variable {mem : Nat → Byte} {p fuel : Nat} {s : Str}

/-- The slashes from the next byte on. -/
theorem skipLoop_spec (h : TermAt mem (p + 1) s) (hfuel : s.length < fuel) :
    ∃ q, skipLoop mem fuel p = some q ∧ TermAt mem q (s.dropWhile (fun c => c == slash)) := by
  induction s generalizing p fuel with
  | nil =>
      obtain ⟨fuel, rfl⟩ := Nat.exists_eq_add_one.mpr (Nat.zero_lt_of_lt hfuel)
      have hzero : mem (p + 1) ≠ slash := by
        rw [termAt_nil.mp h]
        decide
      rw [skipLoop, if_neg hzero]
      exact ⟨p + 1, rfl, h⟩
  | cons c s ih =>
      obtain ⟨fuel, rfl⟩ := Nat.exists_eq_add_one.mpr (Nat.zero_lt_of_lt hfuel)
      rcases termAt_cons.mp h with ⟨hc, -, hrest⟩
      rw [skipLoop, hc, List.dropWhile_cons]
      by_cases hslash : c = slash
      · rw [if_pos hslash, if_pos (beq_iff_eq.mpr hslash)]
        exact ih hrest (Nat.lt_of_succ_lt_succ hfuel)
      · rw [if_neg hslash, if_neg (fun hb => hslash (beq_iff_eq.mp hb))]
        exact ⟨p + 1, rfl, h⟩

/-- The bytes up to the next slash are stored as they are on lists. -/
theorem storeLoop_spec (h : TermAt mem p s) (hfuel : s.length < fuel) (name : Nat → Byte)
    (n : Nat) (log : List NameEvent) : ∃ r, storeLoop mem fuel p name n = some r ∧
      r.name = (NameArray.store s n ⟨name, log⟩).1.bytes ∧
      r.stored = n + (s.takeWhile (fun c => c != slash)).length ∧
      PointsAt mem r.pathname (if s.dropWhile (fun c => c != slash) = [] then none
        else some (s.dropWhile (fun c => c != slash))) := by
  induction s generalizing p fuel name n with
  | nil =>
      obtain ⟨fuel, rfl⟩ := Nat.exists_eq_add_one.mpr (Nat.zero_lt_of_lt hfuel)
      have hzero := termAt_nil.mp h
      rw [storeLoop, if_neg (fun hc => hc.2 hzero), if_pos hzero]
      exact ⟨_, rfl, rfl, rfl, trivial⟩
  | cons c s ih =>
      obtain ⟨fuel, rfl⟩ := Nat.exists_eq_add_one.mpr (Nat.zero_lt_of_lt hfuel)
      rcases termAt_cons.mp h with ⟨hc, hne, hrest⟩
      rw [storeLoop, hc, NameArray.store, List.takeWhile_cons, List.dropWhile_cons]
      by_cases hslash : c = slash
      · -- The loop stops here, and what is left is not empty.
        have hfalse : ¬(c != slash) = true := fun hb => bne_iff_ne.mp hb hslash
        rw [if_neg (fun hb => hb.1 hslash), if_neg hne, if_pos hslash, if_neg hfalse,
          if_neg hfalse, if_neg (List.cons_ne_nil c s)]
        exact ⟨_, rfl, rfl, rfl, h⟩
      · have htrue : (c != slash) = true := bne_iff_ne.mpr hslash
        rcases ih hrest (Nat.lt_of_succ_lt_succ hfuel) (Function.update name n c) (n + 1) with
          ⟨r, hrun, hname, hstored, hnext⟩
        rw [if_pos ⟨hslash, hne⟩, if_neg hslash, if_pos htrue, if_pos htrue]
        refine ⟨r, hrun, hname, ?_, hnext⟩
        rw [hstored, List.length_cons]
        omega

/-- `path_parse` is what it is on lists. -/
theorem pathParse_spec (h : TermAt mem p s) (hlen : s.length < 2 ^ 32) (name : Nat → Byte)
    (log : List NameEvent) : ∃ r, pathParse mem p name = some r ∧
      r.name = ((⟨name, log⟩ : NameArray).pathParse s).1.bytes ∧
      r.stored = (ForikOS.pathParse s).1.length ∧
      PointsAt mem r.pathname (ForikOS.pathParse s).2 := by
  -- The slashes at the beginning are skipped only if there are any.
  have hskip : ∃ q, (if mem p = slash then skipLoop mem (2 ^ 32) p else some p) = some q ∧
      TermAt mem q (s.dropWhile (fun c => c == slash)) := by
    cases s with
    | nil =>
        have hzero : mem p ≠ slash := by
          rw [termAt_nil.mp h]
          decide
        exact ⟨p, if_neg hzero, h⟩
    | cons c s =>
        rcases termAt_cons.mp h with ⟨hc, -, hrest⟩
        rw [hc, List.dropWhile_cons]
        by_cases hslash : c = slash
        · rw [if_pos hslash, if_pos (beq_iff_eq.mpr hslash)]
          exact skipLoop_spec hrest (by rw [List.length_cons] at hlen; omega)
        · rw [if_neg hslash, if_neg (fun hb => hslash (beq_iff_eq.mp hb))]
          exact ⟨p, rfl, h⟩
  rcases hskip with ⟨q, hq, hterm⟩
  have hshort := (List.dropWhile_sublist (fun c => c == slash) (l := s)).length_le
  rcases storeLoop_spec hterm (Nat.lt_of_le_of_lt hshort hlen) name 0 log with
    ⟨r, hrun, hname, hstored, hnext⟩
  rw [pathParse, hq, Option.bind_some, NameArray.pathParse, NameArray.skipSlashes_eq,
    ForikOS.pathParse]
  refine ⟨r, hrun, hname, ?_, hnext⟩
  rw [hstored, Nat.zero_add]

/-- What is stored is the component. -/
theorem written_eq (s : Str) (name : Nat → Byte) (log : List NameEvent) :
    (List.range (ForikOS.pathParse s).1.length).map
      ((⟨name, log⟩ : NameArray).pathParse s).1.bytes = (ForikOS.pathParse s).1 := by
  have hcells :
      CellsAt ((⟨name, log⟩ : NameArray).pathParse s).1.bytes 0 (ForikOS.pathParse s).1 := by
    rw [NameArray.pathParse, NameArray.skipSlashes_eq]
    exact NameArray.store_cells _ 0 _
  have hmap := hcells.map_range
  simp only [Nat.zero_add] at hmap
  exact hmap

/-- Where something is left of the path, a component has been stored in front of
    it. -/
theorem pathParse_some {q : Str} (h : (ForikOS.pathParse s).2 = some q) :
    (ForikOS.pathParse s).1 ≠ [] := by
  intro hnil
  rw [NameArray.pathParse_none hnil] at h
  cases h

end Parse

section Calls

variable {mem : Nat → Byte} {p fuel : Nat} {s : Str}

/-- The first byte of a component is not a zero, and it is in the array. -/
theorem first_ne_zero (h : TermAt mem p s) (name : Nat → Byte) (log : List NameEvent)
    (hne : (ForikOS.pathParse s).1 ≠ []) :
    ((⟨name, log⟩ : NameArray).pathParse s).1.bytes 0 ≠ 0 := by
  have hsub := (List.dropWhile_sublist (fun c => c == slash) (l := s)).subset
  rw [NameArray.pathParse, NameArray.skipSlashes_eq]
  exact NameArray.store_head (fun hc => h.nonzero (hsub hc)) hne

theorem length_rest {q : Str} (h : (ForikOS.pathParse s).2 = some q) : q.length ≤ s.length := by
  rw [ForikOS.pathParse] at h
  dsimp only at h
  by_cases hnil : (s.dropWhile (fun c => c == slash)).dropWhile (fun c => c != slash) = []
  · rw [if_pos hnil] at h
    cases h
  · rw [if_neg hnil, Option.some.injEq] at h
    rw [← h]
    exact Nat.le_trans (List.dropWhile_sublist _).length_le (List.dropWhile_sublist _).length_le

theorem filter_component {w : Str} (hw : w ≠ []) (ws : List Str) :
    (w :: ws).filter (fun w => decide (w ≠ [])) = w :: ws.filter (fun w => decide (w ≠ [])) :=
  List.filter_cons_of_pos (decide_eq_true hw)

/-- The calls store the components, and the last of them may store nothing. -/
theorem calls_spec (h : TermAt mem p s) (hlen : s.length < 2 ^ 32)
    (hfuel : (components s).length < fuel) (name : Nat → Byte) :
    ∃ ws, calls mem fuel p name = some ws ∧
      ws.filter (fun w => decide (w ≠ [])) = components s := by
  -- Every call takes one component off the path.
  induction fuel generalizing p s name with
  | zero => exact absurd hfuel (Nat.not_lt_zero _)
  | succ fuel ih =>
      have hcomp := remaining_pathParse s
      have hne := fun hne => first_ne_zero h name [] hne
      rcases pathParse_spec h hlen name [] with ⟨r, hrun, hname, hstored, hnext⟩
      have hwritten := written_eq s name []
      rw [← hname, ← hstored] at hwritten
      rw [calls, hrun, Option.bind_some, hwritten]
      rw [← hname] at hne
      dsimp only
      cases hrest : (ForikOS.pathParse s).2 with
      | none =>
          -- The end of the path: the component is the last, or there is none.
          rw [hrest] at hnext hcomp
          cases hptr : r.pathname with
          | some q =>
              rw [hptr] at hnext
              exact hnext.elim
          | none =>
              refine ⟨[(ForikOS.pathParse s).1], rfl, ?_⟩
              rw [← hcomp, remaining]
              by_cases hnil : (ForikOS.pathParse s).1 = []
              · rw [if_pos hnil, hnil]
                rfl
              · rw [if_neg hnil]
                exact filter_component hnil []
      | some q =>
          have hnil := pathParse_some hrest
          rw [hrest, remaining, if_neg hnil, Option.getD_some] at hcomp
          rw [hrest] at hnext
          cases hptr : r.pathname with
          | none =>
              rw [hptr] at hnext
              exact hnext.elim
          | some p' =>
              rw [hptr] at hnext
              rw [← hcomp, List.length_cons] at hfuel
              rcases ih hnext (Nat.lt_of_le_of_lt (length_rest hrest) hlen)
                (Nat.lt_of_succ_lt_succ hfuel) (clear r.name) with ⟨ws, hws, hfilter⟩
              dsimp only
              rw [if_neg (hne hnil), hws]
              refine ⟨_, rfl, ?_⟩
              rw [← hcomp, ← hfilter]
              exact filter_component hnil ws

/-- The loop of `path_depth_cnt` is what it is on lists. -/
theorem depthLoop_eq {n depth m : Nat} {a b : NameArray} {next : Option Nat} {sub : Option Str}
    (h : PointsAt mem next sub) (hlen : (sub.getD []).length < 2 ^ 32)
    (hrun : NameArray.depthLoop n a sub depth = some (b, m)) :
    depthLoop mem n next a.bytes (BitVec.ofNat 32 depth) = some (BitVec.ofNat 32 m) := by
  induction n generalizing a next sub depth with
  | zero => cases hrun
  | succ n ih =>
      have hone : BitVec.ofNat 32 depth + 1 = BitVec.ofNat 32 (depth + 1) :=
        (BitVec.ofNat_add depth 1).symm
      rw [NameArray.depthLoop] at hrun
      rw [depthLoop.eq_def]
      dsimp only
      by_cases hzero : a.bytes 0 = 0
      · rw [if_pos hzero, Option.some.injEq, Prod.mk.injEq] at hrun
        rw [if_pos hzero, hrun.2]
      · rw [if_neg hzero] at hrun
        rw [if_neg hzero, hone]
        -- One has a pointer exactly where the other has something left of the path.
        cases sub with
        | none =>
            cases next with
            | some p => exact h.elim
            | none => exact @ih (depth + 1) a.clear none none trivial (by decide) hrun
        | some s =>
            cases next with
            | none => exact h.elim
            | some p =>
                rcases pathParse_spec h hlen (clear a.bytes) a.log with ⟨r, hr, hname, -, hnext⟩
                have hrest : (a.clear.pathParse s).2 = (ForikOS.pathParse s).2 :=
                  (NameArray.pathParse_log s a.clear).2
                dsimp only
                rw [hr, Option.bind_some, hname]
                refine ih ?_ ?_ hrun
                · show PointsAt mem r.pathname (a.clear.pathParse s).2
                  rw [hrest]
                  exact hnext
                · show ((a.clear.pathParse s).2.getD []).length < 2 ^ 32
                  rw [hrest]
                  cases hq : (ForikOS.pathParse s).2 with
                  | none => decide
                  | some q => exact Nat.lt_of_le_of_lt (length_rest hq) hlen

/-- There is a slash in front of every component but the first. -/
theorem two_mul_components (s : Str) : 2 * (components s).length ≤ s.length + 1 := by
  induction s using separator_induction slash with
  | one x hx =>
      by_cases hnil : x = []
      · rw [hnil, components_nil]
        exact Nat.zero_le _
      · have hpos := List.length_pos_of_ne_nil hnil
        rw [components_of_not_mem hx hnil, List.length_singleton]
        omega
  | more x y hx ih =>
      rw [components_append_slash, List.length_append, List.length_append, List.length_cons]
      by_cases hnil : x = []
      · rw [hnil, components_nil, List.length_nil]
        omega
      · have hpos := List.length_pos_of_ne_nil hnil
        rw [components_of_not_mem hx hnil, List.length_singleton]
        omega

/-- `path_depth_cnt` counts the components, whatever its array holds. -/
theorem pathDepthCnt_spec (h : TermAt mem p s) (hp : 0 < p) (hend : p + s.length < 2 ^ 32)
    (hne : components s ≠ []) (junk : Nat → Byte) :
    pathDepthCnt mem p junk = some ((components s).length : Int) := by
  have hlen : s.length < 2 ^ 32 := by omega
  have hcount := two_mul_components s
  have hcomp := remaining_pathParse s
  -- The first call stores a component, so nobody sees what the array held.
  have hfirst : (ForikOS.pathParse s).1 ≠ [] := by
    intro hnil
    rw [remaining, if_pos hnil] at hcomp
    exact hne hcomp.symm
  rcases pathParse_spec h hlen junk [] with ⟨r, hrun, hname, -, hnext⟩
  have hhead :
      ((⟨junk, []⟩ : NameArray).pathParse s).1.bytes 0 = 0 ↔ (ForikOS.pathParse s).1 = [] :=
    iff_of_false (first_ne_zero h junk [] hfirst) hfirst
  have h0 : 0 ∉ (ForikOS.pathParse s).2.getD [] := fun hc =>
    h.nonzero ((NameArray.pathParse_subset s).2 hc)
  have hrounds : (remaining (ForikOS.pathParse s).1 (ForikOS.pathParse s).2).length < 2 ^ 32 := by
    rw [hcomp]
    omega
  rcases NameArray.depthLoop_safe 0 hrounds hhead h0 with ⟨b, hloop, -⟩
  have hshort : ((ForikOS.pathParse s).2.getD []).length < 2 ^ 32 := by
    cases hq : (ForikOS.pathParse s).2 with
    | none => decide
    | some q => exact Nat.lt_of_le_of_lt (length_rest hq) hlen
  have hdepth := depthLoop_eq hnext hshort hloop
  have hzero : BitVec.ofNat 32 0 = 0 := rfl
  rw [hcomp, Nat.zero_add, hzero, ← hname] at hdepth
  have hnat : (BitVec.ofNat 32 (components s).length).toNat = (components s).length := by
    rw [BitVec.toNat_ofNat]
    exact Nat.mod_eq_of_lt (by omega)
  -- The depth is signed, but a path in the memory has fewer components than 2 to the 31.
  have hint : (BitVec.ofNat 32 (components s).length).toInt = ((components s).length : Int) := by
    rw [BitVec.toInt_eq_toNat_of_lt (by rw [hnat]; omega), hnat]
  rw [pathDepthCnt, if_pos (Nat.ne_of_gt hp), hrun, Option.bind_some, hdepth, Option.map_some, hint]

end Calls

end PathPtr

section Iteration

/-- A path with components of at most fifteen bytes, and any number of slashes
    added to it: the calls of `path_parse` store the maximal parts without a
    slash in their order, inside the array, and `path_depth_cnt` counts them. -/
theorem path_iteration (path : Str) (names : List Str) (hnames : AreWords slash path names)
    (hne : names ≠ []) (hshort : ∀ k, k ∈ names → k.length ≤ 15) (path' : Str)
    (hadded : SlashesAdded path path') (mem : Nat → Byte) (p : Nat) (hterm : TermAt mem p path')
    (hp : 0 < p) (hend : p + path'.length < 2 ^ 32) (junk : Nat → Byte) :
    (∃ ws, PathPtr.calls mem (2 ^ 32) p junk = some ws ∧
      ws.filter (fun w => decide (w ≠ [])) = names ∧ ∀ w, w ∈ ws → w.length < maxFileNameLen) ∧
    PathPtr.pathDepthCnt mem p junk = some (names.length : Int) := by
  have hcomp : components path' = names := by
    rw [hadded.components, components_eq]
    exact (areWords_wordsOf slash path).unique hnames
  have hcount := PathPtr.two_mul_components path'
  rcases PathPtr.calls_spec hterm (by omega) (by omega : _ < 2 ^ 32) junk with ⟨ws, hws, hfilter⟩
  rw [hcomp] at hfilter
  refine ⟨⟨ws, hws, hfilter, fun w hw => ?_⟩, ?_⟩
  · by_cases hnil : w = []
    · rw [hnil]
      decide
    · have hmem : w ∈ names := by
        rw [← hfilter]
        exact List.mem_filter.mpr ⟨hw, decide_eq_true hnil⟩
      exact Nat.lt_succ_of_le (hshort w hmem)
  · rw [← hcomp] at hne ⊢
    exact PathPtr.pathDepthCnt_spec hterm hp hend hne junk

/-- The path `/a/bc`, with another slash in front and one behind, and an array of
    letters. -/
theorem path_iteration_two :
    (∃ ws, PathPtr.calls (literal [slash, slash, slash, 97, slash, 98, 99, slash]) (2 ^ 32) 1
        (fun _ => 0x78) = some ws ∧
      ws.filter (fun w => decide (w ≠ [])) = [[97], [98, 99]] ∧
      ∀ w, w ∈ ws → w.length < maxFileNameLen) ∧
    PathPtr.pathDepthCnt (literal [slash, slash, slash, 97, slash, 98, 99, slash]) 1
      (fun _ => 0x78) = some 2 := by
  have hwords : AreWords slash [slash, 97, slash, 98, 99] [[97], [98, 99]] := by
    have h := areWords_wordsOf slash [slash, 97, slash, 98, 99]
    have hsplit : wordsOf slash ([97] ++ slash :: [98, 99]) = [97] :: wordsOf slash [98, 99] :=
      wordsOf_word_append (by decide) (by decide) _
    have hlast : wordsOf slash [98, 99] = [[98, 99]] := wordsOf_word (by decide) (by decide)
    rwa [wordsOf_separator, show [97, slash, 98, 99] = [97] ++ slash :: [98, 99] from rfl, hsplit,
      hlast] at h
  have hterm : TermAt (literal [slash, slash, slash, 97, slash, 98, 99, slash]) 1
      [slash, slash, 97, slash, 98, 99, slash] :=
    (termAt_cons.mp (termAt_literal (by decide))).2.2
  have hadded : SlashesAdded [slash, 97, slash, 98, 99] [slash, slash, 97, slash, 98, 99, slash] :=
    SlashesAdded.behind (q := [slash, slash, 97, slash, 98, 99]) (.front .refl)
  exact path_iteration [slash, 97, slash, 98, 99] [[97], [98, 99]] hwords (by decide) (by decide)
    _ hadded _ 1 hterm (by decide) (by decide) (fun _ => 0x78)

end Iteration

end ForikOS
