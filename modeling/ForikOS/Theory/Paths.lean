import ForikOS.Lib.Words
import ForikOS.Theory.FsFrame

/-!
# Paths

A path is a list of components: what lies between its slashes, without the
empty pieces.

The code never has that list. `path_parse` gives one component and the rest of
the string, `search_file` glues what it has looked up together again, and
`strrchr` finds the last component from the other end. `path_depth_cnt` counts
the components of a string. All of it is said here in terms of the list.

## Main definitions

* `components`: The components of a path.
* `joined`: The path with a list of components, a slash before each.
* `remaining`: The components the loops over `path_parse` have yet to see.

## Theorems

* `components_append_slash`: A slash separates components.
* `remaining_pathParse`, `remaining_pathNext`: One round of the loops.
* `components_joined`, `length_joined_components`: What `search_file` records.
* `components_baseName`: The last component from the other end.
* `run_pathDepthCnt`: The depth of a path is the number of its components.
-/

namespace ForikOS

open Prog

/-- The components of a path. -/
def components (p : Str) : List Str := (p.splitOn slash).filter (fun k => decide (k ≠ []))

/-- A slash and a component, as often as there are components. -/
def joined (ks : List Str) : Str := ks.flatMap (fun k => slash :: k)

/-- What a loop over `path_parse` has yet to see when it holds a component and
    the rest of the path. -/
def remaining (name : Str) (p : Option Str) : List Str :=
  if name = [] then [] else name :: components (p.getD [])

section Components

variable {p k : Str}

theorem components_eq (p : Str) : components p = wordsOf slash p :=
  List.filter_congr (fun k _ => by cases k <;> rfl)

theorem components_nil : components [] = [] := rfl

theorem components_append_slash (x y : Str) :
    components (x ++ slash :: y) = components x ++ components y := by
  simp only [components_eq, wordsOf_append]

theorem components_slash (y : Str) : components (slash :: y) = components y :=
  components_append_slash [] y

/-- A string without a slash is one component. -/
theorem components_of_not_mem (hs : slash ∉ k) (hk : k ≠ []) : components k = [k] := by
  rw [components_eq, wordsOf_word hk hs]

theorem mem_components_of_not_mem {x : Str} (hs : slash ∉ x) (h : k ∈ components x) :
    k = x ∧ x ≠ [] := by
  by_cases hx : x = []
  · rw [hx] at h
    cases h
  · rw [components_of_not_mem hs hx, List.mem_singleton] at h
    exact ⟨h, hx⟩

/-- A component is not empty and has no slash in it, and it is in the path. -/
theorem mem_components (h : k ∈ components p) : k ≠ [] ∧ slash ∉ k ∧ k ⊆ p := by
  induction p using separator_induction slash with
  | one x hx =>
      rcases mem_components_of_not_mem hx h with ⟨rfl, hnil⟩
      exact ⟨hnil, hx, List.Subset.refl _⟩
  | more x y hx ih =>
      rw [components_append_slash, List.mem_append] at h
      rcases h with h | h
      · rcases mem_components_of_not_mem hx h with ⟨rfl, hnil⟩
        exact ⟨hnil, hx, List.subset_append_left _ _⟩
      · rcases ih h with ⟨hnil, hslash, hsub⟩
        exact ⟨hnil, hslash, fun c hc => List.mem_append_right _ (List.mem_cons_of_mem _ (hsub hc))⟩

end Components

section Parse

variable {p : Str}

/-- Slashes in front do not matter. -/
theorem components_dropWhile (p : Str) :
    components (p.dropWhile (fun c => c == slash)) = components p := by
  induction p with
  | nil => rfl
  | cons c p ih =>
      rw [List.dropWhile_cons]
      by_cases hc : c = slash
      · rw [if_pos (beq_iff_eq.mpr hc), ih, hc, components_slash]
      · rw [if_neg (fun h => hc (beq_iff_eq.mp h))]

/-- Up to the first slash, and from it on. -/
theorem takeWhile_slash (q : Str) :
    slash ∉ q.takeWhile (fun c => c != slash) ∧
      (q.dropWhile (fun c => c != slash) = [] ∨
        ∃ y, q.dropWhile (fun c => c != slash) = slash :: y) := by
  induction q with
  | nil => exact ⟨List.not_mem_nil, Or.inl rfl⟩
  | cons c q ih =>
      rw [List.takeWhile_cons, List.dropWhile_cons]
      by_cases hc : c = slash
      · rw [if_neg (by rw [hc]; decide), if_neg (by rw [hc]; decide), hc]
        exact ⟨List.not_mem_nil, Or.inr ⟨q, rfl⟩⟩
      · have htrue : (c != slash) = true := bne_iff_ne.mpr hc
        rw [if_pos htrue, if_pos htrue]
        refine ⟨fun h => ?_, ih.2⟩
        rcases List.mem_cons.mp h with h | h
        · exact hc h.symm
        · exact ih.1 h

/-- `path_parse` gives the first component, and the others are left. -/
theorem remaining_pathParse (p : Str) :
    remaining (pathParse p).1 (pathParse p).2 = components p := by
  rw [← components_dropWhile p, pathParse]
  dsimp only
  generalize hq : p.dropWhile (fun c => c == slash) = q
  have hsplit : q.takeWhile (fun c => c != slash) ++ q.dropWhile (fun c => c != slash) = q :=
    List.takeWhile_append_dropWhile
  rcases takeWhile_slash q with ⟨hnot, hrest⟩
  generalize q.takeWhile (fun c => c != slash) = w at hsplit hnot ⊢
  generalize q.dropWhile (fun c => c != slash) = rest at hsplit hrest ⊢
  by_cases hw : w = []
  · -- Without a component nothing is left, since the slashes in front are gone.
    rw [remaining, if_pos hw]
    rcases hrest with hrest | ⟨y, hrest⟩
    · rw [← hsplit, hw, hrest]
      rfl
    · have hhead : q = slash :: y := by rw [← hsplit, hw, hrest, List.nil_append]
      have hnone := List.head?_dropWhile_not (fun c => c == slash) p
      rw [hq, hhead] at hnone
      cases hnone
  · rw [remaining, if_neg hw]
    rcases hrest with hrest | ⟨y, hrest⟩
    · rw [← hsplit, hrest, List.append_nil, components_of_not_mem hnot hw]
      rfl
    · rw [← hsplit, hrest, components_append_slash, components_of_not_mem hnot hw,
        if_neg (List.cons_ne_nil _ _), Option.getD_some, components_slash]
      rfl

theorem remaining_pathNext (sub : Option Str) :
    remaining (pathNext sub).1 (pathNext sub).2 = components (sub.getD []) := by
  cases sub with
  | none => rfl
  | some q => exact remaining_pathParse q

end Parse

section Joined

variable {p k : Str} {ks : List Str}

theorem joined_append (ks : List Str) (k : Str) : joined (ks ++ [k]) = joined ks ++ slash :: k := by
  rw [joined, List.flatMap_append, List.flatMap_singleton]
  rfl

theorem components_joined (h : ∀ k, k ∈ ks → k ≠ [] ∧ slash ∉ k) : components (joined ks) = ks := by
  induction ks with
  | nil => rfl
  | cons k ks ih =>
      have hk := h k List.mem_cons_self
      have hrest := ih (fun l hl => h l (List.mem_cons_of_mem k hl))
      have hcons : joined (k :: ks) = slash :: (k ++ joined ks) := rfl
      rw [hcons, components_slash]
      cases ks with
      | nil =>
          rw [joined, List.flatMap_nil, List.append_nil]
          exact components_of_not_mem hk.2 hk.1
      | cons l ks =>
          have hnext : joined (l :: ks) = slash :: (l ++ joined ks) := rfl
          rw [hnext, components_slash] at hrest
          rw [hnext, components_append_slash, components_of_not_mem hk.2 hk.1, hrest]
          rfl

/-- The components with one slash each are not longer than the path with the
    slashes it has, and a slash in front of it. -/
theorem length_joined_le (p : Str) : (joined (components p)).length ≤ p.length + 1 := by
  induction p using separator_induction slash with
  | one x hx =>
      by_cases hnil : x = []
      · rw [hnil]
        exact Nat.zero_le _
      · rw [components_of_not_mem hx hnil, joined, List.flatMap_singleton]
        exact Nat.le_refl _
  | more x y hx ih =>
      rw [components_append_slash, joined, List.flatMap_append, List.length_append,
        List.length_append, List.length_cons]
      have hy : (joined (components y)).length ≤ y.length + 1 := ih
      rw [joined] at hy
      by_cases hnil : x = []
      · rw [hnil, components_nil, List.flatMap_nil]
        omega
      · rw [components_of_not_mem hx hnil, List.flatMap_singleton, List.length_cons]
        omega

theorem length_joined_components (hp : p.head? = some slash) :
    (joined (components p)).length ≤ p.length := by
  cases p with
  | nil => cases hp
  | cons c y =>
      rw [List.head?_cons, Option.some.injEq] at hp
      rw [hp, components_slash]
      exact length_joined_le y

/-- There are not more components than bytes to glue them from. -/
theorem length_le_joined (ks : List Str) : ks.length ≤ (joined ks).length := by
  induction ks with
  | nil => exact Nat.le_refl 0
  | cons k ks ih =>
      have hcons : joined (k :: ks) = slash :: k ++ joined ks := rfl
      rw [hcons, List.length_append, List.length_cons, List.length_cons]
      omega

end Joined

section BaseName

variable {p k : Str}

theorem baseName_append (x : Str) (hk : slash ∉ k) : baseName (x ++ slash :: k) = k := by
  have hrev : ∀ c, c ∈ k.reverse → (c != slash) = true := by
    intro c hc
    refine bne_iff_ne.mpr (fun heq => hk ?_)
    rw [heq] at hc
    exact List.mem_reverse.mp hc
  rw [baseName, List.reverse_append, List.reverse_cons, List.append_assoc,
    List.takeWhile_append_of_pos hrev, List.singleton_append,
    List.takeWhile_cons_of_neg (by decide), List.append_nil, List.reverse_reverse]

/-- A path with a slash has a last one. -/
theorem exists_last_slash (h : slash ∈ p) : ∃ x k, p = x ++ slash :: k ∧ slash ∉ k := by
  rcases List.eq_append_cons_of_mem (List.mem_reverse.mpr h) with ⟨k, x, hrev, hk⟩
  refine ⟨x.reverse, k.reverse, ?_, fun hc => hk (List.mem_reverse.mp hc)⟩
  have hp := congrArg List.reverse hrev
  rw [List.reverse_reverse, List.reverse_append, List.reverse_cons, List.append_assoc] at hp
  exact hp

/-- A path that does not end in a slash ends in its last component. -/
theorem components_baseName (hs : slash ∈ p) (hlast : p.getLast? ≠ some slash) :
    ∃ ks, components p = ks ++ [baseName p] := by
  rcases exists_last_slash hs with ⟨x, k, rfl, hk⟩
  have hnil : k ≠ [] := by
    intro hc
    rw [hc] at hlast
    exact hlast (List.getLast?_concat)
  rw [baseName_append x hk, components_append_slash, components_of_not_mem hk hnil]
  exact ⟨_, rfl⟩

end BaseName

section Depth

variable {s : Fs} {p : Str}

theorem run_unset (s : Fs) :
    unset.run s = .ok (s.junk 0, { s with junk := fun i => s.junk (i + 1) }) := rfl

/-- The loop of `path_depth_cnt` counts what remains. -/
theorem run_pathDepthLoop {n : Nat} {name : Str} {sub : Option Str} (depth : Nat)
    (hn : (remaining name sub).length < n)
    (hlen : ∀ k, k ∈ remaining name sub → k.length ≤ maxFileNameLen) :
    (pathDepthLoop n name sub depth).run s = .ok (depth + (remaining name sub).length, s) := by
  induction n generalizing name sub depth with
  | zero => exact absurd hn (Nat.not_lt_zero _)
  | succ n ih =>
      rw [pathDepthLoop]
      by_cases hname : name = []
      · have hnil : remaining name sub = [] := if_pos hname
        have hshort : name.length ≤ maxFileNameLen := by
          rw [hname]
          exact Nat.zero_le _
        rw [run_bind_of (run_check_pos hshort s), if_pos hname, hnil]
        rfl
      · have hcons : remaining name sub = name :: components (sub.getD []) := if_neg hname
        rw [hcons] at hn hlen ⊢
        rw [← remaining_pathNext] at hn hlen ⊢
        rw [run_bind_of (run_check_pos (hlen name List.mem_cons_self) s), if_neg hname,
          ih (depth + 1) (Nat.lt_of_succ_lt_succ hn)
            (fun k hk => hlen k (List.mem_cons_of_mem _ hk)), List.length_cons]
        congr 2
        omega

/-- The depth of a path that has a component. -/
theorem run_pathDepthCnt (s : Fs) (hne : components p ≠ [])
    (hlen : ∀ k, k ∈ components p → k.length ≤ maxFileNameLen) :
    (pathDepthCnt p).run s =
      .ok ((components p).length, { s with junk := fun i => s.junk (i + 1) }) := by
  have hparse := remaining_pathParse p
  have hname : (pathParse p).1 ≠ [] := by
    intro hc
    rw [remaining, if_pos hc] at hparse
    exact hne hparse.symm
  have hbytes : (components p).length < p.length + 2 := by
    have := length_le_joined (components p)
    have := length_joined_le p
    omega
  rw [← hparse] at hbytes hlen ⊢
  rw [pathDepthCnt, run_bind_of (run_unset s)]
  dsimp only
  rw [if_neg (fun hc => hname hc.1), run_pathDepthLoop 0 hbytes hlen, Nat.zero_add]

end Depth

end ForikOS
