import ForikOS.Core.PathName
import ForikOS.Lib.Terminated
import ForikOS.Theory.Paths

/-!
# Names that Fit

`path_parse` copies a component into an array of `MAX_FILE_NAME_LEN` bytes
without looking at its length, and none of its callers looks either:
`create_dir_entry` does, after the path has been searched. So the array is
overrun by a component of seventeen bytes, and one of sixteen fills it and is
passed on without a terminator.

All three callers go through the components in the same way, which is `Holds`
and `holds_parseNext`. Each of them is safe for a path whose components have at
most fifteen bytes, and `path_depth_cnt` alone stores all components of any
path.

## Main definitions

* `NamesSafe`: The names stay in the array, terminated.
* `Holds`: What is known of an array that has been cleared for a name.

## Theorems

* `store_log`, `store_bytes`: What `path_parse` does to the array.
* `depthLoop_safe`, `searchLoop_safe`, `washLoop_safe`: The loops over the
  components.
* `names_fit_iff`: The paths whose components are stored safely.
* `component_overruns_name`: A path whose component is too long.
-/

namespace ForikOS

/-- The names stay in the array, and what is passed on is terminated in it. A
    name that does not fit with its terminator is refused. -/
structure NamesSafe (log : List NameEvent) : Prop where
  inside : ∀ n, NameEvent.stored n ∈ log → n ≤ maxFileNameLen
  terminated : ∀ name, NameEvent.passed name ∈ log → ∃ k, k < maxFileNameLen ∧ name k = 0
  refused : ∀ n, NameEvent.stored n ∈ log → n < maxFileNameLen

namespace NamesSafe

variable {log : List NameEvent}

theorem nil : NamesSafe [] where
  inside _ h := by cases h
  terminated _ h := by cases h
  refused _ h := by cases h

theorem stored {n : Nat} (h : NamesSafe log) (hn : n < maxFileNameLen) :
    NamesSafe (log ++ [.stored n]) where
  inside m hm := by
    rcases List.mem_append.mp hm with hm | hm
    · exact h.inside m hm
    · rw [List.mem_singleton, NameEvent.stored.injEq] at hm
      omega
  terminated name hname := by
    rcases List.mem_append.mp hname with hname | hname
    · exact h.terminated name hname
    · rw [List.mem_singleton] at hname
      cases hname
  refused m hm := by
    rcases List.mem_append.mp hm with hm | hm
    · exact h.refused m hm
    · rw [List.mem_singleton, NameEvent.stored.injEq] at hm
      omega

theorem passed {name : Nat → Byte} (h : NamesSafe log)
    (hn : ∃ k, k < maxFileNameLen ∧ name k = 0) : NamesSafe (log ++ [.passed name]) where
  inside m hm := by
    rcases List.mem_append.mp hm with hm | hm
    · exact h.inside m hm
    · rw [List.mem_singleton] at hm
      cases hm
  terminated other hother := by
    rcases List.mem_append.mp hother with hother | hother
    · exact h.terminated other hother
    · rw [List.mem_singleton, NameEvent.passed.injEq] at hother
      rw [hother]
      exact hn
  refused m hm := by
    rcases List.mem_append.mp hm with hm | hm
    · exact h.refused m hm
    · rw [List.mem_singleton] at hm
      cases hm

end NamesSafe

namespace NameArray

section Store

variable {a : NameArray} {p q : Str}

theorem skipSlashes_eq (p : Str) : skipSlashes p = p.dropWhile (fun c => c == slash) := by
  induction p with
  | nil => rfl
  | cons c p ih =>
      rw [skipSlashes, List.dropWhile_cons, ih]
      by_cases hc : c = slash
      · rw [if_pos hc, if_pos (beq_iff_eq.mpr hc)]
      · rw [if_neg hc, if_neg (fun h => hc (beq_iff_eq.mp h))]

/-- The name that is copied, and how far. -/
theorem store_log (q : Str) (n : Nat) (a : NameArray) :
    (store q n a).1.log = a.log ++ [.stored (n + (q.takeWhile (fun c => c != slash)).length)] ∧
      (store q n a).2 = q.dropWhile (fun c => c != slash) := by
  induction q generalizing n a with
  | nil => exact ⟨rfl, rfl⟩
  | cons c q ih =>
      rw [store, List.takeWhile_cons, List.dropWhile_cons]
      by_cases hc : c = slash
      · rw [if_pos hc, if_neg (by rw [hc]; decide), if_neg (by rw [hc]; decide)]
        exact ⟨rfl, rfl⟩
      · have htrue : (c != slash) = true := bne_iff_ne.mpr hc
        rw [if_neg hc, if_pos htrue, if_pos htrue, (ih _ _).1, (ih _ _).2, List.length_cons]
        refine ⟨?_, rfl⟩
        congr 3
        omega

/-- Only the bytes of the name are written. -/
theorem store_bytes (q : Str) (n : Nat) (a : NameArray) {k : Nat}
    (hk : k < n ∨ n + (q.takeWhile (fun c => c != slash)).length ≤ k) :
    (store q n a).1.bytes k = a.bytes k := by
  induction q generalizing n a with
  | nil => rfl
  | cons c q ih =>
      rw [List.takeWhile_cons] at hk
      rw [store]
      by_cases hc : c = slash
      · rw [if_pos hc]
        rfl
      · rw [if_pos (bne_iff_ne.mpr hc), List.length_cons] at hk
        rw [if_neg hc, ih (n + 1) _ (by omega)]
        exact Function.update_of_ne (by omega) _ _

/-- The bytes of the name are stored. -/
theorem store_cells (q : Str) (n : Nat) (a : NameArray) :
    CellsAt (store q n a).1.bytes n (q.takeWhile (fun c => c != slash)) := by
  induction q generalizing n a with
  | nil => trivial
  | cons c q ih =>
      rw [store, List.takeWhile_cons]
      by_cases hc : c = slash
      · rw [if_pos hc, if_neg (by rw [hc]; decide)]
        trivial
      · rw [if_neg hc, if_pos (bne_iff_ne.mpr hc)]
        refine ⟨?_, ih (n + 1) _⟩
        rw [store_bytes q (n + 1) _ (Or.inl (Nat.lt_succ_self n))]
        exact Function.update_self _ _ _

/-- A name begins with its first byte. -/
theorem store_head (h0 : 0 ∉ q) (hq : q.takeWhile (fun c => c != slash) ≠ []) :
    (store q 0 a).1.bytes 0 ≠ 0 := by
  cases q with
  | nil => exact absurd rfl hq
  | cons c q =>
      rw [List.takeWhile_cons] at hq
      by_cases hc : c = slash
      · exact absurd (if_neg (by rw [hc]; decide)) hq
      · -- The rest of the name is written behind it.
        rw [store, if_neg hc, store_bytes q 1 _ (Or.inl (Nat.lt_succ_self 0))]
        intro h
        dsimp only at h
        rw [Function.update_self] at h
        exact h0 (h ▸ List.mem_cons_self)

end Store

section Parse

variable {a : NameArray} {p name : Str} {sub : Option Str}

theorem pathParse_log (p : Str) (a : NameArray) :
    (a.pathParse p).1.log = a.log ++ [.stored (ForikOS.pathParse p).1.length] ∧
      (a.pathParse p).2 = (ForikOS.pathParse p).2 := by
  have h := store_log (p.dropWhile (fun c => c == slash)) 0 a
  rw [pathParse, ForikOS.pathParse, skipSlashes_eq]
  dsimp only
  rw [h.1, h.2, Nat.zero_add]
  exact ⟨rfl, rfl⟩

/-- A component is a part of the path, and so is what is left. -/
theorem pathParse_subset (p : Str) :
    (ForikOS.pathParse p).1 ⊆ p ∧ (ForikOS.pathParse p).2.getD [] ⊆ p := by
  have hskip := (List.dropWhile_sublist (fun c => c == slash) (l := p)).subset
  rw [ForikOS.pathParse]
  dsimp only
  refine ⟨fun c hc => hskip ((List.takeWhile_sublist _).subset hc), fun c hc => ?_⟩
  by_cases hrest : (p.dropWhile (fun c => c == slash)).dropWhile (fun c => c != slash) = []
  · rw [if_pos hrest] at hc
    cases hc
  · rw [if_neg hrest, Option.getD_some] at hc
    exact hskip ((List.dropWhile_sublist _).subset hc)

/-- An array that was cleared before the name was stored: it is empty if the
    name is, and the name ends in it if it is short enough. -/
structure Holds (a : NameArray) (name : Str) : Prop where
  empty : a.bytes 0 = 0 ↔ name = []
  ends : name.length < maxFileNameLen → ∃ k, k < maxFileNameLen ∧ a.bytes k = 0

theorem holds_pathParse (hz : ∀ k, k < maxFileNameLen → a.bytes k = 0) (h0 : 0 ∉ p) :
    Holds (a.pathParse p).1 (ForikOS.pathParse p).1 := by
  have hq : 0 ∉ p.dropWhile (fun c => c == slash) :=
    fun hc => h0 ((List.dropWhile_sublist _).subset hc)
  rw [pathParse, ForikOS.pathParse, skipSlashes_eq]
  dsimp only
  refine ⟨⟨fun h => ?_, fun h => ?_⟩, fun hlen => ⟨_, hlen, ?_⟩⟩
  · by_contra hne
    exact store_head hq hne h
  · rw [store_bytes _ 0 a (Or.inr (by rw [h]; exact Nat.le_refl 0))]
    exact hz 0 (by decide)
  · rw [store_bytes _ 0 a (Or.inr (by omega))]
    exact hz _ hlen

theorem clear_bytes (a : NameArray) {k : Nat} (hk : k < maxFileNameLen) : a.clear.bytes k = 0 :=
  if_pos hk

/-- One round of the loops: what the array holds, what is left, and what has
    been stored. -/
theorem holds_parseNext (a : NameArray) (h0 : 0 ∉ sub.getD []) :
    Holds (parseNext sub a).1 (pathNext sub).1 ∧ (parseNext sub a).2 = (pathNext sub).2 ∧
      0 ∉ (pathNext sub).2.getD [] := by
  cases sub with
  | none =>
      refine ⟨⟨⟨fun _ => rfl, fun _ => a.clear_bytes (by decide)⟩, fun _ => ?_⟩, rfl, h0⟩
      exact ⟨0, by decide, a.clear_bytes (by decide)⟩
  | some p =>
      exact ⟨holds_pathParse (fun k hk => a.clear_bytes hk) h0, (pathParse_log p a.clear).2,
        fun hc => h0 ((pathParse_subset p).2 hc)⟩

/-- What is stored in a round is the next component, if there is one. -/
theorem parseNext_stored (a : NameArray) (hne : (pathNext sub).1 ≠ []) :
    (parseNext sub a).1.log = a.log ++ [.stored (pathNext sub).1.length] := by
  cases sub with
  | none => exact absurd rfl hne
  | some p => exact (pathParse_log p a.clear).1

theorem parseNext_safe (hs : NamesSafe a.log) (hn : (pathNext sub).1.length < maxFileNameLen) :
    NamesSafe (parseNext sub a).1.log := by
  cases sub with
  | none => exact hs
  | some p =>
      have hlog : (parseNext (some p) a).1.log = a.log ++ [.stored (ForikOS.pathParse p).1.length] :=
        (pathParse_log p a.clear).1
      rw [hlog]
      exact hs.stored hn

end Parse

section Loops

variable {a : NameArray} {name : Str} {sub : Option Str}

theorem remaining_eq_nil (hname : name = []) : remaining name sub = [] := if_pos hname

theorem remaining_eq_cons (hname : name ≠ []) :
    remaining name sub = name :: remaining (pathNext sub).1 (pathNext sub).2 := by
  rw [remaining, if_neg hname, remaining_pathNext]

/-- A short name can be passed on. -/
theorem pass_safe (hs : NamesSafe a.log) (ha : Holds a name)
    (hlen : name.length < maxFileNameLen) : NamesSafe a.pass.log :=
  hs.passed (ha.ends hlen)

theorem next_lt (hlen : ∀ k, k ∈ remaining (pathNext sub).1 (pathNext sub).2 →
    k.length < maxFileNameLen) : (pathNext sub).1.length < maxFileNameLen := by
  by_cases hne : (pathNext sub).1 = []
  · rw [hne]
    decide
  · exact hlen _ (by rw [remaining_eq_cons hne]; exact List.mem_cons_self)

/-- The loop of `path_depth_cnt` stores all components but the one it has. -/
theorem depthLoop_safe {n : Nat} (depth : Nat) (hn : (remaining name sub).length < n)
    (ha : a.bytes 0 = 0 ↔ name = []) (h0 : 0 ∉ sub.getD []) :
    ∃ b, depthLoop n a sub depth = some (b, depth + (remaining name sub).length) ∧
      (∀ e, e ∈ a.log → e ∈ b.log) ∧
      (∀ k, k ∈ (remaining name sub).tail → NameEvent.stored k.length ∈ b.log) ∧
      (NamesSafe a.log → (∀ k, k ∈ remaining name sub → k.length < maxFileNameLen) →
        NamesSafe b.log) := by
  -- There are more rounds than components left.
  induction n generalizing a name sub depth with
  | zero => exact absurd hn (Nat.not_lt_zero _)
  | succ n ih =>
      rw [depthLoop]
      by_cases hname : name = []
      · rw [if_pos (ha.mpr hname), remaining_eq_nil hname]
        exact ⟨a, rfl, fun _ he => he, fun _ hk => absurd hk List.not_mem_nil, fun hs _ => hs⟩
      · have hcons : remaining name sub = name :: remaining (pathNext sub).1 (pathNext sub).2 :=
          remaining_eq_cons hname
        rw [hcons, List.length_cons] at hn
        rcases holds_parseNext a h0 with ⟨hholds, hrest, hzero⟩
        rcases ih (depth + 1) (Nat.lt_of_succ_lt_succ hn) hholds.empty hzero with
          ⟨b, hrun, hkeep, hstored, hsafe⟩
        rw [if_neg (fun hc => hname (ha.mp hc)), hrest, hrun, hcons, List.length_cons]
        have hlog : ∀ e, e ∈ a.log → e ∈ (parseNext sub a).1.log := by
          intro e he
          cases sub with
          | none => exact he
          | some p =>
              have hp : (parseNext (some p) a).1.log =
                a.log ++ [.stored (ForikOS.pathParse p).1.length] := (pathParse_log p a.clear).1
              rw [hp]
              exact List.mem_append_left _ he
        refine ⟨b, ?_, fun e he => hkeep e (hlog e he), fun k hk => ?_, fun hs hlen => ?_⟩
        · congr 2
          omega
        · -- The next component is stored in this round, the others are later.
          rw [List.tail_cons] at hk
          by_cases hnext : (pathNext sub).1 = []
          · rw [remaining_eq_nil hnext] at hk
            cases hk
          · rw [remaining_eq_cons hnext] at hk hstored
            rcases List.mem_cons.mp hk with rfl | hk
            · refine hkeep _ ?_
              rw [parseNext_stored a hnext]
              exact List.mem_append_right _ (List.mem_singleton_self _)
            · exact hstored k hk
        · have htail : ∀ k, k ∈ remaining (pathNext sub).1 (pathNext sub).2 →
              k.length < maxFileNameLen := fun k hk => hlen k (List.mem_cons_of_mem _ hk)
          exact hsafe (parseNext_safe hs (next_lt htail)) htail

/-- The loop of `search_file`, whatever is found. -/
theorem searchLoop_safe (find : Nat → Option FileType) {n : Nat} (i searched : Nat)
    (hn : (remaining name sub).length < n) (ha : Holds a name) (h0 : 0 ∉ sub.getD [])
    (hs : NamesSafe a.log) (hlen : ∀ k, k ∈ remaining name sub → k.length < maxFileNameLen) :
    ∃ b, searchLoop find n i searched a sub = some b ∧ NamesSafe b.log := by
  induction n generalizing a name sub i searched with
  | zero => exact absurd hn (Nat.not_lt_zero _)
  | succ n ih =>
      rw [searchLoop]
      by_cases hname : name = []
      · rw [if_pos (ha.empty.mpr hname)]
        exact ⟨a, rfl, hs⟩
      · rw [if_neg (fun hc => hname (ha.empty.mp hc))]
        by_cases hfull : 512 ≤ searched
        · rw [if_pos hfull]
          exact ⟨a, rfl, hs⟩
        · rw [if_neg hfull]
          rw [remaining_eq_cons hname] at hn hlen
          have htail : ∀ k, k ∈ remaining (pathNext sub).1 (pathNext sub).2 →
              k.length < maxFileNameLen := fun k hk => hlen k (List.mem_cons_of_mem _ hk)
          have hpassed : Holds a.pass name := ⟨ha.empty, ha.ends⟩
          have hpass : NamesSafe a.pass.pass.log :=
            pass_safe (pass_safe hs ha (hlen name List.mem_cons_self)) hpassed
              (hlen name List.mem_cons_self)
          have hnext : NamesSafe (parseNext sub a.pass.pass).1.log :=
            parseNext_safe hpass (next_lt htail)
          rcases holds_parseNext a.pass.pass h0 with ⟨hholds, hrest, hzero⟩
          have hmore := ih (i + 1) (searched + 1 + a.str.length) (Nat.lt_of_succ_lt_succ hn)
            hholds hzero hnext htail
          dsimp only
          -- A file ends the search, anything else goes on with the next component.
          cases find i with
          | none => exact ⟨_, rfl, hpass⟩
          | some t =>
              cases t with
              | regular => exact ⟨_, rfl, hnext⟩
              | unknown =>
                  dsimp only
                  rw [hrest]
                  exact hmore
              | directory =>
                  dsimp only
                  rw [hrest]
                  exact hmore
              | other k =>
                  dsimp only
                  rw [hrest]
                  exact hmore

/-- What `wash_path` does with a name passes it on. -/
theorem washName_safe (q : Str) (hs : NamesSafe a.log) (ha : Holds a name)
    (hlen : name.length < maxFileNameLen) : NamesSafe (washName a q).1.log := by
  have h1 : NamesSafe a.pass.log := pass_safe hs ha hlen
  have ha1 : Holds a.pass name := ⟨ha.empty, ha.ends⟩
  have ha2 : Holds a.pass.pass name := ⟨ha.empty, ha.ends⟩
  have h2 : NamesSafe a.pass.pass.log := pass_safe h1 ha1 hlen
  have h3 : NamesSafe a.pass.pass.pass.log := pass_safe h2 ha2 hlen
  -- One comparison is made for `..`, two for `.`, and a third call appends.
  rw [washName]
  dsimp only
  by_cases hup : a.pass.str = dotdotName
  · rw [if_pos hup]
    exact h1
  · rw [if_neg hup]
    by_cases hdot : a.pass.pass.str = dotName
    · rw [if_pos hdot]
      exact h2
    · rw [if_neg hdot]
      exact h3

/-- The loop of `wash_path`. -/
theorem washLoop_safe {n : Nat} (q : Str) (hn : (remaining name sub).length < n)
    (ha : Holds a name) (h0 : 0 ∉ sub.getD []) (hs : NamesSafe a.log)
    (hlen : ∀ k, k ∈ remaining name sub → k.length < maxFileNameLen) :
    ∃ b q', washLoop n a sub q = some (b, q') ∧ NamesSafe b.log := by
  induction n generalizing a name sub q with
  | zero => exact absurd hn (Nat.not_lt_zero _)
  | succ n ih =>
      rw [washLoop]
      by_cases hname : name = []
      · rw [if_pos (ha.empty.mpr hname)]
        exact ⟨a, q, rfl, hs⟩
      · rw [if_neg (fun hc => hname (ha.empty.mp hc))]
        rw [remaining_eq_cons hname] at hn hlen
        have htail : ∀ k, k ∈ remaining (pathNext sub).1 (pathNext sub).2 →
            k.length < maxFileNameLen := fun k hk => hlen k (List.mem_cons_of_mem _ hk)
        have hwash := washName_safe q hs ha (hlen name List.mem_cons_self)
        rcases holds_parseNext (washName a q).1 h0 with ⟨hholds, hrest, hzero⟩
        dsimp only
        rw [hrest]
        exact ih _ (Nat.lt_of_succ_lt_succ hn) hholds hzero
          (parseNext_safe hwash (next_lt htail)) htail

end Loops

section Callers

variable {path : Str}

/-- The loops get by with the rounds they have. -/
theorem remaining_lt (p : Str) : (components p).length < p.length + 2 := by
  have := length_le_joined (components p)
  have := length_joined_le p
  omega

theorem zeros_holds (h0 : 0 ∉ path) :
    Holds (zeros.pathParse path).1 (ForikOS.pathParse path).1 ∧
      (zeros.pathParse path).2 = (ForikOS.pathParse path).2 ∧
      0 ∉ (ForikOS.pathParse path).2.getD [] :=
  ⟨holds_pathParse (fun _ _ => rfl) h0, (pathParse_log path zeros).2,
    fun hc => h0 ((pathParse_subset path).2 hc)⟩

/-- The name that is stored first is a component, or empty. -/
theorem first_lt (hlen : ∀ c, c ∈ components path → c.length < maxFileNameLen) :
    (ForikOS.pathParse path).1.length < maxFileNameLen :=
  @next_lt (some path) (by rw [remaining_pathNext]; exact hlen)

theorem zeros_safe (hlen : ∀ c, c ∈ components path → c.length < maxFileNameLen) :
    NamesSafe (zeros.pathParse path).1.log := by
  rw [(pathParse_log path zeros).1]
  exact NamesSafe.nil.stored (first_lt hlen)

/-- Where there is no component, nothing is left of the path. -/
theorem pathParse_none (hname : (ForikOS.pathParse path).1 = []) :
    (ForikOS.pathParse path).2 = none := by
  have hhead := List.head?_dropWhile_not (fun c => c == slash) path
  rw [ForikOS.pathParse] at hname ⊢
  dsimp only at hname ⊢
  generalize path.dropWhile (fun c => c == slash) = q at hname hhead ⊢
  cases q with
  | nil => rfl
  | cons c q =>
      rw [List.takeWhile_cons] at hname
      by_cases hc : c = slash
      · rw [hc] at hhead
        cases hhead
      · rw [if_pos (bne_iff_ne.mpr hc)] at hname
        cases hname

/-- `path_depth_cnt` stores every component, whatever the array holds before. -/
theorem pathDepthCnt_safe (junk : Nat → Byte) (h0 : 0 ∉ path) :
    ∃ b n, pathDepthCnt path junk = some (b, n) ∧
      (∀ c, c ∈ components path → NameEvent.stored c.length ∈ b.log) ∧
      ((∀ c, c ∈ components path → c.length < maxFileNameLen) → NamesSafe b.log) := by
  have hrest := (pathParse_log path ⟨junk, []⟩).2
  have hlog := (pathParse_log path ⟨junk, []⟩).1
  have hzero : 0 ∉ (ForikOS.pathParse path).2.getD [] := fun hc => h0 ((pathParse_subset path).2 hc)
  have hlt := remaining_lt path
  rw [pathDepthCnt, hrest]
  by_cases hname : (ForikOS.pathParse path).1 = []
  · -- Without a component it is the first byte of the array that counts.
    have hnil : components path = [] := by rw [← remaining_pathParse, remaining_eq_nil hname]
    have hsafe : NamesSafe ((⟨junk, []⟩ : NameArray).pathParse path).1.log := by
      rw [hlog, hname]
      exact NamesSafe.nil.stored (by decide)
    rw [hnil, pathParse_none hname]
    generalize ((⟨junk, []⟩ : NameArray).pathParse path).1 = a at hsafe ⊢
    -- A zero there ends the loop at once. Otherwise it runs once.
    by_cases hjunk : a.bytes 0 = 0
    · rw [depthLoop, if_pos hjunk]
      exact ⟨a, 0, rfl, fun c hc => absurd hc List.not_mem_nil, fun _ => hsafe⟩
    · have hone : a.bytes 0 = 0 ↔ [slash] = [] :=
        ⟨fun h => absurd h hjunk, fun h => absurd h (List.cons_ne_nil _ _)⟩
      rcases @depthLoop_safe _ _ none _ 0 (Nat.lt_add_of_pos_left (Nat.succ_pos _)) hone
        List.not_mem_nil with ⟨b, hrun, -, -, hloop⟩
      refine ⟨b, _, hrun, fun c hc => absurd hc List.not_mem_nil, fun _ => hloop hsafe ?_⟩
      intro k hk
      rw [List.mem_singleton.mp hk]
      decide
  · -- The first name is stored before the loop, which stores the others.
    have hfirst : (∀ c, c ∈ components path → c.length < maxFileNameLen) →
        NamesSafe ((⟨junk, []⟩ : NameArray).pathParse path).1.log := by
      intro hlen
      rw [hlog]
      exact NamesSafe.nil.stored (first_lt hlen)
    have hbyte : ((⟨junk, []⟩ : NameArray).pathParse path).1.bytes 0 = 0 ↔
        (ForikOS.pathParse path).1 = [] := by
      refine ⟨fun h => ?_, fun h => absurd h hname⟩
      rw [pathParse, skipSlashes_eq] at h
      exact absurd h (store_head (fun hc => h0 ((List.dropWhile_sublist _).subset hc)) hname)
    rw [← remaining_pathParse] at hlt hfirst ⊢
    rcases depthLoop_safe 0 hlt hbyte hzero with ⟨b, hrun, hkeep, hstored, hsafe⟩
    refine ⟨b, _, hrun, fun c hc => ?_, fun hlen => hsafe (hfirst hlen) hlen⟩
    rw [remaining_eq_cons hname] at hc hstored
    rcases List.mem_cons.mp hc with rfl | hc
    · refine hkeep _ ?_
      rw [hlog]
      exact List.mem_singleton_self _
    · exact hstored c hc

theorem searchFile_safe (find : Nat → Option FileType) (h0 : 0 ∉ path)
    (hlen : ∀ c, c ∈ components path → c.length < maxFileNameLen) :
    ∃ b, searchFile find path = some b ∧ NamesSafe b.log := by
  rcases zeros_holds h0 with ⟨hholds, hrest, hzero⟩
  have hsafe := zeros_safe hlen
  have hlt := remaining_lt path
  rw [← remaining_pathParse] at hlt hlen
  rw [searchFile]
  by_cases hroot : path = [slash] ∨ path = slash :: dotName ∨ path = slash :: dotdotName
  · rw [if_pos hroot]
    exact ⟨zeros, rfl, NamesSafe.nil⟩
  · rw [if_neg hroot]
    by_cases habs : path.head? = some slash ∧ 1 < path.length ∧ path.length < maxPathLen
    · rw [if_pos habs]
      dsimp only
      rw [hrest]
      exact searchLoop_safe find 0 0 hlt hholds hzero hsafe hlen
    · rw [if_neg habs]
      exact ⟨zeros, rfl, NamesSafe.nil⟩

theorem washPath_safe (h0 : 0 ∉ path)
    (hlen : ∀ c, c ∈ components path → c.length < maxFileNameLen) :
    ∃ b q, washPath path = some (b, q) ∧ NamesSafe b.log := by
  rcases zeros_holds h0 with ⟨hholds, hrest, hzero⟩
  have hsafe := zeros_safe hlen
  have hlt := remaining_lt path
  rw [← remaining_pathParse] at hlt hlen
  rw [washPath]
  by_cases habs : path.head? = some slash
  · rw [if_pos habs]
    dsimp only
    rw [hrest]
    exact washLoop_safe [slash] hlt hholds hzero hsafe hlen
  · rw [if_neg habs]
    exact ⟨zeros, [], rfl, NamesSafe.nil⟩

end Callers

end NameArray

section Names

/-- `path_depth_cnt`, `search_file` and `wash_path` keep the names of a path in
    their arrays, terminated, exactly if no component has more than fifteen
    bytes. -/
theorem names_fit_iff (path : Str) (h0 : 0 ∉ path) :
    ((∀ junk, ∃ b n, NameArray.pathDepthCnt path junk = some (b, n) ∧ NamesSafe b.log) ∧
      (∀ find, ∃ b, NameArray.searchFile find path = some b ∧ NamesSafe b.log) ∧
      ∃ b q, NameArray.washPath path = some (b, q) ∧ NamesSafe b.log) ↔
    ∀ c, c ∈ components path → c.length < maxFileNameLen := by
  refine ⟨fun h c hc => ?_, fun hlen => ⟨fun junk => ?_, fun find => ?_, ?_⟩⟩
  · rcases h.1 (fun _ => 0) with ⟨b, n, hrun, hsafe⟩
    rcases NameArray.pathDepthCnt_safe (fun _ => 0) h0 with ⟨b', n', hrun', hstored, -⟩
    rw [hrun, Option.some.injEq, Prod.mk.injEq] at hrun'
    rw [← hrun'.1] at hstored
    exact hsafe.refused _ (hstored c hc)
  · rcases NameArray.pathDepthCnt_safe junk h0 with ⟨b, n, hrun, -, hsafe⟩
    exact ⟨b, n, hrun, hsafe hlen⟩
  · exact NameArray.searchFile_safe find h0 hlen
  · exact NameArray.washPath_safe h0 hlen

/-- The path `/a`. -/
theorem names_fit_iff_a :
    ((∀ junk, ∃ b n, NameArray.pathDepthCnt [slash, 97] junk = some (b, n) ∧ NamesSafe b.log) ∧
      (∀ find, ∃ b, NameArray.searchFile find [slash, 97] = some b ∧ NamesSafe b.log) ∧
      ∃ b q, NameArray.washPath [slash, 97] = some (b, q) ∧ NamesSafe b.log) := by
  refine (names_fit_iff [slash, 97] (by decide)).mpr (fun c hc => ?_)
  rw [components_slash, components_of_not_mem (by decide) (by decide), List.mem_singleton] at hc
  rw [hc]
  decide

/-- A component of seventeen bytes is written past the end of the array by
    each of the three functions, and none of them refuses it. -/
theorem component_overruns_name :
    let path : Str := slash :: List.replicate 17 97
    0 ∉ path ∧ path.length < maxPathLen ∧
      (∃ b n, NameArray.pathDepthCnt path (fun _ => 0) = some (b, n) ∧ ¬ NamesSafe b.log) ∧
      (∃ b, NameArray.searchFile (fun _ => none) path = some b ∧ ¬ NamesSafe b.log) ∧
      ∃ b q, NameArray.washPath path = some (b, q) ∧ ¬ NamesSafe b.log := by
  have hlong : ¬ 17 ≤ maxFileNameLen := by decide
  refine ⟨by decide, by decide, ⟨_, _, rfl, fun hs => ?_⟩, ⟨_, rfl, fun hs => ?_⟩,
    ⟨_, _, rfl, fun hs => ?_⟩⟩
  · exact hlong (hs.inside 17 List.mem_cons_self)
  · exact hlong (hs.inside 17 List.mem_cons_self)
  · exact hlong (hs.inside 17 List.mem_cons_self)

end Names

end ForikOS
