import ForikOS.Core.WashPath
import ForikOS.Theory.CString
import ForikOS.Theory.Getcwd
import ForikOS.Theory.PathName

/-!
# Washed Paths

`wash_path` computes a list of names: a dot is skipped, two dots take the last
name away again, and any other name is added. The list is nowhere in memory.
What the buffer holds is the canonical path of the names so far, a terminated
string: two dots cut it at its last slash, and a name is appended behind one.

The canonical path of the root is the slash, which is the case the code treats
separately when it cuts and when it appends.

## Main definitions

* `keepName`, `keptNames`: The names that are left of a path.
* `Clean`: A path without dots, without empty names and without a slash behind.

## Theorems

* `washName_canonical`: One name.
* `washLoop_canonical`: All that remain.
* `washed_canonical`: `wash_path`, and `wash_path` of what it returns.
-/

namespace ForikOS

/-- One name, with the names that are kept so far. -/
def keepName (kept : List Str) (k : Str) : List Str :=
  if k = dotName then kept else if k = dotdotName then kept.dropLast else kept ++ [k]

/-- The names that are left of a path. -/
def keptNames (p : Str) : List Str := (components p).foldl keepName []

/-- A path without dots, without empty names and without a slash at its end. -/
structure Clean (q : Str) : Prop where
  absolute : q.head? = some slash
  names : ∀ k, k ∈ components q → k ≠ dotName ∧ k ≠ dotdotName
  nonempty : q ≠ [slash] → ∀ k, k ∈ (q.splitOn slash).tail → k ≠ []
  trailing : q ≠ [slash] → q.getLast? ≠ some slash

section Names

variable {kept ks : List Str} {k p : Str}

/-- What is kept has come in, and it is not a dot. -/
theorem mem_foldl_keepName {c : Str} (h : c ∈ ks.foldl keepName kept) :
    c ∈ kept ∨ c ∈ ks ∧ c ≠ dotName ∧ c ≠ dotdotName := by
  induction ks generalizing kept with
  | nil => exact Or.inl h
  | cons k ks ih =>
      rcases ih h with h | h
      · unfold keepName at h
        by_cases hdot : k = dotName
        · rw [if_pos hdot] at h
          exact Or.inl h
        · rw [if_neg hdot] at h
          by_cases hup : k = dotdotName
          · rw [if_pos hup] at h
            exact Or.inl ((List.dropLast_sublist kept).subset h)
          · rw [if_neg hup, List.mem_append, List.mem_singleton] at h
            rcases h with h | rfl
            · exact Or.inl h
            · exact Or.inr ⟨List.mem_cons_self, hdot, hup⟩
      · exact Or.inr ⟨List.mem_cons_of_mem k h.1, h.2⟩

theorem mem_keptNames (h : k ∈ keptNames p) :
    k ∈ components p ∧ k ≠ dotName ∧ k ≠ dotdotName := by
  rcases mem_foldl_keepName h with hc | hc
  · cases hc
  · exact hc

/-- Names without dots are all kept. -/
theorem foldl_keepName (h : ∀ k, k ∈ ks → k ≠ dotName ∧ k ≠ dotdotName) :
    ks.foldl keepName kept = kept ++ ks := by
  induction ks generalizing kept with
  | nil => exact (List.append_nil kept).symm
  | cons k ks ih =>
      have hk := h k List.mem_cons_self
      rw [List.foldl_cons, ih (fun c hc => h c (List.mem_cons_of_mem k hc)), keepName, if_neg hk.1,
        if_neg hk.2, List.append_assoc]
      rfl

/-- A slash, and the names with slashes between them. -/
theorem canonicalPath_eq (ks : List Str) :
    canonicalPath ks = slash :: [slash].intercalate ks := by
  unfold canonicalPath
  induction ks with
  | nil => rfl
  | cons k ks ih =>
      rw [if_neg (List.cons_ne_nil k ks)]
      have hcons : joined (k :: ks) = slash :: (k ++ joined ks) := rfl
      cases ks with
      | nil =>
          rw [hcons, joined, List.flatMap_nil, List.append_nil, List.intercalate_singleton]
      | cons l ks =>
          rw [if_neg (List.cons_ne_nil l ks)] at ih
          rw [hcons, ih, List.intercalate_cons_cons, List.append_assoc]
          rfl

theorem canonicalPath_snoc (ks : List Str) (k : Str) :
    canonicalPath (ks ++ [k]) = joined ks ++ slash :: k := by
  rw [canonicalPath, if_neg (by simp), joined_append]

/-- Only the root has the slash for its canonical path. -/
theorem canonicalPath_root (h : ∀ k, k ∈ ks → k ≠ []) : canonicalPath ks = [slash] ↔ ks = [] := by
  refine ⟨fun hroot => ?_, fun hnil => by rw [hnil]; rfl⟩
  cases ks with
  | nil => rfl
  | cons k ks =>
      have hcons : joined (k :: ks) = slash :: (k ++ joined ks) := rfl
      rw [canonicalPath, if_neg (List.cons_ne_nil k ks), hcons, List.cons.injEq,
        List.append_eq_nil_iff] at hroot
      exact absurd hroot.2.1 (h k List.mem_cons_self)

theorem length_canonicalPath (ks : List Str) :
    (canonicalPath ks).length ≤ (joined ks).length + 1 ∧
      (ks ≠ [] → (canonicalPath ks).length = (joined ks).length) := by
  unfold canonicalPath
  by_cases hnil : ks = []
  · rw [if_pos hnil]
    exact ⟨by simp, fun h => absurd hnil h⟩
  · rw [if_neg hnil]
    exact ⟨Nat.le_succ _, fun _ => rfl⟩

end Names

section Buffer

variable {buf name : Nat → Byte} {kept : List Str} {k : Str}

theorem termAt_slash : TermAt (literal [slash]) 0 [slash] := termAt_literal (by decide)

/-- Two dots: the string is cut at its last slash. -/
theorem cutLast_canonical (hbuf : TermAt buf 0 (canonicalPath kept))
    (hnames : ∀ k, k ∈ kept → slash ∉ k) (hlen : (canonicalPath kept).length < 2 ^ 32) :
    ∃ buf', PathBuf.cutLast buf = some buf' ∧ TermAt buf' 0 (canonicalPath kept.dropLast) ∧
      ∀ x, (canonicalPath kept).length < x → buf' x = buf x := by
  have hsmall : slash.toNat < 128 := by decide
  unfold PathBuf.cutLast
  rcases List.eq_nil_or_concat kept with rfl | ⟨ks, k, rfl⟩
  · -- The root: the slash is the first byte, and it stays.
    have hlast : strrchr buf 0 slash = some (some (0 + 0)) :=
      @strrchr_last buf 0 slash [] [] hsmall hbuf hlen List.not_mem_nil
    rw [hlast, Option.bind_some, Option.map_some, if_neg (by decide)]
    refine ⟨_, rfl, hbuf.cut (s := [slash]) (t := []), fun x hx => ?_⟩
    have hone : (canonicalPath []).length = 1 := rfl
    exact Function.update_of_ne (by omega) _ _
  · rw [List.concat_eq_append] at hbuf hnames hlen ⊢
    rw [canonicalPath_snoc] at hbuf hlen ⊢
    have hk : slash ∉ k := hnames k (List.mem_append_right _ (List.mem_singleton_self k))
    rw [strrchr_last hsmall hbuf hlen hk, Option.bind_some, Option.map_some, Nat.zero_add,
      List.dropLast_concat]
    by_cases hroot : ks = []
    · -- One name is left, and the slash in front of it is the first byte.
      subst hroot
      have hzero : (joined []).length = 0 := rfl
      rw [if_neg (by rw [hzero]; decide)]
      refine ⟨_, rfl, hbuf.cut (s := [slash]) (t := k), fun x hx => ?_⟩
      rw [List.length_append, List.length_cons] at hx
      exact Function.update_of_ne (by omega) _ _
    · -- The slash becomes the end of the string, and the other names stay.
      have hpos : (joined ks).length ≠ 0 := by
        have := length_le_joined ks
        have := List.length_pos_of_ne_nil hroot
        omega
      have hcut := hbuf.cut
      rw [Nat.zero_add] at hcut
      rw [if_pos hpos, canonicalPath, if_neg hroot]
      refine ⟨_, rfl, hcut, fun x hx => ?_⟩
      rw [List.length_append, List.length_cons] at hx
      exact Function.update_of_ne (by omega) _ _

/-- A name: it is put behind a slash. -/
theorem append_canonical (hbuf : TermAt buf 0 (canonicalPath kept)) (hname : TermAt name 0 k)
    (hnames : ∀ k, k ∈ kept → k ≠ []) (hlen : (joined kept).length + k.length + 1 < 2 ^ 32) :
    ∃ buf', PathBuf.append buf name = some buf' ∧ TermAt buf' 0 (canonicalPath (kept ++ [k])) ∧
      ∀ x, (joined kept).length + k.length + 1 < x → buf' x = buf x := by
  have hcur := length_canonicalPath kept
  rcases strcmp_eq_zero hbuf termAt_slash (by omega) with ⟨r, hcmp, hr⟩
  unfold PathBuf.append
  rw [hcmp, Option.bind_some, canonicalPath_snoc]
  by_cases hroot : kept = []
  · -- The slash of the root is the one the name is put behind.
    subst hroot
    have hjoined : (joined []).length = 0 := rfl
    have hone : ([slash] : Str).length = 1 := rfl
    rw [if_neg (not_not.mpr (hr.mpr rfl)), Option.bind_some]
    rcases strcat_spec (s := [slash]) hbuf hname (by omega) (by omega) with
      ⟨buf', hrun, hterm, hframe⟩
    exact ⟨buf', hrun, hterm, fun x hx => hframe x (by omega)⟩
  · -- A slash is appended, and the name behind it.
    have hjoined : canonicalPath kept = joined kept := if_neg hroot
    have hone : ([slash] : Str).length = 1 := rfl
    rw [if_pos (fun hc => hroot ((canonicalPath_root hnames).mp (hr.mp hc)))]
    rw [hjoined] at hbuf
    rcases strcat_spec hbuf termAt_slash (by omega) (by omega) with ⟨buf₁, hrun₁, hterm₁, hframe₁⟩
    have hlen₁ : (joined kept ++ [slash]).length = (joined kept).length + 1 := List.length_append
    rcases strcat_spec hterm₁ hname (by omega) (by omega) with ⟨buf₂, hrun₂, hterm₂, hframe₂⟩
    rw [hrun₁, Option.bind_some, hrun₂]
    rw [List.append_assoc] at hterm₂
    refine ⟨buf₂, rfl, hterm₂, fun x hx => ?_⟩
    rw [hframe₂ x (by omega), hframe₁ x (by omega)]

/-- One name. -/
theorem washName_canonical (hbuf : TermAt buf 0 (canonicalPath kept)) (hname : TermAt name 0 k)
    (hnames : ∀ k, k ∈ kept → k ≠ [] ∧ slash ∉ k)
    (hlen : (joined kept).length + k.length + 1 < 2 ^ 32) (hk : k ≠ []) :
    ∃ buf', PathBuf.washName name buf = some buf' ∧ TermAt buf' 0 (canonicalPath (keepName kept k)) ∧
      ∀ x, (joined kept).length + k.length + 1 < x → buf' x = buf x := by
  have hcur := length_canonicalPath kept
  have hpos := List.length_pos_of_ne_nil hk
  rcases strcmp_eq_zero (termAt_literal (by decide : 0 ∉ dotdotName)) hname (by decide) with
    ⟨r, hup, hr⟩
  unfold PathBuf.washName keepName
  rw [hup, Option.bind_some]
  by_cases hdd : k = dotdotName
  · rw [if_pos (hr.mpr hdd.symm), if_neg (by rw [hdd]; decide), if_pos hdd]
    rcases cutLast_canonical hbuf (fun c hc => (hnames c hc).2) (by omega) with
      ⟨buf', hrun, hterm, hframe⟩
    exact ⟨buf', hrun, hterm, fun x hx => hframe x (by omega)⟩
  · rcases strcmp_eq_zero (termAt_literal (by decide : 0 ∉ dotName)) hname (by decide) with
      ⟨r', hdot, hr'⟩
    rw [if_neg (fun hc => hdd (hr.mp hc).symm), hdot, Option.bind_some]
    by_cases hd : k = dotName
    · rw [if_neg (not_not.mpr (hr'.mpr hd.symm)), if_pos hd]
      exact ⟨buf, rfl, hbuf, fun _ _ => rfl⟩
    · rw [if_pos (fun hc => hd (hr'.mp hc).symm), if_neg hd, if_neg hdd]
      exact append_canonical hbuf hname (fun c hc => (hnames c hc).1) hlen

end Buffer

section Array

variable {a : NameArray} {p : Str} {sub : Option Str}

/-- A short name in an array that was cleared is a string. -/
theorem termAt_pathParse (hz : ∀ k, k < maxFileNameLen → a.bytes k = 0) (h0 : 0 ∉ p)
    (hlen : (pathParse p).1.length < maxFileNameLen) :
    TermAt (a.pathParse p).1.bytes 0 (pathParse p).1 := by
  have hsub := (NameArray.pathParse_subset p).1
  rw [NameArray.pathParse, NameArray.skipSlashes_eq]
  rw [pathParse] at hlen hsub ⊢
  dsimp only at hlen hsub ⊢
  refine ⟨NameArray.store_cells _ 0 a, ?_, fun hc => h0 (hsub hc)⟩
  rw [Nat.zero_add, NameArray.store_bytes _ 0 a (Or.inr (Nat.le_of_eq (Nat.zero_add _)))]
  exact hz _ hlen

theorem termAt_parseNext (a : NameArray) (h0 : 0 ∉ sub.getD [])
    (hlen : (pathNext sub).1.length < maxFileNameLen) :
    TermAt (NameArray.parseNext sub a).1.bytes 0 (pathNext sub).1 := by
  cases sub with
  | none => exact termAt_nil.mpr (a.clear_bytes (by decide))
  | some p => exact termAt_pathParse (fun k hk => a.clear_bytes hk) h0 hlen

end Array

section Loop

variable {path name : Str} {sub : Option Str} {kept : List Str}

theorem keepName_sound {k : Str} (h : ∀ c, c ∈ kept → c ≠ [] ∧ slash ∉ c) (hk : k ≠ [] ∧ slash ∉ k) :
    ∀ c, c ∈ keepName kept k → c ≠ [] ∧ slash ∉ c := by
  intro c hc
  have hfold : c ∈ [k].foldl keepName kept := hc
  rcases mem_foldl_keepName hfold with hc | hc
  · exact h c hc
  · rw [List.mem_singleton.mp hc.1]
    exact hk

/-- A name takes a slash and its bytes. -/
theorem length_joined_keepName (kept : List Str) (k : Str) :
    (joined (keepName kept k)).length ≤ (joined kept).length + k.length + 1 := by
  unfold keepName
  by_cases hd : k = dotName
  · rw [if_pos hd]
    omega
  · rw [if_neg hd]
    by_cases hdd : k = dotdotName
    · rw [if_pos hdd]
      rcases List.eq_nil_or_concat kept with rfl | ⟨ks, l, rfl⟩
      · exact Nat.zero_le _
      · rw [List.concat_eq_append, List.dropLast_concat, joined_append, List.length_append]
        omega
    · rw [if_neg hdd, joined_append, List.length_append, List.length_cons]
      omega

/-- The rounds that remain. `N` is the room that the names so far and the
    remaining ones take. -/
theorem washLoop_canonical {n N : Nat} {a : NameArray} {buf : Nat → Byte}
    (hn : (remaining name sub).length < n) (ha : TermAt a.bytes 0 name) (h0 : 0 ∉ sub.getD [])
    (hlen : ∀ k, k ∈ remaining name sub → k.length < maxFileNameLen)
    (hslash : ∀ k, k ∈ remaining name sub → slash ∉ k)
    (hbuf : TermAt buf 0 (canonicalPath kept)) (hkept : ∀ k, k ∈ kept → k ≠ [] ∧ slash ∉ k)
    (hroom : (joined kept).length + (joined (remaining name sub)).length ≤ N) (hN : N < 2 ^ 32) :
    ∃ buf', PathBuf.washLoop n a sub buf = some buf' ∧
      TermAt buf' 0 (canonicalPath ((remaining name sub).foldl keepName kept)) ∧
      ∀ x, N < x → buf' x = buf x := by
  -- The rounds are those of the loop over the names.
  induction n generalizing a name sub kept buf with
  | zero => exact absurd hn (Nat.not_lt_zero _)
  | succ n ih =>
      rw [PathBuf.washLoop]
      by_cases hname : name = []
      · subst hname
        rw [if_pos (termAt_nil.mp ha)]
        exact ⟨buf, rfl, hbuf, fun _ _ => rfl⟩
      · have hfirst : a.bytes 0 ≠ 0 := by
          cases name with
          | nil => exact absurd rfl hname
          | cons c s =>
              rw [(termAt_cons.mp ha).1]
              exact (termAt_cons.mp ha).2.1
        have hcons : remaining name sub = name :: remaining (pathNext sub).1 (pathNext sub).2 :=
          NameArray.remaining_eq_cons hname
        rw [hcons] at hn hlen hslash hroom ⊢
        have hjoined : joined (name :: remaining (pathNext sub).1 (pathNext sub).2) =
            slash :: (name ++ joined (remaining (pathNext sub).1 (pathNext sub).2)) := rfl
        rw [hjoined, List.length_cons, List.length_append] at hroom
        have hself := hslash name List.mem_cons_self
        rcases washName_canonical hbuf ha hkept (by omega) hname with ⟨buf₁, hrun₁, hterm₁, hframe₁⟩
        rcases NameArray.holds_parseNext a h0 with ⟨-, hrest, hzero⟩
        have htail : ∀ k, k ∈ remaining (pathNext sub).1 (pathNext sub).2 →
            k.length < maxFileNameLen := fun k hk => hlen k (List.mem_cons_of_mem _ hk)
        have hnext := termAt_parseNext a h0 (NameArray.next_lt htail)
        have hgrown := length_joined_keepName kept name
        rcases ih (Nat.lt_of_succ_lt_succ hn) hnext hzero htail
          (fun k hk => hslash k (List.mem_cons_of_mem _ hk)) hterm₁
          (keepName_sound hkept ⟨hname, hself⟩) (by omega) with ⟨buf₂, hrun₂, hterm₂, hframe₂⟩
        rw [if_neg hfirst, hrun₁, Option.bind_some, hrest, hrun₂]
        refine ⟨buf₂, rfl, hterm₂, fun x hx => ?_⟩
        rw [hframe₂ x hx, hframe₁ x (by omega)]

end Loop

section Wash

variable {path : Str}

/-- `wash_path` of a path whose names have at most fifteen bytes. -/
theorem washPath_canonical (habs : path.head? = some slash) (h0 : 0 ∉ path)
    (hnames : ∀ k, k ∈ components path → k.length < maxFileNameLen)
    (hlen : path.length < maxPathLen) (buf : Nat → Byte) :
    ∃ buf', PathBuf.washPath path buf = some buf' ∧
      TermAt buf' 0 (canonicalPath (keptNames path)) ∧ ∀ x, path.length < x → buf' x = buf x := by
  have hmax : maxPathLen = 512 := rfl
  have hone : 0 < path.length := by
    cases path with
    | nil => cases habs
    | cons c p => exact Nat.succ_pos _
  have hzeros := termAt_pathParse (fun _ _ => rfl : ∀ k, k < maxFileNameLen →
    NameArray.zeros.bytes k = 0) h0 (NameArray.first_lt hnames)
  rcases NameArray.zeros_holds h0 with ⟨-, hrest, hzero⟩
  unfold PathBuf.washPath
  rw [if_pos habs]
  dsimp only
  by_cases hname : (pathParse path).1 = []
  · -- A path without a name is the root.
    have hnil : components path = [] := by
      rw [← remaining_pathParse, NameArray.remaining_eq_nil hname]
    rw [hname] at hzeros
    rw [if_pos (termAt_nil.mp hzeros), keptNames, hnil]
    refine ⟨_, rfl, termAt_cons.mpr ⟨?_, by decide, termAt_nil.mpr (Function.update_self _ _ _)⟩,
      fun x hx => ?_⟩
    · rw [Function.update_of_ne (by decide), Function.update_self]
    · rw [Function.update_of_ne (by omega), Function.update_of_ne (by omega)]
  · -- The string begins empty, and the first `strcat` makes it the root.
    have hfirst : (NameArray.zeros.pathParse path).1.bytes 0 ≠ 0 := by
      intro hc
      cases hp : (pathParse path).1 with
      | nil => exact hname hp
      | cons c s =>
          rw [hp] at hzeros
          exact (termAt_cons.mp hzeros).2.1 ((termAt_cons.mp hzeros).1.symm.trans hc)
    have hempty : TermAt (Function.update buf 0 0) 0 ([] : Str) :=
      termAt_nil.mpr (Function.update_self _ _ _)
    rcases strcat_spec hempty termAt_slash (by decide) (by decide) with
      ⟨buf₁, hrun₁, hterm₁, hframe₁⟩
    have hsome : (components path).length < path.length + 2 := NameArray.remaining_lt path
    have hroom := length_joined_components habs
    rw [if_neg hfirst, hrun₁, Option.bind_some, hrest]
    rw [← remaining_pathParse] at hnames hsome hroom
    -- The loop keeps the string canonical and as long as the names it has read.
    rcases @washLoop_canonical _ _ [] _ path.length _ _ hsome hzeros hzero hnames
      (fun k hk => (mem_components (by rwa [remaining_pathParse] at hk)).2.1) hterm₁
      (fun k hk => absurd hk List.not_mem_nil) (by rw [joined, List.flatMap_nil]; simpa using hroom)
      (by omega) with ⟨buf₂, hrun₂, hterm₂, hframe₂⟩
    rw [remaining_pathParse] at hterm₂
    refine ⟨buf₂, hrun₂, hterm₂, fun x hx => ?_⟩
    have hslash : ([slash] : Str).length = 1 := rfl
    have hnil : ([] : Str).length = 0 := rfl
    rw [hframe₂ x hx, hframe₁ x (by omega), Function.update_of_ne (by omega)]

/-- The names of a canonical path are the names it was made of. -/
theorem components_canonicalPath {ks : List Str} (h : ∀ k, k ∈ ks → k ≠ [] ∧ slash ∉ k) :
    components (canonicalPath ks) = ks := by
  unfold canonicalPath
  by_cases hnil : ks = []
  · rw [if_pos hnil, hnil]
    rfl
  · rw [if_neg hnil]
    exact components_joined h

theorem keptNames_sound {k : Str} (h : k ∈ keptNames path) : k ≠ [] ∧ slash ∉ k :=
  have hk := mem_components (mem_keptNames h).1
  ⟨hk.1, hk.2.1⟩

/-- Washing twice keeps the same names. -/
theorem keptNames_canonicalPath (path : Str) :
    keptNames (canonicalPath (keptNames path)) = keptNames path := by
  have hcomp : components (canonicalPath (keptNames path)) = keptNames path :=
    components_canonicalPath (fun k hk => keptNames_sound hk)
  rw [keptNames, hcomp, foldl_keepName (fun k hk => (mem_keptNames hk).2), List.nil_append]

/-- The pieces between the slashes of a canonical path are its names. -/
theorem splitOn_joined {k : Str} {ks : List Str} (h : ∀ l, l ∈ k :: ks → slash ∉ l) :
    (joined (k :: ks)).splitOn slash = [] :: k :: ks := by
  induction ks generalizing k with
  | nil =>
      have hjoined : joined [k] = [] ++ slash :: k := by
        rw [joined, List.flatMap_singleton]
        rfl
      rw [hjoined, List.splitOn_append_cons_self, List.splitOn_nil,
        List.splitOn_eq_singleton (h k List.mem_cons_self)]
      rfl
  | cons l ks ih =>
      have hrest := ih (fun c hc => h c (List.mem_cons_of_mem k hc))
      have hjoined : joined (k :: l :: ks) = [] ++ slash :: (k ++ slash :: (l ++ joined ks)) := rfl
      have hnext : joined (l :: ks) = [] ++ slash :: (l ++ joined ks) := rfl
      rw [hnext, List.splitOn_append_cons_self, List.splitOn_nil] at hrest
      rw [hjoined, List.splitOn_append_cons_self, List.splitOn_nil, List.splitOn_append_cons_self,
        List.splitOn_eq_singleton (h k List.mem_cons_self)]
      simp only [List.cons_append, List.nil_append, List.cons.injEq, true_and] at hrest ⊢
      exact hrest

/-- The names that are left do not take more than the names that came. -/
theorem length_joined_foldl (ks kept : List Str) :
    (joined (ks.foldl keepName kept)).length ≤ (joined kept).length + (joined ks).length := by
  induction ks generalizing kept with
  | nil => exact Nat.le_add_right _ _
  | cons k ks ih =>
      have hrest := ih (keepName kept k)
      have hname := length_joined_keepName kept k
      have hjoined : joined (k :: ks) = slash :: (k ++ joined ks) := rfl
      rw [List.foldl_cons, hjoined, List.length_cons, List.length_append]
      omega

/-- A path is not longer for being washed. -/
theorem length_washed (habs : path.head? = some slash) :
    (canonicalPath (keptNames path)).length ≤ path.length := by
  have hpath : path ≠ [] := fun h => by simp [h] at habs
  have hpos := List.length_pos_of_ne_nil hpath
  have hnames := length_joined_components habs
  have hkept : (joined (keptNames path)).length ≤ 0 + (joined (components path)).length :=
    length_joined_foldl (components path) []
  rcases length_canonicalPath (keptNames path) with ⟨-, hsome⟩
  by_cases hnil : keptNames path = []
  · -- Only the slash is left.
    rw [hnil]
    exact hpos
  · rw [hsome hnil]
    omega

theorem clean_canonicalPath (path : Str) : Clean (canonicalPath (keptNames path)) := by
  have hsound : ∀ k, k ∈ keptNames path → k ≠ [] ∧ slash ∉ k := fun k hk => keptNames_sound hk
  refine ⟨?_, fun k hk => ?_, fun hne k hk => ?_, fun hne => ?_⟩
  -- In front of the first slash there is nothing, so the pieces behind it are the names.
  · rw [canonicalPath_eq]
    rfl
  · rw [components_canonicalPath hsound] at hk
    exact (mem_keptNames hk).2
  · cases hks : keptNames path with
    | nil =>
        rw [hks] at hne
        exact absurd rfl hne
    | cons l ks =>
        rw [hks] at hsound hk
        rw [canonicalPath, if_neg (List.cons_ne_nil l ks),
          splitOn_joined (fun c hc => (hsound c hc).2), List.tail_cons] at hk
        exact (hsound k hk).1
  · -- The last byte is that of the last name.
    rcases List.eq_nil_or_concat (keptNames path) with hnil | ⟨ks, k, hks⟩
    · rw [hnil] at hne
      exact absurd rfl hne
    · rw [List.concat_eq_append] at hks
      have hk := hsound k (by rw [hks]; exact List.mem_append_right _ (List.mem_singleton_self k))
      rw [hks, canonicalPath_snoc, List.getLast?_append_of_ne_nil _ (List.cons_ne_nil _ _)]
      intro hlast
      have hmem : slash ∈ k := by
        cases k with
        | nil => exact absurd rfl hk.1
        | cons c s =>
            rw [List.getLast?_cons_cons] at hlast
            exact List.mem_of_getLast? hlast
      exact hk.2 hmem

/-- `wash_path` of an absolute path stores a slash and the names that are kept
    with slashes between them, in whatever buffer it is given. What it stores is
    clean, and washing it again stores the same string. -/
theorem washed_canonical (path : Str) (habs : path.head? = some slash) (h0 : 0 ∉ path)
    (hnames : ∀ k, k ∈ components path → k.length ≤ 15) (hlen : path.length < maxPathLen) :
    (∀ buf, ∃ buf', PathBuf.washPath path buf = some buf' ∧
      TermAt buf' 0 (slash :: [slash].intercalate (keptNames path))) ∧
    Clean (slash :: [slash].intercalate (keptNames path)) ∧
    ∀ buf, ∃ buf', PathBuf.washPath (slash :: [slash].intercalate (keptNames path)) buf = some buf' ∧
      TermAt buf' 0 (slash :: [slash].intercalate (keptNames path)) := by
  have hmax : maxFileNameLen = 16 := rfl
  have hsound : ∀ k, k ∈ keptNames path → k ≠ [] ∧ slash ∉ k := fun k hk => keptNames_sound hk
  have hshort : ∀ k, k ∈ components path → k.length < maxFileNameLen := by
    intro k hk
    have := hnames k hk
    omega
  rw [← canonicalPath_eq]
  refine ⟨fun buf => ?_, clean_canonicalPath path, fun buf => ?_⟩
  · rcases washPath_canonical habs h0 hshort hlen buf with ⟨buf', hrun, hterm, -⟩
    exact ⟨buf', hrun, hterm⟩
  · -- The canonical path is not longer than the path, and its names are some of the path's.
    rcases washPath_canonical habs h0 hshort hlen buf with ⟨buf₁, -, hterm₁, -⟩
    have hcomp := components_canonicalPath hsound
    have hwashed := Nat.lt_of_le_of_lt (length_washed habs) hlen
    rcases washPath_canonical (clean_canonicalPath path).absolute hterm₁.nonzero
      (fun k hk => hshort k (mem_keptNames (hcomp ▸ hk)).1) hwashed buf with ⟨buf', hrun, hterm, -⟩
    rw [keptNames_canonicalPath] at hterm
    exact ⟨buf', hrun, hterm⟩

/-- The bytes of `/a/../b`. -/
theorem washed_canonical_dots :
    (∀ buf, ∃ buf', PathBuf.washPath [0x2f, 0x61, 0x2f, 0x2e, 0x2e, 0x2f, 0x62] buf = some buf' ∧
      TermAt buf' 0 (slash :: [slash].intercalate
        (keptNames [0x2f, 0x61, 0x2f, 0x2e, 0x2e, 0x2f, 0x62]))) ∧
    keptNames [0x2f, 0x61, 0x2f, 0x2e, 0x2e, 0x2f, 0x62] = [[0x62]] :=
  ⟨(washed_canonical [0x2f, 0x61, 0x2f, 0x2e, 0x2e, 0x2f, 0x62] rfl (by decide) (by decide)
    (by decide)).1, by decide⟩

end Wash

end ForikOS
