import Mathlib.Data.List.Basic

/-!
# Trees of Names

Directories that have other directories and files under names, and what it
means to follow a list of names from one of them.

A tree is two relations, so nothing is said about how a directory keeps its
entries or in which order they are looked at. `Walks` leads from directory to
directory, and `WalksToFile` to a file below the last of them. Whoever follows
the names one by one can stop in three ways: at a directory with no name left,
at a file, or where a name is missing. The last two leave a rest of the names.
`Follows` is the relation of a start to the way it stops. There always is one,
and only one if a name stands for one object.

## Main definitions

* `NameTree`: Which directory or file a directory has under a name.
* `NameTree.Absent`: A directory has nothing under a name.
* `NameTree.Walks`, `NameTree.WalksToFile`: Where names lead.
* `NameTree.Outcome`, `NameTree.Follows`: How following the names stops.

## Theorems

* `exists_follows`, `Follows.unique`: It stops in exactly one way.
* `Follows.tail`: One name after the other.
* `follows_dir_iff`, `follows_file_iff`, `follows_missing_iff`: What it means
  to stop in one of the three ways.
* `walksToFile_iff`: To walk to a file is to stop there with nothing left.
-/

namespace ForikOS

/-- What directories have under names. -/
structure NameTree (ν κ : Type) where
  dir : ν → κ → ν → Prop
  file : ν → κ → ν → Prop

namespace NameTree

variable {ν κ : Type} {T : NameTree ν κ}

/-- Nothing is there under the name. -/
def Absent (T : NameTree ν κ) (d : ν) (k : κ) : Prop :=
  (∀ n, ¬ T.dir d k n) ∧ ∀ n, ¬ T.file d k n

/-- A name stands for one object. -/
structure Deterministic (T : NameTree ν κ) : Prop where
  dir : ∀ {d k m n}, T.dir d k m → T.dir d k n → m = n
  file : ∀ {d k m n}, T.file d k m → T.file d k n → m = n
  apart : ∀ {d k m n}, T.dir d k m → ¬ T.file d k n

/-- The names lead from one directory to another. -/
inductive Walks (T : NameTree ν κ) : ν → List κ → ν → Prop
  | nil (d : ν) : Walks T d [] d
  | cons {d m n : ν} {k : κ} {ks : List κ} : T.dir d k m → Walks T m ks n → Walks T d (k :: ks) n

/-- The names lead to a file. -/
def WalksToFile (T : NameTree ν κ) (d : ν) (ks : List κ) (n : ν) : Prop :=
  ∃ pre k m, ks = pre ++ [k] ∧ T.Walks d pre m ∧ T.file m k n

/-- How following a list of names stops: at a directory, in directory `d` at
    the file `n`, or in directory `d` where the name `k` is missing. -/
inductive Outcome (ν κ : Type)
  | dir (d : ν)
  | file (d n : ν) (rest : List κ)
  | missing (d : ν) (k : κ) (rest : List κ)

/-- Following the names from a directory stops like this. -/
inductive Follows (T : NameTree ν κ) : ν → List κ → Outcome ν κ → Prop
  | nil (d : ν) : Follows T d [] (.dir d)
  | missing {d : ν} {k : κ} (ks : List κ) : T.Absent d k → Follows T d (k :: ks) (.missing d k ks)
  | file {d n : ν} {k : κ} (ks : List κ) : T.file d k n → Follows T d (k :: ks) (.file d n ks)
  | dir {d m : ν} {k : κ} {ks : List κ} {o : Outcome ν κ} :
      T.dir d k m → Follows T m ks o → Follows T d (k :: ks) o

theorem exists_follows (T : NameTree ν κ) (d : ν) (ks : List κ) : ∃ o, T.Follows d ks o := by
  induction ks generalizing d with
  | nil => exact ⟨_, .nil d⟩
  | cons k ks ih =>
      by_cases hdir : ∃ m, T.dir d k m
      · rcases hdir with ⟨m, hm⟩
        rcases ih m with ⟨o, ho⟩
        exact ⟨o, .dir hm ho⟩
      · by_cases hfile : ∃ n, T.file d k n
        · rcases hfile with ⟨n, hn⟩
          exact ⟨_, .file ks hn⟩
        · exact ⟨_, .missing ks ⟨not_exists.mp hdir, not_exists.mp hfile⟩⟩

theorem Follows.unique (hT : T.Deterministic) {d : ν} {ks : List κ} {o o' : Outcome ν κ}
    (h : T.Follows d ks o) (h' : T.Follows d ks o') : o = o' := by
  induction h with
  | nil d =>
      cases h'
      rfl
  | missing ks ha =>
      cases h' with
      | missing _ _ => rfl
      | file _ hn => exact absurd hn (ha.2 _)
      | dir hm _ => exact absurd hm (ha.1 _)
  | file ks hn =>
      cases h' with
      | missing _ ha => exact absurd hn (ha.2 _)
      | file _ hn' => rw [hT.file hn hn']
      | dir hm _ => exact absurd hn (hT.apart hm)
  | dir hm _ ih =>
      cases h' with
      | missing _ ha => exact absurd hm (ha.1 _)
      | file _ hn => exact absurd hn (hT.apart hm)
      | dir hm' ho' =>
          rw [hT.dir hm' hm] at ho'
          exact ih ho'

/-- Behind a directory the rest of the names is followed from there. -/
theorem Follows.tail (hT : T.Deterministic) {d m : ν} {k : κ} {ks : List κ} {o : Outcome ν κ}
    (h : T.Follows d (k :: ks) o) (hm : T.dir d k m) : T.Follows m ks o := by
  rcases T.exists_follows m ks with ⟨o', ho'⟩
  rw [h.unique hT (.dir hm ho')]
  exact ho'

/-- A walk leaves its way of stopping to the directory it leads to. -/
theorem Walks.follows {d m : ν} {pre ks : List κ} {o : Outcome ν κ} (h : T.Walks d pre m)
    (ho : T.Follows m ks o) : T.Follows d (pre ++ ks) o := by
  induction h with
  | nil d => exact ho
  | cons hm _ ih => exact .dir hm (ih ho)

theorem follows_dir_iff {d n : ν} {ks : List κ} : T.Follows d ks (.dir n) ↔ T.Walks d ks n := by
  constructor
  · intro h
    generalize ho : Outcome.dir n = o at h
    induction h with
    | nil d =>
        cases ho
        exact .nil _
    | missing ks ha => cases ho
    | file ks hn => cases ho
    | dir hm _ ih => exact .cons hm (ih ho)
  · intro h
    have hf := h.follows (.nil n)
    rwa [List.append_nil] at hf

theorem follows_file_iff {d m n : ν} {ks rest : List κ} :
    T.Follows d ks (.file m n rest) ↔
      ∃ pre k, ks = pre ++ k :: rest ∧ T.Walks d pre m ∧ T.file m k n := by
  constructor
  · intro h
    generalize ho : Outcome.file m n rest = o at h
    induction h with
    | nil d => cases ho
    | missing ks ha => cases ho
    | file ks hn =>
        cases ho
        exact ⟨[], _, rfl, .nil _, hn⟩
    | dir hm _ ih =>
        rcases ih ho with ⟨pre, k, rfl, hw, hn⟩
        exact ⟨_ :: pre, k, rfl, .cons hm hw, hn⟩
  · rintro ⟨pre, k, rfl, hw, hn⟩
    exact hw.follows (.file rest hn)

theorem follows_missing_iff {d m : ν} {k : κ} {ks rest : List κ} :
    T.Follows d ks (.missing m k rest) ↔
      ∃ pre, ks = pre ++ k :: rest ∧ T.Walks d pre m ∧ T.Absent m k := by
  constructor
  · intro h
    generalize ho : Outcome.missing m k rest = o at h
    induction h with
    | nil d => cases ho
    | missing ks ha =>
        cases ho
        exact ⟨[], rfl, .nil _, ha⟩
    | file ks hn => cases ho
    | dir hm _ ih =>
        rcases ih ho with ⟨pre, rfl, hw, ha⟩
        exact ⟨_ :: pre, rfl, .cons hm hw, ha⟩
  · rintro ⟨pre, rfl, hw, ha⟩
    exact hw.follows (.missing rest ha)

theorem walksToFile_iff {d n : ν} {ks : List κ} :
    T.WalksToFile d ks n ↔ ∃ m, T.Follows d ks (.file m n []) := by
  constructor
  · rintro ⟨pre, k, m, hks, hw, hn⟩
    exact ⟨m, follows_file_iff.mpr ⟨pre, k, hks, hw, hn⟩⟩
  · rintro ⟨m, h⟩
    rcases follows_file_iff.mp h with ⟨pre, k, hks, hw, hn⟩
    exact ⟨pre, k, m, hks, hw, hn⟩

end NameTree

end ForikOS
