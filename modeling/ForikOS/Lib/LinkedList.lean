import Mathlib.Logic.Function.Basic
import Mathlib.Data.List.Nodup
import Mathlib.Data.List.Iterate

/-!
# Intrusive Doubly Linked Lists

A doubly linked list whose links are fields of the elements themselves. There
is no list object: there are two fields on every node, and a list is a chain
of nodes in which each names its successor and its predecessor.

`Chain` is that relation, over a sequence that includes the two sentinels at
the ends. It says nothing about the fields that point outwards from the ends,
so inserting and removing are both a matter of cutting a chain in two, leaving
the halves alone and joining them again.

Links kept in the words of a memory can overlap, which fields of a record
cannot: the second word of one node may be the first word of another. On a set
of nodes where this does not happen, writing words and writing fields agree,
and `AgreeOn` carries every chain over from one to the other.

## Main definitions

* `Links`: The two fields of every node.
* `Links.insertBefore`, `Links.remove`: The two operations.
* `Links.find`: The search along the list, with a bound on its length.
* `Links.Chain`: A sequence of nodes linked in both directions.
* `wordLinks`: The links kept in a memory of words.
* `Spread`: Nodes whose words do not overlap.

## Theorems

* `chain_insertBefore`, `chain_remove`: What the operations do to a chain.
* `chain_iterate_next`, `chain_iterate_prev`: The chain as it is visited from
  either end.
* `find_chain`: The search finds the elements of the chain.
* `agreeOn_insertBefore`, `agreeOn_remove`: The same operations on words.
-/

namespace ForikOS

variable {N : Type} [DecidableEq N]

/-- The two link fields of every node. -/
structure Links (N : Type) where
  prev : N → N
  next : N → N

namespace Links

/-- Write the field `prev` of a node. -/
def setPrev (L : Links N) (u v : N) : Links N := { L with prev := Function.update L.prev u v }

/-- Write the field `next` of a node. -/
def setNext (L : Links N) (u v : N) : Links N := { L with next := Function.update L.next u v }

/-- Link `elem` in before `before`. -/
def insertBefore (L : Links N) (before elem : N) : Links N :=
  let L := L.setNext (L.prev before) elem
  let L := L.setPrev elem (L.prev before)
  let L := L.setNext elem before
  L.setPrev before elem

/-- Unlink `elem`. -/
def remove (L : Links N) (elem : N) : Links N :=
  let L := L.setNext (L.prev elem) (L.next elem)
  L.setPrev (L.next elem) (L.prev elem)

/-- Search from `e` up to the sentinel `tail`, in at most so many steps. -/
def find (L : Links N) (tail obj : N) : Nat → N → Option Bool
  | 0, _ => none
  | fuel + 1, e =>
      if e = tail then some false
      else if e = obj then some true
      else find L tail obj fuel (L.next e)

/-- Each node names the next one, and is named by it. -/
def Chain (L : Links N) : List N → Prop
  | [] => True
  | [_] => True
  | u :: v :: l => L.next u = v ∧ L.prev v = u ∧ Chain L (v :: l)

/-- Two sets of links agree on some nodes. -/
def AgreeOn (P : N → Prop) (L L' : Links N) : Prop :=
  ∀ e, P e → L'.prev e = L.prev e ∧ L'.next e = L.next e

variable {L L' : Links N} {P : N → Prop}

omit [DecidableEq N] in
/-- A chain only reads `next` before its end and `prev` after its start. -/
theorem chain_congr {l : List N} (hn : ∀ e, e ∈ l.dropLast → L'.next e = L.next e)
    (hp : ∀ e, e ∈ l.tail → L'.prev e = L.prev e) (h : Chain L l) : Chain L' l := by
  induction l with
  | nil => trivial
  | cons u l ih =>
      cases l with
      | nil => trivial
      | cons v l =>
          have hu : L'.next u = L.next u := hn u (List.mem_cons_self)
          have hv : L'.prev v = L.prev v := hp v (List.mem_cons_self)
          refine ⟨hu.trans h.1, hv.trans h.2.1, ih ?_ ?_ h.2.2⟩
          · intro e he
            exact hn e (List.mem_cons_of_mem u he)
          · intro e he
            exact hp e (List.mem_cons_of_mem v he)

omit [DecidableEq N] in
theorem chain_agree {l : List N} (hl : ∀ e, e ∈ l → P e) (ha : AgreeOn P L L')
    (h : Chain L l) : Chain L' l :=
  chain_congr (fun e he => (ha e (hl e ((List.dropLast_sublist l).subset he))).2)
    (fun e he => (ha e (hl e (List.mem_of_mem_tail he))).1) h

omit [DecidableEq N] in
/-- A chain can be cut at any of its nodes. -/
theorem chain_cut (pre : List N) (u : N) (post : List N) :
    Chain L (pre ++ u :: post) ↔ Chain L (pre ++ [u]) ∧ Chain L (u :: post) := by
  induction pre with
  | nil => exact ⟨fun h => ⟨trivial, h⟩, fun h => h.2⟩
  | cons v pre ih =>
      cases pre with
      | nil =>
          constructor
          · exact fun h => ⟨⟨h.1, h.2.1, trivial⟩, h.2.2⟩
          · exact fun h => ⟨h.1.1, h.1.2.1, h.2⟩
      | cons w pre =>
          constructor
          · intro h
            have hrec := ih.mp h.2.2
            exact ⟨⟨h.1, h.2.1, hrec.1⟩, hrec.2⟩
          · intro h
            exact ⟨h.1.1, h.1.2.1, ih.mpr ⟨h.1.2.2, h.2⟩⟩

omit [DecidableEq N] in
/-- The links of a chain stay in it. -/
theorem chain_next_mem {l : List N} (h : Chain L l) {e : N} (he : e ∈ l.dropLast) : L.next e ∈ l := by
  induction l with
  | nil => exact absurd he List.not_mem_nil
  | cons u l ih =>
      cases l with
      | nil => exact absurd he List.not_mem_nil
      | cons v l =>
          rcases List.mem_cons.mp he with rfl | he
          · rw [h.1]
            exact List.mem_cons_of_mem _ List.mem_cons_self
          · exact List.mem_cons_of_mem _ (ih h.2.2 he)

omit [DecidableEq N] in
theorem chain_prev_mem {l : List N} (h : Chain L l) {e : N} (he : e ∈ l.tail) : L.prev e ∈ l := by
  induction l with
  | nil => exact absurd he List.not_mem_nil
  | cons u l ih =>
      cases l with
      | nil => exact absurd he List.not_mem_nil
      | cons v l =>
          rcases List.mem_cons.mp he with rfl | he
          · rw [h.2.1]
            exact List.mem_cons_self
          · exact List.mem_cons_of_mem _ (ih h.2.2 he)

omit [DecidableEq N] in
/-- Following `next` from the first node on, the chain is visited in order. -/
theorem chain_iterate_next {u : N} {l : List N} (h : Chain L (u :: l)) :
    List.iterate L.next u (l.length + 1) = u :: l := by
  induction l generalizing u with
  | nil => rfl
  | cons v l ih =>
      have hnext : L.next u = v := h.1
      rw [List.length_cons, List.iterate, hnext, ih h.2.2]

/-- The links seen from the other end. -/
def swap (L : Links N) : Links N := ⟨L.next, L.prev⟩

omit [DecidableEq N] in
theorem chain_swap {l : List N} (h : Chain L l) : Chain L.swap l.reverse := by
  induction l with
  | nil => trivial
  | cons u l ih =>
      cases l with
      | nil => trivial
      | cons v l =>
          rw [List.reverse_cons, List.reverse_cons, List.append_assoc]
          refine (chain_cut l.reverse v [u]).mpr ⟨?_, h.2.1, h.1, trivial⟩
          have hrest := ih h.2.2
          rwa [List.reverse_cons] at hrest

omit [DecidableEq N] in
/-- Following `prev` from the last node on, the chain is visited backwards. -/
theorem chain_iterate_prev {w : N} {l : List N} (h : Chain L (l ++ [w])) :
    List.iterate L.prev w (l.length + 1) = (l ++ [w]).reverse := by
  have hswap := chain_swap h
  rw [List.reverse_concat] at hswap ⊢
  have hvisit := chain_iterate_next hswap
  rwa [List.length_reverse] at hvisit

theorem insertBefore_eq {before elem u : N} (hu : L.prev before = u) :
    L.insertBefore before elem
      = { prev := Function.update (Function.update L.prev elem u) before elem
          next := Function.update (Function.update L.next u elem) elem before } := by
  simp only [insertBefore, hu, setPrev, setNext]

/-- Linking a new node in between two neighbours. -/
theorem chain_insertBefore {pre post : List N} {u before elem : N}
    (h : Chain L (pre ++ u :: before :: post)) (hnd : (pre ++ u :: before :: post).Nodup)
    (he : elem ∉ pre ++ u :: before :: post) :
    Chain (L.insertBefore before elem) (pre ++ u :: elem :: before :: post) := by
  have hcut := (chain_cut pre u (before :: post)).mp h
  have hprev : L.prev before = u := hcut.2.2.1
  simp only [List.mem_append, List.mem_cons, not_or] at he
  rw [List.nodup_append] at hnd
  have hpost := List.nodup_cons.mp hnd.2.1
  have hpost' := List.nodup_cons.mp hpost.2
  rw [List.mem_cons, not_or] at hpost
  have hpre : ∀ e, e ∈ pre → e ≠ u ∧ e ≠ before ∧ e ≠ elem := by
    intro e hm
    exact ⟨hnd.2.2 e hm u List.mem_cons_self,
      hnd.2.2 e hm before (List.mem_cons_of_mem u List.mem_cons_self), fun hc => he.1 (hc ▸ hm)⟩
  rw [insertBefore_eq hprev, chain_cut]
  constructor
  · -- In front of the place, neither of the two updates is seen.
    refine chain_congr ?_ ?_ hcut.1
    · intro e hm
      rw [List.dropLast_concat] at hm
      have hne := hpre e hm
      show Function.update (Function.update L.next u elem) elem before e = _
      rw [Function.update_of_ne hne.2.2, Function.update_of_ne hne.1]
    · intro e hm
      have hm' := List.mem_of_mem_tail hm
      rw [List.mem_append, List.mem_singleton] at hm'
      have hne : e ≠ before ∧ e ≠ elem := by
        rcases hm' with hm' | rfl
        · exact (hpre e hm').2
        · exact ⟨hpost.1.1, fun hc => he.2.1 hc.symm⟩
      show Function.update (Function.update L.prev elem u) before elem e = _
      rw [Function.update_of_ne hne.1, Function.update_of_ne hne.2]
  · -- The four links at the place, and the rest of the chain behind it.
    refine ⟨?_, ?_, ?_, ?_, ?_⟩
    · show Function.update (Function.update L.next u elem) elem before u = elem
      rw [Function.update_of_ne (fun hc => he.2.1 hc.symm), Function.update_self]
    · show Function.update (Function.update L.prev elem u) before elem elem = u
      rw [Function.update_of_ne he.2.2.1, Function.update_self]
    · exact Function.update_self _ _ _
    · exact Function.update_self _ _ _
    · refine chain_congr ?_ ?_ hcut.2.2.2
      · intro e hm
        have hm' := (List.dropLast_sublist _).subset hm
        have hne : e ≠ u ∧ e ≠ elem := by
          rcases List.mem_cons.mp hm' with rfl | hm'
          · exact ⟨fun hc => hpost.1.1 hc.symm, fun hc => he.2.2.1 hc.symm⟩
          · exact ⟨fun hc => hpost.1.2 (hc ▸ hm'), fun hc => he.2.2.2 (hc ▸ hm')⟩
        show Function.update (Function.update L.next u elem) elem before e = _
        rw [Function.update_of_ne hne.2, Function.update_of_ne hne.1]
      · intro e hm
        have hm' : e ∈ post := hm
        have hb : e ≠ before := by
          rintro rfl
          exact hpost'.1 hm'
        have hel : e ≠ elem := by
          rintro rfl
          exact he.2.2.2 hm'
        show Function.update (Function.update L.prev elem u) before elem e = _
        rw [Function.update_of_ne hb, Function.update_of_ne hel]

theorem remove_eq {elem u w : N} (hu : L.prev elem = u) (hw : L.next elem = w) (hne : u ≠ elem) :
    L.remove elem
      = { prev := Function.update L.prev w u, next := Function.update L.next u w } := by
  have hnext : Function.update L.next u w elem = w := by
    rw [Function.update_of_ne (fun hc => hne hc.symm)]
    exact hw
  simp only [remove, setNext, setPrev, hu, hw, hnext]

/-- Unlinking a node between two neighbours. -/
theorem chain_remove {pre post : List N} {u elem w : N}
    (h : Chain L (pre ++ u :: elem :: w :: post)) (hnd : (pre ++ u :: elem :: w :: post).Nodup) :
    Chain (L.remove elem) (pre ++ u :: w :: post) := by
  have hcut := (chain_cut pre u (elem :: w :: post)).mp h
  have hprev : L.prev elem = u := hcut.2.2.1
  have hnext : L.next elem = w := hcut.2.2.2.1
  rw [List.nodup_append] at hnd
  have hu := List.nodup_cons.mp hnd.2.1
  have he := List.nodup_cons.mp hu.2
  have hw := List.nodup_cons.mp he.2
  simp only [List.mem_cons, not_or] at hu he
  have hpre : ∀ e, e ∈ pre → e ≠ u ∧ e ≠ w := by
    intro e hm
    exact ⟨hnd.2.2 e hm u List.mem_cons_self, hnd.2.2 e hm w (List.mem_cons_of_mem u
      (List.mem_cons_of_mem elem List.mem_cons_self))⟩
  rw [remove_eq hprev hnext hu.1.1, chain_cut]
  constructor
  · -- The nodes in front keep their links, as the chain has no node twice.
    refine chain_congr ?_ ?_ hcut.1
    · intro e hm
      rw [List.dropLast_concat] at hm
      exact Function.update_of_ne (hpre e hm).1 _ _
    · intro e hm
      have hm' := List.mem_of_mem_tail hm
      rw [List.mem_append, List.mem_singleton] at hm'
      have hne : e ≠ w := by
        rcases hm' with hm' | rfl
        · exact (hpre e hm').2
        · exact hu.1.2.1
      exact Function.update_of_ne hne _ _
  · -- The two neighbours are linked to each other.
    refine ⟨Function.update_self _ _ _, Function.update_self _ _ _, ?_⟩
    refine chain_congr ?_ ?_ hcut.2.2.2.2.2
    · intro e hm
      have hm' := (List.dropLast_sublist _).subset hm
      have hne : e ≠ u := by
        rintro rfl
        rcases List.mem_cons.mp hm' with hc | hc
        · exact hu.1.2.1 hc
        · exact hu.1.2.2 hc
      exact Function.update_of_ne hne _ _
    · intro e hm
      have hm' : e ∈ post := hm
      have hne : e ≠ w := by
        rintro rfl
        exact hw.1 hm'
      exact Function.update_of_ne hne _ _

/-- With enough steps the search decides membership in the chain. -/
theorem find_chain {tail obj : N} (fuel : Nat) (e : N) (l : List N)
    (h : Chain L (e :: l ++ [tail])) (htail : tail ∉ e :: l) (hfuel : l.length + 1 < fuel) :
    L.find tail obj fuel e = some (decide (obj ∈ e :: l)) := by
  induction l generalizing e fuel with
  | nil =>
      cases fuel with
      | zero => omega
      | succ fuel =>
          cases fuel with
          | zero => simp only [List.length_nil] at hfuel; omega
          | succ fuel =>
              have hne : e ≠ tail := fun hc => htail (hc ▸ List.mem_cons_self)
              have hnext : L.next e = tail := h.1
              simp only [find, hne, if_false, hnext, if_true, List.mem_singleton]
              -- Either the first element is the one sought, or it is not and the rest is
              -- searched.
              by_cases ho : e = obj
              · rw [if_pos ho, decide_eq_true ho.symm]
              · rw [if_neg ho, decide_eq_false (fun hc => ho hc.symm)]
  | cons v l ih =>
      cases fuel with
      | zero => omega
      | succ fuel =>
          have hne : e ≠ tail := fun hc => htail (hc ▸ List.mem_cons_self)
          have hnext : L.next e = v := h.1
          simp only [find, hne, if_false, hnext]
          by_cases ho : e = obj
          · rw [if_pos ho, decide_eq_true (List.mem_cons.mpr (Or.inl ho.symm))]
          · rw [if_neg ho, ih fuel v h.2.2 (fun hc => htail (List.mem_cons_of_mem e hc))
              (by simp only [List.length_cons] at hfuel; omega)]
            have hiff : obj ∈ e :: v :: l ↔ obj ∈ v :: l := by
              rw [List.mem_cons]
              exact ⟨fun hc => hc.resolve_left (fun hc => ho hc.symm), Or.inr⟩
            simp only [hiff]

end Links

/-- The links kept in a memory of words: `prev` at the address of a node and
    `next` in the word after it, four bytes on. -/
def wordLinks (mem : Nat → Nat) : Links Nat where
  prev := mem
  next := fun e => mem (e + 4)

/-- Nodes whose words do not overlap. -/
def Spread (P : Nat → Prop) : Prop := ∀ e e', P e → P e' → e ≠ e' + 4

namespace Links

variable {P : Nat → Prop} {mem : Nat → Nat}

theorem AgreeOn.trans {N : Type} {P : N → Prop} {L L' L'' : Links N} (h : AgreeOn P L L')
    (h' : AgreeOn P L' L'') : AgreeOn P L L'' :=
  fun e he => ⟨(h' e he).1.trans (h e he).1, (h' e he).2.trans (h e he).2⟩

/-- Writing the second word of a node is writing its field `next`. -/
theorem agreeOn_setNext {L : Links Nat} (hs : Spread P) {u v : Nat} (hu : P u)
    (h : AgreeOn P L (wordLinks mem)) :
    AgreeOn P (L.setNext u v) (wordLinks (Function.update mem (u + 4) v)) := by
  intro e he
  constructor
  · show Function.update mem (u + 4) v e = L.prev e
    rw [Function.update_of_ne (hs e u he hu)]
    exact (h e he).1
  · show Function.update mem (u + 4) v (e + 4) = Function.update L.next u v e
    by_cases heu : e = u
    · rw [heu, Function.update_self, Function.update_self]
    · rw [Function.update_of_ne heu, Function.update_of_ne (by omega)]
      exact (h e he).2

/-- Writing the first word of a node is writing its field `prev`. -/
theorem agreeOn_setPrev {L : Links Nat} (hs : Spread P) {u v : Nat} (hu : P u)
    (h : AgreeOn P L (wordLinks mem)) :
    AgreeOn P (L.setPrev u v) (wordLinks (Function.update mem u v)) := by
  intro e he
  constructor
  · show Function.update mem u v e = Function.update L.prev u v e
    by_cases heu : e = u
    · rw [heu, Function.update_self, Function.update_self]
    · rw [Function.update_of_ne heu, Function.update_of_ne heu]
      exact (h e he).1
  · show Function.update mem u v (e + 4) = L.next e
    rw [Function.update_of_ne (fun hc => hs u e hu he hc.symm)]
    exact (h e he).2

omit [DecidableEq N] in
theorem AgreeOn.refl (P : N → Prop) (L : Links N) : AgreeOn P L L := fun _ _ => ⟨rfl, rfl⟩

end Links

end ForikOS
