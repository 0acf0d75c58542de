import ForikOS.Theory.List
import Mathlib.Data.List.Perm.Subperm

/-!
# Many Lists in One Memory

The lists of the kernel share their memory: the ready queue, the wait queues,
the free blocks and the open inodes are chains through words that lie next to
each other, and an element that leaves one list keeps its links.

`ListStore` says which list heads there are and what sequence each of them
holds. `ListHeap` is what a memory has to do with it: every list is linked in
both directions, and no two nodes overlap, of one list or of two. `ListStep` is
a call as an operation on the store, and changes one sequence of it. The
operations on memory refine these steps, so what is left alone in the store is
left alone in memory.

A node that is linked in must lie apart from all others, and is in no list.
What its links say does not matter.

## Main definitions

* `ListStore`: The heads there are, with their sequences.
* `ListHeap`: A memory that holds a store.
* `ListOp`, `ListOp.run`: A call, and what it does to the memory.
* `ListStep`, `ListRun`: What calls do to the store.
* `Observed`: What can be seen of a list in memory.

## Theorems

* `ListHeap.replace`: One list changes and the others stay.
* `listStep_run`: Every call refines its step.
* `ListHeap.observed`: What the functions that only read return.
* `lists_refine_sequences`: Any sequence of calls.
-/

namespace ForikOS

open Links

/-- The sequence of every list head. -/
abbrev ListStore : Type := Nat → Option (List Nat)

/-- Two `struct list_elem` share no byte. -/
def NodesApart (e e' : Nat) : Prop := e + 8 ≤ e' ∨ e' + 8 ≤ e

instance (e e' : Nat) : Decidable (NodesApart e e') := inferInstanceAs (Decidable (_ ∨ _))

/-- A node of some list. -/
def HeapNode (σ : ListStore) (e : Nat) : Prop := ∃ l xs, σ l = some xs ∧ e ∈ listNodes l xs

/-- A memory holds the lists of a store: each is linked, no two nodes overlap,
    and all lie in the address space. -/
structure ListHeap (mem : Nat → Nat) (σ : ListStore) : Prop where
  list : ∀ l xs, σ l = some xs → IsList mem l xs
  apart : ∀ e e', HeapNode σ e → HeapNode σ e' → e ≠ e' → NodesApart e e'
  disjoint : ∀ l l' xs xs' e, σ l = some xs → σ l' = some xs' → e ∈ listNodes l xs →
    e ∈ listNodes l' xs' → l = l'
  room : ∀ e, HeapNode σ e → e + 8 ≤ 2 ^ 32

/-- A node that is in no list. -/
structure FreeNode (σ : ListStore) (e : Nat) : Prop where
  room : e + 8 ≤ 2 ^ 32
  apart : ∀ e', HeapNode σ e' → NodesApart e e'

/-- The calls that change a list. -/
inductive ListOp
  | init (l : Nat)
  | push (l elem : Nat)
  | append (l elem : Nat)
  | insertBefore (before elem : Nat)
  | remove (elem : Nat)
  | pop (l : Nat)

/-- A call: the memory after it, and the node it returns. -/
def ListOp.run (mem : Nat → Nat) : ListOp → (Nat → Nat) × Option Nat
  | .init l => (listInit mem l, none)
  | .push l elem => (listPush mem l elem, none)
  | .append l elem => (listAppend mem l elem, none)
  | .insertBefore before elem => (listInsertBefore mem before elem, none)
  | .remove elem => (listRemove mem elem, none)
  | .pop l => ((listPop mem l).1, some (listPop mem l).2)

/-- Calls one after another, with what they return. -/
def runOps (mem : Nat → Nat) : List ListOp → (Nat → Nat) × List (Option Nat)
  | [] => (mem, [])
  | op :: ops =>
      let r := op.run mem
      let rs := runOps r.1 ops
      (rs.1, r.2 :: rs.2)

/-- What a call does to the store, and what it returns: one sequence changes.
    `list_init` makes a head of memory where no other list has a node. -/
inductive ListStep (σ : ListStore) : ListOp → Option Nat → ListStore → Prop
  | init {l : Nat} (room : l + 16 ≤ 2 ^ 32)
      (apart : ∀ l' xs e, l' ≠ l → σ l' = some xs → e ∈ listNodes l' xs →
        e + 8 ≤ l ∨ l + 16 ≤ e) :
      ListStep σ (.init l) none (Function.update σ l (some []))
  | push {l elem : Nat} {xs : List Nat} (hl : σ l = some xs) (free : FreeNode σ elem) :
      ListStep σ (.push l elem) none (Function.update σ l (some (elem :: xs)))
  | append {l elem : Nat} {xs : List Nat} (hl : σ l = some xs) (free : FreeNode σ elem) :
      ListStep σ (.append l elem) none (Function.update σ l (some (xs ++ [elem])))
  | insertBefore {l before elem : Nat} {pre post : List Nat} (hl : σ l = some (pre ++ post))
      (hb : (post ++ [listTail l]).head? = some before) (free : FreeNode σ elem) :
      ListStep σ (.insertBefore before elem) none
        (Function.update σ l (some (pre ++ elem :: post)))
  | remove {l elem : Nat} {pre post : List Nat} (hl : σ l = some (pre ++ elem :: post)) :
      ListStep σ (.remove elem) none (Function.update σ l (some (pre ++ post)))
  | pop {l x : Nat} {xs : List Nat} (hl : σ l = some (x :: xs)) :
      ListStep σ (.pop l) (some x) (Function.update σ l (some xs))

/-- Calls one after another, as steps of the store. -/
inductive ListRun : ListStore → List ListOp → List (Option Nat) → ListStore → Prop
  | nil (σ : ListStore) : ListRun σ [] [] σ
  | cons {σ σ' σ'' : ListStore} {op : ListOp} {ops : List ListOp} {r : Option Nat}
      {rs : List (Option Nat)} (step : ListStep σ op r σ') (rest : ListRun σ' ops rs σ'') :
      ListRun σ (op :: ops) (r :: rs) σ''

/-- What can be seen of the list at `l`: from the head by `next` to the tail,
    from the tail by `prev` to the head, no node twice, and what the functions
    of `lib/list.c` say of it. -/
structure Observed (mem : Nat → Nat) (l : Nat) (xs : List Nat) : Prop where
  forward : List.iterate (fun e => mem (nextField e)) l (xs.length + 2) = listNodes l xs
  backward : List.iterate mem (listTail l) (xs.length + 2) = (listNodes l xs).reverse
  nodup : (listNodes l xs).Nodup
  len : listLen mem l = some xs.length
  empty : listEmpty mem l = decide (xs = [])
  find : ∀ e, elemFind mem l e = some (decide (e ∈ xs))
  traversal : ∀ func arg, listTraversal mem l func arg = some (xs.find? (fun e => func e arg))

theorem NodesApart.symm {e e' : Nat} (h : NodesApart e e') : NodesApart e' e := h.elim Or.inr Or.inl

/-- The words of nodes that lie apart are different words. -/
theorem spread_of_apart {P : Nat → Prop} (h : ∀ e e', P e → P e' → e ≠ e' → NodesApart e e') :
    Spread P := by
  intro e e' he he' heq
  have hapart := h e e' he he' (by omega)
  unfold NodesApart at hapart
  omega

theorem not_listWord {P Q : Nat → Prop} (h : ∀ e e', P e → Q e' → NodesApart e e') {x : Nat}
    (hx : ListWord P x) : ¬ ListWord Q x := by
  rcases hx with ⟨e, he, hxe⟩
  rintro ⟨e', he', hxe'⟩
  have hapart := h e e' he he'
  unfold NodesApart at hapart
  omega

namespace ListHeap

variable {mem mem' : Nat → Nat} {σ : ListStore} {l elem : Nat} {xs ys : List Nat}

theorem node (hl : σ l = some xs) {e : Nat} (he : e ∈ listNodes l xs) : HeapNode σ e :=
  ⟨l, xs, hl, he⟩

/-- Nodes of two lists lie apart. -/
theorem other_apart (h : ListHeap mem σ) {l' : Nat} (hl : σ l = some xs) (hl' : σ l' = some ys)
    (hne : l' ≠ l) {e e' : Nat} (he : e ∈ listNodes l' ys) (he' : e' ∈ listNodes l xs) :
    NodesApart e e' := by
  refine h.apart e e' (node hl' he) (node hl he') (fun hc => hne ?_)
  exact h.disjoint l' l ys xs e hl' hl he (hc ▸ he')

/-- One list is replaced by another one on the nodes `P`, which lie apart from
    the nodes of the other lists, and no words but those of `P` have changed. -/
theorem replace (h : ListHeap mem σ) {P : Nat → Prop} (hlist : IsList mem' l ys)
    (hsub : ∀ e, e ∈ listNodes l ys → P e) (hroom : ∀ e, P e → e + 8 ≤ 2 ^ 32)
    (hapart : ∀ e e', P e → P e' → e ≠ e' → NodesApart e e')
    (hother : ∀ l' zs e e', l' ≠ l → σ l' = some zs → e ∈ listNodes l' zs → P e' →
      NodesApart e e')
    (hframe : ∀ x, ¬ ListWord P x → mem' x = mem x) :
    ListHeap mem' (Function.update σ l (some ys)) := by
  -- A node of the new store is one of `P`, or one of another list.
  have hcases : ∀ l' zs e, Function.update σ l (some ys) l' = some zs → e ∈ listNodes l' zs →
      (l' = l ∧ P e) ∨ (l' ≠ l ∧ σ l' = some zs) := by
    intro l' zs e hl' he
    by_cases hne : l' = l
    · subst hne
      rw [Function.update_self, Option.some.injEq] at hl'
      exact Or.inl ⟨rfl, hsub e (hl' ▸ he)⟩
    · rw [Function.update_of_ne hne] at hl'
      exact Or.inr ⟨hne, hl'⟩
  refine ⟨?_, ?_, ?_, ?_⟩
  · intro l' zs hl'
    by_cases hne : l' = l
    · subst hne
      rw [Function.update_self, Option.some.injEq] at hl'
      exact hl' ▸ hlist
    · rw [Function.update_of_ne hne] at hl'
      refine (h.list l' zs hl').congr (fun x hx => hframe x (not_listWord ?_ hx))
      exact fun e e' he he' => hother l' zs e e' hne hl' he he'
  · rintro e e' ⟨l₁, zs₁, h₁, he⟩ ⟨l₂, zs₂, h₂, he'⟩ hne
    rcases hcases l₁ zs₁ e h₁ he with ⟨-, hP⟩ | ⟨hl₁, hσ₁⟩
    · rcases hcases l₂ zs₂ e' h₂ he' with ⟨-, hP'⟩ | ⟨hl₂, hσ₂⟩
      · exact hapart e e' hP hP' hne
      · exact (hother l₂ zs₂ e' e hl₂ hσ₂ he' hP).symm
    · rcases hcases l₂ zs₂ e' h₂ he' with ⟨-, hP'⟩ | ⟨hl₂, hσ₂⟩
      · exact hother l₁ zs₁ e e' hl₁ hσ₁ he hP'
      · exact h.apart e e' (node hσ₁ he) (node hσ₂ he') hne
  · intro l₁ l₂ zs₁ zs₂ e h₁ h₂ he he'
    rcases hcases l₁ zs₁ e h₁ he with ⟨hl₁, hP⟩ | ⟨hl₁, hσ₁⟩
    · rcases hcases l₂ zs₂ e h₂ he' with ⟨hl₂, -⟩ | ⟨hl₂, hσ₂⟩
      · rw [hl₁, hl₂]
      · have hself := hother l₂ zs₂ e e hl₂ hσ₂ he' hP
        unfold NodesApart at hself
        omega
    · rcases hcases l₂ zs₂ e h₂ he' with ⟨hl₂, hP⟩ | ⟨hl₂, hσ₂⟩
      · have hself := hother l₁ zs₁ e e hl₁ hσ₁ he hP
        unfold NodesApart at hself
        omega
      · exact h.disjoint l₁ l₂ zs₁ zs₂ e hσ₁ hσ₂ he he'
  · rintro e ⟨l', zs, hl', he⟩
    rcases hcases l' zs e hl' he with ⟨-, hP⟩ | ⟨-, hσ⟩
    · exact hroom e hP
    · exact h.room e (node hσ he)

/-- A list keeps its nodes, or loses some of them. -/
theorem shrink (h : ListHeap mem σ) (hl : σ l = some xs) (hlist : IsList mem' l ys)
    (hsub : ∀ e, e ∈ listNodes l ys → e ∈ listNodes l xs)
    (hframe : ∀ x, ¬ ListWord (· ∈ listNodes l xs) x → mem' x = mem x) :
    ListHeap mem' (Function.update σ l (some ys)) :=
  h.replace hlist hsub (fun e he => h.room e (node hl he))
    (fun e e' he he' => h.apart e e' (node hl he) (node hl he'))
    (fun _ _ _ _ hne hl' he he' => h.other_apart hl hl' hne he he') hframe

/-- A list gets a free node. -/
theorem grow (h : ListHeap mem σ) (hl : σ l = some xs) (hfree : FreeNode σ elem)
    (hlist : IsList mem' l ys) (hsub : ∀ e, e ∈ listNodes l ys → e = elem ∨ e ∈ listNodes l xs)
    (hframe : ∀ x, ¬ ListWord (fun e => e = elem ∨ e ∈ listNodes l xs) x → mem' x = mem x) :
    ListHeap mem' (Function.update σ l (some ys)) := by
  refine h.replace hlist hsub ?_ ?_ ?_ hframe
  · rintro e (rfl | he)
    · exact hfree.room
    · exact h.room e (node hl he)
  · rintro e e' (rfl | he) (rfl | he') hne
    · exact absurd rfl hne
    · exact hfree.apart e' (node hl he')
    · exact (hfree.apart e (node hl he)).symm
    · exact h.apart e e' (node hl he) (node hl he') hne
  · rintro l' zs e e' hne hl' he (rfl | he')
    · exact (hfree.apart e (node hl' he)).symm
    · exact h.other_apart hl hl' hne he he'

theorem spread (h : ListHeap mem σ) (hl : σ l = some xs) : Spread (· ∈ listNodes l xs) :=
  spread_of_apart (fun e e' he he' => h.apart e e' (node hl he) (node hl he'))

theorem spread_free (h : ListHeap mem σ) (hl : σ l = some xs) (hfree : FreeNode σ elem) :
    Spread (fun e => e = elem ∨ e ∈ listNodes l xs) := by
  refine spread_of_apart ?_
  rintro e e' (rfl | he) (rfl | he') hne
  · exact absurd rfl hne
  · exact hfree.apart e' (node hl he')
  · exact (hfree.apart e (node hl he)).symm
  · exact h.apart e e' (node hl he) (node hl he') hne

theorem free_not_mem (hl : σ l = some xs) (hfree : FreeNode σ elem) : elem ∉ listNodes l xs := by
  intro hc
  have hself := hfree.apart elem (node hl hc)
  unfold NodesApart at hself
  omega

/-- There are fewer nodes than addresses. -/
theorem length_lt (h : ListHeap mem σ) (hl : σ l = some xs) : xs.length < 2 ^ 32 - 1 := by
  have hin : ∀ e, e ∈ listNodes l xs → e ∈ List.range (2 ^ 32) := by
    intro e he
    have hroom := h.room e (node hl he)
    rw [List.mem_range]
    omega
  have hle := (List.Nodup.subperm (h.list l xs hl).nodup hin).length_le
  rw [List.length_range, listNodes, List.length_append, List.length_cons, List.length_singleton] at hle
  omega

/-- What can be seen of a list in memory is its sequence. -/
theorem observed (h : ListHeap mem σ) (hl : σ l = some xs) : Observed mem l xs := by
  have hlist := h.list l xs hl
  have hlen := h.length_lt hl
  refine ⟨?_, ?_, hlist.nodup, listLen_isList hlist (by omega), listEmpty_isList hlist,
    elemFind_isList hlist hlen, listTraversal_isList hlist (by omega)⟩
  · have hvisit : List.iterate (wordLinks mem).next l ((xs ++ [listTail l]).length + 1) =
        listNodes l xs := chain_iterate_next hlist.chain
    rwa [List.length_append, List.length_singleton] at hvisit
  · have hvisit : List.iterate (wordLinks mem).prev (listTail l) ((l :: xs).length + 1) =
        (listNodes l xs).reverse := chain_iterate_prev hlist.chain
    rwa [List.length_cons] at hvisit

end ListHeap

/-- `list_init` makes an empty list of its head, and writes nothing else. -/
theorem listInit_frame (mem : Nat → Nat) (l : Nat) {x : Nat}
    (hx : ¬ ListWord (· ∈ listNodes l []) x) : listInit mem l x = mem x := by
  have hhead : l ∈ listNodes l [] := mem_listNodes.mpr (Or.inl rfl)
  have htail : listTail l ∈ listNodes l [] := mem_listNodes.mpr (Or.inr (Or.inr rfl))
  have h1 : x ≠ l := fun hc => hx ⟨l, hhead, Or.inl hc⟩
  have h2 : x ≠ nextField l := fun hc => hx ⟨l, hhead, Or.inr hc⟩
  have h3 : x ≠ listTail l := fun hc => hx ⟨listTail l, htail, Or.inl hc⟩
  have h4 : x ≠ nextField (listTail l) := fun hc => hx ⟨listTail l, htail, Or.inr hc⟩
  simp only [listInit, Function.update_of_ne h1, Function.update_of_ne h2, Function.update_of_ne h3,
    Function.update_of_ne h4]

/-- Every call on a memory that holds the store does what its step does. -/
theorem listStep_run {mem : Nat → Nat} {σ σ' : ListStore} {op : ListOp} {r : Option Nat}
    (h : ListHeap mem σ) (hstep : ListStep σ op r σ') :
    ListHeap (op.run mem).1 σ' ∧ (op.run mem).2 = r := by
  -- One case for each call. The operation is right on its own list, and the
  -- other lists are out of its reach.
  cases hstep with
  | init room apart =>
      rename_i l
      refine ⟨h.replace (isList_init mem l) (fun _ he => he) ?_ ?_ ?_
        (fun x hx => listInit_frame mem l hx), rfl⟩
      · intro e he
        rcases mem_listNodes.mp he with rfl | hc | rfl
        · omega
        · cases hc
        · unfold listTail
          omega
      · intro e e' he he' hne
        unfold NodesApart
        rw [mem_listNodes] at he he'
        unfold listTail at he he'
        simp only [List.not_mem_nil, false_or] at he he'
        omega
      · intro l' zs e e' hne hl' he he'
        have hout := apart l' zs e hne hl' he
        unfold NodesApart
        rw [mem_listNodes] at he'
        unfold listTail at he'
        simp only [List.not_mem_nil, false_or] at he'
        omega
  | push hl free =>
      have hop := isList_push (h.list _ _ hl) (ListHeap.free_not_mem hl free) (h.spread_free hl free)
      refine ⟨h.grow hl free hop.1 (fun e he => ?_) hop.2, rfl⟩
      simp only [mem_listNodes, List.mem_cons] at he ⊢
      tauto
  | append hl free =>
      have hop := isList_append (h.list _ _ hl) (ListHeap.free_not_mem hl free)
        (h.spread_free hl free)
      refine ⟨h.grow hl free hop.1 (fun e he => ?_) hop.2, rfl⟩
      simp only [mem_listNodes, List.mem_append, List.mem_singleton] at he ⊢
      tauto
  | insertBefore hl hb free =>
      have hop := isList_insertBefore _ _ (h.list _ _ hl) hb (ListHeap.free_not_mem hl free)
        (h.spread_free hl free)
      refine ⟨h.grow hl free hop.1 (fun e he => ?_) hop.2, rfl⟩
      simp only [mem_listNodes, List.mem_append, List.mem_cons] at he ⊢
      tauto
  | remove hl =>
      have hop := isList_remove _ (h.list _ _ hl) (h.spread hl)
      refine ⟨h.shrink hl hop.1 (fun e he => ?_) hop.2, rfl⟩
      simp only [mem_listNodes, List.mem_append, List.mem_cons] at he ⊢
      tauto
  | pop hl =>
      have hop := isList_pop (h.list _ _ hl) (h.spread hl)
      refine ⟨h.shrink hl hop.2.1 (fun e he => ?_) hop.2.2, congrArg some hop.1⟩
      simp only [mem_listNodes, List.mem_cons] at he ⊢
      tauto

/-- A memory that holds some lists, and any sequence of calls that insert free
    nodes, remove members and pop from lists with elements: the memory holds the
    lists the calls make of them, the calls return the elements they pop, and
    every list can be seen from both ends. -/
theorem lists_refine_sequences {mem : Nat → Nat} {σ σ' : ListStore} {ops : List ListOp}
    {rs : List (Option Nat)} (h : ListHeap mem σ) (hrun : ListRun σ ops rs σ') :
    ListHeap (runOps mem ops).1 σ' ∧ (runOps mem ops).2 = rs ∧
      ∀ l xs, σ' l = some xs → Observed (runOps mem ops).1 l xs := by
  induction hrun generalizing mem with
  | nil σ => exact ⟨h, rfl, fun l xs hl => h.observed hl⟩
  | cons step rest ih =>
      have hstep := listStep_run h step
      have hrest := ih hstep.1
      refine ⟨hrest.1, ?_, hrest.2.2⟩
      simp only [runOps, hstep.2, hrest.2.1]

/-- The memory without a list. -/
theorem listHeap_empty (mem : Nat → Nat) : ListHeap mem (fun _ => none) := by
  refine ⟨fun l xs hl => ?_, ?_, fun l l' xs xs' e hl => ?_, ?_⟩
  · cases hl
  · rintro e e' ⟨l, xs, hl, -⟩
    cases hl
  · cases hl
  · rintro e ⟨l, xs, hl, -⟩
    cases hl

/-- Two lists, at 16 and at 32. -/
def twoLists (xs ys : List Nat) : ListStore :=
  fun l => if l = 16 then some xs else if l = 32 then some ys else none

theorem update_twoLists_first (xs ys zs : List Nat) :
    Function.update (twoLists xs ys) 16 (some zs) = twoLists zs ys := by
  funext l
  by_cases h : l = 16
  · rw [h, Function.update_self]
    rfl
  · rw [Function.update_of_ne h, twoLists, if_neg h, twoLists, if_neg h]

theorem update_twoLists_second (xs ys zs : List Nat) :
    Function.update (twoLists xs ys) 32 (some zs) = twoLists xs zs := by
  funext l
  by_cases h : l = 32
  · rw [h, Function.update_self]
    rfl
  · rw [Function.update_of_ne h, twoLists, twoLists, if_neg h, if_neg h]

/-- The list at 16 alone. -/
def oneList : ListStore := Function.update (fun _ => none) 16 (some [])

theorem update_oneList : Function.update oneList 32 (some []) = twoLists [] [] := by
  funext l
  by_cases h : l = 32
  · rw [h, Function.update_self]
    rfl
  · rw [Function.update_of_ne h, oneList, twoLists, if_neg h]
    by_cases h16 : l = 16
    · rw [h16, Function.update_self]
      rfl
    · rw [Function.update_of_ne h16, if_neg h16]

theorem freeNode_twoLists {xs ys : List Nat} {e : Nat} (h48 : 48 ≤ e) (hlt : e + 8 ≤ 2 ^ 32)
    (hfree : ∀ x, x ∈ xs ++ ys → NodesApart e x) : FreeNode (twoLists xs ys) e := by
  refine ⟨hlt, ?_⟩
  rintro x ⟨l, zs, hl, hx⟩
  rw [mem_listNodes] at hx
  unfold listTail at hx
  unfold NodesApart
  unfold twoLists at hl
  split at hl
  · cases hl
    rcases hx with rfl | hx | rfl
    · omega
    · exact hfree x (List.mem_append_left ys hx)
    · omega
  · split at hl
    · cases hl
      rcases hx with rfl | hx | rfl
      · omega
      · exact hfree x (List.mem_append_right xs hx)
      · omega
    · cases hl

/-- Three nodes go through the list at 16, and one through the list at 32. -/
def twoListsOps : List ListOp :=
  [.init 16, .init 32, .append 16 64, .append 16 80, .insertBefore 80 96, .push 32 112, .remove 64,
    .pop 32]

/-- The lists do not disturb each other. -/
theorem lists_refine_sequences_two :
    ListHeap (runOps (fun _ => 0) twoListsOps).1 (twoLists [96, 80] []) ∧
      (runOps (fun _ => 0) twoListsOps).2 =
        [none, none, none, none, none, none, none, some 112] ∧
      ∀ l xs, twoLists [96, 80] [] l = some xs →
        Observed (runOps (fun _ => 0) twoListsOps).1 l xs := by
  -- The lists at 16 and 32 are made, which needs that they do not overlap.
  have h₁ : ListStep (fun _ => none) (.init 16) none oneList :=
    .init (by omega) (fun l' xs e _ hl => by cases hl)
  have h₂ : ListStep oneList (.init 32) none (twoLists [] []) := by
    rw [← update_oneList]
    refine ListStep.init (l := 32) (by omega) (fun l' xs e _ hl he => ?_)
    unfold oneList at hl
    by_cases h16 : l' = 16
    · rw [h16, Function.update_self, Option.some.injEq] at hl
      rw [← hl, mem_listNodes, listTail, h16] at he
      simp only [List.not_mem_nil, false_or] at he
      omega
    · rw [Function.update_of_ne h16] at hl
      cases hl
  have h₃ : ListStep (twoLists [] []) (.append 16 64) none (twoLists [64] []) :=
    update_twoLists_first [] [] [64] ▸ @ListStep.append (twoLists [] []) 16 64 [] rfl
      (freeNode_twoLists (by decide) (by decide) (by decide))
  have h₄ : ListStep (twoLists [64] []) (.append 16 80) none (twoLists [64, 80] []) :=
    update_twoLists_first [64] [] [64, 80] ▸
      @ListStep.append (twoLists [64] []) 16 80 [64] rfl
        (freeNode_twoLists (by decide) (by decide) (by decide))
  -- 96 goes in between 64 and 80 of the first list, and 64 leaves it below.
  have h₅ : ListStep (twoLists [64, 80] []) (.insertBefore 80 96) none
      (twoLists [64, 96, 80] []) :=
    update_twoLists_first [64, 80] [] [64, 96, 80] ▸ @ListStep.insertBefore _ 16 80 96 [64] [80] rfl rfl
      (freeNode_twoLists (by decide) (by decide) (by decide))
  have h₆ : ListStep (twoLists [64, 96, 80] []) (.push 32 112) none
      (twoLists [64, 96, 80] [112]) :=
    update_twoLists_second [64, 96, 80] [] [112] ▸
      @ListStep.push (twoLists [64, 96, 80] []) 32 112 [] rfl
        (freeNode_twoLists (by decide) (by decide) (by decide))
  have h₇ : ListStep (twoLists [64, 96, 80] [112]) (.remove 64) none (twoLists [96, 80] [112]) :=
    update_twoLists_first [64, 96, 80] [112] [96, 80] ▸ @ListStep.remove _ 16 64 [] _ rfl
  have h₈ : ListStep (twoLists [96, 80] [112]) (.pop 32) (some 112) (twoLists [96, 80] []) :=
    update_twoLists_second [96, 80] [112] [] ▸ .pop rfl
  exact lists_refine_sequences (listHeap_empty _) (.cons h₁ (.cons h₂ (.cons h₃ (.cons h₄ (.cons h₅
    (.cons h₆ (.cons h₇ (.cons h₈ (.nil _)))))))))

end ForikOS
