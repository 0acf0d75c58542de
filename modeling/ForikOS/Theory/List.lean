import ForikOS.Core.List
import ForikOS.Lib.LinkedList

/-!
# Lists in Memory Are Sequences

Each function of `lib/list.c` against the sequence a list holds.

The words of a list belong to it: its two sentinels, and its elements.
`ListWord` names them, and what every operation leaves alone is the words
that belong neither to the list nor to the element it moves. A caller that
keeps its own data out of them keeps its data.

## Main definitions

* `listNodes`: The sentinels and the elements.
* `IsList`: A list in memory holds a sequence.
* `ListWord`: The words of a set of nodes.

## Theorems

* `isList_init`, `isList_insertBefore`, `isList_append`, `isList_push`,
  `isList_remove`, `isList_pop`: The operations as operations on sequences.
* `elemFind_isList`, `listEmpty_isList`, `listTraversal_isList`,
  `listLen_isList`: What the functions that only read return.
-/

namespace ForikOS

open Links

/-- The nodes of a list: the two sentinels and the elements in between. -/
def listNodes (l : Nat) (xs : List Nat) : List Nat := l :: xs ++ [listTail l]

/-- The list at `l` holds the elements `xs`. -/
structure IsList (mem : Nat → Nat) (l : Nat) (xs : List Nat) : Prop where
  chain : Chain (wordLinks mem) (listNodes l xs)
  nodup : (listNodes l xs).Nodup

/-- The words of a set of nodes. -/
def ListWord (P : Nat → Prop) (x : Nat) : Prop := ∃ e, P e ∧ (x = e ∨ x = e + 4)

variable {mem : Nat → Nat} {l : Nat} {xs : List Nat}

theorem mem_listNodes {e : Nat} : e ∈ listNodes l xs ↔ e = l ∨ e ∈ xs ∨ e = listTail l := by
  simp only [listNodes, List.cons_append, List.mem_cons, List.mem_append, List.not_mem_nil, or_false]

/-- A list only depends on the words of its nodes. -/
theorem IsList.congr {mem' : Nat → Nat} (h : IsList mem l xs)
    (hs : ∀ x, ListWord (· ∈ listNodes l xs) x → mem' x = mem x) : IsList mem' l xs := by
  refine ⟨chain_agree (P := (· ∈ listNodes l xs)) (fun _ he => he) ?_ h.chain, h.nodup⟩
  exact fun e he => ⟨hs e ⟨e, he, Or.inl rfl⟩, hs (e + 4) ⟨e, he, Or.inr rfl⟩⟩

theorem isList_init (mem : Nat → Nat) (l : Nat) : IsList (listInit mem l) l [] := by
  have htail : listTail l = l + 8 := rfl
  refine ⟨⟨?_, ?_, trivial⟩, ?_⟩
  · show listInit mem l (l + 4) = listTail l
    simp only [listInit, nextField, listTail, Function.update_apply]
    rw [if_neg (by omega), if_neg (by omega), if_pos trivial]
  · show listInit mem l (listTail l) = l
    simp only [listInit, nextField, listTail, Function.update_apply]
    rw [if_neg (by omega), if_pos trivial]
  · simp only [listNodes, List.nil_append, List.cons_append, List.nodup_cons, List.mem_cons,
      List.not_mem_nil, or_false, not_false_eq_true, List.nodup_nil, and_true, htail]
    omega

/-- Inserting a node writes words of that node and of its two neighbours. -/
theorem listInsertBefore_agree (mem : Nat → Nat) {P : Nat → Prop} (hs : Spread P) {before elem : Nat}
    (hb : P before) (he : P elem) (hp : P (mem before)) :
    AgreeOn P ((wordLinks mem).insertBefore before elem)
        (wordLinks (listInsertBefore mem before elem)) ∧
      ∀ x, ¬ ListWord P x → listInsertBefore mem before elem x = mem x := by
  have hsame : Function.update mem (nextField (mem before)) elem before = mem before :=
    Function.update_of_ne (hs before (mem before) hb hp) _ _
  constructor
  · have h1 := agreeOn_setNext (v := elem) hs hp (AgreeOn.refl P (wordLinks mem))
    have h2 := agreeOn_setPrev (v := mem before) hs he h1
    have h3 := agreeOn_setNext (v := before) hs he h2
    have h4 := agreeOn_setPrev (v := elem) hs hb h3
    simp only [listInsertBefore, hsame]
    exact h4
  · intro x hx
    have hout : ∀ e, P e → x ≠ e ∧ x ≠ e + 4 :=
      fun e hpe => ⟨fun hc => hx ⟨e, hpe, Or.inl hc⟩, fun hc => hx ⟨e, hpe, Or.inr hc⟩⟩
    simp only [listInsertBefore, nextField]
    rw [Function.update_of_ne (hout before hb).1, Function.update_of_ne (hout elem he).2,
      Function.update_of_ne (hout elem he).1, Function.update_of_ne (hout (mem before) hp).2]

/-- Removing a node writes words of its two neighbours. -/
theorem listRemove_agree (mem : Nat → Nat) {P : Nat → Prop} (hs : Spread P) {elem : Nat} (he : P elem)
    (hp : P (mem elem)) (hn : P (mem (elem + 4))) (hne : mem elem ≠ elem) :
    AgreeOn P ((wordLinks mem).remove elem) (wordLinks (listRemove mem elem)) ∧
      ∀ x, ¬ ListWord P x → listRemove mem elem x = mem x := by
  have hprev : Function.update mem (mem elem + 4) (mem (elem + 4)) elem = mem elem :=
    Function.update_of_ne (hs elem (mem elem) he hp) _ _
  have hnext : Function.update mem (mem elem + 4) (mem (elem + 4)) (elem + 4) = mem (elem + 4) :=
    Function.update_of_ne (by omega) _ _
  constructor
  · have h1 := agreeOn_setNext (v := mem (elem + 4)) hs hp (AgreeOn.refl P (wordLinks mem))
    have h2 := agreeOn_setPrev (v := mem elem) hs hn h1
    rw [remove_eq (u := mem elem) (w := mem (elem + 4)) rfl rfl hne]
    simp only [listRemove, nextField, hprev, hnext]
    exact h2
  · intro x hx
    have hout : ∀ e, P e → x ≠ e ∧ x ≠ e + 4 :=
      fun e hpe => ⟨fun hc => hx ⟨e, hpe, Or.inl hc⟩, fun hc => hx ⟨e, hpe, Or.inr hc⟩⟩
    simp only [listRemove, nextField, hnext]
    rw [Function.update_of_ne (hout _ hn).1, Function.update_of_ne (hout _ hp).2]

/-- `list_insert_before` puts an element in front of a node: of an element, or
    of the tail. -/
theorem isList_insertBefore (pre post : List Nat) (h : IsList mem l (pre ++ post)) {before elem : Nat}
    (hb : (post ++ [listTail l]).head? = some before) (he : elem ∉ listNodes l (pre ++ post))
    (hs : Spread (fun e => e = elem ∨ e ∈ listNodes l (pre ++ post))) :
    IsList (listInsertBefore mem before elem) l (pre ++ elem :: post) ∧
      ∀ x, ¬ ListWord (fun e => e = elem ∨ e ∈ listNodes l (pre ++ post)) x →
        listInsertBefore mem before elem x = mem x := by
  -- The node before it is the head sentinel or the last element in front.
  obtain ⟨pre', u, hpre⟩ : ∃ pre' u, l :: pre = pre' ++ [u] :=
    ⟨(l :: pre).dropLast, (l :: pre).getLast (List.cons_ne_nil _ _),
      (List.dropLast_append_getLast (List.cons_ne_nil _ _)).symm⟩
  obtain ⟨post', hpost⟩ : ∃ post', post ++ [listTail l] = before :: post' :=
    List.head?_eq_some_iff.mp hb
  have hnodes : listNodes l (pre ++ post) = pre' ++ u :: before :: post' := by
    rw [listNodes, ← List.cons_append, hpre, List.append_assoc, hpost, List.append_assoc]
    rfl
  have hnodes' : listNodes l (pre ++ elem :: post) = pre' ++ u :: elem :: before :: post' := by
    rw [listNodes, ← List.cons_append, hpre, List.append_assoc, List.cons_append, hpost,
      List.append_assoc]
    rfl
  have hmem : ∀ e, e = u ∨ e = before → e ∈ listNodes l (pre ++ post) := by
    intro e hme
    rw [hnodes]
    simp only [List.mem_append, List.mem_cons]
    tauto
  have hchain := h.chain
  have hnd := h.nodup
  rw [hnodes] at hchain hnd
  have hprev : mem before = u := ((chain_cut pre' u (before :: post')).mp hchain).2.2.1
  have hagree := listInsertBefore_agree mem hs (Or.inr (hmem before (Or.inr rfl))) (Or.inl rfl)
    (by rw [hprev]; exact Or.inr (hmem u (Or.inl rfl)))
  refine ⟨⟨?_, ?_⟩, hagree.2⟩
  · rw [hnodes']
    refine chain_agree ?_ hagree.1 (chain_insertBefore hchain hnd (by rw [← hnodes]; exact he))
    intro e hme
    rw [hnodes]
    simp only [List.mem_append, List.mem_cons] at hme ⊢
    tauto
  · rw [hnodes] at he
    have hsplit : pre' ++ u :: before :: post' = (pre' ++ [u]) ++ before :: post' := by
      rw [List.append_assoc]
      rfl
    have hsplit' : pre' ++ u :: elem :: before :: post' = (pre' ++ [u]) ++ elem :: before :: post' := by
      rw [List.append_assoc]
      rfl
    rw [hsplit] at he hnd
    rw [hnodes', hsplit']
    exact (List.perm_middle.nodup_iff).mpr (List.nodup_cons.mpr ⟨he, hnd⟩)

/-- `list_append` adds an element at the end. -/
theorem isList_append (h : IsList mem l xs) {elem : Nat} (he : elem ∉ listNodes l xs)
    (hs : Spread (fun e => e = elem ∨ e ∈ listNodes l xs)) :
    IsList (listAppend mem l elem) l (xs ++ [elem]) ∧
      ∀ x, ¬ ListWord (fun e => e = elem ∨ e ∈ listNodes l xs) x →
        listAppend mem l elem x = mem x := by
  rw [← List.append_nil xs] at h he hs
  have hins := isList_insertBefore xs [] h rfl he hs
  rw [List.append_nil] at hins
  exact hins

/-- `list_remove` takes an element out. -/
theorem isList_remove (pre : List Nat) {post : List Nat} {elem : Nat}
    (h : IsList mem l (pre ++ elem :: post))
    (hs : Spread (· ∈ listNodes l (pre ++ elem :: post))) :
    IsList (listRemove mem elem) l (pre ++ post) ∧
      ∀ x, ¬ ListWord (· ∈ listNodes l (pre ++ elem :: post)) x →
        listRemove mem elem x = mem x := by
  obtain ⟨pre', u, hpre⟩ : ∃ pre' u, l :: pre = pre' ++ [u] :=
    ⟨(l :: pre).dropLast, (l :: pre).getLast (List.cons_ne_nil _ _),
      (List.dropLast_append_getLast (List.cons_ne_nil _ _)).symm⟩
  obtain ⟨w, post', hpost⟩ : ∃ w post', post ++ [listTail l] = w :: post' := by
    cases post with
    | nil => exact ⟨_, _, rfl⟩
    | cons w post => exact ⟨_, _, rfl⟩
  -- The element stands between two nodes, the ends of the list included.
  have hnodes : listNodes l (pre ++ elem :: post) = pre' ++ u :: elem :: w :: post' := by
    rw [listNodes, ← List.cons_append, hpre, List.append_assoc, List.cons_append, hpost,
      List.append_assoc]
    rfl
  have hnodes' : listNodes l (pre ++ post) = pre' ++ u :: w :: post' := by
    rw [listNodes, ← List.cons_append, hpre, List.append_assoc, hpost, List.append_assoc]
    rfl
  have hchain := h.chain
  have hnd := h.nodup
  rw [hnodes] at hchain hnd hs ⊢
  have hcut := ((chain_cut pre' u _).mp hchain).2
  have hprev : mem elem = u := hcut.2.1
  have hnext : mem (elem + 4) = w := hcut.2.2.1
  have hmem : ∀ e, e = u ∨ e = elem ∨ e = w → e ∈ pre' ++ u :: elem :: w :: post' := by
    intro e hme
    simp only [List.mem_append, List.mem_cons]
    tauto
  have hne : mem elem ≠ elem := by
    rw [hprev]
    rintro rfl
    have hcons := (List.nodup_cons.mp (List.nodup_append.mp hnd).2.1).1
    exact hcons List.mem_cons_self
  have hagree := listRemove_agree mem hs (hmem elem (Or.inr (Or.inl rfl)))
    (by rw [hprev]; exact hmem u (Or.inl rfl)) (by rw [hnext]; exact hmem w (Or.inr (Or.inr rfl)))
    hne
  have hsub : (pre' ++ u :: w :: post').Sublist (pre' ++ u :: elem :: w :: post') :=
    (List.Sublist.refl pre').append ((List.Sublist.cons elem (List.Sublist.refl _)).cons_cons u)
  refine ⟨⟨?_, ?_⟩, hagree.2⟩
  · rw [hnodes']
    exact chain_agree (fun e he => hsub.subset he) hagree.1 (chain_remove hchain hnd)
  · rw [hnodes']
    exact hsub.nodup hnd

/-- The links of an element lead to nodes of the list. -/
theorem IsList.links (h : IsList mem l xs) {e : Nat} (he : e ∈ xs) :
    mem e ∈ listNodes l xs ∧ mem (e + 4) ∈ listNodes l xs := by
  constructor
  · exact chain_prev_mem h.chain (List.mem_append.mpr (Or.inl he))
  · refine chain_next_mem h.chain ?_
    rw [listNodes, List.dropLast_concat]
    exact List.mem_cons_of_mem l he

theorem IsList.last (h : IsList mem l xs) : mem (listTail l) ∈ listNodes l xs :=
  chain_prev_mem h.chain (List.mem_append.mpr (Or.inr List.mem_cons_self))

theorem IsList.first (h : IsList mem l xs) :
    mem (nextField l) = (xs ++ [listTail l]).head (by simp) := by
  have hchain := h.chain
  cases xs with
  | nil => exact hchain.1
  | cons x xs => exact hchain.1

/-- `list_empty` on a list in memory. -/
theorem listEmpty_isList (h : IsList mem l xs) : listEmpty mem l = decide (xs = []) := by
  have hfirst := h.first
  cases xs with
  | nil =>
      rw [listEmpty, decide_eq_true rfl]
      exact decide_eq_true hfirst
  | cons x xs =>
      have hne : x ≠ listTail l := by
        have hnd := (List.nodup_cons.mp h.nodup).2
        rintro rfl
        exact (List.nodup_cons.mp hnd).1 (List.mem_append.mpr (Or.inr List.mem_cons_self))
      have hx : mem (nextField l) = x := hfirst
      rw [listEmpty, decide_eq_false (List.cons_ne_nil _ _), hx]
      exact decide_eq_false hne

/-- `list_pop` takes the first element out. -/
theorem isList_pop {x : Nat} (h : IsList mem l (x :: xs))
    (hs : Spread (· ∈ listNodes l (x :: xs))) :
    (listPop mem l).2 = x ∧ IsList (listPop mem l).1 l xs ∧
      ∀ y, ¬ ListWord (· ∈ listNodes l (x :: xs)) y → (listPop mem l).1 y = mem y := by
  have hx : mem (nextField l) = x := h.first
  have hrem := isList_remove [] h hs
  simp only [listPop, hx]
  exact ⟨trivial, hrem⟩

/-- `list_push` adds an element at the front. -/
theorem isList_push (h : IsList mem l xs) {elem : Nat} (he : elem ∉ listNodes l xs)
    (hs : Spread (fun e => e = elem ∨ e ∈ listNodes l xs)) :
    IsList (listPush mem l elem) l (elem :: xs) ∧
      ∀ x, ¬ ListWord (fun e => e = elem ∨ e ∈ listNodes l xs) x →
        listPush mem l elem x = mem x := by
  have hfirst : (xs ++ [listTail l]).head? = some (mem (nextField l)) := by
    rw [h.first]
    exact List.head?_eq_some_head _
  exact isList_insertBefore [] xs h hfirst he hs

theorem elemFindLoop_eq (mem : Nat → Nat) (tail obj fuel e : Nat) :
    elemFindLoop mem tail obj fuel e = (wordLinks mem).find tail obj fuel e := by
  induction fuel generalizing e with
  | zero => rfl
  | succ fuel ih =>
      rw [elemFindLoop, Links.find, ih]
      rfl

/-- `elem_find` decides membership, and ends. -/
theorem elemFind_isList (h : IsList mem l xs) (hlen : xs.length < 2 ^ 32 - 1) (obj : Nat) :
    elemFind mem l obj = some (decide (obj ∈ xs)) := by
  have hfirst := h.first
  have hnd := h.nodup
  rw [elemFind, elemFindLoop_eq]
  cases xs with
  | nil =>
      have hx : mem (nextField l) = listTail l := hfirst
      have hpow : 2 ^ 32 = (2 ^ 32 - 1) + 1 := rfl
      rw [hx, hpow, Links.find, if_pos rfl]
      rfl
  | cons x xs =>
      have hx : mem (nextField l) = x := hfirst
      rw [hx]
      refine find_chain (2 ^ 32) x xs h.chain.2.2 ?_ (by simp only [List.length_cons] at hlen; omega)
      intro hc
      have hnd' := List.nodup_append.mp (List.nodup_cons.mp hnd).2
      exact hnd'.2.2 _ hc _ List.mem_cons_self rfl

theorem IsList.tail_not_mem (h : IsList mem l xs) : listTail l ∉ xs := by
  intro hc
  have hnd := List.nodup_append.mp (List.nodup_cons.mp h.nodup).2
  exact hnd.2.2 _ hc _ List.mem_cons_self rfl

/-- The loop of `list_traversal` from the node behind `u` on. -/
theorem listTraversalLoop_chain {tail u fuel : Nat} (func : Nat → Int → Bool) (arg : Int)
    (h : Chain (wordLinks mem) (u :: xs ++ [tail])) (htail : tail ∉ xs) (hfuel : xs.length < fuel) :
    listTraversalLoop mem tail func arg fuel (mem (nextField u)) =
      some (xs.find? (fun e => func e arg)) := by
  induction xs generalizing u fuel with
  | nil =>
      obtain ⟨fuel, rfl⟩ := Nat.exists_eq_add_one.mpr (Nat.zero_lt_of_lt hfuel)
      have hnext : mem (nextField u) = tail := h.1
      rw [hnext, listTraversalLoop, if_pos rfl]
      rfl
  | cons x xs ih =>
      obtain ⟨fuel, rfl⟩ := Nat.exists_eq_add_one.mpr (Nat.zero_lt_of_lt hfuel)
      have hnext : mem (nextField u) = x := h.1
      have hne : x ≠ tail := fun hc => htail (hc ▸ List.mem_cons_self)
      rw [hnext, listTraversalLoop, if_neg hne, List.find?_cons]
      cases hf : func x arg with
      | true => rfl
      | false =>
        simp only [List.length_cons] at hfuel
        exact ih h.2.2 (fun hc => htail (List.mem_cons_of_mem x hc)) (by omega)

/-- `list_traversal` finds the first element the function accepts, and ends. -/
theorem listTraversal_isList (h : IsList mem l xs) (hlen : xs.length < 2 ^ 32)
    (func : Nat → Int → Bool) (arg : Int) :
    listTraversal mem l func arg = some (xs.find? (fun e => func e arg)) := by
  have hloop := listTraversalLoop_chain func arg h.chain h.tail_not_mem hlen
  unfold listTraversal
  rw [listEmpty_isList h, hloop]
  cases xs with
  | nil => rfl
  | cons x xs => rw [decide_eq_false (List.cons_ne_nil x xs), if_neg Bool.false_ne_true]

/-- The loop of `list_len` from the node behind `u` on. -/
theorem listLenLoop_chain {tail u fuel n : Nat} (h : Chain (wordLinks mem) (u :: xs ++ [tail]))
    (htail : tail ∉ xs) (hfuel : xs.length < fuel) :
    listLenLoop mem tail fuel (mem (nextField u)) n = some (n + xs.length) := by
  induction xs generalizing u fuel n with
  | nil =>
      obtain ⟨fuel, rfl⟩ := Nat.exists_eq_add_one.mpr (Nat.zero_lt_of_lt hfuel)
      have hnext : mem (nextField u) = tail := h.1
      rw [hnext, listLenLoop, if_pos rfl]
      rfl
  | cons x xs ih =>
      obtain ⟨fuel, rfl⟩ := Nat.exists_eq_add_one.mpr (Nat.zero_lt_of_lt hfuel)
      have hnext : mem (nextField u) = x := h.1
      have hne : x ≠ tail := fun hc => htail (hc ▸ List.mem_cons_self)
      simp only [List.length_cons] at hfuel
      rw [hnext, listLenLoop, if_neg hne, ih h.2.2 (fun hc => htail (List.mem_cons_of_mem x hc))
        (by omega), List.length_cons]
      congr 1
      omega

/-- `list_len` counts the elements, and ends. -/
theorem listLen_isList (h : IsList mem l xs) (hlen : xs.length < 2 ^ 32) :
    listLen mem l = some xs.length := by
  unfold listLen
  rw [listLenLoop_chain h.chain h.tail_not_mem hlen, Nat.zero_add]

end ForikOS
