import ForikOS.Theory.Heap
import Mathlib.Data.Set.Piecewise

/-!
# The Frame of a Heap

A heap reads and writes its descriptors and the pages it was given, and no
other word. So a heap can be cut out of a larger memory: a call on the whole
does to the part what it does to the part alone, and leaves the rest as it
is.

The part is a set `S` of addresses that covers the descriptors and the pages.
`Heap.framed` puts the words of a heap back among other words, and its runs
back in front of other runs. Every function of the heap commutes with it, and
both halves of the frame property are in that one equation: what is outside
does not matter, and is not changed.

## Main definitions

* `Covers`: The set holds the descriptors and all pages of the heap.
* `Heap.framed`: A heap among other words and other runs.

## Theorems

* `sysMalloc_framed`, `sysFreeUser_framed`: The calls commute with the frame.
-/

namespace ForikOS

section Memory

variable {S : Set Nat} [∀ x, Decidable (x ∈ S)] {o m : Nat → Nat}

/-- A write inside the set is a write to the part. -/
theorem update_piecewise {x : Nat} (hx : x ∈ S) (v : Nat) :
    Function.update (S.piecewise m o) x v = S.piecewise (Function.update m x v) o := by
  funext y
  by_cases hy : y = x
  · rw [hy, Function.update_self, Set.piecewise_eq_of_mem _ _ _ hx, Function.update_self]
  · rw [Function.update_of_ne hy]
    by_cases hS : y ∈ S
    · rw [Set.piecewise_eq_of_mem _ _ _ hS, Set.piecewise_eq_of_mem _ _ _ hS,
        Function.update_of_ne hy]
    · rw [Set.piecewise_eq_of_notMem _ _ _ hS, Set.piecewise_eq_of_notMem _ _ _ hS]

theorem piecewise_eq_self (hout : ∀ x, x ∉ S → m x = o x) : S.piecewise m o = m := by
  funext x
  by_cases hx : x ∈ S
  · rw [Set.piecewise_eq_of_mem _ _ _ hx]
  · rw [Set.piecewise_eq_of_notMem _ _ _ hx, hout x hx]

theorem memsetZero_piecewise {a n : Nat} (hx : ∀ x, a ≤ x ∧ x < a + n → x ∈ S) :
    memsetZero (S.piecewise m o) a n = S.piecewise (memsetZero m a n) o := by
  funext y
  by_cases hS : y ∈ S
  · rw [Set.piecewise_eq_of_mem _ _ _ hS, memsetZero, memsetZero, Set.piecewise_eq_of_mem _ _ _ hS]
  · rw [Set.piecewise_eq_of_notMem _ _ _ hS, memsetZero, if_neg (fun hc => hS (hx y hc)),
      Set.piecewise_eq_of_notMem _ _ _ hS]

theorem listInsertBefore_piecewise {before elem : Nat} (hb : before ∈ S) (he : elem ∈ S)
    (hn : elem + 4 ∈ S) (hp : m before + 4 ∈ S) :
    listInsertBefore (S.piecewise m o) before elem = S.piecewise (listInsertBefore m before elem) o := by
  simp only [listInsertBefore, nextField, Set.piecewise_eq_of_mem, update_piecewise, hb, he, hn, hp]

theorem listRemove_piecewise {elem : Nat} (he : elem ∈ S) (hn : elem + 4 ∈ S) (hp : m elem + 4 ∈ S)
    (hnext : m (elem + 4) ∈ S) :
    listRemove (S.piecewise m o) elem = S.piecewise (listRemove m elem) o := by
  have hread : Function.update m (m elem + 4) (m (elem + 4)) (elem + 4) = m (elem + 4) := by
    by_cases heq : elem + 4 = m elem + 4
    · rw [heq, Function.update_self]
    · rw [Function.update_of_ne heq]
  simp only [listRemove, nextField, Set.piecewise_eq_of_mem, update_piecewise, he, hn, hp, hread, hnext]

end Memory

/-- The set holds the descriptors and the pages of a heap. -/
structure Covers (S : Set Nat) (d : Nat) (runs : List (Nat × Nat)) : Prop where
  desc : ∀ x, d ≤ x ∧ x < d + 168 → x ∈ S
  page : ∀ r, r ∈ runs → ∀ x, r.1 ≤ x ∧ x < r.1 + r.2 * 4096 → x ∈ S

/-- The words of a heap inside `S`, with `o` around them, and its runs in front
    of `t`. -/
def Heap.framed (S : Set Nat) [∀ x, Decidable (x ∈ S)] (o : Nat → Nat) (t : List (Nat × Nat))
    (h : Heap) : Heap :=
  { mem := S.piecewise h.mem o, runs := h.runs ++ t }

variable {S : Set Nat} [∀ x, Decidable (x ∈ S)] {o : Nat → Nat} {t : List (Nat × Nat)}
variable {d k : Nat} {h : Heap} {fl : Nat → List Nat}

omit [∀ x, Decidable (x ∈ S)] in
/-- The links of a free list lie in the set. -/
theorem Covers.node (hS : Covers S d h.runs) (ha : Arenas d h) (hk : k < 7) {e : Nat}
    (he : ClassNode d h k e) : e ∈ S ∧ e + 4 ∈ S := by
  rcases he with rfl | rfl | ⟨r, hr, hs, hb⟩
  · unfold freeListAt descAt
    exact ⟨hS.desc _ (by omega), hS.desc _ (by omega)⟩
  · unfold listTail freeListAt descAt
    exact ⟨hS.desc _ (by omega), hS.desc _ (by omega)⟩
  · have hp := ha.block_place hr hs hb
    have hpos := blockSize_pos k
    exact ⟨hS.page r hr _ (by omega), hS.page r hr _ (by omega)⟩

omit [∀ x, Decidable (x ∈ S)] in
theorem Covers.header (hS : Covers S d h.runs) (ha : Arenas d h) {r : Nat × Nat} (hr : r ∈ h.runs)
    {x : Nat} (hx : r.1 ≤ x ∧ x < r.1 + 12) : x ∈ S := by
  have hp := ha.place r hr
  unfold RunPlace at hp
  exact hS.page r hr x (by omega)

omit [∀ x, Decidable (x ∈ S)] in
/-- The set holds all words the heap owns. -/
theorem Covers.owned (hS : Covers S d h.runs) (hl : HeapLists d h fl) {x : Nat}
    (hx : HeapLists.Owned d h.runs fl x) : x ∈ S := by
  rcases hx with hd | ⟨r, hr, hxr⟩ | ⟨k, hk, b, hb, hxb⟩
  · exact hS.desc x hd
  · exact hS.header hl.arenas hr hxr
  · rcases hl.blocks k hk b hb with ⟨r, hr, hs, hblk⟩
    have hp := hl.arenas.block_place hr hs hblk
    have hpos := blockSize_pos k
    exact hS.page r hr x (by omega)

/-- The heap is the same heap among other words. -/
theorem HeapLists.piecewise (hl : HeapLists d h fl) (hS : Covers S d h.runs) :
    HeapLists d ⟨S.piecewise h.mem o, h.runs⟩ fl :=
  hl.congr (fun _ hx => Set.piecewise_eq_of_mem _ _ _ (hS.owned hl hx))

theorem Small.piecewise (ha : Arenas d h) (hS : Covers S d h.runs) {r : Nat × Nat} (hr : r ∈ h.runs)
    (hs : Small d h.mem r k) : Small d (S.piecewise h.mem o) r k :=
  (small_congr (fun _ hx => Set.piecewise_eq_of_mem _ _ _ (hS.header ha hr hx)) k).mpr hs

/-- `list_append` of a block of the class. -/
theorem HeapLists.append_piecewise (hl : HeapLists d h fl) (hS : Covers S d h.runs) (hk : k < 7)
    {r : Nat × Nat} (hr : r ∈ h.runs) (hs : Small d h.mem r k) {b : Nat} (hb : IsBlock k r.1 b) :
    listAppend (S.piecewise h.mem o) (freeListAt (descAt d k)) b =
      S.piecewise (listAppend h.mem (freeListAt (descAt d k)) b) o := by
  have htail := hS.node hl.arenas hk (Or.inr (Or.inl rfl))
  have hblock := hS.node hl.arenas hk (Or.inr (Or.inr ⟨r, hr, hs, hb⟩))
  have hlast := hS.node hl.arenas hk (hl.node hk (hl.lists k hk).last)
  exact listInsertBefore_piecewise htail.1 hblock.1 hblock.2 hlast.2

/-- `list_remove` of a free block. -/
theorem HeapLists.remove_piecewise (hl : HeapLists d h fl) (hS : Covers S d h.runs) (hk : k < 7)
    {b : Nat} (hb : b ∈ fl k) :
    listRemove (S.piecewise h.mem o) b = S.piecewise (listRemove h.mem b) o := by
  have hlinks := (hl.lists k hk).links hb
  have hblock := hS.node hl.arenas hk (hl.node hk (mem_listNodes.mpr (Or.inr (Or.inl hb))))
  have hprev := hS.node hl.arenas hk (hl.node hk hlinks.1)
  have hnext := hS.node hl.arenas hk (hl.node hk hlinks.2)
  exact listRemove_piecewise hblock.1 hblock.2 hprev.2 hnext.1

/-- The loop over the blocks of a new arena. -/
theorem splitArena_piecewise (n i : Nat) {mem mem' : Nat → Nat} {runs : List (Nat × Nat)}
    (hl : HeapLists d ⟨mem, runs⟩ fl) (hS : Covers S d runs) (hk : k < 7) {r : Nat × Nat}
    (hr : r ∈ runs) (hs : Small d mem r k) (hfl : fl k = blocksUpTo k r.1 i)
    (hn : i + n = perArena k) (hrun : splitArena r.1 n i mem = .ok mem') :
    splitArena r.1 n i (S.piecewise mem o) = .ok (S.piecewise mem' o) := by
  induction n generalizing i mem fl with
  | zero =>
      cases hrun
      rfl
  | succ n ih =>
      have hblock : IsBlock k r.1 (blockAt k r.1 i) := ⟨i, by omega, rfl⟩
      have hnew : blockAt k r.1 i ∉ fl k := by
        rw [hfl, mem_blocksUpTo]
        rintro ⟨j, hj, heq⟩
        have := blockAt_inj heq
        omega
      have happ := hl.append hk hr hs hblock hnew
      have hs₁ := (small_congr (happ.2 r hr) k).mpr hs
      -- One round of the loop, for any memory in which the lists are well formed.
      have step : ∀ {m : Nat → Nat}, HeapLists d ⟨m, runs⟩ fl → Small d m r k →
          splitArena r.1 (n + 1) i m =
            splitArena r.1 n (i + 1) (listAppend m (freeListAt (descAt d k)) (blockAt k r.1 i)) := by
        intro m hlm hsm
        have hfound := elemFound_list (hlm.lists k hk) (hlm.length_lt hk) (blockAt k r.1 i)
        rw [decide_eq_false hnew] at hfound
        rw [splitArena, arena2block_small hsm (hlm.arenas.desc k hk).1 i, hsm.2.1, hfound, ok_bind,
          ensure_pos rfl, ok_bind]
      rw [step hl hs] at hrun
      rw [step (hl.piecewise hS) (Small.piecewise hl.arenas hS hr hs),
        hl.append_piecewise hS hk hr hs hblock]
      exact ih (i + 1) happ.1 hs₁ (by rw [Function.update_self, hfl, blocksUpTo_succ]) (by omega) hrun

/-- The loop over the blocks of an arena that goes away. -/
theorem dissolveArena_piecewise (n i : Nat) {mem mem' : Nat → Nat} {runs : List (Nat × Nat)}
    (hl : HeapLists d ⟨mem, runs⟩ fl) (hS : Covers S d runs) (hk : k < 7) {r : Nat × Nat}
    (hr : r ∈ runs) (hs : Small d mem r k) (hn : i + n = perArena k)
    (hfree : ∀ j, i ≤ j → j < perArena k → blockAt k r.1 j ∈ fl k)
    (hrun : dissolveArena r.1 n i mem = .ok mem') :
    dissolveArena r.1 n i (S.piecewise mem o) = .ok (S.piecewise mem' o) := by
  induction n generalizing i mem fl with
  | zero =>
      cases hrun
      rfl
  | succ n ih =>
      have hmem := hfree i (by omega) (by omega)
      rcases hl.remove hk hmem with ⟨ys, hl₁, hys, _, hhdr⟩
      have hs₁ := (small_congr (hhdr r hr) k).mpr hs
      -- One round of the loop, for any memory in which the lists are well formed.
      have step : ∀ {m : Nat → Nat}, HeapLists d ⟨m, runs⟩ fl → Small d m r k →
          dissolveArena r.1 (n + 1) i m =
            dissolveArena r.1 n (i + 1) (listRemove m (blockAt k r.1 i)) := by
        intro m hlm hsm
        have hfound := elemFound_list (hlm.lists k hk) (hlm.length_lt hk) (blockAt k r.1 i)
        rw [decide_eq_true hmem] at hfound
        rw [dissolveArena, arena2block_small hsm (hlm.arenas.desc k hk).1 i, hsm.2.1, hfound, ok_bind,
          ensure_pos rfl, ok_bind]
      rw [step hl hs] at hrun
      rw [step (hl.piecewise hS) (Small.piecewise hl.arenas hS hr hs), hl.remove_piecewise hS hk hmem]
      refine ih (i + 1) hl₁ hs₁ (by omega) ?_ hrun
      intro j h1 h2
      rw [Function.update_self, hys]
      refine ⟨hfree j (by omega) h2, fun hc => ?_⟩
      have := blockAt_inj hc
      omega

/-- Taking the first free block. -/
theorem takeBlock_framed (hl : HeapLists d h fl) (hS : Covers S d h.runs) (hk : k < 7) {b : Nat}
    {bs : List Nat} (hfl : fl k = b :: bs) :
    takeBlock (h.framed S o t) (descAt d k) =
      ((takeBlock h (descAt d k)).1.framed S o t, (takeBlock h (descAt d k)).2) := by
  have hbmem : b ∈ fl k := by
    rw [hfl]
    exact List.mem_cons_self
  have hfirst : h.mem (nextField (freeListAt (descAt d k))) = b := by
    have hlist := hl.lists k hk
    rw [hfl] at hlist
    exact hlist.first
  have hhead : nextField (freeListAt (descAt d k)) ∈ S := (hS.node hl.arenas hk (Or.inl rfl)).2
  have hdesc : descAt d k ∈ S := hS.desc _ (by unfold descAt; omega)
  rcases hl.remove hk hbmem with ⟨ys, hl₁, _⟩
  have hsize : listRemove h.mem b (descAt d k) = blockSize k := (hl₁.arenas.desc k hk).1
  rcases hl.blocks k hk b hbmem with ⟨r, hr, hs, hblk⟩
  have hp := hl.arenas.block_place hr hs hblk
  have hblock : ∀ x, b ≤ x ∧ x < b + blockSize k → x ∈ S := fun x hx => hS.page r hr x (by omega)
  have hcnt : r.1 + 4 ∈ S := hS.header hl.arenas hr (by omega)
  simp only [takeBlock, listPop, Heap.framed, Set.piecewise_eq_of_mem, hhead, hfirst,
    hl.remove_piecewise hS hk hbmem, hdesc, hsize, memsetZero_piecewise hblock, hp.2.2.2.2.2, hcnt,
    update_piecewise]

theorem pickDesc_piecewise {mem : Nat → Nat} (hS : ∀ x, d ≤ x ∧ x < d + 168 → x ∈ S)
    (size n i : Nat) (hn : i + n = 7) :
    pickDesc (S.piecewise mem o) d size n i = pickDesc mem d size n i := by
  induction n generalizing i with
  | zero => rfl
  | succ n ih =>
      have hdesc : descAt d i ∈ S := hS _ (by unfold descAt; omega)
      rw [pickDesc, pickDesc, Set.piecewise_eq_of_mem _ _ _ hdesc, ih (i + 1) (by omega)]

/-- The set holds the pages from `pg` on. -/
def CoversPages (S : Set Nat) (pg n : Nat) : Prop := ∀ x, pg ≤ x ∧ x < pg + n * 4096 → x ∈ S

theorem arenaMem_piecewise {mem : Nat → Nat} {pg : Nat} (hS : CoversPages S pg 1) (desc n : Nat) :
    arenaMem (S.piecewise mem o) pg desc n = S.piecewise (arenaMem mem pg desc n) o := by
  have hpage : ∀ x, pg ≤ x ∧ x < pg + 4096 → x ∈ S := fun x hx => hS x (by omega)
  have h0 : pg ∈ S := hpage _ (by omega)
  have h4 : pg + 4 ∈ S := hpage _ (by omega)
  have h8 : pg + 8 ∈ S := hpage _ (by omega)
  simp only [arenaMem, memsetZero_piecewise hpage, update_piecewise, h0, h4, h8]

theorem largeMem_piecewise {mem : Nat → Nat} {pg n : Nat} (hn : 1 ≤ n) (hS : CoversPages S pg n) :
    largeMem (S.piecewise mem o) pg n = S.piecewise (largeMem mem pg n) o := by
  have h0 : pg ∈ S := hS _ (by omega)
  have h4 : pg + 4 ∈ S := hS _ (by omega)
  have h8 : pg + 8 ∈ S := hS _ (by omega)
  simp only [largeMem, memsetZero_piecewise hS, update_piecewise, h0, h4, h8]

/-- A new arena in fresh pages of the set. -/
theorem newArena_framed (hl : HeapLists d h fl) (hS : Covers S d h.runs) (hk : k < 7)
    (hfl : fl k = []) {pg : Nat} (hf : FreshPages d h pg 1) (hpg : CoversPages S pg 1) {h' : Heap}
    (hrun : newArena h (descAt d k) pg = .ok h') :
    newArena (h.framed S o t) (descAt d k) pg = .ok (h'.framed S o t) := by
  have hper : h.mem (descAt d k + 4) = perArena k := (hl.arenas.desc k hk).2
  have hdesc : descAt d k + 4 ∈ S := hS.desc _ (by unfold descAt; omega)
  have hper' : (h.framed S o t).mem (descAt d k + 4) = perArena k :=
    (Set.piecewise_eq_of_mem _ _ _ hdesc).trans hper
  have hadd := hl.addRun (Nat.le_refl 1) hf (fun x hx => arenaMem_keep hx)
    (Or.inl ⟨k, hk, arenaMem_small h.mem d k pg (perArena k)⟩)
  have hS' : Covers S d ((pg, 1) :: h.runs) := by
    refine ⟨hS.desc, fun r hr => ?_⟩
    rcases List.mem_cons.mp hr with rfl | hr
    · exact hpg
    · exact hS.page r hr
  rw [newArena_eq hper (hf.desc_out hk)] at hrun
  rcases bind_eq_ok.mp hrun with ⟨mem, hsplit, hh⟩
  cases hh
  have hsplit' := splitArena_piecewise (o := o) (perArena k) 0 hadd.1 hS' hk List.mem_cons_self
    (arenaMem_small h.mem d k pg (perArena k)) hfl (by omega) hsplit
  rw [newArena_eq hper' (hf.desc_out hk)]
  show splitArena pg (perArena k) 0 (arenaMem (S.piecewise h.mem o) pg _ _) >>= _ = _
  rw [arenaMem_piecewise hpg, hsplit', ok_bind]
  rfl

/-- `sys_malloc` commutes with the frame. -/
theorem sysMalloc_framed {s : HeapState} (hi : HeapInv d s fl) (hS : Covers S d s.heap.runs)
    {poolSize size pg ptr : Nat} {h' : Heap} (hpool : poolSize ≤ 2 ^ 31)
    (hpg : pg = 0 ∨ (FreshPages d s.heap pg (if 1024 < size then largePages size else 1) ∧
      CoversPages S pg (if 1024 < size then largePages size else 1)))
    (hrun : sysMalloc d poolSize s.heap size pg = .ok (h', ptr)) :
    sysMalloc d poolSize (s.heap.framed S o t) size pg = .ok (h'.framed S o t, ptr) := by
  have hl := hi.lists
  unfold sysMalloc at hrun ⊢
  by_cases hsize : 0 < size ∧ size < poolSize
  · rw [if_neg (fun hc => hc hsize)] at hrun ⊢
    by_cases hbig : 1024 < size
    · rw [if_pos hbig] at hrun hpg ⊢
      by_cases hz : pg = 0
      · rw [if_pos hz] at hrun ⊢
        cases hrun
        rfl
      · rw [if_neg hz] at hrun ⊢
        have hpages := largePages_spec size (by omega)
        cases hrun
        show Except.ok (Heap.mk (largeMem (S.piecewise s.heap.mem o) pg (largePages size)) _, _) = _
        rw [largeMem_piecewise hpages.2 (hpg.resolve_left hz).2]
        rfl
    · rw [if_neg hbig] at hrun hpg ⊢
      have hpick := pickDesc_spec hl.arenas size (by omega) 7 0 (by omega) (by omega)
      have hsame : pickDesc (s.heap.framed S o t).mem d size 7 0 = pickDesc s.heap.mem d size 7 0 :=
        pickDesc_piecewise hS.desc size 7 0 rfl
      rw [hsame]
      generalize pickDesc s.heap.mem d size 7 0 = k at hpick hrun
      have hk := hpick.1
      have hhead := (hS.node hl.arenas hk (Or.inl rfl)).2
      -- The test for an empty list reads one word, which is in the set.
      have hempty : listEmpty (s.heap.framed S o t).mem (freeListAt (descAt d k)) =
          listEmpty s.heap.mem (freeListAt (descAt d k)) := by
        have hread : (s.heap.framed S o t).mem (nextField (freeListAt (descAt d k))) =
            s.heap.mem (nextField (freeListAt (descAt d k))) := Set.piecewise_eq_of_mem _ _ _ hhead
        rw [listEmpty, listEmpty, hread]
      dsimp only at hrun ⊢
      rw [hempty]
      rw [listEmpty_isList (hl.lists k hk)] at hrun ⊢
      cases hfl : fl k with
      | cons b bs =>
          rw [hfl, decide_eq_false (List.cons_ne_nil b bs), if_neg (by decide)] at hrun
          rw [decide_eq_false (List.cons_ne_nil b bs), if_neg (by decide),
            takeBlock_framed hl hS hk hfl]
          cases hrun
          rfl
      | nil =>
          rw [hfl, decide_eq_true rfl, if_pos rfl] at hrun
          rw [decide_eq_true rfl, if_pos rfl]
          by_cases hz : pg = 0
          · rw [if_pos hz] at hrun ⊢
            cases hrun
            rfl
          · rw [if_neg hz] at hrun ⊢
            have hf := hpg.resolve_left hz
            rcases bind_eq_ok.mp hrun with ⟨h₁, hnew, htake⟩
            rcases newArena_inv hl hi.counted hk hfl hf.1 with ⟨h₂, hnew₂, hruns, _, hl₁, _⟩
            rw [hnew₂] at hnew
            cases hnew
            -- The set covers the new arena too, as it covers the page.
            have hS₁ : Covers S d h₁.runs := by
              rw [hruns]
              refine ⟨hS.desc, fun r hr => ?_⟩
              rcases List.mem_cons.mp hr with rfl | hr
              · exact hf.2
              · exact hS.page r hr
            rcases blocksUpTo_cons (k := k) pg (perArena_pos hk) with ⟨bs, hbs⟩
            have htake' := takeBlock_framed (o := o) (t := t) hl₁ hS₁ hk
              (by rw [Function.update_self, hbs])
            rw [newArena_framed hl hS hk hfl hf.1 hf.2 hnew₂, ok_bind, htake']
            cases htake
            rfl
  · rw [if_pos hsize] at hrun ⊢
    cases hrun
    rfl

/-- A heap framed by its own memory is itself. -/
theorem Heap.framed_self (h : Heap) : h.framed S h.mem [] = h := by
  rw [Heap.framed, Set.piecewise_same, List.append_nil]

/-- `sys_malloc` changes no word outside the set. -/
theorem sysMalloc_outside {s : HeapState} (hi : HeapInv d s fl) (hS : Covers S d s.heap.runs)
    {poolSize size pg ptr : Nat} {h' : Heap} (hpool : poolSize ≤ 2 ^ 31)
    (hpg : pg = 0 ∨ (FreshPages d s.heap pg (if 1024 < size then largePages size else 1) ∧
      CoversPages S pg (if 1024 < size then largePages size else 1)))
    (hrun : sysMalloc d poolSize s.heap size pg = .ok (h', ptr)) {x : Nat} (hx : x ∉ S) :
    h'.mem x = s.heap.mem x := by
  have hself := sysMalloc_framed (o := s.heap.mem) (t := []) hi hS hpool hpg hrun
  rw [Heap.framed_self, hrun, Except.ok.injEq, Prod.mk.injEq] at hself
  rw [hself.1]
  exact Set.piecewise_eq_of_notMem _ _ _ hx

/-- `mfree_page` takes back a run of the heap. -/
theorem freeRun_framed {a n : Nat} (hr : (a, n) ∈ h.runs) {h' : Heap}
    (hrun : freeRun h a n = .ok h') : freeRun (h.framed S o t) a n = .ok (h'.framed S o t) := by
  have hmem : (a, n) ∈ (h.framed S o t).runs := List.mem_append.mpr (Or.inl hr)
  rw [freeRun, ensure_pos hr, ok_bind] at hrun
  rw [freeRun, ensure_pos hmem, ok_bind]
  cases hrun
  show Except.ok _ = Except.ok _
  rw [Heap.framed, Heap.framed, List.erase_append_left _ hr]

/-- `sys_free` of an allocation commutes with the frame. -/
theorem sysFreeUser_framed {s : HeapState} (hi : HeapInv d s fl) (hS : Covers S d s.heap.runs)
    {a : Nat × Nat} (ha : a ∈ s.live) {h' : Heap} (hrun : sysFreeUser s.heap a.1 = .ok h') :
    sysFreeUser (s.heap.framed S o t) a.1 = .ok (h'.framed S o t) := by
  have hl := hi.lists
  rcases hi.live a ha with ⟨r, hr, k, hk, hs, hblk, _, hfree⟩ | ⟨r, hr, hlarge, haddr, _⟩
  · have hp := hl.arenas.block_place hr hs hblk
    rcases returnBlock_inv hi hk hr hs hblk hfree with ⟨mem', hmem, hcnt, hl', _, hkind⟩
    have hs' : Small d mem' r k := (hkind.small r hr k).mpr hs
    have hcell : r.1 + 4 ∈ S := hS.header hl.arenas hr (by omega)
    have hhead : r.1 ∈ S := hS.header hl.arenas hr (by omega)
    have hdesc : descAt d k + 4 ∈ S := hS.desc _ (by unfold descAt; omega)
    -- Giving the block back commutes, as it writes the list and the counter only.
    have hframe : S.piecewise mem' o =
        returnMem (s.heap.framed S o t).mem (descAt d k) r.1 a.1 := by
      simp only [hmem, returnMem, Heap.framed, hl.append_piecewise hS hk hr hs hblk,
        Set.piecewise_eq_of_mem, update_piecewise, hcell]
    rw [sysFreeUser_block hs (by omega) hp.2.2.2.2.2 hmem] at hrun
    rw [sysFreeUser_block (Small.piecewise hl.arenas hS hr hs) (by omega) hp.2.2.2.2.2 hframe]
    simp only [Set.piecewise_eq_of_mem, hcell, hhead, hs'.2.1, hdesc] at hrun ⊢
    have hper : mem' (descAt d k + 4) = perArena k := (hl'.arenas.desc k hk).2
    rw [hper] at hrun ⊢
    by_cases hfull : mem' (r.1 + 4) = perArena k
    · rw [if_pos hfull] at hrun ⊢
      rcases bind_eq_ok.mp hrun with ⟨m, hdis, hfreed⟩
      have hall : ∀ j, 0 ≤ j → j < perArena k →
          blockAt k r.1 j ∈ Function.update fl k (fl k ++ [a.1]) k :=
        fun j _ hj => hl'.all_free hk (by rw [Function.update_self, ← hcnt]; exact hfull) hj
      rw [dissolveArena_piecewise (perArena k) 0 hl' hS hk hr hs' (by omega) hall hdis, ok_bind]
      have hone : (r.1, 1) ∈ s.heap.runs := by
        rw [← hs.1]
        exact hr
      exact freeRun_framed (h := ⟨m, s.heap.runs⟩) hone hfreed
    · rw [if_neg hfull] at hrun ⊢
      cases hrun
      rfl
  · have hplace := hl.arenas.place r hr
    unfold RunPlace at hplace
    -- A run of whole pages: only its header is read.
    have harena : block2arena a.1 = r.1 := by
      rw [haddr, block2arena_eq (by omega)]
      omega
    have hne : a.1 ≠ 0 := by omega
    have hread : ∀ x, r.1 ≤ x ∧ x < r.1 + 12 → (s.heap.framed S o t).mem x = s.heap.mem x :=
      fun x hx => Set.piecewise_eq_of_mem _ _ _ (hS.header hl.arenas hr hx)
    rw [sysFreeUser, ensure_pos hne, ok_bind, harena] at hrun ⊢
    dsimp only at hrun ⊢
    rw [hread r.1 (by omega), hread (r.1 + 4) (by omega), hread (r.1 + 8) (by omega)]
    rw [ensure_pos (Or.inr hlarge.2.2), ok_bind, if_pos ⟨hlarge.1, hlarge.2.2⟩, hlarge.2.1] at hrun ⊢
    exact freeRun_framed hr hrun

/-- `sys_free` changes no word outside the set. -/
theorem sysFreeUser_outside {s : HeapState} (hi : HeapInv d s fl) (hS : Covers S d s.heap.runs)
    {a : Nat × Nat} (ha : a ∈ s.live) {h' : Heap} (hrun : sysFreeUser s.heap a.1 = .ok h') {x : Nat}
    (hx : x ∉ S) : h'.mem x = s.heap.mem x := by
  have hself := sysFreeUser_framed (o := s.heap.mem) (t := []) hi hS ha hrun
  rw [Heap.framed_self, hrun, Except.ok.injEq] at hself
  rw [hself]
  exact Set.piecewise_eq_of_notMem _ _ _ hx

end ForikOS
