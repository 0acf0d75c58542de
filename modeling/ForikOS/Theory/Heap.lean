import ForikOS.Theory.HeapLists

/-!
# The Kernel Heap Invariant

`sys_malloc` and `sys_free` in any order, with clients writing into what they
hold: allocations never overlap each other or a free block, counters and lists
stay in step, and no assertion fails.

The invariant adds to the lists of `HeapLists` the counters, the allocations,
and that no arena is kept with all its blocks free. The last is what makes the
test in `sys_free` exact: the counter reaches the number of blocks only by the
release in hand.

## Main definitions

* `LiveAt`: Where an allocation may be.
* `HeapInv`: The invariant.
* `Extent`: The bytes an allocation can use.

## Theorems

* `sysMalloc_inv`, `sysFreeUser_inv`: A call keeps the invariant.
* `kernel_heap`: The invariant and its consequences in every run.
-/

namespace ForikOS

variable {d k : Nat} {h : Heap} {fl : Nat → List Nat} {mem' : Nat → Nat}

/-- An allocation of `a.2` bytes at `a.1`: a block of an arena that is not free,
    or a large run. -/
def LiveAt (d : Nat) (h : Heap) (fl : Nat → List Nat) (a : Nat × Nat) : Prop :=
  (∃ r, r ∈ h.runs ∧ ∃ k, k < 7 ∧ Small d h.mem r k ∧ IsBlock k r.1 a.1 ∧ a.2 ≤ blockSize k ∧
    a.1 ∉ fl k) ∨
  ∃ r, r ∈ h.runs ∧ Large h.mem r ∧ a.1 = r.1 + 12 ∧ 12 + a.2 ≤ r.2 * 4096

/-- The invariant: the lists, the counters, no arena that is all free, and the
    allocations. -/
structure HeapInv (d : Nat) (s : HeapState) (fl : Nat → List Nat) : Prop where
  lists : HeapLists d s.heap fl
  counted : Counted d s.heap fl
  used : ∀ r, r ∈ s.heap.runs → ∀ k, k < 7 → Small d s.heap.mem r k →
    freeIn r.1 (fl k) < perArena k
  live : ∀ a, a ∈ s.live → LiveAt d s.heap fl a
  nodup : (s.live.map Prod.fst).Nodup

variable {live : List (Nat × Nat)}

/-- A free block is not the address of an allocation. -/
theorem LiveAt.ne_free (hl : HeapLists d h fl) {a : Nat × Nat} (ha : LiveAt d h fl a) (hk : k < 7)
    {b : Nat} (hb : b ∈ fl k) : a.1 ≠ b := by
  intro hc
  rcases hl.blocks k hk b hb with ⟨r, hr, hs, hblk⟩
  have hp := hl.arenas.block_place hr hs hblk
  have hpos := blockSize_pos k
  rcases ha with ⟨r', hr', k', hk', hs', hblk', _, hfree⟩ | ⟨r', hr', hlarge, haddr, _⟩
  · have hp' := hl.arenas.block_place hr' hs' hblk'
    have hpos' := blockSize_pos k'
    have heq : r' = r := hl.arenas.run_unique hr' hr (x := b) (by omega) (by omega)
    subst heq
    have hkk : k' = k := hs'.class_eq hs
    subst hkk
    exact hfree (hc ▸ hb)
  · have hp' := hl.arenas.place r' hr'
    unfold RunPlace at hp'
    have heq : r' = r := hl.arenas.run_unique hr' hr (x := b) (by omega) (by omega)
    subst heq
    exact hs.not_large hlarge

/-- Allocations only depend on the kinds of the runs, and on blocks not
    becoming free. -/
theorem LiveAt.mono {h' : Heap} {fl' : Nat → List Nat} {a : Nat × Nat} (ha : LiveAt d h fl a)
    (hruns : ∀ r, r ∈ h.runs → r ∈ h'.runs)
    (hsmall : ∀ r, r ∈ h.runs → ∀ k, Small d h.mem r k → Small d h'.mem r k)
    (hlarge : ∀ r, r ∈ h.runs → Large h.mem r → Large h'.mem r)
    (hfl : ∀ k, a.1 ∈ fl' k → ∀ r, r ∈ h.runs → Small d h.mem r k → IsBlock k r.1 a.1 →
      a.1 ∈ fl k) : LiveAt d h' fl' a := by
  rcases ha with ⟨r, hr, k, hk, hs, hblk, hsize, hfree⟩ | ⟨r, hr, hl, haddr, hsize⟩
  · exact Or.inl ⟨r, hruns r hr, k, hk, hsmall r hr k hs, hblk, hsize,
      fun hc => hfree (hfl k hc r hr hs hblk)⟩
  · exact Or.inr ⟨r, hruns r hr, hlarge r hr hl, haddr, hsize⟩

/-- Taking a block out of a heap in which at most the arena of that block is
    all free. -/
theorem takeBlock_heapInv (hl : HeapLists d h fl) (hc : Counted d h fl) (hk : k < 7) {b : Nat}
    {bs : List Nat} (hfl : fl k = b :: bs)
    (hused : ∀ r, r ∈ h.runs → ∀ k', k' < 7 → Small d h.mem r k' → freeIn r.1 (fl k') < perArena k' ∨
      (k' = k ∧ block2arena b = r.1 ∧ freeIn r.1 (fl k') ≤ perArena k'))
    (hlive : ∀ a, a ∈ live → LiveAt d h fl a) (hnd : (live.map Prod.fst).Nodup) {size : Nat}
    (hsize : size ≤ blockSize k) :
    HeapInv d ⟨(takeBlock h (descAt d k)).1, (b, size) :: live⟩ (Function.update fl k bs) := by
  have hbmem : b ∈ fl k := by rw [hfl]; exact List.mem_cons_self
  have hbnd := hl.nodup hk
  rw [hfl] at hbnd
  rcases takeBlock_inv hl hc hk hfl with ⟨_, hl', hc', hkind, _⟩
  refine ⟨hl', hc', ?_, ?_, ?_⟩
  · intro r hr k' hk' hs'
    have hr' : r ∈ h.runs := hkind.runs ▸ hr
    have hold := (hkind.small r hr' k').mp hs'
    have hu := hused r hr' k' hk' hold
    by_cases hkk : k' = k
    · rw [hkk, Function.update_self]
      rw [hkk, hfl, freeIn, List.countP_cons] at hu
      -- The arena of the block has one free block less.
      by_cases hb : block2arena b = r.1
      · rw [if_pos (decide_eq_true hb)] at hu
        unfold freeIn
        omega
      · rcases hu with hu | hu
        · unfold freeIn
          omega
        · exact absurd hu.2.1 hb
    · rw [Function.update_of_ne hkk]
      rcases hu with hu | hu
      · exact hu
      · exact absurd hu.1 hkk
  · intro a ha
    -- The new allocation is the block, and no list has it any more.
    rcases List.mem_cons.mp ha with rfl | ha
    · rcases hl.blocks k hk b hbmem with ⟨r, hr, hs, hblk⟩
      left
      refine ⟨r, ?_, k, hk, (hkind.small r hr k).mpr hs, hblk, hsize, ?_⟩
      · show r ∈ (takeBlock h (descAt d k)).1.runs
        rw [hkind.runs]
        exact hr
      · rw [Function.update_self]
        exact (List.nodup_cons.mp hbnd).1
    · refine (hlive a ha).mono (fun r hr => ?_) (fun r hr k' hs => (hkind.small r hr k').mpr hs)
        (fun r hr hlarge => (hkind.large r hr).mpr hlarge) ?_
      · show r ∈ (takeBlock h (descAt d k)).1.runs
        rw [hkind.runs]
        exact hr
      · intro k' hm _ _ _ _
        by_cases hkk : k' = k
        · rw [hkk, Function.update_self] at hm
          rw [hkk, hfl]
          exact List.mem_cons_of_mem b hm
        · rwa [Function.update_of_ne hkk] at hm
  · refine List.nodup_cons.mpr ⟨?_, hnd⟩
    intro hm
    rcases List.mem_map.mp hm with ⟨a, ha, hab⟩
    exact (hlive a ha).ne_free hl hk hbmem hab

/-- The search for a descriptor finds a class with blocks large enough. -/
theorem pickDesc_spec (ha : Arenas d h) (size : Nat) (hsize : size ≤ 1024) (n i : Nat)
    (hn : i + n = 7) (hi : i < 7) :
    pickDesc h.mem d size n i < 7 ∧ size ≤ blockSize (pickDesc h.mem d size n i) := by
  induction n generalizing i with
  | zero => omega
  | succ n ih =>
      rw [pickDesc, (ha.desc i hi).1]
      by_cases hle : size ≤ blockSize i
      · rw [if_pos hle]
        exact ⟨hi, hle⟩
      · rw [if_neg hle]
        have hlast : i ≠ 6 := by
          rintro rfl
          exact hle hsize
        exact ih (i + 1) (by omega) (by omega)

theorem perArena_pos (hk : k < 7) : 1 ≤ perArena k := by
  have hle := blockSize_le hk
  have hpos := blockSize_pos k
  exact (Nat.one_le_div_iff (by omega)).mpr (by omega)

theorem blocksUpTo_cons {n : Nat} (a : Nat) (hn : 1 ≤ n) :
    ∃ bs, blocksUpTo k a n = blockAt k a 0 :: bs := by
  cases n with
  | zero => omega
  | succ n =>
      refine ⟨(List.range' 1 n).map (blockAt k a), ?_⟩
      rw [blocksUpTo, List.range_eq_range']
      rfl

theorem largePages_spec (size : Nat) (hsize : size < 2 ^ 31) :
    size + 12 ≤ largePages size * 4096 ∧ 1 ≤ largePages size := by
  unfold largePages
  omega

/-- The memory `sys_malloc` leaves for a large allocation at `pg`. -/
def largeMem (mem : Nat → Nat) (pg n : Nat) : Nat → Nat :=
  Function.update (Function.update (Function.update (memsetZero mem pg (n * 4096)) pg 0)
    (pg + 4) n) (pg + 8) 1

theorem largeMem_header (mem : Nat → Nat) (pg n : Nat) : Large (largeMem mem pg n) (pg, n) := by
  refine ⟨?_, ?_, ?_⟩
  · show largeMem mem pg n pg = 0
    rw [largeMem, Function.update_of_ne (by omega), Function.update_of_ne (by omega),
      Function.update_self]
  · show largeMem mem pg n (pg + 4) = n
    rw [largeMem, Function.update_of_ne (by omega), Function.update_self]
  · show largeMem mem pg n (pg + 8) = 1
    rw [largeMem, Function.update_self]

theorem largeMem_zero {mem : Nat → Nat} {pg n x : Nat} (hx : pg + 12 ≤ x ∧ x < pg + n * 4096) :
    largeMem mem pg n x = 0 := by
  rw [largeMem, Function.update_of_ne (by omega), Function.update_of_ne (by omega),
    Function.update_of_ne (by omega)]
  exact if_pos (by omega)

theorem largeMem_keep {mem : Nat → Nat} {pg n x : Nat} (hn : 1 ≤ n)
    (hx : ¬ (pg ≤ x ∧ x < pg + n * 4096)) : largeMem mem pg n x = mem x := by
  rw [largeMem, Function.update_of_ne (by omega), Function.update_of_ne (by omega),
    Function.update_of_ne (by omega)]
  exact if_neg hx

/-- No allocation lies in fresh pages. -/
theorem HeapInv.live_not_fresh {s : HeapState} (hi : HeapInv d s fl) {pg n : Nat}
    (hf : FreshPages d s.heap pg n) {a : Nat × Nat} (ha : a ∈ s.live) :
    ¬ (pg ≤ a.1 ∧ a.1 < pg + n * 4096) := by
  intro hin
  unfold FreshPages at hf
  rcases hi.live a ha with ⟨r, hr, k, hk, hs, hblk, _⟩ | ⟨r, hr, _, haddr, _⟩
  · have hp := hi.lists.arenas.block_place hr hs hblk
    have hpos := blockSize_pos k
    have hap := hf.2.2.2 r hr
    omega
  · have hap := hf.2.2.2 r hr
    have hp := hi.lists.arenas.place r hr
    unfold RunPlace at hp
    omega

/-- A large allocation in fresh pages. -/
theorem largeMem_heapInv {s : HeapState} (hi : HeapInv d s fl) {pg n size : Nat} (hn : 1 ≤ n)
    (hf : FreshPages d s.heap pg n) (hsize : size + 12 ≤ n * 4096) :
    HeapInv d ⟨⟨largeMem s.heap.mem pg n, (pg, n) :: s.heap.runs⟩, (pg + 12, size) :: s.live⟩ fl := by
  have hlarge := largeMem_header s.heap.mem pg n
  have hadd := hi.lists.addRun hn hf (fun x hx => largeMem_keep hn hx) (Or.inr hlarge)
  have hkinds : ∀ r, r ∈ (pg, n) :: s.heap.runs → ∀ k, Small d (largeMem s.heap.mem pg n) r k →
      r ∈ s.heap.runs ∧ Small d s.heap.mem r k := by
    intro r hr k hs
    rcases List.mem_cons.mp hr with rfl | hr
    · exact absurd hlarge hs.not_large
    · exact ⟨hr, (small_congr (hadd.2 r hr) k).mp hs⟩
  refine ⟨hadd.1, ?_, ?_, ?_, ?_⟩
  · intro r hr k hk hs
    rcases hkinds r hr k hs with ⟨hr', hs'⟩
    exact (hadd.2 r hr' _ (by omega)).trans (hi.counted r hr' k hk hs')
  · intro r hr k hk hs
    rcases hkinds r hr k hs with ⟨hr', hs'⟩
    exact hi.used r hr' k hk hs'
  · intro a ha
    rcases List.mem_cons.mp ha with rfl | ha
    · exact Or.inr ⟨_, List.mem_cons_self, hlarge, rfl, by omega⟩
    · exact (hi.live a ha).mono (fun r hr => List.mem_cons_of_mem _ hr)
        (fun r hr k hs => (small_congr (hadd.2 r hr) k).mpr hs)
        (fun r hr hl => (large_congr (hadd.2 r hr)).mpr hl) (fun k hm _ _ _ _ => hm)
  · refine List.nodup_cons.mpr ⟨?_, hi.nodup⟩
    intro hm
    rcases List.mem_map.mp hm with ⟨a, ha, hab⟩
    have hout := hi.live_not_fresh hf ha
    omega

/-- A block out of a new arena in a fresh page. -/
theorem newArena_heapInv {s : HeapState} (hi : HeapInv d s fl) (hk : k < 7) (hfl : fl k = [])
    {pg size : Nat} (hf : FreshPages d s.heap pg 1) (hsize : size ≤ blockSize k) :
    ∃ h' ptr fl', (newArena s.heap (descAt d k) pg >>= fun h =>
        .ok (takeBlock h (descAt d k))) = .ok (h', ptr) ∧ ptr ≠ 0 ∧
      HeapInv d ⟨h', (ptr, size) :: s.live⟩ fl' ∧
      ∀ x, ptr ≤ x ∧ x < ptr + blockSize k → h'.mem x = 0 := by
  rcases newArena_inv hi.lists hi.counted hk hfl hf with ⟨h₁, hnew, hruns, hsmall, hl₁, hc₁, hhdr⟩
  rcases blocksUpTo_cons (k := k) pg (perArena_pos hk) with ⟨bs, hbs⟩
  obtain ⟨fl₁, hfl₁⟩ : ∃ fl₁, fl₁ = Function.update fl k (blocksUpTo k pg (perArena k)) := ⟨_, rfl⟩
  rw [← hfl₁] at hl₁ hc₁
  have hcons : fl₁ k = blockAt k pg 0 :: bs := by rw [hfl₁, Function.update_self, hbs]
  have hblk : IsBlock k pg (blockAt k pg 0) := ⟨0, perArena_pos hk, rfl⟩
  have hmem : (pg, 1) ∈ h₁.runs := by
    rw [hruns]
    exact List.mem_cons_self
  have hp := hl₁.arenas.block_place hmem hsmall hblk
  -- The new arena is all free, and it is the one that the block comes from.
  have hused : ∀ r, r ∈ h₁.runs → ∀ k', k' < 7 → Small d h₁.mem r k' →
      freeIn r.1 (fl₁ k') < perArena k' ∨
      (k' = k ∧ block2arena (blockAt k pg 0) = r.1 ∧ freeIn r.1 (fl₁ k') ≤ perArena k') := by
    intro r hr k' hk' hs'
    rw [hruns] at hr
    rcases List.mem_cons.mp hr with rfl | hr
    · have hkk : k' = k := hs'.class_eq hsmall
      refine Or.inr ⟨hkk, hp.2.2.2.2.2, ?_⟩
      rw [hkk, hfl₁, Function.update_self]
      refine Nat.le_trans List.countP_le_length ?_
      rw [blocksUpTo, List.length_map, List.length_range]
    · have hold : Small d s.heap.mem r k' := (small_congr (hhdr r hr) k').mp hs'
      have hcnt := hc₁ r (by rw [hruns]; exact List.mem_cons_of_mem _ hr) k' hk' hs'
      rw [hhdr r hr _ (by omega), hi.counted r hr k' hk' hold] at hcnt
      rw [← hcnt]
      exact Or.inl (hi.used r hr k' hk' hold)
  have hlive : ∀ a, a ∈ s.live → LiveAt d h₁ fl₁ a := by
    intro a ha
    refine (hi.live a ha).mono (fun r hr => by rw [hruns]; exact List.mem_cons_of_mem _ hr)
      (fun r hr k' hs => (small_congr (hhdr r hr) k').mpr hs)
      (fun r hr hlarge => (large_congr (hhdr r hr)).mpr hlarge) ?_
    intro k' hm r hr hs hblk'
    rw [hfl₁] at hm
    by_cases hkk : k' = k
    · -- The new blocks lie in the new page, where no allocation is.
      rw [hkk, Function.update_self] at hm
      rcases mem_blocksUpTo.mp hm with ⟨j, hj, hab⟩
      have hb := blockAt_bounds (k := k) pg hj
      have hpos := blockSize_pos k
      have hout := hi.live_not_fresh hf ha
      omega
    · rwa [Function.update_of_ne hkk] at hm
  have hinv := takeBlock_heapInv hl₁ hc₁ hk hcons hused hlive hi.nodup hsize
  rcases takeBlock_inv hl₁ hc₁ hk hcons with ⟨hptr, _, _, _, hzero⟩
  refine ⟨(takeBlock h₁ (descAt d k)).1, blockAt k pg 0, _, ?_, by omega, hinv, hzero⟩
  rw [hnew, ok_bind, ← hptr]

/-- `sys_malloc` succeeds or returns null, keeps the invariant, and what it
    returns is cleared. -/
theorem sysMalloc_inv {s : HeapState} (hi : HeapInv d s fl) {poolSize size pg : Nat}
    (hpool : poolSize ≤ 2 ^ 31)
    (hpg : pg = 0 ∨ FreshPages d s.heap pg (if 1024 < size then largePages size else 1)) :
    ∃ h' ptr fl', sysMalloc d poolSize s.heap size pg = .ok (h', ptr) ∧
      HeapInv d ⟨h', if ptr = 0 then s.live else (ptr, size) :: s.live⟩ fl' ∧
      (ptr ≠ 0 → ∀ x, ptr ≤ x ∧ x < ptr + size → h'.mem x = 0) := by
  unfold sysMalloc
  by_cases hsize : 0 < size ∧ size < poolSize
  · rw [if_neg (fun hc => hc hsize)]
    -- The cases of the source: whole pages, a block from a list, and a block
    -- from a new arena.
    by_cases hbig : 1024 < size
    · rw [if_pos hbig]
      rw [if_pos hbig] at hpg
      by_cases hz : pg = 0
      · rw [if_pos hz]
        exact ⟨s.heap, 0, fl, rfl, hi, fun hc => absurd rfl hc⟩
      · rw [if_neg hz]
        have hpages := largePages_spec size (by omega)
        have hinv := largeMem_heapInv hi hpages.2 (hpg.resolve_left hz) hpages.1
        refine ⟨⟨largeMem s.heap.mem pg (largePages size), (pg, largePages size) :: s.heap.runs⟩,
          pg + 12, fl, rfl, ?_, fun _ x hx => largeMem_zero (by omega)⟩
        rw [if_neg (by omega)]
        exact hinv
    · rw [if_neg hbig]
      rw [if_neg hbig] at hpg
      have hpick := pickDesc_spec hi.lists.arenas size (by omega) 7 0 (by omega) (by omega)
      generalize pickDesc s.heap.mem d size 7 0 = k at hpick
      have hk := hpick.1
      dsimp only
      rw [listEmpty_isList (hi.lists.lists k hk)]
      cases hfl : fl k with
      | cons b bs =>
          rw [decide_eq_false (List.cons_ne_nil b bs), if_neg (by decide)]
          have hinv := takeBlock_heapInv hi.lists hi.counted hk hfl
            (fun r hr k' hk' hs => Or.inl (hi.used r hr k' hk' hs)) hi.live hi.nodup hpick.2
          rcases takeBlock_inv hi.lists hi.counted hk hfl with ⟨hptr, _, _, _, hzero⟩
          rcases hi.lists.blocks k hk b (by rw [hfl]; exact List.mem_cons_self) with ⟨r, hr, hs, hblk⟩
          have hp := hi.lists.arenas.block_place hr hs hblk
          refine ⟨(takeBlock s.heap (descAt d k)).1, b, Function.update fl k bs, by rw [← hptr], ?_,
            fun _ x hx => hzero x (by omega)⟩
          rw [if_neg (by omega)]
          exact hinv
      | nil =>
          rw [decide_eq_true rfl, if_pos rfl]
          by_cases hz : pg = 0
          · rw [if_pos hz]
            exact ⟨s.heap, 0, fl, rfl, hi, fun hc => absurd rfl hc⟩
          · rw [if_neg hz]
            rcases newArena_heapInv hi hk hfl (hpg.resolve_left hz) hpick.2 with
              ⟨h', ptr, fl', hrun, hne, hinv, hzero⟩
            refine ⟨h', ptr, fl', hrun, ?_, fun _ x hx => hzero x (by omega)⟩
            rw [if_neg hne]
            exact hinv
  · rw [if_pos hsize]
    exact ⟨s.heap, 0, fl, rfl, hi, fun hc => absurd rfl hc⟩

/-- The memory of `sys_free` once a block is back on its list and counted. -/
def returnMem (mem : Nat → Nat) (desc a ptr : Nat) : Nat → Nat :=
  let mem := listAppend mem (freeListAt desc) ptr
  Function.update mem (a + 4) ((mem (a + 4) + 1) % 2 ^ 32)

/-- `sys_free` of a block of an arena. -/
theorem sysFreeUser_block {r : Nat × Nat} (hs : Small d h.mem r k) {ptr : Nat} (hne : ptr ≠ 0)
    (harena : block2arena ptr = r.1) {mem' : Nat → Nat}
    (hmem : mem' = returnMem h.mem (descAt d k) r.1 ptr) :
    sysFreeUser h ptr = (if mem' (r.1 + 4) = mem' (mem' r.1 + 4) then
      dissolveArena r.1 (mem' (mem' r.1 + 4)) 0 mem' >>= fun m => freeRun ⟨m, h.runs⟩ r.1 1
      else .ok ⟨mem', h.runs⟩) := by
  have hnot : ¬ (h.mem r.1 = 0 ∧ h.mem (r.1 + 8) = 1) := by
    rw [hs.2.2]
    exact fun hc => absurd hc.2 (by decide)
  rw [sysFreeUser, ensure_pos hne, ok_bind, harena]
  dsimp only
  rw [ensure_pos (Or.inl hs.2.2), ok_bind, if_neg hnot, hs.2.1, hmem]
  rfl

/-- The first half of `sys_free` on a block: it goes back on the list and the
    counter is raised. -/
theorem returnBlock_inv {s : HeapState} (hi : HeapInv d s fl) (hk : k < 7) {r : Nat × Nat}
    (hr : r ∈ s.heap.runs) (hs : Small d s.heap.mem r k) {ptr : Nat} (hblk : IsBlock k r.1 ptr)
    (hfree : ptr ∉ fl k) :
    ∃ mem', mem' = returnMem s.heap.mem (descAt d k) r.1 ptr ∧
      mem' (r.1 + 4) = freeIn r.1 (fl k ++ [ptr]) ∧
      HeapLists d ⟨mem', s.heap.runs⟩ (Function.update fl k (fl k ++ [ptr])) ∧
      Counted d ⟨mem', s.heap.runs⟩ (Function.update fl k (fl k ++ [ptr])) ∧
      SameKind d s.heap ⟨mem', s.heap.runs⟩ := by
  have hl := hi.lists
  have hp := hl.arenas.block_place hr hs hblk
  have happ := hl.append hk hr hs hblk hfree
  obtain ⟨m₁, hm₁⟩ : ∃ m₁, m₁ = listAppend s.heap.mem (freeListAt (descAt d k)) ptr := ⟨_, rfl⟩
  rw [← hm₁] at happ
  rw [returnMem, ← hm₁]
  have hs₁ : Small d m₁ r k := (small_congr (happ.2 r hr) k).mpr hs
  -- The counter does not wrap, as it stays at most the number of blocks.
  have hval : (m₁ (r.1 + 4) + 1) % 2 ^ 32 = freeIn r.1 (fl k ++ [ptr]) := by
    have hu := hi.used r hr k hk hs
    have hlt := perArena_lt k
    rw [happ.2 r hr _ (by omega), hi.counted r hr k hk hs, freeIn, freeIn, List.countP_append,
      List.countP_singleton, if_pos (decide_eq_true hp.2.2.2.2.2)]
    unfold freeIn at hu
    omega
  rw [hval]
  obtain ⟨m₂, hm₂⟩ : ∃ m₂, m₂ = Function.update m₁ (r.1 + 4) (freeIn r.1 (fl k ++ [ptr])) :=
    ⟨_, rfl⟩
  rw [← hm₂]
  have hkind : SameKind d s.heap ⟨m₂, s.heap.runs⟩ := by
    refine sameKind_of_header hl.arenas hr hs ?_
    intro r' hr' x hx hne
    rw [hm₂, Function.update_of_ne hne]
    exact happ.2 r' hr' x hx
  refine ⟨m₂, rfl, by rw [hm₂, Function.update_self], ?_, ?_, hkind⟩
  · rw [hm₂]
    exact happ.1.setCnt hr hs₁ _
  · intro r' hr' k' hk' hs'
    have hold : Small d s.heap.mem r' k' := (hkind.small r' hr' k').mp hs'
    show m₂ (r'.1 + 4) = _
    by_cases hrr : r' = r
    · have hkk : k' = k := by
        rw [hrr] at hold
        exact hold.class_eq hs
      rw [hrr, hkk, Function.update_self, hm₂, Function.update_self]
    · have hne : r'.1 ≠ r.1 := fun hc => hrr (hl.arenas.addr_inj hr' hr hc)
      rw [hm₂, Function.update_of_ne (by omega), happ.2 r' hr' _ (by omega),
        hi.counted r' hr' k' hk' hold]
      by_cases hkk : k' = k
      · rw [hkk, Function.update_self, freeIn, freeIn, List.countP_append, List.countP_singleton,
          if_neg (by rw [decide_eq_true_eq, hp.2.2.2.2.2]; exact fun hc => hne hc.symm)]
        rfl
      · rw [Function.update_of_ne hkk]

theorem nodup_filter_live {s : HeapState} (hi : HeapInv d s fl) (ptr : Nat) :
    ((s.live.filter (fun a => a.1 ≠ ptr)).map Prod.fst).Nodup :=
  hi.nodup.sublist ((List.filter_sublist).map Prod.fst)

/-- Dissolving an arena all of whose blocks are free. -/
theorem dissolve_heapInv {s : HeapState} (hi : HeapInv d s fl) (hk : k < 7) {r : Nat × Nat}
    (hr : r ∈ s.heap.runs) (hs : Small d s.heap.mem r k) {ptr : Nat} {mem : Nat → Nat}
    (hl : HeapLists d ⟨mem, s.heap.runs⟩ (Function.update fl k (fl k ++ [ptr])))
    (hc : Counted d ⟨mem, s.heap.runs⟩ (Function.update fl k (fl k ++ [ptr])))
    (hkind : SameKind d s.heap ⟨mem, s.heap.runs⟩)
    (hother : ∀ a, a ≠ r.1 → freeIn a (fl k ++ [ptr]) = freeIn a (fl k))
    (hfull : freeIn r.1 (fl k ++ [ptr]) = perArena k) :
    ∃ mem' fl', dissolveArena r.1 (perArena k) 0 mem = .ok mem' ∧
      freeRun ⟨mem', s.heap.runs⟩ r.1 1 = .ok ⟨mem', s.heap.runs.erase r⟩ ∧
      HeapInv d ⟨⟨mem', s.heap.runs.erase r⟩, s.live.filter (fun a => a.1 ≠ ptr)⟩ fl' := by
  have hs₁ : Small d mem r k := (hkind.small r hr k).mpr hs
  have hrun : r = (r.1, 1) := by rw [← hs.1]
  have hall : ∀ j, j < perArena k → blockAt k r.1 j ∈ fl k ++ [ptr] := by
    intro j hj
    have hmem := hl.all_free (r := r) hk (by rw [Function.update_self]; exact hfull) hj
    rwa [Function.update_self] at hmem
  rcases dissolveArena_inv (perArena k) 0 hl hk hr hs₁ (by omega) (by
    intro j _ hj
    rw [Function.update_self]
    exact hall j hj) with ⟨mem', ys, hdis, hl', hys, hcnt, hhdr⟩
  rw [Function.update_self] at hys hcnt
  rw [Function.update_idem] at hl'
  have hsmall : ∀ r', r' ∈ s.heap.runs → ∀ k', Small d mem' r' k' ↔ Small d s.heap.mem r' k' :=
    fun r' hr' k' => (small_congr (hhdr r' hr') k').trans (hkind.small r' hr' k')
  have hlarge : ∀ r', r' ∈ s.heap.runs → (Large mem' r' ↔ Large s.heap.mem r') :=
    fun r' hr' => (large_congr (hhdr r' hr')).trans (hkind.large r' hr')
  -- No list has a block of the arena left, whatever its class.
  have hnone : ∀ k', k' < 7 → ∀ b, b ∈ Function.update fl k ys k' → block2arena b ≠ r.1 := by
    intro k' hk' b hb hc'
    rcases hl'.blocks k' hk' b hb with ⟨r', hr', hs', hblk'⟩
    have hp' := hl'.arenas.block_place hr' hs' hblk'
    have heq : r' = r := hi.lists.arenas.addr_inj hr' hr (hp'.2.2.2.2.2.symm.trans hc')
    rw [heq] at hs' hblk'
    have hkk : k' = k := ((hsmall r hr k').mp hs').class_eq hs
    rw [hkk, Function.update_self] at hb
    rcases hblk' with ⟨j, hj, hbj⟩
    rw [hkk] at hj hbj
    exact ((hys b).mp hb).2 j (by omega) hj hbj
  have hl₂ := hl'.removeRun hnone
  -- The other arenas have as many free blocks as before.
  have hcnt₂ : ∀ r', r' ∈ s.heap.runs.erase r → ∀ k', k' < 7 → Small d mem' r' k' →
      r' ∈ s.heap.runs ∧ Small d s.heap.mem r' k' ∧
        freeIn r'.1 (Function.update fl k ys k') = freeIn r'.1 (fl k') := by
    intro r' hr' k' hk' hs'
    have hm := hi.lists.arenas.mem_erase.mp hr'
    refine ⟨hm.2, (hsmall r' hm.2 k').mp hs', ?_⟩
    by_cases hkk : k' = k
    · have hne : r'.1 ≠ r.1 := fun hc' => hm.1 (hi.lists.arenas.addr_inj hm.2 hr hc')
      rw [hkk, Function.update_self, hcnt r'.1 hne, hother r'.1 hne]
    · rw [Function.update_of_ne hkk]
  refine ⟨mem', Function.update fl k ys, hdis, ?_, hl₂, ?_, ?_, ?_, nodup_filter_live hi ptr⟩
  · rw [freeRun, ← hrun, ensure_pos hr, ok_bind]
  · intro r' hr' k' hk' hs'
    rcases hcnt₂ r' hr' k' hk' hs' with ⟨hm, hold, heq⟩
    show mem' (r'.1 + 4) = _
    rw [heq, hhdr r' hm _ (by omega)]
    have hcold := hc r' hm k' hk' ((hkind.small r' hm k').mpr hold)
    rw [show mem (r'.1 + 4) = _ from hcold]
    by_cases hkk : k' = k
    · have hne : r'.1 ≠ r.1 := fun hc' =>
        (hi.lists.arenas.mem_erase.mp hr').1 (hi.lists.arenas.addr_inj hm hr hc')
      rw [hkk, Function.update_self, hother r'.1 hne]
    · rw [Function.update_of_ne hkk]
  · intro r' hr' k' hk' hs'
    rcases hcnt₂ r' hr' k' hk' hs' with ⟨hm, hold, heq⟩
    rw [heq]
    exact hi.used r' hm k' hk' hold
  · intro a ha
    rw [List.mem_filter, decide_eq_true_eq] at ha
    rcases hi.live a ha.1 with ⟨r', hr', k', hk', hs', hblk', hsize, hnot⟩ |
      ⟨r', hr', hl3, haddr, hsize⟩
    · -- An allocation in the dissolved arena would be one of its free blocks.
      have hne : r' ≠ r := by
        rintro rfl
        have hkk : k' = k := hs'.class_eq hs
        rw [hkk] at hblk' hnot
        rcases hblk' with ⟨j, hj, haj⟩
        have hmem := hall j hj
        rw [← haj] at hmem
        rcases List.mem_append.mp hmem with hmem | hmem
        · exact hnot hmem
        · exact ha.2 (List.mem_singleton.mp hmem)
      refine Or.inl ⟨r', hi.lists.arenas.mem_erase.mpr ⟨hne, hr'⟩, k', hk',
        (hsmall r' hr' k').mpr hs', hblk', hsize, ?_⟩
      by_cases hkk : k' = k
      · rw [hkk, Function.update_self, hys]
        rintro ⟨hmem, _⟩
        rcases List.mem_append.mp hmem with hmem | hmem
        · exact hnot (hkk ▸ hmem)
        · exact ha.2 (List.mem_singleton.mp hmem)
      · rw [Function.update_of_ne hkk]
        exact hnot
    · have hne : r' ≠ r := by
        rintro rfl
        exact hs.not_large hl3
      exact Or.inr ⟨r', hi.lists.arenas.mem_erase.mpr ⟨hne, hr'⟩, (hlarge r' hr').mpr hl3, haddr,
        hsize⟩

/-- `sys_free` of a block. The address is not restricted here. -/
theorem sysFreeUser_small {s : HeapState} (hi : HeapInv d s fl) (hk : k < 7) {r : Nat × Nat}
    (hr : r ∈ s.heap.runs) (hs : Small d s.heap.mem r k) {ptr : Nat} (hblk : IsBlock k r.1 ptr)
    (hfree : ptr ∉ fl k) :
    ∃ h' fl', sysFreeUser s.heap ptr = .ok h' ∧
      HeapInv d ⟨h', s.live.filter (fun a => a.1 ≠ ptr)⟩ fl' := by
  have hp := hi.lists.arenas.block_place hr hs hblk
  rcases returnBlock_inv hi hk hr hs hblk hfree with ⟨mem', hmem, hcnt, hl, hc, hkind⟩
  have hs' : Small d mem' r k := (hkind.small r hr k).mpr hs
  have hper : mem' (mem' r.1 + 4) = perArena k := by
    rw [hs'.2.1]
    exact (hl.arenas.desc k hk).2
  have hother : ∀ a, a ≠ r.1 → freeIn a (fl k ++ [ptr]) = freeIn a (fl k) := by
    intro a ha
    rw [freeIn, freeIn, List.countP_append, List.countP_singleton,
      if_neg (by rw [decide_eq_true_eq, hp.2.2.2.2.2]; exact fun hc => ha hc.symm)]
    rfl
  have hfirst := sysFreeUser_block hs (show ptr ≠ 0 by omega) hp.2.2.2.2.2 hmem
  -- The arena is dissolved when its last block has come back.
  by_cases hfull : mem' (r.1 + 4) = mem' (mem' r.1 + 4)
  · rw [hfirst, if_pos hfull]
    rw [hper] at hfull ⊢
    rcases dissolve_heapInv hi hk hr hs hl hc hkind hother (hcnt.symm.trans hfull) with
      ⟨m, fl', hdis, hrun, hinv⟩
    exact ⟨_, fl', by rw [hdis, ok_bind, hrun], hinv⟩
  · rw [hfirst, if_neg hfull]
    rw [hper, hcnt] at hfull
    refine ⟨_, Function.update fl k (fl k ++ [ptr]), rfl, hl, hc, ?_, ?_, nodup_filter_live hi ptr⟩
    · intro r' hr' k' hk' hsr'
      have hold := (hkind.small r' hr' k').mp hsr'
      by_cases hkk : k' = k
      · rw [hkk, Function.update_self]
        have hu := hi.used r' hr' k hk (hkk ▸ hold)
        by_cases hrr : r'.1 = r.1
        · have hsum : freeIn r.1 (fl k ++ [ptr]) = freeIn r.1 (fl k) + 1 := by
            rw [freeIn, freeIn, List.countP_append, List.countP_singleton,
              if_pos (decide_eq_true hp.2.2.2.2.2)]
          rw [hrr] at hu ⊢
          omega
        · rw [hother r'.1 hrr]
          exact hu
      · rw [Function.update_of_ne hkk]
        exact hi.used r' hr' k' hk' hold
    · intro a ha
      rw [List.mem_filter, decide_eq_true_eq] at ha
      refine (hi.live a ha.1).mono (fun _ hm => hm) (fun r' hm k' hsm => (hkind.small r' hm k').mpr hsm)
        (fun r' hm hlg => (hkind.large r' hm).mpr hlg) ?_
      intro k' hm _ _ _ _
      by_cases hkk : k' = k
      · rw [hkk, Function.update_self] at hm
        rw [hkk]
        rcases List.mem_append.mp hm with hm | hm
        · exact hm
        · exact absurd (List.mem_singleton.mp hm) ha.2
      · rwa [Function.update_of_ne hkk] at hm

/-- `sys_free` of a large allocation. -/
theorem sysFreeUser_large {s : HeapState} (hi : HeapInv d s fl) {r : Nat × Nat} (hr : r ∈ s.heap.runs)
    (hlarge : Large s.heap.mem r) :
    ∃ h', sysFreeUser s.heap (r.1 + 12) = .ok h' ∧
      HeapInv d ⟨h', s.live.filter (fun a => a.1 ≠ r.1 + 12)⟩ fl := by
  have hplace := hi.lists.arenas.place r hr
  unfold RunPlace at hplace
  have harena : block2arena (r.1 + 12) = r.1 := by
    rw [block2arena_eq (by omega)]
    omega
  -- An arena of pages has no blocks, so no free list mentions it.
  have hnone : ∀ k, k < 7 → ∀ b, b ∈ fl k → block2arena b ≠ r.1 := by
    intro k hk b hb hc
    rcases hi.lists.blocks k hk b hb with ⟨r', hr', hs', hblk⟩
    have hp := hi.lists.arenas.block_place hr' hs' hblk
    have heq : r' = r := hi.lists.arenas.addr_inj hr' hr (hp.2.2.2.2.2.symm.trans hc)
    exact (heq ▸ hs').not_large hlarge
  have hfree : sysFreeUser s.heap (r.1 + 12) = .ok ⟨s.heap.mem, s.heap.runs.erase r⟩ := by
    have hne : r.1 + 12 ≠ 0 := by omega
    rw [sysFreeUser, ensure_pos hne, ok_bind, harena]
    dsimp only
    rw [ensure_pos (Or.inr hlarge.2.2), ok_bind, if_pos ⟨hlarge.1, hlarge.2.2⟩, hlarge.2.1, freeRun,
      ensure_pos hr, ok_bind]
  have hsub : ∀ r', r' ∈ s.heap.runs.erase r → r' ∈ s.heap.runs := fun r' hr' => List.mem_of_mem_erase hr'
  refine ⟨_, hfree, hi.lists.removeRun hnone, fun r' hr' => hi.counted r' (hsub r' hr'),
    fun r' hr' => hi.used r' (hsub r' hr'), ?_, nodup_filter_live hi _⟩
  intro a ha
  rw [List.mem_filter, decide_eq_true_eq] at ha
  rcases hi.live a ha.1 with ⟨r', hr', k', hk', hs', hblk', hsize, hnot⟩ |
    ⟨r', hr', hl', haddr, hsize⟩
  · have hne : r' ≠ r := by
      rintro rfl
      exact hs'.not_large hlarge
    exact Or.inl ⟨r', hi.lists.arenas.mem_erase.mpr ⟨hne, hr'⟩, k', hk', hs', hblk', hsize, hnot⟩
  · have hne : r' ≠ r := by
      rintro rfl
      exact ha.2 haddr
    exact Or.inr ⟨r', hi.lists.arenas.mem_erase.mpr ⟨hne, hr'⟩, hl', haddr, hsize⟩

/-- `sys_free` of an allocation succeeds and keeps the invariant. -/
theorem sysFreeUser_inv {s : HeapState} (hi : HeapInv d s fl) {a : Nat × Nat} (ha : a ∈ s.live) :
    ∃ h' fl', sysFreeUser s.heap a.1 = .ok h' ∧
      HeapInv d ⟨h', s.live.filter (fun a' => a'.1 ≠ a.1)⟩ fl' := by
  rcases hi.live a ha with ⟨r, hr, k, hk, hs, hblk, _, hfree⟩ | ⟨r, hr, hlarge, haddr, _⟩
  · exact sysFreeUser_small hi hk hr hs hblk hfree
  · rcases sysFreeUser_large hi hr hlarge with ⟨h', hrun, hinv⟩
    rw [haddr]
    exact ⟨h', fl, hrun, hinv⟩

/-- An allocation owns its bytes. -/
theorem LiveAt.not_owned (hl : HeapLists d h fl) {a : Nat × Nat} (ha : LiveAt d h fl a) {x : Nat}
    (hx : a.1 ≤ x ∧ x < a.1 + a.2) : ¬ HeapLists.Owned d h.runs fl x := by
  rcases ha with ⟨r, hr, k, hk, hs, hblk, hsize, hfree⟩ | ⟨r, hr, hlarge, haddr, hsize⟩
  · exact hl.block_not_owned hr hk hs hblk hfree (by omega)
  · have hplace := hl.arenas.place r hr
    unfold RunPlace at hplace
    rintro (hd | ⟨r', hr', hxr⟩ | ⟨k', hk', b, hb, hxb⟩)
    · omega
    · have hp' := hl.arenas.place r' hr'
      unfold RunPlace at hp'
      have heq : r' = r := hl.arenas.run_unique hr' hr (x := x) (by omega) (by omega)
      subst heq
      omega
    · rcases hl.blocks k' hk' b hb with ⟨r', hr', hs', hblk'⟩
      have hp' := hl.arenas.block_place hr' hs' hblk'
      have hpos := blockSize_pos k'
      have heq : r' = r := hl.arenas.run_unique hr' hr (x := x) (by omega) (by omega)
      exact (heq ▸ hs').not_large hlarge

/-- Words outside the pages of the heap and outside the descriptors. -/
theorem HeapLists.outside_not_owned (hl : HeapLists d h fl) {x : Nat}
    (hrun : ∀ r, r ∈ h.runs → ¬ (r.1 ≤ x ∧ x < r.1 + r.2 * 4096)) (hd : ¬ (d ≤ x ∧ x < d + 168)) :
    ¬ HeapLists.Owned d h.runs fl x := by
  rintro (hc | ⟨r, hr, hxr⟩ | ⟨k, hk, b, hb, hxb⟩)
  · exact hd hc
  · have hp := hl.arenas.place r hr
    unfold RunPlace at hp
    exact hrun r hr (by omega)
  · rcases hl.blocks k hk b hb with ⟨r, hr, hs, hblk⟩
    have hp := hl.arenas.block_place hr hs hblk
    have hpos := blockSize_pos k
    exact hrun r hr (by omega)

/-- The invariant is about the words the heap owns. -/
theorem HeapInv.congr {s : HeapState} (hi : HeapInv d s fl)
    (hown : ∀ x, HeapLists.Owned d s.heap.runs fl x → mem' x = s.heap.mem x) :
    HeapInv d ⟨⟨mem', s.heap.runs⟩, s.live⟩ fl := by
  have hhdr : ∀ r, r ∈ s.heap.runs → ∀ x, r.1 ≤ x ∧ x < r.1 + 12 → mem' x = s.heap.mem x :=
    fun r hr x hx => hown x (Or.inr (Or.inl ⟨r, hr, hx⟩))
  refine ⟨hi.lists.congr hown, ?_, ?_, ?_, hi.nodup⟩
  · intro r hr k hk hs
    exact (hhdr r hr _ (by omega)).trans (hi.counted r hr k hk ((small_congr (hhdr r hr) k).mp hs))
  · intro r hr k hk hs
    exact hi.used r hr k hk ((small_congr (hhdr r hr) k).mp hs)
  · intro a ha
    exact (hi.live a ha).mono (fun _ hr => hr) (fun r hr k hs => (small_congr (hhdr r hr) k).mpr hs)
      (fun r hr hl => (large_congr (hhdr r hr)).mpr hl) (fun _ hm _ _ _ _ => hm)

/-- A write to a word the heap does not own keeps the invariant. -/
theorem write_inv {s : HeapState} (hi : HeapInv d s fl) {x : Nat} (v : Nat)
    (hx : ¬ HeapLists.Owned d s.heap.runs fl x) :
    HeapInv d ⟨⟨Function.update s.heap.mem x v, s.heap.runs⟩, s.live⟩ fl := by
  refine hi.congr (fun y hy => Function.update_of_ne ?_ _ _)
  rintro rfl
  exact hx hy

theorem listInit_keep {mem : Nat → Nat} {l x : Nat} (hx : x < l ∨ l + 16 ≤ x) :
    listInit mem l x = mem x := by
  simp only [listInit, nextField, listTail]
  rw [Function.update_of_ne (by omega), Function.update_of_ne (by omega),
    Function.update_of_ne (by omega), Function.update_of_ne (by omega)]

/-- The loop of `block_desc_init` writes one descriptor after the other. -/
theorem blockDescLoop_spec (n : Nat) (mem : Nat → Nat) (desc size : Nat) :
    (∀ x, x < desc ∨ desc + 24 * n ≤ x → blockDescLoop n mem desc size x = mem x) ∧
      ∀ j, j < n → blockDescLoop n mem desc size (desc + 24 * j) = size * 2 ^ j ∧
        blockDescLoop n mem desc size (desc + 24 * j + 4) = 4084 / (size * 2 ^ j) ∧
        IsList (blockDescLoop n mem desc size) (freeListAt (desc + 24 * j)) [] := by
  -- The induction is on the descriptors that are left. The later rounds write
  -- behind this one.
  induction n generalizing mem desc size with
  | zero => exact ⟨fun _ _ => rfl, fun j hj => by omega⟩
  | succ n ih =>
      obtain ⟨m₁, hm₁⟩ : ∃ m₁, m₁ = listInit (Function.update (Function.update mem desc size)
        (desc + 4) (4084 / size)) (freeListAt desc) := ⟨_, rfl⟩
      have hloop : blockDescLoop (n + 1) mem desc size = blockDescLoop n m₁ (desc + 24) (size * 2) := by
        rw [hm₁]
        rfl
      have hrec := ih m₁ (desc + 24) (size * 2)
      rw [hloop]
      constructor
      · intro x hx
        rw [hrec.1 x (by omega), hm₁, listInit_keep (by unfold freeListAt; omega),
          Function.update_of_ne (by omega), Function.update_of_ne (by omega)]
      · intro j hj
        cases j with
        | zero =>
            have hkeep : ∀ x, x < desc + 24 → blockDescLoop n m₁ (desc + 24) (size * 2) x = m₁ x :=
              fun x hx => hrec.1 x (Or.inl hx)
            simp only [Nat.mul_zero, Nat.add_zero, Nat.pow_zero, Nat.mul_one]
            rw [hkeep desc (by omega), hkeep (desc + 4) (by omega)]
            refine ⟨?_, ?_, ?_⟩
            · rw [hm₁, listInit_keep (by unfold freeListAt; omega), Function.update_of_ne (by omega),
                Function.update_self]
            · rw [hm₁, listInit_keep (by unfold freeListAt; omega), Function.update_self]
            · have hlist : IsList m₁ (freeListAt desc) [] := by
                rw [hm₁]
                exact isList_init _ _
              refine hlist.congr (fun x hx => hkeep x ?_)
              rcases hx with ⟨e, he, hxe⟩
              rcases mem_listNodes.mp he with he | he | he
              · unfold freeListAt at he
                omega
              · exact absurd he List.not_mem_nil
              · unfold listTail freeListAt at he
                omega
        | succ j =>
            have hj' := hrec.2 j (by omega)
            have haddr : desc + 24 * (j + 1) = desc + 24 + 24 * j := by omega
            have hpow : size * 2 ^ (j + 1) = size * 2 * 2 ^ j := by
              rw [Nat.pow_succ, Nat.mul_assoc, Nat.mul_comm 2]
            rw [haddr, hpow]
            exact hj'

/-- A heap with nothing allocated, once `block_desc_init` ran on its
    descriptors. -/
theorem blockDescInit_inv (mem : Nat → Nat) :
    HeapInv d ⟨⟨blockDescInit mem d, []⟩, []⟩ (fun _ => []) := by
  have hspec := (blockDescLoop_spec 7 mem d 16).2
  refine ⟨⟨⟨?_, ?_, List.Pairwise.nil, ?_⟩, ?_, ?_⟩, ?_, ?_, ?_, List.nodup_nil⟩
  · exact fun k hk => ⟨(hspec k hk).1, (hspec k hk).2.1⟩
  · exact fun r hr => absurd hr List.not_mem_nil
  · exact fun r hr => absurd hr List.not_mem_nil
  · exact fun k hk => (hspec k hk).2.2
  · exact fun k hk b hb => absurd hb List.not_mem_nil
  · exact fun r hr => absurd hr List.not_mem_nil
  · exact fun r hr => absurd hr List.not_mem_nil
  · exact fun a ha => absurd ha List.not_mem_nil

/-- Above the start of the heap, a kernel thread frees as a process does. -/
theorem sysFree_eq {ptr : Nat} (hptr : heapStart ≤ ptr) : sysFree h ptr = sysFreeUser h ptr := by
  rw [sysFree, sysFreeUser, ensure_pos hptr, ok_bind]

/-- `sys_malloc` takes at most the pages it was given. -/
theorem sysMalloc_runs {poolSize size pg ptr : Nat} {h' : Heap}
    (hrun : sysMalloc d poolSize h size pg = .ok (h', ptr)) {r : Nat × Nat} (hr : r ∈ h'.runs) :
    r ∈ h.runs ∨ (pg ≠ 0 ∧ r = (pg, if 1024 < size then largePages size else 1)) := by
  unfold sysMalloc at hrun
  by_cases hsize : 0 < size ∧ size < poolSize
  · rw [if_neg (fun hc => hc hsize)] at hrun
    -- A run is added in two places: for whole pages, and for an arena of blocks.
    by_cases hbig : 1024 < size
    · rw [if_pos hbig] at hrun ⊢
      by_cases hz : pg = 0
      · rw [if_pos hz] at hrun
        cases hrun
        exact Or.inl hr
      · rw [if_neg hz] at hrun
        cases hrun
        exact (List.mem_cons.mp hr).symm.imp_right (fun heq => ⟨hz, heq⟩)
    · rw [if_neg hbig] at hrun ⊢
      dsimp only at hrun
      by_cases hempty : listEmpty h.mem (freeListAt (descAt d (pickDesc h.mem d size 7 0))) = true
      · rw [if_pos hempty] at hrun
        by_cases hz : pg = 0
        · rw [if_pos hz] at hrun
          cases hrun
          exact Or.inl hr
        · rw [if_neg hz] at hrun
          rcases bind_eq_ok.mp hrun with ⟨h₁, hnew, htake⟩
          rcases bind_eq_ok.mp hnew with ⟨mem, _, hmem⟩
          cases hmem
          cases htake
          exact (List.mem_cons.mp hr).symm.imp_right (fun heq => ⟨hz, heq⟩)
      · rw [if_neg hempty] at hrun
        cases hrun
        exact Or.inl hr
  · rw [if_pos hsize] at hrun
    cases hrun
    exact Or.inl hr

theorem freeRun_runs {h' : Heap} {a n : Nat} (hrun : freeRun h a n = .ok h') {r : Nat × Nat}
    (hr : r ∈ h'.runs) : r ∈ h.runs := by
  rcases bind_eq_ok.mp hrun with ⟨_, _, hh⟩
  cases hh
  exact List.mem_of_mem_erase hr

/-- `sys_free` takes no pages. -/
theorem sysFreeUser_runs {ptr : Nat} {h' : Heap} (hrun : sysFreeUser h ptr = .ok h') {r : Nat × Nat}
    (hr : r ∈ h'.runs) : r ∈ h.runs := by
  rcases bind_eq_ok.mp hrun with ⟨_, _, hrun⟩
  dsimp only at hrun
  rcases bind_eq_ok.mp hrun with ⟨_, _, hrun⟩
  split at hrun
  · exact freeRun_runs hrun hr
  · split at hrun
    · rcases bind_eq_ok.mp hrun with ⟨mem, _, hrun⟩
      exact freeRun_runs (h := ⟨mem, h.runs⟩) hrun hr
    · cases hrun
      exact hr

/-- The invariant of the kernel heap, whose runs lie above its start. -/
def KernelHeapInv (d : Nat) (s : HeapState) (fl : Nat → List Nat) : Prop :=
  HeapInv d s fl ∧ ∀ r, r ∈ s.heap.runs → heapStart ≤ r.1

theorem heapInit_inv {s : HeapState} (hi : heapInit d s) : KernelHeapInv d s (fun _ => []) := by
  rcases hi with ⟨mem, rfl⟩
  exact ⟨blockDescInit_inv mem, fun r hr => absurd hr List.not_mem_nil⟩

theorem FreshRun.pages {pg n : Nat} (hd : d + 168 ≤ heapStart) (hf : FreshRun h pg n) :
    FreshPages d h pg n := by
  unfold FreshRun at hf
  exact ⟨hf.1, Or.inl (by omega), hf.2.2⟩

theorem LiveAt.ge {a : Nat × Nat} (ha : LiveAt d h fl a)
    (hstart : ∀ r, r ∈ h.runs → heapStart ≤ r.1) : heapStart ≤ a.1 := by
  rcases ha with ⟨r, hr, k, _, _, hblk, _⟩ | ⟨r, hr, _, haddr, _⟩
  · exact Nat.le_trans (hstart r hr) (Nat.le_trans (Nat.le_add_right _ 12) hblk.bounds.1)
  · rw [haddr]
    exact Nat.le_trans (hstart r hr) (Nat.le_add_right _ 12)

/-- An event keeps the invariant and fails no assertion. -/
theorem heapStep_inv {s : HeapState} {e : HeapEvent} {poolSize : Nat} (hd : d + 168 ≤ heapStart)
    (hk : KernelHeapInv d s fl) (hpool : poolSize ≤ 2 ^ 31) (he : heapEnabled d s e) :
    ∃ s' fl', heapStep d poolSize s e = .ok s' ∧ KernelHeapInv d s' fl' := by
  rcases hk with ⟨hi, hstart⟩
  cases e with
  | malloc size pg =>
      rcases sysMalloc_inv hi hpool (he.2.imp_right (FreshRun.pages hd)) with
        ⟨h', ptr, fl', hrun, hinv, _⟩
      refine ⟨_, fl', by rw [heapStep, hrun, ok_bind], hinv, fun r hr => ?_⟩
      rcases sysMalloc_runs hrun hr with hr | ⟨hz, rfl⟩
      · exact hstart r hr
      · exact (he.2.resolve_left hz).2.1
  | free ptr =>
      rcases he with ⟨size, hmem⟩
      rcases sysFreeUser_inv hi hmem with ⟨h', fl', hrun, hinv⟩
      have hge : heapStart ≤ ptr := (hi.live _ hmem).ge hstart
      refine ⟨_, fl', by rw [heapStep, sysFree_eq hge, hrun, ok_bind], hinv, fun r hr => ?_⟩
      exact hstart r (sysFreeUser_runs hrun hr)
  | write x v =>
      refine ⟨_, fl, rfl, write_inv hi v ?_, hstart⟩
      rcases he with ⟨a, ha, hx⟩ | ⟨hrun, hd⟩
      · exact (hi.live a ha).not_owned hi.lists hx
      · exact hi.lists.outside_not_owned hrun hd

/-- The bytes an allocation at `p` can use. -/
def Extent (d : Nat) (h : Heap) (p c : Nat) : Prop :=
  ∃ r, r ∈ h.runs ∧ ((∃ k, k < 7 ∧ Small d h.mem r k ∧ IsBlock k r.1 p ∧ c = blockSize k) ∨
    (Large h.mem r ∧ p = r.1 + 12 ∧ c + 12 = r.2 * 4096))

/-- An allocation lies in its run behind the header. -/
theorem Extent.inside (ha : Arenas d h) {p c : Nat} (he : Extent d h p c) :
    ∃ r, r ∈ h.runs ∧ r.1 + 12 ≤ p ∧ p + c ≤ r.1 + r.2 * 4096 := by
  rcases he with ⟨r, hr, ⟨k, hk, hs, hblk, hc⟩ | ⟨hlarge, hp, hc⟩⟩
  · have hplace := ha.block_place hr hs hblk
    exact ⟨r, hr, hplace.2.1, by rw [hc]; exact hplace.2.2.1⟩
  · exact ⟨r, hr, by omega, by omega⟩

/-- Two allocations at different addresses do not overlap. -/
theorem Extent.apart (ha : Arenas d h) {p c p' c' : Nat} (he : Extent d h p c)
    (he' : Extent d h p' c') (hne : p ≠ p') : p + c ≤ p' ∨ p' + c' ≤ p := by
  -- Blocks in different runs are apart because the runs are.
  have hruns : ∀ r r', r ∈ h.runs → r' ∈ h.runs → r.1 ≤ p → p + c ≤ r.1 + r.2 * 4096 → r'.1 ≤ p' →
      p' + c' ≤ r'.1 + r'.2 * 4096 → r ≠ r' → p + c ≤ p' ∨ p' + c' ≤ p := by
    intro r r' hr hr' h1 h2 h3 h4 hrr
    have hap : r.1 + r.2 * 4096 ≤ r'.1 ∨ r'.1 + r'.2 * 4096 ≤ r.1 := ha.apart.forall hr hr' hrr
    omega
  rcases he with ⟨r, hr, ⟨k, hk, hs, hblk, hc⟩ | ⟨hlarge, hp, hc⟩⟩
  · have hplace := ha.block_place hr hs hblk
    rcases he' with ⟨r', hr', ⟨k', hk', hs', hblk', hc'⟩ | ⟨hlarge', hp', hc'⟩⟩
    · have hplace' := ha.block_place hr' hs' hblk'
      -- Two blocks of one arena have the same size, so they are apart or equal.
      by_cases hrr : r = r'
      · subst hrr
        have hkk : k' = k := hs'.class_eq hs
        subst hkk
        rw [hc, hc']
        exact hblk.apart hblk' hne
      · exact hruns r r' hr hr' (by omega) (by omega) (by omega) (by omega) hrr
    · -- An arena is cut into small blocks or is one large block, never both.
      have hrr : r ≠ r' := by
        rintro rfl
        exact hs.not_large hlarge'
      exact hruns r r' hr hr' (by omega) (by omega) (by omega) (by omega) hrr
  · rcases he' with ⟨r', hr', ⟨k', hk', hs', hblk', hc'⟩ | ⟨hlarge', hp', hc'⟩⟩
    · have hplace' := ha.block_place hr' hs' hblk'
      have hrr : r ≠ r' := by
        rintro rfl
        exact hs'.not_large hlarge
      exact hruns r r' hr hr' (by omega) (by omega) (by omega) (by omega) hrr
    · have hrr : r ≠ r' := by
        rintro rfl
        omega
      exact hruns r r' hr hr' (by omega) (by omega) (by omega) (by omega) hrr

theorem LiveAt.extent {a : Nat × Nat} (ha : LiveAt d h fl a) :
    ∃ c, Extent d h a.1 c ∧ a.2 ≤ c := by
  rcases ha with ⟨r, hr, k, hk, hs, hblk, hsize, _⟩ | ⟨r, hr, hlarge, haddr, hsize⟩
  · exact ⟨blockSize k, ⟨r, hr, Or.inl ⟨k, hk, hs, hblk, rfl⟩⟩, hsize⟩
  · exact ⟨r.2 * 4096 - 12, ⟨r, hr, Or.inr ⟨hlarge, haddr, by omega⟩⟩, by omega⟩

/-- In every run of calls and client writes there are seven sequences of free
    blocks such that: they are what the free lists hold, without repetition,
    and only blocks of live arenas of the class; the counter of each small
    arena is the number of its free blocks and is below the number of its
    blocks; no two allocations have the same address; every allocation has the
    bytes that were asked for, inside its run and behind the header, apart from every other allocation and every free
    block; no call fails an assertion; and what `sys_malloc` returns is
    cleared. -/
theorem kernel_heap (d poolSize : Nat) (hd : d + 168 ≤ heapStart)
    (hpool : poolSize ≤ 32767 * 4096) (s : HeapState)
    (hreach : (heapSystem d poolSize).Reachable s) :
    ∃ fl : Nat → List Nat,
      (∀ k, k < 7 → IsList s.heap.mem (freeListAt (descAt d k)) (fl k) ∧ (fl k).Nodup ∧
        ∀ b, b ∈ fl k → ∃ r, r ∈ s.heap.runs ∧ Small d s.heap.mem r k ∧ IsBlock k r.1 b) ∧
      (∀ r, r ∈ s.heap.runs → (∃ k, k < 7 ∧ Small d s.heap.mem r k ∧
        s.heap.mem (r.1 + 4) = freeIn r.1 (fl k) ∧ freeIn r.1 (fl k) < perArena k) ∨
        Large s.heap.mem r) ∧
      (s.live.map Prod.fst).Nodup ∧
      (∀ a, a ∈ s.live → ∃ c, Extent d s.heap a.1 c ∧ a.2 ≤ c) ∧
      (∀ p c, Extent d s.heap p c → ∃ r, r ∈ s.heap.runs ∧ r.1 + 12 ≤ p ∧
        p + c ≤ r.1 + r.2 * 4096) ∧
      (∀ a a' c c', a ∈ s.live → a' ∈ s.live → a ≠ a' → Extent d s.heap a.1 c →
        Extent d s.heap a'.1 c' → a.1 + c ≤ a'.1 ∨ a'.1 + c' ≤ a.1) ∧
      (∀ a c k b, a ∈ s.live → Extent d s.heap a.1 c → k < 7 → b ∈ fl k →
        a.1 + c ≤ b ∨ b + blockSize k ≤ a.1) ∧
      (∀ e, heapEnabled d s e → ∃ s', heapStep d poolSize s e = .ok s') ∧
      ∀ size pg h' ptr, heapEnabled d s (.malloc size pg) →
        sysMalloc d poolSize s.heap size pg = .ok (h', ptr) → ptr ≠ 0 →
        ∀ x, ptr ≤ x → x < ptr + size → h'.mem x = 0 := by
  have hsmall : poolSize ≤ 2 ^ 31 := by omega
  -- The lists of the invariant are the ones asked for, in every reachable state.
  have hinv : ∃ fl, KernelHeapInv d s fl := by
    refine System.invariant_of_step _ (fun s => ∃ fl, KernelHeapInv d s fl)
      (fun s hs => ⟨_, heapInit_inv hs⟩) ?_ s hreach
    rintro s e s' ⟨fl, hi⟩ he hs
    rcases heapStep_inv hd hi hsmall he with ⟨s'', fl', hs'', hi'⟩
    have heq : Except.ok s'' = Except.ok (ε := Func) s' := hs''.symm.trans hs
    cases heq
    exact ⟨fl', hi'⟩
  rcases hinv with ⟨fl, hk⟩
  have hi := hk.1
  have hl := hi.lists
  refine ⟨fl, ?_, ?_, hi.nodup, ?_, ?_, ?_, ?_, ?_, ?_⟩
  · exact fun k hk => ⟨hl.lists k hk, hl.nodup hk, hl.blocks k hk⟩
  · intro r hr
    rcases hl.arenas.kind r hr with ⟨k, hk, hs⟩ | hlarge
    · exact Or.inl ⟨k, hk, hs, hi.counted r hr k hk hs, hi.used r hr k hk hs⟩
    · exact Or.inr hlarge
  · exact fun a ha => (hi.live a ha).extent
  · exact fun p c he => he.inside hl.arenas
  · intro a a' c c' ha ha' hne he he'
    refine he.apart hl.arenas he' (fun hc => hne ?_)
    exact List.inj_on_of_nodup_map hi.nodup ha ha' hc
  · intro a c k b ha he hk hb
    rcases hl.blocks k hk b hb with ⟨r, hr, hs, hblk⟩
    have hfree : Extent d s.heap b (blockSize k) := ⟨r, hr, Or.inl ⟨k, hk, hs, hblk, rfl⟩⟩
    exact he.apart hl.arenas hfree ((hi.live a ha).ne_free hl hk hb)
  · intro e he
    rcases heapStep_inv hd hk hsmall he with ⟨s', _, hs', _⟩
    exact ⟨s', hs'⟩
  · intro size pg h' ptr he hrun hne x h1 h2
    rcases sysMalloc_inv hi hsmall (he.2.imp_right (FreshRun.pages hd)) with
      ⟨h'', ptr', _, hrun', _, hzero⟩
    rw [hrun, Except.ok.injEq, Prod.mk.injEq] at hrun'
    rw [← hrun'.1, ← hrun'.2] at hzero
    exact hzero hne x ⟨h1, h2⟩

/-- The heap after `block_desc_init` on a cleared memory. -/
def bootHeap : HeapState :=
  { heap := { mem := blockDescInit (fun _ => 0) 0xc0010000, runs := [] }, live := [] }

/-- `kernel_heap` after the first allocation, of 100 bytes, in the first page
    of the kernel heap. -/
theorem kernel_heap_first_malloc :
    ∃ s', heapStep 0xc0010000 0xf00000 bootHeap (.malloc 100 0xc0100000) = .ok s' ∧
      ∀ a, a ∈ s'.live → ∃ c, Extent 0xc0010000 s'.heap a.1 c ∧ a.2 ≤ c := by
  have hinit : (heapSystem 0xc0010000 0xf00000).Reachable bootHeap :=
    System.Reachable.init _ ⟨fun _ => 0, rfl⟩
  have he : heapEnabled 0xc0010000 bootHeap (.malloc 100 0xc0100000) := by
    refine ⟨by decide, Or.inr ⟨by decide, by decide, by decide, ?_⟩⟩
    exact fun r hr => absurd hr List.not_mem_nil
  have hboot := kernel_heap 0xc0010000 0xf00000 (by decide) (by decide) bootHeap hinit
  rcases hboot with ⟨_, _, _, _, _, _, _, _, hok, _⟩
  rcases hok _ he with ⟨s', hs'⟩
  have hreach : (heapSystem 0xc0010000 0xf00000).Reachable s' :=
    System.Reachable.step _ (HeapEvent.malloc 100 0xc0100000) s' hinit he hs'
  rcases kernel_heap 0xc0010000 0xf00000 (by decide) (by decide) s' hreach with ⟨_, _, _, _, hlive, _⟩
  exact ⟨s', hs', hlive⟩

end ForikOS
