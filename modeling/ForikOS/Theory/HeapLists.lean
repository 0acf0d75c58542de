import ForikOS.Core.Heap
import ForikOS.Theory.List
import ForikOS.Theory.Paging
import Mathlib.Data.List.Pairwise
import Mathlib.Data.Finset.Card
import Mathlib.Order.Interval.Finset.Nat

/-!
# The Free Lists of the Heap

The free lists of the heap run through the blocks they hold, so a single
write in the wrong place breaks a list. What keeps the pieces apart is where
they are: descriptors below the heap, headers in the first twelve bytes of a
run, blocks behind them. The first part of this module is that geometry. From
it follows that the words of the free list of one size class are disjoint from
every header, from the sizes in the descriptors, and from the words of every
other list; an operation on one list can then be looked at alone.

The rest is what the pieces of `sys_malloc` and `sys_free` do to the lists.
`HeapLists` relates memory to the elements of the seven lists and says nothing
about the counters, which are out of step in the middle of both functions.

That an arena is dissolved only when all its blocks are on the list is a
matter of counting: the blocks of the arena on the list are distinct, and
there are as many of them as the arena has blocks.

## Main definitions

* `blockSize`, `perArena`, `IsBlock`: The seven size classes.
* `Small`, `Large`: What the header of a run says.
* `Arenas`: Descriptors, runs and headers.
* `ClassNode`: What can be linked in the free list of a size class.
* `HeapLists`: The elements of the free lists.
* `Counted`: The counters agree with the lists.

## Theorems

* `takeBlock_inv`, `newArena_inv`: The halves of `sys_malloc`.
* `dissolveArena_inv`: The loop of `sys_free`.
* `all_free`: A full counter means that every block is free.
-/

namespace ForikOS

/-- The block size of class `k`. -/
def blockSize (k : Nat) : Nat := 16 * 2 ^ k

/-- The blocks in an arena of class `k`. -/
def perArena (k : Nat) : Nat := 4084 / blockSize k

/-- The block with number `i` of an arena of class `k` at `a`. -/
def blockAt (k a i : Nat) : Nat := a + 12 + i * blockSize k

/-- The blocks of an arena of class `k` at `a`. -/
def IsBlock (k a b : Nat) : Prop := ∃ i, i < perArena k ∧ b = blockAt k a i

theorem blockSize_pos (k : Nat) : 16 ≤ blockSize k := by
  have h := Nat.one_le_two_pow (n := k)
  unfold blockSize
  omega

theorem blockSize_le {k : Nat} (hk : k < 7) : blockSize k ≤ 1024 := by
  have h : 2 ^ k ≤ 2 ^ 6 := Nat.pow_le_pow_right (by omega) (by omega)
  unfold blockSize
  omega

theorem perArena_mul_le (k : Nat) : perArena k * blockSize k ≤ 4084 :=
  Nat.div_mul_le_self 4084 (blockSize k)

theorem perArena_lt (k : Nat) : perArena k < 256 := by
  have hmul := perArena_mul_le k
  have hpos := blockSize_pos k
  have hle : perArena k * 16 ≤ perArena k * blockSize k := Nat.mul_le_mul_left _ hpos
  omega

/-- Block `i` lies behind the header and inside the page. -/
theorem blockAt_bounds {k i : Nat} (a : Nat) (hi : i < perArena k) :
    a + 12 ≤ blockAt k a i ∧ blockAt k a i + blockSize k ≤ a + 4096 := by
  have hmul : (i + 1) * blockSize k ≤ perArena k * blockSize k := Nat.mul_le_mul_right _ hi
  have hle := perArena_mul_le k
  rw [Nat.add_mul, Nat.one_mul] at hmul
  unfold blockAt
  omega

theorem IsBlock.bounds {k a b : Nat} (h : IsBlock k a b) :
    a + 12 ≤ b ∧ b + blockSize k ≤ a + 4096 := by
  rcases h with ⟨i, hi, rfl⟩
  exact blockAt_bounds a hi

/-- Blocks start twelve bytes off a multiple of sixteen. -/
theorem IsBlock.mod {k a b : Nat} (h : IsBlock k a b) (ha : a % 4096 = 0) : b % 16 = 12 := by
  rcases h with ⟨i, _, rfl⟩
  have hmul : i * blockSize k = 16 * (i * 2 ^ k) := by
    unfold blockSize
    rw [Nat.mul_left_comm]
  rw [blockAt, hmul]
  omega

theorem block2arena_eq {b : Nat} (hb : b < 2 ^ 32) : block2arena b = b / 4096 * 4096 := by
  have hbv := toNat_high (BitVec.ofNat 32 b)
  have hnat : (BitVec.ofNat 32 b).toNat = b := by
    rw [BitVec.toNat_ofNat]
    exact Nat.mod_eq_of_lt hb
  rw [BitVec.toNat_and, hnat] at hbv
  exact hbv

theorem IsBlock.arena {k a b : Nat} (h : IsBlock k a b) (ha : a % 4096 = 0)
    (hend : a + 4096 ≤ 2 ^ 32) : block2arena b = a := by
  have hb := h.bounds
  have hpos := blockSize_pos k
  rw [block2arena_eq (by omega)]
  omega

theorem blockAt_apart {k a i j : Nat} (h : i < j) :
    blockAt k a i + blockSize k ≤ blockAt k a j := by
  have hmul : (i + 1) * blockSize k ≤ j * blockSize k := Nat.mul_le_mul_right _ h
  rw [Nat.add_mul, Nat.one_mul] at hmul
  unfold blockAt
  omega

theorem blockAt_inj {k a i j : Nat} (h : blockAt k a i = blockAt k a j) : i = j := by
  have hpos := blockSize_pos k
  rcases Nat.lt_trichotomy i j with hlt | heq | hlt
  · have := blockAt_apart (k := k) (a := a) hlt
    omega
  · exact heq
  · have := blockAt_apart (k := k) (a := a) hlt
    omega

/-- Different blocks of an arena do not overlap. -/
theorem IsBlock.apart {k a b b' : Nat} (h : IsBlock k a b) (h' : IsBlock k a b') (hne : b ≠ b') :
    b + blockSize k ≤ b' ∨ b' + blockSize k ≤ b := by
  rcases h with ⟨i, _, rfl⟩
  rcases h' with ⟨j, _, rfl⟩
  rcases Nat.lt_trichotomy i j with hlt | heq | hlt
  · exact Or.inl (blockAt_apart hlt)
  · exact absurd (by rw [heq]) hne
  · exact Or.inr (blockAt_apart hlt)

/-- The header of a run says it is an arena of class `k`. -/
def Small (d : Nat) (mem : Nat → Nat) (r : Nat × Nat) (k : Nat) : Prop :=
  r.2 = 1 ∧ mem r.1 = descAt d k ∧ mem (r.1 + 8) = 0

/-- The header of a run says it is one large allocation. -/
def Large (mem : Nat → Nat) (r : Nat × Nat) : Prop :=
  mem r.1 = 0 ∧ mem (r.1 + 4) = r.2 ∧ mem (r.1 + 8) = 1

/-- Two runs share no page. -/
def RunsApart (r r' : Nat × Nat) : Prop :=
  r.1 + r.2 * 4096 ≤ r'.1 ∨ r'.1 + r'.2 * 4096 ≤ r.1

instance : Std.Symm RunsApart where
  symm _ _ h := Or.symm h

/-- Where a run may lie: on pages, apart from the descriptors. -/
def RunPlace (d : Nat) (r : Nat × Nat) : Prop :=
  r.1 % 4096 = 0 ∧ (d + 168 ≤ r.1 ∨ r.1 + r.2 * 4096 ≤ d) ∧ 1 ≤ r.2 ∧ r.1 + r.2 * 4096 ≤ 2 ^ 32

/-- The pages from `pg` on can become a run: they are free, apart from the
    descriptors. -/
def FreshPages (d : Nat) (h : Heap) (pg n : Nat) : Prop :=
  pg % 4096 = 0 ∧ (d + 168 ≤ pg ∨ pg + n * 4096 ≤ d) ∧ pg + n * 4096 ≤ 2 ^ 32 ∧
    ∀ r, r ∈ h.runs → pg + n * 4096 ≤ r.1 ∨ r.1 + r.2 * 4096 ≤ pg

/-- The descriptors hold the sizes, the runs lie apart, and their headers say
    what they are. -/
structure Arenas (d : Nat) (h : Heap) : Prop where
  desc : ∀ k, k < 7 → h.mem (descAt d k) = blockSize k ∧ h.mem (descAt d k + 4) = perArena k
  place : ∀ r, r ∈ h.runs → RunPlace d r
  apart : h.runs.Pairwise RunsApart
  kind : ∀ r, r ∈ h.runs → (∃ k, k < 7 ∧ Small d h.mem r k) ∨ Large h.mem r

/-- What can be linked in the free list of class `k`: the sentinels, and the
    blocks of the arenas of that class. -/
def ClassNode (d : Nat) (h : Heap) (k e : Nat) : Prop :=
  e = freeListAt (descAt d k) ∨ e = listTail (freeListAt (descAt d k)) ∨
    ∃ r, r ∈ h.runs ∧ Small d h.mem r k ∧ IsBlock k r.1 e

variable {d k : Nat} {h : Heap}

/-- Two runs that share an address are one. -/
theorem Arenas.run_unique (ha : Arenas d h) {r r' : Nat × Nat} (hr : r ∈ h.runs)
    (hr' : r' ∈ h.runs) {x : Nat} (hx : r.1 ≤ x ∧ x < r.1 + r.2 * 4096)
    (hx' : r'.1 ≤ x ∧ x < r'.1 + r'.2 * 4096) : r = r' := by
  by_contra hne
  have hap : r.1 + r.2 * 4096 ≤ r'.1 ∨ r'.1 + r'.2 * 4096 ≤ r.1 := ha.apart.forall hr hr' hne
  omega

theorem Arenas.addr_inj (ha : Arenas d h) {r r' : Nat × Nat} (hr : r ∈ h.runs)
    (hr' : r' ∈ h.runs) (heq : r.1 = r'.1) : r = r' := by
  have hp := ha.place r hr
  have hp' := ha.place r' hr'
  unfold RunPlace at hp hp'
  exact ha.run_unique hr hr' (x := r.1) (by omega) (by omega)

theorem descAt_inj {k k' : Nat} (h : descAt d k = descAt d k') : k = k' := by
  unfold descAt at h
  omega

theorem Small.class_eq {mem : Nat → Nat} {r : Nat × Nat} {k k' : Nat} (h : Small d mem r k)
    (h' : Small d mem r k') : k = k' :=
  descAt_inj (h.2.1.symm.trans h'.2.1)

theorem Small.not_large {mem : Nat → Nat} {r : Nat × Nat} (h : Small d mem r k) :
    ¬ Large mem r := by
  intro hl
  have h1 := h.2.2
  rw [hl.2.2] at h1
  exact absurd h1 (by decide)

/-- A block lies in the page of its arena. -/
theorem Arenas.block_place (ha : Arenas d h) {r : Nat × Nat} (hr : r ∈ h.runs)
    (hs : Small d h.mem r k) {b : Nat} (hb : IsBlock k r.1 b) :
    (d + 168 ≤ r.1 ∨ r.1 + r.2 * 4096 ≤ d) ∧ r.1 + 12 ≤ b ∧ b + blockSize k ≤ r.1 + r.2 * 4096 ∧
      b % 16 = 12 ∧
      r.1 + r.2 * 4096 ≤ 2 ^ 32 ∧ block2arena b = r.1 := by
  have hp := ha.place r hr
  have hbounds := hb.bounds
  have hlen : r.2 * 4096 = 4096 := by rw [hs.1]
  unfold RunPlace at hp
  exact ⟨hp.2.1, hbounds.1, by omega, hb.mod hp.1, hp.2.2.2, hb.arena hp.1 (by omega)⟩

/-- The links of the nodes of a class do not overlap. -/
theorem Arenas.spread (ha : Arenas d h) (hk : k < 7) : Spread (ClassNode d h k) := by
  intro e e' he he'
  unfold ClassNode freeListAt listTail descAt at he he'
  rcases he with rfl | rfl | ⟨r, hr, hs, hb⟩
  · rcases he' with rfl | rfl | ⟨r', hr', hs', hb'⟩
    · omega
    · omega
    · have hp := ha.block_place hr' hs' hb'
      omega
  · rcases he' with rfl | rfl | ⟨r', hr', hs', hb'⟩
    · omega
    · omega
    · have hp := ha.block_place hr' hs' hb'
      omega
  · have hp := ha.block_place hr hs hb
    rcases he' with rfl | rfl | ⟨r', hr', hs', hb'⟩
    · omega
    · omega
    · have hp' := ha.block_place hr' hs' hb'
      omega

/-- Where the links of a class are: in its descriptor, or in a block of one of
    its arenas. -/
theorem classWord_cases {x : Nat} (hx : ListWord (ClassNode d h k) x) :
    (descAt d k + 8 ≤ x ∧ x < descAt d k + 24) ∨
      ∃ r, r ∈ h.runs ∧ Small d h.mem r k ∧ ∃ b, IsBlock k r.1 b ∧ b ≤ x ∧ x < b + 8 := by
  rcases hx with ⟨e, he, hxe⟩
  rcases he with rfl | rfl | ⟨r, hr, hs, hb⟩
  · unfold freeListAt at hxe
    left
    omega
  · unfold freeListAt listTail at hxe
    left
    omega
  · exact Or.inr ⟨r, hr, hs, e, hb, by omega, by omega⟩

/-- No link lies in a header. -/
theorem Arenas.header_not_classWord (ha : Arenas d h) (hk : k < 7) {r : Nat × Nat}
    (hr : r ∈ h.runs) {x : Nat} (hx : r.1 ≤ x ∧ x < r.1 + 12) :
    ¬ ListWord (ClassNode d h k) x := by
  have hp := ha.place r hr
  unfold RunPlace at hp
  intro hw
  rcases classWord_cases hw with hd | ⟨r', hr', hs', b, hb, hbx⟩
  · unfold descAt at hd
    omega
  · have hpb := ha.block_place hr' hs' hb
    have hpos := blockSize_pos k
    have heq : r = r' := ha.run_unique hr hr' (x := x) (by omega) (by omega)
    subst heq
    omega

/-- No link lies in the sizes of a descriptor. -/
theorem Arenas.desc_not_classWord (ha : Arenas d h) {k' x : Nat} (hk' : k' < 7)
    (hx : x = descAt d k' ∨ x = descAt d k' + 4) : ¬ ListWord (ClassNode d h k) x := by
  intro hw
  rcases classWord_cases hw with hd | ⟨r', hr', hs', b, hb, hbx⟩
  · unfold descAt at hd hx
    omega
  · have hpb := ha.block_place hr' hs' hb
    have hpos := blockSize_pos k
    unfold descAt at hx
    omega

/-- Links of different classes are different words. -/
theorem Arenas.classWord_apart (ha : Arenas d h) {k' : Nat} (hk : k < 7) (hk' : k' < 7)
    (hne : k ≠ k') {x : Nat} (hx : ListWord (ClassNode d h k) x) :
    ¬ ListWord (ClassNode d h k') x := by
  have hpos := blockSize_pos k
  have hpos' := blockSize_pos k'
  intro hx'
  rcases classWord_cases hx with hd | ⟨r, hr, hs, b, hb, hbx⟩
  · rcases classWord_cases hx' with hd' | ⟨r', hr', hs', b', hb', hbx'⟩
    · unfold descAt at hd hd'
      omega
    · have hpb := ha.block_place hr' hs' hb'
      unfold descAt at hd
      omega
  · have hpb := ha.block_place hr hs hb
    rcases classWord_cases hx' with hd' | ⟨r', hr', hs', b', hb', hbx'⟩
    · unfold descAt at hd'
      omega
    · have hpb' := ha.block_place hr' hs' hb'
      have heq : r = r' := ha.run_unique hr hr' (x := x) (by omega) (by omega)
      subst heq
      exact hne (hs.class_eq hs')

/-- The elements of the free lists are blocks of arenas of their class. -/
structure HeapLists (d : Nat) (h : Heap) (fl : Nat → List Nat) : Prop where
  arenas : Arenas d h
  lists : ∀ k, k < 7 → IsList h.mem (freeListAt (descAt d k)) (fl k)
  blocks : ∀ k, k < 7 → ∀ b, b ∈ fl k → ∃ r, r ∈ h.runs ∧ Small d h.mem r k ∧ IsBlock k r.1 b

variable {fl : Nat → List Nat} {mem' : Nat → Nat}

theorem small_congr {mem : Nat → Nat} {r : Nat × Nat}
    (hx : ∀ x, r.1 ≤ x ∧ x < r.1 + 12 → mem' x = mem x) (k : Nat) :
    Small d mem' r k ↔ Small d mem r k := by
  rw [Small, Small, hx r.1 (by omega), hx (r.1 + 8) (by omega)]

theorem large_congr {mem : Nat → Nat} {r : Nat × Nat}
    (hx : ∀ x, r.1 ≤ x ∧ x < r.1 + 12 → mem' x = mem x) : Large mem' r ↔ Large mem r := by
  rw [Large, Large, hx r.1 (by omega), hx (r.1 + 4) (by omega), hx (r.1 + 8) (by omega)]

/-- Descriptors and headers are all there is to the arenas. -/
theorem Arenas.congr (ha : Arenas d h)
    (hdesc : ∀ k x, k < 7 → x = descAt d k ∨ x = descAt d k + 4 → mem' x = h.mem x)
    (hhdr : ∀ r, r ∈ h.runs → ∀ x, r.1 ≤ x ∧ x < r.1 + 12 → mem' x = h.mem x) :
    Arenas d ⟨mem', h.runs⟩ := by
  refine ⟨?_, ha.place, ha.apart, ?_⟩
  · intro k hk
    have hd := ha.desc k hk
    show mem' (descAt d k) = _ ∧ mem' (descAt d k + 4) = _
    rw [hdesc k _ hk (Or.inl rfl), hdesc k _ hk (Or.inr rfl)]
    exact hd
  · intro r hr
    rcases ha.kind r hr with ⟨k, hk, hs⟩ | hl
    · exact Or.inl ⟨k, hk, (small_congr (hhdr r hr) k).mpr hs⟩
    · exact Or.inr ((large_congr (hhdr r hr)).mpr hl)

namespace HeapLists

theorem node (hl : HeapLists d h fl) (hk : k < 7) {e : Nat}
    (he : e ∈ listNodes (freeListAt (descAt d k)) (fl k)) : ClassNode d h k e := by
  rcases mem_listNodes.mp he with he | he | he
  · exact Or.inl he
  · exact Or.inr (Or.inr (hl.blocks k hk e he))
  · exact Or.inr (Or.inl he)

theorem nodup (hl : HeapLists d h fl) (hk : k < 7) : (fl k).Nodup :=
  (List.nodup_append.mp (List.nodup_cons.mp (hl.lists k hk).nodup).2).1

/-- A free list is short enough for a search along it to end. -/
theorem length_lt (hl : HeapLists d h fl) (hk : k < 7) : (fl k).length < 2 ^ 32 - 1 := by
  have hsub : (fl k).toFinset ⊆ Finset.Ico 12 (2 ^ 32) := by
    intro b hb
    rcases hl.blocks k hk b (List.mem_toFinset.mp hb) with ⟨r, hr, hs, hblk⟩
    have hp := hl.arenas.block_place hr hs hblk
    have hpos := blockSize_pos k
    rw [Finset.mem_Ico]
    omega
  have hcard := Finset.card_le_card hsub
  rw [List.toFinset_card_of_nodup (hl.nodup hk), Nat.card_Ico] at hcard
  omega

/-- Words of the list of one class, as words of all its nodes. -/
theorem classWord (hl : HeapLists d h fl) (hk : k < 7) {x : Nat}
    (hx : ListWord (· ∈ listNodes (freeListAt (descAt d k)) (fl k)) x) :
    ListWord (ClassNode d h k) x := by
  rcases hx with ⟨e, he, hxe⟩
  exact ⟨e, hl.node hk he, hxe⟩

/-- An operation on the list of one class leaves the others and the headers
    alone. -/
theorem classOp (hl : HeapLists d h fl) (hk : k < 7) (ys : List Nat)
    (hframe : ∀ x, ¬ ListWord (ClassNode d h k) x → mem' x = h.mem x)
    (hlist : IsList mem' (freeListAt (descAt d k)) ys)
    (hys : ∀ b, b ∈ ys → ∃ r, r ∈ h.runs ∧ Small d h.mem r k ∧ IsBlock k r.1 b) :
    HeapLists d ⟨mem', h.runs⟩ (Function.update fl k ys) ∧
      ∀ r, r ∈ h.runs → ∀ x, r.1 ≤ x ∧ x < r.1 + 12 → mem' x = h.mem x := by
  -- The words of one class are in no header, no descriptor of another class and no block of it.
  have hhdr : ∀ r, r ∈ h.runs → ∀ x, r.1 ≤ x ∧ x < r.1 + 12 → mem' x = h.mem x :=
    fun r hr x hx => hframe x (hl.arenas.header_not_classWord hk hr hx)
  refine ⟨⟨hl.arenas.congr ?_ hhdr, ?_, ?_⟩, hhdr⟩
  · exact fun k' x hk' hx => hframe x (hl.arenas.desc_not_classWord hk' hx)
  · intro k' hk'
    by_cases hkk : k' = k
    · rw [hkk, Function.update_self]
      exact hlist
    · rw [Function.update_of_ne hkk]
      refine (hl.lists k' hk').congr (fun x hx => hframe x ?_)
      exact hl.arenas.classWord_apart hk' hk hkk (hl.classWord hk' hx)
  · intro k' hk' b hb
    have hold : ∃ r, r ∈ h.runs ∧ Small d h.mem r k' ∧ IsBlock k' r.1 b := by
      by_cases hkk : k' = k
      · rw [hkk, Function.update_self] at hb
        rw [hkk]
        exact hys b hb
      · rw [Function.update_of_ne hkk] at hb
        exact hl.blocks k' hk' b hb
    rcases hold with ⟨r, hr, hs, hblk⟩
    exact ⟨r, hr, (small_congr (hhdr r hr) k').mpr hs, hblk⟩

/-- The words the heap itself reads: the descriptors, the headers, and the
    links of the free blocks. -/
def Owned (d : Nat) (runs : List (Nat × Nat)) (fl : Nat → List Nat) (x : Nat) : Prop :=
  (d ≤ x ∧ x < d + 168) ∨ (∃ r, r ∈ runs ∧ r.1 ≤ x ∧ x < r.1 + 12) ∨
    ∃ k, k < 7 ∧ ∃ b, b ∈ fl k ∧ b ≤ x ∧ x < b + 8

/-- The heap does not see changes to words it does not own. -/
theorem congr (hl : HeapLists d h fl) (hx : ∀ x, Owned d h.runs fl x → mem' x = h.mem x) :
    HeapLists d ⟨mem', h.runs⟩ fl := by
  have hhdr : ∀ r, r ∈ h.runs → ∀ x, r.1 ≤ x ∧ x < r.1 + 12 → mem' x = h.mem x :=
    fun r hr x hxr => hx x (Or.inr (Or.inl ⟨r, hr, hxr⟩))
  refine ⟨hl.arenas.congr ?_ hhdr, ?_, ?_⟩
  · intro k x hk hxd
    refine hx x (Or.inl ?_)
    unfold descAt at hxd
    omega
  · intro k hk
    refine (hl.lists k hk).congr (fun x hxl => hx x ?_)
    rcases hxl with ⟨e, he, hxe⟩
    rcases mem_listNodes.mp he with he | he | he
    · left
      unfold freeListAt descAt at he
      omega
    · exact Or.inr (Or.inr ⟨k, hk, e, he, by omega, by omega⟩)
    · left
      unfold listTail freeListAt descAt at he
      omega
  · intro k hk b hb
    rcases hl.blocks k hk b hb with ⟨r, hr, hs, hblk⟩
    exact ⟨r, hr, (small_congr (hhdr r hr) k).mpr hs, hblk⟩

/-- Writing the counter of an arena touches no list and no other header. -/
theorem setCnt (hl : HeapLists d h fl) {r : Nat × Nat} (hr : r ∈ h.runs)
    (hs : Small d h.mem r k) (v : Nat) :
    HeapLists d ⟨Function.update h.mem (r.1 + 4) v, h.runs⟩ fl := by
  have hplace := hl.arenas.place r hr
  have hlen : r.2 = 1 := hs.1
  unfold RunPlace at hplace
  -- The counter is in one header only, as the runs are apart.
  have hother : ∀ r', r' ∈ h.runs → r' ≠ r → ∀ x, r'.1 ≤ x ∧ x < r'.1 + 12 → x ≠ r.1 + 4 := by
    intro r' hr' hne x hx hc
    have hplace' := hl.arenas.place r' hr'
    unfold RunPlace at hplace'
    exact hne (hl.arenas.run_unique hr' hr (x := x) (by omega) (by omega))
  have hsmall : ∀ r', r' ∈ h.runs → ∀ k', Small d h.mem r' k' →
      Small d (Function.update h.mem (r.1 + 4) v) r' k' := by
    intro r' hr' k' hs'
    by_cases hrr : r' = r
    · rw [hrr] at hs' ⊢
      rw [Small, Function.update_of_ne (by omega), Function.update_of_ne (by omega)]
      exact hs'
    · exact (small_congr (fun x hx => Function.update_of_ne (hother r' hr' hrr x hx) _ _) k').mpr hs'
  refine ⟨⟨?_, hl.arenas.place, hl.arenas.apart, ?_⟩, ?_, ?_⟩
  · intro k' hk'
    have hd := hl.arenas.desc k' hk'
    show Function.update h.mem (r.1 + 4) v _ = _ ∧ Function.update h.mem (r.1 + 4) v _ = _
    rw [Function.update_of_ne (by unfold descAt; omega),
      Function.update_of_ne (by unfold descAt; omega)]
    exact hd
  · intro r' hr'
    rcases hl.arenas.kind r' hr' with ⟨k', hk', hs'⟩ | hlarge
    · exact Or.inl ⟨k', hk', hsmall r' hr' k' hs'⟩
    · have hrr : r' ≠ r := by
        rintro rfl
        exact hs.not_large hlarge
      exact Or.inr ((large_congr (fun x hx =>
        Function.update_of_ne (hother r' hr' hrr x hx) _ _)).mpr hlarge)
  · intro k' hk'
    refine (hl.lists k' hk').congr (fun x hx => Function.update_of_ne ?_ _ _)
    rintro rfl
    exact hl.arenas.header_not_classWord hk' hr (by omega) (hl.classWord hk' hx)
  · intro k' hk' b hb
    rcases hl.blocks k' hk' b hb with ⟨r', hr', hs', hblk⟩
    exact ⟨r', hr', hsmall r' hr' k' hs', hblk⟩

end HeapLists

/-- How many blocks of the arena at `a` are among some blocks. -/
def freeIn (a : Nat) (xs : List Nat) : Nat := xs.countP (fun b => block2arena b = a)

/-- The counter of every arena is the number of its blocks on the free list. -/
def Counted (d : Nat) (h : Heap) (fl : Nat → List Nat) : Prop :=
  ∀ r, r ∈ h.runs → ∀ k, k < 7 → Small d h.mem r k → h.mem (r.1 + 4) = freeIn r.1 (fl k)

/-- The runs are the same and are still what they were. -/
structure SameKind (d : Nat) (h h' : Heap) : Prop where
  runs : h'.runs = h.runs
  small : ∀ r, r ∈ h.runs → ∀ k, Small d h'.mem r k ↔ Small d h.mem r k
  large : ∀ r, r ∈ h.runs → (Large h'.mem r ↔ Large h.mem r)

/-- Changing nothing but the counter of an arena keeps the kinds of the runs. -/
theorem sameKind_of_header (ha : Arenas d h) {r : Nat × Nat} (hr : r ∈ h.runs)
    (hs : Small d h.mem r k)
    (hx : ∀ r', r' ∈ h.runs → ∀ x, r'.1 ≤ x ∧ x < r'.1 + 12 → x ≠ r.1 + 4 → mem' x = h.mem x) :
    SameKind d h ⟨mem', h.runs⟩ := by
  have hlen : r.2 = 1 := hs.1
  -- The one word that may change is the count of this arena; the runs do not overlap.
  have hother : ∀ r', r' ∈ h.runs → r' ≠ r → ∀ x, r'.1 ≤ x ∧ x < r'.1 + 12 → mem' x = h.mem x := by
    intro r' hr' hne x hxr
    refine hx r' hr' x hxr (fun hc => hne ?_)
    have hp := ha.place r' hr'
    unfold RunPlace at hp
    exact ha.run_unique hr' hr (x := x) (by omega) (by omega)
  refine ⟨rfl, ?_, ?_⟩
  · intro r' hr' k'
    show Small d mem' r' k' ↔ _
    by_cases hrr : r' = r
    · rw [hrr, Small, Small, hx r hr r.1 (by omega) (by omega), hx r hr (r.1 + 8) (by omega) (by omega)]
    · exact small_congr (hother r' hr' hrr) k'
  · intro r' hr'
    show Large mem' r' ↔ _
    by_cases hrr : r' = r
    · rw [hrr]
      have hno := hs.not_large
      refine ⟨fun hc => absurd ?_ (show ¬ (mem' (r.1 + 8) = 1) from ?_), fun hc => absurd hc hno⟩
      · exact hc.2.2
      · rw [hx r hr (r.1 + 8) (by omega) (by omega), hs.2.2]
        decide
    · exact large_congr (hother r' hr' hrr)

/-- A block that is not free shares no word with what the heap owns. -/
theorem HeapLists.block_not_owned (hl : HeapLists d h fl) {r : Nat × Nat} (hr : r ∈ h.runs)
    (hk : k < 7) (hs : Small d h.mem r k) {b : Nat} (hb : IsBlock k r.1 b) (hfree : b ∉ fl k)
    {x : Nat} (hx : b ≤ x ∧ x < b + blockSize k) : ¬ HeapLists.Owned d h.runs fl x := by
  have hp := hl.arenas.block_place hr hs hb
  rintro (hd | ⟨r', hr', hxr⟩ | ⟨k', hk', b', hb', hxb⟩)
  · omega
  · have hp' := hl.arenas.place r' hr'
    unfold RunPlace at hp'
    have heq : r' = r := hl.arenas.run_unique hr' hr (x := x) (by omega) (by omega)
    subst heq
    omega
  · rcases hl.blocks k' hk' b' hb' with ⟨r', hr', hs', hblk⟩
    have hp' := hl.arenas.block_place hr' hs' hblk
    have hpos := blockSize_pos k'
    have heq : r' = r := hl.arenas.run_unique hr' hr (x := x) (by omega) (by omega)
    subst heq
    have hkk : k' = k := hs'.class_eq hs
    subst hkk
    have hne : b' ≠ b := fun hc => hfree (hc ▸ hb')
    have hap := hblk.apart hb hne
    omega

/-- Taking the first free block. -/
theorem takeBlock_inv (hl : HeapLists d h fl) (hc : Counted d h fl) (hk : k < 7) {b : Nat}
    {bs : List Nat} (hfl : fl k = b :: bs) :
    (takeBlock h (descAt d k)).2 = b ∧
      HeapLists d (takeBlock h (descAt d k)).1 (Function.update fl k bs) ∧
      Counted d (takeBlock h (descAt d k)).1 (Function.update fl k bs) ∧
      SameKind d h (takeBlock h (descAt d k)).1 ∧
      ∀ x, b ≤ x ∧ x < b + blockSize k → (takeBlock h (descAt d k)).1.mem x = 0 := by
  have hlist := hl.lists k hk
  have hbmem : b ∈ fl k := by rw [hfl]; exact List.mem_cons_self
  have hnd := hl.nodup hk
  rw [hfl] at hlist hnd
  have hspread : Spread (· ∈ listNodes (freeListAt (descAt d k)) (b :: bs)) := by
    intro e e' he he'
    rw [← hfl] at he he'
    exact hl.arenas.spread hk e e' (hl.node hk he) (hl.node hk he')
  have hpop := isList_pop hlist hspread
  rcases hl.blocks k hk b hbmem with ⟨r, hr, hs, hblk⟩
  have hp := hl.arenas.block_place hr hs hblk
  obtain ⟨m₁, hm₁⟩ : ∃ m₁, m₁ = (listPop h.mem (freeListAt (descAt d k))).1 := ⟨_, rfl⟩
  rw [← hm₁] at hpop
  have hop := hl.classOp hk bs
    (fun x hx => hpop.2.2 x (fun hw => hx (by rw [← hfl] at hw; exact hl.classWord hk hw)))
    hpop.2.1 (fun b' hb' => hl.blocks k hk b' (by rw [hfl]; exact List.mem_cons_of_mem b hb'))
  have hl₁ := hop.1
  have hs₁ : Small d m₁ r k := (small_congr (hop.2 r hr) k).mpr hs
  have hsize : m₁ (descAt d k) = blockSize k := (hl₁.arenas.desc k hk).1
  -- The popped block is no longer on a list, so clearing it is invisible.
  have hclear : ∀ x, HeapLists.Owned d h.runs (Function.update fl k bs) x →
      memsetZero m₁ b (blockSize k) x = m₁ x := by
    intro x hx
    refine if_neg (fun hxb => ?_)
    refine hl₁.block_not_owned hr hk hs₁ hblk ?_ hxb hx
    rw [Function.update_self]
    exact (List.nodup_cons.mp hnd).1
  have hl₂ : HeapLists d ⟨memsetZero m₁ b (blockSize k), h.runs⟩ (Function.update fl k bs) :=
    hl₁.congr hclear
  have hhdr₂ : ∀ r', r' ∈ h.runs → ∀ x, r'.1 ≤ x ∧ x < r'.1 + 12 →
      memsetZero m₁ b (blockSize k) x = h.mem x := by
    intro r' hr' x hx
    rw [hclear x (Or.inr (Or.inl ⟨r', hr', hx⟩))]
    exact hop.2 r' hr' x hx
  have hs₂ : Small d (memsetZero m₁ b (blockSize k)) r k := (small_congr (hhdr₂ r hr) k).mpr hs
  have hcnt : memsetZero m₁ b (blockSize k) (r.1 + 4) = freeIn r.1 bs + 1 := by
    rw [hhdr₂ r hr (r.1 + 4) (by omega), hc r hr k hk hs, hfl, freeIn,
      List.countP_cons_of_pos (by rw [decide_eq_true_eq]; exact hp.2.2.2.2.2)]
    rfl
  have hval : (memsetZero m₁ b (blockSize k) (r.1 + 4) + (2 ^ 32 - 1)) % 2 ^ 32 = freeIn r.1 bs := by
    have hlen := hl.length_lt hk
    rw [hfl, List.length_cons] at hlen
    have hle : freeIn r.1 bs ≤ bs.length := List.countP_le_length
    rw [hcnt]
    omega
  obtain ⟨m₃, hm₃⟩ : ∃ m₃, m₃ = Function.update (memsetZero m₁ b (blockSize k)) (r.1 + 4)
    (freeIn r.1 bs) := ⟨_, rfl⟩
  have htake : takeBlock h (descAt d k) = (⟨m₃, h.runs⟩, b) := by
    have hb2 : (listPop h.mem (freeListAt (descAt d k))).2 = b := hpop.1
    simp only [takeBlock, ← hm₁, hb2, hsize, hp.2.2.2.2.2, hval, hm₃]
  have hkind : SameKind d h ⟨m₃, h.runs⟩ := by
    refine sameKind_of_header hl.arenas hr hs ?_
    intro r' hr' x hx hne
    rw [hm₃, Function.update_of_ne hne]
    exact hhdr₂ r' hr' x hx
  rw [htake]
  refine ⟨rfl, ?_, ?_, hkind, ?_⟩
  · rw [hm₃]
    exact hl₂.setCnt hr hs₂ _
  · intro r' hr' k' hk' hs'
    have hold : Small d h.mem r' k' := (hkind.small r' hr' k').mp hs'
    show m₃ (r'.1 + 4) = _
    by_cases hrr : r' = r
    · have hkk : k' = k := by
        rw [hrr] at hold
        exact hold.class_eq hs
      rw [hrr, hkk, Function.update_self, hm₃, Function.update_self]
    · have hne : r'.1 + 4 ≠ r.1 + 4 :=
        fun hc' => hrr (hl.arenas.addr_inj hr' hr (Nat.add_right_cancel hc'))
      rw [hm₃, Function.update_of_ne hne, hhdr₂ r' hr' _ (by omega), hc r' hr' k' hk' hold]
      by_cases hkk : k' = k
      · rw [hkk, Function.update_self, hfl, freeIn, List.countP_cons_of_neg]
        · rfl
        · rw [decide_eq_true_eq, hp.2.2.2.2.2]
          omega
      · rw [Function.update_of_ne hkk]
  · intro x hx
    show m₃ x = 0
    rw [hm₃, Function.update_of_ne (by omega)]
    exact if_pos hx

/-- The first `i` blocks of the arena of class `k` at `a`. -/
def blocksUpTo (k a i : Nat) : List Nat := (List.range i).map (blockAt k a)

theorem mem_blocksUpTo {k a i b : Nat} :
    b ∈ blocksUpTo k a i ↔ ∃ j, j < i ∧ b = blockAt k a j := by
  simp only [blocksUpTo, List.mem_map, List.mem_range, eq_comm]

theorem blocksUpTo_succ (k a i : Nat) :
    blocksUpTo k a (i + 1) = blocksUpTo k a i ++ [blockAt k a i] := by
  rw [blocksUpTo, List.range_succ, List.map_append]
  rfl

theorem arena2block_small {mem : Nat → Nat} {r : Nat × Nat} (hs : Small d mem r k)
    (hsize : mem (descAt d k) = blockSize k) (i : Nat) : arena2block mem r.1 i = blockAt k r.1 i := by
  rw [arena2block, hs.2.1, hsize, blockAt]

theorem elemFound_list {mem : Nat → Nat} {l : Nat} {xs : List Nat} (hlist : IsList mem l xs)
    (hlen : xs.length < 2 ^ 32 - 1) (e : Nat) : elemFound mem l e = .ok (decide (e ∈ xs)) := by
  rw [elemFound, elemFind_isList hlist hlen]

/-- Appending a block of the class to its free list. -/
theorem HeapLists.append (hl : HeapLists d h fl) (hk : k < 7) {r : Nat × Nat} (hr : r ∈ h.runs)
    (hs : Small d h.mem r k) {b : Nat} (hb : IsBlock k r.1 b) (hfree : b ∉ fl k) :
    HeapLists d ⟨listAppend h.mem (freeListAt (descAt d k)) b, h.runs⟩
        (Function.update fl k (fl k ++ [b])) ∧
      ∀ r', r' ∈ h.runs → ∀ x, r'.1 ≤ x ∧ x < r'.1 + 12 →
        listAppend h.mem (freeListAt (descAt d k)) b x = h.mem x := by
  have hp := hl.arenas.block_place hr hs hb
  -- The block and the nodes of the list are nodes of this class, so their words do not overlap.
  have hnode : ∀ e, e = b ∨ e ∈ listNodes (freeListAt (descAt d k)) (fl k) → ClassNode d h k e := by
    rintro e (rfl | he)
    · exact Or.inr (Or.inr ⟨r, hr, hs, hb⟩)
    · exact hl.node hk he
  have hnew : b ∉ listNodes (freeListAt (descAt d k)) (fl k) := by
    intro hm
    rcases mem_listNodes.mp hm with hm | hm | hm
    · unfold freeListAt descAt at hm
      omega
    · exact hfree hm
    · unfold listTail freeListAt descAt at hm
      omega
  have happ := isList_append (hl.lists k hk) hnew
    (fun e e' he he' => hl.arenas.spread hk e e' (hnode e he) (hnode e' he'))
  refine hl.classOp hk _ (fun x hx => happ.2 x ?_) happ.1 ?_
  · rintro ⟨e, he, hxe⟩
    exact hx ⟨e, hnode e he, hxe⟩
  · intro b' hb'
    rcases List.mem_append.mp hb' with hb' | hb'
    · exact hl.blocks k hk b' hb'
    · rw [List.mem_singleton] at hb'
      exact ⟨r, hr, hs, hb' ▸ hb⟩

/-- The loop over the blocks of a new arena puts them all on the list. -/
theorem splitArena_inv (n i : Nat) {mem : Nat → Nat} {runs : List (Nat × Nat)}
    (hl : HeapLists d ⟨mem, runs⟩ fl) (hk : k < 7) {r : Nat × Nat} (hr : r ∈ runs)
    (hs : Small d mem r k) (hfl : fl k = blocksUpTo k r.1 i) (hn : i + n = perArena k) :
    ∃ mem', splitArena r.1 n i mem = .ok mem' ∧
      HeapLists d ⟨mem', runs⟩ (Function.update fl k (blocksUpTo k r.1 (perArena k))) ∧
      ∀ r', r' ∈ runs → ∀ x, r'.1 ≤ x ∧ x < r'.1 + 12 → mem' x = mem x := by
  induction n generalizing i mem fl with
  | zero =>
      refine ⟨mem, rfl, ?_, fun _ _ _ _ => rfl⟩
      rw [show perArena k = i by omega, ← hfl, Function.update_eq_self]
      exact hl
  | succ n ih =>
      have hblock : IsBlock k r.1 (blockAt k r.1 i) := ⟨i, by omega, rfl⟩
      -- The list has the blocks before `i`, so the assertion of `list_append` holds for this one.
      have hnew : blockAt k r.1 i ∉ fl k := by
        rw [hfl, mem_blocksUpTo]
        rintro ⟨j, hj, heq⟩
        have := blockAt_inj heq
        omega
      have hb : arena2block mem r.1 i = blockAt k r.1 i :=
        arena2block_small hs (hl.arenas.desc k hk).1 i
      have hfound := elemFound_list (hl.lists k hk) (hl.length_lt hk) (blockAt k r.1 i)
      rw [decide_eq_false hnew] at hfound
      have happ := hl.append hk hr hs hblock hnew
      have hs₁ := (small_congr (happ.2 r hr) k).mpr hs
      rcases ih (i + 1) happ.1 hs₁ (by rw [Function.update_self, hfl, blocksUpTo_succ]) (by omega) with
        ⟨mem', hrun, hl', hhdr⟩
      refine ⟨mem', ?_, ?_, fun r' hr' x hx => (hhdr r' hr' x hx).trans (happ.2 r' hr' x hx)⟩
      · rw [splitArena, hb, hs.2.1, hfound, ok_bind, ensure_pos rfl, ok_bind]
        exact hrun
      · rw [Function.update_idem] at hl'
        exact hl'

/-- Fresh pages hold nothing the heap owns. -/
theorem HeapLists.fresh_not_owned (hl : HeapLists d h fl) {pg n : Nat} (hf : FreshPages d h pg n)
    {x : Nat} (hx : pg ≤ x ∧ x < pg + n * 4096) : ¬ HeapLists.Owned d h.runs fl x := by
  unfold FreshPages at hf
  have hrun : ∀ r, r ∈ h.runs → ¬ (r.1 ≤ x ∧ x < r.1 + r.2 * 4096) := by
    intro r hr hxr
    have hap := hf.2.2.2 r hr
    omega
  rintro (hd | ⟨r, hr, hxr⟩ | ⟨k, hk, b, hb, hxb⟩)
  · omega
  · have hp := hl.arenas.place r hr
    unfold RunPlace at hp
    exact hrun r hr (by omega)
  · rcases hl.blocks k hk b hb with ⟨r, hr, hs, hblk⟩
    have hp := hl.arenas.block_place hr hs hblk
    have hpos := blockSize_pos k
    exact hrun r hr (by omega)

/-- Fresh pages become a run once their header is written. -/
theorem HeapLists.addRun (hl : HeapLists d h fl) {pg n : Nat} (hn : 1 ≤ n) (hf : FreshPages d h pg n)
    (hkeep : ∀ x, ¬ (pg ≤ x ∧ x < pg + n * 4096) → mem' x = h.mem x)
    (hkind : (∃ k, k < 7 ∧ Small d mem' (pg, n) k) ∨ Large mem' (pg, n)) :
    HeapLists d ⟨mem', (pg, n) :: h.runs⟩ fl ∧
      ∀ r, r ∈ h.runs → ∀ x, r.1 ≤ x ∧ x < r.1 + 12 → mem' x = h.mem x := by
  have hown : ∀ x, HeapLists.Owned d h.runs fl x → mem' x = h.mem x :=
    fun x hx => hkeep x (fun hxp => hl.fresh_not_owned hf hxp hx)
  have hl' := hl.congr hown
  unfold FreshPages at hf
  refine ⟨⟨⟨hl'.arenas.desc, ?_, ?_, ?_⟩, hl'.lists, ?_⟩,
    fun r hr x hx => hown x (Or.inr (Or.inl ⟨r, hr, hx⟩))⟩
  · intro r hr
    rcases List.mem_cons.mp hr with rfl | hr
    · exact ⟨hf.1, hf.2.1, hn, hf.2.2.1⟩
    · exact hl.arenas.place r hr
  · exact List.Pairwise.cons (fun r hr => hf.2.2.2 r hr) hl.arenas.apart
  · intro r hr
    rcases List.mem_cons.mp hr with rfl | hr
    · exact hkind
    · exact hl'.arenas.kind r hr
  · intro k hk b hb
    rcases hl'.blocks k hk b hb with ⟨r, hr, hs, hblk⟩
    exact ⟨r, List.mem_cons_of_mem _ hr, hs, hblk⟩

theorem freeIn_eq_zero {a : Nat} (xs : List Nat) (hx : ∀ b, b ∈ xs → block2arena b ≠ a) :
    freeIn a xs = 0 := by
  rw [freeIn, List.countP_eq_zero]
  intro b hb
  rw [decide_eq_true_eq]
  exact hx b hb

/-- The memory of `sys_malloc` once the header of a new arena is written. -/
def arenaMem (mem : Nat → Nat) (pg desc n : Nat) : Nat → Nat :=
  Function.update (Function.update (Function.update (memsetZero mem pg 4096) pg desc) (pg + 8) 0)
    (pg + 4) n

theorem arenaMem_keep {mem : Nat → Nat} {pg desc n x : Nat} (hx : ¬ (pg ≤ x ∧ x < pg + 1 * 4096)) :
    arenaMem mem pg desc n x = mem x := by
  rw [arenaMem, Function.update_of_ne (by omega), Function.update_of_ne (by omega),
    Function.update_of_ne (by omega)]
  exact if_neg (by omega)

theorem arenaMem_small (mem : Nat → Nat) (d k pg n : Nat) :
    Small d (arenaMem mem pg (descAt d k) n) (pg, 1) k := by
  refine ⟨rfl, ?_, ?_⟩
  · show arenaMem mem pg (descAt d k) n pg = _
    rw [arenaMem, Function.update_of_ne (by omega), Function.update_of_ne (by omega),
      Function.update_self]
  · show arenaMem mem pg (descAt d k) n (pg + 8) = _
    rw [arenaMem, Function.update_of_ne (by omega), Function.update_self]

theorem FreshPages.desc_out {pg n : Nat} (hf : FreshPages d h pg n) (hk : k < 7) :
    ¬ (pg ≤ descAt d k + 4 ∧ descAt d k + 4 < pg + n * 4096) := by
  have hap := hf.2.1
  unfold descAt
  omega

/-- A new arena is its header and the loop over its blocks. -/
theorem newArena_eq {pg : Nat} (hper : h.mem (descAt d k + 4) = perArena k)
    (hout : ¬ (pg ≤ descAt d k + 4 ∧ descAt d k + 4 < pg + 1 * 4096)) :
    newArena h (descAt d k) pg =
      splitArena pg (perArena k) 0 (arenaMem h.mem pg (descAt d k) (perArena k)) >>= fun mem =>
        .ok ⟨mem, (pg, 1) :: h.runs⟩ := by
  have hread : Function.update (Function.update (memsetZero h.mem pg 4096) pg (descAt d k))
      (pg + 8) 0 (descAt d k + 4) = perArena k := by
    rw [Function.update_of_ne (by omega), Function.update_of_ne (by omega), ← hper]
    exact if_neg (by omega)
  have hread' : arenaMem h.mem pg (descAt d k) (perArena k) (descAt d k + 4) = perArena k :=
    (arenaMem_keep hout).trans hper
  rw [newArena, hread]
  show splitArena pg (arenaMem h.mem pg (descAt d k) (perArena k) (descAt d k + 4)) 0
    (arenaMem h.mem pg (descAt d k) (perArena k)) >>= _ = _
  rw [hread']

/-- A new arena, with all its blocks on the list that was empty. -/
theorem newArena_inv (hl : HeapLists d h fl) (hc : Counted d h fl) (hk : k < 7)
    (hfl : fl k = []) {pg : Nat} (hf : FreshPages d h pg 1) :
    ∃ h', newArena h (descAt d k) pg = .ok h' ∧ h'.runs = (pg, 1) :: h.runs ∧
      Small d h'.mem (pg, 1) k ∧
      HeapLists d h' (Function.update fl k (blocksUpTo k pg (perArena k))) ∧
      Counted d h' (Function.update fl k (blocksUpTo k pg (perArena k))) ∧
      ∀ r, r ∈ h.runs → ∀ x, r.1 ≤ x ∧ x < r.1 + 12 → h'.mem x = h.mem x := by
  have hplace : pg % 4096 = 0 ∧ pg + 1 * 4096 ≤ 2 ^ 32 := ⟨hf.1, hf.2.2.1⟩
  obtain ⟨m₁, hm₁⟩ : ∃ m₁, m₁ = arenaMem h.mem pg (descAt d k) (perArena k) := ⟨_, rfl⟩
  have hsmall : Small d m₁ (pg, 1) k := by
    rw [hm₁]
    exact arenaMem_small h.mem d k pg _
  -- First the run with its header, and then the blocks on the free list.
  have hadd := hl.addRun (Nat.le_refl 1) hf (fun x hx => by rw [hm₁]; exact arenaMem_keep hx)
    (Or.inl ⟨k, hk, hsmall⟩)
  rcases splitArena_inv (perArena k) 0 hadd.1 hk List.mem_cons_self hsmall hfl (by omega) with
    ⟨m₂, hsplit, hl₂, hhdr⟩
  have hhdr' : ∀ r, r ∈ h.runs → ∀ x, r.1 ≤ x ∧ x < r.1 + 12 → m₂ x = h.mem x :=
    fun r hr x hx => (hhdr r (List.mem_cons_of_mem _ hr) x hx).trans (hadd.2 r hr x hx)
  have hsmall₂ : Small d m₂ (pg, 1) k := (small_congr (hhdr _ List.mem_cons_self) k).mpr hsmall
  have harena : ∀ b, b ∈ blocksUpTo k pg (perArena k) → block2arena b = pg := by
    intro b hb
    rcases mem_blocksUpTo.mp hb with ⟨j, hj, rfl⟩
    exact (show IsBlock k pg (blockAt k pg j) from ⟨j, hj, rfl⟩).arena hplace.1 (by omega)
  refine ⟨⟨m₂, (pg, 1) :: h.runs⟩, ?_, rfl, hsmall₂, hl₂, ?_, hhdr'⟩
  · rw [newArena_eq (hl.arenas.desc k hk).2 (hf.desc_out hk), ← hm₁, hsplit, ok_bind]
  · intro r hr k' hk' hs'
    show m₂ (r.1 + 4) = _
    rcases List.mem_cons.mp hr with rfl | hr
    · -- All blocks of the new arena are on the list, and no others of it.
      have hkk : k' = k := hs'.class_eq hsmall₂
      rw [hhdr _ List.mem_cons_self (pg + 4) (by show pg ≤ _ ∧ _ < pg + 12; omega), hm₁,
        arenaMem, Function.update_self, hkk, Function.update_self, freeIn, List.countP_eq_length.mpr]
      · rw [blocksUpTo, List.length_map, List.length_range]
      · intro b hb
        rw [decide_eq_true_eq]
        exact harena b hb
    · -- An old arena has none of the new blocks, so its count is the same.
      have hold : Small d h.mem r k' := (small_congr (hhdr' r hr) k').mp hs'
      rw [hhdr' r hr _ (by omega), hc r hr k' hk' hold]
      by_cases hkk : k' = k
      · have hne : pg ≠ r.1 := by
          have hap := hf.2.2.2 r hr
          have hp := hl.arenas.place r hr
          unfold RunPlace at hp
          omega
        rw [hkk, hfl, Function.update_self, freeIn_eq_zero (blocksUpTo k pg (perArena k))]
        · rfl
        · intro b hb
          rw [harena b hb]
          exact hne
      · rw [Function.update_of_ne hkk]

/-- Removing a block from the free list of its class. -/
theorem HeapLists.remove (hl : HeapLists d h fl) (hk : k < 7) {b : Nat} (hb : b ∈ fl k) :
    ∃ ys, HeapLists d ⟨listRemove h.mem b, h.runs⟩ (Function.update fl k ys) ∧
      (∀ e, e ∈ ys ↔ e ∈ fl k ∧ e ≠ b) ∧ (∀ a, a ≠ block2arena b → freeIn a ys = freeIn a (fl k)) ∧
      ∀ r, r ∈ h.runs → ∀ x, r.1 ≤ x ∧ x < r.1 + 12 → listRemove h.mem b x = h.mem x := by
  obtain ⟨pre, post, hfl⟩ := List.append_of_mem hb
  have hlist := hl.lists k hk
  have hnd := hl.nodup hk
  rw [hfl] at hlist hnd
  have hnode : ∀ e, e ∈ listNodes (freeListAt (descAt d k)) (pre ++ b :: post) →
      ClassNode d h k e := by
    intro e he
    rw [← hfl] at he
    exact hl.node hk he
  have hrem := isList_remove pre hlist
    (fun e e' he he' => hl.arenas.spread hk e e' (hnode e he) (hnode e' he'))
  have hsub : ∀ e, e ∈ pre ++ post → e ∈ fl k := by
    intro e he
    rw [hfl]
    rcases List.mem_append.mp he with he | he
    · exact List.mem_append.mpr (Or.inl he)
    · exact List.mem_append.mpr (Or.inr (List.mem_cons_of_mem b he))
  -- Unlinking writes words of this class only.
  have hop := hl.classOp hk (pre ++ post)
    (fun x hx => hrem.2 x (fun ⟨e, he, hxe⟩ => hx ⟨e, hnode e he, hxe⟩)) hrem.1
    (fun e he => hl.blocks k hk e (hsub e he))
  refine ⟨pre ++ post, hop.1, ?_, ?_, hop.2⟩
  · intro e
    have hout : b ∉ pre ++ post := (List.nodup_middle.mp hnd).notMem
    constructor
    · intro he
      exact ⟨hsub e he, fun hc => hout (hc ▸ he)⟩
    · rintro ⟨he, hne⟩
      rw [hfl] at he
      rcases List.mem_append.mp he with he | he
      · exact List.mem_append.mpr (Or.inl he)
      · exact List.mem_append.mpr (Or.inr ((List.mem_cons.mp he).resolve_left hne))
  · intro a ha
    rw [hfl, freeIn, freeIn, List.countP_append, List.countP_append, List.countP_cons_of_neg]
    rw [decide_eq_true_eq]
    exact fun hc => ha hc.symm

/-- The loop over the blocks of an arena takes them all off the list. -/
theorem dissolveArena_inv (n i : Nat) {mem : Nat → Nat} {runs : List (Nat × Nat)}
    (hl : HeapLists d ⟨mem, runs⟩ fl) (hk : k < 7) {r : Nat × Nat} (hr : r ∈ runs)
    (hs : Small d mem r k) (hn : i + n = perArena k)
    (hfree : ∀ j, i ≤ j → j < perArena k → blockAt k r.1 j ∈ fl k) :
    ∃ mem' ys, dissolveArena r.1 n i mem = .ok mem' ∧
      HeapLists d ⟨mem', runs⟩ (Function.update fl k ys) ∧
      (∀ e, e ∈ ys ↔ e ∈ fl k ∧ ∀ j, i ≤ j → j < perArena k → e ≠ blockAt k r.1 j) ∧
      (∀ a, a ≠ r.1 → freeIn a ys = freeIn a (fl k)) ∧
      ∀ r', r' ∈ runs → ∀ x, r'.1 ≤ x ∧ x < r'.1 + 12 → mem' x = mem x := by
  -- The induction is on the blocks that are left, with the list as it shrinks.
  induction n generalizing i mem fl with
  | zero =>
      refine ⟨mem, fl k, rfl, ?_, ?_, fun _ _ => rfl, fun _ _ _ _ => rfl⟩
      · rw [Function.update_eq_self]
        exact hl
      · exact fun e => ⟨fun he => ⟨he, fun j h1 h2 => by omega⟩, fun he => he.1⟩
  | succ n ih =>
      have hblock : IsBlock k r.1 (blockAt k r.1 i) := ⟨i, by omega, rfl⟩
      have hmem := hfree i (by omega) (by omega)
      have hb : arena2block mem r.1 i = blockAt k r.1 i :=
        arena2block_small hs (hl.arenas.desc k hk).1 i
      have hfound := elemFound_list (hl.lists k hk) (hl.length_lt hk) (blockAt k r.1 i)
      rw [decide_eq_true hmem] at hfound
      have harena : block2arena (blockAt k r.1 i) = r.1 :=
        (hl.arenas.block_place hr hs hblock).2.2.2.2.2
      rcases hl.remove hk hmem with ⟨ys, hl₁, hys, hcnt, hhdr⟩
      have hs₁ := (small_congr (hhdr r hr) k).mpr hs
      rcases ih (i + 1) hl₁ hs₁ (by omega) (by
        intro j h1 h2
        rw [Function.update_self, hys]
        refine ⟨hfree j (by omega) h2, fun hc => ?_⟩
        have := blockAt_inj hc
        omega) with ⟨mem', zs, hrun, hl', hzs, hcnt', hhdr'⟩
      rw [Function.update_self] at hzs hcnt'
      rw [Function.update_idem] at hl'
      refine ⟨mem', zs, ?_, hl', ?_, ?_,
        fun r' hr' x hx => (hhdr' r' hr' x hx).trans (hhdr r' hr' x hx)⟩
      · rw [dissolveArena, hb, hs.2.1, hfound, ok_bind, ensure_pos rfl, ok_bind]
        exact hrun
      · intro e
        rw [hzs, hys]
        constructor
        · rintro ⟨⟨he, hne⟩, hlater⟩
          refine ⟨he, fun j h1 h2 => ?_⟩
          by_cases hj : j = i
          · rw [hj]
            exact hne
          · exact hlater j (by omega) h2
        · rintro ⟨he, hall⟩
          exact ⟨⟨he, hall i (by omega) (by omega)⟩, fun j h1 h2 => hall j (by omega) h2⟩
      · intro a ha
        rw [hcnt' a ha, hcnt a (by rw [harena]; exact ha)]

/-- When the counter reaches the number of blocks, all of them are free. -/
theorem HeapLists.all_free (hl : HeapLists d h fl) (hk : k < 7) {r : Nat × Nat}
    (hfull : freeIn r.1 (fl k) = perArena k) {i : Nat} (hi : i < perArena k) :
    blockAt k r.1 i ∈ fl k := by
  obtain ⟨xs, hxs⟩ : ∃ xs, xs = (fl k).filter (fun b => block2arena b = r.1) := ⟨_, rfl⟩
  have hnd : xs.Nodup := by
    rw [hxs]
    exact (hl.nodup hk).filter _
  have hsub : xs ⊆ blocksUpTo k r.1 (perArena k) := by
    intro b hb
    rw [hxs, List.mem_filter, decide_eq_true_eq] at hb
    rcases hl.blocks k hk b hb.1 with ⟨r', hr', hs', hblk⟩
    have hp' := hl.arenas.block_place hr' hs' hblk
    have heq : r'.1 = r.1 := hp'.2.2.2.2.2.symm.trans hb.2
    rcases hblk with ⟨j, hj, hbj⟩
    rw [heq] at hbj
    exact mem_blocksUpTo.mpr ⟨j, hj, hbj⟩
  have hlen : (blocksUpTo k r.1 (perArena k)).length ≤ xs.length := by
    rw [blocksUpTo, List.length_map, List.length_range, hxs, ← List.countP_eq_length_filter]
    exact Nat.le_of_eq hfull.symm
  have hperm := (hnd.subperm hsub).perm_of_length_le hlen
  have hmem : blockAt k r.1 i ∈ xs := hperm.mem_iff.mpr (mem_blocksUpTo.mpr ⟨i, hi, rfl⟩)
  rw [hxs, List.mem_filter] at hmem
  exact hmem.1

theorem Arenas.runs_nodup (ha : Arenas d h) : h.runs.Nodup := by
  refine ha.apart.imp_of_mem ?_
  rintro r r' hr _ hap rfl
  have hp := ha.place r hr
  have hcase : r.1 + r.2 * 4096 ≤ r.1 ∨ r.1 + r.2 * 4096 ≤ r.1 := hap
  unfold RunPlace at hp
  omega

theorem Arenas.mem_erase (ha : Arenas d h) {r r' : Nat × Nat} :
    r' ∈ h.runs.erase r ↔ r' ≠ r ∧ r' ∈ h.runs :=
  ha.runs_nodup.mem_erase_iff

/-- A run without free blocks can be taken back. -/
theorem HeapLists.removeRun (hl : HeapLists d h fl) {r : Nat × Nat}
    (hnone : ∀ k, k < 7 → ∀ b, b ∈ fl k → block2arena b ≠ r.1) :
    HeapLists d ⟨h.mem, h.runs.erase r⟩ fl := by
  have hsub : ∀ r', r' ∈ h.runs.erase r → r' ∈ h.runs := fun r' hr' => List.mem_of_mem_erase hr'
  refine ⟨⟨hl.arenas.desc, fun r' hr' => hl.arenas.place r' (hsub r' hr'),
    hl.arenas.apart.sublist List.erase_sublist, fun r' hr' => hl.arenas.kind r' (hsub r' hr')⟩,
    hl.lists, ?_⟩
  intro k hk b hb
  rcases hl.blocks k hk b hb with ⟨r', hr', hs, hblk⟩
  have hp := hl.arenas.block_place hr' hs hblk
  refine ⟨r', hl.arenas.mem_erase.mpr ⟨?_, hr'⟩, hs, hblk⟩
  rintro rfl
  exact hnone k hk b hb hp.2.2.2.2.2

end ForikOS
