import ForikOS.Core.Malloc
import ForikOS.Theory.UserHeap
import ForikOS.Theory.UserPages

/-!
# When sys_malloc Fails

`sys_malloc` asks in four places whether a request can be met: it compares the
size with the pool, `malloc_page` the number of pages with 3840, `vaddr_get`
looks for a run of addresses and `palloc` for frames. Only the first answers
with null. The limit of `malloc_page` is an assertion, and a pool of 15 MB or
more lets sizes through that fail it. `bitmap_scan` asserts that a bitmap has
a clear bit, so a full address bitmap or an empty frame pool stops the machine
before the test for -1 is reached; null comes back only if the bitmap has free
addresses and no run of them is long enough.

Where none of this happens, the call is clean: it returns a block, or null and
then nothing has changed. That is an invariant of the machine and the heap
together. The pages of the heap are taken in the bitmap of addresses, so what
`malloc_page` finds is apart from them, and the free lists never meet a block
they know.

What the rest of the system does to the machine between two calls is left
open, as long as the page tables agree with the bitmaps and the pages of this
heap stay taken.

## Main definitions

* `MapInOrder`: The page tables of the caller agree with its bitmap.
* `RunHeld`: The pages of a run are taken.
* `Remarked`: What a call of the page allocator has done.
* `PagesFor`: The assertions under `malloc_page` hold.
* `mallocSystem`, `MeetsPages`: Runs, and the condition on their steps.

## Theorems

* `PagesFor.mallocPage`, `MapInOrder.mfreePage`: The page allocator.
* `mallocFor_clean`: One call.
* `malloc_fails_cleanly`: Every call in every run.
-/

namespace ForikOS

/-- Where the addresses of the caller begin. -/
def callerBase : PoolFlags → Nat
  | .kernel => heapStart
  | .user => userVaddrStart

/-- How many pages of addresses it has. -/
def callerPages (m : Machine) (pf : PoolFlags) : Nat := (vaddrBits m pf).btmpBytesLen * 8

/-- The page tables of the caller agree with its bitmap of addresses. -/
def MapInOrder (m : Machine) : PoolFlags → Prop
  | .kernel => KernelMap m
  | .user => ∃ a b, UserMap m a b

/-- The pages of a run are taken. -/
def RunHeld (m : Machine) (pf : PoolFlags) (r : Nat × Nat) : Prop :=
  ∃ i, r.1 = callerBase pf + i * 4096 ∧ i + r.2 ≤ callerPages m pf ∧
    ∀ k, i ≤ k → k < i + r.2 → bitmapScanTest (vaddrBits m pf) k = true

/-- The page allocator has marked a run in the bitmap and done what belongs to
    it. -/
structure Remarked (m m' : Machine) (pf : PoolFlags) (s n : Nat) (v : Bool) : Prop where
  order : MapInOrder m' pf
  pages : callerPages m' pf = callerPages m pf
  bits : ∀ i, i < callerPages m pf → bitmapScanTest (vaddrBits m' pf) i
    = if s ≤ i ∧ i < s + n then v else bitmapScanTest (vaddrBits m pf) i

/-- The assertions under `malloc_page` hold for `n` pages: there are fewer than
    3840, some address is free, and the run that is found, if there is one,
    lies in the bitmap, has its frames and does not start in the last page of
    the process. -/
def PagesFor (m : Machine) (pf : PoolFlags) (n : Nat) : Prop :=
  n < 3840 ∧ 0 < freeCount (vaddrBits m pf) ∧
    ∀ s, bitmapScanRest (vaddrBits m pf) n = some s →
      FreeRun (vaddrBits m pf) n s ∧ FramesFor m pf ((vaddrAt m pf s).toNat / 4096) n ∧
        (pf = .user → (vaddrAt m pf s).toNat < 0xbffff000)

section Pages

variable {m m' : Machine} {pf : PoolFlags} {s n : Nat} {v : Word}

theorem MapInOrder.pages_user (h : MapInOrder m .user) : callerPages m .user = userPages := by
  rcases h with ⟨a, b, h⟩
  rw [userPages, ← h.space.len]
  rfl

/-- The addresses of the caller end where they should. -/
theorem MapInOrder.range (h : MapInOrder m pf) (hs : s ≤ callerPages m pf) :
    callerBase pf + s * 4096 ≤ 2 ^ 32 ∧ (pf = .user → callerBase pf + s * 4096 ≤ kernelBase) := by
  cases pf with
  | kernel =>
      have hle := h.layout.pages_le
      change s ≤ kernelPages m at hs
      rw [callerBase, heapStart]
      exact ⟨by omega, fun hc => by cases hc⟩
  | user =>
      rw [h.pages_user, userPages_eq] at hs
      rw [callerBase, userVaddrStart, kernelBase]
      exact ⟨by omega, fun _ => by omega⟩

/-- `malloc_page` finds no run and changes nothing, or takes the run it
    finds. -/
theorem PagesFor.mallocPage (hp : PagesFor m pf n) (h : MapInOrder m pf) (hn : 0 < n) :
    mallocPage m pf n = .ok (m, 0) ∨
    ∃ m' r s, ForikOS.mallocPage m pf n = .ok (m', r) ∧ r.toNat = callerBase pf + s * 4096 ∧
      FreeRun (vaddrBits m pf) n s ∧ Remarked m m' pf s n true := by
  rcases hp with ⟨hlt, hfree, hrun⟩
  cases pf with
  | kernel =>
      cases hrest : bitmapScanRest (vaddrBits m .kernel) n with
      | none =>
          left
          have hscan : bitmapScan m.kernelVaddr.vaddrBitmap n = .ok none :=
            (bitmapScan_of_free hfree n).trans (congrArg Except.ok hrest)
          rw [ForikOS.mallocPage, ensure_pos ⟨hn, hlt⟩, ok_bind, vaddrGet, hscan]
          rfl
      | some s =>
          right
          have hfound := hrun s hrest
          -- The run has been found, and there are frames for it.
          have hfit : Fits m n := by
            have hframes := hfound.2.1
            simp only [FramesFor] at hframes
            exact ⟨⟨s, hfound.1⟩, by omega⟩
          rcases mallocPage_fits h ⟨hn, hlt⟩ hfit with ⟨m', s', fr, hcall, hfr, hg, -⟩
          have hle : s' + n ≤ 32768 := Nat.le_trans hfr.1 h.layout.pages_le
          refine ⟨m', _, s', hcall, ?_, hfr, h.grant hg, ?_, fun i _ => ?_⟩
          · rw [toNat_pageAddr (by omega)]
            rfl
          · change m'.kernelVaddr.vaddrBitmap.btmpBytesLen * 8 = _
            rw [hg.vaddr]
            change (bitmapSetRange _ _ _ _).btmpBytesLen * 8 = _
            rw [bitmapSetRange_len]
            rfl
          · change bitmapScanTest m'.kernelVaddr.vaddrBitmap i = _
            rw [hg.vaddr]
            exact bitmapScanTest_setRange _ _ _ _ _
  | user =>
      rcases h with ⟨a, b, h⟩
      rcases h.mallocPage ⟨hn, hlt⟩ hfree
        (fun s hs => ⟨(hrun s hs).1, (hrun s hs).2.1, (hrun s hs).2.2 rfl⟩) with
        ⟨-, hnone⟩ | ⟨m', s, hcall, hfr, hmark⟩
      · exact Or.inl hnone
      · have hpages : callerPages m .user = userPages := MapInOrder.pages_user ⟨a, b, h⟩
        have hin : s + n ≤ userPages := hpages ▸ hfr.1
        refine Or.inr ⟨m', _, s, hcall, ?_, hfr, ⟨a, b, hmark.map⟩, ?_, fun i hi => ?_⟩
        · rw [h.space.toNat_vaddrAt (by omega), Nat.add_mul]
          rfl
        · rw [MapInOrder.pages_user ⟨a, b, hmark.map⟩, hpages]
        · exact hmark.bits i (hpages ▸ hi)

/-- `mfree_page` gives the run back. -/
theorem MapInOrder.mfreePage (h : MapInOrder m pf) (hin : s + n ≤ callerPages m pf)
    (hv : v.toNat = callerBase pf + s * 4096)
    (hset : ∀ i, s ≤ i → i < s + n → bitmapScanTest (vaddrBits m pf) i = true)
    (hrun : mfreePage m pf v n = .ok m') : Remarked m m' pf s n false := by
  -- For the kernel by its own bitmap, for a process by the one in its pages.
  cases pf with
  | kernel =>
      have hle := h.layout.pages_le
      have hn : 1 ≤ n := by
        rw [ForikOS.mfreePage] at hrun
        rcases bind_eq_ok.mp hrun with ⟨u, hcnt, -⟩
        exact (ensure_eq_ok.mp hcnt).1
      change s + n ≤ kernelPages m at hin
      have hva : v = pageAddr s := by
        apply BitVec.eq_of_toNat_eq
        rw [hv, toNat_pageAddr (by omega)]
        rfl
      rcases h.release hn hin hset with ⟨m₁, hfree, hmap, hf, hbits⟩
      rw [hva, hfree, Except.ok.injEq] at hrun
      rw [← hrun]
      refine ⟨hmap, hf.pages, fun i _ => ?_⟩
      change bitmapScanTest m₁.kernelVaddr.vaddrBitmap i = _
      rw [hbits]
      exact bitmapScanTest_setRange _ _ _ _ _
  | user =>
      have hpages := h.pages_user
      rcases h with ⟨a, b, h⟩
      have hmark := h.mfreePage (hpages ▸ hin) (by rw [hv, Nat.add_mul]; rfl) hset hrun
      refine ⟨⟨a, b, hmark.map⟩, ?_, fun i hi => hmark.bits i (hpages ▸ hi)⟩
      rw [MapInOrder.pages_user ⟨a, b, hmark.map⟩, hpages]

/-- A run stays taken while others are. -/
theorem RunHeld.remarked {r : Nat × Nat} {b : Bool} (h : RunHeld m pf r)
    (hm : Remarked m m' pf s n b)
    (hap : b = false → r.1 + r.2 * 4096 ≤ callerBase pf + s * 4096 ∨
      callerBase pf + (s + n) * 4096 ≤ r.1) : RunHeld m' pf r := by
  rcases h with ⟨i, haddr, hin, hset⟩
  refine ⟨i, haddr, by rw [hm.pages]; exact hin, fun k h1 h2 => ?_⟩
  rw [hm.bits k (by omega)]
  cases b with
  | true => rw [hset k h1 h2, ite_self]
  | false =>
      have hout := hap rfl
      rw [if_neg (by omega)]
      exact hset k h1 h2

end Pages

/-- Where the descriptors of the caller lie: in the kernel image, or in the PCB
    of a process. -/
def DescPlace (d : Nat) : PoolFlags → Prop
  | .kernel => d + 168 ≤ heapStart
  | .user => kernelBase ≤ d ∧ d + 168 ≤ 2 ^ 32

/-- The invariant: the page tables are in order, so is the heap, and its runs
    are taken. -/
structure MallocInv (pf : PoolFlags) (d : Nat) (s : MallocState) : Prop where
  order : MapInOrder s.mem pf
  heap : ∃ fl, HeapInv d s.heap fl
  held : ∀ r, r ∈ s.heap.heap.runs → RunHeld s.mem pf r

/-- Any size is asked for and any address is freed or written; meanwhile the
    page tables stay in order and the runs of this heap stay taken. -/
def mallocEnabled (pf : PoolFlags) (s : MallocState) : MallocEvent → Prop
  | .malloc size => size < 2 ^ 32
  | .free _ => True
  | .write _ _ => True
  | .others m => MapInOrder m pf ∧ ∀ r, r ∈ s.heap.heap.runs → RunHeld m pf r

/-- A caller with nothing allocated, on a machine whose page tables are in
    order, however many pages and frames are taken. -/
def mallocInit (pf : PoolFlags) (d : Nat) (s : MallocState) : Prop :=
  MapInOrder s.mem pf ∧ heapInit d s.heap

/-- Runs of one caller among others. -/
def mallocSystem (pf : PoolFlags) (d poolSize : Nat) : System MallocState MallocEvent Func where
  init := mallocInit pf d
  enabled := mallocEnabled pf
  step := mallocStep pf d poolSize

/-- The assertions under `malloc_page` hold where it is called, and the caller
    frees and writes what it was given. -/
def MeetsPages (pf : PoolFlags) (d poolSize : Nat) (s : MallocState) : MallocEvent → Prop
  | .malloc size =>
      ∀ n, pagesAsked d poolSize s.heap.heap size = some n → PagesFor s.mem pf n
  | .free ptr => heapEnabled d s.heap (.free ptr)
  | .write x v => heapEnabled d s.heap (.write x v)
  | .others _ => True

section Calls

variable {pf : PoolFlags} {d poolSize size : Nat} {s : MallocState}

theorem pagesAsked_eq {h : Heap} {n : Nat} (hask : pagesAsked d poolSize h size = some n)
    (hpool : poolSize ≤ 2 ^ 31) : n = (if 1024 < size then largePages size else 1) ∧ 0 < n := by
  rw [pagesAsked] at hask
  by_cases hsize : 0 < size ∧ size < poolSize
  · rw [if_neg (fun hc => hc hsize)] at hask
    by_cases hbig : 1024 < size
    · have hpages := largePages_spec size (by omega)
      rw [if_pos hbig, Option.some.injEq] at hask
      rw [if_pos hbig, ← hask]
      exact ⟨rfl, hpages.2⟩
    · rw [if_neg hbig] at hask
      rw [if_neg hbig]
      by_cases hempty : listEmpty h.mem (freeListAt (descAt d (pickDesc h.mem d size 7 0))) = true
      · rw [if_pos hempty, Option.some.injEq] at hask
        rw [← hask]
        exact ⟨rfl, Nat.one_pos⟩
      · rw [if_neg hempty] at hask
        cases hask
  · rw [if_pos hsize] at hask
    cases hask

/-- Where `sys_malloc` returns null it did nothing, and if it asked for pages
    it was given none. -/
theorem sysMalloc_null {t : HeapState} {fl : Nat → List Nat} (hi : HeapInv d t fl) {pg : Nat}
    (hpg : pg = 0 ∨ FreshPages d t.heap pg (if 1024 < size then largePages size else 1)) {h' : Heap}
    (hrun : sysMalloc d poolSize t.heap size pg = .ok (h', 0)) :
    h' = t.heap ∧ ∀ n, pagesAsked d poolSize t.heap size = some n → pg = 0 := by
  rw [sysMalloc] at hrun
  rw [pagesAsked]
  by_cases hsize : 0 < size ∧ size < poolSize
  · rw [if_neg (fun hc => hc hsize)] at hrun ⊢
    by_cases hbig : 1024 < size
    · rw [if_pos hbig] at hrun ⊢
      by_cases hz : pg = 0
      · rw [if_pos hz] at hrun
        cases hrun
        exact ⟨rfl, fun _ _ => hz⟩
      · rw [if_neg hz, Except.ok.injEq, Prod.mk.injEq] at hrun
        exact absurd hrun.2 (by omega)
    · rw [if_neg hbig] at hrun hpg ⊢
      have hpick := pickDesc_spec hi.lists.arenas size (by omega) 7 0 (by omega) (by omega)
      generalize pickDesc t.heap.mem d size 7 0 = k at hpick hrun ⊢
      have hk := hpick.1
      dsimp only at hrun
      rw [listEmpty_isList (hi.lists.lists k hk)] at hrun ⊢
      cases hfl : fl k with
      | cons b bs =>
          -- A free block is not at null.
          rw [hfl, decide_eq_false (List.cons_ne_nil b bs), if_neg (by decide)] at hrun
          rcases takeBlock_inv hi.lists hi.counted hk hfl with ⟨hptr, -⟩
          rcases hi.lists.blocks k hk b (by rw [hfl]; exact List.mem_cons_self) with ⟨r, hr, hs, hblk⟩
          have hp := hi.lists.arenas.block_place hr hs hblk
          rw [Except.ok.injEq] at hrun
          rw [hrun] at hptr
          dsimp only at hptr
          omega
      | nil =>
          rw [hfl, decide_eq_true rfl, if_pos rfl] at hrun
          by_cases hz : pg = 0
          · rw [if_pos hz] at hrun
            cases hrun
            exact ⟨rfl, fun _ _ => hz⟩
          · rw [if_neg hz] at hrun
            rcases newArena_heapInv hi hk hfl (hpg.resolve_left hz) hpick.2 with
              ⟨h₁, ptr, fl', hnew, hne, -⟩
            rw [hnew, Except.ok.injEq, Prod.mk.injEq] at hrun
            exact absurd hrun.2 hne
  · rw [if_pos hsize] at hrun ⊢
    cases hrun
    exact ⟨rfl, fun _ hn => by cases hn⟩

/-- Free addresses are apart from the runs of the heap. -/
theorem MallocInv.fresh (hi : MallocInv pf d s) (hd : DescPlace d pf) {n i pg : Nat} (hn : 0 < n)
    (hfr : FreeRun (vaddrBits s.mem pf) n i) (hpg : pg = callerBase pf + i * 4096) :
    FreshPages d s.heap.heap pg n := by
  have hrange := hi.order.range (s := i + n) hfr.1
  refine ⟨?_, ?_, by omega, fun r hr => ?_⟩
  · cases pf with
    | kernel =>
        rw [callerBase, heapStart] at hpg
        omega
    | user =>
        rw [callerBase, userVaddrStart] at hpg
        omega
  · cases pf with
    | kernel =>
        rw [callerBase] at hpg
        rw [DescPlace] at hd
        omega
    | user =>
        have hbelow := hrange.2 rfl
        rw [DescPlace] at hd
        omega
  · rcases hi.heap with ⟨fl, hheap⟩
    have hplace := hheap.lists.arenas.place r hr
    rcases hi.held r hr with ⟨k, haddr, -, hset⟩
    unfold RunPlace at hplace
    by_contra hc
    -- A page in both would be free and taken.
    have hmid : ∃ x, (i ≤ x ∧ x < i + n) ∧ k ≤ x ∧ x < k + r.2 := by
      refine ⟨max i k, ?_⟩
      omega
    rcases hmid with ⟨x, hx, h1, h2⟩
    have hclear := hfr.2 x hx.1 hx.2
    rw [hset x h1 h2] at hclear
    cases hclear

/-- `sys_malloc` without pages. -/
theorem MallocInv.noPages (hi : MallocInv pf d s) (hpool : poolSize ≤ 2 ^ 31) (size : Nat) :
    ∃ h' ptr, sysMalloc d poolSize s.heap.heap size 0 = .ok (h', ptr) ∧
      MallocInv pf d ⟨s.mem, ⟨h', if ptr = 0 then s.heap.live else (ptr, size) :: s.heap.live⟩⟩ ∧
      (ptr = 0 → h' = s.heap.heap) := by
  rcases hi.heap with ⟨fl, hheap⟩
  have hpg : 0 = 0 ∨ FreshPages d s.heap.heap 0 (if 1024 < size then largePages size else 1) :=
    Or.inl rfl
  rcases sysMalloc_inv hheap hpool hpg with ⟨h', ptr, fl', hrun, hinv, -⟩
  refine ⟨h', ptr, hrun, ⟨hi.order, ⟨fl', hinv⟩, fun r hr => ?_⟩, fun hz => ?_⟩
  · exact (sysMalloc_runs hrun hr).elim (hi.held r) (fun hc => absurd rfl hc.1)
  · rw [hz] at hrun
    exact (sysMalloc_null hheap hpg hrun).1

/-- One call: a block, or null with nothing changed. -/
theorem mallocFor_clean (hi : MallocInv pf d s) (hd : DescPlace d pf) (hpool : poolSize ≤ 2 ^ 31)
    (hmeets : MeetsPages pf d poolSize s (.malloc size)) :
    ∃ m' h' ptr, mallocFor pf d poolSize s.mem s.heap.heap size = .ok (m', h', ptr) ∧
      MallocInv pf d ⟨m', ⟨h', if ptr = 0 then s.heap.live else (ptr, size) :: s.heap.live⟩⟩ ∧
      (ptr = 0 → m' = s.mem ∧ h' = s.heap.heap) := by
  rcases hi.noPages hpool size with ⟨h₀, ptr₀, hrun₀, hinv₀, hnull₀⟩
  cases hask : pagesAsked d poolSize s.heap.heap size with
  -- The call asks for no pages: a block is free, or the size is refused.
  | none =>
      refine ⟨s.mem, h₀, ptr₀, ?_, hinv₀, fun hz => ⟨rfl, hnull₀ hz⟩⟩
      rw [mallocFor, hask]
      dsimp only
      rw [hrun₀, ok_bind]
  | some n =>
      have hn := pagesAsked_eq hask hpool
      rcases (hmeets n hask).mallocPage hi.order hn.2 with
        hnone | ⟨m', r, i, hcall, haddr, hfr, hmark⟩
      · -- No run of addresses is long enough.
        have hzero : (0 : Word).toNat = 0 := rfl
        refine ⟨s.mem, h₀, ptr₀, ?_, hinv₀, fun hz => ⟨rfl, hnull₀ hz⟩⟩
        rw [mallocFor, hask]
        dsimp only
        rw [hnone, ok_bind]
        dsimp only
        rw [hzero, hrun₀, ok_bind]
      · rcases hi.heap with ⟨fl, hheap⟩
        have hfresh := hi.fresh hd hn.2 hfr haddr
        have hpg := hfresh
        rw [hn.1] at hpg
        rcases sysMalloc_inv hheap hpool (Or.inr hpg) with ⟨h', ptr, fl', hrun, hinv, -⟩
        refine ⟨m', h', ptr, ?_, ⟨hmark.order, ⟨fl', hinv⟩, fun r' hr' => ?_⟩, fun hz => ?_⟩
        · rw [mallocFor, hask]
          dsimp only
          rw [hcall, ok_bind]
          dsimp only
          rw [hrun, ok_bind]
        · rcases sysMalloc_runs hrun hr' with hold | ⟨-, hnew⟩
          · exact (hi.held r' hold).remarked hmark (fun hc => by cases hc)
          · rw [← hn.1] at hnew
            have hin : i + n ≤ callerPages s.mem pf := hfr.1
            refine ⟨i, by rw [hnew]; exact haddr, by rw [hnew, hmark.pages]; exact hin, ?_⟩
            intro k h1 h2
            rw [hnew] at h2
            rw [hmark.bits k (by omega), if_pos ⟨h1, h2⟩]
        · -- The block lies behind the header of a page that is not null.
          rw [hz] at hrun
          have hpos : 0 < callerBase pf := by cases pf <;> decide
          have hr := (sysMalloc_null hheap (Or.inr hpg) hrun).2 n hask
          omega

/-- A call of `sys_free` that comes back keeps the invariant. -/
theorem freeFor_inv (hi : MallocInv pf d s) {ptr : Nat} (hptr : (ptr, size) ∈ s.heap.live)
    {m' : Machine} {h' : Heap} (hrun : freeFor pf s.mem s.heap.heap ptr = .ok (m', h')) :
    MallocInv pf d ⟨m', ⟨h', s.heap.live.filter (fun a => a.1 ≠ ptr)⟩⟩ := by
  rcases hi.heap with ⟨fl, hheap⟩
  rcases sysFreeUser_inv hheap hptr with ⟨h₁, fl', hfree, hinv⟩
  rcases bind_eq_ok.mp hrun with ⟨h₂, hsame, hrest⟩
  -- The kernel tests the address first, and the test holds for what it gave out.
  have heq : h₂ = h₁ := by
    cases pf with
    | kernel =>
        have hge : heapStart ≤ ptr := by
          refine (hheap.live _ hptr).ge (fun r hr => ?_)
          rcases hi.held r hr with ⟨i, haddr, -⟩
          rw [haddr]
          exact Nat.le_add_right _ _
        rw [sysFreeBy, sysFree_eq hge, hfree, Except.ok.injEq] at hsame
        exact hsame.symm
    | user =>
        rw [sysFreeBy, hfree, Except.ok.injEq] at hsame
        exact hsame.symm
  rw [heq] at hrest
  have hold : ∀ r, r ∈ h₁.runs → RunHeld s.mem pf r :=
    fun r hr => hi.held r (sysFreeUser_runs hfree hr)
  cases hfreed : freedRun s.heap.heap h₁ with
  | none =>
      rw [hfreed, Except.ok.injEq, Prod.mk.injEq] at hrest
      rw [← hrest.1, ← hrest.2]
      exact ⟨hi.order, ⟨fl', hinv⟩, hold⟩
  | some r =>
      rw [hfreed] at hrest
      rcases bind_eq_ok.mp hrest with ⟨m₁, hpages, hres⟩
      rw [Except.ok.injEq, Prod.mk.injEq] at hres
      rw [← hres.1, ← hres.2]
      rw [freedRun] at hfreed
      have hr : r ∈ s.heap.heap.runs := List.mem_of_find?_eq_some hfreed
      -- The run that is gone is the one whose pages go back.
      have hgone := List.find?_some hfreed
      rw [Bool.not_eq_true', List.contains_eq_mem, decide_eq_false_iff_not] at hgone
      have hplace := hheap.lists.arenas.place r hr
      unfold RunPlace at hplace
      rcases hi.held r hr with ⟨i, haddr, hin, hset⟩
      have hnat : (BitVec.ofNat 32 r.1).toNat = r.1 := by
        rw [BitVec.toNat_ofNat]
        omega
      have hmark := hi.order.mfreePage hin (hnat.trans haddr) hset hpages
      refine ⟨hmark.order, ⟨fl', hinv⟩, fun r' hr' => (hold r' hr').remarked hmark (fun _ => ?_)⟩
      have hne : r' ≠ r := by
        rintro rfl
        exact hgone hr'
      have hap : r'.1 + r'.2 * 4096 ≤ r.1 ∨ r.1 + r.2 * 4096 ≤ r'.1 :=
        hheap.lists.arenas.apart.forall (sysFreeUser_runs hfree hr') hr hne
      omega

/-- An event of a run that meets the condition keeps the invariant. -/
theorem mallocStep_inv (hi : MallocInv pf d s) (hd : DescPlace d pf) (hpool : poolSize ≤ 2 ^ 31)
    {e : MallocEvent} {s' : MallocState} (he : mallocEnabled pf s e)
    (hmeets : MeetsPages pf d poolSize s e) (hs : mallocStep pf d poolSize s e = .ok s') :
    MallocInv pf d s' := by
  cases e with
  | malloc size =>
      rcases mallocFor_clean hi hd hpool hmeets with ⟨m', h', ptr, hrun, hinv, -⟩
      rw [mallocStep, hrun, ok_bind, Except.ok.injEq] at hs
      rw [← hs]
      exact hinv
  | free ptr =>
      rcases hmeets with ⟨size, hptr⟩
      rw [mallocStep] at hs
      rcases bind_eq_ok.mp hs with ⟨⟨m', h'⟩, hrun, hres⟩
      rw [Except.ok.injEq] at hres
      rw [← hres]
      exact freeFor_inv hi hptr hrun
  | write x v =>
      rcases hi.heap with ⟨fl, hheap⟩
      rw [mallocStep, Except.ok.injEq] at hs
      rw [← hs]
      refine ⟨hi.order, ⟨fl, write_inv hheap v ?_⟩, hi.held⟩
      -- The word written is in a live block, or in no run and no descriptor: the heap owns
      -- neither.
      rcases hmeets with ⟨a, ha, hx⟩ | ⟨hrun, hdesc⟩
      · exact (hheap.live a ha).not_owned hheap.lists hx
      · exact hheap.lists.outside_not_owned hrun hdesc
  | others m =>
      rw [mallocStep, Except.ok.injEq] at hs
      rw [← hs]
      exact ⟨he.1, hi.heap, he.2⟩

theorem MallocInv.reachable (hd : DescPlace d pf) (hpool : poolSize ≤ 2 ^ 31)
    (hreach : ((mallocSystem pf d poolSize).restrict (MeetsPages pf d poolSize)).Reachable s) :
    MallocInv pf d s := by
  refine System.invariant_of_step _ (MallocInv pf d) ?_ ?_ s hreach
  · intro s hs
    rcases hs with ⟨horder, hheap⟩
    refine ⟨horder, ⟨_, (heapInit_inv hheap).1⟩, fun r hr => ?_⟩
    rcases hheap with ⟨mem, hmem⟩
    rw [hmem] at hr
    exact absurd hr List.not_mem_nil
  · intro s e s' hi he hs
    exact mallocStep_inv hi hd hpool he.1 he.2 hs

/-- The pools of `mem_pool_init` have at most 256 MB each. -/
theorem memPoolInit_poolSize (m : Machine) (allMem : Word) (pf : PoolFlags) :
    ((memPoolInit m allMem).pool pf).poolSize.toNat ≤ 2 ^ 31 := by
  have hsize : ∀ x : BitVec 16, (x.setWidth 32 * pgSize).toNat ≤ 2 ^ 31 := by
    intro x
    have hx := x.isLt
    have hpg : pgSize.toNat = 4096 := rfl
    rw [BitVec.toNat_mul, BitVec.toNat_setWidth, hpg]
    omega
  cases pf with
  | kernel => exact hsize _
  | user => exact hsize _

/-- In every run of a kernel thread or a process, with pools as `mem_pool_init`
    makes them and whatever others take meanwhile, in which the assertions
    under `malloc_page` hold where it is called and what is freed or written was
    given out: `sys_malloc` of any size for which they hold comes back, with a
    block of that size or with null, and with null nothing has changed. -/
theorem malloc_fails_cleanly (pf : PoolFlags) (d : Nat) (hd : DescPlace d pf) (m₀ : Machine)
    (allMem : Word) (poolSize : Nat)
    (hpool : poolSize = ((memPoolInit m₀ allMem).pool pf).poolSize.toNat) (s : MallocState)
    (hreach : ((mallocSystem pf d poolSize).restrict (MeetsPages pf d poolSize)).Reachable s)
    (size : Nat) (hmeets : MeetsPages pf d poolSize s (.malloc size)) :
    ∃ m' h' ptr, mallocFor pf d poolSize s.mem s.heap.heap size = .ok (m', h', ptr) ∧
      (ptr ≠ 0 → ∃ c, Extent d h' ptr c ∧ size ≤ c) ∧
      (ptr = 0 → m' = s.mem ∧ h' = s.heap.heap) := by
  have hsmall : poolSize ≤ 2 ^ 31 := hpool ▸ memPoolInit_poolSize m₀ allMem pf
  have hi := MallocInv.reachable hd hsmall hreach
  rcases mallocFor_clean hi hd hsmall hmeets with ⟨m', h', ptr, hrun, hinv, hnull⟩
  refine ⟨m', h', ptr, hrun, fun hne => ?_, hnull⟩
  rcases hinv.heap with ⟨fl, hheap⟩
  have hlive := hheap.live (ptr, size)
  rw [if_neg hne] at hlive
  exact (hlive List.mem_cons_self).extent

end Calls

/-- A kernel thread on a machine with 32 MB, after start-up. -/
def bootCaller : MallocState := { mem := bootPages.mem, heap := bootHeap }

theorem bootCaller_init : mallocInit .kernel 0xc0010000 bootCaller :=
  ⟨(pageInit_inv bootPages_init).map, fun _ => 0, rfl⟩

/-- The pool of that machine has 15 MB, and a size just below takes more pages
    than `malloc_page` lets through. -/
theorem size_below_pool_stops :
    0xefffff < ((memPoolInit loaderMachine 0x2000000).pool .kernel).poolSize.toNat ∧
    ∃ s, (mallocSystem .kernel 0xc0010000
      ((memPoolInit loaderMachine 0x2000000).pool .kernel).poolSize.toNat).Reachable s ∧
      mallocFor .kernel 0xc0010000
        ((memPoolInit loaderMachine 0x2000000).pool .kernel).poolSize.toNat s.mem s.heap.heap 0xefffff
        = .error .mallocPage := by
  have hpool : ((memPoolInit loaderMachine 0x2000000).pool .kernel).poolSize.toNat = 0xf00000 := by
    decide
  rw [hpool]
  refine ⟨by decide, bootCaller, System.Reachable.init _ bootCaller_init, ?_⟩
  have hask : pagesAsked 0xc0010000 0xf00000 bootCaller.heap.heap 0xefffff = some 3841 := by
    rw [pagesAsked, if_neg (by decide), if_pos (by decide)]
    rfl
  rw [mallocFor, hask]
  dsimp only
  rw [mallocPage, ensure, if_neg (by decide)]
  rfl

/-- After start-up a page can be had. -/
theorem bootCaller_page : PagesFor bootCaller.mem .kernel 1 := by
  have hlen : (vaddrBits bootCaller.mem .kernel).btmpBytesLen = 480 := by decide
  have hfree : freeCount (vaddrBits bootCaller.mem .kernel) = 480 * 8 := freeCount_init _
  have hframes : freeCount bootCaller.mem.kernelPool.poolBitmap = 480 * 8 := freeCount_init _
  refine ⟨by decide, by omega, fun s hs => ?_⟩
  have hscan : bitmapScan (vaddrBits bootCaller.mem .kernel) 1 = .ok (some s) := by
    rw [bitmapScan_of_free (by omega), hs]
  rcases bitmapScan_one hscan with ⟨s', hs', hlt, hclear, -⟩
  cases hs'
  refine ⟨⟨by omega, fun i h1 h2 => ?_⟩, ?_, fun hc => by cases hc⟩
  · rw [show i = s by omega]
    exact hclear
  · have hneed := tablesMissing_le bootCaller.mem ((vaddrAt bootCaller.mem .kernel s).toNat / 4096) 1
    simp only [FramesFor]
    omega

/-- The process that maps its stack page. -/
theorem stackMachine_userMap : UserMap stackMachine 24 1 := by
  have hpages := stackMachine_pages
  have hf := stackMachine_forkable
  have hcnt : bitmapPgCnt = 23 := rfl
  have hset : bitmapScanTest (firstBits 26) 25 = true := by
    rw [firstBits_test]
    rfl
  have hpres : ∀ i, i < 3840 → isPresent (kernelPte stackMachine i) = true → i < 25 := by
    intro i hi hp
    rw [stackMachine_present hi] at hp
    exact of_decide_eq_true hp
  refine ⟨⟨hf.map, hf.layout, ⟨by omega, ?_, stackMachine_frame (by omega)⟩, stackMachine_bitmap,
    by omega, rfl, rfl, ?_, ?_⟩, hf.agree, ?_⟩
  · rw [stackMachine_present (by omega)]
    rfl
  · intro e he hp
    have hframes := stackMachine_frames
    rw [(stackMachine_table he hp).2]
    refine ⟨25, by omega, rfl, hset, fun i hi hpi => ?_⟩
    have hlt := hpres i (by omega) hpi
    rw [stackMachine_frame hlt]
    omega
  · intro e e' he he' hp hp' _
    rw [(stackMachine_table he hp).1, (stackMachine_table he' hp').1]
  · intro i w hi hw
    have hbase : userBase stackMachine = 0x1100 := by decide
    rw [stackMachine_frameAt (userPage_lt hi)] at hw
    by_cases hq : userPage₀ + i = 0xbffff
    · rw [if_pos hq, Option.some.injEq] at hw
      omega
    · rw [if_neg hq] at hw
      cases hw

/-- That process with an empty heap, its descriptors in its PCB. -/
def stackCaller : MallocState :=
  { mem := stackMachine
    heap := { heap := { mem := blockDescInit (fun _ => 0) 0xc0100100, runs := [] }, live := [] } }

theorem stackCaller_init : mallocInit .user 0xc0100100 stackCaller :=
  ⟨⟨24, 1, stackMachine_userMap⟩, fun _ => 0, rfl⟩

/-- Its first page can be had. -/
theorem stackCaller_page : PagesFor stackCaller.mem .user 1 := by
  have hlen : (vaddrBits stackCaller.mem .user).btmpBytesLen = 94199 := rfl
  have hbit : bitmapScanTest (vaddrBits stackCaller.mem .user) 0 = false := by
    have h := stackMachine_bit (i := 0) (by omega)
    rw [decide_eq_false (by omega)] at h
    exact h
  have hfree : 0 < freeCount (vaddrBits stackCaller.mem .user) :=
    Finset.card_pos.mpr ⟨0, Finset.mem_filter.mpr ⟨Finset.mem_range.mpr (by omega), hbit⟩⟩
  refine ⟨by decide, hfree, fun s hs => ?_⟩
  have hscan : bitmapScan (vaddrBits stackCaller.mem .user) 1 = .ok (some s) := by
    rw [bitmapScan_of_free hfree, hs]
  rcases bitmapScan_one hscan with ⟨s', hs', hlt, hclear, hfirst⟩
  cases hs'
  have hzero : s = 0 := by
    by_contra hc
    have hset := hfirst 0 (by omega)
    rw [hbit] at hset
    cases hset
  rw [hzero]
  refine ⟨⟨by omega, fun i h1 h2 => ?_⟩, ?_, fun _ => by decide⟩
  · rw [show i = 0 by omega]
    exact hbit
  · have hneed := tablesMissing_le stackCaller.mem ((vaddrAt stackCaller.mem .user 0).toNat / 4096) 1
    have huser : freeCount stackCaller.mem.userPool.poolBitmap = 3839 := firstBits_free 1
    have hkernel : freeCount stackCaller.mem.kernelPool.poolBitmap = 3814 :=
      firstBits_free 26
    simp only [FramesFor]
    omega

/-- `malloc_fails_cleanly` for a first allocation of 100 bytes, by a kernel
    thread and by a process. -/
theorem malloc_fails_cleanly_boot :
    (∃ m' h' ptr, mallocFor .kernel 0xc0010000 0xf00000 bootCaller.mem bootCaller.heap.heap 100
        = .ok (m', h', ptr) ∧
      (ptr ≠ 0 → ∃ c, Extent 0xc0010000 h' ptr c ∧ 100 ≤ c) ∧
      (ptr = 0 → m' = bootCaller.mem ∧ h' = bootCaller.heap.heap)) ∧
    ∃ m' h' ptr, mallocFor .user 0xc0100100 0xf00000 stackCaller.mem stackCaller.heap.heap 100
        = .ok (m', h', ptr) ∧
      (ptr ≠ 0 → ∃ c, Extent 0xc0100100 h' ptr c ∧ 100 ≤ c) ∧
      (ptr = 0 → m' = stackCaller.mem ∧ h' = stackCaller.heap.heap) := by
  have hd : DescPlace 0xc0010000 .kernel := by
    show 0xc0010000 + 168 ≤ heapStart
    decide
  have hd' : DescPlace 0xc0100100 .user := by
    show kernelBase ≤ 0xc0100100 ∧ 0xc0100100 + 168 ≤ 2 ^ 32
    decide
  constructor
  · refine malloc_fails_cleanly .kernel 0xc0010000 hd loaderMachine 0x2000000 0xf00000 (by decide)
      bootCaller (System.Reachable.init _ bootCaller_init) 100 (fun n hn => ?_)
    rw [(pagesAsked_eq hn (by decide)).1]
    exact bootCaller_page
  · refine malloc_fails_cleanly .user 0xc0100100 hd' loaderMachine 0x2000000 0xf00000 (by decide)
      stackCaller (System.Reachable.init _ stackCaller_init) 100 (fun n hn => ?_)
    rw [(pagesAsked_eq hn (by decide)).1]
    exact stackCaller_page

end ForikOS
