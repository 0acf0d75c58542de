import ForikOS.Core.UserHeap
import ForikOS.Theory.HeapFrame

/-!
# The Heaps of Processes Are Separate

A call of one process leaves the heap of every other process alone, as long
as no process frees a block out of an arena it inherited.

The header of an arena names its descriptor by address. After a fork the
copies of the parent's arenas in the child still name the descriptors of the
parent, so freeing such a block in the child changes the lists of the parent.
`KeepsToOwn` excludes these calls, and with them the calls that are no use of
a heap at all: freeing what was not allocated, and writing over the headers.
Inherited memory can be used, and inherited large blocks can be freed.

What a process may touch is its user memory and its own descriptors,
`ownWords`. The invariant splits the pages of a process: those it allocated
are a heap in the sense of the kernel heap, those it inherited are memory
like any other. A call works in the first part and keeps to it by the frame
property, so it neither changes nor sees what other processes do.

## Main definitions

* `KeepsToOwn`: The condition on calls.
* `ownWords`, `Agrees`: What the heap of a process is made of.
* `Owns`, `HeapsInv`: The invariant.
* `SameHeap`: A process cannot tell two states apart.

## Theorems

* `Owns.call`: A call keeps the invariant, and sees and changes nothing else.
* `user_heaps_isolated`: The heap of a process in a run is the one it has
  when it runs alone.
-/

namespace ForikOS

/-- What process `p` frees is a large block, or a block of an arena with a
    descriptor of its own. -/
def FreesOwn (p : Nat) (s : HeapState) (ptr : Nat) : Prop :=
  (∃ size, (ptr, size) ∈ s.live) ∧
    ((s.heap.mem (block2arena ptr) = 0 ∧ s.heap.mem (block2arena ptr + 8) = 1) ∨
      ∃ k, k < 7 ∧ s.heap.mem (block2arena ptr) = descAt p k)

/-- The program frees blocks of its own, and writes inside its allocations or
    outside the pages of its heap. -/
def callKeepsToOwn (p : Nat) (s : HeapState) : HeapEvent → Prop
  | .malloc _ _ => True
  | .free ptr => FreesOwn p s ptr
  | .write x _ => (∃ a, a ∈ s.live ∧ a.1 ≤ x ∧ x < a.1 + a.2) ∨
      ∀ r, r ∈ s.heap.runs → ¬ (r.1 ≤ x ∧ x < r.1 + r.2 * 4096)

/-- The condition on the calls of all processes. -/
def KeepsToOwn (s : UserHeaps) : UserEvent → Prop
  | .create _ _ => True
  | .fork _ _ => True
  | .call p e => callKeepsToOwn p (procHeap s p) e

/-- The user memory of a process and its descriptors. -/
def ownWords (p : Nat) : Set Nat := {x | x < kernelBase ∨ (p ≤ x ∧ x < p + 168)}

instance (p x : Nat) : Decidable (x ∈ ownWords p) :=
  inferInstanceAs (Decidable (x < kernelBase ∨ (p ≤ x ∧ x < p + 168)))

/-- Process `p` has the same heap in two states. -/
structure Agrees (p : Nat) (s t : HeapState) : Prop where
  runs : t.heap.runs = s.heap.runs
  live : t.live = s.live
  mem : ∀ x, x ∈ ownWords p → t.heap.mem x = s.heap.mem x

/-- A run in user memory. -/
def UserRun (r : Nat × Nat) : Prop :=
  r.1 % 4096 = 0 ∧ 1 ≤ r.2 ∧ r.1 + r.2 * 4096 ≤ kernelBase

/-- An inherited allocation lies behind the header of an inherited run, and a
    large run holds one. -/
def InheritedAt (mem : Nat → Nat) (inh : List (Nat × Nat)) (a : Nat × Nat) : Prop :=
  ∃ r, r ∈ inh ∧ r.1 + 12 ≤ a.1 ∧ a.1 < r.1 + 4096 ∧ a.1 + a.2 ≤ r.1 + r.2 * 4096 ∧
    (mem r.1 = 0 → a.1 = r.1 + 12)

/-- The header of an inherited run names no descriptor, or one of another
    process. -/
def ForeignHeader (procs : List Nat) (p v : Nat) : Prop :=
  v = 0 ∨ ∃ q, q ∈ procs ∧ q ≠ p ∧ q ≤ v ∧ v < q + 168

/-- The pages of process `p` are those of its own heap, then those it
    inherited; and so are its allocations. -/
structure Owns (procs : List Nat) (p : Nat) (s : HeapState)
    (own inh ownLive inhLive : List (Nat × Nat)) (fl : Nat → List Nat) : Prop where
  runs : s.heap.runs = own ++ inh
  live : s.live = ownLive ++ inhLive
  heap : HeapInv p ⟨⟨s.heap.mem, own⟩, ownLive⟩ fl
  place : ∀ r, r ∈ s.heap.runs → UserRun r
  apart : s.heap.runs.Pairwise RunsApart
  header : ∀ r, r ∈ inh → ForeignHeader procs p (s.heap.mem r.1)
  inherited : ∀ a, a ∈ inhLive → InheritedAt s.heap.mem inh a

/-- A call does the same in every state with the same heap, and changes only
    words of the heap. -/
structure CallLocal (poolSize p : Nat) (s : HeapState) (e : HeapEvent) (s' : HeapState) : Prop where
  frame : ∀ x, x ∉ ownWords p → s'.heap.mem x = s.heap.mem x
  same : ∀ t, Agrees p s t → ∃ t', procCall poolSize p t e = .ok t' ∧ Agrees p s' t'

variable {procs : List Nat} {p poolSize : Nat} {s s' : HeapState}
variable {own inh ownLive inhLive : List (Nat × Nat)} {fl : Nat → List Nat}

theorem mem_ownWords {x : Nat} : x ∈ ownWords p ↔ x < kernelBase ∨ (p ≤ x ∧ x < p + 168) := Iff.rfl

namespace Owns

theorem mem_own (h : Owns procs p s own inh ownLive inhLive fl) {r : Nat × Nat} (hr : r ∈ own) :
    r ∈ s.heap.runs := by
  rw [h.runs]
  exact List.mem_append.mpr (Or.inl hr)

theorem mem_inh (h : Owns procs p s own inh ownLive inhLive fl) {r : Nat × Nat} (hr : r ∈ inh) :
    r ∈ s.heap.runs := by
  rw [h.runs]
  exact List.mem_append.mpr (Or.inr hr)

/-- Own and inherited runs share no page. -/
theorem own_inh (h : Owns procs p s own inh ownLive inhLive fl) {r r' : Nat × Nat} (hr : r ∈ own)
    (hr' : r' ∈ inh) : RunsApart r r' := by
  have hap := h.apart
  rw [h.runs] at hap
  exact (List.pairwise_append.mp hap).2.2 r hr r' hr'

/-- The words of the process hold its own heap. -/
theorem covers (h : Owns procs p s own inh ownLive inhLive fl) : Covers (ownWords p) p own := by
  refine ⟨fun x hx => Or.inr hx, fun r hr x hx => Or.inl ?_⟩
  have hp := h.place r (h.mem_own hr)
  unfold UserRun at hp
  omega

/-- So do all words outside the inherited pages. -/
theorem covers_but_inh (h : Owns procs p s own inh ownLive inhLive fl) (hp : kernelBase ≤ p) :
    Covers {x | ∀ r, r ∈ inh → ¬ (r.1 ≤ x ∧ x < r.1 + r.2 * 4096)} p own := by
  refine ⟨fun x hx r hr hxr => ?_, fun r hr x hx r' hr' hxr => ?_⟩
  · have hplace := h.place r (h.mem_inh hr)
    unfold UserRun at hplace
    omega
  · have hap := h.own_inh hr hr'
    unfold RunsApart at hap
    omega

/-- In a state with the same heap, the own part is framed by the rest. -/
theorem framed (h : Owns procs p s own inh ownLive inhLive fl) {t : HeapState} (ht : Agrees p s t) :
    t.heap = (Heap.mk s.heap.mem own).framed (ownWords p) t.heap.mem inh := by
  have hmem : (ownWords p).piecewise s.heap.mem t.heap.mem = t.heap.mem := by
    funext x
    by_cases hx : x ∈ ownWords p
    · rw [Set.piecewise_eq_of_mem _ _ _ hx, ht.mem x hx]
    · rw [Set.piecewise_eq_of_notMem _ _ _ hx]
  have hruns : t.heap.runs = own ++ inh := ht.runs.trans h.runs
  rw [Heap.framed, hmem, ← hruns]

theorem header_in_run (h : Owns procs p s own inh ownLive inhLive fl) {r : Nat × Nat}
    (hr : r ∈ inh) : r.1 ≤ r.1 ∧ r.1 < r.1 + r.2 * 4096 := by
  have hplace := h.place r (h.mem_inh hr)
  unfold UserRun at hplace
  omega

/-- The inherited part only depends on the headers. -/
theorem inherited_keep (h : Owns procs p s own inh ownLive inhLive fl) {m : Nat → Nat}
    (hkeep : ∀ r, r ∈ inh → m r.1 = s.heap.mem r.1) :
    (∀ r, r ∈ inh → ForeignHeader procs p (m r.1)) ∧ ∀ a, a ∈ inhLive → InheritedAt m inh a := by
  constructor
  · intro r hr
    rw [hkeep r hr]
    exact h.header r hr
  · intro a ha
    rcases h.inherited a ha with ⟨r, hr, h1, h2, h3, h4⟩
    exact ⟨r, hr, h1, h2, h3, by rw [hkeep r hr]; exact h4⟩

end Owns

theorem Agrees.refl (p : Nat) (s : HeapState) : Agrees p s s := ⟨rfl, rfl, fun _ _ => rfl⟩

/-- Pages `malloc_page` hands out to a process can become a run of its heap. -/
theorem FreshUserRun.pages (h : Owns procs p s own inh ownLive inhLive fl) (hp : kernelBase ≤ p)
    {pg n : Nat} (hf : FreshUserRun s.heap pg n) :
    FreshPages p ⟨s.heap.mem, own⟩ pg n ∧ CoversPages (ownWords p) pg n ∧
      CoversPages {x | ∀ r, r ∈ inh → ¬ (r.1 ≤ x ∧ x < r.1 + r.2 * 4096)} pg n := by
  unfold FreshUserRun at hf
  have hbase : kernelBase = 0xc0000000 := rfl
  refine ⟨⟨hf.1, Or.inr (by omega), by omega, fun r hr => hf.2.2.2 r (h.mem_own hr)⟩,
    fun x hx => Or.inl (by omega), fun x hx r hr hxr => ?_⟩
  have hap := hf.2.2.2 r (h.mem_inh hr)
  omega

/-- The runs of a process after a call that kept the inherited ones. -/
theorem Owns.runs_after (h : Owns procs p s own inh ownLive inhLive fl) {own' : List (Nat × Nat)}
    {m : Nat → Nat} {live' : List (Nat × Nat)} {fl' : Nat → List Nat} {g n : Nat}
    (hi : HeapInv p ⟨⟨m, own'⟩, live'⟩ fl')
    (hsub : ∀ r, r ∈ own' → r ∈ own ∨ (FreshUserRun s.heap g n ∧ r = (g, n))) :
    (∀ r, r ∈ own' ++ inh → UserRun r) ∧ (own' ++ inh).Pairwise RunsApart := by
  have hap := h.apart
  rw [h.runs, List.pairwise_append] at hap
  constructor
  · intro r hr
    rcases List.mem_append.mp hr with hr | hr
    · rcases hsub r hr with hold | ⟨hf, rfl⟩
      · exact h.place r (h.mem_own hold)
      · have hp := hi.lists.arenas.place _ hr
        exact ⟨hf.1, hp.2.2.1, hf.2.2.1⟩
    · exact h.place r (h.mem_inh hr)
  · refine List.pairwise_append.mpr ⟨hi.lists.arenas.apart, hap.2.1, fun r hr r' hr' => ?_⟩
    rcases hsub r hr with hold | ⟨hf, rfl⟩
    · exact hap.2.2 r hold r' hr'
    · exact hf.2.2.2 r' (h.mem_inh hr')

/-- `sys_malloc` does the same to the own heap in every state with that heap. -/
theorem Owns.malloc_framed (h : Owns procs p s own inh ownLive inhLive fl) (hp : kernelBase ≤ p)
    (hpool : poolSize ≤ 2 ^ 31) {size pg : Nat} (he : callEnabled s.heap (.malloc size pg)) :
    ∃ h' ptr fl', sysMalloc p poolSize ⟨s.heap.mem, own⟩ size pg = .ok (h', ptr) ∧
      HeapInv p ⟨h', if ptr = 0 then ownLive else (ptr, size) :: ownLive⟩ fl' ∧
      ∀ t, Agrees p s t → sysMalloc p poolSize t.heap size pg =
        .ok (h'.framed (ownWords p) t.heap.mem inh, ptr) := by
  have hpages := he.2.imp_right (fun hf => hf.pages h hp)
  rcases sysMalloc_inv h.heap hpool (hpages.imp_right And.left) with ⟨h', ptr, fl', hcall, hinv, _⟩
  refine ⟨h', ptr, fl', hcall, hinv, fun t ht => ?_⟩
  exact (congrArg (fun g => sysMalloc p poolSize g size pg) (h.framed ht)).trans
    (sysMalloc_framed h.heap h.covers hpool
      (hpages.imp_right (fun hf => And.intro hf.1 hf.2.1)) hcall)

/-- `sys_malloc` by a process. -/
theorem Owns.malloc (h : Owns procs p s own inh ownLive inhLive fl) (hp : kernelBase ≤ p)
    (hpool : poolSize ≤ 2 ^ 31) {size pg : Nat} (he : callEnabled s.heap (.malloc size pg))
    (hrun : procCall poolSize p s (.malloc size pg) = .ok s') :
    (∃ own' ownLive' fl', Owns procs p s' own' inh ownLive' inhLive fl') ∧
      CallLocal poolSize p s (.malloc size pg) s' := by
  classical
  have hpages := he.2.imp_right (fun hf => hf.pages h hp)
  rcases h.malloc_framed hp hpool he with ⟨h', ptr, fl', hcall, hinv, hframed⟩
  -- The call writes words of its own process only, so any other memory can be put around it.
  have hout : ∀ x, x ∉ ownWords p → h'.mem x = s.heap.mem x :=
    fun x hx => sysMalloc_outside h.heap h.covers hpool
      (hpages.imp_right (fun hf => And.intro hf.1 hf.2.1)) hcall hx
  have hmem : (ownWords p).piecewise h'.mem s.heap.mem = h'.mem := piecewise_eq_self hout
  rw [procCall, hframed s (Agrees.refl p s), ok_bind, Heap.framed, hmem] at hrun
  cases hrun
  have hkeep : ∀ r, r ∈ inh → h'.mem r.1 = s.heap.mem r.1 := by
    intro r hr
    refine sysMalloc_outside h.heap (h.covers_but_inh hp) hpool
      (hpages.imp_right (fun hf => And.intro hf.1 hf.2.2)) hcall (fun hx => hx r hr ?_)
    exact h.header_in_run hr
  have hafter := h.runs_after hinv (fun r hr => (sysMalloc_runs hcall hr).imp_right
    (fun hnew => ⟨he.2.resolve_left hnew.1, hnew.2⟩))
  have hinh := h.inherited_keep hkeep
  refine ⟨⟨h'.runs, _, fl', rfl, ?_, hinv, hafter.1, hafter.2, hinh.1, hinh.2⟩, hout, ?_⟩
  · show (if ptr = 0 then s.live else (ptr, size) :: s.live) = _ ++ inhLive
    rw [h.live]
    by_cases hz : ptr = 0
    · rw [if_pos hz, if_pos hz]
    · rw [if_neg hz, if_neg hz]
      rfl
  · intro t ht
    refine ⟨⟨h'.framed (ownWords p) t.heap.mem inh, if ptr = 0 then t.live else (ptr, size) :: t.live⟩,
      by rw [procCall, hframed t ht, ok_bind], rfl, ?_, fun x hx => ?_⟩
    · show (if ptr = 0 then t.live else (ptr, size) :: t.live) = _
      rw [ht.live]
    · exact Set.piecewise_eq_of_mem _ _ _ hx

/-- `sys_free` by a process, of an allocation in its own heap. -/
theorem Owns.free_own (h : Owns procs p s own inh ownLive inhLive fl) (hp : kernelBase ≤ p)
    {a : Nat × Nat} (ha : a ∈ ownLive) (hrun : procCall poolSize p s (.free a.1) = .ok s') :
    (∃ own' ownLive' inhLive' fl', Owns procs p s' own' inh ownLive' inhLive' fl') ∧
      CallLocal poolSize p s (.free a.1) s' := by
  classical
  rcases sysFreeUser_inv h.heap ha with ⟨h', fl', hcall, hinv⟩
  -- The call reads and writes only words of this process, whatever the others hold.
  have hframed : ∀ t, Agrees p s t → sysFreeUser t.heap a.1 =
      .ok (h'.framed (ownWords p) t.heap.mem inh) := by
    intro t ht
    exact (congrArg (fun g => sysFreeUser g a.1) (h.framed ht)).trans
      (sysFreeUser_framed h.heap h.covers ha hcall)
  have hout : ∀ x, x ∉ ownWords p → h'.mem x = s.heap.mem x :=
    fun x hx => sysFreeUser_outside h.heap h.covers ha hcall hx
  have hmem : (ownWords p).piecewise h'.mem s.heap.mem = h'.mem := piecewise_eq_self hout
  rw [procCall, hframed s (Agrees.refl p s), ok_bind, Heap.framed, hmem] at hrun
  cases hrun
  -- The headers of the inherited arenas are not among the words it writes.
  have hkeep : ∀ r, r ∈ inh → h'.mem r.1 = s.heap.mem r.1 := by
    intro r hr
    refine sysFreeUser_outside h.heap (h.covers_but_inh hp) ha hcall (fun hx => hx r hr ?_)
    exact h.header_in_run hr
  have hafter := h.runs_after (g := 0) (n := 0) hinv
    (fun r hr => Or.inl (sysFreeUser_runs hcall hr))
  have hinh := h.inherited_keep hkeep
  refine ⟨⟨h'.runs, _, inhLive.filter (fun a' => a'.1 ≠ a.1), fl', rfl, ?_, hinv, hafter.1, hafter.2,
    hinh.1, fun a' ha' => hinh.2 a' (List.mem_of_mem_filter ha')⟩, hout, ?_⟩
  · show s.live.filter (fun a' => a'.1 ≠ a.1) = _
    rw [h.live, List.filter_append]
  · intro t ht
    refine ⟨⟨h'.framed (ownWords p) t.heap.mem inh, t.live.filter (fun a' => a'.1 ≠ a.1)⟩,
      by rw [procCall, hframed t ht, ok_bind], rfl, ?_, fun x hx => ?_⟩
    · show t.live.filter _ = _
      rw [ht.live]
    · exact Set.piecewise_eq_of_mem _ _ _ hx

/-- Two runs of a process that begin at one address are one. -/
theorem Owns.run_eq (h : Owns procs p s own inh ownLive inhLive fl) {r r' : Nat × Nat}
    (hr : r ∈ s.heap.runs) (hr' : r' ∈ s.heap.runs) (heq : r.1 = r'.1) : r = r' := by
  by_contra hne
  have hap : RunsApart r r' := h.apart.forall hr hr' hne
  have hplace := h.place r hr
  have hplace' := h.place r' hr'
  unfold RunsApart at hap
  unfold UserRun at hplace hplace'
  omega

/-- `sys_free` by a process, of a large allocation it inherited. -/
theorem Owns.free_inherited (h : Owns procs p s own inh ownLive inhLive fl) {a r : Nat × Nat}
    (hr : r ∈ inh) (haddr : a.1 = r.1 + 12)
    (hlarge : s.heap.mem r.1 = 0 ∧ s.heap.mem (r.1 + 8) = 1)
    (hrun : procCall poolSize p s (.free a.1) = .ok s') :
    (∃ inh' ownLive' inhLive', Owns procs p s' own inh' ownLive' inhLive' fl) ∧
      CallLocal poolSize p s (.free a.1) s' := by
  have hplace := h.place r (h.mem_inh hr)
  unfold UserRun at hplace
  have hbase : kernelBase = 0xc0000000 := rfl
  have harena : block2arena a.1 = r.1 := by
    rw [haddr, block2arena_eq (by omega)]
    omega
  have hcall : ∀ t, Agrees p s t → sysFreeUser t.heap a.1 = freeRun t.heap r.1 (s.heap.mem (r.1 + 4)) := by
    intro t ht
    have h0 := ht.mem r.1 (Or.inl (by omega))
    have h4 := ht.mem (r.1 + 4) (Or.inl (by omega))
    have h8 := ht.mem (r.1 + 8) (Or.inl (by omega))
    rw [sysFreeUser, ensure_pos (show a.1 ≠ 0 by omega), ok_bind, harena]
    dsimp only
    rw [h0, h4, h8, ensure_pos (Or.inr hlarge.2), ok_bind, if_pos hlarge]
  rw [procCall, hcall s (Agrees.refl p s)] at hrun
  rcases bind_eq_ok.mp hrun with ⟨h', hfree, hs'⟩
  rcases bind_eq_ok.mp hfree with ⟨_, hensure, hh⟩
  have hmem := ensure_eq_ok.mp hensure
  have hreq : (r.1, s.heap.mem (r.1 + 4)) = r := h.run_eq hmem (h.mem_inh hr) rfl
  rw [hreq] at hmem hh
  cases hh
  cases hs'
  have hnot : r ∉ own := by
    intro hown
    have hap := h.own_inh hown hr
    unfold RunsApart at hap
    omega
  have herase : s.heap.runs.erase r = own ++ inh.erase r := by
    rw [h.runs, List.erase_append_right _ hnot]
  have hsub : ∀ r', r' ∈ s.heap.runs.erase r → r' ∈ s.heap.runs := fun r' hr' => List.mem_of_mem_erase hr'
  refine ⟨⟨inh.erase r, ownLive.filter (fun a' => a'.1 ≠ a.1), inhLive.filter (fun a' => a'.1 ≠ a.1),
    herase, ?_, ?_, fun r' hr' => h.place r' (hsub r' hr'), h.apart.sublist List.erase_sublist,
    fun r' hr' => h.header r' (List.mem_of_mem_erase hr'), ?_⟩, fun _ _ => rfl, ?_⟩
  · show s.live.filter (fun a' => a'.1 ≠ a.1) = _
    rw [h.live, List.filter_append]
  · exact ⟨h.heap.lists, h.heap.counted, h.heap.used,
      fun a' ha' => h.heap.live a' (List.mem_of_mem_filter ha'), nodup_filter_live h.heap a.1⟩
  · intro a' ha'
    rw [List.mem_filter, decide_eq_true_eq] at ha'
    rcases h.inherited a' ha'.1 with ⟨r', hr', h1, h2, h3, h4⟩
    -- The freed run held one allocation, which is no longer among the others.
    have hne : r' ≠ r := by
      rintro rfl
      exact ha'.2 ((h4 hlarge.1).trans haddr.symm)
    exact ⟨r', (List.mem_erase_of_ne hne).mpr hr', h1, h2, h3, h4⟩
  · intro t ht
    have hmem' : (r.1, s.heap.mem (r.1 + 4)) ∈ t.heap.runs := by
      rw [hreq, ht.runs]
      exact hmem
    refine ⟨⟨⟨t.heap.mem, t.heap.runs.erase r⟩, t.live.filter (fun a' => a'.1 ≠ a.1)⟩, ?_, ?_, ?_, ht.mem⟩
    · rw [procCall, hcall t ht, freeRun, ensure_pos hmem', ok_bind, ok_bind, hreq]
    · show t.heap.runs.erase r = s.heap.runs.erase r
      rw [ht.runs]
    · show t.live.filter _ = _
      rw [ht.live]

/-- A write by the program, inside its allocations or outside its heap. -/
theorem Owns.write (h : Owns procs p s own inh ownLive inhLive fl) (hp : kernelBase ≤ p) {x v : Nat}
    (hx : x < kernelBase) (hc : callKeepsToOwn p s (.write x v))
    (hrun : procCall poolSize p s (.write x v) = .ok s') :
    Owns procs p s' own inh ownLive inhLive fl ∧ CallLocal poolSize p s (.write x v) s' := by
  cases hrun
  have hdesc : ¬ (p ≤ x ∧ x < p + 168) := by omega
  -- The address is neither a word of the own heap nor a header of an inherited
  -- run: an allocation lies behind its header, and the rest outside all runs.
  have hok : ¬ HeapLists.Owned p own fl x ∧ ∀ r, r ∈ inh → r.1 ≠ x := by
    rcases hc with ⟨a, ha, hxa⟩ | hout
    · rw [h.live] at ha
      rcases List.mem_append.mp ha with ha | ha
      · refine ⟨(h.heap.live a ha).not_owned h.heap.lists hxa, fun r hr heq => ?_⟩
        rcases (h.heap.live a ha).extent with ⟨c, hext, hle⟩
        rcases hext.inside h.heap.lists.arenas with ⟨r', hr', h1, h2⟩
        have hap := h.own_inh hr' hr
        have hplace := h.place r (h.mem_inh hr)
        unfold RunsApart at hap
        unfold UserRun at hplace
        omega
      · rcases h.inherited a ha with ⟨r, hr, h1, h2, h3, _⟩
        constructor
        · refine h.heap.lists.outside_not_owned (fun r' hr' hxr => ?_) hdesc
          have hap := h.own_inh hr' hr
          unfold RunsApart at hap
          omega
        · intro r' hr' heq
          have hplace := h.place r' (h.mem_inh hr')
          unfold UserRun at hplace
          by_cases hrr : r' = r
          · rw [hrr] at heq
            omega
          · have hap : RunsApart r' r := h.apart.forall (h.mem_inh hr') (h.mem_inh hr) hrr
            unfold RunsApart at hap
            omega
    · refine ⟨h.heap.lists.outside_not_owned (fun r hr => hout r (h.mem_own hr)) hdesc, ?_⟩
      intro r hr heq
      exact hout r (h.mem_inh hr) (by rw [← heq]; exact h.header_in_run hr)
  have hinh := h.inherited_keep (m := Function.update s.heap.mem x v)
    (fun r hr => Function.update_of_ne (hok.2 r hr) _ _)
  refine ⟨⟨h.runs, h.live, write_inv h.heap v hok.1, h.place, h.apart, hinh.1, hinh.2⟩, ?_, ?_⟩
  · intro y hy
    refine Function.update_of_ne ?_ _ _
    rintro rfl
    exact hy (Or.inl hx)
  · intro t ht
    refine ⟨_, rfl, ht.runs, ht.live, fun y hy => ?_⟩
    show Function.update t.heap.mem x v y = Function.update s.heap.mem x v y
    by_cases hyx : y = x
    · rw [hyx, Function.update_self, Function.update_self]
    · rw [Function.update_of_ne hyx, Function.update_of_ne hyx]
      exact ht.mem y hy

/-- The descriptors of different processes lie apart. -/
def ProcsApart (procs : List Nat) : Prop :=
  ∀ p q, p ∈ procs → q ∈ procs → p ≠ q → p + 168 ≤ q ∨ q + 168 ≤ p

/-- A call that keeps to the own heap. -/
theorem Owns.call (h : Owns procs p s own inh ownLive inhLive fl) (hmem : p ∈ procs)
    (hp : kernelBase ≤ p) (hap : ProcsApart procs) (hpool : poolSize ≤ 2 ^ 31) {e : HeapEvent}
    (he : callEnabled s.heap e) (hc : callKeepsToOwn p s e) (hrun : procCall poolSize p s e = .ok s') :
    (∃ own' inh' ownLive' inhLive' fl', Owns procs p s' own' inh' ownLive' inhLive' fl') ∧
      CallLocal poolSize p s e s' := by
  cases e with
  | malloc size pg =>
      rcases h.malloc hp hpool he hrun with ⟨⟨own', live', fl', hown⟩, hlocal⟩
      exact ⟨⟨own', inh, live', inhLive, fl', hown⟩, hlocal⟩
  | write x v =>
      rcases h.write hp he hc hrun with ⟨hown, hlocal⟩
      exact ⟨⟨own, inh, ownLive, inhLive, fl, hown⟩, hlocal⟩
  | free ptr =>
      rcases hc with ⟨⟨size, hlive⟩, hkind⟩
      rw [h.live] at hlive
      rcases List.mem_append.mp hlive with hlive | hlive
      · rcases h.free_own hp hlive hrun with ⟨⟨own', live', inhLive', fl', hown⟩, hlocal⟩
        exact ⟨⟨own', inh, live', inhLive', fl', hown⟩, hlocal⟩
      · rcases h.inherited _ hlive with ⟨r, hr, h1, h2, h3, h4⟩
        have hplace := h.place r (h.mem_inh hr)
        have hbase : kernelBase = 0xc0000000 := rfl
        unfold UserRun at hplace
        -- An inherited allocation is the first of its run, or a block of an arena.
        have harena : block2arena ptr = r.1 := by
          dsimp only at h1 h2
          rw [block2arena_eq (by omega)]
          omega
        rw [harena] at hkind
        rcases hkind with hlarge | ⟨k, hk, hdesc⟩
        · rcases h.free_inherited (a := (ptr, size)) hr (h4 hlarge.1) hlarge hrun with
            ⟨⟨inh', live', inhLive', hown⟩, hlocal⟩
          exact ⟨⟨own, inh', live', inhLive', fl, hown⟩, hlocal⟩
        · -- An inherited arena names a descriptor of another process.
          exfalso
          unfold descAt at hdesc
          rcases h.header r hr with hz | ⟨q, hq, hne, hq1, hq2⟩
          · omega
          · have hapart := hap q p hq hmem hne
            omega

/-- The invariant of a process in a state in which its heap is the same. -/
theorem Owns.agree (h : Owns procs p s own inh ownLive inhLive fl) {t : HeapState}
    (ht : Agrees p s t) {procs' : List Nat} (hsub : ∀ q, q ∈ procs → q ∈ procs') :
    Owns procs' p t own inh ownLive inhLive fl := by
  have huser : ∀ r, r ∈ s.heap.runs → t.heap.mem r.1 = s.heap.mem r.1 := by
    intro r hr
    have hplace := h.place r hr
    unfold UserRun at hplace
    exact ht.mem r.1 (Or.inl (by omega))
  have hkeep := h.inherited_keep (fun r hr => huser r (h.mem_inh hr))
  refine ⟨ht.runs.trans h.runs, ht.live.trans h.live, h.heap.congr (fun x hx => ?_), ?_, ?_, ?_, hkeep.2⟩
  · exact ht.mem x (h.covers.owned h.heap.lists hx)
  · intro r hr
    rw [ht.runs] at hr
    exact h.place r hr
  · rw [ht.runs]
    exact h.apart
  · intro r hr
    rcases hkeep.1 r hr with hz | ⟨q, hq, hne, hin⟩
    · exact Or.inl hz
    · exact Or.inr ⟨q, hsub q hq, hne, hin⟩

/-- The invariant of all processes. -/
structure HeapsInv (s : UserHeaps) : Prop where
  place : ∀ p, p ∈ s.procs → kernelBase ≤ p
  apart : ProcsApart s.procs
  owns : ∀ p, p ∈ s.procs → ∃ own inh ownLive inhLive fl,
    Owns s.procs p (procHeap s p) own inh ownLive inhLive fl

section Steps

variable {s s' : UserHeaps} {c : Nat}

/-- A new process leaves the others their heaps. -/
theorem addProc_agrees (hf : FreshPcb s c) (hp : p ∈ s.procs) (user : Nat → Nat)
    (runs live : List (Nat × Nat)) :
    Agrees p (procHeap s p) (procHeap (addProc s c user runs live) p) := by
  have hap := hf.2.2 p hp
  have hne : p ≠ c := by omega
  refine ⟨Function.update_of_ne hne _ _, Function.update_of_ne hne _ _, fun x hx => ?_⟩
  show (if x < kernelBase then Function.update s.user c user p x else blockDescInit s.kernel c x) =
    if x < kernelBase then s.user p x else s.kernel x
  rw [Function.update_of_ne hne]
  by_cases hlow : x < kernelBase
  · rw [if_pos hlow, if_pos hlow]
  · rw [if_neg hlow, if_neg hlow]
    have hdesc := (mem_ownWords.mp hx).resolve_left hlow
    exact (blockDescLoop_spec 7 s.kernel c 16).1 x (by omega)

theorem procHeap_addProc (user : Nat → Nat) (runs live : List (Nat × Nat)) :
    procHeap (addProc s c user runs live) c =
      ⟨⟨fun x => if x < kernelBase then user x else blockDescInit s.kernel c x, runs⟩, live⟩ := by
  simp only [procHeap, addProc, Function.update_self]

/-- A new process has an empty heap, and inherited the rest. -/
theorem addProc_owns (hf : FreshPcb s c) {user : Nat → Nat} {runs live : List (Nat × Nat)}
    (hplace : ∀ r, r ∈ runs → UserRun r) (hap : runs.Pairwise RunsApart)
    (hheader : ∀ r, r ∈ runs → ForeignHeader (c :: s.procs) c (user r.1))
    (hlive : ∀ a, a ∈ live → InheritedAt user runs a) :
    Owns (c :: s.procs) c (procHeap (addProc s c user runs live) c) [] runs [] live (fun _ => []) := by
  -- The arenas of the parent are in user memory, which the descriptors do not touch.
  have huser : ∀ r, r ∈ runs → r.1 < kernelBase := by
    intro r hr
    have hp := hplace r hr
    unfold UserRun at hp
    omega
  rw [procHeap_addProc]
  refine ⟨rfl, rfl, ?_, hplace, hap, ?_, ?_⟩
  · refine (blockDescInit_inv s.kernel).congr (fun x hx => if_neg ?_)
    have hbase := hf.1
    rcases hx with hd | ⟨r, hr, _⟩ | ⟨k, _, b, hb, _⟩
    · omega
    · exact absurd hr List.not_mem_nil
    · exact absurd hb List.not_mem_nil
  · intro r hr
    dsimp only
    rw [if_pos (huser r hr)]
    exact hheader r hr
  · intro a ha
    rcases hlive a ha with ⟨r, hr, h1, h2, h3, h4⟩
    refine ⟨r, hr, h1, h2, h3, ?_⟩
    dsimp only
    rw [if_pos (huser r hr)]
    exact h4

/-- What a process has can be inherited. -/
theorem Owns.inherit {t : HeapState} (h : Owns procs p t own inh ownLive inhLive fl) (hp : p ∈ procs)
    (hbase : kernelBase ≤ p) (hc : ∀ q, q ∈ procs → q ≠ c) :
    (∀ r, r ∈ t.heap.runs → ForeignHeader (c :: procs) c (t.heap.mem r.1)) ∧
      ∀ a, a ∈ t.live → InheritedAt t.heap.mem t.heap.runs a := by
  have hcons : ∀ q, q ∈ procs → q ∈ c :: procs := fun q hq => List.mem_cons_of_mem c hq
  constructor
  · -- The child's descriptors are in its own PCB, so no header it has inherited names them.
    intro r hr
    rw [h.runs] at hr
    rcases List.mem_append.mp hr with hr | hr
    · rcases h.heap.lists.arenas.kind r hr with ⟨k, hk, hs⟩ | hlarge
      · refine Or.inr ⟨p, hcons p hp, hc p hp, ?_⟩
        rw [show t.heap.mem r.1 = descAt p k from hs.2.1]
        unfold descAt
        omega
      · exact Or.inl hlarge.1
    · rcases h.header r hr with hz | ⟨q, hq, _, hin⟩
      · exact Or.inl hz
      · exact Or.inr ⟨q, hcons q hq, hc q hq, hin⟩
  · intro a ha
    rw [h.live] at ha
    rcases List.mem_append.mp ha with ha | ha
    · rcases h.heap.live a ha with ⟨r, hr, k, hk, hs, hblk, hsize, _⟩ | ⟨r, hr, hlarge, haddr, hsize⟩
      · have hb := hblk.bounds
        have hpos := blockSize_pos k
        have hlen : r.2 = 1 := hs.1
        have hdesc : t.heap.mem r.1 = descAt p k := hs.2.1
        refine ⟨r, h.mem_own hr, hb.1, by omega, by omega, fun hz => ?_⟩
        have hkb : kernelBase = 0xc0000000 := rfl
        unfold descAt at hdesc
        omega
      · have hplace := h.place r (h.mem_own hr)
        unfold UserRun at hplace
        exact ⟨r, h.mem_own hr, by omega, by omega, by omega, fun _ => haddr⟩
    · rcases h.inherited a ha with ⟨r, hr, hrest⟩
      exact ⟨r, h.mem_inh hr, hrest⟩

/-- Adding a process keeps the invariant. -/
theorem HeapsInv.addProc (hi : HeapsInv s) (hf : FreshPcb s c) {user : Nat → Nat}
    {runs live : List (Nat × Nat)}
    (hnew : Owns (c :: s.procs) c (procHeap (addProc s c user runs live) c) [] runs [] live
      (fun _ => [])) : HeapsInv (ForikOS.addProc s c user runs live) := by
  refine ⟨?_, ?_, ?_⟩
  · intro p hp
    rcases List.mem_cons.mp hp with rfl | hp
    · exact hf.1
    · exact hi.place p hp
  · intro p q hp hq hne
    rcases List.mem_cons.mp hp with rfl | hp'
    · rcases List.mem_cons.mp hq with rfl | hq'
      · exact absurd rfl hne
      · exact hf.2.2 q hq'
    · rcases List.mem_cons.mp hq with rfl | hq'
      · exact (hf.2.2 p hp').symm
      · exact hi.apart p q hp' hq' hne
  · intro p hp
    rcases List.mem_cons.mp hp with rfl | hp
    · exact ⟨_, _, _, _, _, hnew⟩
    · rcases hi.owns p hp with ⟨own, inh, ol, il, fl, hown⟩
      exact ⟨own, inh, ol, il, fl,
        hown.agree (addProc_agrees hf hp user runs live) (fun q hq => List.mem_cons_of_mem c hq)⟩

theorem procHeap_setProcHeap (h : HeapState) : procHeap (setProcHeap s p h) p = h := by
  have hmem : (fun x => if x < kernelBase then
      (if x < kernelBase then h.heap.mem x else s.user p x) else
      (if x < kernelBase then s.kernel x else h.heap.mem x)) = h.heap.mem := by
    funext x
    by_cases hx : x < kernelBase
    · rw [if_pos hx, if_pos hx]
    · rw [if_neg hx, if_neg hx]
  simp only [procHeap, setProcHeap, Function.update_self, hmem]

/-- A call that changes only words of its process leaves the others their
    heaps. -/
theorem setProcHeap_agrees {q : Nat} {h : HeapState} (hne : q ≠ p)
    (hap : q + 168 ≤ p ∨ p + 168 ≤ q)
    (hframe : ∀ x, x ∉ ownWords p → h.heap.mem x = (procHeap s p).heap.mem x) :
    Agrees q (procHeap s q) (procHeap (setProcHeap s p h) q) := by
  refine ⟨Function.update_of_ne hne _ _, Function.update_of_ne hne _ _, fun x hx => ?_⟩
  show (if x < kernelBase then Function.update s.user p _ q x else
    if x < kernelBase then s.kernel x else h.heap.mem x) =
    if x < kernelBase then s.user q x else s.kernel x
  rw [Function.update_of_ne hne]
  by_cases hlow : x < kernelBase
  · rw [if_pos hlow, if_pos hlow]
  · rw [if_neg hlow, if_neg hlow, if_neg hlow]
    have hdesc := (mem_ownWords.mp hx).resolve_left hlow
    have hout : x ∉ ownWords p := by
      rw [mem_ownWords]
      omega
    exact (hframe x hout).trans (if_neg hlow)

/-- One step: what `p` does not do leaves its heap the same, and what it does
    can be done in every state in which its heap is the same. -/
theorem HeapsInv.step (hi : HeapsInv s) (hpool : poolSize ≤ 2 ^ 31) {e : UserEvent}
    (he : userEnabled s e) (hc : KeepsToOwn s e) (hrun : userStep poolSize s e = .ok s') :
    HeapsInv s' ∧ (∀ p, p ∈ s.procs → p ∈ s'.procs) ∧
      ∀ p, p ∈ s.procs →
        ((∀ c, e ≠ .call p c) → Agrees p (procHeap s p) (procHeap s' p)) ∧
        ∀ c, e = .call p c → CallLocal poolSize p (procHeap s p) c (procHeap s' p) := by
  cases e with
  | create c user =>
      cases hrun
      refine ⟨hi.addProc he (addProc_owns he ?_ List.Pairwise.nil ?_ ?_),
        fun p hp => List.mem_cons_of_mem c hp, fun p hp => ⟨fun _ => addProc_agrees he hp _ _ _, ?_⟩⟩
      · exact fun r hr => absurd hr List.not_mem_nil
      · exact fun r hr => absurd hr List.not_mem_nil
      · exact fun a ha => absurd ha List.not_mem_nil
      · intro _ hcall
        cases hcall
  | fork q c =>
      cases hrun
      rcases he with ⟨hq, hf⟩
      rcases hi.owns q hq with ⟨own, inh, ol, il, fl, hown⟩
      have hne : ∀ q', q' ∈ s.procs → q' ≠ c := by
        intro q' hq'
        have hap := hf.2.2 q' hq'
        omega
      have hinherit := hown.inherit hq (hi.place q hq) hne
      -- The user half of the child is a copy, so the headers are the same.
      have huser : ∀ r, r ∈ s.runs q → (procHeap s q).heap.mem r.1 = s.user q r.1 := by
        intro r hr
        have hplace := hown.place r hr
        unfold UserRun at hplace
        exact if_pos (by omega)
      refine ⟨hi.addProc hf (addProc_owns hf hown.place hown.apart ?_ ?_),
        fun p hp => List.mem_cons_of_mem c hp, fun p hp => ⟨fun _ => addProc_agrees hf hp _ _ _, ?_⟩⟩
      · intro r hr
        rw [← huser r hr]
        exact hinherit.1 r hr
      · intro a ha
        rcases hinherit.2 a ha with ⟨r, hr, h1, h2, h3, h4⟩
        exact ⟨r, hr, h1, h2, h3, by rw [← huser r hr]; exact h4⟩
      · intro _ hcall
        cases hcall
  | call q c =>
      rcases he with ⟨hq, he⟩
      rcases bind_eq_ok.mp hrun with ⟨h, hcall, hs'⟩
      cases hs'
      rcases hi.owns q hq with ⟨own, inh, ol, il, fl, hown⟩
      rcases hown.call hq (hi.place q hq) hi.apart hpool he hc hcall with
        ⟨⟨own', inh', ol', il', fl', hown'⟩, hlocal⟩
      -- A call of one process writes its own words only.
      have hother : ∀ p, p ∈ s.procs → p ≠ q →
          Agrees p (procHeap s p) (procHeap (setProcHeap s q h) p) :=
        fun p hp hne => setProcHeap_agrees hne (hi.apart p q hp hq hne) hlocal.frame
      refine ⟨⟨hi.place, hi.apart, fun p hp => ?_⟩, fun p hp => hp, fun p hp => ⟨fun hnot => ?_, ?_⟩⟩
      · by_cases hpq : p = q
        · rw [hpq, procHeap_setProcHeap]
          exact ⟨own', inh', ol', il', fl', hown'⟩
        · rcases hi.owns p hp with ⟨own₂, inh₂, ol₂, il₂, fl₂, hown₂⟩
          exact ⟨own₂, inh₂, ol₂, il₂, fl₂, hown₂.agree (hother p hp hpq) (fun _ h => h)⟩
      · exact hother p hp (fun hc' => hnot c (by rw [hc']))
      · intro c' hc'
        cases hc'
        rw [procHeap_setProcHeap]
        exact hlocal

theorem noProcs_inv (hs : s.procs = []) : HeapsInv s := by
  have hno : ∀ p, p ∉ s.procs := by
    intro p
    rw [hs]
    exact List.not_mem_nil
  exact ⟨fun p hp => absurd hp (hno p), fun p _ hp => absurd hp (hno p), fun p hp => absurd hp (hno p)⟩

end Steps

/-- The calls of process `p`. -/
def isCallOf (p : Nat) : UserEvent → Bool
  | .create _ _ => false
  | .fork _ _ => false
  | .call q _ => decide (q = p)

/-- Process `p` has the same heap in two states: the same descriptors, and so
    the same free lists; the same user memory, with the arenas and their
    counters; the same pages and allocations; and the same answers from
    `sys_malloc`. -/
structure SameHeap (poolSize p : Nat) (s t : UserHeaps) : Prop where
  descs : ∀ x, p ≤ x → x < p + 168 → t.kernel x = s.kernel x
  user : ∀ x, x < kernelBase → t.user p x = s.user p x
  runs : t.runs p = s.runs p
  live : t.live p = s.live p
  malloc : ∀ size pg, callEnabled (procHeap s p).heap (.malloc size pg) → ∃ h h' ptr,
    sysMalloc p poolSize (procHeap s p).heap size pg = .ok (h, ptr) ∧
      sysMalloc p poolSize (procHeap t p).heap size pg = .ok (h', ptr)

variable {σ τ : UserHeaps}

theorem Agrees.sameHeap (hi : HeapsInv σ) (hp : p ∈ σ.procs) (hpool : poolSize ≤ 2 ^ 31)
    (ha : Agrees p (procHeap σ p) (procHeap τ p)) : SameHeap poolSize p σ τ := by
  have hbase := hi.place p hp
  refine ⟨?_, ?_, ha.runs, ha.live, ?_⟩
  · intro x h1 h2
    have hx : ¬ x < kernelBase := by omega
    have heq : (if x < kernelBase then τ.user p x else τ.kernel x) =
        if x < kernelBase then σ.user p x else σ.kernel x := ha.mem x (Or.inr ⟨h1, h2⟩)
    rwa [if_neg hx, if_neg hx] at heq
  · intro x hx
    have heq : (if x < kernelBase then τ.user p x else τ.kernel x) =
        if x < kernelBase then σ.user p x else σ.kernel x := ha.mem x (Or.inl hx)
    rwa [if_pos hx, if_pos hx] at heq
  · intro size pg he
    rcases hi.owns p hp with ⟨own, inh, ol, il, fl, hown⟩
    rcases hown.malloc_framed hbase hpool he with ⟨h', ptr, _, _, _, hsame⟩
    exact ⟨_, _, ptr, hsame _ (Agrees.refl p _), hsame _ ha⟩

/-- A call is enabled wherever the process has the same pages. -/
theorem callEnabled_congr {h h' : Heap} {e : HeapEvent} (hruns : h'.runs = h.runs)
    (he : callEnabled h e) : callEnabled h' e := by
  cases e with
  | malloc size pg =>
      refine ⟨he.1, he.2.imp_right (fun hf => ⟨hf.1, hf.2.1, hf.2.2.1, ?_⟩)⟩
      rw [hruns]
      exact hf.2.2.2
  | free ptr => exact trivial
  | write x v => exact he

/-- A run of all processes, and the run in which `p` goes on alone. -/
theorem HeapsInv.run (hpool : poolSize ≤ 2 ^ 31) (es : List UserEvent) (hi : HeapsInv σ)
    (hp : p ∈ σ.procs) (ht : p ∈ τ.procs) (ha : Agrees p (procHeap σ p) (procHeap τ p))
    (hr : ((userHeapSystem poolSize).restrict KeepsToOwn).Runs σ es) :
    (userHeapSystem poolSize).Runs τ (es.filter (isCallOf p)) ∧
      SameHeap poolSize p ((userHeapSystem poolSize).after σ es)
        ((userHeapSystem poolSize).after τ (es.filter (isCallOf p))) := by
  -- The induction is on the run. The other processes drop out on the right.
  induction es generalizing σ τ with
  | nil => exact ⟨trivial, ha.sameHeap hi hp hpool⟩
  | cons e es ih =>
      rcases hr with ⟨⟨he, hc⟩, hok, hrest⟩
      have hσ : userStep poolSize σ e = .ok ((userHeapSystem poolSize).next σ e) :=
        (userHeapSystem poolSize).step_next hok
      rcases hi.step hpool he hc hσ with ⟨hi', hmem, hview⟩
      rw [System.after_cons]
      by_cases hcall : ∃ c, e = .call p c
      · rcases hcall with ⟨c, rfl⟩
        rcases ((hview p hp).2 c rfl).same _ ha with ⟨h, hrun, ha'⟩
        have hτ : userStep poolSize τ (.call p c) = .ok (setProcHeap τ p h) := by
          rw [userStep, hrun, ok_bind]
        have hnext : (userHeapSystem poolSize).next τ (.call p c) = setProcHeap τ p h :=
          System.next_ok _ hτ
        rw [← procHeap_setProcHeap (s := τ) (p := p) h] at ha'
        have hrec := ih hi' (hmem p hp) (τ := setProcHeap τ p h) ht ha' hrest
        rw [List.filter_cons_of_pos (show isCallOf p (.call p c) = true from decide_eq_true rfl)]
        refine ⟨⟨⟨ht, callEnabled_congr ha.runs he.2⟩, ?_, ?_⟩, ?_⟩
        · rw [show (userHeapSystem poolSize).step τ (.call p c) = _ from hτ]
          rfl
        · rw [hnext]
          exact hrec.1
        · rw [System.after_cons, hnext]
          exact hrec.2
      · -- A step of somebody else: only the left run moves, and the heap is the same.
        have hnot : ¬ isCallOf p e = true := by
          intro htrue
          cases e with
          | create _ _ => cases htrue
          | fork _ _ => cases htrue
          | call q c => exact hcall ⟨c, by rw [of_decide_eq_true htrue]⟩
        have hkeep := (hview p hp).1 (fun c hc' => hcall ⟨c, hc'⟩)
        rw [List.filter_cons_of_neg hnot]
        exact ih hi' (hmem p hp) ht
          ⟨ha.runs.trans hkeep.runs.symm, ha.live.trans hkeep.live.symm,
            fun x hx => (ha.mem x hx).trans (hkeep.mem x hx).symm⟩ hrest

theorem HeapsInv.reachable (hpool : poolSize ≤ 2 ^ 31)
    (hreach : ((userHeapSystem poolSize).restrict KeepsToOwn).Reachable σ) : HeapsInv σ := by
  refine System.invariant_of_step _ HeapsInv (fun s hs => noProcs_inv hs) ?_ σ hreach
  intro s e s' hi he hs
  exact (hi.step hpool he.1 he.2 hs).1

/-- After a fork, in every run in which all processes keep to their own heaps,
    the heaps of parent and child are what they are when that process makes
    its calls alone. -/
theorem user_heaps_isolated (poolSize : Nat) (hpool : poolSize ≤ 32768 * 4096) (s s₁ : UserHeaps)
    (hreach : ((userHeapSystem poolSize).restrict KeepsToOwn).Reachable s) (parent child : Nat)
    (hfork : userEnabled s (.fork parent child))
    (hs₁ : userStep poolSize s (.fork parent child) = .ok s₁) (es : List UserEvent)
    (hruns : ((userHeapSystem poolSize).restrict KeepsToOwn).Runs s₁ es) (p : Nat)
    (hp : p = parent ∨ p = child) :
    (userHeapSystem poolSize).Runs s₁ (es.filter (isCallOf p)) ∧
      SameHeap poolSize p ((userHeapSystem poolSize).after s₁ es)
        ((userHeapSystem poolSize).after s₁ (es.filter (isCallOf p))) := by
  have hsmall : poolSize ≤ 2 ^ 31 := by omega
  have hi := HeapsInv.reachable hsmall hreach
  have hi₁ := (hi.step hsmall hfork trivial hs₁).1
  have hmem : p ∈ s₁.procs := by
    cases hs₁
    rcases hp with rfl | rfl
    · exact List.mem_cons_of_mem _ hfork.1
    · exact List.mem_cons_self
  exact hi₁.run hsmall es hmem hmem (Agrees.refl p _) hruns

/-- No process yet, on a cleared memory. -/
def noProcs : UserHeaps where
  kernel := fun _ => 0
  procs := []
  user := fun _ _ => 0
  runs := fun _ => []
  live := fun _ => []

/-- One process with one allocation of 1000 bytes, at `0x805000c`. -/
def oneBlock : UserHeaps :=
  (userHeapSystem 0x1000000).after noProcs
    [.create 0xc0200000 (fun _ => 0), .call 0xc0200000 (.malloc 1000 0x8050000)]

/-- The process has forked. -/
def oneBlockForked : UserHeaps :=
  addProc oneBlock 0xc0201000 (oneBlock.user 0xc0200000) (oneBlock.runs 0xc0200000)
    (oneBlock.live 0xc0200000)

theorem oneBlock_reachable :
    ((userHeapSystem 0x1000000).restrict KeepsToOwn).Reachable oneBlock := by
  refine System.reachable_after _ _ (System.Reachable.init noProcs rfl) ⟨⟨?_, trivial⟩, rfl,
    ⟨⟨List.mem_cons_self, by decide, Or.inr ?_⟩, trivial⟩, by decide +kernel, trivial⟩
  · exact ⟨by decide, by decide, fun q hq => absurd hq List.not_mem_nil⟩
  · exact ⟨by decide, by decide, by decide, fun r hr => absurd hr List.not_mem_nil⟩

theorem oneBlock_fork : userEnabled oneBlock (.fork 0xc0200000 0xc0201000) := by
  refine ⟨by decide +kernel, by decide, by decide, ?_⟩
  have hprocs : oneBlock.procs = [0xc0200000] := by decide +kernel
  intro q hq
  rw [hprocs, List.mem_singleton] at hq
  exact Or.inr (by omega)

/-- `user_heaps_isolated` for a child that allocates. -/
theorem user_heaps_isolated_child_malloc :
    SameHeap 0x1000000 0xc0200000
      ((userHeapSystem 0x1000000).after oneBlockForked [.call 0xc0201000 (.malloc 1000 0x8060000)])
      oneBlockForked := by
  refine (user_heaps_isolated 0x1000000 (by decide) oneBlock oneBlockForked oneBlock_reachable
    0xc0200000 0xc0201000 oneBlock_fork rfl [.call 0xc0201000 (.malloc 1000 0x8060000)]
    ⟨⟨⟨List.mem_cons_self, by decide, Or.inr ?_⟩, trivial⟩, by decide +kernel, trivial⟩ 0xc0200000
    (Or.inl rfl)).2
  have hruns : oneBlockForked.runs 0xc0201000 = [(0x8050000, 1)] := by decide +kernel
  refine ⟨by decide, by decide, by decide, fun r hr => Or.inr ?_⟩
  have hr' : r ∈ oneBlockForked.runs 0xc0201000 := hr
  rw [hruns, List.mem_singleton] at hr'
  rw [hr']
  decide

/-- A child that frees the block it inherited empties the list of its parent:
    the first link of the parent's list for blocks of 1024 bytes led to a free
    block, and leads to the end of the list after the call. -/
theorem child_free_changes_parent :
    (userHeapSystem 0x1000000).Reachable oneBlock ∧
      userStep 0x1000000 oneBlock (.fork 0xc0200000 0xc0201000) = .ok oneBlockForked ∧
      (userHeapSystem 0x1000000).Runs oneBlockForked [.call 0xc0201000 (.free 0x805000c)] ∧
      ¬ SameHeap 0x1000000 0xc0200000
        ((userHeapSystem 0x1000000).after oneBlockForked [.call 0xc0201000 (.free 0x805000c)])
        oneBlockForked := by
  refine ⟨System.reachable_of_restrict _ _ _ oneBlock_reachable, rfl,
    ⟨⟨by decide +kernel, trivial⟩, by decide +kernel, trivial⟩, fun hsame => ?_⟩
  have hbefore : oneBlockForked.kernel 0xc020009c = 0x805040c := by decide +kernel
  have hafter : ((userHeapSystem 0x1000000).after oneBlockForked
      [.call 0xc0201000 (.free 0x805000c)]).kernel 0xc020009c = 0xc02000a0 := by decide +kernel
  have heq := hsame.descs 0xc020009c (by decide) (by decide)
  rw [hbefore, hafter] at heq
  exact absurd heq (by decide)

end ForikOS
