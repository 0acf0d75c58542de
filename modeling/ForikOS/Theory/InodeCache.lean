import ForikOS.Theory.InodeTable

/-!
# The List of Open Inodes as a Cache

`inode_open` keeps one object for every number that is open, and `inode_close`
throws the object away with the last of its holders. A run of opens and closes
is recorded with what is outstanding: a number and the object it was opened as,
once for every open that has not been closed. `InodeCache` is what the list has
to do with that record.

The calls are not interrupted, but between two of them anything may be stored:
the disk changes, and the sizes and blocks of the inodes in memory. So what an
open returns of a number that nobody has open is what its record says by then,
not what it said when it was opened before.

The count has 32 bits and `inode_open` does not look at it. The condition on a
run is therefore how many opens of one number are outstanding at a time, and
without it the count comes round to zero with 2 ^ 32 holders left.

## Main definitions

* `held`: How many opens of a number are outstanding.
* `CacheRun`: A run of opens and closes with what is outstanding after it.
* `InodeCache`: The list of open inodes is the cache of what is outstanding.

## Theorems

* `cache_opened`, `cache_closed`, `cache_stored`: What each step keeps.
* `inode_cache_counts`: Every run, as long as the counts have room.
* `count_comes_round`: A run without room.
-/

namespace ForikOS

open Prog

/-- How many opens of number `n` are outstanding. -/
def held (o : List (Nat × Nat)) (n : Nat) : Nat := (o.map Prod.fst).count n

/-- The run of some opens and closes, each close of something outstanding, from
    a list without inodes on. An opened number has its own record in the table,
    and the number of its outstanding opens is one `P` allows. -/
inductive CacheRun (P : Nat → Prop) (s₀ : Fs) : Fs → List (Nat × Nat) → Prop
  | start (empty : s₀.part.openInodes = []) : CacheRun P s₀ s₀ []
  | opened {s s' : Fs} {o : List (Nat × Nat)} {t n a : Nat} (prev : CacheRun P s₀ s o)
      (slot : (diskInode s n).iNo = n) (room : P (held o n + 1))
      (run : (inodeOpen t n).run s = .ok (a, s')) : CacheRun P s₀ s' ((n, a) :: o)
  | closed {s s' : Fs} {o o' : List (Nat × Nat)} {t n a : Nat} (prev : CacheRun P s₀ s o)
      (outstanding : o.Perm ((n, a) :: o')) (run : (inodeClose t a).run s = .ok ((), s')) :
      CacheRun P s₀ s' o'
  | stored {s s' : Fs} {o : List (Nat × Nat)} (prev : CacheRun P s₀ s o) (kept : Stored s s') :
      CacheRun P s₀ s' o

/-- The list of open inodes is the cache of what is outstanding: it has the
    objects that are outstanding, each once and for one number, with their
    counts, and every number is outstanding as one object. -/
structure InodeCache (s : Fs) (o : List (Nat × Nat)) : Prop where
  listed : ∀ a, a ∈ s.part.openInodes ↔ ∃ n, (n, a) ∈ o
  nodup : s.part.openInodes.Nodup
  once : ∀ a b, a ∈ s.part.openInodes → b ∈ s.part.openInodes →
    (s.inode a).iNo = (s.inode b).iNo → a = b
  count : ∀ a, a ∈ s.part.openInodes → (s.inode a).iOpenCnts = held o (s.inode a).iNo
  number : ∀ n a, (n, a) ∈ o → (s.inode a).iNo = n
  same : ∀ n a b, (n, a) ∈ o → (n, b) ∈ o → a = b

/-- How many opens are outstanding as the object `a`. -/
def holders (o : List (Nat × Nat)) (a : Nat) : Nat := (o.map Prod.snd).count a

/-- What a run keeps: the list agrees with the holders, the objects lie in the
    kernel, and numbers and objects belong together. -/
structure CacheInv (s : Fs) (o : List (Nat × Nat)) : Prop where
  ledger : Ledger (holders o) s
  kernel : ∀ a, a ∈ s.part.openInodes → s.home a = .kernel
  number : ∀ n a, (n, a) ∈ o → (s.inode a).iNo = n
  same : ∀ n a b, (n, a) ∈ o → (n, b) ∈ o → a = b
  room : ∀ n, held o n < 2 ^ 32

section Holders

variable {o o' : List (Nat × Nat)} {n a : Nat}

theorem holders_cons (n a : Nat) (o : List (Nat × Nat)) :
    holders ((n, a) :: o) = bump (holders o) a := by
  funext b
  rw [holders, List.map_cons, List.count_cons]
  by_cases hb : b = a
  · rw [hb, bump_self, beq_self_eq_true, if_pos rfl]
    rfl
  · rw [bump_of_ne hb, if_neg (by rw [beq_iff_eq]; exact fun hc => hb hc.symm)]
    rfl

theorem holders_perm (h : o.Perm ((n, a) :: o')) : holders o' = drop (holders o) a := by
  have hperm : holders o = bump (holders o') a := by
    rw [← holders_cons n a o']
    funext b
    exact (h.map Prod.snd).count_eq b
  rw [hperm, drop_bump]

theorem holders_pos : 0 < holders o a ↔ ∃ n, (n, a) ∈ o := by
  rw [holders, List.count_pos_iff, List.mem_map]
  constructor
  · rintro ⟨⟨n, b⟩, hmem, hb⟩
    exact ⟨n, hb ▸ hmem⟩
  · rintro ⟨n, hmem⟩
    exact ⟨(n, a), hmem, rfl⟩

theorem held_cons (n a m : Nat) (o : List (Nat × Nat)) :
    held ((n, a) :: o) m = held o m + if m = n then 1 else 0 := by
  rw [held, List.map_cons, List.count_cons, held]
  by_cases hm : m = n
  · rw [hm, beq_self_eq_true, if_pos rfl, if_pos rfl]
  · rw [if_neg hm, if_neg (by rw [beq_iff_eq]; exact fun hc => hm hc.symm)]

theorem held_perm (h : o.Perm ((n, a) :: o')) (m : Nat) : held o' m ≤ held o m := by
  have hperm : held o m = held ((n, a) :: o') m := (h.map Prod.fst).count_eq m
  rw [hperm, held_cons]
  omega

/-- The holders of an object are the opens of its number, where numbers and
    objects belong together. -/
theorem holders_eq_held (hn : (n, a) ∈ o) (hsame : ∀ n a b, (n, a) ∈ o → (n, b) ∈ o → a = b)
    (hnum : ∀ m, (m, a) ∈ o → m = n) : holders o a = held o n := by
  unfold holders held
  rw [List.count_eq_countP, List.count_eq_countP, List.countP_map, List.countP_map]
  refine List.countP_congr ?_
  rintro ⟨m, b⟩ hmem
  simp only [Function.comp_apply, beq_iff_eq]
  constructor
  · rintro rfl
    exact hnum m hmem
  · rintro rfl
    exact hsame m b a hmem hn

end Holders

section Steps

variable {s s' : Fs} {o o' : List (Nat × Nat)} {t n a : Nat}

theorem CacheInv.mem (h : CacheInv s o) {m b : Nat} (hb : (m, b) ∈ o) :
    b ∈ s.part.openInodes ∧ b < s.nextInode := by
  have hmem := (h.ledger.listed b).mpr (holders_pos.mpr ⟨m, hb⟩)
  exact ⟨hmem, (h.ledger.there b hmem).2⟩

theorem CacheInv.holders_eq (h : CacheInv s o) {m b : Nat} (hb : (m, b) ∈ o) :
    holders o b = held o m :=
  holders_eq_held hb h.same (fun k hk => (h.number k b hk).symm.trans (h.number m b hb))

theorem CacheInv.cache (h : CacheInv s o) : InodeCache s o where
  listed a := (h.ledger.listed a).trans holders_pos
  nodup := h.ledger.nodup
  once a b ha hb hno := by
    rcases holders_pos.mp ((h.ledger.listed a).mp ha) with ⟨n, hn⟩
    rcases holders_pos.mp ((h.ledger.listed b).mp hb) with ⟨m, hm⟩
    have heq : n = m := by rw [← h.number n a hn, ← h.number m b hm, hno]
    exact h.same n a b hn (heq ▸ hm)
  count a ha := by
    rcases holders_pos.mp ((h.ledger.listed a).mp ha) with ⟨n, hn⟩
    rw [h.ledger.count a ha, h.number n a hn, h.holders_eq hn]
  number := h.number
  same := h.same

/-- An inode of the list that is still there lies where it was. -/
theorem CacheInv.kernel_of (h : CacheInv s o) (hl : Looked s s') {b : Nat}
    (hb : b ∈ s.part.openInodes) (hthere : s'.home b ≠ .freed) : s'.home b = .kernel := by
  rcases hl.home b (h.ledger.there b hb).2 with hsame | hfreed
  · rw [hsame]
    exact h.kernel b hb
  · exact absurd hfreed hthere

/-- What opening returns belongs to its number: it is the object the number is
    outstanding as, if there is one, and a new one with the record of the
    number otherwise. -/
theorem CacheInv.open_result (h : CacheInv s o) (hr : (inodeOpen t n).run s = .ok (a, s')) :
    (∀ b, (n, b) ∈ o → b = a) ∧ ((∀ b, (n, b) ∉ o) → SameFile (s'.inode a) (diskInode s n)) ∧
      s'.home a = .kernel := by
  rcases inodeOpen_run hr with ⟨hmem, hno, -, rfl⟩ | ⟨hnone, hfetch⟩
  · rcases holders_pos.mp ((h.ledger.listed a).mp hmem) with ⟨m, hm⟩
    have hmn : (n, a) ∈ o := by rwa [← h.number m a hm, hno] at hm
    exact ⟨fun b hb => h.same n b a hb hmn, fun hout => absurd hmn (hout a), h.kernel a hmem⟩
  · rcases inodeFetch_run hfetch with ⟨-, -, i, hsame, -, hq⟩
    unfold Quiet at hq
    refine ⟨fun b hb => absurd (h.number n b hb) (hnone b (h.mem hb).1), fun _ => ?_, ?_⟩
    · have hi : s'.inode a = i := by
        rw [hq]
        exact Function.update_self a i s.inode
      rw [hi]
      exact hsame
    · rw [hq]
      exact Function.update_self _ _ _

/-- One open more. -/
theorem cache_opened (h : CacheInv s o) (hslot : (diskInode s n).iNo = n)
    (hroom : held o n + 1 < 2 ^ 32) (hr : (inodeOpen t n).run s = .ok (a, s')) :
    CacheInv s' ((n, a) :: o) := by
  have hl := looked_inodeOpen t n s a s' hr
  rcases h.open_result hr with ⟨hone, hfresh, hkernel⟩
  -- The holders of the object so far are the opens of the number; a new object has none.
  have hcount : holders o a = held o n ∨ holders o a = 0 := by
    by_cases hpos : 0 < holders o a
    · rcases holders_pos.mp hpos with ⟨m, hm⟩
      left
      rcases inodeOpen_run hr with ⟨-, hno, -, -⟩ | ⟨-, hfetch⟩
      · rw [h.holders_eq hm, ← h.number m a hm, hno]
      · have hnew := (inodeFetch_run hfetch).2.1
        exact absurd (h.mem hm).2 (by omega)
    · right
      omega
  have hledger : Ledger (bump (holders o) a) s' := (inodeOpen_bump h.ledger (by omega) hr).1
  rw [← holders_cons n a o] at hledger
  have hnumber : (s'.inode a).iNo = n := by
    by_cases hout : ∃ b, (n, b) ∈ o
    · rcases hout with ⟨b, hb⟩
      have hab := hone b hb
      subst hab
      rw [(hl.old b (h.mem hb).2).iNo]
      exact h.number n b hb
    · rw [(hfresh (fun b hb => hout ⟨b, hb⟩)).iNo]
      exact hslot
  refine ⟨hledger, ?_, ?_, ?_, ?_⟩
  · -- What was in the list lies where it was, and the object of this open in the kernel.
    intro b hb
    by_cases hba : b = a
    · rw [hba]
      exact hkernel
    · rcases holders_pos.mp ((hledger.listed b).mp hb) with ⟨m, hm⟩
      rcases List.mem_cons.mp hm with heq | hm
      · exact absurd (Prod.mk.inj heq).2 hba
      · exact h.kernel_of hl (h.mem hm).1 (hledger.there b hb).1
  · intro m b hm
    rcases List.mem_cons.mp hm with heq | hm
    · rw [(Prod.mk.inj heq).1, (Prod.mk.inj heq).2]
      exact hnumber
    · rw [(hl.old b (h.mem hm).2).iNo]
      exact h.number m b hm
  · -- Two opens of one number have the same object, this one among them.
    intro m b b' hb hb'
    rcases List.mem_cons.mp hb with heq | hb
    · rcases List.mem_cons.mp hb' with heq' | hb'
      · rw [(Prod.mk.inj heq).2, (Prod.mk.inj heq').2]
      · rw [(Prod.mk.inj heq).1] at hb'
        rw [(Prod.mk.inj heq).2, hone b' hb']
    · rcases List.mem_cons.mp hb' with heq' | hb'
      · rw [(Prod.mk.inj heq').1] at hb
        rw [(Prod.mk.inj heq').2, hone b hb]
      · exact h.same m b b' hb hb'
  · intro m
    have hm := h.room m
    rw [held_cons]
    by_cases hmn : m = n
    · rw [hmn, if_pos rfl]
      exact hroom
    · rw [if_neg hmn]
      exact hm

/-- One open less. -/
theorem cache_closed (h : CacheInv s o) (hperm : o.Perm ((n, a) :: o'))
    (hr : (inodeClose t a).run s = .ok ((), s')) : CacheInv s' o' := by
  have hl := looked_inodeClose t a s () s' hr
  have hmem : (n, a) ∈ o := hperm.mem_iff.mpr List.mem_cons_self
  have hsub : ∀ m b, (m, b) ∈ o' → (m, b) ∈ o :=
    fun m b hb => hperm.mem_iff.mpr (List.mem_cons_of_mem _ hb)
  have hcount := h.holders_eq hmem
  have hledger : Ledger (drop (holders o) a) s' :=
    inodeClose_ledger h.ledger (by rw [hcount]; exact h.room n) (holders_pos.mpr ⟨n, hmem⟩) hr
  rw [← holders_perm hperm] at hledger
  refine ⟨hledger, ?_, ?_, fun m b b' hb hb' => h.same m b b' (hsub m b hb) (hsub m b' hb'),
    fun m => Nat.lt_of_le_of_lt (held_perm hperm m) (h.room m)⟩
  · intro b hb
    rcases holders_pos.mp ((hledger.listed b).mp hb) with ⟨m, hm⟩
    exact h.kernel_of hl (h.mem (hsub m b hm)).1 (hledger.there b hb).1
  · intro m b hm
    rw [(hl.old b (h.mem (hsub m b hm)).2).iNo]
    exact h.number m b (hsub m b hm)

/-- What is stored in between. -/
theorem cache_stored (h : CacheInv s o) (hs : Stored s s') : CacheInv s' o where
  ledger := h.ledger.stored hs
  kernel a ha := by
    rw [hs.openInodes] at ha
    rw [hs.home]
    exact h.kernel a ha
  number n a hn := (hs.iNo a).trans (h.number n a hn)
  same := h.same
  room := h.room

theorem cacheInv_start (h : s.part.openInodes = []) : CacheInv s [] where
  ledger := by
    refine ⟨?_, ?_, ?_, ?_⟩
    · intro a ha
      rw [h] at ha
      cases ha
    · rw [h]
      exact List.nodup_nil
    · intro a ha
      rw [h] at ha
      cases ha
    · intro a
      rw [h]
      exact ⟨fun ha => absurd ha List.not_mem_nil, fun ha => absurd ha (Nat.lt_irrefl 0)⟩
  kernel a ha := by
    rw [h] at ha
    cases ha
  number _ _ h := absurd h List.not_mem_nil
  same _ _ _ h := absurd h List.not_mem_nil
  room _ := by
    show 0 < 2 ^ 32
    omega

theorem cacheInv_run {s₀ : Fs} (h : CacheRun (· < 2 ^ 32) s₀ s o) : CacheInv s o := by
  induction h with
  | start empty => exact cacheInv_start empty
  | opened prev slot room run ih => exact cache_opened ih slot room run
  | closed prev outstanding run ih => exact cache_closed ih outstanding run
  | stored prev kept ih => exact cache_stored ih kept

/-- With a table and memory an open returns. -/
theorem CacheInv.open_returns (h : CacheInv s o) (hn : n < 4096) (hfits : TableFits s.part)
    (hmem : s.mallocs 0 = true ∧ s.mallocs 1 = true) :
    ∃ a s', (inodeOpen t n).run s = .ok (a, s') := by
  have hseen : ∀ a, a ∈ s.part.openInodes → s.Sees t a := fun a ha => Or.inl (h.kernel a ha)
  cases hfound : s.part.openInodes.find? (fun a => decide ((s.inode a).iNo = n)) with
  | some a =>
      rw [inodeOpen, run_bind_of (run_read _ s), run_bind_of (run_findOpenInode hseen), hfound]
      exact ⟨a, _, rfl⟩
  | none =>
      have hlist : ∀ a, a ∈ s.part.openInodes → s.Sees t a ∧ (s.inode a).iNo ≠ n :=
        fun a ha => ⟨hseen a ha, by simpa using List.find?_eq_none.mp hfound a ha⟩
      rcases inodeOpen_record hfits hn hlist hmem with ⟨a, s', hrun, -⟩
      exact ⟨a, s', hrun⟩

/-- A close of something outstanding returns. -/
theorem CacheInv.close_returns (h : CacheInv s o) (hout : (n, a) ∈ o) :
    ∃ s', (inodeClose t a).run s = .ok ((), s') := by
  have hmem := (h.mem hout).1
  have hkernel := h.kernel a hmem
  rw [inodeClose, run_bind_of (run_inodeAt (Or.inl hkernel))]
  dsimp only
  rw [setInodeAt, run_bind_of (run_modify _ s)]
  by_cases hz : sub32 (s.inode a).iOpenCnts 1 = 0
  · rw [if_pos hz]
    -- The count is changed, the list and the heap are not.
    have hmem' : a ∈ (s.setInode a { s.inode a with
        iOpenCnts := sub32 (s.inode a).iOpenCnts 1 }).part.openInodes := hmem
    have hkernel' : (s.setInode a { s.inode a with
        iOpenCnts := sub32 (s.inode a).iOpenCnts 1 }).home a = .kernel := hkernel
    generalize s.setInode a { s.inode a with iOpenCnts := sub32 (s.inode a).iOpenCnts 1 } = s₁ at *
    rw [run_bind_of (run_read _ s₁), run_bind_of (run_check_pos (decide_eq_true hmem') s₁),
      run_bind_of (run_read _ s₁), run_bind_of (run_check_pos hkernel' s₁)]
    exact ⟨_, run_modify _ s₁⟩
  · rw [if_neg hz]
    exact ⟨_, rfl⟩

end Steps

/-- In every run in which fewer than 2 ^ 32 opens of a number are outstanding at
    a time, the list of open inodes is the cache of what is outstanding. An open
    returns the object its number is outstanding as, and what the record on the
    disk says if it is not outstanding. It returns if the number is in the table
    and there is memory, and every close returns. -/
theorem inode_cache_counts {s₀ s : Fs} {o : List (Nat × Nat)}
    (h : CacheRun (· < 2 ^ 32) s₀ s o) :
    InodeCache s o ∧
      (∀ t n a s', (inodeOpen t n).run s = .ok (a, s') →
        (∀ b, (n, b) ∈ o → b = a) ∧
          ((∀ b, (n, b) ∉ o) → SameFile (s'.inode a) (diskInode s n))) ∧
      (∀ t n, n < 4096 → TableFits s.part → s.mallocs 0 = true ∧ s.mallocs 1 = true →
        ∃ a s', (inodeOpen t n).run s = .ok (a, s')) ∧
      ∀ t n a, (n, a) ∈ o → ∃ s', (inodeClose t a).run s = .ok ((), s') := by
  have hinv := cacheInv_run h
  refine ⟨hinv.cache, fun t n a s' hr => ?_, fun t n hn hfits hmem => hinv.open_returns hn hfits hmem,
    fun t n a hout => hinv.close_returns hout⟩
  rcases hinv.open_result hr with ⟨hone, hfresh, -⟩
  exact ⟨hone, hfresh⟩

section Examples

/-- One open of record 0 of an empty disk. -/
theorem emptyPart_open : ∃ s a, (inodeOpen 0 0).run emptyPart = .ok (a, s) ∧
    s.part.openInodes = [a] ∧ (s.inode a).iNo = 0 ∧ (s.inode a).iOpenCnts = 1 ∧
    s.home a = .kernel ∧ (diskInode s 0).iNo = 0 := by
  rcases inodeOpen_record (t := 0) emptyPart_fits (n := 0) (by decide)
    (fun a ha => absurd ha List.not_mem_nil) ⟨rfl, rfl⟩ with ⟨a, s, hrun, hsame, hone⟩
  have hl := looked_inodeOpen 0 0 emptyPart a s hrun
  have hdisk : (diskInode s 0).iNo = 0 := by
    rw [hl.diskInode_eq]
    rfl
  refine ⟨s, a, hrun, ?_, hsame.iNo, hone, ?_, hdisk⟩
  · rcases inodeOpen_run hrun with ⟨hmem, -⟩ | ⟨-, hfetch⟩
    · exact absurd hmem List.not_mem_nil
    · rcases inodeFetch_run hfetch with ⟨-, -, i, -, -, hq⟩
      unfold Quiet at hq
      rw [hq]
      rfl
  · exact ((cacheInv_start rfl).open_result hrun).2.2

/-- An empty disk with an inode in record 1. -/
def twoRecords : Fs :=
  emptyPart.setDisk (inodeOff emptyPart.part.sb 1) inodeSize (inodeBytes (smallInode 1))

/-- Record 0 is open. -/
def openedOne : Fs := (inodeOpen 0 0).after twoRecords

/-- Record 1 is open as well. -/
def openedTwo : Fs := (inodeOpen 0 1).after openedOne

/-- Record 0 is open twice. -/
def openedThree : Fs := (inodeOpen 0 0).after openedTwo

/-- One of the two opens of record 0 is closed. -/
theorem inode_cache_counts_shared : ∃ s, CacheRun (· < 2 ^ 32) twoRecords s [(1, 1), (0, 0)] ∧
    InodeCache s [(1, 1), (0, 0)] := by
  have h₁ : CacheRun (· < 2 ^ 32) twoRecords openedOne [(0, 0)] :=
    .opened (.start rfl) (by decide +kernel) (by decide) (run_after (by decide +kernel))
  have h₂ : CacheRun (· < 2 ^ 32) twoRecords openedTwo [(1, 1), (0, 0)] :=
    .opened h₁ (by decide +kernel) (by decide) (run_after (by decide +kernel))
  have h₃ : CacheRun (· < 2 ^ 32) twoRecords openedThree [(0, 0), (1, 1), (0, 0)] :=
    .opened h₂ (by decide +kernel) (by decide) (run_after (by decide +kernel))
  rcases (inode_cache_counts h₃).2.2.2 0 0 0 List.mem_cons_self with ⟨s, hclose⟩
  have hclosed : CacheRun (· < 2 ^ 32) twoRecords s [(1, 1), (0, 0)] :=
    .closed h₃ (List.Perm.refl _) hclose
  exact ⟨s, hclosed, (inode_cache_counts hclosed).1⟩

/-- Any number of opens of record 0: the count is that number in 32 bits. -/
theorem opens_counted (k : Nat) : ∃ s a,
    CacheRun (fun _ => True) emptyPart s (List.replicate (k + 1) (0, a)) ∧
      s.part.openInodes = [a] ∧ (s.inode a).iNo = 0 ∧ (s.inode a).iOpenCnts = (k + 1) % 2 ^ 32 ∧
      s.home a = .kernel ∧ (diskInode s 0).iNo = 0 := by
  induction k with
  | zero =>
      rcases emptyPart_open with ⟨s, a, hrun, hopen, hno, hone, hkernel, hdisk⟩
      exact ⟨s, a, .opened (.start rfl) rfl trivial hrun, hopen, hno, hone, hkernel, hdisk⟩
  | succ k ih =>
      rcases ih with ⟨s, a, hprev, hopen, hno, hcnt, hkernel, hdisk⟩
      have hseen : ∀ b, b ∈ [a] → s.Sees 0 b := fun b hb => by
        rw [List.mem_singleton.mp hb]
        exact Or.inl hkernel
      -- Number 0 is on the list, so the call counts it once more.
      have hrun : (inodeOpen 0 0).run s = .ok (a, s.setInode a
          { s.inode a with iOpenCnts := add32 (s.inode a).iOpenCnts 1 }) := by
        have hfind : [a].find? (fun b => decide ((s.inode b).iNo = 0)) = some a :=
          List.find?_cons_of_pos (decide_eq_true hno)
        rw [inodeOpen, run_bind_of (run_read _ s), hopen, run_bind_of (run_findOpenInode hseen), hfind]
        rfl
      have hself : (s.setInode a { s.inode a with
          iOpenCnts := add32 (s.inode a).iOpenCnts 1 }).inode a =
          { s.inode a with iOpenCnts := add32 (s.inode a).iOpenCnts 1 } :=
        Function.update_self _ _ _
      refine ⟨_, a, .opened hprev hdisk trivial hrun, hopen, ?_, ?_, hkernel, hdisk⟩
      · rw [hself]
        exact hno
      · rw [hself]
        show (_ + 1) % 2 ^ 32 = _
        rw [hcnt]
        omega

/-- After 2 ^ 32 opens of one number its count is zero. -/
theorem count_comes_round :
    ¬ ∀ s₀ s o, CacheRun (fun _ => True) s₀ s o → InodeCache s o := by
  intro h
  rcases opens_counted (2 ^ 32 - 1) with ⟨s, a, hrun, hopen, hno, hcnt, -, -⟩
  have hmem : a ∈ s.part.openInodes := by
    rw [hopen]
    exact List.mem_cons_self
  have hcount := (h _ _ _ hrun).count a hmem
  rw [hcnt, hno, held, List.map_replicate, List.count_replicate_self] at hcount
  omega

end Examples

end ForikOS
