import ForikOS.Theory.FsFrame

/-!
# The Count of an Open Inode

Who holds an open inode is nowhere written down: there is only the count.

A ledger gives for every inode object the number of those that hold it.
`Ledger` says that the list of open inodes agrees with a ledger: the inodes
with a holder are listed, none of them is freed, and their counts are what the
ledger says. `inode_open` is one more holder of the inode it returns
and `inode_close` one less, as long as the count does not wrap around. An
inode that somebody holds is therefore not freed.

The slots of `file_table` hold inodes, and a path that is followed holds one
directory at a time.

## Main definitions

* `Ledger`: The list of open inodes agrees with the ledger.
* `bump`, `drop`: One more holder, one less.
* `holdDir`: The holder that a directory handle is.

## Theorems

* `inodeOpen_ledger`, `inodeClose_ledger`: What the two do to a ledger.
* `searchFile_ledger`: A path that has been followed holds its last directory.
-/

namespace ForikOS

open Prog

/-- One more holder of `a`. -/
def bump (c : Nat → Nat) (a : Nat) : Nat → Nat := Function.update c a (c a + 1)

/-- One holder of `a` less. -/
def drop (c : Nat → Nat) (a : Nat) : Nat → Nat := Function.update c a (c a - 1)

theorem bump_self (c : Nat → Nat) (a : Nat) : bump c a a = c a + 1 := Function.update_self _ _ _

theorem bump_of_ne {c : Nat → Nat} {a b : Nat} (h : b ≠ a) : bump c a b = c b :=
  Function.update_of_ne h _ _

theorem drop_self (c : Nat → Nat) (a : Nat) : drop c a a = c a - 1 := Function.update_self _ _ _

theorem drop_of_ne {c : Nat → Nat} {a b : Nat} (h : b ≠ a) : drop c a b = c b :=
  Function.update_of_ne h _ _

theorem le_bump (c : Nat → Nat) (a b : Nat) : c b ≤ bump c a b := by
  by_cases h : b = a
  · rw [h, bump_self]
    omega
  · exact Nat.le_of_eq (bump_of_ne h).symm

theorem bump_le (c : Nat → Nat) (a b : Nat) : bump c a b ≤ c b + 1 := by
  by_cases h : b = a
  · exact Nat.le_of_eq (h ▸ bump_self c a)
  · rw [bump_of_ne h]
    omega

theorem drop_bump (c : Nat → Nat) (a : Nat) : drop (bump c a) a = c := by
  funext b
  by_cases h : b = a
  · rw [h, drop_self, bump_self, Nat.add_sub_cancel]
  · rw [drop_of_ne h, bump_of_ne h]

/-- The list of open inodes agrees with the ledger `c`. -/
structure Ledger (c : Nat → Nat) (s : Fs) : Prop where
  there : ∀ a, a ∈ s.part.openInodes → s.home a ≠ .freed ∧ a < s.nextInode
  nodup : s.part.openInodes.Nodup
  count : ∀ a, a ∈ s.part.openInodes → (s.inode a).iOpenCnts = c a
  listed : ∀ a, a ∈ s.part.openInodes ↔ 0 < c a

namespace Ledger

variable {c : Nat → Nat} {s s' : Fs}

theorem congr (h : Ledger c s) (hopen : s'.part.openInodes = s.part.openInodes)
    (hnext : s.nextInode ≤ s'.nextInode)
    (hhome : ∀ a, a ∈ s.part.openInodes → s'.home a = s.home a)
    (hcnt : ∀ a, a ∈ s.part.openInodes → (s'.inode a).iOpenCnts = (s.inode a).iOpenCnts) :
    Ledger c s' := by
  refine ⟨?_, ?_, ?_, ?_⟩
  · intro a ha
    rw [hopen] at ha
    rw [hhome a ha]
    exact ⟨(h.there a ha).1, Nat.lt_of_lt_of_le (h.there a ha).2 hnext⟩
  · rw [hopen]
    exact h.nodup
  · intro a ha
    rw [hopen] at ha
    rw [hcnt a ha]
    exact h.count a ha
  · rw [hopen]
    exact h.listed

theorem stored (h : Ledger c s) (hs : Stored s s') : Ledger c s' :=
  h.congr hs.openInodes (Nat.le_of_eq hs.nextInode.symm) (fun a _ => congrFun hs.home a)
    (fun a _ => hs.iOpenCnts a)

theorem quiet (h : Ledger c s) (hq : Quiet s s') : Ledger c s' := by
  unfold Quiet at hq
  rw [hq]
  exact h.congr rfl (Nat.le_refl _) (fun _ _ => rfl) (fun _ _ => rfl)

theorem zero_of_not_listed (h : Ledger c s) {a : Nat} (ha : a ∉ s.part.openInodes) : c a = 0 := by
  have := mt (h.listed a).mpr ha
  omega

theorem not_listed (h : Ledger c s) {a : Nat} (ha : s.nextInode ≤ a) : a ∉ s.part.openInodes :=
  fun hc => absurd (h.there a hc).2 (Nat.not_lt.mpr ha)

/-- A new inode is put on the list with one holder. -/
theorem push (h : Ledger c s) {a : Nat} (ha : a ∉ s.part.openInodes)
    (hopen : s'.part.openInodes = a :: s.part.openInodes) (hnext : s.nextInode ≤ s'.nextInode)
    (hthere : s'.home a ≠ .freed ∧ a < s'.nextInode) (hone : (s'.inode a).iOpenCnts = 1)
    (hhome : ∀ b, b ∈ s.part.openInodes → s'.home b = s.home b)
    (hcnt : ∀ b, b ∈ s.part.openInodes → (s'.inode b).iOpenCnts = (s.inode b).iOpenCnts) :
    Ledger (bump c a) s' := by
  -- The new element had no count, and now it has one.
  have hzero := h.zero_of_not_listed ha
  refine ⟨?_, ?_, ?_, ?_⟩
  · intro b hb
    rw [hopen] at hb
    rcases List.mem_cons.mp hb with rfl | hb
    · exact hthere
    · rw [hhome b hb]
      exact ⟨(h.there b hb).1, Nat.lt_of_lt_of_le (h.there b hb).2 hnext⟩
  · rw [hopen]
    exact List.nodup_cons.mpr ⟨ha, h.nodup⟩
  · intro b hb
    rw [hopen] at hb
    rcases List.mem_cons.mp hb with rfl | hb
    · rw [hone, bump_self, hzero]
    · have hba : b ≠ a := fun hc => ha (hc ▸ hb)
      rw [hcnt b hb, bump_of_ne hba]
      exact h.count b hb
  · intro b
    rw [hopen]
    by_cases hba : b = a
    · rw [hba, bump_self]
      exact ⟨fun _ => by omega, fun _ => List.mem_cons_self⟩
    · rw [bump_of_ne hba, List.mem_cons, ← h.listed b]
      exact ⟨fun hc => hc.resolve_left hba, Or.inr⟩

end Ledger

variable {c : Nat → Nat} {s s' : Fs} {t : Nat}

/-- The loop of `inode_open` finds an inode of the list with the number, or
    there is none. -/
theorem findOpenInode_run {n : Nat} {l : List Nat} {found : Option Nat}
    (h : (findOpenInode t n l).run s = .ok (found, s')) :
    s' = s ∧ match found with
      | some a => a ∈ l ∧ (s.inode a).iNo = n ∧ s.Sees t a
      | none => ∀ a, a ∈ l → (s.inode a).iNo ≠ n := by
  induction l with
  | nil =>
      rcases pure_ok h with ⟨rfl, rfl⟩
      exact ⟨rfl, fun a ha => absurd ha List.not_mem_nil⟩
  | cons b l ih =>
      rcases run_bind_ok.mp h with ⟨i, s₁, h₁, k₁⟩
      rcases inodeAt_run h₁ with ⟨hsees, rfl, rfl⟩
      by_cases hn : (s₁.inode b).iNo = n
      · rw [if_pos hn] at k₁
        rcases pure_ok k₁ with ⟨rfl, rfl⟩
        exact ⟨rfl, List.mem_cons_self, hn, hsees⟩
      · rw [if_neg hn] at k₁
        rcases ih k₁ with ⟨hs, hf⟩
        refine ⟨hs, ?_⟩
        cases found with
        | some a => exact ⟨List.mem_cons_of_mem b hf.1, hf.2⟩
        | none =>
            intro a ha
            rcases List.mem_cons.mp ha with rfl | ha
            · exact hn
            · exact hf a ha

/-- One more holder of an inode that is open. -/
theorem Ledger.hit (h : Ledger c s) {a : Nat} (ha : a ∈ s.part.openInodes)
    (hroom : c a + 1 < 2 ^ 32) :
    Ledger (bump c a) (s.setInode a
      { s.inode a with iOpenCnts := add32 (s.inode a).iOpenCnts 1 }) := by
  refine ⟨h.there, h.nodup, ?_, ?_⟩
  · intro b hb
    show (Function.update s.inode a _ b).iOpenCnts = _
    by_cases hba : b = a
    · rw [hba, Function.update_self, bump_self, h.count a ha]
      exact Nat.mod_eq_of_lt hroom
    · rw [Function.update_of_ne hba, bump_of_ne hba]
      exact h.count b hb
  · intro b
    by_cases hba : b = a
    · rw [hba, bump_self]
      exact ⟨fun _ => by omega, fun _ => ha⟩
    · rw [bump_of_ne hba]
      exact h.listed b

/-- The first holder of an inode that is read from the disk. -/
theorem Ledger.fetch (h : Ledger c s) {a : Nat} {i : Inode} (ha : a = s.nextInode)
    (hi : i.iOpenCnts = 1) :
    Ledger (bump c a) ((({ s with nextInode := a + 1 }.setHome a .kernel).setInode a
      i).setOpenInodes (a :: s.part.openInodes)) := by
  have hnew : a ∉ s.part.openInodes := h.not_listed (Nat.le_of_eq ha.symm)
  have hne : ∀ b, b ∈ s.part.openInodes → b ≠ a := fun b hb hc => hnew (hc ▸ hb)
  refine h.push hnew rfl ?_ ⟨?_, Nat.lt_succ_self a⟩ ?_ ?_ ?_
  · show s.nextInode ≤ a + 1
    omega
  · show Function.update s.home a Home.kernel a ≠ .freed
    rw [Function.update_self]
    simp only [ne_eq, reduceCtorEq, not_false_eq_true]
  · show (Function.update s.inode a i a).iOpenCnts = 1
    rw [Function.update_self, hi]
  · exact fun b hb => Function.update_of_ne (hne b hb) _ _
  · intro b hb
    show (Function.update s.inode a i b).iOpenCnts = _
    rw [Function.update_of_ne (hne b hb)]

/-- `inode_open` either finds the number in the list and counts once more, or
    the number is not there and the record is fetched. -/
theorem inodeOpen_run {n a : Nat} (hr : (inodeOpen t n).run s = .ok (a, s')) :
    (a ∈ s.part.openInodes ∧ (s.inode a).iNo = n ∧ s.Sees t a ∧
        s' = s.setInode a { s.inode a with iOpenCnts := add32 (s.inode a).iOpenCnts 1 }) ∨
      ((∀ b, b ∈ s.part.openInodes → (s.inode b).iNo ≠ n) ∧
        (inodeFetch n).run s = .ok (a, s')) := by
  rcases run_bind_ok.mp hr with ⟨l, s₁, h₁, k₁⟩
  rcases read_ok h₁ with ⟨rfl, rfl⟩
  rcases run_bind_ok.mp k₁ with ⟨found, s₂, h₂, k₂⟩
  rcases findOpenInode_run h₂ with ⟨rfl, hf⟩
  cases found with
  | some b =>
      rcases run_bind_ok.mp k₂ with ⟨_, s₃, h₃, k₃⟩
      rcases pure_ok k₃ with ⟨rfl, rfl⟩
      exact Or.inl ⟨hf.1, hf.2.1, hf.2.2, setInodeAt_run h₃⟩
  | none => exact Or.inr ⟨hf, k₂⟩

/-- `inode_open` is one more holder of the inode it returns, and the caller
    sees that inode. -/
theorem inodeOpen_bump {n a : Nat} (h : Ledger c s) (hroom : c a + 1 < 2 ^ 32)
    (hr : (inodeOpen t n).run s = .ok (a, s')) : Ledger (bump c a) s' ∧ s'.Sees t a := by
  rcases inodeOpen_run hr with ⟨hmem, -, hsees, rfl⟩ | ⟨-, hfetch⟩
  · exact ⟨h.hit hmem hroom, hsees⟩
  · rcases inodeFetch_run hfetch with ⟨_, ha, i, _, hi, hq⟩
    refine ⟨(h.fetch ha hi).quiet hq, Or.inl ?_⟩
    unfold Quiet at hq
    rw [hq]
    exact Function.update_self _ _ _

theorem inodeOpen_ledger {n a : Nat} (h : Ledger c s) (hroom : ∀ b, c b + 1 < 2 ^ 32)
    (hr : (inodeOpen t n).run s = .ok (a, s')) : Ledger (bump c a) s' ∧ s'.Sees t a :=
  inodeOpen_bump h (hroom a) hr

/-- `inode_close` is one holder less. -/
theorem inodeClose_ledger {a : Nat} {u : Unit} (h : Ledger c s) (hroom : c a < 2 ^ 32)
    (hheld : 0 < c a) (hr : (inodeClose t a).run s = .ok (u, s')) : Ledger (drop c a) s' := by
  have hmem := (h.listed a).mpr hheld
  rcases run_bind_ok.mp hr with ⟨i, s₁, h₁, k₁⟩
  rcases inodeAt_run h₁ with ⟨-, rfl, rfl⟩
  have hcnt : sub32 (s₁.inode a).iOpenCnts 1 = c a - 1 := by
    rw [h.count a hmem, sub32]
    omega
  rw [hcnt] at k₁
  rcases run_bind_ok.mp k₁ with ⟨_, s₂, h₂, k₂⟩
  have hs₂ := setInodeAt_run h₂
  have hinode : ∀ b, (s₂.inode b).iOpenCnts = if b = a then c a - 1 else (s₁.inode b).iOpenCnts := by
    intro b
    rw [hs₂]
    show (Function.update s₁.inode a _ b).iOpenCnts = _
    by_cases hba : b = a
    · rw [hba, Function.update_self, if_pos rfl]
    · rw [Function.update_of_ne hba, if_neg hba]
  have hopen : s₂.part.openInodes = s₁.part.openInodes := by rw [hs₂]; rfl
  have hhome : s₂.home = s₁.home := by rw [hs₂]; rfl
  have hnext : s₂.nextInode = s₁.nextInode := by rw [hs₂]; rfl
  by_cases hz : c a - 1 = 0
  · rw [if_pos hz] at k₂
    rcases run_bind_ok.mp k₂ with ⟨_, s₃, h₃, k₃⟩
    rcases read_ok h₃ with ⟨-, rfl⟩
    rcases run_bind_ok.mp k₃ with ⟨_, s₄, h₄, k₄⟩
    rcases check_ok h₄ with ⟨-, rfl⟩
    rcases run_bind_ok.mp k₄ with ⟨_, s₅, h₅, k₅⟩
    rcases read_ok h₅ with ⟨-, rfl⟩
    rcases run_bind_ok.mp k₅ with ⟨_, s₆, h₆, k₆⟩
    rcases check_ok h₆ with ⟨-, rfl⟩
    rw [modify_ok k₆]
    -- The last holder is gone, and the inode with it.
    have hback : ∀ b, b ∈ s₆.part.openInodes.erase a ↔ b ∈ s₁.part.openInodes ∧ b ≠ a := by
      intro b
      rw [hopen, h.nodup.mem_erase_iff, and_comm]
    refine ⟨?_, ?_, ?_, ?_⟩
    · intro b hb
      rcases (hback b).mp hb with ⟨hb, hba⟩
      show Function.update s₆.home a Home.freed b ≠ _ ∧ b < s₆.nextInode
      rw [Function.update_of_ne hba, hhome, hnext]
      exact h.there b hb
    · show (s₆.part.openInodes.erase a).Nodup
      rw [hopen]
      exact h.nodup.erase a
    · intro b hb
      rcases (hback b).mp hb with ⟨hb, hba⟩
      show (s₆.inode b).iOpenCnts = _
      rw [hinode, if_neg hba, drop_of_ne hba]
      exact h.count b hb
    · intro b
      rw [show b ∈ (Fs.setHome _ a .freed).part.openInodes ↔ b ∈ s₆.part.openInodes.erase a from
        Iff.rfl, hback]
      by_cases hba : b = a
      · rw [hba, drop_self]
        exact ⟨fun hc => absurd rfl hc.2, fun hc => absurd hc (by omega)⟩
      · rw [drop_of_ne hba, ← h.listed b]
        exact ⟨And.left, fun hb => ⟨hb, hba⟩⟩
  · rw [if_neg hz] at k₂
    rcases pure_ok k₂ with ⟨-, rfl⟩
    refine ⟨?_, ?_, ?_, ?_⟩
    · rw [hopen, hhome, hnext]
      exact h.there
    · rw [hopen]
      exact h.nodup
    · intro b hb
      rw [hopen] at hb
      rw [hinode]
      by_cases hba : b = a
      · rw [if_pos hba, hba, drop_self]
      · rw [if_neg hba, drop_of_ne hba]
        exact h.count b hb
    · intro b
      rw [hopen, h.listed b]
      by_cases hba : b = a
      · rw [hba, drop_self]
        omega
      · rw [drop_of_ne hba]

/-- The ledger with a directory handle; `root_dir` is not a handle. -/
def holdDir (c : Nat → Nat) (d : Dir) : Nat → Nat := if d.isRoot then c else bump c d.inode

theorem le_holdDir (c : Nat → Nat) (d : Dir) (b : Nat) : c b ≤ holdDir c d b := by
  unfold holdDir
  split
  · exact Nat.le_refl _
  · exact le_bump c _ b

theorem holdDir_le (c : Nat → Nat) (d : Dir) (b : Nat) : holdDir c d b ≤ c b + 1 := by
  unfold holdDir
  split
  · omega
  · exact bump_le c _ b

theorem dirOpen_ledger {n : Nat} {d : Dir} (h : Ledger c s) (hroom : ∀ b, c b + 1 < 2 ^ 32)
    (hr : (dirOpen t n).run s = .ok (d, s')) : Ledger (holdDir c d) s' := by
  rcases run_bind_ok.mp hr with ⟨_, s₁, h₁, k₁⟩
  rcases run_bind_ok.mp k₁ with ⟨a, s₂, h₂, k₂⟩
  rcases pure_ok k₂ with ⟨rfl, rfl⟩
  exact (inodeOpen_ledger (h.quiet (quiet_mallocUnchecked _ _ _ h₁)) hroom h₂).1

theorem dirClose_ledger {d : Dir} {u : Unit} (h : Ledger (holdDir c d) s)
    (hroom : ∀ b, c b + 1 < 2 ^ 32) (hr : (dirClose t d).run s = .ok (u, s')) : Ledger c s' := by
  unfold holdDir at h
  unfold dirClose at hr
  by_cases hd : d.isRoot = true
  · rw [if_pos hd] at h hr
    rcases pure_ok hr with ⟨-, rfl⟩
    exact h
  · rw [if_neg hd] at h hr
    have := inodeClose_ledger h (by rw [bump_self]; exact hroom _) (by rw [bump_self]; omega) hr
    rwa [drop_bump] at this

/-- A path that has been followed holds its last directory. -/
theorem searchLoop_ledger {n : Nat} {name : Str} {subPath : Option Str} {inodeNo parentNo : Nat}
    {r : PathSearchRecord} {x : Nat × PathSearchRecord} (h : Ledger (holdDir c r.parentDir) s)
    (hroom : ∀ b, c b + 1 < 2 ^ 32)
    (hr : (searchLoop t n name subPath inodeNo parentNo r).run s = .ok (x, s')) :
    Ledger (holdDir c x.2.parentDir) s' := by
  -- The induction is on the fuel. The ledger has the directory of the round.
  induction n generalizing name subPath inodeNo parentNo r s with
  | zero => cases hr
  | succ n ih =>
      rcases run_bind_ok.mp hr with ⟨_, s₁, h₁, k₁⟩
      rcases check_ok h₁ with ⟨-, rfl⟩
      by_cases hname : name = []
      · rw [if_pos hname] at k₁
        rcases run_bind_ok.mp k₁ with ⟨_, s₂, h₂, k₂⟩
        rcases run_bind_ok.mp k₂ with ⟨d, s₃, h₃, k₃⟩
        rcases pure_ok k₃ with ⟨rfl, rfl⟩
        exact dirOpen_ledger (dirClose_ledger h hroom h₂) hroom h₃
      · rw [if_neg hname] at k₁
        rcases run_bind_ok.mp k₁ with ⟨_, s₂, h₂, k₂⟩
        rcases assert_run h₂ with ⟨-, rfl⟩
        rcases run_bind_ok.mp k₂ with ⟨found, s₃, h₃, k₃⟩
        have hl₃ := h.quiet (quiet_searchDirEntry _ _ _ _ _ _ h₃)
        cases found with
        | none =>
            rcases pure_ok k₃ with ⟨rfl, rfl⟩
            exact hl₃
        | some e =>
            rcases run_bind_ok.mp k₃ with ⟨_, s₄, h₄, k₄⟩
            rcases check_ok h₄ with ⟨-, rfl⟩
            by_cases hdir : e.fType = .directory
            · rw [if_pos hdir] at k₄
              rcases run_bind_ok.mp k₄ with ⟨i, s₅, h₅, k₅⟩
              rcases inodeAt_run h₅ with ⟨-, rfl, rfl⟩
              rcases run_bind_ok.mp k₅ with ⟨_, s₆, h₆, k₆⟩
              rcases run_bind_ok.mp k₆ with ⟨d, s₇, h₇, k₇⟩
              exact ih (dirOpen_ledger (dirClose_ledger hl₃ hroom h₆) hroom h₇) k₇
            · rw [if_neg hdir] at k₄
              by_cases hreg : e.fType = .regular
              · rw [if_pos hreg] at k₄
                rcases pure_ok k₄ with ⟨rfl, rfl⟩
                exact hl₃
              · rw [if_neg hreg] at k₄
                refine ih ?_ k₄
                exact hl₃

theorem searchFile_ledger {pathname : Str} {x : Nat × PathSearchRecord} (h : Ledger c s)
    (hroom : ∀ b, c b + 1 < 2 ^ 32) (hr : (searchFile t pathname).run s = .ok (x, s')) :
    Ledger (holdDir c x.2.parentDir) s' := by
  rcases run_bind_ok.mp hr with ⟨root, s₁, h₁, k₁⟩
  rcases read_ok h₁ with ⟨rfl, rfl⟩
  by_cases hp : pathname = [slash] ∨ pathname = slash :: dotName ∨ pathname = slash :: dotdotName
  · rw [if_pos hp] at k₁
    rcases pure_ok k₁ with ⟨rfl, rfl⟩
    exact h
  · rw [if_neg hp] at k₁
    rcases run_bind_ok.mp k₁ with ⟨_, s₂, h₂, k₂⟩
    rcases assert_run h₂ with ⟨-, rfl⟩
    rcases run_bind_ok.mp k₂ with ⟨junk, s₃, h₃, k₃⟩
    refine searchLoop_ledger ?_ hroom k₃
    exact h.quiet (quiet_unset _ _ _ h₃)

end ForikOS
