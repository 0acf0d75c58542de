import ForikOS.Lib.NameTree
import ForikOS.Theory.InodeTable
import ForikOS.Theory.Paths

/-!
# The Directory Tree on the Disk

What it means for the directories on the disk to be a tree, and that
`search_dir_entry` looks a name up in one of them.

A directory is an inode that can be reached from inode 0 through the entries
behind `"."` and `".."`. The names on the way are its canonical path. The tree
is well-formed if every directory has its two first entries, every other entry
is free or names a file or a directory, no name or number is there twice, and
`".."` leads back. Nothing of this mentions memory: it is a property of the
bytes on the disk.

## Main definitions

* `dirBlocks`, `dirEntryAt`: The blocks and the entries of a directory.
* `Canonical`, `IsDir`: The directories, and their canonical paths.
* `diskTree`: The tree of names on the disk.
* `DirTree`: The tree is well-formed.
* `smallTree`, `SmallTreeFacts`: A tree with one file, for the runs of later
  modules.

## Theorems

* `entryName_iff_strEq`: What `strcmp` compares is the name of the entry.
* `DirTree.deterministic`: A name stands for one object.
* `DirTree.isDir_of_walks`: Who walks stays in the tree.
* `DirTree.child_eq`: A number is in its directory only once.
* `DirTree.congr`: The tree is a matter of the disk.
-/

namespace ForikOS

open Prog

/-- The blocks of directory `d`, direct ones first. -/
def dirBlocks (s : Fs) (d : Nat) : Nat → Nat :=
  allBlocks (diskInode s d) (if (diskInode s d).iSectors 12 ≠ 0 then
    indirectBlocks (sectors s.disk ((diskInode s d).iSectors 12) 1) else fun _ => 0)

/-- Entry `j` in block `k` of directory `d`. -/
def dirEntryAt (s : Fs) (d k j : Nat) : DirEntry :=
  decodeEntry (sectors s.disk (dirBlocks s d k) 1) (dirEntrySize * j)

/-- Directory `d` has a block `k`, and the block an entry `j`. -/
structure EntryAt (s : Fs) (d k j : Nat) : Prop where
  block : k < 140
  entry : j < entriesPerSec
  there : dirBlocks s d k ≠ 0

/-- An entry behind `"."` and `".."` that names something. -/
structure IsChild (s : Fs) (d k j : Nat) : Prop extends EntryAt s d k j where
  behind : ¬ (k = 0 ∧ j < 2)
  used : (dirEntryAt s d k j).fType ≠ .unknown

/-- The names that lead from the root to a directory, without a detour. -/
inductive Canonical (s : Fs) : Nat → List Str → Prop
  | root : Canonical s 0 []
  | child {d k j : Nat} {ks : List Str} {name : Str} : Canonical s d ks → IsChild s d k j →
      (dirEntryAt s d k j).fType = .directory → entryName (dirEntryAt s d k j) = some name →
      Canonical s (dirEntryAt s d k j).iNo (ks ++ [name])

/-- The inode is a directory of the tree. -/
def IsDir (s : Fs) (d : Nat) : Prop := ∃ ks, Canonical s d ks

/-- Directory `d` names inode `n`, which is of type `ty`. -/
def NamesInode (s : Fs) (ty : FileType) (d : Nat) (name : Str) (n : Nat) : Prop :=
  IsDir s d ∧ ∃ k j, EntryAt s d k j ∧ entryName (dirEntryAt s d k j) = some name ∧
    (dirEntryAt s d k j).fType = ty ∧ (dirEntryAt s d k j).iNo = n

/-- The tree of names on the disk. -/
def diskTree (s : Fs) : NameTree Nat Str := ⟨NamesInode s .directory, NamesInode s .regular⟩

/-- An entry that names a file or a directory. -/
structure NamedEntry (e : DirEntry) : Prop where
  kind : e.fType = .directory ∨ e.fType = .regular
  number : e.iNo < 4096
  name : ∃ name, entryName e = some name ∧ name ≠ [] ∧ slash ∉ name

/-- The directories on the disk are a tree. -/
structure DirTree (s : Fs) : Prop where
  record : ∀ d, IsDir s d → (diskInode s d).iNo = d
  table : ∀ d, IsDir s d → (diskInode s d).iSectors 12 ≤ maxLba
  blocks : ∀ d k, IsDir s d → k < 140 → dirBlocks s d k ≤ maxLba
  first : ∀ d, IsDir s d → dirBlocks s d 0 ≠ 0 ∧ s.part.sb.dataStartLba ≤ dirBlocks s d 0
  dot : ∀ d, IsDir s d → entryName (dirEntryAt s d 0 0) = some dotName ∧
    (dirEntryAt s d 0 0).fType = .directory ∧ (dirEntryAt s d 0 0).iNo = d
  dotdot : ∀ d, IsDir s d → entryName (dirEntryAt s d 0 1) = some dotdotName ∧
    (dirEntryAt s d 0 1).fType = .directory
  rootUp : (dirEntryAt s 0 0 1).iNo = 0
  notRoot : ∀ d k j, IsDir s d → IsChild s d k j → (dirEntryAt s d k j).iNo ≠ 0
  up : ∀ d k j, IsDir s d → IsChild s d k j → (dirEntryAt s d k j).fType = .directory →
    (dirEntryAt s (dirEntryAt s d k j).iNo 0 1).iNo = d
  free : ∀ d k j, IsDir s d → EntryAt s d k j → (dirEntryAt s d k j).fType = .unknown →
    (dirEntryAt s d k j).filename 0 = 0 ∧ (dirEntryAt s d k j).iNo = 0
  named : ∀ d k j, IsDir s d → EntryAt s d k j → (dirEntryAt s d k j).fType ≠ .unknown →
    NamedEntry (dirEntryAt s d k j)
  nameOnce : ∀ d k j k' j', IsDir s d → EntryAt s d k j → EntryAt s d k' j' →
    (dirEntryAt s d k j).fType ≠ .unknown →
    entryName (dirEntryAt s d k' j') = entryName (dirEntryAt s d k j) → k' = k ∧ j' = j
  numberOnce : ∀ d k j d' k' j', IsDir s d → IsDir s d' → IsChild s d k j → IsChild s d' k' j' →
    (dirEntryAt s d' k' j').iNo = (dirEntryAt s d k j).iNo → d' = d ∧ k' = k ∧ j' = j

section Names

variable {b : Nat → Byte} {off : Nat} {name : Str}

/-- A string that ends at its first zero. -/
theorem takeWhile_terminated {x : Str} (hx : (0 : Byte) ∉ x) (y : Str) :
    (x ++ 0 :: y).takeWhile (fun c => c != 0) = x := by
  have hall : ∀ c, c ∈ x → (c != 0) = true := by
    intro c hc
    refine bne_iff_ne.mpr (fun heq => hx ?_)
    rwa [heq] at hc
  rw [List.takeWhile_append_of_pos hall, List.takeWhile_cons_of_neg (by decide), List.append_nil]

/-- The name of an entry is what stands before the first zero. -/
theorem entryName_eq_some_iff {e : DirEntry} (h0 : (0 : Byte) ∉ name) :
    entryName e = some name ↔ ∃ rest, (List.range 16).map e.filename = name ++ 0 :: rest := by
  rw [entryName]
  constructor
  · intro h
    by_cases hz : (0 : Byte) ∈ (List.range 16).map e.filename
    · rcases List.eq_append_cons_of_mem hz with ⟨x, y, hxy, hx⟩
      rw [if_pos hz, Option.some.injEq, hxy, takeWhile_terminated hx] at h
      exact ⟨y, h ▸ hxy⟩
    · rw [if_neg hz] at h
      cases h
  · rintro ⟨rest, h⟩
    rw [h, takeWhile_terminated h0, if_pos (List.mem_append_right _ List.mem_cons_self)]

/-- `strcmp` byte by byte. -/
theorem strEq_iff : strEq b off name = true ↔
    (∀ k, k < name.length → b (off + k) = name.getD k 0) ∧ b (off + name.length) = 0 := by
  rw [strEq, Bool.and_eq_true, List.all_eq_true, beq_iff_eq]
  refine and_congr_left' (forall_congr' (fun k => ?_))
  rw [List.mem_range, beq_iff_eq]

/-- What `strcmp` compares with is the name of the entry. -/
theorem entryName_iff_strEq (h0 : (0 : Byte) ∉ name) (hlen : name.length < 16) :
    entryName (decodeEntry b off) = some name ↔ strEq b off name = true := by
  rw [entryName_eq_some_iff h0, strEq_iff]
  have hget : ∀ k, k < 16 →
      ((List.range 16).map (decodeEntry b off).filename)[k]? = some (b (off + k)) := by
    intro k hk
    rw [List.getElem?_map, List.getElem?_range hk]
    rfl
  constructor
  · rintro ⟨rest, h⟩
    rw [h] at hget
    refine ⟨fun k hk => ?_, ?_⟩
    · have hk' := hget k (by omega)
      rw [List.getElem?_append_left hk] at hk'
      rw [List.getD_eq_getElem?_getD, hk', Option.getD_some]
    · have hk' := hget name.length hlen
      rw [List.getElem?_append_right (Nat.le_refl _), Nat.sub_self, List.getElem?_cons_zero,
        Option.some.injEq] at hk'
      exact hk'.symm
  · rintro ⟨hbytes, hend⟩
    refine ⟨((List.range 16).map (decodeEntry b off).filename).drop (name.length + 1), ?_⟩
    refine List.ext_getElem? (fun k => ?_)
    -- In front of the terminator, at it, and behind it, where anything may be.
    rcases Nat.lt_trichotomy k name.length with hk | hk | hk
    · rw [hget k (by omega), List.getElem?_append_left hk, hbytes k hk,
        List.getD_eq_getElem?_getD, List.getElem?_eq_getElem hk, Option.getD_some]
    · rw [hk, hget _ hlen, List.getElem?_append_right (Nat.le_refl _), Nat.sub_self, hend]
      rfl
    · have hindex : k - name.length = (k - name.length - 1) + 1 := by omega
      have hback : name.length + 1 + (k - name.length - 1) = k := by omega
      rw [List.getElem?_append_right (Nat.le_of_lt hk), hindex, List.getElem?_cons_succ,
        List.getElem?_drop, hback]

end Names

theorem isDir_root (s : Fs) : IsDir s 0 := ⟨[], .root⟩

namespace DirTree

variable {s : Fs} {d k j : Nat}

theorem number (T : DirTree s) (hd : IsDir s d) : d < 4096 := by
  rcases hd with ⟨ks, hc⟩
  cases hc with
  | root => decide
  | child hp hchild _ _ => exact (T.named _ _ _ ⟨_, hp⟩ hchild.toEntryAt hchild.used).number

/-- `".."` leads to a directory. -/
theorem isDir_up (T : DirTree s) (hd : IsDir s d) : IsDir s (dirEntryAt s d 0 1).iNo := by
  rcases hd with ⟨ks, hc⟩
  cases hc with
  | root =>
      rw [T.rootUp]
      exact isDir_root s
  | child hp hchild hty _ =>
      rw [T.up _ _ _ ⟨_, hp⟩ hchild hty]
      exact ⟨_, hp⟩

/-- An entry for a directory leads to one. -/
theorem isDir_of_entry (T : DirTree s) (hd : IsDir s d) (he : EntryAt s d k j)
    (hty : (dirEntryAt s d k j).fType = .directory) : IsDir s (dirEntryAt s d k j).iNo := by
  have hused : (dirEntryAt s d k j).fType ≠ .unknown := by
    rw [hty]
    exact FileType.noConfusion
  by_cases hb : k = 0 ∧ j < 2
  · rcases hb with ⟨rfl, hj⟩
    have hj : j = 0 ∨ j = 1 := by omega
    rcases hj with rfl | rfl
    · rw [(T.dot d hd).2.2]
      exact hd
    · exact T.isDir_up hd
  · rcases (T.named d k j hd he hused).name with ⟨name, hname, -, -⟩
    rcases hd with ⟨ks, hc⟩
    exact ⟨_, .child hc ⟨he, hb, hused⟩ hty hname⟩

theorem isDir_of_walks (T : DirTree s) {ks : List Str} {n : Nat} (h : (diskTree s).Walks d ks n)
    (hd : IsDir s d) : IsDir s n := by
  induction h with
  | nil d => exact hd
  | cons hdir _ ih =>
      rcases hdir with ⟨hd, k, j, he, -, hty, rfl⟩
      exact ih (T.isDir_of_entry hd he hty)

/-- The number of a file is in the table, and it is not that of the root. -/
theorem file_number (T : DirTree s) {name : Str} {n : Nat} (h : (diskTree s).file d name n) :
    n < 4096 ∧ n ≠ 0 := by
  rcases h with ⟨hd, k, j, he, -, hty, rfl⟩
  have hused : (dirEntryAt s d k j).fType ≠ .unknown := by
    rw [hty]
    exact FileType.noConfusion
  have hbehind : ¬ (k = 0 ∧ j < 2) := by
    -- The two first entries are directories.
    rintro ⟨rfl, hj⟩
    have hj : j = 0 ∨ j = 1 := by omega
    rcases hj with rfl | rfl
    · rw [(T.dot d hd).2.1] at hty
      cases hty
    · rw [(T.dotdot d hd).2] at hty
      cases hty
  exact ⟨(T.named d k j hd he hused).number, T.notRoot d k j hd ⟨he, hbehind, hused⟩⟩

/-- A name stands for one object. -/
theorem deterministic (T : DirTree s) : (diskTree s).Deterministic := by
  have once : ∀ {ty ty' : FileType} {d m n : Nat} {name : Str}, ty ≠ .unknown →
      NamesInode s ty d name m → NamesInode s ty' d name n → m = n ∧ ty = ty' := by
    rintro ty ty' d m n name hty ⟨hd, k, j, he, hname, rfl, rfl⟩ ⟨-, k', j', he', hname', rfl, rfl⟩
    rcases T.nameOnce d k j k' j' hd he he' hty (hname'.trans hname.symm) with ⟨rfl, rfl⟩
    exact ⟨rfl, rfl⟩
  refine ⟨fun h h' => (once ?_ h h').1, fun h h' => (once ?_ h h').1, fun h h' => ?_⟩
  · exact FileType.noConfusion
  · exact FileType.noConfusion
  · exact FileType.noConfusion (once FileType.noConfusion h h').2

/-- Whoever goes up from a directory does not come back. -/
theorem up_up_ne (T : DirTree s) {ks : List Str} {c : Nat} (hd : Canonical s d ks) (hne : d ≠ 0)
    (hc : c ≠ 0) (hup : (dirEntryAt s d 0 1).iNo = c) : (dirEntryAt s c 0 1).iNo ≠ d := by
  induction hd generalizing c with
  | root => exact absurd rfl hne
  | child hp hchild hty _ ih =>
      have hback := T.up _ _ _ ⟨_, hp⟩ hchild hty
      intro hcycle
      rw [hback] at hup
      rw [← hup] at hc hcycle
      exact ih hc hne hcycle hback

/-- The number of a subdirectory stands in its parent once. -/
theorem child_eq (T : DirTree s) {k' j' : Nat} (hd : IsDir s d) (hchild : IsChild s d k j)
    (hty : (dirEntryAt s d k j).fType = .directory) (he : EntryAt s d k' j')
    (hno : (dirEntryAt s d k' j').iNo = (dirEntryAt s d k j).iNo) : k' = k ∧ j' = j := by
  have hne := T.notRoot d k j hd hchild
  have hup := T.up d k j hd hchild hty
  by_cases hfree : (dirEntryAt s d k' j').fType = .unknown
  · exact absurd (hno.symm.trans (T.free d k' j' hd he hfree).2) hne
  · by_cases hb : k' = 0 ∧ j' < 2
    · -- The two first entries name the directory itself and its parent.
      rcases hb with ⟨rfl, hj⟩
      have hzero : d = 0 → (dirEntryAt s d 0 j').iNo = 0 := by
        rintro rfl
        have hj : j' = 0 ∨ j' = 1 := by omega
        rcases hj with rfl | rfl
        · exact (T.dot 0 hd).2.2
        · exact T.rootUp
      have hd0 : d ≠ 0 := fun h0 => hne (hno.symm.trans (hzero h0))
      rcases hd with ⟨ks, hc⟩
      have hj : j' = 0 ∨ j' = 1 := by omega
      rcases hj with rfl | rfl
      · have hself : (dirEntryAt s d k j).iNo = d := hno.symm.trans (T.dot d ⟨ks, hc⟩).2.2
        rw [hself] at hup
        exact absurd hup (T.up_up_ne hc hd0 hd0 hup)
      · exact absurd hup (T.up_up_ne hc hd0 hne hno)
    · have h := T.numberOnce d k j d k' j' hd hd hchild ⟨he, hb, hfree⟩ hno
      exact h.2

end DirTree

section Congr

variable {s s' : Fs}

theorem dirBlocks_congr (hdisk : s'.disk = s.disk) (hsb : s'.part.sb = s.part.sb) :
    dirBlocks s' = dirBlocks s := by
  funext d
  rw [dirBlocks, dirBlocks, diskInode, diskInode, hdisk, hsb]

theorem dirEntryAt_congr (hdisk : s'.disk = s.disk) (hsb : s'.part.sb = s.part.sb) :
    dirEntryAt s' = dirEntryAt s := by
  funext d k j
  rw [dirEntryAt, dirEntryAt, dirBlocks_congr hdisk hsb, hdisk]

theorem EntryAt.congr {d k j : Nat} (hdisk : s'.disk = s.disk) (hsb : s'.part.sb = s.part.sb)
    (h : EntryAt s d k j) : EntryAt s' d k j :=
  ⟨h.block, h.entry, (dirBlocks_congr hdisk hsb).symm ▸ h.there⟩

theorem IsChild.congr {d k j : Nat} (hdisk : s'.disk = s.disk) (hsb : s'.part.sb = s.part.sb)
    (h : IsChild s d k j) : IsChild s' d k j :=
  ⟨h.toEntryAt.congr hdisk hsb, h.behind, (dirEntryAt_congr hdisk hsb).symm ▸ h.used⟩

theorem Canonical.congr {d : Nat} {ks : List Str} (hdisk : s'.disk = s.disk)
    (hsb : s'.part.sb = s.part.sb) (h : Canonical s d ks) : Canonical s' d ks := by
  induction h with
  | root => exact .root
  | child _ hchild hty hname ih =>
      rw [← dirEntryAt_congr hdisk hsb] at hty hname ⊢
      exact .child ih (hchild.congr hdisk hsb) hty hname

theorem NamesInode.congr {ty : FileType} {d n : Nat} {name : Str} (hdisk : s'.disk = s.disk)
    (hsb : s'.part.sb = s.part.sb) (h : NamesInode s ty d name n) : NamesInode s' ty d name n := by
  rcases h with ⟨⟨ks, hc⟩, k, j, he, hname, hty, hno⟩
  rw [← dirEntryAt_congr hdisk hsb] at hname hty hno
  exact ⟨⟨ks, hc.congr hdisk hsb⟩, k, j, he.congr hdisk hsb, hname, hty, hno⟩

theorem diskTree_congr (hdisk : s'.disk = s.disk) (hsb : s'.part.sb = s.part.sb) :
    diskTree s' = diskTree s := by
  have hnames : NamesInode s' = NamesInode s := by
    funext ty d name n
    exact propext ⟨.congr hdisk.symm hsb.symm, .congr hdisk hsb⟩
  rw [diskTree, diskTree, hnames]

/-- Whether there is a tree is up to the disk alone. -/
theorem DirTree.congr (hdisk : s'.disk = s.disk) (hsb : s'.part.sb = s.part.sb)
    (T : DirTree s) : DirTree s' := by
  -- A tree is made of what the disk holds, so every notion in it is the same.
  have hdir : ∀ {d}, IsDir s' d → IsDir s d :=
    fun ⟨ks, hc⟩ => ⟨ks, hc.congr hdisk.symm hsb.symm⟩
  have hat : ∀ {d k j}, EntryAt s' d k j → EntryAt s d k j := EntryAt.congr hdisk.symm hsb.symm
  have hchild : ∀ {d k j}, IsChild s' d k j → IsChild s d k j := IsChild.congr hdisk.symm hsb.symm
  have hinode : diskInode s' = diskInode s := by
    funext n
    rw [diskInode, diskInode, hdisk, hsb]
  constructor
  · rw [hinode]
    exact fun d hd => T.record d (hdir hd)
  · rw [hinode]
    exact fun d hd => T.table d (hdir hd)
  · rw [dirBlocks_congr hdisk hsb]
    exact fun d k hd => T.blocks d k (hdir hd)
  · rw [dirBlocks_congr hdisk hsb, hsb]
    exact fun d hd => T.first d (hdir hd)
  · rw [dirEntryAt_congr hdisk hsb]
    exact fun d hd => T.dot d (hdir hd)
  · rw [dirEntryAt_congr hdisk hsb]
    exact fun d hd => T.dotdot d (hdir hd)
  · rw [dirEntryAt_congr hdisk hsb]
    exact T.rootUp
  · rw [dirEntryAt_congr hdisk hsb]
    exact fun d k j hd hc => T.notRoot d k j (hdir hd) (hchild hc)
  · rw [dirEntryAt_congr hdisk hsb]
    exact fun d k j hd hc => T.up d k j (hdir hd) (hchild hc)
  · rw [dirEntryAt_congr hdisk hsb]
    exact fun d k j hd he => T.free d k j (hdir hd) (hat he)
  · rw [dirEntryAt_congr hdisk hsb]
    exact fun d k j hd he => T.named d k j (hdir hd) (hat he)
  · rw [dirEntryAt_congr hdisk hsb]
    exact fun d k j k' j' hd he he' => T.nameOnce d k j k' j' (hdir hd) (hat he) (hat he')
  · rw [dirEntryAt_congr hdisk hsb]
    exact fun d k j d' k' j' hd hd' hc hc' =>
      T.numberOnce d k j d' k' j' (hdir hd) (hdir hd') (hchild hc) (hchild hc')

end Congr

section SmallTree

/-- The superblock of a partition of 4096 sectors. -/
def smallSb : SuperBlock := formatSb 0 4096

/-- An inode with one block. -/
def oneBlockInode (n size lba : Nat) : Inode :=
  ⟨n, size, 0, false, Function.update (fun _ => 0) 0 lba⟩

/-- The root directory has a directory `d` and a file `f`. -/
def smallRootBlock : Nat → Byte :=
  memcpyTo (memcpyTo (dotEntries 0 0) 48 24 (entryBytes (newDirEntry [0x64] 1 .directory))) 72 24
    (entryBytes (newDirEntry [0x66] 2 .regular))

/-- A disk with that root directory. -/
def smallDisk : Nat → Byte :=
  memcpyTo (memcpyTo (memcpyTo (memcpyTo (memcpyTo (fun _ => 0)
    (inodeOff smallSb 0) 76 (inodeBytes (oneBlockInode 0 96 smallSb.dataStartLba)))
    (inodeOff smallSb 1) 76 (inodeBytes (oneBlockInode 1 48 (smallSb.dataStartLba + 1))))
    (inodeOff smallSb 2) 76 (inodeBytes (oneBlockInode 2 0 0)))
    (smallSb.dataStartLba * 512) 512 smallRootBlock)
    ((smallSb.dataStartLba + 1) * 512) 512 (dotEntries 1 0)

/-- The machine after that disk has been mounted. -/
def smallTree : Fs :=
  { blankFs 0 4096 (fun _ => false) with
    disk := smallDisk
    part := { (blankFs 0 4096 (fun _ => false)).part with sb := smallSb, openInodes := [0] }
    inode := fun _ => { oneBlockInode 0 96 smallSb.dataStartLba with iOpenCnts := 1 }
    home := Function.update (fun _ => .freed) 0 .kernel
    nextInode := 1 }

/-- What is on that disk. -/
structure SmallTreeFacts : Prop where
  record : ∀ d : Fin 2, (diskInode smallTree d).iNo = d
  oneBlock : ∀ d : Fin 2, ∀ k : Fin 13, 1 ≤ k.val → (diskInode smallTree d).iSectors k = 0
  block : ∀ d : Fin 2, dirBlocks smallTree d 0 ≤ maxLba ∧ dirBlocks smallTree d 0 ≠ 0 ∧
    smallSb.dataStartLba ≤ dirBlocks smallTree d 0
  dot : ∀ d : Fin 2, entryName (dirEntryAt smallTree d 0 0) = some dotName ∧
    (dirEntryAt smallTree d 0 0).fType = .directory ∧ (dirEntryAt smallTree d 0 0).iNo = d
  dotdot : ∀ d : Fin 2, entryName (dirEntryAt smallTree d 0 1) = some dotdotName ∧
    (dirEntryAt smallTree d 0 1).fType = .directory ∧ (dirEntryAt smallTree d 0 1).iNo = 0
  dir : entryName (dirEntryAt smallTree 0 0 2) = some [0x64] ∧
    (dirEntryAt smallTree 0 0 2).fType = .directory ∧ (dirEntryAt smallTree 0 0 2).iNo = 1
  file : entryName (dirEntryAt smallTree 0 0 3) = some [0x66] ∧
    (dirEntryAt smallTree 0 0 3).fType = .regular ∧ (dirEntryAt smallTree 0 0 3).iNo = 2
  used : ∀ d : Fin 2, ∀ j : Fin 21, 2 ≤ j.val → (dirEntryAt smallTree d 0 j).fType ≠ .unknown →
    d = 0 ∧ (j = 2 ∨ j = 3)
  free : ∀ d : Fin 2, ∀ j : Fin 21, (dirEntryAt smallTree d 0 j).fType = .unknown →
    (dirEntryAt smallTree d 0 j).filename 0 = 0 ∧ (dirEntryAt smallTree d 0 j).iNo = 0
  once : ∀ d : Fin 2, ∀ j j' : Fin 21, (dirEntryAt smallTree d 0 j).fType ≠ .unknown →
    entryName (dirEntryAt smallTree d 0 j') = entryName (dirEntryAt smallTree d 0 j) → j' = j
  rootSize : (smallTree.inode 0).iSize = (diskInode smallTree 0).iSize
  rootSectors : ∀ k : Fin 13, (smallTree.inode 0).iSectors k = (diskInode smallTree 0).iSectors k

set_option maxRecDepth 20000 in
theorem smallTree_facts : SmallTreeFacts := by
  constructor <;> decide

end SmallTree

end ForikOS
