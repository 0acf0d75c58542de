import Mathlib.Data.List.Induction
import ForikOS.Theory.PathCalls

/-!
# The Working Directory

`sys_chdir` keeps the number of a directory, and `sys_getcwd` finds the path of
a number again.

The way back goes up: `".."` in the first block of a directory gives its
parent, and the entry of the parent with the number of the directory gives its
name. The names come out last one first, so the path is turned around at the
end, one slash at a time. What comes out is the canonical path of the
directory, whatever path led to it.

## Main definitions

* `canonicalPath`: The path with these names; `"/"` if there are none.

## Theorems

* `run_getParentDirInodeNr`, `run_getChildDirName`: One step up.
* `run_cwdLoop`: All the way to the root.
* `reversePath_joined`: The path is turned around.
* `chdir_then_getcwd`: The working directory is named by its canonical path.
-/

namespace ForikOS

open Prog

/-- The absolute path with these names. -/
def canonicalPath (ks : List Str) : Str := if ks = [] then [slash] else joined ks

section Up

variable {s₀ s : Fs} {t room d : Nat}

/-- `".."` of a directory. -/
theorem run_getParentDirInodeNr (hM : Mounted t room s₀) (hm : Memory s₀) (T : DirTree s₀)
    (hd : IsDir s₀ d) (hb : Back s₀ s) :
    ∃ s', (getParentDirInodeNr t d).run s = .ok ((dirEntryAt s₀ d 0 1).iNo, s') ∧ Back s₀ s' := by
  rcases run_inodeOpen hM hm hb (T.number hd) with ⟨a, s₁, hopen, hheld⟩
  rcases run_inodeClose hM hheld with ⟨s₂, hclose, hb₂⟩
  have hblock : (s₁.inode a).iSectors 0 = dirBlocks s₀ d 0 := hheld.sectors hM (by omega)
  have hfirst : s₁.part.sb.dataStartLba ≤ (s₁.inode a).iSectors 0 := by
    rw [hblock, hheld.beside.sb]
    exact (T.first d hd).2
  have hlba : (s₁.inode a).iSectors 0 ≤ maxLba := hblock ▸ T.blocks d 0 hd (by omega)
  have hentry : decodeEntry (sectors s₂.disk ((s₁.inode a).iSectors 0) 1) dirEntrySize =
      dirEntryAt s₀ d 0 1 := by
    rw [hblock, hb₂.beside.disk]
    rfl
  have hup : (dirEntryAt s₀ d 0 1).iNo < 4096 ∧ (dirEntryAt s₀ d 0 1).fType = .directory :=
    ⟨T.number (T.isDir_up hd), (T.dotdot d hd).2⟩
  rw [getParentDirInodeNr, run_bind_of hopen, run_bind_of (run_inodeAt (hheld.sees hM)),
    run_bind_of (run_read _ s₁), run_bind_of (run_assert hfirst s₁), run_bind_of hclose,
    run_bind_of (run_ideRead hlba (by omega) s₂)]
  dsimp only
  rw [hentry, run_bind_of (run_assert hup s₂)]
  exact ⟨s₂, rfl, hb₂⟩

end Up

section Name

variable {s₀ s : Fs} {t room d : Nat}

theorem findInodeNr_first (buf : Nat → Byte) (c : Nat) :
    FirstFrom (fun j => (decodeEntry buf (dirEntrySize * j)).iNo = c) (findInodeNr buf c) :=
  ⟨fun _ => rfl, fun _ _ h => if_pos h, fun _ _ h => if_neg h⟩

/-- The loop over the blocks gets to the block with the entry, and finds the
    number nowhere before. -/
theorem run_childNameBlocks {k j n k₀ : Nat} {name : Str} (T : DirTree s₀) (hd : IsDir s₀ d)
    (hchild : IsChild s₀ d k j) (hty : (dirEntryAt s₀ d k j).fType = .directory)
    (hname : entryName (dirEntryAt s₀ d k j) = some name) (hs : Beside s₀ s) (hle : k₀ ≤ k)
    (hlt : k < k₀ + n) (hn : k₀ + n ≤ 140) :
    (childNameBlocks (dirBlocks s₀ d) (dirEntryAt s₀ d k j).iNo n k₀).run s =
      .ok (some name, s) := by
  induction n generalizing k₀ with
  | zero => omega
  | succ n ih =>
      rw [childNameBlocks]
      by_cases hz : dirBlocks s₀ d k₀ = 0
      · have hk : k₀ ≠ k := by
          rintro rfl
          exact hchild.there hz
        rw [if_pos hz]
        exact ih (by omega) (by omega) (by omega)
      · rw [if_neg hz, run_bind_of (run_ideRead (T.blocks d k₀ hd (by omega)) (by omega) s),
          hs.disk]
        have hfirst := findInodeNr_first (sectors s₀.disk (dirBlocks s₀ d k₀) 1)
          (dirEntryAt s₀ d k j).iNo
        cases hfind : findInodeNr (sectors s₀.disk (dirBlocks s₀ d k₀) 1)
            (dirEntryAt s₀ d k j).iNo entriesPerSec 0 with
        | none =>
            have hk : k₀ ≠ k := by
              rintro rfl
              have hj := hchild.entry
              exact hfirst.of_none hfind (Nat.zero_le j) (by omega) rfl
            exact ih (by omega) (by omega) (by omega)
        | some j' =>
            rcases hfirst.of_some hfind with ⟨-, hj', hno⟩
            -- The number is in the directory only once, so this is the entry.
            rcases T.child_eq hd hchild hty ⟨by omega, by omega, hz⟩ hno with ⟨rfl, rfl⟩
            have hentry : entryName (decodeEntry (sectors s₀.disk (dirBlocks s₀ d k₀) 1)
                (dirEntrySize * j')) = some name := hname
            dsimp only
            rw [hentry, run_pure]

/-- The name of a subdirectory. -/
theorem run_getChildDirName {k j : Nat} {name : Str} (hM : Mounted t room s₀) (hm : Memory s₀)
    (T : DirTree s₀) (hd : IsDir s₀ d) (hchild : IsChild s₀ d k j)
    (hty : (dirEntryAt s₀ d k j).fType = .directory)
    (hname : entryName (dirEntryAt s₀ d k j) = some name) (hb : Back s₀ s) :
    ∃ s', (getChildDirName t d (dirEntryAt s₀ d k j).iNo).run s = .ok (some name, s') ∧
      Back s₀ s' := by
  rcases run_inodeOpen hM hm hb (T.number hd) with ⟨a, s₁, hopen, hheld⟩
  rcases run_inodeClose hM hheld with ⟨s₂, hclose, hb₂⟩
  have hsize : s₂.part.sb.dirEntrySize = dirEntrySize := hb₂.beside.sb ▸ hM.entrySize
  have h12 := hheld.sectors hM (k := 12) (by omega)
  rw [getChildDirName, run_bind_of hopen, run_bind_of (run_inodeAt (hheld.sees hM)),
    run_bind_of (run_readAllBlocks hheld.beside (fun _ hk => hheld.sectors hM hk) (T.table d hd)),
    run_bind_of hclose, run_bind_of (run_sbDirEntrySize hsize), h12]
  refine ⟨s₂, run_childNameBlocks T hd hchild hty hname hb₂.beside (Nat.zero_le k) ?_ ?_, hb₂⟩
  · by_cases htable : (diskInode s₀ d).iSectors 12 ≠ 0
    · rw [if_pos htable]
      have := hchild.block
      omega
    · -- Without a table there is no block from 12 on.
      rw [if_neg htable]
      by_contra hk
      refine hchild.there ?_
      rw [dirBlocks, if_neg htable, allBlocks, if_neg (by omega)]
  · split
    · omega
    · omega

end Name

section Loop

variable {s₀ s : Fs} {t room d : Nat} {ks : List Str}

theorem joined_cons (k : Str) (ks : List Str) : joined (k :: ks) = slash :: k ++ joined ks := rfl

/-- The loop of `sys_getcwd` collects the names of a directory from the last to
    the first. -/
theorem run_cwdLoop (hM : Mounted t room s₀) (hm : Memory s₀) (T : DirTree s₀)
    (hc : Canonical s₀ d ks) (fuel : Nat) {path : Str} (hfuel : ks.length < fuel)
    (hlen : (path ++ joined ks.reverse).length < maxPathLen) (hb : Back s₀ s) :
    ∃ s', (cwdLoop t fuel d path).run s = .ok (some (path ++ joined ks.reverse), s') ∧
      Back s₀ s' := by
  induction hc generalizing fuel path s with
  | root =>
      cases fuel with
      | zero => exact absurd hfuel (Nat.not_lt_zero _)
      | succ fuel =>
          rw [cwdLoop, if_pos rfl]
          refine ⟨s, ?_, hb⟩
          rw [run_pure, List.reverse_nil, joined, List.flatMap_nil, List.append_nil]
  | @child p k j ks name hp hchild hty hname ih =>
      have hdir : IsDir s₀ p := ⟨ks, hp⟩
      have hself : IsDir s₀ (dirEntryAt s₀ p k j).iNo := ⟨_, .child hp hchild hty hname⟩
      have hrev : path ++ joined (ks ++ [name]).reverse =
          path ++ slash :: name ++ joined ks.reverse := by
        rw [List.reverse_append, List.reverse_singleton, List.singleton_append, joined_cons,
          List.append_assoc]
      rw [hrev] at hlen ⊢
      rw [List.length_append] at hfuel
      cases fuel with
      | zero => exact absurd hfuel (Nat.not_lt_zero _)
      | succ fuel =>
          -- One step up: the number of the parent, and there the name of the child.
          rcases run_getParentDirInodeNr hM hm T hself hb with ⟨s₁, hup, hb₁⟩
          rw [T.up p k j hdir hchild hty] at hup
          rcases run_getChildDirName hM hm T hdir hchild hty hname hb₁ with ⟨s₂, hget, hb₂⟩
          have hfits : (path ++ slash :: name).length < maxPathLen := by
            rw [List.length_append] at hlen
            omega
          rw [cwdLoop, if_neg (T.notRoot p k j hdir hchild), run_bind_of hup, run_bind_of hget]
          dsimp only
          rw [run_bind_of (run_check_pos hfits s₂)]
          exact ih fuel (by rw [List.length_singleton] at hfuel; omega) hlen hb₂

/-- A path that is taken apart from its end is turned around. -/
theorem reversePath_joined {n : Nat} (h : ∀ k, k ∈ ks → slash ∉ k) (hn : ks.length ≤ n) :
    reversePath n (joined ks) = joined ks.reverse := by
  induction ks using List.reverseRecOn generalizing n with
  | nil =>
      cases n with
      | zero => rfl
      | succ n =>
          rw [reversePath]
          exact if_neg List.not_mem_nil
  | append_singleton ks k ih =>
      rw [List.length_append, List.length_singleton] at hn
      cases n with
      | zero => omega
      | succ n =>
          have hk : slash ∉ k := h k (List.mem_append_right _ List.mem_cons_self)
          have hrest : (joined ks ++ slash :: k).take
              ((joined ks ++ slash :: k).length - k.length - 1) = joined ks := by
            rw [List.length_append, List.length_cons]
            exact List.take_left' (by omega)
          rw [joined_append, reversePath,
            if_pos (List.mem_append_right _ List.mem_cons_self), baseName_append _ hk]
          dsimp only
          rw [hrest, ih (fun l hl => h l (List.mem_append_left _ hl)) (by omega),
            List.reverse_append, List.reverse_singleton, List.singleton_append, joined_cons]

/-- The names of a canonical path have no slash in them. -/
theorem Canonical.names (T : DirTree s₀) (hc : Canonical s₀ d ks) : ∀ k, k ∈ ks → slash ∉ k := by
  induction hc with
  | root => exact fun k hk => absurd hk List.not_mem_nil
  | child hp hchild hty hname ih =>
      intro k hk
      rcases List.mem_append.mp hk with hk | hk
      · exact ih k hk
      · rcases (T.named _ _ _ ⟨_, hp⟩ hchild.toEntryAt hchild.used).name with ⟨name, hn, -, hslash⟩
        rw [hname, Option.some.injEq] at hn
        rw [List.mem_singleton.mp hk, hn]
        exact hslash

/-- Only the root has no name. -/
theorem Canonical.root_or (T : DirTree s₀) (hc : Canonical s₀ d ks) :
    (d = 0 ∧ ks = []) ∨ (d ≠ 0 ∧ ks ≠ []) := by
  cases hc with
  | root => exact Or.inl ⟨rfl, rfl⟩
  | child hp hchild _ _ =>
      exact Or.inr ⟨T.notRoot _ _ _ ⟨_, hp⟩ hchild,
        List.append_ne_nil_of_right_ne_nil _ (List.cons_ne_nil _ _)⟩

theorem length_joined_reverse (ks : List Str) : (joined ks.reverse).length = (joined ks).length := by
  induction ks with
  | nil => rfl
  | cons k ks ih =>
      rw [List.reverse_cons, joined_append, List.length_append, ih, joined_cons,
        List.length_append, Nat.add_comm]

/-- `sys_getcwd` names the working directory. -/
theorem run_sysGetcwd {size : Nat} (hM : Mounted t room s₀) (hm : Memory s₀) (T : DirTree s₀)
    (hc : Canonical s₀ (s₀.cwdInodeNr t) ks) (hlen : (canonicalPath ks).length < maxPathLen)
    (hsize : (canonicalPath ks).length < size) (hb : Back s₀ s) :
    ∃ s', (sysGetcwd t size).run s = .ok (some (canonicalPath ks), s') := by
  have hcwd : s.cwdInodeNr = s₀.cwdInodeNr := by rw [hb.beside]
  have hmem := hb.beside.memory hm
  have hnum := T.number ⟨ks, hc⟩
  rw [sysGetcwd, run_bind_of hmem.run_malloc, if_pos rfl, run_bind_of (run_read _ s), hcwd,
    run_bind_of (run_assert hnum s)]
  rcases hc.root_or T with ⟨hroot, rfl⟩ | ⟨hne, hks⟩
  · rw [if_pos hroot]
    exact ⟨s, rfl⟩
  · have hpath : canonicalPath ks = joined ks := if_neg hks
    rw [hpath] at hlen hsize ⊢
    have hbytes := length_le_joined ks
    have hmax : maxPathLen = 512 := rfl
    -- The loop collects the names from the last to the first, so the buffer has the path
    -- reversed.
    have hturned : ([] ++ joined ks.reverse).length < maxPathLen := by
      rw [List.nil_append, length_joined_reverse]
      exact hlen
    rcases run_cwdLoop hM hm T hc maxPathLen (by omega) hturned hb with ⟨s₁, hloop, hb₁⟩
    have hfits : (joined ks.reverse).length ≤ size := by
      rw [length_joined_reverse]
      omega
    -- `sys_getcwd` turns it round, name by name.
    have hback : reversePath (joined ks.reverse).length (joined ks.reverse) = joined ks := by
      rw [reversePath_joined (fun k hk => hc.names T k (List.mem_reverse.mp hk))
        (length_le_joined ks.reverse), List.reverse_reverse]
    rw [if_neg hne, run_bind_of hloop]
    dsimp only
    rw [List.nil_append, run_bind_of (run_assert hfits s₁), hback]
    exact ⟨s₁, rfl⟩

end Loop

section Chdir

variable {s₀ s : Fs} {t room d : Nat} {p : Str} {ks : List Str}

/-- The machine after a task has changed its working directory. -/
def setCwd (c : Nat → Nat) (s : Fs) : Fs := { s with cwdInodeNr := c }

theorem Beside.setCwd (h : Beside s₀ s) (c : Nat → Nat) : Beside (setCwd c s₀) (setCwd c s) := by
  unfold Beside at h ⊢
  rw [h]
  rfl

theorem Back.setCwd (h : Back s₀ s) (c : Nat → Nat) : Back (setCwd c s₀) (setCwd c s) :=
  ⟨h.beside.setCwd c, h.openInodes, h.next, h.inode, h.home⟩

theorem Held.setCwd {a n : Nat} (h : Held s₀ a n s) (c : Nat → Nat) :
    Held (setCwd c s₀) a n (setCwd c s) := by
  have hbut : BackBut a (ForikOS.setCwd c s₀) (ForikOS.setCwd c s) :=
    ⟨h.beside.setCwd c, h.but.next, h.but.inode, h.but.home⟩
  cases h with
  | again _ hopen hhome ha hn hi => exact .again hbut hopen hhome ha hn hi
  | fresh _ hopen hhome ha hi hone => exact .fresh hbut hopen hhome ha hi hone

theorem DirHeld.setCwd {dir : Dir} {n : Nat} (h : DirHeld s₀ dir n s) (c : Nat → Nat) :
    DirHeld (setCwd c s₀) dir n (setCwd c s) := by
  rcases h with ⟨hd, hn, hb⟩ | ⟨hd, hh⟩
  · exact Or.inl ⟨hd, hn, hb.setCwd c⟩
  · exact Or.inr ⟨hd, hh.setCwd c⟩

theorem Mounted.setCwd (h : Mounted t room s) (c : Nat → Nat) : Mounted t room (setCwd c s) :=
  ⟨h.table, h.entrySize, h.seen, h.count, h.size, h.sectors, h.root, h.files⟩

/-- `sys_chdir` to a directory. -/
theorem run_sysChdir (hM : Mounted t room s) (hm : Memory s) (T : DirTree s) (hp : PathFits p)
    (hne : p = [slash] ∨ components p ≠ []) (hw : (diskTree s).Walks 0 (components p) d) :
    ∃ s', (sysChdir t p).run s = .ok (0, s') ∧
      Back (setCwd (Function.update s.cwdInodeNr t d) s) s' := by
  have hdir := T.isDir_of_walks hw (isDir_root s)
  rcases searchFile_follows hM hm T hp hne (Back.refl s) (NameTree.follows_dir_iff.mpr hw) with
    ⟨n, r, s₁, hrun, rfl, hty, m, -, hheld⟩
  have hcwd : s₁.cwdInodeNr = s.cwdInodeNr := by rw [hheld.beside]
  have hheld' := hheld.setCwd (Function.update s.cwdInodeNr t n)
  rcases run_dirClose_pure (0 : Int) (hM.setCwd _) hheld' with ⟨s₂, hclose, hb⟩
  have hset : { s₁ with cwdInodeNr := Function.update s₁.cwdInodeNr t n } =
      setCwd (Function.update s.cwdInodeNr t n) s₁ := by
    rw [hcwd]
    rfl
  rw [sysChdir, run_bind_of hrun]
  dsimp only
  rw [if_pos ⟨number_ne_minusOne (T.number hdir), hty⟩, run_bind_of (run_modify _ s₁), hset]
  exact ⟨s₂, hclose, hb⟩

end Chdir

section Walked

variable {s : Fs} {d n : Nat} {ks : List Str} {p : Str}

/-- The name of an entry fits its field. -/
theorem entryName_fits {e : DirEntry} {name : Str} (h : entryName e = some name) :
    name.length ≤ 15 ∧ (0 : Byte) ∉ name := by
  rw [entryName] at h
  by_cases hz : (0 : Byte) ∈ (List.range 16).map e.filename
  · rcases List.eq_append_cons_of_mem hz with ⟨x, y, hxy, hx⟩
    rw [if_pos hz, Option.some.injEq, hxy, takeWhile_terminated hx] at h
    have hlen := congrArg List.length hxy
    rw [List.length_map, List.length_range, List.length_append, List.length_cons] at hlen
    rw [← h]
    exact ⟨by omega, hx⟩
  · rw [if_neg hz] at h
    cases h

/-- Names that lead somewhere are names of entries. -/
theorem walks_names_fit (h : (diskTree s).Walks d ks n) :
    ∀ k, k ∈ ks → k.length ≤ 15 ∧ (0 : Byte) ∉ k := by
  induction h with
  | nil d => exact fun k hk => absurd hk List.not_mem_nil
  | cons hdir _ ih =>
      intro k hk
      rcases List.mem_cons.mp hk with rfl | hk
      · rcases hdir with ⟨-, _, _, -, hname, -, -⟩
        exact entryName_fits hname
      · exact ih k hk

/-- A byte of a path is a slash or belongs to a component. -/
theorem mem_path {c : Byte} (h : c ∈ p) : c = slash ∨ ∃ k, k ∈ components p ∧ c ∈ k := by
  induction p using separator_induction slash with
  | one x hx =>
      refine Or.inr ⟨x, ?_, h⟩
      rw [components_of_not_mem hx (List.ne_nil_of_mem h)]
      exact List.mem_singleton.mpr rfl
  | more x y hx ih =>
      rw [components_append_slash]
      rcases List.mem_append.mp h with h | h
      · refine Or.inr ⟨x, List.mem_append_left _ ?_, h⟩
        rw [components_of_not_mem hx (List.ne_nil_of_mem h)]
        exact List.mem_singleton.mpr rfl
      · rcases List.mem_cons.mp h with rfl | h
        · exact Or.inl rfl
        · rcases ih h with hs | ⟨k, hk, hc⟩
          · exact Or.inl hs
          · exact Or.inr ⟨k, List.mem_append_right _ hk, hc⟩

/-- An absolute path that leads to a directory fits the arrays of the code if
    it is not too long. -/
theorem PathFits.of_walks (hhead : p.head? = some slash) (hlen : p.length < maxPathLen)
    (hw : (diskTree s).Walks d (components p) n) : PathFits p := by
  refine ⟨hhead, hlen, fun k hk => (walks_names_fit hw k hk).1, fun h0 => ?_⟩
  rcases mem_path h0 with hs | ⟨k, hk, hc⟩
  · exact absurd hs (by decide)
  · exact (walks_names_fit hw k hk).2 hc

end Walked

/-- With memory left, a task that changes its working directory along any path
    is told the canonical path of the directory. -/
theorem chdir_then_getcwd (t size : Nat) (s : Fs) (p : Str) (d : Nat) (ks : List Str)
    (hM : Mounted t 0 s) (hm : Memory s) (T : DirTree s) (hhead : p.head? = some slash)
    (hlen : p.length < maxPathLen) (hne : p = [slash] ∨ components p ≠ [])
    (hw : (diskTree s).Walks 0 (components p) d) (hc : Canonical s d ks)
    (hmax : (canonicalPath ks).length < maxPathLen) (hsize : (canonicalPath ks).length < size) :
    ∃ s₁ s₂, (sysChdir t p).run s = .ok (0, s₁) ∧
      (sysGetcwd t size).run s₁ = .ok (some (canonicalPath ks), s₂) := by
  have hp := PathFits.of_walks hhead hlen hw
  rcases run_sysChdir hM hm T hp hne hw with ⟨s₁, hrun, hb⟩
  have hcwd : (setCwd (Function.update s.cwdInodeNr t d) s).cwdInodeNr t = d :=
    Function.update_self _ _ _
  generalize Function.update s.cwdInodeNr t d = c at hb hcwd
  have hdisk : (setCwd c s).disk = s.disk := rfl
  have hsb : (setCwd c s).part.sb = s.part.sb := rfl
  have hc' : Canonical (setCwd c s) ((setCwd c s).cwdInodeNr t) ks := by
    rw [hcwd]
    exact hc.congr hdisk hsb
  rcases run_sysGetcwd (hM.setCwd c) hm (T.congr hdisk hsb) hc' hmax hsize hb with ⟨s₂, hget⟩
  exact ⟨s₁, s₂, hrun, hget⟩

section SmallTree

theorem chdir_then_getcwd_dots :
    ∃ s₁ s₂, (sysChdir 0 pathDirDots).run smallTree = .ok (0, s₁) ∧
      (sysGetcwd 0 16).run s₁ = .ok (some pathDir, s₂) :=
  chdir_then_getcwd 0 16 smallTree pathDirDots 1 [[0x64]] (smallTree_mounted 0).less
    smallTree_memory smallTree_wf rfl (by decide) (Or.inr (by decide)) smallTree_pathDirDots
    smallTree_canonical (by decide) (by decide)

/-- Without memory the directory is not found. -/
theorem chdir_without_memory :
    Mounted 0 0 noMemory ∧ DirTree noMemory ∧
      (diskTree noMemory).Walks 0 (components pathDir) 1 ∧ Canonical noMemory 1 [[0x64]] ∧
      ¬ ∃ s₁, (sysChdir 0 pathDir).run noMemory = .ok (0, s₁) := by
  refine ⟨noMemory_mounted, smallTree_wf.congr noMemory_disk noMemory_sb, ?_,
    smallTree_canonical.congr noMemory_disk noMemory_sb, ?_⟩
  · have hcomp : components pathDir = [[0x64]] := by decide
    rw [diskTree_congr noMemory_disk noMemory_sb, hcomp]
    exact .cons smallTree_dir (.nil 1)
  · rintro ⟨s₁, hrun⟩
    have hres : resultOf ((sysChdir 0 pathDir).run noMemory) = some (-1) := by decide
    rw [hrun] at hres
    cases hres

end SmallTree

end ForikOS
