import ForikOS.Theory.DirSlots
import ForikOS.Theory.DirStream

/-!
# Listing a Directory

`dir_read` returns the entries one after the other.

The place in a directory counts the entries that have been returned, 24 for
each, and not the slots. Every call starts from the first block again and
passes by as many entries as the place says. While it does, the number of
entries it has passed by is the number of entries in the blocks so far; it
stops at the entry whose number is the place. So the entries come in the order
of the blocks, holes and cleared slots left out, until their number is the size
of the directory.

## Main definitions

* `liveSlots`, `liveEntries`: The entries of a directory, in order.
* `Listed`: The size is that of the entries, and a slot without an entry is
  cleared.

## Theorems

* `mem_liveSlots`, `pairwise_liveSlots`: Every entry is in the list once.
* `run_listBlocks`, `run_dirReadAt`: One call.
* `run_dirReads`: A sequence of calls.
* `dir_listed`: The calls return the list, and a name is in it if and only if
  `search_dir_entry` finds it.
-/

namespace ForikOS

open Prog

section List

variable (disk : Nat → Byte) (i : Inode)

/-- The slots of a block that are in use. -/
def blockSlots (k : Nat) : List (Nat × Nat) :=
  if inodeBlocks disk i k = 0 then []
  else ((List.range entriesPerSec).filter
    (fun j => decide ((slotAt disk i k j).fType ≠ .unknown))).map (Prod.mk k)

/-- The slots that are in use, in the order of the blocks. -/
def liveSlots : List (Nat × Nat) := (List.range 140).flatMap (blockSlots disk i)

/-- The entries, in the order of the blocks. -/
def liveEntries : List DirEntry := (liveSlots disk i).map (fun p => slotAt disk i p.1 p.2)

/-- The size of the directory is that of its entries, what is not in use is
    cleared, and the names of the entries are not empty and end. -/
structure Listed : Prop where
  size : i.iSize = dirEntrySize * (liveSlots disk i).length
  free : FreeZero disk i
  named : ∀ k j, LiveSlot disk i k j →
    ∃ name, entryName (slotAt disk i k j) = some name ∧ name ≠ []

variable {disk i}

theorem mem_blockSlots {k : Nat} {p : Nat × Nat} : p ∈ blockSlots disk i k ↔
    p.1 = k ∧ inodeBlocks disk i k ≠ 0 ∧ p.2 < entriesPerSec ∧
      (slotAt disk i k p.2).fType ≠ .unknown := by
  rw [blockSlots]
  by_cases hz : inodeBlocks disk i k = 0
  · rw [if_pos hz]
    exact ⟨fun h => absurd h List.not_mem_nil, fun h => absurd hz h.2.1⟩
  · rw [if_neg hz, List.mem_map]
    constructor
    · rintro ⟨j, hj, rfl⟩
      rcases List.mem_filter.mp hj with ⟨hlt, hused⟩
      exact ⟨rfl, hz, List.mem_range.mp hlt, of_decide_eq_true hused⟩
    · rintro ⟨hk, -, hlt, hused⟩
      refine ⟨p.2, List.mem_filter.mpr ⟨List.mem_range.mpr hlt, decide_eq_true hused⟩, ?_⟩
      rw [← hk]

/-- The list has the slots that are in use. -/
theorem mem_liveSlots {k j : Nat} : (k, j) ∈ liveSlots disk i ↔ LiveSlot disk i k j := by
  rw [liveSlots, List.mem_flatMap]
  constructor
  · rintro ⟨k', hk', hp⟩
    rcases mem_blockSlots.mp hp with ⟨rfl, hz, hlt, hused⟩
    exact ⟨⟨List.mem_range.mp hk', hlt, hz⟩, hused⟩
  · intro h
    exact ⟨k, List.mem_range.mpr h.block, mem_blockSlots.mpr ⟨rfl, h.there, h.entry, h.used⟩⟩

/-- The list is in the order of the slots, so none is in it twice. -/
theorem pairwise_liveSlots :
    (liveSlots disk i).Pairwise (fun p p' => SlotBefore p.1 p.2 p'.1 p'.2) := by
  rw [liveSlots, List.pairwise_flatMap]
  constructor
  · intro k _
    rw [blockSlots]
    by_cases hz : inodeBlocks disk i k = 0
    · rw [if_pos hz]
      exact List.Pairwise.nil
    · rw [if_neg hz, List.pairwise_map]
      exact (List.pairwise_lt_range.filter _).imp (fun hlt => Or.inr ⟨rfl, hlt⟩)
  · refine List.pairwise_lt_range.imp (fun hlt p hp p' hp' => ?_)
    have hk := (mem_blockSlots.mp hp).1
    have hk' := (mem_blockSlots.mp hp').1
    exact Or.inl (by omega)

end List

section Scan

variable {buf : Nat → Byte} {q c m j : Nat}

/-- The used entries of a block, of `m` from `j` on. -/
def usedFrom (buf : Nat → Byte) (m j : Nat) : List Nat :=
  (List.range' j m).filter
    (fun j => decide ((decodeEntry buf (dirEntrySize * j)).fType ≠ .unknown))

theorem usedFrom_free (h : (decodeEntry buf (dirEntrySize * j)).fType = .unknown) :
    usedFrom buf (m + 1) j = usedFrom buf m (j + 1) := by
  rw [usedFrom, List.range'_succ, List.filter_cons_of_neg]
  · rfl
  · rw [decide_eq_true_eq]
    exact not_not.mpr h

theorem usedFrom_used (h : (decodeEntry buf (dirEntrySize * j)).fType ≠ .unknown) :
    usedFrom buf (m + 1) j = j :: usedFrom buf m (j + 1) := by
  rw [usedFrom, List.range'_succ, List.filter_cons_of_pos]
  · rfl
  · exact decide_eq_true h

/-- The loop over a block, after `c` entries, stops at entry `q`. -/
theorem scanBuf_found {x : Nat} (hle : c ≤ q) (h : (usedFrom buf m j)[q - c]? = some x) :
    scanBuf buf (dirEntrySize * q) m j (dirEntrySize * c) = (dirEntrySize * q, some x) := by
  induction m generalizing j c with
  | zero => cases h
  | succ m ih =>
      rw [scanBuf]
      by_cases hfree : (decodeEntry buf (dirEntrySize * j)).fType = .unknown
      · rw [usedFrom_free hfree] at h
        rw [if_pos hfree]
        exact ih hle h
      rw [usedFrom_used hfree] at h
      rw [if_neg hfree]
      by_cases hlt : c < q
      · have hindex : q - c = q - (c + 1) + 1 := by omega
        rw [hindex, List.getElem?_cons_succ] at h
        rw [if_pos (Nat.mul_lt_mul_of_pos_left hlt (by decide))]
        exact ih hlt h
      · have hcq : q = c := by omega
        rw [hcq, Nat.sub_self, List.getElem?_cons_zero, Option.some.injEq] at h
        rw [hcq, if_neg (Nat.lt_irrefl _), h]

/-- It passes by all entries of a block if there are not enough. -/
theorem scanBuf_passed (h : c + (usedFrom buf m j).length ≤ q) :
    scanBuf buf (dirEntrySize * q) m j (dirEntrySize * c) =
      (dirEntrySize * (c + (usedFrom buf m j).length), none) := by
  induction m generalizing j c with
  | zero => rfl
  | succ m ih =>
      rw [scanBuf]
      by_cases hfree : (decodeEntry buf (dirEntrySize * j)).fType = .unknown
      · rw [usedFrom_free hfree] at h ⊢
        rw [if_pos hfree]
        exact ih h
      rw [usedFrom_used hfree, List.length_cons] at h ⊢
      have hlt : c < q := by omega
      have hnext : c + ((usedFrom buf m (j + 1)).length + 1) =
          c + 1 + (usedFrom buf m (j + 1)).length := by omega
      rw [hnext] at h ⊢
      rw [if_neg hfree, if_pos (Nat.mul_lt_mul_of_pos_left hlt (by decide))]
      exact ih h

end Scan

/-- The used slots of the `n` blocks from `k` on. -/
def slotsFrom (disk : Nat → Byte) (i : Inode) (k n : Nat) : List (Nat × Nat) :=
  (List.range' k n).flatMap (blockSlots disk i)

section Blocks

variable {disk : Nat → Byte} {i : Inode} {k n : Nat}

theorem slotsFrom_succ : slotsFrom disk i k (n + 1) =
    blockSlots disk i k ++ slotsFrom disk i (k + 1) n := by
  rw [slotsFrom, List.range'_succ, List.flatMap_cons]
  rfl

theorem blockSlots_used (hz : inodeBlocks disk i k ≠ 0) : blockSlots disk i k =
    (usedFrom (blockBytes disk i k) entriesPerSec 0).map (Prod.mk k) := by
  rw [blockSlots, if_neg hz, List.range_eq_range']
  rfl

theorem liveSlots_eq : liveSlots disk i = slotsFrom disk i 0 140 := by
  rw [liveSlots, List.range_eq_range']
  rfl

/-- Without a table the direct blocks are all. -/
theorem liveSlots_noTable (h12 : i.iSectors 12 = 0) : liveSlots disk i = slotsFrom disk i 0 12 := by
  have hrest : (List.range' 12 128).flatMap (blockSlots disk i) = [] := by
    refine List.flatMap_eq_nil_iff.mpr (fun k hk => ?_)
    rcases List.mem_range'.mp hk with ⟨m, -, hkm⟩
    exact if_pos (inodeBlocks_noTable h12 (by omega))
  have hsplit : List.range' 0 140 = List.range' 0 12 ++ List.range' 12 128 := rfl
  rw [liveSlots_eq, slotsFrom, hsplit, List.flatMap_append, hrest, List.append_nil]
  rfl

theorem length_slotsFrom_le : (slotsFrom disk i k n).length ≤ 21 * n := by
  induction n generalizing k with
  | zero => exact Nat.le_refl _
  | succ n ih =>
      have hblock : (blockSlots disk i k).length ≤ 21 := by
        by_cases hz : inodeBlocks disk i k = 0
        · rw [blockSlots, if_pos hz]
          exact Nat.zero_le _
        · rw [blockSlots_used hz, List.length_map]
          exact Nat.le_trans (List.length_filter_le _ _) (Nat.le_of_eq List.length_range')
      have hrest := ih (k := k + 1)
      rw [slotsFrom_succ, List.length_append]
      omega

end Blocks

section Read

variable {fs : Fs} {d : DirStream} {t q : Nat}

/-- The loop over the `n` blocks from `k` on, after `c` entries. -/
theorem run_listBlocks {n k c : Nat} (hd : DirAt t d.inode fs) (hkn : k + n ≤ 140) (hle : c ≤ q)
    (hpos : d.dirPos = dirEntrySize * q)
    (hsize : (fs.inode d.inode).iSize =
      dirEntrySize * (c + (slotsFrom fs.disk (fs.inode d.inode) k n).length))
    (hword : c + (slotsFrom fs.disk (fs.inode d.inode) k n).length ≤ 2940) :
    ∃ buf, (readdirBlocks t d.inode (inodeBlocks fs.disk (fs.inode d.inode)) n k
        (dirEntrySize * c)).run (fs, d) =
      .ok (((slotsFrom fs.disk (fs.inode d.inode) k n)[q - c]?).map
          (fun p => slotAt fs.disk (fs.inode d.inode) p.1 p.2),
        (fs, ⟨d.inode, if q < c + (slotsFrom fs.disk (fs.inode d.inode) k n).length then
          dirEntrySize * (q + 1) else dirEntrySize * q, buf⟩)) := by
  have hsec : dirEntrySize = 24 := rfl
  -- The induction is on the blocks that are left. The number c of entries passed
  -- so far ties the position in memory to the list.
  induction n generalizing k c d with
  | zero =>
      refine ⟨d.dirBuf, ?_⟩
      have hnone : slotsFrom fs.disk (fs.inode d.inode) k 0 = [] := rfl
      rw [readdirBlocks, run_pure, hnone, List.getElem?_nil, Option.map_none, List.length_nil,
        if_neg (by omega), ← hpos]
  | succ n ih =>
      rw [readdirBlocks, run_bind_of (run_besideStream d (run_inodeAt hd.sees)),
        run_bind_of (run_read _ _)]
      by_cases hend : (fs.inode d.inode).iSize ≤ d.dirPos
      · -- the place is at the end, so there is no entry with its number
        have hq : c + (slotsFrom fs.disk (fs.inode d.inode) k (n + 1)).length ≤ q := by
          rw [hsize, hpos] at hend
          exact Nat.le_of_mul_le_mul_left hend (by decide)
        refine ⟨d.dirBuf, ?_⟩
        rw [if_pos hend, run_pure, List.getElem?_eq_none (by omega), Option.map_none,
          if_neg (by omega), ← hpos]
      rw [if_neg hend]
      rw [slotsFrom_succ, List.length_append] at hsize hword
      rw [slotsFrom_succ, List.length_append]
      -- A block that is not there has no entries, and the loop goes on.
      by_cases hz : inodeBlocks fs.disk (fs.inode d.inode) k = 0
      · have hnone : blockSlots fs.disk (fs.inode d.inode) k = [] := if_pos hz
        rw [hnone, List.length_nil, Nat.zero_add] at hsize hword
        rw [if_pos hz, hnone, List.length_nil, Nat.zero_add, List.nil_append]
        exact ih hd (by omega) hle hpos hsize hword
      generalize hbuf : blockBytes fs.disk (fs.inode d.inode) k = buf
      have hread : (ideRead (inodeBlocks fs.disk (fs.inode d.inode) k) 1).run fs = .ok (buf, fs) :=
        hbuf ▸ run_dirBlock hd (by omega)
      have hused := blockSlots_used hz
      rw [hbuf] at hused
      rw [if_neg hz, run_bind_of (run_setDirBuf _ fs d),
        run_bind_of (run_besideStream _ hread), run_bind_of (run_setDirBuf _ fs _),
        run_bind_of (run_read _ _)]
      rw [hused, List.length_map] at hsize hword ⊢
      by_cases hhere : q < c + (usedFrom buf entriesPerSec 0).length
      · -- the entry is in this block
        have hsome := List.getElem?_eq_getElem (show q - c < (usedFrom buf entriesPerSec 0).length
          by omega)
        generalize (usedFrom buf entriesPerSec 0)[q - c] = x at hsome
        have hadd : add32 (dirEntrySize * q) dirEntrySize = dirEntrySize * (q + 1) := by
          rw [add32, dirEntrySize]
          omega
        refine ⟨buf, ?_⟩
        dsimp only
        rw [hpos, scanBuf_found hle hsome]
        show Prog.run (check _ _ >>= fun _ => _) _ = _
        rw [run_bind_of (run_check_pos rfl _), run_bind_of (run_modify _ _), run_pure, hadd,
          if_pos (by omega), List.getElem?_append_left (by rw [List.length_map]; omega),
          List.getElem?_map, hsome, Option.map_some, Option.map_some, slotAt, hbuf]
      · -- all entries of this block are passed by
        have hpassed := scanBuf_passed (j := 0) (Nat.le_of_not_lt hhere)
        dsimp only
        rw [hpos, hpassed]
        rw [← Nat.add_assoc] at hsize hword
        rcases ih (d := ⟨d.inode, dirEntrySize * q, buf⟩) hd (by omega) (Nat.le_of_not_lt hhere) rfl
          hsize hword with ⟨buf', hrun⟩
        refine ⟨buf', hrun.trans ?_⟩
        rw [← Nat.add_assoc, List.getElem?_append_right (by rw [List.length_map]; omega),
          List.length_map, Nat.sub_add_eq]

/-- One call of `dir_read` with the place at entry `q`, or at the end. -/
theorem run_dirReadAt (hd : DirAt t d.inode fs) (hl : Listed fs.disk (fs.inode d.inode))
    (hpos : d.dirPos = dirEntrySize * min q (liveSlots fs.disk (fs.inode d.inode)).length) :
    ∃ buf, (dirRead t).run (fs, d) = .ok ((liveEntries fs.disk (fs.inode d.inode))[q]?,
      (fs, ⟨d.inode,
        dirEntrySize * min (q + 1) (liveSlots fs.disk (fs.inode d.inode)).length, buf⟩)) := by
  have hloop : ∃ buf, (readdirBlocks t d.inode (inodeBlocks fs.disk (fs.inode d.inode))
      (if (fs.inode d.inode).iSectors 12 ≠ 0 then 140 else 12) 0 (dirEntrySize * 0)).run (fs, d) =
      .ok (((liveSlots fs.disk (fs.inode d.inode))[
          min q (liveSlots fs.disk (fs.inode d.inode)).length - 0]?).map
          (fun p => slotAt fs.disk (fs.inode d.inode) p.1 p.2),
        (fs, ⟨d.inode, if min q (liveSlots fs.disk (fs.inode d.inode)).length <
            0 + (liveSlots fs.disk (fs.inode d.inode)).length then
          dirEntrySize * (min q (liveSlots fs.disk (fs.inode d.inode)).length + 1)
          else dirEntrySize * min q (liveSlots fs.disk (fs.inode d.inode)).length, buf⟩)) := by
    have hsize := hl.size
    rw [← Nat.zero_add (liveSlots fs.disk (fs.inode d.inode)).length] at hsize
    -- With a table the loop has 140 blocks, else 12; the entries are the same.
    by_cases h12 : (fs.inode d.inode).iSectors 12 ≠ 0
    · have hword := @length_slotsFrom_le fs.disk (fs.inode d.inode) 0 140
      rw [if_pos h12]
      rw [liveSlots_eq] at hsize hpos ⊢
      exact run_listBlocks hd (by omega) (Nat.zero_le _) hpos hsize (by omega)
    · have hword := @length_slotsFrom_le fs.disk (fs.inode d.inode) 0 12
      rw [if_neg h12]
      rw [liveSlots_noTable (not_not.mp h12)] at hsize hpos ⊢
      exact run_listBlocks hd (by omega) (Nat.zero_le _) hpos hsize (by omega)
  rcases hloop with ⟨buf, hloop⟩
  refine ⟨buf, ?_⟩
  rw [dirRead, run_bind_of (run_read _ _), run_bind_of (run_besideStream d (run_inodeAt hd.sees)),
    run_bind_of (run_besideStream d (run_inodeBlocks hd.table)),
    run_bind_of (run_besideStream d (run_sbDirEntrySize hd.entrySize))]
  refine hloop.trans ?_
  rw [Nat.sub_zero, Nat.zero_add, liveEntries, List.getElem?_map]
  by_cases hq : q < (liveSlots fs.disk (fs.inode d.inode)).length
  · rw [Nat.min_eq_left (by omega), Nat.min_eq_left (by omega), if_pos hq]
  · rw [Nat.min_eq_right (by omega), Nat.min_eq_right (by omega), if_neg (Nat.lt_irrefl _),
      List.getElem?_eq_none (Nat.le_refl _), List.getElem?_eq_none (by omega)]

/-- One call after the other. -/
theorem run_dirReads {m : Nat} (hd : DirAt t d.inode fs)
    (hl : Listed fs.disk (fs.inode d.inode))
    (hpos : d.dirPos = dirEntrySize * min q (liveSlots fs.disk (fs.inode d.inode)).length) :
    ∃ s', (streamOps t (List.replicate m .readdir)).run (fs, d) = .ok
      ((List.range' q m).map (fun x => (liveEntries fs.disk (fs.inode d.inode))[x]?), s') := by
  induction m generalizing d q with
  | zero => exact ⟨_, rfl⟩
  | succ m ih =>
      rcases run_dirReadAt (t := t) hd hl hpos with ⟨buf, hread⟩
      rcases ih (d := ⟨d.inode,
        dirEntrySize * min (q + 1) (liveSlots fs.disk (fs.inode d.inode)).length, buf⟩) hd hl rfl
        with ⟨s', hrest⟩
      rw [List.replicate_succ, streamOps, run_bind_of hread, run_bind_of (run_pause _),
        run_bind_of hrest, run_pure, List.range'_succ, List.map_cons]
      exact ⟨s', rfl⟩

end Read

/-- A name is in the list if and only if `search_dir_entry` finds it. -/
theorem listed_iff_found {s : Fs} {t : Nat} {d : Dir} {name : Str} (hd : DirAt t d.inode s)
    (hl : Listed s.disk (s.inode d.inode)) (hm : Memory s) (hne : name ≠ [])
    (h0 : (0 : Byte) ∉ name) :
    (∃ e, e ∈ liveEntries s.disk (s.inode d.inode) ∧ entryName e = some name) ↔
      ∃ e s', (searchDirEntry t d name).run s = .ok (some e, s') := by
  rcases run_searchDir hd hm name with ⟨found, hrun, hfirst⟩
  have hnamed : ∀ k j, LiveSlot s.disk (s.inode d.inode) k j →
      (Matches s.disk (s.inode d.inode) name k j ↔
        entryName (slotAt s.disk (s.inode d.inode) k j) = some name) := by
    intro k j hlive
    rcases hl.named k j hlive with ⟨name', hname', -⟩
    exact matches_iff_named hlive.toSlot hname' h0
  constructor
  · rintro ⟨e, he, hname⟩
    rcases List.mem_map.mp he with ⟨⟨k, j⟩, hp, rfl⟩
    have hmatch := (hnamed k j (mem_liveSlots.mp hp)).mpr hname
    cases found with
    | none => exact absurd hmatch (hfirst k j)
    | some e => exact ⟨e, s, hrun⟩
  · rintro ⟨e, s', hrun'⟩
    rw [hrun, Except.ok.injEq, Prod.mk.injEq] at hrun'
    rw [hrun'.1] at hfirst
    rcases hfirst with ⟨k, j, hmatch, rfl, -⟩
    have hlive := hmatch.live hl.free h0 hne
    exact ⟨_, List.mem_map.mpr ⟨(k, j), mem_liveSlots.mpr hlive, rfl⟩,
      (hnamed k j hlive).mp hmatch⟩

/-- Reading a directory from its start returns every entry once, in the order
    of the blocks, and then nothing any more. A name is among the entries if
    and only if `search_dir_entry` finds it. -/
theorem dir_listed (t : Nat) (p : DirPtr) (s : DirFs) (hd : DirAt t (s.dir p).inode s.fs)
    (hl : Listed s.fs.disk (s.fs.inode (s.dir p).inode)) (hpos : (s.dir p).dirPos = 0) :
    (∀ m, ∃ s', (dirOps t p (List.replicate m .readdir)).run s = .ok
      ((List.range m).map (fun q => (liveEntries s.fs.disk (s.fs.inode (s.dir p).inode))[q]?),
        s')) ∧
    ((liveSlots s.fs.disk (s.fs.inode (s.dir p).inode)).Pairwise
        (fun x y => SlotBefore x.1 x.2 y.1 y.2) ∧
      ∀ k j, (k, j) ∈ liveSlots s.fs.disk (s.fs.inode (s.dir p).inode) ↔
        LiveSlot s.fs.disk (s.fs.inode (s.dir p).inode) k j) ∧
    (Memory s.fs → ∀ isRoot name, name ≠ [] → (0 : Byte) ∉ name →
      ((∃ e, e ∈ liveEntries s.fs.disk (s.fs.inode (s.dir p).inode) ∧ entryName e = some name) ↔
        ∃ e s', (searchDirEntry t ⟨(s.dir p).inode, isRoot⟩ name).run s.fs =
          .ok (some e, s'))) := by
  refine ⟨fun m => ?_, ⟨pairwise_liveSlots, fun k j => mem_liveSlots⟩,
    fun hm isRoot name hne h0 => listed_iff_found (d := ⟨_, isRoot⟩) hd hl hm hne h0⟩
  have hstart : (s.dir p).dirPos =
      dirEntrySize * min 0 (liveSlots s.fs.disk (s.fs.inode (s.dir p).inode)).length := by
    rw [hpos, Nat.zero_min, Nat.mul_zero]
  rcases run_dirReads (m := m) hd hl hstart with ⟨w, hrun⟩
  have hops : (streamOps t (List.replicate m .readdir)).run ((streamView p).get s) =
      .ok ((List.range' 0 m).map
        (fun q => (liveEntries s.fs.disk (s.fs.inode (s.dir p).inode))[q]?), w) := hrun
  rcases run_focus_of hops with ⟨s', hrun', -⟩
  rw [← dirOps_eq_focus, ← List.range_eq_range'] at hrun'
  exact ⟨s', hrun'⟩

/-- A root directory with many files, about to be read. -/
def largeStreams : DirFs := ⟨largeDir, fun _ => ⟨0, 0, fun _ => 0⟩, 0⟩

set_option maxRecDepth 20000 in
theorem length_largeDir : (liveSlots largeDisk (largeDir.inode 0)).length = 253 := by
  decide +kernel

theorem largeDir_listed : Listed largeDir.disk (largeDir.inode 0) := by
  have hused : ∀ k j, k < 13 → j < 21 →
      (slotAt largeDisk (largeDir.inode 0) k j).fType = .unknown → 253 ≤ 21 * k + j := by
    intro k j hk hj hfree
    exact (largeDir_facts.free ⟨k, hk⟩ ⟨j, hj⟩).mp hfree
  refine ⟨?_, fun k j b hslot hfree hb => ?_, fun k j hlive => ?_⟩
  · have hsize : (largeDir.inode 0).iSize = dirEntrySize * 253 := rfl
    have hdisk : largeDir.disk = largeDisk := rfl
    rw [hsize, hdisk, length_largeDir]
  · rcases largeDir_slot hslot with ⟨hk, hj⟩
    have hlast := hused k j hk hj hfree
    have hk12 : k = 12 := by omega
    rw [hk12]
    exact largeDir_facts.cleared ⟨j, hj⟩ ⟨b, hb⟩ (by dsimp only; omega)
  · rcases largeDir_slot hlive.toSlot with ⟨hk, hj⟩
    have hlt : 21 * k + j < 253 := by
      by_contra hge
      exact hlive.used ((largeDir_facts.free ⟨k, hk⟩ ⟨j, hj⟩).mpr (by dsimp only; omega))
    rcases largeDir_facts.named ⟨k, hk⟩ ⟨j, hj⟩ hlt with ⟨hsome, hne⟩
    rcases Option.isSome_iff_exists.mp hsome with ⟨name, hname⟩
    rw [hname] at hne
    exact ⟨name, hname, fun hnil => hne (congrArg some hnil)⟩

theorem dir_listed_large :
    (∀ m, ∃ s', (dirOps 0 .root (List.replicate m .readdir)).run largeStreams = .ok
      ((List.range m).map (fun q => (liveEntries largeDir.disk (largeDir.inode 0))[q]?), s')) ∧
    ∃ e s', (searchDirEntry 0 ⟨0, true⟩ dotdotName).run largeDir = .ok (some e, s') := by
  rcases dir_listed 0 .root largeStreams largeDir_at largeDir_listed rfl with ⟨hcalls, -, hnames⟩
  refine ⟨hcalls, (hnames (fun _ => rfl) true dotdotName (by decide) (by decide)).mp ?_⟩
  have hlive : LiveSlot largeDir.disk (largeDir.inode 0) 0 1 := by
    refine ⟨⟨by decide, by decide, by decide⟩, fun hfree => ?_⟩
    exact absurd ((largeDir_facts.free 0 1).mp hfree) (by decide)
  exact ⟨_, List.mem_map.mpr ⟨(0, 1), mem_liveSlots.mpr hlive, rfl⟩, by decide⟩

end ForikOS
