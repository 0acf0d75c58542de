import ForikOS.Core.DirStream
import ForikOS.Theory.DirTree

/-!
# Directory Streams

Two handles on a directory and what they return.

Everything `dir_read` changes is in the object the handle points to, and of
the file system it only reads. So two handles with an object each do not
notice each other, whatever the order of the calls and of what happens while
they wait for the disk (`undisturbed_of_ne`). An object that `dir_open` has
allocated belongs to one handle. The exception is `root_dir`: all handles that
were opened by `"/"` share its place and its buffer, and the first readdir of
one of them moves the others.

## Main definitions

* `DotsFirst`: A directory begins with `"."` and `".."`.

## Theorems

* `undisturbed_of_ne`: Handles with an object each are independent.
* `sysOpendirPtr_spec`: What `sys_opendir` points to.
* `run_dirRead`: The first two entries of a directory.
* `dir_streams_independent`: The handles are independent but for two on `"/"`.
-/

namespace ForikOS

open Prog

section Keeps

variable {t : Nat} {d d' : DirPtr}

theorem keeps_inodeAt (a : Nat) (s : Fs) : (inodeAt t a).Keeps id s :=
  keeps_bind (keeps_read _) (fun _ => keeps_bind (fun s => keeps_check s) (fun _ => keeps_read _)) s

theorem keeps_ideRead (lba n : Nat) (s : Fs) : (ideRead lba n).Keeps id s :=
  keeps_bind (fun s => keeps_check s) (fun _ => keeps_bind keeps_pause (fun _ => keeps_read _)) s

theorem keeps_readAllBlocks (i : Inode) (s : Fs) : (readAllBlocks i).Keeps id s :=
  keeps_ite (keeps_bind (keeps_ideRead _ 1) (fun _ => keeps_pure _)) (keeps_pure _) s

theorem keeps_sbDirEntrySize (s : Fs) : sbDirEntrySize.Keeps id s :=
  keeps_bind (keeps_read _) (fun _ => keeps_bind (fun s => keeps_check s) (fun _ => keeps_pure _)) s

/-- What only looks at the file system keeps it. -/
theorem keeps_besideStream {α : Type} {x : FsM α} (h : ∀ s, x.Keeps id s) (s : Fs × DirStream) :
    (focus besideStream x).Keeps Prod.fst s :=
  keeps_focus h (fun _ => rfl) s

theorem keeps_readdirBlocks (a : Nat) (all : Nat → Nat) (n blockIdx cur : Nat)
    (s : Fs × DirStream) : (readdirBlocks t a all n blockIdx cur).Keeps Prod.fst s := by
  induction n generalizing blockIdx cur s with
  | zero => trivial
  | succ n ih =>
      refine keeps_bind (keeps_besideStream (keeps_inodeAt a)) (fun i => ?_) s
      refine keeps_bind (keeps_read _) (fun dirPos => ?_)
      refine keeps_ite (keeps_pure _) (keeps_ite (ih (blockIdx + 1) cur) ?_)
      refine keeps_bind (keeps_modify (fun _ => rfl)) (fun _ => ?_)
      refine keeps_bind (keeps_besideStream (keeps_ideRead _ 1)) (fun buf => ?_)
      refine keeps_bind (keeps_modify (fun _ => rfl)) (fun _ => ?_)
      refine keeps_bind (keeps_read _) (fun dirPos => ?_)
      rcases hscan : scanBuf buf dirPos entriesPerSec 0 cur with ⟨cur', _ | j⟩
      · exact ih (blockIdx + 1) cur'
      · exact keeps_bind (fun s => keeps_check s) (fun _ =>
          keeps_bind (keeps_modify (fun _ => rfl)) (fun _ => keeps_pure _))

/-- `dir_read` does not change the file system. -/
theorem keeps_dirRead (s : Fs × DirStream) : (dirRead t).Keeps Prod.fst s := by
  refine keeps_bind (keeps_read _) (fun a => ?_) s
  refine keeps_bind (keeps_besideStream (keeps_inodeAt a)) (fun i => ?_)
  refine keeps_bind (keeps_besideStream (keeps_readAllBlocks i)) (fun all => ?_)
  exact keeps_bind (keeps_besideStream keeps_sbDirEntrySize)
    (fun _ => keeps_readdirBlocks a all _ 0 0)

/-- What a task does with a handle, as a program over its object. -/
def streamOps (t : Nat) : List DirOp → StreamM (List (Option DirEntry))
  | [] => pure []
  | .readdir :: ops => do
      let e ← dirRead t
      Prog.pause
      let es ← streamOps t ops
      pure (e :: es)
  | .rewinddir :: ops => do
      Prog.modify (fun s => (s.1, { s.2 with dirPos := 0 }))
      Prog.pause
      streamOps t ops

theorem dirOps_eq_focus (ops : List DirOp) :
    dirOps t d ops = focus (streamView d) (streamOps t ops) := by
  induction ops with
  | nil => rfl
  | cons op ops ih =>
      cases op with
      | readdir =>
          rw [streamOps, focus_bind, dirOps, ih]
          refine bind_congr (fun e => congrArg Prog.wait ?_)
          exact (focus_bind (streamView d) (streamOps t ops) (fun es => pure (e :: es))).symm
      | rewinddir =>
          rw [streamOps, focus_bind, dirOps, ih]
          rfl

theorem keeps_streamOps (ops : List DirOp) (s : Fs × DirStream) :
    (streamOps t ops).Keeps Prod.fst s := by
  induction ops generalizing s with
  | nil => trivial
  | cons op ops ih =>
      cases op with
      | readdir =>
          exact keeps_bind keeps_dirRead (fun _ => keeps_bind keeps_pause (fun _ =>
            keeps_bind ih (fun _ => keeps_pure _))) s
      | rewinddir =>
          exact keeps_bind (keeps_modify (fun _ => rfl)) (fun _ =>
            keeps_bind keeps_pause (fun _ => ih)) s

/-- The file system is all that two objects have in common. -/
theorem unseen_of_ne (h : d ≠ d') : Unseen Prod.fst (streamView d) (streamView d') := by
  intro w s hfs
  show (w.1, Function.update s.dir d w.2 d') = (s.fs, s.dir d')
  rw [Function.update_of_ne h.symm, hfs]
  rfl

/-- Handles with an object each are independent. -/
theorem undisturbed_of_ne (h : d ≠ d') (t t' : Nat) (ops ops' : List DirOp) (s : DirFs) :
    Undisturbed (dirOps t d ops) (dirOps t' d' ops') s := by
  rw [dirOps_eq_focus, dirOps_eq_focus]
  exact undisturbed_of_unseen (unseen_of_ne h) (unseen_of_ne h.symm) (keeps_streamOps ops)
    (keeps_streamOps ops') s

end Keeps

section Open

/-- No object has been allocated. -/
def SameNext (s s' : DirFs) : Prop := s'.nextDir = s.nextDir

instance : IsPreorder DirFs SameNext where
  refl _ := rfl
  trans _ _ _ h h' := h'.trans h

variable {t n : Nat} {d : DirPtr} {name : Str} {s s' : DirFs}

/-- `sys_opendir` returns `&root_dir` for the path `"/"` only. -/
theorem sysOpendir_isRoot {fs fs' : Fs} {r : Dir}
    (h : (sysOpendir t name).run fs = .ok (some r, fs')) : r.isRoot = true ↔ name = [slash] := by
  rcases run_bind_ok.mp h with ⟨_, s₁, _, h₁⟩
  rcases run_bind_ok.mp h₁ with ⟨root, s₂, hroot, h₂⟩
  by_cases hname : name = [slash]
  · rw [if_pos hname] at h₂
    have hr := (pure_ok h₂).1
    rw [Option.some.injEq] at hr
    rw [hr, (read_ok hroot).1]
    exact ⟨fun _ => hname, fun _ => rfl⟩
  · rw [if_neg hname] at h₂
    rcases run_bind_ok.mp h₂ with ⟨⟨inodeNo, rec⟩, s₃, _, h₃⟩
    -- A directory that `dir_open` returns is never the shared one.
    by_cases hdir : inodeNo ≠ minusOne ∧ rec.fileType = .directory
    · dsimp only at h₃
      rw [if_pos hdir] at h₃
      rcases run_bind_ok.mp h₃ with ⟨d, s₄, hopen, h₄⟩
      rcases run_bind_ok.mp h₄ with ⟨_, s₅, _, h₅⟩
      have hr := (pure_ok h₅).1
      rw [Option.some.injEq] at hr
      rcases run_bind_ok.mp hopen with ⟨_, s₆, _, h₆⟩
      rcases run_bind_ok.mp h₆ with ⟨a, s₇, _, h₇⟩
      rw [hr, (pure_ok h₇).1]
      exact ⟨fun hf => absurd hf Bool.false_ne_true, fun hn => absurd hn hname⟩
    · dsimp only at h₃
      rw [if_neg hdir] at h₃
      rcases run_bind_ok.mp h₃ with ⟨_, s₄, _, h₄⟩
      cases (pure_ok h₄).1

/-- What `sys_opendir` points to: nothing, `root_dir`, or an object of its
    own. -/
theorem sysOpendirPtr_spec {r : Option DirPtr}
    (h : (sysOpendirPtr t name).run s = .ok (r, s')) :
    (r = none ∧ SameNext s s') ∨ (r = some .root ∧ name = [slash] ∧ SameNext s s') ∨
      (r = some (.heap s.nextDir) ∧ name ≠ [slash] ∧ s'.nextDir = s.nextDir + 1) := by
  rcases run_bind_ok.mp h with ⟨d, s₁, hd, h₁⟩
  have hnext : SameNext s s₁ := within_focus (fun _ _ => rfl) _ s d s₁ hd
  have hfs := run_of_focus hd
  cases d with
  | none =>
      rcases pure_ok h₁ with ⟨rfl, rfl⟩
      exact Or.inl ⟨rfl, hnext⟩
  | some d =>
      have hroot := sysOpendir_isRoot hfs
      -- The root is the shared object; any other directory gets the next address.
      by_cases hisRoot : d.isRoot = true
      · dsimp only at h₁
        rw [if_pos hisRoot] at h₁
        rcases pure_ok h₁ with ⟨rfl, rfl⟩
        exact Or.inr (Or.inl ⟨rfl, hroot.mp hisRoot, hnext⟩)
      · dsimp only at h₁
        rw [if_neg hisRoot] at h₁
        rcases run_bind_ok.mp h₁ with ⟨n, s₂, hn, h₂⟩
        rcases read_ok hn with ⟨rfl, rfl⟩
        rcases run_bind_ok.mp h₂ with ⟨_, s₃, hset, h₃⟩
        rcases pure_ok h₃ with ⟨rfl, rfl⟩
        rw [modify_ok hset]
        refine Or.inr (Or.inr ⟨?_, fun hname => hisRoot (hroot.mpr hname), ?_⟩)
        · exact congrArg (fun n => some (DirPtr.heap n)) hnext
        · exact congrArg (· + 1) hnext

theorem sysOpendirPtr_nextDir {r : Option DirPtr}
    (h : (sysOpendirPtr t name).run s = .ok (r, s')) : s.nextDir ≤ s'.nextDir := by
  rcases sysOpendirPtr_spec h with ⟨-, hsame⟩ | ⟨-, -, hsame⟩ | ⟨-, -, hnext⟩
  · exact Nat.le_of_eq hsame.symm
  · exact Nat.le_of_eq hsame.symm
  · rw [hnext]
    exact Nat.le_succ _

/-- No call gives up an address that has been used. -/
theorem streamStep_nextDir {c : StreamCall} (h : streamStep s c = .ok s') :
    s.nextDir ≤ s'.nextDir := by
  -- Only opendir takes an address. Every other call leaves the counter alone.
  have hsame : ∀ x : DirM Unit, Within SameNext x → (x.run s).map Prod.snd = .ok s' →
      s.nextDir ≤ s'.nextDir := by
    intro x hx hstep
    cases hr : x.run s with
    | error e =>
        rw [hr] at hstep
        cases hstep
    | ok r =>
        rw [hr] at hstep
        cases hstep
        exact Nat.le_of_eq (hx s r.1 r.2 hr).symm
  cases c with
  | opendir t name =>
      cases hr : (sysOpendirPtr t name).run s with
      | error e =>
          rw [streamStep, StreamCall.prog, run_bind, hr] at h
          cases h
      | ok r =>
          rw [streamStep, StreamCall.prog, run_bind_of hr] at h
          cases h
          exact sysOpendirPtr_nextDir hr
  | readdir t d =>
      refine hsame _ (within_bind ?_ (fun _ => within_pure)) h
      cases d with
      | none => exact within_fail
      | some d => exact within_focus (fun _ _ => rfl) _
  | rewinddir d =>
      refine hsame _ ?_ h
      cases d with
      | none => exact within_fail
      | some d => exact within_focus (fun _ _ => rfl) _
  | closedir t d =>
      refine hsame _ (within_bind ?_ (fun _ => within_pure)) h
      cases d with
      | none => exact within_pure
      | some d => exact within_read_bind (fun _ => within_focus (fun _ _ => rfl) _)
  | other x => exact hsame _ (within_focus (fun _ _ => rfl) x) h

theorem reachable_nextDir (h : (streamSystem s).Reachable s') : s.nextDir ≤ s'.nextDir := by
  refine System.invariant_of_step (streamSystem s) (fun s' => s.nextDir ≤ s'.nextDir) ?_ ?_ s' h
  · rintro s' rfl
    exact Nat.le_refl _
  · intro s₁ c s₂ hle _ hstep
    exact Nat.le_trans hle (streamStep_nextDir hstep)

end Open

/-- The first block of the directory at `a` begins with `"."` and `".."`, as
    `partition_format` has written it. -/
structure DotsFirst (fs : Fs) (a : Nat) : Prop where
  home : fs.home a = .kernel
  size : 48 ≤ (fs.inode a).iSize
  block : (fs.inode a).iSectors 0 ≠ 0
  inRange : (fs.inode a).iSectors 0 ≤ maxLba
  table : (fs.inode a).iSectors 12 ≤ maxLba
  entrySize : fs.part.sb.dirEntrySize = dirEntrySize
  dots : ∀ k, k < 48 → fs.disk ((fs.inode a).iSectors 0 * sectorSize + k) = dotEntries 0 0 k

section Dots

variable {t : Nat} {fs : Fs} {d : DirStream}

/-- The first two entries of such a block are there. -/
theorem fType_dots {buf : Nat → Byte} (h : ∀ k, k < 48 → buf k = dotEntries 0 0 k) {j : Nat}
    (hj : j < 2) : (decodeEntry buf (dirEntrySize * j)).fType = .directory := by
  have hword : le32 buf (dirEntrySize * j + 20) = le32 (dotEntries 0 0) (dirEntrySize * j + 20) := by
    rw [le32, le32]
    unfold dirEntrySize
    rw [h _ (by omega), h _ (by omega), h _ (by omega), h _ (by omega)]
  show FileType.ofNat (le32 buf (dirEntrySize * j + 20)) = _
  rw [hword]
  rcases (show j = 0 ∨ j = 1 by omega) with rfl | rfl
  · decide
  · decide

/-- The place before one of them is where it is found. -/
theorem scanBuf_dots {buf : Nat → Byte} (h : ∀ k, k < 48 → buf k = dotEntries 0 0 k) {j : Nat}
    (hj : j < 2) :
    scanBuf buf (dirEntrySize * j) entriesPerSec 0 0 = (dirEntrySize * j, some j) := by
  have hused : ∀ i, i < 2 → ¬ (decodeEntry buf (dirEntrySize * i)).fType = .unknown := by
    intro i hi
    rw [fType_dots h hi]
    decide
  show scanBuf buf (dirEntrySize * j) (19 + 1 + 1) 0 0 = _
  rcases (show j = 0 ∨ j = 1 by omega) with rfl | rfl
  · rw [scanBuf, if_neg (hused 0 (by omega)), if_neg (by decide)]
    rfl
  · rw [scanBuf, if_neg (hused 0 (by omega)), if_pos (by decide), scanBuf,
      if_neg (hused 1 (by omega)), if_neg (by decide)]
    rfl

theorem run_besideStream {α : Type} {x : FsM α} {a : α} {fs fs' : Fs} (d : DirStream)
    (h : x.run fs = .ok (a, fs')) : (focus besideStream x).run (fs, d) = .ok (a, (fs', d)) := by
  induction x generalizing fs with
  | ret b =>
      rcases pure_ok h with ⟨rfl, rfl⟩
      rfl
  | fail e => cases h
  | get k ih => exact ih fs h
  | put w k ih => exact ih h
  | wait k ih => exact ih h

theorem run_setDirBuf (b : Nat → Byte) (fs : Fs) (d : DirStream) :
    (setDirBuf b).run (fs, d) = .ok ((), (fs, { d with dirBuf := b })) := rfl

/-- The block that `dir_read` starts with has the entry. -/
theorem run_readdirBlocks {a n : Nat} {all : Nat → Nat} (h : DotsFirst fs a) {j : Nat} (hj : j < 2)
    (hall : all 0 = (fs.inode a).iSectors 0) (hpos : d.dirPos = dirEntrySize * j) :
    ∃ buf, (∀ k, k < 48 → buf k = dotEntries 0 0 k) ∧
      (readdirBlocks t a all (n + 1) 0 0).run (fs, d) =
        .ok (some (decodeEntry buf (dirEntrySize * j)),
          (fs, ⟨d.inode, dirEntrySize * (j + 1), buf⟩)) := by
  have hbuf : ∀ k, k < 48 → sectors fs.disk (all 0) 1 k = dotEntries 0 0 k := by
    intro k hk
    rw [← h.dots k hk, hall]
    exact if_pos (show k < 1 * 512 by omega)
  have hlt : ¬ (fs.inode a).iSize ≤ d.dirPos := by
    have := h.size
    rw [hpos, dirEntrySize]
    omega
  refine ⟨_, hbuf, ?_⟩
  rw [readdirBlocks, run_bind_of (run_besideStream d (run_inodeAt (Or.inl h.home))),
    run_bind_of (run_read _ _), if_neg hlt, if_neg (by rw [hall]; exact h.block),
    run_bind_of (run_setDirBuf _ fs d), run_bind_of (run_besideStream _ (run_ideRead
      (by rw [hall]; exact h.inRange) (by omega) fs)), run_bind_of (run_setDirBuf _ fs _),
    run_bind_of (run_read _ _)]
  have hplace : add32 (dirEntrySize * j) dirEntrySize = dirEntrySize * (j + 1) := by
    rw [add32, dirEntrySize]
    omega
  rw [hpos, scanBuf_dots hbuf hj]
  show Prog.run (check _ _ >>= fun _ => _) _ = _
  rw [run_bind_of (run_check_pos rfl _), run_bind_of (run_modify _ _), run_pure, hplace]

/-- A directory is read from its first entry on. -/
theorem run_dirRead (h : DotsFirst fs d.inode) {j : Nat} (hj : j < 2)
    (hpos : d.dirPos = dirEntrySize * j) :
    ∃ buf, (∀ k, k < 48 → buf k = dotEntries 0 0 k) ∧
      (dirRead t).run (fs, d) = .ok (some (decodeEntry buf (dirEntrySize * j)),
        (fs, ⟨d.inode, dirEntrySize * (j + 1), buf⟩)) := by
  have hread : ∃ all, (readAllBlocks (fs.inode d.inode)).run fs = .ok (all, fs) ∧
      all 0 = (fs.inode d.inode).iSectors 0 := by
    rw [readAllBlocks]
    by_cases htable : (fs.inode d.inode).iSectors 12 ≠ 0
    · rw [if_pos htable, run_bind_of (run_ideRead h.table (by omega) fs), run_pure]
      exact ⟨_, rfl, if_pos (by omega)⟩
    · rw [if_neg htable, run_pure]
      exact ⟨_, rfl, if_pos (by omega)⟩
  rcases hread with ⟨all, hrun, hall⟩
  have hsize : sbDirEntrySize.run fs = .ok (dirEntrySize, fs) := by
    rw [sbDirEntrySize, run_bind_of (run_read _ fs), h.entrySize,
      run_bind_of (run_check_pos rfl fs), run_pure]
  rw [dirRead, run_bind_of (run_read _ _),
    run_bind_of (run_besideStream d (run_inodeAt (Or.inl h.home))),
    run_bind_of (run_besideStream d hrun), run_bind_of (run_besideStream d hsize)]
  by_cases htable : (fs.inode d.inode).iSectors 12 ≠ 0
  · rw [if_pos htable]
    exact run_readdirBlocks h hj hall hpos
  · rw [if_neg htable]
    exact run_readdirBlocks h hj hall hpos

end Dots

section Shared

variable {t t' : Nat} {s : DirFs}

/-- A task reads one of the first two entries. -/
theorem run_dirOps_readdir {d : DirPtr} (h : DotsFirst s.fs (s.dir d).inode) {j : Nat} (hj : j < 2)
    (hpos : (s.dir d).dirPos = dirEntrySize * j) :
    ∃ buf s', (∀ k, k < 48 → buf k = dotEntries 0 0 k) ∧
      (dirOps t d [.readdir]).run s = .ok ([some (decodeEntry buf (dirEntrySize * j))], s') ∧
      s'.fs = s.fs ∧ s'.dir d = ⟨(s.dir d).inode, dirEntrySize * (j + 1), buf⟩ := by
  rcases run_dirRead (t := t) h hj hpos with ⟨buf, hbuf, hrun⟩
  have hops : (streamOps t [.readdir]).run ((streamView d).get s) =
      .ok ([some (decodeEntry buf (dirEntrySize * j))],
        (s.fs, ⟨(s.dir d).inode, dirEntrySize * (j + 1), buf⟩)) := by
    rw [streamOps]
    exact (run_bind_of hrun).trans rfl
  rcases run_focus_of hops with ⟨s', hrun', hget⟩
  rw [← dirOps_eq_focus] at hrun'
  exact ⟨buf, s', hbuf, hrun', congrArg Prod.fst hget, congrArg Prod.snd hget⟩

/-- `root_dir` moved back to the start. -/
def rewound (s : DirFs) : DirFs :=
  (streamView .root).set (s.fs, { s.dir .root with dirPos := 0 }) s

theorem rewound_root (s : DirFs) : (rewound s).dir .root = { s.dir .root with dirPos := 0 } :=
  congrArg Prod.snd ((streamView .root).get_set (s.fs, { s.dir .root with dirPos := 0 }) s)

theorem DotsFirst.rewound (h : DotsFirst s.fs (s.dir .root).inode) :
    DotsFirst (rewound s).fs ((rewound s).dir .root).inode := by
  rw [rewound_root]
  exact h

/-- Two handles on `root_dir` are not independent: after the first has been
    moved back to the start, the other one reads an entry. -/
theorem not_undisturbed_root (h : DotsFirst s.fs (s.dir .root).inode) :
    ¬ Undisturbed (dirOps t .root [.rewinddir, .readdir]) (dirOps t' .root [.rewinddir, .readdir])
      s := by
  intro hind
  have h₁ := h.rewound
  have hpos : ∀ s, ((ForikOS.rewound s).dir .root).dirPos = dirEntrySize * 0 := by
    intro s
    rw [rewound_root]
    rfl
  -- the first handle alone
  rcases run_dirOps_readdir (t := t) h₁ (by omega) (hpos s) with ⟨buf, s', hbuf, hrun, -, -⟩
  have halone : (dirOps t .root [.rewinddir, .readdir]).outcome s =
      .ok [some (decodeEntry buf (dirEntrySize * 0))] := outcome_of_run hrun
  -- the second one, after the first has been moved back
  rcases run_dirOps_readdir (t := t') h₁.rewound (by omega) (hpos (rewound s))
    with ⟨buf₂, s₂, -, hrun₂, hfs₂, hdir₂⟩
  have h₂ : DotsFirst s₂.fs (s₂.dir .root).inode := by
    rw [hfs₂, hdir₂]
    exact h₁.rewound
  -- and the first one again
  rcases run_dirOps_readdir (t := t) (j := 1) h₂ (by omega) (by rw [hdir₂])
    with ⟨buf₃, s₃, hbuf₃, hrun₃, -, -⟩
  rcases exists_turns (x := dirOps t' .root [.rewinddir, .readdir]) (s := rewound s) hrun₂
    with ⟨n, hn⟩
  rcases exists_turns hrun₃ with ⟨m, hm⟩
  have hturns : interleave (true :: (List.replicate (n + 1) false ++ List.replicate (m + 1) true)) s
      (.inr (dirOps t .root [.rewinddir, .readdir]))
      (.inr (dirOps t' .root [.rewinddir, .readdir])) = .ok (s₃,
        .inl [some (decodeEntry buf₃ (dirEntrySize * 1))],
        .inl [some (decodeEntry buf₂ (dirEntrySize * 0))]) := by
    show interleave _ (rewound s) (.inr (dirOps t .root [.readdir])) _ = _
    rw [interleave_append (hn _).2]
    exact (hm _).1
  have hends := hind (true :: (List.replicate (n + 1) false ++ List.replicate (m + 1) true))
  rw [hturns] at hends
  have heq := (hends.1 _ rfl).symm.trans halone
  rw [Except.ok.injEq, List.cons.injEq, Option.some.injEq] at heq
  have hname : (decodeEntry buf₃ (dirEntrySize * 1)).filename 1 =
      (decodeEntry buf (dirEntrySize * 0)).filename 1 := by rw [heq.1]
  have hdiff : dotEntries 0 0 25 = dotEntries 0 0 1 := by
    rw [← hbuf₃ 25 (by omega), ← hbuf 1 (by omega)]
    exact hname
  exact absurd hdiff (by decide)

/-- Two handles are independent unless both were opened by `"/"`. -/
theorem dir_streams_independent {name name' : Str} {d d' : DirPtr} {s₀ s₁ s₂ : DirFs}
    (h : (sysOpendirPtr t name).run s₀ = .ok (some d, s₁))
    (hlater : (streamSystem s₁).Reachable s₂)
    (h' : (sysOpendirPtr t' name').run s₂ = .ok (some d', s))
    (hroot : DotsFirst s.fs (s.dir .root).inode) :
    (∀ ops ops', Undisturbed (dirOps t d ops) (dirOps t' d' ops') s) ↔
      ¬ (name = [slash] ∧ name' = [slash]) := by
  constructor
  · -- Both handles are the root one, and reading through one moves the other.
    rintro hind ⟨hname, hname'⟩
    have hd : d = .root := by
      rcases sysOpendirPtr_spec h with ⟨hn, -⟩ | ⟨hn, -⟩ | ⟨-, hne, -⟩
      · cases hn
      · exact Option.some.inj hn
      · exact absurd hname hne
    have hd' : d' = .root := by
      rcases sysOpendirPtr_spec h' with ⟨hn, -⟩ | ⟨hn, -⟩ | ⟨-, hne, -⟩
      · cases hn
      · exact Option.some.inj hn
      · exact absurd hname' hne
    rw [hd, hd'] at hind
    exact not_undisturbed_root hroot (hind _ _)
  · -- Two handles of the heap differ, as the later one came from a later address.
    intro hnames ops ops'
    refine undisturbed_of_ne (fun heq => ?_) t t' ops ops' s
    rcases sysOpendirPtr_spec h with ⟨hn, -⟩ | ⟨hn, hname, -⟩ | ⟨hn, -, hnext⟩
    · cases hn
    · rcases sysOpendirPtr_spec h' with ⟨hn', -⟩ | ⟨hn', hname', -⟩ | ⟨hn', -⟩
      · cases hn'
      · exact hnames ⟨hname, hname'⟩
      · rw [heq, hn'] at hn
        cases hn
    · have hle := reachable_nextDir hlater
      rw [heq] at hn
      rcases sysOpendirPtr_spec h' with ⟨hn', -⟩ | ⟨hn', -⟩ | ⟨hn', -⟩
      · cases hn'
      · rw [hn'] at hn
        cases hn
      · rw [hn', Option.some.injEq, DirPtr.heap.injEq] at hn
        omega

/-- A mounted disk, with no directory open but the root directory. -/
def smallStreams : DirFs := ⟨smallTree, fun _ => ⟨0, 0, fun _ => 0⟩, 0⟩

theorem smallStreams_dots : DotsFirst smallStreams.fs (smallStreams.dir .root).inode := by
  have hdots : ∀ k : Fin 48, smallTree.disk ((smallTree.inode 0).iSectors 0 * sectorSize + k) =
      dotEntries 0 0 k := by decide
  exact ⟨rfl, by decide, by decide, by decide, by decide, rfl, fun k hk => hdots ⟨k, hk⟩⟩

/-- Two handles on the root directory. -/
theorem dir_streams_independent_root :
    (∀ ops ops', Undisturbed (dirOps 0 .root ops) (dirOps 1 .root ops') smallStreams) ↔
      ¬ (([slash] : Str) = [slash] ∧ ([slash] : Str) = [slash]) :=
  dir_streams_independent
    (rfl : (sysOpendirPtr 0 [slash]).run smallStreams = .ok (some .root, smallStreams))
    (.init _ rfl)
    (rfl : (sysOpendirPtr 1 [slash]).run smallStreams = .ok (some .root, smallStreams))
    smallStreams_dots

/-- A task lists the root directory while another one does. -/
theorem shared_root_dir :
    (sysOpendirPtr 0 [slash]).run smallStreams = .ok (some .root, smallStreams) ∧
    (sysOpendirPtr 1 [slash]).run smallStreams = .ok (some .root, smallStreams) ∧
    ¬ Undisturbed (dirOps 0 .root [.rewinddir, .readdir]) (dirOps 1 .root [.rewinddir, .readdir])
      smallStreams :=
  ⟨rfl, rfl, not_undisturbed_root smallStreams_dots⟩

end Shared

end ForikOS
