import ForikOS.Theory.FileGrow

/-!
# Reading a File

What `file_read` returns, and how far it gets.

The addresses are gathered for the blocks from the position to the end of what
is read, both included. A read that ends where a block ends names the block
after it, which the file owns because `file_write` takes one block ahead; the
address is there, and the loop never uses it.

The loop only looks, so the place it has come to is all that changes. It reads
a sector for every chunk, and a chunk is the part of one block that is asked
for.

## Main definitions

* `readRound`: One round of the loop.
* `Advanced`: Only the position has changed.

## Theorems

* `run_readChunks`: What the loop puts into the buffer.
* `run_collectRead`: The addresses it uses are those of the file.
* `file_read_slice`: `file_read` returns the bytes at the position.
-/

namespace ForikOS

open Prog

/-- One round of the loop of `file_read`: the number of bytes it reads, and
    the buffer. -/
def readRound (g size : Nat) (all : Nat → Nat) (bytesRead : Nat) (dst : Nat → Byte) :
    FsM (Nat × (Nat → Byte)) := do
  let pos ← Prog.read (fun s => (s.fileTable g).fdPos)
  Prog.check (pos / sectorSize < 140) .wild
  let secOffBytes := pos % sectorSize
  let chunkSize := min (size - bytesRead) (sectorSize - secOffBytes)
  let buf ← ideRead (all (pos / sectorSize)) 1
  Prog.modify (fun s => s.setFile g
    { s.fileTable g with fdPos := add32 (s.fileTable g).fdPos chunkSize })
  pure (chunkSize, memcpyTo dst bytesRead chunkSize (fun k => buf (secOffBytes + k)))

/-- The position of slot `g` has moved on. -/
def Advanced (g c : Nat) (s s' : Fs) : Prop :=
  s' = s.setFile g { s.fileTable g with fdPos := (s.fileTable g).fdPos + c }

namespace Advanced

variable {g c c' : Nat} {s s₁ s' : Fs}

theorem refl (g : Nat) (s : Fs) : Advanced g 0 s s := by
  show s = { s with fileTable := Function.update s.fileTable g (s.fileTable g) }
  rw [Function.update_eq_self]

theorem fdPos (h : Advanced g c s s') : (s'.fileTable g).fdPos = (s.fileTable g).fdPos + c := by
  rw [h]
  show (Function.update s.fileTable g _ g).fdPos = _
  rw [Function.update_self]

theorem disk (h : Advanced g c s s') : s'.disk = s.disk := by
  rw [h]
  rfl

theorem trans (h : Advanced g c s s₁) (h' : Advanced g c' s₁ s') : Advanced g (c + c') s s' := by
  unfold Advanced at h h' ⊢
  rw [h', h]
  show { s with fileTable := Function.update (Function.update s.fileTable g _) g _ } = _
  rw [Function.update_idem]
  show { s with fileTable := Function.update s.fileTable g _ } =
    { s with fileTable := Function.update s.fileTable g _ }
  simp only [Fs.setFile, Function.update_self, Nat.add_assoc]

end Advanced

section Loop

variable {g size : Nat} {all : Nat → Nat} {s : Fs}

theorem readChunks_succ {r : Nat} (hr : r < size) (n : Nat) (dst : Nat → Byte) :
    readChunks g size all (n + 1) r dst =
      readRound g size all r dst >>= fun p => readChunks g size all n (r + p.1) p.2 := by
  rw [readChunks, if_pos hr, readRound]
  simp only [bind_assoc, pure_bind]

theorem readChunks_done {r : Nat} (hr : ¬ r < size) (n : Nat) (dst : Nat → Byte) :
    readChunks g size all n r dst = pure dst := by
  cases n with
  | zero => rfl
  | succ n => rw [readChunks, if_neg hr]

/-- What a round does. -/
theorem run_readRound (hpos : (s.fileTable g).fdPos / 512 < 140)
    (hall : all ((s.fileTable g).fdPos / 512) ≤ maxLba) {r : Nat} (hr : r < size)
    (dst : Nat → Byte) :
    ∃ c dst' s₁, (readRound g size all r dst).run s = .ok ((c, dst'), s₁) ∧
      c = min (size - r) (512 - (s.fileTable g).fdPos % 512) ∧ Advanced g c s s₁ ∧
      ∀ k, dst' k = if r ≤ k ∧ k < r + c then
        s.disk (all ((s.fileTable g).fdPos / 512) * 512 + ((s.fileTable g).fdPos % 512 + (k - r)))
        else dst k := by
  generalize hp : (s.fileTable g).fdPos = pos at hpos hall
  let c := min (size - r) (512 - pos % 512)
  let buf := sectors s.disk (all (pos / 512)) 1
  have hsum : add32 pos c = pos + c := by
    rw [add32, Nat.mod_eq_of_lt (by omega)]
  refine ⟨c, memcpyTo dst r c (fun k => buf (pos % 512 + k)),
    s.setFile g { s.fileTable g with fdPos := add32 (s.fileTable g).fdPos c }, ?_, rfl, ?_,
    fun k => ?_⟩
  · rw [readRound, run_bind_of (run_read _ s), hp]
    show ((Prog.check (pos / 512 < 140) FsFault.wild : FsM Unit) >>= _).run s = _
    rw [run_bind_of (run_check_pos hpos s)]
    show (ideRead (all (pos / 512)) 1 >>= _).run s = _
    rw [run_bind_of (run_ideRead hall (by omega) s), run_bind_of (run_modify _ s), run_pure, hp]
    rfl
  · rw [Advanced, hp, hsum]
  · by_cases hk : r ≤ k ∧ k < r + c
    · rw [memcpyTo, if_pos hk, if_pos hk]
      exact if_pos (show pos % 512 + (k - r) < 1 * 512 by omega)
    · rw [memcpyTo, if_neg hk, if_neg hk]

/-- The loop, up to the end of what is asked for. -/
theorem run_readChunks (n : Nat) : ∀ (s : Fs) (r : Nat) (dst : Nat → Byte), r ≤ size →
    size ≤ r + n → (s.fileTable g).fdPos + (size - r) ≤ 71680 →
    (∀ p, (s.fileTable g).fdPos ≤ p → p < (s.fileTable g).fdPos + (size - r) →
      all (p / 512) ≤ maxLba) →
    ∃ dst' s', (readChunks g size all n r dst).run s = .ok (dst', s') ∧
      Advanced g (size - r) s s' ∧
      ∀ k, dst' k = if r ≤ k ∧ k < size then
        s.disk (all (((s.fileTable g).fdPos + (k - r)) / 512) * 512 +
          ((s.fileTable g).fdPos + (k - r)) % 512) else dst k := by
  -- The induction is on the fuel, over the place in the destination.
  induction n with
  | zero =>
      intro s r dst hle hfuel _ _
      rw [show size - r = 0 by omega]
      exact ⟨dst, s, rfl, Advanced.refl g s, fun k => (if_neg (by omega)).symm⟩
  | succ n ih =>
      intro s r dst hle hfuel hend hall
      by_cases hr : r < size
      · rcases run_readRound (g := g) (by omega)
          (hall (s.fileTable g).fdPos (Nat.le_refl _) (by omega)) hr dst
          with ⟨c, dst₁, s₁, hround, hc, hadv, hdst⟩
        have hpos := hadv.fdPos
        rcases ih s₁ (r + c) dst₁ (by omega) (by omega) (by omega)
          (fun p hp hp' => hall p (by omega) (by omega)) with ⟨dst', s', hrun, hadv', hdst'⟩
        refine ⟨dst', s', ?_, ?_, fun k => ?_⟩
        · rw [readChunks_succ hr, run_bind_of hround, hrun]
        · rw [show size - r = c + (size - (r + c)) by omega]
          exact hadv.trans hadv'
        · rw [hdst' k, hdst k, hadv.disk]
          by_cases hk : r ≤ k ∧ k < size
          · rw [if_pos hk]
            by_cases hkc : k < r + c
            · -- the chunk ends with the block, so the byte is in this one
              have hblock : ((s.fileTable g).fdPos + (k - r)) / 512 =
                  (s.fileTable g).fdPos / 512 := by omega
              have hoff : ((s.fileTable g).fdPos + (k - r)) % 512 =
                  (s.fileTable g).fdPos % 512 + (k - r) := by omega
              rw [if_neg (by omega), if_pos (by omega), hblock, hoff]
            · rw [if_pos (by omega)]
              rw [show (s₁.fileTable g).fdPos + (k - (r + c)) =
                (s.fileTable g).fdPos + (k - r) by omega]
          · rw [if_neg hk, if_neg (by omega), if_neg (by omega)]
      · rw [readChunks_done hr, show size - r = 0 by omega]
        exact ⟨dst, s, rfl, Advanced.refl g s, fun k => (if_neg (by omega)).symm⟩

/-- Wherever the loop stops, it has not read more than it was asked for. -/
theorem stop_readChunks (all : Nat → Nat) (n : Nat) :
    ∀ (s : Fs) (r : Nat) (dst : Nat → Byte), r ≤ size →
    (s.fileTable g).fdPos + (size - r) ≤ 71680 →
    ((((readChunks g size all n r dst).stop s).fileTable g).fdPos) ≤
      (s.fileTable g).fdPos + (size - r) := by
  induction n with
  | zero => exact fun s r dst _ _ => Nat.le_add_right _ _
  | succ n ih =>
      intro s r dst hle hend
      by_cases hr : r < size
      · rw [readChunks_succ hr]
        by_cases hlba : all ((s.fileTable g).fdPos / 512) ≤ maxLba
        · rcases run_readRound (g := g) (by omega) hlba hr dst
            with ⟨c, dst₁, s₁, hround, hc, hadv, -⟩
          have hpos := hadv.fdPos
          have hrest := ih s₁ (r + c) dst₁ (by omega) (by omega)
          rw [stop_bind_ok hround]
          show (((readChunks g size all n (r + c) dst₁).stop s₁).fileTable g).fdPos ≤ _
          omega
        · -- the assertion of `ide_read` stops the round
          have hread : Stops (ideRead (all ((s.fileTable g).fdPos / 512)) 1) s
              (.assertion .ideRead) s :=
            stops_bind (stops_check (fun hc => hlba hc.1) s)
          have hround : Stops (readRound g size all r dst) s (.assertion .ideRead) s :=
            stops_bind_of (run_read _ s) (stops_bind_of (run_check_pos (by
              show (s.fileTable g).fdPos / 512 < 140
              omega) s) (stops_bind hread))
          rw [(stops_bind hround).2]
          exact Nat.le_add_right _ _
      · rw [readChunks_done hr]
        exact Nat.le_add_right _ _

/-- When more is asked for than the blocks hold, the loop goes on to the end
    of `all_blocks`. -/
theorem stops_readChunks (hall : ∀ k, all k ≤ maxLba) (n : Nat) :
    ∀ (s : Fs) (r : Nat) (dst : Nat → Byte), r ≤ size → size ≤ r + n →
    (s.fileTable g).fdPos ≤ 71680 → 71680 < (s.fileTable g).fdPos + (size - r) →
    ∃ s', Stops (readChunks g size all n r dst) s .wild s' ∧ (s'.fileTable g).fdPos = 71680 := by
  induction n with
  | zero =>
      intro s r dst hle hfuel hend hmore
      omega
  | succ n ih =>
      intro s r dst hle hfuel hend hmore
      have hr : r < size := by omega
      rw [readChunks_succ hr]
      by_cases hfull : (s.fileTable g).fdPos / 512 < 140
      · rcases run_readRound (g := g) hfull (hall _) hr dst
          with ⟨c, dst₁, s₁, hround, hc, hadv, -⟩
        have hpos := hadv.fdPos
        rcases ih s₁ (r + c) dst₁ (by omega) (by omega) (by omega) (by omega)
          with ⟨s', hstop, hpos'⟩
        exact ⟨s', stops_bind_of hround hstop, hpos'⟩
      · exact ⟨s, stops_bind (stops_bind_of (run_read _ s) (stops_bind (stops_check hfull s))),
          by omega⟩

end Loop

section Read

variable {t g a count : Nat} {s : Fs}

/-- The addresses `file_read` gathers are those of the blocks it names, and
    sectors of the disk. -/
theorem run_collectRead {last stop : Nat} (first : Nat) (h : Recorded a last s)
    (hend : stop ≤ last) :
    ∃ all, (collectRead (s.inode a) first stop).run s = .ok (all, s) ∧
      (∀ k, all k ≤ maxLba) ∧
      ∀ k, first ≤ k → k ≤ stop → all k = fileBlocks s.disk (s.inode a) k := by
  have hslot : ∀ k, k < 12 → (s.inode a).iSectors k ≤ maxLba := by
    intro k hk
    rw [← fileBlocks_direct (d := s.disk) hk]
    exact h.block_le (Or.inl hk)
  -- The blocks are all direct, or the table is read for those behind slot 11.
  by_cases h12 : stop < 12
  · refine ⟨fun k => if first ≤ k ∧ k ≤ stop then (s.inode a).iSectors k else 0, ?_, fun k => ?_,
      fun k hk hk' => ?_⟩
    · rw [collectRead, if_pos h12, run_pure]
    · by_cases hk : first ≤ k ∧ k ≤ stop
      · exact (if_pos hk).trans_le (hslot k (by omega))
      · exact (if_neg hk).trans_le (Nat.zero_le _)
    · rw [fileBlocks_direct (by omega)]
      exact if_pos ⟨hk, hk'⟩
  · have htable := h.laid.table.mpr (show 12 ≤ last by omega)
    have hle := (h.taken _ (h.laid.own_table (by omega))).1
    refine ⟨fun k => if k < 12 then (if first ≤ k then (s.inode a).iSectors k else 0) else
      indirectBlocks (sectors s.disk ((s.inode a).iSectors 12) 1) (k - 12), ?_, fun k => ?_,
      fun k hk hk' => ?_⟩
    · rw [collectRead, if_neg h12, run_bind_of (run_assert (Or.inr htable) s),
        run_bind_of (run_ideRead hle (by omega) s), run_pure]
    · by_cases hk : k < 12
      · refine (if_pos hk).trans_le ?_
        by_cases hf : first ≤ k
        · exact (if_pos hf).trans_le (hslot k hk)
        · exact (if_neg hf).trans_le (Nat.zero_le _)
      · refine (if_neg hk).trans_le ?_
        rw [← fileBlocks_indirect hk]
        exact h.block_le (Or.inr (by omega))
    · by_cases hk12 : k < 12
      · rw [fileBlocks_direct hk12]
        exact (if_pos hk12).trans (if_pos hk)
      · rw [fileBlocks_indirect hk12]
        exact if_neg hk12

/-- What a buffer holds after a read of the file at `a`. -/
def readInto (s : Fs) (a pos size : Nat) (dst : Nat → Byte) (k : Nat) : Byte :=
  if k < size then fileByte s.disk (s.inode a) (pos + k) else dst k

/-- The state after two calls of `sys_malloc`. -/
def twoMallocs (s : Fs) : Fs := { s with mallocs := fun k => s.mallocs (k + 2) }

/-- `file_read` with a table of addresses, up to the loop. -/
theorem leads_readFile (hmem : s.mallocs 1 = true) {pos size : Nat} {i : Inode}
    (hfits : pos / 512 < 139 ∧ add32 pos size / 512 < 139) {all : Nat → Nat}
    (hcollect : (collectRead i (pos / 512) (add32 pos size / 512)).run (twoMallocs s) =
      .ok (all, twoMallocs s)) (dst : Nat → Byte) :
    Leads (readFile i g pos size dst) s (do
      Prog.check (s.mallocs 0 = true) (if size = 0 then .assertion .sysFree else .wild)
      let dst ← readChunks g size all size 0 dst
      pure ((size : Int), dst)) (twoMallocs s) := by
  rw [readFile]
  refine (leads_bind (run_malloc rfl)).trans ((leads_bind (run_malloc hmem)).trans ?_)
  rw [if_pos rfl]
  exact (leads_bind (run_assert hfits (twoMallocs s))).trans (leads_bind hcollect)

/-- `file_read` without a table of addresses. -/
theorem run_readFile_nomem (hmem : ¬ s.mallocs 1 = true) (i : Inode) (pos size : Nat)
    (dst : Nat → Byte) :
    (readFile i g pos size dst).run s = .ok ((-1, dst), twoMallocs s) := by
  rw [readFile, run_bind_of (run_malloc rfl), run_bind_of (run_malloc (Bool.eq_false_iff.mpr hmem)),
    if_neg (by decide), run_pure]
  rfl

/-- `file_read` refuses the last block. -/
theorem stops_readFile (hmem : s.mallocs 1 = true) {pos size : Nat} (i : Inode)
    (hfits : ¬ (pos / 512 < 139 ∧ add32 pos size / 512 < 139)) (dst : Nat → Byte) :
    Stops (readFile i g pos size dst) s (.assertion .fileRead) (twoMallocs s) := by
  rw [readFile]
  refine stops_bind_of (run_malloc rfl) (stops_bind_of (run_malloc hmem) ?_)
  rw [if_pos rfl]
  exact stops_bind (stops_check hfits (twoMallocs s))

/-- `file_read` of bytes that are there. -/
theorem run_readFile {last : Nat} (h : Recorded a last s)
    (hmem : s.mallocs 0 = true ∧ s.mallocs 1 = true) {size : Nat}
    (hlast : ((s.fileTable g).fdPos + size) / 512 ≤ last)
    (hsmall : ((s.fileTable g).fdPos + size) / 512 < 139) (dst : Nat → Byte) :
    ∃ s', (readFile (s.inode a) g (s.fileTable g).fdPos size dst).run s =
        .ok (((size : Int), readInto s a (s.fileTable g).fdPos size dst), s') ∧
      Advanced g size (twoMallocs s) s' := by
  generalize hp : (s.fileTable g).fdPos = pos at hlast hsmall
  have hsum : add32 pos size = pos + size := by
    rw [add32, Nat.mod_eq_of_lt (by omega)]
  have hcollected : ∃ all, (collectRead (s.inode a) (pos / 512) ((pos + size) / 512)).run
      (twoMallocs s) = .ok (all, twoMallocs s) ∧ ∀ k, pos / 512 ≤ k → k ≤ (pos + size) / 512 →
        all k = fileBlocks s.disk (s.inode a) k :=
    (run_collectRead (s := twoMallocs s) _ ⟨h.laid, h.taken⟩ hlast).imp
      (fun _ hall => ⟨hall.1, hall.2.2⟩)
  rcases hcollected with ⟨all, hcollect, hall⟩
  have hpos : ((twoMallocs s).fileTable g).fdPos = pos := hp
  -- Only addresses that were collected are used, and they are blocks of the file.
  have haddr : ∀ p, ((twoMallocs s).fileTable g).fdPos ≤ p →
      p < ((twoMallocs s).fileTable g).fdPos + (size - 0) → all (p / 512) ≤ maxLba := by
    intro p hp hp'
    rw [hall (p / 512) (by omega) (by omega)]
    exact (h.block_taken (by omega)).1
  rcases run_readChunks size (twoMallocs s) 0 dst (by omega) (by omega) (by omega) haddr
    with ⟨dst', s', hrun, hadv, hdst⟩
  have hfinal : dst' = readInto s a pos size dst := by
    funext k
    rw [hdst k, readInto]
    by_cases hk : k < size
    · rw [if_pos ⟨Nat.zero_le k, hk⟩, if_pos hk, hpos, Nat.sub_zero,
        hall _ (by omega) (by omega)]
      rfl
    · rw [if_neg (by omega), if_neg hk]
  rw [← hsum] at hcollect
  refine ⟨s', ?_, hadv⟩
  rw [(leads_readFile hmem.2 (by rw [hsum]; omega) hcollect dst).1,
    run_bind_of (run_check_pos hmem.1 _), run_bind_of hrun, run_pure, hfinal]

/-- `file_read` up to the choice of how much is read. -/
theorem leads_fileRead (hat : FileAt t g a s) (count : Nat) (dst : Nat → Byte) :
    Leads (fileRead t g count dst) s
      (if (s.inode a).iSize < add32 (s.fileTable g).fdPos count then
        if sub32 (s.inode a).iSize (s.fileTable g).fdPos = 0 then pure (-1, dst)
        else readFile (s.inode a) g (s.fileTable g).fdPos
          (sub32 (s.inode a).iSize (s.fileTable g).fdPos) dst
      else readFile (s.inode a) g (s.fileTable g).fdPos count dst) s :=
  (leads_bind (run_read _ s)).trans (leads_bind (run_fileInode hat))

/-- At the end of the file there is nothing to read. -/
theorem leads_fileRead_end (hat : FileAt t g a s)
    (hpos : (s.fileTable g).fdPos = (s.inode a).iSize) (hcount : 0 < count)
    (hword : (s.fileTable g).fdPos + count < 2 ^ 32) (dst : Nat → Byte) :
    Leads (fileRead t g count dst) s (pure (-1, dst)) s := by
  have hlead := leads_fileRead hat count dst
  rw [if_pos (by rw [add32, Nat.mod_eq_of_lt hword]; omega),
    if_pos (by rw [sub32, hpos]; omega)] at hlead
  exact hlead

/-- Elsewhere what is asked for is read, up to the end of the file. -/
theorem leads_fileRead_min (hat : FileAt t g a s) (hsize : (s.inode a).iSize < 2 ^ 32)
    (hpos : (s.fileTable g).fdPos ≤ (s.inode a).iSize)
    (hmore : (s.fileTable g).fdPos ≠ (s.inode a).iSize ∨ count = 0)
    (hword : (s.fileTable g).fdPos + count < 2 ^ 32) (dst : Nat → Byte) :
    Leads (fileRead t g count dst) s (readFile (s.inode a) g (s.fileTable g).fdPos
      (min count ((s.inode a).iSize - (s.fileTable g).fdPos)) dst) s := by
  have hlead := leads_fileRead hat count dst
  rw [add32, Nat.mod_eq_of_lt hword] at hlead
  by_cases hover : (s.inode a).iSize < (s.fileTable g).fdPos + count
  · have hleft : sub32 (s.inode a).iSize (s.fileTable g).fdPos =
        (s.inode a).iSize - (s.fileTable g).fdPos := by
      rw [sub32]
      omega
    rw [if_pos hover, hleft, if_neg (by omega)] at hlead
    rw [Nat.min_eq_right (by omega)]
    exact hlead
  · rw [if_neg hover] at hlead
    rw [Nat.min_eq_left (by omega)]
    exact hlead

/-- `file_read` returns the bytes from the position on, as many as are asked
    for or as there are, moves the position behind them and changes nothing
    else; at the end of the file it returns `-1`. -/
theorem file_read_slice (h : FileOn t g a s) (hmem : s.mallocs 0 = true ∧ s.mallocs 1 = true)
    (hsize : (s.inode a).iSize < 71168) (hpos : (s.fileTable g).fdPos ≤ (s.inode a).iSize)
    (hcount : 1 ≤ count) (hword : (s.fileTable g).fdPos + count < 2 ^ 32) (dst : Nat → Byte) :
    ((s.fileTable g).fdPos = (s.inode a).iSize →
      (fileRead t g count dst).run s = .ok ((-1, dst), s)) ∧
    ((s.fileTable g).fdPos ≠ (s.inode a).iSize → ∃ m dst' s',
      m = min count ((s.inode a).iSize - (s.fileTable g).fdPos) ∧
      (fileRead t g count dst).run s = .ok (((m : Int), dst'), s') ∧
      (∀ k, k < m → dst' k = fileByte s.disk (s.inode a) ((s.fileTable g).fdPos + k)) ∧
      (∀ k, m ≤ k → dst' k = dst k) ∧
      (s'.fileTable g).fdPos = (s.fileTable g).fdPos + m ∧
      s' = { s with mallocs := s'.mallocs, fileTable := s'.fileTable } ∧
      ∀ j, j ≠ g → s'.fileTable j = s.fileTable j) := by
  constructor
  · intro hend
    exact (leads_fileRead_end h.file hend (by omega) hword dst).1
  · -- There is something to read, so the file has blocks.
    intro hmore
    have hlaid : Laid s.disk (s.inode a) ((s.inode a).iSize / 512) := by
      rcases h.wf with hnone | hlaid
      · have h0 := hnone.1
        omega
      · exact hlaid
    have hlead := leads_fileRead_min h.file (by omega) hpos (Or.inl hmore) hword dst
    generalize hm : min count ((s.inode a).iSize - (s.fileTable g).fdPos) = m at hlead ⊢
    rcases run_readFile ⟨hlaid, h.taken⟩ hmem (show ((s.fileTable g).fdPos + m) / 512 ≤ _ by omega)
      (by omega) dst with ⟨s', hrun, hadv⟩
    refine ⟨m, _, s', rfl, hlead.1.trans hrun, fun k hk => if_pos hk,
      fun k hk => if_neg (by omega), hadv.fdPos, ?_, fun j hj => ?_⟩
    · rw [hadv]
      rfl
    · rw [hadv]
      exact Function.update_of_ne hj _ _

/-- Five bytes from the beginning of a file. -/
theorem file_read_slice_start : ∃ m dst' s', m = min 5 ((bigFile.inode 0).iSize - 0) ∧
    (fileRead 0 3 5 (fun _ => 0)).run bigFile = .ok (((m : Nat), dst'), s') ∧
    (∀ k, k < m → dst' k = fileByte bigFile.disk (bigFile.inode 0) (0 + k)) ∧
    (∀ k, m ≤ k → dst' k = 0) ∧ (s'.fileTable 3).fdPos = 0 + m ∧
    s' = { bigFile with mallocs := s'.mallocs, fileTable := s'.fileTable } ∧
    ∀ j, j ≠ 3 → s'.fileTable j = bigFile.fileTable j :=
  (file_read_slice bigFile_on ⟨rfl, rfl⟩ (by decide) (by decide) (by omega) (by decide)
    (fun _ => 0)).2 (by decide)

end Read

end ForikOS
