import ForikOS.Theory.LoadBytes
import ForikOS.Theory.LoadFile
import ForikOS.Theory.MallocFails

/-!
# What a Loaded Program Is

`load` checks what `sys_read` returns for a header. It checks neither what
`sys_lseek` returns nor what `segment_load` has read. An offset that is not in
the file leaves the position where it was, so the program header or the segment
that is used is whatever comes next in the file; a segment that is cut off by
the end of the file is loaded as far as it goes, or not at all. The entry point
is returned all the same.

`p_memsz` is never looked at, and `get_a_page` does not clear the page. So what
follows the bytes of a segment is what the frame held when the page was mapped,
if there is a page at all. The frame may well have been a buffer just before.

If every program header and every segment is in the file, the headers are found
one after another, and a segment keeps its bytes when those after it are loaded,
unless it lies over an arena of the heap. Everything outside the segments and
the arenas stays as it is.

## Main definitions

* `ElfImage`: An executable file.
* `ElfImage.Complete`: The headers and segments are in the file.
* `ElfImage.Cleared`: There are zeros where the bytes of a segment end.
* `Faithful`: The program has been loaded as the file says.
* `HasBuffers`: `sys_malloc` succeeds.
* `LoadingFrom`: The state while the file is read.
* `LoadedTo`: What loading a number of program headers has done.

## Theorems

* `readTo_ok`, `segmentLoad_ok`: A segment that is in the file.
* `loadHeaders_phdr`: A program header that is in the file.
* `loadHeaders_ok`, `loadOpened_ok`: All of them, and the header of the file.
* `LoadedTo.after`: What follows the bytes of a segment.
* `load_faithful`: When `load` is faithful.
* `segment_past_end`: A segment that is not in the file.
-/

namespace ForikOS

open Prog Exec

/-- A file with its size. -/
structure ElfImage where
  size : Nat
  byte : Nat → Byte

namespace ElfImage

variable (f : ElfImage)

/-- The header of the file. -/
def ehdr : Elf32Ehdr := decodeEhdr f.byte

/-- Where the program header `i` is. -/
def phdrOff (i : Nat) : Nat := f.ehdr.ePhoff + phdrSize * i

/-- The program header `i`: the 32 bytes that are there. -/
def phdr (i : Nat) : Elf32Phdr := decodePhdr (fun k => f.byte (f.phdrOff i + k))

/-- `p_memsz` of the program header `i`. -/
def memsz (i : Nat) : Nat := le32 (fun k => f.byte (f.phdrOff i + k)) 20

/-- The program header `i` is that of a segment. -/
def Segment (i : Nat) : Prop := i < f.ehdr.ePhnum ∧ (f.phdr i).pType = ptLoad

/-- The address is one of the bytes of segment `i` that come from the file. -/
def FromFile (i x : Nat) : Prop :=
  (f.phdr i).pVaddr.toNat ≤ x ∧ x < (f.phdr i).pVaddr.toNat + (f.phdr i).pFilesz.toNat

/-- The address is one of those of segment `i` that follow. -/
def AfterFile (i x : Nat) : Prop :=
  (f.phdr i).pVaddr.toNat + (f.phdr i).pFilesz.toNat ≤ x ∧
    x < (f.phdr i).pVaddr.toNat + f.memsz i

/-- No two segments overlap. -/
def SegmentsApart : Prop :=
  ∀ i j x, f.Segment i → f.Segment j → i ≠ j → f.FromFile i x ∨ f.AfterFile i x →
    ¬ (f.FromFile j x ∨ f.AfterFile j x)

/-- The file has the program headers and the segments. -/
structure Complete : Prop where
  headers : ∀ i, i < f.ehdr.ePhnum → f.phdrOff i + phdrSize ≤ f.size
  bytes : ∀ i k, f.Segment i → k < (f.phdr i).pFilesz.toNat → (f.phdr i).pOffset + k < f.size

/-- The segments are loaded to where user programs are. -/
def InUserSpace : Prop :=
  ∀ i, f.Segment i → Inside (f.phdr i) ∧ (f.phdr i).pVaddr.toNat + f.memsz i ≤ 0xc0000000

/-- What follows the bytes of a segment is zero: in a page that the process had, or
    in the frame of a page that has been mapped since. -/
def Cleared (s : Exec) (log : List LoadEvent) : Prop :=
  ∀ i x, f.Segment i → f.AfterFile i x → byteOwn s x = some 0 ∨ HeldIn log x 0

/-- What follows the bytes of a segment is not in an arena. -/
def ArenasApart (arenas : List Nat) : Prop :=
  ∀ i x, f.Segment i → f.AfterFile i x → x / 4096 ∉ arenas

end ElfImage

/-- The file has been loaded as its headers say. -/
structure Faithful (f : ElfImage) (s s' : Exec) (e : Int) : Prop where
  header : ehdrSize ≤ f.size ∧ ehdrOk f.ehdr = true
  entry : e = toInt32 f.ehdr.eEntry
  used : usedHeaders s'.log = usedHeaders s.log ++ (List.range f.ehdr.ePhnum).map f.phdr
  complete : f.Complete
  bytes : ∀ i k, f.Segment i → k < (f.phdr i).pFilesz.toNat →
    loadByte s'.kernel.mem ((f.phdr i).pVaddr + BitVec.ofNat 32 k) =
      .ok (f.byte ((f.phdr i).pOffset + k))
  zeros : ∀ i x, f.Segment i → f.AfterFile i x →
    loadByte s'.kernel.mem (BitVec.ofNat 32 x) = .ok 0

section Files

variable {t a i : Nat} {fd r : Int} {fs : Fs}

/-- The file that has been opened. -/
def openedImage (i : Nat) (fs : Fs) : ElfImage :=
  ⟨(fs.inode i).iSize, fileByte fs.disk (fs.inode i)⟩

/-- The inode `i` is that of the file open as `fd`. -/
structure OpenElf (t : Nat) (fd : Int) (i : Nat) (fs : Fs) : Prop where
  on : FileOn t (slotOf t fd fs) i fs
  fd : 3 ≤ fd

/-- There is memory for the buffers of every `sys_read` that `load` makes: one
    for its own header, and two for a program header with its segment. -/
def HasBuffers (f : ElfImage) (fs : Fs) : Prop :=
  ∀ k, k < 4 * f.ehdr.ePhnum + 2 → fs.mallocs k = true

theorem OpenElf.size_lt (h : OpenElf t fd i fs) : (openedImage i fs).size < 71680 := by
  show (fs.inode i).iSize < 71680
  rcases h.on.wf with hnone | hlaid
  · have h0 := hnone.1
    omega
  · have hlt := hlaid.last_lt
    omega

/-- The process `t` is loading the file, and there is memory for `c` buffers. -/
structure LoadingFrom (t : Nat) (fd : Int) (i : Nat) (fs : Fs) (a b c : Nat) (s : Exec) :
    Prop where
  cur : s.kernel.cur.toNat = t
  own : OwnPages s.kernel.mem a b
  arenas : ArenasMapped s
  reading : Reading (slotOf t fd fs) i c fs s.kernel.fs

end Files

section Load

variable {t a b c i : Nat} {fd : Int} {fs : Fs} {s s' : Exec} {u : Unit} {ph : Elf32Phdr}

theorem LoadingFrom.since {c' : Nat} {T : Nat → Prop} {hs : List Elf32Phdr}
    (h : LoadingFrom t fd i fs a b c s) (hsince : Since a b T hs s s')
    (hread : Reading (slotOf t fd fs) i c' fs s'.kernel.fs) : LoadingFrom t fd i fs a b c' s' :=
  ⟨by rw [hsince.cur]; exact h.cur, hsince.own, hsince.arenas, hread⟩

theorem LoadingFrom.less {c' : Nat} (h : LoadingFrom t fd i fs a b c s) (hc : c' ≤ c) :
    LoadingFrom t fd i fs a b c' s :=
  ⟨h.cur, h.own, h.arenas, h.reading.less hc⟩

/-- The offset of the header or of the segment is taken if it is in the file. -/
theorem LoadingFrom.lseek (h : LoadingFrom t fd i fs a b c s) (ho : OpenElf t fd i fs) {off : Nat}
    {r : Int} (hrun : (onFs (fun t => sysLseek t fd (toInt32 off) 1)).run s = .ok (r, s')) :
    LoadingFrom t fd i fs a b c s' ∧ Since a b Nowhere [] s s' ∧
      (off < (openedImage i fs).size → (s'.kernel.fs.fileTable (slotOf t fd fs)).fdPos = off) := by
  have hsize := ho.size_lt
  rcases onFs_ok h.own h.arenas hrun with ⟨hseek, hsince⟩
  rw [h.cur] at hseek
  rcases sysLseek_reading h.reading ho.fd rfl (show (openedImage i fs).size < 2 ^ 31 by omega) hseek
    with ⟨hread, hpos⟩
  exact ⟨h.since hsince hread, hsince, hpos⟩

/-- No arena has been overwritten, so none lies where the bytes go. -/
theorem spoilArenas_ok {v : Word} {n : Nat} (hrun : (spoilArenas v n).run s = .ok (u, s')) :
    (∃ new, s'.log = new ++ s.log ∧ ∀ e, e ∈ new → Aside e) ∧ s'.kernel = s.kernel ∧
      s'.arenas = s.arenas ∧
      (ArenasSpared s'.log → ∀ k, k < n → (v.toNat + k) / 4096 ∉ s.arenas) := by
  rcases run_bind_ok.mp hrun with ⟨arenas, s₁, h₁, k₁⟩
  rcases read_ok h₁ with ⟨rfl, rfl⟩
  by_cases hover : overArena s₁.arenas v n = true
  · rw [if_pos hover] at k₁
    rcases run_bind_ok.mp k₁ with ⟨_, s₂, h₂, k₂⟩
    rw [modify_ok k₂, modify_ok h₂]
    refine ⟨⟨[.overHeap], rfl, aside_one trivial⟩, rfl, rfl, fun hspared => ?_⟩
    exact absurd (hspared .overHeap List.mem_cons_self) id
  · rw [if_neg hover] at k₁
    rcases pure_ok k₁ with ⟨-, rfl⟩
    refine ⟨⟨[], rfl, aside_nil⟩, rfl, rfl, fun _ k hk hin => hover ?_⟩
    rw [overArena, List.any_eq_true]
    exact ⟨_, hin, decide_eq_true ⟨by omega, by omega, by omega⟩⟩

/-- The bytes of a segment are read to where it is. -/
theorem readTo_ok (h : LoadingFrom t fd i fs a b (c + 2) s) (ho : OpenElf t fd i fs) (hin : Inside ph)
    (hsize : 0 < (openedImage i fs).size)
    (hfits : (s.kernel.fs.fileTable (slotOf t fd fs)).fdPos + ph.pFilesz.toNat ≤
      (openedImage i fs).size)
    (hrun : (readTo fd ph.pVaddr ph.pFilesz).run s = .ok (u, s')) :
    LoadingFrom t fd i fs a b c s' ∧
      Since a b (fun x => ph.pVaddr.toNat ≤ x ∧ x < ph.pVaddr.toNat + ph.pFilesz.toNat) [] s s' ∧
      (ArenasSpared s'.log → ∀ k, k < ph.pFilesz.toNat → byteOwn s' (ph.pVaddr.toNat + k) =
        some ((openedImage i fs).byte ((s.kernel.fs.fileTable (slotOf t fd fs)).fdPos + k))) := by
  have hlt := ho.size_lt
  rcases run_bind_ok.mp hrun with ⟨_, s₁, h₁, k₁⟩
  rcases buffers_since h.own h.arenas h₁ with ⟨hsince₁, hfs₁⟩
  have hload₁ : LoadingFrom t fd i fs a b (c + 2) s₁ :=
    h.since hsince₁ (by rw [hfs₁]; exact h.reading)
  rw [← hfs₁] at hfits ⊢
  rcases run_bind_ok.mp k₁ with ⟨k, s₂, h₂, k₂⟩
  rcases read_ok h₂ with ⟨rfl, rfl⟩
  -- A segment of the user's does not begin at the null address.
  have hnull : bufferAt ph.pVaddr = some (fun _ => 0) := by
    refine if_neg (fun h0 => absurd hin.1.1 ?_)
    rw [h0]
    decide
  rw [hnull] at k₂
  cases hr : (sysRead s₂.kernel.cur.toNat fd (some (fun _ => 0)) ph.pFilesz.toNat).run s₂.kernel.fs with
  | error e =>
      rw [hr] at k₂
      rcases run_bind_ok.mp k₂ with ⟨_, s₃, -, k₃⟩
      cases k₃
  | ok x =>
      rcases x with ⟨⟨n, buf⟩, fs'⟩
      rw [hr] at k₂
      rw [hload₁.cur] at hr
      rcases sysRead_reading hload₁.reading ho.on ho.fd rfl (Or.inl hsize) (by omega) hr with
        ⟨hread, hall, -⟩
      rcases hall hfits with ⟨hn, hbuf⟩
      rcases run_bind_ok.mp k₂ with ⟨_, s₃, h₃, k₃⟩
      rw [modify_ok h₃] at k₃
      rcases run_bind_ok.mp k₃ with ⟨_, s₄, h₄, k₄⟩
      rcases spoilArenas_ok h₄ with ⟨⟨new, hlog₄, hnew⟩, hk₄, ha₄, hspare₄⟩
      rcases run_bind_ok.mp k₄ with ⟨_, s₅, h₅, k₅⟩
      rw [modify_ok h₅] at k₅
      rcases run_bind_ok.mp k₅ with ⟨_, s₆, h₆, k₆⟩
      rcases onMem_ok h₆ with ⟨m, hstore, rfl⟩
      have hstore' := map_ok hstore
      rw [hn, Int.toNat_natCast] at hstore' hspare₄ k₆
      have hmem₄ : s₄.kernel.mem = s₂.kernel.mem := by rw [hk₄]; rfl
      rw [show (s₄.push _).kernel.mem = s₂.kernel.mem from hmem₄] at hstore'
      rcases storeBytes_bytes hload₁.own hin.2 hstore' with ⟨hkeep, hsame, hbytes⟩
      -- From the read to the copy as one step.
      have hcopy : Since a b
          (fun x => ph.pVaddr.toNat ≤ x ∧ x < ph.pVaddr.toNat + ph.pFilesz.toNat) [] s₂
          ((s₄.push (.copied ph.pVaddr ph.pFilesz.toNat)).setMem m) := by
        refine .written (.copied ph.pVaddr ph.pFilesz.toNat :: new) hload₁.arenas hkeep hsame ha₄
          ?_ ?_ (fun e he => ?_)
        · show s₄.kernel.cur = _
          rw [hk₄]
          rfl
        · show _ :: s₄.log = _
          rw [hlog₄]
          rfl
        · rcases List.mem_cons.mp he with rfl | he
          · trivial
          · exact hnew e he
      rcases buffers_since hcopy.own hcopy.arenas k₆ with ⟨hsince₂, hfs₂⟩
      have hread' : Reading (slotOf t fd fs) i c fs s'.kernel.fs := by
        rw [hfs₂]
        show Reading _ _ _ _ s₄.kernel.fs
        rw [hk₄]
        exact hread
      have hall := (hsince₁.ofNowhere.trans hcopy).trans hsince₂.ofNowhere
      refine ⟨h.since hall hread', hall, fun hspared k hk => ?_⟩
      have hspared₄ : ArenasSpared s₄.log :=
        fun e he => hsince₂.spared hspared e (List.mem_cons_of_mem _ he)
      have hend := hin.2
      refine hsince₂.kept (by omega) id ((byteOwn_of_not_mem ?_).trans ?_)
      · show _ ∉ s₄.arenas
        rw [ha₄]
        exact hspare₄ hspared₄ k hk
      · exact (hbytes k hk).trans (congrArg some (hbuf k hk))

/-- A segment that is in the file is loaded. -/
theorem segmentLoad_ok (h : LoadingFrom t fd i fs a b (c + 2) s) (ho : OpenElf t fd i fs) (hin : Inside ph)
    (hsize : 0 < (openedImage i fs).size)
    (hfile : ∀ k, k < ph.pFilesz.toNat → ph.pOffset + k < (openedImage i fs).size)
    (hrun : (segmentLoad fd ph.pOffset ph.pFilesz ph.pVaddr).run s = .ok (true, s')) :
    LoadingFrom t fd i fs a b c s' ∧
      Since a b (fun x => ph.pVaddr.toNat ≤ x ∧ x < ph.pVaddr.toNat + ph.pFilesz.toNat) [] s s' ∧
      (ArenasSpared s'.log → ∀ k, k < ph.pFilesz.toNat →
        byteOwn s' (ph.pVaddr.toNat + k) = some ((openedImage i fs).byte (ph.pOffset + k))) := by
  rcases run_bind_ok.mp hrun with ⟨done, s₁, h₁, k₁⟩
  by_cases hdone : done = true
  · rw [if_pos hdone] at k₁
    subst hdone
    rcases mapPages_since h.own h.arenas (occupyPages_inside hin) h₁ with ⟨hsince₁, hfs₁⟩
    rcases run_bind_ok.mp k₁ with ⟨r, s₂, h₂, k₂⟩
    rcases (h.since hsince₁ (by rw [hfs₁]; exact h.reading)).lseek ho h₂ with
      ⟨hload, hsince₂, hpos⟩
    rcases run_bind_ok.mp k₂ with ⟨_, s₃, h₃, k₃⟩
    rcases pure_ok k₃ with ⟨-, rfl⟩
    -- A segment without bytes need not be anywhere in the file.
    have hfits : (s₂.kernel.fs.fileTable (slotOf t fd fs)).fdPos + ph.pFilesz.toNat ≤
        (openedImage i fs).size := by
      by_cases hnone : ph.pFilesz.toNat = 0
      · rw [hnone]
        exact hload.reading.pos
      · have hfirst := hfile 0 (by omega)
        have hlast := hfile (ph.pFilesz.toNat - 1) (by omega)
        rw [hpos (by omega)]
        omega
    rcases readTo_ok hload ho hin hsize hfits h₃ with ⟨hload', hsince₃, hbytes⟩
    refine ⟨hload', (hsince₁.trans hsince₂).ofNowhere.trans hsince₃, fun hspared k hk => ?_⟩
    rw [hbytes hspared k hk, hpos (by have := hfile k hk; omega)]
  · rw [if_neg hdone] at k₁
    exact absurd (pure_ok k₁).1 (by decide)

theorem decodePhdr_congr {c d : Nat → Byte} (h : ∀ k, k < phdrSize → c k = d k) :
    decodePhdr c = decodePhdr d := by
  have hsize : phdrSize = 32 := rfl
  have hword : ∀ off, off + 4 ≤ phdrSize → le32 c off = le32 d off :=
    fun off hoff => le32_congr (fun j hj => h (off + j) (by omega))
  rw [decodePhdr, decodePhdr, hword 0 (by decide), hword 4 (by decide), hword 8 (by decide),
    hword 16 (by decide)]

theorem ElfImage.phdrOff_succ (f : ElfImage) {j : Nat} (h : f.phdrOff j + phdrSize < 2 ^ 32) :
    add32 (f.phdrOff j) phdrSize = f.phdrOff (j + 1) := by
  rw [add32, Nat.mod_eq_of_lt h, ElfImage.phdrOff, ElfImage.phdrOff, Nat.mul_succ, Nat.add_assoc]

/-- Program headers from `j` on have been loaded: they are those of the file,
    and the segments are where they should be, if they spare the arenas. Outside
    them nothing has changed. -/
structure LoadedTo (f : ElfImage) (a b j n : Nat) (s s' : Exec) : Prop where
  since : Since a b (fun x => ∃ i, j ≤ i ∧ f.Segment i ∧ f.FromFile i x)
    ((List.range' j n).map f.phdr) s s'
  bytes : ArenasSpared s'.log → ∀ i k, j ≤ i → f.Segment i → k < (f.phdr i).pFilesz.toNat →
    byteOwn s' ((f.phdr i).pVaddr.toNat + k) = some (f.byte ((f.phdr i).pOffset + k))

/-- No program header. -/
theorem LoadedTo.none {f : ElfImage} (hown : OwnPages s.kernel.mem a b) (harenas : ArenasMapped s)
    {j : Nat} (hj : j = f.ehdr.ePhnum) : LoadedTo f a b j 0 s s :=
  ⟨.refl hown harenas, fun _ k _ hjk hseg _ => absurd hseg.1 (by omega)⟩

/-- A program header of another kind, and those after it. -/
theorem LoadedTo.skip {f : ElfImage} {j n : Nat} {s₁ : Exec} (h : LoadedTo f a b (j + 1) n s₁ s')
    (hsince : Since a b Nowhere [f.phdr j] s s₁) (htype : (f.phdr j).pType ≠ ptLoad) :
    LoadedTo f a b j (n + 1) s s' := by
  refine ⟨hsince.ofNowhere.trans (h.since.mono ?_), fun hspared k l hjk hk hl => ?_⟩
  · rintro x ⟨k, hjk, hk, hx⟩
    exact ⟨k, by omega, hk, hx⟩
  · have hkj : k ≠ j := by
      rintro rfl
      exact htype hk.2
    exact h.bytes hspared k l (by omega) hk hl

/-- A segment, and those after it. They lie elsewhere, so its bytes are kept. -/
theorem LoadedTo.segment {f : ElfImage} {j n : Nat} {s₁ : Exec}
    (h : LoadedTo f a b (j + 1) n s₁ s') (hapart : f.SegmentsApart) (hseg : f.Segment j)
    (hin : Inside (f.phdr j)) (hsince : Since a b (f.FromFile j) [f.phdr j] s s₁)
    (hbytes : ArenasSpared s₁.log → ∀ k, k < (f.phdr j).pFilesz.toNat →
      byteOwn s₁ ((f.phdr j).pVaddr.toNat + k) = some (f.byte ((f.phdr j).pOffset + k))) :
    LoadedTo f a b j (n + 1) s s' := by
  refine ⟨(hsince.mono (fun x hx => ⟨j, Nat.le_refl j, hseg, hx⟩)).trans (h.since.mono ?_),
    fun hspared k l hjk hk hl => ?_⟩
  · rintro x ⟨k, hjk, hk, hx⟩
    exact ⟨k, by omega, hk, hx⟩
  · by_cases hkj : k = j
    · subst hkj
      have hend := hin.2
      refine h.since.kept (by omega) ?_ (hbytes (h.since.spared hspared) l hl)
      rintro ⟨k', hkk', hk', hx⟩
      exact hapart k k' _ hk hk' (by omega) (Or.inl ⟨Nat.le_add_right _ _, by omega⟩)
        (Or.inl hx)
    · exact h.bytes hspared k l (by omega) hk hl

/-- A program header that is in the file is found as it is. -/
theorem loadHeaders_phdr {n j : Nat} (h : LoadingFrom t fd i fs a b (c + 2) s)
    (ho : OpenElf t fd i fs) (hsize : 0 < (openedImage i fs).size)
    (hhead : (openedImage i fs).phdrOff j + phdrSize ≤ (openedImage i fs).size)
    (hrun : (loadHeaders fd (n + 1) ((openedImage i fs).phdrOff j)).run s = .ok (true, s')) :
    ∃ s₁, LoadingFrom t fd i fs a b c s₁ ∧
      Since a b Nowhere [(openedImage i fs).phdr j] s s₁ ∧
      if ((openedImage i fs).phdr j).pType = ptLoad then
        ∃ s₂, (segmentLoad fd ((openedImage i fs).phdr j).pOffset
            ((openedImage i fs).phdr j).pFilesz ((openedImage i fs).phdr j).pVaddr).run s₁ =
              .ok (true, s₂) ∧
          (loadHeaders fd n ((openedImage i fs).phdrOff (j + 1))).run s₂ = .ok (true, s')
      else (loadHeaders fd n ((openedImage i fs).phdrOff (j + 1))).run s₁ = .ok (true, s') := by
  have hlt := ho.size_lt
  have h32 : phdrSize = 32 := rfl
  rw [loadHeaders] at hrun
  rcases run_bind_ok.mp hrun with ⟨r, s₁, h₁, k₁⟩
  rcases h.lseek ho h₁ with ⟨hload₁, hsince₁, hpos⟩
  -- The header is in the file, so `sys_lseek` has taken the offset.
  have hpos := hpos (by omega)
  rcases run_bind_ok.mp k₁ with ⟨⟨count, buf⟩, s₂, h₂, k₂⟩
  rcases onFs_ok hload₁.own hload₁.arenas h₂ with ⟨hr, hsince₂⟩
  rw [hload₁.cur] at hr
  rcases sysRead_reading hload₁.reading ho.on ho.fd rfl (Or.inl hsize) (by omega) hr with
    ⟨hread, hgot, -⟩
  rw [hpos] at hgot
  rcases hgot hhead with ⟨hcount, hbuf⟩
  have hload₂ := hload₁.since hsince₂ hread
  dsimp only at k₂
  rw [if_neg (not_not.mpr hcount)] at k₂
  have hph : decodePhdr buf = (openedImage i fs).phdr j := decodePhdr_congr hbuf
  rw [hph, (openedImage i fs).phdrOff_succ (by omega)] at k₂
  rcases run_bind_ok.mp k₂ with ⟨_, s₃, h₃, k₃⟩
  have hs₃ : s₃ = s₂.push (.header ((openedImage i fs).phdr j)) := modify_ok h₃
  have hheader : Since a b Nowhere [(openedImage i fs).phdr j] s₂ s₃ := by
    rw [hs₃]
    refine ⟨hload₂.own, hload₂.arenas, rfl, [.header ((openedImage i fs).phdr j)], rfl, rfl,
      fun x c _ _ => ⟨Or.inl, fun hx => hx.resolve_right ?_⟩⟩
    rintro ⟨v, held, hmem, -⟩
    cases List.mem_singleton.mp hmem
  refine ⟨s₃, hload₂.since hheader ?_, (hsince₁.trans hsince₂).trans hheader, ?_⟩
  · rw [hs₃]
    exact hread
  · by_cases hload : ((openedImage i fs).phdr j).pType = ptLoad
    · rw [if_pos hload] at k₃ ⊢
      rcases run_bind_ok.mp k₃ with ⟨done, s₄, h₄, k₄⟩
      by_cases hdone : done = true
      · rw [if_pos hdone] at k₄
        subst hdone
        exact ⟨s₄, h₄, k₄⟩
      · rw [if_neg hdone] at k₄
        exact absurd (pure_ok k₄).1 (by decide)
    · rw [if_neg hload] at k₃ ⊢
      exact k₃

/-- The program headers of a file that is complete are loaded one after
    another. -/
theorem loadHeaders_ok {n j : Nat} (h : LoadingFrom t fd i fs a b (4 * n) s) (ho : OpenElf t fd i fs)
    (hsize : 0 < (openedImage i fs).size) (hapart : (openedImage i fs).SegmentsApart)
    (hall : (openedImage i fs).Complete) (hin : (openedImage i fs).InUserSpace)
    (hj : j + n = (openedImage i fs).ehdr.ePhnum)
    (hrun : (loadHeaders fd n ((openedImage i fs).phdrOff j)).run s = .ok (true, s')) :
    LoadedTo (openedImage i fs) a b j n s s' := by
  -- On the program headers left. Each takes the memory of two reads.
  induction n generalizing s s' j with
  | zero =>
      rcases pure_ok hrun with ⟨-, rfl⟩
      exact LoadedTo.none h.own h.arenas hj
  | succ n ih =>
      rcases loadHeaders_phdr h ho hsize (hall.headers j (by omega)) hrun with
        ⟨s₁, hload₁, hsince₁, hrest⟩
      by_cases htype : ((openedImage i fs).phdr j).pType = ptLoad
      · have hseg : (openedImage i fs).Segment j := ⟨by omega, htype⟩
        rw [if_pos htype] at hrest
        rcases hrest with ⟨s₂, hsegment, hheaders⟩
        rcases segmentLoad_ok hload₁ ho (hin j hseg).1 hsize (fun k hk => hall.bytes j k hseg hk)
          hsegment with ⟨hload₂, hsince₂, hbytes⟩
        exact (ih hload₂ (by omega) hheaders).segment hapart hseg (hin j hseg).1
          (hsince₁.ofNowhere.trans hsince₂) hbytes
      · rw [if_neg htype] at hrest
        exact (ih (hload₁.less (Nat.le_add_right _ 2)) (by omega) hrest).skip hsince₁ htype

end Load

section Main

variable {t a b i : Nat} {fd e : Int} {fs : Fs} {s s' : Exec} {path : Str}

theorem ehdr_congr {c d : Nat → Byte} (h : ∀ k, k < ehdrSize → c k = d k) :
    ehdrOk (decodeEhdr c) = ehdrOk (decodeEhdr d) ∧
      (decodeEhdr c).eEntry = (decodeEhdr d).eEntry ∧
      (decodeEhdr c).ePhoff = (decodeEhdr d).ePhoff ∧
      (decodeEhdr c).ePhnum = (decodeEhdr d).ePhnum := by
  have hsize : ehdrSize = 52 := rfl
  have hword : ∀ off, off + 4 ≤ ehdrSize → le32 c off = le32 d off :=
    fun off hoff => le32_congr (fun j hj => h (off + j) (by omega))
  have hhalf : ∀ off, off + 2 ≤ ehdrSize → le16 c off = le16 d off := by
    intro off hoff
    rw [le16, le16, h off (by omega), h (off + 1) (by omega)]
  have hident : (List.range 7).all (fun k => c k == elfIdent.getD k 0) =
      (List.range 7).all (fun k => d k == elfIdent.getD k 0) := by
    rw [Bool.eq_iff_iff, List.all_eq_true, List.all_eq_true]
    refine forall₂_congr (fun k hk => ?_)
    have hk := List.mem_range.mp hk
    rw [h k (by omega)]
  refine ⟨?_, hword 24 (by decide), hword 28 (by decide), hhalf 44 (by decide)⟩
  rw [ehdrOk, ehdrOk, decodeEhdr, decodeEhdr]
  dsimp only
  rw [hident, hhalf 16 (by decide), hhalf 18 (by decide), hword 20 (by decide),
    hhalf 42 (by decide)]

/-- `load` returns an entry point only if the header of the file is valid. The
    rest is as it should be if the file has it. -/
theorem loadOpened_ok
    (h : LoadingFrom t fd i fs a b (4 * (openedImage i fs).ehdr.ePhnum + 2) s) (ho : OpenElf t fd i fs)
    (hstart : (s.kernel.fs.fileTable (slotOf t fd fs)).fdPos = 0)
    (hapart : (openedImage i fs).SegmentsApart)
    (hrun : (loadOpened fd).run s = .ok (e, s')) (he : e ≠ -1) :
    (ehdrSize ≤ (openedImage i fs).size ∧ ehdrOk (openedImage i fs).ehdr = true) ∧
      e = toInt32 (openedImage i fs).ehdr.eEntry ∧
      ((openedImage i fs).Complete → (openedImage i fs).InUserSpace →
        ∃ s₁, Since a b Nowhere [] s s₁ ∧
          LoadedTo (openedImage i fs) a b 0 (openedImage i fs).ehdr.ePhnum s₁ s') := by
  have hehdr : ehdrSize = 52 := rfl
  rcases run_bind_ok.mp hrun with ⟨⟨count, buf⟩, s₁, h₁, k₁⟩
  rcases onFs_ok h.own h.arenas h₁ with ⟨hr, hsince⟩
  rw [h.cur] at hr
  rcases sysRead_reading h.reading ho.on ho.fd rfl (Or.inr (by decide)) (by omega) hr with
    ⟨hread, hgot, honly⟩
  rw [hstart] at hgot honly
  dsimp only at k₁
  by_cases hcount : count ≠ ehdrSize
  · rw [if_pos hcount] at k₁
    exact absurd (pure_ok k₁).1 he
  · rw [if_neg hcount] at k₁
    -- `load` has checked that it got the whole header.
    have hhead := honly (not_not.mp hcount) (by decide)
    rw [Nat.zero_add] at hhead
    have hbuf : ∀ k, k < ehdrSize → buf k = (openedImage i fs).byte k := by
      intro k hk
      have hk := (hgot (by omega)).2 k hk
      rw [Nat.zero_add] at hk
      exact hk
    rcases ehdr_congr hbuf with ⟨hok, hentry, hphoff, hphnum⟩
    rw [hok, hentry, hphoff, hphnum] at k₁
    by_cases hvalid : ehdrOk (decodeEhdr (openedImage i fs).byte) = false
    · rw [if_pos hvalid] at k₁
      exact absurd (pure_ok k₁).1 he
    · rw [if_neg hvalid] at k₁
      rcases run_bind_ok.mp k₁ with ⟨done, s₂, h₂, k₂⟩
      rcases pure_ok k₂ with ⟨rfl, rfl⟩
      by_cases hdone : done = true
      · subst hdone
        refine ⟨⟨hhead, Bool.eq_true_of_not_eq_false hvalid⟩, if_pos rfl, fun hall hin => ?_⟩
        exact ⟨s₁, hsince, loadHeaders_ok (h.since hsince hread) ho
          (by show 0 < (fs.inode i).iSize; omega) hapart hall hin (Nat.zero_add _) h₂⟩
      · exact absurd (if_neg hdone) he

/-- What `load` returns after the file has been opened. -/
theorem load_opened (hown : OwnPages s.kernel.mem a b) (harenas : ArenasMapped s)
    (hopen : (sysOpen s.kernel.cur.toNat path 0).run s.kernel.fs = .ok (fd, fs))
    (hrun : (Exec.load path).run s = .ok (e, s')) (he : e ≠ -1) :
    fd ≠ -1 ∧ ∃ s₁ s₂ r, Since a b Nowhere [] s s₁ ∧ s₁.kernel.fs = fs ∧
      (loadOpened fd).run s₁ = .ok (e, s₂) ∧
      (onFs (fun t => sysClose t fd)).run s₂ = .ok (r, s') := by
  rcases run_bind_ok.mp hrun with ⟨fd', s₁, h₁, k₁⟩
  rcases onFs_ok hown harenas h₁ with ⟨hr, hsince⟩
  rw [hopen, Except.ok.injEq, Prod.mk.injEq] at hr
  rcases hr with ⟨rfl, hfs⟩
  by_cases hfd : fd = -1
  · rw [if_pos hfd] at k₁
    exact absurd (pure_ok k₁).1 he
  · rw [if_neg hfd] at k₁
    rcases run_bind_ok.mp k₁ with ⟨ret, s₂, h₂, k₂⟩
    rcases run_bind_ok.mp k₂ with ⟨r, s₃, h₃, k₃⟩
    rcases pure_ok k₃ with ⟨rfl, rfl⟩
    exact ⟨hfd, s₁, s₂, r, hsince, hfs.symm, h₂, h₃⟩

/-- What follows the bytes of a segment is what was there or what the frame held,
    as no segment has its bytes there. -/
theorem Since.cleared_iff {f : ElfImage}
    (h : Since a b (fun x => ∃ j, 0 ≤ j ∧ f.Segment j ∧ f.FromFile j x)
      ((List.range' 0 f.ehdr.ePhnum).map f.phdr) s s')
    (hlog : s.log = []) (hapart : f.SegmentsApart) (hin : f.InUserSpace) :
    (∀ k x, f.Segment k → f.AfterFile k x → byteOwn s' x = some 0) ↔ f.Cleared s s'.log := by
  rcases h.log with ⟨new, hnew, -, hbyte⟩
  rw [hlog, List.append_nil] at hnew
  rw [hnew]
  refine forall₂_congr (fun k x => forall₂_congr (fun hseg hx => hbyte x 0 ?_ ?_))
  · exact Nat.lt_of_lt_of_le hx.2 (hin k hseg).2
  · rintro ⟨j, -, hj, hxj⟩
    by_cases hjk : j = k
    · subst hjk
      exact absurd hxj.2 (Nat.not_lt.mpr hx.1)
    · exact hapart j k x hj hseg hjk (Or.inl hxj) (Or.inr hx)

/-- `load` is faithful only to a file that has everything its headers name. If
    the segments are the user's and there is memory to read with, it is faithful to
    such a file if there are zeros where the bytes of a segment end, and no segment
    is read over an arena. It is not without the zeros, unless what follows a
    segment is in an arena when `load` returns. -/
theorem load_faithful (hown : OwnPages s.kernel.mem a b) (harenas : ArenasMapped s)
    (hlog : s.log = [])
    (hopen : (sysOpen s.kernel.cur.toNat path 0).run s.kernel.fs = .ok (fd, fs))
    (hon : FileOn s.kernel.cur.toNat (slotOf s.kernel.cur.toNat fd fs) i fs)
    (hapart : (openedImage i fs).SegmentsApart)
    (hrun : (Exec.load path).run s = .ok (e, s')) (he : e ≠ -1) :
    (Faithful (openedImage i fs) s s' e → (openedImage i fs).Complete) ∧
      (HasBuffers (openedImage i fs) fs → (openedImage i fs).InUserSpace →
        ((openedImage i fs).Complete → (openedImage i fs).Cleared s s'.log →
          ArenasSpared s'.log → Faithful (openedImage i fs) s s' e) ∧
        ((openedImage i fs).ArenasApart s'.arenas → Faithful (openedImage i fs) s s' e →
          (openedImage i fs).Cleared s s'.log)) := by
  rcases load_opened hown harenas hopen hrun he with
    ⟨hfd, s₁, s₂, r, hsince₁, hfs, hload, hclose⟩
  rcases sysOpen_start hfd hopen with ⟨hfd3, hstart⟩
  refine ⟨fun hfaith => hfaith.complete, fun hbuffers hin => ?_⟩
  have hfrom : LoadingFrom s.kernel.cur.toNat fd i fs a b
      (4 * (openedImage i fs).ehdr.ePhnum + 2) s₁ := by
    refine ⟨by rw [hsince₁.cur], hsince₁.own, hsince₁.arenas, ?_⟩
    rw [hfs]
    refine ⟨rfl, hon.file.slot, hbuffers, ?_⟩
    rw [hstart]
    exact Nat.zero_le _
  rcases loadOpened_ok hfrom ⟨hon, hfd3⟩ (by rw [hfs]; exact hstart) hapart hload he with
    ⟨hhead, hentry, hrest⟩
  -- All of it, from the state in which `load` begins to that in which it returns.
  have hloaded : (openedImage i fs).Complete →
      LoadedTo (openedImage i fs) a b 0 (openedImage i fs).ehdr.ePhnum s s' := by
    intro hall
    rcases hrest hall hin with ⟨s₃, hsince₂, hdone⟩
    have hsince₃ := (onFs_ok hdone.since.own hdone.since.arenas hclose).2
    have hsince := ((hsince₁.trans hsince₂).ofNowhere.trans hdone.since).trans hsince₃.ofNowhere
    rw [List.append_nil] at hsince
    refine ⟨hsince, fun hspared k l hk hseg hl => ?_⟩
    have hend := (hin k hseg).1.2
    exact hsince₃.kept (by omega) id (hdone.bytes (hsince₃.spared hspared) k l hk hseg hl)
  refine ⟨fun hall hclear hspared => ?_, fun hfree hfaith => ?_⟩
  · have hdone := hloaded hall
    rcases hdone.since.log with ⟨new, hnew, hused, -⟩
    refine ⟨hhead, hentry, ?_, hall, fun k l hseg hl => ?_, fun k x hseg hx => ?_⟩
    · rw [hnew, usedHeaders_append, hused, List.range_eq_range']
    · have hend := (hin k hseg).1.2
      have haddr : (((openedImage i fs).phdr k).pVaddr + BitVec.ofNat 32 l).toNat =
          ((openedImage i fs).phdr k).pVaddr.toNat + l := by
        rw [BitVec.toNat_add, BitVec.toNat_ofNat]
        omega
      rw [loadByte_ok_iff, haddr]
      exact byteIn_of_byteOwn (hdone.bytes hspared k l (Nat.zero_le k) hseg hl)
    · have hlt := Nat.lt_of_lt_of_le hx.2 (hin k hseg).2
      rw [loadByte_ok_iff, BitVec.toNat_ofNat, Nat.mod_eq_of_lt (by omega)]
      exact byteIn_of_byteOwn ((hdone.since.cleared_iff hlog hapart hin).mpr hclear k x hseg hx)
  · refine ((hloaded hfaith.complete).since.cleared_iff hlog hapart hin).mp (fun k x hseg hx => ?_)
    have hlt := Nat.lt_of_lt_of_le hx.2 (hin k hseg).2
    have hzero := hfaith.zeros k x hseg hx
    rw [loadByte_ok_iff, BitVec.toNat_ofNat, Nat.mod_eq_of_lt (by omega)] at hzero
    exact (byteOwn_of_not_mem (hfree k x hseg hx)).trans hzero

end Main

section Example

/-- An executable file with one segment, which goes to the stack page. It has
    four bytes from an offset on, and takes `memsz`. -/
def segmentFile (offset memsz : Nat) : Str :=
  (elfFile 0xbffff000).take 56 ++ (List.range 4).map (byteOf offset) ++
    ((elfFile 0xbffff000).drop 60).take 12 ++ (List.range 4).map (byteOf memsz) ++
    List.replicate 8 0

/-- A process with a stack page and a page of its heap. -/
def heapMachine : Machine :=
  match palloc stackMachine.userPool with
  | .ok (p, phy) =>
      (pageTableAdd (stackMachine.setPool p .user) 0xbfffe000 phy).toOption.getD stackMachine
  | .error _ => stackMachine

/-- A process that is about to load the file at `/d`. Its heap has a block for every
    buffer: the header of the file is read by one. -/
def stackExec (offset memsz : Nat) : Exec where
  kernel :=
    { (elfExec 0xbffff000).kernel with
      mem := heapMachine
      fs := (fsCallSystem.after freshDisk
        [.open 1 pathD 5, .write 1 3 (fun k => (segmentFile offset memsz).getD k 0) 84,
          .close 1 3]).fs }
  arenas := [0xbfffe]
  damaged := false
  work := List.replicate 3 [] ++ [elfIdent.zipIdx.map (fun c => .fill (0xbfffe00c + .ofNat 32 c.2) c.1)]
  log := []

/-- The file system once `load` has opened the file. -/
def stackOpened (offset memsz : Nat) : Fs :=
  (sysOpen 1 pathD 0).after (stackExec offset memsz).kernel.fs

theorem stackMachine_own : OwnPages stackMachine 24 1 := by
  have hq : ∀ q w, q < 0xc0000 → frameAt stackMachine stackMachine.cr3 q = some w →
      q = 0xbffff ∧ w = 0x1100 := by
    intro q w hq hw
    rw [stackMachine_frameAt hq] at hw
    by_cases h : q = 0xbffff
    · rw [if_pos h, Option.some.injEq] at hw
      exact ⟨h, hw.symm⟩
    · rw [if_neg h] at hw
      cases hw
  refine ⟨stackMachine_userMap.space, fun q w hlt hw => ⟨0, ?_, ?_, ?_⟩, ?_⟩
  · show 0 < (firstBits 1).btmpBytesLen * 8
    rw [firstBits_len]
    decide
  · rw [(hq q w hlt hw).2]
    decide
  · show bitmapScanTest (firstBits 1) 0 = true
    rw [firstBits_test]
    rfl
  · intro q q' w hlt hlt' hw hw'
    rw [(hq q w hlt hw).1, (hq q' w hlt' hw').1]

/-- The page of the heap is one more than the stack page. -/
theorem heapMachine_page :
    KeepsBytes stackMachine heapMachine 24 1 (fun _ => False) ∧
      ∃ w, NewPage stackMachine heapMachine 0xbfffe w := by
  have hnone : frameAt stackMachine stackMachine.cr3 0xbfffe = none := by
    rw [stackMachine_frameAt (by decide), if_neg (by decide)]
  have hphy : (palloc stackMachine.userPool).toOption.map (·.2) = some 0x1101000 := by
    decide +kernel
  cases hp : palloc stackMachine.userPool with
  | error e =>
      rw [hp] at hphy
      cases hphy
  | ok r =>
      rcases r with ⟨p, phy⟩
      have hadd : ∃ m', pageTableAdd (stackMachine.setPool p .user) 0xbfffe000 phy = .ok m' ∧
          Mapped (stackMachine.setPool p .user) m' 0xbfffe phy := by
        have hself : SelfMap (stackMachine.setPool p .user) :=
          ⟨stackMachine_half.self.present, stackMachine_half.self.frame⟩
        have hphys : (stackMachine.setPool p .user).phys = stackMachine.phys := rfl
        have hcr3 : (stackMachine.setPool p .user).cr3 = 0x218 := rfl
        refine pageTableAdd_old hself rfl ?_ ?_ ?_ <;> rw [hphys, hcr3] <;> decide +kernel
      rcases hadd with ⟨m', hm', hmap⟩
      have heq : heapMachine = m' := by
        rw [heapMachine, hp]
        dsimp only
        rw [hm']
        rfl
      have hcur : m'.cur = stackMachine.cur := (pageTableAdd_cur hm').trans rfl
      rw [heq]
      rcases stackMachine_own.mapped (by decide) hnone hp rfl hmap hcur with ⟨hkeep, hnew⟩
      exact ⟨hkeep, _, hnew⟩

theorem stackExec_arenas (offset memsz : Nat) : ArenasMapped (stackExec offset memsz) := by
  rcases heapMachine_page with ⟨-, w, hnew⟩
  intro q hq
  rw [List.mem_singleton.mp hq]
  refine ⟨by decide, by decide, ?_⟩
  show (frameAt heapMachine heapMachine.cr3 0xbfffe).isSome = true
  rw [hnew _ (by decide), if_pos rfl]
  rfl

theorem stackOpened_on : FileOn 1 (slotOf 1 4 (stackOpened 0 8)) 1 (stackOpened 0 8) := by
  have hfile : ((stackOpened 0 8).inode 1).iSize = 84 ∧
      ((stackOpened 0 8).inode 1).iSectors 0 = 2663 ∧
      ∀ k, k < 13 → k ≠ 0 → ((stackOpened 0 8).inode 1).iSectors k = 0 := by
    decide +kernel
  have hpart : (stackOpened 0 8).part.blockBitmap.btmpBytesLen = 1536 ∧
      (stackOpened 0 8).part.sb.dataStartLba = 2662 ∧
      bitmapScanTest (stackOpened 0 8).part.blockBitmap 0 = true ∧
      bitmapScanTest (stackOpened 0 8).part.blockBitmap 1 = true := by
    decide +kernel
  -- The file has 84 bytes in one block, and the other slots are empty.
  rcases hfile with ⟨hsize, hfirst, hrest⟩
  rcases hpart with ⟨hlen, hdata, hroot, htaken⟩
  have hmax : maxLba = 163839 := rfl
  have hblock : ∀ k, k < 12 → fileBlocks (stackOpened 0 8).disk ((stackOpened 0 8).inode 1) k =
      ((stackOpened 0 8).inode 1).iSectors k := fun k hk => if_pos hk
  refine ⟨⟨by decide +kernel, by decide +kernel⟩, ⟨⟨by decide +kernel, by decide +kernel⟩,
    by decide +kernel, by decide +kernel, by decide +kernel, by decide +kernel, fun k hk _ => ?_,
    hroot⟩, Or.inr ?_, ?_⟩
  · omega
  · rw [hsize]
    refine ⟨by decide, fun k hk => ?_, fun j k hj hk _ => by omega, ?_, fun h => absurd h (by decide),
      fun k hk h _ => ?_⟩
    · rw [hblock k (by omega), show k = 0 by omega, hfirst]
      decide
    · rw [hrest 12 (by decide) (by decide)]
      decide
    · rw [hblock k (by omega)]
      exact hrest k (by omega) (by omega)
  · -- A sector of the file is the one of slot 0, and its bit is set.
    rintro n ⟨hn, htable | ⟨k, hk | ⟨hk, -⟩, hblk⟩⟩
    · exact absurd (htable.trans (hrest 12 (by decide) (by decide))) hn
    · rw [hblock k hk] at hblk
      have hk0 : k = 0 := by
        by_contra hne
        exact hn (hblk.trans (hrest k (by omega) hne))
      rw [hk0, hfirst] at hblk
      exact ⟨by omega, 1, by omega, htaken, by omega⟩
    · exact absurd (hrest 12 (by decide) (by decide)) hk

/-- The segment begins behind the last byte of the file. `load` returns the entry
    point all the same. -/
theorem segment_past_end :
    (Exec.load pathD).run (stackExec 84 4) =
        .ok (0x8048000, (Exec.load pathD).after (stackExec 84 4)) ∧
      (openedImage 1 (stackOpened 84 4)).SegmentsApart ∧
      ¬ Faithful (openedImage 1 (stackOpened 84 4)) (stackExec 84 4)
        ((Exec.load pathD).after (stackExec 84 4)) 0x8048000 := by
  have himage : (openedImage 1 (stackOpened 84 4)).ehdr.ePhnum = 1 ∧
      (openedImage 1 (stackOpened 84 4)).phdr 0 = ⟨1, 84, 0xbffff000, 4⟩ ∧
      (openedImage 1 (stackOpened 84 4)).size = 84 := by
    decide +kernel
  rcases himage with ⟨hphnum, hphdr, hsize⟩
  refine ⟨run_after (by decide +kernel), fun i j x hi hj hne => ?_, fun h => ?_⟩
  · have hi := hi.1
    have hj := hj.1
    omega
  · have hseg : (openedImage 1 (stackOpened 84 4)).Segment 0 := ⟨by omega, by rw [hphdr]; rfl⟩
    have hlt := h.complete.bytes 0 0 hseg (by rw [hphdr]; decide)
    rw [hphdr, hsize] at hlt
    exact absurd hlt (by decide)

/-- A segment that is the first four bytes of the file, with four zeros after
    it. -/
theorem load_faithful_stack :
    Faithful (openedImage 1 (stackOpened 0 8)) (stackExec 0 8)
      ((Exec.load pathD).after (stackExec 0 8)) 0x8048000 := by
  have himage : (openedImage 1 (stackOpened 0 8)).ehdr.ePhnum = 1 ∧
      (openedImage 1 (stackOpened 0 8)).phdr 0 = ⟨1, 0, 0xbffff000, 4⟩ ∧
      (openedImage 1 (stackOpened 0 8)).memsz 0 = 8 ∧
      (openedImage 1 (stackOpened 0 8)).phdrOff 0 = 52 ∧
      (openedImage 1 (stackOpened 0 8)).size = 84 := by
    decide +kernel
  rcases himage with ⟨hphnum, hphdr, hmemsz, hoff, hsize⟩
  have hbuffers : ∀ k, k < 6 → (stackOpened 0 8).mallocs k = true := by decide +kernel
  have hopen : (sysOpen 1 pathD 0).run (stackExec 0 8).kernel.fs = .ok (4, stackOpened 0 8) :=
    run_after (by decide +kernel)
  have hload : (Exec.load pathD).run (stackExec 0 8) = .ok (0x8048000, _) :=
    run_after (by decide +kernel)
  have hspared : ArenasSpared ((Exec.load pathD).after (stackExec 0 8)).log := by decide +kernel
  have hfaith := fun hapart => load_faithful (s := stackExec 0 8) heapMachine_page.1.own
    (stackExec_arenas 0 8) rfl hopen stackOpened_on hapart hload (by decide)
  generalize openedImage 1 (stackOpened 0 8) = f at hphnum hphdr hmemsz hoff hsize hfaith ⊢
  -- The file has one segment, so all that is said of two is void.
  have hfirst : ∀ {i}, f.Segment i → i = 0 := by
    intro i hi
    have hi := hi.1
    omega
  refine ((hfaith (fun i j x hi hj hne => ?_)).2 (fun k hk => ?_) (fun i hi => ?_)).1
    ⟨fun i hi => ?_, fun i k hi hk => ?_⟩ (fun i x hi hx => Or.inl ?_) hspared
  · exact absurd ((hfirst hi).trans (hfirst hj).symm) hne
  · rw [hphnum] at hk
    exact hbuffers k hk
  · rw [hfirst hi, hphdr, hmemsz]
    decide
  · rw [show i = 0 by omega, hoff, hsize]
    decide
  · rw [hfirst hi, hphdr] at hk ⊢
    rw [hsize]
    have hk : k < 4 := hk
    show 0 + k < 84
    omega
  · unfold ElfImage.AfterFile at hx
    rw [hfirst hi, hphdr, hmemsz] at hx
    have hstart : (0xbffff000 : Word).toNat = 0xbffff000 := rfl
    have h4 : (4 : Word).toNat = 4 := rfl
    dsimp only at hx
    have hframe : frameAt stackMachine stackMachine.cr3 (x / 4096) = some 0x1100 := by
      rw [stackMachine_frameAt (by omega), if_pos (by omega)]
    -- The stack page is no arena, and it is empty.
    have hstack : x / 4096 ∉ (stackExec 0 8).arenas := by
      intro hin
      have hpage := List.mem_singleton.mp hin
      omega
    refine (byteOwn_of_not_mem hstack).trans (heapMachine_page.1.byteIn (by omega) id ?_)
    rw [byteIn, hframe, Option.map_some, Option.some.injEq]
    show ((0 : Word) >>> (x % 4 * 8)).setWidth 8 = 0
    rw [show (0 : Word) = 0#32 from rfl, BitVec.zero_ushiftRight]
    rfl

end Example

end ForikOS
