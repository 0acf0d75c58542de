import ForikOS.Theory.Paging

/-!
# Software and Hardware Translation

Where the address an entry is reached at leads, in physical memory.

`walk` names frames, and the lemmas about `pte_ptr` and `pde_ptr` in
`Theory.Paging` say what is read and written through them. Here the walk of
the processor is a walk over physical addresses: it reads an entry of the
directory, an entry of a table, and adds the offset in the page. The addresses
of the two entries are what the walk of `pde_ptr` and `pte_ptr` arrives at,
and `addr_v2p` repeats the last step of the walk in software.

Nothing is asked of the tables but the last entry of the directory, so an
address in the window of the last entry is no special case: its directory
entry is the last one, and the table it uses is the directory.

## Main definitions

* `physWord`: The word at a physical address.
* `pdeAddr`, `pteAddr`: The physical addresses of the entries a walk reads.
* `hardwareWalk`: The physical address a virtual one is translated to.

## Theorems

* `hardwareWalk_eq`: The walk over addresses and the walk over frames.
* `translation_agrees`: The code's addresses lead to the entries of the walk,
  and its translation is that of the walk.
-/

namespace ForikOS

/-- The word at a physical address. -/
def physWord (m : Machine) (p : Nat) : Word := m.phys (p / 4096) (p % 4096 / 4)

/-- The directory entry the walk of `v` reads. -/
def pdeAddr (m : Machine) (v : Word) : Nat := m.cr3 * 4096 + pdeIdx v * 4

/-- The table entry the walk of `v` reads, in the table the directory entry
    points to. -/
def pteAddr (m : Machine) (v : Word) : Nat :=
  frameOf (physWord m (pdeAddr m v)) * 4096 + pteIdx v * 4

/-- The walk of the processor: the physical address `v` is translated to, if
    both entries are present. -/
def hardwareWalk (m : Machine) (v : Word) : Option Nat :=
  if isPresent (physWord m (pdeAddr m v)) then
    if isPresent (physWord m (pteAddr m v)) then
      some (frameOf (physWord m (pteAddr m v)) * 4096 + v.toNat % 4096)
    else
      none
  else
    none

section Addresses

variable (m : Machine) (v : Word)

/-- An entry at its physical address. -/
theorem physWord_entry (f : Nat) {i : Nat} (hi : i < 1024) :
    physWord m (f * 4096 + i * 4) = m.phys f i := by
  have hframe : (f * 4096 + i * 4) / 4096 = f := by omega
  have hword : (f * 4096 + i * 4) % 4096 / 4 = i := by omega
  unfold physWord
  rw [hframe, hword]

theorem pdeIdx_lt : pdeIdx v < 1024 := by
  have hv := v.isLt
  rw [pdeIdx_eq]
  omega

theorem pteIdx_lt : pteIdx v < 1024 := by
  rw [pteIdx_eq]
  omega

theorem physWord_pdeAddr : physWord m (pdeAddr m v) = m.phys m.cr3 (pdeIdx v) :=
  physWord_entry m m.cr3 (pdeIdx_lt v)

theorem physWord_pteAddr :
    physWord m (pteAddr m v) = m.phys (frameOf (m.phys m.cr3 (pdeIdx v))) (pteIdx v) := by
  unfold pteAddr
  rw [physWord_pdeAddr, physWord_entry m _ (pteIdx_lt v)]

/-- The walk over physical addresses ends in the frame of `walk`, at the
    offset of `v` in its page. -/
theorem hardwareWalk_eq :
    hardwareWalk m v = (walk m v).map (fun f => f * 4096 + v.toNat % 4096) := by
  unfold hardwareWalk walk
  rw [physWord_pdeAddr, physWord_pteAddr]
  dsimp only
  -- Both walks stop at the same entry that is not present.
  by_cases hpde : isPresent (m.phys m.cr3 (pdeIdx v)) = true
  · rw [if_pos hpde, if_pos hpde]
    by_cases hpte : isPresent (m.phys (frameOf (m.phys m.cr3 (pdeIdx v))) (pteIdx v)) = true
    · rw [if_pos hpte, if_pos hpte]
      rfl
    · rw [if_neg hpte, if_neg hpte]
      rfl
  · rw [if_neg hpde, if_neg hpde]
    rfl

end Addresses

section SelfMapped

variable {m : Machine} (h : SelfMap m) {v : Word}

include h

/-- The walk of `pde_ptr` passes through the directory twice and ends in it. -/
theorem hardwareWalk_pdePtr : hardwareWalk m (pdePtr v) = some (pdeAddr m v) := by
  have hwalk := walk_pdePtr h v
  have hv := v.isLt
  have hoff : (pdePtr v).toNat % 4096 = pdeIdx v * 4 := by
    rw [toNat_pdePtr, pdeIdx_eq]
    omega
  rw [hardwareWalk_eq, hwalk.1, Option.map_some, hoff]
  rfl

/-- The walk of `pte_ptr` passes through the directory once and ends in the
    table. -/
theorem hardwareWalk_ptePtr (hp : isPresent (m.phys m.cr3 (pdeIdx v)) = true) :
    hardwareWalk m (ptePtr v) = some (pteAddr m v) := by
  have hwalk := walk_ptePtr h hp
  have hv := v.isLt
  have hoff : (ptePtr v).toNat % 4096 = pteIdx v * 4 := by
    rw [toNat_ptePtr, pteIdx_eq]
    omega
  rw [hardwareWalk_eq, hwalk.1, Option.map_some, hoff, pteAddr, physWord_pdeAddr]

/-- `addr_v2p` puts the frame of the table entry and the offset together. The
    sum of the two does not carry. -/
theorem addrV2p_toNat (hp : isPresent (m.phys m.cr3 (pdeIdx v)) = true) :
    ∃ p, addrV2p m v = .ok p ∧
      p.toNat = frameOf (physWord m (pteAddr m v)) * 4096 + v.toNat % 4096 := by
  have hrun : addrV2p m v = .ok ((physWord m (pteAddr m v) &&& 0xfffff000) + (v &&& 0xfff)) := by
    rw [addrV2p, load_ptePtr h hp, ok_bind, physWord_pteAddr]
  have he := (physWord m (pteAddr m v)).isLt
  refine ⟨_, hrun, ?_⟩
  rw [BitVec.toNat_add, toNat_high, toNat_low, frameOf_eq]
  omega

end SelfMapped

/-- For every address and every directory whose last entry maps the directory:
    the address of an entry in the code leads to the entry the processor reads,
    and the translation of the code is that of the processor. -/
theorem translation_agrees (m : Machine) (v : Word) (h : SelfMap m)
    (hp : isPresent (physWord m (pdeAddr m v)) = true) :
    hardwareWalk m (ptePtr v) = some (pteAddr m v) ∧
      hardwareWalk m (pdePtr v) = some (pdeAddr m v) ∧
      (isPresent (physWord m (pteAddr m v)) = true →
        ∃ p, addrV2p m v = .ok p ∧ hardwareWalk m v = some p.toNat) := by
  have hpde : isPresent (m.phys m.cr3 (pdeIdx v)) = true := by
    rw [← physWord_pdeAddr]
    exact hp
  refine ⟨hardwareWalk_ptePtr h hpde, hardwareWalk_pdePtr h, fun hpte => ?_⟩
  rcases addrV2p_toNat h hpde with ⟨p, hrun, hval⟩
  refine ⟨p, hrun, ?_⟩
  unfold hardwareWalk
  rw [if_pos hp, if_pos hpte, hval]

/-- A directory in frame 1 that maps itself, and a table in frame 2 that maps
    the first four megabytes to themselves. -/
def identityMap : Machine where
  phys f i :=
    if f = 1 then (if i = 1023 then 0x1003 else if i = 0 then 0x2003 else 0)
    else BitVec.ofNat 32 (i * 4096 + 3)
  cr3 := 1
  kernelPool := ⟨⟨0, fun _ => 0⟩, 0, 0⟩
  userPool := ⟨⟨0, fun _ => 0⟩, 0, 0⟩
  kernelVaddr := ⟨⟨0, fun _ => 0⟩, 0⟩
  cur := ⟨0, 0, 0, 0⟩

/-- An address in the window of the last entry, where the directory is read as
    a table. -/
theorem translation_agrees_window :
    hardwareWalk identityMap (ptePtr 0xffc00123) =
        some (pteAddr identityMap 0xffc00123) ∧
      hardwareWalk identityMap (pdePtr 0xffc00123) = some (pdeAddr identityMap 0xffc00123) ∧
      (isPresent (physWord identityMap (pteAddr identityMap 0xffc00123)) = true →
        ∃ p, addrV2p identityMap 0xffc00123 = .ok p ∧
          hardwareWalk identityMap 0xffc00123 = some p.toNat) :=
  translation_agrees identityMap 0xffc00123 ⟨by decide, by decide⟩ (by decide)

end ForikOS
