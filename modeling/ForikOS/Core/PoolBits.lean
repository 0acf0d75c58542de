import ForikOS.Core.Memory

/-!
# Where the Bitmaps of the Memory Lie

`mem_pool_init` of `mm/memory.c` puts the bitmaps of the two pools and of the
kernel addresses behind one another from `MEM_BITMAP_BASE` on. `memPoolInit`
has them as three separate bitmaps. Here they are what they are in the source,
an address and a length each, in one memory of bytes.

That memory is the first megabyte as the kernel sees it, and its addresses wrap
around like those of the machine. The functions of `lib/bitmap.c` are given the
bitmap and write to the bytes it points to.

## Main definitions

* `BitmapAt`: `struct bitmap`.
* `PoolMap`: The three bitmaps.
* `memPoolBits`: What `mem_pool_init` makes of them.
* `bitmapInitAt`, `bitmapSetAt`: `bitmap_init` and `bitmap_set`.
* `memPoolInitAt`: The bytes that `mem_pool_init` writes.
-/

namespace ForikOS

/-- `MEM_BITMAP_BASE`. -/
def memBitmapBase : Word := 0xc009a000

/-- The PCB of the main thread. -/
def mainThreadPcb : Word := 0xc009e000

/-- `struct bitmap`: the length in bytes, and the address of the first one. -/
structure BitmapAt where
  btmpBytesLen : Word
  bits : Word

/-- `kernel_pool.pool_bitmap`, `user_pool.pool_bitmap` and
    `kernel_vaddr.vaddr_bitmap`. -/
inductive PoolMap
  | kernelPool
  | userPool
  | kernelVaddr
  deriving DecidableEq

/-- The lengths and addresses that `mem_pool_init` computes. -/
def memPoolBits (allMem : Word) : PoolMap → BitmapAt :=
  -- The users get the odd page. Pages that do not fill a byte of a bitmap are lost.
  let kernelFreePages : BitVec 16 := allFreePages allMem / 2
  let userFreePages : BitVec 16 := allFreePages allMem - kernelFreePages
  let kbmLength : Word := (kernelFreePages / 8).setWidth 32
  let ubmLength : Word := (userFreePages / 8).setWidth 32
  fun
    | .kernelPool => ⟨kbmLength, memBitmapBase⟩
    | .userPool => ⟨ubmLength, memBitmapBase + kbmLength⟩
    | .kernelVaddr => ⟨kbmLength, memBitmapBase + kbmLength + ubmLength⟩

/-- `memset`. -/
def memsetAt (dst : Word) (value : BitVec 8) : Nat → (Word → BitVec 8) → Word → BitVec 8
  | 0, mem => mem
  | size + 1, mem => memsetAt (dst + 1) value size (Function.update mem dst value)

/-- `bitmap_init`. -/
def bitmapInitAt (mem : Word → BitVec 8) (btmp : BitmapAt) : Word → BitVec 8 :=
  memsetAt btmp.bits 0 btmp.btmpBytesLen.toNat mem

/-- `bitmap_set`. -/
def bitmapSetAt (mem : Word → BitVec 8) (btmp : BitmapAt) (bitIdx : Nat) (value : Bool) :
    Word → BitVec 8 :=
  let addr := btmp.bits + BitVec.ofNat 32 (bitIdx / 8)
  let mask := 1#8 <<< (bitIdx % 8)
  Function.update mem addr (if value then mem addr ||| mask else mem addr &&& ~~~mask)

/-- The bytes after the calls of `bitmap_init` in `mem_pool_init`. -/
def memPoolInitAt (mem : Word → BitVec 8) (allMem : Word) : Word → BitVec 8 :=
  let mem := bitmapInitAt mem (memPoolBits allMem .kernelPool)
  let mem := bitmapInitAt mem (memPoolBits allMem .userPool)
  bitmapInitAt mem (memPoolBits allMem .kernelVaddr)

end ForikOS
