import ForikOS.Core.Sync

/-!
# Bitmaps

The bitmaps of `lib/bitmap.c`, which record the free pages of a pool, the
free addresses of a virtual range, the free blocks and inodes of a partition
and the free pids.

A bitmap is a length in bytes and a pointer. The pointer is modelled by the
memory it points to, without an end: the code reads past the last byte in two
places, and whether that matters is a question the model has to be able to
ask. `bitmap_scan` has three loops, over bytes, over the bits of one byte and
over the bits that follow; each is a function of its own below.

`-1` is `none`. The assertion of `bitmap_scan` is kept apart from the rest of
it, since a build with `NDEBUG` leaves it out.

## Main definitions

* `Bitmap`: `struct bitmap`.
* `bitmapScanTest`: Reads one bit.
* `bitmapSet`: Writes one bit.
* `bitmapScan`: Looks for a run of clear bits.
* `bitmapScanWord`: The same with the 32 bits of the source's variables.
* `bitmapSetRange`: The loop by which callers mark a run.
-/

namespace ForikOS

/-- `struct bitmap`: the length in bytes, and memory from the first byte on. -/
structure Bitmap where
  btmpBytesLen : Nat
  bits : Nat → BitVec 8

/-- `bitmap_init`: clears the bytes of the bitmap and no others. -/
def bitmapInit (b : Bitmap) : Bitmap :=
  { b with bits := fun i => if i < b.btmpBytesLen then 0 else b.bits i }

/-- `bitmap_scan_test`. -/
def bitmapScanTest (b : Bitmap) (bitIdx : Nat) : Bool :=
  (b.bits (bitIdx / 8) &&& (1#8 <<< (bitIdx % 8))) != 0

/-- `bitmap_set`. There is no check that the bit lies inside the bitmap. -/
def bitmapSet (b : Bitmap) (bitIdx : Nat) (value : Bool) : Bitmap :=
  let byte := b.bits (bitIdx / 8)
  let mask := 1#8 <<< (bitIdx % 8)
  let byte := if value then byte ||| mask else byte &&& ~~~mask
  { b with bits := Function.update b.bits (bitIdx / 8) byte }

/-- The first loop of `bitmap_scan`: skip the bytes without a clear bit. The
    first argument counts the bytes left. -/
def scanBytes (b : Bitmap) : Nat → Nat → Nat
  | 0, idxByte => idxByte
  | n + 1, idxByte => if b.bits idxByte = 0xff then scanBytes b n (idxByte + 1) else idxByte

/-- The second loop of `bitmap_scan`: the first clear bit of a byte. The mask
    shifted out of the byte is zero, which ends the loop at bit eight. -/
def scanBits (byte : BitVec 8) : Nat → Nat → Nat
  | 0, idxBit => idxBit
  | n + 1, idxBit => if (1#8 <<< idxBit) &&& byte ≠ 0 then scanBits byte n (idxBit + 1) else idxBit

/-- The third loop of `bitmap_scan`: count clear bits from `nextBit` on, for
    `bitLeft` more bits, starting over at every set bit. -/
def scanRun (b : Bitmap) (cnt : Nat) : Nat → Nat → Nat → Option Nat
  | 0, _, _ => none
  | bitLeft + 1, nextBit, count =>
      let count := if bitmapScanTest b nextBit then 0 else count + 1
      if count = cnt then
        some (nextBit + 1 - cnt)
      else
        scanRun b cnt bitLeft (nextBit + 1) count

/-- `bitmap_scan` without its assertion. -/
def bitmapScanRest (b : Bitmap) (cnt : Nat) : Option Nat :=
  let idxByte := scanBytes b b.btmpBytesLen 0
  if idxByte = b.btmpBytesLen then
    none
  else
    let idxBit := scanBits (b.bits idxByte) 8 0
    let bitIdxStart := idxByte * 8 + idxBit
    if cnt = 1 then
      some bitIdxStart
    else
      scanRun b cnt (b.btmpBytesLen * 8 - bitIdxStart) (bitIdxStart + 1) 1

/-- `bitmap_scan`. A bitmap with no clear bit fails the assertion before the
    test that would report it. -/
def bitmapScan (b : Bitmap) (cnt : Nat) : Except Func (Option Nat) := do
  ensure (scanBytes b b.btmpBytesLen 0 < b.btmpBytesLen) .bitmapScan
  .ok (bitmapScanRest b cnt)

/-- The third loop with the widths of the source: `next_bit`, `count` and what is
    returned have 32 bits. -/
def scanRunWord (b : Bitmap) (cnt : BitVec 32) : Nat → BitVec 32 → BitVec 32 → BitVec 32
  | 0, _, _ => -1
  | bitLeft + 1, nextBit, count =>
      let count := if bitmapScanTest b nextBit.toNat then 0 else count + 1
      if count = cnt then
        nextBit - cnt + 1
      else
        scanRunWord b cnt bitLeft (nextBit + 1) count

/-- `bitmap_scan` with the widths of the source. -/
def bitmapScanWord (b : Bitmap) (cnt : BitVec 32) : Except Func (BitVec 32) := do
  let idxByte := scanBytes b b.btmpBytesLen 0
  ensure (idxByte < b.btmpBytesLen) .bitmapScan
  let bitIdxStart := BitVec.ofNat 32 idxByte * 8 + BitVec.ofNat 32 (scanBits (b.bits idxByte) 8 0)
  if cnt = 1 then
    .ok bitIdxStart
  else
    let bitLeft := BitVec.ofNat 32 b.btmpBytesLen * 8 - bitIdxStart
    .ok (scanRunWord b cnt bitLeft.toNat (bitIdxStart + 1) 1)

/-- `while (cnt < n) bitmap_set(b, start + cnt++, value)`. -/
def bitmapSetRange (b : Bitmap) (start : Nat) (value : Bool) : Nat → Bitmap
  | 0 => b
  | n + 1 => bitmapSet (bitmapSetRange b start value n) (start + n) value

end ForikOS
