import MicroOs.Mm.Pmm

/-!
# The words that `pmm_init` accesses

The indices of the bitmap words that the loops of `pmm_init` read or write, by the same loops as in
the model of the function itself. An index is kept whether or not the word belongs to the bitmap.
-/

namespace MicroOs.Mm
open Lib

/-- The accesses of a bit-by-bit loop: `bitmap_test`, and `bitmap_set` or `bitmap_clear`. -/
def bitmapBitsAccess (unaligned : Bool) (stop start : Nat) : List Nat :=
  if start < stop ∧ (unaligned = true → start % 64 ≠ 0) then
    start / 64 :: bitmapBitsAccess unaligned stop (start + 1)
  else []
termination_by stop - start

/-- The accesses of the word loop. -/
def bitmapWordsAccess (stop start : Nat) : List Nat :=
  if start + 64 ≤ stop then start / 64 :: bitmapWordsAccess stop (start + 64) else []
termination_by stop - start

/-- The accesses of `bitmapRange`. -/
def bitmapRangeAccess (on : Bool) (w : Words) (start stop : Nat) : List Nat :=
  let head := bitmapBits on true stop w start 0
  let body := bitmapWords on stop head.1 head.2.1 head.2.2
  bitmapBitsAccess true stop start ++ bitmapWordsAccess stop head.2.1 ++
    bitmapBitsAccess false stop body.2.1

/-- The accesses of `markUsable`. -/
def markUsableAccess (totalPages : Nat) (acc : Words × Nat) (e : MmapEntry) : List Nat :=
  if e.type ≠ .usable then []
  else
    let startPage := pageUp e.base / pageSize
    let endPage := pageDown (add64 e.base e.length) / pageSize
    let endPage := if endPage > totalPages then totalPages else endPage
    bitmapRangeAccess true acc.1 startPage endPage

/-- The accesses of pass 3. -/
def markAllAccess (totalPages : Nat) : List MmapEntry → Words × Nat → List Nat
  | [], _ => []
  | e :: entries, acc =>
    markUsableAccess totalPages acc e ++
      markAllAccess totalPages entries (markUsable totalPages acc e)

/-- The accesses of `fillBitmap`, those of `memset` first. -/
def fillBitmapAccess (entries : List MmapEntry)
    (kernelPhys kernelSize totalPages bitmap bitmapSize : Nat) (memory : Words) : List Nat :=
  let zeroed : Words := fun i => if i < bitmapSize / 8 then 0#64 else memory i
  let marked := entries.foldl (markUsable totalPages) (zeroed, 0)
  let low := reserve marked 0 (lowMemory / pageSize)
  let kernelStart := kernelPhys / pageSize
  let kernelStop := add64 (add64 kernelPhys kernelSize) (pageSize - 1) / pageSize
  let kernel := reserve low kernelStart kernelStop
  List.range (bitmapSize / 8) ++ markAllAccess totalPages entries (zeroed, 0) ++
    bitmapRangeAccess false marked.1 0 (lowMemory / pageSize) ++
    bitmapRangeAccess false low.1 kernelStart kernelStop ++
    bitmapRangeAccess false kernel.1 (bitmap / pageSize)
      (add64 (add64 bitmap bitmapSize) (pageSize - 1) / pageSize)

/-- The accesses of `pmmInit`. -/
def pmmInitAccess (ram : Nat → BitVec 64) (entries : List MmapEntry)
    (kernelPhys kernelSize : Nat) : List Nat :=
  let totalPages := highestPageOf entries
  let bitmapSize := (totalPages + 63) / 64 * 8
  let bitmap := findBitmap entries kernelPhys kernelSize bitmapSize
  if bitmap = 0 then []
  else
    fillBitmapAccess entries kernelPhys kernelSize totalPages bitmap bitmapSize
      fun i => ram (bitmap + 8 * i)

end MicroOs.Mm
