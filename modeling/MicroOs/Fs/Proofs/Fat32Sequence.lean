import MicroOs.Fs.Proofs.Fat32Lookup

/-!
# Which slots give an entry its name

The reader collects the LFN slots since the last entry or volume label, whatever their order bytes
and checksums, and with the deleted slots between them left out. The name of the next entry is what
these slots hold.
-/

namespace MicroOs.Fs.Fat32
open Lib MkFat32 List

/-- The LFN slots that `iterate_dir` has collected after these slots, in addition to `collected`. -/
def pendingFrom (collected : List Slot) : List Slot → List Slot
  | [] => collected
  | slot :: slots =>
    if byteAt slot 0 = 0xE5#8 then pendingFrom collected slots
    else if (dirEnt slot).attr = attrLfn then pendingFrom (collected ++ [slot]) slots
    else pendingFrom [] slots

/-- The LFN slots since the last entry. -/
def pending (slots : List Slot) : List Slot := pendingFrom [] slots

def assemble (slots : List Slot) : Lfn :=
  slots.foldl (fun lfn slot => lfn.append (lfnEntry slot)) Lfn.reset

def longName (slots : List Slot) : Path :=
  cString (window (assemble slots).buf 0 (assemble slots).len)

/-- An order that `lfn_append` does not ignore (`fat32.c:150-151`). -/
def usable (slot : Slot) : Bool :=
  (byteAt slot 0 &&& 0x3F#8).toNat ≠ 0 ∧ (byteAt slot 0 &&& 0x3F#8).toNat * 13 ≤ fat32MaxName

end MicroOs.Fs.Fat32
