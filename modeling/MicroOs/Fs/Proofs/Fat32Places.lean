import MicroOs.Fs.Proofs.Fat32Address
import MicroOs.Fs.Proofs.Fat32Walk

/-!
# The slots behind the callbacks

A walk over a directory with the place on the disk of every slot: the number of the sector that the
drive gets, and the index of the slot in the sector. Without the places it is the walk of
`iterate_dir`.
-/

namespace MicroOs.Fs.Fat32
open Lib Drivers.Ata List

variable {lba : BitVec 32} {m : Mount} {n : Nat} {sectors : List Sector}

abbrev Place := BitVec 28 × Nat

namespace Mount

end Mount

namespace Mount

end Mount

section

variable {drivePresent : Nat → Bool} {device : Command → Nat → Option Sector} {drive : Int}
variable {m : Mount}

end

end MicroOs.Fs.Fat32
