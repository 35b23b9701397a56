import MicroOs.Lib.LittleEndian

/-!
# The disk driver

Model of the reads of `kernel/drivers/ata.c`. A command is the bytes that the driver writes to the
registers of the channel. The drive answers a command with its sectors one after the other;
`ata_poll` sees the missing ones as errors.
-/

namespace MicroOs.Drivers.Ata
open Lib

/-- `ATA_DRIVE_MASTER` (`ata.h:37`). -/
def ataDriveMaster : BitVec 8 := 0xE0#8
/-- `ATA_DRIVE_SLAVE` (`ata.h:38`). -/
def ataDriveSlave : BitVec 8 := 0xF0#8

/-- The registers of a command (`ata.h:16-24`). -/
structure Command where
  drive : BitVec 8
  seccount : BitVec 8
  lbaLo : BitVec 8
  lbaMid : BitVec 8
  lbaHi : BitVec 8
  deriving DecidableEq, Repr

/-- The sector at which the drive starts: the low half of the drive register and the three address
registers. -/
def Command.lba (command : Command) : BitVec 28 :=
  command.drive.setWidth 4 ++ command.lbaHi ++ command.lbaMid ++ command.lbaLo

/-- `ata_drive_present` (`ata.c:123-128`). -/
def ataDrivePresent (drivePresent : Nat → Bool) (drive : Int) : Bool :=
  if drive < 0 ∨ 1 < drive then false else drivePresent drive.toNat

/-- The command of `ata_read_sectors` (`ata.c:138-150`). -/
def readCommand (drive : Int) (lba : BitVec 32) (count : BitVec 8) : Command :=
  let drv := if drive = 0 then ataDriveMaster else ataDriveSlave
  { drive := (drv.setWidth 32 ||| ((lba >>> 24) &&& 0x0F#32)).setWidth 8
    seccount := count
    lbaLo := lba.setWidth 8
    lbaMid := (lba >>> 8).setWidth 8
    lbaHi := (lba >>> 16).setWidth 8 }

/-- `ata_read_sectors` (`ata.c:132-164`): the sectors in the buffer, or `none` for -1. -/
def ataReadSectors (drivePresent : Nat → Bool) (device : Command → Nat → Option (Nat → BitVec 8))
    (drive : Int) (lba : BitVec 32) (count : BitVec 8) : Option (List (Nat → BitVec 8)) :=
  if drive < 0 ∨ 1 < drive ∨ drivePresent drive.toNat = false then none
  else
    let sectors := if count = 0#8 then 256 else count.toNat
    (List.range sectors).mapM (device (readCommand drive lba count))

lemma drive_readCommand (drive : Int) (lba : BitVec 32) (count : BitVec 8) :
    (readCommand drive lba count).drive.setWidth 4 = (lba >>> 24).setWidth 4 := by
  have select : ((if drive = 0 then ataDriveMaster else ataDriveSlave).setWidth 32).setWidth 4
      = 0#4 := by
    split <;> rfl
  rw [readCommand, BitVec.setWidth_setWidth_of_le _ (by decide), BitVec.setWidth_or,
    BitVec.setWidth_and, select, BitVec.zero_or]
  exact BitVec.and_allOnes

lemma lba_readCommand (drive : Int) (lba : BitVec 32) (count : BitVec 8) :
    (readCommand drive lba count).lba = lba.setWidth 28 := by
  have top : (lba >>> 24).setWidth 4 ++ (lba >>> 16).setWidth 8 = (lba >>> 16).setWidth 12 :=
    setWidth_append_low (lba >>> 16) 4 8
  have upper : (lba >>> 16).setWidth 12 ++ (lba >>> 8).setWidth 8 = (lba >>> 8).setWidth 20 :=
    setWidth_append_low (lba >>> 8) 12 8
  calc (readCommand drive lba count).lba
      = (lba >>> 24).setWidth 4 ++ (lba >>> 16).setWidth 8 ++ (lba >>> 8).setWidth 8
          ++ lba.setWidth 8 := by rw [Command.lba, drive_readCommand]; rfl
    _ = (lba >>> 8).setWidth 20 ++ lba.setWidth 8 := by rw [top, upper]
    _ = lba.setWidth 28 := setWidth_append_low lba 20 8

end MicroOs.Drivers.Ata
