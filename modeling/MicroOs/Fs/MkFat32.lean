import MicroOs.Fs.Fat32

/-!
# The image builder

Model of the functions of `tools/mkfat32.py` that write directory slots. An image is its bytes by
offset; `struct.pack_into` fails for numbers that do not fit their field, so clusters and sizes are
32-bit numbers.
-/

namespace MicroOs.Fs.MkFat32
open Lib Fat32
open Function (update)

abbrev Image := Nat → Byte

/-- `s.ljust(11)[:11]` (`mkfat32.py:89-92`, `124`, `131`). -/
def ljust11 (s : Path) : Path := (s ++ List.replicate (11 - s.length) blank).take 11

/-- `write_83_entry` (`mkfat32.py:86-96`). -/
def write83Entry (img : Image) (parentOff slot : Nat) (name83 : Path) (attr : Byte)
    (cluster size : BitVec 32) : Image :=
  let off := parentOff + slot * 32
  let img := copied img off (fun i => (ljust11 name83).getD i 0#8) 11
  let img := update img (off + 11) attr
  let img := put16 img (off + 20) ((cluster >>> 16).setWidth 16)
  let img := put16 img (off + 26) (cluster.setWidth 16)
  put32 img (off + 28) size

/-- The UCS-2 characters of a name part, padded with 0xFFFF (`mkfat32.py:106-110`). -/
def lfnChars (part : Path) (i : Nat) : BitVec 16 :=
  if i < part.length then (part.getD i 0#8).setWidth 16 else 0xFFFF#16

/-- `write_lfn_entry` (`mkfat32.py:98-120`). -/
def writeLfnEntry (img : Image) (parentOff slot : Nat) (order : Byte) (part : Path)
    (checksum : Byte) : Image :=
  let off := parentOff + slot * 32
  let img := update img off order
  let img := update img (off + 11) attrLfn
  let img := update img (off + 12) 0#8
  let img := update img (off + 13) checksum
  let img := putRun img (off + 1) (lfnChars part) 5
  let img := putRun img (off + 14) (fun i => lfnChars part (5 + i)) 6
  putRun img (off + 28) (fun i => lfnChars part (11 + i)) 2

/-- `lfn_checksum` (`mkfat32.py:122-126`). -/
def lfnChecksum (name83 : Path) : Byte :=
  (ljust11 name83).foldl (fun s ch => (s >>> 1) + ((s &&& 1#8) <<< 7) + ch) 0#8

/-- The chunk `i` of a long name (`mkfat32.py:136-137`). -/
def chunk (longName : Path) (i : Nat) : Path := (longName.drop (13 * i)).take 13

/-- The number of chunks. -/
def chunkCount (longName : Path) : Nat := (longName.length + 12) / 13

/-- The order byte of the chunk `i` out of `count` (`mkfat32.py:141-143`). -/
def orderByte (count i : Nat) : Byte :=
  if i + 1 = count then BitVec.ofNat 8 (i + 1) ||| 0x40#8 else BitVec.ofNat 8 (i + 1)

/-- The loop over the chunks below `i`, from the last to the first (`mkfat32.py:140-145`). -/
def writeChunks (parentOff : Nat) (longName : Path) (checksum : Byte) :
    Nat → Nat → Image → Image
  | 0, _, img => img
  | i + 1, slot, img =>
    let order := orderByte (chunkCount longName) i
    writeChunks parentOff longName checksum i (slot + 1)
      (writeLfnEntry img parentOff slot order (chunk longName i) checksum)

/-- `write_file_entry` (`mkfat32.py:128-150`): the image, and the next slot. -/
def writeFileEntry (img : Image) (parentOff slot : Nat) (longName shortName : Path) (attr : Byte)
    (cluster size : BitVec 32) : Image × Nat :=
  let name83 := ljust11 shortName
  let count := chunkCount longName
  let img := writeChunks parentOff longName (lfnChecksum name83) count slot img
  (write83Entry img parentOff (slot + count) name83 attr cluster size, slot + count + 1)

/-- The slot `k` of the directory at `parentOff`. -/
def slotAt (img : Image) (parentOff k : Nat) : Slot := window img (parentOff + k * 32) 32

/-- The slots from `first` up to `next`. -/
def slotsBetween (img : Image) (parentOff first next : Nat) : List Slot :=
  (List.range' first (next - first)).map (slotAt img parentOff)

/-- A volume on an image with the builder's 32 reserved sectors, two FATs of 16 sectors and root
cluster 2 (`mkfat32.py:12-17`, `49`); the builder has one sector in a cluster. -/
def builtVolume (img : Image) (sectorsPerCluster : Byte) : Mount where
  disk lba := some fun offset => img (lba.toNat * 512 + offset)
  buffer := true
  sectorsPerCluster
  fatStartLba := 32#32
  dataStartLba := 64#32
  rootCluster := 2#32

/-- `root_off` (`mkfat32.py:154`). -/
def rootOff : Nat := 64 * 512

/-- The image with one file in its root directory, of the cluster and size of `/hello.txt`
(`mkfat32.py:161-167`). -/
def oneFileImage (longName shortName : Path) : Image :=
  (writeFileEntry (fun _ => 0#8) rootOff 0 longName shortName 0x20#8 3#32 33#32).1

/-- `hello.txt`. -/
def helloName : Path :=
  [0x68#8, 0x65#8, 0x6C#8, 0x6C#8, 0x6F#8, 0x2E#8, 0x74#8, 0x78#8, 0x74#8]

/-- `HELLO   TXT`. -/
def helloAlias : Path :=
  [0x48#8, 0x45#8, 0x4C#8, 0x4C#8, 0x4F#8, 0x20#8, 0x20#8, 0x20#8, 0x54#8, 0x58#8, 0x54#8]

end MicroOs.Fs.MkFat32
