import MicroOs.Fs.Vfs
import MicroOs.Lib.Packed12
import MicroOs.Lib.Patches

/-!
# The builder of the boot image

Model of `tools/mkimg.py`, which makes a FAT12 image with the one file `/EFI/BOOT/BOOTX64.EFI`, and
of a reader of such images. An image is its bytes by offset; its length is `totalSectors` sectors.
`struct.pack_into` fails for a number that does not fit, and then no image is written.
-/

namespace MicroOs.Fs.MkImg
open Lib
open Function (update)
open BitVec (ofNat)

abbrev Image := Nat → Byte

/-! ## Layout (`mkimg.py:26-50`) -/

def bytesPerSector : Nat := 512
def sectorsPerCluster : Nat := 4
def reservedSectors : Nat := 1
def numFats : Nat := 2
def rootEntryCount : Nat := 512
def rootDirSectors : Nat := (rootEntryCount * 32 + bytesPerSector - 1) / bytesPerSector
def clusterSize : Nat := bytesPerSector * sectorsPerCluster
def dirClusters : Nat := 2
def minSectors : Nat := 2880

def fileClusters (efiSize : Nat) : Nat := (efiSize + clusterSize - 1) / clusterSize

def totalDataClusters (efiSize : Nat) : Nat := fileClusters efiSize + dirClusters + 16

def sectorsPerFat (efiSize : Nat) : Nat :=
  let sectors := (totalDataClusters efiSize * 3 / 2 + bytesPerSector - 1) / bytesPerSector
  if sectors < 1 then 1 else sectors

def dataStart (efiSize : Nat) : Nat :=
  reservedSectors + numFats * sectorsPerFat efiSize + rootDirSectors

def totalSectors (efiSize : Nat) : Nat :=
  let sectors := dataStart efiSize + totalDataClusters efiSize * sectorsPerCluster
  if sectors < minSectors then minSectors else sectors

def fatOffset : Nat := reservedSectors * bytesPerSector
def fatSize (efiSize : Nat) : Nat := sectorsPerFat efiSize * bytesPerSector
def fat2Offset (efiSize : Nat) : Nat := fatOffset + fatSize efiSize

def rootOffset (efiSize : Nat) : Nat :=
  (reservedSectors + numFats * sectorsPerFat efiSize) * bytesPerSector

/-- `cluster_offset` (`mkimg.py:153-154`). -/
def clusterOffset (efiSize cluster : Nat) : Nat :=
  (dataStart efiSize + (cluster - 2) * sectorsPerCluster) * bytesPerSector

/-- `struct.pack_into('<H', img, off, v)`. -/
def packIntoH (img : Image) (off v : Nat) : Option Image :=
  if v < 2 ^ 16 then some (put16 img off (ofNat 16 v)) else none

/-- `struct.pack_into('<I', img, off, v)`. -/
def packIntoI (img : Image) (off v : Nat) : Option Image :=
  if v < 2 ^ 32 then some (put32 img off (ofNat 32 v)) else none

/-- `MICROOS `, the OEM name. -/
def oemName : List Byte := [0x4D#8, 0x49#8, 0x43#8, 0x52#8, 0x4F#8, 0x4F#8, 0x53#8, 0x20#8]

/-- `MICRO-OS   `, the volume label. -/
def volumeLabel : List Byte :=
  [0x4D#8, 0x49#8, 0x43#8, 0x52#8, 0x4F#8, 0x2D#8, 0x4F#8, 0x53#8, 0x20#8, 0x20#8, 0x20#8]

/-- `FAT12   `, the file system type. -/
def fsType : List Byte := [0x46#8, 0x41#8, 0x54#8, 0x31#8, 0x32#8, 0x20#8, 0x20#8, 0x20#8]

/-- The boot sector `bs` (`mkimg.py:55-76`). -/
def bootSector (efiSize : Nat) : Option Image := do
  let bs := patch (fun _ => 0#8) (0, [0xEB#8, 0x3C#8, 0x90#8])
  let bs := patch bs (3, oemName)
  let bs ← packIntoH bs 11 bytesPerSector
  let bs := update bs 13 (ofNat 8 sectorsPerCluster)
  let bs ← packIntoH bs 14 reservedSectors
  let bs := update bs 16 (ofNat 8 numFats)
  let bs ← packIntoH bs 17 rootEntryCount
  let bs ← packIntoH bs 19 (if totalSectors efiSize < 65536 then totalSectors efiSize else 0)
  let bs := update bs 21 0xF0#8
  let bs ← packIntoH bs 22 (sectorsPerFat efiSize)
  let bs ← packIntoH bs 24 63
  let bs ← packIntoH bs 26 255
  let bs ← packIntoI bs 28 0
  let bs ← packIntoI bs 32 (if totalSectors efiSize ≥ 65536 then totalSectors efiSize else 0)
  let bs := update bs 36 0x80#8
  let bs := update bs 38 0x29#8
  let bs ← packIntoI bs 39 0x12345678
  let bs := patch bs (43, volumeLabel)
  let bs := patch bs (54, fsType)
  let bs := update bs 510 0x55#8
  pure (update bs 511 0xAA#8)

/-- `set_fat12` (`mkimg.py:83-95`). -/
def setFat12 (img : Image) (cluster value : Nat) : Image :=
  let byteOff := cluster * 3 / 2
  if cluster % 2 = 0 then
    let img := update img (fatOffset + byteOff) (ofNat 8 value)
    update img (fatOffset + byteOff + 1)
      ((img (fatOffset + byteOff + 1) &&& 0xF0#8) ||| (ofNat 8 (value >>> 8) &&& 0x0F#8))
  else
    let img := update img (fatOffset + byteOff)
      ((img (fatOffset + byteOff) &&& 0x0F#8) ||| ((ofNat 8 value &&& 0x0F#8) <<< 4))
    update img (fatOffset + byteOff + 1) (ofNat 8 (value >>> 4))

/-- Clusters 2 and 3 hold the directories, the file starts at cluster 4 (`mkimg.py:105-115`). -/
def efiDirCluster : Nat := 2
def bootDirCluster : Nat := 3
def fileStartCluster : Nat := 4

/-- The value for the cluster `i` of the file (`mkimg.py:116-121`). -/
def chainValue (efiSize i : Nat) : Nat :=
  if i < fileClusters efiSize - 1 then fileStartCluster + i + 1 else 0xFFF

/-- The calls of `set_fat12`, in order: cluster and value (`mkimg.py:98-121`). -/
def fatCalls (efiSize : Nat) : List (Nat × Nat) :=
  [(0, 0xFF0), (1, 0xFFF), (efiDirCluster, 0xFFF), (bootDirCluster, 0xFFF)] ++
    (List.range (fileClusters efiSize)).map fun i => (fileStartCluster + i, chainValue efiSize i)

/-- The image with both tables (`mkimg.py:98-127`). -/
def writeFats (efiSize : Nat) (img : Image) : Image :=
  let img := (fatCalls efiSize).foldl (fun img call => setFat12 img call.1 call.2) img
  patch img (fat2Offset efiSize, window img fatOffset (fatSize efiSize))

/-- `make_dir_entry` (`mkimg.py:132-142`). -/
def makeDirEntry (name : List Byte) (attr : Byte) (cluster size : Nat) : Option (List Byte) := do
  let padded := if name.length < 11 then name ++ List.replicate (11 - name.length) 0x20#8 else name
  let entry := patch (fun _ => 0#8) (0, padded.take 11)
  let entry := update entry 11 attr
  let entry ← packIntoH entry 26 cluster
  let entry ← packIntoI entry 28 size
  pure (window entry 0 32)

/-- `EFI        `. -/
def efiName : List Byte := [0x45#8, 0x46#8, 0x49#8] ++ List.replicate 8 0x20#8

/-- `BOOT       `. -/
def bootName : List Byte := [0x42#8, 0x4F#8, 0x4F#8, 0x54#8] ++ List.replicate 7 0x20#8

/-- `BOOTX64 EFI`. -/
def bootx64Name : List Byte :=
  [0x42#8, 0x4F#8, 0x4F#8, 0x54#8, 0x58#8, 0x36#8, 0x34#8, 0x20#8, 0x45#8, 0x46#8, 0x49#8]

/-- `.          ` -/
def dotName : List Byte := 0x2E#8 :: List.replicate 10 0x20#8

/-- `..         ` -/
def dotdotName : List Byte := 0x2E#8 :: 0x2E#8 :: List.replicate 9 0x20#8

/-- What is written behind the tables, in order (`mkimg.py:144-182`). -/
def dataPatches (efiData : List Byte) : Option (List (Nat × List Byte)) := do
  let efiSize := efiData.length
  let rootOff := rootOffset efiSize
  let efiDirOff := clusterOffset efiSize efiDirCluster
  let bootDirOff := clusterOffset efiSize bootDirCluster
  let volEntry ← makeDirEntry volumeLabel 0x08#8 0 0
  let efiEntry ← makeDirEntry efiName 0x10#8 efiDirCluster 0
  let dot ← makeDirEntry dotName 0x10#8 efiDirCluster 0
  let dotdot ← makeDirEntry dotdotName 0x10#8 0 0
  let bootEntry ← makeDirEntry bootName 0x10#8 bootDirCluster 0
  let dot2 ← makeDirEntry dotName 0x10#8 bootDirCluster 0
  let dotdot2 ← makeDirEntry dotdotName 0x10#8 efiDirCluster 0
  let fileEntry ← makeDirEntry bootx64Name 0x20#8 fileStartCluster efiSize
  pure [(rootOff, volEntry), (rootOff + 32, efiEntry),
    (efiDirOff, dot), (efiDirOff + 32, dotdot), (efiDirOff + 64, bootEntry),
    (bootDirOff, dot2), (bootDirOff + 32, dotdot2), (bootDirOff + 64, fileEntry),
    (clusterOffset efiSize fileStartCluster, efiData)]

/-- `create_fat12_image` (`mkimg.py:22-186`). -/
def createFat12Image (efiData : List Byte) : Option Image := do
  let bs ← bootSector efiData.length
  let img := patch (fun _ => 0#8) (0, window bs 0 bytesPerSector)
  let img := writeFats efiData.length img
  let patches ← dataPatches efiData
  pure (patched img patches)

/-- What the boot sector says about the layout. -/
structure Layout where
  bytesPerSector : Nat
  sectorsPerCluster : Nat
  reservedSectors : Nat
  numFats : Nat
  rootEntryCount : Nat
  sectorsPerFat : Nat
deriving DecidableEq

def layout (img : Image) : Layout where
  bytesPerSector := (le16 img 11).toNat
  sectorsPerCluster := (img 13).toNat
  reservedSectors := (le16 img 14).toNat
  numFats := (img 16).toNat
  rootEntryCount := (le16 img 17).toNat
  sectorsPerFat := (le16 img 22).toNat

namespace Layout

variable (l : Layout)

/-- The offset of the table `i`. -/
def tableOffset (i : Nat) : Nat := (l.reservedSectors + i * l.sectorsPerFat) * l.bytesPerSector

def tableSize : Nat := l.sectorsPerFat * l.bytesPerSector

def rootOffset : Nat := l.tableOffset l.numFats

def clusterSize : Nat := l.bytesPerSector * l.sectorsPerCluster

/-- The offset of a cluster; cluster 2 comes right behind the root directory. -/
def clusterOffset (cluster : Nat) : Nat :=
  l.rootOffset + (l.rootEntryCount * 32 + l.bytesPerSector - 1) / l.bytesPerSector *
    l.bytesPerSector + (cluster - 2) * l.clusterSize

end Layout

/-- The value of a cluster in the first table. -/
def fat12 (img : Image) (cluster : Nat) : Nat :=
  (entry12 img ((layout img).tableOffset 0) cluster).toNat

/-- The offset of the first of the `slots` directory slots from `off` on that has the name. -/
def findEntry (img : Image) (off slots : Nat) (name : List Byte) : Option Nat :=
  ((List.range slots).map fun k => off + 32 * k).find? fun slot => window img slot 11 == name

/-- The first cluster of the entry at `slot`. -/
def firstCluster (img : Image) (slot : Nat) : Nat := (le16 img (slot + 26)).toNat

/-- The directory entry of `/EFI/BOOT/BOOTX64.EFI`. -/
def bootx64Entry (img : Image) : Option Nat := do
  let l := layout img
  let efi ← findEntry img l.rootOffset l.rootEntryCount efiName
  let boot ← findEntry img (l.clusterOffset (firstCluster img efi)) (l.clusterSize / 32) bootName
  findEntry img (l.clusterOffset (firstCluster img boot)) (l.clusterSize / 32) bootx64Name

/-- The clusters from `cluster` on, up to the first whose value is in the end-of-chain range, and at
most `fuel`. -/
def clusterChain (img : Image) : Nat → Nat → List Nat
  | 0, _ => []
  | fuel + 1, cluster =>
    cluster :: if fat12 img cluster ≥ 0xFF8 then [] else clusterChain img fuel (fat12 img cluster)

/-- The contents of the file at `slot`: its clusters, cut at the recorded size. -/
def readFile (img : Image) (fuel slot : Nat) : List Byte :=
  ((clusterChain img fuel (firstCluster img slot)).flatMap fun cluster =>
    window img ((layout img).clusterOffset cluster) (layout img).clusterSize).take
      (le32 img (slot + 28)).toNat

end MicroOs.Fs.MkImg
