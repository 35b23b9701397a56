import MicroOs.Fs.Vfs
import MicroOs.Lib.LittleEndian

/-!
# The FAT32 reader

Model of `kernel/fs/fat32.c`. A disk gives the bytes of a sector or fails to; the callbacks of a
directory walk are the list of their arguments. Strings are their bytes before the terminating zero.
`fat32_init` accepts sectors of 512 bytes only. What the heap returns is a field of the volume: each
function frees the one buffer it allocates, so that it is the same for every call.
-/

namespace MicroOs.Fs.Fat32
open Lib

/-- `FAT32_MAX_NAME` (`fat32.h:12`). -/
def fat32MaxName : Nat := 256
/-- `ATTR_VOLUME_ID` (`fat32.c:79`). -/
def attrVolumeId : Byte := 0x08#8
/-- `ATTR_DIRECTORY`. -/
def attrDirectory : Byte := 0x10#8
/-- `ATTR_LFN`. -/
def attrLfn : Byte := 0x0F#8
/-- `FAT32_EOC` (`fat32.c:84`). -/
def fat32Eoc : BitVec 32 := 0x0FFFFFF8#32

/-- A blank, the padding of 8.3 names. -/
def blank : Byte := 0x20#8

/-- The string that a buffer holds. -/
def cString (buf : List Byte) : Path := buf.takeWhile (· ≠ 0#8)

/-- The lower-case letter of an upper-case one (`fat32.c:183-184`, `279-280`). -/
def lower (c : Byte) : Byte := if 0x41#8 ≤ c ∧ c ≤ 0x5A#8 then c + 32#8 else c

/-- The 32 bytes of a directory slot, read as a `Fat32DirEnt` or as a `Fat32LfnEntry`. -/
abbrev Slot := List Byte

/-- The byte of a slot at an offset. -/
def byteAt (slot : Slot) (offset : Nat) : Byte := slot.getD offset 0#8

/-- `Fat32DirEnt` (`fat32.c:49-62`), without the times and dates. -/
structure Fat32DirEnt where
  name : List Byte
  attr : Byte
  firstClusterHi : BitVec 16
  firstClusterLo : BitVec 16
  fileSize : BitVec 32
  deriving DecidableEq, Repr

/-- `Fat32LfnEntry` (`fat32.c:64-73`); `chars` are `name1`, `name2` and `name3` in a row. -/
structure Fat32LfnEntry where
  order : Byte
  chars : Nat → BitVec 16

def dirEnt (slot : Slot) : Fat32DirEnt where
  name := slot.take 11
  attr := byteAt slot 11
  firstClusterHi := le16 (byteAt slot) 20
  firstClusterLo := le16 (byteAt slot) 26
  fileSize := le32 (byteAt slot) 28

/-- The three loops that fill `chars` (`fat32.c:154-157`). -/
def lfnEntry (slot : Slot) : Fat32LfnEntry where
  order := byteAt slot 0
  chars i :=
    if i < 5 then le16 (byteAt slot) (1 + 2 * i)
    else if i < 11 then le16 (byteAt slot) (14 + 2 * (i - 5))
    else le16 (byteAt slot) (28 + 2 * (i - 11))

namespace Fat32DirEnt

def isDirectory (ent : Fat32DirEnt) : Bool := ent.attr &&& attrDirectory ≠ 0#8

/-- `entry_cluster` (`fat32.c:347-351`). -/
def entryCluster (ent : Fat32DirEnt) : BitVec 32 := ent.firstClusterHi ++ ent.firstClusterLo

/-- `short_name_to_str` (`fat32.c:176-195`). -/
def shortNameToStr (ent : Fat32DirEnt) : Path :=
  let base := ((ent.name.take 8).takeWhile (· ≠ blank)).map lower
  let extension := (((ent.name.drop 8).take 3).takeWhile (· ≠ blank)).map lower
  cString (if ent.name.getD 8 0#8 ≠ blank then base ++ 0x2E#8 :: extension else base)

end Fat32DirEnt

/-- `lfn_buf`, `lfn_len` and `lfn_valid` (`fat32.c:134-136`). -/
structure Lfn where
  buf : Nat → Byte
  len : Nat
  valid : Bool
  len_lt : len < fat32MaxName

namespace Lfn

/-- `lfn_reset` (`fat32.c:138-144`). -/
def reset : Lfn := ⟨fun _ => 0#8, 0, false, by decide⟩

/-- One turn of the loop of `lfn_append` (`fat32.c:160-168`). The loop breaks where this does
nothing: all later positions are larger. -/
def putChar (lfn : Lfn) (pos : Nat) (char : BitVec 16) : Lfn :=
  if inside : fat32MaxName - 1 ≤ pos then lfn
  else if char = 0#16 ∨ char = 0xFFFF#16 then
    { lfn with
      len := max lfn.len pos
      len_lt := by have := lfn.len_lt; simp only [fat32MaxName] at *; omega }
  else
    { lfn with
      buf := Function.update lfn.buf pos (if char < 128#16 then char.setWidth 8 else 0x3F#8)
      len := max lfn.len (pos + 1)
      len_lt := by have := lfn.len_lt; simp only [fat32MaxName] at *; omega }

/-- The first `n` turns of the loop. -/
def putChars (lfn : Lfn) (base : Nat) (chars : Nat → BitVec 16) : Nat → Lfn
  | 0 => lfn
  | n + 1 => (lfn.putChars base chars n).putChar (base + n) (chars n)

/-- `lfn_append` (`fat32.c:146-172`). -/
def append (lfn : Lfn) (entry : Fat32LfnEntry) : Lfn :=
  let order := (entry.order &&& 0x3F#8).toNat
  if order = 0 ∨ (order - 1) * 13 + 13 > fat32MaxName then lfn
  else { lfn.putChars ((order - 1) * 13) entry.chars 13 with valid := true }

/-- The name of a callback (`fat32.c:248-254`). -/
def callName (lfn : Lfn) (ent : Fat32DirEnt) : Path :=
  if lfn.valid then cString (window lfn.buf 0 lfn.len) else ent.shortNameToStr

end Lfn

abbrev Sector := Nat → Byte

/-- The mount state (`fat32.c:88-97`). `disk` is `read_sector`; `buffer` says whether `kmalloc`
returns a cluster buffer. -/
structure Mount where
  disk : BitVec 32 → Option Sector
  buffer : Bool
  sectorsPerCluster : Byte
  fatStartLba : BitVec 32
  dataStartLba : BitVec 32
  rootCluster : BitVec 32

/-- `fat32_init` (`fat32.c:355-412`): the volume mounted afterwards, and whether the call returns
0. -/
def fat32Init (present : Bool) (disk : BitVec 32 → Option Sector) (buffer : Bool)
    (mounted : Option Mount) : Option Mount × Bool :=
  if !present then (mounted, false)
  else match disk 0#32 with
    | none => (mounted, false)
    | some boot =>
      let sectorsPerCluster := boot 13
      let reserved := (le16 boot 14).setWidth 32
      if le16 boot 11 ≠ 512#16 then (mounted, false)
      else if le32 boot 36 = 0#32 then (mounted, false)
      else if sectorsPerCluster = 0#8 ∨ sectorsPerCluster &&& (sectorsPerCluster - 1#8) ≠ 0#8 ∨
          128#8 < sectorsPerCluster then (mounted, false)
      else (some
        { disk, buffer, sectorsPerCluster
          fatStartLba := reserved
          dataStartLba := reserved + (boot 16).setWidth 32 * le32 boot 36
          rootCluster := le32 boot 44 }, true)

namespace Mount

/-- `next_cluster` (`fat32.c:111-124`). -/
def nextCluster (m : Mount) (cluster : BitVec 32) : BitVec 32 :=
  let fatOffset := cluster * 4#32
  match m.disk (m.fatStartLba + fatOffset / 512#32) with
  | none => fat32Eoc
  | some sector => le32 sector (fatOffset % 512#32).toNat &&& 0x0FFFFFFF#32

/-- `cluster_to_lba` (`fat32.c:126-130`). -/
def clusterToLba (m : Mount) (cluster : BitVec 32) : BitVec 32 :=
  m.dataStartLba + (cluster - 2#32) * m.sectorsPerCluster.setWidth 32

/-- The loop that reads the sectors of a cluster (`fat32.c:218-223`, `495-500`). -/
def readSectors (m : Mount) (lba : BitVec 32) : Nat → Option (List Sector)
  | 0 => some []
  | n + 1 =>
    match m.disk lba with
    | none => none
    | some sector => (m.readSectors (lba + 1#32) n).map (sector :: ·)

def readCluster (m : Mount) (cluster : BitVec 32) : Option (List Sector) :=
  m.readSectors (m.clusterToLba cluster) m.sectorsPerCluster.toNat

/-- `max_clusters` (`fat32.c:209-211`, `487-489`). -/
def maxClusters (m : Mount) : Nat :=
  if 0#8 < m.sectorsPerCluster ∧ 0#32 < m.dataStartLba then
    (0xFFFFFFFF - m.dataStartLba.toNat) / m.sectorsPerCluster.toNat
  else 0

/-- The condition of the loops over clusters (`fat32.c:214`, `492`). -/
def inChain (cluster : BitVec 32) : Bool := 2#32 ≤ cluster ∧ cluster < fat32Eoc

end Mount

/-- The slots of a sector. -/
def sectorSlots (sector : Sector) : List Slot :=
  (List.range 16).map fun i => window sector (i * 32) 32

/-- The loop over the slots of a cluster (`fat32.c:228-258`): the callbacks, and the LFN state
afterwards, or `none` at the end of the directory. -/
def scan : Lfn → List Slot → List (Fat32DirEnt × Path) × Option Lfn
  | lfn, [] => ([], some lfn)
  | lfn, slot :: slots =>
    let ent := dirEnt slot
    if byteAt slot 0 = 0#8 then ([], none)
    else if byteAt slot 0 = 0xE5#8 then scan lfn slots
    else if ent.attr = attrLfn then scan (lfn.append (lfnEntry slot)) slots
    else if ent.attr &&& attrVolumeId ≠ 0#8 then scan Lfn.reset slots
    else
      let (calls, after) := scan Lfn.reset slots
      ((ent, lfn.callName ent) :: calls, after)

namespace Mount

/-- The loop over the clusters of a directory (`fat32.c:214-261`): the callbacks, and whether the
call returns 0. -/
def iterateFrom (m : Mount) : Nat → BitVec 32 → Lfn → List (Fat32DirEnt × Path) × Bool
  | 0, cluster, _ => ([], !inChain cluster)
  | steps + 1, cluster, lfn =>
    if !inChain cluster then ([], true)
    else match m.readCluster cluster with
      | none => ([], false)
      | some sectors =>
        match scan lfn (sectors.flatMap sectorSlots) with
        | (calls, none) => (calls, true)
        | (calls, some lfn') =>
          let (later, ok) := m.iterateFrom steps (m.nextCluster cluster) lfn'
          (calls ++ later, ok)

/-- `iterate_dir` (`fat32.c:201-265`). -/
def iterateDir (m : Mount) (cluster : BitVec 32) : List (Fat32DirEnt × Path) × Bool :=
  if m.buffer then m.iterateFrom m.maxClusters cluster Lfn.reset else ([], false)

end Mount

/-- `strcasecmp_simple` (`fat32.c:275-285`). -/
def strcasecmpSimple : Path → Path → Int
  | a :: as, b :: bs =>
    if lower a ≠ lower b then (lower a).toInt - (lower b).toInt else strcasecmpSimple as bs
  | as, bs => (as.headD 0#8).toNat - (bs.headD 0#8).toNat

/-- `find_cb` (`fat32.c:287-295`). -/
def findCb (target : Path) (found : Option Fat32DirEnt) (call : Fat32DirEnt × Path) :
    Option Fat32DirEnt :=
  if strcasecmpSimple call.2 target = 0 then some call.1 else found

/-- The search of one directory for one component (`fat32.c:325-333`). -/
def Mount.find (m : Mount) (cluster : BitVec 32) (component : Path) : Option Fat32DirEnt :=
  match m.iterateDir cluster with
  | (_, false) => none
  | (calls, true) => calls.foldl (findCb component) none

/-- The components that the loop of `resolve_path` extracts (`fat32.c:315-322`), with `component`
read so far. A component ends at a slash, after 255 characters and at the end of the path, and may
be empty. -/
def componentsFrom (component : Path) : Path → List Path
  | [] => if component = [] then [] else [component]
  | c :: path =>
    if c = slash then component :: componentsFrom [] path
    else if component.length < fat32MaxName - 1 then componentsFrom (component ++ [c]) path
    else component :: componentsFrom [c] path

/-- Skip a leading slash (`fat32.c:311`). -/
def skipSlash : Path → Path
  | [] => []
  | c :: path => if c = slash then path else c :: path

/-- The test for the root (`fat32.c:301`, `526`). -/
def isRoot (path : Path) : Bool := path = [] ∨ path = [slash]

namespace Mount

/-- The entry made up for the root (`fat32.c:303-306`). -/
def rootEntry (m : Mount) : Fat32DirEnt where
  name := List.replicate 11 0#8
  attr := attrDirectory
  firstClusterHi := (m.rootCluster >>> 16).setWidth 16
  firstClusterLo := m.rootCluster.setWidth 16
  fileSize := 0#32

/-- The loop of `resolve_path` (`fat32.c:315-342`); `out` is the entry found so far. -/
def resolveFrom (m : Mount) : BitVec 32 → Fat32DirEnt → List Path → Option Fat32DirEnt
  | _, out, [] => some out
  | current, _, component :: rest =>
    match m.find current component with
    | none => none
    | some ent =>
      if rest ≠ [] ∧ !ent.isDirectory then none else m.resolveFrom ent.entryCluster ent rest

/-- `resolve_path` (`fat32.c:298-345`). -/
def resolvePath (m : Mount) (path : Path) : Option Fat32DirEnt :=
  if isRoot path then some m.rootEntry
  else m.resolveFrom m.rootCluster m.rootEntry (componentsFrom [] (skipSlash path))

end Mount

inductive Fat32Type where
  | file
  | dir
  deriving DecidableEq, Repr

/-- `Fat32DirEntry` (`fat32.h:18-23`). -/
structure Fat32DirEntry where
  name : Path
  type : Fat32Type
  size : BitVec 32
  cluster : BitVec 32
  deriving DecidableEq, Repr

def Fat32DirEnt.type (ent : Fat32DirEnt) : Fat32Type := if ent.isDirectory then .dir else .file

/-- `readdir_adapter` (`fat32.c:425-443`). -/
def readdirAdapter (ent : Fat32DirEnt) (name : Path) : Fat32DirEntry where
  name := name.take (fat32MaxName - 1)
  type := ent.type
  size := ent.fileSize
  cluster := ent.entryCluster

/-- The cluster at which `fat32_readdir` starts (`fat32.c:458-459`). -/
def Mount.readdirCluster (m : Mount) (dir : Fat32DirEnt) : BitVec 32 :=
  if dir.entryCluster = 0#32 then m.rootCluster else dir.entryCluster

/-- `fat32_readdir` (`fat32.c:445-463`): the callbacks, and whether the call returns 0. -/
def fat32Readdir (mounted : Option Mount) (path : Path) : List Fat32DirEntry × Bool :=
  match mounted with
  | none => ([], false)
  | some m =>
    match m.resolvePath path with
    | none => ([], false)
    | some dir =>
      if !dir.isDirectory then ([], false)
      else
        let (calls, ok) := m.iterateDir (m.readdirCluster dir)
        (calls.map fun call => readdirAdapter call.1 call.2, ok)

/-- The loop of `fat32_read_file` (`fat32.c:492-508`): the bytes copied, and whether the loop runs
to its end. -/
def Mount.readFrom (m : Mount) : Nat → BitVec 32 → Nat → List Byte × Bool
  | 0, cluster, remaining => ([], remaining = 0 ∨ !inChain cluster)
  | steps + 1, cluster, remaining =>
    if remaining = 0 ∨ !inChain cluster then ([], true)
    else match m.readCluster cluster with
      | none => ([], false)
      | some sectors =>
        let copy := (sectors.flatMap fun sector => window sector 0 512).take remaining
        let (later, ok) := m.readFrom steps (m.nextCluster cluster) (remaining - copy.length)
        (copy ++ later, ok)

/-- `fat32_read_file` (`fat32.c:465-512`): the result, and the bytes written to the buffer. -/
def fat32ReadFile (mounted : Option Mount) (path : Path) (bufSize : BitVec 32) : Int × List Byte :=
  match mounted with
  | none => (-1, [])
  | some m =>
    match m.resolvePath path with
    | none => (-1, [])
    | some ent =>
      if ent.isDirectory || !m.buffer then (-1, [])
      else
        let size := if bufSize < ent.fileSize then bufSize else ent.fileSize
        let (copied, ok) := m.readFrom m.maxClusters ent.entryCluster size.toNat
        (if ok then size.toInt else -1, copied)

/-- `fat32_stat` (`fat32.c:514-532`). -/
def fat32Stat (mounted : Option Mount) (path : Path) : Option Fat32DirEntry :=
  match mounted with
  | none => none
  | some m =>
    match m.resolvePath path with
    | none => none
    | some ent => some
      { name := if isRoot path then [slash] else ent.shortNameToStr
        type := ent.type
        size := ent.fileSize
        cluster := ent.entryCluster }

end MicroOs.Fs.Fat32
