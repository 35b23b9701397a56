import MicroOs.Fs.Fat32

/-!
# The FAT32 reader, read by read

The functions of `kernel/fs/fat32.c` with every sector read and every call of the heap in their
order, each of which may fail at one time and succeed at another. The loops have fuel and give `none`
when it is used up; the step counters are the 32-bit ones of the source.
-/

namespace MicroOs.Fs.Fat32Io
open Lib Fat32

/-- What the reader runs on, and the mount state: the image on the drive, which reads fail (by their
number and sector), and what `kmalloc` returns (by the number of the call). -/
structure Host where
  image : BitVec 32 → Sector
  fails : Nat → BitVec 32 → Bool
  kmalloc : Nat → Option Nat
  mounted : Bool
  sectorsPerCluster : Byte
  fatStartLba : BitVec 32
  dataStartLba : BitVec 32
  rootCluster : BitVec 32

/-- What the calls have done so far. -/
structure Io where
  reads : Nat
  mallocs : Nat
  log : List (AllocEvent Nat)
  deriving DecidableEq, Repr

def Io.kfree (io : Io) (block : Nat) : Io := { io with log := .free block :: io.log }

namespace Host

/-- The volume as it is when all reads succeed. -/
def volume (h : Host) : Mount where
  disk lba := some (h.image lba)
  buffer := true
  sectorsPerCluster := h.sectorsPerCluster
  fatStartLba := h.fatStartLba
  dataStartLba := h.dataStartLba
  rootCluster := h.rootCluster

def allocate (h : Host) (io : Io) : Option Nat × Io :=
  match h.kmalloc io.mallocs with
  | none => (none, { io with mallocs := io.mallocs + 1 })
  | some block => (some block, { io with mallocs := io.mallocs + 1, log := .alloc block :: io.log })

/-- `read_sector` (`fat32.c:103-107`). -/
def readSector (h : Host) (lba : BitVec 32) (io : Io) : Option Sector × Io :=
  (if h.fails io.reads lba then none else some (h.image lba), { io with reads := io.reads + 1 })

/-- `next_cluster` (`fat32.c:111-124`). -/
def nextCluster (h : Host) (cluster : BitVec 32) (io : Io) : BitVec 32 × Io :=
  let fatOffset := cluster * 4#32
  match h.readSector (h.fatStartLba + fatOffset / 512#32) io with
  | (none, io) => (fat32Eoc, io)
  | (some sector, io) => (le32 sector (fatOffset % 512#32).toNat &&& 0x0FFFFFFF#32, io)

/-- The loop that reads the sectors of a cluster (`fat32.c:218-223`, `495-500`). -/
def readSectors (h : Host) (lba : BitVec 32) : Nat → Io → Option (List Sector) × Io
  | 0, io => (some [], io)
  | n + 1, io =>
    match h.readSector lba io with
    | (none, io) => (none, io)
    | (some sector, io) =>
      match h.readSectors (lba + 1#32) n io with
      | (none, io) => (none, io)
      | (some later, io) => (some (sector :: later), io)

def readCluster (h : Host) (cluster : BitVec 32) (io : Io) : Option (List Sector) × Io :=
  h.readSectors (h.volume.clusterToLba cluster) h.sectorsPerCluster.toNat io

section

variable {σ : Type} (h : Host) (cb : σ → Fat32DirEnt × Path → σ)

/-- The loop over the clusters of a directory (`fat32.c:214-264`): the context of the callbacks and
whether the call returns 0. -/
def iterateLoop (block : Nat) :
    Nat → BitVec 32 → BitVec 32 → Lfn → σ → Io → Option ((σ × Bool) × Io)
  | 0, _, _, _, _, _ => none
  | fuel + 1, steps, cluster, lfn, ctx, io =>
    if !Mount.inChain cluster then some ((ctx, true), io.kfree block)
    else
      let steps := steps + 1#32
      if h.volume.maxClusters < steps.toNat then some ((ctx, false), io.kfree block)
      else match h.readCluster cluster io with
        | (none, io) => some ((ctx, false), io.kfree block)
        | (some sectors, io) =>
          match scan lfn (sectors.flatMap sectorSlots) with
          | (calls, none) => some ((calls.foldl cb ctx, true), io.kfree block)
          | (calls, some lfn) =>
            let (cluster, io) := h.nextCluster cluster io
            iterateLoop block fuel steps cluster lfn (calls.foldl cb ctx) io

/-- `iterate_dir` (`fat32.c:201-265`). -/
def iterateDir (fuel : Nat) (cluster : BitVec 32) (ctx : σ) (io : Io) : Option ((σ × Bool) × Io) :=
  match h.allocate io with
  | (none, io) => some ((ctx, false), io)
  | (some block, io) => h.iterateLoop cb block fuel 0#32 cluster Lfn.reset ctx io

end

/-- The component at the start of a path (`fat32.c:317-321`). -/
def component (path : Path) : Path := (path.take (fat32MaxName - 1)).takeWhile (· ≠ slash)

/-- The path after it (`fat32.c:322`). -/
def afterComponent (path : Path) : Path := skipSlash (path.drop (component path).length)

/-- The loop of `resolve_path` (`fat32.c:315-342`). -/
def resolveLoop (h : Host) (fuel : Nat) :
    Nat → Path → BitVec 32 → Fat32DirEnt → Io → Option (Option Fat32DirEnt × Io)
  | 0, _, _, _, _ => none
  | turns + 1, path, current, out, io =>
    if path = [] then some (some out, io)
    else
      (h.iterateDir (findCb (component path)) fuel current none io).bind fun
        | ((_, false), io) => some (none, io)
        | ((none, true), io) => some (none, io)
        | ((some ent, true), io) =>
          if afterComponent path ≠ [] ∧ !ent.isDirectory then some (none, io)
          else h.resolveLoop fuel turns (afterComponent path) ent.entryCluster ent io

/-- `resolve_path` (`fat32.c:298-345`). -/
def resolvePath (h : Host) (fuel : Nat) (path : Path) (io : Io) :
    Option (Option Fat32DirEnt × Io) :=
  if isRoot path then some (some h.volume.rootEntry, io)
  else h.resolveLoop fuel fuel (skipSlash path) h.rootCluster h.volume.rootEntry io

/-- `fat32_readdir` (`fat32.c:445-463`): the context of the caller's callback and whether the call
returns 0. -/
def fat32Readdir {σ : Type} (h : Host) (fuel : Nat) (path : Path) (cb : σ → Fat32DirEntry → σ)
    (ctx : σ) (io : Io) : Option ((σ × Bool) × Io) :=
  if !h.mounted then some ((ctx, false), io)
  else
    (h.resolvePath fuel path io).bind fun
      | (none, io) => some ((ctx, false), io)
      | (some dir, io) =>
        if !dir.isDirectory then some ((ctx, false), io)
        else
          h.iterateDir (fun ctx call => cb ctx (readdirAdapter call.1 call.2)) fuel
            (h.volume.readdirCluster dir) ctx io

/-- The loop of `fat32_read_file` (`fat32.c:492-510`): the bytes copied, and whether it runs to its
end. -/
def readLoop (h : Host) (block : Nat) :
    Nat → BitVec 32 → BitVec 32 → Nat → Io → Option ((List Byte × Bool) × Io)
  | 0, _, _, _, _ => none
  | fuel + 1, steps, cluster, remaining, io =>
    if remaining = 0 ∨ !Mount.inChain cluster then some (([], true), io.kfree block)
    else
      let steps := steps + 1#32
      if h.volume.maxClusters < steps.toNat then some (([], false), io.kfree block)
      else match h.readCluster cluster io with
        | (none, io) => some (([], false), io.kfree block)
        | (some sectors, io) =>
          let copy := (sectors.flatMap fun sector => window sector 0 512).take remaining
          let (cluster, io) := h.nextCluster cluster io
          (h.readLoop block fuel steps cluster (remaining - copy.length) io).map
            fun ((later, ok), io) => ((copy ++ later, ok), io)

/-- `fat32_read_file` (`fat32.c:465-512`): the result, and the bytes written to the buffer. -/
def fat32ReadFile (h : Host) (fuel : Nat) (path : Path) (bufSize : BitVec 32) (io : Io) :
    Option ((Int × List Byte) × Io) :=
  if !h.mounted then some ((-1, []), io)
  else
    (h.resolvePath fuel path io).bind fun
      | (none, io) => some ((-1, []), io)
      | (some ent, io) =>
        if ent.isDirectory then some ((-1, []), io)
        else
          let size := if bufSize < ent.fileSize then bufSize else ent.fileSize
          match h.allocate io with
          | (none, io) => some ((-1, []), io)
          | (some block, io) =>
            (h.readLoop block fuel 0#32 ent.entryCluster size.toNat io).map
              fun ((copied, ok), io) => ((if ok then size.toInt else -1, copied), io)

/-- `fat32_stat` (`fat32.c:514-532`). -/
def fat32Stat (h : Host) (fuel : Nat) (path : Path) (io : Io) :
    Option (Option Fat32DirEntry × Io) :=
  if !h.mounted then some (none, io)
  else
    (h.resolvePath fuel path io).map fun
      | (none, io) => (none, io)
      | (some ent, io) =>
        (some
          { name := if isRoot path then [slash] else ent.shortNameToStr
            type := ent.type
            size := ent.fileSize
            cluster := ent.entryCluster }, io)

end Host

end MicroOs.Fs.Fat32Io
