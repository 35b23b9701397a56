import MicroOs.Drivers.Ata
import MicroOs.Fs.Fat32

/-!
# Sector addresses

The reader computes addresses in 32 bits, and the driver sends the low 28 bits of them to the drive.
Here they are compared with the addresses over the natural numbers.
-/

namespace MicroOs.Fs.Fat32
open Lib Drivers.Ata List
open BitVec (ofNat toNat_setWidth_of_le toNat_add toNat_mul toNat_ofNat)

variable {boot : Sector} {c : BitVec 32} {m : Mount} {s : Nat}

/-- `read_sector` (`fat32.c:103-107`). -/
def readSector (drivePresent : Nat → Bool) (device : Command → Nat → Option Sector) (drive : Int)
    (lba : BitVec 32) : Option Sector :=
  (ataReadSectors drivePresent device drive lba 1#8).bind head?

def dataStart (boot : Sector) : Nat :=
  (le16 boot 14).toNat + (boot 16).toNat * (le32 boot 36).toNat

def dataSector (boot : Sector) (cluster s : Nat) : Nat :=
  dataStart boot + (cluster - 2) * (boot 13).toNat + s

/-- The sector of the first FAT with the entry of a cluster. -/
def fatSector (boot : Sector) (cluster : Nat) : Nat := (le16 boot 14).toNat + 4 * cluster / 512

/-- The mount state that `fat32_init` takes from a boot sector. -/
structure LaidOut (boot : Sector) (m : Mount) : Prop where
  sized : boot 13 ≠ 0#8
  size : m.sectorsPerCluster = boot 13
  fatStart : m.fatStartLba = (le16 boot 14).setWidth 32
  start : m.dataStartLba = (le16 boot 14).setWidth 32 + (boot 16).setWidth 32 * le32 boot 36

lemma fat32Init_accepts {present buffer : Bool} {disk : BitVec 32 → Option Sector}
    {mounted : Option Mount} (booted : disk 0#32 = some boot)
    (accepted : fat32Init present disk buffer mounted = (some m, true)) :
    present = true ∧ m.disk = disk ∧ LaidOut boot m := by
  simp only [fat32Init, booted] at accepted
  split at accepted
  · simp at accepted
  · split at accepted
    · simp at accepted
    · split at accepted
      · simp at accepted
      · split at accepted
        · simp at accepted
        · rename_i here _ _ sized
          simp only [Prod.mk.injEq, Option.some.injEq, and_true] at accepted
          subst accepted
          exact ⟨by simpa using here, rfl, fun zero => sized (.inl zero), rfl, rfl, rfl⟩

namespace Mount

/-- The sector that `next_cluster` reads (`fat32.c:114-115`). -/
def fatLba (m : Mount) (cluster : BitVec 32) : BitVec 32 :=
  m.fatStartLba + cluster * 4#32 / 512#32

def clusterCommands (m : Mount) (drive : Int) (cluster : BitVec 32) : List Command :=
  (range m.sectorsPerCluster.toNat).map fun s =>
    readCommand drive (m.clusterToLba cluster + ofNat 32 s) 1#8

end Mount

section

variable {drivePresent : Nat → Bool} {device : Command → Nat → Option Sector} {drive : Int}

lemma readSector_present (present : ataDrivePresent drivePresent drive = true) (lba : BitVec 32) :
    readSector drivePresent device drive lba = device (readCommand drive lba 1#8) 0 := by
  have here : ¬(drive < 0 ∨ 1 < drive ∨ drivePresent drive.toNat = false) := by
    unfold ataDrivePresent at present
    split at present
    · simp at present
    · rename_i range
      simp only [not_or] at range
      simp [range, present]
  rw [readSector, ataReadSectors, if_neg here]
  show (mapM (device (readCommand drive lba 1#8)) [0]).bind head? = _
  rcases answer : device (readCommand drive lba 1#8) 0 with _ | sector <;> simp [answer]

lemma next_lba_add (lba : BitVec 32) (s : Nat) :
    lba + 1#32 + ofNat 32 s = lba + ofNat 32 (s + 1) := by
  rw [BitVec.add_assoc, BitVec.add_comm 1#32, BitVec.ofNat_add]

lemma readSectors_eq_mapM (lba : BitVec 32) (n : Nat) :
    m.readSectors lba n = (range n).mapM fun s => m.disk (lba + ofNat 32 s) := by
  induction n generalizing lba with
  | zero => rfl
  | succ n ih =>
    rw [Mount.readSectors, ih, range_succ_eq_map, mapM_cons, mapM_map]
    simp only [Function.comp_def, next_lba_add, BitVec.add_zero]
    rcases m.disk lba with _ | sector
    · rfl
    · exact Option.map_eq_bind

lemma readCluster_present (present : ataDrivePresent drivePresent drive = true)
    (attached : m.disk = readSector drivePresent device drive) (cluster : BitVec 32) :
    m.readCluster cluster = (m.clusterCommands drive cluster).mapM (device · 0) := by
  rw [Mount.readCluster, readSectors_eq_mapM, Mount.clusterCommands, mapM_map, attached]
  simp only [readSector_present present]
  rfl

end

/-- Following a cluster reads the sectors that the layout gives it, and for the link the sector of
its FAT entry; the former are not the boot sector, in a FAT or in another cluster. -/
structure ReadsOwnSectors (boot : Sector) (m : Mount) (drive : Int) (cluster : BitVec 32) :
    Prop where
  data : (m.clusterCommands drive cluster).map (·.lba.toNat) =
    (range m.sectorsPerCluster.toNat).map (dataSector boot cluster.toNat)
  fat : (readCommand drive (m.fatLba cluster) 1#8).lba.toNat = fatSector boot cluster.toNat
  notBoot : ∀ command ∈ m.clusterCommands drive cluster, command.lba.toNat ≠ 0
  notFat : ∀ command ∈ m.clusterCommands drive cluster,
    ¬((le16 boot 14).toNat ≤ command.lba.toNat ∧ command.lba.toNat < dataStart boot)
  notOther : ∀ command ∈ m.clusterCommands drive cluster, ∀ other s, 2 ≤ other →
    other ≠ cluster.toNat → s < m.sectorsPerCluster.toNat →
    command.lba.toNat ≠ dataSector boot other s

lemma toNat_lba_readCommand (drive : Int) (lba : BitVec 32) (count : BitVec 8) :
    (readCommand drive lba count).lba.toNat = lba.toNat % 2 ^ 28 := by
  rw [lba_readCommand, BitVec.toNat_setWidth]

lemma dataSector_ne {c c' s' : Nat} (first : 2 ≤ c) (first' : 2 ≤ c') (ne : c' ≠ c)
    (inside : s < (boot 13).toNat) (inside' : s' < (boot 13).toNat) :
    dataSector boot c s ≠ dataSector boot c' s' := by
  intro same
  have apart (a b t t' : Nat) (less : a < b) (small : t < (boot 13).toNat) :
      a * (boot 13).toNat + t < b * (boot 13).toNat + t' := by
    calc a * (boot 13).toNat + t < (a + 1) * (boot 13).toNat := by rw [Nat.add_one_mul]; omega
      _ ≤ b * (boot 13).toNat := Nat.mul_le_mul_right _ less
      _ ≤ _ := Nat.le_add_right _ _
  unfold dataSector at same
  rcases Nat.lt_or_gt_of_ne ne with less | less
  · have := apart (c' - 2) (c - 2) s' s (by omega) inside'
    omega
  · have := apart (c - 2) (c' - 2) s s' (by omega) inside
    omega

namespace LaidOut

variable {boot : Sector} {m : Mount}

section
variable (laid : LaidOut boot m)
include laid

lemma toNat_dataStartLba : m.dataStartLba.toNat = dataStart boot % 2 ^ 32 := by
  have reserved : ((le16 boot 14).setWidth 32).toNat = (le16 boot 14).toNat :=
    toNat_setWidth_of_le (by decide)
  have fats : ((boot 16).setWidth 32).toNat = (boot 16).toNat := toNat_setWidth_of_le (by decide)
  rw [laid.start, toNat_add, toNat_mul, reserved, fats, Nat.add_mod_mod, dataStart]

/-- The walks refuse to read a cluster if the data area starts at 0 or leaves no room for one. -/
lemma maxClusters_eq_zero :
    m.maxClusters = 0 ↔ dataStart boot % 2 ^ 32 = 0 ∨
      2 ^ 32 ≤ dataStart boot % 2 ^ 32 + (boot 13).toNat := by
  have positive : 0 < (boot 13).toNat := Nat.pos_of_ne_zero fun zero =>
    laid.sized (BitVec.eq_of_toNat_eq zero)
  have bounded := m.dataStartLba.isLt
  rw [← laid.toNat_dataStartLba]
  simp only [Mount.maxClusters, BitVec.lt_def, laid.size, toNat_ofNat, Nat.zero_mod, positive,
    true_and]
  split
  · rw [Nat.div_eq_zero_iff]
    omega
  · omega

lemma toNat_clusterToLba (two : 2 ≤ c.toNat) (inside : s < (boot 13).toNat)
    (fits : dataSector boot c.toNat ((boot 13).toNat - 1) < 2 ^ 28) :
    (m.clusterToLba c + ofNat 32 s).toNat = dataSector boot c.toNat s := by
  have less : (c - 2#32).toNat = c.toNat - 2 := BitVec.toNat_sub_of_le two
  have width : ((boot 13).setWidth 32).toNat = (boot 13).toNat := toNat_setWidth_of_le (by decide)
  unfold dataSector at *
  generalize product : (c.toNat - 2) * (boot 13).toNat = p at *
  rw [toNat_add, toNat_ofNat, Mount.clusterToLba, toNat_add, toNat_mul,
    laid.toNat_dataStartLba, laid.size, less, width, product]
  omega

lemma toNat_fatLba (below : c.toNat < 0x0FFFFFF8) :
    (m.fatLba c).toNat = fatSector boot c.toNat ∧ fatSector boot c.toNat < 2 ^ 28 := by
  have reserved := (le16 boot 14).isLt
  have width : ((le16 boot 14).setWidth 32).toNat = (le16 boot 14).toNat :=
    toNat_setWidth_of_le (by decide)
  have offset : (c * 4#32).toNat = 4 * c.toNat := by
    rw [toNat_mul, toNat_ofNat]
    omega
  have index : (c * 4#32 / 512#32).toNat = 4 * c.toNat / 512 := by
    rw [BitVec.toNat_udiv, offset]
    rfl
  rw [Mount.fatLba, laid.fatStart, toNat_add, width, index, fatSector]
  omega

end

end LaidOut

lemma Mount.bounds_of_inChain (chain : Mount.inChain c = true) :
    2 ≤ c.toNat ∧ c.toNat < 0x0FFFFFF8 := by
  have bounds : 2#32 ≤ c ∧ c < fat32Eoc := by simpa [Mount.inChain] using chain
  exact bounds

lemma readsOwnSectors {drive : Int} (laid : LaidOut boot m) (chain : Mount.inChain c = true)
    (walks : m.maxClusters ≠ 0) (fits : dataSector boot c.toNat ((boot 13).toNat - 1) < 2 ^ 28) :
    ReadsOwnSectors boot m drive c := by
  have ⟨two, below⟩ := Mount.bounds_of_inChain chain
  have count : m.sectorsPerCluster.toNat = (boot 13).toNat := by rw [laid.size]
  have sector {s : Nat} (inside : s < (boot 13).toNat) :
      (readCommand drive (m.clusterToLba c + ofNat 32 s) 1#8).lba.toNat =
        dataSector boot c.toNat s := by
    rw [toNat_lba_readCommand, laid.toNat_clusterToLba two inside fits, Nat.mod_eq_of_lt]
    unfold dataSector at *
    omega
  have each : ∀ command ∈ m.clusterCommands drive c, ∃ s < (boot 13).toNat,
      command.lba.toNat = dataSector boot c.toNat s := by
    intro command member
    obtain ⟨s, inside, rfl⟩ := mem_map.mp member
    have inside : s < (boot 13).toNat := count ▸ mem_range.mp inside
    exact ⟨s, inside, sector inside⟩
  have started : 0 < dataStart boot := by
    have := mt laid.maxClusters_eq_zero.mpr walks
    omega
  constructor
  case data =>
    rw [Mount.clusterCommands, map_map]
    exact map_congr_left fun s member => sector (count ▸ mem_range.mp member)
  case fat =>
    have ⟨exact, small⟩ := laid.toNat_fatLba below
    rw [toNat_lba_readCommand, exact, Nat.mod_eq_of_lt small]
  case notBoot =>
    intro command member
    obtain ⟨s, -, address⟩ := each command member
    unfold dataSector at address
    omega
  case notFat =>
    intro command member
    obtain ⟨s, -, address⟩ := each command member
    unfold dataSector at address
    omega
  case notOther =>
    intro command member other s' first ne inside'
    obtain ⟨s, inside, address⟩ := each command member
    rw [address]
    exact dataSector_ne two first ne inside (count ▸ inside')

/-- The sectors addressed for a cluster are its own exactly if the walk does not read it at all or
the last of them has a number of 28 bits. -/
theorem cluster_reads_own_sectors_iff {drivePresent : Nat → Bool}
    {device : Command → Nat → Option Sector} {drive : Int} {buffer : Bool}
    {mounted : Option Mount} {boot : Sector} {m : Mount} {c : BitVec 32}
    (booted : readSector drivePresent device drive 0#32 = some boot)
    (accepted : fat32Init (ataDrivePresent drivePresent drive)
      (readSector drivePresent device drive) buffer mounted = (some m, true))
    (chain : Mount.inChain c = true) :
    m.readCluster c = (m.clusterCommands drive c).mapM (device · 0) ∧
    m.disk (m.fatLba c) = device (readCommand drive (m.fatLba c) 1#8) 0 ∧
    ((m.maxClusters ≠ 0 → ReadsOwnSectors boot m drive c) ↔
      (dataStart boot % 2 ^ 32 = 0 ∨ 2 ^ 32 ≤ dataStart boot % 2 ^ 32 + (boot 13).toNat) ∨
      dataSector boot c.toNat ((boot 13).toNat - 1) < 2 ^ 28) := by
  obtain ⟨present, attached, laid⟩ := fat32Init_accepts booted accepted
  refine ⟨readCluster_present present attached c, ?_, ?_⟩
  · rw [attached, readSector_present present]
  rw [← laid.maxClusters_eq_zero]
  constructor
  · intro own
    by_cases refused : m.maxClusters = 0
    · exact .inl refused
    · right
      have positive : (boot 13).toNat ≠ 0 := fun zero => laid.sized (BitVec.eq_of_toNat_eq zero)
      -- the address of the last sector has 28 bits in any case
      have last : dataSector boot c.toNat ((boot 13).toNat - 1) ∈
          (m.clusterCommands drive c).map (·.lba.toNat) := by
        rw [(own refused).data, laid.size]
        exact mem_map_of_mem (mem_range.mpr (by omega))
      obtain ⟨command, -, address⟩ := mem_map.mp last
      exact address ▸ command.lba.isLt
  · rintro (refused | fits) walks
    · exact absurd refused walks
    · exact readsOwnSectors laid chain walks fits

/-- The boot sector of a volume of more than 2^28 sectors: 64 sectors in a cluster, 64 reserved
sectors, two FATs of 65536 sectors and root cluster 2. -/
def largeBoot : Sector :=
  let boot := put16 (fun _ => 0#8) 11 512#16
  let boot := put16 (Function.update boot 13 64#8) 14 64#16
  put32 (put32 (Function.update boot 16 2#8) 36 65536#32) 44 2#32

def largeDrive (command : Command) (_ : Nat) : Option Sector :=
  some (if command.lba = 0#28 then largeBoot else fun _ => 0#8)

def largeVolume : Mount where
  disk := readSector (fun _ => true) largeDrive 1
  buffer := true
  sectorsPerCluster := 64#8
  fatStartLba := 64#32
  dataStartLba := 131136#32
  rootCluster := 2#32

lemma largeVolume_accepted :
    readSector (fun _ => true) largeDrive 1 0#32 = some largeBoot ∧
    fat32Init (ataDrivePresent (fun _ => true) 1) (readSector (fun _ => true) largeDrive 1) true
      none = (some largeVolume, true) := by
  have booted : readSector (fun _ => true) largeDrive 1 0#32 = some largeBoot := by
    rw [readSector_present rfl]
    rfl
  exact ⟨booted, by simp only [fat32Init, booted]; rfl⟩

theorem cluster_reads_own_sectors_root : ReadsOwnSectors largeBoot largeVolume 1 2#32 :=
  (cluster_reads_own_sectors_iff largeVolume_accepted.1 largeVolume_accepted.2
    (c := 2#32) (by decide)).2.2.mpr (.inr (by decide)) (by decide)

theorem data_cluster_reads_boot_sector :
    fat32Init (ataDrivePresent (fun _ => true) 1) (readSector (fun _ => true) largeDrive 1) true
      none = (some largeVolume, true) ∧
    Mount.inChain 4192257#32 = true ∧ largeVolume.maxClusters ≠ 0 ∧
    ((largeVolume.clusterCommands 1 4192257#32).map (·.lba)).head? = some 0#28 ∧
    ¬ReadsOwnSectors largeBoot largeVolume 1 4192257#32 := by
  refine ⟨largeVolume_accepted.2, by decide, by decide, by decide, fun own => ?_⟩
  have first : readCommand 1 (largeVolume.clusterToLba 4192257#32 + 0#32) 1#8 ∈
      largeVolume.clusterCommands 1 4192257#32 := by decide
  exact own.notBoot _ first (by decide)

end MicroOs.Fs.Fat32
