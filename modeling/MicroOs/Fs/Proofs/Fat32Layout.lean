import MicroOs.Fs.MkFat32
import MicroOs.Fs.Proofs.Fat32Walk

/-!
# Directories on different volumes

A directory is a sequence of bytes, cut into clusters in a different way on each volume. What
`iterate_dir` reports depends on the bytes only: the slots of all clusters in a row are the slots of
the bytes, wherever a cluster ends.
-/

namespace MicroOs.Fs.Fat32
open List
open Lib

variable {bytes : List Byte} {clusters : List (BitVec 32)} {first : BitVec 32}

def slotsOf (content : List Byte) : List Slot :=
  (range (content.length / 32)).map fun i => (content.drop (32 * i)).take 32

lemma slotsOf_append {x : List Byte} (whole : x.length % 32 = 0) (y : List Byte) :
    slotsOf (x ++ y) = slotsOf x ++ slotsOf y := by
  have count : (x ++ y).length / 32 = x.length / 32 + y.length / 32 := by
    rw [length_append]
    omega
  have size : 32 * (x.length / 32) = x.length := by omega
  rw [slotsOf, count, range_add, map_append, map_map]
  congr 1
  · apply map_congr_left
    intro i member
    have inside : 32 * i + 32 ≤ x.length := by
      have := mem_range.mp member
      omega
    rw [drop_append_of_le_length (by omega), take_append_of_le_length (by rw [length_drop]; omega)]
  · apply map_congr_left
    intro i _
    show ((x ++ y).drop (32 * (x.length / 32 + i))).take 32 = _
    rw [Nat.mul_add, size, ← drop_drop, drop_left]

lemma slotsOf_sector (sector : Sector) : slotsOf (window sector 0 512) = sectorSlots sector := by
  rw [slotsOf, sectorSlots, length_window]
  apply map_congr_left
  intro i member
  have inside := mem_range.mp member
  rw [take_drop_window, Nat.zero_add, Nat.mul_comm, Nat.min_eq_left (by omega)]

lemma slotsOf_sectors (sectors : List Sector) :
    slotsOf (sectors.flatMap fun sector => window sector 0 512) = sectors.flatMap sectorSlots := by
  induction sectors with
  | nil => rfl
  | cons sector sectors ih =>
    rw [flatMap_cons, flatMap_cons, slotsOf_append (by simp), slotsOf_sector, ih]

lemma isEnd_of_zeros {n : Nat} {slot : Slot} (member : slot ∈ slotsOf (replicate n 0#8)) :
    isEnd slot = true := by
  obtain ⟨i, -, rfl⟩ := mem_map.mp member
  simp [isEnd, byteAt]

lemma scan_ends {lfn : Lfn} {slots : List Slot} (ends : ∀ slot ∈ slots, isEnd slot = true) :
    (scan lfn slots).1 = [] := by
  cases slots with
  | nil => rfl
  | cons slot slots =>
    have first : byteAt slot 0 = 0#8 := by simpa [isEnd] using ends slot mem_cons_self
    rw [scan, if_pos first]

lemma scan_padded (lfn : Lfn) (slots : List Slot) {padding : List Slot}
    (ends : ∀ slot ∈ padding, isEnd slot = true) :
    (scan lfn (slots ++ padding)).1 = (scan lfn slots).1 := by
  rw [scan_append]
  rcases scan lfn slots with ⟨calls, _ | lfn'⟩
  · rfl
  · show calls ++ (scan lfn' padding).1 = calls
    rw [scan_ends ends, append_nil]

lemma scan_takeWhile (lfn : Lfn) (slots : List Slot) :
    (scan lfn (slots.takeWhile (!isEnd ·))).1 = (scan lfn slots).1 := by
  induction slots generalizing lfn with
  | nil => rfl
  | cons slot slots ih =>
    by_cases ends : byteAt slot 0 = 0#8
    · rw [takeWhile_cons_of_neg (by simp [isEnd, ends]), scan, scan, if_pos ends]
    · rw [takeWhile_cons_of_pos (by simp [isEnd, ends])]
      simp only [scan, if_neg ends]
      split
      · exact ih _
      · split
        · exact ih _
        · split
          · exact ih _
          · simp only [ih]

namespace Mount

/-- The clusters from `first` on, as the FAT links them, up to the end of the chain. -/
def Links (m : Mount) : BitVec 32 → List (BitVec 32) → Prop
  | first, [] => inChain first = false
  | first, cluster :: clusters =>
    first = cluster ∧ inChain first = true ∧ m.Links (m.nextCluster first) clusters

/-- The bytes of these clusters; `none` if one of their sectors cannot be read. -/
def chainBytes (m : Mount) : List (BitVec 32) → Option (List Byte)
  | [] => some []
  | cluster :: clusters =>
    match m.readCluster cluster, m.chainBytes clusters with
    | some sectors, some rest => some ((sectors.flatMap fun sector => window sector 0 512) ++ rest)
    | _, _ => none

/-- The directory at `first` holds these bytes, padded with zeros to whole clusters, on a chain that
ends within the step limit and can be read, and there is memory for a cluster. -/
structure StoresDir (m : Mount) (first : BitVec 32) (content : List Byte) : Prop where
  buffer : m.buffer = true
  chain : ∃ clusters zeros, m.Links first clusters ∧ clusters.length ≤ m.maxClusters ∧
    m.chainBytes clusters = some (content ++ replicate zeros 0#8)

variable {m : Mount}

lemma chainBytes_cons {cluster : BitVec 32}
    (h : m.chainBytes (cluster :: clusters) = some bytes) :
    ∃ sectors rest, m.readCluster cluster = some sectors ∧ m.chainBytes clusters = some rest ∧
      bytes = (sectors.flatMap fun sector => window sector 0 512) ++ rest := by
  rw [chainBytes] at h
  split at h
  · rename_i sectors rest read more
    exact ⟨sectors, rest, read, more, (Option.some.inj h).symm⟩
  · cases h

lemma Links.slotsFrom {steps : Nat} (links : m.Links first clusters)
    (limit : clusters.length ≤ steps) (stored : m.chainBytes clusters = some bytes) :
    m.slotsFrom steps first = (slotsOf bytes, true) := by
  induction clusters generalizing first bytes steps with
  | nil =>
    obtain rfl := Option.some.inj stored
    have out : inChain first = false := links
    cases steps <;> simp [Mount.slotsFrom, out, slotsOf]
  | cons cluster clusters ih =>
    obtain ⟨rfl, inside, links⟩ := links
    obtain ⟨sectors, rest, read, more, rfl⟩ := chainBytes_cons stored
    cases steps with
    | zero => simp at limit
    | succ steps =>
      have later := ih links (by simpa using limit) more
      simp only [Mount.slotsFrom, inside, read, later, Bool.not_true, Bool.false_eq_true, if_false]
      have sized : (sectors.flatMap fun sector => window sector 0 512).length % 32 = 0 := by
        simp [length_flatMap]
        omega
      rw [slotsOf_append sized, slotsOf_sectors]

lemma StoresDir.iterateDir {content : List Byte} (whole : content.length % 32 = 0)
    (stores : m.StoresDir first content) :
    m.iterateDir first = ((scan Lfn.reset ((slotsOf content).takeWhile (!isEnd ·))).1, true) := by
  obtain ⟨clusters, zeros, links, limit, stored⟩ := stores.chain
  have slots := links.slotsFrom limit stored
  rw [Mount.iterateDir, if_pos stores.buffer, iterateFrom_eq, slots, slotsOf_append whole,
    scan_padded _ _ fun _ => isEnd_of_zeros, scan_takeWhile, Bool.or_true]

end Mount

/-- Two volumes that store the same directory content report the same entries with the same names:
those of the slots before the first end marker. -/
theorem directory_layout_independent {m₁ m₂ : Mount} {first₁ first₂ : BitVec 32}
    {content : List Byte} (whole : content.length % 32 = 0) (h₁ : m₁.StoresDir first₁ content)
    (h₂ : m₂.StoresDir first₂ content) :
    m₁.iterateDir first₁ = m₂.iterateDir first₂ ∧
      m₁.iterateDir first₁ =
        ((scan Lfn.reset ((slotsOf content).takeWhile (!isEnd ·))).1, true) := by
  have one := h₁.iterateDir whole
  exact ⟨one.trans (h₂.iterateDir whole).symm, one⟩

open MkFat32 in
theorem directory_layout_independent_hello :
    (builtVolume (oneFileImage helloName helloAlias) 1#8).iterateDir 2#32 =
      (builtVolume (oneFileImage helloName helloAlias) 2#8).iterateDir 2#32 := by
  let content := (slotsBetween (oneFileImage helloName helloAlias) rootOff 0 2).flatten
  have ends (m : Mount) (unlinked : Mount.inChain (m.nextCluster 2#32) = false) :
      m.Links 2#32 [2#32] := ⟨rfl, by decide, unlinked⟩
  have one : (builtVolume (oneFileImage helloName helloAlias) 1#8).StoresDir 2#32 content :=
    ⟨rfl, [2#32], 448, ends _ (by decide +kernel), by decide, by decide +kernel⟩
  have two : (builtVolume (oneFileImage helloName helloAlias) 2#8).StoresDir 2#32 content :=
    ⟨rfl, [2#32], 960, ends _ (by decide +kernel), by decide, by decide +kernel⟩
  exact (directory_layout_independent (by decide +kernel) one two).1

end MicroOs.Fs.Fat32
