import MicroOs.Fs.Fat32

/-!
# Walks over directories

What `iterate_dir` reports is what one scan of all slots on the chain of the directory reports: the
state of the name assembly is carried over from one cluster to the next.
-/

namespace MicroOs.Fs.Fat32
open Lib

lemma scan_append (lfn : Lfn) (slots later : List Slot) :
    scan lfn (slots ++ later) =
      match scan lfn slots with
      | (calls, none) => (calls, none)
      | (calls, some lfn') => (calls ++ (scan lfn' later).1, (scan lfn' later).2) := by
  induction slots generalizing lfn with
  | nil => simp [scan]
  | cons slot slots ih =>
    simp only [List.cons_append, scan]
    split
    · rfl
    · split
      · exact ih _
      · split
        · exact ih _
        · split
          · exact ih _
          · rw [ih]
            rcases scan Lfn.reset slots with ⟨calls, _ | lfn'⟩ <;> simp

def isEnd (slot : Slot) : Bool := byteAt slot 0 = 0#8

/-- A slot with a callback, unless it is an end marker. -/
def reports (slot : Slot) : Bool :=
  byteAt slot 0 ≠ 0xE5#8 ∧ (dirEnt slot).attr ≠ attrLfn ∧ (dirEnt slot).attr &&& attrVolumeId = 0#8

lemma scan_ended (lfn : Lfn) (slots : List Slot) : (scan lfn slots).2.isNone = slots.any isEnd := by
  induction slots generalizing lfn with
  | nil => rfl
  | cons slot slots ih =>
    simp only [scan, List.any_cons, isEnd]
    by_cases ends : byteAt slot 0 = 0#8
    · simp [ends]
    · simp only [ends, if_false, decide_false, Bool.false_or]
      split
      · exact ih _
      · split
        · exact ih _
        · split
          · exact ih _
          · exact ih _

namespace Mount

/-- The slots on a chain that can be read, and whether the chain ends within `steps` clusters and
without a read error. -/
def slotsFrom (m : Mount) : Nat → BitVec 32 → List Slot × Bool
  | 0, cluster => ([], !inChain cluster)
  | steps + 1, cluster =>
    if !inChain cluster then ([], true)
    else match m.readCluster cluster with
      | none => ([], false)
      | some sectors =>
        (sectors.flatMap sectorSlots ++ (m.slotsFrom steps (m.nextCluster cluster)).1,
          (m.slotsFrom steps (m.nextCluster cluster)).2)

def dirSlots (m : Mount) (cluster : BitVec 32) : List Slot := (m.slotsFrom m.maxClusters cluster).1

/-- The walk over the directory meets its end marker or the end of its chain before a sector that
cannot be read and before the bound on its steps. -/
def Readable (m : Mount) (cluster : BitVec 32) : Prop :=
  m.buffer ∧ ((m.dirSlots cluster).any isEnd ∨ (m.slotsFrom m.maxClusters cluster).2)

lemma iterateFrom_eq (m : Mount) (steps : Nat) (cluster : BitVec 32) (lfn : Lfn) :
    m.iterateFrom steps cluster lfn =
      ((scan lfn (m.slotsFrom steps cluster).1).1,
        (m.slotsFrom steps cluster).1.any isEnd || (m.slotsFrom steps cluster).2) := by
  induction steps generalizing cluster lfn with
  | zero => simp [iterateFrom, slotsFrom, scan]
  | succ steps ih =>
    simp only [iterateFrom, slotsFrom]
    split
    · simp [scan]
    · cases m.readCluster cluster with
      | none => simp [scan]
      | some sectors =>
        simp only [scan_append, List.any_append, ih]
        have ended := scan_ended lfn (sectors.flatMap sectorSlots)
        rcases found : scan lfn (sectors.flatMap sectorSlots) with ⟨calls, _ | lfn'⟩
        · rw [found] at ended
          simp [← ended]
        · rw [found] at ended
          simp [← ended]

lemma iterateDir_calls (m : Mount) (cluster : BitVec 32) (buffer : m.buffer) :
    (m.iterateDir cluster).1 = (scan Lfn.reset (m.dirSlots cluster)).1 := by
  rw [iterateDir, if_pos buffer, iterateFrom_eq, dirSlots]

lemma iterateDir_ok (m : Mount) (cluster : BitVec 32) :
    (m.iterateDir cluster).2 ↔ m.Readable cluster := by
  unfold iterateDir Readable dirSlots
  split
  · next buffer => simp [iterateFrom_eq, buffer]
  · next buffer => simp [buffer]

end Mount

end MicroOs.Fs.Fat32
