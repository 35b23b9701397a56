import MicroOs.Fs.Proofs.Fat32Lookup

/-!
# The parent entry of a first-level directory

By the FAT convention the entry `..` of a directory in the root has the first cluster 0.
`fat32_readdir` takes this for the root, but `resolve_path` goes on from it as from any other
cluster, and finds nothing there.
-/

namespace MicroOs.Fs.Fat32
open Lib MkFat32

def dotDot : Path := [0x2E#8, 0x2E#8]

def viaParent (d rest : Path) : Path := d ++ slash :: (dotDot ++ slash :: rest)

/-- A directory in the root whose entry `..`, if it has one, follows the convention. -/
structure FirstLevel (m : Mount) (d : Path) (dir : Fat32DirEnt) : Prop where
  nonempty : d ≠ []
  no_slash : slash ∉ d
  short : d.length ≤ fat32MaxName - 1
  found : m.find m.rootCluster d = some dir
  directory : dir.isDirectory = true
  convention : ∀ up, m.find dir.entryCluster dotDot = some up → up.entryCluster = 0#32

lemma componentsFrom_viaParent {d : Path} (nonempty : d ≠ []) (no_slash : slash ∉ d)
    (short : d.length ≤ fat32MaxName - 1) (rest : Path) :
    componentsFrom [] (viaParent d rest) = d :: dotDot :: componentsFrom [] rest := by
  have last : d.getLast? ≠ some slash := fun ends => no_slash (List.mem_of_getLast? ends)
  rw [viaParent, componentsFrom_join _ (Or.inr nonempty) last,
    componentsFrom_join rest (Or.inr (by decide)) (by decide),
    componentsFrom_name (Or.inr nonempty) no_slash (by simpa using short),
    componentsFrom_name (Or.inr (by decide)) (by decide) (by decide)]
  rfl

namespace FirstLevel

variable {m : Mount} {d : Path} {dir : Fat32DirEnt}

lemma resolvePath_viaParent (level : FirstLevel m d dir) (rest : Path) :
    m.resolvePath (viaParent d rest) =
      if rest = [] then m.find dir.entryCluster dotDot else none := by
  obtain ⟨c, d, rfl⟩ := List.exists_cons_of_ne_nil level.nonempty
  have first : c ≠ slash := fun same => level.no_slash (by simp [same])
  have below : isRoot (viaParent (c :: d) rest) = false := by simp [isRoot, viaParent, first]
  have kept : skipSlash (viaParent (c :: d) rest) = viaParent (c :: d) rest := by
    simp [skipSlash, viaParent, first]
  rw [Mount.resolvePath, below, kept,
    componentsFrom_viaParent level.nonempty level.no_slash level.short]
  simp only [Bool.false_eq_true, if_false, Mount.resolveFrom, level.found, level.directory]
  rcases above : m.find dir.entryCluster dotDot with _ | up
  · simp
  · by_cases empty : rest = []
    · subst empty
      simp [componentsFrom, Mount.resolveFrom]
    · have some_component : componentsFrom [] rest ≠ [] := componentsFrom_ne_nil (Or.inr empty)
      obtain ⟨component, components, more⟩ := List.exists_cons_of_ne_nil some_component
      simp [more, empty, Mount.resolveFrom, level.convention up above, Mount.find_zero]

lemma rootCluster_ne_zero (level : FirstLevel m d dir) : m.rootCluster ≠ 0#32 := by
  intro zero
  have found := level.found
  rw [zero, m.find_zero] at found
  cases found

end FirstLevel

def SameResults (m : Mount) (path path' : Path) : Prop :=
  fat32Stat (some m) path = fat32Stat (some m) path' ∧
  fat32Readdir (some m) path = fat32Readdir (some m) path' ∧
  ∀ bufSize, fat32ReadFile (some m) path bufSize = fat32ReadFile (some m) path' bufSize

/-- For a first-level directory `d`, the path `d/../rest` leads to the same as `rest` exactly if
`rest` leads to nothing. -/
theorem parent_path_resolves_iff {m : Mount} {d : Path} {dir : Fat32DirEnt}
    (level : FirstLevel m d dir) (rest : Path) :
    SameResults m (viaParent d rest) rest ↔ m.resolvePath rest = none := by
  have via := level.resolvePath_viaParent rest
  constructor
  · intro ⟨stat, _, _⟩
    by_contra resolved
    obtain ⟨ent, resolved⟩ := Option.ne_none_iff_exists'.mp resolved
    by_cases empty : rest = []
    · -- the status has cluster 0 on the way through `..`, and the root cluster without it
      subst empty
      obtain rfl : m.rootEntry = ent := Option.some.inj resolved
      rw [if_pos rfl] at via
      rcases above : m.find dir.entryCluster dotDot with _ | up
      · simp [fat32Stat, via, above, resolved] at stat
      · simp [fat32Stat, via, above, resolved, level.convention up above,
          Mount.entryCluster_rootEntry] at stat
        exact level.rootCluster_ne_zero stat.2.2.2.symm
    · rw [if_neg empty] at via
      simp [fat32Stat, via, resolved] at stat
  · intro lost
    have nonempty : rest ≠ [] := by
      rintro rfl
      cases lost
    rw [if_neg nonempty] at via
    refine ⟨?_, ?_, fun bufSize => ?_⟩
    · simp [fat32Stat, via, lost]
    · simp [fat32Readdir, via, lost]
    · simp [fat32ReadFile, via, lost]

def docsName : Path := [0x64#8, 0x6F#8, 0x63#8, 0x73#8]

def docsAlias : Path := [0x44#8, 0x4F#8, 0x43#8, 0x53#8]

/-- An image with `hello.txt` and the directory `docs`, as the builder makes them
(`mkfat32.py:161-188`) except for the cluster in the entry `..`. -/
def docsImage (parent : BitVec 32) : Image :=
  let docsOff := rootOff + 3 * 512
  let img := write83Entry (fun _ => 0#8) rootOff 0 helloAlias 0x20#8 3#32 33#32
  let img := write83Entry img rootOff 1 docsAlias 0x10#8 5#32 0#32
  let img := write83Entry img docsOff 0 [0x2E#8] 0x10#8 5#32 0#32
  write83Entry img docsOff 1 dotDot 0x10#8 parent 0#32

lemma docsImage_firstLevel :
    FirstLevel (builtVolume (docsImage 0#32) 1#8) docsName
      ⟨ljust11 docsAlias, 0x10#8, 0#16, 5#16, 0#32⟩ := by
  have parent : (builtVolume (docsImage 0#32) 1#8).find 5#32 dotDot =
      some ⟨ljust11 dotDot, 0x10#8, 0#16, 0#16, 0#32⟩ := by decide +kernel
  refine ⟨by decide, by decide, by decide, by decide +kernel, by decide, fun up above => ?_⟩
  obtain rfl := Option.mem_unique parent above
  rfl

theorem parent_path_resolves_missing :
    SameResults (builtVolume (docsImage 0#32) 1#8) (viaParent docsName longfileName) longfileName :=
  (parent_path_resolves_iff docsImage_firstLevel longfileName).mpr (by decide +kernel)

theorem parent_path_is_lost :
    FirstLevel (builtVolume (docsImage 0#32) 1#8) docsName
      ⟨ljust11 docsAlias, 0x10#8, 0#16, 5#16, 0#32⟩ ∧
    fat32Stat (some (builtVolume (docsImage 0#32) 1#8)) helloName =
      some ⟨helloName, .file, 33#32, 3#32⟩ ∧
    fat32Stat (some (builtVolume (docsImage 0#32) 1#8)) (viaParent docsName helloName) = none := by
  refine ⟨docsImage_firstLevel, by decide +kernel, ?_⟩
  have lost := docsImage_firstLevel.resolvePath_viaParent helloName
  rw [if_neg (by decide)] at lost
  simp [fat32Stat, lost]

end MicroOs.Fs.Fat32
