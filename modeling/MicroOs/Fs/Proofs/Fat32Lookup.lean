import MicroOs.Fs.MkFat32
import MicroOs.Fs.Proofs.Fat32Walk

/-!
# `fat32_readdir` and `fat32_stat`

Both walk the same directory. `fat32_readdir` reports the long name of an entry where there is one;
`fat32_stat` always reports the 8.3 name. It also takes a path apart at every slash, and it does not
know that the cluster 0 of an entry stands for the root.
-/

namespace MicroOs.Fs.Fat32
open Lib MkFat32 List

variable {call : Fat32DirEnt × Path} {calls : List (Fat32DirEnt × Path)} {cluster : BitVec 32}
  {component name path target : Path} {components : List Path}

lemma mem_cString {buf : List Byte} {c : Byte} (member : c ∈ cString buf) : c ≠ 0#8 := by
  simpa using mem_takeWhile_imp member

lemma length_cString_le (buf : List Byte) : (cString buf).length ≤ buf.length :=
  (takeWhile_sublist _).length_le

lemma Fat32DirEnt.length_shortNameToStr (ent : Fat32DirEnt) :
    ent.shortNameToStr.length ≤ fat32MaxName - 1 := by
  have base := (takeWhile_sublist (· ≠ blank) (l := ent.name.take 8)).length_le
  have extension := (takeWhile_sublist (· ≠ blank) (l := (ent.name.drop 8).take 3)).length_le
  have base_le := length_take_le 8 ent.name
  have extension_le := length_take_le 3 (ent.name.drop 8)
  refine Nat.le_trans (length_cString_le _) ?_
  simp only [fat32MaxName]
  split
  · simp only [length_append, length_map, length_cons]
    omega
  · rw [length_map]
    omega

/-- What the reader can report as a name. -/
structure IsName (name : Path) : Prop where
  nonzero : ∀ c ∈ name, c ≠ 0#8
  length : name.length ≤ fat32MaxName - 1

lemma Lfn.isName_callName (lfn : Lfn) (ent : Fat32DirEnt) : IsName (lfn.callName ent) := by
  unfold Lfn.callName
  split
  · refine ⟨fun c => mem_cString, ?_⟩
    have bound := lfn.len_lt
    have le := length_cString_le (window lfn.buf 0 lfn.len)
    rw [length_window] at le
    omega
  · exact ⟨fun c => mem_cString, ent.length_shortNameToStr⟩

lemma isName_of_scan {lfn : Lfn} {slots : List Slot} (member : call ∈ (scan lfn slots).1) :
    IsName call.2 := by
  induction slots generalizing lfn with
  | nil => simp [scan] at member
  | cons slot slots ih =>
    simp only [scan] at member
    split at member
    · simp at member
    · split at member
      · exact ih member
      · split at member
        · exact ih member
        · split at member
          · exact ih member
          · rcases mem_cons.mp member with rfl | later
            · exact lfn.isName_callName _
            · exact ih later

lemma Mount.isName_of_iterateDir {m : Mount} (member : call ∈ (m.iterateDir cluster).1) :
    IsName call.2 := by
  by_cases buffer : m.buffer
  · rw [m.iterateDir_calls cluster buffer] at member
    exact isName_of_scan member
  · simp [Mount.iterateDir, buffer] at member

lemma strcasecmpSimple_self (name : Path) : strcasecmpSimple name name = 0 := by
  induction name with
  | nil => rfl
  | cons c name ih => rw [strcasecmpSimple, if_neg (not_not_intro rfl), ih]

lemma eq_nil_of_strcasecmpSimple_nil (nonzero : ∀ c ∈ name, c ≠ 0#8)
    (same : strcasecmpSimple name [] = 0) : name = [] := by
  cases name with
  | nil => rfl
  | cons c name =>
    have zero : (c.toNat : Int) = 0 := by simpa [strcasecmpSimple] using same
    refine absurd ?_ (nonzero c mem_cons_self)
    apply BitVec.eq_of_toNat_eq
    simpa using zero

def isMatch (target : Path) (call : Fat32DirEnt × Path) : Bool :=
  strcasecmpSimple call.2 target = 0

lemma foldl_findCb_of_none (none_match : calls.countP (isMatch target) = 0)
    (found : Option Fat32DirEnt) : calls.foldl (findCb target) found = found := by
  induction calls generalizing found with
  | nil => rfl
  | cons call calls ih =>
    rw [countP_eq_zero] at none_match ih
    have other : ¬strcasecmpSimple call.2 target = 0 := by
      simpa [isMatch] using none_match call mem_cons_self
    rw [foldl_cons, findCb, if_neg other]
    exact ih (fun c member => none_match c (mem_cons_of_mem _ member)) found

lemma foldl_findCb_of_unique (unique : calls.countP (isMatch target) = 1) (member : call ∈ calls)
    (matches_target : isMatch target call) (found : Option Fat32DirEnt) :
    calls.foldl (findCb target) found = some call.1 := by
  induction calls generalizing found with
  | nil => simp at member
  | cons first calls ih =>
    rw [foldl_cons]
    rcases mem_cons.mp member with rfl | later
    · rw [countP_cons_of_pos matches_target] at unique
      rw [foldl_findCb_of_none (by omega), findCb, if_pos (by simpa [isMatch] using matches_target)]
    · by_cases also : isMatch target first
      · -- two matches
        rw [countP_cons_of_pos also] at unique
        have some_match := countP_pos_iff.mpr ⟨call, later, matches_target⟩
        omega
      · rw [countP_cons_of_neg (by simpa using also)] at unique
        exact ih unique later _

namespace Mount

variable {m : Mount}

lemma find_of_not_readable (component : Path) (not_readable : ¬m.Readable cluster) :
    m.find cluster component = none := by
  have failed : (m.iterateDir cluster).2 = false := by
    rw [← Bool.not_eq_true, m.iterateDir_ok cluster]
    exact not_readable
  unfold find
  rcases walk : m.iterateDir cluster with ⟨calls, ok⟩
  rw [walk] at failed
  subst failed
  rfl

lemma find_of_readable (component : Path) (readable : m.Readable cluster) :
    m.find cluster component = (m.iterateDir cluster).1.foldl (findCb component) none := by
  have ok := (m.iterateDir_ok cluster).mpr readable
  unfold find
  rcases walk : m.iterateDir cluster with ⟨calls, result⟩
  rw [walk] at ok
  rw [show result = true from ok]

lemma iterateDir_zero (m : Mount) : (m.iterateDir 0#32).1 = [] := by
  unfold iterateDir
  split
  · cases m.maxClusters with
    | zero | succ _ => rfl
  · rfl

lemma find_zero (m : Mount) (component : Path) : m.find 0#32 component = none := by
  by_cases readable : m.Readable 0#32
  · rw [find_of_readable component readable, iterateDir_zero]
    rfl
  · exact find_of_not_readable component readable

/-- No directory lists an entry with an empty name or a slash in its name. -/
def WellNamed (m : Mount) : Prop :=
  ∀ cluster, ∀ call ∈ (m.iterateDir cluster).1, call.2 ≠ [] ∧ slash ∉ call.2

lemma WellNamed.find_nil (named : m.WellNamed) (cluster : BitVec 32) :
    m.find cluster [] = none := by
  by_cases readable : m.Readable cluster
  · rw [find_of_readable [] readable]
    apply foldl_findCb_of_none
    rw [countP_eq_zero]
    intro call member isEmpty
    apply (named cluster call member).1
    exact eq_nil_of_strcasecmpSimple_nil (isName_of_iterateDir member).nonzero
      (by simpa [isMatch] using isEmpty)
  · exact find_of_not_readable [] readable

end Mount

lemma componentsFrom_ne_nil (nonempty : component ≠ [] ∨ path ≠ []) :
    componentsFrom component path ≠ [] := by
  induction path generalizing component with
  | nil =>
    have some_char : component ≠ [] := nonempty.resolve_right (not_not_intro rfl)
    simp [componentsFrom, some_char]
  | cons c path ih =>
    rw [componentsFrom]
    split
    · simp
    · split
      · exact ih (Or.inl (by simp))
      · simp

lemma componentsFrom_join (name : Path) (nonempty : component ≠ [] ∨ path ≠ [])
    (last : path.getLast? ≠ some slash) :
    componentsFrom component (path ++ slash :: name) =
      componentsFrom component path ++ componentsFrom [] name := by
  induction path generalizing component with
  | nil =>
    have some_char : component ≠ [] := nonempty.resolve_right (not_not_intro rfl)
    simp [componentsFrom, some_char]
  | cons c path ih =>
    have later : path.getLast? ≠ some slash := by
      intro ends
      apply last
      cases path with
      | nil => simp at ends
      | cons b path => rwa [getLast?_cons_cons]
    rw [cons_append, componentsFrom, componentsFrom]
    by_cases atSlash : c = slash
    · have more : path ≠ [] := by
        rintro rfl
        exact last (by rw [atSlash]; rfl)
      rw [if_pos atSlash, if_pos atSlash, ih (Or.inr more) later, cons_append]
    · rw [if_neg atSlash, if_neg atSlash]
      split
      · exact ih (Or.inl (by simp)) later
      · rw [ih (Or.inl (by simp)) later, cons_append]

lemma componentsFrom_name (nonempty : component ≠ [] ∨ name ≠ []) (no_slash : slash ∉ name)
    (short : component.length + name.length ≤ fat32MaxName - 1) :
    componentsFrom component name = [component ++ name] := by
  induction name generalizing component with
  | nil =>
    have some_char : component ≠ [] := nonempty.resolve_right (not_not_intro rfl)
    simp [componentsFrom, some_char]
  | cons c name ih =>
    rw [length_cons] at short
    have other : c ≠ slash := fun same => no_slash (by simp [same])
    rw [componentsFrom, if_neg other, if_pos (by omega),
      ih (Or.inl (by simp)) (fun member => no_slash (mem_cons_of_mem _ member))
        (by rw [length_append, length_singleton]; omega),
      append_assoc, singleton_append]

lemma nil_mem_componentsFrom (component path name : Path) :
    [] ∈ componentsFrom component (path ++ slash :: slash :: name) := by
  induction path generalizing component with
  | nil => simp [componentsFrom]
  | cons c path ih =>
    rw [cons_append, componentsFrom]
    split
    · exact mem_cons_of_mem _ (ih _)
    · split
      · exact ih _
      · exact mem_cons_of_mem _ (ih _)

lemma skipSlash_append (nonempty : path ≠ []) (later : Path) :
    skipSlash (path ++ later) = skipSlash path ++ later := by
  cases path with
  | nil => exact absurd rfl nonempty
  | cons c path =>
    rw [cons_append, skipSlash, skipSlash]
    split
    · rfl
    · rfl

lemma isRoot_join (path : Path) (nonempty : name ≠ []) :
    isRoot (path ++ slash :: name) = false := by
  simp only [isRoot, decide_eq_false_iff_not]
  rintro (empty | single)
  · simp at empty
  · have length := congrArg length single
    have positive := length_pos_of_ne_nil nonempty
    simp at length
    omega

namespace Mount

variable {m : Mount}

lemma resolveFrom_single (m : Mount) (current : BitVec 32) (out : Fat32DirEnt) (name : Path) :
    m.resolveFrom current out [name] = m.find current name := by
  rw [resolveFrom]
  cases m.find current name with
  | none => rfl
  | some ent => simp [resolveFrom]

lemma resolveFrom_concat (m : Mount) (current : BitVec 32) (out : Fat32DirEnt)
    (nonempty : components ≠ []) (name : Path) :
    m.resolveFrom current out (components ++ [name]) =
      match m.resolveFrom current out components with
      | none => none
      | some dir => if dir.isDirectory then m.find dir.entryCluster name else none := by
  induction components generalizing current out with
  | nil => exact absurd rfl nonempty
  | cons component components ih =>
    rw [cons_append, resolveFrom, resolveFrom]
    cases m.find current component with
    | none => rfl
    | some ent =>
      have more : components ++ [name] ≠ [] := by simp
      cases components with
      | nil =>
        by_cases directory : ent.isDirectory
        · simp [resolveFrom_single, resolveFrom, directory]
        · simp [resolveFrom, directory]
      | cons second components =>
        simp only [ne_eq, more, not_false_eq_true, true_and]
        by_cases directory : ent.isDirectory
        · simpa [directory] using ih ent.entryCluster ent (by simp)
        · simp [directory]

lemma WellNamed.resolveFrom_eq_none (named : m.WellNamed) (empty : [] ∈ components)
    (current : BitVec 32) (out : Fat32DirEnt) : m.resolveFrom current out components = none := by
  induction components generalizing current out with
  | nil => simp at empty
  | cons component components ih =>
    rw [resolveFrom]
    rcases mem_cons.mp empty with rfl | later
    · rw [named.find_nil]
    · cases m.find current component with
      | none => rfl
      | some ent =>
        simp only
        split
        · rfl
        · exact ih later _ _

lemma entryCluster_rootEntry (m : Mount) : m.rootEntry.entryCluster = m.rootCluster :=
  append_halves 16 m.rootCluster

/-- The cluster that `resolve_path` searches for the last component after a directory. -/
def lookupCluster (m : Mount) (path : Path) (dir : Fat32DirEnt) : BitVec 32 :=
  if path = [] then m.rootCluster else dir.entryCluster

lemma resolvePath_join {dir : Fat32DirEnt} (resolved : m.resolvePath path = some dir)
    (directory : dir.isDirectory) (last : path.getLast? ≠ some slash) (nonempty : name ≠ [])
    (no_slash : slash ∉ name) (short : name.length ≤ fat32MaxName - 1) :
    m.resolvePath (path ++ slash :: name) = m.find (m.lookupCluster path dir) name := by
  have single : componentsFrom [] name = [name] :=
    componentsFrom_name (Or.inr nonempty) no_slash (by simpa using short)
  rw [resolvePath, isRoot_join path nonempty, lookupCluster]
  by_cases top : path = []
  · subst top
    rw [if_pos rfl, nil_append, skipSlash, if_pos rfl, single]
    exact m.resolveFrom_single m.rootCluster m.rootEntry name
  · have below : isRoot path = false := by
      simp only [isRoot, decide_eq_false_iff_not]
      rintro (empty | root)
      · exact top empty
      · exact last (by rw [root]; rfl)
    have stripped : skipSlash path ≠ [] ∧ (skipSlash path).getLast? ≠ some slash := by
      cases path with
      | nil => exact absurd rfl top
      | cons c path =>
        rw [skipSlash]
        split
        · next atSlash =>
          have more : path ≠ [] := by
            rintro rfl
            exact last (by rw [atSlash]; rfl)
          refine ⟨more, fun ends => last ?_⟩
          cases path with
          | nil => exact absurd rfl more
          | cons b path => rwa [getLast?_cons_cons]
        · exact ⟨by simp, last⟩
    rw [resolvePath, below] at resolved
    simp only [Bool.false_eq_true, if_false] at resolved ⊢
    rw [if_neg top, skipSlash_append top, componentsFrom_join name (Or.inr stripped.1) stripped.2,
      single, resolveFrom_concat m _ _ (componentsFrom_ne_nil (Or.inr stripped.1)), resolved]
    simp [directory]

lemma WellNamed.resolvePath_slashes (named : m.WellNamed) (path : Path) (nonempty : name ≠ []) :
    m.resolvePath (path ++ slash :: slash :: name) = none := by
  have joined : path ++ slash :: slash :: name = (path ++ [slash]) ++ slash :: name := by simp
  rw [resolvePath, joined, isRoot_join (path ++ [slash]) nonempty, ← joined]
  simp only [Bool.false_eq_true, if_false]
  apply named.resolveFrom_eq_none
  by_cases top : path = []
  · subst top
    rw [nil_append, skipSlash, if_pos rfl]
    simp [componentsFrom]
  · rw [skipSlash_append top]
    exact nil_mem_componentsFrom _ _ _

end Mount

/-- The slot behind what `fat32_readdir` reports. -/
structure Reports (m : Mount) (path : Path) (dir ent : Fat32DirEnt) (e : Fat32DirEntry) :
    Prop where
  resolved : m.resolvePath path = some dir
  directory : dir.isDirectory
  listed : (ent, e.name) ∈ (m.iterateDir (m.readdirCluster dir)).1
  entry : e = readdirAdapter ent e.name

/-- When `fat32_stat` agrees: the 8.3 name is the reported name, which is one component of a path,
the joined path has no empty component, the directory is not found under cluster 0, and its slots
can be read to their end. -/
structure StatAgrees (m : Mount) (path : Path) (dir ent : Fat32DirEnt) (name : Path) : Prop where
  short_name : ent.shortNameToStr = name
  nonempty : name ≠ []
  no_slash : slash ∉ name
  last : path.getLast? ≠ some slash
  cluster : path = [] ∨ dir.entryCluster ≠ 0#32
  readable : m.Readable (m.readdirCluster dir)

variable {m : Mount} {path : Path} {e : Fat32DirEntry} {dir ent : Fat32DirEnt}

lemma fat32Readdir_calls (resolved : m.resolvePath path = some dir)
    (directory : dir.isDirectory) :
    (fat32Readdir (some m) path).1 = (m.iterateDir (m.readdirCluster dir)).1.map
      fun call => readdirAdapter call.1 call.2 := by
  simp [fat32Readdir, resolved, directory]

lemma name_readdirAdapter (ent : Fat32DirEnt) (isName : IsName name) :
    (readdirAdapter ent name).name = name :=
  take_of_length_le isName.length

lemma exists_reports (reported : e ∈ (fat32Readdir (some m) path).1) :
    ∃ dir ent, Reports m path dir ent e := by
  cases resolved : m.resolvePath path with
  | none => simp [fat32Readdir, resolved] at reported
  | some dir =>
    by_cases directory : dir.isDirectory
    · rw [fat32Readdir_calls resolved directory] at reported
      obtain ⟨⟨ent, name⟩, listed, rfl⟩ := mem_map.mp reported
      have same := name_readdirAdapter ent (Mount.isName_of_iterateDir listed)
      exact ⟨dir, ent, resolved, directory, by rwa [same], by rw [same]⟩
    · simp [fat32Readdir, resolved, directory] at reported

namespace Reports

section
variable (reports : Reports m path dir ent e)
include reports

lemma unique_call (unique : (fat32Readdir (some m) path).1.countP
      (fun other => strcasecmpSimple other.name e.name = 0) = 1) :
    (m.iterateDir (m.readdirCluster dir)).1.countP (isMatch e.name) = 1 := by
  rw [← unique, fat32Readdir_calls reports.resolved reports.directory, countP_map]
  apply countP_congr
  intro call member
  rw [Function.comp_apply, name_readdirAdapter _ (Mount.isName_of_iterateDir member), isMatch]

lemma find_eq (unique : (fat32Readdir (some m) path).1.countP
      (fun other => strcasecmpSimple other.name e.name = 0) = 1)
    (readable : m.Readable (m.readdirCluster dir)) :
    m.find (m.readdirCluster dir) e.name = some ent := by
  rw [Mount.find_of_readable _ readable]
  exact foldl_findCb_of_unique (reports.unique_call unique) reports.listed
    (by simp [isMatch, strcasecmpSimple_self]) none

lemma lookupCluster_eq (cluster : path = [] ∨ dir.entryCluster ≠ 0#32) :
    m.lookupCluster path dir = m.readdirCluster dir := by
  unfold Mount.lookupCluster Mount.readdirCluster
  by_cases top : path = []
  · subst top
    have root : dir = m.rootEntry := (Option.some.inj reports.resolved).symm
    rw [if_pos rfl, root, m.entryCluster_rootEntry, ite_self]
  · rw [if_neg top, if_neg (cluster.resolve_left top)]

lemma fat32Stat_of_resolved (nonempty : e.name ≠ [])
    (resolved : m.resolvePath (path ++ slash :: e.name) = some ent) :
    fat32Stat (some m) (path ++ slash :: e.name) = some { e with name := ent.shortNameToStr } := by
  have type : e.type = ent.type := congrArg Fat32DirEntry.type reports.entry
  have size : e.size = ent.fileSize := congrArg Fat32DirEntry.size reports.entry
  have cluster : e.cluster = ent.entryCluster := congrArg Fat32DirEntry.cluster reports.entry
  simp [fat32Stat, resolved, isRoot_join path nonempty, type, size, cluster]

lemma agrees (unique : (fat32Readdir (some m) path).1.countP
      (fun other => strcasecmpSimple other.name e.name = 0) = 1)
    (condition : StatAgrees m path dir ent e.name) :
    fat32Stat (some m) (path ++ slash :: e.name) = some e := by
  have isName := Mount.isName_of_iterateDir reports.listed
  have resolved : m.resolvePath (path ++ slash :: e.name) = some ent := by
    rw [Mount.resolvePath_join reports.resolved reports.directory condition.last
      condition.nonempty condition.no_slash isName.length,
      reports.lookupCluster_eq condition.cluster, reports.find_eq unique condition.readable]
  rw [reports.fat32Stat_of_resolved condition.nonempty resolved, condition.short_name]

lemma agrees_only (unique : (fat32Readdir (some m) path).1.countP
      (fun other => strcasecmpSimple other.name e.name = 0) = 1) (named : m.WellNamed)
    (agree : fat32Stat (some m) (path ++ slash :: e.name) = some e) :
    StatAgrees m path dir ent e.name := by
  have isName := Mount.isName_of_iterateDir reports.listed
  obtain ⟨nonempty, no_slash⟩ := named _ _ reports.listed
  have found : m.resolvePath (path ++ slash :: e.name) ≠ none := by
    intro lost
    simp [fat32Stat, lost] at agree
  have last : path.getLast? ≠ some slash := by
    intro ends
    obtain ⟨front, rfl⟩ := getLast?_eq_some_iff.mp ends
    rw [append_assoc, singleton_append] at found
    exact found (named.resolvePath_slashes front nonempty)
  have joined := Mount.resolvePath_join reports.resolved reports.directory last nonempty no_slash
    isName.length
  have cluster : path = [] ∨ dir.entryCluster ≠ 0#32 := by
    by_contra missing
    obtain ⟨deeper, zero⟩ := not_or.mp missing
    rw [joined, Mount.lookupCluster, if_neg deeper, not_not.mp zero, Mount.find_zero] at found
    exact found rfl
  rw [reports.lookupCluster_eq cluster] at joined
  have readable : m.Readable (m.readdirCluster dir) := by
    by_contra not_readable
    rw [joined, Mount.find_of_not_readable _ not_readable] at found
    exact found rfl
  have stat := reports.fat32Stat_of_resolved nonempty
    (joined.trans (reports.find_eq unique readable))
  refine ⟨?_, nonempty, no_slash, last, cluster, readable⟩
  rw [agree] at stat
  exact (congrArg Fat32DirEntry.name (Option.some.inj stat)).symm

end

end Reports

/-- `fat32_stat` agrees with an entry that `fat32_readdir` reports under a unique name if
`StatAgrees`, and, where no entry of the volume has an empty name or a slash in its name, only then.
-/
theorem readdir_stat_agree_iff (m : Mount) (path : Path) (e : Fat32DirEntry)
    (reported : e ∈ (fat32Readdir (some m) path).1)
    (unique : (fat32Readdir (some m) path).1.countP
      (fun other => strcasecmpSimple other.name e.name = 0) = 1) :
    ∃ dir ent, Reports m path dir ent e ∧
      (StatAgrees m path dir ent e.name →
        fat32Stat (some m) (path ++ slash :: e.name) = some e) ∧
      (m.WellNamed → fat32Stat (some m) (path ++ slash :: e.name) = some e →
        StatAgrees m path dir ent e.name) := by
  obtain ⟨dir, ent, reports⟩ := exists_reports reported
  exact ⟨dir, ent, reports, reports.agrees unique, reports.agrees_only unique⟩

theorem readdir_stat_agree_iff_hello :
    ∃ dir ent,
      Reports (builtVolume (oneFileImage helloName helloAlias) 1#8) [] dir ent
        ⟨helloName, .file, 33#32, 3#32⟩ ∧
      (StatAgrees (builtVolume (oneFileImage helloName helloAlias) 1#8) [] dir ent helloName →
        fat32Stat (some (builtVolume (oneFileImage helloName helloAlias) 1#8))
          ([] ++ slash :: helloName) = some ⟨helloName, .file, 33#32, 3#32⟩) ∧
      ((builtVolume (oneFileImage helloName helloAlias) 1#8).WellNamed →
        fat32Stat (some (builtVolume (oneFileImage helloName helloAlias) 1#8))
          ([] ++ slash :: helloName) = some ⟨helloName, .file, 33#32, 3#32⟩ →
        StatAgrees (builtVolume (oneFileImage helloName helloAlias) 1#8) [] dir ent helloName) :=
  readdir_stat_agree_iff (builtVolume (oneFileImage helloName helloAlias) 1#8) []
    ⟨helloName, .file, 33#32, 3#32⟩ (by decide +kernel) (by decide +kernel)

/-- `longfile.text`, with the alias `LONGFI~1TEX`. -/
def longfileName : Path :=
  [0x6C#8, 0x6F#8, 0x6E#8, 0x67#8, 0x66#8, 0x69#8, 0x6C#8, 0x65#8, 0x2E#8, 0x74#8, 0x65#8, 0x78#8,
    0x74#8]

def longfileAlias : Path :=
  [0x4C#8, 0x4F#8, 0x4E#8, 0x47#8, 0x46#8, 0x49#8, 0x7E#8, 0x31#8, 0x54#8, 0x45#8, 0x58#8]

/-- The directory lists `longfile.text`; the status of that file has the name `longfi~1.tex`. -/
theorem stat_reports_the_alias :
    fat32Readdir (some (builtVolume (oneFileImage longfileName longfileAlias) 1#8)) [] =
      ([⟨longfileName, .file, 33#32, 3#32⟩], true) ∧
    fat32Stat (some (builtVolume (oneFileImage longfileName longfileAlias) 1#8))
      ([] ++ slash :: longfileName) =
        some ⟨[0x6C#8, 0x6F#8, 0x6E#8, 0x67#8, 0x66#8, 0x69#8, 0x7E#8, 0x31#8, 0x2E#8, 0x74#8,
          0x65#8, 0x78#8], .file, 33#32, 3#32⟩ := by
  decide +kernel

end MicroOs.Fs.Fat32
