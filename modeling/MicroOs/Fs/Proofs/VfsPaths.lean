import MicroOs.Fs.Proofs.VfsInvariant

/-!
# Paths

`resolve_path` splits a path into components of at most 63 bytes; `resolve_parent` splits it at its
last slash, cuts the name off after 63 bytes and the directory's path after 255. First what the two
have to do with each other, then the vnodes that `vfs_open` and `vfs_mkdir` create.
-/

namespace MicroOs.Fs
open Lib List

namespace Vfs

variable {s t : Vfs} {i d : Nat} {path name : Path} {block : Nat}

lemma componentsFrom_slash (component xs ys : Path) :
    componentsFrom component (xs ++ slash :: ys) = componentsFrom component xs ++ components ys := by
  induction xs generalizing component with
  | nil =>
    by_cases empty : component = []
    · simp [componentsFrom, empty, components]
    · simp [componentsFrom, empty, components]
  | cons c xs ih =>
    rw [cons_append, componentsFrom, componentsFrom]
    split
    · split
      · exact ih []
      · rw [ih, cons_append]
    · split
      · exact ih _
      · rw [ih, cons_append]

lemma componentsFrom_length_pos {component : Path} (nonempty : component ≠ []) (xs : Path) :
    0 < (componentsFrom component xs).length := by
  induction xs generalizing component with
  | nil => simp [componentsFrom, nonempty]
  | cons c xs ih =>
    rw [componentsFrom]
    split
    · exact Nat.succ_pos _
    · split
      · exact ih (by simp)
      · exact Nat.succ_pos _

lemma componentsFrom_length_le (component xs ys : Path) :
    (componentsFrom component xs).length ≤ (componentsFrom component (xs ++ ys)).length := by
  induction xs generalizing component with
  | nil =>
    by_cases empty : component = []
    · simp [componentsFrom, empty]
    · have positive := componentsFrom_length_pos empty ys
      rw [componentsFrom, if_neg empty]
      exact positive
  | cons c xs ih =>
    rw [cons_append, componentsFrom, componentsFrom]
    split
    · split
      · exact ih []
      · exact Nat.succ_le_succ (ih [])
    · split
      · exact ih _
      · exact Nat.succ_le_succ (ih _)

lemma componentsFrom_name {component xs : Path} (noSlash : slash ∉ xs)
    (short : component.length + xs.length ≤ vfsMaxName - 1) (nonempty : component ++ xs ≠ []) :
    componentsFrom component xs = [component ++ xs] := by
  induction xs generalizing component with
  | nil =>
    rw [append_nil] at nonempty ⊢
    rw [componentsFrom, if_neg nonempty]
  | cons c xs ih =>
    rw [mem_cons, not_or] at noSlash
    rw [length_cons] at short
    rw [componentsFrom, if_neg (Ne.symm noSlash.1), if_pos (by omega),
      ih noSlash.2 (by rw [length_append, length_singleton]; omega) (by simp),
      append_assoc, singleton_append]

lemma componentsFrom_long {component xs : Path} (noSlash : slash ∉ xs)
    (fits : component.length ≤ vfsMaxName - 1)
    (long : vfsMaxName - 1 < component.length + xs.length) :
    1 < (componentsFrom component xs).length := by
  induction xs generalizing component with
  | nil =>
    rw [length_nil] at long
    omega
  | cons c xs ih =>
    rw [mem_cons, not_or] at noSlash
    rw [length_cons] at long
    rw [componentsFrom, if_neg (Ne.symm noSlash.1)]
    split
    case isTrue room =>
      apply ih noSlash.2
      · rw [length_append, length_singleton]
        omega
      · rw [length_append, length_singleton]
        omega
    case isFalse =>
      have positive := componentsFrom_length_pos (cons_ne_nil c []) xs
      rw [length_cons]
      omega

lemma split_at_last_slash (h : slash ∈ path) :
    path = beforeLastSlash path ++ slash :: afterLastSlash path := by
  induction path with
  | nil => cases h
  | cons c path ih =>
    rw [beforeLastSlash, afterLastSlash]
    by_cases later : slash ∈ path
    · rw [if_pos later, if_pos later, cons_append, ← ih later]
    · have isSlash : c = slash := by
        rcases mem_cons.mp h with isSlash | inRest
        · exact isSlash.symm
        · exact absurd inRest later
      rw [if_neg later, if_neg later, if_pos isSlash, nil_append, isSlash]

lemma slash_not_mem_afterLastSlash (path : Path) : slash ∉ afterLastSlash path := by
  induction path with
  | nil => exact not_mem_nil
  | cons c path ih =>
    rw [afterLastSlash]
    split
    · exact ih
    case isFalse none =>
      split
      case isTrue => exact none
      case isFalse other =>
        rw [mem_cons, not_or]
        exact ⟨Ne.symm other, none⟩

def parentPath (path : Path) : Path :=
  if beforeLastSlash path = [] then [slash] else beforeLastSlash path

def dirComponents (path : Path) : List Path := components ((beforeLastSlash path).drop 1)

lemma beforeLastSlash_absolute (absolute : path.head? = some slash)
    (below : beforeLastSlash path ≠ []) :
    beforeLastSlash path = slash :: (beforeLastSlash path).drop 1 := by
  cases path with
  | nil => cases absolute
  | cons c path =>
    obtain rfl : c = slash := Option.some.inj absolute
    rw [beforeLastSlash] at below ⊢
    split at below
    case isTrue later => rw [if_pos later, drop_one, tail_cons]
    case isFalse => exact absurd rfl below

lemma resolvePath_eq (s : Vfs) (absolute : path.head? = some slash) :
    s.resolvePath path =
      s.tree.walk 0 (dirComponents path ++ components (afterLastSlash path)) := by
  cases path with
  | nil => cases absolute
  | cons c rest =>
    obtain rfl : c = slash := Option.some.inj absolute
    rw [resolvePath, if_pos rfl]
    congr 1
    have split : slash :: rest = beforeLastSlash (slash :: rest) ++
        slash :: afterLastSlash (slash :: rest) := split_at_last_slash mem_cons_self
    by_cases top : beforeLastSlash (slash :: rest) = []
    · rw [top, nil_append, cons.injEq] at split
      rw [dirComponents, top, drop_nil, ← split.2]
      rfl
    · rw [beforeLastSlash_absolute rfl top, cons_append, cons.injEq] at split
      rw [dirComponents, components, split.2, componentsFrom_slash, ← split.2]
      rfl

lemma resolvePath_parentPath (s : Vfs) (absolute : path.head? = some slash) :
    s.resolvePath (parentPath path) = s.tree.walk 0 (dirComponents path) := by
  rw [parentPath, dirComponents]
  by_cases top : beforeLastSlash path = []
  · rw [if_pos top, top]
    rfl
  · rw [if_neg top]
    conv_lhs => rw [beforeLastSlash_absolute absolute top]
    rw [resolvePath, if_pos rfl]

lemma resolveParent_walk (h : s.resolveParent path = some (d, name)) :
    ∃ cs, cs.length ≤ (dirComponents path).length ∧ s.tree.walk 0 cs = some d := by
  obtain ⟨absolute, -, -, ⟨top, rfl⟩ | ⟨below, found⟩⟩ := resolveParent_eq_some h
  · exact ⟨[], Nat.zero_le _, rfl⟩
  · rw [beforeLastSlash_absolute absolute below] at found
    have cut : (slash :: (beforeLastSlash path).drop 1).take (parentPathSize - 1) =
        slash :: ((beforeLastSlash path).drop 1).take (parentPathSize - 2) := rfl
    rw [cut, resolvePath, if_pos rfl] at found
    refine ⟨_, ?_, found⟩
    have longer := componentsFrom_length_le []
      (((beforeLastSlash path).drop 1).take (parentPathSize - 2))
      (((beforeLastSlash path).drop 1).drop (parentPathSize - 2))
    rwa [take_append_drop] at longer

/-- The name of the path fits, and its directory's path leads where `resolve_parent` goes. -/
structure Agrees (s : Vfs) (path : Path) (d : Nat) : Prop where
  name_le : (afterLastSlash path).length ≤ vfsMaxName - 1
  dir : s.resolvePath (parentPath path) = some d

lemma components_name (named : afterLastSlash path ≠ [])
    (name_le : (afterLastSlash path).length ≤ vfsMaxName - 1) :
    components (afterLastSlash path) = [afterLastSlash path] :=
  componentsFrom_name (slash_not_mem_afterLastSlash path) (by rwa [length_nil, Nat.zero_add])
    named

lemma Agrees.resolvePath_eq_lookup (agrees : Agrees s path d) (absolute : path.head? = some slash)
    (named : afterLastSlash path ≠ []) :
    s.resolvePath path = s.tree.lookup d (afterLastSlash path) := by
  have dir := agrees.dir
  rw [resolvePath_parentPath s absolute] at dir
  rw [resolvePath_eq s absolute, components_name named agrees.name_le, NameTree.walk_append, dir,
    Option.bind_some, NameTree.walk]
  cases s.tree.lookup d (afterLastSlash path) <;> rfl

lemma Agrees.name_eq {e : Nat} (agrees : Agrees s path d)
    (parent : t.resolveParent path = some (e, name)) : name = afterLastSlash path := by
  obtain ⟨-, -, rfl, -⟩ := resolveParent_eq_some parent
  exact take_of_length_le agrees.name_le

lemma agrees_of_components (parent : s.resolveParent path = some (d, name)) {ds : List Path}
    (names : ∀ cs, s.tree.walk 0 cs = some d → cs = ds)
    (split : dirComponents path ++ components (afterLastSlash path) = ds ++ [name]) :
    Agrees s path d := by
  obtain ⟨absolute, named, -, -⟩ := resolveParent_eq_some parent
  obtain ⟨cs, shorter, walk⟩ := resolveParent_walk parent
  obtain rfl := names cs walk
  have lengths := congrArg length split
  rw [length_append, length_append, length_singleton] at lengths
  have name_le : (afterLastSlash path).length ≤ vfsMaxName - 1 := by
    apply Nat.le_of_not_lt
    intro long
    have several : 1 < (components (afterLastSlash path)).length :=
      componentsFrom_long (slash_not_mem_afterLastSlash path) (Nat.zero_le _)
        (by rwa [length_nil, Nat.zero_add])
    omega
  refine ⟨name_le, ?_⟩
  rw [components_name named name_le] at split
  have sameDir := (append_inj' split rfl).1
  rw [resolvePath_parentPath s absolute, sameDir]
  exact walk

/-- `t` is `s` with a new vnode in slot `i`, linked into its directory if there was room. -/
structure Grown (s t : Vfs) (i d : Nat) (n : VNode) : Prop where
  self : t.vnodes i = n
  dir : t.vnodes d = if (s.vnodes d).children.length < maxChildren then
    { s.vnodes d with children := (s.vnodes d).children ++ [i] } else s.vnodes d
  others : ∀ j, j ≠ i → j ≠ d → t.vnodes j = s.vnodes j

lemma Creates.dir_ne (makes : Creates s path i d name) (inv : Inv s) : d ≠ i := by
  rintro rfl
  have used := inv.resolveParent_used makes.parent
  rw [(allocVnode_spec makes.slot).2] at used
  cases used

lemma grown_link {u : Vfs} {n : VNode} (created : u.vnodes = Function.update s.vnodes i n)
    (other : d ≠ i) : Grown s (u.link d i) i d n := by
  have self : u.vnodes i = n := by rw [created, Function.update_self]
  have dir : u.vnodes d = s.vnodes d := by rw [created, Function.update_of_ne other]
  have others (j : Nat) (isOld : j ≠ i) : u.vnodes j = s.vnodes j := by
    rw [created, Function.update_of_ne isOld]
  unfold link
  rw [dir]
  split
  case isTrue room =>
    refine ⟨?_, ?_, fun j isOld notDir => ?_⟩
    · rw [modifyNode_vnodes, if_neg (Ne.symm other), self]
    · rw [modifyNode_vnodes, if_pos rfl, if_pos room, dir]
    · rw [modifyNode_vnodes, if_neg notDir, others j isOld]
  case isFalse full =>
    refine ⟨self, ?_, fun j isOld _ => others j isOld⟩
    rw [if_neg full, dir]

variable {n : VNode}

section
variable (grown : Grown s t i d n) (inv : Inv s)
include grown inv

lemma Grown.attached (makes : Creates s path i d name) (leaf : n.children = [])
    (room : (s.vnodes d).children.length < maxChildren) : s.tree.Attached t.tree d i := by
  have free := (allocVnode_spec makes.slot).2
  have other := makes.dir_ne inv
  have dir := grown.dir
  rw [if_pos room] at dir
  refine ⟨inv.not_child_of_free free, fun u => ?_, fun u isOld => ?_, fun u => ?_⟩
  · show (t.vnodes u).children = (s.vnodes u).children ++ _
    by_cases isDir : u = d
    · subst isDir
      rw [dir, if_pos rfl]
    · rw [if_neg isDir, append_nil]
      by_cases isNew : u = i
      · rw [isNew, grown.self, leaf, inv.children_of_free free]
      · rw [grown.others u isNew isDir]
  · show (t.vnodes u).name = (s.vnodes u).name
    by_cases isDir : u = d
    · rw [isDir, dir]
    · rw [grown.others u isOld isDir]
  · by_cases isNew : u = i
    · refine .inr ⟨?_, ?_⟩
      · rw [isNew]
        exact inv.children_of_free free
      · rw [isNew]
        exact Ne.symm other
    · refine .inl ?_
      show decide ((t.vnodes u).type = .directory) = decide ((s.vnodes u).type = .directory)
      by_cases isDir : u = d
      · rw [isDir, dir]
      · rw [grown.others u isNew isDir]

lemma Grown.loose_of_full (makes : Creates s path i d name) (leaf : n.children = [])
    (full : ¬ (s.vnodes d).children.length < maxChildren) (u : Nat) :
    i ∉ (t.vnodes u).children := by
  have free := (allocVnode_spec makes.slot).2
  have dir := grown.dir
  rw [if_neg full] at dir
  by_cases isNew : u = i
  · rw [isNew, grown.self, leaf]
    exact not_mem_nil
  · by_cases isDir : u = d
    · rw [isDir, dir]
      exact inv.not_child_of_free free d
    · rw [grown.others u isNew isDir]
      exact inv.not_child_of_free free u

/-- The path leads to the new vnode exactly if there is room in its directory and the path is one
on which `resolve_path` and `resolve_parent` agree. -/
lemma Grown.resolvePath_iff (inv' : Inv t) (makes : Creates s path i d name)
    (leaf : n.children = []) (named : n.name = name) :
    t.resolvePath path = some i ↔
      Agrees s path d ∧ (s.vnodes d).children.length < maxChildren := by
  obtain ⟨absolute, isNamed, -, -⟩ := resolveParent_eq_some makes.parent
  have free := (allocVnode_spec makes.slot).2
  have notRoot : i ≠ 0 := by
    rintro rfl
    rw [inv.rootUsed] at free
    cases free
  have newName : t.tree.name i = name := by
    show (t.vnodes i).name = name
    rw [grown.self, named]
  constructor
  · intro found
    have room : (s.vnodes d).children.length < maxChildren := by
      apply Classical.byContradiction
      intro full
      obtain ⟨u, member⟩ := resolvePath_mem found notRoot
      exact grown.loose_of_full inv makes leaf full u member
    refine ⟨?_, room⟩
    have attached := grown.attached inv makes leaf room
    rw [resolvePath_eq t absolute] at found
    obtain ⟨ds, split, toDir, -⟩ :=
      inv'.rooted.walk_child found (attached.mem_children_self.mpr rfl)
    rw [newName] at split
    -- on the way to the directory the walk does not pass the new vnode
    have avoids : ∀ cs, cs <+: ds → cs ≠ [] → t.tree.walk 0 cs ≠ some i := by
      intro cs isPrefix _ atNew
      have same := inv'.rooted.walk_unique atNew found
      have shorter := isPrefix.length_le
      rw [same, split, length_append, length_singleton] at shorter
      omega
    have before : s.tree.walk 0 ds = some d :=
      NameTree.walk_of_agree (fun _ _ _ => attached.lookup_of_ne) toDir avoids
    exact agrees_of_components makes.parent (fun cs walk => inv.rooted.walk_unique walk before) split
  · intro ⟨agrees, room⟩
    have attached := grown.attached inv makes leaf room
    have absent := makes.absent
    rw [agrees.resolvePath_eq_lookup absolute isNamed] at absent
    have dir := agrees.dir
    rw [resolvePath_parentPath s absolute] at dir
    have agrees' : Agrees t path d := by
      refine ⟨agrees.name_le, ?_⟩
      rw [resolvePath_parentPath t absolute]
      exact attached.walk_of_walk dir
    have isDir : s.tree.isDir d = true := decide_eq_true makes.isDir
    have last := attached.lookup_self isDir
    rw [newName, agrees.name_eq makes.parent] at last
    rw [agrees'.resolvePath_eq_lookup absolute isNamed]
    exact last absent

end

def Listed (s : Vfs) (path : Path) (i : Nat) : Prop :=
  ∃ d entries, s.resolvePath (parentPath path) = some d ∧ i ∈ (s.vnodes d).children ∧
    s.vfsReaddir (parentPath path) maxChildren = some entries ∧ s.statOf i ∈ entries

lemma Grown.listed (grown : Grown s t i d n) (inv : Inv s) (inv' : Inv t)
    (makes : Creates s path i d name) (leaf : n.children = []) (agrees : Agrees s path d)
    (room : (s.vnodes d).children.length < maxChildren) : Listed t path i := by
  obtain ⟨absolute, -, -, -⟩ := resolveParent_eq_some makes.parent
  have attached := grown.attached inv makes leaf room
  have member : i ∈ (t.vnodes d).children := attached.mem_children_self.mpr rfl
  have dir := agrees.dir
  rw [resolvePath_parentPath s absolute] at dir
  have dir' : t.resolvePath (parentPath path) = some d := by
    rw [resolvePath_parentPath t absolute]
    exact attached.walk_of_walk dir
  refine ⟨d, (t.vnodes d).children.map t.statOf, dir', member, ?_, mem_map_of_mem member⟩
  have isDir := (inv'.child d i member).isDir
  have all : (t.vnodes d).children.take (maxChildren : Int).toNat = (t.vnodes d).children :=
    take_of_length_le (inv'.length_le d)
  rw [vfsReaddir, dir']
  simp only [isDir, ne_eq, not_true_eq_false, if_false, all]

/-- The condition under which a new vnode is found under its path: its name fits, its directory's
path leads to the directory that `resolve_parent` returns, and there is room. -/
def CreatesSafely (s : Vfs) (path : Path) : Prop :=
  ∃ d name, s.resolveParent path = some (d, name) ∧ Agrees s path d ∧
    (s.vnodes d).children.length < maxChildren

lemma Grown.found_iff (grown : Grown s t i d n) (inv : Inv s) (inv' : Inv t)
    (makes : Creates s path i d name) (leaf : n.children = []) (named : n.name = name) :
    (t.resolvePath path = some i ∧ Listed t path i) ↔ CreatesSafely s path := by
  constructor
  · intro ⟨found, _⟩
    have ⟨agrees, room⟩ := (grown.resolvePath_iff inv inv' makes leaf named).mp found
    exact ⟨d, name, makes.parent, agrees, room⟩
  · intro ⟨e, name', parent, agrees, room⟩
    have same := makes.parent.symm.trans parent
    cases same
    exact ⟨(grown.resolvePath_iff inv inv' makes leaf named).mpr ⟨agrees, room⟩,
      grown.listed inv inv' makes leaf agrees room⟩

/-- After a successful call the path leads to the vnode that was opened or created, and the
directory lists a new one. -/
structure FoundAfterwards (s t : Vfs) (path : Path) (i : Nat) : Prop where
  found : t.resolvePath path = some i
  listed : s.resolvePath path = none → Listed t path i

theorem created_found_iff {s : Vfs} (h : Reachable VfsBooted VfsStep s) (path : Path) :
    (∀ block f t, s.Allows (.open path true block) → s.vfsOpen path true block = (some f, t) →
      (FoundAfterwards s t path (t.fds f).vnode ↔
        (s.resolvePath path = none → CreatesSafely s path))) ∧
    (∀ i t, s.allocVnode = some i → s.vfsMkdir path = (true, t) →
      (FoundAfterwards s t path i ↔ CreatesSafely s path)) := by
  have inv := inv_of_reachable h
  refine ⟨fun block f t allowed opened => ?_, fun i t slot made => ?_⟩
  · rcases vfsOpen_cases s path true block with failed | ⟨i, u, fd, node, -, -, result⟩
    · rw [failed] at opened
      cases opened
    · rw [result] at opened
      cases opened
      have vnode : ((u.modifyFd f fun _ => ⟨i, 0, true⟩).fds f).vnode = i := by
        rw [modifyFd_fds, if_pos rfl]
      rw [vnode]
      rcases openNode_cases s path true block with same | ⟨j, d, name, -, makes, new⟩
      · -- the vnode was there already
        rw [same] at node
        obtain ⟨there, rfl⟩ := Prod.mk.inj node
        have exists_ : s.resolvePath path ≠ none := by
          rw [there]
          nofun
        exact ⟨fun _ absent => absurd absent exists_,
          fun _ => ⟨there, fun absent => absurd absent exists_⟩⟩
      · rw [new] at node
        obtain ⟨isNew, rfl⟩ := Prod.mk.inj node
        cases isNew
        have inv' := inv.openNode path true allowed
        rw [new] at inv'
        have grown := grown_link (createFile_vnodes s i d name block) (makes.dir_ne inv)
        have iff := grown.found_iff inv inv' makes rfl rfl
        constructor
        · intro ⟨found, listed⟩ absent
          exact iff.mp ⟨found, listed absent⟩
        · intro safely
          have ⟨found, listed⟩ := iff.mpr (safely makes.absent)
          exact ⟨found, fun _ => listed⟩
  · rcases vfsMkdir_cases s path with failed | ⟨j, d, name, makes, new⟩
    · rw [failed] at made
      cases made
    · rw [new] at made
      cases made
      obtain rfl := Option.mem_unique slot makes.slot
      have inv' := inv.vfsMkdir path
      rw [new] at inv'
      have grown := grown_link (createDirectory_vnodes s i d name) (makes.dir_ne inv)
      have iff := grown.found_iff inv inv' makes rfl rfl
      constructor
      · intro ⟨found, listed⟩
        exact iff.mp ⟨found, listed makes.absent⟩
      · intro safely
        have ⟨found, listed⟩ := iff.mpr safely
        exact ⟨found, fun _ => listed⟩

theorem created_found_iff_one_file :
    FoundAfterwards (init fun _ => 0) oneFile [slash, 0x61#8] (oneFile.fds 0).vnode := by
  have booted : Reachable VfsBooted VfsStep (init fun _ => 0) := Reachable.start ⟨_, rfl⟩
  have opened : (init fun _ => 0).vfsOpen [slash, 0x61#8] true 4096 = (some 0, oneFile) :=
    Prod.ext (by decide) rfl
  refine ((created_found_iff booted _).1 4096 0 oneFile (Or.inr nofun) opened).mpr fun _ => ?_
  exact ⟨0, [0x61#8], by decide, ⟨by decide, by decide⟩, by decide⟩

/-- A name of 64 characters: the file is created under its first 63 and not found. -/
theorem long_name_is_not_found :
    let s := init fun _ => 0
    let path := slash :: replicate 64 0x61#8
    Reachable VfsBooted VfsStep s ∧ (s.vfsOpen path true 4096).1 = some 0 ∧
      (s.vfsOpen path true 4096).2.resolvePath path = none := by
  refine ⟨Reachable.start ⟨_, rfl⟩, ?_, ?_⟩
  · decide
  · decide

end Vfs

end MicroOs.Fs
