import MicroOs.Fs.Vfs

/-!
# What the calls of the file system do

For each call its outcomes, with everything that has been checked on the way, and the fields of the
tables after the edits it is made of.
-/

namespace MicroOs.Fs
open Lib List
open Function (update update_apply)

namespace Vfs

variable {s t : Vfs} {i d : Nat} {path name : Path} {block : Nat}

lemma allocVnode_spec (h : s.allocVnode = some i) :
    i < vfsMaxFiles ∧ (s.vnodes i).used = false := by
  have free := find?_some h
  exact ⟨mem_range.mp (mem_of_find?_eq_some h), by simpa using free⟩

lemma allocFd_spec {fd : Nat} (h : s.allocFd = some fd) :
    fd < vfsMaxFd ∧ (s.fds fd).used = false := by
  have free := find?_some h
  exact ⟨mem_range.mp (mem_of_find?_eq_some h), by simpa using free⟩

lemma openFd_spec {fd : Int} {f : Nat} (h : s.openFd fd = some f) :
    fd = f ∧ f < vfsMaxFd ∧ (s.fds f).used = true := by
  unfold openFd at h
  split at h
  case isTrue => cases h
  case isFalse valid =>
    obtain rfl := Option.some.inj h
    have ⟨nonneg, small, used⟩ : ¬ fd < 0 ∧ ¬ (vfsMaxFd : Int) ≤ fd ∧
        (s.fds fd.toNat).used = true := by simpa using valid
    exact ⟨by omega, by omega, used⟩

lemma openFd_ofNat {f : Nat} (small : f < vfsMaxFd) (used : (s.fds f).used = true) :
    s.openFd (f : Int) = some f := by
  have valid : ¬ ((f : Int) < 0 ∨ (vfsMaxFd : Int) ≤ f ∨ (s.fds (f : Int).toNat).used = false) := by
    rw [Int.toNat_natCast, used]
    simp only [Bool.true_eq_false, or_false]
    omega
  rw [openFd, if_neg valid, Int.toNat_natCast]

lemma resolvePath_eq_some {path : Path} (h : s.resolvePath path = some i) :
    ∃ rest, path = slash :: rest ∧ s.tree.walk 0 (components rest) = some i := by
  cases path with
  | nil => cases h
  | cons c rest =>
    rw [resolvePath] at h
    split at h
    case isTrue isSlash => exact ⟨rest, by rw [isSlash], h⟩
    case isFalse => cases h

lemma resolveParent_eq_some (h : s.resolveParent path = some (d, name)) :
    path.head? = some slash ∧ afterLastSlash path ≠ [] ∧
      name = (afterLastSlash path).take (vfsMaxName - 1) ∧
      (beforeLastSlash path = [] ∧ d = 0 ∨ beforeLastSlash path ≠ [] ∧
        s.resolvePath ((beforeLastSlash path).take (parentPathSize - 1)) = some d) := by
  unfold resolveParent at h
  split at h
  case isTrue => cases h
  case isFalse absolute =>
    split at h
    case isTrue => cases h
    case isFalse named =>
      refine ⟨not_not.mp absolute, named, ?_⟩
      split at h
      case isTrue top =>
        cases h
        exact ⟨rfl, .inl ⟨top, rfl⟩⟩
      case isFalse below =>
        obtain ⟨d', found, same⟩ := Option.map_eq_some_iff.mp h
        cases same
        exact ⟨rfl, .inr ⟨below, found⟩⟩

lemma walk_mem {cs : List Path} (h : s.tree.walk 0 cs = some i) (notRoot : i ≠ 0) :
    ∃ d, i ∈ (s.vnodes d).children := by
  rcases eq_nil_or_concat' cs with rfl | ⟨cs, c, rfl⟩
  · exact absurd (Option.some.inj h).symm notRoot
  · obtain ⟨d, -, found⟩ := NameTree.walk_concat_eq_some.mp h
    exact ⟨d, (NameTree.lookup_eq_some found).2.1⟩

lemma resolvePath_mem (h : s.resolvePath path = some i) (notRoot : i ≠ 0) :
    ∃ d, i ∈ (s.vnodes d).children := by
  obtain ⟨rest, -, walk⟩ := resolvePath_eq_some h
  exact walk_mem walk notRoot

/-- A path that does not exist and a directory and a slot for it. -/
structure Creates (s : Vfs) (path : Path) (i d : Nat) (name : Path) : Prop where
  absent : s.resolvePath path = none
  parent : s.resolveParent path = some (d, name)
  isDir : (s.vnodes d).type = .directory
  slot : s.allocVnode = some i

section
variable (s) (path)

lemma openNode_cases (create : Bool) (block : Nat) :
    s.openNode path create block = (s.resolvePath path, s) ∨
      ∃ i d name, create = true ∧ Creates s path i d name ∧
        s.openNode path create block = (some i, (s.createFile i d name block).link d i) := by
  unfold openNode
  cases absent : s.resolvePath path with
  | some i => exact .inl rfl
  | none =>
    cases create with
    | false => exact .inl rfl
    | true =>
      cases parent : s.resolveParent path with
      | none => exact .inl rfl
      | some target =>
        obtain ⟨d, name⟩ := target
        by_cases isDir : (s.vnodes d).type = .directory
        · cases slot : s.allocVnode with
          | none => exact .inl (by simp [isDir])
          | some i =>
            exact .inr ⟨i, d, name, rfl, ⟨absent, parent, isDir, slot⟩, by simp [isDir]⟩
        · exact .inl (by simp [isDir])

lemma vfsOpen_cases (create : Bool) (block : Nat) :
    s.vfsOpen path create block = (none, (s.openNode path create block).2) ∨
      ∃ i t fd, s.openNode path create block = (some i, t) ∧ (t.vnodes i).type = .file ∧
        t.allocFd = some fd ∧
        s.vfsOpen path create block = (some fd, t.modifyFd fd fun _ => ⟨i, 0, true⟩) := by
  unfold vfsOpen
  obtain ⟨found, t⟩ := s.openNode path create block
  cases found with
  | none => exact .inl rfl
  | some i =>
    cases type : (t.vnodes i).type with
    | directory => exact .inl (by simp [type])
    | file =>
      cases slot : t.allocFd with
      | none => exact .inl (by simp [type, slot])
      | some fd => exact .inr ⟨i, t, fd, rfl, type, slot, by simp [type, slot]⟩

lemma vfsMkdir_cases :
    s.vfsMkdir path = (false, s) ∨
      ∃ i d name, Creates s path i d name ∧
        s.vfsMkdir path = (true, (s.createDirectory i d name).link d i) := by
  unfold vfsMkdir
  cases absent : s.resolvePath path with
  | some i => exact .inl rfl
  | none =>
    cases parent : s.resolveParent path with
    | none => exact .inl rfl
    | some target =>
      obtain ⟨d, name⟩ := target
      by_cases isDir : (s.vnodes d).type = .directory
      · cases slot : s.allocVnode with
        | none => exact .inl (by simp [isDir])
        | some i => exact .inr ⟨i, d, name, ⟨absent, parent, isDir, slot⟩, by simp [isDir]⟩
      · exact .inl (by simp [isDir])

lemma vfsUnlink_cases :
    s.vfsUnlink path = (false, s) ∨
      ∃ i, s.resolvePath path = some i ∧ i ≠ 0 ∧
        ((s.vnodes i).type = .directory → (s.vnodes i).children = []) ∧
        s.vfsUnlink path = (true, (s.removeChild (s.vnodes i).parent i).release i) := by
  unfold vfsUnlink
  cases found : s.resolvePath path with
  | none => exact .inl rfl
  | some i =>
    by_cases isRoot : i = 0
    · exact .inl (by simp [isRoot])
    · by_cases full : (s.vnodes i).type = .directory ∧ 0 < (s.vnodes i).children.length
      · exact .inl (by simp [isRoot, full])
      · refine .inr ⟨i, rfl, isRoot, fun isDir => ?_, by simp only [isRoot, full, if_false]⟩
        apply eq_nil_of_length_eq_zero
        exact Nat.eq_zero_of_not_pos fun pos => full ⟨isDir, pos⟩

/-- A vnode, and a new path and directory for it. -/
structure Renames (s : Vfs) (oldPath newPath : Path) (i d : Nat) (name : Path) : Prop where
  found : s.resolvePath oldPath = some i
  notRoot : i ≠ 0
  absent : s.resolvePath newPath = none
  parent : s.resolveParent newPath = some (d, name)
  isDir : (s.vnodes d).type = .directory
  room : some d ≠ (s.vnodes i).parent → (s.vnodes d).children.length < maxChildren

lemma vfsRename_cases (oldPath newPath : Path) :
    s.vfsRename oldPath newPath = (false, s) ∨
      ∃ i d name, Renames s oldPath newPath i d name ∧
        s.vfsRename oldPath newPath = (true, s.move i d name) := by
  unfold vfsRename
  cases found : s.resolvePath oldPath with
  | none => exact .inl rfl
  | some i =>
    by_cases isRoot : i = 0
    · exact .inl (by simp [isRoot])
    cases absent : s.resolvePath newPath with
    | some j => exact .inl (by simp [isRoot])
    | none =>
      cases parent : s.resolveParent newPath with
      | none => exact .inl (by simp [isRoot])
      | some target =>
        obtain ⟨d, name⟩ := target
        by_cases isDir : (s.vnodes d).type = .directory
        · by_cases full : some d ≠ (s.vnodes i).parent ∧
              maxChildren ≤ (s.vnodes d).children.length
          · refine .inl ?_
            simp only [isRoot, isDir, if_false, ne_eq, not_true_eq_false]
            rw [if_pos full]
          · refine .inr ⟨i, d, name, ⟨found, isRoot, absent, parent, isDir, fun other => ?_⟩, ?_⟩
            · exact Nat.lt_of_not_le fun le => full ⟨other, le⟩
            · simp only [isRoot, isDir, full, if_false, ne_eq, not_true_eq_false]
        · exact .inl (by simp [isRoot, isDir])

lemma modifyNode_vnodes (i : Nat) (f : VNode → VNode) (j : Nat) :
    (s.modifyNode i f).vnodes j = if j = i then f (s.vnodes i) else s.vnodes j :=
  update_apply ..

lemma modifyFd_fds (fd : Nat) (f : FileDesc → FileDesc) (j : Nat) :
    (s.modifyFd fd f).fds j = if j = fd then f (s.fds fd) else s.fds j :=
  update_apply ..

structure Keeps (n m : VNode) : Prop where
  used : m.used = n.used
  type : m.type = n.type
  data : m.data = n.data
  capacity : m.capacity = n.capacity
  longer : n.size ≤ m.size
  fits : n.size ≤ n.capacity → m.size ≤ n.capacity

lemma Keeps.refl (n : VNode) : Keeps n n :=
  ⟨rfl, rfl, rfl, rfl, Nat.le_refl _, id⟩

lemma Keeps.links (n : VNode) (name : Path) (parent : Option Nat) (children : List Nat) :
    Keeps n { n with name, parent, children } :=
  ⟨rfl, rfl, rfl, rfl, Nat.le_refl _, id⟩

lemma modifyNode_children (d : Nat) (f : VNode → List Nat) (j : Nat) :
    (s.modifyNode d fun dir => { dir with children := f dir }).vnodes j =
      { s.vnodes j with children := if j = d then f (s.vnodes d) else (s.vnodes j).children } := by
  rw [modifyNode_vnodes]
  split
  case isTrue same => rw [same]
  case isFalse => rfl

section
variable (parent : Option Nat)

lemma removeChild_vnodes (i j : Nat) :
    (s.removeChild parent i).vnodes j = { s.vnodes j with
      children :=
        if parent = some j then (s.vnodes j).children.erase i else (s.vnodes j).children } := by
  cases parent with
  | none => rfl
  | some d =>
    rw [removeChild, modifyNode_children]
    by_cases same : j = d
    · rw [if_pos same, if_pos (congrArg some same.symm), same]
    · rw [if_neg same, if_neg fun h => same (Option.some.inj h).symm]

lemma removeChild_children (i j : Nat) :
    ((s.removeChild parent i).vnodes j).children =
      if parent = some j then (s.vnodes j).children.erase i else (s.vnodes j).children := by
  rw [removeChild_vnodes]

lemma removeChild_keeps (i j : Nat) : Keeps (s.vnodes j) ((s.removeChild parent i).vnodes j) := by
  rw [removeChild_vnodes]
  exact .links ..

lemma removeChild_parent (i j : Nat) :
    ((s.removeChild parent i).vnodes j).parent = (s.vnodes j).parent := by
  rw [removeChild_vnodes]

lemma removeChild_name (i j : Nat) :
    ((s.removeChild parent i).vnodes j).name = (s.vnodes j).name := by
  rw [removeChild_vnodes]

lemma removeChild_rest (i : Nat) :
    (s.removeChild parent i).fds = s.fds ∧ (s.removeChild parent i).log = s.log ∧
      (s.removeChild parent i).mem = s.mem := by
  cases parent <;> exact ⟨rfl, rfl, rfl⟩

lemma removeChild_sublist (i j : Nat) :
    ((s.removeChild parent i).vnodes j).children.Sublist (s.vnodes j).children := by
  rw [removeChild_children]
  split
  · exact erase_sublist
  · exact Sublist.refl _

end

lemma mem_removeChild {s : Vfs} {parent : Option Nat} {c j : Nat}
    (member : c ∈ ((s.removeChild parent i).vnodes j).children) : c ∈ (s.vnodes j).children :=
  (removeChild_sublist s parent i j).subset member

lemma move_vnodes (i d : Nat) (name : Path) (j : Nat) :
    (s.move i d name).vnodes j = { s.vnodes j with
      name := if j = i then name else (s.vnodes j).name
      parent := if j = i then some d else (s.vnodes j).parent
      children := ((s.removeChild (s.vnodes i).parent i).vnodes j).children ++
        if j = d then [i] else [] } := by
  have attached (j : Nat) : ((s.removeChild (s.vnodes i).parent i).modifyNode d fun dir =>
      { dir with children := dir.children ++ [i] }).vnodes j = { s.vnodes j with
        children := ((s.removeChild (s.vnodes i).parent i).vnodes j).children ++
          if j = d then [i] else [] } := by
    rw [modifyNode_children _ d fun dir => dir.children ++ [i]]
    by_cases isDir : j = d
    · simp [isDir, removeChild_vnodes]
    · simp [isDir, removeChild_vnodes]
  rw [move, modifyNode_vnodes, attached, attached]
  split
  case isTrue same => rw [same]
  case isFalse => rfl

lemma move_keeps (i d : Nat) (name : Path) (j : Nat) :
    Keeps (s.vnodes j) ((s.move i d name).vnodes j) := by
  rw [move_vnodes]
  exact .links ..

lemma move_parent (i d : Nat) (name : Path) (j : Nat) :
    ((s.move i d name).vnodes j).parent = if j = i then some d else (s.vnodes j).parent := by
  rw [move_vnodes]

lemma move_name (i d : Nat) (name : Path) (j : Nat) :
    ((s.move i d name).vnodes j).name = if j = i then name else (s.vnodes j).name := by
  rw [move_vnodes]

lemma move_children (i d : Nat) (name : Path) (j : Nat) :
    ((s.move i d name).vnodes j).children =
      ((s.removeChild (s.vnodes i).parent i).vnodes j).children ++ if j = d then [i] else [] := by
  rw [move_vnodes]

lemma move_rest (i d : Nat) (name : Path) :
    (s.move i d name).fds = s.fds ∧ (s.move i d name).log = s.log ∧
      (s.move i d name).mem = s.mem :=
  removeChild_rest s _ i

lemma createFile_vnodes (i d : Nat) (name : Path) (block : Nat) :
    (s.createFile i d name block).vnodes = update s.vnodes i (newFile d name block) := rfl

lemma createDirectory_vnodes (i d : Nat) (name : Path) :
    (s.createDirectory i d name).vnodes = update s.vnodes i (newDirectory d name) := rfl

lemma writeCount_le {vn : VNode} {offset count : Nat} (inside : offset ≤ vn.capacity) :
    offset + writeCount vn offset count ≤ vn.capacity := by
  unfold writeCount
  split
  · split <;> omega
  · omega

lemma link_fds (d i : Nat) : (s.link d i).fds = s.fds := by
  unfold link
  split <;> rfl

lemma link_log (d i : Nat) : (s.link d i).log = s.log := by
  unfold link
  split <;> rfl

lemma openNode_fds (create : Bool) (block : Nat) :
    (s.openNode path create block).2.fds = s.fds := by
  rcases openNode_cases s path create block with same | ⟨i, d, name, -, -, result⟩
  · rw [same]
  · rw [result]
    exact link_fds ..

lemma vfsOpen_log (create : Bool) (block : Nat) :
    (s.vfsOpen path create block).2.log = s.log ∨
      block ≠ 0 ∧ (s.vfsOpen path create block).2.log = .alloc block :: s.log := by
  have sameLog : (s.vfsOpen path create block).2.log = (s.openNode path create block).2.log := by
    rcases vfsOpen_cases s path create block with same | ⟨i, t, fd, node, -, -, result⟩
    · rw [same]
    · rw [result, node]
      rfl
  rw [sameLog]
  rcases openNode_cases s path create block with same | ⟨i, d, name, -, -, result⟩
  · rw [same]
    exact .inl rfl
  · rw [result, link_log]
    by_cases isNull : block = 0
    · exact .inl (if_pos isNull)
    · exact .inr ⟨isNull, if_neg isNull⟩

structure Opened (s : Vfs) (f : Nat) : Prop where
  used : (s.fds f).used = true
  hasData : (s.vnodes (s.fds f).vnode).data ≠ 0

def readCount (s : Vfs) (f count : Nat) : Nat :=
  min count ((s.vnodes (s.fds f).vnode).size - (s.fds f).offset)

lemma vfsRead_opened {s : Vfs} {f : Nat} (small : f < vfsMaxFd) (opened : Opened s f) (count : Nat) :
    s.vfsRead f count =
      (some (window s.mem ((s.vnodes (s.fds f).vnode).data + (s.fds f).offset)
          (s.readCount f count)),
        s.modifyFd f fun desc => { desc with offset := (s.fds f).offset + s.readCount f count }) := by
  have same : (if (if (s.fds f).offset < (s.vnodes (s.fds f).vnode).size then
        (s.vnodes (s.fds f).vnode).size - (s.fds f).offset else 0) < count then
      (if (s.fds f).offset < (s.vnodes (s.fds f).vnode).size then
        (s.vnodes (s.fds f).vnode).size - (s.fds f).offset else 0) else count) =
      s.readCount f count := by
    unfold readCount
    split <;> split <;> omega
  simp only [vfsRead, openFd_ofNat small opened.used, opened.hasData, if_false, same]

section
variable (fd : Int)

lemma vfsRead_cases (count : Nat) :
    (s.vfsRead fd count = (none, s) ∨ s.vfsRead fd count = (some [], s)) ∨
      ∃ f : Nat, fd = f ∧ f < vfsMaxFd ∧ Opened s f := by
  cases found : s.openFd fd with
  | none => exact .inl (.inl (by simp only [vfsRead, found]))
  | some f =>
    obtain ⟨isFd, small, used⟩ := openFd_spec found
    by_cases isNull : (s.vnodes (s.fds f).vnode).data = 0
    · exact .inl (.inr (by simp only [vfsRead, found, isNull, if_true]))
    · exact .inr ⟨f, isFd, small, used, isNull⟩

/-- The state after `vfs_write` has stored `k` bytes. -/
def stored (s : Vfs) (f : Nat) (buf : Nat → Byte) (k : Nat) : Vfs :=
  let i := (s.fds f).vnode
  let offset := (s.fds f).offset
  let copy := { s with mem := copied s.mem ((s.vnodes i).data + offset) buf k }
  let moved := copy.modifyFd f fun desc => { desc with offset := offset + k }
  moved.modifyNode i fun vn =>
    { vn with size := if vn.size < offset + k then offset + k else vn.size }

lemma stored_vnodes (f : Nat) (buf : Nat → Byte) (k j : Nat) :
    (s.stored f buf k).vnodes j = { s.vnodes j with
      size := if j = (s.fds f).vnode then max (s.vnodes j).size ((s.fds f).offset + k)
        else (s.vnodes j).size } := by
  have larger (size offset : Nat) : (if size < offset then offset else size) = max size offset := by
    split <;> omega
  rw [stored, modifyNode_vnodes]
  split
  case isTrue same => rw [same, larger]; rfl
  case isFalse => rfl

lemma stored_fds (f : Nat) (buf : Nat → Byte) (k : Nat) :
    (s.stored f buf k).fds =
      update s.fds f { s.fds f with offset := (s.fds f).offset + k } := rfl

lemma vfsWrite_cases (buf : Nat → Byte) (count : Nat) :
    (s.vfsWrite fd buf count).2 = s ∨ ∃ f : Nat, fd = f ∧ f < vfsMaxFd ∧ Opened s f ∧
      s.vfsWrite fd buf count =
        (some (writeCount (s.vnodes (s.fds f).vnode) (s.fds f).offset count),
          s.stored f buf (writeCount (s.vnodes (s.fds f).vnode) (s.fds f).offset count)) := by
  cases found : s.openFd fd with
  | none => exact .inl (by simp only [vfsWrite, found])
  | some f =>
    obtain ⟨isFd, small, used⟩ := openFd_spec found
    by_cases isNull : (s.vnodes (s.fds f).vnode).data = 0
    · exact .inl (by simp only [vfsWrite, found, isNull, if_true])
    · by_cases nothing : writeCount (s.vnodes (s.fds f).vnode) (s.fds f).offset count = 0
      · exact .inl (by simp only [vfsWrite, found, isNull, nothing, if_true, if_false])
      · refine .inr ⟨f, isFd, small, ⟨used, isNull⟩, ?_⟩
        simp only [vfsWrite, found, isNull, nothing, if_false]
        rfl

lemma update_offset (f : Nat) (offset : Nat) (g : Nat) :
    (update s.fds f { s.fds f with offset } g).used = (s.fds g).used ∧
      (update s.fds f { s.fds f with offset } g).vnode = (s.fds g).vnode := by
  rw [update_apply]
  split
  case isTrue same => rw [same]; exact ⟨rfl, rfl⟩
  case isFalse => exact ⟨rfl, rfl⟩

lemma vfsRead_fds (count f : Nat) :
    ((s.vfsRead fd count).2.fds f).used = (s.fds f).used ∧
      ((s.vfsRead fd count).2.fds f).vnode = (s.fds f).vnode := by
  rcases vfsRead_cases s fd count with (same | same) | ⟨g, rfl, small, opened⟩
  · rw [same]
    exact ⟨rfl, rfl⟩
  · rw [same]
    exact ⟨rfl, rfl⟩
  · rw [vfsRead_opened small opened]
    exact update_offset ..

lemma vfsWrite_fds (buf : Nat → Byte) (count f : Nat) :
    ((s.vfsWrite fd buf count).2.fds f).used = (s.fds f).used ∧
      ((s.vfsWrite fd buf count).2.fds f).vnode = (s.fds f).vnode := by
  rcases vfsWrite_cases s fd buf count with same | ⟨g, -, -, -, result⟩
  · rw [same]
    exact ⟨rfl, rfl⟩
  · rw [result]
    exact update_offset ..

lemma vfsClose_vnodes : (s.vfsClose fd).2.vnodes = s.vnodes := by
  unfold vfsClose
  split <;> rfl

lemma vfsRead_vnodes (count : Nat) : (s.vfsRead fd count).2.vnodes = s.vnodes := by
  rcases vfsRead_cases s fd count with (same | same) | ⟨g, rfl, small, opened⟩
  · rw [same]
  · rw [same]
  · rw [vfsRead_opened small opened]
    rfl

lemma vfsWrite_vnodes (buf : Nat → Byte) (count j : Nat) :
    ∃ size, (s.vfsWrite fd buf count).2.vnodes j = { s.vnodes j with size } := by
  rcases vfsWrite_cases s fd buf count with same | ⟨f, -, -, -, result⟩
  · rw [same]
    exact ⟨_, rfl⟩
  · rw [result, stored_vnodes]
    exact ⟨_, rfl⟩

end

lemma vfsMkdir_fds : (s.vfsMkdir path).2.fds = s.fds := by
  rcases vfsMkdir_cases s path with same | ⟨i, d, name, -, result⟩
  · rw [same]
  · rw [result, link_fds]
    rfl

lemma vfsRename_fds (oldPath newPath : Path) : (s.vfsRename oldPath newPath).2.fds = s.fds := by
  rcases vfsRename_cases s oldPath newPath with same | ⟨i, d, name, -, result⟩
  · rw [same]
  · rw [result, (move_rest ..).1]

lemma vfsUnlink_fds (f : Nat) :
    (s.vfsUnlink path).2.fds f = s.fds f ∨
      s.resolvePath path = some (s.fds f).vnode ∧
        (s.vfsUnlink path).2.fds f = { s.fds f with used := false } := by
  rcases vfsUnlink_cases s path with same | ⟨i, found, -, -, result⟩
  · rw [same]
    exact .inl rfl
  · rw [result, release, (removeChild_rest ..).1]
    by_cases closes : f < vfsMaxFd ∧ (s.fds f).used = true ∧ (s.fds f).vnode = i
    · refine .inr ⟨found.trans (congrArg some closes.2.2.symm), if_pos closes⟩
    · exact .inl (if_neg closes)

end

def Returns (s : Vfs) (op : Op) (f : Nat) : Prop :=
  ∃ path create block, op = .open path create block ∧ (s.vfsOpen path create block).1 = some f

/-- What a call does to a descriptor: it keeps its file, or the call returns it after it was free, or
the call closes it. -/
lemma step_fd {op : Op} (step : VfsStep s op t) (f : Nat) :
    ((t.fds f).used = (s.fds f).used ∧ (t.fds f).vnode = (s.fds f).vnode) ∨
      (Returns s op f ∧ (s.fds f).used = false) ∨
      ((t.fds f).used = false ∧ (op = .close f ∨
        ∃ path, op = .unlink path ∧ s.resolvePath path = some (s.fds f).vnode)) := by
  obtain ⟨-, rfl⟩ := step
  cases op with
  | «open» path create block =>
    have before := openNode_fds s path create block
    rcases vfsOpen_cases s path create block with same | ⟨i, u, fd, node, -, slot, result⟩
    · rw [after, same, before]
      exact .inl ⟨rfl, rfl⟩
    · rw [node] at before
      by_cases isNew : f = fd
      · have free := (allocFd_spec slot).2
        rw [before, ← isNew] at free
        exact .inr (.inl ⟨⟨path, create, block, rfl, by rw [result, isNew]⟩, free⟩)
      · rw [after, result, modifyFd_fds, if_neg isNew, before]
        exact .inl ⟨rfl, rfl⟩
  | close fd =>
    simp only [after, vfsClose]
    split
    case h_1 => exact .inl ⟨rfl, rfl⟩
    case h_2 g found =>
      rw [modifyFd_fds]
      split
      case isTrue isClosed =>
        exact .inr (.inr ⟨rfl, .inl (by rw [(openFd_spec found).1, isClosed])⟩)
      case isFalse => exact .inl ⟨rfl, rfl⟩
  | read fd count => exact .inl (vfsRead_fds s fd count f)
  | write fd buf count => exact .inl (vfsWrite_fds s fd buf count f)
  | mkdir path =>
    rw [after, vfsMkdir_fds]
    exact .inl ⟨rfl, rfl⟩
  | unlink path =>
    rcases vfsUnlink_fds s path f with same | ⟨found, closed⟩
    · rw [after, same]
      exact .inl ⟨rfl, rfl⟩
    · rw [after, closed]
      exact .inr (.inr ⟨rfl, .inr ⟨path, rfl, found⟩⟩)
  | rename oldPath newPath =>
    rw [after, vfsRename_fds]
    exact .inl ⟨rfl, rfl⟩
  | stat _ | readdir _ _ | elsewhere _ => exact .inl ⟨rfl, rfl⟩

/-- A descriptor in use after a call is the one that the call returned, or it was in use before and
has its vnode still. -/
lemma step_fds {op : Op} (step : VfsStep s op t) {f : Nat} (used : (t.fds f).used = true) :
    Returns s op f ∨ (s.fds f).used = true ∧ (t.fds f).vnode = (s.fds f).vnode := by
  rcases step_fd step f with ⟨sameUsed, sameVnode⟩ | ⟨returns, -⟩ | ⟨closed, -⟩
  · exact .inr ⟨sameUsed.symm.trans used, sameVnode⟩
  · exact .inl returns
  · rw [closed] at used
    cases used

end Vfs

end MicroOs.Fs
