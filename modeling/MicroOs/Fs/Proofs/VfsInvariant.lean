import MicroOs.Fs.Proofs.VfsCalls

/-!
# The invariant of the file system

What the tables of vnodes and descriptors and the heap blocks have to do with each other in every
reachable state, whatever the arguments of the calls: each edit of the tables with the invariant,
then each call.
-/

namespace MicroOs.Fs
open Lib List
open Function (update update_apply update_of_ne update_self)

variable {fds' : Nat → FileDesc} {log' : List (AllocEvent Nat)} {n : VNode} {op : Op}
  {vnodes' : Nat → VNode}

namespace Vfs

variable {s t : Vfs} {i d : Nat} {path name : Path} {block : Nat}

structure NodeOk (n : VNode) : Prop where
  free : n.used = false → n.data = 0
  directory : n.type = .directory → n.data = 0
  size_le : n.size ≤ n.capacity
  capacity_le : n.capacity ≤ vfsMaxData
  capacity : n.used = true → n.capacity = if n.data = 0 then 0 else vfsMaxData

/-- `c` is in use and has its directory `d` as its parent. -/
structure Child (vnodes : Nat → VNode) (d c : Nat) : Prop where
  lt : c < vfsMaxFiles
  used : (vnodes c).used = true
  parent : (vnodes c).parent = some d
  dirUsed : (vnodes d).used = true
  isDir : (vnodes d).type = .directory

/-- The descriptor refers to a file that is in use, with a position in it. -/
structure FdOk (vnodes : Nat → VNode) (fd : FileDesc) : Prop where
  lt : fd.vnode < vfsMaxFiles
  used : (vnodes fd.vnode).used = true
  isFile : (vnodes fd.vnode).type = .file
  offset_le : fd.offset ≤ (vnodes fd.vnode).size

structure TablesOk (vnodes : Nat → VNode) (fds : Nat → FileDesc) (log : List (AllocEvent Nat)) :
    Prop where
  rootUsed : (vnodes 0).used = true
  rootDir : (vnodes 0).type = .directory
  rootTop : (vnodes 0).parent = none
  node : ∀ i, NodeOk (vnodes i)
  child : ∀ d c, c ∈ (vnodes d).children → Child vnodes d c
  nodup : ∀ d, (vnodes d).children.Nodup
  length_le : ∀ d, (vnodes d).children.length ≤ maxChildren
  fd : ∀ f, (fds f).used = true → FdOk vnodes (fds f)
  fd_lt : ∀ f, (fds f).used = true → f < vfsMaxFd
  owns : Owns (fun i => (vnodes i).data) 0 log
  apart : ∀ i j, i ≠ j → (vnodes i).data ≠ 0 → (vnodes j).data ≠ 0 →
    Apart (vnodes i).data (vnodes j).data

abbrev Inv (s : Vfs) : Prop := TablesOk s.vnodes s.fds s.log

lemma Apart.symm {a b : Nat} (h : Apart a b) : Apart b a := Or.symm h

lemma init_vnodes (mem : Nat → Byte) : (init mem).vnodes = update (fun _ => VNode.zero) 0
    { VNode.zero with used := true, type := .directory, parent := none, name := [slash] } := rfl

lemma inv_init (mem : Nat → Byte) : Inv (init mem) := by
  have plain (i : Nat) : ((init mem).vnodes i).data = 0 ∧ ((init mem).vnodes i).children = [] ∧
      NodeOk ((init mem).vnodes i) := by
    rw [init_vnodes, update_apply]
    split <;> exact ⟨rfl, rfl, by constructor <;> decide⟩
  refine ⟨rfl, rfl, rfl, fun i => (plain i).2.2, fun d c member => ?_, fun d => ?_, fun d => ?_,
    nofun, nofun, ?_, fun i j _ nonnull => absurd (plain i).1 nonnull⟩
  · rw [(plain d).2.1] at member
    cases member
  · rw [(plain d).2.1]
    exact nodup_nil
  · rw [(plain d).2.1]
    exact Nat.zero_le _
  · simp only [(plain _).1]
    exact Owns.empty

section
variable (inv : Inv s)
include inv

lemma Inv.rooted : s.tree.Rooted 0 := by
  refine ⟨fun u v c first second => ?_, fun u child => ?_⟩
  · have parents := (inv.child u c first).parent.symm.trans (inv.child v c second).parent
    exact Option.some.inj parents
  · have parent := (inv.child u 0 child).parent
    rw [inv.rootTop] at parent
    cases parent

lemma Inv.walk_used {cs : List Path} (h : s.tree.walk 0 cs = some i) :
    i < vfsMaxFiles ∧ (s.vnodes i).used = true := by
  by_cases isRoot : i = 0
  · subst isRoot
    exact ⟨by decide, inv.rootUsed⟩
  · obtain ⟨d, member⟩ := walk_mem h isRoot
    exact ⟨(inv.child d i member).lt, (inv.child d i member).used⟩

lemma Inv.resolvePath_used (h : s.resolvePath path = some i) :
    i < vfsMaxFiles ∧ (s.vnodes i).used = true := by
  obtain ⟨rest, -, walk⟩ := resolvePath_eq_some h
  exact inv.walk_used walk

lemma Inv.resolveParent_used (h : s.resolveParent path = some (d, name)) :
    (s.vnodes d).used = true := by
  obtain ⟨-, -, -, ⟨-, rfl⟩ | ⟨-, found⟩⟩ := resolveParent_eq_some h
  · exact inv.rootUsed
  · exact (inv.resolvePath_used found).2

lemma Inv.not_child_of_free (free : (s.vnodes i).used = false) (d : Nat) :
    i ∉ (s.vnodes d).children := by
  intro member
  have used := (inv.child d i member).used
  rw [free] at used
  cases used

lemma Inv.children_of_free (free : (s.vnodes i).used = false) : (s.vnodes i).children = [] := by
  apply eq_nil_iff_forall_not_mem.mpr
  intro c member
  have used := (inv.child i c member).dirUsed
  rw [free] at used
  cases used

lemma Inv.children_of_file (isFile : (s.vnodes i).type = .file) : (s.vnodes i).children = [] := by
  apply eq_nil_iff_forall_not_mem.mpr
  intro c member
  have isDir := (inv.child i c member).isDir
  rw [isFile] at isDir
  cases isDir

end

variable {vnodes : Nat → VNode} {fds : Nat → FileDesc} {log : List (AllocEvent Nat)}

lemma TablesOk.withFds (ok : TablesOk vnodes fds log)
    (right : ∀ f, (fds' f).used = true → FdOk vnodes (fds' f))
    (below : ∀ f, (fds' f).used = true → f < vfsMaxFd) : TablesOk vnodes fds' log :=
  { ok with fd := right, fd_lt := below }

lemma TablesOk.setFd (ok : TablesOk vnodes fds log) {fd : Nat} {desc : FileDesc}
    (right : desc.used = true → FdOk vnodes desc) (below : fd < vfsMaxFd) :
    TablesOk vnodes (update fds fd desc) log := by
  apply ok.withFds
  · intro j used
    by_cases same : j = fd
    · rw [same, update_self] at used ⊢
      exact right used
    · rw [update_of_ne same] at used ⊢
      exact ok.fd j used
  · intro j used
    by_cases same : j = fd
    · rw [same]
      exact below
    · rw [update_of_ne same] at used
      exact ok.fd_lt j used

lemma TablesOk.replace (ok : TablesOk vnodes fds log) (notRoot : i ≠ 0)
    (loose : ∀ j, i ∉ (vnodes j).children) (nodeOk : NodeOk n) (leaf : n.children = [])
    (kept : ∀ f, (fds' f).used = true → fds' f = fds f ∧ (fds f).used = true ∧ (fds f).vnode ≠ i)
    (owns : Owns (update (fun j => (vnodes j).data) i n.data) 0 log')
    (apart : n.data ≠ 0 → ∀ j, (vnodes j).data ≠ 0 → Apart n.data (vnodes j).data) :
    TablesOk (update vnodes i n) fds' log' := by
  have self : update vnodes i n i = n := update_self ..
  have same (j : Nat) (other : j ≠ i) : update vnodes i n j = vnodes j := update_of_ne other ..
  have root := same 0 (Ne.symm notRoot)
  refine ⟨?_, ?_, ?_, fun j => ?_, fun d c member => ?_, fun d => ?_, fun d => ?_, fun f used => ?_,
    fun f used => ok.fd_lt f (kept f used).2.1, ?_, fun j l differ nonnull nonnull' => ?_⟩
  · rw [root]
    exact ok.rootUsed
  · rw [root]
    exact ok.rootDir
  · rw [root]
    exact ok.rootTop
  · by_cases isNew : j = i
    · rw [isNew, self]
      exact nodeOk
    · rw [same j isNew]
      exact ok.node j
  · have isOld : d ≠ i := by
      rintro rfl
      rw [self, leaf] at member
      cases member
    rw [same d isOld] at member
    have old := ok.child d c member
    have sameChild := same c fun isNew => loose d (isNew ▸ member)
    exact ⟨old.lt, by rw [sameChild]; exact old.used, by rw [sameChild]; exact old.parent,
      by rw [same d isOld]; exact old.dirUsed, by rw [same d isOld]; exact old.isDir⟩
  · by_cases isNew : d = i
    · rw [isNew, self, leaf]
      exact nodup_nil
    · rw [same d isNew]
      exact ok.nodup d
  · by_cases isNew : d = i
    · rw [isNew, self, leaf]
      exact Nat.zero_le _
    · rw [same d isNew]
      exact ok.length_le d
  · obtain ⟨sameFd, wasUsed, other⟩ := kept f used
    have old := ok.fd f wasUsed
    rw [sameFd]
    exact ⟨old.lt, by rw [same _ other]; exact old.used, by rw [same _ other]; exact old.isFile,
      by rw [same _ other]; exact old.offset_le⟩
  · have data : (fun j => (update vnodes i n j).data) =
        update (fun j => (vnodes j).data) i n.data := by
      funext j
      rw [update_apply, update_apply]
      split <;> rfl
    rw [data]
    exact owns
  · by_cases isNew : j = i
    · have isOld : l ≠ i := fun isNew' => differ (isNew.trans isNew'.symm)
      rw [isNew, self] at nonnull ⊢
      rw [same l isOld] at nonnull' ⊢
      exact apart nonnull l nonnull'
    · rw [same j isNew] at nonnull ⊢
      by_cases isNew' : l = i
      · rw [isNew', self] at nonnull' ⊢
        exact (apart nonnull' j nonnull).symm
      · rw [same l isNew'] at nonnull' ⊢
        exact ok.apart j l differ nonnull nonnull'

lemma Inv.create (inv : Inv s) (free : (s.vnodes i).used = false) (nodeOk : NodeOk n)
    (leaf : n.children = []) (owns : Owns (update (fun j => (s.vnodes j).data) i n.data) 0 log')
    (apart : n.data ≠ 0 → ∀ j, (s.vnodes j).data ≠ 0 → Apart n.data (s.vnodes j).data) :
    TablesOk (update s.vnodes i n) s.fds log' := by
  have other (j : Nat) (used : (s.vnodes j).used = true) : j ≠ i := by
    rintro rfl
    rw [free] at used
    cases used
  exact TablesOk.replace inv (other 0 inv.rootUsed).symm (inv.not_child_of_free free) nodeOk leaf
    (fun f used => ⟨rfl, used, other _ (inv.fd f used).used⟩) owns apart

lemma Keeps.nodeOk {m : VNode} (keeps : Keeps n m) (ok : NodeOk n) : NodeOk m := by
  constructor
  · rw [keeps.used, keeps.data]
    exact ok.free
  · rw [keeps.type, keeps.data]
    exact ok.directory
  · rw [keeps.capacity]
    exact keeps.fits ok.size_le
  · rw [keeps.capacity]
    exact ok.capacity_le
  · rw [keeps.used, keeps.capacity, keeps.data]
    exact ok.capacity

lemma Keeps.fdOk (keeps : ∀ j, Keeps (vnodes j) (vnodes' j)) {fd : FileDesc}
    (ok : FdOk vnodes fd) : FdOk vnodes' fd := by
  constructor
  · exact ok.lt
  · rw [(keeps _).used]
    exact ok.used
  · rw [(keeps _).type]
    exact ok.isFile
  · exact Nat.le_trans ok.offset_le (keeps _).longer

lemma TablesOk.relink (ok : TablesOk vnodes fds log) (keeps : ∀ j, Keeps (vnodes j) (vnodes' j))
    (rootTop : (vnodes' 0).parent = none)
    (child : ∀ d c, c ∈ (vnodes' d).children → Child vnodes' d c)
    (nodup : ∀ d, (vnodes' d).children.Nodup)
    (length_le : ∀ d, (vnodes' d).children.length ≤ maxChildren) : TablesOk vnodes' fds log := by
  have data : (fun j => (vnodes' j).data) = fun j => (vnodes j).data := funext fun j => (keeps j).data
  refine ⟨?_, ?_, rootTop, fun j => (keeps j).nodeOk (ok.node j), child, nodup, length_le,
    fun f used => Keeps.fdOk keeps (ok.fd f used), ok.fd_lt, ?_, fun i j => ?_⟩
  · rw [(keeps 0).used]
    exact ok.rootUsed
  · rw [(keeps 0).type]
    exact ok.rootDir
  · rw [data]
    exact ok.owns
  · rw [(keeps i).data, (keeps j).data]
    exact ok.apart i j

lemma Child.congr {d c : Nat} (h : Child vnodes d c) (keeps : ∀ j, Keeps (vnodes j) (vnodes' j))
    (parent : (vnodes' c).parent = (vnodes c).parent) : Child vnodes' d c := by
  constructor
  · exact h.lt
  · rw [(keeps c).used]
    exact h.used
  · rw [parent]
    exact h.parent
  · rw [(keeps d).used]
    exact h.dirUsed
  · rw [(keeps d).type]
    exact h.isDir

lemma TablesOk.prune (ok : TablesOk vnodes fds log) (keeps : ∀ j, Keeps (vnodes j) (vnodes' j))
    (parents : ∀ j, (vnodes' j).parent = (vnodes j).parent)
    (fewer : ∀ j, (vnodes' j).children.Sublist (vnodes j).children) : TablesOk vnodes' fds log :=
  ok.relink keeps ((parents 0).trans ok.rootTop)
    (fun d c member => (ok.child d c ((fewer d).subset member)).congr keeps (parents c))
    (fun d => (ok.nodup d).sublist (fewer d))
    (fun d => Nat.le_trans (fewer d).length_le (ok.length_le d))

lemma Inv.append (inv : Inv s) (loose : ∀ j, i ∉ (s.vnodes j).children) (lt : i < vfsMaxFiles)
    (used : (s.vnodes i).used = true) (parent : (s.vnodes i).parent = some d)
    (dirUsed : (s.vnodes d).used = true) (isDir : (s.vnodes d).type = .directory)
    (room : (s.vnodes d).children.length < maxChildren) :
    Inv (s.modifyNode d fun dir => { dir with children := dir.children ++ [i] }) := by
  have vnodes := modifyNode_children s d fun dir => dir.children ++ [i]
  have same (j : Nat) : Keeps (s.vnodes j) _ := vnodes j ▸ Keeps.links ..
  refine TablesOk.relink inv same (by rw [vnodes]; exact inv.rootTop) (fun e c member => ?_)
    (fun e => ?_) (fun e => ?_)
  · have old : Child s.vnodes e c := by
      rw [vnodes] at member
      dsimp only at member
      split at member
      case isFalse => exact inv.child e c member
      case isTrue isDirectory =>
        subst isDirectory
        rcases mem_append.mp member with member | new
        · exact inv.child e c member
        · obtain rfl := mem_singleton.mp new
          exact ⟨lt, used, parent, dirUsed, isDir⟩
    exact old.congr same (by rw [vnodes])
  · rw [vnodes]
    dsimp only
    split
    case isFalse => exact inv.nodup e
    case isTrue =>
      refine (inv.nodup d).append (nodup_singleton i) ?_
      rw [disjoint_singleton]
      exact loose d
  · rw [vnodes]
    dsimp only
    split
    case isFalse => exact inv.length_le e
    case isTrue =>
      rw [length_append, length_singleton]
      exact room

lemma Inv.link (inv : Inv s) (loose : ∀ j, i ∉ (s.vnodes j).children) (lt : i < vfsMaxFiles)
    (used : (s.vnodes i).used = true) (parent : (s.vnodes i).parent = some d)
    (dirUsed : (s.vnodes d).used = true) (isDir : (s.vnodes d).type = .directory) :
    Inv (s.link d i) := by
  unfold Vfs.link
  split
  case isTrue room => exact inv.append loose lt used parent dirUsed isDir room
  case isFalse => exact inv

lemma Inv.removeChild (inv : Inv s) (parent : Option Nat) (i : Nat) :
    Inv (s.removeChild parent i) := by
  unfold Inv
  rw [(removeChild_rest ..).1, (removeChild_rest ..).2.1]
  exact TablesOk.prune inv (removeChild_keeps s parent i) (removeChild_parent s parent i)
    (removeChild_sublist s parent i)

lemma Inv.loose (inv : Inv s) (i j : Nat) :
    i ∉ ((s.removeChild (s.vnodes i).parent i).vnodes j).children := by
  intro member
  have parent := (inv.child j i (mem_removeChild member)).parent
  rw [removeChild_children, if_pos parent] at member
  exact (inv.nodup j).not_mem_erase member

lemma Inv.move (inv : Inv s) (notRoot : i ≠ 0) (lt : i < vfsMaxFiles)
    (used : (s.vnodes i).used = true) (member : ∃ e, i ∈ (s.vnodes e).children)
    (dirUsed : (s.vnodes d).used = true) (isDir : (s.vnodes d).type = .directory)
    (room : some d ≠ (s.vnodes i).parent → (s.vnodes d).children.length < maxChildren) :
    Inv (s.move i d name) := by
  have same := move_keeps s i d name
  have loose := inv.loose i
  have removed := inv.removeChild (s.vnodes i).parent i
  unfold Inv
  rw [(move_rest ..).1, (move_rest ..).2.1]
  refine TablesOk.relink inv same ?_ (fun e c member => ?_) (fun e => ?_) (fun e => ?_)
  · rw [move_parent, if_neg (Ne.symm notRoot)]
    exact inv.rootTop
  · rw [move_children, mem_append] at member
    rcases member with old | new
    · have other : c ≠ i := by
        rintro rfl
        exact loose e old
      refine (inv.child e c (mem_removeChild old)).congr same ?_
      rw [move_parent, if_neg other]
    · split at new
      case isFalse => cases new
      case isTrue isParent =>
        obtain rfl := mem_singleton.mp new
        subst isParent
        constructor
        · exact lt
        · rw [(same c).used]
          exact used
        · rw [move_parent, if_pos rfl]
        · rw [(same e).used]
          exact dirUsed
        · rw [(same e).type]
          exact isDir
  · rw [move_children]
    split
    case isTrue =>
      refine (removed.nodup e).append (nodup_singleton i) ?_
      rw [disjoint_singleton]
      exact loose e
    case isFalse =>
      rw [append_nil]
      exact removed.nodup e
  · rw [move_children]
    split
    case isFalse =>
      rw [append_nil]
      exact removed.length_le e
    case isTrue isParent =>
      subst isParent
      rw [length_append, length_singleton, removeChild_children]
      split
      case isFalse other => exact room fun isOld => other isOld.symm
      case isTrue isOld =>
        -- its own place in the list has become free
        obtain ⟨f, inList⟩ := member
        have sameDir : some e = some f := isOld.symm.trans (inv.child f i inList).parent
        obtain rfl := Option.some.inj sameDir
        have pos := length_pos_of_mem inList
        rw [length_erase_of_mem inList, Nat.sub_add_cancel pos]
        exact inv.length_le e

lemma update_data_eq_self (noData : (s.vnodes i).data = 0) :
    update (fun j => (s.vnodes j).data) i 0 = fun j => (s.vnodes j).data := by
  rw [← noData]
  exact Function.update_eq_self i _

lemma Inv.release (inv : Inv s) (notRoot : i ≠ 0) (loose : ∀ j, i ∉ (s.vnodes j).children)
    (leaf : (s.vnodes i).children = []) : Inv (s.release i) := by
  refine TablesOk.replace inv notRoot loose
    ⟨fun _ => rfl, fun _ => rfl, (inv.node i).size_le, (inv.node i).capacity_le, nofun⟩ leaf
    (fun f used => ?_) ?_ fun nonnull => absurd rfl nonnull
  · -- a descriptor that stays in use is as before and of another file
    simp only [Vfs.release] at used ⊢
    split at used
    case isTrue => cases used
    case isFalse kept =>
      exact ⟨if_neg kept, used, fun isReleased => kept ⟨inv.fd_lt f used, used, isReleased⟩⟩
  · show Owns (update (fun j => (s.vnodes j).data) i 0) 0
      (if (s.vnodes i).data = 0 then s.log else .free (s.vnodes i).data :: s.log)
    split
    case isTrue isNull =>
      rw [update_data_eq_self isNull]
      exact inv.owns
    case isFalse isNull => exact inv.owns.free isNull

lemma Inv.stored (inv : Inv s) {f k : Nat} (used : (s.fds f).used = true)
    (fits : (s.fds f).offset + k ≤ (s.vnodes (s.fds f).vnode).capacity) (buf : Nat → Byte) :
    Inv (s.stored f buf k) := by
  have keeps (j : Nat) : Keeps (s.vnodes j) ((s.stored f buf k).vnodes j) := by
    rw [stored_vnodes]
    by_cases same : j = (s.fds f).vnode
    · subst same
      rw [if_pos rfl]
      exact ⟨rfl, rfl, rfl, rfl, Nat.le_max_left _ _, fun le => Nat.max_le.mpr ⟨le, fits⟩⟩
    · rw [if_neg same]
      exact .refl _
  have grown : TablesOk (s.stored f buf k).vnodes s.fds s.log :=
    TablesOk.prune inv keeps (fun j => by rw [stored_vnodes]) (fun j => by rw [stored_vnodes])
  have moved := grown.fd f used
  refine grown.setFd (fun _ => ⟨moved.lt, moved.used, moved.isFile, ?_⟩) (inv.fd_lt f used)
  rw [stored_vnodes]
  dsimp only
  rw [if_pos rfl]
  exact Nat.le_max_right _ _

lemma newFile_ok (d : Nat) (name : Path) (block : Nat) : NodeOk (newFile d name block) := by
  refine ⟨nofun, nofun, Nat.zero_le _, ?_, fun _ => rfl⟩
  show (if block = 0 then 0 else vfsMaxData) ≤ vfsMaxData
  split
  · exact Nat.zero_le _
  · exact Nat.le_refl _

lemma newDirectory_ok (d : Nat) (name : Path) : NodeOk (newDirectory d name) :=
  ⟨nofun, fun _ => rfl, Nat.zero_le _, Nat.zero_le _, fun _ => rfl⟩

lemma Inv.fresh (inv : Inv s) (answer : block = 0 ∨ ∀ b ∈ live s.log, Apart block b)
    (nonnull : block ≠ 0) : block ∉ live s.log ∧
      ∀ j, (s.vnodes j).data ≠ 0 → Apart block (s.vnodes j).data := by
  have apart := answer.resolve_left nonnull
  refine ⟨fun isLive => ?_, fun j hasData => apart _ (inv.owns.mem_live hasData)⟩
  have self := apart block isLive
  have positive : 0 < vfsMaxData := by decide
  rcases self with h | h <;> omega

lemma Inv.createFile (inv : Inv s) (free : (s.vnodes i).used = false)
    (answer : block = 0 ∨ ∀ b ∈ live s.log, Apart block b) : Inv (s.createFile i d name block) := by
  have noData := (inv.node i).free free
  refine inv.create free (newFile_ok d name block) rfl ?_ fun nonnull =>
    (inv.fresh answer nonnull).2
  by_cases isNull : block = 0
  · have sameLog : (s.createFile i d name block).log = s.log := if_pos isNull
    rw [sameLog]
    show Owns (update (fun j => (s.vnodes j).data) i block) 0 s.log
    rw [isNull, update_data_eq_self noData]
    exact inv.owns
  · have logged : (s.createFile i d name block).log = .alloc block :: s.log := if_neg isNull
    rw [logged]
    exact inv.owns.alloc noData isNull (inv.fresh answer isNull).1

lemma Inv.createDirectory (inv : Inv s) (free : (s.vnodes i).used = false) :
    Inv (s.createDirectory i d name) := by
  refine inv.create free (newDirectory_ok d name) rfl ?_ fun nonnull => absurd rfl nonnull
  show Owns (update (fun j => (s.vnodes j).data) i 0) 0 s.log
  rw [update_data_eq_self ((inv.node i).free free)]
  exact inv.owns

lemma Inv.linkNew (inv : Inv s) (newInv : Inv t) (created : t.vnodes = update s.vnodes i n)
    (makes : Creates s path i d name) (used : n.used = true) (parent : n.parent = some d)
    (leaf : n.children = []) : Inv (t.link d i) := by
  obtain ⟨lt, free⟩ := allocVnode_spec makes.slot
  have dirUsed := inv.resolveParent_used makes.parent
  have other : d ≠ i := by
    rintro rfl
    rw [free] at dirUsed
    cases dirUsed
  have self : t.vnodes i = n := by rw [created, update_self]
  have same : t.vnodes d = s.vnodes d := by rw [created, update_of_ne other]
  apply newInv.link
  · intro j member
    by_cases isNew : j = i
    · rw [isNew, self, leaf] at member
      cases member
    · rw [created, update_of_ne isNew] at member
      exact inv.not_child_of_free free j member
  · exact lt
  · rw [self]
    exact used
  · rw [self]
    exact parent
  · rw [same]
    exact dirUsed
  · rw [same]
    exact makes.isDir

section
variable (inv : Inv s)
include inv

section
variable (path)

lemma Inv.openNode (create : Bool)
    (answer : block = 0 ∨ ∀ b ∈ live s.log, Apart block b) :
    Inv (s.openNode path create block).2 := by
  rcases openNode_cases s path create block with same | ⟨i, d, name, -, makes, result⟩
  · rw [same]
    exact inv
  · rw [result]
    have free := (allocVnode_spec makes.slot).2
    exact inv.linkNew (inv.createFile free answer) (createFile_vnodes ..) makes rfl rfl rfl

lemma Inv.openNode_used {path : Path} {create : Bool}
    (h : s.openNode path create block = (some i, t)) :
    i < vfsMaxFiles ∧ (t.vnodes i).used = true := by
  rcases openNode_cases s path create block with same | ⟨j, d, name, -, makes, result⟩
  · rw [same] at h
    obtain ⟨found, rfl⟩ := Prod.mk.inj h
    exact inv.resolvePath_used found
  · rw [result] at h
    cases h
    refine ⟨(allocVnode_spec makes.slot).1, ?_⟩
    have new : ((s.createFile i d name block).vnodes i).used = true := by
      rw [createFile_vnodes, update_self]
      rfl
    unfold Vfs.link
    split
    · rw [modifyNode_children _ d fun dir => dir.children ++ [i]]
      exact new
    · exact new

lemma Inv.vfsOpen (create : Bool)
    (answer : block = 0 ∨ ∀ b ∈ live s.log, Apart block b) :
    Inv (s.vfsOpen path create block).2 := by
  have afterNode := inv.openNode path create answer
  rcases vfsOpen_cases s path create block with same | ⟨i, t, fd, node, isFile, slot, result⟩
  · rw [same]
    exact afterNode
  · rw [node] at afterNode
    rw [result]
    obtain ⟨lt, used⟩ := inv.openNode_used node
    exact TablesOk.setFd afterNode (fun _ => ⟨lt, used, isFile, Nat.zero_le _⟩)
      (allocFd_spec slot).1

lemma Inv.vfsClose (fd : Int) : Inv (s.vfsClose fd).2 := by
  unfold Vfs.vfsClose
  cases found : s.openFd fd with
  | none => exact inv
  | some f => exact TablesOk.setFd inv nofun (openFd_spec found).2.1

lemma Inv.vfsRead (fd : Int) (count : Nat) : Inv (s.vfsRead fd count).2 := by
  rcases vfsRead_cases s fd count with (same | same) | ⟨f, rfl, small, opened⟩
  · rw [same]
    exact inv
  · rw [same]
    exact inv
  · rw [vfsRead_opened small opened]
    have old := inv.fd f opened.used
    refine TablesOk.setFd inv (fun _ => ⟨old.lt, old.used, old.isFile, ?_⟩) small
    have := old.offset_le
    show (s.fds f).offset + min count _ ≤ (s.vnodes (s.fds f).vnode).size
    omega

lemma Inv.vfsWrite (fd : Int) (buf : Nat → Byte) (count : Nat) :
    Inv (s.vfsWrite fd buf count).2 := by
  rcases vfsWrite_cases s fd buf count with same | ⟨f, -, -, opened, result⟩
  · rw [same]
    exact inv
  · rw [result]
    have inside := Nat.le_trans (inv.fd f opened.used).offset_le (inv.node _).size_le
    exact inv.stored opened.used (writeCount_le inside) buf

lemma Inv.vfsMkdir : Inv (s.vfsMkdir path).2 := by
  rcases vfsMkdir_cases s path with same | ⟨i, d, name, makes, result⟩
  · rw [same]
    exact inv
  · rw [result]
    have free := (allocVnode_spec makes.slot).2
    exact inv.linkNew (inv.createDirectory free) (createDirectory_vnodes ..) makes rfl rfl rfl

lemma Inv.vfsUnlink : Inv (s.vfsUnlink path).2 := by
  rcases vfsUnlink_cases s path with same | ⟨i, found, notRoot, empty, result⟩
  · rw [same]
    exact inv
  · rw [result]
    have removed := inv.removeChild (s.vnodes i).parent i
    refine removed.release notRoot (inv.loose i) ?_
    have leaf : (s.vnodes i).children = [] := by
      cases type : (s.vnodes i).type with
      | file => exact inv.children_of_file type
      | directory => exact empty type
    apply eq_nil_iff_forall_not_mem.mpr
    intro c member
    have old := mem_removeChild member
    rw [leaf] at old
    cases old

end

lemma Inv.vfsRename (oldPath newPath : Path) : Inv (s.vfsRename oldPath newPath).2 := by
  rcases vfsRename_cases s oldPath newPath with same | ⟨i, d, name, makes, result⟩
  · rw [same]
    exact inv
  · rw [result]
    obtain ⟨lt, used⟩ := inv.resolvePath_used makes.found
    exact inv.move makes.notRoot lt used (resolvePath_mem makes.found makes.notRoot)
      (inv.resolveParent_used makes.parent) makes.isDir makes.room

lemma Inv.step (step : VfsStep s op t) : Inv t := by
  obtain ⟨allowed, rfl⟩ := step
  cases op with
  | «open» path create block => exact inv.vfsOpen path create allowed
  | close fd => exact inv.vfsClose fd
  | read fd count => exact inv.vfsRead fd count
  | write fd buf count => exact inv.vfsWrite fd buf count
  | stat path => exact inv
  | mkdir path => exact inv.vfsMkdir path
  | readdir path maxEntries => exact inv
  | unlink path => exact inv.vfsUnlink path
  | rename oldPath newPath => exact inv.vfsRename oldPath newPath
  | elsewhere mem => exact inv

end

lemma inv_of_reachable (h : Reachable VfsBooted VfsStep s) : Inv s := by
  apply h.invariant
  · rintro _ ⟨mem, rfl⟩
    exact inv_init mem
  · intro a op b inv step
    exact inv.step step

lemma vfsUnlink_log (inv : Inv s) (path : Path) :
    (s.vfsUnlink path).2.log = s.log ∨
      ∃ i, s.resolvePath path = some i ∧ (s.vnodes i).type = .file ∧ (s.vnodes i).data ≠ 0 ∧
        (s.vfsUnlink path).2.log = .free (s.vnodes i).data :: s.log := by
  rcases vfsUnlink_cases s path with same | ⟨i, found, -, -, result⟩
  · rw [same]
    exact .inl rfl
  · have data := (removeChild_keeps s (s.vnodes i).parent i i).data
    have sameLog := (removeChild_rest s (s.vnodes i).parent i).2.1
    by_cases isNull : (s.vnodes i).data = 0
    · refine .inl ?_
      rw [result, ← sameLog]
      exact if_pos (data.trans isNull)
    · refine .inr ⟨i, found, ?_, isNull, ?_⟩
      · cases type : (s.vnodes i).type with
        | file => rfl
        | directory => exact absurd ((inv.node i).directory type) isNull
      · rw [result, ← sameLog, ← data]
        exact if_neg fun null => isNull (data.symm.trans null)

lemma step_log (inv : Inv s) (step : VfsStep s op t) :
    t.log = s.log ∨
      (∃ path create block, op = .open path create block ∧ block ≠ 0 ∧
        t.log = .alloc block :: s.log) ∨
      ∃ path i, op = .unlink path ∧ s.resolvePath path = some i ∧ (s.vnodes i).type = .file ∧
        (s.vnodes i).data ≠ 0 ∧ t.log = .free (s.vnodes i).data :: s.log := by
  obtain ⟨-, rfl⟩ := step
  cases op with
  | «open» path create block =>
    rcases vfsOpen_log s path create block with same | ⟨nonnull, logged⟩
    · exact .inl same
    · exact .inr (.inl ⟨path, create, block, rfl, nonnull, logged⟩)
  | unlink path =>
    rcases vfsUnlink_log inv path with same | ⟨i, found, isFile, nonnull, logged⟩
    · exact .inl same
    · exact .inr (.inr ⟨path, i, rfl, found, isFile, nonnull, logged⟩)
  | close fd =>
    left
    simp only [after, vfsClose]
    split <;> rfl
  | read fd count =>
    left
    simp only [after, vfsRead]
    split
    · rfl
    · split <;> rfl
  | write fd buf count =>
    left
    rcases vfsWrite_cases s fd buf count with same | ⟨f, -, -, -, result⟩
    · rw [after, same]
    · rw [after, result]
      rfl
  | stat path => exact .inl rfl
  | mkdir path =>
    left
    rcases vfsMkdir_cases s path with same | ⟨i, d, name, -, result⟩
    · rw [after, same]
    · rw [after, result, link_log]
      rfl
  | readdir path maxEntries => exact .inl rfl
  | rename oldPath newPath =>
    left
    rcases vfsRename_cases s oldPath newPath with same | ⟨i, d, name, -, result⟩
    · rw [after, same]
    · rw [after, result, (move_rest ..).2.1]
  | elsewhere mem => exact .inl rfl

/-- Every descriptor in use is at a position in a file that is in use. -/
def DescriptorsOk (s : Vfs) : Prop :=
  ∀ f, (s.fds f).used = true →
    let file := s.vnodes (s.fds f).vnode
    file.used = true ∧ file.type = .file ∧ (s.fds f).offset ≤ file.size ∧
      file.size ≤ file.capacity ∧ file.capacity ≤ vfsMaxData

/-- Every data pointer of a vnode in use is a live block that no other vnode has, and no block
has been freed that was not live. -/
def BlocksOk (s : Vfs) : Prop :=
  (∀ i, (s.vnodes i).used = true → (s.vnodes i).data ≠ 0 →
    (s.vnodes i).data ∈ live s.log ∧ ∀ j, (s.vnodes j).data = (s.vnodes i).data → j = i) ∧
  Matched s.log

/-- Every list of children has at most 32 elements, all of them vnodes in use. -/
def LinksOk (s : Vfs) : Prop :=
  ∀ d, (s.vnodes d).children.length ≤ maxChildren ∧
    ∀ c ∈ (s.vnodes d).children, c < vfsMaxFiles ∧ (s.vnodes c).used = true

/-- The next call frees no block, or it is the unlink of the file with the block. -/
def FreesByUnlink (s : Vfs) : Prop :=
  ∀ op t, VfsStep s op t → ∀ b, t.log = .free b :: s.log →
    ∃ path i, op = .unlink path ∧ s.resolvePath path = some i ∧ (s.vnodes i).type = .file ∧
      (s.vnodes i).data = b

/-- Where the next call takes a slot, no descriptor refers to it but the one the call returns. -/
def NewSlotsOk (s : Vfs) : Prop :=
  ∀ op t, VfsStep s op t → ∀ i, (s.vnodes i).used = false → (t.vnodes i).used = true →
    ∀ f, (t.fds f).used = true → (t.fds f).vnode = i → Returns s op f

theorem vfs_tables_consistent {s : Vfs} (h : Reachable VfsBooted VfsStep s) :
    DescriptorsOk s ∧ BlocksOk s ∧ LinksOk s ∧ FreesByUnlink s ∧ NewSlotsOk s := by
  have inv := inv_of_reachable h
  refine ⟨fun f used => ?_, ⟨fun i used nonnull => ?_, inv.owns.matched⟩, fun d => ?_, ?_, ?_⟩
  · have right := inv.fd f used
    exact ⟨right.used, right.isFile, right.offset_le, (inv.node _).size_le,
      (inv.node _).capacity_le⟩
  · refine ⟨inv.owns.mem_live nonnull, fun j same => ?_⟩
    exact inv.owns.inj j i same fun null => nonnull (same.symm.trans null)
  · exact ⟨inv.length_le d, fun c member => ⟨(inv.child d c member).lt, (inv.child d c member).used⟩⟩
  · intro op t step b freed
    rcases step_log inv step with same | ⟨path, create, block, -, -, logged⟩ |
        ⟨path, i, isUnlink, found, isFile, -, logged⟩
    · exact absurd (freed.symm.trans same) (cons_ne_self _ _)
    · rw [freed] at logged
      cases logged
    · rw [freed] at logged
      cases logged
      exact ⟨path, i, isUnlink, found, isFile, rfl⟩
  · intro op t step i free _ f used refers
    rcases step_fds step used with returned | ⟨wasUsed, sameVnode⟩
    · exact returned
    · have wasFile := (inv.fd f wasUsed).used
      rw [← sameVnode, refers, free] at wasFile
      cases wasFile

/-- After `vfs_open("/a", true)`. -/
def oneFile : Vfs := (init fun _ => 0).after (.open [slash, 0x61#8] true 4096)

lemma oneFile_reachable : Reachable VfsBooted VfsStep oneFile := by
  have booted : Reachable VfsBooted VfsStep (init fun _ => 0) := Reachable.start ⟨_, rfl⟩
  apply booted.next (e := .open [slash, 0x61#8] true 4096)
  exact ⟨Or.inr nofun, rfl⟩

theorem vfs_tables_consistent_one_file : (oneFile.fds 0).used = true ∧
    DescriptorsOk oneFile ∧ BlocksOk oneFile ∧ LinksOk oneFile ∧ FreesByUnlink oneFile ∧
      NewSlotsOk oneFile :=
  ⟨by decide, vfs_tables_consistent oneFile_reachable⟩

end Vfs

end MicroOs.Fs
