import MicroOs.Fs.Proofs.VfsRename

/-!
# Names in a directory

That a path does not exist means that its name is not in its directory only where `resolve_path`
and `resolve_parent` read the path in the same way. In runs in which that is so for every vnode that
is created or renamed, no directory has two children of one name.
-/

namespace MicroOs.Fs
open Lib

namespace Vfs

variable {s t : Vfs} {i d : Nat} {path name : Path} {block : Nat}

/-- If the path is new, both ways to read it agree. -/
def NamedSafely (s : Vfs) (path : Path) : Prop :=
  ∀ d name, s.resolvePath path = none → s.resolveParent path = some (d, name) → Agrees s path d

def Careful (s : Vfs) : Op → Prop
  | .open path create _ => create = true → s.NamedSafely path
  | .mkdir path => s.NamedSafely path
  | .rename _ newPath => s.NamedSafely newPath
  | _ => True

def NamesUnique (s : Vfs) : Prop := s.tree.NamesUnique

lemma Agrees.fresh (agrees : Agrees s path d) (absent : s.resolvePath path = none)
    (parent : s.resolveParent path = some (d, name)) (isDir : (s.vnodes d).type = .directory) :
    ∀ v ∈ (s.vnodes d).children, (s.vnodes v).name ≠ name := by
  obtain ⟨absolute, named, -, -⟩ := resolveParent_eq_some parent
  rw [agrees.resolvePath_eq_lookup absolute named, ← agrees.name_eq parent] at absent
  exact NameTree.name_ne_of_lookup_eq_none (decide_eq_true isDir) absent

section
variable (unique : NamesUnique s)
include unique

lemma NamesUnique.congr (children : ∀ j, ((t.vnodes j).children).Sublist (s.vnodes j).children)
    (names : ∀ j, (t.vnodes j).name = (s.vnodes j).name) : NamesUnique t :=
  NameTree.NamesUnique.of_sublist unique children names

lemma NamesUnique.grown {n : VNode} (inv : Inv s) (grown : Grown s t i d n)
    (makes : Creates s path i d name) (leaf : n.children = []) (named : n.name = name)
    (agrees : Agrees s path d) : NamesUnique t := by
  have free := (allocVnode_spec makes.slot).2
  by_cases room : (s.vnodes d).children.length < maxChildren
  · refine NameTree.NamesUnique.attach unique (grown.attached inv makes leaf room) ?_
    have newName : t.tree.name i = name := by
      show (t.vnodes i).name = name
      rw [grown.self, named]
    rw [newName]
    exact agrees.fresh makes.absent makes.parent makes.isDir
  · -- not linked: the new vnode has no children and is nobody's child
    intro u
    have dir := grown.dir
    rw [if_neg room] at dir
    by_cases isNew : u = i
    · have none : t.tree.children u = [] := by
        show (t.vnodes u).children = []
        rw [isNew, grown.self, leaf]
      rw [none]
      exact List.nodup_nil
    · have same : t.tree.children u = s.tree.children u := by
        show (t.vnodes u).children = (s.vnodes u).children
        by_cases isDir : u = d
        · rw [isDir, dir]
        · rw [grown.others u isNew isDir]
      have names : (s.tree.children u).map t.tree.name = (s.tree.children u).map s.tree.name := by
        apply List.map_congr_left
        intro v member
        have old : v ≠ i := fun isNew' => inv.not_child_of_free free u (isNew' ▸ member)
        show (t.vnodes v).name = (s.vnodes v).name
        by_cases isDir : v = d
        · rw [isDir, dir]
        · rw [grown.others v old isDir]
      rw [same, names]
      exact unique u

lemma NamesUnique.vfsOpen (inv : Inv s) {create : Bool}
    (safe : create = true → s.NamedSafely path) (block : Nat) :
    NamesUnique (s.vfsOpen path create block).2 := by
  have node : NamesUnique (s.openNode path create block).2 := by
    rcases openNode_cases s path create block with same | ⟨i, d, name, creates, makes, result⟩
    · rw [same]
      exact unique
    · rw [result]
      exact unique.grown inv (grown_link (createFile_vnodes s i d name block) (makes.dir_ne inv))
        makes rfl rfl (safe creates d name makes.absent makes.parent)
  rcases vfsOpen_cases s path create block with same | ⟨i, u, fd, opened, -, -, result⟩
  · rw [same]
    exact node
  · rw [opened] at node
    rw [result]
    exact node

lemma NamesUnique.vfsMkdir (inv : Inv s) (safe : s.NamedSafely path) :
    NamesUnique (s.vfsMkdir path).2 := by
  rcases vfsMkdir_cases s path with same | ⟨i, d, name, makes, result⟩
  · rw [same]
    exact unique
  · rw [result]
    exact unique.grown inv (grown_link (createDirectory_vnodes s i d name) (makes.dir_ne inv))
      makes rfl rfl (safe d name makes.absent makes.parent)

lemma NamesUnique.vfsRename (inv : Inv s) {oldPath newPath : Path} (safe : s.NamedSafely newPath) :
    NamesUnique (s.vfsRename oldPath newPath).2 := by
  rcases vfsRename_cases s oldPath newPath with same | ⟨i, d, name, makes, result⟩
  · rw [same]
    exact unique
  · rw [result]
    have agrees := safe d name makes.absent makes.parent
    have fresh := agrees.fresh makes.absent makes.parent makes.isDir
    have detached := inv.detached i
    refine (NameTree.NamesUnique.detach unique detached).attach (inv.attached_move i d name) ?_
    intro v member
    have newName : (s.move i d name).tree.name i = name := by
      show ((s.move i d name).vnodes i).name = name
      rw [move_name, if_pos rfl]
    rw [newName, detached.name]
    exact fresh v (detached.mem_children.mp member).1

lemma NamesUnique.vfsUnlink (path : Path) : NamesUnique (s.vfsUnlink path).2 := by
  rcases vfsUnlink_cases s path with same | ⟨i, found, -, -, result⟩
  · rw [same]
    exact unique
  · rw [result]
    have released (j : Nat) :
        (((s.removeChild (s.vnodes i).parent i).release i).vnodes j).children =
          ((s.removeChild (s.vnodes i).parent i).vnodes j).children ∧
        (((s.removeChild (s.vnodes i).parent i).release i).vnodes j).name =
          ((s.removeChild (s.vnodes i).parent i).vnodes j).name := by
      simp only [release, Function.update_apply]
      split
      case isTrue same => rw [same]; exact ⟨rfl, rfl⟩
      case isFalse => exact ⟨rfl, rfl⟩
    apply unique.congr
    · intro j
      rw [(released j).1]
      exact removeChild_sublist ..
    · intro j
      rw [(released j).2, removeChild_name]

lemma NamesUnique.vfsWrite (fd : Int) (buf : Nat → Byte) (count : Nat) :
    NamesUnique (s.vfsWrite fd buf count).2 := by
  apply unique.congr
  · intro j
    obtain ⟨size, same⟩ := vfsWrite_vnodes s fd buf count j
    rw [same]
  · intro j
    obtain ⟨size, same⟩ := vfsWrite_vnodes s fd buf count j
    rw [same]

lemma NamesUnique.of_vnodes (same : t.vnodes = s.vnodes) : NamesUnique t := by
  apply unique.congr
  · intro j
    rw [same]
  · intro j
    rw [same]

lemma NamesUnique.step {op : Op} (inv : Inv s) (step : VfsStep s op t) (careful : s.Careful op) :
    NamesUnique t := by
  obtain ⟨-, rfl⟩ := step
  cases op with
  | «open» path create block => exact unique.vfsOpen inv careful block
  | close fd => exact unique.of_vnodes (vfsClose_vnodes s fd)
  | read fd count => exact unique.of_vnodes (vfsRead_vnodes s fd count)
  | write fd buf count => exact unique.vfsWrite fd buf count
  | stat path => exact unique
  | mkdir path => exact unique.vfsMkdir inv careful
  | readdir path maxEntries => exact unique
  | unlink path => exact unique.vfsUnlink path
  | rename oldPath newPath => exact unique.vfsRename inv careful
  | elsewhere mem => exact unique

end

lemma namesUnique_init (mem : Nat → Byte) : NamesUnique (init mem) := by
  intro u
  have none : ((init mem).vnodes u).children = [] := by
    rw [init_vnodes, Function.update_apply]
    split <;> rfl
  show (((init mem).vnodes u).children.map _).Nodup
  rw [none]
  exact List.nodup_nil

/-- In a run whose calls all read their paths in one way, no directory ever has two children of one
name. -/
theorem names_unique_of_careful {s t : Vfs} {trace : List (StepOf Vfs Op)} (booted : VfsBooted s)
    (run : Run VfsStep s trace t) (careful : ∀ st ∈ trace, st.pre.Careful st.event) :
    NamesUnique t ∧ ∀ st ∈ trace, NamesUnique st.pre := by
  obtain ⟨mem, rfl⟩ := booted
  have base : Inv (init mem) ∧ NamesUnique (init mem) := ⟨inv_init mem, namesUnique_init mem⟩
  have preserve (a : Vfs) (op : Op) (b : Vfs) (both : Inv a ∧ NamesUnique a) (step : VfsStep a op b)
      (careful : a.Careful op) : Inv b ∧ NamesUnique b :=
    ⟨both.1.step step, both.2.step both.1 step careful⟩
  refine ⟨(run.invariant_of base preserve careful).2, fun st member => ?_⟩
  exact (run.invariant_of_pre base preserve careful st member).2

theorem names_unique_of_careful_one_file : NamesUnique oneFile := by
  have first : VfsStep (init fun _ => 0) (.open [slash, 0x61#8] true 4096) oneFile :=
    ⟨Or.inr nofun, rfl⟩
  refine (names_unique_of_careful ⟨_, rfl⟩ (Run.nil.snoc first) ?_).1
  intro st member
  obtain rfl := List.mem_singleton.mp member
  intro _ d name _ parent
  have root : (init fun _ => 0).resolveParent [slash, 0x61#8] = some (0, [0x61#8]) := by decide
  cases root.symm.trans parent
  exact ⟨by decide, by decide⟩

/-- After creating `/a…a` with 63 letters and then with 64. -/
def twins : Vfs :=
  ((init fun _ => 0).after (.open (slash :: List.replicate 63 0x61#8) true 4096)).after
    (.open (slash :: List.replicate 64 0x61#8) true 65536)

theorem long_name_is_created_twice : Reachable VfsBooted VfsStep twins ∧
    (twins.vnodes 0).children = [1, 2] ∧ (twins.vnodes 1).name = (twins.vnodes 2).name := by
  have booted : Reachable VfsBooted VfsStep (init fun _ => 0) := Reachable.start ⟨_, rfl⟩
  have first : VfsStep (init fun _ => 0) (.open (slash :: List.replicate 63 0x61#8) true 4096) _ :=
    ⟨Or.inr nofun, rfl⟩
  have second : VfsStep _ (.open (slash :: List.replicate 64 0x61#8) true 65536) twins :=
    ⟨Or.inr (by decide +kernel), rfl⟩
  refine ⟨(booted.next first).next second, ?_, ?_⟩
  · decide +kernel
  · decide +kernel

end Vfs

end MicroOs.Fs
