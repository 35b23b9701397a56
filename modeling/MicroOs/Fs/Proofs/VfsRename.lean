import MicroOs.Fs.Proofs.VfsPaths

/-!
# Moving vnodes

`vfs_rename` takes a vnode out of its directory and puts it at the end of another one. Where
`resolve_path` and `resolve_parent` agree on the new path, and the new directory is not the vnode
itself or below it, the vnode is found under the new path only and nothing else gets lost. In all
other cases it is not.
-/

namespace MicroOs.Fs
open Lib List

namespace Vfs

variable {s t : Vfs} {i d : Nat} {oldPath newPath name : Path}

lemma Inv.detached (inv : Inv s) (i : Nat) :
    s.tree.Detached (s.removeChild (s.vnodes i).parent i).tree i := by
  refine ⟨fun u => ?_, fun u => removeChild_name .., fun u => ?_⟩
  · show ((s.removeChild (s.vnodes i).parent i).vnodes u).children = _
    rw [removeChild_children]
    split
    case isTrue =>
      rw [(inv.nodup u).erase_eq_filter]
      apply filter_congr
      intro v _
      by_cases same : v = i <;> simp [same]
    case isFalse other =>
      symm
      apply filter_eq_self.mpr
      intro v member
      apply decide_eq_true
      rintro rfl
      exact other (inv.child u v member).parent
  · show decide (_ = _) = decide (_ = _)
    rw [(removeChild_keeps s (s.vnodes i).parent i u).type]

lemma Inv.attached_move (inv : Inv s) (i d : Nat) (name : Path) :
    (s.removeChild (s.vnodes i).parent i).tree.Attached (s.move i d name).tree d i := by
  refine ⟨inv.loose i, move_children s i d name, fun u other => ?_, fun u => .inl ?_⟩
  · show ((s.move i d name).vnodes u).name = ((s.removeChild (s.vnodes i).parent i).vnodes u).name
    rw [move_name, if_neg other, removeChild_name]
  · show decide (((s.move i d name).vnodes u).type = _) =
      decide (((s.removeChild (s.vnodes i).parent i).vnodes u).type = _)
    rw [(move_keeps s i d name u).type, (removeChild_keeps s (s.vnodes i).parent i u).type]

lemma Inv.lookup_move (inv : Inv s) {u v : Nat} {c : Path} (found : s.tree.lookup u c = some v)
    (other : v ≠ i) : (s.move i d name).tree.lookup u c = some v :=
  (inv.attached_move i d name).lookup_of_lookup ((inv.detached i).lookup_of_ne found other)

lemma Inv.mem_move (inv : Inv s) {u v : Nat} (other : v ≠ i) :
    v ∈ (s.move i d name).tree.children u ↔ v ∈ s.tree.children u := by
  rw [(inv.attached_move i d name).mem_children, (inv.detached i).mem_children]
  constructor
  · intro member
    rcases member with ⟨old, -⟩ | ⟨-, isMoved⟩
    · exact old
    · exact absurd isMoved other
  · intro old
    exact .inl ⟨old, other⟩

lemma Inv.mem_move_self (inv : Inv s) {u : Nat} : i ∈ (s.move i d name).tree.children u ↔ u = d :=
  (inv.attached_move i d name).mem_children_self

structure Moved (s t : Vfs) (oldPath newPath : Path) (i : Nat) : Prop where
  newFound : t.resolvePath newPath = some i
  oldGone : t.resolvePath oldPath ≠ some i
  sameType : (t.vnodes i).type = (s.vnodes i).type
  sameData : (t.vnodes i).data = (s.vnodes i).data ∧ (t.vnodes i).size = (s.vnodes i).size ∧
    t.mem = s.mem
  sameFds : t.fds = s.fds
  reachable : ∀ v, s.tree.Reaches 0 v → t.tree.Reaches 0 v

/-- The condition: the two ways to read the new path agree, and its directory is not the vnode or
below it. -/
def MovesSafely (s : Vfs) (newPath : Path) (i : Nat) : Prop :=
  ∃ d name, s.resolveParent newPath = some (d, name) ∧ Agrees s newPath d ∧ ¬ s.tree.Reaches i d

section
variable (makes : Renames s oldPath newPath i d name) (inv : Inv s)
include makes inv

lemma Renames.walk_dir (outside : ¬ s.tree.Reaches i d) {cs : List Path}
    (walk : s.tree.walk 0 cs = some d) : (s.move i d name).tree.walk 0 cs = some d := by
  refine NameTree.walk_of_agree (fun u c v found other => inv.lookup_move found other) walk ?_
  intro ds isPrefix _ atMoved
  obtain ⟨rest, rfl⟩ := isPrefix
  obtain ⟨u, first, second⟩ := NameTree.walk_append_eq_some.mp walk
  obtain rfl := Option.mem_unique first atMoved
  exact outside (NameTree.reaches_of_walk second)

lemma Renames.newFound (agrees : Agrees s newPath d) (outside : ¬ s.tree.Reaches i d) :
    (s.move i d name).resolvePath newPath = some i := by
  obtain ⟨absolute, named, -, -⟩ := resolveParent_eq_some makes.parent
  have isName := agrees.name_eq makes.parent
  have dir := agrees.dir
  rw [resolvePath_parentPath s absolute] at dir
  have agrees' : Agrees (s.move i d name) newPath d := by
    refine ⟨agrees.name_le, ?_⟩
    rw [resolvePath_parentPath _ absolute]
    exact makes.walk_dir inv outside dir
  rw [agrees'.resolvePath_eq_lookup absolute named, ← isName]
  have attached := inv.attached_move i d name
  have newName : (s.move i d name).tree.name i = name := by
    show ((s.move i d name).vnodes i).name = name
    rw [move_name, if_pos rfl]
  -- the name was not in use in the directory, so it is not after the removal
  have absent : (s.removeChild (s.vnodes i).parent i).tree.lookup d name = none := by
    have before := makes.absent
    rw [agrees.resolvePath_eq_lookup absolute named, ← isName] at before
    have unused := NameTree.name_ne_of_lookup_eq_none (decide_eq_true makes.isDir) before
    cases found : (s.removeChild (s.vnodes i).parent i).tree.lookup d name with
    | none => rfl
    | some v =>
      obtain ⟨-, member, sameName⟩ := NameTree.lookup_eq_some found
      rw [(inv.detached i).name] at sameName
      exact absurd sameName (unused v ((inv.detached i).mem_children.mp member).1)
  have isDir : (s.removeChild (s.vnodes i).parent i).tree.isDir d = true := by
    rw [(inv.detached i).isDir]
    exact decide_eq_true makes.isDir
  have last := attached.lookup_self isDir
  rw [newName] at last
  exact last absent

lemma Renames.inv_move : Inv (s.move i d name) := by
  obtain ⟨lt, used⟩ := inv.resolvePath_used makes.found
  exact inv.move makes.notRoot lt used (resolvePath_mem makes.found makes.notRoot)
    (inv.resolveParent_used makes.parent) makes.isDir makes.room

lemma Renames.moved (agrees : Agrees s newPath d) (outside : ¬ s.tree.Reaches i d) :
    Moved s (s.move i d name) oldPath newPath i := by
  have inv' := makes.inv_move inv
  have found := makes.newFound inv agrees outside
  refine ⟨found, fun old => ?_, (move_keeps s i d name i).type,
    ⟨(move_keeps s i d name i).data, by rw [move_vnodes], (move_rest ..).2.2⟩, (move_rest ..).1,
    fun v reaches => ?_⟩
  · -- both paths would have the same components
    obtain ⟨newRest, rfl, newWalk⟩ := resolvePath_eq_some found
    obtain ⟨oldRest, rfl, oldWalk⟩ := resolvePath_eq_some old
    have same := inv'.rooted.walk_unique newWalk oldWalk
    have absent := makes.absent
    have there := makes.found
    rw [resolvePath, if_pos rfl] at absent there
    rw [same, there] at absent
    cases absent
  · obtain ⟨newRest, -, newWalk⟩ := resolvePath_eq_some found
    have movedReached := NameTree.reaches_of_walk newWalk
    -- along a trail every link but the one to the moved vnode is still there
    obtain ⟨vs, trail⟩ := reaches
    induction vs using reverseRecOn generalizing v with
    | nil => exact ⟨[], trail⟩
    | append_singleton vs w ih =>
      obtain ⟨rfl, u, before, child⟩ := NameTree.trail_concat.mp trail
      by_cases isMoved : w = i
      · rw [isMoved]
        exact movedReached
      · exact (ih u before).trans ⟨[w], (inv.mem_move isMoved).mpr child, rfl⟩

end

lemma Renames.trail_off (makes : Renames s oldPath newPath i d name) (inv : Inv s) {vs : List Nat}
    (trail : (s.move i d name).tree.Trail 0 vs d) : i ∉ vs := by
  intro member
  have rooted := (makes.inv_move inv).rooted
  obtain ⟨before, behind, rfl⟩ := append_of_mem member
  have whole : (s.move i d name).tree.Trail 0 (before ++ i :: behind ++ [i]) i :=
    NameTree.trail_concat.mpr ⟨rfl, d, trail, inv.mem_move_self.mpr rfl⟩
  obtain ⟨u, first, child, -⟩ := NameTree.trail_append.mp trail
  have short : (s.move i d name).tree.Trail 0 (before ++ [i]) i :=
    NameTree.trail_concat.mpr ⟨rfl, u, first, child⟩
  have same := congrArg length (rooted.trail_unique short whole)
  simp only [length_append, length_cons, length_nil] at same
  omega

lemma Renames.safely_of_found (makes : Renames s oldPath newPath i d name) (inv : Inv s)
    (found : (s.move i d name).resolvePath newPath = some i) : MovesSafely s newPath i := by
  obtain ⟨absolute, -, -, -⟩ := resolveParent_eq_some makes.parent
  have inv' := makes.inv_move inv
  have newName : (s.move i d name).tree.name i = name := by
    show ((s.move i d name).vnodes i).name = name
    rw [move_name, if_pos rfl]
  rw [resolvePath_eq _ absolute] at found
  obtain ⟨ds, split, toDir, -⟩ := inv'.rooted.walk_child found (inv.mem_move_self.mpr rfl)
  rw [newName] at split
  obtain ⟨vs, trail, names⟩ := NameTree.exists_trail_of_walk toDir
  have off := makes.trail_off inv trail
  -- the trail to the directory was there before, with the same names
  have trail' : s.tree.Trail 0 vs d :=
    trail.of_links (fun u v other member => (inv.mem_move other).mp member) off
  have names' : vs.map s.tree.name = ds := by
    rw [← names]
    apply map_congr_left
    intro v member
    have other : v ≠ i := fun isMoved => off (isMoved ▸ member)
    show (s.vnodes v).name = ((s.move i d name).vnodes v).name
    rw [move_name, if_neg other]
  refine ⟨d, name, makes.parent, ?_, fun ⟨ws, below⟩ => ?_⟩
  · refine agrees_of_components makes.parent (fun cs walk => ?_) split
    obtain ⟨ws, otherTrail, rfl⟩ := NameTree.exists_trail_of_walk walk
    rw [inv.rooted.trail_unique otherTrail trail', names']
  · obtain ⟨rest, -, walk⟩ := resolvePath_eq_some makes.found
    obtain ⟨us, toMoved, -⟩ := NameTree.exists_trail_of_walk walk
    have through : s.tree.Trail 0 (us ++ ws) d := NameTree.trail_append.mpr ⟨i, toMoved, below⟩
    rw [inv.rooted.trail_unique trail' through] at off
    rcases toMoved.mem_or with member | ⟨-, isRoot⟩
    · exact off (mem_append_left _ member)
    · exact makes.notRoot isRoot.symm

theorem rename_moves_iff {s t : Vfs} (h : Reachable VfsBooted VfsStep s) {oldPath newPath : Path}
    {i : Nat} (found : s.resolvePath oldPath = some i)
    (renamed : s.vfsRename oldPath newPath = (true, t)) :
    Moved s t oldPath newPath i ↔ MovesSafely s newPath i := by
  have inv := inv_of_reachable h
  rcases vfsRename_cases s oldPath newPath with failed | ⟨j, d, name, makes, result⟩
  · rw [failed] at renamed
    cases renamed
  · rw [result] at renamed
    cases renamed
    obtain rfl := Option.mem_unique found makes.found
    constructor
    · intro moved
      exact makes.safely_of_found inv moved.newFound
    · intro ⟨e, name', parent, agrees, outside⟩
      cases makes.parent.symm.trans parent
      exact makes.moved inv agrees outside

theorem rename_moves_iff_one_file :
    Moved oneFile (oneFile.vfsRename [slash, 0x61#8] [slash, 0x62#8]).2 [slash, 0x61#8]
      [slash, 0x62#8] 1 := by
  have renamed : oneFile.vfsRename [slash, 0x61#8] [slash, 0x62#8] =
      (true, (oneFile.vfsRename [slash, 0x61#8] [slash, 0x62#8]).2) := Prod.ext (by decide) rfl
  refine (rename_moves_iff oneFile_reachable (by decide) renamed).mpr ?_
  refine ⟨0, [0x62#8], by decide, ⟨by decide, by decide⟩, fun ⟨vs, trail⟩ => ?_⟩
  rcases eq_nil_or_concat' vs with rfl | ⟨vs, v, rfl⟩
  · cases trail
  · obtain ⟨rfl, u, -, child⟩ := NameTree.trail_concat.mp trail
    exact (inv_of_reachable oneFile_reachable).rooted.root_top u child

def oneDirectory : Vfs := (init fun _ => 0).after (.mkdir [slash, 0x61#8])

/-- `vfs_rename("/a", "/a/b")`: the directory becomes its own child and is lost. -/
theorem directory_moved_into_itself :
    Reachable VfsBooted VfsStep oneDirectory ∧
      (oneDirectory.vfsRename [slash, 0x61#8] [slash, 0x61#8, slash, 0x62#8]).1 = true ∧
      (oneDirectory.vfsRename [slash, 0x61#8] [slash, 0x61#8, slash, 0x62#8]).2.resolvePath
        [slash, 0x61#8, slash, 0x62#8] = none := by
  have booted : Reachable VfsBooted VfsStep (init fun _ => 0) := Reachable.start ⟨_, rfl⟩
  have made : VfsStep (init fun _ => 0) (.mkdir [slash, 0x61#8]) oneDirectory := ⟨trivial, rfl⟩
  refine ⟨booted.next made, ?_, ?_⟩
  · decide
  · decide

end Vfs

end MicroOs.Fs
