import MicroOs.Fs.Proofs.VfsCalls

/-!
# Failed calls

Every call of the file system checks what it needs before it changes anything, with one exception:
`vfs_open` takes the descriptor last. When there is none left, a new file has its vnode and its
entry in the directory already, and the call still returns -1.
-/

namespace MicroOs.Fs
open Lib

variable {block d i : Nat} {fd : Int} {name : Path}

namespace Vfs

variable {s : Vfs} {path : Path}

def Failed (s : Vfs) : Op → Prop
  | .open path create block => (s.vfsOpen path create block).1 = none
  | .close fd => (s.vfsClose fd).1 = false
  | .write fd buf count => (s.vfsWrite fd buf count).1 = none
  | .mkdir path => (s.vfsMkdir path).1 = false
  | .unlink path => (s.vfsUnlink path).1 = false
  | .rename oldPath newPath => (s.vfsRename oldPath newPath).1 = false
  | .read _ _ | .stat _ | .readdir _ _ | .elsewhere _ => False

/-- The call has a new file to create and no descriptor for it. -/
def LacksDescriptor (s : Vfs) : Op → Prop
  | .open path create _ =>
    create = true ∧ (∃ i d name, Creates s path i d name) ∧ s.allocFd = none
  | _ => False

lemma link_keeps (s : Vfs) (d i j : Nat) : ((s.link d i).vnodes j).used = (s.vnodes j).used ∧
    ((s.link d i).vnodes j).type = (s.vnodes j).type := by
  unfold link
  split
  · rw [modifyNode_children s d fun dir => dir.children ++ [i]]
    exact ⟨rfl, rfl⟩
  · exact ⟨rfl, rfl⟩

lemma Creates.changed (makes : Creates s path i d name) (block : Nat) :
    (s.createFile i d name block).link d i ≠ s := by
  intro same
  have taken : (((s.createFile i d name block).link d i).vnodes i).used = true := by
    rw [(link_keeps ..).1, createFile_vnodes, Function.update_self]
    rfl
  have free := (allocVnode_spec makes.slot).2
  rw [same, free] at taken
  cases taken

lemma openNode_allocFd (s : Vfs) (path : Path) (create : Bool) (block : Nat) :
    (s.openNode path create block).2.allocFd = s.allocFd := by
  unfold allocFd
  rw [openNode_fds]

lemma Creates.openNode (makes : Creates s path i d name) (block : Nat) :
    s.openNode path true block = (some i, (s.createFile i d name block).link d i) := by
  unfold Vfs.openNode
  simp [makes.absent, makes.parent, makes.isDir, makes.slot]

lemma Creates.allocFd (makes : Creates s path i d name)
    (failed : (s.vfsOpen path true block).1 = none) : s.allocFd = none := by
  have isFile : (((s.createFile i d name block).link d i).vnodes i).type = .file := by
    rw [(link_keeps ..).2, createFile_vnodes, Function.update_self]
    rfl
  have same := openNode_allocFd s path true block
  rw [makes.openNode] at same
  unfold vfsOpen at failed
  rw [makes.openNode] at failed
  cases slot : ((s.createFile i d name block).link d i).allocFd with
  | none => rw [← same, slot]
  | some fd => simp [isFile, slot] at failed

lemma vfsOpen_failed {create : Bool} (failed : (s.vfsOpen path create block).1 = none) :
    (s.vfsOpen path create block).2 = s ↔ ¬s.LacksDescriptor (.open path create block) := by
  have result : (s.vfsOpen path create block).2 = (s.openNode path create block).2 := by
    rcases vfsOpen_cases s path create block with eq | ⟨i, t, fd, -, -, -, eq⟩
    · rw [eq]
    · rw [eq] at failed
      cases failed
  rw [result]
  by_cases creates : create = true ∧ ∃ i d name, Creates s path i d name
  · obtain ⟨rfl, i, d, name, makes⟩ := creates
    have lacks : s.LacksDescriptor (.open path true block) :=
      ⟨rfl, ⟨i, d, name, makes⟩, makes.allocFd failed⟩
    rw [makes.openNode]
    exact iff_of_false (makes.changed block) (not_not.mpr lacks)
  · have eq : s.openNode path create block = (s.resolvePath path, s) := by
      rcases openNode_cases s path create block with eq | ⟨i, d, name, isTrue, makes, -⟩
      · exact eq
      · exact absurd ⟨isTrue, i, d, name, makes⟩ creates
    rw [eq]
    exact iff_of_true rfl fun lacks => creates ⟨lacks.1, lacks.2.1⟩

lemma vfsClose_failed (failed : (s.vfsClose fd).1 = false) : (s.vfsClose fd).2 = s := by
  unfold vfsClose at failed ⊢
  cases h : s.openFd fd with
  | none => rfl
  | some f => simp [h] at failed

lemma vfsWrite_failed {buf : Nat → Byte} {count : Nat}
    (failed : (s.vfsWrite fd buf count).1 = none) : (s.vfsWrite fd buf count).2 = s := by
  rcases vfsWrite_cases s fd buf count with same | ⟨f, -, -, -, result⟩
  · exact same
  · rw [result] at failed
    cases failed

/-- A call that returns -1 leaves the vnodes, the directories, the descriptors and the contents as
they were, unless it had a file to create and no descriptor. -/
theorem failed_call_changes_nothing_iff (op : Op) (failed : s.Failed op) :
    s.after op = s ↔ ¬s.LacksDescriptor op := by
  cases op with
  | «open» path create block => exact vfsOpen_failed failed
  | close fd =>
    exact iff_of_true (vfsClose_failed failed) id
  | write fd buf count =>
    exact iff_of_true (vfsWrite_failed failed) id
  | mkdir path =>
    refine iff_of_true ?_ id
    rcases vfsMkdir_cases s path with eq | ⟨i, d, name, -, eq⟩
    · exact congrArg Prod.snd eq
    · exact absurd failed (by simp [Failed, eq])
  | unlink path =>
    refine iff_of_true ?_ id
    rcases vfsUnlink_cases s path with eq | ⟨i, -, -, -, eq⟩
    · exact congrArg Prod.snd eq
    · exact absurd failed (by simp [Failed, eq])
  | rename oldPath newPath =>
    refine iff_of_true ?_ id
    rcases vfsRename_cases s oldPath newPath with eq | ⟨i, d, name, -, eq⟩
    · exact congrArg Prod.snd eq
    · exact absurd failed (by simp [Failed, eq])
  | read | stat | readdir | elsewhere => exact failed.elim

/-- The file `/a` opened `n` times, with no memory for its data. -/
def openedTimes : Nat → Vfs
  | 0 => init fun _ => 0
  | n + 1 => (openedTimes n).after (.open [slash, 0x61#8] true 0)

lemma openedTimes_reachable (n : Nat) : Reachable VfsBooted VfsStep (openedTimes n) := by
  induction n with
  | zero => exact Reachable.start ⟨_, rfl⟩
  | succ n ih =>
    apply ih.next (e := .open [slash, 0x61#8] true 0)
    exact ⟨Or.inl rfl, rfl⟩

theorem failed_call_changes_nothing_close : (openedTimes 1).Failed (.close 5) ∧
    (openedTimes 1).after (.close 5) = openedTimes 1 := by
  have failed : (openedTimes 1).Failed (.close 5) := by
    show ((openedTimes 1).vfsClose 5).1 = false
    decide
  exact ⟨failed, (failed_call_changes_nothing_iff _ failed).mpr id⟩

/-- With all descriptors in use, the creation of `/b` fails, and the file is there. -/
theorem failed_open_creates_file : Reachable VfsBooted VfsStep (openedTimes vfsMaxFd) ∧
    (openedTimes vfsMaxFd).Failed (.open [slash, 0x62#8] true 0) ∧
    (openedTimes vfsMaxFd).resolvePath [slash, 0x62#8] = none ∧
    ((openedTimes vfsMaxFd).after (.open [slash, 0x62#8] true 0)).resolvePath [slash, 0x62#8] =
      some 2 := by
  refine ⟨openedTimes_reachable _, ?_, ?_, ?_⟩
  · show ((openedTimes vfsMaxFd).vfsOpen [slash, 0x62#8] true 0).1 = none
    decide +kernel
  · decide +kernel
  · decide +kernel

end Vfs

end MicroOs.Fs
