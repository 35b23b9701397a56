import MicroOs.Fs.Proofs.VfsInvariant

/-!
# Files as byte strings

`vfs_read` and `vfs_write` against byte strings with cursors: what the tables and the memory say
about the contents of the files and the positions of the descriptors changes in both as the
abstract operations say.
-/

namespace MicroOs.Fs
open Lib

namespace Vfs

variable {s t : Vfs} {f n : Nat} {buf : Nat → Byte}

/-- The contents of a file: the first `size` bytes of its buffer. -/
def content (s : Vfs) (i : Nat) : List Byte :=
  if (s.vnodes i).data = 0 then [] else window s.mem (s.vnodes i).data (s.vnodes i).size

/-- The contents of all files and the positions of the descriptors in use. -/
def view (s : Vfs) : ByteFiles Byte Nat Nat where
  content := s.content
  cursor f := if (s.fds f).used then some ((s.fds f).vnode, (s.fds f).offset) else none

lemma view_cursor (used : (s.fds f).used = true) :
    s.view.cursor f = some ((s.fds f).vnode, (s.fds f).offset) := if_pos used

lemma content_of_data {i : Nat} (hasData : (s.vnodes i).data ≠ 0) :
    s.content i = window s.mem (s.vnodes i).data (s.vnodes i).size := if_neg hasData

lemma view_get (used : (s.fds f).used = true) :
    s.view.get f n = ((s.content (s.fds f).vnode).drop (s.fds f).offset).take n := by
  rw [ByteFiles.get, view_cursor used]
  rfl

lemma Inv.vfsRead_eq (inv : Inv s) (opened : Opened s f) :
    s.vfsRead f n = (some (s.view.get f n), s.modifyFd f fun desc =>
      { desc with offset := (s.fds f).offset + (s.view.get f n).length }) := by
  have bytes : s.view.get f n = window s.mem ((s.vnodes (s.fds f).vnode).data + (s.fds f).offset)
      (s.readCount f n) := by
    rw [view_get opened.used, content_of_data opened.hasData, take_drop_window]
    rfl
  rw [bytes, length_window, vfsRead_opened (inv.fd_lt f opened.used) opened]

lemma view_modifyFd_offset (used : (s.fds f).used = true) (k : Nat) :
    (s.modifyFd f fun desc => { desc with offset := (s.fds f).offset + k }).view =
      s.view.seek f k := by
  rw [ByteFiles.seek, view_cursor used]
  simp only [view, ByteFiles.mk.injEq]
  refine ⟨rfl, ?_⟩
  funext g
  rw [modifyFd_fds]
  by_cases same : g = f
  · subst same
    simp [used]
  · simp [same]

lemma writeCount_eq {vn : VNode} {offset count : Nat} (inside : offset ≤ vn.capacity) :
    writeCount vn offset count = min count (vn.capacity - offset) := by
  unfold writeCount
  split
  · split <;> omega
  · omega

section
variable (inv : Inv s) (opened : Opened s f)
include inv opened

lemma Inv.capacity_of_data : (s.vnodes (s.fds f).vnode).capacity = vfsMaxData := by
  rw [(inv.node _).capacity (inv.fd f opened.used).used, if_neg opened.hasData]

lemma Inv.offset_le_capacity : (s.fds f).offset ≤ vfsMaxData := by
  have inside := (inv.fd f opened.used).offset_le
  have fits := (inv.node (s.fds f).vnode).size_le
  rw [inv.capacity_of_data opened] at fits
  omega

lemma Inv.vfsWrite_eq :
    s.vfsWrite f buf n = (some (min n (vfsMaxData - (s.fds f).offset)),
      if min n (vfsMaxData - (s.fds f).offset) = 0 then s
      else s.stored f buf (min n (vfsMaxData - (s.fds f).offset))) := by
  have count : writeCount (s.vnodes (s.fds f).vnode) (s.fds f).offset n =
      min n (vfsMaxData - (s.fds f).offset) := by
    rw [writeCount_eq, inv.capacity_of_data opened]
    rw [inv.capacity_of_data opened]
    exact inv.offset_le_capacity opened
  simp only [Vfs.vfsWrite, openFd_ofNat (inv.fd_lt f opened.used) opened.used, opened.hasData,
    if_false, count]
  split
  case isTrue nothing => rw [nothing]
  case isFalse => rfl

lemma Inv.content_stored (buf : Nat → Byte) (k : Nat) :
    (s.stored f buf k).content (s.fds f).vnode =
      splice (s.content (s.fds f).vnode) (s.fds f).offset (window buf 0 k) := by
  have inside := (inv.fd f opened.used).offset_le
  have hasData : ((s.stored f buf k).vnodes (s.fds f).vnode).data ≠ 0 := by
    rw [stored_vnodes]
    exact opened.hasData
  rw [content_of_data hasData, content_of_data opened.hasData, stored_vnodes, if_pos rfl]
  exact window_copied s.mem buf inside

lemma Inv.content_stored_of_ne (buf : Nat → Byte) {k i : Nat}
    (fits : (s.fds f).offset + k ≤ vfsMaxData) (other : i ≠ (s.fds f).vnode) :
    (s.stored f buf k).content i = s.content i := by
  rw [content, content, stored_vnodes, if_neg other]
  dsimp only
  by_cases isNull : (s.vnodes i).data = 0
  · rw [if_pos isNull, if_pos isNull]
  · rw [if_neg isNull, if_neg isNull]
    have apart := inv.apart i (s.fds f).vnode other isNull opened.hasData
    have small := Nat.le_trans (inv.node i).size_le (inv.node i).capacity_le
    apply window_copied_of_apart
    rcases apart with before | behind
    · exact .inl (by omega)
    · exact .inr (by omega)

end

lemma stored_cursor (used : (s.fds f).used = true) (buf : Nat → Byte) (k : Nat) :
    (s.stored f buf k).view.cursor =
      Function.update s.view.cursor f (some ((s.fds f).vnode, (s.fds f).offset + k)) := by
  funext g
  simp only [view, stored_fds]
  by_cases same : g = f
  · subst same
    simp [used]
  · simp [same]

section
variable (inv : Inv s) (opened : Opened s f)
include inv opened

lemma Inv.view_stored (buf : Nat → Byte) {k : Nat} (fits : (s.fds f).offset + k ≤ vfsMaxData) :
    (s.stored f buf k).view = s.view.put f (window buf 0 k) := by
  rw [ByteFiles.put_of_cursor (view_cursor opened.used), length_window, ← stored_cursor opened.used]
  have contents : (s.stored f buf k).view.content =
      Function.update s.view.content (s.fds f).vnode
        (splice (s.view.content (s.fds f).vnode) (s.fds f).offset (window buf 0 k)) := by
    funext i
    by_cases same : i = (s.fds f).vnode
    · subst same
      rw [Function.update_self]
      exact inv.content_stored opened buf k
    · rw [Function.update_of_ne same]
      exact inv.content_stored_of_ne opened buf fits same
  rw [← contents]

lemma Inv.view_vfsWrite (buf : Nat → Byte) (n : Nat) :
    (s.vfsWrite f buf n).2.view =
      s.view.put f (window buf 0 (min n (vfsMaxData - (s.fds f).offset))) := by
  have bound := inv.offset_le_capacity opened
  rw [inv.vfsWrite_eq opened]
  dsimp only
  split
  case isTrue nothing =>
    rw [nothing]
    exact (ByteFiles.put_nil ..).symm
  case isFalse => exact inv.view_stored opened buf (by omega)

lemma Inv.content_vfsWrite (buf : Nat → Byte) (n : Nat) :
    (s.vfsWrite f buf n).2.content (s.fds f).vnode =
      splice (s.content (s.fds f).vnode) (s.fds f).offset
        (window buf 0 (min n (vfsMaxData - (s.fds f).offset))) := by
  have content := congrFun (congrArg ByteFiles.content (inv.view_vfsWrite opened buf n))
    (s.fds f).vnode
  rw [ByteFiles.put_of_cursor (view_cursor opened.used)] at content
  exact content.trans (Function.update_self ..)

lemma Inv.offset_le_length : (s.fds f).offset ≤ (s.content (s.fds f).vnode).length := by
  rw [content_of_data opened.hasData, length_window]
  exact (inv.fd f opened.used).offset_le

end

/-- Reads of these sizes, one after another: what they return. -/
def readPieces (s : Vfs) (fd : Int) : List Nat → List (Option (List Byte))
  | [] => []
  | n :: ns => (s.vfsRead fd n).1 :: (s.vfsRead fd n).2.readPieces fd ns

lemma Opened.modifyFd_offset (opened : Opened s f) (o : Nat) :
    Opened (s.modifyFd f fun desc => { desc with offset := o }) f := by
  constructor
  · rw [modifyFd_fds, if_pos rfl]
    exact opened.used
  · rw [modifyFd_fds, if_pos rfl]
    exact opened.hasData

lemma Inv.readPieces (inv : Inv s) (opened : Opened s f) (ns : List Nat) :
    s.readPieces f ns =
      (pieces (s.content (s.fds f).vnode) (s.fds f).offset ns).map some := by
  induction ns generalizing s with
  | nil => rfl
  | cons n ns ih =>
    have read := inv.vfsRead_eq (n := n) opened
    have next := inv.vfsRead f n
    have got := view_get (n := n) opened.used
    rw [read] at next
    rw [Vfs.readPieces, read, pieces, List.map_cons, ← got]
    congr 1
    have rest := ih next (opened.modifyFd_offset _)
    rw [rest, modifyFd_fds, if_pos rfl]
    rfl

/-- `vfs_read` and `vfs_write` on this descriptor do what the operations on byte strings with
cursors do. -/
structure RefinesByteFiles (s : Vfs) (f : Nat) : Prop where
  /-- `k` bytes at the descriptor's position, and nothing else. -/
  write : ∀ (buf : Nat → Byte) (n : Nat),
    let o := (s.fds f).offset
    let k := min n (vfsMaxData - o)
    let t := (s.vfsWrite f buf n).2
    (s.vfsWrite f buf n).1 = some k ∧ t.view = s.view.put f (window buf 0 k) ∧
      (t.content (s.fds f).vnode).length = max (s.content (s.fds f).vnode).length (o + k)
  /-- The bytes from there on, and only the position changes. -/
  read : ∀ n : Nat,
    (s.vfsRead f n).1 = some (s.view.get f n) ∧
      (s.vfsRead f n).2.view = s.view.seek f (s.view.get f n).length
  /-- From the start, in pieces of any sizes. -/
  pieces : (s.fds f).offset = 0 → ∀ ns : List Nat,
    ∃ bytes : List (List Byte), s.readPieces f ns = bytes.map some ∧
      bytes.flatten = (s.content (s.fds f).vnode).take ns.sum

theorem vfs_refines_byte_files {s : Vfs} (h : Reachable VfsBooted VfsStep s) {f : Nat}
    (used : (s.fds f).used = true) (hasData : (s.vnodes (s.fds f).vnode).data ≠ 0) :
    RefinesByteFiles s f := by
  have inv := inv_of_reachable h
  have opened : Opened s f := ⟨used, hasData⟩
  refine ⟨fun buf n => ?_, fun n => ?_, fun start ns => ?_⟩
  · refine ⟨?_, inv.view_vfsWrite opened buf n, ?_⟩
    · rw [inv.vfsWrite_eq opened]
    · rw [inv.content_vfsWrite opened, length_splice (inv.offset_le_length opened), length_window]
  · rw [inv.vfsRead_eq opened]
    exact ⟨rfl, view_modifyFd_offset used _⟩
  · refine ⟨_, inv.readPieces opened ns, ?_⟩
    rw [flatten_pieces, start, List.drop_zero]

theorem vfs_refines_byte_files_one_file : RefinesByteFiles oneFile 0 :=
  vfs_refines_byte_files oneFile_reachable (by decide) (by decide)

end Vfs

end MicroOs.Fs
