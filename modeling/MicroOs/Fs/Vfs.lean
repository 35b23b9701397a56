import MicroOs.Lib.AllocLog
import MicroOs.Lib.ByteFile
import MicroOs.Lib.NameTree
import MicroOs.Lib.Transition

/-!
# The virtual file system

Model of `kernel/fs/vfs.c`. A path or a name is the list of its bytes before the terminating zero;
a `NULL` path behaves as the empty one. An index of -1 is `none`. Data pointers are addresses into
one memory, 0 for `NULL`; the log records `kmalloc`, whose result is an argument, and `kfree`.
-/

namespace MicroOs.Fs
open Lib
open Function (update)

abbrev Byte := BitVec 8

/-- The bytes of a string. -/
abbrev Path := List Byte

/-- The character `/`. -/
def slash : Byte := 0x2F#8

/-- `VFS_MAX_NAME` (`vfs.h:15`). -/
def vfsMaxName : Nat := 64
/-- `VFS_MAX_FILES`. -/
def vfsMaxFiles : Nat := 128
/-- `VFS_MAX_FD`. -/
def vfsMaxFd : Nat := 64
/-- `VFS_MAX_DATA`. -/
def vfsMaxData : Nat := 16384
/-- The length of `children` (`vfs.h:32`). -/
def maxChildren : Nat := 32
/-- The size of `parent_path` (`vfs.c:135`). -/
def parentPathSize : Nat := 256

inductive VNodeType where
  | file
  | directory
  deriving DecidableEq, Repr

/-- `VNode` (`vfs.h:25-35`); `children` are the first `child_count` elements of the array. -/
structure VNode where
  name : Path
  type : VNodeType
  data : Nat
  size : Nat
  capacity : Nat
  parent : Option Nat
  children : List Nat
  used : Bool
  deriving DecidableEq, Repr

/-- `FileDesc` (`vfs.h:38-42`). -/
structure FileDesc where
  vnode : Nat
  offset : Nat
  used : Bool
  deriving DecidableEq, Repr

/-- `VfsStat` (`vfs.h:45-49`). -/
structure VfsStat where
  type : VNodeType
  size : Nat
  name : Path
  deriving DecidableEq, Repr

/-- What `memset` leaves of a vnode. -/
def VNode.zero : VNode := ⟨[], .file, 0, 0, 0, some 0, [], false⟩

/-- The tables, the memory that the data pointers point into, and the calls of the heap. -/
structure Vfs where
  vnodes : Nat → VNode
  fds : Nat → FileDesc
  mem : Nat → Byte
  log : List (AllocEvent Nat)

namespace Vfs

/-- `vfs_init` (`vfs.c:147-157`). -/
def init (mem : Nat → Byte) : Vfs where
  vnodes := update (fun _ => VNode.zero) 0
    { VNode.zero with used := true, type := .directory, parent := none, name := [slash] }
  fds := fun _ => ⟨0, 0, false⟩
  mem := mem
  log := []

def modifyNode (s : Vfs) (i : Nat) (f : VNode → VNode) : Vfs :=
  { s with vnodes := update s.vnodes i (f (s.vnodes i)) }

def modifyFd (s : Vfs) (fd : Nat) (f : FileDesc → FileDesc) : Vfs :=
  { s with fds := update s.fds fd (f (s.fds fd)) }

/-- The slot that `alloc_vnode` takes (`vfs.c:18-29`). -/
def allocVnode (s : Vfs) : Option Nat :=
  (List.range vfsMaxFiles).find? fun i => !(s.vnodes i).used

/-- The slot that `alloc_fd` takes (`vfs.c:32-42`). -/
def allocFd (s : Vfs) : Option Nat :=
  (List.range vfsMaxFd).find? fun i => !(s.fds i).used

/-- The directories as a tree of names. -/
def tree (s : Vfs) : NameTree Nat Path where
  isDir i := (s.vnodes i).type = .directory
  children i := (s.vnodes i).children
  name i := (s.vnodes i).name

/-- The components that the loop of `resolve_path` takes off the path, `component` being the one
it is in (`vfs.c:63-76`): one that fills the buffer ends there, and empty ones are skipped. -/
def componentsFrom (component : Path) : Path → List Path
  | [] => if component = [] then [] else [component]
  | c :: path =>
    if c = slash then
      if component = [] then componentsFrom [] path else component :: componentsFrom [] path
    else if component.length < vfsMaxName - 1 then componentsFrom (component ++ [c]) path
    else component :: componentsFrom [c] path

def components (path : Path) : List Path := componentsFrom [] path

/-- `resolve_path` (`vfs.c:50-98`). -/
def resolvePath (s : Vfs) : Path → Option Nat
  | [] => none
  | c :: path => if c = slash then s.tree.walk 0 (components path) else none

/-- The bytes before the last `/`. -/
def beforeLastSlash : Path → Path
  | [] => []
  | c :: path => if slash ∈ path then c :: beforeLastSlash path else []

/-- The bytes behind the last `/`. -/
def afterLastSlash : Path → Path
  | [] => []
  | c :: path =>
    if slash ∈ path then afterLastSlash path else if c = slash then path else c :: path

/-- `resolve_parent` (`vfs.c:104-142`): the directory and `name_out`. -/
def resolveParent (s : Vfs) (path : Path) : Option (Nat × Path) :=
  if path.head? ≠ some slash then none
  else if afterLastSlash path = [] then none
  else
    let name := (afterLastSlash path).take (vfsMaxName - 1)
    if beforeLastSlash path = [] then some (0, name)
    else (s.resolvePath ((beforeLastSlash path).take (parentPathSize - 1))).map fun d => (d, name)

/-- `fds[fd]` is in use; the number of it. -/
def openFd (s : Vfs) (fd : Int) : Option Nat :=
  if fd < 0 ∨ vfsMaxFd ≤ fd ∨ (s.fds fd.toNat).used = false then none else some fd.toNat

/-- Appends to the children of a directory if there is room (`vfs.c:182-185, 291-293`). -/
def link (s : Vfs) (parent i : Nat) : Vfs :=
  if (s.vnodes parent).children.length < maxChildren then
    s.modifyNode parent fun dir => { dir with children := dir.children ++ [i] }
  else s

/-- Takes the first entry with this index out of the children (`vfs.c:334-347, 387-398`). -/
def removeChild (s : Vfs) (parent : Option Nat) (i : Nat) : Vfs :=
  match parent with
  | none => s
  | some d => s.modifyNode d fun dir => { dir with children := dir.children.erase i }

/-- The vnode that `vfs_open` fills in (`vfs.c:175-180`). -/
def newFile (parent : Nat) (name : Path) (block : Nat) : VNode :=
  { VNode.zero with
    used := true, name := name, type := .file, parent := some parent, data := block
    capacity := if block = 0 then 0 else vfsMaxData }

/-- The new vnode of `vfs_open` and its buffer (`vfs.c:171-180`). -/
def createFile (s : Vfs) (i parent : Nat) (name : Path) (block : Nat) : Vfs :=
  { s with
    vnodes := update s.vnodes i (newFile parent name block)
    log := if block = 0 then s.log else .alloc block :: s.log }

/-- The vnode that `vfs_open` goes on with (`vfs.c:162-186`). -/
def openNode (s : Vfs) (path : Path) (create : Bool) (block : Nat) : Option Nat × Vfs :=
  match s.resolvePath path with
  | some i => (some i, s)
  | none =>
    if !create then (none, s)
    else match s.resolveParent path with
      | none => (none, s)
      | some (parent, name) =>
        if (s.vnodes parent).type ≠ .directory then (none, s)
        else match s.allocVnode with
          | none => (none, s)
          | some i => (some i, (s.createFile i parent name block).link parent i)

/-- `vfs_open` (`vfs.c:160-201`). -/
def vfsOpen (s : Vfs) (path : Path) (create : Bool) (block : Nat) : Option Nat × Vfs :=
  match s.openNode path create block with
  | (none, t) => (none, t)
  | (some i, t) =>
    if (t.vnodes i).type = .directory then (none, t)
    else match t.allocFd with
      | none => (none, t)
      | some fd => (some fd, t.modifyFd fd fun _ => ⟨i, 0, true⟩)

/-- `vfs_close` (`vfs.c:204-210`); it returns 0. -/
def vfsClose (s : Vfs) (fd : Int) : Bool × Vfs :=
  match s.openFd fd with
  | none => (false, s)
  | some f => (true, s.modifyFd f fun desc => { desc with used := false })

/-- `vfs_read` (`vfs.c:213-229`): the bytes it puts into the buffer. -/
def vfsRead (s : Vfs) (fd : Int) (count : Nat) : Option (List Byte) × Vfs :=
  match s.openFd fd with
  | none => (none, s)
  | some f =>
    let offset := (s.fds f).offset
    let vn := s.vnodes (s.fds f).vnode
    if vn.data = 0 then (some [], s)
    else
      let avail := if offset < vn.size then vn.size - offset else 0
      let count := if avail < count then avail else count
      (some (window s.mem (vn.data + offset) count),
        s.modifyFd f fun desc => { desc with offset := offset + count })

/-- The number of bytes that `vfs_write` stores (`vfs.c:241-247`). -/
def writeCount (vn : VNode) (offset count : Nat) : Nat :=
  if vn.capacity < count ∨ vn.capacity - count < offset then
    if vn.capacity ≤ offset then 0 else vn.capacity - offset
  else count

/-- `vfs_write` (`vfs.c:232-256`); `buf` is the memory from the buffer on. -/
def vfsWrite (s : Vfs) (fd : Int) (buf : Nat → Byte) (count : Nat) : Option Nat × Vfs :=
  match s.openFd fd with
  | none => (none, s)
  | some f =>
    let offset := (s.fds f).offset
    let i := (s.fds f).vnode
    let vn := s.vnodes i
    if vn.data = 0 then (none, s)
    else
      let count := writeCount vn offset count
      if count = 0 then (some 0, s)
      else
        let copy := { s with mem := copied s.mem (vn.data + offset) buf count }
        let moved := copy.modifyFd f fun desc => { desc with offset := offset + count }
        (some count, moved.modifyNode i fun vn =>
          { vn with size := if vn.size < offset + count then offset + count else vn.size })

/-- What `vfs_stat` and `vfs_readdir` report of a vnode. -/
def statOf (s : Vfs) (i : Nat) : VfsStat :=
  ⟨(s.vnodes i).type, (s.vnodes i).size, (s.vnodes i).name⟩

/-- `vfs_stat` (`vfs.c:259-269`). -/
def vfsStat (s : Vfs) (path : Path) : Option VfsStat := (s.resolvePath path).map s.statOf

/-- The vnode that `vfs_mkdir` fills in (`vfs.c:287-289`). -/
def newDirectory (parent : Nat) (name : Path) : VNode :=
  { VNode.zero with used := true, name := name, type := .directory, parent := some parent }

/-- The new vnode of `vfs_mkdir` (`vfs.c:283-289`). -/
def createDirectory (s : Vfs) (i parent : Nat) (name : Path) : Vfs :=
  { s with vnodes := update s.vnodes i (newDirectory parent name) }

/-- `vfs_mkdir` (`vfs.c:272-296`); it returns 0. -/
def vfsMkdir (s : Vfs) (path : Path) : Bool × Vfs :=
  match s.resolvePath path with
  | some _ => (false, s)
  | none =>
    match s.resolveParent path with
    | none => (false, s)
    | some (parent, name) =>
      if (s.vnodes parent).type ≠ .directory then (false, s)
      else match s.allocVnode with
        | none => (false, s)
        | some i => (true, (s.createDirectory i parent name).link parent i)

/-- `vfs_readdir` (`vfs.c:299-319`): the entries it fills in. -/
def vfsReaddir (s : Vfs) (path : Path) (maxEntries : Int) : Option (List VfsStat) :=
  match s.resolvePath path with
  | none => none
  | some i =>
    if (s.vnodes i).type ≠ .directory then none
    else some (((s.vnodes i).children.take maxEntries.toNat).map s.statOf)

/-- Frees the data, closes the descriptors and gives the slot up (`vfs.c:349-361`). -/
def release (s : Vfs) (i : Nat) : Vfs :=
  { s with
    vnodes := update s.vnodes i { s.vnodes i with data := 0, used := false }
    fds := fun fd =>
      if fd < vfsMaxFd ∧ (s.fds fd).used ∧ (s.fds fd).vnode = i then
        { s.fds fd with used := false }
      else s.fds fd
    log := if (s.vnodes i).data = 0 then s.log else .free (s.vnodes i).data :: s.log }

/-- `vfs_unlink` (`vfs.c:322-363`); it returns 0. -/
def vfsUnlink (s : Vfs) (path : Path) : Bool × Vfs :=
  match s.resolvePath path with
  | none => (false, s)
  | some i =>
    if i = 0 then (false, s)
    else if (s.vnodes i).type = .directory ∧ 0 < (s.vnodes i).children.length then (false, s)
    else (true, (s.removeChild (s.vnodes i).parent i).release i)

/-- Moves a vnode from its directory to the end of another (`vfs.c:387-405`). -/
def move (s : Vfs) (i parent : Nat) (name : Path) : Vfs :=
  let detached := s.removeChild (s.vnodes i).parent i
  let attached := detached.modifyNode parent fun dir => { dir with children := dir.children ++ [i] }
  attached.modifyNode i fun vn => { vn with name := name, parent := some parent }

/-- `vfs_rename` (`vfs.c:366-408`); it returns 0. -/
def vfsRename (s : Vfs) (oldPath newPath : Path) : Bool × Vfs :=
  match s.resolvePath oldPath with
  | none => (false, s)
  | some i =>
    if i = 0 then (false, s)
    else match s.resolvePath newPath with
      | some _ => (false, s)
      | none =>
        match s.resolveParent newPath with
        | none => (false, s)
        | some (parent, name) =>
          if (s.vnodes parent).type ≠ .directory then (false, s)
          else if some parent ≠ (s.vnodes i).parent ∧
              maxChildren ≤ (s.vnodes parent).children.length then (false, s)
          else (true, s.move i parent name)

/-- A call of the interface, or what the rest of the kernel does to the memory. -/
inductive Op where
  | open (path : Path) (create : Bool) (block : Nat)
  | close (fd : Int)
  | read (fd : Int) (count : Nat)
  | write (fd : Int) (buf : Nat → Byte) (count : Nat)
  | stat (path : Path)
  | mkdir (path : Path)
  | readdir (path : Path) (maxEntries : Int)
  | unlink (path : Path)
  | rename (oldPath newPath : Path)
  | elsewhere (mem : Nat → Byte)

/-- The state after it. -/
def after (s : Vfs) : Op → Vfs
  | .open path create block => (s.vfsOpen path create block).2
  | .close fd => (s.vfsClose fd).2
  | .read fd count => (s.vfsRead fd count).2
  | .write fd buf count => (s.vfsWrite fd buf count).2
  | .stat _ => s
  | .mkdir path => (s.vfsMkdir path).2
  | .readdir _ _ => s
  | .unlink path => (s.vfsUnlink path).2
  | .rename oldPath newPath => (s.vfsRename oldPath newPath).2
  | .elsewhere mem => { s with mem := mem }

/-- The blocks of `VFS_MAX_DATA` bytes at these addresses have no byte in common. -/
def Apart (a b : Nat) : Prop := a + vfsMaxData ≤ b ∨ b + vfsMaxData ≤ a

instance (a b : Nat) : Decidable (Apart a b) := inferInstanceAs (Decidable (_ ∨ _))

/-- What the rest of the kernel sees to: `kmalloc` returns `NULL` or a block apart from those the
file system has, and nobody else writes to these. -/
def Allows (s : Vfs) : Op → Prop
  | .open _ _ block => block = 0 ∨ ∀ b ∈ live s.log, Apart block b
  | .elsewhere mem => ∀ b ∈ live s.log, ∀ k, k < vfsMaxData → mem (b + k) = s.mem (b + k)
  | _ => True

end Vfs

def VfsBooted (s : Vfs) : Prop := ∃ mem, s = Vfs.init mem

/-- One call. -/
def VfsStep (s : Vfs) (op : Vfs.Op) (t : Vfs) : Prop := s.Allows op ∧ t = s.after op

end MicroOs.Fs
