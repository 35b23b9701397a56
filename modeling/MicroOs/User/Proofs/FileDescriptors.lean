import MicroOs.Fs.Proofs.VfsContents
import MicroOs.User.FileCalls

/-!
# File descriptors of user programs

The file system hands out descriptor numbers from 0 on; `sys_read` takes 0 for the keyboard and
`sys_write` takes 1 and 2 for the console. From 3 on the calls do with a descriptor what the file
system does, as long as it has not been closed.
-/

namespace MicroOs.User
open Mm Fs Fs.Vfs Lib
open BitVec (ofNat toNat_ofNat)

variable {a2 a3 len pathAddr : BitVec 64} {block f g i : Nat} {create : Bool} {input : CallInput}
  {m opened : FileSys} {path : Path} {s t : Vfs}

/-- The call closes descriptor `f`, or removes its file `i`. -/
def Closes (s : Vfs) (op : Vfs.Op) (f i : Nat) : Prop :=
  op = .close f ∨ ∃ path, op = .unlink path ∧ s.resolvePath path = some i

lemma step_fd_kept {op : Vfs.Op} (step : VfsStep s op t) (used : (s.fds f).used = true)
    (refers : (s.fds f).vnode = i) (kept : ¬ Closes s op f i) :
    (t.fds f).used = true ∧ (t.fds f).vnode = i := by
  rcases step_fd step f with ⟨sameUsed, sameVnode⟩ | ⟨-, free⟩ | ⟨-, closes⟩
  · exact ⟨sameUsed.trans used, sameVnode.trans refers⟩
  · rw [free] at used
    cases used
  · rw [refers] at closes
    exact absurd closes kept

lemma run_fd_kept {trace : List (StepOf Vfs Vfs.Op)} (run : Run VfsStep s trace t)
    (used : (s.fds f).used = true) (refers : (s.fds f).vnode = i)
    (kept : ∀ st ∈ trace, ¬ Closes st.pre st.event f i) :
    (t.fds f).used = true ∧ (t.fds f).vnode = i := by
  have preserve (u : Vfs) (op : Vfs.Op) (v : Vfs)
      (before : (u.fds f).used = true ∧ (u.fds f).vnode = i) (step : VfsStep u op v)
      (kept : ¬ Closes u op f i) : (v.fds f).used = true ∧ (v.fds f).vnode = i :=
    step_fd_kept step before.1 before.2 kept
  exact run.invariant_of ⟨used, refers⟩ preserve kept

lemma vfsOpen_fd (opened : s.vfsOpen path create block = (some f, t)) : (t.fds f).used = true := by
  rcases vfsOpen_cases s path create block with failed | ⟨i, u, fd, -, -, -, result⟩
  · rw [failed] at opened
    cases opened
  · rw [result] at opened
    cases opened
    rw [modifyFd_fds, if_pos rfl]

lemma toNat_clampLen (nonneg : len.slt 0 = false) : (clampLen len).toNat = min len.toNat 65536 := by
  have small : len.toNat < 2 ^ 63 := by
    have zero : (0 : BitVec 64).toNat = 0 := rfl
    simp only [BitVec.slt, BitVec.toInt, zero, decide_eq_false_iff_not] at nonneg
    omega
  have compare : syscallMaxLen.slt len = decide (65536 < len.toNat) := by
    have max : syscallMaxLen.toNat = 65536 := by decide
    simp only [BitVec.slt, BitVec.toInt, max]
    congr 1
    apply propext
    constructor
    · omega
    · omega
  unfold clampLen
  rw [compare]
  by_cases big : 65536 < len.toNat
  · simp only [big, decide_true, if_true]
    have max : syscallMaxLen.toNat = 65536 := by decide
    omega
  · simp only [big, decide_false, Bool.false_eq_true, if_false]
    omega

lemma slt_of_sle (positive : len.sle 0 = false) : len.slt 0 = false := by
  have zero : (0 : BitVec 64).toInt = 0 := rfl
  simp only [BitVec.sle, BitVec.slt, zero, decide_eq_false_iff_not] at positive ⊢
  omega

lemma vfsWrite_clamp (inv : Inv s) (fd : Int) (buf : Nat → Fs.Byte) (n : Nat) :
    s.vfsWrite fd buf (min n 65536) = s.vfsWrite fd buf n := by
  have count (vn : VNode) (ok : NodeOk vn) (offset : Nat) :
      writeCount vn offset (min n 65536) = writeCount vn offset n := by
    have bound := ok.capacity_le
    have max : vfsMaxData = 16384 := rfl
    rcases Nat.le_total n 65536 with small | large
    · rw [Nat.min_eq_left small]
    · have below : vn.capacity < 65536 := by omega
      have below' : vn.capacity < n := by omega
      simp only [Nat.min_eq_right large, writeCount, below, below', true_or, if_true]
  unfold vfsWrite
  cases s.openFd fd with
  | none => rfl
  | some f => simp only [count _ (inv.node _)]

lemma vfsRead_clamp (inv : Inv s) (fd : Int) (n : Nat) :
    s.vfsRead fd (min n 65536) = s.vfsRead fd n := by
  cases found : s.openFd fd with
  | none => simp only [vfsRead, found]
  | some f =>
    obtain ⟨rfl, small, used⟩ := openFd_spec found
    by_cases isNull : (s.vnodes (s.fds f).vnode).data = 0
    · simp only [vfsRead, found, isNull, if_true]
    · have ok := inv.node (s.fds f).vnode
      have bound := Nat.le_trans ok.size_le ok.capacity_le
      have max : vfsMaxData = 16384 := rfl
      have same : s.readCount f (min n 65536) = s.readCount f n := by
        unfold readCount
        omega
      rw [vfsRead_opened small ⟨used, isNull⟩, vfsRead_opened small ⟨used, isNull⟩, same]

lemma intOf_ofNat (small : f < vfsMaxFd) : intOf (ofNat 64 f) = f := by
  have max : vfsMaxFd = 64 := rfl
  have below : f < 2 ^ 31 := by omega
  simp only [intOf, BitVec.toInt, BitVec.toNat_setWidth, toNat_ofNat]
  rw [Nat.mod_eq_of_lt (by omega : f < 2 ^ 64), Nat.mod_eq_of_lt (by omega : f < 2 ^ 32)]
  omega

lemma ofNat_eq_iff {k : Nat} (small : f < vfsMaxFd) (small' : k < vfsMaxFd) :
    ofNat 64 f = ofNat 64 k ↔ f = k := by
  have max : vfsMaxFd = 64 := rfl
  constructor
  · intro same
    have nats := congrArg BitVec.toNat same
    simp only [toNat_ofNat] at nats
    omega
  · intro same
    rw [same]

/-- `sys_write` with this descriptor is `vfs_write`. -/
def WritesFile (m : FileSys) (f : Nat) : Prop :=
  ∀ input bufAddr len a3, len.slt 0 = false → uptrValid bufAddr (clampLen len) = true →
    m.syscallDispatch input sysWriteNumber (ofNat 64 f) bufAddr len a3 =
      some (result (m.vfs.vfsWrite f (m.bytesAt bufAddr) len.toNat).1,
        { m with vfs := (m.vfs.vfsWrite f (m.bytesAt bufAddr) len.toNat).2 })

/-- `sys_read` with this descriptor is `vfs_read`. -/
def ReadsFile (m : FileSys) (f : Nat) : Prop :=
  ∀ input bufAddr len a3, len.sle 0 = false → uptrValid bufAddr (clampLen len) = true →
    m.syscallDispatch input sysReadNumber (ofNat 64 f) bufAddr len a3 =
      some (result ((m.vfs.vfsRead f len.toNat).1.map List.length),
        { m.store bufAddr ((m.vfs.vfsRead f len.toNat).1.getD []) with
          vfs := (m.vfs.vfsRead f len.toNat).2 })

lemma writesFile (inv : Inv m.vfs) (small : f < vfsMaxFd) (high : 3 ≤ f) : WritesFile m f := by
  intro input bufAddr len a3 nonneg valid
  have notOne : ¬ ofNat 64 f = 1 := fun same =>
    absurd ((ofNat_eq_iff small (by decide : 1 < vfsMaxFd)).mp same) (by omega)
  have notTwo : ¬ ofNat 64 f = 2 := fun same =>
    absurd ((ofNat_eq_iff small (by decide : 2 < vfsMaxFd)).mp same) (by omega)
  have checked : User.sysWrite (ofNat 64 f) bufAddr len a3 =
      some [.buffer bufAddr (clampLen len)] := by
    rw [User.sysWrite, nonneg, valid]
    rfl
  show some (m.sysWrite (ofNat 64 f) bufAddr len a3) = _
  simp only [FileSys.sysWrite, checked, notOne, notTwo, or_self, if_false, intOf_ofNat small,
    toNat_clampLen nonneg, vfsWrite_clamp inv]

lemma readsFile (inv : Inv m.vfs) (small : f < vfsMaxFd) (high : 3 ≤ f) : ReadsFile m f := by
  intro input bufAddr len a3 positive valid
  have notZero : ¬ ofNat 64 f = 0 := fun same =>
    absurd ((ofNat_eq_iff small (by decide : 0 < vfsMaxFd)).mp same) (by omega)
  have checked : User.sysRead (ofNat 64 f) bufAddr len a3 =
      some [.buffer bufAddr (clampLen len)] := by
    rw [User.sysRead, positive, valid]
    rfl
  show some (m.sysRead input.key (ofNat 64 f) bufAddr len a3) = _
  simp only [FileSys.sysRead, checked, notZero, if_false, intOf_ofNat small,
    toNat_clampLen (slt_of_sle positive), vfsRead_clamp inv]

lemma not_writesFile (console : f = 1 ∨ f = 2) : ¬ WritesFile m f := by
  intro writes
  have call := writes ⟨0, [], 0⟩ 0 1 0 (by decide) (by decide)
  have isConsole : ofNat 64 f = 1 ∨ ofNat 64 f = 2 := by
    rcases console with rfl | rfl
    · exact .inl rfl
    · exact .inr rfl
  have checked : User.sysWrite (ofNat 64 f) 0 1 0 = some [.buffer 0 1] := by
    rcases console with rfl | rfl <;> decide
  have written : m.syscallDispatch ⟨0, [], 0⟩ sysWriteNumber (ofNat 64 f) 0 1 0 =
      some (1, { m with console := m.console ++ window (m.bytesAt 0) 0 1 }) := by
    show some (m.sysWrite (ofNat 64 f) 0 1 0) = _
    simp only [FileSys.sysWrite, checked, isConsole, if_true]
    rfl
  rw [written, Option.some.injEq, Prod.mk.injEq] at call
  have longer := congrArg (fun m => m.console.length) call.2
  simp only [List.length_append, length_window] at longer
  omega

lemma not_readsFile : ¬ ReadsFile m 0 := by
  intro reads
  have read (key : BitVec 16) (small : key < 128) :
      m.syscallDispatch ⟨key, [], 0⟩ sysReadNumber (ofNat 64 0) 0 1 0 =
        some (1, m.store 0 [key.setWidth 8]) := by
    have checked : User.sysRead (ofNat 64 0) 0 1 0 = some [.buffer 0 1] := by decide
    show some (m.sysRead key (ofNat 64 0) 0 1 0) = _
    simp only [FileSys.sysRead, checked, small, if_true]
    rfl
  have first := reads ⟨0, [], 0⟩ 0 1 0 (by decide) (by decide)
  have second := reads ⟨1, [], 0⟩ 0 1 0 (by decide) (by decide)
  rw [read 0 (by decide)] at first
  rw [read 1 (by decide), ← first, Option.some.injEq, Prod.mk.injEq] at second
  have stored (b : Fs.Byte) : (m.store 0 [b]).memory 0 = b := rfl
  have byte := congrArg (fun m => m.memory 0) second.2
  simp only [stored] at byte
  exact absurd byte (by decide)

/-- What has been written with `f` is what a descriptor that is opened with a path of the file then
reads. -/
def ReadsBack (m : FileSys) (f i : Nat) : Prop :=
  ∀ input bufAddr len a3 n written, len.slt 0 = false → uptrValid bufAddr (clampLen len) = true →
    m.syscallDispatch input sysWriteNumber (ofNat 64 f) bufAddr len a3 = some (n, written) →
    written.vfs.content i = splice (m.vfs.content i) (m.vfs.fds f).offset
      (window (m.bytesAt bufAddr) 0 (min len.toNat (vfsMaxData - (m.vfs.fds f).offset))) ∧
    ∀ input pathAddr create a2 a3 (g : Nat) opened, written.vfs.resolvePath input.path = some i →
      written.syscallDispatch input sysOpenNumber pathAddr create a2 a3 =
        some ((g : Int), opened) → 3 ≤ g →
      ∀ input bufAddr len a3, len.sle 0 = false → uptrValid bufAddr (clampLen len) = true →
        ∃ read, opened.syscallDispatch input sysReadNumber (ofNat 64 g) bufAddr len a3 =
            some ((((written.vfs.content i).take len.toNat).length : Int), read) ∧
          read.memory = (opened.store bufAddr ((written.vfs.content i).take len.toNat)).memory

lemma result_eq_ofNat {r : Option Nat} (h : result r = f) : r = some f := by
  cases r with
  | none =>
    simp only [result] at h
    omega
  | some n =>
    exact congrArg some (Int.ofNat.inj h)

lemma vfsOpen_of_sysOpen {create : BitVec 64}
    (call : m.syscallDispatch input sysOpenNumber pathAddr create a2 a3 = some ((f : Int), opened)) :
    m.vfs.vfsOpen input.path (create ≠ 0) input.block = (some f, opened.vfs) := by
  have call : m.sysOpen input.path input.block pathAddr create a2 a3 = ((f : Int), opened) :=
    Option.some.inj call
  unfold FileSys.sysOpen at call
  split at call
  case h_1 =>
    have negative := congrArg Prod.fst call
    simp only at negative
    omega
  case h_2 =>
    obtain ⟨fd, rfl⟩ := Prod.mk.inj call
    exact Prod.ext (result_eq_ofNat fd) rfl

lemma vfsOpen_existing (found : s.resolvePath path = some i)
    (opened : s.vfsOpen path create block = (some g, t)) :
    g < vfsMaxFd ∧ t = s.modifyFd g fun _ => ⟨i, 0, true⟩ := by
  have node : s.openNode path create block = (some i, s) := by
    rw [openNode, found]
  rcases vfsOpen_cases s path create block with failed | ⟨j, u, fd, node', -, slot, result⟩
  · rw [failed] at opened
    cases opened
  · rw [node] at node'
    cases node'
    rw [result] at opened
    cases opened
    exact ⟨(allocFd_spec slot).1, rfl⟩

lemma opened_reads {create : BitVec 64} (inv : Inv m.vfs) (hasData : (m.vfs.vnodes i).data ≠ 0)
    (found : m.vfs.resolvePath input.path = some i)
    (call : m.syscallDispatch input sysOpenNumber pathAddr create a2 a3 = some ((g : Int), opened))
    (high : 3 ≤ g) (input' : CallInput) (bufAddr len b3 : BitVec 64) (positive : len.sle 0 = false)
    (valid : uptrValid bufAddr (clampLen len) = true) :
    ∃ read, opened.syscallDispatch input' sysReadNumber (ofNat 64 g) bufAddr len b3 =
        some ((((m.vfs.content i).take len.toNat).length : Int), read) ∧
      read.memory = (opened.store bufAddr ((m.vfs.content i).take len.toNat)).memory := by
  obtain ⟨lt, used⟩ := inv.resolvePath_used found
  have isFile : (m.vfs.vnodes i).type = .file := by
    cases type : (m.vfs.vnodes i).type with
    | file => rfl
    | directory => exact absurd ((inv.node i).directory type) hasData
  obtain ⟨below, opened_eq⟩ := vfsOpen_existing found (vfsOpen_of_sysOpen call)
  have openedInv : Inv opened.vfs := by
    rw [opened_eq]
    exact TablesOk.setFd inv (fun _ => ⟨lt, used, isFile, Nat.zero_le _⟩) below
  have fd : opened.vfs.fds g = ⟨i, 0, true⟩ := by
    rw [opened_eq, modifyFd_fds, if_pos rfl]
  have isOpen : Opened opened.vfs g := by
    refine ⟨by rw [fd], ?_⟩
    rw [fd, opened_eq]
    exact hasData
  have got : opened.vfs.view.get g len.toNat = (m.vfs.content i).take len.toNat := by
    rw [view_get isOpen.used, fd, List.drop_zero, opened_eq]
    rfl
  have call := readsFile openedInv below high input' bufAddr len b3 positive valid
  rw [openedInv.vfsRead_eq isOpen, got] at call
  exact ⟨_, call, rfl⟩

lemma readsBack (inv : Inv m.vfs) (isOpen : Opened m.vfs f) (high : 3 ≤ f) :
    ReadsBack m f (m.vfs.fds f).vnode := by
  intro input bufAddr len a3 n written nonneg valid write
  have small := inv.fd_lt f isOpen.used
  rw [writesFile inv small high input bufAddr len a3 nonneg valid, Option.some.injEq,
    Prod.mk.injEq] at write
  obtain ⟨-, rfl⟩ := write
  refine ⟨inv.content_vfsWrite isOpen _ _, ?_⟩
  intro input pathAddr create a2 a3 g opened found opens high
  have writtenInv := inv.vfsWrite f (m.bytesAt bufAddr) len.toNat
  obtain ⟨size, same⟩ := vfsWrite_vnodes m.vfs f (m.bytesAt bufAddr) len.toNat (m.vfs.fds f).vnode
  refine opened_reads writtenInv ?_ found opens high
  rw [same]
  exact isOpen.hasData

/-- The calls with this descriptor work on this file. -/
structure FileCallsOk (m : FileSys) (f i : Nat) : Prop where
  file : (m.vfs.fds f).used = true ∧ (m.vfs.fds f).vnode = i
  writes : WritesFile m f
  reads : ReadsFile m f
  readsBack : (m.vfs.vnodes i).data ≠ 0 → ReadsBack m f i

theorem file_calls_iff {m opened : FileSys} (h : Reachable VfsBooted VfsStep m.vfs)
    {input : CallInput} {pathAddr create a2 a3 : BitVec 64} {f : Nat}
    (allowed : m.vfs.Allows (.open input.path (create ≠ 0) input.block))
    (call : m.syscallDispatch input sysOpenNumber pathAddr create a2 a3 = some ((f : Int), opened))
    {later : FileSys} {trace : List (StepOf Vfs Vfs.Op)}
    (run : Run VfsStep opened.vfs trace later.vfs)
    (kept : ∀ st ∈ trace, ¬ Closes st.pre st.event f (opened.vfs.fds f).vnode) :
    FileCallsOk later f (opened.vfs.fds f).vnode ↔ 3 ≤ f := by
  have vfs := vfsOpen_of_sysOpen call
  have start : Reachable VfsBooted VfsStep opened.vfs := by
    apply h.next (e := .open input.path (create ≠ 0) input.block)
    refine ⟨allowed, ?_⟩
    rw [after, vfs]
  have file := run_fd_kept run (vfsOpen_fd vfs) rfl kept
  have inv : Inv later.vfs :=
    run.invariant_of (inv_of_reachable start)
      (fun a op b inv step (_ : True) => inv.step step) (fun _ _ => trivial)
  have small := inv.fd_lt f file.1
  constructor
  · intro ok
    apply Nat.le_of_not_lt
    intro low
    rcases (by omega : f = 0 ∨ f = 1 ∨ f = 2) with rfl | console
    · exact not_readsFile ok.reads
    · exact not_writesFile console ok.writes
  · intro high
    refine ⟨file, writesFile inv small high, readsFile inv small high, fun hasData => ?_⟩
    rw [← file.2] at hasData ⊢
    exact readsBack inv ⟨file.1, hasData⟩ high

def openedThrice : Vfs :=
  (oneFile.after (.open [slash, 0x61#8] false 0)).after (.open [slash, 0x61#8] false 0)

lemma openedThrice_reachable : Reachable VfsBooted VfsStep openedThrice := by
  have second : VfsStep oneFile (.open [slash, 0x61#8] false 0) _ := ⟨Or.inl rfl, rfl⟩
  have third : VfsStep _ (.open [slash, 0x61#8] false 0) openedThrice := ⟨Or.inl rfl, rfl⟩
  exact (oneFile_reachable.next second).next third

def openedFourth : FileSys :=
  ((⟨openedThrice, [], fun _ => 0⟩ : FileSys).sysOpen [slash, 0x61#8] 0 0x200000 0 0 0).2

theorem file_calls_iff_fourth_descriptor :
    FileCallsOk openedFourth 3 (openedFourth.vfs.fds 3).vnode := by
  have call : (⟨openedThrice, [], fun _ => 0⟩ : FileSys).syscallDispatch ⟨0, [slash, 0x61#8], 0⟩
      sysOpenNumber 0x200000 0 0 0 = some (((3 : Nat) : Int), openedFourth) :=
    congrArg some (Prod.ext (by decide) rfl)
  exact (file_calls_iff openedThrice_reachable (Or.inl rfl) call .nil
    (fun st member => by cases member)).mpr (by decide)

/-- A program that has opened it when it was open once: descriptor 1. -/
def openedSecond : FileSys :=
  ((⟨oneFile, [], fun _ => 0x78#8⟩ : FileSys).sysOpen [slash, 0x61#8] 0 0x200000 0 0 0).2

/-- It writes five bytes with descriptor 1: the call returns 5, the file stays empty. -/
theorem descriptor_one_is_the_console :
    (⟨oneFile, [], fun _ => 0x78#8⟩ : FileSys).syscallDispatch ⟨0, [slash, 0x61#8], 0⟩
      sysOpenNumber 0x200000 0 0 0 = some (1, openedSecond) ∧
    (openedSecond.vfs.fds 1).vnode = 1 ∧
    ∃ written, openedSecond.syscallDispatch ⟨0, [], 0⟩ sysWriteNumber 1 0x200000 5 0 =
        some (5, written) ∧
      written.vfs.content 1 = [] ∧ written.console.length = 5 := by
  refine ⟨congrArg some (Prod.ext (by decide) rfl), by decide,
    (openedSecond.sysWrite 1 0x200000 5 0).2, congrArg some (Prod.ext (by decide) rfl), ?_, ?_⟩
  · decide
  · decide

end MicroOs.User
