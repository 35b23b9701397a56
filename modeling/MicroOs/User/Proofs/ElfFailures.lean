import MicroOs.Fs.Proofs.VfsCalls
import MicroOs.Sched.Proofs.FailedCreate
import MicroOs.User.ElfLoad
import MicroOs.User.Proofs.ElfReads

/-!
# Loads that fail

Until the address space is created, every exit of `elf_load` gives back what the call has taken.
From then on no exit does: the page of the PML4, the tables, the pages of segments and of the stack
stay allocated, and a record of `elf_pending` that was filled stays filled.
-/

namespace MicroOs.User
open Mm Sched Fs Lib List

variable {f g : ElfFile} {root : Addr} {flags : Pte} {l : Loader} {stack buffer : KmallocAnswer}
  {name : String} {trampoline i n : Nat} {path : Path} {s : ElfSystem} {v v' : Vfs}

lemma mapFresh_pages (root : Addr) (flags : Pte) (content : Addr → Option (Nat → Byte))
    (count : Nat) (l : Loader) (a : Addr) :
    (mapFresh root flags content count l a).2.vmm.pages <:+ l.vmm.pages := by
  induction count generalizing l a with
  | zero => exact suffix_rfl
  | succ count ih =>
    unfold mapFresh Vmm.allocPage
    cases pages : l.vmm.pages with
    | nil => rw [pages]
    | cons page rest =>
      have less : rest <:+ page :: rest := suffix_cons page rest
      cases content a with
      | none => exact less
      | some bytes =>
        refine (ih _ _).trans (.trans ?_ less)
        exact (Vmm.takes_mapPageIn { l.vmm with pages := rest } root a page flags).suffix

lemma loadSegments_pages (f : ElfFile) (root : Addr) (hs : List Phdr) (l : Loader) :
    (loadSegments f root hs l).2.vmm.pages <:+ l.vmm.pages := by
  induction hs generalizing l with
  | nil => exact suffix_rfl
  | cons h hs ih =>
    unfold loadSegments
    split
    · exact ih l
    split
    · exact suffix_rfl
    have here := mapFresh_pages root h.pageFlags (pageContent f h) h.pageCount l h.firstPage
    generalize mapFresh root h.pageFlags (pageContent f h) h.pageCount l h.firstPage = run at here ⊢
    obtain ⟨status, l₁⟩ := run
    cases status with
    | ok => exact (ih l₁).trans here
    | null | fault => exact here

lemma mapUserStack_pages (root : Addr) (l : Loader) :
    (mapUserStack root l).2.vmm.pages <:+ l.vmm.pages :=
  mapFresh_pages ..

lemma startElf_pages (f : ElfFile) (name : String) (trampoline block : Nat) (root : Addr)
    (l : Loader) : (startElf f name trampoline block root l).2.vmm = l.vmm := by
  unfold startElf
  split
  · rfl
  · dsimp only
    split <;> rfl

lemma startElfGrowing_pages (f : ElfFile) (name : String) (trampoline : Nat)
    (stack : KmallocAnswer) (root : Addr) (l : Loader) :
    (startElfGrowing f name trampoline stack root l).2.vmm.pages <:+ l.vmm.pages := by
  unfold startElfGrowing
  split
  · rw [startElf_pages]
    exact drop_suffix _ _
  · rw [startElf_pages]

lemma loadCopy_stays (stop : f.headerOk = false ∨ l.vmm.pages = []) :
    loadCopy f name trampoline stack l = (.null, l) := by
  unfold loadCopy
  rcases stop with bad | empty
  · rw [bad]
    rfl
  · split
    · rfl
    · simp only [Vmm.createAddressSpace, Vmm.allocTable, Vmm.allocPage, empty]

lemma loadCopy_takes (name : String) (trampoline : Nat) (stack : KmallocAnswer)
    (header : f.headerOk = true) (pages : l.vmm.pages ≠ []) :
    (loadCopy f name trampoline stack l).2.vmm.pages.length < l.vmm.pages.length := by
  obtain ⟨page, rest, answer⟩ := exists_cons_of_ne_nil pages
  suffices taken : (loadCopy f name trampoline stack l).2.vmm.pages <:+ rest by
    rw [answer]
    exact Nat.lt_succ_of_le taken.length_le
  unfold loadCopy
  rw [header]
  simp only [Vmm.createAddressSpace, Vmm.allocTable, Vmm.allocPage, answer, Bool.not_true,
    Bool.false_eq_true, if_false]
  split
  · exact suffix_rfl
  -- from the new address space on: the segments, the stack, the task
  generalize fresh : ({ l with vmm := _ } : Loader) = l₀
  have start : l₀.vmm.pages = rest := by rw [← fresh]
  have segments := loadSegments_pages f page f.phdrs l₀
  rw [start] at segments
  generalize loadSegments f page f.phdrs l₀ = run at segments ⊢
  obtain ⟨status, l₁⟩ := run
  cases status with
  | null | fault => exact segments
  | ok =>
    have userStack := (mapUserStack_pages page l₁).trans segments
    simp only
    generalize mapUserStack page l₁ = run at userStack ⊢
    obtain ⟨status, l₂⟩ := run
    cases status with
    | null | fault => exact userStack
    | ok =>
      have task := (startElfGrowing_pages f name trampoline stack page l₂).trans userStack
      simp only
      generalize startElfGrowing f name trampoline stack page l₂ = run at task ⊢
      obtain ⟨_ | slot, l₃⟩ := run
      · exact task
      · exact task

lemma loadCopy_eq_elfLoad (large : sizeofEhdr ≤ f.bytes.length) (block : Nat) :
    loadCopy f name trampoline ⟨block, 0⟩ l = elfLoad f name trampoline block l := by
  have start (root : Addr) (l : Loader) :
      startElfGrowing f name trampoline ⟨block, 0⟩ root l =
        startElf f name trampoline block root l := by
    unfold startElfGrowing
    exact ite_self _
  unfold loadCopy elfLoad
  rw [if_neg (Nat.not_lt.mpr large)]
  simp only [start] <;> rfl

def descriptor (v : Vfs) (fd : Nat) : Option (Nat × Nat) :=
  if fd < vfsMaxFd ∧ (v.fds fd).used then some ((v.fds fd).vnode, (v.fds fd).offset) else none

/-- Nothing that a caller of the VFS can see by descriptors or on the heap has changed. -/
structure SameOpen (v v' : Vfs) : Prop where
  descriptor : ∀ fd, descriptor v' fd = descriptor v fd
  log : v'.log = v.log

lemma sameOpen_update {fd : Nat} {desc : FileDesc} (before : (v.fds fd).used = false)
    (after : desc.used = false) (fds : v'.fds = Function.update v.fds fd desc)
    (log : v'.log = v.log) : SameOpen v v' := by
  refine ⟨fun j => ?_, log⟩
  unfold User.descriptor
  rw [fds]
  by_cases here : j = fd
  · subst here
    rw [Function.update_self, if_neg (by simp [after]), if_neg (by simp [before])]
  · rw [Function.update_of_ne here]

/-- The path leads to a file that is large enough, and a descriptor is free. -/
structure Opens (v : Vfs) (path : Path) (i : Nat) : Prop where
  found : v.resolvePath path = some i
  file : (v.vnodes i).type ≠ .directory
  size : sizeofEhdr ≤ (v.vnodes i).size
  free : ∃ fd < vfsMaxFd, (v.fds fd).used = false

/-- The slot that `vfs_open` fills, in use. -/
def withOpen (v : Vfs) (fd i offset : Nat) : Vfs := v.modifyFd fd fun _ => ⟨i, offset, true⟩

lemma Opens.vfsOpen (opens : Opens v path i) :
    ∃ fd, fd < vfsMaxFd ∧ (v.fds fd).used = false ∧
      v.vfsOpen path false 0 = (some fd, withOpen v fd i 0) := by
  obtain ⟨fd, slot⟩ : ∃ fd, v.allocFd = some fd := by
    apply Option.isSome_iff_exists.mp
    obtain ⟨fd, lt, free⟩ := opens.free
    simp only [Vfs.allocFd, find?_isSome, mem_range]
    exact ⟨fd, lt, by simp [free]⟩
  obtain ⟨lt, free⟩ := Vfs.allocFd_spec slot
  refine ⟨fd, lt, free, ?_⟩
  simp only [Vfs.vfsOpen, Vfs.openNode, opens.found, opens.file, slot, if_false]
  rfl

section Open
variable {fd offset : Nat}

lemma openFd_withOpen (lt : fd < vfsMaxFd) : (withOpen v fd i offset).openFd fd = some fd := by
  apply Vfs.openFd_ofNat lt
  simp [withOpen, Vfs.modifyFd]

lemma vfsRead_withOpen (lt : fd < vfsMaxFd) :
    (withOpen v fd i 0).vfsRead fd (v.vnodes i).size =
      if (v.vnodes i).data = 0 then (some [], withOpen v fd i 0)
      else (some (window v.mem (v.vnodes i).data (v.vnodes i).size),
        withOpen v fd i (v.vnodes i).size) := by
  unfold Vfs.vfsRead
  rw [openFd_withOpen lt]
  simp only [withOpen, Vfs.modifyFd, Function.update_self]
  split
  · rfl
  · by_cases empty : (v.vnodes i).size = 0
    · simp [empty]
    · simp [Nat.pos_of_ne_zero empty]

lemma sameOpen_close {w : Vfs} (lt : fd < vfsMaxFd) (free : (v.fds fd).used = false)
    (fds : w.fds = (withOpen v fd i offset).fds) (log : w.log = v.log) :
    SameOpen v (w.vfsClose fd).2 := by
  have used : (w.fds fd).used = true := by
    rw [fds]
    simp [withOpen, Vfs.modifyFd]
  have closed : (w.vfsClose fd).2 = w.modifyFd fd fun desc => { desc with used := false } := by
    rw [Vfs.vfsClose, Vfs.openFd_ofNat lt used]
  rw [closed]
  refine sameOpen_update free (rfl : FileDesc.used ⟨i, offset, false⟩ = false) ?_ log
  simp [Vfs.modifyFd, fds, withOpen]

end Open

/-- The blocks of the heap that the loader, the files and the tasks have. -/
def ElfSystem.heapBlocks (s : ElfSystem) : List Nat :=
  live s.log ++ live s.vfs.log ++ live s.loader.sched.stackLog

/-- The resources are the same: the free pages in their order, the live blocks of the heap, the open
descriptors, the records of `elf_pending` and the tasks. -/
structure SameResources (s s' : ElfSystem) : Prop where
  pages : s'.loader.vmm.pages = s.loader.vmm.pages
  heap : ∀ block, block ∈ s'.heapBlocks ↔ block ∈ s.heapBlocks
  descriptors : ∀ fd, descriptor s'.vfs fd = descriptor s.vfs fd
  elfPending : s'.loader.elfPending = s.loader.elfPending
  tasks : SameBelow s.loader.sched s'.loader.sched

lemma SameResources.refl (s : ElfSystem) : SameResources s s :=
  ⟨rfl, fun _ => Iff.rfl, fun _ => rfl, rfl, ⟨rfl, rfl, fun _ _ => rfl⟩⟩

lemma grow_pages_eq_iff : (l.grow n).vmm.pages = l.vmm.pages ↔ n = 0 ∨ l.vmm.pages = [] := by
  show l.vmm.pages.drop n = l.vmm.pages ↔ _
  constructor
  · intro same
    have length := congrArg length same
    rw [length_drop] at length
    rw [← length_eq_zero_iff]
    omega
  · rintro (rfl | empty)
    · rfl
    · rw [empty, drop_nil]

lemma sameResources_grow_iff {vfs : Vfs} {log : List (AllocEvent Nat)}
    (closed : SameOpen s.vfs vfs) (freed : live log = live s.log) :
    SameResources s ⟨vfs, s.loader.grow n, log⟩ ↔ n = 0 ∨ s.loader.vmm.pages = [] := by
  rw [← grow_pages_eq_iff]
  refine ⟨fun same => same.pages, fun pages => ⟨pages, fun block => ?_, closed.descriptor, rfl,
    ⟨rfl, rfl, fun _ _ => rfl⟩⟩⟩
  unfold ElfSystem.heapBlocks
  rw [freed, closed.log]
  rfl

lemma sameResources_loadCopy_iff {vfs : Vfs} {log : List (AllocEvent Nat)}
    (closed : SameOpen s.vfs vfs) (freed : live log = live s.log) :
    SameResources s ⟨vfs, (loadCopy f name trampoline stack (s.loader.grow n)).2, log⟩ ↔
      s.loader.vmm.pages = [] ∨ (n = 0 ∧ f.headerOk = false) := by
  by_cases stop : f.headerOk = false ∨ (s.loader.grow n).vmm.pages = []
  · rw [loadCopy_stays stop, sameResources_grow_iff closed freed]
    constructor
    · rintro (none | empty)
      · rcases stop with bad | empty
        · exact .inr ⟨none, bad⟩
        · rw [none] at empty
          exact .inl empty
      · exact .inl empty
    · exact fun cond => cond.symm.imp_left And.left
  · obtain ⟨good, pages⟩ := not_or.mp stop
    have less := loadCopy_takes name trampoline stack (Bool.eq_true_of_not_eq_false good) pages
    have some : s.loader.vmm.pages ≠ [] := by
      intro empty
      rw [Loader.grow, empty, drop_nil] at pages
      exact pages rfl
    have grown : (s.loader.grow n).vmm.pages.length ≤ s.loader.vmm.pages.length :=
      (drop_suffix n s.loader.vmm.pages).length_le
    refine iff_of_false (fun same => ?_) (fun cond => cond.elim some fun h => good h.2)
    rw [← same.pages] at grown
    exact absurd less (Nat.not_lt.mpr grown)

lemma elfLoadPath_closed (closed : ¬ ∃ i, Opens s.vfs path i) :
    elfLoadPath path name trampoline buffer stack s = (.null, s) := by
  unfold elfLoadPath Vfs.vfsStat
  cases found : s.vfs.resolvePath path with
  | none => rfl
  | some i =>
    simp only [Option.map_some, Vfs.statOf]
    by_cases small : (s.vfs.vnodes i).size < sizeofEhdr
    · rw [if_pos small]
    rw [if_neg small]
    simp only [Vfs.vfsOpen, Vfs.openNode, found]
    by_cases directory : (s.vfs.vnodes i).type = .directory
    · simp only [directory, if_true]
    simp only [directory, if_false]
    cases slot : s.vfs.allocFd with
    | none => rfl
    | some fd =>
      exact absurd ⟨i, found, directory, Nat.not_lt.mp small, fd, Vfs.allocFd_spec slot⟩ closed

lemma loadRead_cases (bytes : List Byte) (size : Nat) (name : String) (trampoline buf : Nat)
    (stack : KmallocAnswer) (s : ElfSystem) :
    (loadRead bytes size name trampoline buf stack s = (.null, s.kfree buf) ∧
        (bytes.length ≠ size ∨ 2 ^ 31 ≤ bytes.length)) ∨
      ∃ f : ElfFile, f.bytes = bytes ∧ bytes.length = size ∧
        loadRead bytes size name trampoline buf stack s =
          ((loadCopy f name trampoline stack s.loader).1,
            { s with loader := (loadCopy f name trampoline stack s.loader).2 }.kfree buf) := by
  unfold loadRead
  split
  · rename_i fits
    exact .inr ⟨copyAt s.vfs.mem buf bytes fits.2, rfl, fits.1, rfl⟩
  · rename_i unfit
    exact .inl ⟨rfl, by omega⟩

/-- The call once the file is open: it ends for want of a buffer or of the bytes of the file, or
goes on with its copy. -/
lemma elfLoadPath_opened (name : String) (trampoline : Nat) (buffer stack : KmallocAnswer)
    (opens : Opens s.vfs path i) :
    ∃ vfs log, SameOpen s.vfs vfs ∧ live log = live s.log ∧
      ((elfLoadPath path name trampoline buffer stack s =
            (.null, ⟨vfs, s.loader.grow buffer.pages, log⟩) ∧
          (buffer.block = 0 ∨ (s.vfs.vnodes i).data = 0 ∨ 2 ^ 31 ≤ (s.vfs.vnodes i).size)) ∨
        ∃ f : ElfFile, buffer.block ≠ 0 ∧ (s.vfs.vnodes i).data ≠ 0 ∧
          f.bytes = window s.vfs.mem (s.vfs.vnodes i).data (s.vfs.vnodes i).size ∧
          elfLoadPath path name trampoline buffer stack s =
            ((loadCopy f name trampoline stack (s.loader.grow buffer.pages)).1,
              ⟨vfs, (loadCopy f name trampoline stack (s.loader.grow buffer.pages)).2, log⟩)) := by
  obtain ⟨fd, lt, free, opened⟩ := opens.vfsOpen
  have call : elfLoadPath path name trampoline buffer stack s =
      loadOpened fd (s.vfs.vnodes i).size name trampoline buffer stack
        { s with vfs := withOpen s.vfs fd i 0 } := by
    unfold elfLoadPath Vfs.vfsStat
    rw [opens.found]
    simp only [Option.map_some, Vfs.statOf, opened]
    rw [if_neg (Nat.not_lt.mpr opens.size)]
  rw [call]
  unfold loadOpened ElfSystem.kmalloc
  by_cases noBuffer : buffer.block = 0
  · have closed : SameOpen s.vfs ((withOpen s.vfs fd i 0).vfsClose fd).2 :=
      sameOpen_close lt free rfl rfl
    refine ⟨_, s.log, closed, rfl, .inl ⟨?_, .inl noBuffer⟩⟩
    simp only [noBuffer, if_true]
    rfl
  have freed : live (.free buffer.block :: .alloc buffer.block :: s.log) = live s.log := by
    simp [live]
  -- the system with these bytes in the buffer and the descriptor closed
  let filled (offset : Nat) (bytes : List Byte) : ElfSystem :=
    (ElfSystem.fill ⟨withOpen s.vfs fd i offset, s.loader.grow buffer.pages,
      .alloc buffer.block :: s.log⟩ buffer.block bytes).close fd
  have closed (offset : Nat) (bytes : List Byte) : SameOpen s.vfs (filled offset bytes).vfs :=
    sameOpen_close lt free rfl rfl
  simp only [noBuffer, if_false, vfsRead_withOpen lt]
  by_cases noData : (s.vfs.vnodes i).data = 0
  · refine ⟨_, _, closed 0 [], freed, .inl ⟨?_, .inr (.inl noData)⟩⟩
    simp only [noData, if_true]
    obtain ⟨ends, -⟩ | ⟨f, -, size, -⟩ := loadRead_cases [] (s.vfs.vnodes i).size name trampoline
      buffer.block stack (filled 0 [])
    · exact ends
    · have large := opens.size
      rw [← size] at large
      exact absurd large (by decide)
  let content := window s.vfs.mem (s.vfs.vnodes i).data (s.vfs.vnodes i).size
  have length : content.length = (s.vfs.vnodes i).size := length_window ..
  refine ⟨_, _, closed (s.vfs.vnodes i).size content, freed, ?_⟩
  simp only [noData, if_false]
  obtain ⟨ends, unfit⟩ | ⟨f, bytes, -, goes⟩ := loadRead_cases content (s.vfs.vnodes i).size name
    trampoline buffer.block stack (filled (s.vfs.vnodes i).size content)
  · refine .inl ⟨ends, .inr (.inr ?_)⟩
    rw [length] at unfit
    exact unfit.resolve_left (fun different => different rfl)
  · exact .inr ⟨f, noBuffer, noData, bytes, goes⟩

def GoodHeader (v : Vfs) (i : Nat) : Prop :=
  (v.vnodes i).data ≠ 0 ∧ ∃ f : ElfFile,
    f.bytes = window v.mem (v.vnodes i).data (v.vnodes i).size ∧ f.headerOk = true

/-- If the file can be opened, then no page is free, or the heap does not grow for the buffer and
the header is not read or does not pass. -/
def StopsEarly (path : Path) (buffer : KmallocAnswer) (s : ElfSystem) : Prop :=
  ∀ i, Opens s.vfs path i →
    s.loader.vmm.pages = [] ∨
      (buffer.pages = 0 ∧ ¬ (buffer.block ≠ 0 ∧ GoodHeader s.vfs i))

lemma Opens.stopsEarly_iff (opens : Opens s.vfs path i) :
    StopsEarly path buffer s ↔ s.loader.vmm.pages = [] ∨
      (buffer.pages = 0 ∧ ¬ (buffer.block ≠ 0 ∧ GoodHeader s.vfs i)) := by
  refine ⟨fun stops => stops i opens, fun stops j other => ?_⟩
  obtain rfl : i = j := Option.mem_unique opens.found other.found
  exact stops

lemma headerOk_of_bytes (same : f.bytes = g.bytes) (large : sizeofEhdr ≤ f.bytes.length) :
    f.headerOk = g.headerOk := by
  apply SameOn.headerOk
  intro k hk
  have small : k < 64 := hk
  have bound : 64 ≤ f.bytes.length := large
  have inside : (0#64 + BitVec.ofNat 64 k).toNat < f.bytes.length := by
    rw [add_ofNat_toNat (by rw [BitVec.toNat_ofNat]; omega), BitVec.toNat_ofNat]
    omega
  simp only [ElfFile.byte, ← same, getD_eq_getElem?_getD, List.getElem?_eq_getElem inside,
    Option.getD_some]

/-- A call of `elf_load`, whatever it returns, leaves the resources of the kernel as they were if
and only if it stops before it has an address space, and the heap has not grown. -/
theorem load_keeps_resources_iff (path : Path) (name : String) (trampoline : Nat)
    (buffer stack : KmallocAnswer) (s : ElfSystem) :
    SameResources s (elfLoadPath path name trampoline buffer stack s).2 ↔
      StopsEarly path buffer s := by
  by_cases opened : ∃ i, Opens s.vfs path i
  · obtain ⟨i, opens⟩ := opened
    rw [opens.stopsEarly_iff]
    obtain ⟨vfs, log, same, blocks, ⟨ends, why⟩ | ⟨f, hasBuffer, hasData, bytes, goes⟩⟩ :=
      elfLoadPath_opened name trampoline buffer stack opens
    · rw [ends, sameResources_grow_iff same blocks]
      have noHeader : ¬ (buffer.block ≠ 0 ∧ GoodHeader s.vfs i) := by
        rintro ⟨hasBuffer, hasData, f, bytes, -⟩
        have fits := f.fits
        rw [bytes, length_window] at fits
        rcases why with noBuffer | noData | large
        · exact hasBuffer noBuffer
        · exact hasData noData
        · exact absurd fits (Nat.not_lt.mpr large)
      tauto
    · have header : GoodHeader s.vfs i ↔ f.headerOk = true := by
        constructor
        · rintro ⟨-, g, bytes', good⟩
          have large : sizeofEhdr ≤ f.bytes.length := by
            rw [bytes, length_window]
            exact opens.size
          rwa [headerOk_of_bytes (bytes.trans bytes'.symm) large]
        · exact fun good => ⟨hasData, f, bytes, good⟩
      rw [goes, sameResources_loadCopy_iff same blocks, header, Bool.eq_false_iff]
      tauto
  · rw [elfLoadPath_closed opened]
    exact iff_of_true (.refl s) fun i opens => absurd ⟨i, opens⟩ opened

def pathA : Path := [slash, 0x61#8]

/-- A file `/a` of 64 bytes: a good header that has its program header table behind the end. -/
def systemWithHeader : ElfSystem where
  vfs :=
    let created := (Vfs.init fun _ => 0).vfsOpen pathA true 0x400000
    let written := created.2.vfsWrite 0 (fun k => fileAt400000.bytes.getD k 0) 64
    (written.2.vfsClose 0).2
  loader := bootedLoader
  log := []

/-- The call returns `NULL`, and the page of the PML4 is lost. -/
theorem header_only_file_loses_page :
    (elfLoadPath pathA "a" 0x100000 ⟨0x500000, 0⟩ ⟨0x300000, 0⟩ systemWithHeader).1 = .null ∧
      (elfLoadPath pathA "a" 0x100000 ⟨0x500000, 0⟩ ⟨0x300000, 0⟩
        systemWithHeader).2.loader.vmm.pages.length = 15 ∧
      systemWithHeader.loader.vmm.pages.length = 16 ∧
      ¬ SameResources systemWithHeader
        (elfLoadPath pathA "a" 0x100000 ⟨0x500000, 0⟩ ⟨0x300000, 0⟩ systemWithHeader).2 := by
  have after : (elfLoadPath pathA "a" 0x100000 ⟨0x500000, 0⟩ ⟨0x300000, 0⟩
      systemWithHeader).2.loader.vmm.pages.length = 15 := by decide +kernel
  have before : systemWithHeader.loader.vmm.pages.length = 16 := by decide +kernel
  refine ⟨by decide +kernel, after, before, fun same => ?_⟩
  rw [same.pages, before] at after
  exact absurd after (by decide)

end MicroOs.User
