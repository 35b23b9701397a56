import MicroOs.User.UserTask
import MicroOs.User.Proofs.ElfSegments

/-!
# What a user task can reach

`user_task_create` marks the 2 MiB page of the entry point for the user, and maps the stack. The PML4
and PDPT entries above the 2 MiB page are the kernel's, and `vmm_init` makes them without the user
flag. The stack is in the private half of the new address space.
-/

namespace MicroOs.Mm
open Lib Relation List

variable {P : Place} {s : Vmm} {root virt t : Addr} {i : Index} {user : Bool} {x y : Place × Vmm}

lemma UserLeaf.store_off {v : Addr} {entry : Pte} (tree : Tree P s)
    (hroot : root ∈ s.pml4 :: s.roots) (leaf : UserLeaf s root v entry) (e : Pte)
    (off : ¬ P.home t ++ [i] <+: indices v) : UserLeaf (s.store t i e) root v entry := by
  have kept : ∀ {b j}, OnPath P s root v b j → (s.store t i e).table b j = s.table b j := by
    intro b j on
    apply store_table_of_ne
    intro h
    obtain ⟨rfl, rfl⟩ := Prod.mk.injEq .. ▸ h
    exact off on.path
  obtain ⟨pdpt, pd, pt, way, u4, u3, u2, hleaf⟩ := leaf
  obtain ⟨on3, -, on2, -⟩ := way.toUpperWay.places tree hroot
  have k4 := kept ((Reached.top tree hroot).on ⟨_, rfl⟩)
  have k3 := kept on3
  have k2 := kept on2
  have k1 := kept (way.places tree hroot).1
  exact ⟨pdpt, pd, pt, ⟨⟨k4 ▸ way.level4, k3 ▸ way.level3⟩, k2 ▸ way.level2⟩, k4 ▸ u4, k3 ▸ u3,
    k2 ▸ u2, k1.trans hleaf⟩

end MicroOs.Mm

namespace MicroOs.User
open Mm Sched Lib List

variable {P : Place} {root v t : Addr} {i : Index} {ops : List PageOp} {op : PageOp}
  {l l' : Loader}

section Low
variable {m : StaticTables} {memory : Addr → Index → Pte} {trace : List (StepOf Vmm VmmEvent)}

/-- The state after `l` in a run, with the entries above the identity map as they were. -/
structure Beyond (m : StaticTables) (memory : Addr → Index → Pte) (root : Addr) (l l' : Loader) :
    Prop where
  run : ∃ trace, Run VmmStep (vmmInit m memory) trace l'.vmm
  ready : Ready root l'
  top : l'.vmm.table root 0 = l.vmm.table root 0
  middle : ∀ i, l'.vmm.table m.initPdpt i = l.vmm.table m.initPdpt i

lemma Beyond.apply (before : Run VmmStep (vmmInit m memory) trace l.vmm) (ready : Ready root l)
    {page : Addr} {rest : List Addr} (answer : l.vmm.pages = page :: rest)
    (high : pml4Index op.virt ≠ 0) : Beyond m memory root l (op.apply root page rest l) := by
  obtain ⟨P, tree, map⟩ := run_tree before
  have taken := take_tree tree answer
  have supplied : VmmStep l.vmm (.supply rest) { l.vmm with pages := rest } := ⟨taken.fresh, rfl⟩
  have mapped : VmmStep { l.vmm with pages := rest } (.mapPageIn root op.virt page op.flags)
      (op.apply root page rest l).vmm := ⟨ready.root, rfl⟩
  obtain ⟨memRoot, home, -⟩ := taken.root root ready.root
  refine ⟨⟨_, (before.snoc supplied).snoc mapped⟩, (ready.apply answer op).1, ?_, fun i => ?_⟩
  · refine mapPageIn_table_off taken ready.root page op.flags memRoot ?_
    rw [home]
    exact fun path => high (cons_prefix_cons.mp path).1.symm
  · refine mapPageIn_table_off taken ready.root page op.flags map.pdpt.1 ?_
    rw [map.pdpt.2]
    exact fun path => high (cons_prefix_cons.mp path).1.symm

lemma runOps_beyond (before : Run VmmStep (vmmInit m memory) trace l.vmm) (ready : Ready root l)
    (high : ∀ op ∈ ops, pml4Index op.virt ≠ 0) (run : runOps root ops l = some l') :
    Beyond m memory root l l' := by
  induction ops generalizing l trace with
  | nil =>
    obtain rfl := Option.some.inj run
    exact ⟨⟨trace, before⟩, ready, rfl, fun _ => rfl⟩
  | cons op ops ih =>
    cases answer : l.vmm.pages with
    | nil => simp [runOps, answer] at run
    | cons page rest =>
      simp only [runOps, answer] at run
      obtain ⟨highOp, highOps⟩ := forall_mem_cons.mp high
      obtain ⟨⟨trace', next⟩, ready', top, middle⟩ := Beyond.apply before ready answer highOp
      have last := ih next ready' highOps run
      exact ⟨last.run, last.ready, last.top.trans top, fun i => (last.middle i).trans (middle i)⟩

end Low

def SamePt (v w : Addr) : Prop :=
  pml4Index v = pml4Index w ∧ pdptIndex v = pdptIndex w ∧ pdIndex v = pdIndex w

/-- The pages of a plan that stays in one PT, and that has at least two pages if the PT is not there
yet: each gets a frame of its own. -/
lemma runOps_frames (ready : Ready root l) (run : runOps root ops l = some l')
    (apart : ops.Pairwise fun a b => indices b.virt ≠ indices a.virt)
    (together : ∀ op ∈ ops, SamePt v op.virt) (user : ∀ op ∈ ops, hasFlag op.flags pteUser = true)
    (no : ∀ op ∈ ops, NoHugeWay l.vmm root op.virt)
    (enough : 2 ≤ ops.length ∨ ∃ pdpt pd pt, Way l.vmm root v pdpt pd pt) :
    ∃ pages : List Addr, pages.length = ops.length ∧ pages.Sublist l.vmm.pages ∧
      (∀ page ∈ pages, page &&& pteAddrMask = page) ∧
      ∀ x ∈ ops.zip pages, UserLeaf l'.vmm root x.1.virt (Vmm.leafEntry x.2 x.1.flags) := by
  induction ops generalizing l with
  | nil => exact ⟨[], rfl, nil_sublist _, by simp, by simp⟩
  | cons op ops ih =>
    cases answer : l.vmm.pages with
    | nil => simp [runOps, answer] at run
    | cons page rest =>
      simp only [runOps, answer] at run
      obtain ⟨ready', suffix⟩ := ready.apply answer op
      obtain ⟨others, apart⟩ := pairwise_cons.mp apart
      obtain ⟨h4, h3, h2⟩ := together op mem_cons_self
      have leaf : UserLeaf (op.apply root page rest l).vmm root op.virt
          (Vmm.leafEntry page op.flags) := by
        apply apply_leaf ready answer (user op mem_cons_self) (no op mem_cons_self)
        rcases enough with more | ⟨pdpt, pd, pt, way⟩
        · left
          intro empty
          cases ops with
          | nil => simp at more
          | cons op' ops => simp [runOps, empty] at run
        · exact .inr ⟨pdpt, pd, pt, way.of_indices h4 h3 h2⟩
      obtain ⟨P, tree⟩ := ready.tree
      have nodup : (page :: rest).Nodup := answer ▸ tree.fresh.1
      have used : page ∉ (op.apply root page rest l).vmm.pages :=
        fun mem => (nodup_cons.mp nodup).1 (suffix.mem mem)
      have first := (runOps_leaf_other ready' run leaf used rfl others).1
      have no' : ∀ op' ∈ ops, NoHugeWay (op.apply root page rest l).vmm root op'.virt := by
        intro op' mem
        exact mapPageIn_noHugeWay (take_tree tree answer) ready.root op.virt page op.flags
          ((no op' (mem_cons_of_mem _ mem)).supply rest)
      obtain ⟨pdpt, pd, pt, way, -⟩ := leaf
      obtain ⟨pages, length, sub, aligned, leaves⟩ := ih ready' run apart
        (fun op' mem => together op' (mem_cons_of_mem _ mem))
        (fun op' mem => user op' (mem_cons_of_mem _ mem)) no'
        (.inr ⟨pdpt, pd, pt, way.of_indices h4.symm h3.symm h2.symm⟩)
      refine ⟨page :: pages, by simp [length], (sub.trans suffix.sublist).cons_cons page, ?_, ?_⟩
      · exact forall_mem_cons.mpr ⟨tree.aligned_of_pages answer, aligned⟩
      · exact forall_mem_cons.mpr ⟨first, leaves⟩

def stackPage (v : Addr) : Nat := (v - (userStackBase - userStackSize)).toNat / 4096

/-- The 16 KiB below `USER_STACK_BASE` are writable for the user, each of its pages in a frame of its
own. -/
def StackMapped (s : Vmm) (root : Addr) : Prop :=
  ∃ frame : Nat → Addr,
    (∀ j k, j < userStackPages → k < userStackPages → frame j = frame k → j = k) ∧
    (∀ k, k < userStackPages → frame k &&& pteAddrMask = frame k) ∧
    ∀ v, onStack v = true → ∃ t, s.translate root v = some t ∧ t.user = true ∧ t.writable = true ∧
      t.phys = frame (stackPage v) ||| (v.setWidth 12).setWidth 64

lemma stackOps_apart : stackOps.Pairwise fun a b => indices b.virt ≠ indices a.virt := by
  decide

lemma stackOps_together : ∀ op ∈ stackOps, SamePt (userStackBase - userStackSize) op.virt ∧
    pml4Index op.virt = 255#9 ∧ op.flags = pteWritable ||| pteUser := by
  intro op mem
  have list : stackOps = [stackOpAt 0x7FFFFFFFA000, stackOpAt 0x7FFFFFFFB000,
    stackOpAt 0x7FFFFFFFC000, stackOpAt 0x7FFFFFFFD000] := rfl
  rw [list] at mem
  simp only [mem_cons, not_mem_nil, or_false] at mem
  rcases mem with rfl | rfl | rfl | rfl <;>
    exact ⟨⟨by decide, by decide, by decide⟩, by decide, rfl⟩

lemma stackOps_virt : ∀ k, k < userStackPages →
    (stackOps.map (·.virt.toNat))[k]? = some (0x7FFFFFFFA000 + 4096 * k) := by
  decide

lemma stackPage_spec (stack : onStack v = true) :
    stackPage v < userStackPages ∧ (0x7FFFFFFFA000 + 4096 * stackPage v) / 4096 = v.toNat / 4096 := by
  simp only [onStack, Bool.and_eq_true, decide_eq_true_eq, BitVec.le_def, BitVec.lt_def] at stack
  obtain ⟨above, below⟩ := stack
  have bottom : (userStackBase - userStackSize).toNat = 0x7FFFFFFFA000 := by decide
  have top : userStackBase.toNat = 0x7FFFFFFFE000 := by decide
  have place := BitVec.toNat_sub_of_le (BitVec.le_def.mpr above)
  unfold stackPage userStackPages
  rw [place]
  omega

lemma runOps_stack (ready : Ready root l) (run : runOps root stackOps l = some l')
    (empty : l.vmm.table root 255#9 = 0) :
    ∃ frame : Nat → Addr,
      (∀ j k, j < userStackPages → k < userStackPages → frame j = frame k → j = k) ∧
      (∀ k, k < userStackPages → frame k &&& pteAddrMask = frame k) ∧
      ∀ v, onStack v = true →
        UserLeaf l'.vmm root v (Vmm.leafEntry (frame (stackPage v)) (pteWritable ||| pteUser)) := by
  have no : ∀ op ∈ stackOps, NoHugeWay l.vmm root op.virt := by
    intro op mem pdpt pd way
    have level4 := way.level4
    rw [(stackOps_together op mem).2.1, empty] at level4
    simp [nextTable] at level4
  obtain ⟨pages, length, sub, aligned, leaves⟩ := runOps_frames ready run stackOps_apart
    (fun op mem => (stackOps_together op mem).1)
    (fun op mem => by rw [(stackOps_together op mem).2.2]; decide) no (.inl (by decide))
  obtain ⟨P, tree⟩ := ready.tree
  have nodup : pages.Nodup := tree.fresh.1.sublist sub
  have four : pages.length = userStackPages := length
  have frame : ∀ k (h : k < pages.length), pages.getD k 0 = pages[k] := by
    intro k h
    simp [h]
  refine ⟨fun k => pages.getD k 0, fun j k hj hk same => ?_, fun k hk => ?_, fun v stack => ?_⟩
  · dsimp only at same
    rw [frame j (four ▸ hj), frame k (four ▸ hk)] at same
    exact (Nodup.getElem_inj_iff nodup).mp same
  · dsimp only
    rw [frame k (four ▸ hk)]
    exact aligned _ (getElem_mem _)
  · obtain ⟨bound, page⟩ := stackPage_spec stack
    have inOps : stackPage v < stackOps.length := bound
    have virt := stackOps_virt _ bound
    rw [getElem?_map, List.getElem?_eq_getElem inOps, Option.map_some, Option.some.injEq] at virt
    have inZip : (stackOps[stackPage v], pages[stackPage v]) ∈ stackOps.zip pages := by
      rw [mem_iff_getElem]
      exact ⟨stackPage v, by simp [four, inOps, bound], getElem_zip⟩
    have leaf := leaves _ inZip
    dsimp only
    rw [frame _ (four ▸ bound), ← (stackOps_together _ (getElem_mem inOps)).2.2]
    exact leaf.of_indices (indices_eq_of_page (virt ▸ page))

section Call
variable {u u' : UserSystem} {entry : Addr} {name : String} {trampoline stack slot : Nat}

lemma startUser_some (h : startUser entry name trampoline stack root u = (some slot, u')) :
    u'.loader.vmm = u.loader.vmm ∧ (u'.loader.sched.tasks slot).pml4 = root.toNat := by
  unfold startUser at h
  split at h
  · cases h
  simp only at h
  split at h
  · cases h
  obtain ⟨hslot, rfl⟩ := Prod.mk.injEq .. ▸ h
  obtain rfl := Option.some.inj hslot
  exact ⟨rfl, by simp [Scheduler.modify]⟩

/-- A call that returned a task has mapped the stack in a new address space `l₀` and marked the
2 MiB page of the entry point. -/
lemma userTaskCreate_some (h : userTaskCreate name entry trampoline stack u = (some slot, u')) :
    ∃ vmm root l₂, u.loader.vmm.createAddressSpace = (vmm, some root) ∧
      runOps root stackOps { u.loader with vmm } = some l₂ ∧
      u'.loader.vmm = l₂.vmm.markHugeUser entry ∧
      BitVec.ofNat 64 (u'.loader.sched.tasks slot).pml4 = root := by
  unfold userTaskCreate at h
  split at h
  · cases h
  rename_i vmm root created
  split at h
  · rename_i l₂ mapped
    obtain ⟨run, -⟩ := mapFresh_ok _ mapped
    obtain ⟨hvmm, pml4⟩ := startUser_some h
    refine ⟨vmm, root, l₂, created, run, hvmm, ?_⟩
    rw [pml4, BitVec.ofNat_toNat, BitVec.setWidth_eq]
  · cases h

variable {m : StaticTables} {memory : Addr → Index → Pte} {trace : List (StepOf Vmm VmmEvent)}
  {s : Vmm}

lemma markHugeUser_userMapped_iff (run : Run VmmStep (vmmInit m memory) trace s)
    (hroot : root ∈ s.pml4 :: s.roots) (low : entry.toNat < 2 ^ 32) :
    UserMapped (s.markHugeUser entry) root entry false ↔
      hasFlag (s.table root 0) pteUser = true ∧
      hasFlag (s.table m.initPdpt (pdptIndex entry)) pteUser = true := by
  obtain ⟨P, tree, map⟩ := run_tree run
  obtain ⟨i, middle, kernelWay⟩ := map.way mem_cons_self low
  have marks := markHugeUser_eq kernelWay (map.huge i _)
  have step : VmmStep s (.markHugeUser entry) (s.markHugeUser entry) :=
    ⟨kernelWay.allowed_mark, rfl⟩
  obtain ⟨P', tree', map'⟩ := run_tree (run.snoc step)
  have roots : (s.markHugeUser entry).pml4 :: (s.markHugeUser entry).roots = s.pml4 :: s.roots := by
    rw [marks]
    rfl
  obtain ⟨j, middle', way⟩ := map'.way (roots ▸ hroot) low
  obtain rfl : i = j := lowIndex_injective (middle.symm.trans middle')
  have zero : pml4Index entry = 0 := pml4Index_low (by omega)
  have home := (tree.root root hroot).2.1
  have top : (s.markHugeUser entry).table root 0 = s.table root 0 := by
    rw [marks, store_table_of_home (P := P) (by rw [(map.pd i).2, home]; simp)]
  have pdpt : (s.markHugeUser entry).table m.initPdpt (pdptIndex entry) =
      s.table m.initPdpt (pdptIndex entry) := by
    rw [marks, store_table_of_home (P := P) (by simp [map.pdpt.2, (map.pd i).2])]
  have marked : hasFlag ((s.markHugeUser entry).table (m.initPd i) (pdIndex entry)) pteUser =
      true := by
    rw [marks, store_table_self, hasFlag_or, show hasFlag pteUser pteUser = true by decide,
      Bool.or_true]
  have translated := translate_huge way (map'.present i _) (map'.huge i _)
  rw [zero, top, pdpt] at translated
  unfold UserMapped
  rw [translated]
  simp [marked]

lemma stackMapped_mark (run : Run VmmStep (vmmInit m memory) trace l'.vmm) (ready : Ready root l)
    (stacked : runOps root stackOps l = some l') (empty : l.vmm.table root 255#9 = 0)
    (hroot : root ∈ l'.vmm.pml4 :: l'.vmm.roots) (low : entry.toNat < 2 ^ 32) :
    StackMapped (l'.vmm.markHugeUser entry) root := by
  obtain ⟨P, tree, map⟩ := run_tree run
  obtain ⟨i, -, kernelWay⟩ := map.way mem_cons_self low
  have marks := markHugeUser_eq kernelWay (map.huge i _)
  have step : VmmStep l'.vmm (.markHugeUser entry) (l'.vmm.markHugeUser entry) :=
    ⟨kernelWay.allowed_mark, rfl⟩
  obtain ⟨P', tree', -⟩ := run_tree (run.snoc step)
  obtain ⟨frame, injective, aligned, leaves⟩ := runOps_stack ready stacked empty
  refine ⟨frame, injective, aligned, fun v inStack => ?_⟩
  have leaf : UserLeaf (l'.vmm.markHugeUser entry) root v
      (Vmm.leafEntry (frame (stackPage v)) (pteWritable ||| pteUser)) := by
    rw [marks]
    refine (leaves v inStack).store_off tree hroot _ ?_
    rw [(map.pd i).2]
    exact fun path => (onStack_bounds inStack).2 (cons_prefix_cons.mp path).1.symm
  have hroot' : root ∈ (l'.vmm.markHugeUser entry).pml4 :: (l'.vmm.markHugeUser entry).roots := by
    rw [marks]
    exact hroot
  obtain ⟨t, translated, user, writable, phys⟩ :=
    leaf.translate tree' hroot' (by decide) (by decide)
  rw [aligned _ (stackPage_spec inStack).1] at phys
  exact ⟨t, translated, user, writable, phys⟩

lemma userTaskCreate_memory (run : Run VmmStep (vmmInit m memory) trace u.loader.vmm)
    (low : entry.toNat < 2 ^ 32)
    (returned : userTaskCreate name entry trampoline stack u = (some slot, u')) :
    (UserMapped u'.loader.vmm (BitVec.ofNat 64 (u'.loader.sched.tasks slot).pml4) entry false ↔
      hasFlag (u.loader.vmm.table u.loader.vmm.pml4 0) pteUser = true ∧
        hasFlag (u.loader.vmm.table m.initPdpt (pdptIndex entry)) pteUser = true) ∧
    StackMapped u'.loader.vmm (BitVec.ofNat 64 (u'.loader.sched.tasks slot).pml4) := by
  obtain ⟨P, tree, map⟩ := run_tree run
  obtain ⟨vmm, root, l₂, created, stacked, hvmm, pml4⟩ := userTaskCreate_some returned
  obtain ⟨ready, cloned, shared⟩ := createAddressSpace_ready tree created
  have step : VmmStep u.loader.vmm .createAddressSpace vmm :=
    ⟨trivial, (congrArg Prod.fst created).symm⟩
  obtain ⟨⟨trace₂, run₂⟩, ready₂, top, middle⟩ := runOps_beyond (run.snoc step) ready
    (fun op mem => by rw [(stackOps_together op mem).2.1]; decide) stacked
  have empty : vmm.table root 255#9 = 0 := by
    rw [cloned]
    rfl
  have copied : vmm.table root 0 = u.loader.vmm.table u.loader.vmm.pml4 0 := by
    rw [cloned]
    rfl
  rw [pml4, hvmm]
  constructor
  · rw [markHugeUser_userMapped_iff run₂ ready₂.root low, top, middle, copied, shared _ map.pdpt.1]
  · exact stackMapped_mark run₂ ready stacked empty ready₂.root low

/-- A task that `user_task_create` returns can fetch its first instruction if and only if the PML4
and PDPT entries above it had the user flag before: the call sets that of the PD entry only. -/
theorem user_task_memory_iff (run : Run VmmStep (vmmInit m memory) trace u.loader.vmm)
    (low : entry.toNat < 2 ^ 32)
    (returned : userTaskCreate name entry trampoline stack u = (some slot, u')) :
    (UserMapped u'.loader.vmm (BitVec.ofNat 64 (u'.loader.sched.tasks slot).pml4) entry false ∧
      StackMapped u'.loader.vmm (BitVec.ofNat 64 (u'.loader.sched.tasks slot).pml4)) ↔
    hasFlag (u.loader.vmm.table u.loader.vmm.pml4 0) pteUser = true ∧
      hasFlag (u.loader.vmm.table m.initPdpt (pdptIndex entry)) pteUser = true := by
  obtain ⟨code, stack⟩ := userTaskCreate_memory run low returned
  rw [← code]
  exact and_iff_left stack

end Call

/-- The loader after boot, when a user page has been asked for below 1 GiB. -/
def openedLoader : Loader :=
  { bootedLoader with vmm := bootedLoader.vmm.next (.mapPage 0x100000 0 pteUser) }

lemma openedLoader_run : ∃ trace,
    Run VmmStep (vmmInit tablesAtOneMegabyte fun _ _ => 0) trace openedLoader.vmm := by
  have step : VmmStep bootedLoader.vmm (.mapPage 0x100000 0 pteUser) openedLoader.vmm :=
    ⟨trivial, rfl⟩
  exact ⟨_, bootedLoader_run.snoc step⟩

def createAt1M (l : Loader) : Option Nat × UserSystem :=
  userTaskCreate "a" 0x100000 0x100000 0x300000 ⟨l, fun _ => ⟨0, 0⟩⟩

lemma createAt1M_returns (l : Loader) (h : (createAt1M l).1 = some 1) :
    userTaskCreate "a" 0x100000 0x100000 0x300000 ⟨l, fun _ => ⟨0, 0⟩⟩ =
      (some 1, (createAt1M l).2) :=
  Prod.ext h rfl

theorem user_task_memory_opened :
    (createAt1M openedLoader).1 = some 1 ∧
    UserMapped (createAt1M openedLoader).2.loader.vmm
      (BitVec.ofNat 64 ((createAt1M openedLoader).2.loader.sched.tasks 1).pml4) 0x100000 false ∧
    StackMapped (createAt1M openedLoader).2.loader.vmm
      (BitVec.ofNat 64 ((createAt1M openedLoader).2.loader.sched.tasks 1).pml4) := by
  have returns : (createAt1M openedLoader).1 = some 1 := by decide +kernel
  have opened : hasFlag (openedLoader.vmm.table openedLoader.vmm.pml4 0) pteUser = true ∧
      hasFlag (openedLoader.vmm.table tablesAtOneMegabyte.initPdpt (pdptIndex 0x100000)) pteUser =
        true := by decide +kernel
  obtain ⟨trace, run⟩ := openedLoader_run
  have low : (0x100000 : Addr).toNat < 2 ^ 32 := by decide
  exact ⟨returns, (user_task_memory_iff run low (createAt1M_returns _ returns)).mpr opened⟩

/-- After boot a task is returned, but its entry point is closed to the user. -/
theorem user_task_code_is_closed :
    (createAt1M bootedLoader).1 = some 1 ∧
    ¬UserMapped (createAt1M bootedLoader).2.loader.vmm
      (BitVec.ofNat 64 ((createAt1M bootedLoader).2.loader.sched.tasks 1).pml4) 0x100000 false := by
  have returns : (createAt1M bootedLoader).1 = some 1 := by decide +kernel
  have closed : hasFlag (bootedLoader.vmm.table bootedLoader.vmm.pml4 0) pteUser = false := by
    decide +kernel
  have low : (0x100000 : Addr).toNat < 2 ^ 32 := by decide
  have code := (userTaskCreate_memory bootedLoader_run low (createAt1M_returns _ returns)).1
  refine ⟨returns, fun mapped => ?_⟩
  exact absurd (code.mp mapped).1 (by rw [closed]; decide)

end MicroOs.User
