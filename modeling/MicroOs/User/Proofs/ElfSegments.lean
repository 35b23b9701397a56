import MicroOs.User.Proofs.ElfMap

/-!
# The segments of a loaded program

When a load has returned a task, the user can reach a byte of a segment unless the address belongs
to a 2 MiB page of the kernel, where `vmm_map_page_in` silently returns. A page that several segments
share has the permissions of the last one.
-/

namespace MicroOs.User
open Mm Sched Lib List
open BitVec (ofNat toNat_add le_def lt_def)

variable {P : Place} {f : ElfFile} {root page v w : Addr} {op : PageOp} {h : Phdr}
  {l l₀ l' : Loader} {entry : Pte} {slot : Nat} {name : String} {trampoline stack : Nat}

/-- The 2 MiB page at `v` that the kernel shares with new address spaces. -/
def sharedHuge (s : Vmm) (v : Addr) : Option Pte := do
  let pdpt ← nextTable (s.table s.pml4 (pml4Index v))
  let pd ← nextTable (s.table pdpt (pdptIndex v))
  if pml4Index v = 0 ∧ hasFlag (s.table pd (pdIndex v)) pteHuge then s.table pd (pdIndex v)
  else none

def Phdr.writes (h : Phdr) : Bool := h.flags &&& pfW != 0

/-- `v` is present and open to the user, to writes too if `write`. -/
def UserMapped (s : Vmm) (root v : Addr) (write : Bool) : Prop :=
  ∃ t, s.translate root v = some t ∧ t.user = true ∧ (write = true → t.writable = true)

/-- A segment's page at `v` reaches the user: it is a shared 2 MiB page that is marked for the
user, or the page mapped last is as writable as it has to be. -/
def ElfFile.Opens (f : ElfFile) (s : Vmm) (v : Addr) (write : Bool) : Prop :=
  match sharedHuge s v with
  | some entry => hasFlag entry pteUser = true
  | none => write = true → onStack v = true ∨
      ∀ h ∈ (f.loads.filter (·.mapsPage v)).getLast?, h.writes = true

/-- No segment wraps around, and every page of a segment reaches the user. -/
def ElfFile.Mappable (f : ElfFile) (s : Vmm) : Prop :=
  ∀ h ∈ f.loads, 0 < h.memsz.toNat → h.vaddr.toNat + h.memsz.toNat < 2 ^ 64 ∧
    ∀ k < h.memsz.toNat, f.Opens s (h.vaddr + ofNat 64 k) h.writes

/-- A load of `f` has made `root` and run its plan there from `l₀` on. -/
structure Loaded (f : ElfFile) (l l' : Loader) (slot : Nat) (root : Addr) (l₀ : Loader) : Prop where
  ready : Ready root l₀
  pml4 : ofNat 64 (l'.sched.tasks slot).pml4 = root
  run : ∃ l₂, runOps root f.plan l₀ = some l₂ ∧ l'.vmm = l₂.vmm ∧ l'.frames = l₂.frames
  cloned : l₀.vmm.table root = l.vmm.clonedEntries
  shared : ∀ t ∈ l.vmm.tables, l₀.vmm.table t = l.vmm.table t
  good : ∀ h ∈ f.loads, h.bad f = false
  contents : ∀ h ∈ f.loads, ∀ op ∈ h.ops f, pageContent f h op.virt = some op.bytes

lemma createAddressSpace_ready (tree : Tree P l.vmm) {vmm : Vmm}
    (created : l.vmm.createAddressSpace = (vmm, some root)) :
    Ready root { l with vmm } ∧ vmm.table root = l.vmm.clonedEntries ∧
      ∀ t ∈ l.vmm.tables, vmm.table t = l.vmm.table t := by
  cases answer : l.vmm.pages with
  | nil =>
    rw [createAddressSpace_none answer] at created
    exact absurd (congrArg Prod.snd created) (by simp)
  | cons page rest =>
    have shape := tree.createAddressSpace_eq answer
    obtain ⟨rfl, hroot⟩ := Prod.mk.injEq .. ▸ (shape.symm.trans created)
    obtain rfl := Option.some.inj hroot
    refine ⟨⟨⟨_, tree.newRoot answer⟩, by simp⟩, by simp [Vmm.fill], fun t ht => ?_⟩
    simp [Vmm.fill, tree.ne_of_pages answer ht]

lemma elfLoad_loaded (tree : Tree P l.vmm)
    (loaded : elfLoad f name trampoline stack l = (.task slot, l')) :
    ∃ root l₀, Loaded f l l' slot root l₀ := by
  obtain ⟨vmm, root, l₂, created, run, hvmm, hframes, pml4, good⟩ := elfLoad_task loaded
  obtain ⟨ready, cloned, shared⟩ := createAddressSpace_ready tree created
  refine ⟨root, { l with vmm }, ready, ?_, ⟨l₂, run, hvmm, hframes⟩, cloned, shared,
    fun h mem => (good h mem).1, fun h mem => (good h mem).2⟩
  rw [pml4, BitVec.ofNat_toNat, BitVec.setWidth_eq]

lemma sharedHuge_eq_some (s : Vmm) (v : Addr) (entry : Pte) :
    sharedHuge s v = some entry ↔ pml4Index v = 0 ∧ HugeAt s s.pml4 v entry := by
  unfold sharedHuge
  constructor
  · intro h
    obtain ⟨pdpt, level4, h⟩ := Option.bind_eq_some_iff.mp h
    obtain ⟨pd, level3, h⟩ := Option.bind_eq_some_iff.mp h
    split at h
    · rename_i isHuge
      obtain rfl := Option.some.inj h
      exact ⟨isHuge.1, pdpt, pd, ⟨level4, level3⟩, rfl, isHuge.2⟩
    · cases h
  · rintro ⟨low, pdpt, pd, way, rfl, isHuge⟩
    apply Option.bind_eq_some_iff.mpr
    refine ⟨pdpt, way.level4, Option.bind_eq_some_iff.mpr ⟨pd, way.level3, ?_⟩⟩
    exact if_pos ⟨low, isHuge⟩

section
variable (loaded : Loaded f l l' slot root l₀) (tree : Tree P l.vmm)
include loaded tree

lemma Loaded.upperWay_iff (low : pml4Index v = 0) {pdpt pd : Addr} :
    UpperWay l₀.vmm root v pdpt pd ↔ UpperWay l.vmm l.vmm.pml4 v pdpt pd := by
  have top : l₀.vmm.table root (pml4Index v) = l.vmm.table l.vmm.pml4 (pml4Index v) := by
    rw [loaded.cloned, low]
    exact if_pos (.inl rfl)
  have middle : nextTable (l.vmm.table l.vmm.pml4 (pml4Index v)) = some pdpt →
      l₀.vmm.table pdpt = l.vmm.table pdpt := by
    intro level4
    apply loaded.shared
    exact (tree.placed.child l.vmm.pml4 tree.pml4_mem (by simp [tree.pml4_home]) _ _ level4).1
  constructor
  · intro way
    have level4 := top ▸ way.level4
    exact ⟨level4, middle level4 ▸ way.level3⟩
  · intro way
    refine ⟨top.symm ▸ way.level4, ?_⟩
    rw [middle way.level4]
    exact way.level3

lemma Loaded.hugeAt (huge : sharedHuge l.vmm v = some entry) : HugeAt l₀.vmm root v entry := by
  obtain ⟨low, pdpt, pd, way, hentry, isHuge⟩ := (sharedHuge_eq_some ..).mp huge
  refine ⟨pdpt, pd, (loaded.upperWay_iff tree low).mpr way, ?_, isHuge⟩
  rw [loaded.shared pd (way.places tree mem_cons_self).2.2.1.mem]
  exact hentry

lemma Loaded.noHugeWay (lower : v.toNat < 2 ^ 47) (none : sharedHuge l.vmm v = none) :
    NoHugeWay l₀.vmm root v := by
  intro pdpt pd way
  by_cases low : pml4Index v = 0
  · have kernel := (loaded.upperWay_iff tree low).mp way
    rw [loaded.shared pd (kernel.places tree mem_cons_self).2.2.1.mem]
    by_contra isHuge
    have some := (sharedHuge_eq_some l.vmm v _).mpr
      ⟨low, pdpt, pd, kernel, rfl, by simpa using isHuge⟩
    exact absurd (none.symm.trans some) (by simp)
  · -- the user's half of the new PML4 is empty
    have empty : l₀.vmm.table root (pml4Index v) = 0 := by
      rw [loaded.cloned]
      apply if_neg
      have := pml4Index_lower lower
      rw [not_or]
      exact ⟨low, by omega⟩
    have level4 := way.level4
    rw [empty] at level4
    simp [nextTable] at level4

end

lemma last_of_filter {α : Type} {p : α → Bool} {xs : List α} {a : α}
    (last : (xs.filter p).getLast? = some a) :
    ∃ front back, xs = front ++ a :: back ∧ p a = true ∧ ∀ b ∈ back, ¬p b = true := by
  obtain ⟨init, h⟩ := getLast?_eq_some_iff.mp last
  obtain ⟨xs₁, xs₂, rfl, -, h₂⟩ := filter_eq_append_iff.mp h
  obtain ⟨ys₁, ys₂, rfl, -, pa, h₃⟩ := filter_eq_cons_iff.mp h₂
  exact ⟨xs₁ ++ ys₁, ys₂, by simp, pa, filter_eq_nil_iff.mp h₃⟩

lemma indices_of_covers (covers : op.covers v = true) : indices op.virt = indices v :=
  indices_eq_of_page (by simpa [PageOp.covers] using covers)

section
variable (loaded : Loaded f l l' slot root l₀)
include loaded

lemma Loaded.userHuge (tree : Tree P l.vmm)
    (mem : op ∈ f.plan) (covers : op.covers v = true) (huge : sharedHuge l.vmm v = some entry) :
    UserHuge l'.vmm root v entry := by
  obtain ⟨l₂, run, hvmm, -⟩ := loaded.run
  have same := indices_of_covers covers
  have start : HugeAt l₀.vmm root op.virt entry := (loaded.hugeAt tree huge).of_indices same.symm
  have done := runOps_huge loaded.ready run mem (plan_spec loaded.good mem).1.1 start
  rw [hvmm]
  exact done.of_indices same

omit loaded in
lemma sharedHuge_high (s : Vmm) (high : pml4Index v ≠ 0) : sharedHuge s v = none := by
  cases huge : sharedHuge s v with
  | none => rfl
  | some entry => exact absurd ((sharedHuge_eq_some ..).mp huge).1 high

lemma Loaded.stack_way (tree : Tree P l.vmm)
    {front : List PageOp} (plan : f.plan = front ++ [op]) {l₁ : Loader}
    (run : runOps root front l₀ = some l₁) (more : l₁.vmm.pages ≠ []) :
    ∃ pdpt pd pt, Way l₁.vmm root op.virt pdpt pd pt := by
  have pages : stackOps = [stackOpAt 0x7FFFFFFFA000, stackOpAt 0x7FFFFFFFB000,
      stackOpAt 0x7FFFFFFFC000] ++ [stackOpAt 0x7FFFFFFFD000] := rfl
  unfold ElfFile.plan at plan
  rw [pages, ← append_assoc] at plan
  obtain ⟨rfl, last⟩ := append_inj' plan rfl
  obtain rfl := (cons.inj last).1
  -- the page before it has a leaf in the same PT
  rw [append_cons, append_cons] at run
  obtain ⟨l₃, page, rest, first, answer, done⟩ := runOps_split run
  obtain rfl := Option.some.inj done
  have none : sharedHuge l.vmm (stackOpAt 0x7FFFFFFFC000).virt = none :=
    sharedHuge_high _ (by decide)
  have no := runOps_noHugeWay loaded.ready first (loaded.noHugeWay tree (by decide) none)
  obtain ⟨pdpt, pd, pt, way, -⟩ :=
    apply_leaf (runOps_ready loaded.ready first) answer (by decide) no (.inl more)
  exact ⟨pdpt, pd, pt, way.of_indices (by decide) (by decide) (by decide)⟩

lemma Loaded.userLeaf (tree : Tree P l.vmm)
    (last : (f.plan.filter (PageOp.covers v)).getLast? = some op) (none : sharedHuge l.vmm v = none)
    (lower : v.toNat < 2 ^ 47) :
    ∃ page, UserLeaf l'.vmm root v (Vmm.leafEntry page op.flags) ∧ l'.frames page = op.bytes ∧
      page &&& pteAddrMask = page := by
  obtain ⟨l₂, run, hvmm, hframes⟩ := loaded.run
  obtain ⟨front, back, plan, covers, others⟩ := last_of_filter last
  have mem : ∀ op' ∈ back, op' ∈ f.plan := fun op' hop => plan ▸ by simp [hop]
  have user := plan_spec loaded.good (show op ∈ f.plan from plan ▸ by simp)
  have same := indices_of_covers covers
  rw [plan] at run
  obtain ⟨l₁, page, rest, first, answer, done⟩ := runOps_split run
  have no : NoHugeWay l₀.vmm root op.virt := (loaded.noHugeWay tree lower none).of_indices same.symm
  have enough : (op.apply root page rest l₁).vmm.pages ≠ [] ∨
      ∃ pdpt pd pt, Way l₁.vmm root op.virt pdpt pd pt := by
    cases back with
    | nil => exact .inr (loaded.stack_way tree plan first (by simp [answer]))
    | cons op' back =>
      left
      intro empty
      simp [runOps, empty] at done
  have apart : ∀ op' ∈ back, indices op'.virt ≠ indices op.virt := by
    intro op' hop eq
    have lower' := (plan_spec loaded.good (mem op' hop)).2
    have page : op'.virt.toNat / 4096 = v.toNat / 4096 :=
      page_eq_of_indices (by omega) (by omega) (eq.trans same)
    exact others op' hop (by simpa [PageOp.covers] using page)
  obtain ⟨leaf, bytes⟩ := runOps_last loaded.ready first answer done user.1.1 no enough apart
  obtain ⟨P₁, tree₁⟩ := (runOps_ready loaded.ready first).tree
  exact ⟨page, hvmm ▸ leaf.of_indices same, hframes ▸ bytes, tree₁.aligned_of_pages answer⟩

lemma Loaded.final : ∃ P', Tree P' l'.vmm ∧ root ∈ l'.vmm.pml4 :: l'.vmm.roots := by
  obtain ⟨l₂, run, hvmm, -⟩ := loaded.run
  obtain ⟨⟨P', tree⟩, hroot⟩ := runOps_ready loaded.ready run
  exact ⟨P', hvmm ▸ tree, hvmm ▸ hroot⟩

lemma Loaded.userMapped_iff (tree : Tree P l.vmm)
    (last : (f.plan.filter (PageOp.covers v)).getLast? = some op) (lower : v.toNat < 2 ^ 47)
    (write : Bool) : UserMapped l'.vmm root v write ↔
      match sharedHuge l.vmm v with
      | some entry => hasFlag entry pteUser = true
      | none => write = true → hasFlag op.flags pteWritable = true := by
  obtain ⟨P', tree', hroot⟩ := loaded.final
  have mem : op ∈ f.plan.filter (PageOp.covers v) := mem_of_getLast? last
  obtain ⟨mem, covers⟩ := mem_filter.mp mem
  cases huge : sharedHuge l.vmm v with
  | some entry =>
    obtain ⟨t, translated, user, writable⟩ :=
      (loaded.userHuge tree mem covers huge).translate tree' hroot
    constructor
    · rintro ⟨t', translated', user', -⟩
      obtain rfl := Option.mem_unique translated translated'
      exact user.symm.trans user'
    · intro granted
      exact ⟨t, translated, user.trans granted, fun _ => writable⟩
  | none =>
    obtain ⟨page, leaf, -⟩ := loaded.userLeaf tree last huge lower
    obtain ⟨⟨isUser, disjoint⟩, -⟩ := plan_spec loaded.good mem
    obtain ⟨t, translated, user, writable, -⟩ := leaf.translate tree' hroot isUser disjoint
    constructor
    · rintro ⟨t', translated', -, writable'⟩ hwrite
      obtain rfl := Option.mem_unique translated translated'
      exact writable.symm.trans (writable' hwrite)
    · intro granted
      exact ⟨t, translated, user, fun hwrite => writable.trans (granted hwrite)⟩

omit loaded in
lemma pageFlags_writable (h : Phdr) : hasFlag h.pageFlags pteWritable = h.writes := by
  unfold Phdr.pageFlags Phdr.writes
  split
  · rename_i writes
    rw [writes]
    decide
  · rename_i writes
    rw [Bool.not_eq_true] at writes
    rw [writes]
    decide

omit loaded in
lemma last_plan (good : ∀ h ∈ f.loads, h.bad f = false) (v : Addr) :
    (f.plan.filter (PageOp.covers v)).getLast? = if onStack v then some (stackOpAt v)
      else (f.loads.filter (·.mapsPage v)).getLast?.map (Phdr.opAt f v) := by
  rw [filter_plan good]
  split
  · rw [getLast?_concat]
  · rw [append_nil, getLast?_map]

lemma Loaded.opens_iff (tree : Tree P l.vmm)
    (lower : v.toNat < 2 ^ 47) (mapped : onStack v = true ∨ ∃ h ∈ f.loads, h.mapsPage v = true)
    (write : Bool) : UserMapped l'.vmm root v write ↔ f.Opens l.vmm v write := by
  have last := last_plan loaded.good v
  unfold ElfFile.Opens
  by_cases inStack : onStack v = true
  · rw [if_pos inStack] at last
    rw [loaded.userMapped_iff tree last lower]
    have writable : hasFlag (stackOpAt v).flags pteWritable = true := by
      show hasFlag (pteWritable ||| pteUser) pteWritable = true
      decide
    cases sharedHuge l.vmm v with
    | some entry => exact Iff.rfl
    | none => simp [inStack, writable]
  · obtain ⟨h, mem, maps⟩ := mapped.resolve_left inStack
    rw [if_neg inStack] at last
    obtain ⟨owner, howner⟩ : ∃ owner, (f.loads.filter (·.mapsPage v)).getLast? = some owner := by
      apply Option.isSome_iff_exists.mp
      rw [getLast?_isSome]
      exact ne_nil_of_mem (mem_filter.mpr ⟨mem, maps⟩)
    rw [howner, Option.map_some] at last
    rw [loaded.userMapped_iff tree last lower, howner]
    have writable : hasFlag (owner.opAt f v).flags pteWritable = owner.writes :=
      pageFlags_writable owner
    cases sharedHuge l.vmm v with
    | some entry => exact Iff.rfl
    | none => simp [inStack, writable]

end

lemma Phdr.byte_toNat (fits : h.vaddr.toNat + h.memsz.toNat < 2 ^ 64) {k : Nat}
    (hk : k < h.memsz.toNat) : (h.vaddr + ofNat 64 k).toNat = h.vaddr.toNat + k := by
  rw [toNat_add, BitVec.toNat_ofNat, Nat.mod_eq_of_lt (show k < 2 ^ 64 by omega)]
  exact Nat.mod_eq_of_lt (by omega)

lemma Phdr.maps_byte (good : h.bad f = false) (fits : h.vaddr.toNat + h.memsz.toNat < 2 ^ 64)
    {k : Nat} (hk : k < h.memsz.toNat) :
    (h.vaddr + ofNat 64 k).toNat < 2 ^ 47 ∧
      h.mapsPage (h.vaddr + ofNat 64 k) = true := by
  have byte := Phdr.byte_toNat fits hk
  have sum : (h.vaddr + h.memsz).toNat = h.vaddr.toNat + h.memsz.toNat := by
    rw [toNat_add]
    exact Nat.mod_eq_of_lt fits
  have bound := Phdr.end_lt good
  have first := h.firstPage_toNat
  have last := Phdr.endPage_toNat good
  refine ⟨by omega, ?_⟩
  simp only [Phdr.mapsPage, Bool.and_eq_true, decide_eq_true_eq, le_def, lt_def]
  omega

lemma Phdr.wraps_high (good : h.bad f = false) (wraps : 2 ^ 64 ≤ h.vaddr.toNat + h.memsz.toNat) :
    256 ≤ (pml4Index h.vaddr).toNat := by
  have size := Phdr.memsz_le good
  have := h.vaddr.isLt
  rw [pml4Index_toNat]
  omega

lemma Loaded.not_userMapped (loaded : Loaded f l l' slot root l₀) (closed : UpperClosed l.vmm)
    (high : 256 ≤ (pml4Index v).toNat) (write : Bool) : ¬UserMapped l'.vmm root v write := by
  obtain ⟨l₂, run, hvmm, -⟩ := loaded.run
  have start : hasFlag (l₀.vmm.table root (pml4Index v)) pteUser = false := by
    rw [loaded.cloned]
    unfold Vmm.clonedEntries
    rw [if_pos (.inr high)]
    exact closed l.vmm.pml4 mem_cons_self _ high
  have kept : hasFlag (l₂.vmm.table root (pml4Index v)) pteUser = false := by
    refine (runOps_rule (Q := fun l => hasFlag (l.vmm.table root (pml4Index v)) pteUser = false)
      loaded.ready run start ?_).2
    intro op hop l page rest ready answer closed
    obtain ⟨P, tree⟩ := ready.tree
    have lower := pml4Index_lower (plan_spec loaded.good hop).2
    show hasFlag ((Vmm.mapPageIn _ root op.virt page op.flags).table root _) pteUser = false
    have other : pml4Index v ≠ pml4Index op.virt := by
      intro eq
      rw [eq] at high
      omega
    have tree' := take_tree tree answer
    rw [mapPageIn_table_off tree' ready.root _ _ (tree'.root root ready.root).1
      (tree'.off_of_root ready.root other)]
    exact closed
  rintro ⟨t, translated, user, -⟩
  obtain ⟨leaf, -, -, -, all⟩ := (userAccessible_iff ..).mp ⟨t, translated, user⟩
  have top := all_eq_true.mp all (l'.vmm.table root (pml4Index v))
    (by simp [Vmm.entries, trailEntries, indices, trail])
  rw [hvmm] at top
  exact absurd (kept.symm.trans top) (by decide)

lemma onStack_bounds (inStack : onStack v = true) : v.toNat < 2 ^ 47 ∧ pml4Index v ≠ 0 := by
  simp only [onStack, Bool.and_eq_true, decide_eq_true_eq, le_def, lt_def] at inStack
  obtain ⟨above, below⟩ := inStack
  have bottom : (userStackBase - userStackSize).toNat = 0x7FFFFFFFA000 := by decide
  have top : userStackBase.toNat = 0x7FFFFFFFE000 := by decide
  refine ⟨by omega, fun zero => ?_⟩
  have idx := pml4Index_toNat v
  rw [zero, show (0 : Index).toNat = 0 by decide] at idx
  omega

/-- After a load that returned a task, the user reaches every byte of the segments, and the writable
ones to write, exactly when no segment wraps around, no page of a segment is a 2 MiB page of the
kernel, and no page of a writable segment is mapped again without that permission. -/
theorem segments_are_mapped_iff {m : StaticTables} {memory : Addr → Index → Pte}
    {trace : List (StepOf Vmm VmmEvent)} (run : Run VmmStep (vmmInit m memory) trace l.vmm)
    (lower : ∀ st ∈ trace, LowerUser st.event)
    (loaded : elfLoad f name trampoline stack l = (.task slot, l')) :
    ((∀ h ∈ f.loads, ∀ k < h.memsz.toNat,
        UserMapped l'.vmm (ofNat 64 (l'.sched.tasks slot).pml4)
          (h.vaddr + ofNat 64 k) h.writes) ∧
      ∀ v, onStack v = true →
        UserMapped l'.vmm (ofNat 64 (l'.sched.tasks slot).pml4) v true) ↔
      f.Mappable l.vmm := by
  obtain ⟨P, tree, -⟩ := run_tree run
  have closed := run_upperClosed run lower
  obtain ⟨root, l₀, loaded⟩ := elfLoad_loaded tree loaded
  rw [loaded.pml4]
  constructor
  · rintro ⟨segments, -⟩ h mem size
    have fits : h.vaddr.toNat + h.memsz.toNat < 2 ^ 64 := by
      by_contra wraps
      have high := Phdr.wraps_high (loaded.good h mem) (Nat.not_lt.mp wraps)
      have first := segments h mem 0 size
      rw [BitVec.add_zero] at first
      exact loaded.not_userMapped closed high _ first
    refine ⟨fits, fun k hk => ?_⟩
    obtain ⟨low, maps⟩ := Phdr.maps_byte (loaded.good h mem) fits hk
    exact (loaded.opens_iff tree low (.inr ⟨h, mem, maps⟩) _).mp (segments h mem k hk)
  · intro mappable
    constructor
    · intro h mem k hk
      obtain ⟨fits, opens⟩ := mappable h mem (by omega)
      obtain ⟨low, maps⟩ := Phdr.maps_byte (loaded.good h mem) fits hk
      exact (loaded.opens_iff tree low (.inr ⟨h, mem, maps⟩) _).mpr (opens k hk)
    · intro v inStack
      obtain ⟨low, high⟩ := onStack_bounds inStack
      apply (loaded.opens_iff tree low (.inl inStack) true).mpr
      unfold ElfFile.Opens
      rw [sharedHuge_high _ high]
      exact fun _ => .inl inStack

def bytes16 (x : BitVec 16) : List Byte := [x.extractLsb' 0 8, x.extractLsb' 8 8]
def bytes32 (x : BitVec 32) : List Byte := bytes16 (x.extractLsb' 0 16) ++ bytes16 (x.extractLsb' 16 16)
def bytes64 (x : BitVec 64) : List Byte := bytes32 (x.extractLsb' 0 32) ++ bytes32 (x.extractLsb' 32 32)

def Phdr.image (h : Phdr) : List Byte :=
  bytes32 h.type ++ bytes32 h.flags ++ bytes64 h.offset ++ bytes64 h.vaddr ++ bytes64 h.vaddr ++
    bytes64 h.filesz ++ bytes64 h.memsz ++ bytes64 4096

def imageOf (hs : List Phdr) : List Byte :=
  bytes32 elfMagic ++ [2, 1, 1] ++ replicate 9 0 ++ bytes16 etExec ++ bytes16 emX8664 ++
    bytes32 1 ++ bytes64 0x400000 ++ bytes64 64 ++ bytes64 0 ++ bytes32 0 ++ bytes16 64 ++
    bytes16 56 ++ bytes16 (ofNat 16 hs.length) ++ bytes16 0 ++ bytes16 0 ++ bytes16 0 ++
    hs.flatMap Phdr.image

/-- One segment of 16 bytes, all of them from the start of the file, at the address where linkers
put programs. -/
def fileAt400000 : ElfFile where
  bytes := imageOf [⟨ptLoad, 5, 0, 0x400000, 16, 16⟩]
  around _ := 0
  fits := by decide

def sixteenPages : List Addr := (range 16).map fun i => 0x200000 + ofNat 64 (4096 * i)

def bootedLoader : Loader where
  vmm := bootedVmm.next (.supply sixteenPages)
  frames _ _ := 0
  elfPending _ := ⟨0, 0⟩
  sched := schedInit 0x101000 0

def bootedTrace : List (StepOf Vmm VmmEvent) := [⟨bootedVmm, .supply sixteenPages, bootedLoader.vmm⟩]

lemma bootedLoader_run :
    Run VmmStep (vmmInit tablesAtOneMegabyte fun _ _ => 0) bootedTrace bootedLoader.vmm := by
  have supplied : VmmStep bootedVmm (.supply sixteenPages) bootedLoader.vmm := by
    refine ⟨?_, rfl⟩
    show Fresh _ _
    decide +kernel
  exact Run.nil.snoc supplied

lemma bootedTrace_lower : ∀ st ∈ bootedTrace, LowerUser st.event := by
  intro st hst
  rw [bootedTrace, mem_singleton] at hst
  rw [hst]
  trivial

def load400000 : LoadResult × Loader := elfLoad fileAt400000 "a" 0x100000 0x300000 bootedLoader

lemma load400000_returns : load400000.1 = .task 1 := by
  decide +kernel

theorem segments_are_mapped_iff_400000 :
    ((∀ h ∈ fileAt400000.loads, ∀ k < h.memsz.toNat,
        UserMapped load400000.2.vmm (ofNat 64 (load400000.2.sched.tasks 1).pml4)
          (h.vaddr + ofNat 64 k) h.writes) ∧
      ∀ v, onStack v = true →
        UserMapped load400000.2.vmm (ofNat 64 (load400000.2.sched.tasks 1).pml4) v true) ↔
      fileAt400000.Mappable bootedLoader.vmm := by
  have returned : load400000 = (load400000.1, load400000.2) := Prod.mk.eta.symm
  rw [load400000_returns] at returned
  exact segments_are_mapped_iff bootedLoader_run bootedTrace_lower returned

/-- `elf_load` returns a task for the file, but the task cannot reach its code. -/
theorem code_at_400000_is_not_mapped :
    load400000.1 = .task 1 ∧ (⟨ptLoad, 5, 0, 0x400000, 16, 16⟩ : Phdr) ∈ fileAt400000.loads ∧
    ¬UserMapped load400000.2.vmm (ofNat 64 (load400000.2.sched.tasks 1).pml4) 0x400000
      false := by
  refine ⟨load400000_returns, by decide +kernel, ?_⟩
  rintro ⟨t, translated, user, -⟩
  have closed : ¬UserAccessible load400000.2.vmm
      (ofNat 64 (load400000.2.sched.tasks 1).pml4) 0x400000 := by decide +kernel
  exact closed ⟨t, translated, user⟩

end MicroOs.User
