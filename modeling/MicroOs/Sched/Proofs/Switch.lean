import MicroOs.Sched.Switch

/-!
# What a context switch preserves

Every task that is not executing has a frame on its stack, at the address its context holds, from
which `context_switch` restores the registers that it pushes. `rdi` and `rsi` are not among them:
a task that resumes finds there what the task before it has left.
-/

namespace MicroOs.Sched
open Lib List
open Function (update update_of_ne update_self)

variable {b entry j slot stackBase : Nat} {mem : Nat → Nat}
variable {image : KernelImage} {s s' : Switching} {e : SwitchEvent} {m : Machine Reg}

/-- The registers that the call and `context_switch` push, in this order. -/
def pushed : List Reg := [.rip, .rflags, .rbx, .rbp, .r12, .r13, .r14, .r15]

lemma callContextSwitch_eq (m : Machine Reg) :
    callContextSwitch m =
      exec .rsp (pushed.reverse.map .pop)
        (exec .rsp [.store .rcx .rsp, .load .rsp .rdx] (exec .rsp (pushed.map .push) m)) := by
  rw [← exec_append, ← exec_append]
  rfl

/-- The memory when the registers have been pushed and the stack pointer has been saved. -/
def savedMem (m : Machine Reg) : Nat → Nat :=
  update (writeWords m.mem (m.reg .rsp - 64) (pushed.reverse.map m.reg)) (m.reg .rcx)
    (m.reg .rsp - 64)

/-- `context_switch` saves the registers it pushes, and loads them from the frame that the other
context points to. -/
lemma callContextSwitch_spec {words : List Nat} (room : 64 ≤ m.reg .rsp) (lt : m.reg .rsp < two64)
    (length : words.length = 8) (frame : WordsAt (savedMem m) (savedMem m (m.reg .rdx)) words)
    (top_lt : savedMem m (m.reg .rdx) + 64 < two64) :
    (callContextSwitch m).mem = savedMem m ∧
      (callContextSwitch m).reg .rsp = savedMem m (m.reg .rdx) + 64 ∧
      pushed.reverse.map (callContextSwitch m).reg = words ∧
      ∀ r ∉ pushed, r ≠ .rsp → (callContextSwitch m).reg r = m.reg r := by
  -- the machine between the pushes and the pops
  obtain ⟨mid, hmid⟩ : ∃ mid : Machine Reg,
      mid = ⟨update m.reg .rsp (savedMem m (m.reg .rdx)), savedMem m⟩ := ⟨_, rfl⟩
  have saved : exec .rsp [.store .rcx .rsp, .load .rsp .rdx] (exec .rsp (pushed.map .push) m) =
      mid := by
    rw [exec_pushes (by decide) (by simpa [pushed] using room) lt, hmid]
    simp [exec, Instr.exec, savedMem, pushed]
  have pointer : mid.reg .rsp = savedMem m (m.reg .rdx) := by simp [hmid]
  have nodup : pushed.reverse.Nodup := by decide
  have notRsp : Reg.rsp ∉ pushed.reverse := by decide
  have frame : WordsAt mid.mem (mid.reg .rsp) words := by simpa [hmid] using frame
  have eight : pushed.reverse.length = 8 := rfl
  obtain ⟨sameMem, top, regs, others⟩ := exec_pops nodup notRsp frame (length.trans eight.symm)
    (by rw [pointer, eight]; exact top_lt)
  rw [callContextSwitch_eq, saved]
  refine ⟨sameMem.trans (by rw [hmid]), ?_, regs, fun r notPushed notRsp => ?_⟩
  · rw [top, pointer, eight]
  · rw [others r (by simpa using notPushed) notRsp, hmid]
    exact update_of_ne notRsp ..

/-- The words on the stack of a task that is not executing. -/
def Suspension.frame (image : KernelImage) : Suspension → List Nat
  | .fresh entry => image.initialFrame entry
  | .called regs => pushed.reverse.map regs

structure SavedFrame (image : KernelImage) (mem : Nat → Nat) (stack : Area) (a : Nat)
    (x : Suspension) : Prop where
  lo : stack.lo ≤ a
  hi : a + 8 * (x.frame image).length ≤ stack.hi
  words : WordsAt mem a (x.frame image)
  pointer : ∀ regs, x = .called regs → a + 64 = regs .rsp

lemma SavedFrame.congr {mem' : Nat → Nat} {stack : Area} {a : Nat} {x : Suspension}
    (frame : SavedFrame image mem stack a x) (same : ∀ b, stack.Has b → mem' b = mem b) :
    SavedFrame image mem' stack a x := by
  refine { frame with words := frame.words.congr fun b le lt => same b ⟨?_, ?_⟩ }
  · exact Nat.le_trans frame.lo le
  · exact Nat.lt_of_lt_of_le lt frame.hi

lemma Suspension.frame_length (image : KernelImage) (x : Suspension) :
    8 ≤ (x.frame image).length := by
  cases x with
  | fresh entry => simp [Suspension.frame, KernelImage.initialFrame]
  | called regs => simp [Suspension.frame, pushed]

/-- Every task that is not executing has its frame, and the stacks are apart. -/
structure SwitchInv (image : KernelImage) (s : Switching) : Prop where
  current_lt : s.current < maxTasks
  executing : s.suspended s.current = none
  slot_lt : ∀ j, s.suspended j ≠ none → j < maxTasks
  stack_lt : ∀ j, s.Present j → (s.stack j).hi < two64
  apart : ∀ i j, s.Present i → s.Present j → i ≠ j → (s.stack i).Apart (s.stack j)
  array : ∀ j, s.Present j → (s.stack j).Apart image.array
  frame : ∀ j x, s.suspended j = some x →
    SavedFrame image s.machine.mem (s.stack j) (s.machine.mem (image.ctx j)) x

lemma KernelImage.array_has_ctx (image : KernelImage) (lt : slot < maxTasks) :
    image.array.Has (image.ctx slot) := by
  unfold Area.Has KernelImage.array KernelImage.ctx sizeOfTask
  dsimp only
  omega

lemma SwitchInv.boot (booted : SwitchBooted image s) : SwitchInv image s := by
  obtain ⟨isFirst, none, stack_lt, apart⟩ := booted
  have present (j : Nat) (h : s.Present j) : j = 0 := by
    rcases h with h | h
    · exact h.trans isFirst
    · exact absurd (none j) h
  refine ⟨?_, none _, fun j h => absurd (none j) h, fun j h => ?_, fun i j hi hj other => ?_,
    fun j h => ?_, fun j x h => ?_⟩
  · rw [isFirst]
    decide
  · rw [present j h]
    exact stack_lt
  · exact absurd ((present i hi).trans (present j hj).symm) other
  · rw [present j h]
    exact apart
  · rw [none j] at h
    cases h

lemma SwitchInv.work (inv : SwitchInv image s) {machine : Machine Reg}
    (enabled : s.Enabled image (.work machine)) :
    SwitchInv image (s.next image (.work machine)) := by
  refine { inv with frame := fun j x h => ?_ }
  have suspended : s.suspended j = some x := h
  have ⟨sameStack, samePointer⟩ := enabled j (by simp [suspended])
  simp only [Switching.next, samePointer]
  exact (inv.frame j x h).congr sameStack

lemma SwitchInv.free (inv : SwitchInv image s) (slot : Nat) :
    SwitchInv image (s.next image (.free slot)) := by
  have still {j : Nat} (h : (s.next image (.free slot)).suspended j ≠ none) :
      j ≠ slot ∧ s.suspended j ≠ none := by
    by_cases hj : j = slot
    · subst hj
      simp [Switching.next] at h
    · simp only [Switching.next, update_of_ne hj] at h
      exact ⟨hj, h⟩
  have present {j : Nat} (h : (s.next image (.free slot)).Present j) : s.Present j :=
    h.imp_right fun h => (still h).2
  refine ⟨inv.current_lt, ?_, fun j h => inv.slot_lt j (still h).2,
    fun j h => inv.stack_lt j (present h),
    fun i j hi hj => inv.apart i j (present hi) (present hj), fun j h => inv.array j (present h),
    fun j x h => ?_⟩
  · simp only [Switching.next]
    by_cases current : s.current = slot
    · rw [current, update_self]
    · rw [update_of_ne current]
      exact inv.executing
  · have ⟨other, _⟩ := still (j := j) (by simp [h])
    simp only [Switching.next, update_of_ne other] at h
    exact inv.frame j x h

lemma initialContext_rsp_bounds (stackBase entry : Nat) :
    stackBase ≤ (initialContext stackBase entry).rsp ∧
      (initialContext stackBase entry).rsp + 72 ≤ stackBase + taskStackSize := by
  simp only [initialContext, frameTop, taskStackSize]
  omega

lemma writeFrame_of_outside (notStack : ¬ (Switching.stackArea stackBase).Has b)
    (notContext : b < image.ctx slot ∨ image.ctx slot + 72 ≤ b) :
    image.writeFrame slot stackBase entry mem b = mem b := by
  have ⟨lo, hi⟩ := initialContext_rsp_bounds stackBase entry
  have notFrame : b < (initialContext stackBase entry).rsp ∨
      (initialContext stackBase entry).rsp + 72 ≤ b := by
    unfold Area.Has Switching.stackArea at notStack
    dsimp only at notStack
    omega
  simp only [KernelImage.writeFrame]
  rw [writeWords_of_outside notContext, writeWords_of_outside notFrame]

lemma KernelImage.ctx_outside (image : KernelImage) (other : j ≠ slot) :
    image.ctx j < image.ctx slot ∨ image.ctx slot + 72 ≤ image.ctx j := by
  unfold KernelImage.ctx sizeOfTask
  omega

lemma KernelImage.outside_of_not_array (image : KernelImage) (lt : slot < maxTasks)
    (notArray : ¬ image.array.Has b) : b < image.ctx slot ∨ image.ctx slot + 72 ≤ b := by
  unfold Area.Has KernelImage.array at notArray
  unfold KernelImage.ctx sizeOfTask at *
  dsimp only at notArray
  omega

lemma savedFrame_writeFrame (mem : Nat → Nat) (lt : slot < maxTasks)
    (apart : (Switching.stackArea stackBase).Apart image.array) :
    SavedFrame image (image.writeFrame slot stackBase entry mem) (Switching.stackArea stackBase)
      (image.writeFrame slot stackBase entry mem (image.ctx slot)) (.fresh entry) := by
  have ⟨lo, hi⟩ := initialContext_rsp_bounds stackBase entry
  have pointer : image.writeFrame slot stackBase entry mem (image.ctx slot) =
      (initialContext stackBase entry).rsp :=
    (wordsAt_writeWords _ (image.ctx slot) (initialContext stackBase entry).words).1
  rw [pointer]
  refine ⟨lo, hi, ?_, fun regs h => by cases h⟩
  refine (wordsAt_writeWords mem (initialContext stackBase entry).rsp
    (image.initialFrame entry)).congr fun b le below => ?_
  have has : (Switching.stackArea stackBase).Has b :=
    ⟨Nat.le_trans lo le, Nat.lt_of_lt_of_le below hi⟩
  exact writeWords_of_outside (image.outside_of_not_array lt (apart.not_has has))

lemma SwitchInv.create (inv : SwitchInv image s)
    (enabled : s.Enabled image (.create slot stackBase entry)) :
    SwitchInv image (s.next image (.create slot stackBase entry)) := by
  obtain ⟨slot_lt, absent, stack_lt, notArray, apart⟩ := enabled
  have notCurrent : s.current ≠ slot := fun h => absent (.inl h.symm)
  have stackOf {j : Nat} (other : j ≠ slot) :
      (s.next image (.create slot stackBase entry)).stack j = s.stack j :=
    update_of_ne other ..
  have ownStack : (s.next image (.create slot stackBase entry)).stack slot =
      Switching.stackArea stackBase := update_self ..
  have suspended {j : Nat} (other : j ≠ slot) :
      (s.next image (.create slot stackBase entry)).suspended j = s.suspended j :=
    update_of_ne other ..
  have present {j : Nat} (other : j ≠ slot)
      (h : (s.next image (.create slot stackBase entry)).Present j) : s.Present j := by
    rcases h with h | h
    · exact .inl h
    · rw [suspended other] at h
      exact .inr h
  refine ⟨inv.current_lt, ?_, fun j h => ?_, fun j h => ?_, fun i j hi hj other => ?_,
    fun j h => ?_, fun j x h => ?_⟩
  · exact (suspended notCurrent).trans inv.executing
  · by_cases hj : j = slot
    · exact hj ▸ slot_lt
    · rw [suspended hj] at h
      exact inv.slot_lt j h
  · by_cases hj : j = slot
    · subst hj
      rw [ownStack]
      exact stack_lt
    · rw [stackOf hj]
      exact inv.stack_lt j (present hj h)
  · by_cases isNew : i = slot
    · subst isNew
      rw [ownStack, stackOf other.symm]
      exact apart j (present other.symm hj)
    · by_cases isNew' : j = slot
      · subst isNew'
        rw [ownStack, stackOf isNew]
        exact (apart i (present isNew hi)).symm
      · rw [stackOf isNew, stackOf isNew']
        exact inv.apart i j (present isNew hi) (present isNew' hj) other
  · by_cases hj : j = slot
    · subst hj
      rw [ownStack]
      exact notArray
    · rw [stackOf hj]
      exact inv.array j (present hj h)
  · by_cases hj : j = slot
    · subst hj
      simp only [Switching.next, update_self, Option.some.injEq] at h
      subst h
      rw [ownStack]
      exact savedFrame_writeFrame s.machine.mem slot_lt notArray
    · rw [suspended hj] at h
      have isPresent : s.Present j := .inr (by simp [h])
      have j_lt := inv.slot_lt j (by simp [h])
      have samePointer : (s.next image (.create slot stackBase entry)).machine.mem (image.ctx j) =
          s.machine.mem (image.ctx j) :=
        writeFrame_of_outside (notArray.symm.not_has (image.array_has_ctx j_lt))
          (image.ctx_outside hj)
      rw [samePointer, stackOf hj]
      refine (inv.frame j x h).congr fun b has => ?_
      exact writeFrame_of_outside ((apart j isPresent).symm.not_has has)
        (image.outside_of_not_array slot_lt ((inv.array j isPresent).not_has has))

section Switch

variable {next : Nat} {x : Suspension}

lemma savedMem_of_outside (enabled : s.Enabled image (.switch next))
    (notStack : ¬ (s.stack s.current).Has b) (notContext : b ≠ image.ctx s.current) :
    savedMem s.machine b = s.machine.mem b := by
  obtain ⟨-, rcx, -, -, room, inside⟩ := enabled
  unfold Area.Has at notStack
  rw [savedMem, rcx, update_of_ne notContext, writeWords_of_outside]
  simp only [length_map, length_reverse, pushed, length_cons, length_nil]
  omega

section
variable (inv : SwitchInv image s) (enabled : s.Enabled image (.switch next))
include inv enabled

lemma SwitchInv.savedMem_other (suspended : s.suspended j ≠ none) :
    savedMem s.machine (image.ctx j) = s.machine.mem (image.ctx j) ∧
      ∀ b, (s.stack j).Has b → savedMem s.machine b = s.machine.mem b := by
  have other : j ≠ s.current := by
    rintro rfl
    exact suspended inv.executing
  have apart := inv.apart j s.current (.inr suspended) (.inl rfl) other
  have ctx_other : image.ctx j ≠ image.ctx s.current := by
    have := image.ctx_outside other
    omega
  refine ⟨?_, fun b has => ?_⟩
  · have has := image.array_has_ctx (inv.slot_lt j suspended)
    exact savedMem_of_outside enabled ((inv.array s.current (.inl rfl)).symm.not_has has) ctx_other
  · refine savedMem_of_outside enabled (apart.not_has has) ?_
    rintro rfl
    exact (inv.array j (.inr suspended)).not_has has (image.array_has_ctx inv.current_lt)

/-- What the switch does: it leaves a frame for the current task, and restores the registers it
pushes from the frame of the next one. -/
lemma SwitchInv.switched (suspended : s.suspended next = some x) :
    (callContextSwitch s.machine).mem = savedMem s.machine ∧
      (callContextSwitch s.machine).reg .rsp = s.machine.mem (image.ctx next) + 64 ∧
      pushed.reverse.map (callContextSwitch s.machine).reg = (x.frame image).take 8 ∧
      ∀ r ∉ pushed, r ≠ .rsp → (callContextSwitch s.machine).reg r = s.machine.reg r := by
  have ⟨isSuspended, _, rdx, _, room, inside⟩ := enabled
  have ⟨samePointer, sameStack⟩ := inv.savedMem_other enabled isSuspended
  have frame := (inv.frame next x suspended).congr sameStack
  have stack_lt := inv.stack_lt s.current (.inl rfl)
  have next_lt := inv.stack_lt next (.inr isSuspended)
  have long := x.frame_length image
  have bound := frame.hi
  have spec := callContextSwitch_spec (m := s.machine) (Nat.le_trans (Nat.le_add_left ..) room)
    (Nat.lt_of_le_of_lt inside stack_lt) (length_take_of_le long)
  rw [rdx, samePointer] at spec
  refine spec ?_ (by omega)
  have words := frame.words
  rw [← take_append_drop 8 (x.frame image), wordsAt_append] at words
  exact words.1

lemma SwitchInv.savedFrame_current :
    SavedFrame image (savedMem s.machine) (s.stack s.current)
      (savedMem s.machine (image.ctx s.current)) (.called s.machine.reg) := by
  have ⟨_, rcx, _, _, room, inside⟩ := enabled
  have pointer : savedMem s.machine (image.ctx s.current) = s.machine.reg .rsp - 64 := by
    rw [savedMem, rcx, update_self]
  rw [pointer]
  have length : (Suspension.frame image (.called s.machine.reg)).length = 8 := rfl
  refine ⟨by omega, by rw [length]; omega, ?_, fun regs h => ?_⟩
  · refine (wordsAt_writeWords s.machine.mem (s.machine.reg .rsp - 64) _).congr fun b le lt => ?_
    have has : (s.stack s.current).Has b := by
      rw [length] at lt
      unfold Area.Has
      omega
    have notContext : b ≠ image.ctx s.current := by
      rintro rfl
      exact (inv.array s.current (.inl rfl)).not_has has (image.array_has_ctx inv.current_lt)
    rw [savedMem, rcx, update_of_ne notContext]
    rfl
  · cases h
    omega

lemma SwitchInv.switch : SwitchInv image (s.next image (.switch next)) := by
  obtain ⟨x, suspended⟩ := Option.ne_none_iff_exists'.mp enabled.1
  have mem : (s.next image (.switch next)).machine.mem = savedMem s.machine :=
    (inv.switched enabled suspended).1
  have other : s.current ≠ next := by
    rintro same
    exact enabled.1 (same ▸ inv.executing)
  have noLonger : (s.next image (.switch next)).suspended next = none := update_self ..
  have switchedAway : (s.next image (.switch next)).suspended s.current =
      some (.called s.machine.reg) := by
    simp only [Switching.next, update_of_ne other, update_self]
  have untouched {j : Nat} (notNext : j ≠ next) (notCurrent : j ≠ s.current) :
      (s.next image (.switch next)).suspended j = s.suspended j := by
    simp only [Switching.next, update_of_ne notNext, update_of_ne notCurrent]
  have present {j : Nat} (h : (s.next image (.switch next)).Present j) : s.Present j := by
    rcases h with h | h
    · exact .inr (by rw [show j = next from h]; exact enabled.1)
    · by_cases notNext : j = next
      · exact absurd (notNext ▸ noLonger) h
      · by_cases notCurrent : j = s.current
        · exact .inl notCurrent
        · exact .inr (untouched notNext notCurrent ▸ h)
  refine ⟨inv.slot_lt next enabled.1, noLonger, fun j h => ?_,
    fun j h => inv.stack_lt j (present h), fun i j hi hj => inv.apart i j (present hi) (present hj),
    fun j h => inv.array j (present h), fun j y h => ?_⟩
  · rcases present (.inr h) with rfl | h
    · exact inv.current_lt
    · exact inv.slot_lt j h
  · rw [mem]
    have notNext : j ≠ next := by
      rintro rfl
      rw [noLonger] at h
      cases h
    by_cases notCurrent : j = s.current
    · subst notCurrent
      rw [switchedAway] at h
      cases h
      exact inv.savedFrame_current enabled
    · rw [untouched notNext notCurrent] at h
      have ⟨samePointer, sameStack⟩ := inv.savedMem_other enabled (j := j) (by simp [h])
      rw [samePointer]
      exact (inv.frame j y h).congr sameStack

end

end Switch

lemma SwitchInv.step (inv : SwitchInv image s) (step : SwitchStep image s e s') :
    SwitchInv image s' := by
  obtain ⟨enabled, rfl⟩ := step
  cases e with
  | work machine => exact inv.work enabled
  | create slot stackBase entry => exact inv.create enabled
  | free slot => exact inv.free slot
  | switch next => exact inv.switch enabled

/-- A task that has called `context_switch` returns with its stack pointer and the registers of the
calling convention. -/
def ReturnsIntact (s s' : Switching) (next : Nat) : Prop :=
  ∀ regs, s.suspended next = some (.called regs) →
    s'.machine.reg .rip = regs .rip ∧ s'.machine.reg .rsp = regs .rsp ∧
      ∀ r ∈ calleeSaved, s'.machine.reg r = regs r

/-- A new task enters its entry function with interrupts on and `task_exit_trampoline` as return
address. -/
def EntersFresh (image : KernelImage) (s s' : Switching) (next : Nat) : Prop :=
  ∀ entry, s.suspended next = some (.fresh entry) →
    s'.machine.reg .rip = entry ∧ interruptFlag (s'.machine.reg .rflags) = true ∧
      s'.machine.mem (s'.machine.reg .rsp) = image.taskExitTrampoline

/-- The task that switches away has in `rdi` and `rsi` what the next one had when it called
`context_switch`. -/
def KeepsIndexRegisters (s : Switching) (next : Nat) : Prop :=
  ∀ regs, s.suspended next = some (.called regs) →
    s.machine.reg .rdi = regs .rdi ∧ s.machine.reg .rsi = regs .rsi

section Switch

variable {next : Nat}

section
variable (inv : SwitchInv image s) (enabled : s.Enabled image (.switch next))
include inv enabled

lemma SwitchInv.restores {regs : Reg → Nat} (suspended : s.suspended next = some (.called regs)) :
    (callContextSwitch s.machine).reg .rsp = regs .rsp ∧
      ∀ r ∈ pushed, (callContextSwitch s.machine).reg r = regs r := by
  obtain ⟨-, pointer, restored, -⟩ := inv.switched enabled suspended
  refine ⟨pointer.trans ((inv.frame next _ suspended).pointer regs rfl), fun r member => ?_⟩
  exact map_inj_left.mp restored r (mem_reverse.mpr member)

lemma SwitchInv.returnsIntact_iff :
    ReturnsIntact s (s.next image (.switch next)) next ↔ KeepsIndexRegisters s next := by
  refine forall₂_congr fun regs suspended => ?_
  obtain ⟨-, -, -, others⟩ := inv.switched enabled suspended
  have ⟨pointer, restored⟩ := inv.restores enabled suspended
  have rdi := others .rdi (by decide) (by decide)
  have rsi := others .rsi (by decide) (by decide)
  simp only [Switching.next]
  constructor
  · rintro ⟨-, -, saved⟩
    exact ⟨rdi.symm.trans (saved .rdi (by decide)), rsi.symm.trans (saved .rsi (by decide))⟩
  · rintro ⟨keepsRdi, keepsRsi⟩
    refine ⟨restored .rip (by decide), pointer, fun r member => ?_⟩
    by_cases isPushed : r ∈ pushed
    · exact restored r isPushed
    · -- the two that are not pushed
      have : r = .rdi ∨ r = .rsi := by
        revert isPushed member
        cases r <;> decide
      rcases this with rfl | rfl
      · exact rdi.trans keepsRdi
      · exact rsi.trans keepsRsi

lemma SwitchInv.entersFresh : EntersFresh image s (s.next image (.switch next)) next := by
  intro entry suspended
  obtain ⟨mem, pointer, restored, -⟩ := inv.switched enabled suspended
  have ⟨_, sameStack⟩ := inv.savedMem_other enabled enabled.1
  -- the frame as `context_switch` finds it
  have words := ((inv.frame next _ suspended).congr sameStack).words
  simp only [Suspension.frame, KernelImage.initialFrame, pushed, reverse_cons,
    reverse_nil, nil_append, cons_append, map_cons, map_nil,
    take_succ_cons, take_zero, cons.injEq] at restored words
  obtain ⟨-, -, -, -, -, -, rflags, rip, -⟩ := restored
  obtain ⟨-, -, -, -, -, -, -, -, trampoline, -⟩ := words
  simp only [Switching.next]
  refine ⟨rip, ?_, ?_⟩
  · rw [rflags]
    decide
  · rw [mem, pointer]
    exact trampoline

end

end Switch

/-- In every run, a switch brings the next task back with its stack pointer and the callee-saved
registers, or starts it in order, iff `rdi` and `rsi` have the values they had when that task called
`context_switch`. -/
theorem switch_restores_iff {boot t : Switching} {trace : List (StepOf Switching SwitchEvent)}
    (booted : SwitchBooted image boot) (run : Run (SwitchStep image) boot trace t) :
    ∀ st ∈ trace, ∀ next, st.event = .switch next →
      (ReturnsIntact st.pre st.post next ∧ EntersFresh image st.pre st.post next ↔
        KeepsIndexRegisters st.pre next) := by
  intro st member next isSwitch
  have reachable : Reachable (SwitchBooted image) (SwitchStep image) st.pre :=
    run.reachable_pre booted st member
  have inv := reachable.invariant (SwitchInv image) (fun _ => .boot) fun _ _ _ inv step =>
    inv.step step
  have step := run.step_of_mem st member
  rw [isSwitch] at step
  obtain ⟨enabled, post⟩ := step
  rw [post, inv.returnsIntact_iff enabled]
  exact and_iff_left (inv.entersFresh enabled)

def exampleImage : KernelImage := ⟨0x100000, 0x5000⟩

def taskZero : Switching where
  machine :=
    { reg := fun
        | .rsp => 0x90000
        | .rcx => 0x100000
        | .rdx => 0x100140
        | .rdi => 7
        | _ => 0
      mem := fun _ => 0 }
  current := 0
  stack _ := ⟨0x80000, 0xa0000⟩
  suspended _ := none

def taskOneEntered : Switching :=
  (taskZero.next exampleImage (.create 1 0x200000 0x4000)).next exampleImage (.switch 1)

/-- Task 1 is about to switch back, with the given value in `rdi`. -/
def taskOneMachine (rdi : Nat) : Machine Reg :=
  { taskOneEntered.machine with
    reg := update (update (update taskOneEntered.machine.reg
      .rcx 0x100140) .rdx 0x100000) .rdi rdi }

def taskOne (rdi : Nat) : Switching :=
  taskOneEntered.next exampleImage (.work (taskOneMachine rdi))

lemma taskOne_suspended (rdi : Nat) :
    (taskOne rdi).suspended 0 = some (.called taskZero.machine.reg) := by
  simp [taskOne, taskOneEntered, Switching.next, taskZero]

lemma taskZero_booted : SwitchBooted exampleImage taskZero :=
  ⟨rfl, fun _ => rfl, by decide, .inl (by decide)⟩

lemma taskOne_run (rdi : Nat) :
    ∃ trace, Run (SwitchStep exampleImage) taskZero trace
        ((taskOne rdi).next exampleImage (.switch 0)) ∧
      ⟨taskOne rdi, .switch 0, (taskOne rdi).next exampleImage (.switch 0)⟩ ∈ trace := by
  have created : taskZero.Enabled exampleImage (.create 1 0x200000 0x4000) := by
    refine ⟨by decide, ?_, by decide, .inr (by decide), fun j _ => .inr ?_⟩
    · rintro (same | suspended)
      · cases same
      · exact suspended rfl
    · exact (by decide : 0xa0000 ≤ 0x200000)
  have entered : (taskZero.next exampleImage (.create 1 0x200000 0x4000)).Enabled exampleImage
      (.switch 1) := by
    refine ⟨?_, ?_⟩
    · simp [Switching.next]
    · decide +kernel
  have pointer : (taskOne rdi).machine.reg .rsp = 0x203ff8 := by
    have entered : taskOneEntered.machine.reg .rsp = 0x203ff8 := by decide +kernel
    simpa [taskOne, taskOneMachine, Switching.next] using entered
  have back : (taskOne rdi).Enabled exampleImage (.switch 0) := by
    refine ⟨by simp [taskOne_suspended], ?_, ?_, ?_, ?_, ?_⟩
    · exact (by decide : 0x100140 = exampleImage.ctx 1)
    · exact (by decide : 0x100000 = exampleImage.ctx 0)
    · rw [pointer]
    · rw [pointer]
      exact (by decide : 0x200000 + 64 ≤ 0x203ff8)
    · rw [pointer]
      exact (by decide : 0x203ff8 ≤ 0x204000)
  have worked : taskOneEntered.Enabled exampleImage (.work (taskOneMachine rdi)) :=
    fun j _ => ⟨fun _ _ => rfl, rfl⟩
  exact ⟨_, (((Run.nil.snoc ⟨created, rfl⟩).snoc ⟨entered, rfl⟩).snoc ⟨worked, rfl⟩).snoc
    ⟨back, rfl⟩, mem_append_right _ mem_cons_self⟩

theorem switch_restores_iff_same_rdi :
    ReturnsIntact (taskOne 7) ((taskOne 7).next exampleImage (.switch 0)) 0 := by
  obtain ⟨trace, run, member⟩ := taskOne_run 7
  refine ((switch_restores_iff taskZero_booted run _ member 0 rfl).mpr ?_).1
  intro regs suspended
  rw [taskOne_suspended, Option.some.injEq, Suspension.called.injEq] at suspended
  subst suspended
  decide +kernel

theorem switch_loses_rdi :
    ∃ image boot trace t, SwitchBooted image boot ∧ Run (SwitchStep image) boot trace t ∧
      ∃ st ∈ trace, ∃ next regs, st.event = .switch next ∧
        st.pre.suspended next = some (.called regs) ∧
        regs .rdi = 7 ∧ st.post.machine.reg .rdi = 8 := by
  obtain ⟨trace, run, member⟩ := taskOne_run 8
  exact ⟨_, _, trace, _, taskZero_booted, run, _, member, 0, _, rfl, taskOne_suspended 8, rfl,
    by decide +kernel⟩

end MicroOs.Sched
