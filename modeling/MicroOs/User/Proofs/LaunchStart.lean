import MicroOs.Sched.Proofs.TaskFields
import MicroOs.User.Proofs.LaunchRecords

/-!
# The start of user tasks

In runs in which no scheduling pass comes at a critical point, a user task finds at its start what
its creation has stored for it.
-/

namespace MicroOs.User
open Lib Sched

variable {args : CreateArgs} {d : Doing} {e : KernelEvent} {kind : LaunchKind} {slot : Nat}

/-- The task has what the creation stores in it. -/
structure Launch.InPlace (launch : Launch) (t : Task) : Prop where
  isUser : t.isUser = true
  pml4 : t.pml4 = launch.pml4
  pendingSlot : t.pendingSlot = launch.record

lemma Launch.InPlace.steady {launch : Launch} {t t' : Task} (h : launch.InPlace t)
    (same : SameFields t t') : launch.InPlace t' :=
  ⟨same.isUser.trans h.isUser, same.pml4.trans h.pml4, same.pendingSlot.trans h.pendingSlot⟩

/-- The creation that the current task is about to complete has made the task of the slot. -/
structure Given (l : Launcher) (launch : Launch) (slot : Nat) : Prop where
  other : slot ≠ l.current
  activity : l.kernel.activity = some (.returned slot)
  start : l.doing slot = some (.start launch.kind)
  origin : l.origin slot = some launch

def Doing.Filled (l : Launcher) : Doing → Prop
  | .created launch slot => Given l launch slot
  | .markedUser launch slot =>
      Given l launch slot ∧ (l.kernel.sched.tasks slot).isUser = true
  | .gotPml4 launch slot =>
      Given l launch slot ∧ (l.kernel.sched.tasks slot).isUser = true ∧
        (l.kernel.sched.tasks slot).pml4 = launch.pml4
  | _ => True

lemma Doing.filled_of_fills (h : d.fills = none) (l : Launcher) : d.Filled l := by
  cases d with
  | created _ _ | markedUser _ _ | gotPml4 _ _ => cases h
  | _ => trivial

lemma Doing.fills_of_not_critical (h : d.critical = false) : d.fills = none := by
  cases d with
  | created _ _ | markedUser _ _ | gotPml4 _ _ => cases h
  | _ => rfl

namespace Launcher

variable {l m : Launcher} {point : Option Doing} {k : Kernel}

structure FieldsInv (l : Launcher) : Prop where
  inPlace : ∀ j kind launch, l.doing j = some (.start kind) → l.origin j = some launch →
    IsTask l.kernel.sched j → (∀ d, l.doing l.current = some d → d.fills ≠ some j) →
    launch.InPlace (l.kernel.sched.tasks j)
  filled : ∀ d, l.doing l.current = some d → d.Filled l
  alive : ∀ d, l.doing l.current = some d → d.inTrampoline = true →
    (l.kernel.sched.tasks l.current).state ≠ .dead
  slots : ∀ j d, l.doing j = some d → d.inTrampoline = true →
    0 < j ∧ j < l.kernel.sched.taskCount

section
variable (inv : FieldsInv l)
include inv

lemma FieldsInv.goTo (doing : m.doing = l.doing) (origin : m.origin = l.origin)
    (current : m.current = l.current)
    (steady : ∀ j, j ≠ l.current → Steady l.kernel.sched m.kernel.sched j)
    (count : l.kernel.sched.taskCount ≤ m.kernel.sched.taskCount)
    (calm : (l.doing l.current).bind Doing.fills = none)
    (plain : point.elim True fun d => d.fills = none ∧ ∀ kind, d ≠ .start kind)
    (trampoline : point.elim True fun d => d.inTrampoline = true →
      (m.kernel.sched.tasks m.current).state ≠ .dead ∧ 0 < l.current ∧
        l.current < m.kernel.sched.taskCount) : FieldsInv (m.goTo point) := by
  have others {j : Nat} (other : j ≠ l.current) : (m.goTo point).doing j = l.doing j := by
    rw [goTo_doing_of_ne (current ▸ other), doing]
  refine ⟨fun j kind launch at_start made isTask _ => ?_, fun d at_d => ?_, fun d at_d inside => ?_,
    fun j d at_d inside => ?_⟩
  · have other : j ≠ l.current := by
      intro isCurrent
      rw [isCurrent, ← current, goTo_doing] at at_start
      subst at_start
      exact plain.2 kind rfl
    rw [others other] at at_start
    have ⟨before, same⟩ := steady j other isTask
    refine (inv.inPlace j kind launch at_start (origin ▸ made) before ?_).steady same
    intro d at_d
    rw [at_d, Option.bind_some] at calm
    rw [calm]
    exact nofun
  · rw [goTo_current, goTo_doing] at at_d
    subst at_d
    exact Doing.filled_of_fills plain.1 _
  · rw [goTo_current, goTo_doing] at at_d
    subst at_d
    exact (trampoline inside).1
  · by_cases isCurrent : j = l.current
    · rw [isCurrent, ← current, goTo_doing] at at_d
      subst at_d
      rw [isCurrent]
      exact (trampoline inside).2
    · rw [others isCurrent] at at_d
      have ⟨pos, lt⟩ := inv.slots j d at_d inside
      exact ⟨pos, Nat.lt_of_lt_of_le lt count⟩

lemma FieldsInv.move (kernel : m.kernel = l.kernel) (doing : m.doing = l.doing)
    (origin : m.origin = l.origin) (calm : (l.doing l.current).bind Doing.fills = none)
    (plain : point.elim True fun d => d.fills = none ∧ ∀ kind, d ≠ .start kind)
    (trampoline : point.elim True fun d => d.inTrampoline = true →
      ∃ d', l.doing l.current = some d' ∧ d'.inTrampoline = true) : FieldsInv (m.goTo point) := by
  have current : m.current = l.current := by rw [Launcher.current, kernel, Launcher.current]
  refine inv.goTo doing origin current (fun j _ => .of_eq (by rw [kernel]))
    (Nat.le_of_eq (by rw [kernel])) calm plain ?_
  cases point with
  | none => trivial
  | some d =>
    intro inside
    obtain ⟨d', before, wasInside⟩ := trampoline inside
    rw [current, kernel]
    exact ⟨inv.alive d' before wasInside, inv.slots _ d' before wasInside⟩

lemma FieldsInv.store {launch : Launch} {f : Task → Task} (doing : m.doing = l.doing)
    (origin : m.origin = l.origin) (sched : m.kernel.sched = l.kernel.sched.modify slot f)
    (given : Given l launch slot)
    (filling : (l.doing l.current).bind Doing.fills = some slot)
    (plain : point.elim True fun d => (∀ kind, d ≠ .start kind) ∧ d.inTrampoline = false)
    (filled : point.elim True fun d => d.fills = some slot ∧ d.Filled (m.goTo point))
    (done : point = none → launch.InPlace (f (l.kernel.sched.tasks slot))) :
    FieldsInv (m.goTo point) := by
  have current : m.current = l.current := by
    rw [Launcher.current, sched]
    rfl
  have others {j : Nat} (other : j ≠ l.current) : (m.goTo point).doing j = l.doing j := by
    rw [goTo_doing_of_ne (current ▸ other), doing]
  have atCurrent {d : Doing} (at_d : (m.goTo point).doing l.current = some d) :
      point = some d := by
    rwa [← current, goTo_doing] at at_d
  refine ⟨fun j kind made at_start hasOrigin isTask complete => ?_, fun d at_d => ?_,
    fun d at_d inside => ?_, fun j d at_d inside => ?_⟩
  · have other : j ≠ l.current := by
      rintro rfl
      obtain rfl := atCurrent at_start
      exact plain.1 kind rfl
    rw [others other] at at_start
    replace hasOrigin : l.origin j = some made := origin ▸ hasOrigin
    replace isTask : IsTask m.kernel.sched j := isTask
    show made.InPlace (m.kernel.sched.tasks j)
    rw [IsTask, sched] at isTask
    rw [sched]
    by_cases isSlot : j = slot
    · subst isSlot
      cases point with
      | none =>
        have sameLaunch : launch = made := Option.mem_unique given.origin hasOrigin
        rw [← sameLaunch, modify_tasks_self]
        exact done rfl
      | some d => exact absurd filled.1 (complete d (goTo_doing _ _))
    · rw [modify_tasks_of_ne f isSlot] at isTask ⊢
      refine inv.inPlace j kind made at_start hasOrigin isTask fun d at_d => ?_
      rw [at_d, Option.bind_some] at filling
      rw [filling]
      exact fun sameSlot => isSlot (Option.some.inj sameSlot).symm
  · rw [goTo_current, current] at at_d
    obtain rfl := atCurrent at_d
    exact filled.2
  · rw [goTo_current, current] at at_d
    obtain rfl := atCurrent at_d
    exact absurd (plain.2.symm.trans inside) Bool.false_ne_true
  · by_cases isCurrent : j = l.current
    · subst isCurrent
      obtain rfl := atCurrent at_d
      exact absurd (plain.2.symm.trans inside) Bool.false_ne_true
    · rw [others isCurrent] at at_d
      show 0 < j ∧ j < m.kernel.sched.taskCount
      rw [sched]
      exact inv.slots j d at_d inside

lemma FieldsInv.stepTo {d' : Doing} (at_d : l.doing l.current = some d)
    (kernel : m.kernel = l.kernel) (doing : m.doing = l.doing) (origin : m.origin = l.origin)
    (calm : d.fills = none) (calm' : d'.fills = none) (notStart : ∀ kind, d' ≠ .start kind)
    (inside : d'.inTrampoline = true → d.inTrampoline = true) : FieldsInv (m.goTo (some d')) := by
  refine inv.move kernel doing origin ?_ ⟨calm', notStart⟩ fun now => ⟨d, at_d, inside now⟩
  rw [at_d]
  exact calm

lemma FieldsInv.advance (records : RecordsInv l) : FieldsInv l.advance := by
  unfold Launcher.advance
  cases at_d : l.doing l.current with
  | none => exact inv
  | some d =>
    have filled := inv.filled d at_d
    have now : (l.doing l.current).bind Doing.fills = d.fills := by rw [at_d, Option.bind_some]
    cases d with
    | scanning launch =>
      simp only
      split
      · exact inv.stepTo at_d rfl rfl rfl rfl rfl nofun nofun
      · split
        · exact inv.stepTo at_d rfl rfl rfl rfl rfl nofun nofun
        · exact inv.move rfl rfl rfl now trivial trivial
    | claimed _ | entered _ => exact inv.stepTo at_d rfl rfl rfl rfl rfl nofun nofun
    | recorded launch => exact inv
    | created launch slot =>
      have given : Given l launch slot := filled
      refine inv.store rfl rfl (setTask_sched ..) given now ⟨nofun, rfl⟩
        ⟨rfl, ⟨given.other, given.activity, ?_, given.origin⟩, ?_⟩ nofun
      · exact (goTo_doing_of_ne given.other).trans given.start
      · rw [goTo_kernel, setTask_sched, modify_tasks_self]
    | markedUser launch slot =>
      have ⟨given, isUser⟩ : Given l launch slot ∧ _ := filled
      refine inv.store rfl rfl (setTask_sched ..) given now ⟨nofun, rfl⟩
        ⟨rfl, ⟨given.other, given.activity, ?_, given.origin⟩, ?_, ?_⟩ nofun
      · exact (goTo_doing_of_ne given.other).trans given.start
      · rw [goTo_kernel, setTask_sched, modify_tasks_self]
        exact isUser
      · rw [goTo_kernel, setTask_sched, modify_tasks_self]
    | gotPml4 launch slot =>
      have ⟨given, isUser, pml4⟩ : Given l launch slot ∧ _ := filled
      exact inv.store (f := fun t => { t with pendingSlot := launch.record }) rfl rfl rfl given
        now trivial trivial fun _ => ⟨isUser, pml4, rfl⟩
    | start kind =>
      simp only
      split
      · exact inv.stepTo at_d rfl rfl rfl rfl rfl nofun (fun _ => rfl)
      · exact inv.stepTo at_d rfl rfl rfl rfl rfl nofun (fun _ => rfl)
    | checked _ _ | readEntry _ _ _ | readRsp _ _ _ _ | clearedEntry _ _ _ _ =>
      exact inv.stepTo at_d rfl rfl rfl rfl rfl nofun (fun _ => rfl)
    | clearedRsp entry userRsp =>
      have alive := inv.alive _ at_d rfl
      have ⟨pos, lt⟩ := inv.slots _ _ at_d rfl
      refine inv.goTo rfl rfl rfl (fun j other => .of_eq ?_) (Nat.le_refl _) now
        ⟨rfl, nofun⟩ (fun _ => ⟨?_, pos, lt⟩)
      · rw [setTask_sched, modify_tasks_of_ne _ other]
      · rw [setTask_sched]
        exact (congrArg Task.state (modify_tasks_self _)).trans_ne alive
    | loaded entry userRsp =>
      have ⟨launch, origin, entry_ne, got, _⟩ := records.right _ _ at_d
      simp only [if_neg (got ▸ entry_ne)]
      exact inv.goTo rfl rfl rfl (fun j _ => .of_eq rfl) (Nat.le_refl _) now ⟨rfl, nofun⟩
        nofun
    | inUser entry userRsp => exact inv

end

end Launcher

lemma Doing.timer_of_allows (allows : d.allows e = true)
    (busy : d.inTrampoline = true ∨ d.fills ≠ none) : e = .timer := by
  have noCall : d.calls e = false := by
    cases d with
    | recorded _ | inUser _ _ => simp [inTrampoline, fills] at busy
    | _ => rfl
  simpa only [Doing.allows, noCall, Bool.or_false, decide_eq_true_eq] using allows

lemma Doing.recorded_of_allows (allows : d.allows e = true) (creates : creating e = true) :
    ∃ launch, d = .recorded launch := by
  have notTimer : e ≠ .timer := by
    rintro rfl
    cases creates
  simp only [Doing.allows, notTimer, decide_false, Bool.false_or] at allows
  cases d with
  | recorded launch => exact ⟨launch, rfl⟩
  | inUser entry userRsp => simp [Doing.calls, creates] at allows
  | _ => cases allows

namespace Launcher

variable {l m : Launcher} {e : KernelEvent} {entered : Kernel} {how : Resume}

/-- The current task may do this. -/
def Allows (l : Launcher) (e : KernelEvent) : Prop :=
  (l.doing l.current).elim (plainAllows e) (·.allows e) = true

lemma Allows.at (h : l.Allows e) (at_d : l.doing l.current = some d) : d.allows e = true := by
  rw [Allows, at_d] at h
  exact h

lemma Allows.notUser (h : l.Allows e) (pml4 : Nat) (pendingSlot : Int) :
    e ≠ .createUser pml4 pendingSlot := by
  rintro rfl
  rw [Allows] at h
  cases at_d : l.doing l.current with
  | none =>
    rw [at_d] at h
    cases h
  | some d =>
    rw [at_d] at h
    obtain ⟨launch, rfl⟩ := d.recorded_of_allows h rfl
    cases h

lemma Allows.creates (h : l.Allows e) (creates : creating e = true) : l.MayCreate := by
  cases at_d : l.doing l.current with
  | none => exact .inl at_d
  | some d =>
    obtain ⟨launch, rfl⟩ := Doing.recorded_of_allows (h.at at_d) creates
    exact .inr ⟨launch, at_d⟩

lemma FieldsInv.pass (inv : FieldsInv l) (records : RecordsInv l) (array : ArrayOk entered.sched)
    (entry : Entry l.kernel e entered how) (allows : l.Allows e)
    (calm : ∀ d, l.doing l.current = some d → d.critical = false) :
    FieldsInv { l with kernel := entered.pass how } := by
  have count : (entered.pass how).sched.taskCount = l.kernel.sched.taskCount := by
    rw [pass_sched, schedYield_taskCount, entry.taskCount]
  refine ⟨fun j kind launch at_start origin isTask _ => ?_, fun d at_d => ?_,
    fun d _ _ => array.next_alive how, fun j d at_d inside => ?_⟩
  · have still : j ≠ l.kernel.sched.currentTask ∨ e = .timer := by
      by_cases isCurrent : j = l.current
      · exact .inr (Doing.timer_of_allows (allows.at (isCurrent ▸ at_start)) (.inl rfl))
      · exact .inl isCurrent
    have ⟨before, same⟩ := steady_pass array entry still isTask
    refine (inv.inPlace j kind launch at_start origin before fun d at_d => ?_).steady same
    rw [Doing.fills_of_not_critical (calm d at_d)]
    exact nofun
  · refine Doing.filled_of_fills (Doing.fills_of_not_critical ?_) _
    cases critical : d.critical with
    | false => rfl
    | true =>
      have isCurrent := records.mine _ d at_d critical
      rw [calm d (isCurrent ▸ at_d)] at critical
      cases critical
  · rw [count]
    exact inv.slots j d at_d inside

lemma FieldsInv.quiet (inv : FieldsInv l) (stack : StackInv l.kernel) (step : Quiet l.kernel e k)
    (allows : l.Allows e) (notCommit : e ≠ .createCommit) : FieldsInv { l with kernel := k } := by
  have current : k.sched.currentTask = l.current := step.currentTask
  refine ⟨fun j kind launch at_start origin isTask complete => ?_, fun d at_d => ?_,
    fun d at_d inside => ?_, fun j d at_d inside => ?_⟩
  · have ⟨before, same⟩ := stack.steady_quiet step notCommit allows.notUser j isTask
    refine (inv.inPlace j kind launch at_start origin before fun d at_d => ?_).steady same
    exact complete d (by rw [Launcher.current, current]; exact at_d)
  · rw [Launcher.current, current] at at_d
    cases fills : d.fills with
    | none => exact Doing.filled_of_fills fills _
    | some slot =>
      have isTimer := Doing.timer_of_allows (allows.at at_d) (.inr (by rw [fills]; simp))
      subst isTimer
      cases step
      have filled := inv.filled d at_d
      cases d with
      | created launch slot => exact ⟨filled.other, filled.activity, filled.start, filled.origin⟩
      | markedUser launch slot =>
        have ⟨given, isUser⟩ : Given l launch slot ∧ _ := filled
        exact ⟨⟨given.other, given.activity, given.start, given.origin⟩, isUser⟩
      | gotPml4 launch slot =>
        have ⟨given, isUser, pml4⟩ : Given l launch slot ∧ _ := filled
        exact ⟨⟨given.other, given.activity, given.start, given.origin⟩, isUser, pml4⟩
      | _ => cases fills
  · rw [Launcher.current, current] at at_d
    have isTimer := Doing.timer_of_allows (allows.at at_d) (.inl inside)
    subst isTimer
    cases step
    exact inv.alive d at_d inside
  · have ⟨pos, lt⟩ := inv.slots j d at_d inside
    exact ⟨pos, Nat.lt_of_lt_of_le lt step.taskCount_le⟩

lemma FieldsInv.commit (inv : FieldsInv l)
    (sched : k.sched = createCommit l.kernel.sched slot args)
    (returned : k.activity = some (.returned slot)) (slot_pos : 0 < slot) (other : slot ≠ l.current)
    (creates : l.MayCreate) : FieldsInv { l.commit slot with kernel := k } := by
  have current : ({ l.commit slot with kernel := k } : Launcher).current = l.current := by
    rw [Launcher.current, sched]
    rfl
  have count : l.kernel.sched.taskCount ≤ k.sched.taskCount ∧ slot < k.sched.taskCount := by
    simp only [sched, createCommit]
    split <;> omega
  refine ⟨fun j kind launch at_start origin isTask complete => ?_, fun d at_d => ?_,
    fun d at_d inside => ?_, fun j d at_d inside => ?_⟩
  · have same {j : Nat} (notSlot : j ≠ slot) : k.sched.tasks j = l.kernel.sched.tasks j := by
      rw [sched]
      exact modify_tasks_of_ne _ notSlot
    cases creates.committed at_start with
    | new launch at_recorded =>
      refine absurd rfl (complete (.created launch slot) ?_)
      rw [current]
      simp only [Launcher.commit, at_recorded, Function.update_self]
    | other notSlot _ before =>
      dsimp only at isTask ⊢
      rw [IsTask, same notSlot] at isTask
      rw [same notSlot]
      refine inv.inPlace j kind launch before ((commit_origin_of_ne notSlot).symm.trans origin)
        isTask fun d at_d => ?_
      rcases creates with plain | ⟨launch, at_recorded⟩
      · cases plain.symm.trans at_d
      · cases at_recorded.symm.trans at_d
        simp [Doing.fills]
  · rw [current] at at_d
    cases creates.committed at_d with
    | creator launch at_recorded =>
      obtain ⟨start, origin⟩ := commit_launch at_recorded other
      exact ⟨current ▸ other, returned, start, origin⟩
    | new launch _ => exact absurd rfl other
    | other _ notCurrent _ => exact absurd rfl notCurrent
  · rw [current] at at_d
    cases creates.committed at_d with
    | creator launch _ => cases inside
    | new launch _ => exact absurd rfl other
    | other _ notCurrent _ => exact absurd rfl notCurrent
  · cases creates.committed at_d with
    | new launch _ => exact ⟨slot_pos, count.2⟩
    | creator launch _ => cases inside
    | other _ _ before =>
      obtain ⟨pos, lt⟩ := inv.slots j d before inside
      exact ⟨pos, Nat.lt_of_lt_of_le lt count.1⟩

structure Inv (l : Launcher) : Prop where
  stack : StackInv l.kernel
  records : RecordsInv l
  fields : FieldsInv l

/-- The condition on a step: a pass comes neither in the middle of `do_task_create` or
`sched_send_signal` nor at a critical point of a launch, and the entry point of a new user task is
not 0. -/
def Undisturbed (l : Launcher) : LaunchEvent → Prop
  | .kernel e => (l.kernel.passEntry e).isSome = true →
      l.kernel.activity.all (!·.inCall) = true ∧ (l.doing l.current).all (!·.critical) = true
  | .launch _ entry _ => entry ≠ 0
  | .advance => True

instance (l : Launcher) (e : LaunchEvent) : Decidable (l.Undisturbed e) :=
  match e with
  | .kernel _ => inferInstanceAs (Decidable (_ → _))
  | .launch _ _ _ => inferInstanceAs (Decidable (_ ≠ _))
  | .advance => inferInstanceAs (Decidable True)

lemma Inv.boot (ticks cr3 rsp0 : Nat) : Inv (boot ticks cr3 rsp0) where
  stack := .boot ticks cr3 rsp0
  records := ⟨nofun, nofun, .empty⟩
  fields := ⟨nofun, nofun, nofun, nofun⟩

section
variable (inv : Inv l)
include inv

lemma Inv.inPlace (runs : l.kernel.Runs) {launch : Launch}
    (at_start : l.doing l.current = some (.start kind))
    (origin : l.origin l.current = some launch) : launch.InPlace l.kernel.sched.current := by
  have alive := inv.fields.alive _ at_start rfl
  have pos := (inv.fields.slots _ _ at_start rfl).1
  have isTask : IsTask l.kernel.sched l.current := ⟨alive, runs.resolve_left (Nat.ne_of_gt pos)⟩
  refine inv.fields.inPlace l.current kind launch at_start origin isTask fun d at_d => ?_
  rw [at_start] at at_d
  cases at_d
  exact nofun

lemma Inv.stack_advance (runs : l.kernel.Runs) : StackInv l.advance.kernel := by
  have stack := inv.stack
  unfold Launcher.advance
  cases at_d : l.doing l.current with
  | none => exact stack
  | some d =>
    have filled := inv.fields.filled d at_d
    cases d with
    | scanning launch =>
      simp only
      split
      · exact stack
      · split <;> exact stack
    | created launch slot =>
      have given : Given l launch slot := filled
      have ⟨pos, lt⟩ := stack.ok.activity given.activity
      exact stack.store pos lt fun _ => rfl
    | markedUser launch slot =>
      have given : Given l launch slot := filled.1
      have ⟨pos, lt⟩ := stack.ok.activity given.activity
      exact stack.store pos lt fun _ => rfl
    | gotPml4 launch slot =>
      have given : Given l launch slot := filled.1
      have ⟨pos, lt⟩ := stack.ok.activity given.activity
      have stored := stack.store (f := fun t => { t with pendingSlot := launch.record }) pos lt
        fun _ => rfl
      -- the function returns, as after the creation of any task
      refine stored.step (e := .createDone) ⟨runs.imp_right fun isOne => ?_,
        ⟨slot, given.activity⟩, rfl⟩ nofun
      rw [Scheduler.current]
      exact (congrArg Task.id (modify_tasks_of_ne (fun t => { t with pendingSlot := launch.record })
        given.other.symm)).trans_ne isOne
    | start kind =>
      simp only
      split <;> exact stack
    | clearedRsp entry userRsp =>
      have ⟨pos, lt⟩ := inv.fields.slots _ _ at_d rfl
      exact stack.store pos lt fun _ => rfl
    | loaded entry userRsp =>
      have ⟨launch, origin, entry_ne, got, _⟩ := inv.records.right _ _ at_d
      simp only [if_neg (got ▸ entry_ne)]
      exact stack.setRsp0 _ true
    | _ => exact stack

lemma Inv.advance (runs : l.kernel.Runs) : Inv l.advance where
  stack := inv.stack_advance runs
  records := inv.records.advance fun _ _ at_start origin =>
    (inv.inPlace runs at_start origin).pendingSlot
  fields := inv.fields.advance inv.records

lemma Inv.launch (idle : l.doing l.current = none) {entry : BitVec 64} (entry_ne : entry ≠ 0)
    (pml4 : Nat) : Inv (l.goTo (some (.scanning ⟨kind, entry, pml4, 0⟩))) := by
  refine ⟨inv.stack,
    inv.records.move rfl rfl rfl rfl ⟨entry_ne, Nat.zero_lt_succ 63⟩ (.inl rfl),
    inv.fields.move rfl rfl rfl ?_ ⟨rfl, nofun⟩ nofun⟩
  rw [idle]
  rfl

lemma Inv.leave (creates : l.MayCreate) : Inv (l.goTo none) := by
  refine ⟨inv.stack, inv.records.move rfl rfl rfl rfl trivial (.inl rfl),
    inv.fields.move rfl rfl rfl ?_ trivial trivial⟩
  rcases creates with plain | ⟨launch, at_recorded⟩
  · rw [plain]
    rfl
  · rw [at_recorded]
    rfl

lemma Inv.quiet (runs : l.kernel.Runs) (step : Quiet l.kernel e k) (allows : l.Allows e)
    (notCommit : e ≠ .createCommit) : Inv { l with kernel := k } where
  stack := inv.stack.quiet runs step
  records := inv.records.withKernel (.inl step.currentTask)
  fields := inv.fields.quiet inv.stack step allows notCommit

lemma Inv.commit (runs : l.kernel.Runs) (activity : l.kernel.activity = some (.stacked slot args))
    (step : Quiet l.kernel .createCommit k)
    (sched : k.sched = createCommit l.kernel.sched slot args)
    (returned : k.activity = some (.returned slot)) (creates : l.MayCreate) :
    Inv { l.commit slot with kernel := k } := by
  have other : slot ≠ l.current := (inv.stack.calls.stacked slot args activity).1
  have same : k.sched.currentTask = (l.commit slot).current := by
    rw [commit_current]
    exact step.currentTask
  exact ⟨inv.stack.quiet runs step, (inv.records.commit other creates).withKernel (.inl same),
    inv.fields.commit sched returned (inv.stack.ok.activity activity).1 other creates⟩

lemma Inv.pass (enabled : l.kernel.Enabled e) (allows : l.Allows e)
    (entry : l.kernel.passEntry e = some (entered, how)) (undisturbed : l.Undisturbed (.kernel e)) :
    Inv { l with kernel := entered.pass how } := by
  have ⟨between, notCritical⟩ := undisturbed (by rw [entry]; rfl)
  have enters := entry_of_passEntry entry
  have calm (d : Doing) (at_d : l.doing l.current = some d) : d.critical = false := by
    rw [at_d] at notCritical
    simpa using notCritical
  exact ⟨inv.stack.pass enabled enters (inv.stack.not_inProgress between),
    inv.records.withKernel (.inr calm),
    inv.fields.pass inv.records (inv.stack.ok.array.entry enabled enters) enters allows calm⟩

end

def createFails (l : Launcher) : KernelEvent → Bool
  | .createFind _ => (findSlot l.kernel.sched).isNone
  | .createStack stack => stack = 0
  | _ => false

lemma kernelNext_cases (l : Launcher) (ok : ArrayOk l.kernel.sched)
    (enabled : l.kernel.Enabled e) :
    (∃ entered how, l.kernel.passEntry e = some (entered, how) ∧
      l.kernelNext e = { l with kernel := entered.pass how }) ∨
    ∃ k, Quiet l.kernel e k ∧
      (e ≠ .createCommit ∧
        (l.kernelNext e = { l with kernel := k } ∨
          creating e = true ∧ l.createFails e = true ∧
            l.kernelNext e = ({ l with kernel := k } : Launcher).goTo none) ∨
      e = .createCommit ∧ ∃ slot args, l.kernel.activity = some (.stacked slot args) ∧
        k.sched = createCommit l.kernel.sched slot args ∧ k.activity = some (.returned slot) ∧
        l.kernelNext e = ({ l with kernel := k } : Launcher).commit slot) := by
  cases entry : l.kernel.passEntry e with
  | some pair =>
    obtain ⟨entered, how⟩ := pair
    refine .inl ⟨entered, how, rfl, ?_⟩
    have next : l.kernel.next e = entered.pass how := by simp only [Kernel.next, entry]
    cases e with
    | createFind _ | createStack _ | createCommit => cases entry
    | _ => simp only [kernelNext, next]
  | none =>
    have next : l.kernel.next e = l.kernel.quiet e := by simp only [Kernel.next, entry]
    have quiet := ok.quiet enabled entry
    refine .inr ⟨_, quiet, ?_⟩
    generalize l.kernel.quiet e = k at quiet next
    cases quiet with
    | noSlot _ | find _ _ | stack _ _ _ =>
      refine .inl ⟨nofun, ?_⟩
      simp only [kernelNext, next]
      split
      · rename_i fails
        exact .inr ⟨rfl, by simp [createFails, fails], rfl⟩
      · exact .inl rfl
    | commit slot args activity =>
      refine .inr ⟨rfl, slot, args, activity, rfl, activity_of_set rfl rfl, ?_⟩
      simp only [kernelNext, next, activity]
    | _ => exact .inl ⟨nofun, .inl (by simp only [kernelNext, next])⟩

lemma Inv.step {e : LaunchEvent} (inv : Inv l) (step : LaunchStep l e m)
    (undisturbed : l.Undisturbed e) : Inv m := by
  have runs := step.runs
  have canHappen := step.enabled
  rw [step.result]
  cases e with
  | launch kind entry pml4 => exact inv.launch canHappen.1 undisturbed pml4
  | advance => exact inv.advance runs
  | kernel e =>
    have enabled := canHappen.1
    have allows : l.Allows e := canHappen.2
    show Inv (l.kernelNext e)
    rcases l.kernelNext_cases inv.stack.ok.array enabled with ⟨entered, how, entry, next⟩ |
      ⟨k, step, ⟨notCommit, next⟩ | ⟨rfl, slot, args, activity, sched, returned, next⟩⟩
    · rw [next]
      exact inv.pass enabled allows entry undisturbed
    · have quiet := inv.quiet runs step allows notCommit
      rcases next with next | ⟨creates, -, next⟩
      · rw [next]
        exact quiet
      · rw [next]
        refine quiet.leave ?_
        rw [MayCreate,
          show ({ l with kernel := k } : Launcher).current = l.current from step.currentTask]
        exact allows.creates creates
    · rw [next, commit_withKernel step.currentTask]
      exact inv.commit runs activity step sched returned (allows.creates rfl)

def At (l : Launcher) (d : Doing) : Prop := l.doing l.current = some d

lemma at_goTo (l : Launcher) (d : Doing) : (l.goTo (some d)).At d := goTo_doing l (some d)

section Trampoline

variable {kind : LaunchKind} {slot : Nat} {entry userRsp : BitVec 64}

lemma At.start {launch : Launch} (h : l.At (.start launch.kind))
    (recorded : launch.Recorded l.records) (inPlace : launch.InPlace l.kernel.sched.current) :
    l.advance.At (.checked launch.kind launch.record) ∧ l.advance.records = l.records := by
  have next : l.advance = l.goTo (some (.checked launch.kind launch.record)) := by
    rw [At] at h
    simp only [Launcher.advance, h, inPlace.pendingSlot, if_pos recorded.found]
    rw [Int.toNat_natCast]
  rw [next]
  exact ⟨at_goTo l _, rfl⟩

lemma At.checked (h : l.At (.checked kind slot)) :
    l.advance.At (.readEntry kind slot (l.records kind slot).entry) ∧
      l.advance.records = l.records := by
  rw [At] at h
  simp only [Launcher.advance, h]
  exact ⟨at_goTo l _, rfl⟩

lemma At.readEntry (h : l.At (.readEntry kind slot entry)) :
    l.advance.At (.readRsp kind slot entry (l.records kind slot).userRsp) := by
  rw [At] at h
  simp only [Launcher.advance, h]
  exact at_goTo l _

lemma At.readRsp (h : l.At (.readRsp kind slot entry userRsp)) :
    l.advance.At (.clearedEntry kind slot entry userRsp) := by
  rw [At] at h
  simp only [Launcher.advance, h]
  exact at_goTo _ _

lemma At.clearedEntry (h : l.At (.clearedEntry kind slot entry userRsp)) :
    l.advance.At (.clearedRsp entry userRsp) := by
  rw [At] at h
  simp only [Launcher.advance, h]
  exact at_goTo _ _

lemma At.clearedRsp (h : l.At (.clearedRsp entry userRsp)) :
    l.advance.At (.loaded entry userRsp) := by
  rw [At] at h
  simp only [Launcher.advance, h]
  exact at_goTo _ _

lemma At.loaded (h : l.At (.loaded entry userRsp)) (entry_ne : entry ≠ 0) :
    l.advance.At (.inUser entry userRsp) := by
  rw [At] at h
  simp only [Launcher.advance, h, if_neg entry_ne]
  exact at_goTo _ _

lemma start_reaches_user {launch : Launch} (h : l.At (.start launch.kind))
    (recorded : launch.Recorded l.records) (inPlace : launch.InPlace l.kernel.sched.current) :
    (l.after (List.replicate 7 .advance)).At (.inUser launch.entry userStackBase) := by
  obtain ⟨checked, records⟩ := h.start recorded inPlace
  obtain ⟨readEntry, records'⟩ := checked.checked
  have readRsp := readEntry.readEntry
  rw [records', records, recorded.info] at readRsp
  exact (readRsp.readRsp.clearedEntry.clearedRsp).loaded recorded.entry_ne

end Trampoline

/-- The current task starts as its creation has set it up, when it is a task of the two
functions. -/
structure StartsRight (l : Launcher) : Prop where
  /-- Its trampoline finds everything in place, and takes it to user mode. -/
  start : ∀ kind, l.At (.start kind) → ∃ launch, l.origin l.current = some launch ∧
    launch.kind = kind ∧ launch.InPlace l.kernel.sched.current ∧
    l.records kind launch.record = launch.info ∧
    (l.after (List.replicate 7 .advance)).At (.inUser launch.entry userStackBase)
  /-- The trampoline never reports that there is no pending entry. -/
  loaded : ∀ entry userRsp, l.At (.loaded entry userRsp) → entry ≠ 0
  /-- It runs in user mode from its own entry point and on its own stack. -/
  inUser : ∀ entry userRsp, l.At (.inUser entry userRsp) →
    ∃ launch, l.origin l.current = some launch ∧ entry = launch.entry ∧ userRsp = userStackBase

lemma Inv.startsRight (inv : Inv l) (runs : l.kernel.Runs) : StartsRight l where
  start kind at_start := by
    obtain ⟨launch, origin, rfl, recorded⟩ := inv.records.right _ _ at_start
    have inPlace := inv.inPlace runs at_start origin
    exact ⟨launch, origin, rfl, inPlace, recorded.info,
      start_reaches_user at_start recorded inPlace⟩
  loaded entry userRsp at_loaded := by
    obtain ⟨launch, origin, entry_ne, rfl, -⟩ := inv.records.right _ _ at_loaded
    exact entry_ne
  inUser entry userRsp at_inUser := by
    obtain ⟨launch, origin, -, got, stack⟩ := inv.records.right _ _ at_inUser
    exact ⟨launch, origin, got, stack⟩

end Launcher

open Launcher

/-- In every run of undisturbed steps, every task that the two functions create starts as its
creation has set it up. -/
theorem user_tasks_start_right {boot l : Launcher} {trace : List (StepOf Launcher LaunchEvent)}
    (booted : LaunchBooted boot) (run : Run LaunchStep boot trace l)
    (undisturbed : ∀ st ∈ trace, st.pre.Undisturbed st.event) :
    (∀ st ∈ trace, StartsRight st.pre) ∧ (l.kernel.Runs → StartsRight l) := by
  obtain ⟨ticks, cr3, rsp0, rfl⟩ := booted
  have step (a : Launcher) (e : LaunchEvent) (b : Launcher) (inv : Inv a)
      (step : LaunchStep a e b) (cond : a.Undisturbed e) : Inv b := inv.step step cond
  constructor
  · intro st member
    have inv := run.invariant_of_pre (Inv.boot ticks cr3 rsp0) step undisturbed st member
    exact inv.startsRight (run.step_of_mem st member).runs
  · intro runs
    exact (run.invariant_of (Inv.boot ticks cr3 rsp0) step undisturbed).startsRight runs

/-- The shell is running, and creates the user task of its `user` command up to the return of
`task_create` (`main.c:1107`). -/
def shellCreatesUserDemo : List LaunchEvent :=
  Kernel.startShell.map .kernel ++
    [.launch .user 0x200000#64 0x5000, .advance, .advance, .advance,
      .kernel (.createFind ⟨"user_demo", 0x3000, priorityNormal⟩),
      .kernel (.createStack 0x20000), .kernel .createCommit]

def userDemoStarts : List LaunchEvent :=
  shellCreatesUserDemo ++ [.advance, .advance, .advance, .kernel .yield]

theorem user_tasks_start_right_user_demo :
    StartsRight ((Launcher.boot 0 0 0).after userDemoStarts) ∧
      ((Launcher.boot 0 0 0).after userDemoStarts).At (.start .user) := by
  have executes : Executes Can next (Launcher.boot 0 0 0) userDemoStarts := by decide +kernel
  have undisturbed : ∀ st ∈ stepsFrom next (Launcher.boot 0 0 0) userDemoStarts,
      st.pre.Undisturbed st.event := by decide +kernel
  have runs : ((Launcher.boot 0 0 0).after userDemoStarts).kernel.Runs := by decide +kernel
  refine ⟨?_, by unfold At; decide +kernel⟩
  exact (user_tasks_start_right ⟨0, 0, 0, rfl⟩ (executes.run fun _ _ can => can.step)
    undisturbed).2 runs

/-- A timer interrupt comes right after `task_create` has returned. -/
def userDemoInterrupted : List LaunchEvent :=
  shellCreatesUserDemo ++ [.kernel .timer, .advance]

/-- The scheduler prefers the new task to the running shell, and its trampoline finds no pending
entry. -/
theorem interrupted_creation_has_no_pending_entry :
    ∃ trace l, Run LaunchStep (Launcher.boot 0 0 0) trace l ∧ l.origin l.current ≠ none ∧
      l.At (.loaded 0 0) ∧ ¬ StartsRight l := by
  have executes : Executes Can next (Launcher.boot 0 0 0) userDemoInterrupted := by
    decide +kernel
  have origin : ((Launcher.boot 0 0 0).after userDemoInterrupted).origin
      ((Launcher.boot 0 0 0).after userDemoInterrupted).current ≠ none := by decide +kernel
  have noEntry : ((Launcher.boot 0 0 0).after userDemoInterrupted).At (.loaded 0 0) := by
    unfold At
    decide +kernel
  exact ⟨_, _, executes.run fun _ _ can => can.step, origin, noEntry,
    fun right => right.loaded 0 0 noEntry rfl⟩

end MicroOs.User
