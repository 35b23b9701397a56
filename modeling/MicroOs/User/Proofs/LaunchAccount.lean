import MicroOs.User.Proofs.LaunchStart

/-!
# The account of the records

A record is released by the trampoline of its task and by nothing else. When creations are not
interrupted and do not fail once they have a record, and no task dies before it has started, every
record in use belongs to a task that is still to start.
-/

namespace MicroOs.Sched

variable {k k' : Kernel} {e : KernelEvent} {j : Nat}

lemma StackInv.isTask_quiet (inv : StackInv k) (step : Quiet k e k')
    (notExit : ∀ code, e = .exit code → j ≠ k.sched.currentTask)
    (notKilled : ∀ sig, e = .signalDeliver → k.activity = some (.signalling j sig) →
      sig = 17 ∨ sig = 19)
    (isTask : IsTask k.sched j) : IsTask k'.sched j := by
  have other {slot : Nat} {f : Task → Task} (h : j ≠ slot) : IsTask (k.sched.modify slot f) j := by
    rw [IsTask, modify_tasks_of_ne f h]
    exact isTask
  have notSlot {slot : Nat} (free : slot < k.sched.taskCount → (k.sched.tasks slot).state = .dead) :
      j ≠ slot := by
    rintro rfl
    exact inv.not_isTask free isTask
  cases step with
  | timer | setInterrupts _ | enablePreemption | answered _ | noTarget _ _ | noSlot _ | signal _ _ _
  | ignore _ | find _ _ | done _ => exact isTask
  | exit code =>
    simp only [exitCurrent]
    exact other (notExit code rfl)
  | stop slot =>
    simp only [Scheduler.setState]
    by_cases isSlot : j = slot
    · subst isSlot
      rw [IsTask, modify_tasks_self]
      exact ⟨by simp, isTask.2⟩
    · exact other isSlot
  | kill slot sig activity notIgnored notStop =>
    simp only [terminate]
    refine other ?_
    rintro rfl
    exact (notKilled sig rfl activity).elim notIgnored notStop
  | stack slot args stack activity =>
    rw [IsTask, createStack_tasks,
      modify_tasks_of_ne _ (notSlot (inv.calls.found slot args activity).2.1)]
    exact isTask
  | commit slot args activity => exact other (notSlot (inv.calls.stacked slot args activity).2.1)
  | user slot =>
    dsimp only
    by_cases isSlot : j = slot
    · rw [IsTask, isSlot, modify_tasks_self]
      exact isSlot ▸ isTask
    · exact other isSlot

end MicroOs.Sched

namespace MicroOs.User
open Lib Sched
open Function (update update_of_ne update_self)

variable {d : Doing} {i j slot : Nat} {key : LaunchKind × Nat} {kind : LaunchKind}

def Doing.creates : Doing → Bool
  | .scanning _ | .claimed _ | .entered _ | .recorded _ | .created _ _ | .markedUser _ _
  | .gotPml4 _ _ => true
  | _ => false

/-- The task has not started: its trampoline has not cleared its record. -/
def Doing.unstarted : Doing → Option LaunchKind
  | .start kind => some kind
  | .checked kind _ => some kind
  | .readEntry kind _ _ => some kind
  | .readRsp kind _ _ _ => some kind
  | _ => none

def Doing.reads : Doing → Option (LaunchKind × Nat)
  | .checked kind slot => some (kind, slot)
  | .readEntry kind slot _ => some (kind, slot)
  | .readRsp kind slot _ _ => some (kind, slot)
  | _ => none

lemma Doing.unstarted_of_holds {origin : Option Launch} (holds : d.holds origin = some key)
    (notCreating : d.creates = false) :
    d.inTrampoline = true ∧
      ((∃ kind, d = .start kind) ∨ d.unstarted = some key.1 ∧ d.reads = some key) := by
  cases d with
  | entered _ | recorded _ => cases notCreating
  | start kind => exact ⟨rfl, .inl ⟨kind, rfl⟩⟩
  | checked _ _ | readEntry _ _ _ | readRsp _ _ _ _ =>
    cases holds
    exact ⟨rfl, .inr ⟨rfl, rfl⟩⟩
  | _ => cases holds

namespace Launcher

variable {l m : Launcher} {point : Option Doing}

/-- What holds of the records in use, besides the invariant of undisturbed launches. -/
structure Account (l : Launcher) : Prop where
  alone : ∀ j d, l.doing j = some d → d.creates = true → j = l.current
  held : ∀ key, l.Used key → ∃ j, l.heldBy j = some key ∧
    (IsTask l.kernel.sched j ∨ j = l.current)
  zero : ∀ kind i, (l.records kind i).entry = 0 → (l.records kind i).userRsp = 0 ∨
    ∃ entry userRsp, l.At (.clearedEntry kind i entry userRsp)
  pending : ∀ j d key, l.doing j = some d → d.reads = some key → IsTask l.kernel.sched j →
    (l.kernel.sched.tasks j).pendingSlot = key.2

lemma Account.boot (ticks cr3 rsp0 : Nat) : Account (boot ticks cr3 rsp0) where
  alone := nofun
  held _ used := absurd rfl used
  zero _ _ _ := .inl rfl
  pending := nofun

lemma Account.goTo (acc : Account l) (doing : m.doing = l.doing) (origin : m.origin = l.origin)
    (current : m.current = l.current)
    (tasks : ∀ j, j ≠ l.current → IsTask l.kernel.sched j → IsTask m.kernel.sched j)
    (held : ∀ key, m.Used key → point.bind (·.holds (l.origin l.current)) = some key ∨
      l.Used key ∧ l.heldBy l.current ≠ some key)
    (zero : ∀ kind i, (m.records kind i).entry = 0 → (m.records kind i).userRsp = 0 ∨
      ∃ entry userRsp, point = some (.clearedEntry kind i entry userRsp))
    (reading : ∀ j d key, j ≠ l.current → l.doing j = some d → d.reads = some key →
      IsTask m.kernel.sched j →
      IsTask l.kernel.sched j ∧ (m.kernel.sched.tasks j).pendingSlot =
        (l.kernel.sched.tasks j).pendingSlot)
    (pending : ∀ key, point.bind Doing.reads = some key →
      (m.kernel.sched.tasks l.current).pendingSlot = key.2) : Account (m.goTo point) := by
  have others {j : Nat} (other : j ≠ l.current) : (m.goTo point).doing j = l.doing j := by
    rw [goTo_doing_of_ne (current ▸ other), doing]
  have heldBy : (m.goTo point).heldBy =
      update l.heldBy l.current (point.bind (·.holds (l.origin l.current))) := by
    have same : m.heldBy = l.heldBy := by
      funext j
      rw [Launcher.heldBy, doing, origin, Launcher.heldBy]
    rw [heldBy_goTo, same, origin, current]
  refine ⟨fun j d at_d creates => ?_, fun key used => ?_, fun kind i cleared => ?_,
    fun j d key at_d reads isTask => ?_⟩
  · rw [goTo_current, current]
    by_contra other
    exact other (acc.alone j d (others other ▸ at_d) creates)
  · rw [heldBy, goTo_current, current]
    rcases held key used with own | ⟨before, notOwn⟩
    · exact ⟨l.current, by rw [update_self, own], .inr rfl⟩
    · obtain ⟨j, holds, isTask⟩ := acc.held key before
      have other : j ≠ l.current := by
        rintro rfl
        exact notOwn holds
      refine ⟨j, by rw [update_of_ne other, holds], .inl ?_⟩
      exact tasks j other (isTask.resolve_right other)
  · rcases zero kind i cleared with rsp | ⟨entry, userRsp, rfl⟩
    · exact .inl rsp
    · exact .inr ⟨entry, userRsp, at_goTo m _⟩
  · by_cases isCurrent : j = l.current
    · rw [isCurrent, ← current, goTo_doing] at at_d
      rw [isCurrent]
      subst at_d
      exact pending key reads
    · have before : l.doing j = some d := others isCurrent ▸ at_d
      obtain ⟨wasTask, same⟩ := reading j d key isCurrent before reads isTask
      exact same.trans (acc.pending j d key before reads wasTask)

lemma Account.move (acc : Account l) (kernel : m.kernel = l.kernel) (doing : m.doing = l.doing)
    (origin : m.origin = l.origin) (records : m.records = l.records)
    (held : point.bind (·.holds (l.origin l.current)) = l.heldBy l.current)
    (notClearing : ∀ kind i entry userRsp, ¬ l.At (.clearedEntry kind i entry userRsp))
    (pending : ∀ key, point.bind Doing.reads = some key →
      (l.kernel.sched.tasks l.current).pendingSlot = key.2) : Account (m.goTo point) := by
  have current : m.current = l.current := by rw [Launcher.current, kernel, Launcher.current]
  refine acc.goTo doing origin current (fun j _ isTask => ?_) (fun key used => ?_)
    (fun kind i cleared => ?_) (fun j d key _ _ _ isTask => ?_) ?_
  · rw [kernel]
    exact isTask
  · rw [held]
    rw [Used, records] at used
    by_cases own : l.heldBy l.current = some key
    · exact .inl own
    · exact .inr ⟨used, own⟩
  · rw [records] at cleared ⊢
    rcases acc.zero kind i cleared with rsp | ⟨entry, userRsp, clearing⟩
    · exact .inl rsp
    · exact absurd clearing (notClearing kind i entry userRsp)
  · rw [kernel] at isTask ⊢
    exact ⟨isTask, rfl⟩
  · rw [kernel]
    exact pending

lemma Account.write (acc : Account l) {info : LaunchInfo}
    (own : l.heldBy l.current = none ∨ l.heldBy l.current = some (kind, i))
    (holds : info.entry ≠ 0 → point.bind (·.holds (l.origin l.current)) = some (kind, i))
    (cleared : info.entry = 0 → info.userRsp = 0 ∨
      ∃ entry userRsp, point = some (.clearedEntry kind i entry userRsp))
    (clearing : ∀ kind' i' entry userRsp, l.At (.clearedEntry kind' i' entry userRsp) →
      (kind', i') = (kind, i))
    (noReads : point.bind Doing.reads = none) :
    Account ((l.setRecord kind i info).goTo point) := by
  refine acc.goTo rfl rfl rfl (fun _ _ isTask => isTask) (fun key used => ?_)
    (fun kind' i' empty => ?_) (fun _ _ _ _ _ _ isTask => ⟨isTask, rfl⟩) (by simp [noReads])
  · by_cases isKey : key = (kind, i)
    · subst isKey
      rw [Used, setRecord_self] at used
      exact .inl (holds used)
    · rw [Used, setRecord_of_ne isKey] at used
      refine .inr ⟨used, ?_⟩
      rcases own with own | own <;> simp [own, Ne.symm isKey]
  · by_cases isKey : (kind', i') = (kind, i)
    · cases isKey
      rw [setRecord_self] at empty ⊢
      exact cleared empty
    · have same : (l.setRecord kind i info).records kind' i' = l.records kind' i' :=
        setRecord_of_ne isKey
      rw [same] at empty ⊢
      rcases acc.zero kind' i' empty with rsp | ⟨entry, userRsp, at_cleared⟩
      · exact .inl rsp
      · exact absurd (clearing kind' i' entry userRsp at_cleared) isKey

lemma Account.store (acc : Account l) {f : Task → Task} (at_d : l.At d)
    (nothing : d.holds (l.origin l.current) = none)
    (notClearing : ∀ kind i entry userRsp, d ≠ .clearedEntry kind i entry userRsp)
    (doing : m.doing = l.doing) (origin : m.origin = l.origin) (records : m.records = l.records)
    (sched : m.kernel.sched = l.kernel.sched.modify slot f)
    (sameState : (f (l.kernel.sched.tasks slot)).state = (l.kernel.sched.tasks slot).state)
    (sameId : (f (l.kernel.sched.tasks slot)).id = (l.kernel.sched.tasks slot).id)
    (notReading : slot = l.current ∨ ∃ kind, l.doing slot = some (.start kind))
    (noReads : point.bind Doing.reads = none) :
    Account (m.goTo point) := by
  have current : m.current = l.current := by
    rw [Launcher.current, sched]
    rfl
  have tasks (j : Nat) : IsTask m.kernel.sched j ↔ IsTask l.kernel.sched j := by
    rw [IsTask, IsTask, sched]
    by_cases isSlot : j = slot
    · rw [isSlot, modify_tasks_self, sameState, sameId]
    · rw [modify_tasks_of_ne f isSlot]
  have mine : l.heldBy l.current = none := by
    rw [heldBy_current at_d]
    exact nothing
  refine acc.goTo doing origin current (fun j _ isTask => (tasks j).mpr isTask) (fun key used => ?_)
    (fun kind i empty => ?_) (fun j d' key other at_d' reads isTask => ?_) (by simp [noReads])
  · rw [Used, records] at used
    refine .inr ⟨used, ?_⟩
    simp [mine]
  · rw [records] at empty ⊢
    rcases acc.zero kind i empty with rsp | ⟨entry, userRsp, clearing⟩
    · exact .inl rsp
    · have same := clearing.symm.trans at_d
      exact absurd (Option.some.inj same).symm (notClearing kind i entry userRsp)
  · have notSlot : j ≠ slot := by
      rintro rfl
      rcases notReading with isCurrent | ⟨kind, at_start⟩
      · exact other isCurrent
      · rw [at_start] at at_d'
        cases at_d'
        cases reads
    refine ⟨(tasks j).mp isTask, ?_⟩
    rw [sched, modify_tasks_of_ne f notSlot]

lemma Inv.isTask_current (inv : Inv l) (runs : l.kernel.Runs) (at_d : l.At d)
    (inside : d.inTrampoline = true) : IsTask l.kernel.sched l.current := by
  have alive := inv.fields.alive d at_d inside
  have pos := (inv.fields.slots _ d at_d inside).1
  exact ⟨alive, runs.resolve_left (Nat.ne_of_gt pos)⟩

lemma Account.advance (acc : Account l) (inv : Inv l) (runs : l.kernel.Runs) :
    Account l.advance := by
  unfold Launcher.advance
  cases at_d : l.doing l.current with
  | none => exact acc
  | some d =>
    have mine : l.heldBy l.current = d.holds (l.origin l.current) := heldBy_current at_d
    have isRight := inv.records.right _ d at_d
    have filled := inv.fields.filled d at_d
    have notClearing (h : ∀ kind i entry userRsp, d ≠ .clearedEntry kind i entry userRsp)
        (kind : LaunchKind) (i : Nat) (entry userRsp : BitVec 64) :
        ¬ l.At (.clearedEntry kind i entry userRsp) := by
      intro clearing
      rw [At, at_d] at clearing
      exact h kind i entry userRsp (Option.some.inj clearing)
    cases d with
    | scanning launch =>
      simp only
      split
      · exact acc.move rfl rfl rfl rfl mine.symm (notClearing (by simp)) (by rintro _ ⟨⟩)
      · split
        · exact acc.move rfl rfl rfl rfl mine.symm (notClearing (by simp)) (by rintro _ ⟨⟩)
        · exact acc.move rfl rfl rfl rfl mine.symm (notClearing (by simp)) (by rintro _ ⟨⟩)
    | claimed launch =>
      exact acc.write (.inl mine) (fun _ => rfl) (fun empty => absurd empty isRight.1)
        (fun _ _ _ _ at_cleared => absurd at_cleared (notClearing (by simp) _ _ _ _)) rfl
    | entered launch =>
      obtain ⟨entry_ne, _, sameEntry⟩ := isRight
      exact acc.write (.inr mine) (fun _ => rfl)
        (fun empty => absurd (sameEntry.symm.trans empty) entry_ne)
        (fun _ _ _ _ at_cleared => absurd at_cleared (notClearing (by simp) _ _ _ _)) rfl
    | recorded launch => exact acc
    | created launch slot =>
      have given : Given l launch slot := filled
      exact acc.store at_d rfl (by simp) rfl rfl rfl (setTask_sched ..) rfl rfl
        (.inr ⟨_, given.start⟩) rfl
    | markedUser launch slot =>
      have given : Given l launch slot := filled.1
      exact acc.store at_d rfl (by simp) rfl rfl rfl (setTask_sched ..) rfl rfl
        (.inr ⟨_, given.start⟩) rfl
    | gotPml4 launch slot =>
      have given : Given l launch slot := filled.1
      exact acc.store (f := fun t => { t with pendingSlot := launch.record }) at_d rfl (by simp)
        rfl rfl rfl rfl rfl rfl (.inr ⟨_, given.start⟩) rfl
    | start kind =>
      obtain ⟨launch, origin, rfl, recorded⟩ := isRight
      have inPlace := inv.inPlace runs at_d origin
      simp only [inPlace.pendingSlot, if_pos recorded.found]
      rw [Int.toNat_natCast]
      refine acc.move rfl rfl rfl rfl ?_ (notClearing (by simp)) ?_
      · rw [mine, origin]
        rfl
      · rintro _ ⟨⟩
        exact inPlace.pendingSlot
    | checked _ _ | readEntry _ _ _ =>
      refine acc.move rfl rfl rfl rfl mine.symm (notClearing (by simp)) ?_
      rintro _ ⟨⟩
      exact acc.pending _ _ _ at_d rfl (inv.isTask_current runs at_d rfl)
    | readRsp kind slot entry userRsp =>
      exact acc.write (.inr mine) (fun used => absurd rfl used)
        (fun _ => .inr ⟨entry, userRsp, rfl⟩)
        (fun _ _ _ _ at_cleared => absurd at_cleared (notClearing (by simp) _ _ _ _)) rfl
    | clearedEntry kind slot entry userRsp =>
      refine acc.write (.inl mine) (fun used => absurd isRight.2 used) (fun _ => .inl rfl)
        (fun kind' i' entry' userRsp' at_cleared => ?_) rfl
      rw [At, at_d] at at_cleared
      cases at_cleared
      rfl
    | clearedRsp entry userRsp =>
      exact acc.store at_d rfl (by simp) rfl rfl rfl (setTask_sched ..) rfl rfl (.inl rfl) rfl
    | loaded entry userRsp =>
      obtain ⟨launch, origin, entry_ne, got, _⟩ := isRight
      simp only [if_neg (got ▸ entry_ne)]
      refine acc.goTo rfl rfl rfl (fun _ _ isTask => isTask) (fun key used => .inr ⟨used, ?_⟩)
        (fun kind i empty => .inl ?_) (fun _ _ _ _ _ _ isTask => ⟨isTask, rfl⟩) ?_
      · simp [mine, Doing.holds]
      · refine (acc.zero kind i empty).resolve_right ?_
        rintro ⟨_, _, clearing⟩
        exact notClearing (by simp) _ _ _ _ clearing
      · rintro _ ⟨⟩
    | inUser entry userRsp => exact acc

/-- The slot whose task the signal kills. -/
def killed (l : Launcher) : KernelEvent → Option Nat
  | .signalDeliver =>
      match l.kernel.activity with
      | some (.signalling slot sig) => if sig = 17 ∨ sig = 19 then none else some slot
      | _ => none
  | _ => none

/-- The condition on a step: as undisturbed launches need it, and creations are not interrupted,
none fails once it has its record, and no signal kills a task before it has started. -/
def Careful (l : Launcher) (e : LaunchEvent) : Prop :=
  l.Undisturbed e ∧
    match e with
    | .kernel e =>
        ((l.kernel.passEntry e).isSome = true → (l.doing l.current).all (!·.creates) = true) ∧
        (l.createFails e = true → l.doing l.current = none) ∧
        (l.killed e).all (fun slot => (l.doing slot).all (·.unstarted.isNone)) = true
    | _ => True

instance (l : Launcher) (e : LaunchEvent) : Decidable (l.Careful e) :=
  match e with
  | .kernel _ => inferInstanceAs (Decidable (_ ∧ _ ∧ _ ∧ _))
  | .launch _ _ _ | .advance => inferInstanceAs (Decidable (_ ∧ True))

section KernelEvents

variable {e : KernelEvent} {entered : Kernel} {how : Resume}

lemma Account.trampoline_of_holds (acc : Account l) (holds : l.heldBy j = some key)
    (calm : j = l.current → ∀ d, l.doing j = some d → d.creates = false) :
    ∃ d, l.doing j = some d ∧ d.inTrampoline = true ∧ d.unstarted ≠ none := by
  rw [heldBy] at holds
  cases at_d : l.doing j with
  | none =>
    rw [at_d] at holds
    cases holds
  | some d =>
    rw [at_d] at holds
    have notCreating : d.creates = false := by
      cases creates : d.creates with
      | false => rfl
      | true => rw [← calm (acc.alone j d at_d creates) d at_d, creates]
    obtain ⟨inside, points⟩ := d.unstarted_of_holds holds notCreating
    refine ⟨d, rfl, inside, ?_⟩
    rcases points with ⟨kind, rfl⟩ | ⟨unstarted, -⟩
    · exact Option.some_ne_none kind
    · simp [unstarted]

lemma Account.pass (acc : Account l) (inv : Inv l) (runs : l.kernel.Runs)
    (enabled : l.kernel.Enabled e) (allows : l.Allows e) (entry : Entry l.kernel e entered how)
    (calm : ∀ d, l.doing l.current = some d → d.critical = false ∧ d.creates = false) :
    Account { l with kernel := entered.pass how } := by
  have array := inv.stack.ok.array.entry enabled entry
  have still {j : Nat} {d : Doing} (at_d : l.doing j = some d) (inside : d.inTrampoline = true) :
      j ≠ l.kernel.sched.currentTask ∨ e = .timer := by
    by_cases isCurrent : j = l.current
    · exact .inr (Doing.timer_of_allows (allows.at (isCurrent ▸ at_d)) (.inl inside))
    · exact .inl isCurrent
  refine ⟨fun j d at_d creates => ?_, fun key used => ?_, fun kind i empty => ?_,
    fun j d key at_d reads isTask => ?_⟩
  · have isCurrent := acc.alone j d at_d creates
    rw [(calm d (isCurrent ▸ at_d)).2] at creates
    cases creates
  · obtain ⟨j, holds, isTask⟩ := acc.held key used
    obtain ⟨d, at_d, inside, -⟩ := acc.trampoline_of_holds holds
      fun isCurrent d at_d => (calm d (isCurrent ▸ at_d)).2
    have wasTask : IsTask l.kernel.sched j := by
      rcases isTask with isTask | rfl
      · exact isTask
      · exact inv.isTask_current runs at_d inside
    exact ⟨j, holds, .inl (isTask_pass array entry (still at_d inside) wasTask)⟩
  · refine .inl ((acc.zero kind i empty).resolve_right ?_)
    rintro ⟨entry', userRsp, clearing⟩
    cases (calm _ clearing).1
  · have inside : d.inTrampoline = true := by
      cases d with
      | checked | readEntry | readRsp => rfl
      | _ => cases reads
    have ⟨before, same⟩ := steady_pass array entry (still at_d inside) isTask
    exact same.pendingSlot.trans (acc.pending j d key at_d reads before)

lemma sig_of_killed {sig : Nat}
    (unharmed : (l.killed .signalDeliver).all (fun slot => (l.doing slot).all (·.unstarted.isNone))
      = true)
    (activity : l.kernel.activity = some (.signalling j sig))
    (at_d : l.doing j = some d) (unstarted : d.unstarted ≠ none) : sig = 17 ∨ sig = 19 := by
  by_contra fatal
  simp only [killed, activity, if_neg fatal, Option.all_some, at_d] at unharmed
  exact unstarted (Option.isNone_iff_eq_none.mp unharmed)

lemma Account.quiet (acc : Account l) (inv : Inv l) (step : Quiet l.kernel e k)
    (allows : l.Allows e) (notCommit : e ≠ .createCommit)
    (unharmed : (l.killed e).all (fun slot => (l.doing slot).all (·.unstarted.isNone)) = true) :
    Account { l with kernel := k } := by
  have current : ({ l with kernel := k } : Launcher).current = l.current := step.currentTask
  refine ⟨fun j d at_d creates => ?_, fun key used => ?_, fun kind i empty => ?_,
    fun j d key at_d reads isTask => ?_⟩
  · rw [current]
    exact acc.alone j d at_d creates
  · rw [current]
    obtain ⟨j, holds, isTask⟩ := acc.held key used
    by_cases isCurrent : j = l.current
    · exact ⟨j, holds, .inr isCurrent⟩
    · obtain ⟨d, at_d, -, unstarted⟩ :=
        acc.trampoline_of_holds holds fun h => absurd h isCurrent
      refine ⟨j, holds, .inl ?_⟩
      refine inv.stack.isTask_quiet step (fun _ _ => isCurrent) (fun sig delivers activity => ?_)
        (isTask.resolve_right isCurrent)
      subst delivers
      exact sig_of_killed unharmed activity at_d unstarted
  · rcases acc.zero kind i empty with rsp | ⟨entry, userRsp, clearing⟩
    · exact .inl rsp
    · refine .inr ⟨entry, userRsp, ?_⟩
      rw [At, current]
      exact clearing
  · obtain ⟨before, same⟩ := inv.stack.steady_quiet step notCommit allows.notUser j isTask
    exact same.pendingSlot.trans (acc.pending j d key at_d reads before)

lemma Account.commit (acc : Account l) (inv : Inv l) {args : CreateArgs}
    (activity : l.kernel.activity = some (.stacked slot args))
    (step : Quiet l.kernel .createCommit k)
    (sched : k.sched = createCommit l.kernel.sched slot args) (creates : l.MayCreate) :
    Account { l.commit slot with kernel := k } := by
  have other : slot ≠ l.current := (inv.stack.calls.stacked slot args activity).1
  have notTask : ¬ IsTask l.kernel.sched slot :=
    inv.stack.not_isTask (inv.stack.calls.stacked slot args activity).2.1
  have newTask : IsTask k.sched slot := by
    rw [sched, IsTask]
    simp only [createCommit, Scheduler.modify, update_self]
    exact ⟨by simp [Sched.newTask],
      Nat.ne_of_gt (Nat.lt_of_le_of_lt (Nat.zero_le _) (inv.stack.ok.array.id_lt 0))⟩
  have sameTask {j : Nat} (notSlot : j ≠ slot) : k.sched.tasks j = l.kernel.sched.tasks j := by
    rw [sched]
    exact modify_tasks_of_ne _ notSlot
  refine ⟨fun j d at_d isCreating => ?_, fun key used => ?_, fun kind i empty => ?_,
    fun j d key at_d reads isTask => ?_⟩
  · show j = k.sched.currentTask
    rw [step.currentTask]
    cases creates.committed at_d with
    | new launch _ => cases isCreating
    | creator launch _ => rfl
    | other _ _ before => exact acc.alone j d before isCreating
  · replace used : (l.records key.1 key.2).entry ≠ 0 := commit_records l slot ▸ used
    obtain ⟨j, holds, isTask⟩ := acc.held key used
    show ∃ j, (l.commit slot).heldBy j = some key ∧ _
    rw [creates.heldBy_commit other]
    by_cases isCurrent : j = l.current
    · refine ⟨slot, ?_, .inl newTask⟩
      rw [update_of_ne other, update_self, ← isCurrent, holds]
    · have wasTask := isTask.resolve_right isCurrent
      have notSlot : j ≠ slot := by
        rintro rfl
        exact notTask wasTask
      refine ⟨j, ?_, .inl (inv.stack.isTask_quiet step (by simp) (by simp) wasTask)⟩
      rw [update_of_ne isCurrent, update_of_ne notSlot, holds]
  · show ((l.commit slot).records kind i).userRsp = 0 ∨ _
    replace empty : ((l.commit slot).records kind i).entry = 0 := empty
    rw [commit_records] at empty ⊢
    refine .inl ((acc.zero kind i empty).resolve_right ?_)
    rintro ⟨_, _, clearing⟩
    rcases creates with plain | ⟨launch, at_recorded⟩
    · cases plain.symm.trans clearing
    · cases at_recorded.symm.trans clearing
  · cases creates.committed at_d with
    | new launch _ | creator launch _ => cases reads
    | other notSlot _ before =>
      dsimp only at isTask ⊢
      rw [IsTask, sameTask notSlot] at isTask
      rw [sameTask notSlot]
      exact acc.pending j d key before reads isTask

end KernelEvents

lemma Account.step {e : LaunchEvent} (acc : Account l) (inv : Inv l) (step : LaunchStep l e m)
    (careful : l.Careful e) : Account m := by
  have runs := step.runs
  have canHappen := step.enabled
  rw [step.result]
  cases e with
  | launch kind entry pml4 =>
    have idle : l.doing l.current = none := canHappen.1
    have mine : l.heldBy l.current = none := by rw [heldBy, idle, Option.bind_none]
    refine acc.move rfl rfl rfl rfl mine.symm (fun _ _ _ _ clearing => ?_) ?_
    · rw [At, idle] at clearing
      cases clearing
    · rintro _ ⟨⟩
  | advance => exact acc.advance inv runs
  | kernel e =>
    have enabled := canHappen.1
    have allows : l.Allows e := canHappen.2
    obtain ⟨undisturbed, notCreating, succeeds, unharmed⟩ := careful
    show Account (l.kernelNext e)
    rcases l.kernelNext_cases inv.stack.ok.array enabled with ⟨entered, how, entry, next⟩ |
      ⟨k, step, ⟨notCommit, next⟩ | ⟨rfl, slot, args, activity, sched, -, next⟩⟩
    · rw [next]
      have isPass : (l.kernel.passEntry e).isSome = true := by rw [entry]; rfl
      refine acc.pass inv runs enabled allows (entry_of_passEntry entry) fun d at_d => ?_
      have notCritical := (undisturbed isPass).2
      have notCreating := notCreating isPass
      rw [at_d] at notCritical notCreating
      exact ⟨by simpa using notCritical, by simpa using notCreating⟩
    · have quiet := acc.quiet inv step allows notCommit unharmed
      rcases next with next | ⟨-, fails, next⟩
      · rw [next]
        exact quiet
      · rw [next]
        have current : ({ l with kernel := k } : Launcher).current = l.current := step.currentTask
        have idle : ({ l with kernel := k } : Launcher).doing l.current = none := succeeds fails
        refine quiet.move rfl rfl rfl rfl ?_ (fun _ _ _ _ clearing => ?_) (by simp)
        · rw [heldBy, current, idle, Option.bind_none]
        · rw [At, current, idle] at clearing
          cases clearing
    · rw [next, commit_withKernel step.currentTask]
      exact acc.commit inv activity step sched (allows.creates rfl)

/-- The current task is neither creating a task nor clearing its record. -/
def Settled (l : Launcher) : Prop :=
  (l.doing l.current).all (fun d => !d.creates && !d.critical) = true

lemma Settled.at (settled : l.Settled) (at_d : l.At d) :
    d.creates = false ∧ d.critical = false := by
  rw [Settled, at_d, Option.all_some] at settled
  simpa using settled

/-- A task that has not started, with the number of its record. -/
structure WaitsFor (l : Launcher) (kind : LaunchKind) (i j : Nat) : Prop where
  isTask : IsTask l.kernel.sched j
  unstarted : (l.doing j).bind Doing.unstarted = some kind
  pendingSlot : (l.kernel.sched.tasks j).pendingSlot = i

lemma Account.pendingSlot_of_holds (acc : Account l) (inv : Inv l) (settled : l.Settled)
    (isTask : IsTask l.kernel.sched j) (at_d : l.doing j = some d)
    (unstarted : d.unstarted = some kind) :
    ∃ i : Nat, (l.kernel.sched.tasks j).pendingSlot = i ∧ l.heldBy j = some (kind, i) := by
  have held : l.heldBy j = d.holds (l.origin j) := by rw [heldBy, at_d, Option.bind_some]
  rw [held]
  cases d with
  | start kind' =>
    cases unstarted
    obtain ⟨launch, origin, rfl, -⟩ := inv.records.right j _ at_d
    have inPlace := inv.fields.inPlace j _ launch at_d origin isTask fun d at_d => by
      simp [Doing.fills_of_not_critical (settled.at at_d).2]
    refine ⟨launch.record, inPlace.pendingSlot, ?_⟩
    rw [origin]
    rfl
  | checked _ _ | readEntry _ _ _ | readRsp _ _ _ _ =>
    cases unstarted
    exact ⟨_, acc.pending j _ _ at_d rfl isTask, rfl⟩
  | _ => cases unstarted

lemma Account.holder (acc : Account l) (inv : Inv l) (runs : l.kernel.Runs) (settled : l.Settled)
    (used : l.Used key) : ∃ j, l.heldBy j = some key ∧ l.WaitsFor key.1 key.2 j := by
  obtain ⟨j, holds, isTask⟩ := acc.held key used
  obtain ⟨d, at_d, inside, unstarted⟩ := acc.trampoline_of_holds holds
    fun isCurrent _ at_d => (settled.at ((congrArg l.doing isCurrent).symm.trans at_d)).1
  replace isTask : IsTask l.kernel.sched j := by
    rcases isTask with isTask | rfl
    · exact isTask
    · exact inv.isTask_current runs at_d inside
  obtain ⟨kind, waits⟩ := Option.ne_none_iff_exists'.mp unstarted
  obtain ⟨i, pendingSlot, sameKey⟩ := acc.pendingSlot_of_holds inv settled isTask at_d waits
  obtain rfl := Option.mem_unique holds sameKey
  exact ⟨j, holds, isTask, by rw [at_d, Option.bind_some, waits], pendingSlot⟩

lemma WaitsFor.slot_mem (h : l.WaitsFor kind i j) (inv : Inv l) : j ∈ Finset.Ico 1 maxTasks := by
  obtain ⟨d, at_d, unstarted⟩ := Option.bind_eq_some_iff.mp h.unstarted
  have inside : d.inTrampoline = true := by
    cases d with
    | start | checked | readEntry | readRsp => rfl
    | _ => cases unstarted
  have ⟨pos, lt⟩ := inv.fields.slots j d at_d inside
  have count_le := inv.stack.ok.array.count_le
  rw [Finset.mem_Ico]
  omega

lemma Account.exists_free (acc : Account l) (inv : Inv l) (runs : l.kernel.Runs)
    (settled : l.Settled) (kind : LaunchKind) :
    ∃ i, i < maxTasks ∧ (l.records kind i).entry = 0 := by
  have fewer : (Finset.Ico 1 maxTasks).card <
      ((Finset.range maxTasks).map ⟨Prod.mk kind, Prod.mk_right_injective kind⟩).card := by
    rw [Finset.card_map, Nat.card_Ico, Finset.card_range]
    decide
  obtain ⟨key, member, free⟩ : ∃ key ∈ (Finset.range maxTasks).map _, ¬ l.Used key :=
    exists_free_key
      (fun key _ used => by
        obtain ⟨j, holds, waits⟩ := acc.holder inv runs settled used
        exact ⟨j, waits.slot_mem inv, holds⟩) fewer
  obtain ⟨i, inRange, rfl⟩ := Finset.mem_map.mp member
  exact ⟨i, Finset.mem_range.mp inRange, not_not.mp free⟩

lemma freeRecord_spec {records : Nat → LaunchInfo} {first : Nat}
    (found : freeRecord records = some first) :
    first < maxTasks ∧ (records first).entry = 0 ∧ ∀ i, i < first → (records i).entry ≠ 0 := by
  obtain ⟨free, member, before⟩ := List.find?_range_eq_some.mp found
  refine ⟨List.mem_range.mp member, of_decide_eq_true free, fun i lt => ?_⟩
  simpa using before i lt

lemma scan_claims {n : Nat} {launch : Launch} (h : l.At (.scanning launch))
    (record_lt : launch.record + n < maxTasks)
    (used : ∀ i, i < n → (l.records launch.kind (launch.record + i)).entry ≠ 0)
    (free : (l.records launch.kind (launch.record + n)).entry = 0) :
    (l.after (List.replicate (n + 1) .advance)).At
      (.claimed { launch with record := launch.record + n }) := by
  induction n generalizing l launch with
  | zero =>
    rw [At] at h
    show l.advance.At _
    simp only [Launcher.advance, h, Nat.add_zero] at free ⊢
    rw [if_pos free]
    exact at_goTo l _
  | succ n ih =>
    have first : (l.records launch.kind launch.record).entry ≠ 0 := used 0 (Nat.succ_pos n)
    have next : l.advance = l.goTo (some (.scanning { launch with record := launch.record + 1 })) := by
      rw [At] at h
      simp only [Launcher.advance, h]
      rw [if_neg first, if_pos (by omega)]
    have shift (i : Nat) : launch.record + 1 + i = launch.record + (i + 1) := by omega
    rw [List.replicate_succ]
    show (l.advance.after (List.replicate (n + 1) .advance)).At _
    rw [next, ← shift n]
    refine ih (at_goTo l _) (by simp only; omega) (fun i lt => ?_) ?_
    · rw [show (l.goTo _).records = l.records from rfl, shift i]
      exact used (i + 1) (by omega)
    · rw [show (l.goTo _).records = l.records from rfl, shift n]
      exact free

/-- Every record in use has its task, and there is always one for another task. -/
structure RecordsAccounted (l : Launcher) : Prop where
  /-- A record that is not zero belongs to one task that has not started. -/
  owner : ∀ kind i, l.records kind i ≠ ⟨0, 0⟩ → ∃! j, l.WaitsFor kind i j
  /-- A creation that begins here finds a free record. -/
  finds : ∀ kind entry pml4, ∃ i, freeRecord (l.records kind) = some i ∧
    (l.after (.launch kind entry pml4 :: List.replicate (i + 1) .advance)).At
      (.claimed ⟨kind, entry, pml4, i⟩)

lemma Account.accounted (acc : Account l) (inv : Inv l) (runs : l.kernel.Runs)
    (settled : l.Settled) : RecordsAccounted l where
  owner kind i nonzero := by
    have used : l.Used (kind, i) := by
      intro empty
      have rsp := (acc.zero kind i empty).resolve_right fun ⟨_, _, clearing⟩ => by
        cases (settled.at clearing).2
      exact nonzero (congrArg₂ LaunchInfo.mk empty rsp)
    obtain ⟨j, holds, waits⟩ := acc.holder inv runs settled used
    refine ⟨j, waits, fun j' waits' => ?_⟩
    obtain ⟨d, at_d, unstarted⟩ := Option.bind_eq_some_iff.mp waits'.unstarted
    obtain ⟨i', pendingSlot, holds'⟩ :=
      acc.pendingSlot_of_holds inv settled waits'.isTask at_d unstarted
    have same : i' = i := Int.ofNat.inj (pendingSlot.symm.trans waits'.pendingSlot)
    exact inv.records.holding.unique (same ▸ holds') holds
  finds kind entry pml4 := by
    obtain ⟨i, i_lt, free⟩ := acc.exists_free inv runs settled kind
    have isSome : (freeRecord (l.records kind)).isSome = true := by
      rw [freeRecord, List.find?_isSome]
      exact ⟨i, List.mem_range.mpr i_lt, decide_eq_true free⟩
    obtain ⟨first, isFirst⟩ := Option.isSome_iff_exists.mp isSome
    refine ⟨first, isFirst, ?_⟩
    have ⟨first_lt, empty, before⟩ := freeRecord_spec isFirst
    have used (i : Nat) (lt : i < first) : (l.records kind (0 + i)).entry ≠ 0 := by
      rw [Nat.zero_add]
      exact before i lt
    rw [← Nat.zero_add first] at first_lt empty
    have scan := scan_claims (at_goTo l (.scanning ⟨kind, entry, pml4, 0⟩)) first_lt used empty
    simp only [Nat.zero_add] at scan
    exact scan

end Launcher

open Launcher

/-- In every run in which creations are not interrupted and do not fail once they have a record, and
no task is killed before it has started, the records are accounted for between creations. -/
theorem records_accounted_of_careful {boot l : Launcher}
    {trace : List (StepOf Launcher LaunchEvent)} (booted : LaunchBooted boot)
    (run : Run LaunchStep boot trace l) (careful : ∀ st ∈ trace, st.pre.Careful st.event) :
    (∀ st ∈ trace, st.pre.Settled → RecordsAccounted st.pre) ∧
      (l.kernel.Runs → l.Settled → RecordsAccounted l) := by
  obtain ⟨ticks, cr3, rsp0, rfl⟩ := booted
  have base : Inv (boot ticks cr3 rsp0) ∧ Account (boot ticks cr3 rsp0) :=
    ⟨.boot ticks cr3 rsp0, .boot ticks cr3 rsp0⟩
  have step (a : Launcher) (e : LaunchEvent) (b : Launcher) (both : Inv a ∧ Account a)
      (step : LaunchStep a e b) (cond : a.Careful e) : Inv b ∧ Account b :=
    ⟨both.1.step step cond.1, both.2.step both.1 step cond⟩
  constructor
  · intro st member settled
    have ⟨inv, acc⟩ := run.invariant_of_pre base step careful st member
    exact acc.accounted inv (run.step_of_mem st member).runs settled
  · intro runs settled
    have ⟨inv, acc⟩ := run.invariant_of base step careful
    exact acc.accounted inv runs settled

/-- The shell has created the user task of its `user` command. -/
def userDemoCreated : List LaunchEvent := shellCreatesUserDemo ++ [.advance, .advance, .advance]

theorem records_accounted_of_careful_user_demo :
    RecordsAccounted ((Launcher.boot 0 0 0).after userDemoCreated) ∧
      ((Launcher.boot 0 0 0).after userDemoCreated).pendingUser 0 ≠ ⟨0, 0⟩ := by
  have executes : Executes Can next (Launcher.boot 0 0 0) userDemoCreated := by decide +kernel
  have careful : ∀ st ∈ stepsFrom next (Launcher.boot 0 0 0) userDemoCreated,
      st.pre.Careful st.event := by decide +kernel
  have runs : ((Launcher.boot 0 0 0).after userDemoCreated).kernel.Runs := by decide +kernel
  have settled : ((Launcher.boot 0 0 0).after userDemoCreated).Settled := by
    unfold Settled
    decide +kernel
  refine ⟨?_, by decide +kernel⟩
  exact (records_accounted_of_careful ⟨0, 0, 0, rfl⟩ (executes.run fun _ _ can => can.step)
    careful).2 runs settled

/-- The shell creates the task and kills it before it has run. -/
def userDemoKilled : List LaunchEvent :=
  userDemoCreated ++ [.kernel (.signal 2 9), .kernel .signalDeliver]

theorem killed_task_leaves_its_record :
    ∃ trace l, Run LaunchStep (Launcher.boot 0 0 0) trace l ∧ l.Settled ∧
      l.pendingUser 0 ≠ ⟨0, 0⟩ ∧ ¬ RecordsAccounted l := by
  have executes : Executes Can next (Launcher.boot 0 0 0) userDemoKilled := by decide +kernel
  have settled : ((Launcher.boot 0 0 0).after userDemoKilled).Settled := by
    unfold Settled
    decide +kernel
  have inUse : ((Launcher.boot 0 0 0).after userDemoKilled).pendingUser 0 ≠ ⟨0, 0⟩ := by
    decide +kernel
  -- only the records are out of order: the launches themselves were not disturbed
  have undisturbed : ∀ st ∈ stepsFrom next (Launcher.boot 0 0 0) userDemoKilled,
      st.pre.Undisturbed st.event := by decide +kernel
  have run : Run LaunchStep (Launcher.boot 0 0 0)
      (stepsFrom next (Launcher.boot 0 0 0) userDemoKilled)
      ((Launcher.boot 0 0 0).after userDemoKilled) := executes.run fun _ _ can => can.step
  have inv : Inv ((Launcher.boot 0 0 0).after userDemoKilled) :=
    run.invariant_of (Inv.boot 0 0 0) (fun _ _ _ inv step cond => inv.step step cond) undisturbed
  have allDead : ∀ j ∈ List.range' 1 63,
      (((Launcher.boot 0 0 0).after userDemoKilled).doing j).bind Doing.unstarted ≠ none →
      (((Launcher.boot 0 0 0).after userDemoKilled).kernel.sched.tasks j).state = .dead := by
    decide +kernel
  -- from here on only these facts are needed, not the state itself
  generalize (Launcher.boot 0 0 0).after userDemoKilled = l at run settled inUse inv allDead
  refine ⟨_, l, run, settled, inUse, fun accounted => ?_⟩
  obtain ⟨j, waits, -⟩ := accounted.owner .user 0 inUse
  have ⟨pos, lt⟩ := Finset.mem_Ico.mp (waits.slot_mem inv)
  have unstarted := waits.unstarted
  exact waits.isTask.1 (allDead j (List.mem_range'_1.mpr ⟨pos, lt⟩) fun none => by
    cases none.symm.trans unstarted)

end MicroOs.User
