import MicroOs.Lib.Holding
import MicroOs.User.Launch

/-!
# The records of launches

The creation of a user task and the trampoline must not be interrupted at some points: a record has
been found free and not been written, a task is ready and not yet complete, a record's entry point is
cleared and its stack pointer is not. In runs without a pass at such a point, a record is held by the
task that creates and then by the new task, until its trampoline clears it.
-/

namespace MicroOs.User
open Lib Sched
open Function (update update_of_ne update_self)

variable {d : Doing} {i j : Nat} {info : LaunchInfo} {k : Kernel} {kind : LaunchKind}
  {launch : Launch} {records records' : LaunchKind → Nat → LaunchInfo}

/-- No other task may run at this point. -/
def Doing.critical : Doing → Bool
  | .claimed _ | .created _ _ | .markedUser _ _ | .gotPml4 _ _ | .clearedEntry _ _ _ _ => true
  | _ => false

def Doing.inTrampoline : Doing → Bool
  | .start _ | .checked _ _ | .readEntry _ _ _ | .readRsp _ _ _ _ | .clearedEntry _ _ _ _
  | .clearedRsp _ _ | .loaded _ _ => true
  | _ => false

/-- The record the task holds; at the start of its trampoline a task holds the one its creation
has left it. -/
def Doing.holds (origin : Option Launch) : Doing → Option (LaunchKind × Nat)
  | .entered launch => some launch.key
  | .recorded launch => some launch.key
  | .start _ => origin.map Launch.key
  | .checked kind slot => some (kind, slot)
  | .readEntry kind slot _ => some (kind, slot)
  | .readRsp kind slot _ _ => some (kind, slot)
  | _ => none

/-- The slot of the task that is being completed. -/
def Doing.fills : Doing → Option Nat
  | .created _ slot => some slot
  | .markedUser _ slot => some slot
  | .gotPml4 _ slot => some slot
  | _ => none

/-- The creation has left its record. -/
structure Launch.Recorded (launch : Launch) (records : LaunchKind → Nat → LaunchInfo) : Prop where
  entry_ne : launch.entry ≠ 0
  record_lt : launch.record < maxTasks
  info : records launch.kind launch.record = launch.info

/-- The entry point and the stack pointer are those of the creation. -/
def Gets (origin : Option Launch) (entry userRsp : BitVec 64) : Prop :=
  ∃ launch, origin = some launch ∧ launch.entry ≠ 0 ∧ entry = launch.entry ∧ userRsp = userStackBase

/-- What the records hold for a task at this point. -/
def Doing.Right (records : LaunchKind → Nat → LaunchInfo) (origin : Option Launch) : Doing → Prop
  | .scanning launch => launch.entry ≠ 0 ∧ launch.record < maxTasks
  | .claimed launch =>
      launch.entry ≠ 0 ∧ launch.record < maxTasks ∧
        (records launch.kind launch.record).entry = 0
  | .entered launch =>
      launch.entry ≠ 0 ∧ launch.record < maxTasks ∧
        (records launch.kind launch.record).entry = launch.entry
  | .recorded launch => launch.Recorded records
  | .start kind => ∃ launch, origin = some launch ∧ launch.kind = kind ∧ launch.Recorded records
  | .checked kind slot =>
      ∃ launch, origin = some launch ∧ launch.key = (kind, slot) ∧ launch.Recorded records
  | .readEntry kind slot entry =>
      ∃ launch, origin = some launch ∧ launch.key = (kind, slot) ∧ launch.Recorded records ∧
        entry = launch.entry
  | .readRsp _ _ entry userRsp => Gets origin entry userRsp
  | .clearedEntry kind slot entry userRsp =>
      Gets origin entry userRsp ∧ (records kind slot).entry = 0
  | .clearedRsp entry userRsp => Gets origin entry userRsp
  | .loaded entry userRsp => Gets origin entry userRsp
  | .inUser entry userRsp => Gets origin entry userRsp
  | _ => True

lemma Launch.Recorded.congr (h : launch.Recorded records)
    (same : records' launch.kind launch.record = records launch.kind launch.record) :
    launch.Recorded records' :=
  ⟨h.entry_ne, h.record_lt, same.trans h.info⟩

lemma Launch.Recorded.found (h : launch.Recorded records) :
    0 ≤ (launch.record : Int) ∧ (launch.record : Int) < maxTasks ∧
      (records launch.kind (launch.record : Int).toNat).entry ≠ 0 := by
  rw [Int.toNat_natCast, h.info]
  exact ⟨Int.natCast_nonneg _, Int.ofNat_lt.mpr h.record_lt, h.entry_ne⟩

lemma Doing.Right.congr {origin : Option Launch} (h : d.Right records origin)
    (calm : d.critical = false)
    (same : ∀ key, d.holds origin = some key → records' key.1 key.2 = records key.1 key.2) :
    d.Right records' origin := by
  cases d with
  | scanning launch => exact h
  | claimed launch => cases calm
  | entered launch =>
    have sameEntry := congrArg LaunchInfo.entry (same launch.key rfl)
    exact ⟨h.1, h.2.1, sameEntry.trans h.2.2⟩
  | recorded launch => exact Launch.Recorded.congr h (same launch.key rfl)
  | created _ _ | markedUser _ _ | gotPml4 _ _ => trivial
  | start kind =>
    obtain ⟨launch, rfl, isKind, recorded⟩ := h
    exact ⟨launch, rfl, isKind, recorded.congr (same launch.key rfl)⟩
  | checked kind slot =>
    obtain ⟨launch, rfl, key, recorded⟩ := h
    exact ⟨launch, rfl, key, recorded.congr (same launch.key (congrArg some key.symm))⟩
  | readEntry kind slot entry =>
    obtain ⟨launch, rfl, key, recorded, got⟩ := h
    exact ⟨launch, rfl, key, recorded.congr (same launch.key (congrArg some key.symm)), got⟩
  | readRsp kind slot entry userRsp => exact h
  | clearedEntry kind slot entry userRsp => cases calm
  | clearedRsp _ _ | loaded _ _ | inUser _ _ => exact h

namespace Launcher

def heldBy (l : Launcher) (j : Nat) : Option (LaunchKind × Nat) :=
  (l.doing j).bind (·.holds (l.origin j))

/-- The functions take the record for one in use. -/
def Used (l : Launcher) (key : LaunchKind × Nat) : Prop := (l.records key.1 key.2).entry ≠ 0

structure RecordsInv (l : Launcher) : Prop where
  mine : ∀ j d, l.doing j = some d → d.critical = true → j = l.current
  right : ∀ j d, l.doing j = some d → d.Right l.records (l.origin j)
  holding : Holding l.Used l.heldBy

variable {l m : Launcher} {point : Option Doing}

section
variable (l)

@[simp] lemma goTo_kernel (point : Option Doing) :
    (l.goTo point).kernel = l.kernel := rfl

@[simp] lemma goTo_current (point : Option Doing) :
    (l.goTo point).current = l.current := rfl

@[simp] lemma goTo_doing (point : Option Doing) : (l.goTo point).doing l.current = point := by
  simp [goTo]

lemma goTo_doing_of_ne {l : Launcher} (other : j ≠ l.current) : (l.goTo point).doing j = l.doing j := by
  simp [goTo, other]

lemma heldBy_goTo (point : Option Doing) :
    (l.goTo point).heldBy =
      update l.heldBy l.current (point.bind (·.holds (l.origin l.current))) := by
  funext j
  by_cases isCurrent : j = l.current
  · subst isCurrent
    simp [heldBy, goTo]
  · simp [heldBy, goTo, isCurrent]

@[simp] lemma setTask_sched (slot : Nat) (f : Task → Task) :
    (l.setTask slot f).kernel.sched = l.kernel.sched.modify slot f := rfl

end

lemma RecordsInv.goTo (inv : RecordsInv l) (doing : m.doing = l.doing)
    (origin : m.origin = l.origin) (current : m.current = l.current)
    (kept : ∀ j key, j ≠ l.current → l.heldBy j = some key →
      m.records key.1 key.2 = l.records key.1 key.2)
    (right : point.elim True (·.Right m.records (l.origin l.current)))
    (holding : Holding m.Used
      (update l.heldBy l.current (point.bind (·.holds (l.origin l.current))))) :
    RecordsInv (m.goTo point) := by
  have held : m.heldBy = l.heldBy := by
    funext j
    rw [heldBy, doing, origin, heldBy]
  have others {j : Nat} {d : Doing} (other : j ≠ l.current)
      (at_d : (m.goTo point).doing j = some d) : l.doing j = some d := by
    rw [goTo_doing_of_ne (current ▸ other), doing] at at_d
    exact at_d
  refine ⟨fun j d at_d critical => ?_, fun j d at_d => ?_, ?_⟩
  · by_contra other
    rw [goTo_current, current] at other
    exact other (inv.mine j d (others other at_d) critical)
  · show d.Right m.records (m.origin j)
    rw [origin]
    by_cases isCurrent : j = l.current
    · rw [isCurrent, ← current, goTo_doing] at at_d
      rw [isCurrent]
      rw [at_d] at right
      exact right
    · have before := others isCurrent at_d
      refine (inv.right j d before).congr ?_ (fun key holds => kept j key isCurrent ?_)
      · cases critical : d.critical with
        | false => rfl
        | true => exact absurd (inv.mine j d before critical) isCurrent
      · rw [heldBy, before]
        exact holds
  · rw [heldBy_goTo, held, origin, current]
    exact holding

lemma RecordsInv.move (inv : RecordsInv l) (doing : m.doing = l.doing)
    (origin : m.origin = l.origin) (current : m.current = l.current)
    (records : m.records = l.records)
    (right : point.elim True (·.Right l.records (l.origin l.current)))
    (holds : point.bind (·.holds (l.origin l.current)) = none ∨
      point.bind (·.holds (l.origin l.current)) = l.heldBy l.current) :
    RecordsInv (m.goTo point) := by
  have used : m.Used = l.Used := by
    funext key
    rw [Used, records, Used]
  refine inv.goTo doing origin current (fun j key _ _ => by rw [records]) ?_ ?_
  · rw [records]
    exact right
  · rw [used]
    rcases holds with nothing | same
    · rw [nothing]
      exact inv.holding.drop _ (fun _ _ _ held => inv.holding.used_of_holds held)
    · rw [same, Function.update_eq_self]
      exact inv.holding

@[simp] lemma setRecord_self (l : Launcher) (kind : LaunchKind) (i : Nat) (info : LaunchInfo) :
    (l.setRecord kind i info).records kind i = info := by
  simp [setRecord]

lemma setRecord_of_ne {key : LaunchKind × Nat} (other : key ≠ (kind, i)) :
    (l.setRecord kind i info).records key.1 key.2 = l.records key.1 key.2 := by
  by_cases sameKind : key.1 = kind
  · have otherRecord : key.2 ≠ i := fun same => other (Prod.ext sameKind same)
    simp only [setRecord, sameKind, update_self, update_of_ne otherRecord]
  · simp only [setRecord, update_of_ne sameKind]

lemma RecordsInv.write (inv : RecordsInv l)
    (nobody : ∀ j, j ≠ l.current → l.heldBy j ≠ some (kind, i))
    (right : point.elim True (·.Right (l.setRecord kind i info).records (l.origin l.current)))
    (holding : Holding (l.setRecord kind i info).Used
      (update l.heldBy l.current (point.bind (·.holds (l.origin l.current))))) :
    RecordsInv ((l.setRecord kind i info).goTo point) := by
  refine inv.goTo rfl rfl rfl (fun j key other held => ?_) right holding
  exact setRecord_of_ne fun same => nobody j other (same ▸ held)

lemma RecordsInv.used_write (inv : RecordsInv l)
    (nobody : ∀ j, j ≠ l.current → l.heldBy j ≠ some (kind, i)) :
    ∀ j key, j ≠ l.current → l.heldBy j = some key → (l.setRecord kind i info).Used key := by
  intro j key other held
  have otherKey : key ≠ (kind, i) := fun same => nobody j other (same ▸ held)
  unfold Used
  rw [setRecord_of_ne otherKey]
  exact inv.holding.used_of_holds held

lemma heldBy_current (at_d : l.doing l.current = some d) :
    l.heldBy l.current = d.holds (l.origin l.current) := by
  rw [heldBy, at_d, Option.bind_some]

lemma RecordsInv.advance (inv : RecordsInv l)
    (ready : ∀ kind launch, l.doing l.current = some (.start kind) →
      l.origin l.current = some launch → l.kernel.sched.current.pendingSlot = launch.record) :
    RecordsInv l.advance := by
  have right (d : Doing) (at_d : l.doing l.current = some d) := inv.right l.current d at_d
  unfold Launcher.advance
  cases at_d : l.doing l.current with
  | none => exact inv
  | some d =>
    have own := heldBy_current at_d
    have isRight := right d at_d
    cases d with
    | scanning launch =>
      have ⟨entry_ne, record_lt⟩ := isRight
      simp only
      split
      · rename_i free
        exact inv.move rfl rfl rfl rfl ⟨entry_ne, record_lt, free⟩ (.inl rfl)
      · split
        · rename_i next_lt
          exact inv.move rfl rfl rfl rfl ⟨entry_ne, next_lt⟩ (.inl rfl)
        · exact inv.move rfl rfl rfl rfl trivial (.inl rfl)
    | claimed launch =>
      have ⟨entry_ne, record_lt, free⟩ := isRight
      have nobody (j : Nat) (_ : j ≠ l.current) : l.heldBy j ≠ some launch.key :=
        inv.holding.not_held_of_free (not_not.mpr free) j
      refine inv.write nobody ⟨entry_ne, record_lt, ?_⟩ ?_
      · rw [setRecord_self]
      · refine inv.holding.give nobody ?_ (inv.used_write nobody)
        show (LaunchInfo.entry _) ≠ 0
        rw [Launch.key, setRecord_self]
        exact entry_ne
    | entered launch =>
      have ⟨entry_ne, record_lt, sameEntry⟩ := isRight
      have nobody (j : Nat) (other : j ≠ l.current) : l.heldBy j ≠ some launch.key :=
        inv.holding.not_held_of_own own other
      refine inv.write nobody ⟨entry_ne, record_lt, ?_⟩ ?_
      · simp only [setRecord_self, sameEntry, Launch.info]
      · refine inv.holding.give nobody ?_ (inv.used_write nobody)
        show (LaunchInfo.entry _) ≠ 0
        rw [Launch.key, setRecord_self, sameEntry]
        exact entry_ne
    | recorded launch => exact inv
    | created _ _ | markedUser _ _ | gotPml4 _ _ =>
      exact inv.move rfl rfl rfl rfl trivial (.inl rfl)
    | start kind =>
      obtain ⟨launch, origin, rfl, recorded⟩ := isRight
      simp only [ready _ launch at_d origin, if_pos recorded.found]
      rw [Int.toNat_natCast]
      refine inv.move rfl rfl rfl rfl ⟨launch, origin, rfl, recorded⟩ (.inr ?_)
      rw [own, origin]
      rfl
    | checked kind slot =>
      obtain ⟨launch, origin, key, recorded⟩ := isRight
      refine inv.move rfl rfl rfl rfl ⟨launch, origin, key, recorded, ?_⟩ (.inr own.symm)
      obtain ⟨rfl, rfl⟩ := Prod.mk.injEq .. ▸ key
      rw [recorded.info]
      rfl
    | readEntry kind slot entry =>
      obtain ⟨launch, origin, key, recorded, got⟩ := isRight
      refine inv.move rfl rfl rfl rfl ⟨launch, origin, recorded.entry_ne, got, ?_⟩ (.inr own.symm)
      obtain ⟨rfl, rfl⟩ := Prod.mk.injEq .. ▸ key
      rw [recorded.info]
      rfl
    | readRsp kind slot entry userRsp =>
      have nobody (j : Nat) (other : j ≠ l.current) : l.heldBy j ≠ some (kind, slot) :=
        inv.holding.not_held_of_own own other
      refine inv.write nobody ⟨isRight, ?_⟩ (inv.holding.drop _ (inv.used_write nobody))
      rw [setRecord_self]
    | clearedEntry kind slot entry userRsp =>
      have ⟨gets, cleared⟩ := isRight
      have nobody (j : Nat) (_ : j ≠ l.current) : l.heldBy j ≠ some (kind, slot) :=
        inv.holding.not_held_of_free (not_not.mpr cleared) j
      exact inv.write nobody gets (inv.holding.drop _ (inv.used_write nobody))
    | clearedRsp entry userRsp => exact inv.move rfl rfl rfl rfl isRight (.inl rfl)
    | loaded entry userRsp =>
      have ⟨launch, origin, entry_ne, got, _⟩ := isRight
      simp only [if_neg (got ▸ entry_ne)]
      exact inv.move rfl rfl rfl rfl isRight (.inl rfl)
    | inUser entry userRsp => exact inv

lemma RecordsInv.withKernel (inv : RecordsInv l)
    (calm : k.sched.currentTask = l.current ∨ ∀ d, l.doing l.current = some d → d.critical = false) :
    RecordsInv { l with kernel := k } := by
  refine ⟨fun j d at_d critical => ?_, inv.right, inv.holding⟩
  have isCurrent := inv.mine j d at_d critical
  rcases calm with same | calm
  · exact isCurrent.trans same.symm
  · rw [calm d (isCurrent ▸ at_d)] at critical
    cases critical

/-- The current task is in `task_create`, called by one of the two functions or by other code. -/
def MayCreate (l : Launcher) : Prop :=
  l.doing l.current = none ∨ ∃ launch, l.doing l.current = some (.recorded launch)

variable {slot : Nat}

@[simp] lemma commit_records (l : Launcher) (slot : Nat) : (l.commit slot).records = l.records := by
  unfold Launcher.commit
  split <;> rfl

@[simp] lemma commit_current (l : Launcher) (slot : Nat) : (l.commit slot).current = l.current := by
  unfold Launcher.commit
  split <;> rfl

lemma commit_withKernel (same : k.sched.currentTask = l.current) :
    ({ l with kernel := k } : Launcher).commit slot = { l.commit slot with kernel := k } := by
  have current : ({ l with kernel := k } : Launcher).current = l.current := same
  simp only [Launcher.commit, current]
  cases l.doing l.current with
  | none => rfl
  | some d => cases d <;> rfl

lemma commit_origin_of_ne (notSlot : j ≠ slot) : (l.commit slot).origin j = l.origin j := by
  unfold Launcher.commit
  split <;> simp only [update_of_ne notSlot]

lemma commit_launch (at_recorded : l.doing l.current = some (.recorded launch))
    (other : slot ≠ l.current) :
    (l.commit slot).doing slot = some (.start launch.kind) ∧
      (l.commit slot).origin slot = some launch := by
  simp only [Launcher.commit, at_recorded, update_self, update_of_ne other, and_self]

/-- Where the tasks are when a task has been made. -/
inductive Committed (l : Launcher) (slot : Nat) : Nat → Doing → Prop where
  | new (launch : Launch) (at_recorded : l.doing l.current = some (.recorded launch)) :
      Committed l slot slot (.start launch.kind)
  | creator (launch : Launch) (at_recorded : l.doing l.current = some (.recorded launch)) :
      Committed l slot l.current (.created launch slot)
  | other {j : Nat} {d : Doing} (notSlot : j ≠ slot) (notCurrent : j ≠ l.current)
      (at_d : l.doing j = some d) : Committed l slot j d

lemma MayCreate.committed (creates : l.MayCreate) (at_d : (l.commit slot).doing j = some d) :
    Committed l slot j d := by
  rcases creates with plain | ⟨launch, at_recorded⟩
  · simp only [Launcher.commit, plain] at at_d
    by_cases isSlot : j = slot
    · rw [isSlot, update_self] at at_d
      cases at_d
    · rw [update_of_ne isSlot] at at_d
      refine .other isSlot ?_ at_d
      rintro rfl
      cases plain.symm.trans at_d
  · simp only [Launcher.commit, at_recorded] at at_d
    by_cases isCurrent : j = l.current
    · rw [isCurrent, update_self] at at_d
      cases at_d
      exact isCurrent ▸ .creator launch at_recorded
    · rw [update_of_ne isCurrent] at at_d
      by_cases isSlot : j = slot
      · rw [isSlot, update_self] at at_d
        cases at_d
        exact isSlot ▸ .new launch at_recorded
      · rw [update_of_ne isSlot] at at_d
        exact .other isSlot isCurrent at_d

lemma MayCreate.heldBy_commit (creates : l.MayCreate) (other : slot ≠ l.current) :
    (l.commit slot).heldBy =
      update (update l.heldBy slot (l.heldBy l.current)) l.current none := by
  funext j
  rcases creates with plain | ⟨launch, at_recorded⟩
  · by_cases isCurrent : j = l.current
    · simp [heldBy, Launcher.commit, plain, isCurrent, other.symm]
    · by_cases isSlot : j = slot
      · simp [heldBy, Launcher.commit, plain, isSlot, other]
      · simp [heldBy, Launcher.commit, plain, isSlot, isCurrent]
  · by_cases isCurrent : j = l.current
    · simp [heldBy, Launcher.commit, at_recorded, isCurrent, Doing.holds]
    · by_cases isSlot : j = slot
      · simp [heldBy, Launcher.commit, at_recorded, isSlot, other, Doing.holds]
      · simp [heldBy, Launcher.commit, at_recorded, isSlot, isCurrent]

lemma RecordsInv.commit (inv : RecordsInv l) (other : slot ≠ l.current) (creates : l.MayCreate) :
    RecordsInv (l.commit slot) := by
  have used : (l.commit slot).Used = l.Used := by
    funext key
    rw [Used, commit_records, Used]
  refine ⟨fun j d at_d critical => ?_, fun j d at_d => ?_, ?_⟩
  · rw [commit_current]
    cases creates.committed at_d with
    | new launch _ => cases critical
    | creator launch _ => rfl
    | other _ _ before => exact inv.mine j d before critical
  · rw [commit_records]
    cases creates.committed at_d with
    | new launch at_recorded =>
      rw [(commit_launch at_recorded other).2]
      exact ⟨launch, rfl, rfl, inv.right _ _ at_recorded⟩
    | creator launch _ => trivial
    | other notSlot _ before =>
      rw [commit_origin_of_ne notSlot]
      exact inv.right j d before
  · rw [used, creates.heldBy_commit other]
    exact inv.holding.hand other

end Launcher

end MicroOs.User
