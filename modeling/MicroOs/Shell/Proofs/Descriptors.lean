import MicroOs.Fs.Proofs.VfsCalls
import MicroOs.Shell.Commands

/-!
# Descriptors after a command

Every command on files closes what it has opened, on success and on every error path, except the
second pass of `tail`. The loops end because each pass moves the offset on within the file, also for
`cp` from a file to itself.
-/

namespace MicroOs.Shell
open List
open Fs Fs.Vfs Lib

variable {bytes : List Byte} {chunk : Nat} {run : Nat → Result}
variable {s t u : Vfs} {path : Path} {fd f : Nat} {more : List Nat}

def usedFds (s : Vfs) : Nat := (range vfsMaxFd).countP fun f => (s.fds f).used

/-- No descriptor is open that was closed before. -/
structure NoneLeft (s t : Vfs) : Prop where
  closed : ∀ f < vfsMaxFd, (s.fds f).used = false → (t.fds f).used = false
  count : usedFds t ≤ usedFds s

lemma noneLeft_of (fewer : ∀ f, (t.fds f).used = true → (s.fds f).used = true) :
    NoneLeft s t where
  closed f _ free := by
    by_contra open_t
    rw [fewer f (by simpa using open_t)] at free
    cases free
  count := countP_mono_left fun f _ => fewer f

/-- In `t` the descriptors `more` are open besides those of `s`. -/
structure Opened (s t : Vfs) (more : List Nat) : Prop where
  used : ∀ f, (t.fds f).used = true ↔ (s.fds f).used = true ∨ f ∈ more
  new : ∀ f ∈ more, f < vfsMaxFd ∧ (s.fds f).used = false
  nodup : more.Nodup

lemma Opened.refl (s : Vfs) : Opened s s [] where
  used _ := by simp
  new _ member := absurd member not_mem_nil
  nodup := nodup_nil

lemma Opened.noneLeft (opened : Opened s t []) : NoneLeft s t := by
  apply noneLeft_of
  intro f used
  exact ((opened.used f).mp used).resolve_right not_mem_nil

lemma Opened.not_noneLeft (opened : Opened s t (fd :: more)) : ¬ NoneLeft s t := by
  intro none
  obtain ⟨small, free⟩ := opened.new fd mem_cons_self
  have closed := none.closed fd small free
  rw [(opened.used fd).mpr (.inr mem_cons_self)] at closed
  cases closed

section
variable (opened : Opened s t more)
include opened

lemma Opened.same (same : ∀ f, (u.fds f).used = (t.fds f).used) :
    Opened s u more where
  used f := by
    rw [same f]
    exact opened.used f
  new := opened.new
  nodup := opened.nodup

lemma Opened.opens (path : Path) (create : Bool) (block : Nat) :
    match t.vfsOpen path create block with
    | (none, u) => Opened s u more
    | (some fd, u) => Opened s u (fd :: more) ∧ (u.fds fd).offset = 0 := by
  have same := openNode_fds t path create block
  rcases vfsOpen_cases t path create block with failed | ⟨i, v, fd, node, -, slot, done⟩
  · rw [failed]
    exact opened.same fun f => by rw [same]
  · rw [done]
    obtain ⟨small, free⟩ := allocFd_spec slot
    have fds : v.fds = t.fds := by rw [← same, node]
    have unused : ¬((s.fds fd).used = true ∨ fd ∈ more) := by
      rw [← opened.used fd, ← fds, free]
      exact Bool.false_ne_true
    refine ⟨⟨?_, ?_, nodup_cons.mpr ⟨fun member => unused (.inr member), opened.nodup⟩⟩, ?_⟩
    · intro f
      rw [modifyFd_fds, fds, mem_cons]
      by_cases here : f = fd
      · simp [here]
      · rw [if_neg here, opened.used f]
        simp [here]
    · intro f member
      rcases mem_cons.mp member with rfl | member
      · exact ⟨small, by simpa using fun used => unused (.inl used)⟩
      · exact opened.new f member
    · rw [modifyFd_fds, if_pos rfl]

lemma Opened.close (member : fd ∈ more) : Opened s (t.vfsClose fd).2 (more.erase fd) := by
  have used := (opened.used fd).mpr (.inr member)
  obtain ⟨small, free⟩ := opened.new fd member
  rw [vfsClose, openFd_ofNat small used]
  refine ⟨?_, fun f later => opened.new f (mem_of_mem_erase later), opened.nodup.erase fd⟩
  intro f
  rw [modifyFd_fds, opened.nodup.mem_erase_iff]
  by_cases here : f = fd
  · simp [here, free]
  · rw [if_neg here, opened.used f]
    simp [here]

omit opened in
lemma Opened.close_last (opened : Opened s t [fd]) : Opened s (t.vfsClose fd).2 [] := by
  have closed := opened.close mem_cons_self
  rwa [erase_cons_head] at closed

lemma Opened.read (fd chunk : Nat) : Opened s (t.vfsRead fd chunk).2 more :=
  opened.same fun f => (vfsRead_fds t fd chunk f).1

lemma Opened.write (fd : Nat) (buf : Nat → Byte) (count : Nat) :
    Opened s (t.vfsWrite fd buf count).2 more :=
  opened.same fun f => (vfsWrite_fds t fd buf count f).1

end

/-- The bytes between the offset of a descriptor and the end of its file. -/
def bytesLeft (s : Vfs) (fd : Nat) : Nat :=
  (s.vnodes (s.fds fd).vnode).size - (s.fds fd).offset

lemma vfsRead_moves (read : (s.vfsRead fd chunk).1 = some bytes) (filled : bytes ≠ []) :
    (s.vfsRead fd chunk).2 = (s.modifyFd fd fun desc =>
        { desc with offset := (s.fds fd).offset + bytes.length }) ∧
      (s.fds fd).offset + bytes.length ≤ (s.vnodes (s.fds fd).vnode).size := by
  rcases vfsRead_cases s fd chunk with (failed | empty) | ⟨f, isFd, small, opened⟩
  · rw [failed] at read
    cases read
  · rw [empty] at read
    exact absurd (Option.some.inj read).symm filled
  · obtain rfl : fd = f := by exact_mod_cast isFd
    rw [vfsRead_opened small opened] at read ⊢
    have length := congrArg length (Option.some.inj read)
    rw [length_window] at length
    have positive : 0 < bytes.length := length_pos_iff.mpr filled
    rw [← length, readCount] at positive ⊢
    exact ⟨rfl, by omega⟩

lemma vfsRead_offsets (s : Vfs) (fd chunk : Nat) :
    (∀ f, f ≠ fd → (s.vfsRead fd chunk).2.fds f = s.fds f) ∧
      (s.fds fd).offset ≤ ((s.vfsRead fd chunk).2.fds fd).offset := by
  rcases vfsRead_cases s fd chunk with (same | same) | ⟨f, isFd, small, opened⟩
  · rw [same]
    exact ⟨fun _ _ => rfl, Nat.le_refl _⟩
  · rw [same]
    exact ⟨fun _ _ => rfl, Nat.le_refl _⟩
  · obtain rfl : fd = f := by exact_mod_cast isFd
    rw [vfsRead_opened small opened]
    refine ⟨fun f other => ?_, ?_⟩
    · rw [modifyFd_fds, if_neg other]
    · rw [modifyFd_fds, if_pos rfl]
      exact Nat.le_add_right _ _

lemma vfsRead_bytesLeft (read : (s.vfsRead fd chunk).1 = some bytes) (filled : bytes ≠ []) :
    bytesLeft (s.vfsRead fd chunk).2 fd < bytesLeft s fd := by
  obtain ⟨moved, inside⟩ := vfsRead_moves read filled
  have positive : 0 < bytes.length := length_pos_iff.mpr filled
  rw [moved]
  simp only [bytesLeft, modifyFd_fds, if_pos]
  show (s.vnodes (s.fds fd).vnode).size - ((s.fds fd).offset + bytes.length) < _
  omega

variable {α : Type} {chunk : Nat} {go : α → Bool}

lemma readWhile_more_fuel {use : α → List Byte → Vfs → α × Vfs} {fuel fuel' : Nat} {a : α}
    {result : α × Vfs} (ended : readWhile fd chunk go use fuel a s = some result)
    (larger : fuel ≤ fuel') : readWhile fd chunk go use fuel' a s = some result := by
  induction fuel generalizing fuel' a s with
  | zero => cases ended
  | succ fuel ih =>
    obtain ⟨fuel', rfl⟩ := Nat.exists_eq_succ_of_ne_zero (Nat.ne_zero_of_lt larger)
    unfold readWhile at ended ⊢
    by_cases stop : (!go a) = true
    · rw [if_pos stop] at ended ⊢
      exact ended
    · rw [if_neg stop] at ended ⊢
      generalize s.vfsRead fd chunk = r at ended
      obtain ⟨bytes, t⟩ := r
      match bytes with
      | none => exact ended
      | some [] => exact ended
      | some (b :: bytes) => exact ih ended (Nat.le_of_succ_le_succ larger)

lemma readWhile_ends {use : α → List Byte → Vfs → α × Vfs} (inv : Vfs → Prop)
    (measure : Vfs → Nat) (read : ∀ s, inv s → inv (s.vfsRead fd chunk).2)
    (pass : ∀ a s bytes, inv s → (s.vfsRead fd chunk).1 = some bytes → bytes ≠ [] →
      inv (use a bytes (s.vfsRead fd chunk).2).2 ∧
        measure (use a bytes (s.vfsRead fd chunk).2).2 < measure s)
    (a : α) (start : inv s) :
    ∃ b t, inv t ∧ ∀ fuel > measure s, readWhile fd chunk go use fuel a s = some (b, t) := by
  suffices ends : ∀ fuel a s, inv s → measure s < fuel →
      ∃ b t, inv t ∧ readWhile fd chunk go use fuel a s = some (b, t) by
    obtain ⟨b, t, held, ended⟩ := ends (measure s + 1) a s start (Nat.lt_succ_self _)
    exact ⟨b, t, held, fun fuel enough => readWhile_more_fuel ended enough⟩
  intro fuel
  induction fuel with
  | zero => exact fun _ s _ enough => absurd enough (Nat.not_lt_zero _)
  | succ fuel ih =>
    intro a s start enough
    unfold readWhile
    by_cases stop : go a = true
    · have kept := read s start
      have next := pass a s
      rw [stop]
      simp only [Bool.not_true, Bool.false_eq_true, if_false]
      generalize s.vfsRead fd chunk = r at kept next
      obtain ⟨bytes, t⟩ := r
      match bytes with
      | none => exact ⟨a, t, kept, rfl⟩
      | some [] => exact ⟨a, t, kept, rfl⟩
      | some (b :: bytes) =>
        obtain ⟨held, less⟩ := next (b :: bytes) start rfl (cons_ne_nil _ _)
        exact ih _ _ held (Nat.lt_of_lt_of_le less (Nat.le_of_lt_succ enough))
    · simp only [stop]
      exact ⟨a, s, start, rfl⟩

lemma readWhile_reads (fd chunk : Nat) (go : α → Bool) (use : α → List Byte → α)
    (opened : Opened s t more) (a : α) :
    ∃ b u, (Opened s u more ∧ u.vnodes = t.vnodes) ∧ ∀ fuel > bytesLeft t fd,
      readWhile fd chunk go (fun a bytes s => (use a bytes, s)) fuel a t = some (b, u) := by
  refine readWhile_ends (fun u => Opened s u more ∧ u.vnodes = t.vnodes)
    (fun u => bytesLeft u fd) ?_ ?_ a ⟨opened, rfl⟩
  · rintro u ⟨held, same⟩
    exact ⟨held.read fd chunk, (vfsRead_vnodes u fd chunk).trans same⟩
  · rintro a u bytes ⟨held, same⟩ read filled
    exact ⟨⟨held.read fd chunk, (vfsRead_vnodes u fd chunk).trans same⟩,
      vfsRead_bytesLeft read filled⟩

/-- `vfs_open` without `create` opens a path: it leads to a file, and a descriptor is free. -/
def CanOpen (s : Vfs) (path : Path) : Prop :=
  ∃ i, s.resolvePath path = some i ∧ (s.vnodes i).type ≠ .directory ∧
    ∃ f < vfsMaxFd, (s.fds f).used = false

instance (s : Vfs) (path : Path) : Decidable (CanOpen s path) :=
  decidable_of_iff ((s.resolvePath path).any (fun i => (s.vnodes i).type ≠ .directory) ∧
      ∃ f < vfsMaxFd, (s.fds f).used = false) <| by
    unfold CanOpen
    cases s.resolvePath path <;> simp

lemma allocFd_isSome_iff : s.allocFd.isSome ↔ ∃ f < vfsMaxFd, (s.fds f).used = false := by
  simp [allocFd, find?_isSome]

lemma vfsOpen_reading (s : Vfs) (path : Path) :
    (¬CanOpen s path ∧ s.vfsOpen path false 0 = (none, s)) ∨
      (CanOpen s path ∧ ∃ i fd,
        s.vfsOpen path false 0 = (some fd, s.modifyFd fd fun _ => ⟨i, 0, true⟩)) := by
  unfold vfsOpen openNode CanOpen
  rw [← allocFd_isSome_iff]
  cases found : s.resolvePath path with
  | none => simp
  | some i =>
    by_cases directory : (s.vnodes i).type = .directory
    · simp [directory]
    · cases slot : s.allocFd with
      | none => simp [directory, slot]
      | some fd =>
        right
        simp only [directory, slot, if_false]
        exact ⟨⟨i, rfl, directory, rfl⟩, i, fd, rfl⟩

lemma resolvePath_of_vnodes (same : t.vnodes = s.vnodes) (path : Path) :
    t.resolvePath path = s.resolvePath path := by
  have tree : t.tree = s.tree := by
    unfold Vfs.tree
    rw [same]
  cases path with
  | nil => rfl
  | cons c path =>
    unfold resolvePath
    rw [tree]

lemma CanOpen.again (can : CanOpen s path) (opened : Opened s t []) (same : t.vnodes = s.vnodes) :
    CanOpen t path := by
  obtain ⟨i, found, file, f, small, free⟩ := can
  refine ⟨i, (resolvePath_of_vnodes same path).trans found, by rw [same]; exact file, f, small, ?_⟩
  by_contra used
  rcases (opened.used f).mp (by simpa using used) with before | member
  · rw [before] at free
    cases free
  · exact not_mem_nil member

lemma readFile_ends (chunk : Nat) (go : α → Bool) (use : α → List Byte → α) (path : Path) (a : α)
    (s : Vfs) :
    (¬CanOpen s path ∧ ∀ fuel, readFile chunk go use fuel path a s = some (none, s)) ∨
      (CanOpen s path ∧ ∃ b t, (Opened s t [] ∧ t.vnodes = s.vnodes) ∧
        ∃ enough, ∀ fuel ≥ enough, readFile chunk go use fuel path a s = some (some b, t)) := by
  unfold readFile
  rcases vfsOpen_reading s path with ⟨cannot, failed⟩ | ⟨can, i, fd, result⟩
  · left
    refine ⟨cannot, fun fuel => ?_⟩
    rw [failed]
  · right
    have opened := (Opened.refl s).opens path false 0
    rw [result] at opened
    replace opened := opened.1
    obtain ⟨b, t, ⟨held, same⟩, loop⟩ := readWhile_reads fd chunk go use opened a
    refine ⟨can, b, (t.vfsClose fd).2, ⟨held.close_last, (vfsClose_vnodes t fd).trans same⟩,
      bytesLeft (s.modifyFd fd fun _ => ⟨i, 0, true⟩) fd + 1, fun fuel enough => ?_⟩
    rw [result]
    simp only [loop fuel enough]

lemma writeCount_le_count (vn : VNode) (offset count : Nat) :
    writeCount vn offset count ≤ count := by
  unfold writeCount
  split
  · split <;> omega
  · exact Nat.le_refl _

lemma vfsWrite_sizes (s : Vfs) (fd : Nat) (buf : Nat → Byte) (count : Nat) :
    (∀ f, f ≠ fd → (s.vfsWrite fd buf count).2.fds f = s.fds f) ∧
      ((s.vfsWrite fd buf count).2.fds fd).offset ≤ (s.fds fd).offset + count ∧
      ∀ i, ((s.vfsWrite fd buf count).2.vnodes i).size ≤
        max (s.vnodes i).size ((s.fds fd).offset + count) := by
  rcases vfsWrite_cases s fd buf count with same | ⟨f, isFd, -, -, result⟩
  · rw [same]
    exact ⟨fun _ _ => rfl, Nat.le_add_right _ _, fun _ => Nat.le_max_left _ _⟩
  · obtain rfl : fd = f := by exact_mod_cast isFd
    have most := writeCount_le_count (s.vnodes (s.fds fd).vnode) (s.fds fd).offset count
    rw [result, stored_fds]
    refine ⟨fun f other => Function.update_of_ne other .., ?_, fun i => ?_⟩
    · rw [Function.update_self]
      exact Nat.add_le_add_left most _
    · rw [stored_vnodes]
      dsimp only
      split <;> omega

/-- The loop of `cp`: the destination is never written beyond what has been read, so that it ends even
if both are the same file. -/
lemma readWhile_copies (chunk : Nat) {sfd dfd : Nat} (opened : Opened s t more)
    (other : dfd ≠ sfd) (start : (t.fds dfd).offset ≤ (t.fds sfd).offset) :
    ∃ u, Opened s u more ∧ ∀ fuel > bytesLeft t sfd,
      readWhile sfd chunk (fun _ => true) (fun (_ : Unit) bytes s =>
        ((), (s.vfsWrite dfd (fun k => bytes.getD k 0) bytes.length).2)) fuel () t
          = some ((), u) := by
  suffices ends : ∃ b u, (Opened s u more ∧ (u.fds dfd).offset ≤ (u.fds sfd).offset) ∧
      ∀ fuel > bytesLeft t sfd, readWhile sfd chunk (fun _ => true) (fun (_ : Unit) bytes s =>
        ((), (s.vfsWrite dfd (fun k => bytes.getD k 0) bytes.length).2)) fuel () t = some (b, u) by
    obtain ⟨b, u, ⟨held, -⟩, loop⟩ := ends
    exact ⟨u, held, loop⟩
  refine readWhile_ends (fun u => Opened s u more ∧ (u.fds dfd).offset ≤ (u.fds sfd).offset)
    (fun u => bytesLeft u sfd) ?_ ?_ () ⟨opened, start⟩
  · rintro u ⟨held, behind⟩
    obtain ⟨others, on⟩ := vfsRead_offsets u sfd chunk
    refine ⟨held.read sfd chunk, ?_⟩
    rw [others dfd other]
    exact Nat.le_trans behind on
  · rintro - u bytes ⟨held, behind⟩ read filled
    obtain ⟨moved, inside⟩ := vfsRead_moves read filled
    have positive : 0 < bytes.length := length_pos_iff.mpr filled
    have held := held.read sfd chunk
    rw [moved] at held ⊢
    obtain ⟨others, offset, sizes⟩ := vfsWrite_sizes
      (u.modifyFd sfd fun desc => { desc with offset := (u.fds sfd).offset + bytes.length })
      dfd (fun k => bytes.getD k 0) bytes.length
    rw [modifyFd_fds, if_neg other] at offset sizes
    have source := others sfd (Ne.symm other)
    rw [modifyFd_fds, if_pos rfl] at source
    have size := sizes (u.fds sfd).vnode
    have kept : ∀ i, ((u.modifyFd sfd fun desc =>
        { desc with offset := (u.fds sfd).offset + bytes.length }).vnodes i) = u.vnodes i :=
      fun _ => rfl
    rw [kept] at size
    refine ⟨⟨held.write dfd _ _, ?_⟩, ?_⟩
    · rw [source]
      simp only
      omega
    · unfold bytesLeft
      rw [source]
      simp only
      omega

/-- With enough fuel a command ends, and more fuel does not change its result. -/
def Ends (run : Nat → Result) (after : Vfs → Prop) : Prop :=
  ∃ out t, after t ∧ ∃ enough, ∀ fuel ≥ enough, run fuel = some (out, t)

lemma Ends.of_some {after : Vfs → Prop} (out : Text) (ends : ∀ fuel, run fuel = some (out, t))
    (holds : after t) : Ends run after :=
  ⟨out, t, holds, 0, fun fuel _ => ends fuel⟩

lemma Ends.prints (out : Text) (ends : ∀ fuel, run fuel = some (out, s)) : Ends run (NoneLeft s) :=
  .of_some out ends (Opened.refl s).noneLeft

lemma Ends.of_readFile {use : α → List Byte → α} {a : α}
    (report : Option α → Text)
    (reads : ∀ fuel, run fuel =
      (readFile chunk go use fuel path a s).map fun read => (report read.1, read.2)) :
    Ends run (NoneLeft s) := by
  rcases readFile_ends chunk go use path a s with ⟨-, failed⟩ | ⟨-, b, t, ⟨opened, -⟩, enough, ends⟩
  · refine .prints (report none) fun fuel => ?_
    rw [reads fuel, failed fuel]
    rfl
  · refine ⟨report (some b), t, opened.noneLeft, enough, fun fuel large => ?_⟩
    rw [reads fuel, ends fuel large]
    rfl

variable (env : ShellEnv)

section
variable (arg : Path)

lemma shellCmdLs_closes (s : Vfs) : Ends (fun _ => shellCmdLs env arg s) (NoneLeft s) := by
  unfold shellCmdLs
  simp only
  generalize s.vfsReaddir _ 32 = entries
  match entries with
  | none => exact .prints _ fun _ => rfl
  | some [] => exact .prints _ fun _ => rfl
  | some (e :: entries) => exact .prints _ fun _ => rfl

lemma shellCmdCat_closes (s : Vfs) :
    Ends (fun fuel => shellCmdCat env fuel arg s) (NoneLeft s) := by
  by_cases missing : arg = []
  · exact .prints _ fun fuel => if_pos missing
  · apply Ends.of_readFile fun
      | none => ascii "cat: '" ++ env.resolve arg ++ ascii "': no such file\n"
      | some out => out ++ ascii "\n"
    intro fuel
    simp only [shellCmdCat, if_neg missing]
    rcases readFile .. with _ | ⟨_ | out, t⟩ <;> rfl

lemma shellCmdHead_closes (args : Path) (s : Vfs) :
    Ends (fun fuel => shellCmdHead env fuel args s) (NoneLeft s) := by
  by_cases missing : (lineOption args).2 = []
  · exact .prints _ fun fuel => if_pos missing
  · apply Ends.of_readFile fun
      | none => ascii "head: '" ++ env.resolve (lineOption args).2 ++ ascii "': no such file\n"
      | some (out, lines) => if lines = 0 then out ++ ascii "\n" else out
    intro fuel
    simp only [shellCmdHead, if_neg missing]
    rcases readFile .. with _ | ⟨_ | out, t⟩ <;> rfl

lemma shellCmdWc_closes (s : Vfs) : Ends (fun fuel => shellCmdWc env fuel arg s) (NoneLeft s) := by
  by_cases missing : arg = []
  · exact .prints _ fun fuel => if_pos missing
  · apply Ends.of_readFile fun (read : Option WordCount) => match read with
      | none => ascii "wc: '" ++ env.resolve arg ++ ascii "': no such file\n"
      | some w => ascii "  " ++ decimal w.lines ++ ascii "  " ++ decimal w.words ++ ascii "  " ++
          decimal w.bytes ++ ascii " " ++ arg ++ ascii "\n"
    intro fuel
    simp only [shellCmdWc, if_neg missing]
    rcases readFile .. with _ | ⟨_ | w, t⟩ <;> rfl

lemma shellCmdWrite_closes (args : Path) (s : Vfs) :
    Ends (fun _ => shellCmdWrite env args s) (NoneLeft s) := by
  by_cases missing : args = []
  · exact .prints _ fun _ => if_pos missing
  · simp only [shellCmdWrite, if_neg missing]
    have opens := (Opened.refl s).opens (env.resolve (splitName args).1) true env.block
    generalize s.vfsOpen _ _ _ = result at opens
    obtain ⟨_ | fd, t⟩ := result
    · exact .of_some _ (fun _ => rfl) opens.noneLeft
    · exact .of_some _ (fun _ => rfl) (opens.1.write fd _ _).close_last.noneLeft

lemma shellCmdCp_closes (args : Path) (s : Vfs) :
    Ends (fun fuel => shellCmdCp env fuel args s) (NoneLeft s) := by
  unfold shellCmdCp
  by_cases missing : args = []
  · exact .prints _ fun _ => if_pos missing
  · simp only [if_neg missing]
    by_cases noDst : (splitName (splitName args).2).1 = []
    · exact .prints _ fun _ => if_pos noDst
    · simp only [if_neg noDst]
      have source := (Opened.refl s).opens (env.resolve (splitName args).1) false 0
      generalize s.vfsOpen _ false 0 = result at source
      obtain ⟨_ | sfd, t⟩ := result
      · exact .of_some _ (fun _ => rfl) source.noneLeft
      · have target :=
          source.1.opens (env.resolve (splitName (splitName args).2).1) true env.block
        simp only
        generalize t.vfsOpen _ _ _ = result at target
        obtain ⟨_ | dfd, u⟩ := result
        · exact .of_some _ (fun _ => rfl) target.close_last.noneLeft
        · have other : dfd ≠ sfd := by
            intro same
            exact (nodup_cons.mp target.1.nodup).1 (same ▸ mem_cons_self)
          obtain ⟨v, held, loop⟩ := readWhile_copies 256 target.1 other
            (target.2.trans_le (Nat.zero_le _))
          have closed := held.close (mem_cons_of_mem _ mem_cons_self)
          rw [erase_cons_tail (by simpa using other), erase_cons_head] at closed
          refine ⟨[], _, closed.close_last.noneLeft, bytesLeft u sfd + 1, fun fuel enough => ?_⟩
          simp only [loop fuel enough]

lemma shellCmdMv_closes (args : Path) (s : Vfs) :
    Ends (fun _ => shellCmdMv env args s) (NoneLeft s) := by
  unfold shellCmdMv
  by_cases missing : args = []
  · exact .prints _ fun _ => if_pos missing
  · simp only [if_neg missing]
    by_cases noDst : (splitName (splitName args).2).1 = []
    · exact .prints _ fun _ => if_pos noDst
    · simp only [if_neg noDst]
      have same := vfsRename_fds s (env.resolve (splitName args).1)
        (env.resolve (splitName (splitName args).2).1)
      have left : NoneLeft s (s.vfsRename (env.resolve (splitName args).1)
          (env.resolve (splitName (splitName args).2).1)).2 :=
        noneLeft_of fun f used => by rwa [same] at used
      generalize s.vfsRename _ _ = result at left
      obtain ⟨_ | _, t⟩ := result <;> exact .of_some _ (fun _ => rfl) left

lemma shellCmdStat_closes (s : Vfs) : Ends (fun _ => shellCmdStat env arg s) (NoneLeft s) := by
  by_cases missing : arg = []
  · exact .prints _ fun _ => if_pos missing
  · simp only [shellCmdStat, if_neg missing]
    cases s.vfsStat (env.resolve arg) with
    | none | some _ => exact .prints _ fun _ => rfl

lemma shellMkdir_closes (s : Vfs) : Ends (fun _ => shellMkdir env arg s) (NoneLeft s) := by
  unfold shellMkdir
  have same := vfsMkdir_fds s (env.resolve arg)
  have left : NoneLeft s (s.vfsMkdir (env.resolve arg)).2 :=
    noneLeft_of fun f used => by rwa [same] at used
  simp only
  generalize s.vfsMkdir (env.resolve arg) = result at left
  obtain ⟨_ | _, t⟩ := result <;> exact .of_some _ (fun _ => rfl) left

lemma vfsUnlink_noneLeft (s : Vfs) (path : Path) : NoneLeft s (s.vfsUnlink path).2 := by
  apply noneLeft_of
  intro f used
  rcases vfsUnlink_fds s path f with same | ⟨-, closed⟩
  · rwa [same] at used
  · rw [closed] at used
    cases used

lemma shellRm_closes (s : Vfs) : Ends (fun _ => shellRm env arg s) (NoneLeft s) := by
  unfold shellRm
  have left := vfsUnlink_noneLeft s (env.resolve arg)
  simp only
  generalize s.vfsUnlink (env.resolve arg) = result at left
  obtain ⟨_ | _, t⟩ := result <;> exact .of_some _ (fun _ => rfl) left

lemma shellRmdir_closes (s : Vfs) : Ends (fun _ => shellRmdir env arg s) (NoneLeft s) := by
  unfold shellRmdir
  simp only
  cases s.vfsStat (env.resolve arg) with
  | none => exact .prints _ fun _ => rfl
  | some st =>
    by_cases file : st.type ≠ .directory
    · exact .prints _ fun _ => if_pos file
    · simp only [if_neg file]
      have left := vfsUnlink_noneLeft s (env.resolve arg)
      generalize s.vfsUnlink (env.resolve arg) = result at left
      obtain ⟨_ | _, t⟩ := result <;> exact .of_some _ (fun _ => rfl) left

lemma shellTouch_closes (s : Vfs) : Ends (fun _ => shellTouch env arg s) (NoneLeft s) := by
  unfold shellTouch
  simp only
  have opens := (Opened.refl s).opens (env.resolve arg) true env.block
  generalize s.vfsOpen _ _ _ = result at opens
  obtain ⟨_ | fd, t⟩ := result
  · exact .of_some _ (fun _ => rfl) opens.noneLeft
  · exact .of_some _ (fun _ => rfl) opens.1.close_last.noneLeft

lemma elfRead_noneLeft (path : Path) (s : Vfs) : NoneLeft s (elfRead env path s).2.2 := by
  unfold elfRead
  cases s.vfsStat path with
  | none => exact (Opened.refl s).noneLeft
  | some st =>
    by_cases small : st.size < 64
    · simp only [if_pos small]
      exact (Opened.refl s).noneLeft
    · simp only [if_neg small]
      have opens := (Opened.refl s).opens path false 0
      generalize s.vfsOpen path false 0 = result at opens
      obtain ⟨_ | fd, t⟩ := result
      · exact opens.noneLeft
      · have read := (opens.1.read fd st.size).close_last.noneLeft
        simp only
        split
        · exact opens.1.close_last.noneLeft
        · generalize t.vfsRead fd st.size = r at read
          obtain ⟨_ | bytes, u⟩ := r <;> exact read

lemma shellExec_closes (s : Vfs) : Ends (fun _ => shellExec env arg s) (NoneLeft s) := by
  unfold shellExec
  have left := elfRead_noneLeft env (env.resolve arg) s
  simp only
  generalize elfRead env (env.resolve arg) s = result at left
  obtain ⟨out, _ | copy, t⟩ := result
  · exact .of_some _ (fun _ => rfl) left
  · simp only
    generalize env.load copy = task
    obtain ⟨more, _ | ⟨name, id⟩⟩ := task
    · exact .of_some _ (fun _ => rfl) left
    · exact .of_some _ (fun _ => rfl) left

end

/-- `tail` leaves a descriptor open if it can open its file: the second pass opens it again, and
nothing closes that. -/
lemma shellCmdTail_leaves (args : Path) (file : (lineOption args).2 ≠ [])
    (can : CanOpen s (env.resolve (lineOption args).2)) :
    Ends (fun fuel => shellCmdTail env fuel args s) fun t => ¬NoneLeft s t := by
  unfold shellCmdTail
  simp only [if_neg file]
  rcases readFile_ends 256 (fun _ => true) (fun lines bytes => lines + bytes.count newline)
    (env.resolve (lineOption args).2) 0 s with ⟨cannot, -⟩ | ⟨-, lines, t, ⟨closed, same⟩, first, ends⟩
  · exact absurd can cannot
  · rcases vfsOpen_reading t (env.resolve (lineOption args).2) with ⟨cannot, -⟩ | ⟨-, i, fd, result⟩
    · exact absurd (can.again closed same) cannot
    · have opened := closed.opens (env.resolve (lineOption args).2) false 0
      rw [result] at opened
      replace opened := opened.1
      generalize skipped : (if (lines : Int) - (lineOption args).1.toInt < 0 then 0
        else (lines : Int) - (lineOption args).1.toInt) = skip
      obtain ⟨⟨out, line⟩, u, ⟨held, -⟩, loop⟩ :=
        readWhile_reads fd 256 (fun _ => true) (tailChunk skip) opened (([], 0) : Text × Nat)
      refine ⟨if lines = 0 ∨ line = 0 then out ++ ascii "\n" else out, u, held.not_noneLeft,
        max first (bytesLeft (t.modifyFd fd fun _ => ⟨i, 0, true⟩) fd + 1), fun fuel enough => ?_⟩
      simp only [ends fuel (Nat.le_trans (Nat.le_max_left _ _) enough), result, skipped,
        loop fuel (Nat.le_trans (Nat.le_max_right _ _) enough)]

lemma shellCmdTail_closes (args : Path)
    (cannot : (lineOption args).2 ≠ [] → ¬CanOpen s (env.resolve (lineOption args).2)) :
    Ends (fun fuel => shellCmdTail env fuel args s) (NoneLeft s) := by
  by_cases missing : (lineOption args).2 = []
  · exact .prints _ fun fuel => if_pos missing
  · rcases readFile_ends 256 (fun _ => true) (fun lines bytes => lines + bytes.count newline)
      (env.resolve (lineOption args).2) 0 s with ⟨-, failed⟩ | ⟨can, -⟩
    · refine .prints (ascii "tail: '" ++ env.resolve (lineOption args).2 ++
        ascii "': no such file\n") fun fuel => ?_
      unfold shellCmdTail
      simp only [if_neg missing, failed fuel]
    · exact absurd can (cannot missing)

/-- The command is a `tail` of a file that can be opened. -/
def ShellCommand.TailsFile (s : Vfs) : ShellCommand → Prop
  | .tail args => (lineOption args).2 ≠ [] ∧ CanOpen s (env.resolve (lineOption args).2)
  | _ => False

instance (s : Vfs) : (command : ShellCommand) → Decidable (command.TailsFile env s)
  | .tail _ => inferInstanceAs (Decidable (_ ∧ _))
  | .ls _ | .cat _ | .head _ | .wc _ | .write _ | .cp _ | .mv _ | .stat _ | .mkdir _ | .rmdir _
  | .rm _ | .touch _ | .exec _ => inferInstanceAs (Decidable False)

lemma ShellCommand.run_leaves (command : ShellCommand) (tails : command.TailsFile env s) :
    Ends (fun fuel => command.run env fuel s) fun t => ¬NoneLeft s t := by
  cases command with
  | tail args => exact shellCmdTail_leaves env args tails.1 tails.2
  | _ => exact tails.elim

lemma ShellCommand.run_closes (command : ShellCommand) (tails : ¬command.TailsFile env s) :
    Ends (fun fuel => command.run env fuel s) (NoneLeft s) := by
  cases command with
  | ls arg => exact shellCmdLs_closes env arg s
  | cat arg => exact shellCmdCat_closes env arg s
  | head args => exact shellCmdHead_closes env args s
  | tail args => exact shellCmdTail_closes env args fun file can => tails ⟨file, can⟩
  | wc arg => exact shellCmdWc_closes env arg s
  | write args => exact shellCmdWrite_closes env args s
  | cp args => exact shellCmdCp_closes env args s
  | mv args => exact shellCmdMv_closes env args s
  | stat arg => exact shellCmdStat_closes env arg s
  | mkdir arg => exact shellMkdir_closes env arg s
  | rmdir arg => exact shellRmdir_closes env arg s
  | rm arg => exact shellRm_closes env arg s
  | touch arg => exact shellTouch_closes env arg s
  | exec arg => exact shellExec_closes env arg s

/-- A line with its length, and what the kernel decides while it is executed. -/
structure ShellLine where
  env : ShellEnv
  line : Path
  len : Nat
  command : ShellCommand
  parsed : ShellCommand.parse (stripTrailing line) = some command

def ShellStep (s : Vfs) (e : ShellLine) (t : Vfs) : Prop :=
  ∃ out enough, ∀ fuel ≥ enough, shellExecute e.env fuel e.line e.len s = some (out, t)

def ShellLine.Leaves (s : Vfs) (e : ShellLine) : Prop := e.len ≠ 0 ∧ e.command.TailsFile e.env s

instance (s : Vfs) (e : ShellLine) : Decidable (e.Leaves s) := inferInstanceAs (Decidable (_ ∧ _))

lemma shellStep_unique {e : ShellLine} (first : ShellStep s e t) (second : ShellStep s e u) :
    t = u := by
  obtain ⟨out, enough, ends⟩ := first
  obtain ⟨out', enough', ends'⟩ := second
  have same := (ends _ (Nat.le_max_left enough enough')).symm.trans
    (ends' _ (Nat.le_max_right enough enough'))
  cases same
  rfl

lemma shellExecute_step (s : Vfs) (e : ShellLine) :
    ∃ t, ShellStep s e t ∧ (NoneLeft s t ↔ ¬e.Leaves s) := by
  by_cases empty : e.len = 0
  · refine ⟨s, ⟨[], 0, fun fuel _ => if_pos empty⟩, ?_⟩
    exact iff_of_true (Opened.refl s).noneLeft fun leaves => leaves.1 empty
  · have unfolded : ∀ fuel, shellExecute e.env fuel e.line e.len s = e.command.run e.env fuel s := by
      intro fuel
      unfold shellExecute
      rw [if_neg empty, e.parsed]
    by_cases tails : e.command.TailsFile e.env s
    · obtain ⟨out, t, left, enough, ends⟩ := e.command.run_leaves e.env tails
      refine ⟨t, ⟨out, enough, fun fuel large => (unfolded fuel).trans (ends fuel large)⟩, ?_⟩
      exact iff_of_false left fun closes => closes ⟨empty, tails⟩
    · obtain ⟨out, t, none, enough, ends⟩ := e.command.run_closes e.env tails
      refine ⟨t, ⟨out, enough, fun fuel large => (unfolded fuel).trans (ends fuel large)⟩, ?_⟩
      exact iff_of_true none fun leaves => tails leaves.2

lemma NoneLeft.trans (first : NoneLeft s t) (second : NoneLeft t u) : NoneLeft s u where
  closed f small free := second.closed f small (first.closed f small free)
  count := Nat.le_trans second.count first.count

/-- Every line with a command on files is executed to its end, from every state. It leaves no new
descriptor open unless it is a `tail` of a file that can be opened, and then it leaves one. So in a
session without such lines, the descriptors in use never become more. -/
theorem commands_close_descriptors_iff (s : Vfs) :
    (∀ e : ShellLine, ∃ t, ShellStep s e t ∧ (NoneLeft s t ↔ ¬e.Leaves s)) ∧
      ∀ trace t, Run ShellStep s trace t → (∀ st ∈ trace, ¬st.event.Leaves st.pre) →
        NoneLeft s t := by
  refine ⟨shellExecute_step s, fun trace t run closes => ?_⟩
  apply (run.later (fun a => (Opened.refl a).noneLeft) (fun _ _ _ => NoneLeft.trans) ?_).1
  intro st member
  obtain ⟨t, step, exact⟩ := shellExecute_step st.pre st.event
  rw [shellStep_unique (run.step_of_mem st member) step]
  exact exact.mpr (closes st member)

def oneFile : Vfs :=
  let s := ((Vfs.init fun _ => 0).vfsOpen (ascii "/a") true 0x1000).2
  (s.vfsClose 0).2

def tailLine : ShellLine where
  env := { cwd := ascii "/", block := 0x2000, buffer := true, load := fun _ => ([], none) }
  line := ascii "tail a"
  len := 6
  command := .tail (ascii "a")
  parsed := by decide

theorem tail_leaves_descriptor :
    (∃ t, ShellStep oneFile tailLine t ∧ ¬NoneLeft oneFile t) ∧ usedFds oneFile = 0 ∧
      (shellExecute tailLine.env 2 tailLine.line tailLine.len oneFile).map (fun r => usedFds r.2)
        = some 1 := by
  refine ⟨?_, by decide +kernel, by decide +kernel⟩
  obtain ⟨t, step, exact⟩ := shellExecute_step oneFile tailLine
  exact ⟨t, step, fun none => exact.mp none (by decide +kernel)⟩

end MicroOs.Shell
