import MicroOs.Fs.Fat32Io
import MicroOs.Lib.Fuel

/-!
# The reader always returns

The step counter of the loops over clusters stays below `max_clusters`, which is less than 2^32 - 1,
so that it does not wrap around; the loop of `resolve_path` uses up the path. Each call frees the
buffer that it has allocated.
-/

namespace MicroOs.Fs.Fat32Io
open Lib Fat32

variable {block : Nat} {io : Io} {path : Path} {steps : BitVec 32} {σ : Type}

namespace Host

variable {h : Host}

@[simp] lemma log_readSector (lba : BitVec 32) (io : Io) :
    (h.readSector lba io).2.log = io.log := rfl

@[simp] lemma log_nextCluster (cluster : BitVec 32) (io : Io) :
    (h.nextCluster cluster io).2.log = io.log := by
  unfold nextCluster
  simp only
  split <;> next read => exact congrArg (·.2.log) read.symm

@[simp] lemma log_readSectors (lba : BitVec 32) (n : Nat) (io : Io) :
    (h.readSectors lba n io).2.log = io.log := by
  induction n generalizing lba io with
  | zero => rfl
  | succ n ih =>
    have first := h.log_readSector lba io
    rw [readSectors]
    generalize h.readSector lba io = read at *
    rcases read with ⟨_ | sector, io'⟩
    · exact first
    · have later := (ih (lba + 1#32) io').trans first
      simp only
      generalize h.readSectors (lba + 1#32) n io' = more at *
      rcases more with ⟨_ | sectors, io''⟩
      · exact later
      · exact later

@[simp] lemma log_readCluster (cluster : BitVec 32) (io : Io) :
    (h.readCluster cluster io).2.log = io.log :=
  h.log_readSectors _ _ io

lemma maxClusters_lt (h : Host) : h.volume.maxClusters < 2 ^ 32 - 1 := by
  unfold Mount.maxClusters
  split
  · next sized =>
    have start : 0 < h.volume.dataStartLba.toNat := sized.2
    have smaller := Nat.div_le_self (0xFFFFFFFF - h.volume.dataStartLba.toNat)
      h.volume.sectorsPerCluster.toNat
    omega
  · decide

lemma toNat_steps (bounded : steps.toNat ≤ h.volume.maxClusters) :
    (steps + 1#32).toNat = steps.toNat + 1 := by
  have limit := h.maxClusters_lt
  rw [BitVec.toNat_add, BitVec.toNat_ofNat]
  omega

section

variable {σ : Type} {cb : σ → Fat32DirEnt × Path → σ} {block : Nat}

lemma iterateLoop_turn (steps cluster : BitVec 32) (lfn : Lfn) (ctx : σ) (io : Io) :
    (∃ result after, after.log = .free block :: io.log ∧
      ∀ fuel, h.iterateLoop cb block (fuel + 1) steps cluster lfn ctx io = some (result, after)) ∨
    ∃ cluster' lfn' ctx' io', (steps + 1#32).toNat ≤ h.volume.maxClusters ∧ io'.log = io.log ∧
      ∀ fuel, h.iterateLoop cb block (fuel + 1) steps cluster lfn ctx io =
        h.iterateLoop cb block fuel (steps + 1#32) cluster' lfn' ctx' io' := by
  simp only [iterateLoop]
  split
  · exact .inl ⟨_, _, rfl, fun _ => rfl⟩
  · split
    · exact .inl ⟨_, _, rfl, fun _ => rfl⟩
    · next limit =>
      have read := h.log_readCluster cluster io
      generalize h.readCluster cluster io = answer at *
      rcases answer with ⟨_ | sectors, io'⟩
      · exact .inl ⟨_, _, congrArg _ read, fun _ => rfl⟩
      · simp only
        rcases scan lfn (sectors.flatMap sectorSlots) with ⟨calls, _ | lfn'⟩
        · exact .inl ⟨_, _, congrArg _ read, fun _ => rfl⟩
        · exact .inr ⟨_, _, _, _, Nat.le_of_not_lt limit, (h.log_nextCluster cluster io').trans read,
            fun _ => rfl⟩

lemma iterateLoop_returns (left : Nat) (counted : steps.toNat + left = h.volume.maxClusters)
    (cluster : BitVec 32) (lfn : Lfn) (ctx : σ) (io : Io) :
    ∃ result after, after.log = .free block :: io.log ∧
      Returns (fun fuel => h.iterateLoop cb block fuel steps cluster lfn ctx io)
        (result, after) := by
  induction left generalizing steps cluster lfn ctx io with
  | zero =>
    rcases h.iterateLoop_turn steps cluster lfn ctx io with
      ⟨_, _, freed, exits⟩ | ⟨_, _, _, _, le, _⟩
    · exact ⟨_, _, freed, .of_turn exits⟩
    · rw [h.toNat_steps (by omega)] at le
      omega
  | succ left ih =>
    rcases h.iterateLoop_turn steps cluster lfn ctx io with
      ⟨_, _, freed, exits⟩ | ⟨cluster', lfn', ctx', io', -, kept, goes⟩
    · exact ⟨_, _, freed, .of_turn exits⟩
    · have counted' : (steps + 1#32).toNat + left = h.volume.maxClusters := by
        rw [h.toNat_steps (by omega)]
        omega
      obtain ⟨result, after, freed, returns⟩ := ih counted' cluster' lfn' ctx' io'
      exact ⟨result, after, kept ▸ freed, .of_next goes returns⟩

end

/-- The call returns, with the heap blocks that were live before it. -/
def Releases {α : Type} (io : Io) (call : Nat → Option (α × Io)) : Prop :=
  ∃ result after, live after.log = live io.log ∧ Returns call (result, after)

lemma live_freed {after : Io} (freed : after.log = .free block :: .alloc block :: io.log) :
    live after.log = live io.log := by
  rw [freed, live, live, List.erase_cons_head]

lemma iterateDir_releases (cb : σ → Fat32DirEnt × Path → σ) (cluster : BitVec 32) (ctx : σ)
    (io : Io) : Releases io (fun fuel => h.iterateDir cb fuel cluster ctx io) := by
  unfold iterateDir allocate
  rcases h.kmalloc io.mallocs with _ | block
  · exact ⟨_, { io with mallocs := io.mallocs + 1 }, rfl, 0, fun _ _ => rfl⟩
  · have counted : (0#32).toNat + h.volume.maxClusters = h.volume.maxClusters := Nat.zero_add _
    obtain ⟨result, after, freed, returns⟩ := h.iterateLoop_returns h.volume.maxClusters counted
      cluster Lfn.reset ctx { io with mallocs := io.mallocs + 1, log := .alloc block :: io.log }
    exact ⟨result, after, live_freed freed, returns⟩

lemma length_skipSlash_le (path : Path) : (skipSlash path).length ≤ path.length := by
  cases path with
  | nil => exact Nat.le_refl _
  | cons c path =>
    rw [skipSlash]
    split
    · exact Nat.le_succ _
    · exact Nat.le_refl _

lemma length_afterComponent (nonempty : path ≠ []) :
    (afterComponent path).length < path.length := by
  obtain ⟨c, path, rfl⟩ := List.exists_cons_of_ne_nil nonempty
  by_cases atSlash : c = slash
  · have empty : component (c :: path) = [] := by
      simp [component, fat32MaxName, atSlash]
    rw [afterComponent, empty, List.length_nil, List.drop_zero, skipSlash, if_pos atSlash]
    exact Nat.lt_succ_self _
  · have some_char : 0 < (component (c :: path)).length := by
      simp [component, fat32MaxName, atSlash]
    have shorter := length_skipSlash_le ((c :: path).drop (component (c :: path)).length)
    rw [List.length_drop, List.length_cons] at shorter
    rw [afterComponent, List.length_cons]
    omega

lemma resolveLoop_releases (n : Nat) (size : path.length ≤ n) (current : BitVec 32)
    (out : Fat32DirEnt) (io : Io) :
    ∃ result after, live after.log = live io.log ∧
      ∃ enough, ∀ fuel turns, enough ≤ fuel → path.length < turns + 1 →
        h.resolveLoop fuel (turns + 1) path current out io = some (result, after) := by
  induction n generalizing path current out io with
  | zero =>
    have empty : path = [] := List.length_eq_zero_iff.mp (Nat.le_zero.mp size)
    exact ⟨some out, io, rfl, 0, fun fuel turns _ _ => by rw [resolveLoop, if_pos empty]⟩
  | succ n ih =>
    by_cases empty : path = []
    · exact ⟨some out, io, rfl, 0, fun fuel turns _ _ => by rw [resolveLoop, if_pos empty]⟩
    · have shorter := length_afterComponent empty
      obtain ⟨⟨found, ok⟩, io', kept, enough, walks⟩ :=
        h.iterateDir_releases (findCb (component path)) current none io
      beta_reduce at walks
      simp only [resolveLoop, if_neg empty]
      cases ok with
      | false =>
        refine ⟨none, io', kept, enough, fun fuel turns le _ => ?_⟩
        rw [walks fuel le]
        rfl
      | true =>
        cases found with
        | none =>
          refine ⟨none, io', kept, enough, fun fuel turns le _ => ?_⟩
          rw [walks fuel le]
          rfl
        | some ent =>
          by_cases stops : afterComponent path ≠ [] ∧ (!ent.isDirectory) = true
          · refine ⟨none, io', kept, enough, fun fuel turns le _ => ?_⟩
            rw [walks fuel le, Option.bind_some]
            exact if_pos stops
          · obtain ⟨result, after, kept', enough', goes⟩ :=
              ih (show (afterComponent path).length ≤ n by omega) ent.entryCluster ent io'
            refine ⟨result, after, kept'.trans kept, max enough enough',
              fun fuel turns le more => ?_⟩
            have more' : (afterComponent path).length < turns := by omega
            obtain ⟨turns, rfl⟩ : ∃ less, turns = less + 1 := ⟨turns - 1, by omega⟩
            rw [walks fuel (by omega), Option.bind_some, ← goes fuel turns (by omega) more']
            exact if_neg stops

lemma resolvePath_releases (path : Path) (io : Io) :
    Releases io (fun fuel => h.resolvePath fuel path io) := by
  unfold resolvePath
  split
  · exact ⟨_, _, rfl, .const _⟩
  · obtain ⟨result, after, kept, enough, gives⟩ := h.resolveLoop_releases _
      (Nat.le_refl (skipSlash path).length) h.rootCluster h.volume.rootEntry io
    refine ⟨result, after, kept, .of_succ ⟨max enough (skipSlash path).length, fun fuel le => ?_⟩⟩
    exact gives (fuel + 1) fuel (by omega) (by omega)

lemma Releases.bind {α β : Type} {call : Nat → Option (α × Io)}
    {next : Nat → α × Io → Option (β × Io)} (first : Releases io call)
    (second : ∀ result io', Releases io' (fun fuel => next fuel (result, io'))) :
    Releases io (fun fuel => (call fuel).bind (next fuel)) := by
  obtain ⟨result, io', kept, returns⟩ := first
  obtain ⟨last, after, kept', returns'⟩ := second result io'
  exact ⟨last, after, kept'.trans kept, returns.bind returns'⟩

lemma fat32Readdir_releases (path : Path) (cb : σ → Fat32DirEntry → σ) (ctx : σ) (io : Io) :
    Releases io (fun fuel => h.fat32Readdir fuel path cb ctx io) := by
  unfold fat32Readdir
  split
  · exact ⟨_, _, rfl, .const _⟩
  · refine (h.resolvePath_releases path io).bind fun found io' => ?_
    rcases found with _ | dir
    · exact ⟨_, _, rfl, .const _⟩
    · simp only
      split
      · exact ⟨_, _, rfl, .const _⟩
      · exact h.iterateDir_releases _ _ _ _

lemma fat32Stat_releases (path : Path) (io : Io) :
    Releases io (fun fuel => h.fat32Stat fuel path io) := by
  unfold fat32Stat
  split
  · exact ⟨_, _, rfl, .const _⟩
  · obtain ⟨result, after, kept, returns⟩ := h.resolvePath_releases path io
    rcases result with _ | ent
    · exact ⟨none, after, kept, returns.map⟩
    · exact ⟨_, after, kept, returns.map⟩

end Host

end MicroOs.Fs.Fat32Io
