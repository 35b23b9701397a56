import MicroOs.Fs.MkFat32
import MicroOs.Fs.Proofs.Fat32Address
import MicroOs.Fs.Proofs.Fat32Total

/-!
# What `fat32_read_file` delivers

The number that `fat32_read_file` returns is computed before the chain is walked. The loop ends
early where the chain does, and also where the FAT sector with the next link cannot be read; the
bytes from there on are missing from the buffer.
-/

namespace MicroOs.Fs.Fat32Io
open List
open Lib Fat32

variable {after io : Io} {block n : Nat} {bufSize lba steps : BitVec 32} {ent : Fat32DirEnt}
  {h : Host} {ok : Bool} {path : Path}

namespace Host

variable {h : Host}

def clusterBytes (h : Host) (cluster : BitVec 32) : List Byte :=
  (range h.sectorsPerCluster.toNat).flatMap fun s =>
    window (h.image (h.volume.clusterToLba cluster + BitVec.ofNat 32 s)) 0 512

/-- The bytes of the first `k` clusters on the FAT chain of the image, or of all of them. -/
def fileBytes (h : Host) : Nat → BitVec 32 → List Byte
  | 0, _ => []
  | k + 1, cluster =>
    if Mount.inChain cluster then
      h.clusterBytes cluster ++ h.fileBytes k (h.volume.nextCluster cluster)
    else []

def clusterSize (h : Host) : Nat := h.sectorsPerCluster.toNat * 512

lemma length_clusterBytes (cluster : BitVec 32) :
    (h.clusterBytes cluster).length = h.clusterSize := by
  simp [clusterBytes, clusterSize, length_flatMap]

/-- No sector of the cluster fails if its first one is the read `n`. -/
def ReadsCluster (h : Host) (n : Nat) (cluster : BitVec 32) : Prop :=
  ∀ s < h.sectorsPerCluster.toNat,
    h.fails (n + s) (h.volume.clusterToLba cluster + BitVec.ofNat 32 s) = false

/-- The read of the link fails that follows on the reads of the cluster. -/
def LinkFails (h : Host) (n : Nat) (cluster : BitVec 32) : Prop :=
  h.fails (n + h.sectorsPerCluster.toNat) (h.volume.fatLba cluster) = true

lemma readSectors_succ (lba : BitVec 32) (n : Nat) (io : Io) :
    h.readSectors lba (n + 1) io =
      if h.fails io.reads lba then (none, { io with reads := io.reads + 1 })
      else
        match h.readSectors (lba + 1#32) n { io with reads := io.reads + 1 } with
        | (none, io) => (none, io)
        | (some later, io) => (some (h.image lba :: later), io) := by
  rw [readSectors, readSector]
  by_cases failed : h.fails io.reads lba = true
  · simp only [failed, if_true]
  · simp only [failed, Bool.false_eq_true, if_false] <;> rfl

lemma readSectors_eq (good : ∀ s < n, h.fails (io.reads + s) (lba + BitVec.ofNat 32 s) = false) :
    h.readSectors lba n io =
      (some ((range n).map fun s => h.image (lba + BitVec.ofNat 32 s)),
        { io with reads := io.reads + n }) := by
  induction n generalizing lba io with
  | zero => rfl
  | succ n ih =>
    have first : h.fails io.reads lba = false := by simpa using good 0 (Nat.succ_pos n)
    have later : h.readSectors (lba + 1#32) n { io with reads := io.reads + 1 } = _ := ih (by
      intro s less
      show h.fails (io.reads + 1 + s) _ = false
      rw [next_lba_add, Nat.add_assoc, Nat.add_comm 1]
      exact good (s + 1) (by omega))
    rw [readSectors_succ, first, later, range_succ_eq_map, map_cons, map_map]
    simp [Function.comp_def, next_lba_add, Nat.add_assoc, Nat.add_comm 1]

lemma readSectors_fails
    (bad : ¬∀ s < n, h.fails (io.reads + s) (lba + BitVec.ofNat 32 s) = false) :
    (h.readSectors lba n io).1 = none := by
  induction n generalizing lba io with
  | zero => exact absurd (fun s less => absurd less (Nat.not_lt_zero s)) bad
  | succ n ih =>
    rw [readSectors_succ]
    by_cases first : h.fails io.reads lba = true
    · rw [if_pos first]
    · rw [if_neg first]
      have later : (h.readSectors (lba + 1#32) n { io with reads := io.reads + 1 }).1 = none := ih (by
        intro good
        apply bad
        intro s less
        cases s with
        | zero => simpa using first
        | succ s =>
          have here := good s (by omega)
          rwa [next_lba_add, Nat.add_assoc, Nat.add_comm 1] at here)
      generalize h.readSectors (lba + 1#32) n { io with reads := io.reads + 1 } = more at *
      rcases more with ⟨_ | sectors, io'⟩
      · rfl
      · cases later

lemma nextCluster_eq (cluster : BitVec 32) (io : Io) :
    h.nextCluster cluster io =
      (if h.fails io.reads (h.volume.fatLba cluster) then fat32Eoc else h.volume.nextCluster cluster,
        { io with reads := io.reads + 1 }) := by
  have address : h.fatStartLba + cluster * 4#32 / 512#32 = h.volume.fatLba cluster := rfl
  rw [nextCluster, readSector]
  simp only [address]
  by_cases failed : h.fails io.reads (h.volume.fatLba cluster) = true
  · simp only [failed, if_true]
  · simp only [failed, Bool.false_eq_true, if_false]
    rfl

def readsPerCluster (h : Host) : Nat := h.sectorsPerCluster.toNat + 1

def chainAt (h : Host) (cluster : BitVec 32) : Nat → BitVec 32
  | 0 => cluster
  | k + 1 => h.chainAt (h.volume.nextCluster cluster) k

/-- The walk from `cluster`, begun with the read `n`, reads `k` clusters and comes to the end of the
chain, or loses the link to the next cluster, while bytes of the first `size` ones are missing. -/
structure EndsAt (h : Host) (limit n : Nat) (cluster : BitVec 32) (size k : Nat) : Prop where
  within : k ≤ limit
  needed : k * h.clusterSize < size
  chain : ∀ j < k, Mount.inChain (h.chainAt cluster j) = true
  read : ∀ j < k, h.ReadsCluster (n + j * h.readsPerCluster) (h.chainAt cluster j)
  linked : ∀ j, j + 1 < k → ¬h.LinkFails (n + j * h.readsPerCluster) (h.chainAt cluster j)
  stop : Mount.inChain (h.chainAt cluster k) = false ∨
    ∃ j, k = j + 1 ∧ h.LinkFails (n + j * h.readsPerCluster) (h.chainAt cluster j)

def EndsEarly (h : Host) (limit n : Nat) (cluster : BitVec 32) (size : Nat) : Prop :=
  ∃ k, h.EndsAt limit n cluster size k

variable {limit n size k : Nat} {cluster : BitVec 32}

lemma EndsEarly.needs (early : h.EndsEarly limit n cluster size) : 0 < size := by
  obtain ⟨k, ends⟩ := early
  exact Nat.zero_lt_of_lt ends.needed

lemma endsEarly_of_out (needs : 0 < size) (out : Mount.inChain cluster = false) :
    h.EndsEarly limit n cluster size :=
  ⟨0, Nat.zero_le _, by simpa using needs, nofun, nofun, nofun, .inl out⟩

lemma not_endsAt_zero (inside : Mount.inChain cluster = true) :
    ¬h.EndsAt limit n cluster size 0 := by
  intro ends
  rcases ends.stop with out | ⟨j, impossible, -⟩
  · rw [chainAt, inside] at out
    cases out
  · cases impossible

lemma not_endsEarly_zero (inside : Mount.inChain cluster = true) :
    ¬h.EndsEarly 0 n cluster size := by
  rintro ⟨k, ends⟩
  obtain rfl : k = 0 := Nat.le_zero.mp ends.within
  exact not_endsAt_zero inside ends

lemma reads_shift (h : Host) (n j : Nat) :
    n + h.readsPerCluster + j * h.readsPerCluster = n + (j + 1) * h.readsPerCluster := by
  rw [Nat.add_one_mul]
  omega

lemma EndsAt.tail (ends : h.EndsAt (limit + 1) n cluster size (k + 1))
    (link : ¬h.LinkFails n cluster) :
    h.EndsAt limit (n + h.readsPerCluster) (h.volume.nextCluster cluster) (size - h.clusterSize)
      k := by
  have shift := h.reads_shift n
  constructor
  case within => exact Nat.le_of_succ_le_succ ends.within
  case needed =>
    have needed := ends.needed
    rw [Nat.add_one_mul] at needed
    omega
  case chain => exact fun j less => ends.chain (j + 1) (by omega)
  case read => exact fun j less => shift j ▸ ends.read (j + 1) (by omega)
  case linked => exact fun j less => shift j ▸ ends.linked (j + 1) (by omega)
  case stop =>
    rcases ends.stop with out | ⟨j, same, fails⟩
    · exact .inl out
    · obtain rfl : k = j := Nat.succ.inj same
      cases k with
      | zero => exact absurd (by simpa [chainAt] using fails) link
      | succ k => exact .inr ⟨k, rfl, shift k ▸ fails⟩

lemma EndsAt.cons
    (ends : h.EndsAt limit (n + h.readsPerCluster) (h.volume.nextCluster cluster)
      (size - h.clusterSize) k)
    (inside : Mount.inChain cluster = true) (read : h.ReadsCluster n cluster)
    (link : ¬h.LinkFails n cluster) : h.EndsAt (limit + 1) n cluster size (k + 1) := by
  have shift := h.reads_shift n
  constructor
  case within => exact Nat.succ_le_succ ends.within
  case needed =>
    have needed := ends.needed
    rw [Nat.add_one_mul]
    omega
  case chain =>
    intro j less
    cases j with
    | zero => exact inside
    | succ j => exact ends.chain j (by omega)
  case read =>
    intro j less
    cases j with
    | zero => simpa [chainAt] using read
    | succ j => exact shift j ▸ ends.read j (by omega)
  case linked =>
    intro j less
    cases j with
    | zero => simpa [chainAt] using link
    | succ j => exact shift j ▸ ends.linked j (by omega)
  case stop =>
    rcases ends.stop with out | ⟨j, same, fails⟩
    · exact .inl out
    · exact .inr ⟨j + 1, congrArg Nat.succ same, shift j ▸ fails⟩

lemma endsEarly_of_link (inside : Mount.inChain cluster = true) (read : h.ReadsCluster n cluster)
    (needed : h.clusterSize < size) (link : h.LinkFails n cluster) :
    h.EndsEarly (limit + 1) n cluster size := by
  refine ⟨1, by omega, by rwa [Nat.one_mul], fun j less => ?_, fun j less => ?_, fun j less => ?_,
    .inr ⟨0, rfl, by simpa [chainAt] using link⟩⟩
  · obtain rfl : j = 0 := by omega
    exact inside
  · obtain rfl : j = 0 := by omega
    simpa [chainAt] using read
  · omega

lemma endsEarly_succ_iff (inside : Mount.inChain cluster = true) :
    h.EndsEarly (limit + 1) n cluster size ↔
      h.ReadsCluster n cluster ∧ h.clusterSize < size ∧
        (h.LinkFails n cluster ∨
          h.EndsEarly limit (n + h.readsPerCluster) (h.volume.nextCluster cluster)
            (size - h.clusterSize)) := by
  constructor
  · rintro ⟨k, ends⟩
    cases k with
    | zero => exact absurd ends (not_endsAt_zero inside)
    | succ k =>
      refine ⟨by simpa [chainAt] using ends.read 0 (by omega), ?_, ?_⟩
      · have needed := ends.needed
        rw [Nat.add_one_mul] at needed
        omega
      · by_cases link : h.LinkFails n cluster
        · exact .inl link
        · exact .inr ⟨k, ends.tail link⟩
  · rintro ⟨read, needed, rest⟩
    by_cases link : h.LinkFails n cluster
    · exact endsEarly_of_link inside read needed link
    · obtain ⟨k, ends⟩ := rest.resolve_left link
      exact ⟨k + 1, ends.cons inside read link⟩

/-- What the loop has copied: too little if it ends early, and all that is asked for if it ends
otherwise without an error. -/
structure Copies (h : Host) (limit n : Nat) (cluster : BitVec 32) (size : Nat) (copied : List Byte)
    (ok : Bool) : Prop where
  short : h.EndsEarly limit n cluster size → ok = true ∧ copied.length < size
  whole : ¬h.EndsEarly limit n cluster size → ok = true →
    copied.length = size ∧ ∃ k, copied <+: h.fileBytes k cluster

namespace Copies

lemma nothing (n : Nat) (cluster : BitVec 32) : h.Copies limit n cluster 0 [] true :=
  ⟨fun early => absurd early.needs (Nat.lt_irrefl 0),
    fun _ _ => ⟨rfl, 0, nil_prefix⟩⟩

lemma of_out (needs : 0 < size) (out : Mount.inChain cluster = false) :
    h.Copies limit n cluster size [] true :=
  ⟨fun _ => ⟨rfl, needs⟩, fun late => absurd (endsEarly_of_out needs out) late⟩

lemma of_error (late : ¬h.EndsEarly limit n cluster size) (copied : List Byte) :
    h.Copies limit n cluster size copied false :=
  ⟨fun early => absurd early late, fun _ impossible => by cases impossible⟩

lemma cons {later : List Byte} (inside : Mount.inChain cluster = true)
    (read : h.ReadsCluster n cluster)
    (rest : h.Copies limit (n + h.readsPerCluster)
      (if h.fails (n + h.sectorsPerCluster.toNat) (h.volume.fatLba cluster) then fat32Eoc
        else h.volume.nextCluster cluster) (size - h.clusterSize) later ok) :
    h.Copies (limit + 1) n cluster size ((h.clusterBytes cluster).take size ++ later) ok := by
  have length : ((h.clusterBytes cluster).take size).length = min size h.clusterSize := by
    rw [length_take, length_clusterBytes]
  by_cases last : size ≤ h.clusterSize
  · -- the last cluster: nothing is left to copy
    have late : ¬h.EndsEarly (limit + 1) n cluster size := by
      rw [endsEarly_succ_iff inside]
      omega
    refine ⟨fun early => absurd early late, fun _ good => ?_⟩
    have none_left : ¬h.EndsEarly limit (n + h.readsPerCluster) (if h.fails
        (n + h.sectorsPerCluster.toNat) (h.volume.fatLba cluster) then fat32Eoc
        else h.volume.nextCluster cluster) (size - h.clusterSize) := by
      intro early
      have := early.needs
      omega
    obtain ⟨nothing, -⟩ := rest.whole none_left good
    obtain rfl : later = [] := length_eq_zero_iff.mp (by omega)
    refine ⟨by rw [append_nil, length]; omega, 1, ?_⟩
    simpa [fileBytes, inside] using take_prefix size (h.clusterBytes cluster)
  · have all : (h.clusterBytes cluster).take size = h.clusterBytes cluster :=
      take_of_length_le (by rw [length_clusterBytes]; omega)
    rw [all]
    by_cases link : h.LinkFails n cluster
    · -- the walk goes on as if the chain had ended
      rw [LinkFails] at link
      rw [if_pos link] at rest
      have early : h.EndsEarly (limit + 1) n cluster size :=
        endsEarly_of_link inside read (by omega) link
      have short := rest.short (endsEarly_of_out (by omega) (by decide))
      refine ⟨fun _ => ⟨short.1, ?_⟩, fun late => absurd early late⟩
      rw [length_append, length_clusterBytes]
      omega
    · have read_link : ¬h.fails (n + h.sectorsPerCluster.toNat) (h.volume.fatLba cluster) = true := link
      rw [if_neg read_link] at rest
      have same : h.EndsEarly (limit + 1) n cluster size ↔ h.EndsEarly limit
          (n + h.readsPerCluster) (h.volume.nextCluster cluster) (size - h.clusterSize) := by
        rw [endsEarly_succ_iff inside]
        exact ⟨fun h => h.2.2.resolve_left link, fun h => ⟨read, by omega, .inr h⟩⟩
      constructor
      · intro early
        obtain ⟨good, short⟩ := rest.short (same.mp early)
        refine ⟨good, ?_⟩
        rw [length_append, length_clusterBytes]
        omega
      · intro late good
        obtain ⟨whole, k, found⟩ := rest.whole (mt same.mpr late) good
        refine ⟨by rw [length_append, length_clusterBytes]; omega, k + 1, ?_⟩
        rw [fileBytes, if_pos inside]
        exact (prefix_append_right_inj _).mpr found

end Copies

lemma readLoop_read {fuel remaining : Nat} (asked : remaining ≠ 0)
    (inside : Mount.inChain cluster = true) (limit : ¬h.volume.maxClusters < (steps + 1#32).toNat)
    (read : h.ReadsCluster io.reads cluster) :
    h.readLoop block (fuel + 1) steps cluster remaining io =
      (h.readLoop block fuel (steps + 1#32)
        (if h.fails (io.reads + h.sectorsPerCluster.toNat) (h.volume.fatLba cluster) then fat32Eoc
          else h.volume.nextCluster cluster)
        (remaining - h.clusterSize) { io with reads := io.reads + h.readsPerCluster }).map
        fun ((later, ok), io) => (((h.clusterBytes cluster).take remaining ++ later, ok), io) := by
  have sectors : h.readCluster cluster io = _ := h.readSectors_eq read
  have rest : remaining - ((h.clusterBytes cluster).take remaining).length =
      remaining - h.clusterSize := by
    rw [length_take, length_clusterBytes]
    omega
  have bytes : (((range h.sectorsPerCluster.toNat).map fun s =>
      h.image (h.volume.clusterToLba cluster + BitVec.ofNat 32 s)).flatMap fun sector =>
        window sector 0 512) = h.clusterBytes cluster := by
    rw [flatMap_map]
    rfl
  simp only [readLoop, asked, inside, limit, sectors, nextCluster_eq, bytes, rest]
  simp [readsPerCluster, Nat.add_assoc]

/-- The loop frees the buffer and gives these bytes, and this answer to the question whether it ran
to its end. -/
def LoopCopies (h : Host) (block limit : Nat) (steps cluster : BitVec 32) (remaining : Nat)
    (io : Io) : Prop :=
  ∃ copied ok after, after.log = .free block :: io.log ∧
    h.Copies limit io.reads cluster remaining copied ok ∧
    Returns (fun fuel => h.readLoop block fuel steps cluster remaining io) ((copied, ok), after)

section

variable {block left remaining : Nat} {steps : BitVec 32} {io : Io}

lemma loopCopies_of_done (done : remaining = 0 ∨ Mount.inChain cluster = false) :
    h.LoopCopies block limit steps cluster remaining io := by
  refine ⟨[], true, io.kfree block, rfl, ?_, .of_turn fun fuel => ?_⟩
  · by_cases asked : remaining = 0
    · subst asked
      exact .nothing _ _
    · exact .of_out (Nat.pos_of_ne_zero asked) (done.resolve_left asked)
  · exact if_pos (by simpa using done)

lemma loopCopies_of_error (asked : remaining ≠ 0) (inside : Mount.inChain cluster = true)
    (error : h.volume.maxClusters < (steps + 1#32).toNat ∨ ¬h.ReadsCluster io.reads cluster)
    (late : ¬h.EndsEarly limit io.reads cluster remaining) :
    h.LoopCopies block limit steps cluster remaining io := by
  have goes : ¬(remaining = 0 ∨ (!Mount.inChain cluster) = true) := by simp [asked, inside]
  by_cases beyond : h.volume.maxClusters < (steps + 1#32).toNat
  · refine ⟨[], false, io.kfree block, rfl, .of_error late [], .of_turn fun fuel => ?_⟩
    exact (if_neg goes).trans (if_pos beyond)
  · have failed : (h.readCluster cluster io).1 = none :=
      readSectors_fails (error.resolve_left beyond)
    refine ⟨[], false, (h.readCluster cluster io).2.kfree block,
      congrArg _ (h.log_readCluster cluster io), .of_error late [],
      .of_turn fun fuel => (if_neg goes).trans ((if_neg beyond).trans ?_)⟩
    generalize h.readCluster cluster io = answer at *
    obtain ⟨_ | sectors, io'⟩ := answer
    · rfl
    · cases failed

lemma loopCopies_of_read (asked : remaining ≠ 0) (inside : Mount.inChain cluster = true)
    (within : (steps + 1#32).toNat ≤ h.volume.maxClusters) (read : h.ReadsCluster io.reads cluster)
    (rest : h.LoopCopies block left (steps + 1#32)
      (if h.fails (io.reads + h.sectorsPerCluster.toNat) (h.volume.fatLba cluster) then fat32Eoc
        else h.volume.nextCluster cluster)
      (remaining - h.clusterSize) { io with reads := io.reads + h.readsPerCluster }) :
    h.LoopCopies block (left + 1) steps cluster remaining io := by
  obtain ⟨later, ok, after, freed, copies, returns⟩ := rest
  exact ⟨_, ok, after, freed, copies.cons inside read,
    .of_next (fun fuel => readLoop_read asked inside (Nat.not_lt.mpr within) read) returns.map⟩

end

lemma readLoop_copies (block left : Nat) (counted : steps.toNat + left = h.volume.maxClusters)
    (cluster : BitVec 32) (remaining : Nat) (io : Io) :
    h.LoopCopies block left steps cluster remaining io := by
  induction left generalizing steps cluster remaining io with
  | zero =>
    have counter := h.toNat_steps (show steps.toNat ≤ h.volume.maxClusters by omega)
    by_cases done : remaining = 0 ∨ Mount.inChain cluster = false
    · exact loopCopies_of_done done
    · obtain ⟨asked, inside⟩ : remaining ≠ 0 ∧ Mount.inChain cluster = true := by simpa using done
      exact loopCopies_of_error asked inside (.inl (by omega)) (not_endsEarly_zero inside)
  | succ left ih =>
    have counter := h.toNat_steps (show steps.toNat ≤ h.volume.maxClusters by omega)
    by_cases done : remaining = 0 ∨ Mount.inChain cluster = false
    · exact loopCopies_of_done done
    · obtain ⟨asked, inside⟩ : remaining ≠ 0 ∧ Mount.inChain cluster = true := by simpa using done
      by_cases read : h.ReadsCluster io.reads cluster
      · exact loopCopies_of_read asked inside (by omega) read (ih (by omega) _ _ _)
      · exact loopCopies_of_error asked inside (.inr read) fun early =>
          read ((endsEarly_succ_iff inside).mp early).1

lemma readLoop_start (block : Nat) (cluster : BitVec 32) (remaining : Nat) (io : Io) :
    h.LoopCopies block h.volume.maxClusters 0#32 cluster remaining io :=
  have counted : (0#32).toNat + h.volume.maxClusters = h.volume.maxClusters := Nat.zero_add _
  readLoop_copies block _ counted cluster remaining io

lemma fat32ReadFile_releases (path : Path) (bufSize : BitVec 32) (io : Io) :
    Releases io (fun fuel => h.fat32ReadFile fuel path bufSize io) := by
  unfold fat32ReadFile
  split
  · exact ⟨_, _, rfl, .const _⟩
  · refine (h.resolvePath_releases path io).bind fun found io' => ?_
    rcases found with _ | ent
    · exact ⟨_, _, rfl, .const _⟩
    · simp only [allocate]
      split
      · exact ⟨_, _, rfl, .const _⟩
      · rcases h.kmalloc io'.mallocs with _ | block
        · exact ⟨_, { io' with mallocs := io'.mallocs + 1 }, rfl, 0, fun _ _ => rfl⟩
        · obtain ⟨copied, ok, after, freed, -, returns⟩ := h.readLoop_start block
            ent.entryCluster (if bufSize < ent.fileSize then bufSize else ent.fileSize).toNat
            { io' with mallocs := io'.mallocs + 1, log := .alloc block :: io'.log }
          exact ⟨_, after, live_freed freed, returns.map⟩

end Host

/-- Every call returns and frees its buffer, on any image and whichever reads and allocations
fail. -/
theorem fat32_calls_return_and_release (h : Host) (io : Io) :
    (∀ (σ : Type) (cb : σ → Fat32DirEnt × Path → σ) (cluster : BitVec 32) (ctx : σ),
      Host.Releases io (fun fuel => h.iterateDir cb fuel cluster ctx io)) ∧
    (∀ (σ : Type) (path : Path) (cb : σ → Fat32DirEntry → σ) (ctx : σ),
      Host.Releases io (fun fuel => h.fat32Readdir fuel path cb ctx io)) ∧
    (∀ path, Host.Releases io (fun fuel => h.fat32Stat fuel path io)) ∧
    ∀ path bufSize, Host.Releases io (fun fuel => h.fat32ReadFile fuel path bufSize io) :=
  ⟨fun _ cb cluster ctx => h.iterateDir_releases cb cluster ctx io,
    fun _ path cb ctx => h.fat32Readdir_releases path cb ctx io,
    fun path => h.fat32Stat_releases path io,
    fun path bufSize => h.fat32ReadFile_releases path bufSize io⟩

def Resolves (h : Host) (path : Path) (io : Io) (ent : Fat32DirEnt) (after : Io) : Prop :=
  Returns (fun fuel => h.resolvePath fuel path io) (some ent, after)

/-- The number of bytes that are asked for (`fat32.c:476-477`). -/
def readSize (ent : Fat32DirEnt) (bufSize : BitVec 32) : BitVec 32 :=
  if bufSize < ent.fileSize then bufSize else ent.fileSize

/-- The result is the number of bytes in the buffer, which are the first ones on the chain. -/
structure Delivers (h : Host) (first : BitVec 32) (bufSize : BitVec 32) (result : Int)
    (copied : List Byte) : Prop where
  fits : result ≤ bufSize.toNat
  length : copied.length = result
  content : ∃ k, copied <+: h.fileBytes k first

/-- The loop is begun, for a number of bytes below 2^31, and ends early. -/
def StopsShort (h : Host) (path : Path) (bufSize : BitVec 32) (io : Io) : Prop :=
  h.mounted = true ∧ ∃ ent after, Resolves h path io ent after ∧ ent.isDirectory = false ∧
    (h.kmalloc after.mallocs).isSome = true ∧ (readSize ent bufSize).toNat < 2 ^ 31 ∧
    h.EndsEarly h.volume.maxClusters after.reads ent.entryCluster (readSize ent bufSize).toNat

lemma readSize_le (ent : Fat32DirEnt) (bufSize : BitVec 32) :
    (readSize ent bufSize).toNat ≤ bufSize.toNat := by
  unfold readSize
  split
  · exact Nat.le_refl _
  · next larger => exact BitVec.le_def.mp (BitVec.not_lt.mp larger)

lemma toInt_eq_toNat {size : BitVec 32} (small : size.toNat < 2 ^ 31) :
    size.toInt = size.toNat := by
  rw [BitVec.toInt_eq_toNat_cond]
  split <;> omega

lemma toNat_lt_of_toInt {size : BitVec 32} (nonneg : 0 ≤ size.toInt) : size.toNat < 2 ^ 31 := by
  rw [BitVec.toInt_eq_toNat_cond] at nonneg
  split at nonneg <;> omega

lemma Host.Copies.delivers_iff
    {copied : List Byte}
    (copies : h.Copies h.volume.maxClusters n ent.entryCluster (readSize ent bufSize).toNat copied
      ok) :
    (0 ≤ (if ok then (readSize ent bufSize).toInt else -1) →
      Delivers h ent.entryCluster bufSize (if ok then (readSize ent bufSize).toInt else -1) copied) ↔
    ¬((readSize ent bufSize).toNat < 2 ^ 31 ∧
      h.EndsEarly h.volume.maxClusters n ent.entryCluster (readSize ent bufSize).toNat) := by
  constructor
  · rintro delivers ⟨small, early⟩
    obtain ⟨rfl, short⟩ := copies.short early
    rw [if_pos rfl, toInt_eq_toNat small] at delivers
    have length := (delivers (Int.natCast_nonneg _)).length
    omega
  · intro late nonneg
    cases ok with
    | false =>
      rw [if_neg Bool.false_ne_true] at nonneg
      exact absurd nonneg (by decide)
    | true =>
      rw [if_pos rfl] at nonneg ⊢
      have small := toNat_lt_of_toInt nonneg
      obtain ⟨whole, content⟩ := copies.whole (fun early => late ⟨small, early⟩) rfl
      rw [toInt_eq_toNat small]
      exact ⟨Int.ofNat_le.mpr (readSize_le ent bufSize), congrArg _ whole, content⟩

lemma not_stopsShort {found : Option Fat32DirEnt}
    (resolves : Returns (fun fuel => h.resolvePath fuel path io) (found, after))
    (refused : ∀ ent, found = some ent → ent.isDirectory = true ∨ h.kmalloc after.mallocs = none) :
    ¬StopsShort h path bufSize io := by
  rintro ⟨-, ent, after', resolves', file, granted, -⟩
  obtain ⟨rfl, rfl⟩ := Prod.mk.inj (resolves.unique resolves')
  rcases refused ent rfl with directory | none
  · rw [directory] at file
    cases file
  · rw [none] at granted
    cases granted

lemma stopsShort_iff (mounted : h.mounted = true) (resolves : Resolves h path io ent after)
    (file : ¬ent.isDirectory = true) (granted : h.kmalloc after.mallocs = some block) :
    StopsShort h path bufSize io ↔ (readSize ent bufSize).toNat < 2 ^ 31 ∧
      h.EndsEarly h.volume.maxClusters after.reads ent.entryCluster
        (readSize ent bufSize).toNat := by
  constructor
  · rintro ⟨-, ent', after', resolves', -, -, small, early⟩
    obtain ⟨⟨⟩, rfl⟩ := Prod.mk.inj (resolves.unique resolves')
    exact ⟨small, early⟩
  · rintro ⟨small, early⟩
    exact ⟨mounted, ent, after, resolves, by simpa using file, by simp [granted], small, early⟩

/-- A result of `fat32_read_file` that is not negative is the number of bytes delivered, exactly if
the loop does not end early. -/
theorem read_file_delivers_iff (h : Host) (path : Path) (bufSize : BitVec 32) (io : Io) :
    ∃ result copied after,
      Returns (fun fuel => h.fat32ReadFile fuel path bufSize io) ((result, copied), after) ∧
      ((0 ≤ result → ∃ ent after', Resolves h path io ent after' ∧
          Delivers h ent.entryCluster bufSize result copied) ↔
        ¬StopsShort h path bufSize io) := by
  have negative : ¬(0 : Int) ≤ -1 := by decide
  by_cases mounted : h.mounted = true
  · simp only [Host.fat32ReadFile, mounted, Bool.not_true, Bool.false_eq_true, if_false]
    obtain ⟨found, io', -, resolves⟩ := h.resolvePath_releases path io
    rcases found with _ | ent
    · refine ⟨-1, [], io', resolves.bind (.const _), ?_⟩
      exact iff_of_true (absurd · negative) (not_stopsShort resolves nofun)
    · by_cases directory : ent.isDirectory = true
      · refine ⟨-1, [], io', resolves.bind ⟨0, fun fuel _ => if_pos directory⟩, ?_⟩
        refine iff_of_true (absurd · negative) (not_stopsShort resolves ?_)
        rintro _ ⟨⟩
        exact .inl directory
      · rcases granted : h.kmalloc io'.mallocs with _ | block
        · refine ⟨-1, [], { io' with mallocs := io'.mallocs + 1 }, resolves.bind
            ⟨0, fun fuel _ => by simp [directory, Host.allocate, granted]⟩, ?_⟩
          exact iff_of_true (absurd · negative) (not_stopsShort resolves fun _ _ => .inr granted)
        · obtain ⟨copied, ok, after, -, copies, returns⟩ := h.readLoop_start block
            ent.entryCluster (readSize ent bufSize).toNat
            { io' with mallocs := io'.mallocs + 1, log := .alloc block :: io'.log }
          refine ⟨if ok then (readSize ent bufSize).toInt else -1, copied, after,
            resolves.bind ?_, ?_⟩
          · simp only [directory, Host.allocate, granted]
            exact returns.map
          · rw [stopsShort_iff mounted resolves directory granted, ← copies.delivers_iff]
            refine forall_congr' fun _ => ⟨?_, fun delivers => ⟨ent, io', resolves, delivers⟩⟩
            rintro ⟨ent', io'', resolves', delivers⟩
            obtain ⟨⟨⟩, -⟩ := Prod.mk.inj (resolves.unique resolves')
            exact delivers
  · refine ⟨-1, [], io, ⟨0, fun fuel _ => by simp [Host.fat32ReadFile, mounted]⟩, ?_⟩
    exact iff_of_true (absurd · negative) fun stops => mounted stops.1

section

open MkFat32

/-- `hello.txt` with a size of 1024 bytes, on one cluster of 512 bytes. -/
def damagedImage : Image :=
  write83Entry (fun _ => 0#8) rootOff 0 helloAlias 0x20#8 3#32 1024#32

def damagedHost : Host where
  image lba offset := damagedImage (lba.toNat * 512 + offset)
  fails _ _ := false
  kmalloc _ := some 0
  mounted := true
  sectorsPerCluster := 1#8
  fatStartLba := 32#32
  dataStartLba := 64#32
  rootCluster := 2#32

/-- The call reports 1024 bytes; 512 are in the buffer, and no more on the chain. -/
theorem short_chain_reported_in_full :
    (damagedHost.fat32ReadFile 4 helloName 4096#32 ⟨0, 0, []⟩).map
      (fun answer => (answer.1.1, answer.1.2.length)) = some (1024, 512) ∧
    ∀ k, (damagedHost.fileBytes k 3#32).length ≤ 512 := by
  refine ⟨by decide +kernel, fun k => ?_⟩
  have ends : Mount.inChain (damagedHost.volume.nextCluster 3#32) = false := by decide +kernel
  cases k with
  | zero => exact Nat.zero_le _
  | succ k =>
    have rest : damagedHost.fileBytes k (damagedHost.volume.nextCluster 3#32) = [] := by
      cases k with
      | zero => rfl
      | succ k => simp [Host.fileBytes, ends]
    rw [Host.fileBytes, if_pos (by decide), rest, append_nil, Host.length_clusterBytes]
    exact Nat.le_refl _

end

end MicroOs.Fs.Fat32Io
