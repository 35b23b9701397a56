import MicroOs.Fs.MkImg

/-!
# The boot image can be read back

Every call of `set_fat12` sets three half bytes and no other, so that the table has at the end the
value of each call, modulo 4096. From cluster 0xFF8 on the numbers of clusters are in the
end-of-chain range, which the builder does not look at.
-/

namespace MicroOs.Fs.MkImg
open Lib List
open Function (comp_def update_of_ne update_self)
open BitVec (ofNat toNat_ofNat)

variable {attr : Byte} {e name : List Byte} {fuel i size : Nat} {img' : Image}
variable {img : Image} {efiSize b c v k : Nat}

lemma setFat12_of_apart (apart : b < fatOffset + c * 3 / 2 ∨ fatOffset + c * 3 / 2 + 1 < b) :
    setFat12 img c v b = img b := by
  unfold setFat12
  split <;> rw [update_of_ne (by omega), update_of_ne (by omega)]

lemma low_ofNat (v : Nat) : (ofNat 8 v).setWidth 4 = ofNat 4 v :=
  BitVec.setWidth_ofNat_of_le (by decide) v

lemma high_ofNat (v : Nat) : (ofNat 8 v >>> 4).setWidth 4 = ofNat 4 (v >>> 4) := by
  apply BitVec.eq_of_getLsbD_eq
  intro i hi
  have inside : 4 + i < 8 := by omega
  simp only [BitVec.getLsbD_setWidth, BitVec.getLsbD_ushiftRight, BitVec.getLsbD_ofNat,
    Nat.testBit_shiftRight, hi, inside, decide_true, Bool.true_and]

lemma nibble_even (at0 : k % 2 = 0) : nibble img b k = (img (b + k / 2)).setWidth 4 :=
  if_pos at0

lemma nibble_odd (at1 : k % 2 = 1) : nibble img b k = (img (b + k / 2) >>> 4).setWidth 4 :=
  if_neg (by omega)

lemma nibble_setFat12_self (img : Image) (c v : Nat) :
    nibble (setFat12 img c v) fatOffset (3 * c) = ofNat 4 v ∧
    nibble (setFat12 img c v) fatOffset (3 * c + 1) = ofNat 4 (v >>> 4) ∧
    nibble (setFat12 img c v) fatOffset (3 * c + 2) = ofNat 4 (v >>> 8) := by
  unfold setFat12
  rcases Nat.mod_two_eq_zero_or_one c with even | odd
  · rw [if_pos even, nibble_even (k := 3 * c) (by omega), nibble_odd (k := 3 * c + 1) (by omega),
      nibble_even (k := 3 * c + 2) (by omega),
      show 3 * c / 2 = c * 3 / 2 by omega, show (3 * c + 1) / 2 = c * 3 / 2 by omega,
      show (3 * c + 2) / 2 = c * 3 / 2 + 1 by omega, update_of_ne (by omega),
      update_self, ← Nat.add_assoc, update_self, low_of_high_kept]
    exact ⟨low_ofNat v, high_ofNat v, low_ofNat (v >>> 8)⟩
  · rw [if_neg (by omega), nibble_odd (k := 3 * c) (by omega),
      nibble_even (k := 3 * c + 1) (by omega), nibble_odd (k := 3 * c + 2) (by omega),
      show 3 * c / 2 = c * 3 / 2 by omega, show (3 * c + 1) / 2 = c * 3 / 2 + 1 by omega,
      show (3 * c + 2) / 2 = c * 3 / 2 + 1 by omega, update_of_ne (by omega),
      update_self, ← Nat.add_assoc, update_self, high_of_low_kept]
    refine ⟨low_ofNat v, low_ofNat (v >>> 4), ?_⟩
    rw [high_ofNat, ← Nat.shiftRight_add]

lemma nibble_setFat12_of_ne (apart : k < 3 * c ∨ 3 * c + 2 < k) :
    nibble (setFat12 img c v) fatOffset k = nibble img fatOffset k := by
  by_cases shared : k / 2 = c * 3 / 2 ∨ k / 2 = c * 3 / 2 + 1
  case neg =>
    unfold nibble
    rw [setFat12_of_apart (by omega)]
  case pos =>
    unfold setFat12
    rcases Nat.mod_two_eq_zero_or_one c with even | odd
    · -- The half byte that follows, in the byte that the call writes last.
      have next : k = 3 * c + 3 := by omega
      rw [if_pos even, nibble_odd (by omega), nibble_odd (by omega),
        show k / 2 = c * 3 / 2 + 1 by omega, ← Nat.add_assoc, update_self,
        high_of_high_kept, update_of_ne (by omega)]
    · -- The half byte before, in the byte that the call writes first.
      have previous : k + 1 = 3 * c := by omega
      rw [if_neg (by omega), nibble_even (by omega), nibble_even (by omega),
        show k / 2 = c * 3 / 2 by omega, update_of_ne (by omega), update_self,
        low_of_low_kept]

lemma append_nibbles (v : Nat) :
    ofNat 4 (v >>> 8) ++ ofNat 4 (v >>> 4) ++ ofNat 4 v =
      ofNat 12 v := by
  apply BitVec.eq_of_getLsbD_eq
  intro i hi
  simp only [BitVec.getLsbD_append, BitVec.getLsbD_ofNat, Nat.testBit_shiftRight]
  interval_cases i <;> simp

lemma entry12_setFat12 (img : Image) (c v : Nat) :
    entry12 (setFat12 img c v) fatOffset c = ofNat 12 v := by
  obtain ⟨low, mid, high⟩ := nibble_setFat12_self img c v
  rw [entry12_eq_nibbles, low, mid, high]
  exact append_nibbles v

lemma entry12_setFat12_of_ne {c' : Nat} (ne : c' ≠ c) :
    entry12 (setFat12 img c v) fatOffset c' = entry12 img fatOffset c' :=
  entry12_congr fun _ _ _ => nibble_setFat12_of_ne (by omega)

def afterCalls (img : Image) (calls : List (Nat × Nat)) : Image :=
  calls.foldl (fun img call => setFat12 img call.1 call.2) img

variable {calls : List (Nat × Nat)}

lemma entry12_afterCalls_of_notMem (notMem : c ∉ calls.map Prod.fst) :
    entry12 (afterCalls img calls) fatOffset c = entry12 img fatOffset c := by
  induction calls generalizing img with
  | nil => rfl
  | cons call calls ih =>
    change entry12 (afterCalls (setFat12 img call.1 call.2) calls) fatOffset c = _
    rw [ih (not_mem_of_not_mem_cons notMem), entry12_setFat12_of_ne (ne_of_not_mem_cons notMem)]

lemma entry12_afterCalls (once : (calls.map Prod.fst).Nodup) (call : (c, v) ∈ calls) :
    entry12 (afterCalls img calls) fatOffset c = ofNat 12 v := by
  induction calls generalizing img with
  | nil => cases call
  | cons first calls ih =>
    obtain ⟨notMem, rest⟩ := nodup_cons.mp once
    rcases mem_cons.mp call with rfl | later
    · exact (entry12_afterCalls_of_notMem notMem).trans (entry12_setFat12 img c v)
    · exact ih rest later

lemma afterCalls_of_apart {bound : Nat} (below : ∀ call ∈ calls, call.1 * 3 / 2 + 1 < bound)
    (apart : b < fatOffset ∨ fatOffset + bound ≤ b) : afterCalls img calls b = img b := by
  induction calls generalizing img with
  | nil => rfl
  | cons first calls ih =>
    have here := below first mem_cons_self
    have later : ∀ call ∈ calls, call.1 * 3 / 2 + 1 < bound :=
      fun call member => below call (mem_cons_of_mem first member)
    exact (ih later).trans (setFat12_of_apart (by omega))

section
variable (efiSize)

lemma fatCalls_clusters : (fatCalls efiSize).map Prod.fst = range (4 + fileClusters efiSize) := by
  rw [range_add]
  simp [fatCalls, comp_def, efiDirCluster, bootDirCluster, fileStartCluster]
  rfl

lemma fatOffset_eq : fatOffset = 512 := rfl

lemma fatSize_eq : fatSize efiSize = sectorsPerFat efiSize * 512 := rfl

lemma fat2Offset_eq : fat2Offset efiSize = 512 + sectorsPerFat efiSize * 512 :=
  rfl

lemma rootOffset_eq : rootOffset efiSize = 512 + 2 * (sectorsPerFat efiSize * 512) := by
  simp only [rootOffset, reservedSectors, numFats, bytesPerSector]
  omega

lemma clusterOffset_eq (efiSize cluster : Nat) :
    clusterOffset efiSize cluster = rootOffset efiSize + 16384 + (cluster - 2) * 2048 := by
  simp only [rootOffset_eq, clusterOffset, dataStart, rootDirSectors, rootEntryCount,
    sectorsPerCluster, reservedSectors, numFats, bytesPerSector]
  omega

lemma sectorsPerFat_eq :
    sectorsPerFat efiSize = ((fileClusters efiSize + 18) * 3 / 2 + 511) / 512 :=
  if_neg (by simp only [totalDataClusters, dirClusters, bytesPerSector]; omega)

lemma fat_room : (fileClusters efiSize + 18) * 3 / 2 ≤ sectorsPerFat efiSize * 512 := by
  rw [sectorsPerFat_eq]
  omega

lemma fileClusters_bounds :
    efiSize ≤ fileClusters efiSize * 2048 ∧ fileClusters efiSize * 2048 < efiSize + 2048 := by
  simp only [fileClusters, clusterSize, bytesPerSector, sectorsPerCluster]
  omega

end

lemma fatCalls_below (call : (c, v) ∈ fatCalls efiSize) : c * 3 / 2 + 1 < fatSize efiSize := by
  have cluster : c ∈ (fatCalls efiSize).map Prod.fst := mem_map_of_mem call
  rw [fatCalls_clusters, mem_range] at cluster
  have room := fat_room efiSize
  rw [fatSize_eq]
  omega

lemma fatCalls_value_lt (fits : fileClusters efiSize ≤ 4092) (call : (c, v) ∈ fatCalls efiSize) :
    v < 4096 := by
  simp only [fatCalls, cons_append, nil_append, mem_cons, Prod.mk.injEq,
    mem_map, mem_range, chainValue, fileStartCluster] at call
  obtain ⟨-, rfl⟩ | ⟨-, rfl⟩ | ⟨-, rfl⟩ | ⟨-, rfl⟩ | ⟨i, inside, -, rfl⟩ := call
  iterate 4 decide
  split <;> omega

lemma writeFats_of_lt (before : b < fat2Offset efiSize) :
    writeFats efiSize img b = afterCalls img (fatCalls efiSize) b :=
  patch_of_apart (.inl before)

lemma writeFats_sector (inside : b < 512) : writeFats efiSize img b = img b := by
  have before : b < fat2Offset efiSize := by
    rw [fat2Offset_eq]
    omega
  rw [writeFats_of_lt before]
  exact afterCalls_of_apart (fun _ member => fatCalls_below member) (.inl inside)

lemma entry12_writeFats (call : (c, v) ∈ fatCalls efiSize) :
    entry12 (writeFats efiSize img) fatOffset c = ofNat 12 v := by
  have below := fatCalls_below call
  have once : ((fatCalls efiSize).map Prod.fst).Nodup := by
    rw [fatCalls_clusters]
    exact nodup_range
  rw [← entry12_afterCalls once call]
  exact entry12_congr_bytes (writeFats_of_lt (by unfold fat2Offset; omega))
    (writeFats_of_lt (by unfold fat2Offset; omega))

section
variable (efiSize)

lemma writeFats_copies (img : Image) :
    window (writeFats efiSize img) fatOffset (fatSize efiSize) =
      window (writeFats efiSize img) (fat2Offset efiSize) (fatSize efiSize) := by
  have second := window_patch (afterCalls img (fatCalls efiSize))
    (fat2Offset efiSize, window (afterCalls img (fatCalls efiSize)) fatOffset (fatSize efiSize))
  rw [length_window] at second
  refine Eq.trans (window_congr fun k inside => ?_) second.symm
  exact writeFats_of_lt (by unfold fat2Offset; omega)

lemma packIntoH_of_lt (fits : v < 2 ^ 16) :
    packIntoH img b v = some (put16 img b (ofNat 16 v)) := if_pos fits

lemma packIntoI_of_lt (fits : v < 2 ^ 32) :
    packIntoI img b v = some (put32 img b (ofNat 32 v)) := if_pos fits

lemma packIntoH_eq_some :
    packIntoH img b v = some img' ↔ v < 2 ^ 16 ∧ put16 img b (ofNat 16 v) = img' := by
  rw [packIntoH, Option.ite_none_right_eq_some, Option.some.injEq]

lemma packIntoI_eq_some :
    packIntoI img b v = some img' ↔ v < 2 ^ 32 ∧ put32 img b (ofNat 32 v) = img' := by
  rw [packIntoI, Option.ite_none_right_eq_some, Option.some.injEq]

lemma le16_patch_of_apart {p : Nat × List Byte} (apart : b + 2 ≤ p.1 ∨ p.1 + p.2.length ≤ b) :
    le16 (patch img p) b = le16 img b :=
  le16_congr (patch_of_apart (by omega)) (patch_of_apart (by omega))

def builtLayout (efiSize : Nat) : Layout := ⟨512, 4, 1, 2, 512, sectorsPerFat efiSize⟩

lemma builtLayout_tableOffset_zero : (builtLayout efiSize).tableOffset 0 = fatOffset := by
  simp only [Layout.tableOffset, builtLayout, fatOffset_eq, Nat.zero_mul, Nat.add_zero, Nat.one_mul]

lemma builtLayout_tableOffset_one : (builtLayout efiSize).tableOffset 1 = fat2Offset efiSize := by
  simp only [Layout.tableOffset, builtLayout, fat2Offset_eq, Nat.add_mul, Nat.one_mul]

lemma builtLayout_rootOffset :
    (builtLayout efiSize).rootOffset = rootOffset efiSize := rfl

lemma builtLayout_clusterSize : (builtLayout efiSize).clusterSize = 2048 := by
  simp only [Layout.clusterSize, builtLayout, Nat.reduceMul]

end

lemma builtLayout_clusterOffset (efiSize cluster : Nat) :
    (builtLayout efiSize).clusterOffset cluster = clusterOffset efiSize cluster := by
  have rootSize : (512 * 32 + 512 - 1) / 512 * 512 = 16384 := by decide
  rw [clusterOffset_eq, Layout.clusterOffset, builtLayout_clusterSize, builtLayout_rootOffset,
    ← rootSize]
  rfl

lemma layout_bootSector {bs : Image} (built : bootSector efiSize = some bs) :
    layout bs = builtLayout efiSize := by
  simp only [bootSector, bind, Option.bind_eq_some_iff, packIntoH_eq_some, packIntoI_eq_some, pure,
    Option.some.injEq] at built
  obtain ⟨_, ⟨-, rfl⟩, _, ⟨-, rfl⟩, _, ⟨-, rfl⟩, _, ⟨-, rfl⟩, _, ⟨fits, rfl⟩, _, ⟨-, rfl⟩, _,
    ⟨-, rfl⟩, _, ⟨-, rfl⟩, _, ⟨-, rfl⟩, _, ⟨-, rfl⟩, rfl⟩ := built
  simp (disch := decide) only [layout, le16_put16, le16_put16_of_apart, le16_put32_of_apart,
    le16_update_of_apart, le16_patch_of_apart, update_self, update_of_ne,
    put16_of_apart, put32_of_apart, patch_of_apart, toNat_ofNat, Nat.mod_eq_of_lt fits]
  rfl

/-- The directory entry at `slot`: its name, first cluster and size. -/
def EntryAt (img : Image) (slot : Nat) (name : List Byte) (cluster size : Nat) : Prop :=
  window img slot 11 = name ∧ firstCluster img slot = cluster ∧ (le32 img (slot + 28)).toNat = size

lemma length_makeDirEntry (made : makeDirEntry name attr c size = some e) : e.length = 32 := by
  simp only [makeDirEntry, bind, Option.bind_eq_some_iff, pure, Option.some.injEq] at made
  obtain ⟨_, -, _, -, rfl⟩ := made
  exact length_window _ _ _

lemma entryAt_makeDirEntry {slot : Nat} (made : makeDirEntry name attr c size = some e)
    (eleven : name.length = 11) (here : window img slot 32 = e) : EntryAt img slot name c size := by
  simp only [makeDirEntry, eleven, Nat.lt_irrefl, if_false, bind, Option.bind_eq_some_iff,
    packIntoH_eq_some, packIntoI_eq_some, pure, Option.some.injEq] at made
  obtain ⟨_, ⟨small, rfl⟩, entry, ⟨fits, written⟩, rfl⟩ := made
  have same : ∀ k, k < 32 → img (slot + k) = entry (0 + k) :=
    fun k inside => eq_of_window_eq here inside
  refine ⟨?_, ?_, ?_⟩
  · rw [window_moved fun k inside => same k (by omega), ← take_of_length_le (le_of_eq eleven)]
    subst written
    refine Eq.trans (window_congr fun k inside => ?_)
      ((congrArg (window _ 0) ?_).trans (window_patch (fun _ => 0#8) (0, name.take 11)))
    · rw [put32_of_apart _ _ (by omega), put16_of_apart _ _ (by omega), update_of_ne (by omega)]
    · rw [length_take, eleven]
      rfl
  · have cluster : le16 entry 26 = ofNat 16 c := by
      rw [← written, le16_put32_of_apart _ _ (by omega), le16_put16]
    have moved : le16 img (slot + 26) = le16 entry 26 :=
      congrArg₂ (· ++ ·) (same 27 (by decide)) (same 26 (by decide))
    rw [firstCluster, moved, cluster, toNat_ofNat, Nat.mod_eq_of_lt small]
  · have length : le32 entry 28 = ofNat 32 size := by
      rw [← written, le32_put32]
    have moved : le32 img (slot + 28) = le32 entry 28 :=
      congrArg₂ (· ++ ·)
        (congrArg₂ (· ++ ·) (same 31 (by decide)) (same 30 (by decide)))
        (congrArg₂ (· ++ ·) (same 29 (by decide)) (same 28 (by decide)))
    rw [moved, length, toNat_ofNat, Nat.mod_eq_of_lt fits]

lemma findEntry_eq {off slots k : Nat} (inside : k < slots)
    (here : window img (off + 32 * k) 11 = name)
    (before : ∀ j, j < k → window img (off + 32 * j) 11 ≠ name) :
    findEntry img off slots name = some (off + 32 * k) := by
  have found :
      (range slots).find? (fun j => window img (off + 32 * j) 11 == name) = some k := by
    rw [find?_range_eq_some]
    refine ⟨beq_iff_eq.mpr here, mem_range.mpr inside, ?_⟩
    intro j earlier
    simpa using before j earlier
  rw [findEntry, find?_map]
  simp only [comp_def, found, Option.map_some]

/-- What stands behind the tables of an image. -/
structure HasFiles (img : Image) (efiData : List Byte) : Prop where
  label : EntryAt img (rootOffset efiData.length) volumeLabel 0 0
  efi : EntryAt img (rootOffset efiData.length + 32) efiName 2 0
  efiDot : EntryAt img (clusterOffset efiData.length 2) dotName 2 0
  efiDotdot : EntryAt img (clusterOffset efiData.length 2 + 32) dotdotName 0 0
  boot : EntryAt img (clusterOffset efiData.length 2 + 64) bootName 3 0
  bootDot : EntryAt img (clusterOffset efiData.length 3) dotName 3 0
  bootDotdot : EntryAt img (clusterOffset efiData.length 3 + 32) dotdotName 2 0
  bootx64 : EntryAt img (clusterOffset efiData.length 3 + 64) bootx64Name 4 efiData.length
  content : window img (clusterOffset efiData.length 4) efiData.length = efiData

variable {efiData : List Byte} {patches : List (Nat × List Byte)}

lemma patched_dataPatches (img : Image) (made : dataPatches efiData = some patches) :
    (∀ b, b < rootOffset efiData.length → patched img patches b = img b) ∧
      HasFiles (patched img patches) efiData := by
  simp only [dataPatches, efiDirCluster, bootDirCluster, fileStartCluster, bind,
    Option.bind_eq_some_iff, pure, Option.some.injEq] at made
  obtain ⟨label, hlabel, efi, hefi, dot, hdot, dotdot, hdotdot, boot, hboot, dot2, hdot2, dotdot2,
    hdotdot2, file, hfile, rfl⟩ := made
  have efiDir : clusterOffset efiData.length 2 = rootOffset efiData.length + 16384 :=
    clusterOffset_eq _ _
  have bootDir : clusterOffset efiData.length 3 = rootOffset efiData.length + 18432 :=
    clusterOffset_eq _ _
  have fileOff : clusterOffset efiData.length 4 = rootOffset efiData.length + 20480 :=
    clusterOffset_eq _ _
  generalize patchList : [(rootOffset efiData.length, label), _, _, _, _, _, _, _, _] = patches
  have apart : patches.Pairwise PatchApart := by
    simp [← patchList, efiDir, bootDir, fileOff, PatchApart, length_makeDirEntry hlabel,
      length_makeDirEntry hefi, length_makeDirEntry hdot, length_makeDirEntry hdotdot,
      length_makeDirEntry hboot, length_makeDirEntry hdot2, length_makeDirEntry hdotdot2,
      length_makeDirEntry hfile]
  have behind : ∀ p ∈ patches, rootOffset efiData.length ≤ p.1 := by
    simp [← patchList, efiDir, bootDir, fileOff, Nat.add_assoc]
  have read : ∀ {off e name attr c size}, (off, e) ∈ patches →
      makeDirEntry name attr c size = some e → name.length = 11 →
      EntryAt (patched img patches) off name c size := by
    intro off e name attr c size member made eleven
    refine entryAt_makeDirEntry made eleven ?_
    rw [← length_makeDirEntry made]
    exact window_patched apart member
  refine ⟨fun b below => patched_of_apart fun p member => .inl ?_, ?_⟩
  · exact Nat.lt_of_lt_of_le below (behind p member)
  · exact {
      label := read (by simp [← patchList]) hlabel rfl
      efi := read (by simp [← patchList]) hefi rfl
      efiDot := read (by simp [← patchList]) hdot rfl
      efiDotdot := read (by simp [← patchList]) hdotdot rfl
      boot := read (by simp [← patchList]) hboot rfl
      bootDot := read (by simp [← patchList]) hdot2 rfl
      bootDotdot := read (by simp [← patchList]) hdotdot2 rfl
      bootx64 := read (by simp [← patchList]) hfile rfl
      content := window_patched apart (p := (clusterOffset efiData.length 4, efiData))
        (by simp [← patchList]) }

lemma bootx64Entry_eq (files : HasFiles img efiData)
    (said : layout img = builtLayout efiData.length) :
    bootx64Entry img = some (clusterOffset efiData.length 3 + 64) := by
  have efi : findEntry img (rootOffset efiData.length) 512 efiName =
      some (rootOffset efiData.length + 32 * 1) := by
    refine findEntry_eq (by omega) files.efi.1 fun j earlier => ?_
    interval_cases j
    · rw [Nat.mul_zero, Nat.add_zero, files.label.1]
      decide
  have boot : findEntry img (clusterOffset efiData.length 2) 64 bootName =
      some (clusterOffset efiData.length 2 + 32 * 2) := by
    refine findEntry_eq (by omega) files.boot.1 fun j earlier => ?_
    interval_cases j
    · rw [Nat.mul_zero, Nat.add_zero, files.efiDot.1]
      decide
    · exact ne_of_eq_of_ne files.efiDotdot.1 (by decide)
  have bootx64 : findEntry img (clusterOffset efiData.length 3) 64 bootx64Name =
      some (clusterOffset efiData.length 3 + 32 * 2) := by
    refine findEntry_eq (by omega) files.bootx64.1 fun j earlier => ?_
    interval_cases j
    · rw [Nat.mul_zero, Nat.add_zero, files.bootDot.1]
      decide
    · exact ne_of_eq_of_ne files.bootDotdot.1 (by decide)
  have slots : (builtLayout efiData.length).rootEntryCount = 512 := rfl
  simp only [bootx64Entry, said, builtLayout_rootOffset, builtLayout_clusterOffset, slots,
    builtLayout_clusterSize, Nat.reduceDiv, bind, efi, Option.bind_some, files.efi.2.1, boot,
    files.boot.2.1, bootx64]

lemma createFat12Image_eq_some (built : createFat12Image efiData = some img) :
    ∃ bs patches, bootSector efiData.length = some bs ∧ dataPatches efiData = some patches ∧
      img = patched (writeFats efiData.length (patch (fun _ => 0#8) (0, window bs 0 512)))
        patches := by
  simp only [createFat12Image, bind, Option.bind_eq_some_iff, pure, Option.some.injEq] at built
  obtain ⟨bs, hbs, patches, made, rfl⟩ := built
  exact ⟨bs, patches, hbs, made, rfl⟩

/-- A reader of the image finds the builder's layout, the builder's table twice, and the files. -/
structure Reads (img : Image) (efiData : List Byte) : Prop where
  said : layout img = builtLayout efiData.length
  value : ∀ c v, (c, v) ∈ fatCalls efiData.length → fat12 img c = v % 4096
  copies : window img fatOffset (fatSize efiData.length) =
    window img (fat2Offset efiData.length) (fatSize efiData.length)
  files : HasFiles img efiData

lemma layout_congr (same : ∀ b, b < 512 → img b = img' b) : layout img = layout img' := by
  have field : ∀ a, a + 1 < 512 → le16 img a = le16 img' a :=
    fun a inside => le16_congr (same a (by omega)) (same (a + 1) inside)
  simp only [layout, field 11 (by decide), same 13 (by decide), field 14 (by decide),
    same 16 (by decide), field 17 (by decide), field 22 (by decide)]

lemma reads_of_built (built : createFat12Image efiData = some img) : Reads img efiData := by
  obtain ⟨bs, patches, hbs, made, rfl⟩ := createFat12Image_eq_some built
  generalize hsector : patch (fun _ => 0#8) (0, window bs 0 512) = sector
  obtain ⟨front, files⟩ := patched_dataPatches (writeFats efiData.length sector) made
  generalize patched (writeFats efiData.length sector) patches = img at front files ⊢
  have root := rootOffset_eq efiData.length
  have said : layout img = builtLayout efiData.length := by
    rw [← layout_bootSector hbs]
    refine layout_congr fun b inside => ?_
    have written := window_patch (fun _ => 0#8) (0, window bs 0 512)
    simp only [length_window, hsector] at written
    rw [front b (by omega), writeFats_sector inside]
    simpa only [Nat.zero_add] using eq_of_window_eq written inside
  have tables : ∀ b, b < fatOffset + 2 * fatSize efiData.length →
      img b = writeFats efiData.length sector b := by
    intro b inside
    rw [fatOffset_eq, fatSize_eq] at inside
    exact front b (by omega)
  refine ⟨said, fun c v call => ?_, ?_, files⟩
  · have below := fatCalls_below call
    have same := entry12_congr_bytes (c := c) (tables (fatOffset + c * 3 / 2) (by omega))
      (tables (fatOffset + c * 3 / 2 + 1) (by omega))
    rw [fat12, said, builtLayout_tableOffset_zero, same, entry12_writeFats call, toNat_ofNat]
  · rw [window_congr fun k inside => tables (fatOffset + k) (by omega),
      window_congr fun k inside => tables (fat2Offset efiData.length + k) (by
        unfold fat2Offset
        omega)]
    exact writeFats_copies _ _

lemma length_clusterChain_le (img : Image) (fuel c : Nat) :
    (clusterChain img fuel c).length ≤ fuel := by
  induction fuel generalizing c with
  | zero => exact Nat.le_refl 0
  | succ fuel ih =>
    rw [clusterChain, length_cons]
    split
    · exact Nat.succ_le_succ (Nat.zero_le fuel)
    · exact Nat.succ_le_succ (ih _)

lemma clusterChain_run {n : Nat}
    (next : ∀ i, i < n → fat12 img (c + i) = c + i + 1 ∧ c + i + 1 < 0xFF8) (fuel : Nat) :
    clusterChain img (n + fuel) c = range' c n ++ clusterChain img fuel (c + n) := by
  induction n generalizing c with
  | zero => simp
  | succ n ih =>
    obtain ⟨link, small⟩ := next 0 (Nat.succ_pos n)
    have later : ∀ i, i < n → fat12 img (c + 1 + i) = c + 1 + i + 1 ∧ c + 1 + i + 1 < 0xFF8 := by
      intro i inside
      have step := next (i + 1) (Nat.succ_lt_succ inside)
      rwa [show c + (i + 1) = c + 1 + i by omega] at step
    rw [Nat.add_zero] at link small
    rw [show n + 1 + fuel = n + fuel + 1 by omega, clusterChain, link, if_neg (by omega), ih later,
      range'_succ, cons_append, show c + 1 + n = c + (n + 1) by omega]

lemma flatMap_clusters (efiSize : Nat) (img : Image) (n : Nat) (start : 2 ≤ c) :
    ((range' c n).flatMap fun cluster => window img (clusterOffset efiSize cluster) 2048) =
      window img (clusterOffset efiSize c) (n * 2048) := by
  induction n generalizing c with
  | zero =>
    rw [Nat.zero_mul]
    rfl
  | succ n ih =>
    have next : clusterOffset efiSize (c + 1) = clusterOffset efiSize c + 2048 := by
      rw [clusterOffset_eq, clusterOffset_eq]
      omega
    rw [range'_succ, flatMap_cons, ih (Nat.le_succ_of_le start), next, window_append,
      Nat.succ_mul, Nat.add_comm 2048]

/-- The image can be read back: the entries of the table have the values written, the copies of the
table are equal, and the file has the bytes of the binary. -/
structure ReadsBack (img : Image) (efiData : List Byte) : Prop where
  values : ∀ call ∈ fatCalls efiData.length, fat12 img call.1 = call.2
  copies : window img ((layout img).tableOffset 0) (layout img).tableSize =
    window img ((layout img).tableOffset 1) (layout img).tableSize
  file : ∃ slot, bootx64Entry img = some slot ∧
    ∃ enough, ∀ fuel, enough ≤ fuel → readFile img fuel slot = efiData

namespace Reads

variable (reads : Reads img efiData)
include reads

lemma fat12_file (inside : i < fileClusters efiData.length) :
    fat12 img (4 + i) = chainValue efiData.length i % 4096 := by
  refine reads.value _ _ (mem_append_right _ ?_)
  exact mem_map.mpr ⟨i, mem_range.mpr inside, rfl⟩

lemma fat12_link (inside : i + 1 < fileClusters efiData.length) (small : 4 + i + 1 < 4096) :
    fat12 img (4 + i) = 4 + i + 1 := by
  rw [reads.fat12_file (by omega), chainValue, if_pos (by omega)]
  exact Nat.mod_eq_of_lt small

lemma readFile_eq (fuel : Nat) :
    readFile img fuel (clusterOffset efiData.length 3 + 64) =
      ((clusterChain img fuel 4).flatMap fun cluster =>
        window img (clusterOffset efiData.length cluster) 2048).take efiData.length := by
  obtain ⟨-, cluster, size⟩ := reads.files.bootx64
  simp only [readFile, cluster, size, reads.said, builtLayout_clusterOffset,
    builtLayout_clusterSize]

lemma clusterChain_of_le {m : Nat} (clusters : fileClusters efiData.length = m + 1)
    (fits : m + 1 ≤ 4084) (enough : m + 1 ≤ fuel) : clusterChain img fuel 4 = range' 4 (m + 1) := by
  have next : ∀ i, i < m → fat12 img (4 + i) = 4 + i + 1 ∧ 4 + i + 1 < 0xFF8 := by
    intro i inside
    exact ⟨reads.fat12_link (by omega) (by omega), by omega⟩
  have last : fat12 img (4 + m) = 0xFFF := by
    rw [reads.fat12_file (by omega), chainValue, if_neg (by omega)]
  obtain ⟨rest, rfl⟩ := Nat.exists_eq_add_of_le enough
  rw [show m + 1 + rest = m + (rest + 1) by omega, clusterChain_run next, clusterChain, last,
    if_pos (by decide), range'_concat]
  simp

lemma length_clusterChain_of_gt (long : 4084 < fileClusters efiData.length) (fuel : Nat) :
    (clusterChain img fuel 4).length ≤ 4084 := by
  rcases Nat.lt_or_ge fuel 4084 with few | many
  · exact Nat.le_trans (length_clusterChain_le img fuel 4) (Nat.le_of_lt few)
  have next : ∀ i, i < 4083 → fat12 img (4 + i) = 4 + i + 1 ∧ 4 + i + 1 < 0xFF8 := by
    intro i inside
    exact ⟨reads.fat12_link (by omega) (by omega), by omega⟩
  have cut : fat12 img (4 + 4083) = 0xFF8 := reads.fat12_link (by omega) (by omega)
  obtain ⟨rest, rfl⟩ := Nat.exists_eq_add_of_le many
  rw [show 4084 + rest = 4083 + (rest + 1) by omega, clusterChain_run next, clusterChain, cut,
    if_pos (Nat.le_refl _), length_append, length_range']
  exact Nat.le_refl _

lemma readFile_of_le (fits : fileClusters efiData.length ≤ 4084)
    (enough : fileClusters efiData.length ≤ fuel) :
    readFile img fuel (clusterOffset efiData.length 3 + 64) = efiData := by
  obtain ⟨room, -⟩ := fileClusters_bounds efiData.length
  rw [reads.readFile_eq]
  cases clusters : fileClusters efiData.length with
  | zero =>
    have empty : efiData = [] := eq_nil_of_length_eq_zero (by omega)
    rw [empty, length_nil, take_zero]
  | succ m =>
    rw [clusters] at room
    have cut := take_drop_window img (clusterOffset efiData.length 4) ((m + 1) * 2048) 0
      efiData.length
    rw [drop_zero, Nat.sub_zero, Nat.min_eq_left room, Nat.add_zero (clusterOffset _ _)] at cut
    rw [reads.clusterChain_of_le clusters (by omega) (by omega),
      flatMap_clusters efiData.length img (m + 1) (by decide), cut, reads.files.content]

lemma readFile_of_gt (long : 4084 < fileClusters efiData.length) (fuel : Nat) :
    readFile img fuel (clusterOffset efiData.length 3 + 64) ≠ efiData := by
  intro same
  obtain ⟨-, tight⟩ := fileClusters_bounds efiData.length
  have chain := reads.length_clusterChain_of_gt long fuel
  have length := congrArg length same
  rw [reads.readFile_eq, length_take, length_flatMap] at length
  simp only [length_window, map_const', sum_replicate_nat] at length
  omega

lemma readsBack_iff : ReadsBack img efiData ↔ efiData.length ≤ 4084 * 2048 := by
  obtain ⟨room, tight⟩ := fileClusters_bounds efiData.length
  have entry := bootx64Entry_eq reads.files reads.said
  constructor
  · rintro ⟨-, -, slot, found, enough, same⟩
    obtain rfl : _ = slot := Option.mem_unique entry found
    by_contra big
    exact reads.readFile_of_gt (by omega) enough (same enough (Nat.le_refl enough))
  · intro small
    refine ⟨?_, ?_, _, entry, fileClusters efiData.length, fun fuel => ?_⟩
    · rintro ⟨c, v⟩ call
      rw [reads.value c v call, Nat.mod_eq_of_lt (fatCalls_value_lt (by omega) call)]
    · rw [reads.said, builtLayout_tableOffset_zero, builtLayout_tableOffset_one]
      exact reads.copies
    · exact reads.readFile_of_le (by omega)

end Reads

/-- The image of a binary can be read back if and only if the binary has at most 4084 clusters:
cluster 4087 would lead to cluster 0xFF8, which means the end of the chain. -/
theorem boot_image_reads_back_iff (efiData : List Byte) (img : Image)
    (built : createFat12Image efiData = some img) :
    ReadsBack img efiData ↔ efiData.length ≤ 4084 * 2048 :=
  (reads_of_built built).readsBack_iff

lemma sectorsPerFat_lt (small : efiSize < 2 ^ 32) : sectorsPerFat efiSize < 2 ^ 16 := by
  obtain ⟨-, tight⟩ := fileClusters_bounds efiSize
  rw [sectorsPerFat_eq]
  omega

lemma dataStart_eq (efiSize : Nat) : dataStart efiSize = 33 + 2 * sectorsPerFat efiSize := by
  simp only [dataStart, reservedSectors, numFats, rootDirSectors, rootEntryCount, bytesPerSector]
  omega

lemma totalSectors_eq (efiSize : Nat) :
    totalSectors efiSize = max 2880 (dataStart efiSize + (fileClusters efiSize + 18) * 4) := by
  have rounded : ∀ n, (if n < 2880 then 2880 else n) = max 2880 n := by
    intro n
    split <;> omega
  exact rounded _

lemma totalSectors_lt (small : efiSize < 2 ^ 32) : totalSectors efiSize < 2 ^ 32 := by
  have table := sectorsPerFat_lt small
  obtain ⟨-, tight⟩ := fileClusters_bounds efiSize
  rw [totalSectors_eq, dataStart_eq]
  omega

lemma exists_createFat12Image (efiData : List Byte) (small : efiData.length < 2 ^ 32) :
    ∃ img, createFat12Image efiData = some img := by
  have table := sectorsPerFat_lt small
  have total := totalSectors_lt small
  have short : (if totalSectors efiData.length < 65536 then totalSectors efiData.length else 0) <
      2 ^ 16 := by
    split <;> omega
  have long : (if totalSectors efiData.length ≥ 65536 then totalSectors efiData.length else 0) <
      2 ^ 32 := by
    split <;> omega
  have entries : ∀ name attr c size, c < 2 ^ 16 → size < 2 ^ 32 →
      ∃ e, makeDirEntry name attr c size = some e := by
    intro name attr c size fits sizeFits
    simp only [makeDirEntry, packIntoH_of_lt fits, packIntoI_of_lt sizeFits, bind, pure,
      Option.bind_some, Option.some.injEq, exists_eq']
  choose entry made using entries
  simp (disch := first | assumption | decide) only [createFat12Image, bootSector, dataPatches, made,
    packIntoH_of_lt, packIntoI_of_lt, bind, pure, Option.bind_some, Option.some.injEq, exists_eq']

theorem boot_image_reads_back_iff_mz :
    ∃ img, createFat12Image [0x4D#8, 0x5A#8] = some img ∧
      (ReadsBack img [0x4D#8, 0x5A#8] ↔ [0x4D#8, 0x5A#8].length ≤ 4084 * 2048) := by
  obtain ⟨img, built⟩ := exists_createFat12Image [0x4D#8, 0x5A#8] (by decide)
  exact ⟨img, built, boot_image_reads_back_iff _ img built⟩

lemma cut_of_long (efiData : List Byte) (long : 4084 * 2048 < efiData.length)
    (small : efiData.length < 2 ^ 32) :
    ∃ img, createFat12Image efiData = some img ∧ ¬ ReadsBack img efiData := by
  obtain ⟨img, built⟩ := exists_createFat12Image efiData small
  exact ⟨img, built, fun back => Nat.not_le.mpr long ((reads_of_built built).readsBack_iff.mp back)⟩

theorem long_binary_cut :
    ∃ img, createFat12Image (replicate 8364033 0#8) = some img ∧
      ¬ ReadsBack img (replicate 8364033 0#8) := by
  apply cut_of_long
  · rw [length_replicate]
    decide
  · rw [length_replicate]
    decide

/-- The FATs, the root directory and the clusters in use, each with its size. -/
def regions (efiSize : Nat) : List (Nat × Nat) :=
  (fatOffset, fatSize efiSize) :: (fat2Offset efiSize, fatSize efiSize) ::
    (rootOffset efiSize, rootDirSectors * bytesPerSector) ::
    (range (fileClusters efiSize + dirClusters)).map fun i =>
      (clusterOffset efiSize (2 + i), clusterSize)

/-- A FAT has 12 bits for every cluster of an image of this size, and the regions are in the image,
one behind the other. -/
structure Consistent (efiSize : Nat) : Prop where
  room : 12 * (2 + (totalSectors efiSize - dataStart efiSize) / sectorsPerCluster) ≤
    8 * fatSize efiSize
  apart : (regions efiSize).Pairwise fun a b => a.1 + a.2 ≤ b.1
  inside : ∀ r ∈ regions efiSize, r.1 + r.2 ≤ totalSectors efiSize * bytesPerSector

lemma regions_apart (efiSize : Nat) : (regions efiSize).Pairwise fun a b => a.1 + a.2 ≤ b.1 := by
  simp only [regions, pairwise_cons, mem_cons, mem_map, mem_range, forall_eq_or_imp,
    forall_exists_index, and_imp, forall_apply_eq_imp_iff₂, clusterOffset_eq, rootOffset_eq,
    fat2Offset_eq, fatSize_eq, fatOffset_eq, rootDirSectors, rootEntryCount, bytesPerSector]
  refine ⟨⟨by omega, by omega, fun i _ => by omega⟩, ⟨by omega, fun i _ => by omega⟩,
    fun i _ => by omega, ?_⟩
  rw [pairwise_map]
  refine pairwise_lt_range.imp fun {i j} before => ?_
  simp only [clusterSize, bytesPerSector, sectorsPerCluster]
  omega

lemma regions_inside (efiSize : Nat) :
    ∀ r ∈ regions efiSize, r.1 + r.2 ≤ totalSectors efiSize * bytesPerSector := by
  simp only [regions, mem_cons, mem_map, mem_range, forall_eq_or_imp, forall_exists_index, and_imp,
    forall_apply_eq_imp_iff₂, clusterOffset_eq, rootOffset_eq, fat2Offset_eq, fatSize_eq,
    fatOffset_eq, totalSectors_eq, dataStart_eq, rootDirSectors, rootEntryCount, bytesPerSector,
    dirClusters, clusterSize, sectorsPerCluster]
  exact ⟨by omega, by omega, by omega, fun i _ => by omega⟩

/-- The geometry is consistent if and only if the binary is large enough for the FAT to cover the
smallest image and the clusters do not fill a sector of the FAT up to its last three bytes. -/
theorem geometry_consistent_iff (efiSize : Nat) : Consistent efiSize ↔
    666 ≤ fileClusters efiSize ∧ 2 ≤ 3 * (fileClusters efiSize + 18) % 1024 ∧
      3 * (fileClusters efiSize + 18) % 1024 ≤ 1018 := by
  refine Iff.trans ⟨Consistent.room, fun room => ⟨room, regions_apart _, regions_inside _⟩⟩ ?_
  rw [totalSectors_eq, dataStart_eq, fatSize_eq, sectorsPerFat_eq]
  simp only [sectorsPerCluster]
  generalize fileClusters efiSize = n
  have table : ((n + 18) * 3 / 2 + 511) / 512 =
      3 * (n + 18) / 1024 + if 3 * (n + 18) % 1024 < 2 then 0 else 1 := by
    split <;> omega
  rw [table]
  split <;> omega

/-- The FAT of a small binary has one sector and the image 711 clusters. -/
theorem small_binary_inconsistent : ¬ Consistent 65536 :=
  fun sound => absurd sound.room (by decide)

end MicroOs.Fs.MkImg
