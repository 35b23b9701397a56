import MicroOs.Fs.MkFat32
import MicroOs.Fs.Proofs.Fat32Walk

/-!
# Long names from the builder to the reader

The slots that `write_file_entry` writes hold the chunks of the long name in reverse order; the
reader puts the chunks back at their places one by one. The twentieth chunk, for the characters
from 247 on, would end at position 260 and is ignored as a whole.
-/

namespace MicroOs.Fs.MkFat32
open Lib Fat32 List
open Function (update_of_ne update_self)

variable {img : Image} {parentOff slot count i k n : Nat} {name : Path}

lemma byteAt_slotAt (img : Image) (parentOff k : Nat) (inside : i < 32) :
    byteAt (slotAt img parentOff k) i = img (parentOff + k * 32 + i) := by
  rw [byteAt, slotAt, getD_eq_getElem?_getD, getElem?_window _ _ inside, Option.getD_some]

lemma le16_slotAt (img : Image) (parentOff k : Nat) (inside : i + 1 < 32) :
    le16 (byteAt (slotAt img parentOff k)) i = le16 img (parentOff + k * 32 + i) := by
  rw [le16, le16, byteAt_slotAt _ _ _ inside, byteAt_slotAt _ _ _ (by omega), ← Nat.add_assoc]

lemma le32_slotAt (img : Image) (parentOff k : Nat) (inside : i + 3 < 32) :
    le32 (byteAt (slotAt img parentOff k)) i = le32 img (parentOff + k * 32 + i) := by
  rw [le32, le32, le16_slotAt _ _ _ inside, le16_slotAt _ _ _ (by omega), ← Nat.add_assoc]

lemma slotAt_congr {img' : Image}
    (same : ∀ i, i < 32 → img' (parentOff + k * 32 + i) = img (parentOff + k * 32 + i)) :
    slotAt img' parentOff k = slotAt img parentOff k :=
  window_congr same

lemma ljust11_idem (s : Path) : ljust11 (ljust11 s) = ljust11 s := by
  have length : (ljust11 s).length = 11 := by
    simp only [ljust11, length_take, length_append, length_replicate]
    omega
  rw [ljust11, length, Nat.sub_self, replicate_zero, append_nil, take_of_length_le (by omega)]

lemma writeLfnEntry_of_ne (order : Byte) (part : Path) (checksum : Byte) (other : k ≠ slot) :
    slotAt (writeLfnEntry img parentOff slot order part checksum) parentOff k =
      slotAt img parentOff k := by
  apply slotAt_congr
  intro i inside
  unfold writeLfnEntry
  rw [putRun_of_apart _ _ (by omega), putRun_of_apart _ _ (by omega),
    putRun_of_apart _ _ (by omega), update_of_ne (by omega),
    update_of_ne (by omega), update_of_ne (by omega),
    update_of_ne (by omega)]

lemma write83Entry_of_ne (name83 : Path) (attr : Byte) (cluster size : BitVec 32)
    (other : k ≠ slot) :
    slotAt (write83Entry img parentOff slot name83 attr cluster size) parentOff k =
      slotAt img parentOff k := by
  apply slotAt_congr
  intro i inside
  unfold write83Entry
  rw [put32_of_apart _ _ (by omega), put16_of_apart _ _ (by omega),
    put16_of_apart _ _ (by omega), update_of_ne (by omega), copied, if_neg (by omega)]

structure IsLfnSlot (slot : Slot) (order : Byte) (part : Path) : Prop where
  first : byteAt slot 0 = order
  attr : byteAt slot 11 = attrLfn
  chars : ∀ i, i < 13 → (lfnEntry slot).chars i = lfnChars part i

lemma writeLfnEntry_slot (img : Image) (parentOff slot : Nat) (order : Byte) (part : Path)
    (checksum : Byte) :
    IsLfnSlot (slotAt (writeLfnEntry img parentOff slot order part checksum) parentOff slot)
      order part where
  first := by
    rw [byteAt_slotAt _ _ _ (by omega)]
    unfold writeLfnEntry
    rw [putRun_of_apart _ _ (by omega), putRun_of_apart _ _ (by omega),
      putRun_of_apart _ _ (by omega), update_of_ne (by omega),
      update_of_ne (by omega), update_of_ne (by omega), Nat.add_zero,
      update_self]
  attr := by
    rw [byteAt_slotAt _ _ _ (by omega)]
    unfold writeLfnEntry
    rw [putRun_of_apart _ _ (by omega), putRun_of_apart _ _ (by omega),
      putRun_of_apart _ _ (by omega), update_of_ne (by omega),
      update_of_ne (by omega), update_self]
  chars := by
    intro i inside
    -- the three fields of the slot, the later ones outside of the earlier ones
    simp only [lfnEntry]
    split
    · rw [le16_slotAt _ _ _ (by omega), ← Nat.add_assoc]
      unfold writeLfnEntry
      rw [le16_congr (putRun_of_apart _ _ (by omega)) (putRun_of_apart _ _ (by omega)),
        le16_congr (putRun_of_apart _ _ (by omega)) (putRun_of_apart _ _ (by omega)),
        le16_putRun _ _ _ (by omega)]
    · split
      · rw [le16_slotAt _ _ _ (by omega), ← Nat.add_assoc]
        unfold writeLfnEntry
        rw [le16_congr (putRun_of_apart _ _ (by omega)) (putRun_of_apart _ _ (by omega)),
          le16_putRun _ _ _ (by omega)]
        congr 1
        omega
      · rw [le16_slotAt _ _ _ (by omega), ← Nat.add_assoc]
        unfold writeLfnEntry
        rw [le16_putRun _ _ _ (by omega)]
        congr 1
        omega

structure IsFileSlot (slot : Slot) (name83 : Path) (attr : Byte) (cluster size : BitVec 32) :
    Prop where
  first : byteAt slot 0 = (ljust11 name83).getD 0 0#8
  attr : byteAt slot 11 = attr
  cluster : (dirEnt slot).entryCluster = cluster
  size : (dirEnt slot).fileSize = size

lemma write83Entry_slot (img : Image) (parentOff slot : Nat) (name83 : Path) (attr : Byte)
    (cluster size : BitVec 32) :
    IsFileSlot (slotAt (write83Entry img parentOff slot name83 attr cluster size) parentOff slot)
      name83 attr cluster size where
  first := by
    rw [byteAt_slotAt _ _ _ (by omega)]
    unfold write83Entry
    rw [put32_of_apart _ _ (by omega), put16_of_apart _ _ (by omega),
      put16_of_apart _ _ (by omega), update_of_ne (by omega), copied, if_pos (by omega)]
    congr 1
    omega
  attr := by
    rw [byteAt_slotAt _ _ _ (by omega)]
    unfold write83Entry
    rw [put32_of_apart _ _ (by omega), put16_of_apart _ _ (by omega),
      put16_of_apart _ _ (by omega), update_self]
  cluster := by
    unfold Fat32DirEnt.entryCluster
    simp only [dirEnt]
    rw [le16_slotAt _ _ _ (by omega), le16_slotAt _ _ _ (by omega)]
    unfold write83Entry
    rw [le16_congr (put32_of_apart _ _ (by omega)) (put32_of_apart _ _ (by omega)),
      le16_congr (put16_of_apart _ _ (by omega)) (put16_of_apart _ _ (by omega)), le16_put16,
      le16_congr (put32_of_apart _ _ (by omega)) (put32_of_apart _ _ (by omega)), le16_put16]
    exact append_halves 16 cluster
  size := by
    simp only [dirEnt]
    rw [le32_slotAt _ _ _ (by omega)]
    exact le32_put32 _ _ _

lemma writeChunks_of_apart (longName : Path) (checksum : Byte) (other : k < slot ∨ slot + n ≤ k) :
    slotAt (writeChunks parentOff longName checksum n slot img) parentOff k =
      slotAt img parentOff k := by
  induction n generalizing slot img with
  | zero => rfl
  | succ n ih => rw [writeChunks, ih (by omega), writeLfnEntry_of_ne _ _ _ (by omega)]

/-- The slots of the chunks of a long name, the last chunk first. -/
def AreChunkSlots (longName : Path) : List Slot → Prop
  | [] => True
  | slot :: slots =>
    IsLfnSlot slot (orderByte (chunkCount longName) slots.length) (chunk longName slots.length) ∧
      AreChunkSlots longName slots

lemma writeChunks_slots (img : Image) (parentOff slot : Nat) (longName : Path) (checksum : Byte)
    (n : Nat) :
    AreChunkSlots longName ((range' slot n).map
      (slotAt (writeChunks parentOff longName checksum n slot img) parentOff)) := by
  induction n generalizing slot img with
  | zero => trivial
  | succ n ih =>
    rw [range'_succ, map_cons]
    refine ⟨?_, ih _ _⟩
    rw [length_map, length_range', writeChunks, writeChunks_of_apart _ _ (by omega)]
    exact writeLfnEntry_slot ..

lemma writeFileEntry_slots (img : Image) (parentOff slot : Nat) (longName shortName : Path)
    (attr : Byte) (cluster size : BitVec 32) :
    ∃ chunks file,
      slotsBetween (writeFileEntry img parentOff slot longName shortName attr cluster size).1
        parentOff slot
        (writeFileEntry img parentOff slot longName shortName attr cluster size).2 =
          chunks ++ [file] ∧
      chunks.length = chunkCount longName ∧ AreChunkSlots longName chunks ∧
      IsFileSlot file (ljust11 shortName) attr cluster size := by
  refine ⟨_, _, ?_, ?_, writeChunks_slots img parentOff slot longName
    (lfnChecksum (ljust11 shortName)) (chunkCount longName),
    write83Entry_slot (writeChunks parentOff longName (lfnChecksum (ljust11 shortName))
      (chunkCount longName) slot img) parentOff (slot + chunkCount longName) _ attr cluster size⟩
  · simp only [slotsBetween, writeFileEntry]
    rw [show slot + chunkCount longName + 1 - slot = chunkCount longName + 1 by omega,
      range'_concat, Nat.one_mul, map_append, map_singleton]
    congr 1
    apply map_congr_left
    intro k within
    rw [mem_range'_1] at within
    exact write83Entry_of_ne _ _ _ _ (by omega)
  · rw [length_map, length_range']

end MicroOs.Fs.MkFat32

namespace MicroOs.Fs.Fat32
open Lib MkFat32 List

variable {count i k n : Nat} {lfn : Lfn} {name : Path}

def isPadding (char : BitVec 16) : Prop := char = 0#16 ∨ char = 0xFFFF#16

namespace Lfn

variable {lfn : Lfn} {base n p : Nat} {chars : Nat → BitVec 16}

lemma putChars_buf_of_apart (apart : p < base ∨ base + n ≤ p) :
    (lfn.putChars base chars n).buf p = lfn.buf p := by
  induction n with
  | zero => rfl
  | succ n ih =>
    rw [putChars, ← ih (by omega)]
    unfold putChar
    split
    · rfl
    · split
      · rfl
      · exact Function.update_of_ne (by omega) _ _

lemma putChars_buf_of_padding (padding : isPadding (chars i)) :
    (lfn.putChars base chars n).buf (base + i) = lfn.buf (base + i) := by
  induction n with
  | zero => rfl
  | succ n ih =>
    rw [putChars, ← ih]
    unfold putChar
    split
    · rfl
    · split
      · rfl
      · next char =>
        have other : i ≠ n := by
          rintro rfl
          exact char padding
        exact Function.update_of_ne (by omega) _ _

lemma putChar_len_le (lfn : Lfn) (pos : Nat) (char : BitVec 16) :
    lfn.len ≤ (lfn.putChar pos char).len := by
  unfold putChar
  split
  · exact Nat.le_refl _
  · split
    · exact Nat.le_max_left _ _
    · exact Nat.le_max_left _ _

lemma putChars_len_le (lfn : Lfn) (base : Nat) (chars : Nat → BitVec 16) (n : Nat) :
    lfn.len ≤ (lfn.putChars base chars n).len := by
  induction n with
  | zero => exact Nat.le_refl _
  | succ n ih => exact Nat.le_trans ih (putChar_len_le _ _ _)

lemma putChars_char {c : Byte} (inside : i < n) (room : base + i < fat32MaxName - 1)
    (char : chars i = c.setWidth 16) (ascii : 0#8 < c ∧ c < 128#8) :
    (lfn.putChars base chars n).buf (base + i) = c ∧
      base + i < (lfn.putChars base chars n).len := by
  have shown : ¬(c.setWidth 16 = 0#16 ∨ c.setWidth 16 = 0xFFFF#16) ∧ c.setWidth 16 < 128#16 := by
    bv_omega
  induction n with
  | zero => omega
  | succ n ih =>
    rw [putChars]
    by_cases last : i = n
    · subst last
      unfold putChar
      rw [dif_neg (by omega), char, if_neg shown.1, if_pos shown.2]
      constructor
      · have back : (c.setWidth 16).setWidth 8 = c := by bv_omega
        exact (Function.update_self ..).trans back
      · exact Nat.lt_of_lt_of_le (Nat.lt_succ_self _) (Nat.le_max_right _ _)
    · obtain ⟨placed, below⟩ := ih (by omega)
      refine ⟨?_, Nat.lt_of_lt_of_le below (putChar_len_le _ _ _)⟩
      rw [← placed]
      unfold putChar
      split
      · rfl
      · split
        · rfl
        · exact Function.update_of_ne (by omega) _ _

end Lfn

/-- An ASCII name without a zero. -/
def IsAscii (name : Path) : Prop := ∀ c ∈ name, 0#8 < c ∧ c < 128#8

instance (name : Path) : Decidable (IsAscii name) := inferInstanceAs (Decidable (∀ c ∈ name, _))

/-- The chunks from `k` on are assembled, except the twentieth. -/
structure Assembled (name : Path) (k : Nat) (lfn : Lfn) : Prop where
  buf : ∀ p, lfn.buf p = if 13 * k ≤ p ∧ p < 247 then name.getD p 0#8 else 0#8
  len : ∀ p, 13 * k ≤ p → p < 247 → p < name.length → p < lfn.len
  valid : k < 19 → 13 * k < name.length → lfn.valid

lemma assembled_reset (all : name.length ≤ 13 * k) :
    Assembled name k Lfn.reset where
  buf := by
    intro p
    split
    · next within => rw [getD_eq_default _ _ (by omega)]; rfl
    · rfl
  len := by
    intro p start room inside
    omega
  valid := by
    intro few inside
    omega

lemma orderByte_index (few : k < 20) : (orderByte count k &&& 0x3F#8).toNat = k + 1 := by
  unfold orderByte
  split <;> interval_cases k <;> rfl

lemma orderByte_used (few : k < 20) : orderByte count k ≠ 0#8 ∧ orderByte count k ≠ 0xE5#8 := by
  unfold orderByte
  split <;> interval_cases k <;> decide

lemma getD_chunk (name : Path) (inside : i < 13) :
    (chunk name k).getD i 0#8 = name.getD (13 * k + i) 0#8 := by
  simp only [chunk, getD_eq_getElem?_getD]
  rw [getElem?_take_of_lt inside, getElem?_drop]

lemma length_chunk (name : Path) (k : Nat) :
    (chunk name k).length = min 13 (name.length - 13 * k) := by
  rw [chunk, length_take, length_drop]

lemma Assembled.append {slot : Slot} (ascii : IsAscii name) (few : k < 20)
    (assembled : Assembled name (k + 1) lfn)
    (written : IsLfnSlot slot (orderByte count k) (chunk name k)) :
    Assembled name k (lfn.append (lfnEntry slot)) := by
  have order : ((lfnEntry slot).order &&& 0x3F#8).toNat = k + 1 := by
    rw [← orderByte_index few, ← written.first]
    rfl
  by_cases twentieth : k = 19
  · -- the chunk is ignored, and nothing of it was to be assembled
    have same : lfn.append (lfnEntry slot) = lfn := by
      unfold Lfn.append
      rw [order]
      exact if_pos (Or.inr (by rw [twentieth]; decide))
    rw [same]
    refine ⟨?_, ?_, ?_⟩
    · intro p
      rw [assembled.buf, if_neg (by omega), if_neg (by omega)]
    · intro p start room inside
      omega
    · intro small inside
      omega
  · have put : lfn.append (lfnEntry slot) =
        { lfn.putChars (13 * k) (lfnEntry slot).chars 13 with valid := true } := by
      unfold Lfn.append
      rw [order, if_neg (by simp only [fat32MaxName]; omega), Nat.add_sub_cancel, Nat.mul_comm]
    rw [put]
    have ascii_at : ∀ p, p < name.length → 0#8 < name.getD p 0#8 ∧ name.getD p 0#8 < 128#8 := by
      intro p inside
      rw [getD_eq_getElem _ _ inside]
      exact ascii _ (getElem_mem _)
    have placed : ∀ i, i < 13 → 13 * k + i < name.length →
        (lfn.putChars (13 * k) (lfnEntry slot).chars 13).buf (13 * k + i) =
          name.getD (13 * k + i) 0#8 ∧
        13 * k + i < (lfn.putChars (13 * k) (lfnEntry slot).chars 13).len := by
      intro i inside within
      apply Lfn.putChars_char inside (by simp only [fat32MaxName]; omega) _ (ascii_at _ within)
      rw [written.chars i inside, lfnChars, if_pos (by rw [length_chunk]; omega),
        getD_chunk _ inside]
    refine ⟨?_, ?_, fun _ _ => rfl⟩
    · intro p
      by_cases here : 13 * k ≤ p ∧ p < 13 * k + 13
      · obtain ⟨i, rfl⟩ := Nat.exists_eq_add_of_le here.1
        rw [if_pos (by omega)]
        rcases Nat.lt_or_ge (13 * k + i) name.length with within | beyond
        · exact (placed i (by omega) within).1
        · rw [getD_eq_default _ _ beyond]
          show (lfn.putChars (13 * k) (lfnEntry slot).chars 13).buf (13 * k + i) = 0#8
          rw [Lfn.putChars_buf_of_padding, assembled.buf, if_neg (by omega)]
          right
          rw [written.chars i (by omega), lfnChars, if_neg (by rw [length_chunk]; omega)]
      · show (lfn.putChars (13 * k) (lfnEntry slot).chars 13).buf p = _
        rw [Lfn.putChars_buf_of_apart (by omega), assembled.buf]
        by_cases later : 13 * (k + 1) ≤ p ∧ p < 247
        · rw [if_pos later, if_pos (by omega)]
        · rw [if_neg later, if_neg (by omega)]
    · intro p start room inside
      rcases Nat.lt_or_ge p (13 * k + 13) with here | later
      · obtain ⟨i, rfl⟩ := Nat.exists_eq_add_of_le start
        exact (placed i (by omega) inside).2
      · exact Nat.lt_of_lt_of_le (assembled.len p (by omega) room inside)
          (Lfn.putChars_len_le _ _ _ _)

lemma scan_chunks (ascii : IsAscii name) {chunks : List Slot}
    (written : AreChunkSlots name chunks) (few : chunks.length ≤ 20)
    (assembled : Assembled name chunks.length lfn) (rest : List Slot) :
    ∃ lfn', Assembled name 0 lfn' ∧ scan lfn (chunks ++ rest) = scan lfn' rest := by
  induction chunks generalizing lfn with
  | nil => exact ⟨lfn, assembled, rfl⟩
  | cons slot chunks ih =>
    obtain ⟨first, others⟩ := written
    rw [length_cons] at few assembled
    obtain ⟨lfn', done, same⟩ := ih others (by omega) (assembled.append ascii (by omega) first)
    refine ⟨lfn', done, ?_⟩
    have used : orderByte (chunkCount name) chunks.length ≠ 0#8 ∧
        orderByte (chunkCount name) chunks.length ≠ 0xE5#8 := orderByte_used (by omega)
    have attr : (dirEnt slot).attr = attrLfn := first.attr
    rw [cons_append, scan, first.first, if_neg used.1, if_neg used.2, if_pos attr, same]

lemma cString_window {f : Nat → Byte} (fits : name.length ≤ n)
    (same : ∀ i, i ≤ name.length → i < n → f i = name.getD i 0#8) (nonzero : ∀ c ∈ name, c ≠ 0#8) :
    cString (window f 0 n) = name := by
  induction name generalizing f n with
  | nil =>
    cases n with
    | zero => rfl
    | succ n =>
      have zero : f 0 = 0#8 := same 0 (Nat.le_refl _) (by omega)
      simp [cString, window, range_succ_eq_map, zero]
  | cons c name ih =>
    cases n with
    | zero => simp at fits
    | succ n =>
      have head : f 0 = c := same 0 (by omega) (by omega)
      have shifted : window f 0 (n + 1) = f 0 :: window (fun i => f (i + 1)) 0 n := by
        simp [window, range_succ_eq_map, Function.comp_def]
      rw [shifted, cString, takeWhile_cons_of_pos (by simpa [head] using nonzero c (by simp)), head]
      congr 1
      apply ih (by simpa using fits)
      · intro i le inside
        rw [same (i + 1) (by simpa using le) (by omega), getD_cons_succ]
      · intro d member
        exact nonzero d (by simp [member])

lemma callName_assembled (ascii : IsAscii name) (nonempty : name ≠ [])
    (assembled : Assembled name 0 lfn) (ent : Fat32DirEnt) : lfn.callName ent = name.take 247 := by
  have some_char : 0 < name.length := length_pos_of_ne_nil nonempty
  have valid : lfn.valid := assembled.valid (by decide) (by simpa using some_char)
  unfold Lfn.callName
  rw [if_pos valid]
  have length := length_take (i := 247) (l := name)
  apply cString_window
  · -- the last assembled character is below the length
    have last := assembled.len (min 247 name.length - 1) (by omega) (by omega) (by omega)
    omega
  · intro i le inside
    rw [assembled.buf, getD_eq_getElem?_getD, getD_eq_getElem?_getD, getElem?_take]
    split
    · next within => rw [if_pos within.2]
    · next outside =>
      rw [if_neg (by omega)]
      rfl
  · intro c member zero
    have positive := (ascii c (mem_of_mem_take member)).1
    rw [zero] at positive
    exact absurd positive (by decide)

lemma scan_written (longName shortName : Path) (attr : Byte) (cluster size : BitVec 32)
    (ascii : IsAscii longName) (nonempty : longName ≠ []) (short : longName.length ≤ 255)
    (alias_used : (ljust11 shortName).getD 0 0#8 ≠ 0#8 ∧ (ljust11 shortName).getD 0 0#8 ≠ 0xE5#8)
    (no_volume : attr &&& attrVolumeId = 0#8) (img : Image) (parentOff slot : Nat)
    (post : List Slot) :
    ∃ ent : Fat32DirEnt, ent.entryCluster = cluster ∧ ent.fileSize = size ∧
      (scan Lfn.reset
        (slotsBetween (writeFileEntry img parentOff slot longName shortName attr cluster size).1
          parentOff slot
          (writeFileEntry img parentOff slot longName shortName attr cluster size).2 ++ post)).1 =
        (ent, longName.take 247) :: (scan Lfn.reset post).1 := by
  obtain ⟨chunks, file, slots, length, written, filed⟩ :=
    writeFileEntry_slots img parentOff slot longName shortName attr cluster size
  have few : chunks.length ≤ 20 := by
    rw [length, chunkCount]
    omega
  have reset : Assembled longName chunks.length Lfn.reset := by
    apply assembled_reset
    rw [length, chunkCount]
    omega
  obtain ⟨lfn, assembled, same⟩ := scan_chunks ascii written few reset (file :: post)
  have not_lfn : (dirEnt file).attr ≠ attrLfn := by
    intro isLfn
    rw [show (dirEnt file).attr = attr from filed.attr] at isLfn
    rw [isLfn] at no_volume
    exact absurd no_volume (by decide)
  have no_label : ¬(dirEnt file).attr &&& attrVolumeId ≠ 0#8 := by
    rw [show (dirEnt file).attr = attr from filed.attr]
    exact not_not_intro no_volume
  refine ⟨dirEnt file, filed.cluster, filed.size, ?_⟩
  rw [slots, append_assoc, singleton_append, same, scan, filed.first,
    if_neg (by rw [ljust11_idem]; exact alias_used.1),
    if_neg (by rw [ljust11_idem]; exact alias_used.2), if_neg not_lfn, if_neg no_label,
    callName_assembled ascii nonempty assembled]

/-- In any directory that holds the slots of a file written by the builder, with nothing left over
from the slots before, the reader makes exactly one callback for the file, in its place and with its
cluster and size. The name is the long name exactly if that has at most 247 characters. -/
theorem long_name_round_trip_iff (m : Mount) (directory : BitVec 32) (longName shortName : Path)
    (attr : Byte) (cluster size : BitVec 32) (img : Image) (parentOff slot : Nat)
    (pre post : List Slot) {calls : List (Fat32DirEnt × Path)}
    (ascii : IsAscii longName) (nonempty : longName ≠ []) (short : longName.length ≤ 255)
    (alias_used : (ljust11 shortName).getD 0 0#8 ≠ 0#8 ∧ (ljust11 shortName).getD 0 0#8 ≠ 0xE5#8)
    (no_volume : attr &&& attrVolumeId = 0#8) (buffer : m.buffer)
    (stored : m.dirSlots directory = pre ++
      (slotsBetween (writeFileEntry img parentOff slot longName shortName attr cluster size).1
        parentOff slot
        (writeFileEntry img parentOff slot longName shortName attr cluster size).2 ++ post))
    (before : scan Lfn.reset pre = (calls, some Lfn.reset)) :
    (∃ ent : Fat32DirEnt, ent.entryCluster = cluster ∧ ent.fileSize = size ∧
      (m.iterateDir directory).1 = calls ++ (ent, longName) :: (scan Lfn.reset post).1) ↔
    longName.length ≤ 247 := by
  obtain ⟨ent, its_cluster, its_size, reported⟩ :=
    scan_written longName shortName attr cluster size ascii nonempty short alias_used no_volume img
      parentOff slot post
  have all : (m.iterateDir directory).1 =
      calls ++ (ent, longName.take 247) :: (scan Lfn.reset post).1 := by
    rw [m.iterateDir_calls directory buffer, stored, scan_append, before, ← reported]
  rw [all]
  constructor
  · rintro ⟨ent', -, -, same⟩
    have head := (cons.inj (append_cancel_left same)).1
    have name : longName.take 247 = longName := congrArg Prod.snd head
    rw [← name, length_take]
    omega
  · intro fits
    refine ⟨ent, its_cluster, its_size, ?_⟩
    rw [take_of_length_le fits]

theorem long_name_round_trip_iff_hello :
    ∃ ent : Fat32DirEnt, ent.entryCluster = 3#32 ∧ ent.fileSize = 33#32 ∧
      ((builtVolume (oneFileImage helloName helloAlias) 1#8).iterateDir 2#32).1 =
        [] ++ (ent, helloName) ::
          (scan Lfn.reset (replicate 14 (replicate 32 0#8))).1 :=
  (long_name_round_trip_iff (builtVolume (oneFileImage helloName helloAlias) 1#8) 2#32 helloName helloAlias
    0x20#8 3#32 33#32 (fun _ => 0#8) rootOff 0 [] (replicate 14 (replicate 32 0#8))
    (by decide) (by decide) (by decide) (by decide) (by decide) rfl (by decide +kernel) rfl).mpr
    (by decide)

lemma sectorSlots_image (img : Image) (lba parentOff first : Nat)
    (there : lba * 512 = parentOff + first * 32) :
    sectorSlots (fun offset => img (lba * 512 + offset)) =
      slotsBetween img parentOff first (first + 16) := by
  rw [sectorSlots, slotsBetween, Nat.add_sub_cancel_left, range'_eq_map_range, map_map]
  apply map_congr_left
  intro i _
  simp only [Function.comp_apply, slotAt, window]
  apply map_congr_left
  intro k _
  rw [there, Nat.add_mul]
  congr 1
  omega

lemma slotsBetween_append (img : Image) (parentOff : Nat) {first middle next : Nat}
    (start : first ≤ middle) (stop : middle ≤ next) :
    slotsBetween img parentOff first next =
      slotsBetween img parentOff first middle ++ slotsBetween img parentOff middle next := by
  rw [slotsBetween, slotsBetween, slotsBetween, ← map_append]
  congr 1
  have join := range'_append_1 (s := first) (m := middle - first) (n := next - middle)
  rw [Nat.add_sub_cancel' start] at join
  rw [join]
  congr 1
  omega

lemma dirSlots_builtVolume (img : Image) :
    ∃ rest, (builtVolume img 2#8).dirSlots 2#32 = slotsBetween img rootOff 0 32 ++ rest := by
  have steps : (builtVolume img 2#8).maxClusters = 2147483614 + 1 := by
    show (if 0#8 < 2#8 ∧ 0#32 < 64#32 then (0xFFFFFFFF - (64#32).toNat) / (2#8).toNat else 0) = _
    decide
  have sectors : (builtVolume img 2#8).readCluster 2#32 =
      some [fun offset => img (64 * 512 + offset), fun offset => img (65 * 512 + offset)] := rfl
  refine ⟨((builtVolume img 2#8).slotsFrom 2147483614
    ((builtVolume img 2#8).nextCluster 2#32)).1, ?_⟩
  unfold Mount.dirSlots
  rw [steps, Mount.slotsFrom, if_neg (by decide), sectors]
  simp only [flatMap_cons, flatMap_nil, append_nil]
  rw [sectorSlots_image img 64 rootOff 0 (by decide),
    sectorSlots_image img 65 rootOff 16 (by decide),
    ← slotsBetween_append img rootOff (by decide) (by decide)]

lemma one_file_reported (ascii : IsAscii name) (nonempty : name ≠ [])
    (short : name.length ≤ 255) :
    ∃ ent, ((builtVolume (oneFileImage name helloAlias) 2#8).iterateDir 2#32).1 = [(ent, name.take 247)] := by
  have few : chunkCount name + 1 < 32 := by
    unfold chunkCount
    omega
  have next : (writeFileEntry (fun _ => 0#8) rootOff 0 name helloAlias 0x20#8 3#32 33#32).2 =
      chunkCount name + 1 := by
    rw [writeFileEntry, Nat.zero_add]
  obtain ⟨rest, stored⟩ := dirSlots_builtVolume (oneFileImage name helloAlias)
  rw [slotsBetween_append _ _ (Nat.zero_le (chunkCount name + 1)) (Nat.le_of_lt few),
    append_assoc] at stored
  obtain ⟨ent, -, -, reported⟩ := scan_written name helloAlias 0x20#8 3#32 33#32 ascii
    nonempty short (by decide) (by decide) (fun _ => 0#8) rootOff 0
    (slotsBetween (oneFileImage name helloAlias) rootOff (chunkCount name + 1) 32 ++ rest)
  -- the slot after the entry is the end of the directory
  have ended : byteAt (slotAt (oneFileImage name helloAlias) rootOff (chunkCount name + 1)) 0 = 0#8 := by
    unfold oneFileImage writeFileEntry
    rw [write83Entry_of_ne _ _ _ _ (by omega), writeChunks_of_apart _ _ (by omega),
      byteAt_slotAt _ _ _ (by omega)]
  obtain ⟨after, more⟩ := Nat.exists_eq_add_of_lt few
  refine ⟨ent, ?_⟩
  rw [Mount.iterateDir_calls _ _ rfl, stored]
  rw [next] at reported
  refine reported.trans ?_
  congr 1
  rw [slotsBetween, show 32 - (chunkCount name + 1) = after + 1 by omega, range'_succ,
    map_cons, cons_append, scan, if_pos ended]

theorem name_of_248_is_cut :
    ∃ ent, ((builtVolume (oneFileImage (replicate 248 0x61#8) helloAlias) 2#8).iterateDir 2#32).1 =
      [(ent, replicate 247 0x61#8)] := by
  have ascii : IsAscii (replicate 248 0x61#8) := by
    intro c member
    rw [eq_of_mem_replicate member]
    decide
  have length : (replicate 248 (0x61#8 : Byte)).length = 248 := length_replicate
  have nonempty : replicate 248 (0x61#8 : Byte) ≠ [] := by
    apply ne_nil_of_length_pos
    rw [length]
    decide
  obtain ⟨ent, reported⟩ := one_file_reported ascii nonempty (by rw [length]; decide)
  refine ⟨ent, reported.trans ?_⟩
  rw [take_replicate]
  rfl

end MicroOs.Fs.Fat32
