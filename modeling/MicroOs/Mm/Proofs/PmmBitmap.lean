import MicroOs.Mm.Pmm

/-!
# The bitmap operations

`popcount64` counts the set bits of its argument, and the bulk operations write
exactly the bits of their range and return how many of them changed.
-/

namespace MicroOs.Mm
open Lib List

lemma bitmapTest_eq (w : Words) (page : Nat) : bitmapTest w page = bitAt w page := by
  unfold bitmapTest bitAt
  have hone : (w (page / 64) >>> (page % 64)) &&& 1#64 =
      BitVec.setWidth 64 (BitVec.ofBool ((w (page / 64)).getLsbD (page % 64))) := by
    rw [BitVec.and_one_eq_setWidth_ofBool_getLsbD, BitVec.getLsbD_ushiftRight, Nat.add_zero]
  rw [hone]
  cases (w (page / 64)).getLsbD (page % 64) <;> decide

lemma bitAt_bitmapSet (w : Words) (p q : Nat) :
    bitAt (bitmapSet w p) q = (decide (q = p) || bitAt w q) := bitAt_or_bit w p q

lemma bitAt_bitmapClear (w : Words) (p q : Nat) :
    bitAt (bitmapClear w p) q = (!decide (q = p) && bitAt w q) := bitAt_and_not_bit w p q

section
variable (on : Bool) (w : Words)

lemma bitAt_bitmapPut (p q : Nat) :
    bitAt (bitmapPut on w p) q = if q = p then on else bitAt w q := by
  cases on
  · simp only [bitmapPut, Bool.false_eq_true, if_false, bitAt_bitmapClear]
    by_cases h : q = p <;> simp [h]
  · simp only [bitmapPut, if_true, bitAt_bitmapSet]
    by_cases h : q = p <;> simp [h]

/-- What the three parallel steps of `popcount64` do to one byte. -/
def popByte1 (b : Nat) : Nat := b - ((b / 2 ^ 1) &&& 0x55)
def popByte2 (b : Nat) : Nat := (b &&& 0x33) + ((b / 2 ^ 2) &&& 0x33)
def popByte3 (b : Nat) : Nat := (b + b / 16) % 16

lemma popByte_bounds : ∀ b < 256, (b / 2 ^ 1) &&& 0x55 ≤ b ∧ popByte1 b < 256 ∧
    popByte2 b < 128 ∧ popByte2 b % 16 ≤ 7 ∧ popByte2 b / 16 ≤ 7 := by
  decide +kernel

lemma popByte_count : ∀ b < 256,
    popByte3 (popByte2 (popByte1 b)) = bitCount 8 b ∧ bitCount 8 b ≤ 8 := by
  decide +kernel

section Stages

variable {x : BitVec 64} {bs : List Nat}

lemma popStage1 (hlen : bs.length = 8) (hlt : ∀ b ∈ bs, b < 256) (hx : x.toNat = pack bs) :
    (x - ((x >>> 1) &&& 0x5555555555555555#64)).toNat = pack (bs.map popByte1) := by
  have hmask : (0x5555555555555555#64).toNat = pack (replicate bs.length 0x55) := by
    rw [hlen]; rfl
  have hand : ((x >>> 1) &&& 0x5555555555555555#64).toNat =
      pack (bs.map fun b => (b / 2 ^ 1) &&& 0x55) := by
    rw [BitVec.toNat_and, BitVec.toNat_ushiftRight, Nat.shiftRight_eq_div_pow, hx, hmask,
      pack_shift_and_replicate (by decide) (by decide) bs hlt]
  obtain ⟨hsub, hle⟩ := pack_sub (fun b => (b / 2 ^ 1) &&& 0x55) bs
    (fun b hb => (popByte_bounds b (hlt b hb)).1)
  have hnowrap : (x >>> 1) &&& 0x5555555555555555#64 ≤ x := by
    rw [BitVec.le_def, hand, hx]; exact hle
  rw [BitVec.toNat_sub_of_le hnowrap, hand, hx, hsub]
  rfl

lemma popStage2 (hlen : bs.length = 8) (hlt : ∀ b ∈ bs, b < 256) (hx : x.toNat = pack bs) :
    ((x &&& 0x3333333333333333#64) + ((x >>> 2) &&& 0x3333333333333333#64)).toNat =
      pack (bs.map popByte2) := by
  have hmask : (0x3333333333333333#64).toNat = pack (replicate bs.length 0x33) := by
    rw [hlen]; rfl
  have hbound : pack (bs.map popByte2) < 256 ^ (bs.map popByte2).length := by
    apply pack_lt
    intro c hc
    obtain ⟨b, hb, rfl⟩ := mem_map.mp hc
    have := (popByte_bounds b (hlt b hb)).2.2.1
    omega
  rw [length_map, hlen] at hbound
  rw [BitVec.toNat_add, BitVec.toNat_and, BitVec.toNat_and, BitVec.toNat_ushiftRight,
    Nat.shiftRight_eq_div_pow, hx, hmask, pack_and_replicate (by decide) bs hlt,
    pack_shift_and_replicate (by decide) (by decide) bs hlt, pack_add]
  exact Nat.mod_eq_of_lt hbound

lemma popStage3 (hlen : bs.length = 8) (hlt : ∀ b ∈ bs, b < 128)
    (hhalf : ∀ b ∈ bs, b % 16 ≤ 7 ∧ b / 16 ≤ 7) (hx : x.toNat = pack bs) :
    ((x + (x >>> 4)) &&& 0x0F0F0F0F0F0F0F0F#64).toNat = pack (bs.map popByte3) := by
  have hmask : (0x0F0F0F0F0F0F0F0F#64).toNat = pack (replicate bs.length 15) := by
    rw [hlen]; rfl
  have hbound := two_mul_pack_lt bs hlt
  rw [hlen] at hbound
  rw [BitVec.toNat_and, BitVec.toNat_add, BitVec.toNat_ushiftRight, Nat.shiftRight_eq_div_pow, hx,
    hmask, Nat.mod_eq_of_lt (by omega)]
  exact pack_fold_halves bs hhalf

lemma topByte {low top : Nat} (hlow : low < 2 ^ 56) (htop : top < 256) (high : Nat) :
    (low + 2 ^ 56 * top + 2 ^ 64 * high) % 2 ^ 64 / 2 ^ 56 = top := by
  omega

lemma pack_sum_mul (hlen : bs.length = 8) (hle : ∀ p ∈ bs, p ≤ 8) :
    (pack bs * 0x0101010101010101) % 2 ^ 64 / 2 ^ 56 = bs.sum := by
  obtain ⟨a, b, c, d, e, f, g, h, rfl⟩ : ∃ a b c d e f g h, bs = [a, b, c, d, e, f, g, h] := by
    match bs, hlen with
    | [a, b, c, d, e, f, g, h], _ => exact ⟨a, b, c, d, e, f, g, h, rfl⟩
  simp only [mem_cons, not_mem_nil, or_false, forall_eq_or_imp, forall_eq] at hle
  obtain ⟨h1, h2, h3, h4, h5, h6, h7, h8⟩ := hle
  simp only [pack, sum_cons, sum_nil]
  -- the product, cut below the top byte and above it
  rw [show (a + 256 * (b + 256 * (c + 256 * (d + 256 * (e + 256 * (f + 256 * (g + 256 * (h +
      256 * 0)))))))) * 0x0101010101010101 =
      (a + 256 * (a + b + 256 * (a + b + c + 256 * (a + b + c + d + 256 * (a + b + c + d + e +
        256 * (a + b + c + d + e + f + 256 * (a + b + c + d + e + f + g)))))))
      + 2 ^ 56 * (a + b + c + d + e + f + g + h)
      + 2 ^ 64 * (b + c + d + e + f + g + h + 256 * (c + d + e + f + g + h + 256 *
        (d + e + f + g + h + 256 * (e + f + g + h + 256 * (f + g + h + 256 * (g + h + 256 * h))))))
      by ring, topByte (by omega) (by omega)]
  omega

end Stages

lemma popcount64_toNat (x : BitVec 64) : (popcount64 x).toNat = bitCount 64 x.toNat := by
  have hlen : (unpack 8 x.toNat).length = 8 := unpack_length 8 _
  have hlt : ∀ b ∈ unpack 8 x.toNat, b < 256 := unpack_lt 8 _
  have hx : x.toNat = pack (unpack 8 x.toNat) := (pack_unpack (by simpa using x.isLt)).symm
  generalize unpack 8 x.toNat = bs at hlen hlt hx
  have e1 := popStage1 hlen hlt hx
  have lt1 : ∀ b ∈ bs.map popByte1, b < 256 := by
    intro c hc
    obtain ⟨b, hb, rfl⟩ := mem_map.mp hc
    exact (popByte_bounds b (hlt b hb)).2.1
  have e2 := popStage2 (by simpa using hlen) lt1 e1
  have bounds2 : ∀ b ∈ (bs.map popByte1).map popByte2, b < 128 ∧ b % 16 ≤ 7 ∧ b / 16 ≤ 7 := by
    intro c hc
    obtain ⟨b, hb, rfl⟩ := mem_map.mp hc
    exact (popByte_bounds b (lt1 b hb)).2.2
  have e3 := popStage3 (by simpa using hlen) (fun b hb => (bounds2 b hb).1)
    (fun b hb => (bounds2 b hb).2) e2
  have hcounts : ((bs.map popByte1).map popByte2).map popByte3 = bs.map (bitCount 8) := by
    rw [map_map, map_map]
    exact map_congr_left (fun b hb => (popByte_count b (hlt b hb)).1)
  rw [hcounts] at e3
  have hle : ∀ p ∈ bs.map (bitCount 8), p ≤ 8 := by
    intro c hc
    obtain ⟨b, hb, rfl⟩ := mem_map.mp hc
    exact (popByte_count b (hlt b hb)).2
  have hmul := pack_sum_mul (by simpa using hlen) hle
  have hsum := bitCount_pack bs hlt
  rw [hlen] at hsum
  have hconst : (0x0101010101010101#64).toNat = 0x0101010101010101 := rfl
  calc (popcount64 x).toNat
      = (pack (bs.map (bitCount 8)) * 0x0101010101010101) % 2 ^ 64 / 2 ^ 56 := by
        unfold popcount64
        rw [BitVec.toNat_ushiftRight, BitVec.toNat_mul, hconst, Nat.shiftRight_eq_div_pow, e3]
    _ = (bs.map (bitCount 8)).sum := hmul
    _ = bitCount 64 x.toNat := by rw [hx]; exact hsum.symm

lemma wrote_bit (start count : Nat) :
    Wrote on w start count
      (if bitmapTest w start = on then (w, start + 1, count)
        else (bitmapPut on w start, start + 1, count + 1)) := by
  rw [bitmapTest_eq]
  split
  case isTrue same =>
    refine ⟨Nat.le_succ _, ?_, ?_⟩
    · intro p
      split
      · obtain rfl : p = start := by simp only at *; omega
        exact same
      · rfl
    · simp only [changed_one, if_pos same, Nat.add_zero]
  case isFalse differ =>
    refine ⟨Nat.le_succ _, ?_, ?_⟩
    · intro p
      simp only [bitAt_bitmapPut]
      by_cases h : p = start
      · rw [if_pos h, if_pos (by omega)]
      · rw [if_neg h, if_neg (by omega)]
    · simp only [changed_one, if_neg differ]

/-- The bit-by-bit loop writes up to where it stops, and stops at `stop` or, in the first
loop, at a multiple of 64. -/
lemma bitmapBits_spec (on unaligned : Bool) (stop : Nat) (w : Words) (start count : Nat) :
    Wrote on w start count (bitmapBits on unaligned stop w start count) ∧
      (bitmapBits on unaligned stop w start count).2.1 ≤ max start stop ∧
      (stop ≤ (bitmapBits on unaligned stop w start count).2.1 ∨
        unaligned = true ∧ (bitmapBits on unaligned stop w start count).2.1 % 64 = 0) := by
  fun_induction bitmapBits on unaligned stop w start count with
  | case1 w start count running same ih =>
    obtain ⟨wrote, upper, exit⟩ := ih
    have one := wrote_bit on w start count
    rw [if_pos same] at one
    exact ⟨one.trans wrote, by omega, exit⟩
  | case2 w start count running differ ih =>
    obtain ⟨wrote, upper, exit⟩ := ih
    have one := wrote_bit on w start count
    rw [if_neg differ] at one
    exact ⟨one.trans wrote, by omega, exit⟩
  | case3 w start count done =>
    refine ⟨Wrote.refl on w start count, Nat.le_max_left _ _, ?_⟩
    by_cases h : stop ≤ start
    · exact Or.inl h
    · right
      cases unaligned
      · exact absurd ⟨by omega, by simp⟩ done
      · refine ⟨rfl, ?_⟩
        by_contra hne
        exact done ⟨by omega, fun _ => hne⟩

lemma wrote_word (start count : Nat) (aligned : start % 64 = 0) :
    Wrote on w start count
      (Function.update w (start / 64) (if on then ~~~0#64 else 0#64), start + 64,
        count + if on then 64 - (popcount64 (w (start / 64))).toNat
          else (popcount64 (w (start / 64))).toNat) := by
  have hstart : 64 * (start / 64) = start := by omega
  have hword := bitsIn_word_card w (start / 64)
  rw [hstart] at hword
  refine ⟨by simp, ?_, ?_⟩
  · intro p
    simp only [bitAt_update]
    have hp : p % 64 < 64 := Nat.mod_lt _ (by decide)
    by_cases h : p / 64 = start / 64
    · have inside : start ≤ p ∧ p < start + 64 := by omega
      rw [if_pos h, if_pos inside]
      cases on
      · exact BitVec.getLsbD_zero
      · simp only [if_true, BitVec.getLsbD_not, BitVec.getLsbD_zero, hp, decide_true,
          Bool.not_false, Bool.and_self]
    · have outside : ¬(start ≤ p ∧ p < start + 64) := by omega
      rw [if_neg h, if_neg outside]
  · rw [popcount64_toNat, ← hword]
    cases on
    · simp [changed_false]
    · have := changed_true w start (start + 64)
      simp only [if_true]
      omega

lemma bitmapWords_spec (stop : Nat) (w : Words) (start count : Nat)
    (aligned : start % 64 = 0 ∨ stop ≤ start) :
    Wrote on w start count (bitmapWords on stop w start count) ∧
      (bitmapWords on stop w start count).2.1 ≤ max start stop := by
  fun_induction bitmapWords on stop w start count with
  | case1 w start count running idx pop ih =>
    obtain ⟨wrote, upper⟩ := ih (by omega)
    have limit : max (start + 64) stop ≤ max start stop := by omega
    exact ⟨(wrote_word on w start count (by omega)).trans wrote, Nat.le_trans upper limit⟩
  | case2 w start count done => exact ⟨Wrote.refl on w start count, Nat.le_max_left _ _⟩

lemma bitmapRange_wrote (start stop : Nat) :
    Wrote on w start 0 ((bitmapRange on w start stop).1, max start stop,
      (bitmapRange on w start stop).2) := by
  obtain ⟨head, headUpper, headExit⟩ := bitmapBits_spec on true stop w start 0
  have headLe := head.le
  simp only [bitmapRange]
  generalize bitmapBits on true stop w start 0 = r at *
  have aligned : r.2.1 % 64 = 0 ∨ stop ≤ r.2.1 := headExit.symm.imp_left And.right
  obtain ⟨body, bodyUpper⟩ := bitmapWords_spec on stop r.1 r.2.1 r.2.2 aligned
  have bodyLe := body.le
  generalize bitmapWords on stop r.1 r.2.1 r.2.2 = t at *
  obtain ⟨tail, tailUpper, tailExit⟩ := bitmapBits_spec on false stop t.1 t.2.1 t.2.2
  have tailLe := tail.le
  generalize bitmapBits on false stop t.1 t.2.1 t.2.2 = u at *
  have reached : stop ≤ u.2.1 := tailExit.resolve_right (fun h => Bool.false_ne_true h.1)
  have cursor : max start stop = u.2.1 := by omega
  rw [cursor]
  exact (head.trans body).trans tail

lemma bitAt_bitmapRange (start stop p : Nat) :
    bitAt (bitmapRange on w start stop).1 p =
      if start ≤ p ∧ p < stop then on else bitAt w p := by
  have bits := (bitmapRange_wrote on w start stop).bits p
  simp only at bits
  rw [bits]
  by_cases h : start ≤ p ∧ p < stop
  · rw [if_pos h, if_pos (by omega)]
  · rw [if_neg h, if_neg (by omega)]

lemma bitmapRange_count (start stop : Nat) :
    (bitmapRange on w start stop).2 = changed on w start stop := by
  have counted := (bitmapRange_wrote on w start stop).counted
  simp only [Nat.zero_add] at counted
  rw [counted]
  by_cases h : start ≤ stop
  · rw [Nat.max_eq_right h]
  · rw [changed_self on w (by omega : max start stop ≤ start), changed_self on w (by omega)]

lemma bitAt_foldl_bitmapPut (pages : List Nat) (q : Nat) :
    bitAt (pages.foldl (bitmapPut on) w) q = if q ∈ pages then on else bitAt w q := by
  induction pages generalizing w with
  | nil => simp
  | cons p pages ih =>
    rw [foldl_cons, ih, bitAt_bitmapPut]
    by_cases here : q = p
    · simp [here]
    · simp [here]

lemma bitmapRange_eq_foldl (start stop : Nat) :
    bitmapRange on w start stop =
      ((List.Ico start stop).foldl (bitmapPut on) w, changed on w start stop) := by
  refine Prod.ext ?_ (bitmapRange_count on w start stop)
  funext i
  apply BitVec.eq_of_getLsbD_eq
  intro j hj
  have bits := bitAt_bitmapRange on w start stop (64 * i + j)
  have one := bitAt_foldl_bitmapPut on w (List.Ico start stop) (64 * i + j)
  simp only [List.Ico.mem] at one
  rw [← one] at bits
  simpa [bitAt, Nat.mul_add_div, Nat.mod_eq_of_lt hj, Nat.div_eq_of_lt hj] using bits

end

/-- The bulk operations do what `bitmap_set` and `bitmap_clear` do bit by bit and return how many bits
changed, and `popcount64` counts the set bits. -/
theorem bulk_operations_exact (w : Words) (start stop : Nat) (x : BitVec 64) :
    bitmapSetRange w start stop =
      ((List.Ico start stop).foldl bitmapSet w, changed true w start stop) ∧
    bitmapClearRange w start stop =
      ((List.Ico start stop).foldl bitmapClear w, changed false w start stop) ∧
    (popcount64 x).toNat = bitCount 64 x.toNat :=
  ⟨bitmapRange_eq_foldl true w start stop, bitmapRange_eq_foldl false w start stop,
    popcount64_toNat x⟩

end MicroOs.Mm
