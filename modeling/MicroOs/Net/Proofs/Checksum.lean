import MicroOs.Lib.OnesComplement
import MicroOs.Net.Net

/-!
# The Internet checksum

`ip_checksum` is the complement of the one's complement sum of the words. A packet whose checksum
field was zero when the checksum was taken sums to all ones once it is stored there, so that the
check of a receiver gives zero.
-/

namespace MicroOs.Net
open Lib
open BitVec (toNat_setWidth toNat_ushiftRight eq_of_toNat_eq toNat_not)

variable {len : Nat} {p : Nat → Byte}

lemma checksumLoop_toNat {i : Nat} {sum : BitVec 32}
    (fits : sum.toNat + wordSum p i len < 2 ^ 32) :
    (checksumLoop p i sum len).toNat = sum.toNat + wordSum p i len := by
  induction len using Nat.twoStepInduction generalizing i sum with
  | zero => rfl
  | one =>
    rw [wordSum] at fits
    rw [checksumLoop, wordSum, BitVec.toNat_add, BitVec.toNat_setWidth_of_le (by omega),
      Nat.mod_eq_of_lt fits]
  | more len ih _ =>
    rw [wordSum] at fits
    have added : (sum + (le16 p i).setWidth 32).toNat = sum.toNat + (le16 p i).toNat := by
      rw [BitVec.toNat_add, BitVec.toNat_setWidth_of_le (by omega), Nat.mod_eq_of_lt (by omega)]
    rw [checksumLoop, wordSum, ih (by rw [added]; omega), added, Nat.add_assoc]

lemma endAround_foldCarry (v : BitVec 32) :
    endAround 65535 (foldCarry v).toNat = endAround 65535 v.toNat := by
  rw [foldCarry_toNat]
  split
  · rfl
  · exact endAround_carry 65535 v.toNat

lemma foldCarry_foldCarry_toNat (v : BitVec 32) :
    (foldCarry (foldCarry v)).toNat = endAround 65535 v.toNat := by
  have small : (foldCarry (foldCarry v)).toNat ≤ 65535 := by
    have high := congrArg BitVec.toNat (foldCarry_foldCarry v)
    rw [toNat_ushiftRight, Nat.shiftRight_eq_div_pow] at high
    replace high : (foldCarry (foldCarry v)).toNat / 2 ^ 16 = 0 := high
    omega
  rw [← endAround_of_le small, endAround_foldCarry, endAround_foldCarry]

section
variable (p)

lemma wordSum_fits (i : Nat) (short : len ≤ 65535) : wordSum p i len < 2 ^ 32 := by
  have bound := wordSum_le p i len
  omega

lemma checksumLoop_exact (short : len ≤ 65535) :
    (checksumLoop p 0 0#32 len).toNat = wordSum p 0 len := by
  have fits : (0#32).toNat + wordSum p 0 len < 2 ^ 32 := by
    have := wordSum_fits p 0 short
    show 0 + _ < _
    omega
  rw [checksumLoop_toNat fits]
  exact Nat.zero_add _

lemma ipChecksum_toNat (short : len ≤ 65535) :
    (ipChecksum p len).toNat = 65535 - endAround 65535 (wordSum p 0 len) := by
  have bound := endAround_le (m := 65535) (n := wordSum p 0 len) (by omega)
  rw [ipChecksum, toNat_not, toNat_setWidth, foldCarry_foldCarry_toNat, checksumLoop_exact p short]
  omega

end

lemma ipChecksum_congr {q : Nat → Byte} (short : len ≤ 65535) (same : ∀ k, k < len → p k = q k) :
    ipChecksum p len = ipChecksum q len := by
  apply eq_of_toNat_eq
  rw [ipChecksum_toNat p short, ipChecksum_toNat q short,
    wordSum_congr fun k _ inside => same k (by omega)]

lemma ipChecksum_stored {k : Nat} (short : len ≤ 65535) (inside : 2 * k + 2 ≤ len)
    (zero : le16 p (2 * k) = 0#16) :
    ipChecksum (put16 p (2 * k) (ipChecksum p len)) len = 0#16 := by
  have field : le16 p (0 + 2 * k) = 0#16 := by rwa [Nat.zero_add]
  have stored := wordSum_put16 (i := 0) (ipChecksum p len) inside field
  rw [Nat.zero_add, ipChecksum_toNat p short] at stored
  apply eq_of_toNat_eq
  rw [ipChecksum_toNat _ short, stored, endAround_complement (by omega)]
  rfl

/-- The checksum as RFC 1071 defines it, on words in network byte order: the complement of their
one's complement sum. -/
def rfc1071 (p : Nat → Byte) (len : Nat) : BitVec 16 :=
  ~~~BitVec.ofNat 16 (onesSum 65535 (bigEndianWords p 0 len))

lemma rfc1071_toNat (p : Nat → Byte) (len : Nat) :
    (rfc1071 p len).toNat = 65535 - (256 * (endAround 65535 (wordSum p 0 len) % 256) +
      endAround 65535 (wordSum p 0 len) / 256) := by
  have bound := endAround_le (m := 65535) (n := wordSum p 0 len) (by omega)
  rw [rfc1071, toNat_not, BitVec.toNat_ofNat, onesSum_bigEndianWords, Nat.mod_eq_of_lt (by omega)]

lemma memory16_ipChecksum (p : Nat → Byte) (short : len ≤ 65535) :
    memory16 (ipChecksum p len) =
      [(rfc1071 p len >>> 8).setWidth 8, (rfc1071 p len).setWidth 8] := by
  have bound := endAround_le (m := 65535) (n := wordSum p 0 len) (by omega)
  have native := ipChecksum_toNat p short
  have network := rfc1071_toNat p len
  generalize endAround 65535 (wordSum p 0 len) = e at bound native network
  -- the complement of a word complements its two bytes
  have native' : (ipChecksum p len).toNat = 256 * (255 - e / 256) + (255 - e % 256) := by omega
  have network' : (rfc1071 p len).toNat = 256 * (255 - e % 256) + (255 - e / 256) := by omega
  have low : ∀ x y, y ≤ 255 → (256 * x + y) % 2 ^ 8 = y := by omega
  have high : ∀ x y, x ≤ 255 → y ≤ 255 → (256 * x + y) / 2 ^ 8 % 2 ^ 8 = x := by omega
  have first : (ipChecksum p len).setWidth 8 = (rfc1071 p len >>> 8).setWidth 8 := by
    apply eq_of_toNat_eq
    rw [toNat_setWidth, toNat_setWidth, toNat_ushiftRight,
      Nat.shiftRight_eq_div_pow, native', network', low _ _ (by omega),
      high _ _ (by omega) (by omega)]
  have second : (ipChecksum p len >>> 8).setWidth 8 = (rfc1071 p len).setWidth 8 := by
    apply eq_of_toNat_eq
    rw [toNat_setWidth, toNat_setWidth, toNat_ushiftRight,
      Nat.shiftRight_eq_div_pow, native', network', low _ _ (by omega),
      high _ _ (by omega) (by omega)]
  rw [memory16, first, second]

/-- For up to 65535 bytes `ip_checksum` never overflows and stores the checksum of RFC 1071, and a
packet with its checksum stored in a cleared 16-bit field checks. -/
theorem ip_checksum_is_rfc1071 (p : Nat → Byte) {len : Nat} (short : len ≤ 65535) :
    (∀ done ≤ len, (checksumLoop p 0 0#32 done).toNat = wordSum p 0 done) ∧
    memory16 (ipChecksum p len) =
      [(rfc1071 p len >>> 8).setWidth 8, (rfc1071 p len).setWidth 8] ∧
    ∀ k, 2 * k + 2 ≤ len →
      ipChecksum (put16 (put16 p (2 * k) 0#16) (2 * k)
        (ipChecksum (put16 p (2 * k) 0#16) len)) len = 0#16 := by
  refine ⟨fun done before => checksumLoop_exact p (before.trans short),
    memory16_ipChecksum p short, fun k inside => ?_⟩
  exact ipChecksum_stored short inside (le16_put16 p (2 * k) 0#16)

theorem ip_checksum_is_rfc1071_header :
    memory16 (ipChecksum (bytesOf [0x45, 0x00, 0x00, 0x1C, 0x12]) 5) =
      [(rfc1071 (bytesOf [0x45, 0x00, 0x00, 0x1C, 0x12]) 5 >>> 8).setWidth 8,
        (rfc1071 (bytesOf [0x45, 0x00, 0x00, 0x1C, 0x12]) 5).setWidth 8] ∧
    rfc1071 (bytesOf [0x45, 0x00, 0x00, 0x1C, 0x12]) 5 = 0xA8E3 :=
  ⟨(ip_checksum_is_rfc1071 _ (by decide)).2.1, by decide⟩

end MicroOs.Net
