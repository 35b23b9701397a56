import MicroOs.User.Syscall
import MicroOs.Mm.Proofs.VmmIsolation

/-!
# User memory in system calls

`uptr_valid` compares a pointer with the end of the user half and does not look at the page tables,
although kernel memory is mapped in that half too. A call stays within the memory of its task exactly
when the pages of the range it accepts are user pages.
-/

namespace MicroOs.User
open Mm Lib
open BitVec (ofNat eq_of_toNat_eq toNat_ofNat)

variable {s : Vmm} {root v w : Addr} {memory : Addr → BitVec 8}

def pageBase (a : Addr) : Addr := a >>> 12 <<< 12

lemma pageBase_toNat (a : Addr) : (pageBase a).toNat = a.toNat / 4096 * 4096 := by
  have bound := a.isLt
  rw [pageBase, BitVec.toNat_shiftLeft, BitVec.toNat_ushiftRight, Nat.shiftRight_eq_div_pow,
    Nat.shiftLeft_eq]
  exact Nat.mod_eq_of_lt (by omega)

lemma indices_eq_of_page (same : v.toNat / 4096 = w.toNat / 4096) : indices v = indices w := by
  have h4 : pml4Index v = pml4Index w := by
    apply eq_of_toNat_eq
    rw [pml4Index_toNat, pml4Index_toNat]
    omega
  have h3 : pdptIndex v = pdptIndex w := by
    apply eq_of_toNat_eq
    rw [pdptIndex_toNat, pdptIndex_toNat]
    omega
  have h2 : pdIndex v = pdIndex w := by
    apply eq_of_toNat_eq
    rw [pdIndex_toNat, pdIndex_toNat]
    omega
  have h1 : ptIndex v = ptIndex w := by
    apply eq_of_toNat_eq
    rw [ptIndex_toNat, ptIndex_toNat]
    omega
  rw [indices, indices, h4, h3, h2, h1]

lemma userAccessible_iff (s : Vmm) (root v : Addr) :
    UserAccessible s root v ↔ ∃ leaf, (s.entries root v).getLast? = some leaf ∧
      hasFlag leaf ptePresent = true ∧ 2 ≤ (s.entries root v).length ∧
      (s.entries root v).all (hasFlag · pteUser) = true := by
  unfold UserAccessible Vmm.translate translation
  cases h : (s.entries root v).getLast? with
  | none => simp
  | some leaf =>
    simp only [Option.some.injEq, exists_eq_left']
    by_cases ok : (hasFlag leaf ptePresent && decide (2 ≤ (s.entries root v).length)) = true
    · rw [if_pos ok]
      simp only [Bool.and_eq_true, decide_eq_true_eq] at ok
      simp only [Option.some.injEq, exists_eq_left', ok.1, ok.2, true_and]
    · rw [if_neg ok]
      simp only [Bool.and_eq_true, decide_eq_true_eq] at ok
      simp only [reduceCtorEq, false_and, exists_false, false_iff]
      intro h
      exact ok ⟨h.1, h.2.1⟩

end MicroOs.User
