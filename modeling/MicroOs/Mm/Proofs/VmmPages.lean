import MicroOs.Mm.Vmm

/-!
# The pages that the VMM takes

Page tables come from the front of the list of what `pmm_alloc_page` will return, and the VMM never
gives one back. One call of `vmm_map_page_in` takes at most three pages.
-/

namespace MicroOs.Mm

variable {s s₁ s₂ : Vmm} {m n : Nat}

/-- Between the two states at most `n` pages have been taken. -/
def Takes (n : Nat) (s s' : Vmm) : Prop :=
  ∃ taken : List Addr, taken.length ≤ n ∧ s.pages = taken ++ s'.pages

lemma Takes.refl (s : Vmm) : Takes 0 s s := ⟨[], Nat.le_refl 0, rfl⟩

lemma Takes.mono (takes : Takes m s s₁) (le : m ≤ n) : Takes n s s₁ := by
  obtain ⟨taken, few, pages⟩ := takes
  exact ⟨taken, few.trans le, pages⟩

lemma Takes.trans (first : Takes m s s₁) (second : Takes n s₁ s₂) : Takes (m + n) s s₂ := by
  obtain ⟨taken₁, few₁, pages₁⟩ := first
  obtain ⟨taken₂, few₂, pages₂⟩ := second
  refine ⟨taken₁ ++ taken₂, ?_, ?_⟩
  · rw [List.length_append]
    exact Nat.add_le_add few₁ few₂
  · rw [pages₁, pages₂, List.append_assoc]

lemma Takes.suffix (takes : Takes n s s₁) : s₁.pages <:+ s.pages := by
  obtain ⟨taken, -, pages⟩ := takes
  exact ⟨taken, pages.symm⟩

lemma Takes.length_le (takes : Takes n s s₁) : s.pages.length ≤ s₁.pages.length + n := by
  obtain ⟨taken, few, pages⟩ := takes
  rw [pages, List.length_append]
  omega

lemma Vmm.takes_descend (s : Vmm) (table : Addr) (idx : Index) (create : Bool) (inter : Pte) :
    Takes 1 s (s.descend table idx create inter).1 := by
  have same : Takes 1 s s := (Takes.refl s).mono (Nat.zero_le 1)
  unfold Vmm.descend Vmm.allocTable Vmm.allocPage
  split
  · split
    · exact same
    · cases pages : s.pages with
      | nil => exact same
      | cons page rest => exact ⟨[page], Nat.le_refl 1, pages⟩
  · split <;> exact same

lemma Vmm.takes_mapPageIn (s : Vmm) (root virt phys flags : BitVec 64) :
    Takes 3 s (s.mapPageIn root virt phys flags) := by
  have first := s.takes_descend root (pml4Index virt) true (Vmm.inter flags)
  unfold Vmm.mapPageIn Vmm.walkIn
  generalize s.descend root (pml4Index virt) true (Vmm.inter flags) = r at first ⊢
  obtain ⟨s₁, _ | pdpt⟩ := r
  · exact first.mono (by decide)
  have second := s₁.takes_descend pdpt (pdptIndex virt) true (Vmm.inter flags)
  simp only at first ⊢
  generalize s₁.descend pdpt (pdptIndex virt) true (Vmm.inter flags) = r at second ⊢
  obtain ⟨s₂, _ | pd⟩ := r
  · exact (first.trans second).mono (by decide)
  have third := s₂.takes_descend pd (pdIndex virt) true (Vmm.inter flags)
  simp only at second ⊢
  by_cases huge : hasFlag (s₂.table pd (pdIndex virt)) pteHuge = true
  · simp only [huge, if_true]
    exact (first.trans second).mono (by decide)
  simp only [huge, Bool.false_eq_true, if_false]
  generalize s₂.descend pd (pdIndex virt) true (Vmm.inter flags) = r at third ⊢
  obtain ⟨s₃, _ | pt⟩ := r
  · exact (first.trans second).trans third
  · exact (first.trans second).trans third

end MicroOs.Mm
