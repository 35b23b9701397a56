import Mathlib

/-!
# Blocks of addresses

A block is a half-open range of addresses. Lists of blocks are compared by the addresses they cover
(`Covers`) and by their total size (`bytes`); `Same` says that two lists agree in both. `Spaced` is
the order of a free list with no two blocks that touch.
-/

namespace MicroOs.Lib
open List

/-- The addresses from `addr` up to, not including, `addr + size`. -/
structure Block where
  addr : Nat
  size : Nat
  deriving DecidableEq, Repr

def Block.fin (b : Block) : Nat := b.addr + b.size

def Block.Has (b : Block) (x : Nat) : Prop := b.addr ≤ x ∧ x < b.fin

def Apart (a b : Block) : Prop := a.fin ≤ b.addr ∨ b.fin ≤ a.addr

instance (a b : Block) : Decidable (Apart a b) := inferInstanceAs (Decidable (_ ∨ _))

lemma Apart.symm {a b : Block} (h : Apart a b) : Apart b a := Or.symm h

instance : Std.Symm Apart := ⟨fun _ _ => Apart.symm⟩

lemma Apart.not_has {a b : Block} (h : Apart a b) {x : Nat} (ha : a.Has x) : ¬ b.Has x := by
  simp only [Apart, Block.Has] at *
  omega

lemma apart_of_not_has {a b : Block} (ha : 0 < a.size) (hb : 0 < b.size)
    (h : ∀ x, a.Has x → ¬ b.Has x) : Apart a b := by
  -- the larger of the two start addresses would be shared
  have hmax := h (max a.addr b.addr)
  simp only [Apart, Block.Has, Block.fin] at *
  omega

/-- Some block of the list contains the address. -/
def Covers (l : List Block) (x : Nat) : Prop := ∃ b ∈ l, b.Has x

@[simp] lemma covers_nil (x : Nat) : ¬ Covers [] x := by simp [Covers]

@[simp] lemma covers_cons (b : Block) (l : List Block) (x : Nat) :
    Covers (b :: l) x ↔ b.Has x ∨ Covers l x := by
  simp [Covers]

@[simp] lemma covers_append (l o : List Block) (x : Nat) :
    Covers (l ++ o) x ↔ Covers l x ∨ Covers o x := by
  simp [Covers, or_and_right, exists_or]

def bytes (l : List Block) : Nat := (l.map Block.size).sum

@[simp] lemma bytes_nil : bytes [] = 0 := rfl

@[simp] lemma bytes_cons (b : Block) (l : List Block) : bytes (b :: l) = b.size + bytes l := by
  simp [bytes]

@[simp] lemma bytes_append (l o : List Block) : bytes (l ++ o) = bytes l + bytes o := by
  simp [bytes]

/-- The two lists cover the same addresses and have the same total size. -/
structure Same (l o : List Block) : Prop where
  covers : ∀ x, Covers l x ↔ Covers o x
  bytes : bytes l = bytes o

lemma Same.refl (l : List Block) : Same l l := ⟨fun _ => Iff.rfl, rfl⟩

lemma Same.trans {k l o : List Block} (h : Same k l) (h' : Same l o) : Same k o :=
  ⟨fun x => (h.covers x).trans (h'.covers x), h.bytes.trans h'.bytes⟩

lemma Same.append {k l o : List Block} (h : Same l o) : Same (k ++ l) (k ++ o) :=
  ⟨fun x => by simp [h.covers x], by simp [h.bytes]⟩

lemma Same.append_right {k l o : List Block} (h : Same l o) : Same (l ++ k) (o ++ k) :=
  ⟨fun x => by simp [h.covers x], by simp [h.bytes]⟩

lemma Same.of_perm {l o : List Block} (h : l.Perm o) : Same l o :=
  ⟨fun _ => by simp [Covers, h.mem_iff], (h.map Block.size).sum_eq⟩

lemma Same.merge {a b : Block} (h : a.fin = b.addr) (l : List Block) :
    Same (a :: b :: l) (⟨a.addr, a.size + b.size⟩ :: l) := by
  constructor
  · intro x
    simp only [covers_cons, ← or_assoc]
    refine or_congr_left ?_
    simp only [Block.Has, Block.fin] at *
    omega
  · simp only [bytes_cons]
    omega

lemma Same.split {b : Block} {n : Nat} (h : n ≤ b.size) (l : List Block) :
    Same (b :: l) (⟨b.addr, n⟩ :: ⟨b.addr + n, b.size - n⟩ :: l) := by
  constructor
  · intro x
    simp only [covers_cons, ← or_assoc]
    refine or_congr_left ?_
    simp only [Block.Has, Block.fin]
    omega
  · simp only [bytes_cons]
    omega

lemma pairwise_apart_replace {l l' o : List Block} (h : (l ++ o).Pairwise Apart)
    (hl' : l'.Pairwise Apart) (hcov : ∀ x, Covers l' x → Covers l x) (hpos' : ∀ b ∈ l', 0 < b.size)
    (hpos : ∀ b ∈ o, 0 < b.size) : (l' ++ o).Pairwise Apart := by
  obtain ⟨-, ho, hlo⟩ := pairwise_append.mp h
  refine pairwise_append.mpr ⟨hl', ho, fun b hb c hc => ?_⟩
  refine apart_of_not_has (hpos' b hb) (hpos c hc) fun x hbx => ?_
  obtain ⟨a, ha, hax⟩ := hcov x ⟨b, hb, hbx⟩
  exact (hlo a ha c hc).not_has hax

/-- Sorted by address with a gap after every block. -/
def Spaced (l : List Block) : Prop := l.Pairwise fun a b => a.fin < b.addr

lemma Spaced.pairwise_apart {l : List Block} (h : Spaced l) : l.Pairwise Apart :=
  h.imp fun hab => Or.inl (Nat.le_of_lt hab)

/-- Put a block in front of a list; it swallows the first block when the two touch. -/
def join (a : Block) : List Block → List Block
  | [] => [a]
  | b :: l => if a.fin = b.addr then ⟨a.addr, a.size + b.size⟩ :: l else a :: b :: l

lemma Same.join (a : Block) (l : List Block) : Same (a :: l) (join a l) := by
  cases l with
  | nil => exact Same.refl _
  | cons b l =>
    simp only [Lib.join]
    split
    · exact Same.merge ‹_› l
    · exact Same.refl _

lemma join_eq_cons (a : Block) (l : List Block) :
    ∃ n o, join a l = ⟨a.addr, n⟩ :: o ∧ o ⊆ l ∧ a.size ≤ n := by
  cases l with
  | nil => exact ⟨a.size, [], rfl, by simp, Nat.le_refl _⟩
  | cons b l =>
    simp only [join]
    split
    · exact ⟨a.size + b.size, l, rfl, subset_cons_self b l, Nat.le_add_right _ _⟩
    · exact ⟨a.size, b :: l, rfl, Subset.refl _, Nat.le_refl _⟩

lemma Spaced.join {a : Block} {l : List Block} (h : Spaced l) (hle : ∀ b ∈ l, a.fin ≤ b.addr) :
    Spaced (join a l) := by
  cases l with
  | nil => exact pairwise_singleton _ _
  | cons b l =>
    obtain ⟨hb, hl⟩ := pairwise_cons.mp h
    have hab := hle b mem_cons_self
    simp only [Lib.join]
    split
    · refine pairwise_cons.mpr ⟨fun c hc => ?_, hl⟩
      have := hb c hc
      simp only [Block.fin] at *
      omega
    · refine pairwise_cons.mpr ⟨fun c hc => ?_, h⟩
      rcases mem_cons.mp hc with rfl | hc
      · omega
      · have := hb c hc
        simp only [Block.fin] at *
        omega

lemma Spaced.length_mul_le {l : List Block} {g top : Nat} (h : Spaced l)
    (hsize : ∀ b ∈ l, g ≤ b.size) (htop : ∀ b ∈ l, b.fin ≤ top) : l.length * g ≤ top := by
  -- every block leaves room for those after it: by induction from `lo`, the end of the last one
  have from_lo : ∀ (l : List Block) (lo : Nat), Spaced l → (∀ b ∈ l, lo ≤ b.addr) →
      (∀ b ∈ l, g ≤ b.size) → (∀ b ∈ l, b.fin ≤ top) → l ≠ [] → lo + l.length * g ≤ top := by
    intro l
    induction l with
    | nil => intro _ _ _ _ _ hne; exact absurd rfl hne
    | cons b l ih =>
      intro lo h hlo hsize htop _
      obtain ⟨hb, hl⟩ := pairwise_cons.mp h
      have h1 := hlo b mem_cons_self
      have h2 := hsize b mem_cons_self
      have h3 := htop b mem_cons_self
      rw [length_cons, Nat.succ_mul]
      by_cases hnil : l = []
      · subst hnil
        simp only [Block.fin, length_nil] at *
        omega
      · have := ih b.fin hl (fun c hc => Nat.le_of_lt (hb c hc))
          (fun c hc => hsize c (mem_cons_of_mem _ hc))
          (fun c hc => htop c (mem_cons_of_mem _ hc)) hnil
        simp only [Block.fin] at *
        omega
  by_cases hnil : l = []
  · simp [hnil]
  · simpa using from_lo l 0 h (fun _ _ => Nat.zero_le _) hsize htop hnil

end MicroOs.Lib
