import MicroOs.User.Proofs.ElfPlan

/-!
# What a plan leaves in the page tables

Of the pages that a plan maps at an address, the last one stays: its leaf is not touched by other
mappings, and its frame is not handed out again. Where the new address space has a 2 MiB page, only
the way to that page is opened.
-/

namespace MicroOs.User
open Mm Sched Lib

variable {P : Place} {s : Vmm} {root page v w : Addr} {rest : List Addr} {op : PageOp}
  {ops front back : List PageOp} {l l₁ l' : Loader} {entry : Pte}

/-- The tables are in order, and `root` is one of the roots. -/
structure Ready (root : Addr) (l : Loader) : Prop where
  tree : ∃ P, Tree P l.vmm
  root : root ∈ l.vmm.pml4 :: l.vmm.roots

lemma take_tree (tree : Tree P s) (answer : s.pages = page :: rest) :
    Tree P { s with pages := rest } := by
  have fresh : Fresh s rest := by
    obtain ⟨nodup, each⟩ := answer ▸ tree.fresh
    exact ⟨(List.nodup_cons.mp nodup).2, fun q hq => each q (List.mem_cons_of_mem _ hq)⟩
  have edit : Edit .createAddressSpace (P, s) (P, { s with pages := rest }) := .supply fresh
  exact edit.tree tree

lemma Ready.apply (ready : Ready root l) (answer : l.vmm.pages = page :: rest) (op : PageOp) :
    Ready root (op.apply root page rest l) ∧ (op.apply root page rest l).vmm.pages <:+ rest := by
  obtain ⟨P, tree⟩ := ready.tree
  obtain ⟨P', kept⟩ := mapPageIn_kept (take_tree tree answer) ready.root op.virt page op.flags
  refine ⟨⟨⟨P', kept.tree⟩, ?_⟩, kept.pages⟩
  show root ∈ (Vmm.mapPageIn _ _ _ _ _).pml4 :: (Vmm.mapPageIn _ _ _ _ _).roots
  rw [kept.pml4, kept.roots]
  exact ready.root

lemma apply_leaf (ready : Ready root l) (answer : l.vmm.pages = page :: rest)
    (user : hasFlag op.flags pteUser = true) (no : NoHugeWay l.vmm root op.virt)
    (enough : (op.apply root page rest l).vmm.pages ≠ [] ∨
      ∃ pdpt pd pt, Way l.vmm root op.virt pdpt pd pt) :
    UserLeaf (op.apply root page rest l).vmm root op.virt (Vmm.leafEntry page op.flags) := by
  obtain ⟨P, tree⟩ := ready.tree
  have taken := take_tree tree answer
  rcases mapPageIn_own taken ready.root op.virt page user with leaf | ⟨entry, huge⟩ | missing
  · exact leaf
  · obtain ⟨pdpt, pd, way, -, -, hentry, isHuge⟩ := huge
    have none := mapPageIn_noHugeWay taken ready.root op.virt page op.flags (no.supply rest)
    exact absurd ((none pdpt pd way).symm.trans (hentry ▸ isHuge)) (by decide)
  · obtain ⟨empty, -, noWay⟩ := missing
    rcases enough with pages | ⟨pdpt, pd, pt, way⟩
    · exact absurd empty pages
    · exact absurd ⟨⟨way.level4, way.level3⟩, way.level2⟩ (noWay pdpt pd pt)

lemma runOps_rule {Q : Loader → Prop} (ready : Ready root l)
    (run : runOps root ops l = some l') (start : Q l)
    (step : ∀ op ∈ ops, ∀ l page rest, Ready root l → l.vmm.pages = page :: rest → Q l →
      Q (op.apply root page rest l)) : Ready root l' ∧ Q l' := by
  induction ops generalizing l with
  | nil =>
    obtain rfl := Option.some.inj run
    exact ⟨ready, start⟩
  | cons op ops ih =>
    cases pages : l.vmm.pages with
    | nil => simp [runOps, pages] at run
    | cons page rest =>
      simp only [runOps, pages] at run
      apply ih (ready.apply pages op).1 run
      · exact step op List.mem_cons_self l page rest ready pages start
      · exact fun op hop => step op (List.mem_cons_of_mem _ hop)

lemma runOps_ready (ready : Ready root l) (run : runOps root ops l = some l') : Ready root l' :=
  (runOps_rule (Q := fun _ => True) ready run trivial fun _ _ _ _ _ _ _ _ => trivial).1

lemma runOps_split (run : runOps root (front ++ op :: back) l = some l') :
    ∃ l₁ page rest, runOps root front l = some l₁ ∧ l₁.vmm.pages = page :: rest ∧
      runOps root back (op.apply root page rest l₁) = some l' := by
  rw [runOps_append] at run
  cases first : runOps root front l with
  | none => simp [first] at run
  | some l₁ =>
    rw [first, Option.bind_some] at run
    cases pages : l₁.vmm.pages with
    | nil => simp [runOps, pages] at run
    | cons page rest =>
      simp only [runOps, pages] at run
      exact ⟨l₁, page, rest, rfl, pages, run⟩

section
variable (ready : Ready root l) (run : runOps root ops l = some l')
include ready run

lemma runOps_noHugeWay (no : NoHugeWay l.vmm root v) : NoHugeWay l'.vmm root v := by
  refine (runOps_rule (Q := fun l => NoHugeWay l.vmm root v) ready run no ?_).2
  intro op _ l page rest ready answer no
  obtain ⟨P, tree⟩ := ready.tree
  exact mapPageIn_noHugeWay (take_tree tree answer) ready.root op.virt page op.flags (no.supply rest)

lemma runOps_hugeAt (huge : HugeAt l.vmm root v entry) : HugeAt l'.vmm root v entry := by
  refine (runOps_rule (Q := fun l => HugeAt l.vmm root v entry) ready run huge ?_).2
  intro op _ l page rest ready answer huge
  obtain ⟨P, tree⟩ := ready.tree
  exact mapPageIn_hugeAt (take_tree tree answer) ready.root op.virt page op.flags (huge.supply rest)

lemma runOps_userHuge (huge : UserHuge l.vmm root v entry) : UserHuge l'.vmm root v entry := by
  refine (runOps_rule (Q := fun l => UserHuge l.vmm root v entry) ready run huge ?_).2
  intro op _ l page rest ready answer huge
  obtain ⟨P, tree⟩ := ready.tree
  exact mapPageIn_userHuge (take_tree tree answer) ready.root op.virt page op.flags (huge.supply rest)

lemma runOps_leaf_other {bytes : Nat → Byte} (leaf : UserLeaf l.vmm root v entry)
    (used : page ∉ l.vmm.pages) (content : l.frames page = bytes)
    (others : ∀ op ∈ ops, indices op.virt ≠ indices v) :
    UserLeaf l'.vmm root v entry ∧ l'.frames page = bytes := by
  have kept := (runOps_rule
    (Q := fun l => UserLeaf l.vmm root v entry ∧ page ∉ l.vmm.pages ∧ l.frames page = bytes)
    ready run ⟨leaf, used, content⟩ ?_).2
  · exact ⟨kept.1, kept.2.2⟩
  rintro op hop l fresh rest ready answer ⟨leaf, used, content⟩
  obtain ⟨P, tree⟩ := ready.tree
  have suffix := (ready.apply answer op).2
  rw [answer, List.mem_cons, not_or] at used
  refine ⟨?_, fun mem => used.2 (suffix.mem mem), ?_⟩
  · exact mapPageIn_userLeaf_other (take_tree tree answer) ready.root fresh op.flags
      (leaf.supply rest) (others op hop)
  · show Function.update l.frames fresh op.bytes page = bytes
    rw [Function.update_of_ne used.1]
    exact content

end

lemma runOps_last (ready : Ready root l) (first : runOps root front l = some l₁)
    (answer : l₁.vmm.pages = page :: rest)
    (run : runOps root back (op.apply root page rest l₁) = some l')
    (user : hasFlag op.flags pteUser = true) (no : NoHugeWay l.vmm root op.virt)
    (enough : (op.apply root page rest l₁).vmm.pages ≠ [] ∨
      ∃ pdpt pd pt, Way l₁.vmm root op.virt pdpt pd pt)
    (others : ∀ op' ∈ back, indices op'.virt ≠ indices op.virt) :
    UserLeaf l'.vmm root op.virt (Vmm.leafEntry page op.flags) ∧ l'.frames page = op.bytes := by
  have ready₁ : Ready root l₁ := runOps_ready ready first
  obtain ⟨ready₂, suffix⟩ := ready₁.apply answer op
  have leaf := apply_leaf ready₁ answer user (runOps_noHugeWay ready first no) enough
  have used : page ∉ (op.apply root page rest l₁).vmm.pages := by
    obtain ⟨P, tree⟩ := ready₁.tree
    have nodup := (answer ▸ tree.fresh.1 : (page :: rest).Nodup)
    exact fun mem => (List.nodup_cons.mp nodup).1 (suffix.mem mem)
  refine runOps_leaf_other ready₂ run leaf used ?_ others
  exact Function.update_self ..

lemma runOps_huge (ready : Ready root l) (run : runOps root ops l = some l') (mem : op ∈ ops)
    (user : hasFlag op.flags pteUser = true) (huge : HugeAt l.vmm root op.virt entry) :
    UserHuge l'.vmm root op.virt entry := by
  obtain ⟨front, back, rfl⟩ := List.append_of_mem mem
  obtain ⟨l₁, page, rest, first, answer, last⟩ := runOps_split run
  have ready₁ : Ready root l₁ := runOps_ready ready first
  have huge₁ := runOps_hugeAt ready first huge
  obtain ⟨P, tree⟩ := ready₁.tree
  exact runOps_userHuge (ready₁.apply answer op).1 last
    (mapPageIn_own_huge (take_tree tree answer) ready₁.root page user (huge₁.supply rest))

end MicroOs.User
