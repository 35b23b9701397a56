import MicroOs.Mm.Proofs.VmmMapping

/-!
# Mappings that fail

`walk` finds out that it cannot go on after it has widened the PML4 and the PDPT entry on the way
with the user flag, if the caller asked for it. Pages below them that had the user flag in all other
entries of their walk, in whichever root, become accessible to the user. The new tables of a failed
walk are empty and not seen.
-/

namespace MicroOs.Mm
open Lib Relation List

variable {P : Place} {s : Vmm} {root r virt v t : Addr} {i : Index} {flags bits : Pte}
  {slots : List (Addr × Index)}

/-- The walk of `v` in `r` grants user access if the given slots do. -/
def Vmm.userGiven (s : Vmm) (slots : List (Addr × Index)) (r v : Addr) : Bool :=
  (s.slots r v).all fun slot => decide (slot ∈ slots) || hasFlag (s.table slot.1 slot.2) pteUser

/-- The present PML4 and PDPT entries on the way to `virt`. -/
def Vmm.upperSlots (s : Vmm) (root virt : Addr) : List (Addr × Index) :=
  ((s.slots root virt).take 2).filter fun slot => hasFlag (s.table slot.1 slot.2) ptePresent

/-- What `s'` translates as `s` does, with user access given by the slots in addition. -/
def Gives (slots : List (Addr × Index)) (s s' : Vmm) : Prop :=
  ∀ r ∈ s.pml4 :: s.roots, ∀ v,
    s'.translate r v = (s.translate r v).map fun tr => { tr with user := s.userGiven slots r v }

lemma userGiven_nil (s : Vmm) (r v : Addr) :
    s.userGiven [] r v = (s.entries r v).all (hasFlag · pteUser) := by
  simp [Vmm.userGiven, entries_eq_map, all_map, Function.comp_def]

lemma gives_nil (s : Vmm) : Gives [] s s := by
  intro r _ v
  rw [userGiven_nil, translate_map_user]

lemma hasFlag_widen_user (hbits : InterBits bits true) (slot : Addr × Index) :
    hasFlag ((s.store t i (s.table t i ||| bits)).table slot.1 slot.2) pteUser =
      (decide (slot = (t, i)) || hasFlag (s.table slot.1 slot.2) pteUser) := by
  by_cases h : slot = (t, i)
  · subst h
    rw [store_table_self, hasFlag_or, hbits.user]
    simp
  · rw [store_table_of_ne _ h]
    simp [h]

lemma gives_widen (tree : Tree P s) (mem : t ∈ s.tables) (deep : (P.home t).length < 3)
    (present : hasFlag (s.table t i) ptePresent = true)
    (small : hasFlag (s.table t i) pteHuge = false) (hbits : InterBits bits true) :
    Gives [(t, i)] s (s.store t i (s.table t i ||| bits)) := by
  intro r hr v
  rw [translate_widen tree mem deep present small hbits hr]
  simp only [entries_eq_map, slots_widen present hbits, all_map, Function.comp_def,
    hasFlag_widen_user hbits, Vmm.userGiven, mem_singleton]

lemma Gives.widen (gives : Gives [(t, i)] s (s.store t i (s.table t i ||| bits)))
    (present : hasFlag (s.table t i) ptePresent = true) (hbits : InterBits bits true) {s' : Vmm}
    {slot : Addr × Index} (next : Gives [slot] (s.store t i (s.table t i ||| bits)) s') :
    Gives [(t, i), slot] s s' := by
  intro r hr v
  rw [next r hr v, gives r hr v, Option.map_map]
  congr 1
  funext tr
  simp only [Function.comp_def, Vmm.userGiven, slots_widen present hbits, hasFlag_widen_user hbits]
  congr 2
  funext x
  simp only [mem_cons, not_mem_nil, or_false, Bool.decide_or, ← Bool.or_assoc]
  rw [Bool.or_comm (decide (x = slot))]

lemma gives_nil_iff {s' : Vmm} : Gives [] s s' ↔
    ∀ r ∈ s.pml4 :: s.roots, ∀ v, s'.translate r v = s.translate r v := by
  refine forall₃_congr fun r hr v => ?_
  rw [← gives_nil s r hr v]

lemma gives_link (tree : Tree P s) {page : Addr} {rest : List Addr} (mem : t ∈ s.tables)
    (deep : (P.home t).length < 3) (absent : hasFlag (s.table t i) ptePresent = false)
    (answer : s.pages = page :: rest) (hbits : InterBits bits true) :
    Gives [] s (s.link t i page rest bits) :=
  gives_nil_iff.mpr fun _ hr _ => translate_link tree mem deep absent answer hbits hr

def Vmm.walkPd (s : Vmm) (pd virt : Addr) (flags : Pte) : Vmm × Option (Addr × Index) :=
  if hasFlag (s.table pd (pdIndex virt)) pteHuge then (s, none)
  else match s.descend pd (pdIndex virt) true (Vmm.inter flags) with
    | (s, none) => (s, none)
    | (s, some pt) => (s, some (pt, ptIndex virt))

def Vmm.walkPdpt (s : Vmm) (pdpt virt : Addr) (flags : Pte) : Vmm × Option (Addr × Index) :=
  match s.descend pdpt (pdptIndex virt) true (Vmm.inter flags) with
  | (s, none) => (s, none)
  | (s, some pd) => s.walkPd pd virt flags

lemma walkIn_eq (s : Vmm) (root virt : Addr) (flags : Pte) :
    s.walkIn root virt true flags =
      match s.descend root (pml4Index virt) true (Vmm.inter flags) with
      | (s, none) => (s, none)
      | (s, some pdpt) => s.walkPdpt pdpt virt flags :=
  rfl

lemma walkPd_failed {pd : Addr} (failed : (s.walkPd pd virt flags).2 = none) :
    (s.walkPd pd virt flags).1 = s := by
  unfold Vmm.walkPd at failed ⊢
  split
  · rfl
  · rename_i small
    rw [if_neg small] at failed
    cases h : s.descend pd (pdIndex virt) true (Vmm.inter flags) with
    | mk s' result =>
      rw [h] at failed
      cases result with
      | none => exact (descend_none h).1
      | some pt => cases failed

lemma walkPdpt_failed (tree : Tree P s) {pdpt : Addr} (mem : pdpt ∈ s.tables)
    (place : (P.home pdpt).length = 1) (user : hasFlag flags pteUser = true)
    (failed : (s.walkPdpt pdpt virt flags).2 = none) :
    Gives ([(pdpt, pdptIndex virt)].filter fun slot => hasFlag (s.table slot.1 slot.2) ptePresent) s
      (s.walkPdpt pdpt virt flags).1 := by
  have bits : InterBits (Vmm.inter flags) true := user ▸ interBits_inter flags
  unfold Vmm.walkPdpt at failed ⊢
  rcases descend_cases s pdpt (pdptIndex virt) (Vmm.inter flags) with
    ⟨absent, -, eq⟩ | ⟨absent, page, rest, answer, eq⟩ | ⟨present, eq⟩
  · rw [eq, filter_singleton, absent]
    exact gives_nil s
  · rw [eq] at failed ⊢
    simp only at failed ⊢
    rw [walkPd_failed failed, filter_singleton, absent]
    exact gives_link tree mem (by omega) absent answer bits
  · rw [eq] at failed ⊢
    simp only at failed ⊢
    rw [walkPd_failed failed, filter_singleton, present]
    exact gives_widen tree mem (by omega) present (tree.upper pdpt mem (by omega) _ present) bits

lemma upperSlots_absent (absent : hasFlag (s.table root (pml4Index virt)) ptePresent = false) :
    s.upperSlots root virt = [] := by
  unfold Vmm.upperSlots Vmm.slots indices
  rw [trail_cons_none (nextTable_eq_none absent)]
  simp [absent]

lemma upperSlots_present {pdpt : Addr}
    (leads : nextTable (s.table root (pml4Index virt)) = some pdpt) :
    s.upperSlots root virt = (root, pml4Index virt) ::
      [(pdpt, pdptIndex virt)].filter fun slot => hasFlag (s.table slot.1 slot.2) ptePresent := by
  unfold Vmm.upperSlots Vmm.slots indices
  rw [trail_cons_some leads]
  simp only [trail, take_succ_cons, take_zero, filter_cons, (nextTable_eq_some leads).1, if_true]

lemma walkIn_failed (tree : Tree P s) (hroot : root ∈ s.pml4 :: s.roots)
    (user : hasFlag flags pteUser = true) (failed : (s.walkIn root virt true flags).2 = none) :
    Gives (s.upperSlots root virt) s (s.walkIn root virt true flags).1 := by
  have bits : InterBits (Vmm.inter flags) true := user ▸ interBits_inter flags
  obtain ⟨mem, home, -⟩ := tree.root root hroot
  have top : OnPath P s root virt root (pml4Index virt) := (Reached.top tree hroot).on ⟨_, rfl⟩
  rw [walkIn_eq] at failed ⊢
  rcases descend_cases s root (pml4Index virt) (Vmm.inter flags) with
    ⟨absent, -, eq⟩ | ⟨absent, page, rest, answer, eq⟩ | ⟨present, eq⟩
  · rw [eq, upperSlots_absent absent]
    exact gives_nil s
  · -- the new PDPT is empty
    have grow := Grow.link top (by simp [home]) absent answer bits
    have aligned := tree.aligned_of_pages answer
    have other := tree.ne_of_pages answer mem
    have made : (page ||| Vmm.inter flags) &&& pteAddrMask = page := by
      rw [addr_or bits.outside, aligned]
    rw [eq, made] at failed
    rw [eq, made, upperSlots_absent absent]
    have rest := walkPdpt_failed (grow.tree tree) mem_cons_self (by simp [Place.put, home])
      user failed
    rw [filter_singleton, link_table_page other] at rest
    have first := gives_nil_iff.mp (gives_link tree mem (by simp [home]) absent answer bits)
    exact gives_nil_iff.mpr fun r hr v =>
      (gives_nil_iff.mp rest r hr v).trans (first r hr v)
  · have small := tree.upper root mem (by simp [home]) _ present
    have grow := Grow.widen top (by simp [home]) present small bits
    obtain ⟨leads, memPdpt, homePdpt⟩ := tree.down mem (by simp [home]) present
    have same : (s.table root (pml4Index virt) ||| Vmm.inter flags) &&& pteAddrMask =
        s.table root (pml4Index virt) &&& pteAddrMask := addr_or bits.outside
    rw [eq, same] at failed
    rw [eq, same, upperSlots_present leads]
    generalize s.table root (pml4Index virt) &&& pteAddrMask = pdpt
      at leads memPdpt homePdpt failed ⊢
    have other : (pdpt, pdptIndex virt) ≠ (root, pml4Index virt) := by
      intro h
      rw [(Prod.mk.inj h).1, home] at homePdpt
      cases homePdpt
    have first := gives_widen tree mem (by simp [home]) present small bits
    have rest := walkPdpt_failed (grow.tree tree) memPdpt (by simp [homePdpt, home]) user failed
    rw [filter_singleton, store_table_of_ne _ other] at rest
    rw [filter_singleton]
    generalize hasFlag (s.table pdpt (pdptIndex virt)) ptePresent = below at rest ⊢
    cases below with
    | true => exact first.widen present bits rest
    | false => exact fun r hr v => (gives_nil_iff.mp rest r hr v).trans (first r hr v)

/-- All addresses are translated as before, with the same permissions, in all roots. -/
def SameTranslations (s s' : Vmm) : Prop :=
  ∀ r ∈ s.pml4 :: s.roots, ∀ v, s'.translate r v = s.translate r v

/-- The walk of `v` in `r` has the user flag everywhere but in entries that are also the PML4 or
the PDPT entry on the way to `virt` in `root`, and at least one of these lacks it. -/
structure NearlyUser (s : Vmm) (root virt r v : Addr) : Prop where
  translated : (s.translate r v).isSome
  others : s.userGiven (s.upperSlots root virt) r v = true
  closed : s.userGiven [] r v = false

/-- The call does not ask for user access, or no page is only closed to the user by the entries
that the call widens. -/
def Harmless (s : Vmm) (root virt : Addr) (flags : Pte) : Prop :=
  hasFlag flags pteUser = true → ∀ r ∈ s.pml4 :: s.roots, ∀ v, ¬ NearlyUser s root virt r v

lemma userGiven_mono (s : Vmm) (slots : List (Addr × Index)) (r v : Addr)
    (h : s.userGiven [] r v = true) : s.userGiven slots r v = true := by
  simp only [Vmm.userGiven, all_eq_true, not_mem_nil, decide_false, Bool.false_or] at h
  simp only [Vmm.userGiven, all_eq_true, Bool.or_eq_true]
  exact fun slot member => .inr (h slot member)

lemma Gives.sameTranslations_iff {s' : Vmm} (gives : Gives slots s s') :
    SameTranslations s s' ↔ ∀ r ∈ s.pml4 :: s.roots, ∀ v, (s.translate r v).isSome →
      s.userGiven slots r v = true → s.userGiven [] r v = true := by
  refine forall₃_congr fun r hr v => ?_
  rw [gives r hr v]
  cases h : s.translate r v with
  | none => simp
  | some tr =>
    have user : tr.user = s.userGiven [] r v := by
      have same := gives_nil s r hr v
      rw [h] at same
      exact congrArg Translation.user (Option.some.inj same)
    have mono := userGiven_mono s slots r v
    rw [Option.map_some, Option.some.injEq]
    constructor
    · intro same _ given
      have given' : tr.user = s.userGiven slots r v := by rw [← same]
      rw [← user, given', given]
    · intro same
      have equal : s.userGiven slots r v = tr.user := by
        rw [user, Bool.eq_iff_iff]
        exact ⟨same rfl, mono⟩
      rw [equal]

lemma failed_walk_iff (tree : Tree P s) (hroot : root ∈ s.pml4 :: s.roots)
    (failed : (s.walkIn root virt true flags).2 = none) :
    SameTranslations s (s.walkIn root virt true flags).1 ↔ Harmless s root virt flags := by
  cases user : hasFlag flags pteUser with
  | false =>
    obtain ⟨P', walked⟩ := walkIn_walked tree hroot virt flags
    have grows := walked.grows
    rw [user] at grows
    refine iff_of_true (fun r hr v => grows.translate_eq tree hr) fun asked => ?_
    exact absurd (user.symm.trans asked) Bool.false_ne_true
  | true =>
    rw [(walkIn_failed tree hroot user failed).sameTranslations_iff]
    constructor
    · intro same _ r hr v nearly
      exact absurd (nearly.closed.symm.trans (same r hr v nearly.translated nearly.others))
        Bool.false_ne_true
    · intro harmless r hr v translated given
      by_contra closed
      exact harmless user r hr v ⟨translated, given, by simpa using closed⟩

lemma mapPageIn_of_failed {phys : Addr} (failed : (s.walkIn root virt true flags).2 = none) :
    s.mapPageIn root virt phys flags = (s.walkIn root virt true flags).1 := by
  unfold Vmm.mapPageIn
  generalize s.walkIn root virt true flags = run at failed ⊢
  obtain ⟨s', result⟩ := run
  obtain rfl : result = none := failed
  rfl

/-- A call of `vmm_map_page` or `vmm_map_page_in` that installs no mapping keeps all translations
and permissions in all roots if and only if it is harmless. -/
theorem failed_map_keeps_translations_iff {m : StaticTables} {memory : Addr → Index → Pte}
    {trace : List (StepOf Vmm VmmEvent)} (run : Run VmmStep (vmmInit m memory) trace s)
    (virt phys flags : BitVec 64) :
    ((s.walk virt true flags).2 = none →
      (SameTranslations s (s.mapPage virt phys flags) ↔ Harmless s s.pml4 virt flags)) ∧
    ∀ root ∈ s.pml4 :: s.roots, (s.walkIn root virt true flags).2 = none →
      (SameTranslations s (s.mapPageIn root virt phys flags) ↔ Harmless s root virt flags) := by
  obtain ⟨P, tree, -⟩ := run_tree run
  have inRoot (root : Addr) (hroot : root ∈ s.pml4 :: s.roots)
      (failed : (s.walkIn root virt true flags).2 = none) :
      SameTranslations s (s.mapPageIn root virt phys flags) ↔ Harmless s root virt flags := by
    rw [mapPageIn_of_failed failed]
    exact failed_walk_iff tree hroot failed
  refine ⟨fun failed => ?_, inRoot⟩
  rw [mapPage_eq_mapPageIn]
  rw [walk_eq_walkIn] at failed
  exact inRoot s.pml4 mem_cons_self failed

/-- After boot the 2 MiB page at 2 MiB is marked for the user. -/
def markedVmm : Vmm := bootedVmm.next (.markHugeUser 0x200000)

lemma markedVmm_run :
    Run VmmStep (vmmInit tablesAtOneMegabyte fun _ _ => 0)
      [⟨bootedVmm, .markHugeUser 0x200000, markedVmm⟩] markedVmm := by
  have step : VmmStep bootedVmm (.markHugeUser 0x200000) markedVmm := ⟨by decide +kernel, rfl⟩
  exact Run.nil.snoc step

lemma markedVmm_walk : (markedVmm.walk 0x200000 true (pteWritable ||| pteUser)).2 = none := by
  decide +kernel

theorem failed_map_keeps_translations_iff_marked :
    SameTranslations markedVmm
        (markedVmm.mapPage 0x200000 0x400000 (pteWritable ||| pteUser)) ↔
      Harmless markedVmm markedVmm.pml4 0x200000 (pteWritable ||| pteUser) :=
  (failed_map_keeps_translations_iff markedVmm_run 0x200000 0x400000
    (pteWritable ||| pteUser)).1 markedVmm_walk

/-- The call installs nothing, but the user can access the page afterwards. -/
theorem failed_map_opens_page :
    (markedVmm.walk 0x200000 true (pteWritable ||| pteUser)).2 = none ∧
      (markedVmm.translate markedVmm.pml4 0x200000).map (·.user) = some false ∧
      ((markedVmm.mapPage 0x200000 0x400000 (pteWritable ||| pteUser)).translate markedVmm.pml4
        0x200000).map (·.user) = some true := by
  decide +kernel

end MicroOs.Mm
