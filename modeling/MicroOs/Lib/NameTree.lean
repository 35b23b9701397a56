import Mathlib

/-!
# Trees of named nodes

A table of nodes with names, some of them directories with a list of children. A walk follows a
list of names and takes the first child of each name; a trail is the list of nodes it visits. Where
every node is the child of at most one directory and the root of none, trails from the root are
unique. The last rules compare the walks in two such tables.
-/

namespace MicroOs.Lib
open List

structure NameTree (ι ν : Type) where
  isDir : ι → Bool
  children : ι → List ι
  name : ι → ν

namespace NameTree

variable {ι ν : Type} [DecidableEq ν]

/-- The first child of that name, if the node is a directory. -/
def lookup (g : NameTree ι ν) (u : ι) (c : ν) : Option ι :=
  if g.isDir u then (g.children u).find? (fun v => g.name v = c) else none

def walk (g : NameTree ι ν) : ι → List ν → Option ι
  | u, [] => some u
  | u, c :: cs =>
    match g.lookup u c with
    | none => none
    | some v => g.walk v cs

/-- Each node of the list is a child of the one before it; the last one is `w`. -/
def Trail (g : NameTree ι ν) : ι → List ι → ι → Prop
  | u, [], w => u = w
  | u, v :: vs, w => v ∈ g.children u ∧ g.Trail v vs w

def Reaches (g : NameTree ι ν) (u w : ι) : Prop := ∃ vs, g.Trail u vs w

variable {g g' : NameTree ι ν} {u v w root : ι} {c : ν} {cs ds : List ν} {vs ws : List ι}

lemma lookup_eq_some : g.lookup u c = some v →
    g.isDir u = true ∧ v ∈ g.children u ∧ g.name v = c := by
  intro found
  unfold lookup at found
  split at found
  case isTrue isDir =>
    have named := find?_some found
    exact ⟨isDir, mem_of_find?_eq_some found, of_decide_eq_true named⟩
  case isFalse => cases found

lemma name_ne_of_lookup_eq_none (isDir : g.isDir u = true) (absent : g.lookup u c = none) :
    ∀ v ∈ g.children u, g.name v ≠ c := by
  rw [lookup, if_pos isDir, find?_eq_none] at absent
  intro v member named
  exact absent v member (decide_eq_true named)

lemma walk_cons_eq_some : g.walk u (c :: cs) = some w ↔
    ∃ v, g.lookup u c = some v ∧ g.walk v cs = some w := by
  rw [walk]
  cases g.lookup u c with
  | none => simp
  | some v => simp

lemma walk_append : g.walk u (cs ++ ds) = (g.walk u cs).bind fun v => g.walk v ds := by
  induction cs generalizing u with
  | nil => rfl
  | cons c cs ih =>
    rw [cons_append, walk, walk]
    cases g.lookup u c with
    | none => rfl
    | some v => exact ih

lemma walk_append_eq_some : g.walk u (cs ++ ds) = some w ↔
    ∃ v, g.walk u cs = some v ∧ g.walk v ds = some w := by
  rw [walk_append, Option.bind_eq_some_iff]

lemma walk_concat_eq_some : g.walk u (cs ++ [c]) = some w ↔
    ∃ v, g.walk u cs = some v ∧ g.lookup v c = some w := by
  rw [walk_append_eq_some]
  constructor
  · intro ⟨v, before, last⟩
    obtain ⟨x, found, same⟩ := walk_cons_eq_some.mp last
    exact ⟨v, before, found.trans same⟩
  · intro ⟨v, before, found⟩
    exact ⟨v, before, walk_cons_eq_some.mpr ⟨w, found, rfl⟩⟩

omit [DecidableEq ν] in
lemma trail_append : g.Trail u (vs ++ ws) w ↔ ∃ v, g.Trail u vs v ∧ g.Trail v ws w := by
  induction vs generalizing u with
  | nil => exact ⟨fun trail => ⟨u, rfl, trail⟩, fun ⟨_, same, trail⟩ => same ▸ trail⟩
  | cons x vs ih =>
    rw [cons_append, Trail, ih]
    constructor
    · intro ⟨child, v, first, second⟩
      exact ⟨v, ⟨child, first⟩, second⟩
    · intro ⟨v, ⟨child, first⟩, second⟩
      exact ⟨child, v, first, second⟩

omit [DecidableEq ν] in
lemma trail_concat : g.Trail u (vs ++ [v]) w ↔
    v = w ∧ ∃ x, g.Trail u vs x ∧ v ∈ g.children x := by
  rw [trail_append]
  constructor
  · intro ⟨x, before, child, last⟩
    exact ⟨last, x, before, child⟩
  · intro ⟨last, x, before, child⟩
    exact ⟨x, before, child, last⟩

omit [DecidableEq ν] in
lemma Reaches.trans (first : g.Reaches u v) (second : g.Reaches v w) : g.Reaches u w := by
  obtain ⟨vs, trail⟩ := first
  obtain ⟨ws, trail'⟩ := second
  exact ⟨vs ++ ws, trail_append.mpr ⟨v, trail, trail'⟩⟩

lemma exists_trail_of_walk (h : g.walk u cs = some w) :
    ∃ vs, g.Trail u vs w ∧ vs.map g.name = cs := by
  induction cs generalizing u with
  | nil => exact ⟨[], Option.some.inj h, rfl⟩
  | cons c cs ih =>
    obtain ⟨v, found, rest⟩ := walk_cons_eq_some.mp h
    obtain ⟨-, child, named⟩ := lookup_eq_some found
    obtain ⟨vs, trail, names⟩ := ih rest
    refine ⟨v :: vs, ⟨child, trail⟩, ?_⟩
    rw [map_cons, named, names]

lemma reaches_of_walk (h : g.walk u cs = some w) : g.Reaches u w := by
  obtain ⟨vs, trail, -⟩ := exists_trail_of_walk h
  exact ⟨vs, trail⟩

omit [DecidableEq ν] in
lemma Trail.mem_or (trail : g.Trail u vs w) : w ∈ vs ∨ vs = [] ∧ u = w := by
  rcases eq_nil_or_concat' vs with rfl | ⟨vs, v, rfl⟩
  · exact .inr ⟨rfl, trail⟩
  · have ⟨last, _⟩ := trail_concat.mp trail
    exact .inl (mem_append_right _ (mem_singleton.mpr last.symm))

/-- Every node is in the list of at most one directory, the root in that of none. -/
structure Rooted (g : NameTree ι ν) (root : ι) : Prop where
  parent_unique : ∀ u v c, c ∈ g.children u → c ∈ g.children v → u = v
  root_top : ∀ u, root ∉ g.children u

omit [DecidableEq ν] in
lemma Rooted.trail_unique (rooted : g.Rooted root) (h : g.Trail root vs w)
    (h' : g.Trail root ws w) : vs = ws := by
  -- from the end of the trail upwards: the last directory is the only one with the child
  induction vs using reverseRecOn generalizing ws w with
  | nil =>
    have atRoot : root = w := h
    subst atRoot
    rcases eq_nil_or_concat' ws with rfl | ⟨ws, x, rfl⟩
    · rfl
    · obtain ⟨rfl, p, -, child⟩ := trail_concat.mp h'
      exact absurd child (rooted.root_top p)
  | append_singleton vs v ih =>
    obtain ⟨rfl, p, before, child⟩ := trail_concat.mp h
    rcases eq_nil_or_concat' ws with rfl | ⟨ws, x, rfl⟩
    · have atRoot : root = v := h'
      subst atRoot
      exact absurd child (rooted.root_top p)
    · obtain ⟨rfl, q, before', child'⟩ := trail_concat.mp h'
      obtain rfl := rooted.parent_unique p q x child child'
      rw [ih before before']

lemma Rooted.walk_unique (rooted : g.Rooted root) (h : g.walk root cs = some w)
    (h' : g.walk root ds = some w) : cs = ds := by
  obtain ⟨vs, trail, rfl⟩ := exists_trail_of_walk h
  obtain ⟨ws, trail', rfl⟩ := exists_trail_of_walk h'
  rw [rooted.trail_unique trail trail']

lemma Rooted.walk_child (rooted : g.Rooted root) (h : g.walk root cs = some w)
    (child : w ∈ g.children u) :
    ∃ ds, cs = ds ++ [g.name w] ∧ g.walk root ds = some u ∧ g.lookup u (g.name w) = some w := by
  rcases eq_nil_or_concat' cs with rfl | ⟨ds, c, rfl⟩
  · obtain rfl : root = w := Option.some.inj h
    exact absurd child (rooted.root_top u)
  · obtain ⟨v, before, found⟩ := walk_concat_eq_some.mp h
    obtain ⟨-, child', named⟩ := lookup_eq_some found
    obtain rfl := rooted.parent_unique u v w child child'
    subst named
    exact ⟨ds, rfl, before, found⟩

lemma walk_of_agree {x : ι}
    (agree : ∀ u c v, g.lookup u c = some v → v ≠ x → g'.lookup u c = some v)
    (h : g.walk u cs = some w) (avoids : ∀ ds, ds <+: cs → ds ≠ [] → g.walk u ds ≠ some x) :
    g'.walk u cs = some w := by
  induction cs generalizing u with
  | nil => exact h
  | cons c cs ih =>
    obtain ⟨v, found, rest⟩ := walk_cons_eq_some.mp h
    have notX : v ≠ x := by
      intro isX
      apply avoids [c] (cons_prefix_cons.mpr ⟨rfl, nil_prefix⟩) (cons_ne_nil _ _)
      exact walk_cons_eq_some.mpr ⟨v, found, congrArg some isX⟩
    refine walk_cons_eq_some.mpr ⟨v, agree u c v found notX, ih rest ?_⟩
    intro ds isPrefix _ atX
    apply avoids (c :: ds) (cons_prefix_cons.mpr ⟨rfl, isPrefix⟩) (cons_ne_nil _ _)
    exact walk_cons_eq_some.mpr ⟨v, found, atX⟩

omit [DecidableEq ν] in
lemma Trail.of_links {x : ι} (links : ∀ u v, v ≠ x → v ∈ g.children u → v ∈ g'.children u)
    (trail : g.Trail u vs w) (off : x ∉ vs) : g'.Trail u vs w := by
  induction vs generalizing u with
  | nil => exact trail
  | cons v vs ih =>
    rw [mem_cons, not_or] at off
    exact ⟨links u v (Ne.symm off.1) trail.1, ih trail.2 off.2⟩

section Edits

variable [DecidableEq ι] {x d : ι}

structure Detached (g g' : NameTree ι ν) (x : ι) : Prop where
  children : ∀ u, g'.children u = (g.children u).filter (· ≠ x)
  name : ∀ u, g'.name u = g.name u
  isDir : ∀ u, g'.isDir u = g.isDir u

/-- `x`, which was in no list, comes to the end of the list of `d`, possibly with a new name. -/
structure Attached (g g' : NameTree ι ν) (d x : ι) : Prop where
  loose : ∀ u, x ∉ g.children u
  children : ∀ u, g'.children u = g.children u ++ if u = d then [x] else []
  name : ∀ u, u ≠ x → g'.name u = g.name u
  isDir : ∀ u, g'.isDir u = g.isDir u ∨ g.children u = [] ∧ u ≠ d

omit [DecidableEq ν] in
lemma Detached.mem_children (h : Detached g g' x) :
    v ∈ g'.children u ↔ v ∈ g.children u ∧ v ≠ x := by
  rw [h.children, mem_filter, decide_eq_true_iff]

lemma Detached.lookup_of_ne (h : Detached g g' x) (found : g.lookup u c = some v)
    (other : v ≠ x) :
    g'.lookup u c = some v := by
  obtain ⟨isDir, -, -⟩ := lookup_eq_some found
  have inOld : (g.children u).find? (fun v => g.name v = c) = some v := by
    rwa [lookup, if_pos isDir] at found
  rw [lookup, h.isDir, if_pos isDir, h.children, find?_filter]
  obtain ⟨named, before, behind, split, skipped⟩ := find?_eq_some_iff_append.mp inOld
  apply find?_eq_some_iff_append.mpr
  refine ⟨?_, before, behind, split, fun w member => ?_⟩
  · have sameName : g'.name v = c := (h.name v).trans (of_decide_eq_true named)
    simp [other, sameName]
  · have skips : ¬ g.name w = c := by simpa using skipped w member
    simp [h.name, skips]

omit [DecidableEq ν] in
lemma Attached.mem_children (h : Attached g g' d x) :
    v ∈ g'.children u ↔ v ∈ g.children u ∨ u = d ∧ v = x := by
  rw [h.children, mem_append]
  by_cases isDir : u = d
  · simp [isDir]
  · simp [isDir]

omit [DecidableEq ν] in
lemma Attached.mem_children_self (h : Attached g g' d x) : x ∈ g'.children u ↔ u = d := by
  rw [h.mem_children]
  constructor
  · intro member
    rcases member with old | ⟨isDir, -⟩
    · exact absurd old (h.loose u)
    · exact isDir
  · intro isDir
    exact .inr ⟨isDir, rfl⟩

section
variable (h : Attached g g' d x)
include h

lemma Attached.find_old (u : ι) (c : ν) :
    (g.children u).find? (fun v => g'.name v = c) =
      (g.children u).find? (fun v => g.name v = c) := by
  have same (l : List ι) (loose : x ∉ l) :
      l.find? (fun v => g'.name v = c) = l.find? (fun v => g.name v = c) := by
    induction l with
    | nil => rfl
    | cons v l ih =>
      rw [mem_cons, not_or] at loose
      rw [find?_cons, find?_cons, h.name v (Ne.symm loose.1), ih loose.2]
  exact same _ (h.loose u)

lemma Attached.lookup_of_lookup (found : g.lookup u c = some v) : g'.lookup u c = some v := by
  obtain ⟨isDir, member, -⟩ := lookup_eq_some found
  have inOld : (g.children u).find? (fun v => g.name v = c) = some v := by
    rwa [lookup, if_pos isDir] at found
  have sameDir : g'.isDir u = g.isDir u := by
    rcases h.isDir u with same | ⟨leaf, -⟩
    · exact same
    · rw [leaf] at member
      cases member
  rw [lookup, sameDir, if_pos isDir, h.children, find?_append, h.find_old, inOld, Option.some_or]

lemma Attached.lookup_of_ne (found : g'.lookup u c = some v) (other : v ≠ x) :
    g.lookup u c = some v := by
  obtain ⟨isDir, member, -⟩ := lookup_eq_some found
  have old : v ∈ g.children u := by
    rcases h.mem_children.mp member with old | ⟨-, isNew⟩
    · exact old
    · exact absurd isNew other
  have sameDir : g'.isDir u = g.isDir u := by
    rcases h.isDir u with same | ⟨leaf, -⟩
    · exact same
    · rw [leaf] at old
      cases old
  rw [lookup, if_pos isDir, h.children, find?_append, h.find_old] at found
  rw [lookup, ← sameDir, if_pos isDir]
  cases inOld : (g.children u).find? (fun v => g.name v = c) with
  | some w =>
    rw [inOld, Option.some_or] at found
    exact found
  | none =>
    rw [inOld, Option.none_or] at found
    split at found
    · exact absurd (mem_singleton.mp (mem_of_find?_eq_some found)) other
    · cases found

lemma Attached.lookup_self (isDir : g.isDir d = true) (absent : g.lookup d (g'.name x) = none) :
    g'.lookup d (g'.name x) = some x := by
  have sameDir : g'.isDir d = g.isDir d := by
    rcases h.isDir d with same | ⟨-, other⟩
    · exact same
    · exact absurd rfl other
  rw [lookup, if_pos isDir] at absent
  rw [lookup, sameDir, if_pos isDir, h.children, if_pos rfl, find?_append, h.find_old, absent,
    Option.none_or, find?_singleton]
  simp

lemma Attached.walk_of_walk (found : g.walk u cs = some w) : g'.walk u cs = some w := by
  induction cs generalizing u with
  | nil => exact found
  | cons c cs ih =>
    obtain ⟨v, first, rest⟩ := walk_cons_eq_some.mp found
    exact walk_cons_eq_some.mpr ⟨v, h.lookup_of_lookup first, ih rest⟩

end

/-- No directory has two children of one name. -/
def NamesUnique (g : NameTree ι ν) : Prop := ∀ u, ((g.children u).map g.name).Nodup

omit [DecidableEq ν] [DecidableEq ι] in
lemma NamesUnique.of_sublist (unique : g.NamesUnique)
    (children : ∀ u, (g'.children u).Sublist (g.children u)) (names : ∀ u, g'.name u = g.name u) :
    g'.NamesUnique := by
  intro u
  have sameNames : g'.name = g.name := funext names
  rw [sameNames]
  exact (unique u).sublist ((children u).map g.name)

omit [DecidableEq ν] in
lemma NamesUnique.detach (unique : g.NamesUnique) (h : Detached g g' x) : g'.NamesUnique := by
  apply unique.of_sublist
  · intro u
    rw [h.children]
    exact filter_sublist
  · exact h.name

omit [DecidableEq ν] in
lemma NamesUnique.attach (unique : g.NamesUnique) (h : Attached g g' d x)
    (fresh : ∀ v ∈ g.children d, g.name v ≠ g'.name x) : g'.NamesUnique := by
  intro u
  have old : (g.children u).map g'.name = (g.children u).map g.name := by
    apply map_congr_left
    intro v member
    exact h.name v fun isNew => h.loose u (isNew ▸ member)
  rw [h.children, map_append, old]
  split
  case isFalse =>
    rw [map_nil, append_nil]
    exact unique u
  case isTrue isDir =>
    subst isDir
    refine (unique u).append (nodup_singleton _) ?_
    rw [map_singleton, disjoint_singleton]
    intro taken
    obtain ⟨v, member, same⟩ := mem_map.mp taken
    exact fresh v member same

end Edits

end NameTree

end MicroOs.Lib
