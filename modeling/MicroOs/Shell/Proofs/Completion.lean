import MicroOs.Lib.CursorText
import MicroOs.Lib.Stem
import MicroOs.Shell.Editor

/-!
# What Tab completes

`completion` says what a Tab is for: the rest of the only name that matches and a character behind
it, or the rest of what all matching names begin with. `shellTabComplete_eq` says that
`shell_tab_complete` inserts just that while there is room.
-/

namespace MicroOs.Shell
open Fs Lib Klib List

variable {e : Editor} {first name typed : Path} {t : CursorText Byte}

def lastWord (before : Path) : Path := before.rtakeWhile (· ≠ space)

/-- The directory part of a word, with its slash, and the name behind it. -/
def dirPart (word : Path) : Path := word.rdropWhile (· ≠ slash)
def namePart (word : Path) : Path := word.rtakeWhile (· ≠ slash)

lemma dirPart_append_namePart (word : Path) : dirPart word ++ namePart word = word :=
  rdropWhile_append_rtakeWhile

lemma tokStart_le (line : Nat → Byte) (pos : Nat) : tokStart line pos ≤ pos := by
  induction pos with
  | zero => exact Nat.le_refl _
  | succ n ih =>
    unfold tokStart
    split
    · exact Nat.le_succ_of_le ih
    · exact Nat.le_refl _

lemma window_tokStart (line : Nat → Byte) (pos : Nat) :
    window line (tokStart line pos) (pos - tokStart line pos) = lastWord (window line 0 pos) := by
  induction pos with
  | zero => rfl
  | succ n ih =>
    have le := tokStart_le line n
    rw [window_succ, Nat.zero_add, lastWord]
    unfold tokStart
    by_cases blank : line n = space
    · rw [if_neg (not_not_intro blank), rtakeWhile_concat_neg _ _ _ (by simp [blank]), Nat.sub_self]
      rfl
    · rw [if_pos blank, rtakeWhile_concat_pos _ _ _ (by simp [blank]), Nat.succ_sub le,
        window_succ, ih, Nat.add_sub_cancel' le]
      rfl

lemma tokStart_eq_zero_iff (line : Nat → Byte) (pos : Nat) :
    tokStart line pos = 0 ↔ lastWord (window line 0 pos) = window line 0 pos := by
  have le := tokStart_le line pos
  have word := window_tokStart line pos
  constructor
  · intro zero
    rw [zero, Nat.sub_zero] at word
    exact word.symm
  · intro same
    have length := congrArg length (word.trans same)
    rw [length_window, length_window] at length
    omega

lemma lastSlash_concat (typed : Path) (c : Byte) :
    lastSlash (typed ++ [c]) = if c = slash then some typed.length else lastSlash typed := by
  unfold lastSlash
  rw [length_append, length_singleton, range_succ, foldl_append]
  simp only [foldl_cons, foldl_nil, getD_append_right _ _ _ _ (Nat.le_refl _),
    Nat.sub_self, getD_cons_zero]
  split
  · rfl
  · apply foldl_ext
    intro last i inside
    rw [getD_append _ _ _ _ (mem_range.mp inside)]

lemma lastSlash_eq (typed : Path) :
    lastSlash typed = if dirPart typed = [] then none else some ((dirPart typed).length - 1) := by
  induction typed using reverseRecOn with
  | nil => rfl
  | append_singleton typed c ih =>
    rw [lastSlash_concat]
    unfold dirPart
    by_cases separator : c = slash
    · rw [if_pos separator, rdropWhile_concat_neg _ _ _ (by simp [separator])]
      simp
    · rw [if_neg separator, rdropWhile_concat_pos _ _ _ (by simp [separator])]
      exact ih

lemma cString_eq_self {buf : List Byte} (zero : 0 ∉ buf) : cString buf = buf := by
  unfold cString
  rw [takeWhile_eq_self_iff]
  intro c member
  simpa using fun same : c = 0 => zero (same ▸ member)

def searched (word : Path) : Path := if dirPart word = [] then ascii "." else dirPart word

lemma splitTyped_eq (zero : 0 ∉ typed) : splitTyped typed = (searched typed, namePart typed) := by
  have whole := dirPart_append_namePart typed
  have zero_dir : 0 ∉ dirPart typed := fun member => zero (whole ▸ mem_append_left _ member)
  have zero_name : 0 ∉ namePart typed := fun member => zero (whole ▸ mem_append_right _ member)
  unfold splitTyped searched
  rw [lastSlash_eq]
  generalize dirPart typed = dir at whole zero_dir
  generalize namePart typed = name at whole zero_name
  subst whole
  by_cases none : dir = []
  · subst none
    rw [if_pos rfl, if_pos rfl]
    simp only [nil_append]
    rw [cString_eq_self zero_name]
  · have positive := length_pos_iff.mpr none
    rw [if_neg none, if_neg none]
    simp only
    rw [Nat.sub_add_cancel positive, take_left, drop_left, cString_eq_self zero_dir, cString_eq_self zero_name]

lemma alreadyTyped_name (typed : Path) : alreadyTyped false typed = (namePart typed).length := by
  have whole := congrArg length (dirPart_append_namePart typed)
  rw [length_append] at whole
  unfold alreadyTyped
  rw [lastSlash_eq]
  by_cases none : dirPart typed = []
  · rw [none, length_nil] at whole
    simp [none, ← whole]
  · have positive := length_pos_iff.mpr none
    simp only [none, if_false, Bool.false_eq_true]
    omega

/-- The names that what has been typed can become: commands for the first word of the line, else
entries of the directory that the word names. At most 64 are collected. -/
def candidates (env : TabEnv) (before : Path) : List Candidate :=
  let word := lastWord before
  if word = before then
    ((env.commands.filter fun name => word <+: name).take 64).map fun name => ⟨name, none⟩
  else
    (((env.readdir (resolveAbs env.cwd (searched word) 256)).getD []).filter
      fun e => namePart word <+: e.name).take 64 |>.map fun e => ⟨e.name, some e.type⟩

def typedName (before : Path) : Path :=
  if lastWord before = before then lastWord before else namePart (lastWord before)

lemma strncmp_typed_iff (zero_name : 0 ∉ name) (zero : 0 ∉ typed) :
    typed.length = 0 ∨ strncmp name typed typed.length = 0 ↔ typed <+: name := by
  rw [strncmp_eq_zero_iff zero_name zero, take_length, prefix_iff_eq_take]
  constructor
  · rintro (empty | same)
    · rw [length_eq_zero_iff.mp empty]
      rfl
    · exact same.symm
  · intro same
    exact .inr same.symm

variable {env : TabEnv}

lemma commandMatches_eq (zero : 0 ∉ typed) :
    commandMatches env typed =
      ((env.commands.filter fun name => typed <+: name).take 64).map fun name => ⟨name, none⟩ := by
  unfold commandMatches
  rw [cString_eq_self zero]
  congr 2
  apply filter_congr
  intro name member
  exact decide_eq_decide.mpr (strncmp_typed_iff (env.commands_zero name member) zero)

lemma entryMatches_eq (zero : 0 ∉ typed) :
    entryMatches env typed =
      ((((env.readdir (resolveAbs env.cwd (searched typed) 256)).getD []).filter
        fun e => namePart typed <+: e.name).take 64).map fun e => ⟨e.name, some e.type⟩ := by
  unfold entryMatches
  simp only [splitTyped_eq zero]
  have zero_name : 0 ∉ namePart typed := by
    intro member
    exact zero ((rtakeWhile_suffix _ _).subset member)
  congr 2
  apply filter_congr
  intro e member
  cases entries : env.readdir (resolveAbs env.cwd (searched typed) 256) with
  | none =>
    rw [entries] at member
    cases member
  | some list =>
    rw [entries] at member
    exact decide_eq_decide.mpr
      (strncmp_typed_iff (env.entries_zero _ list entries e member) zero_name)

lemma mem_candidates {before : Path} {m : Candidate} (member : m ∈ candidates env before) :
    typedName before <+: m.name ∧ 0 ∉ m.name := by
  unfold candidates at member
  unfold typedName
  by_cases command : lastWord before = before
  · rw [if_pos command]
    simp only [if_pos command] at member
    obtain ⟨name, listed, rfl⟩ := mem_map.mp member
    obtain ⟨listed, begins⟩ := mem_filter.mp (mem_of_mem_take listed)
    exact ⟨by simpa using begins, env.commands_zero name listed⟩
  · rw [if_neg command]
    simp only [if_neg command] at member
    obtain ⟨e, listed, rfl⟩ := mem_map.mp member
    obtain ⟨listed, begins⟩ := mem_filter.mp (mem_of_mem_take listed)
    refine ⟨by simpa using begins, ?_⟩
    cases entries : env.readdir (resolveAbs env.cwd (searched (lastWord before)) 256) with
    | none =>
      rw [entries] at listed
      cases listed
    | some list =>
      rw [entries] at listed
      exact env.entries_zero _ list entries e listed

lemma getElem?_eq_of_isPrefix {a b : Path} (begins : typed <+: a) (begins' : typed <+: b)
    {i : Nat} (inside : i < typed.length) : a[i]? = b[i]? := by
  obtain ⟨rest, rfl⟩ := begins
  obtain ⟨rest', rfl⟩ := begins'
  rw [getElem?_append_left inside, getElem?_append_left inside]

lemma commonPrefixLen_pass {cp short next : Nat} (begins : typed <+: first)
    (begins' : typed <+: name) (le : cp ≤ first.length) (typed_le : typed.length ≤ cp)
    (shorter : short = if name.length < cp then name.length else cp)
    (stop : next = ((range' typed.length (short - typed.length)).find?
      fun j => name.getD j 0 ≠ first.getD j 0).getD short) :
    (next ≤ first.length ∧ typed.length ≤ next) ∧ first.take next = meet (first.take cp) name := by
  have typed_name := begins'.length_le
  have short_spec : short ≤ cp ∧ short ≤ name.length ∧ typed.length ≤ short ∧
      (short = cp ∨ short = name.length) := by
    split at shorter <;> omega
  clear shorter
  -- where the loop stops, and that both agree up to there
  obtain ⟨bounds, agree, stops⟩ : (typed.length ≤ next ∧ next ≤ short) ∧
      (∀ j, typed.length ≤ j → j < next → name.getD j 0 = first.getD j 0) ∧
      (next = short ∨ next < short ∧ name.getD next 0 ≠ first.getD next 0) := by
    cases found : (range' typed.length (short - typed.length)).find?
      fun j => name.getD j 0 ≠ first.getD j 0 with
    | none =>
      rw [found, Option.getD_none] at stop
      subst stop
      refine ⟨by omega, fun j low high => ?_, .inl rfl⟩
      have none := find?_eq_none.mp found j (mem_range'_1.mpr (by omega))
      simpa using none
    | some k =>
      rw [found, Option.getD_some] at stop
      subst stop
      obtain ⟨differ, member, earlier⟩ := find?_range'_eq_some.mp found
      have inside := mem_range'_1.mp member
      refine ⟨by omega, fun j low high => ?_, .inr ⟨by omega, by simpa using differ⟩⟩
      simpa using earlier j low high
  have both : ∀ j, j < next → name[j]? = first[j]? := by
    intro j inside
    by_cases low : j < typed.length
    · exact getElem?_eq_of_isPrefix begins' begins low
    · have same := agree j (by omega) inside
      rw [getD_eq_getElem _ _ (by omega), getD_eq_getElem _ _ (by omega)] at same
      rw [List.getElem?_eq_getElem (by omega), List.getElem?_eq_getElem (by omega), same]
  refine ⟨by omega, ?_⟩
  have length : (first.take cp).length = cp := length_take_of_le le
  rw [meet_eq_take (k := next), take_take, Nat.min_eq_left (by omega)]
  · rw [take_take, Nat.min_eq_left (by omega)]
    apply ext_getElem?
    intro j
    rw [getElem?_take, getElem?_take]
    split
    case isTrue inside => exact (both j inside).symm
    case isFalse => rfl
  · rw [length]
    rcases stops with same | ⟨before, differ⟩
    · omega
    · refine .inr (.inr ⟨by omega, by omega, ?_⟩)
      rw [getElem?_take_of_lt (by omega), List.getElem?_eq_getElem (by omega),
        List.getElem?_eq_getElem (by omega)]
      rw [getD_eq_getElem _ _ (by omega), getD_eq_getElem _ _ (by omega)] at differ
      exact fun same => differ (Option.some.inj same).symm

lemma commonPrefixLen_spec {rest : List Path} (begins : ∀ name ∈ first :: rest, typed <+: name) :
    commonPrefixLen (first :: rest) typed.length ≤ first.length ∧
      first.take (commonPrefixLen (first :: rest) typed.length) = stem (first :: rest) := by
  unfold commonPrefixLen stem
  simp only
  have begins_first := begins first mem_cons_self
  suffices loop : ∀ cp, cp ≤ first.length → typed.length ≤ cp →
      ∀ {pass : Nat → Path → Nat}, (∀ cp name, typed <+: name → cp ≤ first.length → typed.length ≤ cp →
        (pass cp name ≤ first.length ∧ typed.length ≤ pass cp name) ∧
          first.take (pass cp name) = meet (first.take cp) name) →
      rest.foldl pass cp ≤ first.length ∧
        first.take (rest.foldl pass cp) = rest.foldl meet (first.take cp) by
    have all := loop first.length (Nat.le_refl _) begins_first.length_le
      fun cp name starts le typed_le => commonPrefixLen_pass begins_first starts le typed_le rfl rfl
    rwa [take_length] at all
  have begins_rest : ∀ name ∈ rest, typed <+: name :=
    fun name member => begins name (mem_cons_of_mem _ member)
  clear begins
  induction rest with
  | nil => exact fun cp le _ _ _ => ⟨le, rfl⟩
  | cons name rest ih =>
    intro cp le typed_le pass step
    obtain ⟨⟨next_le, typed_next⟩, taken⟩ :=
      step cp name (begins_rest name mem_cons_self) le typed_le
    rw [foldl_cons, foldl_cons, ← taken]
    exact ih (fun name member => begins_rest name (mem_cons_of_mem _ member)) _ next_le
      typed_next step

/-- What a Tab adds behind the text before the cursor. An empty word is completed by the second of two
Tabs. -/
def completion (env : TabEnv) (before : Path) (lastWasTab : Bool) : Text :=
  if lastWord before = [] ∧ !lastWasTab then []
  else match candidates env before with
    | [] => []
    | [m] => m.name.drop (typedName before).length ++ [m.trail]
    | found => (stem (found.map Candidate.name)).drop (typedName before).length

/-- `last_was_tab` after a Tab: the next one can complete an empty word, and lists the candidates. -/
def tabAgain (env : TabEnv) (before : Path) (lastWasTab : Bool) : Bool :=
  if lastWord before = [] ∧ !lastWasTab then true
  else match candidates env before with
    | [] => true
    | [_] => false
    | _ => completion env before lastWasTab ≠ [] || !lastWasTab

lemma zero_notMem_completion (env : TabEnv) (before : Path) (lastWasTab : Bool) :
    0 ∉ completion env before lastWasTab := by
  unfold completion
  split
  · exact not_mem_nil
  · have zero : ∀ m ∈ candidates env before, 0 ∉ m.name := fun m member => (mem_candidates member).2
    generalize candidates env before = found at zero
    match found with
    | [] => exact not_mem_nil
    | [m] =>
      intro member
      rcases mem_append.mp member with member | member
      · exact zero m mem_cons_self (mem_of_mem_drop member)
      · have trail := mem_singleton.mp member
        unfold Candidate.trail at trail
        split at trail <;> exact absurd trail (by decide)
    | m :: m' :: rest =>
      intro member
      have first : m.name ∈ (m :: m' :: rest).map Candidate.name := mem_cons_self
      have begins := (isPrefix_stem_iff (ne_nil_of_mem first)).mp prefix_rfl m.name first
      exact zero m mem_cons_self (begins.subset (mem_of_mem_drop member))

namespace Editor

lemma insertWhile_append (maxlen : Nat) (v w : List Byte) (e : Editor) :
    insertWhile maxlen (v ++ w) e = insertWhile maxlen w (insertWhile maxlen v e) := by
  induction v generalizing e with
  | nil => rfl
  | cons c v ih =>
    rw [cons_append, insertWhile, insertWhile]
    split
    case isTrue => exact ih _
    case isFalse full =>
      cases w with
      | nil => rfl
      | cons d w => rw [insertWhile, if_neg full]

lemma shows_terminate (held : t.Shows e.line.bytes e.pos e.len) :
    t.Shows e.terminate.line.bytes e.terminate.pos e.terminate.len := by
  apply held.congr
  intro i inside
  exact Function.update_of_ne (Nat.ne_of_lt inside) _ _

end Editor

/-- `shell_tab_complete` inserts the completion; it terminates the line before, and after if it had
something to insert. -/
lemma shellTabComplete_eq (env : TabEnv) (held : t.Shows e.line.bytes e.pos e.len)
    (zero : 0 ∉ t.before) (maxlen : Nat) :
    ∃ finish : Editor → Editor, (finish = id ∨ finish = Editor.terminate) ∧
      shellTabComplete env maxlen e =
        { finish (e.terminate.insertWhile maxlen (completion env t.before e.lastWasTab)) with
          lastWasTab := tabAgain env t.before e.lastWasTab } := by
  have held' := Editor.shows_terminate held
  have zero_word : 0 ∉ lastWord t.before :=
    fun member => zero ((rtakeWhile_suffix _ _).subset member)
  have typed := window_tokStart e.terminate.line.bytes e.terminate.pos
  have command := tokStart_eq_zero_iff e.terminate.line.bytes e.terminate.pos
  rw [held'.before] at typed command
  unfold shellTabComplete
  simp only [typed]
  generalize tokStart e.terminate.line.bytes e.terminate.pos = start at command
  have found : (if start = 0 then commandMatches env (lastWord t.before)
      else entryMatches env (lastWord t.before)) = candidates env t.before := by
    unfold candidates
    rw [commandMatches_eq zero_word, entryMatches_eq zero_word]
    exact if_congr command rfl rfl
  have already : alreadyTyped (decide (start = 0)) (lastWord t.before) =
      (typedName t.before).length := by
    unfold typedName
    by_cases first : start = 0
    · rw [if_pos (command.mp first), decide_eq_true first]
      rfl
    · rw [if_neg (fun same => first (command.mpr same)), decide_eq_false first]
      exact alreadyTyped_name _
  rw [found, already]
  have begins : ∀ m ∈ candidates env t.before, typedName t.before <+: m.name :=
    fun m member => (mem_candidates member).1
  unfold tabAgain
  have empty : (lastWord t.before).length = 0 ∧ (!e.terminate.lastWasTab) = true ↔
      lastWord t.before = [] ∧ (!e.lastWasTab) = true := by
    rw [length_eq_zero_iff]
    rfl
  simp only [empty]
  unfold completion
  by_cases skipped : lastWord t.before = [] ∧ (!e.lastWasTab) = true
  · simp only [if_pos skipped]
    exact ⟨id, .inl rfl, rfl⟩
  · simp only [if_neg skipped]
    generalize candidates env t.before = found at begins
    match found with
    | [] => exact ⟨id, .inl rfl, rfl⟩
    | [m] =>
      refine ⟨Editor.terminate, .inr rfl, ?_⟩
      simp only [Editor.insertWhile_append]
      rfl
    | m :: m' :: rest =>
      have all : ∀ name ∈ (m :: m' :: rest).map Candidate.name, typedName t.before <+: name :=
        forall_mem_map.mpr begins
      rw [map_cons] at all
      obtain ⟨le, taken⟩ := commonPrefixLen_spec all
      simp only [map_cons] at taken le ⊢
      generalize commonPrefixLen (m.name :: m'.name :: rest.map Candidate.name)
        (typedName t.before).length = cp at taken le
      rw [← taken]
      by_cases longer : (typedName t.before).length < cp
      · have more : (m.name.take cp).drop (typedName t.before).length ≠ [] := by
          rw [ne_eq, drop_eq_nil_iff, length_take_of_le le]
          exact Nat.not_le_of_lt longer
        refine ⟨Editor.terminate, .inr rfl, ?_⟩
        rw [if_pos longer]
        simp [more]
      · have nothing : (m.name.take cp).drop (typedName t.before).length = [] := by
          rw [drop_eq_nil_iff, length_take_of_le le]
          exact Nat.le_of_not_lt longer
        refine ⟨id, .inl rfl, ?_⟩
        rw [if_neg longer, nothing]
        simp [Editor.insertWhile, Editor.terminate]

end MicroOs.Shell
