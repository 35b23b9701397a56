import MicroOs.Shell.Proofs.Completion

/-!
# The line editor against a text with a cursor

`TextEditor` is what the keys do to a text with a cursor. The editor shows that text after every key;
the text stays within `line` as long as no Tab inserts more than there is room for, because the
completion looks at the place of the cursor and not at the length of the line.
-/

namespace MicroOs.Shell
open Fs Lib Klib List

variable {c : Byte} {dst n pos src : Nat} {k : Key} {line : LineBuf}

structure TextEditor where
  text : CursorText Byte
  lastWasTab : Bool

/-- What a Tab inserts: the completion, as far as it keeps the cursor before the last place. -/
def TextEditor.inserted (env : TabEnv) (a : TextEditor) : Text :=
  (completion env a.text.before a.lastWasTab).take (sizeofLine - 2 - a.text.before.length)

/-- A key. A character is inserted unless the line is full. -/
def TextEditor.key (env : TabEnv) (a : TextEditor) : Key → TextEditor
  | .enter => ⟨.empty, false⟩
  | .backspace => ⟨a.text.backspace, false⟩
  | .tab => ⟨a.text.insert (a.inserted env), tabAgain env a.text.before a.lastWasTab⟩
  | .left => ⟨a.text.left, false⟩
  | .right => ⟨a.text.right, false⟩
  | .home => ⟨a.text.home, false⟩
  | .toEnd => ⟨a.text.toEnd, false⟩
  | .delete => ⟨a.text.delete, false⟩
  | .clear => ⟨a.text, false⟩
  | .ignored => a
  | .char c => if a.text.text.length < sizeofLine - 1 then ⟨a.text.insert [c], false⟩ else a

variable {env : TabEnv} {e : Editor} {t : CursorText Byte} {i : Nat}

lemma LineBuf.mem_written_put {k : Nat} : i ∈ (line.put k c).written ↔ i = k ∨ i ∈ line.written :=
  mem_cons

lemma LineBuf.mem_written_move :
    i ∈ (line.move dst src n).written ↔ (dst ≤ i ∧ i < dst + n) ∨ i ∈ line.written := by
  simp [LineBuf.move, mem_range'_1]

lemma LineBuf.bytes_move (line : LineBuf) (dst src n i : Nat) :
    (line.move dst src n).bytes i =
      if dst ≤ i ∧ i < dst + n then line.bytes (src + (i - dst)) else line.bytes i := by
  rw [LineBuf.move, memmove_eq_copied]
  rfl

lemma Editor.bytes_insert (le : e.pos ≤ e.len) (c : Byte) (i : Nat) (inside : i ≤ e.len) :
    (e.insert c).line.bytes i =
      if i < e.pos then e.line.bytes i else if i = e.pos then c else e.line.bytes (i - 1) := by
  unfold Editor.insert
  simp only [LineBuf.put]
  by_cases here : i = e.pos
  · rw [here, Function.update_self, if_neg (Nat.lt_irrefl _), if_pos rfl]
  · rw [Function.update_of_ne here, if_neg here]
    by_cases middle : e.pos < e.len
    · rw [if_pos middle, LineBuf.bytes_move]
      by_cases low : i < e.pos
      · rw [if_neg (by omega), if_pos low]
      · rw [if_pos (by omega), if_neg low]
        congr 1
        omega
    · rw [if_neg middle, if_pos (by omega)]

section
variable (held : t.Shows e.line.bytes e.pos e.len)
include held

lemma Editor.shows_insert (c : Byte) :
    (t.insert [c]).Shows (e.insert c).line.bytes (e.insert c).pos (e.insert c).len := by
  have le := held.le
  apply held.insert
  · intro i low
    rw [bytes_insert le c i (by omega), if_pos low]
  · rw [bytes_insert le c e.pos le, if_neg (Nat.lt_irrefl _), if_pos rfl]
  · intro i high inside
    rw [bytes_insert le c (i + 1) inside, if_neg (by omega), if_neg (by omega), Nat.add_sub_cancel]

omit held in
lemma Editor.written_insert (le : e.pos ≤ e.len) (member : i ∈ (e.insert c).line.written) :
    i ∈ e.line.written ∨ i < (e.insert c).len := by
  unfold Editor.insert at member ⊢
  simp only [LineBuf.mem_written_put] at member ⊢
  rcases member with rfl | member
  · exact .inr (Nat.lt_succ_of_le le)
  · split at member
    · rcases LineBuf.mem_written_move.mp member with moved | before
      · exact .inr (by omega)
      · exact .inl before
    · exact .inl member

lemma Editor.shows_insertWhile (maxlen : Nat)
    (w : List Byte) :
    (t.insert (w.take (maxlen - 2 - e.pos))).Shows (e.insertWhile maxlen w).line.bytes
      (e.insertWhile maxlen w).pos (e.insertWhile maxlen w).len := by
  induction w generalizing e t with
  | nil => simpa [insertWhile] using held
  | cons c w ih =>
    rw [insertWhile]
    split
    case isTrue room =>
      have rest := ih (shows_insert held c)
      obtain ⟨n, count⟩ : ∃ n, maxlen - 2 - e.pos = n + 1 := ⟨maxlen - 2 - e.pos - 1, by omega⟩
      have same : maxlen - 2 - (e.insert c).pos = n := by
        show maxlen - 2 - (e.pos + 1) = n
        omega
      rwa [same, CursorText.insert_insert, singleton_append, ← take_succ_cons, ← count] at rest
    case isFalse full =>
      rw [Nat.sub_eq_zero_of_le (Nat.le_of_not_lt full), take_zero, CursorText.insert_nil]
      exact held

lemma Editor.written_insertWhile (maxlen : Nat)
    (w : List Byte) (member : i ∈ (e.insertWhile maxlen w).line.written) :
    i ∈ e.line.written ∨ i < (e.insertWhile maxlen w).len := by
  induction w generalizing e t with
  | nil => exact .inl member
  | cons c w ih =>
    rw [insertWhile] at member ⊢
    split at member
    case isTrue room =>
      rw [if_pos room]
      have longer : (e.insert c).len ≤ (insertWhile maxlen w (e.insert c)).len := by
        have more := (shows_insertWhile (shows_insert held c) maxlen w).length_text
        rw [CursorText.length_insert, (shows_insert held c).length_text] at more
        omega
      rcases ih (shows_insert held c) member with before | inside
      · rcases written_insert held.le before with before | inside
        · exact .inl before
        · exact .inr (Nat.lt_of_lt_of_le inside longer)
      · exact .inr inside
    case isFalse full =>
      rw [if_neg full]
      exact .inl member

end

lemma Editor.written_terminate (member : i ∈ e.terminate.line.written) :
    i ∈ e.line.written ∨ i = e.len := by
  rcases LineBuf.mem_written_put.mp member with here | before
  · exact .inr here
  · exact .inl before

/-- The editor shows the abstract text, which has no zero. -/
structure Follows (e : Editor) (a : TextEditor) : Prop where
  held : a.text.Shows e.line.bytes e.pos e.len
  lastWasTab : e.lastWasTab = a.lastWasTab
  zero : 0 ∉ a.text.text

variable {a : TextEditor}

lemma Follows.zero_insert (follows : Follows e a) {w : List Byte} (zero : 0 ∉ w) :
    0 ∉ (a.text.insert w).text := by
  have before := follows.zero
  simp only [CursorText.insert, CursorText.text, mem_append, not_or] at before ⊢
  exact ⟨⟨before.1, zero⟩, before.2⟩

lemma Follows.tab (follows : Follows e a) (env : TabEnv) :
    Follows (e.key env .tab) (a.key env .tab) ∧
      ∀ i ∈ (e.key env .tab).line.written, i ∈ e.line.written ∨ i ≤ (e.key env .tab).len := by
  have zero_before : 0 ∉ a.text.before := fun member => follows.zero (mem_append_left _ member)
  obtain ⟨finish, which, result⟩ := shellTabComplete_eq env follows.held zero_before sizeofLine
  have held := Editor.shows_terminate follows.held
  have shown := Editor.shows_insertWhile held sizeofLine (completion env a.text.before e.lastWasTab)
  have place : e.terminate.pos = a.text.before.length := follows.held.length_before.symm
  rw [place, follows.lastWasTab] at shown
  rw [follows.lastWasTab] at result
  have written := fun i => Editor.written_insertWhile (i := i) held sizeofLine
    (completion env a.text.before a.lastWasTab)
  have longer : e.len ≤ (e.terminate.insertWhile sizeofLine
      (completion env a.text.before a.lastWasTab)).len := by
    have more := shown.length_text
    rw [CursorText.length_insert, held.length_text] at more
    exact Nat.le_of_add_right_le more.le
  simp only [Editor.key, TextEditor.key, result]
  generalize e.terminate.insertWhile sizeofLine
    (completion env a.text.before a.lastWasTab) = x at shown written longer
  have start : ∀ i ∈ x.line.written, i ∈ e.line.written ∨ i ≤ x.len := by
    intro i member
    rcases written i member with before | inside
    · rcases Editor.written_terminate before with before | rfl
      · exact .inl before
      · exact .inr longer
    · exact .inr (Nat.le_of_lt inside)
  have zero : 0 ∉ (a.text.insert (a.inserted env)).text :=
    follows.zero_insert fun member =>
      zero_notMem_completion env _ _ (mem_of_mem_take member)
  rcases which with rfl | rfl
  · exact ⟨⟨shown, rfl, zero⟩, start⟩
  · refine ⟨⟨Editor.shows_terminate shown, rfl, zero⟩, fun i member => ?_⟩
    rcases Editor.written_terminate member with before | rfl
    · exact start i before
    · exact .inr (Nat.le_refl _)

/-- A key that is not Tab makes the line shorter or at most full, and writes within the line. -/
structure KeyStep (e e' : Editor) (a' : TextEditor) : Prop where
  follows : Follows e' a'
  written : ∀ i ∈ e'.line.written, i ∈ e.line.written ∨ i ≤ max e.len e'.len
  len : e'.len ≤ max e.len (sizeofLine - 1)

section
variable (follows : Follows e a)
include follows

lemma Follows.moved (held : t.Shows e.line.bytes pos e.len)
    (text : t.text = a.text.text) :
    KeyStep e { e with pos := pos, lastWasTab := false } ⟨t, false⟩ where
  follows := ⟨held, rfl, text ▸ follows.zero⟩
  written _ member := .inl member
  len := Nat.le_max_left _ _

lemma Follows.removed (inside : dst + n ≤ e.len)
    (held : t.Shows (e.line.move dst src n).bytes pos (e.len - 1)) (text : t.text ⊆ a.text.text) :
    KeyStep e ⟨e.line.move dst src n, pos, e.len - 1, false⟩ ⟨t, false⟩ where
  follows := ⟨held, rfl, fun member => follows.zero (text member)⟩
  written i member := by
    rcases LineBuf.mem_written_move.mp member with moved | before
    · exact .inr (by simp only; omega)
    · exact .inl before
  len := by
    simp only
    omega

omit follows in
lemma keyStep_enter (e : Editor) (a : TextEditor) (env : TabEnv) :
    KeyStep e (e.key env .enter) (a.key env .enter) := by
  refine ⟨⟨CursorText.shows_empty _, rfl, not_mem_nil⟩, fun i member => ?_, Nat.zero_le _⟩
  have stripped : ∀ e : Editor, i ∈ e.strip.line.written → i ∈ e.line.written ∨ i ≤ e.len := by
    intro e member
    rcases LineBuf.mem_written_put.mp member with rfl | before
    · right
      have shorter : ∀ l : Path, (stripTrailing (cString l)).length ≤ l.length := fun l =>
        Nat.le_trans ( rdropWhile_prefix _ _).length_le ( takeWhile_prefix _).length_le
      exact Nat.le_trans (shorter _) (Nat.le_of_eq (length_window _ _ _))
    · exact .inl before
  have first : i ∈ e.terminate.line.written ∨ i ≤ e.len := by
    simp only [Editor.key] at member
    split at member
    · exact .inl member
    · exact stripped e.terminate member
  rcases first with written | inside
  · rcases Editor.written_terminate written with before | rfl
    · exact .inl before
    · exact .inr (Nat.le_max_left _ _)
  · exact .inr (Nat.le_trans inside (Nat.le_max_left _ _))

section
variable (env)

lemma Follows.backspace : KeyStep e (e.key env .backspace) (a.key env .backspace) := by
  have held := follows.held
  have le := held.le
  simp only [Editor.key, TextEditor.key]
  split
  case isTrue first =>
    apply follows.removed (by omega) _ (CursorText.text_backspace_subset _)
    rw [show e.pos = e.pos - 1 + 1 by omega] at held
    apply held.backspace
    · intro i low
      rw [LineBuf.bytes_move, if_neg (by omega)]
    · intro i high inside
      rw [LineBuf.bytes_move, if_pos (by omega)]
      congr 1
      omega
  case isFalse start =>
    have nil := (show e.pos = 0 by omega) ▸ held
    rw [CursorText.backspace_of_nil nil.before_nil]
    exact follows.moved held rfl

lemma Follows.delete : KeyStep e (e.key env .delete) (a.key env .delete) := by
  have held := follows.held
  simp only [Editor.key, TextEditor.key]
  split
  case isTrue inside =>
    apply follows.removed (by omega) _ (CursorText.text_delete_subset _)
    apply held.delete inside
    · intro i low
      rw [LineBuf.bytes_move, if_neg (by omega)]
    · intro i high below
      rw [LineBuf.bytes_move, if_pos (by omega)]
      congr 1
      omega
  case isFalse stop =>
    rw [CursorText.delete_of_nil (held.after_nil (Nat.le_of_not_lt stop))]
    exact follows.moved held rfl

lemma Follows.char (nonzero : c ≠ 0) : KeyStep e (e.key env (.char c)) (a.key env (.char c)) := by
  have held := follows.held
  simp only [Editor.key, TextEditor.key, held.length_text]
  split
  case isTrue room =>
    refine ⟨⟨Editor.shows_insert held c, rfl, ?_⟩, fun i member => ?_, ?_⟩
    · exact follows.zero_insert fun member => nonzero (mem_singleton.mp member).symm
    · rcases Editor.written_insert held.le member with before | inside
      · exact .inl before
      · exact .inr (Nat.le_trans (Nat.le_of_lt inside) (Nat.le_max_right _ _))
    · exact Nat.le_trans room (Nat.le_max_right _ _)
  case isFalse => exact ⟨follows, fun i member => .inl member, Nat.le_max_left _ _⟩

lemma Follows.key (other : k ≠ .tab) (char : k ≠ .char 0) :
    KeyStep e (e.key env k) (a.key env k) := by
  have held := follows.held
  cases k with
  | tab => exact absurd rfl other
  | enter => exact keyStep_enter e a env
  | backspace => exact follows.backspace env
  | left => exact follows.moved held.left (CursorText.text_left _)
  | right => exact follows.moved held.right (CursorText.text_right _)
  | home => exact follows.moved held.home (CursorText.text_home _)
  | toEnd =>
    simp only [Editor.key, Nat.max_eq_right held.le]
    exact follows.moved held.toEnd (CursorText.text_toEnd _)
  | delete => exact follows.delete env
  | clear => exact follows.moved held rfl
  | ignored => exact ⟨follows, fun i member => .inl member, Nat.le_max_left _ _⟩
  | char c => exact follows.char env fun zero => char (zero ▸ rfl)

end

/-- A key with what a completion would find. `keyboard_handler` delivers no zero. -/
structure KeyPress where
  env : TabEnv
  code : BitVec 16
  nonzero : code ≠ 0

def KeyPress.key (press : KeyPress) : Key := Key.ofCode press.code

omit follows in
lemma Key.char_of_ite {p : Prop} [Decidable p] {k' : Key} (same : (if p then k else k') = .char c)
    (plain : k ≠ .char c) : ¬p ∧ k' = .char c := by
  by_cases taken : p
  · rw [if_pos taken] at same
    exact absurd same plain
  · rw [if_neg taken] at same
    exact ⟨taken, same⟩

omit follows in
lemma Key.ofCode_char {code : BitVec 16} (same : Key.ofCode code = .char c) :
    code.toNat < 0x80 ∧ code.setWidth 8 = c := by
  unfold Key.ofCode at same
  iterate 9 obtain ⟨-, same⟩ := char_of_ite same nofun
  obtain ⟨small, same⟩ := char_of_ite same nofun
  obtain ⟨-, same⟩ := char_of_ite same nofun
  exact ⟨Nat.lt_of_not_le small, Key.char.inj same⟩

omit follows in
lemma KeyPress.key_ne_zero (press : KeyPress) : press.key ≠ .char 0 := by
  intro same
  obtain ⟨small, low⟩ := Key.ofCode_char same
  have low := congrArg BitVec.toNat low
  rw [BitVec.toNat_setWidth, Nat.mod_eq_of_lt (Nat.lt_trans small (by decide))] at low
  exact press.nonzero (BitVec.eq_of_toNat_eq low)

def EditStep (s : Editor × TextEditor) (press : KeyPress) (t : Editor × TextEditor) : Prop :=
  t = (s.1.key press.env press.key, s.2.key press.env press.key)

/-- The line is the abstract text, within the array, and so has every write been. -/
structure Exact (e : Editor) (a : TextEditor) : Prop where
  pos_le : e.pos ≤ e.len
  len_le : e.len ≤ sizeofLine - 1
  written : ∀ i ∈ e.line.written, i < sizeofLine
  cursor : a.text.before.length = e.pos
  text : window e.line.bytes 0 e.len = a.text.text

/-- A Tab has room for what it inserts. -/
def HasRoom (st : StepOf (Editor × TextEditor) KeyPress) : Prop :=
  st.event.key = .tab →
    st.pre.2.text.text.length + (st.pre.2.inserted st.event.env).length ≤ sizeofLine - 1

lemma Follows.exact_iff :
    Exact e a ↔ e.len ≤ sizeofLine - 1 ∧ ∀ i ∈ e.line.written, i < sizeofLine := by
  constructor
  · exact fun exact => ⟨exact.len_le, exact.written⟩
  · exact fun ⟨len_le, written⟩ => ⟨follows.held.le, len_le, written, follows.held.length_before,
      follows.held.text⟩

lemma Follows.step (press : KeyPress) :
    Follows (e.key press.env press.key) (a.key press.env press.key) := by
  by_cases tab : press.key = .tab
  · rw [tab]
    exact (follows.tab press.env).1
  · exact (follows.key press.env tab press.key_ne_zero).follows

lemma Follows.exact_step (exact : Exact e a) (press : KeyPress) :
    Exact (e.key press.env press.key) (a.key press.env press.key) ↔
      (press.key = .tab →
        a.text.text.length + (a.inserted press.env).length ≤ sizeofLine - 1) := by
  rw [(follows.step press).exact_iff]
  by_cases tab : press.key = .tab
  · obtain ⟨after, written⟩ := follows.tab press.env
    have length := after.held.length_text
    rw [TextEditor.key, CursorText.length_insert] at length
    rw [tab, length]
    constructor
    · exact fun fits _ => fits.1
    · intro fits
      refine ⟨fits rfl, fun i member => ?_⟩
      rcases written i member with before | inside
      · exact exact.written i before
      · exact Nat.lt_of_le_of_lt (Nat.le_trans inside (fits rfl)) (by decide)
  · have step := follows.key press.env tab press.key_ne_zero
    have len_le := Nat.le_trans step.len (Nat.max_le.mpr ⟨exact.len_le, Nat.le_refl _⟩)
    refine iff_of_true ⟨len_le, fun i member => ?_⟩ fun same => absurd same tab
    rcases step.written i member with before | inside
    · exact exact.written i before
    · exact Nat.lt_of_le_of_lt (Nat.le_trans inside (Nat.max_le.mpr ⟨exact.len_le, len_le⟩))
        (by decide)

end

def editStart (stack : Nat → Byte) : Editor × TextEditor := (Editor.start stack, ⟨.empty, false⟩)

lemma follows_editStart (stack : Nat → Byte) : Follows (editStart stack).1 (editStart stack).2 :=
  ⟨CursorText.shows_empty _, rfl, not_mem_nil⟩

/-- Both editors show the same text, within the array. -/
def Kept (s : Editor × TextEditor) : Prop := Follows s.1 s.2 ∧ Exact s.1 s.2

lemma kept_editStart (stack : Nat → Byte) : Kept (editStart stack) := by
  have start := follows_editStart stack
  exact ⟨start, start.exact_iff.mpr ⟨Nat.zero_le _, fun i member => absurd member not_mem_nil⟩⟩

lemma Kept.step {s u : Editor × TextEditor} {press : KeyPress} (kept : Kept s)
    (step : EditStep s press u) : Kept u ↔ HasRoom ⟨s, press, u⟩ := by
  rw [step]
  exact (and_iff_right (kept.1.step press)).trans (kept.1.exact_step kept.2 press)

/-- Over any keys, command names and directories: the line is the abstract text within the array
after every key if and only if every Tab has room for what it inserts. -/
theorem editing_exact_iff (stack : Nat → Byte)
    {trace : List (StepOf (Editor × TextEditor) KeyPress)} {t : Editor × TextEditor}
    (run : Run EditStep (editStart stack) trace t) :
    (∀ st ∈ trace, Exact st.post.1 st.post.2) ↔ ∀ st ∈ trace, HasRoom st := by
  have exactly : (∀ st ∈ trace, Kept st.post) ↔ ∀ st ∈ trace, HasRoom st :=
    run.forall_post_iff (kept_editStart stack) fun s press u kept step => kept.step step
  rw [← exactly]
  constructor
  · intro exact st member
    refine ⟨?_, exact st member⟩
    obtain ⟨before, after, rfl⟩ := append_of_mem member
    have pre : Follows st.pre.1 st.pre.2 :=
      run.before.invariant (fun s => Follows s.1 s.2) (follows_editStart stack)
        fun s press u held step => by
          rw [step]
          exact held.step press
    rw [run.step_of_mem st member]
    exact pre.step st.event
  · exact fun kept st member => (kept st member).2

def oneCommand : TabEnv where
  commands := [ascii "help"]
  cwd := ascii "/"
  readdir _ := none
  commands_zero := by decide
  entries_zero := nofun

def session (codes : List (BitVec 16)) : List KeyPress :=
  codes.filterMap fun code =>
    if nonzero : code ≠ 0 then some ⟨oneCommand, code, nonzero⟩ else none

def pressed (s : Editor × TextEditor) (k : KeyPress) : Editor × TextEditor :=
  (s.1.key k.env k.key, s.2.key k.env k.key)

def shortSession : List KeyPress := session [0x68, 0x09, 0x84, 0x78]

lemma run_of_keys (stack : Nat → Byte) (keys : List KeyPress) :
    Run EditStep (editStart stack) (stepsFrom pressed (editStart stack) keys)
      (keys.foldl pressed (editStart stack)) := by
  have all : ∀ s, Executes (fun _ _ => True) pressed s keys := by
    induction keys with
    | nil => exact fun _ => trivial
    | cons k keys ih => exact fun s => ⟨trivial, ih _⟩
  exact (all _).run fun _ _ _ => rfl

theorem editing_exact_iff_help :
    (∀ st ∈ stepsFrom pressed (editStart fun _ => 0) shortSession, HasRoom st) ∧
      (∀ st ∈ stepsFrom pressed (editStart fun _ => 0) shortSession, Exact st.post.1 st.post.2) ∧
      (shortSession.foldl pressed (editStart fun _ => 0)).2.text = ⟨ascii "x", ascii "help "⟩ := by
  have room : ∀ st ∈ stepsFrom pressed (editStart fun _ => 0) shortSession, HasRoom st := by
    unfold HasRoom
    decide +kernel
  exact ⟨room, (editing_exact_iff _ (run_of_keys _ shortSession)).mpr room, by decide +kernel⟩

def fullLine : List KeyPress :=
  session (0x68 :: replicate 126 0x78 ++ [0x84, 0x83, 0x09])

/-- The Tab writes behind the array, and the line is longer than the array. -/
theorem tab_writes_behind_line :
    Run EditStep (editStart fun _ => 0) (stepsFrom pressed (editStart fun _ => 0) fullLine)
        (fullLine.foldl pressed (editStart fun _ => 0)) ∧
      128 ∈ (fullLine.foldl pressed (editStart fun _ => 0)).1.line.written ∧
      (fullLine.foldl pressed (editStart fun _ => 0)).1.len = 131 := by
  refine ⟨run_of_keys _ _, ?_, ?_⟩ <;> decide +kernel

end MicroOs.Shell
