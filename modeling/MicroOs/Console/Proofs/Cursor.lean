import MicroOs.Console.Console

/-!
# The cursor and the console

A console with a mouse is compared with one that never had a mouse. While the cursor is shown, the
framebuffer is that of the console alone with the cursor painted over it; while a guard is held, the
framebuffers agree. Every operation keeps this.
-/

namespace MicroOs.Console
open Lib Klib

variable {base : Nat → Pixel} {h w x x' y y' : Nat} {m : Mouse}

/-! ## Where characters and the cursor lie -/

lemma Framebuffer.width_le_stride (fb : Framebuffer) : fb.width ≤ fb.stride := by
  have := fb.holds
  unfold Framebuffer.stride
  omega

lemma Framebuffer.cols_pos (fb : Framebuffer) : 0 < fb.cols := Nat.div_pos fb.one_col (by decide)

lemma Framebuffer.rows_pos (fb : Framebuffer) : 0 < fb.rows := Nat.div_pos fb.one_row (by decide)

lemma Framebuffer.word_unique {fb : Framebuffer} (inRow : x < fb.width) (inRow' : x' < fb.width)
    (same : fb.word x y = fb.word x' y') : x = x' ∧ y = y' :=
  row_col_unique (Nat.lt_of_lt_of_le inRow fb.width_le_stride)
    (Nat.lt_of_lt_of_le inRow' fb.width_le_stride) same

variable {font : Font} {fb : Framebuffer} {s b : State} {col row : Nat} {cell : Nat × Nat} {a : Nat}

abbrev cursorCells : List (Nat × Nat) := gridCells cursorH cursorW

def cursorAt (s : State) : Nat × Nat → Option Nat :=
  cursorPlace s.fb s.mouse.screenW s.mouse.screenH s.mouse.px s.mouse.py

lemma cursorPlace_eq_some {cx cy : Int} (here : cursorPlace fb w h cx cy cell = some a) :
    ∃ x y : Nat, x = cx + cell.2 ∧ y = cy + cell.1 ∧ x < w ∧ fb.word x y = a := by
  simp only [cursorPlace] at here
  split at here
  · cases here
  case isFalse on =>
    refine ⟨(cx + cell.2).toNat, (cy + cell.1).toNat, ?_, ?_, ?_, Option.some.inj here⟩ <;> omega

lemma placedApart_cursor (fits : w ≤ fb.width) (cx cy : Int) (cells : List (Nat × Nat)) :
    PlacedApart (cursorPlace fb w h cx cy) cells := by
  intro c _ d _ a hc hd
  obtain ⟨x, y, atX, atY, inRow, word⟩ := cursorPlace_eq_some hc
  obtain ⟨x', y', atX', atY', inRow', word'⟩ := cursorPlace_eq_some hd
  obtain ⟨sameX, sameY⟩ := Framebuffer.word_unique (Nat.lt_of_lt_of_le inRow fits)
    (Nat.lt_of_lt_of_le inRow' fits) (word.trans word'.symm)
  apply Prod.ext <;> omega

lemma char_inRow (inText : col < fb.cols) (member : cell ∈ gridCells 16 8) :
    col * 8 + cell.2 < fb.width := by
  have := (mem_gridCells.mp member).2
  unfold Framebuffer.cols at inText
  omega

lemma placedApart_char (inText : col < fb.cols) :
    PlacedApart (charPlace fb col row) (gridCells 16 8) := by
  intro c hc d hd a placed placed'
  obtain ⟨sameX, sameY⟩ := Framebuffer.word_unique (char_inRow inText hc) (char_inRow inText hd)
    ((Option.some.inj placed).trans (Option.some.inj placed').symm)
  apply Prod.ext <;> omega

lemma char_apart_cursor (ready : s.mouseReady = true) (width : s.mouse.screenW = s.fb.width)
    (inText : col < s.fb.cols) (apart : charOverlapsCursor s col row = false) :
    ∀ c ∈ gridCells 16 8, ∀ d ∈ cursorCells, ∀ a,
      charPlace s.fb col row c = some a → cursorAt s d ≠ some a := by
  intro c hc d hd a placed shown
  obtain ⟨x, y, atX, atY, inRow, word⟩ := cursorPlace_eq_some shown
  obtain ⟨sameX, sameY⟩ := Framebuffer.word_unique (char_inRow inText hc) (width ▸ inRow)
    ((Option.some.inj placed).trans word.symm)
  have inChar := mem_gridCells.mp hc
  have inCursor := mem_gridCells.mp hd
  simp only [cursorH, cursorW] at inCursor
  simp only [charOverlapsCursor, ready, Bool.not_true, Bool.false_eq_true, if_false,
    Bool.not_eq_false', Bool.or_eq_true, decide_eq_true_eq] at apart
  omega

/-- The cursor is painted over `base` at the position of the mouse, the pixels below are saved. -/
structure Shown (s : State) (base : Nat → Pixel) : Prop where
  visible : s.mouse.cursorVisible = true
  at_x : s.mouse.savedCx = s.mouse.px
  at_y : s.mouse.savedCy = s.mouse.py
  painted : s.pixels = paintCells (cursorAt s) cursorColor cursorCells base
  saved : ∀ cell ∈ cursorCells, ∀ a, cursorAt s cell = some a → s.mouse.savedUnder cell = base a

/-- The cursor is away and the framebuffer is `base`. -/
structure Hidden (s : State) (base : Nat → Pixel) : Prop where
  invisible : s.mouse.cursorVisible = false
  clean : s.pixels = base

lemma cursorBit_ne_zero (colored : cursorColor cell ≠ none) : cursorBit cell ≠ 0 := by
  intro transparent
  apply colored
  rw [cursorColor, transparent]
  rfl

lemma eraseCursor_pixels (width : s.mouse.screenW = s.fb.width)
    (visible : s.mouse.cursorVisible = true) {place : Nat × Nat → Option Nat}
    (drawnAt : cursorPlace s.fb s.mouse.screenW s.mouse.screenH s.mouse.savedCx s.mouse.savedCy =
      place)
    (painted : s.pixels = paintCells place cursorColor cursorCells base)
    (saved : ∀ cell ∈ cursorCells, ∀ a, place cell = some a → s.mouse.savedUnder cell = base a) :
    eraseCursor s =
      { s with pixels := base, mouse := { s.mouse with cursorVisible := false } } := by
  have apart : PlacedApart place cursorCells :=
    drawnAt ▸ placedApart_cursor (Nat.le_of_eq width) _ _ _
  have restored : paintCells place (erasedCell s.mouse.savedUnder) cursorCells s.pixels = base := by
    rw [painted]
    refine paintCells_kept apart saved (fun c _ colored => ?_) fun c _ => ?_
    · exact if_pos (cursorBit_ne_zero colored)
    · unfold erasedCell
      split
      · exact .inr rfl
      · exact .inl rfl
  rw [eraseCursor, visible, drawnAt]
  change { s with pixels := _, mouse := _ } = _
  rw [restored]

lemma Shown.eraseCursor_eq (shown : Shown s base) (width : s.mouse.screenW = s.fb.width) :
    eraseCursor s =
      { s with pixels := base, mouse := { s.mouse with cursorVisible := false } } :=
  eraseCursor_pixels width shown.visible
    (congrArg₂ (cursorPlace s.fb s.mouse.screenW s.mouse.screenH) shown.at_x shown.at_y)
    shown.painted shown.saved

lemma drawCursor_pixels (s : State) (cx cy : Int) :
    (drawCursor s cx cy).pixels =
      paintCells (cursorPlace s.fb s.mouse.screenW s.mouse.screenH cx cy) cursorColor cursorCells
        s.pixels :=
  overlay_fst _

lemma drawCursor_shown (width : s.mouse.screenW = s.fb.width) :
    Shown (drawCursor s s.mouse.px s.mouse.py) s.pixels where
  visible := rfl
  at_x := rfl
  at_y := rfl
  painted := drawCursor_pixels s s.mouse.px s.mouse.py
  saved := fun _ member _ here =>
    overlay_snd (placedApart_cursor (Nat.le_of_eq width) _ _ _) (nodup_gridCells _ _) member here _

lemma Shown.ready (shown : Shown s base) (r : Bool) : Shown { s with mouseReady := r } base :=
  { shown with }

lemma cursorGuardEnter_of_ready (ready : s.mouseReady = true) :
    cursorGuardEnter s =
      if s.cursorHiddenDepth = 0
      then mouseHideCursor { s with cursorHiddenDepth := s.cursorHiddenDepth + 1 }
      else { s with cursorHiddenDepth := s.cursorHiddenDepth + 1 } :=
  if_neg (by simp [ready])

lemma cursorGuardLeave_of_ready (ready : s.mouseReady = true) :
    cursorGuardLeave s =
      if s.cursorHiddenDepth - 1 = 0
      then mouseShowCursor { s with cursorHiddenDepth := s.cursorHiddenDepth - 1 }
      else { s with cursorHiddenDepth := s.cursorHiddenDepth - 1 } :=
  if_neg (by simp [ready])

lemma cursorGuardEnter_of_alone (alone : s.mouseReady = false) : cursorGuardEnter s = s :=
  if_pos (by simp [alone])

lemma cursorGuardLeave_of_alone (alone : s.mouseReady = false) : cursorGuardLeave s = s :=
  if_pos (by simp [alone])

lemma charOverlapsCursor_of_alone (alone : s.mouseReady = false) (col row : Nat) :
    charOverlapsCursor s col row = false :=
  if_pos (by simp [alone])

lemma clamp_inside (p : Int) {size : Nat} (positive : 0 < size) :
    0 ≤ clamp p size ∧ clamp p size < size := by
  simp only [clamp]
  split <;> split <;> omega

lemma applyPacket_px (positive : 0 < m.screenW) :
    0 ≤ (applyPacket m).px ∧ (applyPacket m).px < m.screenW :=
  clamp_inside _ positive

lemma applyPacket_py (positive : 0 < m.screenH) :
    0 ≤ (applyPacket m).py ∧ (applyPacket m).py < m.screenH :=
  clamp_inside _ positive

lemma step_packet (empty : s.mouse.packetIdx = 0) (flags x y : Byte) :
    step font s (.packet flags x y) =
      takePacket
        { s with
          mouse := { s.mouse with
            packet :=
              Function.update (Function.update (Function.update s.mouse.packet 0 flags) 1 x) 2 y
            packetIdx := 0 } } := by
  have ofMouse : ¬mouseStatus &&& 0x20 = 0 := by decide
  simp only [step, mouseHandler, if_neg ofMouse, empty]
  rfl

/-! ### The console without a mouse -/

lemma drawGuarded_of_alone (alone : s.mouseReady = false) (c : Byte) :
    drawGuarded font s c = { s with pixels := drawChar font s.fb s.cx s.cy c s.pixels } := by
  simp only [drawGuarded, charOverlapsCursor_of_alone alone, Bool.false_eq_true, if_false]

lemma scrollLine_of_alone (alone : s.mouseReady = false) :
    scrollLine s =
      if s.cy ≥ s.fb.rows
      then { s with pixels := scrollUp s.fb s.pixels, cy := s.fb.rows - 1 }
      else s := by
  simp only [scrollLine, cursorGuardEnter_of_alone alone]
  rw [cursorGuardLeave_of_alone (by exact alone)]

lemma consoleClear_of_alone (alone : s.mouseReady = false) :
    consoleClear s =
      { s with pixels := zeroed s.pixels 0 (s.fb.height * s.fb.stride), cx := 0, cy := 0 } := by
  simp only [consoleClear, cursorGuardEnter_of_alone alone]
  rw [cursorGuardLeave_of_alone (by exact alone)]

structure InText (s : State) : Prop where
  cx : s.cx < s.fb.cols
  cy : s.cy < s.fb.rows

lemma InText.backspace (inText : InText s) : InText (backspace s) := by
  have some_col := s.fb.cols_pos
  unfold Console.backspace
  split
  · exact ⟨Nat.lt_of_le_of_lt (Nat.sub_le _ _) inText.cx, inText.cy⟩
  split
  · exact ⟨Nat.sub_lt some_col Nat.one_pos, Nat.lt_of_le_of_lt (Nat.sub_le _ _) inText.cy⟩
  · exact inText

/-- The cursor over `base` when `d` guards are held. -/
def Picture (s : State) (base : Nat → Pixel) : Nat → Prop
  | 0 => Shown s base
  | _ + 1 => Hidden s base

/-- `s` is the console `b` with a mouse and `d` guards held. -/
structure Sim (d : Nat) (s b : State) : Prop where
  alone : b.mouseReady = false
  fb : b.fb = s.fb
  cx : b.cx = s.cx
  cy : b.cy = s.cy
  ready : s.mouseReady = true
  screenW : s.mouse.screenW = s.fb.width
  screenH : s.mouse.screenH = s.fb.height
  px : 0 ≤ s.mouse.px ∧ s.mouse.px < s.fb.width
  py : 0 ≤ s.mouse.py ∧ s.mouse.py < s.fb.height
  packetIdx : s.mouse.packetIdx = 0
  depth : s.cursorHiddenDepth = d
  picture : Picture s b.pixels d

namespace Sim
variable {d : Nat}

lemma move (sim : Sim d s b) (sameX : x' = x) (sameY : y' = y) :
    Sim d { s with cx := x, cy := y } { b with cx := x', cy := y' } :=
  { sim with
    cx := sameX
    cy := sameY
    picture := by
      cases d with
      | zero => exact { (sim.picture : Shown s b.pixels) with }
      | succ d => exact { (sim.picture : Hidden s b.pixels) with } }

lemma paint (sim : Sim (d + 1) s b) (g : (Nat → Pixel) → Nat → Pixel) :
    Sim (d + 1) { s with pixels := g s.pixels } { b with pixels := g b.pixels } :=
  have away : Hidden s b.pixels := sim.picture
  { sim with picture := ⟨away.invisible, congrArg g away.clean⟩ }

lemma enter (sim : Sim d s b) : Sim (d + 1) (cursorGuardEnter s) b := by
  have deeper : s.cursorHiddenDepth + 1 = (d + 1 : Nat) := congrArg (· + 1) sim.depth
  rw [cursorGuardEnter_of_ready sim.ready]
  cases d with
  | zero =>
    have erased : mouseHideCursor { s with cursorHiddenDepth := s.cursorHiddenDepth + 1 } =
        { s with
          cursorHiddenDepth := s.cursorHiddenDepth + 1
          pixels := b.pixels
          mouse := { s.mouse with cursorVisible := false } } :=
      Shown.eraseCursor_eq { (sim.picture : Shown s b.pixels) with } sim.screenW
    rw [if_pos (by exact sim.depth), erased]
    exact { sim with depth := deeper, picture := ⟨rfl, rfl⟩ }
  | succ d =>
    have held : s.cursorHiddenDepth ≠ 0 := by
      rw [sim.depth]
      omega
    rw [if_neg held]
    exact { sim with depth := deeper, picture := { (sim.picture : Hidden s b.pixels) with } }

lemma leave (sim : Sim (d + 1) s b) : Sim d (cursorGuardLeave s) b := by
  have away : Hidden s b.pixels := sim.picture
  have less : s.cursorHiddenDepth - 1 = d := by
    rw [sim.depth]
    omega
  rw [cursorGuardLeave_of_ready sim.ready]
  cases d with
  | zero =>
    have drawn : mouseShowCursor { s with cursorHiddenDepth := s.cursorHiddenDepth - 1 } =
        drawCursor { s with cursorHiddenDepth := s.cursorHiddenDepth - 1 } s.mouse.px s.mouse.py :=
      if_pos (by simp [away.invisible])
    rw [if_pos (by exact less), drawn]
    exact { sim with depth := less, picture := away.clean ▸ drawCursor_shown sim.screenW }
  | succ d =>
    have held : s.cursorHiddenDepth - 1 ≠ 0 := by
      rw [less]
      omega
    rw [if_neg held]
    exact { sim with depth := less, picture := { away with } }

lemma guarded (sim : Sim d s b) (g : (Nat → Pixel) → Nat → Pixel) :
    Sim d (cursorGuardLeave { cursorGuardEnter s with pixels := g (cursorGuardEnter s).pixels })
      { b with pixels := g b.pixels } :=
  (sim.enter.paint g).leave

lemma paint_apart (sim : Sim d s b) (inText : s.cx < s.fb.cols) (c : Byte)
    (apart : charOverlapsCursor s s.cx s.cy = false) :
    Sim d { s with pixels := drawChar font s.fb s.cx s.cy c s.pixels }
      { b with pixels := drawChar font s.fb s.cx s.cy c b.pixels } := by
  cases d with
  | succ d => exact sim.paint (drawChar font s.fb s.cx s.cy c)
  | zero =>
    have shown : Shown s b.pixels := sim.picture
    have disjoint := char_apart_cursor sim.ready sim.screenW inText apart
    refine { sim with
      picture := { shown with painted := ?_, saved := fun cell member a here => ?_ } }
    · rw [shown.painted]
      exact paintCells_comm (placedApart_char inText)
        (placedApart_cursor (Nat.le_of_eq sim.screenW) _ _ _) disjoint
    · refine (shown.saved cell member a here).trans (Eq.symm ?_)
      exact paintCells_of_forall_ne fun c inChar placed =>
        disjoint c inChar cell member a placed here

/-! ### The operations of the console -/

section
variable (sim : Sim d s b)
include sim

lemma drawGuarded (inText : InText s) (c : Byte) :
    Sim d (drawGuarded font s c) (drawGuarded font b c) := by
  have same : drawChar font b.fb b.cx b.cy c = drawChar font s.fb s.cx s.cy c := by
    rw [sim.fb, sim.cx, sim.cy]
  rw [drawGuarded_of_alone sim.alone, same]
  simp only [Console.drawGuarded]
  cases apart : charOverlapsCursor s s.cx s.cy with
  | false => exact sim.paint_apart inText.cx c apart
  | true => exact sim.guarded (drawChar font s.fb s.cx s.cy c)

lemma backspace : Sim d (backspace s) (backspace b) := by
  unfold Console.backspace
  by_cases inside : s.cx > 0
  · rw [if_pos inside, if_pos (show b.cx > 0 by rwa [sim.cx])]
    exact sim.move (congrArg (· - 1) sim.cx) sim.cy
  rw [if_neg inside, if_neg (show ¬b.cx > 0 by rwa [sim.cx])]
  by_cases below : s.cy > 0
  · rw [if_pos below, if_pos (show b.cy > 0 by rwa [sim.cy])]
    exact sim.move (congrArg (·.cols - 1) sim.fb) (congrArg (· - 1) sim.cy)
  · rw [if_neg below, if_neg (show ¬b.cy > 0 by rwa [sim.cy])]
    exact sim

lemma putGlyph (inText : InText s) (c : Byte) : Sim d (putGlyph font s c) (putGlyph font b c) := by
  unfold Console.putGlyph
  split
  · exact sim.move rfl (congrArg (· + 1) sim.cy)
  split
  · exact sim.move rfl sim.cy
  split
  · exact sim.backspace.drawGuarded inText.backspace 0x20
  split
  · exact sim.move (congrArg (fun x => (x + 4) / 4 * 4) sim.cx) sim.cy
  · have drawn : Sim d (Console.drawGuarded font s c) (Console.drawGuarded font b c) :=
      sim.drawGuarded inText c
    exact drawn.move (congrArg (· + 1) drawn.cx) drawn.cy

lemma wrapLine : Sim d (wrapLine s) (wrapLine b) := by
  have same : b.cx ≥ b.fb.cols ↔ s.cx ≥ s.fb.cols := by rw [sim.cx, sim.fb]
  unfold Console.wrapLine
  by_cases full : s.cx ≥ s.fb.cols
  · rw [if_pos full, if_pos (same.mpr full)]
    exact sim.move rfl (congrArg (· + 1) sim.cy)
  · rw [if_neg full, if_neg (mt same.mp full)]
    exact sim

lemma scrollLine : Sim d (scrollLine s) (scrollLine b) := by
  have same : b.cy ≥ b.fb.rows ↔ s.cy ≥ s.fb.rows := by rw [sim.cy, sim.fb]
  rw [scrollLine_of_alone sim.alone, Console.scrollLine]
  by_cases full : s.cy ≥ s.fb.rows
  · rw [if_pos full, if_pos (same.mpr full)]
    have scrolled := sim.guarded (scrollUp b.fb)
    rw [← sim.fb]
    exact scrolled.move scrolled.cx rfl
  · rw [if_neg full, if_neg (mt same.mp full)]
    exact sim

lemma consolePutchar (inText : InText s) (c : Byte) :
    Sim d (consolePutchar font s c) (consolePutchar font b c) :=
  (sim.putGlyph inText c).wrapLine.scrollLine

lemma consoleClear : Sim d (consoleClear s) (consoleClear b) := by
  rw [consoleClear_of_alone sim.alone, Console.consoleClear, ← sim.fb]
  exact ((sim.enter.paint fun p => zeroed p 0 (b.fb.height * b.fb.stride)).move rfl rfl).leave

end

/-! ### The packets of the mouse -/

lemma packetBytes (sim : Sim d s b) (bytes : Nat → Byte) :
    Sim d { s with mouse := { s.mouse with packet := bytes, packetIdx := 0 } } b :=
  { sim with
    packetIdx := rfl
    picture := by
      cases d with
      | zero => exact { (sim.picture : Shown s b.pixels) with }
      | succ d => exact { (sim.picture : Hidden s b.pixels) with } }

lemma takePacket (sim : Sim d s b) : Sim d (takePacket s) b := by
  simp only [Console.takePacket]
  split
  · exact sim
  split
  · exact sim
  have inX : 0 ≤ (applyPacket s.mouse).px ∧ (applyPacket s.mouse).px < s.fb.width :=
    sim.screenW ▸ applyPacket_px (sim.screenW ▸ Nat.lt_of_lt_of_le (by decide) s.fb.one_col)
  have inY : 0 ≤ (applyPacket s.mouse).py ∧ (applyPacket s.mouse).py < s.fb.height :=
    sim.screenH ▸ applyPacket_py (sim.screenH ▸ Nat.lt_of_lt_of_le (by decide) s.fb.one_row)
  cases d with
  | zero =>
    have shown : Shown s b.pixels := sim.picture
    have idle : (!consoleIsWriting { s with mouse := applyPacket s.mouse }) = true := by
      simp [consoleIsWriting, sim.depth]
    have erased : eraseCursor { s with mouse := applyPacket s.mouse } =
        { s with
          pixels := b.pixels
          mouse := { applyPacket s.mouse with cursorVisible := false } } :=
      eraseCursor_pixels sim.screenW shown.visible
        (congrArg₂ (cursorPlace s.fb s.mouse.screenW s.mouse.screenH) shown.at_x shown.at_y)
        shown.painted shown.saved
    rw [if_pos idle, erased]
    exact { sim with
      px := inX
      py := inY
      picture := drawCursor_shown sim.screenW }
  | succ d =>
    have writing : ¬(!consoleIsWriting { s with mouse := applyPacket s.mouse }) = true := by
      simp only [consoleIsWriting, sim.depth, Bool.not_eq_true', decide_eq_false_iff_not]
      omega
    rw [if_neg writing]
    exact { sim with
      px := inX
      py := inY
      picture := { (sim.picture : Hidden s b.pixels) with } }

lemma packet (sim : Sim d s b) (flags x y : Byte) : Sim d (step font s (.packet flags x y)) b := by
  rw [step_packet sim.packetIdx]
  exact (sim.packetBytes _).takePacket

/-! ### Initialisation -/

lemma inText (sim : Sim d s b) (inText : InText b) : InText s :=
  ⟨sim.cx ▸ sim.fb ▸ inText.cx, sim.cy ▸ sim.fb ▸ inText.cy⟩

end Sim

/-- The text position of a console without a mouse stays on the screen, and no guard is held. -/
structure NoMouse (s : State) : Prop where
  alone : s.mouseReady = false
  unguarded : s.cursorHiddenDepth = 0
  inText : InText s

lemma putGlyph_of_alone (alone : s.mouseReady = false) (c : Byte) :
    (putGlyph font s c).mouseReady = false ∧
      (putGlyph font s c).cursorHiddenDepth = s.cursorHiddenDepth := by
  have back : (backspace s).mouseReady = false ∧
      (backspace s).cursorHiddenDepth = s.cursorHiddenDepth := by
    unfold backspace
    split
    · exact ⟨alone, rfl⟩
    split <;> exact ⟨alone, rfl⟩
  simp only [putGlyph, drawGuarded_of_alone alone, drawGuarded_of_alone back.1]
  split
  · exact ⟨alone, rfl⟩
  split
  · exact ⟨alone, rfl⟩
  split
  · exact back
  split <;> exact ⟨alone, rfl⟩

lemma wrapLine_cx (s : State) : (wrapLine s).cx < (wrapLine s).fb.cols := by
  unfold wrapLine
  split
  · exact s.fb.cols_pos
  case isFalse inside => exact Nat.lt_of_not_le inside

lemma NoMouse.scrollLine (alone : s.mouseReady = false) (unguarded : s.cursorHiddenDepth = 0)
    (inLine : s.cx < s.fb.cols) : NoMouse (scrollLine s) := by
  rw [scrollLine_of_alone alone]
  split
  · exact ⟨alone, unguarded, inLine, Nat.sub_lt s.fb.rows_pos Nat.one_pos⟩
  case isFalse inside => exact ⟨alone, unguarded, inLine, Nat.lt_of_not_le inside⟩

lemma NoMouse.consolePutchar (bare : NoMouse s) (c : Byte) : NoMouse (consolePutchar font s c) := by
  have kept : (putGlyph font s c).mouseReady = false ∧
      (putGlyph font s c).cursorHiddenDepth = s.cursorHiddenDepth := putGlyph_of_alone bare.alone c
  have wrapped : (wrapLine (putGlyph font s c)).mouseReady = false ∧
      (wrapLine (putGlyph font s c)).cursorHiddenDepth = 0 := by
    unfold wrapLine
    split <;> exact ⟨kept.1, kept.2.trans bare.unguarded⟩
  exact NoMouse.scrollLine wrapped.1 wrapped.2 (wrapLine_cx _)

lemma NoMouse.consoleClear (alone : s.mouseReady = false) (unguarded : s.cursorHiddenDepth = 0) :
    NoMouse (consoleClear s) := by
  rw [consoleClear_of_alone alone]
  exact ⟨alone, unguarded, s.fb.cols_pos, s.fb.rows_pos⟩

def isConsole : Op → Bool
  | .packet _ _ _ => false
  | _ => true

lemma NoMouse.step (bare : NoMouse s) {op : Op} (console : isConsole op = true) :
    NoMouse (step font s op) := by
  cases op with
  | putchar c => exact bare.consolePutchar c
  | clear => exact .consoleClear bare.alone bare.unguarded
  | beginBatch =>
    change NoMouse (cursorGuardEnter s)
    rwa [cursorGuardEnter_of_alone bare.alone]
  | endBatch =>
    change NoMouse (cursorGuardLeave s)
    rwa [cursorGuardLeave_of_alone bare.alone]
  | packet flags x y => cases console

lemma NoMouse.run (bare : NoMouse s) (ops : List Op) :
    NoMouse (run font s (ops.filter isConsole)) := by
  induction ops generalizing s with
  | nil => exact bare
  | cons op ops ih =>
    by_cases console : isConsole op = true
    · rw [List.filter_cons_of_pos console]
      exact ih (bare.step console)
    · rw [List.filter_cons_of_neg console]
      exact ih bare

namespace Sim
variable {d : Nat}

lemma eraseCursor_pixels (sim : Sim d s b) : (eraseCursor s).pixels = b.pixels := by
  cases d with
  | zero => rw [Shown.eraseCursor_eq sim.picture sim.screenW]
  | succ d =>
    have away : Hidden s b.pixels := sim.picture
    rw [eraseCursor, if_pos (by simp [away.invisible]), away.clean]

end Sim

end MicroOs.Console
