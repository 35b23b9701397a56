import MicroOs.Klib.String
import MicroOs.Lib.Sprite

/-!
# The framebuffer console and the mouse (`console.c`, `drivers/mouse.c`)

The mouse driver draws its cursor over the characters of the console and keeps the pixels below it.
The two share the framebuffer and call each other, so their variables are one state. The pixels are
the words of the framebuffer: it is reached only through word accesses and through copies and clears
of whole rows. The font (`font8x16`) is a parameter; each function runs as a whole.
-/

namespace MicroOs.Console
open Lib Klib

abbrev Byte := BitVec 8

abbrev Pixel := BitVec 32

/-- The rows of a character in the font. -/
abbrev Font := Byte → Nat → Byte

/-- `Framebuffer` (`boot/bootinfo.h`) with at least one character cell, rows of whole words that
hold their pixels, and a size that fits the code's 32-bit products. -/
structure Framebuffer where
  width : Nat
  height : Nat
  /-- The bytes of a row. -/
  pitch : Nat
  one_col : 8 ≤ width
  one_row : 16 ≤ height
  words : pitch % 4 = 0
  holds : 4 * width ≤ pitch
  fits : height * pitch < 2 ^ 32

namespace Framebuffer

/-- `g_stride`, the words of a row. -/
def stride (fb : Framebuffer) : Nat := fb.pitch / 4

/-- `g_cols`. -/
def cols (fb : Framebuffer) : Nat := fb.width / 8

/-- `g_rows`. -/
def rows (fb : Framebuffer) : Nat := fb.height / 16

/-- The word of the pixel `(x, y)`. -/
def word (fb : Framebuffer) (x y : Nat) : Nat := y * fb.stride + x

end Framebuffer

/-- The variables of the mouse driver. -/
structure Mouse where
  px : Int
  py : Int
  btnLeft : Bool
  btnRight : Bool
  btnMiddle : Bool
  lastDx : BitVec 8
  lastDy : BitVec 8
  screenW : Nat
  screenH : Nat
  packet : Nat → Byte
  packetIdx : Nat
  /-- By row and column of the cursor. -/
  savedUnder : Nat × Nat → Pixel
  savedCx : Int
  savedCy : Int
  cursorVisible : Bool

/-- The variables of the console, with those of the mouse driver. -/
structure State where
  fb : Framebuffer
  pixels : Nat → Pixel
  cx : Nat
  cy : Nat
  mouseReady : Bool
  cursorHiddenDepth : Int
  mouse : Mouse

/-- `FG_COLOR`. -/
def fgColor : Pixel := 0x00CCCCCC

/-- `BG_COLOR`. -/
def bgColor : Pixel := 0x00000000

/-- `colors[(bits >> (7 - x)) & 1]` in row `y` of the glyph. -/
def glyphColor (font : Font) (c : Byte) (cell : Nat × Nat) : Pixel :=
  if (font c cell.1).getLsbD (7 - cell.2) then fgColor else bgColor

/-- Where `draw_char` writes the pixel `cell` of the character at `(col, row)`. -/
def charPlace (fb : Framebuffer) (col row : Nat) (cell : Nat × Nat) : Option Nat :=
  some (fb.word (col * 8 + cell.2) (row * 16 + cell.1))

/-- `draw_char` (`console.c:37-59`). -/
def drawChar (font : Font) (fb : Framebuffer) (col row : Nat) (c : Byte) (pixels : Nat → Pixel) :
    Nat → Pixel :=
  paintCells (charPlace fb col row) (fun cell => some (glyphColor font c cell)) (gridCells 16 8)
    pixels

/-- `memset` with zero of `n` words from `d` on. -/
def zeroed (pixels : Nat → Pixel) (d n : Nat) : Nat → Pixel := copied pixels d (fun _ => 0) n

/-- `scroll_up` (`console.c:63-78`); the ascending `memcpy` overlaps its source. -/
def scrollUp (fb : Framebuffer) (pixels : Nat → Pixel) : Nat → Pixel :=
  let copyWords := (fb.height - 16) * fb.stride
  zeroed (copyUp pixels 0 (16 * fb.stride) copyWords) copyWords (16 * fb.stride)

/-- `CURSOR_W`. -/
def cursorW : Nat := 8

/-- `CURSOR_H`. -/
def cursorH : Nat := 12

/-- `cursor_bitmap` (`mouse.c:43-56`). -/
def cursorBitmap : List (List Nat) :=
  [[2, 0, 0, 0, 0, 0, 0, 0],
   [2, 2, 0, 0, 0, 0, 0, 0],
   [2, 1, 2, 0, 0, 0, 0, 0],
   [2, 1, 1, 2, 0, 0, 0, 0],
   [2, 1, 1, 1, 2, 0, 0, 0],
   [2, 1, 1, 1, 1, 2, 0, 0],
   [2, 1, 1, 1, 1, 1, 2, 0],
   [2, 1, 1, 1, 1, 1, 1, 2],
   [2, 1, 1, 1, 1, 2, 2, 0],
   [2, 1, 2, 2, 1, 2, 0, 0],
   [2, 2, 0, 0, 2, 1, 2, 0],
   [0, 0, 0, 0, 0, 2, 0, 0]]

/-- `cursor_bitmap[y][x]`. -/
def cursorBit (cell : Nat × Nat) : Nat := (cursorBitmap.getD cell.1 []).getD cell.2 0

/-- What the cursor shows at a cell: white, black, or what is below. -/
def cursorColor (cell : Nat × Nat) : Option Pixel :=
  if cursorBit cell = 1 then some 0x00FFFFFF
  else if cursorBit cell = 2 then some 0x00000000
  else none

/-- The word of a cell of the cursor at `(cx, cy)`, if the cell is on the screen. -/
def cursorPlace (fb : Framebuffer) (screenW screenH : Nat) (cx cy : Int) (cell : Nat × Nat) :
    Option Nat :=
  let px := cx + cell.2
  let py := cy + cell.1
  if px < 0 ∨ px ≥ screenW ∨ py < 0 ∨ py ≥ screenH then none
  else some (fb.word px.toNat py.toNat)

/-- `draw_cursor` (`mouse.c:67-94`). -/
def drawCursor (s : State) (cx cy : Int) : State :=
  let place := cursorPlace s.fb s.mouse.screenW s.mouse.screenH cx cy
  let drawn :=
    overlay place cursorColor 0 (gridCells cursorH cursorW) (s.pixels, s.mouse.savedUnder)
  { s with
    pixels := drawn.1
    mouse := { s.mouse with
      savedUnder := drawn.2, savedCx := cx, savedCy := cy, cursorVisible := true } }

/-- What `erase_cursor` writes at a cell. -/
def erasedCell (saved : Nat × Nat → Pixel) (cell : Nat × Nat) : Option Pixel :=
  if cursorBit cell ≠ 0 then some (saved cell) else none

/-- `erase_cursor` (`mouse.c:96-116`). -/
def eraseCursor (s : State) : State :=
  if !s.mouse.cursorVisible then s
  else
    let place := cursorPlace s.fb s.mouse.screenW s.mouse.screenH s.mouse.savedCx s.mouse.savedCy
    { s with
      pixels :=
        paintCells place (erasedCell s.mouse.savedUnder) (gridCells cursorH cursorW) s.pixels
      mouse := { s.mouse with cursorVisible := false } }

/-- `mouse_hide_cursor` (`mouse.c:297-303`). -/
def mouseHideCursor (s : State) : State := eraseCursor s

/-- `mouse_show_cursor` (`mouse.c:305-312`). -/
def mouseShowCursor (s : State) : State :=
  if !s.mouse.cursorVisible then drawCursor s s.mouse.px s.mouse.py else s

/-- `cursor_guard_enter` (`console.c:99-107`). -/
def cursorGuardEnter (s : State) : State :=
  if !s.mouseReady then s
  else
    let deeper := { s with cursorHiddenDepth := s.cursorHiddenDepth + 1 }
    if s.cursorHiddenDepth = 0 then mouseHideCursor deeper else deeper

/-- `cursor_guard_leave` (`console.c:109-117`). -/
def cursorGuardLeave (s : State) : State :=
  if !s.mouseReady then s
  else
    let left := { s with cursorHiddenDepth := s.cursorHiddenDepth - 1 }
    if left.cursorHiddenDepth = 0 then mouseShowCursor left else left

/-- `char_overlaps_cursor` (`console.c:123-134`). -/
def charOverlapsCursor (s : State) (col row : Nat) : Bool :=
  if !s.mouseReady then false
  else
    let cx := s.mouse.px
    let cy := s.mouse.py
    let x0 : Int := col * 8
    let y0 : Int := row * 16
    !(x0 + 8 ≤ cx || cx + 8 ≤ x0 || y0 + 16 ≤ cy || cy + 12 ≤ y0)

/-- `console_clear` (`console.c:136-144`). -/
def consoleClear (s : State) : State :=
  let entered := cursorGuardEnter s
  cursorGuardLeave
    { entered with
      pixels := zeroed entered.pixels 0 (s.fb.height * s.fb.stride), cx := 0, cy := 0 }

/-- The character at the text position, with the cursor taken away if they overlap
(`console.c:162-165` and `169-172`). -/
def drawGuarded (font : Font) (s : State) (c : Byte) : State :=
  let needHide := charOverlapsCursor s s.cx s.cy
  let entered := if needHide then cursorGuardEnter s else s
  let drawn := { entered with pixels := drawChar font s.fb s.cx s.cy c entered.pixels }
  if needHide then cursorGuardLeave drawn else drawn

/-- The text position one back, which stays at the first cell. -/
def backspace (s : State) : State :=
  if s.cx > 0 then { s with cx := s.cx - 1 }
  else if s.cy > 0 then { s with cy := s.cy - 1, cx := s.fb.cols - 1 }
  else s

/-- The branches of `console_putchar` on the character (`console.c:151-174`). -/
def putGlyph (font : Font) (s : State) (c : Byte) : State :=
  if c = 0x0A then { s with cx := 0, cy := s.cy + 1 }
  else if c = 0x0D then { s with cx := 0 }
  else if c = 0x08 then drawGuarded font (backspace s) 0x20
  else if c = 0x09 then { s with cx := (s.cx + 4) / 4 * 4 }
  else
    let drawn := drawGuarded font s c
    { drawn with cx := drawn.cx + 1 }

/-- `if (g_cx >= g_cols)` (`console.c:176-179`). -/
def wrapLine (s : State) : State :=
  if s.cx ≥ s.fb.cols then { s with cx := 0, cy := s.cy + 1 } else s

/-- `if (g_cy >= g_rows)` (`console.c:181-187`). -/
def scrollLine (s : State) : State :=
  if s.cy ≥ s.fb.rows then
    let entered := cursorGuardEnter s
    let left := cursorGuardLeave { entered with pixels := scrollUp s.fb entered.pixels }
    { left with cy := s.fb.rows - 1 }
  else s

/-- `console_putchar` (`console.c:146-189`). -/
def consolePutchar (font : Font) (s : State) (c : Byte) : State :=
  scrollLine (wrapLine (putGlyph font s c))

/-- `console_is_writing` (`console.c:200`). -/
def consoleIsWriting (s : State) : Bool := s.cursorHiddenDepth > 0

/-- `console_begin_batch` (`console.c:201`). -/
def consoleBeginBatch (s : State) : State := cursorGuardEnter s

/-- `console_end_batch` (`console.c:202`). -/
def consoleEndBatch (s : State) : State := cursorGuardLeave s

/-- `(int16_t)packet[i] - (flag ? 256 : 0)`. -/
def delta (data : Byte) (sign : Bool) : Int := (data.toNat : Int) - (if sign then 256 else 0)

/-- The two comparisons that keep a coordinate on the screen. -/
def clamp (p : Int) (size : Nat) : Int :=
  let low := if p < 0 then 0 else p
  if low ≥ size then (size : Int) - 1 else low

/-- The buttons, deltas and position from a valid packet (`mouse.c:189-207`); positive is up for the
mouse and down on the screen. -/
def applyPacket (m : Mouse) : Mouse :=
  let flags := m.packet 0
  let dx := delta (m.packet 1) (flags &&& 0x10 ≠ 0)
  let dy := delta (m.packet 2) (flags &&& 0x20 ≠ 0)
  { m with
    btnLeft := flags &&& 0x01 ≠ 0
    btnRight := flags &&& 0x02 ≠ 0
    btnMiddle := flags &&& 0x04 ≠ 0
    lastDx := BitVec.ofInt 8 dx
    lastDy := BitVec.ofInt 8 dy
    px := clamp (m.px + dx) m.screenW
    py := clamp (m.py - dy) m.screenH }

/-- A full packet (`mouse.c:177-214`). -/
def takePacket (s : State) : State :=
  let flags := s.mouse.packet 0
  if flags &&& 0xC0 ≠ 0 then s
  else if flags &&& 0x08 = 0 then s
  else
    let moved := { s with mouse := applyPacket s.mouse }
    if !consoleIsWriting moved then drawCursor (eraseCursor moved) moved.mouse.px moved.mouse.py
    else moved

/-- `mouse_handler` (`mouse.c:158-219`) on the bytes it reads from the two ports. -/
def mouseHandler (s : State) (status data : Byte) : State :=
  if status &&& 0x20 = 0 then s
  else
    let idx := s.mouse.packetIdx
    let stored :=
      { s with
        mouse := { s.mouse with
          packet := Function.update s.mouse.packet idx data, packetIdx := idx + 1 } }
    if idx + 1 < 3 then stored
    else takePacket { stored with mouse := { stored.mouse with packetIdx := 0 } }

/-- An operation, taken as a whole. -/
inductive Op where
  | putchar (c : Byte)
  | clear
  | beginBatch
  | endBatch
  /-- The three bytes of a packet, each announced by its own interrupt. -/
  | packet (flags x y : Byte)
deriving DecidableEq

/-- The status byte with the bits for a byte of the mouse. -/
def mouseStatus : Byte := 0x21

/-- One operation. -/
def step (font : Font) (s : State) : Op → State
  | .putchar c => consolePutchar font s c
  | .clear => consoleClear s
  | .beginBatch => consoleBeginBatch s
  | .endBatch => consoleEndBatch s
  | .packet flags x y =>
    mouseHandler (mouseHandler (mouseHandler s mouseStatus flags) mouseStatus x) mouseStatus y

/-- The operations in order. -/
def run (font : Font) (s : State) (ops : List Op) : State := ops.foldl (step font) s

end MicroOs.Console
