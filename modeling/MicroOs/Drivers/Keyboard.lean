import MicroOs.Lib.Transition

/-!
# The keyboard driver (`drivers/keyboard.c`)

The interrupt handler turns scan codes into keys and puts them into a ring of 256 cells; a task takes
them out. The handler runs as a whole between any two accesses of the task to the driver's variables,
so each of these accesses is a step of its own.
-/

namespace MicroOs.Drivers
open Lib

/-- `KBD_BUFFER_SIZE`. -/
def kbdBufferSize : Nat := 256

/-- The variables of the driver. -/
structure Keyboard where
  buffer : Nat → BitVec 16
  read : BitVec 32
  write : BitVec 32
  shiftHeld : Bool
  capsOn : Bool
  ctrlHeld : Bool
  altHeld : Bool
  numlockOn : Bool
  /-- A code `0xE0` came before. -/
  extended : Bool

namespace Keyboard

/-- `keyboard_init` (`keyboard.c:235-256`). -/
def init (buffer : Nat → BitVec 16) : Keyboard where
  buffer := buffer
  read := 0
  write := 0
  shiftHeld := false
  capsOn := false
  ctrlHeld := false
  altHeld := false
  numlockOn := true
  extended := false

/-- `(kbd_write + 1) % KBD_BUFFER_SIZE`. -/
def nextIndex (i : BitVec 32) : BitVec 32 := (i + 1) % BitVec.ofNat 32 kbdBufferSize

/-- `kbd_push` (`keyboard.c:80-88`). -/
def push (k : Keyboard) (c : BitVec 16) : Keyboard :=
  if nextIndex k.write = k.read then k
  else { k with buffer := Function.update k.buffer k.write.toNat c, write := nextIndex k.write }

/-- `scancode_map` (`keyboard.c:35-52`). -/
def scancodeMap : List (BitVec 8) :=
  [0, 27, 0x31, 0x32, 0x33, 0x34, 0x35, 0x36,
   0x37, 0x38, 0x39, 0x30, 0x2D, 0x3D, 0x08, 0x09,
   0x71, 0x77, 0x65, 0x72, 0x74, 0x79, 0x75, 0x69,
   0x6F, 0x70, 0x5B, 0x5D, 0x0A, 0, 0x61, 0x73,
   0x64, 0x66, 0x67, 0x68, 0x6A, 0x6B, 0x6C, 0x3B,
   0x27, 0x60, 0, 0x5C, 0x7A, 0x78, 0x63, 0x76,
   0x62, 0x6E, 0x6D, 0x2C, 0x2E, 0x2F, 0, 0x2A,
   0, 0x20, 0, 0, 0, 0, 0, 0,
   0, 0, 0, 0, 0, 0, 0, 0x37,
   0x38, 0x39, 0x2D, 0x34, 0x35, 0x36, 0x2B, 0x31,
   0x32, 0x33, 0x30, 0x2E]

/-- `scancode_map_shift` (`keyboard.c:55-67`). -/
def scancodeMapShift : List (BitVec 8) :=
  [0, 27, 0x21, 0x40, 0x23, 0x24, 0x25, 0x5E,
   0x26, 0x2A, 0x28, 0x29, 0x5F, 0x2B, 0x08, 0x09,
   0x51, 0x57, 0x45, 0x52, 0x54, 0x59, 0x55, 0x49,
   0x4F, 0x50, 0x7B, 0x7D, 0x0A, 0, 0x41, 0x53,
   0x44, 0x46, 0x47, 0x48, 0x4A, 0x4B, 0x4C, 0x3A,
   0x22, 0x7E, 0, 0x7C, 0x5A, 0x58, 0x43, 0x56,
   0x42, 0x4E, 0x4D, 0x3C, 0x3E, 0x3F, 0, 0x2A,
   0, 0x20, 0, 0, 0, 0, 0, 0,
   0, 0, 0, 0, 0, 0, 0, 0x37,
   0x38, 0x39, 0x2D, 0x34, 0x35, 0x36, 0x2B, 0x31,
   0x32, 0x33, 0x30, 0x2E]

/-- `fkey_map` (`keyboard.c:70-78`). -/
def fkeyMap (sc : BitVec 8) : BitVec 16 :=
  if 0x3B ≤ sc.toNat ∧ sc.toNat ≤ 0x44 then 0x8A + (sc.setWidth 16 - 0x3B)
  else if sc = 0x57 then 0x94
  else if sc = 0x58 then 0x95
  else 0

/-- `c >= 'a' && c <= 'z'`. -/
def isLower (c : BitVec 8) : Bool := 0x61 ≤ c.toNat ∧ c.toNat ≤ 0x7A

/-- `c >= 'A' && c <= 'Z'`. -/
def isUpper (c : BitVec 8) : Bool := 0x41 ≤ c.toNat ∧ c.toNat ≤ 0x5A

/-- `is_letter` (`keyboard.c:90-94`). -/
def isLetter (c : BitVec 8) : Bool := isLower c || isUpper c

/-- `to_upper` (`keyboard.c:96-100`). -/
def toUpper (c : BitVec 8) : BitVec 8 := if isLower c then c - 32 else c

/-- `to_lower` (`keyboard.c:102-106`). -/
def toLower (c : BitVec 8) : BitVec 8 := if isUpper c then c + 32 else c

/-- The key of an extended code that is pressed (`keyboard.c:137-148`). -/
def extendedKey (code : BitVec 8) : Option (BitVec 16) :=
  if code = 0x48 then some 0x80
  else if code = 0x50 then some 0x81
  else if code = 0x4B then some 0x82
  else if code = 0x4D then some 0x83
  else if code = 0x47 then some 0x84
  else if code = 0x4F then some 0x85
  else if code = 0x49 then some 0x88
  else if code = 0x51 then some 0x89
  else if code = 0x52 then some 0x86
  else if code = 0x53 then some 0x87
  else if code = 0x1C then some 0x0A
  else if code = 0x35 then some 0x2F
  else none

/-- The key of the numeric pad without NumLock (`keyboard.c:186-200`). -/
def numpadKey (code : BitVec 8) : Option (BitVec 16) :=
  if code = 0x47 then some 0x84
  else if code = 0x48 then some 0x80
  else if code = 0x49 then some 0x88
  else if code = 0x4B then some 0x82
  else if code = 0x4D then some 0x83
  else if code = 0x4F then some 0x85
  else if code = 0x50 then some 0x81
  else if code = 0x51 then some 0x89
  else if code = 0x52 then some 0x86
  else if code = 0x53 then some 0x87
  else none

/-- The key of a character code (`keyboard.c:203-229`). -/
def charKey (k : Keyboard) (code : BitVec 8) : Option (BitVec 16) :=
  let c := (if k.shiftHeld then scancodeMapShift else scancodeMap).getD code.toNat 0
  if c = 0 then none
  else
    let c := if k.capsOn && isLetter c then if k.shiftHeld then toLower c else toUpper c else c
    if k.ctrlHeld && isLower c then some (c.setWidth 16 - 0x61 + 1)
    else if k.ctrlHeld && isUpper c then some (c.setWidth 16 - 0x41 + 1)
    else some (c.setWidth 16)

/-- A code after `0xE0` (`keyboard.c:122-152`). -/
def handleExtended (k : Keyboard) (release : Bool) (code : BitVec 8) : Keyboard :=
  let k := { k with extended := false }
  if release then
    let k := if code = 0x1D then { k with ctrlHeld := false } else k
    if code = 0x38 then { k with altHeld := false } else k
  else if code = 0x1D then { k with ctrlHeld := true }
  else if code = 0x38 then { k with altHeld := true }
  else match extendedKey code with
    | some key => k.push key
    | none => k

/-- Any other code (`keyboard.c:154-229`). -/
def handlePlain (k : Keyboard) (release : Bool) (code : BitVec 8) : Keyboard :=
  if code = 0x2A ∨ code = 0x36 then { k with shiftHeld := !release }
  else if code = 0x1D then { k with ctrlHeld := !release }
  else if code = 0x38 then { k with altHeld := !release }
  else if release then k
  else if code = 0x3A then { k with capsOn := !k.capsOn }
  else if code = 0x45 then { k with numlockOn := !k.numlockOn }
  else if fkeyMap code ≠ 0 then k.push (fkeyMap code)
  else
    let pad := if 0x47 ≤ code.toNat ∧ code.toNat ≤ 0x53 ∧ !k.numlockOn then numpadKey code else none
    match pad.orElse fun _ => k.charKey code with
    | some key => k.push key
    | none => k

/-- `keyboard_handler` (`keyboard.c:108-233`). -/
def handler (k : Keyboard) (sc : BitVec 8) : Keyboard :=
  if sc = 0xE0 then { k with extended := true }
  else
    let release := sc &&& 0x80 ≠ 0
    let code := sc &&& 0x7F
    if k.extended then k.handleExtended release code else k.handlePlain release code

/-- `keyboard_has_key` (`keyboard.c:258-262`). -/
def hasKey (k : Keyboard) : Bool := k.read ≠ k.write

end Keyboard

/-- Where the task is: in the loop of `keyboard_getchar`, before its load of the key, before its store
of `kbd_read` with the key in hand, or before the store of `keyboard_flush` with the value of
`kbd_write` in hand. -/
inductive ReaderPc where
  | idle
  | waiting
  | fetch
  | advance (c : BitVec 16)
  | flush (w : BitVec 32)
  deriving DecidableEq

inductive KeyboardEvent where
  | push (c : BitVec 16)
  | hasKey
  | getchar
  | test
  | fetch
  | advance
  | flushLoad
  | flushStore
  deriving DecidableEq

/-- The driver with its reader. `accepted` are the pushes accepted, and `returned` the keys
returned, since the last `keyboard_flush` read `kbd_write`; while a flush is between its two
accesses, `since` are the pushes after the first. -/
structure KeyboardSys where
  kbd : Keyboard
  pc : ReaderPc
  accepted : List (BitVec 16)
  returned : List (BitVec 16)
  since : List (BitVec 16)

namespace KeyboardSys

def start (kbd : Keyboard) : KeyboardSys := ⟨kbd, .idle, [], [], []⟩

/-- The reader makes one call after another; a push comes at any time. -/
def Allowed (s : KeyboardSys) : KeyboardEvent → Prop
  | .push _ => True
  | .hasKey | .getchar | .flushLoad => s.pc = .idle
  | .test => s.pc = .waiting
  | .fetch => s.pc = .fetch
  | .advance => ∃ c, s.pc = .advance c
  | .flushStore => ∃ w, s.pc = .flush w

/-- `kbd_push` changes `kbd_write` just if it accepts the key. -/
def accepts (s : KeyboardSys) (c : BitVec 16) : Bool := (s.kbd.push c).write ≠ s.kbd.write

def next (s : KeyboardSys) : KeyboardEvent → KeyboardSys
  | .push c =>
    let kept := if s.accepts c then [c] else []
    { s with kbd := s.kbd.push c, accepted := s.accepted ++ kept, since := s.since ++ kept }
  | .hasKey => s
  | .getchar => { s with pc := .waiting }
  | .test => { s with pc := if s.kbd.read = s.kbd.write then .waiting else .fetch }
  | .fetch => { s with pc := .advance (s.kbd.buffer s.kbd.read.toNat) }
  | .advance =>
    match s.pc with
    | .advance c =>
      { s with
        kbd := { s.kbd with read := Keyboard.nextIndex s.kbd.read }
        pc := .idle
        returned := s.returned ++ [c] }
    | _ => s
  | .flushLoad => { s with pc := .flush s.kbd.write, since := [] }
  | .flushStore =>
    match s.pc with
    | .flush w =>
      { s with kbd := { s.kbd with read := w }, pc := .idle, accepted := s.since, returned := [] }
    | _ => s

end KeyboardSys

/-- One step of the handler or of the reader. -/
def KeyboardStep (s : KeyboardSys) (e : KeyboardEvent) (t : KeyboardSys) : Prop :=
  s.Allowed e ∧ t = s.next e

end MicroOs.Drivers
