import MicroOs.Klib.String
import MicroOs.Shell.Commands

/-!
# The shell's line editor (`main.c`)

`shell_task` edits `line`, an array of 128 characters on its stack. `LineBuf` is the stack from
`line` on, so that a write behind the array is a write like any other; it records the indices that
have been written. The console is left out, and of `shell_execute` all but what it does to `line`.
-/

namespace MicroOs.Shell
open Fs Lib Klib

/-- `sizeof(line)`. -/
def sizeofLine : Nat := 128

/-- The memory from `line` on, and the indices that have been written. -/
structure LineBuf where
  bytes : Nat → Byte
  written : List Nat

/-- `line[i] = c`. -/
def LineBuf.put (line : LineBuf) (i : Nat) (c : Byte) : LineBuf :=
  ⟨Function.update line.bytes i c, i :: line.written⟩

/-- `memmove(&line[dst], &line[src], n)`. -/
def LineBuf.move (line : LineBuf) (dst src n : Nat) : LineBuf :=
  ⟨memmove line.bytes dst src n, List.range' dst n ++ line.written⟩

/-- The variables of `shell_task`, with `last_was_tab`. -/
structure Editor where
  line : LineBuf
  pos : Nat
  len : Nat
  lastWasTab : Bool

namespace Editor

/-- The state in which the loop of `shell_task` begins. -/
def start (stack : Nat → Byte) : Editor := ⟨⟨stack, []⟩, 0, 0, false⟩

/-- Inserts a character at the cursor (`main.c:1275-1281`, `774-778`, `790-794` and `831-835`). -/
def insert (e : Editor) (c : Byte) : Editor :=
  let line := if e.pos < e.len then e.line.move (e.pos + 1) e.pos (e.len - e.pos) else e.line
  { e with line := line.put e.pos c, pos := e.pos + 1, len := e.len + 1 }

/-- `line[len] = '\0'`. -/
def terminate (e : Editor) : Editor := { e with line := e.line.put e.len 0 }

/-- The loops that insert the rest of a name (`main.c:772-779` and `830-836`). -/
def insertWhile (maxlen : Nat) : List Byte → Editor → Editor
  | [], e => e
  | c :: rest, e => if e.pos < maxlen - 2 then insertWhile maxlen rest (e.insert c) else e

end Editor

/-- What the completion looks at: the command names, and what `vfs_readdir` with room for 32 entries
finds in a directory. All names are C strings. -/
structure TabEnv where
  commands : List Path
  cwd : Path
  readdir : Path → Option (List VfsStat)
  commands_zero : ∀ name ∈ commands, 0 ∉ name
  entries_zero : ∀ dir entries, readdir dir = some entries → ∀ e ∈ entries, 0 ∉ e.name

/-- An entry of `matches` and `types`; a command has type 0. -/
structure Candidate where
  name : Path
  type : Option VNodeType
  deriving DecidableEq

/-- `common_prefix_len` (`main.c:605-623`). -/
def commonPrefixLen (names : List Path) (start : Nat) : Nat :=
  match names with
  | [] => start
  | first :: rest =>
    rest.foldl (fun cp name =>
      let cp := if name.length < cp then name.length else cp
      ((List.range' start (cp - start)).find? fun j => name.getD j 0 ≠ first.getD j 0).getD cp)
      first.length

/-- The start of the word before `pos` (`main.c:679-681`). -/
def tokStart (line : Nat → Byte) : Nat → Nat
  | 0 => 0
  | n + 1 => if line n ≠ space then tokStart line n else n + 1

/-- The index of the last slash of a word (`main.c:713-717`, `765-767` and `820-822`). -/
def lastSlash (typed : Path) : Option Nat :=
  (List.range typed.length).foldl (fun last i => if typed.getD i 0 = slash then some i else last) none

/-- The commands that match (`main.c:699-708`). -/
def commandMatches (env : TabEnv) (typed : Path) : List Candidate :=
  ((env.commands.filter fun name => typed.length = 0 ∨ strncmp name (cString typed) typed.length = 0).take
    64).map fun name => ⟨name, none⟩

/-- `raw_dir`, or `.`, and `name_prefix` (`main.c:711-733`). -/
def splitTyped (typed : Path) : Path × Path :=
  match lastSlash typed with
  | some k => (cString (typed.take (k + 1)), cString (typed.drop (k + 1)))
  | none => (ascii ".", cString typed)

/-- The directory entries that match (`main.c:735-747`). -/
def entryMatches (env : TabEnv) (typed : Path) : List Candidate :=
  let namePart := (splitTyped typed).2
  let entries := (env.readdir (resolveAbs env.cwd (splitTyped typed).1 256)).getD []
  ((entries.filter fun e => namePart.length = 0 ∨ strncmp e.name namePart namePart.length = 0).take
    64).map fun e => ⟨e.name, some e.type⟩

/-- How much of a name has been typed (`main.c:760-769` and `816-824`). -/
def alreadyTyped (isCommand : Bool) (typed : Path) : Nat :=
  if isCommand then typed.length
  else match lastSlash typed with
    | some k => typed.length - k - 1
    | none => typed.length

/-- The character behind a name that is complete (`main.c:783-788`). -/
def Candidate.trail (m : Candidate) : Byte :=
  if m.type = some .directory then slash else space

/-- `shell_tab_complete` (`main.c:671-857`). -/
def shellTabComplete (env : TabEnv) (maxlen : Nat) (e : Editor) : Editor :=
  let e := e.terminate
  let start := tokStart e.line.bytes e.pos
  let typed := window e.line.bytes start (e.pos - start)
  let isCommand := start = 0
  if typed.length = 0 ∧ !e.lastWasTab then { e with lastWasTab := true }
  else
    let found := if isCommand then commandMatches env typed else entryMatches env typed
    let already := alreadyTyped isCommand typed
    match found with
    | [] => { e with lastWasTab := true }
    | [m] =>
      let e := e.insertWhile maxlen (m.name.drop already)
      let e := if e.pos < maxlen - 2 then e.insert m.trail else e
      { e.terminate with lastWasTab := false }
    | m :: _ =>
      let cp := commonPrefixLen (found.map Candidate.name) already
      if already < cp then
        { (e.insertWhile maxlen ((m.name.take cp).drop already)).terminate with lastWasTab := true }
      else { e with lastWasTab := !e.lastWasTab }

/-- The branches of `shell_task`. -/
inductive Key where
  | enter
  | backspace
  | tab
  | left
  | right
  | home
  | toEnd
  | delete
  | clear
  | ignored
  | char (c : Byte)
  deriving DecidableEq, Repr

/-- The tests of `shell_task`, in their order (`main.c:1195-1273`). -/
def Key.ofCode (key : BitVec 16) : Key :=
  if key = 0x0A then .enter
  else if key = 0x08 then .backspace
  else if key = 0x09 then .tab
  else if key = 0x82 then .left
  else if key = 0x83 then .right
  else if key = 0x84 then .home
  else if key = 0x85 then .toEnd
  else if key = 0x87 then .delete
  else if key = 0x0C then .clear
  else if 0x80 ≤ key.toNat then .ignored
  else if 0x01 ≤ key.toNat ∧ key.toNat ≤ 0x1F then .ignored
  else .char (key.setWidth 8)

namespace Editor

/-- What `strip_trailing` writes (`main.c:861-869`), for a line of length `len`. -/
def strip (e : Editor) : Editor :=
  { e with line := e.line.put (stripTrailing (cString (window e.line.bytes 0 e.len))).length 0 }

/-- One pass of the loop of `shell_task` (`main.c:1192-1291`). -/
def key (env : TabEnv) (e : Editor) : Key → Editor
  | .enter =>
    let e := e.terminate
    let e := if e.len = 0 then e else e.strip
    { e with pos := 0, len := 0, lastWasTab := false }
  | .backspace =>
    if 0 < e.pos then
      { line := e.line.move (e.pos - 1) e.pos (e.len - e.pos)
        pos := e.pos - 1, len := e.len - 1, lastWasTab := false }
    else { e with lastWasTab := false }
  | .tab => shellTabComplete env sizeofLine e
  | .left => { e with pos := e.pos - 1, lastWasTab := false }
  | .right => { e with pos := if e.pos < e.len then e.pos + 1 else e.pos, lastWasTab := false }
  | .home => { e with pos := 0, lastWasTab := false }
  | .toEnd => { e with pos := max e.pos e.len, lastWasTab := false }
  | .delete =>
    if e.pos < e.len then
      { e with
        line := e.line.move e.pos (e.pos + 1) (e.len - e.pos - 1)
        len := e.len - 1, lastWasTab := false }
    else { e with lastWasTab := false }
  | .clear => { e with lastWasTab := false }
  | .ignored => e
  | .char c => if e.len < sizeofLine - 1 then { e.insert c with lastWasTab := false } else e

end Editor

end MicroOs.Shell
