import MicroOs.Fs.Vfs

/-!
# The shell's commands on files (`main.c`)

A command line is the list of its bytes before the terminating zero, and so is what a command prints.
A loop that reads a file until `vfs_read` returns nothing is bounded by `fuel`; a command whose loop
has not ended by then has no result. What the rest of the kernel decides is in `ShellEnv`.
-/

namespace MicroOs.Shell
open Fs Lib

/-- What is printed. -/
abbrev Text := List Byte

/-- The bytes of a string constant. -/
def ascii (s : String) : Text := s.toList.map fun c => BitVec.ofNat 8 c.toNat

def space : Byte := 0x20#8
def tab : Byte := 0x09#8
def newline : Byte := 0x0A#8

/-- A number in a format such as `%d` and `%lu`. -/
def decimal (n : Nat) : Text := ascii (toString n)

/-- What `%s` prints of a buffer. -/
def cString (buf : List Byte) : Text := buf.takeWhile (· ≠ 0)

/-- `tmp` of `resolve_abs` (`main.c:142-157`): the input, behind `cwd` if it is relative. -/
def joinCwd (cwd input : Path) : Path :=
  if input.head? = some slash then input.take 255
  else
    let tmp := cwd.take 255
    let tmp :=
      if 0 < tmp.length ∧ tmp.getLast? ≠ some slash ∧ tmp.length < 254 then tmp ++ [slash] else tmp
    tmp ++ input.take (255 - tmp.length)

/-- One component (`main.c:173-180`). -/
def pushComponent (components : List Path) (c : Path) : List Path :=
  if c = ascii "." then components
  else if c = ascii ".." then components.dropLast
  else if components.length < 64 then components ++ [c]
  else components

/-- One pass of the loop that puts the components together (`main.c:186-198`). -/
def appendComponent (outlen : Nat) (out : Path) (c : Path) (first : Bool) : Path :=
  let out := if !first ∧ out.length < outlen - 1 then out ++ [slash] else out
  out ++ c.take (outlen - out.length - 1)

/-- `out` of `resolve_abs` (`main.c:183-198`). -/
def joinComponents (outlen : Nat) : List Path → Path
  | [] => [slash]
  | c :: cs =>
    cs.foldl (fun out c => appendComponent outlen out c false) (appendComponent outlen [slash] c true)

/-- `resolve_abs` (`main.c:139-199`). -/
def resolveAbs (cwd input : Path) (outlen : Nat) : Path :=
  let names := ((joinCwd cwd input).splitOnP (· = slash)).filter (· ≠ [])
  joinComponents outlen (names.foldl pushComponent [])

/-- The loop `while (more && (n = vfs_read(fd, buf, chunk)) > 0)`. -/
def readWhile {α : Type} (fd chunk : Nat) (more : α → Bool)
    (use : α → List Byte → Vfs → α × Vfs) : Nat → α → Vfs → Option (α × Vfs)
  | 0, _, _ => none
  | fuel + 1, a, s =>
    if !more a then some (a, s)
    else match s.vfsRead fd chunk with
      | (none, s) => some (a, s)
      | (some [], s) => some (a, s)
      | (some bytes, s) => readWhile fd chunk more use fuel (use a bytes s).1 (use a bytes s).2

/-- Opens a file, reads it, and closes it; `none` for a file that cannot be opened. -/
def readFile {α : Type} (chunk : Nat) (more : α → Bool) (use : α → List Byte → α) (fuel : Nat)
    (path : Path) (a : α) (s : Vfs) : Option (Option α × Vfs) :=
  match s.vfsOpen path false 0 with
  | (none, s) => some (none, s)
  | (some fd, s) =>
    match readWhile fd chunk more (fun a bytes s => (use a bytes, s)) fuel a s with
    | none => none
    | some (a, s) => some (some a, (s.vfsClose fd).2)

/-- `-n N` in front of a file name (`main.c:310-317` and `355-362`): the number, an `int`, and the rest. -/
def lineOption (args : Path) : BitVec 32 × Path :=
  if args.take 3 = ascii "-n " then
    let isDigit : Byte → Bool := fun c => 0x30 ≤ c.toNat ∧ c.toNat ≤ 0x39
    let digits := (args.drop 3).takeWhile isDigit
    let number := digits.foldl (fun n c => n * 10 + (c - 0x30).setWidth 32) (0 : BitVec 32)
    (number, ((args.drop 3).dropWhile isDigit).dropWhile (· = space))
  else (10, args)

/-- A name of at most 127 bytes at the beginning of the arguments, and the rest behind the blanks
(`main.c:450-456`, `482-491` and `532-541`). -/
def splitName (args : Path) : Path × Path :=
  let name := (args.takeWhile (· ≠ space)).take 127
  (name, (args.drop name.length).dropWhile (· = space))

/-- What the rest of the kernel decides. -/
structure ShellEnv where
  cwd : Path
  /-- The answer of `kmalloc` to a `vfs_open` that makes a file. -/
  block : Nat
  /-- `kmalloc` has room for a copy of an ELF file. -/
  buffer : Bool
  /-- What `elf_load` prints about the copy, and the name and id of the task it makes of it. -/
  load : List Byte → Text × Option (Path × Nat)

/-- What a command prints and the files after it. -/
abbrev Result := Option (Text × Vfs)

variable (env : ShellEnv) (fuel : Nat)

def ShellEnv.resolve (input : Path) : Path := resolveAbs env.cwd input 256

/-- `shell_cmd_ls` (`main.c:248-275`). -/
def shellCmdLs (arg : Path) (s : Vfs) : Result :=
  let path := env.resolve (if arg = [] then ascii "." else arg)
  match s.vfsReaddir path 32 with
  | none => some (ascii "ls: cannot access '" ++ path ++ ascii "'\n", s)
  | some [] => some (ascii "(empty)\n", s)
  | some entries =>
    some (entries.flatMap fun e =>
      if e.type = .directory then ascii "  [dir]  " ++ e.name ++ ascii "\n"
      else ascii "  " ++ decimal e.size ++ ascii " B  " ++ e.name ++ ascii "\n", s)

/-- `shell_cmd_cat` (`main.c:277-302`). -/
def shellCmdCat (arg : Path) (s : Vfs) : Result :=
  if arg = [] then some (ascii "cat: missing file path\n", s)
  else
    let path := env.resolve arg
    match readFile 255 (fun _ => true) (fun out bytes => out ++ cString bytes) fuel path [] s with
    | none => none
    | some (none, s) => some (ascii "cat: '" ++ path ++ ascii "': no such file\n", s)
    | some (some out, s) => some (out ++ ascii "\n", s)

/-- The characters of a chunk that `head` prints, and the lines so far (`main.c:338-342`). -/
def headChunk (nlines : Int) : Text × Nat → List Byte → Text × Nat
  | (out, lines), [] => (out, lines)
  | (out, lines), c :: bytes =>
    if lines < nlines then
      headChunk nlines (out ++ [c], if c = newline then lines + 1 else lines) bytes
    else (out, lines)

/-- `shell_cmd_head` (`main.c:304-347`). -/
def shellCmdHead (args : Path) (s : Vfs) : Result :=
  let nlines := (lineOption args).1.toInt
  let file := (lineOption args).2
  if file = [] then some (ascii "head: missing file\n", s)
  else
    let path := env.resolve file
    match readFile 255 (fun (printed : Text × Nat) => printed.2 < nlines) (headChunk nlines) fuel
        path ([], 0) s with
    | none => none
    | some (none, s) => some (ascii "head: '" ++ path ++ ascii "': no such file\n", s)
    | some (some (out, lines), s) => some (if lines = 0 then out ++ ascii "\n" else out, s)

/-- What `tail` prints of a chunk, and the line it has reached (`main.c:394-399`). -/
def tailChunk (skip : Int) : Text × Nat → List Byte → Text × Nat
  | printed, [] => printed
  | (out, line), c :: bytes =>
    tailChunk skip
      (if skip ≤ line then out ++ [c] else out, if c = newline then line + 1 else line) bytes

/-- `shell_cmd_tail` (`main.c:349-403`). The second pass does not close the file. -/
def shellCmdTail (args : Path) (s : Vfs) : Result :=
  let nlines := (lineOption args).1.toInt
  let file := (lineOption args).2
  if file = [] then some (ascii "tail: missing file\n", s)
  else
    let path := env.resolve file
    match readFile 256 (fun _ => true) (fun lines bytes => lines + bytes.count newline) fuel
        path 0 s with
    | none => none
    | some (none, s) => some (ascii "tail: '" ++ path ++ ascii "': no such file\n", s)
    | some (some lineCount, s) =>
      let skip := if (lineCount : Int) - nlines < 0 then 0 else lineCount - nlines
      match s.vfsOpen path false 0 with
      | (none, s) => some ([], s)
      | (some fd, s) =>
        match readWhile fd 256 (fun _ => true) (fun printed bytes s => (tailChunk skip printed bytes, s))
            fuel (([], 0) : Text × Nat) s with
        | none => none
        | some ((out, line), s) =>
          some (if lineCount = 0 ∨ line = 0 then out ++ ascii "\n" else out, s)

/-- The counters of `wc`. -/
structure WordCount where
  lines : Nat
  words : Nat
  bytes : Nat
  inWord : Bool

/-- One character (`main.c:427-436`). -/
def WordCount.next (w : WordCount) (c : Byte) : WordCount :=
  let blank := c = space ∨ c = tab ∨ c = newline
  { lines := if c = newline then w.lines + 1 else w.lines
    words := if ¬blank ∧ !w.inWord then w.words + 1 else w.words
    bytes := w.bytes + 1
    inWord := ¬blank }

/-- `shell_cmd_wc` (`main.c:405-440`). -/
def shellCmdWc (arg : Path) (s : Vfs) : Result :=
  if arg = [] then some (ascii "wc: missing file\n", s)
  else
    let path := env.resolve arg
    match readFile 256 (fun _ => true) (fun w bytes => bytes.foldl WordCount.next w) fuel path
        ⟨0, 0, 0, false⟩ s with
    | none => none
    | some (none, s) => some (ascii "wc: '" ++ path ++ ascii "': no such file\n", s)
    | some (some w, s) =>
      some (ascii "  " ++ decimal w.lines ++ ascii "  " ++ decimal w.words ++ ascii "  " ++
        decimal w.bytes ++ ascii " " ++ arg ++ ascii "\n", s)

/-- `shell_cmd_write` (`main.c:442-472`). -/
def shellCmdWrite (args : Path) (s : Vfs) : Result :=
  if args = [] then some (ascii "write: usage: write <file> <text>\n", s)
  else
    let path := env.resolve (splitName args).1
    let text := (splitName args).2
    match s.vfsOpen path true env.block with
    | (none, s) => some (ascii "write: cannot open '" ++ path ++ ascii "'\n", s)
    | (some fd, s) =>
      let s := (s.vfsWrite fd (fun k => text.getD k 0) text.length).2
      some (ascii "Wrote " ++ decimal text.length ++ ascii " bytes to " ++ path ++ ascii "\n",
        (s.vfsClose fd).2)

/-- `shell_cmd_cp` (`main.c:474-522`). -/
def shellCmdCp (args : Path) (s : Vfs) : Result :=
  if args = [] then some (ascii "cp: usage: cp <src> <dst>\n", s)
  else
    let dstName := (splitName (splitName args).2).1
    if dstName = [] then some (ascii "cp: missing destination\n", s)
    else
      let src := env.resolve (splitName args).1
      let dst := env.resolve dstName
      match s.vfsOpen src false 0 with
      | (none, s) => some (ascii "cp: '" ++ src ++ ascii "': no such file\n", s)
      | (some sfd, s) =>
        match s.vfsOpen dst true env.block with
        | (none, s) =>
          some (ascii "cp: cannot create '" ++ dst ++ ascii "'\n", (s.vfsClose sfd).2)
        | (some dfd, s) =>
          let copy (_ : Unit) (bytes : List Byte) (s : Vfs) :=
            ((), (s.vfsWrite dfd (fun k => bytes.getD k 0) bytes.length).2)
          match readWhile sfd 256 (fun _ => true) copy fuel () s with
          | none => none
          | some ((), s) => some ([], ((s.vfsClose sfd).2.vfsClose dfd).2)

/-- `shell_cmd_mv` (`main.c:524-554`). -/
def shellCmdMv (args : Path) (s : Vfs) : Result :=
  if args = [] then some (ascii "mv: usage: mv <src> <dst>\n", s)
  else
    let dstName := (splitName (splitName args).2).1
    if dstName = [] then some (ascii "mv: missing destination\n", s)
    else
      let src := env.resolve (splitName args).1
      let dst := env.resolve dstName
      match s.vfsRename src dst with
      | (true, s) => some ([], s)
      | (false, s) => some (ascii "mv: cannot move '" ++ src ++ ascii "' to '" ++ dst ++ ascii "'\n", s)

/-- `shell_cmd_stat` (`main.c:556-577`). -/
def shellCmdStat (arg : Path) (s : Vfs) : Result :=
  if arg = [] then some (ascii "stat: missing path\n", s)
  else
    let path := env.resolve arg
    match s.vfsStat path with
    | none => some (ascii "stat: '" ++ path ++ ascii "': no such file or directory\n", s)
    | some st =>
      some (ascii "  File: " ++ path ++ ascii "\n  Type: " ++
        (if st.type = .directory then ascii "directory\n"
          else ascii "regular file\n  Size: " ++ decimal st.size ++ ascii " bytes\n"), s)

/-- `mkdir` (`main.c:1026-1032`). -/
def shellMkdir (arg : Path) (s : Vfs) : Result :=
  let path := env.resolve arg
  match s.vfsMkdir path with
  | (true, s) => some (ascii "Created " ++ path ++ ascii "\n", s)
  | (false, s) => some (ascii "mkdir: failed to create '" ++ path ++ ascii "'\n", s)

/-- `rmdir` (`main.c:1034-1045`). -/
def shellRmdir (arg : Path) (s : Vfs) : Result :=
  let path := env.resolve arg
  match s.vfsStat path with
  | none => some (ascii "rmdir: '" ++ path ++ ascii "': no such directory\n", s)
  | some st =>
    if st.type ≠ .directory then some (ascii "rmdir: '" ++ path ++ ascii "': not a directory\n", s)
    else match s.vfsUnlink path with
      | (false, s) => some (ascii "rmdir: '" ++ path ++ ascii "': directory not empty\n", s)
      | (true, s) => some (ascii "Removed " ++ path ++ ascii "\n", s)

/-- `rm` (`main.c:1047-1053`). -/
def shellRm (arg : Path) (s : Vfs) : Result :=
  let path := env.resolve arg
  match s.vfsUnlink path with
  | (true, s) => some (ascii "Removed " ++ path ++ ascii "\n", s)
  | (false, s) => some (ascii "rm: cannot remove '" ++ path ++ ascii "'\n", s)

/-- `touch` (`main.c:1055-1064`). -/
def shellTouch (arg : Path) (s : Vfs) : Result :=
  let path := env.resolve arg
  match s.vfsOpen path true env.block with
  | (some fd, s) => some (ascii "Created " ++ path ++ ascii "\n", (s.vfsClose fd).2)
  | (none, s) => some (ascii "touch: cannot create '" ++ path ++ ascii "'\n", s)

/-- The part of `elf_load` that reads the file (`elf.c:61-79`): what it prints, and the copy. -/
def elfRead (path : Path) (s : Vfs) : Text × Option (List Byte) × Vfs :=
  match s.vfsStat path with
  | none => (ascii "elf: " ++ path ++ ascii ": not found\n", none, s)
  | some st =>
    if st.size < 64 then (ascii "elf: " ++ path ++ ascii ": too small\n", none, s)
    else match s.vfsOpen path false 0 with
      | (none, s) => ([], none, s)
      | (some fd, s) =>
        if !env.buffer then ([], none, (s.vfsClose fd).2)
        else match s.vfsRead fd st.size with
          | (none, s) => ([], none, (s.vfsClose fd).2)
          | (some bytes, s) =>
            ([], if bytes.length = st.size then some bytes else none, (s.vfsClose fd).2)

/-- `exec` (`main.c:1094-1101`). -/
def shellExec (arg : Path) (s : Vfs) : Result :=
  let path := env.resolve arg
  let failed := ascii "exec: failed to load '" ++ path ++ ascii "'\n"
  match elfRead env path s with
  | (out, none, s) => some (out ++ failed, s)
  | (out, some copy, s) =>
    match env.load copy with
    | (more, none) => some (out ++ more ++ failed, s)
    | (more, some (name, id)) =>
      some (out ++ more ++ ascii "Loaded ELF task '" ++ name ++ ascii "' (id " ++ decimal id ++
        ascii ")\n", s)

/-- The commands that work on files, with the rest of the line. -/
inductive ShellCommand where
  | ls (arg : Path)
  | cat (arg : Path)
  | head (args : Path)
  | tail (args : Path)
  | wc (arg : Path)
  | write (args : Path)
  | cp (args : Path)
  | mv (args : Path)
  | stat (arg : Path)
  | mkdir (arg : Path)
  | rmdir (arg : Path)
  | rm (arg : Path)
  | touch (arg : Path)
  | exec (arg : Path)
  deriving DecidableEq

/-- `strip_trailing` (`main.c:861-869`). -/
def stripTrailing (line : Path) : Path := line.rdropWhile fun c => c = space ∨ c = tab

/-- What is behind a word at the beginning of the line. -/
def afterWord (word : String) (line : Path) : Option Path :=
  if line.take word.length = ascii word then some (line.drop word.length) else none

/-- The tests of `shell_execute` for these commands, in their order; `none` for any other line. -/
def ShellCommand.parse (line : Path) : Option ShellCommand :=
  if line = ascii "ls" then some (.ls [])
  else ((afterWord "ls " line).map .ls).orElse fun _ =>
    ((afterWord "cat " line).map .cat).orElse fun _ =>
    ((afterWord "head " line).map .head).orElse fun _ =>
    ((afterWord "tail " line).map .tail).orElse fun _ =>
    ((afterWord "wc " line).map .wc).orElse fun _ =>
    ((afterWord "write " line).map .write).orElse fun _ =>
    ((afterWord "cp " line).map .cp).orElse fun _ =>
    ((afterWord "mv " line).map .mv).orElse fun _ =>
    ((afterWord "stat " line).map .stat).orElse fun _ =>
    ((afterWord "mkdir " line).map .mkdir).orElse fun _ =>
    ((afterWord "rmdir " line).map .rmdir).orElse fun _ =>
    ((afterWord "rm " line).map .rm).orElse fun _ =>
    ((afterWord "touch " line).map .touch).orElse fun _ =>
    (afterWord "exec " line).map .exec

/-- The call of a command. -/
def ShellCommand.run : ShellCommand → Vfs → Result
  | .ls arg => shellCmdLs env arg
  | .cat arg => shellCmdCat env fuel arg
  | .head args => shellCmdHead env fuel args
  | .tail args => shellCmdTail env fuel args
  | .wc arg => shellCmdWc env fuel arg
  | .write args => shellCmdWrite env args
  | .cp args => shellCmdCp env fuel args
  | .mv args => shellCmdMv env args
  | .stat arg => shellCmdStat env arg
  | .mkdir arg => shellMkdir env arg
  | .rmdir arg => shellRmdir env arg
  | .rm arg => shellRm env arg
  | .touch arg => shellTouch env arg
  | .exec arg => shellExec env arg

/-- `shell_execute` (`main.c:919-1176`) for a line with one of these commands. -/
def shellExecute (line : Path) (len : Nat) (s : Vfs) : Result :=
  if len = 0 then some ([], s)
  else match ShellCommand.parse (stripTrailing line) with
    | none => none
    | some command => command.run env fuel s

end MicroOs.Shell
