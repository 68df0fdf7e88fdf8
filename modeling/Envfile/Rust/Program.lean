/-
# `Envfile.Rust.Program` — `src/rust/main.rs`

The Rust program.  The fields of `Parser` that never change are the
configuration; `env_map` is the state of a step, and `checked` and `errors` are
`u64` counters of its output.  The record loop is the one of
`Envfile.Port.Program`.

`main` reads its variables and its arguments as text: `std::env::vars` and
`std::env::args` panic where one is not, and the name of an unbound reference is
printed as the text that can be made of it (`spell`).
-/
import Envfile.Lib.Utf8
import Envfile.Port.Program
import Mathlib.Data.List.AList

namespace Envfile.Rust

/-- `HashMap<Vec<u8>, Vec<u8>>`. -/
abbrev EnvMap := AList fun _ : Bytes => Bytes

def fdiag (path : Bytes) (code : Code) : Out UInt64 := Out.diag ⟨code, none, path, none⟩

/-- The byte class of `is_blank_spaces_tabs`, which the key and the value are
tested for as well. -/
def isSpaceOrTab (c : UInt8) : Bool := c == Byte.space || c == Byte.tab

def port : Port EnvMap :=
  ⟨isSpaceOrTab, fun env => env.lookup, fun env key value => env.insert key value⟩

def isBlankSpacesTabs (line : Bytes) : Bool := port.isBlank line

def validShellKey (key : Bytes) : Bool := Port.validShellKey key

/-- `unquote_shell_value`; the caller reports the code. -/
def unquoteShellValue (value : Bytes) : Except Code Bytes := Port.unquoteShellValue value

def substValue (path : Bytes) (lineno : Nat) (value : Bytes) (env : EnvMap) : Bytes × Out UInt64 :=
  port.substValue path lineno value env

section Record

variable (cfg : Knobs) (path : Bytes) (lineno : Nat)

def handleRecord (key rawValue value : Bytes) : Step EnvMap (Out UInt64) :=
  port.handleRecord cfg path lineno key rawValue value

/-- The body of the last loop of `process_file`. -/
def processLine (line : Bytes) : Step EnvMap (Out UInt64) := port.processLine cfg path lineno line

end Record

/-! ## Lines -/

/-- `buf.split` at newlines, less one empty last piece. -/
def splitLines (buf : Bytes) : List Bytes :=
  let lines := buf.splitOn Byte.nl
  match lines.getLast? with
  | some last => if last.isEmpty then lines.dropLast else lines
  | none => lines

def isContinuation (line : Bytes) : Bool :=
  (line.reverse.takeWhile (· == Byte.backslash)).length % 2 == 1

/-- The inner loop of the join: the logical line, the lines after it, and the
index past it. -/
def gather (line : Bytes) : List Bytes → Nat → Bytes × List Bytes × Nat
  | [], i => (line, [], i)
  | next :: lines, i =>
    if isContinuation line then gather (line.dropLast ++ next) lines (i + 1)
    else (line, next :: lines, i)

/-- The join, at index `i`. -/
def joinLines : Nat → List Bytes → Nat → List (Bytes × Nat)
  | 0, _, _ => []
  | _ + 1, [], _ => []
  | rounds + 1, line :: lines, i =>
    let joined := gather line lines (i + 1)
    (joined.1, joined.2.2) :: joinLines rounds joined.2.1 joined.2.2

/-- `lines.into_iter().enumerate()`, the numbers from `i + 1` on. -/
def numberLines (i : Nat) : List Bytes → List (Bytes × Nat)
  | [] => []
  | line :: lines => (line, i + 1) :: numberLines (i + 1) lines

/-- Strip the CR of every line if every line has one. -/
def stripCrlf (lines : List Bytes) : List Bytes :=
  if !lines.isEmpty && lines.all fun line => line.getLast? == some Byte.cr then
    lines.map List.dropLast
  else lines

/-- The BOM pass. -/
def bomPass (cfg : Knobs) : List Bytes → Except Code (List Bytes)
  | [] => .ok []
  | first :: others =>
    if bomBytes.isPrefixOf first then
      match cfg.bom with
      | .reject => .error .fileBom
      | .strip => .ok (first.drop 3 :: others)
      | .literal => .ok (first :: others)
    else .ok (first :: others)

/-- `process_file` up to the join. -/
def readLines (cfg : Knobs) (fileBytes : Bytes) : Except Code (List Bytes) :=
  if cfg.nulReject && fileBytes.contains Byte.nul then .error .fileNul
  else
    (bomPass cfg (splitLines fileBytes)).map fun lines =>
      if cfg.crlfStrip then stripCrlf lines else lines

def processFile (cfg : Knobs) (path fileBytes : Bytes) : Step EnvMap (Out UInt64) :=
  match readLines cfg fileBytes with
  | .error code => Step.emit (fdiag path code)
  | .ok lines =>
      let procLines :=
        if cfg.contAccept then joinLines lines.length lines 0 else numberLines 0 lines
      Step.run (fun p => processLine cfg path p.2 p.1) procLines

/-! ## main -/

/-- The names of unbound references on stderr: `String::from_utf8_lossy`. -/
def spell (name : Bytes) : Bytes := Utf8.lossy name

/-- An entry of the environment as `std::env::vars` cuts it: the first byte is
no separator. -/
def parseEntry (entry : Bytes) : Option (Bytes × Bytes) :=
  if entry.isEmpty then none
  else ((entry.drop 1).idxOf? Byte.equals).map fun p => (entry.take (p + 1), entry.drop (p + 2))

/-- `std::env::vars`; `none` where it panics. -/
def vars (environ : Environ) : Option (List (Bytes × Bytes)) :=
  let entries := environ.filterMap parseEntry
  if entries.all fun e => Utf8.valid e.1 && Utf8.valid e.2 then some entries else none

/-- `seed_env`. -/
def seedEnv (environ : Environ) : Option EnvMap :=
  (vars environ).map fun entries => entries.foldl (fun env e =>
    if envfilePrefix.isPrefixOf e.1 then env else env.insert e.1 e.2) ∅

/-- One round of the loop over the files; `read_path` fails when the file does
not open or cannot be read to its end. -/
def processArg (cfg : Knobs) (file : File) : Step EnvMap (Out UInt64) :=
  if !file.opens || file.failed then Step.emit (fdiag file.path .fileUnreadable)
  else processFile cfg file.path file.contents

/-- The last loop of `main`. -/
def emitSorted (env : EnvMap) : List Binding :=
  let keys := (env.keys.filter fun k => !envfilePrefix.isPrefixOf k).mergeSort
    fun a b => decide (a ≤ b)
  keys.filterMap fun key => (env.lookup key).map fun value => (key, value)

def initialMap (cfg : Knobs) (environ : Environ) : Option EnvMap :=
  if cfg.action = some .delta ∨ cfg.action = some .apply then seedEnv environ else some ∅

/-- `main` after the configuration; `none` where it panics, at an argument or at a
variable. -/
def runFiles (cfg : Knobs) (environ : Environ) (files : List File) : Option (Report UInt64) :=
  if files.all fun file => Utf8.valid file.path then
    (initialMap cfg environ).map fun env =>
      let run := Step.run (processArg cfg) files env
      let total := Out.respell spell run.2 +
        if cfg.action = some .apply then Out.printAll (emitSorted run.1) else 0
      ⟨total, if total.errors > 0 then 1 else 0⟩
  else none

/-- `std::env::var(name).unwrap_or_else(…)`: a value that is no text counts as
unset. -/
def varOr (environ : Environ) (name default_ : Bytes) : Bytes :=
  match getenv environ name with
  | some value => if Utf8.valid value then value else default_
  | none => default_

def readKnobs (environ : Environ) : Except Fatal Knobs := knobsBy (varOr environ)

def main (environ : Environ) (stdin : File) (args : List File) :
    Except Fatal (Option (Report UInt64)) :=
  (readKnobs environ).map fun cfg =>
    runFiles cfg environ (if args.isEmpty then [{ stdin with path := [Byte.dash] }] else args)

end Envfile.Rust
