/-
# `Envfile.Python.Program` — `bin/envfile.py`

The Python program: whole files as `bytes`, the environment as a `dict`, and
integers without bound for its counters.  The globals that never change are the
configuration.  The record loop of `process_file`, with `subst_value`,
`unquote_shell_value` and `handle_record`, is the one of `Envfile.Port.Program`,
test by test.

The interpreter has read the variables before the program does: where they name no
locale, it may set `LC_CTYPE` (`Interpreter`).  It writes to stderr in UTF-8 then,
and escapes what cannot be written: a name that is unbound is printed as
`name.decode("latin1")` (`spell`), a path as far as it is text (`pathText`).
-/
import Envfile.Lib.Utf8
import Envfile.Port.Program
import Envfile.Runs
import Mathlib.Data.List.AList

namespace Envfile.Python

/-- `dict[bytes, bytes]`. -/
abbrev EnvMap := AList fun _ : Bytes => Bytes

/-- The environments in which the interpreter takes the variables as they are, and
UTF-8 for its streams. -/
structure NamesLocale (environ : Environ) : Prop where
  locale : ∃ v, getenv environ (ascii "LC_ALL") = some v ∧
    (v = ascii "C" ∨ v = ascii "POSIX" ∨ (ascii ".UTF-8").isSuffixOf v = true)
  options : ∀ e ∈ environ, (ascii "PYTHON").isPrefixOf e = false

/-- The interpreter: the environment that `os` has of the one it is started in. -/
structure Interpreter where
  environ : Environ → Environ
  environ_named : ∀ e, NamesLocale e → environ e = e

/-- A path on stderr: `sys.argv` has the bytes that are no text as surrogates, and
`backslashreplace` writes those. -/
def pathText (path : Bytes) : Bytes := Utf8.escaped path

def fdiag (path : Bytes) (code : Code) : Out Nat := Out.diag ⟨code, none, pathText path, none⟩

/-- The names of unbound references on stderr. -/
def spell (name : Bytes) : Bytes := Utf8.ofLatin1 name

/-- `c in (0x20, 0x09)`. -/
def isSpaceOrTab (c : UInt8) : Bool := c == Byte.space || c == Byte.tab

def port : Port EnvMap :=
  ⟨isSpaceOrTab, fun env => env.lookup, fun env key value => env.insert key value⟩

def validShellKey (key : Bytes) : Bool := Port.validShellKey key

/-- `unquote_shell_value`; the caller reports the code. -/
def unquoteShellValue (value : Bytes) : Except Code Bytes := Port.unquoteShellValue value

def substValue (path : Bytes) (lineno : Nat) (value : Bytes) (env : EnvMap) : Bytes × Out Nat :=
  let resolved := port.substValue (pathText path) lineno value env
  (resolved.1, Out.respell spell resolved.2)

section Record

variable (cfg : Knobs) (path : Bytes) (lineno : Nat)

def handleRecord (key rawValue value : Bytes) : Step EnvMap (Out Nat) := fun env =>
  let handled := port.handleRecord cfg (pathText path) lineno key rawValue value env
  (handled.1, Out.respell spell handled.2)

/-- The body of the last loop of `process_file`. -/
def processLine (line : Bytes) : Step EnvMap (Out Nat) := fun env =>
  let processed := port.processLine cfg (pathText path) lineno line env
  (processed.1, Out.respell spell processed.2)

end Record

/-! ## Lines -/

/-- `buf.split(b"\n")`, less one empty last piece. -/
def splitLines (buf : Bytes) : List Bytes :=
  let lines := buf.splitOn Byte.nl
  if lines.getLast? == some [] then lines.dropLast else lines

def isContinuation (line : Bytes) : Bool :=
  (line.reverse.takeWhile (· == Byte.backslash)).length % 2 == 1

/-- The inner loop of the join: the logical line, the lines after it, and the
index past it. -/
def gather (line : Bytes) : List Bytes → Nat → Bytes × List Bytes × Nat
  | [], i => (line, [], i)
  | next :: lines, i =>
    if isContinuation line then gather (line.dropLast ++ next) lines (i + 1)
    else (line, next :: lines, i)

/-- The join, at index `i`. -/
def joinLines : Nat → List Bytes → Nat → List (Bytes × Nat)
  | 0, _, _ => []
  | _ + 1, [], _ => []
  | rounds + 1, line :: lines, i =>
    let joined := gather line lines (i + 1)
    (joined.1, joined.2.2) :: joinLines rounds joined.2.1 joined.2.2

/-- `enumerate(lines, start=1)`, the numbers from `i + 1` on. -/
def enumerate (i : Nat) : List Bytes → List (Bytes × Nat)
  | [] => []
  | line :: lines => (line, i + 1) :: enumerate (i + 1) lines

/-- Strip the CR of every line if every line has one. -/
def stripCrlf (lines : List Bytes) : List Bytes :=
  let allCrlf := if lines.isEmpty then false else lines.all fun line => [Byte.cr].isSuffixOf line
  if allCrlf then lines.map List.dropLast else lines

/-- The BOM pass. -/
def bomPass (cfg : Knobs) : List Bytes → Except Code (List Bytes)
  | [] => .ok []
  | first :: others =>
    if bomBytes.isPrefixOf first then
      match cfg.bom with
      | .reject => .error .fileBom
      | .strip => .ok (first.drop 3 :: others)
      | .literal => .ok (first :: others)
    else .ok (first :: others)

/-- `process_file` up to the join. -/
def readLines (cfg : Knobs) (fileBytes : Bytes) : Except Code (List Bytes) :=
  if cfg.nulReject && fileBytes.contains Byte.nul then .error .fileNul
  else
    (bomPass cfg (splitLines fileBytes)).map fun lines =>
      if cfg.crlfStrip then stripCrlf lines else lines

def processFile (cfg : Knobs) (path fileBytes : Bytes) : Step EnvMap (Out Nat) :=
  match readLines cfg fileBytes with
  | .error code => Step.emit (fdiag path code)
  | .ok lines =>
      let proc := if cfg.contAccept then joinLines lines.length lines 0 else enumerate 0 lines
      Step.run (fun p => processLine cfg path p.2 p.1) proc

/-! ## main -/

/-- `os.environb`, of the environment that the interpreter goes on with: of entries
with the same name the first one. -/
def osEnvironb (environ : Environ) : EnvMap :=
  environ.foldl (fun env entry =>
    match entry.idxOf? Byte.equals with
    | none => env
    | some eq =>
        if entry.take eq ∈ env then env else env.insert (entry.take eq) (entry.drop (eq + 1))) ∅

def envSeed (environ : Environ) : EnvMap :=
  (osEnvironb environ).entries.foldl (fun env item =>
    if envfilePrefix.isPrefixOf item.1 then env else env.insert item.1 item.2) ∅

/-- One round of the loop over the file arguments. -/
def processArg (cfg : Knobs) (file : File) : Step EnvMap (Out Nat) :=
  if !file.opens || file.failed then Step.emit (fdiag file.path .fileUnreadable)
  else processFile cfg file.path file.contents

/-- The last loop of `main`: `sorted` keys without the `ENVFILE_` ones. -/
def emitSorted (env : EnvMap) : List Binding :=
  ((env.keys.filter fun k => !envfilePrefix.isPrefixOf k).mergeSort fun a b => decide (a ≤ b)).map
    fun k => (k, (env.lookup k).getD [])

def initialMap (cfg : Knobs) (environ : Environ) : EnvMap :=
  if cfg.action = some .delta ∨ cfg.action = some .apply then envSeed environ else ∅

/-- `main` after the configuration. -/
def runFiles (cfg : Knobs) (environ : Environ) (files : List File) : Report Nat :=
  let run := Step.run (processArg cfg) files (initialMap cfg environ)
  let total := run.2 + if cfg.action = some .apply then Out.printAll (emitSorted run.1) else 0
  ⟨total, if total.errors ≠ 0 then 1 else 0⟩

/-- `os.environ.get` for each of the six variables. -/
def readKnobs (environ : Environ) : Except Fatal Knobs := knobsBy (knobIfSet environ)

def main (python : Interpreter) (environ : Environ) (stdin : File) (args : List File) :
    Except Fatal (Report Nat) :=
  (readKnobs (python.environ environ)).map fun cfg =>
    runFiles cfg (python.environ environ)
      (if args.isEmpty then [{ stdin with path := [Byte.dash] }] else args)

end Envfile.Python
