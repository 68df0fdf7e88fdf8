/-
# `Envfile.Zig.Program` — `src/zig/main.zig`

The Zig program.  `EnvStore` is the state of a step, `counts` the counters of
its output.  The record loop is the one of `Envfile.Port.Program`, with six bytes
of whitespace where the other ports have two.

Line numbers are `u32`, cast from an index: `@intCast` is `none` where the number
does not fit.  A build with safety checks stops there; without them what
happens is undefined.

`environ_map` is the library's; the order in which its iterator yields the
variables is a parameter of `main`.
-/
import Envfile.Port.Program

namespace Envfile.Zig

/-! ## The environment -/

abbrev EnvStore := List (Bytes × Bytes)

namespace EnvStore

def get (store : EnvStore) (key : Bytes) : Option Bytes :=
  (store.find? fun entry => entry.1 == key).map Prod.snd

def set (store : EnvStore) (key value : Bytes) : EnvStore :=
  match store with
  | [] => [(key, value)]
  | entry :: entries =>
    if entry.1 == key then (entry.1, value) :: entries else entry :: set entries key value

end EnvStore

/-! ## Byte classes -/

def isWhitespace (c : UInt8) : Bool :=
  c == Byte.space || c == Byte.tab || c == Byte.nl || c == Byte.cr || c == 0x0b || c == 0x0c

def port : Port EnvStore := ⟨isWhitespace, EnvStore.get, EnvStore.set⟩

def validShellKey (key : Bytes) : Bool := Port.validShellKey key

def isBlank (line : Bytes) : Bool := port.isBlank line

def substValue (path : Bytes) (lineno : Nat) (value : Bytes) (env : EnvStore) :
    Bytes × Out UInt32 :=
  port.substValue path lineno value env

section Record

variable (cfg : Knobs) (path : Bytes) (lineno : Nat)

def handleRecord (key rawValue value : Bytes) : Step EnvStore (Out UInt32) :=
  port.handleRecord cfg path lineno key rawValue value

/-- The body of the last loop of `processOneFile`. -/
def processLine (line : Bytes) : Step EnvStore (Out UInt32) :=
  port.processLine cfg path lineno line

end Record

/-! ## Lines -/

/-- The loop of `splitLines`, `line` being `buf[start..i]`. -/
def splitLoop (line : Bytes) : Bytes → List Bytes
  | [] => if line.length > 0 then [line] else []
  | c :: buf => if c == Byte.nl then line :: splitLoop [] buf else splitLoop (line ++ [c]) buf

def splitLines (buf : Bytes) : List Bytes := splitLoop [] buf

def isContinuation (line : Bytes) : Bool :=
  (line.reverse.takeWhile (· == Byte.backslash)).length % 2 == 1

/-- `@intCast` to `u32`. -/
def intCast (n : Nat) : Option UInt32 := if n < 2 ^ 32 then some (UInt32.ofNat n) else none

/-- The inner loop of the join: the logical line, its number, the lines after
it, and the index past it.  Only the next line is tested. -/
def gather (joined : Bytes) (lineno : UInt32) :
    List Bytes → Nat → Option (Bytes × UInt32 × List Bytes × Nat)
  | [], i => some (joined, lineno, [], i)
  | next :: lines, i => do
    let lineno ← intCast (i + 1)
    if isContinuation next then gather (joined ++ next.dropLast) lineno lines (i + 1)
    else some (joined ++ next, lineno, lines, i + 1)

/-- The join, at index `i`. -/
def joinLines : Nat → List Bytes → Nat → Option (List (Bytes × UInt32))
  | 0, _, _ => some []
  | _ + 1, [], _ => some []
  | rounds + 1, line :: lines, i => do
    let lineno ← intCast (i + 1)
    let joined ←
      if isContinuation line then gather line.dropLast lineno lines (i + 1)
      else some (line, lineno, lines, i + 1)
    let others ← joinLines rounds joined.2.2.1 joined.2.2.2
    some ((joined.1, joined.2.1) :: others)

/-- The loop that numbers the lines, from `i + 1` on. -/
def numberLines (i : Nat) : List Bytes → Option (List (Bytes × UInt32))
  | [] => some []
  | line :: lines => do
    let lineno ← intCast (i + 1)
    let others ← numberLines (i + 1) lines
    some ((line, lineno) :: others)

/-- Strip the CR of every line if every line has one. -/
def stripCrlf (lines : List Bytes) : List Bytes :=
  if lines.any fun line => line.length == 0 || line.getLast? != some Byte.cr then lines
  else lines.map List.dropLast

/-- The BOM pass. -/
def bomPass (cfg : Knobs) : List Bytes → Except Code (List Bytes)
  | [] => .ok []
  | first :: others =>
    if bomBytes.isPrefixOf first then
      match cfg.bom with
      | .reject => .error .fileBom
      | .strip => .ok (first.drop 3 :: others)
      | .literal => .ok (first :: others)
    else .ok (first :: others)

/-- `processOneFile` up to the join. -/
def readLines (cfg : Knobs) (buf : Bytes) : Except Code (List Bytes) :=
  if cfg.nulReject && (buf.idxOf? Byte.nul).isSome then .error .fileNul
  else
    (bomPass cfg (splitLines buf)).map fun lines =>
      if cfg.crlfStrip then stripCrlf lines else lines

/-- `processOneFile`; `none` where a line number does not fit. -/
def processOneFile (cfg : Knobs) (path buf : Bytes) : Option (Step EnvStore (Out UInt32)) :=
  match readLines cfg buf with
  | .error code => some (Step.emit (Out.diag ⟨code, none, path, none⟩))
  | .ok lines => do
      let procLines ←
        if cfg.contAccept then joinLines lines.length lines 0 else numberLines 0 lines
      some (Step.run (fun p => processLine cfg path p.2.toNat p.1) procLines)

/-- `processOneFile` with `readAllPath`. -/
def processArg (cfg : Knobs) (file : File) : Option (Step EnvStore (Out UInt32)) :=
  if !file.opens || file.failed then
    some (Step.emit (Out.diag ⟨.fileUnreadable, none, file.path, none⟩))
  else processOneFile cfg file.path file.contents

/-! ## The environment at both ends -/

namespace EnvStore

/-- `seedFromProcess`, `env` being what the iterator yields. -/
def seedFromProcess (store : EnvStore) (env : List (Bytes × Bytes)) : EnvStore :=
  env.foldl (fun store kv =>
    if envfilePrefix.isPrefixOf kv.1 then store else store ++ [kv]) store

/-- `entries.items[i]`. -/
def item (store : EnvStore) (i : Nat) : Bytes × Bytes := store.getD i ([], [])

/-- The indices that `emitSorted` goes over: `std.sort.heap` sorts them by their
keys, no two of which are equal. -/
def sortedIndices (store : EnvStore) : List Nat :=
  ((List.range store.length).filter fun i => !envfilePrefix.isPrefixOf (store.item i).1).mergeSort
    fun a b => decide ((store.item a).1 ≤ (store.item b).1)

def emitSorted (store : EnvStore) : List Binding := store.sortedIndices.map store.item

end EnvStore

/-! ## main -/

/-- `std.fmt.bufPrint` into 256 bytes, with what stands for a text that is too
long. -/
def bufPrint (name raw : Bytes) : Bytes :=
  if (name ++ raw).length ≤ 256 then name ++ raw else name ++ ascii "<invalid>"

/-- `fatal`: the line it writes. -/
def fatal (code detail : Bytes) : Bytes := code ++ ascii ": " ++ detail

def parseAction (raw : Bytes) : Except Bytes Action :=
  match Action.ofName raw with
  | some action => .ok action
  | none => .error (fatal (ascii "FATAL_ERROR_BAD_ARG") (bufPrint (ascii "action=") raw))

def parseBom (format : Bytes) (raw : Option Bytes) : Except Bytes BomMode :=
  let raw := raw.getD (if format == ascii "native" then ascii "literal" else ascii "strip")
  match BomMode.ofName raw with
  | some mode => .ok mode
  | none =>
      .error (fatal (ascii "FATAL_ERROR_BAD_ENVFILE_VALUE") (bufPrint (ascii "ENVFILE_BOM=") raw))

/-- The head of `main`, up to the seeding. -/
def readKnobs (environ : Environ) : Except Bytes Knobs := do
  let format := knobIfSet environ (ascii "ENVFILE_FORMAT") (ascii "shell")
  let native := format == ascii "native"
  let action ← parseAction (knobIfSet environ (ascii "ENVFILE_ACTION") (ascii "validate"))
  let bom ← parseBom format (getenv environ (ascii "ENVFILE_BOM"))
  if h : native = true ∧ bom ≠ .literal then
    .error (fatal (ascii "FATAL_ERROR_UNSUPPORTED")
      (bufPrint (ascii "format=native ENVFILE_BOM=") bom.name))
  else .ok {
    native := native
    action := some action
    bom := bom
    crlfStrip := knobIfSet environ (ascii "ENVFILE_CRLF") (ascii "ignore") == ascii "strip"
    nulReject := knobIfSet environ (ascii "ENVFILE_NUL") (ascii "reject") == ascii "reject"
    contAccept := knobIfSet environ (ascii "ENVFILE_BACKSLASH_CONTINUATION") (ascii "ignore")
      == ascii "accept"
    native_bom := fun hn => by
      by_contra hne
      exact h ⟨hn, hne⟩ }

/-- `env_store` before the first file. -/
def initialStore (cfg : Knobs) (env : List (Bytes × Bytes)) : EnvStore :=
  if cfg.action = some .delta ∨ cfg.action = some .apply then EnvStore.seedFromProcess [] env
  else []

/-- `main` after the configuration; `none` where a line number does not fit. -/
def runFiles (cfg : Knobs) (env : List (Bytes × Bytes)) (files : List File) :
    Option (Report UInt32) :=
  (files.mapM (processArg cfg)).map fun steps =>
    let run := Step.run id steps (initialStore cfg env)
    let total := run.2 +
      if cfg.action = some .apply then Out.printAll (EnvStore.emitSorted run.1) else 0
    ⟨total, if total.errors > 0 then 1 else 0⟩

def main (environ : Environ) (iterator : Environ → List (Bytes × Bytes)) (stdin : File)
    (args : List File) : Except Bytes (Option (Report UInt32)) :=
  (readKnobs environ).map fun cfg =>
    runFiles cfg (iterator environ)
      (if args.isEmpty then [{ stdin with path := [Byte.dash] }] else args)

end Envfile.Zig
