/-
# `Envfile.Js.Program` — `src/js/envfile.lib.mjs`

The program that `bin/envfile.node.js`, `bin/envfile.bun.js` and
`bin/envfile.deno.js` run.  Files are byte arrays; the environment is a pair of
`Map`s, since a `Map` finds its keys by identity, and arrays with the same bytes
are not identical: both are keyed by the bytes read as Latin-1 text, `envMap`
has the value and `envKeys` the bytes of the key.

A string made here is the list of its UTF-16 code units; a string from outside,
and so each variable of the environment, is given by its UTF-8 form.  The
counters are numbers, exact below `2 ^ 53`.  The record loop, with
`substValue`, `unquoteShellValue` and `handleRecord`, is the one of
`Envfile.Port.Program`, test by test.
-/
import Envfile.Lib.Utf8
import Envfile.Port.Program
import Envfile.Runs
import Mathlib.Data.List.AList

namespace Envfile.Js

/-- A string, by its code units. -/
abbrev JsString := List UInt16

def bytesToLatin1 (bytes : Bytes) : JsString := bytes.map UInt8.toUInt16

/-- A `Map` from strings to byte arrays. -/
abbrev ByteMap := AList fun _ : JsString => Bytes

/-- `envMap` and `envKeys`. -/
structure EnvMaps where
  envMap : ByteMap
  envKeys : ByteMap

namespace EnvMaps

def get (maps : EnvMaps) (name : Bytes) : Option Bytes := maps.envMap.lookup (bytesToLatin1 name)

/-- `envMap.set(keyStr, value)` and `envKeys.set(keyStr, key)`. -/
def set (maps : EnvMaps) (key value : Bytes) : EnvMaps where
  envMap := maps.envMap.insert (bytesToLatin1 key) value
  envKeys := maps.envKeys.insert (bytesToLatin1 key) key

def empty : EnvMaps := ⟨∅, ∅⟩

end EnvMaps

def fdiag (path : Bytes) (code : Code) : Out Nat := Out.diag ⟨code, none, path, none⟩

/-- The names of unbound references on stderr: Latin-1 text, written in UTF-8. -/
def spell (name : Bytes) : Bytes := Utf8.ofLatin1 name

/-- The byte class of `isBlankSpacesTabs`, which the key and the value are
tested for as well. -/
def isSpaceOrTab (c : UInt8) : Bool := !(c != Byte.space && c != Byte.tab)

def port : Port EnvMaps := ⟨isSpaceOrTab, EnvMaps.get, EnvMaps.set⟩

def isBlankSpacesTabs (line : Bytes) : Bool := port.isBlank line

def validShellKey (key : Bytes) : Bool := Port.validShellKey key

/-- `unquoteShellValue`; the caller reports the code. -/
def unquoteShellValue (value : Bytes) : Except Code Bytes := Port.unquoteShellValue value

def substValue (path : Bytes) (lineno : Nat) (value : Bytes) (maps : EnvMaps) : Bytes × Out Nat :=
  let resolved := port.substValue path lineno value maps
  (resolved.1, Out.respell spell resolved.2)

section Record

variable (cfg : Knobs) (path : Bytes) (lineno : Nat)

def handleRecord (key rawValue value : Bytes) : Step EnvMaps (Out Nat) := fun maps =>
  let handled := port.handleRecord cfg path lineno key rawValue value maps
  (handled.1, Out.respell spell handled.2)

/-- The body of the loop over `procLines`. -/
def processLine (line : Bytes) : Step EnvMaps (Out Nat) := fun maps =>
  let processed := port.processLine cfg path lineno line maps
  (processed.1, Out.respell spell processed.2)

end Record

/-! ## Lines -/

/-- The loop of `splitLines`, `line` being `buf.slice(start, i)`. -/
def splitLoop (line : Bytes) : Bytes → List Bytes
  | [] => [line]
  | c :: buf => if c == Byte.nl then line :: splitLoop [] buf else splitLoop (line ++ [c]) buf

def splitLines (buf : Bytes) : List Bytes :=
  let lines := splitLoop [] buf
  if lines.length > 0 && (lines.getLastD []).length == 0 then lines.dropLast else lines

def isContinuation (line : Bytes) : Bool :=
  (line.reverse.takeWhile (· == Byte.backslash)).length % 2 == 1

/-- The inner loop of the join: the logical line, the lines after it, and the
index past it. -/
def gather (line : Bytes) : List Bytes → Nat → Bytes × List Bytes × Nat
  | [], i => (line, [], i)
  | next :: lines, i =>
    if isContinuation line then gather (line.take (line.length - 1) ++ next) lines (i + 1)
    else (line, next :: lines, i)

/-- The join, at index `i`. -/
def joinLines : Nat → List Bytes → Nat → List (Bytes × Nat)
  | 0, _, _ => []
  | _ + 1, [], _ => []
  | rounds + 1, line :: lines, i =>
    let joined := gather line lines (i + 1)
    (joined.1, joined.2.2) :: joinLines rounds joined.2.1 joined.2.2

/-- The loop that numbers the lines, from `i + 1` on. -/
def numberLines (i : Nat) : List Bytes → List (Bytes × Nat)
  | [] => []
  | line :: lines => (line, i + 1) :: numberLines (i + 1) lines

/-- Strip the CR of every line if every line has one. -/
def stripCrlf (lines : List Bytes) : List Bytes :=
  let allCrlf := lines.length > 0 &&
    !lines.any fun line => line.length == 0 || line.getLast? != some Byte.cr
  if allCrlf then lines.map fun line => line.take (line.length - 1) else lines

/-- The BOM pass. -/
def bomPass (cfg : Knobs) : List Bytes → Except Code (List Bytes)
  | [] => .ok []
  | first :: others =>
    if bomBytes.isPrefixOf first then
      match cfg.bom with
      | .reject => .error .fileBom
      | .strip => .ok (first.drop 3 :: others)
      | .literal => .ok (first :: others)
    else .ok (first :: others)

/-- The loop over the files, from the NUL test up to the join. -/
def readLines (cfg : Knobs) (fileBytes : Bytes) : Except Code (List Bytes) :=
  if cfg.nulReject && (fileBytes.idxOf? Byte.nul).isSome then .error .fileNul
  else
    (bomPass cfg (splitLines fileBytes)).map fun lines =>
      if cfg.crlfStrip then stripCrlf lines else lines

/-- One round of the loop over the files. -/
def processArg (cfg : Knobs) (file : File) : Step EnvMaps (Out Nat) :=
  if !file.opens || file.failed then Step.emit (fdiag file.path .fileUnreadable)
  else
    match readLines cfg file.contents with
    | .error code => Step.emit (fdiag file.path code)
    | .ok lines =>
        let procLines :=
          if cfg.contAccept then joinLines lines.length lines 0 else numberLines 0 lines
        Step.run (fun p => processLine cfg file.path p.2 p.1) procLines

/-! ## runEnvfile -/

/-- `Object.entries(process.env)`: the variables as text. -/
def processEnv (environ : Environ) : List (Bytes × Bytes) :=
  (environ.filterMap splitEquals).map fun e => (Utf8.lossy e.1, Utf8.lossy e.2)

def seedEnv (env : List (Bytes × Bytes)) : EnvMaps :=
  env.foldl (fun maps e => if envfilePrefix.isPrefixOf e.1 then maps else maps.set e.1 e.2) .empty

/-- `envKeys.keys()` without the `ENVFILE_` ones, sorted by code units. -/
def sortedKeys (maps : EnvMaps) : List JsString :=
  (maps.envKeys.keys.filter fun k => !(bytesToLatin1 envfilePrefix).isPrefixOf k).mergeSort
    fun a b => decide (a ≤ b)

/-- What the last loop writes. -/
def emitSorted (maps : EnvMaps) : List Binding :=
  (sortedKeys maps).map fun k =>
    ((maps.envKeys.lookup k).getD [], (maps.envMap.lookup k).getD [])

def initialMaps (cfg : Knobs) (env : List (Bytes × Bytes)) : EnvMaps :=
  if cfg.action = some .delta ∨ cfg.action = some .apply then seedEnv env else .empty

/-- `runEnvfile` after the configuration. -/
def runFiles (cfg : Knobs) (env : List (Bytes × Bytes)) (files : List File) : Report Nat :=
  let run := Step.run (processArg cfg) files (initialMaps cfg env)
  let total := run.2 + if cfg.action = some .apply then Out.printAll (emitSorted run.1) else 0
  ⟨total, if total.errors > 0 then 1 else 0⟩

/-- `env[name] || default_`: neither `undefined` nor the empty string. -/
def orDefault (env : List (Bytes × Bytes)) (name default_ : Bytes) : Bytes :=
  match (env.find? fun e => e.1 == name).map Prod.snd with
  | some (c :: value) => c :: value
  | _ => default_

def readKnobs (env : List (Bytes × Bytes)) : Except Fatal Knobs := knobsBy (orDefault env)

def runEnvfile (env : List (Bytes × Bytes)) (stdin : File) (args : List File) :
    Except Fatal (Report Nat) :=
  (readKnobs env).map fun cfg =>
    runFiles cfg env (if args.length > 0 then args else [{ stdin with path := [Byte.dash] }])

end Envfile.Js
