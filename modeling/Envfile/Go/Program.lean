/-
# `Envfile.Go.Program` — `src/go/main.go`

The Go program: whole files as slices of bytes, lines as slices of lines, the
environment as a map.  The fields of `parser` that never change are the
configuration; `envMap`, `checked` and `errors` are the state and the output
of a step.  A function that returns early on a diagnostic answers `none`.
-/
import Envfile.Config
import Envfile.Output
import Envfile.Lib.Step
import Mathlib.Data.List.AList

namespace Envfile.Go

/-- `map[string][]byte`. -/
abbrev EnvMap := AList fun _ : Bytes => Bytes

def diag (path : Bytes) (lineno : Nat) (code : Code) : Out Int64 :=
  Out.diag ⟨code, none, path, some lineno⟩

def fdiag (path : Bytes) (code : Code) : Out Int64 := Out.diag ⟨code, none, path, none⟩

/-- `bytes.IndexByte`; `none` is -1. -/
def indexByte (s : Bytes) (c : UInt8) : Option Nat := s.idxOf? c

/-- `bytes.Split` at newlines, less one empty last piece. -/
def splitLines (buf : Bytes) : List Bytes :=
  let lines := buf.splitOn Byte.nl
  if lines.length > 0 && (lines.getLastD []).length == 0 then lines.dropLast else lines

def isContinuation (line : Bytes) : Bool :=
  (line.reverse.takeWhile (· == Byte.backslash)).length % 2 == 1

def isNameStart (c : UInt8) : Bool := Envfile.isNameStart c
def isNameContinue (c : UInt8) : Bool := isNameStart c || isDigit c

def validShellKey (key : Bytes) : Bool :=
  match key with
  | [] => false
  | first :: others => isNameStart first && others.all isNameContinue

def isBadUnquoted (c : UInt8) : Bool :=
  c == Byte.space || c == Byte.tab || c == Byte.squote || c == Byte.dquote || c == Byte.backslash

/-- `unquoteShellValue`: the value, or `none` and a diagnostic. -/
def unquoteShellValue (path : Bytes) (lineno : Nat) (value : Bytes) : Option Bytes × Out Int64 :=
  match value with
  | [] => (some value, 0)
  | c :: rest =>
    if c == Byte.dquote || c == Byte.squote then
      match indexByte rest c with
      | none =>
          (none, diag path lineno (if c == Byte.dquote then .doubleQuoteUnterminated
            else .singleQuoteUnterminated))
      | some pos =>
          if (rest.drop (pos + 1)).length != 0 then (none, diag path lineno .trailingContent)
          else (some (rest.take pos), 0)
    else if value.any isBadUnquoted then (none, diag path lineno .valueInvalidChar)
    else (some value, 0)

/-- One round of the loop of `seedEnv`. -/
def seedEntry (env : EnvMap) (entry : Bytes) : EnvMap :=
  match indexByte entry Byte.equals with
  | none => env
  | some eq =>
      let k := entry.take eq
      if envfilePrefix.isPrefixOf k then env else env.insert k (entry.drop (eq + 1))

/-- `os.Environ`, after entries with the keys `seen`: of entries with the same
key the first one, and no empty entry. -/
def osEnviron (seen : List Bytes) : Environ → Environ
  | [] => []
  | entry :: entries =>
    match indexByte entry Byte.equals with
    | none => if entry.length == 0 then osEnviron seen entries else entry :: osEnviron seen entries
    | some eq =>
        let k := entry.take eq
        if seen.contains k then osEnviron seen entries
        else entry :: osEnviron (k :: seen) entries

def seedEnv (environ : Environ) : EnvMap := (osEnviron [] environ).foldl seedEntry ∅

/-- `p.envMap[name]`: what is written for a reference, or a diagnostic. -/
def resolve (env : EnvMap) (path : Bytes) (lineno : Nat) (name : Bytes) : Bytes × Out Int64 :=
  match env.lookup name with
  | some value => (value, 0)
  | none => ([], Out.diag ⟨.unboundRef, some name, path, some lineno⟩)

/-- The loop of `substValue` at index `i`: what it goes on to write to `out`.
Each round but the last moves `i` past a `$`. -/
def substLoop (env : EnvMap) (path : Bytes) (lineno : Nat) (value : Bytes) :
    Nat → Nat → Bytes × Out Int64
  | 0, _ => ([], 0)
  | rounds + 1, i =>
    if i < value.length then
      match indexByte (value.drop i) Byte.dollar with
      | none => (value.drop i, 0)
      | some found =>
        let pos := found + i
        let before := (value.take pos).drop i
        if pos + 1 ≥ value.length then (before ++ [Byte.dollar], 0)
        else
          let rest := value.drop (pos + 1)
          if rest.head? == some Byte.lbrace then
            match indexByte (rest.drop 1) Byte.rbrace with
            | none => (before ++ Byte.dollar :: rest, 0)
            | some close =>
                let resolved := resolve env path lineno ((rest.take (close + 1)).drop 1)
                let tail := substLoop env path lineno value rounds (pos + close + 3)
                (before ++ resolved.1 ++ tail.1, resolved.2 + tail.2)
          else if !rest.head?.any isNameStart then
            let tail := substLoop env path lineno value rounds (pos + 1)
            (before ++ Byte.dollar :: tail.1, tail.2)
          else
            let j := 1 + ((rest.drop 1).takeWhile isNameContinue).length
            let resolved := resolve env path lineno (rest.take j)
            let tail := substLoop env path lineno value rounds (pos + 1 + j)
            (before ++ resolved.1 ++ tail.1, resolved.2 + tail.2)
    else ([], 0)

def substValue (path : Bytes) (lineno : Nat) (value : Bytes) (env : EnvMap) : Bytes × Out Int64 :=
  substLoop env path lineno value (value.length + 1) 0

section Record

variable (cfg : Knobs) (path : Bytes) (lineno : Nat)

def handleRecord (key rawValue value : Bytes) : Step EnvMap (Out Int64) := fun env =>
  if cfg.action = some .dump then (env, Out.print key value)
  else if cfg.action = some .validate ∨ cfg.action = some .normalize then (env, 0)
  else
    let resolved :=
      if cfg.native || !(rawValue.head? == some Byte.squote) then
        substValue path lineno value env
      else (value, 0)
    (env.insert key resolved.1,
      resolved.2 + if cfg.action = some .delta then Out.print key resolved.1 else 0)

def isBlankSpacesTabs (line : Bytes) : Bool :=
  line.all fun c => !(c != Byte.space && c != Byte.tab)

/-- The loop over the lines, from `work := line` on. -/
def processRecord (line trimmed rawValue : Bytes) : Step EnvMap (Out Int64) :=
  let work := if cfg.native then line else trimmed
  match indexByte work Byte.equals with
  | none => Step.emit (diag path lineno .noEquals)
  | some eq2 =>
    let key := work.take eq2
    let value := work.drop (eq2 + 1)
    if cfg.native then
      if key.length == 0 then Step.emit (diag path lineno .emptyKey)
      else handleRecord cfg path lineno key rawValue value
    else if key.head?.any isBlank then Step.emit (diag path lineno .keyLeadingWhitespace)
    else if key.getLast?.any isBlank then Step.emit (diag path lineno .keyTrailingWhitespace)
    else if value.head?.any isBlank then Step.emit (diag path lineno .valueLeadingWhitespace)
    else if key.length == 0 then Step.emit (diag path lineno .emptyKey)
    else if !validShellKey key then Step.emit (diag path lineno .keyInvalid)
    else
      match unquoteShellValue path lineno value with
      | (none, out) => Step.emit out
      | (some unquoted, out) =>
          Step.prepend out (handleRecord cfg path lineno key rawValue unquoted)

/-- The body of the loop over the lines. -/
def processLine (line : Bytes) : Step EnvMap (Out Int64) :=
  let trimmed := trimCr line
  Step.prepend (Out.hand line lineno)
    (if isBlankSpacesTabs trimmed then Step.skip
    else if trimmed.head? == some Byte.hash then Step.skip
    else Step.prepend Out.check
      (match indexByte line Byte.equals with
      | none => Step.emit (diag path lineno .noEquals)
      | some eq =>
          let rawKey := line.take eq
          let rawValue := line.drop (eq + 1)
          if cfg.action = some .normalize then Step.emit (Out.print rawKey rawValue)
          else processRecord cfg path lineno line trimmed rawValue))

end Record

/-- The inner loop of the join: the logical line, the lines after it, and the
index past it. -/
def gather (line : Bytes) : List Bytes → Nat → Bytes × List Bytes × Nat
  | [], i => (line, [], i)
  | next :: lines, i =>
    if isContinuation line then gather (line.take (line.length - 1) ++ next) lines (i + 1)
    else (line, next :: lines, i)

/-- The join, at index `i`: the logical lines with the number of the last
physical line of each. -/
def joinLines : Nat → List Bytes → Nat → List (Bytes × Nat)
  | 0, _, _ => []
  | _ + 1, [], _ => []
  | rounds + 1, line :: lines, i =>
    let joined := gather line lines (i + 1)
    (joined.1, joined.2.2) :: joinLines rounds joined.2.1 joined.2.2

/-- `lines`, each with its number from `i + 1` on. -/
def numberLines (i : Nat) : List Bytes → List (Bytes × Nat)
  | [] => []
  | line :: lines => (line, i + 1) :: numberLines (i + 1) lines

/-- Strip the CR of every line if every line has one. -/
def stripCrlf (lines : List Bytes) : List Bytes :=
  if lines.length > 0 && lines.all fun l => l.getLast? == some Byte.cr then
    lines.map fun l => l.take (l.length - 1)
  else lines

/-- The BOM pass. -/
def bomPass (cfg : Knobs) : List Bytes → Except Code (List Bytes)
  | [] => .ok []
  | first :: others =>
    if bomBytes.isPrefixOf first then
      match cfg.bom with
      | .reject => .error .fileBom
      | .strip => .ok (first.drop 3 :: others)
      | .literal => .ok (first :: others)
    else .ok (first :: others)

/-- `processFile` up to the join: the lines of a file, or the code it is
rejected with. -/
def readLines (cfg : Knobs) (fileBytes : Bytes) : Except Code (List Bytes) :=
  if cfg.nulReject && (indexByte fileBytes Byte.nul).isSome then .error .fileNul
  else
    (bomPass cfg (splitLines fileBytes)).map fun lines =>
      if cfg.crlfStrip then stripCrlf lines else lines

def processFile (cfg : Knobs) (path fileBytes : Bytes) : Step EnvMap (Out Int64) :=
  match readLines cfg fileBytes with
  | .error code => Step.emit (fdiag path code)
  | .ok lines =>
      let proc := if cfg.contAccept then joinLines lines.length lines 0 else numberLines 0 lines
      Step.run (fun p => processLine cfg path p.2 p.1) proc

/-- One round of the loop over the file arguments; `readPath` fails when the
file does not open or cannot be read to its end. -/
def processArg (cfg : Knobs) (file : File) : Step EnvMap (Out Int64) :=
  if !file.opens || file.failed then Step.emit (fdiag file.path .fileUnreadable)
  else processFile cfg file.path file.contents

/-- The last loop of `main`: the keys of the map without the `ENVFILE_` ones,
sorted. -/
def emitSorted (env : EnvMap) : List Binding :=
  ((env.keys.filter fun k => !envfilePrefix.isPrefixOf k).mergeSort fun a b => decide (a ≤ b)).map
    fun k => (k, (env.lookup k).getD [])

def initialMap (cfg : Knobs) (environ : Environ) : EnvMap :=
  if cfg.action = some .delta ∨ cfg.action = some .apply then seedEnv environ else ∅

/-- `main` after the configuration. -/
def runFiles (cfg : Knobs) (environ : Environ) (files : List File) : Report Int64 :=
  let run := Step.run (processArg cfg) files (initialMap cfg environ)
  let total := run.2 +
    if cfg.action = some .apply then { (0 : Out Int64) with stdout := emitSorted run.1 } else 0
  ⟨total, if total.errors > 0 then 1 else 0⟩

def main (environ : Environ) (stdin : File) (args : List File) : Except Fatal (Report Int64) :=
  (readKnobs environ).map fun cfg =>
    runFiles cfg environ (if args.isEmpty then [{ stdin with path := [Byte.dash] }] else args)

end Envfile.Go
