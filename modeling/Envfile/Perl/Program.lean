/-
# `Envfile.Perl.Program` — `bin/envfile.pl`

The Perl script, one Lean function for each of its subs and one for its main part.
Files are read raw, so that strings are byte strings.  `%env` is the state of a
step, `$checked` and `$errors` are the counters of its output; the other
globals are the configuration.

A line has no newline, so that `$` in a pattern is the end of the line.
-/
import Envfile.Config
import Envfile.Output
import Envfile.Lib.Step
import Mathlib.Data.List.AList

namespace Envfile.Perl

/-- `%env`. -/
abbrev EnvHash := AList fun _ : Bytes => Bytes

def diag (f : Bytes) (n : Nat) (code : Code) : Out Nat := Out.diag ⟨code, none, f, some n⟩

def fdiag (f : Bytes) (code : Code) : Out Nat := Out.diag ⟨code, none, f, none⟩

/-- `\s` on a string of bytes. -/
def isSpace (c : UInt8) : Bool :=
  c == Byte.space || c == Byte.tab || c == Byte.nl || c == Byte.cr || c == 0x0b || c == 0x0c

/-- `index($s, $c)` for one character; `none` is -1. -/
def index (s : Bytes) (c : UInt8) : Option Nat := s.idxOf? c

/-- `split /=/, $s, 2` for a string with an `=`. -/
def splitEq (s : Bytes) : Bytes × Bytes :=
  match index s Byte.equals with
  | none => (s, [])
  | some i => (s.take i, s.drop (i + 1))

/-- `valid_shell_key`. -/
def validShellKey (key : Bytes) : Bool := isName key

/-! ## subst -/

/-- `if (exists $env{$name}) … else …`. -/
def resolve (env : EnvHash) (path : Bytes) (lineno : Nat) (name : Bytes) : Bytes × Out Nat :=
  match env.lookup name with
  | some value => (value, 0)
  | none => ([], Out.diag ⟨.unboundRef, some name, path, some lineno⟩)

/-- The loop of `subst`: what it goes on to append to `$out`.  Each round but
the last takes at least the `$`. -/
def substLoop (env : EnvHash) (path : Bytes) (lineno : Nat) : Nat → Bytes → Bytes × Out Nat
  | 0, _ => ([], 0)
  | rounds + 1, val =>
    if val.length > 0 then
      match index val Byte.dollar with
      | none => (val, 0)
      | some pos =>
        let before := val.take pos
        let rest := val.drop (pos + 1)
        if rest.take 1 == [Byte.lbrace] then
          let afterBrace := rest.drop 1
          match index afterBrace Byte.rbrace with
          | none => (before ++ Byte.dollar :: rest, 0)
          | some brace =>
            let found := resolve env path lineno (afterBrace.take brace)
            let tail := substLoop env path lineno rounds (afterBrace.drop (brace + 1))
            (before ++ found.1 ++ tail.1, found.2 + tail.2)
        else if rest.head?.any isNameStart then
          let name := rest.takeWhile isNameRest
          let found := resolve env path lineno name
          let tail := substLoop env path lineno rounds (rest.drop name.length)
          (before ++ found.1 ++ tail.1, found.2 + tail.2)
        else
          let tail := substLoop env path lineno rounds rest
          (before ++ Byte.dollar :: tail.1, tail.2)
    else ([], 0)

def subst (val path : Bytes) (lineno : Nat) (env : EnvHash) : Bytes × Out Nat :=
  substLoop env path lineno (val.length + 1) val

/-! ## do_dump, do_delta, validate_line -/

section Record

variable (cfg : Knobs)

def doDelta (k raw value path : Bytes) (lineno : Nat) : Step EnvHash (Out Nat) := fun env =>
  if cfg.action = some .validate then (env, 0)
  else
    let value :=
      if cfg.native || raw.take 1 != [Byte.squote] then subst value path lineno env
      else (value, 0)
    (env.insert k value.1,
      value.2 + if cfg.action = some .delta then Out.print k value.1 else 0)

def doDump (k raw value path : Bytes) (lineno : Nat) : Step EnvHash (Out Nat) :=
  if cfg.action = some .dump then Step.emit (Out.print k value)
  else doDelta cfg k raw value path lineno

/-- `[ \t'"\\]`. -/
def isBadUnquoted (c : UInt8) : Bool :=
  c == Byte.space || c == Byte.tab || c == Byte.squote || c == Byte.dquote || c == Byte.backslash

/-- The value without its quotes, or the code it is rejected with. -/
def unquote (v : Bytes) : Except Code Bytes :=
  match v with
  | [] => .ok v
  | c :: rest =>
    if c == Byte.dquote || c == Byte.squote then
      match index rest c with
      | none =>
          .error (if c == Byte.dquote then .doubleQuoteUnterminated else .singleQuoteUnterminated)
      | some pos =>
          if (rest.drop (pos + 1)).length > 0 then .error .trailingContent
          else .ok (rest.take pos)
    else if v.any isBadUnquoted then .error .valueInvalidChar
    else .ok v

/-- `validate_line`, from `$work` on. -/
def validateWork (display : Bytes) (lineno : Nat) (work : Bytes) : Step EnvHash (Out Nat) :=
  if !work.contains Byte.equals then Step.emit (diag display lineno .noEquals)
  else
    let k := (splitEq work).1
    let v := (splitEq work).2
    if cfg.native then
      if k == [] then Step.emit (diag display lineno .emptyKey)
      else doDump cfg k v v display lineno
    else if k.head?.any isSpace then Step.emit (diag display lineno .keyLeadingWhitespace)
    else if k.getLast?.any isSpace then Step.emit (diag display lineno .keyTrailingWhitespace)
    else if v.head?.any isSpace then Step.emit (diag display lineno .valueLeadingWhitespace)
    else if k == [] then Step.emit (diag display lineno .emptyKey)
    else if !validShellKey k then Step.emit (diag display lineno .keyInvalid)
    else
      match unquote v with
      | .error code => Step.emit (diag display lineno code)
      | .ok value => doDump cfg k v value display lineno

def validateLine (display : Bytes) (lineno : Nat) (line : Bytes) : Step EnvHash (Out Nat) :=
  let trimmed := trimCr line
  Step.prepend (Out.hand line lineno)
    (if trimmed.all isSpace then Step.skip
    else if trimmed.head? == some Byte.hash then Step.skip
    else Step.prepend Out.check
      (if line.contains Byte.equals && decide (cfg.action = some .normalize) then
        Step.emit (Out.print (splitEq line).1 (splitEq line).2)
      else validateWork cfg display lineno trimmed))

end Record

/-! ## process_file -/

/-- `split /\n/, $buf, -1`, less one empty last piece. -/
def splitLines (buf : Bytes) : List Bytes :=
  let lines := if buf.length == 0 then [] else buf.splitOn Byte.nl
  if lines.getLast? == some [] then lines.dropLast else lines

/-- The CRLF pass: every line that is not empty ends with a CR. -/
def allCrlf (lines : List Bytes) : Bool :=
  lines.all fun l => l == [] || l.getLast? == some Byte.cr

def stripCrlf (lines : List Bytes) : List Bytes :=
  if allCrlf lines then lines.map fun l => if l.length > 0 then trimCr l else l else lines

/-- The number of trailing backslashes is odd. -/
def isContinuation (l : Bytes) : Bool :=
  (l.reverse.takeWhile (· == Byte.backslash)).length % 2 == 1

/-- The loop of the join, with `$hold`. -/
def joinLoop (hold : Option Bytes) : List Bytes → List Bytes
  | [] => hold.toList
  | l :: lines =>
    let l := match hold with
      | some hold => hold.take (hold.length - 1) ++ l
      | none => l
    if isContinuation l then joinLoop (some l) lines else l :: joinLoop none lines

/-- The lines numbered from `n + 1` on. -/
def numberLines (n : Nat) : List Bytes → List (Bytes × Nat)
  | [] => []
  | line :: lines => (line, n + 1) :: numberLines (n + 1) lines

/-- `process_file` up to the lines, `buf` being the bytes of the file. -/
def readLines (cfg : Knobs) (buf : Bytes) : Except Code (List Bytes) :=
  if cfg.nulReject && (index buf Byte.nul).isSome then .error .fileNul
  else if buf.take 3 == bomBytes && cfg.bom == .reject then .error .fileBom
  else
    let buf := if buf.take 3 == bomBytes && cfg.bom == .strip then buf.drop 3 else buf
    .ok (if cfg.crlfStrip then stripCrlf (splitLines buf) else splitLines buf)

/-- The lines that are validated. -/
def logicalLines (cfg : Knobs) (lines : List Bytes) : List Bytes :=
  if cfg.contAccept then joinLoop none lines else lines

def processFile (cfg : Knobs) (display buf : Bytes) : Step EnvHash (Out Nat) :=
  match readLines cfg buf with
  | .error code => Step.emit (fdiag display code)
  | .ok lines =>
      Step.run (fun p => validateLine cfg display p.2 p.1)
        (numberLines 0 (logicalLines cfg lines))

/-- `process_file` with the slurp; of a read error nothing is reported.  A `-` is the
first one: to a second one the slurp gives no string. -/
def processArg (cfg : Knobs) (file : File) : Step EnvHash (Out Nat) :=
  if !file.opens then Step.emit (fdiag file.path .fileUnreadable)
  else processFile cfg file.path file.contents

/-! ## Main -/

/-- `%ENV`, of the entries that have an `=`. -/
def envHash (environ : Environ) : EnvHash :=
  environ.foldl (fun env entry =>
    match index entry Byte.equals with
    | none => env
    | some i => env.insert (entry.take i) (entry.drop (i + 1))) ∅

/-- `%env` before the first file. -/
def initialEnv (cfg : Knobs) (environ : Environ) : EnvHash :=
  if cfg.action = some .delta ∨ cfg.action = some .apply then
    (envHash environ).entries.foldl (fun env b =>
      if b.1.take 8 != envfilePrefix then env.insert b.1 b.2 else env) ∅
  else ∅

/-- `emit_env_sorted`. -/
def emitEnvSorted (env : EnvHash) : List Binding :=
  ((env.keys.filter fun k => k.take 8 != envfilePrefix).mergeSort fun a b => decide (a ≤ b)).map
    fun k => (k, (env.lookup k).getD [])

/-- The main part, after the configuration. -/
def runFiles (cfg : Knobs) (environ : Environ) (files : List File) : Report Nat :=
  let run := Step.run (processArg cfg) files (initialEnv cfg environ)
  let total := run.2 + if cfg.action = some .apply then Out.printAll (emitEnvSorted run.1) else 0
  ⟨total, if total.errors ≠ 0 then 1 else 0⟩

def readKnobs (environ : Environ) : Except Fatal Knobs := knobsBy (knobIfSet environ)

def main (environ : Environ) (stdin : File) (args : List File) : Except Fatal (Report Nat) :=
  (readKnobs environ).map fun cfg =>
    runFiles cfg environ (if args.isEmpty then [{ stdin with path := [Byte.dash] }] else args)

end Envfile.Perl
