/-
# `Envfile.Sh.Program` — `bin/envfile.sh`

The shell script up to its main part, one Lean function for each of its
functions.  The environment is the text of the file `$ENV_STORE`, which is read
from the start for each reference and written anew for each binding; it is the
state of a step.  `$checked` and `$errors` are the counters of the output.

A file is read with `while IFS= read -r line || [ -n "$line" ]`.  `read` takes
a line and fails where no newline ends it; what it has read by then is a last
line unless it is empty.  No NUL gets here: a file with one has been rejected,
or the reference has been run in place of the script.
-/
import Envfile.Config
import Envfile.Output
import Envfile.Lib.Step

namespace Envfile.Sh

/-! ## Reading lines -/

/-- `IFS= read -r line`: the line, what is left of the input, and whether a
newline ended the line. -/
def read (input : Bytes) : Bytes × Bytes × Bool :=
  match input.idxOf? Byte.nl with
  | some i => (input.take i, input.drop (i + 1), true)
  | none => (input, [], false)

/-- The lines the loop runs over.  Each round but the last takes a byte. -/
def loop : Nat → Bytes → List Bytes
  | 0, _ => []
  | rounds + 1, input =>
    let line := (read input).1
    if (read input).2.2 || line.length > 0 then line :: loop rounds (read input).2.1 else []

def readLines (input : Bytes) : List Bytes := loop (input.length + 1) input

/-- `printf '%s\n' "$line"`. -/
def printLine (line : Bytes) : Bytes := line ++ [Byte.nl]

/-! ## The patterns -/

/-- `case "$line" in *=*)`. -/
def hasEquals (line : Bytes) : Bool := line.contains Byte.equals

/-- `${line%%=*}`. -/
def beforeEquals (line : Bytes) : Bytes := line.takeWhile (· != Byte.equals)

/-- `${line#*=}`, the line itself if it has no `=`. -/
def afterEquals (line : Bytes) : Bytes :=
  match line.idxOf? Byte.equals with
  | none => line
  | some i => line.drop (i + 1)

/-- `case "$line" in "$name"=*)`. -/
def bindsName (name line : Bytes) : Bool := (name ++ [Byte.equals]).isPrefixOf line

/-- `case "$line" in ENVFILE_*=*)`. -/
def isEnvfileLine (line : Bytes) : Bool :=
  envfilePrefix.isPrefixOf line && hasEquals (line.drop envfilePrefix.length)

/-- `[[:space:]]`. -/
def isSpace (c : UInt8) : Bool :=
  c == Byte.space || c == Byte.tab || c == Byte.nl || c == Byte.cr || c == 0x0b || c == 0x0c

/-! ## The file of the environment -/

/-- What `env` prints. -/
def envOutput (environ : Environ) : Bytes := (environ.map printLine).flatten

/-- `init_env_store`.  Here the loop is `while IFS= read -r line`, and every
line of its input has a newline. -/
def initEnvStore (environ : Environ) : Bytes :=
  (((readLines (envOutput environ)).filter fun line =>
    !isEnvfileLine line && hasEquals line).map printLine).flatten

/-- `env_get`: `$ENVVAL`, if it is found. -/
def envGet (store name : Bytes) : Option Bytes :=
  (readLines store).foldl (fun found line =>
    if bindsName name line then some (afterEquals line) else found) none

/-- `env_set`. -/
def envSet (store name val : Bytes) : Bytes :=
  (((readLines store).filter fun line =>
      !bindsName name line && hasEquals line).map printLine).flatten ++
    printLine (name ++ Byte.equals :: val)

/-! ## subst_value -/

def diag (path : Bytes) (lineno : Nat) (code : Code) : Out Int64 :=
  Out.diag ⟨code, none, path, some lineno⟩

def fdiag (display : Bytes) (code : Code) : Out Int64 := Out.diag ⟨code, none, display, none⟩

/-- `if env_get "$name"; then … else …`. -/
def resolve (store path : Bytes) (lineno : Nat) (name : Bytes) : Bytes × Out Int64 :=
  match envGet store name with
  | some value => (value, 0)
  | none => ([], Out.diag ⟨.unboundRef, some name, path, some lineno⟩)

/-- The loop of `subst_value`: what it goes on to append to `out`.  Each round
but the last takes at least the `$`. -/
def substLoop (store path : Bytes) (lineno : Nat) : Nat → Bytes → Bytes × Out Int64
  | 0, _ => ([], 0)
  | rounds + 1, val =>
    match val.idxOf? Byte.dollar with
    | none => (val, 0)
    | some pos =>
      let before := val.take pos
      let rest := val.drop (pos + 1)
      if rest.head? == some Byte.lbrace then
        let after := rest.drop 1
        match after.idxOf? Byte.rbrace with
        | none => (before ++ Byte.dollar :: rest, 0)
        | some close =>
          let found := resolve store path lineno (after.take close)
          let tail := substLoop store path lineno rounds (after.drop (close + 1))
          (before ++ found.1 ++ tail.1, found.2 + tail.2)
      else if rest.head?.any isNameStart then
        let name := rest.takeWhile isNameRest
        let found := resolve store path lineno name
        let tail := substLoop store path lineno rounds (rest.drop name.length)
        (before ++ found.1 ++ tail.1, found.2 + tail.2)
      else
        let tail := substLoop store path lineno rounds rest
        (before ++ Byte.dollar :: tail.1, tail.2)

def substValue (val path : Bytes) (lineno : Nat) (store : Bytes) : Bytes × Out Int64 :=
  substLoop store path lineno (val.length + 1) val

/-! ## do_delta, validate_line -/

section Record

variable (cfg : Knobs)

def doDelta (key raw value path : Bytes) (lineno : Nat) : Step Bytes (Out Int64) := fun store =>
  if cfg.action = some .validate ∨ cfg.action = some .normalize ∨ cfg.action = some .dump then
    (store, 0)
  else
    let resolved :=
      if cfg.native || !(raw.head? == some Byte.squote) then substValue value path lineno store
      else (value, 0)
    (envSet store key resolved.1,
      resolved.2 + if cfg.action = some .delta then Out.print key resolved.1 else 0)

/-- The two lines that end `validate_line` for an accepted record. -/
def accept (k raw value display : Bytes) (lineno : Nat) : Step Bytes (Out Int64) :=
  Step.prepend (if cfg.action = some .dump then Out.print k value else 0)
    (doDelta cfg k raw value display lineno)

/-- `valid_shell_key`. -/
def validShellKey (key : Bytes) : Bool := isName key

/-- `*" "*|*"$TAB"*|*"'"*|*'"'*|*'\'*`. -/
def isBadUnquoted (c : UInt8) : Bool :=
  c == Byte.space || c == Byte.tab || c == Byte.squote || c == Byte.dquote || c == Byte.backslash

/-- The value without its quotes, or the code it is rejected with. -/
def unquote (v : Bytes) : Except Code Bytes :=
  match v with
  | [] => .ok []
  | c :: rest =>
    if c == Byte.dquote || c == Byte.squote then
      match rest.idxOf? c with
      | none =>
          .error (if c == Byte.dquote then .doubleQuoteUnterminated else .singleQuoteUnterminated)
      | some pos =>
          if (rest.drop (pos + 1)).length > 0 then .error .trailingContent
          else .ok (rest.take pos)
    else if v.any isBadUnquoted then .error .valueInvalidChar
    else .ok v

/-- `validate_line`, from `work` on. -/
def validateWork (display : Bytes) (lineno : Nat) (rawV work : Bytes) :
    Step Bytes (Out Int64) :=
  if !hasEquals work then Step.emit (diag display lineno .noEquals)
  else
    let k := beforeEquals work
    let v := afterEquals work
    if cfg.native then
      if k.length == 0 then Step.emit (diag display lineno .emptyKey)
      else accept cfg k v v display lineno
    else if k.head?.any isSpace then Step.emit (diag display lineno .keyLeadingWhitespace)
    else if k.getLast?.any isSpace then Step.emit (diag display lineno .keyTrailingWhitespace)
    else if v.head?.any isSpace then Step.emit (diag display lineno .valueLeadingWhitespace)
    else if k.length == 0 then Step.emit (diag display lineno .emptyKey)
    else if !validShellKey k then Step.emit (diag display lineno .keyInvalid)
    else
      match unquote v with
      | .error code => Step.emit (diag display lineno code)
      | .ok value => accept cfg k rawV value display lineno

def validateLine (display : Bytes) (lineno : Nat) (line : Bytes) : Step Bytes (Out Int64) :=
  let trimmed := trimCr line
  Step.prepend (Out.hand line lineno)
    (if trimmed.all isBlank then Step.skip
    else if trimmed.head? == some Byte.hash then Step.skip
    else Step.prepend Out.check
      (if !hasEquals line then Step.emit (diag display lineno .noEquals)
      else if cfg.action = some .normalize then
        Step.emit (Out.print (beforeEquals line) (afterEquals line))
      else
        validateWork cfg display lineno (afterEquals line)
          (if cfg.native then line else trimmed)))

end Record

/-! ## process_file -/

/-- `[ -z "$line" ] || case "$line" in *"$CR") ;; *) all_crlf=0` -/
def allCrlf (input : Bytes) : Bool :=
  (readLines input).all fun line => line.length == 0 || line.getLast? == some Byte.cr

/-- The input after the CRLF pass; `${line%$CR}` is the line without its CR. -/
def stripCrlf (input : Bytes) : Bytes :=
  if allCrlf input then ((readLines input).map fun line => trimCr line ++ [Byte.nl]).flatten
  else input

/-- `${s%\\}`. -/
def stripBackslash (s : Bytes) : Bytes :=
  if s.getLast? == some Byte.backslash then s.dropLast else s

/-- The loop that counts trailing backslashes: what it adds to `bs`. -/
def countBackslashes : Nat → Bytes → Nat
  | 0, _ => 0
  | rounds + 1, s =>
    if s.getLast? == some Byte.backslash then countBackslashes rounds (stripBackslash s) + 1 else 0

/-- The loop of the join: the lines it prints.  What is held at the end is
printed behind the loop. -/
def joinLoop (hold : Bytes) : List Bytes → List Bytes
  | [] => if hold.isEmpty then [] else [hold]
  | line :: lines =>
    let line := if hold.isEmpty then line else stripBackslash hold ++ line
    if countBackslashes line.length line % 2 == 1 then joinLoop line lines
    else line :: joinLoop [] lines

/-- The input after the join. -/
def joinContinuations (input : Bytes) : Bytes :=
  ((joinLoop [] (readLines input)).map printLine).flatten

/-- The passes of `process_file`: its `$input` in the end, `input` being the
bytes of the file. -/
def passes (cfg : Knobs) (input : Bytes) : Except Code Bytes :=
  if cfg.nulReject && input.contains Byte.nul then .error .fileNul
  else if input.take 3 == bomBytes && cfg.bom == .reject then .error .fileBom
  else
    let input := if input.take 3 == bomBytes && cfg.bom == .strip then input.drop 3 else input
    let input := if cfg.crlfStrip then stripCrlf input else input
    .ok (if cfg.contAccept then joinContinuations input else input)

/-- The lines numbered from `n + 1` on. -/
def numberLines (n : Nat) : List Bytes → List (Bytes × Nat)
  | [] => []
  | line :: lines => (line, n + 1) :: numberLines (n + 1) lines

def processFile (cfg : Knobs) (display input : Bytes) : Step Bytes (Out Int64) :=
  match passes cfg input with
  | .error code => Step.emit (fdiag display code)
  | .ok input =>
      Step.run (fun p => validateLine cfg display p.2 p.1) (numberLines 0 (readLines input))

end Envfile.Sh
