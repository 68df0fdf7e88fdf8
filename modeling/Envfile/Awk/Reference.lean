/-
# `Envfile.Awk.Reference` — `bin/envfile.awk`

The reference implementation, one Lean function for each of its functions.
Strings are byte strings (`LC_ALL=C`) and pass every byte through.  The
globals `env`, `checked` and `errors` are the state and the output of a step;
the other globals are the configuration.

`index`, `substr` and the anchored `match` are AWK's own, with its 1-based
positions.  `getline` yields the newline-delimited lines of a file, a last
line without newline included.
-/
import Envfile.Config
import Envfile.Output
import Envfile.Lib.Lines
import Envfile.Lib.Step
import Mathlib.Data.List.AList

namespace Envfile.Awk

/-! ## The built-in functions -/

/-- `index(s, t)`: where `t` first occurs in `s`, from 1; 0 if it does not. -/
def index (s t : Bytes) : Nat :=
  match s.tails.findIdx? (t.isPrefixOf ·) with
  | none => 0
  | some i => i + 1

/-- `substr(s, m, n)`: the characters at the positions `m` to `m + n - 1`. -/
def substr (s : Bytes) (m n : Nat) : Bytes :=
  if m = 0 then s.take (n - 1) else (s.drop (m - 1)).take n

/-- `substr(s, m)`. -/
def substrFrom (s : Bytes) (m : Nat) : Bytes := s.drop (m - 1)

/-- `RLENGTH` after `match(s, /^[A-Za-z_][A-Za-z0-9_]*/)`; 0 stands for the -1
of a failed match. -/
def matchName : Bytes → Nat
  | [] => 0
  | c :: s => if isNameStart c then 1 + (s.takeWhile isNameRest).length else 0

/-- `s ~ /^[ \t]/`. -/
def startsBlank (s : Bytes) : Bool := s.head?.any isBlank

/-- `s ~ /[ \t]$/`. -/
def endsBlank (s : Bytes) : Bool := s.getLast?.any isBlank

/-- The associative array `env`. -/
abbrev EnvArray := AList fun _ : Bytes => Bytes

/-- `ENVIRON`, of the entries that have an `=`. -/
def environArray (environ : Environ) : EnvArray :=
  environ.foldl (fun env entry =>
    match memchr entry Byte.equals with
    | none => env
    | some n => env.insert (entry.take n) (entry.drop (n + 1))) ∅

/-! ## subst -/

def diag (code : Code) (path : Bytes) (lineno : Nat) : Out Nat :=
  Out.diag ⟨code, none, path, some lineno⟩

/-- The tail of the loop body: `if (name in env) … else …`. -/
def lookup (env : EnvArray) (path : Bytes) (lineno : Nat) (name : Bytes) : Bytes × Out Nat :=
  match env.lookup name with
  | some value => (value, 0)
  | none => ([], Out.diag ⟨.unboundRef, some name, path, some lineno⟩)

/-- The loop of `subst`: what it goes on to append to `out`.  Each round but
the last takes at least the `$`. -/
def substLoop (env : EnvArray) (path : Bytes) (lineno : Nat) : Nat → Bytes → Bytes × Out Nat
  | 0, _ => ([], 0)
  | rounds + 1, val =>
    if val.length > 0 then
      let pos := index val [Byte.dollar]
      if pos = 0 then (val, 0)
      else
        let before := substr val 1 (pos - 1)
        let rest := substrFrom val (pos + 1)
        if substr rest 1 1 == [Byte.lbrace] then
          let brace := index (substrFrom rest 2) [Byte.rbrace]
          if brace = 0 then (before ++ Byte.dollar :: rest, 0)
          else
            let found := lookup env path lineno (substr rest 2 (brace - 1))
            let tail := substLoop env path lineno rounds (substrFrom rest (brace + 2))
            (before ++ found.1 ++ tail.1, found.2 + tail.2)
        else
          let rlength := matchName rest
          if rlength < 1 then
            let tail := substLoop env path lineno rounds rest
            (before ++ Byte.dollar :: tail.1, tail.2)
          else
            let found := lookup env path lineno (substr rest 1 rlength)
            let tail := substLoop env path lineno rounds (substrFrom rest (rlength + 1))
            (before ++ found.1 ++ tail.1, found.2 + tail.2)
    else ([], 0)

def subst (val path : Bytes) (lineno : Nat) (env : EnvArray) : Bytes × Out Nat :=
  substLoop env path lineno (val.length + 1) val

/-! ## delta, dump, unquote, validate -/

section Record

variable (cfg : Knobs) (path : Bytes) (lineno : Nat)

def delta (k raw value : Bytes) : Step EnvArray (Out Nat) := fun env =>
  if cfg.action = some .validate then (env, 0)
  else
    let value :=
      if cfg.native || substr raw 1 1 != [Byte.squote] then subst value path lineno env
      else (value, 0)
    (env.insert k value.1,
      value.2 + if cfg.action = some .delta then Out.print k value.1 else 0)

/-- The string `unquote` returns on an error it has reported. -/
def sentinel : Bytes := [Byte.soh]

def dump (k raw value : Bytes) : Step EnvArray (Out Nat) := fun env =>
  if value == sentinel then (env, 0)
  else if cfg.action = some .dump then (env, Out.print k value)
  else delta cfg path lineno k raw value env

/-- `[ \t'"\\]`. -/
def isBadUnquoted (c : UInt8) : Bool :=
  isBlank c || c == Byte.squote || c == Byte.dquote || c == Byte.backslash

def unquote (v : Bytes) : Bytes × Out Nat :=
  if v.length = 0 then (v, 0)
  else
    let c := substr v 1 1
    if c == [Byte.dquote] || c == [Byte.squote] then
      let rest := substrFrom v 2
      let pos := index rest c
      if pos = 0 then
        (sentinel, diag (if c == [Byte.dquote] then .doubleQuoteUnterminated
          else .singleQuoteUnterminated) path lineno)
      else if pos < rest.length then (sentinel, diag .trailingContent path lineno)
      else (substr rest 1 (pos - 1), 0)
    else if v.any isBadUnquoted then (sentinel, diag .valueInvalidChar path lineno)
    else (v, 0)

/-- `validate`, from `checked++` on. -/
def validateRecord (line : Bytes) : Step EnvArray (Out Nat) :=
  let eq := index line [Byte.equals]
  let k := substr line 1 (eq - 1)
  let v := substrFrom line (eq + 1)
  if cfg.native then
    if eq = 0 then Step.emit (diag .noEquals path lineno)
    else if cfg.action = some .normalize then Step.emit (Out.print k v)
    else if k == [] then Step.emit (diag .emptyKey path lineno)
    else dump cfg path lineno k v v
  else
    if eq = 0 then Step.emit (diag .noEquals path lineno)
    else if cfg.action = some .normalize then Step.emit (Out.print k v)
    else if k == [] then Step.emit (diag .emptyKey path lineno)
    else if startsBlank k then Step.emit (diag .keyLeadingWhitespace path lineno)
    else if endsBlank k then Step.emit (diag .keyTrailingWhitespace path lineno)
    else if startsBlank v then Step.emit (diag .valueLeadingWhitespace path lineno)
    else if !isName k then Step.emit (diag .keyInvalid path lineno)
    else
      -- AWK evaluates the argument `unquote(…)` before it calls `dump`
      let value := unquote path lineno v
      Step.prepend value.2 (dump cfg path lineno k v value.1)

def validate (line : Bytes) : Step EnvArray (Out Nat) :=
  let trimmed := trimCr line
  Step.prepend (Out.hand line lineno)
    (if trimmed.all isBlank || [Byte.hash].isPrefixOf trimmed then Step.skip
    else Step.prepend Out.check (validateRecord cfg path lineno line))

end Record

/-! ## normalize -/

/-- The loop of `is_continuation`, at position `j`. -/
def countBackslashes (line : Bytes) : Nat → Nat
  | 0 => 0
  | j + 1 =>
    if substr line (j + 1) 1 == [Byte.backslash] then countBackslashes line j + 1 else 0

def isContinuation (line : Bytes) : Bool := countBackslashes line line.length % 2 == 1

/-- The inner loop of the join: the logical line, the lines after it, and the
index `i` past it. -/
def gather (line : Bytes) : List Bytes → Nat → Bytes × List Bytes × Nat
  | [], i => (line, [], i)
  | next :: lines, i =>
    if isContinuation line then gather (substr line 1 (line.length - 1) ++ next) lines (i + 1)
    else (line, next :: lines, i)

/-- The outer loop of the join, at line `i`: what it passes to `validate`. -/
def joinLoop (cont : Bool) : Nat → List Bytes → Nat → List (Bytes × Nat)
  | 0, _, _ => []
  | _ + 1, [], _ => []
  | rounds + 1, line :: lines, i =>
    let joined := if cont then gather line lines (i + 1) else (line, lines, i + 1)
    (joined.1, joined.2.2 - 1) :: joinLoop cont rounds joined.2.1 joined.2.2

/-- Strip the CR of every line if every line has one. -/
def stripCrlf (lines : List Bytes) : List Bytes :=
  if lines.all fun l => substr l l.length 1 == [Byte.cr] then
    lines.map fun l => substr l 1 (l.length - 1)
  else lines

/-- The BOM pass on the lines read. -/
def bomPass (cfg : Knobs) : List Bytes → Except Code (List Bytes)
  | [] => .ok []
  | first :: others =>
    if index first bomBytes = 1 then
      match cfg.bom with
      | .reject => .error .fileBom
      | .strip => .ok (substrFrom first 4 :: others)
      | .literal => .ok (first :: others)
    else .ok (first :: others)

/-- `normalize` up to the join: the lines of a file, or the code it is rejected
with.  The NUL test is made on each line as it is read, so it comes before a
read error. -/
def readLines (cfg : Knobs) (file : File) : Except Code (List Bytes) :=
  let lines := if file.opens then Lines.lines Byte.nl file.contents else []
  if cfg.nulReject && lines.any fun raw => index raw [Byte.nul] > 0 then .error .fileNul
  else if !file.opens || file.failed then .error .fileUnreadable
  else
    (bomPass cfg lines).map fun lines => if cfg.crlfStrip then stripCrlf lines else lines

def normalize (cfg : Knobs) (file : File) : Step EnvArray (Out Nat) :=
  match readLines cfg file with
  | .error code => Step.emit (Out.diag ⟨code, none, file.path, none⟩)
  | .ok lines =>
      Step.run (fun p => validate cfg file.path p.2 p.1)
        (joinLoop cfg.contAccept lines.length lines 1)

/-! ## emit_env_sorted and BEGIN -/

/-- `tmp = keys[i]; keys[i] = keys[j]; keys[j] = tmp`, positions from 0. -/
def swap (keys : List Bytes) (i j : Nat) : List Bytes :=
  (keys.set i (keys.getD j [])).set j (keys.getD i [])

/-- The inner loop of the sort, at `j`. -/
def sortInner (i : Nat) : Nat → Nat → List Bytes → List Bytes
  | 0, _, keys => keys
  | rounds + 1, j, keys =>
    sortInner i rounds (j + 1)
      (if keys.getD j [] < keys.getD i [] then swap keys i j else keys)

/-- The outer loop of the sort, at `i`. -/
def sortOuter : Nat → Nat → List Bytes → List Bytes
  | 0, _, keys => keys
  | rounds + 1, i, keys =>
    sortOuter rounds (i + 1) (sortInner i (keys.length - (i + 1)) (i + 1) keys)

/-- `emit_env_sorted`, `order` being the order in which `for (k in env)` yields
the keys. -/
def emitEnvSorted (env : EnvArray) (order : List Bytes) : List Binding :=
  let keys := order.filter fun k => substr k 1 8 != envfilePrefix
  (sortOuter keys.length 0 keys).map fun k => (k, (env.lookup k).getD [])

/-- `ARGV[i]`, with `-` replaced. -/
def argPath (path : Bytes) : Bytes :=
  if path == [Byte.dash] then ascii "/dev/stdin" else path

def initialEnv (cfg : Knobs) (environ : Environ) : EnvArray :=
  if cfg.action = some .delta ∨ cfg.action = some .apply then
    (environArray environ).entries.foldl (fun env b =>
      if substr b.1 1 8 != envfilePrefix then env.insert b.1 b.2 else env) ∅
  else ∅

/-- The rest of `BEGIN`, `order` standing for the iteration order of `env` at
the end. -/
def runFiles (cfg : Knobs) (environ : Environ) (order : EnvArray → List Bytes)
    (files : List File) : Report Nat :=
  let args := files.map fun f => { f with path := argPath f.path }
  let run := Step.run (normalize cfg) (args.filter fun f => f.path != [])
    (initialEnv cfg environ)
  let total := run.2 +
    if cfg.action = some .apply then
      { (0 : Out Nat) with stdout := emitEnvSorted run.1 (order run.1) }
    else 0
  ⟨total, if total.errors ≠ 0 then 1 else 0⟩

def main (environ : Environ) (order : EnvArray → List Bytes) (files : List File) :
    Except Fatal (Report Nat) :=
  (readKnobs environ).map fun cfg => runFiles cfg environ order files

end Envfile.Awk
