/-
# `Envfile.Port.Program` — the record loop the Rust and Zig programs share

`process_file` of `src/rust/main.rs` and `processOneFile` of
`src/zig/main.zig` treat a line test by test in the same order, substitute with
the same walk over an index, and hand an accepted record on in the same way.
What differs is a `Port`: the bytes it takes for whitespace, and its table.
The functions here are the common text, under the Rust names; the two programs
apply them to their own `Port`.
-/
import Envfile.Config
import Envfile.Output
import Envfile.Lib.Step

namespace Envfile

/-- What the programs differ in, the table being of type `σ`. -/
structure Port (σ : Type) where
  isWhitespace : UInt8 → Bool
  get : σ → Bytes → Option Bytes
  set : σ → Bytes → Bytes → σ

namespace Port

variable {σ ι : Type} [AddMonoidWithOne ι]

def diag (path : Bytes) (lineno : Nat) (code : Code) : Out ι :=
  Out.diag ⟨code, none, path, some lineno⟩

def validShellKey (key : Bytes) : Bool :=
  match key with
  | [] => false
  | first :: others => isNameStart first && others.all isNameRest

/-- A byte no unquoted value may contain. -/
def isBadUnquoted (c : UInt8) : Bool :=
  c == Byte.space || c == Byte.tab || c == Byte.squote || c == Byte.dquote || c == Byte.backslash

/-- The value, or the code it is rejected with. -/
def unquoteShellValue (value : Bytes) : Except Code Bytes :=
  match value with
  | [] => .ok []
  | c :: rest =>
    if c == Byte.dquote || c == Byte.squote then
      match rest.idxOf? c with
      | some pos =>
          if pos + 1 != rest.length then .error .trailingContent else .ok (rest.take pos)
      | none =>
          .error (if c == Byte.dquote then .doubleQuoteUnterminated else .singleQuoteUnterminated)
    else if value.any isBadUnquoted then .error .valueInvalidChar
    else .ok value

section Table

variable (port : Port σ)

/-- A line of whitespace only. -/
def isBlank (line : Bytes) : Bool := line.all port.isWhitespace

/-- What is written for a reference, or a diagnostic. -/
def resolve (env : σ) (path : Bytes) (lineno : Nat) (name : Bytes) : Bytes × Out ι :=
  match port.get env name with
  | some value => (value, 0)
  | none => ([], Out.diag ⟨.unboundRef, some name, path, some lineno⟩)

/-- The loop of `subst_value` at index `i`: what it goes on to append to
`out`.  Each round but the last moves `i` past a `$`. -/
def substLoop (env : σ) (path : Bytes) (lineno : Nat) (value : Bytes) :
    Nat → Nat → Bytes × Out ι
  | 0, _ => ([], 0)
  | rounds + 1, i =>
    if i < value.length then
      match (value.drop i).idxOf? Byte.dollar with
      | none => (value.drop i, 0)
      | some found =>
        let pos := found + i
        let before := (value.take pos).drop i
        if pos + 1 ≥ value.length then (before ++ [Byte.dollar], 0)
        else
          let rest := value.drop (pos + 1)
          if rest.head? == some Byte.lbrace then
            match (rest.drop 1).idxOf? Byte.rbrace with
            | none => (before ++ Byte.dollar :: rest, 0)
            | some close =>
                let resolved := port.resolve env path lineno ((rest.take (close + 1)).drop 1)
                let tail := substLoop env path lineno value rounds (pos + close + 3)
                (before ++ resolved.1 ++ tail.1, resolved.2 + tail.2)
          else if !rest.head?.any isNameStart then
            let tail := substLoop env path lineno value rounds (pos + 1)
            (before ++ Byte.dollar :: tail.1, tail.2)
          else
            let j := 1 + ((rest.drop 1).takeWhile isNameRest).length
            let resolved := port.resolve env path lineno (rest.take j)
            let tail := substLoop env path lineno value rounds (pos + 1 + j)
            (before ++ resolved.1 ++ tail.1, resolved.2 + tail.2)
    else ([], 0)

def substValue (path : Bytes) (lineno : Nat) (value : Bytes) (env : σ) : Bytes × Out ι :=
  port.substLoop env path lineno value (value.length + 1) 0

variable (cfg : Knobs) (path : Bytes) (lineno : Nat)

def handleRecord (key rawValue value : Bytes) : Step σ (Out ι) := fun env =>
  if cfg.action = some .dump then (env, Out.print key value)
  else if cfg.action = some .validate ∨ cfg.action = some .normalize then (env, 0)
  else
    let resolved :=
      if cfg.native || !(rawValue.head? == some Byte.squote) then
        port.substValue path lineno value env
      else (value, 0)
    (port.set env key resolved.1,
      resolved.2 + if cfg.action = some .delta then Out.print key resolved.1 else 0)

/-- The loop over the lines, from `work` on. -/
def processRecord (line trimmed rawValue : Bytes) : Step σ (Out ι) :=
  let work := if cfg.native then line else trimmed
  match work.idxOf? Byte.equals with
  | none => Step.emit (diag path lineno .noEquals)
  | some eq2 =>
    let key := work.take eq2
    let value := work.drop (eq2 + 1)
    if cfg.native then
      if key.length == 0 then Step.emit (diag path lineno .emptyKey)
      else port.handleRecord cfg path lineno key rawValue value
    else if key.head?.any port.isWhitespace then
      Step.emit (diag path lineno .keyLeadingWhitespace)
    else if key.getLast?.any port.isWhitespace then
      Step.emit (diag path lineno .keyTrailingWhitespace)
    else if value.head?.any port.isWhitespace then
      Step.emit (diag path lineno .valueLeadingWhitespace)
    else if key.length == 0 then Step.emit (diag path lineno .emptyKey)
    else if !validShellKey key then Step.emit (diag path lineno .keyInvalid)
    else
      match unquoteShellValue value with
      | .error code => Step.emit (diag path lineno code)
      | .ok unquoted => port.handleRecord cfg path lineno key rawValue unquoted

/-- The body of the loop over the lines. -/
def processLine (line : Bytes) : Step σ (Out ι) :=
  let trimmed := trimCr line
  Step.prepend (Out.hand line lineno)
    (if port.isBlank trimmed then Step.skip
    else if trimmed.head? == some Byte.hash then Step.skip
    else Step.prepend Out.check
      (match line.idxOf? Byte.equals with
      | none => Step.emit (diag path lineno .noEquals)
      | some eq =>
          let rawKey := line.take eq
          let rawValue := line.drop (eq + 1)
          if cfg.action = some .normalize then Step.emit (Out.print rawKey rawValue)
          else port.processRecord cfg path lineno line trimmed rawValue))

end Table

end Port

end Envfile
