/-
# `Envfile.C.Backend` — the record classifier of `src/c/backend.c`

`parseShell` and `parseNative` are the two functions of the file, under the
ABI of `src/c/envfile_backend.h`: they get the bytes of one line and answer a
status and a record.  A pointer into the line is its offset from the start of
the line, so `key` is always 0 and `value` the offset of the parsed payload.
A record the function does not fill is the caller's `{0}`.
-/
import Envfile.Output

namespace Envfile.C

/-- `EnvfileValueKind`. -/
inductive EnvfileValueKind where
  | plain
  | singleQuoted
  | doubleQuoted
deriving DecidableEq, Repr

/-- `EnvfileStatus`. -/
inductive EnvfileStatus where
  | skip
  | ok
  | errNoEquals
  | errEmptyKey
  | errKeyInvalid
  | errKeyLeadingWhitespace
  | errKeyTrailingWhitespace
  | errValueLeadingWhitespace
  | errValueInvalidChar
  | errSingleQuoteUnterminated
  | errDoubleQuoteUnterminated
  | errTrailingContent
deriving DecidableEq, Repr

/-- The values of the two enumerations in `envfile_backend.h`. -/
def EnvfileValueKind.toNat : EnvfileValueKind → Nat
  | plain => 0
  | singleQuoted => 1
  | doubleQuoted => 2

def EnvfileStatus.toNat : EnvfileStatus → Nat
  | skip => 0
  | ok => 1
  | errNoEquals => 10
  | errEmptyKey => 11
  | errKeyInvalid => 12
  | errKeyLeadingWhitespace => 13
  | errKeyTrailingWhitespace => 14
  | errValueLeadingWhitespace => 15
  | errValueInvalidChar => 16
  | errSingleQuoteUnterminated => 17
  | errDoubleQuoteUnterminated => 18
  | errTrailingContent => 19

/-- `EnvfileRecord`, its pointers as offsets into the line. -/
structure EnvfileRecord where
  key : Nat
  keyLen : Nat
  value : Nat
  valueLen : Nat
  valueKind : EnvfileValueKind
deriving DecidableEq, Repr

/-- `EnvfileRecord record = {0}`. -/
def EnvfileRecord.zero : EnvfileRecord := ⟨0, 0, 0, 0, .plain⟩

/-- What a classifier answers about a line. -/
abbrev Parse := Bytes → EnvfileStatus × EnvfileRecord

/-- The `n` bytes at offset `off`. -/
def bytesAt (s : Bytes) (off n : Nat) : Bytes := (s.drop off).take n

/-- The byte at offset `i`; every use has `i` inside the string. -/
def byteAt (s : Bytes) (i : Nat) : UInt8 := s.getD i 0

/-! ## Byte classes -/

def isAsciiUpper : UInt8 → Bool := isUpper
def isAsciiLower : UInt8 → Bool := isLower
def isAsciiAlpha (c : UInt8) : Bool := isAsciiUpper c || isAsciiLower c
def isAsciiDigit : UInt8 → Bool := isDigit
def isAsciiAlnum (c : UInt8) : Bool := isAsciiAlpha c || isAsciiDigit c
def isSpaceByte : UInt8 → Bool := isBlank

def isShellKeyStart (c : UInt8) : Bool := isAsciiAlpha c || c == Byte.underscore
def isShellKeyRest (c : UInt8) : Bool := isAsciiAlnum c || c == Byte.underscore

/-- The length of a line less one trailing CR. -/
def lenWithoutCr (s : Bytes) : Nat :=
  if s.length > 0 && byteAt s (s.length - 1) == Byte.cr then s.length - 1 else s.length

def isBlankOrCommentRecord (s : Bytes) : Bool :=
  let len := lenWithoutCr s
  if len == 0 || byteAt s 0 == Byte.hash then true
  else (s.take len).all isSpaceByte

/-- `fill_record`, the key being the line itself. -/
def fillRecord (keyLen value valueLen : Nat) (valueKind : EnvfileValueKind) : EnvfileRecord :=
  ⟨0, keyLen, value, valueLen, valueKind⟩

/-! ## The two classifiers -/

/-- A byte no unquoted value may contain. -/
def isBadUnquoted (c : UInt8) : Bool :=
  isSpaceByte c || c == Byte.squote || c == Byte.dquote || c == Byte.backslash

/-- `parse_shell` from `value = eq + 1` on, the key being `line[0 .. keyLen)`. -/
def parseShellValue (line : Bytes) (keyLen : Nat) : EnvfileStatus × EnvfileRecord :=
  let value := keyLen + 1
  let valueLen := line.length - keyLen - 1
  if valueLen > 0 && isSpaceByte (byteAt line value) then (.errValueLeadingWhitespace, .zero)
  else if valueLen > 0 &&
      (byteAt line value == Byte.dquote || byteAt line value == Byte.squote) then
    let quote := byteAt line value
    let rest := value + 1
    let restLen := valueLen - 1
    match memchr (bytesAt line rest restLen) quote with
    | none =>
        (if quote == Byte.dquote then .errDoubleQuoteUnterminated
          else .errSingleQuoteUnterminated, .zero)
    | some close =>
        -- `close` counts from `rest`; the closing quote must end the line
        if rest + close + 1 != line.length then (.errTrailingContent, .zero)
        else (.ok, fillRecord keyLen rest close
          (if quote == Byte.squote then .singleQuoted else .doubleQuoted))
  else if (bytesAt line value valueLen).any isBadUnquoted then (.errValueInvalidChar, .zero)
  else (.ok, fillRecord keyLen value valueLen .plain)

def parseShell (line : Bytes) : EnvfileStatus × EnvfileRecord :=
  if isBlankOrCommentRecord line then (.skip, .zero)
  else if (memchr line Byte.nul).isSome then (.errValueInvalidChar, .zero)
  else match memchr line Byte.equals with
  | none => (.errNoEquals, .zero)
  | some keyLen =>
    if keyLen == 0 then (.errEmptyKey, .zero)
    else if isSpaceByte (byteAt line 0) then (.errKeyLeadingWhitespace, .zero)
    else if isSpaceByte (byteAt line (keyLen - 1)) then (.errKeyTrailingWhitespace, .zero)
    else if !isShellKeyStart (byteAt line 0) then (.errKeyInvalid, .zero)
    else if !(bytesAt line 1 (keyLen - 1)).all isShellKeyRest then (.errKeyInvalid, .zero)
    else parseShellValue line keyLen

def parseNative (line : Bytes) : EnvfileStatus × EnvfileRecord :=
  if isBlankOrCommentRecord line then (.skip, .zero)
  else if (memchr line Byte.nul).isSome then (.errValueInvalidChar, .zero)
  else match memchr line Byte.equals with
  | none => (.errNoEquals, .zero)
  | some keyLen =>
    if keyLen == 0 then (.errEmptyKey, .zero)
    else (.ok, fillRecord keyLen (keyLen + 1) (line.length - keyLen - 1) .plain)

def envfileParseShell : Parse := parseShell
def envfileParseNative : Parse := parseNative

/-- `status_name` of `envfile.c`. -/
def statusName : EnvfileStatus → Code
  | .errNoEquals => .noEquals
  | .errEmptyKey => .emptyKey
  | .errKeyInvalid => .keyInvalid
  | .errKeyLeadingWhitespace => .keyLeadingWhitespace
  | .errKeyTrailingWhitespace => .keyTrailingWhitespace
  | .errValueLeadingWhitespace => .valueLeadingWhitespace
  | .errValueInvalidChar => .valueInvalidChar
  | .errSingleQuoteUnterminated => .singleQuoteUnterminated
  | .errDoubleQuoteUnterminated => .doubleQuoteUnterminated
  | .errTrailingContent => .trailingContent
  | .skip | .ok => .unknown

end Envfile.C
