/-
# `Envfile.Config` — the `ENVFILE_*` variables

A port is configured by its environment alone.  An environment is the list of
the entries the process was started with, byte strings without NUL; `getenv`
answers the first entry of the form `NAME=value`.

The scripts and the Go program read the same six variables the same way, an
empty value counting as unset; `Knobs` is what they end up with.  The Python,
Perl, Rust and Zig programs read them the same way but for an empty value, which
they take as it is (`knobIfSet`).  The C front end reads them through `getenv`
alone and has a `Config` of its own.
-/
import Envfile.Bytes

namespace Envfile

/-- An action, as far as it is one of the five. -/
inductive Action where
  | normalize
  | validate
  | dump
  | delta
  | apply
deriving DecidableEq, Repr

def Action.name : Action → Bytes
  | .normalize => ascii "normalize"
  | .validate => ascii "validate"
  | .dump => ascii "dump"
  | .delta => ascii "delta"
  | .apply => ascii "apply"

/-- The action a string names. -/
def Action.ofName (s : Bytes) : Option Action :=
  [.normalize, .validate, .dump, .delta, .apply].find? (·.name == s)

inductive BomMode where
  | literal
  | strip
  | reject
deriving DecidableEq, Repr

def BomMode.name : BomMode → Bytes
  | .literal => ascii "literal"
  | .strip => ascii "strip"
  | .reject => ascii "reject"

def BomMode.ofName (s : Bytes) : Option BomMode :=
  [.literal, .strip, .reject].find? (·.name == s)

/-- What ends a run before it reads a file; the exit status is 1. -/
inductive Fatal where
  | badEnvfileBom (value : Bytes)
  | unsupportedNativeBom (value : Bytes)
  | unsupportedAction (value : Bytes)
deriving DecidableEq, Repr

def Fatal.text : Fatal → Bytes
  | badEnvfileBom v => ascii "FATAL_ERROR_BAD_ENVFILE_VALUE: ENVFILE_BOM=" ++ v
  | unsupportedNativeBom v => ascii "FATAL_ERROR_UNSUPPORTED: format=native ENVFILE_BOM=" ++ v
  | unsupportedAction v => ascii "envfile: unsupported action: " ++ v

/-- The entries of `environ`, in order. -/
abbrev Environ := List Bytes

/-- `getenv(name)`: what follows `name=` in the first entry that starts so. -/
def getenv (environ : Environ) (name : Bytes) : Option Bytes :=
  (environ.find? ((name ++ [Byte.equals]).isPrefixOf ·)).map (·.drop (name.length + 1))

/-- The prefix of the variables that steer a port. -/
def envfilePrefix : Bytes := ascii "ENVFILE_"

/-- The UTF-8 byte order mark. -/
def bomBytes : Bytes := [0xEF, 0xBB, 0xBF]

/-! ## File arguments -/

/-- A file argument: its path, whether it opens, the bytes that can be read
from it, and whether a read error follows them. -/
structure File where
  path : Bytes
  opens : Bool
  contents : Bytes
  failed : Bool

/-- A file that opens and can be read to its end. -/
def File.readable (path contents : Bytes) : File := ⟨path, true, contents, false⟩

/-! ## The variables as the scripts and the Go program read them -/

/-- The configuration of the reference and of the Go program.  The action is
`none` where the string is none of the five: both only ever compare it. -/
structure Knobs where
  native : Bool
  action : Option Action
  bom : BomMode
  crlfStrip : Bool
  nulReject : Bool
  contAccept : Bool
  native_bom : native = true → bom = .literal

/-- A variable's value, unset and empty alike replaced by a default. -/
def knob (environ : Environ) (name default_ : Bytes) : Bytes :=
  match getenv environ name with
  | some (c :: v) => c :: v
  | _ => default_

/-- The configuration of a program that reads the variable `name`, or its
default, as `value name default_`. -/
def knobsBy (value : Bytes → Bytes → Bytes) : Except Fatal Knobs :=
  let native := value (ascii "ENVFILE_FORMAT") (ascii "shell") == ascii "native"
  let action := Action.ofName (value (ascii "ENVFILE_ACTION") (ascii "validate"))
  let bom := value (ascii "ENVFILE_BOM") (if native then ascii "literal" else ascii "strip")
  match BomMode.ofName bom with
  | none => .error (.badEnvfileBom bom)
  | some mode =>
      if h : native = true ∧ mode ≠ .literal then .error (.unsupportedNativeBom bom)
      else .ok {
        native := native
        action := action
        bom := mode
        crlfStrip := value (ascii "ENVFILE_CRLF") (ascii "ignore") == ascii "strip"
        nulReject := value (ascii "ENVFILE_NUL") (ascii "reject") == ascii "reject"
        contAccept := value (ascii "ENVFILE_BACKSLASH_CONTINUATION") (ascii "ignore")
          == ascii "accept"
        native_bom := fun hn => by
          by_contra hne
          exact h ⟨hn, hne⟩ }

def readKnobs (environ : Environ) : Except Fatal Knobs := knobsBy (knob environ)

/-- A variable's value, its default standing for it only where it is unset. -/
def knobIfSet (environ : Environ) (name default_ : Bytes) : Bytes :=
  (getenv environ name).getD default_

theorem take_envfile (k : Bytes) : (k.take 8 != envfilePrefix) = !envfilePrefix.isPrefixOf k := by
  have hlen : envfilePrefix.length = 8 := by decide
  rw [bne, ← hlen, take_beq]

end Envfile
