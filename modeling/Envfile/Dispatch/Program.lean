/-
# `Envfile.Dispatch.Program` — `bin/envfile`, the behavior knobs

The dispatcher has four settings, a shell variable each, empty where nothing
has set it.  A config file is read by the reference: the dispatcher runs
`envfile.awk` on it, in native format and with the action `dump`, throws its
stderr away and reads what it prints.  `ENVFILE_*` variables of the caller fill
the gaps, and what is set then is put before the command of the implementation.

`envfile.awk` runs with all other variables of the caller.
-/
import Envfile.Awk.Reference
import Envfile.Sh.Program

namespace Envfile.Dispatch

/-! ## The knobs -/

inductive Knob where
  | bom
  | crlf
  | nul
  | backslashContinuation
deriving DecidableEq, Repr

/-- The order in which the dispatcher goes through them. -/
def Knob.all : List Knob := [.bom, .crlf, .nul, .backslashContinuation]

/-- The name in a config file. -/
def Knob.name : Knob → Bytes
  | .bom => ascii "BOM"
  | .crlf => ascii "CRLF"
  | .nul => ascii "NUL"
  | .backslashContinuation => ascii "BACKSLASH_CONTINUATION"

/-- The name in the environment. -/
def Knob.envName (x : Knob) : Bytes := envfilePrefix ++ x.name

def validate (values : List Bytes) (v : Bytes) : Bool := values.contains v

def validateBom : Bytes → Bool := validate [ascii "literal", ascii "strip", ascii "reject"]
def validateCrlf : Bytes → Bool := validate [ascii "strip", ascii "ignore"]
def validateNul : Bytes → Bool := validate [ascii "reject", ascii "ignore"]
def validateBackslashContinuation : Bytes → Bool := validate [ascii "accept", ascii "ignore"]

def Knob.validate : Knob → Bytes → Bool
  | .bom => validateBom
  | .crlf => validateCrlf
  | .nul => validateNul
  | .backslashContinuation => validateBackslashContinuation

/-- What ends the dispatcher with status 1. -/
inductive FatalError where
  | badEnvfileValue (x : Knob) (v : Bytes)
  | unsupported (x : Knob) (v : Bytes)
deriving DecidableEq, Repr

def FatalError.text : FatalError → Bytes
  | badEnvfileValue x v =>
      ascii "FATAL_ERROR_BAD_ENVFILE_VALUE: " ++ x.envName ++ Byte.equals :: v
  | unsupported x v =>
      ascii "FATAL_ERROR_UNSUPPORTED: format=native " ++ x.envName ++ Byte.equals :: v

/-- The variables `envfile_bom`, `envfile_crlf`, `envfile_nul` and
`envfile_backslash_continuation`. -/
abbrev Settings := Knob → Bytes

def unset : Settings := fun _ => []

/-- `validate_…; envfile_…=` -/
def set (s : Settings) (p : Knob × Bytes) : Except FatalError Settings :=
  if p.1.validate p.2 then .ok (Function.update s p.1 p.2)
  else .error (.badEnvfileValue p.1 p.2)

/-! ## The config file -/

/-- The environment that `envfile.awk` is run in. -/
def minerEnviron (environ : Environ) : Environ :=
  ascii "ENVFILE_FORMAT=native" :: ascii "ENVFILE_ACTION=dump" :: environ

/-- The lines that `while IFS= read -r line` reads.  There is no line without a
newline at its end, and `read` passes over NULs. -/
def readLoop : Nat → Bytes → List Bytes
  | 0, _ => []
  | rounds + 1, input =>
    if (Sh.read input).2.2 then
      (Sh.read input).1.filter (· != Byte.nul) :: readLoop rounds (Sh.read input).2.1
    else []

/-- What is mined from the config file; no order of keys matters to `dump`. -/
def mine (environ : Environ) (config : File) : List Bytes :=
  match Awk.main (minerEnviron environ) (fun _ => []) [config] with
  | .error _ => []
  | .ok report => readLoop (report.out.bytes.length + 1) report.out.bytes

/-- The pattern of a knob, without its `*`. -/
def Knob.pattern (x : Knob) : Bytes := x.name ++ [Byte.equals]

/-- `case $line in … esac` -/
def configLine (s : Settings) (line : Bytes) : Except FatalError Settings :=
  match Knob.all.find? fun x => x.pattern.isPrefixOf line with
  | some x => set s (x, line.drop x.pattern.length)
  | none => .ok s

def loadConfig (environ : Environ) (config : File) : Except FatalError Settings :=
  (mine environ config).foldlM configLine unset

/-! ## The environment, and what is forwarded -/

/-- `[ -z "$envfile_…" ] && [ -n "${ENVFILE_…:-}" ] && { … }` -/
def fillGap (environ : Environ) (s : Settings) (x : Knob) : Except FatalError Settings :=
  if s x = [] then
    match getenv environ x.envName with
    | some (c :: v) => set s (x, c :: v)
    | _ => .ok s
  else .ok s

/-- Passes that native format does not have. -/
def gate (native : Bool) (s : Settings) : Except FatalError Settings :=
  if native = true ∧ s .bom ≠ [] ∧ s .bom ≠ ascii "literal" then
    .error (.unsupported .bom (s .bom))
  else if native = true ∧ s .backslashContinuation = ascii "accept" then
    .error (.unsupported .backslashContinuation (s .backslashContinuation))
  else .ok s

def resolve (native : Bool) (environ : Environ) (config : Option File) :
    Except FatalError Settings := do
  let s ← match config with
    | some file => loadConfig environ file
    | none => .ok unset
  let s ← Knob.all.foldlM (fillGap environ) s
  gate native s

/-- The value of a knob in front of the command, if it is there. -/
def forwarded (s : Settings) (x : Knob) : Option Bytes := if s x = [] then none else some (s x)

/-- The words `ENVFILE_…=…` in front of the command. -/
def envp (s : Settings) : List Bytes :=
  Knob.all.filterMap fun x => (forwarded s x).map fun v => x.envName ++ Byte.equals :: v

end Envfile.Dispatch
