/-
# `Envfile.Dispatch.Arguments` — `bin/envfile`, the command line

The dispatcher takes settings off the front of its arguments as long as they are
of its channels, and the files are what is left.  It has the knobs resolved,
asks for an implementation, and builds the command that it executes as a string
`$envp`, which the shell splits into words.  The command is `env`, which sets
variables and executes the rest.

What the dispatcher asks the system is a `Host`.  The shell exports the variables
of the caller, those that the script assigns itself with the values that it
assigned (`exported`), and the order of characters is that of ASCII.

`commandLine_iff` says which command lines are taken, and what they are taken for.
-/
import Envfile.Dispatch.Mining
import Envfile.Lib.Fields

namespace Envfile.Dispatch

open Assign

/-! ## Settings on the command line -/

/-- `format=`, `language=`, `action=`, `config=` and `env=`. -/
inductive Channel where
  | format
  | language
  | action
  | config
  | env
deriving DecidableEq, Repr

/-- The order in which an argument is compared with them. -/
def Channel.all : List Channel := [.format, .language, .action, .config, .env]

def Channel.name : Channel → Bytes
  | .format => ascii "format"
  | .language => ascii "language"
  | .action => ascii "action"
  | .config => ascii "config"
  | .env => ascii "env"

/-- The pattern of a channel, without its `*`. -/
def Channel.pattern (c : Channel) : Bytes := c.name ++ [Byte.equals]

def isWord : Bytes → Bool := isName

def isAlnum (c : UInt8) : Bool := isUpper c || isLower c || isDigit c

/-- The bytes of a language: those of a word, `.` and `-`. -/
def isLanguageByte (c : UInt8) : Bool := isNameRest c || c == 0x2e || c == Byte.dash

def isLanguage : Bytes → Bool
  | [] => false
  | c :: rest => isAlnum c && (c :: rest).all isLanguageByte

def actions : List Bytes :=
  [ascii "normalize", ascii "validate", ascii "dump", ascii "delta", ascii "apply"]

/-- What a channel takes; `isFile` is `[ -f … ]`. -/
def Channel.valid (isFile : Bytes → Bool) : Channel → Bytes → Bool
  | .format => isWord
  | .language => isLanguage
  | .action => actions.contains
  | .config => isFile
  | .env => isFile

/-- What ends the dispatcher with status 1. -/
inductive Fault where
  | badArg (c : Channel) (v : Bytes)
  | badSetting (arg : Bytes)
  | notFound (path : Bytes)
  | unsupportedFormat (v : Bytes)
  | knob (e : FatalError)
  | unavailableLanguage (v : Bytes)
  | unavailableReference
deriving DecidableEq, Repr

def Fault.text : Fault → Bytes
  | badArg c v => ascii "FATAL_ERROR_BAD_ARG: " ++ c.pattern ++ v
  | badSetting arg => ascii "FATAL_ERROR_BAD_ARG: setting=" ++ arg
  | notFound path => ascii "FATAL_ERROR_NOT_FOUND: file=" ++ path
  | unsupportedFormat v => ascii "FATAL_ERROR_UNSUPPORTED: format=" ++ v
  | knob e => e.text
  | unavailableLanguage v => ascii "FATAL_ERROR_UNAVAILABLE: language=" ++ v
  | unavailableReference => ascii "FATAL_ERROR_UNAVAILABLE: implementation=awk"

def Channel.fault : Channel → Bytes → Fault
  | .config, v => .notFound v
  | .env, v => .notFound v
  | c, v => .badArg c v

/-- The variables `format`, `language`, `action`, `config` and `envfile`. -/
abbrev Routing := Channel → Bytes

def Routing.initial : Routing
  | .format => ascii "shell"
  | .action => ascii "validate"
  | _ => []

/-- The channel of an argument, and what is behind the `=`. -/
def Channel.ofArg (arg : Bytes) : Option (Channel × Bytes) :=
  (Channel.all.find? fun c => c.pattern.isPrefixOf arg).map fun c =>
    (c, arg.drop c.pattern.length)

/-- `[A-Za-z_][A-Za-z0-9_]*=*`: two characters are looked at, and then any `=` is
one. -/
def isSetting : Bytes → Bool
  | c :: d :: rest => isNameStart c && isNameRest d && rest.contains Byte.equals
  | _ => false

/-- `while [ $# -gt 0 ]; do case $1 in … esac; shift; done` -/
def parseArgs (isFile : Bytes → Bool) : Routing → List Bytes → Except Fault (Routing × List Bytes)
  | r, [] => .ok (r, [])
  | r, arg :: args =>
    match Channel.ofArg arg with
    | some (c, v) =>
        if c.valid isFile v then parseArgs isFile (Function.update r c v) args
        else .error (c.fault v)
    | none => if isSetting arg then .error (.badSetting arg) else .ok (r, arg :: args)

/-! ## The command -/

/-- The bytes at which the shell splits: `IFS` as a shell starts with it. -/
def isIfs (c : UInt8) : Bool := c == Byte.space || c == Byte.tab || c == Byte.nl

/-- The bytes that make a word a pattern: `*`, `?`, `[` and `\`. -/
def isPattern (c : UInt8) : Bool := c == 0x2a || c == 0x3f || c == 0x5b || c == Byte.backslash

/-- What the dispatcher asks the system. -/
structure Host where
  /-- `$script_dir` -/
  scriptDir : Bytes
  /-- `[ -f … ]` -/
  isFile : Bytes → Bool
  /-- What `envfile.awk` reads under a path. -/
  file : Bytes → File
  /-- What `lang` prints for a language, after a build if need be. -/
  lang : Bytes → Option Bytes
  /-- `resolve_tool` -/
  resolveTool : Bytes → Option Bytes
  /-- The paths that a word stands for. -/
  glob : Bytes → List Bytes
  glob_literal : ∀ w, (∀ c ∈ w, isPattern c = false) → glob w = [w]

/-- `REFERENCE` -/
def referenceLang : Bytes := ascii "awk"

/-- What is going to be executed: the knobs and the channels are resolved, the
implementation is there. -/
structure Plan where
  routing : Routing
  settings : Settings
  /-- Further variables, for one implementation. -/
  vars : List Bytes
  /-- The program and its own arguments. -/
  command : List Bytes
  files : List Bytes

namespace Host

variable (host : Host)

/-- `choose_impl` -/
def chooseImpl (language : Bytes) : Except Fault Bytes :=
  match host.lang (if language = [] then referenceLang else language) with
  | some impl => .ok impl
  | none => .error (if language = [] then .unavailableReference else .unavailableLanguage language)

/-- A tool that runs an implementation. -/
def tool (name : Bytes) : Except Fault Bytes :=
  match host.resolveTool name with
  | some path => .ok path
  | none => .error (.unavailableLanguage name)

/-- `case $impl in … esac`: the variables and the command behind `$envp`. -/
def start (impl : Bytes) : Except Fault (List Bytes × List Bytes) :=
  if (ascii "/envfile.awk").isSuffixOf impl then
    .ok ([ascii "LC_ALL=C"], [impl])
  else if (ascii "/envfile.node.js").isSuffixOf impl then do
    let node ← host.tool (ascii "node")
    .ok ([], [node, host.scriptDir ++ ascii "/../src/js/envfile.js.mjs"])
  else if (ascii "/envfile.bun.js").isSuffixOf impl then do
    let bun ← host.tool (ascii "bun")
    .ok ([], [bun, impl])
  else if (ascii "/envfile.deno.js").isSuffixOf impl then do
    let deno ← host.tool (ascii "deno")
    .ok ([], [deno, ascii "run", ascii "--allow-read", ascii "--allow-env", impl])
  else
    .ok ([], [impl])

def formats : List Bytes := [ascii "shell", ascii "native", ascii "compat"]

/-- The config file, if there is one. -/
def configFile (r : Routing) : Option File :=
  if r .config = [] then none else some (host.file (r .config))

/-- The dispatcher, up to the command that it executes. -/
def plan (environ : Environ) (args : List Bytes) : Except Fault Plan := do
  let (r, files) ← parseArgs host.isFile .initial args
  if !validate formats (r .format) then .error (.unsupportedFormat (r .format))
  let s ← (resolve (r .format == ascii "native") environ (host.configFile r)).mapError .knob
  let impl ← host.chooseImpl (r .language)
  let (vars, command) ← host.start impl
  .ok ⟨r, s, vars, command, files⟩

end Host

/-- `NAME=value` -/
def word (name value : Bytes) : Bytes := name ++ Byte.equals :: value

namespace Plan

variable (p : Plan)

/-- What is put behind `env`, one after the other. -/
def envWords : List Bytes :=
  [word (ascii "ENVFILE_FORMAT") (p.routing .format),
    word (ascii "ENVFILE_ACTION") (p.routing .action)] ++
  (if p.routing .env = [] then [] else [word (ascii "ENVFILE_ENV") (p.routing .env)]) ++
  envp p.settings

/-- `$envp` -/
def envpText : Bytes := p.envWords.foldl (fun text w => text ++ Byte.space :: w) (ascii "env")

end Plan

/-- `exec $envp … "$@"`: the words that are executed. -/
def Host.execWords (host : Host) (p : Plan) : List Bytes :=
  (Fields.fields isIfs p.envpText).flatMap host.glob ++ p.vars ++ p.command ++ p.files

/-- `putenv`: an entry takes the place of one with its name, or is put behind the
others. -/
def putenv : Environ → Bytes → Environ
  | [], e => [e]
  | f :: environ, e =>
    if (beforeEquals e ++ [Byte.equals]).isPrefixOf f then e :: environ
    else f :: putenv environ e
where
  /-- The name of an entry. -/
  beforeEquals (e : Bytes) : Bytes := e.takeWhile (· != Byte.equals)

/-- The utility `env`: variables to set, as long as there is an `=` in a word, and
then the command that it executes in the environment that has them. -/
def envUtility (environ : Environ) (words : List Bytes) : Environ × List Bytes :=
  ((words.takeWhile (·.contains Byte.equals)).foldl putenv environ,
    words.dropWhile (·.contains Byte.equals))

/-- The variables that the script assigns, in the shell that executes the command. -/
def ownVariables : List Bytes :=
  [ascii "script_dir", ascii "format", ascii "language", ascii "action", ascii "config",
    ascii "envfile", ascii "REFERENCE", ascii "envfile_bom", ascii "envfile_crlf",
    ascii "envfile_nul", ascii "envfile_backslash_continuation", ascii "rest", ascii "line",
    ascii "v", ascii "impl", ascii "envp", ascii "node_bin", ascii "bun_bin", ascii "deno_bin"]

/-- What the shell exports at `exec`, of what it has exported before the script
assigned anything: `value` is what that has assigned last to a variable, if anything. -/
def exported (value : Bytes → Option Bytes) (environ : Environ) : Environ :=
  environ.map fun e =>
    match splitEquals e with
    | some (n, _) => if ownVariables.contains n then ((value n).map (word n)).getD e else e
    | none => e

/-- The environment and the words of the process that comes of it; `environ` is what
the shell exports at `exec`. -/
def Host.started (host : Host) (environ : Environ) (p : Plan) : Environ × List Bytes :=
  envUtility environ (host.execWords p).tail

/-! ## Command lines -/

theorem Channel.equals_not_mem (c : Channel) : Byte.equals ∉ c.name := by
  cases c <;> decide

theorem Channel.ofArg_pattern (c : Channel) (v : Bytes) : ofArg (c.pattern ++ v) = some (c, v) := by
  have harg : c.pattern ++ v = c.name ++ Byte.equals :: v := List.append_assoc ..
  have hfind : (all.find? fun d => d.pattern.isPrefixOf (c.pattern ++ v)) = some c := by
    have htest : ∀ d : Channel, d.pattern.isPrefixOf (c.pattern ++ v) = (d.name == c.name) := by
      intro d
      rw [harg]
      exact isPrefixOf_assignment d.equals_not_mem c.equals_not_mem v
    simp only [htest]
    cases c <;> decide
  rw [ofArg, hfind, Option.map_some, List.drop_left]

theorem Channel.of_ofArg {arg : Bytes} {p : Channel × Bytes} (h : ofArg arg = some p) :
    arg = p.1.pattern ++ p.2 := by
  obtain ⟨c, hc, rfl⟩ := Option.map_eq_some_iff.mp h
  obtain ⟨v, rfl⟩ := List.isPrefixOf_iff_prefix.mp
    (List.find?_some (p := fun c : Channel => c.pattern.isPrefixOf arg) hc)
  rw [List.drop_left]

/-- A command line that is taken: valid settings of the channels, and behind them
the files, of which the first is not like a setting. -/
structure CommandLine (isFile : Bytes → Bool) (args : List Bytes)
    (settings : List (Channel × Bytes)) (files : List Bytes) : Prop where
  eq : args = settings.map (fun p => p.1.pattern ++ p.2) ++ files
  valid : ∀ p ∈ settings, p.1.valid isFile p.2 = true
  first : ∀ f ∈ files.head?, Channel.ofArg f = none ∧ isSetting f = false

/-- The last setting of a channel wins. -/
def Routing.after (r : Routing) (settings : List (Channel × Bytes)) : Routing := fun c =>
  (assign empty settings c).getD (r c)

theorem Routing.after_cons (r : Routing) (p : Channel × Bytes) (settings : List (Channel × Bytes)) :
    r.after (p :: settings) = Routing.after (Function.update r p.1 p.2) settings := by
  funext c
  rw [after, after, assign_cons, assign_eq_or]
  cases assign empty settings c with
  | some v => rfl
  | none =>
      by_cases hc : c = p.1
      · subst hc
        rw [Function.update_self, Function.update_self]
        rfl
      · rw [Function.update_of_ne hc, Function.update_of_ne hc]
        rfl

section Parse

variable {isFile : Bytes → Bool} {args files : List Bytes} {r r' : Routing}

theorem parseArgs_commandLine {settings : List (Channel × Bytes)}
    (h : CommandLine isFile args settings files) :
    parseArgs isFile r args = .ok (r.after settings, files) := by
  obtain ⟨rfl, hvalid, hfirst⟩ := h
  induction settings generalizing r with
  | nil =>
      cases files with
      | nil => rfl
      | cons f files =>
          obtain ⟨hnone, hsetting⟩ := hfirst f rfl
          show parseArgs isFile r (f :: files) = _
          rw [parseArgs, hnone]
          simp only [hsetting, Bool.false_eq_true, if_false]
          rfl
  | cons p settings ih =>
      rw [List.map_cons, List.cons_append, parseArgs, Channel.ofArg_pattern, Routing.after_cons]
      simp only [hvalid p List.mem_cons_self, if_true]
      exact ih fun q hq => hvalid q (List.mem_cons_of_mem _ hq)

theorem commandLine_of_parseArgs (h : parseArgs isFile r args = .ok (r', files)) :
    ∃ settings, CommandLine isFile args settings files ∧ r' = r.after settings := by
  induction args generalizing r with
  | nil =>
      obtain ⟨rfl, rfl⟩ := Prod.mk.inj (Except.ok.inj h)
      exact ⟨[], ⟨rfl, by rintro p ⟨⟩, by rintro f ⟨⟩⟩, rfl⟩
  | cons arg args ih =>
      rw [parseArgs] at h
      cases harg : Channel.ofArg arg with
      | none =>
          rw [harg] at h
          simp only at h
          split at h
          · cases h
          · rename_i hsetting
            obtain ⟨rfl, rfl⟩ := Prod.mk.inj (Except.ok.inj h)
            refine ⟨[], ⟨rfl, by rintro p ⟨⟩, fun f hf => ?_⟩, rfl⟩
            obtain rfl := Option.some.inj hf
            exact ⟨harg, Bool.eq_false_iff.mpr hsetting⟩
      | some p =>
          rw [harg] at h
          simp only at h
          split at h
          · rename_i hvalid
            obtain ⟨settings, ⟨hargs, hall, hfirst⟩, rfl⟩ := ih h
            refine ⟨p :: settings, ⟨?_, ?_, hfirst⟩, (Routing.after_cons _ _ _).symm⟩
            · rw [hargs, Channel.of_ofArg harg]
              rfl
            · intro q hq
              rcases List.mem_cons.mp hq with rfl | hq
              · exact hvalid
              · exact hall q hq
          · cases h

/-- What the dispatcher takes a command line for: it is taken exactly when it
begins with valid settings and goes on with files, and then the last setting of
each channel counts. -/
theorem commandLine_iff (isFile : Bytes → Bool) (args : List Bytes) (r : Routing)
    (files : List Bytes) :
    parseArgs isFile .initial args = .ok (r, files) ↔
      ∃ settings, CommandLine isFile args settings files ∧ r = Routing.initial.after settings := by
  constructor
  · exact commandLine_of_parseArgs
  · rintro ⟨settings, h, rfl⟩
    exact parseArgs_commandLine h

end Parse

end Envfile.Dispatch
