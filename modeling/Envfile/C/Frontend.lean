/-
# `Envfile.C.Frontend` — `src/c/envfile.c`

The front end reads a file into memory, runs the NUL, BOM and CRLF passes over
it, reads it again in 4096-byte pieces through a 64 KiB window, cuts that
stream into lines, joins continued lines, and hands each line to a classifier
and to the action.

`scan_stream` and `normalize_stream` share their reading loop word for word;
`streamEvents` is that loop, as the list of what it does to the loop body:
lines, with their numbers, and the two errors reading can end in.  The loop
reads nothing that the body writes.
-/
import Envfile.C.Backend
import Envfile.C.Table
import Envfile.Lib.Step

namespace Envfile.C

/-- `READ_BUF`. -/
def readBuf : Nat := 4096

/-- `WORK_BUF`. -/
def workBuf : Nat := 65536

/-- A `FILE *`: what successive calls of `fread` return until one returns 0,
and whether `ferror` holds then. -/
structure Stream where
  reads : List Bytes
  err : Bool

/-- What `fread` returns, call after call, on a `FILE *` over the bytes `s`. -/
def freads (s : Bytes) : Nat → List Bytes
  | 0 => []
  | calls + 1 => if s.isEmpty then [] else s.take readBuf :: freads (s.drop readBuf) calls

/-- `fmemopen(s, n, "rb")` on the `n` bytes `s`. -/
def Stream.ofBytes (s : Bytes) : Stream := ⟨freads s s.length, false⟩

/-! ## Substitution -/

def isVarStart (c : UInt8) : Bool := isNameStart c
def isVarRest (c : UInt8) : Bool := isVarStart c || isDigit c

/-- A reference to `name`: its value, or nothing and a diagnostic. -/
def resolve (env : EnvTable) (tag : Bytes) (lineNo : Nat) (name : Bytes) : Bytes × Out Int32 :=
  match envTableGet env name with
  | some value => (value, 0)
  | none => ([], Out.diag ⟨.unboundRef, some name, tag, some lineNo⟩)

/-- The loop of `subst_value`, `val` being the C string still to be read: what
it goes on to append to its buffer, and its diagnostics.  Each round but the
last takes at least the `$`. -/
def substLoop (env : EnvTable) (tag : Bytes) (lineNo : Nat) : Nat → Bytes → Bytes × Out Int32
  | 0, _ => ([], 0)
  | rounds + 1, val =>
    if val.isEmpty then ([], 0)
    else match memchr val Byte.dollar with
    | none => (val, 0)
    | some dollar =>
      let before := val.take dollar
      let rest := val.drop (dollar + 1)
      if byteAt rest 0 == Byte.lbrace then
        match memchr (rest.drop 1) Byte.rbrace with
        | none => (before ++ Byte.dollar :: rest, 0)
        | some nameLen =>
            let name := (rest.drop 1).take nameLen
            let resolved := resolve env tag lineNo name
            let tail := substLoop env tag lineNo rounds (rest.drop (nameLen + 2))
            (before ++ resolved.1 ++ tail.1, resolved.2 + tail.2)
      else if !isVarStart (byteAt rest 0) then
        let tail := substLoop env tag lineNo rounds rest
        (before ++ Byte.dollar :: tail.1, tail.2)
      else
        let nameLen := 1 + ((rest.drop 1).takeWhile isVarRest).length
        let resolved := resolve env tag lineNo (rest.take nameLen)
        let tail := substLoop env tag lineNo rounds (rest.drop nameLen)
        (before ++ resolved.1 ++ tail.1, resolved.2 + tail.2)

def substValue (val tag : Bytes) (lineNo : Nat) (env : EnvTable) : Bytes × Out Int32 :=
  substLoop env tag lineNo (val.length + 1) val

/-! ## The reading loop -/

/-- What the reading loop does to the body of `scan_stream` or
`normalize_stream`. -/
inductive StreamEvent where
  | line (bytes : Bytes) (lineNo : Nat)
  | tooLong
  | unreadable
deriving DecidableEq, Repr

/-- `find_last_newline`; `none` is `(size_t)-1`. -/
def findLastNewline (buf : Bytes) : Option Nat :=
  (memchr buf.reverse Byte.nl).map (buf.length - 1 - ·)

def trailingBackslashes (line : Bytes) : Nat :=
  (line.reverse.takeWhile (· == Byte.backslash)).length

/-- The variables that live across the rounds of both loops: `line_no`, and
the `join_len` bytes of `join_buf`. -/
structure LoopState where
  lineNo : Nat
  join : Bytes
deriving DecidableEq, Repr

/-- One physical line: CR stripping and continuation joining. -/
def lineStep (stripCr shellCont : Bool) (line : Bytes) (nl : Bool) (st : LoopState) :
    LoopState × List StreamEvent :=
  let lineNo := st.lineNo + 1
  let len :=
    if stripCr && line.length > 0 && byteAt line (line.length - 1) == Byte.cr
    then line.length - 1 else line.length
  let line := line.take len
  if shellCont then
    if st.join.length + line.length > workBuf then (⟨lineNo, []⟩, [.tooLong])
    else
      let join := st.join ++ line
      if trailingBackslashes join % 2 == 1 && nl then
        (⟨lineNo, join.take (join.length - 1)⟩, [])
      else (⟨lineNo, []⟩, [.line join lineNo])
  else (⟨lineNo, st.join⟩, [.line line lineNo])

/-- `while (pos < limit)`: the lines of `work_buf[0 .. limit)` from `pos` on.
Every round moves `pos`, so `limit` rounds are enough. -/
def lineLoop (stripCr shellCont : Bool) (work : Bytes) (limit : Nat) :
    Nat → Nat → LoopState → LoopState × List StreamEvent
  | 0, _, st => (st, [])
  | rounds + 1, pos, st =>
    if pos < limit then
      let nl := (memchr (bytesAt work pos (limit - pos)) Byte.nl).map (pos + ·)
      let stop := nl.getD limit
      let line := bytesAt work pos (stop - pos)
      let this := lineStep stripCr shellCont line nl.isSome st
      let next := lineLoop stripCr shellCont work limit rounds
        (if nl.isSome then stop + 1 else limit) this.1
      (next.1, this.2 ++ next.2)
    else (st, [])

/-- The round of `for (;;)` in which `fread` returns 0. -/
def lastRound (stripCr shellCont err : Bool) (tail : Bytes) (st : LoopState) : List StreamEvent :=
  if err then [.unreadable]
  else if tail.isEmpty then []
  else (lineLoop stripCr shellCont tail tail.length tail.length 0 st).2

/-- `for (;;)`: `tail` are the first bytes of `work_buf`, kept from the rounds
before. -/
def readLoop (stripCr shellCont err : Bool) :
    List Bytes → Bytes → LoopState → List StreamEvent
  | [], tail, st => lastRound stripCr shellCont err tail st
  | chunk :: reads, tail, st =>
    if chunk.isEmpty then lastRound stripCr shellCont err tail st
    else if tail.length + chunk.length > workBuf then [.tooLong]
    else
      let work := tail ++ chunk
      match findLastNewline work with
      | none =>
          if work.length == workBuf then [.tooLong]
          else readLoop stripCr shellCont err reads work st
      | some lastNl =>
          let limit := lastNl + 1
          let this := lineLoop stripCr shellCont work limit limit 0 st
          this.2 ++ readLoop stripCr shellCont err reads (work.drop limit) this.1

def streamEvents (stripCr shellCont : Bool) (f : Stream) : List StreamEvent :=
  readLoop stripCr shellCont f.err f.reads [] ⟨0, []⟩

/-! ## The loop bodies -/

/-- `is_blank_or_comment_line`, word for word the backend's test. -/
def isBlankOrCommentLine : Bytes → Bool := isBlankOrCommentRecord

/-- The errors of the reading loop are reported without a line number. -/
def streamDiag (tag : Bytes) (code : Code) : Out Int32 := Out.diag ⟨code, none, tag, none⟩

/-- The body of `normalize_stream`'s inner loop. -/
def normalizeRecord (tag line : Bytes) (lineNo : Nat) : Out Int32 :=
  Out.hand line lineNo +
    if isBlankOrCommentLine line then 0
    else Out.check +
      match memchr line Byte.equals with
      | none => Out.diag ⟨.noEquals, none, tag, some lineNo⟩
      | some eq => Out.print (line.take eq) (bytesAt line (eq + 1) (line.length - eq - 1))

def normalizeStream (tag : Bytes) (stripCr shellCont : Bool) (f : Stream) :
    Step EnvTable (Out Int32) :=
  Step.run (fun
    | .line bytes lineNo => Step.emit (normalizeRecord tag bytes lineNo)
    | .tooLong => Step.emit (streamDiag tag .lineTooLong)
    | .unreadable => Step.emit (streamDiag tag .fileUnreadable))
  (streamEvents stripCr shellCont f)

/-- What `scan_stream` does with an accepted record. -/
def acceptRecord (tag : Bytes) (action : Action) (native : Bool) (line : Bytes) (lineNo : Nat)
    (record : EnvfileRecord) : Step EnvTable (Out Int32) := fun env =>
  let key := bytesAt line record.key record.keyLen
  let value := bytesAt line record.value record.valueLen
  match action with
  | .dump => (env, Out.print key value)
  | .delta | .apply =>
      let value := cstr value
      let resolved :=
        if native || record.valueKind != .singleQuoted then substValue value tag lineNo env
        else (value, 0)
      (envTableSetN env key resolved.1,
        resolved.2 + if action = .delta then Out.print key (cstr resolved.1) else 0)
  | .normalize | .validate => (env, 0)

/-- The body of `scan_stream`'s inner loop. -/
def scanRecord (parse : Parse) (tag : Bytes) (action : Action) (native : Bool) (line : Bytes)
    (lineNo : Nat) : Step EnvTable (Out Int32) :=
  let answer := parse line
  Step.prepend (Out.hand line lineNo)
    (match answer.1 with
    | .skip => Step.skip
    | .ok =>
        Step.prepend Out.check (acceptRecord tag action native line lineNo answer.2)
    | status =>
        Step.emit (Out.check + Out.diag ⟨statusName status, none, tag, some lineNo⟩))

def scanStream (parse : Parse) (tag : Bytes) (action : Action) (stripCr shellCont native : Bool)
    (f : Stream) : Step EnvTable (Out Int32) :=
  Step.run (fun
    | .line bytes lineNo => scanRecord parse tag action native bytes lineNo
    | .tooLong => Step.emit (streamDiag tag .lineTooLong)
    | .unreadable => Step.emit (streamDiag tag .fileUnreadable))
  (streamEvents stripCr shellCont f)

/-! ## One file -/

def hasBom (buf : Bytes) : Bool := bomBytes.isPrefixOf buf

/-- The loop of `all_records_have_trailing_cr`, at `pos`. -/
def recordsHaveCrFrom (buf : Bytes) : Nat → Nat → Bool
  | 0, _ => true
  | rounds + 1, pos =>
    if pos < buf.length then
      let stop := pos + ((buf.drop pos).takeWhile (· != Byte.nl)).length
      if stop - pos == 0 || byteAt buf (stop - 1) != Byte.cr then false
      else recordsHaveCrFrom buf rounds (if stop < buf.length then stop + 1 else stop)
    else true

def allRecordsHaveTrailingCr (buf : Bytes) : Bool :=
  if buf.length == 0 then false else recordsHaveCrFrom buf buf.length 0

/-- What `main` reads from the environment.  Native admits neither BOM
handling nor continuation. -/
structure Config where
  native : Bool
  action : Action
  bom : BomMode
  stripCr : Bool
  nulReject : Bool
  shellCont : Bool
  native_bom : native = true → bom = .literal
  native_cont : native = true → shellCont = false

/-- The classifier `main` passes for the format, of the backend linked in. -/
structure Backend where
  shell : Parse
  native : Parse

/-- `src/c/backend.c`. -/
def Backend.c : Backend := ⟨envfileParseShell, envfileParseNative⟩

def Backend.parse (b : Backend) (native : Bool) : Parse := if native then b.native else b.shell

/-- What is left of a file after its NUL and BOM passes, or the code it is
rejected with. -/
def prePasses (cfg : Config) (f : Stream) : Except Code Bytes :=
  let fbuf := f.reads.flatten
  if f.err then .error .fileUnreadable
  else if cfg.nulReject && (memchr fbuf Byte.nul).isSome then .error .fileNul
  else if hasBom fbuf then
    match cfg.bom with
    | .strip => .ok (fbuf.drop 3)
    | .reject => .error .fileBom
    | .literal => .ok fbuf
  else .ok fbuf

def processFile (backend : Backend) (cfg : Config) (tag : Bytes) (f : Stream) :
    Step EnvTable (Out Int32) :=
  match prePasses cfg f with
  | .error code => Step.emit (Out.diag ⟨code, none, tag, none⟩)
  | .ok data =>
      let stripCr := cfg.stripCr && allRecordsHaveTrailingCr data
      let mf := Stream.ofBytes data
      match cfg.action with
      | .normalize => normalizeStream tag stripCr cfg.shellCont mf
      | action =>
          scanStream (backend.parse cfg.native) tag action stripCr cfg.shellCont cfg.native mf

/-! ## The program -/

/-- `fopen(path, "rb")`, or `stdin` for the path `-`. -/
def fopen (file : File) : Option Stream :=
  if file.opens then some { Stream.ofBytes file.contents with err := file.failed } else none

/-- One round of the loop over the file arguments. -/
def processArg (backend : Backend) (cfg : Config) (file : File) : Step EnvTable (Out Int32) :=
  match fopen file with
  | none => Step.emit (Out.diag ⟨.cannotOpen, none, file.path, none⟩)
  | some f => processFile backend cfg file.path f

def parseAction : Option Bytes → Except Fatal Action
  | none => .ok .validate
  | some s =>
      match Action.ofName s with
      | some action => .ok action
      | none => .error (.unsupportedAction s)

/-- The head of `main`, up to `shell_cont`. -/
def readConfig (environ : Environ) : Except Fatal Config :=
  let format := (getenv environ (ascii "ENVFILE_FORMAT")).getD (ascii "shell")
  let native := format == ascii "native"
  let bomMode := (getenv environ (ascii "ENVFILE_BOM")).getD
    (if native then ascii "literal" else ascii "strip")
  match BomMode.ofName bomMode with
  | none => .error (.badEnvfileBom bomMode)
  | some bom =>
      if h : native = true ∧ bom ≠ .literal then .error (.unsupportedNativeBom bomMode)
      else match parseAction (getenv environ (ascii "ENVFILE_ACTION")) with
      | .error e => .error e
      | .ok action => .ok {
          native := native
          action := action
          bom := bom
          stripCr := getenv environ (ascii "ENVFILE_CRLF") == some (ascii "strip")
          nulReject := match getenv environ (ascii "ENVFILE_NUL") with
            | none => true
            | some mode => mode == ascii "reject"
          shellCont := !native &&
            getenv environ (ascii "ENVFILE_BACKSLASH_CONTINUATION") == some (ascii "accept")
          native_bom := fun hn => by
            by_contra hne
            exact h ⟨hn, hne⟩
          native_cont := fun hn => by simp [hn] }

/-- What `main` reads from an environment without `ENVFILE_*` variables. -/
def Config.default : Config where
  native := false
  action := .validate
  bom := .strip
  stripCr := false
  nulReject := true
  shellCont := false
  native_bom := nofun
  native_cont := nofun

example : readConfig [] = .ok .default := rfl

/-- The environment table at the start: seeded only for delta and apply. -/
def initialTable (cfg : Config) (environ : Environ) : EnvTable :=
  if cfg.action = .delta ∨ cfg.action = .apply then envTableInitFromProcess environ else .zero

/-- The rest of `main`: the files in order, then, for apply, the table. -/
def runFiles (backend : Backend) (cfg : Config) (environ : Environ) (files : List File) :
    Report Int32 :=
  let run := Step.run (processArg backend cfg) files (initialTable cfg environ)
  let total := run.2 +
    if cfg.action = .apply then { (0 : Out Int32) with stdout := envTableEmitSorted run.1 } else 0
  ⟨total, if total.errors > 0 then 1 else 0⟩

/-- `main`: without arguments the one file is `-`, the standard input. -/
def main (backend : Backend) (environ : Environ) (stdin : File) (args : List File) :
    Except Fatal (Report Int32) :=
  match readConfig environ with
  | .error e => .error e
  | .ok cfg =>
      .ok (runFiles backend cfg environ
        (if args.isEmpty then [{ stdin with path := [Byte.dash] }] else args))

end Envfile.C
