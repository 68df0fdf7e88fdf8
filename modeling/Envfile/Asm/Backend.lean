/-
# `Envfile.Asm.Backend` — the record classifier of `src/c/backend.asm`

The two functions of the file as machines.  A step runs the code from one
label to the next jump taken; the program counter is the label.  Registers are
64 bits wide and wrap, memory answers every address, and the events of a step
are the byte loads it makes and the values `rcx`, the counter of every loop,
has when it is decremented.

The record `[r8 .. r8 + 36)` belongs to the caller and is a component of its
own, apart from the memory that is read.  The pushes and pops around each
function restore what they save.
-/
import Envfile.C.Backend
import Envfile.Lib.Machine

namespace Envfile.Asm

abbrev Word := BitVec 64

/-- What a byte load at an address answers. -/
abbrev Memory := Word → UInt8

structure Regs where
  rax : Word
  rbx : Word
  rcx : Word
  rdx : Word
  rdi : Word
  rsi : Word
  r8 : Word
  r9 : Word
  r11 : Word
  r12 : Word
  r13 : Word

/-- `EnvfileRecord` as the functions store it. -/
structure OutRecord where
  key : Word
  keyLen : Word
  value : Word
  valueLen : Word
  valueKind : BitVec 32
deriving DecidableEq

inductive Event where
  | load (addr : Word)
  | decRcx (old : Word)
deriving DecidableEq

/-- A program counter of the labels `L`, the registers, and what has been
stored at `r8`. -/
structure State (L : Type) where
  pc : L
  regs : Regs
  out : Option OutRecord

/-- `movzx r, byte`. -/
def movzx (c : UInt8) : Word := c.toBitVec.setWidth 64

/-- `al`, `r11b`: the low byte of a register. -/
def low (r : Word) : UInt8 := UInt8.ofBitVec (r.setWidth 8)

@[simp] theorem low_movzx (c : UInt8) : low (movzx c) = c := by
  rw [low, movzx, BitVec.setWidth_setWidth_of_le _ (by omega), BitVec.setWidth_eq]

/-! ## The macros -/

def jifSpace (al : UInt8) : Bool := al == Byte.space || al == 9
def jifUpper (al : UInt8) : Bool := !(al < 65) && al ≤ 90
def jifLower (al : UInt8) : Bool := !(al < 97) && al ≤ 122
def jifDigit (al : UInt8) : Bool := !(al < 48) && al ≤ 57
def jifAlpha (al : UInt8) : Bool := jifUpper al || jifLower al
def jifAlnum (al : UInt8) : Bool := jifAlpha al || jifDigit al

/-- `ENVFILE_…`, the status codes as `mov eax, imm` leaves them in `rax`. -/
def statusWord (status : C.EnvfileStatus) : Word := BitVec.ofNat 64 status.toNat

/-- `ENVFILE_VALUE_…`. -/
def kindWord (kind : C.EnvfileValueKind) : Word := BitVec.ofNat 64 kind.toNat

/-- `mov [r8 + 0], rdi` and the four stores after it. -/
def Regs.record (r : Regs) : OutRecord := ⟨r.rdi, r.rbx, r.r12, r.r13, r.r9.setWidth 32⟩

/-- Go on at a label. -/
def goto {L : Type} (pc : L) (regs : Regs) (out : Option OutRecord) (events : List Event) :
    Option (State L × List Event) :=
  some (⟨pc, regs, out⟩, events)

/-! ## envfile_parse_shell -/

inductive ShellLabel where
  | entry
  | blankLoop
  | blankNext
  | notBlank
  | scanEq
  | findEq
  | foundEq
  | keyLeadWs
  | checkKeyTrail
  | keyTrailWs
  | checkValLead
  | valLeadWs
  | validateKey
  | keyFirstOk
  | keyRestLoop
  | keyRestOk
  | emptyKey
  | keyInvalid
  | valueCheck
  | unquotedScan
  | badValue
  | quoted
  | findClose
  | unterm
  | untermDq
  | foundClose
  | quotedDouble
  | trailing
  | ok
  | skip
  | ret
deriving DecidableEq

/-- `mov eax, status; jmp .ret`. -/
def shellFail (status : C.EnvfileStatus) (r : Regs) (out : Option OutRecord) :
    Option (State ShellLabel × List Event) :=
  goto .ret { r with rax := statusWord status } out []

def envfileParseShell (mem : Memory) : Machine (State ShellLabel) Event := fun ⟨pc, r, out⟩ =>
  match pc with
  | .entry =>
      let r := { r with r8 := r.rdx }
      if r.rsi == 0 then goto .skip r out []
      else goto .blankLoop { r with rcx := r.rsi, rdx := r.rdi } out []
  | .blankLoop =>
      let al := mem r.rdx
      goto (if jifSpace al then .blankNext else .notBlank) { r with rax := movzx al } out
        [.load r.rdx]
  | .blankNext =>
      let rcx := r.rcx - 1
      goto (if rcx != 0 then .blankLoop else .skip) { r with rdx := r.rdx + 1, rcx := rcx } out
        [.decRcx r.rcx]
  | .notBlank =>
      let al := mem r.rdi
      let r := { r with rax := movzx al }
      if al == Byte.hash then goto .skip r out [.load r.rdi]
      else
        let last := r.rdi + r.rsi - 1
        if mem last != 13 then goto .scanEq r out [.load r.rdi, .load last]
        else goto .scanEq { r with rsi := r.rsi - 1 } out [.load r.rdi, .load last]
  | .scanEq => goto .findEq { r with rcx := r.rsi, rdx := r.rdi } out []
  | .findEq =>
      if mem r.rdx == Byte.equals then goto .foundEq r out [.load r.rdx]
      else
        let rcx := r.rcx - 1
        let events := [.load r.rdx, .decRcx r.rcx]
        let r := { r with rdx := r.rdx + 1, rcx := rcx }
        if rcx != 0 then goto .findEq r out events
        else goto .ret { r with rax := statusWord .errNoEquals } out events
  | .foundEq =>
      let rbx := r.rdx - r.rdi
      let r := { r with
        rbx := rbx
        r13 := r.rsi - rbx - 1
        r12 := r.rdx + 1
        r9 := kindWord .plain }
      if rbx == 0 then goto .emptyKey r out []
      else
        let al := mem r.rdi
        goto (if jifSpace al then .keyLeadWs else .checkKeyTrail) { r with rax := movzx al } out
          [.load r.rdi]
  | .keyLeadWs => shellFail .errKeyLeadingWhitespace r out
  | .checkKeyTrail =>
      if r.rbx == 0 then goto .checkValLead r out []
      else
        let last := r.rdi + r.rbx - 1
        let al := mem last
        goto (if jifSpace al then .keyTrailWs else .checkValLead) { r with rax := movzx al } out
          [.load last]
  | .keyTrailWs => shellFail .errKeyTrailingWhitespace r out
  | .checkValLead =>
      if r.r13 == 0 then goto .validateKey r out []
      else
        let al := mem r.r12
        goto (if jifSpace al then .valLeadWs else .validateKey) { r with rax := movzx al } out
          [.load r.r12]
  | .valLeadWs => shellFail .errValueLeadingWhitespace r out
  | .validateKey =>
      if r.rbx == 0 then goto .keyInvalid r out []
      else
        let al := mem r.rdi
        goto (if jifAlpha al || al == Byte.underscore then .keyFirstOk else .keyInvalid)
          { r with rax := movzx al } out [.load r.rdi]
  | .keyFirstOk =>
      goto .keyRestLoop { r with rcx := r.rbx - 1, rdx := r.rdi + 1 } out [.decRcx r.rbx]
  | .keyRestLoop =>
      if r.rcx == 0 then goto .valueCheck r out []
      else
        let al := mem r.rdx
        goto (if jifAlnum al || al == Byte.underscore then .keyRestOk else .keyInvalid)
          { r with rax := movzx al } out [.load r.rdx]
  | .keyRestOk =>
      goto .keyRestLoop { r with rdx := r.rdx + 1, rcx := r.rcx - 1 } out [.decRcx r.rcx]
  | .emptyKey => shellFail .errEmptyKey r out
  | .keyInvalid => shellFail .errKeyInvalid r out
  | .valueCheck =>
      if r.r13 == 0 then goto .ok r out []
      else
        let al := mem r.r12
        let r := { r with rax := movzx al }
        if al == Byte.dquote || al == Byte.squote then goto .quoted r out [.load r.r12]
        else goto .unquotedScan { r with rcx := r.r13, rdx := r.r12 } out [.load r.r12]
  | .unquotedScan =>
      let al := mem r.rdx
      if al == 0 || jifSpace al || al == Byte.squote || al == Byte.dquote || al == Byte.backslash
      then goto .badValue { r with rax := movzx al } out [.load r.rdx]
      else
        let rcx := r.rcx - 1
        goto (if rcx != 0 then .unquotedScan else .ok)
          { r with rax := movzx al, rdx := r.rdx + 1, rcx := rcx } out
          [.load r.rdx, .decRcx r.rcx]
  | .badValue => shellFail .errValueInvalidChar r out
  | .quoted =>
      goto .findClose
        { r with r11 := movzx (low r.rax), rcx := r.r13 - 1, rdx := r.r12 + 1 } out
        [.decRcx r.r13]
  | .findClose =>
      if r.rcx == 0 then goto .unterm r out []
      else if mem r.rdx == low r.r11 then goto .foundClose r out [.load r.rdx]
      else
        goto .findClose { r with rdx := r.rdx + 1, rcx := r.rcx - 1 } out
          [.load r.rdx, .decRcx r.rcx]
  | .unterm =>
      if low r.r11 == Byte.dquote then goto .untermDq r out []
      else shellFail .errSingleQuoteUnterminated r out
  | .untermDq => shellFail .errDoubleQuoteUnterminated r out
  | .foundClose =>
      let events := [.decRcx r.rcx]
      let r := { r with rcx := r.rcx - 1 }
      if r.rcx != 0 then goto .trailing r out events
      else
        let r := { r with r12 := r.r12 + 1, r13 := r.rdx - (r.r12 + 1) }
        if low r.r11 != Byte.squote then goto .quotedDouble r out events
        else goto .ok { r with r9 := kindWord .singleQuoted } out events
  | .quotedDouble => goto .ok { r with r9 := kindWord .doubleQuoted } out []
  | .trailing => shellFail .errTrailingContent r out
  | .ok => goto .ret { r with rax := statusWord .ok } (some r.record) []
  | .skip => shellFail .skip r out
  | .ret => none

/-! ## envfile_parse_native -/

inductive NativeLabel where
  | entry
  | blankLoop
  | blankNext
  | notBlank
  | findEq
  | foundEq
  | ok
  | scan
  | write
  | emptyKey
  | badValue
  | skip
  | ret
deriving DecidableEq

def nativeFail (status : C.EnvfileStatus) (r : Regs) (out : Option OutRecord) :
    Option (State NativeLabel × List Event) :=
  goto .ret { r with rax := statusWord status } out []

def envfileParseNative (mem : Memory) : Machine (State NativeLabel) Event := fun ⟨pc, r, out⟩ =>
  match pc with
  | .entry =>
      let r := { r with r8 := r.rdx }
      if r.rsi == 0 then goto .skip r out []
      else goto .blankLoop { r with rcx := r.rsi, rdx := r.rdi } out []
  | .blankLoop =>
      let al := mem r.rdx
      goto (if jifSpace al then .blankNext else .notBlank) { r with rax := movzx al } out
        [.load r.rdx]
  | .blankNext =>
      let rcx := r.rcx - 1
      goto (if rcx != 0 then .blankLoop else .skip) { r with rdx := r.rdx + 1, rcx := rcx } out
        [.decRcx r.rcx]
  | .notBlank =>
      let al := mem r.rdi
      let r := { r with rax := movzx al }
      if al == Byte.hash then goto .skip r out [.load r.rdi]
      else goto .findEq { r with rcx := r.rsi, rdx := r.rdi } out [.load r.rdi]
  | .findEq =>
      if mem r.rdx == Byte.equals then goto .foundEq r out [.load r.rdx]
      else
        let rcx := r.rcx - 1
        let events := [.load r.rdx, .decRcx r.rcx]
        let r := { r with rdx := r.rdx + 1, rcx := rcx }
        if rcx != 0 then goto .findEq r out events
        else goto .ret { r with rax := statusWord .errNoEquals } out events
  | .foundEq =>
      let rbx := r.rdx - r.rdi
      goto (if rbx == 0 then .emptyKey else .ok) { r with rbx := rbx } out []
  | .ok =>
      let r := { r with
        r12 := r.rdi + r.rbx + 1
        r13 := r.rsi - r.rbx - 1
        r9 := kindWord .plain }
      if r.r13 == 0 then goto .write r out []
      else goto .scan { r with rcx := r.r13, rdx := r.r12 } out []
  | .scan =>
      let al := mem r.rdx
      let events := [.load r.rdx]
      let r := { r with rax := movzx al }
      if al == 0 then goto .badValue r out events
      else
        let rcx := r.rcx - 1
        goto (if rcx != 0 then .scan else .write) { r with rdx := r.rdx + 1, rcx := rcx } out
          (events ++ [.decRcx r.rcx])
  | .write => goto .ret { r with rax := statusWord .ok } (some r.record) []
  | .emptyKey => nativeFail .errEmptyKey r out
  | .badValue => nativeFail .errValueInvalidChar r out
  | .skip => nativeFail .skip r out
  | .ret => none

/-! ## Calling them -/

/-- A function called with `line` in `rdi`, `len` in `rsi` and `out` in `rdx`. -/
def call {L : Type} (entry : L) (regs : Regs) : State L := ⟨entry, regs, none⟩

/-- The `n` bytes from the address `p` on. -/
def loadBytes (mem : Memory) (p : Word) : Nat → Bytes
  | 0 => []
  | n + 1 => mem p :: loadBytes mem (p + 1) n

/-- The line a call gets. -/
def Regs.line (mem : Memory) (regs : Regs) : Bytes := loadBytes mem regs.rdi regs.rsi.toNat

/-- Memory with `line` at address 0, and a call on it. -/
def memoryOf (line : Bytes) : Memory := fun addr => line.getD addr.toNat 0

def regsOf (line : Bytes) : Regs := ⟨0, 0, 0, 0, 0, BitVec.ofNat 64 line.length, 0, 0, 0, 0, 0⟩

end Envfile.Asm
