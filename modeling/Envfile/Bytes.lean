/-
# `Envfile.Bytes` — byte strings and the byte classes every port shares

Files, environment entries and lines are byte strings.  A C string is a byte
string cut at its first NUL (`cstr`); `memchr` is the C library's, as an
offset from where the search starts.

The byte classes are ASCII: the reference runs under `LC_ALL=C` and the
compiled ports compare byte values.
-/
import Mathlib.Data.List.TakeWhile

namespace Envfile

abbrev Bytes := List UInt8

namespace Byte

abbrev nul : UInt8 := 0
abbrev soh : UInt8 := 1
abbrev tab : UInt8 := 9
abbrev nl : UInt8 := 10
abbrev cr : UInt8 := 13
abbrev space : UInt8 := 32
abbrev dquote : UInt8 := 34
abbrev hash : UInt8 := 35
abbrev dollar : UInt8 := 36
abbrev squote : UInt8 := 39
abbrev dash : UInt8 := 45
abbrev equals : UInt8 := 61
abbrev backslash : UInt8 := 92
abbrev underscore : UInt8 := 95
abbrev lbrace : UInt8 := 123
abbrev rbrace : UInt8 := 125

end Byte

/-- The bytes of an ASCII literal of the source. -/
def ascii (s : String) : Bytes := s.toList.map Char.toUInt8

/-! ## Byte classes -/

def isUpper (c : UInt8) : Bool := 65 ≤ c && c ≤ 90
def isLower (c : UInt8) : Bool := 97 ≤ c && c ≤ 122
def isDigit (c : UInt8) : Bool := 48 ≤ c && c ≤ 57

/-- `[ \t]`, the two bytes the formats call blank. -/
def isBlank (c : UInt8) : Bool := c == Byte.space || c == Byte.tab

/-- `[A-Za-z_]`. -/
def isNameStart (c : UInt8) : Bool := isUpper c || isLower c || c == Byte.underscore

/-- `[A-Za-z0-9_]`. -/
def isNameRest (c : UInt8) : Bool := isNameStart c || isDigit c

/-- `[A-Za-z_][A-Za-z0-9_]*`. -/
def isName : Bytes → Bool
  | [] => false
  | c :: s => isNameStart c && s.all isNameRest

theorem isBlank_iff {c : UInt8} : isBlank c = true ↔ c = Byte.space ∨ c = Byte.tab := by
  simp [isBlank]

theorem isNameRest_ne {c : UInt8} (h : isNameRest c = true) :
    isBlank c = false ∧ c ≠ Byte.equals ∧ c ≠ Byte.nul ∧ c ≠ Byte.cr := by
  refine ⟨?_, ?_, ?_, ?_⟩
  · by_contra hb
    rw [Bool.not_eq_false] at hb
    rcases isBlank_iff.mp hb with rfl | rfl <;> exact absurd h (by decide)
  all_goals rintro rfl; exact absurd h (by decide)

theorem isNameRest_of_start {c : UInt8} (h : isNameStart c = true) : isNameRest c = true := by
  simp [isNameRest, h]

theorem isNameRest_of_isName {s : Bytes} (h : isName s = true) : ∀ c ∈ s, isNameRest c = true := by
  cases s with
  | nil => exact absurd h (by decide)
  | cons c s =>
      simp only [isName, Bool.and_eq_true, List.all_eq_true] at h
      intro d hd
      rcases List.mem_cons.mp hd with rfl | hd
      · exact isNameRest_of_start h.1
      · exact h.2 d hd

theorem ne_nil_of_isName {s : Bytes} (h : isName s = true) : s ≠ [] := by
  rintro rfl; exact absurd h (by decide)

/-! ## The first occurrence of a byte -/

/-- `memchr(s, c, n)` on the `n` bytes `s`: the offset of the first `c`. -/
def memchr (s : Bytes) (c : UInt8) : Option Nat := s.idxOf? c

theorem memchr_eq_none {s : Bytes} {c : UInt8} : memchr s c = none ↔ c ∉ s :=
  List.idxOf?_eq_none_iff

theorem memchr_append {u : Bytes} {c : UInt8} (h : c ∉ u) (v : Bytes) :
    memchr (u ++ c :: v) c = some u.length := by
  induction u with
  | nil => simp [memchr, List.idxOf?_cons]
  | cons a u ih =>
      have ha : a ≠ c := fun e => h (e ▸ List.mem_cons_self)
      have ih' := ih (fun m => h (List.mem_cons_of_mem _ m))
      simp only [memchr] at ih'
      simp [memchr, List.idxOf?_cons, ha, ih']

theorem memchr_lt {s : Bytes} {c : UInt8} {i : Nat} (h : memchr s c = some i) : i < s.length := by
  have hmem : c ∈ s := by
    by_contra hc
    rw [memchr_eq_none.mpr hc] at h
    cases h
  obtain ⟨u, v, rfl, hu⟩ := List.eq_append_cons_of_mem hmem
  rw [memchr_append hu] at h
  obtain rfl := Option.some.inj h
  rw [List.length_append, List.length_cons]
  omega

theorem memchr_isSome {s : Bytes} {c : UInt8} : (memchr s c).isSome = true ↔ c ∈ s := by
  cases h : memchr s c with
  | none => simpa using memchr_eq_none.mp h
  | some i =>
      have : c ∈ s := by
        by_contra hc
        rw [memchr_eq_none.mpr hc] at h
        exact absurd h (by simp)
      simpa using this

theorem ne_of_not_mem {s : Bytes} {c : UInt8} (h : c ∉ s) : ∀ a ∈ s, (a != c) = true :=
  fun _ ha => bne_iff_ne.mpr fun e => h (e ▸ ha)

theorem cut_all {s : Bytes} {c : UInt8} (h : c ∉ s) : s.takeWhile (· != c) = s :=
  List.takeWhile_eq_self_iff.mpr (ne_of_not_mem h)

theorem split_first (c : UInt8) (s : Bytes) :
    c ∉ s ∨ ∃ u v, s = u ++ c :: v ∧ c ∉ u := by
  by_cases h : c ∈ s
  · obtain ⟨u, v, hs, hu⟩ := List.eq_append_cons_of_mem h
    exact Or.inr ⟨u, v, hs, hu⟩
  · exact Or.inl h

section Cut

variable {α : Type}

theorem take_beq (p s : Bytes) : (s.take p.length == p) = p.isPrefixOf s := by
  rw [Bool.eq_iff_iff, beq_iff_eq, List.isPrefixOf_iff_prefix, List.prefix_iff_eq_take]
  exact eq_comm

theorem take_before (u v : List α) (c : α) : (u ++ c :: v).take u.length = u := List.take_left

theorem drop_after (u v : List α) (c : α) : (u ++ c :: v).drop (u.length + 1) = v := by
  rw [← List.drop_drop, List.drop_left]
  rfl

theorem take_length_takeWhile (p : α → Bool) (s : List α) :
    s.take (s.takeWhile p).length = s.takeWhile p :=
  (List.prefix_iff_eq_take.mp (List.takeWhile_prefix p)).symm

theorem drop_length_takeWhile (p : α → Bool) (s : List α) :
    s.drop (s.takeWhile p).length = s.dropWhile p := by
  induction s with
  | nil => rfl
  | cons c s ih =>
      cases hc : p c with
      | true =>
          rw [List.takeWhile_cons_of_pos hc, List.dropWhile_cons_of_pos hc, List.length_cons,
            List.drop_succ_cons, ih]
      | false =>
          rw [List.takeWhile_cons_of_neg (by simp [hc]), List.dropWhile_cons_of_neg (by simp [hc])]
          rfl

end Cut

/-! ## C strings -/

/-- What a C function that takes a `char *` sees of the bytes `s`. -/
def cstr (s : Bytes) : Bytes := s.takeWhile (· != Byte.nul)

theorem cstr_of_nulFree {s : Bytes} (h : Byte.nul ∉ s) : cstr s = s := cut_all h

theorem nulFree_cstr (s : Bytes) : Byte.nul ∉ cstr s := by
  intro h
  have := List.mem_takeWhile_imp h
  simp at this

/-! ## One trailing CR -/

/-- A line without the CR that may end it. -/
def trimCr (s : Bytes) : Bytes := if s.getLast? = some Byte.cr then s.dropLast else s

theorem trimCr_concat_cr (s : Bytes) : trimCr (s ++ [Byte.cr]) = s := by
  simp [trimCr]

theorem trimCr_of_getLast? {s : Bytes} (h : s.getLast? ≠ some Byte.cr) : trimCr s = s := by
  simp [trimCr, h]

theorem trimCr_subset (s : Bytes) : trimCr s ⊆ s := by
  rw [trimCr]
  split
  · exact List.dropLast_subset s
  · exact List.Subset.refl s

theorem cr_cases (s : Bytes) : (∃ t, s = t ++ [Byte.cr]) ∨ s.getLast? ≠ some Byte.cr := by
  by_cases h : s.getLast? = some Byte.cr
  · obtain ⟨t, rfl⟩ := List.getLast?_eq_some_iff.mp h
    exact Or.inl ⟨t, rfl⟩
  · exact Or.inr h

theorem trimCr_eq_self {s : Bytes} : trimCr s = s ↔ s.getLast? ≠ some Byte.cr := by
  rcases cr_cases s with ⟨t, rfl⟩ | h
  · refine iff_of_false ?_ ?_
    · rw [trimCr_concat_cr]
      exact fun h => absurd (congrArg List.length h) (by simp)
    · rw [List.getLast?_concat]
      exact fun h => h rfl
  · exact iff_of_true (trimCr_of_getLast? h) h

/-- A run of blanks, possibly closed by a CR. -/
def isBlankLine (s : Bytes) : Bool := (trimCr s).all isBlank

/-- A line the formats pass over: blank, or with `#` as its first byte. -/
def isSkipped (s : Bytes) : Bool := isBlankLine s || s.head? == some Byte.hash

theorem isSkipped_trimCr (s : Bytes) :
    ((trimCr s).all isBlank || (trimCr s).head? == some Byte.hash) = isSkipped s := by
  rw [isSkipped, isBlankLine]
  rcases cr_cases s with ⟨t, rfl⟩ | h
  · rw [trimCr_concat_cr]
    cases t with
    | nil => rfl
    | cons c t => rfl
  · rw [trimCr_of_getLast? h]

end Envfile
