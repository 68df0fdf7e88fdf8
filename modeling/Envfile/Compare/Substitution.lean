/-
# `Envfile.Compare.Substitution` — two walks over one value

The ports keep their position in a value in different ways: the Zig program
moves an index, the reference takes the part that it has read off the value.
Both do what `subst` does with the names that the environment binds, so they
leave the same text and report the same names.

The Nushell script tests what it has looked up for emptiness, so it takes a
name that is bound to the empty string for unbound: it does what the reference
does exactly when no reference is to such a name (`nuSubst_iff`).
-/
import Envfile.Awk.Classify
import Envfile.Lib.Partial
import Envfile.Nu.Program
import Envfile.Port.Classify
import Envfile.Zig.Program

namespace Envfile

/-- Two substitutions leave the same text, and each reports the names of one
list and writes nothing else. -/
structure SubstAlike {ι κ : Type} [AddMonoidWithOne ι] [AddMonoidWithOne κ] (path : Bytes)
    (lineno : Nat) (p : Bytes × Out ι) (q : Bytes × Out κ) : Prop where
  text : p.1 = q.1
  unbound : ∃ names, p.2 = Out.unbound path lineno names ∧ q.2 = Out.unbound path lineno names

theorem Out.unbound_names {ι : Type} [AddMonoidWithOne ι] (path : Bytes) (lineno : Nat)
    (names : List Bytes) :
    (Out.unbound path lineno names : Out ι).diags.filterMap Diag.name = names := by
  rw [Out.unbound_eq, List.filterMap_map]
  exact List.filterMap_some

theorem SubstAlike.diag_names {ι κ : Type} [AddMonoidWithOne ι] [AddMonoidWithOne κ]
    {path : Bytes} {lineno : Nat} {p : Bytes × Out ι} {q : Bytes × Out κ}
    (h : SubstAlike path lineno p q) :
    p.2.diags.filterMap Diag.name = q.2.diags.filterMap Diag.name := by
  obtain ⟨_, names, hp, hq⟩ := h
  rw [hp, hq, Out.unbound_names, Out.unbound_names]

theorem substAlike_iff {ι κ : Type} [AddMonoidWithOne ι] [AddMonoidWithOne κ] (path : Bytes)
    (lineno : Nat) (text text' : Bytes) (names names' : List Bytes) :
    SubstAlike path lineno (text, (Out.unbound path lineno names : Out ι))
        (text', (Out.unbound path lineno names' : Out κ)) ↔
      text = text' ∧ names = names' := by
  constructor
  · intro h
    have hnames := h.diag_names
    rw [Out.unbound_names, Out.unbound_names] at hnames
    exact ⟨h.text, hnames⟩
  · rintro ⟨rfl, rfl⟩
    exact ⟨rfl, names, rfl, rfl⟩

/-! ## An index and a suffix -/

section Zig

variable {store : Zig.EnvStore} {env : Awk.EnvArray}

/-- The store and the array have the same bindings. -/
def SameBindings (store : Zig.EnvStore) (env : Awk.EnvArray) : Prop :=
  ∀ name, store.get name = env.lookup name

theorem SameBindings.nil : SameBindings [] ∅ := fun _ => rfl

theorem SameBindings.cons (h : SameBindings store env) (key value : Bytes) :
    SameBindings ((key, value) :: store) (env.insert key value) := by
  intro name
  rw [Zig.EnvStore.get, List.find?_cons]
  cases hkey : key == name with
  | true =>
      rw [← eq_of_beq hkey, AList.lookup_insert]
      rfl
  | false =>
      rw [AList.lookup_insert_ne (ne_of_beq_false hkey).symm]
      exact h name

theorem zigSubst_alike (hsame : SameBindings store env) (path : Bytes) (lineno : Nat)
    (value : Bytes) :
    SubstAlike path lineno (Zig.substValue path lineno value store)
      (Awk.subst value path lineno env) := by
  have henv : Zig.port.get store = env.lookup := funext hsame
  have hzig : Zig.substValue path lineno value store = _ :=
    Zig.port.substValue_eq store path lineno value
  have hawk := Awk.subst_eq env path lineno value
  rw [henv] at hzig
  rw [hzig, hawk]
  exact ⟨rfl, _, rfl, rfl⟩

/-- A `$` before a reference, two references next to each other, empty braces,
an unbound name and a `$` at the end. -/
theorem zigSubst_alike_adjacent :
    SubstAlike (ascii "f") 1
      (Zig.substValue (ascii "f") 1 (ascii "$$A${A}${}$B$") [(ascii "A", ascii "x")])
      (Awk.subst (ascii "$$A${A}${}$B$") (ascii "f") 1
        ((∅ : Awk.EnvArray).insert (ascii "A") (ascii "x"))) :=
  zigSubst_alike (SameBindings.nil.cons (ascii "A") (ascii "x")) _ _ _

end Zig

/-! ## An emptiness test for a membership test -/

section Nu

open Nu

variable (lookup : Bytes → Option Bytes)

/-- Where the Nushell loop does what the reference does: no reference that it
finds is bound to the empty string; those that it misses are bound, and to
leave them as they are makes no difference to the text. -/
structure NuAgrees (ps : List Piece) : Prop where
  found : ∀ q ∈ marked ps, q.2 = false → ∀ name, q.1.token = .ref name → lookup name ≠ some []
  missed : ∀ q ∈ marked ps, q.2 = true → ∀ name, q.1.token = .ref name → lookup name ≠ none
  text : (marked ps).flatMap (written lookup) = ps.flatMap (Piece.value lookup)

theorem marked_fst (ps : List Piece) : (marked ps).map Prod.fst = ps := by
  induction ps with
  | nil => rfl
  | cons p ps ih => rw [marked, List.map_cons, ih]

theorem Piece.unbound_of_token {p : Piece} {name : Bytes} (h : p.token = .ref name) :
    p.unbound lookup = if lookup name = none then some name else none := by
  cases p with
  | literal c => cases h
  | bare name => cases h; rfl
  | braced name => cases h; rfl

theorem Piece.token_of_unbound {p : Piece} {name : Bytes} (h : p.unbound lookup = some name) :
    p.token = .ref name ∧ lookup name = none := by
  cases p with
  | literal c => cases h
  | bare other =>
      rw [unbound, Option.ite_none_right_eq_some, Option.some_inj] at h
      exact ⟨congrArg Token.ref h.2, h.2 ▸ h.1⟩
  | braced other =>
      rw [unbound, Option.ite_none_right_eq_some, Option.some_inj] at h
      exact ⟨congrArg Token.ref h.2, h.2 ▸ h.1⟩

variable {lookup} in
theorem nonempty_eq {name : Bytes} (h : lookup name ≠ some []) :
    nonempty lookup name = lookup name := by
  rw [nonempty]
  cases hname : lookup name with
  | none => rfl
  | some value =>
      rw [hname] at h
      simpa using h

theorem Piece.unbound_eq_none {p : Piece} :
    p.unbound lookup = none ↔ ∀ name, p.token = .ref name → lookup name ≠ none := by
  constructor
  · intro h name htoken hnone
    rw [unbound_of_token lookup htoken, if_pos hnone] at h
    cases h
  · intro h
    by_contra hne
    obtain ⟨name, hname⟩ := Option.ne_none_iff_exists'.mp hne
    obtain ⟨htoken, hnone⟩ := token_of_unbound lookup hname
    exact h name htoken hnone

variable {lookup} in
/-- A reference that is found is reported as it should be, unless it is bound to
the empty string. -/
theorem reported_found {q : Piece × Bool} (hq : q.2 = false)
    (h : ∀ name, q.1.token = .ref name → lookup name ≠ some []) :
    reported lookup q = q.1.unbound lookup := by
  obtain ⟨p, found⟩ := q
  rw [reported, hq, if_neg Bool.false_ne_true]
  cases p with
  | literal c => rfl
  | bare name => simp only [Piece.unbound, nonempty_eq (h name rfl)]
  | braced name => simp only [Piece.unbound, nonempty_eq (h name rfl)]

theorem reported_missed {q : Piece × Bool} (hq : q.2 = true) : reported lookup q = none := by
  rw [reported, hq, if_pos rfl]

theorem reported_empty {q : Piece × Bool} (hq : q.2 = false) {name : Bytes}
    (htoken : q.1.token = .ref name) (hempty : lookup name = some []) :
    reported lookup q = some name := by
  rw [reported, hq, if_neg Bool.false_ne_true, Piece.unbound_of_token _ htoken, nonempty, hempty]
  rfl

theorem names_eq_iff (ps : List Piece) :
    (marked ps).filterMap (reported lookup) = ps.filterMap (Piece.unbound lookup) ↔
      (∀ q ∈ marked ps, q.2 = false → ∀ name, q.1.token = .ref name → lookup name ≠ some []) ∧
        ∀ q ∈ marked ps, q.2 = true → ∀ name, q.1.token = .ref name → lookup name ≠ none := by
  have hunbound : ps.filterMap (Piece.unbound lookup) =
      (marked ps).filterMap fun q => q.1.unbound lookup := by
    nth_rewrite 1 [← marked_fst ps]
    rw [List.filterMap_map]
    rfl
  rw [hunbound]
  constructor
  · intro h
    have hfound : ∀ q ∈ marked ps, q.2 = false →
        ∀ name, q.1.token = .ref name → lookup name ≠ some [] := by
      intro q hq hfalse name htoken hempty
      have hmem := List.mem_filterMap.mpr ⟨q, hq, reported_empty lookup hfalse htoken hempty⟩
      rw [h] at hmem
      obtain ⟨r, _, hr⟩ := List.mem_filterMap.mp hmem
      have hnone := (Piece.token_of_unbound lookup hr).2
      rw [hempty] at hnone
      cases hnone
    -- so at most those that are missed are lacking, and none is
    have heach := (Partial.filterMap_eq_iff fun q hq => ?_).2.mp h
    · refine ⟨hfound, fun q hq htrue => ?_⟩
      rw [← Piece.unbound_eq_none, ← heach q hq]
      exact reported_missed lookup htrue
    · cases hq₂ : q.2 with
      | true => exact Or.inr (reported_missed lookup hq₂)
      | false => exact Or.inl (reported_found hq₂ (hfound q hq hq₂))
  · rintro ⟨hfound, hmissed⟩
    refine List.filterMap_congr ?_
    intro q hq
    cases hq₂ : q.2 with
    | false => exact reported_found hq₂ (hfound q hq hq₂)
    | true =>
        rw [reported_missed lookup hq₂]
        exact ((Piece.unbound_eq_none lookup).mpr (hmissed q hq hq₂)).symm

theorem missed_eq_false {ps : List Piece} (h : Byte.nl ∉ ps.flatMap Piece.text) :
    ∀ q ∈ marked ps, q.2 = false := by
  induction ps with
  | nil => exact fun q hq => absurd hq List.not_mem_nil
  | cons p ps ih =>
      rw [List.flatMap_cons, List.mem_append, not_or] at h
      intro q hq
      rcases List.mem_cons.mp hq with rfl | hq
      · cases p with
        | bare name =>
            show (ps.flatMap Piece.text).contains Byte.nl = false
            simpa using h.2
        | literal c => rfl
        | braced name => rfl
      · exact ih h.2 q hq

theorem nuSubst_iff (path : Bytes) (lineno : Nat) (value : Bytes) (env : Awk.EnvArray) :
    let alike := SubstAlike path lineno (Nu.substValue path lineno value env)
      (Awk.subst value path lineno env)
    (∀ ps, Tokenization value ps → (alike ↔ NuAgrees env.lookup ps)) ∧
      (Byte.nl ∉ value →
        (alike ↔ ∀ name, Token.ref name ∈ tokens value → env.lookup name ≠ some [])) := by
  intro alike
  have hagrees : ∀ ps, Tokenization value ps → (alike ↔ NuAgrees env.lookup ps) := by
    intro ps hps
    have hnu : Nu.substValue path lineno value env = _ :=
      substLoop_eq env path lineno hps (Nat.lt_succ_self value.length)
    have hawk := Awk.subst_eq env path lineno value
    rw [subst_of_tokenization hps] at hawk
    show SubstAlike _ _ _ _ ↔ _
    rw [hnu, hawk, expandMarked, substAlike_iff, names_eq_iff]
    exact ⟨fun h => ⟨h.2.1, h.2.2, h.1⟩, fun h => ⟨h.text, h.found, h.missed⟩⟩
  refine ⟨hagrees, ?_⟩
  intro hnl
  obtain ⟨ps, hps⟩ := exists_tokenization value
  rw [hagrees ps hps, hps.tokens_eq]
  rw [← hps.text] at hnl
  have hfound := missed_eq_false hnl
  have htext : (marked ps).flatMap (written env.lookup) =
      ps.flatMap (Piece.value env.lookup) := by
    nth_rewrite 2 [← marked_fst ps]
    rw [List.flatMap_map]
    refine List.flatMap_congr ?_
    intro q hq
    rw [written, hfound q hq, if_neg Bool.false_ne_true]
  have hmem : ∀ p ∈ ps, ∃ q ∈ marked ps, q.1 = p := by
    intro p hp
    rw [← marked_fst ps] at hp
    exact List.mem_map.mp hp
  constructor
  · intro h name hname
    obtain ⟨p, hp, htoken⟩ := List.mem_map.mp hname
    obtain ⟨q, hq, rfl⟩ := hmem p hp
    exact h.found q hq (hfound q hq) name htoken
  · intro h
    refine ⟨?_, ?_, htext⟩
    · intro q hq _ name htoken
      refine h name (List.mem_map.mpr ⟨q.1, ?_, htoken⟩)
      rw [← marked_fst ps]
      exact List.mem_map_of_mem hq
    · intro q hq htrue
      rw [hfound q hq] at htrue
      cases htrue

/-- `A` is bound to the empty string, and reported. -/
theorem nuSubst_not_alike :
    let env : Awk.EnvArray := (∅ : Awk.EnvArray).insert (ascii "A") []
    let nu := Nu.substValue (ascii "f") 1 (ascii "$A") env
    let awk := Awk.subst (ascii "$A") (ascii "f") 1 env
    ¬ SubstAlike (ascii "f") 1 nu awk ∧
      nu.2.diags = [⟨.unboundRef, some (ascii "A"), ascii "f", some 1⟩] ∧ awk.2.diags = [] := by
  intro env nu awk
  have hnu : nu.2.diags = [⟨.unboundRef, some (ascii "A"), ascii "f", some 1⟩] := by
    decide +kernel
  have hawk : awk.2.diags = [] := by decide +kernel
  refine ⟨?_, hnu, hawk⟩
  intro h
  have hnames := h.diag_names
  rw [hnu, hawk] at hnames
  cases hnames

end Nu

end Envfile
