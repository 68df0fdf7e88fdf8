/-
# `Envfile.Meaning` — what a run means

The abstract program: the environment is a partial map, a counter is a natural
number, and a line does what its outcome says.  A port refines it when its
loop body does the same to its own table and its own counters; then its runs
do (`Refines.run`).

What the classification of a line is, and which lines a file has, is left to
the port: `classify` and the list of lines are parameters.
-/
import Envfile.Config
import Envfile.Lib.Assign
import Envfile.Record
import Envfile.Substitution

namespace Envfile.Meaning

/-- The environment: what a name is bound to. -/
abbrev Env := Bytes → Option Bytes

section Line

variable (native : Bool) (action : Action) (classify : Bytes → Outcome) (path : Bytes)
  (lineNo : Nat)

/-- The value that a binding gets, and the names that are unbound in it. -/
def resolve (quoting : Quoting) (v : Bytes) (env : Env) : Bytes × List Bytes :=
  if native || quoting != .single then subst env v else (v, [])

/-- An accepted record. -/
def accept (k v : Bytes) (quoting : Quoting) : Step Env (Out Nat) := fun env =>
  match action with
  | .dump => (env, Out.print k v)
  | .delta | .apply =>
      let resolved := resolve native quoting v env
      (Function.update env k (some resolved.1),
        Out.unbound path lineNo resolved.2 +
          if action = .delta then Out.print k resolved.1 else 0)
  | .normalize | .validate => (env, 0)

def record : Outcome → Step Env (Out Nat)
  | .skipped => Step.skip
  | .rejected code => Step.emit (Out.check + Out.diag ⟨code, none, path, some lineNo⟩)
  | .accepted k v quoting => Step.prepend Out.check (accept native action path lineNo k v quoting)

/-- A line that is printed as it is, if it has an `=`. -/
def printed (text : Bytes) : Out Nat :=
  if isSkipped text then 0
  else Out.check +
    match splitEquals text with
    | none => Out.diag ⟨.noEquals, none, path, some lineNo⟩
    | some (k, v) => Out.print k v

def line (text : Bytes) : Step Env (Out Nat) :=
  Step.prepend (Out.hand text lineNo)
    (if action = .normalize then Step.emit (printed path lineNo text)
    else record native action path lineNo (classify text))

end Line

/-! ## Counters -/

/-- An output with the counters of a port. -/
def toOut (ι : Type) [AddMonoidWithOne ι] : Out Nat →+ Out ι where
  toFun o := ⟨o.stdout, o.diags, (o.checked : ι), (o.errors : ι), o.handed⟩
  map_zero' := by ext1 <;> first | rfl | exact Nat.cast_zero
  map_add' o p := by ext1 <;> first | rfl | exact Nat.cast_add _ _

section Counters

variable {ι : Type} [AddMonoidWithOne ι]

@[simp] theorem toOut_print (k v : Bytes) : toOut ι (Out.print k v) = Out.print k v := by
  ext1 <;> first | rfl | exact Nat.cast_zero

@[simp] theorem toOut_check : toOut ι Out.check = Out.check := by
  ext1 <;> first | rfl | exact Nat.cast_zero | exact Nat.cast_one

@[simp] theorem toOut_diag (d : Diag) : toOut ι (Out.diag d) = Out.diag d := by
  ext1 <;> first | rfl | exact Nat.cast_zero | exact Nat.cast_one

@[simp] theorem toOut_hand (text : Bytes) (lineNo : Nat) :
    toOut ι (Out.hand text lineNo) = Out.hand text lineNo := by
  ext1 <;> first | rfl | exact Nat.cast_zero

@[simp] theorem toOut_unbound (path : Bytes) (lineNo : Nat) (names : List Bytes) :
    toOut ι (Out.unbound path lineNo names) = Out.unbound path lineNo names := by
  rw [Out.unbound_eq, Out.unbound_eq]
  ext1 <;> first | rfl | exact Nat.cast_zero

end Counters

/-- The counters count: the records that were handed on, and the diagnostics. -/
structure Counted (o : Out Nat) : Prop where
  checked : o.checked = (o.handed.filter fun p => !isSkipped p.1).length
  errors : o.errors = o.diags.length

theorem counted_zero : Counted 0 := ⟨rfl, rfl⟩

theorem Counted.add {o p : Out Nat} (ho : Counted o) (hp : Counted p) : Counted (o + p) := by
  refine ⟨?_, ?_⟩
  · rw [Out.add_checked, Out.add_handed, List.filter_append, List.length_append, ho.checked,
      hp.checked]
  · rw [Out.add_errors, Out.add_diags, List.length_append, ho.errors, hp.errors]

/-- What a line that is not skipped writes, beside handing itself on. -/
structure CountsOne (o : Out Nat) : Prop where
  handed : o.handed = []
  checked : o.checked = 1
  errors : o.errors = o.diags.length

theorem accept_counts (native : Bool) (action : Action) (path : Bytes) (lineNo : Nat)
    (k v : Bytes) (quoting : Quoting) (env : Env) :
    CountsOne (Out.check + (accept native action path lineNo k v quoting env).2) := by
  have hstored : ∀ (names : List Bytes) (o : Out Nat), o.handed = [] → o.checked = 0 →
      o.errors = 0 → o.diags = [] →
      CountsOne (Out.check + (Out.unbound path lineNo names + o)) := by
    intro names o hhanded hchecked herrors hdiags
    rw [Out.unbound_eq]
    refine ⟨?_, ?_, ?_⟩
    · exact hhanded
    · show 1 + (0 + o.checked) = 1
      rw [hchecked]
    · show 0 + ((names.length : Nat) + o.errors) = ([] ++ (names.map _ ++ o.diags)).length
      rw [herrors, hdiags, List.nil_append, List.append_nil, List.length_map, zero_add, add_zero]
  cases action with
  | dump => exact ⟨rfl, rfl, rfl⟩
  | delta => exact hstored _ _ rfl rfl rfl rfl
  | apply => exact hstored _ _ rfl rfl rfl rfl
  | normalize => exact ⟨rfl, rfl, rfl⟩
  | validate => exact ⟨rfl, rfl, rfl⟩

/-- A line is counted exactly when it is not skipped. -/
theorem counted_line (native : Bool) (action : Action) {classify : Bytes → Outcome} (path : Bytes)
    (lineNo : Nat) {text : Bytes} (h : classify text = .skipped ↔ isSkipped text = true)
    (env : Env) : Counted (line native action classify path lineNo text env).2 := by
  have hskip : isSkipped text = true → Counted (Out.hand text lineNo + 0) := by
    intro hskip
    rw [add_zero]
    refine ⟨?_, rfl⟩
    show 0 = ([(text, lineNo)].filter fun p => !isSkipped p.1).length
    rw [List.filter_cons, hskip]
    rfl
  have hcount : ∀ o : Out Nat, isSkipped text = false → CountsOne o →
      Counted (Out.hand text lineNo + o) := by
    intro o hskip ho
    refine ⟨?_, ?_⟩
    · rw [Out.add_checked, Out.add_handed, ho.handed, List.append_nil, ho.checked]
      show 0 + 1 = ([(text, lineNo)].filter fun p => !isSkipped p.1).length
      rw [List.filter_cons, hskip]
      rfl
    · rw [Out.add_errors, Out.add_diags, ho.errors]
      exact zero_add _
  rw [line, Step.prepend_snd]
  split
  · show Counted (_ + printed path lineNo text)
    rw [printed]
    cases hs : isSkipped text with
    | true => exact hskip hs
    | false =>
        refine hcount _ hs ?_
        cases splitEquals text with
        | none => exact ⟨rfl, rfl, rfl⟩
        | some b => exact ⟨rfl, rfl, rfl⟩
  · cases ho : classify text with
    | skipped => exact hskip (h.mp ho)
    | rejected code =>
        refine hcount _ (Bool.eq_false_iff.mpr fun hs => ?_) ⟨rfl, rfl, rfl⟩
        rw [h.mpr hs] at ho
        cases ho
    | accepted k v quoting =>
        refine hcount _ (Bool.eq_false_iff.mpr fun hs => ?_) (accept_counts ..)
        rw [h.mpr hs] at ho
        cases ho

/-! ## Refinement -/

section Refines

variable {σ ι : Type} [AddMonoidWithOne ι]

/-- A port's step refines a step of the meaning: `R` relates the port's table
to the environment, and the port writes the same. -/
def Refines (R : σ → Env → Prop) (f : Step σ (Out ι)) (g : Step Env (Out Nat)) : Prop :=
  ∀ s env, R s env → R (f s).1 (g env).1 ∧ (f s).2 = toOut ι (g env).2

theorem Refines.run {α : Type} {R : σ → Env → Prop} {f : α → Step σ (Out ι)}
    {g : α → Step Env (Out Nat)} {as : List α} (h : ∀ a ∈ as, Refines R (f a) (g a)) :
    Refines R (Step.run f as) (Step.run g as) := by
  intro s env hR
  have hall : List.Forall₂ (fun a b => a = b ∧ a ∈ as) as as :=
    List.forall₂_same.mpr fun a ha => ⟨rfl, ha⟩
  refine Step.run_sim R (fun _ o p => o = toOut ι p) (map_zero _).symm ?_ ?_ hall hR
  · intro a as v v' w w' hv hw
    rw [hv, hw, map_add]
  · rintro a b ⟨rfl, ha⟩ s env hR
    exact h a ha s env hR

theorem Refines.prepend {R : σ → Env → Prop} {f : Step σ (Out ι)} {g : Step Env (Out Nat)}
    (h : Refines R f g) (o : Out Nat) :
    Refines R (Step.prepend (toOut ι o) f) (Step.prepend o g) := by
  intro s env hR
  obtain ⟨hstate, hout⟩ := h s env hR
  refine ⟨hstate, ?_⟩
  rw [Step.prepend_snd, Step.prepend_snd, hout, map_add]

theorem Refines.emit {R : σ → Env → Prop} (o : Out Nat) :
    Refines R (Step.emit (toOut ι o)) (Step.emit o) :=
  fun _ _ hR => ⟨hR, rfl⟩

end Refines

end Envfile.Meaning
