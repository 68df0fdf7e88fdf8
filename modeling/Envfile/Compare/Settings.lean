/-
# `Envfile.Compare.Settings` — reading the variables

The programs end up with the same settings from the same environment, but for a
variable that is set to the empty string: the reference, the Go and the
JavaScript program take it for unset, the C, Perl, Python, Rust and Zig programs
take it as it is.  `readKnobs_eq_iff` says which empty variables show.

The C and the Zig program want one of the five actions as well (`readConfig_eq`,
`readKnobs_ok_iff`); the Rust and the JavaScript program read variables that are
text (`varOr_eq`, `orDefault_eq`).
-/
import Envfile.C.Runs
import Envfile.Js.Runs
import Envfile.Python.Runs
import Envfile.Rust.Runs
import Envfile.Zig.Runs

namespace Envfile

open Meaning

/-! ## Empty variables -/

/-- The variable is set, to nothing. -/
def SetEmpty (environ : Environ) (name : Bytes) : Prop := getenv environ name = some []

instance (environ : Environ) (name : Bytes) : Decidable (SetEmpty environ name) :=
  inferInstanceAs (Decidable (_ = _))

section Empty

variable {environ : Environ} {name : Bytes}

theorem knobIfSet_eq_knob (h : ¬ SetEmpty environ name) (default_ : Bytes) :
    knobIfSet environ name default_ = knob environ name default_ := by
  rw [SetEmpty] at h
  rw [knobIfSet, knob]
  cases hv : getenv environ name with
  | none => rfl
  | some v =>
      cases v with
      | nil => exact absurd hv h
      | cons c v => rfl

theorem knob_setEmpty (h : SetEmpty environ name) (default_ : Bytes) :
    knob environ name default_ = default_ ∧ knobIfSet environ name default_ = [] := by
  rw [SetEmpty] at h
  rw [knob, knobIfSet, h]
  exact ⟨rfl, rfl⟩

/-- A value that a test is not for passes for the default that it is not for
either. -/
theorem knobIfSet_beq {default_ wanted : Bytes} (hdefault : default_ ≠ wanted)
    (hwanted : wanted ≠ []) :
    (knobIfSet environ name default_ == wanted) = (knob environ name default_ == wanted) := by
  by_cases h : SetEmpty environ name
  · obtain ⟨hknob, hset⟩ := knob_setEmpty h default_
    rw [hknob, hset, beq_eq_false_iff_ne.mpr hdefault, beq_eq_false_iff_ne.mpr hwanted.symm]
  · rw [knobIfSet_eq_knob h]

end Empty

theorem knobsBy_congr {value value' : Bytes → Bytes → Bytes}
    (hformat : (value (ascii "ENVFILE_FORMAT") (ascii "shell") == ascii "native") =
      (value' (ascii "ENVFILE_FORMAT") (ascii "shell") == ascii "native"))
    (haction : Action.ofName (value (ascii "ENVFILE_ACTION") (ascii "validate")) =
      Action.ofName (value' (ascii "ENVFILE_ACTION") (ascii "validate")))
    (hbom : ∀ default_, value (ascii "ENVFILE_BOM") default_ = value' (ascii "ENVFILE_BOM") default_)
    (hcrlf : (value (ascii "ENVFILE_CRLF") (ascii "ignore") == ascii "strip") =
      (value' (ascii "ENVFILE_CRLF") (ascii "ignore") == ascii "strip"))
    (hnul : (value (ascii "ENVFILE_NUL") (ascii "reject") == ascii "reject") =
      (value' (ascii "ENVFILE_NUL") (ascii "reject") == ascii "reject"))
    (hcont : (value (ascii "ENVFILE_BACKSLASH_CONTINUATION") (ascii "ignore") == ascii "accept") =
      (value' (ascii "ENVFILE_BACKSLASH_CONTINUATION") (ascii "ignore") == ascii "accept")) :
    knobsBy value = knobsBy value' := by
  simp only [knobsBy, hformat, haction, hbom, hcrlf, hnul, hcont]

theorem of_knobsBy_ok {value : Bytes → Bytes → Bytes} {cfg : Knobs}
    (h : knobsBy value = .ok cfg) :
    cfg.action = Action.ofName (value (ascii "ENVFILE_ACTION") (ascii "validate")) ∧
      cfg.nulReject = (value (ascii "ENVFILE_NUL") (ascii "reject") == ascii "reject") ∧
      BomMode.ofName (value (ascii "ENVFILE_BOM")
        (if value (ascii "ENVFILE_FORMAT") (ascii "shell") == ascii "native" then ascii "literal"
          else ascii "strip")) = some cfg.bom := by
  simp only [knobsBy] at h
  split at h
  · cases h
  · rename_i mode hmode
    split at h
    · cases h
    · obtain rfl := Except.ok.inj h
      exact ⟨rfl, rfl, hmode⟩

section Differ

variable (environ : Environ)

theorem format_eq :
    (knobIfSet environ (ascii "ENVFILE_FORMAT") (ascii "shell") == ascii "native") =
      (knob environ (ascii "ENVFILE_FORMAT") (ascii "shell") == ascii "native") :=
  knobIfSet_beq (by decide) (by decide)

theorem knobsBy_eq (hbom : ¬ SetEmpty environ (ascii "ENVFILE_BOM"))
    (haction : ¬ SetEmpty environ (ascii "ENVFILE_ACTION"))
    (hnul : ¬ SetEmpty environ (ascii "ENVFILE_NUL")) :
    knobsBy (knobIfSet environ) = knobsBy (knob environ) :=
  knobsBy_congr (format_eq environ) (by rw [knobIfSet_eq_knob haction])
    (fun default_ => knobIfSet_eq_knob hbom default_) (knobIfSet_beq (by decide) (by decide))
    (by rw [knobIfSet_eq_knob hnul]) (knobIfSet_beq (by decide) (by decide))

/-- A run that ends for its BOM mode ends so in both, unless the variable is
empty. -/
theorem knobsBy_error (hbom : ¬ SetEmpty environ (ascii "ENVFILE_BOM")) {fault : Fatal}
    (h : knobsBy (knob environ) = .error fault) : knobsBy (knobIfSet environ) = .error fault := by
  rw [← h]
  simp only [knobsBy, format_eq environ, knobIfSet_eq_knob hbom] at h ⊢
  split at h
  · rfl
  · split at h
    · rw [dif_pos ‹_›, dif_pos ‹_›]
    · cases h

theorem knobsBy_ne_of_bom (h : SetEmpty environ (ascii "ENVFILE_BOM")) :
    knobsBy (knobIfSet environ) ≠ knobsBy (knob environ) := by
  intro heq
  have hset : ∀ default_, knobIfSet environ (ascii "ENVFILE_BOM") default_ = [] :=
    fun default_ => (knob_setEmpty h default_).2
  have hnone : BomMode.ofName [] = none := by decide
  have herror : knobsBy (knobIfSet environ) = .error (.badEnvfileBom []) := by
    simp only [knobsBy, hset, hnone]
  have hmodes : BomMode.ofName (ascii "literal") = some .literal ∧
      BomMode.ofName (ascii "strip") = some .strip := by decide
  rw [herror] at heq
  simp only [knobsBy, (knob_setEmpty h _).1] at heq
  cases hnative : knob environ (ascii "ENVFILE_FORMAT") (ascii "shell") == ascii "native" with
  | true =>
      simp only [hnative, if_true, hmodes.1] at heq
      rw [dif_neg fun h => h.2 rfl] at heq
      cases heq
  | false =>
      simp only [hnative, Bool.false_eq_true, if_false, hmodes.2, false_and] at heq
      cases heq

/-- The two come to the same exactly when `ENVFILE_BOM` is not empty, nor
`ENVFILE_ACTION` or `ENVFILE_NUL` where there is no fault. -/
theorem knobsBy_eq_iff :
    knobsBy (knob environ) = knobsBy (knobIfSet environ) ↔
      ¬ SetEmpty environ (ascii "ENVFILE_BOM") ∧
        ((∃ fault, knobsBy (knob environ) = .error fault) ∨
          ¬ SetEmpty environ (ascii "ENVFILE_ACTION") ∧
            ¬ SetEmpty environ (ascii "ENVFILE_NUL")) := by
  constructor
  · intro h
    refine ⟨fun hbom => knobsBy_ne_of_bom environ hbom h.symm, ?_⟩
    cases hcfg : knobsBy (knob environ) with
    | error fault => exact Or.inl ⟨fault, rfl⟩
    | ok cfg =>
        obtain ⟨haction, hnul, -⟩ := of_knobsBy_ok hcfg
        obtain ⟨haction', hnul', -⟩ := of_knobsBy_ok (h.symm.trans hcfg)
        refine Or.inr ⟨fun hempty => ?_, fun hempty => ?_⟩
        · have hvalidate : Action.ofName (ascii "validate") ≠ Action.ofName [] := by decide
          rw [(knob_setEmpty hempty _).1] at haction
          rw [(knob_setEmpty hempty _).2] at haction'
          exact hvalidate (haction.symm.trans haction')
        · have hreject : (ascii "reject" == ascii "reject") ≠ (([] : Bytes) == ascii "reject") := by
            decide
          rw [(knob_setEmpty hempty _).1] at hnul
          rw [(knob_setEmpty hempty _).2] at hnul'
          exact hreject (hnul.symm.trans hnul')
  · rintro ⟨hbom, ⟨fault, hfault⟩ | ⟨haction, hnul⟩⟩
    · rw [hfault, knobsBy_error environ hbom hfault]
    · exact (knobsBy_eq environ hbom haction hnul).symm

/-- The readings of the variables are the same exactly when `ENVFILE_BOM` is not
empty, nor `ENVFILE_ACTION` or `ENVFILE_NUL` where the run goes on. -/
theorem readKnobs_eq_iff :
    readKnobs environ = Python.readKnobs environ ↔
      ¬ SetEmpty environ (ascii "ENVFILE_BOM") ∧
        ((∃ fault, readKnobs environ = .error fault) ∨
          ¬ SetEmpty environ (ascii "ENVFILE_ACTION") ∧
            ¬ SetEmpty environ (ascii "ENVFILE_NUL")) := by
  rw [readKnobs, Python.readKnobs]
  exact knobsBy_eq_iff environ

end Differ

/-! ## The programs that want an action -/

/-- The C program reads as the Python program does, and stops at an action that
is none of the five. -/
theorem C.readConfig_eq (environ : Environ) :
    C.readConfig environ =
      match knobsBy (knobIfSet environ) with
      | .error fault => .error fault
      | .ok cfg =>
          match cfg.action with
          | some action => .ok (C.ofKnobs cfg action)
          | none => .error (.unsupportedAction
              (knobIfSet environ (ascii "ENVFILE_ACTION") (ascii "validate"))) := by
  have hcrlf : (getenv environ (ascii "ENVFILE_CRLF") == some (ascii "strip")) =
      (knobIfSet environ (ascii "ENVFILE_CRLF") (ascii "ignore") == ascii "strip") := by
    rw [knobIfSet]
    cases getenv environ (ascii "ENVFILE_CRLF") with
    | none => decide
    | some v => rfl
  have hcont : (getenv environ (ascii "ENVFILE_BACKSLASH_CONTINUATION") ==
        some (ascii "accept")) =
      (knobIfSet environ (ascii "ENVFILE_BACKSLASH_CONTINUATION") (ascii "ignore") ==
        ascii "accept") := by
    rw [knobIfSet]
    cases getenv environ (ascii "ENVFILE_BACKSLASH_CONTINUATION") with
    | none => decide
    | some v => rfl
  have haction : C.parseAction (getenv environ (ascii "ENVFILE_ACTION")) =
      match Action.ofName (knobIfSet environ (ascii "ENVFILE_ACTION") (ascii "validate")) with
      | some action => .ok action
      | none => .error (.unsupportedAction
          (knobIfSet environ (ascii "ENVFILE_ACTION") (ascii "validate"))) := by
    rw [knobIfSet]
    cases getenv environ (ascii "ENVFILE_ACTION") with
    | none => rfl
    | some v => rfl
  have hformat : (getenv environ (ascii "ENVFILE_FORMAT")).getD (ascii "shell") =
      knobIfSet environ (ascii "ENVFILE_FORMAT") (ascii "shell") := rfl
  have hbom : ∀ default_, (getenv environ (ascii "ENVFILE_BOM")).getD default_ =
      knobIfSet environ (ascii "ENVFILE_BOM") default_ := fun _ => rfl
  simp only [C.readConfig, knobsBy, hformat, hbom, haction, hcrlf, hcont]
  cases BomMode.ofName (knobIfSet environ (ascii "ENVFILE_BOM") _) with
  | none => rfl
  | some mode =>
      simp only
      split
      · rfl
      · cases Action.ofName (knobIfSet environ (ascii "ENVFILE_ACTION") (ascii "validate")) with
        | none => rfl
        | some action =>
            simp only [C.ofKnobs]
            congr 2
            rw [knobIfSet]
            cases getenv environ (ascii "ENVFILE_NUL") with
            | none => decide
            | some v => rfl

namespace Zig

/-- The Zig program goes on with the settings of the Python program, if they have
an action. -/
theorem readKnobs_ok_iff (environ : Environ) (cfg : Knobs) :
    readKnobs environ = .ok cfg ↔
      knobsBy (knobIfSet environ) = .ok cfg ∧ cfg.action ≠ none := by
  have hparse : ∀ {mode : Option BomMode},
      BomMode.ofName (knobIfSet environ (ascii "ENVFILE_BOM")
        (if knobIfSet environ (ascii "ENVFILE_FORMAT") (ascii "shell") == ascii "native"
          then ascii "literal" else ascii "strip")) = mode →
      BomMode.ofName ((getenv environ (ascii "ENVFILE_BOM")).getD
        (if knobIfSet environ (ascii "ENVFILE_FORMAT") (ascii "shell") == ascii "native"
          then ascii "literal" else ascii "strip")) = mode := fun h => h
  rw [readKnobs]
  simp only [parseAction, parseBom]
  constructor
  · intro h
    cases haction : Action.ofName (knobIfSet environ (ascii "ENVFILE_ACTION") (ascii "validate"))
      with
    | none =>
        rw [haction] at h
        cases h
    | some action =>
        rw [haction] at h
        cases hmode : BomMode.ofName (knobIfSet environ (ascii "ENVFILE_BOM") _) with
        | none =>
            rw [hparse hmode] at h
            cases h
        | some mode =>
            rw [hparse hmode] at h
            by_cases hnative : (knobIfSet environ (ascii "ENVFILE_FORMAT") (ascii "shell") ==
                ascii "native") = true ∧ mode ≠ .literal
            · have hstop := (dif_pos hnative).symm.trans h
              cases hstop
            · have hgoes := (dif_neg hnative).symm.trans h
              obtain rfl := Except.ok.inj hgoes
              refine ⟨?_, Option.some_ne_none _⟩
              simp only [knobsBy, hmode, haction]
              exact dif_neg hnative
  · rintro ⟨h, hne⟩
    obtain ⟨haction, -, hmode⟩ := of_knobsBy_ok h
    obtain ⟨action, hact⟩ := Option.ne_none_iff_exists'.mp hne
    rw [hact] at haction
    simp only [knobsBy, hmode, ← haction] at h
    rw [← haction, hparse hmode]
    split at h
    · cases h
    · exact (dif_neg ‹_›).trans (congrArg Except.ok (Except.ok.inj h))

end Zig

/-! ## Variables that are text -/

section Text

variable {environ : Environ}

/-- The first entry with a name is the first pair with it. -/
theorem getenv_eq_find {name : Bytes} (hname : Byte.equals ∉ name) :
    getenv environ name =
      ((environ.filterMap splitEquals).find? fun b => b.1 == name).map Prod.snd := by
  induction environ with
  | nil => rfl
  | cons entry environ ih =>
      rw [getenv] at ih ⊢
      rcases line_shape entry with ⟨hno, hsplit⟩ | ⟨k, v, rfl, hk, hsplit⟩
      · have hbegins : (name ++ [Byte.equals]).isPrefixOf entry = false := by
          rw [Bool.eq_false_iff, ne_eq, List.isPrefixOf_iff_prefix]
          intro h
          exact hno (h.subset (List.mem_append_right _ List.mem_cons_self))
        rw [List.find?_cons, hbegins, List.filterMap_cons_none hsplit]
        exact ih
      · rw [List.find?_cons, List.filterMap_cons_some hsplit, List.find?_cons]
        by_cases hkey : k = name
        · subst hkey
          have hbegins : (k ++ [Byte.equals]).isPrefixOf (k ++ Byte.equals :: v) = true := by
            rw [List.isPrefixOf_iff_prefix]
            exact ⟨v, List.append_assoc _ _ _⟩
          rw [hbegins, beq_self_eq_true]
          exact congrArg some (drop_after k v _)
        · have hbegins : (name ++ [Byte.equals]).isPrefixOf (k ++ Byte.equals :: v) = false := by
            rw [Bool.eq_false_iff, ne_eq, List.isPrefixOf_iff_prefix]
            rintro ⟨t, ht⟩
            rw [List.append_assoc] at ht
            exact hkey (split_unique hname hk ht).1.symm
          rw [hbegins, beq_eq_false_iff_ne.mpr hkey]
          exact ih

theorem Rust.varOr_eq (h : Textual environ) {name : Bytes} (hname : Byte.equals ∉ name)
    (default_ : Bytes) : Rust.varOr environ name default_ = knobIfSet environ name default_ := by
  rw [Rust.varOr, knobIfSet]
  cases hv : getenv environ name with
  | none => rfl
  | some v =>
      rw [getenv_eq_find hname] at hv
      obtain ⟨b, hb, rfl⟩ := Option.map_eq_some_iff.mp hv
      exact if_pos (h b (List.mem_of_find?_eq_some hb)).2

theorem Js.orDefault_eq (h : Textual environ) {name : Bytes} (hname : Byte.equals ∉ name)
    (default_ : Bytes) :
    Js.orDefault (Js.processEnv environ) name default_ = knob environ name default_ := by
  have hget : ((environ.filterMap splitEquals).find? fun b => b.1 == name).map Prod.snd =
      getenv environ name := (getenv_eq_find hname).symm
  cases hv : getenv environ name with
  | none =>
      rw [hv] at hget
      rw [Js.orDefault, Js.processEnv_eq h, hget, knob, hv]
  | some v =>
      rw [hv] at hget
      cases v <;> rw [Js.orDefault, Js.processEnv_eq h, hget, knob, hv]

theorem Rust.readKnobs_eq (h : Textual environ) :
    Rust.readKnobs environ = knobsBy (knobIfSet environ) := by
  have hvar : ∀ name default_, Byte.equals ∉ name →
      Rust.varOr environ name default_ = knobIfSet environ name default_ :=
    fun name default_ hname => Rust.varOr_eq h hname default_
  exact knobsBy_congr (by rw [hvar _ _ (by decide)]) (by rw [hvar _ _ (by decide)])
    (fun default_ => hvar _ default_ (by decide)) (by rw [hvar _ _ (by decide)])
    (by rw [hvar _ _ (by decide)]) (by rw [hvar _ _ (by decide)])

theorem Js.readKnobs_eq (h : Textual environ) :
    Js.readKnobs (Js.processEnv environ) = knobsBy (knob environ) := by
  have hvar : ∀ name default_, Byte.equals ∉ name →
      Js.orDefault (Js.processEnv environ) name default_ = knob environ name default_ :=
    fun name default_ hname => Js.orDefault_eq h hname default_
  exact knobsBy_congr (by rw [hvar _ _ (by decide)]) (by rw [hvar _ _ (by decide)])
    (fun default_ => hvar _ default_ (by decide)) (by rw [hvar _ _ (by decide)])
    (by rw [hvar _ _ (by decide)]) (by rw [hvar _ _ (by decide)])

end Text

end Envfile
