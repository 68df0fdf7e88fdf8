/-
# `Envfile.Dispatch.Callers` — what a caller gets forwarded

The config file is mined under all the variables of the caller: a BOM mode that
native format does not have ends the reference before it reads the file, and
the other knobs say how it reads (`readKnobs_miner`).  So what is forwarded for
a knob is its last setting in the reading that the caller asks for, or the
variable of the caller (`forwardedKnob_eq`).
-/
import Envfile.Dispatch.Mining

namespace Envfile.Dispatch

open Assign

/-! ## The knobs of the caller -/

/-- Each knob of the caller is valid or unset. -/
def ValidCaller (environ : Environ) : Prop :=
  ∀ (x : Knob) (v : Bytes), getenv environ x.envName = some v → x.validate v = true

/-- The reading that the caller asks for. -/
def callerReading (environ : Environ) : Reading where
  strip := getenv environ Knob.crlf.envName == some (ascii "strip")
  join := getenv environ Knob.backslashContinuation.envName == some (ascii "accept")

/-- The reference rejects the `ENVFILE_BOM` of the caller, or the file for a
NUL. -/
def Rejects (environ : Environ) (f : Bytes) : Prop :=
  (getenv environ Knob.bom.envName = some (ascii "strip") ∨
    getenv environ Knob.bom.envName = some (ascii "reject")) ∨
  Byte.nul ∈ f ∧ getenv environ Knob.nul.envName ≠ some (ascii "ignore")

instance (environ : Environ) (f : Bytes) : Decidable (Rejects environ f) :=
  inferInstanceAs (Decidable (_ ∨ _))

/-- The settings that the dispatcher gets from a config file. -/
def mined (environ : Environ) (f : Bytes) : List (Knob × Bytes) :=
  if Rejects environ f then [] else (callerReading environ).settings f

theorem validate_ne_nil {x : Knob} {v : Bytes} (h : x.validate v = true) : v ≠ [] := by
  rintro rfl
  cases x <;> exact absurd h (by decide)

theorem Knob.envName_equals (x : Knob) : Byte.equals ∉ x.envName := by
  cases x <;> decide

theorem Knob.envName_inj {x y : Knob} (h : x.envName = y.envName) : x = y := by
  cases x <;> cases y <;> first | rfl | exact absurd h (by decide)

theorem getenv_cons {n name : Bytes} (hn : Byte.equals ∉ n) (hname : Byte.equals ∉ name)
    (v : Bytes) (environ : Environ) :
    getenv ((n ++ Byte.equals :: v) :: environ) name =
      if n = name then some v else getenv environ name := by
  rw [getenv, getenv, List.find?_cons, isPrefixOf_assignment hname hn]
  by_cases h : n = name
  · subst h
    rw [beq_self_eq_true, if_pos rfl, Option.map_some, drop_after]
  · have hne : (name == n) = false := beq_eq_false_iff_ne.mpr fun e => h e.symm
    rw [hne, if_neg h]

theorem getenv_miner (environ : Environ) (x : Knob) :
    getenv (minerEnviron environ) x.envName = getenv environ x.envName := by
  have hformat : ascii "ENVFILE_FORMAT=native" =
      ascii "ENVFILE_FORMAT" ++ Byte.equals :: ascii "native" := by decide
  have haction : ascii "ENVFILE_ACTION=dump" =
      ascii "ENVFILE_ACTION" ++ Byte.equals :: ascii "dump" := by decide
  rw [minerEnviron, hformat, haction, getenv_cons (by decide) x.envName_equals,
    getenv_cons (by decide) x.envName_equals, if_neg, if_neg]
  all_goals cases x <;> decide

theorem knob_miner {environ : Environ} (hvalid : ValidCaller environ) (x : Knob)
    (default_ : Bytes) :
    knob (minerEnviron environ) x.envName default_ =
      (getenv environ x.envName).getD default_ := by
  rw [knob, getenv_miner]
  cases hv : getenv environ x.envName with
  | none => rfl
  | some v =>
      cases v with
      | nil => exact absurd rfl (validate_ne_nil (hvalid x [] hv))
      | cons c v => rfl

theorem ValidCaller.mem {environ : Environ} (hvalid : ValidCaller environ) {x : Knob}
    {values : List Bytes} (hx : x.validate = validate values) {v : Bytes}
    (hv : getenv environ x.envName = some v) : v ∈ values := by
  have h := hvalid x v hv
  rwa [hx, validate, List.contains_iff_mem] at h

theorem callerReading_eq (environ : Environ) :
    callerReading environ =
      ⟨(getenv environ Knob.crlf.envName).getD (ascii "ignore") == ascii "strip",
        (getenv environ Knob.backslashContinuation.envName).getD (ascii "ignore") ==
          ascii "accept"⟩ := by
  rw [callerReading]
  cases getenv environ Knob.crlf.envName <;>
    cases getenv environ Knob.backslashContinuation.envName <;> rfl

theorem nulReject_iff {environ : Environ} (hvalid : ValidCaller environ) :
    ((getenv environ Knob.nul.envName).getD (ascii "reject") == ascii "reject") = true ↔
      getenv environ Knob.nul.envName ≠ some (ascii "ignore") := by
  cases hv : getenv environ Knob.nul.envName with
  | none => decide
  | some v =>
      have hmem := hvalid.mem (x := .nul) rfl hv
      rcases List.mem_cons.mp hmem with rfl | hmem
      · decide
      · obtain rfl := List.mem_singleton.mp hmem
        decide

/-- The knobs that the reference has when it reads the config file. -/
structure MinedBy (environ : Environ) (cfg : Knobs) : Prop where
  native : cfg.native = true
  dump : cfg.action = some .dump
  reading : Reading.mk cfg.crlfStrip cfg.contAccept = callerReading environ
  nulReject : cfg.nulReject = true ↔ getenv environ Knob.nul.envName ≠ some (ascii "ignore")

/-- Native format has no BOM mode but one. -/
theorem readKnobs_mode {environ : Environ} (hvalid : ValidCaller environ) {mode : BomMode}
    (hmode : BomMode.ofName ((getenv environ Knob.bom.envName).getD (ascii "literal")) =
      some mode) :
    (mode = .literal → ∃ cfg, readKnobs (minerEnviron environ) = .ok cfg ∧ MinedBy environ cfg) ∧
    (mode ≠ .literal → ∃ fatal, readKnobs (minerEnviron environ) = .error fatal) := by
  have hformat : knob (minerEnviron environ) (ascii "ENVFILE_FORMAT") (ascii "shell") =
      ascii "native" := rfl
  have haction : Action.ofName (knob (minerEnviron environ) (ascii "ENVFILE_ACTION")
      (ascii "validate")) = some .dump := rfl
  have hbom : knob (minerEnviron environ) (ascii "ENVFILE_BOM") (ascii "literal") =
      (getenv environ Knob.bom.envName).getD (ascii "literal") := knob_miner hvalid .bom _
  have hcrlf : knob (minerEnviron environ) (ascii "ENVFILE_CRLF") (ascii "ignore") =
      (getenv environ Knob.crlf.envName).getD (ascii "ignore") := knob_miner hvalid .crlf _
  have hnul : knob (minerEnviron environ) (ascii "ENVFILE_NUL") (ascii "reject") =
      (getenv environ Knob.nul.envName).getD (ascii "reject") := knob_miner hvalid .nul _
  have hcont : knob (minerEnviron environ) (ascii "ENVFILE_BACKSLASH_CONTINUATION")
      (ascii "ignore") = (getenv environ Knob.backslashContinuation.envName).getD
        (ascii "ignore") := knob_miner hvalid .backslashContinuation _
  rw [readKnobs, knobsBy]
  simp only [hformat, haction, hcrlf, hnul, hcont, beq_self_eq_true, if_true, hbom, hmode]
  refine ⟨fun h => ?_, fun h => ?_⟩
  · rw [dif_neg (fun hno => hno.2 h)]
    exact ⟨_, rfl, rfl, rfl, (callerReading_eq environ).symm, nulReject_iff hvalid⟩
  · rw [dif_pos ⟨trivial, h⟩]
    exact ⟨_, rfl⟩

theorem readKnobs_miner {environ : Environ} (hvalid : ValidCaller environ) :
    (∃ fatal, readKnobs (minerEnviron environ) = .error fatal ∧
      (getenv environ Knob.bom.envName = some (ascii "strip") ∨
        getenv environ Knob.bom.envName = some (ascii "reject"))) ∨
    ∃ cfg, readKnobs (minerEnviron environ) = .ok cfg ∧ MinedBy environ cfg ∧
      ¬ (getenv environ Knob.bom.envName = some (ascii "strip") ∨
        getenv environ Knob.bom.envName = some (ascii "reject")) := by
  have hread : ∀ mode, _ → _ ∧ _ := fun mode => @readKnobs_mode environ hvalid mode
  cases hv : getenv environ Knob.bom.envName with
  | none =>
      rw [hv] at hread
      obtain ⟨cfg, hknobs, hmined⟩ := (hread .literal (by decide)).1 rfl
      exact Or.inr ⟨cfg, hknobs, hmined, by decide⟩
  | some v =>
      have hmem := hvalid.mem (x := .bom) rfl hv
      rw [hv] at hread
      rcases List.mem_cons.mp hmem with rfl | hmem
      · obtain ⟨cfg, hknobs, hmined⟩ := (hread .literal (by decide)).1 rfl
        exact Or.inr ⟨cfg, hknobs, hmined, by decide⟩
      · left
        rcases List.mem_cons.mp hmem with rfl | hmem
        · obtain ⟨fatal, hknobs⟩ := (hread .strip (by decide)).2 (by decide)
          exact ⟨fatal, hknobs, Or.inl rfl⟩
        · obtain rfl := List.mem_singleton.mp hmem
          obtain ⟨fatal, hknobs⟩ := (hread .reject (by decide)).2 (by decide)
          exact ⟨fatal, hknobs, Or.inr rfl⟩

/-! ## What is forwarded -/

/-- What is forwarded for a knob, unless the dispatcher ends. -/
def forwardedKnob (environ : Environ) (path f : Bytes) (x : Knob) : Option (Option Bytes) :=
  (resolve false environ (some (.readable path f))).toOption.map fun s => forwarded s x

theorem validate_assign {l : List (Knob × Bytes)} (hl : allValid l = true) {x : Knob} {v : Bytes}
    (hv : assign empty l x = some v) : x.validate v = true :=
  assign_inv (P := fun p : Knob × Bytes => p.1.validate p.2 = true)
    (fun p hp => List.all_eq_true.mp hl p hp) (fun _ _ h => absurd h.symm (Option.some_ne_none _))
    x v hv

theorem forwarded_eq_or {s : Settings} {x : Knob} {found own : Option Bytes}
    (hs : s x = if found.getD [] = [] then own.getD [] else found.getD [])
    (hfound : ∀ v, found = some v → v ≠ []) (hown : ∀ v, own = some v → v ≠ []) :
    forwarded s x = found.or own := by
  rw [forwarded, hs]
  cases found with
  | some v =>
      have hv : v ≠ [] := hfound v rfl
      simp only [Option.getD_some, hv, if_false, Option.some_or]
  | none =>
      cases own with
      | none => rfl
      | some v =>
          have hv : v ≠ [] := hown v rfl
          simp only [Option.getD_none, if_true, Option.getD_some, hv, if_false, Option.none_or]

section Forwarded

variable {environ : Environ} (hvalid : ValidCaller environ)

include hvalid

theorem loadConfig_eq {path : Bytes} (hpath : path ≠ []) (f : Bytes) :
    loadConfig environ (.readable path f) = (mined environ f).foldlM set unset := by
  rw [loadConfig, mined]
  rcases readKnobs_miner hvalid with ⟨fatal, hknobs, hbom⟩ |
    ⟨cfg, hknobs, hmined, hbom⟩
  · have hrejects : Rejects environ f := Or.inl hbom
    rw [if_pos hrejects, mine, Awk.main, hknobs]
    rfl
  · rw [mine_eq environ hpath f hknobs hmined.native hmined.dump, hmined.reading]
    have hrejects : Rejects environ f ↔ cfg.nulReject = true ∧ Byte.nul ∈ f := by
      rw [Rejects, hmined.nulReject, or_iff_right hbom, and_comm]
    by_cases h : cfg.nulReject = true ∧ Byte.nul ∈ f
    · rw [if_pos h, if_pos (hrejects.mpr h)]
      rfl
    · rw [if_neg h, if_neg (fun hr => h (hrejects.mp hr)), foldlM_configLine]
      · rfl
      · exact fun b hb => (Reading.of_mem_bindings hb).1

theorem fillGap_eq (s : Settings) (x : Knob) :
    fillGap environ s x = .ok (Function.update s x
      (if s x = [] then (getenv environ x.envName).getD [] else s x)) := by
  rw [fillGap]
  split
  · rename_i hempty
    cases hv : getenv environ x.envName with
    | none => rw [Option.getD_none, ← hempty, Function.update_eq_self]
    | some v =>
        cases v with
        | nil => exact absurd rfl (validate_ne_nil (hvalid x [] hv))
        | cons c v =>
            show set s (x, c :: v) = _
            rw [set, if_pos (hvalid x _ hv)]
            rfl
  · rw [Function.update_eq_self]

theorem foldlM_fillGap (s : Settings) :
    Knob.all.foldlM (fillGap environ) s =
      .ok fun x => if s x = [] then (getenv environ x.envName).getD [] else s x := by
  simp only [Knob.all, List.foldlM_cons, List.foldlM_nil, fillGap_eq hvalid]
  refine congrArg Except.ok ?_
  funext x
  cases x <;> rfl

theorem forwardedKnob_eq {path : Bytes} (hpath : path ≠ []) (f : Bytes) (x : Knob) :
    forwardedKnob environ path f x =
      if allValid (mined environ f) then
        some ((assign empty (mined environ f) x).or (getenv environ x.envName))
      else none := by
  have hload := toOption_foldlM_set (mined environ f) unset
  rw [← loadConfig_eq hvalid hpath] at hload
  rw [forwardedKnob, resolve]
  cases hmined : loadConfig environ (.readable path f) with
  | error e =>
      rw [hmined] at hload
      split at hload
      · exact absurd hload.symm (Option.some_ne_none _)
      · rw [if_neg ‹_›]
        rfl
  | ok s =>
      rw [hmined] at hload
      split at hload
      · rename_i hall
        obtain rfl := Option.some.inj hload
        rw [if_pos hall]
        show ((Knob.all.foldlM (fillGap environ) _ >>= gate false).toOption.map _) = _
        rw [foldlM_fillGap hvalid]
        exact congrArg some (forwarded_eq_or rfl
          (fun v hv => validate_ne_nil (validate_assign hall hv))
          fun v hv => validate_ne_nil (hvalid x v hv))
      · exact absurd hload (Option.some_ne_none _)

end Forwarded

/-! ## What the implementation gets -/

theorem getenv_envp_of (s : Settings) {l : List Knob} (x : Knob) :
    getenv (l.filterMap fun y => (forwarded s y).map fun v => y.envName ++ Byte.equals :: v)
      x.envName = if x ∈ l then forwarded s x else none := by
  induction l with
  | nil => rfl
  | cons y l ih =>
      rw [List.filterMap_cons]
      cases hy : forwarded s y with
      | none =>
          by_cases hxy : x = y
          · subst hxy
            simp only [Option.map_none, ih, hy, ite_self]
          · simp only [Option.map_none, ih, List.mem_cons, hxy, false_or]
      | some v =>
          simp only [Option.map_some]
          rw [getenv_cons y.envName_equals x.envName_equals, ih]
          by_cases hxy : x = y
          · subst hxy
            rw [if_pos rfl, if_pos List.mem_cons_self, hy]
          · rw [if_neg (fun e => hxy (Knob.envName_inj e).symm)]
            simp only [List.mem_cons, hxy, false_or]

theorem getenv_envp (s : Settings) (x : Knob) : getenv (envp s) x.envName = forwarded s x := by
  have hmem : x ∈ Knob.all := by cases x <;> decide
  rw [envp, getenv_envp_of, if_pos hmem]

end Envfile.Dispatch
