/-
# `Envfile.Dispatch.Languages` — one dispatcher, eight programs

The dispatcher promises that all configuration is resolved when it starts a
program.  The program does read what was resolved (`goes_on_resolved`), but for a
`ENVFILE_BOM` or `ENVFILE_NUL` that the caller has set to nothing: it is handed on
as it is, and the programs differ on it (`readings_agree_iff`).

So `language=` makes no difference to what is shown (`language_irrelevant`), if
the reference is not among the two: it gets `LC_ALL=C` as well, which `apply`
lists (`environments_agree_iff`).  A caller who exports a variable that the script
has for itself, `language` or `impl`, hands the difference on.
-/
import Envfile.Dispatch.Handover

namespace Envfile.Dispatch

open Assign Meaning

/-! ## What the program reads -/

/-- The settings that the dispatcher has resolved. -/
structure Plan.Gives (p : Plan) (cfg : Knobs) : Prop where
  native : cfg.native = (p.routing .format == ascii "native")
  action : cfg.action = Action.ofName (p.routing .action)
  bom : cfg.bom.name = if p.settings .bom = [] then
    (if cfg.native then ascii "literal" else ascii "strip") else p.settings .bom
  crlf : cfg.crlfStrip = (p.settings .crlf == ascii "strip")
  nul : cfg.nulReject = !(p.settings .nul == ascii "ignore")
  cont : cfg.contAccept = (p.settings .backslashContinuation == ascii "accept")

theorem knob_of_getenv {environ : Environ} {n v : Bytes} (h : getenv environ n = some v)
    (hv : v ≠ []) (default_ : Bytes) : knob environ n default_ = v := by
  rw [knob, h]
  cases v with
  | nil => exact absurd rfl hv
  | cons c v => rfl

theorem BomMode.name_of_ofName {v : Bytes} {mode : BomMode} (h : BomMode.ofName v = some mode) :
    mode.name = v :=
  beq_iff_eq.mp (List.find?_some (p := fun m : BomMode => m.name == v) h)

section Read

variable {host : Host} {environ : Environ} {args : List Bytes} {p : Plan}

theorem Planned.knob_eq (h : Planned host environ args p) (x : Knob) (default_ : Bytes) :
    knob (setAll environ p.sets) x.envName default_ =
      if p.settings x = [] then default_ else p.settings x := by
  have hget := h.getenv_knob x
  by_cases hx : p.settings x = []
  · rw [if_pos hx, knob, hget, forwarded, if_pos hx, Option.none_or]
    have hfilled := h.resolved.filled x hx
    cases hv : getenv environ x.envName with
    | none => rfl
    | some v =>
        rw [hv] at hfilled
        obtain rfl : v = [] := hfilled
        rfl
  · rw [forwarded, if_neg hx, Option.some_or] at hget
    rw [if_neg hx, knob_of_getenv hget hx]

theorem Planned.setEmpty_iff (h : Planned host environ args p) (x : Knob) :
    SetEmpty (setAll environ p.sets) x.envName ↔
      p.settings x = [] ∧ SetEmpty environ x.envName := by
  rw [SetEmpty, SetEmpty, h.getenv_knob x, forwarded]
  by_cases hx : p.settings x = []
  · rw [if_pos hx, Option.none_or]
    exact ⟨fun he => ⟨hx, he⟩, fun he => he.2⟩
  · rw [if_neg hx, Option.some_or]
    exact ⟨fun he => absurd (Option.some.inj he) hx, fun he => absurd he.1 hx⟩

theorem Planned.bomMode (h : Planned host environ args p) :
    ∃ mode, BomMode.ofName (if p.settings .bom = [] then
        (if p.routing .format == ascii "native" then ascii "literal" else ascii "strip")
      else p.settings .bom) = some mode ∧
      ((p.routing .format == ascii "native") = true → mode = .literal) := by
  have hliteral : BomMode.ofName (ascii "literal") = some .literal := by decide
  by_cases hbom : p.settings .bom = []
  · rw [if_pos hbom]
    cases hnative : p.routing .format == ascii "native" with
    | true => exact ⟨.literal, hliteral, fun _ => rfl⟩
    | false => exact ⟨.strip, by decide, fun h => by cases h⟩
  · rw [if_neg hbom]
    have hmodes : ∀ v ∈ [ascii "literal", ascii "strip", ascii "reject"],
        (BomMode.ofName v).isSome = true := by decide
    obtain ⟨mode, hmode⟩ := Option.isSome_iff_exists.mp
      (hmodes _ (List.contains_iff_mem.mp (h.resolved.valid .bom hbom)))
    refine ⟨mode, hmode, fun hnative => ?_⟩
    rcases h.resolved.bom hnative with hempty | hvalue
    · exact absurd hempty hbom
    · rw [hvalue, hliteral] at hmode
      exact (Option.some.inj hmode).symm

/-- A knob that is not what is asked for by default is what is asked for where it
was resolved so. -/
theorem beq_resolved {s v default_ wanted : Bytes} (hs : v = if s = [] then default_ else s)
    (hdefault : default_ ≠ wanted) (hwanted : wanted ≠ []) : (v == wanted) = (s == wanted) := by
  rw [hs]
  by_cases hempty : s = []
  · rw [if_pos hempty, hempty, beq_eq_false_iff_ne.mpr hdefault,
      beq_eq_false_iff_ne.mpr hwanted.symm]
  · rw [if_neg hempty]

theorem Planned.nul_eq (h : Planned host environ args p) :
    ((if p.settings .nul = [] then ascii "reject" else p.settings .nul) == ascii "reject") =
      !(p.settings .nul == ascii "ignore") := by
  by_cases hempty : p.settings .nul = []
  · rw [hempty]
    decide
  · rw [if_neg hempty]
    have hvalues : ∀ v ∈ [ascii "reject", ascii "ignore"],
        (v == ascii "reject") = !(v == ascii "ignore") := by decide
    exact hvalues _ (List.contains_iff_mem.mp (h.resolved.valid .nul hempty))

theorem Planned.readKnobs_eq (h : Planned host environ args p) :
    ∃ cfg, readKnobs (setAll environ p.sets) = .ok cfg ∧ p.Gives cfg := by
  have hformats : ∀ v ∈ Host.formats, v ≠ [] := by decide
  have hactions : ∀ v ∈ actions, v ≠ [] := by decide
  have hformat := knob_of_getenv h.getenv_format (hformats _ h.format) (ascii "shell")
  have haction := knob_of_getenv h.getenv_action (hactions _ h.action) (ascii "validate")
  have hbom : ∀ default_, knob (setAll environ p.sets) (ascii "ENVFILE_BOM") default_ = _ :=
    h.knob_eq .bom
  have hcrlf : knob (setAll environ p.sets) (ascii "ENVFILE_CRLF") (ascii "ignore") = _ :=
    h.knob_eq .crlf _
  have hnul : knob (setAll environ p.sets) (ascii "ENVFILE_NUL") (ascii "reject") = _ :=
    h.knob_eq .nul _
  have hcont : knob (setAll environ p.sets) (ascii "ENVFILE_BACKSLASH_CONTINUATION")
      (ascii "ignore") = _ := h.knob_eq .backslashContinuation _
  obtain ⟨mode, hmode, hliteral⟩ := h.bomMode
  rw [readKnobs, knobsBy]
  simp only [hformat, haction, hbom, hmode]
  rw [dif_neg fun hno => hno.2 (hliteral hno.1)]
  refine ⟨_, rfl, rfl, rfl, BomMode.name_of_ofName hmode, ?_, ?_, ?_⟩
  · exact beq_resolved hcrlf (by decide) (by decide)
  · show (knob _ _ _ == _) = _
    rw [hnul, h.nul_eq]
  · exact beq_resolved hcont (by decide) (by decide)

theorem Planned.cont_eq_false (h : Planned host environ args p) {cfg : Knobs} (hgives : p.Gives cfg)
    (hnative : cfg.native = true) : cfg.contAccept = false := by
  rw [hgives.native] at hnative
  rw [hgives.cont, beq_eq_false_iff_ne]
  exact h.resolved.cont hnative

theorem Planned.action_eq (h : Planned host environ args p) {cfg : Knobs} (hgives : p.Gives cfg) :
    ∃ action, cfg.action = some action := by
  have hactions : ∀ v ∈ actions, (Action.ofName v).isSome = true := by decide
  rw [hgives.action]
  exact Option.isSome_iff_exists.mp (hactions _ h.action)

/-- The two readings of the variables that programs have are the same behind the
dispatcher exactly when the caller has no `ENVFILE_BOM` or `ENVFILE_NUL` that is
empty, and in the place of which no other value was found. -/
theorem readings_agree_iff (hplan : host.plan environ args = .ok p)
    (hpath : Plain (p.routing .env)) (hprogram : ∀ w ∈ p.command.head?, Byte.equals ∉ w) :
    readKnobs (host.started environ p).1 = Python.readKnobs (host.started environ p).1 ↔
      ¬ (p.settings .bom = [] ∧ SetEmpty environ (ascii "ENVFILE_BOM")) ∧
        ¬ (p.settings .nul = [] ∧ SetEmpty environ (ascii "ENVFILE_NUL")) := by
  have h := planned hplan
  have hbom : SetEmpty (setAll environ p.sets) (ascii "ENVFILE_BOM") ↔ _ := h.setEmpty_iff .bom
  have hnul : SetEmpty (setAll environ p.sets) (ascii "ENVFILE_NUL") ↔ _ := h.setEmpty_iff .nul
  have haction : ¬ SetEmpty (setAll environ p.sets) (ascii "ENVFILE_ACTION") := by
    have hactions : ∀ v ∈ actions, v ≠ [] := by decide
    rw [SetEmpty, h.getenv_action]
    exact fun he => hactions _ h.action (Option.some.inj he)
  have hok : ¬ ∃ fault, knobsBy (knob (setAll environ p.sets)) = .error fault := by
    rintro ⟨fault, hfault⟩
    obtain ⟨cfg, hread, -⟩ := h.readKnobs_eq
    rw [show knobsBy _ = _ from hread] at hfault
    cases hfault
  rw [h.started hpath hprogram, readKnobs, Python.readKnobs, knobsBy_eq_iff, or_iff_right hok,
    and_iff_right haction, hbom, hnul]
  exact Iff.rfl

theorem Planned.readAlike (h : Planned host environ args p)
    (hbom : p.settings .bom = [] → ¬ SetEmpty environ (ascii "ENVFILE_BOM"))
    (hnul : p.settings .nul = [] → ¬ SetEmpty environ (ascii "ENVFILE_NUL")) :
    ReadAlike (setAll environ p.sets) := by
  refine ⟨fun he => ?_, fun he => ?_, fun he => ?_⟩
  · obtain ⟨hempty, hset⟩ := (h.setEmpty_iff .bom).mp he
    exact hbom hempty hset
  · have hactions : ∀ v ∈ actions, v ≠ [] := by decide
    rw [SetEmpty, h.getenv_action] at he
    exact hactions _ h.action (Option.some.inj he)
  · obtain ⟨hempty, hset⟩ := (h.setEmpty_iff .nul).mp he
    exact hnul hempty hset

theorem readings_agree_iff_sample : ∃ p, sampleHost.plan sampleEnviron sampleArgs = .ok p ∧
    (readKnobs (sampleHost.started sampleEnviron p).1 =
        Python.readKnobs (sampleHost.started sampleEnviron p).1 ↔
      ¬ (p.settings .bom = [] ∧ SetEmpty sampleEnviron (ascii "ENVFILE_BOM")) ∧
        ¬ (p.settings .nul = [] ∧ SetEmpty sampleEnviron (ascii "ENVFILE_NUL"))) :=
  ⟨_, rfl, readings_agree_iff (show sampleHost.plan sampleEnviron sampleArgs = _ from rfl)
    (by decide) (by decide)⟩

/-- The program is started as it is meant, and whichever of the programs it is, it
stops at no variable and goes on with what was resolved. -/
def GoesOn (host : Host) (environ : Environ) (p : Plan) : Prop :=
  ∃ environ' cfg action, host.started environ p = (environ', p.command ++ p.files) ∧
    p.Gives cfg ∧ cfg.action = some action ∧
    (cfg.native = true → cfg.bom = .literal ∧ cfg.contAccept = false) ∧
    ∀ (on : Platform) (i : Implementation) (stdin : File) (files : List File),
      i.dialect.seeds cfg environ' →
      i.main on environ' stdin files = i.program on cfg environ' (i.files stdin files)

/-- Behind the dispatcher no program stops at a variable: each goes on with what
the dispatcher has resolved. -/
theorem goes_on_resolved (hplan : host.plan environ args = .ok p)
    (hpath : Plain (p.routing .env)) (hprogram : ∀ w ∈ p.command.head?, Byte.equals ∉ w)
    (hbom : p.settings .bom = [] → ¬ SetEmpty environ (ascii "ENVFILE_BOM"))
    (hnul : p.settings .nul = [] → ¬ SetEmpty environ (ascii "ENVFILE_NUL")) :
    GoesOn host environ p := by
  have h := planned hplan
  obtain ⟨cfg, hread, hgives⟩ := h.readKnobs_eq
  obtain ⟨action, haction⟩ := h.action_eq hgives
  have halike := h.readAlike hbom hnul
  exact ⟨_, cfg, action, h.started hpath hprogram, hgives, haction,
    fun hnative => ⟨cfg.native_bom hnative, h.cont_eq_false hgives hnative⟩,
    fun on i stdin files hseeds => i.main_eq halike hread haction hseeds stdin files⟩

theorem goes_on_resolved_sample : ∃ p, sampleHost.plan sampleEnviron sampleArgs = .ok p ∧
    GoesOn sampleHost sampleEnviron p :=
  ⟨_, rfl, goes_on_resolved (show sampleHost.plan sampleEnviron sampleArgs = _ from rfl)
    (by decide) (by decide) (by decide) (by decide)⟩

end Read

/-! ## The language -/

/-- `language=` -/
def languageArg (language : Bytes) : Bytes := Channel.language.pattern ++ language

/-- Where two routings differ, if at all, is the language. -/
def SameRouting (r r' : Routing) : Prop := ∀ c, c ≠ .language → r c = r' c

theorem exported_eq {environ : Environ} (h : ∀ n ∈ seedNames environ, n ∉ ownVariables)
    (value : Bytes → Option Bytes) : exported value environ = environ := by
  refine (List.map_congr_left fun e he => ?_).trans (List.map_id environ)
  cases hsplit : splitEquals e with
  | none => rfl
  | some b =>
      have hname : b.1 ∈ seedNames environ :=
        List.mem_map_of_mem (List.mem_filterMap.mpr ⟨e, he, hsplit⟩)
      exact if_neg fun hown => h b.1 hname (List.contains_iff_mem.mp hown)

section Language

variable {host : Host} {environ : Environ} {args : List Bytes} {l l' : Bytes} {p p' : Plan}

theorem parseArgs_language {isFile : Bytes → Bool} {r r₁ r₂ : Routing} {files files' : List Bytes}
    (h : parseArgs isFile r (languageArg l :: args) = .ok (r₁, files))
    (h' : parseArgs isFile r (languageArg l' :: args) = .ok (r₂, files')) :
    SameRouting r₁ r₂ ∧ files = files' := by
  rw [languageArg, parseArgs, Channel.ofArg_pattern] at h h'
  simp only at h h'
  split at h
  · split at h'
    · obtain ⟨settings, hline, rfl⟩ := commandLine_of_parseArgs h
      have hsame := parseArgs_commandLine (r := Function.update r .language l') hline
      rw [h'] at hsame
      obtain ⟨rfl, rfl⟩ := Prod.mk.inj (Except.ok.inj hsame)
      refine ⟨fun c hc => ?_, rfl⟩
      rw [Routing.after, Routing.after, Function.update_of_ne hc, Function.update_of_ne hc]
    · cases h'
  · cases h

/-- Two plans for one command line and two languages. -/
structure Planned.SameCommand (p p' : Plan) : Prop where
  routing : SameRouting p.routing p'.routing
  settings : p.settings = p'.settings
  files : p.files = p'.files

theorem Planned.sameCommand (h : Planned host environ (languageArg l :: args) p)
    (h' : Planned host environ (languageArg l' :: args) p') : SameCommand p p' := by
  obtain ⟨hrouting, hfiles⟩ := parseArgs_language h.commandLine h'.commandLine
  have hformat : p.routing .format = p'.routing .format := hrouting .format (by decide)
  have hconfig : host.configFile p.routing = host.configFile p'.routing := by
    rw [Host.configFile, Host.configFile, hrouting .config (by decide)]
  have hsettings := h.settings
  rw [hformat, hconfig, h'.settings] at hsettings
  exact ⟨hrouting, (Except.ok.inj hsettings).symm, hfiles⟩

theorem Planned.SameCommand.bindings_eq (h : SameCommand p p') : p.bindings = p'.bindings := by
  rw [Plan.bindings, Plan.bindings, routingBindings, routingBindings, h.settings,
    h.routing .format (by decide), h.routing .action (by decide), h.routing .env (by decide)]

/-- `LC_ALL=C` behind the other variables makes no difference to a caller who has
it. -/
theorem Planned.locale_iff (h : Planned host environ args p) :
    putenv (setAll environ p.bindings) (word (ascii "LC_ALL") (ascii "C")) =
        setAll environ p.bindings ↔ getenv environ (ascii "LC_ALL") = some (ascii "C") := by
  have hequals : Byte.equals ∉ ascii "LC_ALL" := by decide
  have hget : getenv (setAll environ p.bindings) (ascii "LC_ALL") =
      getenv environ (ascii "LC_ALL") := by
    rw [getenv_setAll (fun b hb => (h.bindings_plain hb).1.equals) hequals]
    refine assign_of_not_mem (fun hmem => ?_) _
    obtain ⟨b, hb, hname⟩ := List.mem_map.mp hmem
    have hbegins := (h.bindings_plain hb).1.begins
    rw [hname] at hbegins
    exact absurd hbegins (by decide)
  rw [← hget]
  constructor
  · intro heq
    rw [← heq, getenv_putenv hequals _ hequals, if_pos rfl]
  · exact putenv_of_getenv hequals _

theorem Planned.setAll_eq_iff (h : Planned host environ (languageArg l :: args) p)
    (h' : Planned host environ (languageArg l' :: args) p') :
    setAll environ p.sets = setAll environ p'.sets ↔
      p.vars = p'.vars ∨ getenv environ (ascii "LC_ALL") = some (ascii "C") := by
  have hbindings := (h.sameCommand h').bindings_eq
  have hsplit : [word (ascii "LC_ALL") (ascii "C")].filterMap splitEquals =
      [(ascii "LC_ALL", ascii "C")] := by decide
  have hplain : ∀ q : Plan, q.vars = [] → setAll environ q.sets = setAll environ q.bindings := by
    intro q hq
    rw [Plan.sets, hq, List.filterMap_nil, List.append_nil]
  have hlocale : ∀ q : Plan, q.vars = [word (ascii "LC_ALL") (ascii "C")] →
      setAll environ q.sets =
        putenv (setAll environ q.bindings) (word (ascii "LC_ALL") (ascii "C")) := by
    intro q hq
    rw [Plan.sets, hq, hsplit, setAll, setAll, List.map_append, List.foldl_append]
    rfl
  have hne : ([] : List Bytes) ≠ [word (ascii "LC_ALL") (ascii "C")] := by decide
  rcases h.vars with hvars | hvars <;> rcases h'.vars with hvars' | hvars'
  · rw [hplain p hvars, hplain p' hvars', hbindings, hvars, hvars']
    exact ⟨fun _ => Or.inl rfl, fun _ => rfl⟩
  · rw [hplain p hvars, hlocale p' hvars', hbindings, hvars, hvars', or_iff_right hne,
      ← h'.locale_iff]
    exact eq_comm
  · rw [hlocale p hvars, hplain p' hvars', hbindings, hvars, hvars', or_iff_right hne.symm,
      ← h'.locale_iff]
  · rw [hlocale p hvars, hlocale p' hvars', hbindings, hvars, hvars']
    exact ⟨fun _ => Or.inl rfl, fun _ => rfl⟩

/-- The programs of two languages are started with the same variables exactly when
both are the reference, or none of them, or the caller has `LC_ALL=C`; whatever the
script has assigned to its own variables, of which the caller exports none. -/
theorem environments_agree_iff
    (hplan : host.plan environ (languageArg l :: args) = .ok p)
    (hplan' : host.plan environ (languageArg l' :: args) = .ok p')
    (hpath : Plain (p.routing .env)) (hprogram : ∀ w ∈ p.command.head?, Byte.equals ∉ w)
    (hprogram' : ∀ w ∈ p'.command.head?, Byte.equals ∉ w)
    (hown : ∀ n ∈ seedNames environ, n ∉ ownVariables) (value value' : Bytes → Option Bytes) :
    (host.started (exported value environ) p).1 = (host.started (exported value' environ) p').1 ↔
      p.vars = p'.vars ∨ getenv environ (ascii "LC_ALL") = some (ascii "C") := by
  have h := planned hplan
  have h' := planned hplan'
  have hpath' : Plain (p'.routing .env) :=
    (h.sameCommand h').routing .env (by decide) ▸ hpath
  rw [exported_eq hown, exported_eq hown, h.started hpath hprogram, h'.started hpath' hprogram']
  exact h.setAll_eq_iff h'

theorem environments_agree_iff_sample : ∃ p p',
    sampleHost.plan sampleEnviron (languageArg (ascii "go") :: sampleArgs) = .ok p ∧
    sampleHost.plan sampleEnviron (languageArg (ascii "awk") :: sampleArgs) = .ok p' ∧
    ((sampleHost.started (exported (fun _ => some (ascii "go")) sampleEnviron) p).1 =
        (sampleHost.started (exported (fun _ => some (ascii "awk")) sampleEnviron) p').1 ↔
      p.vars = p'.vars ∨ getenv sampleEnviron (ascii "LC_ALL") = some (ascii "C")) :=
  ⟨_, _, rfl, rfl, environments_agree_iff
    (show sampleHost.plan sampleEnviron (languageArg (ascii "go") :: sampleArgs) = _ from rfl)
    (show sampleHost.plan sampleEnviron (languageArg (ascii "awk") :: sampleArgs) = _ from rfl)
    (by decide) (by decide) (by decide) (by decide) (fun _ => some (ascii "go"))
    (fun _ => some (ascii "awk"))⟩

end Language

end Envfile.Dispatch
