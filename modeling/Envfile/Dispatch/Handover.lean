/-
# `Envfile.Dispatch.Handover` — what the implementation is started with

The command that the dispatcher executes is a string that the shell splits, and
`env` takes of the words what has an `=` for variables.  The words are the ones
that are meant exactly when there is no blank in the path of `env=`
(`started_iff`).  The program is then started with the caller's variables and
over them the settings that the dispatcher has resolved (`getenv_started`).
-/
import Envfile.Compare.Interchange
import Envfile.Dispatch.Arguments
import Envfile.Dispatch.Callers
import Envfile.Laws
import Envfile.Lib.Partial

namespace Envfile.Dispatch

open Assign Meaning

/-! ## Variables that are set -/

section Putenv

variable {environ : Environ} {n m : Bytes} (hn : Byte.equals ∉ n) (v : Bytes)

theorem getenv_entry (f : Bytes) (environ : Environ) (m : Bytes) :
    getenv (f :: environ) m =
      if (m ++ [Byte.equals]).isPrefixOf f then some (f.drop (m.length + 1))
      else getenv environ m := by
  rw [getenv, getenv, List.find?_cons]
  cases (m ++ [Byte.equals]).isPrefixOf f <;> rfl

include hn

theorem putenv_cons (f : Bytes) (environ : Environ) :
    putenv (f :: environ) (word n v) =
      if (n ++ [Byte.equals]).isPrefixOf f then word n v :: environ
      else f :: putenv environ (word n v) := by
  have hbefore : putenv.beforeEquals (word n v) = n := by
    rw [putenv.beforeEquals, word, List.takeWhile_append_of_pos]
    · exact List.append_nil n
    · exact fun c hc => bne_iff_ne.mpr fun h => hn (h ▸ hc)
  rw [putenv, hbefore]

theorem getenv_putenv (hm : Byte.equals ∉ m) (environ : Environ) :
    getenv (putenv environ (word n v)) m = if n = m then some v else getenv environ m := by
  induction environ with
  | nil => exact getenv_cons hn hm v []
  | cons f environ ih =>
      rw [putenv_cons hn]
      split
      · rename_i hf
        obtain ⟨w, rfl⟩ := List.isPrefixOf_iff_prefix.mp hf
        rw [List.append_assoc]
        show getenv (_ :: environ) m = if n = m then some v else getenv (_ :: environ) m
        rw [word, getenv_cons hn hm, List.singleton_append, getenv_cons hn hm]
        by_cases h : n = m
        · rw [if_pos h, if_pos h]
        · rw [if_neg h, if_neg h, if_neg h]
      · rename_i hf
        rw [getenv_entry, getenv_entry, ih]
        by_cases h : n = m
        · subst h
          rw [if_neg hf, if_pos rfl, if_pos rfl]
        · rw [if_neg h, if_neg h]

/-- A variable that is set to the value that it has leaves the environment as it
is. -/
theorem putenv_of_getenv (h : getenv environ n = some v) : putenv environ (word n v) = environ := by
  induction environ with
  | nil => cases h
  | cons f environ ih =>
      rw [getenv_entry] at h
      rw [putenv_cons hn]
      split at h
      · rename_i hf
        rw [if_pos hf]
        obtain ⟨w, rfl⟩ := List.isPrefixOf_iff_prefix.mp hf
        obtain rfl := Option.some.inj h
        rw [List.append_assoc, List.singleton_append, drop_after]
        rfl
      · rename_i hf
        rw [if_neg hf, ih h]

end Putenv

/-- Variables that are set one after the other. -/
def setAll (environ : Environ) (bs : List Binding) : Environ :=
  (bs.map fun b => word b.1 b.2).foldl putenv environ

section SetAll

variable {bs : List Binding} (hbs : ∀ b ∈ bs, Byte.equals ∉ b.1)

include hbs

/-- The last value that a variable is set to is the one that it has. -/
theorem getenv_setAll {m : Bytes} (hm : Byte.equals ∉ m) (environ : Environ) :
    getenv (setAll environ bs) m = assign (getenv environ) bs m := by
  induction bs generalizing environ with
  | nil => rfl
  | cons b bs ih =>
      rw [assign_cons]
      refine (ih (fun c hc => hbs c (List.mem_cons_of_mem _ hc)) _).trans (assign_congr bs ?_)
      rw [getenv_putenv (hbs b List.mem_cons_self) _ hm]
      by_cases h : b.1 = m
      · rw [if_pos h, ← h, Function.update_self]
      · rw [if_neg h, Function.update_of_ne (Ne.symm h)]

end SetAll

/-! ## Settings that are resolved -/

/-- What the dispatcher goes on with: values that are valid, where none is set
because the caller has none, and those that native format has. -/
structure Resolved (environ : Environ) (native : Bool) (s : Settings) : Prop where
  valid : ∀ x, s x ≠ [] → x.validate (s x) = true
  filled : ∀ x, s x = [] → (getenv environ x.envName).getD [] = []
  bom : native = true → s .bom = [] ∨ s .bom = ascii "literal"
  cont : native = true → s .backslashContinuation ≠ ascii "accept"

/-- Every setting is valid, as far as there is one. -/
def Settings.Valid (s : Settings) : Prop := ∀ x, s x ≠ [] → x.validate (s x) = true

theorem set_valid {s s' : Settings} {p : Knob × Bytes} (hs : s.Valid) (h : set s p = .ok s') :
    s'.Valid := by
  rw [set] at h
  split at h
  · obtain rfl := Except.ok.inj h
    intro x hx
    by_cases hp : x = p.1
    · subst hp
      rw [Function.update_self]
      assumption
    · rw [Function.update_of_ne hp] at hx ⊢
      exact hs x hx
  · cases h

theorem configLine_valid {s s' : Settings} {line : Bytes} (hs : s.Valid)
    (h : configLine s line = .ok s') : s'.Valid := by
  rw [configLine] at h
  split at h
  · exact set_valid hs h
  · exact Except.ok.inj h ▸ hs

section Fill

variable {environ : Environ} {s s' : Settings}

theorem fillGap_ok {x : Knob} (h : fillGap environ s x = .ok s') :
    (s.Valid → s'.Valid) ∧ (s' x = [] → (getenv environ x.envName).getD [] = []) ∧
      ∀ y, y ≠ x → s' y = s y := by
  rw [fillGap] at h
  split at h
  · split at h
    · rename_i c v hv
      refine ⟨fun hs => set_valid hs h, ?_⟩
      rw [set] at h
      split at h
      · obtain rfl := Except.ok.inj h
        refine ⟨fun hx => ?_, fun y hy => Function.update_of_ne hy _ _⟩
        rw [Function.update_self] at hx
        cases hx
      · cases h
    · rename_i hnone
      obtain rfl := Except.ok.inj h
      refine ⟨id, fun _ => ?_, fun _ _ => rfl⟩
      cases hv : getenv environ x.envName with
      | none => rfl
      | some v =>
          cases v with
          | nil => rfl
          | cons c v => exact absurd hv (hnone c v)
  · rename_i hx
    obtain rfl := Except.ok.inj h
    exact ⟨id, fun h => absurd h hx, fun _ _ => rfl⟩

theorem foldlM_fillGap_ok {l : List Knob} (h : l.foldlM (fillGap environ) s = .ok s') :
    (s.Valid → s'.Valid) ∧
      ∀ x, (x ∈ l ∨ (s x = [] → (getenv environ x.envName).getD [] = [])) →
        s' x = [] → (getenv environ x.envName).getD [] = [] := by
  induction l generalizing s with
  | nil =>
      obtain rfl := Except.ok.inj h
      exact ⟨id, fun x hx => hx.resolve_left List.not_mem_nil⟩
  | cons y l ih =>
      rw [List.foldlM_cons] at h
      obtain ⟨t, hy, ht⟩ := Partial.ok_of_bind h
      obtain ⟨hvalid, hfilled, hrest⟩ := fillGap_ok hy
      obtain ⟨hvalid', hfilled'⟩ := ih ht
      refine ⟨fun hs => hvalid' (hvalid hs), fun x hx => hfilled' x ?_⟩
      by_cases hxy : x = y
      · subst hxy
        exact Or.inr hfilled
      · rw [hrest x hxy]
        exact hx.imp_left fun hmem => (List.mem_cons.mp hmem).resolve_left hxy

end Fill

theorem unset_valid : unset.Valid := fun _ h => absurd rfl h

theorem gate_ok {native : Bool} {s s' : Settings} (h : gate native s = .ok s') :
    s' = s ∧ (native = true → s .bom = [] ∨ s .bom = ascii "literal") ∧
      (native = true → s .backslashContinuation ≠ ascii "accept") := by
  rw [gate] at h
  split at h
  · cases h
  · rename_i hbom
    split at h
    · cases h
    · rename_i hcont
      refine ⟨(Except.ok.inj h).symm, fun hn => ?_, fun hn hc => hcont ⟨hn, hc⟩⟩
      by_contra hno
      rw [not_or] at hno
      exact hbom ⟨hn, hno⟩

theorem resolve_eq (native : Bool) (environ : Environ) (config : Option File) :
    resolve native environ config =
      (config.elim (.ok unset) (loadConfig environ)) >>= fun s =>
        Knob.all.foldlM (fillGap environ) s >>= gate native := by
  cases config <;> rfl

theorem resolve_resolved {native : Bool} {environ : Environ} {config : Option File}
    {s : Settings} (h : resolve native environ config = .ok s) : Resolved environ native s := by
  rw [resolve_eq] at h
  obtain ⟨s₀, hmined, h⟩ := Partial.ok_of_bind h
  obtain ⟨s₁, hfill, h⟩ := Partial.ok_of_bind h
  obtain ⟨rfl, hbom, hcont⟩ := gate_ok h
  have hvalid : s₀.Valid := by
    cases config with
    | none => exact Except.ok.inj hmined ▸ unset_valid
    | some file => exact Partial.foldlM_keeps (fun _ _ _ => configLine_valid) unset_valid hmined
  obtain ⟨hvalid', hfilled⟩ := foldlM_fillGap_ok hfill
  have hall : ∀ x : Knob, x ∈ Knob.all := by
    intro x
    cases x <;> decide
  exact ⟨hvalid' hvalid, fun x => hfilled x (Or.inl (hall x)), hbom, hcont⟩

/-! ## Plans -/

/-- What the dispatcher has made sure of when it executes the command. -/
structure Planned (host : Host) (environ : Environ) (args : List Bytes) (p : Plan) : Prop where
  commandLine : parseArgs host.isFile .initial args = .ok (p.routing, p.files)
  format : p.routing .format ∈ Host.formats
  action : p.routing .action ∈ actions
  settings : resolve (p.routing .format == ascii "native") environ
    (host.configFile p.routing) = .ok p.settings
  vars : p.vars = [] ∨ p.vars = [word (ascii "LC_ALL") (ascii "C")]
  command : p.command ≠ []

theorem action_mem {isFile : Bytes → Bool} {args files : List Bytes} {r : Routing}
    (h : parseArgs isFile .initial args = .ok (r, files)) : r .action ∈ actions := by
  obtain ⟨settings, hline, rfl⟩ := commandLine_of_parseArgs h
  rw [Routing.after]
  cases hv : assign empty settings Channel.action with
  | none => decide
  | some v =>
      have hvalid := assign_inv hline.valid (fun _ _ h => by cases h) .action v hv
      exact List.contains_iff_mem.mp hvalid

theorem Host.start_ok {host : Host} {impl : Bytes} {vars command : List Bytes}
    (h : host.start impl = .ok (vars, command)) :
    (vars = [] ∨ vars = [word (ascii "LC_ALL") (ascii "C")]) ∧ command ≠ [] := by
  rw [start] at h
  split at h
  · obtain ⟨rfl, rfl⟩ := Prod.mk.inj (Except.ok.inj h)
    exact ⟨Or.inr (by decide), List.cons_ne_nil _ _⟩
  split at h
  · obtain ⟨node, -, h⟩ := Partial.ok_of_bind h
    obtain ⟨rfl, rfl⟩ := Prod.mk.inj (Except.ok.inj h)
    exact ⟨Or.inl rfl, List.cons_ne_nil _ _⟩
  split at h
  · obtain ⟨bun, -, h⟩ := Partial.ok_of_bind h
    obtain ⟨rfl, rfl⟩ := Prod.mk.inj (Except.ok.inj h)
    exact ⟨Or.inl rfl, List.cons_ne_nil _ _⟩
  split at h
  · obtain ⟨deno, -, h⟩ := Partial.ok_of_bind h
    obtain ⟨rfl, rfl⟩ := Prod.mk.inj (Except.ok.inj h)
    exact ⟨Or.inl rfl, List.cons_ne_nil _ _⟩
  · obtain ⟨rfl, rfl⟩ := Prod.mk.inj (Except.ok.inj h)
    exact ⟨Or.inl rfl, List.cons_ne_nil _ _⟩

theorem planned {host : Host} {environ : Environ} {args : List Bytes} {p : Plan}
    (h : host.plan environ args = .ok p) : Planned host environ args p := by
  unfold Host.plan at h
  obtain ⟨⟨r, files⟩, hargs, h⟩ := Partial.ok_of_bind h
  simp only at h
  split at h
  · cases h
  · rename_i hformat
    obtain ⟨s, hresolve, h⟩ := Partial.ok_of_bind h
    obtain ⟨impl, -, h⟩ := Partial.ok_of_bind h
    obtain ⟨⟨vars, command⟩, hstart, h⟩ := Partial.ok_of_bind h
    obtain rfl := Except.ok.inj h
    obtain ⟨hvars, hcommand⟩ := Host.start_ok hstart
    rw [Bool.not_eq_true', Bool.not_eq_false] at hformat
    refine ⟨hargs, List.contains_iff_mem.mp hformat, action_mem hargs, ?_, hvars, hcommand⟩
    cases hs : resolve (r .format == ascii "native") environ (host.configFile r) with
    | error e =>
        rw [hs] at hresolve
        cases hresolve
    | ok s' =>
        rw [hs] at hresolve
        exact congrArg Except.ok (Except.ok.inj hresolve)

theorem Planned.resolved {host : Host} {environ : Environ} {args : List Bytes} {p : Plan}
    (h : Planned host environ args p) :
    Resolved environ (p.routing .format == ascii "native") p.settings :=
  resolve_resolved h.settings

/-! ## The words of the command -/

/-- Bytes that the shell leaves as they are. -/
def Plain (s : Bytes) : Prop := ∀ c ∈ s, isIfs c = false ∧ isPattern c = false

instance (s : Bytes) : Decidable (Plain s) := List.decidableBAll _ s

/-- The variables for the channels. -/
def routingBindings (r : Routing) : List Binding :=
  [(ascii "ENVFILE_FORMAT", r .format), (ascii "ENVFILE_ACTION", r .action)] ++
  if r .env = [] then [] else [(ascii "ENVFILE_ENV", r .env)]

/-- The variables for the knobs. -/
def knobBindings (s : Settings) (l : List Knob) : List Binding :=
  l.filterMap fun x => (forwarded s x).map fun v => (x.envName, v)

/-- The variables that are put in front of the command. -/
def Plan.bindings (p : Plan) : List Binding :=
  routingBindings p.routing ++ knobBindings p.settings Knob.all

theorem Plan.envWords_eq (p : Plan) : p.envWords = p.bindings.map fun b => word b.1 b.2 := by
  have hknobs : envp p.settings =
      (knobBindings p.settings Knob.all).map fun b => word b.1 b.2 := by
    rw [envp, knobBindings, List.map_filterMap]
    congr 1
    funext x
    rw [Option.map_map]
    rfl
  rw [envWords, bindings, hknobs, List.map_append, routingBindings, List.map_append]
  split <;> rfl

/-- A name that the shell leaves as it is, of a variable that steers a port. -/
structure Steers (n : Bytes) : Prop where
  begins : envfilePrefix.isPrefixOf n = true
  equals : Byte.equals ∉ n
  nul : Byte.nul ∉ n
  plain : Plain n

instance (n : Bytes) : Decidable (Steers n) :=
  decidable_of_iff (_ ∧ _ ∧ _ ∧ _) ⟨fun ⟨h₁, h₂, h₃, h₄⟩ => ⟨h₁, h₂, h₃, h₄⟩,
    fun ⟨h₁, h₂, h₃, h₄⟩ => ⟨h₁, h₂, h₃, h₄⟩⟩

theorem steers : ∀ n ∈ [ascii "ENVFILE_FORMAT", ascii "ENVFILE_ACTION", ascii "ENVFILE_ENV"] ++
    Knob.all.map Knob.envName, Steers n := by decide

theorem Knob.steers (x : Knob) : Steers x.envName := by
  refine Dispatch.steers _ (List.mem_append_right _ (List.mem_map_of_mem ?_))
  cases x <;> decide

theorem format_steers : Steers (ascii "ENVFILE_FORMAT") := steers _ (.head _)

theorem action_steers : Steers (ascii "ENVFILE_ACTION") := steers _ (.tail _ (.head _))

theorem env_steers : Steers (ascii "ENVFILE_ENV") := steers _ (.tail _ (.tail _ (.head _)))

theorem plain_words : ∀ v ∈ Host.formats ++ (actions ++
    [ascii "literal", ascii "strip", ascii "reject", ascii "ignore", ascii "accept"]),
    Plain v ∧ Byte.nul ∉ v := by decide

theorem plain_of_format {v : Bytes} (h : v ∈ Host.formats) : Plain v ∧ Byte.nul ∉ v :=
  plain_words v (List.mem_append_left _ h)

theorem plain_of_action {v : Bytes} (h : v ∈ actions) : Plain v ∧ Byte.nul ∉ v :=
  plain_words v (List.mem_append_right _ (List.mem_append_left _ h))

theorem Knob.plain_of_validate {x : Knob} {v : Bytes} (h : x.validate v = true) :
    Plain v ∧ Byte.nul ∉ v := by
  refine plain_words v (List.mem_append_right _ (List.mem_append_right _ ?_))
  have hvalues : ∀ values : List Bytes, Dispatch.validate values v = true → v ∈ values :=
    fun values => List.contains_iff_mem.mp
  cases x with
  | bom => exact List.mem_of_mem_take (i := 3) (hvalues _ h)
  | crlf =>
      rcases List.mem_pair.mp (hvalues _ h) with rfl | rfl <;> simp
  | nul =>
      rcases List.mem_pair.mp (hvalues _ h) with rfl | rfl <;> simp
  | backslashContinuation =>
      rcases List.mem_pair.mp (hvalues _ h) with rfl | rfl <;> simp

section Words

variable {host : Host} {environ : Environ} {args : List Bytes} {p : Plan}

/-- A variable in front of the command is the one for the path of `env=`, or has a
plain value. -/
theorem Planned.bindings_plain (h : Planned host environ args p) {b : Binding}
    (hb : b ∈ p.bindings) : Steers b.1 ∧
      (b = (ascii "ENVFILE_ENV", p.routing .env) ∨ Plain b.2 ∧ Byte.nul ∉ b.2) := by
  rw [Plan.bindings, routingBindings, List.mem_append, List.mem_append] at hb
  rcases hb with (hb | hb) | hb
  · rcases List.mem_cons.mp hb with rfl | hb
    · exact ⟨format_steers, Or.inr (plain_of_format h.format)⟩
    · obtain rfl := List.mem_singleton.mp hb
      exact ⟨action_steers, Or.inr (plain_of_action h.action)⟩
  · split at hb
    · cases hb
    · obtain rfl := List.mem_singleton.mp hb
      exact ⟨env_steers, Or.inl rfl⟩
  · obtain ⟨x, -, hx⟩ := List.mem_filterMap.mp hb
    obtain ⟨v, hv, rfl⟩ := Option.map_eq_some_iff.mp hx
    rw [forwarded] at hv
    split at hv
    · cases hv
    · rename_i hne
      obtain rfl := Option.some.inj hv
      exact ⟨x.steers, Or.inr (Knob.plain_of_validate (h.resolved.valid x hne))⟩

theorem fields_envpText (p : Plan) :
    Fields.fields isIfs p.envpText = ascii "env" :: p.envWords.flatMap (Fields.fields isIfs) := by
  rw [Plan.envpText, Fields.fields_foldl (by decide)]
  rfl

theorem flatMap_glob {ws : List Bytes} (hws : ∀ w ∈ ws, ∀ c ∈ w, isPattern c = false) :
    ws.flatMap host.glob = ws := by
  induction ws with
  | nil => rfl
  | cons w ws ih =>
      rw [List.flatMap_cons, host.glob_literal w (hws w List.mem_cons_self),
        ih fun v hv => hws v (List.mem_cons_of_mem _ hv)]
      rfl

theorem Planned.envWords_literal (h : Planned host environ args p)
    (hpattern : ∀ c ∈ p.routing .env, isPattern c = false) :
    ∀ w ∈ p.envWords, ∀ c ∈ w, isPattern c = false := by
  intro w hw c hc
  rw [Plan.envWords_eq] at hw
  obtain ⟨b, hb, rfl⟩ := List.mem_map.mp hw
  obtain ⟨hsteers, hvalue⟩ := h.bindings_plain hb
  rcases List.mem_append.mp hc with hc | hc
  · exact (hsteers.plain c hc).2
  · rcases List.mem_cons.mp hc with rfl | hc
    · decide
    · rcases hvalue with rfl | hvalue
      · exact hpattern c hc
      · exact (hvalue.1 c hc).2

theorem Planned.started_eq (h : Planned host environ args p)
    (hpattern : ∀ c ∈ p.routing .env, isPattern c = false) :
    host.started environ p = envUtility environ
      (p.envWords.flatMap (Fields.fields isIfs) ++ p.vars ++ (p.command ++ p.files)) := by
  have hliteral : ∀ w ∈ Fields.fields isIfs p.envpText, ∀ c ∈ w, isPattern c = false := by
    intro w hw c hc
    rw [fields_envpText] at hw
    rcases List.mem_cons.mp hw with rfl | hw
    · exact ((by decide : Plain (ascii "env")) c hc).2
    · obtain ⟨v, hv, hw⟩ := List.mem_flatMap.mp hw
      exact h.envWords_literal hpattern v hv c (Fields.mem_of_mem_fields hw c hc)
  rw [Host.started, Host.execWords, flatMap_glob hliteral, fields_envpText]
  simp only [List.cons_append, List.tail_cons, List.append_assoc]

theorem envUtility_append {ws rest : List Bytes} (hws : ∀ w ∈ ws, Byte.equals ∈ w)
    (hrest : ∀ w ∈ rest.head?, Byte.equals ∉ w) (environ : Environ) :
    envUtility environ (ws ++ rest) = (ws.foldl putenv environ, rest) := by
  have hcontains : ∀ w ∈ ws, w.contains Byte.equals = true := fun w hw =>
    List.contains_iff_mem.mpr (hws w hw)
  have htake : rest.takeWhile (·.contains Byte.equals) = [] := by
    cases rest with
    | nil => rfl
    | cons w rest =>
        refine List.takeWhile_cons_of_neg fun h => hrest w rfl ?_
        exact List.contains_iff_mem.mp h
  have hdrop : rest.dropWhile (·.contains Byte.equals) = rest := by
    have hsplit := List.takeWhile_append_dropWhile (p := (·.contains Byte.equals)) (l := rest)
    rwa [htake, List.nil_append] at hsplit
  rw [envUtility, List.takeWhile_append_of_pos hcontains, List.dropWhile_append_of_pos hcontains,
    htake, hdrop, List.append_nil]

/-- The variables that the program is meant to be started with. -/
def Plan.sets (p : Plan) : List Binding :=
  p.bindings ++ p.vars.filterMap splitEquals

theorem equals_mem_word (n v : Bytes) : Byte.equals ∈ word n v :=
  List.mem_append_right _ List.mem_cons_self

theorem Planned.sets_eq (h : Planned host environ args p) :
    p.sets.map (fun b => word b.1 b.2) = p.envWords ++ p.vars := by
  rw [Plan.sets, List.map_append, Plan.envWords_eq]
  congr 1
  rcases h.vars with hvars | hvars
  · rw [hvars]
    rfl
  · rw [hvars]
    decide

theorem Planned.sets_named (h : Planned host environ args p) {b : Binding} (hb : b ∈ p.sets) :
    b ∈ p.bindings ∧ Steers b.1 ∨ b = (ascii "LC_ALL", ascii "C") := by
  rcases List.mem_append.mp hb with hb | hb
  · exact Or.inl ⟨hb, (h.bindings_plain hb).1⟩
  · right
    rcases h.vars with hvars | hvars
    · rw [hvars] at hb
      cases hb
    · rw [hvars] at hb
      have hsplit : [word (ascii "LC_ALL") (ascii "C")].filterMap splitEquals =
          [(ascii "LC_ALL", ascii "C")] := by decide
      rw [hsplit] at hb
      exact List.mem_singleton.mp hb

theorem Planned.sets_equals (h : Planned host environ args p) :
    ∀ b ∈ p.sets, Byte.equals ∉ b.1 := by
  intro b hb
  rcases h.sets_named hb with ⟨-, hsteers⟩ | rfl
  · exact hsteers.equals
  · decide

theorem isField_word {n v : Bytes} (hn : Plain n) (hv : ∀ c ∈ v, isIfs c = false) :
    Fields.IsField isIfs (word n v) := by
  refine ⟨List.append_ne_nil_of_right_ne_nil _ (List.cons_ne_nil _ _), fun c hc => ?_⟩
  rcases List.mem_append.mp hc with hc | hc
  · exact (hn c hc).1
  · rcases List.mem_cons.mp hc with rfl | hc
    · decide
    · exact hv c hc

/-- The program is started with the variables that are meant. -/
theorem Planned.started (h : Planned host environ args p) (hpath : Plain (p.routing .env))
    (hprogram : ∀ w ∈ p.command.head?, Byte.equals ∉ w) :
    host.started environ p = (setAll environ p.sets, p.command ++ p.files) := by
  have hfields : p.envWords.flatMap (Fields.fields isIfs) = p.envWords := by
    refine Fields.flatMap_fields_eq_iff.mpr fun w hw => ?_
    rw [Plan.envWords_eq] at hw
    obtain ⟨b, hb, rfl⟩ := List.mem_map.mp hw
    obtain ⟨hsteers, hvalue⟩ := h.bindings_plain hb
    refine isField_word hsteers.plain fun c hc => ?_
    rcases hvalue with rfl | hvalue
    · exact (hpath c hc).1
    · exact (hvalue.1 c hc).1
  have hhead : ∀ w ∈ (p.command ++ p.files).head?, Byte.equals ∉ w := by
    intro w hw
    cases hcommand : p.command with
    | nil => exact absurd hcommand h.command
    | cons v command =>
        rw [hcommand] at hw hprogram
        exact hprogram w hw
  have hwords : ∀ w ∈ p.envWords ++ p.vars, Byte.equals ∈ w := by
    intro w hw
    rw [← h.sets_eq] at hw
    obtain ⟨b, -, rfl⟩ := List.mem_map.mp hw
    exact equals_mem_word _ _
  rw [h.started_eq fun c hc => (hpath c hc).2, hfields, envUtility_append hwords hhead, ← h.sets_eq]
  rfl

end Words

/-! ## The variables of the program -/

def routingNames : List Bytes :=
  [ascii "ENVFILE_FORMAT", ascii "ENVFILE_ACTION", ascii "ENVFILE_ENV"]

theorem routingBindings_names (r : Routing) :
    (routingBindings r).map Prod.fst ⊆ routingNames := by
  rw [routingBindings]
  split
  · exact fun n hn => List.mem_append_left [ascii "ENVFILE_ENV"] hn
  · exact fun n hn => hn

theorem knob_of_mem_knobBindings {s : Settings} {l : List Knob} {b : Binding}
    (hb : b ∈ knobBindings s l) : ∃ x ∈ l, b.1 = x.envName := by
  obtain ⟨x, hx, hb⟩ := List.mem_filterMap.mp hb
  obtain ⟨v, -, rfl⟩ := Option.map_eq_some_iff.mp hb
  exact ⟨x, hx, rfl⟩

theorem assign_knobBindings (s : Settings) {l : List Knob} (hl : l.Nodup) {x : Knob} (hx : x ∈ l)
    (m : Bytes → Option Bytes) :
    assign m (knobBindings s l) x.envName = (forwarded s x).or (m x.envName) := by
  induction l generalizing m with
  | nil => cases hx
  | cons y l ih =>
      obtain ⟨hy, hl⟩ := List.nodup_cons.mp hl
      have hcons : knobBindings s (y :: l) =
          ((forwarded s y).map fun v => (y.envName, v)).toList ++ knobBindings s l := by
        rw [knobBindings, List.filterMap_cons]
        cases forwarded s y <;> rfl
      rw [hcons, assign_append]
      rcases List.mem_cons.mp hx with rfl | hx
      · have hrest : x.envName ∉ (knobBindings s l).map Prod.fst := by
          intro hmem
          obtain ⟨b, hb, hname⟩ := List.mem_map.mp hmem
          obtain ⟨z, hz, hbz⟩ := knob_of_mem_knobBindings hb
          exact hy (Knob.envName_inj (hname.symm.trans hbz) ▸ hz)
        rw [assign_of_not_mem hrest]
        cases forwarded s x with
        | none => rfl
        | some v => exact Function.update_self ..
      · rw [ih hl hx]
        congr 1
        refine assign_of_not_mem ?_ m
        intro hmem
        obtain ⟨b, hb, hname⟩ := List.mem_map.mp hmem
        obtain ⟨v, -, rfl⟩ := Option.map_eq_some_iff.mp (Option.mem_toList.mp hb)
        exact hy (Knob.envName_inj hname ▸ hx)

section Getenv

variable {host : Host} {environ : Environ} {args : List Bytes} {p : Plan}
  (h : Planned host environ args p)

include h

theorem Planned.getenv_eq {n : Bytes} (hequals : Byte.equals ∉ n) (hlocale : n ≠ ascii "LC_ALL") :
    getenv (setAll environ p.sets) n =
      assign (assign (getenv environ) (routingBindings p.routing))
        (knobBindings p.settings Knob.all) n := by
  have hvars : n ∉ (p.vars.filterMap splitEquals).map Prod.fst := by
    rcases h.vars with hvars | hvars
    · rw [hvars]
      exact List.not_mem_nil
    · rw [hvars]
      exact fun hmem => hlocale (List.mem_singleton.mp hmem)
  rw [getenv_setAll h.sets_equals hequals, Plan.sets, assign_append, assign_of_not_mem hvars,
    Plan.bindings, assign_append]

theorem Planned.getenv_knob (x : Knob) :
    getenv (setAll environ p.sets) x.envName =
      (forwarded p.settings x).or (getenv environ x.envName) := by
  have hlocale : x.envName ≠ ascii "LC_ALL" := by
    cases x <;> decide
  have hother : x.envName ∉ (routingBindings p.routing).map Prod.fst := by
    intro hmem
    have hne : x.envName ∉ routingNames := by
      cases x <;> decide
    exact hne (routingBindings_names p.routing hmem)
  rw [h.getenv_eq x.envName_equals hlocale,
    assign_knobBindings _ (by decide) (by cases x <;> decide), assign_of_not_mem hother]

theorem Planned.getenv_routing {n : Bytes} (hn : n ∈ routingNames) :
    getenv (setAll environ p.sets) n =
      assign (getenv environ) (routingBindings p.routing) n := by
  have hname : ∀ n ∈ routingNames, Byte.equals ∉ n ∧ n ≠ ascii "LC_ALL" ∧
      ∀ x ∈ Knob.all, n ≠ x.envName := by decide
  obtain ⟨hequals, hlocale, hknob⟩ := hname n hn
  rw [h.getenv_eq hequals hlocale]
  refine assign_of_not_mem (fun hmem => ?_) _
  obtain ⟨b, hb, rfl⟩ := List.mem_map.mp hmem
  obtain ⟨x, hx, hbx⟩ := knob_of_mem_knobBindings hb
  exact hknob x hx hbx

theorem Planned.getenv_format :
    getenv (setAll environ p.sets) (ascii "ENVFILE_FORMAT") = some (p.routing .format) := by
  rw [h.getenv_routing (by decide), routingBindings]
  split <;> rfl

theorem Planned.getenv_action :
    getenv (setAll environ p.sets) (ascii "ENVFILE_ACTION") = some (p.routing .action) := by
  rw [h.getenv_routing (by decide), routingBindings]
  split <;> rfl

theorem Planned.getenv_env (henv : p.routing .env ≠ []) :
    getenv (setAll environ p.sets) (ascii "ENVFILE_ENV") = some (p.routing .env) := by
  rw [h.getenv_routing (by decide), routingBindings, if_neg henv]
  rfl

end Getenv

/-! ## Blanks in a path -/

theorem map_word_filterMap {ws : List Bytes} (hws : ∀ w ∈ ws, Byte.equals ∈ w) :
    (ws.filterMap splitEquals).map (fun b => word b.1 b.2) = ws := by
  induction ws with
  | nil => rfl
  | cons w ws ih =>
      have hrest := ih fun v hv => hws v (List.mem_cons_of_mem _ hv)
      rcases line_shape w with ⟨hno, -⟩ | ⟨k, v, rfl, -, hsplit⟩
      · exact absurd (hws w List.mem_cons_self) hno
      · rw [List.filterMap_cons, hsplit, List.map_cons, hrest]
        rfl

/-- A variable that is set has one of the values that it is set to. -/
theorem word_mem_of_getenv {ws : List Bytes} (hws : ∀ w ∈ ws, Byte.equals ∈ w) {n u v : Bytes}
    (hn : Byte.equals ∉ n) (hu : word n u ∈ ws) {environ : Environ}
    (hv : getenv (ws.foldl putenv environ) n = some v) : word n v ∈ ws := by
  have hwords := map_word_filterMap hws
  have hequals : ∀ b ∈ ws.filterMap splitEquals, Byte.equals ∉ b.1 := by
    intro b hb
    obtain ⟨w, -, hsplit⟩ := List.mem_filterMap.mp hb
    exact (entry_of_splitEquals hsplit).2
  have hset : ws.foldl putenv environ = setAll environ (ws.filterMap splitEquals) := by
    rw [setAll, hwords]
  rw [hset, getenv_setAll hequals hn, assign_eq_or] at hv
  cases hlast : assign empty (ws.filterMap splitEquals) n with
  | none =>
      have hmem : (n, u) ∈ ws.filterMap splitEquals :=
        List.mem_filterMap.mpr ⟨_, hu, splitEquals_append hn u⟩
      exact absurd rfl (assign_empty_eq_none.mp hlast _ hmem)
  | some v' =>
      rw [hlast] at hv
      obtain rfl := Option.some.inj hv
      have hmem : (n, v') ∈ ws.filterMap splitEquals :=
        assign_inv (fun b hb => hb) (fun _ _ h => by cases h) n v' hlast
      rw [← hwords]
      exact List.mem_map.mpr ⟨_, hmem, rfl⟩

section Blanks

variable {host : Host} {environ : Environ} {args : List Bytes} {p : Plan}

/-- No other word is split than the one for the path of `env=`. -/
theorem Planned.fields_envWords (h : Planned host environ args p) (henv : p.routing .env ≠ []) :
    p.envWords.flatMap (Fields.fields isIfs) =
      word (ascii "ENVFILE_FORMAT") (p.routing .format) ::
        word (ascii "ENVFILE_ACTION") (p.routing .action) ::
          (Fields.fields isIfs (word (ascii "ENVFILE_ENV") (p.routing .env)) ++
            envp p.settings) := by
  have hplain : ∀ n v, Plain n → Plain v → Fields.fields isIfs (word n v) = [word n v] :=
    fun n v hn hv => Fields.fields_of_isField (isField_word hn fun c hc => (hv c hc).1)
  have hformat : Plain (p.routing .format) := (plain_of_format h.format).1
  have haction : Plain (p.routing .action) := (plain_of_action h.action).1
  have hknobs : (envp p.settings).flatMap (Fields.fields isIfs) = envp p.settings := by
    refine Fields.flatMap_fields_eq_iff.mpr fun w hw => ?_
    obtain ⟨x, -, hx⟩ := List.mem_filterMap.mp hw
    obtain ⟨v, hv, rfl⟩ := Option.map_eq_some_iff.mp hx
    rw [forwarded] at hv
    split at hv
    · cases hv
    · rename_i hne
      obtain rfl := Option.some.inj hv
      have hvalue := (Knob.plain_of_validate (h.resolved.valid x hne)).1
      exact isField_word x.steers.plain fun c hc => (hvalue c hc).1
  rw [Plan.envWords, if_neg henv]
  simp only [List.cons_append, List.nil_append, List.flatMap_cons, hknobs,
    hplain _ _ format_steers.plain hformat, hplain _ _ action_steers.plain haction]

/-- No variable that `env` sets has a blank, but for the ones that the dispatcher
has not put into `$envp`. -/
theorem Planned.mem_variables (h : Planned host environ args p)
    (hprogram : ∀ w ∈ p.command.head?, Byte.equals ∉ w) {w : Bytes}
    (hw : w ∈ (p.envWords.flatMap (Fields.fields isIfs) ++ p.vars ++
      (p.command ++ p.files)).takeWhile (·.contains Byte.equals)) :
    ∀ c ∈ w, isIfs c = false := by
  have hrest : (p.command ++ p.files).takeWhile (·.contains Byte.equals) = [] := by
    cases hcommand : p.command with
    | nil => exact absurd hcommand h.command
    | cons v command =>
        rw [hcommand] at hprogram
        refine List.takeWhile_cons_of_neg fun hv => hprogram v rfl ?_
        exact List.contains_iff_mem.mp hv
  have hmem : w ∈ p.envWords.flatMap (Fields.fields isIfs) ++ p.vars := by
    rw [List.takeWhile_append, hrest] at hw
    split at hw
    · rwa [List.append_nil] at hw
    · exact List.takeWhile_subset _ hw
  rcases List.mem_append.mp hmem with hmem | hmem
  · obtain ⟨v, -, hmem⟩ := List.mem_flatMap.mp hmem
    exact (Fields.isField_of_mem hmem).free
  · rcases h.vars with hvars | hvars
    · rw [hvars] at hmem
      cases hmem
    · rw [hvars] at hmem
      obtain rfl := List.mem_singleton.mp hmem
      exact fun c hc => ((by decide : Plain (word (ascii "LC_ALL") (ascii "C"))) c hc).1

/-- The program is started with the variables that are meant exactly when there is
no blank in the path of `env=`. -/
theorem started_iff (hplan : host.plan environ args = .ok p)
    (hpattern : ∀ c ∈ p.routing .env, isPattern c = false)
    (hprogram : ∀ w ∈ p.command.head?, Byte.equals ∉ w) :
    host.started environ p =
        ((p.envWords ++ p.vars).foldl putenv environ, p.command ++ p.files) ↔
      ∀ c ∈ p.routing .env, isIfs c = false := by
  have h := planned hplan
  have hmeant : (p.envWords ++ p.vars).foldl putenv environ = setAll environ p.sets := by
    rw [← h.sets_eq]
    rfl
  rw [hmeant]
  refine ⟨fun hstarted c hc => ?_, fun hblank => ?_⟩
  · -- `ENVFILE_ENV` has the whole path, and its last word has no blank
    have henv : p.routing .env ≠ [] := List.ne_nil_of_mem hc
    have hvalue := h.getenv_env henv
    have hname : Fields.IsField isIfs (word (ascii "ENVFILE_ENV") []) := by
      exact isField_word env_steers.plain fun _ hc => absurd hc List.not_mem_nil
    obtain ⟨v, rest, hfields⟩ := Fields.head_fields hname (p.routing .env)
    have hword : ∀ v, word (ascii "ENVFILE_ENV") [] ++ v = word (ascii "ENVFILE_ENV") v :=
      fun v => List.append_assoc ..
    rw [hword, hword] at hfields
    rw [h.started_eq hpattern] at hstarted
    rw [← (Prod.mk.inj hstarted).1] at hvalue
    have hequals : ∀ n v, (word n v).contains Byte.equals = true := fun n v =>
      List.contains_iff_mem.mpr (equals_mem_word n v)
    have hfirst : word (ascii "ENVFILE_ENV") v ∈
        (p.envWords.flatMap (Fields.fields isIfs) ++ p.vars ++
          (p.command ++ p.files)).takeWhile (·.contains Byte.equals) := by
      simp only [h.fields_envWords henv, hfields, List.cons_append, List.takeWhile_cons, hequals,
        if_true, List.mem_cons, true_or, or_true]
    have hall : ∀ w ∈ (p.envWords.flatMap (Fields.fields isIfs) ++ p.vars ++
        (p.command ++ p.files)).takeWhile (·.contains Byte.equals), Byte.equals ∈ w := by
      intro w hw
      have hcontains := List.mem_takeWhile_imp hw
      exact List.contains_iff_mem.mp hcontains
    have hmem := word_mem_of_getenv hall env_steers.equals hfirst hvalue
    exact h.mem_variables hprogram hmem c (List.mem_append_right _ (List.mem_cons_of_mem _ hc))
  · rw [h.started (fun c hc => ⟨hblank c hc, hpattern c hc⟩) hprogram]

/-- What is behind a blank in the path of `env=` is the program that is started: it
gets the other knobs, and the program that was chosen, as its arguments. -/
theorem started_path (hplan : host.plan environ args = .ok p) {u v : Bytes} {c : UInt8}
    (hpath : p.routing .env = u ++ c :: v) (hc : isIfs c = true) (hu : Plain u) (hv : Plain v)
    (hnil : v ≠ []) (hequals : Byte.equals ∉ v) :
    (host.started environ p).2 = v :: (envp p.settings ++ p.vars ++ p.command ++ p.files) := by
  have h := planned hplan
  have hpattern : ∀ c ∈ p.routing .env, isPattern c = false := by
    intro d hd
    rw [hpath] at hd
    rcases List.mem_append.mp hd with hd | hd
    · exact (hu d hd).2
    · rcases List.mem_cons.mp hd with rfl | hd
      · rw [isIfs, Bool.or_eq_true, Bool.or_eq_true] at hc
        simp only [beq_iff_eq] at hc
        rcases hc with (rfl | rfl) | rfl <;> decide
      · exact (hv d hd).2
  have henv : p.routing .env ≠ [] := by
    rw [hpath]
    exact List.append_ne_nil_of_right_ne_nil _ (List.cons_ne_nil _ _)
  have hsplit : Fields.fields isIfs (word (ascii "ENVFILE_ENV") (p.routing .env)) =
      [word (ascii "ENVFILE_ENV") u, v] := by
    have hword : word (ascii "ENVFILE_ENV") (p.routing .env) =
        word (ascii "ENVFILE_ENV") u ++ c :: v := by
      rw [hpath, word, word, List.append_assoc]
      rfl
    have hfirst := isField_word env_steers.plain (fun c hc => (hu c hc).1)
    rw [hword, Fields.fields_append_cons hc, Fields.fields_of_isField hfirst,
      Fields.fields_of_isField ⟨hnil, fun c hc => (hv c hc).1⟩]
    rfl
  have hvariables : ∀ w ∈ [word (ascii "ENVFILE_FORMAT") (p.routing .format),
      word (ascii "ENVFILE_ACTION") (p.routing .action), word (ascii "ENVFILE_ENV") u],
      Byte.equals ∈ w := by
    intro w hw
    simp only [List.mem_cons, List.not_mem_nil, or_false] at hw
    rcases hw with rfl | rfl | rfl <;> exact equals_mem_word _ _
  have hwords : p.envWords.flatMap (Fields.fields isIfs) ++ p.vars ++ (p.command ++ p.files) =
      [word (ascii "ENVFILE_FORMAT") (p.routing .format),
        word (ascii "ENVFILE_ACTION") (p.routing .action), word (ascii "ENVFILE_ENV") u] ++
      v :: (envp p.settings ++ p.vars ++ p.command ++ p.files) := by
    rw [h.fields_envWords henv, hsplit]
    simp only [List.cons_append, List.nil_append, List.append_assoc]
  have hhead : ∀ w ∈ (v :: (envp p.settings ++ p.vars ++ p.command ++ p.files)).head?,
      Byte.equals ∉ w := by
    intro w hw
    obtain rfl := Option.some.inj hw
    exact hequals
  rw [h.started_eq hpattern, hwords, envUtility_append hvariables hhead]

end Blanks

/-! ### A host with two files -/

theorem sampleGlob_literal (w : Bytes) (_ : ∀ c ∈ w, isPattern c = false) : [w] = [w] := rfl

def sampleHost : Host where
  scriptDir := ascii "/e/bin"
  isFile := fun path => path == ascii "x.env" || path == ascii "x date"
  file := fun path => File.readable path []
  lang := fun language => some (ascii "/e/bin/envfile." ++ language)
  resolveTool := fun _ => none
  glob := fun w => [w]
  glob_literal := sampleGlob_literal

def sampleArgs : List Bytes :=
  [ascii "format=native", ascii "action=apply", ascii "env=x.env", ascii "f"]

theorem started_iff_sample : ∃ p, sampleHost.plan sampleEnviron sampleArgs = .ok p ∧
    (sampleHost.started sampleEnviron p =
        ((p.envWords ++ p.vars).foldl putenv sampleEnviron, p.command ++ p.files) ↔
      ∀ c ∈ p.routing .env, isIfs c = false) :=
  ⟨_, rfl, started_iff (show sampleHost.plan sampleEnviron sampleArgs = _ from rfl)
    (fun c hc => ((by decide : Plain (ascii "x.env")) c hc).2) (by decide)⟩

theorem started_path_sample : ∃ p,
    sampleHost.plan sampleEnviron [ascii "env=x date", ascii "language=go", ascii "f"] = .ok p ∧
    (sampleHost.started sampleEnviron p).2 =
      ascii "date" :: (envp p.settings ++ p.vars ++ p.command ++ p.files) :=
  ⟨_, rfl, started_path
    (show sampleHost.plan sampleEnviron [ascii "env=x date", ascii "language=go", ascii "f"] = _
      from rfl)
    (show _ = ascii "x" ++ Byte.space :: ascii "date" from rfl) (by decide) (by decide)
    (by decide) (by decide) (by decide)⟩

end Envfile.Dispatch
