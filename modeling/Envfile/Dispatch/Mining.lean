/-
# `Envfile.Dispatch.Mining` — what the dispatcher finds in a config file

The reference reads the config file by the knobs of the caller: it may take the
CRs off its lines and join them, or reject it.  A `Reading` is one way to read
the file, and its settings are what the dispatcher gets from it.  Of several
settings of a knob the last one wins, and a value that is not valid ends the
dispatcher (`toOption_foldlM_set`).
-/
import Envfile.Awk.Files
import Envfile.Dispatch.Program
import Envfile.Lib.Assign

namespace Envfile.Dispatch

open Assign

/-! ## Readings -/

/-- Whether the CRs are taken off, and whether continued lines are joined. -/
structure Reading where
  strip : Bool
  join : Bool

/-- The file as it is. -/
def Reading.raw : Reading := ⟨false, false⟩

/-- The lines of a config file; the CRs go when every line ends in one. -/
def Reading.lines (r : Reading) (f : Bytes) : List Bytes :=
  let physical := Lines.lines Byte.nl f
  let lines :=
    if r.strip && physical.all fun l => l.getLast? == some Byte.cr then physical.map trimCr
    else physical
  if r.join then (joinFrom [] 0 lines).map Prod.fst else lines

/-- What the reference dumps: no value that is the one byte 0x01. -/
def Reading.bindings (r : Reading) (f : Bytes) : List Binding :=
  (r.lines f).flatMap fun l => (referenceNative l).bindings.filter fun b => b.2 != Awk.sentinel

def dropNul (s : Bytes) : Bytes := s.filter (· != Byte.nul)

def Knob.ofName (name : Bytes) : Option Knob := Knob.all.find? fun x => x.name == name

/-- A binding that sets a knob, once its NULs have been dropped. -/
def setting (b : Binding) : Option (Knob × Bytes) :=
  (Knob.ofName (dropNul b.1)).map fun x => (x, dropNul b.2)

/-- The settings of a config file, in order. -/
def Reading.settings (r : Reading) (f : Bytes) : List (Knob × Bytes) :=
  (r.bindings f).filterMap setting

theorem Reading.nl_not_mem_lines {r : Reading} {f l : Bytes} (h : l ∈ r.lines f) :
    Byte.nl ∉ l := by
  have hline : ∀ l ∈ (if r.strip && (Lines.lines Byte.nl f).all fun l => l.getLast? == some Byte.cr
      then (Lines.lines Byte.nl f).map trimCr else Lines.lines Byte.nl f), Byte.nl ∉ l := by
    intro l hl
    split at hl
    · obtain ⟨m, hm, rfl⟩ := List.mem_map.mp hl
      exact fun hmem => Lines.sep_not_mem_lines Byte.nl hm (trimCr_subset m hmem)
    · exact Lines.sep_not_mem_lines Byte.nl hl
  rw [lines] at h
  split at h
  · obtain ⟨q, hq, rfl⟩ := List.mem_map.mp h
    intro hmem
    rcases mem_joinFrom hq hmem with hnil | ⟨m, hm, hmem⟩
    · exact absurd hnil List.not_mem_nil
    · exact hline m hm hmem
  · exact hline l h

theorem Reading.of_mem_bindings {r : Reading} {f : Bytes} {b : Binding} (h : b ∈ r.bindings f) :
    Byte.equals ∉ b.1 ∧ Byte.nl ∉ b.1 ++ Byte.equals :: b.2 := by
  obtain ⟨l, hl, hb⟩ := List.mem_flatMap.mp h
  have hb := List.mem_of_mem_filter hb
  cases ho : referenceNative l with
  | skipped =>
      rw [ho] at hb
      exact absurd hb List.not_mem_nil
  | rejected code =>
      rw [ho] at hb
      exact absurd hb List.not_mem_nil
  | accepted k v quoting =>
      rw [ho] at hb
      obtain rfl := List.mem_singleton.mp hb
      obtain ⟨-, -, hk, rfl, -⟩ := referenceNative_accepted.mp ho
      exact ⟨hk, nl_not_mem_lines hl⟩

/-! ## What the reference prints -/

section Miner

variable {cfg : Knobs} (hnative : cfg.native = true) (hdump : cfg.action = some .dump)

include hnative hdump

theorem normalize_stdout (path f : Bytes) (env : Awk.EnvArray) :
    (Awk.normalize cfg (.readable path f) env).2.stdout =
      if cfg.nulReject = true ∧ Byte.nul ∈ f then []
      else (Reading.mk cfg.crlfStrip cfg.contAccept).bindings f := by
  have hbom : Awk.bomPass cfg (Lines.lines Byte.nl f) = .ok (Lines.lines Byte.nl f) := by
    rw [Awk.bomPass_lines, cfg.native_bom hnative]
    split <;> rfl
  have hread := Awk.readLines_eq cfg path f
  rw [hbom] at hread
  split
  · rw [if_pos ‹_›] at hread
    rw [Awk.normalize, hread]
    rfl
  · rw [if_neg ‹_›] at hread
    rw [Awk.normalize_records hdump path f hread, Out.stdout_sum, List.flatMap_map]
    have hrecord : ∀ p : Bytes × Nat, (Out.hand p.1 p.2 +
        (Awk.record cfg path p.2 (reference cfg.native p.1) env).2 : Out Nat).stdout =
        (referenceNative p.1).bindings.filter fun b => b.2 != Awk.sentinel := by
      intro p
      rw [Awk.record_dump hdump, hnative]
      rfl
    simp only [hrecord]
    have hlines : (Meaning.logical cfg (if cfg.crlfStrip then
        Awk.stripCrlf (Lines.lines Byte.nl f) else Lines.lines Byte.nl f)).map Prod.fst =
        (Reading.mk cfg.crlfStrip cfg.contAccept).lines f := by
      have hstrip : (if cfg.crlfStrip then Awk.stripCrlf (Lines.lines Byte.nl f)
          else Lines.lines Byte.nl f) =
          if cfg.crlfStrip && (Lines.lines Byte.nl f).all fun l => l.getLast? == some Byte.cr then
            (Lines.lines Byte.nl f).map trimCr
          else Lines.lines Byte.nl f := by
        rw [Awk.stripCrlf_eq]
        cases cfg.crlfStrip <;> rfl
      rw [hstrip, Meaning.logical, Reading.lines]
      cases cfg.contAccept with
      | true => rfl
      | false => exact Lines.number_fst _ _
    rw [Reading.bindings, ← hlines, List.flatMap_map]

theorem runFiles_bytes (environ : Environ) (order : Awk.EnvArray → List Bytes) {path : Bytes}
    (hpath : path ≠ []) (f : Bytes) :
    (Awk.runFiles cfg environ order [.readable path f]).out.bytes =
      Lines.unlines Byte.nl (if cfg.nulReject = true ∧ Byte.nul ∈ f then []
        else ((Reading.mk cfg.crlfStrip cfg.contAccept).bindings f).map fun b =>
          b.1 ++ Byte.equals :: b.2) := by
  have harg : Awk.argPath path ≠ [] := by
    rw [Awk.argPath]
    split
    · decide
    · exact hpath
  have hfiles : ([File.readable path f].map fun g => { g with path := Awk.argPath g.path }).filter
      (fun g => g.path != []) = [.readable (Awk.argPath path) f] := by
    show [File.readable (Awk.argPath path) f].filter _ = _
    refine List.filter_eq_self.mpr ?_
    intro g hg
    rw [List.mem_singleton.mp hg]
    exact bne_iff_ne.mpr harg
  have hact : cfg.action ≠ some .apply := by
    rw [hdump]
    rintro ⟨⟩
  have hstdout : (Awk.runFiles cfg environ order [.readable path f]).out.stdout =
      (Awk.normalize cfg (.readable (Awk.argPath path) f) (Awk.initialEnv cfg environ)).2.stdout := by
    simp only [Awk.runFiles, hfiles, Step.run_singleton, hact, if_false, add_zero]
  rw [Out.bytes, hstdout, normalize_stdout hnative hdump, Lines.unlines]
  split
  · rfl
  · rw [List.map_map]
    rfl

end Miner

/-! ## What the dispatcher reads -/

theorem readLoop_unlines {ls : List Bytes} (hnl : ∀ l ∈ ls, Byte.nl ∉ l) (rounds : Nat)
    (h : (Lines.unlines Byte.nl ls).length < rounds) :
    readLoop rounds (Lines.unlines Byte.nl ls) = ls.map dropNul := by
  induction ls generalizing rounds with
  | nil => cases rounds <;> rfl
  | cons l ls ih =>
      cases rounds with
      | zero => exact absurd h (Nat.not_lt_zero _)
      | succ rounds =>
          have hfind : (l ++ Byte.nl :: Lines.unlines Byte.nl ls).idxOf? Byte.nl = some l.length :=
            memchr_append (hnl l List.mem_cons_self) _
          rw [Lines.unlines_cons, List.length_append, List.length_cons] at h
          have hrest := ih (fun m hm => hnl m (List.mem_cons_of_mem _ hm)) rounds (by omega)
          simp only [Lines.unlines_cons, readLoop, Sh.read, hfind, take_before, drop_after, if_true,
            hrest, List.map_cons]
          rfl

/-- A config file is mined by the knobs of the caller. -/
theorem mine_eq (environ : Environ) {path : Bytes} (hpath : path ≠ []) (f : Bytes) {cfg : Knobs}
    (hknobs : readKnobs (minerEnviron environ) = .ok cfg) (hnative : cfg.native = true)
    (hdump : cfg.action = some .dump) :
    mine environ (.readable path f) =
      if cfg.nulReject = true ∧ Byte.nul ∈ f then []
      else ((Reading.mk cfg.crlfStrip cfg.contAccept).bindings f).map fun b =>
        dropNul (b.1 ++ Byte.equals :: b.2) := by
  rw [mine, Awk.main, hknobs]
  simp only [Except.map]
  rw [runFiles_bytes hnative hdump _ _ hpath, readLoop_unlines _ _ (Nat.lt_succ_self _)]
  · split
    · rfl
    · rw [List.map_map]
      rfl
  · intro l hl
    split at hl
    · exact absurd hl List.not_mem_nil
    · obtain ⟨b, hb, rfl⟩ := List.mem_map.mp hl
      exact (Reading.of_mem_bindings hb).2

/-! ## Settings -/

theorem Knob.equals_not_mem (x : Knob) : Byte.equals ∉ x.name := by
  cases x <;> decide

theorem isPrefixOf_assignment {name k : Bytes} (hname : Byte.equals ∉ name)
    (hk : Byte.equals ∉ k) (v : Bytes) :
    (name ++ [Byte.equals]).isPrefixOf (k ++ Byte.equals :: v) = (name == k) := by
  rw [Bool.eq_iff_iff, List.isPrefixOf_iff_prefix, beq_iff_eq]
  constructor
  · rintro ⟨w, hw⟩
    rw [List.append_assoc] at hw
    exact (split_unique hname hk hw).1
  · rintro rfl
    exact ⟨v, by rw [List.append_assoc]; rfl⟩

theorem dropNul_assignment (k v : Bytes) :
    dropNul (k ++ Byte.equals :: v) = dropNul k ++ Byte.equals :: dropNul v := by
  rw [dropNul, List.filter_append]
  rfl

theorem configLine_binding {b : Binding} (hk : Byte.equals ∉ b.1) (s : Settings) :
    configLine s (dropNul (b.1 ++ Byte.equals :: b.2)) =
      match setting b with
      | some p => set s p
      | none => .ok s := by
  have hk' : Byte.equals ∉ dropNul b.1 := fun h => hk (List.mem_of_mem_filter h)
  have hfind : (Knob.all.find? fun x =>
      x.pattern.isPrefixOf (dropNul b.1 ++ Byte.equals :: dropNul b.2)) =
      Knob.ofName (dropNul b.1) := by
    rw [Knob.ofName]
    congr 1
    funext x
    exact isPrefixOf_assignment x.equals_not_mem hk' _
  rw [configLine, dropNul_assignment, hfind, setting]
  cases hname : Knob.ofName (dropNul b.1) with
  | none => rfl
  | some x =>
      have hx : (x.name == dropNul b.1) = true :=
        List.find?_some (p := fun x : Knob => x.name == dropNul b.1) hname
      have hdrop : (dropNul b.1 ++ Byte.equals :: dropNul b.2).drop x.pattern.length =
          dropNul b.2 := by
        rw [Knob.pattern, ← beq_iff_eq.mp hx, List.length_append]
        exact drop_after _ _ _
      rw [Option.map_some]
      simp only [hdrop]

theorem foldlM_configLine {bs : List Binding} (hbs : ∀ b ∈ bs, Byte.equals ∉ b.1)
    (s : Settings) :
    (bs.map fun b => dropNul (b.1 ++ Byte.equals :: b.2)).foldlM configLine s =
      (bs.filterMap setting).foldlM set s := by
  induction bs generalizing s with
  | nil => rfl
  | cons b bs ih =>
      have hrest := ih fun c hc => hbs c (List.mem_cons_of_mem _ hc)
      rw [List.map_cons, List.foldlM_cons, configLine_binding (hbs b List.mem_cons_self),
        List.filterMap_cons]
      cases setting b with
      | none => exact hrest s
      | some p =>
          show (set s p >>= _) = (set s p >>= _)
          cases set s p with
          | error e => rfl
          | ok s' => exact hrest s'

/-- All settings are valid. -/
def allValid (l : List (Knob × Bytes)) : Bool := l.all fun p => p.1.validate p.2

theorem toOption_foldlM_set (l : List (Knob × Bytes)) (s : Settings) :
    (l.foldlM set s).toOption =
      if allValid l then some fun x => (assign empty l x).getD (s x) else none := by
  induction l generalizing s with
  | nil => rfl
  | cons p l ih =>
      have hvalid : allValid (p :: l) = (p.1.validate p.2 && allValid l) := rfl
      rw [List.foldlM_cons, set, hvalid]
      cases hp : p.1.validate p.2 with
      | false => rfl
      | true =>
          have hlast : ∀ x, (assign empty (p :: l) x).getD (s x) =
              (assign empty l x).getD (Function.update s p.1 p.2 x) := by
            intro x
            rw [assign_cons, assign_eq_or]
            cases assign empty l x with
            | some v => rfl
            | none =>
                rw [Option.none_or, Option.getD_none]
                by_cases hx : x = p.1
                · rw [hx, Function.update_self, Function.update_self]
                  rfl
                · rw [Function.update_of_ne hx, Function.update_of_ne hx]
                  rfl
          simp only [hlast, Bool.true_and]
          exact ih _

end Envfile.Dispatch
