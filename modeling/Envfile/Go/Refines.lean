/-
# `Envfile.Go.Refines` — the Go program refines the meaning of a run

The Go program keeps its environment in a map, so that representing an
environment is having its bindings.  Substitution walks an index over the
whole value as the other ports do (`substLoop_port`); a native line does what
the format says (`processLine_native`); the file is cut into the lines of
`Envfile.Lib.Lines` (`splitLines_eq`).
-/
import Envfile.Go.Program
import Envfile.Lib.Assoc
import Envfile.Lib.Lines
import Envfile.Meaning
import Envfile.Port.Classify

namespace Envfile.Go

open Assign Meaning

/-- The map has the bindings of the environment. -/
def Represents (env : EnvMap) (m : Env) : Prop := env.lookup = m

/-! ## The loop over the lines -/

/-- The Go program as a port: spaces and tabs are its whitespace, a map its
table. -/
def port : Port EnvMap := ⟨Envfile.isBlank, fun env => env.lookup, fun env k v => env.insert k v⟩

section Loop

variable (env : EnvMap) (path : Bytes) (lineno : Nat)

theorem substLoop_port (value : Bytes) (rounds i : Nat) :
    substLoop env path lineno value rounds i = port.substLoop env path lineno value rounds i := by
  induction rounds generalizing i with
  | zero => rfl
  | succ rounds ih =>
      simp only [substLoop, Port.substLoop, ih]
      rfl

theorem substValue_port (value : Bytes) :
    substValue path lineno value env = port.substValue path lineno value env :=
  substLoop_port env path lineno value _ 0

theorem substValue_eq (value : Bytes) :
    substValue path lineno value env =
      ((subst env.lookup value).1, Out.unbound path lineno (subst env.lookup value).2) := by
  rw [substValue_port, Port.substValue_eq]
  rfl

variable (cfg : Knobs)

theorem handleRecord_port (key rawValue value : Bytes) :
    handleRecord cfg path lineno key rawValue value =
      port.handleRecord cfg path lineno key rawValue value := by
  funext env
  simp only [handleRecord, Port.handleRecord, substValue_port]
  rfl

theorem unquoteShellValue_port (value : Bytes) :
    unquoteShellValue path lineno value =
      match Port.unquoteShellValue value with
      | .error code => (none, diag path lineno code)
      | .ok unquoted => (some unquoted, 0) := by
  cases value with
  | nil => rfl
  | cons c rest =>
      rw [unquoteShellValue, Port.unquoteShellValue]
      split
      · have hfind : indexByte rest c = rest.idxOf? c := rfl
        rw [hfind]
        cases hclose : rest.idxOf? c with
        | none => rfl
        | some pos =>
            have hlt : pos < rest.length := memchr_lt hclose
            have hend : ((rest.drop (pos + 1)).length != 0) = (pos + 1 != rest.length) := by
              rw [List.length_drop, Bool.eq_iff_iff, bne_iff_ne, bne_iff_ne]
              omega
            simp only [hend]
            split <;> rfl
      · have hbad : isBadUnquoted = Port.isBadUnquoted := rfl
        rw [hbad]
        split <;> rfl

theorem processRecord_port (line trimmed rawValue : Bytes) :
    processRecord cfg path lineno line trimmed rawValue =
      port.processRecord cfg path lineno line trimmed rawValue := by
  have hfind : ∀ work : Bytes, indexByte work Byte.equals = work.idxOf? Byte.equals :=
    fun _ => rfl
  have hws : port.isWhitespace = isBlank := rfl
  have hkey : Port.validShellKey = validShellKey := rfl
  simp only [processRecord, Port.processRecord, handleRecord_port, hfind, hws, hkey]
  generalize (if cfg.native = true then line else trimmed) = work
  cases work.idxOf? Byte.equals with
  | none => rfl
  | some eq =>
      simp only [unquoteShellValue_port]
      -- the tests in front of the value are the same word for word
      refine ite_congr rfl (fun _ => rfl) fun _ => ite_congr rfl (fun _ => rfl) fun _ => ?_
      refine ite_congr rfl (fun _ => rfl) fun _ => ite_congr rfl (fun _ => rfl) fun _ => ?_
      refine ite_congr rfl (fun _ => rfl) fun _ => ite_congr rfl (fun _ => rfl) fun _ => ?_
      cases Port.unquoteShellValue (work.drop (eq + 1)) with
      | error code => rfl
      | ok unquoted =>
          funext env
          show (_, 0 + _) = _
          rw [zero_add]

/-- The Go program runs the loop that the Rust and Zig programs run. -/
theorem processLine_port (line : Bytes) :
    processLine cfg path lineno line = port.processLine cfg path lineno line := by
  have hblank : isBlankSpacesTabs (trimCr line) = port.isBlank (trimCr line) := by
    rw [isBlankSpacesTabs, Port.isBlank]
    congr 1
    funext c
    rw [bne, bne, Bool.not_and, Bool.not_not, Bool.not_not]
    rfl
  simp only [processLine, Port.processLine, processRecord_port, hblank]
  rfl

end Loop

/-! ## Native lines -/

section Native

variable {cfg : Knobs} (hnative : cfg.native = true) {action : Action}
  (haction : cfg.action = some action) (path : Bytes) (lineno : Nat)

include hnative haction

theorem handleRecord_native (k v : Bytes) :
    Refines Represents (handleRecord cfg path lineno k v v)
      (Meaning.accept true action path lineno k v .plain) := by
  rintro env m rfl
  have hset : ∀ value : Bytes, Represents (env.insert k value)
      (Function.update env.lookup k (some value)) := fun value => Assoc.lookup_insert env k value
  rw [handleRecord, hnative, haction, Bool.true_or, if_pos rfl, substValue_eq]
  cases action with
  | dump => exact ⟨rfl, (toOut_print k v).symm⟩
  | normalize => exact ⟨rfl, (map_zero _).symm⟩
  | validate => exact ⟨rfl, (map_zero _).symm⟩
  | delta =>
      refine ⟨hset _, ?_⟩
      show Out.unbound path lineno _ + Out.print k _ =
        toOut Int64 (Out.unbound path lineno _ + Out.print k _)
      rw [map_add, toOut_unbound, toOut_print]
      rfl
  | apply =>
      refine ⟨hset _, ?_⟩
      show Out.unbound path lineno _ + 0 = toOut Int64 (Out.unbound path lineno _ + 0)
      rw [map_add, toOut_unbound, map_zero]
      rfl

theorem processRecord_native {k : Bytes} (hk : Byte.equals ∉ k) (v trimmed : Bytes) :
    Refines Represents (processRecord cfg path lineno (k ++ Byte.equals :: v) trimmed v)
      (match nativeAssignment k v with
        | .accepted k v quoting => Meaning.accept true action path lineno k v quoting
        | .rejected code => Step.emit (Out.diag ⟨code, none, path, some lineno⟩)
        | .skipped => Step.skip) := by
  have hfind : indexByte (k ++ Byte.equals :: v) Byte.equals = some k.length :=
    memchr_append hk v
  simp only [processRecord, hnative, if_true, hfind, take_before, drop_after]
  cases k with
  | nil =>
      have h := Refines.emit (R := Represents) (ι := Int64)
        (Out.diag ⟨.emptyKey, none, path, some lineno⟩)
      rwa [toOut_diag] at h
  | cons c k =>
      rw [nativeAssignment, if_neg (List.cons_ne_nil c k)]
      exact handleRecord_native hnative haction path lineno (c :: k) v

theorem processLine_unhanded (line : Bytes) :
    Refines Represents
      (if isSkipped line then Step.skip
        else Step.prepend Out.check
          (match indexByte line Byte.equals with
          | none => Step.emit (diag path lineno .noEquals)
          | some eq =>
              if cfg.action = some .normalize then
                Step.emit (Out.print (line.take eq) (line.drop (eq + 1)))
              else processRecord cfg path lineno line (trimCr line) (line.drop (eq + 1))))
      (if action = .normalize then Step.emit (printed path lineno line)
        else Meaning.record true action path lineno (referenceNative line)) := by
  have hemit : ∀ o : Out Nat, Refines Represents
      (Step.prepend Out.check (Step.emit (toOut Int64 o))) (Step.emit (Out.check + o)) := by
    intro o
    have h := (Refines.emit (R := Represents) (ι := Int64) o).prepend Out.check
    rwa [toOut_check] at h
  have hnone := hemit (Out.diag ⟨.noEquals, none, path, some lineno⟩)
  rw [toOut_diag] at hnone
  rw [printed, referenceNative, lineOutcome, haction]
  cases isSkipped line with
  | true =>
      intro env m hR
      by_cases hact : action = .normalize
      · rw [if_pos hact]
        exact ⟨hR, (map_zero _).symm⟩
      · rw [if_neg hact]
        exact ⟨hR, (map_zero _).symm⟩
  | false =>
      rw [if_neg Bool.false_ne_true, if_neg Bool.false_ne_true, if_neg Bool.false_ne_true,
        assignmentOutcome]
      rcases line_shape line with ⟨hno, hsplit⟩ | ⟨k, v, rfl, hk, hsplit⟩
      · have hfind : indexByte line Byte.equals = none := memchr_eq_none.mpr hno
        rw [hfind, hsplit]
        by_cases hact : action = .normalize
        · rw [if_pos hact]
          exact hnone
        · rw [if_neg hact]
          exact hnone
      · have hfind : indexByte (k ++ Byte.equals :: v) Byte.equals = some k.length :=
          memchr_append hk v
        rw [hfind, hsplit]
        simp only [take_before, drop_after, Option.some.injEq]
        by_cases hact : action = .normalize
        · rw [if_pos hact, if_pos hact]
          have h := hemit (Out.print k v)
          rwa [toOut_print] at h
        · rw [if_neg hact, if_neg hact]
          have h := (processRecord_native hnative haction path lineno hk v
            (trimCr (k ++ Byte.equals :: v))).prepend Out.check
          rw [toOut_check] at h
          cases hassign : nativeAssignment k v with
          | skipped => exact absurd hassign (assignment_ne_skipped true k v)
          | rejected code =>
              rw [hassign] at h
              exact h
          | accepted k' v' quoting =>
              rw [hassign] at h
              exact h

theorem processLine_native (line : Bytes) :
    Refines Represents (processLine cfg path lineno line)
      (Meaning.line true action referenceNative path lineno line) := by
  have hblank : isBlankSpacesTabs (trimCr line) = (trimCr line).all isBlank := by
    rw [isBlankSpacesTabs]
    congr 1
    funext c
    rw [isBlank, bne, bne, Bool.not_and, Bool.not_not, Bool.not_not]
  have h := (processLine_unhanded hnative haction path lineno line).prepend (Out.hand line lineno)
  rw [toOut_hand, ← isSkipped_trimCr line, ← hblank] at h
  rw [processLine, Meaning.line]
  revert h
  cases isBlankSpacesTabs (trimCr line) with
  | true => exact id
  | false =>
      rw [Bool.false_or]
      exact id

end Native

/-! ## The environment of the process -/

/-- The keys of an environment, one for each entry with an `=`. -/
def environKeys (environ : Environ) : List Bytes := (environ.filterMap splitEquals).map Prod.fst

/-- Where no key comes twice, the entries with a key are all there. -/
theorem osEnviron_filterMap {seen : List Bytes} {environ : Environ}
    (hunique : (environKeys environ).Nodup) (hfresh : ∀ k ∈ environKeys environ, k ∉ seen) :
    (osEnviron seen environ).filterMap splitEquals = environ.filterMap splitEquals := by
  induction environ generalizing seen with
  | nil => rfl
  | cons entry entries ih =>
      rw [environKeys] at hunique hfresh
      rw [osEnviron]
      rcases line_shape entry with ⟨hno, hsplit⟩ | ⟨k, v, rfl, hk, hsplit⟩
      · have hfind : indexByte entry Byte.equals = none := memchr_eq_none.mpr hno
        rw [List.filterMap_cons_none hsplit] at hunique hfresh ⊢
        have hrest := ih hunique hfresh
        rw [hfind]
        simp only
        split
        · exact hrest
        · rw [List.filterMap_cons_none hsplit, hrest]
      · have hfind : indexByte (k ++ Byte.equals :: v) Byte.equals = some k.length :=
          memchr_append hk v
        rw [List.filterMap_cons_some hsplit, List.map_cons] at hunique hfresh
        obtain ⟨hnew, hunique⟩ := List.nodup_cons.mp hunique
        have hk : k ∉ seen := hfresh k List.mem_cons_self
        have hrest : ∀ j ∈ environKeys entries, j ∉ k :: seen := by
          intro j hj hmem
          rcases List.mem_cons.mp hmem with rfl | hmem
          · exact hnew hj
          · exact hfresh j (List.mem_cons_of_mem _ hj) hmem
        rw [hfind]
        simp only [take_before]
        rw [if_neg (fun h => hk (List.contains_iff_mem.mp h)), List.filterMap_cons_some hsplit,
          List.filterMap_cons_some hsplit, ih hunique hrest]

theorem foldl_seedEntry (entries : List Bytes) (env : EnvMap) :
    (entries.foldl seedEntry env).lookup =
      assign env.lookup
        ((entries.filterMap splitEquals).filter fun b => !envfilePrefix.isPrefixOf b.1) := by
  have hentries : entries.foldl seedEntry env = (entries.filterMap splitEquals).foldl
      (fun env b => if envfilePrefix.isPrefixOf b.1 then env else env.insert b.1 b.2) env := by
    rw [List.foldl_filterMap]
    congr 1
    funext env entry
    rw [seedEntry]
    rcases line_shape entry with ⟨hno, hsplit⟩ | ⟨k, v, rfl, hk, hsplit⟩
    · rw [hsplit, show indexByte entry Byte.equals = none from memchr_eq_none.mpr hno]
    · rw [hsplit, show indexByte (k ++ Byte.equals :: v) Byte.equals = some k.length from
        memchr_append hk v]
      simp only [take_before, drop_after]
  rw [hentries, Assoc.lookup_foldl_unless]

theorem seedEnv_lookup {environ : Environ} (hunique : (environKeys environ).Nodup) :
    (seedEnv environ).lookup =
      assign empty
        ((environ.filterMap splitEquals).filter fun b => !envfilePrefix.isPrefixOf b.1) := by
  rw [seedEnv, foldl_seedEntry, osEnviron_filterMap hunique fun _ _ => List.not_mem_nil]
  rfl

/-- What is printed at the end: the bindings of the map, but for the
`ENVFILE_` keys, in the order of the keys. -/
theorem emitSorted_lists {env : EnvMap} {m : Env} (h : Represents env m) :
    Lists (fun k => if envfilePrefix.isPrefixOf k then none else m k) (emitSorted env) := by
  subst h
  exact Assoc.sorted_lists (envfilePrefix.isPrefixOf ·) env (List.Perm.refl _) []

/-! ## Files -/

theorem splitLines_eq (s : Bytes) : splitLines s = Lines.lines Byte.nl s := by
  rw [splitLines, Lines.splitOn_eq, Lines.lines]
  have hlen : (Lines.complete Byte.nl s ++ [Lines.rest Byte.nl s]).length > 0 := by
    rw [List.length_append, List.length_singleton]
    exact Nat.succ_pos _
  simp only [decide_eq_true hlen, Bool.true_and, List.getLastD_concat, List.dropLast_concat]
  cases Lines.rest Byte.nl s with
  | nil => exact (List.append_nil _).symm
  | cons c r => rfl

theorem stripCrlf_eq (lines : List Bytes) :
    stripCrlf lines =
      if lines.all (fun l => l.getLast? == some Byte.cr) then lines.map trimCr else lines := by
  cases lines with
  | nil => rfl
  | cons l ls =>
      have hlen : decide ((l :: ls).length > 0) = true := rfl
      rw [stripCrlf, hlen, Bool.true_and]
      split
      · rename_i hall
        refine List.map_congr_left ?_
        intro m hm
        have hcr : m.getLast? = some Byte.cr := beq_iff_eq.mp (List.all_eq_true.mp hall m hm)
        rw [trimCr, if_pos hcr, List.dropLast_eq_take]
      · rfl

theorem numberLines_eq (n : Nat) (lines : List Bytes) :
    numberLines n lines = Lines.number n lines := by
  induction lines generalizing n with
  | nil => rfl
  | cons l lines ih => rw [numberLines, Lines.number, ih]

/-- What `processFile` makes of a file without NUL, where BOMs are literal and
lines are not joined. -/
theorem processFile_plain {cfg : Knobs} (hbom : cfg.bom = .literal) (hcont : cfg.contAccept = false)
    {f : Bytes} (hnul : Byte.nul ∉ f) (path : Bytes) :
    processFile cfg path f =
      Step.run (fun p => processLine cfg path p.2 p.1)
        (Lines.number 0 (if cfg.crlfStrip then stripCrlf (Lines.lines Byte.nl f)
          else Lines.lines Byte.nl f)) := by
  have hpass : ∀ ls : List Bytes, bomPass cfg ls = .ok ls := by
    intro ls
    cases ls with
    | nil => rfl
    | cons l ls =>
        rw [bomPass, hbom]
        split <;> rfl
  have hfind : indexByte f Byte.nul = none := memchr_eq_none.mpr hnul
  have hread : readLines cfg f = .ok (if cfg.crlfStrip then stripCrlf (Lines.lines Byte.nl f)
      else Lines.lines Byte.nl f) := by
    rw [readLines, hfind, Option.isSome_none, Bool.and_false, if_neg Bool.false_ne_true, hpass,
      splitLines_eq]
    rfl
  rw [processFile, hread]
  simp only [hcont, Bool.false_eq_true, if_false, numberLines_eq]

end Envfile.Go
