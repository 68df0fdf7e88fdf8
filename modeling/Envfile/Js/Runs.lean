/-
# `Envfile.Js.Runs` — the JavaScript program conforms

The two `Map`s hold the same keys, and each array in `envKeys` is read as the
string that it is filed under; so together they are a map from byte strings
(`Represents`).  Reading bytes as Latin-1 keeps them apart and keeps their order,
so that the order of strings, by code units, is the order of the byte strings
(`emitSorted_lists`).
-/
import Envfile.Js.Program
import Envfile.Lib.Assoc
import Envfile.Port.Files
import Envfile.Port.Refines

namespace Envfile.Js

open Assign Meaning

/-- What the JavaScript program has of its own. -/
def dialect : Dialect where
  classify := Port.outcome isBlank
  spell := spell
  limit := 2 ^ 53
  seeds := fun _ environ => Textual environ
  admits := fun _ file => Utf8.valid file.path = true
  rereads := true

/-! ## Files -/

theorem splitLoop_eq (buf : Bytes) : ∀ line : Bytes, Byte.nl ∉ line →
    splitLoop line buf = Lines.complete Byte.nl (line ++ buf) ++ [Lines.rest Byte.nl (line ++ buf)] := by
  induction buf with
  | nil =>
      intro line hline
      rw [List.append_nil, Lines.complete_of_not_mem Byte.nl hline,
        Lines.rest_of_not_mem Byte.nl hline]
      rfl
  | cons c buf ih =>
      intro line hline
      rw [splitLoop]
      by_cases hc : c = Byte.nl
      · subst hc
        have hcut := Lines.cut_line Byte.nl hline buf
        rw [if_pos (beq_self_eq_true _), ih [] List.not_mem_nil, List.nil_append, Lines.complete,
          Lines.rest, Lines.complete, Lines.rest, hcut]
        rfl
      · have hline' : Byte.nl ∉ line ++ [c] := by
          rw [List.mem_append, List.mem_singleton, not_or]
          exact ⟨hline, fun h => hc h.symm⟩
        rw [if_neg (by rwa [beq_iff_eq]), ih _ hline', List.append_assoc]
        rfl

theorem splitLines_eq (buf : Bytes) : splitLines buf = Lines.lines Byte.nl buf := by
  rw [splitLines, splitLoop_eq buf [] List.not_mem_nil, List.nil_append, Lines.lines]
  have hlen : (Lines.complete Byte.nl buf ++ [Lines.rest Byte.nl buf]).length > 0 := by
    rw [List.length_append, List.length_singleton]
    exact Nat.succ_pos _
  simp only [decide_eq_true hlen, Bool.true_and, List.getLastD_concat, List.dropLast_concat]
  cases Lines.rest Byte.nl buf with
  | nil => exact (List.append_nil _).symm
  | cons c r => rfl

theorem firstLineBom (cfg : Knobs) : FirstLineBom cfg (bomPass cfg) := ⟨rfl, fun _ _ => rfl⟩

theorem allCrlf : AllCrlf stripCrlf := by
  intro lines
  have hcr : (fun line : Bytes => line.length == 0 || line.getLast? != some Byte.cr) =
      fun line => !(line.getLast? == some Byte.cr) := by
    funext line
    cases line with
    | nil => rfl
    | cons c line => rfl
  cases lines with
  | nil => rfl
  | cons l ls =>
      have hlen : decide ((l :: ls).length > 0) = true := rfl
      rw [stripCrlf, hlen, hcr, Bool.true_and, List.any_eq_not_all_not]
      simp only [Bool.not_not]
      split
      · refine List.map_congr_left ?_
        intro m hm
        have hcr : m.getLast? = some Byte.cr := beq_iff_eq.mp (List.all_eq_true.mp ‹_› m hm)
        rw [trimCr, if_pos hcr, List.dropLast_eq_take]
      · rfl

theorem gatherLoop : GatherLoop gather joinLines where
  ahead := by
    refine ⟨fun _ _ => rfl, ?_⟩
    intro line next lines i
    rw [gather, List.dropLast_eq_take]
    rfl
  nil := by
    intro rounds i
    cases rounds <;> rfl
  cons := fun _ _ _ _ => rfl

theorem numberLines_eq (n : Nat) (lines : List Bytes) :
    numberLines n lines = Lines.number n lines := by
  induction lines generalizing n with
  | nil => rfl
  | cons l lines ih => rw [numberLines, Lines.number, ih]

theorem readLines_eq (cfg : Knobs) (f : Bytes) : readLines cfg f = physical cfg f := by
  have hnul : (f.idxOf? Byte.nul).isSome = decide (Byte.nul ∈ f) := by
    rw [Bool.eq_iff_iff, decide_eq_true_iff]
    exact memchr_isSome
  rw [readLines, hnul, splitLines_eq]
  exact physical_eq (firstLineBom cfg) allCrlf f

theorem processArg_port (cfg : Knobs) (file : File) :
    processArg cfg file = Port.respelled spell (port.processArg cfg file) := by
  rw [processArg, Port.processArg_respelled, readFile]
  split
  · rfl
  rw [readLines_eq]
  cases physical cfg file.contents with
  | error code => rfl
  | ok lines =>
      have hlines : (if cfg.contAccept then joinLines lines.length lines 0
          else numberLines 0 lines) = logical cfg lines :=
        logical_eq gatherLoop numberLines_eq cfg lines
      simp only [hlines]
      rfl

/-! ## The two maps -/

theorem toUInt16_injective : Function.Injective UInt8.toUInt16 := by
  intro c d h
  have hbyte := congrArg UInt16.toUInt8 h
  rwa [UInt8.toUInt8_toUInt16, UInt8.toUInt8_toUInt16] at hbyte

theorem bytesToLatin1_injective : Function.Injective bytesToLatin1 :=
  List.map_injective_iff.mpr toUInt16_injective

/-- The order of the code units is the order of the bytes. -/
theorem lt_of_bytesToLatin1_lt (a b : Bytes) (h : bytesToLatin1 a < bytesToLatin1 b) : a < b := by
  induction a generalizing b with
  | nil =>
      cases b with
      | nil => exact absurd h (List.lt_irrefl _)
      | cons d b => exact List.nil_lt_cons d b
  | cons c a ih =>
      cases b with
      | nil => exact absurd h (List.not_lt_nil _)
      | cons d b =>
          rcases List.cons_lt_cons_iff.mp h with hcd | ⟨hcd, hab⟩
          · refine List.cons_lt_cons_iff.mpr (Or.inl ?_)
            rwa [UInt16.lt_iff_toNat_lt, UInt8.toNat_toUInt16, UInt8.toNat_toUInt16,
              ← UInt8.lt_iff_toNat_lt] at hcd
          · exact List.cons_lt_cons_iff.mpr (Or.inr ⟨toUInt16_injective hcd, ih b hab⟩)

theorem isPrefixOf_bytesToLatin1 (p k : Bytes) :
    (bytesToLatin1 p).isPrefixOf (bytesToLatin1 k) = p.isPrefixOf k := by
  induction p generalizing k with
  | nil => cases k <;> rfl
  | cons c p ih =>
      cases k with
      | nil => rfl
      | cons d k =>
          have hcd : (c.toUInt16 == d.toUInt16) = (c == d) := by
            rw [Bool.eq_iff_iff, beq_iff_eq, beq_iff_eq]
            exact ⟨fun h => toUInt16_injective h, congrArg _⟩
          show (c.toUInt16 == d.toUInt16 && (bytesToLatin1 p).isPrefixOf (bytesToLatin1 k)) = _
          rw [hcd, ih]
          rfl

/-- The maps stand for the environment. -/
structure Represents (maps : EnvMaps) (m : Env) : Prop where
  get : maps.get = m
  same : ∀ k, k ∈ maps.envKeys ↔ k ∈ maps.envMap
  filed : ∀ k ∈ maps.envKeys, bytesToLatin1 ((maps.envKeys.lookup k).getD []) = k

theorem represents_empty : Represents .empty empty :=
  ⟨rfl, fun _ => Iff.rfl, fun _ hk => absurd hk (AList.notMem_empty _)⟩

theorem isMap : port.IsMap Represents where
  get := fun h => h.get
  set := by
    rintro maps m ⟨rfl, hsame, hfiled⟩ key value
    have hmap := Assoc.lookup_insert maps.envMap (bytesToLatin1 key) value
    have hkeys := Assoc.lookup_insert maps.envKeys (bytesToLatin1 key) key
    refine ⟨?_, ?_, ?_⟩
    · funext name
      refine (congrFun hmap (bytesToLatin1 name)).trans ?_
      by_cases hname : name = key
      · subst hname
        rw [Function.update_self, Function.update_self]
      · rw [Function.update_of_ne hname,
          Function.update_of_ne fun h => hname (bytesToLatin1_injective h)]
        rfl
    · intro k
      show k ∈ maps.envKeys.insert _ _ ↔ k ∈ maps.envMap.insert _ _
      rw [AList.mem_insert, AList.mem_insert, hsame]
    · intro k hk
      show bytesToLatin1 (((maps.envKeys.insert _ _).lookup k).getD []) = k
      rw [congrFun hkeys k]
      by_cases hkey : k = bytesToLatin1 key
      · subst hkey
        rw [Function.update_self]
        rfl
      · rw [Function.update_of_ne hkey]
        exact hfiled k (((AList.mem_insert _).mp hk).resolve_left hkey)

/-- What is printed at the end: the bindings of the maps, but for the `ENVFILE_`
keys, in the order of the keys. -/
theorem emitSorted_lists {maps : EnvMaps} {m : Env} (h : Represents maps m) :
    Lists (fun k => if envfilePrefix.isPrefixOf k then none else m k) (emitSorted maps) := by
  obtain ⟨rfl, hsame, hfiled⟩ := h
  have hperm : maps.envKeys.keys.Perm maps.envMap.keys := by
    refine (List.perm_ext_iff_of_nodup maps.envKeys.keys_nodup maps.envMap.keys_nodup).mpr ?_
    intro k
    rw [← AList.mem_keys, ← AList.mem_keys, hsame]
  have hlists := Assoc.sorted_lists ((bytesToLatin1 envfilePrefix).isPrefixOf ·) maps.envMap
    hperm []
  have hdecoded := hlists.decoded (m := fun k =>
    if envfilePrefix.isPrefixOf k then none else maps.get k) bytesToLatin1_injective
    lt_of_bytesToLatin1_lt (fun k => by rw [isPrefixOf_bytesToLatin1]; rfl)
    (fun k => (maps.envKeys.lookup k).getD []) ?_
  · rw [List.map_map] at hdecoded
    exact hdecoded
  · intro p hp
    obtain ⟨k, hk, rfl⟩ := List.mem_map.mp hp
    have hk : k ∈ maps.envKeys.keys.filter _ := (List.mergeSort_perm _ _).mem_iff.mp hk
    exact hfiled k (AList.mem_keys.mpr (List.mem_of_mem_filter hk))

/-! ## Runs -/

theorem seedEnv_represents (bs : List (Bytes × Bytes)) :
    Represents (seedEnv bs) (assign empty (bs.filter fun b => !envfilePrefix.isPrefixOf b.1)) := by
  have hfold : ∀ {maps : EnvMaps} {m : Env}, Represents maps m →
      Represents (bs.foldl (fun maps e =>
        if envfilePrefix.isPrefixOf e.1 then maps else maps.set e.1 e.2) maps)
        (assign m (bs.filter fun b => !envfilePrefix.isPrefixOf b.1)) := by
    induction bs with
    | nil => exact fun h => h
    | cons b bs ih =>
        intro maps m h
        rw [List.foldl_cons, List.filter_cons]
        cases envfilePrefix.isPrefixOf b.1 with
        | true => exact ih h
        | false => exact ih (isMap.set h b.1 b.2)
  exact hfold represents_empty

theorem processEnv_eq {environ : Environ} (h : Textual environ) :
    processEnv environ = environ.filterMap splitEquals := by
  refine (List.map_congr_left fun b hb => ?_).trans (List.map_id _)
  rw [Utf8.lossy_of_valid (h b hb).1, Utf8.lossy_of_valid (h b hb).2]
  rfl

theorem initialMaps_start {cfg : Knobs} {action : Action} (hact : cfg.action = some action)
    {environ : Environ} (h : Textual environ) :
    Represents (initialMaps cfg (processEnv environ)) (start action environ) := by
  rw [initialMaps, start, hact, processEnv_eq h]
  simp only [Option.some.injEq]
  split
  · exact seedEnv_represents _
  · exact represents_empty

theorem runFiles_eq {cfg : Knobs} {action : Action} (hact : cfg.action = some action)
    {environ : Environ} (henviron : Textual environ) (files : List File) :
    ∃ printed,
      Lists (shown action (ofRun (Port.outcome isBlank) action cfg environ files).1) printed ∧
      (runFiles cfg (processEnv environ) files).out = Out.respell spell
        (toOut Nat (ofRun (Port.outcome isBlank) action cfg environ files).2) +
          Out.printAll printed := by
  have hblank : port.isWhitespace = isBlank := by
    funext c
    show (!(c != Byte.space && c != Byte.tab)) = (c == Byte.space || c == Byte.tab)
    rw [bne, bne, Bool.not_and, Bool.not_not, Bool.not_not]
  have hrun := Port.run_eq (ι := Nat) isMap hact
    (fun file _ => Port.skipsBlank_of_isBlank hblank cfg file)
    (fun file (_ : file ∈ files) => processArg_port cfg file) (initialMaps_start hact henviron)
  rw [hblank] at hrun
  obtain ⟨hstate, hout⟩ := hrun
  refine ⟨_, lists_emitted (emitSorted_lists hstate) action, ?_⟩
  rw [runFiles]
  simp only [hact, Option.some.injEq]
  rw [hout]
  congr 1
  split <;> rfl

/-- The JavaScript program, its variables read. -/
def program : Program := fun cfg environ files =>
  some (Observed.ofReport (runFiles cfg (processEnv environ) files))

theorem program_conforms : Conforms dialect program := by
  rintro cfg action environ files hact - ⟨hseeds, -, -, hcount⟩
  obtain ⟨printed, hlists, hout⟩ := runFiles_eq hact hseeds files
  refine ⟨_, rfl, shows_of_out hlists hout hcount (fun _ _ => rfl) ?_⟩
  show (if (runFiles cfg (processEnv environ) files).out.errors > 0 then 1 else 0) = _
  rw [hout, Out.add_errors, Out.printAll_errors, add_zero]
  exact if_congr Nat.pos_iff_ne_zero rfl rfl |>.trans (ite_not _ _ _)

/-- The JavaScript program shows what its run means. -/
theorem jsMain_shows {environ : Environ} {cfg : Knobs} {action : Action}
    (hread : readKnobs (processEnv environ) = .ok cfg) (hact : cfg.action = some action)
    (henviron : Posix environ) (stdin : File) (args : List File)
    (hcovers : dialect.Covers action cfg environ (arguments stdin args)) :
    ∃ r, runEnvfile (processEnv environ) stdin args = .ok r ∧
      dialect.Shows action cfg environ (arguments stdin args) (Observed.ofReport r) := by
  obtain ⟨o, ho, hshows⟩ := program_conforms cfg action environ _ hact henviron hcovers
  obtain rfl := Option.some.inj ho
  have hfiles : (if args.length > 0 then args else [{ stdin with path := [Byte.dash] }]) =
      arguments stdin args := by
    cases args <;> rfl
  exact ⟨_, by rw [runEnvfile, hread, hfiles]; rfl, hshows⟩

theorem jsMain_shows_sample :
    ∃ r, runEnvfile (processEnv sampleEnviron) sampleStdin sampleFiles = .ok r ∧
      dialect.Shows .apply sampleKnobs sampleEnviron sampleFiles (Observed.ofReport r) :=
  jsMain_shows rfl rfl sampleEnviron_posix sampleStdin sampleFiles
    ⟨sampleEnviron_textual, sampleFiles_textual, nofun, by decide +kernel, by decide +kernel⟩

end Envfile.Js
