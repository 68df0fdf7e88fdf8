/-
# `Envfile.Zig.Runs` — the Zig program conforms

`EnvStore` is a list of entries, gone over from its front; no key comes twice in
it (`Represents`), so that sorting by keys has one result.

On the runs it is meant for the Zig program does not stop and shows what the run
means (`program_conforms`).  Those are the runs whose files have fewer than
`2 ^ 32` lines and no last line that goes on; under `normalize` its six bytes of
whitespace must make no difference (`Admits`).
-/
import Envfile.Lib.Assoc
import Envfile.Port.Files
import Envfile.Port.Refines
import Envfile.Zig.Join

namespace Envfile.Zig

open Assign Meaning

/-- A file that the Zig program reads as the format says. -/
structure Admits (cfg : Knobs) (file : File) : Prop where
  skips : port.SkipsBlank cfg file
  fits : ∀ ls, physical cfg file.contents = .ok ls → ls.length < 2 ^ 32
  ends : cfg.contAccept = true →
    ∀ ls, physical cfg file.contents = .ok ls → ls.getLast?.any continues = false

/-- What the Zig program has of its own. -/
def dialect : Dialect where
  classify := Port.outcome isWhitespace
  spell := id
  limit := 2 ^ 32
  seeds := fun _ environ => ∀ entry ∈ environ, Byte.equals ∈ entry
  admits := Admits
  rereads := true

/-! ## Files -/

theorem splitLoop_eq (buf : Bytes) : ∀ line : Bytes, Byte.nl ∉ line →
    splitLoop line buf = Lines.lines Byte.nl (line ++ buf) := by
  induction buf with
  | nil =>
      intro line hline
      rw [List.append_nil, splitLoop]
      cases line with
      | nil => rfl
      | cons c line => rw [Lines.lines_of_not_mem Byte.nl hline (List.cons_ne_nil _ _)]; rfl
  | cons c buf ih =>
      intro line hline
      rw [splitLoop]
      by_cases hc : c = Byte.nl
      · subst hc
        rw [if_pos (beq_self_eq_true _), ih [] List.not_mem_nil, List.nil_append,
          Lines.lines_line Byte.nl hline]
      · have hline' : Byte.nl ∉ line ++ [c] := by
          rw [List.mem_append, List.mem_singleton, not_or]
          exact ⟨hline, fun h => hc h.symm⟩
        rw [if_neg (by rwa [beq_iff_eq]), ih _ hline', List.append_assoc]
        rfl

theorem splitLines_eq (buf : Bytes) : splitLines buf = Lines.lines Byte.nl buf :=
  splitLoop_eq buf [] List.not_mem_nil

theorem firstLineBom (cfg : Knobs) : FirstLineBom cfg (bomPass cfg) := ⟨rfl, fun _ _ => rfl⟩

theorem allCrlf : AllCrlf stripCrlf := by
  intro lines
  have hcr : (fun line : Bytes => line.length == 0 || line.getLast? != some Byte.cr) =
      fun line => !(line.getLast? == some Byte.cr) := by
    funext line
    cases line with
    | nil => rfl
    | cons c line => rfl
  rw [stripCrlf, hcr, List.any_eq_not_all_not]
  simp only [Bool.not_not]
  cases hall : lines.all fun l => l.getLast? == some Byte.cr with
  | false => rfl
  | true =>
      refine List.map_congr_left ?_
      intro m hm
      have hcr : m.getLast? = some Byte.cr := beq_iff_eq.mp (List.all_eq_true.mp hall m hm)
      rw [trimCr, if_pos hcr]

theorem readLines_eq (cfg : Knobs) (f : Bytes) : readLines cfg f = physical cfg f := by
  have hnul : (f.idxOf? Byte.nul).isSome = decide (Byte.nul ∈ f) := by
    rw [Bool.eq_iff_iff, decide_eq_true_iff]
    exact memchr_isSome
  rw [readLines, hnul, splitLines_eq]
  exact physical_eq (firstLineBom cfg) allCrlf f

theorem numberLines_eq (n : Nat) {lines : List Bytes} (h : n + lines.length < 2 ^ 32) :
    (numberLines n lines).map numbers = some (Lines.number n lines) := by
  induction lines generalizing n with
  | nil => rfl
  | cons l lines ih =>
      rw [List.length_cons] at h
      have hcast : intCast (n + 1) = some (UInt32.ofNat (n + 1)) := if_pos (by omega)
      rw [numberLines, hcast]
      refine (numbers_cons (l, UInt32.ofNat (n + 1)) _).trans ?_
      rw [ih (n + 1) (by omega), toNat_intCast hcast]
      rfl

theorem logical_numbers {cfg : Knobs} {lines : List Bytes} (hfits : lines.length < 2 ^ 32)
    (hends : cfg.contAccept = true → lines.getLast?.any continues = false) :
    ∃ procLines, (if cfg.contAccept then joinLines lines.length lines 0
        else numberLines 0 lines) = some procLines ∧ numbers procLines = logical cfg lines := by
  refine Option.map_eq_some_iff.mp ?_
  rw [logical]
  cases haccept : cfg.contAccept with
  | true =>
      rw [if_pos rfl, if_pos rfl, joinLines_eq, if_pos hfits,
        closed_of_settled (hends haccept)]
  | false => exact numberLines_eq 0 (by omega)

theorem processArg_port {cfg : Knobs} {file : File} (h : Admits cfg file) :
    processArg cfg file = some (port.processArg cfg file) := by
  rw [processArg, Port.processArg, readFile]
  split
  · rfl
  rw [processOneFile, readLines_eq]
  cases hphysical : physical cfg file.contents with
  | error code => rfl
  | ok lines =>
      obtain ⟨procLines, hproc, hnumbers⟩ := logical_numbers (h.fits lines hphysical)
        fun haccept => h.ends haccept lines hphysical
      have hrun : (Step.run (fun p => processLine cfg file.path p.2.toNat p.1) procLines :
          Step EnvStore (Out UInt32)) =
            Step.run (fun p => port.processLine cfg file.path p.2 p.1) (logical cfg lines) := by
        funext store
        rw [← hnumbers, numbers]
        let body (p : Bytes × Nat) : Step EnvStore (Out UInt32) :=
          port.processLine cfg file.path p.2 p.1
        exact (Step.run_map body (fun p => (p.1, p.2.toNat)) procLines store).symm
      let rest (procLines : List (Bytes × UInt32)) : Option (Step EnvStore (Out UInt32)) :=
        some (Step.run (fun p => processLine cfg file.path p.2.toNat p.1) procLines)
      show (if cfg.contAccept = true then (joinLines lines.length lines 0).bind rest
        else (numberLines 0 lines).bind rest) = some (Step.run _ (logical cfg lines))
      rw [← apply_ite (Option.bind · rest), hproc, Option.bind_some]
      exact congrArg some hrun

/-! ## The store -/

/-- The store has the bindings of the environment, and no key twice. -/
structure Represents (store : EnvStore) (m : Env) : Prop where
  nodup : (store.map Prod.fst).Nodup
  mem : ∀ k v, (k, v) ∈ store ↔ m k = some v

namespace EnvStore

theorem get_eq_some {store : EnvStore} (h : (store.map Prod.fst).Nodup) {k v : Bytes} :
    store.get k = some v ↔ (k, v) ∈ store :=
  Assoc.find_eq_some h fun _ => beq_iff_eq

theorem keys_set (store : EnvStore) (k v : Bytes) :
    (store.set k v).map Prod.fst =
      if k ∈ store.map Prod.fst then store.map Prod.fst else store.map Prod.fst ++ [k] := by
  induction store with
  | nil => rfl
  | cons e store ih =>
      simp only [set, List.map_cons, List.mem_cons]
      by_cases hk : e.1 = k
      · rw [if_pos (beq_iff_eq.mpr hk), if_pos (Or.inl hk.symm)]
        rfl
      · rw [if_neg (by rwa [beq_iff_eq]), List.map_cons, ih]
        simp only [or_iff_right (Ne.symm hk)]
        split <;> rfl

theorem mem_set {store : EnvStore} (h : (store.map Prod.fst).Nodup) (k v : Bytes)
    {b : Bytes × Bytes} : b ∈ store.set k v ↔ b = (k, v) ∨ b.1 ≠ k ∧ b ∈ store := by
  induction store with
  | nil =>
      rw [set, List.mem_singleton]
      exact (or_iff_left fun h => absurd h.2 List.not_mem_nil).symm
  | cons e store ih =>
      rw [List.map_cons, List.nodup_cons] at h
      rw [set]
      by_cases hk : e.1 = k
      · have hother : ∀ b ∈ store, b.1 ≠ k := by
          rintro b hb rfl
          exact h.1 (hk ▸ List.mem_map_of_mem hb)
        rw [if_pos (beq_iff_eq.mpr hk), List.mem_cons, List.mem_cons, hk]
        refine or_congr_right ⟨fun hb => ⟨hother b hb, Or.inr hb⟩, ?_⟩
        rintro ⟨hne, rfl | hb⟩
        · exact absurd hk hne
        · exact hb
      · rw [if_neg (by rwa [beq_iff_eq]), List.mem_cons, List.mem_cons, ih h.2]
        constructor
        · rintro (rfl | hb | ⟨hne, hb⟩)
          · exact Or.inr ⟨hk, Or.inl rfl⟩
          · exact Or.inl hb
          · exact Or.inr ⟨hne, Or.inr hb⟩
        · rintro (hb | ⟨hne, rfl | hb⟩)
          · exact Or.inr (Or.inl hb)
          · exact Or.inl rfl
          · exact Or.inr (Or.inr ⟨hne, hb⟩)

theorem seedFromProcess_eq (env : List (Bytes × Bytes)) (store : EnvStore) :
    store.seedFromProcess env = store ++ env.filter fun b => !envfilePrefix.isPrefixOf b.1 := by
  induction env generalizing store with
  | nil => exact (List.append_nil _).symm
  | cons b env ih =>
      have hcons : store.seedFromProcess (b :: env) =
          (if envfilePrefix.isPrefixOf b.1 then store else store ++ [b]).seedFromProcess env := rfl
      rw [hcons, List.filter_cons]
      cases envfilePrefix.isPrefixOf b.1 with
      | true => exact ih store
      | false =>
          rw [if_neg Bool.false_ne_true, ih, List.append_assoc]
          rfl

theorem map_item (store : EnvStore) : (List.range store.length).map store.item = store := by
  refine List.ext_getElem (by rw [List.length_map, List.length_range]) ?_
  intro i h _
  rw [List.getElem_map, List.getElem_range, item, List.getD_eq_getElem?_getD]
  rw [List.length_map, List.length_range] at h
  rw [List.getElem?_eq_getElem h]
  rfl

end EnvStore

theorem isMap : port.IsMap Represents where
  get := by
    rintro store m ⟨hnodup, hmem⟩
    funext k
    refine Option.ext fun v => ?_
    exact (EnvStore.get_eq_some hnodup).trans (hmem k v)
  set := by
    rintro store m ⟨hnodup, hmem⟩ k v
    refine ⟨?_, ?_⟩
    · show ((EnvStore.set store k v).map Prod.fst).Nodup
      rw [EnvStore.keys_set]
      split
      · exact hnodup
      · rename_i hk
        refine List.nodup_append.mpr ⟨hnodup, List.nodup_singleton k, ?_⟩
        rintro a ha b hb rfl
        exact hk (List.mem_singleton.mp hb ▸ ha)
    · intro k' v'
      refine (EnvStore.mem_set hnodup k v).trans ?_
      by_cases hk : k' = k
      · subst hk
        rw [Function.update_self]
        constructor
        · rintro (h | ⟨hne, -⟩)
          · rw [(Prod.mk.inj h).2]
          · exact absurd rfl hne
        · intro h
          exact Or.inl (Prod.ext rfl (Option.some.inj h).symm)
      · rw [Function.update_of_ne hk, ← hmem k' v']
        constructor
        · rintro (h | ⟨-, h⟩)
          · exact absurd (Prod.mk.inj h).1 hk
          · exact h
        · exact fun h => Or.inr ⟨hk, h⟩

/-- What is printed at the end: the bindings of the store, but for the `ENVFILE_`
keys, in the order of the keys. -/
theorem emitSorted_lists {store : EnvStore} {m : Env} (h : Represents store m) :
    Lists (fun k => if envfilePrefix.isPrefixOf k then none else m k) store.emitSorted := by
  let kept := (List.range store.length).filter fun i => !envfilePrefix.isPrefixOf (store.item i).1
  have hkept : kept.map store.item = store.filter fun b => !envfilePrefix.isPrefixOf b.1 := by
    have hmap := @List.filter_map _ _ store.item (fun b => !envfilePrefix.isPrefixOf b.1)
      (List.range store.length)
    rw [EnvStore.map_item] at hmap
    exact hmap.symm
  have hkeys : (kept.map fun i => (store.item i).1).Nodup := by
    have hsub : (kept.map store.item).Sublist store := hkept ▸ List.filter_sublist
    have hcomp : (kept.map fun i => (store.item i).1) = (kept.map store.item).map Prod.fst :=
      List.map_map.symm
    rw [hcomp]
    exact h.nodup.sublist (hsub.map Prod.fst)
  refine ⟨List.pairwise_map.mpr ?_, ?_⟩
  · exact @pairwise_lt_mergeSort Nat Bytes _ _ _ _ (fun i => (store.item i).1) _
      (fun a b => decide_eq_true_iff) _ hkeys
  · intro k v
    have hperm : store.emitSorted.Perm (kept.map store.item) :=
      (List.mergeSort_perm _ _).map _
    rw [hperm.mem_iff, hkept, List.mem_filter, Bool.not_eq_true', h.mem]
    split
    · exact iff_of_false (fun hk => Bool.false_ne_true (hk.2.symm.trans ‹_›)) (by rintro ⟨⟩)
    · exact and_iff_left (Bool.eq_false_iff.mpr ‹_›)

/-! ## Runs -/

/-- The iterator of `environ_map` yields each variable once. -/
def Iterates (iterator : Environ → List (Bytes × Bytes)) : Prop :=
  ∀ environ, Posix environ → (∀ entry ∈ environ, Byte.equals ∈ entry) →
    (iterator environ).Perm (environ.filterMap splitEquals)

section Run

variable {iterator : Environ → List (Bytes × Bytes)} (hiter : Iterates iterator) {cfg : Knobs}
  {action : Action} (hact : cfg.action = some action) {environ : Environ}
  (hposix : Posix environ) (hequals : ∀ entry ∈ environ, Byte.equals ∈ entry)

include hiter hact hposix hequals

theorem initialStore_start :
    Represents (initialStore cfg (iterator environ)) (start action environ) := by
  rw [initialStore, start, hact]
  simp only [Option.some.injEq]
  split
  · have hperm := (hiter environ hposix hequals).filter fun b => !envfilePrefix.isPrefixOf b.1
    have hnodup : (((environ.filterMap splitEquals).filter fun b =>
        !envfilePrefix.isPrefixOf b.1).map Prod.fst).Nodup :=
      hposix.unique.sublist (List.filter_sublist.map Prod.fst)
    rw [EnvStore.seedFromProcess_eq, List.nil_append]
    refine ⟨(hperm.map Prod.fst).nodup_iff.mpr hnodup, ?_⟩
    intro k v
    rw [hperm.mem_iff, seed, Assoc.assign_eq_some hnodup]
  · exact ⟨List.nodup_nil, fun k v => iff_of_false List.not_mem_nil (by rintro ⟨⟩)⟩

theorem runFiles_eq {files : List File} (h : ∀ file ∈ files, Admits cfg file) :
    ∃ r printed, runFiles cfg (iterator environ) files = some r ∧
      Lists (shown action (ofRun (Port.outcome isWhitespace) action cfg environ files).1) printed ∧
      r.out = Out.respell id
        (toOut UInt32 (ofRun (Port.outcome isWhitespace) action cfg environ files).2) +
          Out.printAll printed ∧
      r.exit = if r.out.errors > 0 then 1 else 0 := by
  have hsteps : files.mapM (processArg cfg) = some (files.map (port.processArg cfg)) := by
    clear hposix hequals
    induction files with
    | nil => rfl
    | cons file files ih =>
        rw [List.mapM_cons, processArg_port (h file List.mem_cons_self),
          ih fun f hf => h f (List.mem_cons_of_mem _ hf)]
        rfl
  have hfile : ∀ file ∈ files, port.processArg cfg file =
      Port.respelled id (port.processArg cfg file : Step EnvStore (Out UInt32)) := by
    intro file _
    funext s
    exact Prod.ext rfl (Out.respell_id _).symm
  obtain ⟨hstate, hout⟩ := Port.run_eq isMap hact (fun file hf => (h file hf).skips) hfile
    (initialStore_start hiter hact hposix hequals)
  rw [runFiles, hsteps]
  refine ⟨_, _, rfl, lists_emitted (emitSorted_lists hstate) action, ?_, rfl⟩
  simp only [Step.run_map, id, hact, Option.some.injEq]
  rw [hout]
  congr 1
  split <;> rfl

end Run

theorem toString_cast {n : Nat} (h : n < 2 ^ 32) : toString (n : UInt32) = toString n := by
  show toString (n : UInt32).toNat = _
  rw [show (n : UInt32).toNat = n from UInt32.toNat_ofNat_of_lt h]

theorem cast_pos {n : Nat} (h : n < 2 ^ 32) : (n : UInt32) > 0 ↔ n ≠ 0 := by
  rw [gt_iff_lt, UInt32.lt_iff_toNat_lt,
    show (n : UInt32).toNat = n from UInt32.toNat_ofNat_of_lt h]
  exact Nat.pos_iff_ne_zero

/-- The Zig program, its variables read. -/
def program (iterator : Environ → List (Bytes × Bytes)) : Program := fun cfg environ files =>
  (runFiles cfg (iterator environ) files).map Observed.ofReport

theorem program_conforms {iterator : Environ → List (Bytes × Bytes)} (hiter : Iterates iterator) :
    Conforms dialect (program iterator) := by
  rintro cfg action environ files hact hposix ⟨hequals, hadmits, -, hcount⟩
  obtain ⟨r, printed, hr, hlists, hout, hexit⟩ :=
    runFiles_eq hiter hact hposix hequals hadmits
  refine ⟨_, congrArg _ hr, shows_of_out hlists hout hcount (fun n hn => toString_cast hn) ?_⟩
  rw [hexit, hout, Out.add_errors, Out.printAll_errors, add_zero]
  exact if_congr (cast_pos hcount.errors) rfl rfl |>.trans (ite_not _ _ _)

/-- The Zig program does not run into its integer checks, and shows what its run
means. -/
theorem zigMain_shows {iterator : Environ → List (Bytes × Bytes)} (hiter : Iterates iterator)
    {environ : Environ} {cfg : Knobs} {action : Action}
    (hread : readKnobs environ = .ok cfg) (hact : cfg.action = some action)
    (henviron : Posix environ) (stdin : File) (args : List File)
    (hcovers : dialect.Covers action cfg environ (arguments stdin args)) :
    ∃ r, main environ iterator stdin args = .ok (some r) ∧
      dialect.Shows action cfg environ (arguments stdin args) (Observed.ofReport r) := by
  obtain ⟨o, ho, hshows⟩ := program_conforms hiter cfg action environ _ hact henviron hcovers
  obtain ⟨r, hr, rfl⟩ := Option.map_eq_some_iff.mp ho
  exact ⟨r, by rw [main, hread]; exact congrArg Except.ok hr, hshows⟩

theorem sampleEnviron_equals : ∀ entry ∈ sampleEnviron, Byte.equals ∈ entry := by decide

theorem sampleFiles_admits : ∀ file ∈ sampleFiles, Admits sampleKnobs file := by
  intro file hfile
  obtain rfl := List.mem_singleton.mp hfile
  refine ⟨by rintro ⟨⟩, ?_, by rintro ⟨⟩⟩
  rintro ls ⟨⟩
  decide +kernel

theorem zigMain_shows_sample :
    ∃ r, main sampleEnviron (·.filterMap splitEquals) sampleStdin sampleFiles = .ok (some r) ∧
      dialect.Shows .apply sampleKnobs sampleEnviron sampleFiles (Observed.ofReport r) :=
  zigMain_shows (fun _ _ _ => List.Perm.refl _) rfl rfl sampleEnviron_posix sampleStdin sampleFiles
    ⟨sampleEnviron_equals, sampleFiles_admits, nofun, by decide +kernel, by decide +kernel⟩

end Envfile.Zig
