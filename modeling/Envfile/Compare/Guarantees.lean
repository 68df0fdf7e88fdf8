/-
# `Envfile.Compare.Guarantees` — what every program does

The classifiers of the eight programs are all sound (`Implementation.sound`), so
the laws of `Envfile.Laws` hold of each of them, on the runs that it is meant
for: `apply` lists the seed with the changes that `delta` prints
(`apply_patches`), a run that is started with what `apply` has printed goes on
where that has ended (`apply_composes`), `delta` exits with 0 exactly when
`validate` does and the references are in scope (`delta_exit_zero_iff`), nothing
is printed that was not read (`nothing_invented`), and what one program has
printed, another one prints again (`listing_reread`).
-/
import Envfile.Compare.Interchange
import Envfile.Laws

namespace Envfile

open Assign Meaning

/-! ## Sound classifiers -/

/-- Assignments whose value is part of what is behind the `=`. -/
def TakesParts (assignment : Bytes → Bytes → Outcome) : Prop :=
  ∀ (k raw k' v : Bytes) (quoting : Quoting),
    assignment k raw = .accepted k' v quoting → k' = k ∧ k ≠ [] ∧ v ⊆ raw

theorem takesParts_native : TakesParts nativeAssignment := by
  intro k raw k' v quoting h
  rw [nativeAssignment] at h
  split at h
  · cases h
  · obtain ⟨rfl, rfl, -⟩ := Outcome.accepted.inj h
    exact ⟨rfl, ‹_›, List.Subset.refl _⟩

theorem takesParts_ofValue {k raw k' v : Bytes} {quoting : Quoting} (hk : k ≠ [])
    (h : Outcome.ofValue k (unquote raw) = .accepted k' v quoting) :
    k' = k ∧ k ≠ [] ∧ v ⊆ raw := by
  cases hu : unquote raw with
  | error code =>
      rw [hu] at h
      cases h
  | ok p =>
      rw [hu] at h
      obtain ⟨rfl, rfl, rfl⟩ := Outcome.accepted.inj h
      refine ⟨rfl, hk, ?_⟩
      rcases unquote_ok hu with ⟨-, rfl, -⟩ | ⟨q, -, -, rfl, -⟩
      · exact List.Subset.refl _
      · exact fun c hc => List.mem_cons_of_mem _ (List.mem_append_left _ hc)

theorem takesParts_shell : TakesParts shellAssignment := by
  intro k raw k' v quoting h
  rw [shellAssignment] at h
  split at h
  · cases h
  split at h
  · cases h
  split at h
  · cases h
  · rename_i hname
    rw [Bool.not_eq_true', Bool.not_eq_false] at hname
    exact takesParts_ofValue (ne_nil_of_isName hname) h

theorem takesParts_port (isWhitespace : UInt8 → Bool) :
    TakesParts (Port.shellAssignment isWhitespace) := by
  intro k raw k' v quoting h
  rw [Port.shellAssignment] at h
  split at h
  · cases h
  split at h
  · cases h
  split at h
  · cases h
  split at h
  · cases h
  split at h
  · cases h
  · exact takesParts_ofValue ‹_› h

section Sound

variable {line k v : Bytes} {quoting : Quoting}

theorem TakesParts.accepted {assignment : Bytes → Bytes → Outcome} (h : TakesParts assignment)
    (hline : assignmentOutcome assignment line = .accepted k v quoting) :
    k ≠ [] ∧ Byte.equals ∉ k ∧ ∃ raw, line = k ++ Byte.equals :: raw ∧ v ⊆ raw := by
  rw [assignmentOutcome] at hline
  rcases line_shape line with ⟨-, hsplit⟩ | ⟨k', raw, rfl, hk, hsplit⟩
  · rw [hsplit] at hline
    cases hline
  · rw [hsplit] at hline
    obtain ⟨rfl, hne, hv⟩ := h _ _ _ _ _ hline
    exact ⟨hne, hk, raw, rfl, hv⟩

theorem isSkipped_of_port {isWhitespace : UInt8 → Bool}
    (hblank : ∀ c, isBlank c = true → isWhitespace c = true)
    (h : Port.isSkipped isWhitespace line = false) : isSkipped line = false := by
  rw [← Port.isSkipped_isBlank]
  rw [Port.isSkipped, Bool.or_eq_false_iff] at h ⊢
  refine ⟨?_, h.2⟩
  rw [Bool.eq_false_iff] at h ⊢
  exact fun hall => h.1 (List.all_eq_true.mpr fun c hc => hblank c (List.all_eq_true.mp hall c hc))

end Sound

theorem sound_reference : Sound reference := by
  intro native line k v quoting h
  rw [reference_eq] at h
  split at h
  · cases h
  · have hparts : TakesParts (assignment native) := by
      cases native
      · exact takesParts_shell
      · exact takesParts_native
    exact ⟨Bool.eq_false_iff.mpr ‹_›, hparts.accepted h⟩

theorem sound_port {isWhitespace : UInt8 → Bool}
    (hblank : ∀ c, isBlank c = true → isWhitespace c = true) :
    Sound (Port.outcome isWhitespace) := by
  intro native line k v quoting h
  rw [Port.outcome] at h
  split at h
  · cases h
  · refine ⟨isSkipped_of_port hblank (Bool.eq_false_iff.mpr ‹_›), ?_⟩
    have hparts : TakesParts fun k raw => Port.shellAssignment isWhitespace k (trimCr raw) := by
      intro k raw k' v quoting h
      obtain ⟨hk, hne, hv⟩ := takesParts_port isWhitespace _ _ _ _ _ h
      exact ⟨hk, hne, fun c hc => trimCr_subset raw (hv hc)⟩
    cases native
    · exact hparts.accepted h
    · exact takesParts_native.accepted h

theorem Perl.sound : Sound outcome := by
  intro native line k v quoting h
  rw [outcome] at h
  split at h
  · cases h
  · refine ⟨isSkipped_of_port (fun c => isWhitespace_of_isBlank) (Bool.eq_false_iff.mpr ‹_›), ?_⟩
    have hparts : TakesParts
        (if native then nativeAssignment else Port.shellAssignment isSpace) := by
      cases native
      · exact takesParts_port _
      · exact takesParts_native
    obtain ⟨hne, hk, raw, hraw, hv⟩ := hparts.accepted h
    refine ⟨hne, hk, ?_⟩
    rcases cr_cases line with ⟨t, rfl⟩ | hcr
    · rw [trimCr_concat_cr] at hraw
      refine ⟨raw ++ [Byte.cr], by rw [hraw, List.append_assoc]; rfl, ?_⟩
      exact fun c hc => List.mem_append_left _ (hv hc)
    · rw [trimCr_of_getLast? hcr] at hraw
      exact ⟨raw, hraw, hv⟩

theorem C.sound : Sound outcome := by
  intro native line k v quoting h
  obtain ⟨hskip, -, raw, hline, hk, hne, hvalue⟩ := outcome_accepted h
  exact ⟨hskip, hne, hk, raw, hline, hvalue.sublist.subset⟩

theorem Implementation.sound (i : Implementation) : Sound i.dialect.classify := by
  cases i with
  | awk => exact sound_reference
  | c => exact C.sound
  | go | js | python | rust => exact sound_port fun _ h => h
  | perl => exact Perl.sound
  | zig => exact sound_port fun _ => isWhitespace_of_isBlank

/-! ## `apply` and `delta` -/

/-- The records of a run, in the order of the files and the lines. -/
def Implementation.records (i : Implementation) (cfg : Knobs) (files : List File) :
    List (Bytes × Bytes × Quoting) :=
  (files.flatMap (items cfg)).filterMap (Item.record i.dialect.classify cfg.native)

section Patches

variable (on : Platform) (i : Implementation) {cfg : Knobs} {environ : Environ}
  (henviron : Posix environ) {files : List File}

include henviron

/-- `apply` lists the seed with the changes that `delta` prints, and reports the
same. -/
theorem apply_patches
    (hdelta : i.dialect.Covers .delta (cfg.withAction .delta) environ files)
    (happly : i.dialect.Covers .apply (cfg.withAction .apply) environ files) :
    ∃ (o o' : Observed) (patch listing : List Binding),
      i.program on (cfg.withAction .delta) environ files = some o ∧
      i.program on (cfg.withAction .apply) environ files = some o' ∧
      o.stdout = Lines.unlines Byte.nl (patch.map entry) ∧
      o'.stdout = Lines.unlines Byte.nl (listing.map entry) ∧
      Lists (fun k => if envfilePrefix.isPrefixOf k then none
        else assign (seed environ) patch k) listing ∧
      o'.stderr = o.stderr ∧ o'.exit = o.exit := by
  obtain ⟨o, ho, hshows⟩ :=
    i.program_conforms on (cfg.withAction .delta) .delta environ files rfl henviron hdelta
  obtain ⟨o', ho', hshows'⟩ :=
    i.program_conforms on (cfg.withAction .apply) .apply environ files rfl henviron happly
  obtain ⟨listing, hlists, hstdout'⟩ := hshows'.stdout_apply
  have hrun : ofRun i.dialect.classify .apply (cfg.withAction .apply) environ files =
      ((ofRun i.dialect.classify .delta (cfg.withAction .delta) environ files).1,
        quiet (ofRun i.dialect.classify .delta (cfg.withAction .delta) environ files).2) := by
    rw [ofRun_items, ofRun_items]
    exact run_apply _ _
  have henv : (ofRun i.dialect.classify .delta (cfg.withAction .delta) environ files).1 =
      assign (seed environ)
        (ofRun i.dialect.classify .delta (cfg.withAction .delta) environ files).2.stdout := by
    rw [ofRun_items]
    exact run_delta_env _ _
  rw [hrun, henv] at hlists
  refine ⟨o, o', _, listing, ho, ho', hshows.stdout_other (by decide), hstdout', hlists, ?_, ?_⟩
  · rw [hshows.stderr_eq, hshows'.stderr_eq, hrun]
    rfl
  · have hexit : o'.exit = 0 ↔ o.exit = 0 := by
      rw [hshows.exit_eq_zero_iff, hshows'.exit_eq_zero_iff, hrun]
      rfl
    obtain ⟨_, -, rfl⟩ := hshows
    obtain ⟨_, -, rfl⟩ := hshows'
    show (if _ then 0 else 1) = if _ then 0 else 1
    rw [hrun]
    rfl

end Patches

theorem apply_patches_sample :
    ∃ (o o' : Observed) (patch listing : List Binding),
      Implementation.go.program samplePlatform (sampleKnobs.withAction .delta) sampleEnviron
        sampleFiles = some o ∧
      Implementation.go.program samplePlatform (sampleKnobs.withAction .apply) sampleEnviron
        sampleFiles = some o' ∧
      o.stdout = Lines.unlines Byte.nl (patch.map entry) ∧
      o'.stdout = Lines.unlines Byte.nl (listing.map entry) ∧
      Lists (fun k => if envfilePrefix.isPrefixOf k then none
        else assign (seed sampleEnviron) patch k) listing ∧
      o'.stderr = o.stderr ∧ o'.exit = o.exit :=
  apply_patches samplePlatform .go sampleEnviron_posix
    ⟨trivial, fun _ _ => trivial, nofun, by decide +kernel, by decide +kernel⟩
    (Implementation.sample_covers .go)

/-! ## Scope -/

section Scope

variable (on : Platform) (i : Implementation) {cfg : Knobs} {environ : Environ}
  (henviron : Posix environ) {files : List File}

include henviron

/-- `delta` exits with 0 exactly when `validate` does, and every reference that is
expanded is to a variable of the seed or to one that an earlier record binds. -/
theorem delta_exit_zero_iff
    (hdelta : i.dialect.Covers .delta (cfg.withAction .delta) environ files)
    (hvalidate : i.dialect.Covers .validate (cfg.withAction .validate) environ files) :
    ∃ o o' : Observed,
      i.program on (cfg.withAction .delta) environ files = some o ∧
      i.program on (cfg.withAction .validate) environ files = some o' ∧
      (o.exit = 0 ↔ o'.exit = 0 ∧
        WellScoped cfg.native (fun name => (seed environ name).isSome = true)
          (i.records cfg files)) := by
  obtain ⟨o, ho, hshows⟩ :=
    i.program_conforms on (cfg.withAction .delta) .delta environ files rfl henviron hdelta
  obtain ⟨o', ho', hshows'⟩ := i.program_conforms on (cfg.withAction .validate) .validate environ
    files rfl henviron hvalidate
  refine ⟨o, o', ho, ho', ?_⟩
  rw [hshows.exit_eq_zero_iff, hshows'.exit_eq_zero_iff, ofRun_items, ofRun_items]
  exact errors_delta_iff _ _ _

end Scope

theorem delta_exit_zero_iff_sample :
    ∃ o o' : Observed,
      Implementation.go.program samplePlatform (sampleKnobs.withAction .delta) sampleEnviron
        sampleFiles = some o ∧
      Implementation.go.program samplePlatform (sampleKnobs.withAction .validate) sampleEnviron
        sampleFiles = some o' ∧
      (o.exit = 0 ↔ o'.exit = 0 ∧
        WellScoped sampleKnobs.native (fun name => (seed sampleEnviron name).isSome = true)
          (Implementation.go.records sampleKnobs sampleFiles)) :=
  delta_exit_zero_iff samplePlatform .go sampleEnviron_posix
    ⟨trivial, fun _ _ => trivial, nofun, by decide +kernel, by decide +kernel⟩
    ⟨trivial, fun _ _ => trivial, nofun, by decide +kernel, by decide +kernel⟩

/-! ## What is printed -/

section Printed

variable (on : Platform) (i : Implementation) {cfg : Knobs} {environ : Environ}
  (henviron : Posix environ) {files : List File}

include henviron

/-- Every byte on stdout is one of a file or of a variable, an `=` or a newline. -/
theorem nothing_invented {action : Action} (hact : cfg.action = some action)
    (hcovers : i.dialect.Covers action cfg environ files) {P : UInt8 → Prop}
    (hvariables : ∀ e ∈ environ, ∀ c ∈ e, P c) (hfiles : ∀ file ∈ files, ∀ c ∈ file.contents, P c) :
    ∃ o, i.program on cfg environ files = some o ∧
      ∀ c ∈ o.stdout, P c ∨ c = Byte.equals ∨ c = Byte.nl := by
  obtain ⟨o, ho, hshows⟩ := i.program_conforms on cfg action environ files hact henviron hcovers
  obtain ⟨l, hstdout, hl⟩ := hshows.listable i.sound (fun _ _ => trivial)
    (fun _ _ => trivial) (fun _ _ => trivial) hvariables
    (fun file hfile p hp c hc => hfiles file hfile c (mem_handed hp hc).1)
  refine ⟨o, ho, fun c hc => ?_⟩
  by_cases hnl : c = Byte.nl
  · exact Or.inr (Or.inr hnl)
  · rw [hstdout] at hc
    obtain ⟨line, hline, hc⟩ := Lines.mem_of_mem_unlines Byte.nl hnl hc
    obtain ⟨b, hb, rfl⟩ := List.mem_map.mp hline
    exact ((hl b hb).mem_entry hc).imp_right Or.inl

end Printed

theorem nothing_invented_sample :
    ∃ o, Implementation.c.program samplePlatform sampleKnobs sampleEnviron sampleFiles = some o ∧
      ∀ c ∈ o.stdout, c ≠ Byte.nul ∨ c = Byte.equals ∨ c = Byte.nl :=
  nothing_invented samplePlatform .c sampleEnviron_posix rfl (Implementation.sample_covers .c)
    (by decide +kernel) (by decide +kernel)

/-! ## Listings -/

theorem Implementation.classify_entry (j : Implementation) {b : Binding}
    (h : Listable IsKey (fun c => isControl c = false) b) :
    IsText (entry b) ∧ j.dialect.classify true (entry b) = .accepted b.1 b.2 .plain := by
  have htext : IsText (entry b) := by
    intro c hc
    rcases h.mem_entry hc with hbyte | rfl
    · exact hbyte
    · rfl
  refine ⟨htext, (j.classify_eq htext fun hambiguous => ?_).trans ?_⟩
  · cases hambiguous.1
  · exact referenceNative_accepted.mpr ⟨h.key.nonempty, h.key.hash, h.key.equals, rfl, rfl⟩

/-- What a program prints for some text, another one reads in native format as it
is: it prints it again, and has nothing to report. -/
theorem listing_reread (on : Platform) (i j : Implementation) {cfg : Knobs} {action : Action}
    (hact : cfg.action = some action) (hnormalize : action ≠ .normalize)
    {environ : Environ} (henviron : Posix environ)
    (hvariables : ∀ e ∈ environ, e.head? ≠ some Byte.hash ∧ IsText e)
    {files : List File} (hfiles : ∀ file ∈ files, ∀ p ∈ handed cfg file, IsText p.1)
    (hcovers : i.dialect.Covers action cfg environ files) :
    ∃ o, i.program on cfg environ files = some o ∧
      ∀ (environ' : Environ) (path : Bytes), Posix environ' →
        j.dialect.Covers .dump (listingKnobs .dump) environ' [File.readable path o.stdout] →
        ∃ o', j.program on (listingKnobs .dump) environ' [File.readable path o.stdout] = some o' ∧
          o'.stdout = o.stdout ∧ o'.exit = 0 ∧
          o'.stderr = ascii (toString (Lines.lines Byte.nl o.stdout).length ++
            " checked, 0 errors") ++ [Byte.nl] := by
  obtain ⟨o, ho, hshows⟩ := i.program_conforms on cfg action environ files hact henviron hcovers
  obtain ⟨l, hstdout, hl⟩ := hshows.listable i.sound (fun h => absurd h hnormalize)
    (fun _ h => h) (henviron.isKey fun e he => (hvariables e he).1)
    (fun e he => (hvariables e he).2) hfiles
  refine ⟨o, ho, fun environ' path henviron' hcovers' => ?_⟩
  obtain ⟨o', ho', hshows'⟩ :=
    j.program_conforms on (listingKnobs .dump) .dump environ' _ rfl henviron' hcovers'
  rw [hstdout] at hshows' ho' ⊢
  have hentry : ∀ b ∈ l, Byte.nl ∉ entry b ∧ Byte.nul ∉ entry b := by
    intro b hb
    have htext := (j.classify_entry (hl b hb)).1
    exact ⟨htext.not_mem rfl, htext.not_mem rfl⟩
  have hrun : ofRun j.dialect.classify .dump (listingKnobs .dump) environ'
        [File.readable path (Lines.unlines Byte.nl (l.map entry))] =
      Step.run (fun p : Bytes × Nat => line true .dump (j.dialect.classify true) path p.2 p.1)
        (Lines.number 0 (l.map entry)) (start .dump environ') := by
    rw [ofRun, Step.run_singleton, ofFile, handed_listing hentry path]
    rfl
  obtain ⟨hout, hdiags, hchecked, herrors⟩ :=
    run_listing (fun b hb => (j.classify_entry (hl b hb)).2) path 0 (start .dump environ')
  rw [← hrun] at hout hdiags hchecked herrors
  have hlines : (Lines.lines Byte.nl (Lines.unlines Byte.nl (l.map entry))).length = l.length := by
    rw [lines_listing fun b hb => (hentry b hb).1, List.length_map]
  refine ⟨o', ho', ?_, ?_, ?_⟩
  · rw [hshows'.stdout_other (by decide), hout]
  · rw [hshows'.exit_eq_zero_iff, herrors]
  · rw [hshows'.stderr_clean hdiags herrors, hchecked, hlines]

theorem listing_reread_sample :
    ∃ o, Implementation.zig.program samplePlatform sampleKnobs sampleEnviron sampleFiles = some o ∧
      ∀ (environ' : Environ) (path : Bytes), Posix environ' →
        Implementation.perl.dialect.Covers .dump (listingKnobs .dump) environ'
          [File.readable path o.stdout] →
        ∃ o', Implementation.perl.program samplePlatform (listingKnobs .dump) environ'
            [File.readable path o.stdout] = some o' ∧
          o'.stdout = o.stdout ∧ o'.exit = 0 ∧
          o'.stderr = ascii (toString (Lines.lines Byte.nl o.stdout).length ++
            " checked, 0 errors") ++ [Byte.nl] :=
  listing_reread samplePlatform .zig .perl rfl (by decide) sampleEnviron_posix
    (by decide) (by decide +kernel) (Implementation.sample_covers .zig)

/-! ## Runs one after the other -/

/-- A process that is started with each line that `apply` has printed as a
variable goes on where that run has ended: the two come to one run over all
files, if no record of the first files binds a variable that a run is set with. -/
theorem apply_composes (on : Platform) (i : Implementation) {cfg : Knobs}
    (hact : cfg.action = some .apply) {environ : Environ} (henviron : Posix environ)
    (hlines : ∀ e ∈ environ, Byte.nl ∉ e) {settings : Environ} (hsettings : IsSettings settings)
    (hposix : Posix settings) {xs ys : List File}
    (hnul : cfg.nulReject = true ∨ ∀ file ∈ xs, Byte.nul ∉ file.contents)
    (hnames : ∀ r ∈ i.records cfg xs, envfilePrefix.isPrefixOf r.1 = false)
    (hcovers : i.dialect.Covers .apply cfg environ (xs ++ ys)) :
    ∃ o first, i.program on cfg environ (xs ++ ys) = some o ∧
      i.program on cfg environ xs = some first ∧
      (i.dialect.seeds cfg (settings ++ Lines.lines Byte.nl first.stdout) →
        ∃ second, i.program on cfg (settings ++ Lines.lines Byte.nl first.stdout) ys = some second ∧
          second.stdout = o.stdout ∧ (o.exit = 0 ↔ first.exit = 0 ∧ second.exit = 0)) := by
  obtain ⟨hcovers₁, hcovers₂⟩ := hcovers.append
  obtain ⟨o, ho, hshows⟩ := i.program_conforms on cfg .apply environ _ hact henviron hcovers
  obtain ⟨first, hfirst, hshows₁⟩ :=
    i.program_conforms on cfg .apply environ _ hact henviron hcovers₁
  refine ⟨o, first, ho, hfirst, fun hseeds => ?_⟩
  -- what the first run prints is what the second starts with
  obtain ⟨printed, hlists, hread, hprinted⟩ :=
    hshows₁.stdout_entries i.sound henviron hlines hnul
  rw [hread] at hseeds ⊢
  have hstart := start_listing (unprefixed_ofRun environ hnames) hlists
    (fun b hb => (hprinted b hb).2.2) hsettings
  obtain ⟨second, hsecond, hshows₂⟩ := i.program_conforms on cfg .apply _ _ hact
    (posix_listing hlists hprinted hsettings hposix) (hcovers₂ _ hseeds hstart)
  have htogether := ofRun_restarted hstart ys
  refine ⟨second, hsecond, ?_, ?_⟩
  · obtain ⟨listing, hlisting, hout⟩ := hshows.stdout_apply
    obtain ⟨listing', hlisting', hout'⟩ := hshows₂.stdout_apply
    rw [htogether] at hlisting
    rw [hout, hout', hlisting.unique hlisting']
  · rw [hshows.exit_eq_zero_iff, hshows₁.exit_eq_zero_iff, hshows₂.exit_eq_zero_iff, htogether,
      Out.add_errors, Nat.add_eq_zero_iff]

theorem apply_composes_sample :
    let xs := sampleFiles
    let ys := [File.readable (ascii "g") (ascii "D=${B}0\n")]
    let settings := [ascii "ENVFILE_ACTION=apply"]
    ∃ o first, Implementation.go.program samplePlatform sampleKnobs sampleEnviron (xs ++ ys) =
        some o ∧
      Implementation.go.program samplePlatform sampleKnobs sampleEnviron xs = some first ∧
      (True →
        ∃ second, Implementation.go.program samplePlatform sampleKnobs
            (settings ++ Lines.lines Byte.nl first.stdout) ys = some second ∧
          second.stdout = o.stdout ∧ (o.exit = 0 ↔ first.exit = 0 ∧ second.exit = 0)) :=
  apply_composes samplePlatform .go rfl sampleEnviron_posix (by decide) (by decide)
    ⟨by decide, by decide, by decide⟩ (Or.inl rfl) (by decide +kernel)
    ⟨trivial, fun _ _ => trivial, nofun, by decide +kernel, by decide +kernel⟩

end Envfile
