/-
# `Envfile.Awk.Canonical` — normalizing what has been normalized

`normalize` prints the assignments among the logical lines that the passes
leave (`kept`).  Printed, they are a file of their own, and its lines are not
joined any further: no logical line but the last goes on.  So normalizing again
prints the same, unless a pass finds something to do that it could not see in
the first file: a BOM that the lines in front of it have hidden, or a CR at the
end of every line once the lines without one are gone.

`normalize_again_iff` says that these two are all.
-/
import Envfile.Awk.Conservation

namespace Envfile.Awk

variable {knobs : Knobs}

/-! ## What is printed -/

section Printed

theorem validate_printed (hact : knobs.action = some .normalize) (path : Bytes) (lineno : Nat)
    (line : Bytes) (env : EnvArray) :
    (validate knobs path lineno line env).2.bytes =
        (if isAssignment line then line ++ [Byte.nl] else []) ∧
      (isAssignment line = true → (validate knobs path lineno line env).2.errors = 0) := by
  rw [validate_normalize knobs path lineno line hact, isAssignment]
  cases isSkipped line with
  | true => exact ⟨rfl, by rintro ⟨⟩⟩
  | false =>
      rcases line_shape line with ⟨hno, hsplit⟩ | ⟨k, v, rfl, -, hsplit⟩
      · rw [hsplit, decide_eq_false hno]
        exact ⟨rfl, by rintro ⟨⟩⟩
      · have hmem : Byte.equals ∈ k ++ Byte.equals :: v :=
          List.mem_append_right _ List.mem_cons_self
        rw [hsplit, decide_eq_true hmem]
        exact ⟨List.append_nil (Binding.text (k, v)), fun _ => rfl⟩

theorem run_printed (hact : knobs.action = some .normalize) (path : Bytes)
    (lines : List (Bytes × Nat)) (env : EnvArray) :
    (Step.run (fun p => validate knobs path p.2 p.1) lines env).2.bytes =
      Lines.unlines Byte.nl ((lines.map Prod.fst).filter isAssignment) := by
  induction lines generalizing env with
  | nil => rfl
  | cons p lines ih =>
      obtain ⟨hbytes, -⟩ := validate_printed hact path p.2 p.1 env
      rw [Step.run_cons, Out.bytes_add, ih, hbytes, List.map_cons]
      cases hp : isAssignment p.1 with
      | true =>
          rw [List.filter_cons_of_pos hp, Lines.unlines_cons, if_pos rfl, List.append_assoc]
          rfl
      | false =>
          rw [List.filter_cons_of_neg (by rw [hp]; exact Bool.false_ne_true),
            if_neg Bool.false_ne_true, List.nil_append]

theorem run_errors (hact : knobs.action = some .normalize) (path : Bytes)
    {lines : List (Bytes × Nat)} (h : ∀ p ∈ lines, isAssignment p.1 = true) (env : EnvArray) :
    (Step.run (fun p => validate knobs path p.2 p.1) lines env).2.errors = 0 := by
  refine Step.run_out (fun _ => True) (fun o => Out.errors o = 0) rfl ?_ ?_ trivial
  · intro v w hv hw
    rw [Out.add_errors, hv, hw]
  · intro p hp env _
    exact ⟨trivial, (validate_printed hact path p.2 p.1 env).2 (h p hp)⟩

variable (knobs) in
/-- The assignments that the passes leave of a file. -/
def kept (file : File) : List Bytes :=
  ((validated knobs file).map Prod.fst).filter isAssignment

theorem normalize_printed (hact : knobs.action = some .normalize) (file : File) (env : EnvArray) :
    (normalize knobs file env).2.bytes = Lines.unlines Byte.nl (kept knobs file) := by
  cases hread : readLines knobs file with
  | error code =>
      rw [normalize, kept, validated, hread]
      rfl
  | ok ls =>
      obtain ⟨path, f, rfl⟩ : ∃ path f, file = .readable path f :=
        ⟨_, _, readable_of_readLines hread⟩
      rw [normalize_eq path f hread, run_printed hact, kept, validated, hread]

end Printed

/-! ## The passes -/

section Passes

variable {ls : List Bytes}

variable (knobs) in
/-- The BOM pass finds a BOM at the front. -/
def MarkedFirst (ls : List Bytes) : Prop :=
  knobs.bom ≠ .literal ∧ ∃ l, ls.head? = some l ∧ bomBytes.isPrefixOf l = true

variable (knobs) in
/-- The CRLF pass finds a CR at the end of every line. -/
def EveryCr (ls : List Bytes) : Prop :=
  knobs.crlfStrip = true ∧ ls ≠ [] ∧ ∀ l ∈ ls, l.getLast? = some Byte.cr

theorem bomPass_settled (h : ¬ MarkedFirst knobs ls) : bomPass knobs ls = .ok ls := by
  cases ls with
  | nil => rfl
  | cons first others =>
      rw [bomPass]
      split
      · rename_i hindex
        have hmark := (index_eq_one _ _).mp hindex
        cases hmode : knobs.bom with
        | literal => rfl
        | strip => exact absurd ⟨by rw [hmode]; rintro ⟨⟩, first, rfl, hmark⟩ h
        | reject => exact absurd ⟨by rw [hmode]; rintro ⟨⟩, first, rfl, hmark⟩ h
      · rfl

theorem bomPass_marked (h : MarkedFirst knobs ls) :
    bomPass knobs ls = .error .fileBom ∨
      ∃ first others, ls = first :: others ∧ 3 ≤ first.length ∧
        bomPass knobs ls = .ok (first.drop 3 :: others) := by
  obtain ⟨hmode, first, hfirst, hmark⟩ := h
  cases ls with
  | nil => cases hfirst
  | cons l others =>
      obtain rfl := Option.some.inj hfirst
      rw [bomPass, if_pos ((index_eq_one _ _).mpr hmark)]
      cases hbom : knobs.bom with
      | literal => exact absurd hbom hmode
      | reject => exact Or.inl rfl
      | strip =>
          exact Or.inr ⟨l, others, rfl, (List.isPrefixOf_iff_prefix.mp hmark).length_le, rfl⟩

variable (knobs) in
/-- The CRLF pass. -/
def crlfPass (ls : List Bytes) : List Bytes := if knobs.crlfStrip then stripCrlf ls else ls

theorem crlfPass_settled (h : ¬ EveryCr knobs ls) : crlfPass knobs ls = ls := by
  rw [crlfPass]
  split
  · rename_i hstrip
    rw [stripCrlf_eq]
    split
    · rename_i hall
      rcases eq_or_ne ls [] with rfl | hne
      · rfl
      · refine absurd ⟨hstrip, hne, ?_⟩ h
        intro l hl
        exact beq_iff_eq.mp (List.all_eq_true.mp hall l hl)
    · rfl
  · rfl

theorem crlfPass_everyCr (h : EveryCr knobs ls) : crlfPass knobs ls = ls.map List.dropLast := by
  obtain ⟨hstrip, -, hall⟩ := h
  have htrim : ls.map trimCr = ls.map List.dropLast := by
    refine List.map_congr_left ?_
    intro l hl
    rw [trimCr, if_pos (hall l hl)]
  rw [crlfPass, if_pos hstrip, stripCrlf_eq, if_pos, htrim]
  rw [List.all_eq_true]
  intro l hl
  exact beq_iff_eq.mpr (hall l hl)

theorem length_crlfPass_le (ls : List Bytes) :
    (Lines.unlines Byte.nl (crlfPass knobs ls)).length ≤ (Lines.unlines Byte.nl ls).length := by
  by_cases h : EveryCr knobs ls
  · rw [crlfPass_everyCr h]
    exact Lines.length_unlines_map_le Byte.nl fun l _ => (List.dropLast_sublist l).length_le
  · rw [crlfPass_settled h]

theorem length_crlfPass_lt (h : EveryCr knobs ls) :
    (Lines.unlines Byte.nl (crlfPass knobs ls)).length < (Lines.unlines Byte.nl ls).length := by
  rw [crlfPass_everyCr h]
  obtain ⟨-, hne, hall⟩ := h
  cases ls with
  | nil => exact absurd rfl hne
  | cons l ls =>
      have hl : l ≠ [] := by
        rintro rfl
        cases hall [] List.mem_cons_self
      have hpos := List.length_pos_of_ne_nil hl
      have hrest := @Lines.length_unlines_map_le UInt8 Byte.nl List.dropLast ls
        fun l _ => (List.dropLast_sublist l).length_le
      rw [List.map_cons, Lines.unlines_cons, Lines.unlines_cons, List.length_append,
        List.length_append, List.length_cons, List.length_cons, List.length_dropLast]
      omega

/-- Passes that find something reject the lines or make them shorter. -/
theorem passes_shorter (h : MarkedFirst knobs ls ∨ EveryCr knobs ls) :
    (∃ code, bomPass knobs ls = .error code) ∨
      ∃ rest, bomPass knobs ls = .ok rest ∧
        (Lines.unlines Byte.nl (crlfPass knobs rest)).length <
          (Lines.unlines Byte.nl ls).length := by
  by_cases hbom : MarkedFirst knobs ls
  · rcases bomPass_marked hbom with herror | ⟨first, others, rfl, hlen, hpass⟩
    · exact Or.inl ⟨_, herror⟩
    · refine Or.inr ⟨_, hpass, lt_of_le_of_lt (length_crlfPass_le _) ?_⟩
      rw [Lines.unlines_cons, Lines.unlines_cons, List.length_append, List.length_append,
        List.length_cons, List.length_drop]
      omega
  · exact Or.inr ⟨ls, bomPass_settled hbom, length_crlfPass_lt (h.resolve_left hbom)⟩

theorem sublist_of_readLines {path f : Bytes}
    (h : readLines knobs (.readable path f) = .ok ls) {l : Bytes} (hl : l ∈ ls) :
    ∃ m ∈ Lines.lines Byte.nl f, l.Sublist m := by
  have hbom : ∀ {rest : List Bytes}, bomPass knobs (Lines.lines Byte.nl f) = .ok rest →
      ∀ r ∈ rest, ∃ m ∈ Lines.lines Byte.nl f, r.Sublist m := by
    intro rest hrest r hr
    by_cases hmark : MarkedFirst knobs (Lines.lines Byte.nl f)
    · rcases bomPass_marked hmark with herror | ⟨first, others, hlines, -, hpass⟩
      · rw [herror] at hrest
        cases hrest
      · obtain rfl := Except.ok.inj (hpass.symm.trans hrest)
        rw [hlines]
        rcases List.mem_cons.mp hr with rfl | hr
        · exact ⟨first, List.mem_cons_self, List.drop_sublist 3 first⟩
        · exact ⟨r, List.mem_cons_of_mem _ hr, List.Sublist.refl r⟩
    · obtain rfl := Except.ok.inj ((bomPass_settled hmark).symm.trans hrest)
      exact ⟨r, hr, List.Sublist.refl r⟩
  rw [readLines_eq] at h
  split at h
  · cases h
  cases hpass : bomPass knobs (Lines.lines Byte.nl f) with
  | error code =>
      rw [hpass] at h
      cases h
  | ok rest =>
      rw [hpass] at h
      obtain rfl : crlfPass knobs rest = ls := Except.ok.inj h
      by_cases hcr : EveryCr knobs rest
      · rw [crlfPass_everyCr hcr] at hl
        obtain ⟨r, hr, rfl⟩ := List.mem_map.mp hl
        obtain ⟨m, hm, hsub⟩ := hbom hpass r hr
        exact ⟨m, hm, (List.dropLast_sublist r).trans hsub⟩
      · rw [crlfPass_settled hcr] at hl
        exact hbom hpass l hl

/-- The lines that are handed on are made of bytes of the file other than
newlines. -/
theorem mem_logical {path f : Bytes} (h : readLines knobs (.readable path f) = .ok ls)
    {q : Bytes × Nat} (hq : q ∈ Meaning.logical knobs ls) {c : UInt8} (hc : c ∈ q.1) :
    c ≠ Byte.nl ∧ c ∈ f := by
  have hline : ∃ l ∈ ls, c ∈ l := by
    rw [Meaning.logical] at hq
    split at hq
    · exact (mem_joinFrom hq hc).resolve_left List.not_mem_nil
    · exact ⟨q.1, Lines.mem_number hq, hc⟩
  obtain ⟨l, hl, hc⟩ := hline
  obtain ⟨m, hm, hsub⟩ := sublist_of_readLines h hl
  have hc := hsub.subset hc
  refine ⟨?_, Lines.mem_of_mem_lines Byte.nl hm hc⟩
  rintro rfl
  exact Lines.sep_not_mem_lines Byte.nl hm hc

theorem length_logical_le (ls : List Bytes) :
    (Lines.unlines Byte.nl ((Meaning.logical knobs ls).map Prod.fst)).length ≤
      (Lines.unlines Byte.nl ls).length := by
  rw [Meaning.logical]
  split
  · have hjoin := length_joinFrom [] 0 ls
    rwa [List.length_nil, Nat.zero_add] at hjoin
  · rw [Lines.number_fst]

theorem length_printed_le (ls : List Bytes) :
    (Lines.unlines Byte.nl (((Meaning.logical knobs ls).map Prod.fst).filter isAssignment)).length ≤
      (Lines.unlines Byte.nl ls).length :=
  le_trans (Lines.length_unlines_sublist Byte.nl List.filter_sublist) (length_logical_le ls)

end Passes

/-! ## Again -/

section Again

variable {path f : Bytes} {ls : List Bytes}

theorem mem_of_mem_dropLast_filter {keep : Bytes → Bool} {l : Bytes}
    (h : l ∈ (ls.filter keep).dropLast) : l ∈ ls.dropLast := by
  rcases List.eq_nil_or_concat ls with rfl | ⟨init, last, rfl⟩
  · exact absurd h List.not_mem_nil
  · rw [List.concat_eq_append] at h ⊢
    rw [List.dropLast_concat]
    rw [List.filter_append] at h
    cases hlast : keep last with
    | true =>
        rw [List.filter_cons_of_pos hlast, List.filter_nil, List.dropLast_concat] at h
        exact (List.mem_filter.mp h).1
    | false =>
        rw [List.filter_cons_of_neg (by rw [hlast]; exact Bool.false_ne_true), List.filter_nil,
          List.append_nil] at h
        exact (List.mem_filter.mp (List.dropLast_subset _ h)).1

/-- Lines that have been handed on are handed on as they are. -/
theorem logical_again (ls : List Bytes) :
    let again := ((Meaning.logical knobs ls).map Prod.fst).filter isAssignment
    (Meaning.logical knobs again).map Prod.fst = again := by
  intro again
  cases hcont : knobs.contAccept with
  | false => rw [Meaning.logical, hcont, if_neg Bool.false_ne_true, Lines.number_fst]
  | true =>
      have hsettled : ∀ l ∈ again.dropLast, continues l = false := by
        intro l hl
        have hl := mem_of_mem_dropLast_filter hl
        rw [Meaning.logical, hcont, if_pos rfl, ← List.map_dropLast] at hl
        obtain ⟨q, hq, rfl⟩ := List.mem_map.mp hl
        exact not_continues_of_mem_dropLast hq
      rw [Meaning.logical, hcont, if_pos rfl, joinFrom_settled hsettled, Lines.number_fst]

theorem kept_eq (h : readLines knobs (.readable path f) = .ok ls) :
    kept knobs (.readable path f) = ((Meaning.logical knobs ls).map Prod.fst).filter isAssignment := by
  rw [kept, validated, h]

/-- What is printed is a file whose lines are the assignments, and which the
NUL pass lets through. -/
theorem readLines_again (h : readLines knobs (.readable path f) = .ok ls) (path' : Bytes) :
    let again := kept knobs (.readable path f)
    readLines knobs (.readable path' (Lines.unlines Byte.nl again)) =
      (bomPass knobs again).map (crlfPass knobs) := by
  intro again
  have hbytes : ∀ l ∈ again, ∀ c ∈ l, c ≠ Byte.nl ∧ c ∈ f := by
    intro l hl c hc
    rw [show again = _ from kept_eq h] at hl
    obtain ⟨q, hq, rfl⟩ := List.mem_map.mp (List.mem_filter.mp hl).1
    exact mem_logical h hq hc
  have hlines : Lines.lines Byte.nl (Lines.unlines Byte.nl again) = again := by
    refine Lines.lines_unlines Byte.nl ?_
    intro l hl hmem
    exact (hbytes l hl _ hmem).1 rfl
  have hnul : ¬ (knobs.nulReject = true ∧ Byte.nul ∈ Lines.unlines Byte.nl again) := by
    rintro ⟨hreject, hmem⟩
    obtain ⟨l, hl, hmem⟩ := Lines.mem_of_mem_unlines Byte.nl (by decide) hmem
    rw [readLines_eq, if_pos ⟨hreject, (hbytes l hl _ hmem).2⟩] at h
    cases h
  rw [readLines_eq, if_neg hnul, hlines]
  rfl

theorem normalize_found (hact : knobs.action = some .normalize)
    (hread : readLines knobs (.readable path f) = (bomPass knobs ls).map (crlfPass knobs))
    (h : MarkedFirst knobs ls ∨ EveryCr knobs ls) (env : EnvArray) :
    let o := (normalize knobs (.readable path f) env).2
    ¬ (o.bytes = Lines.unlines Byte.nl ls ∧ o.errors = 0) := by
  rintro o ⟨hbytes, herrors⟩
  rcases passes_shorter h with ⟨code, herror⟩ | ⟨rest, hpass, hlt⟩
  · rw [herror] at hread
    have ho : o = Out.diag ⟨code, none, path, none⟩ := by
      show (normalize knobs (.readable path f) env).2 = _
      rw [normalize, hread]
      rfl
    rw [ho] at herrors
    cases herrors
  · rw [hpass] at hread
    have hprinted := run_printed hact path (Meaning.logical knobs (crlfPass knobs rest)) env
    rw [← normalize_eq path f hread] at hprinted
    have hlen := @length_printed_le knobs (crlfPass knobs rest)
    rw [← hprinted, hbytes] at hlen
    exact absurd hlt (Nat.not_lt.mpr hlen)

theorem normalize_settled (hact : knobs.action = some .normalize)
    (hread : readLines knobs (.readable path f) = (bomPass knobs ls).map (crlfPass knobs))
    (hassign : ∀ l ∈ ls, isAssignment l = true)
    (hlines : (Meaning.logical knobs ls).map Prod.fst = ls) (hbom : ¬ MarkedFirst knobs ls)
    (hcr : ¬ EveryCr knobs ls) (env : EnvArray) :
    let o := (normalize knobs (.readable path f) env).2
    o.bytes = Lines.unlines Byte.nl ls ∧ o.errors = 0 := by
  intro o
  have hpass : (bomPass knobs ls).map (crlfPass knobs) = .ok ls := by
    rw [bomPass_settled hbom]
    exact congrArg Except.ok (crlfPass_settled hcr)
  have ho : o = (Step.run (fun p => validate knobs path p.2 p.1) (Meaning.logical knobs ls) env).2 := by
    show (normalize knobs (.readable path f) env).2 = _
    rw [normalize_eq path f (hread.trans hpass)]
  rw [ho, run_printed hact, hlines, List.filter_eq_self.mpr hassign]
  refine ⟨rfl, run_errors hact path ?_ env⟩
  intro q hq
  refine hassign q.1 ?_
  rw [← hlines]
  exact List.mem_map_of_mem hq

/-- Normalizing again prints the same, without an error, unless the BOM pass
finds a BOM at the front of what was printed, or the CRLF pass a CR at the end
of every line of it. -/
theorem normalize_again_iff (hact : knobs.action = some .normalize) (file : File) (path : Bytes)
    (env env' : EnvArray)
    (haccepted : ∀ d ∈ (normalize knobs file env).2.diags, d.code.isFileError = false) :
    let first := (normalize knobs file env).2
    let second := (normalize knobs (.readable path first.bytes) env').2
    second.bytes = first.bytes ∧ second.errors = 0 ↔
      ¬ MarkedFirst knobs (kept knobs file) ∧ ¬ EveryCr knobs (kept knobs file) := by
  intro first second
  cases hread : readLines knobs file with
  | error code =>
      have hdiag : (normalize knobs file env).2.diags = [⟨code, none, file.path, none⟩] := by
        rw [normalize, hread]
        rfl
      have hcode := haccepted ⟨code, none, file.path, none⟩ (by
        rw [hdiag]
        exact List.mem_cons_self)
      rw [show code.isFileError = true from readLines_code hread] at hcode
      cases hcode
  | ok ls =>
      obtain ⟨p, f, rfl⟩ : ∃ p f, file = .readable p f := ⟨_, _, readable_of_readLines hread⟩
      let again := kept knobs (.readable p f)
      have hfirst : first.bytes = Lines.unlines Byte.nl again := normalize_printed hact _ env
      have hsecond : second =
          (normalize knobs (.readable path (Lines.unlines Byte.nl again)) env').2 := by
        rw [← hfirst]
      have hread' : readLines knobs (.readable path (Lines.unlines Byte.nl again)) =
          (bomPass knobs again).map (crlfPass knobs) := readLines_again hread path
      have hassign : ∀ l ∈ again, isAssignment l = true := fun l hl => (List.mem_filter.mp hl).2
      have hlines : (Meaning.logical knobs again).map Prod.fst = again := by
        show (Meaning.logical knobs (kept knobs _)).map Prod.fst = kept knobs _
        rw [kept_eq hread]
        exact logical_again ls
      rw [hfirst, hsecond]
      constructor
      · intro hsame
        by_contra hnot
        rw [not_and_or, not_not, not_not] at hnot
        exact normalize_found hact hread' hnot env' hsame
      · rintro ⟨hbom, hcr⟩
        exact normalize_settled hact hread' hassign hlines hbom hcr env'

/-- `normalize` in shell format, with the given passes. -/
def normalizing (bom : BomMode) (crlfStrip : Bool) : Knobs where
  native := false
  action := some .normalize
  bom := bom
  crlfStrip := crlfStrip
  nulReject := true
  contAccept := true
  native_bom := nofun

/-- A comment, a continued line and a line without `=`. -/
def mixedFile : File := .readable [] (ascii "#c\nA=1\\\n2\nB\n")

theorem normalize_again_iff_mixedFile :
    let first := (normalize (normalizing .strip true) mixedFile ∅).2
    let second := (normalize (normalizing .strip true) (.readable [] first.bytes) ∅).2
    second.bytes = first.bytes ∧ second.errors = 0 ↔
      ¬ MarkedFirst (normalizing .strip true) (kept (normalizing .strip true) mixedFile) ∧
        ¬ EveryCr (normalizing .strip true) (kept (normalizing .strip true) mixedFile) :=
  normalize_again_iff rfl mixedFile [] ∅ ∅ (by decide +kernel)

/-- What `normalize` writes about the bytes `f`. -/
def normalized (knobs : Knobs) (f : Bytes) : Out Nat := (normalize knobs (.readable [] f) ∅).2

/-- A BOM behind the one that is stripped, a BOM that a comment hides from the
pass that rejects it, and CRs that a comment hides. -/
theorem normalize_again_differs :
    let twice := bomBytes ++ bomBytes ++ ascii "A=1\n"
    let hidden := ascii "#c\n" ++ bomBytes ++ ascii "A=1\n"
    let crs := ascii "#c\nA=1\r\n"
    let first := normalized (normalizing .strip false) twice
    let first' := normalized (normalizing .reject false) hidden
    let first'' := normalized (normalizing .strip true) crs
    (first.errors = 0 ∧ first.bytes = bomBytes ++ ascii "A=1\n" ∧
      (normalized (normalizing .strip false) first.bytes).bytes = ascii "A=1\n") ∧
    (first'.errors = 0 ∧ first'.bytes = bomBytes ++ ascii "A=1\n" ∧
      (normalized (normalizing .reject false) first'.bytes).codes = [.fileBom]) ∧
    (first''.errors = 0 ∧ first''.bytes = ascii "A=1\r\n" ∧
      (normalized (normalizing .strip true) first''.bytes).bytes = ascii "A=1\n") := by
  decide +kernel

end Again

end Envfile.Awk
