/-
# `Envfile.C.Files` — what `process_file` does with a file

A file that passes the NUL and BOM passes is a list of numbered lines
(`handedLines`), stripped of their CRs and joined as the configuration asks,
and the rest of `process_file` is one step for each of them (`body`).  This
holds of every file whose lines fit the reading loop's window.
-/
import Envfile.C.Records
import Envfile.C.Stream

namespace Envfile.C

/-- The same settings, for another action. -/
def Config.withAction (cfg : Config) (action : Action) : Config := { cfg with action := action }

/-! ## The passes -/

theorem reads_flatten (f : Bytes) : (Stream.ofBytes f).reads.flatten = f :=
  freads_flatten f f.length le_rfl

theorem byteAt_lineEnd {buf l v : Bytes} {pos : Nat} (hcut : buf.drop pos = l ++ v) (hl : l ≠ [])
    (c : UInt8) : (byteAt buf (pos + l.length - 1) != c) = !(l.getLast? == some c) := by
  have hlen : 0 < l.length := List.length_pos_of_ne_nil hl
  have hat : buf[pos + l.length - 1]? = l.getLast? := by
    have hdrop : (buf.drop pos)[l.length - 1]? = l.getLast? := by
      rw [hcut, List.getElem?_append_left (by omega), List.getLast?_eq_getElem?]
    rw [List.getElem?_drop, ← Nat.add_sub_assoc hlen] at hdrop
    exact hdrop
  rw [byteAt, List.getD_eq_getElem?_getD, hat, List.getLast?_eq_some_getLast hl, Option.getD_some,
    bne]
  congr 1

theorem recordsHaveCrFrom_round {buf l v : Bytes} {pos : Nat} (hcut : buf.drop pos = l ++ v)
    (others : Bool) :
    (if pos + l.length - pos == 0 || byteAt buf (pos + l.length - 1) != Byte.cr then false
      else others) = ((l.getLast? == some Byte.cr) && others) := by
  by_cases hl : l = []
  · subst hl
    rw [if_pos (by simp)]
    rfl
  · have hne : (pos + l.length - pos == 0) = false := by
      rw [Nat.add_sub_cancel_left, beq_eq_false_iff_ne]
      intro e
      exact hl (List.eq_nil_of_length_eq_zero e)
    rw [byteAt_lineEnd hcut hl, hne, Bool.false_or]
    cases l.getLast? == some Byte.cr <;> rfl

/-- The loop of `all_records_have_trailing_cr` looks at every line. -/
theorem recordsHaveCrFrom_eq (buf : Bytes) : ∀ (rounds pos : Nat), buf.length - pos ≤ rounds →
    recordsHaveCrFrom buf rounds pos =
      (Lines.lines Byte.nl (buf.drop pos)).all (fun l => l.getLast? == some Byte.cr) := by
  intro rounds
  induction rounds with
  | zero =>
      intro pos h
      rw [List.drop_eq_nil_of_le (by omega)]
      rfl
  | succ rounds ih =>
      intro pos h
      rw [recordsHaveCrFrom]
      by_cases hpos : pos < buf.length
      · have hlen : (buf.drop pos).length = buf.length - pos := List.length_drop
        rw [if_pos hpos]
        rcases split_first Byte.nl (buf.drop pos) with hno | ⟨l, v, hcut, hl⟩
        · -- the last line, which no newline closes
          have hne : buf.drop pos ≠ [] := by
            intro he
            rw [he, List.length_nil] at hlen
            omega
          have hall : (buf.drop pos).takeWhile (· != Byte.nl) = buf.drop pos := cut_all hno
          have hend : ¬ pos + (buf.drop pos).length < buf.length := by omega
          have hover : buf.drop (pos + (buf.drop pos).length) = [] :=
            List.drop_eq_nil_of_le (Nat.le_of_not_lt hend)
          simp only [hall, if_neg hend]
          rw [recordsHaveCrFrom_round (List.append_nil _).symm, ih _ (by omega), hover,
            Lines.lines_of_not_mem Byte.nl hno hne]
          rfl
        · -- a line and the newline that closes it
          have hline : (buf.drop pos).takeWhile (· != Byte.nl) = l := by
            rw [hcut, List.takeWhile_append_of_pos (ne_of_not_mem hl)]
            exact List.append_nil l
          have hmore : pos + l.length < buf.length := by
            rw [hcut, List.length_append, List.length_cons] at hlen
            omega
          have hrest : buf.drop (pos + l.length + 1) = v := by
            rw [Nat.add_assoc, ← List.drop_drop, hcut, drop_after]
          simp only [hline, if_pos hmore]
          rw [recordsHaveCrFrom_round hcut, ih _ (by omega), hrest, hcut,
            Lines.lines_line Byte.nl hl]
          rfl
      · rw [if_neg hpos, List.drop_eq_nil_of_le (by omega)]
        rfl

theorem allRecordsHaveTrailingCr_eq (buf : Bytes) :
    allRecordsHaveTrailingCr buf =
      (!buf.isEmpty && (Lines.lines Byte.nl buf).all fun l => l.getLast? == some Byte.cr) := by
  rw [allRecordsHaveTrailingCr, recordsHaveCrFrom_eq buf buf.length 0 (Nat.sub_le _ _)]
  cases buf <;> rfl

theorem linesFit_drop_bom {f : Bytes} (hbom : hasBom f = true) (h : LinesFit f) :
    LinesFit (f.drop 3) := by
  obtain ⟨g, rfl⟩ : ∃ g, f = bomBytes ++ g := by
    obtain ⟨g, hg⟩ := List.isPrefixOf_iff_prefix.mp hbom
    exact ⟨g, hg.symm⟩
  intro l hl
  have hlines := Lines.lines_prefix Byte.nl (u := bomBytes) (by decide) (by decide) g
  have hdrop : (bomBytes ++ g).drop 3 = g := rfl
  rw [hdrop] at hl
  cases hg : Lines.lines Byte.nl g with
  | nil =>
      rw [hg] at hl
      exact absurd hl List.not_mem_nil
  | cons m ls =>
      rw [hg] at hl hlines
      simp only at hlines
      rcases List.mem_cons.mp hl with rfl | hl
      · have := h (bomBytes ++ l) (by rw [hlines]; exact List.mem_cons_self)
        rw [List.length_append] at this
        omega
      · exact h l (by rw [hlines]; exact List.mem_cons_of_mem _ hl)

theorem prePasses_eq (cfg : Config) (f : Bytes) :
    prePasses cfg (Stream.ofBytes f) =
      if cfg.nulReject = true ∧ Byte.nul ∈ f then .error .fileNul
      else if bomBytes.isPrefixOf f then
        match cfg.bom with
        | .reject => .error .fileBom
        | .strip => .ok (f.drop 3)
        | .literal => .ok f
      else .ok f := by
  have herr : (Stream.ofBytes f).err = false := rfl
  have hnul : (cfg.nulReject && (memchr f Byte.nul).isSome) = true ↔
      cfg.nulReject = true ∧ Byte.nul ∈ f := by
    rw [Bool.and_eq_true, memchr_isSome]
  simp only [prePasses, reads_flatten, herr, hnul, Bool.false_eq_true, if_false, hasBom]
  split
  · rfl
  split
  · cases cfg.bom <;> rfl
  · rfl

theorem nul_kept {cfg : Config} (hnul : cfg.nulReject = false) (f : Bytes) :
    ¬ (cfg.nulReject = true ∧ Byte.nul ∈ f) := by
  rw [hnul]
  rintro ⟨⟨⟩, -⟩

/-- A file that the NUL test lets through is left as it is where a BOM is
data. -/
theorem prePasses_literal {cfg : Config} (hbom : cfg.bom = .literal) {f : Bytes}
    (hnul : ¬ (cfg.nulReject = true ∧ Byte.nul ∈ f)) :
    prePasses cfg (Stream.ofBytes f) = .ok f := by
  rw [prePasses_eq, if_neg hnul, hbom]
  split <;> rfl

theorem prePasses_error {cfg : Config} {f : Bytes} {code : Code}
    (h : prePasses cfg (Stream.ofBytes f) = .error code) :
    (code = .fileNul ∧ Byte.nul ∈ f) ∨
      (code = .fileBom ∧ ¬ (cfg.nulReject = true ∧ Byte.nul ∈ f)) := by
  rw [prePasses_eq] at h
  split at h
  · exact Or.inl ⟨(Except.error.inj h).symm, (‹_ ∧ _› : _ ∧ _).2⟩
  split at h
  · split at h
    · exact Or.inr ⟨(Except.error.inj h).symm, ‹_›⟩
    · cases h
    · cases h
  · cases h

theorem prePasses_code {cfg : Config} {f : Stream} {code : Code}
    (h : prePasses cfg f = .error code) : code.isRecordCode = false := by
  simp only [prePasses] at h
  split at h
  · rw [← Except.error.inj h]
    rfl
  split at h
  · rw [← Except.error.inj h]
    rfl
  split at h
  · split at h
    · cases h
    · rw [← Except.error.inj h]
      rfl
    · cases h
  · cases h

theorem nul_not_mem_of_prePasses {cfg : Config} {f data : Bytes} (hnul : cfg.nulReject = true)
    (h : prePasses cfg (Stream.ofBytes f) = .ok data) : Byte.nul ∉ f := by
  intro hmem
  rw [prePasses_eq, if_pos ⟨hnul, hmem⟩] at h
  cases h

theorem mem_of_prePasses {cfg : Config} {f data : Bytes} {c : UInt8}
    (h : prePasses cfg (Stream.ofBytes f) = .ok data) (hc : c ∈ data) : c ∈ f := by
  rw [prePasses_eq] at h
  split at h
  · cases h
  split at h
  · split at h
    · cases h
    · rw [← Except.ok.inj h] at hc
      exact List.mem_of_mem_drop hc
    · rwa [← Except.ok.inj h] at hc
  · rwa [← Except.ok.inj h] at hc

theorem linesFit_of_prePasses {cfg : Config} {f data : Bytes} (h : LinesFit f)
    (hpass : prePasses cfg (Stream.ofBytes f) = .ok data) : LinesFit data := by
  rw [prePasses] at hpass
  simp only [reads_flatten] at hpass
  split at hpass
  · cases hpass
  split at hpass
  · cases hpass
  split at hpass
  · split at hpass
    · rw [← Except.ok.inj hpass]
      exact linesFit_drop_bom ‹_› h
    · cases hpass
    · rw [← Except.ok.inj hpass]
      exact h
  · rw [← Except.ok.inj hpass]
    exact h

/-! ## Lines -/

section Lines

variable (backend : Backend) (cfg : Config)

/-- The flag `process_file` passes to the reading loop. -/
def stripFlag (data : Bytes) : Bool := cfg.stripCr && allRecordsHaveTrailingCr data

/-- The physical lines of what is left of a file. -/
def physicalLines (data : Bytes) : List Bytes :=
  (Lines.lines Byte.nl data).map (strip (stripFlag cfg data))

/-- The lines that the loop bodies get. -/
def handedLines (data : Bytes) : List (Bytes × Nat) :=
  if cfg.shellCont then
    logicalLines (decide (Lines.rest Byte.nl data = [])) [] 0 (physicalLines cfg data)
  else Lines.number 0 (physicalLines cfg data)

/-- Joined lines fit, where lines are joined. -/
def JoinedFit (data : Bytes) : Prop :=
  cfg.shellCont = true → ∀ q ∈ joinFrom [] 0 (physicalLines cfg data), q.1.length ≤ maxLine

theorem linesFit_unlines {ls : List Bytes} (hnl : ∀ l ∈ ls, Byte.nl ∉ l)
    (hfit : ∀ l ∈ ls, l.length ≤ maxLine) : LinesFit (Lines.unlines Byte.nl ls) := by
  intro l hl
  rw [Lines.lines_unlines Byte.nl hnl] at hl
  exact hfit l hl

theorem nul_not_mem_unlines {ls : List Bytes} (hnul : ∀ l ∈ ls, Byte.nul ∉ l) :
    Byte.nul ∉ Lines.unlines Byte.nl ls := by
  intro h
  obtain ⟨l, hl, hmem⟩ := Lines.mem_of_mem_unlines Byte.nl (by decide) h
  exact hnul l hl hmem

section Off

variable {cfg}

theorem physicalLines_off (hcrlf : cfg.stripCr = false) (data : Bytes) :
    physicalLines cfg data = Lines.lines Byte.nl data := by
  rw [physicalLines, stripFlag, hcrlf, Bool.false_and]
  exact List.map_id _

theorem handedLines_off (hcont : cfg.shellCont = false) (data : Bytes) :
    handedLines cfg data = Lines.number 0 (physicalLines cfg data) := by
  rw [handedLines, hcont, if_neg Bool.false_ne_true]

theorem joinedFit_off (hcont : cfg.shellCont = false) (data : Bytes) : JoinedFit cfg data := by
  intro hon
  rw [hcont] at hon
  cases hon

end Off

theorem of_mem_handedLines {data : Bytes} (hfit : LinesFit data) (hjoined : JoinedFit cfg data)
    {q : Bytes × Nat} (hq : q ∈ handedLines cfg data) :
    q.1.length ≤ maxLine ∧ ∀ c ∈ q.1, c ≠ Byte.nl ∧ c ∈ data := by
  have hphysical : ∀ m ∈ physicalLines cfg data,
      m.length ≤ maxLine ∧ ∀ c ∈ m, c ≠ Byte.nl ∧ c ∈ data := by
    intro m hm
    obtain ⟨l, hl, rfl⟩ := List.mem_map.mp hm
    have hsub : (strip (stripFlag cfg data) l).Sublist l := strip_sublist _ _
    refine ⟨le_trans hsub.length_le (hfit l hl), ?_⟩
    intro c hc
    have hc := hsub.subset hc
    exact ⟨fun e => Lines.sep_not_mem_lines Byte.nl hl (e ▸ hc), Lines.mem_of_mem_lines _ hl hc⟩
  rw [handedLines] at hq
  split at hq
  · rename_i hcont
    have hq : q ∈ joinFrom [] 0 (physicalLines cfg data) := by
      rw [logicalLines] at hq
      split at hq
      · exact List.dropLast_subset _ hq
      · exact hq
    refine ⟨hjoined hcont q hq, ?_⟩
    intro c hc
    obtain hnil | ⟨m, hm, hmem⟩ := mem_joinFrom hq hc
    · exact absurd hnil List.not_mem_nil
    · exact (hphysical m hm).2 c hmem
  · exact hphysical q.1 (Lines.mem_number hq)

theorem streamEvents_handedLines {data : Bytes} (hfit : LinesFit data)
    (hjoined : JoinedFit cfg data) :
    streamEvents (stripFlag cfg data) cfg.shellCont (Stream.ofBytes data) =
      lineEvents (handedLines cfg data) := by
  rw [handedLines]
  cases hcont : cfg.shellCont with
  | true => exact streamEvents_on _ hfit (hjoined hcont)
  | false => exact streamEvents_off _ hfit

/-- The body of the loop the action selects. -/
def body (tag line : Bytes) (lineNo : Nat) : Step EnvTable (Out Int32) :=
  if cfg.action = .normalize then Step.emit (normalizeRecord tag line lineNo)
  else scanRecord (backend.parse cfg.native) tag cfg.action cfg.native line lineNo

/-- The body of the loop on what the reading loop does. -/
def eventStep (tag : Bytes) : StreamEvent → Step EnvTable (Out Int32)
  | .line bytes lineNo => body backend cfg tag bytes lineNo
  | .tooLong => Step.emit (streamDiag tag .lineTooLong)
  | .unreadable => Step.emit (streamDiag tag .fileUnreadable)

theorem processFile_events (tag : Bytes) (f : Stream) :
    processFile backend cfg tag f =
      match prePasses cfg f with
      | .error code => Step.emit (Out.diag ⟨code, none, tag, none⟩)
      | .ok data =>
          Step.run (eventStep backend cfg tag)
            (streamEvents (stripFlag cfg data) cfg.shellCont (Stream.ofBytes data)) := by
  rw [processFile]
  cases prePasses cfg f with
  | error code => rfl
  | ok data =>
      have hnormalize : cfg.action = .normalize →
          normalizeStream tag (stripFlag cfg data) cfg.shellCont (Stream.ofBytes data) =
            Step.run (eventStep backend cfg tag)
              (streamEvents (stripFlag cfg data) cfg.shellCont (Stream.ofBytes data)) := by
        intro hact
        funext env
        refine Step.run_congr ?_ env
        intro event _ s
        cases event with
        | line bytes lineNo =>
            show _ = body backend cfg tag bytes lineNo s
            rw [body, if_pos hact]
        | tooLong => rfl
        | unreadable => rfl
      have hscan : cfg.action ≠ .normalize →
          scanStream (backend.parse cfg.native) tag cfg.action (stripFlag cfg data) cfg.shellCont
              cfg.native (Stream.ofBytes data) =
            Step.run (eventStep backend cfg tag)
              (streamEvents (stripFlag cfg data) cfg.shellCont (Stream.ofBytes data)) := by
        intro hact
        funext env
        refine Step.run_congr ?_ env
        intro event _ s
        cases event with
        | line bytes lineNo =>
            show _ = body backend cfg tag bytes lineNo s
            rw [body, if_neg hact]
        | tooLong => rfl
        | unreadable => rfl
      cases hact : cfg.action with
      | normalize => exact hnormalize hact
      | _ =>
          have hother := hscan (by rw [hact]; rintro ⟨⟩)
          rw [hact] at hother
          exact hother

/-- A file is rejected, or its lines are processed one by one. -/
theorem processFile_eq (tag : Bytes) {f : Bytes} (hfit : LinesFit f)
    (hjoined : ∀ data, prePasses cfg (Stream.ofBytes f) = .ok data → JoinedFit cfg data) :
    processFile backend cfg tag (Stream.ofBytes f) =
      match prePasses cfg (Stream.ofBytes f) with
      | .error code => Step.emit (Out.diag ⟨code, none, tag, none⟩)
      | .ok data => Step.run (fun p => body backend cfg tag p.1 p.2) (handedLines cfg data) := by
  rw [processFile_events]
  cases hpass : prePasses cfg (Stream.ofBytes f) with
  | error code => rfl
  | ok data =>
      have hevents := streamEvents_handedLines cfg (linesFit_of_prePasses hfit hpass)
        (hjoined data hpass)
      funext env
      simp only [hevents, lineEvents]
      rw [Step.run_map]
      rfl

/-- What `main` prints of the environment table at the end. -/
def emitted (env : EnvTable) : Out Int32 :=
  if cfg.action = .apply then { (0 : Out Int32) with stdout := envTableEmitSorted env } else 0

theorem runFiles_out (environ : Environ) (files : List File) :
    (runFiles backend cfg environ files).out =
      (Step.run (processArg backend cfg) files (initialTable cfg environ)).2 +
        emitted cfg (Step.run (processArg backend cfg) files (initialTable cfg environ)).1 := rfl

theorem emitted_of_ne (hact : cfg.action ≠ .apply) (env : EnvTable) : emitted cfg env = 0 :=
  if_neg hact

theorem emitted_codes (env : EnvTable) : (emitted cfg env).codes = [] := by
  rw [emitted]
  split <;> rfl

theorem runFiles_one (environ : Environ) (path f : Bytes) :
    (runFiles backend cfg environ [.readable path f]).out =
      (processFile backend cfg path (Stream.ofBytes f) (initialTable cfg environ)).2 +
        emitted cfg
          (processFile backend cfg path (Stream.ofBytes f) (initialTable cfg environ)).1 := by
  have harg : processArg backend cfg (.readable path f) =
      processFile backend cfg path (Stream.ofBytes f) := rfl
  rw [runFiles_out, Step.run_singleton, harg]

theorem body_eq (hact : cfg.action ≠ .normalize) (tag line : Bytes) (lineNo : Nat) :
    body .c cfg tag line lineNo =
      Step.prepend (Out.hand line lineNo)
        (record tag cfg.action cfg.native lineNo (outcome cfg.native line)) := by
  rw [body, if_neg hact, scanRecord_eq]

theorem body_withAction {action : Action} (hact : action ≠ .normalize) (tag line : Bytes)
    (lineNo : Nat) :
    body .c (cfg.withAction action) tag line lineNo =
      Step.prepend (Out.hand line lineNo)
        (record tag action cfg.native lineNo (outcome cfg.native line)) :=
  body_eq (cfg.withAction action) hact tag line lineNo

/-! ## What a line writes -/

theorem fromRecord_substValue (val tag : Bytes) (lineNo : Nat) (env : EnvTable) :
    Out.FromRecord (substValue val tag lineNo env).2 := by
  rw [substValue_eq]
  exact .unbound _ _ _

theorem fromRecord_acceptRecord (tag : Bytes) (action : Action) (native : Bool) (line : Bytes)
    (lineNo : Nat) (record : EnvfileRecord) (env : EnvTable) :
    Out.FromRecord (acceptRecord tag action native line lineNo record env).2 := by
  have hresolved : ∀ value : Bytes, Out.FromRecord
      (if native || record.valueKind != .singleQuoted then substValue value tag lineNo env
        else (value, 0)).2 := by
    intro value
    split
    · exact fromRecord_substValue _ _ _ _
    · exact .zero
  cases action with
  | dump => exact .print _ _
  | delta => exact (hresolved _).add (.ite (.print _ _) .zero)
  | apply => exact (hresolved _).add (.ite (.print _ _) .zero)
  | normalize => exact .zero
  | validate => exact .zero

theorem isBody_body (tag : Bytes) :
    Out.IsBody fun p : Bytes × Nat => body backend cfg tag p.1 p.2 := by
  rintro ⟨line, lineNo⟩ env
  show ∃ o, (body backend cfg tag line lineNo env).2 = Out.hand line lineNo + o ∧ _
  rw [body]
  split
  · refine ⟨_, rfl, ?_⟩
    refine .ite .zero (.add .check ?_)
    split
    · exact .diag rfl
    · exact .print _ _
  · rw [scanRecord]
    refine ⟨_, rfl, ?_⟩
    obtain ⟨status, record⟩ := backend.parse cfg.native line
    cases status with
    | skip => exact .zero
    | ok => exact .add .check (fromRecord_acceptRecord ..)
    | _ => exact .add .check (.diag rfl)

/-- What an event does: it hands a line on, or reports one code. -/
theorem eventStep_cases (tag : Bytes) (event : StreamEvent) (env : EnvTable) :
    (event = .tooLong ∧ (eventStep backend cfg tag event env).2.codes = [.lineTooLong]) ∨
    (event = .unreadable ∧ (eventStep backend cfg tag event env).2.codes = [.fileUnreadable]) ∨
    ((eventStep backend cfg tag event env).2.handed.length = 1 ∧
      ∀ code ∈ (eventStep backend cfg tag event env).2.codes, code.isRecordCode = true) := by
  cases event with
  | tooLong => exact Or.inl ⟨rfl, rfl⟩
  | unreadable => exact Or.inr (Or.inl ⟨rfl, rfl⟩)
  | line bytes lineNo =>
      obtain ⟨o, ho, hrecord⟩ := isBody_body backend cfg tag (bytes, lineNo) env
      refine Or.inr (Or.inr ?_)
      show (body backend cfg tag bytes lineNo env).2.handed.length = 1 ∧
        ∀ code ∈ (body backend cfg tag bytes lineNo env).2.codes, code.isRecordCode = true
      rw [ho, Out.add_handed, Out.codes_add, Out.codes_hand, hrecord.handed]
      exact ⟨rfl, hrecord.codes⟩

theorem lineTooLong_mem_run (tag : Bytes) (events : List StreamEvent) (env : EnvTable) :
    Code.lineTooLong ∈ (Step.run (eventStep backend cfg tag) events env).2.codes ↔
      .tooLong ∈ events := by
  induction events generalizing env with
  | nil => exact iff_of_false List.not_mem_nil List.not_mem_nil
  | cons event events ih =>
      rw [Step.run_cons, Out.codes_add, List.mem_append, ih, List.mem_cons]
      refine or_congr ?_ Iff.rfl
      rcases eventStep_cases backend cfg tag event env with
        ⟨rfl, hcodes⟩ | ⟨rfl, hcodes⟩ | ⟨hhanded, hcodes⟩
      · rw [hcodes]
        exact iff_of_true (List.mem_singleton_self _) rfl
      · rw [hcodes, List.mem_singleton]
        exact iff_of_false (by rintro ⟨⟩) (by rintro ⟨⟩)
      · refine iff_of_false (fun h => by cases hcodes _ h) ?_
        rintro rfl
        cases hhanded

end Lines

end Envfile.C
