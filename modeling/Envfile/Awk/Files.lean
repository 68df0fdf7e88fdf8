/-
# `Envfile.Awk.Files` — what `normalize` hands to `validate`

The passes of the reference work on an array of lines.  `readLines_eq` gives
them by what they test and do: a NUL anywhere, a BOM at the front of the file,
a CR at the end of every line.  The join looks ahead by index, and is
`joinFrom` of `Envfile.Continuation`.

A file that is nothing but a BOM is one empty line after its BOM is stripped
(`Meaning.behindBom`).
-/
import Envfile.Awk.Classify
import Envfile.Continuation
import Envfile.Runs
import Mathlib.Data.List.Induction

namespace Envfile.Awk

/-! ## The passes -/

theorem any_index_nul (f : Bytes) :
    ((Lines.lines Byte.nl f).any fun raw => index raw [Byte.nul] > 0) = true ↔ Byte.nul ∈ f := by
  have hindex : ∀ raw : Bytes, (decide (index raw [Byte.nul] > 0)) = true ↔ Byte.nul ∈ raw := by
    intro raw
    rw [index_singleton, decide_eq_true_iff]
    cases h : memchr raw Byte.nul with
    | none => exact iff_of_false (lt_irrefl 0) (memchr_eq_none.mp h)
    | some n =>
        exact iff_of_true (Nat.succ_pos n) (memchr_isSome.mp (by rw [h]; rfl))
  rw [List.any_eq_true]
  constructor
  · rintro ⟨raw, hraw, hnul⟩
    exact Lines.mem_of_mem_lines Byte.nl hraw ((hindex raw).mp hnul)
  · intro hnul
    obtain ⟨raw, hraw, hmem⟩ := Lines.exists_line_of_mem Byte.nl (by decide) hnul
    exact ⟨raw, hraw, (hindex raw).mpr hmem⟩

theorem index_eq_one (s t : Bytes) : index s t = 1 ↔ t.isPrefixOf s = true := by
  have htails : ∃ more, s.tails = s :: more := by
    cases s with
    | nil => exact ⟨[], rfl⟩
    | cons c s => exact ⟨s.tails, rfl⟩
  obtain ⟨more, hmore⟩ := htails
  rw [index, hmore, List.findIdx?_cons]
  cases t.isPrefixOf s with
  | true => exact iff_of_true rfl rfl
  | false =>
      refine iff_of_false ?_ Bool.false_ne_true
      rw [if_neg Bool.false_ne_true]
      cases List.findIdx? _ more <;> simp

theorem bomPass_lines (cfg : Knobs) (f : Bytes) :
    bomPass cfg (Lines.lines Byte.nl f) =
      if bomBytes.isPrefixOf f then
        match cfg.bom with
        | .reject => .error .fileBom
        | .strip => .ok (Meaning.behindBom (f.drop 3))
        | .literal => .ok (Lines.lines Byte.nl f)
      else .ok (Lines.lines Byte.nl f) := by
  cases hbom : bomBytes.isPrefixOf f with
  | true =>
      obtain ⟨g, rfl⟩ := List.isPrefixOf_iff_prefix.mp hbom
      have hdrop : (bomBytes ++ g).drop 3 = g := rfl
      have hfirst : ∀ l : Bytes, index (bomBytes ++ l) bomBytes = 1 := fun l =>
        (index_eq_one _ _).mpr (List.isPrefixOf_iff_prefix.mpr (List.prefix_append _ _))
      have hrest : ∀ l : Bytes, substrFrom (bomBytes ++ l) 4 = l := fun l => rfl
      have hlines := Lines.lines_prefix Byte.nl (u := bomBytes) (by decide) (by decide) g
      rw [hdrop, if_pos rfl, Meaning.behindBom]
      cases hg : Lines.lines Byte.nl g with
      | nil =>
          obtain rfl := (Lines.lines_eq_nil_iff Byte.nl).mp hg
          rw [hg] at hlines
          have h := hfirst []
          rw [List.append_nil] at hlines h ⊢
          rw [hlines, bomPass, if_pos h, if_pos rfl]
          cases cfg.bom <;> rfl
      | cons l ls =>
          have hne : g ≠ [] := by
            rintro rfl
            cases hg
          rw [hg] at hlines
          rw [hlines, if_neg hne, bomPass, if_pos (hfirst l)]
          cases cfg.bom <;> simp only [hrest]
  | false =>
      rw [if_neg Bool.false_ne_true]
      cases hf : Lines.lines Byte.nl f with
      | nil => rfl
      | cons l ls =>
          have hno : index l bomBytes ≠ 1 := by
            intro h
            have hl : bomBytes <+: l := List.isPrefixOf_iff_prefix.mp ((index_eq_one _ _).mp h)
            have hpre := hl.trans (Lines.first_prefix Byte.nl hf)
            rw [List.isPrefixOf_iff_prefix.mpr hpre] at hbom
            cases hbom
          rw [bomPass, if_neg hno]

theorem substr_last (l : Bytes) :
    (substr l l.length 1 == [Byte.cr]) = (l.getLast? == some Byte.cr) := by
  rcases List.eq_nil_or_concat l with rfl | ⟨t, c, rfl⟩
  · rfl
  · have hsubstr : substr (t ++ [c]) (t ++ [c]).length 1 = [c] := by
      rw [substr, if_neg (by simp), List.length_append]
      exact List.drop_left ▸ rfl
    rw [List.concat_eq_append, hsubstr, List.getLast?_concat]
    simp

theorem stripCrlf_eq (lines : List Bytes) :
    stripCrlf lines =
      if lines.all (fun l => l.getLast? == some Byte.cr) then lines.map trimCr else lines := by
  simp only [stripCrlf, substr_last]
  split
  · refine List.map_congr_left ?_
    intro l hl
    have hcr : l.getLast? = some Byte.cr := beq_iff_eq.mp (List.all_eq_true.mp ‹_› l hl)
    rw [trimCr, if_pos hcr, List.dropLast_eq_take]
    rfl
  · rfl

theorem readLines_eq (cfg : Knobs) (path f : Bytes) :
    readLines cfg (.readable path f) =
      if cfg.nulReject = true ∧ Byte.nul ∈ f then .error .fileNul
      else (bomPass cfg (Lines.lines Byte.nl f)).map fun lines =>
        if cfg.crlfStrip then stripCrlf lines else lines := by
  have hnul := any_index_nul f
  rw [readLines]
  by_cases h : cfg.nulReject = true ∧ Byte.nul ∈ f
  · rw [if_pos h, if_pos]
    rw [Bool.and_eq_true]
    exact ⟨h.1, hnul.mpr h.2⟩
  · rw [if_neg h, if_neg]
    · rfl
    · rw [Bool.and_eq_true]
      intro hand
      exact h ⟨hand.1, hnul.mp hand.2⟩

theorem readLines_code {cfg : Knobs} {file : File} {code : Code}
    (h : readLines cfg file = .error code) : code.isFileError = true := by
  have hbom : ∀ ls code, bomPass cfg ls = .error code → code.isFileError = true := by
    intro ls code hcode
    cases ls with
    | nil => cases hcode
    | cons first others =>
        rw [bomPass] at hcode
        split at hcode
        · split at hcode
          · obtain rfl := Except.error.inj hcode
            rfl
          · cases hcode
          · cases hcode
        · cases hcode
  rw [readLines] at h
  generalize (if file.opens = true then Lines.lines Byte.nl file.contents else []) = lines at h
  split at h
  · obtain rfl := Except.error.inj h
    rfl
  split at h
  · obtain rfl := Except.error.inj h
    rfl
  · cases hpass : bomPass cfg lines with
    | error fault =>
        rw [hpass] at h
        obtain rfl := Except.error.inj h
        exact hbom _ _ hpass
    | ok ls =>
        rw [hpass] at h
        cases h

theorem readable_of_readLines {cfg : Knobs} {file : File} {ls : List Bytes}
    (h : readLines cfg file = .ok ls) : file = .readable file.path file.contents := by
  rw [readLines] at h
  generalize (if file.opens = true then Lines.lines Byte.nl file.contents else []) = lines at h
  split at h
  · cases h
  split at h
  · cases h
  · rename_i hread
    rw [Bool.or_eq_true, not_or, Bool.not_eq_true', Bool.not_eq_false, Bool.not_eq_true] at hread
    obtain ⟨path, opens, contents, failed⟩ := file
    obtain ⟨rfl, rfl⟩ : opens = true ∧ failed = false := hread
    rfl

/-! ## The join -/

theorem isContinuation_eq (line : Bytes) : isContinuation line = continues line := by
  have hcount : ∀ (s t : Bytes), countBackslashes (s ++ t) s.length = trailing s := by
    intro s
    induction s using List.reverseRecOn with
    | nil => exact fun _ => rfl
    | append_singleton s c ih =>
        intro t
        have hat : substr (s ++ ([c] ++ t)) (s.length + 1) 1 = [c] := by
          rw [substr, if_neg (Nat.succ_ne_zero _), Nat.add_sub_cancel, List.drop_left]
          rfl
        rw [List.append_assoc, List.length_append, List.length_singleton, countBackslashes, hat, ih,
          trailing, trailing, List.reverse_append, List.reverse_singleton, List.singleton_append]
        by_cases hc : c = Byte.backslash
        · rw [if_pos (by simpa using hc), List.takeWhile_cons_of_pos (by simpa using hc)]
          rfl
        · rw [if_neg (by simpa using hc), List.takeWhile_cons_of_neg (by simpa using hc)]
          rfl
  have := hcount line []
  rw [List.append_nil] at this
  rw [isContinuation, this]
  rfl

/-- The inner loop, begun behind `acc`, and all that the outer loop does after
it. -/
theorem gather_eq (ls : List Bytes) : ∀ (rounds : Nat) (acc l : Bytes) (n : Nat),
    ls.length ≤ rounds →
    ((gather (acc ++ l) ls (n + 2)).1, (gather (acc ++ l) ls (n + 2)).2.2 - 1) ::
      joinLoop true rounds (gather (acc ++ l) ls (n + 2)).2.1 (gather (acc ++ l) ls (n + 2)).2.2 =
    joinFrom acc n (l :: ls) := by
  induction ls with
  | nil =>
      intro rounds acc l n _
      cases rounds <;> rfl
  | cons m ls ih =>
      intro rounds acc l n hrounds
      rw [List.length_cons] at hrounds
      rw [gather, isContinuation_eq, joinFrom, gathered]
      cases hcont : continues (acc ++ l) with
      | true =>
          have hcut : substr (acc ++ l) 1 ((acc ++ l).length - 1) = (acc ++ l).dropLast := by
            rw [substr_one, List.dropLast_eq_take]
          simp only [if_true, hcut]
          exact ih rounds _ m (n + 1) (by omega)
      | false =>
          obtain ⟨r, rfl⟩ : ∃ r, rounds = r + 1 := ⟨rounds - 1, by omega⟩
          have hrest := ih r [] m (n + 1) (by omega)
          simp only [Bool.false_eq_true, if_false]
          rw [← hrest]
          rfl

theorem joinLoop_on (lines : List Bytes) :
    joinLoop true lines.length lines 1 = joinFrom [] 0 lines := by
  cases lines with
  | nil => rfl
  | cons l ls => exact gather_eq ls ls.length [] l 0 le_rfl

theorem joinLoop_off (lines : List Bytes) (n : Nat) :
    joinLoop false lines.length lines (n + 1) = Lines.number n lines := by
  induction lines generalizing n with
  | nil => rfl
  | cons l ls ih =>
      rw [List.length_cons, joinLoop, Lines.number, ← ih (n + 1)]
      rfl

/-! ## What is handed on -/

theorem normalize_eq {knobs : Knobs} (path f : Bytes) {ls : List Bytes}
    (h : readLines knobs (.readable path f) = .ok ls) :
    normalize knobs (.readable path f) =
      Step.run (fun p => validate knobs path p.2 p.1) (Meaning.logical knobs ls) := by
  rw [normalize, h, Meaning.logical]
  cases knobs.contAccept with
  | true =>
      rw [if_pos rfl, ← joinLoop_on]
      rfl
  | false =>
      rw [if_neg Bool.false_ne_true, ← joinLoop_off]
      rfl

theorem normalize_records {knobs : Knobs} (hdump : knobs.action = some .dump) (path f : Bytes)
    {ls : List Bytes} (h : readLines knobs (.readable path f) = .ok ls) (env : EnvArray) :
    (normalize knobs (.readable path f) env).2 =
      ((Meaning.logical knobs ls).map fun p =>
        Out.hand p.1 p.2 + (record knobs path p.2 (reference knobs.native p.1) env).2).sum := by
  have hact : knobs.action ≠ some .normalize := by
    rw [hdump]
    rintro ⟨⟩
  rw [normalize_eq path f h]
  refine congrArg Prod.snd (Step.run_eq_sum ?_ env)
  intro p _ s
  rw [validate_eq hact, Step.prepend, record_dump hdump, record_dump hdump]

/-! ## What a line writes -/

section Line

variable (cfg : Knobs) (path : Bytes) (lineno : Nat) (line : Bytes) (env : EnvArray)

theorem validate_normalize (hact : cfg.action = some .normalize) :
    validate cfg path lineno line =
      Step.prepend (Out.hand line lineno)
        (if isSkipped line then Step.skip
        else Step.prepend Out.check
          (match splitEquals line with
          | none => Step.emit (diag .noEquals path lineno)
          | some (k, v) => Step.emit (Out.print k v))) := by
  rw [validate]
  show Step.prepend _ (if ((trimCr line).all isBlank || _) = true then _ else _) = _
  rw [skipped_eq]
  congr 1
  split
  · rfl
  · congr 1
    rcases line_shape line with ⟨hno, hsplit⟩ | ⟨k, v, rfl, hk, hsplit⟩
    · rw [validateRecord_noEquals hno, hsplit]
    · have hkey : substr (k ++ Byte.equals :: v) 1 (k.length + 1 - 1) = k := substr_before k v _
      have hvalue : substrFrom (k ++ Byte.equals :: v) (k.length + 1 + 1) = v :=
        substrFrom_after k v _
      simp only [validateRecord, index_append hk, hkey, hvalue, hact, Nat.succ_ne_zero, if_false,
        if_true, hsplit]
      split <;> rfl

theorem fromRecord_accept (k v : Bytes) (quoting : Quoting) :
    Out.FromRecord (accept cfg path lineno k v quoting env).2 := by
  rw [accept]
  split
  · exact .zero
  split
  · exact .print _ _
  split
  · exact .zero
  · refine .add ?_ (.ite (.print _ _) .zero)
    split
    · rw [subst_eq]
      exact .unbound _ _ _
    · exact .zero

theorem isBody_validate :
    Out.IsBody fun p : Bytes × Nat => validate cfg path p.2 p.1 := by
  rintro ⟨line, lineno⟩ env
  show ∃ o, (validate cfg path lineno line env).2 = Out.hand line lineno + o ∧ _
  by_cases hact : cfg.action = some .normalize
  · rw [validate_normalize cfg path lineno line hact]
    refine ⟨_, rfl, ?_⟩
    cases isSkipped line with
    | true => exact .zero
    | false =>
        refine .add .check ?_
        cases splitEquals line with
        | none => exact .diag rfl
        | some p => exact .print _ _
  · rw [validate_eq hact]
    refine ⟨_, rfl, ?_⟩
    cases href : reference cfg.native line with
    | skipped => exact .zero
    | rejected code => exact .add .check (.diag (reference_rejected href))
    | accepted k v quoting => exact .add .check (fromRecord_accept _ _ _ _ _ _ _)

end Line

end Envfile.Awk
