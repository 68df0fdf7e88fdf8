/-
# `Envfile.C.Window` — lines that are too long

The reading loop gives up in two places: when the window is full and has no
newline in it, and when what is kept in the window and the next piece are
together longer than the window.  The second test counts what follows the line
in the piece.  So a line of at most 61440 bytes is never too long, a line of
65536 bytes or more always is, and for a line in between it depends on where
the pieces are cut.

`tooLong_iff` says for which lines the answer does not depend on the lines
around them.
-/
import Envfile.C.Files

namespace Envfile.C

/-! ## The reading loop gives up -/

section Loop

variable (stripCr shellCont : Bool)

/-- A line as long as the window is too long wherever it starts: what is kept
is always shorter than the window, so the loop cannot get past it. -/
theorem tooLong_of_long (reads : List Bytes) : ∀ (tail : Bytes) (st : LoopState),
    Pieces reads → Byte.nl ∉ tail → tail.length < workBuf →
    (∃ l ∈ Lines.lines Byte.nl (tail ++ reads.flatten), workBuf ≤ l.length) →
    .tooLong ∈ readLoop stripCr shellCont false reads tail st := by
  induction reads with
  | nil =>
      intro tail st _ htail hlen hlong
      obtain ⟨l, hl, hle⟩ := hlong
      exfalso
      rw [List.flatten_nil, List.append_nil] at hl
      rcases eq_or_ne tail [] with rfl | hne
      · exact absurd hl List.not_mem_nil
      · rw [Lines.lines_of_not_mem Byte.nl htail hne, List.mem_singleton] at hl
        rw [hl] at hle
        omega
  | cons chunk reads ih =>
      intro tail st hpieces htail hlen hlong
      obtain ⟨hne, -⟩ := hpieces chunk List.mem_cons_self
      have hpieces' : Pieces reads := fun c hc => hpieces c (List.mem_cons_of_mem _ hc)
      rw [List.flatten_cons, ← List.append_assoc] at hlong
      rcases readLoop_cons stripCr shellCont hne false reads tail st with
        ⟨-, hround⟩ | ⟨⟨hroom, hno⟩, hround⟩ | ⟨u, r, ⟨hfits, hcut, hr⟩, hround⟩
      · rw [hround]
        exact List.mem_singleton_self _
      · rw [hround]
        exact ih (tail ++ chunk) st hpieces' hno hroom hlong
      · -- the lines that are complete in the window are shorter than the window
        have hlength : (tail ++ chunk).length = u.length + 1 + r.length := by
          rw [hcut, List.length_append, List.length_append, List.length_singleton]
        have hlong' : ∃ l ∈ Lines.lines Byte.nl (r ++ reads.flatten), workBuf ≤ l.length := by
          obtain ⟨l, hl, hle⟩ := hlong
          rw [hcut, List.append_assoc,
            Lines.lines_append_of_rest Byte.nl (Lines.rest_concat Byte.nl u),
            List.mem_append] at hl
          rcases hl with hl | hl
          · have hshort : l.length ≤ u.length := Lines.length_le_of_mem_lines_concat Byte.nl hl
            omega
          · exact ⟨l, hl, hle⟩
        rw [hround]
        exact List.mem_append_right _ (ih r _ hpieces' hr (by omega) hlong')

/-- What is read one after the other, and ends in a newline, is not too long
when all of it has room in the window. -/
theorem not_tooLong_of_short (reads : List Bytes) : ∀ (tail : Bytes) (st : LoopState),
    Pieces reads → tail.length + reads.flatten.length ≤ workBuf →
    Lines.rest Byte.nl (tail ++ reads.flatten) = [] →
    .tooLong ∉ readLoop stripCr false false reads tail st := by
  have hlines : ∀ (f : Bytes) (st : LoopState),
      .tooLong ∉ (linesLoop stripCr false (Lines.records Byte.nl f) st).2 := by
    intro f st hmem
    rw [Lines.records_eq_mark, linesLoop_strip, linesLoop_off] at hmem
    obtain ⟨q, -, hq⟩ := List.mem_map.mp hmem
    cases hq
  induction reads with
  | nil =>
      intro tail st _ _ _
      rw [readLoop, lastRound_eq]
      exact hlines tail st
  | cons chunk reads ih =>
      intro tail st hpieces hroom hclosed
      obtain ⟨hne, -⟩ := hpieces chunk List.mem_cons_self
      have hpieces' : Pieces reads := fun c hc => hpieces c (List.mem_cons_of_mem _ hc)
      rw [List.flatten_cons, ← List.append_assoc] at hclosed
      rw [List.flatten_cons, List.length_append, ← Nat.add_assoc, ← List.length_append] at hroom
      rcases readLoop_cons stripCr false hne false reads tail st with
        ⟨hgiveUp, -⟩ | ⟨⟨-, hno⟩, hround⟩ | ⟨u, r, ⟨-, hcut, hr⟩, hround⟩
      · exfalso
        rcases hgiveUp with hover | ⟨hfull, hno⟩
        · omega
        · -- a full window would be all there is, without its last newline
          have hnil : reads.flatten = [] := List.eq_nil_of_length_eq_zero (by omega)
          rw [hnil, List.append_nil, Lines.rest_of_not_mem Byte.nl hno] at hclosed
          rw [hclosed] at hfull
          cases hfull
      · rw [hround]
        exact ih (tail ++ chunk) st hpieces' hroom hclosed
      · have hroom' : r.length + reads.flatten.length ≤ workBuf := by
          rw [hcut, List.length_append] at hroom
          omega
        have hclosed' : Lines.rest Byte.nl (r ++ reads.flatten) = [] := by
          rw [hcut, List.append_assoc, Lines.rest_append, Lines.rest_concat,
            List.nil_append] at hclosed
          exact hclosed
        rw [hround, List.mem_append, not_or]
        exact ⟨hlines _ st, ih r _ hpieces' hroom' hclosed'⟩

/-- A line that is cut one byte behind a multiple of the piece: when 61441
bytes of it are kept and a whole piece follows, the window has no room. -/
theorem tooLong_of_fill (calls : Nat) : ∀ (tail x y : Bytes) (st : LoopState),
    Byte.nl ∉ tail → Byte.nl ∉ x → tail.length % 4096 = 1 → tail.length ≤ maxLine + 1 →
    maxLine + 1 ≤ tail.length + x.length → readBuf ≤ y.length → (x ++ y).length ≤ calls →
    .tooLong ∈ readLoop stripCr shellCont false (freads (x ++ y) calls) tail st := by
  have hmax : maxLine + readBuf = workBuf := rfl
  have hread : readBuf = 4096 := rfl
  have hbig : maxLine = 61440 := rfl
  induction calls with
  | zero =>
      intro tail x y st _ _ _ _ _ hy hcalls
      rw [List.length_append] at hcalls
      omega
  | succ calls ih =>
      intro tail x y st htail hx hmod hle hlong hy hcalls
      have hlen : (x ++ y).length = x.length + y.length := List.length_append
      have hne : ¬ (x ++ y).isEmpty = true := by
        rw [List.isEmpty_iff]
        intro hnil
        rw [hnil, List.length_nil] at hlen
        omega
      have hchunk : ((x ++ y).take readBuf).length = readBuf := by
        rw [List.length_take]
        omega
      have hchunkNe : (x ++ y).take readBuf ≠ [] := by
        intro hnil
        rw [hnil, List.length_nil] at hchunk
        omega
      -- a piece that has room in the window is of the line
      have hpiece : (tail ++ (x ++ y).take readBuf).length ≤ workBuf → readBuf ≤ x.length := by
        rw [List.length_append, hchunk]
        omega
      have hno : readBuf ≤ x.length → Byte.nl ∉ tail ++ (x ++ y).take readBuf := by
        intro hroom h
        rw [List.take_append_of_le_length hroom] at h
        exact (List.mem_append.mp h).elim htail fun h => hx (List.mem_of_mem_take h)
      rw [freads, if_neg hne]
      rcases readLoop_cons stripCr shellCont hchunkNe false (freads ((x ++ y).drop readBuf) calls)
        tail st with ⟨-, hround⟩ | ⟨⟨hroom, -⟩, hround⟩ | ⟨u, r, ⟨hfits, hcut, -⟩, -⟩
      · rw [hround]
        exact List.mem_singleton_self _
      · have hx' := hpiece hroom.le
        have hdrop : (x ++ y).drop readBuf = x.drop readBuf ++ y :=
          List.drop_append_of_le_length hx'
        have hlen' : (tail ++ (x ++ y).take readBuf).length = tail.length + readBuf := by
          rw [List.length_append, hchunk]
        have hdropped : (x.drop readBuf).length = x.length - readBuf := List.length_drop
        rw [hround, hdrop]
        refine ih (tail ++ (x ++ y).take readBuf) (x.drop readBuf) y st (hno hx') ?_ ?_ ?_ ?_ hy ?_
        · intro h
          exact hx (List.mem_of_mem_drop h)
        · omega
        · omega
        · omega
        · rw [List.length_append]
          omega
      · refine absurd ?_ (hno (hpiece hfits))
        rw [hcut]
        exact List.mem_append_left _ (List.mem_append_right _ (List.mem_singleton_self _))

/-- The first piece of a file that starts with a piece's worth of newlines, less
one: of what follows, one byte is kept. -/
theorem tooLong_behind_newlines {m : Nat} (hm : m + 1 + 1 = readBuf) {c : UInt8}
    (hc : Byte.nl ≠ c) {rest : Bytes} {calls : Nat}
    (h : ∀ st, .tooLong ∈ readLoop stripCr shellCont false (freads rest calls) [c] st)
    (st : LoopState) :
    .tooLong ∈ readLoop stripCr shellCont false
      (freads (List.replicate (m + 1) Byte.nl ++ c :: rest) (calls + 1)) [] st := by
  have hfile : List.replicate (m + 1) Byte.nl ++ c :: rest =
      (List.replicate (m + 1) Byte.nl ++ [c]) ++ rest := by
    rw [List.append_assoc]
    rfl
  have hchunk : (List.replicate (m + 1) Byte.nl ++ [c]).length = readBuf := by
    rw [List.length_append, List.length_replicate, List.length_singleton, hm]
  have htake : ((List.replicate (m + 1) Byte.nl ++ [c]) ++ rest).take readBuf =
      List.replicate (m + 1) Byte.nl ++ [c] := List.take_left' hchunk
  have hdrop : ((List.replicate (m + 1) Byte.nl ++ [c]) ++ rest).drop readBuf = rest :=
    List.drop_left' hchunk
  have hlast : findLastNewline (List.replicate (m + 1) Byte.nl ++ [c]) = some m := by
    have hsplit : List.replicate (m + 1) Byte.nl ++ [c] =
        List.replicate m Byte.nl ++ Byte.nl :: [c] := by
      rw [List.replicate_succ', List.append_assoc]
      rfl
    rw [hsplit, findLastNewline_some (by rwa [List.mem_singleton]), List.length_replicate]
  have hkept : (List.replicate (m + 1) Byte.nl ++ [c]).drop (m + 1) = [c] :=
    List.drop_left' List.length_replicate
  rw [hfile, freads, if_neg (by simp), htake, hdrop, readLoop, if_neg (by simp), List.nil_append,
    hchunk, if_neg (by decide)]
  simp only [hlast, hkept]
  exact List.mem_append_right _ (h _)

end Loop

/-! ## A file is reported -/

section Reports

variable (backend : Backend) (cfg : Config) (tag : Bytes) (env : EnvTable)

/-- A file is reported to have a line that is too long. -/
def Reports (f : Bytes) : Prop :=
  Code.lineTooLong ∈ (processFile backend cfg tag (Stream.ofBytes f) env).2.codes

theorem reports_iff (f : Bytes) :
    Reports backend cfg tag env f ↔
      ∃ data, prePasses cfg (Stream.ofBytes f) = .ok data ∧
        .tooLong ∈ streamEvents (stripFlag cfg data) cfg.shellCont (Stream.ofBytes data) := by
  rw [Reports, processFile_events]
  cases hpass : prePasses cfg (Stream.ofBytes f) with
  | error code =>
      refine iff_of_false ?_ ?_
      · intro h
        obtain rfl : Code.lineTooLong = code := List.mem_singleton.mp h
        rcases prePasses_error hpass with ⟨⟨⟩, -⟩ | ⟨⟨⟩, -⟩
      · rintro ⟨data, ⟨⟩, -⟩
  | ok data =>
      rw [lineTooLong_mem_run]
      constructor
      · intro h
        exact ⟨data, rfl, h⟩
      · rintro ⟨data', hdata, h⟩
        obtain rfl := Except.ok.inj hdata
        exact h

variable {cfg}

theorem not_reports_of_error {f : Bytes} {code : Code}
    (h : prePasses cfg (Stream.ofBytes f) = .error code) :
    ¬ Reports backend cfg tag env f := by
  rw [reports_iff]
  rintro ⟨data, hdata, -⟩
  rw [h] at hdata
  cases hdata

/-! ## The first line and its BOM -/

theorem hasBom_line (l s : Bytes) :
    bomBytes.isPrefixOf (l ++ Byte.nl :: s) = bomBytes.isPrefixOf l := by
  rw [Bool.eq_iff_iff, List.isPrefixOf_iff_prefix, List.isPrefixOf_iff_prefix]
  exact Lines.prefix_line_iff Byte.nl (by decide) l s

variable (cfg) in
/-- A first line without the BOM that is taken off it. -/
def unmarked (l : Bytes) : Bytes :=
  if cfg.bom = .strip ∧ bomBytes.isPrefixOf l = true then l.drop 3 else l

theorem unmarked_sublist (l : Bytes) : (unmarked cfg l).Sublist l := by
  rw [unmarked]
  split
  · exact List.drop_sublist 3 l
  · exact List.Sublist.refl l

theorem prePasses_line (hbom : cfg.bom ≠ .reject) {l s : Bytes}
    (hnul : ¬ (cfg.nulReject = true ∧ Byte.nul ∈ l ++ Byte.nl :: s)) :
    prePasses cfg (Stream.ofBytes (l ++ Byte.nl :: s)) =
      .ok (unmarked cfg l ++ Byte.nl :: s) := by
  rw [prePasses_eq, if_neg hnul, hasBom_line, unmarked]
  cases hl : bomBytes.isPrefixOf l with
  | false =>
      rw [if_neg Bool.false_ne_true, if_neg (by rintro ⟨-, ⟨⟩⟩)]
  | true =>
      have hlen : 3 ≤ l.length := (List.isPrefixOf_iff_prefix.mp hl).length_le
      rw [if_pos rfl]
      cases hmode : cfg.bom with
      | strip =>
          rw [if_pos ⟨rfl, rfl⟩, ← List.drop_append_of_le_length hlen]
      | literal => rw [if_neg (by rintro ⟨⟨⟩, -⟩)]
      | reject => exact absurd hmode hbom

/-! ## Lines that fit, and lines that do not -/

theorem reports_of_long {f data : Bytes} (hpass : prePasses cfg (Stream.ofBytes f) = .ok data)
    (hlong : ∃ l ∈ Lines.lines Byte.nl data, workBuf ≤ l.length) :
    Reports backend cfg tag env f := by
  rw [reports_iff]
  refine ⟨data, hpass, ?_⟩
  refine tooLong_of_long _ _ _ [] _ (freads_pieces data _) List.not_mem_nil (by decide) ?_
  rwa [List.nil_append, reads_flatten]

theorem not_reports_of_fit (hcont : cfg.shellCont = false) {f : Bytes} (hfit : LinesFit f) :
    ¬ Reports backend cfg tag env f := by
  rw [reports_iff]
  rintro ⟨data, hpass, h⟩
  rw [hcont, streamEvents_off _ (linesFit_of_prePasses hfit hpass)] at h
  obtain ⟨q, -, hq⟩ := List.mem_map.mp h
  cases hq

theorem not_reports_of_short (hcont : cfg.shellCont = false) {f data : Bytes}
    (hpass : prePasses cfg (Stream.ofBytes f) = .ok data) (hlen : data.length ≤ workBuf)
    (hclosed : Lines.rest Byte.nl data = []) : ¬ Reports backend cfg tag env f := by
  have hall := freads_flatten data data.length le_rfl
  rw [reports_iff]
  rintro ⟨data', hpass', h⟩
  obtain rfl := Except.ok.inj (hpass.symm.trans hpass')
  rw [hcont] at h
  refine not_tooLong_of_short _ _ [] _ (freads_pieces data _) ?_ ?_ h
  · rwa [hall, List.length_nil, Nat.zero_add]
  · rwa [List.nil_append, hall]

theorem prePasses_newline {s : Bytes} (hnul : ¬ (cfg.nulReject = true ∧ Byte.nul ∈ Byte.nl :: s)) :
    prePasses cfg (Stream.ofBytes (Byte.nl :: s)) = .ok (Byte.nl :: s) := by
  rw [prePasses_eq, if_neg hnul]
  rfl

/-- Behind a piece's worth of newlines, less one, and in front of as many, a
line with more than 61440 bytes is too long. -/
theorem reports_of_fill {n : Nat} (hn : n + 1 = readBuf) {l : Bytes} (hl : Byte.nl ∉ l)
    (hlong : maxLine < l.length) (hnul : ¬ (cfg.nulReject = true ∧ Byte.nul ∈ l)) :
    Reports backend cfg tag env
      (List.replicate n Byte.nl ++ l ++ Byte.nl :: List.replicate n Byte.nl) := by
  have hread : readBuf = 4096 := rfl
  obtain ⟨m, rfl⟩ : ∃ m, n = m + 1 := ⟨n - 1, by omega⟩
  obtain ⟨c, l, rfl⟩ : ∃ c l', l = c :: l' := by
    cases l with
    | nil => exact absurd hlong (Nat.not_lt_zero _)
    | cons c l => exact ⟨c, l, rfl⟩
  rw [List.mem_cons, not_or] at hl
  let nls := List.replicate (m + 1) Byte.nl
  have hnls : Byte.nul ∉ nls := by
    intro h
    cases List.eq_of_mem_replicate h
  have hmem : ¬ (cfg.nulReject = true ∧ Byte.nul ∈ nls ++ c :: (l ++ Byte.nl :: nls)) := by
    rintro ⟨hreject, hmem⟩
    rcases List.mem_append.mp hmem with hmem | hmem
    · exact hnls hmem
    rcases List.mem_append.mp (show Byte.nul ∈ (c :: l) ++ Byte.nl :: nls from hmem) with h | h
    · exact hnul ⟨hreject, h⟩
    · rcases List.mem_cons.mp h with he | h
      · cases he
      · exact hnls h
  have hfile : nls ++ c :: l ++ Byte.nl :: nls = nls ++ c :: (l ++ Byte.nl :: nls) :=
    List.append_assoc ..
  have hlen : (nls ++ c :: (l ++ Byte.nl :: nls)).length =
      (l ++ Byte.nl :: nls).length + (m + 1) + 1 := by
    rw [List.length_append, List.length_replicate, List.length_cons]
    omega
  have hafter : (Byte.nl :: nls).length = readBuf := by
    rw [List.length_cons, List.length_replicate, hn]
  have hpass : prePasses cfg (Stream.ofBytes (nls ++ c :: (l ++ Byte.nl :: nls))) =
      .ok (nls ++ c :: (l ++ Byte.nl :: nls)) := prePasses_newline hmem
  show Reports backend cfg tag env (nls ++ c :: l ++ Byte.nl :: nls)
  rw [hfile, reports_iff]
  refine ⟨_, hpass, ?_⟩
  rw [streamEvents, Stream.ofBytes, hlen]
  refine tooLong_behind_newlines _ _ hn hl.1 ?_ _
  intro st
  refine tooLong_of_fill _ _ _ [c] l _ st ?_ hl.2 rfl ?_ ?_ hafter.ge (Nat.le_add_right _ _)
  · rw [List.mem_singleton]
    exact hl.1
  · exact Nat.succ_le_succ (Nat.zero_le _)
  · rw [List.length_cons] at hlong
    rw [List.length_singleton]
    omega

/-! ## The lines around a line -/

/-- Complete lines of at most 1000 bytes each. -/
structure ShortLines (s : Bytes) : Prop where
  complete : Lines.rest Byte.nl s = []
  short : ∀ l ∈ Lines.lines Byte.nl s, l.length ≤ 1000

theorem shortLines_unlines {ls : List Bytes} (h : ∀ l ∈ ls, Byte.nl ∉ l ∧ l.length ≤ 1000) :
    ShortLines (Lines.unlines Byte.nl ls) := by
  have hls : ∀ l ∈ ls, Byte.nl ∉ l := by
    intro l hl
    exact (h l hl).1
  have hcut := Lines.cut_unlines Byte.nl hls (r := []) List.not_mem_nil
  rw [List.append_nil] at hcut
  refine ⟨congrArg Prod.snd hcut, ?_⟩
  intro l hl
  rw [Lines.lines_unlines Byte.nl hls] at hl
  exact (h l hl).2

theorem shortLines_nil : ShortLines [] := ⟨rfl, fun _ h => absurd h List.not_mem_nil⟩

theorem shortLines_line {l : Bytes} (hl : Byte.nl ∉ l) (hlen : l.length ≤ 1000) :
    ShortLines (l ++ [Byte.nl]) := by
  have h : ∀ m ∈ [l], Byte.nl ∉ m ∧ m.length ≤ 1000 := by
    intro m hm
    rw [List.mem_singleton.mp hm]
    exact ⟨hl, hlen⟩
  have hs := shortLines_unlines h
  rwa [Lines.unlines_cons, Lines.unlines_nil] at hs

theorem shortLines_replicate (n : Nat) : ShortLines (List.replicate n Byte.nl) := by
  have h : ∀ l ∈ List.replicate n ([] : Bytes), Byte.nl ∉ l ∧ l.length ≤ 1000 := by
    intro l hl
    rw [List.eq_of_mem_replicate hl]
    exact ⟨List.not_mem_nil, Nat.zero_le _⟩
  have hs := shortLines_unlines h
  have hnls : Lines.unlines Byte.nl (List.replicate n []) = List.replicate n Byte.nl := by
    rw [Lines.unlines, List.map_replicate, List.nil_append]
    exact List.flatten_replicate_singleton
  rwa [hnls] at hs

theorem linesFit_between {p l s : Bytes} (hp : ShortLines p) (hs : ShortLines s)
    (hl : Byte.nl ∉ l) (hlen : l.length ≤ maxLine) : LinesFit (p ++ l ++ Byte.nl :: s) := by
  have hshort : 1000 ≤ maxLine := by decide
  intro m hm
  rw [List.append_assoc, Lines.lines_append_of_rest Byte.nl hp.complete,
    Lines.lines_line Byte.nl hl, List.mem_append, List.mem_cons] at hm
  rcases hm with hm | rfl | hm
  · exact (hp.short m hm).trans hshort
  · exact hlen
  · exact (hs.short m hm).trans hshort

/-- A line that is long enough without its BOM is too long wherever it is. -/
theorem reports_between (hnul : cfg.nulReject = false) (hbom : cfg.bom ≠ .reject) {p l : Bytes}
    (hp : ShortLines p) (hl : Byte.nl ∉ l) (hlong : workBuf ≤ (unmarked cfg l).length)
    (s : Bytes) : Reports backend cfg tag env (p ++ l ++ Byte.nl :: s) := by
  have hkeep := nul_kept hnul
  by_cases hfirst : Byte.nl ∈ p
  · -- the BOM that is taken off is another line's
    obtain ⟨first, p', rfl, hno⟩ := List.eq_append_cons_of_mem hfirst
    have hp' : Lines.rest Byte.nl p' = [] := by
      have h := hp.complete
      rwa [Lines.rest, Lines.cut_line Byte.nl hno] at h
    have hfile : first ++ Byte.nl :: p' ++ l ++ Byte.nl :: s =
        first ++ Byte.nl :: (p' ++ (l ++ Byte.nl :: s)) := by
      rw [List.append_assoc, List.append_assoc]
      rfl
    have hfirstLine : Byte.nl ∉ unmarked cfg first := by
      intro h
      exact hno ((unmarked_sublist first).subset h)
    rw [hfile]
    refine reports_of_long backend tag env (prePasses_line hbom (hkeep _)) ⟨l, ?_, ?_⟩
    · rw [Lines.lines_line Byte.nl hfirstLine, Lines.lines_append_of_rest Byte.nl hp',
        Lines.lines_line Byte.nl hl]
      exact List.mem_cons_of_mem _ (List.mem_append_right _ List.mem_cons_self)
    · exact hlong.trans (unmarked_sublist l).length_le
  · have hnil : p = [] := by
      have h := hp.complete
      rwa [Lines.rest_of_not_mem Byte.nl hfirst] at h
    have hline : Byte.nl ∉ unmarked cfg l := by
      intro h
      exact hl ((unmarked_sublist l).subset h)
    rw [hnil, List.nil_append]
    refine reports_of_long backend tag env (prePasses_line hbom (hkeep _)) ⟨_, ?_, hlong⟩
    rw [Lines.lines_line Byte.nl hline]
    exact List.mem_cons_self

/-- A line that is too long among all short lines: no NUL and no BOM before it
rejects the file. -/
theorem unrejected_of_reports {l : Bytes}
    (h : ∀ p s, ShortLines p → ShortLines s →
      Reports backend cfg tag env (p ++ l ++ Byte.nl :: s)) :
    cfg.nulReject = false ∧ cfg.bom ≠ .reject := by
  have hnul : cfg.nulReject = false := by
    rw [Bool.eq_false_iff]
    intro hreject
    have hp := shortLines_line (l := [Byte.nul]) (by decide) (by decide)
    have hpass : prePasses cfg (Stream.ofBytes ([Byte.nul] ++ [Byte.nl] ++ l ++ [Byte.nl])) =
        .error .fileNul := by
      rw [prePasses_eq, if_pos ⟨hreject, List.mem_cons_self⟩]
    exact not_reports_of_error backend tag env hpass (h _ [] hp shortLines_nil)
  refine ⟨hnul, ?_⟩
  intro hreject
  have hp := shortLines_line (l := bomBytes) (by decide) (by decide)
  have hpass : prePasses cfg (Stream.ofBytes (bomBytes ++ [Byte.nl] ++ l ++ [Byte.nl])) =
      .error .fileBom := by
    have hmark : bomBytes.isPrefixOf (bomBytes ++ [Byte.nl] ++ l ++ [Byte.nl]) = true := rfl
    rw [prePasses_eq, if_neg (nul_kept hnul _), if_pos hmark, hreject]
  exact not_reports_of_error backend tag env hpass (h _ [] hp shortLines_nil)

theorem long_of_reports (hcont : cfg.shellCont = false) (hnul : cfg.nulReject = false)
    (hbom : cfg.bom ≠ .reject) {l : Bytes} (h : Reports backend cfg tag env (l ++ [Byte.nl])) :
    workBuf ≤ (unmarked cfg l).length := by
  by_contra hshort
  have hpass := prePasses_line hbom (nul_kept hnul (l ++ [Byte.nl]))
  refine not_reports_of_short backend tag env hcont hpass ?_ (Lines.rest_concat Byte.nl _) h
  rw [List.length_append, List.length_singleton]
  omega

/-- With continuation off, the lines around a line have no say in whether it is
too long exactly when it has at most 61440 bytes, or a NUL that rejects the
file, or at least 65536 bytes in a file that nothing can reject. -/
theorem tooLong_iff (hcont : cfg.shellCont = false) {l : Bytes} (hl : Byte.nl ∉ l) :
    (∀ p₁ p₂ s₁ s₂, ShortLines p₁ → ShortLines p₂ → ShortLines s₁ → ShortLines s₂ →
      (Reports backend cfg tag env (p₁ ++ l ++ Byte.nl :: s₁) ↔
        Reports backend cfg tag env (p₂ ++ l ++ Byte.nl :: s₂))) ↔
    l.length ≤ maxLine ∨ (cfg.nulReject = true ∧ Byte.nul ∈ l) ∨
      (cfg.nulReject = false ∧ cfg.bom ≠ .reject ∧ workBuf ≤ (unmarked cfg l).length) := by
  constructor
  · intro h
    rcases Nat.lt_or_ge maxLine l.length with hlong | hfit
    swap
    · exact Or.inl hfit
    by_cases hnul : cfg.nulReject = true ∧ Byte.nul ∈ l
    · exact Or.inr (Or.inl hnul)
    -- there are lines around it with which it is too long, so it always is
    have hnls := shortLines_replicate 4095
    have hreports := reports_of_fill backend tag env (n := 4095) rfl hl hlong hnul
    have hall : ∀ p s, ShortLines p → ShortLines s →
        Reports backend cfg tag env (p ++ l ++ Byte.nl :: s) := by
      intro p s hp hs
      exact (h _ p _ s hnls hp hnls hs).mp hreports
    obtain ⟨hnulOff, hbomOff⟩ := unrejected_of_reports backend tag env hall
    refine Or.inr (Or.inr ⟨hnulOff, hbomOff, ?_⟩)
    exact long_of_reports backend tag env hcont hnulOff hbomOff
      (hall [] [] shortLines_nil shortLines_nil)
  · rintro (hfit | hnul | ⟨hnul, hbom, hlong⟩) p₁ p₂ s₁ s₂ hp₁ hp₂ hs₁ hs₂
    · exact iff_of_false
        (not_reports_of_fit backend tag env hcont (linesFit_between hp₁ hs₁ hl hfit))
        (not_reports_of_fit backend tag env hcont (linesFit_between hp₂ hs₂ hl hfit))
    · have hpass : ∀ p s, prePasses cfg (Stream.ofBytes (p ++ l ++ Byte.nl :: s)) =
          .error .fileNul := by
        intro p s
        rw [prePasses_eq, if_pos]
        exact ⟨hnul.1, List.mem_append_left _ (List.mem_append_right _ hnul.2)⟩
      exact iff_of_false (not_reports_of_error backend tag env (hpass p₁ s₁))
        (not_reports_of_error backend tag env (hpass p₂ s₂))
    · exact iff_of_true (reports_between backend tag env hnul hbom hp₁ hl hlong s₁)
        (reports_between backend tag env hnul hbom hp₂ hl hlong s₂)

/-- A line of one byte more than always fits. -/
def edgeLine : Bytes := List.replicate 61441 65

theorem mem_edgeLine {c : UInt8} (h : c ∈ edgeLine) : c = 65 := List.eq_of_mem_replicate h

theorem nl_not_mem_edgeLine : Byte.nl ∉ edgeLine := by
  intro h
  cases mem_edgeLine h

theorem tooLong_iff_edgeLine :
    (∀ p₁ p₂ s₁ s₂, ShortLines p₁ → ShortLines p₂ → ShortLines s₁ → ShortLines s₂ →
      (Reports .c .default [] .zero (p₁ ++ edgeLine ++ Byte.nl :: s₁) ↔
        Reports .c .default [] .zero (p₂ ++ edgeLine ++ Byte.nl :: s₂))) ↔
    edgeLine.length ≤ maxLine ∨ (Config.default.nulReject = true ∧ Byte.nul ∈ edgeLine) ∨
      (Config.default.nulReject = false ∧ Config.default.bom ≠ .reject ∧
        workBuf ≤ (unmarked .default edgeLine).length) :=
  tooLong_iff .c [] .zero rfl nl_not_mem_edgeLine

/-- It is too long between 4095 empty lines and 4095 more, and not by itself. -/
theorem edgeLine_depends :
    ShortLines (List.replicate 4095 Byte.nl) ∧ Byte.nl ∉ edgeLine ∧
      Reports .c .default [] .zero
        (List.replicate 4095 Byte.nl ++ edgeLine ++ Byte.nl :: List.replicate 4095 Byte.nl) ∧
      ¬ Reports .c .default [] .zero (edgeLine ++ [Byte.nl]) := by
  have hnul : ∀ s : Bytes, (∀ c ∈ s, c ≠ Byte.nul) →
      ¬ (Config.default.nulReject = true ∧ Byte.nul ∈ s) := by
    intro s hs h
    exact hs _ h.2 rfl
  have hlength : edgeLine.length = 61441 := List.length_replicate
  refine ⟨shortLines_replicate 4095, nl_not_mem_edgeLine, ?_, ?_⟩
  · refine reports_of_fill .c [] .zero rfl nl_not_mem_edgeLine ?_ (hnul _ ?_)
    · rw [hlength]
      decide
    · intro c hc
      rw [mem_edgeLine hc]
      decide
  · have hkeep : ¬ (Config.default.nulReject = true ∧ Byte.nul ∈ edgeLine ++ [Byte.nl]) := by
      refine hnul _ ?_
      intro c hc
      rcases List.mem_append.mp hc with hc | hc
      · rw [mem_edgeLine hc]
        decide
      · rw [List.mem_singleton.mp hc]
        decide
    refine not_reports_of_short .c [] .zero rfl (prePasses_line (by decide) hkeep) ?_ ?_
    · have hle := (@unmarked_sublist .default edgeLine).length_le
      rw [hlength] at hle
      have hwork : workBuf = 65536 := rfl
      rw [List.length_append, List.length_singleton]
      omega
    · exact Lines.rest_concat Byte.nl _

end Reports

end Envfile.C
