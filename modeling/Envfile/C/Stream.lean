/-
# `Envfile.C.Stream` — what the reading loop delivers

The loop sees the file in pieces of at most 4096 bytes, keeps the part after
the last newline at the front of a 64 KiB window, and cuts the rest into lines
at offsets.  `streamEvents_eq` says what comes of it when no line is longer
than 61440 bytes, the window less one piece: `lineStep` on the lines of the
file, one after the other, wherever the pieces were cut.

The invariant that carries the induction over the pieces: what is kept in the
window is what follows the last newline read so far (`Lines.rest`), which is
the start of one line of the file and therefore leaves room for one piece.

With continuation off the loop numbers the lines; with it on it joins them
(`Envfile.C.Join`).
-/
import Envfile.C.Frontend
import Envfile.C.Classify
import Envfile.Continuation

namespace Envfile.C

/-- `WORK_BUF - READ_BUF`: a line of this length leaves room for one more
`fread`. -/
def maxLine : Nat := workBuf - readBuf

/-- Every line of a file fits. -/
def LinesFit (f : Bytes) : Prop := ∀ l ∈ Lines.lines Byte.nl f, l.length ≤ maxLine

instance (f : Bytes) : Decidable (LinesFit f) :=
  inferInstanceAs (Decidable (∀ l ∈ Lines.lines Byte.nl f, l.length ≤ maxLine))

variable (stripCr shellCont : Bool)

/-- `lineStep` on lines, each with whether a newline closes it. -/
def linesLoop : List (Bytes × Bool) → LoopState → LoopState × List StreamEvent
  | [], st => (st, [])
  | (line, nl) :: ls, st =>
    let this := lineStep stripCr shellCont line nl st
    let next := linesLoop ls this.1
    (next.1, this.2 ++ next.2)

theorem linesLoop_append (ls ms : List (Bytes × Bool)) (st : LoopState) :
    linesLoop stripCr shellCont (ls ++ ms) st =
      ((linesLoop stripCr shellCont ms (linesLoop stripCr shellCont ls st).1).1,
        (linesLoop stripCr shellCont ls st).2 ++
          (linesLoop stripCr shellCont ms (linesLoop stripCr shellCont ls st).1).2) := by
  induction ls generalizing st with
  | nil => rfl
  | cons p ls ih =>
      rw [List.cons_append, linesLoop, linesLoop, ih]
      simp only [List.append_assoc]

/-! ## Cutting the window into lines -/

/-- The inner loop consumes the lines of `work[pos .. limit)`. -/
theorem lineLoop_eq {work : Bytes} {limit : Nat} (hlimit : limit ≤ work.length) :
    ∀ (rounds pos : Nat) (st : LoopState), limit - pos ≤ rounds →
      lineLoop stripCr shellCont work limit rounds pos st =
        linesLoop stripCr shellCont
          (Lines.records Byte.nl (bytesAt work pos (limit - pos))) st := by
  intro rounds
  induction rounds with
  | zero =>
      intro pos st hrounds
      have hempty : bytesAt work pos (limit - pos) = [] := by
        rw [Nat.le_zero.mp hrounds, bytesAt_zero]
      rw [hempty]
      rfl
  | succ rounds ih =>
      intro pos st hrounds
      rw [lineLoop]
      by_cases hpos : pos < limit
      · have hlen : (bytesAt work pos (limit - pos)).length = limit - pos := by
          rw [bytesAt, List.length_take, List.length_drop]
          omega
        rw [if_pos hpos]
        rcases split_first Byte.nl (bytesAt work pos (limit - pos)) with hno | ⟨l, rest, hcut, hl⟩
        · -- the last line, which no newline closes
          have hne : bytesAt work pos (limit - pos) ≠ [] := by
            intro he
            rw [he] at hlen
            exact absurd hlen (by simp; omega)
          have hend := ih limit (lineStep stripCr shellCont
            (bytesAt work pos (limit - pos)) false st).1 (by omega)
          rw [Nat.sub_self, bytesAt_zero] at hend
          rw [memchr_eq_none.mpr hno, Lines.records_of_not_mem Byte.nl hno hne]
          simp only [Option.map_none, Option.getD_none, Option.isSome_none, Bool.false_eq_true,
            if_false, hend]
          rfl
        · -- a line and the newline that closes it
          have hrest : bytesAt work (pos + l.length + 1) (limit - (pos + l.length + 1)) = rest := by
            have hdrop : (bytesAt work pos (limit - pos)).drop (l.length + 1) = rest := by
              rw [hcut, drop_after]
            rw [← hdrop, bytesAt, bytesAt, List.drop_take, List.drop_drop]
            congr 1
            omega
          have hline : bytesAt work pos l.length = l := by
            have htake : (bytesAt work pos (limit - pos)).take l.length = l := by
              rw [hcut, take_before]
            have hle : l.length ≤ limit - pos := by
              rw [← hlen, hcut, List.length_append]
              omega
            rw [bytesAt, List.take_take, Nat.min_eq_left hle] at htake
            exact htake
          have hnext := ih (pos + l.length + 1) (lineStep stripCr shellCont l true st).1 (by omega)
          rw [hrest] at hnext
          rw [hcut, memchr_append hl, Lines.records_line Byte.nl hl]
          simp only [Option.map_some, Option.getD_some, Option.isSome_some, if_true,
            Nat.add_sub_cancel_left, hline, hnext]
          rfl
      · have hempty : bytesAt work pos (limit - pos) = [] := by
          rw [Nat.sub_eq_zero_of_le (Nat.le_of_not_lt hpos), bytesAt_zero]
        rw [if_neg hpos, hempty]
        rfl

theorem findLastNewline_none {buf : Bytes} (h : Byte.nl ∉ buf) : findLastNewline buf = none := by
  rw [findLastNewline, memchr_eq_none.mpr (by rwa [List.mem_reverse])]
  rfl

theorem findLastNewline_some {r : Bytes} (h : Byte.nl ∉ r) (u : Bytes) :
    findLastNewline (u ++ Byte.nl :: r) = some u.length := by
  have hrev : (u ++ Byte.nl :: r).reverse = r.reverse ++ Byte.nl :: u.reverse := by simp
  rw [findLastNewline, hrev, memchr_append (by rwa [List.mem_reverse]), Option.map_some,
    List.length_append, List.length_cons, List.length_reverse]
  congr 1
  omega

theorem findLastNewline_cases (buf : Bytes) :
    (Byte.nl ∉ buf ∧ findLastNewline buf = none) ∨
    ∃ u r, buf = u ++ Byte.nl :: r ∧ Byte.nl ∉ r ∧ findLastNewline buf = some u.length := by
  by_cases h : Byte.nl ∈ buf
  · obtain ⟨u, r, rfl, hr⟩ := Lines.split_last Byte.nl h
    exact Or.inr ⟨u, r, rfl, hr, findLastNewline_some hr u⟩
  · exact Or.inl ⟨h, findLastNewline_none h⟩

/-! ## The reading loop -/

/-- Pieces as `fread` returns them before the end of a file. -/
def Pieces (reads : List Bytes) : Prop := ∀ chunk ∈ reads, chunk ≠ [] ∧ chunk.length ≤ readBuf

theorem lineLoop_front (u r : Bytes) (st : LoopState) :
    lineLoop stripCr shellCont ((u ++ [Byte.nl]) ++ r) (u.length + 1) (u.length + 1) 0 st =
      linesLoop stripCr shellCont (Lines.records Byte.nl (u ++ [Byte.nl])) st := by
  have hlen : (u ++ [Byte.nl]).length = u.length + 1 := by rw [List.length_append]; rfl
  have hlimit : u.length + 1 ≤ ((u ++ [Byte.nl]) ++ r).length := by
    rw [List.length_append, hlen]
    exact Nat.le_add_right _ _
  have hfront : bytesAt ((u ++ [Byte.nl]) ++ r) 0 (u.length + 1 - 0) = u ++ [Byte.nl] := by
    rw [bytesAt, List.drop_zero, Nat.sub_zero]
    exact List.take_left' hlen
  rw [lineLoop_eq stripCr shellCont hlimit _ 0 st (Nat.sub_le _ _), hfront]

/-- What a round does that reads a piece: it gives up, keeps all of the window,
or cuts it at its last newline. -/
theorem readLoop_cons {chunk : Bytes} (hne : chunk ≠ []) (err : Bool) (reads : List Bytes)
    (tail : Bytes) (st : LoopState) :
    ((workBuf < (tail ++ chunk).length ∨
        (tail ++ chunk).length = workBuf ∧ Byte.nl ∉ tail ++ chunk) ∧
      readLoop stripCr shellCont err (chunk :: reads) tail st = [.tooLong]) ∨
    (((tail ++ chunk).length < workBuf ∧ Byte.nl ∉ tail ++ chunk) ∧
      readLoop stripCr shellCont err (chunk :: reads) tail st =
        readLoop stripCr shellCont err reads (tail ++ chunk) st) ∨
    ∃ u r, ((tail ++ chunk).length ≤ workBuf ∧ tail ++ chunk = (u ++ [Byte.nl]) ++ r ∧
        Byte.nl ∉ r) ∧
      readLoop stripCr shellCont err (chunk :: reads) tail st =
        (linesLoop stripCr shellCont (Lines.records Byte.nl (u ++ [Byte.nl])) st).2 ++
          readLoop stripCr shellCont err reads r
            (linesLoop stripCr shellCont (Lines.records Byte.nl (u ++ [Byte.nl])) st).1 := by
  have hlen : (tail ++ chunk).length = tail.length + chunk.length := List.length_append
  rw [readLoop, if_neg (by rwa [List.isEmpty_iff]), ← hlen]
  rcases Nat.lt_or_ge workBuf (tail ++ chunk).length with hover | hfits
  · exact Or.inl ⟨Or.inl hover, if_pos hover⟩
  rw [if_neg (Nat.not_lt.mpr hfits)]
  rcases findLastNewline_cases (tail ++ chunk) with ⟨hno, hnone⟩ | ⟨u, r, hwork, hr, hsome⟩
  · simp only [hnone]
    rcases eq_or_lt_of_le hfits with hfull | hroom
    · exact Or.inl ⟨Or.inr ⟨hfull, hno⟩, if_pos (beq_iff_eq.mpr hfull)⟩
    · exact Or.inr (Or.inl ⟨⟨hroom, hno⟩, if_neg (mt beq_iff_eq.mp hroom.ne)⟩)
  · have hkept : (tail ++ chunk).drop (u.length + 1) = r := by rw [hwork, drop_after]
    have hcut : tail ++ chunk = (u ++ [Byte.nl]) ++ r := by
      rw [hwork, List.append_assoc]
      rfl
    simp only [hsome, hkept]
    rw [hcut, lineLoop_front]
    exact Or.inr (Or.inr ⟨u, r, ⟨hcut ▸ hfits, rfl, hr⟩, rfl⟩)

/-- The round that reads nothing takes the rest for a line. -/
theorem lastRound_eq (tail : Bytes) (st : LoopState) :
    lastRound stripCr shellCont false tail st =
      (linesLoop stripCr shellCont (Lines.records Byte.nl tail) st).2 := by
  rw [lastRound, if_neg Bool.false_ne_true]
  cases tail with
  | nil => rfl
  | cons c s =>
      have hall : bytesAt (c :: s) 0 ((c :: s).length - 0) = c :: s := bytesAt_all _
      rw [lineLoop_eq stripCr shellCont le_rfl _ 0 st (Nat.sub_le _ _), hall]
      rfl

theorem tail_fits {tail more : Bytes} (hmore : tail ≠ [] → LinesFit (tail ++ more))
    (htail : Byte.nl ∉ tail) : tail.length ≤ maxLine := by
  by_cases h : tail = []
  · rw [h]
    exact Nat.zero_le _
  · have hrest := Lines.rest_of_not_mem Byte.nl htail
    obtain ⟨l, hl, hpre⟩ := Lines.rest_prefix_line Byte.nl tail more (by rwa [hrest])
    rw [hrest] at hpre
    exact le_trans hpre.length_le (hmore h l hl)

theorem readLoop_eq (reads : List Bytes) : ∀ (tail : Bytes) (st : LoopState), Pieces reads →
    Byte.nl ∉ tail → LinesFit (tail ++ reads.flatten) →
    readLoop stripCr shellCont false reads tail st =
      (linesLoop stripCr shellCont (Lines.records Byte.nl (tail ++ reads.flatten)) st).2 := by
  have hmax : maxLine + readBuf = workBuf := rfl
  induction reads with
  | nil =>
      intro tail st _ _ _
      rw [List.flatten_nil, List.append_nil]
      exact lastRound_eq stripCr shellCont tail st
  | cons chunk reads ih =>
      intro tail st hpieces htail hfit
      obtain ⟨hne, hlen⟩ := hpieces chunk List.mem_cons_self
      have hpieces' : Pieces reads := fun c hc => hpieces c (List.mem_cons_of_mem _ hc)
      have hroom : tail.length ≤ maxLine := tail_fits (fun _ => hfit) htail
      rw [List.flatten_cons, ← List.append_assoc] at hfit ⊢
      rcases readLoop_cons stripCr shellCont hne false reads tail st with
        ⟨hgiveUp, -⟩ | ⟨⟨-, hno⟩, hround⟩ | ⟨u, r, ⟨-, hcut, hr⟩, hround⟩
      · -- the window has room for a piece, and one without a newline is not full
        exfalso
        rcases hgiveUp with hover | ⟨hfull, hno⟩
        · rw [List.length_append] at hover
          omega
        · have hkept : (tail ++ chunk).length ≤ maxLine := tail_fits (fun _ => hfit) hno
          have hlt : maxLine < workBuf := by decide
          omega
      · rw [hround]
        exact ih (tail ++ chunk) st hpieces' hno hfit
      · have hrest := Lines.rest_concat Byte.nl u
        have hfit' : LinesFit (r ++ reads.flatten) := by
          intro l hl
          refine hfit l ?_
          rw [hcut, List.append_assoc, Lines.lines_append_of_rest Byte.nl hrest]
          exact List.mem_append_right _ hl
        rw [hround, ih r _ hpieces' hr hfit', hcut, List.append_assoc,
          Lines.records_append_of_rest Byte.nl hrest, linesLoop_append]

theorem freads_pieces (f : Bytes) (calls : Nat) : Pieces (freads f calls) := by
  induction calls generalizing f with
  | zero => exact fun _ h => absurd h List.not_mem_nil
  | succ calls ih =>
      rw [freads]
      intro chunk hchunk
      cases f with
      | nil => exact absurd hchunk List.not_mem_nil
      | cons c s =>
          rw [if_neg (by simp)] at hchunk
          rcases List.mem_cons.mp hchunk with rfl | hchunk
          · refine ⟨by simp [readBuf], List.length_take_le _ _⟩
          · exact ih _ chunk hchunk

theorem freads_flatten (f : Bytes) (calls : Nat) (h : f.length ≤ calls) :
    (freads f calls).flatten = f := by
  induction calls generalizing f with
  | zero => rw [List.eq_nil_of_length_eq_zero (Nat.le_zero.mp h)]; rfl
  | succ calls ih =>
      rw [freads]
      cases f with
      | nil => rfl
      | cons c s =>
          have hdrop : ((c :: s).drop readBuf).length ≤ calls := by
            rw [List.length_drop]
            have : 0 < readBuf := by decide
            omega
          rw [if_neg (by simp), List.flatten_cons, ih _ hdrop, List.take_append_drop]

theorem streamEvents_eq {f : Bytes} (hfit : LinesFit f) :
    streamEvents stripCr shellCont (Stream.ofBytes f) =
      (linesLoop stripCr shellCont (Lines.records Byte.nl f) ⟨0, []⟩).2 := by
  have hall := freads_flatten f f.length le_rfl
  have := readLoop_eq stripCr shellCont (freads f f.length) [] ⟨0, []⟩ (freads_pieces f _)
    List.not_mem_nil (by rwa [List.nil_append, hall])
  rwa [List.nil_append, hall] at this

/-! ## CR stripping -/

/-- A line as it is handed on. -/
def strip (line : Bytes) : Bytes := if stripCr then trimCr line else line

theorem strip_sublist (line : Bytes) : (strip stripCr line).Sublist line := by
  rw [strip]
  split
  · rw [trimCr]
    split
    · exact List.dropLast_sublist line
    · exact List.Sublist.refl line
  · exact List.Sublist.refl line

theorem lineStep_strip (line : Bytes) (nl : Bool) (st : LoopState) :
    lineStep stripCr shellCont line nl st =
      lineStep false shellCont (strip stripCr line) nl st := by
  have hplain : ∀ l : Bytes, l.take l.length = l := fun l => List.take_length
  cases stripCr with
  | false => rfl
  | true =>
      have hlen : (if true && line.length > 0 && byteAt line (line.length - 1) == Byte.cr
          then line.length - 1 else line.length) = lenWithoutCr line := rfl
      have hstrip : strip true line = trimCr line := rfl
      rw [lineStep, lineStep, hlen, take_lenWithoutCr, hstrip]
      simp only [Bool.false_and, Bool.false_eq_true, if_false, hplain]

theorem linesLoop_strip (ls : List Bytes) (closed : Bool) (st : LoopState) :
    linesLoop stripCr shellCont (Lines.mark closed ls) st =
      linesLoop false shellCont (Lines.mark closed (ls.map (strip stripCr))) st := by
  induction ls generalizing st with
  | nil => rfl
  | cons l ls ih =>
      cases ls with
      | nil =>
          rw [Lines.mark, List.map_singleton, Lines.mark, linesLoop, linesLoop, lineStep_strip]
          rfl
      | cons m ls =>
          rw [List.map_cons, List.map_cons, Lines.mark, Lines.mark, linesLoop, linesLoop,
            lineStep_strip, ih, List.map_cons]

/-! ## What is handed on -/

/-- Lines with their numbers, as the loop body gets them. -/
def lineEvents (ls : List (Bytes × Nat)) : List StreamEvent := ls.map fun p => .line p.1 p.2

theorem lineStep_off (line : Bytes) (nl : Bool) (st : LoopState) :
    lineStep false false line nl st = (⟨st.lineNo + 1, st.join⟩, [.line line (st.lineNo + 1)]) := by
  simp only [lineStep, Bool.false_and, Bool.false_eq_true, if_false, List.take_length]

theorem linesLoop_off (ls : List Bytes) (closed : Bool) (st : LoopState) :
    (linesLoop false false (Lines.mark closed ls) st).2 =
      lineEvents (Lines.number st.lineNo ls) := by
  induction ls generalizing st with
  | nil => rfl
  | cons l ls ih =>
      cases ls with
      | nil => rw [Lines.mark, linesLoop, lineStep_off]; rfl
      | cons m ls =>
          rw [Lines.mark, linesLoop, lineStep_off]
          simp only [ih]
          rfl

/-- The logical lines that are handed on: all of them, unless the last one goes
on after the last newline. -/
def logicalLines (closed : Bool) (acc : Bytes) (n : Nat) (ls : List Bytes) : List (Bytes × Nat) :=
  if closed && pending acc ls then (joinFrom acc n ls).dropLast else joinFrom acc n ls

theorem lineStep_on {line : Bytes} {nl : Bool} {st : LoopState}
    (hfit : st.join.length + line.length ≤ workBuf) :
    lineStep false true line nl st =
      if continues (st.join ++ line) && nl then
        (⟨st.lineNo + 1, (st.join ++ line).dropLast⟩, [])
      else (⟨st.lineNo + 1, []⟩, [.line (st.join ++ line) (st.lineNo + 1)]) := by
  have hcont : (trailingBackslashes (st.join ++ line) % 2 == 1) = continues (st.join ++ line) := rfl
  simp only [lineStep, Bool.false_and, Bool.false_eq_true, if_false, List.take_length, if_true]
  rw [if_neg (by omega), hcont, List.dropLast_eq_take]

theorem lineStep_over {line : Bytes} {st : LoopState}
    (h : workBuf < st.join.length + line.length) (nl : Bool) :
    lineStep false true line nl st = (⟨st.lineNo + 1, []⟩, [.tooLong]) := by
  simp only [lineStep, Bool.false_and, Bool.false_eq_true, if_false, List.take_length, if_true]
  rw [if_pos h]

theorem joinFrom_ne_nil (acc : Bytes) (n : Nat) : ∀ {ls : List Bytes}, ls ≠ [] →
    joinFrom acc n ls ≠ []
  | [], h => absurd rfl h
  | [_], _ => List.cons_ne_nil _ _
  | l :: m :: ls, _ => by
      rw [joinFrom]
      exact List.append_ne_nil_of_right_ne_nil _ (joinFrom_ne_nil _ _ (List.cons_ne_nil m ls))

/-- With continuation on, the lines are joined. -/
theorem linesLoop_on (ls : List Bytes) (closed : Bool) {st : LoopState}
    (hjoin : continues st.join = false)
    (hfit : ∀ q ∈ joinFrom st.join st.lineNo ls, q.1.length ≤ maxLine) :
    (linesLoop false true (Lines.mark closed ls) st).2 =
      lineEvents (logicalLines closed st.join st.lineNo ls) := by
  have hroom : maxLine + 1 ≤ workBuf := by decide
  induction ls generalizing st with
  | nil => rw [logicalLines]; split <;> rfl
  | cons l ls ih =>
      cases ls with
      | nil =>
          have hlen : (st.join ++ l).length ≤ maxLine := hfit _ (List.mem_singleton_self _)
          rw [List.length_append] at hlen
          rw [Lines.mark, linesLoop, lineStep_on (by omega), logicalLines, pending, joinFrom,
            Bool.and_comm closed]
          split <;> rfl
      | cons m ls =>
          have hnext : continues (gathered st.join l) = false := continues_gathered _ _
          have hfit' : ∀ q ∈ joinFrom (gathered st.join l) (st.lineNo + 1) (m :: ls),
              q.1.length ≤ maxLine := by
            intro q hq
            refine hfit q ?_
            rw [joinFrom]
            exact List.mem_append_right _ hq
          have hlen : st.join.length + l.length ≤ workBuf := by
            cases hcont : continues (st.join ++ l) with
            | false =>
                have : (st.join ++ l).length ≤ maxLine := by
                  refine hfit (st.join ++ l, st.lineNo + 1) ?_
                  rw [joinFrom, hcont]
                  exact List.mem_append_left _ (List.mem_singleton_self _)
                rw [List.length_append] at this
                omega
            | true =>
                obtain ⟨q, hq, hpre⟩ := joinFrom_prefix (n := st.lineNo + 1) hnext
                  (List.cons_ne_nil m ls)
                have := le_trans hpre.length_le (hfit' q hq)
                rw [gathered, if_pos hcont, List.length_dropLast, List.length_append] at this
                omega
          have hstep : lineStep false true l true st =
              (⟨st.lineNo + 1, gathered st.join l⟩,
                lineEvents (if continues (st.join ++ l) then []
                  else [(st.join ++ l, st.lineNo + 1)])) := by
            rw [lineStep_on hlen, Bool.and_true, gathered]
            split <;> rfl
          have hne := joinFrom_ne_nil (gathered st.join l) (st.lineNo + 1) (List.cons_ne_nil m ls)
          have hrest := @ih ⟨st.lineNo + 1, gathered st.join l⟩ hnext hfit'
          rw [Lines.mark, linesLoop, hstep]
          simp only [hrest]
          rw [logicalLines, logicalLines, pending, joinFrom, lineEvents, lineEvents, lineEvents,
            ← List.map_append, List.dropLast_append_of_ne_nil hne]
          cases closed && pending (gathered st.join l) (m :: ls) <;> rfl

/-! ## Lines have no newline -/

/-- A line without a newline. -/
def StreamEvent.NlFree : StreamEvent → Prop
  | .line bytes _ => Byte.nl ∉ bytes
  | .tooLong | .unreadable => True

section NlFree

variable {stripCr shellCont : Bool}

theorem lineStep_nlFree {line : Bytes} (hline : Byte.nl ∉ line) (nl : Bool) {st : LoopState}
    (hjoin : Byte.nl ∉ st.join) :
    Byte.nl ∉ (lineStep stripCr shellCont line nl st).1.join ∧
      ∀ e ∈ (lineStep stripCr shellCont line nl st).2, e.NlFree := by
  have hstrip : Byte.nl ∉ strip stripCr line := fun h => hline ((strip_sublist _ _).subset h)
  have happend : Byte.nl ∉ st.join ++ strip stripCr line :=
    fun h => (List.mem_append.mp h).elim hjoin hstrip
  have hnil : Byte.nl ∉ ([] : Bytes) := List.not_mem_nil
  rw [lineStep_strip]
  cases shellCont with
  | false =>
      rw [lineStep_off]
      exact ⟨hjoin, fun e he => List.mem_singleton.mp he ▸ hstrip⟩
  | true =>
      simp only [lineStep, Bool.false_and, Bool.false_eq_true, if_false, List.take_length, if_true]
      split
      · exact ⟨hnil, fun e he => List.mem_singleton.mp he ▸ trivial⟩
      split
      · exact ⟨fun h => happend (List.mem_of_mem_take h), fun e he => absurd he List.not_mem_nil⟩
      · exact ⟨hnil, fun e he => List.mem_singleton.mp he ▸ happend⟩

theorem linesLoop_nlFree {ls : List (Bytes × Bool)} (hls : ∀ p ∈ ls, Byte.nl ∉ p.1)
    {st : LoopState} (hjoin : Byte.nl ∉ st.join) :
    Byte.nl ∉ (linesLoop stripCr shellCont ls st).1.join ∧
      ∀ e ∈ (linesLoop stripCr shellCont ls st).2, e.NlFree := by
  induction ls generalizing st with
  | nil => exact ⟨hjoin, fun e he => absurd he List.not_mem_nil⟩
  | cons p ls ih =>
      obtain ⟨hthis, hevents⟩ := lineStep_nlFree (hls p List.mem_cons_self) p.2 hjoin
      obtain ⟨hnext, hmore⟩ := ih (fun q hq => hls q (List.mem_cons_of_mem _ hq)) hthis
      refine ⟨hnext, fun e he => ?_⟩
      exact (List.mem_append.mp he).elim (hevents e) (hmore e)

theorem records_nlFree {f : Bytes} {st : LoopState} (hjoin : Byte.nl ∉ st.join) :
    Byte.nl ∉ (linesLoop stripCr shellCont (Lines.records Byte.nl f) st).1.join ∧
      ∀ e ∈ (linesLoop stripCr shellCont (Lines.records Byte.nl f) st).2, e.NlFree := by
  refine linesLoop_nlFree (fun p hp => ?_) hjoin
  rw [Lines.records_eq_mark] at hp
  exact Lines.sep_not_mem_lines Byte.nl (Lines.mem_of_mem_mark hp)

theorem lastRound_nlFree {err : Bool} {tail : Bytes} {st : LoopState}
    (hjoin : Byte.nl ∉ st.join) :
    ∀ e ∈ lastRound stripCr shellCont err tail st, e.NlFree := by
  cases err with
  | true => exact fun e he => List.mem_singleton.mp he ▸ trivial
  | false =>
      rw [lastRound_eq]
      exact (records_nlFree hjoin).2

theorem readLoop_nlFree {err : Bool} {reads : List Bytes} {tail : Bytes} {st : LoopState}
    (hjoin : Byte.nl ∉ st.join) :
    ∀ e ∈ readLoop stripCr shellCont err reads tail st, e.NlFree := by
  induction reads generalizing tail st with
  | nil => exact lastRound_nlFree hjoin
  | cons chunk reads ih =>
      rcases eq_or_ne chunk [] with rfl | hne
      · rw [readLoop, if_pos List.isEmpty_nil]
        exact lastRound_nlFree hjoin
      rcases readLoop_cons stripCr shellCont hne err reads tail st with
        ⟨-, hround⟩ | ⟨-, hround⟩ | ⟨u, r, -, hround⟩
      · rw [hround]
        exact fun e he => List.mem_singleton.mp he ▸ trivial
      · rw [hround]
        exact ih hjoin
      · obtain ⟨hnext, hevents⟩ :=
          @records_nlFree stripCr shellCont (u ++ [Byte.nl]) st hjoin
        rw [hround]
        intro e he
        exact (List.mem_append.mp he).elim (hevents e) (ih hnext e)

theorem streamEvents_nlFree (f : Stream) :
    ∀ e ∈ streamEvents stripCr shellCont f, e.NlFree :=
  readLoop_nlFree List.not_mem_nil

end NlFree

/-! ## The events of a file -/

theorem streamEvents_off {f : Bytes} (hfit : LinesFit f) :
    streamEvents stripCr false (Stream.ofBytes f) =
      lineEvents (Lines.number 0 ((Lines.lines Byte.nl f).map (strip stripCr))) := by
  rw [streamEvents_eq stripCr false hfit, Lines.records_eq_mark, linesLoop_strip, linesLoop_off]

theorem streamEvents_on {f : Bytes} (hfit : LinesFit f)
    (hjoined : ∀ q ∈ joinFrom [] 0 ((Lines.lines Byte.nl f).map (strip stripCr)),
      q.1.length ≤ maxLine) :
    streamEvents stripCr true (Stream.ofBytes f) =
      lineEvents (logicalLines (decide (Lines.rest Byte.nl f = [])) [] 0
        ((Lines.lines Byte.nl f).map (strip stripCr))) := by
  rw [streamEvents_eq stripCr true hfit, Lines.records_eq_mark, linesLoop_strip,
    linesLoop_on _ _ rfl hjoined]

end Envfile.C
