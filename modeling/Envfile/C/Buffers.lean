/-
# `Envfile.C.Buffers` — the reading loop over its buffers

`scan_stream` and `normalize_stream` once more, statement by statement: with
`work_buf` and `join_buf` as fixed buffers whose first contents are arbitrary,
with offsets in place of slices, and with every access to a buffer, every
difference of two sizes and the number of rounds of every loop checked.  The
rounds of the outer loop are as many as there are calls of `fread`.

No check fails, and what comes of it is `streamEvents` (`checkedStream_eq`).
The invariant is that `tail` and `join_len` are not beyond the buffers; the
parts before them are what the unchecked loop keeps.
-/
import Envfile.Lib.Buffer
import Envfile.C.Stream

namespace Envfile.C

open Buffer

/-- `unsigned char[WORK_BUF]`. -/
abbrev WorkBuf := Buffer UInt8 workBuf

/-! ## The loops of the helpers -/

/-- `find_last_newline`, `len` going down. -/
def lastNewlineLoop (buf : WorkBuf) : Nat → Nat → Checked (Option Nat)
  | 0, _ => .error .endless
  | rounds + 1, len =>
    if len > 0 then do
      let last ← sub len 1
      let c ← buf.get last
      if c == Byte.nl then .ok (some last)
      else lastNewlineLoop buf rounds last
    else .ok none

/-- `trailing_backslashes`, `n` going up and `len` down. -/
def backslashLoop (line : WorkBuf) : Nat → Nat → Nat → Checked Nat
  | 0, _, _ => .error .endless
  | rounds + 1, len, n =>
    if len > 0 then do
      let last ← sub len 1
      let c ← line.get last
      if c == Byte.backslash then backslashLoop line rounds last (n + 1)
      else .ok n
    else .ok n

/-! ## The reading loop -/

/-- What lives across the rounds: `line_no`, `join_buf` and `join_len`. -/
structure JoinState where
  lineNo : Nat
  join : WorkBuf
  joinLen : Nat

section Checked

variable (stripCr shellCont normalizing : Bool)

/-- `if (strip_cr && len > 0 && line[len - 1] == '\r') len--`, `line` being
`work_buf + pos`. -/
def stripLen (work : WorkBuf) (pos len : Nat) : Checked Nat :=
  if stripCr && len > 0 then do
    let last ← sub len 1
    let c ← work.get (pos + last)
    if c == Byte.cr then sub len 1 else .ok len
  else .ok len

/-- The `len` bytes at `off` are handed to the loop body.  `normalize_stream`
writes the value behind the `=` of the line. -/
def handOn (buf : WorkBuf) (off len lineNo : Nat) : Checked (List StreamEvent) := do
  let line ← buf.load off len
  if normalizing && !isBlankOrCommentLine line then
    match memchr line Byte.equals with
    | none => .ok [.line line lineNo]
    | some eq =>
      let _ ← buf.load off eq
      let rest ← sub len eq
      let vlen ← sub rest 1
      let _ ← buf.load (off + eq + 1) vlen
      .ok [.line line lineNo]
  else .ok [.line line lineNo]

/-- `if (shell_cont) { … }` and what follows it, for the line of `len` bytes at
`work_buf + pos`. -/
def checkedJoin (work : WorkBuf) (pos len : Nat) (nl : Bool) (st : JoinState) :
    Checked (JoinState × List StreamEvent) :=
  let lineNo := st.lineNo + 1
  if st.joinLen + len > workBuf then .ok (⟨lineNo, st.join, 0⟩, [.tooLong])
  else do
    let line ← work.load pos len
    let join ← st.join.store st.joinLen line
    let joinLen := st.joinLen + len
    let n ← backslashLoop join (joinLen + 1) joinLen 0
    if n % 2 == 1 && nl then do
      let joinLen ← sub joinLen 1
      .ok (⟨lineNo, join, joinLen⟩, [])
    else do
      let events ← handOn normalizing join 0 joinLen lineNo
      .ok (⟨lineNo, join, 0⟩, events)

/-- The round of `while (pos < limit)` for the line from `pos` to `stop`. -/
def checkedLine (work : WorkBuf) (pos stop : Nat) (nl : Bool) (st : JoinState) :
    Checked (JoinState × List StreamEvent) := do
  let len ← sub stop pos
  let len ← stripLen stripCr work pos len
  if shellCont then checkedJoin normalizing work pos len nl st
  else do
    let events ← handOn normalizing work pos len (st.lineNo + 1)
    .ok (⟨st.lineNo + 1, st.join, st.joinLen⟩, events)

/-- `while (pos < limit)`. -/
def checkedLines (work : WorkBuf) (limit : Nat) :
    Nat → Nat → JoinState → Checked (JoinState × List StreamEvent)
  | 0, _, _ => .error .endless
  | rounds + 1, pos, st =>
    if pos < limit then do
      let left ← sub limit pos
      let window ← work.load pos left
      let nl := (memchr window Byte.nl).map (pos + ·)
      let stop := nl.getD limit
      let this ← checkedLine stripCr shellCont normalizing work pos stop nl.isSome st
      let next ← checkedLines work limit rounds (if nl.isSome then stop + 1 else limit) this.1
      .ok (next.1, this.2 ++ next.2)
    else .ok (st, [])

/-- `if (tail > 0) memmove(work_buf, work_buf + limit, tail)`. -/
def keepTail (work : WorkBuf) (limit tail : Nat) : Checked WorkBuf :=
  if tail > 0 then do
    let kept ← work.load limit tail
    work.store 0 kept
  else .ok work

/-- The round of `for (;;)` in which `fread` returns 0. -/
def checkedLast (err : Bool) (work : WorkBuf) (tail : Nat) (st : JoinState) :
    Checked (List StreamEvent) :=
  if err then .ok [.unreadable]
  else if tail > workBuf then .ok [.tooLong]
  else do
    let work ← work.store tail []
    let filled := tail
    if filled == 0 then .ok []
    else do
      let this ← checkedLines stripCr shellCont normalizing work filled (filled + 1) 0 st
      .ok this.2

/-- `for (;;)`, with a round for each call of `fread`. -/
def checkedLoop (err : Bool) :
    Nat → List Bytes → WorkBuf → Nat → JoinState → Checked (List StreamEvent)
  | 0, _, _, _, _ => .error .endless
  | _ + 1, [], work, tail, st => checkedLast stripCr shellCont normalizing err work tail st
  | rounds + 1, readBuf :: reads, work, tail, st =>
    let nr := readBuf.length
    if nr == 0 then checkedLast stripCr shellCont normalizing err work tail st
    else if tail + nr > workBuf then .ok [.tooLong]
    else do
      let work ← work.store tail readBuf
      let filled := tail + nr
      let lastNl ← lastNewlineLoop work (filled + 1) filled
      match lastNl with
      | none =>
        if filled == workBuf then .ok [.tooLong]
        else checkedLoop err rounds reads work filled st
      | some lastNl => do
        let limit := lastNl + 1
        let this ← checkedLines stripCr shellCont normalizing work limit (limit + 1) 0 st
        let tail ← sub filled limit
        let work ← keepTail work limit tail
        let next ← checkedLoop err rounds reads work tail this.1
        .ok (this.2 ++ next)

/-- `normalize_stream` or `scan_stream`, with a round for each call of `fread`,
the one that returns 0 included. -/
def checkedStream (work join : WorkBuf) (f : Stream) : Checked (List StreamEvent) :=
  checkedLoop stripCr shellCont normalizing f.err (f.reads.length + 1) f.reads work 0 ⟨0, join, 0⟩

end Checked

/-! ## The helpers do not fail -/

theorem findLastNewline_concat (u : Bytes) (c : UInt8) :
    findLastNewline (u ++ [c]) = if c = Byte.nl then some u.length else findLastNewline u := by
  split
  · subst ‹c = Byte.nl›
    exact findLastNewline_some List.not_mem_nil u
  rename_i hc
  rcases findLastNewline_cases u with ⟨hno, hnone⟩ | ⟨v, r, rfl, hr, hsome⟩
  · rw [hnone, findLastNewline_none]
    rw [List.mem_append, List.mem_singleton, not_or]
    exact ⟨hno, Ne.symm hc⟩
  · rw [hsome, List.append_assoc, List.cons_append, findLastNewline_some]
    rw [List.mem_append, List.mem_singleton, not_or]
    exact ⟨hr, Ne.symm hc⟩

section Helpers

variable (buf : WorkBuf)

theorem lastNewlineLoop_eq {len : Nat} (hlen : len ≤ workBuf) : ∀ {rounds : Nat}, len < rounds →
    lastNewlineLoop buf rounds len = .ok (findLastNewline (buf.upTo len)) := by
  induction len with
  | zero =>
      intro rounds h
      cases rounds with
      | zero => exact absurd h (Nat.not_lt_zero _)
      | succ rounds => rfl
  | succ len ih =>
      intro rounds h
      cases rounds with
      | zero => exact absurd h (Nat.not_lt_zero _)
      | succ rounds =>
          obtain ⟨c, hget, -, hupTo⟩ := buf.exists_get (Nat.lt_of_succ_le hlen)
          rw [lastNewlineLoop, if_pos (Nat.succ_pos len), sub_succ, bind_ok, hget, bind_ok, hupTo,
            findLastNewline_concat, length_upTo buf (Nat.le_of_succ_le hlen)]
          by_cases hc : c = Byte.nl
          · rw [if_pos (beq_iff_eq.mpr hc), if_pos hc]
          · rw [if_neg (mt beq_iff_eq.mp hc), if_neg hc]
            exact ih (Nat.le_of_succ_le hlen) (Nat.lt_of_succ_lt_succ h)

theorem backslashLoop_eq {len : Nat} (hlen : len ≤ workBuf) : ∀ {rounds n : Nat}, len < rounds →
    backslashLoop buf rounds len n = .ok (n + trailingBackslashes (buf.upTo len)) := by
  induction len with
  | zero =>
      intro rounds n h
      cases rounds with
      | zero => exact absurd h (Nat.not_lt_zero _)
      | succ rounds => rfl
  | succ len ih =>
      intro rounds n h
      cases rounds with
      | zero => exact absurd h (Nat.not_lt_zero _)
      | succ rounds =>
          obtain ⟨c, hget, -, hupTo⟩ := buf.exists_get (Nat.lt_of_succ_le hlen)
          rw [backslashLoop, if_pos (Nat.succ_pos len), sub_succ, bind_ok, hget, bind_ok, hupTo]
          by_cases hc : c = Byte.backslash
          · have htrailing : trailingBackslashes (buf.upTo len ++ [c]) =
                1 + trailingBackslashes (buf.upTo len) := by
              rw [hc]
              exact trailing_concat_backslash _
            rw [if_pos (beq_iff_eq.mpr hc), htrailing, ← Nat.add_assoc]
            exact ih (Nat.le_of_succ_le hlen) (Nat.lt_of_succ_lt_succ h)
          · have htrailing : trailingBackslashes (buf.upTo len ++ [c]) = 0 :=
              trailing_concat_of_ne _ hc
            rw [if_neg (mt beq_iff_eq.mp hc), htrailing]
            rfl

theorem load_ok {off n : Nat} (h : off + n ≤ workBuf) :
    buf.load off n = .ok (bytesAt buf.cells off n) := if_pos h

theorem length_bytesAt_cells {off n : Nat} (h : off + n ≤ workBuf) :
    (bytesAt buf.cells off n).length = n := by
  rw [bytesAt, List.length_take, List.length_drop, buf.length_eq]
  omega

theorem get_ok {off n i : Nat} (h : off + n ≤ workBuf) (hi : i < n) :
    buf.get (off + i) = .ok (byteAt (bytesAt buf.cells off n) i) := by
  obtain ⟨c, hget, hcell, -⟩ := buf.exists_get (i := off + i) (by omega)
  rw [hget, byteAt, bytesAt, List.getD_eq_getElem?_getD, List.getElem?_take_of_lt hi,
    List.getElem?_drop, hcell]
  rfl

theorem take_bytesAt {off n m : Nat} (h : m ≤ n) (b : Bytes) :
    (bytesAt b off n).take m = bytesAt b off m := by
  rw [bytesAt, List.take_take, Nat.min_eq_left h]
  rfl

theorem stripLen_eq (stripCr : Bool) {pos len : Nat} (h : pos + len ≤ workBuf) :
    ∃ m, stripLen stripCr buf pos len = .ok m ∧ m ≤ len ∧
      bytesAt buf.cells pos m = strip stripCr (bytesAt buf.cells pos len) := by
  have hlength := length_bytesAt_cells buf h
  have htrim := take_lenWithoutCr (bytesAt buf.cells pos len)
  rw [lenWithoutCr, hlength] at htrim
  rw [stripLen]
  cases stripCr with
  | false => exact ⟨len, rfl, Nat.le_refl _, rfl⟩
  | true =>
      rw [strip, if_pos rfl, ← htrim, Bool.true_and]
      by_cases hlen : 0 < len
      · rw [if_pos (decide_eq_true hlen), sub_ok hlen, bind_ok,
          get_ok buf h (Nat.sub_one_lt_of_lt hlen), bind_ok, decide_eq_true hlen, Bool.true_and]
        cases hcr : byteAt (bytesAt buf.cells pos len) (len - 1) == Byte.cr with
        | true => exact ⟨len - 1, rfl, Nat.sub_le _ _, (take_bytesAt (Nat.sub_le _ _) _).symm⟩
        | false => exact ⟨len, rfl, Nat.le_refl _, (take_bytesAt (Nat.le_refl _) _).symm⟩
      · rw [if_neg (by simpa using hlen), decide_eq_false hlen, Bool.false_and]
        exact ⟨len, rfl, Nat.le_refl _, (take_bytesAt (Nat.le_refl _) _).symm⟩

theorem handOn_eq (normalizing : Bool) {off len : Nat} (h : off + len ≤ workBuf) (lineNo : Nat) :
    handOn normalizing buf off len lineNo =
      .ok [.line (bytesAt buf.cells off len) lineNo] := by
  rw [handOn, load_ok buf h, bind_ok]
  split
  · cases hfind : memchr (bytesAt buf.cells off len) Byte.equals with
    | none => rfl
    | some eq =>
        have hlt := memchr_lt hfind
        rw [length_bytesAt_cells buf h] at hlt
        simp only [load_ok buf (by omega : off + eq ≤ workBuf), sub_ok (by omega : eq ≤ len),
          sub_ok (by omega : 1 ≤ len - eq), bind_ok,
          load_ok buf (by omega : off + eq + 1 + (len - eq - 1) ≤ workBuf)]
  · rfl

end Helpers

/-! ## A line -/

/-- The variables as the unchecked loop has them. -/
def JoinState.abs (st : JoinState) : LoopState := ⟨st.lineNo, st.join.upTo st.joinLen⟩

section Lines

variable (stripCr shellCont normalizing : Bool) {work : WorkBuf}

theorem checkedJoin_eq {pos len : Nat} (h : pos + len ≤ workBuf) (nl : Bool) {st : JoinState}
    (hjoin : st.joinLen ≤ workBuf) :
    ∃ st', checkedJoin normalizing work pos len nl st =
        .ok (st', (lineStep false true (bytesAt work.cells pos len) nl st.abs).2) ∧
      st'.abs = (lineStep false true (bytesAt work.cells pos len) nl st.abs).1 ∧
      st'.joinLen ≤ workBuf := by
  have hlength := length_bytesAt_cells work h
  have habs : st.abs.join.length = st.joinLen := length_upTo st.join hjoin
  rw [checkedJoin]
  by_cases hover : workBuf < st.joinLen + len
  · rw [lineStep_over (by rwa [habs, hlength])]
    exact ⟨_, if_pos hover, rfl, Nat.zero_le _⟩
  have hfits : st.joinLen + (bytesAt work.cells pos len).length ≤ workBuf := by omega
  obtain ⟨join, hstore, hupTo⟩ := st.join.exists_store hfits
  rw [lineStep_on (by rwa [habs])]
  rw [hlength] at hupTo hfits
  have hgathered : join.upTo (st.joinLen + len) = st.abs.join ++ bytesAt work.cells pos len := hupTo
  have hcount : (trailingBackslashes (st.abs.join ++ bytesAt work.cells pos len) % 2 == 1) =
      continues (st.abs.join ++ bytesAt work.cells pos len) := rfl
  rw [if_neg hover, load_ok work h, bind_ok, hstore, bind_ok]
  dsimp only
  rw [backslashLoop_eq join hfits (Nat.lt_succ_self _), bind_ok, Nat.zero_add, hgathered, hcount]
  cases hcont : continues (st.abs.join ++ bytesAt work.cells pos len) && nl with
  | true =>
      have hpos : 1 ≤ st.joinLen + len := by
        rw [Bool.and_eq_true] at hcont
        have := List.length_pos_iff.mpr (continues_dropLast hcont.1).2
        rw [List.length_append, habs, hlength] at this
        exact this
      rw [if_pos rfl, if_pos rfl, sub_ok hpos, bind_ok]
      refine ⟨_, rfl, ?_, Nat.le_trans (Nat.sub_le _ _) hfits⟩
      -- the backslash stays in the buffer, behind what is in use
      rw [JoinState.abs, ← hgathered, List.dropLast_eq_take, length_upTo join hfits, upTo, upTo,
        List.take_take, Nat.min_eq_left (Nat.sub_le _ _)]
      rfl
  | false =>
      rw [if_neg Bool.false_ne_true, if_neg Bool.false_ne_true,
        handOn_eq join normalizing (by omega), bind_ok, ← hgathered]
      exact ⟨_, rfl, rfl, Nat.zero_le _⟩

theorem checkedLine_eq {pos stop : Nat} (hpos : pos ≤ stop) (hstop : stop ≤ workBuf) (nl : Bool)
    {st : JoinState} (hjoin : st.joinLen ≤ workBuf) :
    ∃ st', checkedLine stripCr shellCont normalizing work pos stop nl st =
        .ok (st', (lineStep stripCr shellCont (bytesAt work.cells pos (stop - pos)) nl st.abs).2) ∧
      st'.abs = (lineStep stripCr shellCont (bytesAt work.cells pos (stop - pos)) nl st.abs).1 ∧
      st'.joinLen ≤ workBuf := by
  have hwindow : pos + (stop - pos) ≤ workBuf := by omega
  obtain ⟨len, hlen, hle, hline⟩ := stripLen_eq work stripCr hwindow
  rw [checkedLine, sub_ok hpos, bind_ok, hlen, bind_ok, lineStep_strip, ← hline]
  cases shellCont with
  | true => exact checkedJoin_eq normalizing (by omega) nl hjoin
  | false =>
      rw [lineStep_off, if_neg Bool.false_ne_true, handOn_eq work normalizing (by omega), bind_ok]
      exact ⟨_, rfl, rfl, hjoin⟩

theorem checkedLines_eq {limit : Nat} (hlimit : limit ≤ workBuf) (rounds : Nat) :
    ∀ {pos : Nat} {st : JoinState}, limit - pos ≤ rounds → st.joinLen ≤ workBuf →
    ∃ st', checkedLines stripCr shellCont normalizing work limit (rounds + 1) pos st =
        .ok (st', (lineLoop stripCr shellCont work.cells limit rounds pos st.abs).2) ∧
      st'.abs = (lineLoop stripCr shellCont work.cells limit rounds pos st.abs).1 ∧
      st'.joinLen ≤ workBuf := by
  induction rounds with
  | zero =>
      intro pos st hrounds hjoin
      exact ⟨st, if_neg (by omega), rfl, hjoin⟩
  | succ rounds ih =>
      intro pos st hrounds hjoin
      rw [checkedLines, lineLoop]
      by_cases hpos : pos < limit
      · have hwindow : pos + (limit - pos) ≤ workBuf := by omega
        rw [if_pos hpos, if_pos hpos, sub_ok hpos.le, bind_ok, load_ok work hwindow, bind_ok]
        dsimp only
        generalize hnl : (memchr (bytesAt work.cells pos (limit - pos)) Byte.nl).map (pos + ·) = nl
        have hstop : pos ≤ nl.getD limit ∧ nl.getD limit ≤ limit ∧
            (nl.isSome = true → nl.getD limit < limit) := by
          cases hfind : memchr (bytesAt work.cells pos (limit - pos)) Byte.nl with
          | none =>
              rw [← hnl, hfind]
              exact ⟨hpos.le, le_rfl, fun h => by cases h⟩
          | some i =>
              have hlt := memchr_lt hfind
              rw [length_bytesAt_cells work hwindow] at hlt
              rw [← hnl, hfind, Option.map_some, Option.getD_some]
              exact ⟨Nat.le_add_right _ _, by omega, fun _ => by omega⟩
        obtain ⟨hle, hstop, hclosed⟩ := hstop
        obtain ⟨st₁, hline, habs, hjoin₁⟩ := checkedLine_eq stripCr shellCont normalizing hle
          (hstop.trans hlimit) nl.isSome hjoin
        have hnext : limit - (if nl.isSome then nl.getD limit + 1 else limit) ≤ rounds := by
          split
          · have := hclosed ‹_›
            omega
          · omega
        obtain ⟨st₂, hlines, habs₂, hjoin₂⟩ := ih hnext hjoin₁
        rw [hline, bind_ok, hlines, bind_ok, ← habs]
        exact ⟨st₂, rfl, habs₂, hjoin₂⟩
      · rw [if_neg hpos, if_neg hpos]
        exact ⟨st, rfl, rfl, hjoin⟩

theorem lineLoop_upTo (work : WorkBuf) {limit n : Nat} (hlimit : limit ≤ n) (hn : n ≤ workBuf)
    (st : LoopState) :
    lineLoop stripCr shellCont work.cells limit limit 0 st =
      lineLoop stripCr shellCont (work.upTo n) limit limit 0 st := by
  have hwindow : bytesAt (work.upTo n) 0 (limit - 0) = bytesAt work.cells 0 (limit - 0) := by
    rw [bytesAt, bytesAt, upTo, List.drop_zero, List.drop_zero, List.take_take, Nat.min_eq_left]
    omega
  rw [lineLoop_eq stripCr shellCont (by rw [work.length_eq]; omega) _ 0 st (Nat.sub_le _ _),
    lineLoop_eq stripCr shellCont (by rwa [length_upTo work hn]) _ 0 st (Nat.sub_le _ _), hwindow]

/-! ## The reading loop -/

theorem keepTail_eq {limit filled : Nat} (hlimit : limit ≤ filled) (hfilled : filled ≤ workBuf) :
    ∃ buf, keepTail work limit (filled - limit) = .ok buf ∧
      buf.upTo (filled - limit) = (work.upTo filled).drop limit := by
  have hlength : ((work.upTo filled).drop limit).length = filled - limit := by
    rw [List.length_drop, length_upTo work hfilled]
  rw [keepTail]
  by_cases htail : 0 < filled - limit
  · have hload := load_eq work (m := filled - limit) hfilled (by omega : limit + _ ≤ filled)
    rw [List.take_of_length_le (Nat.le_of_eq hlength)] at hload
    have hroom : 0 + ((work.upTo filled).drop limit).length ≤ workBuf := by omega
    obtain ⟨buf, hstore, hupTo⟩ := work.exists_store hroom
    rw [hlength, Nat.zero_add] at hupTo
    exact ⟨buf, by rw [if_pos htail, hload, bind_ok, hstore], hupTo⟩
  · have hnil : (work.upTo filled).drop limit = [] :=
      List.eq_nil_of_length_eq_zero (by omega)
    refine ⟨work, if_neg htail, ?_⟩
    rw [hnil, Nat.eq_zero_of_not_pos htail, upTo_zero]

theorem checkedLast_eq (err : Bool) {tail : Nat} (htail : tail ≤ workBuf) {st : JoinState}
    (hjoin : st.joinLen ≤ workBuf) :
    checkedLast stripCr shellCont normalizing err work tail st =
      .ok (lastRound stripCr shellCont err (work.upTo tail) st.abs) := by
  rw [checkedLast, lastRound]
  cases err with
  | true => rfl
  | false =>
      have hstore : tail + ([] : Bytes).length ≤ workBuf := htail
      obtain ⟨buf, hbuf, hupTo⟩ := work.exists_store hstore
      rw [List.append_nil] at hupTo
      have hkept : buf.upTo tail = work.upTo tail := hupTo
      have hlength := length_upTo buf htail
      rw [if_neg Bool.false_ne_true, if_neg Bool.false_ne_true, if_neg (Nat.not_lt.mpr htail), hbuf,
        bind_ok, ← hkept]
      by_cases hempty : tail = 0
      · subst hempty
        rfl
      · have hne : ¬ (buf.upTo tail).isEmpty = true := by
          rw [List.isEmpty_iff]
          intro hnil
          rw [hnil] at hlength
          exact hempty hlength.symm
        obtain ⟨st', hlines, -, -⟩ := @checkedLines_eq stripCr shellCont normalizing buf tail htail
          tail 0 st (Nat.sub_le _ _) hjoin
        rw [if_neg (mt beq_iff_eq.mp hempty), if_neg hne, hlines, bind_ok, hlength,
          lineLoop_upTo stripCr shellCont buf le_rfl htail]

/-- No check fails, and the loop does what the unchecked loop does. -/
theorem checkedLoop_eq (err : Bool) (reads : List Bytes) :
    ∀ {work : WorkBuf} {tail : Nat} {st : JoinState}, Pieces reads → tail ≤ workBuf →
    st.joinLen ≤ workBuf →
    checkedLoop stripCr shellCont normalizing err (reads.length + 1) reads work tail st =
      .ok (readLoop stripCr shellCont err reads (work.upTo tail) st.abs) := by
  induction reads with
  | nil =>
      intro work tail st _ htail hjoin
      exact checkedLast_eq stripCr shellCont normalizing err htail hjoin
  | cons chunk reads ih =>
      intro work tail st hpieces htail hjoin
      have hne := (hpieces chunk List.mem_cons_self).1
      have hpieces' : Pieces reads := fun c hc => hpieces c (List.mem_cons_of_mem _ hc)
      have hnr : ¬ (chunk.length == 0) = true := by
        rw [beq_iff_eq]
        exact fun h => hne (List.eq_nil_of_length_eq_zero h)
      have hempty : ¬ chunk.isEmpty = true := by rwa [List.isEmpty_iff]
      rw [List.length_cons, checkedLoop, readLoop, if_neg hempty, length_upTo work htail]
      dsimp only
      rw [if_neg hnr]
      by_cases hover : tail + chunk.length > workBuf
      · rw [if_pos hover, if_pos hover]
      rw [if_neg hover, if_neg hover]
      have hfilled : tail + chunk.length ≤ workBuf := Nat.not_lt.mp hover
      obtain ⟨buf, hstore, hupTo⟩ := work.exists_store hfilled
      have hlength := length_upTo buf hfilled
      rw [hstore, bind_ok, lastNewlineLoop_eq buf hfilled (Nat.lt_succ_self _), bind_ok, ← hupTo,
        hlength]
      rcases findLastNewline_cases (buf.upTo (tail + chunk.length)) with
        ⟨-, hnone⟩ | ⟨u, r, hsplit, -, hsome⟩
      · -- no newline yet: all of it is kept
        rw [hnone]
        dsimp only
        by_cases hfull : (tail + chunk.length == workBuf) = true
        · rw [if_pos hfull, if_pos hfull]
        · rw [if_neg hfull, if_neg hfull]
          exact ih hpieces' hfilled hjoin
      · have hlimit : u.length + 1 ≤ tail + chunk.length := by
          rw [← hlength, hsplit, List.length_append, List.length_cons]
          omega
        obtain ⟨st₁, hlines, habs, hjoin₁⟩ := @checkedLines_eq stripCr shellCont normalizing buf
          (u.length + 1) (hlimit.trans hfilled) (u.length + 1) 0 st (Nat.sub_le _ _) hjoin
        obtain ⟨buf₁, hkeep, hupTo₁⟩ := @keepTail_eq buf _ _ hlimit hfilled
        have hrest := @ih buf₁ (tail + chunk.length - (u.length + 1)) st₁ hpieces' (by omega) hjoin₁
        rw [hsome]
        dsimp only
        rw [hlines, bind_ok, sub_ok hlimit, bind_ok, hkeep, bind_ok, hrest, bind_ok, hupTo₁, habs,
          lineLoop_upTo stripCr shellCont buf hlimit hfilled]

end Lines

variable (stripCr shellCont normalizing : Bool)

/-- Both streams run within their buffers, with a round for each `fread`, and
do what the unchecked loop does. -/
theorem checkedStream_eq {f : Stream} (hpieces : Pieces f.reads) (work join : WorkBuf) :
    checkedStream stripCr shellCont normalizing work join f =
      .ok (streamEvents stripCr shellCont f) :=
  checkedLoop_eq stripCr shellCont normalizing f.err f.reads hpieces (Nat.zero_le _) (Nat.zero_le _)

/-- A line that is continued, in buffers of zeros. -/
theorem checkedStream_eq_joined :
    let zeros : WorkBuf := ⟨List.replicate workBuf 0, List.length_replicate⟩
    checkedStream true true true zeros zeros (Stream.ofBytes (ascii "A=1\\\n2\nB=3")) =
      .ok [.line (ascii "A=12") 2, .line (ascii "B=3") 3] := by
  intro zeros
  have hevents : streamEvents true true (Stream.ofBytes (ascii "A=1\\\n2\nB=3")) =
      [.line (ascii "A=12") 2, .line (ascii "B=3") 3] := by decide +kernel
  rw [checkedStream_eq true true true (freads_pieces _ _) zeros zeros, hevents]

end Envfile.C
