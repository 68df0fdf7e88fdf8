/-
# `Envfile.C.Overflow` — logical lines that are too long

With continuation on, a line that does not fit behind what has been gathered is
reported and dropped, together with what has been gathered.  The lines after it
are read as if they started a logical line.  So a logical line is refused as a
whole only where its last physical line is the one that does not fit; where an
earlier one does not, the last one is handed to the classifier alone, or
refused a second time.

What counts is `gatheredLen`, the bytes of the lines but the last without their
backslashes (`Short`).
-/
import Envfile.C.Files

namespace Envfile.C

variable (stripCr : Bool)

/-! ## Chains of physical lines -/

/-- A physical line that the next one is joined to. -/
def goesOn (p : Bytes × Bool) : Bool := continues (strip stripCr p.1) && p.2

/-- A logical line: a maximal chain of physical lines each of which, but the
last, goes on. -/
structure Chain (ls pre chain post : List (Bytes × Bool)) : Prop where
  split : ls = pre ++ chain ++ post
  ne_nil : chain ≠ []
  joined : ∀ p ∈ chain.dropLast, goesOn stripCr p = true
  starts : ∀ p ∈ pre.getLast?, goesOn stripCr p = false
  ends : post ≠ [] → ∀ p ∈ chain.getLast?, goesOn stripCr p = false

/-- What lines that go on leave in `join_buf`. -/
def gatheredLen (ls : List (Bytes × Bool)) : Nat :=
  (ls.map fun p => (strip stripCr p.1).length - 1).sum

/-- What the loop makes of the lines `ls` of a file, `pre` being the lines in
front of them. -/
def eventsAt (pre ls : List (Bytes × Bool)) : List StreamEvent :=
  (linesLoop stripCr true ls (linesLoop stripCr true pre ⟨0, []⟩).1).2

/-- No line of a chain but the last is too much for `join_buf`.  At the end of
a file all lines of a chain can go on; then the lines behind the first that is
too much must fit. -/
def Short (chain : List (Bytes × Bool)) : Prop :=
  if chain.all (goesOn stripCr) then
    ∀ ms p rest, chain = ms ++ p :: rest → gatheredLen stripCr ms < workBuf →
      workBuf ≤ gatheredLen stripCr (ms ++ [p]) → gatheredLen stripCr rest < workBuf
  else gatheredLen stripCr chain.dropLast < workBuf

/-! ## The join of a chain -/

section Join

variable {stripCr} {p : Bytes × Bool} {ls : List (Bytes × Bool)} {st : LoopState}

theorem lineStep_strip_over (h : workBuf < st.join.length + (strip stripCr p.1).length) :
    lineStep stripCr true p.1 p.2 st = (⟨st.lineNo + 1, []⟩, [.tooLong]) := by
  rw [lineStep_strip, lineStep_over h]

theorem lineStep_goesOn (hjoin : continues st.join = false) (hp : goesOn stripCr p = true)
    (hfit : st.join.length + (strip stripCr p.1).length ≤ workBuf) :
    lineStep stripCr true p.1 p.2 st =
      (⟨st.lineNo + 1, (st.join ++ strip stripCr p.1).dropLast⟩, []) := by
  rw [lineStep_strip, lineStep_on hfit, continues_append hjoin, if_pos (by exact hp)]

theorem lineStep_ends (hjoin : continues st.join = false) (hp : goesOn stripCr p = false) :
    ∃ event, lineStep stripCr true p.1 p.2 st = (⟨st.lineNo + 1, []⟩, [event]) := by
  rcases Nat.lt_or_ge workBuf (st.join.length + (strip stripCr p.1).length) with hlen | hlen
  · exact ⟨_, lineStep_strip_over hlen⟩
  · refine ⟨.line (st.join ++ strip stripCr p.1) (st.lineNo + 1), ?_⟩
    rw [lineStep_strip, lineStep_on hlen, continues_append hjoin, if_neg]
    rw [← goesOn, hp]
    exact Bool.false_ne_true

theorem length_pos_of_goesOn (hp : goesOn stripCr p = true) : 0 < (strip stripCr p.1).length := by
  rw [goesOn, Bool.and_eq_true] at hp
  exact List.length_pos_iff.mpr (continues_dropLast hp.1).2

theorem even_dropLast (hjoin : continues st.join = false) (hp : goesOn stripCr p = true) :
    continues (st.join ++ strip stripCr p.1).dropLast = false := by
  rw [goesOn, Bool.and_eq_true] at hp
  refine (continues_dropLast ?_).1
  rw [continues_append hjoin, hp.1]

/-- What has been gathered ends in an even number of backslashes. -/
theorem lineStep_even (hjoin : continues st.join = false) :
    continues (lineStep stripCr true p.1 p.2 st).1.join = false := by
  rcases Nat.lt_or_ge workBuf (st.join.length + (strip stripCr p.1).length) with hlen | hlen
  · rw [lineStep_strip_over hlen]
    rfl
  cases hp : goesOn stripCr p with
  | true =>
      rw [lineStep_goesOn hjoin hp hlen]
      exact even_dropLast hjoin hp
  | false =>
      obtain ⟨event, hevent⟩ := lineStep_ends hjoin hp
      rw [hevent]
      rfl

theorem linesLoop_even (hjoin : continues st.join = false) :
    continues (linesLoop stripCr true ls st).1.join = false := by
  induction ls generalizing st with
  | nil => exact hjoin
  | cons p ls ih => exact ih (lineStep_even hjoin)

theorem linesLoop_singleton (p : Bytes × Bool) (st : LoopState) :
    linesLoop stripCr true [p] st = lineStep stripCr true p.1 p.2 st := by
  rw [linesLoop, linesLoop, List.append_nil]

theorem linesLoop_join (h : ∀ p ∈ ls.getLast?, goesOn stripCr p = false) (n : Nat) :
    (linesLoop stripCr true ls ⟨n, []⟩).1.join = [] := by
  rcases List.eq_nil_or_concat ls with rfl | ⟨ms, p, rfl⟩
  · rfl
  · rw [List.concat_eq_append] at h ⊢
    have hp : goesOn stripCr p = false := h p (by rw [List.getLast?_concat]; rfl)
    have hjoin : continues (linesLoop stripCr true ms ⟨n, []⟩).1.join = false := linesLoop_even rfl
    obtain ⟨event, hevent⟩ := lineStep_ends hjoin hp
    rw [linesLoop_append, linesLoop_singleton, hevent]

theorem gatheredLen_cons (p : Bytes × Bool) (ls : List (Bytes × Bool)) :
    gatheredLen stripCr (p :: ls) = ((strip stripCr p.1).length - 1) + gatheredLen stripCr ls := by
  rw [gatheredLen, List.map_cons, List.sum_cons]
  rfl

theorem gatheredLen_concat (ls : List (Bytes × Bool)) (p : Bytes × Bool) :
    gatheredLen stripCr (ls ++ [p]) =
      gatheredLen stripCr ls + ((strip stripCr p.1).length - 1) := by
  rw [gatheredLen, List.map_append, List.sum_append, List.map_singleton, List.sum_singleton]
  rfl

theorem linesLoop_short (hjoin : continues st.join = false)
    (hls : ∀ p ∈ ls, goesOn stripCr p = true)
    (hlen : st.join.length + gatheredLen stripCr ls < workBuf) :
    (linesLoop stripCr true ls st).2 = [] ∧
      (linesLoop stripCr true ls st).1.join.length = st.join.length + gatheredLen stripCr ls := by
  induction ls generalizing st with
  | nil => exact ⟨rfl, rfl⟩
  | cons p ls ih =>
      have hp := hls p List.mem_cons_self
      have hpos := length_pos_of_goesOn hp
      rw [gatheredLen_cons] at hlen ⊢
      have heven := even_dropLast hjoin hp
      have hjoined : ((st.join ++ strip stripCr p.1).dropLast).length =
          st.join.length + ((strip stripCr p.1).length - 1) := by
        rw [List.length_dropLast, List.length_append]
        omega
      have hrest : ((st.join ++ strip stripCr p.1).dropLast).length + gatheredLen stripCr ls <
          workBuf := by omega
      obtain ⟨hnone, hlength⟩ := @ih
        ⟨st.lineNo + 1, (st.join ++ strip stripCr p.1).dropLast⟩ heven
        (fun q hq => hls q (List.mem_cons_of_mem _ hq)) hrest
      rw [linesLoop, lineStep_goesOn hjoin hp (by omega)]
      refine ⟨hnone, hlength.trans ?_⟩
      dsimp only
      omega

theorem linesLoop_long (hjoin : continues st.join = false)
    (hls : ∀ p ∈ ls, goesOn stripCr p = true) (hstart : st.join.length < workBuf)
    (hlen : workBuf ≤ st.join.length + gatheredLen stripCr ls) :
    .tooLong ∈ (linesLoop stripCr true ls st).2 := by
  induction ls generalizing st with
  | nil => exact absurd hlen (Nat.not_le.mpr hstart)
  | cons p ls ih =>
      have hp := hls p List.mem_cons_self
      have hpos := length_pos_of_goesOn hp
      rw [linesLoop]
      rcases Nat.lt_or_ge workBuf (st.join.length + (strip stripCr p.1).length) with hover | hfit
      · rw [lineStep_strip_over hover]
        exact List.mem_cons_self
      · rw [lineStep_goesOn hjoin hp hfit]
        rw [gatheredLen_cons] at hlen
        refine ih (even_dropLast hjoin hp) (fun q hq => hls q (List.mem_cons_of_mem _ hq)) ?_ ?_ <;>
          rw [List.length_dropLast, List.length_append] <;> omega

/-- With nothing gathered before, lines that go on leave no event where they
fit. -/
theorem linesLoop_none (hls : ∀ p ∈ ls, goesOn stripCr p = true)
    (hlen : gatheredLen stripCr ls < workBuf) {n : Nat} :
    (linesLoop stripCr true ls ⟨n, []⟩).2 = [] :=
  (@linesLoop_short stripCr ls ⟨n, []⟩ rfl hls (by rwa [List.length_nil, Nat.zero_add])).1

theorem linesLoop_some (hls : ∀ p ∈ ls, goesOn stripCr p = true)
    (hlen : workBuf ≤ gatheredLen stripCr ls) (n : Nat) :
    .tooLong ∈ (linesLoop stripCr true ls ⟨n, []⟩).2 :=
  @linesLoop_long stripCr ls ⟨n, []⟩ rfl hls (Nat.zero_lt_succ _)
    (by rwa [List.length_nil, Nat.zero_add])

theorem goesOn_rest {ms rest : List (Bytes × Bool)}
    (h : ∀ q ∈ ms ++ p :: rest, goesOn stripCr q = true) : ∀ q ∈ rest, goesOn stripCr q = true :=
  fun q hq => h q (List.mem_append_right _ (List.mem_cons_of_mem _ hq))

/-- The line at which lines that go on are too much is reported, and the next
one starts afresh. -/
theorem linesLoop_crossing {ms rest : List (Bytes × Bool)}
    (hgo : ∀ q ∈ ms ++ p :: rest, goesOn stripCr q = true) (hms : gatheredLen stripCr ms < workBuf)
    (hp : workBuf ≤ gatheredLen stripCr (ms ++ [p])) (n : Nat) :
    ∃ m, (linesLoop stripCr true (ms ++ p :: rest) ⟨n, []⟩).2 =
      .tooLong :: (linesLoop stripCr true rest ⟨m, []⟩).2 := by
  have hpos := length_pos_of_goesOn (hgo p (List.mem_append_right _ List.mem_cons_self))
  have hroom : ([] : Bytes).length + gatheredLen stripCr ms < workBuf := by
    rwa [List.length_nil, Nat.zero_add]
  obtain ⟨hnone, hlength⟩ := @linesLoop_short stripCr ms ⟨n, []⟩ rfl
    (fun q hq => hgo q (List.mem_append_left _ hq)) hroom
  rw [gatheredLen_concat] at hp
  have hlong : workBuf <
      (linesLoop stripCr true ms ⟨n, []⟩).1.join.length + (strip stripCr p.1).length := by
    rw [hlength, List.length_nil]
    omega
  rw [linesLoop_append, linesLoop, lineStep_strip_over hlong, hnone]
  exact ⟨_, rfl⟩

theorem exists_crossing (h : workBuf ≤ gatheredLen stripCr ls) :
    ∃ ms p rest, ls = ms ++ p :: rest ∧ gatheredLen stripCr ms < workBuf ∧
      workBuf ≤ gatheredLen stripCr (ms ++ [p]) := by
  induction ls using List.reverseRecOn with
  | nil => exact absurd h (Nat.not_le.mpr (Nat.zero_lt_succ _))
  | append_singleton ls p ih =>
      rcases Nat.lt_or_ge (gatheredLen stripCr ls) workBuf with hlt | hge
      · exact ⟨ls, p, [], rfl, hlt, h⟩
      · obtain ⟨ms, q, rest, rfl, hms, hq⟩ := ih hge
        exact ⟨ms, q, rest ++ [p], by rw [List.append_assoc, List.cons_append], hms, hq⟩

end Join

/-! ## The events of a chain -/

section Events

variable {stripCr} {chain : List (Bytes × Bool)}

theorem once_iff_closed {ms : List (Bytes × Bool)} (hms : ∀ p ∈ ms, goesOn stripCr p = true)
    {p : Bytes × Bool} (hp : goesOn stripCr p = false) (n : Nat) :
    (.tooLong ∈ (linesLoop stripCr true (ms ++ [p]) ⟨n, []⟩).2 →
        (linesLoop stripCr true (ms ++ [p]) ⟨n, []⟩).2 = [.tooLong]) ↔
      gatheredLen stripCr ms < workBuf := by
  have hlast : continues (linesLoop stripCr true ms ⟨n, []⟩).1.join = false := linesLoop_even rfl
  obtain ⟨event, hevent⟩ := lineStep_ends hlast hp
  have hevents : (linesLoop stripCr true (ms ++ [p]) ⟨n, []⟩).2 =
      (linesLoop stripCr true ms ⟨n, []⟩).2 ++ [event] := by
    rw [linesLoop_append, linesLoop_singleton, hevent]
  rw [hevents]
  rcases Nat.lt_or_ge (gatheredLen stripCr ms) workBuf with hlt | hge
  · -- only the last line has an event
    rw [linesLoop_none hms hlt]
    refine iff_of_true (fun h => ?_) hlt
    rw [List.nil_append, List.mem_singleton] at h
    rw [← h]
    rfl
  · have htoo := linesLoop_some hms hge n
    refine iff_of_false (fun h => ?_) (Nat.not_lt.mpr hge)
    have hlen := congrArg List.length (h (List.mem_append_left _ htoo))
    rw [List.length_append, List.length_singleton, List.length_singleton] at hlen
    exact List.ne_nil_of_mem htoo (List.eq_nil_of_length_eq_zero (by omega))

theorem once_iff_open (hchain : ∀ p ∈ chain, goesOn stripCr p = true) (n : Nat) :
    (.tooLong ∈ (linesLoop stripCr true chain ⟨n, []⟩).2 →
        (linesLoop stripCr true chain ⟨n, []⟩).2 = [.tooLong]) ↔
      ∀ ms p rest, chain = ms ++ p :: rest → gatheredLen stripCr ms < workBuf →
        workBuf ≤ gatheredLen stripCr (ms ++ [p]) → gatheredLen stripCr rest < workBuf := by
  constructor
  · rintro h ms p rest rfl hms hp
    obtain ⟨m, hevents⟩ := linesLoop_crossing hchain hms hp n
    rw [hevents] at h
    by_contra hrest
    have htoo := linesLoop_some (goesOn_rest hchain) (Nat.not_lt.mp hrest) m
    rw [(List.cons.inj (h List.mem_cons_self)).2] at htoo
    cases htoo
  · intro h htoo
    rcases Nat.lt_or_ge (gatheredLen stripCr chain) workBuf with hlt | hge
    · rw [linesLoop_none hchain hlt] at htoo
      cases htoo
    obtain ⟨ms, p, rest, rfl, hms, hp⟩ := exists_crossing hge
    obtain ⟨m, hevents⟩ := linesLoop_crossing hchain hms hp n
    rw [hevents, linesLoop_none (goesOn_rest hchain) (h ms p rest rfl hms hp)]

/-- A chain is refused once, or not at all, where it is short. -/
theorem once_iff_short {ls pre post : List (Bytes × Bool)} (h : Chain stripCr ls pre chain post) :
    (.tooLong ∈ eventsAt stripCr pre chain → eventsAt stripCr pre chain = [.tooLong]) ↔
      Short stripCr chain := by
  have hjoin := linesLoop_join h.starts 0
  rw [eventsAt, Short]
  generalize (linesLoop stripCr true pre ⟨0, []⟩).1 = st at hjoin
  obtain ⟨n, join⟩ := st
  obtain rfl : join = [] := hjoin
  split
  · exact once_iff_open (List.all_eq_true.mp ‹_›) n
  · rename_i hall
    obtain ⟨ms, p, rfl⟩ : ∃ ms p, chain = ms ++ [p] :=
      ⟨_, _, (List.dropLast_concat_getLast h.ne_nil).symm⟩
    have hms := h.joined
    rw [List.dropLast_concat] at hms ⊢
    have hp : goesOn stripCr p = false := by
      by_contra hp
      rw [Bool.not_eq_false] at hp
      refine hall (List.all_eq_true.mpr ?_)
      rw [List.forall_mem_append, List.forall_mem_singleton]
      exact ⟨hms, hp⟩
    exact once_iff_closed hms hp n

end Events

/-! ## The records of a chain -/

section Records

variable (backend : Backend) (cfg : Config) (tag : Bytes)

/-- If a too long line is reported, that is all that happens: no line is handed
to the classifier, and the report is not repeated. -/
def ReportedOnce (events : List StreamEvent) : Prop :=
  ∀ env, .lineTooLong ∈ (Step.run (eventStep backend cfg tag) events env).2.codes →
    Step.run (eventStep backend cfg tag) events env = (env, streamDiag tag .lineTooLong)

theorem run_tooLong (env : EnvTable) :
    Step.run (eventStep backend cfg tag) [.tooLong] env = (env, streamDiag tag .lineTooLong) :=
  Step.run_singleton _ _ _

theorem length_events_le (events : List StreamEvent) (env : EnvTable) :
    events.length ≤ (Step.run (eventStep backend cfg tag) events env).2.handed.length +
      (Step.run (eventStep backend cfg tag) events env).2.codes.length := by
  induction events generalizing env with
  | nil => exact Nat.zero_le _
  | cons event events ih =>
      have hrest := ih (eventStep backend cfg tag event env).1
      have hthis : 1 ≤ (eventStep backend cfg tag event env).2.handed.length +
          (eventStep backend cfg tag event env).2.codes.length := by
        rcases eventStep_cases backend cfg tag event env with
          ⟨-, hcodes⟩ | ⟨-, hcodes⟩ | ⟨hhanded, -⟩
        · rw [hcodes]
          exact Nat.le_add_left _ _
        · rw [hcodes]
          exact Nat.le_add_left _ _
        · rw [hhanded]
          exact Nat.le_add_right _ _
      rw [Step.run_cons, Out.add_handed, Out.codes_add, List.length_append, List.length_append,
        List.length_cons]
      omega

theorem reportedOnce_iff (events : List StreamEvent) :
    ReportedOnce backend cfg tag events ↔ (.tooLong ∈ events → events = [.tooLong]) := by
  constructor
  · intro h htoo
    have hrun := h .zero ((lineTooLong_mem_run backend cfg tag events .zero).mpr htoo)
    have hlen := length_events_le backend cfg tag events .zero
    rw [hrun] at hlen
    match events, htoo, hlen with
    | [event], htoo, _ => rw [List.mem_singleton.mp htoo]
    | _ :: _ :: _, _, hlen => exact absurd hlen (Nat.not_le.mpr (Nat.le_add_left 2 _))
  · intro h env hcodes
    rw [h ((lineTooLong_mem_run backend cfg tag events env).mp hcodes)]
    exact run_tooLong backend cfg tag env

variable {cfg} {f : Stream} {data : Bytes} {pre chain post : List (Bytes × Bool)}

theorem processFile_chain (hcont : cfg.shellCont = true) (hpass : prePasses cfg f = .ok data)
    (hfit : LinesFit data) (hsplit : Lines.records Byte.nl data = pre ++ chain ++ post) :
    processFile backend cfg tag f =
      Step.run (eventStep backend cfg tag)
        (eventsAt (stripFlag cfg data) [] pre ++ eventsAt (stripFlag cfg data) pre chain ++
          eventsAt (stripFlag cfg data) (pre ++ chain) post) := by
  rw [processFile_events, hpass]
  simp only [hcont]
  rw [streamEvents_eq _ _ hfit, hsplit, linesLoop_append, linesLoop_append, eventsAt, eventsAt,
    eventsAt, linesLoop_append]
  rfl

/-- A logical line of a file that is too long is refused as a whole exactly
when it is short in all lines but the last. -/
theorem reportedOnce_iff_short (hcont : cfg.shellCont = true) (hpass : prePasses cfg f = .ok data)
    (hfit : LinesFit data)
    (hchain : Chain (stripFlag cfg data) (Lines.records Byte.nl data) pre chain post) :
    processFile backend cfg tag f =
        Step.run (eventStep backend cfg tag)
          (eventsAt (stripFlag cfg data) [] pre ++ eventsAt (stripFlag cfg data) pre chain ++
            eventsAt (stripFlag cfg data) (pre ++ chain) post) ∧
      (ReportedOnce backend cfg tag (eventsAt (stripFlag cfg data) pre chain) ↔
        Short (stripFlag cfg data) chain) := by
  refine ⟨processFile_chain backend tag hcont hpass hfit hchain.split, ?_⟩
  rw [reportedOnce_iff]
  exact once_iff_short hchain

end Records

/-! ## A chain that is too long -/

/-- The longest line that goes on. -/
def longLine : Bytes := List.replicate 61439 0x61 ++ [Byte.backslash]

/-- Two of them, and a third line. -/
def longChain : List (Bytes × Bool) := [(longLine, true), (longLine, true), (ascii "B=1", true)]

def longFile : Bytes := Lines.unlines Byte.nl (longChain.map Prod.fst)

theorem continues_replicate (n : Nat) :
    continues (List.replicate n 0x61 ++ [Byte.backslash]) = true := by
  have hnone : trailing (List.replicate n 0x61) = 0 := by
    cases n with
    | zero => rfl
    | succ n =>
        rw [List.replicate_succ']
        exact trailing_concat_of_ne _ (by decide)
  rw [continues, trailing_concat_backslash, hnone]
  rfl

theorem length_longLine : longLine.length = 61440 := by
  rw [longLine, List.length_append, List.length_replicate]
  rfl

theorem nl_not_mem_longLine : Byte.nl ∉ longLine := by
  rw [longLine, List.mem_append, List.mem_replicate]
  rintro (⟨-, h⟩ | h)
  · cases h
  · exact absurd h (by decide)

theorem goesOn_longLine : goesOn false (longLine, true) = true := by
  rw [goesOn, Bool.and_true]
  exact continues_replicate 61439

theorem records_longFile : Lines.records Byte.nl longFile = longChain := by
  rw [longFile, longChain, List.map_cons, List.map_cons, List.map_singleton, Lines.unlines_cons,
    Lines.unlines_cons, Lines.unlines_cons, Lines.records_line Byte.nl nl_not_mem_longLine,
    Lines.records_line Byte.nl nl_not_mem_longLine, Lines.records_line Byte.nl (by decide)]
  rfl

theorem chain_longChain : Chain false (Lines.records Byte.nl longFile) [] longChain [] := by
  refine ⟨by rw [records_longFile, List.nil_append, List.append_nil], List.cons_ne_nil _ _, ?_,
    fun p hp => (by cases hp), fun h => absurd rfl h⟩
  show ∀ p ∈ [(longLine, true), (longLine, true)], goesOn false p = true
  rw [List.forall_mem_cons, List.forall_mem_singleton]
  exact ⟨goesOn_longLine, goesOn_longLine⟩

theorem linesFit_longFile : LinesFit longFile := by
  have hlines : Lines.lines Byte.nl longFile = longChain.map Prod.fst := by
    refine Lines.lines_unlines Byte.nl ?_
    rw [longChain, List.map_cons, List.map_cons, List.map_singleton, List.forall_mem_cons,
      List.forall_mem_cons, List.forall_mem_singleton]
    exact ⟨nl_not_mem_longLine, nl_not_mem_longLine, by decide⟩
  rw [LinesFit, hlines, longChain, List.map_cons, List.map_cons, List.map_singleton,
    List.forall_mem_cons, List.forall_mem_cons, List.forall_mem_singleton, length_longLine]
  exact ⟨le_rfl, le_rfl, by decide⟩

/-- The second line is too much; the third is read as a line of its own. -/
theorem linesLoop_two_long {l : Bytes} (hl : goesOn false (l, true) = true)
    (hlen : l.length = 61440) :
    (linesLoop false true [(l, true), (l, true), (ascii "B=1", true)] ⟨0, []⟩).2 =
      [.tooLong, .line (ascii "B=1") 3] := by
  have hwork : workBuf = 65536 := rfl
  have hstrip : strip false l = l := rfl
  have hfirst : lineStep false true l true ⟨0, []⟩ = (⟨1, l.dropLast⟩, []) :=
    lineStep_goesOn rfl hl (by
      rw [hstrip, List.length_nil]
      omega)
  have hsecond : lineStep false true l true ⟨1, l.dropLast⟩ = (⟨2, []⟩, [.tooLong]) :=
    lineStep_strip_over (p := (l, true)) (by
      rw [hstrip, List.length_dropLast]
      omega)
  have hthird : lineStep false true (ascii "B=1") true ⟨2, []⟩ =
      (⟨3, []⟩, [.line (ascii "B=1") 3]) := by decide +kernel
  rw [linesLoop, hfirst, linesLoop, hsecond, linesLoop, hthird]
  rfl

theorem eventsAt_longChain :
    eventsAt false [] longChain = [.tooLong, .line (ascii "B=1") 3] :=
  linesLoop_two_long goesOn_longLine length_longLine

/-- Shell format, delta, continuation accepted. -/
def Config.joiningDelta : Config where
  native := false
  action := .delta
  bom := .literal
  stripCr := false
  nulReject := false
  shellCont := true
  native_bom := fun _ => rfl
  native_cont := fun h => absurd h Bool.false_ne_true

theorem prePasses_joiningDelta (s : Bytes) :
    prePasses .joiningDelta (Stream.ofBytes s) = .ok s := by
  have hall : (Stream.ofBytes s).reads.flatten = s := freads_flatten s s.length le_rfl
  rw [prePasses, hall]
  show (if hasBom s then Except.ok s else Except.ok s) = Except.ok s
  exact ite_self _

/-- A chain of two lines that fits. -/
theorem reportedOnce_iff_short_two :
    ReportedOnce .c .joiningDelta []
      (eventsAt false [] [(ascii "A=1\\", true), (ascii "2", true)]) := by
  have hchain : Chain false (Lines.records Byte.nl (ascii "A=1\\\n2\n")) []
      [(ascii "A=1\\", true), (ascii "2", true)] [] :=
    ⟨by decide +kernel, List.cons_ne_nil _ _, by decide +kernel, fun p hp => (by cases hp),
      fun h => absurd rfl h⟩
  refine (@reportedOnce_iff_short .c .joiningDelta [] _ _ _ _ _ rfl (prePasses_joiningDelta _)
    (by decide +kernel) hchain).2.mpr ?_
  rw [stripFlag, Config.joiningDelta, Bool.false_and, Short, if_neg (by decide +kernel)]
  decide +kernel

/-- The last line of a chain that is too long is bound and printed. -/
theorem longFile_remainder :
    LinesFit longFile ∧ Chain false (Lines.records Byte.nl longFile) [] longChain [] ∧
      (processFile .c .joiningDelta [] (Stream.ofBytes longFile) .zero).2.codes = [.lineTooLong] ∧
      (processFile .c .joiningDelta [] (Stream.ofBytes longFile) .zero).2.stdout =
        [(ascii "B", ascii "1")] := by
  refine ⟨linesFit_longFile, chain_longChain, ?_⟩
  have hflag : stripFlag .joiningDelta longFile = false := Bool.false_and _
  have hevents : streamEvents false true (Stream.ofBytes longFile) =
      [.tooLong, .line (ascii "B=1") 3] := by
    rw [streamEvents_eq _ _ linesFit_longFile, records_longFile]
    exact eventsAt_longChain
  have hrun : processFile .c .joiningDelta [] (Stream.ofBytes longFile) =
      Step.run (eventStep .c .joiningDelta []) [.tooLong, .line (ascii "B=1") 3] := by
    rw [processFile_events, prePasses_joiningDelta]
    simp only [hflag]
    rw [← hevents]
    rfl
  rw [hrun]
  decide +kernel

end Envfile.C
