/-
# `Envfile.C.Serial` — what `dump` prints can be read back

An `Entry` is a binding that a line of native format holds: a key with
something in it that does not start a comment, no `=` in the key, no newline
and no NUL.  `ser` writes entries down.

Native `dump` reads what `ser` wrote and writes it again (`native_dump_ser`),
and whatever `dump` prints, of whatever file, is `ser` of some entries
(`dump_isEntry`), so that native `dump` is the identity on it.
-/
import Envfile.C.Concat

namespace Envfile.C

/-- A binding that fits into one line of native format. -/
structure IsEntry (b : Binding) : Prop where
  key_ne_nil : b.1 ≠ []
  no_comment : b.1.head? ≠ some Byte.hash
  no_equals : Byte.equals ∉ b.1
  key_bytes : ∀ c ∈ b.1, c ≠ Byte.nl ∧ c ≠ Byte.nul
  value_bytes : ∀ c ∈ b.2, c ≠ Byte.nl ∧ c ≠ Byte.nul
  fits : (b.1 ++ Byte.equals :: b.2).length ≤ maxLine

/-- The bindings that can be written down. -/
abbrev Entry := { b : Binding // IsEntry b }

/-- The line of an entry. -/
def Entry.line (e : Entry) : Bytes := e.val.1 ++ Byte.equals :: e.val.2

/-- Some entries written down, one line each. -/
def ser (kvs : List Entry) : Bytes := (kvs.map fun e => e.line ++ [Byte.nl]).flatten

theorem ser_eq (kvs : List Entry) : ser kvs = Lines.unlines Byte.nl (kvs.map Entry.line) := by
  rw [ser, Lines.unlines, List.map_map]
  rfl

theorem bytes_of_stdout {o : Out Int32} {kvs : List Entry} (h : o.stdout = kvs.map Subtype.val) :
    o.bytes = ser kvs := by
  rw [Out.bytes, h, ser, List.map_map]
  rfl

/-! ## Reading what was written -/

section Read

variable (e : Entry)

theorem Entry.line_bytes : ∀ c ∈ e.line, c ≠ Byte.nl ∧ c ≠ Byte.nul := by
  intro c hc
  rcases List.mem_append.mp hc with hk | hv
  · exact e.property.key_bytes c hk
  rcases List.mem_cons.mp hv with rfl | hv
  · decide
  · exact e.property.value_bytes c hv

theorem Entry.nl_not_mem : Byte.nl ∉ e.line := fun h => (e.line_bytes _ h).1 rfl

theorem Entry.nul_not_mem : Byte.nul ∉ e.line := fun h => (e.line_bytes _ h).2 rfl

theorem Entry.not_skipped : isSkipped e.line = false := by
  rw [Entry.line, isSkipped_assignment e.property.key_ne_nil]
  exact beq_eq_false_iff_ne.mpr e.property.no_comment

theorem Entry.outcome : outcome true e.line = .accepted e.val.1 e.val.2 .plain := by
  show nativeOutcome e.line = _
  rw [nativeOutcome, lineOutcomeC, e.not_skipped, if_neg Bool.false_ne_true,
    if_neg e.nul_not_mem, assignmentOutcome]
  have hsplit : splitEquals e.line = some e.val := splitEquals_append e.property.no_equals e.val.2
  rw [hsplit]
  show nativeAssignment e.val.1 e.val.2 = _
  rw [nativeAssignment, if_neg e.property.key_ne_nil]

end Read

theorem forall_lines {p : Bytes → Prop} (h : ∀ e : Entry, p e.line) (kvs : List Entry) :
    ∀ l ∈ kvs.map Entry.line, p l := by
  intro l hl
  obtain ⟨e, -, rfl⟩ := List.mem_map.mp hl
  exact h e

theorem lines_ser (kvs : List Entry) : Lines.lines Byte.nl (ser kvs) = kvs.map Entry.line := by
  rw [ser_eq, Lines.lines_unlines Byte.nl (forall_lines Entry.nl_not_mem kvs)]

theorem nul_not_mem_ser (kvs : List Entry) : Byte.nul ∉ ser kvs := by
  rw [ser_eq]
  exact nul_not_mem_unlines (forall_lines Entry.nul_not_mem kvs)

theorem linesFit_ser (kvs : List Entry) : LinesFit (ser kvs) := by
  rw [ser_eq]
  exact linesFit_unlines (forall_lines Entry.nl_not_mem kvs)
    (forall_lines (fun e => e.property.fits) kvs)

/-- Native `dump` without CR stripping. -/
structure Config.NativeDump (cfg : Config) : Prop where
  native : cfg.native = true
  action : cfg.action = .dump
  stripCr : cfg.stripCr = false

section Dump

variable {cfg : Config}

theorem Config.NativeDump.plain (h : cfg.NativeDump) : cfg.Plain :=
  ⟨cfg.native_bom h.native, h.stripCr, cfg.native_cont h.native⟩

theorem body_entry (h : cfg.NativeDump) (tag : Bytes) (e : Entry) (lineNo : Nat) (env : EnvTable) :
    body .c cfg tag e.line lineNo env =
      (env, Out.hand e.line lineNo + (Out.check + Out.print e.val.1 e.val.2)) := by
  rw [body_eq cfg (by rw [h.action]; rintro ⟨⟩), h.native, h.action, e.outcome]
  rfl

theorem run_entries (h : cfg.NativeDump) (tag : Bytes) (kvs : List Entry) (n : Nat)
    (env : EnvTable) :
    let o := (Step.run (fun p => body .c cfg tag p.1 p.2)
      (Lines.number n (kvs.map Entry.line)) env).2
    o.stdout = kvs.map Subtype.val ∧ o.diags = [] ∧ o.errors = 0 ∧ o.checked = kvs.length := by
  induction kvs generalizing n env with
  | nil => exact ⟨rfl, rfl, rfl, Nat.cast_zero.symm⟩
  | cons e kvs ih =>
      obtain ⟨hstdout, hdiags, herrors, hchecked⟩ := ih (n + 1) env
      rw [List.map_cons, Lines.number, Step.run_cons, body_entry h]
      refine ⟨?_, ?_, ?_, ?_⟩
      · rw [Out.add_stdout, hstdout]
        rfl
      · rw [Out.add_diags, hdiags]
        rfl
      · rw [Out.add_errors, herrors]
        rfl
      · rw [Out.add_checked, hchecked, List.length_cons]
        exact (Int32.add_comm _ _).trans (Nat.cast_succ kvs.length).symm

theorem native_dump_ser (h : cfg.NativeDump) (environ : Environ) (path : Bytes)
    (kvs : List Entry) :
    let o := (runFiles .c cfg environ [.readable path (ser kvs)]).out
    o.bytes = ser kvs ∧ o.diags = [] ∧ o.errors = 0 ∧ o.checked = kvs.length := by
  have hemit := emitted_of_ne cfg (by rw [h.action]; rintro ⟨⟩)
  obtain ⟨hstdout, hdiags, herrors, hchecked⟩ :=
    run_entries h path kvs 0 (initialTable cfg environ)
  rw [runFiles_one, hemit, add_zero,
    processFile_plain .c h.plain path (nul_not_mem_ser kvs) (linesFit_ser kvs), lines_ser]
  exact ⟨bytes_of_stdout hstdout, hdiags, herrors, hchecked⟩

/-! ## What `dump` prints -/

theorem isEntry_of_accepted {native : Bool} {line k v : Bytes} {quoting : Quoting}
    (h : outcome native line = .accepted k v quoting) (hnl : Byte.nl ∉ line)
    (hfit : line.length ≤ maxLine) : IsEntry (k, v) := by
  obtain ⟨hskip, hnul, raw, rfl, hk, hne, hvalue⟩ := outcome_accepted h
  have hsub : (k ++ Byte.equals :: v).Sublist (k ++ Byte.equals :: raw) :=
    (List.Sublist.refl k).append (hvalue.sublist.cons_cons Byte.equals)
  have hbytes : ∀ c ∈ k ++ Byte.equals :: v, c ≠ Byte.nl ∧ c ≠ Byte.nul := by
    intro c hc
    have hc := hsub.subset hc
    exact ⟨fun e => hnl (e ▸ hc), fun e => hnul (e ▸ hc)⟩
  refine ⟨hne, ?_, hk, ?_, ?_, le_trans hsub.length_le hfit⟩
  · -- a line that starts with `#` would have been skipped
    intro hhash
    have hhead : (k ++ Byte.equals :: raw).head? = some Byte.hash := by
      rw [List.head?_append_of_ne_nil k hne, hhash]
    rw [isSkipped, hhead, beq_self_eq_true, Bool.or_true] at hskip
    cases hskip
  · exact fun c hc => hbytes c (List.mem_append_left _ hc)
  · exact fun c hc => hbytes c (List.mem_append_right _ (List.mem_cons_of_mem _ hc))

theorem body_isEntry (hact : cfg.action = .dump) {tag line : Bytes} {lineNo : Nat}
    {env : EnvTable} (hnl : Byte.nl ∉ line) (hfit : line.length ≤ maxLine) :
    ∀ b ∈ (body .c cfg tag line lineNo env).2.stdout, IsEntry b := by
  intro b hb
  rw [body_eq cfg (by rw [hact]; rintro ⟨⟩), hact, Step.prepend_snd, Out.add_stdout] at hb
  cases ho : outcome cfg.native line with
  | skipped =>
      rw [ho] at hb
      exact absurd hb List.not_mem_nil
  | rejected code =>
      rw [ho] at hb
      exact absurd hb List.not_mem_nil
  | accepted k v quoting =>
      rw [ho] at hb
      obtain rfl : b = (k, v) := List.mem_singleton.mp hb
      exact isEntry_of_accepted ho hnl hfit

theorem dump_isEntry (hact : cfg.action = .dump) (environ : Environ) (path : Bytes) {f : Bytes}
    (hfit : LinesFit f)
    (hjoined : ∀ data, prePasses cfg (Stream.ofBytes f) = .ok data → JoinedFit cfg data) :
    ∀ b ∈ (runFiles .c cfg environ [.readable path f]).out.stdout, IsEntry b := by
  have hemit := emitted_of_ne cfg (by rw [hact]; rintro ⟨⟩)
  rw [runFiles_one, hemit, add_zero, processFile_eq .c cfg path hfit hjoined]
  cases hpass : prePasses cfg (Stream.ofBytes f) with
  | error code => exact fun _ h => absurd h List.not_mem_nil
  | ok data =>
      refine Step.run_out (fun _ => True) (fun o => ∀ b ∈ Out.stdout o, IsEntry b)
        (fun _ h => absurd h List.not_mem_nil) ?_ ?_ trivial
      · intro v w hv hw b hb
        rw [Out.add_stdout, List.mem_append] at hb
        exact hb.elim (hv b) (hw b)
      · intro q hq env _
        obtain ⟨hlen, hbytes⟩ :=
          of_mem_handedLines cfg (linesFit_of_prePasses hfit hpass) (hjoined data hpass) hq
        exact ⟨trivial, body_isEntry hact (fun h => (hbytes _ h).1 rfl) hlen⟩

/-- `dump` and `ser` are inverse to each other: native `dump` prints back what
was written down, and what `dump` prints of any file could have been written
down, so that native `dump` prints it again. -/
theorem dump_ser {dump : Config} (hdump : dump.NativeDump) (environ : Environ) (path : Bytes) :
    (∀ kvs : List Entry,
      let o := (runFiles .c dump environ [.readable path (ser kvs)]).out
      o.bytes = ser kvs ∧ o.diags = [] ∧ o.errors = 0 ∧ o.checked = kvs.length) ∧
    ∀ (cfg : Config) (f : Bytes), cfg.action = .dump → Byte.nul ∉ f → LinesFit f →
      (∀ data, prePasses cfg (Stream.ofBytes f) = .ok data → JoinedFit cfg data) →
      let printed := (runFiles .c cfg environ [.readable path f]).out.bytes
      (∃ kvs : List Entry, printed = ser kvs) ∧
        (runFiles .c dump environ [.readable path printed]).out.bytes = printed ∧
        (runFiles .c dump environ [.readable path printed]).out.errors = 0 := by
  refine ⟨native_dump_ser hdump environ path, ?_⟩
  intro cfg f hact _ hfit hjoined printed
  have hentries := dump_isEntry hact environ path hfit hjoined
  obtain ⟨kvs, hkvs⟩ : ∃ kvs : List Entry,
      (runFiles .c cfg environ [.readable path f]).out.stdout = kvs.map Subtype.val :=
    ⟨_, (List.attachWith_map_subtype_val hentries).symm⟩
  have hprinted : printed = ser kvs := bytes_of_stdout hkvs
  obtain ⟨hbytes, -, herrors, -⟩ := native_dump_ser hdump environ path kvs
  rw [hprinted]
  exact ⟨⟨kvs, rfl⟩, hbytes, herrors⟩

theorem plain_nativeDump : (Config.plain true .dump).NativeDump := ⟨rfl, rfl, rfl⟩

theorem isEntry_cr : IsEntry (ascii "A", ascii "b\r") :=
  @isEntry_of_accepted true (ascii "A=b\r") _ _ .plain (by decide) (by decide) (by decide)

/-- A value that ends in a CR, and a file of shell format with a quoted value. -/
theorem dump_ser_plain :
    (let kvs : List Entry := [⟨_, isEntry_cr⟩]
      let o := (runFiles .c (.plain true .dump) [] [.readable [] (ser kvs)]).out
      o.bytes = ser kvs ∧ o.diags = [] ∧ o.errors = 0 ∧ o.checked = kvs.length) ∧
    let f := ascii "#\nA='b = c'\n"
    let printed := (runFiles .c (.plain false .dump) [] [.readable [] f]).out.bytes
    (∃ kvs : List Entry, printed = ser kvs) ∧
      (runFiles .c (.plain true .dump) [] [.readable [] printed]).out.bytes = printed ∧
      (runFiles .c (.plain true .dump) [] [.readable [] printed]).out.errors = 0 := by
  obtain ⟨hread, hprinted⟩ := dump_ser plain_nativeDump [] []
  refine ⟨hread _, hprinted (.plain false .dump) _ rfl (by decide) (by decide) ?_⟩
  intro data _
  exact joinedFit_off rfl data

end Dump

end Envfile.C
