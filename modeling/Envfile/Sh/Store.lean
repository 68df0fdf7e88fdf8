/-
# `Envfile.Sh.Store` — the file of the environment

The file has a line `name=value` for each binding.  `env_set` takes the lines
of a name out and puts one behind the others, and `env_get` takes the last line
that starts with `name=`, up to its first `=`.  As long as no name has an `=`
the file is a map (`envGet_eq`).

Two things break it.  The entries of the process are printed line by line, so
an entry with a newline is cut, and what follows the newline can look like an
entry of its own.  And a reference may be to a name with an `=`, which no
variable has: `${A=b}` finds the line `A=b=c`.  `Answers` says when neither
happens, for one name, and `envGet_eq_bound_iff` that it is exactly then that
the file and the map agree.
-/
import Envfile.Lib.Assign
import Envfile.Record
import Envfile.Sh.Join

namespace Envfile.Sh

open Assign

/-- The entry of a binding, or its line in the file. -/
def entry (b : Binding) : Bytes := b.1 ++ Byte.equals :: b.2

/-! ## The lines of the file -/

/-- A file with a line for each of some bindings. -/
structure Holds (store : Bytes) (bs : List Binding) : Prop where
  lines : readLines store = bs.map entry
  keyed : ∀ b ∈ bs, Byte.equals ∉ b.1

section Lines

variable {name key value : Bytes}

theorem bindsName_iff {line : Bytes} :
    bindsName name line = true ↔ ∃ v, line = entry (name, v) := by
  rw [bindsName, List.isPrefixOf_iff_prefix]
  constructor
  · rintro ⟨v, rfl⟩
    exact ⟨v, by rw [entry, List.append_assoc]; rfl⟩
  · rintro ⟨v, rfl⟩
    exact ⟨v, by rw [entry, List.append_assoc]; rfl⟩

theorem bindsName_entry (hname : Byte.equals ∉ name) (hkey : Byte.equals ∉ key) :
    bindsName name (entry (key, value)) = decide (key = name) := by
  rw [Bool.eq_iff_iff, bindsName_iff, decide_eq_true_iff]
  constructor
  · rintro ⟨v, h⟩
    exact (split_unique hkey hname h).1
  · rintro rfl
    exact ⟨value, rfl⟩

theorem afterEquals_entry (hkey : Byte.equals ∉ key) :
    afterEquals (entry (key, value)) = value := by
  have hfind : (key ++ Byte.equals :: value).idxOf? Byte.equals = some key.length :=
    memchr_append hkey value
  rw [afterEquals, entry, hfind]
  exact drop_after _ _ _

theorem hasEquals_entry (b : Binding) : hasEquals (entry b) = true := by
  rw [hasEquals, entry, List.contains_iff_mem]
  exact List.mem_append_right _ List.mem_cons_self

end Lines

/-! ## The operations -/

section Operations

variable {store : Bytes} {bs : List Binding}

theorem envGet_eq (h : Holds store bs) {name : Bytes} (hname : Byte.equals ∉ name) :
    envGet store name = assign empty bs name := by
  rw [envGet, h.lines, List.foldl_map]
  have hkeyed := h.keyed
  clear h
  induction bs using List.reverseRecOn with
  | nil => rfl
  | append_singleton bs b ih =>
      have hb := hkeyed b (List.mem_append_right _ (List.mem_singleton_self b))
      rw [List.foldl_append, ih fun c hc => hkeyed c (List.mem_append_left _ hc), assign_concat,
        List.foldl_cons, List.foldl_nil, bindsName_entry hname hb, afterEquals_entry hb]
      by_cases hkey : b.1 = name
      · rw [decide_eq_true hkey, if_pos rfl, ← hkey, Function.update_self]
      · rw [decide_eq_false hkey, if_neg Bool.false_ne_true, Function.update_of_ne (Ne.symm hkey)]

/-- A binding that `env_set` is called with. -/
structure Settable (b : Binding) : Prop where
  keyed : Byte.equals ∉ b.1
  key : Byte.nl ∉ b.1
  value : Byte.nl ∉ b.2

theorem Settable.nl_not_mem {b : Binding} (h : Settable b) : Byte.nl ∉ entry b := by
  rw [entry, List.mem_append, List.mem_cons]
  rintro (hmem | hmem | hmem)
  · exact h.key hmem
  · cases hmem
  · exact h.value hmem

theorem Holds.set (h : Holds store bs) {b : Binding} (hb : Settable b) :
    Holds (envSet store b.1 b.2) (bs.filter (fun c => c.1 ≠ b.1) ++ [b]) := by
  have hfilter : (readLines store).filter (fun line => !bindsName b.1 line && hasEquals line) =
      (bs.filter fun c => c.1 ≠ b.1).map entry := by
    rw [h.lines, List.filter_map]
    congr 1
    refine List.filter_congr ?_
    intro c hc
    show (!bindsName b.1 (entry c) && hasEquals (entry c)) = _
    rw [bindsName_entry hb.keyed (h.keyed c hc), hasEquals_entry, Bool.and_true, decide_not]
  have htext : envSet store b.1 b.2 =
      ((((bs.filter fun c => c.1 ≠ b.1) ++ [b]).map entry).map printLine).flatten := by
    rw [envSet, hfilter, List.map_append, List.map_append, List.flatten_append, List.map_singleton,
      List.map_singleton, List.flatten_singleton]
    rfl
  refine ⟨?_, ?_⟩
  · rw [htext]
    refine readLines_printed ?_
    intro line hline
    obtain ⟨c, hc, rfl⟩ := List.mem_map.mp hline
    rcases List.mem_append.mp hc with hc | hc
    · -- a line that was there before
      have hmem : entry c ∈ readLines store := by
        rw [h.lines]
        exact List.mem_map_of_mem (List.mem_filter.mp hc).1
      exact not_mem_of_mem_readLines hmem
    · rw [List.mem_singleton.mp hc]
      exact hb.nl_not_mem
  · intro c hc
    rcases List.mem_append.mp hc with hc | hc
    · exact h.keyed c (List.mem_filter.mp hc).1
    · rw [List.mem_singleton.mp hc]
      exact hb.keyed

/-- The bindings of the file after some calls of `env_set`. -/
def setAll (bs sets : List Binding) : List Binding :=
  sets.foldl (fun bs b => bs.filter (fun c => c.1 ≠ b.1) ++ [b]) bs

theorem Holds.setAll (h : Holds store bs) {sets : List Binding} (hsets : ∀ b ∈ sets, Settable b) :
    Holds (sets.foldl (fun store b => envSet store b.1 b.2) store) (setAll bs sets) := by
  induction sets generalizing store bs with
  | nil => exact h
  | cons b sets ih =>
      exact ih (h.set (hsets b List.mem_cons_self)) fun c hc => hsets c (List.mem_cons_of_mem _ hc)

theorem setAll_concat (bs sets : List Binding) (b : Binding) :
    setAll bs (sets ++ [b]) = (setAll bs sets).filter (fun c => c.1 ≠ b.1) ++ [b] :=
  List.foldl_append

theorem assign_setAll (bs sets : List Binding) (name : Bytes) :
    assign empty (setAll bs sets) name = assign empty (bs ++ sets) name := by
  induction sets using List.reverseRecOn with
  | nil => rw [List.append_nil]; rfl
  | append_singleton sets b ih =>
      rw [setAll_concat, ← List.append_assoc, assign_concat, assign_concat]
      by_cases hname : name = b.1
      · rw [hname, Function.update_self, Function.update_self]
      · have hkeep : decide (name ≠ b.1) = true := decide_eq_true hname
        rw [Function.update_of_ne hname, Function.update_of_ne hname,
          assign_filter (p := fun k => decide (k ≠ b.1)) hkeep, ih]

theorem mem_setAll (bs sets : List Binding) (name value : Bytes) :
    (name, value) ∈ setAll bs sets ↔
      if name ∈ sets.map Prod.fst then assign empty sets name = some value
      else (name, value) ∈ bs := by
  induction sets using List.reverseRecOn with
  | nil => rw [if_neg (by exact List.not_mem_nil)]; rfl
  | append_singleton sets b ih =>
      rw [setAll_concat, assign_concat, List.mem_append, List.mem_filter, List.mem_singleton, ih,
        decide_eq_true_iff]
      by_cases hname : name = b.1
      · have hmem : name ∈ (sets ++ [b]).map Prod.fst := by simp [hname]
        rw [if_pos hmem, hname, Function.update_self, Option.some_inj]
        constructor
        · rintro (⟨_, hne⟩ | h)
          · exact absurd rfl hne
          · rw [← h]
        · exact fun h => Or.inr (Prod.ext rfl h.symm)
      · have hne : (name, value) ≠ b := fun h => hname (congrArg Prod.fst h)
        have hmem : name ∈ (sets ++ [b]).map Prod.fst ↔ name ∈ sets.map Prod.fst := by
          simp [hname]
        simp only [Function.update_of_ne hname, hmem, hne, or_false, ne_eq, hname,
          not_false_eq_true, and_true]

end Operations

/-! ## The file at the start -/

section Start

/-- The lines that `env` prints: the entries, cut at their newlines. -/
def printed (seed : List Binding) : List Bytes :=
  seed.flatMap fun b => (entry b).splitOn Byte.nl

theorem readLines_envOutput (seed : List Binding) :
    readLines (envOutput (seed.map entry)) = printed seed := by
  rw [readLines_eq]
  induction seed with
  | nil => rfl
  | cons b seed ih =>
      show Lines.lines Byte.nl (printLine (entry b) ++ envOutput (seed.map entry)) = _
      rw [printLine, Lines.lines_append_of_rest Byte.nl (Lines.rest_concat Byte.nl _), ih,
        Lines.lines_concat]
      rfl

/-- The bindings that lines read as, without the variables of the program. -/
def kept (lines : List Bytes) : List Binding :=
  (lines.filterMap splitEquals).filter fun b => !envfilePrefix.isPrefixOf b.1

theorem entry_of_splitEquals {line : Bytes} {b : Binding} (h : splitEquals line = some b) :
    line = entry b ∧ Byte.equals ∉ b.1 := by
  rcases line_shape line with ⟨-, hsplit⟩ | ⟨k, v, rfl, hk, hsplit⟩
  · rw [hsplit] at h
    cases h
  · obtain rfl := Option.some.inj (hsplit.symm.trans h)
    exact ⟨rfl, hk⟩

theorem isEnvfileLine_entry (b : Binding) :
    isEnvfileLine (entry b) = envfilePrefix.isPrefixOf b.1 := by
  have hprefix := Lines.prefix_line_iff Byte.equals (u := envfilePrefix) (by decide) b.1 b.2
  rw [isEnvfileLine, Bool.eq_iff_iff, Bool.and_eq_true, List.isPrefixOf_iff_prefix,
    List.isPrefixOf_iff_prefix, entry, hprefix]
  constructor
  · exact And.left
  · rintro ⟨t, ht⟩
    refine ⟨⟨t, ht⟩, ?_⟩
    rw [hasEquals, List.contains_iff_mem, ← ht, List.append_assoc, List.drop_left]
    exact List.mem_append_right _ List.mem_cons_self

theorem filter_eq_map_kept (lines : List Bytes) :
    lines.filter (fun line => !isEnvfileLine line && hasEquals line) = (kept lines).map entry := by
  induction lines with
  | nil => rfl
  | cons line lines ih =>
      rw [List.filter_cons, ih, kept, kept]
      cases hsplit : splitEquals line with
      | none =>
          have hno : hasEquals line = false := by
            rw [hasEquals, Bool.eq_false_iff, ne_eq, List.contains_iff_mem]
            exact splitEquals_none.mp hsplit
          rw [hno, Bool.and_false, if_neg Bool.false_ne_true, List.filterMap_cons_none hsplit]
      | some b =>
          obtain ⟨rfl, -⟩ := entry_of_splitEquals hsplit
          rw [hasEquals_entry, Bool.and_true, isEnvfileLine_entry, List.filterMap_cons_some hsplit,
            List.filter_cons]
          cases envfilePrefix.isPrefixOf b.1 <;> rfl

theorem Holds.init (seed : List Binding) :
    Holds (initEnvStore (seed.map entry)) (kept (printed seed)) := by
  refine ⟨?_, ?_⟩
  · rw [initEnvStore, readLines_envOutput, readLines_printed, filter_eq_map_kept]
    intro line hline
    have hmem := (List.mem_filter.mp hline).1
    rw [← readLines_envOutput] at hmem
    exact not_mem_of_mem_readLines hmem
  · intro b hb
    obtain ⟨line, -, hsplit⟩ := List.mem_filterMap.mp (List.mem_filter.mp hb).1
    exact (entry_of_splitEquals hsplit).2

end Start

/-! ## The file and the map -/

section Answers

/-- The file after some calls of `env_set`. -/
def storeAfter (seed sets : List Binding) : Bytes :=
  sets.foldl (fun store b => envSet store b.1 b.2) (initEnvStore (seed.map entry))

/-- The map that the file stands for: what the process was started with, less
the variables of the program, and what was set since then. -/
def bound (seed sets : List Binding) : Bytes → Option Bytes :=
  assign empty (seed.filter (fun b => !envfilePrefix.isPrefixOf b.1) ++ sets)

/-- When the file answers for a name as the map does.  What counts of a name
with an `=` is the part before it, which a variable can have. -/
def Answers (seed sets : List Binding) (name : Bytes) : Prop :=
  if beforeEquals name ∈ sets.map Prod.fst then
    Byte.equals ∈ name → ∀ value, assign empty sets (beforeEquals name) = some value →
      bindsName name (entry (beforeEquals name, value)) = false
  else
    envfilePrefix <+: name ∨
      if Byte.equals ∈ name then ∀ line ∈ printed seed, bindsName name line = false
      else ((printed seed).filter (bindsName name)).getLast? =
        ((seed.map entry).filter (bindsName name)).getLast?

variable {seed sets : List Binding} {name : Bytes}

theorem holds_storeAfter (seed : List Binding) (hsets : ∀ b ∈ sets, Settable b) :
    Holds (storeAfter seed sets) (setAll (kept (printed seed)) sets) :=
  (Holds.init seed).setAll hsets

theorem entry_injective (name : Bytes) : Function.Injective fun value => entry (name, value) := by
  intro v w h
  exact (List.cons.inj (List.append_cancel_left h)).2

/-- The last line that starts with `name=` has the value of the name. -/
theorem getLast?_filter_bindsName (hname : Byte.equals ∉ name) (lines : List Bytes) :
    (lines.filter (bindsName name)).getLast? =
      (assign empty (lines.filterMap splitEquals) name).map fun value => entry (name, value) := by
  induction lines using List.reverseRecOn with
  | nil => rfl
  | append_singleton lines line ih =>
      rw [List.filter_append, List.filterMap_append]
      cases hsplit : splitEquals line with
      | none =>
          have hno : bindsName name line = false := by
            rw [Bool.eq_false_iff, ne_eq, bindsName_iff]
            rintro ⟨v, rfl⟩
            exact splitEquals_none.mp hsplit (List.mem_append_right _ List.mem_cons_self)
          rw [List.filter_singleton, hno, List.filterMap_cons_none hsplit, List.filterMap_nil,
            List.append_nil]
          simpa using ih
      | some b =>
          obtain ⟨rfl, hkey⟩ := entry_of_splitEquals hsplit
          rw [List.filter_singleton, bindsName_entry hname hkey, List.filterMap_cons_some hsplit,
            List.filterMap_nil, assign_concat]
          by_cases hb : b.1 = name
          · subst hb
            rw [decide_eq_true rfl, Function.update_self]
            exact List.getLast?_concat
          · rw [decide_eq_false hb, Function.update_of_ne (Ne.symm hb)]
            simpa using ih

theorem filterMap_splitEquals_entry {bs : List Binding} (h : ∀ b ∈ bs, Byte.equals ∉ b.1) :
    (bs.map entry).filterMap splitEquals = bs := by
  rw [List.filterMap_map]
  refine (List.filterMap_congr ?_).trans List.filterMap_some
  intro b hb
  exact splitEquals_append (h b hb) b.2

theorem envGet_eq_none {store : Bytes} :
    envGet store name = none ↔ ∀ line ∈ readLines store, bindsName name line = false := by
  rw [envGet]
  induction readLines store using List.reverseRecOn with
  | nil => simp
  | append_singleton lines line ih =>
      rw [List.foldl_append, List.foldl_cons, List.foldl_nil, List.forall_mem_append,
        List.forall_mem_singleton, ← ih]
      cases bindsName name line with
      | true => exact iff_of_false (Option.some_ne_none _) fun h => Bool.false_ne_true h.2.symm
      | false => exact (and_iff_left rfl).symm

theorem beforeEquals_of_not_mem (h : Byte.equals ∉ name) : beforeEquals name = name := by
  rw [beforeEquals, List.takeWhile_eq_self_iff]
  intro c hc
  exact bne_iff_ne.mpr fun heq => h (heq ▸ hc)

theorem beforeEquals_entry {b : Binding} (h : Byte.equals ∉ b.1) :
    beforeEquals (entry b) = b.1 := by
  have hkey := beforeEquals_of_not_mem h
  rw [beforeEquals, List.takeWhile_eq_self_iff] at hkey
  rw [beforeEquals, entry, List.takeWhile_append_of_pos hkey, List.takeWhile_cons,
    if_neg (by decide), List.append_nil]

theorem assign_append_of_mem {bs sets : List Binding} (h : name ∈ sets.map Prod.fst) :
    assign empty (bs ++ sets) name = assign empty sets name := by
  rw [assign_append, assign_eq_or]
  cases hset : assign empty sets name with
  | some value => rfl
  | none =>
      obtain ⟨b, hb, rfl⟩ := List.mem_map.mp h
      exact absurd rfl (assign_empty_eq_none.mp hset b hb)

theorem kept_eq_none (lines : List Bytes) (h : envfilePrefix <+: name) :
    assign empty (kept lines) name = none := by
  refine assign_empty_eq_none.mpr ?_
  rintro b hb rfl
  have hkeep := (List.mem_filter.mp hb).2
  rw [List.isPrefixOf_iff_prefix.mpr h] at hkeep
  cases hkeep

theorem assign_kept (lines : List Bytes) (h : ¬ envfilePrefix <+: name) :
    assign empty (kept lines) name = assign empty (lines.filterMap splitEquals) name := by
  have hkeep : (!envfilePrefix.isPrefixOf name) = true := by
    rwa [Bool.not_eq_true', Bool.eq_false_iff, ne_eq, List.isPrefixOf_iff_prefix]
  exact assign_filter (p := fun k => !envfilePrefix.isPrefixOf k) hkeep _ _

theorem mem_kept {key value : Bytes} (hkey : Byte.equals ∉ key) {lines : List Bytes} :
    (key, value) ∈ kept lines ↔ entry (key, value) ∈ lines ∧ ¬ envfilePrefix <+: key := by
  rw [kept, List.mem_filter, List.mem_filterMap, Bool.not_eq_true', Bool.eq_false_iff, ne_eq,
    List.isPrefixOf_iff_prefix]
  refine and_congr_left fun _ => ?_
  constructor
  · rintro ⟨line, hline, hsplit⟩
    rwa [← (entry_of_splitEquals hsplit).1]
  · exact fun h => ⟨_, h, splitEquals_append hkey value⟩

theorem bound_eq (hseed : ∀ b ∈ seed, Byte.equals ∉ b.1) (name : Bytes) :
    bound seed sets name = assign empty (kept (seed.map entry) ++ sets) name := by
  rw [bound, kept, filterMap_splitEquals_entry hseed]

theorem envGet_eq_bound_plain (hseed : ∀ b ∈ seed, Byte.equals ∉ b.1)
    (hsets : ∀ b ∈ sets, Settable b) (hname : Byte.equals ∉ name) :
    envGet (storeAfter seed sets) name = bound seed sets name ↔ Answers seed sets name := by
  rw [envGet_eq (holds_storeAfter seed hsets) hname, assign_setAll, bound_eq hseed, Answers,
    beforeEquals_of_not_mem hname, if_neg hname]
  by_cases hset : name ∈ sets.map Prod.fst
  · rw [if_pos hset, assign_append_of_mem hset, assign_append_of_mem hset]
    exact iff_of_true rfl fun h => absurd h hname
  rw [if_neg hset, assign_append, assign_append, assign_of_not_mem hset, assign_of_not_mem hset]
  by_cases hprefix : envfilePrefix <+: name
  · rw [kept_eq_none _ hprefix, kept_eq_none _ hprefix]
    exact iff_of_true rfl (Or.inl hprefix)
  rw [assign_kept _ hprefix, assign_kept _ hprefix, getLast?_filter_bindsName hname,
    getLast?_filter_bindsName hname, or_iff_right hprefix]
  exact (Option.map_injective (entry_injective name)).eq_iff.symm

theorem bound_eq_none (hseed : ∀ b ∈ seed, Byte.equals ∉ b.1) (hsets : ∀ b ∈ sets, Settable b)
    (hname : Byte.equals ∈ name) : bound seed sets name = none := by
  refine assign_empty_eq_none.mpr ?_
  rintro b hb rfl
  rcases List.mem_append.mp hb with hb | hb
  · exact hseed b (List.mem_filter.mp hb).1 hname
  · exact (hsets b hb).keyed hname

theorem entry_append (key q value : Bytes) :
    entry (key ++ Byte.equals :: q, value) = entry (key, q ++ Byte.equals :: value) := by
  rw [entry, entry, List.append_assoc]
  rfl

theorem key_of_bindsName {key q : Bytes} (hkey : Byte.equals ∉ key) {b : Binding}
    (hb : Byte.equals ∉ b.1) (h : bindsName (key ++ Byte.equals :: q) (entry b) = true) :
    b.1 = key := by
  obtain ⟨v, hv⟩ := bindsName_iff.mp h
  rw [entry_append] at hv
  exact (split_unique hb hkey hv).1

/-- A name with an `=`, which no variable has. -/
theorem envGet_eq_bound_keyed (hseed : ∀ b ∈ seed, Byte.equals ∉ b.1)
    (hsets : ∀ b ∈ sets, Settable b) (hname : Byte.equals ∈ name) :
    envGet (storeAfter seed sets) name = bound seed sets name ↔ Answers seed sets name := by
  have hholds := holds_storeAfter seed hsets
  obtain ⟨key, q, rfl, hkey⟩ := List.eq_append_cons_of_mem hname
  have hbefore : beforeEquals (key ++ Byte.equals :: q) = key :=
    beforeEquals_entry (b := (key, q)) hkey
  have hlines : (∀ line ∈ readLines (storeAfter seed sets),
        bindsName (key ++ Byte.equals :: q) line = false) ↔
      ∀ value, (key, value) ∈ setAll (kept (printed seed)) sets →
        bindsName (key ++ Byte.equals :: q) (entry (key, value)) = false := by
    rw [hholds.lines, List.forall_mem_map]
    constructor
    · exact fun h value hmem => h _ hmem
    · intro h b hb
      by_contra hbinds
      rw [Bool.not_eq_false] at hbinds
      obtain rfl := key_of_bindsName hkey (hholds.keyed b hb) hbinds
      rw [h b.2 hb] at hbinds
      cases hbinds
  have hprefix : envfilePrefix <+: key ++ Byte.equals :: q ↔ envfilePrefix <+: key :=
    Lines.prefix_line_iff Byte.equals (by decide) key q
  rw [bound_eq_none hseed hsets hname, envGet_eq_none, hlines, Answers, hbefore, if_pos hname,
    hprefix]
  simp only [mem_setAll]
  by_cases hset : key ∈ sets.map Prod.fst
  · simp only [if_pos hset]
    exact ⟨fun h _ => h, fun h => h hname⟩
  simp only [if_neg hset, mem_kept hkey]
  constructor
  · intro h
    by_cases henv : envfilePrefix <+: key
    · exact Or.inl henv
    refine Or.inr fun line hline => ?_
    by_contra hbinds
    rw [Bool.not_eq_false] at hbinds
    obtain ⟨v, rfl⟩ := bindsName_iff.mp hbinds
    rw [entry_append] at hbinds hline
    rw [h _ ⟨hline, henv⟩] at hbinds
    cases hbinds
  · rintro (henv | h) value ⟨hline, hnot⟩
    · exact absurd henv hnot
    · exact h _ hline

/-- Where no entry has a newline, the file answers for every name that a
variable can have. -/
theorem answers_of_no_newline (h : ∀ b ∈ seed, Byte.nl ∉ entry b) (hname : Byte.equals ∉ name) :
    Answers seed sets name := by
  have hprinted : printed seed = seed.map entry := by
    rw [printed, ← List.flatMap_pure_eq_map]
    refine List.flatMap_congr fun b hb => ?_
    rw [Lines.splitOn_eq, Lines.complete_of_not_mem Byte.nl (h b hb),
      Lines.rest_of_not_mem Byte.nl (h b hb)]
    rfl
  rw [Answers, beforeEquals_of_not_mem hname, if_neg hname, hprinted]
  split
  · exact fun hmem => absurd hmem hname
  · exact Or.inr rfl

end Answers

/-! ## What a run sets -/

section Runs

variable {store : Bytes}

theorem nl_not_mem_afterEquals {line : Bytes} (h : Byte.nl ∉ line) :
    Byte.nl ∉ afterEquals line := by
  rw [afterEquals]
  split
  · exact h
  · exact fun hmem => h (List.mem_of_mem_drop hmem)

theorem nl_not_mem_envGet {name value : Bytes} (h : envGet store name = some value) :
    Byte.nl ∉ value := by
  have hlines : ∀ line ∈ readLines store, Byte.nl ∉ line := fun _ => not_mem_of_mem_readLines
  rw [envGet] at h
  generalize readLines store = lines at h hlines
  induction lines using List.reverseRecOn with
  | nil => cases h
  | append_singleton lines line ih =>
      rw [List.foldl_append, List.foldl_cons, List.foldl_nil] at h
      split at h
      · obtain rfl := Option.some.inj h
        exact nl_not_mem_afterEquals
          (hlines line (List.mem_append_right _ (List.mem_singleton_self line)))
      · exact ih h fun l hl => hlines l (List.mem_append_left _ hl)

theorem nl_not_mem_resolve (path : Bytes) (lineno : Nat) (name : Bytes) :
    Byte.nl ∉ (resolve store path lineno name).1 := by
  rw [resolve]
  cases hget : envGet store name with
  | some value => exact nl_not_mem_envGet hget
  | none => exact List.not_mem_nil

/-- A value that is resolved has no newline, as the store is read line by line. -/
theorem nl_not_mem_substLoop (path : Bytes) (lineno rounds : Nat) {val : Bytes}
    (h : Byte.nl ∉ val) : Byte.nl ∉ (substLoop store path lineno rounds val).1 := by
  induction rounds generalizing val with
  | zero => exact List.not_mem_nil
  | succ rounds ih =>
      have hdrop : ∀ {s : Bytes} (i : Nat), Byte.nl ∉ s → Byte.nl ∉ s.drop i :=
        fun i hs hmem => hs (List.mem_of_mem_drop hmem)
      rw [substLoop]
      split
      · exact h
      rename_i pos _
      have hbefore : Byte.nl ∉ val.take pos := fun hmem => h (List.mem_of_mem_take hmem)
      have hrest := hdrop (pos + 1) h
      -- a round puts a `$`, or what a name resolves to, behind the text before it
      have hliteral : ∀ {tail : Bytes}, Byte.nl ∉ tail →
          Byte.nl ∉ val.take pos ++ Byte.dollar :: tail := by
        intro tail htail
        rw [List.mem_append, List.mem_cons]
        rintro (hmem | hmem | hmem)
        · exact hbefore hmem
        · cases hmem
        · exact htail hmem
      have hresolved : ∀ (name : Bytes) {tail : Bytes}, Byte.nl ∉ tail →
          Byte.nl ∉ val.take pos ++ (resolve store path lineno name).1 ++ tail := by
        intro name tail htail
        rw [List.mem_append, List.mem_append]
        rintro ((hmem | hmem) | hmem)
        · exact hbefore hmem
        · exact nl_not_mem_resolve path lineno name hmem
        · exact htail hmem
      dsimp only
      split
      · split
        · exact hliteral hrest
        · exact hresolved _ (ih (hdrop _ (hdrop 1 hrest)))
      split
      · exact hresolved _ (ih (hdrop _ hrest))
      · exact hliteral (ih hrest)

theorem equals_not_mem_beforeEquals (line : Bytes) : Byte.equals ∉ beforeEquals line := by
  intro hmem
  have := List.mem_takeWhile_imp hmem
  rw [bne_self_eq_false] at this
  cases this

theorem nl_not_mem_beforeEquals {line : Bytes} (h : Byte.nl ∉ line) :
    Byte.nl ∉ beforeEquals line :=
  fun hmem => h ((List.takeWhile_subset _) hmem)

theorem nl_not_mem_unquote {v value : Bytes} (h : Byte.nl ∉ v) (hvalue : unquote v = .ok value) :
    Byte.nl ∉ value := by
  cases v with
  | nil =>
      obtain rfl := Except.ok.inj hvalue
      exact h
  | cons c rest =>
      have hrest : Byte.nl ∉ rest := fun hmem => h (List.mem_cons_of_mem c hmem)
      rw [unquote] at hvalue
      split at hvalue
      · split at hvalue
        · cases hvalue
        split at hvalue
        · cases hvalue
        · obtain rfl := Except.ok.inj hvalue
          exact fun hmem => hrest (List.mem_of_mem_take hmem)
      split at hvalue
      · cases hvalue
      · obtain rfl := Except.ok.inj hvalue
        exact h

/-- What the file of a process can be: some bindings have been set. -/
def Stored (seed : List Binding) (store : Bytes) : Prop :=
  ∃ sets, (∀ b ∈ sets, Settable b) ∧ store = storeAfter seed sets

theorem Stored.set {seed : List Binding} (h : Stored seed store) {b : Binding} (hb : Settable b) :
    Stored seed (envSet store b.1 b.2) := by
  obtain ⟨sets, hsets, rfl⟩ := h
  refine ⟨sets ++ [b], ?_, ?_⟩
  · rw [List.forall_mem_append, List.forall_mem_singleton]
    exact ⟨hsets, hb⟩
  · rw [storeAfter, storeAfter, List.foldl_append]
    rfl

variable (cfg : Knobs) (seed : List Binding) (path : Bytes) (lineno : Nat)

theorem keeps_accept {k raw value : Bytes} (hkey : Byte.equals ∉ k) (hk : Byte.nl ∉ k)
    (hvalue : Byte.nl ∉ value) :
    Step.Keeps (Stored seed) (accept cfg k raw value path lineno) := by
  rw [accept]
  refine .prepend _ fun store hstore => ?_
  rw [doDelta]
  split
  · exact hstore
  · refine hstore.set (b := (k, _)) ⟨hkey, hk, ?_⟩
    split
    · exact nl_not_mem_substLoop path lineno _ hvalue
    · exact hvalue

theorem keeps_validateWork {rawV work : Bytes} (h : Byte.nl ∉ work) :
    Step.Keeps (Stored seed) (validateWork cfg path lineno rawV work) := by
  have hkey := equals_not_mem_beforeEquals work
  have hk := nl_not_mem_beforeEquals h
  have hv := nl_not_mem_afterEquals h
  rw [validateWork]
  refine .ite (fun _ => .emit _) (.ite (fun _ => .ite (fun _ => .emit _) ?_) ?_)
  · exact keeps_accept cfg seed path lineno hkey hk hv
  refine .ite (fun _ => .emit _) (.ite (fun _ => .emit _) (.ite (fun _ => .emit _) ?_))
  refine .ite (fun _ => .emit _) (.ite (fun _ => .emit _) ?_)
  cases hvalue : unquote (afterEquals work) with
  | error code => exact .emit _
  | ok value => exact keeps_accept cfg seed path lineno hkey hk (nl_not_mem_unquote hv hvalue)

theorem keeps_validateLine {line : Bytes} (h : Byte.nl ∉ line) :
    Step.Keeps (Stored seed) (validateLine cfg path lineno line) := by
  rw [validateLine]
  refine .prepend _ (.ite (fun _ => .skip) (.ite (fun _ => .skip) (.prepend _ ?_)))
  refine .ite (fun _ => .emit _) (.ite (fun _ => .emit _) ?_)
  refine keeps_validateWork cfg seed path lineno ?_
  split
  · exact h
  · exact fun hmem => h (trimCr_subset line hmem)

/-- Whatever files are read, the file is what some calls of `env_set` make of it. -/
theorem keeps_processFile (display input : Bytes) :
    Step.Keeps (Stored seed) (processFile cfg display input) := by
  rw [processFile]
  split
  · exact .emit _
  rename_i text _
  intro store hstore
  refine Step.run_inv (Stored seed) ?_ hstore
  intro p hp
  rw [numberLines_eq] at hp
  have hline : Byte.nl ∉ p.1 := not_mem_of_mem_readLines (Lines.mem_number hp)
  exact keeps_validateLine cfg seed display p.2 hline

end Runs

/-- `env_get` against the map, for every name. -/
theorem envGet_eq_bound_iff {seed sets : List Binding} (hseed : ∀ b ∈ seed, Byte.equals ∉ b.1)
    (hsets : ∀ b ∈ sets, Settable b) (name : Bytes) :
    envGet (storeAfter seed sets) name = bound seed sets name ↔ Answers seed sets name := by
  by_cases hname : Byte.equals ∈ name
  · exact envGet_eq_bound_keyed hseed hsets hname
  · exact envGet_eq_bound_plain hseed hsets hname

/-- A name that has been set is found, whatever the process was started with. -/
theorem envGet_eq_bound_iff_set :
    envGet (storeAfter [(ascii "A", ascii "x\nB=y")] [(ascii "B", ascii "z=w")]) (ascii "B") =
      bound [(ascii "A", ascii "x\nB=y")] [(ascii "B", ascii "z=w")] (ascii "B") := by
  refine (envGet_eq_bound_iff ?_ ?_ _).mpr ?_
  · rw [List.forall_mem_singleton]
    decide
  · rw [List.forall_mem_singleton]
    exact ⟨by decide, by decide, by decide⟩
  · rw [Answers, if_pos (by decide)]
    exact fun h => absurd h (by decide)

/-- The value of `A` has a second line, which looks like an entry of `B`; and
the line of an `A` that was set to `b=c` is found for `${A=b}`. -/
theorem envGet_ne_bound :
    (isName (ascii "B") = true ∧
      envGet (storeAfter [(ascii "A", ascii "x\nB=y")] []) (ascii "B") = some (ascii "y") ∧
      bound [(ascii "A", ascii "x\nB=y")] [] (ascii "B") = none) ∧
    envGet (storeAfter [] [(ascii "A", ascii "b=c")]) (ascii "A=b") = some (ascii "b=c") ∧
      bound [] [(ascii "A", ascii "b=c")] (ascii "A=b") = none := by
  decide +kernel

end Envfile.Sh
