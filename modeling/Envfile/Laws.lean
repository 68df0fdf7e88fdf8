/-
# `Envfile.Laws` — what holds of every run

The laws of `ofRun`, whatever the classifier, as far as it is `Sound`: the keys
and the values that it accepts are part of the line.  A run goes over its
`items` one after the other, the files that are rejected and the lines of those
that are not, so that each law is an induction over one list.

* `run_apply`: `apply` does what `delta` does, and prints nothing on its way;
* `run_delta_env`: what `delta` prints is what it changes;
* `errors_delta_iff`: `delta` finds no more fault than `validate` exactly when
  every reference is to a variable of the seed or of an earlier record;
* `run_listable`: what is printed is made of what was read.
-/
import Envfile.Lib.Assoc
import Envfile.Runs

namespace Envfile

/-- The same settings for another action. -/
def Knobs.withAction (cfg : Knobs) (action : Action) : Knobs := { cfg with action := some action }

namespace Meaning

open Assign

/-! ## Items -/

/-- What there is to do: a rejected file to report, or a line. -/
inductive Item where
  | fault (code : Code) (path : Bytes)
  | text (path : Bytes) (lineNo : Nat) (line : Bytes)

def items (cfg : Knobs) (file : File) : List Item :=
  match readFile cfg file with
  | .error code => [.fault code file.path]
  | .ok lines => lines.map fun p => .text file.path p.2 p.1

section Items

variable (classify : Bool → Bytes → Outcome) (native : Bool) (action : Action)

def Item.step : Item → Step Env (Out Nat)
  | fault code path => Step.emit (Out.diag ⟨code, none, path, none⟩)
  | text path lineNo line => Meaning.line native action (classify native) path lineNo line

/-- The record that an item is accepted as. -/
def Item.record : Item → Option (Bytes × Bytes × Quoting)
  | fault _ _ => none
  | text _ _ line =>
    match classify native line with
    | .accepted k v quoting => some (k, v, quoting)
    | _ => none

end Items

section Run

variable {classify : Bool → Bytes → Outcome} {action : Action} {cfg : Knobs}

theorem ofFile_items (file : File) :
    ofFile classify action cfg file =
      Step.run (Item.step classify cfg.native action) (items cfg file) := by
  funext env
  rw [ofFile, items]
  cases readFile cfg file with
  | error code =>
      exact (Step.run_singleton
          (Item.step classify cfg.native action) (.fault code file.path) env).symm
  | ok lines =>
      exact (Step.run_map (Item.step classify cfg.native action)
        (fun p : Bytes × Nat => .text file.path p.2 p.1) lines env).symm

theorem ofRun_items (environ : Environ) (files : List File) :
    ofRun classify action cfg environ files =
      Step.run (Item.step classify cfg.native action) (files.flatMap (items cfg))
        (start action environ) := by
  rw [ofRun, Step.run_flatMap]
  refine Step.run_congr (fun file _ env => ?_) _
  rw [ofFile_items]

end Run

/-! ## The lines that are handed on -/

section Handed

variable {cfg : Knobs} {c : UInt8}

theorem mem_stripCrs {ls : List Bytes} {l : Bytes} (hl : l ∈ stripCrs cfg ls) :
    ∃ m ∈ ls, l ⊆ m := by
  rw [stripCrs] at hl
  split at hl
  · obtain ⟨m, hm, rfl⟩ := List.mem_map.mp hl
    exact ⟨m, hm, trimCr_subset m⟩
  · exact ⟨l, hl, List.Subset.refl l⟩

/-- The passes make nothing up, and leave no newline. -/
theorem mem_physical {f : Bytes} {ls : List Bytes} (h : physical cfg f = .ok ls) {l : Bytes}
    (hl : l ∈ ls) (hc : c ∈ l) : c ∈ f ∧ c ≠ Byte.nl := by
  have hlines : ∀ g : Bytes, l ∈ stripCrs cfg (Lines.lines Byte.nl g) → c ∈ g ∧ c ≠ Byte.nl := by
    intro g hmem
    obtain ⟨m, hm, hsub⟩ := mem_stripCrs hmem
    refine ⟨Lines.mem_of_mem_lines Byte.nl hm (hsub hc), ?_⟩
    rintro rfl
    exact Lines.sep_not_mem_lines Byte.nl hm (hsub hc)
  rw [physical] at h
  split at h
  · cases h
  split at h
  · split at h
    · cases h
    · obtain rfl := Except.ok.inj h
      rw [behindBom] at hl
      split at hl
      · obtain ⟨m, hm, hsub⟩ := mem_stripCrs hl
        rw [List.mem_singleton.mp hm] at hsub
        exact absurd (hsub hc) List.not_mem_nil
      · exact ⟨List.mem_of_mem_drop (hlines _ hl).1, (hlines _ hl).2⟩
    · obtain rfl := Except.ok.inj h
      exact hlines f hl
  · obtain rfl := Except.ok.inj h
    exact hlines f hl

theorem mem_logical {ls : List Bytes} {p : Bytes × Nat} (hp : p ∈ logical cfg ls) (hc : c ∈ p.1) :
    ∃ l ∈ ls, c ∈ l := by
  rw [logical] at hp
  split at hp
  · exact (mem_joinFrom hp hc).resolve_left List.not_mem_nil
  · exact ⟨p.1, Lines.mem_number hp, hc⟩

theorem mem_handed {file : File} {p : Bytes × Nat} (hp : p ∈ handed cfg file) (hc : c ∈ p.1) :
    c ∈ file.contents ∧ c ≠ Byte.nl := by
  rw [handed, readFile] at hp
  split at hp
  · cases hp
  · rename_i lines hread
    split at hread
    · cases hread
    · cases hphysical : physical cfg file.contents with
      | error code =>
          rw [hphysical] at hread
          cases hread
      | ok ls =>
          rw [hphysical] at hread
          obtain rfl := Except.ok.inj hread
          obtain ⟨l, hl, hcl⟩ := mem_logical hp hc
          exact mem_physical hphysical hl hcl

theorem nul_not_mem_handed {file : File}
    (h : cfg.nulReject = true ∨ Byte.nul ∉ file.contents) {p : Bytes × Nat}
    (hp : p ∈ handed cfg file) : Byte.nul ∉ p.1 := by
  intro hmem
  have hfile := (mem_handed hp hmem).1
  have hphysical : physical cfg file.contents = .error .fileNul :=
    if_pos ⟨h.resolve_right fun hno => hno hfile, hfile⟩
  rw [handed, readFile, hphysical] at hp
  split at hp
  · cases hp
  · rename_i lines hread
    split at hread
    · cases hread
    · cases hread

theorem mem_items {files : List File} {path line : Bytes} {lineNo : Nat}
    (h : .text path lineNo line ∈ files.flatMap (items cfg)) :
    ∃ file ∈ files, (line, lineNo) ∈ handed cfg file := by
  obtain ⟨file, hfile, hitem⟩ := List.mem_flatMap.mp h
  refine ⟨file, hfile, ?_⟩
  rw [items] at hitem
  rw [handed]
  cases hread : readFile cfg file with
  | error code =>
      rw [hread] at hitem
      cases List.mem_singleton.mp hitem
  | ok lines =>
      rw [hread] at hitem
      obtain ⟨p, hp, heq⟩ := List.mem_map.mp hitem
      cases heq
      exact hp

end Handed

/-! ## `delta` and `apply` -/

/-- An output without what is printed. -/
def quiet : Out Nat →+ Out Nat where
  toFun o := { o with stdout := [] }
  map_zero' := rfl
  map_add' _ _ := rfl

section Delta

variable {classify : Bool → Bytes → Outcome} {native : Bool}

theorem quiet_unbound (path : Bytes) (lineNo : Nat) (names : List Bytes) :
    quiet (Out.unbound path lineNo names) = Out.unbound path lineNo names := by
  rw [Out.unbound_eq]
  rfl

/-- `apply` does to an item what `delta` does, and prints nothing. -/
theorem step_apply (item : Item) (env : Env) :
    item.step classify native .apply env =
      ((item.step classify native .delta env).1,
          quiet (item.step classify native .delta env).2) := by
  cases item with
  | fault code path => rfl
  | text path lineNo line =>
      rw [Item.step, Item.step, Meaning.line, Meaning.line]
      rw [if_neg (by decide), if_neg (by decide)]
      cases classify native line with
      | skipped => rfl
      | rejected code => rfl
      | accepted k v quoting =>
          refine Prod.ext rfl ?_
          show _ + (_ + (Out.unbound path lineNo _ + 0)) =
            quiet (_ + (_ + (Out.unbound path lineNo _ + Out.print k _)))
          rw [map_add, map_add, map_add, quiet_unbound]
          rfl

theorem step_delta_env (item : Item) (env : Env) :
    (item.step classify native .delta env).1 =
      assign env (item.step classify native .delta env).2.stdout := by
  cases item with
  | fault code path => rfl
  | text path lineNo line =>
      rw [Item.step, Meaning.line, if_neg (by decide)]
      cases classify native line with
      | skipped => rfl
      | rejected code => rfl
      | accepted k v quoting =>
          show Function.update env k _ =
            assign env ([] ++ ([] ++ ((Out.unbound path lineNo _ : Out Nat).stdout ++ [(k, _)])))
          rw [Out.unbound_eq]
          rfl

theorem run_apply (l : List Item) (env : Env) :
    Step.run (Item.step classify native .apply) l env =
      ((Step.run (Item.step classify native .delta) l env).1,
        quiet (Step.run (Item.step classify native .delta) l env).2) := by
  rw [← Step.run_hom]
  exact Step.run_congr (fun item _ env => step_apply item env) env

theorem run_delta_env (l : List Item) (env : Env) :
    (Step.run (Item.step classify native .delta) l env).1 =
      assign env (Step.run (Item.step classify native .delta) l env).2.stdout := by
  refine (Step.run_explains (fun _ => True) id (fun env (o : Out Nat) => assign env o.stdout)
    (fun _ => rfl) (fun env o p => assign_append env o.stdout p.stdout) ?_ trivial).2
  exact fun item _ env _ => ⟨trivial, step_delta_env item env⟩

end Delta

/-! ## Scope -/

/-- The records in order refer to nothing that is not bound: not by `bound`, and
not by a record that comes first. -/
def WellScoped (native : Bool) : (Bytes → Prop) → List (Bytes × Bytes × Quoting) → Prop
  | _, [] => True
  | bound, (k, v, quoting) :: records =>
    ((native || quoting != .single) = true → ∀ name, .ref name ∈ tokens v → bound name) ∧
      WellScoped native (fun name => name = k ∨ bound name) records

section Scope

variable {classify : Bool → Bytes → Outcome} {native : Bool}

theorem expand_unbound (lookup : Bytes → Option Bytes) (ts : List Token) :
    (expand lookup ts).2 = [] ↔ ∀ name, .ref name ∈ ts → (lookup name).isSome = true := by
  induction ts with
  | nil => exact iff_of_true rfl fun _ h => absurd h List.not_mem_nil
  | cons t ts ih =>
      cases t with
      | byte c =>
          rw [expand, ih]
          refine forall_congr' fun name => ?_
          simp
      | ref name =>
          rw [expand]
          cases hname : lookup name with
          | none =>
              refine iff_of_false (List.cons_ne_nil _ _) fun h => ?_
              have hbound := h name List.mem_cons_self
              rw [hname] at hbound
              cases hbound
          | some value =>
              rw [ih]
              constructor
              · intro h name' hmem
                rcases List.mem_cons.mp hmem with heq | hmem
                · cases heq
                  rw [hname]
                  rfl
                · exact h name' hmem
              · exact fun h name' hmem => h name' (List.mem_cons_of_mem _ hmem)

theorem resolve_unbound (quoting : Quoting) (v : Bytes) (env : Env) :
    (resolve native quoting v env).2 = [] ↔
      ((native || quoting != .single) = true → ∀ name, .ref name ∈ tokens v →
        (env name).isSome = true) := by
  rw [resolve]
  cases (native || quoting != .single) with
  | true =>
      exact ⟨fun h _ => (expand_unbound env (tokens v)).mp h,
        fun h => (expand_unbound env (tokens v)).mpr (h rfl)⟩
  | false => exact iff_of_true rfl (by rintro ⟨⟩)

/-- `delta` counts what `validate` counts, and the unbound names. -/
theorem step_delta_errors (item : Item) (env env' : Env) :
    (item.step classify native .delta env).2.errors =
      (item.step classify native .validate env').2.errors +
        match item.record classify native with
        | none => 0
        | some (_, v, quoting) => (resolve native quoting v env).2.length := by
  cases item with
  | fault code path => rfl
  | text path lineNo line =>
      rw [Item.step, Item.step, Item.record, Meaning.line, Meaning.line, if_neg (by decide),
        if_neg (by decide)]
      cases classify native line with
      | skipped => rfl
      | rejected code => rfl
      | accepted k v quoting =>
          show 0 + (0 + ((Out.unbound path lineNo _ : Out Nat).errors + 0)) = 0 + (0 + 0) + _
          rw [Out.unbound_eq]
          simp

theorem step_delta_bound (item : Item) (env : Env) (name : Bytes) :
    ((item.step classify native .delta env).1 name).isSome = true ↔
      (∃ r ∈ item.record classify native, name = r.1) ∨ (env name).isSome = true := by
  cases item with
  | fault code path => exact (or_iff_right (by rintro ⟨_, ⟨⟩, _⟩)).symm
  | text path lineNo line =>
      rw [Item.step, Item.record, Meaning.line, if_neg (by decide)]
      cases classify native line with
      | skipped => exact (or_iff_right (by rintro ⟨_, ⟨⟩, _⟩)).symm
      | rejected code => exact (or_iff_right (by rintro ⟨_, ⟨⟩, _⟩)).symm
      | accepted k v quoting =>
          show (Function.update env k _ name).isSome = true ↔ _
          by_cases hk : name = k
          · subst hk
            rw [Function.update_self]
            exact iff_of_true rfl (Or.inl ⟨_, rfl, rfl⟩)
          · rw [Function.update_of_ne hk]
            refine (or_iff_right ?_).symm
            rintro ⟨r, hr, rfl⟩
            cases hr
            exact hk rfl

theorem WellScoped.congr {records : List (Bytes × Bytes × Quoting)} :
    ∀ {bound bound' : Bytes → Prop}, (∀ name, bound name ↔ bound' name) →
      (WellScoped native bound records ↔ WellScoped native bound' records) := by
  intro bound bound' h
  rw [show bound = bound' from funext fun name => propext (h name)]

/-- `delta` finds no fault exactly when `validate` finds none and every reference
that is expanded is to a variable that is bound before. -/
theorem errors_delta_iff (l : List Item) (env env' : Env) :
    (Step.run (Item.step classify native .delta) l env).2.errors = 0 ↔
      (Step.run (Item.step classify native .validate) l env').2.errors = 0 ∧
        WellScoped native (fun name => (env name).isSome = true)
          (l.filterMap (Item.record classify native)) := by
  induction l generalizing env env' with
  | nil => exact iff_of_true rfl ⟨rfl, trivial⟩
  | cons item l ih =>
      rw [Step.run_cons, Step.run_cons, Out.add_errors, Out.add_errors, Nat.add_eq_zero_iff,
        Nat.add_eq_zero_iff, step_delta_errors item env env', Nat.add_eq_zero_iff,
        ih _ (item.step classify native .validate env').1, List.filterMap_cons]
      have hbound := @step_delta_bound classify native item env
      cases hrecord : item.record classify native with
      | none =>
          rw [hrecord] at hbound
          have hscope : WellScoped native (fun name =>
                ((item.step classify native .delta env).1 name).isSome = true)
              (l.filterMap (Item.record classify native)) ↔
              WellScoped native (fun name => (env name).isSome = true)
                (l.filterMap (Item.record classify native)) :=
            WellScoped.congr fun name => (hbound name).trans (or_iff_right (by rintro ⟨_, ⟨⟩, _⟩))
          rw [hscope]
          tauto
      | some r =>
          obtain ⟨k, v, quoting⟩ := r
          rw [hrecord] at hbound
          have hscope : WellScoped native (fun name =>
                ((item.step classify native .delta env).1 name).isSome = true)
              (l.filterMap (Item.record classify native)) ↔
              WellScoped native (fun name => name = k ∨ (env name).isSome = true)
                (l.filterMap (Item.record classify native)) := by
            refine WellScoped.congr fun name => (hbound name).trans (or_congr_left ?_)
            exact ⟨by rintro ⟨r, ⟨⟩, rfl⟩; rfl, fun h => ⟨_, rfl, h⟩⟩
          rw [hscope, WellScoped, List.length_eq_zero_iff, resolve_unbound]
          tauto

end Scope

/-! ## What is printed -/

/-- A classifier that accepts a key and a value that are parts of the line. -/
def Sound (classify : Bool → Bytes → Outcome) : Prop :=
  ∀ (native : Bool) (line k v : Bytes) (quoting : Quoting),
    classify native line = .accepted k v quoting →
    isSkipped line = false ∧ k ≠ [] ∧ Byte.equals ∉ k ∧ ∃ raw,
        line = k ++ Byte.equals :: raw ∧ v ⊆ raw

/-- What all keys of records are. -/
structure IsKey (k : Bytes) : Prop where
  nonempty : k ≠ []
  equals : Byte.equals ∉ k
  hash : k.head? ≠ some Byte.hash

/-- A binding with a key of one kind, made of bytes of one kind. -/
structure Listable (Q : Bytes → Prop) (P : UInt8 → Prop) (b : Binding) : Prop where
  key : Q b.1
  bytes : ∀ c ∈ b.1 ++ b.2, P c

/-- All bindings of an environment are. -/
def AllListable (Q : Bytes → Prop) (P : UInt8 → Prop) (env : Env) : Prop :=
  ∀ k v, env k = some v → Listable Q P (k, v)

section Printed

variable {classify : Bool → Bytes → Outcome} (hsound : Sound classify) {Q : Bytes → Prop}
  (hkey : ∀ k, IsKey k → Q k) {P : UInt8 → Prop}

include hsound hkey

theorem listable_of_accepted {native : Bool} {line k v : Bytes} {quoting : Quoting}
    (h : classify native line = .accepted k v quoting) (hline : ∀ c ∈ line, P c) :
    Listable Q P (k, v) := by
  obtain ⟨hskip, hk, hequals, raw, rfl, hv⟩ := hsound _ _ _ _ _ h
  refine ⟨hkey k ⟨hk, hequals, ?_⟩, ?_⟩
  · intro hhash
    have hhead : (k ++ Byte.equals :: raw).head? = some Byte.hash := by
      rw [List.head?_append_of_ne_nil k hk]
      exact hhash
    rw [isSkipped, hhead, beq_self_eq_true, Bool.or_true] at hskip
    cases hskip
  · intro c hc
    refine hline c ?_
    rcases List.mem_append.mp hc with hc | hc
    · exact List.mem_append_left _ hc
    · exact List.mem_append_right _ (List.mem_cons_of_mem _ (hv hc))

omit hsound hkey in
/-- A value that is resolved is made of the bytes of the value and of values of
the environment. -/
theorem listable_resolve {native : Bool} {quoting : Quoting} {k v : Bytes} {env : Env}
    (h : Listable Q P (k, v)) (henv : AllListable Q P env) :
    Listable Q P (k, (resolve native quoting v env).1) := by
  refine ⟨h.key, ?_⟩
  intro c hc
  rcases List.mem_append.mp hc with hc | hc
  · exact h.bytes c (List.mem_append_left _ hc)
  · rw [resolve] at hc
    split at hc
    · rcases mem_subst _ hc with hc | ⟨name, value, hname, hc⟩
      · exact h.bytes c (List.mem_append_right _ hc)
      · exact (henv name value hname).bytes c (List.mem_append_right _ hc)
    · exact h.bytes c (List.mem_append_right _ hc)

theorem step_listable {native : Bool} {action : Action}
    (hact : action = .normalize → ∀ k, Q k) {item : Item}
    (hitem : ∀ path lineNo line, item = .text path lineNo line → ∀ c ∈ line, P c) {env : Env}
    (henv : AllListable Q P env) :
    AllListable Q P (item.step classify native action env).1 ∧
      ∀ b ∈ (item.step classify native action env).2.stdout, Listable Q P b := by
  have hnothing : ∀ b ∈ ([] : List Binding), Listable Q P b := fun _ h => absurd h List.not_mem_nil
  cases item with
  | fault code path => exact ⟨henv, hnothing⟩
  | text path lineNo line =>
      have hline := hitem path lineNo line rfl
      rw [Item.step, Meaning.line]
      by_cases hnormalize : action = .normalize
      · rw [if_pos hnormalize]
        refine ⟨henv, fun b hb => ?_⟩
        have hb : b ∈ (printed path lineNo line).stdout := hb
        rw [printed] at hb
        split at hb
        · cases hb
        rcases line_shape line with ⟨-, hsplit⟩ | ⟨k, v, rfl, -, hsplit⟩
        · rw [hsplit] at hb
          cases hb
        · rw [hsplit] at hb
          obtain rfl : b = (k, v) := List.mem_singleton.mp hb
          refine ⟨hact hnormalize k, fun c hc => hline c ?_⟩
          exact (List.mem_append.mp hc).elim (List.mem_append_left _)
            fun hc => List.mem_append_right _ (List.mem_cons_of_mem _ hc)
      rw [if_neg hnormalize]
      cases h : classify native line with
      | skipped => exact ⟨henv, hnothing⟩
      | rejected code => exact ⟨henv, hnothing⟩
      | accepted k v quoting =>
          have hkv := listable_of_accepted hsound hkey h hline
          have hresolved : Listable Q P (k, (resolve native quoting v env).1) :=
            listable_resolve hkv henv
          have hstored : AllListable Q P
              (Function.update env k (some (resolve native quoting v env).1)) :=
            update_inv henv hresolved
          have hunbound : ∀ names : List Bytes,
              (Out.unbound path lineNo names : Out Nat).stdout = [] := by
            intro names
            rw [Out.unbound_eq]
          cases action with
          | normalize => exact absurd rfl hnormalize
          | validate => exact ⟨henv, hnothing⟩
          | dump =>
              refine ⟨henv, fun b hb => ?_⟩
              obtain rfl : b = (k, v) := List.mem_singleton.mp hb
              exact hkv
          | apply =>
              refine ⟨hstored, fun b hb => ?_⟩
              have hb : b ∈ (Out.unbound path lineNo _ : Out Nat).stdout ++ [] := hb
              rw [hunbound] at hb
              cases hb
          | delta =>
              refine ⟨hstored, fun b hb => ?_⟩
              have hb : b ∈ (Out.unbound path lineNo _ : Out Nat).stdout ++ [(k, _)] := hb
              rw [hunbound] at hb
              obtain rfl := List.mem_singleton.mp hb
              exact hresolved

theorem run_listable {native : Bool} {action : Action} (hact : action = .normalize → ∀ k, Q k)
    {l : List Item} (hitems : ∀ path lineNo line, .text path lineNo line ∈ l → ∀ c ∈ line, P c)
    {env : Env} (henv : AllListable Q P env) :
    AllListable Q P (Step.run (Item.step classify native action) l env).1 ∧
      ∀ b ∈ (Step.run (Item.step classify native action) l env).2.stdout, Listable Q P b := by
  have hstep : ∀ item ∈ l, ∀ env, AllListable Q P env →
      AllListable Q P (item.step classify native action env).1 ∧
        ∀ b ∈ (item.step classify native action env).2.stdout, Listable Q P b := by
    rintro item hitem env henv
    exact step_listable hsound hkey hact
      (fun path lineNo line h => hitems path lineNo line (h ▸ hitem)) henv
  refine ⟨Step.run_inv (AllListable Q P)
      (fun item hitem env henv => (hstep item hitem env henv).1) henv,
    ?_⟩
  refine Step.run_out (AllListable Q P) (fun o : Out Nat => ∀ b ∈ o.stdout, Listable Q P b)
    (fun _ h => absurd h List.not_mem_nil) ?_ hstep henv
  intro o p ho hp b hb
  exact (List.mem_append.mp hb).elim (ho b) (hp b)

theorem ofRun_listable {action : Action} (hact : action = .normalize → ∀ k, Q k) {cfg : Knobs}
    {files : List File} (hfiles : ∀ file ∈ files, ∀ p ∈ handed cfg file, ∀ c ∈ p.1, P c)
    {environ : Environ} (hstart : AllListable Q P (start action environ)) :
    AllListable Q P (ofRun classify action cfg environ files).1 ∧
      ∀ b ∈ (ofRun classify action cfg environ files).2.stdout, Listable Q P b := by
  rw [ofRun_items]
  refine run_listable hsound hkey hact (fun path lineNo line hitem => ?_) hstart
  obtain ⟨file, hfile, hp⟩ := mem_items hitem
  exact hfiles file hfile _ hp

end Printed

section Seed

variable {environ : Environ}

theorem entry_of_splitEquals {e : Bytes} {b : Binding} (h : splitEquals e = some b) :
    e = b.1 ++ Byte.equals :: b.2 ∧ Byte.equals ∉ b.1 := by
  rcases line_shape e with ⟨-, hsplit⟩ | ⟨k, v, rfl, hk, hsplit⟩
  · rw [hsplit] at h
    cases h
  · rw [hsplit] at h
    obtain rfl := Option.some.inj h
    exact ⟨rfl, hk⟩

theorem start_listable {Q : Bytes → Prop} {P : UInt8 → Prop}
    (hkey : ∀ b ∈ environ.filterMap splitEquals, Q b.1) (hbytes : ∀ e ∈ environ, ∀ c ∈ e, P c)
    (action : Action) : AllListable Q P (start action environ) := by
  rw [start]
  split
  · refine assign_inv (fun b hb => ?_) fun _ _ h => by cases h
    have hmem := List.mem_of_mem_filter hb
    refine ⟨hkey b hmem, ?_⟩
    obtain ⟨e, he, hsplit⟩ := List.mem_filterMap.mp hmem
    obtain ⟨rfl, -⟩ := entry_of_splitEquals hsplit
    intro c hc
    refine hbytes _ he c ?_
    exact (List.mem_append.mp hc).elim (List.mem_append_left _)
      fun hc => List.mem_append_right _ (List.mem_cons_of_mem _ hc)
  · exact fun _ _ h => by cases h

/-- The names of the environment of a process are none but keys, if none of them
starts a comment. -/
theorem Posix.isKey (henviron : Posix environ)
    (hhash : ∀ e ∈ environ, e.head? ≠ some Byte.hash) :
    ∀ b ∈ environ.filterMap splitEquals, IsKey b.1 := by
  intro b hb
  obtain ⟨e, he, hsplit⟩ := List.mem_filterMap.mp hb
  obtain ⟨rfl, hequals⟩ := entry_of_splitEquals hsplit
  have hne : b.1 ≠ [] := by
    intro hnil
    have hnamed := henviron.named _ he
    rw [hnil] at hnamed
    exact hnamed rfl
  refine ⟨hne, hequals, ?_⟩
  have hhead := hhash _ he
  rwa [List.head?_append_of_ne_nil _ hne] at hhead

end Seed

/-! ## Listings that are read again -/

/-- The line of a binding. -/
def entry (b : Binding) : Bytes := b.1 ++ Byte.equals :: b.2

theorem flatten_text (l : List Binding) :
    (l.map Binding.text).flatten = Lines.unlines Byte.nl (l.map entry) := by
  rw [Lines.unlines, List.map_map]
  rfl

theorem bytes_eq {ι : Type} (o : Out ι) : o.bytes = Lines.unlines Byte.nl (o.stdout.map entry) :=
  flatten_text o.stdout

theorem splitEquals_entry {b : Binding} (h : Byte.equals ∉ b.1) : splitEquals (entry b) = some b :=
  splitEquals_append h b.2

theorem Listable.mem_entry {Q : Bytes → Prop} {P : UInt8 → Prop} {b : Binding}
    (h : Listable Q P b) {c : UInt8} (hc : c ∈ entry b) : P c ∨ c = Byte.equals := by
  rcases List.mem_append.mp hc with hc | hc
  · exact Or.inl (h.bytes c (List.mem_append_left _ hc))
  · rcases List.mem_cons.mp hc with rfl | hc
    · exact Or.inr rfl
    · exact Or.inl (h.bytes c (List.mem_append_right _ hc))

theorem native_literal : true = true → BomMode.literal = .literal := fun _ => rfl

/-- The settings to read a listing with. -/
def listingKnobs (action : Action) : Knobs where
  native := true
  action := some action
  bom := .literal
  crlfStrip := false
  nulReject := true
  contAccept := false
  native_bom := native_literal

section Listing

variable {classify : Bool → Bytes → Outcome} {action : Action} {l : List Binding}

theorem lines_listing (h : ∀ b ∈ l, Byte.nl ∉ entry b) :
    Lines.lines Byte.nl (Lines.unlines Byte.nl (l.map entry)) = l.map entry := by
  refine Lines.lines_unlines Byte.nl fun line hline => ?_
  obtain ⟨b, hb, rfl⟩ := List.mem_map.mp hline
  exact h b hb

theorem handed_listing (h : ∀ b ∈ l, Byte.nl ∉ entry b ∧ Byte.nul ∉ entry b) (path : Bytes) :
    readFile (listingKnobs action) (File.readable path (Lines.unlines Byte.nl (l.map entry))) =
      .ok (Lines.number 0 (l.map entry)) := by
  have hlines := lines_listing fun b hb => (h b hb).1
  have hnul : Byte.nul ∉ Lines.unlines Byte.nl (l.map entry) := by
    intro hmem
    obtain ⟨line, hline, hc⟩ := Lines.mem_of_mem_unlines Byte.nl (by decide) hmem
    obtain ⟨b, hb, rfl⟩ := List.mem_map.mp hline
    exact (h b hb).2 hc
  have hread : readFile (listingKnobs action)
        (File.readable path (Lines.unlines Byte.nl (l.map entry))) =
      (physical (listingKnobs action) (Lines.unlines Byte.nl (l.map entry))).map
        (logical (listingKnobs action)) := rfl
  rw [hread, physical, if_neg fun hreject => hnul hreject.2]
  have hphysical : ∀ ls, stripCrs (listingKnobs action) ls = ls := fun ls => rfl
  split
  · show Except.map _ (.ok (stripCrs _ _)) = _
    rw [hphysical, hlines]
    rfl
  · rw [hphysical, hlines]
    rfl

theorem run_listing (h : ∀ b ∈ l, classify true (entry b) = .accepted b.1 b.2 .plain)
    (path : Bytes) (n : Nat) (env : Env) :
    let out := (Step.run (fun p : Bytes × Nat => line true .dump (classify true) path p.2 p.1)
      (Lines.number n (l.map entry)) env).2
    out.stdout = l ∧ out.diags = [] ∧ out.checked = l.length ∧ out.errors = 0 := by
  induction l generalizing n env with
  | nil => exact ⟨rfl, rfl, rfl, rfl⟩
  | cons b l ih =>
      intro out
      obtain ⟨hstdout, hdiags, hchecked, herrors⟩ :=
        ih (fun c hc => h c (List.mem_cons_of_mem _ hc)) (n + 1)
          (line true .dump (classify true) path (n + 1) (entry b) env).1
      have hline : (line true .dump (classify true) path (n + 1) (entry b) env).2 =
          Out.hand (entry b) (n + 1) + (Out.check + Out.print b.1 b.2) := by
        rw [line, if_neg (by decide), h b List.mem_cons_self]
        rfl
      have hout : out = Out.hand (entry b) (n + 1) + (Out.check + Out.print b.1 b.2) +
          (Step.run (fun p : Bytes × Nat => line true .dump (classify true) path p.2 p.1)
            (Lines.number (n + 1) (l.map entry))
            (line true .dump (classify true) path (n + 1) (entry b) env).1).2 := by
        rw [← hline]
        rfl
      rw [hout]
      refine ⟨?_, ?_, ?_, ?_⟩
      · rw [Out.add_stdout, hstdout]
        rfl
      · rw [Out.add_diags, hdiags]
        rfl
      · rw [Out.add_checked, hchecked, List.length_cons]
        show 0 + (1 + 0) + l.length = l.length + 1
        omega
      · rw [Out.add_errors, herrors]
        rfl

end Listing

/-! ## Listings that a process starts with -/

/-- No variable that a run is set with is bound. -/
def Unprefixed (env : Env) : Prop := ∀ k, envfilePrefix.isPrefixOf k = true → env k = none

/-- The entries that set a run: each with the prefix in its name. -/
def IsSettings (settings : Environ) : Prop := ∀ e ∈ settings, envfilePrefix.isPrefixOf e = true

instance (settings : Environ) : Decidable (IsSettings settings) :=
  inferInstanceAs (Decidable (∀ e ∈ settings, envfilePrefix.isPrefixOf e = true))

section Start

theorem prefix_of_entry {e : Bytes} (h : envfilePrefix.isPrefixOf e = true) {b : Binding}
    (hb : splitEquals e = some b) : envfilePrefix.isPrefixOf b.1 = true := by
  rw [List.isPrefixOf_iff_prefix] at h ⊢
  rcases line_shape e with ⟨-, hsplit⟩ | ⟨k, v, rfl, hk, hsplit⟩
  · rw [hsplit] at hb
    cases hb
  · rw [hsplit] at hb
    obtain rfl := Option.some.inj hb
    rcases List.prefix_or_prefix_of_prefix h (List.prefix_append k (Byte.equals :: v)) with hp | hp
    · exact hp
    · obtain ⟨t, ht⟩ := hp
      obtain ⟨u, hu⟩ := h
      rw [← ht, List.append_assoc] at hu
      have htail : t ++ u = Byte.equals :: v := List.append_cancel_left hu
      cases t with
      | nil =>
          rw [List.append_nil] at ht
          exact ht ▸ List.prefix_refl _
      | cons c t =>
          obtain ⟨rfl, -⟩ := List.cons.inj htail
          have hmem : Byte.equals ∈ envfilePrefix :=
            ht ▸ List.mem_append_right k List.mem_cons_self
          exact absurd hmem (by decide)

theorem unprefixed_start (action : Action) (environ : Environ) :
    Unprefixed (start action environ) := by
  intro k hk
  rw [start]
  split
  · rw [seed, assign_filter_not]
    exact if_pos hk
  · rfl

theorem step_unprefixed {classify : Bool → Bytes → Outcome} {native : Bool} {action : Action}
    {item : Item} (h : ∀ r ∈ item.record classify native, envfilePrefix.isPrefixOf r.1 = false)
    {env : Env} (henv : Unprefixed env) : Unprefixed (item.step classify native action env).1 := by
  cases item with
  | fault code path => exact henv
  | text path lineNo line =>
      rw [Item.step, Meaning.line]
      show Unprefixed ((if action = .normalize then _ else _ : Step Env (Out Nat)) env).1
      split
      · exact henv
      rw [Item.record] at h
      cases hclass : classify native line with
      | skipped => exact henv
      | rejected code => exact henv
      | accepted k v quoting =>
          rw [hclass] at h
          have hupdate : ∀ value, Unprefixed (Function.update env k (some value)) := by
            intro value k' hk'
            have hne : k' ≠ k := by
              rintro rfl
              exact Bool.false_ne_true ((h _ rfl).symm.trans hk')
            rw [Function.update_of_ne hne]
            exact henv k' hk'
          cases action with
          | delta | apply => exact hupdate _
          | dump | validate => exact henv
          | normalize => exact henv

/-- A process that is started with a listing goes on where the run that printed
it has ended. -/
theorem start_listing {env : Env} (henv : Unprefixed env) {printed : List Binding}
    (hlists : Lists (fun k => if envfilePrefix.isPrefixOf k then none else env k) printed)
    (hequals : ∀ b ∈ printed, Byte.equals ∉ b.1) {settings : Environ} (h : IsSettings settings) :
    start .apply (settings ++ printed.map entry) = env := by
  have hshown : (fun k => if envfilePrefix.isPrefixOf k then none else env k) = env := by
    funext k
    split
    · exact (henv k ‹_›).symm
    · rfl
  rw [hshown] at hlists
  have hsettings : ((settings.filterMap splitEquals).filter
      fun b => !envfilePrefix.isPrefixOf b.1) = [] := by
    rw [List.filter_eq_nil_iff]
    intro b hb
    obtain ⟨e, he, hsplit⟩ := List.mem_filterMap.mp hb
    rw [prefix_of_entry (h e he) hsplit]
    decide
  have hentries : (printed.map entry).filterMap splitEquals = printed := by
    rw [List.filterMap_map]
    refine (List.filterMap_congr fun b hb => ?_).trans (List.filterMap_some)
    exact splitEquals_entry (hequals b hb)
  have hkept : (printed.filter fun b => !envfilePrefix.isPrefixOf b.1) = printed := by
    refine List.filter_eq_self.mpr fun b hb => ?_
    have hbound := (hlists.mem b.1 b.2).mp hb
    cases hbegins : envfilePrefix.isPrefixOf b.1 with
    | false => rfl
    | true =>
        rw [henv b.1 hbegins] at hbound
        cases hbound
  have hseed : seed (settings ++ printed.map entry) = assign empty printed := by
    rw [seed, List.filterMap_append, List.filter_append, hsettings, hentries, hkept,
      List.nil_append]
  rw [start, if_pos (Or.inr rfl), hseed, Assoc.assign_lists hlists]

theorem posix_listing {env : Env} {printed : List Binding}
    (hlists : Lists (fun k => if envfilePrefix.isPrefixOf k then none else env k) printed)
    (hprinted : ∀ b ∈ printed, Byte.nul ∉ entry b ∧ b.1 ≠ [] ∧ Byte.equals ∉ b.1)
    {settings : Environ} (h : IsSettings settings) (hposix : Posix settings) :
    Posix (settings ++ printed.map entry) := by
  refine ⟨?_, ?_, ?_⟩
  · intro e he
    rcases List.mem_append.mp he with he | he
    · exact hposix.nulFree e he
    · obtain ⟨b, hb, rfl⟩ := List.mem_map.mp he
      exact (hprinted b hb).1
  · intro e he
    rcases List.mem_append.mp he with he | he
    · exact hposix.named e he
    · obtain ⟨b, hb, rfl⟩ := List.mem_map.mp he
      rw [entry, List.head?_append_of_ne_nil _ (hprinted b hb).2.1]
      exact fun hhead => (hprinted b hb).2.2 (List.mem_of_mem_head? hhead)
  · have hentries : (printed.map entry).filterMap splitEquals = printed := by
      rw [List.filterMap_map]
      refine (List.filterMap_congr fun b hb => ?_).trans List.filterMap_some
      exact splitEquals_entry (hprinted b hb).2.2
    rw [seedNames, List.filterMap_append, hentries, List.map_append]
    refine List.nodup_append.mpr ⟨hposix.unique, hlists.nodup, ?_⟩
    rintro name hname name' hname' rfl
    obtain ⟨b, hb, rfl⟩ := List.mem_map.mp hname
    obtain ⟨e, he, hsplit⟩ := List.mem_filterMap.mp hb
    obtain ⟨b', hb', heq⟩ := List.mem_map.mp hname'
    have hbound := (hlists.mem b'.1 b'.2).mp hb'
    rw [heq, if_pos (prefix_of_entry (h e he) hsplit)] at hbound
    cases hbound

end Start

theorem ofRun_append {classify : Bool → Bytes → Outcome} {action : Action} {cfg : Knobs}
    (environ : Environ) (xs ys : List File) :
    ofRun classify action cfg environ (xs ++ ys) =
      let first := ofRun classify action cfg environ xs
      let second := Step.run (ofFile classify action cfg) ys first.1
      (second.1, first.2 + second.2) := by
  rw [ofRun, Step.run_append]
  rfl

theorem ofRun_restarted {classify : Bool → Bytes → Outcome} {action : Action} {cfg : Knobs}
    {environ environ' : Environ} {xs : List File}
    (h : start action environ' = (ofRun classify action cfg environ xs).1) (ys : List File) :
    ofRun classify action cfg environ (xs ++ ys) =
      ((ofRun classify action cfg environ' ys).1,
        (ofRun classify action cfg environ xs).2 + (ofRun classify action cfg environ' ys).2) := by
  rw [ofRun_append]
  show _ = ((Step.run _ ys (start action environ')).1,
    _ + (Step.run _ ys (start action environ')).2)
  rw [h]

theorem unprefixed_ofRun {classify : Bool → Bytes → Outcome} {action : Action} {cfg : Knobs}
    (environ : Environ) {files : List File}
    (h : ∀ r ∈ (files.flatMap (items cfg)).filterMap (Item.record classify cfg.native),
      envfilePrefix.isPrefixOf r.1 = false) :
    Unprefixed (ofRun classify action cfg environ files).1 := by
  rw [ofRun_items]
  refine Step.run_inv Unprefixed (fun item hitem env henv => step_unprefixed ?_ henv)
    (unprefixed_start action environ)
  exact fun r hr => h r (List.mem_filterMap.mpr ⟨item, hitem, hr⟩)

/-! ## What is seen of it -/

section Seen

variable {d : Dialect} {action : Action} {cfg : Knobs} {environ : Environ} {files : List File}
  {o : Observed}

theorem Dialect.Shows.exit_eq_zero_iff (h : d.Shows action cfg environ files o) :
    o.exit = 0 ↔ (ofRun d.classify action cfg environ files).2.errors = 0 := by
  obtain ⟨printed, -, rfl⟩ := h
  show (if _ then 0 else 1) = 0 ↔ _
  split
  · exact iff_of_true rfl ‹_›
  · exact iff_of_false Nat.one_ne_zero ‹_›

theorem Dialect.Shows.stderr_eq (h : d.Shows action cfg environ files o) :
    o.stderr = Report.stderr
      (⟨Out.respell d.spell (quiet (ofRun d.classify action cfg environ files).2), 0⟩ : Report Nat) := by
  obtain ⟨printed, -, rfl⟩ := h
  show Report.stderr (⟨_ + Out.printAll printed, _⟩ : Report Nat) = _
  rw [Report.stderr, Report.stderr, Report.summary, Report.summary, Out.add_diags,
    Out.add_checked, Out.add_errors, Out.printAll_diags, List.append_nil]
  rfl

theorem Dialect.Shows.stderr_clean (h : d.Shows action cfg environ files o)
    (hdiags : (ofRun d.classify action cfg environ files).2.diags = [])
    (herrors : (ofRun d.classify action cfg environ files).2.errors = 0) :
    o.stderr = ascii (toString (ofRun d.classify action cfg environ files).2.checked ++
      " checked, 0 errors") ++ [Byte.nl] := by
  rw [h.stderr_eq, Report.stderr, Report.summary]
  generalize (ofRun d.classify action cfg environ files).2 = out at *
  show ((out.diags.map _).map _).flatten ++
    ascii (toString out.checked ++ _ ++ toString out.errors ++ _) ++ _ = _
  rw [hdiags, herrors, String.append_assoc, String.append_assoc]
  rfl

theorem Dialect.Shows.stdout_apply (h : d.Shows .apply cfg environ files o) :
    ∃ printed, Lists (fun k => if envfilePrefix.isPrefixOf k then none
        else (ofRun d.classify .apply cfg environ files).1 k) printed ∧
      o.stdout = Lines.unlines Byte.nl (printed.map entry) := by
  obtain ⟨printed, hlists, rfl⟩ := h
  refine ⟨printed, hlists, ?_⟩
  show Out.bytes (Out.respell _ _ + Out.printAll printed) = _
  rw [bytes_eq, Out.add_stdout, Out.respell_stdout, ofRun_items, run_apply]
  rfl

theorem Dialect.Shows.stdout_other (hact : action ≠ .apply)
    (h : d.Shows action cfg environ files o) :
    o.stdout =
      Lines.unlines Byte.nl ((ofRun d.classify action cfg environ files).2.stdout.map entry) := by
  obtain ⟨printed, hlists, rfl⟩ := h
  obtain rfl := hlists.unique (lists_nothing hact _)
  show Out.bytes (Out.respell _ _ + Out.printAll []) = _
  rw [bytes_eq, Out.add_stdout, Out.respell_stdout, Out.printAll_stdout, List.append_nil]

/-- A run prints bindings that are made of what was read, one in a line. -/
theorem Dialect.Shows.listable (h : d.Shows action cfg environ files o)
    (hsound : Sound d.classify) {Q : Bytes → Prop} (hact : action = .normalize → ∀ k, Q k)
    (hkey : ∀ k, IsKey k → Q k) (hseed : ∀ b ∈ environ.filterMap splitEquals, Q b.1)
    {P : UInt8 → Prop} (hbytes : ∀ e ∈ environ, ∀ c ∈ e, P c)
    (hfiles : ∀ file ∈ files, ∀ p ∈ handed cfg file, ∀ c ∈ p.1, P c) :
    ∃ l : List Binding, o.stdout = Lines.unlines Byte.nl (l.map entry) ∧
      ∀ b ∈ l, Listable Q P b := by
  obtain ⟨henv, hstdout⟩ :=
    ofRun_listable hsound hkey hact hfiles (start_listable hseed hbytes action)
  by_cases happly : action = .apply
  · subst happly
    obtain ⟨printed, hlists, hprinted⟩ := h.stdout_apply
    refine ⟨printed, hprinted, fun b hb => ?_⟩
    have hbound := (hlists.mem b.1 b.2).mp hb
    split at hbound
    · cases hbound
    · exact henv b.1 b.2 hbound
  · exact ⟨_, h.stdout_other happly, hstdout⟩

/-- What `apply` prints can be the variables of a process: no entry has a NUL or a
newline in it, or lacks a name. -/
theorem Dialect.Shows.stdout_entries (hsound : Sound d.classify)
    (h : d.Shows .apply cfg environ files o) (henviron : Posix environ)
    (hlines : ∀ e ∈ environ, Byte.nl ∉ e)
    (hnul : cfg.nulReject = true ∨ ∀ file ∈ files, Byte.nul ∉ file.contents) :
    ∃ printed, Lists (fun k => if envfilePrefix.isPrefixOf k then none
        else (ofRun d.classify .apply cfg environ files).1 k) printed ∧
      Lines.lines Byte.nl o.stdout = printed.map entry ∧
      ∀ b ∈ printed, Byte.nul ∉ entry b ∧ b.1 ≠ [] ∧ Byte.equals ∉ b.1 := by
  have hfiles : ∀ file ∈ files, ∀ p ∈ handed cfg file, ∀ c ∈ p.1, c ≠ Byte.nul ∧ c ≠ Byte.nl := by
    intro file hfile p hp c hc
    refine ⟨?_, (mem_handed hp hc).2⟩
    rintro rfl
    exact nul_not_mem_handed (hnul.imp id fun h => h file hfile) hp hc
  have hkeys : ∀ b ∈ environ.filterMap splitEquals, b.1 ≠ [] ∧ Byte.equals ∉ b.1 := by
    intro b hb
    obtain ⟨e, he, hsplit⟩ := List.mem_filterMap.mp hb
    obtain ⟨rfl, hequals⟩ := entry_of_splitEquals hsplit
    refine ⟨fun hnil => henviron.named _ he ?_, hequals⟩
    rw [hnil]
    rfl
  have hbytes : ∀ e ∈ environ, ∀ c ∈ e, c ≠ Byte.nul ∧ c ≠ Byte.nl := fun e he c hc =>
    ⟨fun h => henviron.nulFree e he (h ▸ hc), fun h => hlines e he (h ▸ hc)⟩
  have hkey : ∀ k, IsKey k → k ≠ [] ∧ Byte.equals ∉ k := fun k hk => ⟨hk.nonempty, hk.equals⟩
  obtain ⟨hrun, -⟩ := ofRun_listable hsound hkey (fun h => by cases h) hfiles
    (start_listable hkeys hbytes .apply)
  obtain ⟨printed, hlists, hstdout⟩ := h.stdout_apply
  have hprinted : ∀ b ∈ printed, Listable (fun k => k ≠ [] ∧ Byte.equals ∉ k)
      (fun c => c ≠ Byte.nul ∧ c ≠ Byte.nl) b := by
    intro b hb
    have hbound := (hlists.mem b.1 b.2).mp hb
    split at hbound
    · cases hbound
    · exact hrun b.1 b.2 hbound
  have hentry : ∀ b ∈ printed, ∀ c ∈ entry b, c ≠ Byte.nul ∧ c ≠ Byte.nl := by
    intro b hb c hc
    rcases (hprinted b hb).mem_entry hc with hbyte | rfl
    · exact hbyte
    · exact ⟨by decide, by decide⟩
  refine ⟨printed, hlists, ?_, fun b hb => ⟨fun h => (hentry b hb _ h).1 rfl, (hprinted b hb).key⟩⟩
  rw [hstdout, lines_listing fun b hb h => (hentry b hb _ h).2 rfl]

/-- The runs that come one after the other stay in the domain of the run over all. -/
theorem Dialect.Covers.append {xs ys : List File}
    (h : d.Covers action cfg environ (xs ++ ys)) :
    d.Covers action cfg environ xs ∧ (∀ environ', d.seeds cfg environ' →
      start action environ' = (ofRun d.classify action cfg environ xs).1 →
      d.Covers action cfg environ' ys) := by
  obtain ⟨hseeds, hadmits, honce, hchecked, herrors⟩ := h
  rw [List.countP_append] at honce
  rw [ofRun_append] at hchecked herrors
  rw [Out.add_checked] at hchecked
  rw [Out.add_errors] at herrors
  refine ⟨⟨hseeds, fun file hfile => hadmits file (List.mem_append_left _ hfile),
    fun hd => (Nat.le_add_right _ _).trans (honce hd), ?_, ?_⟩, ?_⟩
  · exact (Nat.le_add_right _ _).trans_lt hchecked
  · exact (Nat.le_add_right _ _).trans_lt herrors
  · intro environ' hseeds' hstart
    rw [← hstart] at hchecked herrors
    exact ⟨hseeds', fun file hfile => hadmits file (List.mem_append_right _ hfile),
      fun hd => (Nat.le_add_left _ _).trans (honce hd),
      (Nat.le_add_left _ _).trans_lt hchecked, (Nat.le_add_left _ _).trans_lt herrors⟩

end Seen

end Meaning

end Envfile
