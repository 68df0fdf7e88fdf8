/-
# `Envfile.C.Table` — the environment table of `envfile.c`

A growing array of key/value pairs, searched from its end by length and
bytes.  `cap` is the number of allocated slots; allocation succeeds.  Keys
and values are copied in as C strings: a value is cut at its first NUL by
`xstrdup`, a key is copied with its length.
-/
import Envfile.Config
import Envfile.Output

namespace Envfile.C

structure EnvPair where
  key : Bytes
  value : Bytes
deriving DecidableEq, Repr

structure EnvTable where
  pairs : List EnvPair
  cap : Nat
deriving DecidableEq, Repr

/-- `EnvTable env = {0}`. -/
def EnvTable.zero : EnvTable := ⟨[], 0⟩

/-- `while (cap < need) cap *= 2;`, which ends within `need` rounds since the
capacity is never 0. -/
def growCap (need : Nat) : Nat → Nat → Nat
  | 0, cap => cap
  | rounds + 1, cap => if cap < need then growCap need rounds (cap * 2) else cap

def envTableReserve (env : EnvTable) (extra : Nat) : EnvTable :=
  let need := env.pairs.length + extra
  if need ≤ env.cap then env
  else { env with cap := growCap need need (if env.cap != 0 then env.cap else 32) }

/-- The loop of `env_table_find_n`, about to look at slot `i - 1`. -/
def findFrom (pairs : List EnvPair) (key : Bytes) : Nat → Option Nat
  | 0 => none
  | i + 1 => if (pairs[i]?).any (·.key == key) then some i else findFrom pairs key i

/-- `env_table_find_n`; `none` is the C code's -1. -/
def envTableFindN (env : EnvTable) (key : Bytes) : Option Nat :=
  findFrom env.pairs key env.pairs.length

def envTableFind (env : EnvTable) (key : Bytes) : Option Nat :=
  envTableFindN env (cstr key)

def envTableGet (env : EnvTable) (key : Bytes) : Option Bytes :=
  (envTableFind env key).bind fun idx => (env.pairs[idx]?).map EnvPair.value

def envTableSetN (env : EnvTable) (key value : Bytes) : EnvTable :=
  match envTableFindN env key with
  | some idx =>
      { env with pairs := env.pairs.modify idx fun p => { p with value := cstr value } }
  | none =>
      let env := envTableReserve env 1
      { env with pairs := env.pairs ++ [⟨key, cstr value⟩] }

/-- `strncmp(key, "ENVFILE_", 8) != 0`. -/
def envTableShouldEmit (key : Bytes) : Bool := !envfilePrefix.isPrefixOf key

/-- `strcmp` on two C strings, by unsigned bytes. -/
def strcmp : Bytes → Bytes → Ordering
  | [], [] => .eq
  | [], _ :: _ => .lt
  | _ :: _, [] => .gt
  | a :: s, b :: t => if a < b then .lt else if b < a then .gt else strcmp s t

def cmpEnvpairKey (a b : EnvPair) : Ordering := strcmp (cstr a.key) (cstr b.key)

/-- What `env_table_emit_sorted` prints, line by line; keys and values go out
through `fputs`.  The table's keys are distinct, so that any sort by
`cmp_envpair_key` gives the order `qsort` does. -/
def envTableEmitSorted (env : EnvTable) : List Binding :=
  ((env.pairs.filter fun p => envTableShouldEmit p.key).mergeSort
      fun a b => cmpEnvpairKey a b != .gt).map
    fun p => (cstr p.key, cstr p.value)

/-- One round of the loop of `env_table_init_from_process`. -/
def seedEntry (env : EnvTable) (entry : Bytes) : EnvTable :=
  match memchr entry Byte.equals with
  | none => env
  | some keyLen =>
      if keyLen == 0 || (keyLen ≥ 8 && envfilePrefix.isPrefixOf entry) then env
      else envTableSetN env (entry.take keyLen) (entry.drop (keyLen + 1))

def envTableInitFromProcess (environ : Environ) : EnvTable :=
  environ.foldl seedEntry .zero

end Envfile.C
