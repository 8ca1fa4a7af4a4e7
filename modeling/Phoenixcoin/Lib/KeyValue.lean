import Phoenixcoin.Lib.Table

/-!
# Transactions on a plain map

The reference for a key-value store: one transaction that reads and changes a private copy of
the records and puts it in their place when it commits. A rule says which keys the store
takes; there is no limit on the size of the map.
-/

set_option autoImplicit false

namespace Phoenixcoin.Lib.KeyValue

inductive Op (K V : Type) where
  | write (key : K) (value : V) (fOverwrite : Bool)
  | erase (key : K)
  | read (key : K)
  | commit
  | abort

/-- What an operation returns: success or failure, or the value it read. -/
inductive Result (V : Type) where
  | done (ok : Bool)
  | value (value : Option V)
  | aborted
deriving DecidableEq

/-- The operation failed; an abort reports nothing. -/
def Result.Fails {V : Type} : Result V → Prop
  | .done ok => ok = false
  | .value v => v = none
  | .aborted => True

/-- Which keys can be written, and which can be read or erased. -/
structure KeyRule (K : Type) where
  canPut : K → Bool
  canGet : K → Bool

/-- The committed records and, while the transaction is open, its private copy. -/
structure PlainTxn (K V : Type) where
  contents : Table K V
  working : Option (Table K V)
  fReadOnly : Bool

variable {K V : Type} [DecidableEq K] (rule : KeyRule K)

/-- The effect of a write on the private copy, if it is allowed. -/
def put (key : K) (value : V) (fOverwrite : Bool) (working : Table K V) : Option (Table K V) :=
  if ¬ rule.canPut key then none
  else if ¬ fOverwrite ∧ key ∈ working then none
  else some (working.insert key value)

/-- The effect of an erase. A key without a record is erased too. -/
def del (key : K) (working : Table K V) : Option (Table K V) :=
  if rule.canGet key then some (working.erase key) else none

variable {rule}

variable {key : K} {fOverwrite : Bool} {value : V} {working : Table K V}

theorem put_refused (h : rule.canPut key = false) (value : V) (fOverwrite : Bool)
    (working : Table K V) : put rule key value fOverwrite working = none := by
  simp [put, h]

theorem put_exists (h : ¬ fOverwrite ∧ key ∈ working) :
    put rule key value fOverwrite working = none := by
  simp [put, h.1, h.2]

theorem put_applied (hcan : rule.canPut key = true) (h : ¬ (¬ fOverwrite ∧ key ∈ working)) :
    put rule key value fOverwrite working = some (working.insert key value) := by
  simp only [put, hcan, not_true_eq_false, if_false]
  rw [if_neg h]

variable (rule)

def PlainTxn.exec (p : PlainTxn K V) : Op K V → Result V × PlainTxn K V
  | .write key value fOverwrite =>
    if p.fReadOnly then (.done false, p)
    else
      match p.working.bind (put rule key value fOverwrite) with
      | none => (.done false, p)
      | some working => (.done true, { p with working := some working })
  | .erase key =>
    if p.fReadOnly then (.done false, p)
    else
      match p.working.bind (del rule key) with
      | none => (.done false, p)
      | some working => (.done true, { p with working := some working })
  | .read key =>
    (.value (p.working.bind fun working =>
      if rule.canGet key then working.lookup key else none), p)
  | .commit =>
    match p.working with
    | none => (.done false, p)
    | some working => (.done true, { p with contents := working, working := none })
  | .abort => (.aborted, { p with working := none })

/-- Run a list of operations with any step function: the results and the last state. -/
def run {S : Type} (exec : S → Op K V → Result V × S) : S → List (Op K V) → List (Result V) × S
  | s, [] => ([], s)
  | s, op :: ops =>
    ((exec s op).1 :: (run exec (exec s op).2 ops).1, (run exec (exec s op).2 ops).2)

/-- A transaction that has just begun on `contents`. -/
def PlainTxn.begin (contents : Table K V) (fReadOnly : Bool) : PlainTxn K V :=
  ⟨contents, some contents, fReadOnly⟩

section Run

omit [DecidableEq K]

variable {S : Type} {exec : S → Op K V → Result V × S}

theorem run_append (ops ops' : List (Op K V)) :
    ∀ s : S, run exec s (ops ++ ops') =
      ((run exec s ops).1 ++ (run exec (run exec s ops).2 ops').1,
        (run exec (run exec s ops).2 ops').2) := by
  induction ops with
  | nil => intro s; rfl
  | cons op ops ih =>
    intro s
    rw [List.cons_append, run, ih]
    rfl

/-- An invariant of every operation is an invariant of the run. -/
theorem run_invariant {P : S → Prop} (hstep : ∀ s op, P s → P (exec s op).2) :
    ∀ (ops : List (Op K V)) (s : S), P s → P (run exec s ops).2 := by
  intro ops
  induction ops with
  | nil => intro s hs; exact hs
  | cons op ops ih =>
    intro s hs
    exact ih _ (hstep s op hs)

end Run

end Phoenixcoin.Lib.KeyValue
