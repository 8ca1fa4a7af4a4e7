import Phoenixcoin.Program.LmdbEnv

/-!
# Write transactions that survive a full map

`CLMDBTransaction` of `lmdb_kv.cpp`: the log of mutations, their replay in a grown map, and
the operations that retry after it. The retry loops get as fuel the room the map has left to
grow, which every round uses up a part of.
-/

set_option autoImplicit false

namespace Phoenixcoin.Program

open Lib

/-- An entry of the log: a write or an erase that was carried out. -/
inductive Mutation where
  | write (key : CDBKey) (value : CDBValue) (fOverwrite : Bool)
  | erase (key : CDBKey)
deriving DecidableEq, Repr

/-- The call of LMDB that a mutation makes. -/
def Mutation.call (outcome : MdbOutcome) (txn : MdbTxn) : Mutation → MdbCode × MdbTxn
  | .write key value fOverwrite => mdbPut outcome txn key value fOverwrite
  | .erase key => mdbDel outcome txn key

/-- The codes that mean that a mutation is in place. -/
def Mutation.applied (ret : MdbCode) : Mutation → Bool
  | .write _ _ _ => ret = .success
  | .erase _ => ret = .success ∨ ret = .notFound

structure CLMDBTransaction where
  txn : Option MdbTxn
  fReadOnly : Bool
  fWriterHeld : Bool
  fLeaseHeld : Bool
  nActiveIterators : ℕ
  mutations : List Mutation
  env : CLMDBEnv
deriving DecidableEq

namespace CLMDBTransaction

/-- `RecordWrite` and `RecordErase`. -/
def record (s : CLMDBTransaction) (m : Mutation) : CLMDBTransaction :=
  if s.fReadOnly then s else { s with mutations := s.mutations ++ [m] }

/-- `ClearMutations`, `ReleaseWriter` and `ReleaseLease`, the last steps of a transaction. -/
def release (s : CLMDBTransaction) : CLMDBTransaction :=
  { s with mutations := [], fWriterHeld := false, fLeaseHeld := false }

def logMapFullOnce (s : CLMDBTransaction) : CLMDBTransaction :=
  { s with env := s.env.logMapFullOnce }

variable (outcomes : ℕ → MdbOutcome)

/-- The loop of `ReplayMutations`: the code it ends with. -/
def replayMutations : List Mutation → MdbTxn → CLMDBEnv → MdbCode × MdbTxn × CLMDBEnv
  | [], txn, env => (.success, txn, env)
  | m :: mutations, txn, env =>
    let (ret, txn) := m.call (outcomes env.nCalls) txn
    if m.applied ret then replayMutations mutations txn env.tick else (ret, txn, env.tick)

/-- The loop of `RecoverFromMapFull`. -/
def recoverLoop : ℕ → CLMDBTransaction → Bool × CLMDBTransaction
  | 0, s => (false, s)
  | fuel + 1, s =>
    let s := { s with txn := none, fLeaseHeld := false }
    let (fGrown, env) := s.env.growMap outcomes
    if ¬ fGrown then (false, { s with env := env.logMapFullOnce })
    else
      match env.mdbTxnBegin outcomes false with
      | (none, env) => (false, { s with env := env })
      | (some newTxn, env) =>
        match replayMutations outcomes s.mutations newTxn env with
        | (.success, txn, env) => (true, { s with txn := some txn, env := env, fLeaseHeld := true })
        | (.mapFull, txn, env) =>
          recoverLoop fuel { s with txn := some txn, env := env, fLeaseHeld := true }
        | (_, _, env) => (false, { s with env := env })

variable (s : CLMDBTransaction)

def recoverFromMapFull : Bool × CLMDBTransaction :=
  if s.fReadOnly ∨ ¬ s.env.fOpen ∨ ¬ s.fWriterHeld then (false, s)
  else if s.nActiveIterators > 0 then (false, s)
  else recoverLoop outcomes (s.env.room + 1) s

def read (key : CDBKey) : Option CDBValue :=
  s.txn.bind fun txn => mdbGet txn key

/-- The loop of `Write` and `Erase`: a single growth may still be too small for this
transaction, so retry until the mutation is in place or growth makes no progress. -/
def mutateLoop (m : Mutation) : ℕ → CLMDBTransaction → Bool × CLMDBTransaction
  | 0, s => (false, s)
  | fuel + 1, s =>
    match s.txn with
    | none => (false, s)
    | some txn =>
      let (ret, txn) := m.call (outcomes s.env.nCalls) txn
      let s := { s with txn := some txn, env := s.env.tick }
      if m.applied ret then (true, s.record m)
      else if ret ≠ .mapFull then (false, s)
      else
        match s.recoverFromMapFull outcomes with
        | (true, s) => mutateLoop m fuel s
        | (false, s) => (false, s.logMapFullOnce)

def mutate (m : Mutation) : Bool × CLMDBTransaction :=
  if s.txn.isNone ∨ s.fReadOnly then (false, s)
  else mutateLoop outcomes m (s.env.room + 1) s

def write (key : CDBKey) (value : CDBValue) (fOverwrite : Bool) :
    Bool × CLMDBTransaction :=
  s.mutate outcomes (.write key value fOverwrite)

def erase (key : CDBKey) : Bool × CLMDBTransaction :=
  s.mutate outcomes (.erase key)

/-- `mdb_txn_commit` on the current transaction, which is gone afterwards. -/
def commitTxn (txn : MdbTxn) : MdbCode × CLMDBTransaction :=
  let (ret, contents) := mdbTxnCommit (outcomes s.env.nCalls) s.env.contents txn
  (ret, { s with txn := none, env := { s.env.tick with contents := contents } })

/-- The loop of `Commit` after a first commit that ended with `ret`. -/
def commitLoop : ℕ → MdbCode → CLMDBTransaction → MdbCode × CLMDBTransaction
  | 0, ret, s => (ret, s)
  | fuel + 1, ret, s =>
    if ret = .mapFull ∧ ¬ s.fReadOnly then
      match s.recoverFromMapFull outcomes with
      | (false, s) => (ret, s)
      | (true, s) =>
        match s.txn with
        | none => (ret, s)
        | some txn =>
          let (ret, s) := s.commitTxn outcomes txn
          commitLoop fuel ret s
    else (ret, s)

/-- The first commit and the loop after it. -/
def commitRetry (txn : MdbTxn) : MdbCode × CLMDBTransaction :=
  let first := s.commitTxn outcomes txn
  commitLoop outcomes (first.2.env.room + 1) first.1 first.2

def commit : Bool × CLMDBTransaction :=
  match s.txn with
  | none => (false, s.release)
  | some txn =>
    match s.commitRetry outcomes txn with
    | (.success, s) => (true, s.release)
    | (.mapFull, s) => (false, s.logMapFullOnce.release)
    | (_, s) => (false, s.release)

def abort : CLMDBTransaction := { s with txn := none }.release

/-- The transaction that `CLMDBDatabase::BeginTransaction` makes. -/
def beginTransaction (env : CLMDBEnv) (fReadOnly : Bool) : CLMDBTransaction where
  txn := some ⟨env.contents, false, fReadOnly⟩
  fReadOnly := fReadOnly
  fWriterHeld := !fReadOnly
  fLeaseHeld := true
  nActiveIterators := 0
  mutations := []
  env := env

end CLMDBTransaction

end Phoenixcoin.Program
