import Phoenixcoin.Lib.Table

/-!
# The LMDB environment

What `lmdb_kv.cpp` and `lmdbdb.cpp` use of LMDB: write and read transactions on one
sub-database, the calls on them with the codes they return, and `CLMDBEnv::GrowMap`. LMDB is
not part of the repository: each call takes an outcome that says whether LMDB carries it out,
finds the map full or fails for another reason.
-/

set_option autoImplicit false

namespace Phoenixcoin.Program

open Lib

abbrev CDBKey : Type := List UInt8

abbrev CDBValue : Type := List UInt8

/-- The records of one sub-database. -/
abbrev DbContents : Type := Table CDBKey CDBValue

/-- What happens inside one call of LMDB. A failure may leave the transaction unusable. -/
inductive MdbOutcome where
  | success
  | mapFull
  | failed (fTxnError : Bool)
deriving DecidableEq, Repr

/-- The return codes that the callers tell apart. -/
inductive MdbCode where
  | success
  | notFound
  | keyExist
  | mapFull
  | other
deriving DecidableEq, Repr

/-- A transaction: the records it sees, and the flags `MDB_TXN_ERROR` and `MDB_TXN_RDONLY`. -/
structure MdbTxn where
  working : DbContents
  fError : Bool
  fRdOnly : Bool
deriving DecidableEq

/-- `mdb_env_get_maxkeysize`. -/
def mdbMaxKeySize : ℕ := 511

/-- The keys that `mdb_put` takes; it answers `MDB_BAD_VALSIZE` to others. -/
def mdbPutAccepts (key : CDBKey) : Bool := 1 ≤ key.length && key.length ≤ mdbMaxKeySize

/-- The keys that `mdb_get` and `mdb_del` take. -/
def mdbGetAccepts (key : CDBKey) : Bool := 1 ≤ key.length

def mdbPut (outcome : MdbOutcome) (txn : MdbTxn) (key : CDBKey) (value : CDBValue)
    (fOverwrite : Bool) : MdbCode × MdbTxn :=
  if txn.fError then (.other, txn)
  else
    match outcome with
    | .mapFull => (.mapFull, { txn with fError := true })
    | .failed fTxnError => (.other, { txn with fError := fTxnError })
    | .success =>
      if ¬ mdbPutAccepts key then (.other, txn)
      else if ¬ fOverwrite ∧ key ∈ txn.working then (.keyExist, txn)
      else (.success, { txn with working := txn.working.insert key value })

def mdbDel (outcome : MdbOutcome) (txn : MdbTxn) (key : CDBKey) : MdbCode × MdbTxn :=
  if txn.fError then (.other, txn)
  else
    match outcome with
    | .mapFull => (.mapFull, { txn with fError := true })
    | .failed fTxnError => (.other, { txn with fError := fTxnError })
    | .success =>
      if ¬ mdbGetAccepts key then (.other, txn)
      else if key ∈ txn.working then (.success, { txn with working := txn.working.erase key })
      else (.notFound, txn)

def mdbGet (txn : MdbTxn) (key : CDBKey) : Option CDBValue :=
  if txn.fError then none
  else if mdbGetAccepts key then txn.working.lookup key
  else none

/-- `mdb_txn_commit`: the code and the committed records afterwards. A read-only transaction
has nothing to write, and a commit that fails has no effect. -/
def mdbTxnCommit (outcome : MdbOutcome) (contents : DbContents) (txn : MdbTxn) :
    MdbCode × DbContents :=
  if txn.fRdOnly then (.success, contents)
  else if txn.fError then (.other, contents)
  else
    match outcome with
    | .mapFull => (.mapFull, contents)
    | .failed _ => (.other, contents)
    | .success => (.success, txn.working)

/-- The environment: its committed records, the map sizes, and how many calls LMDB has got. -/
structure CLMDBEnv where
  contents : DbContents
  /-- The environment is open. -/
  fOpen : Bool
  fReadOnly : Bool
  fAutoGrow : Bool
  nMaxMapSize : ℕ
  /-- `me_mapsize` and `ms_psize` as LMDB reports them. -/
  nMapSize : ℕ
  nPageSize : ℕ
  nCalls : ℕ
  /-- How often `LogMapFullOnce` was called; every failed recovery calls it. -/
  nMapFullLogs : ℕ
deriving DecidableEq

namespace CLMDBEnv

def tick (env : CLMDBEnv) : CLMDBEnv := { env with nCalls := env.nCalls + 1 }

def logMapFullOnce (env : CLMDBEnv) : CLMDBEnv :=
  { env with nMapFullLogs := env.nMapFullLogs + 1 }

def alignDown (nValue nAlignment : ℕ) : ℕ :=
  if nAlignment > 0 then nValue / nAlignment * nAlignment else nValue

/-- The size that `GrowMap` asks for, if there is room to grow. -/
def growTarget (env : CLMDBEnv) : Option ℕ :=
  let nMax := max (alignDown env.nMaxMapSize env.nPageSize) env.nMapSize
  if nMax ≤ env.nMapSize then none
  else
    let nTarget := if env.nMapSize > nMax / 2 then nMax else env.nMapSize * 2
    let nTarget := alignDown nTarget env.nPageSize
    if nTarget ≤ env.nMapSize then
      if env.nMapSize > nMax - env.nPageSize then some nMax
      else some (env.nMapSize + env.nPageSize)
    else some nTarget

variable (outcomes : ℕ → MdbOutcome)

/-- `CLMDBEnv::GrowMap`. By the time it resizes, the other transactions have ended. -/
def growMap (env : CLMDBEnv) : Bool × CLMDBEnv :=
  if ¬ env.fOpen ∨ env.fReadOnly ∨ ¬ env.fAutoGrow then (false, env)
  else if outcomes env.nCalls ≠ .success then (false, env.tick)   -- mdb_env_info, mdb_env_stat
  else
    let env := env.tick
    if env.nPageSize = 0 then (false, env)
    else
      match env.growTarget with
      | none => (false, env)
      | some nTarget =>
        if outcomes env.nCalls ≠ .success then (false, env.tick)   -- mdb_env_set_mapsize
        else (true, { env.tick with nMapSize := nTarget })

/-- `mdb_txn_begin`. -/
def mdbTxnBegin (env : CLMDBEnv) (fRdOnly : Bool) : Option MdbTxn × CLMDBEnv :=
  if outcomes env.nCalls ≠ .success then (none, env.tick)
  else (some ⟨env.contents, false, fRdOnly⟩, env.tick)

/-- By how much the map can still grow. -/
def room (env : CLMDBEnv) : ℕ := alignDown env.nMaxMapSize env.nPageSize - env.nMapSize

end CLMDBEnv

end Phoenixcoin.Program
