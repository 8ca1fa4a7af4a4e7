import Phoenixcoin.Program.StoreFiles

/-!
# Migration from Berkeley DB to LMDB

`MigrateWalletToLMDB` and `CTxDB::MigrateToLMDB` of `db.cpp`, with the inspections
`IsWalletLMDBEmpty` and `IsChainLMDBEmpty` that decide whether there is anything to migrate.
-/

set_option autoImplicit false

namespace Phoenixcoin.Program

open Lib Lib.Crash

namespace StoreProg

/-- A call on a cursor fails for another reason than the end of the data. -/
def cursorFails : StoreProg Bool := do
  return !(← call)

/-- `txn->NewIterator()` on the records that the transaction sees. -/
def newIterator (txn : CLMDBTransaction) : StoreProg CLMDBIterator := do
  return .create (← cursorFails) (txn.txn.elim ∅ (·.working))

/-- `IsWalletLMDBEmpty`; no answer when the inspection fails. -/
def isWalletLMDBEmpty : StoreProg (Option Bool) := do
  match ← beginTransaction true with
  | none => return none
  | some txn =>
    let it ← newIterator txn
    let it := it.seekToFirst (← cursorFails)
    let fEmpty := !it.isValid
    if it.fError then return none
    if ¬ (← commitTxn txn) then return none
    return some fEmpty

/-- `IsChainLMDBEmpty`; no answer when the inspection fails. -/
def isChainLMDBEmpty : StoreProg (Option Bool) := do
  match ← beginTransaction true with
  | none => return none
  | some txn =>
    let it ← newIterator txn
    let it := it.seekToFirst (← cursorFails)
    let fEmpty := !it.isValid
    if ¬ (← commitTxn txn) then return none
    return some fEmpty

/-- The copy loop of `MigrateWalletToLMDB`: whether it succeeded, and `nRecords`. -/
def copyWalletRecords : List Record → CLMDBTransaction → ℕ → StoreProg (Bool × CLMDBTransaction × ℕ)
  | [], txn, nRecords => do
    -- ReadAtCursor answers DB_NOTFOUND unless it fails
    return (!(← cursorFails), txn, nRecords)
  | (key, value) :: records, txn, nRecords => do
    if ← cursorFails then return (false, txn, nRecords)
    let (fWritten, txn) ← writeTxn txn key value true
    -- read the record back inside the same transaction
    let fVerified := fWritten && decide (txn.read key = some value)
    if ¬ fVerified then return (false, txn, nRecords)
    copyWalletRecords records txn (nRecords + 1)

/-- The loop that counts the records stored so far. -/
def countStored : ℕ → CLMDBIterator → ℕ → StoreProg (CLMDBIterator × ℕ)
  | 0, it, nStored => return (it, nStored)
  | fuel + 1, it, nStored => do
    if it.isValid then countStored fuel (it.next (← cursorFails)) (nStored + 1)
    else return (it, nStored)

/-- The verification of the whole copy inside the transaction. -/
def verifyCount (txn : CLMDBTransaction) (nRecords : ℕ) : StoreProg Bool := do
  let it ← newIterator txn
  let it := it.seekToFirst (← cursorFails)
  let (it, nStored) ← countStored (it.records.length + 1) it 0
  return !(it.fError || decide (nStored ≠ nRecords))

def migrateWalletToLMDB : StoreProg Bool := do
  match ← look (·.bdbFile) with
  | none => return true
  | some source =>
    if ¬ (← call) then return false   -- cannot open wallet.dat
    if ¬ (← call) then return false   -- cannot open wallet.dat cursor
    match ← beginTransaction false with
    | none => return false
    | some txn =>
      let (fSuccess, txn, nRecords) ← copyWalletRecords (sortedRecords source) txn 0
      let fSuccess ← if fSuccess ∧ nRecords > 0 then verifyCount txn nRecords else pure fSuccess
      if nRecords = 0 then return false
      if ¬ fSuccess then return false
      commitTxn txn

/-- The copy loop of `CTxDB::MigrateToLMDB`. -/
def copyChainRecords : List Record → CLMDBTransaction → StoreProg (Bool × CLMDBTransaction)
  | [], txn => do
    return (!(← cursorFails), txn)
  | (key, value) :: records, txn => do
    if ← cursorFails then return (false, txn)
    let (fWritten, txn) ← writeTxn txn key value true
    if ¬ fWritten then return (false, txn)
    copyChainRecords records txn

/-- `CTxDB::MigrateToLMDB`. An exception from opening `blkindex.dat` ends the start too. -/
def migrateToLMDB : StoreProg Bool := do
  match ← look (·.bdbFile) with
  | none => return true
  | some source =>
    match ← isChainLMDBEmpty with
    | none => return false
    | some false => return true   -- already migrated
    | some true =>
      if ¬ (← call) then return false   -- cannot open blkindex.dat
      if ¬ (← call) then return false   -- cannot open blkindex.dat cursor
      match ← beginTransaction false with
      | none => return false
      | some txn =>
        let (fSuccess, txn) ← copyChainRecords (sortedRecords source) txn
        if ¬ fSuccess then return false
        commitTxn txn

end StoreProg

end Phoenixcoin.Program
