import Phoenixcoin.Program.Accounts
import Phoenixcoin.Program.KeyPool
import Phoenixcoin.Program.KeyStore
import Phoenixcoin.Program.WalletSync

/-!
# Transactions that enter the wallet

`AddToWallet` and `CommitTransaction` of `wallet.cpp` with the wallet database: the transaction, its
order position, the replacement of the default key and the spent flags share one commit, and
memory is rolled back where it fails. The time `nTimeSmart` and the notifications are left out.
-/

set_option autoImplicit false

namespace Phoenixcoin.Program

open Lib

/-- What the two operations take from the rest of the node; `fQtGui` says whether the build is one
with a GUI, and the `n`-th key that the wallet generates is `newKey n`. -/
structure WalletCommitEnv extends WalletEnv where
  digests : Digests
  fQtGui : Bool
  newKey : ℕ → CPubKey
  nKeyPoolArg : ℤ

/-- The records of the wallet database that a transaction touches; those of the key pool are in
`KeyPoolWallet`. -/
structure WalletTxRecords where
  tx : CoinTable
  orderposnext : Option ℤ
  defaultkey : Option CPubKey
  name : Table CTxDestination (List UInt8)
deriving DecidableEq

/-- `CWallet` with its database. The default key is that of the key pool. -/
structure DurableWallet extends SyncedWallet where
  keyPool : KeyPoolWallet CPubKey
  mapAddressBook : Table CTxDestination (List UInt8)
  mapRequestCount : Table uint256 ℕ
  db : WalletTxRecords

/-- Which operations of the database succeed during one call: `write n` is the `n`-th write of the
transaction. -/
structure BatchOutcome where
  keyPool : ℕ → KeyPoolOutcome := fun _ => {}
  keepKey : Bool := true
  txnBegin : Bool := true
  write : ℕ → Bool := fun _ => true
  txnCommit : Bool := true

/-- The open transaction: the number of its writes, and the records as it sees them. -/
structure WalletBatch where
  nWrites : ℕ
  db : WalletTxRecords

namespace BatchOutcome

variable (o : BatchOutcome)

/-- One write. -/
def put (change : WalletTxRecords → WalletTxRecords) (batch : WalletBatch) : Option WalletBatch :=
  if o.write batch.nWrites then some ⟨batch.nWrites + 1, change batch.db⟩ else none

def WriteOrderPosNext (nOrderPosNext : ℤ) : WalletBatch → Option WalletBatch :=
  o.put fun db => { db with orderposnext := some nOrderPosNext }

def WriteTx (hash : uint256) (wtx : WalletCoins) : WalletBatch → Option WalletBatch :=
  o.put fun db => { db with tx := db.tx.insert hash wtx }

def WriteDefaultKey (vchPubKey : CPubKey) : WalletBatch → Option WalletBatch :=
  o.put fun db => { db with defaultkey := some vchPubKey }

def WriteName (dest : CTxDestination) (strName : List UInt8) : WalletBatch → Option WalletBatch :=
  o.put fun db => { db with name := db.name.insert dest strName }

end BatchOutcome

/-- `CReserveKey`; the destructor returns a key that is still there. -/
structure CReserveKey where
  nIndex : Option ℕ
  vchPubKey : CPubKey
deriving DecidableEq, Repr

/-- What `CommitTransaction` asks the rest of the node for. -/
inductive NetworkCall where
  | acceptToMemoryPool (hash : uint256)
  | relayWalletTransaction (hash : uint256)
deriving DecidableEq, Repr

/-- How `CommitTransaction` ends. -/
structure CommitEnd where
  result : Except KeyPoolError Bool
  fCommitted : Bool
  wallet : DurableWallet
  reservekey : CReserveKey
  calls : List NetworkCall

/-- What staging spent coins has done so far. -/
structure CoinStaging where
  mapWallet : CoinTable
  vSpentUndo : SpentUndo
  batch : WalletBatch

namespace WalletCommitEnv

variable (E : WalletCommitEnv) (o : BatchOutcome)

/-- The identifier of a key as an address. -/
def keyDestination (vchPubKey : CPubKey) : CTxDestination := .key (E.digests.Hash160 vchPubKey)

/-! ## The default key -/

/-- A key from the pool for each of the outputs; a pool that is empty and locked gives none. -/
def takeReplacements : ℕ → List CTxOut → KeyPoolWallet CPubKey →
    Except KeyPoolError (List CPubKey) × KeyPoolWallet CPubKey
  | _, [], keyPool => (.ok [], keyPool)
  | n, _ :: rest, keyPool =>
    match keyPool.getKeyFromPool E.newKey E.nKeyPoolArg (o.keyPool n) false with
    | (.error e, keyPool) => (.error e, keyPool)
    | (.ok newDefaultKey, keyPool) =>
      match takeReplacements (n + 1) rest keyPool with
      | (.error e, keyPool) => (.error e, keyPool)
      | (.ok vNewDefaultKeys, keyPool) => (.ok (newDefaultKey.toList ++ vNewDefaultKeys), keyPool)

/-- The outputs that pay the default key. -/
def defaultKeyOutputs (wtxIn : WalletCoins) (keyPool : KeyPoolWallet CPubKey) : List CTxOut :=
  wtxIn.vout.filter fun txout =>
    txout.scriptPubKey = SetDestination (some (E.keyDestination (keyPool.vchDefaultKey.getD [])))

/-- `SelectDefaultKeyReplacements`, which does nothing in a build with a GUI. -/
def selectDefaultKeyReplacements (wtxIn : WalletCoins) (keyPool : KeyPoolWallet CPubKey) :
    Except KeyPoolError (List CPubKey) × KeyPoolWallet CPubKey :=
  if E.fQtGui then (.ok [], keyPool)
  else E.takeReplacements o 0 (E.defaultKeyOutputs wtxIn keyPool) keyPool

def applyDefaultKeyReplacements (vNewDefaultKeys : List CPubKey) (w : DurableWallet) :
    DurableWallet :=
  match vNewDefaultKeys.getLast? with
  | none => w
  | some newDefaultKey => { w with
    keyPool := { w.keyPool with vchDefaultKey := some newDefaultKey }
    mapAddressBook := vNewDefaultKeys.foldl (fun book newDefaultKey =>
      book.insert (E.keyDestination newDefaultKey) []) w.mapAddressBook }

/-! ## The transaction -/

def writePreparedAddToWallet (hash : uint256) (prepared : SyncedWallet)
    (fInsertedNew fNeedsWrite : Bool) (vNewDefaultKeys : List CPubKey) (batch : WalletBatch) :
    Option WalletBatch := do
  let batch ← if fInsertedNew then o.WriteOrderPosNext prepared.nOrderPosNext batch else some batch
  let batch ←
    if fNeedsWrite then (prepared.mapWallet.lookup hash).bind fun wtx => o.WriteTx hash wtx batch
    else some batch
  vNewDefaultKeys.foldlM (fun batch newDefaultKey =>
    (o.WriteDefaultKey newDefaultKey batch).bind
      (o.WriteName (E.keyDestination newDefaultKey) [])) batch

/-- One coin: its old flags are saved, it is marked and written. -/
def stageCoin (fBind : Bool) (spent : SpentCoin) (wtx : WalletCoins) (s : CoinStaging) :
    Bool × CoinStaging :=
  let vSpentUndo :=
    if s.vSpentUndo.any fun undo => undo.1 = spent.1 then s.vSpentUndo
    else s.vSpentUndo ++ [(spent.1, wtx.vfSpent)]
  let coin := WalletCoins.MarkSpent spent.2 { wtx with fBound := wtx.fBound || fBind }
  let mapWallet := s.mapWallet.insert spent.1 coin
  match o.WriteTx (E.txHash coin.toCTransaction) coin s.batch with
  | none => (false, ⟨mapWallet, vSpentUndo, s.batch⟩)
  | some batch => (true, ⟨mapWallet, vSpentUndo, batch⟩)

/-- The loop that `StageSpentCoins` and `StageWalletSpentCoins` share. -/
def stageCoins (fBind fCheckRange : Bool) : List SpentCoin → CoinStaging → Bool × CoinStaging
  | [], s => (true, s)
  | spent :: rest, s =>
    match s.mapWallet.lookup spent.1 with
    | none => stageCoins fBind fCheckRange rest s
    | some wtx =>
      if fCheckRange ∧ wtx.vout.length ≤ spent.2 then stageCoins fBind fCheckRange rest s
      else
        match E.stageCoin o fBind spent wtx s with
        | (false, s) => (false, s)
        | (true, s) => stageCoins fBind fCheckRange rest s

/-- `StageWalletSpentCoins`, for coins that `CollectWalletSpentCoins` has found. -/
def StageWalletSpentCoins (vSpentCoins : List SpentCoin) : CoinStaging → Bool × CoinStaging :=
  E.stageCoins o false false vSpentCoins

/-- `StageSpentCoins`, for all inputs of a transaction. -/
def StageSpentCoins (tx : CTransaction) : CoinStaging → Bool × CoinStaging :=
  E.stageCoins o true true (tx.vin.map fun txin => (txin.prevout.hash, txin.prevout.n))

/-- From `TxnBegin` to `TxnCommit`: whether the transaction commits, and what it leaves in memory
for a rollback. -/
def runBatch (hash : uint256) (prepared : SyncedWallet) (fInsertedNew fNeedsWrite : Bool)
    (vNewDefaultKeys : List CPubKey) (stageSpent : CoinStaging → Bool × CoinStaging)
    (db : WalletTxRecords) : Bool × CoinStaging :=
  let start : CoinStaging := ⟨prepared.mapWallet, [], ⟨0, db⟩⟩
  if ¬ o.txnBegin then (false, start)
  else
    match E.writePreparedAddToWallet o hash prepared fInsertedNew fNeedsWrite vNewDefaultKeys
        start.batch with
    | none => (false, start)
    | some batch =>
      let staged := stageSpent { start with batch := batch }
      (staged.1 && o.txnCommit, staged.2)

/-! ## AddToWallet -/

def AddToWallet (wtxIn : WalletCoins) (w : DurableWallet) :
    Except KeyPoolError Bool × DurableWallet :=
  let hash := E.txHash wtxIn.toCTransaction
  match E.selectDefaultKeyReplacements o wtxIn w.keyPool with
  | (.error e, keyPool) => (.error e, { w with keyPool := keyPool })
  | (.ok vNewDefaultKeys, keyPool) =>
    let w : DurableWallet := { w with keyPool := keyPool }
    let (prepared, fInsertedNew, fNeedsWrite) :=
      prepareAddToWallet E.toWalletEnv hash wtxIn w.toSyncedWallet
    let vSpentCoins :=
      collectWalletSpentCoins E.toWalletEnv prepared.mapWallet wtxIn.toCTransaction
    if fNeedsWrite ∨ vNewDefaultKeys ≠ [] ∨ vSpentCoins ≠ [] then
      let (fCommitted, s) := E.runBatch o hash prepared fInsertedNew fNeedsWrite vNewDefaultKeys
        (E.StageWalletSpentCoins o vSpentCoins) w.db
      if fCommitted then
        (.ok true, E.applyDefaultKeyReplacements vNewDefaultKeys { w with
          toSyncedWallet := { prepared with mapWallet := s.mapWallet }
          db := s.batch.db })
      else
        (.ok false, { w with
          toSyncedWallet := rollbackAddToWallet hash w.toSyncedWallet { prepared with
            mapWallet := rollbackSpentCoins s.vSpentUndo s.mapWallet } })
    else
      (.ok true, E.applyDefaultKeyReplacements vNewDefaultKeys
        { w with toSyncedWallet := prepared })

/-! ## CommitTransaction -/

/-- `CReserveKey::KeepKey`. -/
def keepReservedKey (reservekey : CReserveKey) (keyPool : KeyPoolWallet CPubKey) :
    KeyPoolWallet CPubKey × CReserveKey :=
  (reservekey.nIndex.elim keyPool fun nIndex => keyPool.keepKey { erasePool := o.keepKey } nIndex,
    ⟨none, []⟩)

/-- `CWallet::CommitTransaction`; `fAccepted` is what `AcceptToMemoryPool` gives. It rolls back in
the other order than `AddToWallet`. -/
def CommitTransaction (fAccepted : Bool) (wtxNew : WalletCoins) (reservekey : CReserveKey)
    (w : DurableWallet) : CommitEnd :=
  let hash := E.txHash wtxNew.toCTransaction
  match E.selectDefaultKeyReplacements o wtxNew w.keyPool with
  | (.error e, keyPool) => ⟨.error e, false, { w with keyPool := keyPool }, reservekey, []⟩
  | (.ok vNewDefaultKeys, keyPool) =>
    let w : DurableWallet := { w with keyPool := keyPool }
    let (prepared, fInsertedNew, fNeedsWrite) :=
      prepareAddToWallet E.toWalletEnv hash wtxNew w.toSyncedWallet
    let (fCommitted, s) := E.runBatch o hash prepared fInsertedNew fNeedsWrite vNewDefaultKeys
      (E.StageSpentCoins o wtxNew.toCTransaction) w.db
    if ¬ fCommitted then
      let rolled := rollbackAddToWallet hash w.toSyncedWallet { prepared with
        mapWallet := s.mapWallet }
      ⟨.ok false, false, { w with
        toSyncedWallet := { rolled with
          mapWallet := rollbackSpentCoins s.vSpentUndo rolled.mapWallet } }, reservekey, []⟩
    else
      let (keyPool, reservekey) := keepReservedKey o reservekey w.keyPool
      let w := E.applyDefaultKeyReplacements vNewDefaultKeys { w with
        toSyncedWallet := { prepared with mapWallet := s.mapWallet }
        keyPool := keyPool
        db := s.batch.db }
      let w : DurableWallet := { w with mapRequestCount := w.mapRequestCount.insert hash 0 }
      if ¬ fAccepted then ⟨.ok false, true, w, reservekey, [.acceptToMemoryPool hash]⟩
      else ⟨.ok true, true, w, reservekey, [.acceptToMemoryPool hash, .relayWalletTransaction hash]⟩

end WalletCommitEnv

end Phoenixcoin.Program
