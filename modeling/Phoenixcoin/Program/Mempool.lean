import Phoenixcoin.Program.WalletSync

/-!
# The memory pool

`CTxMemPool` of `main.cpp` with `AcceptWalletTransaction` and the part of
`ReacceptWalletTransactions` that puts transactions back into the pool. A pointer into `mapTx` is
the hash it belongs to. The replacement of a transaction is disabled in the source by an early
return and left out.
-/

set_option autoImplicit false

namespace Phoenixcoin.Program

open Lib

/-- What `accept` asks of code that does not touch the pool: the rules for standard transactions,
the fee with the rate limiter, the best block, and the outcome of reads. -/
structure PoolContext where
  ctx : NodeContext
  outcome : DbOutcome
  isStandard : CTransaction → Bool
  areInputsStandard : MapPrevTx → CTransaction → Bool
  /-- The fee reaches `GetMinFee`, and the rate limiter lets the transaction pass. -/
  acceptsFee : ℤ → CTransaction → Bool
  pindexBest : CBlockIndex
  pprevs : List CBlockIndex

def CTxDB.containsTx (hash : uint256) (txdb : CTxDB) : Bool := (txdb.view.tx.lookup hash).isSome

/-- What `accept` returns; without acceptance it says whether inputs are missing. -/
structure AcceptResult where
  fAccepted : Bool
  fMissingInputs : Bool := false

namespace CTxMemPool

/-- The pool of a node that starts. -/
def empty : CTxMemPool := ⟨∅, ∅⟩

def addUnchecked (hash : uint256) (tx : CTransaction) (pool : CTxMemPool) : CTxMemPool where
  mapTx := pool.mapTx.insert hash tx
  mapNextTx := tx.vin.zipIdx.foldl
    (fun mapNextTx (txin, i) => mapNextTx.insert txin.prevout ⟨hash, i⟩) pool.mapNextTx

def clear (_ : CTxMemPool) : CTxMemPool := empty

section Accept

variable (env : ChainEnv) (A : PoolContext) (txdb : CTxDB)

/-- The checks of `accept` on the inputs. -/
def checkInputs (tx : CTransaction) (pool : CTxMemPool) : AcceptResult :=
  let ctx := { A.ctx with mapTx := pool.mapTx }
  match fetchInputs env ctx A.outcome txdb ∅ false false tx with
  | .error fInvalid => { fAccepted := false, fMissingInputs := !fInvalid }
  | .ok mapInputs =>
    if ¬ A.areInputsStandard mapInputs tx ∧ ¬ env.fTestNet then { fAccepted := false }
    else
      match getValueIn mapInputs tx, tx.getValueOut with
      | some nValueIn, some nValueOut =>
        if ¬ A.acceptsFee (nValueIn - nValueOut) tx then { fAccepted := false }
        else
          { fAccepted := (connectInputs env ctx mapInputs ∅ ⟨1, 1, 1⟩ A.pindexBest A.pprevs
              false false true tx).isSome }
      | _, _ => { fAccepted := false }

def accept (tx : CTransaction) (fCheckInputs : Bool) (pool : CTxMemPool) :
    AcceptResult × CTxMemPool :=
  let rejected : AcceptResult × CTxMemPool := ({ fAccepted := false }, pool)
  if ¬ tx.checkTransaction then rejected
  else if tx.IsCoinBase then rejected
  else if (tx.nLockTime : ℤ) > 2 ^ 31 - 1 then rejected
  else if ¬ env.fTestNet ∧ ¬ A.isStandard tx then rejected
  else
    let hash := env.txHash tx
    if hash ∈ pool.mapTx then rejected
    else if fCheckInputs ∧ txdb.containsTx hash then rejected
    else if ∃ txin ∈ tx.vin, txin.prevout ∈ pool.mapNextTx then rejected
    else
      let result := if fCheckInputs then checkInputs env A txdb tx pool else { fAccepted := true }
      if result.fAccepted then (result, pool.addUnchecked hash tx) else (result, pool)

/-! ## Transactions of the wallet -/

def acceptWalletTransaction (wtx : CWalletTx) (fCheckInputs : Bool)
    (pool : CTxMemPool) : AcceptResult × CTxMemPool :=
  let pool := wtx.vtxPrev.foldl (fun pool tx =>
      let hash := env.txHash tx.toCTransaction
      if ¬ tx.IsCoinBase ∧ hash ∉ pool.mapTx ∧ ¬ txdb.containsTx hash then
        (pool.accept env A txdb tx.toCTransaction fCheckInputs).2
      else pool) pool
  pool.accept env A txdb wtx.toCTransaction fCheckInputs

/-- One round of the loop of `ReacceptWalletTransactions` over the wallet. -/
def reacceptWalletTransaction (pool : CTxMemPool) (wtx : WalletCoins) :
    CTxMemPool :=
  if wtx.IsCoinBase ∧ wtx.IsSpent 0 then pool
  else if txdb.containsTx (env.txHash wtx.toCTransaction) then pool
  else if ¬ wtx.IsCoinBase then
    (pool.acceptWalletTransaction env A txdb wtx.toCWalletTx false).2
  else pool

/-- The loop over the transactions of the wallet. -/
def reacceptWalletTransactions (mapWallet : List WalletCoins) (pool : CTxMemPool) :
    CTxMemPool :=
  mapWallet.foldl (reacceptWalletTransaction env A txdb) pool

end Accept

end CTxMemPool

/-! ## The pool while a block file is imported -/

section Import

variable (env : NodeEnv) (acceptToMemoryPool : CTransaction → CTxMemPool → CTxMemPool)

/-- The pool after `processBlock`. -/
def processBlockPool (item : ImportedBlock) (n : Node) (batch : CChainImportBatch)
    (pool : CTxMemPool) : CTxMemPool :=
  if ¬ item.fChecked then pool
  else if item.block.hashPrevBlock ∉ n.chain.mapBlockIndex then pool
  else if ¬ item.fAccepted then pool
  else
    addToBlockIndexPool env item.outcome acceptToMemoryPool item.nFile item.nBlockPos item.block n
      batch pool

/-- The pool after `importBlock`: only `ProcessBlock` changes it. -/
def importBlockPool (item : ImportedBlock) (n : Node) (batch : CChainImportBatch)
    (pool : CTxMemPool) : CTxMemPool :=
  if env.blockHash item.block.toCBlockHeader ∈ n.chain.mapBlockIndex ∨ item.fKnownOrphan then pool
  else
    let (fSuccess, n, batch) :=
      if batch.fActive ∧
          ¬ batch.canAppend env.toChainEnv item.fIdle n.chain item.block item.nSize then
        batch.commitBatch item.fCommit n
      else (true, n, batch)
    if ¬ fSuccess then pool
    else
      let (_, n, batch) :=
        if ¬ batch.fActive ∧
            CChainImportBatch.isEligible env.toChainEnv item.fIdle n.chain item.block then
          batch.beginBatch item.fBegin n
        else (true, n, batch)
      processBlockPool env acceptToMemoryPool item n batch pool

/-- The pool after `loadExternalBlockFile`. -/
def loadExternalBlockFilePool :
    List ImportedBlock → Node → CChainImportBatch → CTxMemPool → CTxMemPool
  | [], _, _, pool => pool
  | item :: rest, n, batch, pool =>
    match importBlock env item n batch with
    | (true, n', batch') =>
      loadExternalBlockFilePool rest n' batch'
        (importBlockPool env acceptToMemoryPool item n batch pool)
    | (false, _, _) => importBlockPool env acceptToMemoryPool item n batch pool

end Import

end Phoenixcoin.Program
