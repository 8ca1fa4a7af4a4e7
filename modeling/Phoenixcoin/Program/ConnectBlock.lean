import Phoenixcoin.Lib.Run
import Phoenixcoin.Program.ChainDb

/-!
# Connecting and disconnecting blocks

The part of `main.cpp` that applies a block to the transaction index and takes it back:
`FetchInputs`, `ConnectInputs`, `CheckBlock`, `ConnectBlock`, `DisconnectInputs` and
`DisconnectBlock`. A failed call returns `none`: its caller aborts the database transaction,
so what it had written up to then is never seen.
-/

set_option autoImplicit false

namespace Phoenixcoin.Program

open Lib

/-- What block connection takes from other parts of the node: hashing, script evaluation,
proof of work, network constants and the block files. -/
structure ChainEnv where
  fTestNet : Bool
  nBaseMaturity : ℕ
  /-- `Checkpoints::GetTotalBlocksEstimate`. -/
  totalBlocksEstimate : ℤ
  txHash : CTransaction → uint256
  blockHash : CBlockHeader → uint256
  checkProofOfWork : CBlock → Bool
  buildMerkleTree : List uint256 → uint256
  getSigOpCount : CScript → Bool → ℕ
  getP2SHSigOpCount : CScript → CScript → ℕ
  isPayToScriptHash : CScript → Bool
  verifyScript : CScript → CScript → CTransaction → ℕ → Bool → ℤ → Bool
  /-- The transaction stored in block file `nFile` at offset `nTxPos`. -/
  blockFileTx : ℕ → ℕ → Option CTransaction
  /-- The block stored in block file `nFile` at offset `nBlockPos`. -/
  blockFileBlock : ℕ → ℕ → Option CBlock

/-- The globals of the running node that block connection reads. -/
structure NodeContext where
  nBestHeight : ℤ
  nAdjustedTime : ℤ
  mapTx : Table uint256 CTransaction

/-- The disk and database operations made for one block. Each can fail by itself. -/
inductive DbOp where
  | readBlock
  | readOldTxIndex (hash : uint256)
  | readTxIndex (tx hash : uint256)
  | readTx (tx hash : uint256)
  | updateTxIndex (hash : uint256)
  | writePrevBlockIndex
  | disconnectReadTxIndex (tx : uint256) (prevout : COutPoint)
  | disconnectUpdateTxIndex (tx : uint256) (prevout : COutPoint)
  | disconnectEraseTxIndex (tx : uint256)
deriving DecidableEq, Repr

/-- Which operations succeed. -/
abbrev DbOutcome : Type := DbOp → Bool

/-! ## Reading blocks and transactions from disk -/

/-- The file numbers that `OpenBlockFile` refuses. -/
def openBlockFile (nFile : ℕ) : Bool := ¬ (nFile < 1 ∨ nFile = uintMax)

/-- `CTransaction::ReadFromDisk`. -/
def ChainEnv.readTxFromDisk (env : ChainEnv) (pos : CDiskTxPos) : Option CTransaction :=
  if openBlockFile pos.nFile then env.blockFileTx pos.nFile pos.nTxPos else none

/-! ## Inputs of a transaction -/

/-- The previous transactions of a transaction with their index entries. -/
abbrev MapPrevTx : Type := Table uint256 (CTxIndex × CTransaction)

section Inputs

variable (env : ChainEnv) (ctx : NodeContext) (outcome : DbOutcome)

/-- The part of `FetchInputs` that looks up one previous transaction; the error carries
`fInvalid`. -/
def fetchPrevTx (txdb : CTxDB) (mapTestPool : TxIndexTable) (fBlock fMiner : Bool)
    (hashTx hash : uint256) : Except Bool (CTxIndex × CTransaction) :=
  let readTx (txindex : CTxIndex) : Except Bool (CTxIndex × CTransaction) :=
    match (if outcome (.readTx hashTx hash) then env.readTxFromDisk txindex.pos else none) with
    | some txPrev => .ok (txindex, txPrev)
    | none => .error false
  match (if fBlock || fMiner then mapTestPool.lookup hash else none) with
  | some txindex => readTx txindex
  | none =>
    match (if fBlock || fMiner then none else ctx.mapTx.lookup hash) with
    | some txPrev => .ok (.ofOutputs .null txPrev.vout.length, txPrev)
    | none =>
      match txdb.readTxIndex (outcome (.readTxIndex hashTx hash)) hash with
      | some txindex =>
        if txindex.pos = ⟨1, 1, 1⟩ then
          match ctx.mapTx.lookup hash with
          | some txPrev => .ok (txindex, txPrev)
          | none => .error false
        else readTx txindex
      | none =>
        if fBlock || fMiner then .error false
        else
          match ctx.mapTx.lookup hash with
          | some txPrev => .ok (.ofOutputs .null txPrev.vout.length, txPrev)
          | none => .error false

/-- One round of the first loop of `FetchInputs`: look up a previous transaction once. -/
def fetchInput (txdb : CTxDB) (mapTestPool : TxIndexTable) (fBlock fMiner : Bool)
    (hashTx : uint256) (inputs : MapPrevTx) (txin : CTxIn) : Except Bool MapPrevTx :=
  match inputs.lookup txin.prevout.hash with
  | some _ => .ok inputs
  | none =>
    (fetchPrevTx env ctx outcome txdb mapTestPool fBlock fMiner hashTx txin.prevout.hash).map
      fun prev => inputs.insert txin.prevout.hash prev

variable (inputs : MapPrevTx)

/-- The bounds check that `FetchInputs` and `ConnectInputs` make on an input. -/
def prevoutInRange (prevout : COutPoint) : Bool :=
  match inputs.lookup prevout.hash with
  | some (txindex, txPrev) =>
    prevout.n < txPrev.vout.length && prevout.n < txindex.vSpent.length
  | none => false

/-- `CTransaction::FetchInputs`; the error carries `fInvalid`. -/
def fetchInputs (txdb : CTxDB) (mapTestPool : TxIndexTable) (fBlock fMiner : Bool)
    (tx : CTransaction) : Except Bool MapPrevTx := do
  if tx.IsCoinBase then return ∅
  let inputs ← tx.vin.foldlM
    (fetchInput env ctx outcome txdb mapTestPool fBlock fMiner (env.txHash tx)) ∅
  if tx.vin.all fun txin => prevoutInRange inputs txin.prevout then return inputs
  else .error true

/-- `CTransaction::GetOutputFor`; `none` is the exception it throws. -/
def getOutputFor (input : CTxIn) : Option CTxOut :=
  (inputs.lookup input.prevout.hash).bind fun prev => prev.2.vout[input.prevout.n]?

def getValueIn (tx : CTransaction) : Option ℤ :=
  if tx.IsCoinBase then some 0
  else tx.vin.foldlM (fun nResult txin =>
    (getOutputFor inputs txin).map fun txout => nResult + txout.nValue) 0

def getP2SHSigOpCount (tx : CTransaction) : Option ℕ :=
  if tx.IsCoinBase then some 0
  else tx.vin.foldlM (fun nSigOps txin =>
    (getOutputFor inputs txin).map fun prevout =>
      if env.isPayToScriptHash prevout.scriptPubKey then
        nSigOps + env.getP2SHSigOpCount prevout.scriptPubKey txin.scriptSig
      else nSigOps) 0

def getLegacySigOpCount (tx : CTransaction) : ℕ :=
  (tx.vin.map fun txin => env.getSigOpCount txin.scriptSig false).sum
    + (tx.vout.map fun txout => env.getSigOpCount txout.scriptPubKey false).sum

def verifySignature (txFrom txTo : CTransaction) (nIn : ℕ) (fValidatePayToScriptHash : Bool)
    (nHashType : ℤ) : Bool :=
  match txTo.vin[nIn]? with
  | none => false
  | some txin =>
    match txFrom.vout[txin.prevout.n]? with
    | none => false
    | some txout =>
      txin.prevout.hash = env.txHash txFrom &&
        env.verifyScript txin.scriptSig txout.scriptPubKey txTo nIn fValidatePayToScriptHash
          nHashType

/-- The walk of `ConnectInputs` over `pindexBlock` and the entries before it: is one of those
above the maturity depth the block that holds the coinbase at `pos`? -/
def immatureCoinBase (pindexBlock : CBlockIndex) (pprevs : List CBlockIndex)
    (pos : CDiskTxPos) : Bool :=
  ((pindexBlock :: pprevs).takeWhile fun pindex =>
      (pindexBlock.nHeight : ℤ) - pindex.nHeight < env.nBaseMaturity).any
    fun pindex => pindex.nBlockPos = pos.nBlockPos && pindex.nFile = pos.nFile

/-- One round of the first loop of `ConnectInputs`: the inexpensive checks. -/
def checkInput (pindexBlock : CBlockIndex) (pprevs : List CBlockIndex)
    (nValueIn : ℤ) (txin : CTxIn) : Option ℤ := do
  let (txindex, txPrev) ← inputs.lookup txin.prevout.hash
  let txout ← txPrev.vout[txin.prevout.n]?
  guard (txin.prevout.n < txindex.vSpent.length)
  guard (¬ (txPrev.IsCoinBase ∧ immatureCoinBase env pindexBlock pprevs txindex.pos))
  guard (MoneyRange txout.nValue ∧ MoneyRange (nValueIn + txout.nValue))
  return nValueIn + txout.nValue

/-- One round of the second loop of `ConnectInputs`: refuse a spent output, verify the
signature and mark the output as spent by the transaction at `posThisTx`. -/
def spendInput (tx : CTransaction) (posThisTx : CDiskTxPos)
    (fBlock fMiner fStrictPayToScriptHash : Bool) (state : MapPrevTx × TxIndexTable)
    (input : CTxIn × ℕ) : Option (MapPrevTx × TxIndexTable) := do
  let (inputs, mapTestPool) := state
  let prevout := input.1.prevout
  let (txindex, txPrev) ← inputs.lookup prevout.hash
  let spent ← txindex.vSpent[prevout.n]?
  guard spent.IsNull
  guard ((fBlock ∧ ctx.nBestHeight < env.totalBlocksEstimate) ∨
    verifySignature env txPrev tx input.2 fStrictPayToScriptHash 0)
  let txindex' := { txindex with vSpent := txindex.vSpent.set prevout.n posThisTx }
  return (inputs.insert prevout.hash (txindex', txPrev),
    if fBlock || fMiner then mapTestPool.insert prevout.hash txindex' else mapTestPool)

/-- `CTransaction::ConnectInputs`: the changed `mapTestPool`. -/
def connectInputs (mapTestPool : TxIndexTable) (posThisTx : CDiskTxPos)
    (pindexBlock : CBlockIndex) (pprevs : List CBlockIndex)
    (fBlock fMiner fStrictPayToScriptHash : Bool) (tx : CTransaction) : Option TxIndexTable :=
  if tx.IsCoinBase then some mapTestPool
  else do
    let nValueIn ← tx.vin.foldlM (checkInput env inputs pindexBlock pprevs) 0
    let (_, mapTestPool') ← tx.vin.zipIdx.foldlM
      (spendInput env ctx tx posThisTx fBlock fMiner fStrictPayToScriptHash)
      (inputs, mapTestPool)
    let nValueOut ← tx.getValueOut
    guard (¬ nValueIn < nValueOut)
    guard (MoneyRange (nValueIn - nValueOut))
    return mapTestPool'

end Inputs

/-! ## Blocks -/

def checkBlock (env : ChainEnv) (ctx : NodeContext) (fCheckPOW fCheckMerkleRoot : Bool)
    (block : CBlock) : Bool :=
  if block.vtx.isEmpty || block.vtx.length > MAX_BLOCK_SIZE
      || block.getSerializeSize > MAX_BLOCK_SIZE then false
  else if fCheckPOW && !env.checkProofOfWork block then false
  else if block.nTime > ctx.nAdjustedTime + 2 * 60 * 60 then false
  else if ¬ (block.vtx.take 1).all fun tx => tx.IsCoinBase then false
  else if (block.vtx.drop 1).any fun tx => tx.IsCoinBase then false
  else if ¬ block.vtx.all CTransaction.checkTransaction then false
  else if ¬ (block.vtx.map env.txHash).Nodup then false
  else if (block.vtx.map (getLegacySigOpCount env)).sum > MAX_BLOCK_SIGOPS then false
  else if fCheckMerkleRoot
      && block.hashMerkleRoot ≠ env.buildMerkleTree (block.vtx.map env.txHash) then false
  else true

/-- `nForkThree`, `nForkFour` and `nTestnetForkOne`. -/
def nForkThree : ℕ := 74100
def nForkFour : ℕ := 154000
def nTestnetForkOne : ℕ := 600

def getProofOfWorkReward (fTestNet : Bool) (nHeight : ℕ) (nFees : ℤ) : ℤ :=
  let nSubsidy : ℤ :=
    if (nForkThree ≤ nHeight ∧ nHeight < nForkFour) ∨ (fTestNet ∧ nHeight < nTestnetForkOne)
    then 25 * COIN else 50 * COIN
  (nSubsidy >>> (nHeight / 1000000)) + nFees

/-- `GetMoneySupply`: the eras before the one of `nHeight` count in full. -/
def getMoneySupply (fTestNet : Bool) (nHeight : ℕ) : ℤ :=
  if ¬ fTestNet then
    -- Includes the genesis block, which is unspendable.
    if nHeight < nForkThree then ((nHeight : ℤ) + 1) * 50 * COIN
    else
      let nMoneySupply : ℤ := nForkThree * 50 * COIN
      if nHeight < nForkFour then nMoneySupply + ((nHeight : ℤ) - nForkThree + 1) * 25 * COIN
      else
        let nMoneySupply := nMoneySupply + (nForkFour - nForkThree) * 25 * COIN
        if nHeight < 1000000 then nMoneySupply + ((nHeight : ℤ) - nForkFour + 1) * 50 * COIN
        else
          let nMoneySupply := nMoneySupply + (1000000 - nForkFour) * 50 * COIN
          if nHeight < 2000000 then nMoneySupply + ((nHeight : ℤ) - 1000000 + 1) * 25 * COIN
          else
            let nMoneySupply := nMoneySupply + (2000000 - 1000000) * 25 * COIN
            if nHeight < 3000000 then
              nMoneySupply + ((nHeight : ℤ) - 2000000 + 1) * 25 * COIN / 2
            else
              let nMoneySupply := nMoneySupply + (3000000 - 2000000) * 25 * COIN / 2
              if nHeight < 4000000 then
                nMoneySupply + ((nHeight : ℤ) - 3000000 + 1) * 25 * COIN / 4
              else nMoneySupply + (4000000 - 3000000) * 25 * COIN / 4
  else
    if nHeight < nTestnetForkOne then (nHeight : ℤ) * 25 * COIN
    else
      let nMoneySupply : ℤ := nTestnetForkOne * 25 * COIN
      if nHeight < 1000000 then nMoneySupply + ((nHeight : ℤ) - nTestnetForkOne + 1) * 50 * COIN
      else
        let nMoneySupply := nMoneySupply + (1000000 - nTestnetForkOne) * 50 * COIN
        if nHeight < 2000000 then nMoneySupply + ((nHeight : ℤ) - 1000000 + 1) * 25 * COIN
        else nMoneySupply + (2000000 - 1000000) * 25 * COIN

/-- The two blocks that are exempt from the check for overwritten transactions. -/
def enforceBIP30 (pindex : CBlockIndex) : Bool :=
  match pindex.phashBlock with
  | none => true
  | some hash =>
    ¬ ((pindex.nHeight = 91842 ∧
        hash = 0x00000000000a4d0a398161ffc163c503763b1f4360639393e0e4c8e300e0caec) ∨
      (pindex.nHeight = 91880 ∧
        hash = 0x00000000000743f190a18c5577a3c2d2a1f610ae9601ac046a38084ccb7cd721))

/-- The variables of `ConnectBlock` that its loop over the transactions changes. -/
structure ConnectState where
  mapQueuedChanges : TxIndexTable
  nFees : ℤ
  nSigOps : ℕ
  nTxPos : ℕ

section Blocks

variable (env : ChainEnv) (ctx : NodeContext) (outcome : DbOutcome)

/-- The signature operations of pay-to-script-hash inputs, counted against the limit. -/
def addP2SHSigOps (fStrictPayToScriptHash : Bool) (mapInputs : MapPrevTx) (nSigOps : ℕ)
    (tx : CTransaction) : Option ℕ :=
  if fStrictPayToScriptHash then do
    let nP2SH ← getP2SHSigOpCount env mapInputs tx
    guard (nSigOps + nP2SH ≤ MAX_BLOCK_SIGOPS)
    return nSigOps + nP2SH
  else some nSigOps

/-- One round of the loop of `ConnectBlock` over the transactions. -/
def connectTx (txdb : CTxDB) (pindex : CBlockIndex) (pprevs : List CBlockIndex)
    (fJustCheck : Bool) (state : ConnectState) (tx : CTransaction) : Option ConnectState := do
  let hashTx := env.txHash tx
  guard (¬ (enforceBIP30 pindex ∧ (txdb.readTxIndex (outcome (.readOldTxIndex hashTx)) hashTx).any
      fun txindexOld => txindexOld.vSpent.any fun pos => pos.IsNull))
  let nSigOps := state.nSigOps + getLegacySigOpCount env tx
  guard (nSigOps ≤ MAX_BLOCK_SIGOPS)
  let posThisTx : CDiskTxPos := ⟨pindex.nFile, pindex.nBlockPos, state.nTxPos⟩
  let nTxPos := if fJustCheck then state.nTxPos else state.nTxPos + tx.getSerializeSize
  -- BIP16 didn't become active until Apr 1 2012
  let fStrictPayToScriptHash : Bool := pindex.nTime ≥ 1333238400
  if tx.IsCoinBase then
    return ⟨state.mapQueuedChanges.insert hashTx (.ofOutputs posThisTx tx.vout.length),
      state.nFees, nSigOps, nTxPos⟩
  let mapInputs ←
    (fetchInputs env ctx outcome txdb state.mapQueuedChanges true false tx).toOption
  let nSigOps ← addP2SHSigOps env fStrictPayToScriptHash mapInputs nSigOps tx
  let nValueIn ← getValueIn mapInputs tx
  let nValueOut ← tx.getValueOut
  let mapQueuedChanges ← connectInputs env ctx mapInputs state.mapQueuedChanges posThisTx
    pindex pprevs true false fStrictPayToScriptHash tx
  return ⟨mapQueuedChanges.insert hashTx (.ofOutputs posThisTx tx.vout.length),
    state.nFees + (nValueIn - nValueOut), nSigOps, nTxPos⟩

/-- The position in its file of the first transaction of a block. -/
def firstTxPos (pindex : CBlockIndex) (block : CBlock) : ℕ :=
  pindex.nBlockPos + (80 + getSizeOfCompactSize 0) - 1 + getSizeOfCompactSize block.vtx.length

/-- `UpdateTxIndex` for every queued change. -/
def writeQueuedChanges (mapQueuedChanges : TxIndexTable) (txdb : CTxDB) : Option CTxDB := do
  guard (∀ hash ∈ mapQueuedChanges.keys, outcome (.updateTxIndex hash) = true)
  return txdb.update fun r => { r with tx := mapQueuedChanges ∪ r.tx }

/-- Both directions write the record of the entry before the block with a new `hashNext`. -/
def writePrevBlockIndex (pprevs : List CBlockIndex) (hashNext : uint256) (txdb : CTxDB) :
    Option CTxDB :=
  match pprevs with
  | [] => some txdb
  | pprev :: _ =>
    txdb.writeBlockIndex env.blockHash (outcome .writePrevBlockIndex)
      { CDiskBlockIndex.ofBlockIndex pprev with hashNext := hashNext }

/-- `CBlock::ConnectBlock`. The list `pprevs` holds the entries that `pprev` reaches from
`pindex`, the nearest one first. -/
def connectBlock (txdb : CTxDB) (pindex : CBlockIndex) (pprevs : List CBlockIndex)
    (fJustCheck : Bool) (block : CBlock) : Option CTxDB := do
  guard (checkBlock env ctx (!fJustCheck) (!fJustCheck) block)
  let nTxPos := if fJustCheck then 1 else firstTxPos pindex block
  let state ← block.vtx.foldlM (connectTx env ctx outcome txdb pindex pprevs fJustCheck)
    ⟨∅, 0, 0, nTxPos⟩
  let coinBase ← block.vtx.head?
  let nValueOut ← coinBase.getValueOut
  guard (¬ nValueOut > getProofOfWorkReward env.fTestNet pindex.nHeight state.nFees)
  if fJustCheck then return txdb
  let txdb ← writeQueuedChanges outcome state.mapQueuedChanges txdb
  writePrevBlockIndex env outcome pprevs (pindex.phashBlock.getD 0) txdb

/-- One round of the loop of `DisconnectInputs`: mark the outpoint as not spent. -/
def disconnectInput (tx : CTransaction) (txdb : CTxDB) (txin : CTxIn) : Option CTxDB := do
  let prevout := txin.prevout
  let hashTx := env.txHash tx
  let txindex ←
    txdb.readTxIndex (outcome (.disconnectReadTxIndex hashTx prevout)) prevout.hash
  guard (prevout.n < txindex.vSpent.length)
  txdb.updateTxIndex (outcome (.disconnectUpdateTxIndex hashTx prevout)) prevout.hash
    { txindex with vSpent := txindex.vSpent.set prevout.n CDiskTxPos.null }

/-- `CTransaction::DisconnectInputs`. It does not look at the result of `EraseTxIndex`. -/
def disconnectInputs (txdb : CTxDB) (tx : CTransaction) : Option CTxDB := do
  let txdb ← if tx.IsCoinBase then pure txdb
    else tx.vin.foldlM (disconnectInput env outcome tx) txdb
  return (txdb.eraseTxIndex (outcome (.disconnectEraseTxIndex (env.txHash tx)))
    (env.txHash tx)).getD txdb

/-- `CBlock::DisconnectBlock`: the transactions in reverse order. -/
def disconnectBlock (txdb : CTxDB) (pprevs : List CBlockIndex) (block : CBlock) :
    Option CTxDB := do
  let txdb ← block.vtx.reverse.foldlM (disconnectInputs env outcome) txdb
  writePrevBlockIndex env outcome pprevs 0 txdb

end Blocks

end Phoenixcoin.Program
