import Phoenixcoin.Lib.RunTrace
import Phoenixcoin.Program.Int64
import Phoenixcoin.Program.Mempool
import Phoenixcoin.Program.Miner

/-!
# Sums and differences of amounts

The results of the additions and subtractions of amounts in `GetValueIn`, `ConnectInputs`,
`ConnectBlock`, `CTxMemPool::accept` and `CreateNewBlock`, in the order in which the functions come
to them. They are the exact numbers; the source keeps them in an `int64`.
-/

set_option autoImplicit false

namespace Phoenixcoin.Program

open Lib

/-- The number is an `int64`. -/
def FitsInt64 (n : ℤ) : Prop := -2 ^ 63 ≤ n ∧ n < 2 ^ 63

instance : DecidablePred FitsInt64 := fun _ => inferInstanceAs (Decidable (_ ∧ _))

/-! ## Inputs of a transaction -/

/-- The value of the output that an input spends; without one `GetOutputFor` throws. -/
def valueOfInput (inputs : MapPrevTx) (txin : CTxIn) : Option ℤ :=
  (getOutputFor inputs txin).map CTxOut.nValue

/-- `nResult` in `GetValueIn`. -/
def valueInAmounts (inputs : MapPrevTx) (tx : CTransaction) : List ℤ :=
  if tx.IsCoinBase then [] else runningSums (valueOfInput inputs) 0 tx.vin

section Inputs

variable (env : ChainEnv) (ctx : NodeContext)

/-- The output of an input that has passed the checks before the addition in `ConnectInputs`. -/
def outputToAdd (inputs : MapPrevTx) (pindexBlock : CBlockIndex) (pprevs : List CBlockIndex)
    (txin : CTxIn) : Option CTxOut := do
  let (txindex, txPrev) ← inputs.lookup txin.prevout.hash
  let txout ← txPrev.vout[txin.prevout.n]?
  guard (txin.prevout.n < txindex.vSpent.length)
  guard (¬ (txPrev.IsCoinBase ∧ immatureCoinBase env pindexBlock pprevs txindex.pos))
  return txout

/-- `nValueIn`, `nTxFee` and `nFees` in `ConnectInputs`. -/
def connectInputsAmounts (inputs : MapPrevTx) (mapTestPool : TxIndexTable)
    (posThisTx : CDiskTxPos) (pindexBlock : CBlockIndex) (pprevs : List CBlockIndex)
    (fBlock fMiner fStrictPayToScriptHash : Bool) (tx : CTransaction) : List ℤ :=
  if tx.IsCoinBase then []
  else
    runTrace (checkInput env inputs pindexBlock pprevs)
        (fun nValueIn txin => (outputToAdd env inputs pindexBlock pprevs txin).toList.map
          fun txout => nValueIn + txout.nValue) 0 tx.vin ++
      (do
        let nValueIn ← tx.vin.foldlM (checkInput env inputs pindexBlock pprevs) 0
        let _ ← tx.vin.zipIdx.foldlM
          (spendInput env ctx tx posThisTx fBlock fMiner fStrictPayToScriptHash)
          (inputs, mapTestPool)
        let nValueOut ← tx.getValueOut
        guard (¬ nValueIn < nValueOut)
        return [nValueIn - nValueOut, 0 + (nValueIn - nValueOut)]).getD []

end Inputs

/-! ## Blocks -/

section Blocks

variable (env : ChainEnv) (ctx : NodeContext) (outcome : DbOutcome) (txdb : CTxDB)
  (pindex : CBlockIndex) (pprevs : List CBlockIndex) (fJustCheck : Bool)

/-- The inputs with which a round of the loop of `ConnectBlock` comes to the fee. -/
def inputsForFee (state : ConnectState) (tx : CTransaction) : Option MapPrevTx := do
  let hashTx := env.txHash tx
  guard (¬ (enforceBIP30 pindex ∧ (txdb.readTxIndex (outcome (.readOldTxIndex hashTx)) hashTx).any
      fun txindexOld => txindexOld.vSpent.any fun pos => pos.IsNull))
  let nSigOps := state.nSigOps + getLegacySigOpCount env tx
  guard (nSigOps ≤ MAX_BLOCK_SIGOPS)
  guard (¬ tx.IsCoinBase)
  let mapInputs ←
    (fetchInputs env ctx outcome txdb state.mapQueuedChanges true false tx).toOption
  let _ ← addP2SHSigOps env (pindex.nTime ≥ 1333238400) mapInputs nSigOps tx
  return mapInputs

/-- The amounts of one round of the loop of `ConnectBlock`. -/
def connectTxAmounts (state : ConnectState) (tx : CTransaction) : List ℤ :=
  (inputsForFee env ctx outcome txdb pindex state tx).elim [] fun mapInputs =>
    valueInAmounts mapInputs tx ++
      (do
        let nValueIn ← getValueIn mapInputs tx let nValueOut ← tx.getValueOut
        return [nValueIn - nValueOut, state.nFees + (nValueIn - nValueOut)] ++
          connectInputsAmounts env ctx mapInputs state.mapQueuedChanges
            ⟨pindex.nFile, pindex.nBlockPos, state.nTxPos⟩ pindex pprevs true false
            (pindex.nTime ≥ 1333238400) tx).getD []

/-- The state before the loop of `ConnectBlock`. -/
def connectStart (block : CBlock) : ConnectState :=
  ⟨∅, 0, 0, if fJustCheck then 1 else firstTxPos pindex block⟩

/-- The amounts in `ConnectBlock`. -/
def connectBlockAmounts (block : CBlock) : List ℤ :=
  if checkBlock env ctx (!fJustCheck) (!fJustCheck) block then
    runTrace (connectTx env ctx outcome txdb pindex pprevs fJustCheck)
      (connectTxAmounts env ctx outcome txdb pindex pprevs) (connectStart pindex fJustCheck block)
      block.vtx
  else []

end Blocks

/-! ## The memory pool -/

section Accept

variable (env : ChainEnv) (A : PoolContext) (txdb : CTxDB)

/-- The inputs with which `accept` comes to the fee. -/
def acceptedInputs (tx : CTransaction) (fCheckInputs : Bool) (pool : CTxMemPool) :
    Option MapPrevTx := do
  guard (tx.checkTransaction = true)
  guard (¬ tx.IsCoinBase)
  guard (¬ (tx.nLockTime : ℤ) > 2 ^ 31 - 1)
  guard (¬ (¬ env.fTestNet ∧ ¬ A.isStandard tx))
  let hash := env.txHash tx
  guard (hash ∉ pool.mapTx)
  guard (¬ (fCheckInputs ∧ txdb.containsTx hash))
  guard (¬ ∃ txin ∈ tx.vin, txin.prevout ∈ pool.mapNextTx)
  guard (fCheckInputs = true)
  let mapInputs ←
    (fetchInputs env { A.ctx with mapTx := pool.mapTx } A.outcome txdb ∅ false false tx).toOption
  guard (¬ (¬ A.areInputsStandard mapInputs tx ∧ ¬ env.fTestNet))
  return mapInputs

/-- The amounts in `accept`. -/
def acceptAmounts (tx : CTransaction) (fCheckInputs : Bool) (pool : CTxMemPool) : List ℤ :=
  (acceptedInputs env A txdb tx fCheckInputs pool).elim [] fun mapInputs =>
    valueInAmounts mapInputs tx ++
      (do
        let nValueIn ← getValueIn mapInputs tx let nValueOut ← tx.getValueOut
        let nFees := nValueIn - nValueOut
        return nFees ::
          if A.acceptsFee nFees tx then
            connectInputsAmounts env { A.ctx with mapTx := pool.mapTx } mapInputs ∅ ⟨1, 1, 1⟩
              A.pindexBest A.pprevs false false true tx
          else []).getD []

end Accept

/-! ## The miner -/

section Mining

variable (env : ChainEnv) (args : MinerArgs) (o : MinerOutcome) (s : ChainState) (txdb : CTxDB)

/-- The value that an input adds to `nTotalIn`; `none` is a missing input. -/
def valueToGather (hashTx : uint256) (txin : CTxIn) : Option ℤ :=
  match o.mapTx.find? fun tx => env.txHash tx = txin.prevout.hash with
  | some txDep => some ((txDep.vout[txin.prevout.n]?).elim 0 CTxOut.nValue)
  | none =>
    (readPrevTx env txdb (o.readPrev hashTx txin.prevout) txin.prevout).map fun prev =>
      prev.2.nValue

/-- `nTotalIn` for a transaction of the pool, and its difference from the outputs. -/
def gatherTxAmounts (tx : CTransaction) : List ℤ :=
  if tx.IsCoinBase ∨ ¬ tx.IsFinal s.nBestHeight (o.nSelectTime (env.txHash tx)) 0 0 then []
  else
    runningSums (valueToGather env o txdb (env.txHash tx)) 0 tx.vin ++
      (do
        let totals ← tx.vin.foldlM (addInput env o s txdb (env.txHash tx)) ⟨∅, 0, 0⟩
        let nValueOut ← tx.getValueOut return [totals.nTotalIn - nValueOut]).getD []

/-- The inputs with which a round of the loop that collects transactions comes to the fee, and the
state there. -/
def collectedInputs (entry : TxPriority) (state : CollectState) : Option MapPrevTx := do
  let nSize := state.nBlockSize + entry.nTxSize
  guard (¬ nSize ≥ args.maxSize)
  guard (¬ state.nBlockSigOps + getLegacySigOpCount env entry.tx ≥ MAX_BLOCK_SIGOPS)
  guard (¬ (state.fSortedByFee ∧ entry.dFeePerKb < Float.ofInt args.nMinTxFee ∧
    nSize ≥ args.minSize))
  (fetchInputs env ⟨s.nBestHeight, o.nConnectTime, poolTable env o⟩ o.fetch txdb
    state.mapTestPool false true entry.tx).toOption

/-- The amounts of one round of the loop that collects transactions. -/
def collectTxAmounts (pindexPrev : CBlockIndex) (entry : TxPriority) (state : CollectState) :
    List ℤ :=
  let ctx : NodeContext := ⟨s.nBestHeight, o.nConnectTime, poolTable env o⟩
  (collectedInputs env args o s txdb entry state).elim [] fun mapInputs =>
    valueInAmounts mapInputs entry.tx ++
      (do
        let nTxFees := (← getValueIn mapInputs entry.tx) - entry.nValueOut
        return nTxFees :: (getP2SHSigOpCount env mapInputs entry.tx).elim [] fun nP2SH =>
          if state.nBlockSigOps + (getLegacySigOpCount env entry.tx + nP2SH) ≥ MAX_BLOCK_SIGOPS
          then []
          else
            connectInputsAmounts env ctx mapInputs state.mapTestPool ⟨1, 1, 1⟩ pindexPrev
              (s.pprevs pindexPrev) false true true entry.tx ++
            (connectInputs env ctx mapInputs state.mapTestPool ⟨1, 1, 1⟩ pindexPrev
              (s.pprevs pindexPrev) false true true entry.tx).elim []
                fun _ => [state.nFees + nTxFees]).getD []

/-- The amounts of the loop that collects transactions. -/
def collectTxsAmounts (pindexPrev : CBlockIndex) : ℕ → CollectState → List ℤ
  | 0, _ => []
  | n + 1, state =>
    match state.vecPriority with
    | [] => []
    | first :: rest =>
      let popped := popHeap state.fSortedByFee first rest
      let state := { state with vecPriority := popped.2 }
      collectTxAmounts env args o s txdb pindexPrev popped.1 state ++
        (collectTx env args o s txdb pindexPrev popped.1 state).elim []
          (collectTxsAmounts pindexPrev n)

/-- The amounts in `CreateNewBlock`, apart from its call of `ConnectBlock`. -/
def createNewBlockAmounts (pindexPrev : CBlockIndex) : List ℤ :=
  runTrace (gatherTx env o s txdb) (fun _ tx => gatherTxAmounts env o s txdb tx) ([], []) o.mapTx ++
    (o.mapTx.foldlM (gatherTx env o s txdb) ([], [])).elim [] fun gathered =>
      collectTxsAmounts env args o s txdb pindexPrev (gathered.2.length + gathered.1.length)
        { vOrphan := gathered.1
          vecPriority := gathered.2
          fSortedByFee := args.prioritySize = 0 }

end Mining

end Phoenixcoin.Program
