import Phoenixcoin.Program.BlockRules
import Phoenixcoin.Program.Checkpoints

/-!
# The miner

`CreateNewBlock`, `IncrementExtraNonce` and `CBlock::UpdateTime` of `main.cpp`. A template that
cannot be made is `none`, whether the source throws or follows a null pointer.
-/

set_option autoImplicit false

namespace Phoenixcoin.Program

open Lib

def MAX_BLOCK_SIZE_GEN : ℕ := MAX_BLOCK_SIZE / 2

def MIN_TX_FEE : ℤ := 1000000

def CURRENT_VERSION : ℤ := 2

/-- The string `/P2SH/`. -/
def COINBASE_FLAGS : CScript := pushData [0x2f, 0x50, 0x32, 0x53, 0x48, 0x2f]

/-! ## Arguments and surroundings -/

structure MinerArgs where
  fMineHybrid : Bool := false
  nBlockMaxSize : ℤ := MAX_BLOCK_SIZE_GEN / 2
  nBlockPrioritySize : ℤ := 27000
  nBlockMinSize : ℤ := 0
  nMinTxFee : ℤ := MIN_TX_FEE

/-- The largest block to create. -/
def MinerArgs.maxSize (args : MinerArgs) : ℕ :=
  max 1000 (min (MAX_BLOCK_SIZE - 1000) (toUint args.nBlockMaxSize))

def MinerArgs.prioritySize (args : MinerArgs) : ℕ :=
  min args.maxSize (toUint args.nBlockPrioritySize)

def MinerArgs.minSize (args : MinerArgs) : ℕ := min args.maxSize (toUint args.nBlockMinSize)

/-- What one call of `CreateNewBlock` finds: the key that the wallet reserves and its hybrid key,
the memory pool in the order of `mempool.mapTx`, the readings of the clock and the outcomes of
the database operations. `IsFinal` reads the clock for every transaction. -/
structure MinerOutcome where
  miningKey : valtype
  hybridID : Option CHybridKeyID := none
  mapTx : List CTransaction := []
  nSelectTime : uint256 → ℤ := fun _ => 0
  nAdjustedTime : ℤ
  nConnectTime : ℤ
  readPrev : uint256 → COutPoint → Bool := fun _ _ => true
  readHeader : uint256 → COutPoint → Bool := fun _ _ => true
  fetch : DbOutcome := fun _ => true
  connect : DbOutcome := fun _ => true

/-- The script of the coinbase output. -/
def MinerOutcome.scriptPubKey (args : MinerArgs) (o : MinerOutcome) : Option CScript :=
  if args.fMineHybrid then
    o.hybridID.map fun hybridID =>
      [OP_DUPHYBRID, OP_HASHHYBRID160] ++ pushData (toLittleEndian 20 hybridID) ++
        [OP_EQUALVERIFY, OP_CHECKHYBRIDSIG]
  else some (pushData o.miningKey ++ [OP_CHECKSIG])

/-! ## The priority queue -/

/-- A `double` is a `Float`. -/
structure TxPriority where
  dPriority : Float
  dFeePerKb : Float
  tx : CTransaction
  nTxSize : ℕ
  nValueOut : ℤ

/-- A transaction that waits for others of the memory pool. -/
structure COrphan extends TxPriority where
  setDependsOn : Finset uint256

/-- `TxPriorityCompare`. -/
def txPriorityLess (byFee : Bool) (a b : TxPriority) : Bool :=
  if byFee then
    if a.dFeePerKb == b.dFeePerKb then a.dPriority < b.dPriority else a.dFeePerKb < b.dFeePerKb
  else if a.dPriority == b.dPriority then a.dFeePerKb < b.dFeePerKb
  else a.dPriority < b.dPriority

/-- `pop_heap` of a queue that holds `best` and `rest`: a greatest element and the others. -/
def popHeap (byFee : Bool) : TxPriority → List TxPriority → TxPriority × List TxPriority
  | best, [] => (best, [])
  | best, next :: rest =>
    if txPriorityLess byFee best next then
      ((popHeap byFee next rest).1, best :: (popHeap byFee next rest).2)
    else ((popHeap byFee best rest).1, next :: (popHeap byFee best rest).2)

/-- The dependers of a transaction that has been added lose that dependency. Those that have no
other one go to the queue. -/
def releaseOrphans (hash : uint256) (vOrphan : List COrphan) : List COrphan × List TxPriority :=
  let erased := vOrphan.map fun orphan =>
    { orphan with setDependsOn := orphan.setDependsOn.erase hash }
  (erased.filter fun orphan => orphan.setDependsOn ≠ ∅,
    (erased.filter fun orphan => orphan.setDependsOn = ∅).map COrphan.toTxPriority)

section CreateNewBlock

variable (env : ChainEnv) (args : MinerArgs) (o : MinerOutcome) (s : ChainState) (txdb : CTxDB)

/-! ## Priorities -/

def getDepthInMainChain (ok : Bool) (txindex : CTxIndex) : ℤ :=
  match (if ok && openBlockFile txindex.pos.nFile then
      env.blockFileBlock txindex.pos.nFile txindex.pos.nBlockPos else none) with
  | none => 0
  | some block =>
    let hash := env.blockHash block.toCBlockHeader
    match s.entry hash with
    | none => 0
    | some pindex => if s.isInMainChain hash then 1 + s.nBestHeight - pindex.nHeight else 0

/-- `CTransaction::ReadFromDisk(txdb, prevout, txindex)`. -/
def readPrevTx (ok : Bool) (prevout : COutPoint) : Option (CTxIndex × CTxOut) := do
  let txindex ← txdb.readTxIndex ok prevout.hash
  let txPrev ← env.readTxFromDisk txindex.pos
  let txout ← txPrev.vout[prevout.n]?
  return (txindex, txout)

/-- What the loop over the inputs of a transaction adds up. -/
structure InputTotals where
  setDependsOn : Finset uint256
  dPriority : Float
  nTotalIn : ℤ

/-- One round of the loop over the inputs; `none` is a missing input. -/
def addInput (hashTx : uint256) (totals : InputTotals) (txin : CTxIn) : Option InputTotals :=
  let prevout := txin.prevout
  match o.mapTx.find? fun tx => env.txHash tx = prevout.hash with
  | some txDep =>
    -- has to wait for dependencies
    some { totals with
        setDependsOn := insert prevout.hash totals.setDependsOn
        nTotalIn := totals.nTotalIn + (txDep.vout[prevout.n]?).elim 0 CTxOut.nValue }
  | none => do
    let (txindex, txout) ← readPrevTx env txdb (o.readPrev hashTx prevout) prevout
    let nConf := getDepthInMainChain env s (o.readHeader hashTx prevout) txindex
    return { totals with
      dPriority := totals.dPriority + Float.ofInt txout.nValue * Float.ofInt nConf
      nTotalIn := totals.nTotalIn + txout.nValue }

/-- One round of the loop over the memory pool. The state is `vOrphan` and `vecPriority`. -/
def gatherTx (state : List COrphan × List TxPriority) (tx : CTransaction) :
    Option (List COrphan × List TxPriority) :=
  let hashTx := env.txHash tx
  if tx.IsCoinBase ∨ ¬ tx.IsFinal s.nBestHeight (o.nSelectTime hashTx) 0 0 then some state
  else
    match tx.vin.foldlM (addInput env o s txdb hashTx) ⟨∅, 0, 0⟩ with
    | none => some state
    | some totals => do
      let nTxSize := tx.getSerializeSize
      let nValueOut ← tx.getValueOut
      let dFeePerKb :=
        Float.ofInt (totals.nTotalIn - nValueOut) / (Float.ofNat nTxSize / 1000.0)
      let entry : TxPriority :=
        ⟨totals.dPriority / Float.ofNat nTxSize, dFeePerKb, tx, nTxSize, nValueOut⟩
      if totals.setDependsOn = ∅ then return (state.1, state.2 ++ [entry])
      else return (state.1 ++ [⟨entry, totals.setDependsOn⟩], state.2)

/-! ## Filling the block -/

/-- The variables of the loop that collects transactions. -/
structure CollectState where
  vOrphan : List COrphan
  vecPriority : List TxPriority
  fSortedByFee : Bool
  mapTestPool : TxIndexTable := ∅
  vtx : List CTransaction := []
  nBlockSize : ℕ := 1000
  nBlockSigOps : ℕ := 100
  nFees : ℤ := 0

def poolTable : Table uint256 CTransaction :=
  o.mapTx.foldr (fun tx table => table.insert (env.txHash tx) tx) ∅

variable (pindexPrev : CBlockIndex)

/-- The transaction has passed the limits: connect its inputs and add it to the block. -/
def connectCollected (entry : TxPriority) (nTxSigOps : ℕ)
    (state : CollectState) : Option CollectState :=
  let ctx : NodeContext := ⟨s.nBestHeight, o.nConnectTime, poolTable env o⟩
  match fetchInputs env ctx o.fetch txdb state.mapTestPool false true entry.tx with
  | .error _ => some state
  | .ok mapInputs => do
    let nTxFees := (← getValueIn mapInputs entry.tx) - entry.nValueOut
    let nTxSigOps := nTxSigOps + (← getP2SHSigOpCount env mapInputs entry.tx)
    if state.nBlockSigOps + nTxSigOps ≥ MAX_BLOCK_SIGOPS then return state
    match connectInputs env ctx mapInputs state.mapTestPool ⟨1, 1, 1⟩ pindexPrev
        (s.pprevs pindexPrev) false true true entry.tx with
    | none => return state
    | some mapTestPool =>
      let hash := env.txHash entry.tx
      let released := releaseOrphans hash state.vOrphan
      return { state with
        vOrphan := released.1
        vecPriority := state.vecPriority ++ released.2
        mapTestPool :=
          mapTestPool.insert hash (.ofOutputs ⟨1, 1, 1⟩ entry.tx.vout.length)
        vtx := state.vtx ++ [entry.tx]
        nBlockSize := state.nBlockSize + entry.nTxSize
        nBlockSigOps := state.nBlockSigOps + nTxSigOps
        nFees := state.nFees + nTxFees }

/-- One round of the loop that collects transactions, for the entry taken from the queue. -/
def collectTx (entry : TxPriority) (state : CollectState) :
    Option CollectState :=
  let nSize := state.nBlockSize + entry.nTxSize
  let nTxSigOps := getLegacySigOpCount env entry.tx
  if nSize ≥ args.maxSize then some state
  else if state.nBlockSigOps + nTxSigOps ≥ MAX_BLOCK_SIGOPS then some state
  else if state.fSortedByFee ∧ entry.dFeePerKb < Float.ofInt args.nMinTxFee ∧
      nSize ≥ args.minSize then some state
  else
    -- by fee once past the priority size or out of high-priority transactions
    let fSortedByFee := state.fSortedByFee || nSize ≥ args.prioritySize ||
      entry.dPriority < Float.ofInt (COIN * 144 / 250)
    connectCollected env o s txdb pindexPrev entry nTxSigOps
      { state with fSortedByFee := fSortedByFee }

/-- The loop that collects transactions until the queue is empty. -/
def collectTxs (pindexPrev : CBlockIndex) : ℕ → CollectState → Option CollectState
  | 0, state => some state
  | n + 1, state =>
    match state.vecPriority with
    | [] => some state
    | first :: rest =>
      let popped := popHeap state.fSortedByFee first rest
      (collectTx env args o s txdb pindexPrev popped.1
        { state with vecPriority := popped.2 }).bind (collectTxs pindexPrev n)

/-- Every round takes an entry from the queue, so there are as many rounds as entries and
orphans. -/
def collectFromPool : Option CollectState := do
  let (vOrphan, vecPriority) ← o.mapTx.foldlM (gatherTx env o s txdb) ([], [])
  collectTxs env args o s txdb pindexPrev (vecPriority.length + vOrphan.length)
    { vOrphan := vOrphan
      vecPriority := vecPriority
      fSortedByFee := args.prioritySize = 0 }

/-! ## The header -/

/-- `CBlock::UpdateTime` for a block on top of `chain`. On testnet the time changes the work
that is required. -/
def updateTime (fTestNet : Bool) (nAdjustedTime : ℤ) (chain : List CBlockIndex)
    (block : CBlock) : Option CBlock := do
  let nTime := toUint (max (getMedianTimePast chain + 1) nAdjustedTime)
  if ¬ fTestNet then return { block with nTime := nTime }
  let nBits ← getNextWorkRequired fTestNet nTime chain
  return { block with nTime := nTime, nBits := nBits }

/-- The assignment `vtx[0].vin[0].scriptSig = scriptSig`. -/
def CBlock.setCoinBaseScript (scriptSig : CScript) (block : CBlock) : CBlock :=
  { block with
    vtx := block.vtx.modifyHead fun tx =>
      { tx with vin := tx.vin.modifyHead fun txin => { txin with scriptSig := scriptSig } } }

def createNewBlock : Option CBlock := do
  let scriptPubKey ← o.scriptPubKey args
  let pindexBest ← s.pindexBest
  let pindexPrev ← s.entry pindexBest
  let chain := pindexPrev :: s.pprevs pindexPrev
  let collected ← collectFromPool env args o s txdb pindexPrev
  let nValue := getProofOfWorkReward env.fTestNet (pindexPrev.nHeight + 1) collected.nFees
  let coinBase : CTransaction :=
    { vin := [⟨⟨0, uintMax⟩, [], uintMax⟩], vout := [⟨nValue, scriptPubKey⟩] }
  let hashPrevBlock ← pindexPrev.phashBlock
  let block : CBlock := ⟨⟨CURRENT_VERSION, hashPrevBlock, 0, 0, 0, 0⟩, coinBase :: collected.vtx⟩
  let block ← updateTime env.fTestNet o.nAdjustedTime chain block
  let nBits ← getNextWorkRequired env.fTestNet block.nTime chain
  let block := { block with nBits := nBits, nNonce := 0 }.setCoinBaseScript [OP_0, OP_0]
  let indexDummy :=
    { CBlockIndex.ofBlock 0 1 1 block with
      phashBlock := none
      pprev := some pindexBest
      nHeight := pindexPrev.nHeight + 1 }
  let _ ← connectBlock env ⟨s.nBestHeight, o.nConnectTime, poolTable env o⟩ o.connect txdb
    indexDummy chain true block
  return block

end CreateNewBlock

/-! ## Work on a block -/

/-- The block, the counter of its miner and the static variable of `IncrementExtraNonce`. -/
structure MinerState where
  block : CBlock
  nExtraNonce : ℕ
  hashPrevBlock : uint256
deriving DecidableEq

/-- `IncrementExtraNonce`; `none` is the failed assertion. The height comes first, as a block of
version 2 needs it. -/
def incrementExtraNonce (env : ChainEnv) (pindexPrev : CBlockIndex) (state : MinerState) :
    Option MinerState := do
  let nExtraNonce :=
    ((if state.hashPrevBlock ≠ state.block.hashPrevBlock then 0 else state.nExtraNonce) + 1)
      % 2 ^ 32
  let scriptSig :=
    pushUint64 (pindexPrev.nHeight + 1) ++ pushData (getvch nExtraNonce) ++ COINBASE_FLAGS
  let block := state.block.setCoinBaseScript scriptSig
  guard (scriptSig.length ≤ 200000)
  let block := { block with hashMerkleRoot := env.buildMerkleTree (block.vtx.map env.txHash) }
  return ⟨block, nExtraNonce, block.hashPrevBlock⟩

/-- What a miner does to a block while it searches for the proof of work. -/
inductive MinerStep where
  | incrementExtraNonce
  | updateTime (nAdjustedTime : ℤ)
  | setNonce (nNonce : ℕ)
deriving DecidableEq

def MinerStep.run (env : ChainEnv) (pindexPrev : CBlockIndex) (pprevs : List CBlockIndex)
    (state : MinerState) : MinerStep → Option MinerState
  | .incrementExtraNonce => Program.incrementExtraNonce env pindexPrev state
  | .updateTime nAdjustedTime =>
    (Program.updateTime env.fTestNet nAdjustedTime (pindexPrev :: pprevs) state.block).map
      fun block => { state with block := block }
  | .setNonce nNonce => some { state with block := { state.block with nNonce := nNonce } }

end Phoenixcoin.Program
