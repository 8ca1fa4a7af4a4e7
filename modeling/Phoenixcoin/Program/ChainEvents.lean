import Phoenixcoin.Program.ImportBatch

/-!
# What the chain code tells the wallets and the memory pool

`ConnectBlock` ends with `SyncWithWallets`, and a new best chain changes the memory pool. The
functions below follow the calls of `main.cpp` that change the chain and list these effects in
the order in which they take place.
-/

set_option autoImplicit false

namespace Phoenixcoin.Program

open Lib

inductive ChainEvent where
  /-- `SyncWithWallets(tx, block, true)` for the transactions of a connected block. -/
  | syncWithWallets (block : CBlock)
  | acceptToMemoryPool (tx : CTransaction)
  /-- `mempool.remove(tx)`. -/
  | removeFromMemoryPool (tx : CTransaction)
deriving DecidableEq, Repr

/-! ## The memory pool -/

/-- `CInPoint`: the transaction in the pool that spends an output, and with which input. -/
structure CInPoint where
  ptx : uint256
  n : ℕ
deriving DecidableEq, Repr

structure CTxMemPool where
  mapTx : Table uint256 CTransaction
  mapNextTx : Table COutPoint CInPoint
deriving DecidableEq

def CTxMemPool.remove (txHash : CTransaction → uint256) (tx : CTransaction)
    (pool : CTxMemPool) : CTxMemPool :=
  let hash := txHash tx
  if hash ∈ pool.mapTx then
    { mapTx := pool.mapTx.erase hash
      mapNextTx := tx.vin.foldl (fun mapNextTx txin => mapNextTx.erase txin.prevout)
        pool.mapNextTx }
  else pool

/-- The effect of an event on the pool. What `AcceptToMemoryPool` makes of the pool is given. -/
def ChainEvent.updatePool (txHash : CTransaction → uint256)
    (acceptToMemoryPool : CTransaction → CTxMemPool → CTxMemPool) (pool : CTxMemPool) :
    ChainEvent → CTxMemPool
  | .syncWithWallets _ => pool
  | .acceptToMemoryPool tx => acceptToMemoryPool tx pool
  | .removeFromMemoryPool tx => pool.remove txHash tx

section Events

variable (env : NodeEnv) (o : ChainOutcome)

/-! ## Reorganize -/

/-- `ReadFromDisk` for the entry stored under `hash`. -/
def readIndexed (s : ChainState) (hash : uint256) : Option CBlock :=
  (s.entry hash).bind (readBlockFromDisk env.toChainEnv (o.db hash .readBlock) hash)

/-- The loop of `Reorganize` that connects blocks: those that `ConnectBlock` accepts. -/
def connectEvents (s : ChainState) : CTxDB → List uint256 → List ChainEvent
  | _, [] => []
  | txdb, hash :: rest =>
    match readIndexed env o s hash, connectIndexed env o s txdb hash with
    | some block, some txdb => .syncWithWallets block :: connectEvents s txdb rest
    | _, _ => []

/-- The end of `Reorganize`: `vResurrect` holds the transactions of the disconnected blocks,
`vDelete` those of the connected blocks. -/
def reorganizePoolEvents (s : ChainState) (vDisconnect vConnect : List uint256) :
    List ChainEvent :=
  let vResurrect := (vDisconnect.filterMap (readIndexed env o s)).flatMap
    fun block => block.vtx.filter fun tx => ¬ tx.IsCoinBase
  let vDelete := (vConnect.filterMap (readIndexed env o s)).flatMap CBlock.vtx
  vResurrect.map .acceptToMemoryPool ++ vDelete.map .removeFromMemoryPool

def reorganizeEvents (n : Node) (pindexNew : uint256) : List ChainEvent :=
  let branches : Option (List uint256 × List uint256) := do
    let pindexBest ← n.chain.pindexBest
    let pfork ← n.chain.findFork n.chain.size pindexBest pindexNew
    let vDisconnect ← n.chain.branch pfork n.chain.size pindexBest
    let vConnect := (← n.chain.branch pfork n.chain.size pindexNew).reverse
    return (vDisconnect, vConnect)
  match branches with
  | none => []
  | some (vDisconnect, vConnect) =>
    match vDisconnect.foldlM (disconnectIndexed env o n.chain) n.txdb with
    | none => []
    | some txdb =>
      connectEvents env o n.chain txdb vConnect ++
        if (reorganize env o n pindexNew).isSome then
          reorganizePoolEvents env o n.chain vDisconnect vConnect
        else []

/-! ## SetBestChain -/

def setBestChainInnerEvents (fDeferCommit : Bool) (n : Node) (pindexNew : uint256)
    (block : CBlock) : List ChainEvent :=
  (if (attachBlock env o n.chain n.txdb pindexNew block).isSome then [.syncWithWallets block]
    else []) ++
  if (setBestChainInner env o fDeferCommit n pindexNew block).1 then
    block.vtx.map .removeFromMemoryPool
  else []

def connectSecondaryEvents : List uint256 → Node → List ChainEvent
  | [], _ => []
  | pindex :: rest, n =>
    match readIndexed env o n.chain pindex with
    | none => []
    | some block =>
      match n.txdb.txnBegin (o.txnBeginSecondary pindex) with
      | none => []
      | some txdb =>
        setBestChainInnerEvents env o false { n with txdb := txdb } pindex block ++
          match setBestChainInner env o false { n with txdb := txdb } pindex block with
          | (false, _) => []
          | (true, n) => connectSecondaryEvents rest n

def switchBranchEvents (n : Node) (pindexNew : uint256) : List ChainEvent :=
  match n.chain.pindexBest with
  | none => []
  | some pindexBest =>
    let postponed := n.chain.postpone (n.chain.bnChainWork pindexBest) n.chain.size pindexNew
    reorganizeEvents env o n postponed.2 ++ match reorganize env o n postponed.2 with
      | none => []
      | some n => connectSecondaryEvents env o postponed.1.reverse n

def changeBestChainEvents (fDeferCommit : Bool) (n : Node) (pindexNew : uint256)
    (block : CBlock) : List ChainEvent :=
  if n.chain.pindexGenesisBlock = none ∧
      env.blockHash block.toCBlockHeader = env.hashGenesisBlock then []
  else if block.hashPrevBlock = n.chain.hashBestChain then
    setBestChainInnerEvents env o fDeferCommit n pindexNew block
  else if fDeferCommit then []
  else switchBranchEvents env o n pindexNew

def setBestChainEvents (fTxnActive fDeferCommit : Bool) (n : Node) (pindexNew : uint256)
    (block : CBlock) : List ChainEvent :=
  match (if fTxnActive then some n.txdb else n.txdb.txnBegin o.txnBegin) with
  | none => []
  | some txdb => changeBestChainEvents env o fDeferCommit { n with txdb := txdb } pindexNew block

/-! ## AddToBlockIndex -/

def writeNewBlockEvents (fBatch : Bool) (n : Node) (hash : uint256) (pindexNew : CBlockIndex)
    (block : CBlock) : List ChainEvent :=
  match n.txdb.writeBlockIndex env.blockHash o.writeBlockIndex
      (CDiskBlockIndex.ofBlockIndex pindexNew) with
  | none => []
  | some txdb =>
    if pindexNew.bnChainWork > n.chain.bnBestChainWork then
      setBestChainEvents env o true fBatch { n with txdb := txdb } hash block
    else []

def addToBlockIndexEvents (nFile nBlockPos : ℕ) (block : CBlock) (n : Node)
    (batch : CChainImportBatch) : List ChainEvent :=
  let hash := env.blockHash block.toCBlockHeader
  if hash ∈ n.chain.mapBlockIndex then []
  else
    let pindexNew := newBlockIndex n.chain hash nFile nBlockPos block
    let added : Node :=
      { n with
        chain :=
          { n.chain with mapBlockIndex := n.chain.mapBlockIndex.insert hash pindexNew } }
    if batch.fActive then
      if batch.isExtending n.chain block.hashPrevBlock pindexNew.bnChainWork then
        writeNewBlockEvents env o true added hash pindexNew block
      else []
    else
      match n.txdb.txnBegin o.txnBegin with
      | none => []
      | some txdb =>
        writeNewBlockEvents env o false { added with txdb := txdb } hash pindexNew block

/-- The memory pool after `AddToBlockIndex`. -/
def addToBlockIndexPool (acceptToMemoryPool : CTransaction → CTxMemPool → CTxMemPool)
    (nFile nBlockPos : ℕ) (block : CBlock) (n : Node) (batch : CChainImportBatch)
    (pool : CTxMemPool) : CTxMemPool :=
  (addToBlockIndexEvents env o nFile nBlockPos block n batch).foldl
    (ChainEvent.updatePool env.txHash acceptToMemoryPool) pool

end Events

end Phoenixcoin.Program
