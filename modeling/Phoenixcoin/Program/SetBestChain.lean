import Phoenixcoin.Program.BlockIndex

/-!
# Choosing the best chain

`Reorganize`, `SetBestChainInner` and `SetBestChain` of `main.cpp`. A null pointer that the
source would follow makes the call fail.
-/

set_option autoImplicit false

namespace Phoenixcoin.Program

open Lib

namespace ChainState

variable (s : ChainState)

/-! ## The loops over entries -/

/-- The inner loop that finds the fork: go back from `plonger` to height `nHeight`. -/
def lowerTo (nHeight : ℕ) : ℕ → uint256 → Option uint256
  | 0, _ => none
  | n + 1, plonger =>
    if s.nHeight plonger > nHeight then (s.pprev plonger).bind (lowerTo nHeight n)
    else some plonger

/-- The loop of `Reorganize` that finds the fork. -/
def findFork : ℕ → uint256 → uint256 → Option uint256
  | 0, _, _ => none
  | n + 1, pfork, plonger =>
    if pfork = plonger then some pfork
    else
      (s.lowerTo (s.nHeight pfork) s.size plonger).bind fun plonger =>
        if pfork = plonger then some pfork
        else (s.pprev pfork).bind fun pfork => findFork n pfork plonger

/-- The loops that list what to disconnect and what to connect: from `pindex` back to `pfork`. -/
def branch (pfork : uint256) : ℕ → uint256 → Option (List uint256)
  | 0, _ => none
  | n + 1, pindex =>
    if pindex = pfork then some []
    else (s.pprev pindex).bind fun pprev =>
      (branch pfork n pprev).map fun rest => pindex :: rest

/-- The loop of `SetBestChain` that postpones blocks: `vpindexSecondary` and
`pindexIntermediate`. -/
def postpone (bnBestWork : ℕ) : ℕ → uint256 → List uint256 × uint256
  | 0, pindex => ([], pindex)
  | n + 1, pindex =>
    match s.pprev pindex with
    | some pprev =>
      if s.bnChainWork pprev > bnBestWork then
        (pindex :: (postpone bnBestWork n pprev).1, (postpone bnBestWork n pprev).2)
      else ([], pindex)
    | none => ([], pindex)

/-- `if (pindex->pprev) pindex->pprev->pnext = nullptr`. -/
def unlink (pindex : uint256) : ChainState :=
  match s.pprev pindex with
  | some pprev => s.setPnext pprev none
  | none => s

/-- `if (pindex->pprev) pindex->pprev->pnext = pindex`. -/
def link (pindex : uint256) : ChainState :=
  match s.pprev pindex with
  | some pprev => s.setPnext pprev (some pindex)
  | none => s

/-- `nTransactionsUpdated` is an `unsigned int`. -/
def addUpdates (n : ℕ) : ChainState :=
  { s with nTransactionsUpdated := (s.nTransactionsUpdated + n) % 2 ^ 32 }

end ChainState

section SetBestChain

variable (env : NodeEnv) (o : ChainOutcome)

/-! ## Blocks of the index -/

/-- `ConnectBlock` for the entry stored under `hash`. -/
def attachBlock (s : ChainState) (txdb : CTxDB) (hash : uint256) (block : CBlock) :
    Option CTxDB := do
  let pindex ← s.entry hash
  connectBlock env.toChainEnv ⟨s.nBestHeight, o.nAdjustedTime, o.mapTx hash⟩ (o.db hash) txdb
    pindex (s.pprevs pindex) false block

/-- One round of the loop of `Reorganize` that connects blocks. -/
def connectIndexed (s : ChainState) (txdb : CTxDB) (hash : uint256) : Option CTxDB := do
  let pindex ← s.entry hash
  let block ← readBlockFromDisk env.toChainEnv (o.db hash .readBlock) hash pindex
  attachBlock env o s txdb hash block

/-- One round of the loop of `Reorganize` that disconnects blocks. -/
def disconnectIndexed (s : ChainState) (txdb : CTxDB) (hash : uint256) : Option CTxDB := do
  let pindex ← s.entry hash
  let block ← readBlockFromDisk env.toChainEnv (o.db hash .readBlock) hash pindex
  disconnectBlock env.toChainEnv (o.db hash) txdb (s.pprevs pindex) block

/-- `InvalidChainFound` writes through a `CTxDB` of its own. -/
def invalidChainFound (pindexNew : uint256) (n : Node) : Node :=
  let bnWork := n.chain.bnChainWork pindexNew
  if bnWork > n.chain.bnBestInvalidWork then
    { chain := { n.chain with bnBestInvalidWork := bnWork }
      txdb := (n.txdb.writeBestInvalidWork o.writeBestInvalidWork bnWork).getD n.txdb }
  else n

/-! ## Changing the best chain -/

/-- The database part of `Reorganize`, up to the commit. -/
def reorganizeDb (s : ChainState) (vDisconnect vConnect : List uint256) (pindexNew : uint256)
    (txdb : CTxDB) : Option CTxDB := do
  let txdb ← vDisconnect.foldlM (disconnectIndexed env o s) txdb
  let txdb ← vConnect.foldlM (connectIndexed env o s) txdb
  let txdb ← txdb.writeHashBestChain (o.writeHashBestChain pindexNew) pindexNew
  let (fCommitted, txdb) := txdb.txnCommit (o.txnCommit pindexNew)
  guard (fCommitted = true)
  return txdb

/-- `Reorganize`. When it fails, its caller aborts the transaction. -/
def reorganize (n : Node) (pindexNew : uint256) : Option Node := do
  let pindexBest ← n.chain.pindexBest
  let pfork ← n.chain.findFork n.chain.size pindexBest pindexNew
  let vDisconnect ← n.chain.branch pfork n.chain.size pindexBest
  let vConnect := (← n.chain.branch pfork n.chain.size pindexNew).reverse
  let txdb ← reorganizeDb env o n.chain vDisconnect vConnect pindexNew n.txdb
  let s := vConnect.foldl ChainState.link (vDisconnect.foldl ChainState.unlink n.chain)
  return ⟨s.addUpdates (o.nPoolUpdates pindexNew), txdb⟩

/-- `CBlock::SetBestChainInner`: the result and the node afterwards. -/
def setBestChainInner (fDeferCommit : Bool) (n : Node) (pindexNew : uint256) (block : CBlock) :
    Bool × Node :=
  let hash := env.blockHash block.toCBlockHeader
  match (attachBlock env o n.chain n.txdb pindexNew block).bind
      (CTxDB.writeHashBestChain (o.writeHashBestChain hash) hash) with
  | none => (false, invalidChainFound o pindexNew { n with txdb := n.txdb.txnAbort })
  | some txdb =>
    match (if fDeferCommit then (true, txdb) else txdb.txnCommit (o.txnCommit hash)) with
    | (false, txdb) => (false, { n with txdb := txdb })
    | (true, txdb) =>
      match n.chain.pprev pindexNew with
      | none => (false, { n with txdb := txdb })
      | some _ => (true, ⟨(n.chain.link pindexNew).addUpdates (o.nPoolUpdates pindexNew), txdb⟩)

/-- The loop of `SetBestChain` that connects the postponed blocks. The first one that cannot be
connected ends it. -/
def connectSecondary : List uint256 → Node → Node
  | [], n => n
  | pindex :: rest, n =>
    match (n.chain.entry pindex).bind
        (readBlockFromDisk env.toChainEnv (o.db pindex .readBlock) pindex) with
    | none => n
    | some block =>
      match n.txdb.txnBegin (o.txnBeginSecondary pindex) with
      | none => n
      | some txdb =>
        match setBestChainInner env o false { n with txdb := txdb } pindex block with
        | (false, n) => n
        | (true, n) => connectSecondary rest n

/-- The branch of `SetBestChain` that reorganises. -/
def switchBranch (n : Node) (pindexNew : uint256) : Bool × Node :=
  match n.chain.pindexBest with
  | none => (false, n)
  | some pindexBest =>
    let postponed := n.chain.postpone (n.chain.bnChainWork pindexBest) n.chain.size pindexNew
    match reorganize env o n postponed.2 with
    | none => (false, invalidChainFound o pindexNew { n with txdb := n.txdb.txnAbort })
    | some n => (true, connectSecondary env o postponed.1.reverse n)

/-- The branch of `SetBestChain` for the genesis block. -/
def setGenesisBlock (fDeferCommit : Bool) (n : Node) (pindexNew hash : uint256) : Bool × Node :=
  match n.txdb.writeHashBestChain (o.writeHashBestChain hash) hash with
  | none => (false, n)
  | some txdb =>
    match (if fDeferCommit then (true, txdb) else txdb.txnCommit (o.txnCommit hash)) with
    | (false, txdb) => (false, { n with txdb := txdb })
    | (true, txdb) =>
      (true, ⟨{ n.chain with pindexGenesisBlock := some pindexNew }, txdb⟩)

/-- The assignments at the end of `SetBestChain`. -/
def newBestBlock (pindexNew hash : uint256) (n : Node) : Node :=
  { n with
    chain :=
      { n.chain.addUpdates 1 with
        hashBestChain := hash
        pindexBest := some pindexNew
        pblockindexFBBHLast := none
        nBestHeight := n.chain.nHeight pindexNew
        bnBestChainWork := n.chain.bnChainWork pindexNew
        nTimeBestReceived := o.nTime } }

/-- The three branches of `SetBestChain`. -/
def changeBestChain (fDeferCommit : Bool) (n : Node) (pindexNew : uint256) (block : CBlock) :
    Bool × Node :=
  let hash := env.blockHash block.toCBlockHeader
  if n.chain.pindexGenesisBlock = none ∧ hash = env.hashGenesisBlock then
    setGenesisBlock o fDeferCommit n pindexNew hash
  else if block.hashPrevBlock = n.chain.hashBestChain then
    setBestChainInner env o fDeferCommit n pindexNew block
  else if fDeferCommit then (false, { n with txdb := n.txdb.txnAbort })
  else switchBranch env o n pindexNew

/-- `CBlock::SetBestChain`: the result and the node afterwards. -/
def setBestChain (fTxnActive fDeferCommit : Bool) (n : Node) (pindexNew : uint256)
    (block : CBlock) : Bool × Node :=
  match (if fTxnActive then some n.txdb else n.txdb.txnBegin o.txnBegin) with
  | none => (false, n)
  | some txdb =>
    match changeBestChain env o fDeferCommit { n with txdb := txdb } pindexNew block with
    | (false, n) => (false, n)
    | (true, n) => (true, newBestBlock o pindexNew (env.blockHash block.toCBlockHeader) n)

end SetBestChain

end Phoenixcoin.Program
