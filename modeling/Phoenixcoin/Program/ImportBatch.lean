import Phoenixcoin.Program.SetBestChain

/-!
# Adding blocks to the index

`AddToBlockIndex`, for a single block and under a `CChainImportBatch`, which collects the
writes of several blocks in one transaction while a block file is imported.
-/

set_option autoImplicit false

namespace Phoenixcoin.Program

open Lib

/-! ## The batch -/

/-- A recorded block: the hash of its entry and of its coinbase. -/
structure BatchEntry where
  hash : uint256
  hashCoinbase : uint256
deriving DecidableEq

/-- `CChainImportBatch`. Its transaction is the active one of the chain database. -/
structure CChainImportBatch where
  fActive : Bool
  nBlocks : ℕ
  nBytes : ℕ
  vEntries : List BatchEntry
  savedBestChain : uint256
  savedBest : Option uint256
  savedGenesis : Option uint256
  savedBestHeight : ℤ
  savedBestWork : ℕ
  savedTimeBestReceived : ℤ
  savedTransactionsUpdated : ℕ
  savedFBBHLast : Option uint256
  savedBestNext : Option uint256
deriving DecidableEq

def MAX_IMPORT_BATCH_BLOCKS : ℕ := 1000
def MAX_IMPORT_BATCH_BYTES : ℕ := 64 * 1024 * 1024

namespace CChainImportBatch

def new : CChainImportBatch where
  fActive := false
  nBlocks := 0
  nBytes := 0
  vEntries := []
  savedBestChain := 0
  savedBest := none
  savedGenesis := none
  savedBestHeight := -1
  savedBestWork := 0
  savedTimeBestReceived := 0
  savedTransactionsUpdated := 0
  savedFBBHLast := none
  savedBestNext := none

/-- `IsEligible`. The argument `fIdle` says that the LMDB chain database is in use, the node is
in its initial download, and the memory pool and the orphan blocks are empty. -/
def isEligible (env : ChainEnv) (fIdle : Bool) (s : ChainState) (block : CBlock) : Bool :=
  fIdle && s.nBestHeight < env.totalBlocksEstimate && s.pindexBest.isSome &&
    block.hashPrevBlock = s.hashBestChain

def canAppend (env : ChainEnv) (fIdle : Bool) (s : ChainState) (block : CBlock)
    (nBlockBytes : ℕ) (batch : CChainImportBatch) : Bool :=
  batch.fActive && batch.nBlocks < MAX_IMPORT_BATCH_BLOCKS &&
    batch.nBytes + nBlockBytes ≤ MAX_IMPORT_BATCH_BYTES && isEligible env fIdle s block

/-- `Begin`: the result, the node and the batch afterwards. -/
def beginBatch (ok : Bool) (n : Node) (batch : CChainImportBatch) :
    Bool × Node × CChainImportBatch :=
  if batch.fActive then (false, n, batch)
  else
    match n.txdb.txnBegin ok with
    | none => (false, n, batch)
    | some txdb =>
      (true, { n with txdb := txdb },
        { fActive := true
          nBlocks := 0
          nBytes := 0
          vEntries := []
          savedBestChain := n.chain.hashBestChain
          savedBest := n.chain.pindexBest
          savedGenesis := n.chain.pindexGenesisBlock
          savedBestHeight := n.chain.nBestHeight
          savedBestWork := n.chain.bnBestChainWork
          savedTimeBestReceived := n.chain.nTimeBestReceived
          savedTransactionsUpdated := n.chain.nTransactionsUpdated
          savedFBBHLast := n.chain.pblockindexFBBHLast
          savedBestNext := n.chain.pindexBest.bind n.chain.pnext })

def isExtending (s : ChainState) (hashPrev : uint256) (work : ℕ) (batch : CChainImportBatch) :
    Bool :=
  batch.fActive && hashPrev = s.hashBestChain && work > s.bnBestChainWork

def record (entry : BatchEntry) (batch : CChainImportBatch) : CChainImportBatch :=
  { batch with vEntries := batch.vEntries ++ [entry], nBlocks := batch.nBlocks + 1 }

def addBytes (nBlockBytes : ℕ) (batch : CChainImportBatch) : CChainImportBatch :=
  { batch with nBytes := batch.nBytes + nBlockBytes }

/-- One round of the loop of `RollbackMemory`. -/
def rollbackEntry (s : ChainState) (hash : uint256) : ChainState :=
  let s :=
    match s.pprev hash with
    | some pprev => if s.pnext pprev = some hash then s.setPnext pprev none else s
    | none => s
  { s with mapBlockIndex := s.mapBlockIndex.erase hash }

def rollbackMemory (s : ChainState) (batch : CChainImportBatch) : ChainState × CChainImportBatch :=
  let s := (batch.vEntries.map BatchEntry.hash).reverse.foldl rollbackEntry s
  let s :=
    { s with
      hashBestChain := batch.savedBestChain
      pindexBest := batch.savedBest
      pindexGenesisBlock := batch.savedGenesis
      nBestHeight := batch.savedBestHeight
      bnBestChainWork := batch.savedBestWork
      nTimeBestReceived := batch.savedTimeBestReceived
      nTransactionsUpdated := batch.savedTransactionsUpdated
      pblockindexFBBHLast := batch.savedFBBHLast }
  let s :=
    match batch.savedBest with
    | some savedBest => s.setPnext savedBest batch.savedBestNext
    | none => s
  (s, { batch with vEntries := [], nBlocks := 0, nBytes := 0 })

/-- `Commit`: the result, the node and the batch afterwards. -/
def commitBatch (ok : Bool) (n : Node) (batch : CChainImportBatch) :
    Bool × Node × CChainImportBatch :=
  if ¬ batch.fActive then (true, n, batch)
  else
    let batch := { batch with fActive := false }
    match n.txdb.txnCommit ok with
    | (false, txdb) =>
      (false, ⟨(rollbackMemory n.chain batch).1, txdb⟩, (rollbackMemory n.chain batch).2)
    | (true, txdb) =>
      let hashPrevBestCoinBase :=
        (batch.vEntries.map BatchEntry.hashCoinbase).getLastD n.chain.hashPrevBestCoinBase
      (true, ⟨{ n.chain with hashPrevBestCoinBase := hashPrevBestCoinBase }, txdb⟩,
        { batch with vEntries := [], nBlocks := 0, nBytes := 0 })

/-- `Abort`, which the destructor calls too. -/
def abortBatch (n : Node) (batch : CChainImportBatch) : Node × CChainImportBatch :=
  if ¬ batch.fActive then (n, batch)
  else
    let batch := { batch with fActive := false }
    (⟨(rollbackMemory n.chain batch).1, n.txdb.txnAbort⟩, (rollbackMemory n.chain batch).2)

end CChainImportBatch

/-! ## Adding a block -/

section AddToBlockIndex

variable (env : NodeEnv) (o : ChainOutcome)

/-- The new entry of `AddToBlockIndex`. Its parent is looked up when it is in the map itself. -/
def newBlockIndex (s : ChainState) (hash : uint256) (nFile nBlockPos : ℕ) (block : CBlock) :
    CBlockIndex :=
  let pindexNew := CBlockIndex.ofBlock hash nFile nBlockPos block
  match (s.mapBlockIndex.insert hash pindexNew).lookup block.hashPrevBlock with
  | some pprev =>
    { pindexNew with
      pprev := some block.hashPrevBlock
      nHeight := pprev.nHeight + 1
      bnChainWork := pprev.bnChainWork + getBlockWork pindexNew.nBits }
  | none => { pindexNew with bnChainWork := getBlockWork pindexNew.nBits }

def rollbackBlockIndexEntry (s : ChainState) (hash : uint256) : ChainState :=
  if s.pindexBest = some hash ∨ s.pindexGenesisBlock = some hash ∨ s.pnext hash ≠ none then s
  else
    let s :=
      match s.pprev hash with
      | some pprev => if s.pnext pprev = some hash then s.setPnext pprev none else s
      | none => s
    { s with
      pblockindexFBBHLast :=
        if s.pblockindexFBBHLast = some hash then none else s.pblockindexFBBHLast
      mapBlockIndex := s.mapBlockIndex.erase hash }

/-- The writes of `AddToBlockIndex` for the entry stored under `hash`: its record, and the best
chain if the block has the most work. -/
def writeNewBlock (fBatch : Bool) (n : Node) (hash : uint256) (pindexNew : CBlockIndex)
    (block : CBlock) : Bool × Node :=
  match n.txdb.writeBlockIndex env.blockHash o.writeBlockIndex
      (CDiskBlockIndex.ofBlockIndex pindexNew) with
  | none => (false, n)
  | some txdb =>
    let n := { n with txdb := txdb }
    if pindexNew.bnChainWork > n.chain.bnBestChainWork then
      setBestChain env o true fBatch n hash block
    else
      ((n.txdb.txnCommit (o.txnCommit hash)).1,
        { n with txdb := (n.txdb.txnCommit (o.txnCommit hash)).2 })

/-- `AddToBlockIndex` without a batch, from the new entry on. A failure closes the database,
which aborts an open transaction, and removes the entry. -/
def addAlone (n : Node) (hash : uint256) (pindexNew : CBlockIndex) (block : CBlock) : Bool × Node :=
  match n.txdb.txnBegin o.txnBegin with
  | none => (false, { n with chain := rollbackBlockIndexEntry n.chain hash })
  | some txdb =>
    match writeNewBlock env o false { n with txdb := txdb } hash pindexNew block with
    | (false, n) => (false, ⟨rollbackBlockIndexEntry n.chain hash, n.txdb.txnAbort⟩)
    | (true, n) =>
      let hashCoinBase := (block.vtx.head?.map env.txHash).getD 0
      (true, if n.chain.pindexBest = some hash then
          { n with chain := { n.chain with hashPrevBestCoinBase := hashCoinBase } }
        else n)

/-- `CBlock::AddToBlockIndex`: the result, the node and the batch afterwards. A batch that is
not active is no batch. -/
def addToBlockIndex (nFile nBlockPos : ℕ) (block : CBlock) (n : Node)
    (batch : CChainImportBatch) : Bool × Node × CChainImportBatch :=
  let hash := env.blockHash block.toCBlockHeader
  if hash ∈ n.chain.mapBlockIndex then (false, n, batch)
  else
    let pindexNew := newBlockIndex n.chain hash nFile nBlockPos block
    let added : Node :=
      { n with
        chain :=
          { n.chain with mapBlockIndex := n.chain.mapBlockIndex.insert hash pindexNew } }
    if batch.fActive then
      if batch.isExtending n.chain block.hashPrevBlock pindexNew.bnChainWork then
        let result := writeNewBlock env o true added hash pindexNew block
        (result.1, result.2, batch.record ⟨hash, (block.vtx.head?.map env.txHash).getD 0⟩)
      else
        (false, { added with
            chain :=
              { added.chain with
                mapBlockIndex := added.chain.mapBlockIndex.erase hash } }, batch)
    else
      let result := addAlone env o added hash pindexNew block
      (result.1, result.2, batch)

end AddToBlockIndex

/-! ## Importing a block file -/

/-- A block of the file. The flags say that it is a known orphan, that the conditions of
`isEligible` outside the chain hold, and that the checks of `ProcessBlock` and of `AcceptBlock`
accept it. -/
structure ImportedBlock where
  block : CBlock
  nSize : ℕ
  nFile : ℕ
  nBlockPos : ℕ
  fKnownOrphan : Bool
  fIdle : Bool
  fChecked : Bool
  fAccepted : Bool
  fBegin : Bool
  fCommit : Bool
  outcome : ChainOutcome

section Import

variable (env : NodeEnv)

/-- `ProcessBlock` without a peer: a block whose parent is unknown is passed over. -/
def processBlock (item : ImportedBlock) (n : Node) (batch : CChainImportBatch) :
    Bool × Node × CChainImportBatch :=
  if ¬ item.fChecked then (false, n, batch)
  else if item.block.hashPrevBlock ∉ n.chain.mapBlockIndex then (true, n, batch)
  else if ¬ item.fAccepted then (false, n, batch)
  else addToBlockIndex env item.outcome item.nFile item.nBlockPos item.block n batch

/-- One round of the loop of `LoadExternalBlockFile`: whether the scan goes on, the node and the
batch afterwards. -/
def importBlock (item : ImportedBlock) (n : Node) (batch : CChainImportBatch) :
    Bool × Node × CChainImportBatch :=
  if env.blockHash item.block.toCBlockHeader ∈ n.chain.mapBlockIndex ∨ item.fKnownOrphan then
    (true, n, batch)
  else
    let (fSuccess, n, batch) :=
      if batch.fActive ∧
          ¬ batch.canAppend env.toChainEnv item.fIdle n.chain item.block item.nSize then
        batch.commitBatch item.fCommit n
      else (true, n, batch)
    if ¬ fSuccess then (false, n, batch)
    else
      let (_, n, batch) :=
        if ¬ batch.fActive ∧
            CChainImportBatch.isEligible env.toChainEnv item.fIdle n.chain item.block then
          batch.beginBatch item.fBegin n
        else (true, n, batch)
      let (fProcessed, n, batch) := processBlock env item n batch
      if fProcessed then
        (true, n, if batch.fActive then batch.addBytes item.nSize else batch)
      else (false, batch.abortBatch n)

/-- The loop of `LoadExternalBlockFile` over the blocks of the file. At the end of the file the
pending blocks are committed. -/
def loadExternalBlockFile (fFinalCommit : Bool) :
    List ImportedBlock → Node → CChainImportBatch → Node × CChainImportBatch
  | [], n, batch => (batch.commitBatch fFinalCommit n).2
  | item :: rest, n, batch =>
    match importBlock env item n batch with
    | (true, n, batch) => loadExternalBlockFile fFinalCommit rest n batch
    | (false, n, batch) => (n, batch)

end Import

end Phoenixcoin.Program
