import Phoenixcoin.Program.BlockRules
import Phoenixcoin.Program.Checkpoints

/-!
# Accepting blocks

`AcceptBlock` and `ProcessBlock` of `main.cpp` outside an import batch, with the orphan blocks
that wait for their parents and the synchronised checkpoints.
-/

set_option autoImplicit false

namespace Phoenixcoin.Program

open Lib

/-! ## The rules of the place in the chain -/

/-- What `DoS(nDoS, error(strMessage))` records. -/
structure BlockError where
  nDoS : ℕ
  strMessage : String
deriving DecidableEq, Repr

/-- The first failed check. -/
def firstError (checks : List (Bool × BlockError)) : Option BlockError :=
  (checks.find? Prod.fst).map Prod.snd

/-- The script at the start of a block, where version 2 has its height. -/
def CBlock.coinBaseScript (block : CBlock) : CScript :=
  ((block.vtx.head?.bind fun tx => tx.vin.head?).map CTxIn.scriptSig).getD []

/-- The globals that the checks of `AcceptBlock` read. -/
structure AcceptContext where
  fTestNet : Bool
  nBestHeight : ℤ
  nAdjustedTime : ℤ
  fInitialBlockDownload : Bool

section Checks

variable (ctx : AcceptContext) (pindexPrev : CBlockIndex) (pprevs : List CBlockIndex)
  (block : CBlock)

/-- The checks up to the median: the coinbase height, the version, the work and the time. -/
def basicChecks : List (Bool × BlockError) :=
  let nHeight := pindexPrev.nHeight + 1
  [ (decide (block.nTime > if ctx.fTestNet then nTestnetSwitchV2 else nSwitchV2) &&
        !(pushInt64 nHeight).isPrefixOf block.coinBaseScript,
      ⟨100, "AcceptBlock() : incorrect block height in coin base"⟩),
    (isForked ctx.fTestNet nForkFive nTestnetForkTwo nHeight && block.nVersion ≠ 2,
      ⟨100, "AcceptBlock() : incorrect block version"⟩),
    (getNextWorkRequired ctx.fTestNet block.nTime (pindexPrev :: pprevs) ≠ some block.nBits,
      ⟨100, "AcceptBlock() : incorrect proof of work"⟩),
    (block.nTime ≤ toUint (getMedianTimePast (pindexPrev :: pprevs)),
      ⟨20, "AcceptBlock() : time stamp behind the median"⟩) ]

/-- Soft fork 1: further restrictions. -/
def softForkOneChecks : List (Bool × BlockError) :=
  let nOurTime := toUint ctx.nAdjustedTime
  [ (block.nTime > (nOurTime + 10 * 60) % 2 ^ 32,
      ⟨5, "AcceptBlock() : time stamp too far in the future"⟩),
    ((block.nTime : ℤ) ≤ getMedianTimePast (pindexPrev :: pprevs) + BLOCK_LIMITER_TIME,
      ⟨5, "AcceptBlock() : rejected by the block limiter"⟩),
    ((block.nTime : ℤ) ≤ pindexPrev.nTime - 10 * 60,
      ⟨20, "AcceptBlock() : time stamp too far in the past"⟩) ]

/-- Soft fork 2: the future limit and the future travel detector for the block limiter. -/
def softForkTwoChecks : List (Bool × BlockError) :=
  let nOurTime := toUint ctx.nAdjustedTime
  [ (block.nTime > (nOurTime + 5 * 60) % 2 ^ 32,
      ⟨5, "AcceptBlock() [Soft Fork 2] : time stamp too far in the future"⟩),
    (decide (block.nTime > (nOurTime + 60) % 2 ^ 32) &&
        decide ((getAverageTimePast 5 45 (pindexPrev :: pprevs) : ℤ) + BLOCK_LIMITER_TIME >
          nOurTime), ⟨5, "AcceptBlock() : rejected by the future travel detector"⟩) ]

/-- The checks of `AcceptBlock` from the coinbase height to the finality of the transactions, in
the order in which they are made. -/
def contextChecks : List (Bool × BlockError) :=
  let nHeight := pindexPrev.nHeight + 1
  basicChecks ctx pindexPrev pprevs block
    ++ (if isForked ctx.fTestNet nSoftForkOne nTestnetSoftForkOne nHeight then
        softForkOneChecks ctx pindexPrev pprevs block else [])
    ++ (if ¬ ctx.fInitialBlockDownload ∧
          isForked ctx.fTestNet nSoftForkTwo nTestnetSoftForkTwo nHeight then
        softForkTwoChecks ctx pindexPrev pprevs block else [])
    ++ block.vtx.map fun tx =>
        (!tx.IsFinal ctx.nBestHeight ctx.nAdjustedTime nHeight block.nTime,
          ⟨10, "AcceptBlock() : contains a non-final transaction"⟩)

end Checks

/-! ## AcceptBlock -/

/-- The places at which `AcceptBlock` asks whether the node is in its initial download. -/
inductive DownloadQuery where
  | softForkTwo
  | checkSync
  | acceptPending
deriving DecidableEq, Repr

/-- What one call of `AcceptBlock` finds. -/
structure AcceptOutcome where
  nAdjustedTime : ℤ := 0
  fInitialBlockDownload : DownloadQuery → Bool := fun _ => false
  fDiskSpace : Bool := true
  fWriteToDisk : Bool := true
  nFile : ℕ := 1
  nBlockPos : ℕ := 0
  chain : ChainOutcome := {}
  pending : CheckpointOutcome := {}

/-- The node with its checkpoints and its orphan blocks, the oldest one first. -/
structure CheckpointNode where
  node : Node
  checkpoints : SyncCheckpoints
  mapOrphanBlocks : List CBlock
  strMiscWarning : String

section AcceptBlock

variable (env : CheckpointEnv)

/-- The check against the synchronised checkpoint. Only strict mode rejects. -/
def checkAgainstSync (o : AcceptOutcome) (hash hashPrevBlock : uint256) (s : CheckpointNode) :
    Bool × CheckpointNode :=
  if o.fInitialBlockDownload .checkSync then (true, s)
  else if checkSync s.node.chain s.checkpoints hash hashPrevBlock then (true, s)
  else
    match env.CheckpointsMode with
    | .STRICT => (false, s)
    | .ADVISORY =>
      (true, { s with strMiscWarning := "WARNING: failed against advanced checkpointing!" })
    | .PERMISSIVE => (true, s)

/-- The end of `AcceptBlock`: write the block, add it to the index and process a pending
checkpoint, whose result is not looked at. -/
def storeBlock (o : AcceptOutcome) (block : CBlock) (s : CheckpointNode) :
    Option BlockError × CheckpointNode :=
  if ¬ o.fDiskSpace then (some ⟨0, "AcceptBlock() : out of disk space"⟩, s)
  else if ¬ o.fWriteToDisk then (some ⟨0, "AcceptBlock() : WriteToDisk failed"⟩, s)
  else
    match addToBlockIndex env.toNodeEnv o.chain o.nFile o.nBlockPos block s.node .new with
    | (false, n, _) =>
      (some ⟨0, "AcceptBlock() : AddToBlockIndex failed"⟩, { s with node := n })
    | (true, n, _) =>
      if o.fInitialBlockDownload .acceptPending then (none, { s with node := n })
      else
        let accepted := (acceptPendingSyncCheckpoint env o.pending n s.checkpoints).2
        (none, { s with node := accepted.1, checkpoints := accepted.2 })

/-- `CBlock::AcceptBlock` without a batch: the error, if there is one, and the node
afterwards. -/
def acceptBlock (o : AcceptOutcome) (block : CBlock) (s : CheckpointNode) :
    Option BlockError × CheckpointNode :=
  let hash := env.blockHash block.toCBlockHeader
  if hash ∈ s.node.chain.mapBlockIndex then
    (some ⟨0, "AcceptBlock() : block already in mapBlockIndex"⟩, s)
  else
    match s.node.chain.entry block.hashPrevBlock with
    | none => (some ⟨10, "AcceptBlock() : prev block not found"⟩, s)
    | some pindexPrev =>
      match firstError (contextChecks ⟨env.fTestNet, s.node.chain.nBestHeight, o.nAdjustedTime,
          o.fInitialBlockDownload .softForkTwo⟩ pindexPrev (s.node.chain.pprevs pindexPrev)
          block) with
      | some error => (some error, s)
      | none =>
        if ¬ checkHardened env.fTestNet (pindexPrev.nHeight + 1) hash then
          (some ⟨100, "AcceptBlock(): rejected by a hardened checkpoint"⟩, s)
        else
          match checkAgainstSync env o hash block.hashPrevBlock s with
          | (false, s) => (some ⟨0, "AcceptBlock(): rejected by advanced checkpointing"⟩, s)
          | (true, s) => storeBlock env o block s

/-! ## ProcessBlock -/

/-- What one call of `ProcessBlock` finds. -/
structure ProcessOutcome where
  fFromPeer : Bool := true
  nAdjustedTime : ℤ := 0
  accept : uint256 → AcceptOutcome := fun _ => {}
  send : CheckpointOutcome := {}

/-- One orphan: accept it, and queue its hash if that succeeds. -/
def acceptOrphan (o : ProcessOutcome) (acc : List uint256 × CheckpointNode) (block : CBlock) :
    List uint256 × CheckpointNode :=
  let hash := env.blockHash block.toCBlockHeader
  match acceptBlock env (o.accept hash) block acc.2 with
  | (none, s) => (acc.1 ++ [hash], s)
  | (some _, s) => (acc.1, s)

/-- The loop over `vWorkQueue`: the orphans that wait for a block leave the map. -/
def processOrphans (o : ProcessOutcome) : ℕ → List uint256 → CheckpointNode → CheckpointNode
  | 0, _, s => s
  | _ + 1, [], s => s
  | n + 1, hashPrev :: vWorkQueue, s =>
    let children := s.mapOrphanBlocks.filter fun block => block.hashPrevBlock = hashPrev
    let (accepted, s) := children.foldl (acceptOrphan env o) ([], s)
    let rest := s.mapOrphanBlocks.filter fun block => block.hashPrevBlock ≠ hashPrev
    processOrphans o n (vWorkQueue ++ accepted) { s with mapOrphanBlocks := rest }

/-- A block off the best chain may not be older than the last hard-coded checkpoint. -/
def beforeLastCheckpoint (s : ChainState) (block : CBlock) : Bool :=
  match getLastCheckpoint env.fTestNet s with
  | none => false
  | some pcheckpoint => block.hashPrevBlock ≠ s.hashBestChain && block.nTime < pcheckpoint.nTime

/-- `ProcessBlock` without a batch. The queue takes in every orphan at most once, so it is empty
after as many rounds as there are orphans and one more. -/
def processBlockWithOrphans (o : ProcessOutcome) (block : CBlock) (s : CheckpointNode) :
    Bool × CheckpointNode :=
  let hash := env.blockHash block.toCBlockHeader
  if hash ∈ s.node.chain.mapBlockIndex then (false, s)
  else if s.mapOrphanBlocks.any fun orphan => env.blockHash orphan.toCBlockHeader = hash then
    (false, s)
  else if ¬ checkBlock env.toChainEnv ⟨s.node.chain.nBestHeight, o.nAdjustedTime, ∅⟩ true true
      block then (false, s)
  else if beforeLastCheckpoint env s.node.chain block then (false, s)
  else if block.hashPrevBlock ∉ s.node.chain.mapBlockIndex then
    (true, if o.fFromPeer then { s with mapOrphanBlocks := s.mapOrphanBlocks ++ [block] } else s)
  else
    match acceptBlock env (o.accept hash) block s with
    | (some _, s) => (false, s)
    | (none, s) =>
      let s := processOrphans env o (s.mapOrphanBlocks.length + 1) [hash] s
      if o.fFromPeer then
        let sent := (sendSyncCheckpoint env o.send (autoSelectSyncCheckpoint env s.node.chain)
          s.node s.checkpoints).2
        (true, { s with node := sent.1, checkpoints := sent.2 })
      else (true, s)

end AcceptBlock

/-! ## Calls -/

/-- The calls through which blocks and checkpoints reach a node. -/
inductive CheckpointCall where
  | processBlock (o : ProcessOutcome) (block : CBlock)
  | processSyncCheckpoint (o : CheckpointOutcome) (checkpoint : CSyncCheckpoint)
  | acceptPendingSyncCheckpoint (o : CheckpointOutcome)

/-- The result of a call and the node afterwards. -/
def CheckpointCall.run (env : CheckpointEnv) (s : CheckpointNode) :
    CheckpointCall → Bool × CheckpointNode
  | .processBlock o block => processBlockWithOrphans env o block s
  | .processSyncCheckpoint o checkpoint =>
    let (fResult, n, c) := Program.processSyncCheckpoint env o checkpoint s.node s.checkpoints
    (fResult, { s with node := n, checkpoints := c })
  | .acceptPendingSyncCheckpoint o =>
    let (fResult, n, c) := Program.acceptPendingSyncCheckpoint env o s.node s.checkpoints
    (fResult, { s with node := n, checkpoints := c })

end Phoenixcoin.Program
