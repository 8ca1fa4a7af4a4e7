import Mathlib.Order.Lattice.Nat
import Phoenixcoin.Program.AcceptBlock

/-!
# Blocks without their parents

`ProcessBlock` of `main.cpp` with the two maps of orphan blocks as they are: a block is an object
that both maps point to. A call that follows a pointer to a deleted object has no result.
-/

set_option autoImplicit false

namespace Phoenixcoin.Program

open Lib

/-! ## The maps -/

/-- `mapOrphanBlocks` and `mapOrphanBlocksByPrev`, and the objects by their address. Entries of
the multimap with the same key are in the order in which they were inserted. -/
structure OrphanMaps where
  heap : Table ℕ CBlock
  mapOrphanBlocks : Table uint256 ℕ
  mapOrphanBlocksByPrev : List (uint256 × ℕ)

namespace OrphanMaps

def empty : OrphanMaps := ⟨∅, ∅, []⟩

/-- `new CBlock(*pblock)` and the two insertions. -/
def insert (hash : uint256) (block : CBlock) (m : OrphanMaps) : OrphanMaps :=
  let pblock2 := m.heap.keys.sup id + 1
  { heap := m.heap.insert pblock2 block
    mapOrphanBlocks := m.mapOrphanBlocks.insert hash pblock2
    mapOrphanBlocksByPrev := m.mapOrphanBlocksByPrev ++ [(block.hashPrevBlock, pblock2)] }

/-- The pointers between `lower_bound(hashPrev)` and `upper_bound(hashPrev)`. -/
def children (hashPrev : uint256) (m : OrphanMaps) : List ℕ :=
  (m.mapOrphanBlocksByPrev.filter fun item => item.1 = hashPrev).map Prod.snd

/-- `mapOrphanBlocks.erase(hash)` and `delete`. -/
def delete (hash : uint256) (pblock : ℕ) (m : OrphanMaps) : OrphanMaps :=
  { m with
    heap := m.heap.erase pblock
    mapOrphanBlocks := m.mapOrphanBlocks.erase hash }

/-- `mapOrphanBlocksByPrev.erase(hashPrev)`. -/
def erasePrev (hashPrev : uint256) (m : OrphanMaps) : OrphanMaps :=
  { m with
    mapOrphanBlocksByPrev := m.mapOrphanBlocksByPrev.filter fun item => item.1 ≠ hashPrev }

end OrphanMaps

/-- The node with its checkpoints and the two maps. -/
structure OrphanNode where
  node : Node
  checkpoints : SyncCheckpoints
  strMiscWarning : String
  orphans : OrphanMaps

namespace OrphanNode

/-- The part that `AcceptBlock` works on. It does not touch the orphans. -/
def toCheckpointNode (s : OrphanNode) : CheckpointNode :=
  ⟨s.node, s.checkpoints, [], s.strMiscWarning⟩

def withCheckpointNode (s : OrphanNode) (c : CheckpointNode) : OrphanNode :=
  { s with
    node := c.node
    checkpoints := c.checkpoints
    strMiscWarning := c.strMiscWarning }

end OrphanNode

/-! ## AcceptBlock with a batch -/

section ProcessBlock

variable (env : CheckpointEnv)

/-- `storeBlock` with a batch. Under an active batch no pending checkpoint is processed. -/
def storeBlockIn (o : AcceptOutcome) (block : CBlock) (s : CheckpointNode)
    (batch : CChainImportBatch) : Option BlockError × CheckpointNode × CChainImportBatch :=
  if ¬ o.fDiskSpace then (some ⟨0, "AcceptBlock() : out of disk space"⟩, s, batch)
  else if ¬ o.fWriteToDisk then (some ⟨0, "AcceptBlock() : WriteToDisk failed"⟩, s, batch)
  else
    match addToBlockIndex env.toNodeEnv o.chain o.nFile o.nBlockPos block s.node batch with
    | (false, n, batch) =>
      (some ⟨0, "AcceptBlock() : AddToBlockIndex failed"⟩, { s with node := n }, batch)
    | (true, n, batch) =>
      if batch.fActive ∨ o.fInitialBlockDownload .acceptPending then
        (none, { s with node := n }, batch)
      else
        let accepted := (acceptPendingSyncCheckpoint env o.pending n s.checkpoints).2
        (none, { s with node := accepted.1, checkpoints := accepted.2 }, batch)

/-- `CBlock::AcceptBlock(pBatch)`. -/
def acceptBlockIn (o : AcceptOutcome) (block : CBlock) (s : CheckpointNode)
    (batch : CChainImportBatch) : Option BlockError × CheckpointNode × CChainImportBatch :=
  let hash := env.blockHash block.toCBlockHeader
  if hash ∈ s.node.chain.mapBlockIndex then
    (some ⟨0, "AcceptBlock() : block already in mapBlockIndex"⟩, s, batch)
  else
    match s.node.chain.entry block.hashPrevBlock with
    | none => (some ⟨10, "AcceptBlock() : prev block not found"⟩, s, batch)
    | some pindexPrev =>
      match firstError (contextChecks ⟨env.fTestNet, s.node.chain.nBestHeight, o.nAdjustedTime,
          o.fInitialBlockDownload .softForkTwo⟩ pindexPrev (s.node.chain.pprevs pindexPrev)
          block) with
      | some error => (some error, s, batch)
      | none =>
        if ¬ checkHardened env.fTestNet (pindexPrev.nHeight + 1) hash then
          (some ⟨100, "AcceptBlock(): rejected by a hardened checkpoint"⟩, s, batch)
        else
          match checkAgainstSync env o hash block.hashPrevBlock s with
          | (false, s) =>
            (some ⟨0, "AcceptBlock(): rejected by advanced checkpointing"⟩, s, batch)
          | (true, s) => storeBlockIn env o block s batch

/-! ## ProcessBlock -/

/-- The body of the loop over the children: accept the orphan, queue its hash if that succeeds,
and delete it. -/
def acceptChild (o : ProcessOutcome) (acc : List uint256 × OrphanNode) (pblockOrphan : ℕ) :
    Option (List uint256 × OrphanNode) := do
  let block ← acc.2.orphans.heap.lookup pblockOrphan
  let hash := env.blockHash block.toCBlockHeader
  let (error, c) := acceptBlock env (o.accept hash) block acc.2.toCheckpointNode
  let s := acc.2.withCheckpointNode c
  return (if error.isNone then acc.1 ++ [hash] else acc.1,
    { s with orphans := s.orphans.delete hash pblockOrphan })

/-- The loop over `vWorkQueue`. Every orphan is queued at most once. -/
def processWorkQueue (o : ProcessOutcome) : ℕ → List uint256 → OrphanNode → Option OrphanNode
  | 0, _, s => some s
  | _ + 1, [], s => some s
  | n + 1, hashPrev :: vWorkQueue, s =>
    ((s.orphans.children hashPrev).foldlM (acceptChild env o) (vWorkQueue, s)).bind
      fun (vWorkQueue, s) =>
        processWorkQueue o n vWorkQueue { s with orphans := s.orphans.erasePrev hashPrev }

/-- The end of `ProcessBlock`, after the block was accepted. -/
def processChildren (o : ProcessOutcome) (hash : uint256) (s : OrphanNode) : Option OrphanNode :=
  (processWorkQueue env o (s.orphans.mapOrphanBlocksByPrev.length + 1) [hash] s).map fun s =>
    if o.fFromPeer then
      let sent := (sendSyncCheckpoint env o.send (autoSelectSyncCheckpoint env s.node.chain)
        s.node s.checkpoints).2
      { s with node := sent.1, checkpoints := sent.2 }
    else s

/-- `ProcessBlock(pfrom, pblock, pBatch)`: the result, the node and the batch afterwards. -/
def processBlockWithMaps (o : ProcessOutcome) (block : CBlock) (s : OrphanNode)
    (batch : CChainImportBatch) : Option (Bool × OrphanNode × CChainImportBatch) :=
  let hash := env.blockHash block.toCBlockHeader
  if hash ∈ s.node.chain.mapBlockIndex then some (false, s, batch)
  else if hash ∈ s.orphans.mapOrphanBlocks then some (false, s, batch)
  else if ¬ checkBlock env.toChainEnv ⟨s.node.chain.nBestHeight, o.nAdjustedTime, ∅⟩ true true
      block then some (false, s, batch)
  else if beforeLastCheckpoint env s.node.chain block then some (false, s, batch)
  else if block.hashPrevBlock ∉ s.node.chain.mapBlockIndex then
    some (true, if o.fFromPeer then { s with orphans := s.orphans.insert hash block } else s, batch)
  else
    match acceptBlockIn env (o.accept hash) block s.toCheckpointNode batch with
    | (some _, c, batch) => some (false, s.withCheckpointNode c, batch)
    | (none, c, batch) =>
      (processChildren env o hash (s.withCheckpointNode c)).map fun s => (true, s, batch)

end ProcessBlock

end Phoenixcoin.Program
