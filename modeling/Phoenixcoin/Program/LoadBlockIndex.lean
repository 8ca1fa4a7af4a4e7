import Phoenixcoin.Program.ImportBatch
import Mathlib.Data.Finset.Sort

/-!
# Loading the block index

`CTxDB::LoadBlockIndex`, which a node runs on start: it builds the entries from the records,
computes the chain work again in the order of the heights and checks the last blocks.
-/

set_option autoImplicit false

namespace Phoenixcoin.Program

open Lib

/-! ## Reading the records -/

/-- `InsertBlockIndex`: the pointer and the map afterwards. -/
def insertBlockIndex (hash : uint256) (mapBlockIndex : Table uint256 CBlockIndex) :
    Option uint256 × Table uint256 CBlockIndex :=
  if hash = 0 then (none, mapBlockIndex)
  else if hash ∈ mapBlockIndex then (some hash, mapBlockIndex)
  else (some hash, mapBlockIndex.insert hash (CBlockIndex.new hash))

/-- `LoadBlockIndexRecord`; `none` is the null pointer that the hash 0 would give. -/
def loadBlockIndexRecord (hashGenesisBlock : uint256) (s : ChainState)
    (record : uint256 × CDiskBlockIndex) : Option ChainState := do
  let (hashBlock, diskindex) := record
  let (pindexNew, mapBlockIndex) := insertBlockIndex hashBlock s.mapBlockIndex
  let (pprev, mapBlockIndex) := insertBlockIndex diskindex.hashPrev mapBlockIndex
  let (pnext, mapBlockIndex) := insertBlockIndex diskindex.hashNext mapBlockIndex
  let hashNew ← pindexNew
  let entry ← mapBlockIndex.lookup hashNew
  let entry :=
    { entry with
      pprev := pprev
      pnext := pnext
      nFile := diskindex.nFile
      nBlockPos := diskindex.nBlockPos
      nHeight := diskindex.nHeight
      nVersion := diskindex.nVersion
      hashMerkleRoot := diskindex.hashMerkleRoot
      nTime := diskindex.nTime
      nBits := diskindex.nBits
      nNonce := diskindex.nNonce }
  return { s with
    mapBlockIndex := mapBlockIndex.insert hashNew entry
    pindexGenesisBlock :=
      if s.pindexGenesisBlock = none ∧ hashBlock = hashGenesisBlock then some hashNew
      else s.pindexGenesisBlock }

/-- `LoadBlockIndexGuts`. The list `order` holds the hashes of the records in the order of the
database cursor. -/
def loadBlockIndexGuts (hashGenesisBlock : uint256)
    (blockindex : Table uint256 CDiskBlockIndex) (order : List uint256) (s : ChainState) :
    Option ChainState :=
  order.foldlM (fun s hash =>
    (blockindex.lookup hash).bind fun diskindex =>
      loadBlockIndexRecord hashGenesisBlock s (hash, diskindex)) s

/-! ## The chain work -/

/-- `vSortedByHeight`. Entries of one height may come in any order. -/
def vSortedByHeight (s : ChainState) : List uint256 :=
  (s.mapBlockIndex.keys.sort (· ≤ ·)).mergeSort fun a b => s.nHeight a ≤ s.nHeight b

/-- One round of the loop that computes `bnChainWork`. -/
def computeChainWork (s : ChainState) (hash : uint256) : ChainState :=
  match s.entry hash with
  | none => s
  | some pindex =>
    let bnWork := pindex.pprev.elim 0 s.bnChainWork + getBlockWork pindex.nBits
    { s with
      mapBlockIndex := s.mapBlockIndex.insert hash { pindex with bnChainWork := bnWork } }

/-! ## Checking the last blocks -/

/-- What the check of the last blocks takes from outside: the arguments `-checklevel` and
`-checkblocks`, which reads succeed, the time, and the checks of the transaction index that
levels above 1 make. -/
structure VerifyEnv where
  nCheckLevel : ℤ
  nCheckBlocks : ℤ
  readBlock : uint256 → Bool
  nAdjustedTime : ℤ
  verifyTxIndex : CBlockIndex → CBlock → Bool
  outcome : ChainOutcome

/-- `nCheckDepth` after its adjustments. -/
def nCheckDepth (nCheckBlocks nBestHeight : ℤ) : ℤ :=
  min (if nCheckBlocks = 0 then 1000000000 else nCheckBlocks) nBestHeight

section Load

variable (env : NodeEnv) (v : VerifyEnv)

/-- The loop that checks the blocks of the best chain from `pindex` back: `none` when a block
cannot be read, else `pindexFork`. -/
def verifyBlocks (s : ChainState) : ℕ → Option uint256 → Option uint256 → Option (Option uint256)
  | 0, _, pindexFork => some pindexFork
  | _ + 1, none, pindexFork => some pindexFork
  | n + 1, some hash, pindexFork =>
    match s.entry hash with
    | none => none
    | some pindex =>
      if pindex.pprev = none then some pindexFork
      else if pindex.nHeight < s.nBestHeight - nCheckDepth v.nCheckBlocks s.nBestHeight then
        some pindexFork
      else
        match readBlockFromDisk env.toChainEnv (v.readBlock hash) hash pindex with
        | none => none
        | some block =>
          let fBad :=
            (v.nCheckLevel > 0 && !checkBlock env.toChainEnv ⟨s.nBestHeight, v.nAdjustedTime, ∅⟩
              true true block) || (v.nCheckLevel > 1 && !v.verifyTxIndex pindex block)
          verifyBlocks s n pindex.pprev (if fBad then pindex.pprev else pindexFork)

/-- The part of `LoadBlockIndex` that reads the best chain; the flag says whether there is one. -/
def loadBestChain (records : ChainRecords) (s : ChainState) : Option (Bool × ChainState) :=
  match records.hashBestChain with
  | none => if s.pindexGenesisBlock = none then some (false, s) else none
  | some hashBestChain =>
    (s.entry hashBestChain).map fun pindex =>
      (true, { s with
          hashBestChain := hashBestChain
          pindexBest := some hashBestChain
          nBestHeight := pindex.nHeight
          bnBestChainWork := pindex.bnChainWork
          bnBestInvalidWork := records.bnBestInvalidWork.getD s.bnBestInvalidWork })

/-- The end of `LoadBlockIndex`, which checks the last blocks. A bad block moves the best chain
back to the block before it. -/
def checkBestChain (n : Node) : Option Node := do
  match ← verifyBlocks env v n.chain n.chain.size n.chain.pindexBest none with
  | none => return n
  | some pindexFork =>
    let pindex ← n.chain.entry pindexFork
    let block ← readBlockFromDisk env.toChainEnv (v.readBlock pindexFork) pindexFork pindex
    return (setBestChain env v.outcome false false n pindexFork block).2

/-- `CTxDB::LoadBlockIndex`; `none` is the result false. -/
def loadBlockIndex (order : List uint256) (n : Node) : Option Node := do
  let records := n.txdb.view
  let s ← loadBlockIndexGuts env.hashGenesisBlock records.blockindex order n.chain
  let s := (vSortedByHeight s).foldl computeChainWork s
  let (fBestChain, s) ← loadBestChain records s
  if fBestChain then checkBestChain env v { n with chain := s }
  else return { n with chain := s }

end Load

end Phoenixcoin.Program
