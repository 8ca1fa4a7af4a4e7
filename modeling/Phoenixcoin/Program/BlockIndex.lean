import Phoenixcoin.Lib.Forest
import Phoenixcoin.Program.ConnectBlock

/-!
# The block index in memory

`mapBlockIndex` and the globals that describe the best chain, with the operations that the
chain code performs on entries. A pointer to an entry is the hash under which the entry is
stored, and a loop that follows pointers takes at most as many steps as there are entries.
-/

set_option autoImplicit false

namespace Phoenixcoin.Program

open Lib

/-! ## Entries -/

/-- The constructor `CBlockIndex()` for the entry stored under `hash`. -/
def CBlockIndex.new (hash : uint256) : CBlockIndex where
  phashBlock := some hash
  pprev := none
  pnext := none
  nFile := 0
  nBlockPos := 0
  nHeight := 0
  bnChainWork := 0
  nVersion := 0
  hashMerkleRoot := 0
  nTime := 0
  nBits := 0
  nNonce := 0

/-- The constructor `CBlockIndex(nFile, nBlockPos, block)` for the entry stored under `hash`. -/
def CBlockIndex.ofBlock (hash : uint256) (nFile nBlockPos : ℕ) (block : CBlock) :
    CBlockIndex :=
  { CBlockIndex.new hash with
    nFile := nFile
    nBlockPos := nBlockPos
    nVersion := block.nVersion
    hashMerkleRoot := block.hashMerkleRoot
    nTime := block.nTime
    nBits := block.nBits
    nNonce := block.nNonce }

/-- `CBigNum::SetCompact`: `nSize` bytes, of which the first three are given; the topmost bit
is the sign. -/
def setCompact (nCompact : ℕ) : ℤ :=
  let nSize := nCompact / 2 ^ 24
  let nWord := nCompact % 2 ^ 24
  let nValue : ℕ :=
    if nSize ≥ 3 then nWord * 2 ^ (8 * (nSize - 3)) else nWord / 2 ^ (8 * (3 - nSize))
  if nSize ≥ 1 ∧ nWord ≥ 2 ^ 23 then -((nValue : ℤ) - 2 ^ (8 * nSize - 1)) else nValue

def getBlockWork (nBits : ℕ) : ℕ :=
  let bnTarget := setCompact nBits
  if bnTarget > 0 then 2 ^ 256 / (bnTarget.toNat + 1) else 0

/-! ## The state of the chain -/

structure ChainState where
  mapBlockIndex : Table uint256 CBlockIndex
  pindexGenesisBlock : Option uint256
  hashBestChain : uint256
  pindexBest : Option uint256
  nBestHeight : ℤ
  bnBestChainWork : ℕ
  nTimeBestReceived : ℤ
  nTransactionsUpdated : ℕ
  pblockindexFBBHLast : Option uint256
  bnBestInvalidWork : ℕ
  hashPrevBestCoinBase : uint256

namespace ChainState

/-- The globals of a node that has just been started. -/
def initial : ChainState where
  mapBlockIndex := ∅
  pindexGenesisBlock := none
  hashBestChain := 0
  pindexBest := none
  nBestHeight := -1
  bnBestChainWork := 0
  nTimeBestReceived := 0
  nTransactionsUpdated := 0
  pblockindexFBBHLast := none
  bnBestInvalidWork := 0
  hashPrevBestCoinBase := 0

variable (s : ChainState)

def entry (hash : uint256) : Option CBlockIndex := s.mapBlockIndex.lookup hash

def pprev (hash : uint256) : Option uint256 := (s.entry hash).bind CBlockIndex.pprev

def pnext (hash : uint256) : Option uint256 := (s.entry hash).bind CBlockIndex.pnext

def nHeight (hash : uint256) : ℕ := (s.entry hash).elim 0 CBlockIndex.nHeight

def bnChainWork (hash : uint256) : ℕ := (s.entry hash).elim 0 CBlockIndex.bnChainWork

def size : ℕ := s.mapBlockIndex.keys.card

/-- The entries from `hash` on that `pprev` leads through, in at most `n` steps. -/
def walkBack : ℕ → Option uint256 → List CBlockIndex
  | 0, _ => []
  | _ + 1, none => []
  | n + 1, some hash => (s.entry hash).elim [] fun pindex => pindex :: walkBack n pindex.pprev

/-- The entries before `pindex`, the nearest one first. -/
def pprevs (pindex : CBlockIndex) : List CBlockIndex := s.walkBack s.size pindex.pprev

/-- The assignment `pindex->pnext = pnext`. -/
def setPnext (hash : uint256) (pnext : Option uint256) : ChainState :=
  match s.entry hash with
  | some pindex =>
    { s with mapBlockIndex := s.mapBlockIndex.insert hash { pindex with pnext := pnext } }
  | none => s

end ChainState

/-! ## The environment of the chain code -/

/-- The environment of block connection and the hash of the genesis block. -/
structure NodeEnv extends ChainEnv where
  hashGenesisBlock : uint256

/-- Which operations of one call succeed, and what the call finds: the hash names the block
that an operation is made for. The memory pool is seen through its content when a block is
connected and the number of times its changes count as an update. -/
structure ChainOutcome where
  txnBegin : Bool := true
  writeBlockIndex : Bool := true
  writeHashBestChain : uint256 → Bool := fun _ => true
  txnCommit : uint256 → Bool := fun _ => true
  txnBeginSecondary : uint256 → Bool := fun _ => true
  writeBestInvalidWork : Bool := true
  db : uint256 → DbOutcome := fun _ _ => true
  mapTx : uint256 → Table uint256 CTransaction := fun _ => ∅
  nPoolUpdates : uint256 → ℕ := fun _ => 0
  nAdjustedTime : ℤ := 0
  nTime : ℤ := 0

/-- The chain in memory and the chain database. -/
structure Node where
  chain : ChainState
  txdb : CTxDB

/-- `CBlock::ReadFromDisk(pindex)` for the entry stored under `hash`. -/
def readBlockFromDisk (env : ChainEnv) (ok : Bool) (hash : uint256) (pindex : CBlockIndex) :
    Option CBlock :=
  if ok && openBlockFile pindex.nFile then
    (env.blockFileBlock pindex.nFile pindex.nBlockPos).filter
      fun block => env.blockHash block.toCBlockHeader = hash
  else none

end Phoenixcoin.Program
