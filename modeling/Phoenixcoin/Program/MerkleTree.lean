import Phoenixcoin.Lib.Merkle
import Phoenixcoin.Program.ConnectBlock
import Mathlib.Data.Int.Bitwise

/-!
# The merkle tree of a block

`CBlock::BuildMerkleTree` of `main.h`, with the vector of all nodes that it fills, the branches
that `GetMerkleBranch` reads out of that vector and `CheckMerkleBranch` folds, and the two checks of
`CBlock::CheckBlock` that tie the transactions to the header.
-/

set_option autoImplicit false

namespace Phoenixcoin.Program

open Lib

section Build

-- `Hash` of two adjacent nodes.
variable (hashPair : uint256 → uint256 → uint256)

/-- The inner loop: the level of `nSize` nodes that starts at `j` is hashed in pairs. -/
def pushMerkleLevel (vMerkleTree : List uint256) (j nSize : ℕ) : List uint256 :=
  vMerkleTree ++ (List.range ((nSize + 1) / 2)).map fun k =>
    let i := 2 * k
    let i2 := min (i + 1) (nSize - 1)
    hashPair (vMerkleTree.getD (j + i) 0) (vMerkleTree.getD (j + i2) 0)

/-- The outer loop; the size halves in every round, so the number of leaves is fuel enough. -/
def buildMerkleTreeFrom : ℕ → List uint256 → ℕ → ℕ → List uint256
  | 0, vMerkleTree, _, _ => vMerkleTree
  | fuel + 1, vMerkleTree, j, nSize =>
    if nSize > 1 then
      buildMerkleTreeFrom fuel (pushMerkleLevel hashPair vMerkleTree j nSize) (j + nSize)
        ((nSize + 1) / 2)
    else vMerkleTree

/-- The nodes that `BuildMerkleTree` leaves in `vMerkleTree`. -/
def merkleTree (vTxHashes : List uint256) : List uint256 :=
  buildMerkleTreeFrom hashPair vTxHashes.length vTxHashes 0 vTxHashes.length

def BuildMerkleTree (vTxHashes : List uint256) : uint256 :=
  (merkleTree hashPair vTxHashes).getLastD 0

/-- The loop of `GetMerkleBranch`; `j` is where the level of `nSize` nodes starts. -/
def merkleBranchFrom (vMerkleTree : List uint256) : ℕ → ℕ → ℕ → ℤ → List uint256
  | 0, _, _, _ => []
  | fuel + 1, j, nSize, nIndex =>
    if nSize > 1 then
      let i : ℤ := min (Int.xor nIndex 1) (nSize - 1)
      vMerkleTree.getD (j + i).toNat 0 ::
        merkleBranchFrom vMerkleTree fuel (j + nSize) ((nSize + 1) / 2) (nIndex >>> 1)
    else []

/-- One round of `CheckMerkleBranch`: the node above `hash`, which has the index `nIndex`. -/
def joinMerkleNodes (hash otherside : uint256) (nIndex : ℤ) : uint256 :=
  if Int.land nIndex 1 ≠ 0 then hashPair otherside hash else hashPair hash otherside

/-- The loop of `CheckMerkleBranch`. -/
def foldMerkleBranch : uint256 → List uint256 → ℤ → uint256
  | hash, [], _ => hash
  | hash, otherside :: vMerkleBranch, nIndex =>
    foldMerkleBranch (joinMerkleNodes hashPair hash otherside nIndex) vMerkleBranch (nIndex >>> 1)

def CheckMerkleBranch (hash : uint256) (vMerkleBranch : List uint256) (nIndex : ℤ) : uint256 :=
  if nIndex = -1 then 0 else foldMerkleBranch hashPair hash vMerkleBranch nIndex

end Build

/-- The transactions of a block object and the nodes that its `vMerkleTree` keeps. -/
structure BlockNodes where
  vtx : List CTransaction
  vMerkleTree : List uint256

namespace BlockNodes

variable (hashPair : uint256 → uint256 → uint256) (txHash : CTransaction → uint256)
  (block : BlockNodes)

/-- `BuildMerkleTree` over hashes that the caller already has. -/
def buildFromHashes (vTxHashes : List uint256) : uint256 × BlockNodes :=
  (BuildMerkleTree hashPair vTxHashes, { block with vMerkleTree := merkleTree hashPair vTxHashes })

/-- `BuildMerkleTree` over the transactions of the block. -/
def buildFromTransactions : uint256 × BlockNodes :=
  block.buildFromHashes hashPair (block.vtx.map txHash)

def GetMerkleBranch (nIndex : ℤ) : List uint256 × BlockNodes :=
  let block := if block.vMerkleTree = [] then (block.buildFromTransactions hashPair txHash).2
    else block
  (merkleBranchFrom block.vMerkleTree block.vtx.length 0 block.vtx.length nIndex, block)

/-- The nodes are those of the block's own transactions, or were never built. -/
def Current : Prop :=
  block.vMerkleTree = [] ∨ block.vMerkleTree = merkleTree hashPair (block.vtx.map txHash)

end BlockNodes

/-- The checks of `CheckBlock` on the transaction hashes: there is one, none occurs twice, and
their merkle root is that of the header. -/
def MerkleChecks (env : ChainEnv) (block : CBlock) : Prop :=
  block.vtx ≠ [] ∧ (block.vtx.map env.txHash).Nodup ∧
    block.hashMerkleRoot = env.buildMerkleTree (block.vtx.map env.txHash)

end Phoenixcoin.Program
