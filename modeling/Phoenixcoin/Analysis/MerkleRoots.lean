import Phoenixcoin.Program.MerkleTree
import Mathlib.Data.Nat.Pairing

/-!
# The merkle root fixes the transactions

The tree of `BuildMerkleTree` is the tree of `Lib.Merkle` written level after level. Two lists
without repetition that have one root are therefore equal.
-/

set_option autoImplicit false

namespace Phoenixcoin.Analysis

open Program Lib List Merkle

variable {hashPair : uint256 → uint256 → uint256}

/-! ## The vector of nodes -/

theorem map_range_adjacent (l : List uint256) : ((List.range ((l.length + 1) / 2)).map fun k =>
      hashPair (l.getD (2 * k) 0) (l.getD (min (2 * k + 1) (l.length - 1)) 0)) =
      levelUp hashPair l := by
  induction l using adjacentPairs.induct with
  | case1 => rfl
  | case2 a => simp [levelUp, adjacentPairs]
  | case3 a b l ih =>
    have hsize : ((a :: b :: l).length + 1) / 2 = (l.length + 1) / 2 + 1 := by
      simp only [length_cons]
      omega
    rw [hsize, range_succ_eq_map, map_cons, List.map_map, levelUp,
      adjacentPairs, map_cons, ← levelUp, ← ih]
    congr 1
    apply map_congr_left
    intro k hk
    have hk : k < (l.length + 1) / 2 := mem_range.mp hk
    have hmin : min (2 * (k + 1) + 1) ((a :: b :: l).length - 1) =
        min (2 * k + 1) (l.length - 1) + 2 := by
      simp only [length_cons]
      omega
    simp only [Function.comp_apply, Nat.succ_eq_add_one, hmin]
    rfl

theorem pushMerkleLevel_append (tree l : List uint256) :
    pushMerkleLevel hashPair (tree ++ l) tree.length l.length =
      tree ++ l ++ levelUp hashPair l := by
  rw [pushMerkleLevel, ← map_range_adjacent l]
  congr 1
  apply map_congr_left
  intro k _
  dsimp only
  rw [getD_append_right _ _ _ _ (Nat.le_add_right _ _),
    getD_append_right _ _ _ _ (Nat.le_add_right _ _), Nat.add_sub_cancel_left,
    Nat.add_sub_cancel_left]

theorem buildMerkleTreeFrom_eq (fuel : ℕ) (tree l : List uint256) :
    buildMerkleTreeFrom hashPair fuel (tree ++ l) tree.length l.length =
      tree ++ (levels hashPair fuel l).flatten := by
  induction fuel generalizing tree l with
  | zero =>
    rw [buildMerkleTreeFrom, levels, flatten_singleton]
  | succ fuel ih =>
    unfold buildMerkleTreeFrom levels
    by_cases hone : l.length > 1
    · have hnext := ih (tree ++ l) (levelUp hashPair l)
      rw [length_append, length_levelUp] at hnext
      rw [if_pos hone, if_neg (by omega), pushMerkleLevel_append, hnext, flatten_cons, append_assoc]
    · rw [if_neg hone, if_pos (by omega), flatten_singleton]

theorem merkleTree_eq (vTxHashes : List uint256) :
    merkleTree hashPair vTxHashes =
      (levels hashPair vTxHashes.length vTxHashes).flatten := by
  have h := @buildMerkleTreeFrom_eq hashPair vTxHashes.length [] vTxHashes
  simpa [merkleTree] using h

/-- The root is the one node of the top level. -/
theorem top_eq_root {vTxHashes : List uint256} (h : vTxHashes ≠ []) :
    top hashPair vTxHashes.length vTxHashes = [BuildMerkleTree hashPair vTxHashes] := by
  have hlength := length_top hashPair vTxHashes.length (Nat.le_succ _) h
  obtain ⟨root, hroot⟩ := length_eq_one_iff.mp hlength
  have hlast := getLast_levels hashPair vTxHashes.length vTxHashes
  rw [hroot] at hlast ⊢
  obtain ⟨init, hlevels⟩ := getLast?_eq_some_iff.mp hlast
  unfold BuildMerkleTree
  rw [merkleTree_eq, hlevels, flatten_append, flatten_singleton, getLastD_eq_getLast?,
    getLast?_concat]
  rfl

/-! ## Blocks with one root -/

/-- A block that passes `CheckBlock` with the merkle root passes these checks. -/
theorem merkleChecks_of_checkBlock {env : ChainEnv} {ctx : NodeContext} {fCheckPOW : Bool}
    {block : CBlock} (h : checkBlock env ctx fCheckPOW true block = true) :
    MerkleChecks env block := by
  unfold checkBlock at h
  split_ifs at h with hsize hpow htime hfirst hcoinBases htransactions hnodup hsigOps hroot
  refine ⟨?_, by simpa using hnodup, by simpa using hroot⟩
  rintro hnil
  simp [hnil] at hsize

/-- Two blocks with one merkle root that pass the checks on their transactions have the same
transaction hashes in the same order. -/
theorem vTxHashes_eq_of_hashMerkleRoot {env : ChainEnv} {block block' : CBlock}
    (henv : env.buildMerkleTree = BuildMerkleTree hashPair)
    (hinj : Function.Injective2 hashPair)
    (hleaf : ∀ tx a b, env.txHash tx ≠ hashPair a b)
    (hblock : MerkleChecks env block) (hblock' : MerkleChecks env block')
    (hroot : block.hashMerkleRoot = block'.hashMerkleRoot) :
    block.vtx.map env.txHash = block'.vtx.map env.txHash := by
  obtain ⟨hne, hnodup, hcheck⟩ := hblock
  obtain ⟨hne', hnodup', hcheck'⟩ := hblock'
  have hleaves (vtx : List CTransaction) : Leaves hashPair (vtx.map env.txHash) := by
    intro x hx a b
    obtain ⟨tx, -, rfl⟩ := List.mem_map.mp hx
    exact hleaf tx a b
  have hids : block.vtx.map env.txHash ≠ [] := fun h => hne (map_eq_nil_iff.mp h)
  have hids' : block'.vtx.map env.txHash ≠ [] := fun h => hne' (map_eq_nil_iff.mp h)
  have hsame : BuildMerkleTree hashPair (block.vtx.map env.txHash) =
      BuildMerkleTree hashPair (block'.vtx.map env.txHash) := by
    rw [← henv, ← hcheck, ← hcheck', hroot]
  have htop : Merkle.Alike
      (top hashPair (block.vtx.map env.txHash).length (block.vtx.map env.txHash))
      (top hashPair (block'.vtx.map env.txHash).length (block'.vtx.map env.txHash)) := by
    rw [top_eq_root hids, top_eq_root hids', hsame]
    exact ⟨Or.inl (prefix_refl _), fun _ => Iff.rfl⟩
  have halike := alike_of_top hinj _ _ (hleaves _) (hleaves _) hids hids' htop
  exact halike.eq_of_nodup hnodup hnodup'

namespace MerkleExample

def exampleHashPair (a b : uint256) : uint256 := 2 * Nat.pair a b + 1

def merkleEnv : ChainEnv where
  fTestNet := false
  nBaseMaturity := 0
  totalBlocksEstimate := 0
  txHash tx := 2 * tx.nLockTime
  blockHash header := header.nNonce
  checkProofOfWork _ := true
  buildMerkleTree := BuildMerkleTree exampleHashPair
  getSigOpCount _ _ := 0
  getP2SHSigOpCount _ _ := 0
  isPayToScriptHash _ := false
  verifyScript _ _ _ _ _ _ := true
  blockFileTx _ _ := none
  blockFileBlock _ _ := none

def lockedTx (nLockTime : ℕ) : CTransaction := ⟨1, [], [], nLockTime⟩

def threeTxBlock (nNonce : ℕ) : CBlock where
  nVersion := 1
  hashPrevBlock := 0
  hashMerkleRoot := BuildMerkleTree exampleHashPair [0, 2, 4]
  nTime := 0
  nBits := 0
  nNonce
  vtx := [lockedTx 0, lockedTx 1, lockedTx 2]

theorem merkleChecks_threeTxBlock (nNonce : ℕ) : MerkleChecks merkleEnv (threeTxBlock nNonce) :=
  ⟨cons_ne_nil _ _, (by decide : [0, 2, 4].Nodup), rfl⟩

theorem exampleHashPair_injective : Function.Injective2 exampleHashPair := by
  intro a a' b b' h
  have hpair : Nat.pair a b = Nat.pair a' b' := by
    have hdouble : 2 * Nat.pair a b + 1 = 2 * Nat.pair a' b' + 1 := h
    omega
  exact Nat.pair_eq_pair.mp hpair

end MerkleExample

open MerkleExample in
theorem vTxHashes_eq_threeTxBlock :
    (threeTxBlock 1).vtx.map merkleEnv.txHash = (threeTxBlock 2).vtx.map merkleEnv.txHash :=
  vTxHashes_eq_of_hashMerkleRoot rfl exampleHashPair_injective
    (fun tx a b h => by
      have hparity : 2 * tx.nLockTime = 2 * Nat.pair a b + 1 := h
      omega)
    (merkleChecks_threeTxBlock 1) (merkleChecks_threeTxBlock 2) rfl

end Phoenixcoin.Analysis
