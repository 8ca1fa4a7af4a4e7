import Phoenixcoin.Analysis.MerkleRoots

/-!
# A branch of the merkle tree leads to the root

`GetMerkleBranch` reads one node from each level of the vector of nodes, and `CheckMerkleBranch`
hashes them onto a transaction. Both keep their own index; on every level it is the index of the
node that lies over the transaction.
-/

set_option autoImplicit false

namespace Phoenixcoin.Analysis

open Program Lib List Merkle

variable {hashPair : uint256 → uint256 → uint256}

/-! ## One level -/

theorem getD_levelUp {l : List uint256} {k : ℕ} (hk : k < (l.length + 1) / 2) :
    (levelUp hashPair l).getD k 0 =
      hashPair (l.getD (2 * k) 0) (l.getD (min (2 * k + 1) (l.length - 1)) 0) := by
  rw [← map_range_adjacent l, getD_eq_getElem?_getD, getElem?_map, getElem?_range hk]
  rfl

theorem joinMerkleNodes_neighbour {l : List uint256} {i : ℕ} (hi : i < l.length) :
    joinMerkleNodes hashPair (l.getD i 0) (l.getD (min (i ^^^ 1) (l.length - 1)) 0) i =
      (levelUp hashPair l).getD (i / 2) 0 := by
  have hland : Int.land (i : ℤ) 1 = ((i % 2 : ℕ) : ℤ) := by
    rw [← Nat.and_one_is_mod]
    rfl
  rw [joinMerkleNodes, getD_levelUp (by omega)]
  rcases Nat.mod_two_eq_zero_or_one i with heven | hodd
  · rw [if_neg (by omega), Nat.xor_one_of_even (Nat.even_iff.mpr heven),
      show 2 * (i / 2) = i by omega]
  · rw [if_pos (by omega), Nat.xor_one_of_odd (Nat.odd_iff.mpr hodd)]
    congr 2 <;> omega

/-! ## All levels -/

/-- Below a level that starts at the end of `tree`, the branch of its node `i` leads to the top. -/
theorem foldMerkleBranch_from (fuel : ℕ) (tree l : List uint256) (i : ℕ) (hi : i < l.length)
    (hfuel : l.length ≤ fuel + 1) :
    [foldMerkleBranch hashPair (l.getD i 0)
      (merkleBranchFrom (tree ++ (levels hashPair fuel l).flatten) fuel tree.length l.length
        i) i] = top hashPair fuel l := by
  induction fuel generalizing tree l i with
  | zero =>
    obtain ⟨x, rfl⟩ := length_eq_one_iff.mp (show l.length = 1 by omega)
    obtain rfl : i = 0 := by simpa using hi
    rfl
  | succ fuel ih =>
    unfold merkleBranchFrom levels top
    by_cases hone : l.length > 1
    · have hup := length_levelUp hashPair l
      -- The neighbour of node `i` lies in this level.
      have hread : (tree ++ (l :: levels hashPair fuel (levelUp hashPair l)).flatten).getD
          ((tree.length : ℤ) + min (Int.xor i 1) ((l.length : ℤ) - 1)).toNat 0 =
          l.getD (min (i ^^^ 1) (l.length - 1)) 0 := by
        have hindex : ((tree.length : ℤ) + min (Int.xor i 1) ((l.length : ℤ) - 1)).toNat =
            tree.length + min (i ^^^ 1) (l.length - 1) := by
          have hxor : Int.xor i 1 = ((i ^^^ 1 : ℕ) : ℤ) := rfl
          omega
        rw [hindex, getD_append_right _ _ _ _ (Nat.le_add_right _ _), Nat.add_sub_cancel_left,
          flatten_cons, getD_append _ _ _ _ (by omega)]
      have hnext := ih (tree ++ l) (levelUp hashPair l) (i / 2) (by omega) (by omega)
      rw [hup, length_append, append_assoc, ← joinMerkleNodes_neighbour hi] at hnext
      have hshift : (i : ℤ) >>> 1 = ((i / 2 : ℕ) : ℤ) := rfl
      rw [if_pos hone, if_neg (by omega), if_neg (by omega), ← hnext]
      dsimp only
      rw [hread, foldMerkleBranch, hshift, flatten_cons]
    · obtain ⟨x, rfl⟩ := length_eq_one_iff.mp (show l.length = 1 by omega)
      obtain rfl : i = 0 := by simpa using hi
      rfl

/-! ## Block objects -/

variable {txHash : CTransaction → uint256}

theorem getMerkleBranch_of_current {block : BlockNodes} (h : block.Current hashPair txHash)
    (nIndex : ℤ) :
    (block.GetMerkleBranch hashPair txHash nIndex).1 =
      merkleBranchFrom (merkleTree hashPair (block.vtx.map txHash)) block.vtx.length 0
        block.vtx.length nIndex := by
  unfold BlockNodes.GetMerkleBranch
  dsimp only
  by_cases hempty : block.vMerkleTree = []
  · rw [if_pos hempty]
    rfl
  · rw [if_neg hempty, h.resolve_left hempty]

/-- The branch of a transaction leads from its hash to the root, which both overloads of
`BuildMerkleTree` return. -/
theorem checkMerkleBranch_getMerkleBranch {block : BlockNodes}
    (hcurrent : block.Current hashPair txHash) {i : ℕ} (hi : i < block.vtx.length) :
    CheckMerkleBranch hashPair (txHash block.vtx[i])
        (block.GetMerkleBranch hashPair txHash i).1 i =
      (block.buildFromTransactions hashPair txHash).1 ∧
    CheckMerkleBranch hashPair (txHash block.vtx[i])
        (block.GetMerkleBranch hashPair txHash i).1 i =
      (block.buildFromHashes hashPair (block.vtx.map txHash)).1 := by
  have hne : block.vtx ≠ [] := ne_nil_of_length_pos (by omega)
  have hids : block.vtx.map txHash ≠ [] := fun h => hne (map_eq_nil_iff.mp h)
  have hleaf : (block.vtx.map txHash).getD i 0 = txHash block.vtx[i] := by
    rw [getD_eq_getElem?_getD, getElem?_map, getElem?_eq_getElem hi]
    rfl
  have hfold := @foldMerkleBranch_from hashPair (block.vtx.map txHash).length []
    (block.vtx.map txHash) i (by rwa [length_map]) (Nat.le_succ _)
  rw [top_eq_root hids, ← merkleTree_eq, hleaf, length_map] at hfold
  have hroot : CheckMerkleBranch hashPair (txHash block.vtx[i])
      (block.GetMerkleBranch hashPair txHash i).1 i =
      BuildMerkleTree hashPair (block.vtx.map txHash) := by
    rw [getMerkleBranch_of_current hcurrent]
    exact singleton_inj.mp hfold
  exact ⟨hroot, hroot⟩

open MerkleExample in
theorem checkMerkleBranch_threeTx :
    CheckMerkleBranch exampleHashPair (merkleEnv.txHash (lockedTx 2))
        ((BlockNodes.mk (threeTxBlock 0).vtx []).GetMerkleBranch exampleHashPair merkleEnv.txHash
          2).1 2 =
      ((BlockNodes.mk (threeTxBlock 0).vtx []).buildFromTransactions exampleHashPair
        merkleEnv.txHash).1 :=
  (@checkMerkleBranch_getMerkleBranch exampleHashPair merkleEnv.txHash
    (BlockNodes.mk (threeTxBlock 0).vtx []) (Or.inl rfl) 2 (by decide)).1

end Phoenixcoin.Analysis
