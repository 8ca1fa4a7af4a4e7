import Phoenixcoin.Program.ConnectBlock
import Mathlib.Algebra.BigOperators.Intervals
import Mathlib.Tactic.Ring

/-!
# The supply that `GetMoneySupply` reports

The rewards are constant over each era, so their sum is a sum of products, one for each era that
has passed. `GetMoneySupply` has the products of livenet for four million blocks. Its testnet part
leaves the genesis block out below the first fork, knows nothing of the smaller rewards between the
third and the fourth fork and ends after two million blocks.
-/

set_option autoImplicit false

namespace Phoenixcoin.Analysis

open Program Finset

/-- What the blocks below height `n` have been rewarded with. -/
def rewardsBelow (fTestNet : Bool) (n : ℕ) : ℤ :=
  (range n).sum fun i => getProofOfWorkReward fTestNet i 0

variable {fTestNet : Bool}

/-! ## Eras -/

/-- An era of constant rewards adds a product. -/
theorem rewardsBelow_era {a n : ℕ} (c : ℤ) (han : a ≤ n)
    (hera : ∀ i, a ≤ i → i < n → getProofOfWorkReward fTestNet i 0 = c) :
    rewardsBelow fTestNet n = rewardsBelow fTestNet a + ((n : ℤ) - a) * c := by
  have hconst : (Ico a n).sum (fun i => getProofOfWorkReward fTestNet i 0) =
      (Ico a n).sum fun _ => c := by
    apply sum_congr rfl
    intro i hi
    obtain ⟨hlow, hhigh⟩ := mem_Ico.mp hi
    exact hera i hlow hhigh
  unfold rewardsBelow
  rw [← sum_range_add_sum_Ico _ han, hconst, sum_const, Nat.card_Ico, nsmul_eq_mul,
    Nat.cast_sub han]

theorem reward_nonneg (i : ℕ) : 0 ≤ getProofOfWorkReward fTestNet i 0 := by
  rw [getProofOfWorkReward, add_zero]
  apply Int.le_shiftRight_of_nonneg
  split <;> norm_num [COIN]

theorem rewardsBelow_mono {a n : ℕ} (han : a ≤ n) :
    rewardsBelow fTestNet a ≤ rewardsBelow fTestNet n := by
  apply sum_le_sum_of_subset_of_nonneg
  · simpa using han
  · intro i _ _
    exact reward_nonneg i

theorem reward_of_reduced {i : ℕ} (hi : i < 1000000)
    (h : (nForkThree ≤ i ∧ i < nForkFour) ∨ (fTestNet = true ∧ i < nTestnetForkOne)) :
    getProofOfWorkReward fTestNet i 0 = 25 * COIN := by
  rw [getProofOfWorkReward, if_pos h, show i / 1000000 = 0 by omega]
  simp

theorem reward_of_full {i : ℕ} (k : ℕ) (hk : i / 1000000 = k)
    (h : ¬ ((nForkThree ≤ i ∧ i < nForkFour) ∨ (fTestNet = true ∧ i < nTestnetForkOne))) :
    getProofOfWorkReward fTestNet i 0 = (50 * COIN) >>> k := by
  rw [getProofOfWorkReward, if_neg h, hk, add_zero]

/-- The part of an era that lies below `n`. -/
theorem rewardsBelow_min (n : ℕ) {a b : ℕ} (c : ℤ) (hab : a ≤ b)
    (hera : ∀ i, a ≤ i → i < b → getProofOfWorkReward fTestNet i 0 = c) :
    rewardsBelow fTestNet (min n b) =
      rewardsBelow fTestNet (min n a) + (((min n b : ℕ) : ℤ) - (min n a : ℕ)) * c := by
  apply rewardsBelow_era c (by omega)
  intro i hlow hhigh
  exact hera i (by omega) (by omega)

/-! ## The two networks -/

/-- The eras of livenet, in the smallest units. -/
theorem rewardsBelow_livenet (n : ℕ) :
    rewardsBelow false (min n 4000000) =
      (min n nForkThree : ℕ) * 5000000000 +
      ((min n nForkFour : ℕ) - (min n nForkThree : ℕ)) * 2500000000 +
      ((min n 1000000 : ℕ) - (min n nForkFour : ℕ)) * 5000000000 +
      ((min n 2000000 : ℕ) - (min n 1000000 : ℕ)) * 2500000000 +
      ((min n 3000000 : ℕ) - (min n 2000000 : ℕ)) * 1250000000 +
      ((min n 4000000 : ℕ) - (min n 3000000 : ℕ)) * 625000000 := by
  have hfull (k : ℕ) {i : ℕ} (hk : i / 1000000 = k) (h : i < nForkThree ∨ nForkFour ≤ i) :
      getProofOfWorkReward false i 0 = (50 * COIN) >>> k :=
    reward_of_full k hk (by simp; omega)
  have h1 := @rewardsBelow_min false n 0 nForkThree 5000000000 (by decide) fun i _ hi =>
    hfull 0 (by unfold nForkThree at hi; omega) (Or.inl hi)
  have h2 := @rewardsBelow_min false n nForkThree nForkFour 2500000000 (by decide) fun i hlow hi =>
    reward_of_reduced (by unfold nForkFour at hi; omega) (Or.inl ⟨hlow, hi⟩)
  have h3 := @rewardsBelow_min false n nForkFour 1000000 5000000000 (by decide) fun i hlow hi =>
    hfull 0 (by omega) (Or.inr hlow)
  have hlate (k : ℕ) (hk : 1 ≤ k) (i : ℕ) (hlow : k * 1000000 ≤ i) (hhigh : i < (k + 1) * 1000000) :
      getProofOfWorkReward false i 0 = (50 * COIN) >>> k :=
    hfull k (by omega) (Or.inr (by unfold nForkFour; omega))
  have h4 := @rewardsBelow_min false n 1000000 2000000 2500000000 (by decide) (hlate 1 le_rfl)
  have h5 := @rewardsBelow_min false n 2000000 3000000 1250000000 (by decide) (hlate 2 (by decide))
  have h6 := @rewardsBelow_min false n 3000000 4000000 625000000 (by decide) (hlate 3 (by decide))
  have hzero : rewardsBelow false (min n 0) = 0 := by simp [rewardsBelow]
  rw [h6, h5, h4, h3, h2, h1, hzero]
  simp

/-- The eras of testnet, in the smallest units. -/
theorem rewardsBelow_testnet (n : ℕ) :
    rewardsBelow true (min n 3000000) =
      (min n nTestnetForkOne : ℕ) * 2500000000 +
      ((min n nForkThree : ℕ) - (min n nTestnetForkOne : ℕ)) * 5000000000 +
      ((min n nForkFour : ℕ) - (min n nForkThree : ℕ)) * 2500000000 +
      ((min n 1000000 : ℕ) - (min n nForkFour : ℕ)) * 5000000000 +
      ((min n 2000000 : ℕ) - (min n 1000000 : ℕ)) * 2500000000 +
      ((min n 3000000 : ℕ) - (min n 2000000 : ℕ)) * 1250000000 := by
  have hfull (k : ℕ) {i : ℕ} (hk : i / 1000000 = k) (hfirst : nTestnetForkOne ≤ i)
      (h : i < nForkThree ∨ nForkFour ≤ i) :
      getProofOfWorkReward true i 0 = (50 * COIN) >>> k :=
    reward_of_full k hk (by omega)
  have h1 := @rewardsBelow_min true n 0 nTestnetForkOne 2500000000 (by decide) fun i _ hi =>
    reward_of_reduced (by unfold nTestnetForkOne at hi; omega) (Or.inr ⟨rfl, hi⟩)
  have h2 := @rewardsBelow_min true n nTestnetForkOne nForkThree 5000000000 (by decide)
    fun i hlow hi => hfull 0 (by unfold nForkThree at hi; omega) hlow (Or.inl hi)
  have h3 := @rewardsBelow_min true n nForkThree nForkFour 2500000000 (by decide) fun i hlow hi =>
    reward_of_reduced (by unfold nForkFour at hi; omega) (Or.inl ⟨hlow, hi⟩)
  have hlate (k i : ℕ) (hfork : nForkFour ≤ i) (hlow : k * 1000000 ≤ i)
      (hhigh : i < (k + 1) * 1000000) : getProofOfWorkReward true i 0 = (50 * COIN) >>> k :=
    hfull k (by omega) (le_trans (by decide) hfork) (Or.inr hfork)
  have h4 := @rewardsBelow_min true n nForkFour 1000000 5000000000 (by decide) fun i hlow hi =>
    hlate 0 i hlow (by omega) (by omega)
  have h5 := @rewardsBelow_min true n 1000000 2000000 2500000000 (by decide) fun i hlow hi =>
    hlate 1 i (le_trans (by decide) hlow) (by omega) (by omega)
  have h6 := @rewardsBelow_min true n 2000000 3000000 1250000000 (by decide) fun i hlow hi =>
    hlate 2 i (le_trans (by decide) hlow) (by omega) (by omega)
  have hzero : rewardsBelow true (min n 0) = 0 := by simp [rewardsBelow]
  rw [h6, h5, h4, h3, h2, h1, hzero]
  simp

variable {nHeight : ℕ}

theorem getMoneySupply_livenet (h : nHeight < 4000000) :
    getMoneySupply false nHeight = rewardsBelow false (nHeight + 1) := by
  have hsum := rewardsBelow_livenet (nHeight + 1)
  rw [min_eq_left (by omega)] at hsum
  simp only [nForkThree, nForkFour] at hsum
  rw [getMoneySupply, nForkThree, nForkFour, COIN, if_pos (by simp)]
  dsimp only
  split_ifs <;> omega

theorem getMoneySupply_livenet_end (h : 4000000 ≤ nHeight) :
    getMoneySupply false nHeight = rewardsBelow false 4000000 := by
  have hsum := rewardsBelow_livenet 4000000
  simp only [nForkThree, nForkFour] at hsum
  rw [min_self] at hsum
  rw [getMoneySupply, nForkThree, nForkFour, COIN, if_pos (by simp)]
  dsimp only
  split_ifs <;> omega

theorem rewardsBelow_livenet_next :
    rewardsBelow false 4000001 = rewardsBelow false 4000000 + 312500000 := by
  have hera := @rewardsBelow_era false 4000000 4000001 312500000 (by decide)
    fun i hlow hhigh => reward_of_full 4 (by omega) (by simp [nForkThree, nForkFour]; omega)
  simpa using hera

theorem getMoneySupply_testnet (h : nHeight < 3000000) :
    getMoneySupply true nHeight = rewardsBelow true (nHeight + 1) ↔
      (nTestnetForkOne ≤ nHeight ∧ nHeight < nForkThree) ∨ nHeight = 2159799 := by
  have hsum := rewardsBelow_testnet (nHeight + 1)
  rw [min_eq_left (by omega)] at hsum
  simp only [nTestnetForkOne, nForkThree, nForkFour] at hsum
  rw [getMoneySupply, nTestnetForkOne, nForkThree, COIN, if_neg (by simp)]
  dsimp only
  split_ifs <;> omega

theorem getMoneySupply_testnet_end (h : 3000000 ≤ nHeight) :
    getMoneySupply true nHeight < rewardsBelow true (nHeight + 1) := by
  have hsum := rewardsBelow_testnet 3000000
  simp only [nTestnetForkOne, nForkThree, nForkFour] at hsum
  rw [min_self] at hsum
  have hmono : rewardsBelow true 3000000 ≤ rewardsBelow true (nHeight + 1) :=
    rewardsBelow_mono (by omega)
  apply lt_of_lt_of_le _ hmono
  rw [getMoneySupply, nTestnetForkOne, COIN, if_neg (by simp)]
  dsimp only
  split_ifs <;> omega

/-- The report is the sum of the rewards on livenet below height four million. On testnet it is
that sum from the first testnet fork to the third fork, and once more where the halved rewards,
which the report misses, have made up for those it counts twice. -/
theorem getMoneySupply_eq_sum_iff (fTestNet : Bool) (nHeight : ℕ) :
    getMoneySupply fTestNet nHeight =
        (range (nHeight + 1)).sum (fun i => getProofOfWorkReward fTestNet i 0) ↔
      if fTestNet then (nTestnetForkOne ≤ nHeight ∧ nHeight < nForkThree) ∨ nHeight = 2159799
      else nHeight < 4000000 := by
  change getMoneySupply fTestNet nHeight = rewardsBelow fTestNet (nHeight + 1) ↔ _
  cases fTestNet with
  | false =>
    rw [if_neg (by simp)]
    constructor
    · intro heq
      by_contra hlate
      have hnext := rewardsBelow_livenet_next
      have hmono : rewardsBelow false 4000001 ≤ rewardsBelow false (nHeight + 1) :=
        rewardsBelow_mono (by omega)
      rw [getMoneySupply_livenet_end (by omega)] at heq
      omega
    · exact getMoneySupply_livenet
  | true =>
    rw [if_pos rfl]
    by_cases hlate : nHeight < 3000000
    · exact getMoneySupply_testnet hlate
    · constructor
      · have hlt := getMoneySupply_testnet_end (not_lt.mp hlate)
        omega
      · intro h
        unfold nForkThree at h
        omega

/-- At height four million livenet reports less than the rewards. -/
theorem getMoneySupply_livenet_misses : getMoneySupply false 4000000 ≠
      (range 4000001).sum fun i => getProofOfWorkReward false i 0 := by
  intro h
  have hnext := rewardsBelow_livenet_next
  have hreport := @getMoneySupply_livenet_end 4000000 le_rfl
  have heq : getMoneySupply false 4000000 = rewardsBelow false 4000001 := h
  omega

end Phoenixcoin.Analysis
