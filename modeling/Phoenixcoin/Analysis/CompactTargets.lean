import Phoenixcoin.Program.BlockRules

/-!
# Compact targets

The compact form keeps the leading bytes of a number, so it rounds down to a multiple of the byte
that the word ends with.
-/

set_option autoImplicit false

namespace Phoenixcoin.Analysis

open Program

variable {n m k : ℕ}

/-- The width of a number in the mpi format leaves room for the sign bit. -/
theorem mpiSize_bounds (hn : n ≠ 0) :
    1 ≤ mpiSize n ∧ n < 2 ^ (8 * mpiSize n - 1) ∧ 2 ^ (8 * mpiSize n - 9) ≤ n := by
  have hlow := Nat.log2_self_le hn
  have hhigh := @Nat.lt_log2_self n
  rw [mpiSize, if_neg hn]
  refine ⟨by omega, ?_, ?_⟩
  · refine lt_of_lt_of_le hhigh (Nat.pow_le_pow_right (by omega) ?_)
    omega
  · refine le_trans (Nat.pow_le_pow_right (by omega) ?_) hlow
    omega

theorem mpiSize_eq (hk : 1 ≤ k) (hlow : 2 ^ (8 * k - 9) ≤ n) (hhigh : n < 2 ^ (8 * k - 1)) :
    mpiSize n = k := by
  have hn : n ≠ 0 := (lt_of_lt_of_le (Nat.two_pow_pos _) hlow).ne'
  have hle := (Nat.le_log2 hn).mpr hlow
  have hlt := (Nat.log2_lt hn).mpr hhigh
  rw [mpiSize, if_neg hn]
  omega

theorem mpiSize_le {bits : ℕ} (hn : n < 2 ^ bits) : mpiSize n ≤ bits / 8 + 1 := by
  by_cases hzero : n = 0
  · rw [mpiSize, if_pos hzero]
    exact Nat.zero_le _
  · have hlog : n.log2 < bits := (Nat.log2_lt hzero).mpr hn
    rw [mpiSize, if_neg hzero]
    omega

theorem mpiSize_mono (h : n ≤ m) : mpiSize n ≤ mpiSize m := by
  by_cases hn : n = 0
  · rw [mpiSize, if_pos hn]
    exact Nat.zero_le _
  · have hm : m ≠ 0 := fun hm => hn (Nat.le_zero.mp (hm ▸ h))
    have hlog : n.log2 ≤ m.log2 := (Nat.le_log2 hm).mpr ((Nat.log2_self_le hn).trans h)
    rw [mpiSize, mpiSize, if_neg hn, if_neg hm]
    omega

def compactUnit (n : ℕ) : ℕ := 2 ^ (8 * (mpiSize n - 3))

def roundDown (n : ℕ) : ℕ := n / compactUnit n * compactUnit n

theorem compactUnit_pos (n : ℕ) : 0 < compactUnit n := Nat.two_pow_pos _

theorem roundDown_le (n : ℕ) : roundDown n ≤ n := Nat.div_mul_le_self _ _

theorem sub_roundDown_lt (n : ℕ) : n - roundDown n < compactUnit n := by
  have hsplit := Nat.div_add_mod' n (compactUnit n)
  have hloss := Nat.mod_lt n (compactUnit_pos n)
  unfold roundDown
  omega

/-- A longer number keeps fifteen bits. -/
theorem compactUnit_le (h : 3 ≤ mpiSize n) : 2 ^ 15 * compactUnit n ≤ n := by
  have hn : n ≠ 0 := by
    rintro rfl
    cases h
  refine le_of_eq_of_le ?_ (mpiSize_bounds hn).2.2
  rw [compactUnit, ← pow_add]
  congr 1
  omega

theorem le_roundDown (hn : n ≠ 0) : 2 ^ (8 * mpiSize n - 9) ≤ roundDown n := by
  obtain ⟨hsize, -, hlow⟩ := mpiSize_bounds hn
  by_cases hsmall : mpiSize n < 3
  · have hunit : compactUnit n = 1 := by
      rw [compactUnit, Nat.sub_eq_zero_of_le hsmall.le]
      rfl
    rwa [roundDown, hunit, Nat.div_one, Nat.mul_one]
  · have hpow : 2 ^ (8 * mpiSize n - 9) = 2 ^ 15 * compactUnit n := by
      rw [compactUnit, ← pow_add]
      congr 1
      omega
    rw [hpow] at hlow ⊢
    exact Nat.mul_le_mul_right _ ((Nat.le_div_iff_mul_le (compactUnit_pos n)).mpr hlow)

theorem mpiSize_roundDown (n : ℕ) : mpiSize (roundDown n) = mpiSize n := by
  by_cases hn : n = 0
  · subst hn
    rfl
  · obtain ⟨hsize, hhigh, -⟩ := mpiSize_bounds hn
    exact mpiSize_eq hsize (le_roundDown hn) ((roundDown_le n).trans_lt hhigh)

theorem roundDown_mono (h : n ≤ m) : roundDown n ≤ roundDown m := by
  by_cases hsame : mpiSize n = mpiSize m
  · rw [roundDown, compactUnit, hsame]
    exact Nat.mul_le_mul_right _ (Nat.div_le_div_right h)
  · have hlt : mpiSize n < mpiSize m := lt_of_le_of_ne (mpiSize_mono h) hsame
    have hm : m ≠ 0 := by
      rintro rfl
      cases hlt
    by_cases hn : n = 0
    · rw [Nat.le_zero.mp ((roundDown_le n).trans hn.le)]
      exact Nat.zero_le _
    · -- The leading bit of the longer number is worth more.
      calc roundDown n ≤ n := roundDown_le n
        _ ≤ 2 ^ (8 * mpiSize n - 1) := (mpiSize_bounds hn).2.1.le
        _ ≤ 2 ^ (8 * mpiSize m - 9) := Nat.pow_le_pow_right (by omega) (by omega)
        _ ≤ roundDown m := le_roundDown hm

/-! ## The encoding -/

def compactWord (n : ℕ) : ℕ := n / compactUnit n * 2 ^ (8 * (3 - mpiSize n))

theorem compactWord_lt (n : ℕ) : compactWord n < 2 ^ 23 := by
  by_cases hn : n = 0
  · subst hn
    decide
  · obtain ⟨hsize, hhigh, -⟩ := mpiSize_bounds hn
    have hpow : 2 ^ (8 * mpiSize n - 1) * 2 ^ (8 * (3 - mpiSize n)) = 2 ^ 23 * compactUnit n := by
      rw [compactUnit, ← pow_add, ← pow_add]
      congr 1
      omega
    refine Nat.lt_of_mul_lt_mul_right (a := compactUnit n) ?_
    calc compactWord n * compactUnit n = roundDown n * 2 ^ (8 * (3 - mpiSize n)) :=
          Nat.mul_right_comm _ _ _
      _ < 2 ^ (8 * mpiSize n - 1) * 2 ^ (8 * (3 - mpiSize n)) :=
          Nat.mul_lt_mul_of_pos_right ((roundDown_le n).trans_lt hhigh) (Nat.two_pow_pos _)
      _ = 2 ^ 23 * compactUnit n := hpow

theorem getCompact_eq (hn : mpiSize n ≤ 255) :
    getCompact n = mpiSize n * 2 ^ 24 + compactWord n := by
  have hword := compactWord_lt n
  have hneg : ¬ (n : ℤ) < 0 := not_lt.mpr (Int.natCast_nonneg n)
  have heq : (if mpiSize n ≤ 3 then n * 2 ^ (8 * (3 - mpiSize n))
      else n / 2 ^ (8 * (mpiSize n - 3))) = compactWord n := by
    unfold compactWord compactUnit
    split
    · next hle => rw [Nat.sub_eq_zero_of_le hle, Nat.pow_zero, Nat.div_one]
    · next hle => rw [Nat.sub_eq_zero_of_le (Nat.le_of_not_le hle), Nat.pow_zero, Nat.mul_one]
  unfold getCompact
  dsimp only
  rw [Int.natAbs_natCast, heq, if_neg hneg, Nat.add_zero]
  apply Nat.mod_eq_of_lt
  omega

theorem setCompact_word {nSize nWord : ℕ} (hword : nWord < 2 ^ 23) :
    setCompact (nSize * 2 ^ 24 + nWord) =
      ((if nSize ≥ 3 then nWord * 2 ^ (8 * (nSize - 3)) else nWord / 2 ^ (8 * (3 - nSize)) : ℕ) :
        ℤ) := by
  have hdiv : (nSize * 2 ^ 24 + nWord) / 2 ^ 24 = nSize := by omega
  have hmod : (nSize * 2 ^ 24 + nWord) % 2 ^ 24 = nWord := by omega
  rw [setCompact, hdiv, hmod, if_neg]
  omega

theorem setCompact_getCompact (hn : mpiSize n ≤ 255) : setCompact (getCompact n) = roundDown n := by
  rw [getCompact_eq hn, setCompact_word (compactWord_lt n)]
  unfold compactWord roundDown
  split
  · next hthree => rw [Nat.sub_eq_zero_of_le hthree, Nat.pow_zero, Nat.mul_one]; rfl
  · next hthree =>
    have hunit : compactUnit n = 1 := by
      rw [compactUnit, Nat.sub_eq_zero_of_le (Nat.le_of_not_le hthree)]
      rfl
    rw [Nat.mul_div_cancel _ (Nat.two_pow_pos _), hunit, Nat.mul_one]

/-- The compact form rounds down by less than one part in `2 ^ 15`, keeps the order, is kept by
another round, and never has the sign bit set. -/
theorem compact_roundsDown {x y : ℤ} (hx : 0 ≤ x) (hy : 0 ≤ y) (hxmax : x < 2 ^ 2039)
    (hymax : y < 2 ^ 2039) :
    setCompact (getCompact x) ≤ x ∧
      (2 ^ 16 ≤ x → x - x / 2 ^ 15 < setCompact (getCompact x)) ∧
      getCompact (setCompact (getCompact x)) = getCompact x ∧
      (x ≤ y → setCompact (getCompact x) ≤ setCompact (getCompact y)) ∧
      (getCompact x).testBit 23 = false := by
  obtain ⟨n, rfl⟩ := Int.eq_ofNat_of_zero_le hx
  obtain ⟨m, rfl⟩ := Int.eq_ofNat_of_zero_le hy
  have hn : mpiSize n ≤ 255 := mpiSize_le (by exact_mod_cast hxmax : n < 2 ^ 2039)
  have hm : mpiSize m ≤ 255 := mpiSize_le (by exact_mod_cast hymax : m < 2 ^ 2039)
  have hle := roundDown_le n
  rw [setCompact_getCompact hn, setCompact_getCompact hm]
  refine ⟨by exact_mod_cast hle, fun hbytes => ?_, ?_, fun hxy => ?_, ?_⟩
  · have hbytes' : 2 ^ 16 ≤ n := by exact_mod_cast hbytes
    have hsize : 3 ≤ mpiSize n := by
      have hmono := mpiSize_mono hbytes'
      rwa [show mpiSize (2 ^ 16) = 3 from
        mpiSize_eq (by omega) (by norm_num) (by norm_num)] at hmono
    have hunit := (Nat.le_div_iff_mul_le (by omega)).mpr (Nat.mul_comm _ _ ▸ compactUnit_le hsize)
    have hloss := sub_roundDown_lt n
    omega
  · have hround : mpiSize (roundDown n) ≤ 255 := (mpiSize_roundDown n).trans_le hn
    have hunit : compactUnit (roundDown n) = compactUnit n := by
      rw [compactUnit, compactUnit, mpiSize_roundDown]
    rw [getCompact_eq hround, getCompact_eq hn, compactWord, compactWord, hunit, mpiSize_roundDown,
      roundDown, Nat.mul_div_cancel _ (compactUnit_pos n)]
  · exact_mod_cast roundDown_mono (by exact_mod_cast hxy)
  · have hword := compactWord_lt n
    rw [getCompact_eq hn, Nat.testBit_eq_decide_div_mod_eq]
    refine decide_eq_false ?_
    omega

theorem compact_roundsDown_sample :
    getCompact (setCompact (getCompact 0x92340001)) = getCompact 0x92340001 := by
  have hmax : (0x92340001 : ℤ) < 2 ^ 2039 :=
    lt_of_lt_of_le (by norm_num : _ < (2 : ℤ) ^ 32) (pow_le_pow_right₀ (by norm_num) (by norm_num))
  exact (compact_roundsDown (by norm_num) le_rfl hmax (by positivity : (0 : ℤ) < 2 ^ 2039)).2.2.1

end Phoenixcoin.Analysis
