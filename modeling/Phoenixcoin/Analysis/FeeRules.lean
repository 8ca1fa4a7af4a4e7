import Phoenixcoin.Analysis.CreatedTransactions
import Phoenixcoin.Program.AmountTraces

/-!
# Fee rules

The minimal fee as a product: a plain fee of the size and of the dust outputs, and a multiplier that
grows as the block fills. Both grow with the size, and neither is greater for relays than for
blocks.
-/

set_option autoImplicit false

namespace Phoenixcoin.Analysis

open Lib Program GetMinFee_mode List

/-! ## The plain fee -/

def dustCount (tx : CTransaction) : ℕ := tx.vout.countP fun txout => txout.nValue < TX_DUST

def baseFee (mode : GetMinFee_mode) : ℤ :=
  if mode = GMF_RELAY then MIN_RELAY_TX_FEE else MIN_TX_FEE

def freeLimit (mode : GetMinFee_mode) : ℕ := if mode = GMF_SEND then 2000 else 10000

def plainFee (nBytes : ℕ) (fAllowFree : Bool) (mode : GetMinFee_mode) (tx : CTransaction) : ℤ :=
  (if fAllowFree ∧ nBytes < freeLimit mode then 0
    else min (((nBytes + 999) / 1000 : ℕ) * baseFee mode) 50000000) + baseFee mode * dustCount tx

def feeFactor (nBytes : ℕ) (mode : GetMinFee_mode) : ℕ :=
  if mode ≠ GMF_SEND ∧ 249000 ≤ nBytes then 500000 / (499000 - nBytes) else 1

/-- The minimal fee: the plain fee times its factor, up to `MAX_MONEY` for blocks and relays, and
`MAX_MONEY` where the block is full. -/
def feeOf (nBytes : ℕ) (fAllowFree : Bool) (mode : GetMinFee_mode) (tx : CTransaction) : ℤ :=
  if mode = GMF_SEND then plainFee nBytes fAllowFree mode tx
  else if 499000 ≤ nBytes then MAX_MONEY
  else min MAX_MONEY (plainFee nBytes fAllowFree mode tx * feeFactor nBytes mode)

section Rules

variable {tx : CTransaction} {s t nBytes : ℕ} {fAllowFree : Bool} {mode : GetMinFee_mode}

theorem baseFee_pos (mode : GetMinFee_mode) : 0 < baseFee mode := by
  cases mode <;> decide

theorem baseFee_le (mode : GetMinFee_mode) : baseFee mode ≤ 1000000 := by
  cases mode <;> decide

/-- An output takes nine bytes at least. -/
theorem dustCount_le (hsize : tx.getSerializeSize ≤ MAX_BLOCK_SIZE) : dustCount tx ≤ 111111 := by
  have hcount : dustCount tx ≤ tx.vout.length := countP_le_length
  have hnine : tx.vout.length * 9 ≤ (tx.vout.map CTxOut.getSerializeSize).sum := by
    rw [← length_map CTxOut.getSerializeSize, ← Nat.nsmul_eq_mul]
    apply card_nsmul_le_sum
    intro n hn
    obtain ⟨txout, -, rfl⟩ := List.mem_map.mp hn
    unfold CTxOut.getSerializeSize scriptSerializeSize getSizeOfCompactSize
    split_ifs <;> omega
  unfold CTransaction.getSerializeSize MAX_BLOCK_SIZE at hsize
  omega

theorem dustFee_nonneg (mode : GetMinFee_mode) (tx : CTransaction) :
    0 ≤ baseFee mode * dustCount tx := mul_nonneg (baseFee_pos mode).le (Int.natCast_nonneg _)

theorem plainFee_nonneg : 0 ≤ plainFee nBytes fAllowFree mode tx := by
  have hdust := dustFee_nonneg mode tx
  have hkb : 0 ≤ (((nBytes + 999) / 1000 : ℕ) : ℤ) * baseFee mode :=
    mul_nonneg (Int.natCast_nonneg _) (baseFee_pos mode).le
  unfold plainFee
  split_ifs <;> omega

theorem plainFee_le (hsize : tx.getSerializeSize ≤ MAX_BLOCK_SIZE) :
    plainFee nBytes fAllowFree mode tx ≤ 111161000000 := by
  have hdust : baseFee mode * dustCount tx ≤ 1000000 * 111111 :=
    mul_le_mul (baseFee_le mode) (by exact_mod_cast dustCount_le hsize) (Int.natCast_nonneg _)
      (by decide)
  unfold plainFee
  split_ifs <;> omega

theorem plainFee_mono (hst : s ≤ t) :
    plainFee s fAllowFree mode tx ≤ plainFee t fAllowFree mode tx := by
  have hkb : (((s + 999) / 1000 : ℕ) : ℤ) * baseFee mode ≤
      ((t + 999) / 1000 : ℕ) * baseFee mode := by
    apply mul_le_mul_of_nonneg_right _ (baseFee_pos mode).le
    exact_mod_cast Nat.div_le_div_right (Nat.add_le_add_right hst 999)
  have hpos : 0 ≤ (((s + 999) / 1000 : ℕ) : ℤ) * baseFee mode :=
    mul_nonneg (Int.natCast_nonneg _) (baseFee_pos mode).le
  unfold plainFee
  by_cases ht : fAllowFree = true ∧ t < freeLimit mode
  · rw [if_pos ht, if_pos ⟨ht.1, hst.trans_lt ht.2⟩]
  · split_ifs <;> omega

theorem plainFee_relay_le_block :
    plainFee nBytes fAllowFree GMF_RELAY tx ≤ plainFee nBytes fAllowFree GMF_BLOCK tx := by
  unfold plainFee freeLimit baseFee MIN_RELAY_TX_FEE MIN_TX_FEE
  simp only [reduceCtorEq, if_true, if_false]
  split_ifs <;> omega

/-! ## The multiplier -/

theorem feeFactor_pos (hbytes : nBytes < 499000) : 1 ≤ feeFactor nBytes mode := by
  unfold feeFactor
  split_ifs
  · rw [Nat.one_le_div_iff (by omega)]
    omega
  · exact le_rfl

theorem feeFactor_mono (hst : s ≤ t) (ht : t < 499000) : feeFactor s mode ≤ feeFactor t mode := by
  by_cases hs : mode ≠ GMF_SEND ∧ 249000 ≤ s
  · unfold feeFactor
    rw [if_pos hs, if_pos ⟨hs.1, hs.2.trans hst⟩]
    exact Nat.div_le_div_left (by omega) (by omega)
  · rw [show feeFactor s mode = 1 from if_neg hs]
    exact feeFactor_pos ht

/-! ## The fee -/

theorem GetMinFee_of_ne_send (hsend : mode ≠ GMF_SEND) (hsize : nBytes ≤ MAX_BLOCK_SIZE) :
    tx.GetMinFee nBytes fAllowFree mode =
      if 1000 + nBytes ≥ MAX_BLOCK_SIZE_GEN / 2 then
        if 1000 + nBytes ≥ MAX_BLOCK_SIZE_GEN then MAX_MONEY
        else
          if ¬ MoneyRange (plainFee nBytes fAllowFree mode tx *
            (MAX_BLOCK_SIZE_GEN / (MAX_BLOCK_SIZE_GEN - (1000 + nBytes)) : ℕ)) then MAX_MONEY
          else plainFee nBytes fAllowFree mode tx *
            (MAX_BLOCK_SIZE_GEN / (MAX_BLOCK_SIZE_GEN - (1000 + nBytes)) : ℕ)
      else plainFee nBytes fAllowFree mode tx := by
  have hbound : nBytes ≤ 1000000 := hsize
  have hkb : (nBytes + 999) % 2 ^ 32 = nBytes + 999 := Nat.mod_eq_of_lt (by omega)
  have hwrap : (1000 + nBytes) % 2 ^ 32 = 1000 + nBytes := Nat.mod_eq_of_lt (by omega)
  have hfree : (1000 + nBytes < 11000) = (nBytes < freeLimit mode) := by
    rw [freeLimit, if_neg hsend]
    exact propext (by omega)
  unfold CTransaction.GetMinFee plainFee baseFee dustCount
  dsimp only
  rw [foldl_dust]
  simp only [hsend, if_false, hwrap, hkb, hfree, ne_eq, not_false_eq_true, true_and]

theorem GetMinFee_eq_feeOf (hsize : nBytes ≤ MAX_BLOCK_SIZE) (htx : tx.getSerializeSize ≤ nBytes) :
    tx.GetMinFee nBytes fAllowFree mode = feeOf nBytes fAllowFree mode tx := by
  have hbound : nBytes ≤ 1000000 := hsize
  have hhalf : MAX_BLOCK_SIZE_GEN = 500000 := by decide
  have hmoney : MAX_MONEY = 1000000000000000 := by decide
  have hnonneg := @plainFee_nonneg tx nBytes fAllowFree mode
  have hplain := @plainFee_le tx nBytes fAllowFree mode (htx.trans hsize)
  by_cases hsend : mode = GMF_SEND
  · subst hsend
    have hkb : (nBytes + 999) % 2 ^ 32 = nBytes + 999 := Nat.mod_eq_of_lt (by omega)
    rw [GetMinFee_send, hkb]
    unfold feeOf plainFee dustCount freeLimit baseFee
    simp
  · rw [GetMinFee_of_ne_send hsend hsize, feeOf, if_neg hsend, hhalf]
    by_cases hfull : 499000 ≤ nBytes
    · rw [if_pos (by omega), if_pos (by omega), if_pos hfull]
    · by_cases hpart : 249000 ≤ nBytes
      · have hfactor : 500000 / (500000 - (1000 + nBytes)) = feeFactor nBytes mode := by
          rw [feeFactor, if_pos ⟨hsend, hpart⟩]
          congr 1
          omega
        have hfee : 0 ≤ plainFee nBytes fAllowFree mode tx * feeFactor nBytes mode :=
          mul_nonneg hnonneg (Int.natCast_nonneg _)
        rw [hfactor]
        unfold MoneyRange
        split_ifs <;> omega
      · have hfactor : feeFactor nBytes mode = 1 := if_neg fun h => hpart h.2
        rw [hfactor]
        omega

/-- A larger transaction pays no less. -/
theorem feeOf_mono (hst : s ≤ t) : feeOf s fAllowFree mode tx ≤ feeOf t fAllowFree mode tx := by
  have hplain := @plainFee_mono tx s t fAllowFree mode hst
  unfold feeOf
  by_cases hsend : mode = GMF_SEND
  · simpa only [if_pos hsend] using hplain
  · rw [if_neg hsend, if_neg hsend]
    by_cases ht : 499000 ≤ t
    · split_ifs
      · exact le_rfl
      · exact min_le_left ..
    · rw [if_neg ht, if_neg (by omega)]
      have hfactor : (feeFactor s mode : ℤ) ≤ feeFactor t mode := by
        exact_mod_cast feeFactor_mono hst (by omega)
      exact min_le_min_left _ (mul_le_mul hplain hfactor (Int.natCast_nonneg _) plainFee_nonneg)

theorem feeOf_relay_le_block :
    feeOf nBytes fAllowFree GMF_RELAY tx ≤ feeOf nBytes fAllowFree GMF_BLOCK tx := by
  have hfactor : feeFactor nBytes GMF_RELAY = feeFactor nBytes GMF_BLOCK := by
    simp [feeFactor]
  unfold feeOf
  simp only [reduceCtorEq, if_false, hfactor]
  split_ifs
  · exact le_rfl
  · exact min_le_min_left _
      (mul_le_mul_of_nonneg_right plainFee_relay_le_block (Int.natCast_nonneg _))

theorem feeOf_le_MAX_MONEY (hsend : mode ≠ GMF_SEND) :
    feeOf nBytes fAllowFree mode tx ≤ MAX_MONEY := by
  rw [feeOf, if_neg hsend]
  split_ifs
  · exact le_rfl
  · exact min_le_left ..

/-! ## The range of the numbers -/

def dustValue (mode : GetMinFee_mode) (txout : CTxOut) : Option ℤ :=
  some (if txout.nValue < TX_DUST then baseFee mode else 0)

theorem dustValue_nonneg (mode : GetMinFee_mode) (txout : CTxOut) (v : ℤ)
    (h : dustValue mode txout = some v) : 0 ≤ v := by
  cases h
  split_ifs
  · exact (baseFee_pos mode).le
  · exact le_rfl

theorem sum_valuesOf_dustValue (mode : GetMinFee_mode) (vout : List CTxOut) :
    (valuesOf (dustValue mode) vout).sum =
      baseFee mode * (vout.countP fun txout => txout.nValue < TX_DUST : ℕ) := by
  induction vout with
  | nil => simp [valuesOf]
  | cons txout vout ih =>
    rw [valuesOf, dustValue, Option.elim_some, sum_cons, ih, countP_cons]
    by_cases hdust : txout.nValue < TX_DUST
    · simp only [hdust, if_true, decide_true, Nat.cast_add, Nat.cast_one]
      ring
    · simp [hdust]

theorem mem_minFeeAmounts (hsize : nBytes ≤ MAX_BLOCK_SIZE) {n : ℤ}
    (hn : n ∈ tx.minFeeAmounts nBytes fAllowFree mode) :
    n = ((nBytes + 999) / 1000 : ℕ) * baseFee mode ∨
      (0 ≤ n ∧ n ≤ plainFee nBytes fAllowFree mode tx) ∨
      ∃ factor : ℕ, factor ≤ 500000 ∧ n = plainFee nBytes fAllowFree mode tx * factor := by
  have hbound : nBytes ≤ 1000000 := hsize
  have hkb : (nBytes + 999) % 2 ^ 32 = nBytes + 999 := Nat.mod_eq_of_lt (by omega)
  have hfree : (if mode = GMF_SEND then nBytes < 2000
      else (if mode = GMF_SEND then nBytes else (1000 + nBytes) % 2 ^ 32) < 11000) =
      (nBytes < freeLimit mode) := by
    unfold freeLimit
    split_ifs
    · rfl
    · exact propext (by omega)
  have hsum := sum_valuesOf_dustValue mode tx.vout
  rw [CTransaction.minFeeAmounts, hkb, cons_append, mem_cons, mem_append] at hn
  simp only [hfree] at hn
  rcases hn with hn | hn | hn
  · exact Or.inl hn
  · right; left
    have hstart : 0 ≤ if fAllowFree = true ∧ nBytes < freeLimit mode then 0
        else min (((nBytes + 999) / 1000 : ℕ) * baseFee mode) 50000000 := by
      have hpos := mul_nonneg (Int.natCast_nonneg ((nBytes + 999) / 1000)) (baseFee_pos mode).le
      split_ifs <;> omega
    constructor
    · exact hstart.trans (le_of_mem_runningSums (dustValue_nonneg mode) hn)
    · have hlt := (runningSums_lt_iff tx.vout
        (Int.lt_add_one_of_le (le_add_of_nonneg_right (dustFee_nonneg mode tx)))
        (dustValue_nonneg mode)).mpr ((add_le_add_right hsum.le _).trans_lt (Int.lt_succ _)) n hn
      exact Int.lt_add_one_iff.mp hlt
  · right; right
    rw [mem_ite_nil_right, mem_singleton] at hn
    have hlimit : MAX_BLOCK_SIZE_GEN ≤ 500000 := by decide
    refine ⟨MAX_BLOCK_SIZE_GEN / (MAX_BLOCK_SIZE_GEN -
      if mode = GMF_SEND then nBytes else (1000 + nBytes) % 2 ^ 32),
      (Nat.div_le_self ..).trans hlimit, ?_⟩
    rw [hn.2, plainFee, dustCount, ← hsum]
    rfl

/-- No number of the calculation leaves the range of `int64`. -/
theorem minFeeAmounts_fit (hsize : nBytes ≤ MAX_BLOCK_SIZE) (htx : tx.getSerializeSize ≤ nBytes) :
    ∀ n ∈ tx.minFeeAmounts nBytes fAllowFree mode, FitsInt64 n := by
  intro n hn
  have hplain := @plainFee_le tx nBytes fAllowFree mode (htx.trans hsize)
  have hnonneg := @plainFee_nonneg tx nBytes fAllowFree mode
  unfold FitsInt64
  rcases mem_minFeeAmounts hsize hn with rfl | hn | ⟨factor, hfactor, rfl⟩
  · have hpos := mul_nonneg (Int.natCast_nonneg ((nBytes + 999) / 1000)) (baseFee_pos mode).le
    have hbound : nBytes ≤ 1000000 := hsize
    have hle : (((nBytes + 999) / 1000 : ℕ) : ℤ) * baseFee mode ≤ 1000 * 1000000 :=
      mul_le_mul (by omega) (baseFee_le mode) (baseFee_pos mode).le (by decide)
    omega
  · omega
  · have hpos := mul_nonneg hnonneg (Int.natCast_nonneg factor)
    have hle : plainFee nBytes fAllowFree mode tx * factor ≤ 111161000000 * 500000 :=
      mul_le_mul hplain (by exact_mod_cast hfactor) (Int.natCast_nonneg _) (by decide)
    omega

/-! ## The rules -/

/-- Up to the largest size that may be asked for, a larger size costs no less, relays ask no more
than blocks and all numbers fit. Below the limit of the wallet the fee of a sent transaction is
enough for the relays. -/
theorem getMinFee_rules (tx : CTransaction) :
    (∀ s t, tx.getSerializeSize ≤ s → s ≤ t → t ≤ MAX_BLOCK_SIZE → ∀ f,
      (∀ mode, tx.GetMinFee s f mode ≤ tx.GetMinFee t f mode) ∧
        tx.GetMinFee s f GMF_RELAY ≤ tx.GetMinFee s f GMF_BLOCK ∧
        (∀ mode, ∀ n ∈ tx.minFeeAmounts s f mode, FitsInt64 n) ∧
        ∀ mode, mode ≠ GMF_SEND → tx.GetMinFee s f mode ≤ MAX_MONEY) ∧
      ∀ s < MAX_BLOCK_SIZE_GEN / 5, ∀ f,
        tx.GetMinFee s true GMF_RELAY ≤ tx.GetMinFee s f GMF_SEND := by
  constructor
  · intro s t hs hst ht f
    have hsize := hst.trans ht
    have heq (mode : GetMinFee_mode) := @GetMinFee_eq_feeOf tx s f mode hsize hs
    refine ⟨fun mode => ?_, ?_, fun mode => minFeeAmounts_fit hsize hs, fun mode hsend => ?_⟩
    · rw [heq, GetMinFee_eq_feeOf ht (hs.trans hst)]
      exact feeOf_mono hst
    · rw [heq, heq]
      exact feeOf_relay_le_block
    · rw [heq]
      exact feeOf_le_MAX_MONEY hsend
  · intro s hs f
    exact GetMinFee_relay_le_send tx f hs

end Rules

/-- An output that is dust, in a block that has little room left. -/
theorem getMinFee_rules_dust :
    (CTransaction.mk 1 [] [⟨1000, [0x51]⟩] 0).GetMinFee 20 true GMF_SEND ≤
      (CTransaction.mk 1 [] [⟨1000, [0x51]⟩] 0).GetMinFee 499100 true GMF_SEND := by
  apply ((getMinFee_rules _).1 20 499100 _ _ _ true).1 <;> decide

end Phoenixcoin.Analysis
