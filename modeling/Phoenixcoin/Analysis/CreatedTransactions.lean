import Mathlib.Data.Finset.Sort
import Mathlib.Data.Prod.Lex
import Mathlib.Tactic.Ring
import Phoenixcoin.Analysis.SpendableCoins
import Phoenixcoin.Program.CreateTransaction

/-!
# Created transactions balance

What `CreateTransaction` returns spends the coins that were selected on the requested outputs, on
at most one change output and on the fee, and the fee is at least what the final size asks for. A
round of the fee loop that does not end raises the fee, which has a bound, so the loop ends.
-/

set_option autoImplicit false

namespace Phoenixcoin.Analysis

open Program GetMinFee_mode List Option

/-! ## Minimal fees -/

theorem foldl_dust (nBaseFee nMinFee : ℤ) (vout : List CTxOut) : vout.foldl (fun nMinFee txout =>
        if txout.nValue < TX_DUST then nMinFee + nBaseFee else nMinFee) nMinFee =
      nMinFee + nBaseFee * vout.countP fun txout => txout.nValue < TX_DUST := by
  induction vout generalizing nMinFee with
  | nil => simp
  | cons txout vout ih =>
    rw [foldl_cons, ih, countP_cons]
    by_cases hdust : txout.nValue < TX_DUST
    · simp only [hdust, if_true, decide_true, Nat.cast_add, Nat.cast_one]
      ring
    · simp [hdust]

variable (tx : CTransaction)

theorem GetMinFee_send (nBytes : ℕ) (fAllowFree : Bool) :
    tx.GetMinFee nBytes fAllowFree GMF_SEND = (if fAllowFree = true ∧ nBytes < 2000 then 0
        else min (((nBytes + 999) % 2 ^ 32 / 1000 : ℕ) * MIN_TX_FEE) 50000000) +
        MIN_TX_FEE * tx.vout.countP fun txout => txout.nValue < TX_DUST := by
  unfold CTransaction.GetMinFee
  dsimp only
  rw [foldl_dust]
  simp only [reduceCtorEq, if_false, if_true, ne_eq, not_true_eq_false, false_and]

variable {nBytes i : ℕ} {nValue : ℤ}

/-- Up to the size of a created transaction no block is close to full. -/
theorem GetMinFee_relay (fAllowFree : Bool) (hsize : nBytes < 100000) :
    tx.GetMinFee nBytes fAllowFree GMF_RELAY = (if fAllowFree = true ∧ nBytes < 10000 then 0
        else min (((nBytes + 999) % 2 ^ 32 / 1000 : ℕ) * MIN_RELAY_TX_FEE) 50000000) +
        MIN_RELAY_TX_FEE * tx.vout.countP fun txout => txout.nValue < TX_DUST := by
  have hwrap : (1000 + nBytes) % 2 ^ 32 = 1000 + nBytes := Nat.mod_eq_of_lt (by omega)
  have hhalf : ¬ 1000 + nBytes ≥ MAX_BLOCK_SIZE_GEN / 2 := by
    have hvalue : MAX_BLOCK_SIZE_GEN / 2 = 250000 := by decide
    omega
  have hfree : (1000 + nBytes < 11000) = (nBytes < 10000) := propext (by omega)
  unfold CTransaction.GetMinFee
  dsimp only
  rw [foldl_dust]
  simp only [reduceCtorEq, if_false, if_true, hwrap, hhalf, hfree, and_false]

theorem GetMinFee_send_le (nBytes : ℕ) (fAllowFree : Bool) :
    tx.GetMinFee nBytes fAllowFree GMF_SEND ≤ 50000000 + MIN_TX_FEE * tx.vout.length := by
  have hdust : ((tx.vout.countP fun txout => txout.nValue < TX_DUST : ℕ) : ℤ) ≤ tx.vout.length := by
    exact_mod_cast countP_le_length
  have hpos : (0 : ℤ) ≤ MIN_TX_FEE := by decide
  have hsum := mul_le_mul_of_nonneg_left hdust hpos
  rw [GetMinFee_send]
  split
  · omega
  · omega

theorem GetMinFee_relay_le_send (fAllowFree : Bool) (hsize : nBytes < 100000) :
    tx.GetMinFee nBytes true GMF_RELAY ≤ tx.GetMinFee nBytes fAllowFree GMF_SEND := by
  rw [GetMinFee_send, GetMinFee_relay tx true hsize]
  unfold MIN_TX_FEE MIN_RELAY_TX_FEE
  simp only [true_and]
  split
  · split
    · omega
    · omega
  · split
    · omega
    · omega

/-! ## The parts of a round -/

section Round

variable {env : CreateEnv} {c : RoundChoices}

variable {coins : List COutPoint}

theorem signInputs_spec {SignSignature : CTransaction → ℕ → Option CScript} {nIn : ℕ}
    {tx tx' : CTransaction} (h : signInputs SignSignature nIn coins tx = .ok tx') :
    tx'.vout = tx.vout ∧ tx'.vin.map CTxIn.prevout = tx.vin.map CTxIn.prevout := by
  induction coins generalizing nIn tx with
  | nil =>
    cases h
    exact ⟨rfl, rfl⟩
  | cons coin coins ih =>
    unfold signInputs at h
    split at h
    · cases h
    · next scriptSig _ =>
      obtain ⟨hvout, hvin⟩ := ih h
      refine ⟨hvout, hvin.trans ?_⟩
      apply ext_getElem?
      intro i
      rw [getElem?_map, getElem?_map, getElem?_modify]
      cases tx.vin[i]? with
      | none => rfl
      | some txin =>
        by_cases heq : nIn = i
        · simp [heq]
        · simp [heq]

def feeBound (env : CreateEnv) (nOutputs : ℕ) : ℤ :=
  100 * |env.nTransactionFee| + 50000000 + MIN_TX_FEE * nOutputs

theorem payFee_le (nTransactionFee : ℤ) {nBytes : ℕ} (h : nBytes < 100000) :
    nTransactionFee * (1 + (nBytes / 1000 : ℕ)) ≤ 100 * |nTransactionFee| := by
  have hkb : (1 + (nBytes / 1000 : ℕ) : ℤ) ≤ 100 := by omega
  calc nTransactionFee * (1 + (nBytes / 1000 : ℕ))
      ≤ |nTransactionFee| * (1 + (nBytes / 1000 : ℕ)) :=
        mul_le_mul_of_nonneg_right (le_abs_self _) (by omega)
    _ ≤ |nTransactionFee| * 100 := mul_le_mul_of_nonneg_left hkb (abs_nonneg _)
    _ = 100 * |nTransactionFee| := mul_comm _ _

/-- A transaction that passed the checks at the end of a round. -/
structure Paid (env : CreateEnv) (c : RoundChoices) (coins : List COutPoint)
    (vout : List CTxOut) (nFeeRet : ℤ) (wtxNew : CTransaction) : Prop where
  vin : wtxNew.vin.map CTxIn.prevout = coins
  vout : wtxNew.vout = vout
  size : wtxNew.getSerializeSize < MAX_BLOCK_SIZE_GEN / 5
  payFee : env.nTransactionFee * (1 + (wtxNew.getSerializeSize / 1000 : ℕ)) ≤ nFeeRet
  minFee : wtxNew.GetMinFee wtxNew.getSerializeSize
    (c.AllowFree coins wtxNew.getSerializeSize) GMF_SEND ≤ nFeeRet

theorem finishRound_spec {vout : List CTxOut} {vfChange : List Bool} {nFeeRet : ℤ}
    {result : FeeRound} (h : finishRound env c coins vout vfChange nFeeRet = some result) :
    match result with
    | .again nFeeNext => nFeeRet < nFeeNext ∧ nFeeNext ≤ feeBound env vout.length
    | .finished (.created wtxNew vfChange' nFeeRet') =>
      vfChange' = vfChange ∧ nFeeRet' = nFeeRet ∧ Paid env c coins vout nFeeRet wtxNew
    | .finished _ => True := by
  unfold finishRound at h
  dsimp only at h
  split at h
  · cases h
    trivial
  · next wtxNew hsigned =>
    obtain ⟨hvout, hvin⟩ := signInputs_spec hsigned
    dsimp only at hvout hvin
    have hcoins : wtxNew.vin.map CTxIn.prevout = coins := by
      rw [hvin, List.map_map]
      exact List.map_id coins
    split at h
    · cases h
      trivial
    · next hsize =>
      have hbytes : wtxNew.getSerializeSize < 100000 := not_le.mp hsize
      obtain ⟨nPayFee, hpay, hround⟩ := map_eq_some_iff.mp h
      have hpayeq := int64_eq_some hpay
      split at hround
      · next hless =>
        subst hround
        refine ⟨hless, ?_⟩
        have hpayle := payFee_le env.nTransactionFee hbytes
        have hminle := GetMinFee_send_le wtxNew wtxNew.getSerializeSize
          (c.AllowFree coins wtxNew.getSerializeSize)
        have hpos : (0 : ℤ) ≤ MIN_TX_FEE * vout.length :=
          mul_nonneg (by decide) (Int.natCast_nonneg _)
        have habs := abs_nonneg env.nTransactionFee
        rw [hvout] at hminle
        unfold feeBound
        exact max_le (by omega) (by omega)
      · next henough =>
        subst hround
        rw [not_lt] at henough
        refine ⟨rfl, rfl, hcoins, hvout, not_le.mp hsize, ?_, (le_max_right _ _).trans henough⟩
        rw [← hpayeq]
        exact (le_max_left _ _).trans henough

end Round

/-! ## A round -/

theorem selectCoins_sum {E : CoinEnv} {mapWallet : CoinTable} {nTargetValue : ℤ}
    {coinControl : Option CCoinControl} {tier₁ tier₂ tier₃ : TierChoices} {ret : CoinsRet}
    (h : SelectCoins E mapWallet nTargetValue coinControl tier₁ tier₂ tier₃ ⟨∅, 0⟩ = (true, ret)) :
    (∀ coin ∈ ret.setCoinsRet,
        ∃ output ∈ AvailableCoins E mapWallet true coinControl, output.outpoint = coin) ∧
      ret.nValueRet = ∑ coin ∈ ret.setCoinsRet, coinValue mapWallet coin ∧
      nTargetValue ≤ ret.nValueRet := by
  by_cases hcontrol : ∃ control ∈ coinControl, control.HasSelected
  · obtain ⟨control, rfl, hselected⟩ := hcontrol
    rw [selectCoins_control control hselected, Prod.mk.injEq, decide_eq_true_eq] at h
    obtain ⟨hreached, rfl⟩ := h
    rw [addAll_eq, Finset.empty_union, zero_add]
    dsimp only
    refine ⟨?_, ?_, ?_⟩
    · intro coin hmem
      rw [List.mem_toFinset, List.map_map] at hmem
      exact List.mem_map.mp hmem
    · refine (sum_coinValue ?_ ?_).symm
      · rw [List.map_map]
        exact nodup_AvailableCoins
      · intro coin hmem
        obtain ⟨output, hout, rfl⟩ := List.mem_map.mp hmem
        exact coinValue_of_available hout
    · rw [List.map_map]
      exact hreached
  · have hunselected : ∀ control ∈ coinControl, WatchOnlySelected E mapWallet control →
        selectedTotal E mapWallet control < nTargetValue := by
      intro control hmem hwatch
      obtain ⟨outpoint, hout, -⟩ := hwatch
      exact absurd ⟨control, hmem, Finset.card_pos.mpr ⟨outpoint, hout⟩⟩ hcontrol
    have hselected := (selectCoins_spendable_iff tier₁ tier₂ tier₃).mpr hunselected
      (congrArg Prod.fst h)
    rw [h] at hselected
    refine ⟨?_, hselected.total, hselected.reached⟩
    intro coin hmem
    obtain ⟨output, hout, heq, -⟩ := hselected.spendable coin hmem
    exact ⟨output, hout, heq⟩

/-- The outputs are those requested, with at most one for the change, which is marked. -/
def OutputsFor (vecSend : List (CScript × ℤ)) (vout : List CTxOut) (vfChange : List Bool) : Prop :=
  vout = payees vecSend ∧ vfChange = List.replicate vecSend.length false ∨
    ∃ nChangeIndex change, nChangeIndex < vecSend.length ∧ TX_DUST ≤ change.nValue ∧
      vout = (payees vecSend).insertIdx nChangeIndex change ∧
      vfChange = (List.replicate (vecSend.length + 1) false).set nChangeIndex true

theorem length_payees (vecSend : List (CScript × ℤ)) : (payees vecSend).length = vecSend.length :=
  length_map _

theorem sum_insertChange {vout : List CTxOut} (change : CTxOut) (h : i ≤ vout.length) :
    ((vout.insertIdx i change).map CTxOut.nValue).sum =
      change.nValue + (vout.map CTxOut.nValue).sum := by
  rw [((perm_insertIdx change vout h).map CTxOut.nValue).sum_eq, map_cons, sum_cons]

structure Settles (env : CreateEnv) (c : RoundChoices) (vecSend : List (CScript × ℤ))
    (coins : List COutPoint) (nValueIn : ℤ) (wtxNew : CTransaction) (vfChange : List Bool)
    (nFeeRet : ℤ) : Prop where
  paid : Paid env c coins wtxNew.vout nFeeRet wtxNew
  outputs : OutputsFor vecSend wtxNew.vout vfChange
  balance : nValueIn = (wtxNew.vout.map CTxOut.nValue).sum + nFeeRet

section Rounds

variable {env : CreateEnv} {c : RoundChoices} {vecSend : List (CScript × ℤ)}

/-- How a round ends that selected coins of the value `nValueIn`. -/
def RoundEnds (env : CreateEnv) (c : RoundChoices) (vecSend : List (CScript × ℤ))
    (coins : List COutPoint) (nValueIn nFeeRet : ℤ) : FeeRound → Prop
  | .again nFeeNext => nFeeRet < nFeeNext ∧ nFeeNext ≤ feeBound env (vecSend.length + 1)
  | .finished (.created wtxNew vfChange nFeeRet) =>
    Settles env c vecSend coins nValueIn wtxNew vfChange nFeeRet
  | .finished _ => True

theorem feeBound_mono {m n : ℕ} (h : m ≤ n) : feeBound env m ≤ feeBound env n := by
  have hle : MIN_TX_FEE * (m : ℤ) ≤ MIN_TX_FEE * n :=
    mul_le_mul_of_nonneg_left (by exact_mod_cast h) (by decide)
  unfold feeBound
  omega

variable {nFeeRet : ℤ} {result : FeeRound}

variable {coins : List COutPoint} {nValueIn : ℤ}

theorem roundEnds_of_finishRound {vout : List CTxOut} {vfChange : List Bool} {nFeeStart : ℤ}
    (hfee : nFeeStart ≤ nFeeRet) (hlength : vout.length ≤ vecSend.length + 1)
    (houtputs : OutputsFor vecSend vout vfChange)
    (hbalance : nValueIn = (vout.map CTxOut.nValue).sum + nFeeRet)
    (h : finishRound env c coins vout vfChange nFeeRet = some result) :
    RoundEnds env c vecSend coins nValueIn nFeeStart result := by
  have hspec := finishRound_spec h
  cases result with
  | again nFeeNext =>
    exact ⟨hfee.trans_lt hspec.1, hspec.2.trans (feeBound_mono hlength)⟩
  | finished created =>
    cases created with
    | undefined => trivial
    | failed strFailReason => trivial
    | created wtxNew vfChange' nFeeRet' =>
      obtain ⟨rfl, rfl, hpaid⟩ := hspec
      have hvout := hpaid.vout
      subst hvout
      exact ⟨hpaid, houtputs, hbalance⟩

theorem splitChange_spec {nChange : ℤ} (hsend : vecSend ≠ []) (hchange : 0 ≤ nChange)
    (hbalance : nValueIn = ((payees vecSend).map CTxOut.nValue).sum + nFeeRet + nChange)
    (h : splitChange env c vecSend coins nChange nFeeRet = some result) :
    RoundEnds env c vecSend coins nValueIn nFeeRet result := by
  have hlength := length_payees vecSend
  unfold splitChange at h
  by_cases hdust : nChange ≥ TX_DUST
  · rw [if_pos hdust] at h
    split at h
    · cases h
      trivial
    · next scriptChange _ =>
      have hindex : c.GetRandInt (payees vecSend).length < vecSend.length := by
        rw [hlength]
        exact c.GetRandInt_lt _ (length_pos_of_ne_nil hsend)
      refine roundEnds_of_finishRound le_rfl ?_ ?_ ?_ h
      · rw [length_insertIdx_of_le_length (by omega)]
        omega
      · exact Or.inr ⟨_, _, hindex, hdust, rfl, by rw [hlength]⟩
      · rw [sum_insertChange _ (by omega), hbalance]
        ring
  · rw [if_neg hdust] at h
    obtain ⟨nFee, hnFee, h⟩ := bind_eq_some_iff.mp h
    have heq := int64_eq_some hnFee
    subst heq
    refine roundEnds_of_finishRound (by omega) (by omega) ?_ ?_ h
    · exact Or.inl ⟨rfl, by rw [hlength]⟩
    · rw [hbalance]
      ring

/-- What the inputs of a created transaction are. -/
structure SpendsSelected (env : CreateEnv) (coins : List COutPoint) (nValueIn : ℤ) : Prop where
  nodup : coins.Nodup
  available : ∀ coin ∈ coins,
    ∃ output ∈ AvailableCoins env.coins env.mapWallet true env.coinControl, output.outpoint = coin
  total : nValueIn = (coins.map (coinValue env.mapWallet)).sum

theorem createRound_spec {nValue : ℤ} (hsend : vecSend ≠ [])
    (hvalue : nValue = ((payees vecSend).map CTxOut.nValue).sum)
    (h : createRound env c vecSend nValue nFeeRet = some result) :
    ∃ coins nValueIn, SpendsSelected env coins nValueIn ∧
      RoundEnds env c vecSend coins nValueIn nFeeRet result := by
  obtain ⟨nTotalValue, htotal, h⟩ := bind_eq_some_iff.mp h
  have htarget := int64_eq_some htotal
  cases hselect : SelectCoins env.coins env.mapWallet nTotalValue env.coinControl c.tier₁ c.tier₂
      c.tier₃ ⟨∅, 0⟩ with
  | mk fSelected ret =>
    rw [hselect] at h
    cases fSelected with
    | false =>
      cases h
      have hnone : SpendsSelected env [] 0 :=
        ⟨nodup_nil, fun coin hmem => absurd hmem not_mem_nil, rfl⟩
      exact ⟨[], 0, hnone, trivial⟩
    | true =>
      obtain ⟨havailable, hsum, hreached⟩ := selectCoins_sum hselect
      obtain ⟨nRest, hrest, h⟩ := bind_eq_some_iff.mp h
      obtain ⟨nChange, hnChange, h⟩ := bind_eq_some_iff.mp h
      have hresteq := int64_eq_some hrest
      have hchangeeq := int64_eq_some hnChange
      refine ⟨c.order ret.setCoinsRet, ret.nValueRet, ⟨c.nodup_order _, ?_, ?_⟩, ?_⟩
      · intro coin hmem
        rw [← List.mem_toFinset, c.toFinset_order] at hmem
        exact havailable coin hmem
      · rw [hsum, ← sum_toFinset _ (c.nodup_order _), c.toFinset_order]
      · refine splitChange_spec hsend (by omega) ?_ h
        omega

end Rounds

/-! ## The loop -/

variable {vecSend : List (CScript × ℤ)}

theorem sumAmounts_eq_ok {nSum : ℤ} (h : sumAmounts nValue vecSend = .ok nSum) :
    nSum = nValue + ((payees vecSend).map CTxOut.nValue).sum := by
  induction vecSend generalizing nValue with
  | nil =>
    cases h
    simp [payees]
  | cons s vecSend ih =>
    unfold sumAmounts at h
    split at h
    · cases h
    · split at h
      · cases h
      · next nNext hnext =>
        have heq := int64_eq_some hnext
        have hcons : payees (s :: vecSend) = ⟨s.2, s.1⟩ :: payees vecSend := rfl
        rw [ih h, heq, hcons, map_cons, sum_cons]
        ring

theorem sumAmounts_eq_error {result : CreateResult} (h : sumAmounts nValue vecSend = .error result)
    :
    result = .undefined ∨ result = .failed .invalidOutputAmount := by
  induction vecSend generalizing nValue with
  | nil => cases h
  | cons s vecSend ih =>
    unfold sumAmounts at h
    split at h
    · cases h
      exact Or.inr rfl
    · split at h
      · cases h
        exact Or.inl rfl
      · exact ih h

section Loop

variable {env : CreateEnv} {choices : ℕ → RoundChoices} {vecSend : List (CScript × ℤ)} {nValue : ℤ}

theorem feeLoop_ends (hsend : vecSend ≠ [])
    (hvalue : nValue = ((payees vecSend).map CTxOut.nValue).sum) (fuel i : ℕ) (nFeeRet : ℤ)
    (hfuel : (feeBound env (vecSend.length + 1) - nFeeRet).toNat < fuel) :
    (feeLoop env choices vecSend nValue fuel i nFeeRet).isSome := by
  induction fuel generalizing i nFeeRet with
  | zero => omega
  | succ fuel ih =>
    unfold feeLoop
    cases hround : createRound env (choices i) vecSend nValue nFeeRet with
    | none => rfl
    | some result =>
      cases result with
      | finished result => rfl
      | again nFeeNext =>
        obtain ⟨coins, nValueIn, -, hraised, hbound⟩ := createRound_spec hsend hvalue hround
        apply ih
        omega

theorem feeLoop_created {fuel i : ℕ} {nFeeStart : ℤ} {result : CreateResult}
    (h : feeLoop env choices vecSend nValue fuel i nFeeStart = some result)
    (hdefined : result ≠ .undefined) :
    ∃ j nFeeRet, createRound env (choices j) vecSend nValue nFeeRet = some (.finished result) := by
  induction fuel generalizing i nFeeStart with
  | zero => cases h
  | succ fuel ih =>
    unfold feeLoop at h
    split at h
    · cases h
      exact absurd rfl hdefined
    · next hround =>
      cases h
      exact ⟨i, nFeeStart, hround⟩
    · exact ih h

end Loop

/-- A created transaction spends coins that are available, each once, on the requested outputs, at
most one change output and the fee, which reaches what its size asks for. -/
structure Balanced (env : CreateEnv) (choices : ℕ → RoundChoices) (vecSend : List (CScript × ℤ))
    (wtxNew : CTransaction) (vfChange : List Bool) (nFeeRet : ℤ) : Prop where
  nodup : (wtxNew.vin.map CTxIn.prevout).Nodup
  available : ∀ txin ∈ wtxNew.vin,
    ∃ output ∈ AvailableCoins env.coins env.mapWallet true env.coinControl,
      output.outpoint = txin.prevout
  balance : (wtxNew.vin.map fun txin => coinValue env.mapWallet txin.prevout).sum =
    (wtxNew.vout.map CTxOut.nValue).sum + nFeeRet
  outputs : OutputsFor vecSend wtxNew.vout vfChange
  payFee : env.nTransactionFee * (1 + (wtxNew.getSerializeSize / 1000 : ℕ)) ≤ nFeeRet
  minFee : ∃ i, wtxNew.GetMinFee wtxNew.getSerializeSize
    ((choices i).AllowFree (wtxNew.vin.map CTxIn.prevout) wtxNew.getSerializeSize) GMF_SEND ≤
      nFeeRet
  relayFee : wtxNew.GetMinFee wtxNew.getSerializeSize true GMF_RELAY ≤ nFeeRet

theorem Settles.balanced {env : CreateEnv} {choices : ℕ → RoundChoices} {coins : List COutPoint}
    {nValueIn nFeeRet : ℤ} {wtxNew : CTransaction} {vfChange : List Bool}
    (hselected : SpendsSelected env coins nValueIn)
    (h : Settles env (choices i) vecSend coins nValueIn wtxNew vfChange nFeeRet) :
    Balanced env choices vecSend wtxNew vfChange nFeeRet := by
  have hvin := h.paid.vin
  subst hvin
  refine ⟨hselected.nodup, ?_, ?_, h.outputs, h.paid.payFee, ⟨i, h.paid.minFee⟩, ?_⟩
  · intro txin hmem
    exact hselected.available _ (List.mem_map_of_mem hmem)
  · rw [← h.balance, hselected.total, List.map_map]
    rfl
  · exact (GetMinFee_relay_le_send wtxNew _ h.paid.size).trans h.paid.minFee

theorem createTransaction_cases (env : CreateEnv) (choices : ℕ → RoundChoices)
    (vecSend : List (CScript × ℤ)) :
    (∃ result, (∀ wtxNew vfChange nFeeRet, result ≠ .created wtxNew vfChange nFeeRet) ∧
        ∀ fuel, CreateTransaction env choices fuel vecSend = some result) ∨
      ∃ nValue, vecSend ≠ [] ∧ nValue = ((payees vecSend).map CTxOut.nValue).sum ∧
        ∀ fuel, CreateTransaction env choices fuel vecSend =
          feeLoop env choices vecSend nValue fuel 0 env.nTransactionFee := by
  unfold CreateTransaction
  cases hsum : sumAmounts 0 vecSend with
  | error result =>
    refine Or.inl ⟨result, ?_, fun fuel => rfl⟩
    intro wtxNew vfChange nFeeRet hcreated
    rcases sumAmounts_eq_error hsum with hresult | hresult
    · rw [hresult] at hcreated
      cases hcreated
    · rw [hresult] at hcreated
      cases hcreated
  | ok nValue =>
    by_cases hsend : vecSend = []
    · refine Or.inl ⟨.failed .noOutputs, ?_, fun fuel => if_pos hsend⟩
      intro wtxNew vfChange nFeeRet hcreated
      cases hcreated
    · by_cases hneg : nValue < 0
      · refine Or.inl ⟨.failed .invalidOutputAmount, ?_,
          fun fuel => (if_neg hsend).trans (if_pos hneg)⟩
        intro wtxNew vfChange nFeeRet hcreated
        cases hcreated
      · refine Or.inr ⟨nValue, hsend, ?_, fun fuel => ?_⟩
        · rw [sumAmounts_eq_ok hsum, zero_add]
        · exact (if_neg hsend).trans (if_neg hneg)

/-- The fee loop ends, and a transaction that `CreateTransaction` returns is balanced. -/
theorem createTransaction_balanced (env : CreateEnv) (choices : ℕ → RoundChoices)
    (vecSend : List (CScript × ℤ)) :
    (∃ enough, ∀ fuel ≥ enough, (CreateTransaction env choices fuel vecSend).isSome) ∧
      ∀ fuel wtxNew vfChange nFeeRet,
        CreateTransaction env choices fuel vecSend = some (.created wtxNew vfChange nFeeRet) →
          Balanced env choices vecSend wtxNew vfChange nFeeRet := by
  rcases createTransaction_cases env choices vecSend with
    ⟨result, hnot, hresult⟩ | ⟨nValue, hsend, hvalue, hloop⟩
  · constructor
    · refine ⟨0, fun fuel _ => ?_⟩
      rw [hresult]
      rfl
    · intro fuel wtxNew vfChange nFeeRet hcreated
      rw [hresult] at hcreated
      exact absurd (Option.some.inj hcreated) (hnot wtxNew vfChange nFeeRet)
  · constructor
    · refine ⟨(feeBound env (vecSend.length + 1) - env.nTransactionFee).toNat + 1, ?_⟩
      intro fuel hfuel
      rw [hloop]
      exact feeLoop_ends hsend hvalue fuel 0 env.nTransactionFee (by omega)
    · intro fuel wtxNew vfChange nFeeRet hcreated
      rw [hloop] at hcreated
      obtain ⟨i, nFeeStart, hround⟩ := feeLoop_created hcreated (fun hnot => by cases hnot)
      obtain ⟨coins, nValueIn, hselected, hsettles⟩ := createRound_spec hsend hvalue hround
      exact Settles.balanced hselected hsettles

namespace PaymentExample

def before (coin coin' : COutPoint) : Prop :=
  toLex (coin.hash, coin.n) ≤ toLex (coin'.hash, coin'.n)

instance : DecidableRel before := fun _ _ => inferInstanceAs (Decidable (toLex _ ≤ toLex _))

instance : IsTrans COutPoint before := ⟨fun _ _ _ h h' => le_trans h h'⟩

instance : Std.Antisymm before := ⟨fun coin coin' h h' => by
  have heq := congrArg ofLex (le_antisymm h h')
  rw [ofLex_toLex, ofLex_toLex, Prod.mk.injEq] at heq
  cases coin
  cases coin'
  cases heq.1
  cases heq.2
  rfl⟩

instance : Std.Total before := ⟨fun _ _ => le_total _ _⟩

/-- Every input gets a signature of the size of an ordinary one. -/
def choices (_ : ℕ) : RoundChoices where
  tier₁ := CoinExample.inOrder
  tier₂ := CoinExample.inOrder
  tier₃ := CoinExample.inOrder
  order setCoins := setCoins.sort before
  nodup_order setCoins := Finset.sort_nodup setCoins before
  toFinset_order setCoins := Finset.sort_toFinset setCoins before
  reservedKey := [0x52]
  unusedHybridKey := none
  GetRandInt _ := 0
  GetRandInt_lt _ h := h
  SignSignature _ _ := some (List.replicate 106 0)
  AllowFree _ _ := false

def wallet : CreateEnv where
  coins := { CoinExample.watchingEnv with IsMine := fun _ => .MINE_SPENDABLE }
  mapWallet := Finmap.singleton 1 (.ofTransaction { vin := [], vout := [⟨5000000000, [0x51]⟩] })
  nTransactionFee := 0
  coinControl := none
  changeDest := none

/-- A payment of 10 PXC. The first round without a fee does not suffice. -/
def payment : CTransaction where
  vin := [⟨⟨1, 0⟩, List.replicate 106 0, uintMax⟩]
  vout := [⟨3999000000, [0x52]⟩, ⟨1000000000, [0x53]⟩]

theorem created : CreateTransaction wallet choices 5 [([0x53], 1000000000)] =
    some (.created payment [true, false] 1000000) := by
  decide +kernel

end PaymentExample

open PaymentExample in
theorem createTransaction_payment :
    Balanced wallet choices [([0x53], 1000000000)] payment [true, false] 1000000 :=
  (createTransaction_balanced wallet choices _).2 5 payment _ _ created

end Phoenixcoin.Analysis
