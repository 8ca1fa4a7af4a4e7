import Phoenixcoin.Analysis.CreatedTransactions

/-!
# Locked coins

Nothing between `AvailableCoins` and the inputs of a transaction asks which coins are locked. A
locked coin is left alone exactly when it is not available, or cannot be spent.
-/

set_option autoImplicit false

namespace Phoenixcoin.Analysis

open Program

def MayTake (setLockedCoins : Finset COutPoint) (coinControl : Option CCoinControl)
    (coin : COutPoint) : Prop :=
  IsLockedCoin setLockedCoins coin.hash coin.n = true →
    ∃ control ∈ coinControl, coin ∈ control.setSelected

structure LocksKept (env : CreateEnv) (setLockedCoins : Finset COutPoint) : Prop where
  selects : ∀ coinControl nTargetValue tier₁ tier₂ tier₃,
    ∀ coin ∈ (SelectCoins env.coins env.mapWallet nTargetValue coinControl tier₁ tier₂ tier₃
      ⟨∅, 0⟩).2.setCoinsRet, MayTake setLockedCoins coinControl coin
  tiers : ∀ nTargetValue nConfMine nConfTheirs choices,
    ∀ coin ∈ (SelectCoinsMinConf env.coins choices nTargetValue nConfMine nConfTheirs
      (AvailableCoins env.coins env.mapWallet true none)).2.setCoinsRet,
    MayTake setLockedCoins none coin
  creates : ∀ coinControl choices fuel vecSend wtxNew vfChange nFeeRet,
    CreateTransaction { env with coinControl } choices fuel vecSend =
      some (.created wtxNew vfChange nFeeRet) →
    ∀ txin ∈ wtxNew.vin, MayTake setLockedCoins coinControl txin.prevout

section Tiers

variable {E : CoinEnv} {mapWallet : CoinTable} {coinControl : Option CCoinControl}
  {nTargetValue nConfMine nConfTheirs : ℤ} {output : COutput} {coin : COutPoint}

/-- A coin control only leaves coins out. -/
theorem available_none (h : output ∈ AvailableCoins E mapWallet true coinControl) :
    output ∈ AvailableCoins E mapWallet true none := by
  obtain ⟨hlookup, htx, hmem⟩ := mem_AvailableCoins.mp h
  obtain ⟨hget, havailable, heq⟩ := mem_availableOutputs.mp hmem
  refine mem_AvailableCoins.mpr ⟨hlookup, htx, mem_availableOutputs.mpr ⟨hget, ?_, heq⟩⟩
  obtain ⟨hspent, hmine, hvalue, -⟩ := of_decide_eq_true havailable
  exact decide_eq_true ⟨hspent, hmine, hvalue, fun control hnone => by cases hnone⟩

/-- A tier that fails returns no coin. -/
theorem setCoinsRet_of_failed (choices : TierChoices) {vCoins : List COutput}
    (h : (SelectCoinsMinConf E choices nTargetValue nConfMine nConfTheirs vCoins).1 = false) :
    (SelectCoinsMinConf E choices nTargetValue nConfMine nConfTheirs vCoins).2.setCoinsRet = ∅ := by
  unfold SelectCoinsMinConf at h ⊢
  generalize List.foldlM (scanCoin E nTargetValue nConfMine nConfTheirs) {}
    (choices.shuffle vCoins) = result at h ⊢
  cases result with
  | error coin => cases h
  | ok scan =>
    unfold selectFromScan at h ⊢
    dsimp only at h ⊢
    by_cases heq : scan.nTotalLower = nTargetValue
    · rw [if_pos heq] at h
      cases h
    · rw [if_neg heq] at h ⊢
      cases hlarger : scan.coinLowestLarger.2 with
      | none =>
        rw [hlarger] at h
        by_cases hlt : scan.nTotalLower < nTargetValue
        · rw [if_pos hlt]
        · rw [if_neg hlt] at h
          cases h
      | some outpoint =>
        rw [hlarger] at h
        split_ifs at h

theorem tier_spendable (choices : TierChoices)
    (h : coin ∈ (SelectCoinsMinConf E choices nTargetValue nConfMine nConfTheirs
      (AvailableCoins E mapWallet true coinControl)).2.setCoinsRet) :
    ∃ output ∈ AvailableCoins E mapWallet true none,
      output.outpoint = coin ∧ output.fSpendable = true := by
  cases hselects : (SelectCoinsMinConf E choices nTargetValue nConfMine nConfTheirs
      (AvailableCoins E mapWallet true coinControl)).1 with
  | true =>
    obtain ⟨output, hmem, hspend⟩ := (selectCoinsMinConf_selected choices hselects).spendable coin h
    exact ⟨output, available_none hmem, hspend⟩
  | false =>
    rw [setCoinsRet_of_failed choices hselects] at h
    exact absurd h (Finset.notMem_empty coin)

end Tiers

/-! ## What is created -/

theorem created_selected {env : CreateEnv} {c : RoundChoices} {vecSend : List (CScript × ℤ)}
    {nValue nFee nFeeRet : ℤ} {wtxNew : CTransaction} {vfChange : List Bool}
    (h : createRound env c vecSend nValue nFee =
      some (.finished (.created wtxNew vfChange nFeeRet))) :
    ∃ nTargetValue, ∀ txin ∈ wtxNew.vin, txin.prevout ∈
      (SelectCoins env.coins env.mapWallet nTargetValue env.coinControl c.tier₁ c.tier₂ c.tier₃
        ⟨∅, 0⟩).2.setCoinsRet := by
  have hfinish {vout : List CTxOut} {vf : List Bool} {nFee : ℤ} {setCoins : Finset COutPoint}
      (hround : finishRound env c (c.order setCoins) vout vf nFee =
        some (.finished (.created wtxNew vfChange nFeeRet))) :
      ∀ txin ∈ wtxNew.vin, txin.prevout ∈ setCoins := by
    intro txin hmem
    rw [← c.toFinset_order setCoins, ← (finishRound_spec hround).2.2.vin, List.mem_toFinset]
    exact List.mem_map_of_mem hmem
  obtain ⟨nTargetValue, -, h⟩ := Option.bind_eq_some_iff.mp h
  refine ⟨nTargetValue, ?_⟩
  cases hselect : SelectCoins env.coins env.mapWallet nTargetValue env.coinControl c.tier₁ c.tier₂
      c.tier₃ ⟨∅, 0⟩ with
  | mk fSelected ret =>
    rw [hselect] at h
    dsimp only at h
    split_ifs at h
    · obtain ⟨nRest, -, h⟩ := Option.bind_eq_some_iff.mp h
      obtain ⟨nChange, -, h⟩ := Option.bind_eq_some_iff.mp h
      unfold splitChange at h
      split_ifs at h
      · cases hscript : changeScript env c (c.order ret.setCoinsRet) with
        | error reason =>
          rw [hscript] at h
          cases h
        | ok scriptChange =>
          rw [hscript] at h
          exact hfinish h
      · obtain ⟨nFee', -, h⟩ := Option.bind_eq_some_iff.mp h
        exact hfinish h
    · cases h

variable {env : CreateEnv} {setLockedCoins : Finset COutPoint}

/-- The coins that `SelectCoins` returns were selected, or are available and can be spent. -/
theorem selectCoins_cases {coinControl : Option CCoinControl} {nTargetValue : ℤ}
    {tier₁ tier₂ tier₃ : TierChoices} {coin : COutPoint}
    (h : coin ∈ (SelectCoins env.coins env.mapWallet nTargetValue coinControl tier₁ tier₂ tier₃
      ⟨∅, 0⟩).2.setCoinsRet) :
    (∃ control ∈ coinControl, coin ∈ control.setSelected) ∨
      ∃ output ∈ AvailableCoins env.coins env.mapWallet true none,
        output.outpoint = coin ∧ output.fSpendable = true := by
  by_cases hcontrol : ∃ control ∈ coinControl, control.HasSelected
  · obtain ⟨control, rfl, hselected⟩ := hcontrol
    rw [selectCoins_control control hselected, addAll_eq, Finset.empty_union, List.mem_toFinset,
      List.map_map] at h
    obtain ⟨output, hmem, rfl⟩ := List.mem_map.mp h
    have havailable := (mem_availableOutputs.mp (mem_AvailableCoins.mp hmem).2.2).2.1
    have hall := (of_decide_eq_true havailable).2.2.2 control rfl
    exact Or.inl ⟨control, rfl, hall.resolve_left (not_not.mpr hselected)⟩
  · unfold SelectCoins at h
    dsimp only at h
    split_ifs at h
    · exact Or.inr (tier_spendable tier₁ h)
    · exact Or.inr (tier_spendable tier₂ h)
    · exact Or.inr (tier_spendable tier₃ h)

theorem taken_first {E : CoinEnv} {vCoins : List COutput} {output : COutput}
    (hmem : output ∈ vCoins) (hspend : output.fSpendable = true) :
    ∃ choices nConf, output.outpoint ∈
      (SelectCoinsMinConf E choices output.txout.nValue nConf nConf vCoins).2.setCoinsRet := by
  classical
  let choices : TierChoices := { CoinExample.inOrder with
    shuffle := fun l => if output ∈ l then output :: l.erase output else l
    shuffle_perm := fun l => by
      split_ifs with hl
      · exact (List.perm_cons_erase hl).symm
      · exact List.Perm.refl l }
  refine ⟨choices, output.nDepth, ?_⟩
  have hshuffle : choices.shuffle vCoins = output :: vCoins.erase output := if_pos hmem
  have hscan : scanCoin E output.txout.nValue output.nDepth output.nDepth {} output =
      .error output.coin := by
    rw [scanCoin, if_neg (not_not.mpr hspend), ite_self, if_neg (lt_irrefl _), if_pos rfl]
  rw [SelectCoinsMinConf, hshuffle, List.foldlM_cons, hscan]
  exact Finset.mem_insert_self _ _

/-- Locked coins stay put exactly when none of them is available and can be spent. -/
theorem locksKept_iff :
    LocksKept env setLockedCoins ↔
      ∀ output ∈ AvailableCoins env.coins env.mapWallet true none, output.fSpendable = true →
        IsLockedCoin setLockedCoins output.hash output.i = false := by
  constructor
  · intro h output hmem hspend
    obtain ⟨choices, nConf, htaken⟩ := taken_first hmem hspend
    refine Bool.eq_false_iff.mpr fun hlocked => ?_
    obtain ⟨control, hnone, -⟩ := h.tiers _ nConf nConf choices _ htaken hlocked
    cases hnone
  · intro h
    have hallowed {coinControl : Option CCoinControl} {nTargetValue : ℤ}
        {tier₁ tier₂ tier₃ : TierChoices} {coin : COutPoint}
        (hcoin : coin ∈ (SelectCoins env.coins env.mapWallet nTargetValue coinControl tier₁ tier₂
          tier₃ ⟨∅, 0⟩).2.setCoinsRet) : MayTake setLockedCoins coinControl coin := by
      intro hlocked
      refine (selectCoins_cases hcoin).resolve_right fun hspend => ?_
      obtain ⟨output, hmem, rfl, htrue⟩ := hspend
      exact Bool.false_ne_true ((h output hmem htrue).symm.trans hlocked)
    refine ⟨fun _ _ _ _ _ _ => hallowed, fun _ _ _ choices coin hcoin hlocked => ?_, ?_⟩
    · obtain ⟨output, hmem, rfl, htrue⟩ := tier_spendable choices hcoin
      exact absurd ((h output hmem htrue).symm.trans hlocked) Bool.false_ne_true
    · intro coinControl choices fuel vecSend wtxNew vfChange nFeeRet hcreated txin hin
      rcases createTransaction_cases { env with coinControl } choices vecSend with
        ⟨result, hnone, hall⟩ | ⟨nValue, -, -, hloop⟩
      · exact absurd (Option.some.inj ((hall fuel).symm.trans hcreated)) (hnone _ _ _)
      · obtain ⟨j, nFee, hround⟩ := feeLoop_created ((hloop fuel).symm.trans hcreated)
          (fun hundefined => by cases hundefined)
        obtain ⟨nTargetValue, hselected⟩ := created_selected hround
        exact hallowed (hselected txin hin)

open PaymentExample in
theorem payment_spendsLocked : ¬ LocksKept wallet (LockCoin ∅ ⟨1, 0⟩) := by
  intro h
  obtain ⟨control, hnone, -⟩ := h.creates none choices 5 _ payment _ _ created _
    List.mem_cons_self rfl
  cases hnone

end Phoenixcoin.Analysis
