import Mathlib.Algebra.BigOperators.Group.Finset.Piecewise
import Phoenixcoin.Program.CoinSelection

/-!
# Selected coins are spendable

The tiers of `SelectCoins` take spendable coins only, and what they report is the sum of the coins
and reaches the target. Coins that are selected by hand are all taken, watch-only ones too.
-/

set_option autoImplicit false

namespace Phoenixcoin.Analysis

open Program Lib isminetype List COutput

/-! ## What is available -/

section Available

variable {E : CoinEnv} {mapWallet : CoinTable} {fOnlyConfirmed : Bool}
  {coinControl : Option CCoinControl}

variable {output : COutput}

theorem mem_availableOutputs {hash : uint256} {wtx : WalletCoins} :
    output ∈ availableOutputs E coinControl hash wtx ↔
      wtx.vout[output.i]? = some output.txout ∧
        outputAvailable E coinControl hash wtx output.i output.txout = true ∧
        output = ⟨hash, wtx, output.i, output.txout, E.GetDepthInMainChain wtx,
          E.IsMine output.txout = MINE_SPENDABLE⟩ := by
  rw [availableOutputs, mem_filterMap]
  constructor
  · intro h
    obtain ⟨⟨txout, i⟩, hmem, hif⟩ := h
    dsimp only at hif
    split at hif
    · next havailable =>
      cases hif
      exact ⟨mem_zipIdx_iff_getElem?.mp hmem, havailable, rfl⟩
    · cases hif
  · intro h
    obtain ⟨hget, havailable, heq⟩ := h
    refine ⟨(output.txout, output.i), mem_zipIdx_iff_getElem?.mpr hget, ?_⟩
    dsimp only
    rw [if_pos havailable, ← heq]

theorem mem_AvailableCoins :
    output ∈ AvailableCoins E mapWallet fOnlyConfirmed coinControl ↔
      mapWallet.lookup output.hash = some output.tx ∧
        txAvailable E fOnlyConfirmed output.tx = true ∧
        output ∈ availableOutputs E coinControl output.hash output.tx := by
  rw [AvailableCoins, mem_flatMap]
  constructor
  · intro h
    obtain ⟨hash, -, hmem⟩ := h
    cases hlookup : mapWallet.lookup hash with
    | none =>
      rw [hlookup] at hmem
      exact absurd hmem not_mem_nil
    | some wtx =>
      rw [hlookup] at hmem
      dsimp only at hmem
      split at hmem
      · next htx =>
        have heq := (mem_availableOutputs.mp hmem).2.2
        have hhash : output.hash = hash := congrArg COutput.hash heq
        have hwtx : output.tx = wtx := congrArg COutput.tx heq
        rw [hhash, hwtx]
        exact ⟨hlookup, htx, hmem⟩
      · exact absurd hmem not_mem_nil
  · intro h
    obtain ⟨hlookup, htx, hmem⟩ := h
    refine ⟨output.hash, Table.mem_sortedKeys.mpr (by rw [hlookup]; rfl), ?_⟩
    rw [hlookup]
    dsimp only
    rw [if_pos htx]
    exact hmem

theorem map_outpoint_availableOutputs (hash : uint256) (wtx : WalletCoins) :
    ((availableOutputs E coinControl hash wtx).map outpoint).Nodup := by
  have hindex : ((availableOutputs E coinControl hash wtx).map i).Sublist
      (wtx.vout.zipIdx.map Prod.snd) := by
    unfold availableOutputs
    induction wtx.vout.zipIdx with
    | nil => exact Sublist.refl _
    | cons coin coins ih =>
      obtain ⟨txout, i⟩ := coin
      rw [filterMap_cons]
      dsimp only
      by_cases havailable : outputAvailable E coinControl hash wtx i txout = true
      · rw [if_pos havailable]
        exact ih.cons_cons _
      · rw [if_neg havailable]
        exact ih.cons _
  have hnodup : ((availableOutputs E coinControl hash wtx).map i).Nodup := by
    apply hindex.nodup
    rw [zipIdx_map_snd]
    exact nodup_range'
  refine Nodup.of_map COutPoint.n ?_
  rw [map_map]
  exact hnodup

/-- No output is available twice. -/
theorem nodup_AvailableCoins :
    ((AvailableCoins E mapWallet fOnlyConfirmed coinControl).map COutput.outpoint).Nodup := by
  rw [AvailableCoins, map_flatMap, nodup_flatMap]
  constructor
  · intro hash _
    cases mapWallet.lookup hash with
    | none => exact nodup_nil
    | some wtx =>
      dsimp only
      split
      · exact map_outpoint_availableOutputs hash wtx
      · exact nodup_nil
  · refine (Table.nodup_sortedKeys mapWallet).imp ?_
    intro hash hash' hne outpoint hmem hmem'
    obtain ⟨output, hout, rfl⟩ := mem_map.mp hmem
    obtain ⟨output', hout', heq⟩ := mem_map.mp hmem'
    have hhash : output.hash = hash := by
      split at hout
      · exact absurd hout not_mem_nil
      · split at hout
        · exact congrArg COutput.hash (mem_availableOutputs.mp hout).2.2
        · exact absurd hout not_mem_nil
    have hhash' : output'.hash = hash' := by
      split at hout'
      · exact absurd hout' not_mem_nil
      · split at hout'
        · exact congrArg COutput.hash (mem_availableOutputs.mp hout').2.2
        · exact absurd hout' not_mem_nil
    have hsame : output'.hash = output.hash := congrArg COutPoint.hash heq
    exact hne (hhash.symm.trans (hsame.symm.trans hhash'))

def coinValue (mapWallet : CoinTable) (outpoint : COutPoint) : ℤ :=
  match mapWallet.lookup outpoint.hash with
  | none => 0
  | some wtx => (wtx.vout[outpoint.n]?).elim 0 CTxOut.nValue

theorem coinValue_of_available (h : output ∈ AvailableCoins E mapWallet fOnlyConfirmed coinControl)
    :
    coinValue mapWallet output.outpoint = output.txout.nValue := by
  obtain ⟨hlookup, -, hmem⟩ := mem_AvailableCoins.mp h
  rw [coinValue, outpoint, hlookup]
  dsimp only
  rw [(mem_availableOutputs.mp hmem).1]
  rfl

end Available

/-! ## Sets of coins with their sum -/

theorem addAll_eq (ret : CoinsRet) (coins : List ValuedCoin) :
    ret.addAll coins = ⟨ret.setCoinsRet ∪ (coins.map Prod.snd).toFinset,
      ret.nValueRet + (coins.map Prod.fst).sum⟩ := by
  induction coins generalizing ret with
  | nil => simp [CoinsRet.addAll]
  | cons coin coins ih =>
    have hstep : ret.addAll (coin :: coins) = (ret.add coin).addAll coins := rfl
    rw [hstep, ih]
    rw [CoinsRet.add, map_cons, map_cons, toFinset_cons, sum_cons, Finset.insert_union,
      Finset.union_insert, add_assoc]

/-- Every coin of a list is a different spendable one of `vCoins`, with its value. -/
structure DrawnFrom (vCoins : List COutput) (coins : List ValuedCoin) : Prop where
  nodup : (coins.map Prod.snd).Nodup
  spendable : ∀ coin ∈ coins, ∃ output ∈ vCoins, output.fSpendable = true ∧ output.coin = coin

theorem DrawnFrom.singleton {vCoins : List COutput} {coin : ValuedCoin}
    (h : ∃ output ∈ vCoins, output.fSpendable = true ∧ output.coin = coin) :
    DrawnFrom vCoins [coin] := by
  refine ⟨nodup_singleton _, ?_⟩
  intro other hmem
  rw [mem_singleton.mp hmem]
  exact h

structure Selected (mapWallet : CoinTable) (vCoins : List COutput) (nTargetValue : ℤ)
    (ret : CoinsRet) : Prop where
  spendable : ∀ coin ∈ ret.setCoinsRet,
    ∃ output ∈ vCoins, output.outpoint = coin ∧ output.fSpendable = true
  total : ret.nValueRet = ∑ coin ∈ ret.setCoinsRet, coinValue mapWallet coin
  reached : nTargetValue ≤ ret.nValueRet

variable {coins : List ValuedCoin} {mapWallet : CoinTable}

theorem sum_coinValue (hnodup : (coins.map Prod.snd).Nodup)
    (hvalue : ∀ coin ∈ coins, coinValue mapWallet coin.2 = coin.1) :
    ∑ coin ∈ (coins.map Prod.snd).toFinset, coinValue mapWallet coin =
      (coins.map Prod.fst).sum := by
  rw [sum_toFinset _ hnodup, map_map]
  exact congrArg sum (map_congr_left hvalue)

theorem selected_addAll {E : CoinEnv} {coinControl : Option CCoinControl} {nTargetValue : ℤ}
    (h : DrawnFrom (AvailableCoins E mapWallet true coinControl) coins)
    (hreached : nTargetValue ≤ (coins.map Prod.fst).sum) :
    Selected mapWallet (AvailableCoins E mapWallet true coinControl) nTargetValue
      (CoinsRet.addAll ⟨∅, 0⟩ coins) := by
  rw [addAll_eq, Finset.empty_union, zero_add]
  constructor
  · intro coin hmem
    rw [mem_toFinset] at hmem
    obtain ⟨valued, hvalued, rfl⟩ := mem_map.mp hmem
    obtain ⟨output, hout, hspendable, rfl⟩ := h.spendable valued hvalued
    exact ⟨output, hout, rfl, hspendable⟩
  · refine (sum_coinValue h.nodup ?_).symm
    intro valued hmem
    obtain ⟨output, hout, -, rfl⟩ := h.spendable valued hmem
    exact coinValue_of_available hout
  · exact hreached

/-! ## The subset sum -/

section Subset

variable {vValue : List ValuedCoin} {nTargetValue : ℤ}

/-- A property of the accumulator and the index, kept by a fold over a list with its indices. -/
theorem foldl_zipIdx_induction {α β : Type} {P : ℕ → β → Prop} {f : β → α × ℕ → β} (l : List α)
    (k : ℕ) (b : β) (hinit : P k b)
    (hstep : ∀ j a b, l[j]? = some a → P (k + j) b → P (k + j + 1) (f b (a, k + j))) :
    P (k + l.length) ((l.zipIdx k).foldl f b) := by
  induction l generalizing k b with
  | nil => exact hinit
  | cons a l ih =>
    rw [length_cons, show k + (l.length + 1) = k + 1 + l.length by omega]
    refine ih (k + 1) _ (hstep 0 a b rfl hinit) ?_
    intro j a' b' hget hP
    have hnext := hstep (j + 1) a' b' hget (by rw [show k + (j + 1) = k + 1 + j by omega]; exact hP)
    rwa [show k + (j + 1) = k + 1 + j by omega] at hnext

def subsetTotal (vValue : List ValuedCoin) (flags : Finset ℕ) : ℤ :=
  ∑ i ∈ flags, (vValue[i]?).elim 0 Prod.fst

/-- What `nBest` and `nTotal` stand for. -/
structure SearchSound (vValue : List ValuedCoin) (nTargetValue : ℤ) (s : SubsetSearch) : Prop where
  best : s.nBest = subsetTotal vValue s.vfBest
  reached : nTargetValue ≤ s.nBest
  included : s.nTotal = subsetTotal vValue s.vfIncluded

variable {s : SubsetSearch}

/-- A coin that was not included may be tried. -/
theorem SearchSound.tryCoin (h : SearchSound vValue nTargetValue s) {i : ℕ} {coin : ValuedCoin}
    (hcoin : vValue[i]? = some coin) (hfree : i ∉ s.vfIncluded) :
    SearchSound vValue nTargetValue (s.tryCoin nTargetValue i coin.1) := by
  have hinsert : s.nTotal + coin.1 = subsetTotal vValue (insert i s.vfIncluded) := by
    rw [subsetTotal, Finset.sum_insert hfree, hcoin, h.included, add_comm]
    rfl
  unfold SubsetSearch.tryCoin
  by_cases hreached : s.nTotal + coin.1 ≥ nTargetValue
  · rw [if_pos hreached]
    have herase : (insert i s.vfIncluded).erase i = s.vfIncluded := Finset.erase_insert hfree
    by_cases hbetter : s.nTotal + coin.1 < s.nBest
    · simp only [if_pos hbetter, herase]
      exact ⟨hinsert, hreached, by rw [add_sub_cancel_right, h.included]⟩
    · simp only [if_neg hbetter, herase]
      exact ⟨h.best, h.reached, by rw [add_sub_cancel_right, h.included]⟩
  · rw [if_neg hreached]
    exact ⟨h.best, h.reached, hinsert⟩

theorem vfIncluded_tryCoin_subset (s : SubsetSearch) (i : ℕ) (nValue : ℤ) :
    (s.tryCoin nTargetValue i nValue).vfIncluded ⊆ insert i s.vfIncluded := by
  unfold SubsetSearch.tryCoin
  dsimp only
  split
  · exact Finset.erase_subset _ _
  · exact Finset.Subset.refl _

section

variable (h : SearchSound vValue nTargetValue s)
include h

theorem SearchSound.firstPass (hnone : s.vfIncluded = ∅) (flips : ℕ → Bool) :
    SearchSound vValue nTargetValue (s.pass vValue nTargetValue fun i _ => flips i) := by
  have hrun := foldl_zipIdx_induction
    (P := fun k s => SearchSound vValue nTargetValue s ∧ ∀ i ∈ s.vfIncluded, i < k)
    (f := fun s (coin : ValuedCoin × ℕ) =>
      if flips coin.2 then s.tryCoin nTargetValue coin.2 coin.1.1 else s) vValue 0 s
    ⟨h, fun i hi => by rw [hnone] at hi; exact absurd hi (Finset.notMem_empty i)⟩ ?_
  · exact hrun.1
  · intro j coin s' hcoin hP
    rw [zero_add] at hP ⊢
    obtain ⟨hsound, hbelow⟩ := hP
    split
    · refine ⟨hsound.tryCoin hcoin fun hmem => absurd (hbelow j hmem) (lt_irrefl j), ?_⟩
      intro i hi
      rcases Finset.mem_insert.mp (vfIncluded_tryCoin_subset _ _ _ hi) with rfl | hi
      · exact Nat.lt_succ_self i
      · exact Nat.lt_succ_of_lt (hbelow i hi)
    · exact ⟨hsound, fun i hi => Nat.lt_succ_of_lt (hbelow i hi)⟩

theorem SearchSound.secondPass : SearchSound vValue nTargetValue
      (s.pass vValue nTargetValue fun i s => i ∉ s.vfIncluded) := by
  refine foldl_zipIdx_induction (P := fun _ s => SearchSound vValue nTargetValue s)
    (f := fun s (coin : ValuedCoin × ℕ) =>
      if decide (coin.2 ∉ s.vfIncluded) then s.tryCoin nTargetValue coin.2 coin.1.1 else s)
    vValue 0 s h ?_
  intro j coin s' hcoin hsound
  rw [zero_add]
  split
  · next hfree => exact hsound.tryCoin hcoin (of_decide_eq_true hfree)
  · exact hsound

theorem SearchSound.round (flips : ℕ → Bool) :
    SearchSound vValue nTargetValue (s.round vValue nTargetValue flips) := by
  have hreset : SearchSound vValue nTargetValue
      { s with vfIncluded := ∅, nTotal := 0, fReachedTarget := false } :=
    ⟨h.best, h.reached, rfl⟩
  have hfirst := hreset.firstPass rfl flips
  unfold SubsetSearch.round
  dsimp only
  split
  · exact hfirst
  · exact hfirst.secondPass

theorem SearchSound.search (flips : ℕ → ℕ → Bool) (iterations : ℕ) :
    SearchSound vValue nTargetValue
      (SubsetSearch.search vValue nTargetValue flips iterations s) := by
  induction iterations generalizing s with
  | zero => exact h
  | succ iterations ih =>
    unfold SubsetSearch.search
    split
    · exact h
    · exact ih (h.round _)

end

theorem subsetTotal_range (vValue : List ValuedCoin) :
    subsetTotal vValue (Finset.range vValue.length) = (vValue.map Prod.fst).sum := by
  unfold subsetTotal
  induction vValue with
  | nil => rfl
  | cons coin vValue ih =>
    rw [length_cons, Finset.sum_range_succ', map_cons, sum_cons, ← ih, add_comm]
    rfl

/-- The subset that `ApproximateBestSubset` finds has the sum it reports. -/
theorem approximateBestSubset_spec (flips : ℕ → ℕ → Bool) {nTotalLower : ℤ} (iterations : ℕ)
    (htotal : nTotalLower = (vValue.map Prod.fst).sum) (hreached : nTargetValue ≤ nTotalLower) :
    (ApproximateBestSubset flips vValue nTotalLower nTargetValue iterations).2 = subsetTotal vValue
          (ApproximateBestSubset flips vValue nTotalLower nTargetValue iterations).1 ∧
      nTargetValue ≤ (ApproximateBestSubset flips vValue nTotalLower nTargetValue
        iterations).2 := by
  have hinit : SearchSound vValue nTargetValue
      ⟨Finset.range vValue.length, nTotalLower, ∅, 0, false⟩ :=
    ⟨by rw [subsetTotal_range, htotal], hreached, rfl⟩
  have hsound := hinit.search flips iterations
  exact ⟨hsound.best, hsound.reached⟩

theorem sum_flagged (vValue : List ValuedCoin) (flags : Finset ℕ) :
    ((flagged vValue flags).map Prod.fst).sum = subsetTotal vValue flags := by
  have hrange : subsetTotal vValue flags =
      ∑ i ∈ Finset.range vValue.length, if i ∈ flags then (vValue[i]?).elim 0 Prod.fst else 0 := by
    rw [Finset.sum_ite_mem, Finset.inter_comm]
    refine (Finset.sum_subset Finset.inter_subset_left ?_).symm
    intro i hi hout
    have hlength : vValue.length ≤ i := by
      by_contra hlt
      exact hout (Finset.mem_inter.mpr ⟨hi, Finset.mem_range.mpr (not_le.mp hlt)⟩)
    rw [getElem?_eq_none hlength]
    rfl
  rw [hrange]
  clear hrange
  unfold flagged
  induction vValue using reverseRecOn with
  | nil => rfl
  | append_singleton vValue coin ih =>
    have hrest : ∑ i ∈ Finset.range vValue.length,
          (if i ∈ flags then ((vValue ++ [coin])[i]?).elim 0 Prod.fst else 0) =
        ∑ i ∈ Finset.range vValue.length,
          if i ∈ flags then (vValue[i]?).elim 0 Prod.fst else 0 := by
      refine Finset.sum_congr rfl ?_
      intro i hi
      rw [getElem?_append_left (Finset.mem_range.mp hi)]
    rw [zipIdx_append, filter_append, map_append, map_append, sum_append,
      length_append, length_singleton, Finset.sum_range_succ, hrest]
    congr 1
    by_cases hflag : vValue.length ∈ flags <;> simp [hflag]

end Subset

/-! ## One tier -/

section Tier

variable (E : CoinEnv) {vCoins : List COutput} {nTargetValue : ℤ} (nConfMine nConfTheirs : ℤ)

/-- What the loop over the coins has found, with the coins still to come. -/
structure ScanSound (vCoins : List COutput) (nTargetValue : ℤ) (scan : CoinScan)
    (rest : List COutput) : Prop where
  nodup : (scan.vValue.map Prod.snd ++ rest.map outpoint).Nodup
  spendable : ∀ coin ∈ scan.vValue, ∃ output ∈ vCoins, output.fSpendable = true ∧ output.coin = coin
  total : scan.nTotalLower = (scan.vValue.map Prod.fst).sum
  larger : ∀ outpoint, scan.coinLowestLarger.2 = some outpoint →
    nTargetValue + CENT ≤ scan.coinLowestLarger.1 ∧
      ∃ output ∈ vCoins, output.fSpendable = true ∧
        output.coin = (scan.coinLowestLarger.1, outpoint)

variable {scan : CoinScan}

variable {output : COutput} {rest : List COutput} {vValue : List ValuedCoin}

theorem ScanSound.skip (h : ScanSound vCoins nTargetValue scan (output :: rest)) :
    ScanSound vCoins nTargetValue scan rest := by
  refine ⟨h.nodup.sublist ?_, h.spendable, h.total, h.larger⟩
  exact (Sublist.refl _).append (sublist_cons_self _ _)

/-- One coin of the loop. -/
theorem scanCoin_sound (h : ScanSound vCoins nTargetValue scan (output :: rest))
    (hmem : output ∈ vCoins) :
    (∀ scan', scanCoin E nTargetValue nConfMine nConfTheirs scan output = .ok scan' →
      ScanSound vCoins nTargetValue scan' rest) ∧
    ∀ coin, scanCoin E nTargetValue nConfMine nConfTheirs scan output = .error coin →
      coin.1 = nTargetValue ∧ ∃ output ∈ vCoins, output.fSpendable = true ∧ output.coin = coin := by
  unfold scanCoin
  by_cases hspendable : output.fSpendable = true
  · rw [if_neg (not_not.mpr hspendable)]
    by_cases hdepth : output.nDepth < if E.IsFromMe output.tx then nConfMine else nConfTheirs
    · rw [if_pos hdepth]
      refine ⟨?_, fun coin heq => by cases heq⟩
      intro scan' heq
      cases heq
      exact h.skip
    · rw [if_neg hdepth]
      by_cases htarget : output.txout.nValue = nTargetValue
      · rw [if_pos htarget]
        refine ⟨fun scan' heq => (by cases heq), ?_⟩
        intro coin heq
        cases heq
        exact ⟨htarget, output, hmem, hspendable, rfl⟩
      · rw [if_neg htarget]
        by_cases hlower : output.txout.nValue < nTargetValue + CENT
        · rw [if_pos hlower]
          refine ⟨?_, fun coin heq => by cases heq⟩
          intro scan' heq
          cases heq
          refine ⟨?_, ?_, ?_, h.larger⟩
          · rw [map_append, append_assoc]
            exact h.nodup
          · intro coin hcoin
            rcases mem_append.mp hcoin with hcoin | hcoin
            · exact h.spendable coin hcoin
            · rw [mem_singleton.mp hcoin]
              exact ⟨output, hmem, hspendable, rfl⟩
          · rw [map_append, sum_append, h.total, map_singleton, sum_singleton]
            rfl
        · rw [if_neg hlower]
          by_cases hlowest : output.txout.nValue < scan.coinLowestLarger.1
          · rw [if_pos hlowest]
            refine ⟨?_, fun coin heq => by cases heq⟩
            intro scan' heq
            cases heq
            refine ⟨h.skip.nodup, h.spendable, h.total, ?_⟩
            intro outpoint hsome
            cases hsome
            exact ⟨not_lt.mp hlower, output, hmem, hspendable, rfl⟩
          · rw [if_neg hlowest]
            refine ⟨?_, fun coin heq => by cases heq⟩
            intro scan' heq
            cases heq
            exact h.skip
  · rw [if_pos hspendable]
    refine ⟨?_, fun coin heq => by cases heq⟩
    intro scan' heq
    cases heq
    exact h.skip

/-- The loop over the coins. -/
theorem foldlM_scanCoin_sound {outputs : List COutput}
    (h : ScanSound vCoins nTargetValue scan outputs) (hmem : ∀ output ∈ outputs, output ∈ vCoins) :
    match outputs.foldlM (scanCoin E nTargetValue nConfMine nConfTheirs) scan with
    | .ok scan' => ScanSound vCoins nTargetValue scan' []
    | .error coin => coin.1 = nTargetValue ∧
        ∃ output ∈ vCoins, output.fSpendable = true ∧ output.coin = coin := by
  induction outputs generalizing scan with
  | nil => exact h
  | cons output outputs ih =>
    obtain ⟨hok, herror⟩ := scanCoin_sound E nConfMine nConfTheirs h (hmem output mem_cons_self)
    rw [foldlM_cons]
    cases hscan : scanCoin E nTargetValue nConfMine nConfTheirs scan output with
    | error coin => exact herror coin hscan
    | ok scan' => exact ih (hok scan' hscan) fun o ho => hmem o (mem_cons_of_mem _ ho)

theorem DrawnFrom.flagged (h : DrawnFrom vCoins vValue) (flags : Finset ℕ) :
    DrawnFrom vCoins (flagged vValue flags) := by
  have hsub : (Program.flagged vValue flags).Sublist vValue := by
    have hmap := (filter_sublist (p := fun coin : ValuedCoin × ℕ => coin.2 ∈ flags)
      (l := vValue.zipIdx)).map Prod.fst
    rwa [zipIdx_map_fst] at hmap
  exact ⟨h.nodup.sublist (hsub.map _), fun coin hcoin => h.spendable coin (hsub.subset hcoin)⟩

theorem DrawnFrom.perm {vValue' : List ValuedCoin} (h : DrawnFrom vCoins vValue)
    (hperm : vValue'.Perm vValue) : DrawnFrom vCoins vValue' :=
  ⟨(hperm.map _).nodup_iff.mpr h.nodup, fun coin hcoin => h.spendable coin (hperm.mem_iff.mp hcoin)⟩

end Tier

section Select

variable {E : CoinEnv} {mapWallet : CoinTable} {nTargetValue nConfMine nConfTheirs : ℤ}
  {coinControl : Option CCoinControl}

theorem cent_nonneg : 0 ≤ CENT := by
  unfold CENT
  omega

variable {scan : CoinScan}

theorem selected_larger {outpoint : COutPoint}
    (h : ScanSound (AvailableCoins E mapWallet true coinControl) nTargetValue scan [])
    (hsome : scan.coinLowestLarger.2 = some outpoint) :
    Selected mapWallet (AvailableCoins E mapWallet true coinControl) nTargetValue
      (CoinsRet.add ⟨∅, 0⟩ (scan.coinLowestLarger.1, outpoint)) := by
  obtain ⟨hlarger, hcoin⟩ := h.larger outpoint hsome
  refine selected_addAll (DrawnFrom.singleton hcoin) ?_
  have hcent := cent_nonneg
  rw [map_singleton, sum_singleton]
  omega

theorem selectFromScan_selected (choices : TierChoices)
    (h : ScanSound (AvailableCoins E mapWallet true coinControl) nTargetValue scan [])
    (hselects : (selectFromScan choices nTargetValue scan).1 = true) :
    Selected mapWallet (AvailableCoins E mapWallet true coinControl) nTargetValue
      (selectFromScan choices nTargetValue scan).2 := by
  have hdrawn : DrawnFrom (AvailableCoins E mapWallet true coinControl) scan.vValue := by
    refine ⟨?_, h.spendable⟩
    have hnodup := h.nodup
    rwa [map_nil, append_nil] at hnodup
  have hcent := cent_nonneg
  unfold selectFromScan at hselects ⊢
  dsimp only at hselects ⊢
  by_cases hexact : scan.nTotalLower = nTargetValue
  · rw [if_pos hexact]
    exact selected_addAll hdrawn (by rw [← h.total, hexact])
  · rw [if_neg hexact] at hselects ⊢
    by_cases hlower : scan.nTotalLower < nTargetValue
    · rw [if_pos hlower] at hselects ⊢
      cases hsome : scan.coinLowestLarger.2 with
      | none =>
        rw [hsome] at hselects
        cases hselects
      | some outpoint => exact selected_larger h hsome
    · rw [if_neg hlower]
      have hsorted : DrawnFrom (AvailableCoins E mapWallet true coinControl)
          (choices.sort scan.vValue) := hdrawn.perm (choices.sort_perm _)
      have htotal : scan.nTotalLower = ((choices.sort scan.vValue).map Prod.fst).sum := by
        rw [h.total]
        exact ((choices.sort_perm scan.vValue).map Prod.fst).sum_eq.symm
      -- Both searches end with flags whose sum is the one reported, the second for a higher target.
      have hbest : ∃ best : Finset ℕ × ℤ,
          (if (ApproximateBestSubset choices.flips (choices.sort scan.vValue) scan.nTotalLower
                nTargetValue 1000).2 ≠ nTargetValue ∧ scan.nTotalLower ≥ nTargetValue + CENT then
            ApproximateBestSubset choices.flipsChange (choices.sort scan.vValue) scan.nTotalLower
              (nTargetValue + CENT) 1000
          else ApproximateBestSubset choices.flips (choices.sort scan.vValue) scan.nTotalLower
            nTargetValue 1000) = best ∧
          best.2 = subsetTotal (choices.sort scan.vValue) best.1 ∧ nTargetValue ≤ best.2 := by
        split
        · next hagain =>
          obtain ⟨hsum, hreached⟩ := approximateBestSubset_spec choices.flipsChange 1000 htotal
            hagain.2
          exact ⟨_, rfl, hsum, by omega⟩
        · obtain ⟨hsum, hreached⟩ := approximateBestSubset_spec choices.flips 1000 htotal
            (not_lt.mp hlower)
          exact ⟨_, rfl, hsum, hreached⟩
      obtain ⟨best, heq, hsum, hreached⟩ := hbest
      rw [heq]
      have hflagged : Selected mapWallet (AvailableCoins E mapWallet true coinControl) nTargetValue
          (CoinsRet.addAll ⟨∅, 0⟩ (flagged (choices.sort scan.vValue) best.1)) :=
        selected_addAll (hsorted.flagged best.1) (by rw [sum_flagged, ← hsum]; exact hreached)
      cases hsome : scan.coinLowestLarger.2 with
      | none => exact hflagged
      | some outpoint =>
        dsimp only
        split
        · exact selected_larger h hsome
        · exact hflagged

theorem selectCoinsMinConf_selected (choices : TierChoices)
    (hselects : (SelectCoinsMinConf E choices nTargetValue nConfMine nConfTheirs
      (AvailableCoins E mapWallet true coinControl)).1 = true) :
    Selected mapWallet (AvailableCoins E mapWallet true coinControl) nTargetValue
      (SelectCoinsMinConf E choices nTargetValue nConfMine nConfTheirs
        (AvailableCoins E mapWallet true coinControl)).2 := by
  have hperm := choices.shuffle_perm (AvailableCoins E mapWallet true coinControl)
  have hinit : ScanSound (AvailableCoins E mapWallet true coinControl) nTargetValue {}
      (choices.shuffle (AvailableCoins E mapWallet true coinControl)) := by
    refine ⟨?_, ?_, rfl, ?_⟩
    · exact (hperm.map _).nodup_iff.mpr nodup_AvailableCoins
    · intro coin hcoin
      exact absurd hcoin not_mem_nil
    · intro outpoint hsome
      cases hsome
  have hloop := foldlM_scanCoin_sound E nConfMine nConfTheirs hinit fun output hout =>
    hperm.mem_iff.mp hout
  unfold SelectCoinsMinConf at hselects ⊢
  generalize foldlM (scanCoin E nTargetValue nConfMine nConfTheirs) {}
    (choices.shuffle (AvailableCoins E mapWallet true coinControl)) = result at hselects hloop ⊢
  cases result with
  | error coin =>
    obtain ⟨htarget, hcoin⟩ := hloop
    refine selected_addAll (DrawnFrom.singleton hcoin) ?_
    rw [map_singleton, sum_singleton, htarget]
  | ok scan => exact selectFromScan_selected choices hloop hselects

def WatchOnlySelected (E : CoinEnv) (mapWallet : CoinTable) (control : CCoinControl) : Prop :=
  ∃ outpoint ∈ control.setSelected, ∃ wtx txout,
    mapWallet.lookup outpoint.hash = some wtx ∧ wtx.vout[outpoint.n]? = some txout ∧
      txAvailable E true wtx = true ∧
      outputAvailable E (some control) outpoint.hash wtx outpoint.n txout = true ∧
      E.IsMine txout = MINE_WATCH_ONLY

def selectedTotal (E : CoinEnv) (mapWallet : CoinTable) (control : CCoinControl) : ℤ :=
  ((AvailableCoins E mapWallet true (some control)).map fun output => output.txout.nValue).sum

theorem watchOnlySelected_iff (control : CCoinControl) (hselected : control.HasSelected) :
    WatchOnlySelected E mapWallet control ↔
      ∃ output ∈ AvailableCoins E mapWallet true (some control), output.fSpendable = false := by
  constructor
  · intro h
    obtain ⟨outpoint, -, wtx, txout, hlookup, hget, htx, havailable, hmine⟩ := h
    refine ⟨⟨outpoint.hash, wtx, outpoint.n, txout, E.GetDepthInMainChain wtx,
      E.IsMine txout = MINE_SPENDABLE⟩, ?_, ?_⟩
    · exact mem_AvailableCoins.mpr ⟨hlookup, htx, mem_availableOutputs.mpr ⟨hget, havailable, rfl⟩⟩
    · rw [hmine]
      rfl
  · intro h
    obtain ⟨output, hmem, hspendable⟩ := h
    obtain ⟨hlookup, htx, hout⟩ := mem_AvailableCoins.mp hmem
    obtain ⟨hget, havailable, heq⟩ := mem_availableOutputs.mp hout
    have hmine : E.IsMine output.txout ≠ MINE_SPENDABLE := by
      rw [heq] at hspendable
      exact of_decide_eq_false hspendable
    have hall := havailable
    obtain ⟨-, hno, -, hcontrol⟩ := of_decide_eq_true hall
    refine ⟨output.outpoint, ?_, output.tx, output.txout, hlookup, hget, htx, havailable, ?_⟩
    · exact (hcontrol control rfl).resolve_left (not_not.mpr hselected)
    · cases hvalue : E.IsMine output.txout with
      | MINE_NO => exact absurd hvalue hno
      | MINE_WATCH_ONLY => rfl
      | MINE_SPENDABLE => exact absurd hvalue hmine

/-- Coins selected by hand are all returned. -/
theorem selectCoins_control (control : CCoinControl) (hselected : control.HasSelected)
    (choices₁ choices₂ choices₃ : TierChoices) :
    SelectCoins E mapWallet nTargetValue (some control) choices₁ choices₂ choices₃ ⟨∅, 0⟩ =
      (decide (selectedTotal E mapWallet control ≥ nTargetValue), CoinsRet.addAll ⟨∅, 0⟩
          ((AvailableCoins E mapWallet true (some control)).map coin)) := by
  rw [SelectCoins, if_pos ⟨control, rfl, hselected⟩]
  rw [addAll_eq, zero_add]
  dsimp only
  rw [map_map]
  rfl

/-- `SelectCoins` returns spendable coins that reach the target, with their sum, exactly when no
available watch-only output was selected by hand, or what was selected does not reach the target. -/
theorem selectCoins_spendable_iff (choices₁ choices₂ choices₃ : TierChoices) :
    ((SelectCoins E mapWallet nTargetValue coinControl choices₁ choices₂ choices₃ ⟨∅, 0⟩).1 = true →
      Selected mapWallet (AvailableCoins E mapWallet true coinControl) nTargetValue
        (SelectCoins E mapWallet nTargetValue coinControl choices₁ choices₂ choices₃ ⟨∅, 0⟩).2) ↔
    ∀ control ∈ coinControl, WatchOnlySelected E mapWallet control →
      selectedTotal E mapWallet control < nTargetValue := by
  by_cases hcontrol : ∃ control ∈ coinControl, control.HasSelected
  · obtain ⟨control, rfl, hselected⟩ := hcontrol
    have htotal : (((AvailableCoins E mapWallet true (some control)).map coin).map
        Prod.fst).sum = selectedTotal E mapWallet control := by
      rw [map_map]
      rfl
    rw [selectCoins_control control hselected]
    rw [decide_eq_true_eq]
    constructor
    · intro h other hother hwatch
      cases hother
      by_contra hreached
      obtain ⟨output, hmem, hspendable⟩ := (watchOnlySelected_iff control hselected).mp hwatch
      have hret := (h (not_lt.mp hreached)).spendable output.outpoint ?_
      · obtain ⟨other, hother, heq, htrue⟩ := hret
        have hsame : other = output :=
          inj_on_of_nodup_map nodup_AvailableCoins hother hmem heq
        rw [hsame, hspendable] at htrue
        cases htrue
      · rw [addAll_eq, Finset.empty_union, mem_toFinset, map_map]
        exact mem_map_of_mem hmem
    · intro h hreached
      refine selected_addAll ⟨?_, ?_⟩ (by rw [htotal]; exact hreached)
      · rw [map_map]
        exact nodup_AvailableCoins
      · intro coin hcoin
        obtain ⟨output, hmem, rfl⟩ := mem_map.mp hcoin
        refine ⟨output, hmem, ?_, rfl⟩
        by_contra hwatch
        have hlt := h control rfl ((watchOnlySelected_iff control hselected).mpr
          ⟨output, hmem, Bool.eq_false_iff.mpr hwatch⟩)
        omega
  · have hnone : ∀ control ∈ coinControl, WatchOnlySelected E mapWallet control →
        selectedTotal E mapWallet control < nTargetValue := by
      intro control hmem hwatch
      obtain ⟨outpoint, hout, -⟩ := hwatch
      exact absurd ⟨control, hmem, Finset.card_pos.mpr ⟨outpoint, hout⟩⟩ hcontrol
    refine iff_of_true ?_ hnone
    intro hselects
    unfold SelectCoins at hselects ⊢
    dsimp only at hselects ⊢
    rw [if_neg hcontrol] at hselects ⊢
    split at hselects
    · next h₁ =>
      rw [if_pos h₁]
      exact selectCoinsMinConf_selected choices₁ h₁
    · next h₁ =>
      rw [if_neg h₁]
      split at hselects
      · next h₂ =>
        rw [if_pos h₂]
        exact selectCoinsMinConf_selected choices₂ h₂
      · next h₂ =>
        rw [if_neg h₂]
        exact selectCoinsMinConf_selected choices₃ hselects

end Select

namespace CoinExample

def inOrder : TierChoices where
  shuffle := id
  shuffle_perm := fun _ => Perm.refl _
  sort := fun vValue => vValue.mergeSort fun coin coin' => coin'.1 ≤ coin.1
  sort_perm := fun vValue => mergeSort_perm vValue _
  sort_sorted := by
    intro vValue
    refine (pairwise_mergeSort ?_ ?_ vValue).imp fun h => of_decide_eq_true h
    · intro a b c hab hbc
      exact decide_eq_true (le_trans (of_decide_eq_true hbc) (of_decide_eq_true hab))
    · intro a b
      rw [Bool.or_eq_true, decide_eq_true_eq, decide_eq_true_eq]
      exact le_total _ _
  flips := fun _ _ => false
  flipsChange := fun _ _ => false

/-- A wallet that watches a script. -/
def watchingEnv : CoinEnv where
  IsMine := fun _ => MINE_WATCH_ONLY
  IsConfirmed := fun _ => true
  IsFromMe := fun _ => false
  GetDepthInMainChain := fun _ => 10
  nBestHeight := 20
  nAdjustedTime := 0
  nBaseMaturity := 50
  nMinimumInputValue := 1000000

def watchedTx : WalletCoins :=
  .ofTransaction { nVersion := 1, vin := [], vout := [⟨5000000, [0x51]⟩], nLockTime := 0 }

def watchingWallet : CoinTable := Finmap.singleton 1 watchedTx

end CoinExample

open CoinExample in
/-- A watch-only output selected by hand is returned. -/
theorem selectCoins_watchOnly :
    (SelectCoins watchingEnv watchingWallet 1000000 (some ⟨{⟨1, 0⟩}⟩) inOrder inOrder inOrder
        ⟨∅, 0⟩).1 = true ∧
      ⟨1, 0⟩ ∈ (SelectCoins watchingEnv watchingWallet 1000000 (some ⟨{⟨1, 0⟩}⟩) inOrder inOrder
        inOrder ⟨∅, 0⟩).2.setCoinsRet ∧
      ¬ ∃ output ∈ AvailableCoins watchingEnv watchingWallet true (some ⟨{⟨1, 0⟩}⟩),
        output.fSpendable = true := by
  decide

end Phoenixcoin.Analysis
