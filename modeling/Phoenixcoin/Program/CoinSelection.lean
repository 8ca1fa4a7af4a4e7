import Phoenixcoin.Program.BlockRules
import Phoenixcoin.Program.KeyStore
import Phoenixcoin.Program.WalletSync

/-!
# Selecting coins

`AvailableCoins`, `SelectCoinsMinConf`, `SelectCoins` and `LockCoin` of `wallet.cpp`. A pointer to
a wallet transaction stands for the hash under which `mapWallet` holds it. Amounts are integers
without a bound; confirmed coins do not add up to one that is out of range. What is random is
given: the order of the coins, the order of equal values, and the coin flips.
-/

set_option autoImplicit false

namespace Phoenixcoin.Program

open Lib isminetype

def CENT : ℤ := 1000000

def BASE_MATURITY_OFFSET : ℤ := 1

/-- What the selection asks of the rest of the wallet and of the node. -/
structure CoinEnv where
  IsMine : CTxOut → isminetype
  IsConfirmed : WalletCoins → Bool
  IsFromMe : WalletCoins → Bool
  GetDepthInMainChain : WalletCoins → ℤ
  nBestHeight : ℤ
  nAdjustedTime : ℤ
  nBaseMaturity : ℤ
  nMinimumInputValue : ℤ

/-- `CCoinControl`, as far as coins are selected with it. -/
structure CCoinControl where
  setSelected : Finset COutPoint

def CCoinControl.HasSelected (coinControl : CCoinControl) : Prop := 0 < coinControl.setSelected.card

instance : DecidablePred CCoinControl.HasSelected := fun _ => inferInstanceAs (Decidable (_ < _))

/-! ## Locked coins -/

def LockCoin (setLockedCoins : Finset COutPoint) (output : COutPoint) : Finset COutPoint :=
  insert output setLockedCoins

def IsLockedCoin (setLockedCoins : Finset COutPoint) (hash : uint256) (n : ℕ) : Bool :=
  ⟨hash, n⟩ ∈ setLockedCoins

/-- `COutput`; `hash` and `txout` are what its pointer leads to. -/
structure COutput where
  hash : uint256
  tx : WalletCoins
  i : ℕ
  txout : CTxOut
  nDepth : ℤ
  fSpendable : Bool

def COutput.outpoint (output : COutput) : COutPoint := ⟨output.hash, output.i⟩

/-- A value with the output that holds it. -/
abbrev ValuedCoin : Type := ℤ × COutPoint

def COutput.coin (output : COutput) : ValuedCoin := (output.txout.nValue, output.outpoint)

/-! ## Coins that are there -/

section Available

variable (E : CoinEnv)

def GetBlocksToMaturity (wtx : WalletCoins) : ℤ :=
  if ¬ wtx.IsCoinBase then 0
  else max 0 (E.nBaseMaturity + BASE_MATURITY_OFFSET - E.GetDepthInMainChain wtx)

/-- The checks of `AvailableCoins` on a transaction. -/
def txAvailable (fOnlyConfirmed : Bool) (wtx : WalletCoins) : Bool :=
  if ¬ wtx.toCTransaction.IsFinal E.nBestHeight E.nAdjustedTime 0 0 then false
  else if fOnlyConfirmed ∧ ¬ E.IsConfirmed wtx then false
  else if wtx.IsCoinBase ∧ GetBlocksToMaturity E wtx > 0 then false
  else if E.GetDepthInMainChain wtx < 0 then false
  else true

/-- The checks of `AvailableCoins` on an output. -/
def outputAvailable (coinControl : Option CCoinControl) (hash : uint256) (wtx : WalletCoins)
    (i : ℕ) (txout : CTxOut) : Bool :=
  ¬ wtx.IsSpent i ∧ E.IsMine txout ≠ MINE_NO ∧ txout.nValue ≥ E.nMinimumInputValue ∧
    ∀ control ∈ coinControl, ¬ control.HasSelected ∨ ⟨hash, i⟩ ∈ control.setSelected

def availableOutputs (coinControl : Option CCoinControl) (hash : uint256) (wtx : WalletCoins) :
    List COutput :=
  wtx.vout.zipIdx.filterMap fun (txout, i) =>
    if outputAvailable E coinControl hash wtx i txout then
      some ⟨hash, wtx, i, txout, E.GetDepthInMainChain wtx, E.IsMine txout = MINE_SPENDABLE⟩
    else none

def AvailableCoins (mapWallet : CoinTable) (fOnlyConfirmed : Bool)
    (coinControl : Option CCoinControl) : List COutput :=
  (Table.sortedKeys mapWallet).flatMap fun hash =>
    match mapWallet.lookup hash with
    | none => []
    | some wtx =>
      if txAvailable E fOnlyConfirmed wtx then availableOutputs E coinControl hash wtx else []

end Available

/-! ## The subset sum -/

/-- The variables of `ApproximateBestSubset`; flags are the set of the indices that have them. -/
structure SubsetSearch where
  vfBest : Finset ℕ
  nBest : ℤ
  vfIncluded : Finset ℕ
  nTotal : ℤ
  fReachedTarget : Bool

namespace SubsetSearch

variable (vValue : List ValuedCoin) (nTargetValue : ℤ)

/-- The body of the inner `if`: a coin is included, and left out again at the target. -/
def tryCoin (i : ℕ) (nValue : ℤ) (s : SubsetSearch) : SubsetSearch :=
  let nTotal := s.nTotal + nValue
  let vfIncluded := insert i s.vfIncluded
  if nTotal ≥ nTargetValue then
    { vfBest := if nTotal < s.nBest then vfIncluded else s.vfBest
      nBest := if nTotal < s.nBest then nTotal else s.nBest
      vfIncluded := vfIncluded.erase i
      nTotal := nTotal - nValue
      fReachedTarget := true }
  else { s with nTotal, vfIncluded }

/-- One pass over the coins. -/
def pass (fTry : ℕ → SubsetSearch → Bool) (s : SubsetSearch) : SubsetSearch :=
  vValue.zipIdx.foldl (fun s (coin, i) => if fTry i s then s.tryCoin nTargetValue i coin.1 else s) s

/-- One repetition: a pass over coins that are flipped for, and one over the others. -/
def round (flips : ℕ → Bool) (s : SubsetSearch) : SubsetSearch :=
  let s := { s with vfIncluded := ∅, nTotal := 0, fReachedTarget := false }
  let s := s.pass vValue nTargetValue fun i _ => flips i
  if s.fReachedTarget then s else s.pass vValue nTargetValue fun i s => i ∉ s.vfIncluded

def search (flips : ℕ → ℕ → Bool) : ℕ → SubsetSearch → SubsetSearch
  | 0, s => s
  | iterations + 1, s =>
    if s.nBest = nTargetValue then s
    else search flips iterations (s.round vValue nTargetValue (flips iterations))

end SubsetSearch

/-- The best flags and their sum. -/
def ApproximateBestSubset (flips : ℕ → ℕ → Bool) (vValue : List ValuedCoin)
    (nTotalLower nTargetValue : ℤ) (iterations : ℕ) : Finset ℕ × ℤ :=
  let s := SubsetSearch.search vValue nTargetValue flips iterations
    ⟨Finset.range vValue.length, nTotalLower, ∅, 0, false⟩
  (s.vfBest, s.nBest)

/-! ## One tier -/

/-- What is random in one call of `SelectCoinsMinConf`. -/
structure TierChoices where
  shuffle : List COutput → List COutput
  shuffle_perm : ∀ vCoins, (shuffle vCoins).Perm vCoins
  /-- The coins by value, the greatest first. -/
  sort : List ValuedCoin → List ValuedCoin
  sort_perm : ∀ vValue, (sort vValue).Perm vValue
  sort_sorted : ∀ vValue, (sort vValue).Pairwise fun coin coin' => coin'.1 ≤ coin.1
  flips : ℕ → ℕ → Bool
  flipsChange : ℕ → ℕ → Bool

/-- `setCoinsRet` and `nValueRet`. -/
structure CoinsRet where
  setCoinsRet : Finset COutPoint
  nValueRet : ℤ

def CoinsRet.add (ret : CoinsRet) (coin : ValuedCoin) : CoinsRet :=
  ⟨insert coin.2 ret.setCoinsRet, ret.nValueRet + coin.1⟩

def CoinsRet.addAll (ret : CoinsRet) (coins : List ValuedCoin) : CoinsRet :=
  coins.foldl CoinsRet.add ret

/-- The variables of the loop over the coins. -/
structure CoinScan where
  coinLowestLarger : ℤ × Option COutPoint := (2 ^ 63 - 1, none)
  vValue : List ValuedCoin := []
  nTotalLower : ℤ := 0

section Select

variable (E : CoinEnv)

/-- One coin of the loop; an error is the coin that is the target itself. -/
def scanCoin (nTargetValue nConfMine nConfTheirs : ℤ) (scan : CoinScan) (output : COutput) :
    Except ValuedCoin CoinScan :=
  if ¬ output.fSpendable then .ok scan
  else if output.nDepth < (if E.IsFromMe output.tx then nConfMine else nConfTheirs) then .ok scan
  else
    let n := output.txout.nValue
    if n = nTargetValue then .error output.coin
    else if n < nTargetValue + CENT then
      .ok { scan with
        vValue := scan.vValue ++ [output.coin], nTotalLower := scan.nTotalLower + n }
    else if n < scan.coinLowestLarger.1 then
      .ok { scan with coinLowestLarger := (n, some output.outpoint) }
    else .ok scan

/-- The coins whose flags are set. -/
def flagged (vValue : List ValuedCoin) (vfBest : Finset ℕ) : List ValuedCoin :=
  (vValue.zipIdx.filter fun coin => coin.2 ∈ vfBest).map Prod.fst

/-- The part of `SelectCoinsMinConf` after its loop. -/
def selectFromScan (choices : TierChoices) (nTargetValue : ℤ) (scan : CoinScan) : Bool × CoinsRet :=
  let ret : CoinsRet := ⟨∅, 0⟩
  if scan.nTotalLower = nTargetValue then (true, ret.addAll scan.vValue)
  else if scan.nTotalLower < nTargetValue then
    match scan.coinLowestLarger.2 with
    | none => (false, ret)
    | some outpoint => (true, ret.add (scan.coinLowestLarger.1, outpoint))
  else
    let vValue := choices.sort scan.vValue
    let best := ApproximateBestSubset choices.flips vValue scan.nTotalLower nTargetValue 1000
    let best :=
      if best.2 ≠ nTargetValue ∧ scan.nTotalLower ≥ nTargetValue + CENT then
        ApproximateBestSubset choices.flipsChange vValue scan.nTotalLower (nTargetValue + CENT) 1000
      else best
    match scan.coinLowestLarger.2 with
    | some outpoint =>
      if (best.2 ≠ nTargetValue ∧ best.2 < nTargetValue + CENT) ∨
          scan.coinLowestLarger.1 ≤ best.2 then
        (true, ret.add (scan.coinLowestLarger.1, outpoint))
      else (true, ret.addAll (flagged vValue best.1))
    | none => (true, ret.addAll (flagged vValue best.1))

def SelectCoinsMinConf (choices : TierChoices) (nTargetValue nConfMine nConfTheirs : ℤ)
    (vCoins : List COutput) : Bool × CoinsRet :=
  match (choices.shuffle vCoins).foldlM (scanCoin E nTargetValue nConfMine nConfTheirs) {} with
  | .error coin => (true, CoinsRet.add ⟨∅, 0⟩ coin)
  | .ok scan => selectFromScan choices nTargetValue scan

/-- `SelectCoins`, with what the three tiers choose. -/
def SelectCoins (mapWallet : CoinTable) (nTargetValue : ℤ) (coinControl : Option CCoinControl)
    (choices₁ choices₂ choices₃ : TierChoices) (ret : CoinsRet) : Bool × CoinsRet :=
  let vCoins := AvailableCoins E mapWallet true coinControl
  if ∃ control ∈ coinControl, control.HasSelected then
    let ret := ret.addAll (vCoins.map COutput.coin)
    (ret.nValueRet ≥ nTargetValue, ret)
  else
    let result₁ := SelectCoinsMinConf E choices₁ nTargetValue 1 6 vCoins
    if result₁.1 then result₁
    else
      let result₂ := SelectCoinsMinConf E choices₂ nTargetValue 1 1 vCoins
      if result₂.1 then result₂
      else SelectCoinsMinConf E choices₃ nTargetValue 0 1 vCoins

end Select

end Phoenixcoin.Program
