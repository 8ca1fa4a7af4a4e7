import Phoenixcoin.Lib.RunTrace
import Phoenixcoin.Program.CoinSelection
import Phoenixcoin.Program.Int64
import Phoenixcoin.Program.Miner

/-!
# Creating transactions

`GetMinFee` of `main.cpp` and `CreateTransaction` of `wallet.cpp`. Keys, signatures and the priority
of the inputs are given for each round of the fee loop. A sum that leaves the range of `int64` has
no defined value in the source, and the call no result.
-/

set_option autoImplicit false

namespace Phoenixcoin.Program

open Lib txnouttype

def MIN_RELAY_TX_FEE : ℤ := 100000

def TX_DUST : ℤ := 1000000

inductive GetMinFee_mode where
  | GMF_BLOCK
  | GMF_RELAY
  | GMF_SEND
deriving DecidableEq

open GetMinFee_mode

/-- `CTransaction::GetMinFee`. Sizes are of type `unsigned int`. -/
def CTransaction.GetMinFee (nBytes : ℕ) (fAllowFree : Bool) (mode : GetMinFee_mode)
    (tx : CTransaction) : ℤ :=
  let nBaseFee := if mode = GMF_RELAY then MIN_RELAY_TX_FEE else MIN_TX_FEE
  let nNewBlockSize := if mode = GMF_SEND then nBytes else (1000 + nBytes) % 2 ^ 32
  let nKb : ℕ := (nBytes + 999) % 2 ^ 32 / 1000
  let nMinFee := min (nKb * nBaseFee) 50000000
  let fFree := if mode = GMF_SEND then nBytes < 2000 else nNewBlockSize < 11000
  let nMinFee := if fAllowFree ∧ fFree then 0 else nMinFee
  let nMinFee := tx.vout.foldl
    (fun nMinFee txout => if txout.nValue < TX_DUST then nMinFee + nBaseFee else nMinFee) nMinFee
  if mode ≠ GMF_SEND ∧ nNewBlockSize ≥ MAX_BLOCK_SIZE_GEN / 2 then
    if nNewBlockSize ≥ MAX_BLOCK_SIZE_GEN then MAX_MONEY
    else
      let nMinFee := nMinFee * ((MAX_BLOCK_SIZE_GEN / (MAX_BLOCK_SIZE_GEN - nNewBlockSize) : ℕ) : ℤ)
      if ¬ MoneyRange nMinFee then MAX_MONEY else nMinFee
  else nMinFee

/-- The exact numbers that `GetMinFee` keeps in an `int64`. An output that is no dust adds
nothing. -/
def CTransaction.minFeeAmounts (nBytes : ℕ) (fAllowFree : Bool) (mode : GetMinFee_mode)
    (tx : CTransaction) : List ℤ :=
  let nBaseFee := if mode = GMF_RELAY then MIN_RELAY_TX_FEE else MIN_TX_FEE
  let nNewBlockSize := if mode = GMF_SEND then nBytes else (1000 + nBytes) % 2 ^ 32
  let nKb : ℕ := (nBytes + 999) % 2 ^ 32 / 1000
  let fFree := if mode = GMF_SEND then nBytes < 2000 else nNewBlockSize < 11000
  let nMinFee := if fAllowFree ∧ fFree then 0 else min (nKb * nBaseFee) 50000000
  let dust (txout : CTxOut) : Option ℤ := some (if txout.nValue < TX_DUST then nBaseFee else 0)
  nKb * nBaseFee :: runningSums dust nMinFee tx.vout ++
    if mode ≠ GMF_SEND ∧ MAX_BLOCK_SIZE_GEN / 2 ≤ nNewBlockSize ∧
        nNewBlockSize < MAX_BLOCK_SIZE_GEN then
      [(nMinFee + (valuesOf dust tx.vout).sum) *
        ((MAX_BLOCK_SIZE_GEN / (MAX_BLOCK_SIZE_GEN - nNewBlockSize) : ℕ) : ℤ)]
    else []

/-- What `strFailReason` says. -/
inductive FailReason where
  | noOutputs
  | invalidOutputAmount
  | insufficientFunds (nTotalValue : ℤ)
  | noUnusedHybridKey
  | couldNotSign (nIn : ℕ) (coin : COutPoint)
  | tooLarge (nBytes : ℕ)
deriving DecidableEq

/-- How `CreateTransaction` ends. -/
inductive CreateResult where
  | undefined
  | failed (strFailReason : FailReason)
  | created (wtxNew : CTransaction) (vfChange : List Bool) (nFeeRet : ℤ)
deriving DecidableEq

/-- How a round of the fee loop ends. -/
inductive FeeRound where
  | again (nFeeRet : ℤ)
  | finished (result : CreateResult)

/-- The wallet with its settings; `changeDest` is the script of `coinControl->destChange`. -/
structure CreateEnv where
  coins : CoinEnv
  mapWallet : CoinTable
  nTransactionFee : ℤ
  coinControl : Option CCoinControl
  changeDest : Option CScript

/-- What a round of the fee loop draws or asks the key stores for. The coins of a set come in the
order of their addresses. -/
structure RoundChoices where
  tier₁ : TierChoices
  tier₂ : TierChoices
  tier₃ : TierChoices
  order : Finset COutPoint → List COutPoint
  nodup_order : ∀ setCoins, (order setCoins).Nodup
  toFinset_order : ∀ setCoins, (order setCoins).toFinset = setCoins
  reservedKey : CScript
  unusedHybridKey : Option CScript
  GetRandInt : ℕ → ℕ
  GetRandInt_lt : ∀ nMax, 0 < nMax → GetRandInt nMax < nMax
  SignSignature : CTransaction → ℕ → Option CScript
  AllowFree : List COutPoint → ℕ → Bool

section Create

variable (env : CreateEnv)

/-- The sum of the requested amounts. -/
def sumAmounts : ℤ → List (CScript × ℤ) → Except CreateResult ℤ
  | nValue, [] => .ok nValue
  | nValue, s :: vecSend =>
    if nValue < 0 then .error (.failed .invalidOutputAmount)
    else
      match int64 (nValue + s.2) with
      | none => .error .undefined
      | some nValue => sumAmounts nValue vecSend

/-- The outputs to the payees. -/
def payees (vecSend : List (CScript × ℤ)) : List CTxOut := vecSend.map fun s => ⟨s.2, s.1⟩

/-- `coin.first->vout[coin.second]`. -/
def coinOutput (mapWallet : CoinTable) (coin : COutPoint) : Option CTxOut :=
  (mapWallet.lookup coin.hash).bind fun wtx => wtx.vout[coin.n]?

/-- `fHybridChange`: an input is locked by a hybrid key. -/
def hybridChange (mapWallet : CoinTable) (coins : List COutPoint) : Bool :=
  coins.any fun coin =>
    match (coinOutput mapWallet coin).bind fun prevout => Solver prevout.scriptPubKey with
    | some (whichType, _) =>
      whichType = TX_HYBRID_PUBKEY ∨ whichType = TX_HYBRID_PUBKEYHASH ∨
        whichType = TX_HYBRID_MULTISIG
    | none => false

variable (c : RoundChoices)

/-- `scriptChange`. -/
def changeScript (coins : List COutPoint) : Except FailReason CScript :=
  match env.changeDest with
  | some scriptChange => .ok scriptChange
  | none =>
    if hybridChange env.mapWallet coins then
      match c.unusedHybridKey with
      | none => .error .noUnusedHybridKey
      | some scriptChange => .ok scriptChange
    else .ok c.reservedKey

/-- The loop that signs the inputs, from input `nIn` on. -/
def signInputs (SignSignature : CTransaction → ℕ → Option CScript) :
    ℕ → List COutPoint → CTransaction → Except FailReason CTransaction
  | _, [], tx => .ok tx
  | nIn, coin :: coins, tx =>
    match SignSignature tx nIn with
    | none => .error (.couldNotSign nIn coin)
    | some scriptSig =>
      signInputs SignSignature (nIn + 1) coins
        { tx with vin := tx.vin.modify nIn fun txin => { txin with scriptSig } }

/-- The end of a round, once the outputs are chosen: inputs, signatures, size and fee. -/
def finishRound (coins : List COutPoint) (vout : List CTxOut)
    (vfChange : List Bool) (nFeeRet : ℤ) : Option FeeRound :=
  let vin : List CTxIn := coins.map fun coin => ⟨coin, [], uintMax⟩
  match signInputs c.SignSignature 0 coins { vin, vout } with
  | .error strFailReason => some (.finished (.failed strFailReason))
  | .ok wtxNew =>
    let nBytes := wtxNew.getSerializeSize
    if nBytes ≥ MAX_BLOCK_SIZE_GEN / 5 then some (.finished (.failed (.tooLarge nBytes)))
    else
      (int64 (env.nTransactionFee * (1 + (nBytes / 1000 : ℕ)))).map fun nPayFee =>
        let nMinFee := wtxNew.GetMinFee nBytes (c.AllowFree coins nBytes) GMF_SEND
        if nFeeRet < max nPayFee nMinFee then .again (max nPayFee nMinFee)
        else .finished (.created wtxNew vfChange nFeeRet)

/-- The part of a round after the selection: change from `TX_DUST` on gets an output, and less is
added to the fee. -/
def splitChange (vecSend : List (CScript × ℤ)) (coins : List COutPoint)
    (nChange nFeeRet : ℤ) : Option FeeRound :=
  let vout := payees vecSend
  if nChange ≥ TX_DUST then
    match changeScript env c coins with
    | .error strFailReason => some (.finished (.failed strFailReason))
    | .ok scriptChange =>
      let nChangeIndex := c.GetRandInt vout.length
      finishRound env c coins (vout.insertIdx nChangeIndex ⟨nChange, scriptChange⟩)
        ((List.replicate (vout.length + 1) false).set nChangeIndex true) nFeeRet
  else
    (int64 (nFeeRet + nChange)).bind fun nFeeRet =>
      finishRound env c coins vout (List.replicate vout.length false) nFeeRet

/-- A round of the fee loop; `none` is an overflow. -/
def createRound (vecSend : List (CScript × ℤ)) (nValue nFeeRet : ℤ) :
    Option FeeRound :=
  (int64 (nValue + nFeeRet)).bind fun nTotalValue =>
    let (fSelected, ret) := SelectCoins env.coins env.mapWallet nTotalValue env.coinControl
      c.tier₁ c.tier₂ c.tier₃ ⟨∅, 0⟩
    if ¬ fSelected then some (.finished (.failed (.insufficientFunds nTotalValue)))
    else
      (int64 (ret.nValueRet - nValue)).bind fun nRest =>
        (int64 (nRest - nFeeRet)).bind fun nChange =>
          splitChange env c vecSend (c.order ret.setCoinsRet) nChange nFeeRet

/-- The fee loop from round `i` on; without fuel there is no result. -/
def feeLoop (choices : ℕ → RoundChoices) (vecSend : List (CScript × ℤ)) (nValue : ℤ) :
    ℕ → ℕ → ℤ → Option CreateResult
  | 0, _, _ => none
  | fuel + 1, i, nFeeRet =>
    match createRound env (choices i) vecSend nValue nFeeRet with
    | none => some .undefined
    | some (.finished result) => some result
    | some (.again nFeeRet) => feeLoop choices vecSend nValue fuel (i + 1) nFeeRet

def CreateTransaction (choices : ℕ → RoundChoices) (fuel : ℕ) (vecSend : List (CScript × ℤ)) :
    Option CreateResult :=
  match sumAmounts 0 vecSend with
  | .error result => some result
  | .ok nValue =>
    if vecSend = [] then some (.failed .noOutputs)
    else if nValue < 0 then some (.failed .invalidOutputAmount)
    else feeLoop env choices vecSend nValue fuel 0 env.nTransactionFee

end Create

end Phoenixcoin.Program
