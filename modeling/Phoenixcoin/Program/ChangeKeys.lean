import Phoenixcoin.Program.Accounts
import Phoenixcoin.Program.CreateTransaction
import Phoenixcoin.Program.HybridUsage

/-!
# Hybrid keys for the change

`CreateTransaction` of `wallet.cpp` on the hybrid keys of the wallet. A round of the fee loop whose
change goes to a hybrid key calls `GetUnusedHybridKey`, and what that does to the wallet stays,
whatever becomes of the round.
-/

set_option autoImplicit false

namespace Phoenixcoin.Program

open Lib

/-- A round of the fee loop: its choices, the key of `reservekey`, and what `GetUnusedHybridKey`
meets where the round calls it. -/
structure HybridRound (C : KeyCrypto) where
  choices : RoundChoices
  reservedKeyID : CKeyID
  o : WalletDbOutcome
  oPool : WalletDbOutcome
  fresh : ℕ → Option (FreshKey C)

section Create

variable {C : KeyCrypto} (env : CreateEnv)

/-- The coins of a round in their order and the change, where the round gets that far. -/
def roundChange (c : RoundChoices) (nValue nFeeRet : ℤ) : Option (List COutPoint × ℤ) :=
  (int64 (nValue + nFeeRet)).bind fun nTotalValue =>
    let (fSelected, ret) := SelectCoins env.coins env.mapWallet nTotalValue env.coinControl
      c.tier₁ c.tier₂ c.tier₃ ⟨∅, 0⟩
    if ¬ fSelected then none
    else
      (int64 (ret.nValueRet - nValue)).bind fun nRest =>
        (int64 (nRest - nFeeRet)).map fun nChange => (c.order ret.setCoinsRet, nChange)

/-- The change of the round goes to a hybrid key of the wallet. -/
def wantsHybridKey (c : RoundChoices) (nValue nFeeRet : ℤ) : Bool :=
  (roundChange env c nValue nFeeRet).any fun (coins, nChange) =>
    nChange ≥ TX_DUST ∧ env.changeDest = none ∧ hybridChange env.mapWallet coins

/-- The call of `GetUnusedHybridKey` of a round. -/
def HybridRound.requestKey (r : HybridRound C) (nValue nFeeRet : ℤ) (w : HybridWallet) :
    Option CHybridKeyID × HybridWallet :=
  if wantsHybridKey env r.choices nValue nFeeRet then w.GetUnusedHybridKey C r.o r.oPool r.fresh
  else (none, w)

/-- The choices of a round, with the destinations of its keys. -/
def HybridRound.withKeys (r : HybridRound C) (hybridID : Option CHybridKeyID) : RoundChoices :=
  { r.choices with
    reservedKey := SetDestination (some (.key r.reservedKeyID))
    unusedHybridKey := hybridID.map fun keyID => SetDestination (some (.hybridKey keyID)) }

/-- A round of the fee loop. -/
def HybridRound.run (r : HybridRound C) (vecSend : List (CScript × ℤ)) (nValue nFeeRet : ℤ)
    (w : HybridWallet) : Option FeeRound × HybridWallet :=
  let (hybridID, w) := r.requestKey env nValue nFeeRet w
  (createRound env (r.withKeys hybridID) vecSend nValue nFeeRet, w)

/-- The fee loop from round `i` on, as `feeLoop`. -/
def hybridFeeLoop (rounds : ℕ → HybridRound C) (vecSend : List (CScript × ℤ)) (nValue : ℤ) :
    ℕ → ℕ → ℤ → HybridWallet → Option (CreateResult × HybridWallet)
  | 0, _, _, _ => none
  | fuel + 1, i, nFeeRet, w =>
    match (rounds i).run env vecSend nValue nFeeRet w with
    | (none, w) => some (.undefined, w)
    | (some (.finished result), w) => some (result, w)
    | (some (.again nFeeRet), w) => hybridFeeLoop rounds vecSend nValue fuel (i + 1) nFeeRet w

/-- `CWallet::CreateTransaction`, with the wallet that it leaves. -/
def CreateHybridTransaction (rounds : ℕ → HybridRound C) (fuel : ℕ)
    (vecSend : List (CScript × ℤ)) (w : HybridWallet) : Option (CreateResult × HybridWallet) :=
  match sumAmounts 0 vecSend with
  | .error result => some (result, w)
  | .ok nValue =>
    if vecSend = [] then some (.failed .noOutputs, w)
    else if nValue < 0 then some (.failed .invalidOutputAmount, w)
    else hybridFeeLoop env rounds vecSend nValue fuel 0 env.nTransactionFee w

end Create

end Phoenixcoin.Program
