import Phoenixcoin.Program.WalletReload

/-!
# Hybrid keys that were used

`GetUnusedHybridKey` of `wallethybrid.cpp` and the two sets that it works on: the keys that were
used, which a start completes from the labels and the transactions of the wallet, and the loaded
keys that wait to be used.
-/

set_option autoImplicit false

namespace Phoenixcoin.Program

open Lib

namespace HybridWallet

variable (C : KeyCrypto) (o : WalletDbOutcome) (w : HybridWallet)

def RebuildUnusedHybridKeySet : HybridWallet :=
  { w with
    setUnusedHybridKeys :=
      (w.mapHybridKeys.keys.filter fun hybridID => hybridID ∉ w.setUsedHybridKeys) ∪
        w.mapHybridKeyDisk.keys.filter fun hybridID => hybridID ∉ w.setUsedHybridKeys }

/-! ## The keys that are recorded as used -/

/-- The outputs of the transactions of the wallet. -/
def walletOutputs : List CTxOut :=
  (Table.sortedKeys w.mapWallet).flatMap fun hash =>
    (w.mapWallet.lookup hash).elim [] CTransaction.vout

/-- The hybrid key that `BackfillHybridUsedKeys` finds paid by an output. A payment to a legacy
address counts for the first hybrid key with that EC half. -/
def backfilledBy (txout : CTxOut) : Option CHybridKeyID :=
  match ExtractDestination C.toDigests txout.scriptPubKey with
  | some (.hybridKey hybridID) => if w.HaveHybridKeyByHash hybridID then some hybridID else none
  | some (.key keyID) => w.FindHybridKeyByLegacyID C keyID
  | _ => none

def BackfillHybridUsedKeys : HybridWallet :=
  let setUsed := w.setUsedHybridKeys ∪ w.mapHybridAddressBook.keys ∪
    (w.walletOutputs.filterMap (w.backfilledBy C)).toFinset
  { w with
    setUsedHybridKeys := setUsed
    db :=
      if setUsed ≠ w.setUsedHybridKeys ∧ w.fFileBacked then
        (o.WriteHybridUsedKeys setUsed w.db).getD w.db
      else w.db }

/-- `SetHybridAddressBookName` at a given time. -/
def SetHybridAddressBookName (nTime : ℤ) (keyID : CHybridKeyID)
    (strName strPurpose : List UInt8) : Bool × HybridWallet :=
  if (w.mapHybridKeys.lookup keyID).isNone then (false, w)
  else
    let entry : CHybridAddressEntry := .ofLabel nTime strName strPurpose
    let w : HybridWallet :=
      { w with mapHybridAddressBook := w.mapHybridAddressBook.insert keyID entry }
    if w.fFileBacked then
      match o.WriteHybridAddressEntry keyID entry w.db with
      | none => (false, w)
      | some db => (true, { w with db := db })
    else (true, w)

/-! ## GetUnusedHybridKey -/

/-- The allocation of the first key that waits; it is taken back where it cannot be stored. -/
def allocateHybridKey : Option CHybridKeyID × HybridWallet :=
  match (w.setUnusedHybridKeys.sort).head? with
  | none => (none, w)
  | some hybridID =>
    let fWasUsed : Bool := hybridID ∈ w.setUsedHybridKeys
    let w : HybridWallet := { w with
      setUnusedHybridKeys := w.setUnusedHybridKeys.erase hybridID
      setUsedHybridKeys := insert hybridID w.setUsedHybridKeys }
    if w.fFileBacked then
      match o.WriteHybridUsedKeys w.setUsedHybridKeys w.db with
      | none => (none, { w with
          setUsedHybridKeys :=
            if fWasUsed then w.setUsedHybridKeys else w.setUsedHybridKeys.erase hybridID
          setUnusedHybridKeys := insert hybridID w.setUnusedHybridKeys })
      | some db => (some hybridID, { w with db := db })
    else (some hybridID, w)

/-- `GetUnusedHybridKey`; `oPool` and `fresh` are for the keys that it makes when few are left. -/
def GetUnusedHybridKey (oPool : WalletDbOutcome) (fresh : ℕ → Option (FreshKey C)) :
    Option CHybridKeyID × HybridWallet :=
  if w.setUnusedHybridKeys.card < 5 then
    match w.EnsureHybridKeyPool C oPool (w.mapHybridKeys.keys.card + 20) fresh with
    | (false, w) => (none, w)
    | (true, w) => w.allocateHybridKey o
  else w.allocateHybridKey o

/-! ## The start -/

/-- What `CWallet::LoadWallet` makes of the records of the keys and of the transactions; none where
it reports a corrupt wallet. -/
def LoadWallet (mapWallet : Table uint256 CTransaction) (oPool : WalletDbOutcome)
    (fresh : ℕ → Option (FreshKey C)) (db : WalletRecords) : Option HybridWallet :=
  (loadKeys C db).map fun w =>
    let w := ({ w with mapWallet := mapWallet } : HybridWallet).BackfillHybridUsedKeys C o
    (w.EnsureHybridKeyPool C oPool 20 fresh).2.RebuildUnusedHybridKeySet

end HybridWallet

end Phoenixcoin.Program
