import Phoenixcoin.Lib.SortedKeys
import Phoenixcoin.Program.WalletSync

/-!
# Zapping unconfirmed transactions

`ZapWalletTransactions` of `wallet.cpp` with the transaction records of the wallet database. Each
access to the database opens it; where the file cannot be opened the constructor of `CWalletDB`
throws and the wallet stays as it is at that point. The results of the writes are not looked at.
-/

set_option autoImplicit false

namespace Phoenixcoin.Program

open Lib

/-- `MarkUnspent`, which first resizes `vfSpent`. Its caller has checked that the output exists. -/
def WalletCoins.MarkUnspent (nOut : ℕ) (wtx : WalletCoins) : WalletCoins :=
  { wtx with
    vfSpent := ((wtx.vfSpent ++ List.replicate wtx.vout.length false).take wtx.vout.length).set
      nOut false }

/-- What zapping takes from the rest of the node. -/
structure ZapEnv where
  isMine : CTxOut → Bool
  GetDepthInMainChain : WalletCoins → ℤ

/-- Whether the `n`-th access to the wallet database finds its file, and whether it succeeds. -/
structure ZapOutcome where
  opens : ℕ → Bool
  succeeds : ℕ → Bool

/-- The transactions of the wallet in memory and in its database. -/
@[ext]
structure ZapWallet where
  mapWallet : CoinTable
  tx : CoinTable
deriving DecidableEq

/-- A wallet and the accesses to its database so far. -/
structure ZapRun extends ZapWallet where
  nAccess : ℕ

namespace ZapOutcome

variable (o : ZapOutcome)

/-- `CWalletDB(strWalletFile)` and one operation on it. -/
def access (change : CoinTable → CoinTable) (r : ZapRun) : Except ZapWallet ZapRun :=
  if ¬ o.opens r.nAccess then .error r.toZapWallet
  else .ok { r with
    tx := if o.succeeds r.nAccess then change r.tx else r.tx
    nAccess := r.nAccess + 1 }

end ZapOutcome

section Zap

variable (E : ZapEnv) (o : ZapOutcome)

/-- The transactions that are zapped, in the order of their hashes. -/
def setZapOf (mapWallet : CoinTable) : List uint256 :=
  (Table.sortedKeys mapWallet).filter fun hash =>
    (mapWallet.lookup hash).any fun wtx => E.GetDepthInMainChain wtx = 0

variable (setZap : List uint256)

/-- `fStillSpent`: a transaction that stays spends the output. -/
def stillSpent (mapWallet : CoinTable) (prevout : COutPoint) : Bool :=
  (Table.sortedKeys mapWallet).any fun other =>
    other ∉ setZap ∧ (mapWallet.lookup other).any fun wtx =>
      wtx.vin.any fun otherIn => otherIn.prevout = prevout

/-- One input of a zapped transaction. -/
def restoreInput (r : ZapRun) (txin : CTxIn) :
    Except ZapWallet ZapRun :=
  match r.mapWallet.lookup txin.prevout.hash with
  | none => .ok r
  | some prevWtx =>
    if ¬ prevWtx.vout[txin.prevout.n]?.any E.isMine then .ok r
    else if stillSpent setZap r.mapWallet txin.prevout then .ok r
    else
      let prevWtx := prevWtx.MarkUnspent txin.prevout.n
      o.access (fun tx => tx.insert txin.prevout.hash prevWtx)
        { r with mapWallet := r.mapWallet.insert txin.prevout.hash prevWtx }

/-- The inputs of one zapped transaction. -/
def restoreInputs (r : ZapRun) (hash : uint256) :
    Except ZapWallet ZapRun :=
  match r.mapWallet.lookup hash with
  | none => .ok r
  | some wtx => wtx.vin.foldlM (restoreInput E o setZap) r

/-- The removal of one transaction. -/
def removeZapped (r : ZapRun) (hash : uint256) : Except ZapWallet ZapRun :=
  match r.mapWallet.lookup hash with
  | none => .ok r
  | some _ => do
    let r ← o.access (fun tx => tx.erase hash) r
    .ok { r with mapWallet := r.mapWallet.erase hash }

/-- `ZapWalletTransactions`: the wallet where it returns true, and as an error the wallet where an
exception leaves it. -/
def ZapWalletTransactions (w : ZapWallet) : Except ZapWallet ZapWallet :=
  let setZap := setZapOf E w.mapWallet
  if setZap = [] then .ok w
  else do
    let r ← setZap.foldlM (restoreInputs E o setZap) ⟨w, 0⟩
    let r ← setZap.foldlM (removeZapped o) r
    .ok r.toZapWallet

end Zap

end Phoenixcoin.Program
