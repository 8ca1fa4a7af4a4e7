import Phoenixcoin.Program.ChainEvents
import Phoenixcoin.Program.WalletLoad

/-!
# Wallets that follow the chain

`SyncWithWallets` hands every transaction of a connected block to `AddToWalletIfInvolvingMe` of
each wallet. The wallets do not depend on each other, so one of them is modelled. The keys of
the wallet stay the same: the rotation of the default key is left out.
-/

set_option autoImplicit false

namespace Phoenixcoin.Program

open Lib

/-- What the wallet takes from the rest of the node; `isMine` is decided by its keys. -/
structure WalletEnv extends NodeEnv where
  getMerkleBranch : CBlock → ℕ → List uint256
  isMine : CTxOut → Bool
  nAdjustedTime : ℕ

/-- Which operations of the wallet database succeed during one `AddToWallet`. -/
structure AddToWalletOutcome where
  txnBegin : Bool := true
  writePrepared : Bool := true
  writeCoin : uint256 × ℕ → Bool := fun _ => true
  txnCommit : Bool := true

/-! ## Transactions with spent flags -/

/-- `CWalletTx` with `vfSpent`. -/
structure WalletCoins extends CWalletTx where
  vfSpent : List Bool
deriving DecidableEq, Repr

namespace WalletCoins

/-- The constructor `CWalletTx(pwallet, tx)`. -/
def ofTransaction (tx : CTransaction) : WalletCoins :=
  { CWalletTx.null with
    nVersion := tx.nVersion
    vin := tx.vin
    vout := tx.vout
    nLockTime := tx.nLockTime
    fBound := true
    vfSpent := [] }

/-- `SetMerkleBranch` for a block that is given. -/
def setMerkleBranch (E : WalletEnv) (block : CBlock) (wtx : WalletCoins) : WalletCoins :=
  match block.vtx.findIdx? (· = wtx.toCTransaction) with
  | some nIndex =>
    { wtx with
      hashBlock := E.blockHash block.toCBlockHeader
      nIndex := nIndex
      vMerkleBranch := E.getMerkleBranch block nIndex }
  | none =>
    { wtx with
      hashBlock := E.blockHash block.toCBlockHeader
      nIndex := -1
      vMerkleBranch := [] }

/-- `IsSpent`. Its callers have checked that the output exists. -/
def IsSpent (wtx : WalletCoins) (nOut : ℕ) : Bool :=
  nOut < wtx.vout.length && wtx.vfSpent.getD nOut false

/-- `MarkSpent`, which first resizes `vfSpent`. -/
def MarkSpent (nOut : ℕ) (wtx : WalletCoins) : WalletCoins :=
  { wtx with
    vfSpent := ((wtx.vfSpent ++ List.replicate wtx.vout.length false).take wtx.vout.length).set
      nOut true }

/-- The flags after `UpdateSpent`. -/
def orSpent : List Bool → List Bool → List Bool
  | fNew :: vfNewSpent, f :: vfSpent => (fNew || f) :: orSpent vfNewSpent vfSpent
  | _, vfSpent => vfSpent

/-- The part of `PrepareAddToWallet` that merges `wtxIn` into a transaction that was there: it
says whether anything has changed. -/
def merge (wtxIn wtx : WalletCoins) : Bool × WalletCoins :=
  let fHashBlock := wtxIn.hashBlock ≠ 0 ∧ wtxIn.hashBlock ≠ wtx.hashBlock
  let fBranch := wtxIn.nIndex ≠ -1 ∧
    (wtxIn.vMerkleBranch ≠ wtx.vMerkleBranch ∨ wtxIn.nIndex ≠ wtx.nIndex)
  let fFromMe := wtxIn.fFromMe ≠ 0 ∧ wtxIn.fFromMe ≠ wtx.fFromMe
  let fSpent := orSpent wtxIn.vfSpent wtx.vfSpent ≠ wtx.vfSpent
  (fHashBlock ∨ fBranch ∨ fFromMe ∨ fSpent, { wtx with
      hashBlock := if fHashBlock then wtxIn.hashBlock else wtx.hashBlock
      vMerkleBranch := if fBranch then wtxIn.vMerkleBranch else wtx.vMerkleBranch
      nIndex := if fBranch then wtxIn.nIndex else wtx.nIndex
      fFromMe := if fFromMe then wtxIn.fFromMe else wtx.fFromMe
      vfSpent := orSpent wtxIn.vfSpent wtx.vfSpent })

end WalletCoins

/-! ## The wallet -/

abbrev CoinTable : Type := Table uint256 WalletCoins

structure SyncedWallet where
  mapWallet : CoinTable
  nOrderPosNext : ℤ
deriving DecidableEq

/-- An output of a wallet transaction. -/
abbrev SpentCoin : Type := uint256 × ℕ

section Sync

variable (E : WalletEnv) (o : AddToWalletOutcome) (mapWallet : CoinTable)

/-- `CWallet::GetDebit(txin)`. -/
def getDebitIn (txin : CTxIn) : ℤ :=
  match mapWallet.lookup txin.prevout.hash with
  | some prev =>
    match prev.vout[txin.prevout.n]? with
    | some txout => if E.isMine txout then txout.nValue else 0
    | none => 0
  | none => 0

/-- `CWallet::IsFromMe`. `ConnectInputs` has checked the range of the same sum, so `GetDebit` does
not throw. -/
def isFromMe (tx : CTransaction) : Bool :=
  (tx.vin.map (getDebitIn E mapWallet)).sum > 0

/-- The part of `CollectWalletSpentCoins` that looks at one input. -/
def spentCoin (txin : CTxIn) : Option SpentCoin :=
  match mapWallet.lookup txin.prevout.hash with
  | some wtx =>
    match wtx.vout[txin.prevout.n]? with
    | some txout =>
      if ¬ wtx.IsSpent txin.prevout.n ∧ E.isMine txout then
        some (txin.prevout.hash, txin.prevout.n)
      else none
    | none => none
  | none => none

def collectWalletSpentCoins (tx : CTransaction) : List SpentCoin :=
  tx.vin.filterMap (spentCoin E mapWallet)

def markSpentCoin (spent : SpentCoin) : CoinTable :=
  match mapWallet.lookup spent.1 with
  | some wtx => mapWallet.insert spent.1 (wtx.MarkSpent spent.2)
  | none => mapWallet

/-- `WalletUpdateSpent`. It does not look at the result of `WriteToDisk`. -/
def walletUpdateSpent (tx : CTransaction) (w : SyncedWallet) : SyncedWallet :=
  { w with
    mapWallet := (collectWalletSpentCoins E w.mapWallet tx).foldl markSpentCoin w.mapWallet }

/-! ## AddToWallet -/

/-- `PrepareAddToWallet`: the wallet, `fInsertedNew` and `fNeedsWrite`. -/
def prepareAddToWallet (hash : uint256) (wtxIn : WalletCoins) (w : SyncedWallet) :
    SyncedWallet × Bool × Bool :=
  match w.mapWallet.lookup hash with
  | none =>
    ({ mapWallet := w.mapWallet.insert hash
        { wtxIn with
          fBound := true
          nTimeReceived := E.nAdjustedTime
          nOrderPos := w.nOrderPosNext }
       nOrderPosNext := w.nOrderPosNext + 1 }, true, true)
  | some wtx =>
    let merged := WalletCoins.merge wtxIn { wtx with fBound := true }
    ({ w with mapWallet := w.mapWallet.insert hash merged.2 }, false, merged.1)

/-- The snapshots of `vfSpent` that a rollback restores, one for each transaction. -/
abbrev SpentUndo : Type := List (uint256 × List Bool)

/-- `StageWalletSpentCoins`: whether all coins were written, the transactions and the
snapshots. -/
def stageWalletSpentCoins : List SpentCoin → CoinTable → SpentUndo →
    Bool × CoinTable × SpentUndo
  | [], mapWallet, vSpentUndo => (true, mapWallet, vSpentUndo)
  | spent :: vSpentCoins, mapWallet, vSpentUndo =>
    match mapWallet.lookup spent.1 with
    | none => stageWalletSpentCoins vSpentCoins mapWallet vSpentUndo
    | some wtx =>
      let vSpentUndo :=
        if vSpentUndo.any fun undo => undo.1 = spent.1 then vSpentUndo
        else vSpentUndo ++ [(spent.1, wtx.vfSpent)]
      let mapWallet := mapWallet.insert spent.1 (wtx.MarkSpent spent.2)
      if o.writeCoin spent then stageWalletSpentCoins vSpentCoins mapWallet vSpentUndo
      else (false, mapWallet, vSpentUndo)

def rollbackSpentCoins (vSpentUndo : SpentUndo) (mapWallet : CoinTable) : CoinTable :=
  vSpentUndo.foldl (fun mapWallet undo =>
    match mapWallet.lookup undo.1 with
    | some wtx => mapWallet.insert undo.1 { wtx with vfSpent := undo.2 }
    | none => mapWallet) mapWallet

/-- `RollbackAddToWallet` of a wallet that was `wPrev` before. -/
def rollbackAddToWallet (hash : uint256) (wPrev w : SyncedWallet) : SyncedWallet :=
  match wPrev.mapWallet.lookup hash with
  | none => { mapWallet := w.mapWallet.erase hash, nOrderPosNext := wPrev.nOrderPosNext }
  | some wtx =>
    match w.mapWallet.lookup hash with
    | some _ => { w with mapWallet := w.mapWallet.insert hash { wtx with fBound := true } }
    | none => w

/-- `CWallet::AddToWallet`: the result and the wallet afterwards. -/
def addToWallet (wtxIn : WalletCoins) (w : SyncedWallet) : Bool × SyncedWallet :=
  let hash := E.txHash wtxIn.toCTransaction
  let prepared := prepareAddToWallet E hash wtxIn w
  let vSpentCoins := collectWalletSpentCoins E prepared.1.mapWallet wtxIn.toCTransaction
  if prepared.2.2 ∨ vSpentCoins ≠ [] then
    if ¬ o.txnBegin ∨ ¬ o.writePrepared then (false, rollbackAddToWallet hash w prepared.1)
    else
      let staged := stageWalletSpentCoins o vSpentCoins prepared.1.mapWallet []
      if ¬ staged.1 ∨ ¬ o.txnCommit then
        (false, rollbackAddToWallet hash w
          { prepared.1 with mapWallet := rollbackSpentCoins staged.2.2 staged.2.1 })
      else (true, { prepared.1 with mapWallet := staged.2.1 })
  else (true, prepared.1)

def addToWalletIfInvolvingMe (block : CBlock) (tx : CTransaction) (w : SyncedWallet) :
    Bool × SyncedWallet :=
  if E.txHash tx ∈ w.mapWallet ∨ tx.vout.any E.isMine ∨ isFromMe E w.mapWallet tx then
    addToWallet E o ((WalletCoins.ofTransaction tx).setMerkleBranch E block) w
  else (false, walletUpdateSpent E tx w)

end Sync

/-! ## SyncWithWallets -/

/-- The calls of `AddToWalletIfInvolvingMe` that events of the chain lead to. -/
def syncCalls (events : List ChainEvent) : List (CBlock × CTransaction) :=
  events.flatMap fun event =>
    match event with
    | .syncWithWallets block => block.vtx.map (Prod.mk block)
    | _ => []

/-- One such call. What its database operations do depends on the block and the transaction. -/
def syncCall (E : WalletEnv) (outcomes : CBlock → CTransaction → AddToWalletOutcome)
    (w : SyncedWallet) (call : CBlock × CTransaction) : SyncedWallet :=
  (addToWalletIfInvolvingMe E (outcomes call.1 call.2) call.1 call.2 w).2

end Phoenixcoin.Program
