import Phoenixcoin.Lib.SortedKeys
import Phoenixcoin.Program.WalletSync

/-!
# Re-accepting the transactions of a wallet

`ReacceptWalletTransactions` of `wallet.cpp`, which repairs the spent flags of a wallet from its
own inputs and from the transaction index, with the records of the wallet database. What
`AcceptWalletTransaction` does to the memory pool does not touch the wallet and is left out.
-/

set_option autoImplicit false

namespace Phoenixcoin.Program

open Lib

/-- Whether the `n`-th access to the wallet database succeeds: a write of a record, or the
operations of one `AddToWallet`. -/
structure ReacceptOutcome where
  writeTx : ℕ → Bool
  addToWallet : ℕ → AddToWalletOutcome

/-- The wallet, the transaction records of its database, and the accesses to it so far. -/
structure ReacceptState extends SyncedWallet where
  tx : CoinTable
  nAccess : ℕ

section Reaccept

variable (E : WalletEnv) (o : ReacceptOutcome) (st : ReacceptState)

/-- `MarkSpent` and `WriteToDisk`, whose result is not looked at. -/
def markAndWrite (spent : SpentCoin) : ReacceptState :=
  match st.mapWallet.lookup spent.1 with
  | none => st
  | some wtx =>
    let wtx := wtx.MarkSpent spent.2
    { st with
      mapWallet := st.mapWallet.insert spent.1 wtx
      tx := if o.writeTx st.nAccess then st.tx.insert spent.1 wtx else st.tx
      nAccess := st.nAccess + 1 }

/-! ## The flags of spent outputs -/

/-- The outputs that an input of a wallet transaction spends; done in the first round only. -/
def repairTx (hash : uint256) : ReacceptState :=
  match st.mapWallet.lookup hash with
  | none => st
  | some wtx =>
    wtx.vin.foldl (fun st txin => (spentCoin E st.mapWallet txin).elim st (markAndWrite o st)) st

def repairSpent : ReacceptState :=
  (Table.sortedKeys st.mapWallet).foldl (repairTx E o) st

/-- One output of a transaction that is in the index, with `vMissingTx`. -/
def markOutput (txindex : CTxIndex) (acc : WalletCoins × List CDiskTxPos) (i : ℕ) :
    WalletCoins × List CDiskTxPos :=
  if acc.1.IsSpent i then acc
  else
    match txindex.vSpent[i]?, acc.1.vout[i]? with
    | some pos, some txout =>
      if ¬ pos.IsNull ∧ E.isMine txout then (acc.1.MarkSpent i, acc.2 ++ [pos]) else acc
    | _, _ => acc

variable (index : TxIndexTable)

/-- One transaction of the wallet. -/
def checkIndex (acc : ReacceptState × List CDiskTxPos) (hash : uint256) :
    ReacceptState × List CDiskTxPos :=
  match acc.1.mapWallet.lookup hash with
  | none => acc
  | some wtx =>
    if wtx.IsCoinBase ∧ wtx.IsSpent 0 then acc
    else
      match index.lookup (E.txHash wtx.toCTransaction) with
      | none => acc
      | some txindex =>
        -- an index entry of another size is an error that is only reported
        if txindex.vSpent.length ≠ wtx.vout.length then acc
        else
          let marked := (List.range txindex.vSpent.length).foldl (markOutput E txindex) (wtx, [])
          if marked.2 = [] then acc
          else
            ({ acc.1 with
                mapWallet := acc.1.mapWallet.insert hash marked.1
                tx := if o.writeTx acc.1.nAccess then acc.1.tx.insert hash marked.1 else acc.1.tx
                nAccess := acc.1.nAccess + 1 }, acc.2 ++ marked.2)

/-! ## Scanning blocks -/

/-- `AddToWalletIfInvolvingMe(tx, &block)`, and whether it returns true. -/
def addIfInvolvingMe (block : CBlock) (tx : CTransaction) :
    ReacceptState × Bool :=
  if E.txHash tx ∈ st.mapWallet then (st, false)
  else if tx.vout.any E.isMine ∨ isFromMe E st.mapWallet tx then
    let wtxIn := (WalletCoins.ofTransaction tx).setMerkleBranch E block
    let added := addToWallet E (o.addToWallet st.nAccess) wtxIn st.toSyncedWallet
    let vSpentCoins := collectWalletSpentCoins E
      (prepareAddToWallet E (E.txHash tx) wtxIn st.toSyncedWallet).1.mapWallet tx
    let written := E.txHash tx :: vSpentCoins.map Prod.fst
    ({ toSyncedWallet := added.2
       tx :=
        if added.1 then
          written.foldl (fun tx hash => (added.2.mapWallet.lookup hash).elim tx (tx.insert hash ·))
            st.tx
        else st.tx
       nAccess := st.nAccess + 1 }, added.1)
  else ((collectWalletSpentCoins E st.mapWallet tx).foldl (markAndWrite o) st, false)

/-- One transaction of a scan, where `nFound` counts what has been added. -/
def scanTx (acc : ReacceptState × ℕ) (found : CBlock × CTransaction) : ReacceptState × ℕ :=
  let added := addIfInvolvingMe E o acc.1 found.1 found.2
  (added.1, if added.2 then acc.2 + 1 else acc.2)

def scanBlock (acc : ReacceptState × ℕ) (block : CBlock) : ReacceptState × ℕ :=
  block.vtx.foldl (fun acc tx => scanTx E o acc (block, tx)) acc

/-- The file and the place of a block as one number. -/
def blockKey (pos : CDiskTxPos) : ℕ := pos.nFile * 2 ^ 32 + pos.nBlockPos

/-- `CBlock::ReadFromDisk(nFile, nBlockPos)`. -/
def readBlockAt (nBlockKey : ℕ) : Option CBlock :=
  if openBlockFile (nBlockKey / 2 ^ 32) then
    E.blockFileBlock (nBlockKey / 2 ^ 32) (nBlockKey % 2 ^ 32)
  else none

/-- The scan of some blocks, and whether one of them could not be read. -/
def scanBlocks : List ℕ → ReacceptState × ℕ → Bool × ReacceptState × ℕ
  | [], acc => (false, acc)
  | nBlockKey :: setMissingBlocks, acc =>
    match readBlockAt E nBlockKey with
    | none => (true, acc)
    | some block => scanBlocks setMissingBlocks (scanBlock E o acc block)

/-! ## The loop -/

/-- One round, and whether another one follows. The full scan reads the blocks of `chain`. -/
def reacceptRound (chain : List CBlock) (st : ReacceptState) :
    ReacceptState × Bool :=
  let checked := (Table.sortedKeys st.mapWallet).foldl (checkIndex E o index) (st, [])
  if checked.2 = [] then (checked.1, false)
  else
    let setMissingBlocks := (checked.2.map blockKey).dedup.insertionSort (· ≤ ·)
    let scanned := scanBlocks E o setMissingBlocks (checked.1, 0)
    if scanned.1 then
      let full := chain.foldl (scanBlock E o) (scanned.2.1, 0)
      (full.1, full.2 > 0)
    else (scanned.2.1, scanned.2.2 > 0)

/-- The body of the loop. At its end it gives the state before and after the last round. -/
def reacceptBody (chain : List CBlock) (st : ReacceptState) :
    (ReacceptState × ReacceptState) ⊕ ReacceptState :=
  let next := reacceptRound E o index chain st
  if next.2 then .inr next.1 else .inl (st, next.1)

def reacceptRounds (index : TxIndexTable) (chain : List CBlock) :
    ℕ → ReacceptState → ReacceptState × ReacceptState
  | 0, st => (st, st)
  | fuel + 1, st => (reacceptBody E o index chain st).elim id (reacceptRounds index chain fuel)

/-- `ReacceptWalletTransactions` with so many rounds at most. -/
def ReacceptWalletTransactions (chain : List CBlock) (fuel : ℕ)
    (st : ReacceptState) : ReacceptState :=
  (reacceptRounds E o index chain fuel (repairSpent E o st)).2

end Reaccept

end Phoenixcoin.Program
