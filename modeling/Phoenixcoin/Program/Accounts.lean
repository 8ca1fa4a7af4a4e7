import Phoenixcoin.Lib.SortedKeys
import Phoenixcoin.Lib.Tally
import Phoenixcoin.Program.BlockRules
import Phoenixcoin.Program.WalletLoad

/-!
# Accounts of the wallet

`GetAccountBalance`, `getbalance "*"` and `listaccounts` of `rpcwallet.cpp` with the functions of
`wallet.cpp` and `walletdb.cpp` that they tally with. Amounts are integers without a bound; an
exception gives none.
-/

set_option autoImplicit false

namespace Phoenixcoin.Program

open Lib

/-- `CWalletTx` with what the accounts need of it. -/
structure AccountTx extends CWalletTx where
  /-- Which outputs are change; empty where that was not recorded. -/
  vfChange : List Bool
  fMerkleVerified : Bool
  /-- `nDebitCached`, if `fDebitCached` is set. -/
  nDebitCached : Option ℤ
deriving DecidableEq, Repr

/-! ## Accounting entries -/

/-- The key of an accounting entry in the database. -/
def acentryKey (key : List UInt8 × ℕ) : List UInt8 :=
  stringCodec.write "acentry".toUTF8.toList ++ (stringCodec.write key.1 ++ toLittleEndian 8 key.2)

/-- The accounting entries of the database, in the order of their keys. An account whose name is
too long could not be read back. -/
structure AccountingRecords where
  records : List ((List UInt8 × ℕ) × CAccountingEntry)
  sorted : records.Pairwise fun r r' => acentryKey r.1 < acentryKey r'.1
  fits : ∀ r ∈ records, r.1.1.length ≤ MAX_SIZE

/-- `"*"` stands for all accounts. -/
def strAllAccounts : List UInt8 := "*".toUTF8.toList

variable (acentries : AccountingRecords)

/-- `CWalletDB::ListAccountCreditDebit`: the accounts and entries from the first key that is not
below the one it seeks, to the first entry of another account. -/
def AccountingRecords.ListAccountCreditDebit
    (strAccount : List UInt8) : List (List UInt8 × CAccountingEntry) :=
  let fAllAccounts : Bool := strAccount = strAllAccounts
  let seek := acentryKey (if fAllAccounts then [] else strAccount, 0)
  let scan := acentries.records.dropWhile fun r => acentryKey r.1 < seek
  (scan.takeWhile fun r => fAllAccounts || r.1.1 = strAccount).map fun r => (r.1.1, r.2)

/-- The same scan with the keys of the entries. -/
def AccountingRecords.ListEntries (strAccount : List UInt8) :
    List ((List UInt8 × ℕ) × CAccountingEntry) :=
  let fAllAccounts : Bool := strAccount = strAllAccounts
  let seek := acentryKey (if fAllAccounts then [] else strAccount, 0)
  let scan := acentries.records.dropWhile fun r => acentryKey r.1 < seek
  scan.takeWhile fun r => fAllAccounts || r.1.1 = strAccount

def AccountingRecords.GetAccountCreditDebit (strAccount : List UInt8) : ℤ :=
  ((acentries.ListAccountCreditDebit strAccount).map fun entry => entry.2.nCreditDebit).sum

/-! ## The wallet -/

/-- What the accounts take from the rest of the node. -/
structure AccountEnv where
  digests : Digests
  /-- Whether `IsMine` of the keystore gives something else than `MINE_NO`. -/
  isMine : CScript → Bool
  /-- The height and the Merkle root of a block of the main chain. -/
  mainChain : uint256 → Option (ℤ × uint256)
  nBestHeight : ℤ
  nAdjustedTime : ℤ

/-- The wallet as its accounts see it. `CNoDestination` is none. -/
structure AccountWallet where
  mapWallet : Table uint256 AccountTx
  mapAddressBook : AList fun _ : Option CTxDestination => List UInt8
  acentries : AccountingRecords

def SetDestination : Option CTxDestination → CScript
  | none => []
  | some (.key keyID) =>
    [OP_DUP, OP_HASH160] ++ pushData (toLittleEndian 20 keyID) ++ [OP_EQUALVERIFY, OP_CHECKSIG]
  | some (.script scriptID) =>
    [OP_HASH160] ++ pushData (toLittleEndian 20 scriptID) ++ [OP_EQUAL]
  | some (.hybridKey keyID) =>
    [OP_DUPHYBRID, OP_HASHHYBRID160] ++ pushData (toLittleEndian 20 keyID) ++
      [OP_EQUALVERIFY, OP_CHECKHYBRIDSIG]

namespace AccountEnv

variable (E : AccountEnv)

/-- The loop of `CBlock::CheckMerkleBranch`. -/
def merkleBranchFrom : uint256 → ℤ → List uint256 → uint256
  | hash, _, [] => hash
  | hash, nIndex, otherside :: vMerkleBranch =>
    let bytes := toLittleEndian 32
    merkleBranchFrom (E.digests.Hash
        (if nIndex % 2 = 1 then bytes otherside ++ bytes hash else bytes hash ++ bytes otherside))
      (nIndex / 2) vMerkleBranch

def CheckMerkleBranch (hash : uint256) (vMerkleBranch : List uint256) (nIndex : ℤ) : uint256 :=
  if nIndex = -1 then 0 else E.merkleBranchFrom hash nIndex vMerkleBranch

def GetDepthInMainChain (wtx : AccountTx) : ℤ :=
  if wtx.hashBlock = 0 ∨ wtx.nIndex = -1 then 0
  else
    match E.mainChain wtx.hashBlock with
    | none => 0
    | some (nHeight, hashMerkleRoot) =>
      let hash := E.digests.Hash (CTransaction.codec.write wtx.toCTransaction)
      if ¬ wtx.fMerkleVerified ∧
          E.CheckMerkleBranch hash wtx.vMerkleBranch wtx.nIndex ≠ hashMerkleRoot then 0
      else E.nBestHeight - nHeight + 1

def IsFinal (wtx : AccountTx) : Bool :=
  wtx.toCTransaction.IsFinal E.nBestHeight E.nAdjustedTime 0 0

end AccountEnv

/-- What `GetAmounts` returns. -/
structure Amounts where
  listReceived : List (Option CTxDestination × ℤ)
  listSent : List (Option CTxDestination × ℤ)
  nFee : ℤ
  strSentAccount : List UInt8

namespace AccountWallet

variable (E : AccountEnv) (w : AccountWallet)

/-- The transactions of `mapWallet` in the order of their hashes. -/
def transactions : List AccountTx :=
  (Table.sortedKeys w.mapWallet).filterMap w.mapWallet.lookup

/-! ## One transaction -/

/-- `CWallet::GetDebit` of an input. -/
def inputDebit (txin : CTxIn) : ℤ :=
  ((w.mapWallet.lookup txin.prevout.hash).bind fun prev => prev.vout[txin.prevout.n]?).elim 0
    fun txout => if E.isMine txout.scriptPubKey then txout.nValue else 0

/-- The loop of `CWallet::GetDebit`. -/
def getDebitFrom : ℤ → List CTxIn → Option ℤ
  | nDebit, [] => some nDebit
  | nDebit, txin :: vin =>
    if MoneyRange (nDebit + w.inputDebit E txin) then
      getDebitFrom (nDebit + w.inputDebit E txin) vin
    else none

variable (wtx : AccountTx)

def GetDebit : Option ℤ :=
  if wtx.vin = [] then some 0
  else
    match wtx.nDebitCached with
    | some nDebit => some nDebit
    | none => w.getDebitFrom E 0 wtx.vin

/-- `CWallet::IsChange`. -/
def looksLikeChange (txout : CTxOut) : Bool :=
  match ExtractDestination E.digests txout.scriptPubKey with
  | none => false
  | some address =>
    E.isMine (SetDestination (some address)) && (w.mapAddressBook.lookup (some address)).isNone

def IsChange (nIndex : ℕ) : Bool :=
  if wtx.vfChange ≠ [] then wtx.vfChange.getD nIndex false
  else wtx.vout[nIndex]?.any (w.looksLikeChange E)

/-- The outputs that `GetAmounts` does not leave out as change. -/
def shownOutputs (nDebit : ℤ) : List CTxOut :=
  (wtx.vout.zipIdx.filter fun output =>
    ! (decide (0 < nDebit) && w.IsChange E wtx output.2)).map Prod.fst

/-- The fee that `GetAmounts` computes. -/
def feeOf (nDebit : ℤ) : Option ℤ :=
  if 0 < nDebit then wtx.toCTransaction.getValueOut.map fun nValueOut => nDebit - nValueOut
  else some 0

def GetAmounts : Option Amounts := do
  let nDebit ← w.GetDebit E wtx
  let nFee ← feeOf wtx nDebit
  let amount (txout : CTxOut) :=
    (ExtractDestination E.digests txout.scriptPubKey, txout.nValue)
  let outputs := w.shownOutputs E wtx nDebit
  some {
    listReceived := (outputs.filter fun txout => E.isMine txout.scriptPubKey).map amount
    listSent := if 0 < nDebit then outputs.map amount else []
    nFee
    strSentAccount := wtx.strFromAccount }

/-- The account of an address. -/
def accountOf (address : Option CTxDestination) : List UInt8 :=
  (w.mapAddressBook.lookup address).getD []

variable (strAccount : List UInt8)

/-- `CWalletTx::GetAccountAmounts`: `nReceived`, `nSent` and `nFee`. -/
def GetAccountAmounts (wtx : AccountTx) : Option (ℤ × ℤ × ℤ) := do
  let amounts ← w.GetAmounts E wtx
  let (nSent, nFee) :=
    if strAccount = amounts.strSentAccount then
      ((amounts.listSent.map Prod.snd).sum, amounts.nFee)
    else (0, 0)
  let received := amounts.listReceived.filter fun r =>
    match w.mapAddressBook.lookup r.1 with
    | some name => name = strAccount
    | none => strAccount = []
  some ((received.map Prod.snd).sum, nSent, nFee)

/-! ## The three tallies -/

/-- One round of the loop of `GetAccountBalance`. -/
def tallyAccount (nMinDepth : ℤ) (nBalance : ℤ) (wtx : AccountTx) :
    Option ℤ :=
  if ¬ E.IsFinal wtx then some nBalance
  else do
    let (nReceived, nSent, nFee) ← w.GetAccountAmounts E strAccount wtx
    let nBalance :=
      if nReceived ≠ 0 ∧ nMinDepth ≤ E.GetDepthInMainChain wtx then nBalance + nReceived
      else nBalance
    some (nBalance - (nSent + nFee))

def GetAccountBalance (nMinDepth : ℤ) : Option ℤ := do
  let nBalance ← w.transactions.foldlM (w.tallyAccount E strAccount nMinDepth) 0
  some (nBalance + w.acentries.GetAccountCreditDebit strAccount)

variable (nMinDepth : ℤ)

/-- One round of the loop of `getbalance "*"`. -/
def tallyAll (nBalance : ℤ) (wtx : AccountTx) : Option ℤ :=
  if ¬ E.IsFinal wtx then some nBalance
  else do
    let amounts ← w.GetAmounts E wtx
    let nBalance :=
      if nMinDepth ≤ E.GetDepthInMainChain wtx then
        nBalance + (amounts.listReceived.map Prod.snd).sum
      else nBalance
    some (nBalance - (amounts.listSent.map Prod.snd).sum - amounts.nFee)

/-- `getbalance "*"`. -/
def getbalanceAll : Option ℤ :=
  w.transactions.foldlM (w.tallyAll E (max nMinDepth (-1))) 0

/-- One round of the loop of `listaccounts`, which does not ask whether the transaction is
final. -/
def tallyAccounts (mapAccountBalances : Table (List UInt8) ℤ) (wtx : AccountTx) :
    Option (Table (List UInt8) ℤ) := do
  let amounts ← w.GetAmounts E wtx
  let mapAccountBalances := Tally.post amounts.strSentAccount (-amounts.nFee) mapAccountBalances
  let mapAccountBalances := Tally.postAll
    (amounts.listSent.map fun s => (amounts.strSentAccount, -s.2)) mapAccountBalances
  some
    (if nMinDepth ≤ E.GetDepthInMainChain wtx then
      Tally.postAll (amounts.listReceived.map fun r => (w.accountOf r.1, r.2)) mapAccountBalances
    else mapAccountBalances)

/-- The accounts of the wallet's own addresses, with nothing in them. -/
def ownAccounts : Table (List UInt8) ℤ :=
  w.mapAddressBook.entries.foldl (fun mapAccountBalances entry =>
    if E.isMine (SetDestination entry.1) then mapAccountBalances.insert entry.2 0
    else mapAccountBalances) ∅

def listaccounts : Option (Table (List UInt8) ℤ) := do
  let mapAccountBalances ←
    w.transactions.foldlM (w.tallyAccounts E nMinDepth) (w.ownAccounts E)
  some (Tally.postAll ((w.acentries.ListAccountCreditDebit strAllAccounts).map fun entry =>
      (entry.1, entry.2.nCreditDebit)) mapAccountBalances)

end AccountWallet

end Phoenixcoin.Program
