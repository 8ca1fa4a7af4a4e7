import Phoenixcoin.Program.AccountMoves
import Phoenixcoin.Program.KeyStore

/-!
# What accounts have received, and the list of transactions

`getreceivedbyaddress`, `getreceivedbyaccount`, `ListReceived` and `listtransactions` of
`rpcwallet.cpp`. Amounts are integers without a bound, and stand for what is printed of them.
-/

set_option autoImplicit false

namespace Phoenixcoin.Program

open Lib

namespace AccountWallet

variable (E : AccountEnv) (w : AccountWallet)

/-! ## Received amounts -/

/-- A loop over the transactions of the wallet and the outputs of those that can count. -/
def foldOutputs {S : Type} (counts : AccountTx → Bool) (f : AccountTx → S → CTxOut → S) (s : S) :
    S :=
  w.transactions.foldl (fun s wtx =>
    if wtx.toCTransaction.IsCoinBase ∨ ¬ E.IsFinal wtx then s
    else if ¬ counts wtx then s
    else wtx.vout.foldl (f wtx) s) s

variable (nMinDepth : ℤ)

/-- `getreceivedbyaddress` of a valid address. -/
def getreceivedbyaddress (address : CTxDestination) : ℤ :=
  let scriptPubKey := SetDestination (some address)
  if ¬ E.isMine scriptPubKey then 0
  else
    let nMinDepth := max nMinDepth (-1)
    w.foldOutputs E (fun _ => true) (fun wtx nAmount txout =>
      if txout.scriptPubKey = scriptPubKey then
        if nMinDepth ≤ E.GetDepthInMainChain wtx then nAmount + txout.nValue else nAmount
      else nAmount) 0

/-- `GetAccountAddresses`. The loop declares a set of its own, and the caller's stays as it is. -/
def GetAccountAddresses (strAccount : List UInt8) (setAddress : Finset CTxDestination) :
    Finset CTxDestination :=
  w.mapAddressBook.entries.foldl (fun setAddress item =>
    if item.2 = strAccount then (fun _ : Finset CTxDestination => setAddress) ∅ else setAddress)
    setAddress

/-- `getreceivedbyaccount`. `AccountFromValue` throws for `"*"`. -/
def getreceivedbyaccount (strAccount : List UInt8) : Option ℤ :=
  if strAccount = strAllAccounts then none
  else
    let nMinDepth := max nMinDepth (-1)
    let setAddress := w.GetAccountAddresses strAccount ∅
    some (w.foldOutputs E (fun _ => true) (fun wtx nAmount txout =>
      match ExtractDestination E.digests txout.scriptPubKey with
      | none => nAmount
      | some address =>
        if E.isMine (SetDestination (some address)) ∧ address ∈ setAddress then
          if nMinDepth ≤ E.GetDepthInMainChain wtx then nAmount + txout.nValue else nAmount
        else nAmount) 0)

structure tallyitem where
  nAmount : ℤ
  nConf : ℤ
deriving DecidableEq, Repr

def tallyitem.new : tallyitem := ⟨0, 2 ^ 31 - 1⟩

/-- Add to an item of a tally, which is made if it is missing. -/
def addToTally {K : Type} [DecidableEq K] (key : K) (nAmount nConf : ℤ)
    (tally : Table K tallyitem) : Table K tallyitem :=
  let item := (tally.lookup key).getD .new
  tally.insert key ⟨item.nAmount + nAmount, min item.nConf nConf⟩

/-- The first loop of `ListReceived`. -/
def mapTally : Table CTxDestination tallyitem :=
  w.foldOutputs E (fun wtx => nMinDepth ≤ E.GetDepthInMainChain wtx) (fun wtx tally txout =>
    match ExtractDestination E.digests txout.scriptPubKey with
    | none => tally
    | some address =>
      if E.isMine (SetDestination (some address)) then
        addToTally address txout.nValue (E.GetDepthInMainChain wtx) tally
      else tally) ∅

/-- `ListReceived` by accounts: the rows of the reply. -/
def listreceivedbyaccount (fIncludeEmpty : Bool) : Table (List UInt8) tallyitem :=
  let tally := w.mapTally E nMinDepth
  w.mapAddressBook.entries.foldl (fun mapAccountTally item =>
    match item.1.bind tally.lookup with
    | some received => addToTally item.2 received.nAmount received.nConf mapAccountTally
    | none =>
      if fIncludeEmpty then addToTally item.2 0 tallyitem.new.nConf mapAccountTally
      else mapAccountTally) ∅

end AccountWallet

/-! ## The list of transactions -/

/-- An `int`, if the number is in its range. -/
def int32 (n : ℤ) : Option ℤ := if -2 ^ 31 ≤ n ∧ n < 2 ^ 31 then some n else none

/-- `TxPair`: a transaction of the wallet with its hash, or an accounting entry with its key. Each
object of the reply is made from one of them alone, and stands for it. -/
inductive TxPair where
  | tx (hash : uint256) (wtx : AccountTx)
  | acentry (key : List UInt8 × ℕ) (entry : CAccountingEntry)
deriving DecidableEq, Repr

/-- The position under which a `TxPair` is sorted. -/
def TxPair.nOrderPos : TxPair → ℤ
  | .tx _ wtx => wtx.nOrderPos
  | .acentry _ entry => entry.ReadOrderPos.getD (-1)

/-- What keeps `listtransactions` from a reply. -/
inductive ListError where
  | negativeCount
  | negativeFrom
  /-- An exception while an accounting entry is read. -/
  | unreadable
  /-- A sum of two `int` that is none. -/
  | overflow
  /-- An iterator outside the array. -/
  | iterator
deriving DecidableEq, Repr

namespace AccountWallet

variable (w : AccountWallet)

/-- The transactions of `mapWallet` in the order of their hashes. -/
def txPairs : List TxPair := (Table.sortedEntries w.mapWallet).map fun entry => .tx entry.1 entry.2

/-- `OrderedTxItems`. A multimap keeps equal keys in the order of their insertion. -/
def OrderedTxItems (strAccount : List UInt8) : Except ListError (List TxPair) :=
  let acentries := w.acentries.ListEntries strAccount
  if acentries.all fun r => r.2.ReadOrderPos.isSome then
    .ok ((w.txPairs ++ acentries.map fun r => TxPair.acentry r.1 r.2).insertionSort
      fun a b => a.nOrderPos ≤ b.nOrderPos)
  else .error .unreadable

/-- Append to the reply what is made from a `TxPair`. `WalletTxToJSONHybrid` does not look at the
account, and `AcentryToJSON` does. -/
def appendEntry (strAccount : List UInt8) (ret : List TxPair) : TxPair → List TxPair
  | .tx hash wtx => ret ++ [.tx hash wtx]
  | .acentry key entry =>
    if strAccount = strAllAccounts ∨ key.1 = strAccount then ret ++ [.acentry key entry] else ret

/-- The loop of `listtransactions`, the newest first, until there are enough entries. -/
def collectEntries (strAccount : List UInt8) (nCount nFrom : ℤ) :
    List TxPair → List TxPair → Except ListError (List TxPair)
  | ret, [] => .ok ret
  | ret, item :: items =>
    let ret := appendEntry strAccount ret item
    match int32 (nCount + nFrom) with
    | none => .error .overflow
    | some nEnough =>
      if nEnough ≤ toInt ret.length then .ok ret
      else collectEntries strAccount nCount nFrom ret items

/-- The part of `listtransactions` that cuts the reply. -/
def cutEntries (nCount nFrom : ℤ) (ret : List TxPair) : Except ListError (List TxPair) :=
  let nFrom := if toInt ret.length < nFrom then toInt ret.length else nFrom
  match int32 (nFrom + nCount) with
  | none => .error .overflow
  | some nLast =>
    let nCount := if toInt ret.length < nLast then toInt (ret.length - nFrom) else nCount
    match int32 (nFrom + nCount) with
    | none => .error .overflow
    | some nLast =>
      if 0 ≤ nFrom ∧ nFrom ≤ nLast ∧ nLast ≤ ret.length then
        .ok ((ret.take nLast.toNat).drop nFrom.toNat)
      else .error .iterator

/-- `listtransactions`: the entries of the reply. -/
def listtransactions (strAccount : List UInt8) (nCount nFrom : ℤ) :
    Except ListError (List TxPair) := do
  if nCount < 0 then throw .negativeCount
  if nFrom < 0 then throw .negativeFrom
  let txOrdered ← w.OrderedTxItems strAccount
  let ret ← collectEntries strAccount nCount nFrom [] txOrdered.reverse
  let ret ← cutEntries nCount nFrom ret
  return ret.reverse

end AccountWallet

end Phoenixcoin.Program
