import Phoenixcoin.Program.AccountMoves
import Phoenixcoin.Program.Int64

/-!
# Records of transactions and accounting entries

The serialisation of `CWalletTx` and `CAccountingEntry` in `wallet.h` as far as it packs fields into
`mapValue` and `strComment`, and `ReorderTransactions` of `walletdb.cpp`, which gives order
positions to the items of old wallets.
-/

set_option autoImplicit false

namespace Phoenixcoin.Program

open Lib

/-! ## Maps of strings -/

/-- `mapValue_t`, in the order of the keys. -/
abbrev MapValue : Type := List (List UInt8 × List UInt8)

def mapErase (key : String) (mapValue : MapValue) : MapValue :=
  mapValue.filter fun item => item.1 ≠ key.toUTF8.toList

/-- `mapValue[key] = value`. -/
def mapSet (key : String) (value : List UInt8) (mapValue : MapValue) : MapValue :=
  mapInsert (mapErase key mapValue) (key.toUTF8.toList, value)

def WriteOrderPos (nOrderPos : ℤ) (mapValue : MapValue) : MapValue :=
  if nOrderPos = -1 then mapValue else mapSet "n" (i64tostr nOrderPos) mapValue

def ReadOrderPos (mapValue : MapValue) : ℤ := ((mapValueFind mapValue "n").map atoi64).getD (-1)

/-! ## Accounting entries -/

/-- `CAccountingEntry` in memory. -/
structure AccountingEntry where
  strAccount : List UInt8
  nCreditDebit : ℤ
  nTime : ℤ
  strOtherAccount : List UInt8
  strComment : List UInt8
  mapValue : MapValue
  nOrderPos : ℤ
  nEntryNo : ℕ
  ssExtra : List UInt8
deriving DecidableEq, Repr

namespace AccountingEntry

variable (acentry : AccountingEntry)

/-- The comment while the entry is written, with the map and the extra bytes behind a zero. -/
def packedComment : List UInt8 :=
  let mapValue := WriteOrderPos acentry.nOrderPos acentry.mapValue
  if mapValue = [] ∧ acentry.ssExtra = [] then acentry.strComment
  else
    acentry.strComment ++ 0 :: (mapCodec stringCodec stringCodec).write mapValue ++ acentry.ssExtra

/-- What is written. -/
def toRecord : CAccountingEntry where
  nCreditDebit := acentry.nCreditDebit
  nTime := acentry.nTime
  strOtherAccount := acentry.strOtherAccount
  strComment := acentry.packedComment

/-- The entry in memory after it was written. -/
def afterWrite : AccountingEntry :=
  { acentry with
    strComment := acentry.packedComment.takeWhile (· ≠ 0)
    mapValue := mapErase "n" (WriteOrderPos acentry.nOrderPos acentry.mapValue) }

/-- What is read; a map that cannot be decoded is an exception. -/
def ofRecord (strAccount : List UInt8) (nEntryNo : ℕ) (acentry : CAccountingEntry) :
    Option AccountingEntry :=
  let read := fun (mapValue : MapValue) (ssExtra : List UInt8) =>
    { strAccount
      nCreditDebit := acentry.nCreditDebit
      nTime := acentry.nTime
      strOtherAccount := acentry.strOtherAccount
      strComment := acentry.strComment.takeWhile (· ≠ 0)
      mapValue := mapErase "n" mapValue
      nOrderPos := Program.ReadOrderPos mapValue
      nEntryNo
      ssExtra : AccountingEntry }
  match acentry.strComment.dropWhile (· ≠ 0) with
  | [] => some (read [] [])
  | _ :: bytes =>
    ((mapCodec stringCodec stringCodec).decoder.eval bytes).map fun result =>
      read result.1 result.2

/-- The key and the value that `WriteAccountingEntry` writes. -/
def write (nVersion : StreamVersion) (acentry : AccountingEntry) : DbRecord :=
  (acentryKey (acentry.strAccount, acentry.nEntryNo),
    (CAccountingEntry.codec nVersion).write acentry.toRecord)

/-- The reads of `ListAccountCreditDebit` for one record. -/
def read (nVersion : StreamVersion) (record : DbRecord) : Option AccountingEntry := do
  let (strType, ssKey) ← stringCodec.decoder.eval record.1
  if strType = "acentry".toUTF8.toList then
    let (strAccount, ssKey) ← stringCodec.decoder.eval ssKey
    let (acentry, _) ← (CAccountingEntry.codec nVersion).decoder.eval record.2
    let (nEntryNo, _) ← (uintCodec 8 uint64_pos).decoder.eval ssKey
    ofRecord strAccount nEntryNo acentry
  else none

end AccountingEntry

/-! ## Wallet transactions -/

/-- `CWalletTx` in memory, without the wallet and the cached amounts. -/
structure WalletTx extends CMerkleTx where
  vtxPrev : List CMerkleTx
  mapValue : MapValue
  vOrderForm : List (List UInt8 × List UInt8)
  fTimeReceivedIsTxTime : ℕ
  nTimeReceived : ℕ
  nTimeSmart : ℕ
  fFromMe : ℤ
  strFromAccount : List UInt8
  vfSpent : List Bool
  vfChange : List Bool
  nOrderPos : ℤ
deriving DecidableEq, Repr

namespace WalletTx

/-- The numbers of the outputs that are marked as change, between commas. -/
def changeText (nOut : ℕ) (vfChange : List Bool) : List UInt8 :=
  ((List.range (min vfChange.length nOut)).filter fun i => vfChange.getD i false).foldl
    (fun strChange i => (if strChange = [] then [] else strChange ++ [44]) ++ numeral i) []

/-- The parts of a text between commas; the end of the text ends the last one. -/
def commaFields : ℕ → List UInt8 → List (List UInt8)
  | 0, _ => []
  | fuel + 1, str =>
    if str = [] then []
    else str.takeWhile (· ≠ 44) :: commaFields fuel ((str.dropWhile (· ≠ 44)).drop 1)

/-- The conversion of an `int64` to `unsigned int`. -/
def toUint32 (n : ℤ) : ℕ := (n % 2 ^ 32).toNat

def readChange (nOut : ℕ) (strChange : List UInt8) : List Bool :=
  (commaFields strChange.length strChange).foldl
    (fun vfChange field => vfChange.set (toUint32 (atoi64 field)) true) (List.replicate nOut false)

/-- `mapValue` while the transaction is written. -/
def storedMap (wtx : WalletTx) : MapValue :=
  let mapValue := mapSet "fromaccount" wtx.strFromAccount wtx.mapValue
  let mapValue := mapSet "spent" (wtx.vfSpent.map fun f => if f then 49 else 48) mapValue
  let mapValue := WriteOrderPos wtx.nOrderPos mapValue
  let mapValue :=
    if wtx.nTimeSmart ≠ 0 then mapSet "timesmart" (numeral wtx.nTimeSmart) mapValue else mapValue
  let strChange := changeText wtx.vout.length wtx.vfChange
  if strChange ≠ [] then mapSet "change" strChange mapValue else mapValue

def toRecord (wtx : WalletTx) : CWalletTxRecord where
  toCMerkleTx := wtx.toCMerkleTx
  vtxPrev := wtx.vtxPrev
  mapValue := wtx.storedMap
  vOrderForm := wtx.vOrderForm
  fTimeReceivedIsTxTime := wtx.fTimeReceivedIsTxTime
  nTimeReceived := wtx.nTimeReceived
  fFromMe := wtx.fFromMe
  fSpent := if true ∈ wtx.vfSpent then 1 else 0

/-- The keys of `mapValue` that the serialisation uses. -/
def reservedKeys : List String := ["fromaccount", "version", "spent", "n", "timesmart", "change"]

def ofRecord (wtx : CWalletTxRecord) : WalletTx where
  toCMerkleTx := wtx.toCMerkleTx
  vtxPrev := wtx.vtxPrev
  mapValue := reservedKeys.foldl (fun mapValue key => mapErase key mapValue) wtx.mapValue
  vOrderForm := wtx.vOrderForm
  fTimeReceivedIsTxTime := wtx.fTimeReceivedIsTxTime
  nTimeReceived := wtx.nTimeReceived
  nTimeSmart := ((mapValueFind wtx.mapValue "timesmart").map fun s => toUint32 (atoi64 s)).getD 0
  fFromMe := wtx.fFromMe
  strFromAccount := (mapValueFind wtx.mapValue "fromaccount").getD []
  vfSpent :=
    match mapValueFind wtx.mapValue "spent" with
    | some str => str.map (· ≠ 48)
    | none => List.replicate wtx.vout.length (wtx.fSpent ≠ 0)
  vfChange := ((mapValueFind wtx.mapValue "change").map (readChange wtx.vout.length)).getD []
  nOrderPos := ReadOrderPos wtx.mapValue

/-- `IsChange(nIndex)`, bound to a wallet with its own `IsChange(txout)`. -/
def IsChange (walletIsChange : CTxOut → Bool) (wtx : WalletTx) (nIndex : ℕ) : Bool :=
  if wtx.vfChange ≠ [] then wtx.vfChange.getD nIndex false
  else wtx.vout[nIndex]?.any walletIsChange

end WalletTx

/-! ## Order positions of old wallets -/

/-- A transaction or an accounting entry in the database. -/
inductive ItemId where
  | tx (hash : uint256)
  | acentry (strAccount : List UInt8) (nEntryNo : ℕ)
deriving DecidableEq, Repr

/-- An item with the time it is sorted by; a position of -1 is not set. -/
structure OrderItem where
  id : ItemId
  nTime : ℤ
  nOrderPos : ℤ
deriving DecidableEq, Repr

/-- The items of a wallet, in the order of their keys. -/
structure OrderWallet where
  mapWallet : List OrderItem
  acentries : List OrderItem

/-- `txByTime`: the transactions and the entries of the account without a name. -/
def OrderWallet.txByTime (w : OrderWallet) : List OrderItem :=
  (w.mapWallet ++ w.acentries.filter fun entry =>
    match entry.id with
    | .acentry strAccount _ => strAccount = []
    | .tx _ => false).insertionSort fun item item' => item.nTime ≤ item'.nTime

/-- The loop of `ReorderTransactions`: the items so far with their new positions, and the positions
in the database. -/
structure ReorderState where
  nOrderPosNext : ℤ
  nOrderPosOffsets : List ℤ
  items : List (OrderItem × ℤ)
  db : Table ItemId ℤ

/-- One round; `writes` says which writes to the database succeed. -/
def reorderItem (writes : ItemId → Bool) (state : ReorderState) (item : OrderItem) :
    Option ReorderState :=
  if item.nOrderPos = -1 then do
    let nOrderPos := state.nOrderPosNext
    let nOrderPosNext ← int64 (nOrderPos + 1)
    let state := { state with
      nOrderPosNext := nOrderPosNext
      nOrderPosOffsets := state.nOrderPosOffsets ++ [nOrderPos]
      items := state.items ++ [(item, nOrderPos)] }
    match item.id with
    | .tx _ => some state
    | .acentry _ _ =>
      if writes item.id then some { state with db := state.db.insert item.id nOrderPos } else none
  else do
    let nOrderPosOff : ℤ :=
      (state.nOrderPosOffsets.filter fun nOffsetStart => item.nOrderPos ≥ nOffsetStart).length
    let nOrderPos ← int64 (item.nOrderPos + nOrderPosOff)
    let nOrderPosEnd ← int64 (nOrderPos + 1)
    let state := { state with
      nOrderPosNext := max state.nOrderPosNext nOrderPosEnd
      items := state.items ++ [(item, nOrderPos)] }
    if nOrderPosOff = 0 then some state
    else if writes item.id then some { state with db := state.db.insert item.id nOrderPos }
    else none

/-- `ReorderTransactions`; none is `DB_LOAD_FAIL`, or a position beyond `int64`, which the source
does not define. -/
def ReorderTransactions (writes : ItemId → Bool) (w : OrderWallet) (db : Table ItemId ℤ) :
    Option ReorderState :=
  w.txByTime.foldlM (reorderItem writes) ⟨0, [], [], db⟩

end Phoenixcoin.Program
