import Phoenixcoin.Program.Records

/-!
# Loading the wallet

`ReadKeyValue` and `CWalletDB::LoadWallet` of `walletdb.cpp`. A transaction record is decoded
straight into `mapWallet`; a record of any other type changes other parts of the wallet and is
a parameter here. What a decoder that throws leaves in the transaction is a parameter too.
-/

set_option autoImplicit false

namespace Phoenixcoin.Program

open Lib

/-! ## Transactions of the wallet -/

/-- `atoi64`, which is `strtoll` to the base 10. -/
def atoi64 (str : List UInt8) : ℤ :=
  let str := str.dropWhile fun c => c = 32 || (9 ≤ c && c ≤ 13)
  let fNegative := str.head? = some 45
  let str := if fNegative || str.head? = some 43 then str.tail else str
  let digits := str.takeWhile fun c => 48 ≤ c && c ≤ 57
  let n := digits.foldl (fun (n : ℕ) c => 10 * n + (c.toNat - 48)) 0
  if fNegative then max (-2 ^ 63) (-n) else min (2 ^ 63 - 1) n

/-- `CWalletTx` in memory: what was stored, two of the fields computed from `mapValue`, and
whether the transaction is bound to the wallet (its `pwallet` is not null). -/
structure CWalletTx extends CWalletTxRecord where
  strFromAccount : List UInt8
  nOrderPos : ℤ
  fBound : Bool
deriving DecidableEq, Repr

def mapValueFind (mapValue : List (List UInt8 × List UInt8)) (key : String) : Option (List UInt8) :=
  (mapValue.find? fun item => item.1 = key.toUTF8.toList).map Prod.snd

/-- A transaction right after it was read; reading starts with `Init(nullptr)`. -/
def CWalletTx.ofRecord (wtx : CWalletTxRecord) : CWalletTx where
  toCWalletTxRecord := wtx
  strFromAccount := (mapValueFind wtx.mapValue "fromaccount").getD []
  nOrderPos := ((mapValueFind wtx.mapValue "n").map atoi64).getD (-1)
  fBound := false

/-- `CWalletTx()`, the value that `mapWallet[hash]` creates. -/
def CWalletTx.null : CWalletTx where
  nVersion := 1
  vin := []
  vout := []
  nLockTime := 0
  hashBlock := 0
  vMerkleBranch := []
  nIndex := -1
  vtxPrev := []
  mapValue := []
  vOrderForm := []
  fTimeReceivedIsTxTime := 0
  nTimeReceived := 0
  fFromMe := 0
  fSpent := 0
  strFromAccount := []
  nOrderPos := -1
  fBound := false

abbrev MapWallet : Type := Std.TreeMap uint256 CWalletTx

/-! ## The scan -/

inductive DBErrors where
  | DB_LOAD_OK
  | DB_CORRUPT
  | DB_NONCRITICAL_ERROR
  | DB_TOO_NEW
  | DB_LOAD_FAIL
deriving DecidableEq, Repr

abbrev DbRecord : Type := List UInt8 × List UInt8

/-- How the scan of the database ends. -/
inductive ScanEnd where
  | finished
  | error
  | exception
deriving DecidableEq, Repr

/-- What `LoadWallet` finds in the database: the minimum version, if there is one, and the
records that the scan delivers before it ends; `none` if there is no scan. -/
structure WalletDatabase where
  nMinVersion : Option ℤ
  scan : Option (List DbRecord × ScanEnd)

/-- What the loading of transactions depends on. `σ` is the rest of the wallet, `readOther` reads
a record of another type into it (and may set `fAnyUnordered`), and `partialTx` is what a decoder
that throws makes of a transaction. -/
structure WalletLoadEnv (σ : Type) where
  Hash : List UInt8 → uint256
  partialTx : CWalletTx → List UInt8 → CWalletTx
  readOther : List UInt8 → CDataStream → CDataStream → Bool → σ → Bool × Bool × σ
  /-- The order positions that `ReorderTransactions` assigns, and its result. -/
  orderPos : MapWallet → uint256 → ℤ
  reorderResult : DBErrors

/-- The wallet while it is loaded, with the fields of `CWalletScanState` that transactions change
and the two local variables of `LoadWallet`. -/
structure LoadState (σ : Type) where
  mapWallet : MapWallet
  vWalletUpgrade : List uint256
  fAnyUnordered : Bool
  other : σ
  result : DBErrors
  fNoncriticalErrors : Bool

def IsKeyType (strType : List UInt8) : Bool :=
  strType ∈ ["key", "wkey", "mkey", "ckey"].map fun s => s.toUTF8.toList

/-- The record type "tx". -/
def strTx : List UInt8 := [0x74, 0x78]

namespace WalletLoadEnv

variable {σ : Type} (E : WalletLoadEnv σ)

def GetHash (tx : CTransaction) : uint256 := E.Hash (CTransaction.codec.write tx)

/-- Undo serialize changes in 31600: the transaction and whether it is written back, `none`
for an exception. -/
def upgradeTx (wtx : CWalletTx) (ssValue : CDataStream) : Option (CWalletTx × Bool) :=
  if 31404 ≤ wtx.fTimeReceivedIsTxTime ∧ wtx.fTimeReceivedIsTxTime ≤ 31703 then
    if ssValue.remaining ≠ [] then
      match unserialize (charCodec.pair (charCodec.pair stringCodec)) ssValue with
      | none => none
      | some ((fTmp, _, strFromAccount), _) =>
        some ({ wtx with strFromAccount, fTimeReceivedIsTxTime := (fTmp % 2 ^ 32).toNat }, true)
    else some ({ wtx with fTimeReceivedIsTxTime := 0 }, true)
  else some (wtx, false)

variable (state : LoadState σ)

/-- The branch of `ReadKeyValue` for a transaction. -/
def readTx (ssKey ssValue : CDataStream) : Bool × LoadState σ :=
  match unserialize uint256Codec ssKey with
  | none => (false, state)
  | some (hash, _) =>
    match unserialize CWalletTxRecord.codec ssValue with
    | none =>
      let wtx := (state.mapWallet[hash]?).getD CWalletTx.null
      (false, { state with
        mapWallet := state.mapWallet.insert hash
          { E.partialTx wtx ssValue.remaining with fBound := false } })
    | some (record, ssValue) =>
      if record.checkTransaction ∧ E.GetHash record.toCTransaction = hash then
        let wtx := { CWalletTx.ofRecord record with fBound := true }
        match upgradeTx wtx ssValue with
        | none => (false, { state with mapWallet := state.mapWallet.insert hash wtx })
        | some (wtx, fUpgrade) =>
          (true, { state with
            mapWallet := state.mapWallet.insert hash wtx
            vWalletUpgrade :=
              if fUpgrade then state.vWalletUpgrade ++ [hash] else state.vWalletUpgrade
            fAnyUnordered := state.fAnyUnordered || wtx.nOrderPos = -1 })
      else (false, { state with mapWallet := state.mapWallet.erase hash })

/-- `ReadKeyValue`: its result, the type of the record and the wallet. -/
def ReadKeyValue (ssKey ssValue : CDataStream) :
    Bool × List UInt8 × LoadState σ :=
  match unserialize stringCodec ssKey with
  | none => (false, [], state)
  | some (strType, ssKey) =>
    if strType = strTx then
      ((E.readTx state ssKey ssValue).1, strType, (E.readTx state ssKey ssValue).2)
    else
      let r := E.readOther strType ssKey ssValue state.fAnyUnordered state.other
      (r.1, strType, { state with fAnyUnordered := r.2.1, other := r.2.2 })

/-- One round of the loop of `LoadWallet`. -/
def loadRecord (record : DbRecord) : LoadState σ :=
  let r := E.ReadKeyValue state (.ofBytes record.1) (.ofBytes record.2)
  if r.1 then r.2.2
  else if IsKeyType r.2.1 then { r.2.2 with result := .DB_CORRUPT }
  else { r.2.2 with fNoncriticalErrors := true }

/-- The result that `LoadWallet` has after the scan. -/
def scanResult (scanEnd : ScanEnd) : DBErrors :=
  if scanEnd ≠ .finished then .DB_CORRUPT
  else if state.fNoncriticalErrors ∧ state.result = .DB_LOAD_OK then .DB_NONCRITICAL_ERROR
  else state.result

/-- What `LoadWallet` does after a scan without errors: it writes the upgraded transactions
back, which reads `mapWallet[hash]`, and gives the transactions an order. -/
def finishLoad : DBErrors × LoadState σ :=
  let mapWallet := state.vWalletUpgrade.foldl
    (fun mapWallet hash => mapWallet.insertIfNew hash CWalletTx.null) state.mapWallet
  if state.fAnyUnordered then
    (E.reorderResult, { state with
      mapWallet := mapWallet.map fun hash wtx =>
        { wtx with nOrderPos := E.orderPos mapWallet hash } })
  else (.DB_LOAD_OK, { state with mapWallet := mapWallet })

/-- `CWalletDB::LoadWallet` on a new wallet. -/
def LoadWallet (db : WalletDatabase) (other : σ) : DBErrors × LoadState σ :=
  let state : LoadState σ := ⟨∅, [], false, other, .DB_LOAD_OK, false⟩
  if db.nMinVersion.any fun nMinVersion => nMinVersion > CLIENT_VERSION.1 then
    (.DB_TOO_NEW, state)
  else
    match db.scan with
    | none => (.DB_CORRUPT, state)
    | some (records, scanEnd) =>
      let state := records.foldl E.loadRecord state
      let result := scanResult state scanEnd
      if result ≠ .DB_LOAD_OK then (result, state) else E.finishLoad state

end WalletLoadEnv

end Phoenixcoin.Program
