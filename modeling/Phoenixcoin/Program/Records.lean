import Mathlib.Data.List.Sort
import Phoenixcoin.Program.Serialize

/-!
# Alerts and wallet records

The serialisation of alerts and of the values that the wallet database holds. Sets and maps
are lists in the order of their keys. A field that is computed from others after reading, or
packed into others before writing, is not part of a record here.
-/

set_option autoImplicit false

namespace Phoenixcoin.Program

open Lib

/-! ## Sets and maps -/

section Ordered

variable {α β : Type} [DecidableEq α] [LE α] [DecidableLE α]

/-- `std::set::insert`. -/
def setInsert (xs : List α) (x : α) : List α :=
  if x ∈ xs then xs else xs.orderedInsert (· ≤ ·) x

/-- `std::map::insert`, which leaves an existing entry alone. -/
def mapInsert (xs : List (α × β)) (item : α × β) : List (α × β) :=
  if item.1 ∈ xs.map Prod.fst then xs
  else xs.orderedInsert (fun item₁ item₂ => item₁.1 ≤ item₂.1) item

theorem setInsert_spec (xs : List α) (x : α) :
    setInsert xs x = xs ∨ (setInsert xs x).Perm (x :: xs) := by
  unfold setInsert
  split
  · exact Or.inl rfl
  · exact Or.inr (List.perm_orderedInsert _ _ _)

theorem mapInsert_spec (xs : List (α × β)) (item : α × β) :
    mapInsert xs item = xs ∨ (mapInsert xs item).Perm (item :: xs) := by
  unfold mapInsert
  split
  · exact Or.inl rfl
  · exact Or.inr (List.perm_orderedInsert _ _ _)

def setCodec (c : Codec α) : Codec (List α) := .collection compactSize c setInsert setInsert_spec

def mapCodec (c : Codec α) (d : Codec β) : Codec (List (α × β)) :=
  .collection compactSize (c.pair d) mapInsert mapInsert_spec

end Ordered

/-! ## Alerts -/

structure CUnsignedAlertRecord where
  nVersion : ℤ
  nRelayUntil : ℤ
  nExpiration : ℤ
  nID : ℤ
  nCancel : ℤ
  setCancel : List ℤ
  nMinVer : ℤ
  nMaxVer : ℤ
  setSubVer : List (List UInt8)
  nPriority : ℤ
  strComment : List UInt8
  strStatusBar : List UInt8
  strReserved : List UInt8
deriving DecidableEq, Repr

def CUnsignedAlertRecord.codec : Codec CUnsignedAlertRecord :=
  (intCodec32.pair (int64Codec.pair (int64Codec.pair (intCodec32.pair (intCodec32.pair
    ((setCodec intCodec32).pair (intCodec32.pair (intCodec32.pair ((setCodec stringCodec).pair
      (intCodec32.pair (stringCodec.pair (stringCodec.pair stringCodec)))))))))))).embed
    (fun ⟨nVersion, nRelayUntil, nExpiration, nID, nCancel, setCancel, nMinVer, nMaxVer,
        setSubVer, nPriority, strComment, strStatusBar, strReserved⟩ =>
      ⟨nVersion, nRelayUntil, nExpiration, nID, nCancel, setCancel, nMinVer, nMaxVer,
        setSubVer, nPriority, strComment, strStatusBar, strReserved⟩)
    (fun alert => (alert.nVersion, alert.nRelayUntil, alert.nExpiration, alert.nID,
      alert.nCancel, alert.setCancel, alert.nMinVer, alert.nMaxVer, alert.setSubVer,
      alert.nPriority, alert.strComment, alert.strStatusBar, alert.strReserved)) fun _ => rfl

/-- The signed part of `CAlert`. -/
structure CAlertRecord where
  vchMsg : valtype
  vchSig : valtype
deriving DecidableEq, Repr

def CAlertRecord.codec : Codec CAlertRecord :=
  (ucharVector.pair ucharVector).embed (fun ⟨vchMsg, vchSig⟩ => ⟨vchMsg, vchSig⟩)
    (fun alert => (alert.vchMsg, alert.vchSig)) fun _ => rfl

/-! ## Wallet transactions -/

structure CMerkleTx extends CTransaction where
  hashBlock : uint256
  vMerkleBranch : List uint256
  nIndex : ℤ
deriving DecidableEq, Repr

theorem hashBlock_pos : 0 < 5000000 / 32 := by decide

def CMerkleTx.codec : Codec CMerkleTx :=
  (CTransaction.codec.pair (uint256Codec.pair ((vectorCodec 32 hashBlock_pos uint256Codec).pair
    intCodec32))).embed
    (fun ⟨tx, hashBlock, vMerkleBranch, nIndex⟩ => ⟨tx, hashBlock, vMerkleBranch, nIndex⟩)
    (fun mtx => (mtx.toCTransaction, mtx.hashBlock, mtx.vMerkleBranch, mtx.nIndex)) fun _ => rfl

/-- `CWalletTx` as it is stored: the account, the spent flags, the order position, the smart
time and the change flags are entries of `mapValue`. -/
structure CWalletTxRecord extends CMerkleTx where
  vtxPrev : List CMerkleTx
  mapValue : List (List UInt8 × List UInt8)
  vOrderForm : List (List UInt8 × List UInt8)
  fTimeReceivedIsTxTime : ℕ
  nTimeReceived : ℕ
  fFromMe : ℤ
  fSpent : ℤ
deriving DecidableEq, Repr

/-- A `char`, which is signed. -/
def charCodec : Codec ℤ := intCodec 1 Nat.one_pos

theorem pairBlock_pos : 0 < 5000000 / 64 := by decide

def CWalletTxRecord.codec : Codec CWalletTxRecord :=
  (CMerkleTx.codec.pair ((vectorCodec 128 (by decide) CMerkleTx.codec).pair
    ((mapCodec stringCodec stringCodec).pair
      ((vectorCodec 64 pairBlock_pos (stringCodec.pair stringCodec)).pair
        (uintCodec32.pair (uintCodec32.pair (charCodec.pair charCodec))))))).embed
    (fun ⟨mtx, vtxPrev, mapValue, vOrderForm, fTimeReceivedIsTxTime, nTimeReceived, fFromMe,
        fSpent⟩ =>
      ⟨mtx, vtxPrev, mapValue, vOrderForm, fTimeReceivedIsTxTime, nTimeReceived, fFromMe, fSpent⟩)
    (fun wtx => (wtx.toCMerkleTx, wtx.vtxPrev, wtx.mapValue, wtx.vOrderForm,
      wtx.fTimeReceivedIsTxTime, wtx.nTimeReceived, wtx.fFromMe, wtx.fSpent)) fun _ => rfl

/-! ## Other wallet records -/

section Versioned

variable (nVersion : StreamVersion)

structure CKeyPoolRecord where
  nTime : ℤ
  vchPubKey : valtype
deriving DecidableEq, Repr

def CKeyPoolRecord.codec : Codec CKeyPoolRecord :=
  (versioned nVersion (int64Codec.pair ucharVector)).embed
    (fun ⟨nTime, vchPubKey⟩ => ⟨nTime, vchPubKey⟩)
    (fun keypool => (keypool.nTime, keypool.vchPubKey)) fun _ => rfl

structure CWalletKey where
  vchPrivKey : valtype
  nTimeCreated : ℤ
  nTimeExpires : ℤ
  strComment : List UInt8
deriving DecidableEq, Repr

def CWalletKey.codec : Codec CWalletKey :=
  (versioned nVersion (ucharVector.pair (int64Codec.pair (int64Codec.pair stringCodec)))).embed
    (fun ⟨vchPrivKey, nTimeCreated, nTimeExpires, strComment⟩ =>
      ⟨vchPrivKey, nTimeCreated, nTimeExpires, strComment⟩)
    (fun wkey => (wkey.vchPrivKey, wkey.nTimeCreated, wkey.nTimeExpires, wkey.strComment))
    fun _ => rfl

/-- `CAccount`, which holds one public key. -/
def accountCodec : Codec valtype := versioned nVersion ucharVector

/-- `CAccountingEntry` as it is stored. -/
structure CAccountingEntry where
  nCreditDebit : ℤ
  nTime : ℤ
  strOtherAccount : List UInt8
  strComment : List UInt8
deriving DecidableEq, Repr

/-- What follows the first null byte of the stored comment is decoded as `mapValue`. -/
def CAccountingEntry.mapValueDecodes (acentry : CAccountingEntry) : Bool :=
  match acentry.strComment.dropWhile (· ≠ 0) with
  | [] => true
  | _ :: bytes => ((mapCodec stringCodec stringCodec).decoder.eval bytes).isSome

def CAccountingEntry.codec : Codec CAccountingEntry :=
  ((versioned nVersion (int64Codec.pair (int64Codec.pair (stringCodec.pair stringCodec)))).embed
    (fun ⟨nCreditDebit, nTime, strOtherAccount, strComment⟩ =>
      (⟨nCreditDebit, nTime, strOtherAccount, strComment⟩ : CAccountingEntry))
    (fun acentry => (acentry.nCreditDebit, acentry.nTime, acentry.strOtherAccount,
      acentry.strComment)) fun _ => rfl).filter CAccountingEntry.mapValueDecodes

end Versioned

structure CMasterKey where
  vchCryptedKey : valtype
  vchSalt : valtype
  nDerivationMethod : ℕ
  nDeriveIterations : ℕ
  vchOtherDerivationParameters : valtype
deriving DecidableEq, Repr

def CMasterKey.codec : Codec CMasterKey :=
  (ucharVector.pair (ucharVector.pair (uintCodec32.pair (uintCodec32.pair ucharVector)))).embed
    (fun ⟨vchCryptedKey, vchSalt, nDerivationMethod, nDeriveIterations,
        vchOtherDerivationParameters⟩ =>
      ⟨vchCryptedKey, vchSalt, nDerivationMethod, nDeriveIterations, vchOtherDerivationParameters⟩)
    (fun kMasterKey => (kMasterKey.vchCryptedKey, kMasterKey.vchSalt,
      kMasterKey.nDerivationMethod, kMasterKey.nDeriveIterations,
      kMasterKey.vchOtherDerivationParameters)) fun _ => rfl

structure CKeyMetadata where
  nVersion : ℤ
  nCreateTime : ℤ
deriving DecidableEq, Repr

def CKeyMetadata.codec : Codec CKeyMetadata :=
  (intCodec32.pair int64Codec).embed (fun ⟨nVersion, nCreateTime⟩ => ⟨nVersion, nCreateTime⟩)
    (fun keyMeta => (keyMeta.nVersion, keyMeta.nCreateTime)) fun _ => rfl

structure CHybridAddressEntry where
  nVersion : ℤ
  nCreateTime : ℤ
  strLabel : List UInt8
  strPurpose : List UInt8
deriving DecidableEq, Repr

def CHybridAddressEntry.codec : Codec CHybridAddressEntry :=
  (intCodec32.pair (int64Codec.pair (stringCodec.pair stringCodec))).embed
    (fun ⟨nVersion, nCreateTime, strLabel, strPurpose⟩ =>
      ⟨nVersion, nCreateTime, strLabel, strPurpose⟩)
    (fun entry => (entry.nVersion, entry.nCreateTime, entry.strLabel, entry.strPurpose))
    fun _ => rfl

/-- The keys in a hybrid key record; a layout leaves out the fields that it does not have. -/
structure HybridKeyFields where
  secpPriv : valtype := []
  secpPub : valtype
  mldsaAlg : List UInt8 := []
  mldsaPrivKey : valtype := []
  vchCryptedPrivate : valtype := []
deriving DecidableEq, Repr

def HYBRIDKEY_DISK_VERSION_ENCRYPTED : ℕ := 3

/-- The layout that the member `nVersion` selects. -/
def HybridKeyFields.codec (nVersion : ℕ) : Codec HybridKeyFields :=
  if nVersion ≥ HYBRIDKEY_DISK_VERSION_ENCRYPTED then
    (ucharVector.pair (stringCodec.pair ucharVector)).embed
      (fun ⟨secpPub, mldsaAlg, vchCryptedPrivate⟩ =>
        { secpPub, mldsaAlg, vchCryptedPrivate })
      (fun keys => (keys.secpPub, keys.mldsaAlg, keys.vchCryptedPrivate)) fun _ => rfl
  else if nVersion ≥ 2 then
    (ucharVector.pair (ucharVector.pair (stringCodec.pair ucharVector))).embed
      (fun ⟨secpPriv, secpPub, mldsaAlg, mldsaPrivKey⟩ =>
        { secpPriv, secpPub, mldsaAlg, mldsaPrivKey })
      (fun keys => (keys.secpPriv, keys.secpPub, keys.mldsaAlg, keys.mldsaPrivKey)) fun _ => rfl
  else
    (ucharVector.pair ucharVector).embed (fun ⟨secpPriv, secpPub⟩ => { secpPriv, secpPub })
      (fun keys => (keys.secpPriv, keys.secpPub)) fun _ => rfl

structure CHybridKeyDiskRecord where
  nVersion : ℕ
  nCreateTime : ℤ
  keys : HybridKeyFields
  hashChecksum : uint256
deriving DecidableEq, Repr

def CHybridKeyDiskRecord.codec : Codec CHybridKeyDiskRecord :=
  (ucharCodec.dep fun nVersion =>
    intCodec32.pair ((HybridKeyFields.codec nVersion).pair uint256Codec)).embed
    (fun ⟨nVersion, nCreateTime, keys, hashChecksum⟩ =>
      ⟨nVersion, nCreateTime, keys, hashChecksum⟩)
    (fun disk => (disk.nVersion, disk.nCreateTime, disk.keys, disk.hashChecksum)) fun _ => rfl

/-! ## What is decoded -/

/-- The types that messages, block files, the raw transactions of the RPC interface, the chain
database and the wallet database are decoded as. -/
inductive StreamType where
  | transaction
  | block
  | locator
  | txIndex
  | diskBlockIndex
  | alert
  | unsignedAlert
  | walletTx
  | keyPool
  | walletKey
  | masterKey
  | keyMetadata
  | account
  | accountingEntry
  | hybridKey
  | hybridAddress
  | hybridUsedKeys
  /-- A public or private key, an encrypted key, a script. -/
  | ucharVector
  /-- A name, an account, the type of a record. -/
  | string
  | hash
  | keyID
  | int
  | uint
  | int64
  | uint64
  | char
deriving DecidableEq, Repr

def StreamType.Value : StreamType → Type
  | transaction => CTransaction
  | block => CBlock
  | locator => CBlockLocator
  | txIndex => CTxIndex
  | diskBlockIndex => CDiskBlockIndexFields
  | alert => CAlertRecord
  | unsignedAlert => CUnsignedAlertRecord
  | walletTx => CWalletTxRecord
  | keyPool => CKeyPoolRecord
  | walletKey => CWalletKey
  | masterKey => CMasterKey
  | keyMetadata => CKeyMetadata
  | account => valtype
  | accountingEntry => CAccountingEntry
  | hybridKey => CHybridKeyDiskRecord
  | hybridAddress => CHybridAddressEntry
  | hybridUsedKeys => List CHybridKeyID
  | ucharVector => valtype
  | string => List UInt8
  | hash => uint256
  | keyID => uint160
  | int => ℤ
  | uint => ℕ
  | int64 => ℤ
  | uint64 => ℕ
  | char => ℤ

theorem uint64_pos : 0 < 8 := by decide

def StreamType.codec (nVersion : StreamVersion) : (T : StreamType) → Codec T.Value
  | transaction => CTransaction.codec
  | block => CBlock.codec
  | locator => CBlockLocator.codec nVersion
  | txIndex => CTxIndex.codec nVersion
  | diskBlockIndex => CDiskBlockIndex.codec nVersion
  | alert => CAlertRecord.codec
  | unsignedAlert => CUnsignedAlertRecord.codec
  | walletTx => CWalletTxRecord.codec
  | keyPool => CKeyPoolRecord.codec nVersion
  | walletKey => CWalletKey.codec nVersion
  | masterKey => CMasterKey.codec
  | keyMetadata => CKeyMetadata.codec
  | account => accountCodec nVersion
  | accountingEntry => CAccountingEntry.codec nVersion
  | hybridKey => CHybridKeyDiskRecord.codec
  | hybridAddress => CHybridAddressEntry.codec
  | hybridUsedKeys => setCodec uint160Codec
  | ucharVector => Program.ucharVector
  | string => stringCodec
  | hash => uint256Codec
  | keyID => uint160Codec
  | int => intCodec32
  | uint => uintCodec32
  | int64 => int64Codec
  | uint64 => uintCodec 8 uint64_pos
  | char => charCodec

end Phoenixcoin.Program
