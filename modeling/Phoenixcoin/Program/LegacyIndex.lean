import Phoenixcoin.Program.WalletEncryption

/-!
# The index over legacy key IDs

`FindHybridKeyByLegacyID` of `wallethybrid.cpp` with the reverse index that it keeps, and how the
operations on hybrid keys treat the index. The wallet without the index answers such a lookup by
going through its keys.
-/

set_option autoImplicit false

namespace Phoenixcoin.Program

open Lib

/-! ## The keystore and passphrases -/

namespace HybridWallet

variable (C : PassphraseCrypto) (w : HybridWallet)

def SetCrypted : Bool × HybridWallet :=
  if w.fUseCrypto then (true, w)
  else if w.mapKeys ≠ ∅ then (false, w)
  else (true, { w with fUseCrypto := true })

/-- `CCryptoKeyStore::Unlock`, which leaves the hybrid keys alone. -/
def unlockKeyStore (vMasterKeyIn : CKeyingMaterial) : Bool × HybridWallet :=
  let (fCrypted, w) := w.SetCrypted
  if ¬ fCrypted then (false, w)
  else if w.opensFirstKey C.toKeyCrypto vMasterKeyIn then
    (true, { w with vMasterKey := vMasterKeyIn })
  else (false, w)

end HybridWallet

/-! ## The index -/

/-- A wallet with the index over the legacy IDs of its hybrid keys. -/
structure IndexedWallet extends HybridWallet where
  mapHybridKeyByLegacyID : Table CKeyID CHybridKeyID
  nHybridLegacyIndexSize : ℕ
  nHybridLegacyIndexDiskSize : ℕ
  fHybridLegacyIndexDirty : Bool

namespace IndexedWallet

/-- The index as the constructor of `CWallet` makes it. -/
def ofWallet (w : HybridWallet) : IndexedWallet where
  toHybridWallet := w
  mapHybridKeyByLegacyID := ∅
  nHybridLegacyIndexSize := 0
  nHybridLegacyIndexDiskSize := 0
  fHybridLegacyIndexDirty := true

/-- One of the two loops that build the index; an entry that is there is left alone. -/
def indexKeys {V : Type} (C : KeyCrypto) (secpPub : V → CPubKey) (table : Table CHybridKeyID V)
    (index : Table CKeyID CHybridKeyID) : Table CKeyID CHybridKeyID :=
  (Table.sortedKeys table).foldl (fun index hybridID =>
    match table.lookup hybridID with
    | none => index
    | some key => emplace (C.GetID (secpPub key)) hybridID index) index

section Lookup

variable (C : KeyCrypto) (o : WalletDbOutcome) (s : IndexedWallet)

/-- The index is built from the keys that are loaded and then from the records at rest. -/
def rebuildIndex : IndexedWallet :=
  { s with
    mapHybridKeyByLegacyID :=
      indexKeys C (fun disk => disk.keys.secpPub) s.mapHybridKeyDisk
        (indexKeys C CHybridKey.secpPub s.mapHybridKeys ∅)
    nHybridLegacyIndexSize := s.mapHybridKeys.keys.card
    nHybridLegacyIndexDiskSize := s.mapHybridKeyDisk.keys.card
    fHybridLegacyIndexDirty := false }

/-- Whether a lookup builds the index again. -/
def indexIsStale : Bool :=
  s.fHybridLegacyIndexDirty || s.nHybridLegacyIndexSize ≠ s.mapHybridKeys.keys.card ||
    s.nHybridLegacyIndexDiskSize ≠ s.mapHybridKeyDisk.keys.card

def FindHybridKeyByLegacyID (keyID : CKeyID) : Option CHybridKeyID × IndexedWallet :=
  let s := if s.indexIsStale then s.rebuildIndex C else s
  (s.mapHybridKeyByLegacyID.lookup keyID, s)

def GetHybridKeyIDByLegacyKeyID (keyID : CKeyID) : Option CHybridKeyID × IndexedWallet :=
  let (found, s) := s.FindHybridKeyByLegacyID C keyID
  (found.filter fun hybridID => (s.mapHybridKeys.lookup hybridID).isSome, s)

/-- `EnsureHybridKey`; `pkey` is the signer that is generated. -/
def EnsureHybridKey (pkey : Option EVP_PKEY) (nTime : ℤ) (keyID : CKeyID) : Bool × IndexedWallet :=
  let (existing, s) := s.GetHybridKeyIDByLegacyKeyID C keyID
  if existing.isSome then (true, s)
  else
    match pkey.bind fun pkey => s.makeHybridKey C o pkey nTime keyID with
    | some w => (true, { s with toHybridWallet := w })
    | none => (false, s)

end Lookup

/-! ## Operations that lock the wallet -/

variable (C : PassphraseCrypto) (o : WalletDbOutcome) (s : IndexedWallet)

/-- `CWallet::Lock`, which has the index built again. -/
def Lock : Bool × IndexedWallet :=
  if ¬ s.IsCrypted then (false, s)
  else (true, { s with
    toHybridWallet := s.toHybridWallet.Lock.2
    fHybridLegacyIndexDirty := true })

/-- `CCryptoKeyStore::Unlock` and what `CWallet::Unlock` does after it: none where the master key
is not the one. -/
def unlockWith (vMasterKey : CKeyingMaterial) : Option (Bool × IndexedWallet) :=
  if s.opensFirstKey C.toKeyCrypto vMasterKey then
    let (fOk, w) := { s.toHybridWallet with vMasterKey := vMasterKey }.DecryptHybridKeys
      C.toKeyCrypto o vMasterKey
    let s : IndexedWallet := { s with toHybridWallet := w }
    some (if fOk then (true, s) else (false, s.Lock.2))
  else none

/-- The loop of `Unlock` over the master keys. -/
def unlockFrom (strWalletPassphrase : SecureString) : List CMasterKey → Bool × IndexedWallet
  | [] => (false, s)
  | kMasterKey :: rest =>
    match C.openMasterKey strWalletPassphrase kMasterKey with
    | none => (false, s)
    | some vMasterKey =>
      match s.unlockWith C o vMasterKey with
      | some result => result
      | none => unlockFrom strWalletPassphrase rest

def Unlock (strWalletPassphrase : SecureString) : Bool × IndexedWallet :=
  if ¬ s.IsLocked then (false, s)
  else s.unlockFrom C o strWalletPassphrase
    ((Table.sortedKeys s.mapMasterKeys).filterMap s.mapMasterKeys.lookup)

/-- What `ChangeWalletPassphrase` does with the master key that the old passphrase opened. -/
def rekey (strNewWalletPassphrase : SecureString) (nDeriveIterations : ℕ) (fWasLocked : Bool)
    (nID : ℕ) (kMasterKey : CMasterKey) (vMasterKey : CKeyingMaterial) (s : IndexedWallet) :
    Bool × IndexedWallet :=
  let kMasterKey := { kMasterKey with nDeriveIterations := max nDeriveIterations 25000 }
  let s : IndexedWallet := { s with mapMasterKeys := s.mapMasterKeys.insert nID kMasterKey }
  match C.SetKeyFromPassphrase strNewWalletPassphrase kMasterKey.vchSalt
      kMasterKey.nDeriveIterations kMasterKey.nDerivationMethod with
  | none => (false, s)
  | some (chKey, chIV) =>
    let kMasterKey := { kMasterKey with vchCryptedKey := C.aesEncrypt chKey chIV vMasterKey }
    let s : IndexedWallet := { s with
      mapMasterKeys := s.mapMasterKeys.insert nID kMasterKey
      db := (o.WriteMasterKey nID kMasterKey s.db).getD s.db }
    (true, if fWasLocked then s.Lock.2 else s)

/-- The loop of `ChangeWalletPassphrase` over the master keys. -/
def changeFrom (strOldWalletPassphrase strNewWalletPassphrase : SecureString)
    (nDeriveIterations : ℕ) (fWasLocked : Bool) (s : IndexedWallet) :
    List (ℕ × CMasterKey) → Bool × IndexedWallet
  | [] => (false, s)
  | (nID, kMasterKey) :: rest =>
    match C.openMasterKey strOldWalletPassphrase kMasterKey with
    | none => (false, s)
    | some vMasterKey =>
      let (fOpened, w) := s.unlockKeyStore C vMasterKey
      let s : IndexedWallet := { s with toHybridWallet := w }
      if fOpened then
        rekey C o strNewWalletPassphrase nDeriveIterations fWasLocked nID kMasterKey vMasterKey s
      else
        changeFrom strOldWalletPassphrase strNewWalletPassphrase nDeriveIterations fWasLocked s rest

/-- `CWallet::ChangeWalletPassphrase`; `nDeriveIterations` is the number of rounds that was
measured. -/
def ChangeWalletPassphrase (strOldWalletPassphrase strNewWalletPassphrase : SecureString)
    (nDeriveIterations : ℕ) : Bool × IndexedWallet :=
  changeFrom C o strOldWalletPassphrase strNewWalletPassphrase nDeriveIterations s.IsLocked
    s.Lock.2 ((Table.sortedKeys s.mapMasterKeys).filterMap fun nID =>
      (s.mapMasterKeys.lookup nID).map fun kMasterKey => (nID, kMasterKey))

/-- `CWallet::EncryptWallet`; none where it ends the process. A success ends with `Lock`. -/
def EncryptWallet (strWalletPassphrase : SecureString) (e : EncryptionInput C.toKeyCrypto)
    (o : EncryptionOutcome) : Option (Bool × IndexedWallet) :=
  let ended := s.toHybridWallet.EncryptWallet C strWalletPassphrase e o
  ended.result.map fun fDone => (fDone, { s with
    toHybridWallet := ended.wallet
    fHybridLegacyIndexDirty := s.fHybridLegacyIndexDirty || fDone })

end IndexedWallet

end Phoenixcoin.Program
