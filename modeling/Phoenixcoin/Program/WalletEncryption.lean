import Phoenixcoin.Program.CheckHybridKeys

/-!
# The encryption of a wallet

`EncryptWallet`, `Unlock` and `NewKeyPool` of `wallet.cpp` with `EncryptKeys` of `keystore.cpp` and
the key derivation of `crypter.cpp`. What the random number generators, the clock and the database
give is an argument. The version records that `SetMinVersion` writes are left out.
-/

set_option autoImplicit false

namespace Phoenixcoin.Program

open Lib

/-! ## Passphrases -/

abbrev SecureString : Type := List UInt8

def WALLET_CRYPTO_SALT_SIZE : ℕ := 8

/-- The key functions with `EVP_BytesToKey` for AES-256 and SHA-512: the key and the initial value
from the passphrase, the salt and the number of rounds. -/
structure PassphraseCrypto extends KeyCrypto where
  EVP_BytesToKey : SecureString → valtype → ℕ → CKeyingMaterial × uint256

namespace PassphraseCrypto

variable (C : PassphraseCrypto)

def SetKeyFromPassphrase (strKeyData : SecureString) (chSalt : valtype)
    (nRounds nDerivationMethod : ℕ) : Option (CKeyingMaterial × uint256) :=
  if nRounds < 1 ∨ chSalt.length ≠ WALLET_CRYPTO_SALT_SIZE then none
  else if nDerivationMethod = 0 then some (C.EVP_BytesToKey strKeyData chSalt nRounds)
  else none

/-- The master key that a passphrase finds in its record. -/
def openMasterKey (strWalletPassphrase : SecureString) (kMasterKey : CMasterKey) :
    Option CKeyingMaterial := do
  let (chKey, chIV) ← C.SetKeyFromPassphrase strWalletPassphrase kMasterKey.vchSalt
    kMasterKey.nDeriveIterations kMasterKey.nDerivationMethod
  C.aesDecrypt chKey chIV kMasterKey.vchCryptedKey

end PassphraseCrypto

/-- Such functions that are easy to compute. -/
def examplePassphraseCrypto : PassphraseCrypto :=
  { exampleCrypto with
    EVP_BytesToKey := fun strKeyData chSalt _ =>
      ((strKeyData ++ chSalt ++ List.replicate 32 0).take 32, 0) }

/-- A key that `MakeNewKey` makes, and the time of its making. -/
structure NewKey (C : KeyCrypto) where
  key : CKey
  nTime : ℤ
  set : C.SetSecret key.vchSecret key.fCompressedPubKey = some key

structure CStagedKey where
  key : CKey
  metadata : CKeyMetadata
  vchCryptedSecret : valtype

/-- What one call of `EncryptWallet` gets from outside. -/
structure EncryptionInput (C : KeyCrypto) where
  /-- The random master key. -/
  vMasterKey : CKeyingMaterial
  vchSalt : valtype
  /-- The number of rounds that was measured. -/
  nRounds : ℕ
  /-- The keys that `NewKeyPool` makes. -/
  newKeys : List (NewKey C)
  length_vMasterKey : vMasterKey.length = WALLET_CRYPTO_KEY_SIZE
  length_vchSalt : vchSalt.length = WALLET_CRYPTO_SALT_SIZE

/-- Which operations of the database succeed during `EncryptWallet`: in the transaction of the
encryption, in that of `Unlock`, and in the two of `NewKeyPool`; and whether the file is
rewritten. -/
structure EncryptionOutcome where
  encrypt : WalletDbOutcome := {}
  unlock : WalletDbOutcome := {}
  clear : WalletDbOutcome := {}
  refill : WalletDbOutcome := {}
  rewrite : Bool := true

/-- How `EncryptWallet` ends: with a result, none where it ends the process; the wallet that it
leaves in memory; and the databases that it committed, one after the other. -/
structure EncryptionEnd where
  result : Option Bool
  wallet : HybridWallet
  committed : List WalletRecords

namespace HybridWallet

variable (C : PassphraseCrypto) (o : WalletDbOutcome) (w : HybridWallet)

/-! ## Unlock -/

/-- The loop of `Unlock` over the master keys. -/
def unlockFrom (strWalletPassphrase : SecureString) : List CMasterKey → Bool × HybridWallet
  | [] => (false, w)
  | kMasterKey :: rest =>
    match C.openMasterKey strWalletPassphrase kMasterKey with
    | none => (false, w)
    | some vMasterKey =>
      match w.unlockWith C.toKeyCrypto o vMasterKey with
      | some result => result
      | none => unlockFrom strWalletPassphrase rest

variable (strWalletPassphrase : SecureString)

def Unlock : Bool × HybridWallet :=
  if ¬ w.IsLocked then (false, w)
  else w.unlockFrom C o strWalletPassphrase
    ((Table.sortedKeys w.mapMasterKeys).filterMap w.mapMasterKeys.lookup)

/-! ## NewKeyPool -/

/-- `StageNewKey` and `WritePool` for one entry of the pool. -/
def stagePoolEntry (nIndex : ℕ) (fresh : NewKey C.toKeyCrypto) (db : WalletRecords) :
    Option (CStagedKey × WalletRecords) := do
  let vchCryptedSecret ← w.cryptedSecretOf C.toKeyCrypto true fresh.key
  let staged : CStagedKey := ⟨fresh.key, .ofTime fresh.nTime, vchCryptedSecret⟩
  let db ← w.StageKeyRecord o staged.key staged.metadata staged.vchCryptedSecret db
  let db ← o.WritePool nIndex ⟨fresh.nTime, fresh.key.vchPubKey⟩ db
  some (staged, db)

/-- The loop that stages the entries from an index on. -/
def stagePoolEntries : ℕ → List (NewKey C.toKeyCrypto) → WalletRecords →
    Option (List (ℕ × CStagedKey) × WalletRecords)
  | _, [], db => some ([], db)
  | nIndex, fresh :: rest, db => do
    let (staged, db) ← w.stagePoolEntry C o nIndex fresh db
    let (vStaged, db) ← stagePoolEntries (nIndex + 1) rest db
    some ((nIndex, staged) :: vStaged, db)

/-- An entry of the pool becomes visible: its index, and `AddStagedKeyToMemory`. -/
def addPoolEntry (w : HybridWallet) (entry : ℕ × CStagedKey) : HybridWallet :=
  { w.addLegacyKey C.toKeyCrypto entry.2.key entry.2.metadata entry.2.vchCryptedSecret with
    setKeyPool := insert entry.1 w.setKeyPool }

/-- The first transaction of `NewKeyPool`: the old entries are erased. -/
def clearKeyPool : Option HybridWallet :=
  (o.transaction (fun db => (w.setKeyPool.sort).foldlM (fun db nIndex => o.ErasePool nIndex db) db)
    w.db).map fun db => { w with db := db, setKeyPool := ∅ }

/-- The second transaction of `NewKeyPool`: the new keys, if everything succeeds. -/
def refillKeyPool (newKeys : List (NewKey C.toKeyCrypto)) : Option HybridWallet :=
  if o.txnBegin then
    (w.stagePoolEntries C o 1 newKeys w.db).bind fun (vStaged, db) =>
      if o.txnCommit then some (vStaged.foldl (addPoolEntry C) { w with db := db }) else none
  else none

def NewKeyPool (oClear oRefill : WalletDbOutcome) (newKeys : List (NewKey C.toKeyCrypto)) :
    Bool × HybridWallet :=
  match w.clearKeyPool oClear with
  | none => (false, w)
  | some w =>
    if w.IsLocked then (false, w)
    else
      match w.refillKeyPool C oRefill newKeys with
      | none => (false, w)
      | some w => (true, w)

/-! ## EncryptWallet -/

variable (vMasterKey : CKeyingMaterial)

/-- One round of `CCryptoKeyStore::EncryptKeys`, which stores the key through
`CWallet::AddCryptedKey`. -/
def encryptKey (w : HybridWallet) (address : CKeyID) :
    Option HybridWallet := do
  let (secret, fCompressed) ← w.mapKeys.lookup address
  let key ← C.SetSecret secret fCompressed
  let vchCryptedSecret ← C.EncryptSecret vMasterKey key.vchSecret (C.Hash key.vchPubKey)
  let keyID := C.GetID key.vchPubKey
  let keyMeta := (w.mapKeyMetadata.lookup keyID).getD (.ofTime 0)
  (if w.fFileBacked then o.WriteCryptedKey key.vchPubKey vchCryptedSecret keyMeta w.db
    else some w.db).map fun db => { w with
      mapCryptedKeys := w.mapCryptedKeys.insert keyID (key.vchPubKey, vchCryptedSecret)
      mapKeyMetadata := w.mapKeyMetadata.insert keyID keyMeta
      db := db }

/-- `CCryptoKeyStore::EncryptKeys`; the database is that of the open transaction. -/
def EncryptKeys : Option HybridWallet :=
  if w.mapCryptedKeys ≠ ∅ ∨ w.IsCrypted then none
  else
    ((Table.sortedKeys w.mapKeys).foldlM (encryptKey C o vMasterKey)
      { w with fUseCrypto := true }).map fun w => { w with mapKeys := ∅ }

/-- One round of the loop of `EncryptWallet` over the hybrid keys. -/
def encryptHybridKey (w : HybridWallet) (hybridID : CHybridKeyID) :
    Option HybridWallet := do
  let hk ← w.mapHybridKeys.lookup hybridID
  let disk ← CHybridKeyDiskRecord.FromMemoryEncrypted C.toKeyCrypto hk vMasterKey
  let db ← o.WriteHybridKey hybridID disk w.db
  some { w with mapHybridKeyDisk := w.mapHybridKeyDisk.insert hybridID disk, db := db }

/-- The part of `EncryptWallet` between `TxnBegin` and `TxnCommit`. The result of
`WriteMasterKey` is not looked at. -/
def encryptAll (kMasterKey : CMasterKey) (vMasterKey : CKeyingMaterial) : Option HybridWallet :=
  if w.fFileBacked then
    let started : HybridWallet := { w with
      db := (o.WriteMasterKey w.nMasterKeyMaxID kMasterKey w.db).getD w.db }
    (started.EncryptKeys C o vMasterKey).bind fun w =>
      (Table.sortedKeys w.mapHybridKeys).foldlM (encryptHybridKey C o vMasterKey) w
  else w.EncryptKeys C o vMasterKey

/-- The master key record that `EncryptWallet` makes. -/
def newMasterKey (e : EncryptionInput C.toKeyCrypto) :
    Option CMasterKey :=
  let nDeriveIterations := max e.nRounds 25000
  (C.SetKeyFromPassphrase strWalletPassphrase e.vchSalt nDeriveIterations 0).map
    fun (chKey, chIV) => {
      vchCryptedKey := C.aesEncrypt chKey chIV e.vMasterKey
      vchSalt := e.vchSalt
      nDerivationMethod := 0
      nDeriveIterations
      vchOtherDerivationParameters := [] }

/-- The part of `EncryptWallet` after the commit. -/
def finishEncryption (e : EncryptionInput C.toKeyCrypto) (o : EncryptionOutcome) : EncryptionEnd :=
  let unlocked := (w.Lock.2.Unlock C o.unlock strWalletPassphrase).2
  let cleared := (unlocked.clearKeyPool o.clear).getD unlocked
  let refilled := (unlocked.NewKeyPool C o.clear o.refill e.newKeys).2
  {
    result := if o.rewrite then some true else none
    wallet := refilled.Lock.2
    committed := [w.db, unlocked.db, cleared.db, refilled.db] }

def EncryptWallet (e : EncryptionInput C.toKeyCrypto) (o : EncryptionOutcome) : EncryptionEnd :=
  if w.IsCrypted then ⟨some false, w, []⟩
  else
    match newMasterKey C strWalletPassphrase e with
    | none => ⟨some false, w, []⟩
    | some kMasterKey =>
      if w.CheckHybridKeys C.toKeyCrypto false ≠ [] then ⟨some false, w, []⟩
      else
        let started : HybridWallet := { w with
          nMasterKeyMaxID := w.nMasterKeyMaxID + 1
          mapMasterKeys := w.mapMasterKeys.insert (w.nMasterKeyMaxID + 1) kMasterKey
          pwalletdbEncryption := w.pwalletdbEncryption || w.fFileBacked }
        if w.fFileBacked ∧ ¬ o.encrypt.txnBegin then ⟨some false, started, []⟩
        else
          match started.encryptAll C o.encrypt kMasterKey e.vMasterKey with
          | none => ⟨none, w, []⟩
          | some encrypted =>
            if w.fFileBacked ∧ ¬ o.encrypt.txnCommit then ⟨none, w, []⟩
            else ({ encrypted with pwalletdbEncryption := false } : HybridWallet).finishEncryption
              C strWalletPassphrase e o

end HybridWallet

end Phoenixcoin.Program
