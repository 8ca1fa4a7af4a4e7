import Phoenixcoin.Program.HybridKeys
import Phoenixcoin.Program.KeyPool

/-!
# The hybrid keys of a wallet

The part of `CWallet` that hybrid keys and the encryption of the wallet touch, its records in the
wallet database, and the operations of `wallethybrid.cpp`, `rpchybrid.cpp` and `wallet.cpp` that
make, import, lock and unlock hybrid keys. Which operations of the database succeed is given from
outside. A transaction that is aborted, or does not commit, has no effect.
-/

set_option autoImplicit false

namespace Phoenixcoin.Program

open Lib

/-! ## Records -/

/-- The records of the wallet database that keys have. -/
structure WalletRecords where
  key : Table CPubKey CPrivKey
  wkey : Table CPubKey CPrivKey
  ckey : Table CPubKey valtype
  keymeta : Table CPubKey CKeyMetadata
  hyb : Table CHybridKeyID CHybridKeyDisk
  hybaddr : Table CHybridKeyID CHybridAddressEntry
  hybused : Option (Finset CHybridKeyID)
  mkey : Table ℕ CMasterKey
  pool : Table ℕ (CKeyPool CPubKey)

/-- One write or erasure of a record. -/
inductive RecordWrite where
  | keymeta (pubKey : CPubKey)
  | key (pubKey : CPubKey)
  | ckey (pubKey : CPubKey)
  | eraseKey (pubKey : CPubKey)
  | eraseWkey (pubKey : CPubKey)
  | hyb (hybridID : CHybridKeyID)
  | hybaddr (hybridID : CHybridKeyID)
  | hybused
  | mkey (nID : ℕ)
  | pool (nIndex : ℕ)
  | erasePool (nIndex : ℕ)
deriving DecidableEq, Repr

/-- Which operations of the wallet database succeed during one call. -/
structure WalletDbOutcome where
  txnBegin : Bool := true
  write : RecordWrite → Bool := fun _ => true
  txnCommit : Bool := true

namespace WalletDbOutcome

variable (o : WalletDbOutcome)

/-- `TxnBegin`, the writes of `f`, then `TxnCommit` or `TxnAbort`. -/
def transaction (f : WalletRecords → Option WalletRecords) (db : WalletRecords) :
    Option WalletRecords :=
  if o.txnBegin then (f db).filter fun _ => o.txnCommit else none

/-- `WriteKey`, which does not overwrite a key. -/
def WriteKey (vchPubKey : CPubKey) (vchPrivKey : CPrivKey) (keyMeta : CKeyMetadata)
    (db : WalletRecords) : Option WalletRecords :=
  if o.write (.keymeta vchPubKey) ∧ o.write (.key vchPubKey) ∧ vchPubKey ∉ db.key then
    some { db with
      keymeta := db.keymeta.insert vchPubKey keyMeta
      key := db.key.insert vchPubKey vchPrivKey }
  else none

/-- `WriteCryptedKey`, which does not overwrite an encrypted key. -/
def WriteCryptedKey (vchPubKey : CPubKey) (vchCryptedSecret : valtype) (keyMeta : CKeyMetadata)
    (db : WalletRecords) : Option WalletRecords :=
  if o.write (.keymeta vchPubKey) ∧ o.write (.ckey vchPubKey) ∧ vchPubKey ∉ db.ckey ∧
      o.write (.eraseKey vchPubKey) ∧ o.write (.eraseWkey vchPubKey) then
    some { db with
      keymeta := db.keymeta.insert vchPubKey keyMeta
      ckey := db.ckey.insert vchPubKey vchCryptedSecret
      key := db.key.erase vchPubKey
      wkey := db.wkey.erase vchPubKey }
  else none

def WriteHybridKey (hybridID : CHybridKeyID) (disk : CHybridKeyDisk) (db : WalletRecords) :
    Option WalletRecords :=
  if o.write (.hyb hybridID) then some { db with hyb := db.hyb.insert hybridID disk } else none

def WriteHybridAddressEntry (hybridID : CHybridKeyID) (entry : CHybridAddressEntry)
    (db : WalletRecords) : Option WalletRecords :=
  if o.write (.hybaddr hybridID) then
    some { db with hybaddr := db.hybaddr.insert hybridID entry }
  else none

def WriteMasterKey (nID : ℕ) (kMasterKey : CMasterKey) (db : WalletRecords) :
    Option WalletRecords :=
  if o.write (.mkey nID) then some { db with mkey := db.mkey.insert nID kMasterKey } else none

def WritePool (nIndex : ℕ) (keypool : CKeyPool CPubKey) (db : WalletRecords) :
    Option WalletRecords :=
  if o.write (.pool nIndex) then some { db with pool := db.pool.insert nIndex keypool } else none

def ErasePool (nIndex : ℕ) (db : WalletRecords) : Option WalletRecords :=
  if o.write (.erasePool nIndex) then some { db with pool := db.pool.erase nIndex } else none

def WriteHybridUsedKeys (setUsed : Finset CHybridKeyID) (db : WalletRecords) :
    Option WalletRecords :=
  if o.write .hybused then some { db with hybused := some setUsed } else none

end WalletDbOutcome

/-! ## The wallet -/

/-- What the operations on hybrid keys use of `CWallet`. `db` is the wallet database as it is on
disk. -/
structure HybridWallet extends CKeyStore where
  fFileBacked : Bool
  mapKeyMetadata : Table CKeyID CKeyMetadata
  setUsedHybridKeys : Finset CHybridKeyID
  setUnusedHybridKeys : Finset CHybridKeyID
  mapHybridAddressBook : Table CHybridKeyID CHybridAddressEntry
  mapMasterKeys : Table ℕ CMasterKey
  nMasterKeyMaxID : ℕ
  /-- Whether the handle of `EncryptWallet` is not null. -/
  pwalletdbEncryption : Bool
  setKeyPool : Finset ℕ
  mapWallet : Table uint256 CTransaction
  db : WalletRecords

/-- What `GenerateHybridKey` gets from the random number generators and the clock. -/
structure FreshKey (C : KeyCrypto) where
  key : CKey
  pkey : EVP_PKEY
  nTime : ℤ
  set : C.SetSecret key.vchSecret true = some key
  generated : C.d2iMLDSA pkey = some pkey

/-- `CKeyMetadata(nCreateTime)`. -/
def CKeyMetadata.ofTime (nCreateTime : ℤ) : CKeyMetadata := ⟨1, nCreateTime⟩

/-- `CHybridAddressEntry(label)` at the given time. -/
def CHybridAddressEntry.ofLabel (nTime : ℤ) (strLabel strPurpose : List UInt8) :
    CHybridAddressEntry :=
  ⟨1, nTime, strLabel, strPurpose⟩

/-- `std::map::emplace`, which leaves an existing entry alone. -/
def emplace {K V : Type} [DecidableEq K] (k : K) (v : V) (t : Table K V) : Table K V :=
  if (t.lookup k).isSome then t else t.insert k v

/-- A key that `EnsureHybridKeyPool` or `NewHybridKeyPool` has built. -/
structure StagedHybridKey where
  hybridID : CHybridKeyID
  key : CHybridKey
  disk : CHybridKeyDisk
  ecdsa : CKey
  metadata : CKeyMetadata
  cryptedSecret : valtype
  fPersistKey : Bool

namespace HybridWallet

variable (C : KeyCrypto) (o : WalletDbOutcome) (w : HybridWallet)

def EncryptKeySecret (key : CKey) : Option valtype :=
  if ¬ w.IsCrypted ∨ w.IsLocked then none
  else C.EncryptSecret w.vMasterKey key.vchSecret (C.Hash key.vchPubKey)

/-- The encrypted secret of a legacy key that is to be stored; empty where none is needed. -/
def cryptedSecretOf (fPersistKey : Bool) (key : CKey) : Option valtype :=
  if fPersistKey ∧ w.IsCrypted then w.EncryptKeySecret C key else some []

def MakeHybridKeyDisk (hk : CHybridKey) : Option CHybridKeyDisk :=
  if w.IsCrypted then
    if w.IsLocked then none else CHybridKeyDiskRecord.FromMemoryEncrypted C hk w.vMasterKey
  else CHybridKeyDiskRecord.FromMemory C hk

def StageKeyRecord (key : CKey) (metadata : CKeyMetadata) (vchCryptedSecret : valtype)
    (db : WalletRecords) : Option WalletRecords :=
  if w.IsCrypted then o.WriteCryptedKey key.vchPubKey vchCryptedSecret metadata db
  else o.WriteKey key.vchPubKey key.GetPrivKey metadata db

def StageHybridKey (hk : CHybridKey) (ecdsa : CKey) (disk : CHybridKeyDisk)
    (metadata : CKeyMetadata) (vchCryptedSecret : valtype) (fPersistLegacyKey : Bool)
    (db : WalletRecords) : Option WalletRecords :=
  if ecdsa.vchPubKey ≠ hk.secpPub ∨ ecdsa.GetPrivKey ≠ hk.secpPriv ∨
      disk.keys.secpPub ≠ hk.secpPub ∨ disk.IsEncrypted ≠ w.IsCrypted then none
  else
    (if fPersistLegacyKey then w.StageKeyRecord o ecdsa metadata vchCryptedSecret db
      else some db).bind fun db =>
        (hk.GetHybridID C).bind fun hybridID => o.WriteHybridKey hybridID disk db

/-- `LoadKey` or `LoadCryptedKey`, and the metadata of the key. -/
def addLegacyKey (ecdsa : CKey) (metadata : CKeyMetadata) (cryptedSecret : valtype) :
    HybridWallet :=
  let keyID := C.GetID ecdsa.vchPubKey
  let w : HybridWallet :=
    if w.IsCrypted then
      { w with mapCryptedKeys := w.mapCryptedKeys.insert keyID (ecdsa.vchPubKey, cryptedSecret) }
    else
      { w with mapKeys := w.mapKeys.insert keyID (ecdsa.vchSecret, ecdsa.fCompressedPubKey) }
  { w with mapKeyMetadata := w.mapKeyMetadata.insert keyID metadata }

/-- The hybrid key becomes usable; `disk` is its record if it is stored. -/
def addHybridKey (hybridID : CHybridKeyID) (hk : CHybridKey) (disk : Option CHybridKeyDisk) :
    HybridWallet :=
  { w with
    mapHybridKeys := emplace hybridID hk w.mapHybridKeys
    mapHybridKeyDisk :=
      match disk with
      | some disk =>
        if w.IsCrypted then w.mapHybridKeyDisk.insert hybridID disk else w.mapHybridKeyDisk
      | none => w.mapHybridKeyDisk }

/-! ## The hybrid key pool -/

def GenerateHybridKey (fresh : FreshKey C) : CHybridKey where
  secpPriv := fresh.key.GetPrivKey
  secpPub := fresh.key.vchPubKey
  mldsaAlg := MLDSA_ALG
  mldsaSigner := some fresh.pkey
  nCreateTime := fresh.nTime

/-- The building of one key of the pool; `NewHybridKeyPool` always stores the legacy key, and
`EnsureHybridKeyPool` only one that the wallet does not have. -/
def buildPoolKey (fAlwaysPersist : Bool) (fresh : FreshKey C) : Option StagedHybridKey := do
  let key := GenerateHybridKey C fresh
  if key.Validate C then
    let hybridID ← key.GetHybridID C
    let ecdsa ← key.GetCKey C
    let fPersistKey := fAlwaysPersist || ! w.HaveKey (C.GetID ecdsa.vchPubKey)
    let cryptedSecret ← w.cryptedSecretOf C fPersistKey ecdsa
    let disk ← w.MakeHybridKeyDisk C key
    some {
      hybridID, key, disk, ecdsa
      metadata := .ofTime key.nCreateTime
      cryptedSecret, fPersistKey }
  else none

/-- The loop that builds the keys; a generator that fails throws. -/
def buildPoolKeys (fAlwaysPersist : Bool) : List (Option (FreshKey C)) →
    Option (List StagedHybridKey)
  | [] => some []
  | fresh :: rest => do
    let fresh ← fresh
    let entry ← w.buildPoolKey C fAlwaysPersist fresh
    let staged ← buildPoolKeys fAlwaysPersist rest
    some (entry :: staged)

/-- The writes of a pool: all keys in one transaction. -/
def stagePool : List StagedHybridKey → WalletRecords → Option WalletRecords
  | [], db => some db
  | entry :: staged, db => do
    let db ← w.StageHybridKey C o entry.key entry.ecdsa entry.disk entry.metadata
      entry.cryptedSecret entry.fPersistKey db
    stagePool staged db

/-- A key of the pool is registered in memory. -/
def registerPoolKey (fUnused : Bool) (w : HybridWallet) (entry : StagedHybridKey) :
    HybridWallet :=
  let w : HybridWallet :=
    if entry.fPersistKey then w.addLegacyKey C entry.ecdsa entry.metadata entry.cryptedSecret
    else w
  let w := w.addHybridKey entry.hybridID entry.key (if w.fFileBacked then some entry.disk else none)
  { w with
    setUnusedHybridKeys :=
      if fUnused then insert entry.hybridID w.setUnusedHybridKeys else w.setUnusedHybridKeys }

/-- The keys are built, stored if the wallet has a file, and registered; none when any step
fails. -/
def makePool (fAlwaysPersist fUnused : Bool) (fresh : List (Option (FreshKey C))) :
    Option HybridWallet := do
  let staged ← w.buildPoolKeys C fAlwaysPersist fresh
  (if w.fFileBacked then o.transaction (w.stagePool C o staged) w.db else some w.db).map fun db =>
    staged.foldl (registerPoolKey C fUnused) { w with db := db }

/-- `NewHybridKeyPool`, which tells its caller nothing. -/
def NewHybridKeyPool (fresh : List (Option (FreshKey C))) : HybridWallet :=
  if w.IsCrypted ∧ w.IsLocked then w else (w.makePool C o true false fresh).getD w

/-- `EnsureHybridKeyPool`; the generators are asked for as many keys as are missing. -/
def EnsureHybridKeyPool (nTarget : ℕ) (fresh : ℕ → Option (FreshKey C)) : Bool × HybridWallet :=
  if w.IsLocked then (false, w)
  else if w.mapHybridKeys.keys.card ≥ nTarget then (true, w)
  else
    match w.makePool C o false true
        ((List.range (nTarget - w.mapHybridKeys.keys.card)).map fresh) with
    | some w => (true, w)
    | none => (false, w)

/-! ## EnsureHybridKey -/

def GetHybridKeyIDByLegacyKeyID (keyID : CKeyID) : Option CHybridKeyID :=
  (w.FindHybridKeyByLegacyID C keyID).filter fun hybridID =>
    (w.mapHybridKeys.lookup hybridID).isSome

/-- The hybrid key that `EnsureHybridKey` builds around a legacy key. -/
def hybridKeyOf (key : CKey) (pkey : EVP_PKEY) (nTime : ℤ) : CHybridKey where
  secpPriv := key.GetPrivKey
  secpPub := key.vchPubKey
  mldsaAlg := MLDSA_ALG
  mldsaSigner := some pkey
  nCreateTime := nTime

/-- The storing step of `EnsureHybridKey`: the record and the database, or nothing where the
wallet does not store the key. -/
def persistHybridKey (keyID : CKeyID) (key : CKey) (hk : CHybridKey) :
    Option (Option CHybridKeyDisk × WalletRecords) :=
  if w.fFileBacked ∧ (¬ w.IsCrypted ∨ ¬ w.IsLocked) then do
    let disk ← w.MakeHybridKeyDisk C hk
    let metadata := (w.mapKeyMetadata.lookup keyID).getD (.ofTime hk.nCreateTime)
    let vchCryptedSecret ← w.cryptedSecretOf C true key
    let db ← o.transaction (w.StageHybridKey C o hk key disk metadata vchCryptedSecret true) w.db
    some (some disk, db)
  else some (none, w.db)

/-- `EnsureHybridKey` of a key that is not there yet; none when any step fails. -/
def makeHybridKey (pkey : EVP_PKEY) (nTime : ℤ) (keyID : CKeyID) : Option HybridWallet := do
  let key ← w.GetKey C keyID
  let hk := hybridKeyOf key pkey nTime
  if hk.Validate C then
    let hybridID ← hk.GetHybridID C
    let (disk, db) ← w.persistHybridKey C o keyID key hk
    some (({ w with db := db } : HybridWallet).addHybridKey hybridID hk disk)
  else none

/-- `EnsureHybridKey`; `pkey` is the signer that is generated. -/
def EnsureHybridKey (pkey : Option EVP_PKEY) (nTime : ℤ) (keyID : CKeyID) : Bool × HybridWallet :=
  if (w.GetHybridKeyIDByLegacyKeyID C keyID).isSome then (true, w)
  else
    match pkey.bind fun pkey => w.makeHybridKey C o pkey nTime keyID with
    | some w => (true, w)
    | none => (false, w)

/-! ## Import -/

/-- The errors of an import. -/
inductive ImportError where
  | invalidWif
  | invalidDer
  | derDecode
  | unlockNeeded
  | invalidHybridKey
  | alreadyHave
  | invalidEcdsaKey
  | encryptFailed
  | buildRecord
  | txnBegin
  | persist
deriving DecidableEq, Repr

/-- The message of an error. Of the errors after which a transaction is aborted the last one stands
for all: its text goes on with what went wrong. -/
def ImportError.message : ImportError → String
  | .invalidWif => "Invalid secp256k1 private key (WIF)"
  | .invalidDer => "Invalid ML-DSA private key (Base64 DER expected)"
  | .derDecode => "ML-DSA private key decode failed"
  | .unlockNeeded => "Error: Please enter the wallet passphrase with walletpassphrase first."
  | .invalidHybridKey => "Invalid hybrid key: "
  | .alreadyHave => "Already have this hybrid key"
  | .invalidEcdsaKey => "Invalid hybrid ECDSA key"
  | .encryptFailed => "Error encrypting ECDSA key with wallet master key"
  | .buildRecord => "Error building hybrid key record: "
  | .txnBegin => "database error"
  | .persist => "Error persisting hybrid key: "

/-- What an import is asked for: the two halves as they were decoded, none where they were not
well formed, the label, the creation time and the time of the import. -/
structure HybridImport where
  vchSecret : Option (CSecret × Bool)
  mldsaPriv : Option valtype
  strLabel : List UInt8
  nCreateTime : ℤ
  nNow : ℤ

variable (r : HybridImport)

/-- `CHybridAddressEntry(strLabel)`. -/
def HybridImport.entry : CHybridAddressEntry :=
  .ofLabel r.nNow r.strLabel "receive".toUTF8.toList

/-- The writes of an import: the two halves, and the label if there is one. -/
def stageImport (entry : StagedHybridKey) (db : WalletRecords) :
    Option WalletRecords := do
  let db ← w.StageHybridKey C o entry.key entry.ecdsa entry.disk entry.metadata
    entry.cryptedSecret entry.fPersistKey db
  if r.strLabel = [] then some db else o.WriteHybridAddressEntry entry.hybridID r.entry db

/-- The key that is imported, from the two halves. -/
def importedKey : Except ImportError CHybridKey :=
  match r.vchSecret.bind fun (secret, fCompressed) => C.SetSecret secret fCompressed with
  | none => .error .invalidWif
  | some key =>
    match r.mldsaPriv.filter fun der => der ≠ [] ∧ der.length ≤ 8192 with
    | none => .error .invalidDer
    | some der =>
      match C.d2iMLDSA der with
      | none => .error .derDecode
      | some pkey =>
        let hk : CHybridKey := hybridKeyOf key pkey r.nCreateTime
        if w.IsCrypted ∧ w.IsLocked then .error .unlockNeeded
        else if hk.Validate C then .ok hk
        else .error .invalidHybridKey

/-- The record and the database after the transaction of an import. -/
def persistImport (hybridID : CHybridKeyID) (hk : CHybridKey) (ecdsa : CKey)
    (cryptedSecret : valtype) (fPersistKey : Bool) :
    Except ImportError (Option CHybridKeyDisk × WalletRecords) :=
  if w.fFileBacked then
    match w.MakeHybridKeyDisk C hk with
    | none => .error .buildRecord
    | some disk =>
      let entry : StagedHybridKey := {
        hybridID
        key := hk
        disk, ecdsa
        metadata := .ofTime hk.nCreateTime
        cryptedSecret, fPersistKey }
      if ¬ o.txnBegin then .error .txnBegin
      else
        match o.transaction (w.stageImport C o r entry) w.db with
        | none => .error .persist
        | some db => .ok (some disk, db)
  else .ok (none, w.db)

/-- What memory holds after an import. -/
def registerImport (hybridID : CHybridKeyID) (hk : CHybridKey) (ecdsa : CKey)
    (cryptedSecret : valtype) (fPersistKey : Bool) (disk : Option CHybridKeyDisk)
    (db : WalletRecords) : HybridWallet :=
  let w : HybridWallet := { w with db := db }
  let w : HybridWallet :=
    if fPersistKey then w.addLegacyKey C ecdsa (.ofTime hk.nCreateTime) cryptedSecret else w
  let w := w.addHybridKey hybridID hk disk
  { w with
    mapHybridAddressBook :=
      if r.strLabel = [] then w.mapHybridAddressBook
      else w.mapHybridAddressBook.insert hybridID r.entry }

/-- `ImportHybridKeyFromComponents` without the rescan: the address and the wallet. -/
def ImportHybridKeyFromComponents :
    Except ImportError (CHybridKeyID × HybridWallet) := do
  let hk ← w.importedKey C r
  let hybridID ← (hk.GetHybridID C).elim (.error .invalidHybridKey) .ok
  if (w.mapHybridKeys.lookup hybridID).isSome then throw .alreadyHave
  let ecdsa ← (hk.GetCKey C).elim (.error .invalidEcdsaKey) .ok
  let fPersistKey := ! w.HaveKey (C.GetID ecdsa.vchPubKey)
  let cryptedSecret ←
    (w.cryptedSecretOf C fPersistKey ecdsa).elim (.error .encryptFailed) .ok
  let (disk, db) ← w.persistImport C o r hybridID hk ecdsa cryptedSecret fPersistKey
  return (hybridID, w.registerImport C r hybridID hk ecdsa cryptedSecret fPersistKey disk db)

/-! ## Lock and Unlock -/

def Lock : Bool × HybridWallet :=
  if ¬ w.IsCrypted then (false, w)
  else (true, { w with toCKeyStore := w.lock, setUnusedHybridKeys := ∅ })

variable (vMasterKey : CKeyingMaterial)

/-- What `CCryptoKeyStore::Unlock` tests: the first encrypted key opens. -/
def opensFirstKey : Bool :=
  match (Table.sortedKeys w.mapCryptedKeys).head?.bind w.mapCryptedKeys.lookup with
  | none => true
  | some (vchPubKey, vchCryptedSecret) =>
    ((C.DecryptSecret vMasterKey vchCryptedSecret (C.Hash vchPubKey)).bind fun vchSecret =>
      C.ecPubKey vchSecret) = some vchPubKey

/-- One round of the loop of `DecryptHybridKeys`. A plaintext record is replaced by an encrypted
one. -/
def decryptHybridKey (state : Bool × HybridWallet)
    (hybridID : CHybridKeyID) : Bool × HybridWallet :=
  let (fOk, w) := state
  match w.mapHybridKeyDisk.lookup hybridID with
  | none => state
  | some disk =>
    if (w.mapHybridKeys.lookup hybridID).isSome then state
    else
      match (if disk.CheckChecksum C then disk.materialize C vMasterKey else none) with
      | none => (false, w)
      | some mem =>
        if mem.GetHybridID C ≠ some hybridID then (false, w)
        else
          let w : HybridWallet := { w with
            mapHybridKeys := w.mapHybridKeys.insert hybridID mem
            setUnusedHybridKeys :=
              if hybridID ∈ w.setUsedHybridKeys then w.setUnusedHybridKeys
              else insert hybridID w.setUnusedHybridKeys }
          if disk.IsEncrypted then (fOk, w)
          else
            match CHybridKeyDiskRecord.FromMemoryEncrypted C mem vMasterKey with
            | none => (false, w)
            | some enc =>
              match o.WriteHybridKey hybridID enc w.db with
              | none => (false, w)
              | some db =>
                (fOk, { w with
                  mapHybridKeyDisk := w.mapHybridKeyDisk.insert hybridID enc
                  db := db })

/-- `DecryptHybridKeys` in an encrypted wallet. -/
def DecryptHybridKeys : Bool × HybridWallet :=
  (Table.sortedKeys w.mapHybridKeyDisk).foldl (decryptHybridKey C o vMasterKey) (true, w)

/-- `CCryptoKeyStore::Unlock` and what `CWallet::Unlock` does after it: none where the master key
is not the one. -/
def unlockWith : Option (Bool × HybridWallet) :=
  if w.opensFirstKey C vMasterKey then
    let result := { w with vMasterKey := vMasterKey }.DecryptHybridKeys C o vMasterKey
    if result.1 then some result else some (false, result.2.Lock.2)
  else none

end HybridWallet

end Phoenixcoin.Program
