import Phoenixcoin.Program.HybridWallet

/-!
# The check of hybrid keys

`CheckHybridKeys` of `wallethybrid.cpp` with the problems that it reports.
-/

set_option autoImplicit false

namespace Phoenixcoin.Program

open Lib

/-- A problem that `CheckHybridKeys` reports; an identifier that does not apply is zero. -/
structure CHybridKeyCheckIssue where
  hybridID : CHybridKeyID
  legacyID : CKeyID
  strProblem : String
deriving DecidableEq, Repr

namespace HybridWallet

variable (C : KeyCrypto) (w : HybridWallet)

/-- A problem, if there is one. -/
def problemIf (b : Bool) (text : String) : List String := if b then [text] else []

def GetPubKey (address : CKeyID) : Option CPubKey :=
  if w.IsCrypted then (w.mapCryptedKeys.lookup address).map Prod.fst
  else (w.GetKey C address).map CKey.vchPubKey

/-- The identifier of an EC half, zero if the public key is not valid. -/
def legacyIDOf (secpPub : CPubKey) : CKeyID := if secpPub.IsValid then C.GetID secpPub else 0

/-- The keystore has the EC half of a hybrid key. -/
def checkLegacyRecord (secpPub : CPubKey) (context : String) : List String :=
  if ¬ secpPub.IsValid then [context ++ ": invalid secp256k1 public key"]
  else if ¬ w.HaveKey (C.GetID secpPub) then [context ++ ": legacy ECDSA key record is missing"]
  else
    match w.GetPubKey C (C.GetID secpPub) with
    | none => [context ++ ": cannot read the legacy ECDSA public key"]
    | some storedPub =>
      problemIf (storedPub ≠ secpPub)
        (context ++ ": legacy ECDSA public key does not match the hybrid key")

/-- The checks of a key that is loaded. -/
def checkLoadedKey (hybridID : CHybridKeyID) (hk : CHybridKey) : List String :=
  w.checkLegacyRecord C hk.secpPub "loaded hybrid key" ++
  problemIf hk.mldsaSigner.isNone "loaded hybrid key has no ML-DSA signer" ++
  (if hk.secpPriv = [] then ["loaded hybrid key has no secp256k1 private key"]
    else problemIf (hk.GetCKey C).isNone
      "loaded hybrid key contains an invalid secp256k1 key pair") ++
  (if w.IsLocked then []
    else
      match w.GetKey C (legacyIDOf C hk.secpPub) with
      | none => ["legacy ECDSA private key is not available"]
      | some ecdsa =>
        problemIf (ecdsa.vchPubKey ≠ hk.secpPub)
          "legacy ECDSA public key does not match the loaded hybrid key" ++
        problemIf (ecdsa.GetPrivKey ≠ hk.secpPriv)
          "legacy ECDSA private key does not match the loaded hybrid key") ++
  (match hk.GetHybridID C with
    | none => ["cannot derive the loaded hybrid key ID"]
    | some derivedID =>
      problemIf (derivedID ≠ hybridID) "loaded hybrid key does not derive its record ID")

/-- The checks of the layout of a record. -/
def checkRecordForm (disk : CHybridKeyDisk) (context : String) : List String :=
  if disk.IsEncrypted then
    problemIf (! w.IsCrypted) (context ++ ": encrypted hybrid record in an unencrypted wallet") ++
    problemIf (disk.keys.vchCryptedPrivate = [])
      (context ++ ": empty encrypted private key blob") ++
    problemIf (disk.keys.secpPriv ≠ [])
      (context ++ ": encrypted hybrid record contains a plaintext secp256k1 private key") ++
    problemIf (disk.keys.mldsaPrivKey ≠ [])
      (context ++ ": encrypted hybrid record contains a plaintext ML-DSA private key")
  else
    problemIf w.IsCrypted (context ++ ": plaintext hybrid record in an encrypted wallet") ++
    problemIf (disk.keys.secpPriv = [])
      (context ++ ": plaintext hybrid record has no secp256k1 private key") ++
    problemIf (disk.keys.mldsaPrivKey = [])
      (context ++ ": plaintext hybrid record has no ML-DSA private key")

/-- A record against the key that is loaded under its identifier. -/
def checkAgainstLoaded (hybridID : CHybridKeyID) (disk : CHybridKeyDisk) (context : String) :
    List String :=
  match w.mapHybridKeys.lookup hybridID with
  | none => []
  | some loaded =>
    problemIf (loaded.secpPub ≠ disk.keys.secpPub)
      (context ++ ": secp256k1 public key differs from the loaded hybrid key") ++
    problemIf (! disk.IsEncrypted && loaded.secpPriv ≠ disk.keys.secpPriv)
      (context ++ ": secp256k1 private key differs from the loaded hybrid key") ++
    problemIf (loaded.nCreateTime ≠ disk.nCreateTime)
      (context ++ ": creation time differs from the loaded hybrid key")

/-- A record of the database against the record that is cached. -/
def checkAgainstCached (hybridID : CHybridKeyID) (disk : CHybridKeyDisk) (context : String) :
    List String :=
  match w.mapHybridKeyDisk.lookup hybridID with
  | none => []
  | some cached =>
    problemIf (cached.keys.secpPub ≠ disk.keys.secpPub)
      (context ++ ": secp256k1 public key differs from the cached at-rest record") ++
    problemIf (cached.nVersion ≠ disk.nVersion)
      (context ++ ": disk version differs from the cached at-rest record") ++
    problemIf (cached.hashChecksum ≠ disk.hashChecksum)
      (context ++ ": checksum differs from the cached at-rest record")

/-- `MaterializeHybridKeyForCheck`; the text says what is wrong. -/
def materializeForCheck (disk : CHybridKeyDisk) : Except String CHybridKey :=
  if disk.nVersion ≠ HYBRIDKEY_DISK_VERSION ∧
      disk.nVersion ≠ HYBRIDKEY_DISK_VERSION_ENCRYPTED then
    .error "unsupported hybrid key disk version"
  else if ¬ disk.CheckChecksum C then .error "checksum mismatch"
  else if ¬ CPubKey.IsValid disk.keys.secpPub then .error "invalid secp256k1 public key"
  else if disk.IsEncrypted ∧ disk.keys.vchCryptedPrivate = [] then
    .error "empty encrypted private blob"
  else if ¬ disk.IsEncrypted ∧ disk.keys.secpPriv = [] then
    .error "missing plaintext secp256k1 private key"
  else if ¬ disk.IsEncrypted ∧ disk.keys.mldsaPrivKey = [] then
    .error "missing plaintext ML-DSA private key"
  else
    match disk.DecryptPrivate C w.vMasterKey with
    | none => .error "cannot decrypt private material"
    | some (secpPriv, _) =>
      match C.SetPrivKey secpPriv with
      | none => .error "invalid secp256k1 private key"
      | some key =>
        if key.vchPubKey ≠ disk.keys.secpPub then
          .error "secp256k1 private key does not match public key"
        else
          match disk.materialize C w.vMasterKey with
          | none => .error "hybrid key validation failed"
          | some materialized => .ok materialized

/-- The deep check of a record, for which its private keys have to be readable. -/
def checkMaterial (hybridID : CHybridKeyID) (disk : CHybridKeyDisk) (context : String) :
    List String :=
  if ! disk.IsEncrypted || (w.IsCrypted && ! w.IsLocked) then
    match w.materializeForCheck C disk with
    | .error text => [context ++ ": cannot materialize: " ++ text]
    | .ok materialized =>
      problemIf (materialized.GetKeyID C ≠ legacyIDOf C disk.keys.secpPub)
        (context ++ ": materialized legacy ECDSA key ID does not match the record") ++
      problemIf (materialized.GetHybridID C ≠ some hybridID)
        (context ++ ": record ID does not match the materialized hybrid key") ++
      (match w.mapHybridKeys.lookup hybridID with
        | none => []
        | some loaded =>
          problemIf (materialized.secpPub ≠ loaded.secpPub)
            (context ++ ": materialized public key differs from the loaded hybrid key") ++
          problemIf (materialized.secpPriv ≠ loaded.secpPriv)
            (context ++ ": materialized private key differs from the loaded hybrid key"))
  else []

/-- The checks of a record. -/
def checkDiskRecord (fDeep : Bool) (context : String) (fFromDatabase : Bool)
    (hybridID : CHybridKeyID) (disk : CHybridKeyDisk) : List String :=
  problemIf (! disk.CheckChecksum C) (context ++ ": checksum mismatch") ++
  w.checkLegacyRecord C disk.keys.secpPub context ++
  w.checkRecordForm disk context ++
  w.checkAgainstLoaded hybridID disk context ++
  (if fFromDatabase then w.checkAgainstCached hybridID disk context else []) ++
  (if fDeep then w.checkMaterial C hybridID disk context else [])

/-- The issues that a check finds, one row of a table after the other. -/
def issuesOf {V : Type} (table : Table CHybridKeyID V) (secpPub : V → CPubKey)
    (check : CHybridKeyID → V → List String) : List CHybridKeyCheckIssue :=
  (Table.sortedKeys table).flatMap fun hybridID =>
    match table.lookup hybridID with
    | none => []
    | some v => (check hybridID v).map fun text => ⟨hybridID, legacyIDOf C (secpPub v), text⟩

/-- The checks of a wallet with a file: the records of the database, then what memory holds
without them. -/
def checkDatabase (fDeep : Bool) : List CHybridKeyCheckIssue :=
  issuesOf C w.db.hyb (fun disk => disk.keys.secpPub) (fun hybridID disk =>
    w.checkDiskRecord C fDeep "database hybrid record" true hybridID disk ++
    problemIf ((w.mapHybridKeys.lookup hybridID).isNone &&
        (w.mapHybridKeyDisk.lookup hybridID).isNone)
      "database hybrid record was not loaded into memory") ++
  issuesOf C w.mapHybridKeys CHybridKey.secpPub (fun hybridID _ =>
    problemIf (w.db.hyb.lookup hybridID).isNone "loaded hybrid key has no database record") ++
  issuesOf C w.mapHybridKeyDisk (fun disk => disk.keys.secpPub) (fun hybridID _ =>
    problemIf (w.db.hyb.lookup hybridID).isNone "cached at-rest hybrid key has no database record")

/-- `CheckHybridKeys`: the issues, before those that are reported twice are dropped. -/
def CheckHybridKeys (fDeep : Bool) : List CHybridKeyCheckIssue :=
  issuesOf C w.mapHybridKeys CHybridKey.secpPub (w.checkLoadedKey C) ++
  (if w.fFileBacked then w.checkDatabase C fDeep
    else issuesOf C w.mapHybridKeyDisk (fun disk => disk.keys.secpPub)
      (w.checkDiskRecord C fDeep "at-rest hybrid record" false)) ++
  (problemIf (! w.IsCrypted && w.mapHybridKeyDisk ≠ ∅)
      "unencrypted wallet holds at-rest hybrid key records" ++
    problemIf (w.IsCrypted && w.IsLocked && w.mapHybridKeys ≠ ∅)
      "locked wallet has decrypted hybrid keys in memory").map fun text => ⟨0, 0, text⟩

end HybridWallet

end Phoenixcoin.Program
