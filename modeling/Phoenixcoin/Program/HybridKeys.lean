import Phoenixcoin.Program.KeyStore

/-!
# Hybrid keys and their records

`ValidateHybridKey`, the identifiers of a hybrid key, and the record that keeps it at rest:
`FromMemory`, `FromMemoryEncrypted`, `DecryptPrivate` and the checksum of `wallethybrid.cpp`. A
function that throws gives none.
-/

set_option autoImplicit false

namespace Phoenixcoin.Program

open Lib

def HYBRIDKEY_DISK_VERSION : ℕ := 2

def MLDSA_ALG : List UInt8 := "p384_mldsa65".toUTF8.toList

/-- The conversion of an `int64_t` to an `int32_t`. -/
def toInt32 (n : ℤ) : ℤ := Int.bmod n (2 ^ 32)

namespace CHybridKey

variable (C : KeyCrypto)

def GetHybridID (hk : CHybridKey) : Option CHybridKeyID :=
  hk.mldsaSigner.map fun pkey => C.Hash160 (hk.secpPub ++ C.mldsaPubKey pkey)

def GetCKey (hk : CHybridKey) : Option CKey :=
  (C.SetPrivKey hk.secpPriv).filter fun key => key.vchPubKey = hk.secpPub

/-- `ValidateHybridKey`. -/
def Validate (hk : CHybridKey) : Bool :=
  hk.secpPriv ≠ [] && hk.secpPub.IsValid && hk.secpPub.length = 33 && hk.mldsaAlg = MLDSA_ALG
    && hk.mldsaSigner.isSome && (hk.GetCKey C).isSome && 0 < hk.nCreateTime

end CHybridKey

namespace CHybridKeyDiskRecord

def IsEncrypted (disk : CHybridKeyDisk) : Bool :=
  HYBRIDKEY_DISK_VERSION_ENCRYPTED ≤ disk.nVersion

/-- `SerializeHybridDiskPayload`. -/
def payload (disk : CHybridKeyDisk) : List UInt8 :=
  ucharCodec.write disk.nVersion ++ intCodec32.write disk.nCreateTime ++
    if disk.IsEncrypted then
      ucharVector.write disk.keys.secpPub ++ stringCodec.write disk.keys.mldsaAlg ++
        ucharVector.write disk.keys.vchCryptedPrivate
    else
      ucharVector.write disk.keys.secpPriv ++ ucharVector.write disk.keys.secpPub ++
        (if 2 ≤ disk.nVersion then stringCodec.write disk.keys.mldsaAlg else []) ++
        ucharVector.write disk.keys.mldsaPrivKey

variable (C : KeyCrypto)

def ComputeChecksum (disk : CHybridKeyDisk) : CHybridKeyDisk :=
  { disk with hashChecksum := C.Hash disk.payload }

def CheckChecksum (disk : CHybridKeyDisk) : Bool := disk.hashChecksum = C.Hash disk.payload

def FromMemory (hk : CHybridKey) : Option CHybridKeyDisk :=
  hk.mldsaSigner.map fun mldsaPrivKey => ComputeChecksum C {
    nVersion := HYBRIDKEY_DISK_VERSION
    nCreateTime := toInt32 hk.nCreateTime
    keys := {
      secpPriv := hk.secpPriv
      secpPub := hk.secpPub
      mldsaAlg := hk.mldsaAlg
      mldsaPrivKey }
    hashChecksum := 0 }

/-- The two private keys as they are encrypted together. -/
def privateCodec : Codec (CPrivKey × valtype) := ucharVector.pair ucharVector

def FromMemoryEncrypted (hk : CHybridKey) (vMasterKey : CKeyingMaterial) :
    Option CHybridKeyDisk := do
  let mldsaPriv ← hk.mldsaSigner
  let vchCryptedPrivate ← C.EncryptSecret vMasterKey
    (privateCodec.write (hk.secpPriv, mldsaPriv)) (C.Hash hk.secpPub)
  some (ComputeChecksum C {
    nVersion := HYBRIDKEY_DISK_VERSION_ENCRYPTED
    nCreateTime := toInt32 hk.nCreateTime
    keys := {
      secpPub := hk.secpPub
      mldsaAlg := hk.mldsaAlg
      vchCryptedPrivate }
    hashChecksum := 0 })

def DecryptPrivate (vMasterKey : CKeyingMaterial) (disk : CHybridKeyDisk) :
    Option (CPrivKey × valtype) :=
  if ¬ disk.IsEncrypted then some (disk.keys.secpPriv, disk.keys.mldsaPrivKey)
  else do
    let vchPlaintext ← C.DecryptSecret vMasterKey disk.keys.vchCryptedPrivate
      (C.Hash disk.keys.secpPub)
    let (keys, _) ← unserialize privateCodec (.ofBytes vchPlaintext)
    some keys

/-- The key that a record holds: the steps that `LoadHybridKey` and `DecryptHybridKeys` share
after the checksum. -/
def materialize (vMasterKey : CKeyingMaterial) (disk : CHybridKeyDisk) : Option CHybridKey := do
  let (secpPriv, mldsaPriv) ← DecryptPrivate C vMasterKey disk
  let _ ← C.SetPrivKey secpPriv
  let pkey ← C.d2iMLDSA mldsaPriv
  let mem : CHybridKey := {
    secpPriv
    secpPub := disk.keys.secpPub
    mldsaAlg := disk.keys.mldsaAlg
    mldsaSigner := some pkey
    nCreateTime := disk.nCreateTime }
  if mem.Validate C then some mem else none

end CHybridKeyDiskRecord

end Phoenixcoin.Program
