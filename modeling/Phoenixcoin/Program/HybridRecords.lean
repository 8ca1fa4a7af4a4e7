import Phoenixcoin.Program.HybridKeys
import Phoenixcoin.Program.WalletLoad

/-!
# Records of hybrid keys

`LoadAllHybridKeys` of `walletdb_hybrid.cpp`, which takes records of three layouts, and
`FromLegacyDiskFormat` of `wallethybrid.cpp`, which reads the oldest one.
-/

set_option autoImplicit false

namespace Phoenixcoin.Program

open Lib

namespace CHybridKeyDiskRecord

/-- A field that is read only if so many bytes are left. -/
def readGuarded {α : Type} (least : ℕ) (c : Codec α) (ss : List UInt8) : Option (α × List UInt8) :=
  if ss.length < least then none else c.decoder.eval ss

def FromLegacyDiskFormat (ss : List UInt8) : Option CHybridKeyDiskRecord := do
  let (nStreamVersion, ss) ← readGuarded 4 intCodec32 ss
  let (nCreateTime, ss) ← readGuarded 4 intCodec32 ss
  let (secpPriv, ss) ← readGuarded 1 ucharVector ss
  let (secpPub, ss) ← readGuarded 1 ucharVector ss
  let ((mldsaAlg, mldsaPrivKey), ss) ←
    if nStreamVersion ≥ 2 then do
      let (mldsaAlg, ss) ← readGuarded 1 stringCodec ss
      let (mldsaPrivKey, ss) ← readGuarded 1 ucharVector ss
      some ((mldsaAlg, mldsaPrivKey), ss)
    else some (([], []), ss)
  let (hashChecksum, ss) ← readGuarded 32 uint256Codec ss
  if ss = [] then
    some {
      nVersion := HYBRIDKEY_DISK_VERSION
      nCreateTime
      keys := { secpPriv, secpPub, mldsaAlg, mldsaPrivKey }
      hashChecksum }
  else none

/-- The record in a value with `fLegacyDisk`. A value that the newest layout does not decode, or
decodes to another version, is read in the oldest one. -/
def ofValue (value : List UInt8) : Option (CHybridKeyDiskRecord × Bool) :=
  let fromLegacy := (FromLegacyDiskFormat value).map fun disk => (disk, true)
  match codec.decoder.eval value with
  | some (disk, _) =>
    if disk.nVersion = HYBRIDKEY_DISK_VERSION ∨
        disk.nVersion = HYBRIDKEY_DISK_VERSION_ENCRYPTED then some (disk, false)
    else fromLegacy
  | none => fromLegacy

/-- `LoadAllHybridKeys` without `vMalformed`; a key that cannot be decoded is an exception. -/
def LoadAllHybridKeys (records : List DbRecord) :
    Option (List (uint160 × CHybridKeyDiskRecord × Bool)) :=
  records.foldlM (fun vKeys record => do
    let (strType, ssKey) ← stringCodec.decoder.eval record.1
    if strType ≠ "hyb".toUTF8.toList then some vKeys
    else
      let (hybridID, _) ← uint160Codec.decoder.eval ssKey
      some (vKeys ++ ((ofValue record.2).map fun disk => (hybridID, disk)).toList)) []

end CHybridKeyDiskRecord

end Phoenixcoin.Program
