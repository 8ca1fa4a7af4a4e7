import Phoenixcoin.Program.EvalScript
import Phoenixcoin.Program.HybridKeys

/-!
# Signed messages

The container of a hybrid message signature: `SignHybridMessage` of `rpchybrid.cpp`, which writes
it, and `ParseHybridMessage` of `hybrid_message.cpp`, which reads it at a moving offset. A reader
gives what it read with the offset behind it, and none where the source returns false.
-/

set_option autoImplicit false

namespace Phoenixcoin.Program

open Lib

/-- `HYBRID_SIG_MAGIC`, the letters HYBS. -/
def HYBRID_SIG_MAGIC : List UInt8 := [0x48, 0x59, 0x42, 0x53]

def HYBRID_SIG_VERSION : UInt8 := 1

def strMessageMagic : List UInt8 := "Phoenixcoin Signed Message:\n".toUTF8.toList

/-- The components of a container. -/
structure HybridMessage where
  vchEcdsaCompact : valtype
  vchEcdsaPub : valtype
  vchMldsaPub : valtype
  vchMldsaSig : valtype
deriving DecidableEq, Repr

/-! ## Reading -/

def ReadBytes (buf : valtype) (off len : ℕ) : Option (valtype × ℕ) :=
  if len > buf.length ∨ off + len > buf.length then none
  else some ((buf.drop off).take len, off + len)

def GetU16BE (buf : valtype) (off : ℕ) : Option (ℕ × ℕ) :=
  if off + 2 > buf.length then none
  else some ((buf.getD off 0).toNat * 2 ^ 8 + (buf.getD (off + 1) 0).toNat, off + 2)

/-- A field behind its length, which has to be the given one. -/
def readSized (buf : valtype) (off size : ℕ) : Option (valtype × ℕ) := do
  let (len, off) ← GetU16BE buf off
  if len ≠ size then none else ReadBytes buf off len

/-- `ParseHybridMessage` up to the assignments of its outputs. -/
def parseContainer (vchSig : valtype) : Option HybridMessage := do
  if 4 + 1 > vchSig.length then none
  else if vchSig.take 4 ≠ HYBRID_SIG_MAGIC then none
  else if vchSig.getD 4 0 ≠ HYBRID_SIG_VERSION then none
  else
    let (vchEcdsaCompact, off) ← ReadBytes vchSig (4 + 1) 65
    let (vchEcdsaPub, off) ← ReadBytes vchSig off ECDSA_PUBKEY_SIZE
    let (vchMldsaPub, off) ← readSized vchSig off ML_DSA_65_PUBKEY_SIZE
    let (vchMldsaSig, off) ← readSized vchSig off (ML_DSA_65_SIG_SIZE - 1)
    if off ≠ vchSig.length then none
    else some ⟨vchEcdsaCompact, vchEcdsaPub, vchMldsaPub, vchMldsaSig⟩

/-- `ParseHybridMessage` with its four outputs. -/
def ParseHybridMessage (vchSig : valtype) (outputs : HybridMessage) : Bool × HybridMessage :=
  match parseContainer vchSig with
  | none => (false, outputs)
  | some fields => (true, fields)

/-! ## Writing -/

def PutU16BE (v : ℕ) : List UInt8 := [UInt8.ofNat (v / 2 ^ 8), UInt8.ofNat v]

/-- The container that `SignHybridMessage` puts together. -/
def HybridMessage.container (fields : HybridMessage) : valtype :=
  HYBRID_SIG_MAGIC ++ [HYBRID_SIG_VERSION] ++ fields.vchEcdsaCompact ++ fields.vchEcdsaPub ++
    PutU16BE fields.vchMldsaPub.length ++ fields.vchMldsaPub ++
    PutU16BE fields.vchMldsaSig.length ++ fields.vchMldsaSig

/-- The two signature schemes as signers. -/
structure MessageCrypto extends KeyCrypto where
  /-- `secp256k1_ecdsa_sign_recoverable` and its compact serialisation with the recovery id. -/
  signRecoverable : CSecret → uint256 → Option (Fin 4 × valtype)
  /-- `EVP_DigestSign` of ML-DSA-65. -/
  DigestSign : EVP_PKEY → List UInt8 → Option valtype
  length_signRecoverable : ∀ secret hash recid sig64,
    signRecoverable secret hash = some (recid, sig64) → sig64.length = 64
  length_DigestSign : ∀ pkey msg sig, DigestSign pkey msg = some sig → sig.length = 3309

variable (C : MessageCrypto)

def SignCompact (key : CKey) (hash : uint256) : Option valtype :=
  if key.vchSecret.length ≠ 32 then none
  else (C.signRecoverable key.vchSecret hash).map fun (recid, sig64) =>
    UInt8.ofNat (27 + recid.val + if key.fCompressedPubKey then 4 else 0) :: sig64

/-- The components that `SignHybridMessage` signs for. -/
def signedFields (hk : CHybridKey) (strMessage : List UInt8) : Option HybridMessage :=
  if hk.secpPriv = [] then none
  else do
    let mldsaSigner ← hk.mldsaSigner
    let vchMsg := stringCodec.write strMessageMagic ++ stringCodec.write strMessage
    let secpKey ← hk.GetCKey C.toKeyCrypto
    let vchEcdsaCompact ← SignCompact C secpKey (C.Hash vchMsg)
    let vchMldsaSig ← C.DigestSign mldsaSigner (BuildHybridMessage vchMsg)
    let vchMldsaPub := C.mldsaPubKey mldsaSigner
    if hk.secpPub.length ≠ ECDSA_PUBKEY_SIZE ∨ vchMldsaPub.length ≠ ML_DSA_65_PUBKEY_SIZE then none
    else some ⟨vchEcdsaCompact, hk.secpPub, vchMldsaPub, vchMldsaSig⟩

def SignHybridMessage (hk : CHybridKey) (strMessage : List UInt8) : Option valtype :=
  (signedFields C hk strMessage).map HybridMessage.container

end Phoenixcoin.Program
