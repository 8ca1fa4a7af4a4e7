import Phoenixcoin.Program.Records
import Phoenixcoin.Lib.SortedKeys

/-!
# The keystore of a wallet

`CBasicKeyStore`, `CCryptoKeyStore` and the hybrid keys of `CWallet`, with the queries that
`script.cpp` asks them and with `IsMine`. The library functions behind the keys are parameters.
An ML-DSA key is what `i2d_PrivateKey` makes of it.
-/

set_option autoImplicit false

namespace Phoenixcoin.Program

open Lib

/-! ## Keys -/

abbrev CPubKey : Type := valtype

/-- The 32 bytes of a secret. -/
abbrev CSecret : Type := valtype

abbrev CPrivKey : Type := valtype

abbrev CKeyingMaterial : Type := valtype

/-- An ML-DSA private key. -/
abbrev EVP_PKEY : Type := valtype

def WALLET_CRYPTO_KEY_SIZE : ℕ := 32

/-- The functions of libsecp256k1 and OpenSSL that the keys of a wallet rest on. -/
structure KeyCrypto extends Digests where
  /-- `secp256k1_ec_pubkey_create`, none for what is no secret. -/
  ecPubKey : CSecret → Option CPubKey
  /-- The secret in a private key that is not stored as its 32 bytes. -/
  d2iSecret : CPrivKey → Option CSecret
  /-- `d2i_AutoPrivateKey` on all bytes, and the constructor of `MLDSASigner`. -/
  d2iMLDSA : valtype → Option EVP_PKEY
  mldsaPubKey : EVP_PKEY → valtype
  aesEncrypt : CKeyingMaterial → uint256 → valtype → valtype
  aesDecrypt : CKeyingMaterial → uint256 → valtype → Option valtype
  length_ecPubKey : ∀ secret pubKey, ecPubKey secret = some pubKey →
    secret.length = 32 ∧ pubKey.length = 33
  d2iMLDSA_i2d : ∀ der pkey, d2iMLDSA der = some pkey → d2iMLDSA pkey = some pkey
  length_d2iMLDSA : ∀ der pkey, d2iMLDSA der = some pkey → pkey.length ≤ 8192
  aesDecrypt_aesEncrypt : ∀ vMasterKey nIV plain,
    aesDecrypt vMasterKey nIV (aesEncrypt vMasterKey nIV plain) = some plain

theorem length_paddedTo20 (vch : valtype) :
    ((vch ++ List.replicate 20 0).take 20).length = 20 := by simp

theorem length_paddedTo32 (vch : valtype) :
    ((vch ++ List.replicate 32 0).take 32).length = 32 := by simp

/-- Functions that meet the laws and are easy to compute. -/
def exampleCrypto : KeyCrypto where
  RIPEMD160 vch := (vch ++ List.replicate 20 0).take 20
  SHA1 vch := (vch ++ List.replicate 20 0).take 20
  SHA256 vch := (vch ++ List.replicate 32 0).take 32
  length_RIPEMD160 := length_paddedTo20
  length_SHA1 := length_paddedTo20
  length_SHA256 := length_paddedTo32
  ecPubKey secret := if secret.length = 32 then some (2 :: secret) else none
  d2iSecret _ := none
  d2iMLDSA der := if der = [] ∨ 8192 < der.length then none else some der
  mldsaPubKey pkey := pkey
  aesEncrypt vMasterKey _ plain := plain ++ vMasterKey
  aesDecrypt vMasterKey _ cipher :=
    if vMasterKey.isSuffixOf cipher then some (cipher.take (cipher.length - vMasterKey.length))
    else none
  length_ecPubKey secret pubKey h := by
    split at h
    · next hlength =>
      cases h
      exact ⟨hlength, by simp [hlength]⟩
    · cases h
  d2iMLDSA_i2d der pkey h := by
    split at h
    · cases h
    · next hne =>
      cases h
      exact if_neg hne
  length_d2iMLDSA der pkey h := by
    split at h
    · cases h
    · next hne =>
      cases h
      omega
  aesDecrypt_aesEncrypt vMasterKey _ plain := by simp

def CPubKey.IsValid (pubKey : CPubKey) : Bool := pubKey.length = 33 || pubKey.length = 65

/-- `CKey` that is set: the secret is one, and `vchPubKey` is its compressed public key whatever
`fCompressedPubKey` says. -/
structure CKey where
  vchSecret : CSecret
  vchPubKey : CPubKey
  fCompressedPubKey : Bool
deriving DecidableEq, Repr

/-- `CHybridKey`; the signer may be missing. -/
structure CHybridKey where
  secpPriv : CPrivKey
  secpPub : CPubKey
  mldsaAlg : List UInt8
  mldsaSigner : Option EVP_PKEY
  nCreateTime : ℤ
deriving DecidableEq, Repr

/-- `CHybridKeyDisk` is its record. -/
abbrev CHybridKeyDisk : Type := CHybridKeyDiskRecord

namespace KeyCrypto

variable (C : KeyCrypto)

def GetID (pubKey : CPubKey) : CKeyID := C.Hash160 pubKey

def SetSecret (secret : CSecret) (fCompressed : Bool) : Option CKey :=
  (C.ecPubKey secret).map fun vchPubKey => ⟨secret, vchPubKey, fCompressed⟩

def SetPrivKey (vchPrivKey : CPrivKey) : Option CKey :=
  if vchPrivKey.length = 32 then C.SetSecret vchPrivKey true
  else (C.d2iSecret vchPrivKey).bind fun secret => C.SetSecret secret true

def EncryptSecret (vMasterKey : CKeyingMaterial) (vchPlaintext : valtype) (nIV : uint256) :
    Option valtype :=
  if vMasterKey.length = WALLET_CRYPTO_KEY_SIZE then
    some (C.aesEncrypt vMasterKey nIV vchPlaintext)
  else none

def DecryptSecret (vMasterKey : CKeyingMaterial) (vchCiphertext : valtype) (nIV : uint256) :
    Option valtype :=
  if vMasterKey.length = WALLET_CRYPTO_KEY_SIZE then C.aesDecrypt vMasterKey nIV vchCiphertext
  else none

theorem DecryptSecret_EncryptSecret {vMasterKey : CKeyingMaterial} {vchPlaintext : valtype}
    {nIV : uint256} {vchCiphertext : valtype}
    (h : C.EncryptSecret vMasterKey vchPlaintext nIV = some vchCiphertext) :
    C.DecryptSecret vMasterKey vchCiphertext nIV = some vchPlaintext := by
  unfold EncryptSecret at h
  split at h
  · next hlength =>
    have hcipher : C.aesEncrypt vMasterKey nIV vchPlaintext = vchCiphertext :=
      Option.some.inj h
    rw [DecryptSecret, if_pos hlength, ← hcipher, C.aesDecrypt_aesEncrypt]
  · cases h

end KeyCrypto

def CKey.GetPrivKey (key : CKey) : CPrivKey := key.vchSecret

def CHybridKey.GetKeyID (C : KeyCrypto) (hk : CHybridKey) : CKeyID := C.GetID hk.secpPub

/-! ## The store -/

inductive isminetype where
  | MINE_NO
  | MINE_WATCH_ONLY
  | MINE_SPENDABLE
deriving DecidableEq, Repr

open isminetype

/-- A wallet as a keystore. -/
structure CKeyStore where
  fUseCrypto : Bool
  vMasterKey : CKeyingMaterial
  mapKeys : Table CKeyID (CSecret × Bool)
  mapCryptedKeys : Table CKeyID (CPubKey × valtype)
  mapScripts : Table CScriptID CScript
  setWatchOnly : Finset CScript
  mapHybridKeys : Table CHybridKeyID CHybridKey
  mapHybridKeyDisk : Table CHybridKeyID CHybridKeyDisk

namespace CKeyStore

variable (C : KeyCrypto) (keystore : CKeyStore)

def IsCrypted : Bool := keystore.fUseCrypto

def IsLocked : Bool := keystore.fUseCrypto && keystore.vMasterKey = []

def HaveKey (address : CKeyID) : Bool :=
  if keystore.fUseCrypto then (keystore.mapCryptedKeys.lookup address).isSome
  else (keystore.mapKeys.lookup address).isSome

/-- `GetKey`. Where `SetSecret` refuses the secret, the source returns a key that is not set; here
it is none. -/
def GetKey (address : CKeyID) : Option CKey :=
  if keystore.fUseCrypto then do
    let (vchPubKey, vchCryptedSecret) ← keystore.mapCryptedKeys.lookup address
    let vchSecret ← C.DecryptSecret keystore.vMasterKey vchCryptedSecret (C.Hash vchPubKey)
    if vchSecret.length = 32 then C.SetSecret vchSecret (vchPubKey.length = 33) else none
  else do
    let (vchSecret, fCompressed) ← keystore.mapKeys.lookup address
    C.SetSecret vchSecret fCompressed

def GetCScript (hash : CScriptID) : Option CScript := keystore.mapScripts.lookup hash

def HaveWatchOnly (dest : CScript) : Bool := dest ∈ keystore.setWatchOnly

/-! ## Hybrid keys -/

def HaveHybridKeyByHash (keyHash : uint160) : Bool :=
  (keystore.mapHybridKeys.lookup keyHash).isSome ||
    (keystore.mapHybridKeyDisk.lookup keyHash).isSome

/-- The first key of a table, in the order of the identifiers, whose EC half has the given
identifier. -/
def firstByLegacyID {V : Type} (secpPub : V → CPubKey) (keyID : CKeyID)
    (table : Table CHybridKeyID V) : Option CHybridKeyID :=
  (Table.sortedKeys table).find? fun hybridID =>
    (table.lookup hybridID).any fun key => C.GetID (secpPub key) = keyID

/-- `FindHybridKeyByLegacyID`: the index gives loaded keys before keys at rest. -/
def FindHybridKeyByLegacyID (keyID : CKeyID) : Option CHybridKeyID :=
  (firstByLegacyID C CHybridKey.secpPub keyID keystore.mapHybridKeys).or
    (firstByLegacyID C (fun disk => disk.keys.secpPub) keyID keystore.mapHybridKeyDisk)

def HaveHybridKeyByLegacyID (keyID : CKeyID) : Bool :=
  (keystore.FindHybridKeyByLegacyID C keyID).isSome

def CanSignHybridKeyByHash (keyHash : uint160) : Bool :=
  (keystore.mapHybridKeys.lookup keyHash).any fun hk => hk.mldsaSigner.isSome

def CanSignHybridKeyByLegacyID (keyID : CKeyID) : Bool :=
  (keystore.FindHybridKeyByLegacyID C keyID).any fun hybridID =>
    keystore.CanSignHybridKeyByHash hybridID

/-- What `CWallet::Lock` makes of the keystore of an encrypted wallet. -/
def lock : CKeyStore := { keystore with vMasterKey := [], mapHybridKeys := ∅ }

/-! ## IsMine -/

/-- The EC halves in the solutions of a hybrid multisig script; none where the sizes are not as
they should be. -/
def hybridMultisigPubKeys (vSolutions : List valtype) : Option (List CPubKey) :=
  let nN := ((vSolutions.getLastD []).headD 0).toNat
  if vSolutions.length < 3 ∨ (vSolutions.headD []).length ≠ 1 then none
  else if nN < 1 ∨ vSolutions.length ≠ 2 + nN * 2 then none
  else some ((List.range nN).map fun i => vSolutions.getD (1 + i * 2) [])

variable (scriptPubKey : CScript)

/-- What is left when no key makes the script spendable. -/
def watchOnlyOrNo : isminetype :=
  if keystore.HaveWatchOnly scriptPubKey then MINE_WATCH_ONLY else MINE_NO

/-- `IsMine` for the forms that name keys. -/
def isMineByKeys : txnouttype → List valtype → isminetype
  | .TX_PUBKEY, vSolutions =>
    if keystore.HaveKey (C.GetID (vSolutions.headD [])) then MINE_SPENDABLE
    else keystore.watchOnlyOrNo scriptPubKey
  | .TX_PUBKEYHASH, vSolutions =>
    if keystore.HaveKey (uint160OfBytes (vSolutions.headD [])) then MINE_SPENDABLE
    else keystore.watchOnlyOrNo scriptPubKey
  | .TX_MULTISIG, vSolutions =>
    let keys := vSolutions.tail.dropLast
    if keys.all fun pubKey => keystore.HaveKey (C.GetID pubKey) then MINE_SPENDABLE
    else keystore.watchOnlyOrNo scriptPubKey
  | .TX_HYBRID_PUBKEY, vSolutions =>
    if vSolutions.length ≠ 2 then MINE_NO
    else
      let keyID := C.GetID (vSolutions.headD [])
      if ¬ keystore.IsLocked ∧ keystore.CanSignHybridKeyByLegacyID C keyID then MINE_SPENDABLE
      else if keystore.HaveHybridKeyByLegacyID C keyID then MINE_WATCH_ONLY
      else keystore.watchOnlyOrNo scriptPubKey
  | .TX_HYBRID_PUBKEYHASH, vSolutions =>
    let hash := uint160OfBytes (vSolutions.headD [])
    if ¬ keystore.IsLocked ∧ keystore.CanSignHybridKeyByHash hash then MINE_SPENDABLE
    else if keystore.HaveHybridKeyByHash hash then MINE_WATCH_ONLY
    else keystore.watchOnlyOrNo scriptPubKey
  | .TX_HYBRID_MULTISIG, vSolutions =>
    match hybridMultisigPubKeys vSolutions with
    | none => MINE_NO
    | some pubKeys =>
      let fAll := pubKeys.all fun pubKey => keystore.CanSignHybridKeyByLegacyID C (C.GetID pubKey)
      let fAllOwned :=
        pubKeys.all fun pubKey => keystore.HaveHybridKeyByLegacyID C (C.GetID pubKey)
      if ¬ keystore.IsLocked ∧ fAll then MINE_SPENDABLE
      else if fAllOwned then MINE_WATCH_ONLY
      else keystore.watchOnlyOrNo scriptPubKey
  | _, _ => keystore.watchOnlyOrNo scriptPubKey

/-- `IsMine` with a bound on the redeem scripts it goes through. -/
def isMineFrom : ℕ → CScript → Option isminetype
  | 0, _ => none
  | fuel + 1, scriptPubKey =>
    match Solver scriptPubKey with
    | none => some (keystore.watchOnlyOrNo scriptPubKey)
    | some (.TX_SCRIPTHASH, vSolutions) =>
      match keystore.GetCScript (uint160OfBytes (vSolutions.headD [])) with
      | none => some (keystore.watchOnlyOrNo scriptPubKey)
      | some subscript =>
        (isMineFrom fuel subscript).map fun ret =>
          if ret = MINE_SPENDABLE then ret else keystore.watchOnlyOrNo scriptPubKey
    | some (whichType, vSolutions) =>
      some (keystore.isMineByKeys C scriptPubKey whichType vSolutions)

/-- `IsMine(keystore, scriptPubKey)`; none where redeem scripts that contain each other's hash
let it run for ever. -/
def IsMine : Option isminetype :=
  keystore.isMineFrom C (keystore.mapScripts.keys.card + 1) scriptPubKey

end CKeyStore

end Phoenixcoin.Program
