import Phoenixcoin.Program.HybridKeys

/-!
# Hybrid keys at rest

A record gives back the key that it was made from, with the creation time cut to 32 bits. The key
passes the validation again if that time is still positive.
-/

set_option autoImplicit false

namespace Phoenixcoin.Analysis

open Lib Program Option

variable {C : KeyCrypto} {vMasterKey : CKeyingMaterial} {hybridID : CHybridKeyID}
  {hk : CHybridKey} {disk : CHybridKeyDisk}

/-- A hybrid key of a wallet: it is valid, has the identifier under which it is kept, and its two
halves can be stored. -/
structure StorableKey (C : KeyCrypto) (hybridID : CHybridKeyID) (hk : CHybridKey) : Prop where
  valid : hk.Validate C = true
  derives : hk.GetHybridID C = some hybridID
  signer : ∀ pkey, hk.mldsaSigner = some pkey → C.d2iMLDSA pkey = some pkey
  fits : hk.secpPriv.length ≤ MAX_SIZE

def atRest (hk : CHybridKey) : CHybridKey := { hk with nCreateTime := toInt32 hk.nCreateTime }

/-- What makes up the key itself. -/
structure HybridSecrets where
  secpPriv : CPrivKey
  secpPub : CPubKey
  mldsaAlg : List UInt8
  mldsaSigner : Option EVP_PKEY
deriving DecidableEq, Repr

def secretsOf (hk : CHybridKey) : HybridSecrets :=
  ⟨hk.secpPriv, hk.secpPub, hk.mldsaAlg, hk.mldsaSigner⟩

@[simp]
theorem secretsOf_atRest : secretsOf (atRest hk) = secretsOf hk := rfl

@[simp]
theorem GetHybridID_atRest : (atRest hk).GetHybridID C = hk.GetHybridID C := rfl

theorem toInt32_of_lt {n : ℤ} (hpos : 0 < n) (hlt : n < 2 ^ 31) : toInt32 n = n := by
  apply Int.bmod_eq_of_le <;> omega

/-- The validation, without the time. -/
theorem Validate_iff :
    hk.Validate C = true ↔ hk.secpPriv ≠ [] ∧ hk.secpPub.length = 33 ∧ hk.mldsaAlg = MLDSA_ALG ∧
      hk.mldsaSigner.isSome ∧ (hk.GetCKey C).isSome ∧ 0 < hk.nCreateTime := by
  unfold CHybridKey.Validate CPubKey.IsValid
  simp only [Bool.and_eq_true, decide_eq_true_eq, Bool.or_eq_true]
  constructor
  · rintro ⟨⟨⟨⟨⟨⟨hpriv, _⟩, hpub⟩, halg⟩, hsigner⟩, hkey⟩, htime⟩
    exact ⟨hpriv, hpub, halg, hsigner, hkey, htime⟩
  · rintro ⟨hpriv, hpub, halg, hsigner, hkey, htime⟩
    exact ⟨⟨⟨⟨⟨⟨hpriv, Or.inl hpub⟩, hpub⟩, halg⟩, hsigner⟩, hkey⟩, htime⟩

theorem StorableKey.exists_signer (h : StorableKey C hybridID hk) :
    ∃ pkey, hk.mldsaSigner = some pkey :=
  isSome_iff_exists.mp (Validate_iff.mp h.valid).2.2.2.1

/-- A key as its record gives it back. -/
theorem StorableKey.atRest (h : StorableKey C hybridID hk) (htime : 0 < toInt32 hk.nCreateTime) :
    StorableKey C hybridID (atRest hk) where
  valid := by
    obtain ⟨hpriv, hpub, halg, hsigner, hkey, _⟩ := Validate_iff.mp h.valid
    exact Validate_iff.mpr ⟨hpriv, hpub, halg, hsigner, hkey, htime⟩
  derives := h.derives
  signer := h.signer
  fits := h.fits

/-! ## The two private keys -/

theorem unserialize_privateCodec {keys : CPrivKey × valtype} (h : keys.1.length ≤ MAX_SIZE)
    (h' : keys.2.length ≤ MAX_SIZE) :
    ∃ s, unserialize CHybridKeyDiskRecord.privateCodec
      (.ofBytes (CHybridKeyDiskRecord.privateCodec.write keys)) = some (keys, s) := by
  have heval := CHybridKeyDiskRecord.privateCodec.eval_write_append (x := keys) ⟨h, h'⟩ []
  rw [List.append_nil] at heval
  have hlength : (CHybridKeyDiskRecord.privateCodec.write keys).length < 2 ^ 32 := by
    have hwrite : CHybridKeyDiskRecord.privateCodec.write keys =
        (WriteCompactSize keys.1.length ++ keys.1) ++ (WriteCompactSize keys.2.length ++ keys.2) :=
      rfl
    have hmax : MAX_SIZE = 33554432 := rfl
    have hhead (n : ℕ) : (WriteCompactSize n).length ≤ 9 := by
      rw [length_WriteCompactSize]
      unfold getSizeOfCompactSize
      split_ifs <;> omega
    have hhead₁ := hhead keys.1.length
    have hhead₂ := hhead keys.2.length
    rw [hwrite]
    simp only [List.length_append]
    omega
  obtain ⟨s, hs, _⟩ := unserialize_of_eval
    (s := .ofBytes (CHybridKeyDiskRecord.privateCodec.write keys)) heval (by
      change (CHybridKeyDiskRecord.privateCodec.write keys).length - 0 < 2 ^ 32
      omega)
  exact ⟨s, hs⟩

/-! ## Records -/

open CHybridKeyDiskRecord

structure RecordOf (C : KeyCrypto) (vMasterKey : CKeyingMaterial) (hk : CHybridKey)
    (disk : CHybridKeyDisk) : Prop where
  checksum : disk.CheckChecksum C = true
  secpPub : disk.keys.secpPub = hk.secpPub
  mldsaAlg : disk.keys.mldsaAlg = hk.mldsaAlg
  time : disk.nCreateTime = toInt32 hk.nCreateTime
  keys : ∃ pkey, hk.mldsaSigner = some pkey ∧
    disk.DecryptPrivate C vMasterKey = some (hk.secpPriv, pkey)

theorem CheckChecksum_ComputeChecksum (disk : CHybridKeyDisk) :
    CheckChecksum C (ComputeChecksum C disk) = true := by
  simp [CheckChecksum, ComputeChecksum, payload, IsEncrypted]

theorem FromMemoryEncrypted_eq_some (h : FromMemoryEncrypted C hk vMasterKey = some disk) :
    ∃ pkey vchCryptedPrivate, hk.mldsaSigner = some pkey ∧
      C.EncryptSecret vMasterKey (privateCodec.write (hk.secpPriv, pkey)) (C.Hash hk.secpPub) =
        some vchCryptedPrivate ∧
      disk = ComputeChecksum C {
        nVersion := HYBRIDKEY_DISK_VERSION_ENCRYPTED
        nCreateTime := toInt32 hk.nCreateTime
        keys := {
          secpPub := hk.secpPub
          mldsaAlg := hk.mldsaAlg
          vchCryptedPrivate }
        hashChecksum := 0 } := by
  obtain ⟨pkey, hsigner, h⟩ := bind_eq_some_iff.mp h
  obtain ⟨vchCryptedPrivate, hcrypt, h⟩ := bind_eq_some_iff.mp h
  exact ⟨pkey, vchCryptedPrivate, hsigner, hcrypt, (Option.some.inj h).symm⟩

section

variable (hkey : StorableKey C hybridID hk)
include hkey

theorem exists_FromMemoryEncrypted (hlength : vMasterKey.length = WALLET_CRYPTO_KEY_SIZE) :
    ∃ disk, FromMemoryEncrypted C hk vMasterKey = some disk := by
  obtain ⟨pkey, hsigner⟩ := hkey.exists_signer
  rw [FromMemoryEncrypted, hsigner]
  simp [KeyCrypto.EncryptSecret, hlength]

theorem recordOf_FromMemoryEncrypted (h : FromMemoryEncrypted C hk vMasterKey = some disk) :
    RecordOf C vMasterKey hk disk ∧ disk.IsEncrypted = true := by
  obtain ⟨pkey, vchCryptedPrivate, hsigner, hcrypt, rfl⟩ := FromMemoryEncrypted_eq_some h
  have hpkey : pkey.length ≤ MAX_SIZE :=
    (C.length_d2iMLDSA _ _ (hkey.signer pkey hsigner)).trans (by decide)
  obtain ⟨s, hread⟩ := @unserialize_privateCodec (hk.secpPriv, pkey) hkey.fits hpkey
  refine ⟨⟨CheckChecksum_ComputeChecksum _, rfl, rfl, rfl, pkey, hsigner, ?_⟩, rfl⟩
  have hencrypted : IsEncrypted (ComputeChecksum C {
      nVersion := HYBRIDKEY_DISK_VERSION_ENCRYPTED
      nCreateTime := toInt32 hk.nCreateTime
      keys := { secpPub := hk.secpPub, mldsaAlg := hk.mldsaAlg, vchCryptedPrivate }
      hashChecksum := 0 }) = true := rfl
  rw [DecryptPrivate, if_neg (not_not.mpr hencrypted)]
  simp [ComputeChecksum, C.DecryptSecret_EncryptSecret hcrypt, hread]

/-- A record gives back the key if it is still valid. -/
theorem RecordOf.materialize_eq
    (h : RecordOf C vMasterKey hk disk) : disk.materialize C vMasterKey =
      if (Analysis.atRest hk).Validate C then some (Analysis.atRest hk) else none := by
  obtain ⟨pkey, hsigner, hprivate⟩ := h.keys
  obtain ⟨_, _, _, _, hckey, _⟩ := Validate_iff.mp hkey.valid
  obtain ⟨key, hkey'⟩ := isSome_iff_exists.mp hckey
  have hset : C.SetPrivKey hk.secpPriv = some key :=
    (filter_eq_some_iff.mp hkey').1
  have hatRest : Analysis.atRest hk = {
      secpPriv := hk.secpPriv
      secpPub := disk.keys.secpPub
      mldsaAlg := disk.keys.mldsaAlg
      mldsaSigner := some pkey
      nCreateTime := disk.nCreateTime } := by
    rw [h.secpPub, h.mldsaAlg, h.time, ← hsigner]
    rfl
  rw [CHybridKeyDiskRecord.materialize, hprivate]
  simp [hset, hkey.signer pkey hsigner, ← hatRest]

theorem RecordOf.materialize (h : RecordOf C vMasterKey hk disk)
    (htime : 0 < toInt32 hk.nCreateTime) :
    disk.materialize C vMasterKey = some (Analysis.atRest hk) := by
  rw [h.materialize_eq hkey, if_pos (hkey.atRest htime).valid]

/-- A record whose time does not survive gives nothing back. -/
theorem RecordOf.materialize_eq_none
    (h : RecordOf C vMasterKey hk disk) (htime : ¬ 0 < toInt32 hk.nCreateTime) :
    disk.materialize C vMasterKey = none := by
  have hinvalid : ¬ (Analysis.atRest hk).Validate C = true := by
    intro hvalid
    exact htime (Validate_iff.mp hvalid).2.2.2.2.2
  rw [h.materialize_eq hkey, if_neg hinvalid]

end

end Phoenixcoin.Analysis
