import Phoenixcoin.Analysis.EncryptedReload
import Phoenixcoin.Analysis.KeyChecks
import Phoenixcoin.Analysis.UnlockRestores

/-!
# No key is lost by the encryption

What every database that `EncryptWallet` commits holds, and when the passphrase gives all keys
back from it after a restart. Two slips lose keys or leave the wallet changed: the result of
`WriteMasterKey` is not looked at, and a failure of `TxnBegin` comes after the master key was
entered.
-/

set_option autoImplicit false

namespace Phoenixcoin.Analysis

open Lib Program List Option Finmap HybridWallet Table WalletDbOutcome

variable {C : PassphraseCrypto} {pass : SecureString} {o : WalletDbOutcome}
  {vMasterKey : CKeyingMaterial} {w w' w₀ w₁ : HybridWallet}

/-! ## What is written -/

def IsKeyOf (C : KeyCrypto) (w : HybridWallet) (keyID : CKeyID) (secret : CSecret)
    (pubKey : CPubKey) : Prop :=
  ∃ fCompressed, w.mapKeys.lookup keyID = some (secret, fCompressed) ∧
    C.ecPubKey secret = some pubKey

variable {keyID : CKeyID} {pubKey : CPubKey} {secret : CSecret}

theorem IsKeyOf.unique {C : KeyCrypto} {secret' : CSecret} {pubKey' : CPubKey}
    (h : IsKeyOf C w keyID secret pubKey) (h' : IsKeyOf C w keyID secret' pubKey') :
    secret = secret' ∧ pubKey = pubKey' := by
  obtain ⟨fCompressed, hlookup, hpub⟩ := h
  obtain ⟨fCompressed', hlookup', hpub'⟩ := h'
  rw [hlookup] at hlookup'
  cases hlookup'
  rw [hpub] at hpub'
  exact ⟨rfl, Option.some.inj hpub'⟩

def LegacyWritten (C : KeyCrypto) (o : WalletDbOutcome) (w : HybridWallet) (keyID : CKeyID) :
    Prop :=
  ∀ secret pubKey, IsKeyOf C w keyID secret pubKey →
    o.write (.keymeta pubKey) = true ∧ o.write (.ckey pubKey) = true ∧
      o.write (.eraseKey pubKey) = true ∧ o.write (.eraseWkey pubKey) = true

structure KeysWritten (C : KeyCrypto) (o : WalletDbOutcome) (w : HybridWallet) : Prop where
  legacy : ∀ keyID, keyID ∈ w.mapKeys → LegacyWritten C o w keyID
  hybrid : ∀ hybridID, hybridID ∈ w.mapHybridKeys → o.write (.hyb hybridID) = true

/-- An unencrypted wallet with a file: memory and database hold the same keys, none of them
encrypted. -/
structure UnencryptedWallet (C : KeyCrypto) (w : HybridWallet) : Prop where
  fileBacked : w.fFileBacked = true
  plain : w.fUseCrypto = false
  noCryptedKeys : w.mapCryptedKeys = ∅
  wellKeyed : WellKeyed C w.toCKeyStore
  key : ∀ pubKey, pubKey ∈ w.db.key → ∃ secret, IsKeyOf C w (C.GetID pubKey) secret pubKey
  wkey : ∀ pubKey, pubKey ∈ w.db.wkey → ∃ secret, IsKeyOf C w (C.GetID pubKey) secret pubKey
  ckey : w.db.ckey = ∅
  storable : ∀ hybridID hk, w.mapHybridKeys.lookup hybridID = some hk → StorableKey C hybridID hk
  masterKeyIDs : ∀ nID, nID ∈ w.db.mkey → nID ≤ w.nMasterKeyMaxID

theorem UnencryptedWallet.exists_key (h : UnencryptedWallet C.toKeyCrypto w)
    (hkey : keyID ∈ w.mapKeys) :
    ∃ secret pubKey, IsKeyOf C.toKeyCrypto w keyID secret pubKey ∧ C.GetID pubKey = keyID := by
  obtain ⟨⟨secret, fCompressed⟩, hlookup⟩ := mem_iff.mp hkey
  obtain ⟨pubKey, hpub, hid⟩ := h.wellKeyed.plain keyID secret fCompressed hlookup
  exact ⟨secret, pubKey, ⟨fCompressed, hlookup, hpub⟩, hid⟩

theorem UnencryptedWallet.getID (h : UnencryptedWallet C.toKeyCrypto w)
    (hkey : IsKeyOf C.toKeyCrypto w keyID secret pubKey) :
    C.GetID pubKey = keyID := by
  obtain ⟨fCompressed, hlookup, hpub⟩ := hkey
  obtain ⟨pubKey', hpub', hid⟩ := h.wellKeyed.plain keyID secret fCompressed hlookup
  rw [hpub] at hpub'
  cases hpub'
  exact hid

/-! ## The legacy keys -/

/-- What the loop over the legacy keys keeps: `rest` are the keys that are still to come. -/
structure EncryptingLegacy (C : KeyCrypto) (vMasterKey : CKeyingMaterial) (w₀ w : HybridWallet)
    (rest : List CKeyID) : Prop where
  shape : w = { w₀ with
    mapCryptedKeys := w.mapCryptedKeys
    mapKeyMetadata := w.mapKeyMetadata
    db := { w₀.db with
      key := w.db.key
      wkey := w.db.wkey
      ckey := w.db.ckey
      keymeta := w.db.keymeta } }
  nodup : rest.Nodup
  known : ∀ keyID ∈ rest, keyID ∈ w₀.mapKeys
  cryptedKeys : ∀ keyID entry, w.mapCryptedKeys.lookup keyID = some entry →
    Sealed C vMasterKey entry.1 entry.2
  memory : ∀ keyID, keyID ∈ w₀.mapKeys → keyID ∈ rest ∨ keyID ∈ w.mapCryptedKeys
  key : ∀ pubKey, pubKey ∈ w.db.key → C.GetID pubKey ∈ rest ∧
    ∃ secret, IsKeyOf C w₀ (C.GetID pubKey) secret pubKey
  wkey : ∀ pubKey, pubKey ∈ w.db.wkey → C.GetID pubKey ∈ rest ∧
    ∃ secret, IsKeyOf C w₀ (C.GetID pubKey) secret pubKey
  ckey : ∀ pubKey vchCryptedSecret, w.db.ckey.lookup pubKey = some vchCryptedSecret →
    C.GetID pubKey ∉ rest ∧ ∃ secret, IsKeyOf C w₀ (C.GetID pubKey) secret pubKey ∧
      C.EncryptSecret vMasterKey secret (C.Hash pubKey) = some vchCryptedSecret
  encrypted : ∀ keyID secret pubKey, IsKeyOf C w₀ keyID secret pubKey → keyID ∈ rest ∨
    w.db.ckey.lookup pubKey = C.EncryptSecret vMasterKey secret (C.Hash pubKey)

theorem encryptSecret_isSome (hlength : vMasterKey.length = WALLET_CRYPTO_KEY_SIZE)
    (secret : CSecret) (nIV : uint256) :
    ∃ vchCryptedSecret, C.EncryptSecret vMasterKey secret nIV = some vchCryptedSecret := by
  rw [KeyCrypto.EncryptSecret, if_pos hlength]
  exact ⟨_, rfl⟩

section Legacy

variable {keyID : CKeyID} {rest : List CKeyID}

section

variable (h : EncryptingLegacy C.toKeyCrypto vMasterKey w₀ w (keyID :: rest))
include h

/-- A key that is still to come has no record yet. -/
theorem EncryptingLegacy.isNew (hid : C.GetID pubKey = keyID) : pubKey ∉ w.db.ckey := by
  intro hmem
  obtain ⟨vchCryptedSecret, hlookup⟩ := mem_iff.mp hmem
  apply (h.ckey pubKey vchCryptedSecret hlookup).1
  rw [hid]
  exact mem_cons_self

theorem EncryptingLegacy.isSome_iff
    (hfile : w₀.fFileBacked = true) (hlength : vMasterKey.length = WALLET_CRYPTO_KEY_SIZE)
    (hkey : IsKeyOf C.toKeyCrypto w₀ keyID secret pubKey) (hid : C.GetID pubKey = keyID) :
    (w.encryptKey C o vMasterKey keyID).isSome ↔ LegacyWritten C.toKeyCrypto o w₀ keyID := by
  have hnew := h.isNew hid
  obtain ⟨vchCryptedSecret, hencrypt⟩ :=
    encryptSecret_isSome (C := C) hlength secret (C.Hash pubKey)
  obtain ⟨fCompressed, hlookup, hpub⟩ := hkey
  have hfile' : w.fFileBacked = true := by rw [h.shape, hfile]
  have hlookup' : w.mapKeys.lookup keyID = some (secret, fCompressed) := by rw [h.shape, hlookup]
  have hwrites : LegacyWritten C.toKeyCrypto o w₀ keyID ↔
      o.write (.keymeta pubKey) = true ∧ o.write (.ckey pubKey) = true ∧
        o.write (.eraseKey pubKey) = true ∧ o.write (.eraseWkey pubKey) = true := by
    constructor
    · intro hwritten
      exact hwritten secret pubKey ⟨fCompressed, hlookup, hpub⟩
    · intro hwrites secret' pubKey' hkey'
      obtain ⟨rfl, rfl⟩ := IsKeyOf.unique ⟨fCompressed, hlookup, hpub⟩ hkey'
      exact hwrites
  rw [hwrites]
  unfold encryptKey
  simp only [hlookup', bind_eq_bind, bind_some, KeyCrypto.SetSecret, hpub,
    map_some, hencrypt, hfile', if_true, isSome_map]
  unfold WriteCryptedKey
  split
  · next hall => exact ⟨fun _ => ⟨hall.1, hall.2.1, hall.2.2.2⟩, fun _ => rfl⟩
  · next hfails =>
    constructor
    · intro hsome
      cases hsome
    · rintro ⟨hmeta, hckey, herase⟩
      exact absurd ⟨hmeta, hckey, hnew, herase⟩ hfails

/-- One key is encrypted. -/
theorem EncryptingLegacy.step (hfile : w₀.fFileBacked = true)
    (hids : ∀ keyID secret pubKey, IsKeyOf C.toKeyCrypto w₀ keyID secret pubKey →
      C.GetID pubKey = keyID)
    (hstep : w.encryptKey C o vMasterKey keyID = some w') :
    EncryptingLegacy C.toKeyCrypto vMasterKey w₀ w' rest := by
  obtain ⟨secret, fCompressed, pubKey, crypted, keyMeta, db, hlookup, hpub, hencrypt, hwrite,
    rfl⟩ := encryptKey_eq_some hstep
  have hfile' : w.fFileBacked = true := by rw [h.shape, hfile]
  have hlookup₀ : w₀.mapKeys.lookup keyID = some (secret, fCompressed) := by
    rw [← hlookup, h.shape]
  have hkey : IsKeyOf C.toKeyCrypto w₀ keyID secret pubKey := ⟨fCompressed, hlookup₀, hpub⟩
  have hid : C.GetID pubKey = keyID := hids keyID secret pubKey hkey
  rw [if_pos hfile'] at hwrite
  unfold WriteCryptedKey at hwrite
  split at hwrite
  · cases hwrite
    obtain ⟨hnotMem, hnodup⟩ := nodup_cons.mp h.nodup
    have hrest {other : CKeyID} (hother : other ∈ keyID :: rest) (hne : other ≠ keyID) :
        other ∈ rest := (mem_cons.mp hother).resolve_left hne
    have hdiffers {other : CPubKey}
        (hother : ∃ secret, IsKeyOf C.toKeyCrypto w₀ (C.GetID other) secret other)
        (hne : other ≠ pubKey) : C.GetID other ≠ keyID := by
      intro heq
      obtain ⟨secret', hother⟩ := hother
      rw [heq] at hother
      exact hne (hkey.unique hother).2.symm
    refine ⟨?_, hnodup, fun other hother => h.known other (mem_cons_of_mem _ hother), ?_, ?_,
      ?_, ?_, ?_, ?_⟩
    · conv_lhs => rw [h.shape]
    · intro other entry hentry
      rw [lookup_insert_ite] at hentry
      split at hentry
      · cases hentry
        exact ⟨secret, hpub, hencrypt⟩
      · exact h.cryptedKeys other entry hentry
    · intro other hother
      rw [mem_insert, hid]
      rcases h.memory other hother with hmem | hmem
      · rcases mem_cons.mp hmem with heq | hmem
        · exact Or.inr (Or.inl heq)
        · exact Or.inl hmem
      · exact Or.inr (Or.inr hmem)
    · intro other hother
      obtain ⟨hne, hother⟩ := mem_erase.mp hother
      obtain ⟨hmem, hkey'⟩ := h.key other hother
      exact ⟨hrest hmem (hdiffers hkey' hne), hkey'⟩
    · intro other hother
      obtain ⟨hne, hother⟩ := mem_erase.mp hother
      obtain ⟨hmem, hkey'⟩ := h.wkey other hother
      exact ⟨hrest hmem (hdiffers hkey' hne), hkey'⟩
    · intro other vchCryptedSecret hother
      rw [lookup_insert_ite] at hother
      split at hother
      · next heq =>
        cases hother
        rw [heq, hid]
        exact ⟨hnotMem, secret, hkey, hencrypt⟩
      · obtain ⟨hmem, hkey'⟩ := h.ckey other vchCryptedSecret hother
        exact ⟨fun hin => hmem (mem_cons_of_mem _ hin), hkey'⟩
    · intro otherID secret' other hother
      rw [lookup_insert_ite]
      split
      · next heq =>
        right
        subst heq
        have hotherID : otherID = keyID := (hids otherID secret' other hother).symm.trans hid
        rw [hotherID] at hother
        obtain ⟨rfl, _⟩ := hkey.unique hother
        exact hencrypt.symm
      · next hne =>
        rcases h.encrypted otherID secret' other hother with hmem | hdone
        · left
          apply hrest hmem
          intro heq
          rw [heq] at hother
          exact hne (hkey.unique hother).2.symm
        · exact Or.inr hdone
  · cases hwrite

end

end Legacy

/-! ## The hybrid keys -/

/-- What the loop over the hybrid keys keeps: a key has its record or is still to come. -/
structure EncryptingHybrid (C : KeyCrypto) (vMasterKey : CKeyingMaterial) (w₁ w : HybridWallet)
    (rest : List CHybridKeyID) : Prop where
  shape : w = { w₁ with
    mapHybridKeyDisk := w.mapHybridKeyDisk
    db := { w₁.db with hyb := w.db.hyb } }
  known : ∀ hybridID ∈ rest, hybridID ∈ w₁.mapHybridKeys
  records : ∀ hybridID disk, w.mapHybridKeyDisk.lookup hybridID = some disk →
    disk.IsEncrypted = true
  hyb : ∀ hybridID, hybridID ∈ rest ∨ w.db.hyb.lookup hybridID =
    (w₁.mapHybridKeys.lookup hybridID).bind fun hk =>
      CHybridKeyDiskRecord.FromMemoryEncrypted C hk vMasterKey

section Hybrid

variable {hybridID : CHybridKeyID} {rest : List CHybridKeyID}

section

variable (h : EncryptingHybrid C.toKeyCrypto vMasterKey w₁ w (hybridID :: rest))
include h

theorem EncryptingHybrid.isSome_iff (hlength : vMasterKey.length = WALLET_CRYPTO_KEY_SIZE)
    (hstorable : ∀ hybridID hk, w₁.mapHybridKeys.lookup hybridID = some hk →
      StorableKey C.toKeyCrypto hybridID hk) :
    (w.encryptHybridKey C o vMasterKey hybridID).isSome ↔ o.write (.hyb hybridID) = true := by
  obtain ⟨hk, hlookup⟩ := mem_iff.mp (h.known hybridID mem_cons_self)
  obtain ⟨disk, hdisk⟩ := exists_FromMemoryEncrypted (hstorable hybridID hk hlookup) hlength
  have hlookup' : w.mapHybridKeys.lookup hybridID = some hk := by rw [h.shape, hlookup]
  unfold encryptHybridKey WriteHybridKey
  simp only [hlookup', hdisk, bind_eq_bind, bind_some]
  split
  · next hwrite => simp [hwrite]
  · next hfails => simp [hfails]

/-- One key is encrypted. -/
theorem EncryptingHybrid.step
    (hstorable : ∀ hybridID hk, w₁.mapHybridKeys.lookup hybridID = some hk →
      StorableKey C.toKeyCrypto hybridID hk)
    (hstep : w.encryptHybridKey C o vMasterKey hybridID = some w') :
    EncryptingHybrid C.toKeyCrypto vMasterKey w₁ w' rest := by
  obtain ⟨hk, disk, db, hlookup, hdisk, hwrite, rfl⟩ := encryptHybridKey_eq_some hstep
  have hlookup₁ : w₁.mapHybridKeys.lookup hybridID = some hk := by rw [← hlookup, h.shape]
  unfold WriteHybridKey at hwrite
  split at hwrite
  · cases hwrite
    refine ⟨?_, fun other hother => h.known other (mem_cons_of_mem _ hother), ?_, ?_⟩
    · conv_lhs => rw [h.shape]
    · intro other record hrecord
      rw [lookup_insert_ite] at hrecord
      split at hrecord
      · cases hrecord
        exact (recordOf_FromMemoryEncrypted (hstorable hybridID hk hlookup₁) hdisk).2
      · exact h.records other record hrecord
    · intro other
      rw [lookup_insert_ite]
      split
      · next heq =>
        right
        rw [heq, hlookup₁, bind_some, hdisk]
      · next hne =>
        rcases h.hyb other with hmem | hdone
        · exact Or.inl ((mem_cons.mp hmem).resolve_left hne)
        · exact Or.inr hdone
  · cases hwrite

end

end Hybrid

/-! ## The transaction -/

/-- A public key of the wallet or of the pool that the encryption makes. -/
def IsPubKeyOf (C : KeyCrypto) (w : HybridWallet) (newKeys : List (NewKey C)) (pubKey : CPubKey) :
    Prop :=
  (∃ keyID secret, IsKeyOf C w keyID secret pubKey) ∨
    ∃ fresh ∈ newKeys, fresh.key.vchPubKey = pubKey

/-- A database that `EncryptWallet` commits. -/
structure CommittedRecords (C : KeyCrypto) (vMasterKey : CKeyingMaterial) (w₀ : HybridWallet)
    (newKeys : List (NewKey C)) (mkey : Table ℕ CMasterKey) (db : WalletRecords) : Prop where
  key : db.key = ∅
  wkey : db.wkey = ∅
  ckey : ∀ pubKey vchCryptedSecret, db.ckey.lookup pubKey = some vchCryptedSecret →
    IsPubKeyOf C w₀ newKeys pubKey ∧ (w₀.mapKeys ≠ ∅ → Sealed C vMasterKey pubKey vchCryptedSecret)
  encrypted : ∀ keyID secret pubKey, IsKeyOf C w₀ keyID secret pubKey →
    db.ckey.lookup pubKey = C.EncryptSecret vMasterKey secret (C.Hash pubKey)
  hyb : ∀ hybridID, db.hyb.lookup hybridID = (w₀.mapHybridKeys.lookup hybridID).bind fun hk =>
    CHybridKeyDiskRecord.FromMemoryEncrypted C hk vMasterKey
  mkey : db.mkey = mkey

structure CommittedWallet (C : KeyCrypto) (vMasterKey : CKeyingMaterial) (w₀ w : HybridWallet) :
    Prop where
  crypted : w.fUseCrypto = true
  masterKeys : w.mapMasterKeys = w₀.mapMasterKeys
  cryptedKeys : ∀ keyID entry, w.mapCryptedKeys.lookup keyID = some entry →
    Sealed C vMasterKey entry.1 entry.2
  memory : ∀ keyID, keyID ∈ w₀.mapKeys → keyID ∈ w.mapCryptedKeys
  records : ∀ hybridID disk, w.mapHybridKeyDisk.lookup hybridID = some disk →
    disk.IsEncrypted = true

def masterKeyWritten (o : WalletDbOutcome) (w : HybridWallet) (kMasterKey : CMasterKey) :
    Table ℕ CMasterKey :=
  if o.write (.mkey (w.nMasterKeyMaxID + 1)) then
    w.db.mkey.insert (w.nMasterKeyMaxID + 1) kMasterKey
  else w.db.mkey

def encryptionStart (o : WalletDbOutcome) (w : HybridWallet) (kMasterKey : CMasterKey) :
    HybridWallet :=
  { withMasterKey w kMasterKey with
    fUseCrypto := true
    db := { w.db with mkey := masterKeyWritten o w kMasterKey } }

section Transaction

variable {kMasterKey : CMasterKey}

section

variable (h : UnencryptedWallet C.toKeyCrypto w)
include h

theorem UnencryptedWallet.encryptAll_eq :
    (withMasterKey w kMasterKey).encryptAll C o kMasterKey vMasterKey =
      ((sortedKeys w.mapKeys).foldlM (encryptKey C o vMasterKey)
        (encryptionStart o w kMasterKey)).bind fun w₁ =>
          (sortedKeys w₁.mapHybridKeys).foldlM (encryptHybridKey C o vMasterKey)
            { w₁ with mapKeys := ∅ } := by
  have hfile : (withMasterKey w kMasterKey).fFileBacked = true := h.fileBacked
  have hdb : (o.WriteMasterKey (w.nMasterKeyMaxID + 1) kMasterKey w.db).getD w.db =
      { w.db with mkey := masterKeyWritten o w kMasterKey } := by
    unfold WriteMasterKey masterKeyWritten
    split <;> rfl
  have hclear : ¬ ((withMasterKey w kMasterKey).mapCryptedKeys ≠ ∅ ∨
      (withMasterKey w kMasterKey).IsCrypted = true) := by
    have hcrypted : (withMasterKey w kMasterKey).mapCryptedKeys = ∅ := h.noCryptedKeys
    have hplain : (withMasterKey w kMasterKey).IsCrypted = false := h.plain
    simp [hcrypted, hplain]
  unfold encryptAll EncryptKeys
  rw [if_pos hfile]
  dsimp only
  rw [if_neg hclear]
  unfold withMasterKey at hfile ⊢
  rw [hdb, bind_map]
  rfl

theorem UnencryptedWallet.encryptingLegacy :
    EncryptingLegacy C.toKeyCrypto vMasterKey (encryptionStart o w kMasterKey)
      (encryptionStart o w kMasterKey) (sortedKeys w.mapKeys) where
  shape := rfl
  nodup := nodup_sortedKeys w.mapKeys
  known := by
    intro keyID hkeyID
    exact lookup_isSome.mp (mem_sortedKeys.mp hkeyID)
  cryptedKeys := by
    intro keyID entry hlookup
    have hcrypted : (encryptionStart o w kMasterKey).mapCryptedKeys = ∅ := h.noCryptedKeys
    rw [hcrypted] at hlookup
    cases hlookup
  memory := by
    intro keyID hkeyID
    exact Or.inl (mem_sortedKeys.mpr (lookup_isSome.mpr hkeyID))
  key := by
    intro pubKey hmem
    obtain ⟨secret, fCompressed, hlookup, hpub⟩ := h.key pubKey hmem
    refine ⟨mem_sortedKeys.mpr ?_, secret, fCompressed, hlookup, hpub⟩
    rw [hlookup]
    rfl
  wkey := by
    intro pubKey hmem
    obtain ⟨secret, fCompressed, hlookup, hpub⟩ := h.wkey pubKey hmem
    refine ⟨mem_sortedKeys.mpr ?_, secret, fCompressed, hlookup, hpub⟩
    rw [hlookup]
    rfl
  ckey := by
    intro pubKey vchCryptedSecret hlookup
    have hckey : (encryptionStart o w kMasterKey).db.ckey = ∅ := h.ckey
    rw [hckey] at hlookup
    cases hlookup
  encrypted := by
    intro keyID secret pubKey hkey
    obtain ⟨fCompressed, hlookup, _⟩ := hkey
    left
    rw [mem_sortedKeys, show w.mapKeys.lookup keyID = _ from hlookup]
    rfl

theorem UnencryptedWallet.encryptLegacy (hlength : vMasterKey.length = WALLET_CRYPTO_KEY_SIZE) :
    (((sortedKeys w.mapKeys).foldlM (encryptKey C o vMasterKey)
        (encryptionStart o w kMasterKey)).isSome ↔
      ∀ keyID, keyID ∈ w.mapKeys → LegacyWritten C.toKeyCrypto o w keyID) ∧
    ∀ w₁, (sortedKeys w.mapKeys).foldlM (encryptKey C o vMasterKey)
        (encryptionStart o w kMasterKey) = some w₁ →
      EncryptingLegacy C.toKeyCrypto vMasterKey (encryptionStart o w kMasterKey) w₁ [] := by
  have hstep (keyID : CKeyID) (rest : List CKeyID) (w₂ w₃ : HybridWallet)
      (h₂ : EncryptingLegacy C.toKeyCrypto vMasterKey (encryptionStart o w kMasterKey) w₂
        (keyID :: rest))
      (hw₃ : w₂.encryptKey C o vMasterKey keyID = some w₃) :
      EncryptingLegacy C.toKeyCrypto vMasterKey (encryptionStart o w kMasterKey) w₃ rest :=
    h₂.step h.fileBacked (fun _ _ _ hkey => h.getID hkey) hw₃
  constructor
  · have hall := foldlM_isSome_iff (f := encryptKey C o vMasterKey) hstep
      (p := LegacyWritten C.toKeyCrypto o w) (by
        intro keyID rest w₂ h₂
        obtain ⟨secret, pubKey, hkey, hid⟩ := h.exists_key (h₂.known keyID mem_cons_self)
        exact h₂.isSome_iff h.fileBacked hlength hkey hid)
      h.encryptingLegacy
    rw [hall]
    constructor
    · intro hwritten keyID hkeyID
      exact hwritten keyID (mem_sortedKeys.mpr (lookup_isSome.mpr hkeyID))
    · intro hwritten keyID hkeyID
      exact hwritten keyID (lookup_isSome.mp (mem_sortedKeys.mp hkeyID))
  · intro w₁ hrun
    exact foldlM_invariant hstep h.encryptingLegacy hrun

theorem UnencryptedWallet.encryptingHybrid (hcheck : w.CheckHybridKeys C.toKeyCrypto false = [])
    (hlegacy : EncryptingLegacy C.toKeyCrypto vMasterKey (encryptionStart o w kMasterKey) w₁ []) :
    EncryptingHybrid C.toKeyCrypto vMasterKey { w₁ with mapKeys := ∅ } { w₁ with mapKeys := ∅ }
      (sortedKeys w₁.mapHybridKeys) := by
  have hchecked := CheckHybridKeys_eq_nil_iff.mp hcheck
  have hrecords : w.mapHybridKeyDisk = ∅ := hchecked.plain h.plain
  have hkeys : w₁.mapHybridKeys = w.mapHybridKeys := by
    rw [hlegacy.shape]
    rfl
  have hdisk : w₁.mapHybridKeyDisk = ∅ := by
    rw [hlegacy.shape, ← hrecords]
    rfl
  have hhyb : w₁.db.hyb = w.db.hyb := by
    rw [hlegacy.shape]
    rfl
  refine ⟨rfl, ?_, ?_, ?_⟩
  · intro hybridID hmem
    exact lookup_isSome.mp (mem_sortedKeys.mp hmem)
  · intro hybridID disk hlookup
    rw [hdisk] at hlookup
    cases hlookup
  · intro hybridID
    rw [mem_sortedKeys, hkeys, hhyb]
    cases hlookup : w.mapHybridKeys.lookup hybridID with
    | some hk => exact Or.inl rfl
    | none =>
      right
      cases hrecord : w.db.hyb.lookup hybridID with
      | none => rfl
      | some disk =>
        obtain ⟨_, hloaded⟩ := hchecked.database h.fileBacked hybridID disk hrecord
        rw [hlookup, hrecords] at hloaded
        simp at hloaded

end

/-- The loop over the legacy keys leaves the hybrid keys as they are. -/
theorem UnencryptedWallet.storable_of_legacy {kMasterKey : CMasterKey} {w₁ : HybridWallet}
    (h : UnencryptedWallet C.toKeyCrypto w)
    (hdone : EncryptingLegacy C.toKeyCrypto vMasterKey (encryptionStart o w kMasterKey) w₁ []) :
    w₁.mapHybridKeys = w.mapHybridKeys ∧ ∀ hybridID hk,
      w₁.mapHybridKeys.lookup hybridID = some hk → StorableKey C.toKeyCrypto hybridID hk := by
  have hkeys : w₁.mapHybridKeys = w.mapHybridKeys := by
    rw [hdone.shape]
    rfl
  rw [hkeys]
  exact ⟨rfl, h.storable⟩

theorem UnencryptedWallet.encryptAll_isSome_iff (kMasterKey : CMasterKey)
    (h : UnencryptedWallet C.toKeyCrypto w)
    (hlength : vMasterKey.length = WALLET_CRYPTO_KEY_SIZE)
    (hcheck : w.CheckHybridKeys C.toKeyCrypto false = []) :
    ((withMasterKey w kMasterKey).encryptAll C o kMasterKey vMasterKey).isSome ↔
      KeysWritten C.toKeyCrypto o w := by
  obtain ⟨hsome, hrun⟩ := h.encryptLegacy (o := o) hlength
  rw [h.encryptAll_eq]
  cases hlegacy : (sortedKeys w.mapKeys).foldlM (encryptKey C o vMasterKey)
      (encryptionStart o w kMasterKey) with
  | none =>
    rw [hlegacy] at hsome
    constructor
    · intro hnone
      cases hnone
    · intro hwritten
      cases hsome.mpr hwritten.legacy
  | some w₁ =>
    have hdone := hrun w₁ hlegacy
    obtain ⟨hkeys, hstorable⟩ := h.storable_of_legacy hdone
    have hall := foldlM_isSome_iff (f := encryptHybridKey C o vMasterKey)
      (p := fun hybridID => o.write (.hyb hybridID) = true)
      (fun _ _ _ _ h₂ hw₃ => h₂.step hstorable hw₃)
      (fun _ _ _ h₂ => h₂.isSome_iff hlength hstorable)
      (h.encryptingHybrid hcheck hdone)
    rw [hlegacy] at hsome
    rw [bind_some, hall]
    constructor
    · intro hwritten
      refine ⟨hsome.mp rfl, ?_⟩
      intro hybridID hmem
      exact hwritten hybridID
        (mem_sortedKeys.mpr (by rw [hkeys]; exact lookup_isSome.mpr hmem))
    · intro hwritten hybridID hmem
      rw [mem_sortedKeys, hkeys] at hmem
      exact hwritten.hybrid hybridID (lookup_isSome.mp hmem)

theorem UnencryptedWallet.encryptAll_committed (h : UnencryptedWallet C.toKeyCrypto w)
    (hlength : vMasterKey.length = WALLET_CRYPTO_KEY_SIZE)
    (hcheck : w.CheckHybridKeys C.toKeyCrypto false = []) {encrypted : HybridWallet}
    (hall : (withMasterKey w kMasterKey).encryptAll C o kMasterKey vMasterKey = some encrypted)
    (newKeys : List (NewKey C.toKeyCrypto)) :
    CommittedWallet C.toKeyCrypto vMasterKey (withMasterKey w kMasterKey) encrypted ∧
      CommittedRecords C.toKeyCrypto vMasterKey w newKeys (masterKeyWritten o w kMasterKey)
        encrypted.db := by
  rw [h.encryptAll_eq] at hall
  obtain ⟨w₁, hrun, hhybrid⟩ := bind_eq_some_iff.mp hall
  have hdone := (h.encryptLegacy hlength).2 w₁ hrun
  obtain ⟨hkeys, hstorable⟩ := h.storable_of_legacy hdone
  have hend : EncryptingHybrid C.toKeyCrypto vMasterKey { w₁ with mapKeys := ∅ } encrypted [] :=
    foldlM_invariant (fun _ _ _ _ h₂ hw₃ => h₂.step hstorable hw₃)
      (h.encryptingHybrid hcheck hdone) hhybrid
  have hempty {t : Table CPubKey CPrivKey} (hnone : ∀ pubKey, pubKey ∈ t → False) : t = ∅ := by
    apply ext_lookup
    intro pubKey
    exact lookup_eq_none.mpr (hnone pubKey)
  constructor
  · rw [hend.shape]
    refine ⟨?_, ?_, hdone.cryptedKeys, ?_, hend.records⟩
    · rw [hdone.shape]
      rfl
    · rw [hdone.shape]
      rfl
    · intro keyID hkeyID
      exact (hdone.memory keyID hkeyID).resolve_left not_mem_nil
  · have hdb : encrypted.db = { w₁.db with hyb := encrypted.db.hyb } := by
      conv_lhs => rw [hend.shape]
    rw [hdb]
    refine ⟨?_, ?_, ?_, ?_, ?_, ?_⟩
    · exact hempty fun pubKey hmem => not_mem_nil (hdone.key pubKey hmem).1
    · exact hempty fun pubKey hmem => not_mem_nil (hdone.wkey pubKey hmem).1
    · intro pubKey vchCryptedSecret hlookup
      obtain ⟨_, secret, hkey, hencrypt⟩ := hdone.ckey pubKey vchCryptedSecret hlookup
      obtain ⟨fCompressed, hlookup', hpub⟩ := hkey
      exact ⟨Or.inl ⟨_, secret, fCompressed, hlookup', hpub⟩, fun _ => ⟨secret, hpub, hencrypt⟩⟩
    · intro keyID secret pubKey hkey
      exact (hdone.encrypted keyID secret pubKey hkey).resolve_left not_mem_nil
    · intro hybridID
      have hrecord := (hend.hyb hybridID).resolve_left not_mem_nil
      rw [hkeys] at hrecord
      exact hrecord
    · rw [hdone.shape]
      rfl

end Transaction

/-! ## After the commit -/

/-- What `Unlock` does where all hybrid records are encrypted: the database stays, and a master
key is only taken if it opens the first key. -/
theorem unlockFrom_frame {l : List CMasterKey} (hcrypted : w.fUseCrypto = true)
    (hlocked : w.vMasterKey = [])
    (hrecords : ∀ hybridID disk, w.mapHybridKeyDisk.lookup hybridID = some disk →
      disk.IsEncrypted = true) {u : HybridWallet} (hu : (w.unlockFrom C o pass l).2 = u) :
    u.db = w.db ∧ u.fUseCrypto = true ∧ (u.vMasterKey = [] ∨
      ∃ kMasterKey ∈ l, C.openMasterKey pass kMasterKey = some u.vMasterKey ∧
        w.opensFirstKey C.toKeyCrypto u.vMasterKey = true) := by
  induction l with
  | nil =>
    subst hu
    exact ⟨rfl, hcrypted, Or.inl hlocked⟩
  | cons kMasterKey l ih =>
    unfold unlockFrom at hu
    split at hu
    · subst hu
      exact ⟨rfl, hcrypted, Or.inl hlocked⟩
    · next other hopen =>
      split at hu
      · next result hunlock =>
        unfold unlockWith at hunlock
        split at hunlock
        · next hopens =>
          obtain ⟨ok, keys, unused, hdecrypt, _⟩ := decryptHybridKeys_frame (C := C) (o := o)
            (w := { w with vMasterKey := other })
            (l := sortedKeys w.mapHybridKeyDisk) true hrecords
          have hdecrypt' : DecryptHybridKeys C.toKeyCrypto o
              { w with vMasterKey := other } other =
                (ok, withLoaded { w with vMasterKey := other } keys unused) := hdecrypt
          rw [hdecrypt'] at hunlock
          cases ok with
          | true =>
            cases hunlock
            subst hu
            exact ⟨rfl, hcrypted, Or.inr ⟨kMasterKey, mem_cons_self, hopen, hopens⟩⟩
          | false =>
            cases hunlock
            have hlock := Lock_of_crypted
              (w := withLoaded { w with vMasterKey := other } keys unused) hcrypted
            subst hu
            rw [hlock]
            exact ⟨rfl, hcrypted, Or.inl rfl⟩
        · cases hunlock
      · obtain ⟨hdb, hcrypt, hmaster⟩ := ih hu
        refine ⟨hdb, hcrypt, ?_⟩
        rcases hmaster with hnil | ⟨k, hk, hopen, hopens⟩
        · exact Or.inl hnil
        · exact Or.inr ⟨k, mem_cons_of_mem _ hk, hopen, hopens⟩

section Committed

variable {newKeys : List (NewKey C.toKeyCrypto)} {mkey : Table ℕ CMasterKey}
  {db db' : WalletRecords}

theorem CommittedRecords.withPool (h : CommittedRecords C.toKeyCrypto vMasterKey w newKeys mkey db)
    (pool : Table ℕ (CKeyPool CPubKey)) :
    CommittedRecords C.toKeyCrypto vMasterKey w newKeys mkey { db with pool := pool } :=
  ⟨h.key, h.wkey, h.ckey, h.encrypted, h.hyb, h.mkey⟩

variable {u : HybridWallet}

variable {nIndex : ℕ} {vStaged : List (ℕ × CStagedKey)}

/-- A key of the new pool is stored. -/
theorem CommittedRecords.stagePoolEntry
    (h : CommittedRecords C.toKeyCrypto vMasterKey w newKeys mkey db)
    (hlength : vMasterKey.length = WALLET_CRYPTO_KEY_SIZE) (hcrypted : u.fUseCrypto = true)
    (hmaster : w.mapKeys ≠ ∅ → u.vMasterKey = vMasterKey) {fresh : NewKey C.toKeyCrypto}
    (hfresh : fresh ∈ newKeys) {staged : CStagedKey}
    (hstage : u.stagePoolEntry C o nIndex fresh db = some (staged, db')) :
    CommittedRecords C.toKeyCrypto vMasterKey w newKeys mkey db' := by
  obtain ⟨hkey, hsecret, db₁, hrecord, hpool⟩ := stagePoolEntry_eq_some hstage
  have hpair : KeyPair C.toKeyCrypto fresh.key := (keyPair_of_SetSecret fresh.set).1
  unfold cryptedSecretOf EncryptKeySecret at hsecret
  rw [if_pos ⟨rfl, hcrypted⟩] at hsecret
  split at hsecret
  · cases hsecret
  · unfold StageKeyRecord WriteCryptedKey at hrecord
    rw [show u.IsCrypted = true from hcrypted, if_pos rfl] at hrecord
    split at hrecord
    · next hwrites =>
      cases hrecord
      unfold WritePool at hpool
      split at hpool
      · cases hpool
        rw [hkey] at hsecret hwrites
        refine ⟨?_, ?_, ?_, ?_, h.hyb, h.mkey⟩
        · rw [h.key, erase_of_lookup_none (lookup_empty _)]
        · rw [h.wkey, erase_of_lookup_none (lookup_empty _)]
        · intro pubKey vchCryptedSecret hlookup
          rw [hkey, lookup_insert_ite] at hlookup
          split at hlookup
          · next heq =>
            cases hlookup
            rw [heq]
            refine ⟨Or.inr ⟨fresh, hfresh, rfl⟩, ?_⟩
            intro hkeys
            rw [hmaster hkeys] at hsecret
            exact ⟨fresh.key.vchSecret, hpair, hsecret⟩
          · exact h.ckey pubKey vchCryptedSecret hlookup
        · intro keyID secret pubKey hkeyOf
          have hold := h.encrypted keyID secret pubKey hkeyOf
          rw [hkey, lookup_insert_ite, if_neg, hold]
          intro heq
          obtain ⟨vchCryptedSecret, hsome⟩ :=
            encryptSecret_isSome (C := C) hlength secret (C.Hash pubKey)
          rw [hsome, heq] at hold
          exact hwrites.2.2.1 (mem_of_lookup_eq_some hold)
      · cases hpool
    · cases hrecord

/-- All keys of the new pool are stored. -/
theorem CommittedRecords.stagePoolEntries (hlength : vMasterKey.length = WALLET_CRYPTO_KEY_SIZE)
    (hcrypted : u.fUseCrypto = true) (hmaster : w.mapKeys ≠ ∅ → u.vMasterKey = vMasterKey)
    {l : List (NewKey C.toKeyCrypto)} (hl : ∀ fresh ∈ l, fresh ∈ newKeys)
    (h : CommittedRecords C.toKeyCrypto vMasterKey w newKeys mkey db)
    (hstage : u.stagePoolEntries C o nIndex l db = some (vStaged, db')) :
    CommittedRecords C.toKeyCrypto vMasterKey w newKeys mkey db' := by
  induction l generalizing nIndex vStaged db with
  | nil =>
    cases hstage
    exact h
  | cons fresh l ih =>
    obtain ⟨⟨staged, db₁⟩, hstaged, hstage⟩ := bind_eq_some_iff.mp hstage
    obtain ⟨⟨rest, db₂⟩, hrest, hstage⟩ := bind_eq_some_iff.mp hstage
    cases hstage
    have hstep := h.stagePoolEntry hlength hcrypted hmaster (hl fresh mem_cons_self) hstaged
    exact ih (fun other hother => hl other (mem_cons_of_mem _ hother)) hstep hrest

/-- The old pool is erased. -/
theorem CommittedRecords.clearKeyPool {cleared : HybridWallet}
    (h : CommittedRecords C.toKeyCrypto vMasterKey w newKeys mkey u.db)
    (hclear : u.clearKeyPool o = some cleared) :
    CommittedRecords C.toKeyCrypto vMasterKey w newKeys mkey cleared.db ∧
      cleared.fUseCrypto = u.fUseCrypto ∧ cleared.vMasterKey = u.vMasterKey := by
  obtain ⟨db, hdb, rfl⟩ := map_eq_some_iff.mp hclear
  refine ⟨?_, rfl, rfl⟩
  unfold transaction at hdb
  split at hdb
  · obtain ⟨hrun, _⟩ := filter_eq_some_iff.mp hdb
    refine foldlM_invariant (P := fun db _ =>
      CommittedRecords C.toKeyCrypto vMasterKey w newKeys mkey db) ?_ h hrun
    intro nIndex _ db₁ db₂ h₁ herase
    unfold ErasePool at herase
    split at herase
    · cases herase
      exact h₁.withPool _
    · cases herase
  · cases hdb

theorem addPoolEntries_db : (vStaged.foldl (addPoolEntry C) u).db = u.db := by
  induction vStaged generalizing u with
  | nil => rfl
  | cons entry vStaged ih =>
    rw [foldl_cons, ih]
    exact addLegacyKey_db _ _ _ entry.2.metadata _

/-- A new pool leaves a database like the others. -/
theorem CommittedRecords.NewKeyPool {oClear oRefill : WalletDbOutcome}
    (h : CommittedRecords C.toKeyCrypto vMasterKey w newKeys mkey u.db)
    (hlength : vMasterKey.length = WALLET_CRYPTO_KEY_SIZE) (hcrypted : u.fUseCrypto = true)
    (hmaster : u.IsLocked = false → w.mapKeys ≠ ∅ → u.vMasterKey = vMasterKey) :
    CommittedRecords C.toKeyCrypto vMasterKey w newKeys mkey
      (u.NewKeyPool C oClear oRefill newKeys).2.db := by
  have hpool : u.NewKeyPool C oClear oRefill newKeys =
      ((u.NewKeyPool C oClear oRefill newKeys).1, (u.NewKeyPool C oClear oRefill newKeys).2) := rfl
  generalize (u.NewKeyPool C oClear oRefill newKeys).2 = made at hpool ⊢
  rcases NewKeyPool_cases hpool with rfl | ⟨cleared, hcleared, hnew⟩
  · exact h
  · obtain ⟨hclear, hcrypt, hkey⟩ := h.clearKeyPool hcleared
    rcases hnew with rfl | ⟨hunlocked, hfilled⟩
    · exact hclear
    · obtain ⟨vStaged, db', hstaged, rfl⟩ := refillKeyPool_eq_some hfilled
      rw [addPoolEntries_db]
      have hstill : u.IsLocked = false := by rw [← hunlocked, IsLocked_congr hcrypt hkey]
      refine hclear.stagePoolEntries hlength (hcrypt.trans hcrypted) ?_ (fun _ hfresh => hfresh)
        hstaged
      intro hkeys
      exact hkey.trans (hmaster hstill hkeys)

end Committed

/-! ## Safety -/

structure HoldsKeys (C : KeyCrypto) (w u : HybridWallet) : Prop where
  legacy : ∀ keyID key, w.toCKeyStore.GetKey C keyID = some key →
    ∃ key', u.toCKeyStore.GetKey C keyID = some key' ∧ key'.vchSecret = key.vchSecret ∧
      key'.vchPubKey = key.vchPubKey
  hybrid : ∀ hybridID hk, w.mapHybridKeys.lookup hybridID = some hk →
    loadedSecrets u hybridID = some (secretsOf hk)

/-- No key is lost, wherever the process stops, and a failure leaves nothing behind: each database
that was on disk is the old one or gives back all keys, and where `EncryptWallet` returns false
before its commit, memory is as it was. -/
structure EncryptionSafe (C : PassphraseCrypto) (pass : SecureString) (w : HybridWallet)
    (r : EncryptionEnd) : Prop where
  kept : ∀ db ∈ w.db :: r.committed, db = w.db ∨
    ∃ u, restart C pass db = some u ∧ HoldsKeys C.toKeyCrypto w u
  undone : r.result = some false → r.committed = [] →
    r.wallet.mapMasterKeys = w.mapMasterKeys ∧ r.wallet.nMasterKeyMaxID = w.nMasterKeyMaxID ∧
      r.wallet.pwalletdbEncryption = w.pwalletdbEncryption ∧
      r.wallet.fUseCrypto = w.fUseCrypto ∧ r.wallet.mapKeys = w.mapKeys ∧
      r.wallet.mapCryptedKeys = w.mapCryptedKeys ∧ r.wallet.mapHybridKeys = w.mapHybridKeys ∧
      r.wallet.mapHybridKeyDisk = w.mapHybridKeyDisk

/-- The master key that is committed opens every key: its record is written, those of earlier
master keys do not stop `Unlock` on the way to it, and the times of all hybrid keys survive. -/
structure MasterKeyOpens (C : PassphraseCrypto) (pass : SecureString) (o : WalletDbOutcome)
    (w : HybridWallet) : Prop where
  written : o.write (.mkey (w.nMasterKeyMaxID + 1)) = true
  earlier : ∀ nID kMasterKey, w.db.mkey.lookup nID = some kMasterKey →
    (C.openMasterKey pass kMasterKey).isSome = true
  times : ∀ hybridID hk, w.mapHybridKeys.lookup hybridID = some hk → 0 < toInt32 hk.nCreateTime

def SafeToEncrypt (C : PassphraseCrypto) (pass : SecureString) (o : WalletDbOutcome)
    (w : HybridWallet) : Prop :=
  w.CheckHybridKeys C.toKeyCrypto false ≠ [] ∨ o.txnBegin = true ∧
    (¬ KeysWritten C.toKeyCrypto o w ∨ o.txnCommit = false ∨ w.mapKeys = ∅ ∨
      MasterKeyOpens C pass o w)

/-- What is known of the random master key and of the new keys: a master key of an earlier call does
not open what the new one encrypts, and different keys have different identifiers. -/
structure FreshEncryption (C : PassphraseCrypto) (pass : SecureString) (w : HybridWallet)
    (e : EncryptionInput C.toKeyCrypto) : Prop where
  memory : ∀ nID kMasterKey other, w.mapMasterKeys.lookup nID = some kMasterKey →
    C.openMasterKey pass kMasterKey = some other → FoundOut C.toKeyCrypto e.vMasterKey other
  database : ∀ nID kMasterKey other, w.db.mkey.lookup nID = some kMasterKey →
    C.openMasterKey pass kMasterKey = some other → FoundOut C.toKeyCrypto e.vMasterKey other
  ids : ∀ pubKey pubKey', IsPubKeyOf C.toKeyCrypto w e.newKeys pubKey →
    IsPubKeyOf C.toKeyCrypto w e.newKeys pubKey' → C.GetID pubKey = C.GetID pubKey' →
    pubKey = pubKey'

section Safety

variable {e : EncryptionInput C.toKeyCrypto} {o : EncryptionOutcome}

/-- The master key record is always made. -/
theorem exists_newMasterKey (pass : SecureString) (e : EncryptionInput C.toKeyCrypto) :
    ∃ kMasterKey, newMasterKey C pass e = some kMasterKey := by
  have hrounds : ¬ (max e.nRounds 25000 < 1 ∨ e.vchSalt.length ≠ WALLET_CRYPTO_SALT_SIZE) := by
    have hsalt := e.length_vchSalt
    omega
  unfold newMasterKey PassphraseCrypto.SetKeyFromPassphrase
  simp only [if_neg hrounds, if_pos, map_some]
  exact ⟨_, rfl⟩

variable {kMasterKey : CMasterKey}

theorem UnencryptedWallet.EncryptWallet_eq (h : UnencryptedWallet C.toKeyCrypto w)
    (hmaster : newMasterKey C pass e = some kMasterKey) :
    w.EncryptWallet C pass e o =
      if w.CheckHybridKeys C.toKeyCrypto false ≠ [] then ⟨some false, w, []⟩
      else if o.encrypt.txnBegin = false then ⟨some false, withMasterKey w kMasterKey, []⟩
      else
        match (withMasterKey w kMasterKey).encryptAll C o.encrypt kMasterKey e.vMasterKey with
        | none => ⟨none, w, []⟩
        | some encrypted =>
          if o.encrypt.txnCommit = false then ⟨none, w, []⟩
          else ({ encrypted with pwalletdbEncryption := false } : HybridWallet).finishEncryption C
            pass e o := by
  have hplain : w.IsCrypted = false := h.plain
  rw [EncryptWallet, withMasterKey, hmaster, hplain, h.fileBacked, Bool.or_true]
  dsimp only
  generalize encryptAll _ _ _ _ _ = encrypted
  cases encrypted <;> simp

/-- Every database that is committed after the encryption. -/
theorem UnencryptedWallet.committed (h : UnencryptedWallet C.toKeyCrypto w)
    (hfresh : FreshEncryption C pass w e)
    (hcheck : w.CheckHybridKeys C.toKeyCrypto false = []) {kMasterKey : CMasterKey}
    (hmaster : newMasterKey C pass e = some kMasterKey) {encrypted : HybridWallet}
    (hall : (withMasterKey w kMasterKey).encryptAll C o.encrypt kMasterKey e.vMasterKey =
      some encrypted) (db : WalletRecords)
    (hdb : db ∈ (({ encrypted with pwalletdbEncryption := false } : HybridWallet).finishEncryption C
      pass e o).committed) :
    CommittedRecords C.toKeyCrypto e.vMasterKey w e.newKeys
      (masterKeyWritten o.encrypt w kMasterKey) db := by
  obtain ⟨hwallet, hrecords⟩ :=
    h.encryptAll_committed e.length_vMasterKey hcheck hall e.newKeys
  have hlock := Lock_of_crypted (w := { encrypted with pwalletdbEncryption := false })
    hwallet.crypted
  obtain ⟨locked, hlocked⟩ : ∃ locked, locked =
      ({ encrypted with pwalletdbEncryption := false } : HybridWallet).Lock.2 := ⟨_, rfl⟩
  rw [hlock] at hlocked
  have hstate : locked.IsLocked = true := by
    rw [hlocked]
    simp [CKeyStore.IsLocked, CKeyStore.lock, hwallet.crypted]
  obtain ⟨u, hu⟩ : ∃ u, u = (locked.Unlock C o.unlock pass).2 := ⟨_, rfl⟩
  have hunlock := hu
  rw [Unlock, if_neg (not_not.mpr hstate)] at hunlock
  obtain ⟨hudb, hcrypted, hkey⟩ := unlockFrom_frame (C := C) (w := locked)
    (by rw [hlocked]; exact hwallet.crypted) (by rw [hlocked]; rfl)
    (by rw [hlocked]; exact hwallet.records) hunlock.symm
  have hlockedDb : locked.db = encrypted.db := by rw [hlocked]
  have hright : u.IsLocked = false → w.mapKeys ≠ ∅ → u.vMasterKey = e.vMasterKey := by
    intro hunlocked hkeys
    rcases hkey with hnil | ⟨k, hk, hopen, hopens⟩
    · simp [CKeyStore.IsLocked, hcrypted, hnil] at hunlocked
    · obtain ⟨nID, _, hlookup⟩ := mem_filterMap.mp hk
      have hmasters : locked.mapMasterKeys =
          w.mapMasterKeys.insert (w.nMasterKeyMaxID + 1) kMasterKey := by
        rw [hlocked]
        exact hwallet.masterKeys
      rw [hmasters, lookup_insert_ite] at hlookup
      split at hlookup
      · cases hlookup
        rw [openMasterKey_newMasterKey hmaster] at hopen
        exact (Option.some.inj hopen).symm
      · have hfound := hfresh.memory nID k _ hlookup hopen
        have hfails := opensFirstKey_of_foundOut (w := locked)
          (by rw [hlocked]; exact hwallet.cryptedKeys) (by
            obtain ⟨keyID, hkeyID⟩ := exists_mem_of_ne_empty hkeys
            refine ⟨keyID, ?_⟩
            rw [hlocked]
            exact lookup_isSome.mpr (hwallet.memory keyID hkeyID)) hfound
        rw [hfails] at hopens
        cases hopens
  have hunlockedRecords : CommittedRecords C.toKeyCrypto e.vMasterKey w e.newKeys
      (masterKeyWritten o.encrypt w kMasterKey) u.db := by
    rw [hudb, hlockedDb]
    exact hrecords
  rw [finishEncryption, hlock, ← hlocked] at hdb
  rw [← hu] at hdb
  simp only [mem_cons, not_mem_nil, or_false] at hdb
  rcases hdb with rfl | rfl | rfl | rfl
  · exact hrecords
  · exact hunlockedRecords
  · cases hclear : u.clearKeyPool o.clear with
    | none => exact hunlockedRecords
    | some cleared => exact (hunlockedRecords.clearKeyPool hclear).1
  · exact hunlockedRecords.NewKeyPool e.length_vMasterKey hcrypted hright

section Restart

variable {mkey : Table ℕ CMasterKey} {db : WalletRecords}

section

variable (h : CommittedRecords C.toKeyCrypto vMasterKey w e.newKeys mkey db)
include h

theorem CommittedRecords.encryptedRecords
    (hfresh : FreshEncryption C pass w e) : EncryptedRecords C.toKeyCrypto db := by
  refine ⟨h.key, h.wkey, ?_⟩
  intro pubKey pubKey' hmem hmem' hid
  obtain ⟨_, hlookup⟩ := mem_iff.mp hmem
  obtain ⟨_, hlookup'⟩ := mem_iff.mp hmem'
  exact hfresh.ids pubKey pubKey' (h.ckey _ _ hlookup).1 (h.ckey _ _ hlookup').1 hid

theorem CommittedRecords.sealedRecords
    (hw : UnencryptedWallet C.toKeyCrypto w) (hfresh : FreshEncryption C pass w e)
    (hlength : vMasterKey.length = WALLET_CRYPTO_KEY_SIZE) (hkeys : w.mapKeys ≠ ∅) :
    SealedRecords C.toKeyCrypto vMasterKey w.mapHybridKeys db where
  toEncryptedRecords := h.encryptedRecords hfresh
  length := hlength
  ckey := fun pubKey vchCryptedSecret hlookup => (h.ckey pubKey vchCryptedSecret hlookup).2 hkeys
  hasKey := by
    obtain ⟨keyID, hkeyID⟩ := exists_mem_of_ne_empty hkeys
    obtain ⟨secret, pubKey, hkey, _⟩ := hw.exists_key hkeyID
    obtain ⟨vchCryptedSecret, hencrypt⟩ :=
      encryptSecret_isSome (C := C) hlength secret (C.Hash pubKey)
    exact ⟨pubKey, mem_of_lookup_eq_some ((h.encrypted _ _ _ hkey).trans hencrypt)⟩
  storable := hw.storable
  hyb := h.hyb

end

theorem UnencryptedWallet.isKeyOf (hw : UnencryptedWallet C.toKeyCrypto w) {key : CKey}
    (hkey : w.toCKeyStore.GetKey C.toKeyCrypto keyID = some key) :
    IsKeyOf C.toKeyCrypto w keyID key.vchSecret key.vchPubKey := by
  rw [CKeyStore.GetKey, if_neg (by rw [hw.plain]; decide)] at hkey
  obtain ⟨⟨secret, fCompressed⟩, hlookup, hset⟩ := bind_eq_some_iff.mp hkey
  obtain ⟨hpair, hsecret⟩ := keyPair_of_SetSecret hset
  rw [hsecret]
  rw [KeyPair, hsecret] at hpair
  exact ⟨fCompressed, hlookup, hpair⟩

theorem UnencryptedWallet.holdsKeys_of_empty (hw : UnencryptedWallet C.toKeyCrypto w)
    (hcheck : w.CheckHybridKeys C.toKeyCrypto false = []) (hkeys : w.mapKeys = ∅)
    (u : HybridWallet) : HoldsKeys C.toKeyCrypto w u where
  legacy := by
    intro keyID key hkey
    obtain ⟨_, hlookup, _⟩ := hw.isKeyOf hkey
    rw [hkeys] at hlookup
    cases hlookup
  hybrid := by
    intro hybridID hk hlookup
    have hloaded := (CheckHybridKeys_eq_nil_iff.mp hcheck).loaded hybridID hk hlookup
    unfold checkLoadedKey at hloaded
    simp only [append_eq_nil_iff] at hloaded
    obtain ⟨_, hhave⟩ := have_of_checkLegacyRecord hloaded.1.1.1.1
    rw [CKeyStore.HaveKey, if_neg (by rw [hw.plain]; decide), hkeys] at hhave
    cases hhave

/-- The master keys in the order in which `Unlock` tries them. -/
def masterKeysInOrder (mkey : Table ℕ CMasterKey) : List CMasterKey :=
  (sortedKeys mkey).filterMap mkey.lookup

theorem UnencryptedWallet.masterKeysInOrder (hw : UnencryptedWallet C.toKeyCrypto w)
    {kMasterKey : CMasterKey}
    (hwritten : o.encrypt.write (.mkey (w.nMasterKeyMaxID + 1)) = true) :
    masterKeysInOrder (masterKeyWritten o.encrypt w kMasterKey) =
      masterKeysInOrder w.db.mkey ++ [kMasterKey] := by
  rw [masterKeyWritten, if_pos hwritten]
  apply values_insert_of_lt
  intro nID hnID
  exact Nat.lt_succ_of_le (hw.masterKeyIDs nID (lookup_isSome.mp hnID))

theorem FreshEncryption.foundOut (h : FreshEncryption C pass w e) :
    ∀ kMasterKey ∈ masterKeysInOrder w.db.mkey, ∀ other,
      C.openMasterKey pass kMasterKey = some other → FoundOut C.toKeyCrypto e.vMasterKey other := by
  intro kMasterKey hk other hopen
  obtain ⟨nID, _, hlookup⟩ := mem_filterMap.mp hk
  exact h.database nID kMasterKey other hlookup hopen

variable {kMasterKey : CMasterKey}

section

variable (h : CommittedRecords C.toKeyCrypto e.vMasterKey w e.newKeys
  (masterKeyWritten o.encrypt w kMasterKey) db)
  (hw : UnencryptedWallet C.toKeyCrypto w) (hfresh : FreshEncryption C pass w e)
  (hmaster : newMasterKey C pass e = some kMasterKey)
include h hw hfresh hmaster

theorem CommittedRecords.holdsKeys
    (hopens : MasterKeyOpens C pass o.encrypt w) (hkeys : w.mapKeys ≠ ∅) :
    ∃ u, restart C pass db = some u ∧ HoldsKeys C.toKeyCrypto w u := by
  have hsealed := h.sealedRecords hw hfresh e.length_vMasterKey hkeys
  have horder : masterKeysInOrder db.mkey = masterKeysInOrder w.db.mkey ++ [kMasterKey] := by
    rw [h.mkey, hw.masterKeysInOrder hopens.written]
  obtain ⟨u, hu, hlegacy, hhybrid⟩ := hsealed.restart_opened horder (fun k hk =>
      ⟨by
        obtain ⟨nID, _, hlookup⟩ := mem_filterMap.mp hk
        exact isSome_iff_exists.mp (hopens.earlier nID k hlookup), hfresh.foundOut k hk⟩)
    (openMasterKey_newMasterKey hmaster) hopens.times
  refine ⟨u, hu, ?_, ?_⟩
  · intro keyID key hkey
    have hkeyOf := hw.isKeyOf hkey
    obtain ⟨fCompressed, hlookup, hpub⟩ := hw.isKeyOf hkey
    have hfound := hlegacy _ _ hpub (h.encrypted _ _ _ hkeyOf)
    rw [hw.getID hkeyOf] at hfound
    exact ⟨_, hfound, rfl, rfl⟩
  · intro hybridID hk hlookup
    rw [hhybrid, hlookup, map_some]

theorem CommittedRecords.locked
    (hopens : ¬ MasterKeyOpens C pass o.encrypt w) (hkeys : w.mapKeys ≠ ∅) :
    ∃ u, restart C pass db = some u ∧ u.fUseCrypto = true ∧ u.vMasterKey = [] := by
  have hsealed := h.sealedRecords hw hfresh e.length_vMasterKey hkeys
  by_cases hwritten : o.encrypt.write (.mkey (w.nMasterKeyMaxID + 1)) = true
  · have horder : masterKeysInOrder db.mkey = masterKeysInOrder w.db.mkey ++ [kMasterKey] := by
      rw [h.mkey, hw.masterKeysInOrder hwritten]
    by_cases hearlier : ∃ k ∈ masterKeysInOrder w.db.mkey, C.openMasterKey pass k = none
    · exact hsealed.restart_locked horder hfresh.foundOut (Or.inr hearlier)
    · have hsome : ∀ k ∈ masterKeysInOrder w.db.mkey, ∃ other,
          C.openMasterKey pass k = some other := by
        intro k hk
        apply ne_none_iff_exists'.mp
        intro hnone
        exact hearlier ⟨k, hk, hnone⟩
      obtain ⟨hybridID, hk, hlookup, htime⟩ : ∃ hybridID hk,
          w.mapHybridKeys.lookup hybridID = some hk ∧ ¬ 0 < toInt32 hk.nCreateTime := by
        by_contra hnone
        apply hopens
        refine ⟨hwritten, ?_, ?_⟩
        · intro nID k hlookup
          have hmem : k ∈ masterKeysInOrder w.db.mkey :=
            mem_filterMap.mpr ⟨nID, mem_sortedKeys.mpr (by rw [hlookup]; rfl), hlookup⟩
          exact isSome_iff_exists.mpr (hsome k hmem)
        · intro hybridID hk hlookup
          by_contra htime
          exact hnone ⟨hybridID, hk, hlookup, htime⟩
      exact hsealed.restart_spoiled horder (fun k hk => ⟨hsome k hk, hfresh.foundOut k hk⟩)
        (openMasterKey_newMasterKey hmaster) hlookup htime
  · have horder : masterKeysInOrder db.mkey = masterKeysInOrder w.db.mkey ++ [] := by
      rw [h.mkey, append_nil]
      rw [masterKeyWritten, if_neg hwritten]
    exact hsealed.restart_locked horder hfresh.foundOut (Or.inl rfl)

end

end Restart

/-- An unencrypted wallet gives its keys. -/
theorem UnencryptedWallet.exists_GetKey (hw : UnencryptedWallet C.toKeyCrypto w)
    (hkeys : w.mapKeys ≠ ∅) :
    ∃ keyID key, w.toCKeyStore.GetKey C.toKeyCrypto keyID = some key := by
  obtain ⟨keyID, hkeyID⟩ := exists_mem_of_ne_empty hkeys
  obtain ⟨secret, pubKey, ⟨fCompressed, hlookup, hpub⟩, _⟩ := hw.exists_key hkeyID
  refine ⟨keyID, ⟨secret, pubKey, fCompressed⟩, ?_⟩
  unfold CKeyStore.GetKey KeyCrypto.SetSecret
  rw [if_neg (by rw [hw.plain]; decide), hlookup, bind_eq_bind, bind_some]
  dsimp only
  rw [hpub, map_some]

theorem UnencryptedWallet.finished_safe_iff (hw : UnencryptedWallet C.toKeyCrypto w)
    (hfresh : FreshEncryption C pass w e) (hcheck : w.CheckHybridKeys C.toKeyCrypto false = [])
    (hmaster : newMasterKey C pass e = some kMasterKey) {encrypted : HybridWallet}
    (hall : (withMasterKey w kMasterKey).encryptAll C o.encrypt kMasterKey e.vMasterKey =
      some encrypted) :
    EncryptionSafe C pass w
        (({ encrypted with pwalletdbEncryption := false } : HybridWallet).finishEncryption C pass
          e o) ↔
      w.mapKeys = ∅ ∨ MasterKeyOpens C pass o.encrypt w := by
  have hcommitted := hw.committed (o := o) hfresh hcheck hmaster hall
  constructor
  · intro hsafe
    by_contra hneither
    obtain ⟨hkeys, hopens⟩ := not_or.mp hneither
    have hfirst : encrypted.db ∈ (finishEncryption C
        { encrypted with pwalletdbEncryption := false } pass e o).committed := by
      exact mem_cons_self
    have hrecords := hcommitted _ hfirst
    rcases hsafe.kept encrypted.db (mem_cons_of_mem _ hfirst) with hsame | ⟨u, hu, hholds⟩
    · obtain ⟨pubKey, hmem⟩ :=
        (hrecords.sealedRecords hw hfresh e.length_vMasterKey hkeys).hasKey
      rw [hsame, hw.ckey] at hmem
      exact notMem_empty hmem
    · obtain ⟨u', hu', hcrypted, hlocked⟩ := hrecords.locked hw hfresh hmaster hopens hkeys
      rw [hu] at hu'
      cases hu'
      obtain ⟨keyID, key, hkey⟩ := hw.exists_GetKey hkeys
      obtain ⟨key', hkey', _⟩ := hholds.legacy keyID key hkey
      rw [GetKey_of_locked hcrypted hlocked] at hkey'
      cases hkey'
  · intro hopens
    constructor
    · intro db hdb
      rcases mem_cons.mp hdb with hsame | hdb
      · exact Or.inl hsame
      · right
        have hrecords := hcommitted _ hdb
        by_cases hkeys : w.mapKeys = ∅
        · obtain ⟨r, hload, _⟩ := (hrecords.encryptedRecords hfresh).loadKeys
          obtain ⟨u, hu⟩ : ∃ u, restart C pass db = some u := by
            rw [restart, hload]
            exact ⟨_, rfl⟩
          exact ⟨u, hu, hw.holdsKeys_of_empty hcheck hkeys u⟩
        · exact hrecords.holdsKeys hw hfresh hmaster (hopens.resolve_left hkeys) hkeys
    · intro hresult
      unfold finishEncryption at hresult
      split at hresult <;> cases hresult

theorem not_safe_withMasterKey (C : PassphraseCrypto) (pass : SecureString) (w : HybridWallet)
    (kMasterKey : CMasterKey) :
    ¬ EncryptionSafe C pass w ⟨some false, withMasterKey w kMasterKey, []⟩ := by
  intro hsafe
  have hid : w.nMasterKeyMaxID + 1 = w.nMasterKeyMaxID := (hsafe.undone rfl rfl).2.1
  omega

/-- `EncryptWallet` is safe if and only if it is refused, or the transaction begins and, if it
goes through, the master key that it commits opens every key. -/
theorem encryptWallet_safe_iff (C : PassphraseCrypto) (pass : SecureString) (w : HybridWallet)
    (e : EncryptionInput C.toKeyCrypto) (o : EncryptionOutcome)
    (hw : UnencryptedWallet C.toKeyCrypto w) (hfresh : FreshEncryption C pass w e) :
    EncryptionSafe C pass w (w.EncryptWallet C pass e o) ↔ SafeToEncrypt C pass o.encrypt w := by
  have hnothing (result : Option Bool) : EncryptionSafe C pass w ⟨result, w, []⟩ :=
    ⟨fun db hdb => Or.inl (mem_singleton.mp hdb),
      fun _ _ => ⟨rfl, rfl, rfl, rfl, rfl, rfl, rfl, rfl⟩⟩
  obtain ⟨kMasterKey, hmaster⟩ := exists_newMasterKey pass e
  rw [hw.EncryptWallet_eq hmaster]
  unfold SafeToEncrypt
  by_cases hcheck : w.CheckHybridKeys C.toKeyCrypto false = []
  · simp only [hcheck, ne_eq, not_true_eq_false, false_or]
    by_cases hbegin : o.encrypt.txnBegin = true
    · have hcommitted := hw.encryptAll_isSome_iff kMasterKey (o := o.encrypt)
        e.length_vMasterKey hcheck
      simp only [hbegin, true_and]
      cases hall : (withMasterKey w kMasterKey).encryptAll C o.encrypt kMasterKey e.vMasterKey with
      | none =>
        rw [hall] at hcommitted
        have hfails : ¬ KeysWritten C.toKeyCrypto o.encrypt w := by
          intro hwritten
          cases hcommitted.mpr hwritten
        exact ⟨fun _ => Or.inl hfails, fun _ => hnothing none⟩
      | some encrypted =>
        rw [hall] at hcommitted
        have hwritten : KeysWritten C.toKeyCrypto o.encrypt w := hcommitted.mp rfl
        cases hcommit : o.encrypt.txnCommit with
        | false =>
          exact ⟨fun _ => Or.inr (Or.inl rfl), fun _ => hnothing none⟩
        | true =>
          simp only [hwritten, not_true_eq_false, Bool.true_eq_false, false_or]
          exact hw.finished_safe_iff hfresh hcheck hmaster hall
    · have hbegin' : o.encrypt.txnBegin = false := by simpa using hbegin
      rw [if_pos hbegin']
      constructor
      · intro hsafe
        exact absurd hsafe (not_safe_withMasterKey C pass w kMasterKey)
      · intro hboth
        exact absurd hboth.1 hbegin
  · rw [if_pos hcheck]
    exact ⟨fun _ => Or.inl hcheck, fun _ => hnothing _⟩

end Safety

/-! ## A wallet with one key -/

def keyWallet : HybridWallet :=
  ((newHybridWallet.ImportHybridKeyFromComponents exampleCrypto {} (importRequest 1)).toOption.map
    Prod.snd).getD newHybridWallet

/-- The write of the master key fails, and everything else succeeds. -/
def noMasterKeyRecord : EncryptionOutcome where
  encrypt := { write := fun record => record ≠ .mkey 1 }

/-- Without its record the master key is lost at the restart, and with it every key; and a failure
of `TxnBegin` leaves the master key in memory. -/
theorem encryptWallet_unsafe : ¬ EncryptionSafe examplePassphraseCrypto [1] keyWallet
        (keyWallet.EncryptWallet examplePassphraseCrypto [1] exampleEncryption noMasterKeyRecord) ∧
      ¬ EncryptionSafe examplePassphraseCrypto [1] keyWallet
        (keyWallet.EncryptWallet examplePassphraseCrypto [1] exampleEncryption
          { encrypt := { txnBegin := false } }) := by
  constructor
  · intro hsafe
    have hlost : ∀ db ∈ (keyWallet.EncryptWallet examplePassphraseCrypto [1] exampleEncryption
        noMasterKeyRecord).committed,
        db.ckey ≠ keyWallet.db.ckey ∧
          (restart examplePassphraseCrypto [1] db).map (fun u => u.mapHybridKeys) = some ∅ := by
      with_unfolding_all decide
    have hcommitted : (keyWallet.EncryptWallet examplePassphraseCrypto [1] exampleEncryption
        noMasterKeyRecord).committed ≠ [] := by with_unfolding_all decide
    obtain ⟨db, hdb⟩ := exists_mem_of_ne_nil _ hcommitted
    obtain ⟨hckey, hempty⟩ := hlost db hdb
    obtain ⟨hybridID, hk, hlookup⟩ : ∃ hybridID hk,
        keyWallet.mapHybridKeys.lookup hybridID = some hk := by
      obtain ⟨hybridID, hmem⟩ := exists_mem_of_ne_empty (t := keyWallet.mapHybridKeys)
        (by with_unfolding_all decide)
      exact ⟨hybridID, mem_iff.mp hmem⟩
    rcases hsafe.kept db (mem_cons_of_mem _ hdb) with hsame | ⟨u, hu, hholds⟩
    · exact hckey (congrArg WalletRecords.ckey hsame)
    · rw [hu, map_some] at hempty
      have hfound := hholds.hybrid hybridID hk hlookup
      rw [loadedSecrets, Option.some.inj hempty] at hfound
      cases hfound
  · intro hsafe
    have hresult := hsafe.undone (by with_unfolding_all decide) (by with_unfolding_all decide)
    exact absurd hresult.2.1 (by with_unfolding_all decide)

def walletKey : CKey := ⟨List.replicate 32 1, 2 :: List.replicate 32 1, true⟩

theorem keyWallet_mapKeys : keyWallet.mapKeys = insert
    (exampleCrypto.GetID walletKey.vchPubKey) (walletKey.vchSecret, true) ∅ := by
  with_unfolding_all decide

theorem keyWallet_isKeyOf (h : IsKeyOf exampleCrypto keyWallet keyID secret pubKey) :
    keyID = exampleCrypto.GetID walletKey.vchPubKey ∧ pubKey = walletKey.vchPubKey := by
  obtain ⟨fCompressed, hlookup, hpub⟩ := h
  rw [keyWallet_mapKeys, lookup_insert_ite] at hlookup
  split at hlookup
  · next hid =>
    cases hlookup
    exact ⟨hid, (Option.some.inj hpub).symm⟩
  · cases hlookup

theorem keyWallet_mapHybridKeys {hybridID : CHybridKeyID} {hk : CHybridKey}
    (hlookup : keyWallet.mapHybridKeys.lookup hybridID = some hk) :
    StorableKey exampleCrypto hybridID hk ∧ 0 < toInt32 hk.nCreateTime := by
  have hkeys : keyWallet.mapHybridKeys = insert
      (((hybridKeyOf walletKey [9] 1).GetHybridID exampleCrypto).getD 0)
      (hybridKeyOf walletKey [9] 1) ∅ := by with_unfolding_all decide
  rw [hkeys, lookup_insert_ite] at hlookup
  split at hlookup
  · next hid =>
    cases hlookup
    rw [hid]
    refine ⟨⟨?_, ?_, ?_, ?_⟩, ?_⟩
    · with_unfolding_all decide
    · with_unfolding_all decide
    · intro pkey hpkey
      cases hpkey
      rfl
    · with_unfolding_all decide
    · with_unfolding_all decide
  · cases hlookup

theorem keyWallet_unencrypted : UnencryptedWallet exampleCrypto keyWallet where
  fileBacked := by with_unfolding_all decide
  plain := by with_unfolding_all decide
  noCryptedKeys := by with_unfolding_all decide
  wellKeyed := by
    constructor
    · intro keyID secret fCompressed hlookup
      rw [keyWallet_mapKeys, lookup_insert_ite] at hlookup
      split at hlookup
      · next hid =>
        cases hlookup
        exact ⟨walletKey.vchPubKey, by decide, hid.symm⟩
      · cases hlookup
    · intro keyID pubKey vchCryptedSecret hlookup
      rw [show keyWallet.mapCryptedKeys = ∅ by with_unfolding_all decide] at hlookup
      cases hlookup
  key := by
    have hkey : ∀ pubKey ∈ keyWallet.db.key.keys, pubKey = walletKey.vchPubKey := by
      with_unfolding_all decide
    intro pubKey hmem
    rw [hkey pubKey (mem_keys.mpr hmem)]
    refine ⟨walletKey.vchSecret, true, ?_, by decide⟩
    rw [keyWallet_mapKeys, lookup_insert]
  wkey := by
    intro pubKey hmem
    rw [show keyWallet.db.wkey = ∅ by with_unfolding_all decide] at hmem
    exact absurd hmem notMem_empty
  ckey := by with_unfolding_all decide
  storable := fun _ _ hlookup => (keyWallet_mapHybridKeys hlookup).1
  masterKeyIDs := by
    intro nID hmem
    rw [show keyWallet.db.mkey = ∅ by with_unfolding_all decide] at hmem
    exact absurd hmem notMem_empty

/-- With its record nothing is lost. -/
theorem encryptWallet_safe_key : EncryptionSafe examplePassphraseCrypto [1] keyWallet
      (keyWallet.EncryptWallet examplePassphraseCrypto [1] exampleEncryption {}) := by
  have hfresh : FreshEncryption examplePassphraseCrypto [1] keyWallet exampleEncryption := by
    refine ⟨?_, ?_, ?_⟩
    · intro nID kMasterKey other hlookup
      rw [show keyWallet.mapMasterKeys = ∅ by with_unfolding_all decide] at hlookup
      cases hlookup
    · intro nID kMasterKey other hlookup
      rw [show keyWallet.db.mkey = ∅ by with_unfolding_all decide] at hlookup
      cases hlookup
    · intro pubKey pubKey' hkey hkey' _
      rcases hkey with ⟨_, _, hkey⟩ | ⟨_, hmem, _⟩
      · rcases hkey' with ⟨_, _, hkey'⟩ | ⟨_, hmem, _⟩
        · rw [(keyWallet_isKeyOf hkey).2, (keyWallet_isKeyOf hkey').2]
        · cases hmem
      · cases hmem
  apply (encryptWallet_safe_iff examplePassphraseCrypto [1] keyWallet exampleEncryption {}
    keyWallet_unencrypted hfresh).mpr
  refine Or.inr ⟨rfl, Or.inr (Or.inr (Or.inr ⟨rfl, ?_, ?_⟩))⟩
  · intro nID kMasterKey hlookup
    rw [show keyWallet.db.mkey = ∅ by with_unfolding_all decide] at hlookup
    cases hlookup
  · intro hybridID hk hlookup
    exact (keyWallet_mapHybridKeys hlookup).2

end Phoenixcoin.Analysis
