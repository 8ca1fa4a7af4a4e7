import Phoenixcoin.Analysis.HybridOperations

/-!
# The check of the hybrid keys

A wallet that passes `CheckHybridKeys` passes it again when a hybrid key joins it whose two halves
are in memory and at rest, and whose record gives back its creation time.
-/

set_option autoImplicit false

namespace Phoenixcoin.Analysis

open Lib Program List Option Finmap HybridWallet CKeyStore Table

variable {C : KeyCrypto} {w w' : HybridWallet} {hybridID : CHybridKeyID} {hk : CHybridKey}
  {disk : CHybridKeyDisk} {fDeep : Bool}

/-! ## What passes the check -/

@[simp]
theorem problemIf_eq_nil {b : Bool} {text : String} :
    problemIf b text = [] ↔ b = false := by
  unfold problemIf
  cases b <;> simp

theorem issuesOf_eq_nil {V : Type} {table : Table CHybridKeyID V} {secpPub : V → CPubKey}
    {check : CHybridKeyID → V → List String} :
    issuesOf C table secpPub check = [] ↔
      ∀ id v, table.lookup id = some v → check id v = [] := by
  rw [issuesOf, flatMap_eq_nil_iff]
  constructor
  · intro h id v hlookup
    have hid := h id (mem_sortedKeys.mpr (by rw [hlookup]; rfl))
    rw [hlookup] at hid
    exact map_eq_nil_iff.mp hid
  · intro h id _
    cases hlookup : table.lookup id with
    | none => rfl
    | some v => exact map_eq_nil_iff.mpr (h id v hlookup)

/-- What `CheckHybridKeys` finds in order. -/
structure KeysChecked (C : KeyCrypto) (fDeep : Bool) (w : HybridWallet) : Prop where
  loaded : ∀ id hk, w.mapHybridKeys.lookup id = some hk → w.checkLoadedKey C id hk = []
  database : w.fFileBacked = true → ∀ id disk, w.db.hyb.lookup id = some disk →
    w.checkDiskRecord C fDeep "database hybrid record" true id disk = [] ∧
      ((w.mapHybridKeys.lookup id).isSome = true ∨ (w.mapHybridKeyDisk.lookup id).isSome = true)
  stored : w.fFileBacked = true → ∀ id hk, w.mapHybridKeys.lookup id = some hk →
    (w.db.hyb.lookup id).isSome = true
  cached : w.fFileBacked = true → ∀ id disk, w.mapHybridKeyDisk.lookup id = some disk →
    (w.db.hyb.lookup id).isSome = true
  atRest : w.fFileBacked = false → ∀ id disk, w.mapHybridKeyDisk.lookup id = some disk →
    w.checkDiskRecord C fDeep "at-rest hybrid record" false id disk = []
  plain : w.IsCrypted = false → w.mapHybridKeyDisk = ∅
  locked : w.IsLocked = true → w.mapHybridKeys = ∅

theorem isNone_eq_false {A : Type} {x : Option A} : x.isNone = false ↔ x.isSome = true := by
  cases x <;> simp

theorem CheckHybridKeys_eq_nil_iff : w.CheckHybridKeys C fDeep = [] ↔ KeysChecked C fDeep w := by
  have hstate : (problemIf (! w.IsCrypted && w.mapHybridKeyDisk ≠ ∅)
        "unencrypted wallet holds at-rest hybrid key records" ++
      problemIf (w.IsCrypted && w.IsLocked && w.mapHybridKeys ≠ ∅)
        "locked wallet has decrypted hybrid keys in memory" = []) ↔
      (w.IsCrypted = false → w.mapHybridKeyDisk = ∅) ∧
        (w.IsLocked = true → w.mapHybridKeys = ∅) := by
    rw [append_eq_nil_iff, problemIf_eq_nil]
    unfold IsLocked IsCrypted
    cases w.fUseCrypto <;> simp
  unfold CheckHybridKeys
  rw [append_eq_nil_iff, append_eq_nil_iff, map_eq_nil_iff, hstate, issuesOf_eq_nil]
  by_cases hfile : w.fFileBacked = true
  · rw [if_pos hfile]
    unfold checkDatabase
    rw [append_eq_nil_iff, append_eq_nil_iff, issuesOf_eq_nil, issuesOf_eq_nil, issuesOf_eq_nil]
    simp only [append_eq_nil_iff, problemIf_eq_nil, isNone_eq_false, Bool.and_eq_false_iff]
    constructor
    · rintro ⟨⟨hloaded, ⟨hdatabase, hstored⟩, hcached⟩, hplain, hlocked⟩
      exact ⟨hloaded, fun _ => hdatabase, fun _ => hstored, fun _ => hcached,
        fun hno => absurd hfile (by simp [hno]), hplain, hlocked⟩
    · intro h
      exact ⟨⟨h.loaded, ⟨h.database hfile, h.stored hfile⟩, h.cached hfile⟩, h.plain, h.locked⟩
  · rw [if_neg hfile, issuesOf_eq_nil]
    have hno : w.fFileBacked = false := by simpa using hfile
    constructor
    · rintro ⟨⟨hloaded, hatRest⟩, hplain, hlocked⟩
      exact ⟨hloaded, fun h => absurd h hfile, fun h => absurd h hfile, fun h => absurd h hfile,
        fun _ => hatRest, hplain, hlocked⟩
    · intro h
      exact ⟨⟨h.loaded, h.atRest hno⟩, h.plain, h.locked⟩

/-! ## Legacy keys -/

structure LegacyInMemory (C : KeyCrypto) (w : HybridWallet) (secpPub : CPubKey)
    (secpPriv : CPrivKey) : Prop where
  have_key : w.HaveKey (C.GetID secpPub) = true
  pub : w.GetPubKey C (C.GetID secpPub) = some secpPub
  priv : ∃ ecdsa, w.toCKeyStore.GetKey C (C.GetID secpPub) = some ecdsa ∧
    ecdsa.vchPubKey = secpPub ∧ ecdsa.vchSecret = secpPriv

def LegacyRecord (C : KeyCrypto) (w : HybridWallet) (secpPub : CPubKey) (secpPriv : CPrivKey) :
    Prop :=
  if w.fUseCrypto then
    ∃ vchCryptedSecret, w.db.ckey.lookup secpPub = some vchCryptedSecret ∧
      C.DecryptSecret w.vMasterKey vchCryptedSecret (C.Hash secpPub) = some secpPriv
  else w.db.key.lookup secpPub = some secpPriv

/-- The keys of a keystore stand under their own identifiers. -/
structure WellKeyed (C : KeyCrypto) (keystore : CKeyStore) : Prop where
  plain : ∀ keyID secret fCompressed, keystore.mapKeys.lookup keyID = some (secret, fCompressed) →
    ∃ pubKey, C.ecPubKey secret = some pubKey ∧ C.GetID pubKey = keyID
  crypted : ∀ keyID pubKey vchCryptedSecret,
    keystore.mapCryptedKeys.lookup keyID = some (pubKey, vchCryptedSecret) →
    C.GetID pubKey = keyID ∧ ∀ secret,
      C.DecryptSecret keystore.vMasterKey vchCryptedSecret (C.Hash pubKey) = some secret →
      C.ecPubKey secret = some pubKey

variable {ecdsa : CKey} {secpPriv : CPrivKey} {fFromDatabase : Bool}

/-- A key that `GetKey` finds is in memory under its own identifier. -/
theorem WellKeyed.legacyInMemory (h : WellKeyed C w.toCKeyStore) {keyID : CKeyID}
    (hfound : w.toCKeyStore.GetKey C keyID = some ecdsa) :
    C.GetID ecdsa.vchPubKey = keyID ∧ LegacyInMemory C w ecdsa.vchPubKey ecdsa.vchSecret := by
  have hkeyed : C.GetID ecdsa.vchPubKey = keyID ∧ w.HaveKey keyID = true ∧
      w.GetPubKey C keyID = some ecdsa.vchPubKey := by
    have hget := hfound
    unfold GetKey at hfound
    unfold HaveKey GetPubKey IsCrypted
    split at hfound
    · next hcrypted =>
      obtain ⟨⟨pubKey, vchCryptedSecret⟩, hlookup, hfound⟩ := bind_eq_some_iff.mp hfound
      obtain ⟨secret, hdecrypt, hfound⟩ := bind_eq_some_iff.mp hfound
      obtain ⟨hid, hpair⟩ := h.crypted keyID pubKey vchCryptedSecret hlookup
      have hpub := hpair secret hdecrypt
      split at hfound
      · obtain ⟨hkey, hsecret⟩ := keyPair_of_SetSecret hfound
        rw [KeyPair, hsecret, hpub] at hkey
        rw [← Option.some.inj hkey, if_pos hcrypted, if_pos hcrypted, hlookup]
        exact ⟨hid, rfl, rfl⟩
      · cases hfound
    · next hplain =>
      obtain ⟨⟨secret, fCompressed⟩, hlookup, hset⟩ := bind_eq_some_iff.mp hfound
      obtain ⟨pubKey, hpub, hid⟩ := h.plain keyID secret fCompressed hlookup
      obtain ⟨hkey, hsecret⟩ := keyPair_of_SetSecret hset
      rw [KeyPair, hsecret, hpub] at hkey
      rw [if_neg hplain, if_neg hplain, hget, hlookup]
      exact ⟨by rw [← Option.some.inj hkey, hid], rfl, rfl⟩
  obtain ⟨hid, hhave, hpub⟩ := hkeyed
  rw [hid]
  refine ⟨rfl, ?_, ?_, ?_⟩
  · rw [hid, hhave]
  · rw [hid, hpub]
  · rw [hid]
    exact ⟨ecdsa, hfound, rfl, rfl⟩

/-- Nothing happens to the legacy keys and their records. -/
structure LegacyKept (C : KeyCrypto) (w w' : HybridWallet) : Prop where
  crypto : w'.fUseCrypto = w.fUseCrypto
  master : w'.vMasterKey = w.vMasterKey
  file : w'.fFileBacked = w.fFileBacked
  memory : ∀ keyID, w.HaveKey keyID = true →
    w'.HaveKey keyID = true ∧ w'.GetPubKey C keyID = w.GetPubKey C keyID ∧
      w'.toCKeyStore.GetKey C keyID = w.toCKeyStore.GetKey C keyID
  records : ∀ secpPub secpPriv, LegacyRecord C w secpPub secpPriv →
    LegacyRecord C w' secpPub secpPriv
  wellKeyed : WellKeyed C w.toCKeyStore → WellKeyed C w'.toCKeyStore

theorem LegacyKept.refl (w : HybridWallet) : LegacyKept C w w :=
  ⟨rfl, rfl, rfl, fun _ h => ⟨h, rfl, rfl⟩, fun _ _ h => h, fun h => h⟩

theorem LegacyKept.trans {w₁ w₂ w₃ : HybridWallet} (h : LegacyKept C w₁ w₂)
    (h' : LegacyKept C w₂ w₃) : LegacyKept C w₁ w₃ where
  crypto := h'.crypto.trans h.crypto
  master := h'.master.trans h.master
  file := h'.file.trans h.file
  memory := by
    intro keyID hhave
    obtain ⟨hhave₂, hpub, hkey⟩ := h.memory keyID hhave
    obtain ⟨hhave₃, hpub', hkey'⟩ := h'.memory keyID hhave₂
    exact ⟨hhave₃, hpub'.trans hpub, hkey'.trans hkey⟩
  records secpPub secpPriv hrecord := h'.records _ _ (h.records _ _ hrecord)
  wellKeyed hkeyed := h'.wellKeyed (h.wellKeyed hkeyed)

variable {secpPub : CPubKey} {context : String}

theorem LegacyKept.legacyInMemory (h : LegacyKept C w w')
    (hmemory : LegacyInMemory C w secpPub secpPriv) : LegacyInMemory C w' secpPub secpPriv := by
  obtain ⟨hhave, hpub, hkey⟩ := h.memory _ hmemory.have_key
  refine ⟨hhave, hpub.trans hmemory.pub, ?_⟩
  rw [hkey]
  exact hmemory.priv

theorem LegacyKept.of_eq (hcrypto : w'.fUseCrypto = w.fUseCrypto)
    (hmaster : w'.vMasterKey = w.vMasterKey) (hfile : w'.fFileBacked = w.fFileBacked)
    (hkeys : w'.mapKeys = w.mapKeys) (hcrypted : w'.mapCryptedKeys = w.mapCryptedKeys)
    (hkey : w'.db.key = w.db.key) (hckey : w'.db.ckey = w.db.ckey) : LegacyKept C w w' where
  crypto := hcrypto
  master := hmaster
  file := hfile
  memory := by
    intro keyID hhave
    unfold GetPubKey GetKey IsCrypted
    unfold HaveKey at hhave ⊢
    rw [hcrypto, hmaster, hkeys, hcrypted]
    exact ⟨hhave, rfl, rfl⟩
  records := by
    intro secpPub secpPriv
    unfold LegacyRecord
    rw [hcrypto, hmaster, hkey, hckey]
    exact id
  wellKeyed := by
    intro h
    constructor
    · rw [hkeys]
      exact h.plain
    · rw [hcrypted, hmaster]
      exact h.crypted

/-- A legacy key joins that the keystore does not have. -/
theorem addLegacyKey_legacyKept {ecdsa : CKey} {keyMeta : CKeyMetadata} {cryptedSecret : valtype}
    (hnew : w.HaveKey (C.GetID ecdsa.vchPubKey) = false) (hpair : KeyPair C ecdsa)
    (hcrypted : w.fUseCrypto = true → w.EncryptKeySecret C ecdsa = some cryptedSecret) :
    LegacyKept C w (w.addLegacyKey C ecdsa keyMeta cryptedSecret) ∧
      LegacyInMemory C (w.addLegacyKey C ecdsa keyMeta cryptedSecret) ecdsa.vchPubKey
        ecdsa.vchSecret := by
  have hlength := hpair.length
  have hother : ∀ keyID, w.HaveKey keyID = true → keyID ≠ C.GetID ecdsa.vchPubKey := by
    intro keyID hhave heq
    rw [heq, hnew] at hhave
    cases hhave
  have hmapKeys : (w.addLegacyKey C ecdsa keyMeta cryptedSecret).mapKeys =
      if w.fUseCrypto then w.mapKeys
      else w.mapKeys.insert (C.GetID ecdsa.vchPubKey)
        (ecdsa.vchSecret, ecdsa.fCompressedPubKey) := addLegacyKey_mapKeys ..
  have hmapCrypted : (w.addLegacyKey C ecdsa keyMeta cryptedSecret).mapCryptedKeys =
      if w.fUseCrypto then
        w.mapCryptedKeys.insert (C.GetID ecdsa.vchPubKey) (ecdsa.vchPubKey, cryptedSecret)
      else w.mapCryptedKeys := addLegacyKey_mapCryptedKeys ..
  refine ⟨⟨addLegacyKey_fUseCrypto .., addLegacyKey_vMasterKey .., addLegacyKey_fFileBacked ..,
    ?_, ?_, ?_⟩, ?_⟩
  · intro keyID hhave
    have hne := hother keyID hhave
    unfold GetPubKey GetKey IsCrypted
    unfold HaveKey at hhave ⊢
    rw [addLegacyKey_fUseCrypto, addLegacyKey_vMasterKey, hmapKeys, hmapCrypted]
    by_cases hcrypt : w.fUseCrypto = true
    · simp only [if_pos hcrypt] at hhave ⊢
      rw [lookup_insert_ite, if_neg hne]
      exact ⟨hhave, rfl, rfl⟩
    · simp only [if_neg hcrypt] at hhave ⊢
      rw [lookup_insert_ite, if_neg hne]
      exact ⟨hhave, rfl, rfl⟩
  · intro secpPub secpPriv
    unfold LegacyRecord
    rw [addLegacyKey_fUseCrypto, addLegacyKey_vMasterKey, addLegacyKey_db]
    exact id
  · intro h
    constructor
    · intro keyID secret fCompressed hlookup
      rw [hmapKeys] at hlookup
      split at hlookup
      · exact h.plain keyID secret fCompressed hlookup
      · rw [lookup_insert_ite] at hlookup
        split at hlookup
        · next hid =>
          cases hlookup
          exact ⟨ecdsa.vchPubKey, hpair, hid.symm⟩
        · exact h.plain keyID secret fCompressed hlookup
    · intro keyID pubKey vchCryptedSecret hlookup
      rw [hmapCrypted] at hlookup
      rw [addLegacyKey_vMasterKey]
      split at hlookup
      · next hcrypt =>
        rw [lookup_insert_ite] at hlookup
        split at hlookup
        · next hid =>
          cases hlookup
          refine ⟨hid.symm, ?_⟩
          intro secret hdecrypt
          have hencrypt := (EncryptKeySecret_eq_some (hcrypted hcrypt)).2.2
          rw [C.DecryptSecret_EncryptSecret hencrypt] at hdecrypt
          rw [← Option.some.inj hdecrypt]
          exact hpair
        · exact h.crypted keyID pubKey vchCryptedSecret hlookup
      · exact h.crypted keyID pubKey vchCryptedSecret hlookup
  · have hset (fCompressed : Bool) : C.SetSecret ecdsa.vchSecret fCompressed =
        some ⟨ecdsa.vchSecret, ecdsa.vchPubKey, fCompressed⟩ := by
      rw [KeyCrypto.SetSecret, hpair]
      rfl
    by_cases hcrypt : w.fUseCrypto = true
    · have hdecrypt := C.DecryptSecret_EncryptSecret
        (EncryptKeySecret_eq_some (hcrypted hcrypt)).2.2
      constructor
      · unfold HaveKey
        rw [addLegacyKey_fUseCrypto, hmapCrypted, if_pos hcrypt, if_pos hcrypt, lookup_insert]
        rfl
      · unfold GetPubKey IsCrypted
        rw [addLegacyKey_fUseCrypto, hmapCrypted, if_pos hcrypt, if_pos hcrypt, lookup_insert]
        rfl
      · refine ⟨⟨ecdsa.vchSecret, ecdsa.vchPubKey, decide (ecdsa.vchPubKey.length = 33)⟩, ?_,
          rfl, rfl⟩
        unfold GetKey
        rw [addLegacyKey_fUseCrypto, addLegacyKey_vMasterKey, hmapCrypted, if_pos hcrypt,
          if_pos hcrypt, lookup_insert]
        simp only [bind_eq_bind, bind_some, hdecrypt, hlength.1, if_true]
        exact hset _
    · have hget : (w.addLegacyKey C ecdsa keyMeta cryptedSecret).toCKeyStore.GetKey C
          (C.GetID ecdsa.vchPubKey) =
          some ⟨ecdsa.vchSecret, ecdsa.vchPubKey, ecdsa.fCompressedPubKey⟩ := by
        unfold GetKey
        rw [addLegacyKey_fUseCrypto, hmapKeys, if_neg hcrypt, if_neg hcrypt, lookup_insert]
        exact hset _
      constructor
      · unfold HaveKey
        rw [addLegacyKey_fUseCrypto, hmapKeys, if_neg hcrypt, if_neg hcrypt, lookup_insert]
        rfl
      · unfold GetPubKey IsCrypted
        rw [addLegacyKey_fUseCrypto, if_neg hcrypt, hget]
        rfl
      · exact ⟨_, hget, rfl, rfl⟩

/-- The record of a legacy key is staged. -/
theorem StageKeyRecord_legacyKept {o : WalletDbOutcome} {keyMeta : CKeyMetadata}
    {cryptedSecret : valtype} {db db' : WalletRecords}
    (hcrypted : w.fUseCrypto = true → w.EncryptKeySecret C ecdsa = some cryptedSecret)
    (hstage : w.StageKeyRecord o ecdsa keyMeta cryptedSecret db = some db') :
    LegacyKept C { w with db := db } { w with db := db' } ∧
      LegacyRecord C { w with db := db' } ecdsa.vchPubKey ecdsa.vchSecret ∧ db'.hyb = db.hyb := by
  have hkept (hrecords : ∀ secpPub secpPriv, LegacyRecord C { w with db := db } secpPub secpPriv →
      LegacyRecord C { w with db := db' } secpPub secpPriv) :
      LegacyKept C { w with db := db } { w with db := db' } :=
    ⟨rfl, rfl, rfl, fun _ h => ⟨h, rfl, rfl⟩, hrecords, fun h => h⟩
  unfold StageKeyRecord IsCrypted at hstage
  split at hstage
  · next hcrypt =>
    unfold WalletDbOutcome.WriteCryptedKey at hstage
    split at hstage
    · next hwrite =>
      cases hstage
      refine ⟨hkept ?_, ?_, rfl⟩
      · intro secpPub secpPriv hrecord
        rw [LegacyRecord, if_pos hcrypt] at hrecord ⊢
        obtain ⟨vchCryptedSecret, hlookup, hdecrypt⟩ := hrecord
        refine ⟨vchCryptedSecret, ?_, hdecrypt⟩
        have hne : secpPub ≠ ecdsa.vchPubKey := by
          intro heq
          apply hwrite.2.2.1
          rw [← heq]
          exact mem_of_lookup_eq_some hlookup
        rw [lookup_insert_ite, if_neg hne]
        exact hlookup
      · rw [LegacyRecord, if_pos hcrypt]
        refine ⟨cryptedSecret, lookup_insert _, ?_⟩
        exact C.DecryptSecret_EncryptSecret (EncryptKeySecret_eq_some (hcrypted hcrypt)).2.2
    · cases hstage
  · next hplain =>
    unfold WalletDbOutcome.WriteKey at hstage
    split at hstage
    · next hwrite =>
      cases hstage
      refine ⟨hkept ?_, ?_, rfl⟩
      · intro secpPub secpPriv hrecord
        rw [LegacyRecord, if_neg hplain] at hrecord ⊢
        have hne : secpPub ≠ ecdsa.vchPubKey := by
          intro heq
          apply hwrite.2.2
          rw [← heq]
          exact mem_of_lookup_eq_some hrecord
        rw [lookup_insert_ite, if_neg hne]
        exact hrecord
      · rw [LegacyRecord, if_neg hplain]
        exact lookup_insert _
    · cases hstage

/-! ## The record of a new key -/

/-- A cipher text has bytes, and no bytes are no ML-DSA key. -/
structure NonEmptyKeys (C : KeyCrypto) : Prop where
  aesEncrypt_ne_nil : ∀ vMasterKey nIV plain, vMasterKey.length = WALLET_CRYPTO_KEY_SIZE →
    C.aesEncrypt vMasterKey nIV plain ≠ []
  d2iMLDSA_nil : C.d2iMLDSA [] = none

structure ProperRecord (C : KeyCrypto) (w : HybridWallet) (hk : CHybridKey)
    (disk : CHybridKeyDisk) : Prop extends RecordOf C w.vMasterKey hk disk where
  encrypted : disk.IsEncrypted = w.IsCrypted
  version : disk.nVersion = HYBRIDKEY_DISK_VERSION ∨
    disk.nVersion = HYBRIDKEY_DISK_VERSION_ENCRYPTED
  crypted : disk.IsEncrypted = true → disk.keys.vchCryptedPrivate ≠ [] ∧
    disk.keys.secpPriv = [] ∧ disk.keys.mldsaPrivKey = []
  plain : disk.IsEncrypted = false → disk.keys.secpPriv = hk.secpPriv ∧ disk.keys.mldsaPrivKey ≠ []

theorem properRecord_of_MakeHybridKeyDisk (hC : NonEmptyKeys C)
    (hkey : StorableKey C hybridID hk) (hmade : w.MakeHybridKeyDisk C hk = some disk) :
    ProperRecord C w hk disk := by
  unfold MakeHybridKeyDisk at hmade
  split at hmade
  · next hcrypted =>
    split at hmade
    · cases hmade
    · obtain ⟨hof, hencrypted⟩ := recordOf_FromMemoryEncrypted hkey hmade
      obtain ⟨pkey, vchCryptedPrivate, _, hcrypt, rfl⟩ := FromMemoryEncrypted_eq_some hmade
      refine ⟨hof, hencrypted.trans hcrypted.symm, Or.inr rfl, fun _ => ⟨?_, rfl, rfl⟩, ?_⟩
      · unfold KeyCrypto.EncryptSecret at hcrypt
        split at hcrypt
        · next hlength =>
          rw [← Option.some.inj hcrypt]
          exact hC.aesEncrypt_ne_nil _ _ _ hlength
        · cases hcrypt
      · intro hno
        cases hno
  · next hplain =>
    obtain ⟨pkey, hsigner, rfl⟩ := map_eq_some_iff.mp hmade
    have hplain : w.IsCrypted = false := by simpa using hplain
    refine ⟨⟨CheckChecksum_ComputeChecksum _, rfl, rfl, rfl, pkey, hsigner, rfl⟩, ?_,
      Or.inl rfl, ?_, fun _ => ⟨rfl, ?_⟩⟩
    · rw [hplain]
      rfl
    · intro hno
      cases hno
    · intro hnil
      have hpkey := hkey.signer pkey hsigner
      have hnil : pkey = [] := hnil
      rw [hnil, hC.d2iMLDSA_nil] at hpkey
      cases hpkey

theorem legacyIDOf_eq (hlength : secpPub.length = 33) :
    legacyIDOf C secpPub = C.GetID secpPub := by
  unfold legacyIDOf CPubKey.IsValid
  simp [hlength]

theorem checkLegacyRecord_eq_nil (hlength : secpPub.length = 33)
    (h : LegacyInMemory C w secpPub secpPriv) :
    w.checkLegacyRecord C secpPub context = [] := by
  unfold checkLegacyRecord CPubKey.IsValid
  simp [hlength, h.have_key, h.pub]

section

variable (hkey : StorableKey C hybridID hk)
include hkey

theorem checkLoadedKey_eq_nil (hmemory : LegacyInMemory C w hk.secpPub hk.secpPriv) :
    w.checkLoadedKey C hybridID hk = [] := by
  obtain ⟨hpriv, hlength, _, hsigner, hckey, _⟩ := Validate_iff.mp hkey.valid
  obtain ⟨ecdsa, hget, hpub, hsecret⟩ := hmemory.priv
  have hprivKey : ecdsa.GetPrivKey = hk.secpPriv := hsecret
  unfold checkLoadedKey
  rw [checkLegacyRecord_eq_nil hlength hmemory, legacyIDOf_eq hlength, hget, hkey.derives,
    if_neg hpriv]
  simp [hsigner, hckey, hpub, hprivKey]

/-- The private keys of a record can be read. -/
theorem materializeForCheck_eq_ok
    (hrecord : ProperRecord C w hk disk) (htime : toInt32 hk.nCreateTime = hk.nCreateTime) :
    w.materializeForCheck C disk = .ok hk := by
  obtain ⟨hpriv, hlength, _, _, hckey, hpos⟩ := Validate_iff.mp hkey.valid
  obtain ⟨pkey, _, hprivate⟩ := hrecord.keys
  obtain ⟨key, hget⟩ := isSome_iff_exists.mp hckey
  obtain ⟨hset, hpub⟩ := GetCKey_eq_some hget
  have hmaterial := hrecord.materialize hkey (by rw [htime]; exact hpos)
  have hatRest : atRest hk = hk := by
    rw [atRest, htime]
  have hvalid : CPubKey.IsValid disk.keys.secpPub = true := by
    rw [hrecord.secpPub]
    simp [CPubKey.IsValid, hlength]
  rw [materializeForCheck, if_neg, if_neg, if_neg, if_neg, if_neg, if_neg, hprivate]
  · dsimp only
    rw [hset]
    dsimp only
    rw [if_neg (by rw [hpub, hrecord.secpPub]; simp), hmaterial, hatRest]
  · rintro ⟨hplain, hnil⟩
    exact (hrecord.plain (by simpa using hplain)).2 hnil
  · rintro ⟨hplain, hnil⟩
    rw [(hrecord.plain (by simpa using hplain)).1] at hnil
    exact hpriv hnil
  · rintro ⟨hcrypted, hnil⟩
    exact (hrecord.crypted hcrypted).1 hnil
  · exact not_not.mpr hvalid
  · exact not_not.mpr hrecord.checksum
  · rintro ⟨hplain, hencrypted⟩
    exact hrecord.version.elim hplain hencrypted

theorem checkDiskRecord_eq_nil
    (hmemory : LegacyInMemory C w hk.secpPub hk.secpPriv) (hrecord : ProperRecord C w hk disk)
    (htime : toInt32 hk.nCreateTime = hk.nCreateTime)
    (hloaded : w.mapHybridKeys.lookup hybridID = some hk)
    (hcached : ∀ cached, w.mapHybridKeyDisk.lookup hybridID = some cached → cached = disk) :
    w.checkDiskRecord C fDeep context fFromDatabase hybridID disk = [] := by
  obtain ⟨hpriv, hlength, _⟩ := Validate_iff.mp hkey.valid
  have hform : w.checkRecordForm disk context = [] := by
    unfold checkRecordForm
    split
    · next hencrypted =>
      obtain ⟨hcrypted, hsecp, hmldsa⟩ := hrecord.crypted hencrypted
      rw [hrecord.encrypted] at hencrypted
      simp [hencrypted, hcrypted, hsecp, hmldsa]
    · next hno =>
      obtain ⟨hsecp, hmldsa⟩ := hrecord.plain (by simpa using hno)
      rw [hrecord.encrypted] at hno
      simp [hno, hsecp, hmldsa, hpriv]
  have hagainst : w.checkAgainstLoaded hybridID disk context = [] := by
    rw [checkAgainstLoaded, hloaded]
    simp only [append_eq_nil_iff, problemIf_eq_nil, hrecord.secpPub, hrecord.time, htime]
    refine ⟨⟨by simp, ?_⟩, by simp⟩
    cases hencrypted : disk.IsEncrypted with
    | true => rfl
    | false => simp [(hrecord.plain hencrypted).1]
  have hagree : w.checkAgainstCached hybridID disk context = [] := by
    unfold checkAgainstCached
    split
    · rfl
    · next cached hlookup => simp [hcached cached hlookup]
  have hmaterial : w.checkMaterial C hybridID disk context = [] := by
    unfold checkMaterial
    rw [materializeForCheck_eq_ok hkey hrecord htime, hrecord.secpPub, legacyIDOf_eq hlength,
      hloaded]
    simp [CHybridKey.GetKeyID, hkey.derives]
  rw [checkDiskRecord, hform, hagainst, hagree, hmaterial, hrecord.secpPub,
    checkLegacyRecord_eq_nil hlength hmemory, hrecord.checksum]
  simp

end

/-! ## The keys that were there before -/

theorem IsLocked_of_kept (h : LegacyKept C w w') : w'.IsLocked = w.IsLocked := by
  rw [IsLocked, IsLocked, h.crypto, h.master]

theorem IsCrypted_of_kept (h : LegacyKept C w w') : w'.IsCrypted = w.IsCrypted := h.crypto

theorem have_of_checkLegacyRecord (h : w.checkLegacyRecord C secpPub context = []) :
    secpPub.IsValid = true ∧ w.HaveKey (C.GetID secpPub) = true := by
  unfold checkLegacyRecord at h
  split at h
  · cases h
  · next hvalid =>
    split at h
    · cases h
    · next hhave => exact ⟨not_not.mp hvalid, not_not.mp hhave⟩

theorem checkLegacyRecord_kept (hkept : LegacyKept C w w')
    (h : w.checkLegacyRecord C secpPub context = []) :
    w'.checkLegacyRecord C secpPub context = [] := by
  obtain ⟨_, hhave⟩ := have_of_checkLegacyRecord h
  obtain ⟨hhave', hpub, _⟩ := hkept.memory _ hhave
  unfold checkLegacyRecord at h ⊢
  rw [hpub, hhave']
  rwa [hhave] at h

theorem checkLoadedKey_kept (hkept : LegacyKept C w w')
    (h : w.checkLoadedKey C hybridID hk = []) : w'.checkLoadedKey C hybridID hk = [] := by
  unfold checkLoadedKey at h ⊢
  simp only [append_eq_nil_iff] at h ⊢
  obtain ⟨⟨⟨⟨hlegacy, hsigner⟩, hprivate⟩, hkey⟩, hid⟩ := h
  obtain ⟨hvalid, hhave⟩ := have_of_checkLegacyRecord hlegacy
  have hlegacyID : legacyIDOf C hk.secpPub = C.GetID hk.secpPub := by
    rw [legacyIDOf, if_pos hvalid]
  obtain ⟨_, _, hget⟩ := hkept.memory _ hhave
  refine ⟨⟨⟨⟨checkLegacyRecord_kept hkept hlegacy, hsigner⟩, hprivate⟩, ?_⟩, hid⟩
  rw [hlegacyID] at hkey ⊢
  rwa [IsLocked_of_kept hkept, hget]

theorem checkDiskRecord_kept (hkept : LegacyKept C w w')
    (hloaded : w'.mapHybridKeys.lookup hybridID = w.mapHybridKeys.lookup hybridID)
    (hcached : w'.mapHybridKeyDisk.lookup hybridID = w.mapHybridKeyDisk.lookup hybridID)
    (h : w.checkDiskRecord C fDeep context fFromDatabase hybridID disk = []) :
    w'.checkDiskRecord C fDeep context fFromDatabase hybridID disk = [] := by
  have hform : w'.checkRecordForm disk context = w.checkRecordForm disk context := by
    unfold checkRecordForm
    rw [IsCrypted_of_kept hkept]
  have hagainst : w'.checkAgainstLoaded hybridID disk context =
      w.checkAgainstLoaded hybridID disk context := by
    unfold checkAgainstLoaded
    rw [hloaded]
  have hagree : w'.checkAgainstCached hybridID disk context =
      w.checkAgainstCached hybridID disk context := by
    unfold checkAgainstCached
    rw [hcached]
  have hmaterial : w'.checkMaterial C hybridID disk context =
      w.checkMaterial C hybridID disk context := by
    unfold checkMaterial materializeForCheck
    rw [IsCrypted_of_kept hkept, IsLocked_of_kept hkept, hkept.master, hloaded]
  unfold checkDiskRecord at h ⊢
  rw [hform, hagainst, hagree, hmaterial]
  simp only [append_eq_nil_iff] at h ⊢
  obtain ⟨⟨⟨⟨⟨hchecksum, hlegacy⟩, hrest₁⟩, hrest₂⟩, hrest₃⟩, hrest₄⟩ := h
  exact ⟨⟨⟨⟨⟨hchecksum, checkLegacyRecord_kept hkept hlegacy⟩, hrest₁⟩, hrest₂⟩, hrest₃⟩, hrest₄⟩

theorem ProperRecord.kept (h : ProperRecord C w hk disk) (hkept : LegacyKept C w w') :
    ProperRecord C w' hk disk where
  toRecordOf := by
    rw [hkept.master]
    exact h.toRecordOf
  encrypted := by rw [h.encrypted, IsCrypted_of_kept hkept]
  version := h.version
  crypted := h.crypted
  plain := h.plain

/-! ## A key joins -/

structure KeyAdded (C : KeyCrypto) (w w' : HybridWallet) (hybridID : CHybridKeyID)
    (hk : CHybridKey) : Prop where
  unlocked : w.IsLocked = false
  kept : LegacyKept C w w'
  storable : StorableKey C hybridID hk
  isNew : w.mapHybridKeys.lookup hybridID = none
  keys : w'.mapHybridKeys = w.mapHybridKeys.insert hybridID hk
  memory : LegacyInMemory C w' hk.secpPub hk.secpPriv
  file : w.fFileBacked = true → LegacyRecord C w' hk.secpPub hk.secpPriv ∧
    ∃ disk, w.MakeHybridKeyDisk C hk = some disk ∧
      w'.db.hyb = w.db.hyb.insert hybridID disk ∧
      w'.mapHybridKeyDisk =
        if w.IsCrypted then w.mapHybridKeyDisk.insert hybridID disk else w.mapHybridKeyDisk
  noFile : w.fFileBacked = false → w'.mapHybridKeyDisk = w.mapHybridKeyDisk

theorem KeyAdded.cached_lookup (h : KeyAdded C w w' hybridID hk) (hfile : w.fFileBacked = true)
    (hplain : w.IsCrypted = false → w.mapHybridKeyDisk = ∅) :
    ∃ disk, w.MakeHybridKeyDisk C hk = some disk ∧ w'.db.hyb = w.db.hyb.insert hybridID disk ∧
      ∀ id, w'.mapHybridKeyDisk.lookup id =
        if id = hybridID then (if w.IsCrypted then some disk else none)
        else w.mapHybridKeyDisk.lookup id := by
  obtain ⟨_, disk, hmade, hhyb, hrecords⟩ := h.file hfile
  refine ⟨disk, hmade, hhyb, ?_⟩
  intro id
  rw [hrecords]
  by_cases hcrypted : w.IsCrypted = true
  · rw [if_pos hcrypted, if_pos hcrypted, lookup_insert_ite]
  · rw [if_neg hcrypted, hplain (by simpa using hcrypted)]
    split <;> rfl

theorem KeyAdded.checked (hC : NonEmptyKeys C) (h : KeyAdded C w w' hybridID hk)
    (htime : toInt32 hk.nCreateTime = hk.nCreateTime)
    (hfree : w.fFileBacked = false → w.mapHybridKeyDisk = ∅) (hcheck : KeysChecked C fDeep w) :
    KeysChecked C fDeep w' := by
  have hloaded (id : CHybridKeyID) : w'.mapHybridKeys.lookup id =
      if id = hybridID then some hk else w.mapHybridKeys.lookup id := by
    rw [h.keys, lookup_insert_ite]
  have hself : w'.mapHybridKeys.lookup hybridID = some hk := by rw [hloaded, if_pos rfl]
  have hstays (id : CHybridKeyID) (hsome : (w.mapHybridKeys.lookup id).isSome = true) :
      (w'.mapHybridKeys.lookup id).isSome = true := by
    rw [hloaded]
    split
    · rfl
    · exact hsome
  refine ⟨?_, ?_, ?_, ?_, ?_, ?_, ?_⟩
  · intro id other hlookup
    rw [hloaded] at hlookup
    split at hlookup
    · next hid =>
      cases hlookup
      rw [hid]
      exact checkLoadedKey_eq_nil h.storable h.memory
    · exact checkLoadedKey_kept h.kept (hcheck.loaded id other hlookup)
  · intro hfile id record hlookup
    have hfile : w.fFileBacked = true := by rwa [h.kept.file] at hfile
    obtain ⟨disk, hmade, hhyb, hcached⟩ := h.cached_lookup hfile hcheck.plain
    rw [hhyb, lookup_insert_ite] at hlookup
    split at hlookup
    · next hid =>
      cases hlookup
      rw [hid, hself]
      have hproper := (properRecord_of_MakeHybridKeyDisk hC h.storable hmade).kept h.kept
      refine ⟨checkDiskRecord_eq_nil h.storable h.memory hproper htime hself ?_, Or.inl rfl⟩
      intro cached hlookup
      rw [hcached, if_pos rfl] at hlookup
      split at hlookup
      · exact (Option.some.inj hlookup).symm
      · cases hlookup
    · next hid =>
      obtain ⟨hrecord, hknown⟩ := hcheck.database hfile id record hlookup
      have hother := hcached id
      rw [if_neg hid] at hother
      refine ⟨checkDiskRecord_kept h.kept (by rw [hloaded, if_neg hid]) hother hrecord, ?_⟩
      rw [hother]
      exact hknown.imp (hstays id) fun hsome => hsome
  · intro hfile id other hlookup
    have hfile : w.fFileBacked = true := by rwa [h.kept.file] at hfile
    obtain ⟨disk, _, hhyb, _⟩ := h.cached_lookup hfile hcheck.plain
    rw [hhyb, lookup_insert_ite]
    rw [hloaded] at hlookup
    split at hlookup
    · next hid =>
      rw [if_pos hid]
      rfl
    · next hid =>
      rw [if_neg hid]
      exact hcheck.stored hfile id other hlookup
  · intro hfile id record hlookup
    have hfile : w.fFileBacked = true := by rwa [h.kept.file] at hfile
    obtain ⟨disk, _, hhyb, hcached⟩ := h.cached_lookup hfile hcheck.plain
    rw [hhyb, lookup_insert_ite]
    rw [hcached] at hlookup
    split at hlookup
    · next hid =>
      rw [if_pos hid]
      rfl
    · next hid =>
      rw [if_neg hid]
      exact hcheck.cached hfile id record hlookup
  · intro hfile id record hlookup
    have hfile : w.fFileBacked = false := by rwa [h.kept.file] at hfile
    rw [h.noFile hfile, hfree hfile] at hlookup
    cases hlookup
  · intro hplain
    have hplain : w.IsCrypted = false := by rwa [IsCrypted_of_kept h.kept] at hplain
    cases hfile : w.fFileBacked with
    | false => rw [h.noFile hfile, hcheck.plain hplain]
    | true =>
      obtain ⟨_, disk, _, _, hrecords⟩ := h.file hfile
      rw [hrecords, if_neg (by simp [hplain]), hcheck.plain hplain]
  · intro hlocked
    rw [IsLocked_of_kept h.kept, h.unlocked] at hlocked
    cases hlocked

end Phoenixcoin.Analysis
