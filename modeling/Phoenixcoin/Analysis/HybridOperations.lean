import Phoenixcoin.Analysis.AtRestRecords
import Phoenixcoin.Lib.Run
import Phoenixcoin.Program.WalletEncryption

/-!
# What the operations on hybrid keys do

One lemma for each operation says what a success means: which keys are built, that they can be
stored, and how memory and the database change. The later proofs use these and do not unfold the
operations.
-/

set_option autoImplicit false

namespace Phoenixcoin.Analysis

open Lib Program List Option HybridWallet CKeyStore

variable {C : KeyCrypto} {o : WalletDbOutcome} {w w' : HybridWallet}

/-! ## Legacy keys -/

def KeyPair (C : KeyCrypto) (key : CKey) : Prop :=
  C.ecPubKey key.vchSecret = some key.vchPubKey

variable {key : CKey} {hk : CHybridKey} {keyID : CKeyID} {cryptedSecret : valtype}
  {hybridID : CHybridKeyID} {entry : StagedHybridKey} {fAlwaysPersist : Bool}
  {fresh : List (Option (FreshKey C))} {staged : List StagedHybridKey} {db : WalletRecords}
  {disk : Option CHybridKeyDisk} {r : HybridImport}

theorem keyPair_of_SetSecret {secret : CSecret} {fCompressed : Bool}
    (h : C.SetSecret secret fCompressed = some key) : KeyPair C key ∧ key.vchSecret = secret := by
  obtain ⟨pubKey, hpub, rfl⟩ := map_eq_some_iff.mp h
  exact ⟨hpub, rfl⟩

theorem KeyPair.length (h : KeyPair C key) :
    key.vchSecret.length = 32 ∧ key.vchPubKey.length = 33 :=
  C.length_ecPubKey _ _ h

theorem GetCKey_eq_some (h : hk.GetCKey C = some key) :
    C.SetPrivKey hk.secpPriv = some key ∧ key.vchPubKey = hk.secpPub := by
  obtain ⟨hset, hpub⟩ := filter_eq_some_iff.mp h
  exact ⟨hset, by simpa using hpub⟩

theorem keyPair_of_SetPrivKey {priv : CPrivKey} (h : C.SetPrivKey priv = some key) :
    KeyPair C key := by
  unfold KeyCrypto.SetPrivKey at h
  split at h
  · exact (keyPair_of_SetSecret h).1
  · obtain ⟨secret, _, hset⟩ := bind_eq_some_iff.mp h
    exact (keyPair_of_SetSecret hset).1

theorem vchSecret_of_GetCKey (hlength : hk.secpPriv.length = 32) (h : hk.GetCKey C = some key) :
    key.vchSecret = hk.secpPriv := by
  have hset := (GetCKey_eq_some h).1
  rw [KeyCrypto.SetPrivKey, if_pos hlength] at hset
  exact (keyPair_of_SetSecret hset).2

/-- A key that `GetKey` returns is a pair. -/
theorem keyPair_of_GetKey (h : w.toCKeyStore.GetKey C keyID = some key) : KeyPair C key := by
  unfold GetKey at h
  split at h
  · obtain ⟨⟨pubKey, crypted⟩, _, h⟩ := bind_eq_some_iff.mp h
    obtain ⟨secret, _, h⟩ := bind_eq_some_iff.mp h
    split at h
    · exact (keyPair_of_SetSecret h).1
    · cases h
  · obtain ⟨⟨secret, fCompressed⟩, _, h⟩ := bind_eq_some_iff.mp h
    exact (keyPair_of_SetSecret h).1

/-- A locked wallet gives no key away. -/
theorem isLocked_of_GetKey (h : w.toCKeyStore.GetKey C keyID = some key) : w.IsLocked = false := by
  by_contra hne
  have hlocked : w.fUseCrypto = true ∧ w.vMasterKey = [] := by
    unfold IsLocked at hne
    simpa using hne
  rw [GetKey, if_pos hlocked.1] at h
  simp [KeyCrypto.DecryptSecret, hlocked.2, WALLET_CRYPTO_KEY_SIZE] at h

/-! ## Emplacing -/

variable {K V : Type} {nTime : ℤ} {ok : Bool} {ecdsa : CKey}

theorem lookup_emplace [DecidableEq K] (k k' : K) (v : V) (t : Table K V) :
    (emplace k v t).lookup k' = (t.lookup k').or (if k' = k then some v else none) := by
  unfold emplace
  by_cases hsome : (t.lookup k).isSome = true
  · rw [if_pos hsome]
    by_cases hk : k' = k
    · obtain ⟨old, hold⟩ := isSome_iff_exists.mp hsome
      rw [hk, hold, some_or]
    · rw [if_neg hk, or_none]
  · rw [if_neg hsome, Table.lookup_insert_ite]
    by_cases hk : k' = k
    · have hnone : t.lookup k = none := by simpa using hsome
      rw [if_pos hk, if_pos hk, hk, hnone, none_or]
    · rw [if_neg hk, if_neg hk, or_none]

theorem lookup_emplace_eq_some [DecidableEq K] {k k' : K} {v v' : V} {t : Table K V}
    (h : (emplace k v t).lookup k' = some v') : t.lookup k' = some v' ∨ k' = k ∧ v' = v := by
  rw [lookup_emplace] at h
  rcases or_eq_some_iff.mp h with hold | ⟨-, hnew⟩
  · exact Or.inl hold
  · split at hnew
    · next hsame => exact Or.inr ⟨hsame, (Option.some.inj hnew).symm⟩
    · cases hnew

/-! ## What joining a wallet leaves alone -/

section Frames

variable (C : KeyCrypto) (w : HybridWallet) (key : CKey) (keyMeta : CKeyMetadata)
  (cryptedSecret : valtype)

@[simp]
theorem addLegacyKey_fUseCrypto :
    (w.addLegacyKey C key keyMeta cryptedSecret).fUseCrypto = w.fUseCrypto := by
  unfold addLegacyKey
  split_ifs <;> rfl

@[simp]
theorem addLegacyKey_vMasterKey :
    (w.addLegacyKey C key keyMeta cryptedSecret).vMasterKey = w.vMasterKey := by
  unfold addLegacyKey
  split_ifs <;> rfl

@[simp]
theorem addLegacyKey_fFileBacked :
    (w.addLegacyKey C key keyMeta cryptedSecret).fFileBacked = w.fFileBacked := by
  unfold addLegacyKey
  split_ifs <;> rfl

@[simp]
theorem addLegacyKey_mapHybridKeys :
    (w.addLegacyKey C key keyMeta cryptedSecret).mapHybridKeys = w.mapHybridKeys := by
  unfold addLegacyKey
  split_ifs <;> rfl

@[simp]
theorem addLegacyKey_mapHybridKeyDisk :
    (w.addLegacyKey C key keyMeta cryptedSecret).mapHybridKeyDisk = w.mapHybridKeyDisk := by
  unfold addLegacyKey
  split_ifs <;> rfl

@[simp]
theorem addLegacyKey_mapMasterKeys :
    (w.addLegacyKey C key keyMeta cryptedSecret).mapMasterKeys = w.mapMasterKeys := by
  unfold addLegacyKey
  split_ifs <;> rfl

@[simp]
theorem addLegacyKey_db : (w.addLegacyKey C key keyMeta cryptedSecret).db = w.db := by
  unfold addLegacyKey
  split_ifs <;> rfl

theorem addLegacyKey_mapCryptedKeys :
    (w.addLegacyKey C key keyMeta cryptedSecret).mapCryptedKeys =
      if w.IsCrypted then
        w.mapCryptedKeys.insert (C.GetID key.vchPubKey) (key.vchPubKey, cryptedSecret)
      else w.mapCryptedKeys := by
  unfold addLegacyKey
  split_ifs <;> rfl

theorem addLegacyKey_mapKeys :
    (w.addLegacyKey C key keyMeta cryptedSecret).mapKeys =
      if w.IsCrypted then w.mapKeys
      else w.mapKeys.insert (C.GetID key.vchPubKey) (key.vchSecret, key.fCompressedPubKey) := by
  unfold addLegacyKey
  split_ifs <;> rfl

/-- The key that is added is the only one that is new. -/
theorem HaveKey_addLegacyKey (keyID : CKeyID) :
    (w.addLegacyKey C key keyMeta cryptedSecret).HaveKey keyID =
      (decide (keyID = C.GetID key.vchPubKey) || w.HaveKey keyID) := by
  unfold HaveKey
  rw [addLegacyKey_fUseCrypto, addLegacyKey_mapCryptedKeys, addLegacyKey_mapKeys,
    IsCrypted]
  by_cases hcrypt : w.fUseCrypto = true
  · simp only [if_pos hcrypt]
    rw [Table.lookup_insert_ite]
    by_cases hid : keyID = C.GetID key.vchPubKey <;> simp [hid]
  · simp only [if_neg hcrypt]
    rw [Table.lookup_insert_ite]
    by_cases hid : keyID = C.GetID key.vchPubKey <;> simp [hid]

end Frames

/-- What `EncryptKeySecret` makes in an unlocked wallet. -/
theorem EncryptKeySecret_eq_some (h : w.EncryptKeySecret C key = some cryptedSecret) :
    w.IsCrypted = true ∧ w.IsLocked = false ∧
      C.EncryptSecret w.vMasterKey key.vchSecret (C.Hash key.vchPubKey) = some cryptedSecret := by
  unfold EncryptKeySecret at h
  split at h
  · cases h
  · next hstate =>
    have hstate := not_or.mp hstate
    exact ⟨by simpa using hstate.1, by simpa using hstate.2, h⟩

/-! ## Keys that are built -/

theorem storableKey_hybridKeyOf {pkey : EVP_PKEY} (hpair : KeyPair C key)
    (hpkey : C.d2iMLDSA pkey = some pkey)
    (hvalid : (hybridKeyOf key pkey nTime).Validate C = true)
    (hid : (hybridKeyOf key pkey nTime).GetHybridID C = some hybridID) :
    StorableKey C hybridID (hybridKeyOf key pkey nTime) where
  valid := hvalid
  derives := hid
  signer := by
    intro other hother
    cases hother
    exact hpkey
  fits := by
    change key.vchSecret.length ≤ MAX_SIZE
    rw [hpair.length.1]
    decide

/-- A staged key that can join the wallet `w`. -/
structure Joining (C : KeyCrypto) (w : HybridWallet) (entry : StagedHybridKey) : Prop where
  storable : StorableKey C entry.hybridID entry.key
  length : entry.key.secpPriv.length = 32
  ecdsa : entry.key.GetCKey C = some entry.ecdsa
  crypted : entry.fPersistKey = true → w.IsCrypted = true →
    w.EncryptKeySecret C entry.ecdsa = some entry.cryptedSecret
  disk : w.MakeHybridKeyDisk C entry.key = some entry.disk
  known : entry.fPersistKey = false → w.HaveKey (C.GetID entry.ecdsa.vchPubKey) = true
  metadata : entry.metadata = .ofTime entry.key.nCreateTime

theorem buildPoolKey_eq_some {fresh : FreshKey C}
    (h : w.buildPoolKey C fAlwaysPersist fresh = some entry) :
    Joining C w entry ∧ entry.key = GenerateHybridKey C fresh ∧
      (fAlwaysPersist = true → entry.fPersistKey = true) := by
  unfold buildPoolKey at h
  dsimp only at h
  split at h
  · next hvalid =>
    obtain ⟨hybridID, hid, h⟩ := bind_eq_some_iff.mp h
    obtain ⟨ecdsa, hecdsa, h⟩ := bind_eq_some_iff.mp h
    obtain ⟨cryptedSecret, hcrypted, h⟩ := bind_eq_some_iff.mp h
    obtain ⟨disk, hdisk, h⟩ := bind_eq_some_iff.mp h
    cases h
    have hpair := (keyPair_of_SetSecret fresh.set).1
    refine ⟨?_, rfl, ?_⟩
    · refine ⟨storableKey_hybridKeyOf hpair fresh.generated hvalid hid, hpair.length.1, hecdsa,
        ?_, hdisk, ?_, rfl⟩
      · intro hpersist hcrypt
        unfold cryptedSecretOf at hcrypted
        rwa [if_pos ⟨hpersist, hcrypt⟩] at hcrypted
      · simp
    · intro halways
      simp [halways]
  · cases h

theorem buildPoolKeys_eq_some (h : w.buildPoolKeys C fAlwaysPersist fresh = some staged) :
    List.Forall₂ (fun f entry => ∃ fresh, f = some fresh ∧ Joining C w entry ∧
      entry.key = GenerateHybridKey C fresh ∧
      (fAlwaysPersist = true → entry.fPersistKey = true)) fresh staged := by
  induction fresh generalizing staged with
  | nil =>
    cases h
    exact List.Forall₂.nil
  | cons f fresh ih =>
    obtain ⟨generated, hf, h⟩ := bind_eq_some_iff.mp h
    obtain ⟨entry, hentry, h⟩ := bind_eq_some_iff.mp h
    obtain ⟨rest, hrest, h⟩ := bind_eq_some_iff.mp h
    cases h
    obtain ⟨hjoin, hkey, hpersist⟩ := buildPoolKey_eq_some hentry
    exact List.Forall₂.cons ⟨generated, hf, hjoin, hkey, hpersist⟩ (ih hrest)

theorem exists_fresh_of_mem (h : w.buildPoolKeys C fAlwaysPersist fresh = some staged)
    (hentry : entry ∈ staged) :
    ∃ f, some f ∈ fresh ∧ Joining C w entry ∧ entry.key = GenerateHybridKey C f ∧
      (fAlwaysPersist = true → entry.fPersistKey = true) := by
  have hbuilt := buildPoolKeys_eq_some h
  clear h
  induction hbuilt with
  | nil => cases hentry
  | cons hfirst _ ih =>
    rcases mem_cons.mp hentry with rfl | hentry
    · obtain ⟨f, rfl, hjoin⟩ := hfirst
      exact ⟨f, mem_cons_self, hjoin⟩
    · obtain ⟨f, hf, hjoin⟩ := ih hentry
      exact ⟨f, mem_cons_of_mem _ hf, hjoin⟩

/-- What a success of a pool means. -/
theorem makePool_eq_some {fUnused : Bool}
    (h : w.makePool C o fAlwaysPersist fUnused fresh = some w') :
    ∃ staged db, w.buildPoolKeys C fAlwaysPersist fresh = some staged ∧
      (if w.fFileBacked then o.transaction (w.stagePool C o staged) w.db else some w.db) = some db ∧
      w' = staged.foldl (registerPoolKey C fUnused) { w with db := db } := by
  obtain ⟨staged, hstaged, h⟩ := bind_eq_some_iff.mp h
  obtain ⟨db, hdb, h⟩ := map_eq_some_iff.mp h
  exact ⟨staged, db, hstaged, hdb, h.symm⟩

/-- The two ways a pool operation ends. -/
theorem NewHybridKeyPool_cases (fresh : List (Option (FreshKey C))) :
    w.NewHybridKeyPool C o fresh = w ∨
      w.IsLocked = false ∧
        w.makePool C o true false fresh = some (w.NewHybridKeyPool C o fresh) := by
  unfold NewHybridKeyPool
  split
  · exact Or.inl rfl
  · next hlocked =>
    cases hmake : w.makePool C o true false fresh with
    | none => exact Or.inl rfl
    | some made =>
      right
      refine ⟨?_, rfl⟩
      by_contra hne
      have hlock : w.IsLocked = true := by simpa using hne
      have hcrypted : w.IsCrypted = true := by
        exact (Bool.and_eq_true_iff.mp hlock).1
      exact hlocked ⟨hcrypted, hlock⟩

theorem EnsureHybridKeyPool_cases {nTarget : ℕ} (fresh : ℕ → Option (FreshKey C))
    (h : w.EnsureHybridKeyPool C o nTarget fresh = (ok, w')) :
    w' = w ∨ ok = true ∧ w.IsLocked = false ∧ w.makePool C o false true
      ((List.range (nTarget - w.mapHybridKeys.keys.card)).map fresh) = some w' := by
  unfold EnsureHybridKeyPool at h
  split at h
  · cases h
    exact Or.inl rfl
  · next hlocked =>
    split at h
    · cases h
      exact Or.inl rfl
    · split at h
      · next made hmake =>
        cases h
        exact Or.inr ⟨rfl, by simpa using hlocked, hmake⟩
      · cases h
        exact Or.inl rfl

/-! ## Keys of a pool that join -/

section Congruence

variable (hcrypt : w'.fUseCrypto = w.fUseCrypto) (hmaster : w'.vMasterKey = w.vMasterKey)

include hcrypt hmaster

theorem IsLocked_congr : w'.IsLocked = w.IsLocked := by
  rw [IsLocked, IsLocked, hcrypt, hmaster]

theorem MakeHybridKeyDisk_congr (hk : CHybridKey) :
    w'.MakeHybridKeyDisk C hk = w.MakeHybridKeyDisk C hk := by
  unfold MakeHybridKeyDisk
  rw [IsLocked_congr hcrypt hmaster, IsCrypted, IsCrypted, hcrypt, hmaster]

theorem cryptedSecretOf_congr (fPersistKey : Bool) (ecdsa : CKey) :
    w'.cryptedSecretOf C fPersistKey ecdsa = w.cryptedSecretOf C fPersistKey ecdsa := by
  unfold cryptedSecretOf EncryptKeySecret
  rw [IsLocked_congr hcrypt hmaster, IsCrypted, IsCrypted, hcrypt, hmaster]

end Congruence

variable (fUnused : Bool)

theorem registerPoolKey_fUseCrypto (entry : StagedHybridKey) :
    (registerPoolKey C fUnused w entry).fUseCrypto = w.fUseCrypto := by
  unfold registerPoolKey addHybridKey
  split_ifs <;> simp

theorem registerPoolKey_vMasterKey (entry : StagedHybridKey) :
    (registerPoolKey C fUnused w entry).vMasterKey = w.vMasterKey := by
  unfold registerPoolKey addHybridKey
  split_ifs <;> simp

theorem registerPoolKey_mapHybridKeys (entry : StagedHybridKey) :
    (registerPoolKey C fUnused w entry).mapHybridKeys =
      emplace entry.hybridID entry.key w.mapHybridKeys := by
  unfold registerPoolKey addHybridKey
  split_ifs <;> simp

theorem HaveKey_registerPoolKey (entry : StagedHybridKey) (h : w.HaveKey keyID = true) :
    (registerPoolKey C fUnused w entry).HaveKey keyID = true := by
  have hadded : (w.addLegacyKey C entry.ecdsa entry.metadata entry.cryptedSecret).HaveKey keyID =
      true := by
    rw [HaveKey_addLegacyKey, h, Bool.or_true]
  unfold registerPoolKey
  by_cases hpersist : entry.fPersistKey = true
  · rw [if_pos hpersist]
    exact hadded
  · rw [if_neg hpersist]
    exact h

theorem Joining.registerPoolKey {other : StagedHybridKey} (h : Joining C w entry) (fUnused : Bool) :
    Joining C (registerPoolKey C fUnused w other) entry where
  storable := h.storable
  length := h.length
  ecdsa := h.ecdsa
  crypted := by
    intro hpersist hcrypt
    have hcrypt : w.IsCrypted = true := by
      rwa [IsCrypted, registerPoolKey_fUseCrypto] at hcrypt
    have hsecret := h.crypted hpersist hcrypt
    unfold EncryptKeySecret at hsecret ⊢
    rwa [IsLocked_congr (registerPoolKey_fUseCrypto ..) (registerPoolKey_vMasterKey ..),
      IsCrypted, registerPoolKey_fUseCrypto, registerPoolKey_vMasterKey]
  disk := by
    rw [MakeHybridKeyDisk_congr (registerPoolKey_fUseCrypto ..) (registerPoolKey_vMasterKey ..)]
    exact h.disk
  known := fun hpersist => HaveKey_registerPoolKey fUnused other (h.known hpersist)
  metadata := h.metadata

theorem Joining.withDb (h : Joining C w entry) (db : WalletRecords) :
    Joining C { w with db := db } entry :=
  ⟨h.storable, h.length, h.ecdsa, h.crypted, h.disk, h.known, h.metadata⟩

def freshIDs (C : KeyCrypto) (fresh : List (Option (FreshKey C))) : List CHybridKeyID :=
  fresh.filterMap fun f => f.bind fun f => (GenerateHybridKey C f).GetHybridID C

structure NewPoolIDs (C : KeyCrypto) (w : HybridWallet) (fresh : List (Option (FreshKey C))) :
    Prop where
  nodup : (freshIDs C fresh).Nodup
  isNew : ∀ hybridID ∈ freshIDs C fresh, w.mapHybridKeys.lookup hybridID = none

theorem map_hybridID_eq (h : w.buildPoolKeys C fAlwaysPersist fresh = some staged) :
    staged.map StagedHybridKey.hybridID = freshIDs C fresh := by
  have hbuilt := buildPoolKeys_eq_some h
  clear h
  induction hbuilt with
  | nil => rfl
  | cons hentry _ ih =>
    obtain ⟨f, rfl, hjoin, hkey, _⟩ := hentry
    have hid := hjoin.storable.derives
    rw [hkey] at hid
    rw [map_cons, ih, freshIDs, freshIDs]
    simp [hid]

/-! ## EnsureHybridKey -/

/-- A success of `EnsureHybridKey` that makes a key. -/
structure EnsuredKey (C : KeyCrypto) (o : WalletDbOutcome) (w : HybridWallet) (keyID : CKeyID)
    (key : CKey) (pkey : EVP_PKEY) (nTime : ℤ) (hybridID : CHybridKeyID)
    (disk : Option CHybridKeyDisk) (db : WalletRecords) : Prop where
  unknown : w.GetHybridKeyIDByLegacyKeyID C keyID = none
  found : w.toCKeyStore.GetKey C keyID = some key
  valid : (hybridKeyOf key pkey nTime).Validate C = true
  derives : (hybridKeyOf key pkey nTime).GetHybridID C = some hybridID
  persist : w.persistHybridKey C o keyID key (hybridKeyOf key pkey nTime) =
    some (disk, db)

theorem EnsureHybridKey_cases {pkey : Option EVP_PKEY}
    (h : w.EnsureHybridKey C o pkey nTime keyID = (ok, w')) :
    w' = w ∨ ok = true ∧ ∃ key p hybridID disk db, pkey = some p ∧
      EnsuredKey C o w keyID key p nTime hybridID disk db ∧
      w' = ({ w with db := db } : HybridWallet).addHybridKey hybridID
        (hybridKeyOf key p nTime) disk := by
  unfold EnsureHybridKey at h
  split at h
  · cases h
    exact Or.inl rfl
  · next hunknown =>
    split at h
    · next made hmake =>
      cases h
      obtain ⟨p, hp, hmake⟩ := bind_eq_some_iff.mp hmake
      obtain ⟨key, hkey, hmake⟩ := bind_eq_some_iff.mp hmake
      dsimp only at hmake
      split at hmake
      · next hvalid =>
        obtain ⟨hybridID, hid, hmake⟩ := bind_eq_some_iff.mp hmake
        obtain ⟨⟨disk, db⟩, hpersist, hmake⟩ := bind_eq_some_iff.mp hmake
        cases hmake
        exact Or.inr ⟨rfl, key, p, hybridID, disk, db, hp,
          ⟨by simpa using hunknown, hkey, hvalid, hid, hpersist⟩, rfl⟩
      · cases hmake
    · cases h
      exact Or.inl rfl

theorem persistHybridKey_eq_some (hfile : w.fFileBacked = true) (hunlocked : w.IsLocked = false)
    (h : w.persistHybridKey C o keyID key hk = some (disk, db)) :
    ∃ made vchCryptedSecret, disk = some made ∧ w.MakeHybridKeyDisk C hk = some made ∧
      w.cryptedSecretOf C true key = some vchCryptedSecret ∧
      o.transaction (w.StageHybridKey C o hk key made
        ((w.mapKeyMetadata.lookup keyID).getD (.ofTime hk.nCreateTime)) vchCryptedSecret true)
        w.db = some db := by
  rw [persistHybridKey, if_pos ⟨hfile, Or.inr (by simp [hunlocked])⟩] at h
  obtain ⟨made, hmade, h⟩ := bind_eq_some_iff.mp h
  obtain ⟨vchCryptedSecret, hcrypted, h⟩ := bind_eq_some_iff.mp h
  obtain ⟨db', hdb, h⟩ := bind_eq_some_iff.mp h
  cases h
  exact ⟨made, vchCryptedSecret, rfl, hmade, hcrypted, hdb⟩

/-! ## Import -/

structure ImportedKey (C : KeyCrypto) (o : WalletDbOutcome) (w : HybridWallet)
    (r : HybridImport) (hybridID : CHybridKeyID) (hk : CHybridKey) (ecdsa : CKey)
    (cryptedSecret : valtype) (disk : Option CHybridKeyDisk) (db : WalletRecords) : Prop where
  unlocked : ¬ (w.IsCrypted = true ∧ w.IsLocked = true)
  made : ∃ secret fCompressed key pkey, r.vchSecret = some (secret, fCompressed) ∧
    C.SetSecret secret fCompressed = some key ∧ C.d2iMLDSA pkey = some pkey ∧
    hk = hybridKeyOf key pkey r.nCreateTime
  valid : hk.Validate C = true
  derives : hk.GetHybridID C = some hybridID
  isNew : w.mapHybridKeys.lookup hybridID = none
  legacy : hk.GetCKey C = some ecdsa
  crypted : w.cryptedSecretOf C (! w.HaveKey (C.GetID ecdsa.vchPubKey)) ecdsa = some cryptedSecret
  persist : w.persistImport C o r hybridID hk ecdsa cryptedSecret
    (! w.HaveKey (C.GetID ecdsa.vchPubKey)) = .ok (disk, db)

theorem importedKey_eq_ok (h : w.importedKey C r = .ok hk) :
    ¬ (w.IsCrypted = true ∧ w.IsLocked = true) ∧ hk.Validate C = true ∧
      ∃ secret fCompressed key pkey, r.vchSecret = some (secret, fCompressed) ∧
        C.SetSecret secret fCompressed = some key ∧ C.d2iMLDSA pkey = some pkey ∧
        hk = hybridKeyOf key pkey r.nCreateTime := by
  unfold importedKey at h
  split at h
  · cases h
  · next key hkey =>
    split at h
    · cases h
    · next der hder =>
      split at h
      · cases h
      · next pkey hpkey =>
        dsimp only at h
        split at h
        · cases h
        · next hunlocked =>
          split at h
          · next hvalid =>
            cases h
            obtain ⟨⟨secret, fCompressed⟩, hsecret, hset⟩ := bind_eq_some_iff.mp hkey
            exact ⟨hunlocked, hvalid, secret, fCompressed, key, pkey, hsecret, hset,
              C.d2iMLDSA_i2d _ _ hpkey, rfl⟩
          · cases h

theorem elim_eq_ok {E A : Type} {x : Option A} {e : E} {a : A}
    (h : x.elim (.error e) .ok = (.ok a : Except E A)) : x = some a := by
  cases x with
  | none => cases h
  | some b =>
    cases h
    rfl

theorem ImportHybridKeyFromComponents_eq_ok
    (h : w.ImportHybridKeyFromComponents C o r = .ok (hybridID, w')) :
    ∃ hk ecdsa cryptedSecret disk db,
      ImportedKey C o w r hybridID hk ecdsa cryptedSecret disk db ∧
      w' = w.registerImport C r hybridID hk ecdsa cryptedSecret
        (! w.HaveKey (C.GetID ecdsa.vchPubKey)) disk db := by
  obtain ⟨hk, hkey, h⟩ := except_bind_eq_ok.mp h
  obtain ⟨id, hid, h⟩ := except_bind_eq_ok.mp h
  have hid := elim_eq_ok hid
  split at h
  · cases h
  · next hnew =>
    obtain ⟨ecdsa, hecdsa, h⟩ := except_bind_eq_ok.mp h
    obtain ⟨cryptedSecret, hcrypted, h⟩ := except_bind_eq_ok.mp h
    obtain ⟨⟨disk, db⟩, hpersist, h⟩ := except_bind_eq_ok.mp h
    cases h
    obtain ⟨hunlocked, hvalid, hpair⟩ := importedKey_eq_ok hkey
    exact ⟨hk, ecdsa, cryptedSecret, disk, db, ⟨hunlocked, hpair, hvalid, hid,
      by simpa using hnew, elim_eq_ok hecdsa, elim_eq_ok hcrypted, hpersist⟩, rfl⟩

theorem ImportedKey.isLocked (h : ImportedKey C o w r hybridID hk ecdsa cryptedSecret disk db) :
    w.IsLocked = false := by
  by_contra hne
  have hlocked : w.IsLocked = true := by simpa using hne
  have hcrypted : w.IsCrypted = true := by
    exact (Bool.and_eq_true_iff.mp hlocked).1
  exact h.unlocked ⟨hcrypted, hlocked⟩

/-- In a wallet with a file the two halves are stored. -/
theorem persistImport_eq_ok {fPersistKey : Bool} (hfile : w.fFileBacked = true)
    (h : w.persistImport C o r hybridID hk ecdsa cryptedSecret fPersistKey = .ok (disk, db)) :
    ∃ made, disk = some made ∧ w.MakeHybridKeyDisk C hk = some made ∧
      o.transaction (w.stageImport C o r ⟨hybridID, hk, made, ecdsa, .ofTime hk.nCreateTime,
        cryptedSecret, fPersistKey⟩) w.db = some db := by
  rw [persistImport, if_pos hfile] at h
  split at h
  · cases h
  · next made hmade =>
    dsimp only at h
    split at h
    · cases h
    · split at h
      · cases h
      · next db' hdb =>
        cases h
        exact ⟨made, rfl, hmade, hdb⟩

/-! ## The operations that make keys -/

/-- One operation that makes hybrid keys, with what it gets from outside. -/
inductive HybridKeyOp (C : KeyCrypto) where
  | newHybridKeyPool (o : WalletDbOutcome) (fresh : List (Option (FreshKey C)))
  | ensureHybridKeyPool (o : WalletDbOutcome) (nTarget : ℕ) (fresh : ℕ → Option (FreshKey C))
  | ensureHybridKey (o : WalletDbOutcome) (pkey : Option { pkey // C.d2iMLDSA pkey = some pkey })
      (nTime : ℤ) (keyID : CKeyID)
  | importHybridKey (o : WalletDbOutcome) (r : HybridImport)

def importResult (w : HybridWallet) :
    Except ImportError (CHybridKeyID × HybridWallet) → Bool × HybridWallet
  | .ok (_, w') => (true, w')
  | .error _ => (false, w)

namespace HybridKeyOp

/-- Whether an operation succeeds, and the wallet after it. `NewHybridKeyPool` tells its caller
nothing. -/
def run (w : HybridWallet) : HybridKeyOp C → Bool × HybridWallet
  | newHybridKeyPool o fresh => (true, w.NewHybridKeyPool C o fresh)
  | ensureHybridKeyPool o nTarget fresh => w.EnsureHybridKeyPool C o nTarget fresh
  | ensureHybridKey o pkey nTime keyID =>
    w.EnsureHybridKey C o (pkey.map Subtype.val) nTime keyID
  | importHybridKey o r => importResult w (w.ImportHybridKeyFromComponents C o r)

def Makes (w w' : HybridWallet) : HybridKeyOp C → Prop
  | newHybridKeyPool o fresh => w.IsLocked = false ∧ w.makePool C o true false fresh = some w'
  | ensureHybridKeyPool o nTarget fresh => w.IsLocked = false ∧ w.makePool C o false true
      ((List.range (nTarget - w.mapHybridKeys.keys.card)).map fresh) = some w'
  | ensureHybridKey o pkey nTime keyID => ∃ key p hybridID disk db, pkey = some p ∧
      EnsuredKey C o w keyID key p.val nTime hybridID disk db ∧
      w' = ({ w with db := db } : HybridWallet).addHybridKey hybridID
        (hybridKeyOf key p.val nTime) disk
  | importHybridKey o r => ∃ hybridID hk ecdsa cryptedSecret disk db,
      ImportedKey C o w r hybridID hk ecdsa cryptedSecret disk db ∧
      w' = w.registerImport C r hybridID hk ecdsa cryptedSecret
        (! w.HaveKey (C.GetID ecdsa.vchPubKey)) disk db

theorem run_cases {op : HybridKeyOp C} {ok : Bool} (h : op.run w = (ok, w')) :
    w' = w ∨ ok = true ∧ op.Makes w w' := by
  cases op with
  | newHybridKeyPool o fresh =>
    cases h
    rcases NewHybridKeyPool_cases (o := o) fresh with hsame | hmade
    · exact Or.inl hsame
    · exact Or.inr ⟨rfl, hmade⟩
  | ensureHybridKeyPool o nTarget fresh => exact EnsureHybridKeyPool_cases fresh h
  | ensureHybridKey o pkey nTime keyID =>
    rcases EnsureHybridKey_cases h with hsame | ⟨hok, key, p, hybridID, disk, db, hpkey, hmade⟩
    · exact Or.inl hsame
    · obtain ⟨signer, hsigner, rfl⟩ := map_eq_some_iff.mp hpkey
      exact Or.inr ⟨hok, key, signer, hybridID, disk, db, hsigner, hmade⟩
  | importHybridKey o r =>
    have h : importResult w (w.ImportHybridKeyFromComponents C o r) = (ok, w') := h
    cases hresult : w.ImportHybridKeyFromComponents C o r with
    | error e =>
      rw [hresult] at h
      cases h
      exact Or.inl rfl
    | ok result =>
      rw [hresult] at h
      cases h
      exact Or.inr ⟨rfl, result.1, ImportHybridKeyFromComponents_eq_ok hresult⟩

end HybridKeyOp

/-! ## A new wallet and a key for it -/

def newHybridWallet : HybridWallet where
  fUseCrypto := false
  vMasterKey := []
  mapKeys := ∅
  mapCryptedKeys := ∅
  mapScripts := ∅
  setWatchOnly := ∅
  mapHybridKeys := ∅
  mapHybridKeyDisk := ∅
  fFileBacked := true
  mapKeyMetadata := ∅
  setUsedHybridKeys := ∅
  setUnusedHybridKeys := ∅
  mapHybridAddressBook := ∅
  mapMasterKeys := ∅
  nMasterKeyMaxID := 0
  pwalletdbEncryption := false
  setKeyPool := ∅
  mapWallet := ∅
  db := ⟨∅, ∅, ∅, ∅, ∅, ∅, none, ∅, ∅⟩

/-- The import of a key that was made at a given time. -/
def importRequest (nCreateTime : ℤ) : HybridImport where
  vchSecret := some (List.replicate 32 1, true)
  mldsaPriv := some [9]
  strLabel := []
  nCreateTime
  nNow := 1

/-! ## The encryption of the wallet -/

section Encryption

variable {C : PassphraseCrypto} {vMasterKey : CKeyingMaterial}

/-- One legacy key is encrypted. -/
theorem encryptKey_eq_some {address : CKeyID} (h : w.encryptKey C o vMasterKey address = some w') :
    ∃ secret fCompressed pubKey crypted keyMeta db,
      w.mapKeys.lookup address = some (secret, fCompressed) ∧
      C.ecPubKey secret = some pubKey ∧
      C.EncryptSecret vMasterKey secret (C.Hash pubKey) = some crypted ∧
      (if w.fFileBacked then o.WriteCryptedKey pubKey crypted keyMeta w.db else some w.db) =
        some db ∧
      w' = { w with
        mapCryptedKeys := w.mapCryptedKeys.insert (C.GetID pubKey) (pubKey, crypted)
        mapKeyMetadata := w.mapKeyMetadata.insert (C.GetID pubKey) keyMeta
        db := db } := by
  obtain ⟨⟨secret, fCompressed⟩, hlookup, h⟩ := bind_eq_some_iff.mp h
  obtain ⟨key, hset, h⟩ := bind_eq_some_iff.mp h
  obtain ⟨crypted, hcrypted, h⟩ := bind_eq_some_iff.mp h
  obtain ⟨db, hdb, h⟩ := map_eq_some_iff.mp h
  obtain ⟨hpair, hsecret⟩ := keyPair_of_SetSecret hset
  refine ⟨secret, fCompressed, key.vchPubKey, crypted, _, db, hlookup, ?_, ?_, hdb, h.symm⟩
  · rw [← hsecret]
    exact hpair
  · rw [← hsecret]
    exact hcrypted

/-- One hybrid key is encrypted. -/
theorem encryptHybridKey_eq_some (h : w.encryptHybridKey C o vMasterKey hybridID = some w') :
    ∃ hk disk db, w.mapHybridKeys.lookup hybridID = some hk ∧
      CHybridKeyDiskRecord.FromMemoryEncrypted C.toKeyCrypto hk vMasterKey = some disk ∧
      o.WriteHybridKey hybridID disk w.db = some db ∧
      w' = { w with mapHybridKeyDisk := w.mapHybridKeyDisk.insert hybridID disk, db := db } := by
  obtain ⟨hk, hlookup, h⟩ := bind_eq_some_iff.mp h
  obtain ⟨disk, hdisk, h⟩ := bind_eq_some_iff.mp h
  obtain ⟨db, hdb, h⟩ := bind_eq_some_iff.mp h
  exact ⟨hk, disk, db, hlookup, hdisk, hdb, (Option.some.inj h).symm⟩

/-- The keys are encrypted in two loops. -/
theorem encryptAll_eq_some {kMasterKey : CMasterKey} (hfile : w.fFileBacked = true)
    (h : w.encryptAll C o kMasterKey vMasterKey = some w') :
    ∃ w₁, w.mapCryptedKeys = ∅ ∧
      (Table.sortedKeys w.mapKeys).foldlM (encryptKey C o vMasterKey) { w with
          fUseCrypto := true
          db := (o.WriteMasterKey w.nMasterKeyMaxID kMasterKey w.db).getD w.db } = some w₁ ∧
      (Table.sortedKeys w₁.mapHybridKeys).foldlM (encryptHybridKey C o vMasterKey)
        { w₁ with mapKeys := ∅ } = some w' := by
  rw [encryptAll, if_pos hfile] at h
  obtain ⟨w₂, hkeys, h⟩ := bind_eq_some_iff.mp h
  unfold EncryptKeys at hkeys
  split at hkeys
  · cases hkeys
  · next hempty =>
    obtain ⟨w₁, hrun, rfl⟩ := map_eq_some_iff.mp hkeys
    exact ⟨w₁, by simpa using (not_or.mp hempty).1, hrun, h⟩

def withMasterKey (w : HybridWallet) (kMasterKey : CMasterKey) : HybridWallet :=
  { w with
    nMasterKeyMaxID := w.nMasterKeyMaxID + 1
    mapMasterKeys := w.mapMasterKeys.insert (w.nMasterKeyMaxID + 1) kMasterKey
    pwalletdbEncryption := true }

/-- The ways in which `EncryptWallet` ends in a wallet with a file. -/
theorem EncryptWallet_cases {pass : SecureString} {e : EncryptionInput C.toKeyCrypto}
    {o : EncryptionOutcome} (hfile : w.fFileBacked = true) :
    w.EncryptWallet C pass e o = ⟨some false, w, []⟩ ∨
    (∃ kMasterKey, newMasterKey C pass e = some kMasterKey ∧
      o.encrypt.txnBegin = false ∧ w.IsCrypted = false ∧
      w.CheckHybridKeys C.toKeyCrypto false = [] ∧
      w.EncryptWallet C pass e o = ⟨some false, withMasterKey w kMasterKey, []⟩) ∨
    w.EncryptWallet C pass e o = ⟨none, w, []⟩ ∨
    ∃ kMasterKey encrypted, newMasterKey C pass e = some kMasterKey ∧
      o.encrypt.txnBegin = true ∧ o.encrypt.txnCommit = true ∧ w.IsCrypted = false ∧
      w.CheckHybridKeys C.toKeyCrypto false = [] ∧
      (withMasterKey w kMasterKey).encryptAll C o.encrypt kMasterKey e.vMasterKey =
        some encrypted ∧
      w.EncryptWallet C pass e o =
        ({ encrypted with pwalletdbEncryption := false } : HybridWallet).finishEncryption C pass
          e o := by
  unfold EncryptWallet withMasterKey
  split
  · exact Or.inl rfl
  · next hplain =>
    have hplain : w.IsCrypted = false := by simpa using hplain
    split
    · exact Or.inl rfl
    · next kMasterKey hmaster =>
      split
      · exact Or.inl rfl
      · next hcheck =>
        have hcheck : w.CheckHybridKeys C.toKeyCrypto false = [] := by simpa using hcheck
        right
        simp only [hfile, Bool.or_true, true_and]
        split
        · next hbegin =>
          exact Or.inl ⟨kMasterKey, hmaster, by simpa using hbegin, hplain, hcheck, rfl⟩
        · next hbegin =>
          right
          split
          · exact Or.inl rfl
          · next encrypted hencrypted =>
            split
            · exact Or.inl rfl
            · next hcommit =>
              exact Or.inr ⟨kMasterKey, encrypted, hmaster, by simpa using hbegin,
                by simpa using hcommit, hplain, hcheck, hencrypted, rfl⟩

variable {newKeys : List (NewKey C.toKeyCrypto)}

/-- What `NewKeyPool` may do: nothing, erase the pool, or make a new one. -/
theorem NewKeyPool_cases {oClear oRefill : WalletDbOutcome} {ok : Bool}
    (h : w.NewKeyPool C oClear oRefill newKeys = (ok, w')) :
    w' = w ∨ ∃ cleared, w.clearKeyPool oClear = some cleared ∧ (w' = cleared ∨
      cleared.IsLocked = false ∧ cleared.refillKeyPool C oRefill newKeys = some w') := by
  unfold NewKeyPool at h
  split at h
  · cases h
    exact Or.inl rfl
  · next cleared hcleared =>
    right
    refine ⟨cleared, hcleared, ?_⟩
    split at h
    · cases h
      exact Or.inl rfl
    · next hunlocked =>
      split at h
      · cases h
        exact Or.inl rfl
      · next filled hfilled =>
        cases h
        exact Or.inr ⟨by simpa using hunlocked, hfilled⟩

variable {db' : WalletRecords} {nIndex : ℕ}

/-- One entry of the pool is staged. -/
theorem stagePoolEntry_eq_some {fresh : NewKey C.toKeyCrypto} {staged : CStagedKey}
    (h : w.stagePoolEntry C o nIndex fresh db = some (staged, db')) :
    staged.key = fresh.key ∧
      w.cryptedSecretOf C.toKeyCrypto true staged.key = some staged.vchCryptedSecret ∧
      ∃ db₁, w.StageKeyRecord o staged.key staged.metadata staged.vchCryptedSecret db = some db₁ ∧
        o.WritePool nIndex ⟨fresh.nTime, fresh.key.vchPubKey⟩ db₁ = some db' := by
  obtain ⟨vchCryptedSecret, hcrypted, h⟩ := bind_eq_some_iff.mp h
  obtain ⟨db₁, hstage, h⟩ := bind_eq_some_iff.mp h
  obtain ⟨db₂, hpool, h⟩ := bind_eq_some_iff.mp h
  cases h
  exact ⟨rfl, hcrypted, db₁, hstage, hpool⟩

/-- Every entry that is staged holds one of the new keys. -/
theorem exists_newKey_of_mem {vStaged : List (ℕ × CStagedKey)}
    (h : w.stagePoolEntries C o nIndex newKeys db = some (vStaged, db')) {entry : ℕ × CStagedKey}
    (hentry : entry ∈ vStaged) :
    ∃ fresh ∈ newKeys, entry.2.key = fresh.key ∧
      w.cryptedSecretOf C.toKeyCrypto true entry.2.key = some entry.2.vchCryptedSecret := by
  induction newKeys generalizing nIndex vStaged db with
  | nil =>
    cases h
    cases hentry
  | cons fresh newKeys ih =>
    obtain ⟨⟨staged, db₁⟩, hstaged, h⟩ := bind_eq_some_iff.mp h
    obtain ⟨⟨rest, db₂⟩, hrest, h⟩ := bind_eq_some_iff.mp h
    cases h
    rcases mem_cons.mp hentry with rfl | hentry
    · obtain ⟨hkey, hcrypted, _⟩ := stagePoolEntry_eq_some hstaged
      exact ⟨fresh, mem_cons_self, hkey, hcrypted⟩
    · obtain ⟨other, hother, hkey⟩ := ih hrest hentry
      exact ⟨other, mem_cons_of_mem _ hother, hkey⟩

/-- A new pool is staged in one transaction. -/
theorem refillKeyPool_eq_some (h : w.refillKeyPool C o newKeys = some w') :
    ∃ vStaged db, w.stagePoolEntries C o 1 newKeys w.db = some (vStaged, db) ∧
      w' = vStaged.foldl (addPoolEntry C) { w with db := db } := by
  unfold refillKeyPool at h
  split at h
  · obtain ⟨⟨vStaged, db⟩, hstaged, h⟩ := bind_eq_some_iff.mp h
    dsimp only at h
    split at h
    · cases h
      exact ⟨vStaged, db, hstaged, rfl⟩
    · cases h
  · cases h

end Encryption

end Phoenixcoin.Analysis
