import Phoenixcoin.Analysis.KeyChecks

/-!
# Hybrid keys are written in pairs

Each operation that makes hybrid keys leaves everything as it was when it fails. When it succeeds,
each of its keys has a hybrid record and a legacy record, and the wallet passes `CheckHybridKeys`
again, if the creation times fit in 32 bits and a legacy key that the wallet already has is stored.
-/

set_option autoImplicit false

namespace Phoenixcoin.Analysis

open Lib Program List HybridWallet LegacyKept

variable {C : KeyCrypto} {o : WalletDbOutcome} {w w' : HybridWallet} {hybridID : CHybridKeyID}
  {hk : CHybridKey} {fDeep : Bool}

/-! ## Keys that join one after the other -/

def Adds (C : KeyCrypto) (w w' : HybridWallet) : Prop :=
  ∃ hybridID hk, KeyAdded C w w' hybridID hk ∧ toInt32 hk.nCreateTime = hk.nCreateTime

structure PairedRecords (C : KeyCrypto) (w : HybridWallet) (hybridID : CHybridKeyID)
    (hk : CHybridKey) : Prop where
  hybrid : ∃ disk, w.db.hyb.lookup hybridID = some disk ∧ w.MakeHybridKeyDisk C hk = some disk
  legacy : LegacyRecord C w hk.secpPub hk.secpPriv

/-- A wallet that the operations start from: the keys stand under their identifiers, and a wallet
without a file has no records at rest. -/
structure Consistent (C : KeyCrypto) (w : HybridWallet) : Prop where
  wellKeyed : WellKeyed C w.toCKeyStore
  noFile : w.fFileBacked = false → w.mapHybridKeyDisk = ∅

theorem KeyAdded.consistent (h : KeyAdded C w w' hybridID hk) (hw : Consistent C w) :
    Consistent C w' where
  wellKeyed := h.kept.wellKeyed hw.wellKeyed
  noFile := by
    intro hfile
    have hfile : w.fFileBacked = false := by rwa [h.kept.file] at hfile
    rw [h.noFile hfile, hw.noFile hfile]

/-! ## Staging and registration -/

variable {db db' : WalletRecords} {ecdsa : CKey} {disk : Option CHybridKeyDisk}
  {entry : StagedHybridKey} {fUnused : Bool} {staged : List StagedHybridKey} {w₀ : HybridWallet}

theorem transaction_eq_some {f : WalletRecords → Option WalletRecords}
    (h : o.transaction f db = some db') : f db = some db' := by
  unfold WalletDbOutcome.transaction at h
  split at h
  · exact (Option.filter_eq_some_iff.mp h).1
  · cases h

variable {cryptedSecret : valtype} {keyID : CKeyID} {fAlwaysPersist : Bool}
  {fresh : List (Option (FreshKey C))} {r : HybridImport}

/-- The two halves of a key are staged. -/
theorem StageHybridKey_eq_some {disk : CHybridKeyDisk} {keyMeta : CKeyMetadata} {fPersist : Bool}
    (hid : hk.GetHybridID C = some hybridID)
    (hcrypted : fPersist = true → w.fUseCrypto = true →
      w.EncryptKeySecret C ecdsa = some cryptedSecret)
    (hstage : w.StageHybridKey C o hk ecdsa disk keyMeta cryptedSecret fPersist w.db = some db') :
    ecdsa.vchPubKey = hk.secpPub ∧ ecdsa.vchSecret = hk.secpPriv ∧
      LegacyKept C w { w with db := db' } ∧ db'.hyb = w.db.hyb.insert hybridID disk ∧
      (fPersist = true → LegacyRecord C { w with db := db' } hk.secpPub hk.secpPriv) := by
  unfold StageHybridKey at hstage
  split at hstage
  · cases hstage
  · next hhalves =>
    have hpub : ecdsa.vchPubKey = hk.secpPub := not_not.mp fun h => hhalves (Or.inl h)
    have hpriv : ecdsa.vchSecret = hk.secpPriv :=
      not_not.mp fun h => hhalves (Or.inr (Or.inl h))
    obtain ⟨db₁, hlegacy, hrest⟩ := Option.bind_eq_some_iff.mp hstage
    obtain ⟨id, hid', hwrite⟩ := Option.bind_eq_some_iff.mp hrest
    rw [hid] at hid'
    cases hid'
    unfold WalletDbOutcome.WriteHybridKey at hwrite
    split at hwrite
    · cases hwrite
      have hhyb : LegacyKept C { w with db := db₁ }
          { w with db := { db₁ with hyb := db₁.hyb.insert hybridID disk } } :=
        of_eq rfl rfl rfl rfl rfl rfl rfl
      by_cases hpersist : fPersist = true
      · rw [if_pos hpersist] at hlegacy
        obtain ⟨hkept, hrecord, hsame⟩ := StageKeyRecord_legacyKept (hcrypted hpersist) hlegacy
        rw [hpub, hpriv] at hrecord
        refine ⟨hpub, hpriv, hkept.trans hhyb, ?_, fun _ => hhyb.records _ _ hrecord⟩
        rw [hsame]
      · rw [if_neg hpersist] at hlegacy
        cases hlegacy
        exact ⟨hpub, hpriv, hhyb, rfl, fun h => absurd h hpersist⟩
    · cases hwrite

theorem keyAdded_of_staged {w₁ : HybridWallet} (hunlocked : w.IsLocked = false)
    (hstorable : StorableKey C hybridID hk) (hnew : w.mapHybridKeys.lookup hybridID = none)
    (hstaged : LegacyKept C w { w with db := db }) (hadded : LegacyKept C { w with db := db } w₁)
    (hmemory : LegacyInMemory C w₁ hk.secpPub hk.secpPriv)
    (hkeys : w₁.mapHybridKeys = w.mapHybridKeys)
    (hrecords : w₁.mapHybridKeyDisk = w.mapHybridKeyDisk) (hdb : w₁.db = db)
    (hfile : w.fFileBacked = true → LegacyRecord C { w with db := db } hk.secpPub hk.secpPriv ∧
      ∃ made, disk = some made ∧ w.MakeHybridKeyDisk C hk = some made ∧
        db.hyb = w.db.hyb.insert hybridID made) (hnoFile : w.fFileBacked = false → disk = none)
    (unused : Finset CHybridKeyID) (book : Table CHybridKeyID CHybridAddressEntry) :
    KeyAdded C w { w₁.addHybridKey hybridID hk disk with
      setUnusedHybridKeys := unused, mapHybridAddressBook := book } hybridID hk := by
  have hlast : LegacyKept C w₁ { w₁.addHybridKey hybridID hk disk with
      setUnusedHybridKeys := unused, mapHybridAddressBook := book } :=
    of_eq rfl rfl rfl rfl rfl rfl rfl
  have hcrypted : w₁.IsCrypted = w.IsCrypted := hadded.crypto
  refine ⟨hunlocked, hstaged.trans (hadded.trans hlast), hstorable, hnew, ?_,
    hlast.legacyInMemory hmemory, ?_, ?_⟩
  · unfold addHybridKey emplace
    rw [hkeys, hnew]
    rfl
  · intro hfileBacked
    obtain ⟨hrecord, made, rfl, hmade, hhyb⟩ := hfile hfileBacked
    refine ⟨hlast.records _ _ (hadded.records _ _ hrecord), made, hmade, ?_, ?_⟩
    · rw [addHybridKey, hdb, hhyb]
    · rw [addHybridKey, hcrypted, hrecords]
  · intro hfileBacked
    rw [hnoFile hfileBacked]
    exact hrecords

theorem addLegacyKey_withDb (db : WalletRecords) (ecdsa : CKey) (keyMeta : CKeyMetadata)
    (cryptedSecret : valtype) :
    ({ w with db := db } : HybridWallet).addLegacyKey C ecdsa keyMeta cryptedSecret =
      { w.addLegacyKey C ecdsa keyMeta cryptedSecret with db := db } := by
  unfold addLegacyKey CKeyStore.IsCrypted
  split_ifs <;> rfl

/-! ## Pools -/

theorem registerPoolKey_withDb (db : WalletRecords) (fUnused : Bool) (entry : StagedHybridKey) :
    registerPoolKey C fUnused { w with db := db } entry =
      { registerPoolKey C fUnused w entry with db := db } := by
  unfold registerPoolKey
  rw [addLegacyKey_withDb]
  split_ifs <;> rfl

/-- One key of a pool joins the wallet. -/
theorem registerPoolKey_keyAdded (hunlocked : w.IsLocked = false) (hjoin : Joining C w entry)
    (hpersist : entry.fPersistKey = true) (hnew : w.mapHybridKeys.lookup entry.hybridID = none)
    (hlegacy : w.HaveKey (C.GetID entry.ecdsa.vchPubKey) = false)
    (hstage : (if w.fFileBacked then w.StageHybridKey C o entry.key entry.ecdsa entry.disk
      entry.metadata entry.cryptedSecret entry.fPersistKey w.db else some w.db) = some db)
    (fUnused : Bool) :
    KeyAdded C w { registerPoolKey C fUnused w entry with db := db }
      entry.hybridID entry.key := by
  obtain ⟨hset, hpub⟩ := GetCKey_eq_some hjoin.ecdsa
  have hpair := keyPair_of_SetPrivKey hset
  have hpriv : entry.ecdsa.vchSecret = entry.key.secpPriv :=
    vchSecret_of_GetCKey hjoin.length hjoin.ecdsa
  have hcrypted : entry.fPersistKey = true → w.fUseCrypto = true →
      w.EncryptKeySecret C entry.ecdsa = some entry.cryptedSecret := hjoin.crypted
  have hdatabase : LegacyKept C w { w with db := db } ∧ (w.fFileBacked = true →
      LegacyRecord C { w with db := db } entry.key.secpPub entry.key.secpPriv ∧
        db.hyb = w.db.hyb.insert entry.hybridID entry.disk) := by
    split at hstage
    · obtain ⟨_, _, hkept, hhyb, hrecord⟩ :=
        StageHybridKey_eq_some hjoin.storable.derives hcrypted hstage
      exact ⟨hkept, fun _ => ⟨hrecord hpersist, hhyb⟩⟩
    · next hno =>
      cases hstage
      exact ⟨refl w, fun hfile => absurd hfile hno⟩
  obtain ⟨hstaged, hrecords⟩ := hdatabase
  obtain ⟨hadded, hmemory⟩ := @addLegacyKey_legacyKept _ { w with db := db } _ entry.metadata _
    hlegacy hpair (hcrypted hpersist)
  rw [hpub, hpriv] at hmemory
  rw [← registerPoolKey_withDb]
  unfold registerPoolKey
  rw [if_pos hpersist]
  dsimp only
  rw [addLegacyKey_fFileBacked]
  refine keyAdded_of_staged hunlocked hjoin.storable hnew hstaged hadded hmemory
    (addLegacyKey_mapHybridKeys ..) (addLegacyKey_mapHybridKeyDisk ..) (addLegacyKey_db ..) ?_ ?_
    _ _
  · intro hfile
    obtain ⟨hrecord, hhyb⟩ := hrecords hfile
    rw [if_pos hfile]
    exact ⟨hrecord, entry.disk, rfl, hjoin.disk, hhyb⟩
  · intro hfile
    simp [hfile]

theorem stagePool_congr (hcrypt : w'.fUseCrypto = w.fUseCrypto) (staged : List StagedHybridKey)
    (db : WalletRecords) : w'.stagePool C o staged db = w.stagePool C o staged db := by
  induction staged generalizing db with
  | nil => rfl
  | cons entry staged ih =>
    unfold stagePool StageHybridKey StageKeyRecord
      CKeyStore.IsCrypted
    rw [hcrypt]
    apply bind_congr
    intro db₁
    exact ih db₁

theorem HaveKey_registerPoolKey_of_ne (hne : keyID ≠ C.GetID entry.ecdsa.vchPubKey) :
    (registerPoolKey C fUnused w entry).HaveKey keyID = w.HaveKey keyID := by
  have hadded : (w.addLegacyKey C entry.ecdsa entry.metadata entry.cryptedSecret).HaveKey keyID =
      w.HaveKey keyID := by
    rw [HaveKey_addLegacyKey, decide_eq_false hne, Bool.false_or]
  unfold registerPoolKey
  by_cases hpersist : entry.fPersistKey = true
  · rw [if_pos hpersist]
    exact hadded
  · rw [if_neg hpersist]
    rfl

theorem lookup_registerPoolKey_of_ne (hne : hybridID ≠ entry.hybridID) :
    (registerPoolKey C fUnused w entry).mapHybridKeys.lookup hybridID =
      w.mapHybridKeys.lookup hybridID := by
  rw [registerPoolKey_mapHybridKeys, lookup_emplace, if_neg hne, Option.or_none]

structure PoolJoins (C : KeyCrypto) (w : HybridWallet) (staged : List StagedHybridKey) : Prop where
  joining : ∀ entry ∈ staged, Joining C w entry ∧ entry.fPersistKey = true ∧
    toInt32 entry.key.nCreateTime = entry.key.nCreateTime
  isNew : ∀ entry ∈ staged, w.mapHybridKeys.lookup entry.hybridID = none
  nodup : (staged.map StagedHybridKey.hybridID).Nodup
  legacyNew : ∀ entry ∈ staged, w.HaveKey (C.GetID entry.ecdsa.vchPubKey) = false
  legacyNodup : (staged.map fun entry => C.GetID entry.ecdsa.vchPubKey).Nodup

theorem PoolJoins.tail (h : PoolJoins C w (entry :: staged)) (fUnused : Bool) :
    PoolJoins C (registerPoolKey C fUnused w entry) staged := by
  have hnodup := h.nodup
  have hlegacy := h.legacyNodup
  rw [map_cons, nodup_cons] at hnodup hlegacy
  refine ⟨?_, ?_, hnodup.2, ?_, hlegacy.2⟩
  · intro other hother
    obtain ⟨hjoin, hpersist, htime⟩ := h.joining other (mem_cons_of_mem _ hother)
    exact ⟨hjoin.registerPoolKey fUnused, hpersist, htime⟩
  · intro other hother
    have hne : other.hybridID ≠ entry.hybridID := by
      intro heq
      exact hnodup.1 (heq ▸ List.mem_map_of_mem hother)
    rw [lookup_registerPoolKey_of_ne hne]
    exact h.isNew other (mem_cons_of_mem _ hother)
  · intro other hother
    have hne : C.GetID other.ecdsa.vchPubKey ≠ C.GetID entry.ecdsa.vchPubKey := by
      intro heq
      apply hlegacy.1
      rw [← heq]
      exact List.mem_map_of_mem (f := fun entry => C.GetID entry.ecdsa.vchPubKey) hother
    rw [HaveKey_registerPoolKey_of_ne hne]
    exact h.legacyNew other (mem_cons_of_mem _ hother)

theorem PoolJoins.withDb (h : PoolJoins C w staged) (db : WalletRecords) :
    PoolJoins C { w with db := db } staged where
  joining := by
    intro entry hentry
    obtain ⟨hjoin, hrest⟩ := h.joining entry hentry
    exact ⟨hjoin.withDb db, hrest⟩
  isNew := h.isNew
  nodup := h.nodup
  legacyNew := h.legacyNew
  legacyNodup := h.legacyNodup

/-- The keys of a pool join the wallet one after the other. -/
theorem PoolJoins.adds (hunlocked : w.IsLocked = false) (h : PoolJoins C w staged)
    (hstage : (if w.fFileBacked then w.stagePool C o staged w.db else some w.db) = some db)
    (fUnused : Bool) :
    Relation.ReflTransGen (Adds C) w
      (staged.foldl (registerPoolKey C fUnused) { w with db := db }) := by
  induction staged generalizing w with
  | nil =>
    have hdb : w.db = db := by
      split at hstage
      · exact Option.some.inj hstage
      · exact Option.some.inj hstage
    rw [← hdb]
    exact Relation.ReflTransGen.refl
  | cons entry staged ih =>
    obtain ⟨hjoin, hpersist, htime⟩ := h.joining entry mem_cons_self
    have hfile : (registerPoolKey C fUnused w entry).fFileBacked = w.fFileBacked := by
      unfold registerPoolKey addHybridKey
      rw [if_pos hpersist, addLegacyKey_fFileBacked]
    obtain ⟨db₁, hfirst, hrest⟩ : ∃ db₁,
        (if w.fFileBacked then w.StageHybridKey C o entry.key entry.ecdsa entry.disk
          entry.metadata entry.cryptedSecret entry.fPersistKey w.db else some w.db) = some db₁ ∧
        (if w.fFileBacked then w.stagePool C o staged db₁ else some db₁) = some db := by
      by_cases hbacked : w.fFileBacked = true
      · simp only [if_pos hbacked] at hstage ⊢
        exact Option.bind_eq_some_iff.mp hstage
      · simp only [if_neg hbacked] at hstage ⊢
        exact ⟨w.db, rfl, hstage⟩
    have hadded := registerPoolKey_keyAdded hunlocked hjoin hpersist
      (h.isNew entry mem_cons_self) (h.legacyNew entry mem_cons_self) hfirst fUnused
    have htail := ih (w := { registerPoolKey C fUnused w entry with db := db₁ })
      ?_ ?_ ?_
    · rw [foldl_cons, registerPoolKey_withDb]
      exact Relation.ReflTransGen.head ⟨_, _, hadded, htime⟩ htail
    · rw [IsLocked_of_kept hadded.kept, hunlocked]
    · exact (h.tail fUnused).withDb db₁
    · have hcrypto : ({ registerPoolKey C fUnused w entry with db := db₁ } :
          HybridWallet).fUseCrypto = w.fUseCrypto := registerPoolKey_fUseCrypto fUnused entry
      by_cases hbacked : w.fFileBacked = true
      · rw [if_pos hbacked] at hrest
        rw [if_pos (hfile.trans hbacked)]
        exact (stagePool_congr hcrypto staged db₁).trans hrest
      · rw [if_neg hbacked] at hrest
        rw [if_neg fun h => hbacked (hfile.symm.trans h)]
        exact hrest

/-- What the generators have to give for a pool: times that fit in 32 bits, and legacy keys that
are new like the hybrid keys. -/
structure PairedPool (C : KeyCrypto) (w : HybridWallet) (fresh : List (Option (FreshKey C))) :
    Prop extends NewPoolIDs C w fresh where
  time : ∀ f, some f ∈ fresh → toInt32 f.nTime = f.nTime
  legacyNew : ∀ f, some f ∈ fresh → w.HaveKey (C.GetID f.key.vchPubKey) = false
  legacyNodup : (fresh.filterMap fun f => f.map fun f => C.GetID f.key.vchPubKey).Nodup

theorem map_legacyID_eq (h : w.buildPoolKeys C fAlwaysPersist fresh = some staged) :
    staged.map (fun entry => C.GetID entry.ecdsa.vchPubKey) =
      fresh.filterMap fun f => f.map fun f => C.GetID f.key.vchPubKey := by
  have hbuilt := buildPoolKeys_eq_some h
  clear h
  induction hbuilt with
  | nil => rfl
  | cons hentry _ ih =>
    obtain ⟨f, rfl, hjoin, hkey, _⟩ := hentry
    have hpub := (GetCKey_eq_some hjoin.ecdsa).2
    rw [hkey] at hpub
    rw [map_cons, ih, hpub]
    rfl

theorem makePool_adds (hunlocked : w.IsLocked = false) (hfresh : PairedPool C w fresh)
    (hmake : w.makePool C o fAlwaysPersist fUnused fresh = some w') :
    Relation.ReflTransGen (Adds C) w w' := by
  obtain ⟨staged, db, hbuilt, hstage, rfl⟩ := makePool_eq_some hmake
  have hids := map_hybridID_eq hbuilt
  have hstage : (if w.fFileBacked then w.stagePool C o staged w.db else some w.db) = some db := by
    split at hstage
    · next hfile =>
      rw [if_pos hfile]
      exact transaction_eq_some hstage
    · next hfile =>
      rw [if_neg hfile]
      exact hstage
  have hentry : ∀ entry ∈ staged, ∃ f, some f ∈ fresh ∧ Joining C w entry ∧
      entry.key.nCreateTime = f.nTime ∧ entry.ecdsa.vchPubKey = f.key.vchPubKey := by
    intro entry hentry
    obtain ⟨f, hf, hjoin, hkey, _⟩ := exists_fresh_of_mem hbuilt hentry
    have hpub := (GetCKey_eq_some hjoin.ecdsa).2
    rw [hkey] at hpub
    exact ⟨f, hf, hjoin, by rw [hkey]; rfl, hpub⟩
  have hlegacyNew : ∀ entry ∈ staged, w.HaveKey (C.GetID entry.ecdsa.vchPubKey) = false := by
    intro entry hmem
    obtain ⟨f, hf, _, _, hpub⟩ := hentry entry hmem
    rw [hpub]
    exact hfresh.legacyNew f hf
  apply PoolJoins.adds hunlocked ?_ hstage
  refine ⟨?_, ?_, ?_, hlegacyNew, ?_⟩
  · intro entry hmem
    obtain ⟨f, hf, hjoin, htime, _⟩ := hentry entry hmem
    refine ⟨hjoin, ?_, by rw [htime, hfresh.time f hf]⟩
    by_contra hpersist
    have hknown := hjoin.known (by simpa using hpersist)
    rw [hlegacyNew entry hmem] at hknown
    cases hknown
  · intro entry hmem
    apply hfresh.isNew
    rw [← hids]
    exact List.mem_map_of_mem hmem
  · rw [hids]
    exact hfresh.nodup
  · rw [map_legacyID_eq hbuilt]
    exact hfresh.legacyNodup

/-! ## The other operations -/

/-- A key that `EnsureHybridKey` makes. -/
theorem EnsuredKey.keyAdded {pkey : EVP_PKEY} {nTime : ℤ}
    (h : EnsuredKey C o w keyID ecdsa pkey nTime hybridID disk db)
    (hkeyed : WellKeyed C w.toCKeyStore) (hpkey : C.d2iMLDSA pkey = some pkey)
    (hnew : w.mapHybridKeys.lookup hybridID = none) :
    KeyAdded C w (({ w with db := db } : HybridWallet).addHybridKey hybridID
      (hybridKeyOf ecdsa pkey nTime) disk) hybridID
      (hybridKeyOf ecdsa pkey nTime) := by
  have hunlocked := isLocked_of_GetKey h.found
  have hstorable := storableKey_hybridKeyOf (keyPair_of_GetKey h.found) hpkey h.valid h.derives
  have hmemory := (hkeyed.legacyInMemory h.found).2
  by_cases hfile : w.fFileBacked = true
  · obtain ⟨made, vchCryptedSecret, rfl, hmade, hcrypted, hstage⟩ :=
      persistHybridKey_eq_some hfile hunlocked h.persist
    have hsecret : true = true → w.fUseCrypto = true →
        w.EncryptKeySecret C ecdsa = some vchCryptedSecret := by
      intro _ hcrypt
      unfold cryptedSecretOf at hcrypted
      rwa [if_pos ⟨rfl, hcrypt⟩] at hcrypted
    obtain ⟨_, _, hkept, hhyb, hrecord⟩ :=
      StageHybridKey_eq_some h.derives hsecret (transaction_eq_some hstage)
    exact keyAdded_of_staged hunlocked hstorable hnew hkept (refl _)
      (hkept.legacyInMemory hmemory) rfl rfl rfl
      (fun _ => ⟨hrecord rfl, made, rfl, hmade, hhyb⟩) (fun hno => by simp [hfile] at hno)
      w.setUnusedHybridKeys w.mapHybridAddressBook
  · have hpersist := h.persist
    rw [persistHybridKey, if_neg (by simp [hfile])] at hpersist
    cases hpersist
    exact keyAdded_of_staged hunlocked hstorable hnew (refl w) (refl w)
      hmemory rfl rfl rfl (fun hyes => absurd hyes hfile) (fun _ => rfl)
      w.setUnusedHybridKeys w.mapHybridAddressBook

/-- What an import writes besides the two halves does not matter here. -/
theorem stageImport_eq_some (h : w.stageImport C o r entry db = some db') :
    ∃ db₁, w.StageHybridKey C o entry.key entry.ecdsa entry.disk entry.metadata
        entry.cryptedSecret entry.fPersistKey db = some db₁ ∧
      db'.key = db₁.key ∧ db'.ckey = db₁.ckey ∧ db'.hyb = db₁.hyb := by
  obtain ⟨db₁, hstage, hlabel⟩ := Option.bind_eq_some_iff.mp h
  refine ⟨db₁, hstage, ?_⟩
  split at hlabel
  · cases hlabel
    exact ⟨rfl, rfl, rfl⟩
  · unfold WalletDbOutcome.WriteHybridAddressEntry at hlabel
    split at hlabel
    · cases hlabel
      exact ⟨rfl, rfl, rfl⟩
    · cases hlabel

/-- A key that `EnsureHybridKey` makes. -/
theorem ImportedKey.keyAdded (h : ImportedKey C o w r hybridID hk ecdsa cryptedSecret disk db)
    (hstored : w.HaveKey (C.GetID hk.secpPub) = true → LegacyInMemory C w hk.secpPub hk.secpPriv ∧
      (w.fFileBacked = true → LegacyRecord C w hk.secpPub hk.secpPriv)) :
    KeyAdded C w (w.registerImport C r hybridID hk ecdsa cryptedSecret
      (! w.HaveKey (C.GetID ecdsa.vchPubKey)) disk db) hybridID hk := by
  obtain ⟨_, _, key, pkey, _, hset, hpkey, hhk⟩ := h.made
  have hpair := (keyPair_of_SetSecret hset).1
  have hstorable : StorableKey C hybridID hk := by
    have hvalid := h.valid
    have hderives := h.derives
    rw [hhk] at hvalid hderives ⊢
    exact storableKey_hybridKeyOf hpair hpkey hvalid hderives
  obtain ⟨hsetPriv, hpub⟩ := GetCKey_eq_some h.legacy
  have hpriv : ecdsa.vchSecret = hk.secpPriv := by
    apply vchSecret_of_GetCKey _ h.legacy
    rw [hhk]
    exact hpair.length.1
  have hsecret : (! w.HaveKey (C.GetID ecdsa.vchPubKey)) = true → w.fUseCrypto = true →
      w.EncryptKeySecret C ecdsa = some cryptedSecret := by
    intro hpersist hcrypt
    have hcrypted := h.crypted
    unfold cryptedSecretOf at hcrypted
    rwa [if_pos ⟨hpersist, hcrypt⟩] at hcrypted
  have hdatabase : LegacyKept C w { w with db := db } ∧
      (w.fFileBacked = true → LegacyRecord C { w with db := db } hk.secpPub hk.secpPriv ∧
        ∃ made, disk = some made ∧ w.MakeHybridKeyDisk C hk = some made ∧
          db.hyb = w.db.hyb.insert hybridID made) ∧
      (w.fFileBacked = false → disk = none) := by
    have hpersist := h.persist
    by_cases hfile : w.fFileBacked = true
    · obtain ⟨made, rfl, hmade, htransaction⟩ := persistImport_eq_ok hfile hpersist
      obtain ⟨db₁, hstage, hkey, hckey, hhyb⟩ :=
        stageImport_eq_some (transaction_eq_some htransaction)
      obtain ⟨_, _, hkept, hwritten, hrecord⟩ := StageHybridKey_eq_some h.derives hsecret hstage
      have hlabel : LegacyKept C { w with db := db₁ } { w with db := db } :=
        of_eq rfl rfl rfl rfl rfl hkey hckey
      have hkept := hkept.trans hlabel
      refine ⟨hkept, fun _ => ⟨?_, made, rfl, hmade, by rw [hhyb, hwritten]⟩,
        fun hno => by simp [hfile] at hno⟩
      cases hhave : w.HaveKey (C.GetID ecdsa.vchPubKey) with
      | false => exact hlabel.records _ _ (hrecord (by simp [hhave]))
      | true =>
        rw [hpub] at hhave
        exact hkept.records _ _ ((hstored hhave).2 hfile)
    · rw [persistImport, if_neg hfile] at hpersist
      cases hpersist
      exact ⟨refl w, fun hyes => absurd hyes hfile, fun _ => rfl⟩
  obtain ⟨hstaged, hfile, hnoFile⟩ := hdatabase
  obtain ⟨w₁, hw₁, hadded, hmemory, hkeys, hrecords, hdb⟩ : ∃ w₁, w₁ =
      (if (! w.HaveKey (C.GetID ecdsa.vchPubKey)) = true then
        ({ w with db := db } : HybridWallet).addLegacyKey C ecdsa (.ofTime hk.nCreateTime)
          cryptedSecret
      else { w with db := db }) ∧
      LegacyKept C { w with db := db } w₁ ∧ LegacyInMemory C w₁ hk.secpPub hk.secpPriv ∧
      w₁.mapHybridKeys = w.mapHybridKeys ∧ w₁.mapHybridKeyDisk = w.mapHybridKeyDisk ∧
      w₁.db = db := by
    by_cases hpersist : (! w.HaveKey (C.GetID ecdsa.vchPubKey)) = true
    · have hlegacy : ({ w with db := db } : HybridWallet).HaveKey (C.GetID ecdsa.vchPubKey) =
          false := by simpa using hpersist
      obtain ⟨hadded, hmemory⟩ := @addLegacyKey_legacyKept _ { w with db := db } _
        (.ofTime hk.nCreateTime) _ hlegacy (keyPair_of_SetPrivKey hsetPriv) (hsecret hpersist)
      rw [hpub, hpriv] at hmemory
      rw [if_pos hpersist]
      exact ⟨_, rfl, hadded, hmemory, addLegacyKey_mapHybridKeys ..,
        addLegacyKey_mapHybridKeyDisk .., addLegacyKey_db ..⟩
    · have hhave : w.HaveKey (C.GetID hk.secpPub) = true := by
        rw [← hpub]
        simpa using hpersist
      rw [if_neg hpersist]
      exact ⟨_, rfl, refl _, hstaged.legacyInMemory (hstored hhave).1, rfl, rfl, rfl⟩
  have hresult := fun unused book => keyAdded_of_staged h.isLocked hstorable h.isNew hstaged hadded
    hmemory hkeys hrecords hdb hfile hnoFile unused book
  rw [hw₁] at hresult
  exact hresult _ _

/-! ## Runs -/

namespace HybridKeyOp

/-- What an operation may be asked for: creation times that fit in 32 bits, keys that are new, and
for an import no legacy key that the wallet has without its record. -/
def Pairs (w : HybridWallet) : HybridKeyOp C → Prop
  | newHybridKeyPool _ fresh => PairedPool C w fresh
  | ensureHybridKeyPool _ nTarget fresh =>
    PairedPool C w ((List.range (nTarget - w.mapHybridKeys.keys.card)).map fresh)
  | ensureHybridKey _ pkey nTime keyID =>
    w.GetHybridKeyIDByLegacyKeyID C keyID = none → toInt32 nTime = nTime ∧
      ∀ p ecdsa hybridID, pkey = some p → w.toCKeyStore.GetKey C keyID = some ecdsa →
        (hybridKeyOf ecdsa p.val nTime).GetHybridID C = some hybridID →
        w.mapHybridKeys.lookup hybridID = none
  | importHybridKey _ r => toInt32 r.nCreateTime = r.nCreateTime ∧
      ∀ secret fCompressed pubKey, r.vchSecret = some (secret, fCompressed) →
        C.ecPubKey secret = some pubKey → w.HaveKey (C.GetID pubKey) = true →
        LegacyInMemory C w pubKey secret ∧ (w.fFileBacked = true → LegacyRecord C w pubKey secret)

/-- The keys of a pool join the wallet one after the other. -/
theorem adds {op : HybridKeyOp C} (hw : Consistent C w) (hop : op.Pairs w)
    (hmakes : op.Makes w w') : Relation.ReflTransGen (Adds C) w w' := by
  cases op with
  | newHybridKeyPool o fresh => exact makePool_adds hmakes.1 hop hmakes.2
  | ensureHybridKeyPool o nTarget fresh => exact makePool_adds hmakes.1 hop hmakes.2
  | ensureHybridKey o pkey nTime keyID =>
    obtain ⟨ecdsa, p, hybridID, disk, db, hpkey, hensured, rfl⟩ := hmakes
    obtain ⟨htime, hfree⟩ := hop hensured.unknown
    have hnew := hfree p ecdsa hybridID hpkey hensured.found hensured.derives
    exact Relation.ReflTransGen.single ⟨_, _, hensured.keyAdded hw.wellKeyed p.property hnew, htime⟩
  | importHybridKey o r =>
    obtain ⟨hybridID, hk, ecdsa, cryptedSecret, disk, db, himported, rfl⟩ := hmakes
    obtain ⟨secret, fCompressed, key, pkey, hrequest, hset, _, hhk⟩ := himported.made
    obtain ⟨hpair, hsecret⟩ := keyPair_of_SetSecret hset
    refine Relation.ReflTransGen.single ⟨_, _, himported.keyAdded ?_, ?_⟩
    · intro hhave
      rw [hhk] at hhave ⊢
      have hstored := hop.2 secret fCompressed key.vchPubKey hrequest
        (by rw [← hsecret, hpair]) hhave
      rw [← hsecret] at hstored
      exact hstored
    · rw [hhk]
      exact hop.1

end HybridKeyOp

/-- A wallet that operations have reached from `w₀`, whether they succeeded or not. -/
inductive KeyRun (C : KeyCrypto) (w₀ : HybridWallet) : HybridWallet → Prop
  | start : KeyRun C w₀ w₀
  | step {w w' : HybridWallet} {ok : Bool} (op : HybridKeyOp C) (run : KeyRun C w₀ w)
      (pairs : op.Pairs w) (ran : op.run w = (ok, w')) : KeyRun C w₀ w'

/-- What holds of the keys that have joined since `w₀`. -/
structure PairedSince (C : KeyCrypto) (fDeep : Bool) (w₀ w : HybridWallet) : Prop where
  consistent : Consistent C w
  checked : KeysChecked C fDeep w
  file : w.fFileBacked = w₀.fFileBacked
  paired : w.fFileBacked = true → ∀ hybridID hk, w.mapHybridKeys.lookup hybridID = some hk →
    w₀.mapHybridKeys.lookup hybridID = none → PairedRecords C w hybridID hk

theorem KeyAdded.pairedSince (hC : NonEmptyKeys C) (h : KeyAdded C w w' hybridID hk)
    (htime : toInt32 hk.nCreateTime = hk.nCreateTime) (hw : PairedSince C fDeep w₀ w) :
    PairedSince C fDeep w₀ w' := by
  refine ⟨h.consistent hw.consistent, h.checked hC htime hw.consistent.noFile hw.checked,
    h.kept.file.trans hw.file, ?_⟩
  intro hfile id other hlookup hnew
  have hfile : w.fFileBacked = true := by rwa [h.kept.file] at hfile
  obtain ⟨hrecord, disk, hmade, hhyb, _⟩ := h.file hfile
  have hmake (hk : CHybridKey) : w'.MakeHybridKeyDisk C hk = w.MakeHybridKeyDisk C hk :=
    MakeHybridKeyDisk_congr h.kept.crypto h.kept.master hk
  rw [h.keys, Table.lookup_insert_ite] at hlookup
  split at hlookup
  · next hid =>
    cases hlookup
    refine ⟨⟨disk, ?_, ?_⟩, hrecord⟩
    · rw [hhyb, hid, Finmap.lookup_insert]
    · rw [hmake, hmade]
  · next hid =>
    obtain ⟨⟨record, hstored, hmade'⟩, hlegacy⟩ := hw.paired hfile id other hlookup hnew
    refine ⟨⟨record, ?_, ?_⟩, h.kept.records _ _ hlegacy⟩
    · rw [hhyb, Table.lookup_insert_ite, if_neg hid, hstored]
    · rw [hmake, hmade']

theorem pairedSince_of_adds (hC : NonEmptyKeys C) (hadds : Relation.ReflTransGen (Adds C) w w')
    (hw : PairedSince C fDeep w₀ w) :
    PairedSince C fDeep w₀ w' := by
  induction hadds with
  | refl => exact hw
  | tail _ hstep ih =>
    obtain ⟨hybridID, hk, hadded, htime⟩ := hstep
    exact hadded.pairedSince hC htime ih

theorem KeyRun.pairedSince (hC : NonEmptyKeys C) (hstart : PairedSince C fDeep w₀ w₀)
    (run : KeyRun C w₀ w) : PairedSince C fDeep w₀ w := by
  induction run with
  | start => exact hstart
  | step op _ pairs ran ih =>
    rcases op.run_cases ran with rfl | ⟨_, hmakes⟩
    · exact ih
    · exact pairedSince_of_adds hC (op.adds ih.consistent pairs hmakes) ih

/-- In every wallet that the operations reach `CheckHybridKeys` holds, and every key that has been
made has its two records; and an operation that makes no keys leaves the wallet as it was. -/
theorem hybrid_writes_paired (C : KeyCrypto) (hC : NonEmptyKeys C) (fDeep : Bool)
    (w₀ w : HybridWallet) (hstart : Consistent C w₀) (hcheck : w₀.CheckHybridKeys C fDeep = [])
    (run : KeyRun C w₀ w) :
    w.CheckHybridKeys C fDeep = [] ∧
      (w.fFileBacked = true → ∀ hybridID hk, w.mapHybridKeys.lookup hybridID = some hk →
        w₀.mapHybridKeys.lookup hybridID = none → PairedRecords C w hybridID hk) ∧
      ∀ (op : HybridKeyOp C) (ok : Bool) (w' : HybridWallet), op.run w = (ok, w') →
        w' = w ∨ ok = true ∧ op.Makes w w' := by
  have hpaired : PairedSince C fDeep w₀ w := by
    apply KeyRun.pairedSince hC ?_ run
    refine ⟨hstart, CheckHybridKeys_eq_nil_iff.mp hcheck, rfl, ?_⟩
    intro _ hybridID hk hlookup hnone
    rw [hnone] at hlookup
    cases hlookup
  refine ⟨CheckHybridKeys_eq_nil_iff.mpr hpaired.checked, hpaired.paired, ?_⟩
  intro op ok w' hran
  exact op.run_cases hran

/-! ## Imports -/

/-- A wallet whose only legacy key was never written. -/
def unwrittenKeyWallet : HybridWallet :=
  { newHybridWallet with
    mapKeys := Finmap.singleton (exampleCrypto.GetID (2 :: List.replicate 32 1))
      (List.replicate 32 1, true) }

def importInto (w : HybridWallet) (nCreateTime : ℤ) : Bool × HybridWallet :=
  (HybridKeyOp.importHybridKey {} (importRequest nCreateTime) : HybridKeyOp exampleCrypto).run w

/-- A creation time of 2^31 differs from that of the record; and a key whose legacy half is only in
memory gets no legacy record. -/
theorem hybrid_writes_unpaired :
    (newHybridWallet.CheckHybridKeys exampleCrypto false = [] ∧
      (importInto newHybridWallet (2 ^ 31)).1 = true ∧
      ((importInto newHybridWallet (2 ^ 31)).2.CheckHybridKeys exampleCrypto false).map
          CHybridKeyCheckIssue.strProblem =
        ["database hybrid record: creation time differs from the loaded hybrid key"]) ∧
    (unwrittenKeyWallet.CheckHybridKeys exampleCrypto false = [] ∧
      (importInto unwrittenKeyWallet 1).1 = true ∧
      (importInto unwrittenKeyWallet 1).2.mapHybridKeys.keys.card = 1 ∧
      (importInto unwrittenKeyWallet 1).2.db.hyb.keys.card = 1 ∧
      (importInto unwrittenKeyWallet 1).2.db.key = ∅ ∧
      (importInto unwrittenKeyWallet 1).2.db.ckey = ∅) := by
  refine ⟨?_, ?_⟩ <;> with_unfolding_all decide

theorem nonEmptyKeys_exampleCrypto : NonEmptyKeys exampleCrypto where
  aesEncrypt_ne_nil vMasterKey nIV plain hlength := by
    intro hnil
    have hkey : plain ++ vMasterKey = [] := hnil
    rw [(append_eq_nil_iff.mp hkey).2] at hlength
    cases hlength
  d2iMLDSA_nil := rfl

theorem consistent_newHybridWallet : Consistent exampleCrypto newHybridWallet where
  wellKeyed := ⟨fun _ _ _ h => (by cases h), fun _ _ _ h => (by cases h)⟩
  noFile h := by cases h

/-- The check holds after the import. -/
theorem hybrid_writes_paired_import :
    (importInto newHybridWallet 1).2.mapHybridKeys.keys.card = 1 ∧
      (importInto newHybridWallet 1).2.CheckHybridKeys exampleCrypto true = [] := by
  have hpairs : (HybridKeyOp.importHybridKey {} (importRequest 1) :
      HybridKeyOp exampleCrypto).Pairs newHybridWallet := by
    refine ⟨by decide, ?_⟩
    intro secret fCompressed pubKey _ _ hhave
    have hnone : newHybridWallet.HaveKey (exampleCrypto.GetID pubKey) = false := rfl
    rw [hnone] at hhave
    cases hhave
  have hran : (HybridKeyOp.importHybridKey {} (importRequest 1) :
      HybridKeyOp exampleCrypto).run newHybridWallet =
        ((importInto newHybridWallet 1).1, (importInto newHybridWallet 1).2) := rfl
  refine ⟨?_, (hybrid_writes_paired exampleCrypto nonEmptyKeys_exampleCrypto true
    newHybridWallet _ consistent_newHybridWallet (by decide) (KeyRun.start.step _ hpairs hran)).1⟩
  with_unfolding_all decide

end Phoenixcoin.Analysis
