import Phoenixcoin.Analysis.HybridOperations

/-!
# Lock and Unlock

The hybrid keys of an encrypted wallet are lost from memory when it is locked, and come back from
their records when it is unlocked. The invariant says that every key the wallet knows has a
record at rest that gives it back; each operation keeps it. What the invariant needs of an
operation is that the creation times survive the cut to 32 bits that a record makes.
-/

set_option autoImplicit false

namespace Phoenixcoin.Analysis

open Lib Program List Option HybridWallet Table CKeyStore

variable {C : KeyCrypto} {o : WalletDbOutcome} {vMasterKey : CKeyingMaterial}
  {known : CHybridKeyID → Option HybridSecrets} {w w' : HybridWallet}

def loadedSecrets (w : HybridWallet) (hybridID : CHybridKeyID) : Option HybridSecrets :=
  (w.mapHybridKeys.lookup hybridID).map secretsOf

/-- A key whose creation time survives the record. -/
structure RestorableKey (C : KeyCrypto) (hybridID : CHybridKeyID) (hk : CHybridKey) : Prop
    extends StorableKey C hybridID hk where
  time : 0 < toInt32 hk.nCreateTime

structure RecordAtRest (C : KeyCrypto) (vMasterKey : CKeyingMaterial) (hybridID : CHybridKeyID)
    (secrets : HybridSecrets) (disk : CHybridKeyDisk) : Prop where
  exists_key : ∃ hk, RestorableKey C hybridID hk ∧ secretsOf hk = secrets ∧
    CHybridKeyDiskRecord.FromMemoryEncrypted C hk vMasterKey = some disk

/-- An unencrypted wallet whose hybrid keys can be stored. -/
structure PlainWallet (C : KeyCrypto) (known : CHybridKeyID → Option HybridSecrets)
    (w : HybridWallet) : Prop where
  fileBacked : w.fFileBacked = true
  plain : w.fUseCrypto = false
  noRecords : w.mapHybridKeyDisk = ∅
  noMasterKeys : w.mapMasterKeys = ∅
  restorable : ∀ hybridID hk, w.mapHybridKeys.lookup hybridID = some hk →
    RestorableKey C hybridID hk
  loaded : loadedSecrets w = known

def Opens (C : KeyCrypto) (vMasterKey : CKeyingMaterial) (entry : CPubKey × valtype) : Prop :=
  ∃ secret, C.DecryptSecret vMasterKey entry.2 (C.Hash entry.1) = some secret ∧
    C.ecPubKey secret = some entry.1

structure EncryptedWallet (C : KeyCrypto) (vMasterKey : CKeyingMaterial)
    (known : CHybridKeyID → Option HybridSecrets) (w : HybridWallet) : Prop where
  fileBacked : w.fFileBacked = true
  crypted : w.fUseCrypto = true
  length : vMasterKey.length = WALLET_CRYPTO_KEY_SIZE
  opens : ∀ keyID entry, w.mapCryptedKeys.lookup keyID = some entry → Opens C vMasterKey entry
  atRest : ∀ hybridID, Rel (RecordAtRest C vMasterKey hybridID) (known hybridID)
    (w.mapHybridKeyDisk.lookup hybridID)
  state : w.vMasterKey = [] ∧ w.mapHybridKeys = ∅ ∨
    w.vMasterKey = vMasterKey ∧ loadedSecrets w = known

theorem EncryptedWallet.ne_nil (h : EncryptedWallet C vMasterKey known w) : vMasterKey ≠ [] := by
  intro hnil
  have hlength := h.length
  rw [hnil] at hlength
  cases hlength

theorem EncryptedWallet.unlocked (h : EncryptedWallet C vMasterKey known w)
    (hunlocked : w.IsLocked = false) : w.vMasterKey = vMasterKey ∧ loadedSecrets w = known := by
  rcases h.state with ⟨hnil, _⟩ | hstate
  · unfold IsLocked at hunlocked
    simp [h.crypted, hnil] at hunlocked
  · exact hstate

theorem PlainWallet.unlocked (h : PlainWallet C known w) : w.IsLocked = false := by
  simp [IsLocked, h.plain]

/-! ## Lock -/

theorem Lock_of_crypted (h : w.IsCrypted = true) :
    w.Lock.2 = { w with toCKeyStore := w.lock, setUnusedHybridKeys := ∅ } := by
  rw [Lock, if_neg (not_not.mpr h)]

theorem EncryptedWallet.lock (h : EncryptedWallet C vMasterKey known w) :
    EncryptedWallet C vMasterKey known w.Lock.2 ∧ w.Lock.2.IsLocked = true := by
  have hcrypted : w.IsCrypted = true := h.crypted
  rw [Lock_of_crypted hcrypted]
  constructor
  · exact ⟨h.fileBacked, h.crypted, h.length, h.opens, h.atRest, Or.inl ⟨rfl, rfl⟩⟩
  · simp [CKeyStore.IsLocked, CKeyStore.lock, h.crypted]

/-! ## Unlock -/

def withLoaded (w : HybridWallet) (keys : Table CHybridKeyID CHybridKey)
    (unused : Finset CHybridKeyID) : HybridWallet :=
  { w with mapHybridKeys := keys, setUnusedHybridKeys := unused }

variable {hybridID : CHybridKeyID} {cryptedSecret : valtype} {keyMeta : CKeyMetadata}
  {disk : Option CHybridKeyDisk} {hk : CHybridKey} {ecdsa : CKey}

theorem decryptHybridKey_eq {secrets : HybridSecrets} {disk : CHybridKeyDisk}
    (hdisk : w.mapHybridKeyDisk.lookup hybridID = some disk)
    (hrecord : RecordAtRest C vMasterKey hybridID secrets disk)
    (hloaded : ∀ other, loadedSecrets w hybridID = some other → other = secrets) (fOk : Bool) :
    ∃ keys unused,
      decryptHybridKey C o vMasterKey (fOk, w) hybridID =
        (fOk, withLoaded w keys unused) ∧
      ∀ id, (keys.lookup id).map secretsOf =
        if id = hybridID then some secrets else loadedSecrets w id := by
  unfold decryptHybridKey
  dsimp only
  rw [hdisk]
  dsimp only
  by_cases hpresent : (w.mapHybridKeys.lookup hybridID).isSome = true
  · rw [if_pos hpresent]
    refine ⟨w.mapHybridKeys, w.setUnusedHybridKeys, rfl, ?_⟩
    intro id
    by_cases hid : id = hybridID
    · rw [if_pos hid, hid]
      obtain ⟨hk, hk'⟩ := isSome_iff_exists.mp hpresent
      rw [hk', map_some, ← hloaded (secretsOf hk) (by rw [loadedSecrets, hk']; rfl)]
    · rw [if_neg hid, loadedSecrets]
  · obtain ⟨hk, hkey, hsecrets, hmade⟩ := hrecord.exists_key
    obtain ⟨hof, hencrypted⟩ := recordOf_FromMemoryEncrypted hkey.toStorableKey hmade
    have hmem : disk.materialize C vMasterKey = some (atRest hk) :=
      hof.materialize hkey.toStorableKey hkey.time
    have hid : (atRest hk).GetHybridID C = some hybridID := hkey.derives
    rw [if_neg hpresent]
    simp only [hof.checksum, if_true, hmem, hid, ne_eq, not_true_eq_false, if_false, hencrypted]
    refine ⟨_, _, rfl, ?_⟩
    intro id
    rw [lookup_insert_ite]
    by_cases h : id = hybridID
    · rw [if_pos h, if_pos h, map_some, secretsOf_atRest, hsecrets]
    · rw [if_neg h, if_neg h, loadedSecrets]

/-- The loop over the records loads the keys of all of them. -/
theorem decryptHybridKeys_run {l : List CHybridKeyID}
    (hrecords : ∀ hybridID, Rel (RecordAtRest C vMasterKey hybridID) (known hybridID)
      (w.mapHybridKeyDisk.lookup hybridID))
    (hl : ∀ hybridID ∈ l, (w.mapHybridKeyDisk.lookup hybridID).isSome) (fOk : Bool)
    (hloaded : ∀ hybridID other, loadedSecrets w hybridID = some other →
      known hybridID = some other) :
    ∃ keys unused,
      l.foldl (decryptHybridKey C o vMasterKey) (fOk, w) =
        (fOk, withLoaded w keys unused) ∧
      ∀ id, (keys.lookup id).map secretsOf = if id ∈ l then known id else loadedSecrets w id := by
  induction l generalizing w with
  | nil => exact ⟨w.mapHybridKeys, w.setUnusedHybridKeys, rfl, fun id => by simp [loadedSecrets]⟩
  | cons hybridID l ih =>
    obtain ⟨disk, hdisk⟩ := isSome_iff_exists.mp (hl hybridID mem_cons_self)
    have hrel := hrecords hybridID
    rw [hdisk] at hrel
    cases hknown : known hybridID with
    | none =>
      rw [hknown] at hrel
      cases hrel
    | some secrets =>
      rw [hknown] at hrel
      obtain ⟨hrecord⟩ := hrel
      have hsame : ∀ other, loadedSecrets w hybridID = some other → other = secrets := by
        intro other hother
        have h := hloaded hybridID other hother
        rw [hknown] at h
        exact (some.inj h).symm
      obtain ⟨keys, unused, hstep, hkeys⟩ :=
        decryptHybridKey_eq (o := o) hdisk hrecord hsame fOk
      have hnext : ∀ id other, loadedSecrets (withLoaded w keys unused) id = some other →
          known id = some other := by
        intro id other hother
        have h : (keys.lookup id).map secretsOf = some other := hother
        rw [hkeys] at h
        split at h
        · next hid => rw [hid, hknown, h]
        · exact hloaded id other h
      obtain ⟨keys', unused', hrun, hkeys'⟩ := ih (w := withLoaded w keys unused) hrecords
        (fun id hid => hl id (mem_cons_of_mem _ hid)) hnext
      refine ⟨keys', unused', ?_, ?_⟩
      · rw [foldl_cons, hstep, hrun]
        rfl
      · intro id
        rw [hkeys' id]
        by_cases hmem : id ∈ l
        · rw [if_pos hmem, if_pos (mem_cons_of_mem _ hmem)]
        · have hid := hkeys id
          rw [if_neg hmem]
          change (keys.lookup id).map secretsOf = _
          rw [hid]
          by_cases heq : id = hybridID
          · rw [if_pos heq, if_pos (by simp [heq]), heq, hknown]
          · rw [if_neg heq, if_neg (by simp [heq, hmem])]

/-- The right master key opens the wallet. -/
theorem EncryptedWallet.opensFirstKey (h : EncryptedWallet C vMasterKey known w) :
    w.opensFirstKey C vMasterKey = true := by
  unfold HybridWallet.opensFirstKey
  split
  · rfl
  · next vchPubKey vchCryptedSecret hfirst =>
    obtain ⟨keyID, _, hlookup⟩ := bind_eq_some_iff.mp hfirst
    obtain ⟨secret, hdecrypt, hpub⟩ := h.opens keyID _ hlookup
    rw [hdecrypt, bind_some, hpub]
    simp

/-- With the right master key `Unlock` loads all keys that are known. -/
theorem EncryptedWallet.unlockWith (h : EncryptedWallet C vMasterKey known w)
    (hlocked : w.IsLocked = true) :
    ∃ w', w.unlockWith C o vMasterKey = some (true, w') ∧
      EncryptedWallet C vMasterKey known w' ∧ w'.IsLocked = false ∧ loadedSecrets w' = known ∧
      w'.db = w.db ∧ w'.mapMasterKeys = w.mapMasterKeys ∧
      w'.mapCryptedKeys = w.mapCryptedKeys := by
  have hempty : w.mapHybridKeys = ∅ := by
    rcases h.state with ⟨_, hempty⟩ | ⟨hkey, _⟩
    · exact hempty
    · have hne := h.ne_nil
      rw [IsLocked, hkey] at hlocked
      simp [hne] at hlocked
  have hnone : ∀ id, loadedSecrets w id = none := by
    intro id
    rw [loadedSecrets, hempty]
    rfl
  have hall : ∀ id ∈ sortedKeys w.mapHybridKeyDisk,
      (w.mapHybridKeyDisk.lookup id).isSome := fun id hid => mem_sortedKeys.mp hid
  let w₁ : HybridWallet := { w with vMasterKey := vMasterKey }
  obtain ⟨keys, unused, hrun, hkeys⟩ := decryptHybridKeys_run (o := o) (w := w₁) h.atRest hall true
    (fun id other hother => by
      have hother : loadedSecrets w id = some other := hother
      rw [hnone id] at hother
      cases hother)
  have hresult : loadedSecrets (withLoaded w₁ keys unused) = known := by
    funext id
    change (keys.lookup id).map secretsOf = known id
    rw [hkeys id]
    by_cases hmem : id ∈ sortedKeys w.mapHybridKeyDisk
    · rw [if_pos hmem]
    · rw [if_neg hmem]
      have hrel := h.atRest id
      rw [mem_sortedKeys, not_isSome_iff_eq_none] at hmem
      rw [hmem] at hrel
      cases hknown : known id with
      | none => exact hnone id
      | some secrets =>
        rw [hknown] at hrel
        cases hrel
  refine ⟨withLoaded w₁ keys unused, ?_, ?_, ?_, hresult, rfl, rfl, rfl⟩
  · unfold HybridWallet.unlockWith
    have hdecrypt : HybridWallet.DecryptHybridKeys C o { w with vMasterKey := vMasterKey }
        vMasterKey = (true, withLoaded w₁ keys unused) := hrun
    rw [if_pos h.opensFirstKey]
    rw [hdecrypt, if_pos rfl]
  · exact ⟨h.fileBacked, h.crypted, h.length, h.opens, h.atRest, Or.inr ⟨rfl, hresult⟩⟩
  · have hne := h.ne_nil
    change (w.fUseCrypto && decide (vMasterKey = [])) = false
    simp [hne]

/-! ## New keys -/

def learn (known : CHybridKeyID → Option HybridSecrets) (hybridID : CHybridKeyID)
    (hk : CHybridKey) : CHybridKeyID → Option HybridSecrets :=
  Function.update known hybridID (some (secretsOf hk))

theorem EncryptedWallet.withDb (h : EncryptedWallet C vMasterKey known w) (db : WalletRecords) :
    EncryptedWallet C vMasterKey known { w with db := db } :=
  ⟨h.fileBacked, h.crypted, h.length, h.opens, h.atRest, h.state⟩

theorem PlainWallet.withDb (h : PlainWallet C known w) (db : WalletRecords) :
    PlainWallet C known { w with db := db } :=
  ⟨h.fileBacked, h.plain, h.noRecords, h.noMasterKeys, h.restorable, h.loaded⟩

/-- A legacy key joins the wallet. -/
theorem EncryptedWallet.addLegacyKey (h : EncryptedWallet C vMasterKey known w) {key : CKey}
    (hpair : KeyPair C key)
    (hcrypted : C.EncryptSecret vMasterKey key.vchSecret (C.Hash key.vchPubKey) =
      some cryptedSecret) :
    EncryptedWallet C vMasterKey known (w.addLegacyKey C key keyMeta cryptedSecret) where
  fileBacked := by rw [addLegacyKey_fFileBacked, h.fileBacked]
  crypted := by rw [addLegacyKey_fUseCrypto, h.crypted]
  length := h.length
  opens := by
    intro keyID entry hlookup
    have hcrypt : w.IsCrypted = true := h.crypted
    rw [addLegacyKey_mapCryptedKeys, if_pos hcrypt, lookup_insert_ite] at hlookup
    split at hlookup
    · cases hlookup
      exact ⟨key.vchSecret, C.DecryptSecret_EncryptSecret hcrypted, hpair⟩
    · exact h.opens keyID entry hlookup
  atRest := by
    rw [addLegacyKey_mapHybridKeyDisk]
    exact h.atRest
  state := by
    unfold loadedSecrets
    rw [addLegacyKey_vMasterKey, addLegacyKey_mapHybridKeys]
    exact h.state

/-- A legacy key joins the wallet. -/
theorem PlainWallet.addLegacyKey (h : PlainWallet C known w) {key : CKey} :
    PlainWallet C known (w.addLegacyKey C key keyMeta cryptedSecret) where
  fileBacked := by rw [addLegacyKey_fFileBacked, h.fileBacked]
  plain := by rw [addLegacyKey_fUseCrypto, h.plain]
  noRecords := by rw [addLegacyKey_mapHybridKeyDisk, h.noRecords]
  noMasterKeys := by rw [addLegacyKey_mapMasterKeys, h.noMasterKeys]
  restorable := by
    rw [addLegacyKey_mapHybridKeys]
    exact h.restorable
  loaded := by
    unfold loadedSecrets
    rw [addLegacyKey_mapHybridKeys]
    exact h.loaded

/-- A key that is new is loaded. -/
theorem loadedSecrets_addHybridKey (hnew : w.mapHybridKeys.lookup hybridID = none) :
    loadedSecrets (w.addHybridKey hybridID hk disk) = learn (loadedSecrets w) hybridID hk := by
  have hkeys : (w.addHybridKey hybridID hk disk).mapHybridKeys =
      w.mapHybridKeys.insert hybridID hk := by
    unfold addHybridKey emplace
    simp [hnew]
  funext id
  unfold loadedSecrets learn
  rw [hkeys, lookup_insert_ite]
  by_cases hid : id = hybridID
  · subst hid
    simp
  · rw [if_neg hid, Function.update_of_ne hid]

theorem lookup_eq_none_of_loaded (h : loadedSecrets w hybridID = none) :
    w.mapHybridKeys.lookup hybridID = none :=
  map_eq_none_iff.mp h

/-- A hybrid key with its record joins the wallet. -/
theorem EncryptedWallet.addHybridKey (h : EncryptedWallet C vMasterKey known w)
    (hunlocked : w.IsLocked = false) {disk : CHybridKeyDisk} (hkey : RestorableKey C hybridID hk)
    (hdisk : CHybridKeyDiskRecord.FromMemoryEncrypted C hk vMasterKey = some disk)
    (hnew : known hybridID = none) :
    EncryptedWallet C vMasterKey (learn known hybridID hk)
      (w.addHybridKey hybridID hk (some disk)) := by
  obtain ⟨hmaster, hloaded⟩ := h.unlocked hunlocked
  have hcrypted : w.IsCrypted = true := h.crypted
  have hnone : w.mapHybridKeys.lookup hybridID = none := by
    apply lookup_eq_none_of_loaded
    rw [hloaded, hnew]
  have hrecords : (w.addHybridKey hybridID hk (some disk)).mapHybridKeyDisk =
      w.mapHybridKeyDisk.insert hybridID disk := by
    unfold HybridWallet.addHybridKey
    simp [hcrypted]
  refine ⟨h.fileBacked, h.crypted, h.length, h.opens, ?_, Or.inr ⟨hmaster, ?_⟩⟩
  · intro id
    rw [hrecords, lookup_insert_ite, learn]
    by_cases hid : id = hybridID
    · subst hid
      rw [if_pos rfl, Function.update_self]
      exact Rel.some ⟨hk, hkey, rfl, hdisk⟩
    · rw [if_neg hid, Function.update_of_ne hid]
      exact h.atRest id
  · rw [loadedSecrets_addHybridKey hnone, hloaded]

/-- A hybrid key with its record joins the wallet. -/
theorem PlainWallet.addHybridKey (h : PlainWallet C known w) (hkey : RestorableKey C hybridID hk)
    (hnew : known hybridID = none) :
    PlainWallet C (learn known hybridID hk) (w.addHybridKey hybridID hk disk) := by
  have hplain : w.IsCrypted = false := h.plain
  have hnone : w.mapHybridKeys.lookup hybridID = none := by
    apply lookup_eq_none_of_loaded
    rw [h.loaded, hnew]
  refine ⟨h.fileBacked, h.plain, ?_, h.noMasterKeys, ?_, ?_⟩
  · unfold HybridWallet.addHybridKey
    cases disk <;> simp [hplain, h.noRecords]
  · intro id other hlookup
    unfold HybridWallet.addHybridKey emplace at hlookup
    simp only [hnone, isSome_none, Bool.false_eq_true, if_false] at hlookup
    rw [lookup_insert_ite] at hlookup
    split at hlookup
    · next hid =>
      cases hlookup
      rw [hid]
      exact hkey
    · exact h.restorable id other hlookup
  · rw [loadedSecrets_addHybridKey hnone, h.loaded]

/-! ## Both kinds of wallets -/

/-- The invariant of a wallet: `key` is its master key, if it has one. -/
def KeysAtRest (C : KeyCrypto) (key : Option CKeyingMaterial)
    (known : CHybridKeyID → Option HybridSecrets) (w : HybridWallet) : Prop :=
  match key with
  | none => PlainWallet C known w
  | some vMasterKey => EncryptedWallet C vMasterKey known w

variable {key : Option CKeyingMaterial}

section

variable (h : KeysAtRest C key known w)
include h

theorem KeysAtRest.fileBacked : w.fFileBacked = true := by
  cases key with
  | none => exact PlainWallet.fileBacked h
  | some vMasterKey => exact EncryptedWallet.fileBacked h

theorem KeysAtRest.loaded (hunlocked : w.IsLocked = false) : loadedSecrets w = known := by
  cases key with
  | none => exact PlainWallet.loaded h
  | some vMasterKey => exact (EncryptedWallet.unlocked h hunlocked).2

theorem KeysAtRest.withDb (db : WalletRecords) : KeysAtRest C key known { w with db := db } := by
  cases key with
  | none => exact PlainWallet.withDb h db
  | some vMasterKey => exact EncryptedWallet.withDb h db

/-- A legacy key joins the wallet. -/
theorem KeysAtRest.addLegacyKey (hpair : KeyPair C ecdsa)
    (hcrypted : w.cryptedSecretOf C true ecdsa = some cryptedSecret) :
    KeysAtRest C key known (w.addLegacyKey C ecdsa keyMeta cryptedSecret) := by
  cases key with
  | none => exact PlainWallet.addLegacyKey h
  | some vMasterKey =>
    have hcrypt : w.IsCrypted = true := h.crypted
    rw [cryptedSecretOf, if_pos ⟨rfl, hcrypt⟩] at hcrypted
    obtain ⟨_, hunlocked, hsecret⟩ := EncryptKeySecret_eq_some hcrypted
    rw [(h.unlocked hunlocked).1] at hsecret
    exact EncryptedWallet.addLegacyKey h hpair hsecret

/-- A hybrid key with its record joins the wallet. -/
theorem KeysAtRest.addHybridKey (hunlocked : w.IsLocked = false)
    {disk : CHybridKeyDisk} (hkey : RestorableKey C hybridID hk)
    (hdisk : w.MakeHybridKeyDisk C hk = some disk) (hnew : known hybridID = none) :
    KeysAtRest C key (learn known hybridID hk) (w.addHybridKey hybridID hk (some disk)) := by
  cases key with
  | none => exact PlainWallet.addHybridKey h hkey hnew
  | some vMasterKey =>
    have hcrypt : w.IsCrypted = true := h.crypted
    unfold MakeHybridKeyDisk at hdisk
    simp only [hcrypt, hunlocked, if_true, Bool.false_eq_true, if_false] at hdisk
    rw [(h.unlocked hunlocked).1] at hdisk
    exact EncryptedWallet.addHybridKey h hunlocked hkey hdisk hnew

/-! ## Pools of keys -/

/-- The set of unused keys and the address book say nothing about the keys at rest. -/
theorem KeysAtRest.withRest (unused : Finset CHybridKeyID)
    (book : Table CHybridKeyID CHybridAddressEntry) :
    KeysAtRest C key known { w with
      setUnusedHybridKeys := unused, mapHybridAddressBook := book } := by
  cases key with
  | none =>
    have h : PlainWallet C known w := h
    exact PlainWallet.mk h.fileBacked h.plain h.noRecords h.noMasterKeys h.restorable h.loaded
  | some vMasterKey =>
    exact EncryptedWallet.mk h.fileBacked h.crypted h.length h.opens h.atRest h.state

/-- A staged key joins the wallet. -/
theorem KeysAtRest.registerPoolKey (hunlocked : w.IsLocked = false)
    {entry : StagedHybridKey} (hjoin : Joining C w entry)
    (htime : 0 < toInt32 entry.key.nCreateTime) (hnew : known entry.hybridID = none)
    (fUnused : Bool) :
    KeysAtRest C key (learn known entry.hybridID entry.key)
      (registerPoolKey C fUnused w entry) := by
  have hkey : RestorableKey C entry.hybridID entry.key := ⟨hjoin.storable, htime⟩
  refine KeysAtRest.withRest ?_ _ _
  by_cases hpersist : entry.fPersistKey = true
  · have hcrypted : w.cryptedSecretOf C true entry.ecdsa = some entry.cryptedSecret ∨
        w.IsCrypted = false := by
      by_cases hcrypt : w.IsCrypted = true
      · left
        rw [cryptedSecretOf, if_pos ⟨rfl, hcrypt⟩]
        exact hjoin.crypted hpersist hcrypt
      · exact Or.inr (by simpa using hcrypt)
    have hadded : KeysAtRest C key known
        (w.addLegacyKey C entry.ecdsa entry.metadata entry.cryptedSecret) := by
      cases key with
      | none => exact PlainWallet.addLegacyKey h
      | some vMasterKey =>
        have hcrypt : w.IsCrypted = true := EncryptedWallet.crypted h
        rcases hcrypted with hcrypted | hplain
        · exact h.addLegacyKey (keyPair_of_SetPrivKey (GetCKey_eq_some hjoin.ecdsa).1) hcrypted
        · rw [hcrypt] at hplain
          cases hplain
    rw [if_pos hpersist, addLegacyKey_fFileBacked, if_pos h.fileBacked]
    refine hadded.addHybridKey ?_ hkey ?_ hnew
    · rw [IsLocked_congr (addLegacyKey_fUseCrypto ..) (addLegacyKey_vMasterKey ..), hunlocked]
    · rw [MakeHybridKeyDisk_congr (addLegacyKey_fUseCrypto ..) (addLegacyKey_vMasterKey ..)]
      exact hjoin.disk
  · rw [if_neg hpersist, if_pos h.fileBacked]
    exact h.addHybridKey hunlocked hkey hjoin.disk hnew

end

def learnAll (known : CHybridKeyID → Option HybridSecrets) (staged : List StagedHybridKey) :
    CHybridKeyID → Option HybridSecrets :=
  staged.foldl (fun known entry => learn known entry.hybridID entry.key) known

theorem KeysAtRest.registerPoolKeys (h : KeysAtRest C key known w) (hunlocked : w.IsLocked = false)
    {staged : List StagedHybridKey} (hjoin : ∀ entry ∈ staged, Joining C w entry)
    (htime : ∀ entry ∈ staged, 0 < toInt32 entry.key.nCreateTime)
    (hnew : ∀ entry ∈ staged, known entry.hybridID = none)
    (hnodup : (staged.map StagedHybridKey.hybridID).Nodup) (fUnused : Bool) :
    KeysAtRest C key (learnAll known staged)
        (staged.foldl (HybridWallet.registerPoolKey C fUnused) w) ∧
      (staged.foldl (HybridWallet.registerPoolKey C fUnused) w).IsLocked = false := by
  induction staged generalizing known w with
  | nil => exact ⟨h, hunlocked⟩
  | cons entry staged ih =>
    rw [map_cons, nodup_cons] at hnodup
    have hstep := h.registerPoolKey hunlocked (hjoin entry mem_cons_self)
      (htime entry mem_cons_self) (hnew entry mem_cons_self) fUnused
    have hlocked : (HybridWallet.registerPoolKey C fUnused w entry).IsLocked = false := by
      rw [IsLocked_congr (registerPoolKey_fUseCrypto ..) (registerPoolKey_vMasterKey ..), hunlocked]
    apply ih hstep hlocked
    · intro other hother
      exact (hjoin other (mem_cons_of_mem _ hother)).registerPoolKey fUnused
    · intro other hother
      exact htime other (mem_cons_of_mem _ hother)
    · intro other hother
      have hne : other.hybridID ≠ entry.hybridID := by
        intro heq
        exact hnodup.1 (heq ▸ List.mem_map_of_mem hother)
      rw [learn, Function.update_of_ne hne]
      exact hnew other (mem_cons_of_mem _ hother)
    · exact hnodup.2

structure FreshPool (C : KeyCrypto) (w : HybridWallet) (fresh : List (Option (FreshKey C))) :
    Prop extends NewPoolIDs C w fresh where
  time : ∀ f, some f ∈ fresh → 0 < toInt32 f.nTime

/-- A pool that is made keeps the invariant. -/
theorem KeysAtRest.makePool (h : KeysAtRest C key known w) (hunlocked : w.IsLocked = false)
    {fAlwaysPersist fUnused : Bool} {fresh : List (Option (FreshKey C))}
    (hfresh : FreshPool C w fresh)
    (hmake : w.makePool C o fAlwaysPersist fUnused fresh = some w') :
    ∃ known', KeysAtRest C key known' w' ∧ w'.IsLocked = false := by
  obtain ⟨staged, db, hbuilt, _, rfl⟩ := makePool_eq_some hmake
  have hids := map_hybridID_eq hbuilt
  have hresult : KeysAtRest C key (learnAll known staged)
      (staged.foldl (HybridWallet.registerPoolKey C fUnused) { w with db := db }) ∧
      (staged.foldl (HybridWallet.registerPoolKey C fUnused) { w with db := db }).IsLocked =
        false := (h.withDb db).registerPoolKeys hunlocked
    (fun entry hentry => by
      obtain ⟨_, _, hjoin, _⟩ := exists_fresh_of_mem hbuilt hentry
      exact hjoin.withDb db)
    (fun entry hentry => by
      obtain ⟨f, hf, _, hkey, _⟩ := exists_fresh_of_mem hbuilt hentry
      rw [hkey]
      exact hfresh.time f hf)
    (fun entry hentry => by
      have hmem : entry.hybridID ∈ freshIDs C fresh := by
        rw [← hids]
        exact List.mem_map_of_mem hentry
      rw [← h.loaded hunlocked, loadedSecrets, hfresh.isNew _ hmem]
      rfl)
    (by
      rw [hids]
      exact hfresh.nodup) fUnused
  exact ⟨_, hresult⟩

/-! ## EnsureHybridKey and import -/

variable {db : WalletRecords}

/-- A key that `EnsureHybridKey` makes keeps the invariant. -/
theorem KeysAtRest.ensured (h : KeysAtRest C key known w) {keyID : CKeyID} {pkey : EVP_PKEY}
    {nTime : ℤ} (hensured : EnsuredKey C o w keyID ecdsa pkey nTime hybridID disk db)
    (hpkey : C.d2iMLDSA pkey = some pkey) (htime : 0 < toInt32 nTime)
    (hnew : w.mapHybridKeys.lookup hybridID = none) :
    w.IsLocked = false ∧
      KeysAtRest C key (learn known hybridID (hybridKeyOf ecdsa pkey nTime))
        (({ w with db := db } : HybridWallet).addHybridKey hybridID
          (hybridKeyOf ecdsa pkey nTime) disk) := by
  have hunlocked : w.IsLocked = false := isLocked_of_GetKey hensured.found
  obtain ⟨made, _, rfl, hmade, _, _⟩ :=
    persistHybridKey_eq_some h.fileBacked hunlocked hensured.persist
  refine ⟨hunlocked, (h.withDb db).addHybridKey hunlocked ⟨?_, htime⟩ hmade ?_⟩
  · exact storableKey_hybridKeyOf (keyPair_of_GetKey hensured.found) hpkey hensured.valid
      hensured.derives
  · rw [← h.loaded hunlocked, loadedSecrets, hnew]
    rfl

/-- A key that is imported keeps the invariant. -/
theorem KeysAtRest.imported (h : KeysAtRest C key known w) {r : HybridImport}
    (himported : ImportedKey C o w r hybridID hk ecdsa cryptedSecret disk db)
    (htime : 0 < toInt32 r.nCreateTime) :
    let w' := w.registerImport C r hybridID hk ecdsa cryptedSecret
      (! w.HaveKey (C.GetID ecdsa.vchPubKey)) disk db
    KeysAtRest C key (learn known hybridID hk) w' ∧ w'.IsLocked = false := by
  have hunlocked : w.IsLocked = false := himported.isLocked
  obtain ⟨made, rfl, hmade, _⟩ := persistImport_eq_ok h.fileBacked himported.persist
  obtain ⟨_, _, imported, pkey, _, hset, hpkey, rfl⟩ := himported.made
  have hpair := (keyPair_of_SetSecret hset).1
  have hkey : RestorableKey C hybridID (hybridKeyOf imported pkey r.nCreateTime) :=
    ⟨storableKey_hybridKeyOf hpair hpkey himported.valid himported.derives, htime⟩
  have hnew : known hybridID = none := by
    rw [← h.loaded hunlocked, loadedSecrets, himported.isNew]
    rfl
  obtain ⟨w₁, hw₁, hkept, hcrypt, hmaster⟩ : ∃ w₁, w₁ =
      (if (! w.HaveKey (C.GetID ecdsa.vchPubKey)) = true then
        ({ w with db := db } : HybridWallet).addLegacyKey C ecdsa (.ofTime r.nCreateTime)
          cryptedSecret
      else { w with db := db }) ∧
      KeysAtRest C key known w₁ ∧ w₁.fUseCrypto = w.fUseCrypto ∧
      w₁.vMasterKey = w.vMasterKey := by
    by_cases hpersist : (! w.HaveKey (C.GetID ecdsa.vchPubKey)) = true
    · have hcrypted := himported.crypted
      rw [hpersist] at hcrypted
      rw [if_pos hpersist]
      exact ⟨_, rfl, (h.withDb db).addLegacyKey
        (keyPair_of_SetPrivKey (GetCKey_eq_some himported.legacy).1) hcrypted,
        addLegacyKey_fUseCrypto .., addLegacyKey_vMasterKey ..⟩
    · rw [if_neg hpersist]
      exact ⟨_, rfl, h.withDb db, rfl, rfl⟩
  have hstill : w₁.IsLocked = false := by rw [IsLocked_congr hcrypt hmaster, hunlocked]
  have hresult := hkept.addHybridKey hstill hkey
    (by rw [MakeHybridKeyDisk_congr hcrypt hmaster, hmade]) hnew
  rw [hw₁] at hresult hstill
  exact ⟨hresult.withRest _ _, hstill⟩

/-! ## Encryption -/

section Encryption

variable {C : PassphraseCrypto} {pass : SecureString}

/-- What the loop over the legacy keys keeps: the keys that it has encrypted open. -/
structure EncryptingKeys (C : KeyCrypto) (vMasterKey : CKeyingMaterial) (w₀ w : HybridWallet) :
    Prop where
  fileBacked : w.fFileBacked = w₀.fFileBacked
  crypted : w.fUseCrypto = true
  hybridKeys : w.mapHybridKeys = w₀.mapHybridKeys
  hybridDisk : w.mapHybridKeyDisk = w₀.mapHybridKeyDisk
  masterKeys : w.mapMasterKeys = w₀.mapMasterKeys
  opens : ∀ keyID entry, w.mapCryptedKeys.lookup keyID = some entry → Opens C vMasterKey entry

variable {w₀ : HybridWallet} {e : EncryptionInput C.toKeyCrypto} {kMasterKey : CMasterKey}

theorem EncryptingKeys.step {address : CKeyID} (h : EncryptingKeys C.toKeyCrypto vMasterKey w₀ w)
    (hstep : w.encryptKey C o vMasterKey address = some w') :
    EncryptingKeys C.toKeyCrypto vMasterKey w₀ w' := by
  obtain ⟨secret, _, pubKey, crypted, _, _, _, hpub, hcrypted, _, rfl⟩ := encryptKey_eq_some hstep
  refine ⟨h.fileBacked, h.crypted, h.hybridKeys, h.hybridDisk, h.masterKeys, ?_⟩
  intro keyID entry hlookup
  rw [lookup_insert_ite] at hlookup
  split at hlookup
  · cases hlookup
    exact ⟨secret, C.DecryptSecret_EncryptSecret hcrypted, hpub⟩
  · exact h.opens keyID entry hlookup

structure EncryptingHybridKeys (C : KeyCrypto) (vMasterKey : CKeyingMaterial)
    (known : CHybridKeyID → Option HybridSecrets) (w₀ w : HybridWallet)
    (rest : List CHybridKeyID) : Prop where
  keys : EncryptingKeys C vMasterKey { w₀ with mapHybridKeyDisk := w.mapHybridKeyDisk } w
  atRest : ∀ hybridID, Rel (RecordAtRest C vMasterKey hybridID) (known hybridID)
      (w.mapHybridKeyDisk.lookup hybridID) ∨
    hybridID ∈ rest

theorem EncryptingHybridKeys.step {rest : List CHybridKeyID}
    (hrestorable : ∀ hybridID hk, w₀.mapHybridKeys.lookup hybridID = some hk →
      RestorableKey C.toKeyCrypto hybridID hk) (hloaded : loadedSecrets w₀ = known)
    (h : EncryptingHybridKeys C.toKeyCrypto vMasterKey known w₀ w (hybridID :: rest))
    (hstep : w.encryptHybridKey C o vMasterKey hybridID = some w') :
    EncryptingHybridKeys C.toKeyCrypto vMasterKey known w₀ w' rest := by
  obtain ⟨hk, disk, db, hlookup, hdisk, _, rfl⟩ := encryptHybridKey_eq_some hstep
  have hkeys := h.keys
  refine ⟨⟨hkeys.fileBacked, hkeys.crypted, hkeys.hybridKeys, rfl, hkeys.masterKeys, hkeys.opens⟩,
    ?_⟩
  intro id
  rw [lookup_insert_ite]
  by_cases hid : id = hybridID
  · left
    subst hid
    rw [hkeys.hybridKeys] at hlookup
    rw [if_pos rfl, ← hloaded, loadedSecrets, hlookup]
    exact Rel.some ⟨hk, hrestorable _ hk hlookup, rfl, hdisk⟩
  · rw [if_neg hid]
    rcases h.atRest id with hrel | hmem
    · exact Or.inl hrel
    · right
      exact (mem_cons.mp hmem).resolve_left hid

theorem encryptAll_atRest {kMasterKey : CMasterKey} (hfile : w.fFileBacked = true)
    (hrecords : w.mapHybridKeyDisk = ∅)
    (hrestorable : ∀ hybridID hk, w.mapHybridKeys.lookup hybridID = some hk →
      RestorableKey C.toKeyCrypto hybridID hk)
    (hloaded : loadedSecrets w = known) (hlength : vMasterKey.length = WALLET_CRYPTO_KEY_SIZE)
    (hencrypt : w.encryptAll C o kMasterKey vMasterKey = some w') :
    let locked := ({ w' with pwalletdbEncryption := false } : HybridWallet).Lock.2
    EncryptedWallet C.toKeyCrypto vMasterKey known locked ∧ locked.IsLocked = true ∧
      locked.mapMasterKeys = w.mapMasterKeys := by
  obtain ⟨w₁, hempty, hlegacy, hhybrid⟩ := encryptAll_eq_some hfile hencrypt
  have hkeys : EncryptingKeys C.toKeyCrypto vMasterKey w w₁ := by
    refine foldlM_invariant (P := fun w₁ _ => EncryptingKeys C.toKeyCrypto vMasterKey w w₁)
      (fun _ _ _ _ h hstep => h.step hstep) ?_ hlegacy
    refine ⟨rfl, rfl, rfl, rfl, rfl, ?_⟩
    intro keyID entry hlookup
    rw [hempty] at hlookup
    cases hlookup
  have hrun : EncryptingHybridKeys C.toKeyCrypto vMasterKey known w w' [] := by
    refine foldlM_invariant (P := EncryptingHybridKeys C.toKeyCrypto vMasterKey known w)
      (fun _ _ _ _ h hstep => h.step hrestorable hloaded hstep) ?_ hhybrid
    refine ⟨⟨hkeys.fileBacked, hkeys.crypted, hkeys.hybridKeys, rfl, hkeys.masterKeys,
      hkeys.opens⟩, ?_⟩
    intro hybridID
    rw [mem_sortedKeys, hkeys.hybridKeys]
    rw [hkeys.hybridDisk, hrecords]
    cases hlookup : w.mapHybridKeys.lookup hybridID with
    | some hk => exact Or.inr rfl
    | none =>
      left
      rw [← hloaded, loadedSecrets, hlookup]
      exact Rel.none
  have hdone := hrun.keys
  have hcrypted : w'.fUseCrypto = true := hdone.crypted
  have hlock := Lock_of_crypted (w := { w' with pwalletdbEncryption := false }) hcrypted
  rw [hlock]
  refine ⟨?_, by simp [IsLocked, lock, hcrypted], hdone.masterKeys⟩
  refine ⟨hdone.fileBacked.trans hfile, hdone.crypted, hlength, hdone.opens, ?_, Or.inl ⟨rfl, rfl⟩⟩
  intro hybridID
  exact (hrun.atRest hybridID).resolve_right not_mem_nil

theorem openMasterKey_newMasterKey (h : newMasterKey C pass e = some kMasterKey) :
    C.openMasterKey pass kMasterKey = some e.vMasterKey := by
  obtain ⟨⟨chKey, chIV⟩, hset, rfl⟩ := map_eq_some_iff.mp h
  rw [PassphraseCrypto.openMasterKey, hset]
  exact C.aesDecrypt_aesEncrypt chKey chIV e.vMasterKey

section

variable (h : EncryptedWallet C.toKeyCrypto vMasterKey known w)
include h

theorem EncryptedWallet.Unlock (hlocked : w.IsLocked = true)
    (hmaster : (sortedKeys w.mapMasterKeys).filterMap w.mapMasterKeys.lookup = [kMasterKey])
    (hopen : C.openMasterKey pass kMasterKey = some vMasterKey) :
    ∃ w', w.Unlock C o pass = (true, w') ∧
      EncryptedWallet C.toKeyCrypto vMasterKey known w' ∧ w'.IsLocked = false ∧
      loadedSecrets w' = known ∧ w'.db = w.db ∧ w'.mapMasterKeys = w.mapMasterKeys ∧
      w'.mapCryptedKeys = w.mapCryptedKeys := by
  obtain ⟨w', hunlock, hrest⟩ := h.unlockWith (o := o) hlocked
  refine ⟨w', ?_, hrest⟩
  rw [HybridWallet.Unlock, if_neg (not_not.mpr hlocked), hmaster]
  rw [HybridWallet.unlockFrom, hopen]
  dsimp only
  rw [hunlock]

/-- The entries of a new pool join the wallet. -/
theorem EncryptedWallet.addPoolEntries {vStaged : List (ℕ × CStagedKey)}
    (hstaged : ∀ entry ∈ vStaged, KeyPair C.toKeyCrypto entry.2.key ∧
      w.cryptedSecretOf C.toKeyCrypto true entry.2.key = some entry.2.vchCryptedSecret) :
    EncryptedWallet C.toKeyCrypto vMasterKey known
      (vStaged.foldl (addPoolEntry C) w) := by
  induction vStaged generalizing w with
  | nil => exact h
  | cons entry vStaged ih =>
    obtain ⟨hpair, hcrypted⟩ := hstaged entry mem_cons_self
    have hadded : EncryptedWallet C.toKeyCrypto vMasterKey known
        (w.addLegacyKey C.toKeyCrypto entry.2.key entry.2.metadata entry.2.vchCryptedSecret) := by
      have h : KeysAtRest C.toKeyCrypto (some vMasterKey) known w := h
      exact h.addLegacyKey hpair hcrypted
    have hstep : EncryptedWallet C.toKeyCrypto vMasterKey known
        (addPoolEntry C w entry) :=
      ⟨hadded.fileBacked, hadded.crypted, hadded.length, hadded.opens, hadded.atRest, hadded.state⟩
    apply ih hstep
    intro other hother
    obtain ⟨hpair', hcrypted'⟩ := hstaged other (mem_cons_of_mem _ hother)
    refine ⟨hpair', ?_⟩
    rw [← hcrypted']
    apply cryptedSecretOf_congr
    · exact addLegacyKey_fUseCrypto _ _ _ entry.2.metadata _
    · exact addLegacyKey_vMasterKey _ _ _ entry.2.metadata _

/-- A new pool of legacy keys does not disturb the keys at rest. -/
theorem EncryptedWallet.NewKeyPool
    {oClear oRefill : WalletDbOutcome} {newKeys : List (NewKey C.toKeyCrypto)} :
    EncryptedWallet C.toKeyCrypto vMasterKey known (w.NewKeyPool C oClear oRefill newKeys).2 := by
  have hpool : w.NewKeyPool C oClear oRefill newKeys =
      ((w.NewKeyPool C oClear oRefill newKeys).1, (w.NewKeyPool C oClear oRefill newKeys).2) := rfl
  generalize (w.NewKeyPool C oClear oRefill newKeys).2 = made at hpool ⊢
  rcases NewKeyPool_cases hpool with rfl | ⟨cleared, hcleared, hnew⟩
  · exact h
  · obtain ⟨db, _, rfl⟩ := map_eq_some_iff.mp hcleared
    have hkept : EncryptedWallet C.toKeyCrypto vMasterKey known
        { w with db := db, setKeyPool := ∅ } :=
      ⟨h.fileBacked, h.crypted, h.length, h.opens, h.atRest, h.state⟩
    rcases hnew with rfl | ⟨_, hfilled⟩
    · exact hkept
    · obtain ⟨vStaged, db', hstaged, rfl⟩ := refillKeyPool_eq_some hfilled
      apply (hkept.withDb db').addPoolEntries
      intro entry hentry
      obtain ⟨fresh, _, hkey, hcrypted⟩ := exists_newKey_of_mem hstaged hentry
      refine ⟨?_, hcrypted⟩
      rw [hkey]
      exact (keyPair_of_SetSecret fresh.set).1

end

/-- A wallet that `EncryptWallet` has encrypted is locked, and all its keys are at rest. -/
theorem PlainWallet.EncryptWallet (h : PlainWallet C.toKeyCrypto known w) {o : EncryptionOutcome}
    (hresult : (w.EncryptWallet C pass e o).result = some true) :
    EncryptedWallet C.toKeyCrypto e.vMasterKey known (w.EncryptWallet C pass e o).wallet ∧
      (w.EncryptWallet C pass e o).wallet.IsLocked = true := by
  rcases EncryptWallet_cases (o := o) h.fileBacked with hend | ⟨_, _, _, _, _, hend⟩ | hend |
    ⟨kMasterKey, encrypted, hmaster, _, _, _, _, hall, hend⟩
  · rw [hend] at hresult
    cases hresult
  · rw [hend] at hresult
    cases hresult
  · rw [hend] at hresult
    cases hresult
  · rw [hend]
    obtain ⟨hatRest, hlocked, hmasters⟩ := @encryptAll_atRest _ _ _ (withMasterKey w kMasterKey)
      _ _ _ h.fileBacked h.noRecords h.restorable h.loaded e.length_vMasterKey hall
    have hmasterKeys : (sortedKeys (withMasterKey w kMasterKey).mapMasterKeys).filterMap
        (withMasterKey w kMasterKey).mapMasterKeys.lookup = [kMasterKey] := by
      rw [withMasterKey, h.noMasterKeys, sortedKeys_insert_empty, filterMap_cons,
        Finmap.lookup_insert, filterMap_nil]
    rw [← hmasters] at hmasterKeys
    obtain ⟨unlocked, hunlock, hunlocked, _⟩ := hatRest.Unlock (o := o.unlock) hlocked hmasterKeys
      (openMasterKey_newMasterKey hmaster)
    rw [finishEncryption, hunlock]
    exact hunlocked.NewKeyPool.lock

end Encryption

end Phoenixcoin.Analysis
