import Phoenixcoin.Analysis.LockUnlock
import Phoenixcoin.Program.WalletReload

/-!
# The restart of an encrypted wallet

A database in which every key is encrypted under the master key of one record is loaded as a
wallet that the passphrase unlocks, with all of its keys.
-/

set_option autoImplicit false

namespace Phoenixcoin.Analysis

open Lib Program List Option HybridWallet Table

variable {C : KeyCrypto} {vMasterKey : CKeyingMaterial} {db : WalletRecords} {w w' : HybridWallet}
  {known : CHybridKeyID → Option HybridSecrets}

def Sealed (C : KeyCrypto) (vMasterKey : CKeyingMaterial) (pubKey : CPubKey)
    (vchCryptedSecret : valtype) : Prop :=
  ∃ secret, C.ecPubKey secret = some pubKey ∧
    C.EncryptSecret vMasterKey secret (C.Hash pubKey) = some vchCryptedSecret

def FoundOut (C : KeyCrypto) (vMasterKey other : CKeyingMaterial) : Prop :=
  ∀ pubKey vchCryptedSecret, Sealed C vMasterKey pubKey vchCryptedSecret →
    (C.DecryptSecret other vchCryptedSecret (C.Hash pubKey)).bind C.ecPubKey ≠ some pubKey

/-- A database without plaintext keys, in which no two encrypted keys have one identifier. -/
structure EncryptedRecords (C : KeyCrypto) (db : WalletRecords) : Prop where
  key : db.key = ∅
  wkey : db.wkey = ∅
  ids : ∀ pubKey pubKey', pubKey ∈ db.ckey → pubKey' ∈ db.ckey → C.GetID pubKey = C.GetID pubKey' →
    pubKey = pubKey'

/-- A wallet as it is loaded from a database with encrypted keys. -/
structure ReloadedWallet (C : KeyCrypto) (db : WalletRecords) (w : HybridWallet) : Prop where
  fileBacked : w.fFileBacked = true
  crypted : w.fUseCrypto = true
  noMasterKey : w.vMasterKey = []
  noHybridKeys : w.mapHybridKeys = ∅
  cryptedKeys : ∀ keyID entry, w.mapCryptedKeys.lookup keyID = some entry ↔
    C.GetID entry.1 = keyID ∧ db.ckey.lookup entry.1 = some entry.2
  hybridRecords : w.mapHybridKeyDisk = db.hyb
  masterKeys : w.mapMasterKeys = db.mkey

/-! ## Legacy records -/

@[simp]
theorem readRecords_empty {V : Type} (read : HybridWallet → CPubKey → V → Option HybridWallet)
    (w : HybridWallet) : readRecords ∅ read w = some w := by
  rw [readRecords, Finmap.keys_empty, Finset.sort_empty]
  rfl

theorem LoadCryptedKey_run {table : Table CPubKey valtype} {l : List CPubKey}
    (hl : ∀ pubKey ∈ l, pubKey ∈ table) (hkeys : w.mapKeys = ∅) :
    l.foldlM (fun w vchPubKey =>
        (table.lookup vchPubKey).bind (w.LoadCryptedKey C vchPubKey)) w =
      some { w with
        fUseCrypto := w.fUseCrypto || ! l.isEmpty
        mapCryptedKeys := l.foldl (fun t pubKey =>
            t.insert (C.GetID pubKey) (pubKey, (table.lookup pubKey).getD []))
          w.mapCryptedKeys } := by
  induction l generalizing w with
  | nil => simp
  | cons pubKey l ih =>
    obtain ⟨vchCryptedSecret, hlookup⟩ := Finmap.mem_iff.mp (hl pubKey mem_cons_self)
    have hstep : (table.lookup pubKey).bind (w.LoadCryptedKey C pubKey) = some { w with
        fUseCrypto := true
        mapCryptedKeys := w.mapCryptedKeys.insert (C.GetID pubKey)
          (pubKey, vchCryptedSecret) } := by
      rw [hlookup, bind_some, LoadCryptedKey, if_neg (by simp [hkeys])]
    rw [foldlM_cons_eq_some]
    refine ⟨_, hstep, ?_⟩
    refine (ih (w := { w with
      fUseCrypto := true
      mapCryptedKeys := w.mapCryptedKeys.insert (C.GetID pubKey) (pubKey, vchCryptedSecret) })
      (fun other hother => hl other (mem_cons_of_mem _ hother)) hkeys).trans ?_
    rw [foldl_cons, hlookup]
    simp

def loadedCryptedKeys (C : KeyCrypto) (db : WalletRecords) : Table CKeyID (CPubKey × valtype) :=
  (db.ckey.keys.sort bytesLe).foldl (fun t pubKey =>
    t.insert (C.GetID pubKey) (pubKey, (db.ckey.lookup pubKey).getD [])) ∅

theorem EncryptedRecords.loadedCryptedKeys_lookup (h : EncryptedRecords C db)
    (keyID : CKeyID) (entry : CPubKey × valtype) :
    (loadedCryptedKeys C db).lookup keyID = some entry ↔
      C.GetID entry.1 = keyID ∧ db.ckey.lookup entry.1 = some entry.2 := by
  have hmem (pubKey : CPubKey) : pubKey ∈ db.ckey.keys.sort bytesLe ↔ pubKey ∈ db.ckey := by
    rw [Finset.mem_sort, Finmap.mem_keys]
  rw [loadedCryptedKeys, lookup_foldl_insert]
  · constructor
    · rintro (⟨pubKey, hin, hid, rfl⟩ | ⟨_, hnone⟩)
      · refine ⟨hid, ?_⟩
        obtain ⟨vchCryptedSecret, hlookup⟩ := Finmap.mem_iff.mp ((hmem pubKey).mp hin)
        rw [hlookup]
        rfl
      · cases hnone
    · rintro ⟨hid, hlookup⟩
      refine Or.inl ⟨entry.1, (hmem entry.1).mpr (Finmap.mem_of_lookup_eq_some hlookup), hid, ?_⟩
      rw [hlookup]
      rfl
  · intro pubKey hin pubKey' hin'
    exact h.ids pubKey pubKey' ((hmem pubKey).mp hin) ((hmem pubKey').mp hin')

/-- The legacy records are loaded. -/
theorem EncryptedRecords.loadRecords (h : EncryptedRecords C db) :
    ∃ w, HybridWallet.loadRecords C db = some w ∧ w.fFileBacked = true ∧
      w.fUseCrypto = (! (db.ckey.keys.sort bytesLe).isEmpty) ∧ w.vMasterKey = [] ∧
      w.mapCryptedKeys = loadedCryptedKeys C db ∧ w.mapHybridKeys = ∅ ∧ w.mapHybridKeyDisk = ∅ ∧
      w.mapMasterKeys = db.mkey ∧ w.db = db := by
  have hcrypted := LoadCryptedKey_run (C := C) (w := HybridWallet.blank db)
    (l := db.ckey.keys.sort bytesLe) (fun pubKey hin => by
      rwa [Finset.mem_sort] at hin) rfl
  rw [HybridWallet.loadRecords, h.key, h.wkey]
  simp only [readRecords_empty, bind_eq_bind, bind_some]
  rw [HybridWallet.readRecords, hcrypted]
  exact ⟨_, rfl, rfl, rfl, rfl, rfl, rfl, rfl, rfl, rfl⟩

/-! ## Hybrid records -/

theorem cacheHybridKey_run {l : List CHybridKeyID}
    (hchecks : ∀ hybridID disk, w.db.hyb.lookup hybridID = some disk →
      disk.CheckChecksum C = true) :
    l.foldl (cacheHybridKey C) w = { w with
      mapHybridKeyDisk := l.foldl (fun t hybridID =>
          (w.db.hyb.lookup hybridID).elim t fun disk => t.insert hybridID disk)
        w.mapHybridKeyDisk } := by
  induction l generalizing w with
  | nil => rfl
  | cons hybridID l ih =>
    have hstep : w.cacheHybridKey C hybridID = { w with
        mapHybridKeyDisk := (w.db.hyb.lookup hybridID).elim w.mapHybridKeyDisk fun disk =>
          w.mapHybridKeyDisk.insert hybridID disk } := by
      unfold cacheHybridKey
      cases hlookup : w.db.hyb.lookup hybridID with
      | none => rfl
      | some disk =>
        dsimp only
        rw [if_pos (hchecks hybridID disk hlookup)]
        rfl
    rw [foldl_cons, hstep]
    exact ih hchecks

/-- All records are kept. -/
theorem cachedRecords_eq (records : Table CHybridKeyID CHybridKeyDisk) :
    (sortedKeys records).foldl (fun t hybridID =>
      (records.lookup hybridID).elim t fun disk => t.insert hybridID disk) ∅ = records := by
  have hrun (l : List CHybridKeyID) (t : Table CHybridKeyID CHybridKeyDisk) (id : CHybridKeyID) :
      (l.foldl (fun t hybridID =>
        (records.lookup hybridID).elim t fun disk => t.insert hybridID disk) t).lookup id =
      if id ∈ l then (records.lookup id).or (t.lookup id) else t.lookup id := by
    induction l generalizing t with
    | nil => simp
    | cons hybridID l ih =>
      rw [foldl_cons, ih]
      cases hlookup : records.lookup hybridID with
      | none =>
        by_cases hid : id = hybridID
        · subst hid
          simp [hlookup]
        · simp [hid]
      | some disk =>
        rw [elim_some]
        by_cases hid : id = hybridID
        · subst hid
          simp [hlookup]
        · simp [hid]
  apply Finmap.ext_lookup
  intro id
  rw [hrun]
  simp only [mem_sortedKeys]
  cases records.lookup id <;> simp

/-- A database whose keys are encrypted is loaded. -/
theorem EncryptedRecords.loadKeys (h : EncryptedRecords C db) :
    ∃ w, HybridWallet.loadKeys C db = some w ∧
      ((∃ pubKey, pubKey ∈ db.ckey) → (∀ hybridID disk, db.hyb.lookup hybridID = some disk →
        disk.CheckChecksum C = true) → ReloadedWallet C db w) := by
  obtain ⟨w, hload, hfile, hcrypted, hmaster, hkeys, hhybrid, hdisk, hmasters, hdb⟩ := h.loadRecords
  refine ⟨w.LoadHybridKeys C, ?_, ?_⟩
  · rw [HybridWallet.loadKeys, hload]
    rfl
  · rintro ⟨pubKey, hpubKey⟩ hchecks
    have hcrypt : w.fUseCrypto = true := by
      rw [hcrypted]
      have hmem : pubKey ∈ db.ckey.keys.sort bytesLe := by
        rw [Finset.mem_sort]
        exact hpubKey
      cases hlist : db.ckey.keys.sort bytesLe with
      | nil =>
        rw [hlist] at hmem
        cases hmem
      | cons _ _ => rfl
    have hrun := cacheHybridKey_run (C := C) (l := sortedKeys w.db.hyb)
      (w := { w with setUsedHybridKeys := w.db.hybused.getD ∅ }) (by rwa [hdb])
    have heq : w.LoadHybridKeys C = { w with
        setUsedHybridKeys := w.db.hybused.getD ∅
        mapHybridKeyDisk := db.hyb } := by
      rw [HybridWallet.LoadHybridKeys, CKeyStore.IsCrypted, if_pos hcrypt]
      refine hrun.trans ?_
      rw [hdisk, hdb, cachedRecords_eq]
    rw [heq]
    exact {
      fileBacked := hfile
      crypted := hcrypt
      noMasterKey := hmaster
      noHybridKeys := hhybrid
      cryptedKeys := by
        rw [hkeys]
        exact h.loadedCryptedKeys_lookup
      hybridRecords := rfl
      masterKeys := hmasters }

/-! ## Unlock after the restart -/

section Unlock

variable {C : PassphraseCrypto} {pass : SecureString} {o : WalletDbOutcome}

/-- Where all records are encrypted, a round changes what is loaded under one identifier and
nothing else; a failure is not forgotten. -/
theorem decryptHybridKey_frame (fOk : Bool) (hybridID : CHybridKeyID)
    (hall : ∀ hybridID disk, w.mapHybridKeyDisk.lookup hybridID = some disk →
      disk.IsEncrypted = true) :
    ∃ ok keys unused, decryptHybridKey C.toKeyCrypto o vMasterKey (fOk, w) hybridID =
        (ok, withLoaded w keys unused) ∧ (ok = true → fOk = true) ∧
      ∀ id, id ≠ hybridID → keys.lookup id = w.mapHybridKeys.lookup id := by
  have hfailed : ∃ ok keys unused, (false, w) = (ok, withLoaded w keys unused) ∧
      (ok = true → fOk = true) ∧ ∀ id, id ≠ hybridID → keys.lookup id = w.mapHybridKeys.lookup id :=
    ⟨false, w.mapHybridKeys, w.setUnusedHybridKeys, rfl, nofun, fun _ _ => rfl⟩
  have hsame : ∃ ok keys unused, (fOk, w) = (ok, withLoaded w keys unused) ∧
      (ok = true → fOk = true) ∧ ∀ id, id ≠ hybridID → keys.lookup id = w.mapHybridKeys.lookup id :=
    ⟨fOk, w.mapHybridKeys, w.setUnusedHybridKeys, rfl, id, fun _ _ => rfl⟩
  unfold decryptHybridKey
  dsimp only
  split
  · exact hsame
  · next disk hdisk =>
    split
    · exact hsame
    · split
      · exact hfailed
      · next mem _ =>
        split
        · exact hfailed
        · rw [if_pos (hall hybridID disk hdisk)]
          refine ⟨fOk, _, _, rfl, id, ?_⟩
          intro other hother
          rw [lookup_insert_ite, if_neg hother]

/-- The whole loop. -/
theorem decryptHybridKeys_frame {l : List CHybridKeyID} (fOk : Bool)
    (hall : ∀ hybridID disk, w.mapHybridKeyDisk.lookup hybridID = some disk →
      disk.IsEncrypted = true) :
    ∃ ok keys unused, l.foldl (decryptHybridKey C.toKeyCrypto o vMasterKey) (fOk, w) =
      (ok, withLoaded w keys unused) ∧ (ok = true → fOk = true) := by
  induction l generalizing w fOk with
  | nil => exact ⟨fOk, w.mapHybridKeys, w.setUnusedHybridKeys, rfl, id⟩
  | cons hybridID l ih =>
    obtain ⟨ok, keys, unused, hstep, hok, _⟩ :=
      decryptHybridKey_frame (o := o) fOk hybridID hall
    obtain ⟨ok', keys', unused', hrun, hok'⟩ := ih (w := withLoaded w keys unused) ok hall
    refine ⟨ok', keys', unused', ?_, fun h => hok (hok' h)⟩
    rw [foldl_cons, hstep, hrun]
    rfl

variable {hybridID : CHybridKeyID} {l : List CMasterKey} {kMasterKey : CMasterKey}

variable {disk : CHybridKeyDisk} {rest : List CMasterKey} {other : CKeyingMaterial} {keyID : CKeyID}

/-- A record that gives no key back makes the loop fail. -/
theorem decryptHybridKeys_spoiled {l : List CHybridKeyID} (fOk : Bool) (hmem : hybridID ∈ l)
    (hall : ∀ hybridID disk, w.mapHybridKeyDisk.lookup hybridID = some disk →
      disk.IsEncrypted = true) (hdisk : w.mapHybridKeyDisk.lookup hybridID = some disk)
    (hnone : w.mapHybridKeys.lookup hybridID = none)
    (hspoiled : disk.materialize C.toKeyCrypto vMasterKey = none) :
    (l.foldl (decryptHybridKey C.toKeyCrypto o vMasterKey) (fOk, w)).1 = false := by
  induction l generalizing w fOk with
  | nil => cases hmem
  | cons other l ih =>
    rw [foldl_cons]
    by_cases heq : hybridID = other
    · have hstep : decryptHybridKey C.toKeyCrypto o vMasterKey (fOk, w) other =
          (false, w) := by
        subst heq
        unfold decryptHybridKey
        dsimp only
        rw [hdisk]
        simp [hnone, hspoiled]
      obtain ⟨ok, _, _, hrun, hok⟩ := decryptHybridKeys_frame (C := C) (o := o) (l := l) false hall
      rw [hstep, hrun]
      simpa using hok
    · obtain ⟨ok, keys, unused, hstep, _, hkept⟩ :=
        decryptHybridKey_frame (C := C) (o := o) fOk other hall
      rw [hstep]
      exact ih (w := withLoaded w keys unused) _ ((mem_cons.mp hmem).resolve_left heq) hall hdisk
        ((hkept hybridID heq).trans hnone)

/-- The loop of `Unlock` over master keys that open no key of the wallet. -/
theorem unlockFrom_foundOut
    (hl : ∀ kMasterKey ∈ l, ∀ other, C.openMasterKey pass kMasterKey = some other →
      w.opensFirstKey C.toKeyCrypto other = false) :
    w.unlockFrom C o pass (l ++ rest) =
      if ∀ kMasterKey ∈ l, (C.openMasterKey pass kMasterKey).isSome = true then
        w.unlockFrom C o pass rest
      else (false, w) := by
  induction l with
  | nil => simp
  | cons kMasterKey l ih =>
    have ih := ih fun k hk => hl k (mem_cons_of_mem _ hk)
    rw [cons_append]
    conv_lhs => unfold unlockFrom
    cases hopen : C.openMasterKey pass kMasterKey with
    | none => simp [hopen]
    | some other =>
      have hfails : w.unlockWith C.toKeyCrypto o other = none := by
        rw [unlockWith, hl kMasterKey mem_cons_self other hopen]
        rfl
      dsimp only
      rw [hfails]
      simp [hopen, ih]

/-- A master key that is found out does not open the first key. -/
theorem opensFirstKey_of_foundOut
    (hsealed : ∀ keyID entry, w.mapCryptedKeys.lookup keyID = some entry →
      Sealed C.toKeyCrypto vMasterKey entry.1 entry.2)
    (hkeys : ∃ keyID, (w.mapCryptedKeys.lookup keyID).isSome)
    (hfound : FoundOut C.toKeyCrypto vMasterKey other) :
    w.opensFirstKey C.toKeyCrypto other = false := by
  obtain ⟨keyID, hkeyID⟩ := hkeys
  have hmem : keyID ∈ sortedKeys w.mapCryptedKeys := mem_sortedKeys.mpr hkeyID
  unfold opensFirstKey
  cases hlist : sortedKeys w.mapCryptedKeys with
  | nil =>
    rw [hlist] at hmem
    cases hmem
  | cons first rest =>
    have hfirst : (w.mapCryptedKeys.lookup first).isSome :=
      mem_sortedKeys.mp (hlist ▸ mem_cons_self)
    obtain ⟨entry, hentry⟩ := isSome_iff_exists.mp hfirst
    have hfails := hfound entry.1 entry.2 (hsealed first entry hentry)
    rw [head?_cons, bind_some, hentry]
    simpa using hfails

theorem GetKey_of_sealed {secret : CSecret} {pubKey : CPubKey} {vchCryptedSecret : valtype}
    (hcrypted : w.fUseCrypto = true)
    (hlookup : w.mapCryptedKeys.lookup keyID = some (pubKey, vchCryptedSecret))
    (hpub : C.ecPubKey secret = some pubKey)
    (hencrypt : C.EncryptSecret w.vMasterKey secret (C.Hash pubKey) = some vchCryptedSecret) :
    w.toCKeyStore.GetKey C.toKeyCrypto keyID = some ⟨secret, pubKey, true⟩ := by
  obtain ⟨hsecret, hlength⟩ := C.length_ecPubKey secret pubKey hpub
  rw [CKeyStore.GetKey, if_pos hcrypted, hlookup]
  simp [C.DecryptSecret_EncryptSecret hencrypt, hsecret, hlength, KeyCrypto.SetSecret, hpub]

/-- A locked wallet gives no key. -/
theorem GetKey_of_locked (hcrypted : w.fUseCrypto = true) (hlocked : w.vMasterKey = []) :
    w.toCKeyStore.GetKey C.toKeyCrypto keyID = none := by
  have hnone (vchCiphertext : valtype) (nIV : uint256) :
      C.DecryptSecret w.vMasterKey vchCiphertext nIV = none := by
    rw [hlocked]
    exact if_neg (by decide)
  rw [CKeyStore.GetKey, if_pos hcrypted]
  cases w.mapCryptedKeys.lookup keyID with
  | none => rfl
  | some entry => simp [hnone]

def restart (C : PassphraseCrypto) (pass : SecureString) (db : WalletRecords) :
    Option HybridWallet :=
  (loadKeys C.toKeyCrypto db).map fun w =>
    if w.IsLocked then (w.Unlock C {} pass).2 else w

structure SealedRecords (C : KeyCrypto) (vMasterKey : CKeyingMaterial)
    (hybridKeys : Table CHybridKeyID CHybridKey) (db : WalletRecords) : Prop
    extends EncryptedRecords C db where
  length : vMasterKey.length = WALLET_CRYPTO_KEY_SIZE
  ckey : ∀ pubKey vchCryptedSecret, db.ckey.lookup pubKey = some vchCryptedSecret →
    Sealed C vMasterKey pubKey vchCryptedSecret
  hasKey : ∃ pubKey, pubKey ∈ db.ckey
  storable : ∀ hybridID hk, hybridKeys.lookup hybridID = some hk → StorableKey C hybridID hk
  hyb : ∀ hybridID, db.hyb.lookup hybridID = (hybridKeys.lookup hybridID).bind fun hk =>
    CHybridKeyDiskRecord.FromMemoryEncrypted C hk vMasterKey

variable {hybridKeys : Table CHybridKeyID CHybridKey}

section

variable (h : SealedRecords C.toKeyCrypto vMasterKey hybridKeys db)
include h

theorem SealedRecords.recordOf (hlookup : db.hyb.lookup hybridID = some disk) :
    ∃ hk, hybridKeys.lookup hybridID = some hk ∧ StorableKey C.toKeyCrypto hybridID hk ∧
      CHybridKeyDiskRecord.FromMemoryEncrypted C.toKeyCrypto hk vMasterKey = some disk ∧
      RecordOf C.toKeyCrypto vMasterKey hk disk ∧ disk.IsEncrypted = true := by
  rw [h.hyb] at hlookup
  obtain ⟨hk, hhk, hmade⟩ := bind_eq_some_iff.mp hlookup
  have hkey := h.storable hybridID hk hhk
  exact ⟨hk, hhk, hkey, hmade, recordOf_FromMemoryEncrypted hkey hmade⟩

theorem SealedRecords.restart_eq :
    ∃ w, ReloadedWallet C.toKeyCrypto db w ∧ restart C pass db =
      some (w.unlockFrom C {} pass ((sortedKeys db.mkey).filterMap db.mkey.lookup)).2 := by
  obtain ⟨w, hload, hreloaded⟩ := h.loadKeys
  have hw := hreloaded h.hasKey fun hybridID disk hdisk => by
    obtain ⟨_, _, _, _, hof, _⟩ := h.recordOf hdisk
    exact hof.checksum
  have hlocked : w.IsLocked = true := by simp [CKeyStore.IsLocked, hw.crypted, hw.noMasterKey]
  refine ⟨w, hw, ?_⟩
  rw [restart, hload, map_some, if_pos hlocked]
  rw [Unlock, if_neg (not_not.mpr hlocked), hw.masterKeys]

/-- Master keys that are found out open nothing. -/
theorem SealedRecords.foundOut
    (hw : ReloadedWallet C.toKeyCrypto db w) (hfound : FoundOut C.toKeyCrypto vMasterKey other) :
    w.opensFirstKey C.toKeyCrypto other = false := by
  apply opensFirstKey_of_foundOut _ _ hfound
  · intro keyID entry hlookup
    exact h.ckey entry.1 entry.2 ((hw.cryptedKeys keyID entry).mp hlookup).2
  · obtain ⟨pubKey, hpubKey⟩ := h.hasKey
    obtain ⟨vchCryptedSecret, hlookup⟩ := Finmap.mem_iff.mp hpubKey
    exact ⟨C.GetID pubKey, isSome_iff_exists.mpr
      ⟨(pubKey, vchCryptedSecret), (hw.cryptedKeys _ _).mpr ⟨rfl, hlookup⟩⟩⟩

/-- The wallet stays locked where no master key opens it. -/
theorem SealedRecords.restart_locked
    (hmasters : (sortedKeys db.mkey).filterMap db.mkey.lookup = l ++ rest)
    (hl : ∀ kMasterKey ∈ l, ∀ other, C.openMasterKey pass kMasterKey = some other →
      FoundOut C.toKeyCrypto vMasterKey other)
    (hfails : rest = [] ∨ ∃ kMasterKey ∈ l, C.openMasterKey pass kMasterKey = none) :
    ∃ u, restart C pass db = some u ∧ u.fUseCrypto = true ∧ u.vMasterKey = [] := by
  obtain ⟨w, hw, hrestart⟩ := h.restart_eq
  refine ⟨_, hrestart, ?_⟩
  rw [hmasters, unlockFrom_foundOut fun kMasterKey hk other hopen =>
    h.foundOut hw (hl kMasterKey hk other hopen)]
  split
  · next hopens =>
    rcases hfails with rfl | ⟨kMasterKey, hk, hnone⟩
    · exact ⟨hw.crypted, hw.noMasterKey⟩
    · have hsome := hopens kMasterKey hk
      rw [hnone] at hsome
      cases hsome
  · exact ⟨hw.crypted, hw.noMasterKey⟩

section Opened

variable (hmasters : (sortedKeys db.mkey).filterMap db.mkey.lookup = l ++ [kMasterKey])
  (hl : ∀ kMasterKey ∈ l, (∃ other, C.openMasterKey pass kMasterKey = some other) ∧
    ∀ other, C.openMasterKey pass kMasterKey = some other →
      FoundOut C.toKeyCrypto vMasterKey other)
  (hopen : C.openMasterKey pass kMasterKey = some vMasterKey)
include hmasters hl hopen

theorem SealedRecords.restart_unlock :
    ∃ w ok keys unused, ReloadedWallet C.toKeyCrypto db w ∧
      DecryptHybridKeys C.toKeyCrypto {} { w with vMasterKey := vMasterKey }
          vMasterKey =
        (ok, withLoaded { w with vMasterKey := vMasterKey } keys unused) ∧
      restart C pass db = some (if ok then
          withLoaded { w with vMasterKey := vMasterKey } keys unused
        else (withLoaded { w with vMasterKey := vMasterKey } keys unused).Lock.2) := by
  obtain ⟨w, hw, hrestart⟩ := h.restart_eq
  obtain ⟨ok, keys, unused, hdecrypt, _⟩ := decryptHybridKeys_frame (C := C) (o := {})
    (w := { w with vMasterKey := vMasterKey })
    (l := sortedKeys w.mapHybridKeyDisk) true (by
      intro hybridID disk hdisk
      rw [hw.hybridRecords] at hdisk
      obtain ⟨_, _, _, _, _, hencrypted⟩ := h.recordOf hdisk
      exact hencrypted)
  refine ⟨w, ok, keys, unused, hw, hdecrypt, ?_⟩
  have hopens : w.opensFirstKey C.toKeyCrypto vMasterKey = true := by
    unfold opensFirstKey
    split
    · rfl
    · next vchPubKey vchCryptedSecret hfirst =>
      obtain ⟨keyID, _, hlookup⟩ := bind_eq_some_iff.mp hfirst
      obtain ⟨secret, hpub, hencrypt⟩ :=
        h.ckey vchPubKey vchCryptedSecret ((hw.cryptedKeys keyID _).mp hlookup).2
      simp [C.DecryptSecret_EncryptSecret hencrypt, hpub]
  have hdecrypt' : DecryptHybridKeys C.toKeyCrypto {}
      { w with vMasterKey := vMasterKey } vMasterKey =
        (ok, withLoaded { w with vMasterKey := vMasterKey } keys unused) := hdecrypt
  rw [hrestart, hmasters, unlockFrom_foundOut fun kMasterKey hk other hother =>
    h.foundOut hw ((hl kMasterKey hk).2 other hother)]
  rw [if_pos fun kMasterKey hk => isSome_iff_exists.mpr (hl kMasterKey hk).1]
  rw [unlockFrom, hopen]
  dsimp only
  rw [unlockWith, if_pos hopens]
  rw [hdecrypt']
  cases ok <;> rfl

theorem SealedRecords.restart_opened
    (htimes : ∀ hybridID hk, hybridKeys.lookup hybridID = some hk → 0 < toInt32 hk.nCreateTime) :
    ∃ u, restart C pass db = some u ∧
      (∀ secret pubKey, C.ecPubKey secret = some pubKey →
        db.ckey.lookup pubKey = C.EncryptSecret vMasterKey secret (C.Hash pubKey) →
        u.toCKeyStore.GetKey C.toKeyCrypto (C.GetID pubKey) = some ⟨secret, pubKey, true⟩) ∧
      ∀ hybridID, loadedSecrets u hybridID = (hybridKeys.lookup hybridID).map secretsOf := by
  obtain ⟨w, ok, keys, unused, hw, hdecrypt, hrestart⟩ := h.restart_unlock hmasters hl hopen
  have hrecords : ∀ hybridID, Option.Rel (RecordAtRest C.toKeyCrypto vMasterKey hybridID)
      ((hybridKeys.lookup hybridID).map secretsOf) (w.mapHybridKeyDisk.lookup hybridID) := by
    intro hybridID
    rw [hw.hybridRecords, h.hyb]
    cases hlookup : hybridKeys.lookup hybridID with
    | none => exact Option.Rel.none
    | some hk =>
      have hkey := h.storable hybridID hk hlookup
      obtain ⟨disk, hdisk⟩ := exists_FromMemoryEncrypted hkey h.length
      rw [bind_some, hdisk]
      exact Option.Rel.some ⟨hk, ⟨hkey, htimes hybridID hk hlookup⟩, rfl, hdisk⟩
  obtain ⟨keys', unused', hrun, hkeys⟩ := decryptHybridKeys_run (o := {})
    (w := { w with vMasterKey := vMasterKey }) hrecords
    (fun _ hid => mem_sortedKeys.mp hid) true (fun hybridID other hother => by
      rw [loadedSecrets, hw.noHybridKeys] at hother
      cases hother)
  obtain ⟨rfl, hloaded⟩ := Prod.mk.inj (hdecrypt.symm.trans hrun)
  refine ⟨_, hrestart, ?_, ?_⟩
  · intro secret pubKey hpub hckey
    obtain ⟨vchCryptedSecret, hencrypt⟩ : ∃ vchCryptedSecret,
        C.EncryptSecret vMasterKey secret (C.Hash pubKey) = some vchCryptedSecret := by
      rw [KeyCrypto.EncryptSecret, if_pos h.length]
      exact ⟨_, rfl⟩
    have hlookup := (hw.cryptedKeys (C.GetID pubKey) (pubKey, vchCryptedSecret)).mpr
      ⟨rfl, hckey.trans hencrypt⟩
    exact GetKey_of_sealed (w := withLoaded { w with vMasterKey := vMasterKey } keys unused)
      hw.crypted hlookup hpub hencrypt
  · intro hybridID
    rw [hloaded]
    refine (hkeys hybridID).trans ?_
    rw [hw.hybridRecords]
    by_cases hmem : hybridID ∈ sortedKeys db.hyb
    · rw [if_pos hmem]
    · rw [if_neg hmem]
      rw [mem_sortedKeys, h.hyb, not_isSome_iff_eq_none] at hmem
      cases hlookup : hybridKeys.lookup hybridID with
      | none =>
        rw [hw.noHybridKeys]
        rfl
      | some hk =>
        obtain ⟨disk, hdisk⟩ := exists_FromMemoryEncrypted (h.storable hybridID hk hlookup) h.length
        rw [hlookup, bind_some, hdisk] at hmem
        cases hmem

/-- A hybrid key whose time does not survive keeps the wallet locked. -/
theorem SealedRecords.restart_spoiled {hk : CHybridKey}
    (hlookup : hybridKeys.lookup hybridID = some hk) (htime : ¬ 0 < toInt32 hk.nCreateTime) :
    ∃ u, restart C pass db = some u ∧ u.fUseCrypto = true ∧ u.vMasterKey = [] := by
  obtain ⟨w, ok, keys, unused, hw, hdecrypt, hrestart⟩ := h.restart_unlock hmasters hl hopen
  obtain ⟨disk, hdisk⟩ := exists_FromMemoryEncrypted (h.storable hybridID hk hlookup) h.length
  have hrecord : db.hyb.lookup hybridID = some disk := by rw [h.hyb, hlookup, bind_some, hdisk]
  obtain ⟨hof, _⟩ := recordOf_FromMemoryEncrypted (h.storable hybridID hk hlookup) hdisk
  have hspoiled := decryptHybridKeys_spoiled (C := C) (o := {})
    (w := { w with vMasterKey := vMasterKey })
    (l := sortedKeys w.mapHybridKeyDisk) true
    (by rw [mem_sortedKeys, hw.hybridRecords, hrecord]; rfl)
    (by
      intro other disk hdisk
      rw [hw.hybridRecords] at hdisk
      obtain ⟨_, _, _, _, _, hencrypted⟩ := h.recordOf hdisk
      exact hencrypted)
    (by
      rw [hw.hybridRecords, hrecord])
    (by
      rw [hw.noHybridKeys]
      rfl)
    (hof.materialize_eq_none (h.storable hybridID hk hlookup) htime)
  have hfalse : ok = false := by
    have hfirst : (DecryptHybridKeys C.toKeyCrypto {}
        { w with vMasterKey := vMasterKey } vMasterKey).1 = false := hspoiled
    rw [hdecrypt] at hfirst
    exact hfirst
  subst hfalse
  refine ⟨_, hrestart, ?_⟩
  have hlock := Lock_of_crypted
    (w := withLoaded { w with vMasterKey := vMasterKey } keys unused) hw.crypted
  rw [hlock]
  exact ⟨hw.crypted, rfl⟩

end Opened

end

end Unlock

end Phoenixcoin.Analysis
