import Phoenixcoin.Analysis.LegacyLookups

/-!
# Lookups by legacy key ID in a run

Every operation on the hybrid keys of a wallet keeps the index right: it adds to the maps in a way
that their sizes show, or it locks the wallet, which has the index built again.
-/

set_option autoImplicit false

namespace Phoenixcoin.Analysis

open Lib Program List Option HybridWallet SameHybridKeys FittingKeys

variable {C : PassphraseCrypto} {o : WalletDbOutcome} {w w' : HybridWallet} {s : IndexedWallet}

structure ExactIndex (C : KeyCrypto) (s : IndexedWallet) : Prop where
  fitting : FittingKeys C s.toHybridWallet
  sound : SoundIndex C s

/-! ## Lock and Unlock -/

theorem ExactIndex.step {C : KeyCrypto} (h : ExactIndex C s)
    (hstep : NoticedStep C s.toHybridWallet w') :
    ExactIndex C { s with toHybridWallet := w' } where
  fitting := hstep.fitting
  sound := StampedCache.Sound.step h.sound hstep.shows

theorem FittingKeys.dirty {C : KeyCrypto} (h : FittingKeys C s.toHybridWallet)
    (hdirty : s.fHybridLegacyIndexDirty = true) : ExactIndex C s where
  fitting := h
  sound := by
    rw [SoundIndex, indexCache, if_pos hdirty]
    exact StampedCache.sound_none

theorem fittingKeys_lock {C : KeyCrypto} (hcrypted : w.IsCrypted = true)
    (hrest : ∀ hybridID disk, w.mapHybridKeyDisk.lookup hybridID = some disk →
      w.IsCrypted = true ∧ w.fFileBacked = true) : FittingKeys C w.Lock.2 := by
  rw [Lock, if_neg (not_not.mpr hcrypted)]
  exact ⟨nofun, hrest, nofun⟩

theorem ExactIndex.lock {C : KeyCrypto} (h : ExactIndex C s) : ExactIndex C s.Lock.2 := by
  unfold IndexedWallet.Lock
  by_cases hcrypted : s.IsCrypted = true
  · rw [if_neg (not_not.mpr hcrypted)]
    apply dirty
    · exact fittingKeys_lock hcrypted h.fitting.atRest
    · rfl
  · rw [if_pos hcrypted]
    exact h

theorem lock_toHybridWallet : s.Lock.2.toHybridWallet = s.toHybridWallet.Lock.2 := by
  unfold IndexedWallet.Lock Lock
  split_ifs <;> rfl

variable {vMasterKey : CKeyingMaterial} {pass : SecureString}

/-- `unlockWith` does with the wallet what it does without the index, and leaves the index right. -/
theorem unlockWith_toHybridWallet :
    (s.unlockWith C o vMasterKey).map (fun result => (result.1, result.2.toHybridWallet)) =
      s.toHybridWallet.unlockWith C.toKeyCrypto o vMasterKey := by
  unfold IndexedWallet.unlockWith unlockWith
  by_cases hopens : s.opensFirstKey C.toKeyCrypto vMasterKey = true
  · rw [if_pos hopens]
    dsimp only
    rw [map_some]
    split_ifs with hok
    · rw [← hok]
    · rw [lock_toHybridWallet]
  · rw [if_neg hopens, if_neg hopens]
    rfl

theorem ExactIndex.unlockWith (h : ExactIndex C.toKeyCrypto s) {result : Bool × IndexedWallet}
    (hunlock : s.unlockWith C o vMasterKey = some result) :
    ExactIndex C.toKeyCrypto result.2 := by
  unfold IndexedWallet.unlockWith at hunlock
  split at hunlock
  · have hframe : NoticedStep C.toKeyCrypto s.toHybridWallet
        { s.toHybridWallet with vMasterKey := vMasterKey } :=
      h.fitting.frame ⟨rfl, rfl, id, id⟩
    have hdecrypt := hframe.fitting.decryptHybridKeys o vMasterKey
      (Table.sortedKeys s.mapHybridKeyDisk) true
    have hstep := h.step (hframe.trans hdecrypt)
    rw [← some.inj hunlock]
    split_ifs
    · exact hstep
    · exact hstep.lock
  · cases hunlock

theorem ExactIndex.unlockFrom (h : ExactIndex C.toKeyCrypto s) (pass : SecureString)
    (l : List CMasterKey) : ExactIndex C.toKeyCrypto (s.unlockFrom C o pass l).2 := by
  induction l with
  | nil => exact h
  | cons kMasterKey rest ih =>
    rw [IndexedWallet.unlockFrom]
    cases C.openMasterKey pass kMasterKey with
    | none => exact h
    | some vMasterKey =>
      dsimp only
      cases hunlock : s.unlockWith C o vMasterKey with
      | none => exact ih
      | some result => exact h.unlockWith hunlock

theorem unlockFrom_toHybridWallet {l : List CMasterKey} :
    (s.unlockFrom C o pass l).2.toHybridWallet = (s.toHybridWallet.unlockFrom C o pass l).2 := by
  induction l with
  | nil => rfl
  | cons kMasterKey rest ih =>
    rw [IndexedWallet.unlockFrom, unlockFrom]
    cases C.openMasterKey pass kMasterKey with
    | none => rfl
    | some vMasterKey =>
      dsimp only
      rw [← unlockWith_toHybridWallet]
      cases s.unlockWith C o vMasterKey with
      | none => exact ih
      | some result => rfl

theorem ExactIndex.unlock (h : ExactIndex C.toKeyCrypto s) (pass : SecureString) :
    ExactIndex C.toKeyCrypto (s.Unlock C o pass).2 := by
  unfold IndexedWallet.Unlock
  by_cases hlocked : s.IsLocked = true
  · rw [if_neg (not_not.mpr hlocked)]
    exact h.unlockFrom pass _
  · rw [if_pos hlocked]
    exact h

theorem unlock_toHybridWallet :
    (s.Unlock C o pass).2.toHybridWallet = (s.toHybridWallet.Unlock C o pass).2 := by
  unfold IndexedWallet.Unlock Unlock
  by_cases hlocked : s.IsLocked = true
  · rw [if_neg (not_not.mpr hlocked), if_neg (not_not.mpr hlocked)]
    exact unlockFrom_toHybridWallet
  · rw [if_pos hlocked, if_pos hlocked]

theorem FittingKeys.unlock (h : FittingKeys C.toKeyCrypto w) (pass : SecureString) :
    FittingKeys C.toKeyCrypto (w.Unlock C o pass).2 := by
  have hindex : ExactIndex C.toKeyCrypto (IndexedWallet.ofWallet w) := dirty h rfl
  have hunlock := (hindex.unlock (o := o) pass).fitting
  rw [unlock_toHybridWallet] at hunlock
  exact hunlock

theorem FittingKeys.lock {C : KeyCrypto} (h : FittingKeys C w) : FittingKeys C w.Lock.2 := by
  by_cases hcrypted : w.IsCrypted = true
  · exact fittingKeys_lock hcrypted h.atRest
  · rw [Lock, if_pos hcrypted]
    exact h

/-! ## The change of the passphrase -/

theorem sameHybridKeys_SetCrypted : SameHybridKeys w w.SetCrypted.2 := by
  unfold SetCrypted
  split_ifs
  · exact refl w
  · exact refl w
  · exact ⟨rfl, rfl, fun _ => rfl, id⟩

theorem sameHybridKeys_unlockKeyStore (C : PassphraseCrypto) (w : HybridWallet)
    (vMasterKey : CKeyingMaterial) : SameHybridKeys w (w.unlockKeyStore C vMasterKey).2 := by
  have hset : SameHybridKeys w w.SetCrypted.2 := sameHybridKeys_SetCrypted
  unfold unlockKeyStore
  dsimp only
  split_ifs
  · exact hset.trans ⟨rfl, rfl, id, id⟩
  · exact hset
  · exact hset

theorem ExactIndex.rekey (h : ExactIndex C.toKeyCrypto s) (pass : SecureString)
    (nDeriveIterations : ℕ) (fWasLocked : Bool) (nID : ℕ) (kMasterKey : CMasterKey)
    (vMasterKey : CKeyingMaterial) :
    ExactIndex C.toKeyCrypto (IndexedWallet.rekey C o pass nDeriveIterations fWasLocked nID
      kMasterKey vMasterKey s).2 := by
  have hstep (masters : Table ℕ CMasterKey) (db : WalletRecords) :
      ExactIndex C.toKeyCrypto { s with mapMasterKeys := masters, db := db } :=
    h.step (h.fitting.frame ⟨rfl, rfl, id, id⟩)
  unfold IndexedWallet.rekey
  dsimp only
  split
  · exact hstep _ _
  · split_ifs
    · exact (hstep _ _).lock
    · exact hstep _ _

theorem ExactIndex.changeFrom (h : ExactIndex C.toKeyCrypto s) (old new : SecureString)
    (nDeriveIterations : ℕ) (fWasLocked : Bool) (l : List (ℕ × CMasterKey)) :
    ExactIndex C.toKeyCrypto
      (IndexedWallet.changeFrom C o old new nDeriveIterations fWasLocked s l).2 := by
  induction l generalizing s with
  | nil => exact h
  | cons entry rest ih =>
    rw [IndexedWallet.changeFrom]
    cases C.openMasterKey old entry.2 with
    | none => exact h
    | some vMasterKey =>
      have hopened := h.step (h.fitting.frame
        (sameHybridKeys_unlockKeyStore C s.toHybridWallet vMasterKey))
      dsimp only
      split_ifs
      · exact hopened.rekey new nDeriveIterations fWasLocked entry.1 entry.2 vMasterKey
      · exact ih hopened

theorem ExactIndex.changeWalletPassphrase (h : ExactIndex C.toKeyCrypto s)
    (old new : SecureString) (nDeriveIterations : ℕ) :
    ExactIndex C.toKeyCrypto (s.ChangeWalletPassphrase C o old new nDeriveIterations).2 :=
  h.lock.changeFrom old new nDeriveIterations s.IsLocked _

/-! ## The encryption of the wallet -/

section Encryption

variable {vMasterKey : CKeyingMaterial}

theorem EncryptKeys_eq_some (h : w.EncryptKeys C o vMasterKey = some w') :
    w'.fUseCrypto = true ∧ w'.mapHybridKeyDisk = w.mapHybridKeyDisk ∧
      w'.fFileBacked = w.fFileBacked := by
  unfold EncryptKeys at h
  split at h
  · cases h
  · obtain ⟨u, hu, rfl⟩ := map_eq_some_iff.mp h
    apply foldlM_invariant (P := fun (u : HybridWallet) _ => u.fUseCrypto = true ∧
      u.mapHybridKeyDisk = w.mapHybridKeyDisk ∧ u.fFileBacked = w.fFileBacked) ?_ ?_ hu
    · intro address l u u' hinv hstep
      obtain ⟨_, _, _, _, _, _, _, _, _, _, rfl⟩ := encryptKey_eq_some hstep
      exact hinv
    · exact ⟨rfl, rfl, rfl⟩

theorem encryptAll_keptAtRest {kMasterKey : CMasterKey} (h : FittingKeys C.toKeyCrypto w)
    (hplain : w.IsCrypted = false) (hall : w.encryptAll C o kMasterKey vMasterKey = some w') :
    w'.IsCrypted = true ∧ ∀ hybridID disk, w'.mapHybridKeyDisk.lookup hybridID = some disk →
      w'.IsCrypted = true ∧ w'.fFileBacked = true := by
  unfold encryptAll at hall
  by_cases hfile : w.fFileBacked = true
  · rw [if_pos hfile] at hall
    obtain ⟨u, hu, hloop⟩ := bind_eq_some_iff.mp hall
    obtain ⟨hcrypted, -, hbacked⟩ := EncryptKeys_eq_some hu
    have hkept : w'.fUseCrypto = true ∧ w'.fFileBacked = true := by
      apply foldlM_invariant (P := fun (u : HybridWallet) _ => u.fUseCrypto = true ∧
        u.fFileBacked = true) ?_ ?_ hloop
      · intro hybridID l v v' hinv hstep
        obtain ⟨_, _, _, _, _, _, rfl⟩ := encryptHybridKey_eq_some hstep
        exact hinv
      · exact ⟨hcrypted, hbacked.trans hfile⟩
    exact ⟨hkept.1, fun _ _ _ => hkept⟩
  · rw [if_neg hfile] at hall
    obtain ⟨hcrypted, hdisk, -⟩ := EncryptKeys_eq_some hall
    refine ⟨hcrypted, ?_⟩
    intro hybridID disk hlookup
    rw [hdisk] at hlookup
    have hbefore := (h.atRest hybridID disk hlookup).1
    rw [hplain] at hbefore
    cases hbefore

theorem sameHybridKeys_NewKeyPool (w : HybridWallet) (oClear oRefill : WalletDbOutcome)
    (newKeys : List (NewKey C.toKeyCrypto)) :
    SameHybridKeys w (w.NewKeyPool C oClear oRefill newKeys).2 := by
  cases hpool : w.NewKeyPool C oClear oRefill newKeys
  rcases NewKeyPool_cases hpool with hsame | ⟨cleared, hclear, hends⟩
  · rw [hsame]
    exact refl w
  · have hcleared : SameHybridKeys w cleared := by
      obtain ⟨db, -, rfl⟩ := map_eq_some_iff.mp hclear
      exact ⟨rfl, rfl, id, id⟩
    rcases hends with hsame | ⟨-, hrefill⟩
    · rw [hsame]
      exact hcleared
    · obtain ⟨vStaged, db, -, hfilled⟩ := refillKeyPool_eq_some hrefill
      rw [hfilled]
      apply hcleared.trans
      have hfold (l : List (ℕ × CStagedKey)) (u : HybridWallet) :
          SameHybridKeys u (l.foldl (addPoolEntry C) u) := by
        induction l generalizing u with
        | nil => exact refl u
        | cons entry l ih =>
          have hadd : SameHybridKeys u (addPoolEntry C u entry) :=
            (sameHybridKeys_addLegacyKey C.toKeyCrypto u entry.2.key entry.2.metadata
              entry.2.vchCryptedSecret).trans ⟨rfl, rfl, id, id⟩
          exact hadd.trans (ih _)
      have hdb : SameHybridKeys cleared { cleared with db := db } := ⟨rfl, rfl, id, id⟩
      exact hdb.trans (hfold vStaged _)

variable {e : EncryptionInput C.toKeyCrypto} {pass : SecureString}

theorem finishEncryption_fitting {o : EncryptionOutcome} (hcrypted : w.IsCrypted = true)
    (hrest : ∀ hybridID disk, w.mapHybridKeyDisk.lookup hybridID = some disk →
      w.IsCrypted = true ∧ w.fFileBacked = true) :
    FittingKeys C.toKeyCrypto (w.finishEncryption C pass e o).wallet := by
  have hlocked := fittingKeys_lock (C := C.toKeyCrypto) hcrypted hrest
  have hunlocked := hlocked.unlock (o := o.unlock) pass
  have hpool := hunlocked.frame (sameHybridKeys_NewKeyPool _ o.clear o.refill e.newKeys)
  exact hpool.fitting.lock

/-- How `EncryptWallet` leaves the hybrid keys where it returns. -/
theorem EncryptWallet_ends {o : EncryptionOutcome} {ended : EncryptionEnd} {fDone : Bool}
    (h : FittingKeys C.toKeyCrypto w) (hended : w.EncryptWallet C pass e o = ended)
    (hresult : ended.result = some fDone) :
    fDone = false ∧ SameHybridKeys w ended.wallet ∨
      fDone = true ∧ FittingKeys C.toKeyCrypto ended.wallet := by
  unfold EncryptWallet at hended
  split at hended
  · subst hended
    exact Or.inl ⟨(some.inj hresult).symm, refl w⟩
  · next hplain =>
    split at hended
    · subst hended
      exact Or.inl ⟨(some.inj hresult).symm, refl w⟩
    · next kMasterKey _ =>
      split at hended
      · subst hended
        exact Or.inl ⟨(some.inj hresult).symm, refl w⟩
      · have hstarted : SameHybridKeys w { w with
            nMasterKeyMaxID := w.nMasterKeyMaxID + 1
            mapMasterKeys := w.mapMasterKeys.insert (w.nMasterKeyMaxID + 1) kMasterKey
            pwalletdbEncryption := w.pwalletdbEncryption || w.fFileBacked } :=
          ⟨rfl, rfl, id, id⟩
        dsimp only at hended
        split at hended
        · subst hended
          exact Or.inl ⟨(some.inj hresult).symm, hstarted⟩
        · split at hended
          · subst hended
            cases hresult
          · next encrypted hall =>
            split at hended
            · subst hended
              cases hresult
            · right
              subst hended
              obtain ⟨hcrypted, hrest⟩ := encryptAll_keptAtRest (h.frame hstarted).fitting
                (by simpa using hplain) hall
              refine ⟨?_, finishEncryption_fitting hcrypted hrest⟩
              unfold finishEncryption at hresult
              split at hresult
              · exact (some.inj hresult).symm
              · cases hresult

theorem ExactIndex.encryptWallet {o : EncryptionOutcome} {result : Bool × IndexedWallet}
    (h : ExactIndex C.toKeyCrypto s) (hend : s.EncryptWallet C pass e o = some result) :
    ExactIndex C.toKeyCrypto result.2 := by
  obtain ⟨fDone, hresult, rfl⟩ := map_eq_some_iff.mp hend
  rcases EncryptWallet_ends h.fitting rfl hresult with ⟨rfl, hsame⟩ | ⟨rfl, hfitting⟩
  · have hstep := h.step (h.fitting.frame hsame)
    have hflag : (s.fHybridLegacyIndexDirty || false) = s.fHybridLegacyIndexDirty :=
      Bool.or_false _
    rw [hflag]
    exact hstep
  · apply dirty
    · exact hfitting
    · exact Bool.or_true _

end Encryption

/-! ## The start -/

section Start

variable {C : KeyCrypto} {db : WalletRecords}

/-- A wallet that holds no hybrid keys yet. -/
theorem fittingKeys_of_empty (hloaded : w.mapHybridKeys = ∅) (hdisk : w.mapHybridKeyDisk = ∅) :
    FittingKeys C w where
  derives := by
    rw [hloaded]
    exact nofun
  atRest := by
    rw [hdisk]
    exact nofun
  agree := by
    rw [hloaded]
    exact nofun

def NoHybridKeys (db : WalletRecords) (w : HybridWallet) : Prop :=
  w.mapHybridKeys = ∅ ∧ w.mapHybridKeyDisk = ∅ ∧ w.fFileBacked = true ∧ w.db = db

theorem NoHybridKeys.readRecords {V : Type} {table : Table CPubKey V}
    {read : HybridWallet → CPubKey → V → Option HybridWallet} (h : NoHybridKeys db w)
    (hread : ∀ u u' vchPubKey v, NoHybridKeys db u → read u vchPubKey v = some u' →
      NoHybridKeys db u')
    (hrun : readRecords table read w = some w') : NoHybridKeys db w' := by
  apply foldlM_invariant (P := fun u _ => NoHybridKeys db u) ?_ h hrun
  intro vchPubKey l u u' hu hstep
  obtain ⟨v, -, hv⟩ := bind_eq_some_iff.mp hstep
  exact hread u u' vchPubKey v hu hv

variable {vchPubKey : CPubKey}

theorem NoHybridKeys.readKey {vchPrivKey : CPrivKey} (h : NoHybridKeys db w)
    (hread : readKey C w vchPubKey vchPrivKey = some w') : NoHybridKeys db w' := by
  obtain ⟨key, -, hload⟩ := bind_eq_some_iff.mp hread
  split at hload
  · cases hload
  · unfold LoadKey at hload
    split at hload
    · cases hload
    · rw [← some.inj hload]
      exact h

theorem NoHybridKeys.loadCryptedKey {crypted : valtype} (h : NoHybridKeys db w)
    (hread : LoadCryptedKey C w vchPubKey crypted = some w') : NoHybridKeys db w' := by
  unfold LoadCryptedKey at hread
  split at hread
  · cases hread
  · rw [← some.inj hread]
    exact h

/-- The key records bring no hybrid keys. -/
theorem noHybridKeys_of_loadRecords (h : loadRecords C db = some w) :
    NoHybridKeys db w := by
  obtain ⟨w₁, hkeys, h⟩ := bind_eq_some_iff.mp h
  obtain ⟨w₂, hcrypted, h⟩ := bind_eq_some_iff.mp h
  obtain ⟨w₃, hwallet, h⟩ := bind_eq_some_iff.mp h
  have hblank : NoHybridKeys db (blank db) := ⟨rfl, rfl, rfl, rfl⟩
  have hw₁ : NoHybridKeys db w₁ := hblank.readRecords (fun _ _ _ _ hu => hu.readKey) hkeys
  have hw₂ : NoHybridKeys db w₂ := hw₁.readRecords (fun _ _ _ _ hu => hu.loadCryptedKey) hcrypted
  have hw₃ : NoHybridKeys db w₃ := hw₂.readRecords (fun _ _ _ _ hu => hu.readKey) hwallet
  rw [← some.inj h]
  exact hw₃

theorem cacheHybridKeys_fitting {l : List CHybridKeyID} (hcrypted : w.IsCrypted = true)
    (hfile : w.fFileBacked = true) (hloaded : w.mapHybridKeys = ∅) :
    FittingKeys C (l.foldl (cacheHybridKey C) w) := by
  have hkept : ∀ u : HybridWallet, u.IsCrypted = true ∧ u.fFileBacked = true ∧
      u.mapHybridKeys = ∅ → (l.foldl (cacheHybridKey C) u).IsCrypted = true ∧
        (l.foldl (cacheHybridKey C) u).fFileBacked = true ∧
        (l.foldl (cacheHybridKey C) u).mapHybridKeys = ∅ := by
    induction l with
    | nil => exact fun _ hu => hu
    | cons hybridID l ih =>
      intro u hu
      apply ih
      unfold cacheHybridKey
      split
      · exact hu
      · split_ifs
        · exact hu
        · exact hu
  obtain ⟨hcrypt, hbacked, hnone⟩ := hkept w ⟨hcrypted, hfile, hloaded⟩
  refine ⟨?_, fun _ _ _ => ⟨hcrypt, hbacked⟩, ?_⟩
  · rw [hnone]
    exact nofun
  · rw [hnone]
    exact nofun

theorem loadHybridKeys_fitting {l : List CHybridKeyDisk} (h : FittingKeys C w)
    (hdisk : w.mapHybridKeyDisk = ∅) : FittingKeys C (l.foldl (LoadHybridKey C) w) := by
  have hkept : ∀ u : HybridWallet, FittingKeys C u ∧ u.mapHybridKeyDisk = ∅ →
      FittingKeys C (l.foldl (LoadHybridKey C) u) := by
    induction l with
    | nil => exact fun _ hu => hu.1
    | cons disk l ih =>
      intro u hu
      apply ih
      unfold LoadHybridKey
      split
      · exact hu
      · split
        · exact hu
        · next mem _ =>
          split
          · exact hu
          · next hybridID hid =>
            refine ⟨⟨?_, hu.1.atRest, ?_⟩, hu.2⟩
            · intro k loaded hloaded
              rcases lookup_emplace_eq_some hloaded with hold | ⟨rfl, rfl⟩
              · exact hu.1.derives k loaded hold
              · exact hid
            · rw [hu.2]
              exact nofun
  exact hkept w ⟨h, hdisk⟩

/-- After a start the keys fit together. -/
theorem fittingKeys_of_loadKeys (h : loadKeys C db = some w) : FittingKeys C w := by
  obtain ⟨u, hrecords, rfl⟩ := map_eq_some_iff.mp h
  obtain ⟨hloaded, hdisk, hfile, -⟩ := noHybridKeys_of_loadRecords hrecords
  unfold LoadHybridKeys
  by_cases hcrypted : u.IsCrypted = true
  · have hcrypted' : ({ u with setUsedHybridKeys := u.db.hybused.getD ∅ } :
        HybridWallet).IsCrypted = true := hcrypted
    rw [if_pos hcrypted']
    exact cacheHybridKeys_fitting hcrypted hfile hloaded
  · have hcrypted' : ¬ ({ u with setUsedHybridKeys := u.db.hybused.getD ∅ } :
        HybridWallet).IsCrypted = true := hcrypted
    rw [if_neg hcrypted']
    exact loadHybridKeys_fitting (fittingKeys_of_empty hloaded hdisk) hdisk

end Start

/-! ## Runs -/

/-- What may happen to a wallet and its index. -/
inductive LegacyIndexOp (C : PassphraseCrypto) where
  | find (keyID : CKeyID)
  | makeKeys (op : HybridKeyOp C.toKeyCrypto)
  | encryptWallet (pass : SecureString) (e : EncryptionInput C.toKeyCrypto) (o : EncryptionOutcome)
  | lock
  | unlock (o : WalletDbOutcome) (pass : SecureString)
  | changePassphrase (o : WalletDbOutcome) (old new : SecureString) (nDeriveIterations : ℕ)
  /-- Anything that leaves the hybrid keys alone. -/
  | elsewhere (f : HybridWallet → HybridWallet) (keeps : ∀ w, SameHybridKeys w (f w))

/-- An operation that makes keys, in a wallet with an index; only `EnsureHybridKey` asks it. -/
def makeKeys {C : KeyCrypto} (s : IndexedWallet) : HybridKeyOp C → IndexedWallet
  | .ensureHybridKey o pkey nTime keyID =>
    (s.EnsureHybridKey C o (pkey.map Subtype.val) nTime keyID).2
  | op => { s with toHybridWallet := (op.run s.toHybridWallet).2 }

namespace LegacyIndexOp

/-- The wallet after an operation; none where the process has ended. -/
def run (s : IndexedWallet) : LegacyIndexOp C → Option IndexedWallet
  | find keyID => some (s.FindHybridKeyByLegacyID C.toKeyCrypto keyID).2
  | makeKeys op => some (Analysis.makeKeys s op)
  | encryptWallet pass e o => (s.EncryptWallet C pass e o).map Prod.snd
  | lock => some s.Lock.2
  | unlock o pass => some (s.Unlock C o pass).2
  | changePassphrase o old new nDeriveIterations =>
    some (s.ChangeWalletPassphrase C o old new nDeriveIterations).2
  | elsewhere f _ => some { s with toHybridWallet := f s.toHybridWallet }

/-- The hash has no collision among the keys that an operation brings together. -/
def NoCollision (s : IndexedWallet) : LegacyIndexOp C → Prop
  | makeKeys op => CollisionFree s.toHybridWallet op
  | _ => True

end LegacyIndexOp

open LegacyIndexOp

/-- `EnsureHybridKey` does with the wallet what it does without the index. -/
theorem ensureHybridKey_eq {C : KeyCrypto} (h : ExactIndex C s) (pkey : Option EVP_PKEY)
    (nTime : ℤ) (keyID : CKeyID) :
    (s.EnsureHybridKey C o pkey nTime keyID).2 = { (s.FindHybridKeyByLegacyID C keyID).2 with
        toHybridWallet := (s.toHybridWallet.EnsureHybridKey C o pkey nTime keyID).2 } := by
  obtain ⟨hfound, hwallet, -⟩ := h.sound.find keyID
  unfold IndexedWallet.EnsureHybridKey IndexedWallet.GetHybridKeyIDByLegacyKeyID
    EnsureHybridKey GetHybridKeyIDByLegacyKeyID
  dsimp only
  rw [hfound, hwallet, FindHybridKeyByLegacyID_eq_scan]
  split
  · rw [← hwallet]
  · cases pkey.bind fun pkey => s.toHybridWallet.makeHybridKey C o pkey nTime keyID with
    | some made => rfl
    | none => rw [← hwallet]

theorem ExactIndex.find {C : KeyCrypto} (h : ExactIndex C s) (keyID : CKeyID) :
    ExactIndex C (s.FindHybridKeyByLegacyID C keyID).2 := by
  obtain ⟨-, hwallet, hsound⟩ := h.sound.find keyID
  refine ⟨?_, hsound⟩
  rw [hwallet]
  exact h.fitting

theorem ExactIndex.makeKeys {C : KeyCrypto} (h : ExactIndex C s) {op : HybridKeyOp C}
    (hfree : CollisionFree s.toHybridWallet op) : ExactIndex C (makeKeys s op) := by
  have hop : NoticedStep C s.toHybridWallet (op.run s.toHybridWallet).2 := by
    cases hrun : op.run s.toHybridWallet
    rcases op.run_cases hrun with rfl | ⟨-, hmakes⟩
    · exact h.fitting.refl
    · exact h.fitting.makes hfree hmakes
  cases op with
  | newHybridKeyPool o fresh => exact h.step hop
  | ensureHybridKeyPool o nTarget fresh => exact h.step hop
  | importHybridKey o r => exact h.step hop
  | ensureHybridKey o pkey nTime keyID =>
    show ExactIndex C (s.EnsureHybridKey C o (pkey.map Subtype.val) nTime keyID).2
    rw [ensureHybridKey_eq h]
    apply (h.find keyID).step
    rw [(h.sound.find keyID).2.1]
    exact hop

theorem ExactIndex.run (h : ExactIndex C.toKeyCrypto s) {op : LegacyIndexOp C} {s' : IndexedWallet}
    (hfree : op.NoCollision s) (hrun : op.run s = some s') : ExactIndex C.toKeyCrypto s' := by
  cases op with
  | find keyID =>
    rw [← some.inj hrun]
    exact h.find keyID
  | makeKeys op =>
    rw [← some.inj hrun]
    exact h.makeKeys hfree
  | encryptWallet pass e o =>
    obtain ⟨result, hend, rfl⟩ := map_eq_some_iff.mp hrun
    exact h.encryptWallet hend
  | lock =>
    rw [← some.inj hrun]
    exact h.lock
  | unlock o pass =>
    rw [← some.inj hrun]
    exact h.unlock pass
  | changePassphrase o old new nDeriveIterations =>
    rw [← some.inj hrun]
    exact h.changeWalletPassphrase old new nDeriveIterations
  | elsewhere f keeps =>
    rw [← some.inj hrun]
    exact h.step (h.fitting.frame (keeps s.toHybridWallet))

def Starts (C : KeyCrypto) (w : HybridWallet) : Prop :=
  w.mapHybridKeys = ∅ ∧ w.mapHybridKeyDisk = ∅ ∨ ∃ db, loadKeys C db = some w

/-- The index is right after every run. -/
theorem exactIndex_of_run {ops : List (LegacyIndexOp C)} (hstart : Starts C.toKeyCrypto w)
    (hrun : ops.foldlM run (IndexedWallet.ofWallet w) = some s)
    (hfree : ∀ before op after m, ops = before ++ op :: after →
      before.foldlM run (IndexedWallet.ofWallet w) = some m → op.NoCollision m) :
    ExactIndex C.toKeyCrypto s := by
  have hfitting : FittingKeys C.toKeyCrypto w := by
    rcases hstart with ⟨hloaded, hdisk⟩ | ⟨db, hload⟩
    · exact fittingKeys_of_empty hloaded hdisk
    · exact fittingKeys_of_loadKeys hload
  have hfirst : ExactIndex C.toKeyCrypto (IndexedWallet.ofWallet w) := dirty hfitting rfl
  have hend := foldlM_invariant (P := fun m l => ExactIndex C.toKeyCrypto m ∧
    ∀ before op after m', l = before ++ op :: after →
      before.foldlM run m = some m' → op.NoCollision m') ?_ ⟨hfirst, hfree⟩ hrun
  · exact hend.1
  · rintro op l m m' ⟨hm, hrest⟩ hstep
    refine ⟨hm.run (hrest [] op l m rfl rfl) hstep, ?_⟩
    intro before next after m'' hl hbefore
    apply hrest (op :: before) next after m''
    · rw [hl]
      rfl
    · exact foldlM_cons_eq_some.mpr ⟨m', hstep, hbefore⟩

/-- In every run `FindHybridKeyByLegacyID` finds what a scan of the loaded keys and of the records
at rest finds: something exactly where there is such a key. -/
theorem findHybridKeyByLegacyID_exact (C : PassphraseCrypto) {w : HybridWallet} {s : IndexedWallet}
    {ops : List (LegacyIndexOp C)} (hstart : Starts C.toKeyCrypto w)
    (hrun : ops.foldlM run (IndexedWallet.ofWallet w) = some s)
    (hfree : ∀ before op after m, ops = before ++ op :: after →
      before.foldlM run (IndexedWallet.ofWallet w) = some m → op.NoCollision m)
    (keyID : CKeyID) :
    (s.FindHybridKeyByLegacyID C.toKeyCrypto keyID).1 =
        scanByLegacyID C.toKeyCrypto s.toHybridWallet keyID ∧
      ((s.FindHybridKeyByLegacyID C.toKeyCrypto keyID).1.isSome ↔
        (∃ hybridID hk, s.mapHybridKeys.lookup hybridID = some hk ∧
          hk.GetKeyID C.toKeyCrypto = keyID) ∨
        ∃ hybridID disk, s.mapHybridKeyDisk.lookup hybridID = some disk ∧
          C.GetID disk.keys.secpPub = keyID) := by
  have hexact := exactIndex_of_run hstart hrun hfree
  have hfound := (hexact.sound.find keyID).1
  refine ⟨hfound, ?_⟩
  rw [hfound]
  exact scanByLegacyID_isSome_iff

/-! ## Two keys that share an EC key -/

/-- Hash functions that see the end of the data. -/
def endingCrypto : PassphraseCrypto :=
  { examplePassphraseCrypto with
    SHA256 := fun vch => (vch.reverse ++ replicate 32 0).take 32
    length_SHA256 := fun vch => by simp }

/-- A key of the pool with the EC half of the key that is imported. -/
def tiedFreshKey : FreshKey endingCrypto.toKeyCrypto where
  key := ⟨replicate 32 1, 2 :: replicate 32 1, true⟩
  pkey := [8]
  nTime := 1
  set := by decide
  generated := by decide

theorem length_tiedMasterKey :
    (replicate 32 (7 : UInt8)).length = WALLET_CRYPTO_KEY_SIZE := by decide

theorem length_tiedSalt : (replicate 8 (3 : UInt8)).length = WALLET_CRYPTO_SALT_SIZE := by
  decide

def tiedEncryption : EncryptionInput endingCrypto.toKeyCrypto where
  vMasterKey := replicate 32 7
  vchSalt := replicate 8 3
  nRounds := 25000
  newKeys := []
  length_vMasterKey := length_tiedMasterKey
  length_vchSalt := length_tiedSalt

def tiedKeyID : CKeyID := endingCrypto.GetID (2 :: replicate 32 1)

def tiedOps : List (LegacyIndexOp endingCrypto) :=
  [.makeKeys (.newHybridKeyPool {} [some tiedFreshKey]),
    .makeKeys (.importHybridKey {} (importRequest 1)), .find tiedKeyID,
    .encryptWallet [1] tiedEncryption {}, .find tiedKeyID, .unlock {} [1]]

def tiedWallet : IndexedWallet :=
  (tiedOps.foldlM run (IndexedWallet.ofWallet newHybridWallet)).getD
    (IndexedWallet.ofWallet newHybridWallet)

theorem tiedOps_run :
    tiedOps.foldlM run (IndexedWallet.ofWallet newHybridWallet) = some tiedWallet := by
  have hends : (tiedOps.foldlM run
      (IndexedWallet.ofWallet newHybridWallet)).isSome = true := by with_unfolding_all decide
  obtain ⟨s, hs⟩ := isSome_iff_exists.mp hends
  rw [tiedWallet, hs, getD_some]

/-- Only the first operation generates a key, in a wallet without keys. -/
theorem tiedOps_noCollision {before after : List (LegacyIndexOp endingCrypto)}
    {op : LegacyIndexOp endingCrypto} {m : IndexedWallet} (hops : tiedOps = before ++ op :: after)
    (hbefore : before.foldlM run (IndexedWallet.ofWallet newHybridWallet) = some m) :
    op.NoCollision m := by
  cases before with
  | nil =>
    obtain ⟨rfl, -⟩ := cons.inj hops
    cases hbefore
    rintro hk other ⟨f, hf, rfl⟩ hother -
    rcases hother with ⟨g, hg, rfl⟩ | ⟨hybridID, hloaded⟩
    · have hf : f = tiedFreshKey := by simpa using hf
      have hg : g = tiedFreshKey := by simpa using hg
      rw [hf, hg]
    · cases hloaded
  | cons first before =>
    have hmem : op ∈ tiedOps.tail := by
      have htail := congrArg tail hops
      rw [cons_append] at htail
      rw [htail]
      simp
    simp only [tiedOps, tail_cons, mem_cons, not_mem_nil, or_false] at hmem
    rcases hmem with rfl | rfl | rfl | rfl | rfl
    · exact fun _ _ hmade => hmade.elim
    all_goals trivial

/-- The lookup chooses the lower of the two IDs. -/
theorem findHybridKeyByLegacyID_tied :
    tiedWallet.mapHybridKeys.keys.card = 2 ∧
      (tiedWallet.FindHybridKeyByLegacyID endingCrypto.toKeyCrypto tiedKeyID).1 =
        scanByLegacyID endingCrypto.toKeyCrypto tiedWallet.toHybridWallet tiedKeyID ∧
      (tiedWallet.FindHybridKeyByLegacyID endingCrypto.toKeyCrypto tiedKeyID).1 =
        (Table.sortedKeys tiedWallet.mapHybridKeys).head? :=
  ⟨by with_unfolding_all decide,
    (findHybridKeyByLegacyID_exact endingCrypto (Or.inl ⟨rfl, rfl⟩) tiedOps_run
      (fun _ _ _ _ hops hbefore => tiedOps_noCollision hops hbefore) tiedKeyID).1,
    by with_unfolding_all decide⟩

end Phoenixcoin.Analysis
