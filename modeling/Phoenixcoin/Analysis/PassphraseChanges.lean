import Phoenixcoin.Analysis.EncryptedReload
import Phoenixcoin.Analysis.LegacyRuns

/-!
# Changes of the passphrase

`Unlock` and `ChangeWalletPassphrase` go through the master keys in the order of their numbers, and
the first one that the passphrase does not decrypt ends the search. A change of the passphrase
begins with `Lock`; what it undoes of that, and what it writes, decides whether it is exact.
-/

set_option autoImplicit false

namespace Phoenixcoin.Analysis

open Lib Program List Option HybridWallet Table CKeyStore Finmap

variable {C : PassphraseCrypto} {o : WalletDbOutcome} {vMasterKey : CKeyingMaterial}
  {w : HybridWallet} {pass : SecureString}

/-! ## Hybrid records -/

def RecordLoads (C : KeyCrypto) (o : WalletDbOutcome) (vMasterKey : CKeyingMaterial)
    (hybridID : CHybridKeyID) (disk : CHybridKeyDisk) : Prop :=
  disk.CheckChecksum C = true ∧ ∃ mem, disk.materialize C vMasterKey = some mem ∧
    mem.GetHybridID C = some hybridID ∧ (disk.IsEncrypted = true ∨ o.write (.hyb hybridID) = true ∧
        (CHybridKeyDiskRecord.FromMemoryEncrypted C mem vMasterKey).isSome)

def HybridLoads (C : KeyCrypto) (o : WalletDbOutcome) (vMasterKey : CKeyingMaterial)
    (w : HybridWallet) : Prop :=
  ∀ hybridID disk, w.mapHybridKeyDisk.lookup hybridID = some disk →
    RecordLoads C o vMasterKey hybridID disk

/-- What a round of the loop over one record leaves alone. -/
structure SameBut (hybridID : CHybridKeyID) (w w' : HybridWallet) : Prop where
  crypted : w'.fUseCrypto = w.fUseCrypto
  master : w'.vMasterKey = w.vMasterKey
  loaded : ∀ other, other ≠ hybridID → w'.mapHybridKeys.lookup other = w.mapHybridKeys.lookup other
  records : ∀ other, other ≠ hybridID →
    w'.mapHybridKeyDisk.lookup other = w.mapHybridKeyDisk.lookup other

theorem SameBut.refl (hybridID : CHybridKeyID) (w : HybridWallet) : SameBut hybridID w w :=
  ⟨rfl, rfl, fun _ _ => rfl, fun _ _ => rfl⟩

/-- One round succeeds where the record loads. -/
theorem decryptHybridKey_loads {hybridID : CHybridKeyID} {disk : CHybridKeyDisk} (fOk : Bool)
    (hdisk : w.mapHybridKeyDisk.lookup hybridID = some disk)
    (hnone : w.mapHybridKeys.lookup hybridID = none) :
    ((decryptHybridKey C.toKeyCrypto o vMasterKey (fOk, w) hybridID).1 = true ↔
        fOk = true ∧ RecordLoads C.toKeyCrypto o vMasterKey hybridID disk) ∧
      SameBut hybridID w
        (decryptHybridKey C.toKeyCrypto o vMasterKey (fOk, w) hybridID).2 := by
  unfold decryptHybridKey RecordLoads
  simp only [hdisk, hnone, isSome_none, Bool.false_eq_true, if_false]
  by_cases hcheck : disk.CheckChecksum C.toKeyCrypto = true
  · simp only [hcheck, if_true, true_and]
    cases hmem : disk.materialize C.toKeyCrypto vMasterKey with
    | none => simpa using SameBut.refl hybridID w
    | some mem =>
      by_cases hid : mem.GetHybridID C.toKeyCrypto = some hybridID
      · have hkeys : ∀ other, other ≠ hybridID →
            (w.mapHybridKeys.insert hybridID mem).lookup other = w.mapHybridKeys.lookup other := by
          intro other hother
          rw [lookup_insert_ite, if_neg hother]
        simp only [hid, ne_eq, not_true_eq_false, if_false]
        by_cases hencrypted : disk.IsEncrypted = true
        · simp only [hencrypted, if_true]
          exact ⟨by simp [hid], rfl, rfl, hkeys, fun _ _ => rfl⟩
        · simp only [hencrypted, Bool.false_eq_true, if_false, false_or]
          cases henc : CHybridKeyDiskRecord.FromMemoryEncrypted C.toKeyCrypto mem vMasterKey with
          | none => exact ⟨by simp [henc], rfl, rfl, hkeys, fun _ _ => rfl⟩
          | some enc =>
            unfold WalletDbOutcome.WriteHybridKey
            by_cases hwrite : o.write (.hyb hybridID) = true
            · simp only [hwrite, if_true]
              refine ⟨by simp [hid, henc], rfl, rfl, hkeys, ?_⟩
              intro other hother
              rw [lookup_insert_ite, if_neg hother]
            · simp only [hwrite, Bool.false_eq_true, if_false]
              exact ⟨by simp, rfl, rfl, hkeys, fun _ _ => rfl⟩
      · simp only [hid, ne_eq, not_false_eq_true, if_true]
        exact ⟨by simp [hid], SameBut.refl hybridID w⟩
  · simp only [hcheck, Bool.false_eq_true, if_false, false_and, and_false]
    exact ⟨trivial, SameBut.refl hybridID w⟩

theorem decryptHybridKeys_loads {l : List CHybridKeyID} (hl : l.Nodup) (fOk : Bool)
    (hdisk : ∀ hybridID ∈ l, (w.mapHybridKeyDisk.lookup hybridID).isSome)
    (hnone : ∀ hybridID ∈ l, w.mapHybridKeys.lookup hybridID = none) :
    ((l.foldl (decryptHybridKey C.toKeyCrypto o vMasterKey) (fOk, w)).1 = true ↔
        fOk = true ∧ ∀ hybridID ∈ l, ∀ disk, w.mapHybridKeyDisk.lookup hybridID = some disk →
          RecordLoads C.toKeyCrypto o vMasterKey hybridID disk) ∧
      (l.foldl (decryptHybridKey C.toKeyCrypto o vMasterKey) (fOk, w)).2.fUseCrypto =
        w.fUseCrypto ∧
      (l.foldl (decryptHybridKey C.toKeyCrypto o vMasterKey) (fOk, w)).2.vMasterKey =
        w.vMasterKey := by
  induction l generalizing w fOk with
  | nil => simp
  | cons hybridID l ih =>
    obtain ⟨hfresh, hl⟩ := nodup_cons.mp hl
    obtain ⟨disk, hlookup⟩ := isSome_iff_exists.mp (hdisk hybridID mem_cons_self)
    obtain ⟨hstep, hsame⟩ := @decryptHybridKey_loads C o vMasterKey w hybridID
      disk fOk hlookup (hnone hybridID mem_cons_self)
    rw [foldl_cons]
    generalize decryptHybridKey C.toKeyCrypto o vMasterKey (fOk, w) hybridID = state
      at hstep hsame ⊢
    obtain ⟨ok, w'⟩ := state
    have hne : ∀ other ∈ l, other ≠ hybridID := fun other hmem heq => hfresh (heq ▸ hmem)
    obtain ⟨hrun, hcrypted, hmaster⟩ := ih (w := w') hl ok
      (fun other hmem => by
        rw [hsame.records other (hne other hmem)]
        exact hdisk other (mem_cons_of_mem _ hmem))
      (fun other hmem => by
        rw [hsame.loaded other (hne other hmem)]
        exact hnone other (mem_cons_of_mem _ hmem))
    refine ⟨?_, hcrypted.trans hsame.crypted, hmaster.trans hsame.master⟩
    rw [hrun, hstep, forall_mem_cons, hlookup]
    constructor
    · rintro ⟨⟨hok, hload⟩, hrest⟩
      refine ⟨hok, fun _ heq => some.inj heq ▸ hload, ?_⟩
      intro other hmem
      rw [← hsame.records other (hne other hmem)]
      exact hrest other hmem
    · rintro ⟨hok, hload, hrest⟩
      refine ⟨⟨hok, hload disk rfl⟩, ?_⟩
      intro other hmem
      rw [hsame.records other (hne other hmem)]
      exact hrest other hmem

/-! ## The search for the master key -/

def SearchFinds (C : PassphraseCrypto) (pass : SecureString) (vMasterKey : CKeyingMaterial) :
    List CMasterKey → Prop
  | [] => False
  | kMasterKey :: rest => ∃ other, C.openMasterKey pass kMasterKey = some other ∧
      (other = vMasterKey ∨ SearchFinds C pass vMasterKey rest)

variable {kMasterKey : CMasterKey} {other : CKeyingMaterial} {l : List (ℕ × CMasterKey)}

theorem searchFinds_append {l₁ l₂ : List CMasterKey}
    (hopen : C.openMasterKey pass kMasterKey = some vMasterKey) :
    SearchFinds C pass vMasterKey (l₁ ++ kMasterKey :: l₂) ↔
      (∀ k ∈ l₁, (C.openMasterKey pass k).isSome) ∨ SearchFinds C pass vMasterKey l₁ := by
  induction l₁ with
  | nil =>
    refine iff_of_true ⟨vMasterKey, hopen, Or.inl rfl⟩ (Or.inl ?_)
    intro k hk
    cases hk
  | cons k l₁ ih =>
    rw [cons_append, SearchFinds, SearchFinds, forall_mem_cons]
    cases C.openMasterKey pass k with
    | none => simp
    | some other =>
      simp only [some.injEq, exists_eq_left', isSome_some, true_and]
      tauto

/-- A record that the search finds. -/
theorem SearchFinds.exists_mem {l : List CMasterKey} (h : SearchFinds C pass vMasterKey l) :
    ∃ kMasterKey ∈ l, C.openMasterKey pass kMasterKey = some vMasterKey := by
  induction l with
  | nil => cases h
  | cons k rest ih =>
    obtain ⟨other, hopen, rfl | hrest⟩ := h
    · exact ⟨k, mem_cons_self, hopen⟩
    · obtain ⟨kMasterKey, hmem, hfound⟩ := ih hrest
      exact ⟨kMasterKey, mem_cons_of_mem k hmem, hfound⟩

structure KeysUnder (C : KeyCrypto) (vMasterKey : CKeyingMaterial) (w : HybridWallet) : Prop where
  crypted : w.fUseCrypto = true
  length : vMasterKey.length = WALLET_CRYPTO_KEY_SIZE
  hasKey : ∃ keyID, (w.mapCryptedKeys.lookup keyID).isSome
  sealed : ∀ keyID entry, w.mapCryptedKeys.lookup keyID = some entry →
    Sealed C vMasterKey entry.1 entry.2

def RightOrFoundOut (C : PassphraseCrypto) (vMasterKey : CKeyingMaterial) (pass : SecureString)
    (l : List CMasterKey) : Prop :=
  ∀ kMasterKey ∈ l, ∀ other, C.openMasterKey pass kMasterKey = some other →
    other = vMasterKey ∨ FoundOut C.toKeyCrypto vMasterKey other

section Search

variable (h : KeysUnder C.toKeyCrypto vMasterKey w)

include h

theorem KeysUnder.ne_nil : vMasterKey ≠ [] := by
  intro hnil
  have hlength := h.length
  rw [hnil] at hlength
  cases hlength

theorem KeysUnder.opensFirstKey : w.opensFirstKey C.toKeyCrypto vMasterKey = true := by
  unfold HybridWallet.opensFirstKey
  split
  · rfl
  · next vchPubKey vchCryptedSecret hfirst =>
    obtain ⟨keyID, _, hlookup⟩ := bind_eq_some_iff.mp hfirst
    obtain ⟨secret, hpub, hencrypt⟩ := h.sealed keyID _ hlookup
    rw [C.DecryptSecret_EncryptSecret hencrypt, bind_some, hpub]
    exact decide_eq_true rfl

theorem KeysUnder.unlockWith (hloaded : w.mapHybridKeys = ∅) :
    ∃ fOk w', w.unlockWith C.toKeyCrypto o vMasterKey = some (fOk, w') ∧
      (fOk = true ↔ HybridLoads C.toKeyCrypto o vMasterKey w) ∧ w'.IsLocked = ! fOk := by
  obtain ⟨hrun, hcrypted, hkept⟩ := @decryptHybridKeys_loads C o vMasterKey
    { w with vMasterKey := vMasterKey } (sortedKeys w.mapHybridKeyDisk)
    (nodup_sortedKeys _) true (fun hybridID hmem => mem_sortedKeys.mp hmem)
    (fun hybridID _ => by
      rw [hloaded]
      rfl)
  have hloads : (∀ hybridID ∈ sortedKeys w.mapHybridKeyDisk, ∀ disk,
      w.mapHybridKeyDisk.lookup hybridID = some disk →
        RecordLoads C.toKeyCrypto o vMasterKey hybridID disk) ↔
      HybridLoads C.toKeyCrypto o vMasterKey w := by
    constructor
    · intro hall hybridID disk hlookup
      apply hall hybridID _ disk hlookup
      exact mem_sortedKeys.mpr (isSome_of_eq_some hlookup)
    · intro hall hybridID _ disk
      exact hall hybridID disk
  rw [HybridWallet.unlockWith, if_pos h.opensFirstKey]
  unfold HybridWallet.DecryptHybridKeys
  generalize (sortedKeys w.mapHybridKeyDisk).foldl
    (HybridWallet.decryptHybridKey C.toKeyCrypto o vMasterKey)
    (true, { w with vMasterKey := vMasterKey }) = result at hrun hcrypted hkept ⊢
  obtain ⟨fOk, w'⟩ := result
  rw [hloads] at hrun
  dsimp only at hrun hcrypted hkept ⊢
  rw [h.crypted] at hcrypted
  cases fOk with
  | true =>
    refine ⟨true, w', rfl, by simpa using hrun, ?_⟩
    rw [IsLocked, hkept]
    simp [h.ne_nil]
  | false =>
    refine ⟨false, w'.Lock.2, rfl, by simpa using hrun, ?_⟩
    rw [Lock_of_crypted hcrypted]
    simp [IsLocked, lock, hcrypted]

/-- `Unlock` of a locked wallet succeeds where its search finds the master key and the hybrid
records load. -/
theorem KeysUnder.unlockFrom {l : List CMasterKey} (hmaster : w.vMasterKey = [])
    (hloaded : w.mapHybridKeys = ∅) (hright : RightOrFoundOut C vMasterKey pass l) :
    ((w.unlockFrom C o pass l).1 = true ↔
        SearchFinds C pass vMasterKey l ∧ HybridLoads C.toKeyCrypto o vMasterKey w) ∧
      (w.unlockFrom C o pass l).2.IsLocked = ! (w.unlockFrom C o pass l).1 := by
  have hlocked : w.IsLocked = true := by simp [IsLocked, h.crypted, hmaster]
  induction l with
  | nil => simpa [HybridWallet.unlockFrom, SearchFinds] using hlocked
  | cons kMasterKey rest ih =>
    have ih := ih fun k hk => hright k (mem_cons_of_mem kMasterKey hk)
    unfold HybridWallet.unlockFrom SearchFinds
    cases hopen : C.openMasterKey pass kMasterKey with
    | none => simpa using hlocked
    | some other =>
      simp only [some.injEq, exists_eq_left']
      by_cases hsame : other = vMasterKey
      · obtain ⟨fOk, w', hunlock, hok, hlock⟩ := h.unlockWith (o := o) hloaded
        rw [hsame, hunlock]
        simpa using ⟨hok, hlock⟩
      · have hfound := (hright kMasterKey mem_cons_self other hopen).resolve_left hsame
        have hfails : w.unlockWith C.toKeyCrypto o other = none := by
          rw [HybridWallet.unlockWith, opensFirstKey_of_foundOut h.sealed h.hasKey hfound]
          rfl
        rw [hfails]
        simpa [hsame] using ih

end Search

/-! ## The wallet and its file -/

/-- An encrypted wallet that agrees with its file, as it is after a start: the keys in the file are
encrypted, and the wallet is locked or holds the master key. -/
structure StoredWallet (C : KeyCrypto) (vMasterKey : CKeyingMaterial) (w : HybridWallet) : Prop
    extends KeysUnder C vMasterKey w where
  records : EncryptedRecords C w.db
  cryptedKeys : ∀ keyID entry, w.mapCryptedKeys.lookup keyID = some entry ↔
    C.GetID entry.1 = keyID ∧ w.db.ckey.lookup entry.1 = some entry.2
  hybridRecords : w.mapHybridKeyDisk = w.db.hyb
  checksums : ∀ hybridID disk, w.db.hyb.lookup hybridID = some disk → disk.CheckChecksum C = true
  masterKeys : w.mapMasterKeys = w.db.mkey
  state : w.vMasterKey = [] ∧ w.mapHybridKeys = ∅ ∨ w.vMasterKey = vMasterKey

section Stored

variable (h : StoredWallet C.toKeyCrypto vMasterKey w)

include h

theorem StoredWallet.isLocked_iff : w.IsLocked = true ↔ w.vMasterKey = [] := by
  simp [IsLocked, h.crypted]

theorem StoredWallet.locked (hlocked : w.IsLocked = true) :
    w.vMasterKey = [] ∧ w.mapHybridKeys = ∅ := by
  rcases h.state with hstate | hkey
  · exact hstate
  · have hnil := h.isLocked_iff.mp hlocked
    rw [hkey] at hnil
    exact absurd hnil h.ne_nil

/-- After a restart on the file with other master key records, a passphrase unlocks the wallet
where the search among them finds the master key. -/
theorem StoredWallet.restart_unlocks {db : WalletRecords} {mkey : Table ℕ CMasterKey}
    (hdb : db = { w.db with mkey := mkey })
    (hright : RightOrFoundOut C vMasterKey pass ((sortedEntries mkey).map Prod.snd)) :
    (∃ u, restart C pass db = some u ∧ u.IsLocked = false) ↔
      SearchFinds C pass vMasterKey ((sortedEntries mkey).map Prod.snd) ∧
        HybridLoads C.toKeyCrypto {} vMasterKey w := by
  subst hdb
  have hencrypted : EncryptedRecords C.toKeyCrypto { w.db with mkey := mkey } :=
    ⟨h.records.key, h.records.wkey, h.records.ids⟩
  obtain ⟨w₁, hload, hreloaded⟩ := hencrypted.loadKeys
  obtain ⟨keyID, hkeyID⟩ := h.hasKey
  obtain ⟨entry, hentry⟩ := isSome_iff_exists.mp hkeyID
  have hw₁ := hreloaded
    ⟨entry.1, mem_of_lookup_eq_some ((h.cryptedKeys keyID entry).mp hentry).2⟩ h.checksums
  have hkeys : KeysUnder C.toKeyCrypto vMasterKey w₁ := by
    refine ⟨hw₁.crypted, h.length, ⟨keyID, ?_⟩, ?_⟩
    · apply isSome_of_eq_some
      exact (hw₁.cryptedKeys keyID entry).mpr ((h.cryptedKeys keyID entry).mp hentry)
    · intro keyID' entry' hlookup
      apply h.sealed keyID' entry'
      exact (h.cryptedKeys keyID' entry').mpr ((hw₁.cryptedKeys keyID' entry').mp hlookup)
  have hlocked : w₁.IsLocked = true := by
    simp [IsLocked, hw₁.crypted, hw₁.noMasterKey]
  have hmasters : (sortedKeys w₁.mapMasterKeys).filterMap w₁.mapMasterKeys.lookup =
      (sortedEntries mkey).map Prod.snd := by
    rw [hw₁.masterKeys, map_snd_sortedEntries]
  have hloads : HybridLoads C.toKeyCrypto {} vMasterKey w₁ ↔
      HybridLoads C.toKeyCrypto {} vMasterKey w := by
    unfold HybridLoads
    rw [hw₁.hybridRecords, h.hybridRecords]
  obtain ⟨hunlock, hstate⟩ := hkeys.unlockFrom (o := {}) hw₁.noMasterKey hw₁.noHybridKeys hright
  rw [hloads] at hunlock
  rw [← hunlock]
  unfold restart Unlock
  rw [hload, map_some, if_pos hlocked, if_neg (not_not.mpr hlocked), hmasters]
  constructor
  · rintro ⟨u, hu, hopened⟩
    rw [some.inj hu, hopened] at hstate
    simpa using hstate.symm
  · intro htrue
    refine ⟨_, rfl, ?_⟩
    rw [hstate, htrue]
    rfl

end Stored

/-! ## The change -/

variable {s : IndexedWallet} {old new : SecureString} {n : ℕ}

def changedRecord (C : PassphraseCrypto) (new : SecureString) (n : ℕ) (kMasterKey : CMasterKey)
    (vMasterKey : CKeyingMaterial) : CMasterKey :=
  let derived := C.EVP_BytesToKey new kMasterKey.vchSalt (max n 25000)
  { kMasterKey with
    nDeriveIterations := max n 25000
    vchCryptedKey := C.aesEncrypt derived.1 derived.2 vMasterKey }

theorem SetKeyFromPassphrase_of_open (hopen : C.openMasterKey old kMasterKey = some other)
    (new : SecureString) (n : ℕ) :
    C.SetKeyFromPassphrase new kMasterKey.vchSalt (max n 25000) kMasterKey.nDerivationMethod =
      some (C.EVP_BytesToKey new kMasterKey.vchSalt (max n 25000)) := by
  obtain ⟨derived, hset, -⟩ := bind_eq_some_iff.mp hopen
  unfold PassphraseCrypto.SetKeyFromPassphrase at hset ⊢
  split at hset
  · cases hset
  · next hsalt =>
    split at hset
    · next hmethod =>
      rw [if_neg, if_pos hmethod]
      rintro (hrounds | hlength)
      · omega
      · exact hsalt (Or.inr hlength)
    · cases hset

theorem openMasterKey_changedRecord (hopen : C.openMasterKey old kMasterKey = some other) :
    C.openMasterKey new (changedRecord C new n kMasterKey vMasterKey) = some vMasterKey := by
  have hset := SetKeyFromPassphrase_of_open hopen new n
  rw [PassphraseCrypto.openMasterKey, changedRecord, hset]
  exact C.aesDecrypt_aesEncrypt _ _ vMasterKey

structure FirstMatch (C : PassphraseCrypto) (pass : SecureString) (vMasterKey : CKeyingMaterial)
    (l l₁ : List (ℕ × CMasterKey)) (nID : ℕ) (kMasterKey : CMasterKey)
    (l₂ : List (ℕ × CMasterKey)) : Prop where
  eq : l = l₁ ++ (nID, kMasterKey) :: l₂
  others : ∀ entry ∈ l₁, ∃ other, C.openMasterKey pass entry.2 = some other ∧ other ≠ vMasterKey
  opens : C.openMasterKey pass kMasterKey = some vMasterKey

theorem searchFinds_iff_firstMatch :
    SearchFinds C pass vMasterKey (l.map Prod.snd) ↔
      ∃ l₁ nID kMasterKey l₂, FirstMatch C pass vMasterKey l l₁ nID kMasterKey l₂ := by
  constructor
  · intro hfinds
    induction l with
    | nil => cases hfinds
    | cons entry rest ih =>
      obtain ⟨other, hopen, hrest⟩ := hfinds
      by_cases hsame : other = vMasterKey
      · exact ⟨[], entry.1, entry.2, rest, rfl, nofun, hsame ▸ hopen⟩
      · obtain ⟨l₁, nID, kMasterKey, l₂, hmatch⟩ := ih (hrest.resolve_left hsame)
        refine ⟨entry :: l₁, nID, kMasterKey, l₂, ?_, ?_, hmatch.opens⟩
        · rw [hmatch.eq, cons_append]
        · exact forall_mem_cons.mpr ⟨⟨other, hopen, hsame⟩, hmatch.others⟩
  · rintro ⟨l₁, nID, kMasterKey, l₂, hmatch⟩
    rw [hmatch.eq, map_append, map_cons, searchFinds_append hmatch.opens]
    refine Or.inl fun k hk => ?_
    obtain ⟨entry, hentry, rfl⟩ := mem_map.mp hk
    obtain ⟨other, hopen, -⟩ := hmatch.others entry hentry
    exact isSome_of_eq_some hopen

theorem KeysUnder.unlockKeyStore_foundOut (h : KeysUnder C.toKeyCrypto vMasterKey w)
    (hfound : FoundOut C.toKeyCrypto vMasterKey other) :
    w.unlockKeyStore C other = (false, w) := by
  rw [unlockKeyStore, SetCrypted, if_pos h.crypted]
  dsimp only
  rw [opensFirstKey_of_foundOut h.sealed h.hasKey hfound]
  exact if_neg (by decide)

theorem KeysUnder.unlockKeyStore (h : KeysUnder C.toKeyCrypto vMasterKey w) :
    w.unlockKeyStore C vMasterKey = (true, { w with vMasterKey := vMasterKey }) := by
  rw [HybridWallet.unlockKeyStore, HybridWallet.SetCrypted, if_pos h.crypted]
  dsimp only
  rw [if_neg (by decide), if_pos h.opensFirstKey]

theorem changeFrom_refused (h : KeysUnder C.toKeyCrypto vMasterKey s.toHybridWallet)
    (fWasLocked : Bool) (hright : RightOrFoundOut C vMasterKey old (l.map Prod.snd))
    (hfails : ¬ SearchFinds C old vMasterKey (l.map Prod.snd)) :
    s.changeFrom C o old new n fWasLocked l = (false, s) := by
  induction l with
  | nil => rfl
  | cons entry rest ih =>
    rw [IndexedWallet.changeFrom]
    cases hopen : C.openMasterKey old entry.2 with
    | none => rfl
    | some other =>
      have hother := hright entry.2 mem_cons_self other hopen
      have hne : other ≠ vMasterKey := fun heq => hfails ⟨other, hopen, Or.inl heq⟩
      dsimp only
      rw [h.unlockKeyStore_foundOut (hother.resolve_left hne)]
      apply ih
      · exact fun k hk => hright k (mem_cons_of_mem entry.2 hk)
      · exact fun hrest => hfails ⟨other, hopen, Or.inr hrest⟩

variable {l₁ l₂ : List (ℕ × CMasterKey)} {nID : ℕ}

theorem changeFrom_matched (h : KeysUnder C.toKeyCrypto vMasterKey s.toHybridWallet)
    (fWasLocked : Bool) (hright : RightOrFoundOut C vMasterKey old (l.map Prod.snd))
    (hmatch : FirstMatch C old vMasterKey l l₁ nID kMasterKey l₂) :
    s.changeFrom C o old new n fWasLocked l =
      IndexedWallet.rekey C o new n fWasLocked nID kMasterKey vMasterKey
        { s with vMasterKey := vMasterKey } := by
  obtain ⟨rfl, hothers, hopens⟩ := hmatch
  induction l₁ with
  | nil =>
    rw [nil_append, IndexedWallet.changeFrom, hopens]
    dsimp only
    rw [h.unlockKeyStore]
    rfl
  | cons entry l₁ ih =>
    obtain ⟨⟨other, hopen, hne⟩, hothers⟩ := forall_mem_cons.mp hothers
    have hother := hright entry.2 mem_cons_self other hopen
    rw [cons_append, IndexedWallet.changeFrom, hopen]
    dsimp only
    rw [h.unlockKeyStore_foundOut (hother.resolve_left hne)]
    exact ih hothers fun k hk => hright k (mem_cons_of_mem entry.2 hk)

def writtenMasterKey (o : WalletDbOutcome) (nID : ℕ) (kMasterKey : CMasterKey)
    (db : WalletRecords) : WalletRecords :=
  if o.write (.mkey nID) then { db with mkey := db.mkey.insert nID kMasterKey } else db

/-- The record is made again in memory and, if the write succeeds, in the file. -/
theorem rekey_of_open (hopen : C.openMasterKey old kMasterKey = some vMasterKey)
    (new : SecureString) (n : ℕ) (fWasLocked : Bool) (nID : ℕ) :
    ∃ t : IndexedWallet, IndexedWallet.rekey C o new n fWasLocked nID kMasterKey vMasterKey s =
        (true, if fWasLocked then t.Lock.2 else t) ∧
      t.toCKeyStore = s.toCKeyStore ∧
      t.db = writtenMasterKey o nID (changedRecord C new n kMasterKey vMasterKey) s.db := by
  have hset := SetKeyFromPassphrase_of_open hopen new n
  unfold IndexedWallet.rekey
  dsimp only
  rw [hset]
  refine ⟨_, rfl, rfl, ?_⟩
  unfold WalletDbOutcome.WriteMasterKey writtenMasterKey
  split
  · rfl
  · rfl

section

variable (h : StoredWallet C.toKeyCrypto vMasterKey s.toHybridWallet)
  (hright : RightOrFoundOut C vMasterKey old ((sortedEntries s.mapMasterKeys).map Prod.snd))
include h hright

/-- What a change that succeeds leaves behind: the lock state of before, no hybrid keys in memory,
and the new record if it could be written. -/
theorem StoredWallet.changed
    (hmatch : FirstMatch C old vMasterKey (sortedEntries s.mapMasterKeys) l₁ nID kMasterKey
      l₂) (new : SecureString) (n : ℕ) :
    ∃ s', s.ChangeWalletPassphrase C o old new n = (true, s') ∧ s'.fUseCrypto = true ∧
      s'.vMasterKey = s.vMasterKey ∧ s'.mapCryptedKeys = s.mapCryptedKeys ∧
      s'.mapHybridKeys = ∅ ∧
      s'.db = writtenMasterKey o nID (changedRecord C new n kMasterKey vMasterKey) s.db := by
  have hcrypted : s.IsCrypted = true := h.crypted
  have hlock : s.Lock.2.toHybridWallet =
      { s.toHybridWallet with toCKeyStore := s.lock, setUnusedHybridKeys := ∅ } := by
    rw [lock_toHybridWallet]
    exact Lock_of_crypted hcrypted
  have hkeys : KeysUnder C.toKeyCrypto vMasterKey s.Lock.2.toHybridWallet := by
    rw [hlock]
    exact ⟨h.crypted, h.length, h.hasKey, h.sealed⟩
  have hchange : s.Lock.2.changeFrom C o old new n s.IsLocked
      (sortedEntries s.mapMasterKeys) = _ :=
    changeFrom_matched hkeys s.IsLocked hright hmatch
  obtain ⟨t, hrekey, hstore, hdb⟩ := rekey_of_open (o := o)
    (s := { s.Lock.2 with vMasterKey := vMasterKey }) hmatch.opens new n s.IsLocked nID
  dsimp only at hstore hdb
  rw [hlock] at hstore hdb
  refine ⟨_, hchange.trans hrekey, ?_⟩
  have hused : t.fUseCrypto = true := by
    rw [hstore]
    exact h.crypted
  by_cases hlocked : s.IsLocked = true
  · rw [if_pos hlocked, lock_toHybridWallet, Lock_of_crypted hused]
    refine ⟨hused, (h.locked hlocked).1.symm, ?_, rfl, hdb⟩
    rw [hstore]
    rfl
  · rw [if_neg hlocked]
    refine ⟨hused, ?_, ?_, ?_, hdb⟩
    · rw [hstore]
      rcases h.state with ⟨hnil, -⟩ | hkey
      · exact absurd (h.isLocked_iff.mpr hnil) hlocked
      · exact hkey.symm
    · rw [hstore]
      rfl
    · rw [hstore]
      rfl

/-- A change whose search fails leaves the wallet locked. -/
theorem StoredWallet.refused
    (hfails : ¬ SearchFinds C old vMasterKey ((sortedEntries s.mapMasterKeys).map Prod.snd)) :
    s.ChangeWalletPassphrase C o old new n = (false, s.Lock.2) := by
  have hkeys : KeysUnder C.toKeyCrypto vMasterKey s.Lock.2.toHybridWallet := by
    rw [lock_toHybridWallet, Lock_of_crypted h.crypted]
    exact ⟨h.crypted, h.length, h.hasKey, h.sealed⟩
  exact changeFrom_refused hkeys s.IsLocked hright hfails

end

/-! ## Exactness -/

/-- The lock state and the keys that can be used are the same. -/
structure SameUse (C : KeyCrypto) (s s' : HybridWallet) : Prop where
  locked : s'.IsLocked = s.IsLocked
  legacy : ∀ keyID, s'.toCKeyStore.GetKey C keyID = s.toCKeyStore.GetKey C keyID
  hybrid : s'.mapHybridKeys = s.mapHybridKeys

/-- What a change of the passphrase should do: after a restart the new passphrase unlocks the
wallet, the old one no longer opens a master key that it opened, and nothing else changes. -/
structure PassphraseChanged (C : PassphraseCrypto) (vMasterKey : CKeyingMaterial)
    (s s' : HybridWallet) (old new : SecureString) : Prop extends SameUse C.toKeyCrypto s s' where
  unlocks : ∃ u, restart C new s'.db = some u ∧ u.IsLocked = false
  replaced : ∃ nID kMasterKey kMasterKey', s.db.mkey.lookup nID = some kMasterKey ∧
    C.openMasterKey old kMasterKey = some vMasterKey ∧
    s'.db.mkey.lookup nID = some kMasterKey' ∧
    (old ≠ new → C.openMasterKey old kMasterKey' ≠ some vMasterKey)

structure ExactChange (C : PassphraseCrypto) (vMasterKey : CKeyingMaterial) (s : IndexedWallet)
    (old new : SecureString) (result : Bool × IndexedWallet) : Prop where
  done : result.1 = true →
    PassphraseChanged C vMasterKey s.toHybridWallet result.2.toHybridWallet old new
  undone : result.1 = false → SameUse C.toKeyCrypto s.toHybridWallet result.2.toHybridWallet ∧
    result.2.mapMasterKeys = s.mapMasterKeys ∧ result.2.db.mkey = s.db.mkey

/-- `Unlock` succeeds exactly where the passphrase decrypts one of the master keys. -/
def ExactUnlock (C : PassphraseCrypto) (o : WalletDbOutcome) (vMasterKey : CKeyingMaterial)
    (w : HybridWallet) (pass : SecureString) : Prop :=
  (w.Lock.2.Unlock C o pass).1 = true ↔ ∃ nID kMasterKey,
    w.mapMasterKeys.lookup nID = some kMasterKey ∧ C.openMasterKey pass kMasterKey = some vMasterKey

def FitToChange (C : PassphraseCrypto) (o : WalletDbOutcome) (vMasterKey : CKeyingMaterial)
    (s : HybridWallet) (old new : SecureString) : Prop :=
  s.IsLocked = true ∧
      ¬ SearchFinds C old vMasterKey ((sortedEntries s.mapMasterKeys).map Prod.snd) ∨
    ∃ l₁ nID kMasterKey l₂,
      FirstMatch C old vMasterKey (sortedEntries s.mapMasterKeys) l₁ nID kMasterKey l₂ ∧
      s.mapHybridKeys = ∅ ∧ (o.write (.mkey nID) = true ∨ old = new) ∧
      ((∀ k ∈ l₁.map Prod.snd, (C.openMasterKey new k).isSome) ∨
        SearchFinds C new vMasterKey (l₁.map Prod.snd)) ∧
      HybridLoads C.toKeyCrypto {} vMasterKey s

/-- When `Unlock` is exact. -/
def FitToUnlock (C : PassphraseCrypto) (o : WalletDbOutcome) (vMasterKey : CKeyingMaterial)
    (w : HybridWallet) (pass : SecureString) : Prop :=
  ∀ nID kMasterKey, w.mapMasterKeys.lookup nID = some kMasterKey →
    C.openMasterKey pass kMasterKey = some vMasterKey →
      SearchFinds C pass vMasterKey ((sortedEntries w.mapMasterKeys).map Prod.snd) ∧
        HybridLoads C.toKeyCrypto o vMasterKey w

/-- What is assumed of the encryption of the master keys: a wrong passphrase gives nothing or a key
that is found out, and the right passphrase of a record is the only one. -/
structure RightPassphrases (C : PassphraseCrypto) (vMasterKey : CKeyingMaterial)
    (w : HybridWallet) (old new pass : SecureString) : Prop where
  ofOld : RightOrFoundOut C vMasterKey old ((sortedEntries w.mapMasterKeys).map Prod.snd)
  ofNew : RightOrFoundOut C vMasterKey new ((sortedEntries w.mapMasterKeys).map Prod.snd)
  ofPass : RightOrFoundOut C vMasterKey pass ((sortedEntries w.mapMasterKeys).map Prod.snd)
  only : old ≠ new → ∀ kMasterKey, C.openMasterKey new kMasterKey = some vMasterKey →
    C.openMasterKey old kMasterKey ≠ some vMasterKey

/-- The keystore decides what can be used of the legacy keys. -/
theorem SameUse.of_crypted {C : KeyCrypto} {s s' : HybridWallet} (hcrypted : s.fUseCrypto = true)
    (hcrypted' : s'.fUseCrypto = true) (hmaster : s'.vMasterKey = s.vMasterKey)
    (hkeys : s'.mapCryptedKeys = s.mapCryptedKeys) (hhybrid : s'.mapHybridKeys = s.mapHybridKeys) :
    SameUse C s s' := by
  refine ⟨?_, ?_, hhybrid⟩
  · unfold IsLocked
    rw [hcrypted, hcrypted', hmaster]
  · intro keyID
    unfold GetKey
    rw [hcrypted, hcrypted', hmaster, hkeys, if_pos rfl, if_pos rfl]

theorem StoredWallet.exact_refused (h : StoredWallet C.toKeyCrypto vMasterKey s.toHybridWallet)
    (hright : RightOrFoundOut C vMasterKey old ((sortedEntries s.mapMasterKeys).map Prod.snd))
    (hfails : ¬ SearchFinds C old vMasterKey ((sortedEntries s.mapMasterKeys).map Prod.snd)) :
    ExactChange C vMasterKey s old new (s.ChangeWalletPassphrase C o old new n) ↔
      s.IsLocked = true := by
  rw [h.refused hright hfails]
  have hlock : s.Lock.2.toHybridWallet =
      { s.toHybridWallet with toCKeyStore := s.lock, setUnusedHybridKeys := ∅ } := by
    rw [lock_toHybridWallet]
    exact Lock_of_crypted h.crypted
  constructor
  · intro hexact
    have hsame := (hexact.undone rfl).1.locked
    rw [← hsame, hlock]
    simp [IsLocked, lock, h.crypted]
  · intro hlocked
    obtain ⟨hmaster, hloaded⟩ := h.locked hlocked
    refine ⟨fun hdone => absurd hdone Bool.false_ne_true, fun _ => ⟨?_, ?_, ?_⟩⟩
    · rw [hlock]
      exact SameUse.of_crypted h.crypted h.crypted hmaster.symm rfl hloaded.symm
    · rw [hlock]
    · rw [hlock]

section Changed

variable {l₁ l₂ : List (ℕ × CMasterKey)} {nID : ℕ} {kMasterKey : CMasterKey}

/-- With the new record in the file, the new passphrase unlocks the wallet where it gets past the
records before it. -/
theorem StoredWallet.restart_written (h : StoredWallet C.toKeyCrypto vMasterKey w)
    (hright : RightOrFoundOut C vMasterKey new ((sortedEntries w.mapMasterKeys).map Prod.snd))
    (hmatch : FirstMatch C old vMasterKey (sortedEntries w.mapMasterKeys) l₁ nID kMasterKey
      l₂) {db : WalletRecords} (hdb : db = { w.db with
      mkey := w.db.mkey.insert nID (changedRecord C new n kMasterKey vMasterKey) }) :
    (∃ u, restart C new db = some u ∧ u.IsLocked = false) ↔
      ((∀ k ∈ l₁.map Prod.snd, (C.openMasterKey new k).isSome) ∨
        SearchFinds C new vMasterKey (l₁.map Prod.snd)) ∧
      HybridLoads C.toKeyCrypto {} vMasterKey w := by
  have hopen : C.openMasterKey new (changedRecord C new n kMasterKey vMasterKey) =
      some vMasterKey := openMasterKey_changedRecord hmatch.opens
  have hentries := hmatch.eq
  rw [h.masterKeys] at hentries hright
  have hnew : (sortedEntries (w.db.mkey.insert nID
      (changedRecord C new n kMasterKey vMasterKey))).map Prod.snd =
        l₁.map Prod.snd ++ changedRecord C new n kMasterKey vMasterKey :: l₂.map Prod.snd := by
    rw [sortedEntries_insert hentries, map_append, map_cons]
  rw [hentries, map_append] at hright
  rw [h.restart_unlocks hdb, hnew, searchFinds_append hopen]
  rw [hnew]
  intro k hk other hother
  rcases mem_append.mp hk with hmem | hmem
  · exact hright k (mem_append_left _ hmem) other hother
  · rcases mem_cons.mp hmem with rfl | hmem
    · rw [hopen] at hother
      exact Or.inl (some.inj hother).symm
    · exact hright k (mem_append_right _ (mem_cons_of_mem _ hmem)) other hother

/-- A change whose search finds the master key is exact where no hybrid key was loaded, the new
record is written or not needed, and the new passphrase gets as far as that record. -/
theorem StoredWallet.exact_matched (h : StoredWallet C.toKeyCrypto vMasterKey s.toHybridWallet)
    (hright : RightPassphrases C vMasterKey s.toHybridWallet old new pass)
    (hmatch : FirstMatch C old vMasterKey (sortedEntries s.mapMasterKeys) l₁ nID kMasterKey
      l₂) :
    ExactChange C vMasterKey s old new (s.ChangeWalletPassphrase C o old new n) ↔
      s.mapHybridKeys = ∅ ∧ (o.write (.mkey nID) = true ∨ old = new) ∧
      ((∀ k ∈ l₁.map Prod.snd, (C.openMasterKey new k).isSome) ∨
        SearchFinds C new vMasterKey (l₁.map Prod.snd)) ∧
      HybridLoads C.toKeyCrypto {} vMasterKey s.toHybridWallet := by
  obtain ⟨s', hresult, hcrypted, hmaster, hkeys, hhybrid, hdb⟩ :=
    h.changed (o := o) hright.ofOld hmatch new n
  have hlookup : s.db.mkey.lookup nID = some kMasterKey := by
    have hmem : (nID, kMasterKey) ∈ sortedEntries s.mapMasterKeys := by
      rw [hmatch.eq]
      exact mem_append_right l₁ mem_cons_self
    rw [← h.masterKeys]
    exact mem_sortedEntries.mp hmem
  have hopen : C.openMasterKey new (changedRecord C new n kMasterKey vMasterKey) =
      some vMasterKey := openMasterKey_changedRecord hmatch.opens
  have hdone : ExactChange C vMasterKey s old new (true, s') ↔
      PassphraseChanged C vMasterKey s.toHybridWallet s'.toHybridWallet old new :=
    ⟨fun hexact => hexact.done rfl, fun hchanged => ⟨fun _ => hchanged, nofun⟩⟩
  have hsame : SameUse C.toKeyCrypto s.toHybridWallet s'.toHybridWallet ↔ s.mapHybridKeys = ∅ := by
    constructor
    · intro hsame
      rw [← hsame.hybrid, hhybrid]
    · intro hempty
      exact SameUse.of_crypted h.crypted hcrypted hmaster hkeys (hhybrid.trans hempty.symm)
  rw [hresult, hdone]
  unfold writtenMasterKey at hdb
  by_cases hwrite : o.write (.mkey nID) = true
  · rw [if_pos hwrite] at hdb
    have hrestart := h.restart_written hright.ofNew hmatch hdb
    rw [← hrestart]
    constructor
    · intro hchanged
      exact ⟨hsame.mp hchanged.toSameUse, Or.inl hwrite, hchanged.unlocks⟩
    · rintro ⟨hempty, -, hunlocks⟩
      refine ⟨hsame.mpr hempty, hunlocks, nID, kMasterKey,
        changedRecord C new n kMasterKey vMasterKey, hlookup, hmatch.opens, ?_, ?_⟩
      · rw [hdb]
        exact lookup_insert _
      · intro hne
        exact hright.only hne _ hopen
  · rw [if_neg hwrite] at hdb
    have hnot : (∃ nID kMasterKey kMasterKey', s.db.mkey.lookup nID = some kMasterKey ∧
        C.openMasterKey old kMasterKey = some vMasterKey ∧
        s'.db.mkey.lookup nID = some kMasterKey' ∧
        (old ≠ new → C.openMasterKey old kMasterKey' ≠ some vMasterKey)) ↔ old = new := by
      rw [hdb]
      constructor
      · rintro ⟨nID', k, k', hk, hopens, hk', hgone⟩
        by_contra hne
        rw [hk] at hk'
        rw [some.inj hk'] at hopens
        exact hgone hne hopens
      · intro heq
        exact ⟨nID, kMasterKey, kMasterKey, hlookup, hmatch.opens, hlookup,
          fun hne => absurd heq hne⟩
    have hpasses : old = new → ∀ k ∈ l₁.map Prod.snd, (C.openMasterKey new k).isSome := by
      rintro rfl k hk
      obtain ⟨entry, hentry, rfl⟩ := mem_map.mp hk
      obtain ⟨other, hother, -⟩ := hmatch.others entry hentry
      exact isSome_of_eq_some hother
    have hrestart : old = new → ((∃ u, restart C new s'.db = some u ∧ u.IsLocked = false) ↔
        HybridLoads C.toKeyCrypto {} vMasterKey s.toHybridWallet) := by
      rintro rfl
      have hall := hright.ofOld
      rw [h.masterKeys] at hall
      rw [h.restart_unlocks hdb hall, ← h.masterKeys]
      exact and_iff_right (searchFinds_iff_firstMatch.mpr ⟨l₁, nID, kMasterKey, l₂, hmatch⟩)
    constructor
    · intro hchanged
      have heq := hnot.mp hchanged.replaced
      exact ⟨hsame.mp hchanged.toSameUse, Or.inr heq, Or.inl (hpasses heq),
        (hrestart heq).mp hchanged.unlocks⟩
    · rintro ⟨hempty, hwritten, -, hloads⟩
      have heq := hwritten.resolve_left hwrite
      exact ⟨hsame.mpr hempty, (hrestart heq).mpr hloads, hnot.mpr heq⟩

end Changed

/-- `Unlock` is exact where its search finds every master key that the passphrase decrypts and the
hybrid records load. -/
theorem StoredWallet.exactUnlock_iff (h : StoredWallet C.toKeyCrypto vMasterKey w)
    (hright : RightOrFoundOut C vMasterKey pass
      ((sortedEntries w.mapMasterKeys).map Prod.snd)) :
    ExactUnlock C o vMasterKey w pass ↔ FitToUnlock C o vMasterKey w pass := by
  have hkeys : KeysUnder C.toKeyCrypto vMasterKey w.Lock.2 := by
    rw [Lock_of_crypted h.crypted]
    exact ⟨h.crypted, h.length, h.hasKey, h.sealed⟩
  have hlock := Lock_of_crypted (w := w) h.crypted
  have hlocked : w.Lock.2.IsLocked = true := by
    rw [hlock]
    simp [IsLocked, lock, h.crypted]
  have hmaster : w.Lock.2.vMasterKey = [] := by
    rw [hlock]
    rfl
  have hloaded : w.Lock.2.mapHybridKeys = ∅ := by
    rw [hlock]
    rfl
  have hentries : (sortedKeys w.Lock.2.mapMasterKeys).filterMap
      w.Lock.2.mapMasterKeys.lookup = (sortedEntries w.mapMasterKeys).map Prod.snd := by
    rw [hlock, map_snd_sortedEntries]
  have hloads : HybridLoads C.toKeyCrypto o vMasterKey w.Lock.2 ↔
      HybridLoads C.toKeyCrypto o vMasterKey w := by
    rw [hlock]
    rfl
  have hunlock := (hkeys.unlockFrom (o := o) hmaster hloaded hright).1
  unfold ExactUnlock FitToUnlock Unlock
  rw [if_neg (not_not.mpr hlocked), hentries, hunlock, hloads]
  constructor
  · intro hexact nID kMasterKey hlookup hopen
    exact hexact.mpr ⟨nID, kMasterKey, hlookup, hopen⟩
  · intro hfit
    constructor
    · rintro ⟨hfinds, -⟩
      obtain ⟨kMasterKey, hmem, hopen⟩ := hfinds.exists_mem
      obtain ⟨entry, hentry, rfl⟩ := mem_map.mp hmem
      exact ⟨entry.1, entry.2, mem_sortedEntries.mp hentry, hopen⟩
    · rintro ⟨nID, kMasterKey, hlookup, hopen⟩
      exact hfit nID kMasterKey hlookup hopen

/-- A change of the passphrase is exact where it is refused in a locked wallet; or no hybrid key
was loaded, the record of the master key is written or the passphrase is the old one, and the new
passphrase gets past the records before it. `Unlock` is exact where no record before the one that
the passphrase decrypts ends the search. Either needs hybrid records that load. -/
theorem changeWalletPassphrase_exact_iff (C : PassphraseCrypto) (o o' : WalletDbOutcome)
    (vMasterKey : CKeyingMaterial) (s : IndexedWallet) (old new pass : SecureString) (n : ℕ)
    (h : StoredWallet C.toKeyCrypto vMasterKey s.toHybridWallet)
    (hright : RightPassphrases C vMasterKey s.toHybridWallet old new pass) :
    ExactChange C vMasterKey s old new (s.ChangeWalletPassphrase C o old new n) ∧
        ExactUnlock C o' vMasterKey s.toHybridWallet pass ↔
      FitToChange C o vMasterKey s.toHybridWallet old new ∧
        FitToUnlock C o' vMasterKey s.toHybridWallet pass := by
  rw [h.exactUnlock_iff hright.ofPass]
  apply and_congr_left
  intro _
  by_cases hfinds : SearchFinds C old vMasterKey
    ((sortedEntries s.mapMasterKeys).map Prod.snd)
  · constructor
    · intro hexact
      obtain ⟨l₁, nID, kMasterKey, l₂, hmatch⟩ := searchFinds_iff_firstMatch.mp hfinds
      exact Or.inr ⟨l₁, nID, kMasterKey, l₂, hmatch, (h.exact_matched hright hmatch).mp hexact⟩
    · rintro (⟨-, hfails⟩ | ⟨l₁, nID, kMasterKey, l₂, hmatch, hfit⟩)
      · exact absurd hfinds hfails
      · exact (h.exact_matched hright hmatch).mpr hfit
  · rw [h.exact_refused hright.ofOld hfinds]
    constructor
    · intro hlocked
      exact Or.inl ⟨hlocked, hfinds⟩
    · rintro (⟨hlocked, -⟩ | ⟨l₁, nID, kMasterKey, l₂, hmatch, -⟩)
      · exact hlocked
      · exact absurd (searchFinds_iff_firstMatch.mpr ⟨l₁, nID, kMasterKey, l₂, hmatch⟩) hfinds

namespace PassphraseExample

/-- The master key record of the passphrase `[1]`. -/
def masterKeyRecord : CMasterKey where
  vchCryptedKey := replicate 32 7 ++ (1 :: replicate 8 3 ++ replicate 23 0)
  vchSalt := replicate 8 3
  nDerivationMethod := 0
  nDeriveIterations := 25000
  vchOtherDerivationParameters := []

def secret : CSecret := replicate 32 1

def pubKey : CPubKey := 2 :: secret

def cryptedSecret : valtype := secret ++ replicate 32 7

def records : WalletRecords where
  key := ∅
  wkey := ∅
  ckey := singleton pubKey cryptedSecret
  keymeta := ∅
  hyb := ∅
  hybaddr := ∅
  hybused := none
  mkey := singleton 1 masterKeyRecord
  pool := ∅

def wallet (vMasterKey : CKeyingMaterial) : IndexedWallet :=
  .ofWallet { blank records with
    fUseCrypto := true
    vMasterKey := vMasterKey
    mapCryptedKeys := singleton (exampleCrypto.GetID pubKey)
      (pubKey, cryptedSecret)
    mapMasterKeys := records.mkey }

theorem sealed_secret : Sealed exampleCrypto (replicate 32 7) pubKey cryptedSecret :=
  ⟨secret, by decide, by decide⟩

theorem lookup_singleton {K V : Type} [DecidableEq K] {k k' : K} {v v' : V}
    (h : (singleton k v : Table K V).lookup k' = some v') : k' = k ∧ v' = v := by
  have hmem : k' ∈ (singleton k v : Table K V) := mem_of_lookup_eq_some h
  have hk := (mem_singleton k' k v).mp hmem
  rw [hk, lookup_singleton_eq] at h
  exact ⟨hk, (some.inj h).symm⟩

theorem wallet_stored (vMasterKey : CKeyingMaterial)
    (hstate : vMasterKey = [] ∨ vMasterKey = replicate 32 7) :
    StoredWallet exampleCrypto (replicate 32 7) (wallet vMasterKey).toHybridWallet where
  crypted := rfl
  length := by decide
  hasKey := ⟨exampleCrypto.GetID pubKey, by
    exact isSome_of_eq_some (lookup_singleton_eq)⟩
  sealed := by
    intro keyID entry hlookup
    rw [(lookup_singleton hlookup).2]
    exact sealed_secret
  records := by
    refine ⟨rfl, rfl, ?_⟩
    intro pub pub' hmem hmem' _
    rw [(mem_singleton _ _ _).mp hmem, (mem_singleton _ _ _).mp hmem']
  cryptedKeys := by
    intro keyID entry
    constructor
    · intro hlookup
      obtain ⟨rfl, rfl⟩ := lookup_singleton hlookup
      exact ⟨rfl, lookup_singleton_eq⟩
    · rintro ⟨rfl, hlookup⟩
      obtain ⟨hpub, hsecret⟩ := lookup_singleton hlookup
      obtain ⟨pub, crypted⟩ := entry
      dsimp only at hpub hsecret
      rw [hpub, hsecret]
      exact lookup_singleton_eq
  hybridRecords := rfl
  checksums := nofun
  masterKeys := rfl
  state := hstate.imp_left fun hnil => ⟨hnil, rfl⟩

theorem sortedEntries_wallet (vMasterKey : CKeyingMaterial) :
    sortedEntries (wallet vMasterKey).mapMasterKeys = [(1, masterKeyRecord)] := by
  change sortedEntries (singleton 1 masterKeyRecord) = _
  decide

/-- A ciphertext ends with one key only. -/
theorem openMasterKey_unique {other' : CKeyingMaterial}
    (h : examplePassphraseCrypto.openMasterKey [1] kMasterKey = some other)
    (h' : examplePassphraseCrypto.openMasterKey [2] kMasterKey = some other') : False := by
  have hsuffix {pass : SecureString} {other : CKeyingMaterial}
      (hopen : examplePassphraseCrypto.openMasterKey pass kMasterKey = some other) :
      kMasterKey.vchSalt.length = 8 ∧
        (pass ++ kMasterKey.vchSalt ++ replicate 32 0).take 32 <:+
          kMasterKey.vchCryptedKey := by
    unfold PassphraseCrypto.openMasterKey PassphraseCrypto.SetKeyFromPassphrase at hopen
    obtain ⟨derived, hset, hdecrypt⟩ := bind_eq_some_iff.mp hopen
    split at hset
    · cases hset
    · next hsalt =>
      split at hset
      · cases hset
        dsimp only [examplePassphraseCrypto, exampleCrypto] at hdecrypt
        split at hdecrypt
        · next hend =>
          refine ⟨?_, isSuffixOf_iff_suffix.mp hend⟩
          by_contra hne
          exact hsalt (Or.inr hne)
        · cases hdecrypt
      · cases hset
  obtain ⟨hlength, hend⟩ := hsuffix h
  obtain ⟨-, hend'⟩ := hsuffix h'
  have hsame := (suffix_of_suffix_length_le hend hend' (by simp [hlength])).eq_of_length
    (by simp [hlength])
  simp at hsame

theorem rightOrFoundOut (hpass : pass = [1] ∨ pass = [2]) (vMasterKey : CKeyingMaterial) :
    RightOrFoundOut examplePassphraseCrypto (replicate 32 7) pass
      ((sortedEntries (wallet vMasterKey).mapMasterKeys).map Prod.snd) := by
  intro kMasterKey hmem other hopen
  rw [mem_singleton.mp hmem] at hopen
  rcases hpass with rfl | rfl
  · exact Or.inl (some.inj hopen).symm
  · cases hopen

end PassphraseExample

open PassphraseExample in
/-- In a locked wallet with one master key the change is exact, and so is `Unlock`. -/
theorem changeWalletPassphrase_exact_locked :
    ExactChange examplePassphraseCrypto (replicate 32 7) (wallet []) [1] [2]
        ((wallet []).ChangeWalletPassphrase examplePassphraseCrypto {} [1] [2] 25000) ∧
      ExactUnlock examplePassphraseCrypto {} (replicate 32 7) (wallet []).toHybridWallet
        [1] := by
  have hopens : examplePassphraseCrypto.openMasterKey [1] masterKeyRecord =
      some (replicate 32 7) := by decide
  have hloads (o : WalletDbOutcome) : HybridLoads examplePassphraseCrypto.toKeyCrypto o
      (replicate 32 7) (wallet []).toHybridWallet := nofun
  refine (changeWalletPassphrase_exact_iff examplePassphraseCrypto {} {} (replicate 32 7)
    (wallet []) [1] [2] [1] 25000 (wallet_stored [] (Or.inl rfl))
    ⟨rightOrFoundOut (Or.inl rfl) [], rightOrFoundOut (Or.inr rfl) [],
      rightOrFoundOut (Or.inl rfl) [], ?_⟩).mpr ⟨?_, ?_⟩
  · intro _ kMasterKey hnew hold
    exact openMasterKey_unique hold hnew
  · refine Or.inr ⟨[], 1, masterKeyRecord, [], ⟨?_, nofun, hopens⟩, rfl, Or.inl rfl,
      Or.inl nofun, hloads {}⟩
    exact sortedEntries_wallet []
  · intro nID kMasterKey hlookup hopen
    refine ⟨?_, hloads {}⟩
    exact ⟨replicate 32 7, hopens, Or.inl rfl⟩

open PassphraseExample in
/-- A wrong passphrase locks an unlocked wallet; and a change whose record is not written reports
success, and the new passphrase does not unlock the wallet after a restart. -/
theorem changeWalletPassphrase_inexact :
    ¬ ExactChange examplePassphraseCrypto (replicate 32 7) (wallet (replicate 32 7))
        [2] [3] ((wallet (replicate 32 7)).ChangeWalletPassphrase examplePassphraseCrypto {}
          [2] [3] 25000) ∧
      ¬ ExactChange examplePassphraseCrypto (replicate 32 7) (wallet []) [1] [2]
        ((wallet []).ChangeWalletPassphrase examplePassphraseCrypto
          { write := fun record => record ≠ .mkey 1 } [1] [2] 25000) := by
  constructor
  · intro hexact
    have hlocked := (hexact.undone (by decide)).1.locked
    revert hlocked
    decide
  · intro hexact
    obtain ⟨u, hu, hunlocked⟩ := (hexact.done (by decide)).unlocks
    have hrestart : (restart examplePassphraseCrypto [2]
        ((wallet []).ChangeWalletPassphrase examplePassphraseCrypto
          { write := fun record => record ≠ .mkey 1 } [1] [2] 25000).2.db).map
            (fun u => u.IsLocked) = some true := by with_unfolding_all decide
    rw [hu, map_some, hunlocked] at hrestart
    cases hrestart

end Phoenixcoin.Analysis
